import Mathlib.Tactic.Common

namespace MmsServer.Lib.StringMemory

variable {α : Type} [Inhabited α]

/-- A string in its memory: behind the value stand the terminator, which is the default,
and what is left of earlier values. `moved` counts how often it got other memory. -/
structure Storage (α : Type) where
  value : List α
  stale : List α := []
  moved : ℕ := 0
deriving DecidableEq

/-- A view has the address and the size of a string at one time. -/
structure View where
  moved : ℕ
  size : ℕ
deriving DecidableEq

namespace Storage

def memory (s : Storage α) : List α := s.value ++ default :: s.stale

def capacity (s : Storage α) : ℕ := s.value.length + s.stale.length

/-- A value that fits takes the place of the last one. Nothing points to new memory yet,
so that its size does not count. -/
def assign (s : Storage α) (v : List α) : Storage α :=
  if v.length ≤ s.capacity then { s with value := v, stale := s.memory.drop (v.length + 1) }
  else { value := v, moved := s.moved + 1 }

def view (s : Storage α) : View := ⟨s.moved, s.value.length⟩

/-- Memory that the string has left cannot be read. -/
def read (s : Storage α) (v : View) : Option (List α) :=
  if v.moved = s.moved then some (s.memory.take v.size) else none

/-- After the later values a view of the string reads one of the values. -/
def Survives (s : Storage α) (later : List (List α)) : Prop :=
  ∃ x ∈ s.value :: later, (later.foldl assign s).read s.view = some x

variable (s : Storage α)

@[simp] theorem assign_value (v : List α) : (s.assign v).value = v := by
  unfold assign
  split <;> rfl

@[simp] theorem assign_self : s.assign s.value = s := by
  have hfits : s.value.length ≤ s.capacity := Nat.le_add_right _ _
  have hstale : s.memory.drop (s.value.length + 1) = s.stale := by
    rw [memory, ← List.drop_drop, List.drop_left, List.drop_one, List.tail_cons]
  rw [assign, if_pos hfits, hstale]

theorem read_view : s.read s.view = some s.value := by
  rw [read, view, if_pos rfl, memory, List.take_left]

theorem survives_nil : s.Survives [] := ⟨s.value, List.mem_singleton_self _, s.read_view⟩

variable {s}

theorem view_assign {v : List α} (h : v.length = s.value.length) : (s.assign v).view = s.view := by
  have hfits : v.length ≤ s.capacity := h ▸ Nat.le_add_right _ _
  rw [assign, if_pos hfits, view, view, h]

/-- Values of one length take the place of each other. -/
theorem survives_of_length {later : List (List α)} (h : ∀ v ∈ later, v.length = s.value.length) :
    s.Survives later := by
  induction later generalizing s with
  | nil => exact s.survives_nil
  | cons v later ih =>
    rw [List.forall_mem_cons] at h
    obtain ⟨x, hx, hread⟩ := ih (s := s.assign v) (by
      intro w hw
      rw [assign_value, h.1]
      exact h.2 w hw)
    rw [assign_value] at hx
    exact ⟨x, List.mem_cons_of_mem _ hx, view_assign h.1 ▸ hread⟩

theorem value_foldl_mem (later : List (List α)) : (later.foldl assign s).value ∈ s.value :: later := by
  induction later generalizing s with
  | nil => exact List.mem_singleton_self _
  | cons v later ih =>
    have h := ih (s := s.assign v)
    rw [assign_value] at h
    exact List.mem_cons_of_mem _ h

/-- What a view reads begins as one of the values. -/
theorem read_head {later : List (List α)} (hne : ∀ v ∈ s.value :: later, v ≠ []) {x : List α}
    (hx : (later.foldl assign s).read s.view = some x) : ∃ v ∈ s.value :: later, x.head? = v.head? := by
  have hmem := value_foldl_mem (s := s) later
  refine ⟨_, hmem, ?_⟩
  have hsize : 0 < s.view.size := List.length_pos_iff.mpr (hne _ List.mem_cons_self)
  unfold read at hx
  split at hx
  · cases hx
    obtain ⟨a, l, hv⟩ := List.exists_cons_of_ne_nil (hne _ hmem)
    rw [List.head?_take, if_neg (Nat.ne_of_gt hsize), memory, hv]
    rfl
  · cases hx

end Storage

end MmsServer.Lib.StringMemory
