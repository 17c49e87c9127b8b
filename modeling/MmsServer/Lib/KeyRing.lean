import Mathlib.Algebra.Order.Ring.Nat
import Mathlib.Tactic.Common

namespace MmsServer.Lib.KeyRing

variable {κ ν : Type} [LinearOrder κ]

def Ascending (m : List (κ × ν)) : Prop := m.Pairwise fun e f ↦ e.1 < f.1

/-- Assignment in a map that lists its entries by ascending key. -/
def assign (k : κ) (v : ν) : List (κ × ν) → List (κ × ν)
  | [] => [(k, v)]
  | e :: m =>
    if k < e.1 then (k, v) :: e :: m
    else if e.1 < k then e :: assign k v m
    else (k, v) :: m

def lowerBound (m : List (κ × ν)) (k : κ) : List (κ × ν) := m.dropWhile fun e ↦ e.1 < k

def below (m : List (κ × ν)) (k : κ) : List (κ × ν) := m.takeWhile fun e ↦ e.1 < k

/-- The entries in the order in which a walk around the ring meets them. -/
def around (m : List (κ × ν)) (k : κ) : List (κ × ν) := lowerBound m k ++ below m k

variable {m : List (κ × ν)} {k h : κ} {v : ν}

section Ascending

theorem mem_assign {e : κ × ν} (he : e ∈ assign k v m) : e = (k, v) ∨ e ∈ m := by
  induction m with
  | nil => exact .inl (List.mem_singleton.mp he)
  | cons f m ih =>
    rw [assign] at he
    split at he
    · exact List.mem_cons.mp he
    · split at he
      · obtain rfl | he := List.mem_cons.mp he
        · exact .inr List.mem_cons_self
        · exact (ih he).imp_right (List.mem_cons_of_mem f)
      · exact (List.mem_cons.mp he).imp_right (List.mem_cons_of_mem f)

theorem ascending_assign (hm : Ascending m) (k : κ) (v : ν) : Ascending (assign k v m) := by
  induction m with
  | nil => exact List.pairwise_singleton _ _
  | cons f m ih =>
    obtain ⟨hf, hm'⟩ := List.pairwise_cons.mp hm
    rw [assign]
    split
    · rename_i hlt
      refine List.pairwise_cons.mpr ⟨?_, hm⟩
      intro e he
      obtain rfl | he := List.mem_cons.mp he
      · exact hlt
      · exact hlt.trans (hf e he)
    · rename_i hge
      split
      · rename_i hlt
        refine List.pairwise_cons.mpr ⟨?_, ih hm'⟩
        intro e he
        obtain rfl | he := mem_assign he
        · exact hlt
        · exact hf e he
      · rename_i hle
        have heq : f.1 = k := le_antisymm (not_lt.mp hge) (not_lt.mp hle)
        refine List.pairwise_cons.mpr ⟨?_, hm'⟩
        intro e he
        exact heq ▸ hf e he

theorem ascending_filter (hm : Ascending m) (p : κ × ν → Bool) : Ascending (m.filter p) :=
  List.Pairwise.filter p hm

theorem Ascending.below_eq (hm : Ascending m) (k : κ) : below m k = m.filter fun e ↦ e.1 < k := by
  induction m with
  | nil => rfl
  | cons f m ih =>
    obtain ⟨hf, hm'⟩ := List.pairwise_cons.mp hm
    by_cases hlt : f.1 < k
    · rw [List.filter_cons_of_pos (by simpa using hlt), ← ih hm', below,
        List.takeWhile_cons_of_pos (by simpa using hlt)]
      rfl
    · rw [List.filter_cons_of_neg (by simpa using hlt), below,
        List.takeWhile_cons_of_neg (by simpa using hlt), eq_comm, List.filter_eq_nil_iff]
      intro e he
      simpa using (not_lt.mp hlt).trans (hf e he).le

theorem Ascending.lowerBound_eq (hm : Ascending m) (k : κ) :
    lowerBound m k = m.filter fun e ↦ ¬ e.1 < k := by
  induction m with
  | nil => rfl
  | cons f m ih =>
    obtain ⟨hf, hm'⟩ := List.pairwise_cons.mp hm
    by_cases hlt : f.1 < k
    · rw [List.filter_cons_of_neg (by simpa using hlt), ← ih hm', lowerBound,
        List.dropWhile_cons_of_pos (by simpa using hlt)]
      rfl
    · rw [lowerBound, List.dropWhile_cons_of_neg (by simpa using hlt), eq_comm,
        List.filter_eq_self]
      intro e he
      obtain rfl | he := List.mem_cons.mp he
      · simpa using hlt
      · simpa using (not_lt.mp hlt).trans (hf e he).le

end Ascending

section Around

theorem mem_around {e : κ × ν} : e ∈ around m k ↔ e ∈ m := by
  rw [around, List.mem_append, or_comm, ← List.mem_append, below, lowerBound,
    List.takeWhile_append_dropWhile]

/-- What is left of a ring is met in the old order. -/
theorem Ascending.filter_around (hm : Ascending m) (p : κ × ν → Bool) (k : κ) :
    (around m k).filter p = around (m.filter p) k := by
  rw [around, around, List.filter_append, (ascending_filter hm p).below_eq, (ascending_filter hm p).lowerBound_eq,
    hm.below_eq, hm.lowerBound_eq]
  simp only [List.filter_filter, Bool.and_comm]

theorem assign_of_forall_lt (hk : ∀ e ∈ m, k < e.1) : assign k v m = (k, v) :: m := by
  cases m with
  | nil => rfl
  | cons f m => rw [assign, if_pos (hk f List.mem_cons_self)]

/-- A part of the map that is chosen by the keys sees the assignment if it has room for the key. -/
theorem Ascending.filter_assign (hm : Ascending m) (p : κ → Bool) (k : κ) (v : ν) :
    (assign k v m).filter (fun e ↦ p e.1) =
      if p k then assign k v (m.filter fun e ↦ p e.1) else m.filter fun e ↦ p e.1 := by
  induction m with
  | nil =>
    by_cases hp : p k
    · simp [assign, hp]
    · simp [assign, hp]
  | cons f m ih =>
    obtain ⟨hf, hm'⟩ := List.pairwise_cons.mp hm
    rw [assign]
    split
    · rename_i hlt
      have hall : ∀ e ∈ (f :: m).filter (fun e ↦ p e.1), k < e.1 := by
        intro e he
        obtain rfl | he := List.mem_cons.mp (List.mem_filter.mp he).1
        · exact hlt
        · exact hlt.trans (hf e he)
      rw [assign_of_forall_lt hall, List.filter_cons]
    · rename_i hge
      split
      · rename_i hlt
        rw [List.filter_cons, List.filter_cons, ih hm']
        by_cases hp : p f.1
        · rw [if_pos hp, if_pos hp, assign, if_neg hge, if_pos hlt]
          split <;> rfl
        · rw [if_neg hp, if_neg hp]
      · rename_i hle
        have heq : f.1 = k := le_antisymm (not_lt.mp hge) (not_lt.mp hle)
        rw [List.filter_cons, List.filter_cons, heq]
        by_cases hp : p k
        · rw [if_pos hp, if_pos hp, if_pos hp, assign, if_neg hge, if_neg hle]
        · rw [if_neg hp, if_neg hp, if_neg hp]

theorem head_assign (k : κ) (v : ν) (m : List (κ × ν)) :
    (assign k v m).head? = some (k, v) ∨
      (assign k v m).head? = m.head? ∧ m ≠ [] := by
  cases m with
  | nil => exact .inl rfl
  | cons e m =>
    rw [assign]
    split
    · exact .inl rfl
    · split
      · exact .inr ⟨rfl, List.cons_ne_nil e m⟩
      · exact .inl rfl

/-- An assignment puts its own entry in front of a walk or leaves the front as it is. -/
theorem Ascending.head_around_assign (hm : Ascending m) (k : κ) (v : ν) (h : κ) :
    (around (assign k v m) h).head? = some (k, v) ∨
      (around (assign k v m) h).head? = (around m h).head? := by
  have hlow := hm.filter_assign (fun x ↦ ¬ x < h) k v
  have hbelow := hm.filter_assign (fun x ↦ x < h) k v
  rw [around, around, (ascending_assign hm k v).below_eq, (ascending_assign hm k v).lowerBound_eq, hm.below_eq,
    hm.lowerBound_eq, hlow, hbelow]
  by_cases hk : k < h
  · -- the new entry is reached after the wrap
    rw [if_neg (by simpa using hk), if_pos (by simpa using hk)]
    cases m.filter (fun e ↦ ¬ e.1 < h) with
    | nil => exact (head_assign k v _).imp_right And.left
    | cons e l => exact .inr rfl
  · rw [if_pos (by simpa using hk), if_neg (by simpa using hk)]
    obtain hnew | ⟨hold, hne⟩ := head_assign k v (m.filter fun e ↦ ¬ e.1 < h)
    · left
      rw [List.head?_append, hnew]
      rfl
    · right
      rw [List.head?_append, List.head?_append, hold]

end Around

end MmsServer.Lib.KeyRing
