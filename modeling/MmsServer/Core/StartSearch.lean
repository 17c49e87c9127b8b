import MmsServer.Lib.NumberedLog

namespace MmsServer.Core.StartSearch

open Lib.NumberedLog

variable {α : Type}

def stops (get : ℕ → Option α) (old : α → Bool) (i : ℕ) : Bool := (get i).elim true old

def keyframeStart (get : ℕ → Option α) (old : α → Bool) (keyframeIndexes : List ℕ) : Option ℕ :=
  keyframeIndexes.reverse.find? (stops get old)

def audioStart (get : ℕ → Option α) (old : α → Bool) : ℕ → Option ℕ
  | 0 => if stops get old 0 then some 0 else none
  | i + 1 => if stops get old (i + 1) then some (i + 1) else audioStart get old i

/-- `boost::circular_buffer::push_back` with room for `capacity` elements. -/
def pushBack (capacity : ℕ) (indexes : List ℕ) (i : ℕ) : List ℕ :=
  (indexes ++ [i]).drop (indexes.length + 1 - capacity)

theorem keyframeStart_spec {get : ℕ → Option α} {old : α → Bool} {l : List ℕ}
    (hl : l.Pairwise (· < ·)) {k : ℕ} (h : keyframeStart get old l = some k) :
    k ∈ l ∧ stops get old k = true ∧ ∀ j ∈ l, stops get old j = true → j ≤ k := by
  obtain ⟨hk, newer, older, hsplit, hnewer⟩ := List.find?_eq_some_iff_append.mp h
  have hmem (j : ℕ) : j ∈ l ↔ j ∈ newer ∨ j = k ∨ j ∈ older := by
    rw [← List.mem_reverse, hsplit, List.mem_append, List.mem_cons]
  have hrev : (newer ++ k :: older).Pairwise (· > ·) := by
    rw [← hsplit, List.pairwise_reverse]
    exact hl
  refine ⟨(hmem k).mpr (Or.inr (Or.inl rfl)), hk, ?_⟩
  intro j hj hstop
  rcases (hmem j).mp hj with hj | rfl | hj
  · have hno := hnewer j hj
    rw [hstop] at hno
    cases hno
  · exact le_rfl
  · exact Nat.le_of_lt ((List.pairwise_cons.mp (List.pairwise_append.mp hrev).2.1).1 j hj)

theorem keyframeStart_none {get : ℕ → Option α} {old : α → Bool} {l : List ℕ}
    (h : ∀ k ∈ l, ¬ stops get old k = true) : keyframeStart get old l = none := by
  apply List.find?_eq_none.mpr
  intro k hk
  exact h k (List.mem_reverse.mp hk)

theorem audioStart_spec {get : ℕ → Option α} {old : α → Bool} {i j : ℕ}
    (h : audioStart get old i = some j) :
    j ≤ i ∧ stops get old j = true ∧ ∀ t, j < t → t ≤ i → ¬ stops get old t = true := by
  induction i with
  | zero =>
    rw [audioStart] at h
    split at h
    · cases h
      exact ⟨le_rfl, ‹_›, fun t hj ht ↦ by omega⟩
    · cases h
  | succ i ih =>
    rw [audioStart] at h
    split at h
    · cases h
      exact ⟨le_rfl, ‹_›, fun t hj ht ↦ by omega⟩
    · rename_i hstop
      obtain ⟨hj, hs, hall⟩ := ih h
      refine ⟨by omega, hs, ?_⟩
      intro t ht hle
      rcases Nat.eq_or_lt_of_le hle with rfl | hlt
      · exact hstop
      · exact hall t ht (by omega)

theorem pushBack_subset {capacity : ℕ} {l : List ℕ} {i k : ℕ} (h : k ∈ pushBack capacity l i) :
    k ∈ l ∨ k = i := by
  have hm := List.mem_of_mem_drop h
  rwa [List.mem_append, List.mem_singleton] at hm

theorem pushBack_pairwise {capacity : ℕ} {l : List ℕ} {i : ℕ} (h : l.Pairwise (· < ·))
    (hi : ∀ k ∈ l, k < i) :
    (pushBack capacity l i).Pairwise (· < ·) := by
  apply List.Pairwise.sublist (List.drop_sublist _ _)
  rw [List.pairwise_append]
  refine ⟨h, List.pairwise_singleton _ _, ?_⟩
  intro k hk j hj
  rw [List.mem_singleton] at hj
  rw [hj]
  exact hi k hk

end MmsServer.Core.StartSearch
