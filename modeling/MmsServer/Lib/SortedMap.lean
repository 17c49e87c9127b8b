import Mathlib.Algebra.Order.Ring.Nat
import Mathlib.Order.Lattice
import Mathlib.Tactic.Common

namespace MmsServer.Lib.SortedMap

variable {α κ : Type} [LinearOrder κ] (key : α → κ)

/-- Insertion in a map that lists its values by ascending key and keeps the
value it finds. -/
def insertNew (a : α) : List α → List α
  | [] => [a]
  | b :: l =>
    if key a < key b then a :: b :: l
    else if key b < key a then b :: insertNew a l
    else b :: l

def insertAll (l : List α) (as : List α) : List α := as.foldl (fun m a ↦ insertNew key a m) l

def Ascending (l : List α) : Prop := l.Pairwise (key · < key ·)

variable {key} {a x : α} {l as : List α}

@[simp] theorem insertAll_nil (l : List α) : insertAll key l [] = l := rfl

@[simp] theorem insertAll_cons (l : List α) (a : α) (as : List α) :
    insertAll key l (a :: as) = insertAll key (insertNew key a l) as := rfl

theorem insertAll_append (l as bs : List α) :
    insertAll key l (as ++ bs) = insertAll key (insertAll key l as) bs := List.foldl_append

theorem mem_insertNew (h : x ∈ insertNew key a l) : x = a ∨ x ∈ l := by
  induction l with
  | nil => exact .inl (List.mem_singleton.mp h)
  | cons b l ih =>
    simp only [insertNew] at h
    split at h
    · exact List.mem_cons.mp h
    · split at h
      · obtain rfl | h := List.mem_cons.mp h
        · exact .inr List.mem_cons_self
        · exact (ih h).imp_right (List.mem_cons_of_mem b)
      · exact .inr h

theorem mem_insertNew_of_mem (h : x ∈ l) : x ∈ insertNew key a l := by
  induction l with
  | nil => cases h
  | cons b l ih =>
    simp only [insertNew]
    split
    · exact List.mem_cons_of_mem a h
    · split
      · obtain rfl | h := List.mem_cons.mp h
        · exact List.mem_cons_self
        · exact List.mem_cons_of_mem b (ih h)
      · exact h

theorem exists_key_insertNew (a : α) (l : List α) : ∃ b ∈ insertNew key a l, key b = key a := by
  induction l with
  | nil => exact ⟨a, List.mem_singleton_self a, rfl⟩
  | cons b l ih =>
    simp only [insertNew]
    split
    · exact ⟨a, List.mem_cons_self, rfl⟩
    · rename_i hab
      split
      · obtain ⟨x, hx, hk⟩ := ih
        exact ⟨x, List.mem_cons_of_mem b hx, hk⟩
      · rename_i hba
        exact ⟨b, List.mem_cons_self, le_antisymm (not_lt.mp hab) (not_lt.mp hba)⟩

theorem Ascending.insertNew (h : Ascending key l) : Ascending key (insertNew key a l) := by
  induction l with
  | nil => exact List.pairwise_singleton _ a
  | cons b l ih =>
    obtain ⟨hb, hl⟩ := List.pairwise_cons.mp h
    simp only [SortedMap.insertNew]
    split
    · rename_i hab
      refine List.pairwise_cons.mpr ⟨fun x hx ↦ ?_, h⟩
      obtain rfl | hx := List.mem_cons.mp hx
      · exact hab
      · exact hab.trans (hb x hx)
    · split
      · rename_i hba
        refine List.pairwise_cons.mpr ⟨fun x hx ↦ ?_, ih hl⟩
        obtain rfl | hx := mem_insertNew hx
        · exact hba
        · exact hb x hx
      · exact h

theorem Ascending.insertNew_of_key_mem (h : Ascending key l) {b : α} (hb : b ∈ l)
    (hk : key b = key a) : SortedMap.insertNew key a l = l := by
  induction l with
  | nil => cases hb
  | cons c l ih =>
    obtain ⟨hc, hl⟩ := List.pairwise_cons.mp h
    obtain rfl | hb := List.mem_cons.mp hb
    · rw [SortedMap.insertNew, if_neg hk.ge.not_gt, if_neg hk.le.not_gt]
    · have hca : key c < key a := hk ▸ hc b hb
      rw [SortedMap.insertNew, if_neg hca.le.not_gt, if_pos hca, ih hl hb]

theorem insertNew_of_forall_lt (h : ∀ x ∈ l, key x < key a) : insertNew key a l = l ++ [a] := by
  induction l with
  | nil => rfl
  | cons b l ih =>
    have hba := h b List.mem_cons_self
    rw [insertNew, if_neg hba.le.not_gt, if_pos hba,
      ih fun x hx ↦ h x (List.mem_cons_of_mem b hx), List.cons_append]

theorem sum_insertNew_le (w : α → ℕ) (a : α) (l : List α) :
    ((insertNew key a l).map w).sum ≤ w a + (l.map w).sum := by
  induction l with
  | nil => simp [insertNew]
  | cons b l ih =>
    simp only [insertNew]
    split
    · simp
    · split
      · simp only [List.map_cons, List.sum_cons]
        omega
      · exact Nat.le_add_left _ _

theorem Ascending.insertAll (h : Ascending key l) (as : List α) :
    Ascending key (insertAll key l as) := by
  induction as generalizing l with
  | nil => exact h
  | cons a as ih => exact ih h.insertNew

theorem mem_insertAll (h : x ∈ insertAll key l as) : x ∈ l ∨ x ∈ as := by
  induction as generalizing l with
  | nil => exact .inl h
  | cons a as ih =>
    obtain h | h := ih h
    · obtain rfl | h := mem_insertNew h
      · exact .inr List.mem_cons_self
      · exact .inl h
    · exact .inr (List.mem_cons_of_mem a h)

theorem mem_insertAll_of_mem (h : x ∈ l) (as : List α) : x ∈ insertAll key l as := by
  induction as generalizing l with
  | nil => exact h
  | cons a as ih => exact ih (mem_insertNew_of_mem h)

theorem exists_key_insertAll (h : a ∈ as) (l : List α) :
    ∃ b ∈ insertAll key l as, key b = key a := by
  induction as generalizing l with
  | nil => cases h
  | cons c as ih =>
    obtain rfl | h := List.mem_cons.mp h
    · have hb : ∃ b ∈ insertNew key a l, key b = key a := exists_key_insertNew a l
      obtain ⟨b, hb, hk⟩ := hb
      exact ⟨b, mem_insertAll_of_mem hb as, hk⟩
    · exact ih h _

theorem sum_insertAll_le (w : α → ℕ) (l as : List α) :
    ((insertAll key l as).map w).sum ≤ (l.map w).sum + (as.map w).sum := by
  induction as generalizing l with
  | nil => exact Nat.le_add_right _ _
  | cons a as ih =>
    have h := ih (insertNew key a l)
    have hw : ((insertNew key a l).map w).sum ≤ w a + (l.map w).sum := sum_insertNew_le w a l
    rw [insertAll_cons, List.map_cons, List.sum_cons]
    omega

/-- Values that come with ascending keys are listed in their own order. -/
theorem insertAll_of_ascending (h : Ascending key (l ++ as)) : insertAll key l as = l ++ as := by
  induction as generalizing l with
  | nil => exact (List.append_nil l).symm
  | cons a as ih =>
    have hl : ∀ x ∈ l, key x < key a :=
      fun x hx ↦ (List.pairwise_append.mp h).2.2 x hx a List.mem_cons_self
    rw [insertAll_cons, insertNew_of_forall_lt hl, ih (by simpa using h), List.append_assoc,
      List.singleton_append]

/-- A value whose key has come before is not inserted. -/
theorem Ascending.insertAll_concat (h : Ascending key l) {b : α} (hb : b ∈ as) (hk : key b = key a) :
    SortedMap.insertAll key l (as ++ [a]) = SortedMap.insertAll key l as := by
  have hb' : ∃ x ∈ SortedMap.insertAll key l as, key x = key b := exists_key_insertAll hb l
  obtain ⟨x, hx, hxb⟩ := hb'
  rw [insertAll_append, insertAll_cons, insertAll_nil]
  exact (h.insertAll as).insertNew_of_key_mem hx (hxb.trans hk)

/-- The values around one of them, where a greater key stands behind it. -/
theorem Ascending.split (h : Ascending key l) {y : α} (hx : x ∈ l) (hy : y ∈ l)
    (hxy : key x < key y) : ∃ as bs, l = as ++ x :: bs ∧ y ∈ bs ∧ x ∉ as ∧ x ∉ bs := by
  obtain ⟨as, bs, rfl⟩ := List.append_of_mem hx
  obtain ⟨-, hbs, has⟩ := List.pairwise_append.mp h
  obtain ⟨hxb, -⟩ := List.pairwise_cons.mp hbs
  refine ⟨as, bs, rfl, ?_, fun hm ↦ ?_, fun hm ↦ ?_⟩
  · obtain hy | hy := List.mem_append.mp hy
    · exact absurd hxy (has y hy x List.mem_cons_self).not_gt
    · obtain rfl | hy := List.mem_cons.mp hy
      · exact absurd hxy (lt_irrefl _)
      · exact hy
  · exact absurd (has x hm x List.mem_cons_self) (lt_irrefl _)
  · exact absurd (hxb x hm) (lt_irrefl _)

end MmsServer.Lib.SortedMap
