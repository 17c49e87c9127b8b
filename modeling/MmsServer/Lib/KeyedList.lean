import Mathlib.Data.List.Nodup
import Mathlib.Tactic.Common

namespace MmsServer.Lib.KeyedList

variable {κ ν : Type} [DecidableEq κ]

/-- The map behind `f(m[k])`: a key that is missing is first given the value `init`. -/
def modify (k : κ) (init : ν) (f : ν → ν) : List (κ × ν) → List (κ × ν)
  | [] => [(k, f init)]
  | (k', v) :: m => if k' = k then (k', f v) :: m else (k', v) :: modify k init f m

/-- An insertion that keeps the entry it finds. -/
def insertNew (k : κ) (v : ν) (m : List (κ × ν)) : List (κ × ν) := modify k v id m

def assign (k : κ) (v : ν) (m : List (κ × ν)) : List (κ × ν) := modify k v (fun _ ↦ v) m

def valueAt (k : κ) (m : List (κ × ν)) : Option ν := m.lookup k

variable {k k' : κ} {v init : ν} {f : ν → ν} {m : List (κ × ν)}

theorem lookup_cons_ite : ((k, v) :: m).lookup k' = if k' = k then some v else m.lookup k' := by
  by_cases hk : k' = k
  · subst hk
    rw [if_pos rfl, List.lookup_cons_self]
  · rw [if_neg hk, List.lookup_cons, beq_false_of_ne hk]

theorem lookup_modify : (modify k init f m).lookup k' =
    if k' = k then some (f ((m.lookup k).getD init)) else m.lookup k' := by
  induction m with
  | nil => exact lookup_cons_ite
  | cons e m ih =>
    obtain ⟨l, v⟩ := e
    rw [modify]
    by_cases hl : l = k
    · subst hl
      rw [if_pos rfl, lookup_cons_ite, List.lookup_cons_self, lookup_cons_ite, Option.getD_some]
      by_cases hk : k' = l
      · rw [if_pos hk, if_pos hk]
      · rw [if_neg hk, if_neg hk, if_neg hk]
    · rw [if_neg hl, lookup_cons_ite, lookup_cons_ite, lookup_cons_ite, ih, if_neg (Ne.symm hl)]
      by_cases hk : k' = l
      · rw [if_pos hk, if_pos hk, if_neg (hk ▸ hl)]
      · rw [if_neg hk, if_neg hk]

@[simp] theorem valueAt_assign :
    valueAt k' (assign k v m) = if k' = k then some v else valueAt k' m := lookup_modify

theorem mem_of_valueAt (h : valueAt k m = some v) : (k, v) ∈ m := by
  obtain ⟨l₁, l₂, rfl, -⟩ := List.lookup_eq_some_iff.mp h
  exact List.mem_append_right l₁ List.mem_cons_self

theorem valueAt_isSome : (valueAt k m).isSome ↔ k ∈ m.map Prod.fst := by
  induction m with
  | nil => exact iff_of_false (by simp [valueAt]) (by simp)
  | cons e m ih =>
    obtain ⟨l, v⟩ := e
    rw [valueAt, lookup_cons_ite, List.map_cons, List.mem_cons, ← ih]
    by_cases hk : k = l
    · simp [hk]
    · simp [hk, valueAt]

theorem keys_modify : (modify k init f m).map Prod.fst =
    if k ∈ m.map Prod.fst then m.map Prod.fst else m.map Prod.fst ++ [k] := by
  induction m with
  | nil => rfl
  | cons e m ih =>
    obtain ⟨l, v⟩ := e
    rw [modify]
    by_cases hl : l = k
    · subst hl
      rw [if_pos rfl, List.map_cons, List.map_cons, if_pos List.mem_cons_self]
    · rw [if_neg hl, List.map_cons, List.map_cons, ih]
      by_cases hk : k ∈ m.map Prod.fst
      · rw [if_pos hk, if_pos (List.mem_cons_of_mem l hk)]
      · rw [if_neg hk, if_neg]
        · rfl
        · rw [List.mem_cons, not_or]
          exact ⟨Ne.symm hl, hk⟩

theorem nodup_keys_modify (h : (m.map Prod.fst).Nodup) :
    ((modify k init f m).map Prod.fst).Nodup := by
  rw [keys_modify]
  split
  · exact h
  · rename_i hk
    exact List.nodup_append.mpr ⟨h, List.nodup_singleton k, fun a ha b hb ↦ by
      rw [List.mem_singleton.mp hb]
      exact fun he ↦ hk (he ▸ ha)⟩

end MmsServer.Lib.KeyedList
