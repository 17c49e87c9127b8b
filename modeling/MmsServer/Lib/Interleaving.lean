import Mathlib.Logic.Function.Basic
import Mathlib.Data.List.Basic

namespace MmsServer.Lib.Interleaving

open Function

variable {ι α : Type} [DecidableEq ι]

/-- `w` takes the lists of the family one element at a time, in any order that
keeps each list's own. -/
inductive Interleaves : (ι → List α) → List α → Prop
  | nil : Interleaves (fun _ ↦ []) []
  | cons {F : ι → List α} {w : List α} (i : ι) (a : α) :
      Interleaves F w → Interleaves (update F i (a :: F i)) (a :: w)

theorem Interleaves.filter {key : α → ι} {F : ι → List α} {w : List α} (h : Interleaves F w)
    (hkey : ∀ i, ∀ a ∈ F i, key a = i) (i : ι) : w.filter (fun a ↦ key a = i) = F i := by
  induction h with
  | nil => rfl
  | @cons F w j a h ih =>
    have ha : key a = j := hkey j a (by rw [update_self]; exact List.mem_cons_self ..)
    have hF : ∀ i, ∀ b ∈ F i, key b = i := by
      intro i b hb
      refine hkey i b ?_
      by_cases hij : i = j
      · subst hij
        rw [update_self]
        exact List.mem_cons_of_mem a hb
      · rwa [update_of_ne hij]
    by_cases hij : i = j
    · subst hij
      rw [List.filter_cons_of_pos (by simpa using ha), ih hF, update_self]
    · rw [List.filter_cons_of_neg (by simpa [ha] using Ne.symm hij), ih hF, update_of_ne hij]

end MmsServer.Lib.Interleaving
