import Mathlib.Data.Option.Basic
import Mathlib.Tactic.Common

namespace MmsServer.Lib.Find

variable {α : Type} [DecidableEq α]

def find (sep : List α) : List α → Option ℕ
  | [] => if sep = [] then some 0 else none
  | a :: s => if sep.isPrefixOf (a :: s) then some 0 else (find sep s).map (· + 1)

variable {sep s : List α} {n : ℕ}

theorem find_le (h : find sep s = some n) : n + sep.length ≤ s.length := by
  induction s generalizing n with
  | nil =>
    rw [find] at h
    split at h
    · rename_i hs
      cases h
      rw [hs]
      exact Nat.le_refl _
    · cases h
  | cons a s ih =>
    rw [find] at h
    split at h
    · rename_i hp
      cases h
      rw [Nat.zero_add]
      exact (List.isPrefixOf_iff_prefix.mp hp).length_le
    · obtain ⟨m, hm, rfl⟩ := Option.map_eq_some_iff.mp h
      have := ih hm
      rw [List.length_cons]
      omega

theorem find_drop (h : find sep s = some n) : sep <+: s.drop n := by
  induction s generalizing n with
  | nil =>
    rw [find] at h
    split at h
    · rename_i hs
      rw [hs]
      exact List.nil_prefix
    · cases h
  | cons a s ih =>
    rw [find] at h
    split at h
    · rename_i hp
      cases h
      exact List.isPrefixOf_iff_prefix.mp hp
    · obtain ⟨m, hm, rfl⟩ := Option.map_eq_some_iff.mp h
      exact ih hm

theorem find_append (h : find sep s = some n) (ext : List α) : find sep (s ++ ext) = some n := by
  induction s generalizing n with
  | nil =>
    rw [find] at h
    split at h
    · rename_i hs
      cases h
      rw [hs]
      cases ext with
      | nil => rfl
      | cons b ext => rw [List.nil_append, find, if_pos (by rfl)]
    · cases h
  | cons a s ih =>
    rw [find] at h
    rw [List.cons_append, find]
    split at h
    · rename_i hp
      cases h
      rw [if_pos]
      rw [List.isPrefixOf_iff_prefix] at hp ⊢
      exact hp.trans (List.prefix_append (a :: s) ext)
    · rename_i hp
      obtain ⟨m, hm, rfl⟩ := Option.map_eq_some_iff.mp h
      rw [if_neg, ih hm, Option.map_some]
      rw [List.isPrefixOf_iff_prefix] at hp ⊢
      intro hq
      have hlen := find_le hm
      refine hp (List.prefix_of_prefix_length_le hq (List.prefix_append (a :: s) ext) ?_)
      rw [List.length_cons]
      omega

/-- What has been found in a longer text is found in every part of it that reaches
behind the separator, and nothing in a shorter one. -/
theorem find_prefix {ext : List α} (h : find sep (s ++ ext) = some n) :
    find sep s = if n + sep.length ≤ s.length then some n else none := by
  cases hs : find sep s with
  | some m =>
    have hm := find_append hs ext
    rw [h, Option.some_inj] at hm
    subst hm
    rw [if_pos (find_le hs)]
  | none =>
    rw [if_neg]
    intro hle
    induction s generalizing n with
    | nil =>
      have hsep : sep = [] := List.eq_nil_of_length_eq_zero (by rw [List.length_nil] at hle; omega)
      rw [find, if_pos hsep] at hs
      cases hs
    | cons a s ih =>
      rw [find] at hs
      split at hs
      · cases hs
      · rename_i hp
        have hs' : find sep s = none := Option.map_eq_none_iff.mp hs
        rw [List.cons_append, find] at h
        split at h
        · rename_i hq
          cases h
          rw [List.isPrefixOf_iff_prefix] at hp hq
          refine hp (List.prefix_of_prefix_length_le hq (List.prefix_append (a :: s) ext) ?_)
          omega
        · obtain ⟨m, hm, rfl⟩ := Option.map_eq_some_iff.mp h
          exact ih hm hs' (by rw [List.length_cons] at hle; omega)

variable {c : α}

theorem find_skip {line : List α} (hline : c ∉ line) (rest : List α) :
    find (c :: sep) (line ++ rest) = (find (c :: sep) rest).map (· + line.length) := by
  induction line with
  | nil =>
    rw [List.nil_append]
    exact (congrFun Option.map_id (find (c :: sep) rest)).symm
  | cons a line ih =>
    rw [List.mem_cons, not_or] at hline
    rw [List.cons_append, find, if_neg, ih hline.2, Option.map_map]
    · rfl
    · rw [List.isPrefixOf_iff_prefix, List.cons_prefix_cons]
      exact fun h ↦ hline.1 h.1

theorem find_here (rest : List α) : find (c :: sep) (c :: sep ++ rest) = some 0 := by
  rw [List.cons_append, find, if_pos]
  rw [List.isPrefixOf_iff_prefix, ← List.cons_append]
  exact List.prefix_append (c :: sep) rest

/-- A line that does not contain the first letter of the separator ends at it. -/
theorem find_line {line : List α} (hline : c ∉ line) (rest : List α) :
    find (c :: sep) (line ++ (c :: sep ++ rest)) = some line.length := by
  rw [find_skip hline, find_here, Option.map_some, Nat.zero_add]

theorem find_none (hs : c ∉ s) : find (c :: sep) s = none := by
  induction s with
  | nil => rw [find, if_neg (List.cons_ne_nil c sep)]
  | cons a s ih =>
    rw [List.mem_cons, not_or] at hs
    rw [find, if_neg, ih hs.2]
    · rfl
    · rw [List.isPrefixOf_iff_prefix, List.cons_prefix_cons]
      exact fun h ↦ hs.1 h.1

def findLast (c : α) : List α → Option ℕ
  | [] => none
  | a :: s =>
    match findLast c s with
    | some n => some (n + 1)
    | none => if a = c then some 0 else none

theorem findLast_none : findLast c s = none ↔ c ∉ s := by
  induction s with
  | nil => simp [findLast]
  | cons a s ih =>
    rw [findLast, List.mem_cons, not_or, ← ih]
    cases findLast c s with
    | none => simp [eq_comm]
    | some n => simp

theorem findLast_append {back : List α} (front : List α) (hback : c ∉ back) :
    findLast c (front ++ c :: back) = some front.length := by
  induction front with
  | nil =>
    rw [List.nil_append, findLast, findLast_none.mpr hback]
    exact if_pos rfl
  | cons a front ih => rw [List.cons_append, findLast, ih, List.length_cons]

end MmsServer.Lib.Find
