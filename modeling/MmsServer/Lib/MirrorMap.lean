import Mathlib.Logic.Function.Basic
import Mathlib.Tactic.Common

namespace MmsServer.Lib.MirrorMap

open Function

variable {κ ν : Type} [DecidableEq κ]

def insertNew (m : κ → Option ν) (k : κ) (v : ν) : κ → Option ν :=
  if m k = none then update m k (some v) else m

def erase (m : κ → Option ν) (k : κ) : κ → Option ν := update m k none

def eraseAll (m : κ → Option ν) (ks : List κ) : κ → Option ν := ks.foldl erase m

def keysOf [DecidableEq ν] (entries : List (ν × κ)) (v : ν) : List κ :=
  (entries.filter (·.1 = v)).map Prod.snd

variable {m : κ → Option ν} {k k' : κ} {v v' : ν}

theorem insertNew_of_none (h : m k = none) : insertNew m k v = update m k (some v) := if_pos h

theorem insertNew_of_some (h : m k = some v') : insertNew m k v = m := by
  rw [insertNew, if_neg (by rw [h]; exact Option.some_ne_none v')]

theorem insertNew_eq_some (h : insertNew m k v k' = some v') :
    m k' = some v' ∨ m k = none ∧ k' = k ∧ v' = v := by
  cases hm : m k with
  | some w =>
    rw [insertNew_of_some hm] at h
    exact .inl h
  | none =>
    rw [insertNew_of_none hm] at h
    obtain rfl | hk := eq_or_ne k' k
    · rw [update_self] at h
      cases h
      exact .inr ⟨rfl, rfl, rfl⟩
    · rw [update_of_ne hk] at h
      exact .inl h

theorem insertNew_of_eq_some (h : m k' = some v') : insertNew m k v k' = some v' := by
  cases hm : m k with
  | some w => rwa [insertNew_of_some hm]
  | none =>
    have hk : k' ≠ k := by
      rintro rfl
      rw [hm] at h
      cases h
    rw [insertNew_of_none hm, update_of_ne hk, h]

theorem insertNew_self (h : m k = none ∨ m k = some v) : insertNew m k v k = some v := by
  obtain h | h := h
  · rw [insertNew_of_none h, update_self]
  · exact insertNew_of_eq_some h

theorem erase_eq_some : erase m k k' = some v ↔ k' ≠ k ∧ m k' = some v := by
  obtain rfl | hk := eq_or_ne k' k
  · simp [erase]
  · simp [erase, hk]

theorem eraseAll_apply (ks : List κ) : eraseAll m ks k = if k ∈ ks then none else m k := by
  induction ks generalizing m with
  | nil => rfl
  | cons k₀ ks ih =>
    have hcons : eraseAll m (k₀ :: ks) = eraseAll (erase m k₀) ks := rfl
    rw [hcons, ih]
    obtain rfl | hk := eq_or_ne k k₀
    · simp [erase]
    · simp [erase, hk]

omit [DecidableEq κ] in
theorem mem_keysOf [DecidableEq ν] {entries : List (ν × κ)} :
    k ∈ keysOf entries v ↔ (v, k) ∈ entries := by
  simp [keysOf]

/-- A map from keys to values and the multimap from values to keys say the same. -/
def Mirrors (m : κ → Option ν) (entries : List (ν × κ)) : Prop :=
  ∀ k v, m k = some v ↔ (v, k) ∈ entries

theorem Mirrors.insert {entries : List (ν × κ)} (h : Mirrors m entries)
    (hk : m k = none ∨ m k = some v) : Mirrors (insertNew m k v) ((v, k) :: entries) := by
  intro k' v'
  rw [List.mem_cons, ← h k' v']
  constructor
  · intro hi
    obtain hm | ⟨-, rfl, rfl⟩ := insertNew_eq_some hi
    · exact .inr hm
    · exact .inl rfl
  · rintro (heq | hm)
    · cases heq
      exact insertNew_self hk
    · exact insertNew_of_eq_some hm

theorem Mirrors.eraseAll_keysOf [DecidableEq ν] {entries : List (ν × κ)} (h : Mirrors m entries)
    (v : ν) (k : κ) :
    eraseAll m (keysOf entries v) k = if m k = some v then none else m k := by
  rw [eraseAll_apply]
  simp only [mem_keysOf, h k v]

theorem Mirrors.eraseValue [DecidableEq ν] {entries : List (ν × κ)} (h : Mirrors m entries)
    (v : ν) : Mirrors (eraseAll m (keysOf entries v)) (entries.filter (·.1 ≠ v)) := by
  intro k v'
  rw [h.eraseAll_keysOf, List.mem_filter, ← h k v']
  split
  · rename_i hv
    constructor
    · intro hn
      cases hn
    · rintro ⟨hk, hne⟩
      rw [hv] at hk
      cases hk
      simp at hne
  · rename_i hv
    constructor
    · intro hk
      refine ⟨hk, ?_⟩
      simp only [ne_eq, decide_eq_true_eq]
      rintro rfl
      exact hv hk
    · exact fun hk ↦ hk.1

end MmsServer.Lib.MirrorMap
