import Mathlib.Tactic.Common

namespace MmsServer.Lib.StatefulSearch

variable {σ α ι : Type}

/-- A search through branches that share a state. A missing result tells that it has failed. -/
abbrev Search (σ α : Type) := σ → Option α × σ

def fail : Search σ α := fun s ↦ (none, s)

def orElse (p q : Search σ α) : Search σ α := fun s ↦
  match p s with
  | (some a, s') => (some a, s')
  | (none, s') => q s'

def andThen (p : Search σ α) (f : σ → σ) : Search σ α := fun s ↦
  match p s with
  | (some a, s') => (some a, f s')
  | (none, s') => (none, s')

def firstOf (branch : ι → Search σ α) : List ι → Search σ α
  | [] => fail
  | i :: is => orElse (branch i) (firstOf branch is)

/-- The search ends with one of these results where there is one. Otherwise it fails, and no
branch has left anything in the state. -/
structure Explores (p : Search σ α) (R : σ → α → σ → Prop) : Prop where
  sound : ∀ s a s', p s = (some a, s') → R s a s'
  complete : ∀ s s', p s = (none, s') → s' = s ∧ ∀ a s'', ¬ R s a s''

variable {p q : Search σ α} {R R' : σ → α → σ → Prop}

theorem Explores.congr (h : Explores p R) (hR : ∀ s a s', R s a s' ↔ R' s a s') :
    Explores p R' where
  sound s a s' hp := (hR s a s').mp (h.sound s a s' hp)
  complete s s' hp :=
    ⟨(h.complete s s' hp).1, fun a s'' hr ↦ (h.complete s s' hp).2 a s'' ((hR s a s'').mpr hr)⟩

theorem explores_fail : Explores (fail : Search σ α) fun _ _ _ ↦ False where
  sound s a s' h := by cases h
  complete s s' h := by
    cases h
    exact ⟨rfl, fun _ _ ↦ id⟩

/-- A result that is there or not, whatever the state. -/
theorem explores_const (r : Option α) :
    Explores (fun s : σ ↦ (r, s)) fun s a s' ↦ r = some a ∧ s' = s where
  sound s a s' h := by
    cases h
    exact ⟨rfl, rfl⟩
  complete s s' h := by
    cases h
    exact ⟨rfl, fun _ _ h ↦ by cases h.1⟩

/-- A branch that cannot fail. -/
theorem explores_some (a : α) (f : σ → σ) :
    Explores (fun s ↦ (some a, f s)) fun s a' s' ↦ a' = a ∧ s' = f s where
  sound s a' s' h := by
    cases h
    exact ⟨rfl, rfl⟩
  complete s s' h := by cases h

theorem Explores.orElse (h : Explores p R) (h' : Explores q R') :
    Explores (orElse p q) fun s a s' ↦ R s a s' ∨ R' s a s' where
  sound s a s' hs := by
    rw [StatefulSearch.orElse] at hs
    split at hs
    · next hp =>
      cases hs
      exact .inl (h.sound s a s' hp)
    · next mid hp =>
      obtain ⟨rfl, -⟩ := h.complete s mid hp
      exact .inr (h'.sound mid a s' hs)
  complete s s' hs := by
    rw [StatefulSearch.orElse] at hs
    split at hs
    · cases hs
    · next mid hp =>
      obtain ⟨rfl, hnot⟩ := h.complete s mid hp
      obtain ⟨rfl, hnot'⟩ := h'.complete mid s' hs
      exact ⟨rfl, fun a s'' hr ↦ hr.elim (hnot a s'') (hnot' a s'')⟩

theorem Explores.andThen (h : Explores p R) (f : σ → σ) :
    Explores (andThen p f) fun s a s' ↦ ∃ mid, R s a mid ∧ s' = f mid where
  sound s a s' hs := by
    rw [StatefulSearch.andThen] at hs
    split at hs
    · next mid hp =>
      cases hs
      exact ⟨mid, h.sound s a mid hp, rfl⟩
    · cases hs
  complete s s' hs := by
    rw [StatefulSearch.andThen] at hs
    split at hs
    · cases hs
    · next mid hp =>
      cases hs
      obtain ⟨rfl, hnot⟩ := h.complete s _ hp
      exact ⟨rfl, fun a s'' ⟨mid, hr, _⟩ ↦ hnot a mid hr⟩

theorem explores_firstOf {branch : ι → Search σ α} {R : ι → σ → α → σ → Prop} {is : List ι}
    (h : ∀ i ∈ is, Explores (branch i) (R i)) :
    Explores (firstOf branch is) fun s a s' ↦ ∃ i ∈ is, R i s a s' := by
  induction is with
  | nil => exact explores_fail.congr fun s a s' ↦ by simp
  | cons i is ih =>
    have hi := h i List.mem_cons_self
    have his := ih fun j hj ↦ h j (List.mem_cons_of_mem i hj)
    exact (hi.orElse his).congr fun s a s' ↦ by simp

theorem firstOf_congr {branch branch' : ι → Search σ α} {is : List ι}
    (h : ∀ i ∈ is, branch i = branch' i) : firstOf branch is = firstOf branch' is := by
  induction is with
  | nil => rfl
  | cons i is ih =>
    rw [firstOf, firstOf, h i List.mem_cons_self, ih fun j hj ↦ h j (List.mem_cons_of_mem i hj)]

@[simp] theorem fail_orElse (p : Search σ α) : orElse fail p = p := rfl

end MmsServer.Lib.StatefulSearch
