import Mathlib.Tactic.Common

namespace MmsServer.Lib.Fuel

variable {σ α β ι : Type}

/-- A routine over a state, with nothing where its fuel runs out. -/
abbrev Run (σ α : Type) := StateT σ Option α

def Total (p : Run σ α) : Prop := ∀ s, (p s).isSome

/-- From a state with `P` the routine can end only with `P` again and with a result in `Q`. -/
def Leads (P : σ → Prop) (p : Run σ α) (Q : α → Prop) : Prop :=
  ∀ s a s', P s → p s = some (a, s') → P s' ∧ Q a

/-- Where the second routine ends the first one ends in the same way. -/
def Agrees (p' p : Run σ α) : Prop := ∀ s r, p s = some r → p' s = some r

variable {P : σ → Prop} {Q Q' : α → Prop} {p : Run σ α} {k : α → Run σ β} {R : β → Prop}

theorem bind_apply (p : Run σ α) (k : α → Run σ β) (s : σ) :
    (p >>= k) s = (p s).bind fun r ↦ k r.1 r.2 := rfl

section Total

theorem total_pure (a : α) : Total (pure a : Run σ α) := fun _ ↦ rfl

theorem Total.bind (h : Total p) (h' : ∀ a, Total (k a)) : Total (p >>= k) := by
  intro s
  obtain ⟨r, hr⟩ := Option.isSome_iff_exists.mp (h s)
  rw [bind_apply, hr]
  exact h' r.1 r.2

/-- Fuel for each of finitely many routines is fuel for all of them. -/
theorem exists_total {p : ι → ℕ → Run σ α} {is : List ι}
    (h : ∀ i ∈ is, ∃ n, ∀ m ≥ n, Total (p i m)) : ∃ n, ∀ m ≥ n, ∀ i ∈ is, Total (p i m) := by
  induction is with
  | nil => exact ⟨0, fun _ _ _ hi ↦ by cases hi⟩
  | cons i is ih =>
    obtain ⟨n, hn⟩ := h i List.mem_cons_self
    obtain ⟨n', hn'⟩ := ih fun j hj ↦ h j (List.mem_cons_of_mem i hj)
    refine ⟨max n n', fun m hm ↦ List.forall_mem_cons.mpr ⟨hn m ?_, hn' m ?_⟩⟩
    · exact Nat.le_trans (Nat.le_max_left n n') hm
    · exact Nat.le_trans (Nat.le_max_right n n') hm

end Total

section Leads

theorem leads_pure {a : α} (h : Q a) : Leads P (pure a) Q := by
  intro s b s' hs hb
  cases hb
  exact ⟨hs, h⟩

theorem Leads.bind (h : Leads P p Q) (h' : ∀ a, Q a → Leads P (k a) R) : Leads P (p >>= k) R := by
  intro s b s' hs hb
  rw [bind_apply, Option.bind_eq_some_iff] at hb
  obtain ⟨r, hr, hb⟩ := hb
  obtain ⟨hmid, hq⟩ := h s r.1 r.2 hs hr
  exact h' r.1 hq r.2 b s' hmid hb

theorem Leads.mono (h : Leads P p Q) (hQ : ∀ a, Q a → Q' a) : Leads P p Q' :=
  fun s a s' hs ha ↦ ⟨(h s a s' hs ha).1, hQ a (h s a s' hs ha).2⟩

theorem leads_failure : Leads P (failure : Run σ α) Q := by
  intro s a s' _ h
  cases h

end Leads

section Agrees

variable {p' : Run σ α} {k' : α → Run σ β}

theorem Agrees.refl (p : Run σ α) : Agrees p p := fun _ _ h ↦ h

theorem Agrees.bind (h : Agrees p' p) (h' : ∀ a, Agrees (k' a) (k a)) :
    Agrees (p' >>= k') (p >>= k) := by
  intro s r hr
  rw [bind_apply, Option.bind_eq_some_iff] at hr
  obtain ⟨mid, hmid, hr⟩ := hr
  rw [bind_apply, h s mid hmid]
  exact h' mid.1 mid.2 r hr

theorem agrees_failure (p : Run σ α) : Agrees p failure := by
  intro s r h
  cases h

end Agrees

end MmsServer.Lib.Fuel
