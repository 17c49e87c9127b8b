import Mathlib.Tactic.Common

namespace MmsServer.Lib.GuardedRun

variable {σ α : Type} (step : σ → α → σ)

/-- `p` holds of each action and the state in which it is taken. -/
def Along (p : σ → α → Prop) : σ → List α → Prop
  | _, [] => True
  | s, a :: as => p s a ∧ Along p (step s a) as

/-- `inv` holds of every state that the run reaches. -/
def Throughout (inv : σ → Prop) : σ → List α → Prop
  | s, [] => inv s
  | s, a :: as => inv s ∧ Throughout inv (step s a) as

variable {step} {inv : σ → Prop} {p q : σ → α → Prop} {s : σ}

theorem Along.mono (h : ∀ s a, p s a → q s a) {as : List α} (hp : Along step p s as) :
    Along step q s as := by
  induction as generalizing s with
  | nil => trivial
  | cons a as ih => exact ⟨h s a hp.1, ih hp.2⟩

theorem Throughout.start {as : List α} (h : Throughout step inv s as) : inv s := by
  cases as with
  | nil => exact h
  | cons a as => exact h.1

theorem Throughout.last {as : List α} (h : Throughout step inv s as) : inv (as.foldl step s) := by
  induction as generalizing s with
  | nil => exact h
  | cons a as ih => exact ih h.2

/-- Where an action keeps the invariant just when it is guarded, a run keeps it just
when all its actions are. -/
theorem throughout_iff (hstep : ∀ s a, inv s → (inv (step s a) ↔ p s a)) (h0 : inv s)
    (as : List α) : Throughout step inv s as ↔ Along step p s as := by
  induction as generalizing s with
  | nil => exact iff_of_true h0 trivial
  | cons a as ih =>
    constructor
    · rintro ⟨-, hrest⟩
      have hnext := hrest.start
      exact ⟨(hstep s a h0).mp hnext, (ih hnext).mp hrest⟩
    · rintro ⟨hp, hrest⟩
      have hnext := (hstep s a h0).mpr hp
      exact ⟨h0, (ih hnext).mpr hrest⟩

/-- What the invariant promises of an action holds all along the run. -/
theorem Throughout.along (hinv : ∀ s a, inv s → q s a) {as : List α}
    (h : Throughout step inv s as) : Along step q s as := by
  induction as generalizing s with
  | nil => trivial
  | cons a as ih => exact ⟨hinv s a h.1, ih h.2⟩

end MmsServer.Lib.GuardedRun
