import MmsServer.Lib.Checked

namespace MmsServer.Lib.CheckedLoop

open Checked

variable {σ β : Type}

/-- A `while` loop by its body: the body goes on with a new state or leaves the
loop. The loop is still running when the fuel is used up. -/
def run (body : σ → Outcome (σ ⊕ β)) : ℕ → σ → Option (Outcome β)
  | 0, _ => none
  | fuel + 1, s =>
    match body s with
    | .ok (.inl s') => run body fuel s'
    | .ok (.inr b) => some (.ok b)
    | .err code => some (.err code)
    | .fault f => some (.fault f)

inductive Reaches (body : σ → Outcome (σ ⊕ β)) (s : σ) : σ → Prop
  | refl : Reaches body s s
  | step {s₁ s₂ : σ} : Reaches body s s₁ → body s₁ = .ok (.inl s₂) → Reaches body s s₂

variable {body : σ → Outcome (σ ⊕ β)} {s s' : σ}

theorem Reaches.trans {s₂ : σ} (h : Reaches body s s') (h' : Reaches body s' s₂) :
    Reaches body s s₂ := by
  induction h' with
  | refl => exact h
  | step _ hs ih => exact .step ih hs

theorem Reaches.head (h : body s = .ok (.inl s')) {s₂ : σ} (hr : Reaches body s' s₂) :
    Reaches body s s₂ := Reaches.trans (.step .refl h) hr

theorem run_succ_inl {fuel : ℕ} (h : body s = .ok (.inl s')) :
    run body (fuel + 1) s = run body fuel s' := by
  simp only [run, h]

/-- What the loop leaves with comes from a state at its head. -/
theorem run_eq_some {fuel : ℕ} {o : Outcome β} (h : run body fuel s = some o) :
    ∃ s', Reaches body s s' ∧
      ((∃ b, body s' = .ok (.inr b) ∧ o = .ok b) ∨ (∃ code, body s' = .err code ∧ o = .err code) ∨
        ∃ f, body s' = .fault f ∧ o = .fault f) := by
  induction fuel generalizing s with
  | zero => cases h
  | succ fuel ih =>
    cases hb : body s with
    | ok r =>
      cases r with
      | inl s' =>
        rw [run_succ_inl hb] at h
        obtain ⟨s₂, hr, ho⟩ := ih h
        exact ⟨s₂, hr.head hb, ho⟩
      | inr b =>
        simp only [run, hb, Option.some_inj] at h
        exact ⟨s, .refl, .inl ⟨b, hb, h.symm⟩⟩
    | err code =>
      simp only [run, hb, Option.some_inj] at h
      exact ⟨s, .refl, .inr (.inl ⟨code, hb, h.symm⟩)⟩
    | fault f =>
      simp only [run, hb, Option.some_inj] at h
      exact ⟨s, .refl, .inr (.inr ⟨f, hb, h.symm⟩)⟩

/-- A loop that reaches a state runs like a loop that starts there. -/
theorem Reaches.run (hr : Reaches body s s') (fuel : ℕ) :
    ∃ n, CheckedLoop.run body (fuel + n) s = CheckedLoop.run body fuel s' := by
  induction hr generalizing fuel with
  | refl => exact ⟨0, rfl⟩
  | step _ hs ih =>
    obtain ⟨n, hn⟩ := ih (fuel + 1)
    refine ⟨n + 1, ?_⟩
    rw [show fuel + (n + 1) = fuel + 1 + n by omega, hn, run_succ_inl hs]

theorem Reaches.run_inr (hr : Reaches body s s') {b : β} (hb : body s' = .ok (.inr b)) :
    ∃ fuel, CheckedLoop.run body fuel s = some (.ok b) := by
  obtain ⟨n, hn⟩ := hr.run 1
  exact ⟨1 + n, by simp only [hn, CheckedLoop.run, hb]⟩

theorem Reaches.run_err (hr : Reaches body s s') {code : ℤ} (hb : body s' = .err code) :
    ∃ fuel, CheckedLoop.run body fuel s = some (.err code) := by
  obtain ⟨n, hn⟩ := hr.run 1
  exact ⟨1 + n, by simp only [hn, CheckedLoop.run, hb]⟩

theorem Reaches.run_fault (hr : Reaches body s s') {f : Fault} (hb : body s' = .fault f) :
    ∃ fuel, CheckedLoop.run body fuel s = some (.fault f) := by
  obtain ⟨n, hn⟩ := hr.run 1
  exact ⟨1 + n, by simp only [hn, CheckedLoop.run, hb]⟩

theorem run_mono {fuel : ℕ} {o : Outcome β} (h : run body fuel s = some o) (n : ℕ) :
    run body (fuel + n) s = some o := by
  induction fuel generalizing s with
  | zero => cases h
  | succ fuel ih =>
    rw [Nat.add_right_comm]
    cases hb : body s with
    | ok r =>
      cases r with
      | inl s' =>
        rw [run_succ_inl hb] at h ⊢
        exact ih h
      | inr b =>
        simp only [run, hb] at h ⊢
        exact h
    | err code =>
      simp only [run, hb] at h ⊢
      exact h
    | fault f =>
      simp only [run, hb] at h ⊢
      exact h

theorem run_unique {m n : ℕ} {o o' : Outcome β} (h : run body m s = some o)
    (h' : run body n s = some o') : o = o' := by
  have hm := run_mono h n
  have hn := run_mono h' m
  rw [Nat.add_comm, hn] at hm
  cases hm
  rfl

/-- A loop whose body comes back to the same state never ends. -/
theorem Reaches.run_stuck (hr : Reaches body s s') (hb : body s' = .ok (.inl s')) (fuel : ℕ) :
    CheckedLoop.run body fuel s = none := by
  have hstuck : ∀ fuel, CheckedLoop.run body fuel s' = none := by
    intro fuel
    induction fuel with
    | zero => rfl
    | succ fuel ih => rw [run_succ_inl hb, ih]
  obtain ⟨n, hn⟩ := hr.run fuel
  cases ho : CheckedLoop.run body fuel s with
  | none => rfl
  | some o =>
    have hm := run_mono ho n
    rw [hn, hstuck] at hm
    cases hm

/-- A loop ends when each round makes its measure smaller. -/
theorem run_ends (μ : σ → ℕ)
    (h : ∀ s₁ s₂, Reaches body s s₁ → body s₁ = .ok (.inl s₂) → μ s₂ < μ s₁) :
    ∃ fuel o, run body fuel s = some o := by
  suffices ∀ k s₁, Reaches body s s₁ → μ s₁ < k → ∃ fuel o, run body fuel s₁ = some o from
    this (μ s + 1) s .refl (Nat.lt_succ_self _)
  intro k
  induction k with
  | zero =>
    intro s₁ _ hk
    omega
  | succ k ih =>
    intro s₁ hr hk
    cases hb : body s₁ with
    | ok r =>
      cases r with
      | inl s₂ =>
        have hlt := h s₁ s₂ hr hb
        obtain ⟨fuel, o, ho⟩ := ih s₂ (hr.step hb) (by omega)
        exact ⟨fuel + 1, o, by rw [run_succ_inl hb, ho]⟩
      | inr b => exact ⟨1, .ok b, by simp only [run, hb]⟩
    | err code => exact ⟨1, .err code, by simp only [run, hb]⟩
    | fault f => exact ⟨1, .fault f, by simp only [run, hb]⟩

end MmsServer.Lib.CheckedLoop
