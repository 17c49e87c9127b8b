import Mathlib.Tactic.Common
import Mathlib.Data.Nat.Basic

namespace MmsServer.Lib.Incremental

variable {S T α β ε ε' : Type}

/-- One attempt to take an item from the front of a buffer. A step that asks for
more input may still have changed its state. -/
inductive Step (S β ε : Type)
  | more (s : S)
  | take (n : ℕ) (s : S) (out : List β)
  | stop (e : ε) (out : List β)

inductive Result (S α β ε : Type)
  | wait (s : S) (rest : List α) (out : List β)
  | halt (e : ε) (out : List β)

def Step.mapState (f : S → T) : Step S β ε → Step T β ε
  | .more s => .more (f s)
  | .take n s out => .take n (f s) out
  | .stop e out => .stop e out

def Step.mapError (f : ε → ε') : Step S β ε → Step S β ε'
  | .more s => .more s
  | .take n s out => .take n s out
  | .stop e out => .stop (f e) out

def Result.mapState (f : S → T) : Result S α β ε → Result T α β ε
  | .wait s rest out => .wait (f s) rest out
  | .halt e out => .halt e out

def Result.mapError (f : ε → ε') : Result S α β ε → Result S α β ε'
  | .wait s rest out => .wait s rest out
  | .halt e out => .halt (f e) out

def Result.out : Result S α β ε → List β
  | .wait _ _ out => out
  | .halt _ out => out

def Result.emit (out : List β) : Result S α β ε → Result S α β ε
  | .wait s rest out' => .wait s rest (out ++ out')
  | .halt e out' => .halt e (out ++ out')

def Result.andThen (r : Result S α β ε) (k : S → List α → Result S α β ε) : Result S α β ε :=
  match r with
  | .wait s rest out => (k s rest).emit out
  | .halt e out => .halt e out

@[simp] theorem emit_nil (r : Result S α β ε) : r.emit [] = r := by cases r <;> rfl

theorem emit_emit (r : Result S α β ε) (out out' : List β) :
    (r.emit out').emit out = r.emit (out ++ out') := by
  cases r <;> simp only [Result.emit, List.append_assoc]

theorem emit_out (r : Result S α β ε) (out : List β) : (r.emit out).out = out ++ r.out := by
  cases r <;> rfl

theorem emit_mapState (f : S → T) (r : Result S α β ε) (out : List β) :
    (r.emit out).mapState f = (r.mapState f).emit out := by cases r <;> rfl

theorem emit_mapError (f : ε → ε') (r : Result S α β ε) (out : List β) :
    (r.emit out).mapError f = (r.mapError f).emit out := by cases r <;> rfl

theorem emit_andThen (r : Result S α β ε) (k : S → List α → Result S α β ε) (out : List β) :
    (r.emit out).andThen k = (r.andThen k).emit out := by
  cases r with
  | wait s rest out' => exact (emit_emit (k s rest) out out').symm
  | halt e out' => rfl

/-- Take items until the buffer is exhausted. The fuel bounds the attempts. -/
def drain (step : S → List α → Step S β ε) : ℕ → S → List α → Result S α β ε
  | 0, s, buf => .wait s buf []
  | fuel + 1, s, buf =>
    match step s buf with
    | .more s' => .wait s' buf []
    | .take n s' out => (drain step fuel s' (buf.drop n)).emit out
    | .stop e out => .halt e out

def run (step : S → List α → Step S β ε) (s : S) (buf : List α) : Result S α β ε :=
  drain step (buf.length + 1) s buf

def Consumes (step : S → List α → Step S β ε) : Prop :=
  ∀ s buf n s' out, step s buf = .take n s' out → 0 < n ∧ n ≤ buf.length

/-- A step whose answer does not depend on how much input has already arrived,
and whose unfinished attempts may be repeated from the state they leave. -/
structure Lawful (step : S → List α → Step S β ε) : Prop where
  consumes : Consumes step
  settled : ∀ {s buf}, (∀ t, step s buf ≠ .more t) → ∀ ext, step s (buf ++ ext) = step s buf
  more_resume : ∀ {s buf s'}, step s buf = .more s' →
    ∀ ext, step s' (buf ++ ext) = step s (buf ++ ext)

section Run

variable {step : S → List α → Step S β ε}

theorem drain_fuel (h : Consumes step) (fuel fuel' : ℕ) (s : S) (buf : List α)
    (hf : buf.length < fuel) (hf' : buf.length < fuel') :
    drain step fuel s buf = drain step fuel' s buf := by
  induction fuel generalizing fuel' s buf with
  | zero => omega
  | succ fuel ih =>
    cases fuel' with
    | zero => omega
    | succ fuel' =>
      simp only [drain]
      cases hs : step s buf with
      | more s' => rfl
      | stop e out => rfl
      | take n s' out =>
        obtain ⟨hn, hle⟩ := h _ _ _ _ _ hs
        have hlen : (buf.drop n).length < buf.length := by rw [List.length_drop]; omega
        simp only [ih fuel' s' (buf.drop n) (by omega) (by omega)]

theorem run_more {s s' : S} {buf : List α} (hs : step s buf = .more s') :
    run step s buf = .wait s' buf [] := by
  simp only [run, drain, hs]

theorem run_stop {s : S} {buf : List α} {e : ε} {out : List β} (hs : step s buf = .stop e out) :
    run step s buf = .halt e out := by
  simp only [run, drain, hs]

theorem run_take (h : Consumes step) {s s' : S} {buf : List α} {n : ℕ} {out : List β}
    (hs : step s buf = .take n s' out) :
    run step s buf = (run step s' (buf.drop n)).emit out := by
  obtain ⟨hn, hle⟩ := h _ _ _ _ _ hs
  have hd := drain_fuel h buf.length ((buf.drop n).length + 1) s' (buf.drop n)
    (by rw [List.length_drop]; omega) (by omega)
  simp only [run, drain, hs, hd]

theorem run_item (h : Consumes step) {s s' : S} {item rest : List α} {out : List β}
    (hs : step s (item ++ rest) = .take item.length s' out) :
    run step s (item ++ rest) = (run step s' rest).emit out := by
  rw [run_take h hs, List.drop_left]

theorem run_congr (h : Consumes step) {s s' : S} {buf : List α} (hs : step s buf = step s' buf) :
    run step s buf = run step s' buf := by
  cases hb : step s' buf with
  | more t => rw [run_more hb, run_more (hs.trans hb)]
  | stop e out => rw [run_stop hb, run_stop (hs.trans hb)]
  | take n t out => rw [run_take h hb, run_take h (hs.trans hb)]

theorem run_mapState {step' : T → List α → Step T β ε} (f : S → T)
    (h : ∀ s buf, (step s buf).mapState f = step' (f s) buf) (s : S) (buf : List α) :
    (run step s buf).mapState f = run step' (f s) buf := by
  unfold run
  generalize buf.length + 1 = fuel
  induction fuel generalizing s buf with
  | zero => rfl
  | succ fuel ih =>
    have hs := h s buf
    simp only [drain]
    cases hb : step s buf with
    | more s' => rw [hb] at hs; simp only [← hs, Step.mapState, Result.mapState]
    | stop e out => rw [hb] at hs; simp only [← hs, Step.mapState, Result.mapState]
    | take n s' out =>
      rw [hb] at hs
      simp only [← hs, Step.mapState, ← ih, emit_mapState]

theorem run_mapError (f : ε → ε') (s : S) (buf : List α) :
    run (fun s buf ↦ (step s buf).mapError f) s buf = (run step s buf).mapError f := by
  unfold run
  generalize buf.length + 1 = fuel
  induction fuel generalizing s buf with
  | zero => rfl
  | succ fuel ih =>
    simp only [drain]
    cases step s buf with
    | more s' => rfl
    | stop e out => rfl
    | take n s' out =>
      change Result.emit out (drain _ fuel s' (buf.drop n)) =
        Result.mapError f (Result.emit out (drain step fuel s' (buf.drop n)))
      rw [ih, emit_mapError]

theorem Lawful.mapError (h : Lawful step) (f : ε → ε') :
    Lawful (fun s buf ↦ (step s buf).mapError f) where
  consumes := by
    intro s buf n s' out hs
    cases hb : step s buf with
    | more t => simp [hb, Step.mapError] at hs
    | stop e o => simp [hb, Step.mapError] at hs
    | take m t o =>
      simp only [hb, Step.mapError] at hs
      cases hs
      exact h.consumes _ _ _ _ _ hb
  settled := by
    intro s buf hne ext
    have hn : ∀ t, step s buf ≠ .more t := fun t ht ↦ hne t (by simp only [ht, Step.mapError])
    simp only [h.settled hn ext]
  more_resume := by
    intro s buf s' hs ext
    cases hb : step s buf with
    | more t =>
      simp only [hb, Step.mapError] at hs
      cases hs
      simp only [h.more_resume hb ext]
    | stop e o => simp [hb, Step.mapError] at hs
    | take m t o => simp [hb, Step.mapError] at hs

/-- What a run leaves behind is a prefix that still waits, in a state that
another attempt does not change. -/
theorem run_pending (h : Lawful step) (s : S) (buf : List α) {s' : S} {rest : List α}
    {out : List β} (hr : run step s buf = .wait s' rest out) : step s' rest = .more s' := by
  induction hl : buf.length using Nat.strongRecOn generalizing s buf out with
  | ind len ih =>
    subst hl
    cases hs : step s buf with
    | more t =>
      rw [run_more hs] at hr
      cases hr
      simpa only [List.append_nil, hs] using h.more_resume hs []
    | stop e o => rw [run_stop hs] at hr; cases hr
    | take n t o =>
      obtain ⟨hn, hle⟩ := h.consumes _ _ _ _ _ hs
      rw [run_take h.consumes hs] at hr
      cases hd : run step t (buf.drop n) with
      | halt e o' => rw [hd] at hr; cases hr
      | wait t' rest' o' =>
        rw [hd] at hr
        cases hr
        exact ih _ (by rw [List.length_drop]; omega) t (buf.drop n) hd rfl

theorem run_rest_length (h : Consumes step) (s : S) (buf : List α) {s' : S} {rest : List α}
    {out : List β} (hr : run step s buf = .wait s' rest out) : rest.length ≤ buf.length := by
  induction hl : buf.length using Nat.strongRecOn generalizing s buf out with
  | ind len ih =>
    subst hl
    cases hs : step s buf with
    | more t => rw [run_more hs] at hr; cases hr; exact le_rfl
    | stop e o => rw [run_stop hs] at hr; cases hr
    | take n t o =>
      obtain ⟨hn, hle⟩ := h _ _ _ _ _ hs
      have hlen : (buf.drop n).length < buf.length := by rw [List.length_drop]; omega
      rw [run_take h hs] at hr
      cases hd : run step t (buf.drop n) with
      | halt e o' => rw [hd] at hr; cases hr
      | wait t' rest' o' =>
        rw [hd] at hr
        cases hr
        have hr := ih _ hlen t (buf.drop n) hd rfl
        omega

end Run

section Bounded

/-- The same step behind a buffer of at most `limit` elements: an item that is
still incomplete in a full buffer stops the run. -/
def bounded (limit : ℕ) (full : ε) (step : S → List α → Step S β ε) :
    S → List α → Step S β ε := fun s buf ↦
  if buf.length < limit then step s buf
  else match step s (buf.take limit) with
    | .more _ => .stop full []
    | r => r

variable {step : S → List α → Step S β ε} {limit : ℕ} {full : ε}

theorem bounded_full {s s' : S} {buf : List α} (h : limit ≤ buf.length)
    (hs : step s (buf.take limit) = .more s') : bounded limit full step s buf = .stop full [] := by
  rw [bounded, if_neg (by omega), hs]

theorem bounded_consumes (h : Consumes step) : Consumes (bounded limit full step) := by
  intro s buf n s' out hs
  unfold bounded at hs
  split at hs
  · exact h _ _ _ _ _ hs
  · split at hs
    · cases hs
    · obtain ⟨hn, hle⟩ := h _ _ _ _ _ hs
      rw [List.length_take] at hle
      exact ⟨hn, by omega⟩

theorem bounded_append (h : Lawful step) (full : ε) {s : S} {x : List α} (hx : x.length ≤ limit)
    (hne : ∀ t, step s x ≠ .more t) (y : List α) :
    bounded limit full step s (x ++ y) = step s x := by
  unfold bounded
  split
  · exact h.settled hne y
  · rw [List.take_append, List.take_of_length_le hx, h.settled hne]
    cases hs : step s x with
    | more t => exact absurd hs (hne t)
    | take n t out => rfl
    | stop e out => rfl

theorem bounded_resume (h : Lawful step) {s s' : S} {x : List α} (hx : x.length ≤ limit)
    (hs : step s x = .more s') (y : List α) :
    bounded limit full step s' (x ++ y) = bounded limit full step s (x ++ y) := by
  unfold bounded
  split
  · exact h.more_resume hs y
  · rw [List.take_append, List.take_of_length_le hx, h.more_resume hs]

/-- Processing what has arrived and then the rest is one bounded run over the
whole input, whatever prefix of it had arrived. -/
theorem run_bounded_append (h : Lawful step) (s : S) (x y : List α) (hx : x.length ≤ limit) :
    run (bounded limit full step) s (x ++ y) =
      (run step s x).andThen fun s' rest ↦ run (bounded limit full step) s' (rest ++ y) := by
  have hc : Consumes (bounded limit full step) := bounded_consumes h.consumes
  induction hl : x.length using Nat.strongRecOn generalizing s x with
  | ind len ih =>
    subst hl
    cases hs : step s x with
    | more s' =>
      rw [run_more hs]
      simp only [Result.andThen, emit_nil]
      exact (run_congr hc (bounded_resume h hx hs y)).symm
    | stop e out =>
      have hb := (bounded_append h full hx (fun t ↦ by simp [hs]) y).trans hs
      rw [run_stop hs, run_stop hb]
      rfl
    | take n s' out =>
      have hb := (bounded_append h full hx (fun t ↦ by simp [hs]) y).trans hs
      obtain ⟨hn, hle⟩ := h.consumes _ _ _ _ _ hs
      have hlen : (x.drop n).length < x.length := by rw [List.length_drop]; omega
      rw [run_take h.consumes hs, run_take hc hb, List.drop_append_of_le_length hle,
        ih _ hlen s' (x.drop n) (by omega) rfl, emit_andThen]

end Bounded

end MmsServer.Lib.Incremental
