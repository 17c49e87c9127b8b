import MmsServer.Lib.ByteLayout

namespace MmsServer.Lib.CheckedWriting

open ByteReader Checked ByteLayout

/-- A writer fills a buffer from the front, and leaves with a code when what it wants to
put does not fit. -/
abbrev CheckedWriter := StateT Buffer Outcome

variable {α β : Type}

def putBytes (bs : Bytes) (code : ℤ) : CheckedWriter Unit := fun b ↦
  if b.left.length < bs.length then .err code
  else .ok ((), ⟨b.written ++ bs, b.left.drop bs.length⟩)

def room (n : ℕ) (code : ℤ) : CheckedWriter Unit := fun b ↦
  if b.left.length < n then .err code else .ok ((), b)

def headOf : List α → CheckedWriter α
  | [] => fun _ ↦ .fault .pastEnd
  | a :: _ => pure a

/-- A loop over the first `n` items, each of which is looked up behind a check. -/
def forFirst (check : CheckedWriter Unit) (w : α → CheckedWriter Unit) :
    ℕ → List α → CheckedWriter Unit
  | 0, _ => pure ()
  | n + 1, as => do
    check
    w (← headOf as)
    forFirst check w n as.tail

def each (w : α → CheckedWriter β) : List α → CheckedWriter (List β)
  | [] => pure []
  | a :: as => do
    let c ← w a
    let cs ← each w as
    return c :: cs

/-- The number of bytes that are written, the buffer behind the writing, and what the writer
returns. -/
def runWriter (w : CheckedWriter α) (buf : Bytes) : Outcome (ℕ × Bytes × α) := do
  let (a, b) ← w ⟨[], buf⟩
  return (b.written.length, b.written ++ b.left, a)

def orReturn (code : ℤ) (w : CheckedWriter α) : CheckedWriter α := fun b ↦ (w b).orReturn code

/-- Where there is room for them the writer puts these bytes, and returns `a`. -/
def Puts (w : CheckedWriter α) (bs : Bytes) (a : α) : Prop :=
  ∀ b : Buffer, bs.length ≤ b.left.length →
    w b = .ok (a, ⟨b.written ++ bs, b.left.drop bs.length⟩)

theorem bind_apply (w : CheckedWriter α) (k : α → CheckedWriter β) (b : Buffer) :
    (w >>= k) b = (w b >>= fun p ↦ k p.1 p.2) := rfl

theorem Puts.pure (a : α) : Puts (pure a) [] a := by
  intro b _
  rw [List.append_nil, List.length_nil, List.drop_zero]
  rfl

theorem puts_putBytes (bs : Bytes) (code : ℤ) : Puts (putBytes bs code) bs () := by
  intro b hroom
  rw [putBytes, if_neg (Nat.not_lt.mpr hroom)]

theorem Puts.bind {w : CheckedWriter α} {k : α → CheckedWriter β} {bs bs' : Bytes} {a : α} {c : β}
    (h : Puts w bs a) (h' : Puts (k a) bs' c) : Puts (w >>= k) (bs ++ bs') c := by
  intro b hroom
  rw [List.length_append] at hroom
  have hleft : bs'.length ≤ (b.left.drop bs.length).length := by
    rw [List.length_drop]
    omega
  have hrest := h' ⟨b.written ++ bs, b.left.drop bs.length⟩ hleft
  simp only [bind_apply, h b (by omega), Outcome.ok_bind, hrest, List.append_assoc,
    List.drop_drop, List.length_append]

theorem Puts.map {w : CheckedWriter α} {bs : Bytes} {a : α} (h : Puts w bs a) (g : α → β) :
    Puts (w >>= fun a ↦ Pure.pure (g a)) bs (g a) := by
  have hb := h.bind (k := fun a ↦ Pure.pure (g a)) (.pure (g a))
  rwa [List.append_nil] at hb

theorem Puts.orReturn {w : CheckedWriter α} {bs : Bytes} {a : α} (h : Puts w bs a) (code : ℤ) :
    Puts (orReturn code w) bs a := by
  intro b hroom
  rw [CheckedWriting.orReturn, h b hroom, Outcome.orReturn_ok]

/-- A check that leaves when there is no room for what is put behind it anyway. -/
theorem Puts.behind_room {k : Unit → CheckedWriter α} {bs : Bytes} {a : α} (h : Puts (k ()) bs a)
    {n : ℕ} (hn : n ≤ bs.length) (code : ℤ) : Puts (room n code >>= k) bs a := by
  intro b hroom
  simp only [bind_apply, room, if_neg (show ¬ b.left.length < n by omega), Outcome.ok_bind,
    h b hroom]

theorem forFirst_cons (check : CheckedWriter Unit) (w : α → CheckedWriter Unit) (n : ℕ) (a : α)
    (as : List α) : forFirst check w (n + 1) (a :: as) =
      ((check >>= fun _ ↦ w a) >>= fun _ ↦ forFirst check w n as) := by
  funext b
  change (check b >>= fun p ↦ w a p.2 >>= fun q ↦ forFirst check w n as q.2) =
    ((check b >>= fun p ↦ w a p.2) >>= fun q ↦ forFirst check w n as q.2)
  cases check b with
  | ok p => rfl
  | err code => rfl
  | fault f => rfl

theorem Puts.forFirst (check : CheckedWriter Unit) (w : α → CheckedWriter Unit) {f : α → Bytes}
    {as : List α} (h : ∀ a ∈ as, Puts (check >>= fun _ ↦ w a) (f a) ()) :
    Puts (forFirst check w as.length as) (as.flatMap f) () := by
  induction as with
  | nil => exact .pure ()
  | cons a as ih =>
    have hrest := ih fun b hb ↦ h b (List.mem_cons_of_mem a hb)
    rw [List.length_cons, forFirst_cons]
    exact (h a List.mem_cons_self).bind hrest

theorem Puts.each {w : α → CheckedWriter β} {f : α → Bytes} {g : α → β} (as : List α)
    (h : ∀ a, Puts (w a) (f a) (g a)) : Puts (each w as) (as.flatMap f) (as.map g) := by
  induction as with
  | nil => exact .pure []
  | cons a as ih => exact (h a).bind (ih.map fun cs ↦ g a :: cs)

theorem Puts.run {w : CheckedWriter α} {bs : Bytes} {a : α} (h : Puts w bs a) (buf : Bytes)
    (hroom : bs.length ≤ buf.length) :
    runWriter w buf = .ok (bs.length, bs ++ buf.drop bs.length, a) := by
  rw [runWriter, h ⟨[], buf⟩ hroom]
  rfl

end MmsServer.Lib.CheckedWriting
