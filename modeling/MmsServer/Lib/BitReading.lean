import Mathlib.Data.Nat.Bitwise
import MmsServer.Lib.Checked

namespace MmsServer.Lib.BitReading

open ByteReader Checked

/-- A reader knows a buffer and the number of bits that it has read of it. -/
abbrev BitReader (α : Type) := ReaderT Bytes (StateT ℕ Outcome) α

/-- The low bits of a number, the highest first. -/
def numberBits : ℕ → ℕ → List Bool
  | 0, _ => []
  | n + 1, v => v.testBit n :: numberBits n v

def bits (data : Bytes) : List Bool := data.flatMap fun b ↦ numberBits 8 b.toNat

def ofBits : List Bool → ℕ
  | [] => 0
  | b :: bs => 2 ^ bs.length * b.toNat + ofBits bs

def pack : List Bool → Bytes
  | a :: b :: c :: d :: e :: f :: g :: h :: bs => .ofNat (ofBits [a, b, c, d, e, f, g, h]) :: pack bs
  | _ => []

variable {α β : Type}

/-- An element behind a flag that tells whether it is there. -/
def flagged (f : α → List Bool) : Option α → List Bool
  | none => [false]
  | some a => true :: f a

/-- Wherever they stand in a buffer, the bits are read as `a`. -/
def Reads (r : BitReader α) (bs : List Bool) (a : α) : Prop :=
  ∀ data pos, bs <+: (bits data).drop pos → r data pos = .ok (a, pos + bs.length)

def many (r : BitReader α) : ℕ → BitReader (List α)
  | 0 => pure []
  | n + 1 => do
    let a ← r
    let as ← many r n
    return a :: as

/-- A reader that is used under a condition, without which a value stays as it is. -/
def readIf (c : Prop) [Decidable c] (r : BitReader α) (old : α) : BitReader α := if c then r else pure old

def orReturn (code : ℤ) (r : BitReader α) : BitReader α := fun data pos ↦ (r data pos).orReturn code

section Bits

variable {n v : ℕ} {bs : List Bool}

@[simp] theorem length_numberBits (n v : ℕ) : (numberBits n v).length = n := by
  induction n with
  | zero => rfl
  | succ n ih => rw [numberBits, List.length_cons, ih]

theorem numberBits_add (n a v : ℕ) (hv : v < 2 ^ n) :
    numberBits n (2 ^ n * a + v) = numberBits n v := by
  have hlow (m : ℕ) (hm : m ≤ n) : numberBits m (2 ^ n * a + v) = numberBits m v := by
    induction m with
    | zero => rfl
    | succ m ih =>
      rw [numberBits, numberBits, Nat.testBit_two_pow_mul_add _ hv, if_pos (by omega), ih (by omega)]
  exact hlow n (Nat.le_refl n)

theorem ofBits_lt (bs : List Bool) : ofBits bs < 2 ^ bs.length := by
  induction bs with
  | nil => exact Nat.one_pos
  | cons b bs ih =>
    rw [ofBits, List.length_cons, Nat.pow_succ]
    cases b with
    | false =>
      rw [Bool.toNat_false, Nat.mul_zero]
      omega
    | true =>
      rw [Bool.toNat_true, Nat.mul_one]
      omega

theorem numberBits_ofBits (bs : List Bool) : numberBits bs.length (ofBits bs) = bs := by
  induction bs with
  | nil => rfl
  | cons b bs ih =>
    have hlt := ofBits_lt bs
    rw [List.length_cons, numberBits, ofBits, Nat.testBit_two_pow_mul_add _ hlt, if_neg (by omega),
      Nat.sub_self, numberBits_add _ _ _ hlt, ih]
    cases b with
    | false => rfl
    | true => rfl

theorem bits_pack (h : bs.length % 8 = 0) : bits (pack bs) = bs := by
  induction bs using pack.induct with
  | case1 a b c d e f g h' bs ih =>
    have hlt : ofBits [a, b, c, d, e, f, g, h'] < 2 ^ 8 := ofBits_lt _
    have hrest : bs.length % 8 = 0 := by
      simp only [List.length_cons] at h
      omega
    rw [pack, bits, List.flatMap_cons, UInt8.toNat_ofNat', Nat.mod_eq_of_lt hlt]
    have hhead : numberBits 8 (ofBits [a, b, c, d, e, f, g, h']) = [a, b, c, d, e, f, g, h'] :=
      numberBits_ofBits [a, b, c, d, e, f, g, h']
    rw [hhead]
    exact congrArg ([a, b, c, d, e, f, g, h'] ++ ·) (ih hrest)
  | case2 bs hshort =>
    have hnil : bs = [] := by
      match bs with
      | [] => rfl
      | [_] | [_, _] | [_, _, _] | [_, _, _, _] | [_, _, _, _, _] | [_, _, _, _, _, _] |
        [_, _, _, _, _, _, _] => simp at h
      | a :: b :: c :: d :: e :: f :: g :: h' :: bs => exact absurd rfl (hshort a b c d e f g h' bs)
    rw [hnil]
    rfl

/-- The bits of a byte from its high end to its low end. -/
theorem getElem?_bits (data : Bytes) (pos : ℕ) :
    (bits data)[pos]? = data[pos / 8]?.map fun b ↦ b.toNat.testBit (7 - pos % 8) := by
  induction data generalizing pos with
  | nil => rfl
  | cons b data ih =>
    rw [bits, List.flatMap_cons]
    by_cases hp : pos < 8
    · rw [List.getElem?_append_left (by rwa [length_numberBits]), Nat.div_eq_of_lt hp,
        Nat.mod_eq_of_lt hp]
      have hbit (m i : ℕ) (hi : i < m) : (numberBits m b.toNat)[i]? = some (b.toNat.testBit (m - 1 - i)) := by
        induction m generalizing i with
        | zero => omega
        | succ m ih =>
          rw [numberBits]
          cases i with
          | zero => rfl
          | succ i =>
            rw [List.getElem?_cons_succ, ih i (by omega)]
            congr 2
            omega
      exact hbit 8 pos hp
    · have hq : pos / 8 = (pos - 8) / 8 + 1 := by omega
      have hr : pos % 8 = (pos - 8) % 8 := by omega
      rw [List.getElem?_append_right (by rw [length_numberBits]; omega), length_numberBits, hq, hr,
        List.getElem?_cons_succ]
      exact ih (pos - 8)

end Bits

section Reads

variable {r : BitReader α} {k : α → BitReader β} {bs bs' : List Bool} {a : α} {b : β}

theorem bind_apply (r : BitReader α) (k : α → BitReader β) (data : Bytes) (pos : ℕ) :
    (r >>= k) data pos = (r data pos >>= fun p ↦ k p.1 data p.2) := rfl

theorem Reads.pure (a : α) : Reads (Pure.pure a) [] a := fun _ _ _ ↦ rfl

theorem Reads.bind (h : Reads r bs a) (h' : Reads (k a) bs' b) : Reads (r >>= k) (bs ++ bs') b := by
  intro data pos hpre
  obtain ⟨rest, hrest⟩ := hpre
  have hbs : bs <+: (bits data).drop pos := ⟨bs' ++ rest, by rw [← hrest, List.append_assoc]⟩
  have hbs' : bs' <+: (bits data).drop (pos + bs.length) := by
    rw [← List.drop_drop, ← hrest, List.append_assoc, List.drop_left]
    exact List.prefix_append bs' rest
  rw [bind_apply, h data pos hbs, Outcome.ok_bind, h' data _ hbs', List.length_append, Nat.add_assoc]

/-- What comes behind the bits is not read. -/
theorem Reads.last (h : Reads r bs a) (h' : Reads (k a) [] b) : Reads (r >>= k) bs b := by
  have hb := h.bind h'
  rwa [List.append_nil] at hb

theorem Reads.map (h : Reads r bs a) (g : α → β) : Reads (r >>= fun a ↦ Pure.pure (g a)) bs (g a) :=
  h.last (k := fun a ↦ Pure.pure (g a)) (.pure (g a))

theorem Reads.orReturn (h : Reads r bs a) (code : ℤ) : Reads (orReturn code r) bs a := by
  intro data pos hpre
  rw [BitReading.orReturn, h data pos hpre, Outcome.orReturn_ok]

theorem Reads.many {f : β → List Bool} {g : β → α} {xs : List β}
    (h : ∀ x ∈ xs, Reads r (f x) (g x)) :
    Reads (many r xs.length) (xs.flatMap f) (xs.map g) := by
  induction xs with
  | nil => exact .pure []
  | cons x xs ih =>
    have hx := h x List.mem_cons_self
    have hxs := ih fun y hy ↦ h y (List.mem_cons_of_mem x hy)
    exact hx.bind (hxs.map fun as ↦ g x :: as)

theorem flagged_eq (f : α → List Bool) (o : Option α) : flagged f o = [o.isSome] ++ o.elim [] f := by
  cases o with
  | none => rfl
  | some a => rfl

theorem Reads.readIf_isSome {f : β → List Bool} {g : β → α} {o : Option β} (old : α)
    (h : ∀ b, Reads r (f b) (g b)) :
    Reads (readIf (o.isSome = true) r old) (o.elim [] f) (o.elim old g) := by
  cases o with
  | none => exact .pure old
  | some b => exact h b

theorem Reads.flagged {flag : BitReader Bool} {k : Bool → BitReader β} {f : α → List Bool}
    {o : Option α} {b : β} (hflag : ∀ present, Reads flag [present] present)
    (hnone : o = none → Reads (k false) [] b) (hsome : ∀ a, o = some a → Reads (k true) (f a) b) :
    Reads (flag >>= k) (flagged f o) b := by
  cases o with
  | none => exact (hflag false).bind (hnone rfl)
  | some a => exact (hflag true).bind (hsome a rfl)

/-- A single bit stands in front of what is left. -/
theorem head_bits {data : Bytes} {pos : ℕ} {c : Bool} (h : c :: bs <+: (bits data).drop pos) :
    data[pos / 8]?.map (fun b ↦ b.toNat.testBit (7 - pos % 8)) = some c := by
  obtain ⟨rest, hrest⟩ := h
  rw [← getElem?_bits, ← Nat.add_zero pos, ← List.getElem?_drop, ← hrest]
  rfl

theorem tail_bits {data : Bytes} {pos : ℕ} {c : Bool} (h : c :: bs <+: (bits data).drop pos) :
    bs <+: (bits data).drop (pos + 1) := by
  obtain ⟨rest, hrest⟩ := h
  rw [← List.drop_drop, ← hrest]
  exact ⟨rest, rfl⟩

end Reads

end MmsServer.Lib.BitReading
