import MmsServer.Lib.ByteReader
import Mathlib.Data.BitVec

namespace MmsServer.Lib.Crc

variable {w : ℕ}

/-- One bit of the long division by a polynomial, whose leading coefficient is left out. -/
def step (poly c : BitVec w) (b : Bool) : BitVec w :=
  c <<< 1 ^^^ bif c.msb ^^ b then poly else 0#w

def remainder (poly c : BitVec w) (bits : List Bool) : BitVec w := bits.foldl (step poly) c

/-- The first `n` bits of the register, in the order in which they are shifted out. -/
def leading (n : ℕ) (c : BitVec w) : List Bool := (List.range n).map c.getMsbD

theorem leading_length (n : ℕ) (c : BitVec w) : (leading n c).length = n := by
  rw [leading, List.length_map, List.length_range]

theorem remainder_append (poly c : BitVec w) (bits more : List Bool) :
    remainder poly c (bits ++ more) = remainder poly (remainder poly c bits) more :=
  List.foldl_append

section Linear

variable (poly : BitVec w)

theorem step_xor (c d : BitVec w) (a b : Bool) :
    step poly (c ^^^ d) (a ^^ b) = step poly c a ^^^ step poly d b := by
  have hcond : (bif (c ^^^ d).msb ^^ (a ^^ b) then poly else 0#w) =
      (bif c.msb ^^ a then poly else 0#w) ^^^ bif d.msb ^^ b then poly else 0#w := by
    rw [BitVec.msb_xor]
    cases c.msb <;> cases d.msb <;> cases a <;> cases b <;> simp
  rw [step, step, step, BitVec.shiftLeft_xor_distrib, hcond]
  ac_rfl

theorem remainder_xor (c d : BitVec w) (as bs : List Bool) (h : as.length = bs.length) :
    remainder poly (c ^^^ d) (List.zipWith xor as bs) =
      remainder poly c as ^^^ remainder poly d bs := by
  induction as generalizing c d bs with
  | nil =>
    obtain rfl : bs = [] := List.eq_nil_of_length_eq_zero h.symm
    rfl
  | cons a as ih =>
    cases bs with
    | nil => cases h
    | cons b bs =>
      have hstep := step_xor poly c d a b
      simp only [List.zipWith_cons_cons, remainder, List.foldl_cons] at ih ⊢
      rw [hstep]
      exact ih _ _ bs (Nat.succ.inj h)

/-- A register that is fed its own bits only shifts. -/
theorem remainder_leading (c : BitVec w) (n : ℕ) : remainder poly c (leading n c) = c <<< n := by
  induction n with
  | zero => exact (BitVec.shiftLeft_zero c).symm
  | succ n ih =>
    have hmsb : (c <<< n).msb = c.getMsbD n := BitVec.msb_shiftLeft
    rw [leading, List.range_succ, List.map_append, remainder_append, ← leading, ih]
    change step poly (c <<< n) (c.getMsbD n) = _
    rw [step, hmsb, Bool.xor_self, cond_false, BitVec.shiftLeft_add]
    exact BitVec.xor_zero

/-- The remainder behind its own bits is zero. -/
theorem remainder_self (c : BitVec w) : remainder poly c (leading w c) = 0#w := by
  rw [remainder_leading]
  exact BitVec.shiftLeft_eq_zero le_rfl

theorem zipWith_xor_cancel {as bs : List Bool} (h : as.length = bs.length) :
    List.zipWith xor as (List.zipWith xor as bs) = bs := by
  induction as generalizing bs with
  | nil => exact (List.eq_nil_of_length_eq_zero h.symm).symm
  | cons a as ih =>
    cases bs with
    | nil => cases h
    | cons b bs =>
      rw [List.zipWith_cons_cons, List.zipWith_cons_cons, ih (Nat.succ.inj h)]
      cases a <;> cases b <;> rfl

/-- The bits that meet the same part of the register may be divided first: this is
what a table of remainders is for. -/
theorem remainder_table (c : BitVec w) (bits : List Bool) :
    remainder poly c bits = c <<< bits.length ^^^
      remainder poly 0#w (List.zipWith xor (leading bits.length c) bits) := by
  have hl := leading_length bits.length c
  have hx : (List.zipWith xor (leading bits.length c) bits).length = bits.length := by
    rw [List.length_zipWith, hl, Nat.min_self]
  rw [← remainder_leading poly, ← remainder_xor poly _ _ _ _ (hl.trans hx.symm),
    zipWith_xor_cancel hl]
  congr 1
  exact BitVec.xor_zero.symm

end Linear

/-- The bits differ, but only within `n` consecutive ones. -/
def BurstError (n : ℕ) (bits bits' : List Bool) : Prop :=
  ∃ pre error error' post, bits = pre ++ error ++ post ∧ bits' = pre ++ error' ++ post ∧
    error.length = error'.length ∧ error.length ≤ n ∧ error ≠ error'

section Detection

variable {poly : BitVec w} (hpoly : poly.getLsbD 0 = true)
include hpoly

theorem cond_of_step_low {c : BitVec w} {b : Bool} (h : (step poly c b).getLsbD 0 = false) :
    (c.msb ^^ b) = false := by
  rw [step, BitVec.getLsbD_xor, BitVec.getLsbD_shiftLeft] at h
  cases hc : c.msb ^^ b with
  | false => rfl
  | true =>
    rw [hc, cond_true, hpoly] at h
    simp at h

/-- The division can be undone: a step maps no other register to zero. -/
theorem step_eq_zero {c : BitVec w} (h : step poly c false = 0#w) : c = 0#w := by
  have hc := cond_of_step_low hpoly (b := false) (c := c) (by rw [h]; exact BitVec.getLsbD_zero)
  rw [step, hc, cond_false] at h
  have hs : c <<< 1 = 0#w := BitVec.xor_zero.symm.trans h
  rw [Bool.xor_false] at hc
  apply BitVec.eq_of_getLsbD_eq
  intro i hi
  rw [BitVec.getLsbD_zero]
  by_cases hlast : i + 1 < w
  · have hbit := congrArg (fun d ↦ d.getLsbD (i + 1)) hs
    rwa [BitVec.getLsbD_shiftLeft, BitVec.getLsbD_zero, decide_eq_true hlast, Bool.true_and,
      decide_eq_false (by omega), Bool.not_false, Bool.true_and] at hbit
  · obtain rfl : i = w - 1 := by omega
    rwa [BitVec.msb_eq_getLsbD_last] at hc

theorem step_injective {c d : BitVec w} {b : Bool} (h : step poly c b = step poly d b) : c = d := by
  have hx := step_xor poly c d b b
  rw [h, Bool.xor_self, BitVec.xor_self] at hx
  exact BitVec.xor_eq_zero_iff.mp (step_eq_zero hpoly hx)

theorem remainder_injective {c d : BitVec w} (bits : List Bool)
    (h : remainder poly c bits = remainder poly d bits) : c = d := by
  induction bits generalizing c d with
  | nil => exact h
  | cons b bits ih => exact step_injective hpoly (ih h)

omit hpoly in
theorem remainder_zeros (n : ℕ) : remainder poly 0#w (List.replicate n false) = 0#w := by
  induction n with
  | zero => rfl
  | succ n ih =>
    have hstep : step poly 0#w false = 0#w := by simp [step]
    rw [List.replicate_succ, remainder, List.foldl_cons, hstep]
    exact ih

/-- Bits that leave nothing in the low part of the register, and that have not been
shifted out of it, are zeros. -/
theorem eq_zeros {bits : List Bool} {k : ℕ} (hk : bits.length + k ≤ w)
    (h : remainder poly 0#w bits <<< k = 0#w) : bits = List.replicate bits.length false := by
  induction bits using List.reverseRecOn generalizing k with
  | nil => rfl
  | append_singleton bits b ih =>
    rw [List.length_append, List.length_singleton] at hk
    rw [remainder_append] at h
    change step poly (remainder poly 0#w bits) b <<< k = 0#w at h
    have hlow : (step poly (remainder poly 0#w bits) b).getLsbD 0 = false := by
      have hbit := congrArg (fun d ↦ d.getLsbD k) h
      rw [BitVec.getLsbD_shiftLeft, BitVec.getLsbD_zero] at hbit
      rwa [decide_eq_true (show k < w by omega), Bool.true_and, decide_eq_false (Nat.lt_irrefl k),
        Bool.not_false, Bool.true_and, Nat.sub_self] at hbit
    have hc := cond_of_step_low hpoly hlow
    have hshift : remainder poly 0#w bits <<< (k + 1) = 0#w := by
      rw [step, hc, cond_false] at h
      rw [BitVec.xor_zero, ← BitVec.shiftLeft_add, Nat.add_comm] at h
      exact h
    have hbits := ih (by omega) hshift
    have hb : b = false := by
      rw [hbits, remainder_zeros] at hc
      simpa using hc
    rw [List.length_append, List.length_singleton, List.replicate_succ', ← hbits, hb]

/-- No error within `w` consecutive bits goes unnoticed. -/
theorem burst_detected {c : BitVec w} {bits bits' : List Bool} (h : BurstError w bits bits') :
    remainder poly c bits ≠ remainder poly c bits' := by
  obtain ⟨pre, bits, bits', post, rfl, rfl, hlen, hw, hne⟩ := h
  intro h
  apply hne
  rw [remainder_append, remainder_append, remainder_append poly c (pre ++ bits'),
    remainder_append poly c pre] at h
  have heq := remainder_injective hpoly post h
  have hx := remainder_xor poly (remainder poly c pre) (remainder poly c pre) bits bits' hlen
  rw [heq, BitVec.xor_self, BitVec.xor_self] at hx
  have hfit : (List.zipWith xor bits bits').length + 0 ≤ w := by
    rw [List.length_zipWith]
    omega
  have hz := eq_zeros hpoly hfit (by rw [BitVec.shiftLeft_zero]; exact hx)
  have hback := zipWith_xor_cancel hlen
  rw [hz, List.length_zipWith, ← hlen, Nat.min_self] at hback
  rw [← hback]
  clear * -
  induction bits with
  | nil => rfl
  | cons b bits ih => rw [List.length_cons, List.replicate_succ, List.zipWith_cons_cons, Bool.xor_false, ← ih]

end Detection

end MmsServer.Lib.Crc
