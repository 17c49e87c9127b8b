import MmsServer.Base.BitStream
import MmsServer.Lib.ExpGolomb

namespace MmsServer.Base.ExpGolomb

open Lib.ByteReader Lib.Checked Lib.BitReading Lib.ExpGolomb

def tryOneBit : BitReader (Option Bool) := fun data pos ↦
  match data[pos / 8]? with
  | some b => return (some (b.toNat.testBit (7 - pos % 8)), pos + 1)
  | none => return (none, pos)

/-- `read_one_bit` of a caller that fails without a bit. -/
def readOneBit (code : ℤ) : BitReader Bool := do
  match ← tryOneBit with
  | some b => return b
  | none => fun _ _ ↦ .err code

def readU (w n : ℕ) : BitReader ℕ := fun data pos ↦ do
  let v ← BitStream.readU w data n pos 0
  return (v, pos + n)

/-- The zeros in front of a one. It is not looked whether the last of the bits is a one. -/
def leadingZeroBits : ℕ → BitReader ℕ
  | 0 => do
    let _ ← readU 8 1
    return 0
  | n + 1 => do
    let b ← readU 8 1
    if b = 1 then return 0
    let zeros ← leadingZeroBits n
    return zeros + 1

/-- The power of two less one is a wrapped 32-bit integer. -/
def readExpGolombUe : BitReader ℕ := do
  let zeros ← leadingZeroBits 64
  let l ← readU 64 zeros
  return 2 ^ (zeros % 32) - 1 + l

def readExpGolombSe : BitReader ℤ := do
  let ue ← readExpGolombUe
  let v : ℕ := (ue + 1) % 2 ^ 64 / 2
  return if ue % 2 = 1 then (v : ℤ) else -(v : ℤ)

theorem reads_tryOneBit (b : Bool) : Reads tryOneBit [b] (some b) := by
  intro data pos hpre
  have hb := head_bits hpre
  unfold tryOneBit
  cases hd : data[pos / 8]? with
  | none =>
    rw [hd] at hb
    cases hb
  | some x =>
    rw [hd, Option.map_some] at hb
    rw [← Option.some.inj hb]
    rfl

theorem reads_readOneBit (code : ℤ) (b : Bool) : Reads (readOneBit code) [b] b :=
  (reads_tryOneBit b).last (.pure b)

theorem readU_of_prefix {w n v a pos : ℕ} {data : Bytes}
    (hpre : numberBits n v <+: (bits data).drop pos) (ha : a * 2 ^ n + v % 2 ^ n < 2 ^ w) :
    BitStream.readU w data n pos a = .ok (a * 2 ^ n + v % 2 ^ n) := by
  induction n generalizing pos a with
  | zero =>
    rw [Nat.pow_zero, Nat.mul_one, Nat.mod_one]
    rfl
  | succ n ih =>
    have hbit : BitStream.bitAt data pos = .ok (v.testBit n) := by
      have hb := head_bits hpre
      unfold BitStream.bitAt
      cases hd : data[pos / 8]? with
      | none =>
        rw [hd] at hb
        cases hb
      | some x =>
        rw [hd, Option.map_some] at hb
        rw [← Option.some.inj hb]
        rfl
    have hmod : v % 2 ^ (n + 1) = 2 ^ n * (v.testBit n).toNat + v % 2 ^ n := by
      rw [Nat.pow_succ, Nat.mod_mul, Nat.toNat_testBit, Nat.add_comm]
    have hsum : a * 2 ^ (n + 1) + v % 2 ^ (n + 1) =
        (2 * a + (v.testBit n).toNat) * 2 ^ n + v % 2 ^ n := by
      rw [hmod, Nat.pow_succ]
      ring
    rw [hsum] at ha ⊢
    have hacc : (2 * a + (v.testBit n).toNat) % 2 ^ w = 2 * a + (v.testBit n).toNat := by
      have hle := Nat.le_mul_of_pos_right (2 * a + (v.testBit n).toNat) (Nat.two_pow_pos n)
      exact Nat.mod_eq_of_lt (by omega)
    rw [BitStream.readU, hbit, Outcome.ok_bind, hacc]
    exact ih (tail_bits hpre) ha

theorem reads_readU {w n v : ℕ} (hv : v < 2 ^ n) (hn : n ≤ w) : Reads (readU w n) (numberBits n v) v := by
  intro data pos hpre
  have hw : v < 2 ^ w := Nat.lt_of_lt_of_le hv (Nat.pow_le_pow_right Nat.two_pos hn)
  have hread := readU_of_prefix (w := w) (a := 0) hpre (by
    rwa [Nat.zero_mul, Nat.zero_add, Nat.mod_eq_of_lt hv])
  rw [Nat.zero_mul, Nat.zero_add, Nat.mod_eq_of_lt hv] at hread
  rw [readU, hread, length_numberBits]
  rfl

theorem reads_bit (b : Bool) : Reads (readU 8 1) [b] b.toNat := by
  have hbits : numberBits 1 b.toNat = [b] := by cases b <;> rfl
  rw [← hbits]
  exact reads_readU b.toNat_lt (by decide)

theorem reads_leadingZeroBits {k n : ℕ} (h : k ≤ n) :
    Reads (leadingZeroBits n) (List.replicate k false ++ [true]) k := by
  induction k generalizing n with
  | zero =>
    cases n with
    | zero => exact (reads_bit true).map fun _ ↦ 0
    | succ n => exact (reads_bit true).bind (.pure 0)
  | succ k ih =>
    cases n with
    | zero => omega
    | succ n => exact (reads_bit false).bind ((ih (Nat.le_of_succ_le_succ h)).map fun zeros ↦ zeros + 1)

theorem reads_readExpGolombUe {n : ℕ} (h : n < 2 ^ 32 - 1) : Reads readExpGolombUe (ueBits n) n := by
  have hlog : (n + 1).log2 < 32 := by
    rw [Nat.log2_lt (Nat.succ_ne_zero n)]
    omega
  have hmod : (n + 1) % 2 ^ (n + 1).log2 < 2 ^ (n + 1).log2 := Nat.mod_lt _ (Nat.two_pow_pos _)
  have hsum := two_pow_log2_add n
  have hvalue : 2 ^ ((n + 1).log2 % 32) - 1 + (n + 1) % 2 ^ (n + 1).log2 = n := by
    have hpos := Nat.two_pow_pos (n + 1).log2
    rw [Nat.mod_eq_of_lt hlog]
    omega
  have hreads := (reads_leadingZeroBits (k := (n + 1).log2) (n := 64) (by omega)).bind
    (k := fun zeros ↦ do
      let l ← readU 64 zeros
      return 2 ^ (zeros % 32) - 1 + l)
    ((reads_readU hmod (by omega)).map fun l ↦ 2 ^ ((n + 1).log2 % 32) - 1 + l)
  rw [hvalue, List.append_assoc, List.singleton_append, ← ueBits_eq] at hreads
  exact hreads

theorem reads_readExpGolombSe {z : ℤ} (hlo : -2 ^ 31 < z) (hhi : z < 2 ^ 31) :
    Reads readExpGolombSe (seBits z) z := by
  have hlt : seNumber z + 1 < 2 ^ 32 := seNumber_lt hlo hhi
  have hreads := (reads_readExpGolombUe (n := seNumber z) (by omega)).map fun ue ↦
    if ue % 2 = 1 then (((ue + 1) % 2 ^ 64 / 2 : ℕ) : ℤ) else -(((ue + 1) % 2 ^ 64 / 2 : ℕ) : ℤ)
  have hvalue : (if seNumber z % 2 = 1 then (((seNumber z + 1) % 2 ^ 64 / 2 : ℕ) : ℤ)
      else -(((seNumber z + 1) % 2 ^ 64 / 2 : ℕ) : ℤ)) = z := by
    have hmod : (seNumber z + 1) % 2 ^ 64 = seNumber z + 1 := Nat.mod_eq_of_lt (by omega)
    have hz := seNumber.eq_1 z
    rw [hmod]
    split at hz
    · rw [if_pos (by omega)]
      omega
    · rw [if_neg (by omega)]
      omega
  rw [hvalue] at hreads
  exact hreads

end MmsServer.Base.ExpGolomb
