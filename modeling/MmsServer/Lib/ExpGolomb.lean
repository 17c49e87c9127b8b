import Mathlib.Data.Nat.Log
import MmsServer.Lib.BitReading

namespace MmsServer.Lib.ExpGolomb

open BitReading

/-- The number plus one, behind a zero for each of its bits but the first one. -/
def ueBits (n : ℕ) : List Bool :=
  List.replicate (n + 1).log2 false ++ numberBits ((n + 1).log2 + 1) (n + 1)

/-- The integers as 0, 1, -1, 2, -2 and so on. -/
def seNumber (z : ℤ) : ℕ := if 0 < z then 2 * z.toNat - 1 else 2 * (-z).toNat

def seBits (z : ℤ) : List Bool := ueBits (seNumber z)

/-- The zeros are followed by a one and by what the number has above a power of two. -/
theorem ueBits_eq (n : ℕ) : ueBits n =
    List.replicate (n + 1).log2 false ++ true :: numberBits (n + 1).log2 ((n + 1) % 2 ^ (n + 1).log2) := by
  set k := (n + 1).log2 with hk
  have hle : 2 ^ k ≤ n + 1 := Nat.log2_self_le (Nat.succ_ne_zero n)
  have hlt : n + 1 < 2 ^ (k + 1) := Nat.lt_log2_self
  have hmod : (n + 1) % 2 ^ k < 2 ^ k := Nat.mod_lt _ (Nat.two_pow_pos k)
  have hsum : n + 1 = 2 ^ k * 1 + (n + 1) % 2 ^ k := by
    rw [Nat.pow_succ] at hlt
    have hdiv : (n + 1) / 2 ^ k = 1 := Nat.div_eq_of_lt_le (by omega) (by omega)
    have := Nat.div_add_mod (n + 1) (2 ^ k)
    rw [hdiv] at this
    exact this.symm
  have hbit : (n + 1).testBit k = true := by
    rw [hsum, Nat.testBit_two_pow_mul_add _ hmod, if_neg (Nat.lt_irrefl k), Nat.sub_self]
    rfl
  have hrest : numberBits k (n + 1) = numberBits k ((n + 1) % 2 ^ k) := by
    conv_lhs => rw [hsum]
    exact numberBits_add k 1 _ hmod
  rw [ueBits, ← hk, numberBits, hbit, hrest]

theorem two_pow_log2_add (n : ℕ) : 2 ^ (n + 1).log2 + (n + 1) % 2 ^ (n + 1).log2 = n + 1 := by
  have hle : 2 ^ (n + 1).log2 ≤ n + 1 := Nat.log2_self_le (Nat.succ_ne_zero n)
  have hlt : n + 1 < 2 ^ ((n + 1).log2 + 1) := Nat.lt_log2_self
  rw [Nat.pow_succ] at hlt
  have hdiv : (n + 1) / 2 ^ (n + 1).log2 = 1 := Nat.div_eq_of_lt_le (by omega) (by omega)
  have := Nat.div_add_mod (n + 1) (2 ^ (n + 1).log2)
  rw [hdiv] at this
  omega

theorem seNumber_lt {z : ℤ} {n : ℕ} (hlo : -2 ^ n < z) (hhi : z < 2 ^ n) : seNumber z + 1 < 2 ^ (n + 1) := by
  have hcast : ((2 ^ n : ℕ) : ℤ) = 2 ^ n := by norm_cast
  rw [seNumber, Nat.pow_succ]
  split
  · omega
  · omega

end MmsServer.Lib.ExpGolomb
