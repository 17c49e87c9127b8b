import Mathlib.Tactic.Common

namespace MmsServer.Lib.PackedByte

theorem forall_byte {P : UInt8 → Prop} (h : ∀ i : Fin 256, P (UInt8.ofFin i)) (b : UInt8) : P b :=
  h b.toFin

/-- A byte below a bound is one of finitely many. -/
theorem exists_fin {b : UInt8} {n : ℕ} (h : b.toNat < n) : ∃ i : Fin n, b = UInt8.ofNat i :=
  ⟨⟨b.toNat, h⟩, UInt8.ofNat_toNat.symm⟩

theorem toNat_and_lt {m : UInt8} {n : ℕ} (h : m.toNat < n) (b : UInt8) : (b &&& m).toNat < n :=
  Nat.lt_of_le_of_lt (UInt8.le_iff_toNat_le.mp UInt8.and_le_right) h

/-- Fields of two, one and five bits. -/
theorem split_two_one_five {x y z : UInt8} (hx : x.toNat < 4) (hy : y.toNat < 2)
    (hz : z.toNat < 32) :
    (((x <<< 6) ||| (y <<< 5) ||| z) >>> 6) &&& 0x03 = x ∧
      (((x <<< 6) ||| (y <<< 5) ||| z) >>> 5) &&& 0x01 = y ∧
      ((x <<< 6) ||| (y <<< 5) ||| z) &&& 0x1f = z := by
  obtain ⟨i, rfl⟩ := exists_fin hx
  obtain ⟨j, rfl⟩ := exists_fin hy
  obtain ⟨k, rfl⟩ := exists_fin hz
  clear hx hy hz
  revert i j k
  decide +kernel

/-- A mask that leaves out only bits that are clear. -/
theorem and_of_clear {b m n : UInt8} (hmn : m ||| n = -1) (h : b &&& m = 0) : b &&& n = b := by
  have hb : b &&& (m ||| n) = (b &&& m) ||| (b &&& n) :=
    UInt8.toBitVec_inj.mp (by simp [BitVec.and_or_distrib_left])
  rw [hmn, UInt8.and_neg_one, h, UInt8.zero_or] at hb
  exact hb.symm

end MmsServer.Lib.PackedByte
