import MmsServer.Lib.Checked
import Mathlib.Data.Nat.Bitwise
import Mathlib.Tactic.Ring

namespace MmsServer.Base.BitStream

open Lib.ByteReader Lib.Checked

/-- The bit at `bit_pos_`, from the high end of a byte to its low end. The length
of the view is not looked at. -/
def bitAt (data : Bytes) (pos : ℕ) : Outcome Bool :=
  match data[pos / 8]? with
  | some b => return b.toNat.testBit (7 - pos % 8)
  | none => .fault .overread

def readU (w : ℕ) (data : Bytes) : (count pos v : ℕ) → Outcome ℕ
  | 0, _, v => return v
  | count + 1, pos, v => do
    let b ← bitAt data pos
    readU w data count (pos + 1) ((2 * v + b.toNat) % 2 ^ w)

/-- A bit that is 0 leaves the byte as it is. -/
def writeOneBit (data : Bytes) (pos : ℕ) (v : Bool) : Outcome Bytes :=
  match data[pos / 8]? with
  | some b => return data.set (pos / 8) (if v then b ||| UInt8.ofNat (2 ^ (7 - pos % 8)) else b)
  | none => .fault .overrun

def writeBits (data : Bytes) : (count pos v : ℕ) → Outcome Bytes
  | 0, _, _ => return data
  | count + 1, pos, v => do
    let data ← writeOneBit data pos (v.testBit count)
    writeBits data count (pos + 1) v

theorem fromBE_lt_two_pow (data : Bytes) : fromBE data < 2 ^ (8 * data.length) := by
  have h := fromBE_lt data
  rwa [show 256 = 2 ^ 8 from rfl, ← Nat.pow_mul] at h

theorem fromBE_cons (b : UInt8) (bs : Bytes) :
    fromBE (b :: bs) = 2 ^ (8 * bs.length) * b.toNat + fromBE bs := by
  rw [fromBE, show 256 = 2 ^ 8 from rfl, ← Nat.pow_mul, Nat.mul_comm]

/-- The bits of a buffer are those of its bytes as one number. -/
theorem bitAt_eq {data : Bytes} {pos : ℕ} (h : pos < 8 * data.length) :
    bitAt data pos = .ok ((fromBE data).testBit (8 * data.length - 1 - pos)) := by
  induction data generalizing pos with
  | nil => simp at h
  | cons b bs ih =>
    have hlt := fromBE_lt_two_pow bs
    rw [List.length_cons] at h ⊢
    rw [fromBE_cons, Nat.testBit_two_pow_mul_add _ hlt]
    by_cases hp : pos < 8
    · rw [if_neg (by omega), bitAt, Nat.div_eq_of_lt hp, Nat.mod_eq_of_lt hp,
        show 8 * (bs.length + 1) - 1 - pos - 8 * bs.length = 7 - pos by omega]
      rfl
    · have hb : bitAt (b :: bs) pos = bitAt bs (pos - 8) := by
        have hq : pos / 8 = (pos - 8) / 8 + 1 := by omega
        have hr : pos % 8 = (pos - 8) % 8 := by omega
        rw [bitAt, bitAt, hq, hr, List.getElem?_cons_succ]
      rw [if_pos (by omega), hb, ih (by omega),
        show 8 * bs.length - 1 - (pos - 8) = 8 * (bs.length + 1) - 1 - pos by omega]

theorem readU_eq {w : ℕ} {data : Bytes} {count pos v : ℕ} (h : pos + count ≤ 8 * data.length)
    (hv : v < 2 ^ w) :
    readU w data count pos v =
      .ok ((v * 2 ^ count + fromBE data / 2 ^ (8 * data.length - (pos + count)) % 2 ^ count) %
        2 ^ w) := by
  induction count generalizing pos v with
  | zero =>
    rw [Nat.pow_zero, Nat.mod_one, Nat.mul_one, Nat.add_zero, Nat.mod_eq_of_lt hv]
    rfl
  | succ count ih =>
    set x := fromBE data / 2 ^ (8 * data.length - (pos + (count + 1))) with hx
    have hbit : (fromBE data).testBit (8 * data.length - 1 - pos) = x.testBit count := by
      rw [hx, Nat.testBit_div_two_pow]
      congr 1
      omega
    have hmod : x % 2 ^ (count + 1) = 2 ^ count * (x.testBit count).toNat + x % 2 ^ count := by
      rw [Nat.pow_succ, Nat.mod_mul, Nat.toNat_testBit, Nat.add_comm]
    have hpos : (2 * v + (x.testBit count).toNat) % 2 ^ w < 2 ^ w :=
      Nat.mod_lt _ (Nat.two_pow_pos w)
    rw [readU, bitAt_eq (by omega), Outcome.ok_bind, hbit, ih (by omega) hpos,
      show pos + 1 + count = pos + (count + 1) by omega, ← hx, hmod]
    congr 1
    rw [Nat.add_mod, Nat.mod_mul_mod, ← Nat.add_mod]
    congr 1
    rw [Nat.pow_succ]
    ring

theorem readU_append {w : ℕ} {hd rest : Bytes} {count pos v : ℕ}
    (h : pos + count ≤ 8 * hd.length) :
    readU w (hd ++ rest) count pos v = readU w hd count pos v := by
  induction count generalizing pos v with
  | zero => rfl
  | succ count ih =>
    have hb : bitAt (hd ++ rest) pos = bitAt hd pos := by
      rw [bitAt, bitAt, List.getElem?_append_left (by omega)]
    rw [readU, readU, hb]
    congr 1
    funext b
    exact ih (by omega)

theorem toNat_writeBit (b : UInt8) (v : Bool) {i : ℕ} (h : i < 8) :
    (if v then b ||| UInt8.ofNat (2 ^ i) else b).toNat = b.toNat ||| v.toNat <<< i := by
  have hlt : 2 ^ i < 2 ^ 8 := Nat.pow_lt_pow_right (by omega) h
  cases v with
  | false => simp
  | true =>
    rw [if_pos rfl, UInt8.toNat_or, UInt8.toNat_ofNat_of_lt' hlt, Bool.toNat_true,
      Nat.one_shiftLeft]

theorem fromBE_cons_or (b : UInt8) (bs : Bytes) (n : ℕ) :
    2 ^ (8 * bs.length) * (b.toNat ||| n) + fromBE bs =
      fromBE (b :: bs) ||| n <<< (8 * bs.length) := by
  have hlt := fromBE_lt_two_pow bs
  rw [fromBE_cons, Nat.two_pow_add_eq_or_of_lt hlt, Nat.two_pow_add_eq_or_of_lt hlt,
    Nat.mul_comm, Nat.mul_comm _ b.toNat, ← Nat.shiftLeft_eq, ← Nat.shiftLeft_eq,
    Nat.shiftLeft_or_distrib, Nat.or_assoc, Nat.or_assoc, Nat.or_comm (n <<< _)]

/-- Writing a bit is an "or" on the number. -/
theorem writeOneBit_eq {data : Bytes} {pos : ℕ} (h : pos < 8 * data.length) (v : Bool) :
    ∃ data', writeOneBit data pos v = .ok data' ∧ data'.length = data.length ∧
      fromBE data' = fromBE data ||| v.toNat <<< (8 * data.length - 1 - pos) := by
  induction data generalizing pos with
  | nil => simp at h
  | cons b bs ih =>
    rw [List.length_cons] at h ⊢
    by_cases hp : pos < 8
    · have hi : 8 * (bs.length + 1) - 1 - pos = (7 - pos) + 8 * bs.length := by omega
      have hw : writeOneBit (b :: bs) pos v =
          .ok ((if v then b ||| UInt8.ofNat (2 ^ (7 - pos)) else b) :: bs) := by
        rw [writeOneBit, Nat.div_eq_of_lt hp, Nat.mod_eq_of_lt hp]
        rfl
      refine ⟨_, hw, by simp, ?_⟩
      rw [fromBE_cons, toNat_writeBit b v (by omega), fromBE_cons_or, hi, Nat.shiftLeft_add]
    · obtain ⟨data', hd, hl, hn⟩ := ih (show pos - 8 < 8 * bs.length by omega)
      have hq : pos / 8 = (pos - 8) / 8 + 1 := by omega
      have hr : pos % 8 = (pos - 8) % 8 := by omega
      have hw : writeOneBit (b :: bs) pos v = .ok (b :: data') := by
        unfold writeOneBit at hd ⊢
        rw [hq, hr, List.getElem?_cons_succ]
        split at hd
        · rename_i heq
          rw [heq]
          cases hd
          rfl
        · cases hd
      refine ⟨_, hw, by rw [List.length_cons, hl], ?_⟩
      have hi : 8 * bs.length - 1 - (pos - 8) = 8 * (bs.length + 1) - 1 - pos := by omega
      have hlt := fromBE_lt_two_pow data'
      rw [hl, hn] at hlt
      rw [fromBE_cons, fromBE_cons, hl, hn, ← hi, Nat.two_pow_add_eq_or_of_lt hlt,
        Nat.two_pow_add_eq_or_of_lt (fromBE_lt_two_pow bs), Nat.or_assoc]

theorem writeBits_eq {data : Bytes} {count pos : ℕ} (h : pos + count ≤ 8 * data.length) (v : ℕ) :
    ∃ data', writeBits data count pos v = .ok data' ∧ data'.length = data.length ∧
      fromBE data' =
        fromBE data ||| (v % 2 ^ count) <<< (8 * data.length - (pos + count)) := by
  induction count generalizing data pos with
  | zero => exact ⟨data, rfl, rfl, by simp [Nat.mod_one]⟩
  | succ count ih =>
    obtain ⟨data₁, h₁, hl₁, hn₁⟩ :=
      writeOneBit_eq (show pos < 8 * data.length by omega) (v.testBit count)
    obtain ⟨data₂, h₂, hl₂, hn₂⟩ := ih (show pos + 1 + count ≤ 8 * data₁.length by omega)
    refine ⟨data₂, by rw [writeBits, h₁, Outcome.ok_bind, h₂], hl₂.trans hl₁, ?_⟩
    have hi : 8 * data.length - (pos + 1 + count) = 8 * data.length - (pos + (count + 1)) := by
      omega
    have hj : 8 * data.length - 1 - pos = count + (8 * data.length - (pos + (count + 1))) := by
      omega
    have hmod : v % 2 ^ (count + 1) =
        (v.testBit count).toNat <<< count ||| v % 2 ^ count := by
      rw [Nat.shiftLeft_eq, Nat.mul_comm, ← Nat.two_pow_add_eq_or_of_lt (Nat.mod_lt _
        (Nat.two_pow_pos count)), Nat.pow_succ, Nat.mod_mul, Nat.toNat_testBit, Nat.add_comm]
    rw [hn₂, hn₁, hl₁, hi, hj, hmod, Nat.shiftLeft_or_distrib, ← Nat.shiftLeft_add, Nat.or_assoc]

section Fields

def field (data : Bytes) (pos n : ℕ) : ℕ :=
  fromBE data / 2 ^ (8 * data.length - (pos + n)) % 2 ^ n

theorem readU_field {w : ℕ} {data : Bytes} {pos n : ℕ} (h : pos + n ≤ 8 * data.length)
    (hn : n ≤ w) : readU w data n pos 0 = .ok (field data pos n) := by
  have hlt : field data pos n < 2 ^ w :=
    Nat.lt_of_lt_of_le (Nat.mod_lt _ (Nat.two_pow_pos n)) (Nat.pow_le_pow_right (by decide) hn)
  rw [readU_eq h (Nat.two_pow_pos w), Nat.zero_mul, Nat.zero_add]
  exact congrArg Outcome.ok (Nat.mod_eq_of_lt hlt)

theorem readU_overread {w : ℕ} {data : Bytes} {count pos v : ℕ} (hc : 0 < count)
    (h : 8 * data.length < pos + count) : readU w data count pos v = .fault .overread := by
  induction count generalizing pos v with
  | zero => exact absurd hc (lt_irrefl 0)
  | succ count ih =>
    by_cases hp : pos < 8 * data.length
    · rw [readU, bitAt_eq hp, Outcome.ok_bind, ih (by omega) (by omega)]
    · have hb : bitAt data pos = .fault .overread := by
        rw [bitAt, List.getElem?_eq_none (by omega)]
      rw [readU, hb, Outcome.fault_bind]

theorem testBit_field (data : Bytes) (pos n i : ℕ) :
    (field data pos n).testBit i =
      (decide (i < n) && (fromBE data).testBit (8 * data.length - (pos + n) + i)) := by
  rw [field, Nat.testBit_mod_two_pow, Nat.testBit_div_two_pow, Nat.add_comm i]

/-- The low bits of a field are a field. -/
theorem field_mod (data : Bytes) (pos m n : ℕ) :
    field data pos (m + n) % 2 ^ n = field data (pos + m) n := by
  rw [field, field, Nat.mod_mod_of_dvd _ (Nat.pow_dvd_pow 2 (Nat.le_add_left n m)), Nat.add_assoc]

/-- Writing a field is an "or" on its bits, and leaves the other ones as they are. -/
theorem writeBits_field {data : Bytes} {pos n : ℕ} (h : pos + n ≤ 8 * data.length) (v : ℕ) :
    ∃ data', writeBits data n pos v = .ok data' ∧ data'.length = data.length ∧
      field data' pos n = field data pos n ||| v % 2 ^ n ∧
      ∀ q m, q + m ≤ 8 * data.length → q + m ≤ pos ∨ pos + n ≤ q →
        field data' q m = field data q m := by
  obtain ⟨data', hw, hlen, hbe⟩ := writeBits_eq h v
  refine ⟨data', hw, hlen, ?_, fun q m hq hd ↦ ?_⟩
  · apply Nat.eq_of_testBit_eq
    intro i
    rw [Nat.testBit_or, testBit_field, testBit_field, hbe, hlen, Nat.testBit_or,
      Nat.testBit_shiftLeft, Nat.testBit_mod_two_pow]
    by_cases hi : i < n
    · simp [hi]
    · simp [hi]
  · apply Nat.eq_of_testBit_eq
    intro i
    rw [testBit_field, testBit_field, hbe, hlen, Nat.testBit_or, Nat.testBit_shiftLeft,
      Nat.testBit_mod_two_pow]
    by_cases hi : i < m
    · rcases hd with hd | hd
      · have hge : ¬ 8 * data.length - (q + m) + i - (8 * data.length - (pos + n)) < n := by omega
        simp only [hge, decide_false, Bool.false_and, Bool.and_false, Bool.or_false]
      · have hlt : ¬ 8 * data.length - (q + m) + i ≥ 8 * data.length - (pos + n) := by omega
        simp only [hlt, decide_false, Bool.false_and, Bool.or_false]
    · simp only [hi, decide_false, Bool.false_and]

end Fields

end MmsServer.Base.BitStream
