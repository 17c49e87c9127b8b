import MmsServer.Lib.Text

namespace MmsServer.Config.OrderChecks

open Lib.ByteReader Lib.Text

structure SmallerCheckConfig where
  canEqual : Bool

structure GreaterCheckConfig where
  canEqual : Bool

/-- The arguments are read as an `int`. -/
def SmallerCheckConfig.check (c : SmallerCheckConfig) (methodParams : List Bytes) : Bool :=
  match methodParams with
  | [p₁, p₂] => if c.canEqual then atoi p₁ ≤ atoi p₂ else atoi p₁ < atoi p₂
  | _ => false

/-- The arguments are read as a `long long`. -/
def GreaterCheckConfig.check (c : GreaterCheckConfig) (methodParams : List Bytes) : Bool :=
  match methodParams with
  | [p₁, p₂] => if c.canEqual then atoll p₁ ≥ atoll p₂ else atoll p₁ > atoll p₂
  | _ => false

inductive DecimalText : Bytes → ℤ → Prop
  | plain {text ds} : Counts 10 text ds → text ≠ [] →
      DecimalText text (ds.foldl (fun n d ↦ n * 10 + d) 0 : ℕ)
  | minus {text ds} : Counts 10 text ds → text ≠ [] →
      DecimalText (45 :: text) (-(ds.foldl (fun n d ↦ n * 10 + d) 0 : ℕ))

structure Decimal64 where
  text : Bytes
  value : ℤ
  reads : DecimalText text value
  range : -2 ^ 63 ≤ value ∧ value < 2 ^ 63

section Order

variable (canEqual : Bool) (a b : Decimal64)

def Below (i j : ℤ) : Prop := if canEqual then i ≤ j else i < j

/-- Both checks order the integers, and the one is the other with its arguments exchanged. -/
def OrderRight : Prop :=
  (SmallerCheckConfig.check ⟨canEqual⟩ [a.text, b.text] ↔ Below canEqual a.value b.value) ∧
    (GreaterCheckConfig.check ⟨canEqual⟩ [a.text, b.text] ↔ Below canEqual b.value a.value) ∧
    SmallerCheckConfig.check ⟨canEqual⟩ [a.text, b.text] =
      GreaterCheckConfig.check ⟨canEqual⟩ [b.text, a.text]

def high (i : ℤ) : ℤ := (i + 2 ^ 31) / 2 ^ 32

def low (i : ℤ) : ℤ := i.bmod (2 ^ 32)

/-- The numbers differ in their low bits only, or these are ordered like what is above them. -/
def LowOrdered (i j : ℤ) : Prop :=
  high i = high j ∨ high i < high j ∧ Below canEqual (low i) (low j) ∨
    high j < high i ∧ ¬ Below canEqual (low i) (low j)

end Order

section Reading

theorem strtol_decimal {text : Bytes} {i : ℤ} (h : DecimalText text i) : strtol 10 text = some i := by
  have hends : Ends 10 [] := fun b hb ↦ by cases hb
  have hx : ∀ b ∈ ([] : Bytes).head?, b ≠ 120 ∧ b ≠ 88 := fun b hb ↦ by cases hb
  cases h with
  | plain hc hne =>
    have hs := strtol_counts hc hne (by decide) hends hx
    rwa [List.append_nil] at hs
  | minus hc hne =>
    have hs := strtol_minus hc hne (by decide) hends hx
    rwa [List.append_nil] at hs

theorem atoll_decimal (a : Decimal64) : atoll a.text = a.value := by
  have hrange := a.range
  rw [atoll, strtol_decimal a.reads, Option.getD_some]
  omega

/-- A larger number wraps around. -/
theorem atoi_decimal (a : Decimal64) : atoi a.text = low a.value := by
  have hrange := a.range
  have hclamp : max (-2 ^ 63) (min (2 ^ 63 - 1) a.value) = a.value := by omega
  rw [atoi, strtol_decimal a.reads, Option.getD_some, hclamp, BitVec.toInt_ofInt]
  rfl

theorem high_low (i : ℤ) : i = 2 ^ 32 * high i + low i ∧ -2 ^ 31 ≤ low i ∧ low i < 2 ^ 31 := by
  rw [high, low, Int.bmod_def]
  split
  · omega
  · omega

/-- Where the low bits decide rightly. -/
theorem below_low_iff (canEqual : Bool) (i j : ℤ) :
    (Below canEqual (low i) (low j) ↔ Below canEqual i j) ↔ LowOrdered canEqual i j := by
  have hi := high_low i
  have hj := high_low j
  cases canEqual with
  | false =>
    simp only [LowOrdered, Below, Bool.false_eq_true, if_false]
    omega
  | true =>
    simp only [LowOrdered, Below, if_true]
    omega

variable {canEqual : Bool} {a b : Decimal64}

theorem smaller_iff : SmallerCheckConfig.check ⟨canEqual⟩ [a.text, b.text] ↔
    Below canEqual (low a.value) (low b.value) := by
  rw [SmallerCheckConfig.check, atoi_decimal, atoi_decimal, Below]
  cases canEqual <;> simp

theorem greater_iff : GreaterCheckConfig.check ⟨canEqual⟩ [a.text, b.text] ↔
    Below canEqual b.value a.value := by
  rw [GreaterCheckConfig.check, atoll_decimal, atoll_decimal, Below]
  cases canEqual <;> simp

/-- The checks are right where the low bits of the numbers are ordered like the numbers. -/
theorem orderRight_iff (canEqual : Bool) (a b : Decimal64) :
    OrderRight canEqual a b ↔ LowOrdered canEqual a.value b.value := by
  rw [← below_low_iff, OrderRight, smaller_iff]
  refine ⟨fun h ↦ h.1, fun h ↦ ⟨h, greater_iff, ?_⟩⟩
  rw [Bool.eq_iff_iff, smaller_iff, greater_iff]
  exact h

def one : Decimal64 where
  text := ascii "1"
  value := 1
  reads := @DecimalText.plain (ascii "1") [1] (.cons rfl .nil) (by decide)
  range := by decide

def twoTo31 : Decimal64 where
  text := ascii "2147483648"
  value := 2147483648
  reads := @DecimalText.plain (ascii "2147483648") [2, 1, 4, 7, 4, 8, 3, 6, 4, 8]
    (by simp [Counts, ascii, digitIn, digitVal]) (by decide)
  range := by decide

/-- The larger number is read as a negative one. -/
theorem largeNumber_misordered : ¬ OrderRight false twoTo31 one := by
  rw [orderRight_iff]
  have hi : high 2147483648 = 1 ∧ low 2147483648 = -2147483648 := by decide
  have hj : high 1 = 0 ∧ low 1 = 1 := by decide
  simp only [LowOrdered, Below, twoTo31, one, hi, hj, Bool.false_eq_true, if_false]
  omega

end Reading

end MmsServer.Config.OrderChecks
