import Mathlib.Algebra.Order.Ring.Int
import Mathlib.Data.Option.Basic
import Mathlib.Tactic.Common
import MmsServer.Lib.ByteReader

namespace MmsServer.Lib.Text

open ByteReader

def ascii (s : String) : Bytes := s.toList.map fun c ↦ UInt8.ofNat c.toNat

def crlf : Bytes := [13, 10]

def isSpace (b : UInt8) : Bool := b == 32 || (9 ≤ b && b ≤ 13)

def trim (bs : Bytes) : Bytes := ((bs.dropWhile isSpace).reverse.dropWhile isSpace).reverse

def digitVal (b : UInt8) : Option ℕ :=
  if 48 ≤ b ∧ b ≤ 57 then some (b.toNat - 48)
  else if 97 ≤ b ∧ b ≤ 122 then some (b.toNat - 87)
  else if 65 ≤ b ∧ b ≤ 90 then some (b.toNat - 55)
  else none

def digitIn (base : ℕ) (b : UInt8) : Option ℕ := (digitVal b).filter (· < base)

/-- The number that starts a text, behind the digits that make up `acc`. -/
def digits (base : ℕ) : ℕ → Bytes → ℕ
  | acc, [] => acc
  | acc, b :: bs =>
    match digitIn base b with
    | some d => digits base (acc * base + d) bs
    | none => acc

def magnitude (base : ℕ) : Bytes → Option ℕ
  | [] => none
  | b :: bs => if (digitIn base b).isSome then some (digits base 0 (b :: bs)) else none

def skipHexPrefix (base : ℕ) : Bytes → Bytes
  | 48 :: x :: d :: bs =>
    if base = 16 ∧ (x = 120 ∨ x = 88) ∧ (digitIn 16 d).isSome then d :: bs else 48 :: x :: d :: bs
  | bs => bs

/-- The number at the start of a text behind white space and a sign, if there is one. -/
def strtol (base : ℕ) (bs : Bytes) : Option ℤ :=
  match bs.dropWhile isSpace with
  | 45 :: r => (magnitude base (skipHexPrefix base r)).map fun n : ℕ ↦ -(n : ℤ)
  | 43 :: r => (magnitude base (skipHexPrefix base r)).map fun n : ℕ ↦ (n : ℤ)
  | r => (magnitude base (skipHexPrefix base r)).map fun n : ℕ ↦ (n : ℤ)

def stoi (base : ℕ) (bs : Bytes) : Option ℤ :=
  (strtol base bs).filter fun v ↦ -2 ^ 31 ≤ v ∧ v < 2 ^ 31

/-- `atoi` by way of a `long` that saturates. -/
def atoi (bs : Bytes) : ℤ :=
  (BitVec.ofInt 32 (max (-2 ^ 63) (min (2 ^ 63 - 1) ((strtol 10 bs).getD 0)))).toInt

def atoll (bs : Bytes) : ℤ := max (-2 ^ 63) (min (2 ^ 63 - 1) ((strtol 10 bs).getD 0))

def decimal (n : ℕ) : Bytes := (Nat.toDigits 10 n).map fun c ↦ UInt8.ofNat c.toNat

def decimalInt : ℤ → Bytes
  | .ofNat n => decimal n
  | .negSucc n => 45 :: decimal (n + 1)

def toUpper (bs : Bytes) : Bytes := bs.map fun b ↦ if 97 ≤ b ∧ b ≤ 122 then b - 32 else b

def startsWith (text start : Bytes) : Bool := start.isPrefixOf text

theorem atoi_eq {text : Bytes} {n : ℕ} (h : strtol 10 text = some (n : ℤ)) (hn : n < 2 ^ 31) :
    atoi text = n := by
  rw [atoi, h, Option.getD_some, min_eq_right (by omega), max_eq_right (by omega), BitVec.toInt_ofInt]
  exact Int.bmod_eq_of_le (by omega) (by omega)

/-- A text has one start only of two that do not continue each other. -/
theorem startsWith_clash {line a b : Bytes} (h : startsWith line a) (hab : ¬ a <+: b)
    (hba : ¬ b <+: a) : startsWith line b = false := by
  rw [Bool.eq_false_iff]
  intro hb
  rw [startsWith, List.isPrefixOf_iff_prefix] at h hb
  obtain hle | hle := Nat.le_total a.length b.length
  · exact hab (List.prefix_of_prefix_length_le h hb hle)
  · exact hba (List.prefix_of_prefix_length_le hb h hle)

section Digits

variable {base : ℕ}

def Counts (base : ℕ) (text : Bytes) (ds : List ℕ) : Prop :=
  List.Forall₂ (fun b d ↦ digitIn base b = some d) text ds

def Ends (base : ℕ) (rest : Bytes) : Prop := ∀ b ∈ rest.head?, digitIn base b = none

theorem digits_append {text : Bytes} {ds : List ℕ} (h : Counts base text ds) {rest : Bytes}
    (hrest : Ends base rest) (acc : ℕ) :
    digits base acc (text ++ rest) = ds.foldl (fun n d ↦ n * base + d) acc := by
  induction h generalizing acc with
  | nil =>
    cases rest with
    | nil => rfl
    | cons b rest =>
      rw [List.nil_append, digits, hrest b rfl]
      rfl
  | cons hb _ ih =>
    rw [List.cons_append, digits, hb]
    exact ih _

theorem digitIn_range {b : UInt8} {d : ℕ} (h : digitIn base b = some d) :
    48 ≤ b ∧ b ≤ 57 ∨ 97 ≤ b ∧ b ≤ 122 ∨ 65 ≤ b ∧ b ≤ 90 := by
  rw [digitIn, Option.filter_eq_some_iff] at h
  obtain ⟨h, -⟩ := h
  unfold digitVal at h
  split at h
  · rename_i hd
    exact .inl hd
  · split at h
    · rename_i hd
      exact .inr (.inl hd)
    · split at h
      · rename_i hd
        exact .inr (.inr hd)
      · cases h

theorem digit_not_space {b : UInt8} {d : ℕ} (h : digitIn base b = some d) :
    isSpace b = false ∧ b ≠ 45 ∧ b ≠ 43 := by
  have hr := digitIn_range h
  simp only [UInt8.le_iff_toNat_le, UInt8.reduceToNat] at hr
  refine ⟨?_, ?_, ?_⟩
  · rw [isSpace, Bool.or_eq_false_iff, Bool.and_eq_false_iff]
    refine ⟨?_, .inr ?_⟩
    · rw [beq_eq_false_iff_ne]
      rintro rfl
      simp only [UInt8.reduceToNat] at hr
      omega
    · rw [decide_eq_false_iff_not, UInt8.le_iff_toNat_le]
      simp only [UInt8.reduceToNat]
      omega
  · rintro rfl
    simp only [UInt8.reduceToNat] at hr
    omega
  · rintro rfl
    simp only [UInt8.reduceToNat] at hr
    omega

theorem not_hexPrefix {text : Bytes} {ds : List ℕ} (h : Counts base text ds) {rest : Bytes}
    (hx : ∀ b ∈ rest.head?, b ≠ 120 ∧ b ≠ 88) (hne : text ≠ []) (hbase : base ≤ 16) :
    skipHexPrefix base (text ++ rest) = text ++ rest := by
  have hletter (b : UInt8) (d : ℕ) (hd : digitIn base b = some d) : b ≠ 120 ∧ b ≠ 88 := by
    rw [digitIn, Option.filter_eq_some_iff, decide_eq_true_iff] at hd
    obtain ⟨hv, hlt⟩ := hd
    constructor
    · rintro rfl
      cases hv
      simp only [UInt8.reduceToNat] at hlt
      omega
    · rintro rfl
      cases hv
      simp only [UInt8.reduceToNat] at hlt
      omega
  have hsecond (a x : UInt8) (bs : Bytes) (heq : text ++ rest = a :: x :: bs) : x ≠ 120 ∧ x ≠ 88 := by
    cases h with
    | nil => exact absurd rfl hne
    | cons _ htail =>
      cases htail with
      | nil =>
        rw [List.singleton_append, List.cons.injEq] at heq
        exact hx x (by rw [heq.2]; rfl)
      | cons hb _ =>
        rw [List.cons_append, List.cons_append, List.cons.injEq, List.cons.injEq] at heq
        rw [← heq.2.1]
        exact hletter _ _ hb
  unfold skipHexPrefix
  split
  · rename_i x d bs heq
    rw [if_neg, heq]
    rintro ⟨-, hxx, -⟩
    have hs := hsecond _ _ _ heq
    rcases hxx with rfl | rfl
    · exact hs.1 rfl
    · exact hs.2 rfl
  · rfl

theorem magnitude_counts {text : Bytes} {ds : List ℕ} (h : Counts base text ds) (hne : text ≠ [])
    {rest : Bytes} (hrest : Ends base rest) :
    magnitude base (text ++ rest) = some (ds.foldl (fun n d ↦ n * base + d) 0) := by
  have hvalue := digits_append h hrest 0
  cases h with
  | nil => exact absurd rfl hne
  | @cons b d text ds hb htail =>
    rw [List.cons_append, magnitude, hb, Option.isSome_some, if_pos rfl]
    exact congrArg some hvalue

theorem strtol_counts {text : Bytes} {ds : List ℕ} (h : Counts base text ds) (hne : text ≠ [])
    (hbase : base ≤ 16) {rest : Bytes} (hrest : Ends base rest)
    (hx : ∀ b ∈ rest.head?, b ≠ 120 ∧ b ≠ 88) :
    strtol base (text ++ rest) = some ((ds.foldl (fun n d ↦ n * base + d) 0 : ℕ) : ℤ) := by
  have hskip := not_hexPrefix h hx hne hbase
  have hmag := magnitude_counts h hne hrest
  cases h with
  | nil => exact absurd rfl hne
  | @cons b d text ds hb htail =>
    obtain ⟨hspace, hminus, hplus⟩ := digit_not_space hb
    have hdrop : (b :: text ++ rest).dropWhile isSpace = b :: (text ++ rest) := by
      rw [List.cons_append, List.dropWhile_cons_of_neg (by rw [hspace]; exact Bool.false_ne_true)]
    rw [List.cons_append] at hskip hmag
    unfold strtol
    rw [hdrop]
    split
    · rename_i r heq
      rw [List.cons.injEq] at heq
      exact absurd heq.1 hminus
    · rename_i r heq
      rw [List.cons.injEq] at heq
      exact absurd heq.1 hplus
    · rw [hskip, hmag, Option.map_some]

/-- The same with a minus sign in front. -/
theorem strtol_minus {text : Bytes} {ds : List ℕ} (h : Counts base text ds) (hne : text ≠ [])
    (hbase : base ≤ 16) {rest : Bytes} (hrest : Ends base rest)
    (hx : ∀ b ∈ rest.head?, b ≠ 120 ∧ b ≠ 88) :
    strtol base (45 :: (text ++ rest)) =
      some (-((ds.foldl (fun n d ↦ n * base + d) 0 : ℕ) : ℤ)) := by
  have hdrop : (45 :: (text ++ rest)).dropWhile isSpace = 45 :: (text ++ rest) :=
    List.dropWhile_cons_of_neg (by decide)
  unfold strtol
  rw [hdrop]
  split
  · rename_i r heq
    rw [← (List.cons.inj heq).2, not_hexPrefix h hx hne hbase, magnitude_counts h hne hrest,
      Option.map_some]
  · rename_i r heq
    exact absurd (List.cons.inj heq).1 (by decide)
  · rename_i hminus _
    exact absurd rfl (hminus _)

end Digits

end MmsServer.Lib.Text
