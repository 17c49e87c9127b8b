import MmsServer.Base.ExpGolomb

namespace MmsServer.Codec.EmulationPrevention

open Lib.ByteReader Lib.BitReading Lib.ExpGolomb Base.ExpGolomb

def deemulationPrevention : Bytes → Bytes
  | a :: b :: c :: rest =>
    if a = 0 ∧ b = 0 ∧ c = 3 then a :: b :: deemulationPrevention rest
    else a :: deemulationPrevention (b :: c :: rest)
  | a :: rest => a :: deemulationPrevention rest
  | [] => []

/-- A 3 is put behind two zeros before a byte of at most 3, and at the end. The zeros of the
bytes in front are counted. -/
def emulationPrevention : ℕ → Bytes → Bytes
  | zeros, [] => if zeros = 2 then [3] else []
  | zeros, b :: rest =>
    if zeros = 2 ∧ b ≤ 3 then 3 :: b :: emulationPrevention (if b = 0 then 1 else 0) rest
    else b :: emulationPrevention (if b = 0 then zeros + 1 else 0) rest

theorem deemulationPrevention_three (rest : Bytes) :
    deemulationPrevention (0 :: 0 :: 3 :: rest) = 0 :: 0 :: deemulationPrevention rest := rfl

theorem deemulationPrevention_cons {a : UInt8} {rest : Bytes} (h : ∀ tail, a :: rest ≠ 0 :: 0 :: 3 :: tail) :
    deemulationPrevention (a :: rest) = a :: deemulationPrevention rest := by
  match rest with
  | [] => rfl
  | [_] => rfl
  | b :: c :: rest =>
    rw [deemulationPrevention, if_neg]
    rintro ⟨rfl, rfl, rfl⟩
    exact h rest rfl

theorem deemulationPrevention_zeros {zeros : ℕ} {b : UInt8} {rest : Bytes} (hz : zeros ≤ 2) (hb : b ≠ 0)
    (h3 : zeros = 2 → b ≠ 3) :
    deemulationPrevention (List.replicate zeros 0 ++ b :: rest) =
      List.replicate zeros 0 ++ b :: deemulationPrevention rest := by
  have h0 : deemulationPrevention (b :: rest) = b :: deemulationPrevention rest :=
    deemulationPrevention_cons fun tail h ↦ hb (List.cons.inj h).1
  have h1 : deemulationPrevention (0 :: b :: rest) = 0 :: b :: deemulationPrevention rest := by
    rw [deemulationPrevention_cons, h0]
    intro tail h
    exact hb (List.cons.inj (List.cons.inj h).2).1
  match zeros with
  | 0 => exact h0
  | 1 => exact h1
  | 2 =>
    refine (deemulationPrevention_cons ?_).trans (congrArg (List.cons 0) h1)
    intro tail h
    exact h3 rfl (List.cons.inj (List.cons.inj (List.cons.inj h).2).2).1

/-- The inserted bytes are taken out again, with up to two zeros in front. -/
theorem deemulationPrevention_inserted {zeros : ℕ} (hz : zeros ≤ 2) (data : Bytes) :
    deemulationPrevention (List.replicate zeros 0 ++ emulationPrevention zeros data) =
      List.replicate zeros 0 ++ data := by
  induction data generalizing zeros with
  | nil =>
    match zeros with
    | 0 => rfl
    | 1 => rfl
    | 2 => rfl
  | cons b data ih =>
    have hfirst : deemulationPrevention (b :: emulationPrevention (if b = 0 then 1 else 0) data) =
        b :: data := by
      by_cases hb : b = 0
      · rw [if_pos hb, hb]
        exact ih (show 1 ≤ 2 by omega)
      · rw [if_neg hb]
        refine (deemulationPrevention_zeros (show 0 ≤ 2 by omega) hb (by omega)).trans ?_
        exact congrArg (List.cons b) (ih (show 0 ≤ 2 by omega))
    rw [emulationPrevention]
    by_cases hins : zeros = 2 ∧ b ≤ 3
    · rw [if_pos hins, hins.1]
      refine (deemulationPrevention_three _).trans ?_
      rw [hfirst]
      rfl
    · rw [if_neg hins]
      by_cases hb : b = 0
      · have hlt : zeros + 1 ≤ 2 := by
          have hne : zeros ≠ 2 := fun h ↦ hins ⟨h, by rw [hb]; decide⟩
          omega
        have hcount (rest : Bytes) : List.replicate zeros 0 ++ 0 :: rest =
            List.replicate (zeros + 1) 0 ++ rest := by
          rw [List.replicate_succ', List.append_assoc]
          rfl
        rw [if_pos hb, hb, hcount, hcount]
        exact ih hlt
      · rw [if_neg hb, deemulationPrevention_zeros hz hb fun h2 h3 ↦ hins ⟨h2, UInt8.le_of_eq h3⟩]
        exact congrArg (List.replicate zeros 0 ++ b :: ·) (ih (show 0 ≤ 2 by omega))

/-- What is coded comes back: bytes through emulation prevention, numbers through their code
words, wherever these stand and whatever follows them. -/
theorem coded_inverted :
    (∀ s : Bytes, deemulationPrevention (emulationPrevention 0 s) = s) ∧
    (∀ v : ℕ, v < 2 ^ 31 - 1 → Reads readExpGolombUe (ueBits v) v) ∧
    ∀ z : ℤ, z.natAbs < 2 ^ 30 → Reads readExpGolombSe (seBits z) z := by
  refine ⟨fun s ↦ ?_, fun v hv ↦ ?_, fun z hz ↦ ?_⟩
  · exact deemulationPrevention_inserted (show 0 ≤ 2 by omega) s
  · exact reads_readExpGolombUe (by omega)
  · exact reads_readExpGolombSe (by omega) (by omega)

/-- Three zeros, the number 5 as 00110 and -2 as 00101. -/
theorem zeros_inverted : deemulationPrevention [0, 0, 3, 0] = [0, 0, 0] ∧
    Reads readExpGolombUe [false, false, true, true, false] 5 ∧
    Reads readExpGolombSe [false, false, true, false, true] (-2) := by
  have hbits : seBits (-2) = [false, false, true, false, true] := by decide
  refine ⟨coded_inverted.1 [0, 0, 0], coded_inverted.2.1 5 (by decide), ?_⟩
  rw [← hbits]
  exact coded_inverted.2.2 (-2) (by decide)

end MmsServer.Codec.EmulationPrevention
