import Mathlib.Algebra.Order.Ring.Nat
import Mathlib.Tactic.Common

namespace MmsServer.Lib.Pieces

variable {α : Type}

/-- What is left of a stream that was cut into pieces behind its first `n` letters,
in the same pieces and without the ones that are used up. -/
def skip : ℕ → List (List α) → List (List α)
  | _, [] => []
  | n, piece :: pieces =>
    if piece.length ≤ n then skip (n - piece.length) pieces else piece.drop n :: pieces

variable {n m : ℕ} {piece : List α} {pieces : List (List α)}

theorem skip_le (h : piece.length ≤ n) :
    skip n (piece :: pieces) = skip (n - piece.length) pieces := by
  rw [skip, if_pos h]

theorem skip_lt (h : n < piece.length) : skip n (piece :: pieces) = piece.drop n :: pieces := by
  rw [skip, if_neg (Nat.not_le.mpr h)]

theorem skip_drop (h : n ≤ piece.length) (m : ℕ) :
    skip (n + m) (piece :: pieces) = skip m (piece.drop n :: pieces) := by
  by_cases hm : piece.length ≤ n + m
  · rw [skip_le hm, skip_le (by rw [List.length_drop]; omega), List.length_drop]
    congr 1
    omega
  · rw [skip_lt (by omega), skip_lt (by rw [List.length_drop]; omega), List.drop_drop]

theorem skip_skip (n m : ℕ) (pieces : List (List α)) :
    skip m (skip n pieces) = skip (n + m) pieces := by
  induction pieces generalizing n with
  | nil => rfl
  | cons piece pieces ih =>
    by_cases h : piece.length ≤ n
    · rw [skip_le h, skip_le (by omega), ih]
      congr 1
      omega
    · rw [skip_lt (by omega), skip_drop (by omega)]

/-- Where a piece is cut does not count once it has been passed. -/
theorem skip_merge {a : List α} (h : a.length ≤ n) (b : List α) (pieces : List (List α)) :
    skip n ((a ++ b) :: pieces) = skip n (a :: b :: pieces) := by
  rw [skip_le h]
  by_cases hb : b.length ≤ n - a.length
  · rw [skip_le hb, skip_le (by rw [List.length_append]; omega), List.length_append]
    congr 1
    omega
  · rw [skip_lt (Nat.lt_of_not_le hb), skip_lt (by rw [List.length_append]; omega), List.drop_append,
      List.drop_eq_nil_of_le h, List.nil_append]

theorem skip_zero_ne (h : piece ≠ []) : skip 0 (piece :: pieces) = piece :: pieces := by
  rw [skip_lt (List.length_pos_iff.mpr h), List.drop_zero]

end MmsServer.Lib.Pieces
