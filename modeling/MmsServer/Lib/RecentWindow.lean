import Mathlib.Data.List.DropRight
import Mathlib.Tactic.Common

namespace MmsServer.Lib.RecentWindow

variable {α : Type}

def pushBounded (capacity : ℕ) (queue : List α) (a : α) : List α :=
  (if capacity ≤ queue.length then queue.tail else queue) ++ [a]

theorem rtake_length (log : List α) (n : ℕ) : (log.rtake n).length = min n log.length := by
  rw [List.rtake, List.length_drop]
  omega

theorem rtake_rtake (log : List α) {m n : ℕ} (h : m ≤ n) : (log.rtake n).rtake m = log.rtake m := by
  simp only [List.rtake, List.length_drop, List.drop_drop]
  congr 1
  omega

/-- A bounded queue holds the end of everything that was appended to it. -/
theorem pushBounded_rtake (log : List α) (a : α) {capacity : ℕ} (h : 0 < capacity) :
    pushBounded capacity (log.rtake capacity) a = (log ++ [a]).rtake capacity := by
  obtain ⟨n, rfl⟩ : ∃ n, capacity = n + 1 := ⟨capacity - 1, by omega⟩
  rw [List.rtake_concat_succ, pushBounded, rtake_length]
  congr 1
  split
  · rw [List.rtake, List.rtake, List.tail_drop]
    congr 1
    omega
  · rw [List.rtake, List.rtake]
    congr 1
    omega

/-- What is among the last `m` stays among the last `n` while no more than the
difference is appended. -/
theorem mem_rtake_append {log more : List α} {a : α} {m n : ℕ} (h : a ∈ log.rtake m)
    (hn : m + more.length ≤ n) : a ∈ (log ++ more).rtake n := by
  rw [List.rtake] at h
  rw [List.rtake, List.length_append, List.drop_append]
  apply List.mem_append_left
  have hle : log.length + more.length - n ≤ log.length - m := by omega
  exact (List.drop_sublist_drop_left log hle).subset h

theorem rtake_getElem? (log : List α) (n i : ℕ) :
    (log.rtake n)[i]? = log[log.length - n + i]? := by
  rw [List.rtake, List.getElem?_drop]

end MmsServer.Lib.RecentWindow
