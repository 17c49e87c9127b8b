import Mathlib.Tactic.Common
import Mathlib.Data.Nat.Basic

namespace MmsServer.Lib.NumberedLog

variable {α β : Type}

def entry (log : List α) (i : ℕ) : Option α := if i = 0 then none else log[i - 1]?

/-- Visit `steps` numbers from `i` on and take what is there, but no more than
`count` entries. -/
def collect (get : ℕ → Option α) : ℕ → ℕ → ℕ → List α × ℕ
  | 0, i, _ => ([], i)
  | _ + 1, i, 0 => ([], i)
  | steps + 1, i, count + 1 =>
    match get i with
    | some a => (a :: (collect get steps (i + 1) count).1, (collect get steps (i + 1) count).2)
    | none => collect get steps (i + 1) (count + 1)

/-- The same, but give up at the first number without an entry. -/
def collectUntilGap (get : ℕ → Option α) : ℕ → ℕ → ℕ → List α × ℕ
  | 0, i, _ => ([], i)
  | _ + 1, i, 0 => ([], i)
  | steps + 1, i, count + 1 =>
    match get i with
    | some a =>
      (a :: (collectUntilGap get steps (i + 1) count).1,
        (collectUntilGap get steps (i + 1) count).2)
    | none => ([], i)

theorem entry_append (log more : List α) {i : ℕ} (h : i ≤ log.length) :
    entry (log ++ more) i = entry log i := by
  unfold entry
  split
  · rfl
  · rw [List.getElem?_append_left (by omega)]

theorem entry_last (log : List α) (a : α) : entry (log ++ [a]) (log.length + 1) = some a := by
  simp [entry]

theorem entry_eq_some {log : List α} {i : ℕ} {a : α} (h : entry log i = some a) :
    0 < i ∧ log[i - 1]? = some a := by
  unfold entry at h
  split at h
  · cases h
  · exact ⟨by omega, h⟩

theorem collect_cursor (get : ℕ → Option α) (steps i count : ℕ) :
    i ≤ (collect get steps i count).2 ∧ (collect get steps i count).2 ≤ i + steps := by
  induction steps generalizing i count with
  | zero => exact ⟨le_rfl, le_rfl⟩
  | succ steps ih =>
    cases count with
    | zero => exact ⟨le_rfl, Nat.le_add_right i (steps + 1)⟩
    | succ count =>
      rw [collect]
      cases get i with
      | none =>
        have h := ih (i + 1) (count + 1)
        simp only
        omega
      | some a =>
        have h := ih (i + 1) count
        simp only
        omega

/-- What is collected from numbers that show their own entries is a part of the
log, in the order of the log. -/
theorem collect_sublist (get : ℕ → Option α) (log : List α) (steps i count : ℕ)
    (h : ∀ j, i ≤ j → j < i + steps → ∀ a, get j = some a → entry log j = some a) :
    List.Sublist (collect get steps i count).1
      ((log.take ((collect get steps i count).2 - 1)).drop (i - 1)) := by
  induction steps generalizing i count with
  | zero => exact List.nil_sublist _
  | succ steps ih =>
    cases count with
    | zero => exact List.nil_sublist _
    | succ count =>
      have hnext (j : ℕ) (hj : i + 1 ≤ j) (hj' : j < i + 1 + steps) := h j (by omega) (by omega)
      rw [collect]
      cases hi : get i with
      | none =>
        have hdrop : List.Sublist (List.drop (i + 1 - 1) (log.take ((collect get steps (i + 1) (count + 1)).2 - 1)))
            (List.drop (i - 1) (log.take ((collect get steps (i + 1) (count + 1)).2 - 1))) :=
          List.drop_sublist_drop_left _ (by omega)
        exact (ih (i + 1) (count + 1) hnext).trans hdrop
      | some a =>
        have hc := (collect_cursor get steps (i + 1) count).1
        obtain ⟨hpos, hlog⟩ := entry_eq_some (h i le_rfl (by omega) a hi)
        have htake : (log.take ((collect get steps (i + 1) count).2 - 1))[i - 1]? = some a := by
          rw [List.getElem?_take_of_lt (by omega), hlog]
        obtain ⟨hlt, ha⟩ := List.getElem?_eq_some_iff.mp htake
        have hrest := ih (i + 1) count hnext
        simp only
        rw [List.drop_eq_getElem_cons hlt, ha, show i - 1 + 1 = i + 1 - 1 by omega]
        exact hrest.cons_cons a

theorem collect_extends (get : ℕ → Option α) (log : List α) (steps i count : ℕ)
    (h : ∀ j, i ≤ j → j < i + steps → ∀ a, get j = some a → entry log j = some a) {got : List α}
    (hgot : got.Sublist (log.take (i - 1))) :
    (got ++ (collect get steps i count).1).Sublist (log.take ((collect get steps i count).2 - 1)) := by
  have hc := (collect_cursor get steps i count).1
  have happ := hgot.append (collect_sublist get log steps i count h)
  have htake : log.take (i - 1) = (log.take ((collect get steps i count).2 - 1)).take (i - 1) := by
    rw [List.take_take, Nat.min_eq_left (by omega)]
  rwa [htake, List.take_append_drop] at happ

theorem collect_ne_nil (get : ℕ → Option α) {steps i count j : ℕ} (hcount : 0 < count) (hi : i ≤ j)
    (hj : j < i + steps) (hget : (get j).isSome) : (collect get steps i count).1 ≠ [] := by
  induction steps generalizing i with
  | zero => omega
  | succ steps ih =>
    obtain ⟨count, rfl⟩ : ∃ k, count = k + 1 := ⟨count - 1, by omega⟩
    rw [collect]
    cases ha : get i with
    | some a => exact List.cons_ne_nil _ _
    | none =>
      have hne : i ≠ j := by
        rintro rfl
        rw [ha] at hget
        cases hget
      exact ih (by omega) (by omega)

theorem collect_zero (get : ℕ → Option α) (steps i : ℕ) : collect get steps i 0 = ([], i) := by
  cases steps <;> rfl

theorem collect_head (get : ℕ → Option α) {steps i count : ℕ} {a : α} (hcount : 0 < count)
    (hsteps : 0 < steps) (ha : get i = some a) : (collect get steps i count).1.head? = some a := by
  obtain ⟨count, rfl⟩ : ∃ k, count = k + 1 := ⟨count - 1, by omega⟩
  obtain ⟨steps, rfl⟩ : ∃ k, steps = k + 1 := ⟨steps - 1, by omega⟩
  rw [collect, ha]
  rfl

theorem collectUntilGap_ne_nil_iff (get : ℕ → Option α) {steps i count : ℕ} (hcount : 0 < count)
    (hsteps : 0 < steps) : (collectUntilGap get steps i count).1 ≠ [] ↔ (get i).isSome := by
  obtain ⟨count, rfl⟩ : ∃ k, count = k + 1 := ⟨count - 1, by omega⟩
  obtain ⟨steps, rfl⟩ : ∃ k, steps = k + 1 := ⟨steps - 1, by omega⟩
  rw [collectUntilGap]
  cases get i <;> simp

end MmsServer.Lib.NumberedLog
