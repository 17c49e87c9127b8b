import Mathlib.Tactic.Common

namespace MmsServer.Lib.WeakSlot

variable {α : Type}

/-- The owner that a weak reference leads to, unless it is gone. -/
def lock (alive : α → Bool) (slot : Option α) : Option α := slot.filter alive

/-- Put `new` in place of an owner that is gone or is `new` itself. -/
def exchange [DecidableEq α] (alive : α → Bool) (slot new : Option α) : Bool × Option α :=
  if lock alive slot ≠ none ∧ lock alive slot ≠ new then (false, slot) else (true, new)

theorem lock_eq_some {alive : α → Bool} {slot : Option α} {a : α} :
    lock alive slot = some a ↔ slot = some a ∧ alive a = true := by
  unfold lock
  exact Option.filter_eq_some_iff

theorem lock_live {alive : α → Bool} {a : α} (ha : alive a = true) : lock alive (some a) = some a :=
  lock_eq_some.mpr ⟨rfl, ha⟩

theorem lock_gone {alive : α → Bool} {a : α} (ha : alive a = false) :
    lock alive (some a) = none := by
  simp [lock, ha]

variable [DecidableEq α]

theorem exchange_ok {alive : α → Bool} {slot new : Option α}
    (h : lock alive slot = none ∨ lock alive slot = new) :
    exchange alive slot new = (true, new) := by
  unfold exchange
  rw [if_neg]
  rintro ⟨hn, hnew⟩
  exact h.elim hn hnew

theorem exchange_refused {alive : α → Bool} {a : α} {new : Option α} (ha : alive a = true)
    (hne : some a ≠ new) :
    exchange alive (some a) new = (false, some a) := by
  unfold exchange
  rw [lock_live ha, if_pos ⟨Option.some_ne_none a, hne⟩]

theorem exchange_cases (alive : α → Bool) (slot new : Option α) :
    (exchange alive slot new).2 = slot ∨ (exchange alive slot new).2 = new := by
  unfold exchange
  split
  · exact Or.inl rfl
  · exact Or.inr rfl

theorem exchange_keeps {alive : α → Bool} {a : α} (new : Option α) (ha : alive a = true) :
    (exchange alive (some a) new).2 = some a := by
  by_cases h : some a = new
  · rw [exchange_ok (Or.inr ((lock_live ha).trans h))]
    exact h.symm
  · rw [exchange_refused ha h]

end MmsServer.Lib.WeakSlot
