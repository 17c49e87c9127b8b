import Mathlib.Algebra.Order.Ring.Int
import Mathlib.Tactic.Common

namespace MmsServer.Base.KnownTime

/-- From here on a time in milliseconds is not believed. -/
def maxMs : ℤ := 0x20c49ba5e353f7

def clampMs (t : ℤ) : ℤ := if t < 0 ∨ maxMs ≤ t then 0 else t

theorem clampMs_bounds (t : ℤ) : 0 ≤ clampMs t ∧ clampMs t < maxMs := by
  unfold clampMs maxMs
  split
  · omega
  · omega

end MmsServer.Base.KnownTime
