import Mathlib.Data.List.Chain
import Mathlib.Tactic.Common

namespace MmsServer.Lib.CyclicCount

variable {m : ℕ}

/-- The numbers go up by one modulo `m`, and `next` is the one that would follow. -/
structure Counts (m : ℕ) (l : List ℕ) (next : ℕ) : Prop where
  chain : l.IsChain fun a b ↦ b % m = (a + 1) % m
  follows : ∀ a ∈ l.getLast?, next % m = (a + 1) % m

theorem Counts.nil (next : ℕ) : Counts m [] next := ⟨.nil, by simp⟩

theorem Counts.push {l : List ℕ} {next : ℕ} (h : Counts m l next) :
    Counts m (l ++ [next % m]) (next + 1) := by
  refine ⟨?_, ?_⟩
  · rw [List.isChain_append]
    refine ⟨h.chain, .singleton _, ?_⟩
    intro a ha b hb
    obtain rfl : next % m = b := by simpa using hb
    rw [Nat.mod_mod]
    exact h.follows a ha
  · intro a ha
    obtain rfl : next % m = a := by simpa using ha
    rw [Nat.mod_add_mod]

/-- Only the residue of the next number counts. -/
theorem Counts.congr {l : List ℕ} {next next' : ℕ} (h : Counts m l next)
    (hn : next' % m = next % m) : Counts m l next' :=
  ⟨h.chain, fun a ha ↦ hn.trans (h.follows a ha)⟩

end MmsServer.Lib.CyclicCount
