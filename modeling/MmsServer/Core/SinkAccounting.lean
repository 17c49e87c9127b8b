import Mathlib.Data.Finset.Card
import Mathlib.Tactic.Ring
import MmsServer.Lib.GuardedRun

namespace MmsServer.Core.SinkAccounting

open Lib.GuardedRun

/-- Sinks and bridges are known by their pointers; `sinks_count_` is a `uint32_t`. -/
structure MediaSource where
  sinks : Finset ℕ := ∅
  sinksCount : BitVec 32 := 0
  bridges : List (String × ℕ) := []
  lastSinksOrBridgesLeaveTime : ℤ := -1

namespace MediaSource

def addMediaSink (s : MediaSource) (mediaSink : ℕ) : MediaSource :=
  { s with
    sinks := insert mediaSink s.sinks
    sinksCount := s.sinksCount + 1 }

def removeMediaSink (s : MediaSource) (mediaSink : Option ℕ) (now : ℤ) : MediaSource :=
  match mediaSink with
  | none => s
  | some sink =>
    if sink ∈ s.sinks then
      { s with
        sinks := s.sinks.erase sink
        sinksCount := s.sinksCount - 1
        lastSinksOrBridgesLeaveTime := now }
    else s

/-- Where the bridge is not there yet, its sink is added with it. -/
def getOrCreateBridge (s : MediaSource) (id : String) (bridge mediaSink : ℕ) : MediaSource :=
  if s.bridges.any fun b ↦ b.1 == id then s
  else
    let s := s.addMediaSink mediaSink
    { s with bridges := s.bridges ++ [(id, bridge)] }

/-- What is left once a bridge has been found; `sink` is what its `get_media_sink` answers. -/
def dropBridge (s : MediaSource) (found : String × ℕ) (sink : Option ℕ) (now : ℤ) : MediaSource :=
  { { s with bridges := s.bridges.erase found }.removeMediaSink sink now with
    lastSinksOrBridgesLeaveTime := now }

def removeBridge (s : MediaSource) (bridge : ℕ) (sink : Option ℕ) (now : ℤ) : MediaSource :=
  match s.bridges.find? fun b ↦ b.2 == bridge with
  | none => s
  | some found => s.dropBridge found sink now

def removeBridgeById (s : MediaSource) (id : String) (sink : Option ℕ) (now : ℤ) : MediaSource :=
  match s.bridges.find? fun b ↦ b.1 == id with
  | none => s
  | some found => s.dropBridge found sink now

def closeBody (s : MediaSource) : MediaSource := { s with sinks := ∅ }

def hasNoSinksForTime (s : MediaSource) (milliSecs : ℕ) (now : ℤ) : Bool :=
  if 0 < s.sinksCount.toNat ∨ 0 < s.bridges.length then false
  else if now - s.lastSinksOrBridgesLeaveTime < milliSecs then false
  else true

end MediaSource

inductive Op
  | addMediaSink (mediaSink : ℕ)
  | removeMediaSink (mediaSink : Option ℕ) (now : ℤ)
  | getOrCreateBridge (id : String) (bridge mediaSink : ℕ)
  | removeBridge (bridge : ℕ) (sink : Option ℕ) (now : ℤ)
  | removeBridgeById (id : String) (sink : Option ℕ) (now : ℤ)
  | closeBody

namespace MediaSource

def apply (s : MediaSource) : Op → MediaSource
  | .addMediaSink mediaSink => s.addMediaSink mediaSink
  | .removeMediaSink mediaSink now => s.removeMediaSink mediaSink now
  | .getOrCreateBridge id bridge mediaSink => s.getOrCreateBridge id bridge mediaSink
  | .removeBridge bridge sink now => s.removeBridge bridge sink now
  | .removeBridgeById id sink now => s.removeBridgeById id sink now
  | .closeBody => s.closeBody

/-- The counter is the number of sinks, so that an idle source is seen to be idle. -/
structure Accounted (s : MediaSource) : Prop where
  count_eq : s.sinksCount.toNat = s.sinks.card
  idle : s.sinks = ∅ → s.bridges = [] →
    ∀ milliSecs, ∃ t, ∀ now, t ≤ now → s.hasNoSinksForTime milliSecs now = true
  inUse : s.sinks ≠ ∅ ∨ s.bridges ≠ [] →
    ∀ milliSecs now, s.hasNoSinksForTime milliSecs now = false

def Removes (s : MediaSource) : Op → Prop
  | .removeMediaSink mediaSink _ => ∃ sink ∈ s.sinks, mediaSink = some sink
  | .removeBridge bridge sink _ =>
    (∃ id, (id, bridge) ∈ s.bridges) ∧ ∃ x ∈ s.sinks, sink = some x
  | .removeBridgeById id sink _ =>
    (∃ bridge, (id, bridge) ∈ s.bridges) ∧ ∃ x ∈ s.sinks, sink = some x
  | _ => False

/-- A sink is added once, and there are none left when the source closes. -/
def Guarded (s : MediaSource) : Op → Prop
  | .addMediaSink mediaSink => mediaSink ∉ s.sinks ∧ s.sinks.card + 1 < 2 ^ 32
  | .getOrCreateBridge id _ mediaSink =>
    (∀ b ∈ s.bridges, b.1 ≠ id) → mediaSink ∉ s.sinks ∧ s.sinks.card + 1 < 2 ^ 32
  | .closeBody => s.sinks = ∅
  | _ => True

def Exact (s : MediaSource) : Prop := s.sinksCount.toNat = s.sinks.card

theorem hasNoSinksForTime_iff {s : MediaSource} {milliSecs : ℕ} {now : ℤ} :
    s.hasNoSinksForTime milliSecs now = true ↔
      s.sinksCount.toNat = 0 ∧ s.bridges = [] ∧ milliSecs ≤ now - s.lastSinksOrBridgesLeaveTime := by
  unfold hasNoSinksForTime
  rw [← List.length_eq_zero_iff]
  split
  · rename_i h
    simp only [Bool.false_eq_true, false_iff]
    omega
  · split
    · simp only [Bool.false_eq_true, false_iff]
      omega
    · simp only [true_iff]
      omega

theorem accounted_iff {s : MediaSource} : s.Accounted ↔ s.Exact := by
  constructor
  · exact fun h ↦ h.count_eq
  · intro h
    refine ⟨h, ?_, ?_⟩
    · intro hsinks hbridges milliSecs
      refine ⟨s.lastSinksOrBridgesLeaveTime + milliSecs, ?_⟩
      intro now hnow
      refine hasNoSinksForTime_iff.mpr ⟨?_, hbridges, by omega⟩
      rw [h, hsinks]
      exact Finset.card_empty
    · intro huse milliSecs now
      rw [← Bool.not_eq_true, hasNoSinksForTime_iff]
      rintro ⟨hcount, hbridges, -⟩
      obtain hsinks | hne := huse
      · exact hsinks (Finset.card_eq_zero.mp (h ▸ hcount))
      · exact hne hbridges

section Step

variable {s : MediaSource}

theorem addMediaSink_exact (h : s.Exact) (mediaSink : ℕ) :
    (s.addMediaSink mediaSink).Exact ↔ mediaSink ∉ s.sinks ∧ s.sinks.card + 1 < 2 ^ 32 := by
  have hlt := s.sinksCount.isLt
  unfold Exact at h ⊢
  simp only [addMediaSink]
  rw [BitVec.toNat_add, show (1 : BitVec 32).toNat = 1 from rfl, h]
  by_cases hm : mediaSink ∈ s.sinks
  · rw [Finset.insert_eq_of_mem hm]
    refine iff_of_false ?_ fun hc ↦ hc.1 hm
    omega
  · rw [Finset.card_insert_of_notMem hm]
    have hwrap : (s.sinks.card + 1) % 2 ^ 32 = s.sinks.card + 1 ↔ s.sinks.card + 1 < 2 ^ 32 := by
      omega
    exact hwrap.trans ⟨fun hc ↦ ⟨hm, hc⟩, And.right⟩

theorem removeMediaSink_exact (h : s.Exact) (mediaSink : Option ℕ) (now : ℤ) :
    (s.removeMediaSink mediaSink now).Exact := by
  cases mediaSink with
  | none => exact h
  | some sink =>
    simp only [removeMediaSink]
    split
    · rename_i hm
      have hpos := Finset.card_pos.mpr ⟨sink, hm⟩
      have hlt := s.sinksCount.isLt
      unfold Exact at h ⊢
      rw [Finset.card_erase_of_mem hm, BitVec.toNat_sub, show (1 : BitVec 32).toNat = 1 from rfl, h]
      omega
    · exact h

theorem dropBridge_exact (h : s.Exact) (found : String × ℕ) (sink : Option ℕ) (now : ℤ) :
    (s.dropBridge found sink now).Exact :=
  removeMediaSink_exact (s := { s with bridges := s.bridges.erase found }) h sink now

theorem getOrCreateBridge_exact (h : s.Exact) (id : String) (bridge mediaSink : ℕ) :
    (s.getOrCreateBridge id bridge mediaSink).Exact ↔
      ((∀ b ∈ s.bridges, b.1 ≠ id) → mediaSink ∉ s.sinks ∧ s.sinks.card + 1 < 2 ^ 32) := by
  rw [getOrCreateBridge]
  split
  · rename_i hany
    refine iff_of_true h ?_
    intro hnone
    obtain ⟨b, hb, hid⟩ := List.any_eq_true.mp hany
    exact absurd (beq_iff_eq.mp hid) (hnone b hb)
  · rename_i hany
    have hnone : ∀ b ∈ s.bridges, b.1 ≠ id := by
      intro b hb hid
      exact hany (List.any_eq_true.mpr ⟨b, hb, beq_iff_eq.mpr hid⟩)
    have hadd := addMediaSink_exact h mediaSink
    exact hadd.trans ⟨fun hc _ ↦ hc, fun hc ↦ hc hnone⟩

theorem closeBody_exact (h : s.Exact) : s.closeBody.Exact ↔ s.sinks = ∅ := by
  unfold Exact at h ⊢
  simp only [closeBody]
  rw [h, Finset.card_empty, Finset.card_eq_zero]

theorem apply_exact (s : MediaSource) (op : Op) (h : s.Exact) : (s.apply op).Exact ↔ s.Guarded op := by
  cases op with
  | addMediaSink mediaSink => exact addMediaSink_exact h mediaSink
  | removeMediaSink mediaSink now =>
    exact iff_of_true (removeMediaSink_exact h mediaSink now) trivial
  | getOrCreateBridge id bridge mediaSink => exact getOrCreateBridge_exact h id bridge mediaSink
  | removeBridge bridge sink now =>
    refine iff_of_true ?_ trivial
    simp only [apply, removeBridge]
    split
    · exact h
    · exact dropBridge_exact h _ sink now
  | removeBridgeById id sink now =>
    refine iff_of_true ?_ trivial
    simp only [apply, removeBridgeById]
    split
    · exact h
    · exact dropBridge_exact h _ sink now
  | closeBody => exact closeBody_exact h

theorem removes_mem {op : Op} (h : s.Removes op) : s.sinks.Nonempty := by
  cases op with
  | addMediaSink mediaSink => cases h
  | removeMediaSink mediaSink now =>
    obtain ⟨sink, hm, -⟩ := h
    exact ⟨sink, hm⟩
  | getOrCreateBridge id bridge mediaSink => cases h
  | removeBridge bridge sink now =>
    obtain ⟨-, x, hm, -⟩ := h
    exact ⟨x, hm⟩
  | removeBridgeById id sink now =>
    obtain ⟨-, x, hm, -⟩ := h
    exact ⟨x, hm⟩
  | closeBody => cases h

end Step

/-- Nothing is counted down from zero. -/
def NeverBelowZero (s : MediaSource) (ops : List Op) : Prop :=
  Along apply (fun s op ↦ s.Removes op → 0 < s.sinksCount.toNat) s ops

end MediaSource

open MediaSource

/-- The sinks are accounted for in every state of a run just when no step adds a
sink that is there and the source closes without sinks. -/
theorem run_accounted_iff (ops : List Op) :
    (Throughout apply Accounted {} ops ∧ NeverBelowZero {} ops) ↔ Along apply Guarded {} ops := by
  have hexact : Throughout apply Accounted {} ops ↔ Throughout apply Exact {} ops := by
    rw [show Accounted = Exact from funext fun s ↦ propext accounted_iff]
  have h0 : Exact {} := rfl
  rw [hexact, throughout_iff apply_exact h0]
  constructor
  · exact And.left
  · intro h
    refine ⟨h, Throughout.along ?_ ((throughout_iff apply_exact h0 ops).mpr h)⟩
    intro s op hs hrem
    rw [hs]
    exact Finset.card_pos.mpr (removes_mem hrem)

/-- A sink that is added twice and removed keeps the source in use for ever. -/
theorem addTwice_not_accounted :
    ¬ (Throughout apply Accounted {} [.addMediaSink 7, .addMediaSink 7, .removeMediaSink (some 7) 0] ∧
      NeverBelowZero {} [.addMediaSink 7, .addMediaSink 7, .removeMediaSink (some 7) 0]) := by
  rintro ⟨h, -⟩
  have hcount := h.2.2.start.count_eq
  revert hcount
  decide

end MmsServer.Core.SinkAccounting
