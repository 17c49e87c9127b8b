import MmsServer.Base.SequenceBuf
import MmsServer.Lib.Checked

namespace MmsServer.Base.SequenceDump

open Function Lib.Checked

variable {α : Type}

structure SequencePktBuf (α : Type) where
  maxSize : BitVec 64
  pktBuf : ℕ → BitVec 64 × Option α := fun _ ↦ (0, none)
  indexes : BitVec 64 := 0

namespace SequencePktBuf

def slotOf (maxSize index : BitVec 64) : ℕ := (index % maxSize).toNat

def addPkt (b : SequencePktBuf α) (pkt : α) : SequencePktBuf α :=
  { b with
    pktBuf := update b.pktBuf (slotOf b.maxSize (b.indexes + 1)) (b.indexes + 1, some pkt)
    indexes := b.indexes + 1 }

def getPkt (b : SequencePktBuf α) (index : BitVec 64) : Option α :=
  (b.pktBuf (slotOf b.maxSize index)).2

def clearLoop (maxSize : BitVec 64) :
    ℕ → BitVec 64 → (ℕ → BitVec 64 × Option α) → Option (ℕ → BitVec 64 × Option α)
  | 0, _, _ => none
  | rounds + 1, current, slots =>
    if (slots (slotOf maxSize current)).2.isSome then
      clearLoop maxSize rounds (current - 1)
        (update slots (slotOf maxSize current) ((slots (slotOf maxSize current)).1, none))
    else some slots

def clear (rounds : ℕ) (b : SequencePktBuf α) : Option (SequencePktBuf α) :=
  (clearLoop b.maxSize rounds b.indexes b.pktBuf).map fun slots ↦ { b with pktBuf := slots }

def toInt (idx : BitVec 64) : BitVec 32 := idx.setWidth 32

/-- A negative `int` is a large position. -/
def slotAt (b : SequencePktBuf α) (idx : BitVec 32) : Outcome (Option α) :=
  if (idx.signExtend 64).toNat < b.maxSize.toNat then
    return (b.pktBuf (idx.signExtend 64).toNat).2
  else .fault .overread

def dumpLoop (b : SequencePktBuf α) (startIdx : BitVec 32) :
    ℕ → BitVec 64 → BitVec 32 → Option (Outcome (List α))
  | 0, _, _ => none
  | rounds + 1, bufIndex, currIdx =>
    match b.slotAt currIdx with
    | .ok (some pkt) =>
      if bufIndex - 1 = 0 then some (return [pkt])
      else if toInt ((bufIndex - 1) % b.maxSize) = startIdx then some (return [pkt])
      else (dumpLoop b startIdx rounds (bufIndex - 1) (toInt ((bufIndex - 1) % b.maxSize))).map
        fun rest ↦ do return pkt :: (← rest)
    | .ok none => some (return [])
    | .err code => some (.err code)
    | .fault f => some (.fault f)

def dumpPkts (rounds : ℕ) (b : SequencePktBuf α) : Option (Outcome (List α)) :=
  b.dumpLoop (toInt (b.indexes % b.maxSize)) rounds b.indexes (toInt (b.indexes % b.maxSize))

end SequencePktBuf

open SequencePktBuf

inductive Call (α : Type)
  | addPkt (pkt : α)
  | clear

def step (rounds : ℕ) (b : SequencePktBuf α) : Call α → Option (SequencePktBuf α)
  | .addPkt pkt => some (b.addPkt pkt)
  | .clear => b.clear rounds

def run (rounds : ℕ) (b : SequencePktBuf α) : List (Call α) → Option (SequencePktBuf α)
  | [] => some b
  | call :: calls => do
    let b ← step rounds b call
    run rounds b calls

def since : List α → List (Call α) → List α
  | pkts, [] => pkts
  | pkts, .addPkt pkt :: calls => since (pkt :: pkts) calls
  | _, .clear :: calls => since [] calls

def added : List (Call α) → ℕ
  | [] => 0
  | .addPkt _ :: calls => added calls + 1
  | .clear :: calls => added calls

/-- The slots from the newest one back hold `pkts`, and then nothing. -/
def Holds (b : SequencePktBuf α) (pkts : List α) : Prop :=
  ∀ j < b.maxSize.toNat, b.getPkt (b.indexes - BitVec.ofNat 64 j) = pkts[j]?

section Slots

variable {maxSize x : BitVec 64} {j j' : ℕ}

theorem slotOf_eq (maxSize x : BitVec 64) : slotOf maxSize x = x.toNat % maxSize.toNat :=
  BitVec.toNat_umod

theorem slotOf_sub (hdvd : maxSize.toNat ∣ 2 ^ 64) (hj : j ≤ maxSize.toNat) :
    slotOf maxSize (x - BitVec.ofNat 64 j) = (x.toNat + (2 ^ 64 - j)) % maxSize.toNat := by
  have hlt := maxSize.isLt
  rw [slotOf_eq, BitVec.toNat_sub, BitVec.toNat_ofNat, Nat.mod_eq_of_lt (show j < 2 ^ 64 by omega),
    Nat.mod_mod_of_dvd _ hdvd, Nat.add_comm]

theorem slotOf_ne (hdvd : maxSize.toNat ∣ 2 ^ 64) (hlt : j < j') (hj : j' < j + maxSize.toNat)
    (hle : j' ≤ maxSize.toNat) :
    slotOf maxSize (x - BitVec.ofNat 64 j) ≠ slotOf maxSize (x - BitVec.ofNat 64 j') := by
  have h64 := maxSize.isLt
  rw [slotOf_sub hdvd (by omega), slotOf_sub hdvd hle]
  exact (SequenceBuf.mod_ne_of_lt (by omega) (by omega)).symm

theorem slotOf_around (hdvd : maxSize.toNat ∣ 2 ^ 64) :
    slotOf maxSize (x - BitVec.ofNat 64 maxSize.toNat) = slotOf maxSize x := by
  have h64 := maxSize.isLt
  have hrest : maxSize.toNat ∣ 2 ^ 64 - maxSize.toNat := Nat.dvd_sub hdvd (Nat.dvd_refl _)
  rw [slotOf_sub hdvd (Nat.le_refl _), slotOf_eq, Nat.add_mod, Nat.mod_eq_zero_of_dvd hrest,
    Nat.add_zero, Nat.mod_mod]

/-- Going back from a number each slot is met. -/
theorem exists_slotOf (hdvd : maxSize.toNat ∣ 2 ^ 64) (x : BitVec 64) {i : ℕ}
    (hi : i < maxSize.toNat) :
    ∃ j < maxSize.toNat, slotOf maxSize (x - BitVec.ofNat 64 j) = i := by
  have h64 := maxSize.isLt
  have hdiv := Nat.div_add_mod x.toNat maxSize.toNat
  have hmod := Nat.mod_lt x.toNat (show 0 < maxSize.toNat by omega)
  have hmul {n : ℕ} (h : n % maxSize.toNat = 0) : (n + i) % maxSize.toNat = i := by
    rw [Nat.add_mod, h, Nat.zero_add, Nat.mod_mod, Nat.mod_eq_of_lt hi]
  have hdvd' : maxSize.toNat ∣ maxSize.toNat * (x.toNat / maxSize.toNat) + 2 ^ 64 :=
    Nat.dvd_add (Nat.dvd_mul_right _ _) hdvd
  by_cases hle : i ≤ x.toNat % maxSize.toNat
  · refine ⟨x.toNat % maxSize.toNat - i, by omega, ?_⟩
    have hsum : x.toNat + (2 ^ 64 - (x.toNat % maxSize.toNat - i)) =
        maxSize.toNat * (x.toNat / maxSize.toNat) + 2 ^ 64 + i := by omega
    rw [slotOf_sub hdvd (by omega), hsum]
    exact hmul (Nat.mod_eq_zero_of_dvd hdvd')
  · refine ⟨x.toNat % maxSize.toNat + maxSize.toNat - i, by omega, ?_⟩
    have hsum : x.toNat + (2 ^ 64 - (x.toNat % maxSize.toNat + maxSize.toNat - i)) =
        maxSize.toNat * (x.toNat / maxSize.toNat) + 2 ^ 64 - maxSize.toNat + i := by omega
    rw [slotOf_sub hdvd (by omega), hsum]
    exact hmul (Nat.mod_eq_zero_of_dvd (Nat.dvd_sub hdvd' (Nat.dvd_refl _)))

theorem sub_ofNat_zero (x : BitVec 64) : x - BitVec.ofNat 64 0 = x := BitVec.sub_zero x

theorem add_sub_ofNat_succ (x : BitVec 64) (j : ℕ) :
    x + 1 - BitVec.ofNat 64 (j + 1) = x - BitVec.ofNat 64 j := by
  bv_omega

theorem sub_ofNat_sub_one (x : BitVec 64) (j : ℕ) :
    x - BitVec.ofNat 64 j - 1 = x - BitVec.ofNat 64 (j + 1) := by
  bv_omega

theorem slotOf_lt (h : 0 < maxSize.toNat) (x : BitVec 64) : slotOf maxSize x < maxSize.toNat := by
  rw [slotOf_eq]
  exact Nat.mod_lt _ h

end Slots

section Calls

variable {b : SequencePktBuf α} {pkts : List α}

theorem holds_new (maxSize : BitVec 64) : Holds (⟨maxSize, fun _ ↦ (0, none), 0⟩ : SequencePktBuf α) [] :=
  fun _ _ ↦ rfl

theorem holds_addPkt (hdvd : b.maxSize.toNat ∣ 2 ^ 64) (h : Holds b pkts) (pkt : α) :
    Holds (b.addPkt pkt) (pkt :: pkts) := by
  intro j hj
  change j < b.maxSize.toNat at hj
  change (update b.pktBuf (slotOf b.maxSize (b.indexes + 1)) (b.indexes + 1, some pkt)
    (slotOf b.maxSize (b.indexes + 1 - BitVec.ofNat 64 j))).2 = (pkt :: pkts)[j]?
  cases j with
  | zero =>
    rw [BitVec.ofNat_eq_ofNat, BitVec.sub_zero, update_self]
    rfl
  | succ j =>
    have hne := slotOf_ne hdvd (x := b.indexes + 1) (Nat.succ_pos j) (by omega) hj.le
    rw [sub_ofNat_zero] at hne
    rw [update_of_ne hne.symm, add_sub_ofNat_succ, List.getElem?_cons_succ]
    exact h j (by omega)

theorem clearLoop_stop {maxSize current : BitVec 64} {slots : ℕ → BitVec 64 × Option α} {rounds : ℕ}
    (hrounds : 0 < rounds) (hnone : (slots (slotOf maxSize current)).2 = none) :
    clearLoop maxSize rounds current slots = some slots := by
  obtain ⟨more, rfl⟩ := Nat.exists_eq_add_one.mpr hrounds
  rw [clearLoop, if_neg (by rw [hnone]; exact Bool.false_ne_true)]

/-- The loop goes on with the `j`th newest slot. The newer ones are empty, the others as
they were. -/
theorem clearLoop_eq (hpos : 0 < b.maxSize.toNat) (hdvd : b.maxSize.toNat ∣ 2 ^ 64) {n j : ℕ}
    (hn : j + n = b.maxSize.toNat) {slots : ℕ → BitVec 64 × Option α}
    (hslots : ∀ i < b.maxSize.toNat, (slots (slotOf b.maxSize (b.indexes - BitVec.ofNat 64 i))).2 =
      if i < j then none else pkts[i]?) :
    ∃ slots', (∀ rounds > n, clearLoop b.maxSize rounds (b.indexes - BitVec.ofNat 64 j) slots =
      some slots') ∧ ∀ i < b.maxSize.toNat, (slots' i).2 = none := by
  induction n generalizing j slots with
  | zero =>
    have hempty : ∀ i < b.maxSize.toNat, (slots i).2 = none := by
      intro i hi
      obtain ⟨k, hk, rfl⟩ := exists_slotOf hdvd b.indexes hi
      rw [hslots k hk, if_pos (by omega)]
    exact ⟨slots, fun rounds hrounds ↦ clearLoop_stop hrounds (hempty _ (slotOf_lt hpos _)), hempty⟩
  | succ n ih =>
    have hslot := hslots j (by omega)
    rw [if_neg (Nat.lt_irrefl j)] at hslot
    cases hpkt : pkts[j]? with
    | none =>
      refine ⟨slots, fun rounds hrounds ↦ clearLoop_stop (by omega) (hslot.trans hpkt), ?_⟩
      intro i hi
      obtain ⟨k, hk, rfl⟩ := exists_slotOf hdvd b.indexes hi
      rw [hslots k hk]
      split
      · rfl
      · rw [List.getElem?_eq_none_iff] at hpkt ⊢
        omega
    | some pkt =>
      obtain ⟨slots', hloop, hempty⟩ := @ih (j + 1) (by omega)
        (update slots (slotOf b.maxSize (b.indexes - BitVec.ofNat 64 j))
          ((slots (slotOf b.maxSize (b.indexes - BitVec.ofNat 64 j))).1, none)) (by
        intro i hi
        rcases Nat.lt_trichotomy i j with hlt | rfl | hlt
        · have hne := slotOf_ne hdvd (x := b.indexes) hlt (by omega) (by omega)
          rw [update_of_ne hne, hslots i hi, if_pos hlt, if_pos (by omega)]
        · rw [update_self, if_pos (by omega)]
        · have hne := slotOf_ne hdvd (x := b.indexes) hlt (by omega) hi.le
          rw [update_of_ne hne.symm, hslots i hi, if_neg (by omega), if_neg (by omega)])
      refine ⟨slots', fun rounds hrounds ↦ ?_, hempty⟩
      obtain ⟨more, rfl⟩ := Nat.exists_eq_add_one.mpr (show 0 < rounds by omega)
      have hsome : (slots (slotOf b.maxSize (b.indexes - BitVec.ofNat 64 j))).2.isSome = true := by
        rw [hslot, hpkt]
        rfl
      rw [clearLoop, if_pos hsome, sub_ofNat_sub_one]
      exact hloop more (by omega)

/-- Clearing ends and leaves nothing. -/
theorem clear_eq (hpos : 0 < b.maxSize.toNat) (hdvd : b.maxSize.toNat ∣ 2 ^ 64) (h : Holds b pkts) :
    ∃ slots, (∀ rounds > b.maxSize.toNat, b.clear rounds = some { b with pktBuf := slots }) ∧
      ∀ i < b.maxSize.toNat, (slots i).2 = none := by
  obtain ⟨slots, hloop, hempty⟩ := @clearLoop_eq _ b pkts hpos hdvd _ 0 (Nat.zero_add _) b.pktBuf
    fun i hi ↦ by
      rw [if_neg (Nat.not_lt_zero i)]
      exact h i hi
  rw [sub_ofNat_zero] at hloop
  exact ⟨slots, fun rounds hrounds ↦ by rw [clear, hloop rounds hrounds]; rfl, hempty⟩

theorem run_eq (hpos : 0 < b.maxSize.toNat) (hdvd : b.maxSize.toNat ∣ 2 ^ 64) (h : Holds b pkts)
    (calls : List (Call α)) : ∃ b', (∀ rounds > b.maxSize.toNat, run rounds b calls = some b') ∧
      b'.maxSize = b.maxSize ∧ b'.indexes = b.indexes + BitVec.ofNat 64 (added calls) ∧
      Holds b' (since pkts calls) := by
  induction calls generalizing b pkts with
  | nil => exact ⟨b, fun _ _ ↦ rfl, rfl, (BitVec.add_zero b.indexes).symm, h⟩
  | cons call calls ih =>
    cases call with
    | addPkt pkt =>
      obtain ⟨b', hrun, hsize, hindex, hholds⟩ := @ih (b.addPkt pkt) _ hpos hdvd (holds_addPkt hdvd h pkt)
      refine ⟨b', hrun, hsize, hindex.trans ?_, hholds⟩
      change b.indexes + 1 + BitVec.ofNat 64 (added calls) = b.indexes + BitVec.ofNat 64 (added calls + 1)
      bv_omega
    | clear =>
      obtain ⟨slots, hclear, hempty⟩ := clear_eq hpos hdvd h
      have hnil : Holds { b with pktBuf := slots } [] := fun j hj ↦ hempty _ (slotOf_lt hpos _)
      obtain ⟨b', hrun, hsize, hindex, hholds⟩ := @ih { b with pktBuf := slots } [] hpos hdvd hnil
      refine ⟨b', fun rounds hrounds ↦ ?_, hsize, hindex, hholds⟩
      rw [run, step, hclear rounds hrounds]
      exact hrun rounds hrounds

end Calls

section Dump

variable {b : SequencePktBuf α} {pkts : List α} {x y : BitVec 64}

/-- On the way back from `x` over `count` packets no number is 0, and the slots have the
same numbers as an `int`. -/
structure Walkable (maxSize x : BitVec 64) (count : ℕ) : Prop where
  nonzero : ∀ j, 0 < j → j < maxSize.toNat → j < count → x - BitVec.ofNat 64 j ≠ 0
  inInt : ∀ j ≤ count, j < maxSize.toNat → slotOf maxSize (x - BitVec.ofNat 64 j) < 2 ^ 31

theorem slotAt_eq (hpos : 0 < b.maxSize.toNat) (h : slotOf b.maxSize x < 2 ^ 31) :
    b.slotAt (toInt (x % b.maxSize)) = .ok (b.getPkt x) := by
  have hnat : (toInt (x % b.maxSize)).toNat = slotOf b.maxSize x := by
    rw [toInt, BitVec.toNat_setWidth]
    exact Nat.mod_eq_of_lt (h.trans (by decide))
  have hmsb : (toInt (x % b.maxSize)).msb = false := by
    rw [BitVec.msb_eq_decide, hnat]
    exact decide_eq_false (by omega)
  have hidx : ((toInt (x % b.maxSize)).signExtend 64).toNat = slotOf b.maxSize x := by
    rw [BitVec.toNat_signExtend, hmsb, BitVec.toNat_setWidth, hnat, if_neg Bool.false_ne_true]
    omega
  rw [slotAt, hidx, if_pos (slotOf_lt hpos x)]
  rfl

theorem slotOf_inj (hx : slotOf b.maxSize x < 2 ^ 31) (hy : slotOf b.maxSize y < 2 ^ 31)
    (h : toInt (x % b.maxSize) = toInt (y % b.maxSize)) : slotOf b.maxSize x = slotOf b.maxSize y := by
  have hnat := congrArg BitVec.toNat h
  rw [toInt, toInt, BitVec.toNat_setWidth, BitVec.toNat_setWidth] at hnat
  rw [slotOf] at hx hy
  rw [slotOf, slotOf]
  omega

/-- The loop goes on with the `j`th newest packet. -/
theorem dumpLoop_eq (hdvd : b.maxSize.toNat ∣ 2 ^ 64) (h : Holds b pkts)
    (hwalk : Walkable b.maxSize b.indexes pkts.length) {rounds j : ℕ} (hlt : j < b.maxSize.toNat)
    (hj : j ≤ pkts.length) (hrounds : b.maxSize.toNat ≤ j + rounds) :
    b.dumpLoop (toInt (b.indexes % b.maxSize)) rounds (b.indexes - BitVec.ofNat 64 j)
      (toInt ((b.indexes - BitVec.ofNat 64 j) % b.maxSize)) =
      some (.ok ((pkts.take b.maxSize.toNat).drop j)) := by
  induction rounds generalizing j with
  | zero => omega
  | succ rounds ih =>
    have hslot : b.slotAt (toInt ((b.indexes - BitVec.ofNat 64 j) % b.maxSize)) = .ok pkts[j]? := by
      rw [slotAt_eq (by omega) (hwalk.inInt j hj hlt), h j hlt]
    rw [dumpLoop, hslot]
    cases hpkt : pkts[j]? with
    | none =>
      rw [List.getElem?_eq_none_iff] at hpkt
      rw [List.drop_eq_nil_of_le (by rw [List.length_take]; omega)]
      rfl
    | some pkt =>
      obtain ⟨hlen, rfl⟩ := List.getElem?_eq_some_iff.mp hpkt
      have hdrop : (pkts.take b.maxSize.toNat).drop j =
          pkts[j] :: (pkts.take b.maxSize.toNat).drop (j + 1) := by
        rw [List.drop_eq_getElem_cons (by rw [List.length_take]; omega), List.getElem_take]
      have hlast (hle : min b.maxSize.toNat pkts.length ≤ j + 1) :
          (pkts.take b.maxSize.toNat).drop (j + 1) = [] :=
        List.drop_eq_nil_of_le (by rwa [List.length_take])
      dsimp only
      rw [sub_ofNat_sub_one, hdrop]
      split
      · next hzero =>
        rw [hlast (by_contra fun hmore ↦
          hwalk.nonzero (j + 1) (Nat.succ_pos j) (by omega) (by omega) hzero)]
        rfl
      · split
        · next hstart =>
          rw [hlast (by_contra fun hmore ↦ ?_)]
          · rfl
          · have hne := slotOf_ne hdvd (x := b.indexes) (Nat.succ_pos j) (by omega) (by omega)
            have hfirst := hwalk.inInt 0 (Nat.zero_le _) (by omega)
            rw [sub_ofNat_zero] at hne hfirst
            exact hne.symm (slotOf_inj (hwalk.inInt (j + 1) (by omega) (by omega)) hfirst hstart)
        · next hstart =>
          have hsucc : j + 1 < b.maxSize.toNat := by
            refine Nat.lt_of_le_of_ne hlt fun heq ↦ hstart (congrArg toInt (BitVec.eq_of_toNat_eq ?_))
            have haround := slotOf_around hdvd (x := b.indexes)
            rwa [← heq] at haround
          rw [ih hsucc hlen (by omega)]
          rfl

theorem dumpPkts_eq (hpos : 0 < b.maxSize.toNat) (hdvd : b.maxSize.toNat ∣ 2 ^ 64) (h : Holds b pkts)
    (hwalk : Walkable b.maxSize b.indexes pkts.length) {rounds : ℕ} (hrounds : b.maxSize.toNat < rounds) :
    b.dumpPkts rounds = some (.ok (pkts.take b.maxSize.toNat)) := by
  have hloop := @dumpLoop_eq _ b pkts hdvd h hwalk rounds 0 hpos (Nat.zero_le _) (by omega)
  rwa [sub_ofNat_zero, List.drop_zero] at hloop

/-- The loop ends with number 1 at the latest. -/
theorem length_dumpLoop {startIdx currIdx : BitVec 32} {bufIndex : BitVec 64} {rounds : ℕ} {v : List α}
    (h : b.dumpLoop startIdx rounds bufIndex currIdx = some (.ok v)) (hne : bufIndex ≠ 0) :
    v.length ≤ bufIndex.toNat := by
  have hpos : 0 < bufIndex.toNat := Nat.pos_of_ne_zero fun hzero ↦ hne (BitVec.eq_of_toNat_eq hzero)
  induction rounds generalizing bufIndex currIdx v with
  | zero => cases h
  | succ rounds ih =>
    rw [dumpLoop] at h
    split at h
    · next pkt _ =>
      split at h
      · cases h
        exact hpos
      · next hmore =>
        split at h
        · cases h
          exact hpos
        · obtain ⟨o, hrest, ho⟩ := Option.map_eq_some_iff.mp h
          obtain ⟨rest, rfl, hv⟩ := Outcome.bind_eq_ok.mp ho
          cases hv
          have hnat : (bufIndex - 1).toNat = bufIndex.toNat - 1 := by bv_omega
          have hlt : 0 < (bufIndex - 1).toNat :=
            Nat.pos_of_ne_zero fun hzero ↦ hmore (BitVec.eq_of_toNat_eq hzero)
          have hle := ih hrest hmore hlt
          rw [List.length_cons]
          omega
    · cases h
      exact Nat.zero_le _
    · cases h
    · cases h

end Dump

section Unbounded

variable {maxSize : BitVec 64}

/-- The calls on a buffer whose numbers do not wrap. -/
def runUnbounded {n : ℕ} (a : SequenceBuf.SequencePktBuf α n) : List (Call α) → SequenceBuf.SequencePktBuf α n
  | [] => a
  | .addPkt pkt :: calls => runUnbounded (a.addPkt pkt) calls
  | .clear :: calls => runUnbounded a.clear calls

structure Simulates (a : SequenceBuf.SequencePktBuf α maxSize.toNat) (b : SequencePktBuf α) (log : List α)
    (cleared : ℕ) (pkts : List α) : Prop where
  size : b.maxSize = maxSize
  indexes : b.indexes = BitVec.ofNat 64 a.indexes
  slots : ∀ i < maxSize.toNat, (b.pktBuf i).2 = (a.pktBuf i).2
  unbounded : SequenceBuf.Holds a log cleared
  fresh : ∀ i < maxSize.toNat, log.length < i → (a.pktBuf i).2 = none
  machine : Holds b pkts

variable {a : SequenceBuf.SequencePktBuf α maxSize.toNat} {b : SequencePktBuf α} {log pkts : List α}
  {cleared : ℕ}

theorem slotOf_ofNat (hdvd : maxSize.toNat ∣ 2 ^ 64) (i : ℕ) :
    slotOf maxSize (BitVec.ofNat 64 i) = i % maxSize.toNat := by
  rw [slotOf_eq, BitVec.toNat_ofNat, Nat.mod_mod_of_dvd _ hdvd]

theorem Simulates.addPkt (hdvd : maxSize.toNat ∣ 2 ^ 64) (h : Simulates a b log cleared pkts) (pkt : α) :
    Simulates (a.addPkt pkt) (b.addPkt pkt) (log ++ [pkt]) cleared (pkt :: pkts) := by
  have hnext : b.indexes + 1 = BitVec.ofNat 64 (a.indexes + 1) := by
    rw [h.indexes, BitVec.ofNat_add]
    rfl
  have hslot : slotOf b.maxSize (b.indexes + 1) = (a.indexes + 1) % maxSize.toNat := by
    rw [h.size, hnext, slotOf_ofNat hdvd]
  refine ⟨h.size, hnext, fun i hi ↦ ?_, SequenceBuf.holds_addPkt h.unbounded pkt, fun i hi hlt ↦ ?_,
    holds_addPkt (h.size ▸ hdvd) h.machine pkt⟩
  · change (update b.pktBuf (slotOf b.maxSize (b.indexes + 1)) (b.indexes + 1, some pkt) i).2 =
      (update a.pktBuf ((a.indexes + 1) % maxSize.toNat) (a.indexes + 1, some pkt) i).2
    rw [hslot]
    by_cases heq : i = (a.indexes + 1) % maxSize.toNat
    · rw [heq, update_self, update_self]
    · rw [update_of_ne heq, update_of_ne heq]
      exact h.slots i hi
  · rw [List.length_append, List.length_singleton] at hlt
    have hindex := h.unbounded.indexes_eq
    change (update a.pktBuf ((a.indexes + 1) % maxSize.toNat) (a.indexes + 1, some pkt) i).2 = none
    rw [Nat.mod_eq_of_lt (by omega), update_of_ne (by omega)]
    exact h.fresh i hi (by omega)

theorem Simulates.clear (hpos : 0 < maxSize.toNat) (hdvd : maxSize.toNat ∣ 2 ^ 64)
    (h : Simulates a b log cleared pkts) :
    ∃ b', (∀ rounds > maxSize.toNat, b.clear rounds = some b') ∧
      Simulates a.clear b' log log.length [] := by
  obtain ⟨rfl, hindexes, hslots, hunbounded, hfresh, hmachine⟩ := h
  obtain ⟨slots, hclear, hempty⟩ := clear_eq hpos hdvd hmachine
  have hcleared := SequenceBuf.holds_clear hunbounded
  have hnone : ∀ i < b.maxSize.toNat, (a.clear.pktBuf i).2 = none := by
    intro i hi
    by_cases hlt : log.length < i
    · exact SequenceBuf.clearLoop_none _ _ (hfresh i hi hlt)
    · have hget := hcleared.getPkt_eq hpos (Nat.le_of_not_lt hlt)
      have hle := SequenceBuf.sameSlot_le b.maxSize.toNat log.length i
      rw [if_neg (by omega), SequenceBuf.SequencePktBuf.getPkt, Nat.mod_eq_of_lt hi] at hget
      exact hget
  exact ⟨_, hclear, rfl, hindexes, fun i hi ↦ (hempty i hi).trans (hnone i hi).symm, hcleared,
    fun i hi _ ↦ hnone i hi, fun j _ ↦ hempty _ (slotOf_lt hpos _)⟩

theorem Simulates.run (hpos : 0 < maxSize.toNat) (hdvd : maxSize.toNat ∣ 2 ^ 64)
    (h : Simulates a b log cleared pkts) (calls : List (Call α)) :
    ∃ b' log' cleared' pkts', (∀ rounds > maxSize.toNat, run rounds b calls = some b') ∧
      Simulates (runUnbounded a calls) b' log' cleared' pkts' := by
  induction calls generalizing a b log cleared pkts with
  | nil => exact ⟨b, log, cleared, pkts, fun _ _ ↦ rfl, h⟩
  | cons call calls ih =>
    cases call with
    | addPkt pkt => exact ih (h.addPkt hdvd pkt)
    | clear =>
      obtain ⟨b', hclear, h'⟩ := h.clear hpos hdvd
      obtain ⟨b'', log', cleared', pkts', hrun, h''⟩ := ih h'
      refine ⟨b'', log', cleared', pkts', fun rounds hrounds ↦ ?_, h''⟩
      rw [SequenceDump.run, step, hclear rounds hrounds]
      exact hrun rounds hrounds

/-- Where the capacity divides 2 ^ 64 the readers see what they would see without a wrap. -/
theorem getPkt_unbounded (hpos : 0 < maxSize.toNat) (hdvd : maxSize.toNat ∣ 2 ^ 64) (calls : List (Call α)) :
    ∃ b : SequencePktBuf α, (∀ rounds > maxSize.toNat, run rounds { maxSize } calls = some b) ∧
      ∀ i, b.getPkt (BitVec.ofNat 64 i) =
        (runUnbounded ({} : SequenceBuf.SequencePktBuf α maxSize.toNat) calls).getPkt i := by
  have hnew : Simulates ({} : SequenceBuf.SequencePktBuf α maxSize.toNat) ({ maxSize } : SequencePktBuf α)
      [] 0 [] :=
    ⟨rfl, rfl, fun _ _ ↦ rfl, SequenceBuf.holds_init, fun _ _ _ ↦ rfl, holds_new maxSize⟩
  obtain ⟨b, log, cleared, pkts, hrun, h⟩ := hnew.run hpos hdvd calls
  refine ⟨b, hrun, fun i ↦ ?_⟩
  rw [getPkt, h.size, slotOf_ofNat hdvd]
  exact h.slots _ (Nat.mod_lt i hpos)

end Unbounded

section Runs

/-- `pkts` are the packets since the last `clear`, the newest first. Another `clear` ends and
leaves no packet; until then a slot holds one of the newest packets, or nothing. -/
structure Kept (b : SequencePktBuf α) (pkts : List α) : Prop where
  clears : ∃ b', (∀ rounds > b.maxSize.toNat, b.clear rounds = some b') ∧
    ∀ i < b.maxSize.toNat, (b'.pktBuf i).2 = none
  slots : ∀ i < b.maxSize.toNat, ∀ pkt, (b.pktBuf i).2 = some pkt ↔
    ∃ j < min b.maxSize.toNat pkts.length, pkts[j]? = some pkt ∧
      slotOf b.maxSize (b.indexes - BitVec.ofNat 64 j) = i

/-- All packets that are held are returned, the newest first. -/
def Dumped (b : SequencePktBuf α) (pkts : List α) : Prop :=
  ∀ rounds > b.maxSize.toNat, b.dumpPkts rounds = some (.ok (pkts.take b.maxSize.toNat))

variable {b : SequencePktBuf α} {pkts : List α} {maxSize : BitVec 64}

theorem Holds.kept (hpos : 0 < b.maxSize.toNat) (hdvd : b.maxSize.toNat ∣ 2 ^ 64) (h : Holds b pkts) :
    Kept b pkts where
  clears := by
    obtain ⟨slots, hclear, hempty⟩ := clear_eq hpos hdvd h
    exact ⟨_, hclear, hempty⟩
  slots i hi pkt := by
    constructor
    · intro hpkt
      obtain ⟨j, hj, rfl⟩ := exists_slotOf hdvd b.indexes hi
      have hget : pkts[j]? = some pkt := (h j hj).symm.trans hpkt
      obtain ⟨hlen, -⟩ := List.getElem?_eq_some_iff.mp hget
      exact ⟨j, by omega, hget, rfl⟩
    · rintro ⟨j, hj, hget, rfl⟩
      exact (h j (by omega)).trans hget

/-- After every run the slots are right, and the dump wherever the numbers can be walked back. -/
theorem run_kept (hpos : 0 < maxSize.toNat) (hdvd : maxSize.toNat ∣ 2 ^ 64) (calls : List (Call α)) :
    ∃ b : SequencePktBuf α, (∀ rounds > maxSize.toNat, run rounds { maxSize } calls = some b) ∧
      Kept b (since [] calls) ∧
      (Walkable maxSize (BitVec.ofNat 64 (added calls)) (since [] calls).length →
        Dumped b (since [] calls)) := by
  obtain ⟨b, hrun, hsize, hindex, hholds⟩ :=
    run_eq (b := ({ maxSize } : SequencePktBuf α)) hpos hdvd (holds_new maxSize) calls
  change b.maxSize = maxSize at hsize
  subst hsize
  have hindex' : b.indexes = BitVec.ofNat 64 (added calls) := hindex.trans (BitVec.zero_add _)
  refine ⟨b, hrun, hholds.kept hpos hdvd, fun hwalk rounds hrounds ↦ ?_⟩
  rw [← hindex'] at hwalk
  exact dumpPkts_eq hpos hdvd hholds hwalk hrounds

theorem length_since (pkts : List α) (calls : List (Call α)) :
    (since pkts calls).length ≤ pkts.length + added calls := by
  induction calls generalizing pkts with
  | nil => exact Nat.le_refl _
  | cons call calls ih =>
    cases call with
    | addPkt pkt =>
      have hle := ih (pkt :: pkts)
      rw [List.length_cons] at hle
      rw [since, added]
      omega
    | clear =>
      have hle := ih []
      rw [List.length_nil] at hle
      rw [since, added]
      omega

/-- In a buffer of up to 2 ^ 31 slots the numbers can be walked back until they wrap. -/
theorem walkable_of_lt (hpos : 0 < maxSize.toNat) (hsize : maxSize.toNat ≤ 2 ^ 31) (calls : List (Call α))
    (hlt : added calls < 2 ^ 64) :
    Walkable maxSize (BitVec.ofNat 64 (added calls)) (since [] calls).length where
  nonzero j h0 _ hj := by
    have hle := length_since [] calls
    rw [List.length_nil] at hle
    intro hzero
    have hnat := congrArg BitVec.toNat hzero
    rw [BitVec.toNat_sub, BitVec.toNat_ofNat, BitVec.toNat_ofNat] at hnat
    change _ = 0 at hnat
    omega
  inInt j _ _ := (slotOf_lt hpos _).trans_le hsize

/-- Where an `int` holds every slot, the dump is complete unless the packets reach back beyond
number 0. -/
theorem dumped_iff (hpos : 0 < b.maxSize.toNat) (hdvd : b.maxSize.toNat ∣ 2 ^ 64)
    (hsize : b.maxSize.toNat ≤ 2 ^ 31) (h : Holds b pkts) :
    Dumped b pkts ↔ b.indexes = 0 ∨ min b.maxSize.toNat pkts.length ≤ b.indexes.toNat := by
  constructor
  · intro hdump
    by_cases hne : b.indexes = 0
    · exact .inl hne
    · have hlen := length_dumpLoop (hdump _ (Nat.lt_succ_self _)) hne
      rw [List.length_take] at hlen
      exact .inr hlen
  · intro hback rounds hrounds
    refine dumpPkts_eq hpos hdvd h ⟨fun j h0 hj hlen ↦ ?_, fun j _ _ ↦ ?_⟩ hrounds
    · rcases hback with hzero | hle
      · rw [hzero]
        bv_omega
      · bv_omega
    · exact (slotOf_lt hpos _).trans_le hsize

/-- Two of the three packets since the last `clear` fit. -/
theorem twoSlots_kept : ∃ b : SequencePktBuf ℕ,
    (∀ rounds > 2, run rounds { maxSize := 2 } [.addPkt 1, .clear, .addPkt 2, .addPkt 3, .addPkt 4] =
      some b) ∧ Kept b [4, 3, 2] ∧ Dumped b [4, 3, 2] := by
  obtain ⟨b, hrun, hkept, hdump⟩ :=
    @run_kept ℕ 2 (by decide) (by decide) [.addPkt 1, .clear, .addPkt 2, .addPkt 3, .addPkt 4]
  exact ⟨b, hrun, hkept, hdump (walkable_of_lt (by decide) (by decide) _ (by decide))⟩

theorem added_replicate (n : ℕ) (pkt : α) : added (List.replicate n (.addPkt pkt)) = n := by
  induction n with
  | zero => rfl
  | succ n ih => rw [List.replicate_succ, added, ih]

/-- In a buffer of 2 ^ 32 slots, slot 2 ^ 31 is a negative `int`. -/
theorem largeBuffer_overreads : ¬ ∃ b : SequencePktBuf Unit,
    (∀ rounds > 2 ^ 32, run rounds { maxSize := 0x100000000 } (List.replicate (2 ^ 31) (.addPkt ())) =
      some b) ∧ Kept b (since [] (List.replicate (2 ^ 31) (.addPkt ()))) ∧
    Dumped b (since [] (List.replicate (2 ^ 31) (.addPkt ()))) := by
  rintro ⟨b, hrun, -, hdump⟩
  obtain ⟨b', hrun', hsize, hindex, -⟩ := run_eq (b := ({ maxSize := 0x100000000 } : SequencePktBuf Unit))
    (by decide) (by decide) (holds_new _) (List.replicate (2 ^ 31) (.addPkt ()))
  have hbb' : some b = some b' :=
    (hrun (2 ^ 32 + 1) (Nat.lt_succ_self _)).symm.trans (hrun' (2 ^ 32 + 1) (Nat.lt_succ_self _))
  cases hbb'
  rw [added_replicate] at hindex
  change b.maxSize = 0x100000000 at hsize
  have hindex' : b.indexes = 0x80000000 := hindex
  have hfault : b.slotAt (toInt (b.indexes % b.maxSize)) = .fault .overread := by
    rw [hsize, hindex', slotAt, hsize]
    exact if_neg (by decide)
  have hresult := hdump _ (Nat.lt_succ_self _)
  rw [dumpPkts, dumpLoop, hfault] at hresult
  cases hresult

end Runs

end MmsServer.Base.SequenceDump
