import MmsServer.Lib.NumberedLog
import Mathlib.Logic.Function.Basic

namespace MmsServer.Base.SequenceBuf

open Function Lib.NumberedLog

variable {α : Type} {maxSize : ℕ}

/-- The slots of `pkt_buf_` hold the number of a packet and the packet. -/
structure SequencePktBuf (α : Type) (maxSize : ℕ) where
  pktBuf : ℕ → ℕ × Option α := fun _ ↦ (0, none)
  indexes : ℕ := 0

def SequencePktBuf.addPkt (b : SequencePktBuf α maxSize) (pkt : α) : SequencePktBuf α maxSize where
  pktBuf := update b.pktBuf ((b.indexes + 1) % maxSize) (b.indexes + 1, some pkt)
  indexes := b.indexes + 1

def SequencePktBuf.getPkt (b : SequencePktBuf α maxSize) (index : ℕ) : Option α :=
  (b.pktBuf (index % maxSize)).2

/-- The loop of `clear`, from `current` back to the first slot that is empty.
Each round empties a slot, so `maxSize` rounds are enough. -/
def clearLoop (maxSize : ℕ) : ℕ → ℕ → (ℕ → ℕ × Option α) → ℕ → ℕ × Option α
  | 0, _, slots => slots
  | rounds + 1, current, slots =>
    if (slots (current % maxSize)).2.isSome then
      clearLoop maxSize rounds (current - 1)
        (update slots (current % maxSize) ((slots (current % maxSize)).1, none))
    else slots

def SequencePktBuf.clear (b : SequencePktBuf α maxSize) : SequencePktBuf α maxSize :=
  { b with pktBuf := clearLoop maxSize maxSize b.indexes b.pktBuf }

/-- The buffer was cleared when the log had `cleared` packets. Of the numbers
within its size, it shows those above `cleared`. -/
structure Holds (b : SequencePktBuf α maxSize) (log : List α) (cleared : ℕ) : Prop where
  indexes_eq : b.indexes = log.length
  cleared_le : cleared ≤ log.length
  get : ∀ i ≤ log.length, log.length < i + maxSize →
      b.getPkt i = if cleared < i then entry log i else none

theorem mod_ne_of_lt {i j : ℕ} (hij : i < j) (hj : j < i + maxSize) :
    i % maxSize ≠ j % maxSize := by
  intro h
  have hz := Nat.sub_mod_eq_zero_of_mod_eq h.symm
  rw [Nat.mod_eq_of_lt (by omega)] at hz
  omega

theorem entry_isSome {log : List α} {i : ℕ} (hpos : 0 < i) (hi : i ≤ log.length) :
    (entry log i).isSome := by
  rw [entry, if_neg (by omega), List.getElem?_eq_getElem (by omega)]
  rfl

theorem holds_init : Holds ({} : SequencePktBuf α maxSize) [] 0 where
  indexes_eq := rfl
  cleared_le := le_rfl
  get i hi _ := by
    obtain rfl : i = 0 := by simpa using hi
    rfl

theorem holds_addPkt {b : SequencePktBuf α maxSize} {log : List α} {cleared : ℕ}
    (h : Holds b log cleared) (pkt : α) : Holds (b.addPkt pkt) (log ++ [pkt]) cleared := by
  have hle := h.cleared_le
  have hlen : (log ++ [pkt]).length = log.length + 1 := by
    rw [List.length_append, List.length_singleton]
  refine ⟨by rw [hlen, ← h.indexes_eq]; rfl, by omega, ?_⟩
  intro i hi hw
  rw [hlen] at hi hw
  change (update b.pktBuf ((b.indexes + 1) % maxSize) (b.indexes + 1, some pkt) (i % maxSize)).2 = _
  rw [h.indexes_eq]
  rcases Nat.eq_or_lt_of_le hi with rfl | hlt
  · rw [update_self, if_pos (by omega), entry_last]
  · rw [update_of_ne (mod_ne_of_lt hlt (by omega)), entry_append log [pkt] (by omega)]
    exact h.get i (by omega) (by omega)

theorem clearLoop_none (rounds current : ℕ) {slots : ℕ → ℕ × Option α} {j : ℕ}
    (h : (slots j).2 = none) :
    (clearLoop maxSize rounds current slots j).2 = none := by
  induction rounds generalizing current slots with
  | zero => exact h
  | succ rounds ih =>
    rw [clearLoop]
    split
    · apply ih
      by_cases hj : j = current % maxSize
      · rw [hj, update_self]
      · rw [update_of_ne hj, h]
    · exact h

/-- The loop empties every slot of the window, since the numbers it has not
reached yet all lie above `lo`. -/
theorem clearLoop_spec {log : List α} {lo : ℕ} (hlo : log.length ≤ lo + maxSize) (rounds : ℕ)
    {current : ℕ} {slots : ℕ → ℕ × Option α} (hcur : current ≤ log.length)
    (hrounds : current ≤ lo + rounds)
    (h : ∀ i ≤ log.length, log.length < i + maxSize →
      (slots (i % maxSize)).2 = if lo < i ∧ i ≤ current then entry log i else none)
    (i : ℕ) (hi : i ≤ log.length) (hw : log.length < i + maxSize) :
    (clearLoop maxSize rounds current slots (i % maxSize)).2 = none := by
  induction rounds generalizing current slots with
  | zero =>
    rw [clearLoop, h i hi hw]
    exact if_neg (by omega)
  | succ rounds ih =>
    by_cases hlt : lo < current
    · have hsome : (slots (current % maxSize)).2.isSome := by
        rw [h current hcur (by omega), if_pos ⟨hlt, le_rfl⟩]
        exact entry_isSome (by omega) hcur
      rw [clearLoop, if_pos hsome]
      apply ih (by omega) (by omega)
      intro j hj hjw
      rcases Nat.lt_trichotomy j current with hjc | rfl | hjc
      · rw [update_of_ne (mod_ne_of_lt hjc (by omega)), h j hj hjw]
        have hiff : lo < j ∧ j ≤ current ↔ lo < j ∧ j ≤ current - 1 := by omega
        simp only [hiff]
      · rw [update_self, if_neg (by omega)]
      · rw [update_of_ne (mod_ne_of_lt hjc (by omega)).symm, h j hj hjw, if_neg (by omega),
          if_neg (by omega)]
    · apply clearLoop_none
      rw [h i hi hw]
      exact if_neg (by omega)

theorem holds_clear {b : SequencePktBuf α maxSize} {log : List α} {cleared : ℕ}
    (h : Holds b log cleared) :
    Holds b.clear log log.length := by
  refine ⟨h.indexes_eq, le_rfl, ?_⟩
  intro i hi hw
  rw [if_neg (by omega)]
  unfold SequencePktBuf.clear SequencePktBuf.getPkt
  rw [h.indexes_eq]
  have hlo : log.length ≤ max cleared (log.length - maxSize) + maxSize := by omega
  apply clearLoop_spec hlo maxSize le_rfl hlo ?_ i hi hw
  intro j hj hjw
  have hiff : max cleared (log.length - maxSize) < j ∧ j ≤ log.length ↔ cleared < j := by omega
  simp only [hiff]
  exact h.get j hj hjw

theorem Holds.cleared {b buf : SequencePktBuf α maxSize} {log : List α} {cleared : ℕ}
    (h : Holds b log cleared) (hbuf : buf = b ∨ buf = b.clear) :
    ∃ cleared', Holds buf log cleared' := by
  rcases hbuf with rfl | rfl
  · exact ⟨cleared, h⟩
  · exact ⟨log.length, holds_clear h⟩

theorem Holds.newest {b : SequencePktBuf α maxSize} {log : List α} {cleared : ℕ}
    (h : Holds b log cleared) (hsize : 0 < maxSize) (hlt : cleared < log.length) :
    (b.getPkt log.length).isSome := by
  rw [h.get log.length le_rfl (by omega), if_pos hlt]
  exact entry_isSome (by omega) le_rfl

/-- The newest number up to `latest` that shares its slot with `i`. -/
def sameSlot (maxSize latest i : ℕ) : ℕ := latest - (latest - i) % maxSize

theorem sameSlot_le (maxSize latest i : ℕ) : sameSlot maxSize latest i ≤ latest := Nat.sub_le _ _

theorem Holds.getPkt_eq {b : SequencePktBuf α maxSize} {log : List α} {cleared : ℕ}
    (h : Holds b log cleared) (hsize : 0 < maxSize) {i : ℕ} (hi : i ≤ log.length) :
    b.getPkt i =
      if cleared < sameSlot maxSize log.length i then entry log (sameSlot maxSize log.length i)
      else none := by
  have hmod : (log.length - i) % maxSize < maxSize := Nat.mod_lt _ hsize
  have hle : (log.length - i) % maxSize ≤ log.length - i := Nat.mod_le _ _
  have hslot : sameSlot maxSize log.length i % maxSize = i % maxSize := by
    have hsplit : sameSlot maxSize log.length i = i + maxSize * ((log.length - i) / maxSize) := by
      have hd := Nat.mod_add_div (log.length - i) maxSize
      unfold sameSlot
      omega
    rw [hsplit, Nat.add_mul_mod_self_left]
  have hg := h.get (sameSlot maxSize log.length i) (sameSlot_le _ _ _) (by unfold sameSlot; omega)
  rw [← hg, SequencePktBuf.getPkt, SequencePktBuf.getPkt, hslot]

end MmsServer.Base.SequenceBuf
