import MmsServer.Base.KnownTime
import MmsServer.M4s.MediaSegment

namespace MmsServer.M4s.Duration

open Base.KnownTime Mp4.MovieBoxes Mp4.FragmentBoxes InitSegment MediaSegment

structure SegmentTimes where
  startTimestamp : BitVec 64
  endTimestamp : BitVec 64
  durationMs : BitVec 64

def knownTime (t : BitVec 64) : BitVec 64 := if t.toInt < 0 ∨ maxMs ≤ t.toInt then 0 else t

def updateTimestamp (start finish : BitVec 64) : SegmentTimes where
  startTimestamp := knownTime start
  endTimestamp := knownTime finish
  durationMs := knownTime finish - knownTime start

/-- The index, the samples and the segment have one duration. -/
def TellsDuration (t : Track) (m : SegmentMemory) (seqNo : BitVec 64) (p : Packet) (ps : List Packet)
    (dts : BitVec 64) : Prop :=
  ∃ e, (t.reapSeg m seqNo p ps dts).sidx.entries = [e] ∧
    e.subsegmentDuration.toNat = ((t.reapSeg m seqNo p ps dts).sampleDurations.map BitVec.toNat).sum ∧
    (e.subsegmentDuration.toNat : ℤ) = (updateTimestamp p.time dts).durationMs.toInt

structure Ordered (p : Packet) (ps : List Packet) (dts : BitVec 64) : Prop where
  sorted : (p :: ps).Pairwise fun a b ↦ a.timestamp.toInt ≤ b.timestamp.toInt
  ended : (ps.getLastD p).timestamp.toInt ≤ dts.toInt

section Words

theorem toNat_eq_emod {w : ℕ} (x : BitVec w) : (x.toNat : ℤ) = x.toInt % (2 ^ w : ℕ) := by
  have hlt : (x.toNat : ℤ) < (2 ^ w : ℕ) := Int.ofNat_lt.mpr x.isLt
  rw [BitVec.toInt_eq_toNat_bmod, Int.bmod_emod, Int.emod_eq_of_lt (Int.natCast_nonneg _) hlt]

theorem toNat_sub_eq {w : ℕ} (x y : BitVec w) :
    ((x - y).toNat : ℤ) = (x.toInt - y.toInt) % (2 ^ w : ℕ) := by
  rw [toNat_eq_emod, BitVec.toInt_sub, Int.bmod_emod]

theorem toNat_sub_time (x : BitVec 64) (p : Packet) :
    (((x - p.time).setWidth 32).toNat : ℤ) = (x.toInt - p.timestamp.toInt) % 2 ^ 32 := by
  rw [BitVec.toNat_setWidth, Int.natCast_emod, toNat_sub_eq, Packet.toInt_time]
  exact Int.emod_emod_of_dvd _ (by decide)

end Words

section Sums

variable {p : Packet} {ps : List Packet} {dts : BitVec 64}

theorem Ordered.first_le_last (h : Ordered p ps dts) :
    p.timestamp.toInt ≤ (ps.getLastD p).timestamp.toInt := by
  rw [List.getLastD_eq_getLast?]
  cases hl : ps.getLast? with
  | none => exact Int.le_refl _
  | some q => exact (List.pairwise_cons.mp h.sorted).1 q (List.mem_of_getLast? hl)

/-- The samples of a track last until the last packet, and its own one until `dts`. -/
theorem sum_sampleDuration (t : Track) (flags : BitVec 32) (h : Ordered p ps dts) :
    ((((t.trunEntries dts flags (p :: ps)).map TrunEntry.sampleDuration).map BitVec.toNat).sum : ℤ) =
      (ps.getLastD p).timestamp.toInt - p.timestamp.toInt +
        (dts.toInt - (ps.getLastD p).timestamp.toInt) % 2 ^ 32 := by
  induction ps generalizing p flags with
  | nil =>
    simp only [Track.trunEntries, List.map_cons, List.map_nil, List.sum_cons, List.sum_nil, Nat.add_zero,
      sampleDuration, List.getLastD_nil]
    rw [toNat_sub_time, Int.sub_self, Int.zero_add]
  | cons q qs ih =>
    have hrest : Ordered q qs dts := by
      refine ⟨h.sorted.tail, ?_⟩
      have hended := h.ended
      rwa [List.getLastD_cons] at hended
    have hle : p.timestamp.toInt ≤ q.timestamp.toInt :=
      (List.pairwise_cons.mp h.sorted).1 q List.mem_cons_self
    have hp := p.timestamp.le_toInt
    have hq := q.timestamp.toInt_lt
    have hfirst : ((q.timestamp - p.timestamp).toNat : ℤ) = q.timestamp.toInt - p.timestamp.toInt := by
      rw [toNat_sub_eq]
      exact Int.emod_eq_of_lt (by omega) (by omega)
    have hsum := ih 0x01000000 hrest
    rw [Track.trunEntries, List.map_cons, List.map_cons, List.sum_cons, Nat.cast_add, hsum,
      List.getLastD_cons]
    dsimp only [sampleDuration]
    rw [hfirst]
    omega

end Sums

section Tells

variable {p : Packet} {ps : List Packet} {dts : BitVec 64}

/-- The packets are all at one time, which is not positive, and `dts` is at the same time modulo
2 ^ 32, but too late to be known. -/
def EndsUnknown (first last dts : ℤ) : Prop := maxMs ≤ dts ∧ first ≤ 0 ∧ last = first ∧ (dts - first) % 2 ^ 32 = 0

def VideoTells (first last dts : ℤ) : Prop :=
  dts = last ∧ (0 ≤ first ∨ first = last) ∨ EndsUnknown first last dts

/-- The times are known, and the duration fits its field. -/
def AudioTells (first last dts : ℤ) : Prop :=
  0 ≤ first ∧ dts < maxMs ∧ dts - first < 2 ^ 32 ∨ dts = first ∨ EndsUnknown first last dts

theorem knownTime_toInt (t : BitVec 64) : (knownTime t).toInt = clampMs t.toInt := by
  unfold knownTime clampMs
  split
  · rfl
  · rfl

theorem durationMs_toInt (start finish : BitVec 64) :
    (updateTimestamp start finish).durationMs.toInt = clampMs finish.toInt - clampMs start.toInt := by
  have hsub : (updateTimestamp start finish).durationMs = knownTime finish - knownTime start := rfl
  rw [hsub, BitVec.toInt_sub, knownTime_toInt, knownTime_toInt]
  have hmax : maxMs < 2 ^ 62 := by decide
  have hf := clampMs_bounds finish.toInt
  have hs := clampMs_bounds start.toInt
  exact Int.bmod_eq_of_le (by omega) (by omega)

theorem tellsDuration_iff (t : Track) (m : SegmentMemory) (seqNo : BitVec 64) (h : Ordered p ps dts) :
    TellsDuration t m seqNo p ps dts ↔
      (((t.indexEnd (ps.getLastD p) dts - p.time).setWidth 32).toNat : ℤ) =
        (ps.getLastD p).timestamp.toInt - p.timestamp.toInt +
          (dts.toInt - (ps.getLastD p).timestamp.toInt) % 2 ^ 32 ∧
      (((t.indexEnd (ps.getLastD p) dts - p.time).setWidth 32).toNat : ℤ) =
        (updateTimestamp p.time dts).durationMs.toInt := by
  have hsum := sum_sampleDuration t 0x02000000 h
  rw [← hsum, Nat.cast_inj]
  constructor
  · rintro ⟨e, he, htotal, hduration⟩
    cases he
    exact ⟨htotal, hduration⟩
  · rintro ⟨htotal, hduration⟩
    exact ⟨_, rfl, htotal, hduration⟩

theorem video_tells_iff (m : SegmentMemory) (seqNo : BitVec 64) (h : Ordered p ps dts) :
    TellsDuration videoTrack m seqNo p ps dts ↔
      VideoTells p.timestamp.toInt (ps.getLastD p).timestamp.toInt dts.toInt := by
  have hle := h.first_le_last
  have hended := h.ended
  have hp := p.timestamp.le_toInt
  have hl := (ps.getLastD p).timestamp.toInt_lt
  rw [tellsDuration_iff videoTrack m seqNo h, durationMs_toInt, Packet.toInt_time]
  have hindex : (((videoTrack.indexEnd (ps.getLastD p) dts - p.time).setWidth 32).toNat : ℤ) =
      (ps.getLastD p).timestamp.toInt - p.timestamp.toInt := by
    refine (toNat_sub_time (ps.getLastD p).time p).trans ?_
    rw [Packet.toInt_time]
    exact Int.emod_eq_of_lt (by omega) (by omega)
  rw [hindex]
  unfold VideoTells EndsUnknown clampMs maxMs
  constructor
  · rintro ⟨htotal, hduration⟩
    split at hduration <;> split at hduration <;> omega
  · rintro (⟨hd, hf⟩ | ⟨hmax, hf, hl, hmod⟩)
    · split <;> split <;> omega
    · split <;> split <;> omega

theorem audio_tells_iff (m : SegmentMemory) (seqNo : BitVec 64) (h : Ordered p ps dts) :
    TellsDuration audioTrack m seqNo p ps dts ↔
      AudioTells p.timestamp.toInt (ps.getLastD p).timestamp.toInt dts.toInt := by
  have hle := h.first_le_last
  have hended := h.ended
  have hp := p.timestamp.le_toInt
  have hl := (ps.getLastD p).timestamp.toInt_lt
  rw [tellsDuration_iff audioTrack m seqNo h, durationMs_toInt, Packet.toInt_time]
  have hindex : (((audioTrack.indexEnd (ps.getLastD p) dts - p.time).setWidth 32).toNat : ℤ) =
      (dts.toInt - p.timestamp.toInt) % 2 ^ 32 := toNat_sub_time dts p
  rw [hindex]
  unfold AudioTells EndsUnknown clampMs maxMs
  constructor
  · rintro ⟨htotal, hduration⟩
    split at hduration <;> split at hduration <;> omega
  · rintro (⟨hf, hmax, hlt⟩ | hd | ⟨hmax, hf, hl, hmod⟩)
    · split <;> split <;> omega
    · split <;> split <;> omega
    · split <;> split <;> omega

end Tells

/-- The index of the video leaves out the last frame, the one of the audio does not. -/
theorem segments_tell_duration_iff (m : SegmentMemory) (seqNo : BitVec 64) {p : Packet} {ps : List Packet}
    {dts : BitVec 64} (h : Ordered p ps dts) :
    (TellsDuration videoTrack m seqNo p ps dts ∧ TellsDuration audioTrack m seqNo p ps dts ↔
      VideoTells p.timestamp.toInt (ps.getLastD p).timestamp.toInt dts.toInt) ∧
    (TellsDuration audioTrack m seqNo p ps dts ↔
      AudioTells p.timestamp.toInt (ps.getLastD p).timestamp.toInt dts.toInt) := by
  have hvideo := video_tells_iff m seqNo h
  have haudio := audio_tells_iff m seqNo h
  refine ⟨?_, haudio⟩
  rw [hvideo, haudio]
  have hp := p.timestamp.le_toInt
  have hl := (ps.getLastD p).timestamp.toInt_lt
  refine and_iff_left_of_imp ?_
  unfold VideoTells AudioTells EndsUnknown maxMs
  omega

def frameAt (timestamp : BitVec 32) : Packet := ⟨timestamp, [0x17, 1, 0, 0, 0, 0xaa]⟩

theorem twoFrames_ordered (dts : BitVec 64) (h : 40 ≤ dts.toInt) : Ordered (frameAt 0) [frameAt 40] dts :=
  ⟨by simp [frameAt], h⟩

theorem twoFrames_tell :
    (TellsDuration videoTrack default 1 (frameAt 0) [frameAt 40] 40 ∧
      TellsDuration audioTrack default 1 (frameAt 0) [frameAt 40] 40 ↔ VideoTells 0 40 40) ∧
    (TellsDuration audioTrack default 1 (frameAt 0) [frameAt 40] 40 ↔ AudioTells 0 40 40) :=
  segments_tell_duration_iff default 1 (twoFrames_ordered 40 (by decide))

/-- Of two frames of 40 ms the index tells 40 ms. -/
theorem lastFrame_not_told : Ordered (frameAt 0) [frameAt 40] 80 ∧
    ¬ TellsDuration videoTrack default 1 (frameAt 0) [frameAt 40] 80 := by
  have h := twoFrames_ordered 80 (by decide)
  refine ⟨h, fun htells ↦ ?_⟩
  have hvideo : VideoTells 0 40 80 := (video_tells_iff default 1 h).mp htells
  unfold VideoTells EndsUnknown maxMs at hvideo
  omega

end MmsServer.M4s.Duration
