import MmsServer.Core.LiveReader

namespace MmsServer.Core.NewViewer

open Lib.NumberedLog Base.SequenceBuf StartSearch Rtmp.Define RtmpSource RtmpMediaSource LiveReader

def Reachable (d : Decoders) (s : RtmpMediaSource) : Prop :=
  Relation.ReflTransGen (fun s t ↦ ∃ pkt, Publishes d s pkt t) {} s

def isPicture (m : RtmpMessage) : Bool := isVideo m && !isSeqHeader m

/-- The first picture among the packets, if there is one, is a key frame. -/
def StartsOnKeyFrame (av : List RtmpMessage) : Prop :=
  ∀ m, av.find? isPicture = some m → isKeyFrame m = true

def Held (s : RtmpMediaSource) (k : ℕ) (m : RtmpMessage) : Prop :=
  s.latestFrameIndex < k + 1024 ∧ s.avPkts.getPkt k = some m

/-- The start search does not reach an index whose packet has left the ring:
an indexed key frame that is old enough is still held, or all of them are. -/
def SearchStaysInRing (s : RtmpMediaSource) : Prop :=
  (∃ k ∈ s.keyframeIndexes, ∃ m, Held s k m ∧ s.oldVideo m = true) ∨
    ∀ k ∈ s.keyframeIndexes, ∃ m, Held s k m

theorem reachable_sourceInv {d : Decoders} {s : RtmpMediaSource} (h : Reachable d s) :
    ∃ log cleared, SourceInv s log cleared := by
  induction h with
  | refl => exact ⟨[], 0, sourceInv_init⟩
  | tail _ hp ih =>
    obtain ⟨log, cleared, hinv⟩ := ih
    obtain ⟨pkt, hp⟩ := hp
    exact ⟨_, sourceInv_change hinv hp.ring⟩

variable {s : RtmpMediaSource} {log : List RtmpMessage} {lo : ℕ}

theorem held_above (h : SourceInv s log lo) {k : ℕ} {m : RtmpMessage} (hk : k ≤ log.length)
    (hh : Held s k m) :
    lo < k := by
  have hl := h.latest
  have hg := h.holds.get k hk (by have := hh.1; omega)
  rw [hh.2] at hg
  by_contra hle
  rw [if_neg hle] at hg
  cases hg

theorem start_held (h : SourceInv s log lo) (hc : SearchStaysInRing s) {start : ℕ}
    (hs : keyframeStart s.avPkts.getPkt s.oldVideo s.keyframeIndexes = some start) :
    ∃ m, Held s start m ∧ isVideo m ∧ isKeyFrame m := by
  have hl := h.latest
  obtain ⟨hmem, -, hnewest⟩ := keyframeStart_spec h.sorted hs
  obtain ⟨m, hentry, hv, hkf⟩ := h.keyframes start hmem
  have hle := entry_le hentry
  have hbound : ∃ k m, k ≤ start ∧ Held s k m := by
    rcases hc with ⟨k, hk, m, hh, hold⟩ | hall
    · refine ⟨k, m, hnewest k hk ?_, hh⟩
      rw [stops, hh.2]
      exact hold
    · obtain ⟨m, hh⟩ := hall start hmem
      exact ⟨start, m, le_rfl, hh⟩
  obtain ⟨k, m', hks, hh⟩ := hbound
  have hlo := held_above h (hks.trans hle) hh
  have hw : s.latestFrameIndex < start + 1024 := by
    have := hh.1
    omega
  refine ⟨m, ⟨hw, ?_⟩, hv, hkf⟩
  rw [h.holds.get start hle (by omega), if_pos (by omega), hentry]

theorem isKeyFrame_picture {m : RtmpMessage} (hv : isVideo m = true) (hk : isKeyFrame m = true) :
    isPicture m = true := by
  rw [isPicture, hv, Bool.true_and]
  unfold isKeyFrame at hk
  unfold isSeqHeader
  split at hk
  · rw [Bool.and_eq_true] at hk
    exact hk.2
  · rfl

/-- A new viewer starts on a key frame, from every reachable state in which the
search does not reach a dead index. -/
theorem new_viewer_starts_on_keyframe (d : Decoders) (s : RtmpMediaSource) (h : Reachable d s)
    (hvideo : s.hasVideo = true) (hc : SearchStaysInRing s) (maxCount : ℕ) :
    StartsOnKeyFrame (s.getPkts none maxCount).av := by
  obtain ⟨log, lo, hinv⟩ := reachable_sourceInv h
  rcases getPkts_cases s none maxCount with ⟨-, hp⟩ | ⟨start, hfrom, hav, -⟩
  · rw [hp]
    intro m hm
    cases hm
  · rcases hfrom with hsome | ⟨-, -, hstart⟩
    · cases hsome
    · rw [startIdx, if_pos hvideo] at hstart
      obtain ⟨m, hheld, hv, hkf⟩ := start_held hinv hc hstart
      intro m' hm'
      rw [hav] at hm'
      rcases Nat.eq_zero_or_pos maxCount with rfl | hpos
      · rw [readFrom, collect_zero] at hm'
        cases hm'
      · have hle : start ≤ s.latestFrameIndex := by
          obtain ⟨m₀, hentry, -⟩ := hinv.keyframes start (keyframeStart_spec hinv.sorted hstart).1
          rw [hinv.latest]
          exact entry_le hentry
        have hhead := collect_head s.avPkts.getPkt hpos
          (show 0 < s.latestFrameIndex + 1 - start by omega) hheld.2
        obtain ⟨rest, hrest⟩ := List.head?_eq_some_iff.mp hhead
        rw [readFrom, hrest, List.find?_cons_of_pos (isKeyFrame_picture hv hkf),
          Option.some_inj] at hm'
        rw [← hm']
        exact hkf

section Cleared

def avMetadata : RtmpMessage where
  toPacket := .ofBytes ([0x02, 0x00, 0x0a] ++
    [0x6f, 0x6e, 0x4d, 0x65, 0x74, 0x61, 0x44, 0x61, 0x74, 0x61] ++ [0x03, 0x00, 0x0c] ++
    [0x76, 0x69, 0x64, 0x65, 0x6f, 0x63, 0x6f, 0x64, 0x65, 0x63, 0x69, 0x64] ++
    [0x00, 0x40, 0x1c, 0, 0, 0, 0, 0, 0] ++
    [0x00, 0x0c] ++ [0x61, 0x75, 0x64, 0x69, 0x6f, 0x63, 0x6f, 0x64, 0x65, 0x63, 0x69, 0x64] ++
    [0x00, 0x40, 0x24, 0, 0, 0, 0, 0, 0] ++ [0, 0, 9])
  messageTypeId := 18

def avDecoders : Decoders where
  metadata m :=
    if m = avMetadata then (true, ⟨some m, true, true, .avc, .aac⟩)
    else (false, ⟨none, false, false, .other 0, .other 0⟩)
  audioSpecificConfig bs := 2 ≤ bs.length
  avcConfigurationRecord bs := 7 ≤ bs.length
  hevcConfigurationRecord bs := 23 ≤ bs.length

def avPacket (typeId : UInt8) (timestamp : BitVec 32) (bs : Lib.ByteReader.Bytes) :
    RtmpMessage where
  toPacket := .ofBytes bs
  messageTypeId := typeId
  timestamp := timestamp

def videoSeqHeader : RtmpMessage :=
  avPacket 9 0 ([0x17, 0, 0, 0, 0] ++
    [1, 0x42, 0, 0x1e, 0xff, 0xe1, 0, 4, 0x67, 0x42, 0, 0x1e, 1, 0, 4, 0x68, 0xce, 0x3c, 0x80])

def audioSeqHeader : RtmpMessage := avPacket 8 0 [0xaf, 0, 0x12, 0x10]

def keyFrame : RtmpMessage := avPacket 9 0 [0x17, 1, 0, 0, 0, 0, 0, 0, 1, 0x65]

def interFrame (timestamp : BitVec 32) : RtmpMessage :=
  avPacket 9 timestamp [0x27, 1, 0, 0, 0, 0, 0, 0, 1, 0x41]

def playing : RtmpMediaSource :=
  ((((({} : RtmpMediaSource).onMetadata avDecoders avMetadata).2.onAudioPacket avDecoders audioSeqHeader).2.onVideoPacket
    avDecoders videoSeqHeader).2.onVideoPacket avDecoders keyFrame).2

/-- The encoder repeats its audio sequence header, which clears the ring, and goes on. -/
def cleared : RtmpMediaSource :=
  ((playing.onAudioPacket avDecoders audioSeqHeader).2.onVideoPacket avDecoders (interFrame 40)).2

theorem playing_reachable : Reachable avDecoders playing :=
  (((Relation.ReflTransGen.single ⟨_, .metadata avMetadata⟩).tail ⟨_, .audio audioSeqHeader rfl⟩).tail
    ⟨_, .video videoSeqHeader rfl⟩).tail ⟨_, .video keyFrame rfl⟩

theorem cleared_reachable : Reachable avDecoders cleared :=
  (playing_reachable.tail ⟨_, .audio audioSeqHeader rfl⟩).tail ⟨_, .video (interFrame 40) rfl⟩

def lateInter : RtmpMediaSource := (playing.onVideoPacket avDecoders (interFrame 2500)).2

theorem lateInter_starts_on_keyframe : Reachable avDecoders lateInter ∧ lateInter.hasVideo = true ∧
    SearchStaysInRing lateInter ∧ (lateInter.getPkts none 20).av = [keyFrame, interFrame 2500] ∧
    StartsOnKeyFrame (lateInter.getPkts none 20).av := by
  have hreach : Reachable avDecoders lateInter :=
    playing_reachable.tail ⟨_, .video (interFrame 2500) rfl⟩
  have hsearch : SearchStaysInRing lateInter :=
    Or.inl ⟨3, by decide +kernel, keyFrame, ⟨by decide +kernel, by decide +kernel⟩,
      by decide +kernel⟩
  exact ⟨hreach, by decide +kernel, hsearch, by decide +kernel,
    new_viewer_starts_on_keyframe avDecoders lateInter hreach (by decide +kernel) hsearch 20⟩

/-- After the ring was cleared, the key frame index leads a new viewer to a
picture that is no key frame. -/
theorem cleared_starts_on_inter_frame : Reachable avDecoders cleared ∧ cleared.hasVideo = true ∧
    (cleared.getPkts none 20).av = [audioSeqHeader, interFrame 40] ∧
    ¬ StartsOnKeyFrame (cleared.getPkts none 20).av := by
  have hav : (cleared.getPkts none 20).av = [audioSeqHeader, interFrame 40] := by decide +kernel
  refine ⟨cleared_reachable, by decide +kernel, hav, ?_⟩
  rw [hav]
  intro h
  exact absurd (h (interFrame 40) (by decide +kernel)) (by decide +kernel)

end Cleared

end MmsServer.Core.NewViewer
