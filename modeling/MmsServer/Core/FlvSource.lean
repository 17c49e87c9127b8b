import MmsServer.Core.RtmpSource
import MmsServer.Rtmp.FlvBridge
import Mathlib.Logic.Relation

namespace MmsServer.Core.FlvSource

open Lib.ByteReader Lib.NumberedLog Base.SequenceBuf StartSearch Rtmp.FlvTag RtmpSource
open Rtmp.FlvBridge (FlvTagHeader TagData)

/-- A decoded tag. `dts` is what `VIDEODATA::get_dts` reads through `tag_data`. -/
structure FlvTag where
  tagHeader : FlvTagHeader
  tagData : TagData
  dts : BitVec 32
deriving DecidableEq

def FlvTag.timestamp (tag : FlvTag) : BitVec 32 := tag.tagHeader.timestamp

def FlvTag.payload (tag : FlvTag) : Bytes := tag.tagData.payload

structure FlvMetaData where
  cacheFlvTag : Option FlvTag
  hasVideo : Bool
  hasAudio : Bool
  videoCodecId : CodecId
  audioCodecId : SoundFormat

structure FlvDecoders where
  metadata : FlvTag → Option FlvMetaData
  audioSpecificConfig : Bytes → Bool
  avcConfigurationRecord : Bytes → Bool
  hevcConfigurationRecord : Bytes → Bool

structure FlvMediaSource where
  flvTags : SequencePktBuf FlvTag 2048 := {}
  metadata : Option FlvMetaData := none
  videoHeader : Option FlvTag := none
  audioHeader : Option FlvTag := none
  keyframeIndexes : List ℕ := []
  latestFrameIndex : ℕ := 0
  videoCodec : Option VideoCodec := none
  audioCodec : Option AudioCodec := none
  hasVideo : Bool := false
  hasAudio : Bool := false
  videoReady : Bool := false
  audioReady : Bool := false
  streamReady : Bool := false
  latestVideoTimestamp : BitVec 32 := 0
  latestAudioTimestamp : BitVec 32 := 0

namespace FlvMediaSource

def addPkt (s : FlvMediaSource) (tag : FlvTag) : FlvMediaSource :=
  { s with
    flvTags := s.flvTags.addPkt tag
    latestFrameIndex := (s.flvTags.addPkt tag).indexes }

def updateStreamReady (s : FlvMediaSource) : FlvMediaSource :=
  { s with
    streamReady := s.streamReady ||
      (s.metadata.isSome && (if s.hasAudio then s.audioReady else true) &&
        (if s.hasVideo then s.videoReady else true)) }

def videoCodecOf (old : Option VideoCodec) : CodecId → Option VideoCodec
  | .avc => some .h264
  | .hevc => some .hevc
  | .hevcFourcc => some .hevc
  | .other _ => old

def setAudioCodec (s : FlvMediaSource) : SoundFormat → FlvMediaSource
  | .aac => { s with audioCodec := some .aac }
  | .mp3 => { s with audioCodec := some .mp3, audioReady := true }
  | .g711ALawPcm => { s with audioCodec := some .g711a, audioReady := true }
  | .g711MuLawPcm => { s with audioCodec := some .g711u, audioReady := true }
  | .other _ => s

/-- Unlike the RTMP source, this one forgets its metadata if new metadata
cannot be decoded, and accepts codecs it does not know. -/
def onMetadata (s : FlvMediaSource) (d : FlvDecoders) (tag : FlvTag) : Bool × FlvMediaSource :=
  match d.metadata tag with
  | none => (false, { s with metadata := none })
  | some m =>
    let s := { s with metadata := some m, hasVideo := m.hasVideo, hasAudio := m.hasAudio }
    let s := if m.hasVideo then { s with videoCodec := videoCodecOf s.videoCodec m.videoCodecId } else s
    (true, if m.hasAudio then s.setAudioCodec m.audioCodecId else s)

def onAudioPacket (s : FlvMediaSource) (d : FlvDecoders) (tag : FlvTag) (header : AudioTagHeader) :
    Bool × FlvMediaSource :=
  if header.soundFormat = .aac ∧ header.isSeqHeader then
    let s := { s with audioHeader := some tag }
    if d.audioSpecificConfig tag.payload then
      let s := if s.audioCodec.isSome then { s with audioReady := true } else s
      (true, ({ s with flvTags := s.flvTags.clear }.addPkt tag).updateStreamReady)
    else (false, s)
  else
    let s := (s.addPkt tag).updateStreamReady
    (true, { s with latestAudioTimestamp := tag.timestamp })

def acceptConfig (d : FlvDecoders) (codec : Option VideoCodec) (record : Bytes) : Bool :=
  match codec with
  | some .h264 => d.avcConfigurationRecord record
  | some .hevc => d.hevcConfigurationRecord record
  | none => true

def onVideoPacket (s : FlvMediaSource) (d : FlvDecoders) (tag : FlvTag) (header : VideoTagHeader) :
    Bool × FlvMediaSource :=
  if header.isSeqHeader then
    let s := { s with videoHeader := some tag }
    if acceptConfig d s.videoCodec tag.payload then
      (true, ({ s with videoReady := true, flvTags := s.flvTags.clear }.addPkt tag).updateStreamReady)
    else (false, s)
  else
    let s := (s.addPkt tag).updateStreamReady
    let s :=
      if header.isKeyFrame then
        { s with keyframeIndexes := pushBack 200 s.keyframeIndexes s.latestFrameIndex }
      else s
    (true, { s with latestVideoTimestamp := tag.timestamp + BitVec.ofNat 32 header.compositionTime })

def headerTags (s : FlvMediaSource) : List (Option FlvTag) :=
  (s.metadata.bind FlvMetaData.cacheFlvTag) ::
    ((if s.hasVideo then s.videoHeader.toList.map some else []) ++
      (if s.hasAudio then s.audioHeader.toList.map some else []))

/-- The difference is unsigned here, since `get_dts` returns a `uint32_t`. -/
def oldVideo (s : FlvMediaSource) (tag : FlvTag) : Bool :=
  2000 ≤ (s.latestVideoTimestamp - tag.dts).toNat

def oldAudio (s : FlvMediaSource) (tag : FlvTag) : Bool :=
  1 ≤ (s.latestAudioTimestamp - tag.dts).toNat

def startIdx (s : FlvMediaSource) : Option ℕ :=
  if s.hasVideo then keyframeStart s.flvTags.getPkt s.oldVideo s.keyframeIndexes
  else audioStart s.flvTags.getPkt s.oldAudio s.flvTags.indexes

structure Pkts where
  headers : List (Option FlvTag)
  av : List FlvTag
  lastPktIndex : Option ℕ

/-- The first call skips empty slots, as the RTMP source does; the calls that
continue give up at an empty slot. -/
def getPkts (s : FlvMediaSource) (lastPktIndex : Option ℕ) (maxCount : ℕ) : Pkts :=
  match lastPktIndex with
  | none =>
    if s.streamReady then
      match s.startIdx with
      | none => ⟨[], [], none⟩
      | some start =>
        let r := collect s.flvTags.getPkt (s.latestFrameIndex + 1 - start) start maxCount
        ⟨s.headerTags, r.1, some r.2⟩
    else ⟨[], [], none⟩
  | some start =>
    let r := collectUntilGap s.flvTags.getPkt (s.latestFrameIndex + 1 - start) start maxCount
    ⟨[], r.1, some r.2⟩

end FlvMediaSource

open FlvMediaSource

/-- The source, and the number of the newest packet when an accepted sequence
header last cleared the ring. -/
structure Stream where
  source : FlvMediaSource := {}
  clearedAt : ℕ := 0

def audioClears (s : FlvMediaSource) (d : FlvDecoders) (tag : FlvTag) (header : AudioTagHeader) :
    Bool :=
  header.soundFormat = .aac ∧ header.isSeqHeader ∧ (s.onAudioPacket d tag header).1

def videoClears (s : FlvMediaSource) (d : FlvDecoders) (tag : FlvTag) (header : VideoTagHeader) :
    Bool :=
  header.isSeqHeader ∧ (s.onVideoPacket d tag header).1

def Stream.next (r : Stream) (s : FlvMediaSource) (clears : Bool) : Stream where
  source := s
  clearedAt := if clears then r.source.latestFrameIndex else r.clearedAt

inductive Publishes (d : FlvDecoders) (r : Stream) : Stream → Prop
  | metadata (tag : FlvTag) (payload : Bytes) : tag.tagData = .script payload →
      Publishes d r (r.next (r.source.onMetadata d tag).2 false)
  | audio (tag : FlvTag) (header : AudioTagHeader) (payload : Bytes) : tag.tagData = .audio header payload →
      Publishes d r (r.next (r.source.onAudioPacket d tag header).2 (audioClears r.source d tag header))
  | video (tag : FlvTag) (header : VideoTagHeader) (payload : Bytes) : tag.tagData = .video header payload →
      Publishes d r (r.next (r.source.onVideoPacket d tag header).2 (videoClears r.source d tag header))

def Reachable (d : FlvDecoders) (r : Stream) : Prop := Relation.ReflTransGen (Publishes d) {} r

inductive RingChange (s t : FlvMediaSource) : Bool → Prop
  | same : t.flvTags = s.flvTags → t.latestFrameIndex = s.latestFrameIndex → RingChange s t false
  | add (tag : FlvTag) : t.flvTags = s.flvTags.addPkt tag →
      t.latestFrameIndex = s.flvTags.indexes + 1 →
      RingChange s t false
  | clear (tag : FlvTag) : t.flvTags = s.flvTags.clear.addPkt tag →
      t.latestFrameIndex = s.flvTags.indexes + 1 →
      RingChange s t true

@[simp] theorem setAudioCodec_flvTags (s : FlvMediaSource) (f : SoundFormat) :
    (s.setAudioCodec f).flvTags = s.flvTags := by
  cases f <;> rfl

@[simp] theorem setAudioCodec_latestFrameIndex (s : FlvMediaSource) (f : SoundFormat) :
    (s.setAudioCodec f).latestFrameIndex = s.latestFrameIndex := by
  cases f <;> rfl

theorem onMetadata_ring (s : FlvMediaSource) (d : FlvDecoders) (tag : FlvTag) :
    RingChange s (s.onMetadata d tag).2 false := by
  unfold onMetadata
  cases d.metadata tag with
  | none => exact .same rfl rfl
  | some m =>
    cases hv : m.hasVideo <;> cases ha : m.hasAudio <;> apply RingChange.same <;> simp [hv, ha]

theorem onAudioPacket_ring (s : FlvMediaSource) (d : FlvDecoders) (tag : FlvTag)
    (header : AudioTagHeader) :
    RingChange s (s.onAudioPacket d tag header).2 (audioClears s d tag header) := by
  by_cases hseq : header.soundFormat = .aac ∧ header.isSeqHeader
  · cases hconf : d.audioSpecificConfig tag.payload with
    | true =>
      have hclears : audioClears s d tag header = true := by
        simp [audioClears, onAudioPacket, hseq, hconf]
      rw [hclears, onAudioPacket, if_pos hseq, if_pos hconf]
      cases s.audioCodec <;> exact .clear tag rfl rfl
    | false =>
      have hclears : audioClears s d tag header = false := by
        simp [audioClears, onAudioPacket, hseq, hconf]
      rw [hclears]
      apply RingChange.same <;> simp [onAudioPacket, hseq, hconf]
  · have hclears : audioClears s d tag header = false := by
      unfold audioClears
      rw [decide_eq_false_iff_not]
      intro h
      exact hseq ⟨h.1, h.2.1⟩
    rw [hclears, onAudioPacket, if_neg hseq]
    exact .add tag rfl rfl

theorem onVideoPacket_ring (s : FlvMediaSource) (d : FlvDecoders) (tag : FlvTag)
    (header : VideoTagHeader) :
    RingChange s (s.onVideoPacket d tag header).2 (videoClears s d tag header) := by
  cases hseq : header.isSeqHeader with
  | true =>
    cases hconf : acceptConfig d s.videoCodec tag.payload with
    | true =>
      have hclears : videoClears s d tag header = true := by
        simp [videoClears, onVideoPacket, hseq, hconf]
      rw [hclears, onVideoPacket, if_pos hseq, if_pos hconf]
      exact .clear tag rfl rfl
    | false =>
      have hclears : videoClears s d tag header = false := by
        simp [videoClears, onVideoPacket, hseq, hconf]
      rw [hclears]
      apply RingChange.same <;> simp [onVideoPacket, hseq, hconf]
  | false =>
    have hclears : videoClears s d tag header = false := by simp [videoClears, hseq]
    rw [hclears, onVideoPacket, if_neg (by rw [hseq]; decide)]
    cases header.isKeyFrame <;> exact .add tag rfl rfl

theorem Publishes.ring {d : FlvDecoders} {r r' : Stream} (h : Publishes d r r') :
    ∃ clears, RingChange r.source r'.source clears ∧ r' = r.next r'.source clears := by
  cases h with
  | metadata tag _ _ => exact ⟨false, onMetadata_ring r.source d tag, rfl⟩
  | audio tag header _ _ => exact ⟨_, onAudioPacket_ring r.source d tag header, rfl⟩
  | video tag header _ _ => exact ⟨_, onVideoPacket_ring r.source d tag header, rfl⟩

/-- The ring shows the published packets that are newer than the last clearing,
of which there is one as soon as anything is published. -/
theorem reachable_holds {d : FlvDecoders} {r : Stream} (h : Reachable d r) :
    ∃ log, Holds r.source.flvTags log r.clearedAt ∧ r.source.latestFrameIndex = log.length ∧
      (0 < log.length → r.clearedAt < log.length) := by
  induction h with
  | refl => exact ⟨[], holds_init, rfl, fun h ↦ by cases h⟩
  | @tail r r' _ hp ih =>
    obtain ⟨log, hh, hl, hnew⟩ := ih
    obtain ⟨clears, hring, hr'⟩ := hp.ring
    have hlen (tag : FlvTag) : (log ++ [tag]).length = log.length + 1 := by
      rw [List.length_append, List.length_singleton]
    have hle := hh.cleared_le
    cases hring with
    | same hr hi =>
      have hcl : r'.clearedAt = r.clearedAt := by rw [hr']; rfl
      rw [hr, hi, hcl]
      exact ⟨log, hh, hl, hnew⟩
    | add tag hr hi =>
      have hcl : r'.clearedAt = r.clearedAt := by rw [hr']; rfl
      rw [hr, hi, hcl]
      exact ⟨log ++ [tag], holds_addPkt hh tag, by rw [hh.indexes_eq, hlen], by rw [hlen]; omega⟩
    | clear tag hr hi =>
      have hcl : r'.clearedAt = log.length := by rw [hr', ← hl]; rfl
      rw [hr, hi, hcl]
      exact ⟨log ++ [tag], holds_addPkt (holds_clear hh) tag, by rw [hh.indexes_eq, hlen],
        by rw [hlen]; omega⟩

/-- A reader at `c` moves on exactly if the ring was not cleared since the newest
packet in the slot of `c` was published. On the same ring the loop of the RTMP
source always moves on. -/
theorem flv_reader_progress_iff (d : FlvDecoders) (r : Stream) (h : Reachable d r) (c maxCount : ℕ)
    (hc : c ≤ r.source.latestFrameIndex) (hmax : 0 < maxCount) :
    ((r.source.getPkts (some c) maxCount).av ≠ [] ↔
      r.clearedAt < sameSlot 2048 r.source.latestFrameIndex c) ∧
    (0 < r.source.latestFrameIndex →
      (collect r.source.flvTags.getPkt (r.source.latestFrameIndex + 1 - c) c maxCount).1 ≠ []) := by
  obtain ⟨log, hh, hl, hnew⟩ := reachable_holds h
  constructor
  · apply (collectUntilGap_ne_nil_iff r.source.flvTags.getPkt hmax (by omega)).trans
    rw [hl] at hc ⊢
    rw [hh.getPkt_eq (by decide) hc]
    split
    · rename_i hlt
      have hsome := entry_isSome (by omega) (sameSlot_le 2048 log.length c)
      exact iff_of_true hsome hlt
    · rename_i hlt
      exact iff_of_false (by decide) hlt
  · intro hpos
    have hsome := hh.newest (by decide) (hnew (by omega))
    exact collect_ne_nil r.source.flvTags.getPkt hmax (by omega) (by omega) hsome

section Stuck

def scriptTag : FlvTag := ⟨⟨Rtmp.FlvBridge.scriptTag, 0, 0, 0⟩, .script [], 0⟩

def avcDecoders : FlvDecoders where
  metadata tag := if tag = scriptTag then some ⟨some tag, true, false, .avc, .other 0⟩ else none
  audioSpecificConfig bs := 2 ≤ bs.length
  avcConfigurationRecord bs := 7 ≤ bs.length
  hevcConfigurationRecord bs := 23 ≤ bs.length

def avcSeqHeader : VideoTagHeader := { frameType := .keyFrame, avcPacketType := 0 }

def avcKeyFrame : VideoTagHeader := { frameType := .keyFrame, avcPacketType := 1 }

def avcInterFrame : VideoTagHeader := { frameType := .interFrame, avcPacketType := 1 }

def avcTag (header : VideoTagHeader) (t : BitVec 32) (bs : Bytes) : FlvTag :=
  ⟨⟨Rtmp.FlvBridge.videoTag, 5 + bs.length, t, 0⟩, .video header bs, t⟩

def avcConfig : Bytes :=
  [1, 0x42, 0, 0x1e, 0xff, 0xe1, 0, 4, 0x67, 0x42, 0, 0x1e, 1, 0, 4, 0x68, 0xce, 0x3c, 0x80]

def publishVideo (r : Stream) (header : VideoTagHeader) (t : BitVec 32) (bs : Bytes) : Stream :=
  r.next (r.source.onVideoPacket avcDecoders (avcTag header t bs) header).2
    (videoClears r.source avcDecoders (avcTag header t bs) header)

def announced : Stream :=
  ({} : Stream).next (({} : FlvMediaSource).onMetadata avcDecoders scriptTag).2 false

def playing : Stream :=
  publishVideo (publishVideo (publishVideo announced avcSeqHeader 0 avcConfig) avcKeyFrame 0 [0, 0, 0, 1, 0x65])
    avcInterFrame 2500 [0, 0, 0, 1, 0x41]

/-- The encoder repeats its sequence header, which clears the ring. -/
def cleared : Stream := publishVideo playing avcSeqHeader 2540 avcConfig

theorem publishVideo_reachable {r : Stream} (h : Reachable avcDecoders r) (header : VideoTagHeader)
    (t : BitVec 32) (bs : Bytes) : Reachable avcDecoders (publishVideo r header t bs) :=
  h.tail (.video (avcTag header t bs) header bs rfl)

theorem playing_reachable : Reachable avcDecoders playing := by
  have h : Reachable avcDecoders announced := Relation.ReflTransGen.single (.metadata scriptTag [] rfl)
  apply publishVideo_reachable
  apply publishVideo_reachable
  apply publishVideo_reachable h

theorem flv_reader_progress_playing :
    Reachable avcDecoders playing ∧ 3 ≤ playing.source.latestFrameIndex ∧
    (((playing.source.getPkts (some 3) 20).av ≠ [] ↔
      playing.clearedAt < sameSlot 2048 playing.source.latestFrameIndex 3) ∧
    (0 < playing.source.latestFrameIndex →
      (collect playing.source.flvTags.getPkt (playing.source.latestFrameIndex + 1 - 3) 3 20).1 ≠ [])) :=
  ⟨playing_reachable, by decide +kernel,
    flv_reader_progress_iff avcDecoders playing playing_reachable 3 20 (by decide +kernel) (by decide)⟩

/-- A reader that got the key frame stands at 3 when the ring is cleared, and
stays there. -/
theorem flv_reader_stuck : Reachable avcDecoders cleared ∧
    (playing.source.getPkts none 1).lastPktIndex = some 3 ∧ 3 ≤ cleared.source.latestFrameIndex ∧
    (cleared.source.getPkts (some 3) 20).av = [] ∧
    (cleared.source.getPkts (some 3) 20).lastPktIndex = some 3 ∧
    (collect cleared.source.flvTags.getPkt (cleared.source.latestFrameIndex + 1 - 3) 3 20).1 =
      [avcTag avcSeqHeader 2540 avcConfig] :=
  ⟨publishVideo_reachable playing_reachable _ _ _, by decide +kernel, by decide +kernel,
    by decide +kernel, by decide +kernel, by decide +kernel⟩

end Stuck

end MmsServer.Core.FlvSource
