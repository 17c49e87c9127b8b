import MmsServer.Base.SequenceBuf
import MmsServer.Core.StartSearch
import MmsServer.Rtmp.Define
import MmsServer.Rtmp.FlvTag

namespace MmsServer.Core.RtmpSource

open Lib.ByteReader Lib.NumberedLog Base.SequenceBuf StartSearch Rtmp.Define Rtmp.FlvTag

inductive VideoCodec
  | h264
  | hevc
deriving DecidableEq

inductive AudioCodec
  | aac
  | mp3
  | g711a
  | g711u
deriving DecidableEq

structure RtmpMetaDataMessage where
  cacheMsg : Option RtmpMessage
  hasVideo : Bool
  hasAudio : Bool
  videoCodecId : CodecId
  audioCodecId : SoundFormat

/-- The decoders that the source calls: whether they succeed, and what the
metadata says. -/
structure Decoders where
  metadata : RtmpMessage → Bool × RtmpMetaDataMessage
  audioSpecificConfig : Bytes → Bool
  avcConfigurationRecord : Bytes → Bool
  hevcConfigurationRecord : Bytes → Bool

structure RtmpMediaSource where
  avPkts : SequencePktBuf RtmpMessage 1024 := {}
  metadata : Option RtmpMetaDataMessage := none
  videoHeader : Option RtmpMessage := none
  audioHeader : Option RtmpMessage := none
  keyframeIndexes : List ℕ := []
  latestFrameIndex : ℕ := 0
  videoCodec : Option VideoCodec := none
  audioCodec : Option AudioCodec := none
  hasVideo : Bool := false
  hasAudio : Bool := false
  videoReady : Bool := false
  audioReady : Bool := false
  streamReady : Bool := false
  latestVideoTimestamp : BitVec 32 := 0
  latestAudioTimestamp : BitVec 32 := 0

namespace RtmpMediaSource

def addPkt (s : RtmpMediaSource) (pkt : RtmpMessage) : RtmpMediaSource :=
  { s with
    avPkts := s.avPkts.addPkt pkt
    latestFrameIndex := (s.avPkts.addPkt pkt).indexes }

def updateStreamReady (s : RtmpMediaSource) : RtmpMediaSource :=
  { s with
    streamReady := s.streamReady ||
      (s.metadata.isSome && (if s.hasAudio then s.audioReady else true) &&
        (if s.hasVideo then s.videoReady else true)) }

def onAudioPacket (s : RtmpMediaSource) (d : Decoders) (audioPkt : RtmpMessage) :
    Bool × RtmpMediaSource :=
  match AudioTagHeader.decode audioPkt.usingData with
  | .error _ => (false, s)
  | .ok (header, headerConsumed) =>
    if !s.audioReady && header.soundFormat ≠ .aac then
      let s := ({ s with audioReady := true }.addPkt audioPkt).updateStreamReady
      (true, { s with latestAudioTimestamp := audioPkt.timestamp })
    else if header.soundFormat = .aac ∧ header.isSeqHeader then
      let s := { s with audioHeader := some audioPkt }
      if d.audioSpecificConfig (audioPkt.usingData.drop headerConsumed) then
        let s := if s.audioCodec.isSome then { s with audioReady := true } else s
        (true, ({ s with avPkts := s.avPkts.clear }.addPkt audioPkt).updateStreamReady)
      else (false, s)
    else
      let s := (s.addPkt audioPkt).updateStreamReady
      (true, { s with latestAudioTimestamp := audioPkt.timestamp })

def chooseVideoCodec (codec : Option VideoCodec) (codecId : CodecId) : Option VideoCodec :=
  match codec, codecId with
  | some c, _ => some c
  | none, .avc => some .h264
  | none, .hevc => some .hevc
  | none, .hevcFourcc => some .hevc
  | none, .other _ => none

/-- Whether the configuration record of a sequence header is accepted. A record
of another codec than the chosen one is not looked at. -/
def acceptConfig (d : Decoders) (codec : VideoCodec) (codecId : CodecId) (record : Bytes) : Bool :=
  match codecId, codec with
  | .avc, .h264 => d.avcConfigurationRecord record
  | .hevc, .hevc => d.hevcConfigurationRecord record
  | .hevcFourcc, .hevc => d.hevcConfigurationRecord record
  | _, _ => true

def onVideoPacket (s : RtmpMediaSource) (d : Decoders) (videoPkt : RtmpMessage) :
    Bool × RtmpMediaSource :=
  match VideoTagHeader.decode videoPkt.usingData with
  | .error _ => (false, s)
  | .ok (header, headerConsumed) =>
    if header.isSeqHeader then
      let s :=
        { s with
          videoReady := true
          videoHeader := some videoPkt
          videoCodec := chooseVideoCodec s.videoCodec header.codecId }
      match s.videoCodec with
      | none => (false, s)
      | some codec =>
        if acceptConfig d codec header.codecId (videoPkt.usingData.drop headerConsumed) then
          (true, ({ s with avPkts := s.avPkts.clear }.addPkt videoPkt).updateStreamReady)
        else (false, s)
    else
      let s := s.addPkt videoPkt
      let s :=
        if header.isKeyFrame then
          { s with keyframeIndexes := pushBack 200 s.keyframeIndexes s.latestFrameIndex }
        else s
      let s := s.updateStreamReady
      (true, { s with latestVideoTimestamp := videoPkt.timestamp })

def setVideoCodec (s : RtmpMediaSource) : CodecId → Bool × RtmpMediaSource
  | .avc => (true, { s with videoCodec := some .h264 })
  | .hevc => (true, { s with videoCodec := some .hevc })
  | .hevcFourcc => (true, { s with videoCodec := some .hevc })
  | .other _ => (false, s)

def setAudioCodec (s : RtmpMediaSource) : SoundFormat → Bool × RtmpMediaSource
  | .aac => (true, { s with audioCodec := some .aac })
  | .mp3 => (true, { s with audioCodec := some .mp3, audioReady := true })
  | .g711ALawPcm => (true, { s with audioCodec := some .g711a, audioReady := true })
  | .g711MuLawPcm => (true, { s with audioCodec := some .g711u, audioReady := true })
  | .other _ => (false, s)

def onMetadata (s : RtmpMediaSource) (d : Decoders) (metadataPkt : RtmpMessage) :
    Bool × RtmpMediaSource :=
  let (ok, m) := d.metadata metadataPkt
  let s := { s with metadata := some m }
  if !ok then (false, s)
  else
    let s := { s with hasVideo := m.hasVideo, hasAudio := m.hasAudio }
    let (ok, s) := if m.hasVideo then s.setVideoCodec m.videoCodecId else (true, s)
    if !ok then (false, s)
    else if m.hasAudio then s.setAudioCodec m.audioCodecId else (true, s)

def headerPkts (s : RtmpMediaSource) : List (Option RtmpMessage) :=
  (s.metadata.bind RtmpMetaDataMessage.cacheMsg) ::
    ((if s.hasVideo then s.videoHeader.toList.map some else []) ++
      (if s.hasAudio then s.audioHeader.toList.map some else []))

def oldVideo (s : RtmpMediaSource) (pkt : RtmpMessage) : Bool :=
  2000 ≤ (s.latestVideoTimestamp - pkt.timestamp).toInt

def oldAudio (s : RtmpMediaSource) (pkt : RtmpMessage) : Bool :=
  1 ≤ (s.latestAudioTimestamp - pkt.timestamp).toInt

def startIdx (s : RtmpMediaSource) : Option ℕ :=
  if s.hasVideo then keyframeStart s.avPkts.getPkt s.oldVideo s.keyframeIndexes
  else audioStart s.avPkts.getPkt s.oldAudio s.avPkts.indexes

structure Pkts where
  headers : List (Option RtmpMessage)
  av : List RtmpMessage
  lastPktIndex : Option ℕ

def readFrom (s : RtmpMediaSource) (start maxCount : ℕ) : List RtmpMessage × ℕ :=
  collect s.avPkts.getPkt (s.latestFrameIndex + 1 - start) start maxCount

/-- The cursor of a reader is `none` for -1. -/
def getPkts (s : RtmpMediaSource) (lastPktIndex : Option ℕ) (maxCount : ℕ) : Pkts :=
  match lastPktIndex with
  | none =>
    if s.streamReady then
      match s.startIdx with
      | none => ⟨[], [], none⟩
      | some start =>
        ⟨s.headerPkts, (s.readFrom start maxCount).1, some (s.readFrom start maxCount).2⟩
    else ⟨[], [], none⟩
  | some start => ⟨[], (s.readFrom start maxCount).1, some (s.readFrom start maxCount).2⟩

end RtmpMediaSource

open RtmpMediaSource

theorem getPkts_cases (s : RtmpMediaSource) (lastPktIndex : Option ℕ) (maxCount : ℕ) :
    (lastPktIndex = none ∧ s.getPkts lastPktIndex maxCount = ⟨[], [], none⟩) ∨
    ∃ start, (lastPktIndex = some start ∨
      (lastPktIndex = none ∧ s.streamReady = true ∧ s.startIdx = some start)) ∧
      (s.getPkts lastPktIndex maxCount).av = (s.readFrom start maxCount).1 ∧
      (s.getPkts lastPktIndex maxCount).lastPktIndex = some (s.readFrom start maxCount).2 := by
  unfold getPkts
  split
  · split
    · rename_i hready
      split
      · exact Or.inl ⟨rfl, rfl⟩
      · rename_i start hstart
        exact Or.inr ⟨start, Or.inr ⟨rfl, hready, hstart⟩, rfl, rfl⟩
    · exact Or.inl ⟨rfl, rfl⟩
  · rename_i start
    exact Or.inr ⟨start, Or.inl rfl, rfl, rfl⟩

def isVideo (m : RtmpMessage) : Bool := m.messageTypeId == 9

def isSeqHeader (m : RtmpMessage) : Bool :=
  match VideoTagHeader.decode m.usingData with
  | .ok (h, _) => h.isSeqHeader
  | .error _ => false

def isKeyFrame (m : RtmpMessage) : Bool :=
  match VideoTagHeader.decode m.usingData with
  | .ok (h, _) => h.isKeyFrame && !h.isSeqHeader
  | .error _ => false

/-- One call of the publisher, with the packet that it adds to the ring. The
session dispatches audio messages (type 8) and video messages (type 9). -/
inductive Publishes (d : Decoders) (s : RtmpMediaSource) :
    Option RtmpMessage → RtmpMediaSource → Prop
  | metadata (m : RtmpMessage) : Publishes d s none (s.onMetadata d m).2
  | audio (m : RtmpMessage) : m.messageTypeId = 8 →
      Publishes d s (if (s.onAudioPacket d m).1 then some m else none) (s.onAudioPacket d m).2
  | video (m : RtmpMessage) : m.messageTypeId = 9 →
      Publishes d s (if (s.onVideoPacket d m).1 then some m else none) (s.onVideoPacket d m).2

structure SameRing (s t : RtmpMediaSource) : Prop where
  avPkts : t.avPkts = s.avPkts
  latest : t.latestFrameIndex = s.latestFrameIndex
  keyframes : t.keyframeIndexes = s.keyframeIndexes

inductive RingChange (s : RtmpMediaSource) : Option RtmpMessage → RtmpMediaSource → Prop
  | same {t : RtmpMediaSource} : SameRing s t → RingChange s none t
  | add {t : RtmpMediaSource} {buf : SequencePktBuf RtmpMessage 1024} {pkt : RtmpMessage} :
      buf = s.avPkts ∨ buf = s.avPkts.clear → t.avPkts = buf.addPkt pkt →
      t.latestFrameIndex = buf.indexes + 1 →
      (t.keyframeIndexes = s.keyframeIndexes ∨ (isVideo pkt ∧ isKeyFrame pkt ∧
        t.keyframeIndexes = pushBack 200 s.keyframeIndexes (buf.indexes + 1))) →
      RingChange s (some pkt) t

theorem setVideoCodec_same {s t : RtmpMediaSource} (h : SameRing s t) (c : CodecId) :
    SameRing s (t.setVideoCodec c).2 := by
  cases c <;> exact ⟨h.avPkts, h.latest, h.keyframes⟩

theorem setAudioCodec_same {s t : RtmpMediaSource} (h : SameRing s t) (c : SoundFormat) :
    SameRing s (t.setAudioCodec c).2 := by
  cases c <;> exact ⟨h.avPkts, h.latest, h.keyframes⟩

theorem onMetadata_same (d : Decoders) (s : RtmpMediaSource) (m : RtmpMessage) :
    SameRing s (s.onMetadata d m).2 := by
  unfold onMetadata
  dsimp only
  split
  · exact ⟨rfl, rfl, rfl⟩
  · split
    · have h := setVideoCodec_same (s := s)
        (t := { s with
          metadata := some (d.metadata m).2
          hasVideo := (d.metadata m).2.hasVideo
          hasAudio := (d.metadata m).2.hasAudio }) ⟨rfl, rfl, rfl⟩ (d.metadata m).2.videoCodecId
      split
      · exact h
      · split
        · exact setAudioCodec_same h _
        · exact h
    · split
      · exact ⟨rfl, rfl, rfl⟩
      · split
        · apply setAudioCodec_same
          exact ⟨rfl, rfl, rfl⟩
        · exact ⟨rfl, rfl, rfl⟩

theorem onAudioPacket_ring (d : Decoders) (s : RtmpMediaSource) (m : RtmpMessage) :
    RingChange s (if (s.onAudioPacket d m).1 then some m else none) (s.onAudioPacket d m).2 := by
  unfold onAudioPacket
  cases AudioTagHeader.decode m.usingData with
  | error e => exact .same ⟨rfl, rfl, rfl⟩
  | ok r =>
    dsimp only
    split
    · exact .add (.inl rfl) rfl rfl (.inl rfl)
    · split
      · split
        · split <;> exact .add (.inr rfl) rfl rfl (.inl rfl)
        · exact .same ⟨rfl, rfl, rfl⟩
      · exact .add (.inl rfl) rfl rfl (.inl rfl)

theorem onVideoPacket_ring (d : Decoders) (s : RtmpMediaSource) (m : RtmpMessage)
    (hm : m.messageTypeId = 9) :
    RingChange s (if (s.onVideoPacket d m).1 then some m else none) (s.onVideoPacket d m).2 := by
  unfold onVideoPacket
  cases hh : VideoTagHeader.decode m.usingData with
  | error e => exact .same ⟨rfl, rfl, rfl⟩
  | ok r =>
    dsimp only
    split
    · split
      · exact .same ⟨rfl, rfl, rfl⟩
      · split
        · exact .add (.inr rfl) rfl rfl (.inl rfl)
        · exact .same ⟨rfl, rfl, rfl⟩
    · rename_i hseq
      split
      · rename_i hkey
        refine .add (.inl rfl) rfl rfl (.inr ⟨?_, ?_, ?_⟩)
        · rw [isVideo, hm]
          rfl
        · rw [isKeyFrame, hh]
          simp only [hkey, hseq]
          rfl
        · simp only [updateStreamReady, addPkt, SequencePktBuf.addPkt]
      · exact .add (.inl rfl) rfl rfl (.inl rfl)

theorem Publishes.ring {d : Decoders} {s t : RtmpMediaSource} {pkt : Option RtmpMessage}
    (h : Publishes d s pkt t) : RingChange s pkt t := by
  cases h with
  | metadata m => exact .same (onMetadata_same d s m)
  | audio m _ => exact onAudioPacket_ring d s m
  | video m hm => exact onVideoPacket_ring d s m hm

end MmsServer.Core.RtmpSource
