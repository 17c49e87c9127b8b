import Mathlib.Data.List.SplitLengths
import MmsServer.M4s.InitSegment
import MmsServer.Mp4.FragmentBoxes
import MmsServer.Rtmp.FlvTag

namespace MmsServer.M4s.MediaSegment

open Lib.ByteReader Lib.Checked Lib.ByteLayout Lib.ByteLayout.Layout Mp4.Base Mp4.MovieBoxes
  Mp4.FragmentBoxes Rtmp.FlvTag InitSegment

section Reap

/-- The members of `RtmpMessage` that a segment is made from. -/
structure Packet where
  timestamp : BitVec 32
  payload : Bytes

def Packet.time (p : Packet) : BitVec 64 := p.timestamp.signExtend 64

theorem Packet.toInt_time (p : Packet) : p.time.toInt = p.timestamp.toInt :=
  BitVec.toInt_signExtend_of_le (by decide)

/-- What differs between `reap_video_seg` and `reap_audio_seg`. `header` gives what
`decode` of the tag header returns, and the composition time of the sample;
`indexEnd` is the end of the subsegment in the index, from the last packet and `dts`. -/
structure Track where
  id : BitVec 32
  header : Bytes → ℤ × BitVec 64
  indexEnd : Packet → BitVec 64 → BitVec 64

def videoHeader (payload : Bytes) : ℤ × BitVec 64 :=
  match VideoTagHeader.decode payload with
  | .ok (header, consumed) => (consumed, BitVec.ofNat 64 header.compositionTime)
  | .error e => (e, 0)

def audioHeader (payload : Bytes) : ℤ × BitVec 64 :=
  match AudioTagHeader.decode payload with
  | .ok (_, consumed) => (consumed, 0)
  | .error e => (e, 0)

def videoTrack : Track where
  id := videoTrackId
  header := videoHeader
  indexEnd last _ := last.time

def audioTrack : Track where
  id := audioTrackId
  header := audioHeader
  indexEnd _ dts := dts

def Track.headerConsumed (t : Track) (p : Packet) : ℤ := (t.header p.payload).1

def Track.frameData (t : Track) (p : Packet) : Bytes := p.payload.drop (t.headerConsumed p).toNat

/-- A sample lasts until the next one, and the last one until `dts`. -/
def sampleDuration (dts : BitVec 64) (p : Packet) : List Packet → BitVec 32
  | [] => (dts - p.time).setWidth 32
  | next :: _ => next.timestamp - p.timestamp

def Track.trunEntries (t : Track) (dts : BitVec 64) (flags : BitVec 32) : List Packet → List TrunEntry
  | [] => []
  | p :: ps =>
    { sampleDuration := sampleDuration dts p ps
      sampleSize := BitVec.ofInt 32 (p.payload.length - t.headerConsumed p)
      sampleFlags := flags
      sampleCompositionTimeOffset := (t.header p.payload).2 } :: t.trunEntries dts 0x01000000 ps

structure SegmentMemory where
  styp : Box
  sidx : Box
  moof : Box
  mfhd : MfhdBox
  traf : Box
  tfhd : TfhdBox
  tfdt : TfdtBox
  trun : TrunBox
  mdat : Box
deriving Inhabited

def SegmentMemory.boxes (m : SegmentMemory) : List Box :=
  [m.styp, m.sidx, m.moof, m.mfhd.toBox, m.traf, m.tfhd.toBox, m.tfdt.toBox, m.trun.toBox, m.mdat]

def brandMsdh : BitVec 32 := boxType 'm' 's' 'd' 'h'

def brandMsix : BitVec 32 := boxType 'm' 's' 'i' 'x'

def stypBox (m : SegmentMemory) : FtypBox :=
  { FtypBox.newStyp m.styp with
    majorBrand := brandMsdh
    minorVersion := 0
    compatibleBrands := [brandDash, brandMsdh, brandMsix] }

def sidxEntry (duration referencedSize : BitVec 32) : SegmentIndexEntry where
  referenceType := 0
  referencedSize := referencedSize
  subsegmentDuration := duration
  startsWithSap := 1
  sapType := 0
  sapDeltaTime := 0

def Track.sidxBox (t : Track) (m : SegmentMemory) (p : Packet) (ps : List Packet) (dts : BitVec 64)
    (referencedSize : BitVec 32) : SidxBox :=
  { SidxBox.new m.sidx with
    version := 1
    referenceId := t.id
    timescale := 1000
    earliestPresentationTime := p.time
    firstOffset := 0
    entries := [sidxEntry ((t.indexEnd (ps.getLastD p) dts - p.time).setWidth 32) referencedSize] }

def trunFlags : BitVec 32 :=
  trunDataOffset ||| trunSampleDuration ||| trunSampleSize ||| trunSampleFlag ||| trunSampleCtsOffset

/-- The version is 1 if an offset is negative. -/
def trunVersion (entries : List TrunEntry) : BitVec 8 :=
  if ∃ e ∈ entries, e.sampleCompositionTimeOffset.toInt < 0 then 1 else 0

def Track.trunBox (t : Track) (m : SegmentMemory) (pkts : List Packet) (dts : BitVec 64) : TrunBox :=
  let entries := t.trunEntries dts 0x02000000 pkts
  { TrunBox.new m.trun 0 with
    flags := trunFlags
    version := trunVersion entries
    entries := entries }

def Track.trafBox (t : Track) (m : SegmentMemory) (p : Packet) (trun : TrunBox) : TrafBox where
  toBox := .new m.traf (boxType 't' 'r' 'a' 'f')
  tfhd := some { TfhdBox.new m.tfhd 0 with trackId := t.id, flags := tfhdDefaultBaseIsMoof }
  tfdt := some { TfdtBox.new m.tfdt with baseMediaDecodeTime := p.time, version := 1 }
  trun := some trun

def Track.moofBox (t : Track) (m : SegmentMemory) (seqNo : BitVec 64) (p : Packet) (trun : TrunBox) :
    MoofBox where
  toBox := .new m.moof (boxType 'm' 'o' 'o' 'f')
  mfhd := some { MfhdBox.new m.mfhd with sequenceNumber := seqNo.setWidth 32 }
  traf := some (t.trafBox m p trun)

def Track.mdatBox (t : Track) (m : SegmentMemory) (pkts : List Packet) : MdatBox where
  toBox := .new m.mdat (boxType 'm' 'd' 'a' 't')
  datas := pkts.map t.frameData

structure DataSegment where
  styp : FtypBox
  sidx : SidxBox
  moof : MoofBox
  mdat : MdatBox

def DataSegment.boxes (s : DataSegment) : List AnyBox :=
  [s.styp.any, s.sidx.any, s.moof.any, s.mdat.any]

def DataSegment.baseMediaDecodeTime (s : DataSegment) : Option (BitVec 64) :=
  s.moof.traf.bind fun traf ↦ traf.tfdt.map TfdtBox.baseMediaDecodeTime

def DataSegment.sampleDurations (s : DataSegment) : List (BitVec 32) :=
  (s.moof.traf.bind TrafBox.trun).elim [] fun trun ↦ trun.entries.map TrunEntry.sampleDuration

/-- The packets are `p` and those behind it. The offset of the data and the size
in the index are known when the other boxes are made. -/
def Track.reapSeg (t : Track) (m : SegmentMemory) (seqNo : BitVec 64) (p : Packet) (ps : List Packet)
    (dts : BitVec 64) : DataSegment :=
  let trun := t.trunBox m (p :: ps) dts
  let mdat := t.mdatBox m (p :: ps)
  let mdatBytes := (trun.entries.map fun e ↦ (e.sampleSize.toNat : ℤ)).sum
  let mdatHeaderBytes := mdat.size - mdatBytes
  let moofBytes := (t.moofBox m seqNo p trun).any.size
  { styp := stypBox m
    sidx := t.sidxBox m p ps dts (BitVec.ofInt 32 (moofBytes + mdatHeaderBytes + mdatBytes))
    moof := t.moofBox m seqNo p { trun with dataOffset := BitVec.ofInt 32 (moofBytes + mdatHeaderBytes) }
    mdat := mdat }

def reapVideoSeg := videoTrack.reapSeg

def reapAudioSeg := audioTrack.reapSeg

end Reap

section Sound

variable {m : SegmentMemory} (t : Track)

theorem stypBox_sound (h : Uncached m.boxes) : (stypBox m).any.Sound := by
  have hfresh : (FtypBox.newStyp m.styp).toBox.Fresh :=
    .new (h _ (by simp [SegmentMemory.boxes])) (by decide)
  exact FtypBox.sound (stypBox m) hfresh

theorem sidxBox_sound (h : Uncached m.boxes) (p : Packet) (ps : List Packet) (dts : BitVec 64)
    (referencedSize : BitVec 32) : (t.sidxBox m p ps dts referencedSize).any.Sound := by
  have hfresh : (SidxBox.new m.sidx).toBox.Fresh :=
    .new (h _ (by simp [SegmentMemory.boxes])) (by decide)
  exact SidxBox.sound (t.sidxBox m p ps dts referencedSize) hfresh

theorem mdatBox_fresh (h : Uncached m.boxes) (pkts : List Packet) : (t.mdatBox m pkts).toBox.Fresh :=
  .new (h _ (by simp [SegmentMemory.boxes])) (by decide)

theorem trunBox_fresh (h : Uncached m.boxes) (pkts : List Packet) (dts : BitVec 64) :
    (t.trunBox m pkts dts).toBox.Fresh :=
  .new (h m.trun.toBox (by simp [SegmentMemory.boxes])) (by decide)

theorem moofBox_sound (h : Uncached m.boxes) (seqNo : BitVec 64) (p : Packet) {trun : TrunBox}
    (htrun : trun.toBox.Fresh) : (t.moofBox m seqNo p trun).any.Sound := by
  have hmfhd : (MfhdBox.new m.mfhd).toBox.Fresh :=
    .new (h m.mfhd.toBox (by simp [SegmentMemory.boxes])) (by decide)
  have htfhd : (TfhdBox.new m.tfhd 0).toBox.Fresh :=
    .new (h m.tfhd.toBox (by simp [SegmentMemory.boxes])) (by decide)
  have htfdt : (TfdtBox.new m.tfdt).toBox.Fresh :=
    .new (h m.tfdt.toBox (by simp [SegmentMemory.boxes])) (by decide)
  have htraf : (t.trafBox m p trun).any.Sound := by
    apply container_sound (.new (h _ (by simp [SegmentMemory.boxes])) (by decide))
    change ∀ b ∈ [TfhdBox.any _, TfdtBox.any _, trun.any], b.Sound
    rw [List.forall_mem_cons, List.forall_mem_cons, List.forall_mem_singleton]
    exact ⟨TfhdBox.sound _ htfhd, TfdtBox.sound _ htfdt, trun.sound htrun⟩
  apply container_sound (.new (h _ (by simp [SegmentMemory.boxes])) (by decide))
  change ∀ b ∈ [MfhdBox.any _, (t.trafBox m p trun).any], b.Sound
  rw [List.forall_mem_cons, List.forall_mem_singleton]
  exact ⟨MfhdBox.sound _ hmfhd, htraf⟩

theorem reapSeg_sound (h : Uncached m.boxes) (seqNo : BitVec 64) (p : Packet) (ps : List Packet)
    (dts : BitVec 64) : ∀ b ∈ (t.reapSeg m seqNo p ps dts).boxes, b.Sound := by
  rw [DataSegment.boxes, List.forall_mem_cons, List.forall_mem_cons, List.forall_mem_cons,
    List.forall_mem_singleton]
  exact ⟨stypBox_sound h, sidxBox_sound t h p ps dts _,
    moofBox_sound t h seqNo p (trunBox_fresh t h (p :: ps) dts),
    MdatBox.sound _ (mdatBox_fresh t h (p :: ps))⟩

/-- Every box of a segment that fits in its size field is written to the last byte
of its buffer, and it and the boxes in it announce their sizes. -/
def AnnouncesSizes (boxes : List AnyBox) : Prop := ∀ b ∈ boxes, b.size < maxSize → WritesExactly b

theorem announcesSizes {boxes : List AnyBox} (h : ∀ b ∈ boxes, b.Sound) : AnnouncesSizes boxes :=
  fun b hb hlt ↦ (h b hb).writesExactly hlt

theorem segments_announce_sizes :
    (∀ (m : MovieMemory) (t : TrakMemory) (e : VideoEntryMemory) (c : VideoConfig),
      Uncached m.boxes → Uncached t.boxes → Uncached [e.avc1.toBox, e.avcc] →
      AnnouncesSizes (generateH264VideoInitSeg m t e c)) ∧
    (∀ (m : MovieMemory) (t : TrakMemory) (e : AudioEntryMemory) (c : AudioConfig),
      Uncached m.boxes → Uncached t.boxes → Uncached [e.mp4a.toBox, e.esds.toBox] → c.Proper →
      AnnouncesSizes (generateAudioInitSeg m t e c)) ∧
    (∀ (m : MovieMemory) (vt at' : TrakMemory) (ve : VideoEntryMemory) (ae : AudioEntryMemory)
      (vc : VideoConfig) (ac : AudioConfig), Uncached m.boxes → Uncached vt.boxes →
      Uncached at'.boxes → Uncached [ve.avc1.toBox, ve.avcc] →
      Uncached [ae.mp4a.toBox, ae.esds.toBox] → ac.Proper →
      AnnouncesSizes (generateCombinedInitSeg m vt at' ve ae vc ac)) ∧
    ∀ (m : SegmentMemory) (seqNo : BitVec 64) (p : Packet) (ps : List Packet) (dts : BitVec 64),
      Uncached m.boxes → AnnouncesSizes (reapVideoSeg m seqNo p ps dts).boxes ∧
        AnnouncesSizes (reapAudioSeg m seqNo p ps dts).boxes := by
  refine ⟨?_, ?_, ?_, ?_⟩
  · intro m t e c hm ht he
    exact announcesSizes (generateH264VideoInitSeg_sound hm ht he c)
  · intro m t e c hm ht he hc
    exact announcesSizes (generateAudioInitSeg_sound hm ht he hc)
  · intro m vt at' ve ae vc ac hm hvt hat hve hae hac
    exact announcesSizes (generateCombinedInitSeg_sound hm hvt hat hve hae vc hac)
  · intro m seqNo p ps dts hm
    exact ⟨announcesSizes (reapSeg_sound videoTrack hm seqNo p ps dts),
      announcesSizes (reapSeg_sound audioTrack hm seqNo p ps dts)⟩

/-- The boxes are made in cleared memory, for a configuration of two bytes and one
key frame with one byte of data. -/
theorem segments_announce_sizes_cleared :
    Uncached (default : SegmentMemory).boxes ∧
    AnnouncesSizes (generateAudioInitSeg default default default ⟨0, 44100, 2, [0x12, 0x10]⟩) ∧
    AnnouncesSizes (generateCombinedInitSeg default default default default default ⟨0, 640, 480, [1]⟩
      ⟨0, 44100, 2, [0x12, 0x10]⟩) ∧
    WritesExactly (reapVideoSeg default 1 ⟨0, [0x17, 1, 0, 0, 0, 0xaa]⟩ [] 40).moof.any := by
  have hm : Uncached (default : MovieMemory).boxes := by decide
  have ht : Uncached (default : TrakMemory).boxes := by decide
  have hs : Uncached (default : SegmentMemory).boxes := by decide
  have hasc : (⟨0, 44100, 2, [0x12, 0x10]⟩ : AudioConfig).Proper := ⟨by decide, by decide⟩
  obtain ⟨-, haudio, hcombined, hmedia⟩ := segments_announce_sizes
  refine ⟨hs, haudio _ _ _ _ hm ht (by decide) hasc, ?_, ?_⟩
  · exact hcombined _ _ _ _ _ _ _ hm ht ht (by decide) (by decide) hasc
  · apply (hmedia default 1 ⟨0, [0x17, 1, 0, 0, 0, 0xaa]⟩ [] 40 hs).1
    · simp [DataSegment.boxes]
    · decide

end Sound

end MmsServer.M4s.MediaSegment
