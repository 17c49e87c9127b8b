import MmsServer.Mp4.SampleBoxes

namespace MmsServer.M4s.InitSegment

open Lib.ByteReader Mp4.Base Mp4.MovieBoxes Mp4.SampleBoxes Mp4.Esds

section Track

def videoTrackId : BitVec 32 := 1

def audioTrackId : BitVec 32 := 2

def text (s : String) : Bytes := s.toList.map fun c ↦ UInt8.ofNat c.toNat

structure TrakMemory where
  trak : Box
  tkhd : TkhdBox
  mdia : Box
  mdhd : Box
  hdlr : HdlrBox
  minf : Box
  vmhd : Box
  dinf : Box
  dref : Box
  url : Box
  stbl : Box
  stts : Box
  stsc : Box
  stsz : Box
  stco : Box
  stsd : Box
deriving Inhabited

def TrakMemory.boxes (m : TrakMemory) : List Box :=
  [m.trak, m.tkhd.toBox, m.mdia, m.mdhd, m.hdlr.toBox, m.minf, m.vmhd, m.dinf, m.dref, m.url, m.stbl,
    m.stts, m.stsc, m.stsz, m.stco, m.stsd]

def mdhdBox (m : TrakMemory) : MdhdBox :=
  ({ MdhdBox.new m.mdhd with timescale := 1000, duration := 0 }).setLanguage 'u' 'n' 'd'

def hdlrBox (m : TrakMemory) (handlerType : BitVec 32) (name : String) : HdlrBox :=
  { HdlrBox.new m.hdlr with handlerType := handlerType, name := text name }

def dinfBox (m : TrakMemory) : DinfBox where
  toBox := .new m.dinf (boxType 'd' 'i' 'n' 'f')
  dref := { DrefBox.new m.dref with entries := [(UrlBox.new m.url).any] }

def stblBox (m : TrakMemory) (entry : AnyBox) : AnyBox :=
  container (.new m.stbl (boxType 's' 't' 'b' 'l')) [
    (SttsBox.new m.stts).any,
    (StscBox.new m.stsc).any,
    (StszBox.new m.stsz).any,
    (StcoBox.new m.stco).any,
    StsdBox.any { StsdBox.new m.stsd with entries := [entry] }]

/-- The boxes of a track, which the three initialisation segments build in the
same way around `minf`. -/
def trakBox (m : TrakMemory) (tkhd : TkhdBox) (hdlr : HdlrBox) (minf : List AnyBox) : TrakBox where
  toBox := .new m.trak (boxType 't' 'r' 'a' 'k')
  tkhd := some tkhd
  mdia := some {
    toBox := .new m.mdia (boxType 'm' 'd' 'i' 'a')
    hdlr := some hdlr
    mdhd := some (mdhdBox m)
    minf := some ⟨.new m.minf (boxType 'm' 'i' 'n' 'f'), minf⟩ }

/-- `time(NULL)`, the size of the picture and the configuration of the codec. -/
structure VideoConfig where
  now : BitVec 64
  width : BitVec 32
  height : BitVec 32
  avcConfig : Bytes

structure VideoEntryMemory where
  avc1 : VisualSampleEntry
  avcc : Box
deriving Inhabited

def videoTkhd (m : TrakMemory) (c : VideoConfig) : TkhdBox :=
  { TkhdBox.new m.tkhd c.now 0 3 with
    trackId := videoTrackId
    duration := 0
    width := c.width <<< 16
    height := c.height <<< 16 }

def videoEntry (m : VideoEntryMemory) (c : VideoConfig) : VisualSampleEntry :=
  { VisualSampleEntry.new m.avc1 (boxType 'a' 'v' 'c' '1') with
    width := c.width.setWidth 16
    height := c.height.setWidth 16
    dataReferenceIndex := 1
    avcc := some (AvccBox.any { AvccBox.new m.avcc with avcConfig := c.avcConfig }) }

def videoTrak (m : TrakMemory) (e : VideoEntryMemory) (c : VideoConfig) : TrakBox :=
  trakBox m (videoTkhd m c) (hdlrBox m (boxType 'v' 'i' 'd' 'e') "VideoHandler")
    [(VmhdBox.new m.vmhd).any, (dinfBox m).any, stblBox m (videoEntry e c).any]

/-- `time(NULL)` and the `AudioSpecificConfig`, with two of its fields. -/
structure AudioConfig where
  now : BitVec 64
  samplingFrequency : BitVec 32
  channelConfiguration : BitVec 8
  asc : Bytes

structure AudioEntryMemory where
  mp4a : SampleEntry
  esds : EsdsBox
  decSpecificInfo : Mp4BaseDescriptor
deriving Inhabited

def audioTkhd (m : TrakMemory) (c : AudioConfig) : TkhdBox :=
  { TkhdBox.new m.tkhd c.now 0 3 with
    trackId := audioTrackId
    duration := 0
    volume := 0x0100 }

def esDescriptor (m : AudioEntryMemory) (asc : Bytes) : Mp4EsDescriptor :=
  { Mp4EsDescriptor.new m.esds.es with
    esId := 2
    decConfigDescr := { Mp4DecoderConfigDescriptor.new m.esds.es.decConfigDescr with
      objectTypeIndication := objectTypeAac
      streamType := audioStream
      decSpecificInfo := some { Mp4DecoderSpecificInfo.new m.decSpecificInfo with asc := asc } } }

def audioEntry (m : AudioEntryMemory) (c : AudioConfig) : AudioSampleEntry :=
  { AudioSampleEntry.new m.mp4a (boxType 'm' 'p' '4' 'a') with
    dataReferenceIndex := 1
    sampleRate := c.samplingFrequency <<< 16
    sampleSize := 16
    channelCount := c.channelConfiguration.setWidth 16
    esds := some { EsdsBox.new m.esds with es := esDescriptor m c.asc } }

/-- `headers` is the media header: `generate_audio_init_seg` puts a `VmhdBox` there
and `generate_combined_init_seg` nothing. -/
def audioTrak (m : TrakMemory) (e : AudioEntryMemory) (c : AudioConfig) (headers : List AnyBox) : TrakBox :=
  trakBox m (audioTkhd m c) (hdlrBox m (boxType 's' 'o' 'u' 'n') "SoundHandler")
    (headers ++ [(dinfBox m).any, stblBox m (audioEntry e c).any])

/-- The cached size of a box that was made in this memory is not 1. -/
def Uncached (boxes : List Box) : Prop := ∀ b ∈ boxes, b.cachedSize ≠ 1

instance (boxes : List Box) : Decidable (Uncached boxes) :=
  inferInstanceAs (Decidable (∀ b ∈ boxes, b.cachedSize ≠ 1))

variable {m : TrakMemory}

theorem mdhdBox_sound (h : Uncached m.boxes) : (mdhdBox m).any.Sound :=
  (mdhdBox m).sound (.new (h _ (by simp [TrakMemory.boxes])) (by decide))

theorem hdlrBox_sound (h : Uncached m.boxes) (handlerType : BitVec 32) (name : String) :
    (hdlrBox m handlerType name).any.Sound :=
  (hdlrBox m handlerType name).sound (.new (h _ (by simp [TrakMemory.boxes])) (by decide))

theorem dinfBox_sound (h : Uncached m.boxes) : (dinfBox m).any.Sound := by
  have hurl : (UrlBox.new m.url).any.Sound :=
    (UrlBox.new m.url).sound (.new (h _ (by simp [TrakMemory.boxes])) (by decide))
  have hdref : (DrefBox.new m.dref).toBox.Fresh :=
    .new (h _ (by simp [TrakMemory.boxes])) (by decide)
  apply container_sound (.new (h _ (by simp [TrakMemory.boxes])) (by decide))
  rw [List.forall_mem_singleton]
  apply countedBoxes_sound hdref
  rw [dinfBox, List.forall_mem_singleton]
  exact hurl

theorem stblBox_sound (h : Uncached m.boxes) {entry : AnyBox} (hentry : entry.Sound) :
    (stblBox m entry).Sound := by
  have hstts : (SttsBox.new m.stts).any.Sound :=
    (SttsBox.new m.stts).sound (.new (h _ (by simp [TrakMemory.boxes])) (by decide))
  have hstsc : (StscBox.new m.stsc).any.Sound :=
    (StscBox.new m.stsc).sound (.new (h _ (by simp [TrakMemory.boxes])) (by decide))
  have hstsz : (StszBox.new m.stsz).any.Sound :=
    (StszBox.new m.stsz).sound (.new (h _ (by simp [TrakMemory.boxes])) (by decide))
  have hstco : (StcoBox.new m.stco).any.Sound :=
    (StcoBox.new m.stco).sound (.new (h _ (by simp [TrakMemory.boxes])) (by decide))
  have hfresh : (StsdBox.new m.stsd).toBox.Fresh :=
    .new (h _ (by simp [TrakMemory.boxes])) (by decide)
  have hstsd : (StsdBox.any { StsdBox.new m.stsd with entries := [entry] }).Sound := by
    apply countedBoxes_sound hfresh
    rw [List.forall_mem_singleton]
    exact hentry
  apply container_sound (.new (h _ (by simp [TrakMemory.boxes])) (by decide))
  simp [hstts, hstsc, hstsz, hstco, hstsd]

theorem trakBox_sound (h : Uncached m.boxes) {tkhd : TkhdBox} {hdlr : HdlrBox} {minf : List AnyBox}
    (htkhd : tkhd.any.Sound) (hhdlr : hdlr.any.Sound) (hminf : ∀ b ∈ minf, b.Sound) :
    (trakBox m tkhd hdlr minf).any.Sound := by
  have hinfo : (MinfBox.any ⟨.new m.minf (boxType 'm' 'i' 'n' 'f'), minf⟩).Sound :=
    container_sound (.new (h _ (by simp [TrakMemory.boxes])) (by decide)) hminf
  have hmdia : (MdiaBox.any {
      toBox := .new m.mdia (boxType 'm' 'd' 'i' 'a')
      hdlr := some hdlr
      mdhd := some (mdhdBox m)
      minf := some ⟨.new m.minf (boxType 'm' 'i' 'n' 'f'), minf⟩ }).Sound := by
    apply container_sound (.new (h _ (by simp [TrakMemory.boxes])) (by decide))
    simp [MdiaBox.boxes, hhdlr, mdhdBox_sound h, hinfo]
  apply container_sound (.new (h _ (by simp [TrakMemory.boxes])) (by decide))
  simp [trakBox, TrakBox.boxes, htkhd, hmdia]

theorem vmhdBox_sound (h : Uncached m.boxes) : (VmhdBox.new m.vmhd).any.Sound :=
  (VmhdBox.new m.vmhd).sound (.new (h _ (by simp [TrakMemory.boxes])) (by decide))

theorem videoTrak_sound (h : Uncached m.boxes) {e : VideoEntryMemory}
    (he : Uncached [e.avc1.toBox, e.avcc]) (c : VideoConfig) : (videoTrak m e c).any.Sound := by
  have havcc : (AvccBox.any { AvccBox.new e.avcc with avcConfig := c.avcConfig }).Sound :=
    AvccBox.sound _ (.new (he _ (by simp)) (by decide))
  have hfresh : (VisualSampleEntry.new e.avc1 (boxType 'a' 'v' 'c' '1')).toBox.Fresh :=
    .new (he e.avc1.toBox (by simp)) (by decide)
  have hentry : (videoEntry e c).any.Sound := by
    apply VisualSampleEntry.sound (videoEntry e c) hfresh rfl
    rintro box ⟨⟩
    exact havcc
  apply trakBox_sound h
  · exact TkhdBox.sound _ (.new (h _ (by simp [TrakMemory.boxes])) (by decide))
  · exact hdlrBox_sound h _ _
  · simp [vmhdBox_sound h, dinfBox_sound h, stblBox_sound h hentry]

/-- A configuration of at least one byte, of a message with a 24-bit length. -/
structure AudioConfig.Proper (c : AudioConfig) : Prop where
  nonempty : c.asc ≠ []
  length_lt : c.asc.length < 2 ^ 24

theorem audioTrak_sound (h : Uncached m.boxes) {e : AudioEntryMemory}
    (he : Uncached [e.mp4a.toBox, e.esds.toBox]) {c : AudioConfig} (hc : c.Proper)
    {headers : List AnyBox} (hheaders : ∀ b ∈ headers, b.Sound) :
    (audioTrak m e c headers).any.Sound := by
  have hlen := hc.length_lt
  have hesds : (EsdsBox.any { EsdsBox.new e.esds with es := esDescriptor e c.asc }).Sound := by
    have hfresh : (EsdsBox.new e.esds).toBox.Fresh := .new (he e.esds.toBox (by simp)) (by decide)
    apply EsdsBox.sound { EsdsBox.new e.esds with es := esDescriptor e c.asc } hfresh
    refine ⟨?_, fun hurl ↦ absurd rfl hurl⟩
    rintro info ⟨⟩
    exact ⟨hc.nonempty, by dsimp only; omega⟩
  have hentry : (audioEntry e c).any.Sound := by
    have hfresh : (AudioSampleEntry.new e.mp4a (boxType 'm' 'p' '4' 'a')).toBox.Fresh :=
      .new (he e.mp4a.toBox (by simp)) (by decide)
    apply AudioSampleEntry.sound (audioEntry e c) hfresh
    rintro box ⟨⟩
    exact hesds
  apply trakBox_sound h
  · exact TkhdBox.sound _ (.new (h _ (by simp [TrakMemory.boxes])) (by decide))
  · exact hdlrBox_sound h _ _
  · intro b hb
    rcases List.mem_append.mp hb with hb | hb
    · exact hheaders b hb
    · simp only [List.mem_cons, List.not_mem_nil, or_false] at hb
      rcases hb with rfl | rfl
      · exact dinfBox_sound h
      · exact stblBox_sound h hentry

end Track

section Segment

def brandDash : BitVec 32 := boxType 'd' 'a' 's' 'h'

def brandIso5 : BitVec 32 := boxType 'i' 's' 'o' '5'

def brandIso6 : BitVec 32 := boxType 'i' 's' 'o' '6'

def brandMp41 : BitVec 32 := boxType 'm' 'p' '4' '1'

/-- What was in the memory of the boxes of a segment, apart from its tracks. -/
structure MovieMemory where
  ftyp : Box
  moov : Box
  mvhd : MvhdBox
  mvex : Box
  videoTrex : TrexBox
  audioTrex : TrexBox
deriving Inhabited

def MovieMemory.boxes (m : MovieMemory) : List Box :=
  [m.ftyp, m.moov, m.mvhd.toBox, m.mvex, m.videoTrex.toBox, m.audioTrex.toBox]

def ftypBox (m : MovieMemory) (brands : List (BitVec 32)) : FtypBox :=
  { FtypBox.new m.ftyp with
    majorBrand := brandIso5
    minorVersion := 512
    compatibleBrands := brands }

def mvhdBox (m : MovieMemory) (now : BitVec 64) (nextTrackId : BitVec 32) : MvhdBox :=
  { MvhdBox.new m.mvhd with
    creationTime := now + 2082844800
    timescale := 1000
    duration := 0
    nextTrackId := nextTrackId }

def trexBox (memory : TrexBox) (trackId : BitVec 32) : TrexBox :=
  { TrexBox.new memory with trackId := trackId, defaultSampleDescriptionIndex := 1 }

def initSegment (m : MovieMemory) (brands : List (BitVec 32)) (mvhd : MvhdBox) (traks : List TrakBox)
    (trexs : List TrexBox) : List AnyBox :=
  [(ftypBox m brands).any,
    container (.new m.moov (boxType 'm' 'o' 'o' 'v')) (mvhd.any :: (traks.map TrakBox.any ++
      [container (.new m.mvex (boxType 'm' 'v' 'e' 'x')) (trexs.map TrexBox.any)]))]

def generateH264VideoInitSeg (m : MovieMemory) (t : TrakMemory) (e : VideoEntryMemory)
    (c : VideoConfig) : List AnyBox :=
  initSegment m [brandDash, brandIso6, brandMp41] (mvhdBox m c.now (videoTrackId + 1))
    [videoTrak t e c] [trexBox m.videoTrex videoTrackId]

def generateAudioInitSeg (m : MovieMemory) (t : TrakMemory) (e : AudioEntryMemory)
    (c : AudioConfig) : List AnyBox :=
  initSegment m [brandIso6, brandMp41] (mvhdBox m c.now (audioTrackId + 1))
    [audioTrak t e c [(VmhdBox.new t.vmhd).any]] [trexBox m.audioTrex audioTrackId]

def generateCombinedInitSeg (m : MovieMemory) (vt at' : TrakMemory) (ve : VideoEntryMemory)
    (ae : AudioEntryMemory) (vc : VideoConfig) (ac : AudioConfig) : List AnyBox :=
  initSegment m [brandDash, brandIso6, brandMp41] (mvhdBox m vc.now (audioTrackId + 1))
    [videoTrak vt ve vc, audioTrak at' ae ac []]
    [trexBox m.videoTrex videoTrackId, trexBox m.audioTrex audioTrackId]

theorem initSegment_sound {m : MovieMemory} (h : Uncached m.boxes) {brands : List (BitVec 32)}
    {mvhd : MvhdBox} {traks : List TrakBox} {trexs : List TrexBox} (hmvhd : mvhd.any.Sound)
    (htraks : ∀ t ∈ traks, t.any.Sound) (htrexs : ∀ t ∈ trexs, t.any.Sound) :
    ∀ b ∈ initSegment m brands mvhd traks trexs, b.Sound := by
  have hftyp : (ftypBox m brands).any.Sound :=
    FtypBox.sound _ (.new (h _ (by simp [MovieMemory.boxes])) (by decide))
  have hmvex : (container (.new m.mvex (boxType 'm' 'v' 'e' 'x')) (trexs.map TrexBox.any)).Sound := by
    apply container_sound (.new (h _ (by simp [MovieMemory.boxes])) (by decide))
    intro b hb
    obtain ⟨t, ht, rfl⟩ := List.mem_map.mp hb
    exact htrexs t ht
  have hmoov : ∀ b ∈ mvhd.any :: (traks.map TrakBox.any ++
      [container (.new m.mvex (boxType 'm' 'v' 'e' 'x')) (trexs.map TrexBox.any)]), b.Sound := by
    rw [List.forall_mem_cons, List.forall_mem_append, List.forall_mem_singleton]
    refine ⟨hmvhd, ?_, hmvex⟩
    intro b hb
    obtain ⟨t, ht, rfl⟩ := List.mem_map.mp hb
    exact htraks t ht
  rw [initSegment, List.forall_mem_cons, List.forall_mem_singleton]
  exact ⟨hftyp, container_sound (.new (h _ (by simp [MovieMemory.boxes])) (by decide)) hmoov⟩

variable {m : MovieMemory}

theorem mvhdBox_sound (h : Uncached m.boxes) (now : BitVec 64) (next : BitVec 32) :
    (mvhdBox m now next).any.Sound :=
  MvhdBox.sound _ (.new (h _ (by simp [MovieMemory.boxes])) (by decide))

theorem videoTrex_sound (h : Uncached m.boxes) : (trexBox m.videoTrex videoTrackId).any.Sound :=
  TrexBox.sound _ (.new (h _ (by simp [MovieMemory.boxes])) (by decide))

theorem audioTrex_sound (h : Uncached m.boxes) : (trexBox m.audioTrex audioTrackId).any.Sound :=
  TrexBox.sound _ (.new (h _ (by simp [MovieMemory.boxes])) (by decide))

theorem generateH264VideoInitSeg_sound (h : Uncached m.boxes) {t : TrakMemory}
    (ht : Uncached t.boxes) {e : VideoEntryMemory} (he : Uncached [e.avc1.toBox, e.avcc])
    (c : VideoConfig) : ∀ b ∈ generateH264VideoInitSeg m t e c, b.Sound := by
  apply initSegment_sound h (mvhdBox_sound h _ _)
  · rw [List.forall_mem_singleton]
    exact videoTrak_sound ht he c
  · rw [List.forall_mem_singleton]
    exact videoTrex_sound h

theorem generateAudioInitSeg_sound (h : Uncached m.boxes) {t : TrakMemory} (ht : Uncached t.boxes)
    {e : AudioEntryMemory} (he : Uncached [e.mp4a.toBox, e.esds.toBox]) {c : AudioConfig}
    (hc : c.Proper) : ∀ b ∈ generateAudioInitSeg m t e c, b.Sound := by
  apply initSegment_sound h (mvhdBox_sound h _ _)
  · rw [List.forall_mem_singleton]
    apply audioTrak_sound ht he hc
    rw [List.forall_mem_singleton]
    exact vmhdBox_sound ht
  · rw [List.forall_mem_singleton]
    exact audioTrex_sound h

theorem generateCombinedInitSeg_sound (h : Uncached m.boxes) {vt at' : TrakMemory}
    (hvt : Uncached vt.boxes) (hat : Uncached at'.boxes) {ve : VideoEntryMemory}
    (hve : Uncached [ve.avc1.toBox, ve.avcc]) {ae : AudioEntryMemory}
    (hae : Uncached [ae.mp4a.toBox, ae.esds.toBox]) (vc : VideoConfig) {ac : AudioConfig}
    (hac : ac.Proper) : ∀ b ∈ generateCombinedInitSeg m vt at' ve ae vc ac, b.Sound := by
  apply initSegment_sound h (mvhdBox_sound h _ _)
  · rw [List.forall_mem_cons, List.forall_mem_singleton]
    exact ⟨videoTrak_sound hvt hve vc, audioTrak_sound hat hae hac (by simp)⟩
  · rw [List.forall_mem_cons, List.forall_mem_singleton]
    exact ⟨videoTrex_sound h, audioTrex_sound h⟩

end Segment

end MmsServer.M4s.InitSegment
