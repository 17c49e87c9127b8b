import MmsServer.Codec.AvcConfig
import MmsServer.Codec.HevcConfig
import MmsServer.Rtmp.NaluSplit
import MmsServer.Rtmp.ParameterSets
import MmsServer.Rtp.AacBridge
import MmsServer.Rtp.Format
import MmsServer.Rtp.PacketSequence

namespace MmsServer.Rtsp.Bridge

open Lib.ByteReader Lib.Checked Codec.AvcConfig Codec.HevcConfig Rtmp.Define Rtmp.FlvTag Rtmp.NaluSplit
  Rtmp.ParameterSets Rtp.Packer Rtp.PacketSequence Rtp.Format

inductive VideoCodec
  | h264 (codec : H264Codec)
  | hevc (codec : HevcCodec)

def VideoCodec.packer : VideoCodec → PackerKind
  | .h264 _ => .rtpPacker
  | .hevc _ => .h265RtpPacker

inductive AudioCodec
  | aac
  | mp3
deriving DecidableEq

structure RtmpToRtsp where
  videoCodec : Option VideoCodec := none
  audioCodec : Option AudioCodec := none
  naluLengthSize : NaluLengthSize := .four
  videoPt : UInt8 := 96
  firstVideoPts : ℤ := 0
  gotVideoKeyFrame : Bool := false
  videoSeqnum : BitVec 16 := 0
  audio : Rtp.AacBridge.RtmpToRtsp := ⟨false, none, 0, 97, 0⟩

/-- A call of the video packer. -/
structure Frame where
  packer : PackerKind
  stream : Stream
  rtpSeqnum : BitVec 16
  nalus : List Bytes

def Frame.pkts (f : Frame) : List RtpPacket := packNalus f.packer.format f.stream f.rtpSeqnum f.nalus

/-- What goes to the source for a message: the packets of a frame, or those of audio. -/
inductive Batch
  | video (videoPkt : RtmpMessage) (f : Frame)
  | audio (audioPkt : RtmpMessage) (pkts : List RtpPacket)

def Batch.pkts : Batch → List RtpPacket
  | .video _ f => f.pkts
  | .audio _ pkts => pkts

def Batch.message : Batch → RtmpMessage
  | .video videoPkt _ => videoPkt
  | .audio audioPkt _ => audioPkt

/-- The metadata is missing where it cannot be decoded. -/
inductive Message
  | metadata (codecs : Option (Option CodecId × Option SoundFormat))
  | video (videoPkt : RtmpMessage)
  | audio (audioPkt : RtmpMessage)

def Message.packet? : Message → Option RtmpMessage
  | .metadata _ => none
  | .video videoPkt => some videoPkt
  | .audio audioPkt => some audioPkt

/-- Without a batch nothing goes to the source, and a false return value ends the work. -/
abbrev Processed := Outcome (RtmpToRtsp × Bool × Option Batch)

namespace RtmpToRtsp

variable (s : RtmpToRtsp)

def setVideo : Option CodecId → RtmpToRtsp × Bool
  | none => (s, true)
  | some .avc => ({ s with videoCodec := some (.h264 ⟨⟨[], [], 0⟩, ⟨[], [], 0⟩⟩), videoSeqnum := 0 }, true)
  | some .hevc => ({ s with videoCodec := some (.hevc ⟨[], [], []⟩), videoSeqnum := 0 }, true)
  | some .hevcFourcc => ({ s with videoCodec := some (.hevc ⟨[], [], []⟩), videoSeqnum := 0 }, true)
  | some (.other _) => (s, false)

def setAudio : Option SoundFormat → RtmpToRtsp × Bool
  | none => (s, true)
  | some .aac =>
    ({ s with audioCodec := some .aac, audio := { s.audio with audioSpecificConfig := none } }, true)
  | some .mp3 => ({ s with audioCodec := some .mp3 }, true)
  | some _ => (s, false)

def onMetadata : Option (Option CodecId × Option SoundFormat) → RtmpToRtsp × Bool
  | none => (s, false)
  | some (videoCodecId, audioCodecId) =>
    let (s, ok) := s.setVideo videoCodecId
    if ok then s.setAudio audioCodecId else (s, false)

def naluLengthSizeOf (lengthSizeMinusOne : UInt8) : Option NaluLengthSize :=
  if lengthSizeMinusOne = 0 then some .one
  else if lengthSizeMinusOne = 1 then some .two
  else if lengthSizeMinusOne = 3 then some .four
  else none

/-- A size of three bytes ends the work. -/
def setNaluLengthSize (lengthSizeMinusOne : UInt8) : RtmpToRtsp × Bool × Option Batch :=
  match naluLengthSizeOf lengthSizeMinusOne with
  | none => (s, false, none)
  | some naluLengthSize => ({ s with naluLengthSize }, true, none)

/-- `timestamp_ + header.composition_time` is computed without a sign. -/
def ptsOf (videoPkt : RtmpMessage) (header : VideoTagHeader) : ℤ :=
  (videoPkt.timestamp + .ofNat 32 header.compositionTime).toNat

/-- `first_video_pts_` is set at the first frame. -/
def start (pts : ℤ) : RtmpToRtsp := if s.firstVideoPts = 0 then { s with firstVideoPts := pts } else s

def stream (pts : ℤ) : Stream where
  pt := s.videoPt
  ssrc := 0
  pts := .ofInt 32 ((pts - s.firstVideoPts) * 90)

def packVideo (packer : PackerKind) (videoPkt : RtmpMessage) (pts : ℤ) (nalus : List Bytes) :
    RtmpToRtsp × Bool × Option Batch :=
  let f : Frame := ⟨packer, s.stream pts, s.videoSeqnum, nalus⟩
  ({ s with videoSeqnum := seqnumAfter s.videoSeqnum f.pkts }, true, some (.video videoPkt f))

/-- Frames before the first key frame are not sent, but their parameter sets are kept. -/
def processH264Frame (codec : H264Codec) (videoPkt : RtmpMessage) (header : VideoTagHeader)
    (nalus : List Bytes) : Processed :=
  let pts := ptsOf videoPkt header
  let s := s.start pts
  let scan := (H264Scan.run { codec } nalus).2
  let s :=
    { s with
      videoCodec := some (.h264 scan.codec)
      gotVideoKeyFrame := s.gotVideoKeyFrame || header.isKeyFrame }
  if s.gotVideoKeyFrame then
    match RtmpToRtsp.processH264Packet codec nalus with
    | none => .fault .overread
    | some nalus => return s.packVideo .rtpPacker videoPkt pts nalus
  else return (s, true, none)

def processH264Header (codec : H264Codec) (payload : Bytes) : Processed :=
  match AVCDecoderConfigurationRecord.parse payload with
  | .ok (record, _) =>
    let codec := (codec.setSps (record.spsNalus.headD [])).setPps (record.ppsNalus.headD [])
    return { s with videoCodec := some (.h264 codec) }.setNaluLengthSize record.naluLengthSizeMinusOne
  | .err _ => return (s, false, none)
  | .fault f => .fault f

/-- `behind` is the memory behind the VPS. -/
def processH265Frame (behind : ℕ → UInt8) (codec : HevcCodec) (videoPkt : RtmpMessage)
    (header : VideoTagHeader) (nalus : List Bytes) : Processed :=
  let pts := ptsOf videoPkt header
  let s := s.start pts
  let scan := nalus.foldl RtmpToRtsp.visitHevc { codec }
  let s := { s with videoCodec := some (.hevc scan.codec) }
  return s.packVideo .h265RtpPacker videoPkt pts (RtmpToRtsp.processH265Packet codec behind nalus)

def processH265Header (payload : Bytes) : Processed :=
  match HEVCDecoderConfigurationRecord.decode payload with
  | .ok (record, _) =>
    let codec : HevcCodec := ⟨record.vpsNalu, record.spsNalu, record.ppsNalu⟩
    return { s with videoCodec := some (.hevc codec) }.setNaluLengthSize record.lengthSizeMinusOne
  | .err _ => return (s, false, none)
  | .fault f => .fault f

def processFrame (behind : ℕ → UInt8) (codec : VideoCodec) (videoPkt : RtmpMessage) (header : VideoTagHeader)
    (payload : Bytes) : Processed :=
  match getNalus s.naluLengthSize payload with
  | some (.ok (_, nalus)) =>
    match codec with
    | .h264 codec => s.processH264Frame codec videoPkt header nalus
    | .hevc codec => s.processH265Frame behind codec videoPkt header nalus
  | some (.fault f) => .fault f
  | _ => return (s, false, none)

/-- A message that is too short for its header is not followed further. -/
def onVideoPacket (behind : ℕ → UInt8) (videoPkt : RtmpMessage) : Processed :=
  match s.videoCodec with
  | none => return (s, false, none)
  | some codec =>
    match VideoTagHeader.decode videoPkt.usingData with
    | .error code => if code < 0 then return (s, false, none) else .err code
    | .ok (header, headerConsumed) =>
      let payload := videoPkt.usingData.drop headerConsumed
      if header.isSeqHeader then
        match codec with
        | .h264 codec => s.processH264Header codec payload
        | .hevc _ => s.processH265Header payload
      else s.processFrame behind codec videoPkt header payload

def hasConfig (audioPkt : RtmpMessage) : Bool :=
  match AudioTagHeader.decode audioPkt.usingData with
  | .error _ => false
  | .ok (header, headerConsumed) =>
    header.isSeqHeader &&
      match Rtp.AacBridge.AudioSpecificConfig.parse (audioPkt.usingData.drop headerConsumed) with
      | .ok _ => true
      | _ => false

def onAudioPacket (audioPkt : RtmpMessage) : Processed :=
  match s.audioCodec with
  | none => return (s, false, none)
  | some .mp3 => return (s, true, none)
  | some .aac => do
    let (audio, pkts) ← s.audio.processAacPacket audioPkt
    return ({ s with audio }, pkts.isSome || hasConfig audioPkt, pkts.map (.audio audioPkt))

def onMessage (behind : ℕ → UInt8) : Message → Processed
  | .metadata codecs => return ((s.onMetadata codecs).1, (s.onMetadata codecs).2, none)
  | .video videoPkt => s.onVideoPacket behind videoPkt
  | .audio audioPkt => s.onAudioPacket audioPkt

/-- The batches of a list of messages, up to the first that ends the work. `behind` is the
memory behind the VPS at each of them. -/
def run (behind : ℕ → ℕ → UInt8) : RtmpToRtsp → List Message → Outcome (RtmpToRtsp × List Batch)
  | s, [] => return (s, [])
  | s, m :: ms => do
    let (s, ok, batch) ← s.onMessage (behind ms.length) m
    if ok then
      let (s, batches) ← run behind s ms
      return (s, batch.toList ++ batches)
    else return (s, batch.toList)

end RtmpToRtsp

section Packed

variable {s s' : RtmpToRtsp} {pkt : Option RtmpMessage} {batch : Option Batch} {ok : Bool}

def Units (videoPkt : RtmpMessage) (nalus : List Bytes) : Prop :=
  ∃ header n size consumed, VideoTagHeader.decode videoPkt.usingData = .ok (header, n) ∧
    getNalus size (videoPkt.usingData.drop n) = some (.ok (consumed, nalus))

/-- Where a batch comes from, in a bridge with these payload types. A frame has all the NAL
units of its message. -/
inductive Packed (videoPt audioPt : UInt8) : Batch → Prop
  | video (videoPkt : RtmpMessage) (f : Frame) (nalus : List Bytes) (pt : f.stream.pt = videoPt)
      (units : Units videoPkt nalus) (sublist : nalus.Sublist f.nalus) :
      Packed videoPt audioPt (.video videoPkt f)
  | audio (audioPkt : RtmpMessage) (st : Stream) (c : BitVec 16) (data : Bytes) (pt : st.pt = audioPt)
      (section_eq : Rtp.AacBridge.auSection (audioPkt.usingData.drop 2) = .ok data) :
      Packed videoPt audioPt (.audio audioPkt (packRaw st c data))

structure Keeps (s s' : RtmpToRtsp) (pkt : Option RtmpMessage) (batch : Option Batch) : Prop where
  videoPt : s'.videoPt = s.videoPt
  audioPt : s'.audio.audioPt = s.audio.audioPt
  message : ∀ b ∈ batch, b.message ∈ pkt
  packed : ∀ b ∈ batch, Packed s.videoPt s.audio.audioPt b

theorem Keeps.silent (hvideo : s'.videoPt = s.videoPt) (haudio : s'.audio.audioPt = s.audio.audioPt) :
    Keeps s s' pkt none := ⟨hvideo, haudio, fun _ h ↦ (nomatch h), fun _ h ↦ nomatch h⟩

theorem onMetadata_keeps (s : RtmpToRtsp) (codecs : Option (Option CodecId × Option SoundFormat)) :
    Keeps s (s.onMetadata codecs).1 none none := by
  have hvideo (id : Option CodecId) : (s.setVideo id).1.videoPt = s.videoPt ∧
      (s.setVideo id).1.audio.audioPt = s.audio.audioPt := by
    unfold RtmpToRtsp.setVideo
    split <;> exact ⟨rfl, rfl⟩
  have haudio (s : RtmpToRtsp) (id : Option SoundFormat) : (s.setAudio id).1.videoPt = s.videoPt ∧
      (s.setAudio id).1.audio.audioPt = s.audio.audioPt := by
    unfold RtmpToRtsp.setAudio
    split <;> exact ⟨rfl, rfl⟩
  unfold RtmpToRtsp.onMetadata
  split
  · exact .silent rfl rfl
  · rename_i videoCodecId audioCodecId
    dsimp only
    split
    · exact .silent ((haudio _ _).1.trans (hvideo _).1) ((haudio _ _).2.trans (hvideo _).2)
    · exact .silent (hvideo _).1 (hvideo _).2

theorem setNaluLengthSize_keeps {lengthSizeMinusOne : UInt8}
    (h : s.setNaluLengthSize lengthSizeMinusOne = (s', ok, batch)) : Keeps s s' pkt batch := by
  unfold RtmpToRtsp.setNaluLengthSize at h
  split at h
  · cases h
    exact .silent rfl rfl
  · cases h
    exact .silent rfl rfl

theorem packVideo_keeps (s : RtmpToRtsp) (packer : PackerKind) {videoPkt : RtmpMessage} (pts : ℤ)
    {nalus out : List Bytes} (hunits : Units videoPkt nalus) (hsub : nalus.Sublist out) :
    Keeps s (s.packVideo packer videoPkt pts out).1 (some videoPkt)
      (s.packVideo packer videoPkt pts out).2.2 := by
  refine ⟨rfl, rfl, fun b hb ↦ ?_, fun b hb ↦ ?_⟩
  · cases hb
    rfl
  · cases hb
    exact .video videoPkt _ nalus rfl hunits hsub

theorem mapM_cons_eq_some {α β : Type} {f : α → Option β} {a : α} {l : List α} {out : List β} :
    (a :: l).mapM f = some out ↔ ∃ b bs, f a = some b ∧ l.mapM f = some bs ∧ out = b :: bs := by
  rw [List.mapM_cons]
  cases f a with
  | none => simp
  | some b =>
    cases l.mapM f with
    | none => simp
    | some bs => simp [eq_comm]

/-- What is inserted stands between the NAL units. -/
theorem run_sublist {scan : H264Scan} {codec : H264Codec} {nalus out : List Bytes}
    (h : (scan.run nalus).1.mapM (NaluView.read codec) = some out) : nalus.Sublist out := by
  induction nalus generalizing scan out with
  | nil => exact List.nil_sublist out
  | cons nalu nalus ih =>
    rw [H264Scan.run] at h
    split at h
    · obtain ⟨x, out₁, -, h₁, rfl⟩ := mapM_cons_eq_some.mp h
      obtain ⟨y, out₂, -, h₂, rfl⟩ := mapM_cons_eq_some.mp h₁
      obtain ⟨z, out₃, hz, h₃, rfl⟩ := mapM_cons_eq_some.mp h₂
      obtain rfl : nalu = z := Option.some.inj hz
      exact (((ih h₃).cons_cons nalu).cons y).cons x
    · obtain ⟨z, out₁, hz, h₁, rfl⟩ := mapM_cons_eq_some.mp h
      obtain rfl : nalu = z := Option.some.inj hz
      exact (ih h₁).cons_cons nalu

theorem h264_sublist {codec : H264Codec} {nalus out : List Bytes}
    (h : RtmpToRtsp.processH264Packet codec nalus = some out) : nalus.Sublist out := by
  rw [RtmpToRtsp.processH264Packet, h264Nalus] at h
  split at h
  · exact run_sublist h
  · obtain ⟨out', hout, rfl⟩ := Option.map_eq_some_iff.mp h
    exact (run_sublist hout).cons _

theorem hevc_sublist (codec : HevcCodec) (behind : ℕ → UInt8) (nalus : List Bytes) :
    nalus.Sublist (RtmpToRtsp.processH265Packet codec behind nalus) := by
  rw [RtmpToRtsp.processH265Packet, hevcNalus]
  split
  · exact List.sublist_append_right _ _
  · exact List.Sublist.refl nalus

theorem start_keeps (s : RtmpToRtsp) (pts : ℤ) :
    (s.start pts).videoPt = s.videoPt ∧ (s.start pts).audio = s.audio := by
  unfold RtmpToRtsp.start
  split
  · exact ⟨rfl, rfl⟩
  · exact ⟨rfl, rfl⟩

theorem Keeps.behind {t : RtmpToRtsp} (h : Keeps t s' pkt batch) (hvideo : t.videoPt = s.videoPt)
    (haudio : t.audio.audioPt = s.audio.audioPt) : Keeps s s' pkt batch := by
  refine ⟨h.videoPt.trans hvideo, h.audioPt.trans haudio, h.message, ?_⟩
  rw [← hvideo, ← haudio]
  exact h.packed

theorem processH264Frame_keeps {codec : H264Codec} {videoPkt : RtmpMessage} {header : VideoTagHeader}
    {nalus : List Bytes} (hunits : Units videoPkt nalus)
    (h : s.processH264Frame codec videoPkt header nalus = .ok (s', ok, batch)) :
    Keeps s s' (some videoPkt) batch := by
  obtain ⟨hvideo, haudio⟩ := start_keeps s (RtmpToRtsp.ptsOf videoPkt header)
  unfold RtmpToRtsp.processH264Frame at h
  dsimp only at h
  split at h
  · split at h
    · cases h
    · rename_i out hout
      cases h
      exact (packVideo_keeps _ _ _ hunits (h264_sublist hout)).behind hvideo (congrArg _ haudio)
  · cases h
    exact .silent hvideo (congrArg _ haudio)

theorem processFrame_keeps {behind : ℕ → UInt8} {codec : VideoCodec} {videoPkt : RtmpMessage}
    {header : VideoTagHeader} {n : ℕ} (hdecode : VideoTagHeader.decode videoPkt.usingData = .ok (header, n))
    (h : s.processFrame behind codec videoPkt header (videoPkt.usingData.drop n) = .ok (s', ok, batch)) :
    Keeps s s' (some videoPkt) batch := by
  unfold RtmpToRtsp.processFrame at h
  split at h
  · rename_i consumed nalus hnalus
    have hunits : Units videoPkt nalus := ⟨header, n, s.naluLengthSize, consumed, hdecode, hnalus⟩
    split at h
    · exact processH264Frame_keeps hunits h
    · cases h
      obtain ⟨hvideo, haudio⟩ := start_keeps s (RtmpToRtsp.ptsOf videoPkt header)
      exact (packVideo_keeps _ _ _ hunits (hevc_sublist _ _ nalus)).behind hvideo (congrArg _ haudio)
  · cases h
  · cases h
    exact .silent rfl rfl

theorem onVideoPacket_keeps {behind : ℕ → UInt8} {videoPkt : RtmpMessage}
    (h : s.onVideoPacket behind videoPkt = .ok (s', ok, batch)) : Keeps s s' (some videoPkt) batch := by
  unfold RtmpToRtsp.onVideoPacket at h
  split at h
  · cases h
    exact .silent rfl rfl
  · split at h
    · split at h
      · cases h
        exact .silent rfl rfl
      · cases h
    · rename_i hdecode
      dsimp only at h
      split at h
      · split at h
        · unfold RtmpToRtsp.processH264Header at h
          split at h
          · exact (setNaluLengthSize_keeps (Outcome.ok.inj h)).behind rfl rfl
          · cases h
            exact .silent rfl rfl
          · cases h
        · unfold RtmpToRtsp.processH265Header at h
          split at h
          · exact (setNaluLengthSize_keeps (Outcome.ok.inj h)).behind rfl rfl
          · cases h
            exact .silent rfl rfl
          · cases h
      · exact processFrame_keeps hdecode h

/-- Behind a header that is not that of a config the frame starts with the third byte. -/
theorem decode_raw {data : Bytes} {header : AudioTagHeader} {n : ℕ}
    (h : AudioTagHeader.decode data = .ok (header, n)) (hraw : header.isSeqHeader = false) : n = 2 := by
  unfold AudioTagHeader.decode at h
  split at h
  · cases h
  · dsimp only at h
    split at h
    · split at h
      · cases h
      · cases h
        rfl
    · cases h
      cases hraw

theorem processAacPacket_keeps {a a' : Rtp.AacBridge.RtmpToRtsp} {audioPkt : RtmpMessage}
    {pkts : Option (List RtpPacket)} (h : a.processAacPacket audioPkt = .ok (a', pkts)) :
    a'.audioPt = a.audioPt ∧ ∀ ps ∈ pkts, ∃ st c data, st.pt = a.audioPt ∧
      Rtp.AacBridge.auSection (audioPkt.usingData.drop 2) = .ok data ∧ ps = packRaw st c data := by
  have hstart : (a.start audioPkt).audioPt = a.audioPt := by
    unfold Rtp.AacBridge.RtmpToRtsp.start
    split
    · rfl
    · rfl
  unfold Rtp.AacBridge.RtmpToRtsp.processAacPacket at h
  split at h
  · cases h
    exact ⟨rfl, fun _ hp ↦ nomatch hp⟩
  · rename_i header headerConsumed hdecode
    dsimp only at h
    split at h
    · split at h
      · cases h
        exact ⟨rfl, fun _ hp ↦ nomatch hp⟩
      · cases h
        exact ⟨rfl, fun _ hp ↦ nomatch hp⟩
      · cases h
    · rename_i hseq
      split at h
      · split at h
        · cases h
          exact ⟨hstart, fun _ hp ↦ nomatch hp⟩
        · rename_i config _
          obtain ⟨data, hsection, h⟩ := Outcome.bind_eq_ok.mp h
          cases h
          rw [decode_raw hdecode (Bool.eq_false_iff.mpr hseq)] at hsection
          refine ⟨hstart, fun ps hp ↦ ?_⟩
          cases hp
          exact ⟨_, _, data, hstart, hsection, rfl⟩
      · cases h
        exact ⟨rfl, fun _ hp ↦ nomatch hp⟩

theorem onAudioPacket_keeps {audioPkt : RtmpMessage} (h : s.onAudioPacket audioPkt = .ok (s', ok, batch)) :
    Keeps s s' (some audioPkt) batch := by
  unfold RtmpToRtsp.onAudioPacket at h
  split at h
  · cases h
    exact .silent rfl rfl
  · cases h
    exact .silent rfl rfl
  · obtain ⟨⟨a', pkts⟩, haac, h⟩ := Outcome.bind_eq_ok.mp h
    cases h
    obtain ⟨hpt, hpkts⟩ := processAacPacket_keeps haac
    refine ⟨rfl, hpt, fun b hb ↦ ?_, fun b hb ↦ ?_⟩
    · obtain ⟨ps, -, rfl⟩ := Option.mem_map.mp hb
      rfl
    · obtain ⟨ps, hps, rfl⟩ := Option.mem_map.mp hb
      obtain ⟨st, c, data, hst, hsection, rfl⟩ := hpkts ps hps
      exact .audio audioPkt st c data hst hsection

theorem onMessage_keeps {behind : ℕ → UInt8} {m : Message} (h : s.onMessage behind m = .ok (s', ok, batch)) :
    Keeps s s' m.packet? batch := by
  cases m with
  | metadata codecs =>
    cases h
    exact onMetadata_keeps s codecs
  | video videoPkt => exact onVideoPacket_keeps h
  | audio audioPkt => exact onAudioPacket_keeps h

theorem run_packed {behind : ℕ → ℕ → UInt8} {ms : List Message} {batches : List Batch}
    (h : s.run behind ms = .ok (s', batches)) : ∀ b ∈ batches, Packed s.videoPt s.audio.audioPt b := by
  induction ms generalizing s batches with
  | nil =>
    cases h
    exact List.forall_mem_nil _
  | cons m ms ih =>
    obtain ⟨⟨s₁, ok, batch⟩, hstep, h⟩ := Outcome.bind_eq_ok.mp h
    have hkeeps := onMessage_keeps hstep
    have hfirst : ∀ b ∈ batch.toList, Packed s.videoPt s.audio.audioPt b :=
      fun b hb ↦ hkeeps.packed b (Option.mem_toList.mp hb)
    cases ok with
    | false =>
      cases h
      exact hfirst
    | true =>
      obtain ⟨⟨s₂, rest⟩, hrest, h⟩ := Outcome.bind_eq_ok.mp h
      cases h
      have hpacked := ih hrest
      rw [hkeeps.videoPt, hkeeps.audioPt] at hpacked
      exact List.forall_mem_append.mpr ⟨hfirst, hpacked⟩

theorem Keeps.sublist (h : Keeps s s' pkt batch) : (batch.toList.map Batch.message).Sublist pkt.toList := by
  cases batch with
  | none => exact List.nil_sublist _
  | some b =>
    obtain rfl := Option.mem_def.mp (h.message b rfl)
    exact List.Sublist.refl _

/-- Each message has a batch at most. -/
theorem run_messages {behind : ℕ → ℕ → UInt8} {ms : List Message} {batches : List Batch}
    (h : s.run behind ms = .ok (s', batches)) :
    (batches.map Batch.message).Sublist (ms.filterMap Message.packet?) := by
  induction ms generalizing s batches with
  | nil =>
    cases h
    exact List.nil_sublist _
  | cons m ms ih =>
    obtain ⟨⟨s₁, ok, batch⟩, hstep, h⟩ := Outcome.bind_eq_ok.mp h
    have hone := (onMessage_keeps hstep).sublist
    have hcons : (m :: ms).filterMap Message.packet? = m.packet?.toList ++ ms.filterMap Message.packet? := by
      rw [List.filterMap_cons]
      cases m.packet? with
      | none => rfl
      | some pkt => rfl
    rw [hcons]
    cases ok with
    | false =>
      cases h
      exact hone.trans (List.sublist_append_left _ _)
    | true =>
      obtain ⟨⟨s₂, rest⟩, hrest, h⟩ := Outcome.bind_eq_ok.mp h
      cases h
      rw [List.map_append]
      exact hone.append (ih hrest)

end Packed

/-- The bridge at the other end, with the messages that it has handed to its source. -/
structure RtspToRtmp where
  videoCodec : PackerKind
  video : Rtp.Assembler.Receiver
  audio : Rtp.AacBridge.RtspToRtmp
  published : List RtmpMessage := []

def naluFormat : PackerKind → NaluFormat
  | .rtpPacker => h264Format
  | .h265RtpPacker => h265Format

/-- `first_rtp_video_ts_` or `first_rtp_audio_ts_`, which is set as long as it is 0. -/
def firstTs (firstRtpTs : BitVec 32) (pkts : List RtpPacket) : BitVec 32 :=
  if firstRtpTs = 0 then (pkts.head?.map (·.timestamp)).getD 0 else firstRtpTs

namespace RtspToRtmp

variable (w : RtspToRtmp)

def processVideoPacket (e : Rtp.Assembler.Env) :
    Rtp.Assembler.Receiver → RtpPacket → Outcome (Rtp.Assembler.Receiver × Option RtmpMessage) :=
  match w.videoCodec with
  | .rtpPacker => Rtp.Assembler.processH264Packet e
  | .h265RtpPacker => Rtp.Assembler.processH265Packet e

/-- What is set with `set_video_pkts_cb`. -/
def onVideoPkts (e : Rtp.Assembler.Env) (pkts : List RtpPacket) : Outcome RtspToRtmp := do
  let video := { w.video with firstRtpVideoTs := firstTs w.video.firstRtpVideoTs pkts }
  let (video, msgs) ← Rtp.Assembler.feed (w.processVideoPacket e) video pkts
  return { w with video, published := w.published ++ msgs.reduceOption }

/-- What is set with `set_audio_pkts_cb`. -/
def onAudioPkts (pkts : List RtpPacket) : Outcome RtspToRtmp := do
  let audio := { w.audio with firstRtpAudioTs := firstTs w.audio.firstRtpAudioTs pkts }
  let (audio, msgs) ← Rtp.Assembler.feed Rtp.AacBridge.RtspToRtmp.processAacPacket audio pkts
  return { w with audio, published := w.published ++ msgs.reduceOption }

end RtspToRtmp

end MmsServer.Rtsp.Bridge
