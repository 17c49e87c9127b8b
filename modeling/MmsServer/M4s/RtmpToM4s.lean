import MmsServer.Lib.Batching
import MmsServer.M4s.MediaSegment
import MmsServer.Ts.RtmpBridge

namespace MmsServer.M4s.RtmpToM4s

open Lib.Batching Lib.ByteReader Lib.Checked Rtmp.FlvTag InitSegment MediaSegment
open Rtp.AacBridge (AudioSpecificConfig)
open Ts.Packetizer (VideoCodec)
open Ts.RtmpBridge (AudioCodec Metadata codecOf)

section Process

/-- The arguments of a call of `reap_video_seg` or `reap_audio_seg`: the number of
the segment, its packets and `dts`. -/
structure Reaped where
  seqNo : BitVec 64
  first : Packet
  rest : List Packet
  dts : BitVec 64

def Reaped.segment (t : Track) (m : SegmentMemory) (r : Reaped) : DataSegment :=
  t.reapSeg m r.seqNo r.first r.rest r.dts

/-- The times of the packets behind the first one, and then the end of the segment. -/
def Reaped.times (r : Reaped) : List ℤ := (r.rest.map Packet.time ++ [r.dts]).map BitVec.toInt

/-- `video_pkts_`, `video_bytes_` and `video_seq_no_`, or the same of the audio, and
the segments that were given to the source. -/
structure TrackState where
  pkts : List Packet := []
  bytes : ℤ := 0
  seqNo : BitVec 64 := 1
  segments : List Reaped := []

def TrackState.frames (s : TrackState) : List Packet :=
  s.segments.flatMap (fun r ↦ r.first :: r.rest) ++ s.pkts

/-- A track as a sequence of batches: a segment stops at the time of the packet that
closed it. -/
def TrackState.batches (s : TrackState) : Batches Packet (BitVec 64) where
  closed := s.segments.map fun r ↦ ⟨r.first, r.rest, r.dts⟩
  pending := s.pkts

structure State where
  video : TrackState := {}
  audio : TrackState := {}
  metadata : Bool := false
  videoHeader : Option Packet := none
  audioHeader : Option Packet := none
  hasVideo : Bool := false
  videoReady : Bool := false
  hasAudio : Bool := false
  audioReady : Bool := false
  streamReady : Bool := false
  videoCodec : Option VideoCodec := none
  audioCodec : Option AudioCodec := none
  videoReaped : Bool := false

def TrackState.reap (s : TrackState) (dts : BitVec 64) : TrackState :=
  match s.pkts with
  | [] => s
  | first :: rest =>
    { pkts := []
      bytes := 0
      seqNo := s.seqNo + 1
      segments := s.segments ++ [⟨s.seqNo, first, rest, dts⟩] }

def TrackState.push (t : Track) (s : TrackState) (p : Packet) : TrackState :=
  { s with
    pkts := s.pkts ++ [p]
    bytes := s.bytes + (p.payload.length - t.headerConsumed p) }

def TrackState.duration (s : TrackState) (p : Packet) : BitVec 64 :=
  match s.pkts with
  | [] => 0
  | first :: _ => (p.timestamp - first.timestamp).signExtend 64

/-- A packet, and what `can_reap_mp4` decides when it is asked. -/
structure Call where
  packet : Packet
  canReap : Bool → BitVec 64 → ℤ → Bool

/-- `configOk` says whether a configuration in the packet is accepted, and `fourcc` is
what the member holds before the tag header is decoded. -/
structure VideoCall extends Call where
  configOk : Bool
  fourcc : ℕ

/-- The configuration that is found in the packet if it is a sequence header. -/
structure AudioCall extends Call where
  audioConfig : Option AudioSpecificConfig

/-- `is_seq_header` after `decode`, which may have stopped in the middle of the header. -/
def VideoCall.isSeqHeader (c : VideoCall) : Bool :=
  match VideoTagHeader.decode c.packet.payload, c.packet.payload with
  | .ok (header, _), _ => header.isSeqHeader
  | .error _, [] => true
  | .error _, b :: data =>
    if b.toNat / 128 = 1 then
      data.length < 4 && c.fourcc == hevcFourccCode &&
        (ExtPacketType.ofCode (b.toNat % 16) = .sequenceStart : Bool)
    else true

/-- The codec that the header is left with, however far it is decoded. -/
def VideoCall.codecId (c : VideoCall) : CodecId :=
  match c.packet.payload with
  | [] => .avc
  | b :: data =>
    if b.toNat / 128 = 1 then
      if (readBE 4 data).map Prod.fst = some hevcFourccCode then .hevc else .avc
    else .ofCode (b.toNat % 16)

/-- The frame type is in the first byte, whatever follows. -/
def isKeyFrame (p : Packet) : Bool :=
  match p.payload with
  | [] => false
  | b :: _ => FrameType.ofCode (b.toNat / 16 % 8) = .keyFrame

def AudioCall.isSeqHeader (c : AudioCall) : Bool :=
  match AudioTagHeader.decode c.packet.payload with
  | .ok (header, _) => header.isSeqHeader
  | .error _ => false

namespace State

/-- The codecs and the audio header are used without asking whether they are there. -/
def generateCombinedInitSeg (s : State) : Outcome Unit :=
  match s.videoCodec, s.audioCodec with
  | some .hevc, _ => .ok ()
  | _, some .mp3 => .ok ()
  | some .avc, some (.aac (some _)) => if s.audioHeader.isNone then .fault .nullDeref else .ok ()
  | _, _ => .fault .nullDeref

def onStreamReady (s : State) : Outcome Unit :=
  if s.hasVideo && s.videoHeader.isNone then .ok ()
  else if s.hasAudio && s.audioHeader.isNone then .ok ()
  else s.generateCombinedInitSeg

def isReady (s : State) : Bool :=
  s.metadata && (if s.hasAudio then s.audioReady else true) && (if s.hasVideo then s.videoReady else true)

def checkReady (s : State) : Outcome State :=
  if s.streamReady || !s.isReady then .ok s
  else do
    let _ ← s.onStreamReady
    return { s with streamReady := true }

def takeVideo (s : State) (c : VideoCall) : State × Bool :=
  let p := c.packet
  let isKey := isKeyFrame p
  if s.video.pkts = [] ∧ isKey = false then (s, false)
  else
    let s :=
      if 2 ≤ s.video.pkts.length ∧ c.canReap isKey (s.video.duration p) s.video.bytes = true then
        { s with video := s.video.reap p.time, videoReaped := true }
      else s
    ({ s with video := s.video.push videoTrack p }, true)

def takeAudio (s : State) (c : AudioCall) : State × Bool :=
  let p := c.packet
  let s :=
    if 2 ≤ s.audio.pkts.length ∧
        (c.canReap false (s.audio.duration p) s.audio.bytes || s.videoReaped) = true then
      { s with audio := s.audio.reap p.time, videoReaped := false }
    else s
  ({ s with audio := s.audio.push audioTrack p }, true)

def processH264Packet (s : State) (c : VideoCall) : Outcome (State × Bool) :=
  if videoTrack.headerConsumed c.packet < 0 then .ok (s, false)
  else if c.isSeqHeader then
    .ok ({ s with videoReady := true, videoHeader := some c.packet }, c.configOk)
  else do
    let s ← s.checkReady
    return s.takeVideo c

/-- Nothing but the sequence headers is used. -/
def processH265Packet (s : State) (c : VideoCall) : State × Bool :=
  if videoTrack.headerConsumed c.packet < 0 then (s, false)
  else if c.isSeqHeader then
    ({ s with videoReady := true, videoHeader := some c.packet }, c.configOk)
  else (s, true)

def processAacPacket (s : State) (c : AudioCall) : Outcome (State × Bool) :=
  if audioTrack.headerConsumed c.packet < 0 then .ok (s, false)
  else if c.isSeqHeader then
    let s := { s with audioReady := true, audioHeader := some c.packet }
    match c.audioConfig with
    | none => .ok (s, false)
    | some config => .ok ({ s with audioCodec := some (.aac (some config)) }, true)
  else if s.audioReady = false then .ok (s, false)
  else do
    let s ← s.checkReady
    return s.takeAudio c

/-- A codec that is not there yet is made from the tag header. -/
def onVideoPacket (s : State) (c : VideoCall) : Outcome (State × Bool) :=
  match s.videoCodec.or (codecOf c.codecId) with
  | none => .ok (s, false)
  | some .avc => { s with videoCodec := some .avc }.processH264Packet c
  | some .hevc => .ok ({ s with videoCodec := some .hevc }.processH265Packet c)

def onAudioPacket (s : State) (c : AudioCall) : Outcome (State × Bool) :=
  match s.audioCodec with
  | none => .ok (s, false)
  | some (.aac _) => s.processAacPacket c
  | some .mp3 => .ok (s, true)

def setAudio (s : State) (audioCodecId : Option SoundFormat) : State × Bool :=
  match audioCodecId with
  | none => (s, true)
  | some .aac => ({ s with audioCodec := some (.aac none) }, true)
  | some .mp3 => ({ s with audioCodec := some .mp3 }, true)
  | some _ => (s, false)

def onMetadata (s : State) : Option Metadata → State × Bool
  | none => ({ s with metadata := true }, false)
  | some m =>
    let s := { s with
      metadata := true
      hasVideo := m.videoCodecId.isSome
      hasAudio := m.audioCodecId.isSome }
    match m.videoCodecId.map codecOf with
    | some none => (s, false)
    | some (some codec) => { s with videoCodec := some codec }.setAudio m.audioCodecId
    | none => s.setAudio m.audioCodecId

end State

inductive Event
  | metadata (m : Option Metadata)
  | video (c : VideoCall)
  | audio (c : AudioCall)

def process (s : State) : Event → Outcome (State × Bool)
  | .metadata m => .ok (s.onMetadata m)
  | .video c => s.onVideoPacket c
  | .audio c => s.onAudioPacket c

def run (s : State) : List Event → Outcome State
  | [] => .ok s
  | e :: es => do
    let (s, _) ← process s e
    run s es

/-- The frame in a message that `process_h264_packet` is called with: its tag header
decodes and is not a sequence header. -/
def videoFrame (s : State) : Event → Option Packet
  | .video c =>
    if s.videoCodec.or (codecOf c.codecId) = some .avc ∧ 0 ≤ videoTrack.headerConsumed c.packet ∧
      c.isSeqHeader = false then some c.packet else none
  | _ => none

def State.isAac (s : State) : Bool :=
  match s.audioCodec with
  | some (.aac _) => true
  | _ => false

def audioFrame (s : State) : Event → Option Packet
  | .audio c =>
    if s.isAac ∧ 0 ≤ audioTrack.headerConsumed c.packet ∧ c.isSeqHeader = false then
      some c.packet else none
  | _ => none

def isAudioConfig (s : State) : Event → Bool
  | .audio c => s.isAac && decide (0 ≤ audioTrack.headerConsumed c.packet) && c.isSeqHeader
  | _ => false

/-- The messages of a run up to one that is not survived, each with the state that it finds. -/
def steps (s : State) : List Event → List (State × Event)
  | [] => []
  | e :: es =>
    (s, e) :: match process s e with
      | .ok (s', _) => steps s' es
      | _ => []

def acceptedIn (frame : State → Event → Option Packet) (s : State) (e : Event) : Option Packet :=
  match process s e with
  | .ok (_, true) => frame s e
  | _ => none

def accepted (frame : State → Event → Option Packet) (s : State) (es : List Event) : List Packet :=
  (steps s es).filterMap fun step ↦ acceptedIn frame step.1 step.2

end Process

section Ready

/-- What the combined segment is made of is there, or it is not made. -/
def Combines (s : State) : Prop :=
  s.videoCodec = some .hevc ∨ s.audioCodec = some .mp3 ∨
    s.videoCodec = some .avc ∧ ∃ config, s.audioCodec = some (.aac (some config))

/-- The state in which a message is processed: its codec is made when there is none. -/
def withCodec (s : State) : Event → State
  | .video c => { s with videoCodec := s.videoCodec.or (codecOf c.codecId) }
  | _ => s

def opensStream (s : State) (e : Event) : Bool :=
  !s.streamReady && s.isReady &&
    ((videoFrame s e).isSome || s.audioReady && (audioFrame s e).isSome)

/-- A frame does not open the stream before the codecs of the combined segment are there. -/
def OpensSoundly (s : State) (e : Event) : Prop := opensStream s e = true → Combines (withCodec s e)

structure Headers (s : State) : Prop where
  video : s.videoReady = s.videoHeader.isSome
  audio : s.audioReady = s.audioHeader.isSome
  config : ∀ config, s.audioCodec = some (.aac (some config)) → s.audioHeader.isSome

theorem generateCombinedInitSeg_ok_iff {s : State} (h : Headers s) :
    s.generateCombinedInitSeg = .ok () ↔ Combines s := by
  have hconfig := h.config
  unfold State.generateCombinedInitSeg Combines
  rcases hv : s.videoCodec with _ | _ | _ <;> rcases ha : s.audioCodec with _ | (_ | config) | _ <;> simp
  rw [ha] at hconfig
  exact Option.isSome_iff_ne_none.mp (hconfig config rfl)

theorem onStreamReady_eq {s : State} (h : Headers s) (hready : s.isReady = true) :
    s.onStreamReady = s.generateCombinedInitSeg := by
  have hvideo := h.video
  have haudio := h.audio
  unfold State.isReady at hready
  have hv : (s.hasVideo && s.videoHeader.isNone) = false := by
    rw [← Option.not_isSome, ← hvideo]
    grind
  have ha : (s.hasAudio && s.audioHeader.isNone) = false := by
    rw [← Option.not_isSome, ← haudio]
    grind
  rw [State.onStreamReady, hv, ha]
  rfl

theorem checkReady_eq_ok {s s' : State} (h : s.checkReady = .ok s') :
    ∃ b, s' = { s with streamReady := b } := by
  unfold State.checkReady at h
  split at h
  · cases h
    exact ⟨s.streamReady, rfl⟩
  · obtain ⟨-, -, hs'⟩ := Outcome.bind_eq_ok.mp h
    cases hs'
    exact ⟨true, rfl⟩

theorem checkReady_ok_iff {s : State} (h : Headers s) :
    (∃ s', s.checkReady = .ok s') ↔ ((!s.streamReady && s.isReady) = true → Combines s) := by
  unfold State.checkReady
  by_cases hclosed : (s.streamReady || !s.isReady) = true
  · rw [if_pos hclosed]
    refine ⟨fun _ hopen ↦ ?_, fun _ ↦ ⟨s, rfl⟩⟩
    grind
  · have hopen : (!s.streamReady && s.isReady) = true := by grind
    have hready : s.isReady = true := by grind
    rw [if_neg hclosed, onStreamReady_eq h hready, ← generateCombinedInitSeg_ok_iff h]
    constructor
    · rintro ⟨s', hs'⟩ -
      obtain ⟨_, hok, -⟩ := Outcome.bind_eq_ok.mp hs'
      exact hok
    · intro hok
      rw [hok hopen]
      exact ⟨_, rfl⟩

end Ready

section Steps

/-- What a message does that is not a frame. -/
structure Quiet (s : State) (e : Event) (s' : State) : Prop where
  video : s'.video = s.video
  audio : s'.audio = s.audio
  audioReady : s'.audioReady = (s.audioReady || isAudioConfig s e)
  headers : Headers s → Headers s'

theorem Quiet.refl {s : State} {e : Event} (h : isAudioConfig s e = false) : Quiet s e s :=
  ⟨rfl, rfl, by rw [h, Bool.or_false], id⟩

theorem Quiet.videoHeader {s t : State} {c : VideoCall} (h : Quiet s (.video c) t) :
    Quiet s (.video c) { t with videoReady := true, videoHeader := some c.packet } :=
  ⟨h.video, h.audio, h.audioReady, fun hs ↦ ⟨rfl, (h.headers hs).audio, (h.headers hs).config⟩⟩

theorem setAudio_quiet {s t : State} {m : Option Metadata} (h : Quiet s (.metadata m) t)
    (audioCodecId : Option SoundFormat) : Quiet s (.metadata m) (t.setAudio audioCodecId).1 := by
  unfold State.setAudio
  split
  · exact h
  · exact ⟨h.video, h.audio, h.audioReady, fun hs ↦ ⟨(h.headers hs).video, (h.headers hs).audio, nofun⟩⟩
  · exact ⟨h.video, h.audio, h.audioReady, fun hs ↦ ⟨(h.headers hs).video, (h.headers hs).audio, nofun⟩⟩
  · exact h

theorem onMetadata_quiet (s : State) (m : Option Metadata) :
    Quiet s (.metadata m) (s.onMetadata m).1 := by
  have hready : s.audioReady = (s.audioReady || isAudioConfig s (.metadata m)) := (Bool.or_false _).symm
  cases m with
  | none => exact ⟨rfl, rfl, hready, fun hs ↦ ⟨hs.video, hs.audio, hs.config⟩⟩
  | some m =>
    unfold State.onMetadata
    simp only
    split
    · exact ⟨rfl, rfl, hready, fun hs ↦ ⟨hs.video, hs.audio, hs.config⟩⟩
    · apply setAudio_quiet
      exact ⟨rfl, rfl, hready, fun hs ↦ ⟨hs.video, hs.audio, hs.config⟩⟩
    · apply setAudio_quiet
      exact ⟨rfl, rfl, hready, fun hs ↦ ⟨hs.video, hs.audio, hs.config⟩⟩

theorem process_video_frame {s : State} {c : VideoCall} {p : Packet} (h : videoFrame s (.video c) = some p) :
    p = c.packet ∧ process s (.video c) = do
      let s ← (withCodec s (.video c)).checkReady
      return s.takeVideo c := by
  simp only [videoFrame, Option.ite_none_right_eq_some, Option.some_inj] at h
  obtain ⟨⟨hcodec, hheader, hseq⟩, rfl⟩ := h
  refine ⟨rfl, ?_⟩
  rw [process, State.onVideoPacket, withCodec, hcodec]
  simp only [State.processH264Packet, hseq, Bool.false_eq_true, if_false, if_neg (not_lt.mpr hheader)]

theorem process_video_other {s : State} {c : VideoCall} (h : videoFrame s (.video c) = none) :
    ∃ s' ok, process s (.video c) = .ok (s', ok) ∧ Quiet s (.video c) s' := by
  have hcodec (codec : VideoCodec) : Quiet s (.video c) { s with videoCodec := some codec } :=
    ⟨rfl, rfl, (Bool.or_false _).symm, fun hs ↦ ⟨hs.video, hs.audio, hs.config⟩⟩
  rw [process, State.onVideoPacket]
  split
  · exact ⟨_, _, rfl, .refl rfl⟩
  · rename_i havc
    simp only [videoFrame, havc, true_and, ite_eq_right_iff, reduceCtorEq, imp_false, not_and] at h
    unfold State.processH264Packet
    split
    · exact ⟨_, _, rfl, hcodec .avc⟩
    · rename_i hheader
      rw [if_pos ((Bool.not_eq_false _).mp (h (not_lt.mp hheader)))]
      exact ⟨_, _, rfl, (hcodec .avc).videoHeader⟩
  · have hquiet : Quiet s (.video c) ({ s with videoCodec := some .hevc }.processH265Packet c).1 := by
      unfold State.processH265Packet
      split
      · exact hcodec .hevc
      · split
        · exact (hcodec .hevc).videoHeader
        · exact hcodec .hevc
    exact ⟨_, _, rfl, hquiet⟩

theorem process_audio_frame {s : State} {c : AudioCall} {p : Packet} (h : audioFrame s (.audio c) = some p) :
    p = c.packet ∧ isAudioConfig s (.audio c) = false ∧ process s (.audio c) =
      if s.audioReady = false then .ok (s, false) else do
        let s ← s.checkReady
        return s.takeAudio c := by
  simp only [audioFrame, Option.ite_none_right_eq_some, Option.some_inj] at h
  obtain ⟨⟨haac, hheader, hseq⟩, rfl⟩ := h
  refine ⟨rfl, by simp only [isAudioConfig, hseq, Bool.and_false], ?_⟩
  rw [process, State.onAudioPacket]
  unfold State.isAac at haac
  split at haac
  · rename_i config hcodec
    rw [hcodec]
    simp only [State.processAacPacket, hseq, Bool.false_eq_true, if_false, if_neg (not_lt.mpr hheader)]
  · cases haac

theorem process_audio_other {s : State} {c : AudioCall} (h : audioFrame s (.audio c) = none) :
    ∃ s' ok, process s (.audio c) = .ok (s', ok) ∧ Quiet s (.audio c) s' := by
  rw [process, State.onAudioPacket]
  split
  · rename_i hcodec
    exact ⟨_, _, rfl, .refl (by simp [isAudioConfig, State.isAac, hcodec])⟩
  · rename_i config hcodec
    have haac : s.isAac = true := by rw [State.isAac, hcodec]
    simp only [audioFrame, haac, true_and, ite_eq_right_iff, reduceCtorEq, imp_false, not_and] at h
    unfold State.processAacPacket
    split
    · rename_i hheader
      exact ⟨_, _, rfl, .refl (by simp [isAudioConfig, not_le.mpr hheader])⟩
    · rename_i hheader
      have hseq := (Bool.not_eq_false _).mp (h (not_lt.mp hheader))
      have hready : isAudioConfig s (.audio c) = true := by
        simp [isAudioConfig, haac, hseq, not_lt.mp hheader]
      rw [if_pos hseq]
      simp only
      split
      · refine ⟨_, _, rfl, rfl, rfl, by rw [hready, Bool.or_true], ?_⟩
        exact fun hs ↦ ⟨hs.video, rfl, fun _ _ ↦ rfl⟩
      · refine ⟨_, _, rfl, rfl, rfl, by rw [hready, Bool.or_true], ?_⟩
        exact fun hs ↦ ⟨hs.video, rfl, fun _ _ ↦ rfl⟩
  · rename_i hcodec
    exact ⟨_, _, rfl, .refl (by simp [isAudioConfig, State.isAac, hcodec])⟩

theorem ok_bind_iff {o : Outcome State} (take : State → State × Bool) :
    (∃ r, (o >>= fun s ↦ pure (take s)) = Outcome.ok r) ↔ ∃ s', o = .ok s' := by
  constructor
  · rintro ⟨r, hr⟩
    obtain ⟨s', hs', -⟩ := Outcome.bind_eq_ok.mp hr
    exact ⟨s', hs'⟩
  · rintro ⟨s', rfl⟩
    exact ⟨_, rfl⟩

/-- Nothing else ends the run. -/
theorem process_ok_iff {s : State} (h : Headers s) (e : Event) :
    (∃ r, process s e = .ok r) ↔ OpensSoundly s e := by
  cases e with
  | metadata m => simp [process, OpensSoundly, opensStream, videoFrame, audioFrame]
  | video c =>
    have hnot : audioFrame s (.video c) = none := rfl
    cases hframe : videoFrame s (.video c) with
    | none =>
      obtain ⟨s', ok, hs', -⟩ := process_video_other hframe
      simp [OpensSoundly, opensStream, hframe, hnot, hs']
    | some p =>
      have hheaders : Headers (withCodec s (.video c)) := ⟨h.video, h.audio, h.config⟩
      have hready : (withCodec s (.video c)).isReady = s.isReady := rfl
      have hopen : (withCodec s (.video c)).streamReady = s.streamReady := rfl
      rw [(process_video_frame hframe).2, ok_bind_iff, checkReady_ok_iff hheaders, hready, hopen]
      simp [OpensSoundly, opensStream, hframe]
  | audio c =>
    have hnot : videoFrame s (.audio c) = none := rfl
    cases hframe : audioFrame s (.audio c) with
    | none =>
      obtain ⟨s', ok, hs', -⟩ := process_audio_other hframe
      simp [OpensSoundly, opensStream, hframe, hnot, hs']
    | some p =>
      rw [(process_audio_frame hframe).2.2]
      by_cases hready : s.audioReady = false
      · simp [OpensSoundly, opensStream, hnot, hready]
      · rw [if_neg hready, ok_bind_iff, checkReady_ok_iff h]
        simp [OpensSoundly, opensStream, hframe, hready, withCodec]

end Steps

end MmsServer.M4s.RtmpToM4s
