import MmsServer.Rtmp.FlvTag
import MmsServer.Rtp.AacBridge
import MmsServer.Ts.Packetizer

namespace MmsServer.Ts.RtmpBridge

open Lib.ByteReader Lib.Checked Rtmp.FlvTag Rtp.AacBridge Segment Packetizer

def patPid : BitVec 16 := 0

def pmtPid : BitVec 16 := 0x1001

def audioPid : BitVec 16 := 0x101

/-- The codec of the audio; that of AAC holds the config of the last sequence header. -/
inductive AudioCodec
  | aac (audioConfig : Option AudioSpecificConfig)
  | mp3

/-- A part of a PES packet in a place of its own, or in a slot of `adts_headers_`. -/
inductive View
  | bytes (bs : Bytes)
  | adts (index : ℕ)

def View.read (adtsHeaders : List Bytes) : View → Bytes
  | .bytes bs => bs
  | .adts index => adtsHeaders.getD index []

/-- The first part is reserved for the PES header. -/
structure AudioBuff where
  audioPesSegs : List View := [.bytes []]
  audioPesLen : ℕ := 0
  timestamp : ℤ := 0

def adtsReserved : ℕ := 200

structure Bridge where
  hasVideo : Bool := false
  hasAudio : Bool := false
  videoCodec : Option VideoCodec := none
  audioCodec : Option AudioCodec := none
  audioReady : Bool := false
  pcrPid : BitVec 16 := -1
  currSeg : Option TsSegment := none
  continuityCounter : BitVec 16 → UInt8 := fun _ ↦ 0
  adtsHeaders : List Bytes := List.replicate adtsReserved []
  adtsHeaderIndex : ℕ := 0
  audioBuf : AudioBuff := {}

/-- The headers of the packets with the tables of a new segment, the PES packet that
is handed on, and the packets that it is cut into. -/
structure Emitted where
  tables : List Bytes := []
  pes : Option Bytes := none
  writes : List TsWrite := []

def Emitted.headers (e : Emitted) : List Bytes := e.tables ++ e.writes.map TsWrite.header

abbrev Processed := Outcome (Bridge × Bool × Emitted)

structure Metadata where
  videoCodecId : Option CodecId
  audioCodecId : Option SoundFormat

/-- What a video message turns out to be: what its tag header says, whether the
configuration in it is accepted, and the PES packet of its NAL units. -/
structure VideoMessage where
  codecId : CodecId
  decodes : Bool
  isSeqHeader : Bool
  isKey : Bool
  configOk : Bool
  canReap : Bool
  videoPesSegs : Option (List Bytes)
  dts : BitVec 64

structure AudioMessage where
  payload : Bytes
  timestamp : BitVec 32
  canReap : Bool

inductive Message
  | metadata (m : Option Metadata)
  | video (m : VideoMessage)
  | audio (m : AudioMessage)

def codecOf : CodecId → Option VideoCodec
  | .avc => some .avc
  | .hevc => some .hevc
  | .hevcFourcc => some .hevc
  | .other _ => none

namespace Bridge

/-- A codec is made anew, and with it the counter of its packets. -/
def setVideoCodec (s : Bridge) (codec : VideoCodec) : Bridge :=
  { s with
    videoCodec := some codec
    continuityCounter := Function.update s.continuityCounter codec.pid 0 }

def setAudioCodec (s : Bridge) (codec : AudioCodec) : Bridge :=
  { s with
    audioCodec := some codec
    continuityCounter := Function.update s.continuityCounter audioPid 0 }

def setPcrPid (s : Bridge) : Bridge :=
  if s.hasVideo then { s with pcrPid := (s.videoCodec.map VideoCodec.pid).getD (-1) }
  else if s.hasAudio then { s with pcrPid := audioPid }
  else s

def setAudio (s : Bridge) (audioCodecId : Option SoundFormat) : Bridge × Bool :=
  match audioCodecId with
  | none => (s.setPcrPid, true)
  | some .aac => ((s.setAudioCodec (.aac none)).setPcrPid, true)
  | some .mp3 => ((s.setAudioCodec .mp3).setPcrPid, true)
  | some _ => (s, false)

/-- A codec that is not supported ends the work in the middle. -/
def onMetadata (s : Bridge) : Option Metadata → Bridge × Bool
  | none => (s, false)
  | some m =>
    let s := { s with hasVideo := m.videoCodecId.isSome, hasAudio := m.audioCodecId.isSome }
    match m.videoCodecId.map codecOf with
    | some none => (s, false)
    | some (some codec) => (s.setVideoCodec codec).setAudio m.audioCodecId
    | none => s.setAudio m.audioCodecId

def reap (s : Bridge) (canReap : Bool) : Bridge :=
  if s.currSeg.isSome && canReap then { s with currSeg := none } else s

/-- `create_pat` and `create_pmt` write the counter 0. -/
def tableHeaders : List Bytes := [tsHeader patPid true false 0, tsHeader pmtPid true false 0]

theorem noChunks : 1 = 0 + 1 := rfl

theorem noPackets_aligned : 188 ∣ 0 := Nat.dvd_zero 188

theorem noPackets_le : 0 ≤ singleTsBytes := Nat.zero_le singleTsBytes

def newSegment : TsSegment where
  chunks_eq := noChunks
  aligned := noPackets_aligned
  off_le := noPackets_le

/-- The current segment, or a new one that starts with the tables. -/
def openSegment (s : Bridge) : TsSegment × List Bytes :=
  match s.currSeg with
  | some seg => (seg, [])
  | none => (newSegment.allocTsPacket.2.allocTsPacket.2, tableHeaders)

def processVideoPes (s : Bridge) (codec : VideoCodec) (m : VideoMessage) : Processed :=
  let (seg, tables) := s.openSegment
  match m.videoPesSegs with
  | none => .ok ({ s with currSeg := some seg }, false, { tables := tables })
  | some segs =>
    let pes : PesPacket := { dts := m.dts }
    match createVideoTs ⟨codec, s.pcrPid, seg, s.continuityCounter⟩ pes segs segs.flatten.length
      m.isKey with
    | none => .fault .pastEnd
    | some r => .ok
      ({ s with currSeg := some r.state.currSeg, continuityCounter := r.state.continuityCounter },
        true, { tables := tables, pes := some segs.flatten, writes := r.writes })

def processH264Packet (s : Bridge) (m : VideoMessage) : Processed :=
  if m.decodes = false then .ok (s, false, {})
  else if m.isSeqHeader then .ok (s, m.configOk, {})
  else (s.reap m.canReap).processVideoPes .avc m

/-- A segment starts with a key frame. -/
def processH265Packet (s : Bridge) (m : VideoMessage) : Processed :=
  if m.decodes = false then .ok (s, false, {})
  else if m.isSeqHeader then .ok (s, m.configOk, {})
  else if s.currSeg.isNone && !m.isKey then .ok (s, false, {})
  else (s.reap m.canReap).processVideoPes .hevc m

def onVideoPacket (s : Bridge) (m : VideoMessage) : Processed :=
  let made := match s.videoCodec with
    | some codec => some (s, codec)
    | none => (codecOf m.codecId).map fun codec ↦ (s.setVideoCodec codec, codec)
  match made with
  | none => .ok (s, false, {})
  | some (s, .avc) => s.processH264Packet m
  | some (s, .hevc) => s.processH265Packet m

end Bridge

/-- Main, LC and SSR. -/
def adtsProfile (audioObjectType : ℕ) : Option ℕ :=
  match audioObjectType with
  | 1 => some 0
  | 2 => some 1
  | 3 => some 2
  | _ => none

def adtsHeader (aacProfile : ℕ) (audioConfig : AudioSpecificConfig) (frameLength : ℕ) : Bytes :=
  [0xff, 0xf9,
    UInt8.ofNat (aacProfile * 64 + audioConfig.frequencyIndex % 16 * 4 +
      audioConfig.channelConfiguration / 4 % 2),
    UInt8.ofNat (audioConfig.channelConfiguration % 4 * 64 + frameLength / 2 ^ 11 % 4),
    UInt8.ofNat (frameLength / 8),
    UInt8.ofNat (frameLength % 8 * 32 + 0x1f),
    0xfc]

def ptsBytes (pts : ℕ) : Bytes :=
  UInt8.ofNat (0x30 + pts / 2 ^ 30 % 8 * 2 + 1) ::
    (putBE 2 (pts / 2 ^ 15 % 2 ^ 15 * 2 + 1) ++ putBE 2 (pts % 2 ^ 15 * 2 + 1))

def audioPesHeader (payloadSize : ℕ) (timestamp : ℤ) : Bytes :=
  [0x00, 0x00, 0x01, 0xc0] ++
    putBE 2 (if 0xffff < 3 + 5 + payloadSize then 0 else 3 + 5 + payloadSize) ++
    [0x80, 0x80, 5] ++ ptsBytes (timestamp * 90 % 2 ^ 64).toNat

/-- `create_audio_ts`: as for video, but never with a PCR. -/
def createAudioTs (seg : TsSegment) (counter : UInt8) (audioPesSegs : List Bytes)
    (audioPesLen : ℕ) : Option PacketRun :=
  packetLoop audioPid none audioPesLen audioPesLen audioPesLen audioPesSegs seg counter

namespace Bridge

/-- The PES packet of all that is buffered. -/
def flushAudio (s : Bridge) (timestamp : ℤ) (adtsHeaderIndex : ℕ) : Processed :=
  let (seg, tables) := s.openSegment
  let header := audioPesHeader s.audioBuf.audioPesLen timestamp
  let segs := (s.audioBuf.audioPesSegs.set 0 (.bytes header)).map (View.read s.adtsHeaders)
  match createAudioTs seg (s.continuityCounter audioPid) segs
    (s.audioBuf.audioPesLen + header.length) with
  | none => .fault .pastEnd
  | some r => .ok
    ({ s with
        currSeg := some r.seg
        continuityCounter := Function.update s.continuityCounter audioPid r.counter
        audioBuf := {}
        adtsHeaderIndex := adtsHeaderIndex },
      true, { tables := tables, pes := some segs.flatten, writes := r.writes })

def bufferFrame (s : Bridge) (header frame : Bytes) (timestamp : ℤ) : Bridge :=
  let buf := s.audioBuf
  { s with
    adtsHeaders := s.adtsHeaders.set s.adtsHeaderIndex header
    adtsHeaderIndex := s.adtsHeaderIndex + 1
    audioBuf :=
      { audioPesSegs := buf.audioPesSegs ++ [.adts s.adtsHeaderIndex, .bytes frame]
        audioPesLen := buf.audioPesLen + (7 + frame.length)
        timestamp := if buf.audioPesLen = 0 then timestamp else buf.timestamp } }

def processAacFrame (s : Bridge) (audioConfig : Option AudioSpecificConfig) (frame : Bytes)
    (m : AudioMessage) : Processed :=
  if s.audioReady = false then .ok (s, false, {})
  else
    let s := s.reap m.canReap
    match audioConfig with
    | none => .fault .nullDeref
    | some config =>
      match adtsProfile config.audioObjectType with
      | none => .ok (s, false, {})
      | some profile =>
        if adtsReserved ≤ s.adtsHeaderIndex then .fault .overrun
        else
          let s := s.bufferFrame (adtsHeader profile config (7 + frame.length)) frame
            m.timestamp.toInt
          if s.audioBuf.audioPesLen < 1400 then .ok (s, true, {})
          else s.flushAudio s.audioBuf.timestamp 0

def processAacPacket (s : Bridge) (audioConfig : Option AudioSpecificConfig) (m : AudioMessage) :
    Processed :=
  match AudioTagHeader.decode m.payload with
  | .error _ => .ok (s, false, {})
  | .ok (header, consumed) =>
    if header.isSeqHeader then
      let s := { s with audioReady := true }
      match AudioSpecificConfig.parse (m.payload.drop consumed) with
      | .ok (config, _) => .ok ({ s with audioCodec := some (.aac (some config)) }, true, {})
      | .err _ => .ok (s, false, {})
      | .fault f => .fault f
    else s.processAacFrame audioConfig (m.payload.drop consumed) m

/-- The index into the ADTS headers keeps its value. -/
def processMp3Packet (s : Bridge) (m : AudioMessage) : Processed :=
  match AudioTagHeader.decode m.payload with
  | .error _ => .ok (s, false, {})
  | .ok (_, consumed) =>
    let s := s.reap m.canReap
    let frame := m.payload.drop consumed
    let buf := s.audioBuf
    let s := { s with
      audioBuf :=
        { buf with
          audioPesSegs := buf.audioPesSegs ++ [View.bytes frame]
          audioPesLen := buf.audioPesLen + frame.length } }
    s.flushAudio m.timestamp.toInt s.adtsHeaderIndex

def onAudioPacket (s : Bridge) (m : AudioMessage) : Processed :=
  match s.audioCodec with
  | none => .ok (s, false, {})
  | some (.aac audioConfig) => s.processAacPacket audioConfig m
  | some .mp3 => s.processMp3Packet m

def process (s : Bridge) : Message → Processed
  | .metadata m => .ok ((s.onMetadata m).1, (s.onMetadata m).2, {})
  | .video m => s.onVideoPacket m
  | .audio m => s.onAudioPacket m

def run (s : Bridge) : List Message → Outcome (Bridge × List Emitted)
  | [] => .ok (s, [])
  | m :: ms => do
    let (s, _, e) ← s.process m
    let (s, es) ← s.run ms
    return (s, e :: es)

end Bridge

end MmsServer.Ts.RtmpBridge
