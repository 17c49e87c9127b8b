import MmsServer.Base.BitStream
import MmsServer.Rtp.Assembler

namespace MmsServer.Rtp.AacBridge

open Lib.ByteReader Lib.Checked Base.BitStream Rtmp.Define Rtmp.FlvTag Packer Depacketizer
  Assembler

def mpeg4audioSampleRates : List ℕ :=
  [96000, 88200, 64000, 48000, 44100, 32000, 24000, 22050, 16000, 12000, 11025, 8000, 7350, 0, 0, 0]

structure AudioSpecificConfig where
  audioObjectType : ℕ
  frequencyIndex : ℕ
  samplingFrequency : BitVec 32
  channelConfiguration : ℕ
deriving DecidableEq

def aotEscape : ℕ := 31

/-- The frequency for an index and the position behind it. An explicit one has 24
bits, of which 12 are kept. -/
def readFrequency (data : Bytes) (frequencyIndex pos : ℕ) : Outcome (ℕ × ℕ) :=
  if frequencyIndex = 15 then do
    let v ← readU 64 data 24 pos 0
    return (v % 2 ^ 12, pos + 24)
  else return (mpeg4audioSampleRates.getD frequencyIndex 0, pos)

def AudioSpecificConfig.parse (data : Bytes) : Outcome (AudioSpecificConfig × ℕ) :=
  if data = [] then .err (-1)
  else do
    let audioObjectType ← readU 64 data 5 0 0
    let escapeBits := if audioObjectType = aotEscape then 6 else 0
    let _ ← readU 64 data escapeBits 5 0
    let frequencyIndex ← readU 64 data 4 (5 + escapeBits) 0
    let (frequency, pos) ← readFrequency data frequencyIndex (9 + escapeBits)
    let channelConfiguration ← readU 64 data 4 pos 0
    let config : AudioSpecificConfig :=
      { audioObjectType := audioObjectType
        frequencyIndex := frequencyIndex
        samplingFrequency := .ofNat 32 frequency
        channelConfiguration := channelConfiguration }
    return (config, (pos + 4 + 7) / 8)

structure RtmpToRtsp where
  audioReady : Bool
  audioSpecificConfig : Option AudioSpecificConfig
  firstAudioPts : ℤ
  audioPt : UInt8
  rtpSeqnum : BitVec 16

def audioBufBytes : ℕ := 8192

/-- What is written to `audio_buf_`: the bits of the AU headers, one AU header of
13 and 3 bits, and the frame. -/
def auSection (frame : Bytes) : Outcome Bytes := do
  let auHeader ← writeBits [0, 0] 13 0 frame.length
  let auHeader ← writeBits auHeader 3 13 0
  if 4 + frame.length ≤ audioBufBytes then return putBE 2 16 ++ (auHeader ++ frame)
  else .fault .overrun

namespace RtmpToRtsp

/-- `first_audio_pts_` is set at the first frame. -/
def start (s : RtmpToRtsp) (audioPkt : RtmpMessage) : RtmpToRtsp :=
  if s.firstAudioPts = 0 then { s with firstAudioPts := audioPkt.timestamp.toInt } else s

def rtpTimestamp (s : RtmpToRtsp) (config : AudioSpecificConfig) (audioPkt : RtmpMessage) :
    BitVec 32 :=
  let elapsed := audioPkt.timestamp.toInt - s.firstAudioPts
  .ofInt 32 ((elapsed * config.samplingFrequency.toNat).tdiv 1000)

def stream (s : RtmpToRtsp) (config : AudioSpecificConfig) (audioPkt : RtmpMessage) : Stream where
  pt := s.audioPt
  ssrc := 0
  pts := s.rtpTimestamp config audioPkt

def processAacPacket (s : RtmpToRtsp) (audioPkt : RtmpMessage) :
    Outcome (RtmpToRtsp × Option (List RtpPacket)) :=
  match AudioTagHeader.decode audioPkt.usingData with
  | .error _ => return (s, none)
  | .ok (header, headerConsumed) =>
    let payload := audioPkt.usingData.drop headerConsumed
    if header.isSeqHeader then
      let s := { s with audioReady := true }
      match AudioSpecificConfig.parse payload with
      | .ok (config, _) => return ({ s with audioSpecificConfig := some config }, none)
      | .err _ => return (s, none)
      | .fault f => .fault f
    else if s.audioReady then
      let s := s.start audioPkt
      match s.audioSpecificConfig with
      | none => return (s, none)
      | some config => do
        let data ← auSection payload
        let pkts := packRaw (s.stream config audioPkt) s.rtpSeqnum data
        let rtpSeqnum := (pkts.getLast?.map (·.seqnum)).getD s.rtpSeqnum
        return ({ s with rtpSeqnum := rtpSeqnum }, some pkts)
    else return (s, none)

end RtmpToRtsp

structure AUConfig where
  sizeLength : ℕ
  indexLength : ℕ
deriving DecidableEq

def AUConfig.perHeaderBytes (au : AUConfig) : ℕ := (au.sizeLength + au.indexLength + 7) / 8

def audioFrameCacheBytes : ℕ := 1024 * 20

/-- `memcpy` to `buf`, behind the bytes of `audio_frame_cache_` written before. -/
def putFrame (frame bs : Bytes) : Outcome Bytes :=
  if frame.length + bs.length ≤ audioFrameCacheBytes then return frame ++ bs
  else .fault .overrun

section Generate

variable (au : AUConfig)

/-- The loop over the AU headers of a packet. `left_bytes` stays what it is, and a
negative one is a huge size for `memcpy`. A frame is missing where the code returns
no message. -/
def auUnits (payload : Bytes) (leftBytes : ℤ) :
    (count bitPos auSectionBuf : ℕ) → Bytes → Outcome (Option Bytes)
  | 0, _, _, frame => return some frame
  | count + 1, bitPos, auSectionBuf, frame => do
    let auSize ← readU 16 (payload.drop 2) au.sizeLength bitPos 0
    if auSize = 0 then return none
    else
      let _ ← readU 16 (payload.drop 2) au.indexLength (bitPos + au.sizeLength) 0
      if leftBytes < 0 then .fault .overread
      else
        let copyBytes := min auSize leftBytes.toNat
        let bytes ← slice auSectionBuf copyBytes payload
        let frame ← putFrame frame bytes
        auUnits payload leftBytes count (bitPos + au.sizeLength + au.indexLength)
          (auSectionBuf + copyBytes) frame

def auPacket (frame payload : Bytes) : Outcome (Option Bytes) := do
  let auHeaderBits ← load 2 0 payload
  if auHeaderBits % 8 ≠ 0 then return none
  else
    let auHeaderBytesTotal := auHeaderBits / 8
    let auHeaderCount := auHeaderBytesTotal / au.perHeaderBytes
    if auHeaderCount * au.perHeaderBytes ≠ auHeaderBytesTotal then return none
    else
      let leftBytes : ℤ := payload.length - (2 + auHeaderBytesTotal)
      auUnits au payload leftBytes auHeaderCount 0 (2 + auHeaderBytesTotal) frame

/-- The loop over the packets, up to the one with the marker. -/
def auPackets : Bytes → List RtpPacket → Outcome (Option Bytes)
  | _, [] => return none
  | frame, p :: ps =>
    if au.sizeLength = 0 then auPackets frame ps
    else do
      match ← auPacket au frame p.payload with
      | none => return none
      | some frame => if p.marker then return some frame else auPackets frame ps

end Generate

def flvAudioTag : UInt8 := 8

def aacRaw : UInt8 := 1

def soundRate (config : AudioSpecificConfig) : ℕ :=
  if config.samplingFrequency = 44100 then 3
  else if config.samplingFrequency = 11025 then 1
  else if config.samplingFrequency = 22050 then 2
  else 3

def audioMessage (config : AudioSpecificConfig) (timestamp : BitVec 32) (frame : Bytes) :
    RtmpMessage :=
  let header : AudioTagHeader :=
    { soundFormat := .aac, soundRate := soundRate config, soundSize := 1, aacPacketType := aacRaw }
  { Packet.ofBytes (header.encode ++ frame) with
    messageStreamId := 0
    chunkStreamId := 9
    messageTypeId := flvAudioTag
    timestamp := timestamp }

structure RtspToRtmp where
  pktsBuf : PktsBuf
  audioSpecificConfig : Option AudioSpecificConfig
  auConfig : Option AUConfig
  firstRtpAudioTs : BitVec 32

namespace RtspToRtmp

def generateAacRtmpMessage (r : RtspToRtmp) (timestamp : BitVec 32) (pkts : List RtpPacket) :
    Outcome (Option RtmpMessage) :=
  match r.auConfig with
  | none => return none
  | some au => do
    match ← auPackets au [] pkts with
    | none => return none
    | some frame =>
      match r.audioSpecificConfig with
      | none => return none
      | some config => return some (audioMessage config timestamp frame)

def processAacPacket (r : RtspToRtmp) (p : RtpPacket) : Outcome (RtspToRtmp × Option RtmpMessage) :=
  match RtpAACDepacketizer.onPacket r.pktsBuf p with
  | (buf, none) => return ({ r with pktsBuf := buf }, none)
  | (buf, some pkts) =>
    let r := { r with pktsBuf := buf }
    match r.audioSpecificConfig with
    | none => return (r, none)
    | some config => do
      if config.samplingFrequency = 0 then return (r, none)
      else
        let timestamp := (getTimestamp pkts - r.firstRtpAudioTs) * 1000 / config.samplingFrequency
        let msg ← r.generateAacRtmpMessage timestamp pkts
        return (r, msg)

end RtspToRtmp

end MmsServer.Rtp.AacBridge
