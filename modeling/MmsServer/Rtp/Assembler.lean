import MmsServer.Lib.Checked
import MmsServer.Rtmp.Define
import MmsServer.Rtp.Depacketizer

namespace MmsServer.Rtp.Assembler

open Lib.ByteReader Lib.Checked Rtmp.Define Packer Depacketizer

def videoFrameCacheBytes : ℕ := 1024 * 1024

/-- `video_frame_cache_`. It is never cleared. -/
structure FrameCache where
  bytes : Bytes
  size_eq : bytes.length = videoFrameCacheBytes

def FrameCache.write (c : FrameCache) (pos : ℕ) (bs : Bytes) : Outcome FrameCache :=
  if h : pos + bs.length ≤ videoFrameCacheBytes then
    .ok
      { bytes := c.bytes.take pos ++ bs ++ c.bytes.drop (pos + bs.length)
        size_eq := by
          have hc := c.size_eq
          simp only [List.length_append, List.length_take, List.length_drop]
          omega }
  else .fault .overrun

/-- Where the iterator stands: at the loop over the packets, in the loop over the
fragments of one NAL unit behind a packet with or without the marker, or behind
the `return`. -/
inductive Loop
  | packets
  | fragments (info : PktInfo) (naluSizeBufPos naluSize : ℕ) (marker : Bool)
  | returned
deriving DecidableEq

structure Assembly where
  cache : FrameCache
  buf : ℕ
  isKey : Bool
  loop : Loop

def Assembly.init (cache : FrameCache) : Assembly := ⟨cache, 0, false, .packets⟩

def Assembly.put (s : Assembly) (bs : Bytes) : Outcome Assembly := do
  let cache ← s.cache.write s.buf bs
  return { s with cache := cache, buf := s.buf + bs.length }

def Assembly.endPacket (s : Assembly) (p : RtpPacket) : Assembly :=
  { s with loop := if p.marker then .returned else .packets }

def h264NaluTypeIDR : ℕ := 5

def stapUnits (s : Assembly) (data : Bytes) : Outcome Assembly :=
  if h : data = [] then return s
  else do
    let naluSize ← load 2 0 data
    let header ← load 1 2 data
    let s := { s with isKey := s.isKey || header % 32 == h264NaluTypeIDR }
    let s ← s.put (putBE 4 naluSize)
    let nalu ← slice 2 naluSize data
    let s ← s.put nalu
    stapUnits s (data.drop (2 + naluSize))
termination_by data.length
decreasing_by
  have hd := List.length_pos_of_ne_nil h
  rw [List.length_drop]
  omega

variable (k : Codec)

def singleNalu (s : Assembly) (info : PktInfo) (p : RtpPacket) : Outcome Assembly := do
  let s := { s with isKey := s.isKey || k.isKeyNalu info.naluType }
  let s ← s.put (putBE 4 p.payload.length)
  let s ← s.put p.payload
  return s.endPacket p

/-- What a fragment adds to the frame, with the header of the NAL unit in front of
the first one. -/
def piece (start : Bool) (payload : Bytes) : Bytes :=
  (if start then k.naluHeader payload else []) ++ payload.drop k.fuHeader

/-- The body of the loop over the fragments, with the length of the NAL unit
written at its end. -/
def fragment (s : Assembly) (info : PktInfo) (naluSizeBufPos naluSize : ℕ) (p : RtpPacket) :
    Outcome Assembly := do
  if p.payload.length < k.fuHeader then .fault .overread
  else
    let s := { s with isKey := s.isKey || (info.startBit && k.isKeyNalu info.naluType) }
    let s ← s.put (piece k info.startBit p.payload)
    let naluSize := naluSize + (piece k info.startBit p.payload).length
    if info.endBit then
      let cache ← s.cache.write naluSizeBufPos (putBE 4 naluSize)
      return { s with cache := cache }.endPacket p
    else return { s with loop := .fragments info naluSizeBufPos naluSize p.marker }

/-- The first fragment. Room for the length is left in front of it. -/
def fuPacket (s : Assembly) (info : PktInfo) (p : RtpPacket) : Outcome Assembly :=
  let naluSizeBufPos := s.buf
  let s := { s with buf := s.buf + 4 }
  if info.startBit then fragment k s info naluSizeBufPos 0 p else return s.endPacket p

/-- One packet of the collected ones. `uninit` are the types of a fresh info. -/
def step (uninit : RtpPacket → ℕ × ℕ) (s : Assembly) (p : RtpPacket) : Outcome Assembly :=
  match s.loop with
  | .returned => return s
  | .packets =>
    let info := (PktInfo.fresh k (uninit p)).parse k p.payload
    match info.type with
    | .stapA => do
      let s ← stapUnits s (p.payload.drop 1)
      return s.endPacket p
    | .singleNalu => singleNalu k s info p
    | .fu => fuPacket k s info p
    | _ => return s
  | .fragments info naluSizeBufPos naluSize _ =>
    let info := info.parse k p.payload
    if info.type = .fu then fragment k s info naluSizeBufPos naluSize p
    else return s.endPacket p

def assemble (uninit : RtpPacket → ℕ × ℕ) : Assembly → List RtpPacket → Outcome Assembly
  | s, [] => return s
  | s, p :: ps => do assemble uninit (← step k uninit s p) ps

/-- Whether a message is returned. The loop over the fragments can leave the
iterator at the end, from where the loop over the packets moves it on. -/
def Assembly.finish (s : Assembly) : Outcome Bool :=
  match s.loop with
  | .returned => return true
  | .packets => return false
  | .fragments _ _ _ marker => if marker then return true else .fault .pastEnd

structure Receiver where
  pktsBuf : PktsBuf
  videoFrameCache : FrameCache
  firstRtpVideoTs : BitVec 32
  videoDts : BitVec 32

def flvVideoTag : UInt8 := 9

def Receiver.videoMessage (r : Receiver) (timestamp : BitVec 32) (isKey : Bool) (frame : Bytes) :
    RtmpMessage :=
  let compositionTime := if isKey then 0 else timestamp - r.videoDts
  { Packet.ofBytes (k.tagHeader isKey compositionTime ++ frame) with
    messageStreamId := 0
    chunkStreamId := 8
    messageTypeId := flvVideoTag
    timestamp := timestamp }

/-- What the code around the receiver decides: the step from one decoding time to
the next, which is computed with the frame rate as a `double`, and the types of a
fresh info. -/
structure Env where
  nextDts : BitVec 32 → BitVec 32
  uninit : RtpPacket → ℕ × ℕ

def generateRtmpMessage (env : Env) (r : Receiver) (timestamp : BitVec 32)
    (pkts : List RtpPacket) : Outcome (Receiver × Option RtmpMessage) := do
  let s ← assemble k env.uninit (.init r.videoFrameCache) pkts
  let r := { r with videoFrameCache := s.cache }
  if ← s.finish then
    let frame ← slice 0 s.buf s.cache.bytes
    let r := { r with videoDts := if s.isKey then timestamp else env.nextDts r.videoDts }
    return (r, some (r.videoMessage k timestamp s.isKey frame))
  else return (r, none)

def getTimestamp (pkts : List RtpPacket) : BitVec 32 := (pkts.head?.map (·.timestamp)).getD 0

def processPacket (env : Env) (r : Receiver) (p : RtpPacket) :
    Outcome (Receiver × Option RtmpMessage) :=
  match onPacket k r.pktsBuf p with
  | (buf, none) => return ({ r with pktsBuf := buf }, none)
  | (buf, some pkts) =>
    generateRtmpMessage k env { r with pktsBuf := buf }
      ((getTimestamp pkts - r.firstRtpVideoTs) / 90) pkts

def generateH264RtmpMessage :
    Env → Receiver → BitVec 32 → List RtpPacket → Outcome (Receiver × Option RtmpMessage) :=
  generateRtmpMessage h264

def processH264Packet : Env → Receiver → RtpPacket → Outcome (Receiver × Option RtmpMessage) :=
  processPacket h264

def generateH265RtmpMessage :
    Env → Receiver → BitVec 32 → List RtpPacket → Outcome (Receiver × Option RtmpMessage) :=
  generateRtmpMessage h265

def processH265Packet : Env → Receiver → RtpPacket → Outcome (Receiver × Option RtmpMessage) :=
  processPacket h265

def feed {σ μ : Type} (process : σ → RtpPacket → Outcome (σ × Option μ)) :
    σ → List RtpPacket → Outcome (σ × List (Option μ))
  | r, [] => return (r, [])
  | r, p :: ps => do
    let (r, msg) ← process r p
    let (r, msgs) ← feed process r ps
    return (r, msg :: msgs)

end MmsServer.Rtp.Assembler
