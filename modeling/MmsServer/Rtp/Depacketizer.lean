import MmsServer.Rtp.Packer
import MmsServer.Rtmp.FlvTag
import Mathlib.Logic.Function.Basic

namespace MmsServer.Rtp.Depacketizer

open Lib.ByteReader Codec.NaluType Lib.SortedMap Rtmp.FlvTag Packer

inductive PayloadType
  | singleNalu
  | stapA
  | fu
  | paci
  | other
deriving DecidableEq

def h264PayloadType (code : ℕ) : PayloadType :=
  if 1 ≤ code ∧ code ≤ 23 then .singleNalu
  else if code = 24 then .stapA
  else if code = 28 then .fu
  else .other

def h265PayloadType (code : ℕ) : PayloadType :=
  if code ≤ 40 then .singleNalu
  else if code = 49 then .fu
  else if code = 50 then .paci
  else .other

/-- Where the receiver of H.264 and the receiver of H.265 differ. -/
structure Codec where
  fuHeader : ℕ
  typeCode : UInt8 → ℕ
  payloadType : ℕ → PayloadType
  fuType : UInt8 → ℕ
  isKeyNalu : ℕ → Bool
  naluHeader : (payload : Bytes) → Bytes
  refusesUnparsed : Bool
  tagHeader : (isKey : Bool) → (compositionTime : BitVec 32) → Bytes

def avcTagHeader (isKey : Bool) (compositionTime : BitVec 32) : Bytes :=
  (if isKey then 0x17 else 0x27) :: 1 :: putBE 3 compositionTime.toNat

def hevcTagHeader (isKey : Bool) (compositionTime : BitVec 32) : Bytes :=
  (if isKey then 0x91 else 0xA1) :: (putBE 4 hevcFourccCode ++ putBE 3 compositionTime.toNat)

def h264 : Codec where
  fuHeader := 2
  typeCode b := (b &&& 0x1F).toNat
  payloadType := h264PayloadType
  fuType b := (b &&& 0x1F).toNat
  isKeyNalu t := t == 5
  naluHeader payload := [(payload.getD 0 0 &&& 0xE0) ||| (payload.getD 1 0 &&& 0x1F)]
  refusesUnparsed := false
  tagHeader := avcTagHeader

def h265 : Codec where
  fuHeader := 3
  typeCode b := (h265Type b).toNat
  payloadType := h265PayloadType
  fuType b := (b &&& 0x3F).toNat
  isKeyNalu t := decide (16 ≤ t ∧ t ≤ 23)
  naluHeader payload :=
    let p0 := payload.getD 0 0
    let fuType := payload.getD 2 0 &&& 0x3F
    [(p0 &&& (0x81 : UInt8)) ||| (fuType <<< (1 : UInt8)), payload.getD 1 0]
  refusesUnparsed := true
  tagHeader := hevcTagHeader

structure PktInfo where
  naluType : ℕ
  type : PayloadType
  startBit : Bool := false
  endBit : Bool := false
deriving DecidableEq

variable (k : Codec)

/-- An info before `parse`. The types are not initialised. -/
def PktInfo.fresh (uninit : ℕ × ℕ) : PktInfo where
  naluType := uninit.1
  type := k.payloadType uninit.2

/-- A payload that is too short leaves the info as it is. -/
def PktInfo.parse (info : PktInfo) (data : Bytes) : PktInfo :=
  if data.length < k.fuHeader then info
  else
    let code := k.typeCode (data.getD 0 0)
    match k.payloadType code with
    | .fu =>
      let header := data.getD (k.fuHeader - 1) 0
      { type := .fu
        startBit := (header >>> 7) &&& 1 == 1
        endBit := (header >>> 6) &&& 1 == 1
        naluType := k.fuType header }
    | .singleNalu => { info with type := .singleNalu, naluType := code }
    | t => { info with type := t }

def parseCode (data : Bytes) : ℤ :=
  if data.length < k.fuHeader then -1
  else
    match k.payloadType (k.typeCode (data.getD 0 0)) with
    | .fu => k.fuHeader
    | .paci => -1
    | _ => k.fuHeader - 1

def H264RtpPktInfo.parse : PktInfo → Bytes → PktInfo := PktInfo.parse h264

def H265RtpPktInfo.parse : PktInfo → Bytes → PktInfo := PktInfo.parse h265

/-- `time_rtp_pkts_buf_`, with no packets under a timestamp that it does not hold. -/
abbrev PktsBuf := BitVec 32 → List RtpPacket

def accepts (p : RtpPacket) : Bool := !(k.refusesUnparsed && decide (parseCode k p.payload < 0))

def insertPacket : RtpPacket → List RtpPacket → List RtpPacket := insertNew (·.seqnum.toNat)

/-- The packets of a timestamp are handed out in the order of their numbers when
one with the marker arrives. -/
def takePacket (buf : PktsBuf) (p : RtpPacket) : PktsBuf × Option (List RtpPacket) :=
  let pkts := insertPacket p (buf p.timestamp)
  if p.marker then (Function.update buf p.timestamp [], some pkts)
  else (Function.update buf p.timestamp pkts, none)

def onPacket (buf : PktsBuf) (p : RtpPacket) : PktsBuf × Option (List RtpPacket) :=
  if accepts k p then takePacket buf p else (buf, none)

def RtpH264Depacketizer.onPacket : PktsBuf → RtpPacket → PktsBuf × Option (List RtpPacket) :=
  Depacketizer.onPacket h264

def RtpH265Depacketizer.onPacket : PktsBuf → RtpPacket → PktsBuf × Option (List RtpPacket) :=
  Depacketizer.onPacket h265

def RtpAACDepacketizer.onPacket : PktsBuf → RtpPacket → PktsBuf × Option (List RtpPacket) :=
  takePacket

theorem takePacket_marker {buf : PktsBuf} {p : RtpPacket} (h : p.marker = true) :
    takePacket buf p =
      (Function.update buf p.timestamp [], some (insertPacket p (buf p.timestamp))) := if_pos h

theorem takePacket_noMarker {buf : PktsBuf} {p : RtpPacket} (h : p.marker = false) :
    takePacket buf p =
      (Function.update buf p.timestamp (insertPacket p (buf p.timestamp)), none) := by
  rw [takePacket, h]
  rfl

section Parse

variable {k} {data : Bytes} (info : PktInfo)

def payloadTypeOf (k : Codec) (data : Bytes) : PayloadType :=
  k.payloadType (k.typeCode (data.getD 0 0))

def startBitOf (k : Codec) (data : Bytes) : Bool :=
  (data.getD (k.fuHeader - 1) 0 >>> 7) &&& 1 == 1

def endBitOf (k : Codec) (data : Bytes) : Bool :=
  (data.getD (k.fuHeader - 1) 0 >>> 6) &&& 1 == 1

theorem parse_of_short (h : data.length < k.fuHeader) : info.parse k data = info := if_pos h

theorem parse_of_fu (h : k.fuHeader ≤ data.length) (ht : payloadTypeOf k data = .fu) :
    info.parse k data =
      { type := .fu
        startBit := startBitOf k data
        endBit := endBitOf k data
        naluType := k.fuType (data.getD (k.fuHeader - 1) 0) } := by
  unfold payloadTypeOf at ht
  simp only [PktInfo.parse, if_neg (Nat.not_lt.mpr h), ht, startBitOf, endBitOf]

theorem parse_type (h : k.fuHeader ≤ data.length) :
    (info.parse k data).type = payloadTypeOf k data := by
  unfold payloadTypeOf
  rw [PktInfo.parse, if_neg (Nat.not_lt.mpr h)]
  cases hc : k.payloadType (k.typeCode (data.getD 0 0)) <;> simp only [hc]

theorem parseCode_of_fu (h : k.fuHeader ≤ data.length) (ht : payloadTypeOf k data = .fu) :
    parseCode k data = k.fuHeader := by
  unfold payloadTypeOf at ht
  simp only [parseCode, if_neg (Nat.not_lt.mpr h), ht]

end Parse

end MmsServer.Rtp.Depacketizer
