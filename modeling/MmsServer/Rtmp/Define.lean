import MmsServer.Lib.ByteReader
import Mathlib.Logic.Function.Basic
import Mathlib.Order.Basic

namespace MmsServer.Rtmp.Define

open Lib.ByteReader

/-- A malloc'ed buffer of `dataBytes` bytes whose first bytes are in use. -/
structure Packet where
  dataBytes : ℕ
  usingData : Bytes
  fits : usingData.length ≤ dataBytes
deriving DecidableEq

def Packet.alloc (bytes : ℕ) : Packet := ⟨bytes, [], Nat.zero_le _⟩

def Packet.ofBytes (bs : Bytes) : Packet := ⟨bs.length, bs, le_rfl⟩

def Packet.unuse (p : Packet) : ℕ := p.dataBytes - p.usingData.length

def Packet.append (p : Packet) (bs : Bytes) (h : bs.length ≤ p.unuse) : Packet where
  dataBytes := p.dataBytes
  usingData := p.usingData ++ bs
  fits := by
    have hp := p.fits
    unfold unuse at h
    rw [List.length_append]
    omega

/-- The `int32_t` fields are 32-bit words, read as signed by `toInt` where the
code compares or subtracts them. -/
structure RtmpMessage extends Packet where
  messageTypeId : UInt8 := 0
  timestamp : BitVec 32 := 0
  messageStreamId : BitVec 32 := 0
  chunkStreamId : ℕ := 0
deriving DecidableEq

def RtmpMessage.alloc (payloadSize : ℕ) : RtmpMessage := { Packet.alloc payloadSize with }

structure ChunkMessageHeader where
  timestampDelta : BitVec 32 := 0
  timestamp : BitVec 32 := 0
  messageLength : BitVec 32 := 0
  messageTypeId : UInt8 := 0
  messageStreamId : BitVec 32 := 0
deriving DecidableEq

def ChunkMessageHeader.clear (_ : ChunkMessageHeader) : ChunkMessageHeader := {}

def RtmpMessage.fill (msg : RtmpMessage) (csid : ℕ) (hdr : ChunkMessageHeader) : RtmpMessage :=
  { msg with
    chunkStreamId := csid
    timestamp := hdr.timestamp
    messageTypeId := hdr.messageTypeId
    messageStreamId := hdr.messageStreamId }

structure RtmpChunk where
  chunkMessageHeader : ChunkMessageHeader := {}
  rtmpMessage : Option RtmpMessage := none
deriving DecidableEq

def RtmpChunk.clear (c : RtmpChunk) : RtmpChunk := ⟨c.chunkMessageHeader.clear, none⟩

inductive ChunkFmt
  | type0
  | type1
  | type2
  | type3
deriving DecidableEq

def ChunkFmt.code : ChunkFmt → ℕ
  | .type0 => 0
  | .type1 => 1
  | .type2 => 2
  | .type3 => 3

def ChunkFmt.ofCode : ℕ → ChunkFmt
  | 0 => .type0
  | 1 => .type1
  | 2 => .type2
  | _ => .type3

theorem ofCode_code (fmt : ChunkFmt) : ChunkFmt.ofCode fmt.code = fmt := by cases fmt <;> rfl

theorem code_lt (fmt : ChunkFmt) : fmt.code < 4 := by cases fmt <;> decide

def maxRtmpBufBytes : ℕ := 2 * 1024 * 1024

def minRtmpBufBytes : ℕ := 16 * 1024

def chunkIdProtocolControlMessage : ℕ := 2

inductive ControlType
  | setChunkSize
  | abortMessage
  | acknowledgement
  | windowAckSize
  | setPeerBandwidth
deriving DecidableEq

def ControlType.ofTypeId : UInt8 → Option ControlType
  | 1 => some .setChunkSize
  | 2 => some .abortMessage
  | 3 => some .acknowledgement
  | 5 => some .windowAckSize
  | 6 => some .setPeerBandwidth
  | _ => none

theorem toInt_ofNat_of_lt {n : ℕ} (h : n < 2 ^ 31) : (BitVec.ofNat 32 n).toInt = n := by
  rw [BitVec.toInt_eq_toNat_cond, BitVec.toNat_ofNat, Nat.mod_eq_of_lt (by omega),
    if_pos (by omega)]

end MmsServer.Rtmp.Define
