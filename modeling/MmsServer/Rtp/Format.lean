import MmsServer.Lib.PackedByte
import MmsServer.Rtp.Assembler

namespace MmsServer.Rtp.Format

open Lib.ByteReader Codec.NaluType Lib.PackedByte Rtmp.FlvTag Packer Depacketizer Assembler

/-- A packer and the receiver that reads its fragments. -/
structure NaluFormat where
  fu : FuFormat
  codec : Codec
  tagSize : ℕ
  naluHeader_pos : 0 < fu.naluHeader
  naluHeader_le : fu.naluHeader ≤ 2
  fuHeader_eq : codec.fuHeader = fu.naluHeader + 1
  prefix_length : ∀ nalu start last, (fu.fuPrefix nalu start last).length = codec.fuHeader
  fragment_type : ∀ nalu start last chunk,
    payloadTypeOf codec (fu.fuPrefix nalu start last ++ chunk) = .fu
  fragment_bits : ∀ nalu start last chunk,
    startBitOf codec (fu.fuPrefix nalu start last ++ chunk) = start ∧
      endBitOf codec (fu.fuPrefix nalu start last ++ chunk) = (!start && last)
  header_length : ∀ payload, (codec.naluHeader payload).length = fu.naluHeader
  header_append : ∀ nalu last chunk, codec.naluHeader (fu.fuPrefix nalu true last ++ chunk) =
    codec.naluHeader (fu.fuPrefix nalu true false)
  unknown_type : codec.payloadType 255 = .other
  decode_tagHeader : ∀ isKey time rest, ∃ header,
    VideoTagHeader.decode (codec.tagHeader isKey time ++ rest) = .ok (header, tagSize)
  tagHeader_length : ∀ isKey time, (codec.tagHeader isKey time).length = tagSize

theorem fuA_typeCode (b : UInt8) : (((b &&& 0xE0) ||| 28) &&& 0x1F).toNat = 28 := by
  revert b
  exact forall_byte (by decide +kernel)

theorem fuA_startBit (b : UInt8) (start last : Bool) :
    ((((b &&& 0x1F) ||| fuBits start last) >>> 7) &&& 1 == 1) = start := by
  revert b
  cases start <;> cases last <;> exact forall_byte (by decide +kernel)

theorem fuA_endBit (b : UInt8) (start last : Bool) :
    ((((b &&& 0x1F) ||| fuBits start last) >>> 6) &&& 1 == 1) = (!start && last) := by
  revert b
  cases start <;> cases last <;> exact forall_byte (by decide +kernel)

theorem fuH265_startBit (b : UInt8) (start last : Bool) :
    (((h265Type b ||| fuBits start last) >>> 7) &&& 1 == 1) = start := by
  revert b
  cases start <;> cases last <;> exact forall_byte (by decide +kernel)

theorem fuH265_endBit (b : UInt8) (start last : Bool) :
    (((h265Type b ||| fuBits start last) >>> 6) &&& 1 == 1) = (!start && last) := by
  revert b
  cases start <;> cases last <;> exact forall_byte (by decide +kernel)

theorem readBE_putBE_append (n v : ℕ) (rest : Bytes) :
    readBE n (putBE n v ++ rest) = some (v % 256 ^ n, rest) := by
  have h := readBE_of_length (putBE_length n v) rest
  rwa [fromBE_putBE] at h

theorem decode_avcTagHeader (isKey : Bool) (time : BitVec 32) (rest : Bytes) :
    ∃ header, VideoTagHeader.decode (avcTagHeader isKey time ++ rest) = .ok (header, 5) := by
  have h1 : readBE 1 (1 :: (putBE 3 time.toNat ++ rest)) =
      some (1, putBE 3 time.toNat ++ rest) := readBE_putBE_append 1 1 _
  have h3 := readBE_putBE_append 3 time.toNat rest
  cases isKey with
  | true => exact ⟨_, by simp [avcTagHeader, VideoTagHeader.decode, CodecId.ofCode, h1, h3]; rfl⟩
  | false => exact ⟨_, by simp [avcTagHeader, VideoTagHeader.decode, CodecId.ofCode, h1, h3]; rfl⟩

theorem decode_hevcTagHeader (isKey : Bool) (time : BitVec 32) (rest : Bytes) :
    ∃ header, VideoTagHeader.decode (hevcTagHeader isKey time ++ rest) = .ok (header, 8) := by
  have h4 : readBE 4 (putBE 4 hevcFourccCode ++ (putBE 3 time.toNat ++ rest)) =
      some (hevcFourccCode, putBE 3 time.toNat ++ rest) := readBE_putBE_append 4 hevcFourccCode _
  have h3 := readBE_putBE_append 3 time.toNat rest
  cases isKey with
  | true =>
    exact ⟨_, by simp [hevcTagHeader, VideoTagHeader.decode, VideoTagHeader.decodeExt,
      ExtPacketType.ofCode, h4, h3]; rfl⟩
  | false =>
    exact ⟨_, by simp [hevcTagHeader, VideoTagHeader.decode, VideoTagHeader.decodeExt,
      ExtPacketType.ofCode, h4, h3]; rfl⟩

def h264Format : NaluFormat where
  fu := fuA
  codec := h264
  tagSize := 5
  naluHeader_pos := by decide
  naluHeader_le := by decide
  fuHeader_eq := rfl
  prefix_length _ _ _ := rfl
  fragment_type nalu start last chunk := by
    change h264PayloadType (((nalu.headD 0 &&& 0xE0) ||| 28) &&& 0x1F).toNat = .fu
    rw [fuA_typeCode]
    rfl
  fragment_bits nalu start last chunk := ⟨fuA_startBit _ start last, fuA_endBit _ start last⟩
  header_length _ := rfl
  header_append _ _ _ := rfl
  unknown_type := rfl
  decode_tagHeader := decode_avcTagHeader
  tagHeader_length _ _ := rfl

def h265Format : NaluFormat where
  fu := fuH265
  codec := h265
  tagSize := 8
  naluHeader_pos := by decide
  naluHeader_le := by decide
  fuHeader_eq := rfl
  prefix_length _ _ _ := rfl
  fragment_type nalu start last chunk := by
    have hb : (fuH265.fuPrefix nalu start last ++ chunk).getD 0 0 = 98 := rfl
    rw [payloadTypeOf, hb]
    decide
  fragment_bits nalu start last chunk := ⟨fuH265_startBit _ start last, fuH265_endBit _ start last⟩
  header_length _ := rfl
  header_append _ _ _ := rfl
  unknown_type := rfl
  decode_tagHeader := decode_hevcTagHeader
  tagHeader_length _ _ := rfl

variable (F : NaluFormat) (nalu : Bytes) (start last : Bool) (chunk : Bytes)

theorem fuHeader_le_fragment :
    F.codec.fuHeader ≤ (F.fu.fuPrefix nalu start last ++ chunk).length := by
  rw [List.length_append, F.prefix_length]
  exact Nat.le_add_right _ _

theorem parse_fragment (info : PktInfo) :
    (info.parse F.codec (F.fu.fuPrefix nalu start last ++ chunk)).type = .fu ∧
      (info.parse F.codec (F.fu.fuPrefix nalu start last ++ chunk)).startBit = start ∧
      (info.parse F.codec (F.fu.fuPrefix nalu start last ++ chunk)).endBit = (!start && last) := by
  rw [parse_of_fu info (fuHeader_le_fragment F nalu start last chunk)
    (F.fragment_type nalu start last chunk)]
  exact ⟨rfl, F.fragment_bits nalu start last chunk⟩

end MmsServer.Rtp.Format
