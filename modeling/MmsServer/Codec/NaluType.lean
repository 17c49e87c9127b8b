import MmsServer.Lib.ByteReader
import MmsServer.Lib.PackedByte

namespace MmsServer.Codec.NaluType

open Lib.ByteReader Lib.PackedByte

def h265Type (b : UInt8) : UInt8 := (b >>> 1) &&& 0x3F

/-- The source reads the byte at the start of a view without asking whether there is one; that of an
empty view, which is no NAL unit, is taken for 0. -/
def h264NaluType (nalu : Bytes) : ℕ := (nalu.headD 0).toNat % 32

def h265NaluType (nalu : Bytes) : ℕ := (nalu.headD 0).toNat / 2 % 64

theorem h264NaluType_eq (nalu : Bytes) : h264NaluType nalu = (nalu.headD 0 &&& 0x1F).toNat := by
  rw [h264NaluType]
  generalize nalu.headD 0 = b
  revert b
  exact forall_byte (by decide +kernel)

theorem h265NaluType_eq (nalu : Bytes) : h265NaluType nalu = (h265Type (nalu.headD 0)).toNat := by
  rw [h265NaluType]
  generalize nalu.headD 0 = b
  revert b
  exact forall_byte (by decide +kernel)

variable {x y : Bytes}

theorem h264NaluType_congr (h : x.head? = y.head?) : h264NaluType x = h264NaluType y := by
  rw [h264NaluType, h264NaluType, List.headD_eq_head?_getD, List.headD_eq_head?_getD, h]

theorem h265NaluType_congr (h : x.head? = y.head?) : h265NaluType x = h265NaluType y := by
  rw [h265NaluType, h265NaluType, List.headD_eq_head?_getD, List.headD_eq_head?_getD, h]

end MmsServer.Codec.NaluType
