import MmsServer.Codec.NaluType
import MmsServer.Lib.SortedMap
import Mathlib.Data.List.Basic

namespace MmsServer.Rtp.Packer

open Lib.ByteReader Lib.SortedMap Codec.NaluType

/-- A packet with the header fields that the bridges read. -/
structure RtpPacket where
  pt : UInt8
  marker : Bool
  seqnum : BitVec 16
  timestamp : BitVec 32
  ssrc : BitVec 32
  payload : Bytes
deriving DecidableEq

/-- The header fields that are the same in all packets of one call of `pack`. -/
structure Stream where
  pt : UInt8
  ssrc : BitVec 32
  pts : BitVec 32
deriving DecidableEq

def nalRtpPacketSize : ℕ := 1400

/-- The value left in `rtp_seqnum_`, which is also the number returned. -/
def getSequenceNum (rtpSeqnum : BitVec 16) : BitVec 16 :=
  if 65535 ≤ (rtpSeqnum + 1).toNat then 0 else rtpSeqnum + 1

def packet (st : Stream) (seqnum : BitVec 16) (marker : Bool) (payload : Bytes) : RtpPacket where
  pt := st.pt
  marker := marker
  seqnum := seqnum
  timestamp := st.pts
  ssrc := st.ssrc
  payload := payload

def number (st : Stream) : BitVec 16 → List (Bool × Bytes) → List RtpPacket
  | _, [] => []
  | c, (marker, payload) :: ps =>
    packet st (getSequenceNum c) marker payload :: number st (getSequenceNum c) ps

/-- `pack` of a raw buffer. Only a packet that is not full has the marker. -/
def rawPayloads : ℕ → Bytes → List (Bool × Bytes)
  | 0, _ => []
  | fuel + 1, data =>
    if data = [] then []
    else if data.length < nalRtpPacketSize then [(true, data)]
    else (false, data.take nalRtpPacketSize) :: rawPayloads fuel (data.drop nalRtpPacketSize)

def packRaw (st : Stream) (c : BitVec 16) (data : Bytes) : List RtpPacket :=
  number st c (rawPayloads data.length data)

/-- How a packer starts a fragment: the bytes of the NAL unit's header that it
leaves out, and the bytes it writes before the fragment. -/
structure FuFormat where
  naluHeader : ℕ
  fuHeader : ℕ
  fuPrefix : (nalu : Bytes) → (start last : Bool) → Bytes

def fuBits (start last : Bool) : UInt8 := if start then 0x80 else if last then 0x40 else 0

def fuA : FuFormat where
  naluHeader := 1
  fuHeader := 2
  fuPrefix nalu start last :=
    let naluType := nalu.headD 0
    [(naluType &&& 0xE0) ||| 28, (naluType &&& 0x1F) ||| fuBits start last]

def fuH265 : FuFormat where
  naluHeader := 2
  fuHeader := 3
  fuPrefix nalu start last := [98, 1, h265Type (nalu.headD 0) ||| fuBits start last]

variable (f : FuFormat)

def fragments (nalu : Bytes) (last : Bool) : ℕ → Bool → Bytes → List (Bool × Bytes)
  | 0, _, _ => []
  | fuel + 1, start, data =>
    if data = [] then []
    else
      let isEnd := decide (data.length ≤ nalRtpPacketSize)
      (isEnd && last, f.fuPrefix nalu start isEnd ++ data.take nalRtpPacketSize) ::
        fragments nalu last fuel false (data.drop nalRtpPacketSize)

def naluPayloads (last : Bool) (nalu : Bytes) : List (Bool × Bytes) :=
  if nalRtpPacketSize - 3 < nalu.length then
    fragments f nalu last nalu.length true (nalu.drop f.naluHeader)
  else [(last, nalu)]

def payloads : List Bytes → List (Bool × Bytes)
  | [] => []
  | nalu :: nalus => naluPayloads f nalus.isEmpty nalu ++ payloads nalus

def packNalus (st : Stream) (c : BitVec 16) (nalus : List Bytes) : List RtpPacket :=
  number st c (payloads f nalus)

def RtpPacker.pack : Stream → BitVec 16 → List Bytes → List RtpPacket := packNalus fuA

def H265RtpPacker.pack : Stream → BitVec 16 → List Bytes → List RtpPacket := packNalus fuH265

theorem toNat_getSequenceNum (c : BitVec 16) :
    (getSequenceNum c).toNat = if 65534 ≤ c.toNat then 0 else c.toNat + 1 := by
  have hc := c.isLt
  have h1 : (c + 1).toNat = (c.toNat + 1) % 65536 := by rw [BitVec.toNat_add]; rfl
  unfold getSequenceNum
  split
  · rw [if_pos (by omega)]
    rfl
  · split
    · omega
    · omega

theorem toNat_getSequenceNum_lt (c : BitVec 16) : (getSequenceNum c).toNat < 65535 := by
  rw [toNat_getSequenceNum]
  split
  · omega
  · omega

theorem toNat_getSequenceNum_of_lt {c : BitVec 16} (h : c.toNat < 65535) :
    (getSequenceNum c).toNat = (c.toNat + 1) % 65535 := by
  rw [toNat_getSequenceNum]
  split
  · omega
  · omega

section Number

variable (st : Stream) (c : BitVec 16) (ps : List (Bool × Bytes))

@[simp] theorem number_length : (number st c ps).length = ps.length := by
  induction ps generalizing c with
  | nil => rfl
  | cons p ps ih => simp only [number, List.length_cons, ih]

theorem number_append (qs : List (Bool × Bytes)) :
    ∃ c', number st c (ps ++ qs) = number st c ps ++ number st c' qs := by
  induction ps generalizing c with
  | nil => exact ⟨c, rfl⟩
  | cons p ps ih =>
    obtain ⟨c', h⟩ := ih (getSequenceNum c)
    exact ⟨c', by simp only [List.cons_append, number, h]⟩

theorem mem_number {p : RtpPacket} (h : p ∈ number st c ps) :
    p.timestamp = st.pts ∧ (p.marker, p.payload) ∈ ps := by
  induction ps generalizing c with
  | nil => cases h
  | cons q ps ih =>
    obtain rfl | h := List.mem_cons.mp h
    · exact ⟨rfl, List.mem_cons_self⟩
    · exact (ih _ h).imp_right (List.mem_cons_of_mem q)

/-- The numbers of one call count up from the first one and start again behind 65534. -/
theorem number_seqnum {i : ℕ} {p : RtpPacket} (h : (number st c ps)[i]? = some p) :
    p.seqnum.toNat = ((getSequenceNum c).toNat + i) % 65535 := by
  induction ps generalizing c i with
  | nil => simp [number] at h
  | cons q ps ih =>
    have hc := toNat_getSequenceNum_lt c
    cases i with
    | zero =>
      simp only [number, List.getElem?_cons_zero, Option.some_inj] at h
      subst h
      exact (Nat.mod_eq_of_lt hc).symm
    | succ i =>
      simp only [number, List.getElem?_cons_succ] at h
      rw [ih _ h, toNat_getSequenceNum_of_lt hc]
      omega

variable {st c ps}

theorem number_ascending (h : (getSequenceNum c).toNat + ps.length ≤ 65535) :
    Ascending (·.seqnum.toNat) (number st c ps) := by
  refine List.pairwise_iff_getElem.mpr fun i j hi hj hij ↦ ?_
  have hi' := number_seqnum st c ps (List.getElem?_eq_getElem hi)
  have hj' := number_seqnum st c ps (List.getElem?_eq_getElem hj)
  have hn : j < ps.length := number_length st c ps ▸ hj
  change (number st c ps)[i].seqnum.toNat < (number st c ps)[j].seqnum.toNat
  rw [hi', hj', Nat.mod_eq_of_lt (by omega), Nat.mod_eq_of_lt (by omega)]
  omega

end Number

section Raw

variable {data : Bytes}

@[simp] theorem rawPayloads_nil (fuel : ℕ) : rawPayloads fuel [] = [] := by
  cases fuel with
  | zero => rfl
  | succ fuel => exact if_pos rfl

theorem rawPayloads_last (fuel : ℕ) (h : 0 < data.length) (hl : data.length < nalRtpPacketSize) :
    rawPayloads (fuel + 1) data = [(true, data)] := by
  rw [rawPayloads, if_neg (List.ne_nil_of_length_pos h), if_pos hl]

theorem rawPayloads_more (fuel : ℕ) (hl : nalRtpPacketSize ≤ data.length) :
    rawPayloads (fuel + 1) data =
      (false, data.take nalRtpPacketSize) :: rawPayloads fuel (data.drop nalRtpPacketSize) := by
  have hsize : nalRtpPacketSize = 1400 := rfl
  have h : 0 < data.length := by omega
  rw [rawPayloads, if_neg (List.ne_nil_of_length_pos h), if_neg (by omega)]

end Raw

section Fragments

variable {f}

@[simp] theorem fragments_nil (nalu : Bytes) (last : Bool) (fuel : ℕ) (start : Bool) :
    fragments f nalu last fuel start [] = [] := by
  cases fuel with
  | zero => rfl
  | succ fuel => exact if_pos rfl

theorem fragments_last {nalu data : Bytes} (last start : Bool) (fuel : ℕ) (hd : 0 < data.length)
    (hl : data.length ≤ nalRtpPacketSize) :
    fragments f nalu last (fuel + 1) start data = [(last, f.fuPrefix nalu start true ++ data)] := by
  rw [fragments, if_neg (List.ne_nil_of_length_pos hd)]
  simp only [decide_eq_true hl, Bool.true_and, List.take_of_length_le hl, List.drop_of_length_le hl,
    fragments_nil]

theorem fragments_more {nalu data : Bytes} (last start : Bool) (fuel : ℕ)
    (hl : nalRtpPacketSize < data.length) :
    fragments f nalu last (fuel + 1) start data =
      (false, f.fuPrefix nalu start false ++ data.take nalRtpPacketSize) ::
        fragments f nalu last fuel false (data.drop nalRtpPacketSize) := by
  have hd : 0 < data.length := Nat.zero_lt_of_lt hl
  rw [fragments, if_neg (List.ne_nil_of_length_pos hd)]
  simp only [decide_eq_false (Nat.not_le.mpr hl), Bool.false_and]

end Fragments

end MmsServer.Rtp.Packer
