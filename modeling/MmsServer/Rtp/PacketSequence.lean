import Mathlib.Algebra.BigOperators.Group.List.Basic
import Mathlib.Data.List.Chain
import Mathlib.Data.List.Iterate
import MmsServer.Rtp.Packer

namespace MmsServer.Rtp.PacketSequence

open Lib.ByteReader Packer

section Calls

inductive PackerKind
  | rtpPacker
  | h265RtpPacker
deriving DecidableEq

def PackerKind.format : PackerKind → FuFormat
  | .rtpPacker => fuA
  | .h265RtpPacker => fuH265

inductive Input
  | raw (data : Bytes) (nonempty : data ≠ [])
  | nalus (nalus : List Bytes) (nonempty : nalus ≠ [])

structure Call where
  stream : Stream
  input : Input

def pack (k : PackerKind) (rtpSeqnum : BitVec 16) (call : Call) : List RtpPacket :=
  match call.input with
  | .raw data _ => packRaw call.stream rtpSeqnum data
  | .nalus nalus _ => packNalus k.format call.stream rtpSeqnum nalus

/-- `rtp_seqnum_` is the number that was given last. -/
def seqnumAfter (rtpSeqnum : BitVec 16) (pkts : List RtpPacket) : BitVec 16 :=
  pkts.foldl (fun _ p ↦ p.seqnum) rtpSeqnum

def packAll (k : PackerKind) : BitVec 16 → List Call → List (List RtpPacket)
  | _, [] => []
  | rtpSeqnum, call :: calls =>
    let pkts := pack k rtpSeqnum call
    pkts :: packAll k (seqnumAfter rtpSeqnum pkts) calls

def MarksLast (markers : List Bool) : Prop := ∃ n, markers = List.replicate n false ++ [true]

structure Carries (st : Stream) (p : RtpPacket) : Prop where
  timestamp : p.timestamp = st.pts
  pt : p.pt = st.pt
  ssrc : p.ssrc = st.ssrc

/-- The sequence numbers are those of the packets in the order of emission. -/
structure ValidSequence (calls : List Call) (pkts : List (List RtpPacket)) : Prop where
  consecutive : pkts.flatten.IsChain fun p q ↦ q.seqnum = p.seqnum + 1
  marked : ∀ ps ∈ pkts, MarksLast (ps.map (·.marker))
  carried : List.Forall₂ (fun call ps ↦ ∀ p ∈ ps, Carries call.stream p) calls pkts

def naluPackets (f : FuFormat) (size : ℕ) : ℕ :=
  if nalRtpPacketSize - 3 < size then (size - f.naluHeader - 1) / nalRtpPacketSize + 1 else 1

def Input.packets (k : PackerKind) : Input → ℕ
  | .raw data _ => (data.length - 1) / nalRtpPacketSize + 1
  | .nalus units _ => (units.map fun nalu ↦ naluPackets k.format nalu.length).sum

/-- The last part of a raw buffer has to be shorter than a packet. -/
def Input.Remainder : Input → Prop
  | .raw data _ => ¬ nalRtpPacketSize ∣ data.length
  | .nalus _ _ => True

end Calls

section Markers

theorem MarksLast.single : MarksLast [true] := ⟨0, rfl⟩

theorem not_marksLast_nil : ¬ MarksLast [] := by
  rintro ⟨n, h⟩
  simpa using congrArg List.length h

theorem marksLast_cons_iff {markers : List Bool} : MarksLast (false :: markers) ↔ MarksLast markers := by
  constructor
  · rintro ⟨n, h⟩
    cases n with
    | zero => simp at h
    | succ n => exact ⟨n, List.cons_inj_right false |>.mp h⟩
  · rintro ⟨n, rfl⟩
    exact ⟨n + 1, rfl⟩

theorem MarksLast.replicate_append {markers : List Bool} (h : MarksLast markers) (n : ℕ) :
    MarksLast (List.replicate n false ++ markers) := by
  obtain ⟨m, rfl⟩ := h
  exact ⟨n + m, by rw [← List.append_assoc, List.replicate_append_replicate]⟩

theorem markers_number (st : Stream) (c : BitVec 16) (ps : List (Bool × Bytes)) :
    (number st c ps).map (·.marker) = ps.map Prod.fst := by
  induction ps generalizing c with
  | nil => rfl
  | cons p ps ih => rw [number, List.map_cons, List.map_cons, ih, packet]

theorem length_rawPayloads {fuel : ℕ} {data : Bytes} (hfuel : data.length ≤ fuel) (hd : data ≠ []) :
    (rawPayloads fuel data).length = (data.length - 1) / nalRtpPacketSize + 1 := by
  have hsize : nalRtpPacketSize = 1400 := rfl
  have hpos := List.length_pos_of_ne_nil hd
  induction fuel generalizing data with
  | zero => omega
  | succ fuel ih =>
    by_cases hl : nalRtpPacketSize ≤ data.length
    · rw [rawPayloads_more fuel hl, List.length_cons]
      by_cases hrest : data.drop nalRtpPacketSize = []
      · have hlen := List.drop_eq_nil_iff.mp hrest
        rw [hrest, rawPayloads_nil, List.length_nil, hsize]
        omega
      · have hlen := List.length_drop (i := nalRtpPacketSize) (l := data)
        have hrest' := List.length_pos_of_ne_nil hrest
        rw [ih (by omega) hrest hrest', hlen, hsize]
        omega
    · rw [rawPayloads_last fuel hpos (by omega), List.length_singleton, Nat.div_eq_of_lt (by omega)]

/-- The buffer of a whole number of packets ends with a packet that has no marker. -/
theorem marksLast_raw_iff (fuel : ℕ) (data : Bytes) (hfuel : data.length ≤ fuel) :
    MarksLast ((rawPayloads fuel data).map Prod.fst) ↔ ¬ nalRtpPacketSize ∣ data.length := by
  have hsize : nalRtpPacketSize = 1400 := rfl
  induction fuel generalizing data with
  | zero =>
    obtain rfl := List.length_eq_zero_iff.mp (Nat.le_zero.mp hfuel)
    simpa using not_marksLast_nil
  | succ fuel ih =>
    by_cases hl : nalRtpPacketSize ≤ data.length
    · have hlen := List.length_drop (i := nalRtpPacketSize) (l := data)
      have hrest : (data.drop nalRtpPacketSize).length ≤ fuel := by omega
      rw [rawPayloads_more fuel hl, List.map_cons, marksLast_cons_iff]
      refine (ih _ hrest).trans (not_congr ?_)
      rw [hlen, Nat.dvd_sub_iff_left hl (dvd_refl _)]
    · by_cases hd : data = []
      · subst hd
        simpa using not_marksLast_nil
      · have hpos := List.length_pos_of_ne_nil hd
        rw [rawPayloads_last fuel hpos (by omega)]
        exact iff_of_true .single (Nat.not_dvd_of_pos_of_lt hpos (by omega))

theorem markers_fragments (f : FuFormat) (nalu : Bytes) (last start : Bool) {fuel : ℕ} {data : Bytes}
    (hfuel : data.length ≤ fuel) (hd : data ≠ []) :
    (fragments f nalu last fuel start data).map Prod.fst =
      List.replicate ((data.length - 1) / nalRtpPacketSize) false ++ [last] := by
  have hsize : nalRtpPacketSize = 1400 := rfl
  have hpos := List.length_pos_of_ne_nil hd
  induction fuel generalizing start data with
  | zero => omega
  | succ fuel ih =>
    by_cases hl : data.length ≤ nalRtpPacketSize
    · rw [fragments_last last start fuel hpos hl, Nat.div_eq_of_lt (by omega)]
      rfl
    · have hlen := List.length_drop (i := nalRtpPacketSize) (l := data)
      have hrest : 0 < (data.drop nalRtpPacketSize).length := by omega
      have hcount : (data.length - 1) / nalRtpPacketSize =
          ((data.drop nalRtpPacketSize).length - 1) / nalRtpPacketSize + 1 := by
        rw [hlen, hsize]
        omega
      rw [fragments_more last start fuel (by omega), List.map_cons,
        ih false (by omega) (List.ne_nil_of_length_pos hrest) hrest, hcount, List.replicate_succ]
      rfl

theorem naluHeader_le (k : PackerKind) : k.format.naluHeader ≤ 2 := by
  cases k <;> decide

theorem markers_nalu (k : PackerKind) (last : Bool) (nalu : Bytes) :
    (naluPayloads k.format last nalu).map Prod.fst =
      List.replicate (naluPackets k.format nalu.length - 1) false ++ [last] := by
  have hsize : nalRtpPacketSize = 1400 := rfl
  have hheader := naluHeader_le k
  rw [naluPayloads, naluPackets]
  split
  · have hlen := List.length_drop (i := k.format.naluHeader) (l := nalu)
    have hne : nalu.drop k.format.naluHeader ≠ [] := List.ne_nil_of_length_pos (by omega)
    rw [markers_fragments _ nalu last true (by omega) hne, hlen, Nat.add_sub_cancel]
  · rfl

end Markers

section Run

theorem MarksLast.payloads (k : PackerKind) {nalus : List Bytes} (h : nalus ≠ []) :
    MarksLast ((payloads k.format nalus).map Prod.fst) := by
  induction nalus with
  | nil => exact absurd rfl h
  | cons nalu nalus ih =>
    rw [Packer.payloads, List.map_append, markers_nalu, List.append_assoc]
    apply MarksLast.replicate_append
    cases nalus with
    | nil => exact .single
    | cons nalu' nalus => exact marksLast_cons_iff.mpr (ih (List.cons_ne_nil nalu' nalus))

theorem length_naluPayloads (k : PackerKind) (last : Bool) (nalu : Bytes) :
    (naluPayloads k.format last nalu).length = naluPackets k.format nalu.length := by
  have hpos : 0 < naluPackets k.format nalu.length := by
    unfold naluPackets
    split
    · exact Nat.succ_pos _
    · exact Nat.one_pos
  rw [← List.length_map (f := Prod.fst), markers_nalu, List.length_append, List.length_replicate,
    List.length_singleton]
  omega

theorem length_payloads (k : PackerKind) (nalus : List Bytes) :
    (payloads k.format nalus).length = (nalus.map fun nalu ↦ naluPackets k.format nalu.length).sum := by
  induction nalus with
  | nil => rfl
  | cons nalu nalus ih =>
    rw [Packer.payloads, List.length_append, length_naluPayloads, ih, List.map_cons, List.sum_cons]

def Input.parts (k : PackerKind) : Input → List (Bool × Bytes)
  | .raw data _ => rawPayloads data.length data
  | .nalus units _ => Packer.payloads k.format units

theorem pack_eq (k : PackerKind) (c : BitVec 16) (call : Call) :
    pack k c call = number call.stream c (call.input.parts k) := by
  rw [pack]
  cases call.input with
  | raw data nonempty => rfl
  | nalus units nonempty => rfl

theorem length_parts (k : PackerKind) (input : Input) : (input.parts k).length = input.packets k := by
  cases input with
  | raw data nonempty => exact length_rawPayloads le_rfl nonempty
  | nalus units nonempty => exact length_payloads k units

theorem marksLast_parts_iff (k : PackerKind) (input : Input) :
    MarksLast ((input.parts k).map Prod.fst) ↔ input.Remainder := by
  cases input with
  | raw data nonempty => exact marksLast_raw_iff _ data le_rfl
  | nalus units nonempty => exact iff_of_true (.payloads k nonempty) trivial

theorem marksLast_pack_iff (k : PackerKind) (c : BitVec 16) (call : Call) :
    MarksLast ((pack k c call).map (·.marker)) ↔ call.input.Remainder := by
  rw [pack_eq, markers_number, marksLast_parts_iff]

theorem carries_number (st : Stream) (c : BitVec 16) (ps : List (Bool × Bytes)) :
    ∀ p ∈ number st c ps, Carries st p := by
  induction ps generalizing c with
  | nil => simp [number]
  | cons q ps ih =>
    rw [number, List.forall_mem_cons]
    exact ⟨⟨rfl, rfl, rfl⟩, ih _⟩

theorem seqnums_number (st : Stream) (c : BitVec 16) (ps : List (Bool × Bytes)) :
    (number st c ps).map (·.seqnum) = List.iterate getSequenceNum (getSequenceNum c) ps.length := by
  induction ps generalizing c with
  | nil => rfl
  | cons p ps ih => rw [number, List.map_cons, ih, List.length_cons, List.iterate, packet]

theorem seqnumAfter_number (st : Stream) (c : BitVec 16) (ps : List (Bool × Bytes)) :
    seqnumAfter c (number st c ps) = getSequenceNum^[ps.length] c := by
  induction ps generalizing c with
  | nil => rfl
  | cons p ps ih => exact ih _

theorem seqnums_packAll (k : PackerKind) (c : BitVec 16) (calls : List Call) :
    (packAll k c calls).flatten.map (·.seqnum) =
      List.iterate getSequenceNum (getSequenceNum c) (calls.map fun call ↦ call.input.packets k).sum := by
  induction calls generalizing c with
  | nil => rfl
  | cons call calls ih =>
    rw [packAll, List.flatten_cons, List.map_append, ih, pack_eq, seqnums_number, seqnumAfter_number,
      length_parts, List.map_cons, List.sum_cons, List.iterate_add, ← Function.iterate_succ_apply,
      ← Function.iterate_succ_apply' getSequenceNum]

theorem toNat_iterate (i : ℕ) : (getSequenceNum^[i] (getSequenceNum 0)).toNat = (i + 1) % 65535 := by
  induction i with
  | zero => rfl
  | succ i ih =>
    have hlt := Nat.mod_lt (i + 1) (show 0 < 65535 by decide)
    rw [Function.iterate_succ_apply', toNat_getSequenceNum_of_lt (by omega), ih]
    omega

/-- The number behind 65534 is 0, and the 65535th packet gets it. -/
theorem consecutive_iff (n : ℕ) :
    (List.iterate getSequenceNum (getSequenceNum 0) n).IsChain (fun a b ↦ b = a + 1) ↔ n < 65535 := by
  rw [List.isChain_iff_getElem]
  simp only [List.getElem_iterate, List.length_iterate, ← BitVec.toNat_inj, BitVec.toNat_add,
    toNat_iterate]
  constructor
  · intro h
    by_contra hn
    exact absurd (h 65533 (by omega)) (by decide)
  · intro h i hi
    have hone : (1 : BitVec 16).toNat = 1 := rfl
    rw [hone]
    omega

theorem packAll_carries (k : PackerKind) (c : BitVec 16) (calls : List Call) :
    List.Forall₂ (fun call ps ↦ ∀ p ∈ ps, Carries call.stream p) calls (packAll k c calls) := by
  induction calls generalizing c with
  | nil => exact .nil
  | cons call calls ih =>
    rw [packAll]
    refine .cons ?_ (ih _)
    rw [pack_eq]
    exact carries_number _ _ _

theorem packAll_marked_iff (k : PackerKind) (c : BitVec 16) (calls : List Call) :
    (∀ ps ∈ packAll k c calls, MarksLast (ps.map (·.marker))) ↔ ∀ call ∈ calls, call.input.Remainder := by
  induction calls generalizing c with
  | nil => simp [packAll]
  | cons call calls ih => rw [packAll, List.forall_mem_cons, List.forall_mem_cons, marksLast_pack_iff, ih]

/-- The calls on a new packer make a valid sequence until the number 65535 is due, if
each raw buffer ends with a packet that is not full. -/
theorem validSequence_iff (k : PackerKind) (calls : List Call) :
    ValidSequence calls (packAll k 0 calls) ↔
      (calls.map fun call ↦ call.input.packets k).sum < 65535 ∧ ∀ call ∈ calls, call.input.Remainder := by
  have hseq : (packAll k 0 calls).flatten.IsChain (fun p q ↦ q.seqnum = p.seqnum + 1) ↔
      (calls.map fun call ↦ call.input.packets k).sum < 65535 := by
    rw [← consecutive_iff, ← seqnums_packAll, List.isChain_map]
  constructor
  · intro h
    exact ⟨hseq.mp h.consecutive, (packAll_marked_iff k 0 calls).mp h.marked⟩
  · rintro ⟨htotal, hraw⟩
    exact ⟨hseq.mpr htotal, (packAll_marked_iff k 0 calls).mpr hraw, packAll_carries k 0 calls⟩

def fullPacket : Call where
  stream := ⟨97, 0, 0⟩
  input := .raw (List.replicate 1400 0) (List.ne_nil_of_length_pos (by rw [List.length_replicate]; decide))

theorem fullPacket_not_valid : ¬ ValidSequence [fullPacket] (packAll .rtpPacker 0 [fullPacket]) := by
  intro h
  have hmarked := (packAll_marked_iff .rtpPacker 0 [fullPacket]).mp h.marked fullPacket (by simp)
  exact hmarked ⟨1, List.length_replicate⟩

end Run

end MmsServer.Rtp.PacketSequence
