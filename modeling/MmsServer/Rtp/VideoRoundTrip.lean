import MmsServer.Rtp.RoundTrip

namespace MmsServer.Rtp.VideoRoundTrip

open Lib.ByteReader Lib.PackedByte Codec.NaluType Rtmp.FlvTag Packer Depacketizer Assembler Format Reassembly
  PackedFrame RoundTrip

section H264

variable {st : Stream} {c : BitVec 16} {nalus : List Bytes}

/-- One video message comes at the last packet of the frame, with the NAL units
behind their lengths after a tag header of five bytes. -/
def H264RoundTrips (st : Stream) (c : BitVec 16) (nalus : List Bytes) : Prop :=
  ∀ (e : Env) (r : Receiver), r.pktsBuf st.pts = [] → ∃ r' msg header,
    feed (processH264Packet e) r (RtpPacker.pack st c nalus) =
        .ok (r', List.replicate ((RtpPacker.pack st c nalus).length - 1) none ++ [some msg]) ∧
      msg.messageTypeId = flvVideoTag ∧ VideoTagHeader.decode msg.usingData = .ok (header, 5) ∧
      msg.usingData.drop 5 = avcc nalus

theorem h264RoundTrips_eq : H264RoundTrips st c nalus = RoundTrips h264Format st c nalus := rfl

theorem h264_rebuiltHeader (b : UInt8) :
    (((b &&& 0xE0) ||| 28) &&& 0xE0) ||| (((b &&& 0x1F) ||| 0x80) &&& 0x1F) = b := by
  revert b
  exact forall_byte (by decide +kernel)

theorem h264_rebuild (nalu : Bytes) : rebuild h264Format nalu = nalu := by
  unfold rebuild
  split
  · cases nalu with
    | nil => contradiction
    | cons b nalu =>
      change [_] ++ nalu = _
      rw [List.singleton_append]
      exact congrArg (· :: nalu) (h264_rebuiltHeader b)
  · rfl

theorem h264_payloadTypeOf {nalu : Bytes} (ht : 1 ≤ h264NaluType nalu ∧ h264NaluType nalu ≤ 23) :
    payloadTypeOf h264 nalu = .singleNalu := by
  have hd : nalu.getD 0 0 = nalu.headD 0 := by cases nalu <;> rfl
  change h264PayloadType ((nalu.getD 0 0 &&& 0x1F).toNat) = _
  rw [hd, ← h264NaluType_eq]
  exact if_pos ht

theorem h264_proper {nalu : Bytes} (hne : nalu ≠ [])
    (ht : 1 ≤ h264NaluType nalu ∧ h264NaluType nalu ≤ 23) : Proper h264Format nalu where
  header_le := List.length_pos_of_ne_nil hne
  not_stapA := by
    change payloadTypeOf h264 nalu ≠ _
    rw [h264_payloadTypeOf ht]
    decide
  known := fun _ ↦ .inl (h264_payloadTypeOf ht)

theorem h264_carried_iff {nalu : Bytes} (hne : nalu ≠ [])
    (ht : 1 ≤ h264NaluType nalu ∧ h264NaluType nalu ≤ 23) :
    Carried h264Format nalu ↔
      nalu.length ≠ 1 ∧ ¬ (1398 ≤ nalu.length ∧ nalu.length ≤ 1401) := by
  have hsize : nalRtpPacketSize = 1400 := rfl
  have hpos := List.length_pos_of_ne_nil hne
  have hh : h264Format.fu.naluHeader = 1 := rfl
  have hf : h264Format.codec.fuHeader = 2 := rfl
  have htype : payloadTypeOf h264Format.codec nalu = .singleNalu := h264_payloadTypeOf ht
  unfold Carried
  split
  · omega
  · simp only [htype, and_true]
    omega

theorem h264RoundTrips_iff (hne : nalus ≠ [])
    (hn : ∀ nalu ∈ nalus, nalu ≠ [] ∧ 1 ≤ h264NaluType nalu ∧ h264NaluType nalu ≤ 23)
    (hb : (avcc nalus).length ≤ 1024 * 1024) :
    H264RoundTrips st c nalus ↔
      (∀ nalu ∈ nalus, nalu.length ≠ 1 ∧ ¬ (1398 ≤ nalu.length ∧ nalu.length ≤ 1401)) ∧
        (getSequenceNum c).toNat + packetCount 1 nalus ≤ 65535 := by
  have hc : ∀ nalu ∈ nalus, Carried h264Format nalu ↔
      nalu.length ≠ 1 ∧ ¬ (1398 ≤ nalu.length ∧ nalu.length ≤ 1401) :=
    fun nalu h ↦ h264_carried_iff (hn nalu h).1 (hn nalu h).2
  have hcount : (payloads fuA nalus).length = packetCount 1 nalus := length_payloads fuA nalus
  rw [← hcount, h264RoundTrips_eq]
  constructor
  · intro h
    obtain ⟨hcar, hr⟩ := carried_of_roundTrips (F := h264Format) hne
      (fun nalu h ↦ h264_proper (hn nalu h).1 (hn nalu h).2) hb h
    exact ⟨fun nalu hm ↦ (hc nalu hm).mp (hcar nalu hm).1, hr⟩
  · rintro ⟨hsizes, hr⟩
    exact roundTrips_of_carried (F := h264Format) hne hb
      (fun nalu hm ↦ ⟨(hc nalu hm).mpr (hsizes nalu hm), h264_rebuild nalu⟩) hr

theorem h264RoundTrips_iff_sample : H264RoundTrips ⟨96, 0, 0⟩ 0 [[0x67, 0x42], [0x65, 0x88]] :=
  (h264RoundTrips_iff (by decide) (by decide) (by decide)).mpr (by decide)

/-- The number of the second packet starts again, or the only fragment has no end bit. -/
theorem h264RoundTrips_fails :
    ¬ H264RoundTrips ⟨96, 0, 0⟩ 65533 [[0x67, 0x42], [0x65, 0x88]] ∧
      ¬ H264RoundTrips ⟨96, 0, 0⟩ 0 [0x65 :: List.replicate 1399 0] := by
  rw [h264RoundTrips_eq, h264RoundTrips_eq]
  constructor
  · intro h
    obtain ⟨-, hr⟩ := carried_of_roundTrips (F := h264Format) (by decide)
      (fun nalu hm ↦ h264_proper (by revert nalu; decide) (by revert nalu; decide)) (by decide) h
    revert hr
    decide
  · have ht : 1 ≤ h264NaluType (0x65 :: List.replicate 1399 0) ∧
        h264NaluType (0x65 :: List.replicate 1399 0) ≤ 23 := by
      change 1 ≤ (0x65 : UInt8).toNat % 32 ∧ (0x65 : UInt8).toNat % 32 ≤ 23
      decide
    refine not_roundTrips_singleton (h264_proper (List.cons_ne_nil _ _) ht) ?_ ?_
    · rw [List.length_cons, List.length_replicate]
      decide
    · rw [h264_carried_iff (List.cons_ne_nil _ _) ht, List.length_cons, List.length_replicate]
      exact fun h ↦ h.1.2 (by decide)

end H264

section H265

variable {st : Stream} {c : BitVec 16} {nalus : List Bytes}

/-- One video message comes at the last packet of the frame, with the NAL units
behind their lengths after the extended tag header. -/
def H265RoundTrips (st : Stream) (c : BitVec 16) (nalus : List Bytes) : Prop :=
  ∀ (e : Env) (r : Receiver), r.pktsBuf st.pts = [] → ∃ r' msg header,
    feed (processH265Packet e) r (H265RtpPacker.pack st c nalus) =
        .ok (r', List.replicate ((H265RtpPacker.pack st c nalus).length - 1) none ++ [some msg]) ∧
      msg.messageTypeId = flvVideoTag ∧ VideoTagHeader.decode msg.usingData = .ok (header, 8) ∧
      msg.usingData.drop 8 = avcc nalus

theorem h265RoundTrips_eq : H265RoundTrips st c nalus = RoundTrips h265Format st c nalus := rfl

theorem h265_rebuiltHeader (b : UInt8) :
    ((98 : UInt8) &&& 0x81) ||| (((h265Type b ||| 0x80) &&& 0x3F) <<< (1 : UInt8)) = b ↔
      b &&& 0x81 = 0 := by
  revert b
  exact forall_byte (by decide +kernel)

theorem h265_rebuild_iff {nalu : Bytes} (hl : 2 ≤ nalu.length) :
    rebuild h265Format nalu = nalu ↔
      (1397 < nalu.length → nalu.getD 0 0 &&& 0x81 = 0 ∧ nalu.getD 1 0 = 1) := by
  have hsize : nalRtpPacketSize - 3 = 1397 := rfl
  rw [rebuild, hsize]
  split
  · rename_i hfu
    match nalu, hl with
    | b :: b' :: nalu, _ =>
      change [_, 1] ++ nalu = b :: b' :: nalu ↔ (_ → b &&& 0x81 = 0 ∧ b' = 1)
      simp only [List.cons_append, List.nil_append, List.cons.injEq, and_true]
      constructor
      · rintro ⟨hb, hb'⟩ -
        exact ⟨(h265_rebuiltHeader b).mp hb, hb'.symm⟩
      · intro h
        exact ⟨(h265_rebuiltHeader b).mpr (h hfu).1, (h hfu).2.symm⟩
  · simp only [true_iff]
    intro h
    contradiction

theorem h265_payloadTypeOf (nalu : Bytes) :
    payloadTypeOf h265 nalu = h265PayloadType (h265NaluType nalu) := by
  have hd : nalu.getD 0 0 = nalu.headD 0 := by cases nalu <;> rfl
  change h265PayloadType (h265Type (nalu.getD 0 0)).toNat = _
  rw [hd, ← h265NaluType_eq]

theorem h265_proper {nalu : Bytes} (hl : 2 ≤ nalu.length)
    (ht : h265NaluType nalu < 48 ∨ 50 < h265NaluType nalu) : Proper h265Format nalu where
  header_le := hl
  not_stapA := by
    change payloadTypeOf h265 nalu ≠ _
    rw [h265_payloadTypeOf, h265PayloadType]
    split_ifs <;> decide
  known := by
    intro h3
    change payloadTypeOf h265 nalu = _ ∨ _ ∧ (payloadTypeOf h265 nalu = _ ∨ _)
    rw [h265_payloadTypeOf, h265PayloadType]
    by_cases h40 : h265NaluType nalu ≤ 40
    · exact .inl (if_pos h40)
    · refine .inr ⟨h3, .inl ?_⟩
      rw [if_neg h40, if_neg (by omega), if_neg (by omega)]

theorem h265_carried_iff {nalu : Bytes} (ht : h265NaluType nalu < 48 ∨ 50 < h265NaluType nalu) :
    Carried h265Format nalu ↔
      if nalu.length ≤ 1397 then 3 ≤ nalu.length ∧ h265NaluType nalu ≤ 40
      else 1403 ≤ nalu.length := by
  have hsize : nalRtpPacketSize = 1400 := rfl
  have hh : h265Format.fu.naluHeader = 2 := rfl
  have hf : h265Format.codec.fuHeader = 3 := rfl
  have htype : payloadTypeOf h265Format.codec nalu = .singleNalu ↔ h265NaluType nalu ≤ 40 := by
    change payloadTypeOf h265 nalu = _ ↔ _
    rw [h265_payloadTypeOf, h265PayloadType]
    split_ifs with h40
    · exact ⟨fun _ ↦ h40, fun _ ↦ rfl⟩
    · omega
    · omega
    · exact ⟨fun h ↦ absurd h (by decide), fun h ↦ absurd h h40⟩
  unfold Carried
  rw [htype, hf, hh]
  split
  · rw [if_neg (by omega)]
    omega
  · rw [if_pos (by omega)]

theorem h265RoundTrips_iff (hne : nalus ≠ [])
    (hn : ∀ nalu ∈ nalus, 2 ≤ nalu.length ∧ (h265NaluType nalu < 48 ∨ 50 < h265NaluType nalu))
    (hb : (avcc nalus).length ≤ 1024 * 1024) :
    H265RoundTrips st c nalus ↔
      (∀ nalu ∈ nalus,
        if nalu.length ≤ 1397 then 3 ≤ nalu.length ∧ h265NaluType nalu ≤ 40
        else 1403 ≤ nalu.length ∧ nalu.getD 0 0 &&& 0x81 = 0 ∧ nalu.getD 1 0 = 1) ∧
        (getSequenceNum c).toNat + packetCount 2 nalus ≤ 65535 := by
  have hc : ∀ nalu ∈ nalus, (Carried h265Format nalu ∧ rebuild h265Format nalu = nalu ↔
      if nalu.length ≤ 1397 then 3 ≤ nalu.length ∧ h265NaluType nalu ≤ 40
      else 1403 ≤ nalu.length ∧ nalu.getD 0 0 &&& 0x81 = 0 ∧ nalu.getD 1 0 = 1) := by
    intro nalu hm
    obtain ⟨hl, ht⟩ := hn nalu hm
    rw [h265_carried_iff ht, h265_rebuild_iff hl]
    split
    · rename_i hsmall
      exact ⟨fun h ↦ h.1, fun h ↦ ⟨h, fun hbig ↦ absurd hsmall (Nat.not_le.mpr hbig)⟩⟩
    · rename_i hbig
      exact ⟨fun h ↦ ⟨h.1, h.2 (Nat.not_le.mp hbig)⟩, fun h ↦ ⟨h.1, fun _ ↦ h.2⟩⟩
  have hcount : (payloads fuH265 nalus).length = packetCount 2 nalus := length_payloads fuH265 nalus
  rw [← hcount, h265RoundTrips_eq]
  constructor
  · intro h
    obtain ⟨hcar, hr⟩ := carried_of_roundTrips (F := h265Format) hne
      (fun nalu h ↦ h265_proper (hn nalu h).1 (hn nalu h).2) hb h
    exact ⟨fun nalu hm ↦ (hc nalu hm).mp (hcar nalu hm), hr⟩
  · rintro ⟨hsizes, hr⟩
    exact roundTrips_of_carried (F := h265Format) hne hb
      (fun nalu hm ↦ (hc nalu hm).mpr (hsizes nalu hm)) hr

theorem h265RoundTrips_iff_sample :
    H265RoundTrips ⟨97, 0, 0⟩ 0 [[0x40, 0x01, 0x0C], [0x26, 0x01, 0xAF]] :=
  (h265RoundTrips_iff (by decide) (by decide) (by decide)).mpr (by decide)

/-- The receiver drops a NAL unit of two bytes, and the second byte of a header with a
temporal id does not survive the fragments. -/
theorem h265RoundTrips_fails :
    ¬ H265RoundTrips ⟨97, 0, 0⟩ 0 [[0x46, 0x01]] ∧
      ¬ H265RoundTrips ⟨97, 0, 0⟩ 0 [0x02 :: 0x02 :: List.replicate 1500 0] := by
  rw [h265RoundTrips_eq, h265RoundTrips_eq]
  constructor
  · refine not_roundTrips_singleton (h265_proper (by decide) (by decide)) (by decide) ?_
    rw [h265_carried_iff (by decide)]
    exact fun h ↦ absurd h.1 (by decide)
  · have ht : h265NaluType (0x02 :: 0x02 :: List.replicate 1500 0) < 48 ∨
        50 < h265NaluType (0x02 :: 0x02 :: List.replicate 1500 0) := by
      change (0x02 : UInt8).toNat / 2 % 64 < 48 ∨ 50 < (0x02 : UInt8).toNat / 2 % 64
      decide
    have hl : (0x02 :: 0x02 :: List.replicate 1500 (0 : UInt8)).length = 1502 := by
      rw [List.length_cons, List.length_cons, List.length_replicate]
    refine not_roundTrips_singleton (h265_proper (by rw [hl]; decide) ht) (by rw [hl]; decide) ?_
    rw [h265_rebuild_iff (by rw [hl]; decide), hl]
    intro h
    have hbyte : (0x02 : UInt8) = 1 := (h.2 (by decide)).2
    exact absurd hbyte (by decide)

end H265

end MmsServer.Rtp.VideoRoundTrip
