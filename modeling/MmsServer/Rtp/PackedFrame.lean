import MmsServer.Rtp.Charge

namespace MmsServer.Rtp.PackedFrame

open Lib.ByteReader Packer Depacketizer Assembler Format Reassembly Charge

variable (F : NaluFormat) {nalu data : Bytes} {nalus : List Bytes} {last : Bool}

/-- A NAL unit that is sent in fragments and needs only one. The packer sets no end
bit there. -/
def StartOnly (nalu : Bytes) : Prop :=
  nalRtpPacketSize - 3 < nalu.length ∧ nalu.length ≤ nalRtpPacketSize + F.fu.naluHeader

/-- The NAL units that a packer is given: their types do not stand for packets
of several NAL units or for parts of one. -/
structure Proper (nalu : Bytes) : Prop where
  header_le : F.fu.naluHeader ≤ nalu.length
  not_stapA : payloadTypeOf F.codec nalu ≠ .stapA
  known : F.codec.fuHeader ≤ nalu.length → payloadTypeOf F.codec nalu = .singleNalu ∨
    3 ≤ nalu.length ∧ (payloadTypeOf F.codec nalu = .other ∨ nalRtpPacketSize - 3 < nalu.length)

def payloadCharges (k : Codec) (ps : List (Bool × Bytes)) : ℕ := (ps.map fun q ↦ charge k q.2).sum

@[simp] theorem payloadCharges_nil (k : Codec) : payloadCharges k [] = 0 := rfl

@[simp] theorem payloadCharges_cons (k : Codec) (q : Bool × Bytes) (ps : List (Bool × Bytes)) :
    payloadCharges k (q :: ps) = charge k q.2 + payloadCharges k ps := by
  simp only [payloadCharges, List.map_cons, List.sum_cons]

theorem payloadCharges_append (k : Codec) (ps qs : List (Bool × Bytes)) :
    payloadCharges k (ps ++ qs) = payloadCharges k ps + payloadCharges k qs := by
  simp only [payloadCharges, List.map_append, List.sum_append]

theorem charges_number (k : Codec) (st : Stream) (c : BitVec 16) (ps : List (Bool × Bytes)) :
    charges k (number st c ps) = payloadCharges k ps := by
  induction ps generalizing c with
  | nil => rfl
  | cons q ps ih =>
    rw [payloadCharges_cons, ← ih (getSequenceNum c)]
    simp only [charges, number, List.map_cons, List.sum_cons, packet]

theorem charge_firstFragment (nalu : Bytes) (isEnd : Bool) (chunk : Bytes) :
    charge F.codec (F.fu.fuPrefix nalu true isEnd ++ chunk) = F.codec.fuHeader + chunk.length := by
  obtain ⟨hs, he⟩ := F.fragment_bits nalu true isEnd chunk
  rw [charge_fu F (fuHeader_le_fragment F nalu true isEnd chunk)
    (F.fragment_type nalu true isEnd chunk), if_pos hs, he, List.length_append, F.prefix_length]
  rfl

theorem charge_fragment (nalu : Bytes) (isEnd : Bool) (chunk : Bytes) :
    charge F.codec (F.fu.fuPrefix nalu false isEnd ++ chunk) =
      max 4 (chunk.length + if isEnd then 3 else 0) := by
  obtain ⟨hs, he⟩ := F.fragment_bits nalu false isEnd chunk
  rw [charge_fu F (fuHeader_le_fragment F nalu false isEnd chunk)
    (F.fragment_type nalu false isEnd chunk), hs, he, List.length_append, F.prefix_length,
    Nat.add_sub_cancel_left, Bool.not_false, Bool.true_and]
  rfl

/-- The fragments behind the first one pay for their bytes and for the rest of
the length. -/
theorem charges_fragments {fuel : ℕ} (hd : 0 < data.length) (hf : data.length ≤ fuel) :
    payloadCharges F.codec (fragments F.fu nalu last fuel false data) = data.length + 3 := by
  have hsize : nalRtpPacketSize = 1400 := rfl
  induction fuel generalizing data with
  | zero => omega
  | succ fuel ih =>
    by_cases hle : data.length ≤ nalRtpPacketSize
    · rw [fragments_last last false fuel hd hle, payloadCharges_cons, payloadCharges_nil,
        charge_fragment, if_pos rfl]
      omega
    · have hdrop : (data.drop nalRtpPacketSize).length = data.length - nalRtpPacketSize :=
        List.length_drop
      have htake : (data.take nalRtpPacketSize).length = nalRtpPacketSize := by
        rw [List.length_take]
        omega
      rw [fragments_more last false fuel (by omega), payloadCharges_cons, charge_fragment,
        ih (by omega) (by omega), htake, if_neg (by decide)]
      omega

theorem charges_fragmented (hfu : nalRtpPacketSize - 3 < nalu.length) :
    payloadCharges F.codec (naluPayloads F.fu last nalu) =
      if nalu.length ≤ nalRtpPacketSize + F.fu.naluHeader then 1 + nalu.length
      else 4 + nalu.length := by
  have hsize : nalRtpPacketSize = 1400 := rfl
  have hle := F.naluHeader_le
  have hpos := F.naluHeader_pos
  have heq := F.fuHeader_eq
  have hlen : (nalu.drop F.fu.naluHeader).length = nalu.length - F.fu.naluHeader := List.length_drop
  obtain ⟨fuel, hfuel⟩ : ∃ fuel, nalu.length = fuel + 1 := ⟨nalu.length - 1, by omega⟩
  rw [naluPayloads, if_pos hfu]
  split
  · rw [hfuel, fragments_last last true fuel (by omega) (by omega), payloadCharges_cons,
      payloadCharges_nil, charge_firstFragment]
    omega
  · have hdrop : ((nalu.drop F.fu.naluHeader).drop nalRtpPacketSize).length =
        nalu.length - F.fu.naluHeader - nalRtpPacketSize := by rw [List.length_drop, hlen]
    have htake : ((nalu.drop F.fu.naluHeader).take nalRtpPacketSize).length = nalRtpPacketSize := by
      rw [List.length_take]
      omega
    rw [hfuel, fragments_more last true fuel (by omega), payloadCharges_cons, charge_firstFragment,
      charges_fragments F (by omega) (by omega), htake, hdrop]
    omega

theorem charges_carried (hc : Carried F nalu) :
    payloadCharges F.codec (naluPayloads F.fu last nalu) = 4 + nalu.length := by
  unfold Carried at hc
  split at hc
  · rw [charges_fragmented F ‹_›, if_neg (by omega)]
  · rw [naluPayloads, if_neg ‹_›, payloadCharges_cons, payloadCharges_nil,
      charge_singleNalu F hc.1 hc.2, Nat.add_zero]

theorem charges_startOnly (hs : StartOnly F nalu) :
    payloadCharges F.codec (naluPayloads F.fu last nalu) = 1 + nalu.length := by
  rw [charges_fragmented F hs.1, if_pos hs.2]

/-- A NAL unit in a packet that the receiver does not know. -/
theorem charges_lost (last : Bool) (hp : Proper F nalu) (hc : ¬ Carried F nalu)
    (hs : ¬ StartOnly F nalu) :
    payloadCharges F.codec (naluPayloads F.fu last nalu) ≤ nalu.length := by
  unfold Carried at hc
  split at hc
  · exact absurd ⟨‹_›, by omega⟩ hs
  · rename_i hsmall
    rw [naluPayloads, if_neg hsmall, payloadCharges_cons, payloadCharges_nil, Nat.add_zero]
    by_cases hlen : F.codec.fuHeader ≤ nalu.length
    · obtain h | ⟨h3, ho | hl⟩ := hp.known hlen
      · exact absurd ⟨hlen, h⟩ hc
      · simpa only [charge, if_neg (Nat.not_lt.mpr hlen), ho] using h3
      · exact absurd hl hsmall
    · simp only [charge, if_pos (Nat.not_le.mp hlen), Nat.zero_le]

theorem charges_le (last : Bool) (hp : Proper F nalu) :
    payloadCharges F.codec (naluPayloads F.fu last nalu) ≤ 4 + nalu.length := by
  by_cases hc : Carried F nalu
  · exact (charges_carried F hc).le
  · by_cases hs : StartOnly F nalu
    · rw [charges_startOnly F hs]
      omega
    · exact (charges_lost F last hp hc hs).trans (Nat.le_add_left _ _)

theorem charges_payloads_le (hp : ∀ nalu ∈ nalus, Proper F nalu) :
    payloadCharges F.codec (payloads F.fu nalus) ≤ (avcc nalus).length := by
  induction nalus with
  | nil => exact le_rfl
  | cons n nalus ih =>
    have hn := charges_le F nalus.isEmpty (hp n List.mem_cons_self)
    have hrest := ih fun m hm ↦ hp m (List.mem_cons_of_mem n hm)
    rw [payloads, payloadCharges_append, avcc_length_cons]
    omega

/-- What one NAL unit does not pay is missing in the whole frame. -/
theorem charges_payloads (hp : ∀ nalu ∈ nalus, Proper F nalu) {d : ℕ} (hn : nalu ∈ nalus)
    (hd : ∀ last, payloadCharges F.codec (naluPayloads F.fu last nalu) + d ≤ 4 + nalu.length) :
    payloadCharges F.codec (payloads F.fu nalus) + d ≤ (avcc nalus).length := by
  induction nalus with
  | nil => cases hn
  | cons n nalus ih =>
    have hp' : ∀ nalu ∈ nalus, Proper F nalu := fun m hm ↦ hp m (List.mem_cons_of_mem n hm)
    rw [payloads, payloadCharges_append, avcc_length_cons]
    obtain rfl | hn := List.mem_cons.mp hn
    · have hfirst := hd nalus.isEmpty
      have hrest := charges_payloads_le F hp'
      omega
    · have hfirst := charges_le F nalus.isEmpty (hp n List.mem_cons_self)
      have hrest := ih hp' hn
      omega

section Markers

variable {F} {q : Bool × Bytes}

theorem fragments_marker (fuel : ℕ) (start : Bool) (data : Bytes) :
    ∀ q ∈ fragments F.fu nalu false fuel start data, q.1 = false := by
  induction fuel generalizing start data with
  | zero => intro q hq; cases hq
  | succ fuel ih =>
    intro q hq
    rw [fragments] at hq
    split at hq
    · cases hq
    · obtain rfl | hq := List.mem_cons.mp hq
      · exact Bool.and_false _
      · exact ih _ _ q hq

theorem naluPayloads_marker (hq : q ∈ naluPayloads F.fu false nalu) : q.1 = false := by
  unfold naluPayloads at hq
  split at hq
  · exact fragments_marker _ _ _ q hq
  · rw [List.mem_singleton.mp hq]

theorem fragments_lastMarker {fuel : ℕ} (start : Bool) (hd : 0 < data.length)
    (hf : data.length ≤ fuel) :
    ∃ qs payload, fragments F.fu nalu true fuel start data = qs ++ [(true, payload)] ∧
      ∀ q ∈ qs, q.1 = false := by
  have hsize : nalRtpPacketSize = 1400 := rfl
  induction fuel generalizing data start with
  | zero => omega
  | succ fuel ih =>
    by_cases hle : data.length ≤ nalRtpPacketSize
    · rw [fragments_last true start fuel hd hle]
      exact ⟨[], _, rfl, fun q hq ↦ by cases hq⟩
    · have hdrop : (data.drop nalRtpPacketSize).length = data.length - nalRtpPacketSize :=
        List.length_drop
      rw [fragments_more true start fuel (by omega)]
      have hpos : 0 < (data.drop nalRtpPacketSize).length := by omega
      obtain ⟨qs, payload, h, hm⟩ := ih false hpos (by omega)
      rw [h]
      refine ⟨_ :: qs, payload, rfl, fun q hq ↦ ?_⟩
      obtain rfl | hq := List.mem_cons.mp hq
      · rfl
      · exact hm q hq

/-- Only the last packet of a frame has the marker. -/
theorem payloads_marker (hne : nalus ≠ []) :
    ∃ qs payload, payloads F.fu nalus = qs ++ [(true, payload)] ∧ ∀ q ∈ qs, q.1 = false := by
  obtain ⟨init, nalu, rfl⟩ : ∃ init nalu, nalus = init ++ [nalu] :=
    ⟨nalus.dropLast, nalus.getLast hne, (List.dropLast_append_getLast hne).symm⟩
  have hlast : ∃ qs payload, naluPayloads F.fu true nalu = qs ++ [(true, payload)] ∧
      ∀ q ∈ qs, q.1 = false := by
    unfold naluPayloads
    split
    · have hsize : nalRtpPacketSize = 1400 := rfl
      have hle := F.naluHeader_le
      refine fragments_lastMarker true ?_ ?_
      · rw [List.length_drop]
        omega
      · rw [List.length_drop]
        omega
    · exact ⟨[], nalu, rfl, fun q hq ↦ by cases hq⟩
  obtain ⟨qs, payload, h, hm⟩ := hlast
  refine ⟨init.flatMap (naluPayloads F.fu false) ++ qs, payload, ?_, fun q hq ↦ ?_⟩
  · rw [payloads_concat, h, List.append_assoc]
  · obtain hq | hq := List.mem_append.mp hq
    · obtain ⟨n, -, hq⟩ := List.mem_flatMap.mp hq
      exact naluPayloads_marker hq
    · exact hm q hq

end Markers

section Payloads

variable {q : Bool × Bytes}

/-- A payload is a NAL unit or a fragment. -/
theorem mem_naluPayloads (hq : q ∈ naluPayloads F.fu last nalu) :
    (q.2 = nalu ∧ ¬ nalRtpPacketSize - 3 < nalu.length) ∨
      ∃ start isEnd chunk, q.2 = F.fu.fuPrefix nalu start isEnd ++ chunk := by
  have hfrag : ∀ fuel start data, q ∈ fragments F.fu nalu last fuel start data →
      ∃ start isEnd chunk, q.2 = F.fu.fuPrefix nalu start isEnd ++ chunk := by
    intro fuel
    induction fuel with
    | zero => intro start data hq; cases hq
    | succ fuel ih =>
      intro start data hq
      rw [fragments] at hq
      split at hq
      · cases hq
      · obtain rfl | hq := List.mem_cons.mp hq
        · exact ⟨_, _, _, rfl⟩
        · exact ih _ _ hq
  unfold naluPayloads at hq
  split at hq
  · exact .inr (hfrag _ _ _ hq)
  · rw [List.mem_singleton.mp hq]
    exact .inl ⟨rfl, ‹_›⟩

theorem mem_payloads (hq : q ∈ payloads F.fu nalus) :
    ∃ nalu ∈ nalus, ∃ last, q ∈ naluPayloads F.fu last nalu := by
  induction nalus with
  | nil => cases hq
  | cons n nalus ih =>
    obtain hq | hq := List.mem_append.mp hq
    · exact ⟨n, List.mem_cons_self, _, hq⟩
    · obtain ⟨m, hm, h⟩ := ih hq
      exact ⟨m, List.mem_cons_of_mem n hm, h⟩

theorem payload_not_stapA (hp : ∀ nalu ∈ nalus, Proper F nalu) (hq : q ∈ payloads F.fu nalus) :
    payloadTypeOf F.codec q.2 ≠ .stapA := by
  obtain ⟨nalu, hn, last, hq⟩ := mem_payloads F hq
  obtain ⟨h, -⟩ | ⟨start, isEnd, chunk, h⟩ := mem_naluPayloads F hq
  · rw [h]
    exact (hp nalu hn).not_stapA
  · rw [h, F.fragment_type]
    decide

/-- The receiver keeps the packets of the NAL units that it can read. -/
theorem payload_accepted (hc : ∀ nalu ∈ nalus, Carried F nalu ∨ StartOnly F nalu)
    (hq : q ∈ payloads F.fu nalus) : 0 ≤ parseCode F.codec q.2 := by
  have heq := F.fuHeader_eq
  obtain ⟨nalu, hn, last, hq⟩ := mem_payloads F hq
  obtain ⟨h, hsmall⟩ | ⟨start, isEnd, chunk, h⟩ := mem_naluPayloads F hq
  · obtain hc | hs := hc nalu hn
    · rw [Carried, if_neg hsmall] at hc
      have ht := hc.2
      unfold payloadTypeOf at ht
      simp only [h, parseCode, if_neg (Nat.not_lt.mpr hc.1), ht]
      omega
    · exact absurd hs.1 hsmall
  · rw [h, parseCode_of_fu (fuHeader_le_fragment F nalu start isEnd chunk)
      (F.fragment_type nalu start isEnd chunk)]
    omega

/-- The first packet of a NAL unit is the NAL unit or a first fragment. -/
theorem naluPayloads_first (last : Bool) (hc : Carried F nalu ∨ StartOnly F nalu) :
    ∃ q qs, naluPayloads F.fu last nalu = q :: qs ∧ F.codec.fuHeader ≤ q.2.length ∧
      4 ≤ charge F.codec q.2 ∧
      (payloadTypeOf F.codec q.2 = .singleNalu ∨ payloadTypeOf F.codec q.2 = .fu ∧
        startBitOf F.codec q.2 = true ∧ endBitOf F.codec q.2 = false) := by
  have hsize : nalRtpPacketSize = 1400 := rfl
  have hle := F.naluHeader_le
  by_cases hfu : nalRtpPacketSize - 3 < nalu.length
  · have hlen : (nalu.drop F.fu.naluHeader).length = nalu.length - F.fu.naluHeader :=
      List.length_drop
    obtain ⟨fuel, hfuel⟩ : ∃ fuel, nalu.length = fuel + 1 := ⟨nalu.length - 1, by omega⟩
    have hne : nalu.drop F.fu.naluHeader ≠ [] := List.ne_nil_of_length_pos (by omega)
    rw [naluPayloads, if_pos hfu, hfuel, fragments, if_neg hne]
    refine ⟨_, _, rfl, fuHeader_le_fragment F nalu true _ _, ?_,
      .inr ⟨F.fragment_type nalu true _ _, F.fragment_bits nalu true _ _⟩⟩
    rw [charge_firstFragment, List.length_take]
    omega
  · have hc : Carried F nalu := hc.resolve_right fun hs ↦ hfu hs.1
    rw [Carried, if_neg hfu] at hc
    rw [naluPayloads, if_neg hfu]
    refine ⟨_, _, rfl, hc.1, ?_, .inl hc.2⟩
    rw [charge_singleNalu F hc.1 hc.2]
    exact Nat.le_add_right 4 _

end Payloads

end MmsServer.Rtp.PackedFrame
