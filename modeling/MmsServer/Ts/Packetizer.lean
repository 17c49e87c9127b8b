import MmsServer.Lib.ByteReader
import MmsServer.Ts.Segment

namespace MmsServer.Ts.Packetizer

open Lib.ByteReader Segment

section Iso13818

/-- The bits that ISO 13818-1 reads from the second and the fourth byte of a packet. -/
def payloadUnitStartIndicator (packet : Bytes) : Bool := (packet.getD 1 0).toNat / 64 % 2 == 1

def adaptationFieldControl (packet : Bytes) : ℕ := (packet.getD 3 0).toNat / 16 % 4

/-- The payload of a packet, behind the four header bytes and the adaptation
field that the header announces. -/
def payloadOf (packet : Bytes) : Bytes :=
  match adaptationFieldControl packet with
  | 1 => packet.drop 4
  | 3 => (packet.drop 5).drop (packet.getD 4 0).toNat
  | _ => []

end Iso13818

def tsHeader (pid : BitVec 16) (start both : Bool) (counter : UInt8) : Bytes :=
  0x47 :: putBE 2 ((if start then 1 else 0) <<< 14 ||| pid.toNat) ++
    [UInt8.ofNat ((if both then 3 else 1) * 16 + counter.toNat % 16)]

def staffingCount (total left : ℕ) : ℕ :=
  if 4 + total + left ≤ 188 then 188 - (4 + total + left) else 0

/-- An adaptation field of `total` bytes, the length byte included, that is
stuffed as far as `left` bytes of payload leave room. -/
def adaptationField (total left : ℕ) (flags : UInt8) (body : Bytes) : Bytes :=
  [UInt8.ofNat (total + staffingCount total left - 1), flags] ++ body ++
    List.replicate (staffingCount total left) 0xff

def pcrBytes (dts : BitVec 64) : Bytes :=
  putBE 6 (0x7e00#64 ||| dts <<< 15 &&& 0xffffffff8000#64).toNat

def pcrField (dts : BitVec 64) (left : ℕ) : Bytes := adaptationField 8 left 0x10 (pcrBytes dts)

def paddingField (left : ℕ) : Bytes := adaptationField 2 left 0x00 []

def packetFields (pcr : Option (BitVec 64)) (left : ℕ) : List Bytes :=
  (pcr.elim [] fun dts ↦ [pcrField dts left]) ++ if left < 184 then [paddingField left] else []

/-- The padding overwrites what the PCR has put into the variable. -/
def adaptationFieldTotalLength (pcr : Option (BitVec 64)) (left : ℕ) : ℕ :=
  if left < 184 then 2 + staffingCount 2 left else pcr.elim 0 fun _ ↦ 8 + staffingCount 8 left

/-- Copy `n` bytes out of the segments; `none` if the code would run past the last one. -/
def copySegs : List Bytes → ℕ → Option (Bytes × List Bytes)
  | segs, 0 => some ([], segs)
  | [], _ + 1 => none
  | seg :: segs, n + 1 =>
    if seg.length < n + 1 then (copySegs segs (n + 1 - seg.length)).map fun r ↦ (seg ++ r.1, r.2)
    else if seg.length = n + 1 then some (seg, segs)
    else some (seg.take (n + 1), seg.drop (n + 1) :: segs)

structure TsWrite where
  slot : Slot
  header : Bytes
  fields : List Bytes
  payload : Bytes

def TsWrite.bytes (w : TsWrite) : Bytes := w.header ++ w.fields.flatten ++ w.payload

def tsPacket (pid : BitVec 16) (pcr : Option (BitVec 64)) (first : Bool) (left : ℕ)
    (counter : UInt8) (slot : Slot) (payload : Bytes) : TsWrite where
  slot := slot
  header := tsHeader pid first (pcr.isSome || left < 184) counter
  fields := packetFields pcr left
  payload := payload

structure PacketRun where
  writes : List TsWrite
  seg : TsSegment
  counter : UInt8

/-- The loop that cuts a PES packet of `pesLen` bytes, of which `left` are not
written yet. It takes `pcr` into the first packet. -/
def packetLoop (pid : BitVec 16) (pcr : Option (BitVec 64)) (pesLen : ℕ) :
    ℕ → ℕ → List Bytes → TsSegment → UInt8 → Option PacketRun
  | fuel, left, segs, seg, counter =>
    if left = 0 then some ⟨[], seg, counter⟩
    else match fuel with
      | 0 => none
      | fuel + 1 =>
        let first := left == pesLen
        let pcr' := if first then pcr else none
        let (slot, seg) := seg.allocTsPacket
        let consumed := 184 - adaptationFieldTotalLength pcr' left
        match copySegs segs consumed with
        | none => none
        | some (payload, segs) =>
          (packetLoop pid pcr pesLen fuel (left - consumed) segs seg (counter + 1)).map fun r ↦
            { r with writes := tsPacket pid pcr' first left counter slot payload :: r.writes }

inductive VideoCodec
  | avc
  | hevc
deriving DecidableEq

def VideoCodec.pid : VideoCodec → BitVec 16
  | .avc => 0x100
  | .hevc => 0x100

structure RtmpToTs where
  videoCodec : VideoCodec
  pcrPid : BitVec 16
  currSeg : TsSegment
  continuityCounter : BitVec 16 → UInt8

structure PesPacket where
  dts : BitVec 64
  tsIndex : ℕ := 0
  tsOff : ℕ := 0
  tsBytes : BitVec 32 := 0

structure VideoTs where
  writes : List TsWrite
  pesPacket : PesPacket
  state : RtmpToTs

def createVideoTs (s : RtmpToTs) (pes : PesPacket) (videoPesSegs : List Bytes) (pesLen : ℕ)
    (isKey : Bool) :
    Option VideoTs :=
  let pid := s.videoCodec.pid
  let pcr := if s.pcrPid = pid ∧ isKey then some pes.dts else none
  (packetLoop pid pcr pesLen pesLen pesLen videoPesSegs s.currSeg (s.continuityCounter pid)).map fun r ↦
    { writes := r.writes
      pesPacket :=
        { pes with
          tsIndex := s.currSeg.tsChunkIndex
          tsOff := s.currSeg.tsChunkOff
          tsBytes := BitVec.ofNat 32 (188 * r.writes.length) }
      state :=
        { s with
          currSeg := r.seg
          continuityCounter := Function.update s.continuityCounter pid r.counter } }

/-- A packet that is written whole, is where it was allocated, and is delimited
by its own header bytes. -/
structure WellFormed (seg : TsSegment) (first : Bool) (w : TsWrite) : Prop where
  inside : w.slot.Inside seg
  length : w.bytes.length = 188
  sync : w.bytes.head? = some 0x47
  start : payloadUnitStartIndicator w.bytes = first
  field : adaptationFieldControl w.bytes = 3 →
    ∃ len body, w.fields = [len :: body] ∧ len.toNat = body.length

structure Packetised (seg : TsSegment) (segs : List Bytes) (writes : List TsWrite) : Prop where
  packets : ∀ i w, writes[i]? = some w → WellFormed seg (i == 0) w
  payloads : (writes.map fun w ↦ payloadOf w.bytes).flatten = segs.flatten

section Packet

variable {pid : BitVec 16}

theorem startBit_or (hpid : pid.toNat < 2 ^ 13) (start : Bool) :
    (if start then 1 else 0) <<< 14 ||| pid.toNat = (if start then 2 ^ 14 else 0) + pid.toNat := by
  cases start with
  | false => simp
  | true =>
    have h := Nat.two_pow_add_eq_or_of_lt (show pid.toNat < 2 ^ 14 by omega) 1
    simpa using h.symm

theorem tsHeader_spec (hpid : pid.toNat < 2 ^ 13) (start both : Bool) (counter : UInt8) :
    ∃ b₁ b₂ b₃ : UInt8, tsHeader pid start both counter = [0x47, b₁, b₂, b₃] ∧
      (b₁.toNat / 64 % 2 == 1) = start ∧ b₃.toNat / 16 % 4 = if both then 3 else 1 := by
  have hv := startBit_or hpid start
  refine ⟨_, _, _, rfl, ?_, ?_⟩
  · rw [hv, UInt8.toNat_ofNat']
    cases start with
    | false =>
      rw [beq_eq_false_iff_ne]
      simp only [Bool.false_eq_true, if_false]
      omega
    | true =>
      rw [beq_iff_eq]
      simp only [if_true]
      omega
  · rw [UInt8.toNat_ofNat']
    cases both with
    | false => simp only [Bool.false_eq_true, if_false]; omega
    | true => simp only [if_true]; omega

theorem adaptationField_spec (total left : ℕ) (flags : UInt8) (body : Bytes)
    (hb : body.length + 2 = total) (hlt : total + staffingCount total left ≤ 256) :
    ∃ (len : UInt8) (rest : Bytes), adaptationField total left flags body = len :: rest ∧
      len.toNat = rest.length ∧ rest.length + 1 = total + staffingCount total left := by
  have hl : (flags :: (body ++ List.replicate (staffingCount total left) 0xff)).length + 1 =
      total + staffingCount total left := by
    rw [List.length_cons, List.length_append, List.length_replicate]
    omega
  refine ⟨_, flags :: (body ++ List.replicate (staffingCount total left) 0xff), rfl, ?_, hl⟩
  rw [UInt8.toNat_ofNat', Nat.mod_eq_of_lt (by omega)]
  omega

theorem plainPacket_wellFormed (hpid : pid.toNat < 2 ^ 13) {seg : TsSegment} {slot : Slot}
    (hs : slot.Inside seg) (first : Bool) (counter : UInt8) {payload : Bytes}
    (hp : payload.length = 184) :
    WellFormed seg first ⟨slot, tsHeader pid first false counter, [], payload⟩ ∧
      payloadOf (TsWrite.bytes ⟨slot, tsHeader pid first false counter, [], payload⟩) =
        payload := by
  obtain ⟨b₁, b₂, b₃, hh, hstart, hcontrol⟩ := tsHeader_spec hpid first false counter
  have hb : TsWrite.bytes ⟨slot, tsHeader pid first false counter, [], payload⟩ =
      0x47 :: b₁ :: b₂ :: b₃ :: payload := by
    simp [TsWrite.bytes, hh]
  have hc : adaptationFieldControl (0x47 :: b₁ :: b₂ :: b₃ :: payload) = 1 := hcontrol
  refine ⟨⟨hs, by rw [hb]; simp [hp], by rw [hb]; rfl, by rw [hb]; exact hstart, ?_⟩, ?_⟩
  · rw [hb, hc]
    intro h
    cases h
  · rw [hb, payloadOf, hc]
    rfl

theorem fieldPacket_wellFormed (hpid : pid.toNat < 2 ^ 13) {seg : TsSegment} {slot : Slot}
    (hs : slot.Inside seg) (first : Bool) (counter : UInt8) {field payload : Bytes} {len : UInt8}
    {rest : Bytes} (hf : field = len :: rest) (hlen : len.toNat = rest.length)
    (hp : field.length + payload.length = 184) :
    WellFormed seg first ⟨slot, tsHeader pid first true counter, [field], payload⟩ ∧
      payloadOf (TsWrite.bytes ⟨slot, tsHeader pid first true counter, [field], payload⟩) =
        payload := by
  subst hf
  obtain ⟨b₁, b₂, b₃, hh, hstart, hcontrol⟩ := tsHeader_spec hpid first true counter
  have hb : TsWrite.bytes ⟨slot, tsHeader pid first true counter, [len :: rest], payload⟩ =
      0x47 :: b₁ :: b₂ :: b₃ :: len :: (rest ++ payload) := by
    simp [TsWrite.bytes, hh]
  have hc : adaptationFieldControl (0x47 :: b₁ :: b₂ :: b₃ :: len :: (rest ++ payload)) = 3 :=
    hcontrol
  refine ⟨⟨hs, ?_, by rw [hb]; rfl, by rw [hb]; exact hstart, ?_⟩, ?_⟩
  · rw [hb]
    simp only [List.length_cons, List.length_append] at hp ⊢
    omega
  · intro _
    exact ⟨len, rest, rfl, hlen⟩
  · rw [hb, payloadOf, hc]
    change List.drop len.toNat (rest ++ payload) = payload
    rw [hlen, List.drop_left]

theorem pcrBytes_length (dts : BitVec 64) : (pcrBytes dts).length = 6 := putBE_length ..

theorem packet_spec (hpid : pid.toNat < 2 ^ 13) {pcr : Option (BitVec 64)} {left : ℕ}
    (hleft : 0 < left) (hpcr : pcr = none ∨ 184 ≤ left) :
    0 < 184 - adaptationFieldTotalLength pcr left ∧
    184 - adaptationFieldTotalLength pcr left ≤ left ∧
    ∀ {seg : TsSegment} {slot : Slot}, slot.Inside seg →
    ∀ (first : Bool) (counter : UInt8) (payload : Bytes),
      payload.length = 184 - adaptationFieldTotalLength pcr left →
      WellFormed seg first (tsPacket pid pcr first left counter slot payload) ∧
        payloadOf (tsPacket pid pcr first left counter slot payload).bytes = payload := by
  unfold tsPacket
  by_cases hlt : left < 184
  · obtain rfl : pcr = none := hpcr.resolve_right (by omega)
    have hs : 2 + staffingCount 2 left ≤ 183 ∧ 184 - (2 + staffingCount 2 left) ≤ left := by
      unfold staffingCount
      split <;> omega
    have ht : adaptationFieldTotalLength none left = 2 + staffingCount 2 left := if_pos hlt
    have hfields : packetFields none left = [paddingField left] := by simp [packetFields, hlt]
    obtain ⟨len, rest, hf, hl, hr⟩ := adaptationField_spec 2 left 0x00 [] rfl (by omega)
    rw [ht, hfields, show (Option.isSome none || decide (left < 184)) = true by simp [hlt]]
    refine ⟨by omega, hs.2, ?_⟩
    intro seg slot hslot first counter payload hp
    apply fieldPacket_wellFormed hpid hslot first counter hf hl
    rw [hf, List.length_cons, hp, hr]
    omega
  · have hge : decide (left < 184) = false := by simpa using Nat.not_lt.mp hlt
    cases pcr with
    | none =>
      have ht : adaptationFieldTotalLength none left = 0 := if_neg hlt
      have hfields : packetFields none left = [] := by simp [packetFields, hlt]
      rw [ht, hfields, hge]
      refine ⟨by omega, by omega, ?_⟩
      intro seg slot hslot first counter payload hp
      exact plainPacket_wellFormed hpid hslot first counter hp
    | some dts =>
      have hs : staffingCount 8 left = 0 := if_neg (by omega)
      have ht : adaptationFieldTotalLength (some dts) left = 8 := by
        rw [adaptationFieldTotalLength, if_neg hlt, Option.elim_some, hs]
      have hfields : packetFields (some dts) left = [pcrField dts left] := by
        simp [packetFields, hlt]
      obtain ⟨len, rest, hf, hl, hr⟩ := adaptationField_spec 8 left 0x10 (pcrBytes dts)
        (by rw [pcrBytes_length]) (by omega)
      rw [ht, hfields, Option.isSome_some, Bool.true_or]
      refine ⟨by omega, by omega, ?_⟩
      intro seg slot hslot first counter payload hp
      apply fieldPacket_wellFormed hpid hslot first counter hf hl
      rw [hf, List.length_cons, hp, hr]
      omega

end Packet

section Run

theorem copySegs_spec (segs : List Bytes) (n : ℕ) (h : n ≤ segs.flatten.length) :
    ∃ rest, copySegs segs n = some (segs.flatten.take n, rest) ∧
      rest.flatten = segs.flatten.drop n := by
  induction segs generalizing n with
  | nil =>
    obtain rfl : n = 0 := by simpa using h
    exact ⟨[], rfl, rfl⟩
  | cons seg segs ih =>
    cases n with
    | zero => exact ⟨seg :: segs, rfl, rfl⟩
    | succ n =>
      rw [List.flatten_cons, List.length_append] at h
      rw [copySegs, List.flatten_cons, List.take_append, List.drop_append]
      by_cases hlt : seg.length < n + 1
      · obtain ⟨rest, hr, hd⟩ := ih (n + 1 - seg.length) (by omega)
        have htake : seg.take (n + 1) = seg := List.take_of_length_le (by omega)
        have hdrop : seg.drop (n + 1) = [] := List.drop_of_length_le (by omega)
        refine ⟨rest, ?_, ?_⟩
        · rw [if_pos hlt, hr, Option.map_some, htake]
        · rw [hd, hdrop, List.nil_append]
      · have hz : n + 1 - seg.length = 0 := by omega
        rw [if_neg hlt, hz, List.take_zero, List.append_nil, List.drop_zero]
        by_cases heq : seg.length = n + 1
        · refine ⟨segs, by rw [if_pos heq, List.take_of_length_le (by omega)], ?_⟩
          rw [List.drop_of_length_le (by omega), List.nil_append]
        · exact ⟨seg.drop (n + 1) :: segs, by rw [if_neg heq], rfl⟩

theorem WellFormed.mono {seg seg' : TsSegment} {first : Bool} {w : TsWrite}
    (h : WellFormed seg first w) (hs : seg.tsChunks ≤ seg'.tsChunks) : WellFormed seg' first w :=
  { h with inside := h.inside.mono hs }

variable {pid : BitVec 16} {pcr : Option (BitVec 64)} {pesLen : ℕ}

theorem packetLoop_done (fuel : ℕ) (segs : List Bytes) (seg : TsSegment) (counter : UInt8) :
    packetLoop pid pcr pesLen fuel 0 segs seg counter = some ⟨[], seg, counter⟩ := by
  unfold packetLoop
  exact if_pos rfl

theorem packetLoop_step (fuel : ℕ) {left : ℕ} (h0 : left ≠ 0) {segs rest : List Bytes}
    (seg : TsSegment) (counter : UInt8) {pcr' : Option (BitVec 64)}
    (hpcr' : pcr' = if left == pesLen then pcr else none) {payload : Bytes}
    (hcopy : copySegs segs (184 - adaptationFieldTotalLength pcr' left) = some (payload, rest)) :
    packetLoop pid pcr pesLen (fuel + 1) left segs seg counter =
      (packetLoop pid pcr pesLen fuel (left - (184 - adaptationFieldTotalLength pcr' left)) rest
        seg.allocTsPacket.2 (counter + 1)).map fun r ↦
          { r with
            writes := tsPacket pid pcr' (left == pesLen) left counter seg.allocTsPacket.1 payload :: r.writes } := by
  rw [packetLoop, if_neg h0]
  simp only [← hpcr', hcopy]

theorem consumed_le (pcr : Option (BitVec 64)) {left : ℕ} (hleft : 0 < left) :
    0 < 184 - adaptationFieldTotalLength pcr left ∧
      184 - adaptationFieldTotalLength pcr left ≤ left := by
  unfold adaptationFieldTotalLength
  split
  · unfold staffingCount
    split <;> omega
  · cases pcr with
    | none =>
      rw [Option.elim_none]
      omega
    | some dts =>
      rw [Option.elim_some, staffingCount, if_neg (by omega)]
      omega

/-- Whatever is written into the packets, the loop ends and finds the bytes. -/
theorem packetLoop_total (pesLen fuel : ℕ) (segs : List Bytes) (seg : TsSegment) (counter : UInt8)
    (hfuel : segs.flatten.length ≤ fuel) :
    ∃ r, packetLoop pid pcr pesLen fuel segs.flatten.length segs seg counter = some r := by
  induction fuel generalizing segs seg counter with
  | zero =>
    rw [show segs.flatten.length = 0 by omega]
    exact ⟨_, packetLoop_done 0 segs seg counter⟩
  | succ fuel ih =>
    by_cases h0 : segs.flatten.length = 0
    · rw [h0]
      exact ⟨_, packetLoop_done (fuel + 1) segs seg counter⟩
    · obtain ⟨hpos, hle⟩ := consumed_le (if segs.flatten.length == pesLen then pcr else none)
        (Nat.pos_of_ne_zero h0)
      obtain ⟨rest, hcopy, hrest⟩ := copySegs_spec segs _ hle
      have hlen := congrArg List.length hrest
      rw [List.length_drop] at hlen
      obtain ⟨r, hr⟩ := ih rest seg.allocTsPacket.2 (counter + 1) (by omega)
      rw [packetLoop_step fuel h0 seg counter rfl hcopy, ← hlen, hr]
      exact ⟨_, rfl⟩

theorem packetLoop_spec (hpid : pid.toNat < 2 ^ 13) (hpcr : pcr = none ∨ 184 ≤ pesLen) (fuel : ℕ)
    (segs : List Bytes) (seg : TsSegment) (counter : UInt8) (hfuel : segs.flatten.length ≤ fuel)
    (hle : segs.flatten.length ≤ pesLen) :
    ∃ r, packetLoop pid pcr pesLen fuel segs.flatten.length segs seg counter = some r ∧
      seg.tsChunks ≤ r.seg.tsChunks ∧
      (∀ i w, r.writes[i]? = some w →
        WellFormed r.seg (i == 0 && segs.flatten.length == pesLen) w) ∧
      (r.writes.map fun w ↦ payloadOf w.bytes).flatten = segs.flatten := by
  induction fuel generalizing segs seg counter with
  | zero =>
    have h0 : segs.flatten = [] := List.eq_nil_of_length_eq_zero (by omega)
    rw [h0]
    refine ⟨_, packetLoop_done 0 segs seg counter, le_rfl, ?_, rfl⟩
    intro i w hw
    cases hw
  | succ fuel ih =>
    by_cases h0 : segs.flatten.length = 0
    · rw [List.eq_nil_of_length_eq_zero h0]
      refine ⟨_, packetLoop_done (fuel + 1) segs seg counter, le_rfl, ?_, rfl⟩
      intro i w hw
      cases hw
    · obtain ⟨pcr', hpcr'⟩ : ∃ pcr', pcr' = if segs.flatten.length == pesLen then pcr else none :=
        ⟨_, rfl⟩
      have hone : pcr' = none ∨ 184 ≤ segs.flatten.length := by
        rcases hpcr with rfl | hlong
        · left
          rw [hpcr', ite_self]
        · by_cases hf : segs.flatten.length = pesLen
          · right
            omega
          · left
            rw [hpcr', if_neg]
            exact fun h ↦ hf (beq_iff_eq.mp h)
      obtain ⟨hpos, hcons, hpacket⟩ := packet_spec hpid (Nat.pos_of_ne_zero h0) hone
      obtain ⟨rest, hcopy, hrest⟩ := copySegs_spec segs _ hcons
      have hlen := congrArg List.length hrest
      rw [List.length_drop] at hlen
      obtain ⟨r, hr, hchunks, hwell, hpay⟩ :=
        ih rest seg.allocTsPacket.2 (counter + 1) (by omega) (by omega)
      obtain ⟨hw, hwp⟩ := hpacket ((alloc_inside seg).mono hchunks)
        (segs.flatten.length == pesLen) counter _
        (by rw [List.length_take, Nat.min_eq_left hcons])
      rw [packetLoop_step fuel h0 seg counter hpcr' hcopy, ← hlen, hr]
      refine ⟨_, rfl, Nat.le_trans (alloc_chunks_le seg) hchunks, ?_, ?_⟩
      · intro i w hi
        cases i with
        | zero =>
          cases hi
          exact hw
        | succ i =>
          have hlater : (rest.flatten.length == pesLen) = false := by
            rw [beq_eq_false_iff_ne]
            omega
          have h' := hwell i w hi
          rw [hlater, Bool.and_false] at h'
          exact h'
      · rw [List.map_cons, List.flatten_cons, hwp, hpay, hrest, List.take_append_drop]

theorem packetLoop_overrun {dts : BitVec 64} (segs : List Bytes) (seg : TsSegment) (counter : UInt8)
    (hlen : segs.flatten.length = pesLen) (hpos : 0 < pesLen) (hlt : pesLen < 184) {r : PacketRun}
    (hr : packetLoop pid (some dts) pesLen pesLen pesLen segs seg counter = some r) :
    ∃ w, r.writes[0]? = some w ∧ 188 < w.bytes.length := by
  have hs : 2 + staffingCount 2 pesLen ≤ 183 ∧ 184 - (2 + staffingCount 2 pesLen) ≤ pesLen := by
    unfold staffingCount
    split <;> omega
  have ht : adaptationFieldTotalLength (some dts) pesLen = 2 + staffingCount 2 pesLen := if_pos hlt
  obtain ⟨rest, hcopy, -⟩ := copySegs_spec segs (184 - adaptationFieldTotalLength (some dts) pesLen)
    (by omega)
  obtain ⟨fuel, rfl⟩ : ∃ fuel, pesLen = fuel + 1 := ⟨pesLen - 1, by omega⟩
  rw [packetLoop_step fuel (by omega) seg counter (by rw [beq_self_eq_true, if_pos rfl]) hcopy] at hr
  obtain ⟨r', -, rfl⟩ := Option.map_eq_some_iff.mp hr
  refine ⟨_, rfl, ?_⟩
  simp only [TsWrite.bytes, tsPacket, packetFields, pcrField, paddingField, adaptationField, hlt,
    if_true, Option.elim_some, List.flatten_append, List.flatten_cons, List.flatten_nil,
    List.length_append, List.length_cons, List.length_nil, List.length_replicate, pcrBytes_length,
    List.length_take, ht]
  omega

end Run

theorem pid_lt (codec : VideoCodec) : codec.pid.toNat < 2 ^ 13 := by cases codec <;> decide

/-- The packets of a PES packet are well formed and carry it without loss,
unless a key frame shorter than a packet gets a PCR. -/
theorem createVideoTs_packetised_iff (s : RtmpToTs) (pes : PesPacket) (segs : List Bytes)
    (pesLen : ℕ) (isKey : Bool) (hlen : segs.flatten.length = pesLen) (hpos : 0 < pesLen) :
    (∃ r, createVideoTs s pes segs pesLen isKey = some r ∧
      Packetised r.state.currSeg segs r.writes) ↔
      ¬ (isKey = true ∧ s.pcrPid = s.videoCodec.pid ∧ pesLen < 184) := by
  obtain ⟨pcr, hpcr⟩ : ∃ pcr, pcr =
      if s.pcrPid = s.videoCodec.pid ∧ isKey then some pes.dts else none := ⟨_, rfl⟩
  constructor
  · rintro ⟨r, hr, hp⟩ ⟨hkey, hpid, hlt⟩
    rw [if_pos ⟨hpid, hkey⟩] at hpcr
    simp only [createVideoTs, hpid, hkey, and_self, if_true] at hr
    obtain ⟨r', hr', rfl⟩ := Option.map_eq_some_iff.mp hr
    obtain ⟨w, hw, hlong⟩ := packetLoop_overrun segs s.currSeg _ hlen hpos hlt hr'
    have hl := (hp.packets 0 w hw).length
    omega
  · intro hno
    have hone : pcr = none ∨ 184 ≤ pesLen := by
      by_cases hc : s.pcrPid = s.videoCodec.pid ∧ isKey
      · right
        by_contra hlt
        exact hno ⟨hc.2, hc.1, by omega⟩
      · left
        rw [hpcr, if_neg hc]
    obtain ⟨r, hr, -, hwell, hpay⟩ :=
      packetLoop_spec (pid_lt s.videoCodec) hone pesLen segs s.currSeg
      (s.continuityCounter s.videoCodec.pid) (by omega) (by omega)
    rw [hlen] at hr hwell
    simp only [createVideoTs, ← hpcr, hr, Option.map_some]
    refine ⟨_, rfl, ?_, hpay⟩
    intro i w hi
    have hw := hwell i w hi
    rwa [beq_self_eq_true, Bool.and_true] at hw

def freshBridge : RtmpToTs := ⟨.avc, 0x100, {}, fun _ ↦ 0⟩

def shortPes : List Bytes := [[0, 0, 1, 0xe0, 0, 8, 0x80, 0x80, 5], [0, 0, 0, 1], [9]]

theorem shortPes_packetised_iff : 0 < shortPes.flatten.length ∧
    ((∃ r, createVideoTs freshBridge ⟨0, 0, 0, 0⟩ shortPes 14 false = some r ∧
        Packetised r.state.currSeg shortPes r.writes) ↔
      ¬ (false = true ∧ freshBridge.pcrPid = freshBridge.videoCodec.pid ∧ 14 < 184)) :=
  ⟨by decide, createVideoTs_packetised_iff freshBridge ⟨0, 0, 0, 0⟩ shortPes 14 false rfl (by decide)⟩

/-- As a key frame the same PES packet overwrites the 170 bytes behind its packet. -/
theorem short_keyframe_overruns :
    (createVideoTs freshBridge ⟨0, 0, 0, 0⟩ shortPes 14 true).map
      (fun r ↦ r.writes.map fun w ↦ w.bytes.length) = some [358] ∧
    ¬ ∃ r, createVideoTs freshBridge ⟨0, 0, 0, 0⟩ shortPes 14 true = some r ∧
      Packetised r.state.currSeg shortPes r.writes := by
  have hlen : (createVideoTs freshBridge ⟨0, 0, 0, 0⟩ shortPes 14 true).map
      (fun r ↦ r.writes.map fun w ↦ w.bytes.length) = some [358] := by decide +kernel
  refine ⟨hlen, ?_⟩
  rintro ⟨r, hr, hp⟩
  rw [hr, Option.map_some, Option.some_inj] at hlen
  cases hw : r.writes with
  | nil => rw [hw] at hlen; cases hlen
  | cons w ws =>
    rw [hw, List.map_cons, List.cons.injEq] at hlen
    have h188 := (hp.packets 0 w (by rw [hw]; rfl)).length
    omega

end MmsServer.Ts.Packetizer
