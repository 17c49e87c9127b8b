import MmsServer.Rtp.Format

namespace MmsServer.Rtp.Reassembly

open Lib.ByteReader Lib.Checked Packer Depacketizer Assembler Format

/-- The bytes in front of `buf`. -/
def frame (s : Assembly) : Bytes := s.cache.bytes.take s.buf

def stale (s : Assembly) : Bytes := s.cache.bytes.drop s.buf

structure Extends (s s' : Assembly) (bs : Bytes) : Prop where
  buf_eq : s'.buf = s.buf + bs.length
  frame_eq : frame s' = frame s ++ bs
  stale_eq : stale s' = (stale s).drop bs.length

variable {s s' s₁ s₂ : Assembly} {bs bs' : Bytes}

theorem Extends.trans (h : Extends s s₁ bs) (h' : Extends s₁ s₂ bs') :
    Extends s s₂ (bs ++ bs') where
  buf_eq := by rw [h'.buf_eq, h.buf_eq, List.length_append, Nat.add_assoc]
  frame_eq := by rw [h'.frame_eq, h.frame_eq, List.append_assoc]
  stale_eq := by rw [h'.stale_eq, h.stale_eq, List.drop_drop, List.length_append]

theorem Extends.nil (s : Assembly) : Extends s s [] where
  buf_eq := rfl
  frame_eq := (List.append_nil _).symm
  stale_eq := rfl

theorem frame_length (h : s.buf ≤ videoFrameCacheBytes) : (frame s).length = s.buf := by
  rw [frame, List.length_take, s.cache.size_eq]
  omega

theorem write_ok {c : FrameCache} {pos : ℕ} (h : pos + bs.length ≤ videoFrameCacheBytes) :
    ∃ c', c.write pos bs = .ok c' ∧
      c'.bytes = c.bytes.take pos ++ bs ++ c.bytes.drop (pos + bs.length) :=
  ⟨_, dif_pos h, rfl⟩

theorem write_eq_ok {c c' : FrameCache} {pos : ℕ} (h : c.write pos bs = .ok c') :
    pos + bs.length ≤ videoFrameCacheBytes := by
  unfold FrameCache.write at h
  split at h
  · assumption
  · cases h

theorem put_ok (h : s.buf + bs.length ≤ videoFrameCacheBytes) :
    ∃ s', s.put bs = .ok s' ∧ Extends s s' bs ∧ s'.isKey = s.isKey ∧ s'.loop = s.loop := by
  obtain ⟨c', hc, hb⟩ := write_ok (c := s.cache) h
  have hl : (s.cache.bytes.take s.buf ++ bs).length = s.buf + bs.length := by
    rw [List.length_append, ← frame, frame_length (by omega)]
  refine ⟨{ s with cache := c', buf := s.buf + bs.length }, ?_, ⟨rfl, ?_, ?_⟩, rfl, rfl⟩
  · rw [Assembly.put, hc]
    rfl
  · change c'.bytes.take (s.buf + bs.length) = _
    rw [hb, List.take_left' hl, frame]
  · change c'.bytes.drop (s.buf + bs.length) = _
    rw [hb, List.drop_left' hl, stale, List.drop_drop]

theorem put_eq_ok (h : s.put bs = .ok s') :
    s'.buf = s.buf + bs.length ∧ s'.loop = s.loop ∧ s'.buf ≤ videoFrameCacheBytes := by
  obtain ⟨c', hw, h⟩ := Outcome.bind_eq_ok.mp h
  cases h
  exact ⟨rfl, rfl, write_eq_ok hw⟩

section Assemble

variable {k : Codec} {uninit : RtpPacket → ℕ × ℕ} {p : RtpPacket} {ps qs : List RtpPacket}

theorem assemble_cons (h : step k uninit s p = .ok s') :
    assemble k uninit s (p :: ps) = assemble k uninit s' ps := by
  rw [assemble, h, Outcome.ok_bind]

theorem assemble_append (s : Assembly) (ps qs : List RtpPacket) :
    assemble k uninit s (ps ++ qs) = (assemble k uninit s ps >>= (assemble k uninit · qs)) := by
  induction ps generalizing s with
  | nil => rfl
  | cons p ps ih =>
    rw [List.cons_append, assemble, assemble]
    cases step k uninit s p with
    | ok s₁ => exact ih s₁
    | err code => rfl
    | fault f => rfl

end Assemble

/-- The frame after the length has been written in front of a NAL unit. -/
def patch (pos v : ℕ) (bs : Bytes) : Bytes := bs.take pos ++ putBE 4 v ++ bs.drop (pos + 4)

section Fragment

variable {k : Codec} {info : PktInfo} {pos size : ℕ} {p : RtpPacket} {bs : Bytes}

theorem fragment_ok (hp : k.fuHeader ≤ p.payload.length)
    (hs : piece k info.startBit p.payload = bs)
    (hb : s.buf + bs.length ≤ videoFrameCacheBytes) (he : info.endBit = false) :
    ∃ s', fragment k s info pos size p = .ok s' ∧ Extends s s' bs ∧
      s'.loop = .fragments info pos (size + bs.length) p.marker := by
  obtain ⟨s', hput, hext, -, -⟩ := put_ok
    (s := { s with isKey := s.isKey || (info.startBit && k.isKeyNalu info.naluType) }) hb
  refine ⟨{ s' with loop := .fragments info pos (size + bs.length) p.marker }, ?_,
    ⟨hext.buf_eq, hext.frame_eq, hext.stale_eq⟩, rfl⟩
  simp only [fragment, if_neg (Nat.not_lt.mpr hp), hs, hput, Outcome.ok_bind, he, Bool.false_eq_true,
    if_false, Outcome.pure_eq]

theorem fragment_end (hp : k.fuHeader ≤ p.payload.length)
    (hs : piece k info.startBit p.payload = bs)
    (hb : s.buf + bs.length ≤ videoFrameCacheBytes) (he : info.endBit = true)
    (hpos : pos + 4 ≤ s.buf) :
    ∃ s', fragment k s info pos size p = .ok s' ∧ s'.buf = s.buf + bs.length ∧
      frame s' = patch pos (size + bs.length) (frame s ++ bs) ∧
      stale s' = (stale s).drop bs.length ∧
      s'.loop = if p.marker then .returned else .packets := by
  obtain ⟨s', hput, hext, -, -⟩ := put_ok
    (s := { s with isKey := s.isKey || (info.startBit && k.isKeyNalu info.naluType) }) hb
  have hbuf : s'.buf = s.buf + bs.length := hext.buf_eq
  have hl : (putBE 4 (size + bs.length)).length = 4 := putBE_length _ _
  have hslot : pos + (putBE 4 (size + bs.length)).length ≤ videoFrameCacheBytes := by omega
  obtain ⟨c', hw, hc⟩ := write_ok (c := s'.cache) hslot
  have hcl := s'.cache.size_eq
  refine ⟨{ s' with cache := c' }.endPacket p, ?_, hbuf, ?_, ?_, rfl⟩
  · simp only [fragment, if_neg (Nat.not_lt.mpr hp), hs, hput, Outcome.ok_bind, he, if_true, hw,
      Outcome.pure_eq]
  · have hf : s'.cache.bytes.take s'.buf = frame s ++ bs := hext.frame_eq
    change c'.bytes.take s'.buf = _
    rw [hc, hl, patch, ← hf]
    simp only [List.take_append, List.take_take, List.length_append, List.length_take, hl, hcl,
      List.drop_take]
    rw [List.take_of_length_le (l := putBE 4 _) (by omega)]
    congr 2
    · congr 1
      omega
    · congr 1
      omega
  · rw [← show stale s' = (stale s).drop bs.length from hext.stale_eq]
    change c'.bytes.drop s'.buf = s'.cache.bytes.drop s'.buf
    have hlen : (s'.cache.bytes.take pos ++ putBE 4 (size + bs.length)).length = pos + 4 := by
      rw [List.length_append, List.length_take, hl]
      omega
    rw [hc, hl, show s'.buf = pos + 4 + (s'.buf - (pos + 4)) by omega, ← List.drop_drop,
      List.drop_left' hlen, List.drop_drop]

end Fragment

section Steps

variable {k : Codec} {uninit : RtpPacket → ℕ × ℕ} {p : RtpPacket} {info : PktInfo} {pos size : ℕ}
  {marker : Bool}

theorem step_returned (h : s.loop = .returned) : step k uninit s p = .ok s := by
  simp only [step, h, Outcome.pure_eq]

theorem step_fragments (h : s.loop = .fragments info pos size marker) :
    step k uninit s p =
      if (info.parse k p.payload).type = .fu then fragment k s (info.parse k p.payload) pos size p
      else .ok (s.endPacket p) := by
  simp only [step, h, Outcome.pure_eq]

theorem step_packets_fu (h : s.loop = .packets)
    (ht : ((PktInfo.fresh k (uninit p)).parse k p.payload).type = .fu) :
    step k uninit s p = fuPacket k s ((PktInfo.fresh k (uninit p)).parse k p.payload) p := by
  simp only [step, h, ht]

theorem step_packets_singleNalu (h : s.loop = .packets)
    (ht : ((PktInfo.fresh k (uninit p)).parse k p.payload).type = .singleNalu) :
    step k uninit s p = singleNalu k s ((PktInfo.fresh k (uninit p)).parse k p.payload) p := by
  simp only [step, h, ht]

theorem singleNalu_ok (hb : s.buf + (4 + p.payload.length) ≤ videoFrameCacheBytes) :
    ∃ s', singleNalu k s info p = .ok s' ∧
      Extends s s' (putBE 4 p.payload.length ++ p.payload) ∧
      s'.loop = if p.marker then .returned else .packets := by
  have hl := putBE_length 4 p.payload.length
  obtain ⟨s₁, hput, hext, -, -⟩ := put_ok (s := { s with isKey := s.isKey || k.isKeyNalu info.naluType })
    (show s.buf + (putBE 4 p.payload.length).length ≤ _ by omega)
  have hbuf : s₁.buf = s.buf + (putBE 4 p.payload.length).length := hext.buf_eq
  obtain ⟨s₂, hput', hext', -, -⟩ := put_ok (s := s₁)
    (show s₁.buf + p.payload.length ≤ _ by omega)
  have h := hext.trans hext'
  refine ⟨s₂.endPacket p, ?_, ⟨h.buf_eq, h.frame_eq, h.stale_eq⟩, rfl⟩
  simp only [singleNalu, hput, hput', Outcome.ok_bind, Outcome.pure_eq]

end Steps

section Nalu

variable (F : NaluFormat) {uninit : RtpPacket → ℕ × ℕ} (st : Stream) (c : BitVec 16)
  {p : RtpPacket} {nalu data chunk : Bytes} {start last marker isEnd : Bool} {pos size : ℕ}
  {info : PktInfo}

def rebuiltHeader (nalu : Bytes) : Bytes := F.codec.naluHeader (F.fu.fuPrefix nalu true false)

theorem piece_fragment (nalu chunk : Bytes) (isEnd : Bool) :
    piece F.codec false (F.fu.fuPrefix nalu false isEnd ++ chunk) = chunk := by
  rw [piece, List.drop_left' (F.prefix_length nalu false isEnd)]
  rfl

theorem piece_firstFragment (nalu chunk : Bytes) (isEnd : Bool) :
    piece F.codec true (F.fu.fuPrefix nalu true isEnd ++ chunk) = rebuiltHeader F nalu ++ chunk := by
  rw [piece, List.drop_left' (F.prefix_length nalu true isEnd), F.header_append]
  rfl

/-- A fragment behind the first one and before the last one. -/
theorem step_fragment (hloop : s.loop = .fragments info pos size marker)
    (hp : p.payload = F.fu.fuPrefix nalu false false ++ chunk)
    (hb : s.buf + chunk.length ≤ videoFrameCacheBytes) :
    ∃ s', step F.codec uninit s p = .ok s' ∧ Extends s s' chunk ∧
      ∃ info', s'.loop = .fragments info' pos (size + chunk.length) p.marker := by
  obtain ⟨ht, hst, he⟩ := parse_fragment F nalu false false chunk info
  have hd := piece_fragment F nalu chunk false
  have hle := fuHeader_le_fragment F nalu false false chunk
  rw [← hp] at ht hst he hd hle
  rw [← hst] at hd
  obtain ⟨s', hf, hext, hl⟩ := fragment_ok hle hd hb he
  refine ⟨s', ?_, hext, _, hl⟩
  rw [step_fragments hloop, if_pos ht, hf]

/-- The last fragment of several. -/
theorem step_lastFragment (hloop : s.loop = .fragments info pos size marker)
    (hp : p.payload = F.fu.fuPrefix nalu false true ++ chunk)
    (hb : s.buf + chunk.length ≤ videoFrameCacheBytes) (hpos : pos + 4 ≤ s.buf) :
    ∃ s', step F.codec uninit s p = .ok s' ∧ s'.buf = s.buf + chunk.length ∧
      frame s' = patch pos (size + chunk.length) (frame s ++ chunk) ∧
      stale s' = (stale s).drop chunk.length ∧
      s'.loop = if p.marker then .returned else .packets := by
  obtain ⟨ht, hst, he⟩ := parse_fragment F nalu false true chunk info
  have hd := piece_fragment F nalu chunk true
  have hle := fuHeader_le_fragment F nalu false true chunk
  rw [← hp] at ht hst he hd hle
  rw [← hst] at hd
  obtain ⟨s', hf, h⟩ := fragment_end hle hd hb he hpos
  exact ⟨s', by rw [step_fragments hloop, if_pos ht, hf], h⟩

/-- The fragments behind the first one complete the NAL unit. -/
theorem assemble_fragments {fuel : ℕ} (hloop : s.loop = .fragments info pos size marker)
    (hd : 0 < data.length) (hf : data.length ≤ fuel)
    (hb : s.buf + data.length ≤ videoFrameCacheBytes) (hpos : pos + 4 ≤ s.buf) :
    ∃ s', assemble F.codec uninit s (number st c (fragments F.fu nalu last fuel false data)) =
        .ok s' ∧
      s'.buf = s.buf + data.length ∧
      frame s' = patch pos (size + data.length) (frame s ++ data) ∧
      stale s' = (stale s).drop data.length ∧ s'.loop = if last then .returned else .packets := by
  induction fuel generalizing s c data info size marker with
  | zero => omega
  | succ fuel ih =>
    by_cases hle : data.length ≤ nalRtpPacketSize
    · rw [fragments_last last false fuel hd hle, number, number]
      obtain ⟨s', hs, h⟩ := step_lastFragment F hloop
        (show (packet st (getSequenceNum c) last (F.fu.fuPrefix nalu false true ++ data)).payload = _
          from rfl) hb hpos
      rw [assemble_cons hs]
      exact ⟨s', rfl, h⟩
    · have hsize : nalRtpPacketSize = 1400 := rfl
      have htake : (data.take nalRtpPacketSize).length = nalRtpPacketSize := by
        rw [List.length_take]
        omega
      have hdrop : (data.drop nalRtpPacketSize).length = data.length - nalRtpPacketSize :=
        List.length_drop
      have hrest : nalRtpPacketSize + (data.length - nalRtpPacketSize) = data.length := by omega
      rw [fragments_more last false fuel (by omega), number]
      obtain ⟨s₁, hs, hext, info', hl⟩ := step_fragment F hloop
        (show (packet st (getSequenceNum c) false (F.fu.fuPrefix nalu false false ++
          data.take nalRtpPacketSize)).payload = _ from rfl) (by omega)
      have hbuf := hext.buf_eq
      have hpos' : 0 < (data.drop nalRtpPacketSize).length := by omega
      obtain ⟨s', ha, hb', hfr, hst, hl'⟩ :=
        ih (getSequenceNum c) hl hpos' (by omega) (by omega) (by omega)
      rw [assemble_cons hs]
      refine ⟨s', ha, by omega, ?_, ?_, hl'⟩
      · rw [hfr, hext.frame_eq, List.append_assoc, List.take_append_drop, htake, hdrop,
          Nat.add_assoc, hrest]
      · rw [hst, hext.stale_eq, List.drop_drop, htake, hdrop, hrest]

theorem skip_length (h : s.buf + 4 ≤ videoFrameCacheBytes) :
    Extends s { s with buf := s.buf + 4 } ((stale s).take 4) := by
  have hl : ((stale s).take 4).length = 4 := by
    rw [List.length_take, stale, List.length_drop, s.cache.size_eq]
    omega
  refine ⟨by rw [hl], ?_, ?_⟩
  · change s.cache.bytes.take (s.buf + 4) = _
    rw [List.take_add]
    rfl
  · change s.cache.bytes.drop (s.buf + 4) = _
    rw [hl, stale, List.drop_drop]

theorem step_firstFragment (hloop : s.loop = .packets)
    (hp : p.payload = F.fu.fuPrefix nalu true isEnd ++ chunk)
    (hb : s.buf + (4 + (F.fu.naluHeader + chunk.length)) ≤ videoFrameCacheBytes) :
    ∃ s', step F.codec uninit s p = .ok s' ∧
      Extends s s' ((stale s).take 4 ++ (rebuiltHeader F nalu ++ chunk)) ∧
      ∃ info', s'.loop = .fragments info' s.buf (F.fu.naluHeader + chunk.length) p.marker := by
  obtain ⟨ht, hst, he⟩ := parse_fragment F nalu true isEnd chunk (.fresh F.codec (uninit p))
  have hd := piece_firstFragment F nalu chunk isEnd
  have hle := fuHeader_le_fragment F nalu true isEnd chunk
  have hhl : (rebuiltHeader F nalu ++ chunk).length = F.fu.naluHeader + chunk.length := by
    rw [List.length_append, rebuiltHeader, F.header_length]
  rw [← hp] at ht hst he hd hle
  rw [← hst] at hd
  have hskip := skip_length (s := s) (by omega)
  have hroom : s.buf + 4 + (rebuiltHeader F nalu ++ chunk).length ≤ videoFrameCacheBytes := by omega
  obtain ⟨s', hf, hext, hl⟩ := fragment_ok (s := { s with buf := s.buf + 4 }) hle hd hroom he
  rw [hhl, Nat.zero_add] at hl
  refine ⟨s', ?_, hskip.trans hext, _, hl⟩
  rw [step_packets_fu hloop ht, fuPacket, if_pos hst, hf]

theorem patch_append {pre junk rest : Bytes} (v : ℕ) (hp : pre.length = pos) (hj : junk.length = 4) :
    patch pos v (pre ++ (junk ++ rest)) = pre ++ (putBE 4 v ++ rest) := by
  have hpj : (pre ++ junk).length = pos + 4 := by rw [List.length_append, hp, hj]
  rw [patch, List.take_left' hp, ← List.append_assoc pre junk rest, List.drop_left' hpj,
    List.append_assoc]

/-- A NAL unit that reaches the receiver with its length: it is a packet of its own
that the receiver knows, or it takes at least two fragments. -/
def Carried (nalu : Bytes) : Prop :=
  if nalRtpPacketSize - 3 < nalu.length then nalRtpPacketSize + F.fu.naluHeader < nalu.length
  else F.codec.fuHeader ≤ nalu.length ∧ payloadTypeOf F.codec nalu = .singleNalu

instance : DecidablePred (Carried F) := fun nalu ↦ by unfold Carried; infer_instance

/-- The NAL unit as the receiver puts it together. -/
def rebuild (nalu : Bytes) : Bytes :=
  if nalRtpPacketSize - 3 < nalu.length then rebuiltHeader F nalu ++ nalu.drop F.fu.naluHeader
  else nalu

theorem rebuild_length (nalu : Bytes) : (rebuild F nalu).length = nalu.length := by
  have hle := F.naluHeader_le
  have hsize : nalRtpPacketSize = 1400 := rfl
  unfold rebuild
  split
  · rw [List.length_append, rebuiltHeader, F.header_length, List.length_drop]
    omega
  · rfl

theorem stale_take_length (h : s.buf + 4 ≤ videoFrameCacheBytes) :
    ((stale s).take 4).length = 4 := by
  rw [List.length_take, stale, List.length_drop, s.cache.size_eq]
  omega

theorem assemble_fragmented {fuel : ℕ} (hl : nalRtpPacketSize + F.fu.naluHeader < nalu.length)
    (hf : nalu.length ≤ fuel) (hloop : s.loop = .packets)
    (hb : s.buf + (4 + nalu.length) ≤ videoFrameCacheBytes) :
    ∃ s', assemble F.codec uninit s
        (number st c (fragments F.fu nalu last fuel true (nalu.drop F.fu.naluHeader))) = .ok s' ∧
      Extends s s' (putBE 4 nalu.length ++ (rebuiltHeader F nalu ++ nalu.drop F.fu.naluHeader)) ∧
      s'.loop = if last then .returned else .packets := by
  set data := nalu.drop F.fu.naluHeader with hdata
  have hsize : nalRtpPacketSize = 1400 := rfl
  have hlen : data.length = nalu.length - F.fu.naluHeader := List.length_drop
  have htake : (data.take nalRtpPacketSize).length = nalRtpPacketSize := by
    rw [List.length_take]
    omega
  have hdrop : (data.drop nalRtpPacketSize).length = data.length - nalRtpPacketSize :=
    List.length_drop
  have hhl : (rebuiltHeader F nalu).length = F.fu.naluHeader := F.header_length _
  have hjunk : ((stale s).take 4).length = 4 := stale_take_length (by omega)
  cases fuel with
  | zero => omega
  | succ fuel =>
    rw [fragments_more last true fuel (by omega), number]
    obtain ⟨s₁, hs, hext, info', hl'⟩ := step_firstFragment F hloop
      (show (packet st (getSequenceNum c) false (F.fu.fuPrefix nalu true false ++
        data.take nalRtpPacketSize)).payload = _ from rfl) (by omega)
    have hbuf := hext.buf_eq
    rw [List.length_append, List.length_append, hjunk, hhl, htake] at hbuf
    have hpos : 0 < (data.drop nalRtpPacketSize).length := by omega
    have hfuel : (data.drop nalRtpPacketSize).length ≤ fuel := by
      have := F.naluHeader_pos
      omega
    obtain ⟨s', ha, hb', hfr, hst, hl'⟩ := assemble_fragments F st (getSequenceNum c) hl' hpos hfuel
      (by omega) (by omega)
    rw [assemble_cons hs]
    refine ⟨s', ha, ⟨?_, ?_, ?_⟩, hl'⟩
    · rw [List.length_append, putBE_length, List.length_append, hhl]
      omega
    · rw [hfr, hext.frame_eq, List.append_assoc, List.append_assoc, List.append_assoc,
        List.take_append_drop, patch_append _ (frame_length (by omega)) hjunk,
        show F.fu.naluHeader + (data.take nalRtpPacketSize).length +
          (data.drop nalRtpPacketSize).length = nalu.length by omega]
    · rw [hst, hext.stale_eq, List.drop_drop]
      congr 1
      simp only [List.length_append, putBE_length, hhl, hjunk, htake, hdrop]
      omega

theorem assemble_nalu (last : Bool) (hc : Carried F nalu) (hloop : s.loop = .packets)
    (hb : s.buf + (4 + nalu.length) ≤ videoFrameCacheBytes) :
    ∃ s', assemble F.codec uninit s (number st c (naluPayloads F.fu last nalu)) = .ok s' ∧
      Extends s s' (putBE 4 nalu.length ++ rebuild F nalu) ∧
      s'.loop = if last then .returned else .packets := by
  unfold naluPayloads rebuild
  unfold Carried at hc
  split at hc
  · rename_i hfu
    rw [if_pos hfu, if_pos hfu]
    exact assemble_fragmented F st c hc le_rfl hloop hb
  · rename_i hsmall
    obtain ⟨hlen, htype⟩ := hc
    rw [if_neg hsmall, if_neg hsmall, number, number]
    have hsingle : ∀ info : PktInfo, (info.parse F.codec nalu).type = .singleNalu :=
      fun info ↦ (parse_type info hlen).trans htype
    obtain ⟨s', hs, hext, hl⟩ := singleNalu_ok (p := packet st (getSequenceNum c) last nalu) hb
    refine ⟨s', ?_, hext, hl⟩
    rw [assemble_cons ((step_packets_singleNalu hloop (hsingle _)).trans hs)]
    rfl

def avcc (nalus : List Bytes) : Bytes :=
  nalus.flatMap fun nalu ↦ putBE 4 nalu.length ++ nalu

@[simp] theorem avcc_nil : avcc [] = [] := rfl

@[simp] theorem avcc_cons (nalu : Bytes) (nalus : List Bytes) :
    avcc (nalu :: nalus) = putBE 4 nalu.length ++ nalu ++ avcc nalus := rfl

theorem avcc_append (as bs : List Bytes) : avcc (as ++ bs) = avcc as ++ avcc bs :=
  List.flatMap_append

theorem avcc_length_cons (nalu : Bytes) (nalus : List Bytes) :
    (avcc (nalu :: nalus)).length = 4 + nalu.length + (avcc nalus).length := by
  rw [avcc_cons, List.length_append, List.length_append, putBE_length]

theorem avcc_map_rebuild_length (nalus : List Bytes) :
    (avcc (nalus.map (rebuild F))).length = (avcc nalus).length := by
  induction nalus with
  | nil => rfl
  | cons nalu nalus ih => rw [List.map_cons, avcc_length_cons, avcc_length_cons, ih, rebuild_length]

/-- The NAL units before the last one. -/
theorem assemble_nalus {nalus : List Bytes} (hc : ∀ nalu ∈ nalus, Carried F nalu)
    (hloop : s.loop = .packets) (hb : s.buf + (avcc nalus).length ≤ videoFrameCacheBytes) :
    ∃ s', assemble F.codec uninit s
        (number st c (nalus.flatMap (naluPayloads F.fu false))) = .ok s' ∧
      Extends s s' (avcc (nalus.map (rebuild F))) ∧ s'.loop = .packets := by
  induction nalus generalizing s c with
  | nil => exact ⟨s, rfl, .nil s, hloop⟩
  | cons nalu nalus ih =>
    rw [avcc_length_cons] at hb
    obtain ⟨c', hn⟩ := number_append st c (naluPayloads F.fu false nalu)
      (nalus.flatMap (naluPayloads F.fu false))
    obtain ⟨s₁, ha, hext, hl⟩ := assemble_nalu F st c false
      (hc nalu List.mem_cons_self) hloop (by omega)
    have hbuf := hext.buf_eq
    rw [List.length_append, putBE_length, rebuild_length] at hbuf
    obtain ⟨s', ha', hext', hl'⟩ := ih c' (fun n hn ↦ hc n (List.mem_cons_of_mem nalu hn))
      (show s₁.loop = .packets from hl) (by omega)
    refine ⟨s', ?_, ?_, hl'⟩
    · rw [List.flatMap_cons, hn, assemble_append, ha, Outcome.ok_bind, ha']
    · rw [List.map_cons, avcc_cons, rebuild_length]
      exact hext.trans hext'

theorem payloads_append (f : FuFormat) (as : List Bytes) {bs : List Bytes} (hbs : bs ≠ []) :
    payloads f (as ++ bs) = as.flatMap (naluPayloads f false) ++ payloads f bs := by
  induction as with
  | nil => rfl
  | cons n as ih =>
    have he : (as ++ bs).isEmpty = false := by
      rw [List.isEmpty_eq_false_iff]
      exact List.append_ne_nil_of_right_ne_nil as hbs
    rw [List.cons_append, payloads, he, ih, List.flatMap_cons, List.append_assoc]

theorem payloads_concat (f : FuFormat) (nalus : List Bytes) (nalu : Bytes) :
    payloads f (nalus ++ [nalu]) =
      nalus.flatMap (naluPayloads f false) ++ naluPayloads f true nalu := by
  rw [payloads_append f nalus (List.cons_ne_nil nalu []), payloads, payloads, List.append_nil]
  rfl

/-- The packets of a whole frame. -/
theorem assemble_frame (uninit : RtpPacket → ℕ × ℕ) (st : Stream) (c : BitVec 16)
    (cache : FrameCache) {nalus : List Bytes} (hne : nalus ≠ [])
    (hc : ∀ nalu ∈ nalus, Carried F nalu) (hb : (avcc nalus).length ≤ videoFrameCacheBytes) :
    ∃ s', assemble F.codec uninit (.init cache) (packNalus F.fu st c nalus) = .ok s' ∧
      Extends (.init cache) s' (avcc (nalus.map (rebuild F))) ∧ s'.loop = .returned := by
  obtain ⟨init, nalu, rfl⟩ : ∃ init nalu, nalus = init ++ [nalu] :=
    ⟨nalus.dropLast, nalus.getLast hne, (List.dropLast_append_getLast hne).symm⟩
  have hlen : (avcc (init ++ [nalu])).length = (avcc init).length + (4 + nalu.length) := by
    rw [avcc_append, List.length_append, avcc_length_cons]
    rfl
  obtain ⟨c', hn⟩ := number_append st c (init.flatMap (naluPayloads F.fu false))
    (naluPayloads F.fu true nalu)
  obtain ⟨s₁, ha, hext, hl⟩ := assemble_nalus F st c (s := .init cache)
    (fun n hn ↦ hc n (List.mem_append_left _ hn)) rfl
    (by change 0 + _ ≤ _; omega)
  have hbuf := hext.buf_eq
  rw [avcc_map_rebuild_length] at hbuf
  change _ = 0 + _ at hbuf
  obtain ⟨s', ha', hext', hl'⟩ := assemble_nalu F st c' true
    (hc nalu (List.mem_append_right _ (List.mem_singleton_self nalu))) hl (by omega)
  refine ⟨s', ?_, ?_, hl'⟩
  · rw [packNalus, payloads_concat, hn, assemble_append, ha, Outcome.ok_bind, ha']
  · rw [List.map_append, avcc_append, List.map_singleton, avcc_cons, avcc_nil, List.append_nil,
      rebuild_length]
    exact hext.trans hext'

/-- NAL units of the same lengths are read back from their frame. -/
theorem eq_of_avcc_map {g : Bytes → Bytes} (hg : ∀ nalu, (g nalu).length = nalu.length)
    {nalus : List Bytes} (h : avcc (nalus.map g) = avcc nalus) : ∀ nalu ∈ nalus, g nalu = nalu := by
  induction nalus with
  | nil => intro nalu hn; cases hn
  | cons n nalus ih =>
    rw [List.map_cons, avcc_cons, avcc_cons, hg, List.append_assoc, List.append_assoc,
      List.append_cancel_left_eq] at h
    obtain ⟨hn, hrest⟩ := List.append_inj h (hg n)
    intro nalu hm
    obtain rfl | hm := List.mem_cons.mp hm
    · exact hn
    · exact ih hrest nalu hm

end Nalu

end MmsServer.Rtp.Reassembly
