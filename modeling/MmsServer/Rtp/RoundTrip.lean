import MmsServer.Rtp.PackedFrame
import Mathlib.Algebra.Order.BigOperators.Group.List

namespace MmsServer.Rtp.RoundTrip

open Lib.ByteReader Lib.Checked Lib.SortedMap Rtmp.Define Rtmp.FlvTag Packer Depacketizer Assembler
  Format Reassembly Charge PackedFrame

section Feed

variable {k : Codec} {e : Env} {r r₁ r₂ : Receiver} {ps : List RtpPacket} {p : RtpPacket}
  {ts : BitVec 32} {msgs : List (Option RtmpMessage)} {msg : Option RtmpMessage}

def holding (r : Receiver) (ts : BitVec 32) (pkts : List RtpPacket) : Receiver :=
  { r with pktsBuf := Function.update r.pktsBuf ts pkts }

def collect (k : Codec) (pkts ps : List RtpPacket) : List RtpPacket :=
  insertAll (·.seqnum.toNat) pkts (ps.filter (accepts k ·))

theorem holding_holding (r : Receiver) (ts : BitVec 32) (pkts pkts' : List RtpPacket) :
    holding (holding r ts pkts) ts pkts' = holding r ts pkts' := by
  simp only [holding, Function.update_idem]

theorem processPacket_noMarker (hm : p.marker = false) :
    processPacket k e r p =
      .ok (holding r p.timestamp (collect k (r.pktsBuf p.timestamp) [p]), none) := by
  unfold processPacket onPacket
  by_cases ha : accepts k p = true
  · rw [if_pos ha, takePacket_noMarker hm, collect, List.filter_cons_of_pos (by exact ha)]
    rfl
  · rw [if_neg ha, collect, List.filter_cons_of_neg (by exact ha), List.filter_nil, insertAll_nil,
      holding, Function.update_eq_self]
    rfl

theorem feed_cons {process : Receiver → RtpPacket → Outcome (Receiver × Option RtmpMessage)}
    (h : process r p = .ok (r₁, msg)) (h' : feed process r₁ ps = .ok (r₂, msgs)) :
    feed process r (p :: ps) = .ok (r₂, msg :: msgs) := by
  rw [feed, h, Outcome.ok_bind]
  simp only [h', Outcome.ok_bind, Outcome.pure_eq]

/-- Packets without the marker are only collected. -/
theorem feed_noMarker (hm : ∀ p ∈ ps, p.marker = false) (ht : ∀ p ∈ ps, p.timestamp = ts) :
    feed (processPacket k e) r ps =
      .ok (holding r ts (collect k (r.pktsBuf ts) ps), List.replicate ps.length none) := by
  induction ps generalizing r with
  | nil =>
    rw [collect, List.filter_nil, insertAll_nil, holding, Function.update_eq_self]
    rfl
  | cons p ps ih =>
    have hp := ht p List.mem_cons_self
    have hcol : collect k (collect k (r.pktsBuf ts) [p]) ps = collect k (r.pktsBuf ts) (p :: ps) := by
      rw [collect, collect, collect, ← insertAll_append, ← List.filter_append,
        List.singleton_append]
    have hpr := processPacket_noMarker (k := k) (e := e) (r := r) (hm p List.mem_cons_self)
    have hps := ih (r := holding r ts (collect k (r.pktsBuf ts) [p]))
      (fun q hq ↦ hm q (List.mem_cons_of_mem p hq)) (fun q hq ↦ ht q (List.mem_cons_of_mem p hq))
    rw [holding_holding, show (holding r ts (collect k (r.pktsBuf ts) [p])).pktsBuf ts =
      collect k (r.pktsBuf ts) [p] from Function.update_self .., hcol] at hps
    rw [hp] at hpr
    exact feed_cons hpr hps

theorem feed_concat {process : Receiver → RtpPacket → Outcome (Receiver × Option RtmpMessage)}
    (h : feed process r ps = .ok (r₁, msgs)) (p : RtpPacket) :
    feed process r (ps ++ [p]) = do
      let (r₂, msg) ← process r₁ p
      return (r₂, msgs ++ [msg]) := by
  induction ps generalizing r msgs with
  | nil =>
    cases h
    rw [List.nil_append, feed]
    rfl
  | cons q ps ih =>
    obtain ⟨⟨r', m⟩, hq, h⟩ := Outcome.bind_eq_ok.mp h
    obtain ⟨⟨r'', ms⟩, hps, h⟩ := Outcome.bind_eq_ok.mp h
    cases h
    rw [List.cons_append, feed, hq, Outcome.ok_bind]
    simp only [ih hps]
    cases process r₁ p with
    | ok x => rfl
    | err code => rfl
    | fault f => rfl

/-- The packet with the marker hands out what has been collected. -/
theorem processPacket_marker (hm : p.marker = true) (ha : accepts k p = true) :
    processPacket k e r p =
      generateRtmpMessage k e (holding r p.timestamp [])
        ((getTimestamp (collect k (r.pktsBuf p.timestamp) [p]) - r.firstRtpVideoTs) / 90)
        (collect k (r.pktsBuf p.timestamp) [p]) := by
  unfold processPacket onPacket
  rw [if_pos ha, takePacket_marker hm, collect, List.filter_cons_of_pos (by exact ha)]
  rfl

/-- The packets of one timestamp, where only the last one has the marker. -/
theorem feed_frame (hbuf : r.pktsBuf ts = []) (hm : ∀ p ∈ ps, p.marker = false)
    (hp : p.marker = true) (ht : ∀ q ∈ ps ++ [p], q.timestamp = ts) :
    feed (processPacket k e) r (ps ++ [p]) =
      if accepts k p then do
        let (r, msg) ← generateRtmpMessage k e (holding r ts [])
          ((getTimestamp (collect k [] (ps ++ [p])) - r.firstRtpVideoTs) / 90)
          (collect k [] (ps ++ [p]))
        return (r, List.replicate ps.length none ++ [msg])
      else .ok (holding r ts (collect k [] ps), List.replicate ps.length none ++ [none]) := by
  have htp : p.timestamp = ts := ht p (List.mem_append_right ps (List.mem_singleton_self p))
  have htps : ∀ q ∈ ps, q.timestamp = ts := fun q hq ↦ ht q (List.mem_append_left [p] hq)
  have hfeed := feed_noMarker (k := k) (r := r) (e := e) hm htps
  rw [hbuf] at hfeed
  have hheld : (holding r ts (collect k [] ps)).pktsBuf ts = collect k [] ps :=
    Function.update_self ..
  have hcol : collect k (collect k [] ps) [p] = collect k [] (ps ++ [p]) := by
    rw [collect, collect, collect, ← insertAll_append, ← List.filter_append]
  rw [feed_concat hfeed]
  by_cases ha : accepts k p = true
  · rw [if_pos ha, processPacket_marker hp ha, htp, hheld, hcol, holding_holding]
    rfl
  · rw [if_neg ha, processPacket, onPacket, if_neg ha]
    rfl

end Feed

section Generate

variable {F : NaluFormat} {e : Env} {r r' : Receiver} {t : BitVec 32} {pkts : List RtpPacket}
  {msg : RtmpMessage} {s : Assembly}

/-- A message carries the frame behind its tag header. -/
theorem generate_eq_some (h : generateRtmpMessage F.codec e r t pkts = .ok (r', some msg)) :
    ∃ s, assemble F.codec e.uninit (.init r.videoFrameCache) pkts = .ok s ∧
      s.finish = .ok true ∧ s.buf ≤ videoFrameCacheBytes ∧
      msg.usingData.drop F.tagSize = frame s := by
  obtain ⟨s, ha, h⟩ := Outcome.bind_eq_ok.mp h
  obtain ⟨b, hf, h⟩ := Outcome.bind_eq_ok.mp h
  cases b with
  | false => cases h
  | true =>
    obtain ⟨bytes, hs, h⟩ := Outcome.bind_eq_ok.mp h
    have hle : s.buf ≤ videoFrameCacheBytes := by
      by_contra hgt
      rw [slice_overread (by rw [s.cache.size_eq]; omega)] at hs
      cases hs
    rw [slice_ok (by rw [s.cache.size_eq]; omega)] at hs
    cases hs
    cases h
    refine ⟨s, ha, hf, hle, ?_⟩
    rw [List.drop_zero]
    exact List.drop_left' (F.tagHeader_length _ _)

theorem generate_of_returned (ha : assemble F.codec e.uninit (.init r.videoFrameCache) pkts = .ok s)
    (hl : s.loop = .returned) (hb : s.buf ≤ videoFrameCacheBytes) :
    ∃ r' msg header, generateRtmpMessage F.codec e r t pkts = .ok (r', some msg) ∧
      msg.messageTypeId = flvVideoTag ∧
      VideoTagHeader.decode msg.usingData = .ok (header, F.tagSize) ∧
      msg.usingData.drop F.tagSize = frame s := by
  have hfin : s.finish = .ok true := by simp only [Assembly.finish, hl, Outcome.pure_eq]
  have hsl : slice 0 s.buf s.cache.bytes = .ok (frame s) := by
    rw [slice_ok (by rw [s.cache.size_eq]; omega), List.drop_zero]
    rfl
  set r' : Receiver :=
    { r with
      videoFrameCache := s.cache
      videoDts := if s.isKey then t else e.nextDts r.videoDts }
  obtain ⟨header, hh⟩ := F.decode_tagHeader s.isKey (if s.isKey then 0 else t - r'.videoDts) (frame s)
  refine ⟨r', r'.videoMessage F.codec t s.isKey (frame s), header, ?_, rfl, hh, ?_⟩
  · simp only [generateRtmpMessage, ha, hfin, hsl, Outcome.ok_bind, if_true, Outcome.pure_eq]
    rfl
  · exact List.drop_left' (F.tagHeader_length _ _)

end Generate

section Main

variable (F : NaluFormat) (st : Stream) (c : BitVec 16) (nalus : List Bytes)

/-- The packets of a frame, in order, give one message at the last packet, and the
message carries the NAL units behind their lengths. -/
def RoundTrips : Prop :=
  ∀ (e : Env) (r : Receiver), r.pktsBuf st.pts = [] → ∃ r' msg header,
    feed (processPacket F.codec e) r (packNalus F.fu st c nalus) =
        .ok (r', List.replicate ((packNalus F.fu st c nalus).length - 1) none ++ [some msg]) ∧
      msg.messageTypeId = flvVideoTag ∧
      VideoTagHeader.decode msg.usingData = .ok (header, F.tagSize) ∧
      msg.usingData.drop F.tagSize = avcc nalus

def zeroCache : FrameCache where
  bytes := List.replicate videoFrameCacheBytes 0
  size_eq := List.length_replicate

def freshReceiver : Receiver := ⟨fun _ ↦ [], zeroCache, 0, 0⟩

variable {F st c nalus}

/-- The last packet of a frame and those before it. -/
theorem packNalus_eq (F : NaluFormat) (st : Stream) (c : BitVec 16) (hne : nalus ≠ []) :
    ∃ ps p, packNalus F.fu st c nalus = ps ++ [p] ∧ (∀ q ∈ ps, q.marker = false) ∧
      p.marker = true ∧ ∀ q ∈ ps ++ [p], q.timestamp = st.pts := by
  obtain ⟨qs, payload, h, hm⟩ := payloads_marker (F := F) hne
  obtain ⟨c', hn⟩ := number_append st c qs [(true, payload)]
  have hp : packNalus F.fu st c nalus =
      number st c qs ++ [packet st (getSequenceNum c') true payload] := by rw [packNalus, h, hn]; rfl
  refine ⟨_, _, hp, fun q hq ↦ hm _ (mem_number st c qs hq).2, rfl, fun q hq ↦ ?_⟩
  rw [← hp] at hq
  exact (mem_number st c _ hq).1

theorem roundTrips_assemble (hne : nalus ≠ []) (h : RoundTrips F st c nalus) :
    ∃ s, assemble F.codec unknown (.init zeroCache)
        (collect F.codec [] (packNalus F.fu st c nalus)) = .ok s ∧
      s.finish = .ok true ∧ s.buf = (avcc nalus).length ∧ frame s = avcc nalus := by
  obtain ⟨ps, p, hpack, hm, hp, ht⟩ := packNalus_eq F st c hne
  obtain ⟨r', msg, header, hfeed, -, -, hmsg⟩ := h ⟨id, unknown⟩ freshReceiver rfl
  rw [hpack, feed_frame rfl hm hp ht] at hfeed
  split at hfeed
  · obtain ⟨⟨r₁, m⟩, hg, hfeed⟩ := Outcome.bind_eq_ok.mp hfeed
    obtain ⟨-, hmsgs⟩ := Prod.mk.inj (Outcome.ok.inj hfeed)
    obtain ⟨-, hmsgs⟩ := List.append_inj' hmsgs rfl
    cases hmsgs
    obtain ⟨s, ha, hf, hle, hfr⟩ := generate_eq_some hg
    rw [hmsg] at hfr
    rw [← hpack] at ha
    refine ⟨s, ha, hf, ?_, hfr.symm⟩
    rw [hfr, frame_length hle]
  · obtain ⟨-, hmsgs⟩ := Prod.mk.inj (Outcome.ok.inj hfeed)
    obtain ⟨-, hmsgs⟩ := List.append_inj' hmsgs rfl
    cases hmsgs

theorem mem_collect {ps : List RtpPacket} {q : RtpPacket} (h : q ∈ collect F.codec [] ps) :
    q ∈ ps := by
  obtain h | h := mem_insertAll h
  · cases h
  · exact (List.mem_filter.mp h).1

theorem charges_collect_le (ps : List RtpPacket) :
    charges F.codec (collect F.codec [] ps) ≤ charges F.codec ps := by
  have h : charges F.codec (collect F.codec [] ps) ≤
      0 + charges F.codec (ps.filter (accepts F.codec ·)) := sum_insertAll_le _ _ _
  have hf : charges F.codec (ps.filter (accepts F.codec ·)) ≤ charges F.codec ps :=
    (List.filter_sublist.map _).sum_le_sum fun _ _ ↦ Nat.zero_le _
  omega

section Fails

variable {s : Assembly} (hp : ∀ nalu ∈ nalus, Proper F nalu)
include hp

theorem collect_not_stapA {p : RtpPacket}
    (h : p ∈ collect F.codec [] (packNalus F.fu st c nalus)) :
    payloadTypeOf F.codec p.payload ≠ .stapA :=
  payload_not_stapA F hp (mem_number st c _ (mem_collect h)).2

theorem buf_le (ha : assemble F.codec unknown (.init zeroCache)
      (collect F.codec [] (packNalus F.fu st c nalus)) = .ok s) :
    s.buf ≤ payloadCharges F.codec (payloads F.fu nalus) + 3 := by
  obtain ⟨-, hle⟩ := assemble_charge F (fun p ↦ collect_not_stapA hp)
    (show InFu (Assembly.init zeroCache).loop from trivial) ha
  have hcol := charges_collect_le (F := F) (packNalus F.fu st c nalus)
  have hnum : charges F.codec (packNalus F.fu st c nalus) = _ := charges_number _ _ _ _
  have hcredit := credit_le s.loop
  change s.buf + 0 ≤ 0 + credit s.loop + _ at hle
  omega

/-- Every NAL unit is in a packet of its own or in fragments. -/
theorem carried_or_startOnly (ha : assemble F.codec unknown (.init zeroCache)
      (collect F.codec [] (packNalus F.fu st c nalus)) = .ok s)
    (hbuf : s.buf = (avcc nalus).length) : ∀ nalu ∈ nalus, Carried F nalu ∨ StartOnly F nalu := by
  intro nalu hn
  by_contra hc
  obtain ⟨hc, hs⟩ := not_or.mp hc
  have hlost := charges_payloads F hp hn (d := 4) fun last ↦ by
    have h := charges_lost F last (hp nalu hn) hc hs
    omega
  have hle := buf_le hp ha
  omega

end Fails

section Order

variable {s : Assembly}

theorem collect_packNalus (hc : ∀ nalu ∈ nalus, Carried F nalu ∨ StartOnly F nalu) :
    collect F.codec [] (packNalus F.fu st c nalus) =
      insertAll (·.seqnum.toNat) [] (packNalus F.fu st c nalus) := by
  rw [collect, List.filter_eq_self.mpr]
  intro p hp
  have h := payload_accepted F hc (mem_number st c _ hp).2
  rw [accepts, decide_eq_false (Int.not_lt.mpr h), Bool.and_false]
  rfl

/-- The first packet of a frame pays for more than the credit. -/
theorem packNalus_first (st : Stream) (c : BitVec 16) (hne : nalus ≠ [])
    (hc : ∀ nalu ∈ nalus, Carried F nalu ∨ StartOnly F nalu) :
    ∃ p ps, packNalus F.fu st c nalus = p :: ps ∧ 4 ≤ charge F.codec p.payload := by
  cases nalus with
  | nil => exact absurd rfl hne
  | cons nalu nalus =>
    obtain ⟨q, qs, hq, -, hle, -⟩ := naluPayloads_first F nalus.isEmpty (hc nalu List.mem_cons_self)
    rw [packNalus, payloads, hq]
    exact ⟨_, _, rfl, hle⟩

/-- With more than 65535 packets the last one has the number of an earlier one, which
the receiver keeps. -/
theorem last_not_collected {qs : List (Bool × Bytes)} {ps : List RtpPacket} {p : RtpPacket}
    (hn : number st c qs = ps ++ [p]) (hbig : 65535 ≤ ps.length) (hm : ∀ q ∈ ps, q.marker = false)
    (hpm : p.marker = true) : p ∉ insertAll (·.seqnum.toNat) [] (ps ++ [p]) := by
  intro hp
  obtain ⟨g, hg⟩ : ∃ g, ps[ps.length - 65535]? = some g :=
    ⟨_, List.getElem?_eq_getElem (by omega)⟩
  have hkp : p.seqnum.toNat = ((getSequenceNum c).toNat + ps.length) % 65535 :=
    number_seqnum st c qs (by rw [hn, List.getElem?_concat_length])
  have hkg : g.seqnum.toNat = ((getSequenceNum c).toNat + (ps.length - 65535)) % 65535 :=
    number_seqnum st c qs (by rw [hn, List.getElem?_append_left (by omega), hg])
  have hsame : g.seqnum.toNat = p.seqnum.toNat := by rw [hkg, hkp]; omega
  have hnil : Ascending (fun q : RtpPacket ↦ q.seqnum.toNat) [] := .nil
  rw [hnil.insertAll_concat (List.mem_of_getElem? hg) hsame] at hp
  obtain h | h := mem_insertAll hp
  · cases h
  · cases hpm.symm.trans (hm p h)

/-- With at most 65535 packets a last one behind the reset comes before the first one. -/
theorem last_lt_first {qs : List (Bool × Bytes)} {ps rest : List RtpPacket} {p f : RtpPacket}
    (hn : number st c qs = ps ++ [p]) (hn' : number st c qs = f :: rest) (hle : ps.length < 65535)
    (hreset : 65535 ≤ (getSequenceNum c).toNat + ps.length) :
    p.seqnum.toNat < f.seqnum.toNat := by
  have hs := toNat_getSequenceNum_lt c
  have hkp : p.seqnum.toNat = ((getSequenceNum c).toNat + ps.length) % 65535 :=
    number_seqnum st c qs (by rw [hn, List.getElem?_concat_length])
  have hkf : f.seqnum.toNat = ((getSequenceNum c).toNat + 0) % 65535 :=
    number_seqnum st c qs (by rw [hn']; rfl)
  rw [hkp, hkf]
  omega

/-- A message returned at a packet with the marker that comes before the first packet
of the frame has not paid for that one. -/
theorem buf_lt_of_reordered {pkts : List RtpPacket} {p f : RtpPacket}
    (hasc : Ascending (·.seqnum.toNat) pkts)
    (hnot : ∀ q ∈ pkts, payloadTypeOf F.codec q.payload ≠ .stapA)
    (hmem : ∀ q ∈ pkts, q ≠ p → q.marker = false) (hp : p ∈ pkts) (hf : f ∈ pkts)
    (hcharge : 4 ≤ charge F.codec f.payload) (hlt : p.seqnum.toNat < f.seqnum.toNat)
    (ha : assemble F.codec unknown (.init zeroCache) pkts = .ok s) (hfin : s.finish = .ok true) :
    s.buf < charges F.codec pkts := by
  obtain ⟨as, bs, rfl, hfbs, has, hbs⟩ := hasc.split hp hf hlt
  have hle := buf_le_of_marker hnot
    (fun q hq ↦ hmem q (List.mem_append_left _ hq) (by rintro rfl; exact has hq))
    (fun q hq ↦ hmem q (List.mem_append_right _ (List.mem_cons_of_mem _ hq))
      (by rintro rfl; exact hbs hq))
    (List.ne_nil_of_mem hfbs) ha hfin
  have hfle := charge_le_charges (k := F.codec) hfbs
  rw [charges_append, charges_cons]
  omega

/-- The numbers of the packets of a frame start again only behind the frame. -/
theorem noReset (hne : nalus ≠ []) (hp : ∀ nalu ∈ nalus, Proper F nalu)
    (hc : ∀ nalu ∈ nalus, Carried F nalu ∨ StartOnly F nalu)
    (ha : assemble F.codec unknown (.init zeroCache)
      (collect F.codec [] (packNalus F.fu st c nalus)) = .ok s) (hfin : s.finish = .ok true)
    (hbuf : s.buf = (avcc nalus).length) :
    (getSequenceNum c).toNat + (payloads F.fu nalus).length ≤ 65535 := by
  by_contra hreset
  obtain ⟨ps, p, hpack, hm, hpm, -⟩ := packNalus_eq F st c hne
  obtain ⟨f, rest, hpack', hf⟩ := packNalus_first st c hne hc
  have hlen : ps.length + 1 = (payloads F.fu nalus).length := by
    rw [← number_length st c, ← packNalus, hpack, List.length_append, List.length_singleton]
  have hnot : ∀ q ∈ collect F.codec [] (packNalus F.fu st c nalus),
      payloadTypeOf F.codec q.payload ≠ .stapA := fun q ↦ collect_not_stapA hp
  have hmem : ∀ q ∈ collect F.codec [] (packNalus F.fu st c nalus), q ≠ p → q.marker = false := by
    intro q hq hne
    have hq' := mem_collect hq
    rw [hpack] at hq'
    obtain hq' | hq' := List.mem_append.mp hq'
    · exact hm q hq'
    · exact absurd (List.mem_singleton.mp hq') hne
  have hcol := charges_collect_le (F := F) (packNalus F.fu st c nalus)
  rw [collect_packNalus hc] at ha hnot hmem hcol
  have hfmem : f ∈ insertAll (·.seqnum.toNat) [] (packNalus F.fu st c nalus) := by
    rw [hpack', insertAll_cons]
    exact mem_insertAll_of_mem (List.mem_singleton_self f) rest
  by_cases hpmem : p ∈ insertAll (·.seqnum.toNat) [] (packNalus F.fu st c nalus)
  · have hbig : ps.length < 65535 := by
      by_contra hbig
      rw [hpack] at hpmem
      exact last_not_collected hpack (Nat.not_lt.mp hbig) hm hpm hpmem
    have hlt := buf_lt_of_reordered (.insertAll .nil _) hnot hmem hpmem hfmem hf
      (last_lt_first hpack hpack' hbig (by omega)) ha hfin
    have hnum : charges F.codec (packNalus F.fu st c nalus) = _ := charges_number _ _ _ _
    have hpay := charges_payloads_le F hp
    omega
  · refine (assemble_noMarker (fun q hq ↦ hmem q hq ?_) (by intro h; cases h) ha).2
      (List.ne_nil_of_mem hfmem) hfin
    rintro rfl
    exact hpmem hq

end Order

section StartOnly

variable {s : Assembly} {nalu : Bytes}

theorem naluPayloads_startOnly (last : Bool) (hs : StartOnly F nalu) :
    naluPayloads F.fu last nalu =
      [(last, F.fu.fuPrefix nalu true true ++ nalu.drop F.fu.naluHeader)] := by
  have hsize : nalRtpPacketSize = 1400 := rfl
  have hle := F.naluHeader_le
  obtain ⟨hlo, hhi⟩ := hs
  have hlen : (nalu.drop F.fu.naluHeader).length = nalu.length - F.fu.naluHeader := List.length_drop
  obtain ⟨fuel, hfuel⟩ : ∃ fuel, nalu.length = fuel + 1 := ⟨nalu.length - 1, by omega⟩
  rw [naluPayloads, if_pos hlo, hfuel, fragments_last last true fuel (by omega) (by omega)]

/-- Behind a NAL unit without an end bit the next one loses a byte. -/
theorem not_startOnly_before {as bs : List Bytes} {next : Bytes}
    (heq : nalus = as ++ nalu :: next :: bs) (hp : ∀ nalu ∈ nalus, Proper F nalu)
    (hc : ∀ nalu ∈ nalus, Carried F nalu ∨ StartOnly F nalu)
    (ha : assemble F.codec unknown (.init zeroCache) (packNalus F.fu st c nalus) = .ok s)
    (hbuf : s.buf = (avcc nalus).length) : ¬ StartOnly F nalu := by
  intro hs
  have hmem : nalu ∈ nalus := by rw [heq]; exact List.mem_append_right as List.mem_cons_self
  have hnext : next ∈ nalus := by
    rw [heq]
    exact List.mem_append_right as (List.mem_cons_of_mem _ List.mem_cons_self)
  have hpay := charges_payloads F hp hmem (d := 3) fun last ↦ by
    rw [charges_startOnly F hs]
    omega
  have hnot : ∀ p ∈ packNalus F.fu st c nalus, payloadTypeOf F.codec p.payload ≠ .stapA :=
    fun p h ↦ payload_not_stapA F hp (mem_number st c _ h).2
  have hnum : charges F.codec (packNalus F.fu st c nalus) = _ := charges_number _ _ _ _
  obtain ⟨q, qs, hq, hqlen, -, hqt⟩ := naluPayloads_first F bs.isEmpty (hc next hnext)
  set sp : Bytes := F.fu.fuPrefix nalu true true ++ nalu.drop F.fu.naluHeader with hsp
  have hsplit : payloads F.fu nalus = as.flatMap (naluPayloads F.fu false) ++
      ((false, sp) :: q :: (qs ++ payloads F.fu bs)) := by
    rw [heq, payloads_append F.fu as (List.cons_ne_nil _ _), payloads, payloads, List.isEmpty_cons,
      naluPayloads_startOnly false hs, hq]
    rfl
  obtain ⟨c', hn⟩ := number_append st c (as.flatMap (naluPayloads F.fu false))
    ((false, sp) :: q :: (qs ++ payloads F.fu bs))
  rw [packNalus, hsplit, hn, number, number] at ha hnot hnum
  rw [hsplit] at hpay
  have hbits := F.fragment_bits nalu true true (nalu.drop F.fu.naluHeader)
  have hlt := buf_lt_of_startOnly hnot
    (fun x hx ↦ by
      obtain ⟨n, -, h⟩ := List.mem_flatMap.mp (mem_number st c _ hx).2
      exact naluPayloads_marker h)
    (fuHeader_le_fragment F nalu true true _) (F.fragment_type nalu true true _) hbits.1 hbits.2
    hqlen hqt ha
  omega

/-- A last NAL unit without an end bit keeps the old bytes in the place of its length. -/
theorem not_startOnly_last {as : List Bytes} (hc : ∀ nalu ∈ as, Carried F nalu)
    (hb : (avcc (as ++ [nalu])).length ≤ videoFrameCacheBytes)
    (ha : assemble F.codec unknown (.init zeroCache) (packNalus F.fu st c (as ++ [nalu])) = .ok s)
    (hframe : frame s = avcc (as ++ [nalu])) : ¬ StartOnly F nalu := by
  intro hs
  have hsize : nalRtpPacketSize = 1400 := rfl
  have hcap : videoFrameCacheBytes = 1048576 := rfl
  have hle := F.naluHeader_le
  have hlo := hs.1
  have hlen : (avcc (as ++ [nalu])).length = (avcc as).length + (4 + nalu.length) := by
    rw [avcc_append, List.length_append, avcc_length_cons]
    rfl
  have hdrop : (nalu.drop F.fu.naluHeader).length = nalu.length - F.fu.naluHeader := List.length_drop
  obtain ⟨c', hn⟩ := number_append st c (as.flatMap (naluPayloads F.fu false))
    (naluPayloads F.fu true nalu)
  obtain ⟨s₁, h₁, hext, hl⟩ := assemble_nalus F st c (s := .init zeroCache) hc rfl
    (by change 0 + _ ≤ _; omega)
  have hbuf := hext.buf_eq
  rw [avcc_map_rebuild_length] at hbuf
  change _ = 0 + _ at hbuf
  rw [packNalus, payloads_concat, hn, assemble_append, h₁, Outcome.ok_bind,
    naluPayloads_startOnly true hs, number, number] at ha
  obtain ⟨s₂, h₂, hext₂, -⟩ := step_firstFragment F hl
    (show (packet st (getSequenceNum c') true
      (F.fu.fuPrefix nalu true true ++ nalu.drop F.fu.naluHeader)).payload = _ from rfl) (by omega)
  rw [assemble_cons h₂] at ha
  cases ha
  have hzero : (stale s₁).take 4 = List.replicate 4 0 := by
    rw [hext.stale_eq]
    change ((List.replicate videoFrameCacheBytes 0).drop _).take 4 = _
    rw [List.drop_replicate, List.take_replicate, avcc_map_rebuild_length]
    congr 1
    omega
  rw [hext₂.frame_eq, hext.frame_eq, avcc_append, hzero] at hframe
  obtain ⟨-, hframe⟩ := List.append_inj hframe (avcc_map_rebuild_length F as)
  rw [avcc_cons, List.append_assoc] at hframe
  obtain ⟨hlength, -⟩ := List.append_inj hframe (by rw [putBE_length]; rfl)
  have hv := congrArg fromBE hlength
  rw [fromBE_putBE, Nat.mod_eq_of_lt (by omega)] at hv
  have h0 : fromBE (List.replicate 4 0) = 0 := by decide
  omega

end StartOnly


theorem collect_eq (st : Stream) (hc : ∀ nalu ∈ nalus, Carried F nalu ∨ StartOnly F nalu)
    (hr : (getSequenceNum c).toNat + (payloads F.fu nalus).length ≤ 65535) :
    collect F.codec [] (packNalus F.fu st c nalus) = packNalus F.fu st c nalus := by
  rw [collect_packNalus hc]
  exact insertAll_of_ascending (number_ascending hr)

theorem roundTrips_of_carried (hne : nalus ≠ [])
    (hb : (avcc nalus).length ≤ videoFrameCacheBytes)
    (hc : ∀ nalu ∈ nalus, Carried F nalu ∧ rebuild F nalu = nalu)
    (hr : (getSequenceNum c).toNat + (payloads F.fu nalus).length ≤ 65535) :
    RoundTrips F st c nalus := by
  intro e r hbuf
  obtain ⟨ps, p, hpack, hm, hp, ht⟩ := packNalus_eq F st c hne
  have hc' : ∀ nalu ∈ nalus, Carried F nalu ∨ StartOnly F nalu := fun n hn ↦ .inl (hc n hn).1
  have hacc : accepts F.codec p = true := by
    have hmem : p ∈ packNalus F.fu st c nalus := by
      rw [hpack]
      exact List.mem_append_right ps (List.mem_singleton_self p)
    have h := payload_accepted F hc' (mem_number st c _ hmem).2
    rw [accepts, decide_eq_false (Int.not_lt.mpr h), Bool.and_false]
    rfl
  have hcol := collect_eq st hc' hr
  obtain ⟨s, ha, hext, hl⟩ := assemble_frame F e.uninit st c r.videoFrameCache hne
    (fun n hn ↦ (hc n hn).1) hb
  have hmap : nalus.map (rebuild F) = nalus := by
    refine (List.map_congr_left fun n hn ↦ (hc n hn).2).trans (List.map_id _)
  rw [hmap] at hext
  have hsbuf : s.buf = 0 + (avcc nalus).length := hext.buf_eq
  have hframe : frame s = avcc nalus := hext.frame_eq
  rw [hpack] at hcol ha ⊢
  obtain ⟨r', msg, header, hg, hmsg⟩ := generate_of_returned (e := e) (r := holding r st.pts [])
    (t := (getTimestamp (ps ++ [p]) - r.firstRtpVideoTs) / 90) ha hl (by omega)
  rw [hframe] at hmsg
  refine ⟨r', msg, header, ?_, hmsg⟩
  rw [feed_frame hbuf hm hp ht, if_pos hacc, hcol, hg, List.length_append, List.length_singleton,
    Nat.add_sub_cancel]
  rfl

theorem carried_of_roundTrips (hne : nalus ≠ []) (hp : ∀ nalu ∈ nalus, Proper F nalu)
    (hb : (avcc nalus).length ≤ videoFrameCacheBytes) (h : RoundTrips F st c nalus) :
    (∀ nalu ∈ nalus, Carried F nalu ∧ rebuild F nalu = nalu) ∧
      (getSequenceNum c).toNat + (payloads F.fu nalus).length ≤ 65535 := by
  obtain ⟨s, ha, hfin, hbuf, hframe⟩ := roundTrips_assemble hne h
  have hcs := carried_or_startOnly hp ha hbuf
  have hr := noReset hne hp hcs ha hfin hbuf
  rw [collect_eq st hcs hr] at ha
  have hbefore : ∀ as nalu bs, nalus = as ++ nalu :: bs → bs ≠ [] → Carried F nalu := by
    intro as nalu bs heq hbs
    obtain ⟨next, bs, rfl⟩ := List.exists_cons_of_ne_nil hbs
    refine (hcs nalu ?_).resolve_right (not_startOnly_before heq hp hcs ha hbuf)
    rw [heq]
    exact List.mem_append_right as List.mem_cons_self
  have hc : ∀ nalu ∈ nalus, Carried F nalu := by
    intro nalu hn
    obtain ⟨as, bs, heq⟩ := List.append_of_mem hn
    by_cases hbs : bs = []
    · subst hbs
      have has : ∀ n ∈ as, Carried F n := by
        intro n hn'
        obtain ⟨as₁, as₂, rfl⟩ := List.append_of_mem hn'
        refine hbefore as₁ n (as₂ ++ [nalu]) ?_ (List.append_ne_nil_of_right_ne_nil as₂ (by simp))
        rw [heq, List.append_assoc, List.cons_append]
      rw [heq] at ha hframe hb
      exact (hcs nalu hn).resolve_right (not_startOnly_last has hb ha hframe)
    · exact hbefore as nalu bs heq hbs
  obtain ⟨s', ha', hext, -⟩ := assemble_frame F unknown st c zeroCache hne hc hb
  have hs : s' = s := Outcome.ok.inj (ha'.symm.trans ha)
  subst hs
  have hmap : avcc (nalus.map (rebuild F)) = avcc nalus := hext.frame_eq.symm.trans hframe
  exact ⟨fun nalu hn ↦ ⟨hc nalu hn, eq_of_avcc_map (rebuild_length F) hmap nalu hn⟩, hr⟩


theorem not_roundTrips_singleton {nalu : Bytes} (hp : Proper F nalu)
    (hb : 4 + nalu.length ≤ videoFrameCacheBytes)
    (hc : ¬ (Carried F nalu ∧ rebuild F nalu = nalu)) : ¬ RoundTrips F st c [nalu] := by
  intro h
  have hlen : (avcc [nalu]).length = 4 + nalu.length := avcc_length_cons nalu []
  have hp' : ∀ n ∈ [nalu], Proper F n := fun n hn ↦ List.mem_singleton.mp hn ▸ hp
  obtain ⟨hcar, -⟩ := carried_of_roundTrips (List.cons_ne_nil nalu []) hp' (by omega) h
  exact hc (hcar nalu (List.mem_singleton_self nalu))

section Count

theorem length_fragments {f : FuFormat} {nalu data : Bytes} {last start : Bool} {fuel : ℕ}
    (hf : data.length ≤ fuel) :
    (fragments f nalu last fuel start data).length = (data.length + 1399) / 1400 := by
  have hsize : nalRtpPacketSize = 1400 := rfl
  induction fuel generalizing data start with
  | zero =>
    rw [List.length_eq_zero_iff.mp (Nat.le_zero.mp hf)]
    rfl
  | succ fuel ih =>
    by_cases hd : 0 < data.length
    · by_cases hle : data.length ≤ nalRtpPacketSize
      · rw [fragments_last last start fuel hd hle, List.length_singleton]
        omega
      · have hdrop : (data.drop nalRtpPacketSize).length = data.length - nalRtpPacketSize :=
          List.length_drop
        rw [fragments_more last start fuel (by omega), List.length_cons, ih (by omega), hdrop]
        omega
    · rw [List.length_eq_zero_iff.mp (Nat.eq_zero_of_not_pos hd), fragments_nil]
      rfl

def packetCount (naluHeader : ℕ) (nalus : List Bytes) : ℕ :=
  (nalus.map fun nalu ↦
    if nalu.length ≤ 1397 then 1 else (nalu.length - naluHeader + 1399) / 1400).sum

theorem length_payloads (f : FuFormat) (nalus : List Bytes) :
    (payloads f nalus).length = packetCount f.naluHeader nalus := by
  have hsize : nalRtpPacketSize = 1400 := rfl
  induction nalus with
  | nil => rfl
  | cons nalu nalus ih =>
    have hn : (naluPayloads f nalus.isEmpty nalu).length =
        if nalu.length ≤ 1397 then 1 else (nalu.length - f.naluHeader + 1399) / 1400 := by
      have hdrop : (nalu.drop f.naluHeader).length = nalu.length - f.naluHeader := List.length_drop
      unfold naluPayloads
      split
      · rw [if_neg (by omega), length_fragments (by omega), hdrop]
      · rw [if_pos (by omega), List.length_singleton]
    rw [payloads, List.length_append, hn, ih, packetCount, packetCount, List.map_cons, List.sum_cons]

end Count

end Main

end MmsServer.Rtp.RoundTrip
