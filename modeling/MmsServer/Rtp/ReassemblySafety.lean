import MmsServer.Rtp.Charge

namespace MmsServer.Rtp.ReassemblySafety

open Lib.ByteReader Lib.Checked Lib.SortedMap Packer Depacketizer Assembler Format Reassembly Charge

/-- The aggregation units of a STAP-A packet and the bytes they take in the frame:
each is a length of two bytes and so many bytes, and the code reads the first of them
also when there are none. -/
inductive Units : Bytes → ℕ → Prop
  | nil : Units [] 0
  | cons {size nalu rest : Bytes} {n : ℕ} (hs : size.length = 2) (hn : fromBE size = nalu.length)
      (hne : nalu ++ rest ≠ []) :
      Units rest n → Units (size ++ (nalu ++ rest)) (4 + nalu.length + n)

/-- The place of the iterator between two packets, in the loop over the fragments
with the marker of the packet before it. -/
inductive Place
  | packets
  | fragments (marker : Bool)
deriving DecidableEq

/-- The frame has room for a packet, and so it has for the packets behind it unless
the message is returned here. -/
def Room (p : RtpPacket) (used : ℕ) (rest : Prop) : Prop :=
  used ≤ videoFrameCacheBytes ∧ (p.marker = true ∨ rest)

def fragmentBytes (p : RtpPacket) : ℕ :=
  if startBitOf h264 p.payload then p.payload.length - 1 else p.payload.length - 2

def FragmentFits (p : RtpPacket) (used : ℕ) (closed «open» : Prop) : Prop :=
  used ≤ videoFrameCacheBytes ∧
    if endBitOf h264 p.payload then p.marker = true ∨ closed else «open»

/-- The packets, read in their order behind `used` bytes of the frame, are safe to put
together. A payload of less than two bytes is taken as anything but a first fragment. -/
def Fits : Place → ℕ → List RtpPacket → Prop
  | .packets, _, [] => True
  | .fragments marker, _, [] => marker = true
  | .packets, used, p :: ps =>
    if p.payload.length < 2 then
      Fits .packets used ps ∧
        Room p (used + (4 + p.payload.length)) (Fits .packets (used + (4 + p.payload.length)) ps)
    else
      match payloadTypeOf h264 p.payload with
      | .stapA =>
        ∃ n, Units (p.payload.drop 1) n ∧ Room p (used + n) (Fits .packets (used + n) ps)
      | .singleNalu =>
        Room p (used + (4 + p.payload.length)) (Fits .packets (used + (4 + p.payload.length)) ps)
      | .fu =>
        if startBitOf h264 p.payload then
          FragmentFits p (used + 4 + fragmentBytes p)
            (Fits .packets (used + 4 + fragmentBytes p) ps)
            (Fits (.fragments p.marker) (used + 4 + fragmentBytes p) ps)
        else if p.marker then used + 4 ≤ videoFrameCacheBytes
        else Fits .packets (used + 4) ps
      | _ => Fits .packets used ps
  | .fragments _, used, p :: ps =>
    2 ≤ p.payload.length ∧
      if payloadTypeOf h264 p.payload = .fu then
        FragmentFits p (used + fragmentBytes p) (Fits .packets (used + fragmentBytes p) ps)
          (Fits (.fragments p.marker) (used + fragmentBytes p) ps)
      else p.marker = true ∨ Fits .packets used ps

/-- Every frame that a packet with the marker hands out is safe to put together. -/
def FramesFit : PktsBuf → List RtpPacket → Prop
  | _, [] => True
  | buf, p :: ps =>
    (p.marker = true → Fits .packets 0 (insertPacket p (buf p.timestamp))) ∧
      FramesFit (RtpH264Depacketizer.onPacket buf p).1 ps

def run : Receiver → List (Env × RtpPacket) → Outcome Receiver
  | r, [] => return r
  | r, (e, p) :: inputs => do
    let (r, _) ← processH264Packet e r p
    run r inputs

section Units

variable {s s' : Assembly} {data : Bytes} {n : ℕ}

theorem put_buf {bs : Bytes} (h : s.buf + bs.length ≤ videoFrameCacheBytes) :
    ∃ s', s.put bs = .ok s' ∧ s'.buf = s.buf + bs.length ∧ s'.loop = s.loop := by
  obtain ⟨s', hput, hext, -, hl⟩ := put_ok h
  exact ⟨s', hput, hext.buf_eq, hl⟩

theorem stapUnits_ok (hu : Units data n) (hb : s.buf + n ≤ videoFrameCacheBytes) :
    ∃ s', stapUnits s data = .ok s' ∧ s'.buf = s.buf + n ∧ s'.loop = s.loop := by
  induction hu generalizing s with
  | nil => exact ⟨s, by rw [stapUnits, dif_pos rfl]; rfl, rfl, rfl⟩
  | @cons size nalu rest n hlen hsize hne hu ih =>
    have h4 : (putBE 4 nalu.length).length = 4 := putBE_length _ _
    have hpos := List.length_pos_of_ne_nil hne
    set data := size ++ (nalu ++ rest) with hdata
    have hdl : data.length = 2 + (nalu ++ rest).length := by rw [hdata, List.length_append, hlen]
    have hload : load 2 0 data = .ok nalu.length := by
      rw [load_ok (by omega), List.drop_zero, hdata, List.take_left' hlen, hsize]
    have hload' : ∃ header, load 1 2 data = .ok header := ⟨_, load_ok (by omega)⟩
    obtain ⟨header, hload'⟩ := hload'
    have hslice : slice 2 nalu.length data = .ok nalu := slice_append hlen rfl
    have hdrop : data.drop (2 + nalu.length) = rest := by
      rw [hdata, ← List.drop_drop, List.drop_left' hlen, List.drop_left]
    have hroom : s.buf + (putBE 4 nalu.length).length ≤ videoFrameCacheBytes := by omega
    obtain ⟨s₁, hput₁, hbuf₁, hl₁⟩ := put_buf
      (s := { s with isKey := s.isKey || header % 32 == h264NaluTypeIDR }) hroom
    rw [h4] at hbuf₁
    change s₁.buf = s.buf + 4 at hbuf₁
    have hroom' : s₁.buf + nalu.length ≤ videoFrameCacheBytes := by omega
    obtain ⟨s₂, hput₂, hbuf₂, hl₂⟩ := put_buf hroom'
    obtain ⟨s', hs', hbuf, hl'⟩ := ih (s := s₂) (by omega)
    refine ⟨s', ?_, by omega, hl'.trans (hl₂.trans hl₁)⟩
    rw [stapUnits, dif_neg (List.ne_nil_of_length_pos (by omega))]
    simp only [hload, hload', hput₁, hslice, hput₂, hdrop, hs', Outcome.ok_bind]

end Units

section Fits

theorem Room.mono {p : RtpPacket} {used used' : ℕ} {rest rest' : Prop} (h : Room p used rest)
    (hu : used' ≤ used) (hr : rest → rest') : Room p used' rest' :=
  ⟨hu.trans h.1, h.2.imp_right hr⟩

theorem FragmentFits.mono {p : RtpPacket} {used used' : ℕ} {closed closed' o o' : Prop}
    (h : FragmentFits p used closed o) (hu : used' ≤ used) (hc : closed → closed') (ho : o → o') :
    FragmentFits p used' closed' o' := by
  refine ⟨hu.trans h.1, ?_⟩
  have h' := h.2
  split at h'
  · exact (if_pos ‹_›).mpr (h'.imp_right hc)
  · exact (if_neg ‹_›).mpr (ho h')

/-- Less in the frame leaves more room. -/
theorem Fits.mono {ps : List RtpPacket} {place : Place} {used used' : ℕ} (h : Fits place used ps)
    (hu : used' ≤ used) : Fits place used' ps := by
  induction ps generalizing place used used' with
  | nil =>
    cases place with
    | packets => trivial
    | fragments marker => exact h
  | cons p ps ih =>
    have hsum : ∀ n, used' + n ≤ used + n := fun n ↦ Nat.add_le_add_right hu n
    cases place with
    | packets =>
      unfold Fits at h ⊢
      split at h
      · rw [if_pos ‹_›]
        exact ⟨ih h.1 hu, h.2.mono (hsum _) fun h ↦ ih h (hsum _)⟩
      · rw [if_neg ‹_›]
        split at h
        · obtain ⟨n, hn, h⟩ := h
          exact ⟨n, hn, h.mono (hsum _) fun h ↦ ih h (hsum _)⟩
        · exact h.mono (hsum _) fun h ↦ ih h (hsum _)
        · split at h
          · rw [if_pos ‹_›]
            exact h.mono (by omega) (fun h ↦ ih h (by omega)) (fun h ↦ ih h (by omega))
          · rw [if_neg ‹_›]
            split at h
            · rw [if_pos ‹_›]
              omega
            · rw [if_neg ‹_›]
              exact ih h (hsum 4)
        · exact ih h hu
    | fragments marker =>
      unfold Fits at h ⊢
      refine ⟨h.1, ?_⟩
      have h' := h.2
      split at h'
      · rw [if_pos ‹_›]
        exact h'.mono (hsum _) (fun h ↦ ih h (hsum _)) (fun h ↦ ih h (hsum _))
      · rw [if_neg ‹_›]
        exact h'.imp_right fun h ↦ ih h hu

end Fits

section Completes

variable {uninit : RtpPacket → ℕ × ℕ} {s s₁ : Assembly} {p : RtpPacket} {ps : List RtpPacket}

def Completes (uninit : RtpPacket → ℕ × ℕ) (s : Assembly) (ps : List RtpPacket) : Prop :=
  ∃ s' b, assemble h264 uninit s ps = .ok s' ∧ s'.finish = .ok b ∧
    (b = true → s'.buf ≤ videoFrameCacheBytes)

theorem completes_cons (h : step h264 uninit s p = .ok s₁) :
    Completes uninit s (p :: ps) ↔ Completes uninit s₁ ps := by
  rw [Completes, assemble_cons h]
  rfl

theorem completes_returned (hl : s.loop = .returned) (hb : s.buf ≤ videoFrameCacheBytes) :
    Completes uninit s ps := by
  refine ⟨s, true, assemble_returned hl, ?_, fun _ ↦ hb⟩
  simp only [Assembly.finish, hl, Outcome.pure_eq]

/-- What is left to show when a branch has handled its packet. -/
theorem completes_endPacket (hl : s₁.loop = if p.marker then .returned else .packets)
    (hb : p.marker = true → s₁.buf ≤ videoFrameCacheBytes)
    (h : p.marker = false → s₁.loop = .packets → Completes uninit s₁ ps) :
    Completes uninit s₁ ps := by
  cases hm : p.marker with
  | true =>
    rw [hm] at hl
    exact completes_returned hl (hb hm)
  | false =>
    rw [hm] at hl
    exact h hm hl

theorem length_piece (info : PktInfo) (hlen : 2 ≤ p.payload.length)
    (ht : payloadTypeOf h264 p.payload = .fu) :
    (piece h264 (info.parse h264 p.payload).startBit p.payload).length = fragmentBytes p := by
  rw [parse_of_fu info (k := h264) hlen ht]
  exact piece_length h264Format _ hlen

theorem fragment_fits (info : PktInfo) {pos : ℕ} (size : ℕ) (hlen : 2 ≤ p.payload.length)
    (ht : payloadTypeOf h264 p.payload = .fu)
    (hb : s.buf + fragmentBytes p ≤ videoFrameCacheBytes) (hpos : pos + 4 ≤ s.buf) :
    ∃ s₁, fragment h264 s (info.parse h264 p.payload) pos size p = .ok s₁ ∧
      s₁.buf = s.buf + fragmentBytes p ∧
      s₁.loop =
        if endBitOf h264 p.payload then if p.marker then .returned else .packets
        else .fragments (info.parse h264 p.payload) pos (size + fragmentBytes p) p.marker := by
  have hparse := parse_of_fu info (k := h264) hlen ht
  have hbytes := length_piece info hlen ht
  cases he : endBitOf h264 p.payload with
  | true =>
    obtain ⟨s₁, hf, hbuf, -, -, hl⟩ := fragment_end (k := h264) (s := s) hlen rfl
      (by rwa [hbytes]) (by rw [hparse]; exact he) hpos
    rw [hbytes] at hbuf
    exact ⟨s₁, hf, hbuf, hl⟩
  | false =>
    obtain ⟨s₁, hf, hext, hl⟩ := fragment_ok (k := h264) (s := s) hlen rfl
      (by rwa [hbytes]) (by rw [hparse]; exact he)
    have hbuf := hext.buf_eq
    rw [hbytes] at hbuf hl
    exact ⟨s₁, hf, hbuf, hl⟩

section Packets

variable (hl : s.loop = .packets)
  (rest : ∀ s₁ : Assembly, s₁.loop = .packets → Fits .packets s₁.buf ps → Completes uninit s₁ ps)
include hl rest

theorem completes_singleNalu
    (ht : ((PktInfo.fresh h264 (uninit p)).parse h264 p.payload).type = .singleNalu)
    (hfit : Room p (s.buf + (4 + p.payload.length))
      (Fits .packets (s.buf + (4 + p.payload.length)) ps)) : Completes uninit s (p :: ps) := by
  obtain ⟨hroom, hfit⟩ := hfit
  obtain ⟨s₁, hs, hext, hl₁⟩ := singleNalu_ok (k := h264) (p := p) hroom
  have hbuf := hext.buf_eq
  rw [List.length_append, putBE_length] at hbuf
  rw [completes_cons ((step_packets_singleNalu hl ht).trans hs)]
  refine completes_endPacket hl₁ (fun _ ↦ by omega) fun hm hl₁ ↦ rest s₁ hl₁ ?_
  rw [hbuf]
  exact hfit.resolve_left (by rw [hm]; decide)

theorem completes_stapA {n : ℕ}
    (ht : ((PktInfo.fresh h264 (uninit p)).parse h264 p.payload).type = .stapA)
    (hu : Units (p.payload.drop 1) n)
    (hb : p.payload.drop 1 ≠ [] ∨ p.marker = true → s.buf + n ≤ videoFrameCacheBytes)
    (hfit : p.marker = true ∨ Fits .packets (s.buf + n) ps) : Completes uninit s (p :: ps) := by
  have hs : ∃ s₁, stapUnits s (p.payload.drop 1) = .ok s₁ ∧ s₁.buf = s.buf + n := by
    by_cases hne : p.payload.drop 1 = []
    · rw [hne] at hu ⊢
      refine ⟨s, by rw [stapUnits, dif_pos rfl]; rfl, ?_⟩
      generalize hd : ([] : Bytes) = data at hu
      cases hu with
      | nil => rfl
      | cons hs hn hne hu =>
        have hlen := congrArg List.length hd
        rw [List.length_append, hs, List.length_nil] at hlen
        omega
    · obtain ⟨s₁, hs, hbuf, -⟩ := stapUnits_ok hu (hb (.inl hne))
      exact ⟨s₁, hs, hbuf⟩
  obtain ⟨s₁, hs, hbuf⟩ := hs
  have hstep : step h264 uninit s p = .ok (s₁.endPacket p) := by
    simp only [step, hl, ht, hs, Outcome.ok_bind, Outcome.pure_eq]
  rw [completes_cons hstep]
  refine completes_endPacket rfl (fun hm ↦ ?_) fun hm hl₁ ↦ rest _ hl₁ ?_
  · change s₁.buf ≤ _
    rw [hbuf]
    exact hb (.inr hm)
  · change Fits .packets s₁.buf ps
    rw [hbuf]
    exact hfit.resolve_left (by rw [hm]; decide)

theorem completes_strayFragment
    (ht : ((PktInfo.fresh h264 (uninit p)).parse h264 p.payload).type = .fu)
    (hst : ((PktInfo.fresh h264 (uninit p)).parse h264 p.payload).startBit = false)
    (hb : p.marker = true → s.buf + 4 ≤ videoFrameCacheBytes)
    (hfit : p.marker = false → Fits .packets (s.buf + 4) ps) : Completes uninit s (p :: ps) := by
  have hstep : step h264 uninit s p = .ok ({ s with buf := s.buf + 4 }.endPacket p) := by
    rw [step_packets_fu hl ht, fuPacket, if_neg (by rw [hst]; decide)]
    rfl
  rw [completes_cons hstep]
  exact completes_endPacket rfl hb fun hm hl₁ ↦ rest _ hl₁ (hfit hm)

theorem completes_skipped
    (ht : ((PktInfo.fresh h264 (uninit p)).parse h264 p.payload).type = .paci ∨
      ((PktInfo.fresh h264 (uninit p)).parse h264 p.payload).type = .other)
    (hfit : Fits .packets s.buf ps) : Completes uninit s (p :: ps) := by
  have hstep : step h264 uninit s p = .ok s := by
    obtain ht | ht := ht <;> simp only [step, hl, ht, Outcome.pure_eq]
  rw [completes_cons hstep]
  exact rest s hl hfit

/-- A payload that is too short is taken as any packet but a first fragment. -/
theorem completes_short (hlen : p.payload.length < 2) (hfit : Fits .packets s.buf ps)
    (hroom : Room p (s.buf + (4 + p.payload.length))
      (Fits .packets (s.buf + (4 + p.payload.length)) ps)) : Completes uninit s (p :: ps) := by
  have hparse : (PktInfo.fresh h264 (uninit p)).parse h264 p.payload = .fresh h264 (uninit p) :=
    parse_of_short _ hlen
  obtain ⟨hle, hrest⟩ := hroom
  cases ht : (PktInfo.fresh h264 (uninit p)).type with
  | singleNalu => exact completes_singleNalu hl rest (by rw [hparse, ht]) ⟨hle, hrest⟩
  | stapA =>
    have hnil : p.payload.drop 1 = [] := List.drop_of_length_le (by omega)
    refine completes_stapA hl rest (n := 0) (by rw [hparse, ht]) (hnil ▸ .nil) ?_ (.inr hfit)
    intro _
    omega
  | fu =>
    refine completes_strayFragment hl rest (by rw [hparse, ht]) (by rw [hparse]; rfl)
      (fun _ ↦ by omega) fun hm ↦ ?_
    exact (hrest.resolve_left (by rw [hm]; decide)).mono (by omega)
  | paci => exact completes_skipped hl rest (.inl (by rw [hparse, ht])) hfit
  | other => exact completes_skipped hl rest (.inr (by rw [hparse, ht])) hfit

end Packets

section Fragments

variable
  (ihp : ∀ s : Assembly, s.loop = .packets → Fits .packets s.buf ps → Completes uninit s ps)
  (ihf : ∀ (s : Assembly) (info : PktInfo) (pos size : ℕ) (marker : Bool),
    s.loop = .fragments info pos size marker → pos + 4 ≤ s.buf →
    s.buf ≤ videoFrameCacheBytes → Fits (.fragments marker) s.buf ps → Completes uninit s ps)
include ihp ihf

/-- Both loops go on behind a fragment. -/
theorem completes_fragment {info : PktInfo} {pos size : ℕ}
    (hl : s.loop = if endBitOf h264 p.payload then if p.marker then .returned else .packets
      else .fragments info pos size p.marker)
    (hpos : pos + 4 ≤ s.buf)
    (hfit : FragmentFits p s.buf (Fits .packets s.buf ps) (Fits (.fragments p.marker) s.buf ps)) :
    Completes uninit s ps := by
  obtain ⟨hle, hfit⟩ := hfit
  split at hl
  · rw [if_pos ‹_›] at hfit
    refine completes_endPacket hl (fun _ ↦ hle) fun hm hl ↦ ihp s hl ?_
    exact hfit.resolve_left (by rw [hm]; decide)
  · rw [if_neg ‹_›] at hfit
    exact ihf s _ _ _ _ hl hpos hle hfit

theorem completes_startFragment (hl : s.loop = .packets) (hlen : 2 ≤ p.payload.length)
    (hc : payloadTypeOf h264 p.payload = .fu) (hst : startBitOf h264 p.payload = true)
    (hfit : FragmentFits p (s.buf + 4 + fragmentBytes p)
      (Fits .packets (s.buf + 4 + fragmentBytes p) ps)
      (Fits (.fragments p.marker) (s.buf + 4 + fragmentBytes p) ps)) :
    Completes uninit s (p :: ps) := by
  have ht := parse_type (PktInfo.fresh h264 (uninit p)) (k := h264) hlen
  have hparse := parse_of_fu (PktInfo.fresh h264 (uninit p)) (k := h264) hlen hc
  obtain ⟨s₁, hf, hbuf, hl₁⟩ := fragment_fits (s := { s with buf := s.buf + 4 })
    (.fresh h264 (uninit p)) 0 hlen hc hfit.1 (le_refl (s.buf + 4))
  have hstep : step h264 uninit s p = .ok s₁ := by
    rw [step_packets_fu hl (ht.trans hc), fuPacket, if_pos (by rw [hparse]; exact hst), hf]
  change s₁.buf = s.buf + 4 + _ at hbuf
  rw [completes_cons hstep]
  rw [← hbuf] at hfit
  exact completes_fragment ihp ihf hl₁ (by omega) hfit

theorem completes_packets_cons (hl : s.loop = .packets) (hfit : Fits .packets s.buf (p :: ps)) :
    Completes uninit s (p :: ps) := by
  unfold Fits at hfit
  split at hfit
  · exact completes_short hl ihp ‹_› hfit.1 hfit.2
  · rename_i hlen
    have hlen : 2 ≤ p.payload.length := Nat.not_lt.mp hlen
    have ht := parse_type (PktInfo.fresh h264 (uninit p)) (k := h264) hlen
    cases hc : payloadTypeOf h264 p.payload with
    | stapA =>
      simp only [hc] at hfit
      obtain ⟨n, hu, hroom, hfit⟩ := hfit
      exact completes_stapA hl ihp (ht.trans hc) hu (fun _ ↦ hroom) hfit
    | singleNalu =>
      simp only [hc] at hfit
      exact completes_singleNalu hl ihp (ht.trans hc) hfit
    | paci =>
      simp only [hc] at hfit
      exact completes_skipped hl ihp (.inl (ht.trans hc)) hfit
    | other =>
      simp only [hc] at hfit
      exact completes_skipped hl ihp (.inr (ht.trans hc)) hfit
    | fu =>
      simp only [hc] at hfit
      split at hfit
      · exact completes_startFragment ihp ihf hl hlen hc ‹_› hfit
      · rename_i hst
        have hparse := parse_of_fu (PktInfo.fresh h264 (uninit p)) (k := h264) hlen hc
        have hst : startBitOf h264 p.payload = false := Bool.eq_false_iff.mpr hst
        refine completes_strayFragment hl ihp (ht.trans hc) (by rw [hparse]; exact hst)
          (fun hm ↦ ?_) fun hm ↦ ?_
        · rwa [hm, if_pos rfl] at hfit
        · rwa [hm, if_neg (by decide)] at hfit

theorem completes_fragments_cons {info : PktInfo} {pos size : ℕ} {marker : Bool}
    (hl : s.loop = .fragments info pos size marker) (hpos : pos + 4 ≤ s.buf)
    (hb : s.buf ≤ videoFrameCacheBytes) (hfit : Fits (.fragments marker) s.buf (p :: ps)) :
    Completes uninit s (p :: ps) := by
  unfold Fits at hfit
  obtain ⟨hlen, hfit⟩ := hfit
  have ht := parse_type info (k := h264) hlen
  split at hfit
  · rename_i hc
    obtain ⟨s₁, hf, hbuf, hl₁⟩ := fragment_fits info size hlen hc hfit.1 hpos
    have hstep : step h264 uninit s p = .ok s₁ := by
      rw [step_fragments hl, if_pos (ht.trans hc), hf]
    rw [completes_cons hstep]
    rw [← hbuf] at hfit
    exact completes_fragment ihp ihf hl₁ (by omega) hfit
  · rename_i hc
    have hstep : step h264 uninit s p = .ok (s.endPacket p) := by
      rw [step_fragments hl, if_neg (by rw [ht]; exact hc)]
    rw [completes_cons hstep]
    refine completes_endPacket rfl (fun _ ↦ hb) fun hm hl₁ ↦ ihp _ hl₁ ?_
    exact hfit.resolve_left (by rw [hm]; decide)

end Fragments

/-- The loop over the packets and the loop over the fragments go through all packets
that fit. -/
theorem completes_of_fits (uninit : RtpPacket → ℕ × ℕ) (ps : List RtpPacket) :
    (∀ s : Assembly, s.loop = .packets → Fits .packets s.buf ps → Completes uninit s ps) ∧
      ∀ (s : Assembly) (info : PktInfo) (pos size : ℕ) (marker : Bool),
        s.loop = .fragments info pos size marker → pos + 4 ≤ s.buf →
        s.buf ≤ videoFrameCacheBytes → Fits (.fragments marker) s.buf ps →
        Completes uninit s ps := by
  induction ps with
  | nil =>
    refine ⟨fun s hl _ ↦ ⟨s, false, rfl, ?_, fun h ↦ by cases h⟩, ?_⟩
    · simp only [Assembly.finish, hl, Outcome.pure_eq]
    · intro s info pos size marker hl hpos hb hfit
      refine ⟨s, true, rfl, ?_, fun _ ↦ hb⟩
      simp only [Assembly.finish, hl, show marker = true from hfit, if_true, Outcome.pure_eq]
  | cons p ps ih =>
    obtain ⟨ihp, ihf⟩ := ih
    exact ⟨fun s hl hfit ↦ completes_packets_cons ihp ihf hl hfit,
      fun s info pos size marker hl hpos hb hfit ↦
        completes_fragments_cons ihp ihf hl hpos hb hfit⟩

end Completes

section Exact

variable {uninit uninit' : RtpPacket → ℕ × ℕ} {s s' s₁ : Assembly} {p : RtpPacket}
  {ps : List RtpPacket}

/-- One unit of a STAP-A packet, with what has been checked by reading it. -/
theorem stapUnits_unit {data : Bytes} (hne : data ≠ []) (h : stapUnits s data = .ok s') :
    ∃ s₁ size, 3 ≤ data.length ∧ 2 + size ≤ data.length ∧ fromBE (data.take 2) = size ∧
      s₁.buf = s.buf + (4 + size) ∧ s₁.buf ≤ videoFrameCacheBytes ∧
      stapUnits s₁ (data.drop (2 + size)) = .ok s' := by
  rw [stapUnits, dif_neg hne] at h
  obtain ⟨size, hload, h⟩ := Outcome.bind_eq_ok.mp h
  obtain ⟨header, hload', h⟩ := Outcome.bind_eq_ok.mp h
  obtain ⟨s₁, hput₁, h⟩ := Outcome.bind_eq_ok.mp h
  obtain ⟨nalu, hslice, h⟩ := Outcome.bind_eq_ok.mp h
  obtain ⟨s₂, hput₂, hrec⟩ := Outcome.bind_eq_ok.mp h
  have h3 : 3 ≤ data.length := by
    by_contra hlt
    rw [load_overread (by omega)] at hload'
    cases hload'
  have hsize : 2 + size ≤ data.length := by
    by_contra hlt
    rw [slice_overread (by omega)] at hslice
    cases hslice
  rw [load_ok (by omega), List.drop_zero] at hload
  rw [slice_ok hsize] at hslice
  cases hslice
  have hbuf₁ := (put_eq_ok hput₁).1
  rw [putBE_length] at hbuf₁
  change s₁.buf = s.buf + 4 at hbuf₁
  obtain ⟨hbuf₂, -, hle₂⟩ := put_eq_ok hput₂
  rw [List.length_take, List.length_drop] at hbuf₂
  exact ⟨s₂, size, h3, hsize, Outcome.ok.inj hload, by omega, hle₂, hrec⟩

theorem stapUnits_eq_ok {data : Bytes} (h : stapUnits s data = .ok s') :
    ∃ n, Units data n ∧ s'.buf = s.buf + n ∧ (data ≠ [] → s'.buf ≤ videoFrameCacheBytes) := by
  induction hlen : data.length using Nat.strong_induction_on generalizing data s with
  | h len ih =>
    by_cases hnil : data = []
    · rw [stapUnits, dif_pos hnil] at h
      cases h
      exact ⟨0, hnil ▸ .nil, rfl, fun hne ↦ absurd hnil hne⟩
    · obtain ⟨s₁, size, h3, hsize, hn, hbuf₁, hle₁, hrec⟩ := stapUnits_unit hnil h
      obtain ⟨n, hu, hbuf, hle⟩ := ih _ (by rw [List.length_drop]; omega) hrec rfl
      have hnl : ((data.drop 2).take size).length = size := by
        rw [List.length_take, List.length_drop]
        omega
      have hs : (data.take 2).length = 2 := by
        rw [List.length_take]
        omega
      have hne : (data.drop 2).take size ++ data.drop (2 + size) ≠ [] := by
        refine List.ne_nil_of_length_pos ?_
        rw [List.length_append, hnl, List.length_drop]
        omega
      have hsplit : data = data.take 2 ++ ((data.drop 2).take size ++ data.drop (2 + size)) := by
        rw [← List.drop_drop, List.take_append_drop, List.take_append_drop]
      have hunits := Units.cons hs (hn.trans hnl.symm) hne hu
      rw [hnl, ← hsplit] at hunits
      refine ⟨4 + size + n, hunits, by omega, fun _ ↦ ?_⟩
      by_cases hr : data.drop (2 + size) = []
      · rw [hr, stapUnits, dif_pos rfl] at hrec
        cases hrec
        exact hle₁
      · exact hle hr

/-- Only a payload that is too short leaves a type uninitialised. -/
theorem step_uninit (hlen : 2 ≤ p.payload.length) :
    step h264 uninit s p = step h264 uninit' s p := by
  have ht := fun info : PktInfo ↦ parse_type info (k := h264) hlen
  cases hl : s.loop with
  | returned => rw [step_returned hl, step_returned hl]
  | fragments info pos size marker => rw [step_fragments hl, step_fragments hl]
  | packets =>
    cases hc : payloadTypeOf h264 p.payload with
    | fu =>
      rw [step_packets_fu hl ((ht _).trans hc), step_packets_fu hl ((ht _).trans hc),
        parse_of_fu _ (k := h264) hlen hc, parse_of_fu _ (k := h264) hlen hc]
    | singleNalu =>
      rw [step_packets_singleNalu hl ((ht _).trans hc), step_packets_singleNalu hl ((ht _).trans hc)]
      have hparse : ∀ u, (PktInfo.fresh h264 u).parse h264 p.payload =
          ⟨h264.typeCode (p.payload.getD 0 0), .singleNalu, false, false⟩ := by
        intro u
        unfold payloadTypeOf at hc
        simp only [PktInfo.parse, if_neg (Nat.not_lt.mpr (show h264.fuHeader ≤ _ from hlen)), hc,
          PktInfo.fresh]
      rw [hparse, hparse]
    | stapA => simp only [step, hl, (ht _).trans hc]
    | paci => simp only [step, hl, (ht _).trans hc]
    | other => simp only [step, hl, (ht _).trans hc]

theorem assemble_uninit (h : ∀ q ∈ ps, uninit q = uninit' q) :
    assemble h264 uninit s ps = assemble h264 uninit' s ps := by
  induction ps generalizing s with
  | nil => rfl
  | cons p ps ih =>
    have hstep : step h264 uninit s p = step h264 uninit' s p := by
      simp only [step, h p List.mem_cons_self]
    rw [assemble, assemble, hstep]
    cases step h264 uninit' s p with
    | ok s₁ => exact ih fun q hq ↦ h q (List.mem_cons_of_mem p hq)
    | err code => rfl
    | fault f => rfl

theorem Completes.step_ok (h : Completes uninit s (p :: ps)) :
    ∃ s₁, step h264 uninit s p = .ok s₁ ∧ Completes uninit s₁ ps := by
  obtain ⟨s', b, ha, hf, hb⟩ := h
  obtain ⟨s₁, hs, ha⟩ := Outcome.bind_eq_ok.mp ha
  exact ⟨s₁, hs, s', b, ha, hf, hb⟩

theorem Completes.le_of_returned (h : Completes uninit s ps) (hl : s.loop = .returned) :
    s.buf ≤ videoFrameCacheBytes := by
  obtain ⟨s', b, ha, hf, hb⟩ := h
  rw [assemble_returned hl] at ha
  cases ha
  have hfin : s.finish = .ok true := by simp only [Assembly.finish, hl, Outcome.pure_eq]
  rw [hfin] at hf
  cases hf
  exact hb rfl

theorem fragment_inv {info : PktInfo} {pos size : ℕ} (hlen : 2 ≤ p.payload.length)
    (ht : payloadTypeOf h264 p.payload = .fu)
    (h : fragment h264 s (info.parse h264 p.payload) pos size p = .ok s₁) :
    s₁.buf = s.buf + fragmentBytes p ∧ s₁.buf ≤ videoFrameCacheBytes ∧
      s₁.loop =
        if endBitOf h264 p.payload then if p.marker then .returned else .packets
        else .fragments (info.parse h264 p.payload) pos (size + fragmentBytes p) p.marker := by
  obtain ⟨-, hbuf, hl, hle⟩ := fragment_eq_ok h
  rw [length_piece info hlen ht] at hbuf hl
  refine ⟨hbuf, hle, hl.trans ?_⟩
  rw [parse_of_fu info (k := h264) hlen ht]

/-- A packet that has been handled leaves the frame small enough to be returned, or
the packets behind it fit. -/
theorem room_of_completes (hl : s₁.loop = if p.marker then .returned else .packets)
    (hle : s₁.buf ≤ videoFrameCacheBytes) (h : ∀ uninit, Completes uninit s₁ ps)
    (ih : s₁.loop = .packets → (∀ uninit, Completes uninit s₁ ps) → Fits .packets s₁.buf ps) :
    Room p s₁.buf (Fits .packets s₁.buf ps) := by
  refine ⟨hle, ?_⟩
  cases hm : p.marker with
  | true => exact .inl rfl
  | false =>
    rw [hm] at hl
    exact .inr (ih hl h)

theorem fragmentFits_of_completes {info : PktInfo} {pos size : ℕ}
    (hl : s₁.loop = if endBitOf h264 p.payload then if p.marker then .returned else .packets
      else .fragments info pos size p.marker) (hle : s₁.buf ≤ videoFrameCacheBytes)
    (ht : info.type = .fu) (h : ∀ uninit, Completes uninit s₁ ps)
    (ihp : s₁.loop = .packets → (∀ uninit, Completes uninit s₁ ps) → Fits .packets s₁.buf ps)
    (ihf : ∀ (info : PktInfo) (pos size : ℕ) (marker : Bool),
      s₁.loop = .fragments info pos size marker → info.type = .fu →
      (∀ uninit, Completes uninit s₁ ps) → Fits (.fragments marker) s₁.buf ps) :
    FragmentFits p s₁.buf (Fits .packets s₁.buf ps) (Fits (.fragments p.marker) s₁.buf ps) := by
  unfold FragmentFits
  split at hl
  · rw [if_pos ‹_›]
    exact room_of_completes hl hle h ihp
  · rw [if_neg ‹_›]
    exact ⟨hle, ihf _ _ _ _ hl ht h⟩

/-- A packet that makes the same step for all types of a fresh info. -/
theorem exists_step (hlen : 2 ≤ p.payload.length) (h : ∀ uninit, Completes uninit s (p :: ps)) :
    ∃ s₁, (∀ uninit, step h264 uninit s p = .ok s₁) ∧ ∀ uninit, Completes uninit s₁ ps := by
  obtain ⟨s₁, hs, -⟩ := (h unknown).step_ok
  have hs' : ∀ uninit, step h264 uninit s p = .ok s₁ := fun u ↦ (step_uninit hlen).trans hs
  exact ⟨s₁, hs', fun u ↦ (completes_cons (hs' u)).mp (h u)⟩

/-- The types of a fresh info can be chosen for a packet that does not come again. -/
theorem exists_step_uninit (u : ℕ × ℕ) (hp : p ∉ ps)
    (h : ∀ uninit, Completes uninit s (p :: ps)) :
    ∃ s₁, (∀ uninit, uninit p = u → step h264 uninit s p = .ok s₁) ∧
      ∀ uninit, Completes uninit s₁ ps := by
  obtain ⟨s₁, hs, -⟩ := (h fun _ ↦ u).step_ok
  have hs' : ∀ uninit, uninit p = u → step h264 uninit s p = .ok s₁ := by
    intro uninit hu
    rw [← hs]
    simp only [step, hu]
  refine ⟨s₁, hs', fun uninit ↦ ?_⟩
  have hc := (completes_cons (hs' (Function.update uninit p u) (Function.update_self ..))).mp
    (h (Function.update uninit p u))
  obtain ⟨s', b, ha, hfin⟩ := hc
  refine ⟨s', b, ?_, hfin⟩
  rw [← ha]
  refine assemble_uninit fun q hq ↦ (Function.update_of_ne ?_ _ _).symm
  rintro rfl
  exact hp hq

section Cases

variable
  (ihp : ∀ s : Assembly, s.loop = .packets → (∀ uninit, Completes uninit s ps) →
    Fits .packets s.buf ps)
  (ihf : ∀ (s : Assembly) (info : PktInfo) (pos size : ℕ) (marker : Bool),
    s.loop = .fragments info pos size marker → info.type = .fu →
    (∀ uninit, Completes uninit s ps) → Fits (.fragments marker) s.buf ps)
include ihp

/-- A short payload is taken for a packet to skip and for a NAL unit. -/
theorem fits_of_short (hl : s.loop = .packets) (hlen : p.payload.length < 2) (hp : p ∉ ps)
    (h : ∀ uninit, Completes uninit s (p :: ps)) :
    Fits .packets s.buf ps ∧
      Room p (s.buf + (4 + p.payload.length))
        (Fits .packets (s.buf + (4 + p.payload.length)) ps) := by
  have hparse : ∀ u, (PktInfo.fresh h264 u).parse h264 p.payload = .fresh h264 u :=
    fun u ↦ parse_of_short _ hlen
  constructor
  · obtain ⟨s₁, hs, h₁⟩ := exists_step_uninit (0, 0) hp h
    have hstep := hs (fun _ ↦ (0, 0)) rfl
    simp only [step, hl, hparse] at hstep
    cases hstep
    exact ihp s hl h₁
  · obtain ⟨s₁, hs, h₁⟩ := exists_step_uninit (0, 1) hp h
    have hstep := hs (fun _ ↦ (0, 1)) rfl
    rw [step_packets_singleNalu hl (by rw [hparse]; rfl)] at hstep
    obtain ⟨hbuf, hl₁, hle⟩ := singleNalu_eq_ok hstep
    rw [← hbuf]
    exact room_of_completes hl₁ hle h₁ (ihp s₁)

theorem fits_of_stapA (hl : s.loop = .packets) (hlen : 2 ≤ p.payload.length)
    (hc : payloadTypeOf h264 p.payload = .stapA) (hstep : step h264 unknown s p = .ok s₁)
    (h₁ : ∀ uninit, Completes uninit s₁ ps) :
    ∃ n, Units (p.payload.drop 1) n ∧ Room p (s.buf + n) (Fits .packets (s.buf + n) ps) := by
  have ht := parse_type (PktInfo.fresh h264 (unknown p)) (k := h264) hlen
  simp only [step, hl, ht.trans hc] at hstep
  obtain ⟨s₂, hu, hstep⟩ := Outcome.bind_eq_ok.mp hstep
  obtain ⟨n, hn, hbuf, hle⟩ := stapUnits_eq_ok hu
  cases hstep
  have hne : p.payload.drop 1 ≠ [] :=
    List.ne_nil_of_length_pos (by rw [List.length_drop]; omega)
  have hroom : Room p (s₂.endPacket p).buf (Fits .packets (s₂.endPacket p).buf ps) :=
    room_of_completes rfl (hle hne) h₁ (ihp _)
  refine ⟨n, hn, ?_⟩
  rw [← hbuf]
  exact hroom

/-- A fragment outside the loop over the fragments only leaves room for a length. -/
theorem fits_of_strayFragment (h₁ : ∀ uninit,
      Completes uninit ({ s with buf := s.buf + 4 }.endPacket p) ps) :
    if p.marker then s.buf + 4 ≤ videoFrameCacheBytes else Fits .packets (s.buf + 4) ps := by
  split
  · rename_i hm
    exact (h₁ unknown).le_of_returned (by simp only [Assembly.endPacket, hm, if_true])
  · rename_i hm
    exact ihp ({ s with buf := s.buf + 4 }.endPacket p)
      (by simp only [Assembly.endPacket, hm]; rfl) h₁

include ihf

theorem fits_of_fu (hl : s.loop = .packets) (hlen : 2 ≤ p.payload.length)
    (hc : payloadTypeOf h264 p.payload = .fu) (hstep : step h264 unknown s p = .ok s₁)
    (h₁ : ∀ uninit, Completes uninit s₁ ps) :
    if startBitOf h264 p.payload then
      FragmentFits p (s.buf + 4 + fragmentBytes p)
        (Fits .packets (s.buf + 4 + fragmentBytes p) ps)
        (Fits (.fragments p.marker) (s.buf + 4 + fragmentBytes p) ps)
    else if p.marker then s.buf + 4 ≤ videoFrameCacheBytes else Fits .packets (s.buf + 4) ps := by
  have ht := parse_type (PktInfo.fresh h264 (unknown p)) (k := h264) hlen
  have hparse := parse_of_fu (PktInfo.fresh h264 (unknown p)) (k := h264) hlen hc
  rw [step_packets_fu hl (ht.trans hc), fuPacket, hparse] at hstep
  simp only at hstep
  split at hstep
  · rename_i hst
    rw [if_pos hst]
    rw [← hparse] at hstep
    obtain ⟨hbuf, hle, hl₁⟩ := fragment_inv hlen hc hstep
    have hbuf : s₁.buf = s.buf + 4 + fragmentBytes p := hbuf
    rw [← hbuf]
    exact fragmentFits_of_completes hl₁ hle (ht.trans hc) h₁ (ihp s₁) (ihf s₁)
  · rename_i hst
    rw [if_neg hst]
    cases hstep
    exact fits_of_strayFragment ihp h₁

theorem fits_packets_cons (hl : s.loop = .packets) (hp : p ∉ ps)
    (h : ∀ uninit, Completes uninit s (p :: ps)) : Fits .packets s.buf (p :: ps) := by
  unfold Fits
  by_cases hlen : p.payload.length < 2
  · rw [if_pos hlen]
    exact fits_of_short ihp hl hlen hp h
  · rw [if_neg hlen]
    have hlen : 2 ≤ p.payload.length := Nat.not_lt.mp hlen
    have ht := parse_type (PktInfo.fresh h264 (unknown p)) (k := h264) hlen
    obtain ⟨s₁, hs, h₁⟩ := exists_step hlen h
    have hstep := hs unknown
    cases hc : payloadTypeOf h264 p.payload with
    | stapA => exact fits_of_stapA ihp hl hlen hc hstep h₁
    | singleNalu =>
      rw [step_packets_singleNalu hl (ht.trans hc)] at hstep
      obtain ⟨hbuf, hl₁, hle⟩ := singleNalu_eq_ok hstep
      simp only
      rw [← hbuf]
      exact room_of_completes hl₁ hle h₁ (ihp s₁)
    | fu => exact fits_of_fu ihp ihf hl hlen hc hstep h₁
    | paci =>
      simp only [step, hl, ht.trans hc] at hstep
      cases hstep
      exact ihp s hl h₁
    | other =>
      simp only [step, hl, ht.trans hc] at hstep
      cases hstep
      exact ihp s hl h₁

theorem fits_fragments_cons {info : PktInfo} {pos size : ℕ} {marker : Bool}
    (hl : s.loop = .fragments info pos size marker) (ht : info.type = .fu)
    (h : ∀ uninit, Completes uninit s (p :: ps)) : Fits (.fragments marker) s.buf (p :: ps) := by
  have hlen : 2 ≤ p.payload.length := by
    by_contra hlt
    obtain ⟨s₁, hs, -⟩ := (h unknown).step_ok
    have hshort : info.parse h264 p.payload = info := parse_of_short _ (Nat.not_le.mp hlt)
    rw [step_fragments hl, hshort, if_pos ht] at hs
    have hle := (fragment_eq_ok hs).1
    exact hlt hle
  refine ⟨hlen, ?_⟩
  obtain ⟨s₁, hs, h₁⟩ := exists_step hlen h
  have hstep := hs unknown
  rw [step_fragments hl, parse_type info (k := h264) hlen] at hstep
  split at hstep
  · rename_i hc
    rw [if_pos hc]
    obtain ⟨hbuf, hle, hl₁⟩ := fragment_inv hlen hc hstep
    rw [← hbuf]
    exact fragmentFits_of_completes hl₁ hle ((parse_type info (k := h264) hlen).trans hc) h₁
      (ihp s₁) (ihf s₁)
  · rename_i hc
    rw [if_neg hc]
    cases hstep
    cases hm : p.marker with
    | true => exact .inl rfl
    | false =>
      exact .inr (ihp (s.endPacket p) (by simp only [Assembly.endPacket, hm]; rfl) h₁)

end Cases

/-- Packets that are put together for all types of a fresh info fit. -/
theorem fits_of_completes (hps : ps.Nodup) :
    (∀ s : Assembly, s.loop = .packets → (∀ uninit, Completes uninit s ps) →
        Fits .packets s.buf ps) ∧
      ∀ (s : Assembly) (info : PktInfo) (pos size : ℕ) (marker : Bool),
        s.loop = .fragments info pos size marker → info.type = .fu →
        (∀ uninit, Completes uninit s ps) → Fits (.fragments marker) s.buf ps := by
  induction ps with
  | nil =>
    refine ⟨fun _ _ _ ↦ trivial, ?_⟩
    intro s info pos size marker hl ht h
    obtain ⟨s', b, ha, hf, -⟩ := h unknown
    cases ha
    unfold Assembly.finish at hf
    rw [hl] at hf
    cases marker with
    | true => exact rfl
    | false => cases hf
  | cons p ps ih =>
    obtain ⟨hp, hps⟩ := List.nodup_cons.mp hps
    obtain ⟨ihp, ihf⟩ := ih hps
    exact ⟨fun s hl h ↦ fits_packets_cons ihp ihf hl hp h,
      fun s info pos size marker hl ht h ↦ fits_fragments_cons ihp ihf hl ht h⟩

end Exact

section Run

variable {e : Env} {r r' : Receiver} {p : RtpPacket} {ps : List RtpPacket} {t : BitVec 32}

theorem generate_iff_completes :
    (∃ x, generateH264RtmpMessage e r t ps = .ok x) ↔
      Completes e.uninit (.init r.videoFrameCache) ps := by
  constructor
  · rintro ⟨x, h⟩
    obtain ⟨s, ha, h⟩ := Outcome.bind_eq_ok.mp h
    obtain ⟨b, hf, h⟩ := Outcome.bind_eq_ok.mp h
    refine ⟨s, b, ha, hf, ?_⟩
    rintro rfl
    obtain ⟨bytes, hs, -⟩ := Outcome.bind_eq_ok.mp h
    by_contra hgt
    rw [slice_overread (by rw [s.cache.size_eq]; omega)] at hs
    cases hs
  · rintro ⟨s, b, ha, hf, hb⟩
    cases b with
    | false =>
      refine ⟨({ r with videoFrameCache := s.cache }, none), ?_⟩
      simp only [generateH264RtmpMessage, generateRtmpMessage, ha, hf, Outcome.ok_bind,
        Bool.false_eq_true, if_false, Outcome.pure_eq]
    | true =>
      have hle := hb rfl
      have hs := slice_ok (show 0 + s.buf ≤ s.cache.bytes.length by rw [s.cache.size_eq]; omega)
      simp only [generateH264RtmpMessage, generateRtmpMessage, ha, hf, hs, Outcome.ok_bind, if_true,
        Outcome.pure_eq]
      exact ⟨_, rfl⟩

theorem onPacket_eq (buf : PktsBuf) (p : RtpPacket) :
    RtpH264Depacketizer.onPacket buf p = takePacket buf p := rfl

theorem process_marker (hm : p.marker = true) :
    processH264Packet e r p =
      generateH264RtmpMessage e
        { r with pktsBuf := Function.update r.pktsBuf p.timestamp [] }
        ((getTimestamp (insertPacket p (r.pktsBuf p.timestamp)) - r.firstRtpVideoTs) / 90)
        (insertPacket p (r.pktsBuf p.timestamp)) := by
  unfold processH264Packet processPacket
  rw [show onPacket h264 r.pktsBuf p = _ from takePacket_marker hm]
  rfl

theorem process_noMarker (hm : p.marker = false) :
    processH264Packet e r p =
      .ok ({ r with
        pktsBuf := Function.update r.pktsBuf p.timestamp
          (insertPacket p (r.pktsBuf p.timestamp)) }, none) := by
  unfold processH264Packet processPacket
  rw [show onPacket h264 r.pktsBuf p = _ from takePacket_noMarker hm]
  rfl

theorem process_iff_completes :
    (∃ x, processH264Packet e r p = .ok x) ↔ (p.marker = true →
      Completes e.uninit (.init r.videoFrameCache) (insertPacket p (r.pktsBuf p.timestamp))) := by
  by_cases hm : p.marker = true
  · rw [process_marker hm, forall_prop_of_true hm]
    exact generate_iff_completes
  · rw [process_noMarker (Bool.eq_false_iff.mpr hm)]
    exact ⟨fun _ h ↦ absurd h hm, fun _ ↦ ⟨_, rfl⟩⟩

theorem generate_pktsBuf {pkts : List RtpPacket} {t : BitVec 32}
    {msg : Option Rtmp.Define.RtmpMessage}
    (h : generateH264RtmpMessage e r t pkts = .ok (r', msg)) : r'.pktsBuf = r.pktsBuf := by
  obtain ⟨s, -, h⟩ := Outcome.bind_eq_ok.mp h
  obtain ⟨b, -, h⟩ := Outcome.bind_eq_ok.mp h
  cases b with
  | false =>
    cases h
    rfl
  | true =>
    obtain ⟨bytes, -, h⟩ := Outcome.bind_eq_ok.mp h
    cases h
    rfl

theorem process_pktsBuf {msg : Option Rtmp.Define.RtmpMessage}
    (h : processH264Packet e r p = .ok (r', msg)) :
    r'.pktsBuf = (RtpH264Depacketizer.onPacket r.pktsBuf p).1 := by
  rw [onPacket_eq]
  by_cases hm : p.marker = true
  · rw [process_marker hm] at h
    rw [generate_pktsBuf h, takePacket_marker hm]
  · rw [process_noMarker (Bool.eq_false_iff.mpr hm)] at h
    cases h
    rw [takePacket_noMarker (Bool.eq_false_iff.mpr hm)]

def Listed (buf : PktsBuf) : Prop := ∀ ts, Ascending (·.seqnum.toNat) (buf ts)

theorem Listed.update {buf : PktsBuf} (h : Listed buf) (t : BitVec 32) {pkts : List RtpPacket}
    (hp : Ascending (·.seqnum.toNat) pkts) : Listed (Function.update buf t pkts) := by
  intro ts
  obtain rfl | hts := eq_or_ne ts t
  · rwa [Function.update_self]
  · rw [Function.update_of_ne hts]
    exact h ts

theorem Listed.onPacket {buf : PktsBuf} (h : Listed buf) (p : RtpPacket) :
    Listed (RtpH264Depacketizer.onPacket buf p).1 := by
  rw [onPacket_eq]
  by_cases hm : p.marker = true
  · rw [takePacket_marker hm]
    exact h.update p.timestamp .nil
  · rw [takePacket_noMarker (Bool.eq_false_iff.mpr hm)]
    exact h.update p.timestamp (h p.timestamp).insertNew

/-- One packet, for all that the code around the receiver can decide. -/
theorem process_iff_fits (h : Listed r.pktsBuf) :
    (∀ e, ∃ x, processH264Packet e r p = .ok x) ↔
      (p.marker = true → Fits .packets 0 (insertPacket p (r.pktsBuf p.timestamp))) := by
  have hasc : Ascending (·.seqnum.toNat) (insertPacket p (r.pktsBuf p.timestamp)) :=
    (h p.timestamp).insertNew
  have hnodup : (insertPacket p (r.pktsBuf p.timestamp)).Nodup :=
    hasc.imp fun hlt he ↦ by
      rw [he] at hlt
      exact lt_irrefl _ hlt
  constructor
  · intro hall hm
    exact (fits_of_completes hnodup).1 (.init r.videoFrameCache) rfl
      fun uninit ↦ process_iff_completes.mp (hall ⟨id, uninit⟩) hm
  · intro hfit e
    exact process_iff_completes.mpr fun hm ↦
      (completes_of_fits e.uninit _).1 (.init r.videoFrameCache) rfl (hfit hm)

/-- The packets of a peer, from a receiver without packets, never lead out of a
buffer, whatever an info holds before `parse`. -/
def ReassemblySafe (ps : List RtpPacket) : Prop :=
  ∀ (cache : FrameCache) (firstRtpVideoTs videoDts : BitVec 32) (inputs : List (Env × RtpPacket)),
    inputs.map Prod.snd = ps →
      ∃ r', run ⟨fun _ ↦ [], cache, firstRtpVideoTs, videoDts⟩ inputs = .ok r'

theorem run_of_framesFit {inputs : List (Env × RtpPacket)} (hl : Listed r.pktsBuf)
    (h : FramesFit r.pktsBuf (inputs.map Prod.snd)) : ∃ r', run r inputs = .ok r' := by
  induction inputs generalizing r with
  | nil => exact ⟨r, rfl⟩
  | cons i inputs ih =>
    obtain ⟨e, p⟩ := i
    obtain ⟨hfit, hrest⟩ := h
    obtain ⟨⟨r₁, msg⟩, hp⟩ := (process_iff_fits hl).mpr hfit e
    have hbuf := process_pktsBuf hp
    obtain ⟨r', hr⟩ := ih (r := r₁) (by rw [hbuf]; exact hl.onPacket p) (by rw [hbuf]; exact hrest)
    refine ⟨r', ?_⟩
    rw [run, hp]
    exact hr

theorem framesFit_of_run (hl : Listed r.pktsBuf)
    (h : ∀ inputs : List (Env × RtpPacket), inputs.map Prod.snd = ps → ∃ r', run r inputs = .ok r') :
    FramesFit r.pktsBuf ps := by
  induction ps generalizing r with
  | nil => trivial
  | cons p ps ih =>
    have hall : ∀ e, ∃ x, processH264Packet e r p = .ok x := by
      intro e
      obtain ⟨r', hr⟩ := h ((e, p) :: ps.map fun q ↦ (e, q)) (by
        rw [List.map_cons, List.map_map]
        exact congrArg (p :: ·) (List.map_id ps))
      obtain ⟨x, hx, -⟩ := Outcome.bind_eq_ok.mp hr
      exact ⟨x, hx⟩
    refine ⟨(process_iff_fits hl).mp hall, ?_⟩
    obtain ⟨⟨r₁, msg⟩, hp⟩ := hall ⟨id, unknown⟩
    have hbuf := process_pktsBuf hp
    rw [← hbuf]
    refine ih (by rw [hbuf]; exact hl.onPacket p) fun inputs hi ↦ ?_
    obtain ⟨r', hr⟩ := h ((⟨id, unknown⟩, p) :: inputs) (by rw [List.map_cons, hi])
    rw [run, hp, Outcome.ok_bind] at hr
    exact ⟨r', hr⟩

theorem listed_nil : Listed fun _ ↦ [] := fun _ ↦ .nil

theorem framesFit_of_reassemblySafe (h : ReassemblySafe ps) : FramesFit (fun _ ↦ []) ps := by
  let cache : FrameCache := ⟨List.replicate videoFrameCacheBytes 0, List.length_replicate⟩
  exact framesFit_of_run (r := ⟨fun _ ↦ [], cache, 0, 0⟩) listed_nil fun inputs hi ↦
    h cache 0 0 inputs hi

theorem reassemblySafe_iff (ps : List RtpPacket) :
    ReassemblySafe ps ↔ FramesFit (fun _ ↦ []) ps := by
  refine ⟨framesFit_of_reassemblySafe, fun h cache t d inputs hi ↦ ?_⟩
  subst hi
  exact run_of_framesFit (r := ⟨fun _ ↦ [], cache, t, d⟩) listed_nil h

/-- A unit that is cut off, and a first fragment at the end of the packets without a
marker or an end bit. -/
theorem reassemblySafe_fails :
    ¬ ReassemblySafe [⟨96, true, 1, 0, 0, [24, 0]⟩] ∧
      ¬ ReassemblySafe [⟨96, false, 2, 0, 0, [28, 0x81, 0]⟩, ⟨96, true, 1, 0, 0, [0, 0]⟩] := by
  constructor
  · intro h
    have hfit := (framesFit_of_reassemblySafe h).1 rfl
    obtain ⟨n, hu, -⟩ : ∃ n, Units [0] n ∧ _ := hfit
    generalize hd : ([0] : Bytes) = data at hu
    cases hu with
    | nil => cases hd
    | cons hs hn hne hu =>
      have hlen := congrArg List.length hd
      have hpos := List.length_pos_of_ne_nil hne
      rw [List.length_append, hs, List.length_singleton] at hlen
      omega
  · intro h
    have hfit := (framesFit_of_reassemblySafe h).2.1 rfl
    have hopen : false = true := hfit.2
    cases hopen

end Run

end MmsServer.Rtp.ReassemblySafety
