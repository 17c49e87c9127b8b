import MmsServer.Rtp.Reassembly
import Mathlib.Algebra.Order.BigOperators.Group.List

namespace MmsServer.Rtp.Charge

open Lib.ByteReader Lib.Checked Packer Depacketizer Assembler Format Reassembly

variable {k : Codec} {uninit : RtpPacket → ℕ × ℕ} {s s' : Assembly} {p : RtpPacket}
  {ps : List RtpPacket} {info : PktInfo} {pos size : ℕ} {marker : Bool}

theorem fragment_eq_ok (h : fragment k s info pos size p = .ok s') :
    k.fuHeader ≤ p.payload.length ∧ s'.buf = s.buf + (piece k info.startBit p.payload).length ∧
      s'.loop =
        (if info.endBit then if p.marker then .returned else .packets
        else .fragments info pos (size + (piece k info.startBit p.payload).length) p.marker) ∧
      s'.buf ≤ videoFrameCacheBytes := by
  unfold fragment at h
  split at h
  · cases h
  · rename_i hp
    obtain ⟨s₁, hput, h⟩ := Outcome.bind_eq_ok.mp h
    obtain ⟨hbuf, -, hle⟩ := put_eq_ok hput
    refine ⟨Nat.not_lt.mp hp, ?_⟩
    split at h
    · rename_i he
      obtain ⟨c, -, h⟩ := Outcome.bind_eq_ok.mp h
      cases h
      exact ⟨hbuf, (if_pos he).symm, hle⟩
    · rename_i he
      cases h
      exact ⟨hbuf, (if_neg he).symm, hle⟩

theorem singleNalu_eq_ok (h : singleNalu k s info p = .ok s') :
    s'.buf = s.buf + (4 + p.payload.length) ∧
      s'.loop = (if p.marker then .returned else .packets) ∧ s'.buf ≤ videoFrameCacheBytes := by
  obtain ⟨s₁, hput, h⟩ := Outcome.bind_eq_ok.mp h
  obtain ⟨s₂, hput', h⟩ := Outcome.bind_eq_ok.mp h
  cases h
  have h₁ := (put_eq_ok hput).1
  obtain ⟨h₂, -, hle⟩ := put_eq_ok hput'
  rw [putBE_length] at h₁
  refine ⟨?_, rfl, hle⟩
  change s₂.buf = _
  rw [h₂, h₁, Nat.add_assoc]

/-- The loop over the fragments is left at a packet of another type. -/
def InFu : Loop → Prop
  | .fragments info _ _ _ => info.type = .fu
  | _ => True

/-- Where the iterator can be behind a packet: the message is returned only at a
packet with the marker. -/
def Behind (p : RtpPacket) : Loop → Prop
  | .packets => True
  | .fragments info _ _ marker => info.type = .fu ∧ marker = p.marker
  | .returned => p.marker = true

theorem Behind.inFu {l : Loop} (h : Behind p l) : InFu l := by
  cases l with
  | packets => trivial
  | fragments info pos size marker => exact h.1
  | returned => trivial

theorem behind_endPacket {l : Loop} (h : l = if p.marker then .returned else .packets) :
    Behind p l := by
  rw [h]
  split
  · assumption
  · trivial

theorem behind_fragment (h : fragment k s info pos size p = .ok s') (ht : info.type = .fu) :
    Behind p s'.loop := by
  obtain ⟨-, -, hl, -⟩ := fragment_eq_ok h
  split at hl
  · exact behind_endPacket hl
  · rw [hl]
    exact ⟨ht, rfl⟩

theorem step_behind (h : step k uninit s p = .ok s') (hs : s.loop ≠ .returned) :
    Behind p s'.loop := by
  cases hloop : s.loop with
  | returned => exact absurd hloop hs
  | fragments info pos size marker =>
    rw [step_fragments hloop] at h
    split at h
    · exact behind_fragment h ‹_›
    · cases h
      exact behind_endPacket rfl
  | packets =>
    simp only [step, hloop] at h
    split at h
    · obtain ⟨s₁, -, h⟩ := Outcome.bind_eq_ok.mp h
      cases h
      exact behind_endPacket rfl
    · exact behind_endPacket (singleNalu_eq_ok h).2.1
    · unfold fuPacket at h
      split at h
      · exact behind_fragment h ‹_›
      · cases h
        exact behind_endPacket rfl
    · cases h
      rw [hloop]
      trivial

/-- Types that no receiver knows, in an info that is not initialised. -/
def unknown : RtpPacket → ℕ × ℕ := fun _ ↦ (0, 255)

/-- Bytes that may be in the frame before the packets that pay for them. -/
def credit : Loop → ℕ
  | .packets => 0
  | .fragments _ _ _ _ => 3
  | .returned => 3

/-- What a packet pays for. A first fragment leaves three bytes of the length to
the last fragment, and a packet that the receiver skips can pay them. -/
def charge (k : Codec) (payload : Bytes) : ℕ :=
  if payload.length < k.fuHeader then 0
  else
    let tail := if endBitOf k payload then 3 else 0
    match payloadTypeOf k payload with
    | .singleNalu => 4 + payload.length
    | .fu =>
      if startBitOf k payload then payload.length + tail
      else max 4 (payload.length - k.fuHeader + tail)
    | _ => 3

def charges (k : Codec) (ps : List RtpPacket) : ℕ := (ps.map fun p ↦ charge k p.payload).sum

section Format

variable (F : NaluFormat)

theorem piece_length (start : Bool) {payload : Bytes} (h : F.codec.fuHeader ≤ payload.length) :
    (piece F.codec start payload).length =
      if start then payload.length - 1 else payload.length - F.codec.fuHeader := by
  have heq := F.fuHeader_eq
  cases start with
  | true =>
    rw [piece, if_pos rfl, if_pos rfl, List.length_append, F.header_length, List.length_drop]
    omega
  | false => rw [piece, if_neg (by decide), if_neg (by decide), List.nil_append, List.length_drop]

theorem charge_fu {payload : Bytes} (h : F.codec.fuHeader ≤ payload.length)
    (ht : payloadTypeOf F.codec payload = .fu) :
    charge F.codec payload =
      if startBitOf F.codec payload then
        payload.length + (if endBitOf F.codec payload then 3 else 0)
      else max 4 (payload.length - F.codec.fuHeader + if endBitOf F.codec payload then 3 else 0) := by
  simp only [charge, if_neg (Nat.not_lt.mpr h), ht]

theorem charge_singleNalu {payload : Bytes} (h : F.codec.fuHeader ≤ payload.length)
    (ht : payloadTypeOf F.codec payload = .singleNalu) :
    charge F.codec payload = 4 + payload.length := by
  simp only [charge, if_neg (Nat.not_lt.mpr h), ht]

theorem charge_of_ne_fu {payload : Bytes} (h : F.codec.fuHeader ≤ payload.length)
    (ht : payloadTypeOf F.codec payload ≠ .fu) : 3 ≤ charge F.codec payload := by
  simp only [charge, if_neg (Nat.not_lt.mpr h)]
  split
  · omega
  · contradiction
  · exact le_rfl

theorem credit_le (l : Loop) : credit l ≤ 3 := by
  cases l with
  | packets => exact Nat.zero_le 3
  | fragments info pos size marker => exact le_rfl
  | returned => exact le_rfl

/-- A fragment whose NAL unit has its length in the frame already. -/
theorem fragment_charge (h : fragment F.codec s (info.parse F.codec p.payload) pos size p = .ok s')
    (ht : (info.parse F.codec p.payload).type = .fu) :
    s'.buf + 3 ≤ s.buf + credit s'.loop + charge F.codec p.payload := by
  obtain ⟨hlen, hbuf, hl, -⟩ := fragment_eq_ok h
  have heq := F.fuHeader_eq
  rw [parse_type info hlen] at ht
  rw [parse_of_fu info hlen ht] at hbuf hl
  rw [piece_length F _ hlen] at hbuf
  rw [charge_fu F hlen ht]
  simp only at hbuf hl
  cases he : endBitOf F.codec p.payload with
  | true =>
    simp only [if_true]
    split at hbuf <;> split <;> first | contradiction | omega
  | false =>
    have hcredit : credit s'.loop = 3 := by
      rw [hl, he]
      rfl
    simp only [Bool.false_eq_true, if_false]
    split at hbuf <;> split <;> first | contradiction | omega

/-- The first fragment of a NAL unit, for which the length is left out now. -/
theorem fuPacket_charge
    (h : fuPacket F.codec s (info.parse F.codec p.payload) p = .ok s')
    (hlen : F.codec.fuHeader ≤ p.payload.length) (ht : payloadTypeOf F.codec p.payload = .fu) :
    s'.buf ≤ s.buf + credit s'.loop + charge F.codec p.payload := by
  unfold fuPacket at h
  split at h
  · rename_i hs
    obtain ⟨-, hbuf, hl, -⟩ := fragment_eq_ok h
    rw [parse_of_fu info hlen ht] at hbuf hl hs
    rw [piece_length F _ hlen] at hbuf
    rw [charge_fu F hlen ht]
    simp only at hbuf hl hs
    rw [if_pos hs] at hbuf ⊢
    have heq := F.fuHeader_eq
    have hbuf' : s'.buf = s.buf + 4 + (p.payload.length - 1) := hbuf
    cases he : endBitOf F.codec p.payload with
    | true =>
      simp only [if_true]
      omega
    | false =>
      have hcredit : credit s'.loop = 3 := by
        rw [hl, he]
        rfl
      omega
  · rename_i hs
    cases h
    rw [parse_of_fu info hlen ht] at hs
    rw [charge_fu F hlen ht, if_neg hs]
    change s.buf + 4 ≤ _
    omega

theorem step_charge (hn : payloadTypeOf F.codec p.payload ≠ .stapA) (hs : InFu s.loop)
    (h : step F.codec unknown s p = .ok s') :
    s'.buf + credit s.loop ≤ s.buf + credit s'.loop + charge F.codec p.payload := by
  cases hloop : s.loop with
  | returned =>
    rw [step_returned hloop] at h
    cases h
    rw [hloop]
    omega
  | fragments info pos size marker =>
    rw [step_fragments hloop] at h
    split at h
    · exact fragment_charge F h ‹_›
    · rename_i ht
      rw [hloop] at hs
      cases h
      have hlen : F.codec.fuHeader ≤ p.payload.length := by
        by_contra hlen
        rw [parse_of_short info (Nat.not_le.mp hlen)] at ht
        exact ht hs
      rw [parse_type info hlen] at ht
      have hc := charge_of_ne_fu F hlen ht
      change s.buf + 3 ≤ s.buf + _ + _
      omega
  | packets =>
    by_cases hlen : F.codec.fuHeader ≤ p.payload.length
    · have ht := parse_type (PktInfo.fresh F.codec (unknown p)) hlen
      cases hc : payloadTypeOf F.codec p.payload with
      | stapA => exact absurd hc hn
      | singleNalu =>
        rw [step_packets_singleNalu hloop (ht.trans hc)] at h
        rw [(singleNalu_eq_ok h).1, charge_singleNalu F hlen hc]
        change _ + 0 ≤ _
        omega
      | fu =>
        rw [step_packets_fu hloop (ht.trans hc)] at h
        exact fuPacket_charge F h hlen hc
      | paci =>
        simp only [step, hloop, ht.trans hc] at h
        cases h
        rw [hloop]
        omega
      | other =>
        simp only [step, hloop, ht.trans hc] at h
        cases h
        rw [hloop]
        omega
    · have ht : ((PktInfo.fresh F.codec (unknown p)).parse F.codec p.payload).type = .other := by
        rw [parse_of_short _ (Nat.not_le.mp hlen)]
        exact F.unknown_type
      simp only [step, hloop, ht] at h
      cases h
      rw [hloop]
      omega

theorem step_inFu (hs : InFu s.loop) (h : step k uninit s p = .ok s') : InFu s'.loop := by
  by_cases hr : s.loop = .returned
  · rw [step_returned hr] at h
    cases h
    exact hs
  · exact (step_behind h hr).inFu

/-- The packets of a run pay for the frame. -/
theorem assemble_charge (hn : ∀ p ∈ ps, payloadTypeOf F.codec p.payload ≠ .stapA)
    (hs : InFu s.loop) (h : assemble F.codec unknown s ps = .ok s') :
    InFu s'.loop ∧
      s'.buf + credit s.loop ≤ s.buf + credit s'.loop + charges F.codec ps := by
  induction ps generalizing s with
  | nil =>
    cases h
    exact ⟨hs, by omega⟩
  | cons p ps ih =>
    obtain ⟨s₁, h₁, h⟩ := Outcome.bind_eq_ok.mp h
    have hc := step_charge F (hn p List.mem_cons_self) hs h₁
    obtain ⟨hi, hle⟩ := ih (fun q hq ↦ hn q (List.mem_cons_of_mem p hq)) (step_inFu hs h₁) h
    refine ⟨hi, ?_⟩
    rw [charges, List.map_cons, List.sum_cons]
    unfold charges at hle
    omega

/-- A first fragment leads to the loop over the fragments. -/
theorem step_opens (hlen : F.codec.fuHeader ≤ p.payload.length)
    (ht : payloadTypeOf F.codec p.payload = .fu) (hst : startBitOf F.codec p.payload = true)
    (he : endBitOf F.codec p.payload = false) (hs : s.loop ≠ .returned)
    (h : step F.codec uninit s p = .ok s') :
    ∃ info pos size, s'.loop = .fragments info pos size p.marker := by
  have hfrag : ∀ {s₁ : Assembly} {info : PktInfo} {pos size : ℕ},
      fragment F.codec s₁ (info.parse F.codec p.payload) pos size p = .ok s' →
      ∃ info pos size, s'.loop = .fragments info pos size p.marker := by
    intro s₁ info pos size hf
    obtain ⟨-, -, hl, -⟩ := fragment_eq_ok hf
    rw [parse_of_fu info hlen ht, he] at hl
    exact ⟨_, _, _, hl⟩
  cases hloop : s.loop with
  | returned => exact absurd hloop hs
  | fragments info pos size marker =>
    rw [step_fragments hloop, if_pos ((parse_type info hlen).trans ht)] at h
    exact hfrag h
  | packets =>
    rw [step_packets_fu hloop ((parse_type _ hlen).trans ht), fuPacket,
      if_pos (by rw [parse_of_fu _ hlen ht]; exact hst)] at h
    exact hfrag h

/-- In the loop over the fragments the first packet of another NAL unit loses
at least a byte. -/
theorem step_loss (hlen : F.codec.fuHeader ≤ p.payload.length)
    (ht : payloadTypeOf F.codec p.payload = .singleNalu ∨ payloadTypeOf F.codec p.payload = .fu ∧
      startBitOf F.codec p.payload = true ∧ endBitOf F.codec p.payload = false)
    (hs : s.loop = .fragments info pos size marker) (h : step F.codec uninit s p = .ok s') :
    s'.buf + 4 ≤ s.buf + credit s'.loop + charge F.codec p.payload := by
  rw [step_fragments hs] at h
  obtain ht | ⟨ht, hst, he⟩ := ht
  · rw [if_neg (by rw [parse_type info hlen, ht]; decide)] at h
    cases h
    rw [charge_singleNalu F hlen ht]
    change s.buf + 4 ≤ s.buf + _ + _
    omega
  · rw [if_pos ((parse_type info hlen).trans ht)] at h
    obtain ⟨-, hbuf, hl, -⟩ := fragment_eq_ok h
    rw [parse_of_fu info hlen ht] at hbuf hl
    rw [piece_length F _ hlen] at hbuf
    simp only [hst, he, if_true, Bool.false_eq_true, if_false] at hbuf hl
    have hcredit : credit s'.loop = 3 := by
      rw [hl]
      rfl
    have heq := F.fuHeader_eq
    rw [charge_fu F hlen ht, if_pos hst, he]
    simp only [Bool.false_eq_true, if_false]
    omega

end Format

section Markers

theorem assemble_returned (h : s.loop = .returned) : assemble k uninit s ps = .ok s := by
  induction ps with
  | nil => rfl
  | cons p ps ih => rw [assemble_cons (step_returned h), ih]

theorem finish_eq_true (h : s.finish = .ok true) :
    s.loop = .returned ∨ ∃ info pos size, s.loop = .fragments info pos size true := by
  unfold Assembly.finish at h
  split at h
  · exact .inl ‹_›
  · cases h
  · split at h
    · rename_i hm
      subst hm
      exact .inr ⟨_, _, _, ‹_›⟩
    · cases h

/-- Without a marker no message is returned. -/
theorem assemble_noMarker (hm : ∀ p ∈ ps, p.marker = false) (hs : s.loop ≠ .returned)
    (h : assemble k uninit s ps = .ok s') :
    s'.loop ≠ .returned ∧ (ps ≠ [] → s'.finish ≠ .ok true) := by
  induction ps generalizing s with
  | nil =>
    cases h
    exact ⟨hs, fun hne ↦ absurd rfl hne⟩
  | cons p ps ih =>
    obtain ⟨s₁, h₁, h⟩ := Outcome.bind_eq_ok.mp h
    have hp := hm p List.mem_cons_self
    have hb := step_behind h₁ hs
    have hr : s₁.loop ≠ .returned := by
      intro hr
      rw [hr, Behind, hp] at hb
      cases hb
    obtain ⟨hr', hf⟩ := ih (fun q hq ↦ hm q (List.mem_cons_of_mem p hq)) hr h
    refine ⟨hr', fun _ hfin ↦ ?_⟩
    by_cases hps : ps = []
    · subst hps
      cases h
      obtain hl | ⟨info, pos, size, hl⟩ := finish_eq_true hfin
      · exact hr hl
      · rw [hl] at hb
        cases hb.2.trans hp
    · exact hf hps hfin

end Markers

section Frames

variable {F : NaluFormat} {cache : FrameCache} {as bs : List RtpPacket}

theorem charges_append (k : Codec) (ps qs : List RtpPacket) :
    charges k (ps ++ qs) = charges k ps + charges k qs := by
  simp only [charges, List.map_append, List.sum_append]

theorem charges_cons (k : Codec) (p : RtpPacket) (ps : List RtpPacket) :
    charges k (p :: ps) = charge k p.payload + charges k ps := by
  simp only [charges, List.map_cons, List.sum_cons]

theorem charge_le_charges {k : Codec} (h : p ∈ ps) : charge k p.payload ≤ charges k ps :=
  List.single_le_sum (fun _ _ ↦ Nat.zero_le _) _ (List.mem_map_of_mem h)

/-- The frame that is returned at the only marker holds no packet behind it. -/
theorem buf_le_of_marker (hn : ∀ q ∈ as ++ p :: bs, payloadTypeOf F.codec q.payload ≠ .stapA)
    (has : ∀ q ∈ as, q.marker = false) (hbs : ∀ q ∈ bs, q.marker = false) (hne : bs ≠ [])
    (ha : assemble F.codec unknown (.init cache) (as ++ p :: bs) = .ok s)
    (hfin : s.finish = .ok true) :
    s.buf ≤ charges F.codec as + charge F.codec p.payload + 3 := by
  rw [assemble_append] at ha
  obtain ⟨s₁, h₁, ha⟩ := Outcome.bind_eq_ok.mp ha
  obtain ⟨s₂, h₂, ha⟩ := Outcome.bind_eq_ok.mp ha
  have hr₁ := (assemble_noMarker has (by intro h; cases h) h₁).1
  by_cases hr₂ : s₂.loop = .returned
  · rw [assemble_returned hr₂] at ha
    cases ha
    obtain ⟨hi, hle⟩ := assemble_charge F (fun q hq ↦ hn q (List.mem_append_left _ hq))
      (show InFu (Assembly.init cache).loop from trivial) h₁
    have hle' := step_charge F (hn p (List.mem_append_right _ List.mem_cons_self)) hi h₂
    have hcredit := credit_le s.loop
    change s₁.buf + 0 ≤ 0 + credit s₁.loop + _ at hle
    omega
  · exact absurd hfin ((assemble_noMarker hbs hr₂ ha).2 hne)

/-- A NAL unit without an end bit costs the next one a byte. -/
theorem buf_lt_of_startOnly {q : RtpPacket}
    (hn : ∀ x ∈ as ++ p :: q :: bs, payloadTypeOf F.codec x.payload ≠ .stapA)
    (has : ∀ x ∈ as, x.marker = false) (hp : F.codec.fuHeader ≤ p.payload.length)
    (hpt : payloadTypeOf F.codec p.payload = .fu) (hps : startBitOf F.codec p.payload = true)
    (hpe : endBitOf F.codec p.payload = false) (hq : F.codec.fuHeader ≤ q.payload.length)
    (hqt : payloadTypeOf F.codec q.payload = .singleNalu ∨ payloadTypeOf F.codec q.payload = .fu ∧
      startBitOf F.codec q.payload = true ∧ endBitOf F.codec q.payload = false)
    (ha : assemble F.codec unknown (.init cache) (as ++ p :: q :: bs) = .ok s) :
    s.buf < charges F.codec (as ++ p :: q :: bs) + 3 := by
  rw [assemble_append] at ha
  obtain ⟨s₁, h₁, ha⟩ := Outcome.bind_eq_ok.mp ha
  obtain ⟨s₂, h₂, ha⟩ := Outcome.bind_eq_ok.mp ha
  obtain ⟨s₃, h₃, ha⟩ := Outcome.bind_eq_ok.mp ha
  have hn' : ∀ x ∈ p :: q :: bs, payloadTypeOf F.codec x.payload ≠ .stapA :=
    fun x hx ↦ hn x (List.mem_append_right as hx)
  have hr₁ := (assemble_noMarker has (by intro h; cases h) h₁).1
  obtain ⟨hi₁, hle₁⟩ := assemble_charge F (fun x hx ↦ hn x (List.mem_append_left _ hx))
    (show InFu (Assembly.init cache).loop from trivial) h₁
  have hle₂ := step_charge F (hn' p List.mem_cons_self) hi₁ h₂
  obtain ⟨info, pos, size, hl₂⟩ := step_opens F hp hpt hps hpe hr₁ h₂
  have hcredit₂ : credit s₂.loop = 3 := by rw [hl₂]; rfl
  have hle₃ := step_loss F hq hqt hl₂ h₃
  obtain ⟨-, hle⟩ := assemble_charge F
    (fun x hx ↦ hn' x (List.mem_cons_of_mem p (List.mem_cons_of_mem q hx)))
    (step_inFu (step_inFu hi₁ h₂) h₃) ha
  have hcredit := credit_le s.loop
  rw [charges_append, charges_cons, charges_cons]
  change s₁.buf + 0 ≤ 0 + credit s₁.loop + _ at hle₁
  omega

end Frames

end MmsServer.Rtp.Charge
