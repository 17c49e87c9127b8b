import MmsServer.Stun.AttrSpan

namespace MmsServer.Stun.DecodeSafety

open Lib.ByteReader Lib.Checked Lib.CheckedLoop Stun.Attr Stun.Msg Stun.AttrSpan

/-- The bytes left at the head of the attribute loop: behind attributes that are
accepted, fit, and are not a MESSAGE-INTEGRITY. -/
inductive Walk (data : Bytes) : Bytes → Prop
  | refl : Walk data data
  | skip {rest : Bytes} {t : AttrType} : Walk data rest → Front t rest →
      span (lengthAt rest) t ≤ rest.length → t ≠ .messageIntegrity →
      Walk data (rest.drop (span (lengthAt rest) t))

/-- The message at the head of the loop has no MESSAGE-INTEGRITY yet. -/
theorem decodeRound_eq_inl {msg msg' : StunMsg} {data rest : Bytes}
    (h : StunMsg.decodeRound (msg, data) = .ok (.inl (msg', rest))) :
    ∃ t, Front t data ∧ span (lengthAt data) t ≤ data.length ∧ t ≠ .messageIntegrity ∧
      rest = data.drop (span (lengthAt data) t) ∧ msg'.msgIntegrityAttr = none ∧
      msg.decodeAttr data = .ok (span (lengthAt data) t, msg') := by
  cases data with
  | nil => cases h
  | cons b data =>
    obtain ⟨⟨c, msg₁⟩, hd, hr⟩ := Outcome.bind_eq_ok.mp h
    obtain ⟨t, hf, rfl, hm, -⟩ := decodeAttr_eq_ok hd
    dsimp only at hr
    split at hr
    · cases hr
    · split at hr
      · cases hr
      · rename_i hs hi
        cases hr
        simp only [Option.isSome_iff_ne_none, ne_eq, not_not] at hi
        refine ⟨t, hf, by omega, ?_, rfl, hi, hd⟩
        rintro rfl
        simp [hi] at hm

theorem decodeRound_eq_inr {msg : StunMsg} {data : Bytes} {s : StunMsg × Bytes}
    (hm : msg.msgIntegrityAttr = none) (h : StunMsg.decodeRound (msg, data) = .ok (.inr s)) :
    data = [] ∧ s = (msg, []) ∨
      Front .messageIntegrity data ∧ ∃ msg', s = (msg', data.drop 24) ∧
        msg.decodeAttr data = .ok (24, msg') := by
  cases data with
  | nil =>
    cases h
    exact .inl ⟨rfl, rfl⟩
  | cons b data =>
    obtain ⟨⟨c, msg₁⟩, hd, hr⟩ := Outcome.bind_eq_ok.mp h
    obtain ⟨t, hf, rfl, hi, -⟩ := decodeAttr_eq_ok hd
    dsimp only at hr
    split at hr
    · cases hr
    · split at hr
      · rename_i hs hsome
        cases hr
        obtain rfl | hn := hi.mp hsome
        · exact .inr ⟨hf, msg₁, rfl, hd⟩
        · rw [hm] at hn
          cases hn
      · cases hr

theorem reaches_walk {msg msg' : StunMsg} {data rest : Bytes} (hm : msg.msgIntegrityAttr = none)
    (h : Reaches StunMsg.decodeRound (msg, data) (msg', rest)) :
    Walk data rest ∧ msg'.msgIntegrityAttr = none := by
  generalize hs : (msg', rest) = s at h
  induction h generalizing msg' rest with
  | refl =>
    cases hs
    exact ⟨.refl, hm⟩
  | step _ hb ih =>
    rename_i s₁ s₂ _
    subst hs
    obtain ⟨t, hf, hle, ht, rfl, hn, -⟩ := decodeRound_eq_inl hb
    exact ⟨.skip (ih rfl).1 hf hle ht, hn⟩

theorem decodeRound_of_ok {msg msg' : StunMsg} {data : Bytes} {c : ℕ}
    (hd : msg.decodeAttr data = .ok (c, msg')) :
    StunMsg.decodeRound (msg, data) =
      if data.length < c then .fault .wrap else
        if msg'.msgIntegrityAttr.isSome then .ok (.inr (msg', data.drop c))
        else .ok (.inl (msg', data.drop c)) := by
  obtain ⟨t, hf, -⟩ := decodeAttr_eq_ok hd
  cases data with
  | nil => exact absurd rfl hf.ne_nil
  | cons b data => simp only [StunMsg.decodeRound, hd, Outcome.ok_bind]

theorem decodeRound_of_err {msg : StunMsg} {data : Bytes} {code : ℤ}
    (hd : msg.decodeAttr data = .err code) : StunMsg.decodeRound (msg, data) = .err code := by
  cases data with
  | nil =>
    rw [decodeAttr_overread msg (by simp)] at hd
    cases hd
  | cons b data => simp only [StunMsg.decodeRound, hd, Outcome.err_bind]

theorem decodeRound_of_fault {msg : StunMsg} {data : Bytes} {f : Fault} (hne : data ≠ [])
    (hd : msg.decodeAttr data = .fault f) : StunMsg.decodeRound (msg, data) = .fault f := by
  cases data with
  | nil => exact absurd rfl hne
  | cons b data => simp only [StunMsg.decodeRound, hd, Outcome.fault_bind]

theorem decodeRound_skip {t : AttrType} {msg : StunMsg} {data : Bytes}
    (hm : msg.msgIntegrityAttr = none) (hf : Front t data)
    (hs : span (lengthAt data) t ≤ data.length) (ht : t ≠ .messageIntegrity) :
    ∃ msg', StunMsg.decodeRound (msg, data) =
        .ok (.inl (msg', data.drop (span (lengthAt data) t))) ∧ msg'.msgIntegrityAttr = none := by
  have hd := decodeAttr_front msg hf.1 hf.2.1
  obtain ⟨msg', ho⟩ := hd.accepts hf.2.2 hs
  have hi : msg'.msgIntegrityAttr = none := by
    simpa [ht, hm] using hd.integrity _ _ ho
  refine ⟨msg', ?_, hi⟩
  rw [decodeRound_of_ok ho, if_neg (by omega), hi]
  rfl

theorem walk_reaches (msg : StunMsg) {data rest : Bytes} (hm : msg.msgIntegrityAttr = none)
    (h : Walk data rest) :
    ∃ msg', Reaches StunMsg.decodeRound (msg, data) (msg', rest) ∧
      msg'.msgIntegrityAttr = none := by
  induction h with
  | refl => exact ⟨msg, .refl, hm⟩
  | skip _ hf hs ht ih =>
    obtain ⟨msg₁, hr, hm₁⟩ := ih
    obtain ⟨msg₂, hb, hm₂⟩ := decodeRound_skip hm₁ hf hs ht
    exact ⟨msg₂, hr.step hb, hm₂⟩

def Fits (rest : Bytes) : Prop :=
  2 ≤ rest.length ∧ ∀ t, Front t rest → span (lengthAt rest) t ≤ rest.length

theorem decodeAttr_of_fits (msg : StunMsg) {rest : Bytes} (h : Fits rest) :
    (∃ code, msg.decodeAttr rest = .err code) ∨
      ∃ t msg', Front t rest ∧ msg.decodeAttr rest = .ok (span (lengthAt rest) t, msg') := by
  obtain ⟨code, he⟩ | ⟨t, hf⟩ := front_cases msg h.1
  · exact .inl ⟨code, he⟩
  · obtain ⟨msg', ho⟩ := (decodeAttr_front msg hf.1 hf.2.1).accepts hf.2.2 (h.2 t hf)
    exact .inr ⟨t, msg', hf, ho⟩

theorem decodeRound_of_fits (msg : StunMsg) {rest : Bytes} (h : Fits rest) (f : Fault) :
    StunMsg.decodeRound (msg, rest) ≠ .fault f := by
  intro hb
  obtain ⟨code, he⟩ | ⟨t, msg', hf, ho⟩ := decodeAttr_of_fits msg h
  · rw [decodeRound_of_err he] at hb
    cases hb
  · have hs := h.2 t hf
    rw [decodeRound_of_ok ho, if_neg (by omega)] at hb
    split at hb <;> cases hb

/-- Bytes that do not fit make the round fail. -/
theorem decodeRound_of_not_fits (msg : StunMsg) {rest : Bytes} (hne : rest ≠ [])
    (h : ¬ Fits rest) : ∃ f, StunMsg.decodeRound (msg, rest) = .fault f := by
  by_cases h2 : 2 ≤ rest.length
  · simp only [Fits, h2, true_and, not_forall, Nat.not_le] at h
    obtain ⟨t, hf, hs⟩ := h
    obtain ⟨f, ho⟩ | ⟨msg', ho⟩ := (decodeAttr_front msg hf.1 hf.2.1).overruns hf.2.2 hs
    · exact ⟨f, decodeRound_of_fault hne ho⟩
    · exact ⟨.wrap, by rw [decodeRound_of_ok ho, if_pos hs]⟩
  · exact ⟨.overread, decodeRound_of_fault hne (decodeAttr_overread msg (by omega))⟩

/-- The attribute loop of `StunMsg::decode` ends, and each round returns or moves
on by at least one and at most all of the bytes left. -/
def AttributeLoopEnds (data : Bytes) : Prop :=
  ∀ header, StunMsgHeader.decode data = .ok header →
    (∃ fuel o, run StunMsg.decodeRound fuel ({ header }, data.drop 20) = some o) ∧
    ∀ msg rest, Reaches StunMsg.decodeRound ({ header }, data.drop 20) (msg, rest) →
      rest = [] ∨ (∃ code, msg.decodeAttr rest = .err code) ∨
        ∃ c msg', msg.decodeAttr rest = .ok (c, msg') ∧ 0 < c ∧ c ≤ rest.length

/-- No read of `StunMsg::decode` lies behind the end of the datagram and the
number of bytes left does not wrap. -/
def DecodeStaysInside (data : Bytes) : Prop :=
  ∀ fuel f, StunMsg.decode fuel data ≠ some (.fault f)

theorem attributeLoopEnds_iff (data : Bytes) :
    AttributeLoopEnds data ↔
      ∀ header, StunMsgHeader.decode data = .ok header → ∀ rest, Walk (data.drop 20) rest →
        rest = [] ∨ Fits rest ∧ ∀ t, Front t rest → ignored t = false := by
  constructor
  · intro h header hh rest hw
    obtain ⟨msg, hr, hm⟩ := walk_reaches { header } rfl hw
    by_cases hne : rest = []
    · exact .inl hne
    · right
      have hadv := ((h header hh).2 msg rest hr).resolve_left hne
      have hfits : Fits rest := by
        by_contra hn
        obtain ⟨f, hf⟩ := decodeRound_of_not_fits msg hne hn
        obtain ⟨code, he⟩ | ⟨c, msg', ho, hpos, hle⟩ := hadv
        · rw [decodeRound_of_err he] at hf
          cases hf
        · rw [decodeRound_of_ok ho, if_neg (by omega)] at hf
          split at hf <;> cases hf
      refine ⟨hfits, fun t hf ↦ ?_⟩
      obtain ⟨msg', ho⟩ := (decodeAttr_front msg hf.1 hf.2.1).accepts hf.2.2 (hfits.2 t hf)
      rw [ho] at hadv
      obtain ⟨code, he⟩ | ⟨c, msg₂, hc, hpos, -⟩ := hadv
      · cases he
      · cases hc
        exact (span_pos hf).mp hpos
  · intro h header hh
    have hadv : ∀ msg rest, Reaches StunMsg.decodeRound ({ header }, data.drop 20) (msg, rest) →
        rest = [] ∨ (∃ code, msg.decodeAttr rest = .err code) ∨
          ∃ c msg', msg.decodeAttr rest = .ok (c, msg') ∧ 0 < c ∧ c ≤ rest.length := by
      intro msg rest hr
      obtain hnil | ⟨hfits, hi⟩ := h header hh rest (reaches_walk rfl hr).1
      · exact .inl hnil
      · right
        obtain he | ⟨t, msg', hf, ho⟩ := decodeAttr_of_fits msg hfits
        · exact .inl he
        · exact .inr ⟨_, msg', ho, (span_pos hf).mpr (hi t hf), hfits.2 t hf⟩
    refine ⟨run_ends (fun s ↦ s.2.length) ?_, hadv⟩
    rintro ⟨msg, rest⟩ ⟨msg', rest'⟩ hr hb
    obtain ⟨t, hf, hle, -, rfl, -, ho⟩ := decodeRound_eq_inl hb
    obtain hnil | ⟨code, he⟩ | ⟨c, msg₂, ho', hpos, hc⟩ := hadv msg rest hr
    · exact absurd hnil hf.ne_nil
    · rw [he] at ho
      cases ho
    · rw [ho] at ho'
      cases ho'
      dsimp only
      rw [List.length_drop]
      omega

theorem attributeLoopEnds_fails :
    ¬ AttributeLoopEnds ([0, 1, 0, 4, 0x21, 0x12, 0xa4, 0x42] ++ List.replicate 12 0 ++
      [0, 2, 0, 0]) := by
  intro h
  have hh : StunMsgHeader.decode ([0, 1, 0, 4, 0x21, 0x12, 0xa4, 0x42] ++ List.replicate 12 0 ++
      [0, 2, 0, 0]) = .ok ⟨1#16, STUN_MAGIC_COOKIE, 0#96⟩ := by decide
  obtain ⟨⟨fuel, o, ho⟩, -⟩ := h _ hh
  rw [Reaches.run_stuck .refl (by decide)] at ho
  cases ho

theorem run_fault_of_not_fits (msg : StunMsg) {data rest : Bytes}
    (hm : msg.msgIntegrityAttr = none) (hw : Walk data rest) (hne : rest ≠ [])
    (hn : ¬ Fits rest) : ∃ fuel f, run StunMsg.decodeRound fuel (msg, data) = some (.fault f) := by
  obtain ⟨msg', hr, -⟩ := walk_reaches msg hm hw
  obtain ⟨f, hf⟩ := decodeRound_of_not_fits msg' hne hn
  obtain ⟨fuel, ho⟩ := hr.run_fault hf
  exact ⟨fuel, f, ho⟩

theorem decodeRound_integrity (msg : StunMsg) {rest : Bytes} (hf : Front .messageIntegrity rest) :
    StunMsg.decodeRound (msg, rest) =
      .ok (.inr ({ msg with msgIntegrityAttr := some ((rest.drop 4).take 20) }, rest.drop 24)) := by
  rw [decodeRound_of_ok (decodeAttr_messageIntegrity msg hf), if_neg (Nat.not_lt.mpr hf.2.2.2)]
  rfl

/-- Behind the loop the type of one more attribute is read. -/
theorem decodeTail_fault {msg : StunMsg} {rest : Bytes} :
    (∃ f, StunMsg.decodeTail (msg, rest) = .fault f) ↔ rest.length = 1 := by
  match rest with
  | [] => simp [StunMsg.decodeTail]
  | [b] => simp [StunMsg.decodeTail, load_overread (show [b].length < 0 + 2 by simp)]
  | b :: b' :: rest =>
    have h2 : 0 + 2 ≤ (b :: b' :: rest).length := by simp
    have hfp : ∀ f, (StunFingerPrintAttr.decode (b :: b' :: rest)).orReturn (-11) ≠ .fault f := by
      intro f hf
      obtain ⟨-, hd⟩ | ⟨-, hd⟩ := header_cases (b :: b' :: rest)
      · simp [StunFingerPrintAttr.decode, decodeNumber, hd] at hf
      · simp only [StunFingerPrintAttr.decode, decodeNumber, hd, Outcome.ok_bind] at hf
        split at hf
        · cases hf
        · rename_i hl
          rw [load_ok (by omega)] at hf
          split at hf <;> cases hf
    simp only [StunMsg.decodeTail, load_ok h2, Outcome.ok_bind, List.length_cons]
    split
    · cases hd : (StunFingerPrintAttr.decode (b :: b' :: rest)).orReturn (-11) with
      | ok r => simp
      | err code => simp
      | fault f => exact absurd hd (hfp f)
    · simp

theorem decode_eq {data : Bytes} {header : StunMsgHeader}
    (h : StunMsgHeader.decode data = .ok header) (fuel : ℕ) :
    StunMsg.decode fuel data =
      (run StunMsg.decodeRound fuel ({ header }, data.drop 20)).map (· >>= StunMsg.decodeTail) := by
  rw [StunMsg.decode, h]
  rfl

theorem decode_of_reaches {data rest : Bytes} {header : StunMsgHeader} {msg msg' : StunMsg}
    {s : StunMsg × Bytes} (hh : StunMsgHeader.decode data = .ok header)
    (hr : Reaches StunMsg.decodeRound ({ header }, data.drop 20) (msg, rest))
    (hb : StunMsg.decodeRound (msg, rest) = .ok (.inr s)) (ht : StunMsg.decodeTail s = .ok msg') :
    ∃ fuel, StunMsg.decode fuel data = some (.ok msg') := by
  obtain ⟨fuel, ho⟩ := hr.run_inr hb
  exact ⟨fuel, by rw [decode_eq hh, ho, Option.map_some, Outcome.ok_bind, ht]⟩

theorem header_decode_ne_fault (data : Bytes) (f : Fault) :
    StunMsgHeader.decode data ≠ .fault f := by
  intro h
  unfold StunMsgHeader.decode at h
  split at h
  · cases h
  · rename_i hl
    rw [load_ok (by omega), load_ok (by omega), load_ok (by omega)] at h
    simp only [Outcome.ok_bind] at h
    split at h
    · cases h
    · split at h <;> cases h

theorem decodeStaysInside_iff (data : Bytes) :
    DecodeStaysInside data ↔
      ∀ header, StunMsgHeader.decode data = .ok header → ∀ rest, Walk (data.drop 20) rest →
        rest = [] ∨ Fits rest ∧ (Front .messageIntegrity rest → (rest.drop 24).length ≠ 1) := by
  constructor
  · intro h header hh rest hw
    by_cases hne : rest = []
    · exact .inl hne
    · right
      constructor
      · by_contra hn
        obtain ⟨fuel, f, ho⟩ := run_fault_of_not_fits { header } rfl hw hne hn
        apply h fuel f
        rw [decode_eq hh, ho]
        rfl
      · intro hf h1
        obtain ⟨msg, hr, -⟩ := walk_reaches { header } rfl hw
        obtain ⟨fuel, ho⟩ := hr.run_inr (decodeRound_integrity msg hf)
        obtain ⟨f, ht⟩ := decodeTail_fault.mpr h1
        apply h fuel f
        rw [decode_eq hh, ho, Option.map_some, Outcome.ok_bind, ht]
  · intro h fuel f hf
    cases hh : StunMsgHeader.decode data with
    | err code =>
      rw [StunMsg.decode, hh] at hf
      cases hf
    | fault g => exact header_decode_ne_fault data g hh
    | ok header =>
      rw [decode_eq hh, Option.map_eq_some_iff] at hf
      obtain ⟨o, hrun, ho⟩ := hf
      obtain ⟨⟨msg, rest⟩, hr, hcase⟩ := run_eq_some hrun
      have hw := (reaches_walk rfl hr).1
      have hrest := h header hh rest hw
      obtain ⟨b, hb, rfl⟩ | ⟨code, -, rfl⟩ | ⟨g, hb, rfl⟩ := hcase
      · obtain ⟨-, rfl⟩ | ⟨hf, msg', rfl, -⟩ := decodeRound_eq_inr (reaches_walk rfl hr).2 hb
        · cases ho
        · have h1 := decodeTail_fault.mp ⟨f, ho⟩
          obtain rfl | ⟨-, hmi⟩ := hrest
          · exact hf.ne_nil rfl
          · exact hmi hf h1
      · cases ho
      · obtain rfl | ⟨hfits, -⟩ := hrest
        · cases hb
        · exact decodeRound_of_fits msg hfits g hb

theorem decodeStaysInside_fails :
    ¬ DecodeStaysInside ([0, 1, 0, 8, 0x21, 0x12, 0xa4, 0x42] ++ List.replicate 12 0 ++
      [0, 6, 0, 8, 97, 98, 99, 100]) :=
  fun h ↦ h 1 .overread (by decide)

end MmsServer.Stun.DecodeSafety
