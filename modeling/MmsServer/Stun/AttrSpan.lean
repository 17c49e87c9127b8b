import MmsServer.Stun.Msg

namespace MmsServer.Stun.AttrSpan

open Lib.ByteReader Lib.Checked Stun.Attr Stun.Msg

def typeAt (data : Bytes) : Option AttrType := AttrType.ofCode (fromBE (data.take 2))

def lengthAt (data : Bytes) : ℕ := fromBE ((data.drop 2).take 2)

/-- The types with an empty case in `StunMsg::decode`. -/
def ignored : AttrType → Bool
  | .responseAddress | .changeRequest | .sourceAddress | .changedAddress | .password
  | .errorCode | .unknownAttributes | .reflectedFrom => true
  | _ => false

/-- What the decoder of a type asks of the length field and of the number of
bytes left. -/
def admits (length len : ℕ) : AttrType → Prop
  | .mappedAddress => 12 ≤ len
  | .username => 4 < len
  | .messageIntegrity => length = 20 ∧ 24 ≤ len
  | .googNetworkInfo => length = 4 ∧ 4 < len
  | .icePriority => length = 4 ∧ 8 ≤ len
  | .iceUseCandidate => 4 ≤ len
  | .iceControlled | .iceControlling => length = 8 ∧ 8 ≤ len
  | .software => 4 + length ≤ len
  | .fingerprint => False
  | _ => True

def span (length : ℕ) : AttrType → ℕ
  | .mappedAddress => 12
  | .username => 4 + pad4 length
  | .messageIntegrity => 24
  | .googNetworkInfo | .icePriority => 8
  | .iceUseCandidate => 4
  | .iceControlled | .iceControlling => 12
  | .software => 4 + length
  | _ => 0

/-- The bytes start with an attribute of type `t` that its decoder accepts. -/
def Front (t : AttrType) (data : Bytes) : Prop :=
  2 ≤ data.length ∧ typeAt data = some t ∧ admits (lengthAt data) data.length t

theorem Front.ne_nil {t : AttrType} {data : Bytes} (h : Front t data) : data ≠ [] := by
  rintro rfl
  have h2 := h.1
  simp at h2

theorem span_pos {t : AttrType} {data : Bytes} (h : Front t data) :
    0 < span (lengthAt data) t ↔ ignored t = false := by
  obtain ⟨-, -, ha⟩ := h
  cases t <;> simp_all [span, ignored, admits]

structure Decodes {α : Type} (t : AttrType) (decode : Bytes → Outcome (ℕ × α)) : Prop where
  rejects : ∀ data, ¬ admits (lengthAt data) data.length t → ∃ code, decode data = .err code
  accepts : ∀ data, admits (lengthAt data) data.length t →
    span (lengthAt data) t ≤ data.length → ∃ a, decode data = .ok (span (lengthAt data) t, a)
  overruns : ∀ data, admits (lengthAt data) data.length t →
    data.length < span (lengthAt data) t →
      (∃ f, decode data = .fault f) ∨ ∃ a, decode data = .ok (span (lengthAt data) t, a)

theorem decodeHeader_ok {data : Bytes} (h : 4 ≤ data.length) :
    decodeHeader data = .ok (lengthAt data) := by
  rw [decodeHeader, if_neg (by omega), load_ok (by omega), lengthAt]

theorem decodeHeader_err {data : Bytes} (h : data.length < 4) :
    decodeHeader data = .err (-1) := if_pos h

/-- A decoder looks at the length field first. -/
theorem header_cases (data : Bytes) :
    data.length < 4 ∧ (decodeHeader data).orReturn (-1) = .err (-1) ∨
      4 ≤ data.length ∧ (decodeHeader data).orReturn (-1) = .ok (lengthAt data) := by
  by_cases h : data.length < 4
  · exact .inl ⟨h, by rw [decodeHeader_err h]; rfl⟩
  · exact .inr ⟨by omega, by rw [decodeHeader_ok (by omega)]; rfl⟩

theorem mappedAddress_decodes : Decodes .mappedAddress StunMappedAddressAttr.decode where
  rejects data h := by
    simp only [admits] at h
    obtain ⟨-, hd⟩ | ⟨hl, hd⟩ := header_cases data
    · exact ⟨-1, by simp [StunMappedAddressAttr.decode, hd]⟩
    · exact ⟨-2, by simp [StunMappedAddressAttr.decode, hd, show data.length - 4 < 8 by omega]⟩
  accepts data h _ := by
    simp only [admits] at h
    obtain ⟨hl, -⟩ | ⟨-, hd⟩ := header_cases data
    · omega
    · exact ⟨_, by
        simp [StunMappedAddressAttr.decode, hd, show ¬ data.length - 4 < 8 by omega,
          load_ok (show 5 + 1 ≤ data.length by omega), load_ok (show 6 + 2 ≤ data.length by omega),
          load_ok (show 8 + 4 ≤ data.length by omega), span]; rfl⟩
  overruns data h hs := by
    simp only [admits, span] at h hs
    omega

theorem username_decodes : Decodes .username StunUsernameAttr.decode where
  rejects data h := by
    simp only [admits] at h
    obtain ⟨-, hd⟩ | ⟨hl, hd⟩ := header_cases data
    · exact ⟨-1, by simp [StunUsernameAttr.decode, hd]⟩
    · exact ⟨-2, by simp [StunUsernameAttr.decode, hd, show data.length - 4 = 0 by omega]⟩
  accepts data h hs := by
    simp only [admits, span] at h hs
    obtain ⟨hl, -⟩ | ⟨-, hd⟩ := header_cases data
    · omega
    · have hp := le_pad4 (lengthAt data)
      exact ⟨_, by
        simp [StunUsernameAttr.decode, hd, show data.length - 4 ≠ 0 by omega,
          slice_ok (show 4 + lengthAt data ≤ data.length by omega), span]; rfl⟩
  overruns data h hs := by
    simp only [admits] at h
    obtain ⟨hl, -⟩ | ⟨-, hd⟩ := header_cases data
    · omega
    · by_cases hn : 4 + lengthAt data ≤ data.length
      · right
        exact ⟨_, by
          simp [StunUsernameAttr.decode, hd, show data.length - 4 ≠ 0 by omega, slice_ok hn,
            span]; rfl⟩
      · left
        exact ⟨.overread, by
          simp [StunUsernameAttr.decode, hd, show data.length - 4 ≠ 0 by omega,
            slice_overread (show data.length < 4 + lengthAt data by omega)]⟩

theorem messageIntegrity_decodes :
    Decodes .messageIntegrity StunMessageIntegrityAttr.decode where
  rejects data h := by
    simp only [admits] at h
    obtain ⟨-, hd⟩ | ⟨hl, hd⟩ := header_cases data
    · exact ⟨-1, by simp [StunMessageIntegrityAttr.decode, hd]⟩
    · by_cases hlen : lengthAt data = 20
      · exact ⟨-3, by
          simp [StunMessageIntegrityAttr.decode, hd, hlen, show data.length - 4 < 20 by omega]⟩
      · exact ⟨-2, by simp [StunMessageIntegrityAttr.decode, hd, hlen]⟩
  accepts data h _ := by
    obtain ⟨hlen, h⟩ := h
    obtain ⟨hl, -⟩ | ⟨-, hd⟩ := header_cases data
    · omega
    · exact ⟨_, by
        simp [StunMessageIntegrityAttr.decode, hd, hlen, show ¬ data.length - 4 < 20 by omega,
          slice_ok (show 4 + 20 ≤ data.length by omega), span]; rfl⟩
  overruns data h hs := by
    simp only [admits, span] at h hs
    omega

theorem googNetworkInfo_decodes : Decodes .googNetworkInfo StunGoogNetworkInfoAttr.decode where
  rejects data h := by
    simp only [admits] at h
    obtain ⟨-, hd⟩ | ⟨hl, hd⟩ := header_cases data
    · exact ⟨-1, by simp [StunGoogNetworkInfoAttr.decode, hd]⟩
    · by_cases hz : data.length - 4 = 0
      · exact ⟨-2, by simp [StunGoogNetworkInfoAttr.decode, hd, hz]⟩
      · exact ⟨-3, by
          simp [StunGoogNetworkInfoAttr.decode, hd, hz, show lengthAt data ≠ 4 by omega]⟩
  accepts data h hs := by
    obtain ⟨hlen, h⟩ := h
    simp only [span] at hs
    obtain ⟨hl, -⟩ | ⟨-, hd⟩ := header_cases data
    · omega
    · exact ⟨_, by
        simp [StunGoogNetworkInfoAttr.decode, hd, hlen, show data.length - 4 ≠ 0 by omega,
          load_ok (show 4 + 2 ≤ data.length by omega), load_ok (show 6 + 2 ≤ data.length by omega),
          span]; rfl⟩
  overruns data h hs := by
    obtain ⟨hlen, h⟩ := h
    simp only [span] at hs
    obtain ⟨hl, -⟩ | ⟨-, hd⟩ := header_cases data
    · omega
    · left
      have hz : data.length - 4 ≠ 0 := by omega
      by_cases hn : 4 + 2 ≤ data.length
      · exact ⟨.overread, by
          simp [StunGoogNetworkInfoAttr.decode, hd, hlen, hz, load_ok hn,
            load_overread (show data.length < 6 + 2 by omega)]⟩
      · exact ⟨.overread, by
          simp [StunGoogNetworkInfoAttr.decode, hd, hlen, hz,
            load_overread (show data.length < 4 + 2 by omega)]⟩

theorem decodeNumber_decodes {t : AttrType} {k : ℕ}
    (ha : ∀ length len, admits length len t ↔ length = k ∧ 8 ≤ len)
    (hs : ∀ length, span length t = 4 + k) : Decodes t (decodeNumber k) where
  rejects data h := by
    rw [ha] at h
    obtain ⟨-, hd⟩ | ⟨hl, hd⟩ := header_cases data
    · exact ⟨-1, by simp [decodeNumber, hd]⟩
    · by_cases hz : data.length - 4 < 4
      · exact ⟨-2, by simp [decodeNumber, hd, hz]⟩
      · exact ⟨-3, by simp [decodeNumber, hd, hz, show lengthAt data ≠ k by omega]⟩
  accepts data h hn := by
    obtain ⟨hlen, h⟩ := (ha _ _).mp h
    rw [hs] at hn ⊢
    obtain ⟨hl, -⟩ | ⟨-, hd⟩ := header_cases data
    · omega
    · exact ⟨_, by
        simp [decodeNumber, hd, hlen, show ¬ data.length - 4 < 4 by omega, load_ok hn]; rfl⟩
  overruns data h hn := by
    obtain ⟨hlen, h⟩ := (ha _ _).mp h
    rw [hs] at hn
    obtain ⟨hl, -⟩ | ⟨-, hd⟩ := header_cases data
    · omega
    · left
      exact ⟨.overread, by
        simp [decodeNumber, hd, hlen, show ¬ data.length - 4 < 4 by omega, load_overread hn]⟩

theorem icePriority_decodes : Decodes .icePriority StunIcePriorityAttr.decode :=
  decodeNumber_decodes (fun _ _ ↦ Iff.rfl) fun _ ↦ rfl

theorem iceControlled_decodes : Decodes .iceControlled StunIceControlledAttr.decode :=
  decodeNumber_decodes (fun _ _ ↦ Iff.rfl) fun _ ↦ rfl

theorem iceControlling_decodes : Decodes .iceControlling StunIceControllingAttr.decode :=
  decodeNumber_decodes (fun _ _ ↦ Iff.rfl) fun _ ↦ rfl

theorem iceUseCandidate_decodes : Decodes .iceUseCandidate StunIceUseCandidateAttr.decode where
  rejects data h := by
    simp only [admits] at h
    obtain ⟨-, hd⟩ | ⟨hl, -⟩ := header_cases data
    · exact ⟨-1, by simp [StunIceUseCandidateAttr.decode, hd]⟩
    · omega
  accepts data h _ := by
    simp only [admits] at h
    obtain ⟨hl, -⟩ | ⟨-, hd⟩ := header_cases data
    · omega
    · exact ⟨(), by simp [StunIceUseCandidateAttr.decode, hd, span]⟩
  overruns data h hs := by
    simp only [admits, span] at h hs
    omega

theorem software_decodes : Decodes .software StunSoftwareAttr.decode where
  rejects data h := by
    simp only [admits] at h
    obtain ⟨-, hd⟩ | ⟨hl, hd⟩ := header_cases data
    · exact ⟨-1, by simp [StunSoftwareAttr.decode, hd]⟩
    · exact ⟨-3, by
        simp [StunSoftwareAttr.decode, hd, show data.length - 4 < lengthAt data by omega]⟩
  accepts data h _ := by
    simp only [admits] at h
    obtain ⟨hl, -⟩ | ⟨-, hd⟩ := header_cases data
    · omega
    · exact ⟨_, by
        simp [StunSoftwareAttr.decode, hd, show ¬ data.length - 4 < lengthAt data by omega,
          slice_ok h, span]; rfl⟩
  overruns data h hs := by
    simp only [admits, span] at h hs
    omega

/-- What the loop does at the front of the bytes left: it gives up, moves on
behind the attribute, or does something else before it has moved behind the end. -/
structure DecodesFront (t : AttrType) (msg : StunMsg) (data : Bytes)
    (o : Outcome (ℕ × StunMsg)) : Prop where
  rejects : ¬ admits (lengthAt data) data.length t → ∃ code, o = .err code
  accepts : admits (lengthAt data) data.length t → span (lengthAt data) t ≤ data.length →
    ∃ msg', o = .ok (span (lengthAt data) t, msg')
  overruns : admits (lengthAt data) data.length t → data.length < span (lengthAt data) t →
    (∃ f, o = .fault f) ∨ ∃ msg', o = .ok (span (lengthAt data) t, msg')
  integrity : ∀ c msg', o = .ok (c, msg') →
    (msg'.msgIntegrityAttr.isSome ↔ t = .messageIntegrity ∨ msg.msgIntegrityAttr.isSome)
  fingerprint : ∀ c msg', o = .ok (c, msg') → msg'.fingerprintAttr = msg.fingerprintAttr

theorem Decodes.front {α : Type} {t : AttrType} {decode : Bytes → Outcome (ℕ × α)}
    (h : Decodes t decode) {code : ℤ} (msg : StunMsg) (set : α → StunMsg)
    (hset : ∀ a, (set a).msgIntegrityAttr.isSome ↔
      t = .messageIntegrity ∨ msg.msgIntegrityAttr.isSome)
    (hfp : ∀ a, (set a).fingerprintAttr = msg.fingerprintAttr) (data : Bytes) :
    DecodesFront t msg data (do
      let r ← (decode data).orReturn code
      return (r.1, set r.2)) where
  rejects hn := by
    obtain ⟨e, he⟩ := h.rejects data hn
    exact ⟨code, by simp [he]⟩
  accepts ha hs := by
    obtain ⟨a, ho⟩ := h.accepts data ha hs
    exact ⟨set a, by simp [ho]⟩
  overruns ha hs := by
    obtain ⟨f, ho⟩ | ⟨a, ho⟩ := h.overruns data ha hs
    · exact .inl ⟨f, by simp [ho]⟩
    · exact .inr ⟨set a, by simp [ho]⟩
  integrity c msg' ho := by
    obtain ⟨r, -, hr⟩ := Outcome.bind_eq_ok.mp ho
    cases hr
    exact hset _
  fingerprint c msg' ho := by
    obtain ⟨r, -, hr⟩ := Outcome.bind_eq_ok.mp ho
    cases hr
    exact hfp _

theorem ignored_front {t : AttrType} (h : ignored t = true) (msg : StunMsg) (data : Bytes) :
    DecodesFront t msg data (.ok (0, msg)) := by
  have ha : admits (lengthAt data) data.length t := by cases t <;> simp_all [ignored, admits]
  have hs : span (lengthAt data) t = 0 := by cases t <;> simp_all [ignored, span]
  refine ⟨fun hn ↦ absurd ha hn, fun _ _ ↦ ⟨msg, by rw [hs]⟩, fun _ hn ↦ ?_, ?_, ?_⟩
  · omega
  · intro c msg' ho
    cases ho
    cases t <;> simp_all [ignored]
  · intro c msg' ho
    cases ho
    rfl

theorem decodeAttr_front {t : AttrType} {data : Bytes} (msg : StunMsg) (h2 : 2 ≤ data.length)
    (ht : typeAt data = some t) : DecodesFront t msg data (msg.decodeAttr data) := by
  have hl : load 2 0 data = .ok (fromBE (data.take 2)) := load_ok h2
  rw [typeAt] at ht
  rw [StunMsg.decodeAttr, hl, Outcome.ok_bind, ht]
  cases t with
  | mappedAddress =>
    exact mappedAddress_decodes.front msg (fun a ↦ msg.addAttr (.mappedAddress a))
      (by simp [StunMsg.addAttr]) (fun _ ↦ rfl) data
  | username =>
    exact username_decodes.front msg (fun a ↦ { msg with usernameAttr := some a }) (by simp) (fun _ ↦ rfl) data
  | messageIntegrity =>
    exact messageIntegrity_decodes.front msg (fun a ↦ { msg with msgIntegrityAttr := some a })
      (by simp) (fun _ ↦ rfl) data
  | googNetworkInfo =>
    exact googNetworkInfo_decodes.front msg (fun a ↦ msg.addAttr (.googNetworkInfo a))
      (by simp [StunMsg.addAttr]) (fun _ ↦ rfl) data
  | icePriority =>
    exact icePriority_decodes.front msg (fun a ↦ msg.addAttr (.icePriority a))
      (by simp [StunMsg.addAttr]) (fun _ ↦ rfl) data
  | iceUseCandidate =>
    exact iceUseCandidate_decodes.front msg (fun _ ↦ msg.addAttr .iceUseCandidate)
      (by simp [StunMsg.addAttr]) (fun _ ↦ rfl) data
  | iceControlled =>
    exact iceControlled_decodes.front msg (fun a ↦ msg.addAttr (.iceControlled a))
      (by simp [StunMsg.addAttr]) (fun _ ↦ rfl) data
  | iceControlling =>
    exact iceControlling_decodes.front msg (fun a ↦ msg.addAttr (.iceControlling a))
      (by simp [StunMsg.addAttr]) (fun _ ↦ rfl) data
  | software => exact software_decodes.front msg (fun _ ↦ msg) (by simp) (fun _ ↦ rfl) data
  | fingerprint =>
    refine ⟨fun _ ↦ ⟨-11, rfl⟩, fun h ↦ h.elim, fun h ↦ h.elim, ?_, ?_⟩
    · intro _ _ ho
      cases ho
    · intro _ _ ho
      cases ho
  | responseAddress => exact ignored_front rfl msg data
  | changeRequest => exact ignored_front rfl msg data
  | sourceAddress => exact ignored_front rfl msg data
  | changedAddress => exact ignored_front rfl msg data
  | password => exact ignored_front rfl msg data
  | errorCode => exact ignored_front rfl msg data
  | unknownAttributes => exact ignored_front rfl msg data
  | reflectedFrom => exact ignored_front rfl msg data

theorem decodeAttr_overread {data : Bytes} (msg : StunMsg) (h : data.length < 2) :
    msg.decodeAttr data = .fault .overread := by
  rw [StunMsg.decodeAttr, load_overread (by omega), Outcome.fault_bind]

theorem decodeAttr_unknown {data : Bytes} (msg : StunMsg) (h2 : 2 ≤ data.length)
    (ht : typeAt data = none) : msg.decodeAttr data = .err (-11) := by
  have hl : load 2 0 data = .ok (fromBE (data.take 2)) := load_ok h2
  rw [typeAt] at ht
  rw [StunMsg.decodeAttr, hl, Outcome.ok_bind, ht]

/-- What can be at the front of the bytes left. -/
theorem front_cases (msg : StunMsg) {data : Bytes} (h2 : 2 ≤ data.length) :
    (∃ code, msg.decodeAttr data = .err code) ∨ ∃ t, Front t data := by
  cases ht : typeAt data with
  | none => exact .inl ⟨-11, decodeAttr_unknown msg h2 ht⟩
  | some t =>
    by_cases ha : admits (lengthAt data) data.length t
    · exact .inr ⟨t, h2, ht, ha⟩
    · exact .inl ((decodeAttr_front msg h2 ht).rejects ha)

theorem decodeAttr_eq_ok {msg msg' : StunMsg} {data : Bytes} {c : ℕ}
    (h : msg.decodeAttr data = .ok (c, msg')) :
    ∃ t, Front t data ∧ c = span (lengthAt data) t ∧
      (msg'.msgIntegrityAttr.isSome ↔ t = .messageIntegrity ∨ msg.msgIntegrityAttr.isSome) ∧
      msg'.fingerprintAttr = msg.fingerprintAttr := by
  have h2 : 2 ≤ data.length := by
    by_contra hn
    rw [decodeAttr_overread msg (by omega)] at h
    cases h
  obtain ⟨code, he⟩ | ⟨t, hf⟩ := front_cases msg h2
  · rw [he] at h
    cases h
  · have hd := decodeAttr_front msg h2 hf.2.1
    refine ⟨t, hf, ?_, hd.integrity c msg' h, hd.fingerprint c msg' h⟩
    by_cases hs : span (lengthAt data) t ≤ data.length
    · obtain ⟨_, ho⟩ := hd.accepts hf.2.2 hs
      rw [h] at ho
      cases ho
      rfl
    · obtain ⟨f, ho⟩ | ⟨_, ho⟩ := hd.overruns hf.2.2 (by omega)
      · rw [h] at ho
        cases ho
      · rw [h] at ho
        cases ho
        rfl

theorem decodeAttr_messageIntegrity (msg : StunMsg) {rest : Bytes}
    (hf : Front .messageIntegrity rest) :
    msg.decodeAttr rest =
      .ok (24, { msg with msgIntegrityAttr := some ((rest.drop 4).take 20) }) := by
  obtain ⟨h2, ht, hlen, h24⟩ := hf
  have hl : load 2 0 rest = .ok (fromBE (rest.take 2)) := load_ok h2
  have hd := decodeHeader_ok (show 4 ≤ rest.length by omega)
  rw [typeAt] at ht
  rw [StunMsg.decodeAttr, hl, Outcome.ok_bind, ht]
  simp [StunMessageIntegrityAttr.decode, hd, hlen, show ¬ rest.length - 4 < 20 by omega,
    slice_ok (show 4 + 20 ≤ rest.length by omega)]

end MmsServer.Stun.AttrSpan
