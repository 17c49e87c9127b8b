import MmsServer.Base.Crc32
import MmsServer.Stun.DecodeSafety

namespace MmsServer.Stun.Integrity

open Lib.ByteReader Lib.Checked Lib.CheckedLoop Base.Crc32 Stun.Attr Stun.Msg Stun.AttrSpan
  Stun.DecodeSafety

def patchLength (content : ℕ) (data : Bytes) : Bytes :=
  data.take 2 ++ putBE 2 content ++ data.drop 4

/-- The text that is hashed for a MESSAGE-INTEGRITY behind `body`. -/
def integrityText (body : Bytes) : Bytes := patchLength (body.length + 4) body

section Patch

variable {data : Bytes} (h : 4 ≤ data.length) (content : ℕ)
include h

theorem patchLength_length : (patchLength content data).length = data.length := by
  simp only [patchLength, List.length_append, List.length_take, List.length_drop, putBE_length]
  omega

theorem patchLength_append (behind : Bytes) :
    patchLength content (data ++ behind) = patchLength content data ++ behind := by
  rw [patchLength, patchLength, List.take_append_of_le_length (by omega),
    List.drop_append_of_le_length h]
  simp only [List.append_assoc]

theorem patchLength_restore :
    (patchLength content data).take 2 ++ (data.drop 2).take 2 ++ (patchLength content data).drop 4 =
      data := by
  have h2 : (data.take 2).length = 2 := by
    rw [List.length_take]
    omega
  have h4 : (data.take 2 ++ putBE 2 content).length = 4 := by
    rw [List.length_append, h2, putBE_length]
  have htake : (patchLength content data).take 2 = data.take 2 := by
    rw [patchLength, List.append_assoc, List.take_append_of_le_length (by omega),
      List.take_of_length_le (by omega)]
  have hdrop : (patchLength content data).drop 4 = data.drop 4 := by
    rw [patchLength, ← h4, List.drop_left]
  rw [htake, hdrop, ← List.take_add, List.take_append_drop]

end Patch

theorem digest_ok (D : Digests) {data : Bytes} {len : ℕ} {hasFingerPrint : Bool} (pwd : Bytes)
    (h4 : 4 ≤ data.length) (hlen : 24 + reserved hasFingerPrint ≤ len)
    (hle : len - reserved hasFingerPrint - 24 ≤ data.length) :
    StunMessageIntegrityAttr.digest D data len hasFingerPrint pwd =
      .ok (D.hmacSha1 pwd ((patchLength (len - 20 - reserved hasFingerPrint) data).take
        (len - reserved hasFingerPrint - 24)), data) := by
  have hp := patchLength_length h4 (len - 20 - reserved hasFingerPrint)
  have hs : slice 0 (len - reserved hasFingerPrint - 24)
      (patchLength (len - 20 - reserved hasFingerPrint) data) = .ok _ := slice_ok (by omega)
  have hr := patchLength_restore h4 (len - 20 - reserved hasFingerPrint)
  rw [List.drop_zero] at hs
  simp only [StunMessageIntegrityAttr.digest, slice_ok (show 2 + 2 ≤ data.length by omega),
    Outcome.ok_bind]
  rw [if_neg (by omega), ← patchLength, hs, Outcome.ok_bind, hr]
  rfl

theorem digest_length {D : Digests} {data : Bytes} {len : ℕ} {hasFingerPrint : Bool} {pwd : Bytes}
    {hmacSha1 behind : Bytes}
    (h : StunMessageIntegrityAttr.digest D data len hasFingerPrint pwd = .ok (hmacSha1, behind)) :
    hmacSha1.length = 20 := by
  obtain ⟨_, _, h⟩ := Outcome.bind_eq_ok.mp h
  dsimp only at h
  split at h
  · cases h
  · obtain ⟨text, _, h⟩ := Outcome.bind_eq_ok.mp h
    cases h
    exact D.hmacSha1_length pwd text

theorem digest_append (D : Digests) {body : Bytes} (hb : 4 ≤ body.length) (behind pwd : Bytes)
    (hasFingerPrint : Bool) :
    StunMessageIntegrityAttr.digest D (body ++ behind)
        (body.length + 24 + reserved hasFingerPrint) hasFingerPrint pwd =
      .ok (D.hmacSha1 pwd (integrityText body), body ++ behind) := by
  have hcontent : body.length + 24 + reserved hasFingerPrint - 20 - reserved hasFingerPrint =
      body.length + 4 := by omega
  have htext : body.length + 24 + reserved hasFingerPrint - reserved hasFingerPrint - 24 =
      (patchLength (body.length + 4) body).length := by
    rw [patchLength_length hb]
    omega
  have hle : body.length ≤ (body ++ behind).length := by
    rw [List.length_append]
    omega
  rw [digest_ok D pwd (by omega) (by omega) (by omega), hcontent, htext, patchLength_append hb,
    List.take_left]
  rfl

theorem walk_suffix {data rest : Bytes} (h : Walk data rest) : rest <:+ data := by
  induction h with
  | refl => exact List.suffix_refl _
  | skip _ _ _ _ ih => exact (List.drop_suffix _ _).trans ih

theorem reaches_fingerprint {msg msg' : StunMsg} {data rest : Bytes}
    (h : Reaches StunMsg.decodeRound (msg, data) (msg', rest)) :
    msg'.fingerprintAttr = msg.fingerprintAttr := by
  generalize hs : (msg', rest) = s at h
  induction h generalizing msg' rest with
  | refl =>
    cases hs
    rfl
  | step _ hb ih =>
    rename_i s₁ s₂ _
    subst hs
    obtain ⟨t, -, -, -, -, -, hd⟩ := decodeRound_eq_inl hb
    obtain ⟨-, -, -, -, hfp⟩ := decodeAttr_eq_ok hd
    rw [hfp]
    exact ih rfl

theorem decodeNumber_eq_ok {k c : ℕ} {data : Bytes} {v : BitVec (8 * k)}
    (h : decodeNumber k data = .ok (c, v)) : 8 ≤ data.length := by
  obtain ⟨_, hd⟩ | ⟨_, hd⟩ := header_cases data
  · rw [decodeNumber, hd] at h
    cases h
  · rw [decodeNumber, hd, Outcome.ok_bind] at h
    split at h
    · cases h
    · omega

/-- Behind the MESSAGE-INTEGRITY only a FINGERPRINT is decoded. -/
theorem decodeTail_eq_ok {msg msg' : StunMsg} {tail : Bytes}
    (h : StunMsg.decodeTail (msg, tail) = .ok msg') (hm : msg.fingerprintAttr = none) :
    msg'.msgIntegrityAttr = msg.msgIntegrityAttr ∧
      (msg'.fingerprintAttr.isSome ↔ typeAt tail = some .fingerprint) ∧
      (typeAt tail = some .fingerprint → 8 ≤ tail.length) := by
  cases tail with
  | nil =>
    cases h
    exact ⟨rfl, by rw [hm]; decide, by decide⟩
  | cons b tail =>
    obtain ⟨t, ht, h⟩ := Outcome.bind_eq_ok.mp h
    by_cases h2 : 0 + 2 ≤ (b :: tail).length
    · rw [load_ok h2] at ht
      cases ht
      rw [List.drop_zero] at h
      split at h
      · rename_i hcode
        obtain ⟨⟨c, crc32⟩, hd, h⟩ := Outcome.bind_eq_ok.mp h
        cases h
        have htype : typeAt (b :: tail) = some .fingerprint := by
          rw [typeAt, hcode, ofCode_code]
        exact ⟨rfl, by simp [htype], fun _ ↦ decodeNumber_eq_ok (Outcome.orReturn_eq_ok.mp hd)⟩
      · rename_i hcode
        cases h
        have htype : typeAt (b :: tail) ≠ some .fingerprint := fun ht ↦ hcode (code_ofCode ht)
        exact ⟨rfl, by simp [hm, htype], fun ht ↦ absurd ht htype⟩
    · rw [load_overread (by omega)] at ht
      cases ht

/-- What is known about a datagram that has been decoded up to and behind a
MESSAGE-INTEGRITY. -/
theorem decode_integrity {fuel : ℕ} {data rest : Bytes} {msg : StunMsg}
    (hdec : StunMsg.decode fuel data = some (.ok msg)) (hw : Walk (data.drop 20) rest)
    (hf : Front .messageIntegrity rest) :
    20 ≤ data.length ∧ msg.msgIntegrityAttr = some ((rest.drop 4).take 20) ∧
      (msg.fingerprintAttr.isSome ↔ typeAt (rest.drop 24) = some .fingerprint) ∧
      (typeAt (rest.drop 24) = some .fingerprint → 8 ≤ (rest.drop 24).length) := by
  cases hh : StunMsgHeader.decode data with
  | err code =>
    rw [StunMsg.decode, hh] at hdec
    cases hdec
  | fault f => exact absurd hh (header_decode_ne_fault data f)
  | ok header =>
    have h20 : 20 ≤ data.length := by
      by_contra hn
      rw [StunMsgHeader.decode, if_pos (by omega)] at hh
      cases hh
    obtain ⟨msg', hr, -⟩ := walk_reaches { header } rfl hw
    obtain ⟨fuel', ho⟩ := hr.run_inr (decodeRound_integrity msg' hf)
    rw [decode_eq hh, Option.map_eq_some_iff] at hdec
    obtain ⟨o, hrun, ht⟩ := hdec
    rw [run_unique hrun ho, Outcome.ok_bind] at ht
    exact ⟨h20, decodeTail_eq_ok ht (reaches_fingerprint hr)⟩

/-- The stored digest is compared with the digest of the bytes before the
MESSAGE-INTEGRITY, and the datagram stays as it is. -/
def CoversPrefix (data rest : Bytes) (msg : StunMsg) : Prop :=
  ∀ (D : Digests) (pwd : Bytes), ∃ b, msg.checkMsgIntegrity D data pwd = .ok (b, data) ∧
    (b = true ↔ (rest.drop 4).take 20 =
      D.hmacSha1 pwd (integrityText (data.take (data.length - rest.length))))

def lengthDigests (stored : Bytes) (h : stored.length = 20) (n : ℕ) : Digests where
  hmacSha1 _ text := if text.length = n then stored else stored.map (· + 1)
  hmacSha1_length _ text := by
    split
    · exact h
    · rw [List.length_map, h]
  crc32 _ := 0#32

theorem lengthDigests_of_ne {stored : Bytes} (h : stored.length = 20) {n : ℕ} (key : Bytes)
    {text : Bytes} (hn : text.length ≠ n) :
    (lengthDigests stored h n).hmacSha1 key text = stored.map (· + 1) := if_neg hn

theorem map_succ_ne {bs : Bytes} (h : bs ≠ []) : bs.map (· + 1) ≠ bs := by
  cases bs with
  | nil => exact absurd rfl h
  | cons b bs =>
    intro heq
    rw [List.map_cons, List.cons.injEq] at heq
    have hb := congrArg UInt8.toNat heq.1
    rw [UInt8.toNat_add] at hb
    have hlt := b.toNat_lt
    simp at hb
    omega

section Covers

variable {data body rest : Bytes} {msg : StunMsg} (hdata : body ++ rest = data)
  (hb : 20 ≤ body.length) (h24 : 24 ≤ rest.length)
  (hm : msg.msgIntegrityAttr = some ((rest.drop 4).take 20))
include hdata hb h24 hm

theorem coversPrefix_of_reserved
    (heq : rest.length - 24 = reserved msg.fingerprintAttr.isSome) : CoversPrefix data rest msg := by
  have hl : data.length = body.length + rest.length := by rw [← hdata, List.length_append]
  have hbody : data.take (data.length - rest.length) = body := by
    rw [hl, Nat.add_sub_cancel, ← hdata, List.take_left]
  intro D pwd
  rw [hbody]
  have hd := digest_append D (show 4 ≤ body.length by omega) rest pwd msg.fingerprintAttr.isSome
  have hlen : body.length + 24 + reserved msg.fingerprintAttr.isSome = data.length := by omega
  rw [hlen, hdata] at hd
  refine ⟨D.hmacSha1 pwd (integrityText body) == (rest.drop 4).take 20, ?_, ?_⟩
  · simp only [StunMsg.checkMsgIntegrity, hm, hd, Outcome.ok_bind]
    rfl
  · rw [beq_iff_eq, eq_comm]

/-- Digests that tell texts apart by their lengths show that the text that is checked
is longer than the text that is signed. -/
theorem reserved_of_coversPrefix (hres : reserved msg.fingerprintAttr.isSome ≤ rest.length - 24)
    (h : CoversPrefix data rest msg) : rest.length - 24 = reserved msg.fingerprintAttr.isSome := by
  have hl : data.length = body.length + rest.length := by rw [← hdata, List.length_append]
  have hbody : data.take (data.length - rest.length) = body := by
    rw [hl, Nat.add_sub_cancel, ← hdata, List.take_left]
  rw [CoversPrefix, hbody] at h
  by_contra hne
  have hstored : ((rest.drop 4).take 20).length = 20 := by
    rw [List.length_take, List.length_drop]
    omega
  obtain ⟨b, hc, hb⟩ := h (lengthDigests _ hstored body.length) []
  have hp := patchLength_length (show 4 ≤ data.length by omega)
    (data.length - 20 - reserved msg.fingerprintAttr.isSome)
  have htrue : b = true := hb.mpr (if_pos (patchLength_length (by omega) _)).symm
  have hd : StunMessageIntegrityAttr.digest (lengthDigests _ hstored body.length) data
      data.length msg.fingerprintAttr.isSome [] = .ok _ :=
    digest_ok _ [] (by omega) (by omega) (by omega)
  rw [StunMsg.checkMsgIntegrity, hm] at hc
  simp only [hd, Outcome.ok_bind, Outcome.pure_eq, Outcome.ok.injEq, Prod.mk.injEq,
    and_true] at hc
  rw [htrue, beq_iff_eq, lengthDigests_of_ne] at hc
  · exact map_succ_ne (List.ne_nil_of_length_pos (by omega)) hc
  · rw [List.length_take, hp]
    omega

end Covers

theorem coversPrefix_iff {fuel : ℕ} {data rest : Bytes} {msg : StunMsg}
    (hdec : StunMsg.decode fuel data = some (.ok msg)) (hw : Walk (data.drop 20) rest)
    (hf : Front .messageIntegrity rest) :
    CoversPrefix data rest msg ↔
      rest.drop 24 = [] ∨
        typeAt (rest.drop 24) = some .fingerprint ∧ (rest.drop 24).length = 8 := by
  obtain ⟨h20, hm, hfp, h8⟩ := decode_integrity hdec hw hf
  have hle := (walk_suffix hw).length_le
  obtain ⟨body, hdata⟩ := (walk_suffix hw).trans (List.drop_suffix _ _)
  have h24 : 24 ≤ rest.length := hf.2.2.2
  have hl : data.length = body.length + rest.length := by rw [← hdata, List.length_append]
  rw [List.length_drop] at hle h8
  have hres : reserved msg.fingerprintAttr.isSome ≤ rest.length - 24 := by
    cases hs : msg.fingerprintAttr.isSome with
    | false => exact Nat.zero_le _
    | true => exact h8 (hfp.mp hs)
  have hcond : (rest.drop 24 = [] ∨
      typeAt (rest.drop 24) = some .fingerprint ∧ (rest.drop 24).length = 8) ↔
        rest.length - 24 = reserved msg.fingerprintAttr.isSome := by
    rw [← List.length_eq_zero_iff, List.length_drop, ← hfp]
    cases hs : msg.fingerprintAttr.isSome with
    | false => simp [reserved]
    | true =>
      have := h8 (hfp.mp hs)
      simp only [reserved, if_true, true_and]
      omega
  rw [hcond]
  exact ⟨reserved_of_coversPrefix hdata (by omega) h24 hm hres,
    coversPrefix_of_reserved hdata (by omega) h24 hm⟩

def sampleHeader (length : UInt8) : Bytes :=
  [0, 1, 0, length, 0x21, 0x12, 0xa4, 0x42] ++ List.replicate 12 0

/-- HMAC-SHA1 under `pwd` of the header with length 24. -/
def sampleHmac : Bytes :=
  [0xf5, 0x80, 0x37, 0x44, 0xbe, 0xc3, 0xe1, 0x07, 0xf7, 0x4c, 0xae, 0x53, 0x70, 0x10, 0xc5, 0x36,
    0x85, 0x1d, 0x0c, 0x38]

def sampleMsg : StunMsg where
  header := { type := STUN_BINDING_REQUEST, transactionId := 0#96 }
  msgIntegrityAttr := some sampleHmac

theorem coversPrefix_iff_sample :
    CoversPrefix (sampleHeader 24 ++ [0, 8, 0, 20] ++ sampleHmac) ([0, 8, 0, 20] ++ sampleHmac)
      sampleMsg :=
  (coversPrefix_iff (show StunMsg.decode 1 _ = some (.ok sampleMsg) by decide) .refl
    ⟨by decide, by decide, by decide, by decide⟩).mpr (.inl rfl)

def usernameBytes : Bytes := [0, 6, 0, 9, 97, 98, 99, 100, 58, 101, 102, 103, 104, 0, 0, 0]

def requestHmac : Bytes :=
  [0x53, 0xf9, 0x7c, 0x02, 0x49, 0x10, 0xa6, 0xac, 0xaf, 0x22, 0x5b, 0x87, 0x91, 0xd4, 0x11, 0xb8,
    0x61, 0xbd, 0x50, 0xa8]

/-- HMAC-SHA1 under `pwd`: of a header, of a header with an attribute that is cut, of requests with a
USERNAME, with and without a PRIORITY, and of the response to the second. -/
def sampleHmacs : List (Bytes × { digest : Bytes // digest.length = 20 }) :=
  [(sampleHeader 24, ⟨sampleHmac, rfl⟩),
    (sampleHeader 32 ++ [0, 8, 0, 20] ++ sampleHmac.take 4,
      ⟨[0x4d, 0x0e, 0xeb, 0xc5, 0x7b, 0xa6, 0xa8, 0x01, 0xd8, 0xe9, 0x46, 0xf6, 0x5e, 0x89, 0x68,
        0xc8, 0xa7, 0xcf, 0xbd, 0x97], rfl⟩),
    (sampleHeader 48 ++ usernameBytes ++ [0, 0x24, 0, 4, 0, 0, 0, 1],
      ⟨[0xea, 0x64, 0x1d, 0x9a, 0x6b, 0x12, 0x3f, 0xe3, 0x5b, 0xf0, 0x73, 0xaf, 0xa6, 0xc0, 0xfb,
        0x2b, 0x57, 0x07, 0xf9, 0x81], rfl⟩),
    (sampleHeader 40 ++ usernameBytes, ⟨requestHmac, rfl⟩),
    ([1, 1, 0, 52, 0x21, 0x12, 0xa4, 0x42] ++ List.replicate 12 0 ++ usernameBytes ++
        [0, 1, 0, 8, 0, 1, 0x13, 0x88, 10, 0, 0, 1],
      ⟨[0x62, 0x60, 0x9a, 0xf6, 0x99, 0x34, 0x54, 0xa0, 0x84, 0x78, 0xe2, 0xd8, 0xfc, 0xdf, 0x34,
        0xb3, 0xde, 0x84, 0xd8, 0x95], rfl⟩)]

def sampleDigests : Digests where
  hmacSha1 _ text := ((sampleHmacs.lookup text).getD ⟨List.replicate 20 0, rfl⟩).val
  hmacSha1_length _ text := ((sampleHmacs.lookup text).getD _).property
  crc32 := getCrc32

/-- A SOFTWARE attribute behind the MESSAGE-INTEGRITY. -/
theorem coversPrefix_fails :
    StunMsg.decode 1 (sampleHeader 32 ++ [0, 8, 0, 20] ++ sampleHmac ++
        [0x80, 0x22, 0, 4, 116, 101, 115, 116]) = some (.ok sampleMsg) ∧
      ¬ CoversPrefix (sampleHeader 32 ++ [0, 8, 0, 20] ++ sampleHmac ++
          [0x80, 0x22, 0, 4, 116, 101, 115, 116])
        ([0, 8, 0, 20] ++ sampleHmac ++ [0x80, 0x22, 0, 4, 116, 101, 115, 116]) sampleMsg := by
  refine ⟨by decide, fun h ↦ ?_⟩
  obtain ⟨b, hc, hb⟩ := h sampleDigests [112, 119, 100]
  have hfalse : sampleMsg.checkMsgIntegrity sampleDigests (sampleHeader 32 ++ [0, 8, 0, 20] ++
      sampleHmac ++ [0x80, 0x22, 0, 4, 116, 101, 115, 116]) [112, 119, 100] =
        .ok (false, sampleHeader 32 ++ [0, 8, 0, 20] ++ sampleHmac ++
          [0x80, 0x22, 0, 4, 116, 101, 115, 116]) := by decide +kernel
  rw [hfalse] at hc
  cases hc
  exact absurd (hb.mpr (by decide +kernel)) (by decide)

end MmsServer.Stun.Integrity
