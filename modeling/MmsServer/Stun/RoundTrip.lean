import MmsServer.Stun.Integrity

namespace MmsServer.Stun.RoundTrip

open Lib.ByteReader Lib.Checked Lib.CheckedLoop Stun.Attr Stun.Msg Stun.AttrSpan Stun.DecodeSafety
  Stun.Integrity

def attrBytes (t : AttrType) (value : Bytes) : Bytes :=
  putBE 2 t.code ++ putBE 2 value.length ++ value

@[simp] theorem attrBytes_length (t : AttrType) (value : Bytes) :
    (attrBytes t value).length = 4 + value.length := by
  simp only [attrBytes, List.length_append, putBE_length]

theorem le_attrBytes_append (t : AttrType) (value rest : Bytes) :
    4 ≤ (attrBytes t value ++ rest).length := by
  rw [List.length_append, attrBytes_length]
  omega

theorem encodeValue_eq_ok {t : AttrType} {value data bytes : Bytes} :
    encodeValue t value data = .ok bytes ↔
      4 + value.length ≤ data.length ∧ bytes = attrBytes t value := by
  by_cases h4 : data.length < 4
  · simp only [encodeValue, encodeHeader, h4, if_true, Outcome.orReturn_err, Outcome.err_bind,
      reduceCtorEq, false_iff, not_and]
    omega
  · by_cases hv : data.length - 4 < value.length
    · simp only [encodeValue, encodeHeader, h4, if_false, Outcome.orReturn_ok, Outcome.ok_bind, hv,
        if_true, reduceCtorEq, false_iff, not_and]
      omega
    · simp only [encodeValue, encodeHeader, h4, if_false, Outcome.orReturn_ok, Outcome.ok_bind, hv,
        Outcome.pure_eq, Outcome.ok.injEq, attrBytes]
      constructor
      · rintro rfl
        exact ⟨by omega, rfl⟩
      · rintro ⟨-, rfl⟩
        rfl

section Front

variable (t : AttrType) (value rest : Bytes)

theorem load_type : load 2 0 (attrBytes t value ++ rest) = .ok t.code := by
  rw [attrBytes, List.append_assoc, List.append_assoc]
  exact load_front (code_lt t)

variable {value} (hv : value.length < 2 ^ 16)
include hv

theorem decodeHeader_attrBytes :
    decodeHeader (attrBytes t value ++ rest) = .ok value.length := by
  rw [decodeHeader, if_neg (Nat.not_lt.mpr (le_attrBytes_append t value rest)), attrBytes,
    List.append_assoc, List.append_assoc]
  exact load_append (putBE_length 2 _) hv

end Front

/-- A number in the value of an attribute. -/
theorem load_value (t : AttrType) (pre post rest : Bytes) {pos k v : ℕ}
    (hp : 4 + pre.length = pos) (hv : v < 256 ^ k) :
    load k pos (attrBytes t (pre ++ (putBE k v ++ post)) ++ rest) = .ok v := by
  have h : attrBytes t (pre ++ (putBE k v ++ post)) ++ rest =
      putBE 2 t.code ++ putBE 2 (pre ++ (putBE k v ++ post)).length ++ pre ++
        (putBE k v ++ (post ++ rest)) := by
    simp only [attrBytes, List.append_assoc]
  rw [h]
  exact load_append (by simp [putBE_length]; omega) hv

def value : StunAttr → Bytes
  | .mappedAddress a => 0 :: a.family :: (putBE 2 a.port.toNat ++ putBE 4 a.address.toNat)
  | .googNetworkInfo a => putBE 2 a.networkId.toNat ++ putBE 2 a.networkCost.toNat
  | .icePriority priority => putBE 4 priority.toNat
  | .iceUseCandidate => []
  | .iceControlled tieBreaker | .iceControlling tieBreaker => putBE 8 tieBreaker.toNat

theorem encode_eq (a : StunAttr) : a.encode = encodeValue a.type (value a) := by
  cases a <;> rfl

theorem value_length_lt (a : StunAttr) : (value a).length < 2 ^ 16 := by
  cases a <;> simp [value, putBE_length]

theorem decodeNumber_attrBytes (t : AttrType) {k : ℕ} (hk : 4 ≤ k) (hk' : k < 2 ^ 16)
    (v : BitVec (8 * k)) (rest : Bytes) :
    decodeNumber k (attrBytes t (putBE k v.toNat) ++ rest) = .ok (4 + k, v) := by
  have hl : (putBE k v.toNat).length = k := putBE_length k _
  have hv : v.toNat < 256 ^ k := by
    have := v.isLt
    rwa [Nat.pow_mul] at this
  have hload : load k 4 _ = .ok _ := load_value t [] [] rest rfl hv
  rw [List.nil_append, List.append_nil] at hload
  have hd := decodeHeader_attrBytes t rest (hl.symm ▸ hk' : (putBE k v.toNat).length < 2 ^ 16)
  simp [decodeNumber, hd, hl, hload, show ¬ 4 + k + rest.length - 4 < 4 by omega]

theorem mappedAddress_attrBytes (a : StunMappedAddressAttr) (rest : Bytes) :
    StunMappedAddressAttr.decode
      (attrBytes .mappedAddress (value (.mappedAddress a)) ++ rest) = .ok (12, a) := by
  have hl : (value (.mappedAddress a)).length = 8 := by simp [value, putBE_length]
  have hd := decodeHeader_attrBytes .mappedAddress rest (value_length_lt (.mappedAddress a))
  have hf : load 1 5 (attrBytes .mappedAddress (value (.mappedAddress a)) ++ rest) =
      .ok a.family.toNat := by
    have h : load 1 5 _ = .ok a.family.toNat := load_value .mappedAddress [0]
      (putBE 2 a.port.toNat ++ putBE 4 a.address.toNat) rest rfl a.family.toNat_lt
    simpa [value, putBE] using h
  have hp : load 2 6 (attrBytes .mappedAddress (value (.mappedAddress a)) ++ rest) =
      .ok a.port.toNat :=
    load_value .mappedAddress [0, a.family] _ rest rfl a.port.isLt
  have ha : load 4 8 (attrBytes .mappedAddress (value (.mappedAddress a)) ++ rest) =
      .ok a.address.toNat := by
    have h : load 4 8 _ = .ok a.address.toNat := load_value .mappedAddress
      (0 :: a.family :: putBE 2 a.port.toNat) [] rest (by simp [putBE_length]) a.address.isLt
    simpa [value] using h
  simp [StunMappedAddressAttr.decode, hd, hl, hf, hp, ha,
    show ¬ 4 + 8 + rest.length - 4 < 8 by omega]

theorem googNetworkInfo_attrBytes (a : StunGoogNetworkInfoAttr) (rest : Bytes) :
    StunGoogNetworkInfoAttr.decode
      (attrBytes .googNetworkInfo (value (.googNetworkInfo a)) ++ rest) = .ok (8, a) := by
  have hl : (value (.googNetworkInfo a)).length = 4 := by simp [value, putBE_length]
  have hd := decodeHeader_attrBytes .googNetworkInfo rest (value_length_lt (.googNetworkInfo a))
  have hi : load 2 4 (attrBytes .googNetworkInfo (value (.googNetworkInfo a)) ++ rest) =
      .ok a.networkId.toNat :=
    load_value .googNetworkInfo [] _ rest rfl a.networkId.isLt
  have hc : load 2 6 (attrBytes .googNetworkInfo (value (.googNetworkInfo a)) ++ rest) =
      .ok a.networkCost.toNat := by
    have h : load 2 6 _ = .ok a.networkCost.toNat := load_value .googNetworkInfo
      (putBE 2 a.networkId.toNat) [] rest (by simp [putBE_length]) a.networkCost.isLt
    simpa [value] using h
  simp [StunGoogNetworkInfoAttr.decode, hd, hl, hi, hc,
    show 4 + 4 + rest.length - 4 ≠ 0 by omega]

/-- The decoder takes an attribute off the front of the bytes. -/
theorem decodeAttr_attrBytes (msg : StunMsg) (a : StunAttr) (rest : Bytes) :
    msg.decodeAttr (attrBytes a.type (value a) ++ rest) =
      .ok ((attrBytes a.type (value a)).length, msg.addAttr a) := by
  rw [StunMsg.decodeAttr, load_type, Outcome.ok_bind, ofCode_code, attrBytes_length]
  cases a with
  | mappedAddress a =>
    have hl : (value (.mappedAddress a)).length = 8 := by simp [value, putBE_length]
    simp [StunAttr.type, mappedAddress_attrBytes, hl]
  | googNetworkInfo a =>
    have hl : (value (.googNetworkInfo a)).length = 4 := by simp [value, putBE_length]
    simp [StunAttr.type, googNetworkInfo_attrBytes, hl]
  | icePriority priority =>
    have h := decodeNumber_attrBytes .icePriority (k := 4) (by decide) (by decide) priority rest
    simp [StunAttr.type, StunIcePriorityAttr.decode, h, value, putBE_length]
  | iceUseCandidate =>
    have h := decodeHeader_attrBytes .iceUseCandidate rest (show ([] : Bytes).length < _ by decide)
    simp [StunAttr.type, StunIceUseCandidateAttr.decode, h, value]
  | iceControlled tieBreaker =>
    have h := decodeNumber_attrBytes .iceControlled (k := 8) (by decide) (by decide) tieBreaker rest
    simp [StunAttr.type, StunIceControlledAttr.decode, h, value, putBE_length]
  | iceControlling tieBreaker =>
    have h := decodeNumber_attrBytes .iceControlling (k := 8) (by decide) (by decide) tieBreaker
      rest
    simp [StunAttr.type, StunIceControllingAttr.decode, h, value, putBE_length]

structure Splits (u : StunUsernameAttr) : Prop where
  local_ne_nil : u.localUserName ≠ []
  remote_ne_nil : u.remoteUserName ≠ []
  colon_notMem_local : colon ∉ u.localUserName
  colon_notMem_remote : colon ∉ u.remoteUserName

theorem Splits.userName_eq {u : StunUsernameAttr} (h : Splits u) :
    u.userName = u.localUserName ++ colon :: u.remoteUserName :=
  if_pos (List.length_pos_iff.mpr h.remote_ne_nil)

theorem ofUserName_userName {u : StunUsernameAttr} (h : Splits u) :
    StunUsernameAttr.ofUserName u.userName = u := by
  rw [h.userName_eq, StunUsernameAttr.ofUserName,
    List.splitOn_append_cons_self_of_not_mem h.colon_notMem_local,
    List.splitOn_eq_singleton h.colon_notMem_remote]

theorem username_encode_eq_ok {u : StunUsernameAttr} {data bytes : Bytes} :
    u.encode data = .ok bytes ↔ u.size ≤ data.length ∧
      bytes = attrBytes .username u.userName ++
        (data.take u.size).drop (4 + u.userName.length) := by
  have hp := le_pad4 u.userName.length
  have hs : u.size = 4 + pad4 u.userName.length := rfl
  by_cases h4 : data.length < 4
  · simp only [StunUsernameAttr.encode, encodeHeader, h4, if_true, Outcome.orReturn_err,
      Outcome.err_bind, reduceCtorEq, false_iff, not_and]
    omega
  · by_cases hv : data.length - 4 < u.userName.length
    · simp only [StunUsernameAttr.encode, encodeHeader, h4, if_false, Outcome.orReturn_ok,
        Outcome.ok_bind, hv, if_true, reduceCtorEq, false_iff, not_and]
      omega
    · by_cases hn : data.length < u.size
      · simp only [StunUsernameAttr.encode, encodeHeader, h4, if_false, Outcome.orReturn_ok,
          Outcome.ok_bind, hv, hn, if_true, reduceCtorEq, false_iff, not_and]
        omega
      · simp only [StunUsernameAttr.encode, encodeHeader, h4, if_false, Outcome.orReturn_ok,
          Outcome.ok_bind, hv, hn, Outcome.pure_eq, Outcome.ok.injEq, attrBytes]
        constructor
        · rintro rfl
          exact ⟨by omega, rfl⟩
        · rintro ⟨-, rfl⟩
          rfl

theorem decodeAttr_username (msg : StunMsg) {u : StunUsernameAttr} (h : Splits u)
    (hl : u.userName.length < 2 ^ 16) (rest : Bytes) :
    msg.decodeAttr (attrBytes .username u.userName ++ rest) =
      .ok (u.size, { msg with usernameAttr := some u }) := by
  have hd := decodeHeader_attrBytes .username rest hl
  have hne : 4 + u.userName.length + rest.length - 4 ≠ 0 := by
    have : 0 < u.userName.length := by simp [h.userName_eq]
    omega
  have hs : slice 4 u.userName.length (attrBytes .username u.userName ++ rest) =
      .ok u.userName := by
    rw [attrBytes, List.append_assoc]
    exact slice_append (by simp [putBE_length]) rfl
  rw [StunMsg.decodeAttr, load_type, Outcome.ok_bind, ofCode_code]
  simp [StunUsernameAttr.decode, hd, hne, hs, ofUserName_userName h, StunUsernameAttr.size]

def attrsBytes (as : List StunAttr) : Bytes := as.flatMap fun a ↦ attrBytes a.type (value a)

theorem encodeAttrs_eq_ok {as : List StunAttr} {data bytes : Bytes} :
    encodeAttrs as data = .ok bytes ↔
      (attrsBytes as).length ≤ data.length ∧ bytes = attrsBytes as := by
  induction as generalizing data bytes with
  | nil => simp [encodeAttrs, attrsBytes, eq_comm]
  | cons a as ih =>
    have hcons : attrsBytes (a :: as) = attrBytes a.type (value a) ++ attrsBytes as := rfl
    rw [encodeAttrs, encode_eq, Outcome.bind_eq_ok, hcons, List.length_append]
    constructor
    · rintro ⟨first, hf, hr⟩
      obtain ⟨rest, hrest, hb⟩ := Outcome.bind_eq_ok.mp hr
      obtain ⟨hl, rfl⟩ := encodeValue_eq_ok.mp (Outcome.orReturn_eq_ok.mp hf)
      obtain ⟨hl', rfl⟩ := ih.mp hrest
      cases hb
      rw [List.length_drop, attrBytes_length] at hl'
      exact ⟨by rw [attrBytes_length]; omega, rfl⟩
    · rintro ⟨hl, rfl⟩
      rw [attrBytes_length] at hl
      refine ⟨_, Outcome.orReturn_eq_ok.mpr (encodeValue_eq_ok.mpr ⟨by omega, rfl⟩), ?_⟩
      rw [Outcome.bind_eq_ok]
      refine ⟨_, ih.mpr ⟨?_, rfl⟩, rfl⟩
      rw [List.length_drop, attrBytes_length]
      omega

/-- `size` says four bytes less than `encode` writes for these. -/
def undersized : StunAttr → Bool
  | .iceControlled _ | .iceControlling _ => true
  | _ => false

theorem size_le_length (a : StunAttr) : a.size ≤ 4 + (value a).length := by
  cases a <;> simp [StunAttr.size, value, putBE_length]

theorem size_lt_length {a : StunAttr} (h : undersized a = true) :
    a.size < 4 + (value a).length := by
  cases a <;> simp_all [StunAttr.size, value, putBE_length, undersized]

theorem size_eq_length {a : StunAttr} (h : undersized a = false) :
    a.size = 4 + (value a).length := by
  cases a <;> simp_all [StunAttr.size, value, putBE_length, undersized]

theorem attrsBytes_length (as : List StunAttr) :
    (as.map StunAttr.size).sum ≤ (attrsBytes as).length ∧
      ((as.map StunAttr.size).sum = (attrsBytes as).length ↔ ∀ a ∈ as, undersized a = false) := by
  induction as with
  | nil => simp [attrsBytes]
  | cons a as ih =>
    obtain ⟨hle, heq⟩ := ih
    have hcons : attrsBytes (a :: as) = attrBytes a.type (value a) ++ attrsBytes as := rfl
    have ha := size_le_length a
    rw [hcons, List.length_append, attrBytes_length, List.map_cons, List.sum_cons,
      List.forall_mem_cons, ← heq]
    refine ⟨by omega, ?_⟩
    cases hu : undersized a with
    | false =>
      have := size_eq_length hu
      simp only [true_and]
      omega
    | true =>
      have := size_lt_length hu
      simp only [reduceCtorEq, false_and, iff_false]
      omega

def headerBytes (h : StunMsgHeader) (length : ℕ) : Bytes :=
  putBE 2 h.type.toNat ++ putBE 2 length ++ putBE 4 h.magicCookie.toNat ++
    putBE 12 h.transactionId.toNat

@[simp] theorem headerBytes_length (h : StunMsgHeader) (length : ℕ) :
    (headerBytes h length).length = 20 := by
  simp [headerBytes, putBE_length]

theorem header_decode (h : StunMsgHeader) (length : ℕ) (rest : Bytes) :
    StunMsgHeader.decode (headerBytes h length ++ rest) =
      if h.type &&& 0xC0#16 = 0#16 ∧ h.magicCookie = STUN_MAGIC_COOKIE then .ok h else .err (-2) := by
  have ht : load 2 0 (headerBytes h length ++ rest) = .ok h.type.toNat := by
    simp only [headerBytes, List.append_assoc]
    exact load_front h.type.isLt
  have hc : load 4 4 (headerBytes h length ++ rest) = .ok h.magicCookie.toNat := by
    have happ : headerBytes h length ++ rest = putBE 2 h.type.toNat ++ putBE 2 length ++
        (putBE 4 h.magicCookie.toNat ++ (putBE 12 h.transactionId.toNat ++ rest)) := by
      simp only [headerBytes, List.append_assoc]
    rw [happ]
    exact load_append (by simp [putBE_length]) h.magicCookie.isLt
  have hi : load 12 8 (headerBytes h length ++ rest) = .ok h.transactionId.toNat := by
    have happ : headerBytes h length ++ rest = putBE 2 h.type.toNat ++ putBE 2 length ++
        putBE 4 h.magicCookie.toNat ++ (putBE 12 h.transactionId.toNat ++ rest) := by
      simp only [headerBytes, List.append_assoc]
    rw [happ]
    exact load_append (by simp [putBE_length]) h.transactionId.isLt
  have hl : ¬ (headerBytes h length ++ rest).length < 20 := by
    rw [List.length_append, headerBytes_length]
    omega
  rw [StunMsgHeader.decode, if_neg hl, ht, hc, hi]
  by_cases h1 : h.type &&& 0xC0#16 = 0#16
  · by_cases h2 : h.magicCookie = STUN_MAGIC_COOKIE
    · obtain ⟨type, magicCookie, transactionId⟩ := h
      subst h2
      simp
    · simp [h1, h2]
  · simp [h1]

theorem decodeAttr_integrity (msg : StunMsg) {hmacSha1 : Bytes} (h : hmacSha1.length = 20)
    (rest : Bytes) :
    msg.decodeAttr (attrBytes .messageIntegrity hmacSha1 ++ rest) =
      .ok (24, { msg with msgIntegrityAttr := some hmacSha1 }) := by
  have hd := decodeHeader_attrBytes .messageIntegrity rest (by omega : hmacSha1.length < 2 ^ 16)
  have hs : slice 4 20 (attrBytes .messageIntegrity hmacSha1 ++ rest) = .ok hmacSha1 := by
    rw [attrBytes, List.append_assoc]
    exact slice_append (by simp [putBE_length]) h
  rw [StunMsg.decodeAttr, load_type, Outcome.ok_bind, ofCode_code]
  simp [StunMessageIntegrityAttr.decode, hd, h, hs, show ¬ 4 + 20 + rest.length - 4 < 20 by omega]

theorem decodeTail_fingerprint (msg : StunMsg) (crc32 : BitVec 32) :
    StunMsg.decodeTail (msg, attrBytes .fingerprint (putBE 4 crc32.toNat)) =
      .ok { msg with fingerprintAttr := some crc32 } := by
  have ht := load_type .fingerprint (putBE 4 crc32.toNat) []
  have hd := decodeNumber_attrBytes .fingerprint (k := 4) (by decide) (by decide) crc32 []
  rw [List.append_nil] at ht hd
  cases hb : attrBytes .fingerprint (putBE 4 crc32.toNat) with
  | nil =>
    have hl := attrBytes_length .fingerprint (putBE 4 crc32.toNat)
    rw [hb, putBE_length] at hl
    cases hl
  | cons b bs =>
    rw [hb] at ht hd
    simp [StunMsg.decodeTail, ht, StunFingerPrintAttr.decode, hd]

theorem header_encode_eq_ok {h : StunMsgHeader} {length : ℕ} {data bytes : Bytes} :
    h.encode length data = .ok bytes ↔ 20 ≤ data.length ∧ bytes = headerBytes h length := by
  by_cases hl : data.length < 20
  · simp only [StunMsgHeader.encode, hl, if_true, reduceCtorEq, false_iff, not_and]
    omega
  · simp only [StunMsgHeader.encode, hl, if_false, Outcome.ok.injEq, headerBytes]
    constructor
    · rintro rfl
      exact ⟨by omega, rfl⟩
    · rintro ⟨-, rfl⟩
      rfl

def usernameSize (u : Option StunUsernameAttr) : ℕ := (u.map StunUsernameAttr.size).getD 0

def usernameBytes (data : Bytes) : Option StunUsernameAttr → Bytes
  | none => []
  | some u => attrBytes .username u.userName ++ (data.take u.size).drop (4 + u.userName.length)

theorem usernameBytes_length {u : Option StunUsernameAttr} {data : Bytes}
    (h : usernameSize u ≤ data.length) : (usernameBytes data u).length = usernameSize u := by
  cases u with
  | none => rfl
  | some u =>
    have hs : u.size = 4 + pad4 u.userName.length := rfl
    have hp := le_pad4 u.userName.length
    simp only [usernameSize, Option.map_some, Option.getD_some] at h ⊢
    simp only [usernameBytes, List.length_append, attrBytes_length, List.length_drop,
      List.length_take]
    omega

theorem encodeUsername_eq_ok {u : Option StunUsernameAttr} {data bytes : Bytes} :
    encodeUsername u data = .ok bytes ↔
      usernameSize u ≤ data.length ∧ bytes = usernameBytes data u := by
  cases u with
  | none => simp [encodeUsername, usernameSize, usernameBytes, eq_comm]
  | some u =>
    rw [encodeUsername, Outcome.orReturn_eq_ok, username_encode_eq_ok]
    rfl

section Encode

variable (D : Digests) {msg : StunMsg} {buf : Bytes} (pwd : Bytes) {mi fp : Bool}

def integrityBytes (mi : Bool) (body : Bytes) : Bytes :=
  if mi then attrBytes .messageIntegrity (D.hmacSha1 pwd (integrityText body)) else []

def fingerprintBytes (fp : Bool) (written : Bytes) : Bytes :=
  if fp then attrBytes .fingerprint (putBE 4 (StunFingerPrintAttr.digest D written).toNat) else []

theorem integrityBytes_length (mi : Bool) (body : Bytes) :
    (integrityBytes D pwd mi body).length = if mi then 24 else 0 := by
  cases mi with
  | false => rfl
  | true => simp [integrityBytes, D.hmacSha1_length]

theorem fingerprintBytes_length (fp : Bool) (written : Bytes) :
    (fingerprintBytes D fp written).length = if fp then 8 else 0 := by
  cases fp with
  | false => rfl
  | true => simp [fingerprintBytes, putBE_length]

theorem encodeIntegrity_length {len : ℕ} {body data bytes : Bytes}
    (h : encodeIntegrity D mi pwd fp len body data = .ok bytes) :
    bytes.length = if mi then 24 else 0 := by
  cases mi with
  | false =>
    cases h
    rfl
  | true =>
    obtain ⟨⟨hmacSha1, behind⟩, hd, he⟩ := Outcome.bind_eq_ok.mp h
    obtain ⟨-, rfl⟩ := encodeValue_eq_ok.mp (Outcome.orReturn_eq_ok.mp he)
    rw [attrBytes_length, digest_length hd, if_pos rfl]

theorem encodeIntegrity_ok {len : ℕ} {body data : Bytes} (hb : 4 ≤ body.length)
    (hl : body.length + (if mi then 24 else 0) ≤ data.length)
    (hlen : mi = true → len = body.length + 24 + reserved fp) :
    encodeIntegrity D mi pwd fp len body data = .ok (integrityBytes D pwd mi body) := by
  cases mi with
  | false => rfl
  | true =>
    rw [hlen rfl]
    have he : encodeValue .messageIntegrity (D.hmacSha1 pwd (integrityText body))
        (data.drop body.length) =
          .ok (attrBytes .messageIntegrity (D.hmacSha1 pwd (integrityText body))) := by
      refine encodeValue_eq_ok.mpr ⟨?_, rfl⟩
      rw [D.hmacSha1_length, List.length_drop]
      simp only [if_true] at hl
      omega
    simp [encodeIntegrity, digest_append D hb, StunMessageIntegrityAttr.encode, he, integrityBytes]

theorem encodeFingerPrint_length {written data bytes : Bytes}
    (h : encodeFingerPrint D fp written data = .ok bytes) :
    bytes.length = if fp then 8 else 0 := by
  cases fp with
  | false =>
    cases h
    rfl
  | true =>
    obtain ⟨-, rfl⟩ := encodeValue_eq_ok.mp (Outcome.orReturn_eq_ok.mp h)
    rw [attrBytes_length, putBE_length, if_pos rfl]

theorem encodeFingerPrint_ok {written data : Bytes}
    (hl : written.length + (if fp then 8 else 0) ≤ data.length) :
    encodeFingerPrint D fp written data = .ok (fingerprintBytes D fp written) := by
  cases fp with
  | false => rfl
  | true =>
    have he : encodeValue .fingerprint (putBE 4 (StunFingerPrintAttr.digest D written).toNat)
        (data.drop written.length) = .ok (attrBytes .fingerprint
          (putBE 4 (StunFingerPrintAttr.digest D written).toNat)) := by
      refine encodeValue_eq_ok.mpr ⟨?_, rfl⟩
      rw [putBE_length, List.length_drop]
      simp only [if_true] at hl
      omega
    simp [encodeFingerPrint, StunFingerPrintAttr.encode, he, fingerprintBytes]

/-- What `encode` writes can be longer than `size` says. -/
theorem encode_length {bytes : Bytes} (h : msg.encode D buf mi pwd fp = .ok bytes) :
    bytes.length = 20 + usernameSize msg.usernameAttr + (attrsBytes msg.attrs).length +
      (if mi then 24 else 0) + if fp then 8 else 0 := by
  obtain ⟨header, hh, h⟩ := Outcome.bind_eq_ok.mp h
  obtain ⟨username, hu, h⟩ := Outcome.bind_eq_ok.mp h
  obtain ⟨attrs, ha, h⟩ := Outcome.bind_eq_ok.mp h
  obtain ⟨integrity, hi, h⟩ := Outcome.bind_eq_ok.mp h
  obtain ⟨fingerprint, hf, h⟩ := Outcome.bind_eq_ok.mp h
  obtain ⟨-, rfl⟩ := header_encode_eq_ok.mp (Outcome.orReturn_eq_ok.mp hh)
  obtain ⟨hl, rfl⟩ := encodeUsername_eq_ok.mp hu
  obtain ⟨-, rfl⟩ := encodeAttrs_eq_ok.mp ha
  cases h
  simp only [List.length_append, headerBytes_length, usernameBytes_length hl,
    encodeIntegrity_length D pwd hi, encodeFingerPrint_length D hf]

def bodyBytes (msg : StunMsg) (buf : Bytes) (length : ℕ) : Bytes :=
  headerBytes msg.header length ++ usernameBytes (buf.drop 20) msg.usernameAttr ++
    attrsBytes msg.attrs

def messageBytes (msg : StunMsg) (buf : Bytes) (mi fp : Bool) : Bytes :=
  let body := bodyBytes msg buf (msg.size mi fp - 20)
  let written := body ++ integrityBytes D pwd mi body
  written ++ fingerprintBytes D fp written

theorem bodyBytes_length (hs : ∀ a ∈ msg.attrs, undersized a = false)
    (hbuf : buf.length = msg.size mi fp) (length : ℕ) :
    (bodyBytes msg buf length).length + (if mi then 24 else 0) + (if fp then 8 else 0) =
      msg.size mi fp := by
  have ha := (attrsBytes_length msg.attrs).2.mpr hs
  have hsize : msg.size mi fp = 20 + (usernameSize msg.usernameAttr +
      (msg.attrs.map StunAttr.size).sum) + (if mi then 24 else 0) + if fp then 8 else 0 := rfl
  have hu := usernameBytes_length (show usernameSize msg.usernameAttr ≤ (buf.drop 20).length by
    rw [List.length_drop]; omega)
  simp only [bodyBytes, List.length_append, headerBytes_length, hu]
  omega

theorem encode_ok (hs : ∀ a ∈ msg.attrs, undersized a = false)
    (hbuf : buf.length = msg.size mi fp) (hlt : msg.size mi fp - 20 < 2 ^ 16) :
    msg.encode D buf mi pwd fp = .ok (messageBytes D pwd msg buf mi fp) := by
  have ha := (attrsBytes_length msg.attrs).2.mpr hs
  have hsize : msg.size mi fp = 20 + (usernameSize msg.usernameAttr +
      (msg.attrs.map StunAttr.size).sum) + (if mi then 24 else 0) + if fp then 8 else 0 := rfl
  have hlength : (msg.contentLen + (if mi then 24 else 0) + if fp then 8 else 0) % 2 ^ 16 =
      msg.size mi fp - 20 := by
    rw [StunMsg.size] at hlt ⊢
    rw [Nat.mod_eq_of_lt (by omega)]
    omega
  have hh : msg.header.encode (msg.size mi fp - 20) buf = .ok _ :=
    header_encode_eq_ok.mpr ⟨by omega, rfl⟩
  have hul : usernameSize msg.usernameAttr ≤ (buf.drop 20).length := by
    rw [List.length_drop]
    omega
  have hu := encodeUsername_eq_ok.mpr ⟨hul, rfl⟩
  have has : encodeAttrs msg.attrs (buf.drop (headerBytes msg.header (msg.size mi fp - 20) ++
      usernameBytes (buf.drop 20) msg.usernameAttr).length) = .ok (attrsBytes msg.attrs) := by
    refine encodeAttrs_eq_ok.mpr ⟨?_, rfl⟩
    simp only [List.length_drop, List.length_append, headerBytes_length, usernameBytes_length hul]
    omega
  have hb := bodyBytes_length hs hbuf (msg.size mi fp - 20)
  have hi : encodeIntegrity D mi pwd fp (msg.size mi fp - 20 + 20)
      (bodyBytes msg buf (msg.size mi fp - 20)) buf =
        .ok (integrityBytes D pwd mi (bodyBytes msg buf (msg.size mi fp - 20))) := by
    refine encodeIntegrity_ok D pwd ?_ (by omega) ?_
    · simp [bodyBytes]
      omega
    · rintro rfl
      simp only [reserved, if_true] at *
      omega
  have hf : encodeFingerPrint D fp (bodyBytes msg buf (msg.size mi fp - 20) ++
      integrityBytes D pwd mi (bodyBytes msg buf (msg.size mi fp - 20))) buf =
        .ok (fingerprintBytes D fp (bodyBytes msg buf (msg.size mi fp - 20) ++
          integrityBytes D pwd mi (bodyBytes msg buf (msg.size mi fp - 20)))) := by
    refine encodeFingerPrint_ok D ?_
    rw [List.length_append, encodeIntegrity_length D pwd hi]
    omega
  simp only [bodyBytes] at hi hf
  simp only [StunMsg.encode, hlength, hh, Outcome.orReturn_ok, Outcome.ok_bind, hu, has, hi, hf,
    messageBytes, bodyBytes, Outcome.pure_eq]

end Encode

theorem decodeRound_front {msg msg' : StunMsg} {front rest : Bytes}
    (hd : msg.decodeAttr (front ++ rest) = .ok (front.length, msg'))
    (hm : msg'.msgIntegrityAttr = none) :
    StunMsg.decodeRound (msg, front ++ rest) = .ok (.inl (msg', rest)) := by
  have hl : ¬ (front ++ rest).length < front.length := by
    rw [List.length_append]
    omega
  rw [decodeRound_of_ok hd, if_neg hl, hm, List.drop_left]
  rfl

theorem reaches_attrs (msg : StunMsg) (hm : msg.msgIntegrityAttr = none) (as : List StunAttr)
    (rest : Bytes) :
    Reaches StunMsg.decodeRound (msg, attrsBytes as ++ rest)
      ({ msg with attrs := msg.attrs ++ as }, rest) := by
  induction as generalizing msg with
  | nil =>
    rw [List.append_nil]
    exact .refl
  | cons a as ih =>
    have hcons : attrsBytes (a :: as) ++ rest =
        attrBytes a.type (value a) ++ (attrsBytes as ++ rest) := List.append_assoc ..
    have hr := ih (msg.addAttr a) hm
    have hattrs : (msg.addAttr a).attrs ++ as = msg.attrs ++ a :: as := by simp [StunMsg.addAttr]
    rw [hattrs] at hr
    rw [hcons]
    exact hr.head (decodeRound_front (decodeAttr_attrBytes msg a _) hm)

theorem reaches_username (msg : StunMsg) (hm : msg.msgIntegrityAttr = none)
    (hn : msg.usernameAttr = none) {u : Option StunUsernameAttr} {data : Bytes}
    (hu : ∀ a ∈ u, Splits a) (hl : usernameSize u ≤ data.length) (hlt : usernameSize u < 2 ^ 16)
    (rest : Bytes) :
    Reaches StunMsg.decodeRound (msg, usernameBytes data u ++ rest)
      ({ msg with usernameAttr := u }, rest) := by
  cases u with
  | none =>
    have heq : ({ msg with usernameAttr := none } : StunMsg) = msg := by rw [← hn]
    rw [heq]
    exact .refl
  | some u =>
    have hlen := usernameBytes_length hl
    have hp := le_pad4 u.userName.length
    have hs : usernameSize (some u) = 4 + pad4 u.userName.length := rfl
    have hd := decodeAttr_username msg (hu u rfl) (by omega)
      ((data.take u.size).drop (4 + u.userName.length) ++ rest)
    rw [← List.append_assoc] at hd
    have hfront : msg.decodeAttr (usernameBytes data (some u) ++ rest) =
        .ok ((usernameBytes data (some u)).length, { msg with usernameAttr := some u }) := by
      rw [hlen]
      exact hd
    exact .head (decodeRound_front hfront hm) .refl

def decoded (msg : StunMsg) : StunMsg :=
  { header := msg.header, attrs := msg.attrs, usernameAttr := msg.usernameAttr }

theorem reaches_body {msg : StunMsg} {buf : Bytes} (hu : ∀ a ∈ msg.usernameAttr, Splits a)
    (hl : usernameSize msg.usernameAttr ≤ (buf.drop 20).length)
    (hlt : usernameSize msg.usernameAttr < 2 ^ 16) (length : ℕ) (rest : Bytes) :
    Reaches StunMsg.decodeRound
      ({ header := msg.header }, (bodyBytes msg buf length ++ rest).drop 20)
      (decoded msg, rest) := by
  have hdrop : (bodyBytes msg buf length ++ rest).drop 20 =
      usernameBytes (buf.drop 20) msg.usernameAttr ++ (attrsBytes msg.attrs ++ rest) := by
    have h20 := headerBytes_length msg.header length
    rw [bodyBytes, List.append_assoc, List.append_assoc, ← h20, List.drop_left]
  have h₁ := reaches_username { header := msg.header } rfl rfl hu hl hlt
    (attrsBytes msg.attrs ++ rest)
  have h₂ := reaches_attrs { header := msg.header, usernameAttr := msg.usernameAttr } rfl
    msg.attrs rest
  rw [hdrop]
  exact h₁.trans h₂

/-- `encode` fills the buffer, `decode` gives the user name and the attributes
back, and the digests are right. -/
def RoundTrips (D : Digests) (msg : StunMsg) (buf pwd : Bytes) (mi fp : Bool) : Prop :=
  ∃ bytes, msg.encode D buf mi pwd fp = .ok bytes ∧ bytes.length = msg.size mi fp ∧
    ∃ fuel msg', StunMsg.decode fuel bytes = some (.ok msg') ∧
      msg'.usernameAttr = msg.usernameAttr ∧ msg'.attrs = msg.attrs ∧
      msg'.checkFingerPrint D bytes = .ok true ∧
      (mi = true → msg'.checkMsgIntegrity D bytes pwd = .ok (true, bytes))

theorem bodyBytes_header (msg : StunMsg) (buf : Bytes) (length : ℕ) (rest : Bytes) :
    StunMsgHeader.decode (bodyBytes msg buf length ++ rest) =
      if msg.header.type &&& 0xC0#16 = 0#16 ∧ msg.header.magicCookie = STUN_MAGIC_COOKIE
      then .ok msg.header else .err (-2) := by
  rw [bodyBytes, List.append_assoc, List.append_assoc]
  exact header_decode ..

/-- A FINGERPRINT is taken for an unknown attribute within the loop. -/
theorem decodeRound_fingerprint (msg : StunMsg) (value : Bytes) :
    StunMsg.decodeRound (msg, attrBytes .fingerprint value) = .err (-11) := by
  have ht := load_type .fingerprint value []
  rw [List.append_nil] at ht
  apply decodeRound_of_err
  rw [StunMsg.decodeAttr, ht, Outcome.ok_bind, ofCode_code]

theorem decodeRound_integrityBytes (D : Digests) (pwd : Bytes) (msg : StunMsg) (body rest : Bytes) :
    StunMsg.decodeRound (msg, integrityBytes D pwd true body ++ rest) =
      .ok (.inr ({ msg with msgIntegrityAttr := some (D.hmacSha1 pwd (integrityText body)) },
        rest)) := by
  have hl := D.hmacSha1_length pwd (integrityText body)
  have hd := decodeAttr_integrity msg hl rest
  have h24 : (attrBytes .messageIntegrity (D.hmacSha1 pwd (integrityText body))).length = 24 := by
    rw [attrBytes_length, hl]
  have hlt : ¬ (attrBytes .messageIntegrity (D.hmacSha1 pwd (integrityText body)) ++
      rest).length < 24 := by
    rw [List.length_append]
    omega
  rw [integrityBytes, if_pos rfl, decodeRound_of_ok hd, if_neg hlt, ← h24, List.drop_left]
  rfl

theorem decodeTail_fingerprintBytes (D : Digests) (fp : Bool) (msg : StunMsg) (written : Bytes) :
    StunMsg.decodeTail (msg, fingerprintBytes D fp written) =
      .ok { msg with fingerprintAttr :=
        if fp then some (StunFingerPrintAttr.digest D written) else msg.fingerprintAttr } := by
  cases fp with
  | false => rfl
  | true => exact decodeTail_fingerprint msg _

theorem checkFingerPrint_fingerprintBytes (D : Digests) (fp : Bool) (msg : StunMsg)
    (written : Bytes) (h : msg.fingerprintAttr =
      if fp then some (StunFingerPrintAttr.digest D written) else none) :
    msg.checkFingerPrint D (written ++ fingerprintBytes D fp written) = .ok true := by
  cases fp with
  | false => simp [StunMsg.checkFingerPrint, h]
  | true => simp [StunMsg.checkFingerPrint, h, fingerprintBytes, putBE_length]

theorem checkMsgIntegrity_append (D : Digests) (pwd : Bytes) {msg : StunMsg} {body behind : Bytes}
    (hb : 4 ≤ body.length)
    (hm : msg.msgIntegrityAttr = some (D.hmacSha1 pwd (integrityText body)))
    (hl : behind.length = 24 + reserved msg.fingerprintAttr.isSome) :
    msg.checkMsgIntegrity D (body ++ behind) pwd = .ok (true, body ++ behind) := by
  have hd := digest_append D hb behind pwd msg.fingerprintAttr.isSome
  have hlen : (body ++ behind).length = body.length + 24 + reserved msg.fingerprintAttr.isSome := by
    rw [List.length_append, hl]
    omega
  rw [← hlen] at hd
  simp only [StunMsg.checkMsgIntegrity, hm, hd, Outcome.ok_bind, beq_self_eq_true, Outcome.pure_eq]

theorem messageBytes_eq (D : Digests) (pwd : Bytes) (msg : StunMsg) (buf : Bytes) (mi fp : Bool) :
    messageBytes D pwd msg buf mi fp =
      bodyBytes msg buf (msg.size mi fp - 20) ++
        (integrityBytes D pwd mi (bodyBytes msg buf (msg.size mi fp - 20)) ++
          fingerprintBytes D fp (bodyBytes msg buf (msg.size mi fp - 20) ++
            integrityBytes D pwd mi (bodyBytes msg buf (msg.size mi fp - 20)))) :=
  List.append_assoc ..

section RoundTrips

variable (D : Digests) {msg : StunMsg} {buf : Bytes} (pwd : Bytes) {mi fp : Bool}
  (hu : ∀ a ∈ msg.usernameAttr, Splits a) (hbuf : buf.length = msg.size mi fp)
  (hlt : msg.size mi fp - 20 < 2 ^ 16)
include hu hbuf hlt

theorem reaches_digests (length : ℕ) (rest : Bytes) :
    Reaches StunMsg.decodeRound
      ({ header := msg.header }, (bodyBytes msg buf length ++ rest).drop 20)
      (decoded msg, rest) := by
  have hsize : msg.size mi fp = 20 + (usernameSize msg.usernameAttr +
      (msg.attrs.map StunAttr.size).sum) + (if mi then 24 else 0) + if fp then 8 else 0 := rfl
  exact reaches_body hu (by rw [List.length_drop]; omega) (by omega) length rest

/-- A FINGERPRINT is read back only behind a MESSAGE-INTEGRITY. -/
theorem integrity_of_decode {fuel : ℕ} {msg' : StunMsg}
    (hok : msg.header.type &&& 0xC0#16 = 0#16 ∧ msg.header.magicCookie = STUN_MAGIC_COOKIE)
    (hdec : StunMsg.decode fuel (messageBytes D pwd msg buf mi fp) = some (.ok msg'))
    (hfp : fp = true) : mi = true := by
  by_contra hmi
  rw [Bool.not_eq_true] at hmi
  subst hfp hmi
  set body := bodyBytes msg buf (msg.size false true - 20)
  have hr := reaches_digests hu hbuf hlt (msg.size false true - 20)
    (integrityBytes D pwd false body ++
      fingerprintBytes D true (body ++ integrityBytes D pwd false body))
  obtain ⟨fuel', ho⟩ := hr.run_err (decodeRound_fingerprint _ _)
  have hheader := bodyBytes_header msg buf (msg.size false true - 20)
  rw [messageBytes_eq, decode_eq ((hheader _).trans (if_pos hok)), Option.map_eq_some_iff] at hdec
  obtain ⟨o, hrun, ho'⟩ := hdec
  rw [run_unique hrun ho] at ho'
  cases ho'

theorem conditions_of_roundTrips (h : RoundTrips D msg buf pwd mi fp) :
    (∀ a ∈ msg.attrs, undersized a = false) ∧ (fp = true → mi = true) ∧
      msg.header.type &&& 0xC0#16 = 0#16 ∧ msg.header.magicCookie = STUN_MAGIC_COOKIE := by
  have hsize : msg.size mi fp = 20 + (usernameSize msg.usernameAttr +
      (msg.attrs.map StunAttr.size).sum) + (if mi then 24 else 0) + if fp then 8 else 0 := rfl
  obtain ⟨bytes, henc, hlen, fuel, msg', hdec, -⟩ := h
  have hs : ∀ a ∈ msg.attrs, undersized a = false := by
    have hl := encode_length D pwd henc
    exact (attrsBytes_length msg.attrs).2.mp (by omega)
  rw [encode_ok D pwd hs hbuf hlt] at henc
  cases henc
  by_cases hok : msg.header.type &&& 0xC0#16 = 0#16 ∧ msg.header.magicCookie = STUN_MAGIC_COOKIE
  · exact ⟨hs, integrity_of_decode D pwd hu hbuf hlt hok hdec, hok⟩
  · have hheader := bodyBytes_header msg buf (msg.size mi fp - 20)
    rw [messageBytes_eq, StunMsg.decode, (hheader _).trans (if_neg hok)] at hdec
    cases hdec

theorem roundTrips_of_conditions (hs : ∀ a ∈ msg.attrs, undersized a = false)
    (hfp : fp = true → mi = true)
    (hok : msg.header.type &&& 0xC0#16 = 0#16 ∧ msg.header.magicCookie = STUN_MAGIC_COOKIE) :
    RoundTrips D msg buf pwd mi fp := by
  have hsize : msg.size mi fp = 20 + (usernameSize msg.usernameAttr +
      (msg.attrs.map StunAttr.size).sum) + (if mi then 24 else 0) + if fp then 8 else 0 := rfl
  have henc := encode_ok D pwd hs hbuf hlt
  have hlen := encode_length D pwd henc
  have ha := (attrsBytes_length msg.attrs).2.mpr hs
  refine ⟨_, henc, by omega, ?_⟩
  rw [messageBytes_eq] at hlen ⊢
  set body := bodyBytes msg buf (msg.size mi fp - 20) with hbody
  have hh := (bodyBytes_header msg buf (msg.size mi fp - 20) (integrityBytes D pwd mi body ++
    fingerprintBytes D fp (body ++ integrityBytes D pwd mi body))).trans (if_pos hok)
  have hr := reaches_digests hu hbuf hlt (msg.size mi fp - 20)
    (integrityBytes D pwd mi body ++ fingerprintBytes D fp (body ++ integrityBytes D pwd mi body))
  cases mi with
  | false =>
    cases fp with
    | true => cases hfp rfl
    | false =>
      obtain ⟨fuel, hdec⟩ := decode_of_reaches hh hr rfl rfl
      exact ⟨fuel, decoded msg, hdec, rfl, rfl, rfl, fun h ↦ by cases h⟩
  | true =>
    have hb := decodeRound_integrityBytes D pwd (decoded msg) body
      (fingerprintBytes D fp (body ++ integrityBytes D pwd true body))
    have ht := decodeTail_fingerprintBytes D fp
      { decoded msg with msgIntegrityAttr := some (D.hmacSha1 pwd (integrityText body)) }
      (body ++ integrityBytes D pwd true body)
    obtain ⟨fuel, hdec⟩ := decode_of_reaches hh hr hb ht
    refine ⟨fuel, _, hdec, rfl, rfl, ?_, fun _ ↦ ?_⟩
    · rw [← List.append_assoc]
      exact checkFingerPrint_fingerprintBytes D fp _ _ rfl
    · refine checkMsgIntegrity_append D pwd ?_ rfl ?_
      · rw [hbody, bodyBytes, List.append_assoc, List.length_append, headerBytes_length]
        omega
      · rw [List.length_append, integrityBytes_length, fingerprintBytes_length]
        cases fp with
        | false => rfl
        | true => rfl

theorem roundTrips_iff :
    RoundTrips D msg buf pwd mi fp ↔
      (∀ a ∈ msg.attrs, undersized a = false) ∧ (fp = true → mi = true) ∧
        msg.header.type &&& 0xC0#16 = 0#16 ∧ msg.header.magicCookie = STUN_MAGIC_COOKIE :=
  ⟨conditions_of_roundTrips D pwd hu hbuf hlt,
    fun h ↦ roundTrips_of_conditions D pwd hu hbuf hlt h.1 h.2.1 h.2.2⟩

end RoundTrips

/-- USERNAME `abcd:efgh` and PRIORITY 1. -/
def connectivityCheck : StunMsg where
  header := sampleMsg.header
  attrs := [.icePriority 1#32]
  usernameAttr := some ⟨[97, 98, 99, 100], [101, 102, 103, 104]⟩

theorem roundTrips_iff_sample :
    RoundTrips sampleDigests connectivityCheck (List.replicate 76 0) [112, 119, 100] true true :=
  (roundTrips_iff sampleDigests [112, 119, 100]
    (by
      rintro a ⟨⟩
      exact ⟨by decide, by decide, by decide, by decide⟩)
    (by decide) (by decide)).mpr
    ⟨by decide, fun _ ↦ rfl, by decide, rfl⟩

/-- ICE-CONTROLLING does not fit in the buffer that `size` asks for. -/
theorem roundTrips_fails :
    ¬ RoundTrips sampleDigests
      { header := { type := STUN_BINDING_REQUEST, transactionId := 0#96 },
        attrs := [.iceControlling 1#64] } (List.replicate 28 0) [] false false := by
  rintro ⟨bytes, henc, -⟩
  have herr : StunMsg.encode sampleDigests
      { header := { type := STUN_BINDING_REQUEST, transactionId := 0#96 },
        attrs := [.iceControlling 1#64] } (List.replicate 28 0) false [] false = .err (-2) := by
    decide
  rw [herr] at henc
  cases henc

end MmsServer.Stun.RoundTrip
