import MmsServer.M4s.CompositionTime

namespace MmsServer.Rtmp.FlvTagDecoders

open Lib.ByteReader Rtmp.FlvTag Rtmp.FlvBridge M4s.CompositionTime

section Store

/-- What `decode_and_store` leaves in a tag. Where a video body is too short for its header
there are no fields to speak of. -/
structure StoredTag where
  dataBuf : Bytes
  fields : Option DecodedTag
deriving DecidableEq

/-- Only a negative value of the decoder of the body counts. -/
def storeTagData (tagHeader : FlvTagHeader) (data : Bytes) : Except ℤ (Option DecodedTag) :=
  match decodeTagData tagHeader data with
  | .error e => if e < 0 then .error e else .ok none
  | .ok (tag, _) => .ok (some tag)

def FlvTag.decodeAndStore (old : BitVec 32) (data : Bytes) : Except ℤ (StoredTag × ℕ) :=
  match FlvTagHeader.decode old data with
  | none => .error 0
  | some (tagHeader, rest) =>
    if rest.length < tagHeader.dataSize then .error 0
    else
      let totalBytes := flvTagHeaderBytes + tagHeader.dataSize
      let dataBuf := data.take totalBytes
      match storeTagData tagHeader (dataBuf.drop flvTagHeaderBytes) with
      | .error e => .error e
      | .ok fields => .ok ({ dataBuf, fields }, totalBytes)

end Store

section Conditions

def ShortVideo : Bytes → Prop
  | [] => True
  | b :: rest =>
    if b.toNat / 128 = 1 then
      rest.length < 4 ∨
        fromBE (rest.take 4) = hevcFourccCode ∧ b.toNat % 16 = 1 ∧ rest.length < 7
    else (b.toNat % 16 = 7 ∨ b.toNat % 16 = 12) ∧ rest.length < 4

/-- A script without data, or a video body that ends too early. -/
def BareBody (tagHeader : FlvTagHeader) (body : Bytes) : Prop :=
  tagHeader.tagType.toNat % 32 = 18 ∧ body = [] ∨
    tagHeader.tagType.toNat % 32 = 9 ∧ ShortVideo body

def BareTag (old : BitVec 32) (data : Bytes) : Prop :=
  ∃ tagHeader rest, FlvTagHeader.decode old data = some (tagHeader, rest) ∧
    tagHeader.dataSize ≤ rest.length ∧ BareBody tagHeader (rest.take tagHeader.dataSize)

def WholeTag (old : BitVec 32) (tag : Bytes) : Prop :=
  ∃ tagHeader body, FlvTagHeader.decode old tag = some (tagHeader, body) ∧
    body.length = tagHeader.dataSize

def ProperPrefix (old : BitVec 32) (data : Bytes) : Prop :=
  ∃ ext, ext ≠ [] ∧ WholeTag old (data ++ ext)

/-- Both decoders return the same, and what they leave in the tag is the same. They wait for
more only where more is missing. -/
def Agree (old : BitVec 32) (data : Bytes) : Prop :=
  FlvTag.decodeAndStore old data = (FlvTag.decode old data).map (fun p ↦
    ({ dataBuf := data.take p.2, fields := some p.1 }, p.2)) ∧
  (FlvTag.decode old data = .error 0 → ProperPrefix old data) ∧
  (FlvTag.decodeAndStore old data = .error 0 → ProperPrefix old data)

end Conditions

section TagHeader

variable {old : BitVec 32} {data : Bytes}

theorem tagHeader_delimited : Delimited (FlvTagHeader.decode old) :=
  (readBE_delimited 1).bind fun _ ↦ (readBE_delimited 3).bind fun _ ↦
    (readBE_delimited 3).bind fun _ ↦ (readBE_delimited 1).bind fun _ ↦
    (readBE_delimited 3).bind fun _ ↦ .pure _

theorem tagHeader_length {tagHeader : FlvTagHeader} {rest : Bytes}
    (h : FlvTagHeader.decode old data = some (tagHeader, rest)) : data.length = 11 + rest.length := by
  obtain ⟨_, _, h₁, h⟩ := bind_eq_some.mp h
  obtain ⟨_, _, h₂, h⟩ := bind_eq_some.mp h
  obtain ⟨_, _, h₃, h⟩ := bind_eq_some.mp h
  obtain ⟨_, _, h₄, h⟩ := bind_eq_some.mp h
  obtain ⟨_, _, h₅, h⟩ := bind_eq_some.mp h
  obtain ⟨-, rfl⟩ := pure_eq_some.mp h
  have hl₁ := readBE_length h₁
  have hl₂ := readBE_length h₂
  have hl₃ := readBE_length h₃
  have hl₄ := readBE_length h₄
  have hl₅ := readBE_length h₅
  omega

theorem readBE_some {k : ℕ} {bs : Bytes} (h : k ≤ bs.length) :
    readBE k bs = some (fromBE (bs.take k), bs.drop k) := if_neg (Nat.not_lt.mpr h)

theorem tagHeader_some (old : BitVec 32) (h : 11 ≤ data.length) :
    ∃ tagHeader rest, FlvTagHeader.decode old data = some (tagHeader, rest) := by
  rw [FlvTagHeader.decode, bind_some (readBE_some (by omega)),
    bind_some (readBE_some (by simp only [List.length_drop]; omega)),
    bind_some (readBE_some (by simp only [List.length_drop]; omega)),
    bind_some (readBE_some (by simp only [List.length_drop]; omega)),
    bind_some (readBE_some (by simp only [List.length_drop]; omega))]
  exact ⟨_, _, rfl⟩

theorem properPrefix_of_short {tagHeader : FlvTagHeader} {rest : Bytes}
    (h : FlvTagHeader.decode old data = some (tagHeader, rest))
    (hlt : rest.length < tagHeader.dataSize) : ProperPrefix old data := by
  have hlen : (List.replicate (tagHeader.dataSize - rest.length) (0 : UInt8)).length =
      tagHeader.dataSize - rest.length := List.length_replicate
  refine ⟨List.replicate (tagHeader.dataSize - rest.length) 0, ?_, tagHeader, _,
    tagHeader_delimited.append h _, ?_⟩
  · rw [← List.length_pos_iff, hlen]
    omega
  · rw [List.length_append, hlen]
    omega

theorem properPrefix_of_none (h : FlvTagHeader.decode old data = none) : ProperPrefix old data := by
  have hlt : data.length < 11 := by
    by_contra hge
    obtain ⟨tagHeader, rest, hsome⟩ := tagHeader_some old (Nat.le_of_not_lt hge)
    rw [h] at hsome
    cases hsome
  have hfull : (data ++ List.replicate (11 - data.length) (0 : UInt8)).length = 11 := by
    rw [List.length_append, List.length_replicate]
    omega
  obtain ⟨tagHeader, rest, hsome⟩ := tagHeader_some old (le_of_eq hfull.symm)
  have hrest := tagHeader_length hsome
  have hbody := tagHeader_delimited.append hsome (List.replicate tagHeader.dataSize 0)
  rw [List.append_assoc] at hbody
  refine ⟨_, ?_, tagHeader, _, hbody, ?_⟩
  · rw [← List.length_pos_iff, List.length_append, List.length_replicate]
    omega
  · rw [List.length_append, List.length_replicate]
    omega

end TagHeader

section Body

theorem readBE_none {k : ℕ} {bs : Bytes} (h : bs.length < k) : readBE k bs = none := if_pos h

theorem codedFrames_iff (n : ℕ) : ExtPacketType.ofCode n = .codedFrames ↔ n = 1 := by
  constructor
  · intro h
    rw [← extPacketType_code n, h]
    rfl
  · rintro rfl
    rfl

theorem codecId_iff (n : ℕ) :
    CodecId.ofCode n = .avc ∨ CodecId.ofCode n = .hevc ↔ n = 7 ∨ n = 12 := by
  constructor
  · rintro (h | h)
    · rw [← codecId_code n, h]
      exact .inl rfl
    · rw [← codecId_code n, h]
      exact .inr rfl
  · rintro (rfl | rfl)
    · exact .inl rfl
    · exact .inr rfl

theorem decodeExt_eq_zero {frameType : FrameType} {n : ℕ} {rest : Bytes} :
    VideoTagHeader.decodeExt frameType (.ofCode n) rest = .error 0 ↔ rest.length < 4 ∨
      fromBE (rest.take 4) = hevcFourccCode ∧ n = 1 ∧ rest.length < 7 := by
  by_cases h₄ : rest.length < 4
  · simp only [VideoTagHeader.decodeExt, readBE_none h₄, h₄, true_or]
  by_cases hcc : fromBE (rest.take 4) = hevcFourccCode
  · rw [VideoTagHeader.decodeExt, readBE_some (Nat.le_of_not_lt h₄)]
    simp only [hcc, if_true, h₄, false_or, true_and, ← codedFrames_iff]
    cases ht : ExtPacketType.ofCode n with
    | codedFrames =>
      by_cases h₇ : rest.length < 7
      · have hshort : (rest.drop 4).length < 3 := by
          rw [List.length_drop]
          omega
        simp [readBE_none hshort, h₇]
      · have hlong : 3 ≤ (rest.drop 4).length := by
          rw [List.length_drop]
          omega
        simp [readBE_some hlong, h₇]
    | sequenceStart => simp
    | sequenceEnd => simp
    | codedFramesX => simp
    | other m => simp
  · simp [VideoTagHeader.decodeExt, readBE_some (Nat.le_of_not_lt h₄), hcc, h₄]

/-- The header of a video body is missing where the body is too short for it. -/
theorem videoTagHeader_eq_zero {body : Bytes} :
    VideoTagHeader.decode body = .error 0 ↔ ShortVideo body := by
  cases body with
  | nil => simp [VideoTagHeader.decode, ShortVideo]
  | cons b rest =>
    rw [VideoTagHeader.decode, ShortVideo]
    by_cases hext : b.toNat / 128 = 1
    · simp only [hext, if_true]
      exact decodeExt_eq_zero
    · simp only [hext, if_false, codecId_iff]
      by_cases hcodec : b.toNat % 16 = 7 ∨ b.toNat % 16 = 12
      · simp only [hcodec, if_true, true_and]
        by_cases h₁ : rest.length < 1
        · simp only [readBE_none h₁, true_iff]
          omega
        · rw [readBE_some (Nat.le_of_not_lt h₁)]
          by_cases h₄ : rest.length < 4
          · have hshort : (rest.drop 1).length < 3 := by
              rw [List.length_drop]
              omega
            simp only [readBE_none hshort, h₄]
          · have hlong : 3 ≤ (rest.drop 1).length := by
              rw [List.length_drop]
              omega
            simp only [readBE_some hlong, h₄, reduceCtorEq]
      · simp [hcodec]

theorem decodeExt_error {frameType : FrameType} {t : ExtPacketType} {rest : Bytes} {e : ℤ}
    (h : VideoTagHeader.decodeExt frameType t rest = .error e) : e = 0 ∨ e = -1 := by
  rw [VideoTagHeader.decodeExt] at h
  split at h
  · cases h
    exact .inl rfl
  · dsimp only at h
    split at h
    · split at h
      · split at h
        · cases h
          exact .inl rfl
        · cases h
      · cases h
      · cases h
      · cases h
    · cases h
      exact .inr rfl

theorem videoTagHeader_error {body : Bytes} {e : ℤ} (h : VideoTagHeader.decode body = .error e) :
    e = 0 ∨ e = -1 := by
  cases body with
  | nil =>
    cases h
    exact .inl rfl
  | cons b rest =>
    rw [VideoTagHeader.decode] at h
    split at h
    · exact decodeExt_error h
    · dsimp only at h
      by_cases hcodec : CodecId.ofCode (b.toNat % 16) = .avc ∨ CodecId.ofCode (b.toNat % 16) = .hevc
      · rw [if_pos hcodec] at h
        split at h
        · cases h
          exact .inl rfl
        · split at h
          · cases h
            exact .inl rfl
          · cases h
      · rw [if_neg hcodec] at h
        cases h
        exact .inr rfl

/-- What becomes of a body: a negative value, nothing at all, or the fields of a body that
takes all of its bytes. -/
inductive BodyResult (tagHeader : FlvTagHeader) (body : Bytes) : Prop
  | refused (e : ℤ) (he : e < 0) (h : decodeTagData tagHeader body = .error e)
    (hbare : ¬ BareBody tagHeader body)
  | short (h : decodeTagData tagHeader body = .error 0) (hbare : BareBody tagHeader body)
  | bare (tag : DecodedTag) (h : decodeTagData tagHeader body = .ok (tag, 0))
    (hbare : BareBody tagHeader body)
  | full (tag : DecodedTag) (h : decodeTagData tagHeader body = .ok (tag, body.length))
    (hpos : body.length ≠ 0) (hbare : ¬ BareBody tagHeader body)

variable {tagHeader : FlvTagHeader} {body : Bytes}

theorem bodyResult_audio (ht : tagHeader.tagType.toNat % 32 = 8) : BodyResult tagHeader body := by
  have hbare : ¬ BareBody tagHeader body := by
    rintro (h | h)
    · omega
    · omega
  cases hd : AudioTagHeader.decode body with
  | error e =>
    refine .refused (-2) (by decide) ?_ hbare
    simp only [decodeTagData, ht, if_true, TagData.decodeAudio, hd]
  | ok p =>
    obtain ⟨h, n⟩ := p
    have hpos : body.length ≠ 0 := by
      intro hlen
      rw [List.eq_nil_of_length_eq_zero hlen] at hd
      cases hd
    refine .full { tagHeader, tagData := .audio h (body.drop n) } ?_ hpos hbare
    simp only [decodeTagData, ht, if_true, TagData.decodeAudio, hd]

theorem decodeTagData_video (ht : tagHeader.tagType.toNat % 32 = 9) :
    decodeTagData tagHeader body = decodeVideoData tagHeader body := by
  rw [decodeTagData, if_neg (by omega), if_pos ht]

theorem bodyResult_video (ht : tagHeader.tagType.toNat % 32 = 9) : BodyResult tagHeader body := by
  have hbare : BareBody tagHeader body ↔ ShortVideo body := by
    simp [BareBody, ht]
  rw [← videoTagHeader_eq_zero] at hbare
  cases hd : VideoTagHeader.decode body with
  | error e =>
    rw [hd] at hbare
    rcases videoTagHeader_error hd with rfl | rfl
    · refine .short ?_ (hbare.mpr rfl)
      rw [decodeTagData_video ht, decodeVideoData, hd]
      rfl
    · refine .refused (-2) (by decide) ?_ (by rw [hbare]; simp)
      rw [decodeTagData_video ht, decodeVideoData, hd]
      rfl
  | ok p =>
    obtain ⟨h, n⟩ := p
    rw [hd] at hbare
    have hpos : body.length ≠ 0 := by
      intro hlen
      rw [List.eq_nil_of_length_eq_zero hlen] at hd
      cases hd
    have hn : ¬ BareBody tagHeader body := by
      rw [hbare]
      simp
    have hok : ∃ tag, decodeTagData tagHeader body = .ok (tag, body.length) := by
      rw [decodeTagData_video ht, decodeVideoData, hd]
      by_cases havc : h.codecId = .avc
      · simp only [havc, if_true]
        exact ⟨_, rfl⟩
      · simp only [havc, if_false]
        exact ⟨_, rfl⟩
    obtain ⟨tag, htag⟩ := hok
    exact .full tag htag hpos hn

theorem bodyResult_script (ht : tagHeader.tagType.toNat % 32 = 18) : BodyResult tagHeader body := by
  have hd : decodeTagData tagHeader body =
      .ok ({ tagHeader, tagData := .script body }, body.length) := by
    rw [decodeTagData, if_neg (by omega), if_neg (by omega), if_pos ht]
  by_cases hnil : body = []
  · rw [hnil] at hd ⊢
    exact .bare _ hd (.inl ⟨ht, rfl⟩)
  · refine .full _ hd (by rwa [Ne, List.length_eq_zero_iff]) ?_
    rintro (h | h)
    · exact hnil h.2
    · omega

theorem bodyResult (tagHeader : FlvTagHeader) (body : Bytes) : BodyResult tagHeader body := by
  by_cases ha : tagHeader.tagType.toNat % 32 = 8
  · exact bodyResult_audio ha
  by_cases hv : tagHeader.tagType.toNat % 32 = 9
  · exact bodyResult_video hv
  by_cases hs : tagHeader.tagType.toNat % 32 = 18
  · exact bodyResult_script hs
  refine .refused (-3) (by decide) ?_ ?_
  · rw [decodeTagData, if_neg ha, if_neg hv, if_neg hs]
  · rintro (h | h)
    · exact hs h.1
    · exact hv h.1

end Body

section Agreement

variable {old : BitVec 32} {data : Bytes}

theorem agree_of_none (h : FlvTagHeader.decode old data = none) : Agree old data := by
  have hp := properPrefix_of_none h
  refine ⟨?_, fun _ ↦ hp, fun _ ↦ hp⟩
  rw [FlvTag.decodeAndStore, M4s.CompositionTime.FlvTag.decode, h]
  rfl

theorem agree_of_short {tagHeader : FlvTagHeader} {rest : Bytes}
    (h : FlvTagHeader.decode old data = some (tagHeader, rest))
    (hlt : rest.length < tagHeader.dataSize) : Agree old data := by
  have hp := properPrefix_of_short h hlt
  refine ⟨?_, fun _ ↦ hp, fun _ ↦ hp⟩
  rw [FlvTag.decodeAndStore, M4s.CompositionTime.FlvTag.decode, h]
  simp only [if_pos hlt]
  rfl

theorem stored_body {tagHeader : FlvTagHeader} {rest : Bytes}
    (h : FlvTagHeader.decode old data = some (tagHeader, rest)) (n : ℕ) :
    (data.take (flvTagHeaderBytes + n)).drop flvTagHeaderBytes = rest.take n := by
  obtain ⟨hd, rfl, -⟩ := tagHeader_delimited data tagHeader rest h
  have hlen := tagHeader_length h
  rw [List.length_append] at hlen
  have hhd : hd.length = flvTagHeaderBytes := by
    rw [flvTagHeaderBytes]
    omega
  rw [List.drop_take, Nat.add_sub_cancel_left, ← hhd, List.drop_left]

/-- With a whole tag in the buffer everything depends on its body. -/
theorem agree_whole_iff {tagHeader : FlvTagHeader} {rest : Bytes}
    (h : FlvTagHeader.decode old data = some (tagHeader, rest))
    (hle : tagHeader.dataSize ≤ rest.length) :
    Agree old data ↔ ¬ BareBody tagHeader (rest.take tagHeader.dataSize) := by
  have hlen : (rest.take tagHeader.dataSize).length = tagHeader.dataSize :=
    List.length_take_of_le hle
  rw [Agree, FlvTag.decodeAndStore, M4s.CompositionTime.FlvTag.decode, h]
  simp only [if_neg (Nat.not_lt.mpr hle), stored_body h, storeTagData]
  cases bodyResult tagHeader (rest.take tagHeader.dataSize) with
  | refused e he hd hbare =>
    have hne : e ≠ 0 := ne_of_lt he
    simp [hd, he, hbare, hne, Except.map]
  | short hd hbare => simp [hd, hbare, Except.map]
  | bare tag hd hbare => simp [hd, hbare, Except.map]
  | full tag hd hpos hbare =>
    rw [hlen] at hd hpos
    simp [hd, hpos, hbare, Except.map]

end Agreement

/-- The two decoders agree, and wait for more only where more is missing, if and only if the
buffer does not hold a whole tag with a bare body. -/
theorem flvTag_decoders_agree_iff (old : BitVec 32) (data : Bytes) :
    Agree old data ↔ ¬ BareTag old data := by
  cases h : FlvTagHeader.decode old data with
  | none =>
    refine ⟨fun _ ↦ ?_, fun _ ↦ agree_of_none h⟩
    rintro ⟨tagHeader, rest, hsome, -⟩
    rw [h] at hsome
    cases hsome
  | some p =>
    obtain ⟨tagHeader, rest⟩ := p
    by_cases hlt : rest.length < tagHeader.dataSize
    · refine ⟨fun _ ↦ ?_, fun _ ↦ agree_of_short h hlt⟩
      rintro ⟨tagHeader', rest', hsome, hle, -⟩
      rw [h] at hsome
      cases hsome
      omega
    · have hle := Nat.le_of_not_lt hlt
      rw [agree_whole_iff h hle, not_iff_not]
      constructor
      · intro hbare
        exact ⟨tagHeader, rest, h, hle, hbare⟩
      · rintro ⟨tagHeader', rest', hsome, -, hbare⟩
        rw [h] at hsome
        cases hsome
        exact hbare

def emptyScript : Bytes := [18, 0, 0, 0, 0, 0, 0, 0, 0, 0, 0]

/-- One decoder returns 0 for it and waits, the other one takes it. -/
theorem emptyScript_disagree :
    ¬ Agree 0 emptyScript ∧ M4s.CompositionTime.FlvTag.decode 0 emptyScript = .error 0 := by
  have hdecode : M4s.CompositionTime.FlvTag.decode 0 emptyScript = .error 0 := by decide
  refine ⟨fun h ↦ ?_, hdecode⟩
  obtain ⟨hsame, -, -⟩ := h
  rw [hdecode] at hsame
  exact absurd hsame (by decide)

end MmsServer.Rtmp.FlvTagDecoders
