import MmsServer.M4s.MediaSegment
import MmsServer.Rtmp.FlvBridge

namespace MmsServer.M4s.CompositionTime

open Lib.ByteReader Lib.ByteLayout.Layout Mp4.Base Mp4.FragmentBoxes Rtmp.FlvTag Rtmp.FlvBridge MediaSegment

section Decode

/-- What `FlvTag::decode` leaves in a tag. The times are those of `VIDEODATA`, which
are 0 until they are set. -/
structure DecodedTag where
  tagHeader : FlvTagHeader
  tagData : TagData
  pts : BitVec 32 := 0
  dts : BitVec 32 := 0
deriving DecidableEq

/-- The timestamp is added to the composition time as a `uint32_t`. -/
def decodeVideoData (tagHeader : FlvTagHeader) (data : Bytes) : Except ℤ (DecodedTag × ℕ) :=
  match VideoTagHeader.decode data with
  | .error e => .error (if e < 0 then -2 else 0)
  | .ok (header, consumed) =>
    let tag : DecodedTag := { tagHeader := tagHeader, tagData := .video header (data.drop consumed) }
    if header.codecId = .avc then
      .ok ({ tag with
        pts := tagHeader.timestamp + BitVec.ofNat 32 header.compositionTime
        dts := tagHeader.timestamp }, data.length)
    else .ok (tag, data.length)

def decodeTagData (tagHeader : FlvTagHeader) (data : Bytes) : Except ℤ (DecodedTag × ℕ) :=
  if tagHeader.tagType.toNat % 32 = 8 then
    match TagData.decodeAudio data with
    | none => .error (-2)
    | some audio => .ok ({ tagHeader := tagHeader, tagData := audio }, data.length)
  else if tagHeader.tagType.toNat % 32 = 9 then decodeVideoData tagHeader data
  else if tagHeader.tagType.toNat % 32 = 18 then
    .ok ({ tagHeader := tagHeader, tagData := .script data }, data.length)
  else .error (-3)

def FlvTag.decode (old : BitVec 32) (data : Bytes) : Except ℤ (DecodedTag × ℕ) :=
  match FlvTagHeader.decode old data with
  | none => .error 0
  | some (tagHeader, data) =>
    if data.length < tagHeader.dataSize then .error 0
    else
      match decodeTagData tagHeader (data.take tagHeader.dataSize) with
      | .error e => .error e
      | .ok (tag, consumed) =>
        if consumed = 0 then .error 0 else .ok (tag, flvTagHeaderBytes + consumed)

end Decode

section Message

/-- The bytes in front of a composition time: the first byte with the packet type, or
the extended header of coded frames. -/
inductive Front
  | legacy (frameType : Fin 8) (hevc : Bool) (packetType : UInt8)
  | extended (frameType : Fin 8)

def Front.bytes : Front → Bytes
  | .legacy frameType hevc packetType =>
    [UInt8.ofNat (frameType.val * 16 + if hevc then 12 else 7), packetType]
  | .extended frameType => UInt8.ofNat (0x80 + frameType.val * 16 + 1) :: putBE 4 hevcFourccCode

def Front.codecId : Front → CodecId
  | .legacy _ false _ => .avc
  | _ => .hevc

def compositionField (c : ℤ) : Bytes := putBE 3 (c % 2 ^ 24).toNat

/-- A video message of RTMP, whose length has 24 bits. -/
structure VideoMessage where
  timestamp : BitVec 32
  front : Front
  compositionTime : ℤ
  frame : Bytes
  compositionTime_ge : -2 ^ 23 ≤ compositionTime
  compositionTime_lt : compositionTime < 2 ^ 23
  presentation_nonneg : 0 ≤ timestamp.toInt + compositionTime
  payload_lt : (front.bytes ++ compositionField compositionTime ++ frame).length < 2 ^ 24

variable (m : VideoMessage)

def VideoMessage.payload : Bytes := m.front.bytes ++ compositionField m.compositionTime ++ m.frame

def VideoMessage.presentationTime : ℤ := m.timestamp.toInt + m.compositionTime

def VideoMessage.packet : Packet := ⟨m.timestamp, m.payload⟩

/-- Every tag with the message has the presentation time in its `VIDEODATA`. -/
def VideoMessage.TimesTags : Prop :=
  ∀ (old : BitVec 32) (header : FlvTagHeader) (rest : Bytes), header.tagType.toNat % 32 = 9 →
    header.dataSize = m.payload.length → header.timestamp = m.timestamp →
    ∃ tag, FlvTag.decode old (header.bytes ++ (m.payload ++ rest)) =
        .ok (tag, flvTagHeaderBytes + m.payload.length) ∧
      (tag.pts.toNat : ℤ) = m.presentationTime

/-- Every segment with the message has a sample for it whose offset, as it is read from
the bytes of the entry, leads from the decoding time to the presentation time. -/
def VideoMessage.TimesSamples : Prop :=
  ∀ (memory : SegmentMemory) (pre post : List Packet) (dts : BitVec 64) (entry : TrunEntry),
    let trun := videoTrack.trunBox memory (pre ++ m.packet :: post) dts
    ∃ e read, trun.entries[pre.length]? = some e ∧
      Reads (entry.decode trun.version trun.flags) (e.encode trun.flags) read ∧
      (m.packet.time + read.sampleCompositionTimeOffset).toInt = m.presentationTime

/-- `encode` writes the header as it came. -/
def VideoMessage.Rewritten : Prop :=
  ∃ header n, VideoTagHeader.decode m.payload = .ok (header, n) ∧
    ∀ room, n ≤ room → header.encode room = .ok (m.front.bytes ++ compositionField m.compositionTime)

structure VideoMessage.EndToEnd : Prop where
  timesTags : m.TimesTags
  timesSamples : m.TimesSamples
  rewritten : m.Rewritten

end Message

section Headers

theorem decodeExt_compositionTime {frameType : FrameType} {t : ExtPacketType} {data : Bytes}
    {h : VideoTagHeader} {n : ℕ} (hd : VideoTagHeader.decodeExt frameType t data = .ok (h, n)) :
    h.compositionTime < 2 ^ 24 := by
  unfold VideoTagHeader.decodeExt at hd
  cases hf : readBE 4 data with
  | none => rw [hf] at hd; cases hd
  | some r =>
    simp only [hf] at hd
    split at hd
    · cases t with
      | codedFrames =>
        cases ht : readBE 3 r.2 with
        | none => rw [ht] at hd; cases hd
        | some r' =>
          rw [ht] at hd
          cases hd
          exact readBE_lt ht
      | sequenceStart => cases hd; exact Nat.two_pow_pos 24
      | sequenceEnd => cases hd; exact Nat.two_pow_pos 24
      | codedFramesX => cases hd; exact Nat.two_pow_pos 24
      | other code => cases hd; exact Nat.two_pow_pos 24
    · cases hd

theorem compositionTime_lt {data : Bytes} {h : VideoTagHeader} {n : ℕ}
    (hd : VideoTagHeader.decode data = .ok (h, n)) : h.compositionTime < 2 ^ 24 := by
  cases data with
  | nil => cases hd
  | cons b data =>
    simp only [VideoTagHeader.decode] at hd
    split at hd
    · exact decodeExt_compositionTime hd
    · split at hd
      · cases hp : readBE 1 data with
        | none => rw [hp] at hd; cases hd
        | some r =>
          simp only [hp] at hd
          cases ht : readBE 3 r.2 with
          | none => rw [ht] at hd; cases hd
          | some r' =>
            rw [ht] at hd
            cases hd
            exact readBE_lt ht
      · cases hd

theorem toNat_legacyByte (frameType : Fin 8) {codec : ℕ} (hcodec : codec < 16) :
    (UInt8.ofNat (frameType.val * 16 + codec)).toNat = frameType.val * 16 + codec :=
  UInt8.toNat_ofNat_of_lt' (show _ < 256 by omega)

theorem decode_front (f : Front) (v : ℕ) (hv : v < 2 ^ 24) (frame : Bytes) :
    ∃ h, VideoTagHeader.decode (f.bytes ++ putBE 3 v ++ frame) = .ok (h, f.bytes.length + 3) ∧
      h.compositionTime = v ∧ h.codecId = f.codecId := by
  have htime : readBE 3 (putBE 3 v ++ frame) = some (v, frame) := readBE_putBE_of_lt (by omega) frame
  cases f with
  | legacy frameType hevc packetType =>
    have hcodec : (if hevc then 12 else 7) < 16 := by split <;> decide
    have hb := toNat_legacyByte frameType hcodec
    have hpacket (rest : Bytes) : readBE 1 (packetType :: rest) = some (packetType.toNat, rest) := by
      simpa [fromBE] using readBE_of_length (show [packetType].length = 1 from rfl) rest
    have hid : CodecId.ofCode (if hevc then 12 else 7) = (Front.legacy frameType hevc packetType).codecId := by
      cases hevc <;> rfl
    have hknown : (Front.legacy frameType hevc packetType).codecId = .avc ∨
        (Front.legacy frameType hevc packetType).codecId = .hevc := by
      cases hevc
      · exact .inl rfl
      · exact .inr rfl
    simp only [Front.bytes, List.cons_append, List.nil_append, VideoTagHeader.decode]
    rw [if_neg (by rw [hb]; omega),
      show (UInt8.ofNat (frameType.val * 16 + if hevc then 12 else 7)).toNat % 16 = if hevc then 12 else 7 by
        rw [hb]; omega,
      hid, if_pos hknown, hpacket]
    simp only [htime]
    exact ⟨_, rfl, rfl, rfl⟩
  | extended frameType =>
    have hb : (UInt8.ofNat (0x80 + frameType.val * 16 + 1)).toNat = 0x80 + frameType.val * 16 + 1 :=
      UInt8.toNat_ofNat_of_lt' (show _ < 256 by omega)
    have hfourcc : readBE 4 (putBE 4 hevcFourccCode ++ (putBE 3 v ++ frame)) =
        some (hevcFourccCode, putBE 3 v ++ frame) := readBE_putBE_of_lt (by decide) _
    simp only [Front.bytes, List.cons_append, List.append_assoc, VideoTagHeader.decode]
    rw [if_pos (by rw [hb]; omega),
      show (UInt8.ofNat (0x80 + frameType.val * 16 + 1)).toNat % 16 = 1 by rw [hb]; omega,
      VideoTagHeader.decodeExt, hfourcc]
    simp only [if_true, ExtPacketType.ofCode, htime]
    exact ⟨_, rfl, rfl, rfl⟩

end Headers

section Times

variable (m : VideoMessage)

theorem compositionField_length (c : ℤ) : (compositionField c).length = 3 := putBE_length _ _

def VideoMessage.field : ℕ := (m.compositionTime % 2 ^ 24).toNat

theorem VideoMessage.field_lt : m.field < 2 ^ 24 := by
  rw [field]
  omega

theorem VideoMessage.field_of_nonneg (h : 0 ≤ m.compositionTime) : (m.field : ℤ) = m.compositionTime := by
  have hlt := m.compositionTime_lt
  rw [field]
  omega

theorem VideoMessage.field_of_neg (h : m.compositionTime < 0) :
    (m.field : ℤ) = m.compositionTime + 2 ^ 24 := by
  have hge := m.compositionTime_ge
  rw [field]
  omega

theorem VideoMessage.decode_payload :
    ∃ h, VideoTagHeader.decode m.payload = .ok (h, m.front.bytes.length + 3) ∧
      h.compositionTime = m.field ∧ h.codecId = m.front.codecId :=
  decode_front m.front m.field m.field_lt m.frame

theorem VideoMessage.rewritten : m.Rewritten := by
  obtain ⟨h, hd, -, -⟩ := m.decode_payload
  refine ⟨h, _, hd, fun room hroom ↦ ?_⟩
  obtain ⟨bytes, rest, he, hlen, hdata⟩ := videoTagHeader_inv hd hroom
  rw [he]
  congr 1
  apply (List.append_inj_left hdata _).symm
  rw [hlen, List.length_append, compositionField_length]

theorem VideoMessage.timestamp_bounds :
    m.timestamp.toInt = if m.timestamp.toNat < 2 ^ 31 then (m.timestamp.toNat : ℤ)
      else m.timestamp.toNat - 2 ^ 32 := by
  rw [BitVec.toInt_eq_toNat_cond]
  split <;> split <;> omega

/-- A tag of AVC gets the sum of the unsigned values, and a tag of HEVC none. -/
theorem VideoMessage.decode_tag (old : BitVec 32) (header : FlvTagHeader) (rest : Bytes)
    (htype : header.tagType.toNat % 32 = 9) (hsize : header.dataSize = m.payload.length)
    (htime : header.timestamp = m.timestamp) :
    ∃ tag, FlvTag.decode old (header.bytes ++ (m.payload ++ rest)) =
        .ok (tag, flvTagHeaderBytes + m.payload.length) ∧
      tag.pts = if m.front.codecId = .avc then m.timestamp + BitVec.ofNat 32 m.field else 0 := by
  have hheader := FlvTagHeader.decode_bytes (hsize ▸ m.payload_lt) old (m.payload ++ rest)
  obtain ⟨h, hd, hfield, hcodec⟩ := m.decode_payload
  have hpos : m.payload.length ≠ 0 := by
    rw [payload, List.length_append, List.length_append, compositionField_length]
    omega
  have hlen : ¬ (m.payload ++ rest).length < m.payload.length := by
    rw [List.length_append]
    omega
  rw [FlvTag.decode, hheader]
  simp only [hsize, hlen, if_false, List.take_left, decodeTagData, htype, decodeVideoData, hd, hcodec,
    hfield, htime, if_true, show ¬ (9 = 8) by decide]
  by_cases havc : m.front.codecId = .avc
  · simp only [havc, if_true, hpos, if_false]
    exact ⟨_, rfl, rfl⟩
  · simp only [havc, if_false, hpos]
    exact ⟨_, rfl, rfl⟩

theorem VideoMessage.pts_iff :
    ((m.timestamp + BitVec.ofNat 32 m.field).toNat : ℤ) = m.presentationTime ↔ 0 ≤ m.compositionTime := by
  have hlt := m.field_lt
  have htime := m.timestamp.isLt
  have hnonneg := m.presentation_nonneg
  have hbounds := m.timestamp_bounds
  rw [BitVec.toNat_add, BitVec.toNat_ofNat, presentationTime]
  constructor
  · intro h
    by_contra hneg
    have hfield := m.field_of_neg (by omega)
    split at hbounds <;> omega
  · intro h
    have hfield := m.field_of_nonneg h
    split at hbounds <;> omega

theorem trunEntries_at (t : Track) (dts : BitVec 64) (flags : BitVec 32) (pre : List Packet) (p : Packet)
    (post : List Packet) :
    ∃ e, (t.trunEntries dts flags (pre ++ p :: post))[pre.length]? = some e ∧
      e.sampleCompositionTimeOffset = (t.header p.payload).2 := by
  induction pre generalizing flags with
  | nil => exact ⟨_, rfl, rfl⟩
  | cons q pre ih =>
    rw [List.cons_append, Track.trunEntries, List.length_cons, List.getElem?_cons_succ]
    exact ih _

theorem videoHeader_lt (payload : Bytes) : (videoHeader payload).2.toNat < 2 ^ 24 := by
  unfold videoHeader
  split
  · rename_i hd
    have hlt := compositionTime_lt hd
    rw [BitVec.toNat_ofNat]
    omega
  · exact Nat.two_pow_pos 24

theorem trunEntries_lt (dts : BitVec 64) (flags : BitVec 32) (pkts : List Packet) :
    ∀ e ∈ videoTrack.trunEntries dts flags pkts, e.sampleCompositionTimeOffset.toNat < 2 ^ 24 := by
  induction pkts generalizing flags with
  | nil => simp [Track.trunEntries]
  | cons p ps ih =>
    rw [Track.trunEntries, List.forall_mem_cons]
    exact ⟨videoHeader_lt p.payload, ih _⟩

/-- No offset is negative, so that no segment has the version with signed offsets. -/
theorem trunVersion_video (dts : BitVec 64) (flags : BitVec 32) (pkts : List Packet) :
    trunVersion (videoTrack.trunEntries dts flags pkts) = 0 := by
  rw [trunVersion, if_neg]
  rintro ⟨e, he, hneg⟩
  have hlt := trunEntries_lt dts flags pkts e he
  rw [BitVec.toInt_eq_toNat_of_lt (by omega)] at hneg
  omega

theorem VideoMessage.reads_sample (memory : SegmentMemory) (pre post : List Packet) (dts : BitVec 64)
    (entry : TrunEntry) :
    let trun := videoTrack.trunBox memory (pre ++ m.packet :: post) dts
    ∃ e read, trun.entries[pre.length]? = some e ∧
      Reads (entry.decode trun.version trun.flags) (e.encode trun.flags) read ∧
      read.sampleCompositionTimeOffset = BitVec.ofNat 64 m.field := by
  obtain ⟨e, he, hoffset⟩ := trunEntries_at videoTrack dts 0x02000000 pre m.packet post
  refine ⟨e, _, he, TrunEntry.reads _ _ _ _, ?_⟩
  have hversion : (videoTrack.trunBox memory (pre ++ m.packet :: post) dts).version = 0 :=
    trunVersion_video _ _ _
  have hvalue : (videoTrack.header m.packet.payload).2 = BitVec.ofNat 64 m.field := by
    obtain ⟨h, hd, hfield, -⟩ := m.decode_payload
    change (videoHeader m.payload).2 = _
    rw [videoHeader, hd, ← hfield]
  have hflags : HasFlag (videoTrack.trunBox memory (pre ++ m.packet :: post) dts).flags trunSampleCtsOffset :=
    show HasFlag trunFlags trunSampleCtsOffset by decide
  have hlt := m.field_lt
  simp only [TrunEntry.readInto, hversion, if_true, hoffset, hvalue]
  rw [if_pos hflags]
  apply BitVec.eq_of_toNat_eq
  rw [BitVec.toNat_setWidth, BitVec.toNat_setWidth, BitVec.toNat_ofNat]
  omega

theorem VideoMessage.sampleTime :
    (m.packet.time + BitVec.ofNat 64 m.field).toInt = m.timestamp.toInt + m.field := by
  have hlt := m.field_lt
  have htime := m.timestamp.isLt
  have hbounds := m.timestamp_bounds
  have hpacket : m.packet.time.toInt = m.timestamp.toInt := BitVec.toInt_signExtend_of_le (by decide)
  have hfield : (BitVec.ofNat 64 m.field).toNat = m.field := by
    rw [BitVec.toNat_ofNat, Nat.mod_eq_of_lt (by omega)]
  rw [BitVec.toInt_add, hpacket, BitVec.toInt_eq_toNat_of_lt (x := BitVec.ofNat 64 m.field) (by omega),
    hfield, Int.bmod_eq_of_le]
  · split at hbounds <;> omega
  · split at hbounds <;> omega

theorem VideoMessage.timesSamples_iff : m.TimesSamples ↔ 0 ≤ m.compositionTime := by
  constructor
  · intro h
    obtain ⟨e, read, he, hread, htime⟩ := h default [] [] 0 ⟨0, 0, 0, 0⟩
    obtain ⟨e', read', he', hread', hoffset⟩ := m.reads_sample default [] [] 0 ⟨0, 0, 0, 0⟩
    cases he.symm.trans he'
    rw [hread.unique hread', hoffset, m.sampleTime, presentationTime] at htime
    omega
  · intro h memory pre post dts entry
    obtain ⟨e, read, he, hread, hoffset⟩ := m.reads_sample memory pre post dts entry
    refine ⟨e, read, he, hread, ?_⟩
    rw [hoffset, m.sampleTime, m.field_of_nonneg h, presentationTime]

def VideoMessage.tagHeader : FlvTagHeader where
  tagType := videoTag
  dataSize := m.payload.length
  timestamp := m.timestamp
  streamId := 0

theorem VideoMessage.timesTags_avc (havc : m.front.codecId = .avc) :
    m.TimesTags ↔ 0 ≤ m.compositionTime := by
  rw [← m.pts_iff]
  constructor
  · intro h
    obtain ⟨tag, hd, htime⟩ := h 0 m.tagHeader [] rfl rfl rfl
    obtain ⟨tag', hd', hpts⟩ := m.decode_tag 0 m.tagHeader [] rfl rfl rfl
    cases hd.symm.trans hd'
    rwa [hpts, if_pos havc] at htime
  · intro h old header rest htype hsize htime
    obtain ⟨tag, hd, hpts⟩ := m.decode_tag old header rest htype hsize htime
    exact ⟨tag, hd, by rw [hpts, if_pos havc, h]⟩

theorem VideoMessage.timesTags_hevc (hhevc : m.front.codecId ≠ .avc) :
    m.TimesTags ↔ m.presentationTime = 0 := by
  constructor
  · intro h
    obtain ⟨tag, hd, htime⟩ := h 0 m.tagHeader [] rfl rfl rfl
    obtain ⟨tag', hd', hpts⟩ := m.decode_tag 0 m.tagHeader [] rfl rfl rfl
    cases hd.symm.trans hd'
    rw [hpts, if_neg hhevc] at htime
    exact htime.symm
  · intro h old header rest htype hsize htime
    obtain ⟨tag, hd, hpts⟩ := m.decode_tag old header rest htype hsize htime
    exact ⟨tag, hd, by rw [hpts, if_neg hhevc, h]; rfl⟩

/-- A composition time survives when it is not negative. `FlvTag::decode` sets the
presentation time for AVC only. -/
theorem compositionTime_endToEnd_iff (m : VideoMessage) :
    (m.EndToEnd ↔ 0 ≤ m.compositionTime ∧ (m.front.codecId = .avc ∨ m.presentationTime = 0)) ∧
      (m.front.codecId = .avc → (m.TimesTags ↔ 0 ≤ m.compositionTime)) ∧
      (m.TimesSamples ↔ 0 ≤ m.compositionTime) ∧ m.Rewritten := by
  refine ⟨⟨?_, ?_⟩, m.timesTags_avc, m.timesSamples_iff, m.rewritten⟩
  · rintro ⟨htags, hsamples, -⟩
    refine ⟨m.timesSamples_iff.mp hsamples, ?_⟩
    by_cases havc : m.front.codecId = .avc
    · exact .inl havc
    · exact .inr ((m.timesTags_hevc havc).mp htags)
  · rintro ⟨hnonneg, hcodec⟩
    refine ⟨?_, m.timesSamples_iff.mpr hnonneg, m.rewritten⟩
    by_cases havc : m.front.codecId = .avc
    · exact (m.timesTags_avc havc).mpr hnonneg
    · exact (m.timesTags_hevc havc).mpr (hcodec.resolve_left havc)

def shownEarly : VideoMessage where
  timestamp := 1000
  front := .legacy 2 false 1
  compositionTime := -40
  frame := [0xaa]
  compositionTime_ge := by decide
  compositionTime_lt := by decide
  presentation_nonneg := by decide
  payload_lt := by decide

theorem shownEarly_not_endToEnd : ¬ shownEarly.EndToEnd :=
  fun h ↦ absurd (shownEarly.timesSamples_iff.mp h.timesSamples) (by decide)

end Times

end MmsServer.M4s.CompositionTime
