import MmsServer.Rtmp.Define
import MmsServer.Rtmp.FlvTag

namespace MmsServer.Rtmp.FlvBridge

open Lib.ByteReader Define FlvTag

section Tag

def flvTagHeaderBytes : ℕ := 11

def audioTag : UInt8 := 8

def videoTag : UInt8 := 9

def scriptTag : UInt8 := 18

structure FlvTagHeader where
  tagType : UInt8
  dataSize : ℕ
  timestamp : BitVec 32
  streamId : BitVec 32
deriving DecidableEq

/-- The timestamp is written with its high byte behind the other three. -/
def FlvTagHeader.bytes (h : FlvTagHeader) : Bytes :=
  [h.tagType] ++ putBE 3 h.dataSize ++
    (putBE 3 h.timestamp.toNat ++ [UInt8.ofNat (h.timestamp.toNat / 2 ^ 24)]) ++ putBE 3 h.streamId.toNat

def FlvTagHeader.encode (h : FlvTagHeader) (room : ℕ) : Except ℤ Bytes :=
  if room < 1 then .error (-1)
  else if room < 4 then .error (-2)
  else if room < 8 then .error (-3)
  else if room < 11 then .error (-4)
  else .ok h.bytes

/-- The stream id keeps the high byte of what was there before. -/
def FlvTagHeader.decode (old : BitVec 32) : Reader FlvTagHeader := do
  let tagType ← readBE 1
  let dataSize ← readBE 3
  let low ← readBE 3
  let high ← readBE 1
  let streamId ← readBE 3
  return { tagType := UInt8.ofNat tagType
           dataSize := dataSize
           timestamp := BitVec.ofNat 32 (high * 2 ^ 24 + low)
           streamId := BitVec.ofNat 32 (old.toNat / 2 ^ 24 * 2 ^ 24 + streamId) }

inductive TagData
  | audio (header : AudioTagHeader) (payload : Bytes)
  | video (header : VideoTagHeader) (payload : Bytes)
  | script (payload : Bytes)
deriving DecidableEq

def TagData.payload : TagData → Bytes
  | .audio _ payload => payload
  | .video _ payload => payload
  | .script payload => payload

def audioHeaderInto (h : AudioTagHeader) (room : ℕ) : Except ℤ Bytes :=
  if room < 1 then .error (-1)
  else if h.soundFormat = .aac ∧ room < 2 then .error (-2)
  else .ok h.encode

def withPayload (header : Except ℤ Bytes) (payload : Bytes) (room : ℕ) : Except ℤ Bytes :=
  match header with
  | .error _ => .error (-1)
  | .ok hd => if room < hd.length + payload.length then .error (-2) else .ok (hd ++ payload)

def TagData.encode (d : TagData) (room : ℕ) : Except ℤ Bytes :=
  match d with
  | .audio h payload => withPayload (audioHeaderInto h room) payload room
  | .video h payload => withPayload (h.encode room) payload room
  | .script payload => if room < payload.length then .error (-1) else .ok payload

structure FlvTag extends Packet where
  tagHeader : FlvTagHeader
  tagData : TagData

theorem FlvTagHeader.bytes_length (h : FlvTagHeader) : h.bytes.length = 11 := by
  simp [FlvTagHeader.bytes, putBE_length]

theorem FlvTagHeader.encode_eq {h : FlvTagHeader} {room : ℕ} (hroom : 11 ≤ room) :
    h.encode room = .ok h.bytes := by
  rw [FlvTagHeader.encode, if_neg (by omega), if_neg (by omega), if_neg (by omega), if_neg (by omega)]

theorem FlvTagHeader.encode_ok {h : FlvTagHeader} {room : ℕ} {hd : Bytes} (he : h.encode room = .ok hd) :
    11 ≤ room ∧ hd = h.bytes := by
  unfold FlvTagHeader.encode at he
  split at he
  · cases he
  · split at he
    · cases he
    · split at he
      · cases he
      · split at he
        · cases he
        · cases he
          exact ⟨by omega, rfl⟩

/-- The eleven bytes of a tag header say what is in it, with the stream id cut
to 24 bits. -/
theorem FlvTagHeader.decode_bytes {h : FlvTagHeader} (hsize : h.dataSize < 2 ^ 24) (old : BitVec 32) :
    Yields (FlvTagHeader.decode old) h.bytes
      { h with streamId := BitVec.ofNat 32 (old.toNat / 2 ^ 24 * 2 ^ 24 + h.streamId.toNat % 2 ^ 24) } := by
  have hts := h.timestamp.isLt
  have hbyte (b : UInt8) : Yields (readBE 1) [b] b.toNat := by
    simpa [fromBE] using readBE_of_length (show [b].length = 1 from rfl)
  simp only [FlvTagHeader.bytes, List.append_assoc]
  refine (hbyte _).bind ((readBE_putBE_of_lt (by omega)).bind ((readBE_putBE 3 _).bind
    ((hbyte _).bind ?_)))
  rw [← List.append_nil (putBE 3 h.streamId.toNat)]
  refine (readBE_putBE 3 _).bind ?_
  have htime : (UInt8.ofNat (h.timestamp.toNat / 2 ^ 24)).toNat * 2 ^ 24 + h.timestamp.toNat % 256 ^ 3 =
      h.timestamp.toNat := by
    rw [UInt8.toNat_ofNat_of_lt' (show _ < 256 by omega)]
    omega
  rw [htime, UInt8.ofNat_toNat, BitVec.ofNat_toNat, BitVec.setWidth_eq]
  exact Yields.pure _

theorem withPayload_le {header : Except ℤ Bytes} {payload bs : Bytes} {room : ℕ}
    (he : withPayload header payload room = .ok bs) : bs.length ≤ room := by
  unfold withPayload at he
  split at he
  · cases he
  · split at he
    · cases he
    · cases he
      rw [List.length_append]
      omega

theorem TagData.encode_le {d : TagData} {room : ℕ} {bs : Bytes} (he : d.encode room = .ok bs) :
    bs.length ≤ room := by
  cases d with
  | audio h payload => exact withPayload_le he
  | video h payload => exact withPayload_le he
  | script payload =>
    simp only [TagData.encode] at he
    split at he
    · cases he
    · cases he
      omega

theorem FlvTag.fits_encode {h : FlvTagHeader} {d : TagData} {room : ℕ} {hd data : Bytes}
    (hh : h.encode room = .ok hd) (he : d.encode (room - hd.length) = .ok data) :
    (hd ++ data).length ≤ room := by
  obtain ⟨hroom, rfl⟩ := FlvTagHeader.encode_ok hh
  have hl := TagData.encode_le he
  rw [FlvTagHeader.bytes_length] at hl
  rw [List.length_append, FlvTagHeader.bytes_length]
  omega

def FlvTag.encode (t : FlvTag) : Except ℤ FlvTag :=
  match hh : t.tagHeader.encode t.dataBytes with
  | .error _ => .error (-1)
  | .ok hd =>
    match he : t.tagData.encode (t.dataBytes - hd.length) with
    | .error _ => .error (-2)
    | .ok data => .ok { t with usingData := hd ++ data, fits := FlvTag.fits_encode hh he }

/-- The bridges ignore the result of `encode`. -/
def FlvTag.encoded (t : FlvTag) : FlvTag :=
  match t.encode with
  | .ok t' => t'
  | .error _ => t

theorem FlvTag.encoded_spec {t : FlvTag} {data : Bytes} (hroom : 11 ≤ t.dataBytes)
    (hd : t.tagData.encode (t.dataBytes - 11) = .ok data) :
    t.encoded.usingData = t.tagHeader.bytes ++ data ∧ t.encoded.tagHeader = t.tagHeader := by
  have hh := FlvTagHeader.encode_eq (h := t.tagHeader) hroom
  rw [← t.tagHeader.bytes_length] at hd
  unfold FlvTag.encoded FlvTag.encode
  split
  · rename_i t' ht
    split at ht
    · cases ht
    · rename_i hd' he
      cases hh.symm.trans he
      split at ht
      · cases ht
      · rename_i data' hdata
        cases hd.symm.trans hdata
        cases ht
        exact ⟨rfl, rfl⟩
  · rename_i e he
    split at he
    · rename_i hh'
      cases hh.symm.trans hh'
    · rename_i hd' hh'
      cases hh.symm.trans hh'
      split at he
      · rename_i hdata
        cases hd.symm.trans hdata
      · cases he

end Tag

section Bridges

def TagData.decodeAudio (data : Bytes) : Option TagData :=
  match AudioTagHeader.decode data with
  | .ok (h, n) => some (.audio h (data.drop n))
  | .error _ => none

def TagData.decodeVideo (data : Bytes) : Option TagData :=
  match VideoTagHeader.decode data with
  | .ok (h, n) => some (.video h (data.drop n))
  | .error _ => none

def rtmpMessageTypeAudio : UInt8 := 8

def rtmpMessageTypeVideo : UInt8 := 9

def rtmpMessageTypeAmf0Data : UInt8 := 18

def FlvTag.forMessage (m : RtmpMessage) (tagType : UInt8) (data : TagData) : FlvTag where
  toPacket := .alloc (flvTagHeaderBytes + m.usingData.length)
  tagHeader :=
    { tagType := tagType
      dataSize := m.usingData.length
      timestamp := m.timestamp
      streamId := m.messageStreamId }
  tagData := data

/-- The tag that `RtmpToFlv` hands on. The messages whose codec header does not
decode, which the code drops or encodes with fields it has not set, have none. -/
def RtmpToFlv.onAudioPacket (m : RtmpMessage) : Option FlvTag :=
  (TagData.decodeAudio m.usingData).map fun data ↦ (FlvTag.forMessage m audioTag data).encoded

def RtmpToFlv.onVideoPacket (m : RtmpMessage) : Option FlvTag :=
  (TagData.decodeVideo m.usingData).map fun data ↦ (FlvTag.forMessage m videoTag data).encoded

def RtmpToFlv.onMetadata (m : RtmpMessage) : Option FlvTag :=
  some (FlvTag.forMessage m scriptTag (.script m.usingData)).encoded

def RtmpToFlv.onRtmpMessage (m : RtmpMessage) : Option FlvTag :=
  if m.messageTypeId = rtmpMessageTypeAudio then RtmpToFlv.onAudioPacket m
  else if m.messageTypeId = rtmpMessageTypeVideo then RtmpToFlv.onVideoPacket m
  else RtmpToFlv.onMetadata m

/-- The payload of the tag in a message of its own. A tag shorter than its
header would make the size of the copy wrap around. -/
def FlvToRtmp.toMessage (t : FlvTag) (typeId : UInt8) : Option RtmpMessage :=
  if t.usingData.length < flvTagHeaderBytes then none
  else some
    { Packet.ofBytes (t.usingData.drop flvTagHeaderBytes) with
      messageTypeId := typeId
      timestamp := t.tagHeader.timestamp
      messageStreamId := 0
      chunkStreamId := 8 }

def FlvToRtmp.onAudioPacket (t : FlvTag) : Option RtmpMessage :=
  FlvToRtmp.toMessage t rtmpMessageTypeAudio

def FlvToRtmp.onVideoPacket (t : FlvTag) : Option RtmpMessage :=
  FlvToRtmp.toMessage t rtmpMessageTypeVideo

def FlvToRtmp.onMetadata (t : FlvTag) : Option RtmpMessage :=
  FlvToRtmp.toMessage t rtmpMessageTypeAmf0Data

/-- `get_tag_type` takes the low five bits. -/
def FlvToRtmp.onFlvTag (t : FlvTag) : Option RtmpMessage :=
  if t.tagHeader.tagType.toNat % 32 = 8 then FlvToRtmp.onAudioPacket t
  else if t.tagHeader.tagType.toNat % 32 = 9 then FlvToRtmp.onVideoPacket t
  else if t.tagHeader.tagType.toNat % 32 = 18 then FlvToRtmp.onMetadata t
  else none

/-- An audio or video message whose codec header decodes. -/
inductive Media (m : RtmpMessage) : Prop
  | audio (h : AudioTagHeader) (n : ℕ) : m.messageTypeId = rtmpMessageTypeAudio →
      AudioTagHeader.decode m.usingData = .ok (h, n) → Media m
  | video (h : VideoTagHeader) (n : ℕ) : m.messageTypeId = rtmpMessageTypeVideo →
      VideoTagHeader.decode m.usingData = .ok (h, n) → 0 < n → Media m

theorem withPayload_eq {hd payload : Bytes} {room : ℕ} (h : hd.length + payload.length ≤ room) :
    withPayload (.ok hd) payload room = .ok (hd ++ payload) := by
  rw [withPayload, if_neg (by omega)]

theorem audio_encode_eq {data : Bytes} {h : AudioTagHeader} {n : ℕ}
    (hd : AudioTagHeader.decode data = .ok (h, n)) :
    (TagData.audio h (data.drop n)).encode data.length = .ok data := by
  obtain ⟨hlen, hdata⟩ := audioTagHeader_inv hd
  have htotal : h.encode.length + (data.drop n).length = data.length := by
    rw [← List.length_append, ← hdata]
  have hroom : ¬ (h.soundFormat = .aac ∧ data.length < 2) := by
    rintro ⟨haac, hlt⟩
    rw [AudioTagHeader.encode, if_pos haac] at htotal
    simp only [List.length_cons, List.length_nil] at htotal
    omega
  have hone : ¬ data.length < 1 := by
    rw [AudioTagHeader.encode, List.length_cons] at htotal
    omega
  rw [TagData.encode, audioHeaderInto, if_neg hone, if_neg hroom, withPayload_eq htotal.le, ← hdata]

theorem video_encode_eq {data : Bytes} {h : VideoTagHeader} {n : ℕ}
    (hd : VideoTagHeader.decode data = .ok (h, n)) :
    (TagData.video h (data.drop n)).encode data.length = .ok data := by
  have hn : n ≤ data.length := by
    obtain ⟨bytes, rest, -, hlen, hdata⟩ := videoTagHeader_inv hd le_rfl
    rw [hdata, List.length_append]
    omega
  obtain ⟨bytes, rest, he, hlen, hdata⟩ := videoTagHeader_inv hd hn
  have hrest : data.drop n = rest := by
    rw [hdata, ← hlen, List.drop_left]
  have htotal : bytes.length + rest.length = data.length := by
    rw [hdata, List.length_append]
  rw [TagData.encode, he, hrest, withPayload_eq htotal.le, ← hdata]

theorem forMessage_encoded {m : RtmpMessage} {data : TagData}
    (hd : data.encode m.usingData.length = .ok m.usingData) (tagType : UInt8) :
    (FlvTag.forMessage m tagType data).encoded.usingData =
        (FlvTag.forMessage m tagType data).tagHeader.bytes ++ m.usingData ∧
      (FlvTag.forMessage m tagType data).encoded.tagHeader =
        (FlvTag.forMessage m tagType data).tagHeader := by
  have hroom : (FlvTag.forMessage m tagType data).dataBytes = 11 + m.usingData.length := rfl
  refine FlvTag.encoded_spec (by omega) ?_
  rw [hroom, Nat.add_sub_cancel_left]
  exact hd

def headerOf (m : RtmpMessage) : FlvTagHeader where
  tagType := m.messageTypeId
  dataSize := m.usingData.length
  timestamp := m.timestamp
  streamId := m.messageStreamId

theorem media_to_flv {m : RtmpMessage} (hm : Media m) :
    ∃ t, RtmpToFlv.onRtmpMessage m = some t ∧ t.usingData = (headerOf m).bytes ++ m.usingData ∧
      t.tagHeader = headerOf m := by
  cases hm with
  | audio h n ht hd =>
    have hh : (FlvTag.forMessage m audioTag (.audio h (m.usingData.drop n))).tagHeader = headerOf m := by
      rw [headerOf, ht]
      rfl
    obtain ⟨hused, hheader⟩ := forMessage_encoded (audio_encode_eq hd) audioTag
    refine ⟨_, ?_, hh ▸ hused, hheader.trans hh⟩
    rw [RtmpToFlv.onRtmpMessage, if_pos ht, RtmpToFlv.onAudioPacket, TagData.decodeAudio, hd]
    rfl
  | video h n ht hd hn =>
    have hh : (FlvTag.forMessage m videoTag (.video h (m.usingData.drop n))).tagHeader = headerOf m := by
      rw [headerOf, ht]
      rfl
    obtain ⟨hused, hheader⟩ := forMessage_encoded (video_encode_eq hd) videoTag
    refine ⟨_, ?_, hh ▸ hused, hheader.trans hh⟩
    rw [RtmpToFlv.onRtmpMessage, if_neg (by rw [ht]; decide), if_pos ht, RtmpToFlv.onVideoPacket,
      TagData.decodeVideo, hd]
    rfl

theorem flv_to_media {m : RtmpMessage} {t : FlvTag} (hm : Media m)
    (hused : t.usingData = (headerOf m).bytes ++ m.usingData) (hheader : t.tagHeader = headerOf m) :
    ∃ m', FlvToRtmp.onFlvTag t = some m' ∧ m'.usingData = m.usingData ∧
      m'.messageTypeId = m.messageTypeId ∧ m'.timestamp = m.timestamp := by
  have hl := (headerOf m).bytes_length
  have hdrop : t.usingData.drop flvTagHeaderBytes = m.usingData := by
    rw [hused, flvTagHeaderBytes, ← hl, List.drop_left]
  have hmessage (typeId : UInt8) : ∃ m', FlvToRtmp.toMessage t typeId = some m' ∧
      m'.usingData = m.usingData ∧ m'.messageTypeId = typeId ∧ m'.timestamp = m.timestamp := by
    rw [FlvToRtmp.toMessage, if_neg (by rw [hused, List.length_append, hl, flvTagHeaderBytes]; omega)]
    exact ⟨_, rfl, hdrop, rfl, by rw [hheader]; rfl⟩
  have htype : t.tagHeader.tagType = m.messageTypeId := by
    rw [hheader]
    rfl
  rw [FlvToRtmp.onFlvTag, htype]
  cases hm with
  | audio h n ht hd =>
    rw [ht]
    exact hmessage rtmpMessageTypeAudio
  | video h n ht hd hn =>
    rw [ht]
    exact hmessage rtmpMessageTypeVideo

theorem headerOf_decode (m : RtmpMessage) (hlen : m.usingData.length < 2 ^ 24) :
    Yields (FlvTagHeader.decode 0) (headerOf m).bytes
      { headerOf m with streamId := BitVec.ofNat 32 (m.messageStreamId.toNat % 2 ^ 24) } := by
  simpa [headerOf] using FlvTagHeader.decode_bytes (h := headerOf m) hlen 0

/-- The bridges are inverse on media: the tag has a header of eleven bytes and
the payload of the message, and the way back gives the message. -/
theorem bridges_inverse (m : RtmpMessage) (hm : Media m) (hlen : m.usingData.length < 2 ^ 24) :
    ∃ t, RtmpToFlv.onRtmpMessage m = some t ∧
      (∃ header, header.length = 11 ∧ t.usingData = header ++ m.usingData ∧
        Yields (FlvTagHeader.decode 0) header
          { tagType := m.messageTypeId
            dataSize := m.usingData.length
            timestamp := m.timestamp
            streamId := BitVec.ofNat 32 (m.messageStreamId.toNat % 2 ^ 24) }) ∧
      ∃ m', FlvToRtmp.onFlvTag t = some m' ∧ m'.usingData = m.usingData ∧
        m'.messageTypeId = m.messageTypeId ∧ m'.timestamp = m.timestamp := by
  obtain ⟨t, ht, hused, hheader⟩ := media_to_flv hm
  exact ⟨t, ht, ⟨_, (headerOf m).bytes_length, hused, headerOf_decode m hlen⟩, flv_to_media hm hused hheader⟩

def extendedFrame : RtmpMessage where
  toPacket := .ofBytes [0x91, 0x68, 0x76, 0x63, 0x31, 0, 0, 40, 1, 2, 3]
  messageTypeId := 9
  timestamp := 0x12345678
  messageStreamId := 1
  chunkStreamId := 6

theorem extendedFrame_media : Media extendedFrame :=
  .video ⟨.keyFrame, .hevc, 1, 40, some .codedFrames⟩ 8 rfl (by decide +kernel) (by decide)

theorem bridges_inverse_extendedFrame :
    ∃ t, RtmpToFlv.onRtmpMessage extendedFrame = some t ∧
      (∃ header, header.length = 11 ∧ t.usingData = header ++ extendedFrame.usingData ∧
        Yields (FlvTagHeader.decode 0) header
          { tagType := extendedFrame.messageTypeId
            dataSize := extendedFrame.usingData.length
            timestamp := extendedFrame.timestamp
            streamId := BitVec.ofNat 32 (extendedFrame.messageStreamId.toNat % 2 ^ 24) }) ∧
      ∃ m', FlvToRtmp.onFlvTag t = some m' ∧ m'.usingData = extendedFrame.usingData ∧
        m'.messageTypeId = extendedFrame.messageTypeId ∧ m'.timestamp = extendedFrame.timestamp :=
  bridges_inverse extendedFrame extendedFrame_media (by decide)

end Bridges

end MmsServer.Rtmp.FlvBridge
