import MmsServer.Lib.ByteReader

namespace MmsServer.Rtmp.FlvTag

open Lib.ByteReader

inductive SoundFormat
  | mp3
  | g711ALawPcm
  | g711MuLawPcm
  | aac
  | other (code : ℕ)
deriving DecidableEq

def SoundFormat.ofCode : ℕ → SoundFormat
  | 2 => .mp3
  | 7 => .g711ALawPcm
  | 8 => .g711MuLawPcm
  | 10 => .aac
  | n => .other n

def SoundFormat.code : SoundFormat → ℕ
  | .mp3 => 2
  | .g711ALawPcm => 7
  | .g711MuLawPcm => 8
  | .aac => 10
  | .other n => n

/-- `AACSequenceHeader` is the packet type 0, which is also the default. -/
structure AudioTagHeader where
  soundFormat : SoundFormat
  soundRate : ℕ := 3
  soundSize : ℕ := 1
  soundType : ℕ := 1
  aacPacketType : UInt8 := 0
deriving DecidableEq

def AudioTagHeader.isSeqHeader (h : AudioTagHeader) : Bool := h.aacPacketType == 0

def AudioTagHeader.decode (data : Bytes) : Except ℤ (AudioTagHeader × ℕ) :=
  match data with
  | [] => .error (-1)
  | b :: data =>
    let h : AudioTagHeader :=
      { soundFormat := .ofCode (b.toNat / 16)
        soundRate := b.toNat / 4 % 4
        soundSize := b.toNat / 2 % 2
        soundType := b.toNat % 2 }
    if h.soundFormat = .aac then
      match data with
      | [] => .error (-2)
      | t :: _ => .ok ({ h with aacPacketType := t }, 2)
    else .ok (h, 1)

def AudioTagHeader.encode (h : AudioTagHeader) : Bytes :=
  UInt8.ofNat (h.soundFormat.code * 16 + h.soundRate * 4 + h.soundSize * 2 + h.soundType) ::
    if h.soundFormat = .aac then [h.aacPacketType] else []

inductive FrameType
  | keyFrame
  | interFrame
  | other (code : ℕ)
deriving DecidableEq

def FrameType.ofCode : ℕ → FrameType
  | 1 => .keyFrame
  | 2 => .interFrame
  | n => .other n

def FrameType.code : FrameType → ℕ
  | .keyFrame => 1
  | .interFrame => 2
  | .other n => n

inductive CodecId
  | avc
  | hevc
  | hevcFourcc
  | other (code : ℕ)
deriving DecidableEq

def CodecId.ofCode : ℕ → CodecId
  | 7 => .avc
  | 12 => .hevc
  | n => .other n

def hevcFourccCode : ℕ := 0x68766331

def CodecId.code : CodecId → ℕ
  | .avc => 7
  | .hevc => 12
  | .hevcFourcc => hevcFourccCode
  | .other n => n

inductive ExtPacketType
  | sequenceStart
  | codedFrames
  | sequenceEnd
  | codedFramesX
  | other (code : ℕ)
deriving DecidableEq

def ExtPacketType.ofCode : ℕ → ExtPacketType
  | 0 => .sequenceStart
  | 1 => .codedFrames
  | 2 => .sequenceEnd
  | 3 => .codedFramesX
  | n => .other n

def ExtPacketType.code : ExtPacketType → ℕ
  | .sequenceStart => 0
  | .codedFrames => 1
  | .sequenceEnd => 2
  | .codedFramesX => 3
  | .other n => n

/-- The AVC packet types are 0 for a sequence header, 1 for NAL units and 2 for
the end of the sequence. The extended packet type is there in an extended header. -/
structure VideoTagHeader where
  frameType : FrameType
  codecId : CodecId := .avc
  avcPacketType : UInt8 := 0
  compositionTime : ℕ := 0
  extPacketType : Option ExtPacketType := none
deriving DecidableEq

def VideoTagHeader.isKeyFrame (h : VideoTagHeader) : Bool := h.frameType = .keyFrame

def VideoTagHeader.isSeqHeader (h : VideoTagHeader) : Bool :=
  match h.codecId, h.extPacketType with
  | .other _, _ => false
  | _, none => h.avcPacketType == 0
  | .avc, some _ => false
  | _, some t => t = .sequenceStart

def VideoTagHeader.decodeExt (frameType : FrameType) (t : ExtPacketType) (data : Bytes) :
    Except ℤ (VideoTagHeader × ℕ) :=
  match readBE 4 data with
  | none => .error 0
  | some (fourcc, data) =>
    let h : VideoTagHeader := { frameType := frameType, codecId := .hevc, extPacketType := some t }
    if fourcc = hevcFourccCode then
      match t with
      | .codedFrames =>
        match readBE 3 data with
        | none => .error 0
        | some (time, _) => .ok ({ h with avcPacketType := 1, compositionTime := time }, 8)
      | .codedFramesX => .ok ({ h with avcPacketType := 1 }, 5)
      | .sequenceEnd => .ok ({ h with avcPacketType := 2 }, 5)
      | _ => .ok (h, 5)
    else .error (-1)

/-- The header and the number of bytes it takes. The code returns 0 when there
are too few bytes and -1 for a codec it does not know. -/
def VideoTagHeader.decode (data : Bytes) : Except ℤ (VideoTagHeader × ℕ) :=
  match data with
  | [] => .error 0
  | b :: data =>
    let frameType := FrameType.ofCode (b.toNat / 16 % 8)
    if b.toNat / 128 = 1 then decodeExt frameType (.ofCode (b.toNat % 16)) data
    else
      let codecId := CodecId.ofCode (b.toNat % 16)
      if codecId = .avc ∨ codecId = .hevc then
        match readBE 1 data with
        | none => .error 0
        | some (packetType, data) =>
          match readBE 3 data with
          | none => .error 0
          | some (time, _) =>
            .ok ({ frameType := frameType
                   codecId := codecId
                   avcPacketType := UInt8.ofNat packetType
                   compositionTime := time }, 5)
      else .error (-1)

/-- The bytes of a header in a buffer with `room` bytes, or the negative return
value. Where the code returns 0 nothing counts as written. The FourCC of an
extended header is hvc1, as `decode` accepts no other. -/
def VideoTagHeader.encode (h : VideoTagHeader) (room : ℕ) : Except ℤ Bytes :=
  match h.extPacketType with
  | none =>
    if room < 1 then .ok []
    else
      let first := UInt8.ofNat (h.frameType.code <<< 4 ||| h.codecId.code)
      let codecId := if h.codecId = .hevcFourcc then .hevc else h.codecId
      if codecId = .avc ∨ codecId = .hevc then
        if room < 5 then .error (-2)
        else .ok ([first, h.avcPacketType] ++ putBE 3 h.compositionTime)
      else .error (-1)
  | some t =>
    let first := UInt8.ofNat (0x80 ||| (h.frameType.code % 16) <<< 4 ||| t.code % 16)
    if room < 5 then .ok []
    else if t = .codedFrames then
      if room < 8 then .ok []
      else .ok ([first] ++ putBE 4 hevcFourccCode ++ putBE 3 h.compositionTime)
    else .ok ([first] ++ putBE 4 hevcFourccCode)

theorem soundFormat_code (n : ℕ) : (SoundFormat.ofCode n).code = n := by
  unfold SoundFormat.ofCode
  split <;> rfl

theorem frameType_code (n : ℕ) : (FrameType.ofCode n).code = n := by
  unfold FrameType.ofCode
  split <;> rfl

theorem codecId_code (n : ℕ) : (CodecId.ofCode n).code = n := by
  unfold CodecId.ofCode
  split <;> rfl

theorem extPacketType_code (n : ℕ) : (ExtPacketType.ofCode n).code = n := by
  unfold ExtPacketType.ofCode
  split <;> rfl

/-- Encoding an audio tag header gives back the bytes it was decoded from. -/
theorem audioTagHeader_inv {data : Bytes} {h : AudioTagHeader} {n : ℕ}
    (hd : AudioTagHeader.decode data = .ok (h, n)) : h.encode.length = n ∧ data = h.encode ++ data.drop n := by
  cases data with
  | nil => cases hd
  | cons b data =>
    have hb : UInt8.ofNat (b.toNat / 16 * 16 + b.toNat / 4 % 4 * 4 + b.toNat / 2 % 2 * 2 + b.toNat % 2) = b := by
      rw [show b.toNat / 16 * 16 + b.toNat / 4 % 4 * 4 + b.toNat / 2 % 2 * 2 + b.toNat % 2 = b.toNat by omega]
      exact UInt8.ofNat_toNat
    simp only [AudioTagHeader.decode] at hd
    split at hd
    · rename_i haac
      cases data with
      | nil => cases hd
      | cons t data =>
        cases hd
        rw [AudioTagHeader.encode, if_pos haac]
        simp only [soundFormat_code, hb]
        exact ⟨rfl, rfl⟩
    · rename_i haac
      cases hd
      rw [AudioTagHeader.encode, if_neg haac]
      simp only [soundFormat_code, hb]
      exact ⟨rfl, rfl⟩

theorem shiftLeft_or_nibble {a b : ℕ} (hb : b < 16) : a <<< 4 ||| b = a * 16 + b := by
  rw [← Nat.shiftLeft_add_eq_or_of_lt (by omega : b < 2 ^ 4), Nat.shiftLeft_eq]

theorem firstByte_legacy {b : UInt8} (h : ¬ b.toNat / 128 = 1) :
    UInt8.ofNat ((b.toNat / 16 % 8) <<< 4 ||| b.toNat % 16) = b := by
  have hb := b.toNat_lt
  rw [shiftLeft_or_nibble (by omega), show b.toNat / 16 % 8 * 16 + b.toNat % 16 = b.toNat by omega]
  exact UInt8.ofNat_toNat

theorem firstByte_extended {b : UInt8} (h : b.toNat / 128 = 1) :
    UInt8.ofNat (0x80 ||| (b.toNat / 16 % 8 % 16) <<< 4 ||| b.toNat % 16 % 16) = b := by
  have hb := b.toNat_lt
  rw [Nat.or_assoc, shiftLeft_or_nibble (by omega), show (0x80 : ℕ) = 1 <<< 7 from rfl,
    ← Nat.shiftLeft_add_eq_or_of_lt (by omega),
    show 1 <<< 7 + (b.toNat / 16 % 8 % 16 * 16 + b.toNat % 16 % 16) = b.toNat by
      rw [Nat.shiftLeft_eq]
      omega]
  exact UInt8.ofNat_toNat

theorem decodeExt_inv {frameType : FrameType} {t : ExtPacketType} {data : Bytes} {h : VideoTagHeader}
    {n room : ℕ} (hd : VideoTagHeader.decodeExt frameType t data = .ok (h, n)) (hroom : n ≤ room)
    {b : UInt8} (hb : UInt8.ofNat (0x80 ||| (frameType.code % 16) <<< 4 ||| t.code % 16) = b) :
    ∃ bytes rest, h.encode room = .ok bytes ∧ bytes.length = n ∧ b :: data = bytes ++ rest := by
  unfold VideoTagHeader.decodeExt at hd
  cases hf : readBE 4 data with
  | none => rw [hf] at hd; cases hd
  | some r =>
    obtain ⟨fourcc, data'⟩ := r
    have hdata := readBE_inv hf
    simp only [hf] at hd
    split at hd
    · rename_i hfourcc
      rw [hfourcc] at hdata
      -- every header without a composition time is written alike
      have hshort {p : UInt8} (ht : t ≠ .codedFrames) (h5 : 5 ≤ room) :
          ∃ bytes rest, VideoTagHeader.encode ⟨frameType, .hevc, p, 0, some t⟩ room = .ok bytes ∧
            bytes.length = 5 ∧ b :: data = bytes ++ rest := by
        refine ⟨[b] ++ putBE 4 hevcFourccCode, data', ?_, rfl, ?_⟩
        · simp only [VideoTagHeader.encode, hb, ht, if_false, if_neg (Nat.not_lt.mpr h5)]
        · rw [hdata]
          rfl
      cases t with
      | codedFrames =>
        cases ht : readBE 3 data' with
        | none => rw [ht] at hd; cases hd
        | some r =>
          obtain ⟨time, data''⟩ := r
          rw [ht] at hd
          cases hd
          refine ⟨[b] ++ putBE 4 hevcFourccCode ++ putBE 3 time, data'', ?_, rfl, ?_⟩
          · simp only [VideoTagHeader.encode, hb, if_true, if_neg (Nat.not_lt.mpr hroom),
              if_neg (show ¬ room < 5 by omega)]
          · rw [hdata, readBE_inv ht]
            rfl
      | sequenceStart => cases hd; exact hshort (by simp) hroom
      | sequenceEnd => cases hd; exact hshort (by simp) hroom
      | codedFramesX => cases hd; exact hshort (by simp) hroom
      | other code => cases hd; exact hshort (by simp) hroom
    · cases hd

/-- Encoding a video tag header gives back the bytes it was decoded from. -/
theorem videoTagHeader_inv {data : Bytes} {h : VideoTagHeader} {n room : ℕ}
    (hd : VideoTagHeader.decode data = .ok (h, n)) (hroom : n ≤ room) :
    ∃ bytes rest, h.encode room = .ok bytes ∧ bytes.length = n ∧ data = bytes ++ rest := by
  cases data with
  | nil => cases hd
  | cons b data =>
    simp only [VideoTagHeader.decode] at hd
    split at hd
    · rename_i hext
      refine decodeExt_inv hd hroom ?_
      rw [frameType_code, extPacketType_code]
      exact firstByte_extended hext
    · rename_i hext
      split at hd
      · rename_i hcodec
        cases hp : readBE 1 data with
        | none => rw [hp] at hd; cases hd
        | some r =>
          obtain ⟨packetType, data'⟩ := r
          simp only [hp] at hd
          cases ht : readBE 3 data' with
          | none => rw [ht] at hd; cases hd
          | some r =>
            obtain ⟨time, data''⟩ := r
            rw [ht] at hd
            cases hd
            refine ⟨[b, UInt8.ofNat packetType] ++ putBE 3 time, data'', ?_, rfl, ?_⟩
            · have hne : CodecId.ofCode (b.toNat % 16) ≠ .hevcFourcc := by
                rcases hcodec with hc | hc <;> simp [hc]
              simp only [VideoTagHeader.encode, frameType_code, codecId_code, firstByte_legacy hext, hne,
                if_false, hcodec, if_true, if_neg (Nat.not_lt.mpr hroom),
                if_neg (show ¬ room < 1 by omega)]
            · have hone := readBE_inv hp
              rw [readBE_inv ht] at hone
              rw [hone]
              simp [putBE]
      · cases hd

end MmsServer.Rtmp.FlvTag
