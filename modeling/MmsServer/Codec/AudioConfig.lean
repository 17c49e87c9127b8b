import MmsServer.Rtp.AacBridge

namespace MmsServer.Codec.AudioConfig

open Lib.ByteReader Lib.Checked Base.BitStream Rtp.AacBridge

namespace AudioSpecificConfig

variable (c : AudioSpecificConfig)

def size : ℕ :=
  (5 + (if c.audioObjectType = aotEscape then 6 else 0) + 4 +
    (if c.frequencyIndex = 15 then 24 else 0) + 4 + 7) / 8

def encode (data : Bytes) : Outcome (ℕ × Bytes) :=
  if data = [] then .err (-1)
  else do
    let data ← writeBits data 5 0 c.audioObjectType
    let escapeBits := if c.audioObjectType = aotEscape then 6 else 0
    let data ← writeBits data escapeBits 5 0
    let data ← writeBits data 4 (5 + escapeBits) c.frequencyIndex
    let frequencyBits := if c.frequencyIndex = 15 then 24 else 0
    let data ← writeBits data frequencyBits (9 + escapeBits) c.samplingFrequency.toNat
    let data ← writeBits data 4 (9 + escapeBits + frequencyBits) c.channelConfiguration
    return ((9 + escapeBits + frequencyBits + 4 + 7) / 8, data)

end AudioSpecificConfig

section Parse

variable (data : Bytes)

def escapeBits : ℕ := if field data 0 5 = aotEscape then 6 else 0

def frequencyIndex : ℕ := field data (5 + escapeBits data) 4

def frequencyBits : ℕ := if frequencyIndex data = 15 then 24 else 0

def configBits : ℕ := 9 + escapeBits data + frequencyBits data + 4

def frequency : ℕ :=
  if frequencyIndex data = 15 then field data (9 + escapeBits data) 24 % 2 ^ 12
  else mpeg4audioSampleRates.getD (frequencyIndex data) 0

def configOf : AudioSpecificConfig where
  audioObjectType := field data 0 5
  frequencyIndex := frequencyIndex data
  samplingFrequency := .ofNat 32 (frequency data)
  channelConfiguration := field data (9 + escapeBits data + frequencyBits data) 4

variable {data}

theorem escapeBits_le (data : Bytes) : escapeBits data ≤ 64 := by
  rw [escapeBits]
  split
  · decide
  · decide

theorem readFrequency_eq (h : 9 + escapeBits data + frequencyBits data ≤ 8 * data.length) :
    readFrequency data (frequencyIndex data) (9 + escapeBits data) =
      .ok (frequency data, 9 + escapeBits data + frequencyBits data) := by
  rw [readFrequency, frequency]
  by_cases hx : frequencyIndex data = 15
  · have hbits : frequencyBits data = 24 := if_pos hx
    rw [if_pos hx, if_pos hx, hbits, readU_field (by omega) (by decide)]
    rfl
  · have hbits : frequencyBits data = 0 := if_neg hx
    rw [if_neg hx, if_neg hx, hbits]
    rfl

theorem parse_eq (h : configBits data ≤ 8 * data.length) :
    AudioSpecificConfig.parse data = .ok (configOf data, (configBits data + 7) / 8) := by
  have hbits := h
  rw [configBits] at hbits
  have hne : data ≠ [] := by
    rintro rfl
    simp at hbits
  rw [AudioSpecificConfig.parse, if_neg hne, readU_field (by omega) (by decide), Outcome.ok_bind]
  change (readU 64 data (escapeBits data) 5 0 >>= fun _ ↦
    readU 64 data 4 (5 + escapeBits data) 0 >>= fun index ↦
    readFrequency data index (9 + escapeBits data) >>= fun p ↦
    readU 64 data 4 p.2 0 >>= fun channels ↦ _) = _
  rw [readU_field (by omega) (escapeBits_le data), Outcome.ok_bind,
    readU_field (by omega) (by decide), Outcome.ok_bind]
  change (readFrequency data (frequencyIndex data) (9 + escapeBits data) >>= fun p ↦
    readU 64 data 4 p.2 0 >>= fun channels ↦ _) = _
  rw [readFrequency_eq (by omega), Outcome.ok_bind, readU_field (by omega) (by decide), Outcome.ok_bind]
  rfl

theorem readFrequency_overread (hroom : 9 + escapeBits data ≤ 8 * data.length)
    (h : 8 * data.length < 9 + escapeBits data + frequencyBits data) :
    readFrequency data (frequencyIndex data) (9 + escapeBits data) = .fault .overread := by
  rw [readFrequency]
  by_cases hx : frequencyIndex data = 15
  · have hbits : frequencyBits data = 24 := if_pos hx
    rw [if_pos hx, readU_overread (by decide) (by omega)]
    rfl
  · have hbits : frequencyBits data = 0 := if_neg hx
    omega

/-- A buffer is read to the end of what it asks for. -/
theorem parse_overread (hne : data ≠ []) (h : 8 * data.length < configBits data) :
    AudioSpecificConfig.parse data = .fault .overread := by
  have hlen := List.length_pos_of_ne_nil hne
  rw [configBits] at h
  rw [AudioSpecificConfig.parse, if_neg hne, readU_field (by omega) (by decide), Outcome.ok_bind]
  change (readU 64 data (escapeBits data) 5 0 >>= fun _ ↦
    readU 64 data 4 (5 + escapeBits data) 0 >>= fun index ↦
    readFrequency data index (9 + escapeBits data) >>= fun p ↦
    readU 64 data 4 p.2 0 >>= fun channels ↦ _) = _
  by_cases hesc : 8 * data.length < 5 + escapeBits data
  · rw [readU_overread (by omega) hesc, Outcome.fault_bind]
  rw [readU_field (by omega) (escapeBits_le data), Outcome.ok_bind]
  by_cases hindex : 8 * data.length < 5 + escapeBits data + 4
  · rw [readU_overread (by decide) hindex, Outcome.fault_bind]
  rw [readU_field (by omega) (by decide), Outcome.ok_bind]
  change (readFrequency data (frequencyIndex data) (9 + escapeBits data) >>= fun p ↦
    readU 64 data 4 p.2 0 >>= fun channels ↦ _) = _
  by_cases hfreq : 8 * data.length < 9 + escapeBits data + frequencyBits data
  · rw [readFrequency_overread (by omega) hfreq, Outcome.fault_bind]
  rw [readFrequency_eq (by omega), Outcome.ok_bind, readU_overread (by decide) (by omega),
    Outcome.fault_bind]

/-- The call reads inside the buffer if and only if the buffer is empty or holds what it
asks for. -/
theorem parse_inBounds_iff : (∀ f, AudioSpecificConfig.parse data ≠ .fault f) ↔
    data = [] ∨ configBits data ≤ 8 * data.length := by
  constructor
  · intro h
    by_contra hc
    obtain ⟨hne, hlt⟩ := not_or.mp hc
    exact h .overread (parse_overread hne (Nat.lt_of_not_le hlt))
  · rintro (rfl | h) f hf
    · cases hf
    · rw [parse_eq h] at hf
      cases hf

end Parse

section Encode

variable {c : AudioSpecificConfig} {data : Bytes}

/-- The object types, frequency indices and channel configurations that have a code of their
own. An explicit frequency has 24 bits. -/
structure InDomain (c : AudioSpecificConfig) : Prop where
  objectType_pos : 1 ≤ c.audioObjectType
  objectType_le : c.audioObjectType ≤ 30
  index_mem : c.frequencyIndex ≤ 12 ∨ c.frequencyIndex = 15
  frequency_lt : c.frequencyIndex = 15 → c.samplingFrequency.toNat < 2 ^ 24
  channels_le : c.channelConfiguration ≤ 15

def explicitBits (c : AudioSpecificConfig) : ℕ := if c.frequencyIndex = 15 then 24 else 0

/-- Every field is laid over what the buffer held at its place. -/
structure Overlaid (c : AudioSpecificConfig) (data data' : Bytes) : Prop where
  length : data'.length = data.length
  objectType : field data' 0 5 = field data 0 5 ||| c.audioObjectType
  index : field data' 5 4 = field data 5 4 ||| c.frequencyIndex
  frequency : field data' 9 (explicitBits c) =
    field data 9 (explicitBits c) ||| c.samplingFrequency.toNat % 2 ^ explicitBits c
  channels : field data' (9 + explicitBits c) 4 =
    field data (9 + explicitBits c) 4 ||| c.channelConfiguration

theorem size_eq (h : InDomain c) :
    AudioSpecificConfig.size c = (13 + explicitBits c + 7) / 8 := by
  have hne : c.audioObjectType ≠ aotEscape := by
    have hle := h.objectType_le
    rw [aotEscape]
    omega
  rw [AudioSpecificConfig.size, if_neg hne, explicitBits]
  split
  · rfl
  · rfl

theorem encode_overlaid (h : InDomain c) (hlen : data.length = AudioSpecificConfig.size c) :
    ∃ data', AudioSpecificConfig.encode c data = .ok (AudioSpecificConfig.size c, data') ∧
      Overlaid c data data' := by
  have hsize := size_eq h
  have hle := h.objectType_le
  have hch := h.channels_le
  have hindex : c.frequencyIndex < 16 := by
    rcases h.index_mem with hx | hx
    · omega
    · omega
  have hne : c.audioObjectType ≠ aotEscape := by
    rw [aotEscape]
    omega
  have hroom : 13 + explicitBits c ≤ 8 * data.length := by omega
  have hdata : data ≠ [] := by
    rintro rfl
    simp at hroom
  obtain ⟨d₁, hw₁, hl₁, hf₁, hk₁⟩ :=
    writeBits_field (show 0 + 5 ≤ 8 * data.length by omega) c.audioObjectType
  obtain ⟨d₂, hw₂, hl₂, hf₂, hk₂⟩ :=
    writeBits_field (show 5 + 4 ≤ 8 * d₁.length by omega) c.frequencyIndex
  obtain ⟨d₃, hw₃, hl₃, hf₃, hk₃⟩ :=
    writeBits_field (show 9 + explicitBits c ≤ 8 * d₂.length by omega) c.samplingFrequency.toNat
  obtain ⟨d₄, hw₄, hl₄, hf₄, hk₄⟩ :=
    writeBits_field (show 9 + explicitBits c + 4 ≤ 8 * d₃.length by omega) c.channelConfiguration
  have hencode : AudioSpecificConfig.encode c data = .ok ((9 + 0 + explicitBits c + 4 + 7) / 8, d₄) := by
    rw [AudioSpecificConfig.encode, if_neg hdata, hw₁, Outcome.ok_bind]
    simp only [if_neg hne]
    change (writeBits d₁ 0 5 0 >>= fun d ↦ writeBits d 4 5 c.frequencyIndex >>= fun d ↦
      writeBits d (explicitBits c) 9 c.samplingFrequency.toNat >>= fun d ↦
      writeBits d 4 (9 + explicitBits c) c.channelConfiguration >>= fun d ↦ _) = _
    rw [writeBits, Outcome.pure_eq, Outcome.ok_bind, hw₂, Outcome.ok_bind, hw₃, Outcome.ok_bind,
      hw₄, Outcome.ok_bind]
    rfl
  refine ⟨d₄, hencode.trans ?_, by omega, ?_, ?_, ?_, ?_⟩
  · rw [hsize, show 9 + 0 + explicitBits c + 4 = 13 + explicitBits c by omega]
  · rw [hk₄ 0 5 (by omega) (by omega), hk₃ 0 5 (by omega) (by omega), hk₂ 0 5 (by omega) (by omega),
      hf₁, Nat.mod_eq_of_lt (by omega)]
  · rw [hk₄ 5 4 (by omega) (by omega), hk₃ 5 4 (by omega) (by omega), hf₂,
      hk₁ 5 4 (by omega) (by omega), Nat.mod_eq_of_lt (by omega)]
  · rw [hk₄ 9 _ (by omega) (by omega), hf₃, hk₂ 9 _ (by omega) (by omega),
      hk₁ 9 _ (by omega) (by omega)]
  · rw [hf₄, hk₃ _ 4 (by omega) (by omega), hk₂ _ 4 (by omega) (by omega),
      hk₁ _ 4 (by omega) (by omega), Nat.mod_eq_of_lt (by omega)]

end Encode

/-- The config comes back from a buffer of its size that holds `buf` before. -/
def ComesBack (c : AudioSpecificConfig) (buf : Bytes) : Prop :=
  ∃ written n, AudioSpecificConfig.encode c buf = .ok (AudioSpecificConfig.size c, written) ∧
    AudioSpecificConfig.parse written = .ok (c, n)

/-- Bits that are set in the buffer are bits of the fields that are written over them, and the
frequency is the one that is read: below 4096, or the one of the index. -/
def Readable (c : AudioSpecificConfig) (buf : Bytes) : Prop :=
  field buf 0 5 ||| c.audioObjectType = c.audioObjectType ∧
  field buf 5 4 ||| c.frequencyIndex = c.frequencyIndex ∧
  if c.frequencyIndex = 15 then
    c.samplingFrequency.toNat < 2 ^ 12 ∧
      field buf 21 12 ||| c.samplingFrequency.toNat = c.samplingFrequency.toNat ∧
      field buf 33 4 ||| c.channelConfiguration = c.channelConfiguration
  else
    c.samplingFrequency.toNat = mpeg4audioSampleRates.getD c.frequencyIndex 0 ∧
      field buf 9 4 ||| c.channelConfiguration = c.channelConfiguration

section RoundTrip

variable {c : AudioSpecificConfig} {buf written : Bytes}

theorem rates_lt (i : ℕ) : mpeg4audioSampleRates.getD i 0 < 2 ^ 32 := by
  by_cases hi : i < 16
  · revert i
    decide
  · rw [List.getD_eq_default _ _ (by change 16 ≤ i; omega)]
    decide

theorem frequency_lt (data : Bytes) : frequency data < 2 ^ 32 := by
  rw [frequency]
  split
  · exact Nat.lt_of_lt_of_le (Nat.mod_lt _ (by decide)) (by decide)
  · exact rates_lt _

theorem ofNat_frequency_eq {data : Bytes} {v : BitVec 32} :
    BitVec.ofNat 32 (frequency data) = v ↔ frequency data = v.toNat := by
  rw [← BitVec.toNat_inj, BitVec.toNat_ofNat, Nat.mod_eq_of_lt (frequency_lt data)]

/-- Where the object type is no escape the fields stand at fixed places. -/
theorem configOf_eq_iff (hne : c.audioObjectType ≠ aotEscape) :
    configOf written = c ↔ field written 0 5 = c.audioObjectType ∧
      field written 5 4 = c.frequencyIndex ∧ frequency written = c.samplingFrequency.toNat ∧
      field written (9 + explicitBits c) 4 = c.channelConfiguration := by
  constructor
  · rintro rfl
    have hesc : escapeBits written = 0 := if_neg hne
    refine ⟨rfl, ?_, ofNat_frequency_eq.mp rfl, ?_⟩
    · change _ = field written (5 + escapeBits written) 4
      rw [hesc]
    · change _ = field written (9 + escapeBits written + explicitBits (configOf written)) 4
      rw [hesc]
  · rintro ⟨htype, hindex, hfreq, hch⟩
    have hesc : escapeBits written = 0 := if_neg (by rw [htype]; exact hne)
    have hidx : frequencyIndex written = c.frequencyIndex := by
      rw [frequencyIndex, hesc, ← hindex]
    have hbits : frequencyBits written = explicitBits c := by
      rw [frequencyBits, hidx, explicitBits]
    rw [configOf, htype, hidx, ofNat_frequency_eq.mpr hfreq, hesc, hbits, Nat.add_zero, hch]

theorem frequency_explicit (h : Overlaid c buf written) (hx : c.frequencyIndex = 15)
    (hidx : frequencyIndex written = 15) (hesc : escapeBits written = 0) :
    frequency written = field buf 21 12 ||| c.samplingFrequency.toNat % 2 ^ 12 := by
  have hbits : explicitBits c = 24 := if_pos hx
  have hfield := h.frequency
  rw [hbits] at hfield
  rw [frequency, if_pos hidx, hesc, hfield, Nat.or_mod_two_pow, Nat.mod_mod_of_dvd _ (by decide),
    field_mod buf 9 12 12]

theorem frequency_eq_iff (h : Overlaid c buf written) (hidx : frequencyIndex written = c.frequencyIndex)
    (hesc : escapeBits written = 0) :
    frequency written = c.samplingFrequency.toNat ↔
      if c.frequencyIndex = 15 then
        c.samplingFrequency.toNat < 2 ^ 12 ∧
          field buf 21 12 ||| c.samplingFrequency.toNat = c.samplingFrequency.toNat
      else c.samplingFrequency.toNat = mpeg4audioSampleRates.getD c.frequencyIndex 0 := by
  by_cases hx : c.frequencyIndex = 15
  · rw [if_pos hx, frequency_explicit h hx (hidx.trans hx) hesc]
    constructor
    · intro heq
      have hlt : c.samplingFrequency.toNat < 2 ^ 12 := by
        rw [← heq]
        exact Nat.or_lt_two_pow (Nat.mod_lt _ (by decide)) (Nat.mod_lt _ (by decide))
      rw [Nat.mod_eq_of_lt hlt] at heq
      exact ⟨hlt, heq⟩
    · rintro ⟨hlt, heq⟩
      rw [Nat.mod_eq_of_lt hlt, heq]
  · rw [if_neg hx, frequency, if_neg (by rw [hidx]; exact hx), hidx]
    exact eq_comm

theorem readable_iff (h : InDomain c) (ho : Overlaid c buf written) :
    configOf written = c ↔ Readable c buf := by
  have hne : c.audioObjectType ≠ aotEscape := by
    have hle := h.objectType_le
    rw [aotEscape]
    omega
  rw [configOf_eq_iff hne, Readable, ← ho.objectType, ← ho.index]
  refine and_congr_right fun htype ↦ and_congr_right fun hindex ↦ ?_
  have hesc : escapeBits written = 0 := if_neg (by rw [htype]; exact hne)
  have hidx : frequencyIndex written = c.frequencyIndex := by
    rw [frequencyIndex, hesc, ← hindex]
  rw [frequency_eq_iff ho hidx hesc, ho.channels, explicitBits]
  by_cases hx : c.frequencyIndex = 15
  · simp only [if_pos hx, and_assoc]
  · simp only [if_neg hx]

theorem configBits_eq (h : InDomain c) (heq : configOf written = c) :
    configBits written = 13 + explicitBits c := by
  have hne : field written 0 5 ≠ aotEscape := by
    have hle := h.objectType_le
    rw [← heq] at hle
    change field written 0 5 ≤ 30 at hle
    rw [aotEscape]
    omega
  have hesc : escapeBits written = 0 := if_neg hne
  have hbits : frequencyBits written = explicitBits c := by
    rw [← heq]
    rfl
  rw [configBits, hesc, hbits]
  omega

theorem comesBack_iff (h : InDomain c) (hlen : buf.length = AudioSpecificConfig.size c) :
    ComesBack c buf ↔ Readable c buf := by
  obtain ⟨written, hencode, ho⟩ := encode_overlaid h hlen
  have hsize := size_eq h
  have hlength := ho.length
  rw [← readable_iff h ho]
  constructor
  · rintro ⟨written', n, hencode', hparse⟩
    rw [hencode] at hencode'
    cases hencode'
    by_cases hroom : configBits written ≤ 8 * written.length
    · rw [parse_eq hroom] at hparse
      cases hparse
      rfl
    · have hwritten : written ≠ [] := by
        rintro rfl
        rw [List.length_nil] at hlength
        omega
      rw [parse_overread hwritten (Nat.lt_of_not_le hroom)] at hparse
      cases hparse
  · intro heq
    have hroom : configBits written ≤ 8 * written.length := by
      rw [configBits_eq h heq]
      omega
    have hparse := parse_eq hroom
    rw [heq] at hparse
    exact ⟨written, _, hencode, hparse⟩

end RoundTrip

/-- The call fills a buffer of its size. The config comes back if and only if it is readable
over what the buffer held, and a buffer is read inside its bounds if and only if it is empty or
holds what its own bits ask for. -/
theorem audioSpecificConfig_roundTrip_iff (c : AudioSpecificConfig) (h : InDomain c) (buf : Bytes)
    (hlen : buf.length = AudioSpecificConfig.size c) (data : Bytes) :
    (∃ written, AudioSpecificConfig.encode c buf = .ok (AudioSpecificConfig.size c, written)) ∧
      (ComesBack c buf ↔ Readable c buf) ∧
      ((∀ f, AudioSpecificConfig.parse data ≠ .fault f) ↔
        data = [] ∨ configBits data ≤ 8 * data.length) := by
  obtain ⟨written, hencode, -⟩ := encode_overlaid h hlen
  exact ⟨⟨written, hencode⟩, comesBack_iff h hlen, parse_inBounds_iff⟩

def stereo (frequencyIndex frequency : ℕ) : AudioSpecificConfig where
  audioObjectType := 2
  frequencyIndex := frequencyIndex
  samplingFrequency := .ofNat 32 frequency
  channelConfiguration := 2

theorem stereo_inDomain : InDomain (stereo 4 44100) :=
  ⟨by decide, by decide, .inl (by decide), by decide, by decide⟩

theorem explicit_inDomain : InDomain (stereo 15 44100) :=
  ⟨by decide, by decide, .inr rfl, by decide, by decide⟩

theorem stereo_roundTrip :
    (∃ written, AudioSpecificConfig.encode (stereo 4 44100) [0, 0] = .ok (2, written)) ∧
      (ComesBack (stereo 4 44100) [0, 0] ↔ Readable (stereo 4 44100) [0, 0]) ∧
      ((∀ f, AudioSpecificConfig.parse [0x12] ≠ .fault f) ↔
        ([0x12] : Bytes) = [] ∨ configBits [0x12] ≤ 8) :=
  audioSpecificConfig_roundTrip_iff (stereo 4 44100) stereo_inDomain [0, 0] rfl [0x12]

/-- Of an explicit frequency twelve bits come back, and a buffer of one byte is read behind its
end. -/
theorem explicitFrequency_lost : InDomain (stereo 15 44100) ∧
    ¬ ComesBack (stereo 15 44100) [0, 0, 0, 0, 0] ∧
    AudioSpecificConfig.parse [0x12] = .fault .overread := by
  refine ⟨explicit_inDomain, ?_, by decide⟩
  rintro ⟨written, n, hencode, hparse⟩
  have hrun : AudioSpecificConfig.encode (stereo 15 44100) [0, 0, 0, 0, 0] =
      .ok (5, [0x17, 0x80, 0x56, 0x22, 0x10]) := by decide
  rw [hrun] at hencode
  cases hencode
  have hback : AudioSpecificConfig.parse [0x17, 0x80, 0x56, 0x22, 0x10] =
      .ok (stereo 15 3140, 5) := by decide
  rw [hback] at hparse
  simp only [Outcome.ok.injEq, Prod.mk.injEq] at hparse
  exact absurd hparse.1 (by decide)

end MmsServer.Codec.AudioConfig
