import MmsServer.Lib.CheckedReading
import MmsServer.Lib.CheckedWriting
import MmsServer.Lib.PackedByte

namespace MmsServer.Codec.AvcConfig

open Lib.ByteReader Lib.Checked Lib.ByteLayout Lib.CheckedReading Lib.CheckedWriting
  Lib.PackedByte

structure AVCDecoderConfigurationRecord where
  version : UInt8 := 1
  avcProfile : UInt8
  avcCompatibility : UInt8 := 0
  avcLevel : UInt8
  naluLengthSizeMinusOne : UInt8
  numOfSequenceParameterSets : UInt8
  spsNalus : List Bytes
  numOfPictureParameterSets : UInt8
  ppsNalus : List Bytes
deriving DecidableEq

def parseNalu (noLength noNalu : ℤ) : CheckedReader Bytes := do
  let len ← getBE 2 noLength
  getBytes len noNalu

namespace AVCDecoderConfigurationRecord

def parse : CheckedReader AVCDecoderConfigurationRecord := do
  let version ← getByte (-1)
  let avcProfile ← getByte (-2)
  let avcCompatibility ← getByte (-3)
  let avcLevel ← getByte (-4)
  let lengthSize ← getByte (-5)
  let numOfSps ← getByte (-6)
  let spsNalus ← many (parseNalu (-7) (-8)) (numOfSps &&& 0x1f).toNat
  let numOfPps ← getByte (-9)
  let ppsNalus ← many (parseNalu (-10) (-11)) numOfPps.toNat
  return {
    version, avcProfile, avcCompatibility, avcLevel
    naluLengthSizeMinusOne := lengthSize &&& 0x03
    numOfSequenceParameterSets := numOfSps &&& 0x1f
    spsNalus
    numOfPictureParameterSets := numOfPps
    ppsNalus }

def nalusSize (nalus : List Bytes) : ℕ := (nalus.map fun nalu ↦ 2 + nalu.length).sum

variable (r : AVCDecoderConfigurationRecord)

def size : ℕ := 7 + nalusSize r.spsNalus + nalusSize r.ppsNalus

/-- The length is kept in 16 bits. -/
def encodeNalus (noLength noNalu : ℤ) : ℕ → List Bytes → CheckedWriter Unit :=
  forFirst (room 2 noLength) fun nalu ↦ do
    putBytes (putBE 2 nalu.length) noLength
    putBytes (nalu.take (nalu.length % 2 ^ 16)) noNalu

def encode : CheckedWriter Unit := do
  putBytes [r.version] (-1)
  putBytes [r.avcProfile] (-2)
  putBytes [r.avcCompatibility] (-3)
  putBytes [r.avcLevel] (-4)
  putBytes [r.naluLengthSizeMinusOne] (-5)
  putBytes [r.numOfSequenceParameterSets] (-6)
  encodeNalus (-7) (-8) r.numOfSequenceParameterSets.toNat r.spsNalus
  putBytes [r.numOfPictureParameterSets] (-9)
  encodeNalus (-10) (-11) r.numOfPictureParameterSets.toNat r.ppsNalus

/-- The lists have the lengths that are announced for them, and fit the fields for these
lengths. -/
structure Counted : Prop where
  sps_le : r.spsNalus.length ≤ 31
  pps_le : r.ppsNalus.length ≤ 255
  sps_length : r.numOfSequenceParameterSets.toNat = r.spsNalus.length
  pps_length : r.numOfPictureParameterSets.toNat = r.ppsNalus.length
  nalu_le : ∀ nalu ∈ r.spsNalus ++ r.ppsNalus, nalu.length ≤ 65535

def naluBytes (nalu : Bytes) : Bytes := putBE 2 nalu.length ++ nalu

def bytes : Bytes :=
  [r.version] ++ ([r.avcProfile] ++ ([r.avcCompatibility] ++ ([r.avcLevel] ++
    ([r.naluLengthSizeMinusOne] ++ ([r.numOfSequenceParameterSets] ++
      (r.spsNalus.flatMap naluBytes ++ ([r.numOfPictureParameterSets] ++
        r.ppsNalus.flatMap naluBytes)))))))

theorem naluBytes_length (nalu : Bytes) : (naluBytes nalu).length = 2 + nalu.length := by
  rw [naluBytes, List.length_append, putBE_length]

theorem nalus_length (nalus : List Bytes) : (nalus.flatMap naluBytes).length = nalusSize nalus := by
  simp only [List.length_flatMap, naluBytes_length, nalusSize]

theorem bytes_length : r.bytes.length = r.size := by
  simp only [bytes, List.length_append, List.length_singleton, nalus_length, size]
  omega

theorem encodeNalus_puts {nalus : List Bytes} (h : ∀ nalu ∈ nalus, nalu.length ≤ 65535)
    (noLength noNalu : ℤ) :
    Puts (encodeNalus noLength noNalu nalus.length nalus) (nalus.flatMap naluBytes) () := by
  refine Puts.forFirst _ _ fun nalu hmem ↦ ?_
  have hlen := h nalu hmem
  have htake : nalu.take (nalu.length % 2 ^ 16) = nalu := by
    rw [Nat.mod_eq_of_lt (by omega), List.take_length]
  have hnalu : Puts (putBytes (nalu.take (nalu.length % 2 ^ 16)) noNalu) nalu () := by
    rw [htake]
    exact puts_putBytes nalu noNalu
  have hput := (puts_putBytes (putBE 2 nalu.length) noLength).bind (k := fun _ ↦ _) hnalu
  refine Puts.behind_room (k := fun _ ↦ _) hput ?_ noLength
  rw [List.length_append, putBE_length]
  omega

variable {r}

theorem encode_puts (h : r.Counted) : Puts r.encode r.bytes () := by
  have hsps := encodeNalus_puts (fun nalu hm ↦ h.nalu_le nalu (List.mem_append_left _ hm)) (-7) (-8)
  have hpps := encodeNalus_puts (fun nalu hm ↦ h.nalu_le nalu (List.mem_append_right _ hm)) (-10) (-11)
  rw [← h.sps_length] at hsps
  rw [← h.pps_length] at hpps
  exact (puts_putBytes _ _).bind <| (puts_putBytes _ _).bind <| (puts_putBytes _ _).bind <|
    (puts_putBytes _ _).bind <| (puts_putBytes _ _).bind <| (puts_putBytes _ _).bind <|
    hsps.bind <| (puts_putBytes _ _).bind hpps

theorem parseNalu_gives {nalu : Bytes} (h : nalu.length ≤ 65535) (noLength noNalu : ℤ) :
    Gives (parseNalu noLength noNalu) (naluBytes nalu) nalu :=
  (gives_getBE (by omega) noLength).bind (gives_getBytes rfl noNalu)

theorem parseNalus_gives {nalus : List Bytes} (h : ∀ nalu ∈ nalus, nalu.length ≤ 65535)
    (noLength noNalu : ℤ) :
    Gives (many (parseNalu noLength noNalu) nalus.length) (nalus.flatMap naluBytes) nalus := by
  have hmany := Gives.many fun nalu hm ↦ parseNalu_gives (h nalu hm) noLength noNalu
  rwa [List.map_id'] at hmany

/-- Of the byte with the length size two bits are kept. -/
theorem parse_gives (h : r.Counted) :
    Gives parse r.bytes { r with naluLengthSizeMinusOne := r.naluLengthSizeMinusOne &&& 0x03 } := by
  have hsps := parseNalus_gives (fun nalu hm ↦ h.nalu_le nalu (List.mem_append_left _ hm)) (-7) (-8)
  have hpps := parseNalus_gives (fun nalu hm ↦ h.nalu_le nalu (List.mem_append_right _ hm)) (-10) (-11)
  have hnum : r.numOfSequenceParameterSets &&& 0x1f = r.numOfSequenceParameterSets := by
    have hle := h.sps_le
    have hlen := h.sps_length
    apply UInt8.toNat_inj.mp
    rw [UInt8.toNat_and, show (0x1f : UInt8).toNat = 2 ^ 5 - 1 from rfl,
      Nat.and_two_pow_sub_one_eq_mod, Nat.mod_eq_of_lt (by omega)]
  rw [← h.pps_length] at hpps
  rw [← h.sps_length] at hsps
  refine (gives_getByte _ _).bind <| (gives_getByte _ _).bind <| (gives_getByte _ _).bind <|
    (gives_getByte _ _).bind <| (gives_getByte _ _).bind <| (gives_getByte _ _).bind ?_
  simp only [hnum]
  exact hsps.bind <| (gives_getByte _ _).bind <| hpps.map _

theorem parseNalu_inBounds (noLength noNalu : ℤ) : InBounds (parseNalu noLength noNalu) :=
  (inBounds_getBE 2 noLength).bind fun len ↦ inBounds_getBytes len noNalu

theorem parse_inBounds : InBounds parse :=
  (inBounds_getByte _).bind fun _ ↦ (inBounds_getByte _).bind fun _ ↦
    (inBounds_getByte _).bind fun _ ↦ (inBounds_getByte _).bind fun _ ↦
    (inBounds_getByte _).bind fun _ ↦ (inBounds_getByte _).bind fun _ ↦
    ((parseNalu_inBounds _ _).many _).bind fun _ ↦ (inBounds_getByte _).bind fun _ ↦
    ((parseNalu_inBounds _ _).many _).bind fun _ ↦ .pure _

theorem parseNalu_eq_ok {noLength noNalu : ℤ} {data nalu rest : Bytes}
    (h : parseNalu noLength noNalu data = .ok (nalu, rest)) :
    data = naluBytes nalu ++ rest ∧ nalu.length ≤ 65535 := by
  obtain ⟨len, mid, hlen, h⟩ := bind_eq_ok.mp h
  obtain ⟨hdata, hlt⟩ := getBE_eq_ok hlen
  obtain ⟨hmid, hn⟩ := getBytes_eq_ok h
  exact ⟨by rw [hdata, hmid, naluBytes, hn, List.append_assoc], by omega⟩

theorem parseNalus_eq_ok {noLength noNalu : ℤ} {n : ℕ} {data rest : Bytes} {nalus : List Bytes}
    (h : many (parseNalu noLength noNalu) n data = .ok (nalus, rest)) :
    data = nalus.flatMap naluBytes ++ rest ∧ nalus.length = n ∧
      ∀ nalu ∈ nalus, nalu.length ≤ 65535 := by
  have hinv : Inverts (parseNalu noLength noNalu) naluBytes := fun _ _ _ h ↦ (parseNalu_eq_ok h).1
  exact ⟨hinv.many n _ _ _ h, many_length h, many_forall (fun _ _ _ h ↦ (parseNalu_eq_ok h).2) h⟩

/-- What is parsed stands in the buffer, apart from the reserved bits of two bytes. -/
theorem parse_inv {data rest : Bytes} (h : parse data = .ok (r, rest)) :
    r.Counted ∧ ∃ lengthSize numOfSps,
      r.naluLengthSizeMinusOne = lengthSize &&& 0x03 ∧
      r.numOfSequenceParameterSets = numOfSps &&& 0x1f ∧
      data = { r with naluLengthSizeMinusOne := lengthSize
                      numOfSequenceParameterSets := numOfSps }.bytes ++ rest := by
  obtain ⟨version, m₁, h₁, h⟩ := bind_eq_ok.mp h
  obtain ⟨avcProfile, m₂, h₂, h⟩ := bind_eq_ok.mp h
  obtain ⟨avcCompatibility, m₃, h₃, h⟩ := bind_eq_ok.mp h
  obtain ⟨avcLevel, m₄, h₄, h⟩ := bind_eq_ok.mp h
  obtain ⟨lengthSize, m₅, h₅, h⟩ := bind_eq_ok.mp h
  obtain ⟨numOfSps, m₆, h₆, h⟩ := bind_eq_ok.mp h
  obtain ⟨spsNalus, m₇, h₇, h⟩ := bind_eq_ok.mp h
  obtain ⟨numOfPps, m₈, h₈, h⟩ := bind_eq_ok.mp h
  obtain ⟨ppsNalus, m₉, h₉, h⟩ := bind_eq_ok.mp h
  obtain ⟨rfl, rfl⟩ := pure_eq_ok.mp h
  obtain ⟨hsps, hspsLen, hspsLe⟩ := parseNalus_eq_ok h₇
  obtain ⟨hpps, hppsLen, hppsLe⟩ := parseNalus_eq_ok h₉
  have hlt : (numOfSps &&& 0x1f).toNat < 32 := by
    rw [UInt8.toNat_and, show (0x1f : UInt8).toNat = 2 ^ 5 - 1 from rfl,
      Nat.and_two_pow_sub_one_eq_mod]
    exact Nat.mod_lt _ (by decide)
  have hbyte := numOfPps.toNat_lt
  refine ⟨⟨by dsimp only; omega, by dsimp only; omega, hspsLen.symm, hppsLen.symm, ?_⟩,
    lengthSize, numOfSps, rfl, rfl, ?_⟩
  · intro nalu hm
    rcases List.mem_append.mp hm with hm | hm
    · exact hspsLe nalu hm
    · exact hppsLe nalu hm
  · rw [getByte_eq_ok h₁, getByte_eq_ok h₂, getByte_eq_ok h₃, getByte_eq_ok h₄, getByte_eq_ok h₅,
      getByte_eq_ok h₆, hsps, getByte_eq_ok h₈, hpps]
    simp only [bytes, List.append_assoc, List.cons_append, List.nil_append]

/-- The bits in front of the length size and in front of the number of parameter sets. -/
def ReservedEmpty (data : Bytes) : Prop :=
  (∀ b, data[4]? = some b → b &&& 0xfc = 0) ∧ ∀ b, data[5]? = some b → b &&& 0xe0 = 0

instance (data : Bytes) : Decidable (ReservedEmpty data) :=
  @instDecidableAnd _ _ (Option.decidableForallMem data[4]?) (Option.decidableForallMem data[5]?)

theorem parse_bytes {data rest : Bytes} (h : parse data = .ok (r, rest)) (he : ReservedEmpty data) :
    r.Counted ∧ data = r.bytes ++ rest := by
  obtain ⟨hcounted, lengthSize, numOfSps, hsize, hnum, rfl⟩ := parse_inv h
  have hsize' := and_of_clear (n := 0x03) rfl (he.1 lengthSize rfl)
  have hnum' := and_of_clear (n := 0x1f) rfl (he.2 numOfSps rfl)
  rw [hsize'] at hsize
  rw [hnum'] at hnum
  exact ⟨hcounted, by rw [← hsize, ← hnum]⟩

variable (r)

/-- The record that comes back from a buffer of its size has these fields, and `lengthSize`
for the length size. -/
def ComesBack (lengthSize : UInt8) : Prop :=
  ∀ buf : Bytes, buf.length = r.size →
    ∃ written r', runWriter r.encode buf = .ok (r.size, written, ()) ∧ written.length = r.size ∧
      parse written = .ok (r', []) ∧
      r'.avcProfile = r.avcProfile ∧ r'.avcCompatibility = r.avcCompatibility ∧
      r'.avcLevel = r.avcLevel ∧ r'.naluLengthSizeMinusOne = lengthSize ∧
      r'.spsNalus = r.spsNalus ∧ r'.ppsNalus = r.ppsNalus

variable {r}

theorem comesBack (h : r.Counted) : r.ComesBack (r.naluLengthSizeMinusOne &&& 0x03) := by
  intro buf hbuf
  have hrun := (encode_puts h).run buf (by rw [bytes_length, hbuf])
  have hparse := parse_gives h []
  rw [bytes_length, List.drop_of_length_le (by rw [hbuf]), List.append_nil] at hrun
  rw [List.append_nil] at hparse
  exact ⟨r.bytes, _, hrun, bytes_length r, hparse, rfl, rfl, rfl, rfl, rfl, rfl⟩

def Reencodes (data : Bytes) : Prop :=
  ∀ r rest, parse data = .ok (r, rest) → ∀ buf : Bytes, r.size ≤ buf.length →
    ∃ consumed, data = consumed ++ rest ∧
      runWriter r.encode buf = .ok (consumed.length, consumed ++ buf.drop consumed.length, ())

end AVCDecoderConfigurationRecord

open AVCDecoderConfigurationRecord

/-- The record comes back with the two low bits of its length size. A buffer is read inside
its bounds, and what was parsed, with nothing in the reserved bits, is written as it was read. -/
theorem avcDecoderConfigurationRecord_roundTrip (r : AVCDecoderConfigurationRecord) (h : r.Counted)
    (data : Bytes) :
    r.ComesBack (r.naluLengthSizeMinusOne &&& 0x03) ∧ (∀ f, parse data ≠ .fault f) ∧
      (ReservedEmpty data → Reencodes data) := by
  refine ⟨comesBack h, parse_inBounds data, fun he r rest h buf hbuf ↦ ?_⟩
  obtain ⟨hcounted, hdata⟩ := parse_bytes h he
  have hrun := (encode_puts hcounted).run buf (by rw [bytes_length]; exact hbuf)
  exact ⟨r.bytes, hdata, hrun⟩

def mainRecord (lengthSize : UInt8) : AVCDecoderConfigurationRecord where
  avcProfile := 77
  avcLevel := 31
  naluLengthSizeMinusOne := lengthSize
  numOfSequenceParameterSets := 1
  spsNalus := [[0x67, 77, 0, 31]]
  numOfPictureParameterSets := 1
  ppsNalus := [[0x68, 0xee]]

theorem mainRecord_counted (lengthSize : UInt8) : (mainRecord lengthSize).Counted :=
  ⟨by simp [mainRecord], by simp [mainRecord], rfl, rfl, by simp [mainRecord]⟩

theorem mainRecord_roundTrip :
    (mainRecord 3).ComesBack 3 ∧ (∀ f, parse (mainRecord 3).bytes ≠ .fault f) ∧
      Reencodes (mainRecord 3).bytes := by
  have h := avcDecoderConfigurationRecord_roundTrip (mainRecord 3) (mainRecord_counted 3)
    (mainRecord 3).bytes
  exact ⟨h.1, h.2.1, h.2.2 (by decide)⟩

/-- A length size of more than two bits is not the one that comes back. -/
theorem wideLengthSize_lost :
    (mainRecord 4).Counted ∧ ¬ (mainRecord 4).ComesBack (mainRecord 4).naluLengthSizeMinusOne := by
  refine ⟨mainRecord_counted 4, fun h ↦ ?_⟩
  obtain ⟨written, r', hrun, -, hparse, -, -, -, hsize, -, -⟩ := h (List.replicate 17 0) (by decide)
  have hrun' : runWriter (mainRecord 4).encode (List.replicate 17 0) =
      .ok (17, (mainRecord 4).bytes, ()) := by decide
  rw [hrun'] at hrun
  cases hrun
  have hback : parse (mainRecord 4).bytes = .ok (mainRecord 0, []) := by decide
  rw [hback] at hparse
  cases hparse
  exact absurd hsize (by decide)

end MmsServer.Codec.AvcConfig
