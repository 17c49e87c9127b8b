import MmsServer.Codec.NaluType
import MmsServer.Lib.CheckedReading
import MmsServer.Lib.CheckedWriting
import MmsServer.Lib.PackedByte

namespace MmsServer.Codec.HevcConfig

open Lib.ByteReader Lib.Checked Lib.ByteLayout Lib.CheckedReading Lib.CheckedWriting NaluType
  Lib.PackedByte

structure Nalu where
  nalUnitLength : UInt16 := 0
  nalu : Bytes
deriving DecidableEq

structure HVCCNALUnitArray where
  arrayCompleteness : UInt8 := 0
  reserved : UInt8 := 0
  nalUnitType : UInt8 := 0
  numNalus : UInt16 := 0
  nalus : List Nalu
deriving DecidableEq

/-- The six bytes of constraint flags are kept as one number. -/
structure HEVCDecoderConfigurationRecord where
  version : UInt8 := 1
  generalProfileSpace : UInt8 := 0
  generalTierFlag : UInt8 := 0
  generalProfileIdc : UInt8 := 0
  generalProfileCompatibilityFlags : UInt32 := 0
  generalConstraintIndicatorFlags : BitVec 48 := 0
  generalLevelIdc : UInt8 := 0
  reserved1 : UInt8 := 0xf
  minSpatialSegmentationIdc : UInt8 := 0
  reserved2 : UInt8 := 0x3f
  parallelismType : UInt8
  reserved3 : UInt8 := 0x3f
  chromaFormat : UInt8
  reserved4 : UInt8 := 0x1f
  bitDepthLumaMinus8 : UInt8
  reserved5 : UInt8 := 0x1f
  bitDepthChromaMinus8 : UInt8
  avgFrameRate : UInt16 := 30
  constantFrameRate : UInt8
  numTemporalLayers : UInt8 := 0
  temporalIdNested : UInt8 := 0
  lengthSizeMinusOne : UInt8 := 3
  numOfArrays : UInt8 := 0
  arrays : List HVCCNALUnitArray
  vpsNalu : Bytes := []
  spsNalu : Bytes := []
  ppsNalu : Bytes := []
deriving DecidableEq

section Fields

def profileByte (space tier idc : UInt8) : UInt8 := (space <<< 6) ||| (tier <<< 5) ||| idc

def segmentationWord (reserved idc : UInt8) : ℕ := reserved.toNat <<< 12 ||| idc.toNat

def parallelismByte (reserved type : UInt8) : UInt8 := (reserved <<< 6) ||| type

def chromaByte (reserved format : UInt8) : UInt8 := (reserved <<< 2) ||| format

def depthByte (reserved depth : UInt8) : UInt8 := (reserved <<< 3) ||| depth

def layersByte (rate layers nested lengthSize : UInt8) : UInt8 :=
  (rate <<< 6) ||| (layers <<< 4) ||| (nested <<< 2) ||| lengthSize

def arrayByte (completeness reserved type : UInt8) : UInt8 :=
  (completeness <<< 7) ||| (reserved <<< 6) ||| type

theorem profileByte_split {space tier idc : UInt8} (hs : space.toNat < 4) (ht : tier.toNat < 2)
    (hi : idc.toNat < 32) :
    (profileByte space tier idc >>> 6) &&& 0x03 = space ∧
      (profileByte space tier idc >>> 5) &&& 0x01 = tier ∧
      profileByte space tier idc &&& 0x1f = idc :=
  split_two_one_five hs ht hi

/-- The bytes that are written from all their fields, on every value of the fields. -/
theorem bytes_split :
    (∀ (i : Fin 64) (j : Fin 4), (chromaByte (.ofNat i) (.ofNat j) >>> 2) &&& 0x3f = .ofNat i ∧
      chromaByte (.ofNat i) (.ofNat j) &&& 0x03 = .ofNat j) ∧
    (∀ (i : Fin 32) (j : Fin 8), (depthByte (.ofNat i) (.ofNat j) >>> 3) &&& 0x1f = .ofNat i ∧
      depthByte (.ofNat i) (.ofNat j) &&& 0x07 = .ofNat j) ∧
    (∀ (i j : Fin 2) (k : Fin 64),
      (arrayByte (.ofNat i) (.ofNat j) (.ofNat k) >>> 7) &&& 0x01 = .ofNat i ∧
      (arrayByte (.ofNat i) (.ofNat j) (.ofNat k) >>> 6) &&& 0x01 = .ofNat j ∧
      arrayByte (.ofNat i) (.ofNat j) (.ofNat k) &&& 0x3f = .ofNat k) ∧
    (∀ (i : Fin 64) (j : Fin 4),
      ((parallelismByte (.ofNat i) (.ofNat j) >>> 2) &&& 0x3f = .ofNat i ↔ UInt8.ofNat i = 0) ∧
      parallelismByte (.ofNat i) (.ofNat j) &&& 0x03 = .ofNat j) ∧
    ∀ (i : Fin 4) (j : Fin 8) (k : Fin 2) (l : Fin 4),
      ((layersByte (.ofNat i) (.ofNat j) (.ofNat k) (.ofNat l) >>> 3) &&& 0x07 = .ofNat j ↔
        UInt8.ofNat j = 0) ∧
      (UInt8.ofNat j = 0 →
        (layersByte (.ofNat i) (.ofNat j) (.ofNat k) (.ofNat l) >>> 6) &&& 0x03 = .ofNat i) ∧
      (layersByte (.ofNat i) (.ofNat j) (.ofNat k) (.ofNat l) >>> 2) &&& 0x01 = .ofNat k ∧
      layersByte (.ofNat i) (.ofNat j) (.ofNat k) (.ofNat l) &&& 0x03 = .ofNat l := by
  decide +kernel

/-- What is written back from the fields of a byte. -/
theorem bytes_join (b : UInt8) :
    profileByte ((b >>> 6) &&& 0x03) ((b >>> 5) &&& 0x01) (b &&& 0x1f) = b ∧
      chromaByte ((b >>> 2) &&& 0x3f) (b &&& 0x03) = b ∧
      depthByte ((b >>> 3) &&& 0x1f) (b &&& 0x07) = b ∧
      arrayByte ((b >>> 7) &&& 0x01) ((b >>> 6) &&& 0x01) (b &&& 0x3f) = b ∧
      (parallelismByte ((b >>> 2) &&& 0x3f) (b &&& 0x03) = b ↔ b.toNat < 4) ∧
      (layersByte ((b >>> 6) &&& 0x03) ((b >>> 3) &&& 0x07) ((b >>> 2) &&& 0x01) (b &&& 0x03) = b ↔
        (b >>> 3) &&& 0x07 = 0) := by
  revert b
  exact forall_byte (by decide +kernel)

theorem profileByte_join (b : UInt8) :
    profileByte ((b >>> 6) &&& 0x03) ((b >>> 5) &&& 0x01) (b &&& 0x1f) = b := (bytes_join b).1

theorem chromaByte_split {reserved format : UInt8} (hr : reserved.toNat < 64)
    (hf : format.toNat < 4) :
    (chromaByte reserved format >>> 2) &&& 0x3f = reserved ∧
      chromaByte reserved format &&& 0x03 = format := by
  obtain ⟨i, rfl⟩ := exists_fin hr
  obtain ⟨j, rfl⟩ := exists_fin hf
  exact bytes_split.1 i j

theorem chromaByte_join (b : UInt8) : chromaByte ((b >>> 2) &&& 0x3f) (b &&& 0x03) = b :=
  (bytes_join b).2.1

theorem depthByte_split {reserved depth : UInt8} (hr : reserved.toNat < 32) (hd : depth.toNat < 8) :
    (depthByte reserved depth >>> 3) &&& 0x1f = reserved ∧
      depthByte reserved depth &&& 0x07 = depth := by
  obtain ⟨i, rfl⟩ := exists_fin hr
  obtain ⟨j, rfl⟩ := exists_fin hd
  exact bytes_split.2.1 i j

theorem depthByte_join (b : UInt8) : depthByte ((b >>> 3) &&& 0x1f) (b &&& 0x07) = b :=
  (bytes_join b).2.2.1

theorem arrayByte_split {completeness reserved type : UInt8} (hc : completeness.toNat < 2)
    (hr : reserved.toNat < 2) (ht : type.toNat < 64) :
    (arrayByte completeness reserved type >>> 7) &&& 0x01 = completeness ∧
      (arrayByte completeness reserved type >>> 6) &&& 0x01 = reserved ∧
      arrayByte completeness reserved type &&& 0x3f = type := by
  obtain ⟨i, rfl⟩ := exists_fin hc
  obtain ⟨j, rfl⟩ := exists_fin hr
  obtain ⟨k, rfl⟩ := exists_fin ht
  exact bytes_split.2.2.1 i j k

theorem arrayByte_join (b : UInt8) :
    arrayByte ((b >>> 7) &&& 0x01) ((b >>> 6) &&& 0x01) (b &&& 0x3f) = b := (bytes_join b).2.2.2.1

/-- The reserved bits are written four places too high. -/
theorem parallelismByte_split {reserved type : UInt8} (hr : reserved.toNat < 64)
    (ht : type.toNat < 4) :
    ((parallelismByte reserved type >>> 2) &&& 0x3f = reserved ↔ reserved = 0) ∧
      parallelismByte reserved type &&& 0x03 = type := by
  obtain ⟨i, rfl⟩ := exists_fin hr
  obtain ⟨j, rfl⟩ := exists_fin ht
  exact bytes_split.2.2.2.1 i j

theorem parallelismByte_join (b : UInt8) :
    parallelismByte ((b >>> 2) &&& 0x3f) (b &&& 0x03) = b ↔ b.toNat < 4 := (bytes_join b).2.2.2.2.1

/-- The temporal layers are written one place too high, into the frame rate. -/
theorem layersByte_split {rate layers nested lengthSize : UInt8} (hr : rate.toNat < 4)
    (hl : layers.toNat < 8) (hn : nested.toNat < 2) (hs : lengthSize.toNat < 4) :
    ((layersByte rate layers nested lengthSize >>> 3) &&& 0x07 = layers ↔ layers = 0) ∧
      (layers = 0 → (layersByte rate layers nested lengthSize >>> 6) &&& 0x03 = rate) ∧
      (layersByte rate layers nested lengthSize >>> 2) &&& 0x01 = nested ∧
      layersByte rate layers nested lengthSize &&& 0x03 = lengthSize := by
  obtain ⟨i, rfl⟩ := exists_fin hr
  obtain ⟨j, rfl⟩ := exists_fin hl
  obtain ⟨k, rfl⟩ := exists_fin hn
  obtain ⟨l, rfl⟩ := exists_fin hs
  exact bytes_split.2.2.2.2 i j k l

theorem layersByte_join (b : UInt8) :
    layersByte ((b >>> 6) &&& 0x03) ((b >>> 3) &&& 0x07) ((b >>> 2) &&& 0x01) (b &&& 0x03) = b ↔
      (b >>> 3) &&& 0x07 = 0 := (bytes_join b).2.2.2.2.2

theorem segmentationWord_lt {reserved : UInt8} (hr : reserved.toNat < 16) (idc : UInt8) :
    segmentationWord reserved idc < 2 ^ 16 := by
  have hidc := idc.toNat_lt
  have hshift : reserved.toNat <<< 12 < 2 ^ 16 := by
    rw [Nat.shiftLeft_eq]
    omega
  exact Nat.or_lt_two_pow hshift (by omega)

/-- Of the twelve bits for the segmentation four are read. -/
theorem segmentationWord_split {reserved : UInt8} (hr : reserved.toNat < 16) (idc : UInt8) :
    (UInt8.ofNat (segmentationWord reserved idc &&& 0xf) = idc ↔ idc.toNat < 16) ∧
      (idc.toNat < 16 →
        (UInt8.ofNat ((segmentationWord reserved idc >>> 4) &&& 0xfff) = reserved ↔
          reserved = 0)) := by
  obtain ⟨i, rfl⟩ := exists_fin hr
  clear hr
  revert i idc
  refine forall_byte ?_
  decide +kernel

theorem segmentationWord_join {tmp : ℕ} (h : tmp < 2 ^ 16) :
    putBE 2 (segmentationWord (.ofNat ((tmp >>> 4) &&& 0xfff)) (.ofNat (tmp &&& 0xf))) = putBE 2 tmp ↔
      tmp < 16 := by
  have hlow : tmp &&& 0xf = tmp % 16 := Nat.and_two_pow_sub_one_eq_mod tmp 4
  have hhigh : (tmp >>> 4) &&& 0xfff = tmp / 16 := by
    rw [show 0xfff = 2 ^ 12 - 1 from rfl, Nat.and_two_pow_sub_one_eq_mod, Nat.shiftRight_eq_div_pow,
      Nat.mod_eq_of_lt (by omega)]
  have hword : segmentationWord (.ofNat ((tmp >>> 4) &&& 0xfff)) (.ofNat (tmp &&& 0xf)) =
      tmp / 16 % 256 * 2 ^ 12 + tmp % 16 := by
    have hlt : tmp % 16 < 2 ^ 12 := by omega
    rw [segmentationWord, hlow, hhigh, UInt8.toNat_ofNat', UInt8.toNat_ofNat',
      Nat.mod_eq_of_lt (show tmp % 16 < 2 ^ 8 by omega), ← Nat.shiftLeft_add_eq_or_of_lt hlt,
      Nat.shiftLeft_eq]
  rw [hword]
  constructor
  · intro h
    have hv := congrArg fromBE h
    rw [fromBE_putBE, fromBE_putBE] at hv
    omega
  · intro h
    congr 1
    omega

end Fields

section Decode

def decodeNalu : CheckedReader Nalu := do
  let nalUnitLength ← getBE 2 0
  let nalu ← getBytes nalUnitLength 0
  return { nalUnitLength := .ofNat nalUnitLength, nalu }

def HVCCNALUnitArray.decode : CheckedReader HVCCNALUnitArray := do
  let b ← getByte 0
  let numNalus ← getBE 2 0
  let nalus ← many decodeNalu numNalus
  return {
    arrayCompleteness := (b >>> 7) &&& 0x01
    reserved := (b >>> 6) &&& 0x01
    nalUnitType := b &&& 0x3f
    numNalus := .ofNat numNalus
    nalus }

def lastOfType (type : UInt8) (arrays : List HVCCNALUnitArray) : Bytes :=
  (((arrays.flatMap (·.nalus)).filter (fun n ↦ h265Type (n.nalu.headD 0) == type)).getLast?.map (·.nalu)).getD []

def HEVCDecoderConfigurationRecord.decode : CheckedReader HEVCDecoderConfigurationRecord := do
  let version ← getByte 0
  let profile ← getByte 0
  let generalProfileCompatibilityFlags ← getBE 4 0
  let generalConstraintIndicatorFlags ← getBE 6 0
  let generalLevelIdc ← getByte 0
  let segmentation ← getBE 2 0
  let parallelism ← getByte 0
  let chroma ← getByte 0
  let depthLuma ← getByte 0
  let depthChroma ← getByte 0
  let avgFrameRate ← getBE 2 0
  let layers ← getByte 0
  let numOfArrays ← getByte 0
  let arrays ← many HVCCNALUnitArray.decode numOfArrays.toNat
  return {
    version
    generalProfileSpace := (profile >>> 6) &&& 0x03
    generalTierFlag := (profile >>> 5) &&& 0x01
    generalProfileIdc := profile &&& 0x1f
    generalProfileCompatibilityFlags := .ofNat generalProfileCompatibilityFlags
    generalConstraintIndicatorFlags := .ofNat 48 generalConstraintIndicatorFlags
    generalLevelIdc
    reserved1 := .ofNat ((segmentation >>> 4) &&& 0xfff)
    minSpatialSegmentationIdc := .ofNat (segmentation &&& 0xf)
    reserved2 := (parallelism >>> 2) &&& 0x3f
    parallelismType := parallelism &&& 0x03
    reserved3 := (chroma >>> 2) &&& 0x3f
    chromaFormat := chroma &&& 0x03
    reserved4 := (depthLuma >>> 3) &&& 0x1f
    bitDepthLumaMinus8 := depthLuma &&& 0x07
    reserved5 := (depthChroma >>> 3) &&& 0x1f
    bitDepthChromaMinus8 := depthChroma &&& 0x07
    avgFrameRate := .ofNat avgFrameRate
    constantFrameRate := (layers >>> 6) &&& 0x03
    numTemporalLayers := (layers >>> 3) &&& 0x07
    temporalIdNested := (layers >>> 2) &&& 0x01
    lengthSizeMinusOne := layers &&& 0x03
    numOfArrays, arrays
    vpsNalu := lastOfType 32 arrays
    spsNalu := lastOfType 33 arrays
    ppsNalu := lastOfType 34 arrays }

end Decode

section Encode

def prefixOf (n : ℕ) (bs : Bytes) : CheckedWriter Bytes := fun b ↦
  if bs.length < n then .fault .overread else .ok (bs.take n, b)

def encodeNalu (nalu : Nalu) : CheckedWriter Unit := do
  putBytes (putBE 2 nalu.nalUnitLength.toNat) (-3)
  room nalu.nalUnitLength.toNat (-4)
  putBytes (← prefixOf nalu.nalUnitLength.toNat nalu.nalu) (-4)

def HVCCNALUnitArray.encode (a : HVCCNALUnitArray) : CheckedWriter Unit := do
  putBytes [arrayByte a.arrayCompleteness a.reserved a.nalUnitType] (-1)
  putBytes (putBE 2 a.numNalus.toNat) (-2)
  forFirst (room 2 (-3)) encodeNalu a.numNalus.toNat a.nalus

def encodeArray (a : HVCCNALUnitArray) : CheckedWriter Unit := orReturn (-8) a.encode

namespace HEVCDecoderConfigurationRecord

variable (r : HEVCDecoderConfigurationRecord)

def size : ℕ := 23 + (r.arrays.map fun a ↦ 3 + (a.nalus.map fun n ↦ 2 + n.nalu.length).sum).sum

def encode : CheckedWriter Unit := do
  putBytes [r.version] (-1)
  putBytes [profileByte r.generalProfileSpace r.generalTierFlag r.generalProfileIdc] (-2)
  putBytes (putBE 4 r.generalProfileCompatibilityFlags.toNat) (-3)
  putBytes (putBE 6 r.generalConstraintIndicatorFlags.toNat) (-4)
  putBytes [r.generalLevelIdc] (-5)
  putBytes (putBE 2 (segmentationWord r.reserved1 r.minSpatialSegmentationIdc)) (-6)
  putBytes [parallelismByte r.reserved2 r.parallelismType] (-7)
  putBytes [chromaByte r.reserved3 r.chromaFormat] (-7)
  putBytes [depthByte r.reserved4 r.bitDepthLumaMinus8] (-7)
  putBytes [depthByte r.reserved5 r.bitDepthChromaMinus8] (-7)
  putBytes (putBE 2 r.avgFrameRate.toNat) (-7)
  putBytes [layersByte r.constantFrameRate r.numTemporalLayers r.temporalIdNested
    r.lengthSizeMinusOne] (-7)
  putBytes [r.numOfArrays] (-7)
  forFirst (pure ()) encodeArray r.numOfArrays.toNat r.arrays

end HEVCDecoderConfigurationRecord

end Encode

section Wire

def Nalu.bytes (n : Nalu) : Bytes := putBE 2 n.nalUnitLength.toNat ++ n.nalu

def HVCCNALUnitArray.bytes (a : HVCCNALUnitArray) : Bytes :=
  [arrayByte a.arrayCompleteness a.reserved a.nalUnitType] ++
    (putBE 2 a.numNalus.toNat ++ a.nalus.flatMap Nalu.bytes)

/-- Every NAL unit is announced with its length, and there are as many as announced. -/
structure HVCCNALUnitArray.Fits (a : HVCCNALUnitArray) : Prop where
  arrayCompleteness_lt : a.arrayCompleteness.toNat < 2
  reserved_lt : a.reserved.toNat < 2
  nalUnitType_lt : a.nalUnitType.toNat < 64
  numNalus_eq : a.numNalus.toNat = a.nalus.length
  nalUnitLength_eq : ∀ n ∈ a.nalus, n.nalUnitLength.toNat = n.nalu.length

namespace HEVCDecoderConfigurationRecord

variable (r : HEVCDecoderConfigurationRecord)

/-- The fields have their widths in ISO 14496-15, and there are as many arrays as announced. -/
structure Fits : Prop where
  generalProfileSpace_lt : r.generalProfileSpace.toNat < 4
  generalTierFlag_lt : r.generalTierFlag.toNat < 2
  generalProfileIdc_lt : r.generalProfileIdc.toNat < 32
  reserved1_lt : r.reserved1.toNat < 16
  reserved2_lt : r.reserved2.toNat < 64
  parallelismType_lt : r.parallelismType.toNat < 4
  reserved3_lt : r.reserved3.toNat < 64
  chromaFormat_lt : r.chromaFormat.toNat < 4
  reserved4_lt : r.reserved4.toNat < 32
  bitDepthLumaMinus8_lt : r.bitDepthLumaMinus8.toNat < 8
  reserved5_lt : r.reserved5.toNat < 32
  bitDepthChromaMinus8_lt : r.bitDepthChromaMinus8.toNat < 8
  constantFrameRate_lt : r.constantFrameRate.toNat < 4
  numTemporalLayers_lt : r.numTemporalLayers.toNat < 8
  temporalIdNested_lt : r.temporalIdNested.toNat < 2
  lengthSizeMinusOne_lt : r.lengthSizeMinusOne.toNat < 4
  numOfArrays_eq : r.numOfArrays.toNat = r.arrays.length
  arrays_fit : ∀ a ∈ r.arrays, a.Fits

def wire (segmentation : ℕ) (parallelism layers : UInt8) : Bytes :=
  [r.version] ++
    ([profileByte r.generalProfileSpace r.generalTierFlag r.generalProfileIdc] ++
    (putBE 4 r.generalProfileCompatibilityFlags.toNat ++
    (putBE 6 r.generalConstraintIndicatorFlags.toNat ++
    ([r.generalLevelIdc] ++
    (putBE 2 segmentation ++
    ([parallelism] ++
    ([chromaByte r.reserved3 r.chromaFormat] ++
    ([depthByte r.reserved4 r.bitDepthLumaMinus8] ++
    ([depthByte r.reserved5 r.bitDepthChromaMinus8] ++
    (putBE 2 r.avgFrameRate.toNat ++
    ([layers] ++
    ([r.numOfArrays] ++ r.arrays.flatMap HVCCNALUnitArray.bytes))))))))))))

def bytes : Bytes :=
  r.wire (segmentationWord r.reserved1 r.minSpatialSegmentationIdc)
    (parallelismByte r.reserved2 r.parallelismType)
    (layersByte r.constantFrameRate r.numTemporalLayers r.temporalIdNested r.lengthSizeMinusOne)

end HEVCDecoderConfigurationRecord

theorem Nalu.bytes_length (n : Nalu) : n.bytes.length = 2 + n.nalu.length := by
  rw [Nalu.bytes, List.length_append, putBE_length]

theorem HVCCNALUnitArray.bytes_length (a : HVCCNALUnitArray) :
    a.bytes.length = 3 + (a.nalus.map fun n ↦ 2 + n.nalu.length).sum := by
  simp only [HVCCNALUnitArray.bytes, List.length_append, List.length_singleton, putBE_length,
    List.length_flatMap, Nalu.bytes_length]
  omega

theorem HEVCDecoderConfigurationRecord.wire_length (r : HEVCDecoderConfigurationRecord)
    (segmentation : ℕ) (parallelism layers : UInt8) :
    (r.wire segmentation parallelism layers).length = r.size := by
  simp only [wire, size, List.length_append, List.length_singleton, putBE_length,
    List.length_flatMap, HVCCNALUnitArray.bytes_length]
  omega

theorem encodeNalu_puts {n : Nalu} (h : n.nalUnitLength.toNat = n.nalu.length) :
    Puts (room 2 (-3) >>= fun _ ↦ encodeNalu n) n.bytes () := by
  have hdata : Puts (prefixOf n.nalUnitLength.toNat n.nalu >>= fun bs ↦ putBytes bs (-4)) n.nalu () := by
    intro b hroom
    have htake : n.nalu.take n.nalUnitLength.toNat = n.nalu := List.take_of_length_le (by omega)
    have hlen : ¬ n.nalu.length < n.nalUnitLength.toNat := by omega
    simp only [Lib.CheckedWriting.bind_apply, prefixOf, hlen, if_false, Outcome.ok_bind, htake]
    exact puts_putBytes n.nalu (-4) b hroom
  have hroomed := Puts.behind_room (k := fun _ ↦ _) hdata (le_of_eq h) (-4)
  have hput := (puts_putBytes (putBE 2 n.nalUnitLength.toNat) (-3)).bind (k := fun _ ↦ _) hroomed
  refine Puts.behind_room (k := fun _ ↦ _) hput ?_ (-3)
  rw [List.length_append, putBE_length]
  omega

theorem encodeArray_puts {a : HVCCNALUnitArray} (h : a.Fits) : Puts (encodeArray a) a.bytes () := by
  have hnalus := Puts.forFirst _ _ fun n hm ↦ encodeNalu_puts (h.nalUnitLength_eq n hm)
  rw [← h.numNalus_eq] at hnalus
  have hput : Puts a.encode a.bytes () :=
    (puts_putBytes _ _).bind <| (puts_putBytes _ _).bind (k := fun _ ↦ _) hnalus
  exact hput.orReturn (-8)

theorem decodeNalu_gives {n : Nalu} (h : n.nalUnitLength.toNat = n.nalu.length) :
    Gives decodeNalu n.bytes n := by
  refine (gives_getBE n.nalUnitLength.toNat_lt 0).bind ?_
  rw [UInt16.ofNat_toNat]
  exact (gives_getBytes h.symm 0).map fun nalu ↦ { n with nalu }

theorem decodeArray_gives {a : HVCCNALUnitArray} (h : a.Fits) :
    Gives HVCCNALUnitArray.decode a.bytes a := by
  obtain ⟨hc, hr, ht⟩ := arrayByte_split h.arrayCompleteness_lt h.reserved_lt h.nalUnitType_lt
  have hmany := Gives.many fun n hm ↦ decodeNalu_gives (h.nalUnitLength_eq n hm)
  rw [List.map_id', ← h.numNalus_eq] at hmany
  refine (gives_getByte _ 0).bind <| (gives_getBE a.numNalus.toNat_lt 0).bind ?_
  have hget := hmany.map fun nalus ↦ ({ a with nalus } : HVCCNALUnitArray)
  simpa only [hc, hr, ht, UInt16.ofNat_toNat] using hget

end Wire

section RoundTrip

namespace HEVCDecoderConfigurationRecord

variable (r : HEVCDecoderConfigurationRecord)

def readBack : HEVCDecoderConfigurationRecord :=
  let segmentation := segmentationWord r.reserved1 r.minSpatialSegmentationIdc
  let parallelism := parallelismByte r.reserved2 r.parallelismType
  let layers := layersByte r.constantFrameRate r.numTemporalLayers r.temporalIdNested
    r.lengthSizeMinusOne
  { r with
    reserved1 := .ofNat ((segmentation >>> 4) &&& 0xfff)
    minSpatialSegmentationIdc := .ofNat (segmentation &&& 0xf)
    reserved2 := (parallelism >>> 2) &&& 0x3f
    constantFrameRate := (layers >>> 6) &&& 0x03
    numTemporalLayers := (layers >>> 3) &&& 0x07
    vpsNalu := lastOfType 32 r.arrays
    spsNalu := lastOfType 33 r.arrays
    ppsNalu := lastOfType 34 r.arrays }

variable {r}

theorem encode_puts (hnum : r.numOfArrays.toNat = r.arrays.length) (hfit : ∀ a ∈ r.arrays, a.Fits) :
    Puts r.encode r.bytes () := by
  have harrays := Puts.forFirst (pure ()) encodeArray fun a hm ↦
    encodeArray_puts (hfit a hm)
  rw [← hnum] at harrays
  exact (puts_putBytes _ _).bind <| (puts_putBytes _ _).bind <| (puts_putBytes _ _).bind <|
    (puts_putBytes _ _).bind <| (puts_putBytes _ _).bind <| (puts_putBytes _ _).bind <|
    (puts_putBytes _ _).bind <| (puts_putBytes _ _).bind <| (puts_putBytes _ _).bind <|
    (puts_putBytes _ _).bind <| (puts_putBytes _ _).bind <| (puts_putBytes _ _).bind <|
    (puts_putBytes _ _).bind harrays

theorem decode_gives (h : r.Fits) : Gives decode r.bytes r.readBack := by
  obtain ⟨hspace, htier, hidc⟩ :=
    profileByte_split h.generalProfileSpace_lt h.generalTierFlag_lt h.generalProfileIdc_lt
  obtain ⟨-, htype⟩ := parallelismByte_split h.reserved2_lt h.parallelismType_lt
  obtain ⟨hreserved3, hformat⟩ := chromaByte_split h.reserved3_lt h.chromaFormat_lt
  obtain ⟨hreserved4, hluma⟩ := depthByte_split h.reserved4_lt h.bitDepthLumaMinus8_lt
  obtain ⟨hreserved5, hchroma⟩ := depthByte_split h.reserved5_lt h.bitDepthChromaMinus8_lt
  obtain ⟨-, -, hnested, hsize⟩ := layersByte_split h.constantFrameRate_lt h.numTemporalLayers_lt
    h.temporalIdNested_lt h.lengthSizeMinusOne_lt
  have hmany := Gives.many fun a hm ↦ decodeArray_gives (h.arrays_fit a hm)
  rw [List.map_id', ← h.numOfArrays_eq] at hmany
  have hget := hmany.map fun arrays ↦ ({ r.readBack with
    arrays
    vpsNalu := lastOfType 32 arrays
    spsNalu := lastOfType 33 arrays
    ppsNalu := lastOfType 34 arrays } : HEVCDecoderConfigurationRecord)
  refine (gives_getByte _ 0).bind <| (gives_getByte _ 0).bind <|
    (gives_getBE r.generalProfileCompatibilityFlags.toNat_lt 0).bind <|
    (gives_getBE r.generalConstraintIndicatorFlags.isLt 0).bind <|
    (gives_getByte _ 0).bind <| (gives_getBE (segmentationWord_lt h.reserved1_lt _) 0).bind <|
    (gives_getByte _ 0).bind <| (gives_getByte _ 0).bind <| (gives_getByte _ 0).bind <|
    (gives_getByte _ 0).bind <| (gives_getBE r.avgFrameRate.toNat_lt 0).bind <|
    (gives_getByte _ 0).bind <| (gives_getByte _ 0).bind ?_
  simpa only [hspace, htier, hidc, htype, hreserved3, hformat, hreserved4, hluma, hreserved5,
    hchroma, hnested, hsize, UInt32.ofNat_toNat, UInt16.ofNat_toNat, BitVec.ofNat_toNat,
    BitVec.setWidth_eq, readBack] using hget

def Same (r r' : HEVCDecoderConfigurationRecord) : Prop :=
  { r' with vpsNalu := r.vpsNalu, spsNalu := r.spsNalu, ppsNalu := r.ppsNalu } = r

def SameUpToReserved (r r' : HEVCDecoderConfigurationRecord) : Prop :=
  Same r { r' with
    reserved1 := r.reserved1, reserved2 := r.reserved2, reserved3 := r.reserved3
    reserved4 := r.reserved4, reserved5 := r.reserved5 }

theorem same_readBack : Same r r.readBack ↔
    r.readBack.reserved1 = r.reserved1 ∧
      r.readBack.minSpatialSegmentationIdc = r.minSpatialSegmentationIdc ∧
      r.readBack.reserved2 = r.reserved2 ∧ r.readBack.constantFrameRate = r.constantFrameRate ∧
      r.readBack.numTemporalLayers = r.numTemporalLayers := by
  cases r
  simp [Same, readBack]

theorem sameUpToReserved_readBack : SameUpToReserved r r.readBack ↔
    r.readBack.minSpatialSegmentationIdc = r.minSpatialSegmentationIdc ∧
      r.readBack.constantFrameRate = r.constantFrameRate ∧
      r.readBack.numTemporalLayers = r.numTemporalLayers := by
  cases r
  simp [SameUpToReserved, Same, readBack]

theorem sameUpToReserved_readBack_iff (h : r.Fits) : SameUpToReserved r r.readBack ↔
    r.minSpatialSegmentationIdc.toNat < 16 ∧ r.numTemporalLayers = 0 := by
  obtain ⟨hidc, -⟩ := segmentationWord_split h.reserved1_lt r.minSpatialSegmentationIdc
  obtain ⟨hlayers, hrate, -, -⟩ := layersByte_split h.constantFrameRate_lt h.numTemporalLayers_lt
    h.temporalIdNested_lt h.lengthSizeMinusOne_lt
  rw [sameUpToReserved_readBack]
  constructor
  · rintro ⟨hi, -, hl⟩
    exact ⟨hidc.mp hi, hlayers.mp hl⟩
  · rintro ⟨hi, hl⟩
    exact ⟨hidc.mpr hi, hrate hl, hlayers.mpr hl⟩

theorem same_readBack_iff (h : r.Fits) : Same r r.readBack ↔
    r.minSpatialSegmentationIdc.toNat < 16 ∧ r.numTemporalLayers = 0 ∧
      r.reserved1 = 0 ∧ r.reserved2 = 0 := by
  obtain ⟨-, hreserved1⟩ := segmentationWord_split h.reserved1_lt r.minSpatialSegmentationIdc
  obtain ⟨hreserved2, -⟩ := parallelismByte_split h.reserved2_lt h.parallelismType_lt
  have hfields := sameUpToReserved_readBack_iff h
  rw [sameUpToReserved_readBack] at hfields
  rw [same_readBack]
  constructor
  · rintro ⟨h1, hi, h2, hr, hl⟩
    obtain ⟨hlt, hzero⟩ := hfields.mp ⟨hi, hr, hl⟩
    exact ⟨hlt, hzero, (hreserved1 hlt).mp h1, hreserved2.mp h2⟩
  · rintro ⟨hlt, hzero, h1, h2⟩
    obtain ⟨hi, hr, hl⟩ := hfields.mpr ⟨hlt, hzero⟩
    exact ⟨(hreserved1 hlt).mpr h1, hi, hreserved2.mpr h2, hr, hl⟩

/-- A record that is encoded in a buffer of its size and decoded again agrees with
itself in the sense of `same`. -/
def ComesBack (same : HEVCDecoderConfigurationRecord → HEVCDecoderConfigurationRecord → Prop)
    (r : HEVCDecoderConfigurationRecord) : Prop :=
  ∀ buf : Bytes, buf.length = r.size →
    ∃ written r', runWriter r.encode buf = .ok (r.size, written, ()) ∧ decode written = .ok (r', []) ∧
      same r r'

theorem comesBack_iff (h : r.Fits)
    (same : HEVCDecoderConfigurationRecord → HEVCDecoderConfigurationRecord → Prop) :
    ComesBack same r ↔ same r r.readBack := by
  have hlen : r.bytes.length = r.size := wire_length ..
  have hdecode := decode_gives h []
  rw [List.append_nil] at hdecode
  have hrun (buf : Bytes) (hbuf : buf.length = r.size) :
      runWriter r.encode buf = .ok (r.size, r.bytes, ()) := by
    have hput := (encode_puts h.numOfArrays_eq h.arrays_fit).run buf (by rw [hlen, hbuf])
    rwa [hlen, List.drop_of_length_le (by rw [hbuf]), List.append_nil] at hput
  constructor
  · intro hback
    obtain ⟨written, r', hw, hd, hsame⟩ := hback (List.replicate r.size 0) List.length_replicate
    rw [hrun _ List.length_replicate] at hw
    cases hw
    rw [hdecode] at hd
    cases hd
    exact hsame
  · exact fun hsame buf hbuf ↦ ⟨r.bytes, r.readBack, hrun buf hbuf, hdecode, hsame⟩

end HEVCDecoderConfigurationRecord

end RoundTrip

section Reencode

theorem decodeNalu_eq_ok {data rest : Bytes} {n : Nalu} (h : decodeNalu data = .ok (n, rest)) :
    data = n.bytes ++ rest ∧ n.nalUnitLength.toNat = n.nalu.length := by
  obtain ⟨len, mid, hlen, h⟩ := bind_eq_ok.mp h
  obtain ⟨nalu, last, hnalu, h⟩ := bind_eq_ok.mp h
  obtain ⟨rfl, rfl⟩ := pure_eq_ok.mp h
  obtain ⟨hdata, hlt⟩ := getBE_eq_ok hlen
  obtain ⟨hmid, hn⟩ := getBytes_eq_ok hnalu
  have hof : (UInt16.ofNat len).toNat = len := UInt16.toNat_ofNat_of_lt' hlt
  refine ⟨?_, hof.trans hn.symm⟩
  rw [hdata, hmid, Nalu.bytes, hof, List.append_assoc]

theorem decodeArray_eq_ok {data rest : Bytes} {a : HVCCNALUnitArray}
    (h : HVCCNALUnitArray.decode data = .ok (a, rest)) : data = a.bytes ++ rest ∧ a.Fits := by
  obtain ⟨b, m₁, hb, h⟩ := bind_eq_ok.mp h
  obtain ⟨num, m₂, hnum, h⟩ := bind_eq_ok.mp h
  obtain ⟨nalus, m₃, hnalus, h⟩ := bind_eq_ok.mp h
  obtain ⟨rfl, rfl⟩ := pure_eq_ok.mp h
  obtain ⟨hm₁, hlt⟩ := getBE_eq_ok hnum
  have hof : (UInt16.ofNat num).toNat = num := UInt16.toNat_ofNat_of_lt' hlt
  have hinv : Inverts decodeNalu Nalu.bytes := fun _ _ _ h ↦ (decodeNalu_eq_ok h).1
  constructor
  · rw [getByte_eq_ok hb, hm₁, hinv.many num _ _ _ hnalus]
    simp only [HVCCNALUnitArray.bytes, arrayByte_join, hof, List.append_assoc, List.cons_append,
      List.nil_append]
  · exact ⟨toNat_and_lt (by decide) _, toNat_and_lt (by decide) _, toNat_and_lt (by decide) _,
      hof.trans (many_length hnalus).symm, many_forall (fun _ _ _ h ↦ (decodeNalu_eq_ok h).2) hnalus⟩

namespace HEVCDecoderConfigurationRecord

/-- The three places of a buffer at which two fields are taken apart in another way than
they are joined. -/
structure OpenPlaces (r : HEVCDecoderConfigurationRecord) (segmentation : ℕ)
    (parallelism layers : UInt8) : Prop where
  segmentation_lt : segmentation < 2 ^ 16
  reserved1_eq : r.reserved1 = .ofNat ((segmentation >>> 4) &&& 0xfff)
  minSpatialSegmentationIdc_eq : r.minSpatialSegmentationIdc = .ofNat (segmentation &&& 0xf)
  reserved2_eq : r.reserved2 = (parallelism >>> 2) &&& 0x3f
  parallelismType_eq : r.parallelismType = parallelism &&& 0x03
  constantFrameRate_eq : r.constantFrameRate = (layers >>> 6) &&& 0x03
  numTemporalLayers_eq : r.numTemporalLayers = (layers >>> 3) &&& 0x07
  temporalIdNested_eq : r.temporalIdNested = (layers >>> 2) &&& 0x01
  lengthSizeMinusOne_eq : r.lengthSizeMinusOne = layers &&& 0x03

/-- The record is laid out like the ones that fit, except for the reserved bits in front of
the segmentation. -/
theorem decode_inv {data rest : Bytes} {r : HEVCDecoderConfigurationRecord}
    (h : decode data = .ok (r, rest)) :
    r.numOfArrays.toNat = r.arrays.length ∧ (∀ a ∈ r.arrays, a.Fits) ∧
      ∃ segmentation parallelism layers, r.OpenPlaces segmentation parallelism layers ∧
        data = r.wire segmentation parallelism layers ++ rest := by
  obtain ⟨version, m₁, h₁, h⟩ := bind_eq_ok.mp h
  obtain ⟨profile, m₂, h₂, h⟩ := bind_eq_ok.mp h
  obtain ⟨compatibility, m₃, h₃, h⟩ := bind_eq_ok.mp h
  obtain ⟨constraints, m₄, h₄, h⟩ := bind_eq_ok.mp h
  obtain ⟨level, m₅, h₅, h⟩ := bind_eq_ok.mp h
  obtain ⟨segmentation, m₆, h₆, h⟩ := bind_eq_ok.mp h
  obtain ⟨parallelism, m₇, h₇, h⟩ := bind_eq_ok.mp h
  obtain ⟨chroma, m₈, h₈, h⟩ := bind_eq_ok.mp h
  obtain ⟨depthLuma, m₉, h₉, h⟩ := bind_eq_ok.mp h
  obtain ⟨depthChroma, m₁₀, h₁₀, h⟩ := bind_eq_ok.mp h
  obtain ⟨frameRate, m₁₁, h₁₁, h⟩ := bind_eq_ok.mp h
  obtain ⟨layers, m₁₂, h₁₂, h⟩ := bind_eq_ok.mp h
  obtain ⟨numOfArrays, m₁₃, h₁₃, h⟩ := bind_eq_ok.mp h
  obtain ⟨arrays, m₁₄, h₁₄, h⟩ := bind_eq_ok.mp h
  obtain ⟨rfl, rfl⟩ := pure_eq_ok.mp h
  obtain ⟨hm₂, hcompatibility⟩ := getBE_eq_ok h₃
  obtain ⟨hm₃, hconstraints⟩ := getBE_eq_ok h₄
  obtain ⟨hm₅, hsegmentation⟩ := getBE_eq_ok h₆
  obtain ⟨hm₁₀, hframeRate⟩ := getBE_eq_ok h₁₁
  have hinv : Inverts HVCCNALUnitArray.decode HVCCNALUnitArray.bytes :=
    fun _ _ _ h ↦ (decodeArray_eq_ok h).1
  refine ⟨(many_length h₁₄).symm, many_forall (fun _ _ _ h ↦ (decodeArray_eq_ok h).2) h₁₄,
    segmentation, parallelism, layers, ⟨hsegmentation, rfl, rfl, rfl, rfl, rfl, rfl, rfl, rfl⟩, ?_⟩
  have hof : (UInt32.ofNat compatibility).toNat = compatibility :=
    UInt32.toNat_ofNat_of_lt' hcompatibility
  have hof' : (BitVec.ofNat 48 constraints).toNat = constraints := by
    rw [BitVec.toNat_ofNat]
    exact Nat.mod_eq_of_lt hconstraints
  have hof'' : (UInt16.ofNat frameRate).toNat = frameRate := UInt16.toNat_ofNat_of_lt' hframeRate
  rw [getByte_eq_ok h₁, getByte_eq_ok h₂, hm₂, hm₃, getByte_eq_ok h₅, hm₅, getByte_eq_ok h₇,
    getByte_eq_ok h₈, getByte_eq_ok h₉, getByte_eq_ok h₁₀, hm₁₀, getByte_eq_ok h₁₂,
    getByte_eq_ok h₁₃, hinv.many _ _ _ _ h₁₄]
  simp only [wire, profileByte_join, chromaByte_join, depthByte_join, hof, hof', hof'',
    List.append_assoc, List.cons_append, List.nil_append]

variable {r : HEVCDecoderConfigurationRecord}

theorem wire_inj {s s' : ℕ} {p p' l l' : UInt8} :
    r.wire s p l = r.wire s' p' l' ↔ putBE 2 s = putBE 2 s' ∧ p = p' ∧ l = l' := by
  simp only [wire, List.append_cancel_left_eq]
  constructor
  · intro h
    obtain ⟨hs, h⟩ := List.append_inj h (by rw [putBE_length, putBE_length])
    simp only [List.cons_append, List.nil_append, List.cons.injEq, true_and,
      List.append_cancel_left_eq, and_true] at h
    exact ⟨hs, h⟩
  · rintro ⟨hs, rfl, rfl⟩
    rw [hs]

/-- What is written of a record that was read is what was read. -/
theorem bytes_eq_wire_iff {segmentation : ℕ} {parallelism layers : UInt8}
    (h : r.OpenPlaces segmentation parallelism layers) :
    r.bytes = r.wire segmentation parallelism layers ↔
      segmentation < 16 ∧ parallelism.toNat < 4 ∧ (layers >>> 3) &&& 0x07 = 0 := by
  rw [bytes, wire_inj, h.reserved1_eq, h.minSpatialSegmentationIdc_eq, h.reserved2_eq,
    h.parallelismType_eq, h.constantFrameRate_eq, h.numTemporalLayers_eq, h.temporalIdNested_eq,
    h.lengthSizeMinusOne_eq, segmentationWord_join h.segmentation_lt, parallelismByte_join,
    layersByte_join]

/-- Whatever stands behind it, a record that was read is written as it was read. -/
def Reencodes (data : Bytes) : Prop :=
  ∀ r rest, decode data = .ok (r, rest) → ∀ buf : Bytes, r.size ≤ buf.length →
    ∃ consumed, data = consumed ++ rest ∧
      runWriter r.encode buf = .ok (consumed.length, consumed ++ buf.drop consumed.length, ())

/-- The bits in front of the low ones of the segmentation and of the parallelism, and the
place of the temporal layers, are clear. -/
def SparesClear (data : Bytes) : Prop :=
  fromBE ((data.drop 13).take 2) < 16 ∧ (data.getD 15 0).toNat < 4 ∧
    (data.getD 21 0 >>> 3) &&& 0x07 = 0

theorem sparesClear_wire {segmentation : ℕ} (hs : segmentation < 2 ^ 16) (parallelism layers : UInt8)
    (rest : Bytes) : SparesClear (r.wire segmentation parallelism layers ++ rest) ↔
      segmentation < 16 ∧ parallelism.toNat < 4 ∧ (layers >>> 3) &&& 0x07 = 0 := by
  have hword : ((r.wire segmentation parallelism layers ++ rest).drop 13).take 2 =
      putBE 2 segmentation := rfl
  have hmod : fromBE (putBE 2 segmentation) = segmentation := by
    rw [fromBE_putBE]
    exact Nat.mod_eq_of_lt hs
  rw [SparesClear, hword, hmod]
  exact Iff.rfl

theorem reencodes_iff {data rest : Bytes} (h : decode data = .ok (r, rest)) :
    Reencodes data ↔ SparesClear data := by
  obtain ⟨hnum, harrays, segmentation, parallelism, layers, hplaces, hdata⟩ := decode_inv h
  have hput := encode_puts hnum harrays
  have hlen : r.bytes.length = r.size := wire_length ..
  have hbytes := bytes_eq_wire_iff hplaces
  rw [hdata, sparesClear_wire hplaces.segmentation_lt, ← hbytes, ← hdata]
  constructor
  · intro hre
    have hroom : r.size ≤ (List.replicate r.size (0 : UInt8)).length := by rw [List.length_replicate]
    obtain ⟨consumed, hc, hrun⟩ := hre r rest h _ hroom
    rw [hput.run _ (by rw [hlen]; exact hroom)] at hrun
    have hconsumed : consumed = r.wire segmentation parallelism layers :=
      List.append_cancel_right (hc.symm.trans hdata)
    simp only [Outcome.ok.injEq, Prod.mk.injEq] at hrun
    rw [← hconsumed]
    exact (List.append_inj hrun.2.1 hrun.1).1
  · intro heq r' rest' h' buf hbuf
    rw [h] at h'
    cases h'
    exact ⟨r.bytes, by rw [heq, ← hdata], hput.run _ (by rw [hlen]; exact hbuf)⟩

end HEVCDecoderConfigurationRecord

end Reencode

open HEVCDecoderConfigurationRecord

/-- A record comes back just when nothing stands in the bits that are joined in another way
than they are taken apart, and a buffer is written as it was read just when these bits are
clear in it. -/
theorem hevcDecoderConfigurationRecord_roundTrip_iff (r : HEVCDecoderConfigurationRecord)
    (h : r.Fits) (data : Bytes) (accepted : HEVCDecoderConfigurationRecord × Bytes)
    (hdata : decode data = .ok accepted) :
    (ComesBack Same r ↔ r.minSpatialSegmentationIdc.toNat < 16 ∧ r.numTemporalLayers = 0 ∧
      r.reserved1 = 0 ∧ r.reserved2 = 0) ∧
    (ComesBack SameUpToReserved r ↔
      r.minSpatialSegmentationIdc.toNat < 16 ∧ r.numTemporalLayers = 0) ∧
    (Reencodes data ↔ SparesClear data) := by
  rw [comesBack_iff h, comesBack_iff h]
  exact ⟨same_readBack_iff h, sameUpToReserved_readBack_iff h, reencodes_iff hdata⟩

def oneArray (numTemporalLayers : UInt8) : HEVCDecoderConfigurationRecord where
  parallelismType := 0
  chromaFormat := 1
  bitDepthLumaMinus8 := 0
  bitDepthChromaMinus8 := 0
  constantFrameRate := 0
  numTemporalLayers := numTemporalLayers
  numOfArrays := 1
  arrays := [{ nalUnitType := 32, numNalus := 1, nalus := [{ nalUnitLength := 2, nalu := [0x40, 1] }] }]

theorem oneArray_fits {numTemporalLayers : UInt8} (h : numTemporalLayers.toNat < 8) :
    (oneArray numTemporalLayers).Fits := by
  constructor
  case numTemporalLayers_lt => exact h
  case arrays_fit =>
    intro a ha
    obtain rfl := List.mem_singleton.mp ha
    exact ⟨by decide, by decide, by decide, by decide, by decide⟩
  all_goals simp [oneArray]

/-- A record with one array, which holds one parameter set. -/
def oneArrayBytes : Bytes := 1 :: List.replicate 21 0 ++ [1, 0x20, 0, 1, 0, 2, 0x40, 1]

theorem oneArray_roundTrip_iff :
    (ComesBack Same (oneArray 0) ↔ (oneArray 0).minSpatialSegmentationIdc.toNat < 16 ∧
      (oneArray 0).numTemporalLayers = 0 ∧ (oneArray 0).reserved1 = 0 ∧
      (oneArray 0).reserved2 = 0) ∧
    (ComesBack SameUpToReserved (oneArray 0) ↔
      (oneArray 0).minSpatialSegmentationIdc.toNat < 16 ∧ (oneArray 0).numTemporalLayers = 0) ∧
    (∃ accepted, decode oneArrayBytes = .ok accepted ∧ accepted.1.arrays = (oneArray 0).arrays) ∧
    (Reencodes oneArrayBytes ↔ SparesClear oneArrayBytes) := by
  obtain ⟨accepted, hd, harrays⟩ : ∃ accepted, decode oneArrayBytes = .ok accepted ∧
      accepted.1.arrays = (oneArray 0).arrays := ⟨_, rfl, rfl⟩
  obtain ⟨hsame, hreserved, hreencodes⟩ :=
    hevcDecoderConfigurationRecord_roundTrip_iff (oneArray 0) (oneArray_fits (by decide)) oneArrayBytes
      accepted hd
  exact ⟨hsame, hreserved, ⟨accepted, hd, harrays⟩, hreencodes⟩

/-- With one temporal layer the record does not come back. -/
theorem oneTemporalLayer_lost :
    (oneArray 1).Fits ∧ ¬ ComesBack Same (oneArray 1) ∧ ¬ ComesBack SameUpToReserved (oneArray 1) := by
  have hfits : (oneArray 1).Fits := oneArray_fits (by decide)
  rw [comesBack_iff hfits, comesBack_iff hfits, same_readBack_iff hfits,
    sameUpToReserved_readBack_iff hfits]
  exact ⟨hfits, by decide, by decide⟩

end MmsServer.Codec.HevcConfig
