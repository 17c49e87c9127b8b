import MmsServer.Lib.ExpGolomb

namespace MmsServer.Codec.SpsSyntax

open Lib.ByteReader Lib.BitReading Lib.ExpGolomb

/-- The profiles whose parameter sets tell the chroma format. -/
def chromaProfiles : List ℕ := [100, 110, 122, 244, 44, 83, 86, 118, 128, 138, 139, 134, 135]

abbrev Ue := Fin (2 ^ 32 - 1)

abbrev Se := { z : ℤ // -2 ^ 31 < z ∧ z < 2 ^ 31 }

def Ue.bits (n : Ue) : List Bool := ueBits n

def Se.bits (z : Se) : List Bool := seBits z

inductive ChromaFormat
  | monochrome
  | yuv420
  | yuv422
  | yuv444 (separateColourPlane : Bool)

namespace ChromaFormat

def idc : ChromaFormat → ℕ
  | monochrome => 0
  | yuv420 => 1
  | yuv422 => 2
  | yuv444 _ => 3

def separateBits : ChromaFormat → List Bool
  | yuv444 separate => [separate]
  | _ => []

def bits (c : ChromaFormat) : List Bool := ueBits c.idc ++ c.separateBits

end ChromaFormat

def ScalingDeltas : (entries : ℕ) → (last : ℤ) → List ℤ → Prop
  | 0, _, deltas => deltas = []
  | _ + 1, _, [] => False
  | n + 1, last, delta :: deltas =>
    if (last + delta + 256) % 256 = 0 then deltas = []
    else ScalingDeltas n ((last + delta + 256) % 256) deltas

structure ScalingList (entries : ℕ) where
  deltas : List ℤ
  range : ∀ delta ∈ deltas, -128 ≤ delta ∧ delta ≤ 127
  coded : ScalingDeltas entries 8 deltas

def ScalingList.bits {entries : ℕ} (l : ScalingList entries) : List Bool := l.deltas.flatMap seBits

structure ScalingMatrix (c : ChromaFormat) where
  lists4x4 : List (Option (ScalingList 16))
  lists8x8 : List (Option (ScalingList 64))
  length4x4 : lists4x4.length = 6
  length8x8 : lists8x8.length = if c.idc = 3 then 6 else 2

namespace ScalingMatrix

variable {c : ChromaFormat}

def bits (m : ScalingMatrix c) : List Bool :=
  m.lists4x4.flatMap (flagged ScalingList.bits) ++ m.lists8x8.flatMap (flagged ScalingList.bits)

def flags (m : ScalingMatrix c) : List Bool := m.lists4x4.map Option.isSome ++ m.lists8x8.map Option.isSome

end ScalingMatrix

structure ChromaInfo where
  format : ChromaFormat
  bitDepthLumaMinus8 : Ue
  bitDepthChromaMinus8 : Ue
  qpprimeYZeroTransformBypassFlag : Bool
  scalingMatrix : Option (ScalingMatrix format)

def ChromaInfo.bits (c : ChromaInfo) : List Bool :=
  c.format.bits ++ (c.bitDepthLumaMinus8.bits ++ (c.bitDepthChromaMinus8.bits ++
    ([c.qpprimeYZeroTransformBypassFlag] ++ flagged ScalingMatrix.bits c.scalingMatrix)))

inductive PicOrder
  | lsb (log2MaxPicOrderCntLsbMinus4 : Ue)
  | cycle (deltaPicOrderAlwaysZeroFlag : Bool) (offsetForNonRefPic offsetForTopToBottomField : Se)
      (offsetForRefFrame : List Se) (short : offsetForRefFrame.length < 2 ^ 32 - 1)
  | other (picOrderCntType : Ue) (ge : 2 ≤ (picOrderCntType : ℕ))

def PicOrder.bits : PicOrder → List Bool
  | lsb log2 => ueBits 0 ++ log2.bits
  | cycle zero nonRef field refs _ =>
    ueBits 1 ++ ([zero] ++ (nonRef.bits ++ (field.bits ++ (ueBits refs.length ++ refs.flatMap Se.bits))))
  | other type _ => type.bits

structure Cropping where
  left : Ue
  right : Ue
  top : Ue
  bottom : Ue

def Cropping.bits (c : Cropping) : List Bool := c.left.bits ++ (c.right.bits ++ (c.top.bits ++ c.bottom.bits))

structure Cpb where
  bitRateValueMinus1 : Ue
  cpbSizeValueMinus1 : Ue
  cbrFlag : Bool

def Cpb.bits (c : Cpb) : List Bool := c.bitRateValueMinus1.bits ++ (c.cpbSizeValueMinus1.bits ++ [c.cbrFlag])

structure Hrd where
  cpbCntMinus1 : Ue
  bitRateScale : Fin (2 ^ 4)
  cpbSizeScale : Fin (2 ^ 4)
  cpbs : List Cpb
  counted : cpbs.length = cpbCntMinus1 + 1
  initialCpbRemovalDelayLengthMinus1 : Fin (2 ^ 5)
  cpbRemovalDelayLengthMinus1 : Fin (2 ^ 5)
  dpbOutputDelayLengthMinus1 : Fin (2 ^ 5)
  timeOffsetLength : Fin (2 ^ 5)

def Hrd.bits (h : Hrd) : List Bool :=
  h.cpbCntMinus1.bits ++ (numberBits 4 h.bitRateScale ++ (numberBits 4 h.cpbSizeScale ++
    (h.cpbs.flatMap Cpb.bits ++ (numberBits 5 h.initialCpbRemovalDelayLengthMinus1 ++
      (numberBits 5 h.cpbRemovalDelayLengthMinus1 ++ (numberBits 5 h.dpbOutputDelayLengthMinus1 ++
        numberBits 5 h.timeOffsetLength))))))

inductive AspectRatio
  | ofTable (aspectRatioIdc : Fin 255)
  | extended (sarWidth sarHeight : Fin (2 ^ 16))

def AspectRatio.bits : AspectRatio → List Bool
  | ofTable idc => numberBits 8 idc
  | extended width height => numberBits 8 255 ++ (numberBits 16 width ++ numberBits 16 height)

structure Colour where
  colourPrimaries : Fin (2 ^ 8)
  transferCharacteristics : Fin (2 ^ 8)
  matrixCoefficients : Fin (2 ^ 8)

def Colour.bits (c : Colour) : List Bool :=
  numberBits 8 c.colourPrimaries ++ (numberBits 8 c.transferCharacteristics ++ numberBits 8 c.matrixCoefficients)

structure VideoSignal where
  videoFormat : Fin (2 ^ 3)
  videoFullRangeFlag : Bool
  colour : Option Colour

def VideoSignal.bits (v : VideoSignal) : List Bool :=
  numberBits 3 v.videoFormat ++ ([v.videoFullRangeFlag] ++ flagged Colour.bits v.colour)

structure ChromaLoc where
  topField : Ue
  bottomField : Ue

def ChromaLoc.bits (c : ChromaLoc) : List Bool := c.topField.bits ++ c.bottomField.bits

structure Timing where
  numUnitsInTick : Fin (2 ^ 32)
  timeScale : Fin (2 ^ 32)
  fixedFrameRateFlag : Bool

def Timing.bits (t : Timing) : List Bool :=
  numberBits 32 t.numUnitsInTick ++ (numberBits 32 t.timeScale ++ [t.fixedFrameRateFlag])

structure Restriction where
  motionVectorsOverPicBoundariesFlag : Bool
  maxBytesPerPicDenom : Ue
  maxBitsPerMbDenom : Ue
  log2MaxMvLengthHorizontal : Ue
  log2MaxMvLengthVertical : Ue
  maxNumReorderFrames : Ue
  maxDecFrameBuffering : Ue

def Restriction.bits (r : Restriction) : List Bool :=
  [r.motionVectorsOverPicBoundariesFlag] ++ (r.maxBytesPerPicDenom.bits ++ (r.maxBitsPerMbDenom.bits ++
    (r.log2MaxMvLengthHorizontal.bits ++ (r.log2MaxMvLengthVertical.bits ++
      (r.maxNumReorderFrames.bits ++ r.maxDecFrameBuffering.bits)))))

structure Vui where
  aspectRatio : Option AspectRatio
  overscanAppropriateFlag : Option Bool
  videoSignal : Option VideoSignal
  chromaLoc : Option ChromaLoc
  timing : Option Timing
  nalHrd : Option Hrd
  vclHrd : Option Hrd
  lowDelayHrdFlag : Option Bool
  lowDelay_isSome : lowDelayHrdFlag.isSome = (nalHrd.isSome || vclHrd.isSome)
  picStructPresentFlag : Bool
  restriction : Option Restriction

def Vui.bits (v : Vui) : List Bool :=
  flagged AspectRatio.bits v.aspectRatio ++ (flagged (fun flag ↦ [flag]) v.overscanAppropriateFlag ++
    (flagged VideoSignal.bits v.videoSignal ++ (flagged ChromaLoc.bits v.chromaLoc ++
      (flagged Timing.bits v.timing ++ (flagged Hrd.bits v.nalHrd ++ (flagged Hrd.bits v.vclHrd ++
        (v.lowDelayHrdFlag.toList ++ ([v.picStructPresentFlag] ++
          flagged Restriction.bits v.restriction))))))))

/-- `seq_parameter_set_data`. An element that the table makes conditional is an option. -/
structure SeqParameterSet where
  profileIdc : Fin (2 ^ 8)
  constraintSet0Flag : Bool
  constraintSet1Flag : Bool
  constraintSet2Flag : Bool
  constraintSet3Flag : Bool
  constraintSet4Flag : Bool
  constraintSet5Flag : Bool
  reservedZero2Bits : Fin (2 ^ 2)
  levelIdc : Fin (2 ^ 8)
  seqParameterSetId : Ue
  chroma : Option ChromaInfo
  chroma_isSome : chroma.isSome = decide ((profileIdc : ℕ) ∈ chromaProfiles)
  log2MaxFrameNumMinus4 : Ue
  picOrder : PicOrder
  maxNumRefFrames : Ue
  gapsInFrameNumValueAllowedFlag : Bool
  picWidthInMbsMinus1 : Ue
  picHeightInMapUnitsMinus1 : Ue
  mbAdaptiveFrameFieldFlag : Option Bool
  direct8x8InferenceFlag : Bool
  cropping : Option Cropping
  vui : Option Vui

namespace SeqParameterSet

variable (s : SeqParameterSet)

def frameMbsOnlyFlag : Bool := s.mbAdaptiveFrameFieldFlag.isNone

def headBits : List Bool :=
  numberBits 8 s.profileIdc ++ ([s.constraintSet0Flag] ++ ([s.constraintSet1Flag] ++ ([s.constraintSet2Flag] ++
    ([s.constraintSet3Flag] ++ ([s.constraintSet4Flag] ++ ([s.constraintSet5Flag] ++
      (numberBits 2 s.reservedZero2Bits ++ (numberBits 8 s.levelIdc ++ s.seqParameterSetId.bits))))))))

def chromaBits : List Bool := s.chroma.elim [] ChromaInfo.bits

def orderBits : List Bool := s.log2MaxFrameNumMinus4.bits ++ s.picOrder.bits

def frameBits : List Bool :=
  s.maxNumRefFrames.bits ++ ([s.gapsInFrameNumValueAllowedFlag] ++ (s.picWidthInMbsMinus1.bits ++
    (s.picHeightInMapUnitsMinus1.bits ++ ([s.frameMbsOnlyFlag] ++ (s.mbAdaptiveFrameFieldFlag.toList ++
      [s.direct8x8InferenceFlag])))))

def bits : List Bool :=
  s.headBits ++ (s.chromaBits ++ (s.orderBits ++ (s.frameBits ++
    (flagged Cropping.bits s.cropping ++ flagged Vui.bits s.vui))))

def ScalingFree : Prop :=
  ∀ c ∈ s.chroma, ∀ m ∈ c.scalingMatrix, (∀ l ∈ m.lists4x4, l = none) ∧ ∀ l ∈ m.lists8x8, l = none

def rbsp : Bytes := pack (s.bits ++ true :: List.replicate (7 - s.bits.length % 8) false)

/-- A set without chroma information is of the format 4:2:0. -/
def chromaArrayType : ℕ :=
  match s.chroma.map ChromaInfo.format with
  | none => 1
  | some (.yuv444 true) => 0
  | some c => c.idc

def subWidthC : ℕ := if s.chromaArrayType = 1 ∨ s.chromaArrayType = 2 then 2 else 1

def subHeightC : ℕ := if s.chromaArrayType = 1 then 2 else 1

def fieldsPerMap : ℕ := if s.frameMbsOnlyFlag then 1 else 2

def cropUnitX : ℕ := if s.chromaArrayType = 0 then 1 else s.subWidthC

def cropUnitY : ℕ := if s.chromaArrayType = 0 then s.fieldsPerMap else s.subHeightC * s.fieldsPerMap

def croppedColumns : ℕ := s.cropping.elim 0 fun c ↦ c.left + c.right

def croppedRows : ℕ := s.cropping.elim 0 fun c ↦ c.top + c.bottom

def width : ℤ := 16 * (s.picWidthInMbsMinus1 + 1) - s.cropUnitX * s.croppedColumns

def height : ℤ := 16 * s.fieldsPerMap * (s.picHeightInMapUnitsMinus1 + 1) - s.cropUnitY * s.croppedRows

end SeqParameterSet

section Lengths

variable (s : SeqParameterSet)

theorem SeqParameterSet.bits_prefix_rbsp : s.bits <+: Lib.BitReading.bits s.rbsp := by
  rw [SeqParameterSet.rbsp, bits_pack]
  · exact List.prefix_append _ _
  · rw [List.length_append, List.length_cons, List.length_replicate]
    omega

end Lengths

end MmsServer.Codec.SpsSyntax
