import MmsServer.Base.ExpGolomb
import MmsServer.Codec.SpsSyntax

namespace MmsServer.Codec.SpsParser

open Lib.ByteReader Lib.Checked Lib.BitReading Lib.ExpGolomb Base.ExpGolomb SpsSyntax

structure HrdParameters where
  cpbCntMinus1 : ℕ
  bitRateScale : ℕ
  cpbSizeScale : ℕ
  bitRateValueMinus1 : List ℕ
  cpbSizeValueMinus1 : List ℕ
  cbrFlag : List Bool
  initialCpbRemovalDelayLengthMinus1 : ℕ
  cpbRemovalDelayLengthMinus1 : ℕ
  dpbOutputDelayLengthMinus1 : ℕ
  timeOffsetLength : ℕ
deriving Inhabited

structure VuiParameters where
  aspectRatioInfoPresentFlag : Bool
  aspectRatioIdc : ℕ
  sarWidth : ℕ
  sarHeight : ℕ
  overscanInfoPresentFlag : Bool
  overscanAppropriateFlag : Bool
  videoSignalTypePresentFlag : Bool
  videoFormat : ℕ
  videoFullRangeFlag : Bool
  colourDescriptionPresentFlag : Bool
  colourPrimaries : ℕ
  transferCharacteristics : ℕ
  matrixCoefficients : ℕ
  chromaLocInfoPresentFlag : Bool
  chromaSampleLocTypeTopField : ℕ
  chromaSampleLocTypeBottomField : ℕ
  timingInfoPresentFlag : Bool
  numUnitsInTick : ℕ
  timeScale : ℕ
  fixedFrameRateFlag : Bool
  nalHrdParametersPresentFlag : Bool
  hrdParameters1 : HrdParameters
  vclHrdParametersPresentFlag : Bool
  hrdParameters2 : HrdParameters
  lowDelayHrdFlag : Bool
  picStructPresentFlag : Bool
  bitstreamRestrictionFlag : Bool
  motionVectorsOverPicBoundariesFlag : Bool
  maxBytesPerPicDenom : ℕ
  maxBitsPerMbDenom : ℕ
  log2MaxMvLengthHorizontal : ℕ
  log2MaxMvLengthVertical : ℕ
  maxNumReorderFrames : ℕ
  maxDecFrameBuffering : ℕ
deriving Inhabited

structure H264Sps where
  profileIdc : ℕ
  constraintSet0Flag : Bool
  constraintSet1Flag : Bool
  constraintSet2Flag : Bool
  constraintSet3Flag : Bool
  constraintSet4Flag : Bool
  constraintSet5Flag : Bool
  reservedZero2Bits : ℕ
  levelIdc : ℕ
  seqParameterSetId : ℕ
  chromaFormatIdc : ℕ
  separateColourPlaneFlag : Bool
  bitDepthLumaMinus8 : ℕ
  bitDepthChromaMinus8 : ℕ
  qpprimeYZeroTransformBypassFlag : Bool
  seqScalingMatrixPresentFlag : Bool
  seqScalingListPresentFlag : List Bool
  log2MaxFrameNumMinus4 : ℕ
  picOrderCntType : ℕ
  log2MaxPicOrderCntLsbMinus4 : ℕ
  deltaPicOrderAlwaysZeroFlag : Bool
  offsetForNonRefPic : ℤ
  offsetForTopToBottomField : ℤ
  numRefFramesInPicOrderCntCycle : ℕ
  offsetForRefFrame : List ℤ
  maxNumRefFrames : ℕ
  gapsInFrameNumValueAllowedFlag : Bool
  picWidthInMbsMinus1 : ℕ
  picHeightInMapUnitsMinus1 : ℕ
  frameMbsOnlyFlag : Bool
  mbAdaptiveFrameFieldFlag : Bool
  direct8x8InferenceFlag : Bool
  frameCroppingFlag : Bool
  frameCropLeftOffset : ℕ
  frameCropRightOffset : ℕ
  frameCropTopOffset : ℕ
  frameCropBottomOffset : ℕ
  vuiParametersPresentFlag : Bool
  vuiParameters : VuiParameters
deriving Inhabited

namespace HrdParameters

def parseCpb : BitReader (ℕ × ℕ × Bool) := do
  let bitRate ← readExpGolombUe
  let cpbSize ← readExpGolombUe
  let cbr ← readOneBit (-6)
  return (bitRate, cpbSize, cbr)

/-- The lists are not cleared. -/
def parse (hrd : HrdParameters) : BitReader HrdParameters := do
  let cpbCntMinus1 ← readExpGolombUe
  let bitRateScale ← readU 8 4
  let cpbSizeScale ← readU 8 4
  let cpbs ← many parseCpb (cpbCntMinus1 + 1)
  let initialCpbRemovalDelayLengthMinus1 ← readU 8 5
  let cpbRemovalDelayLengthMinus1 ← readU 8 5
  let dpbOutputDelayLengthMinus1 ← readU 8 5
  let timeOffsetLength ← readU 8 5
  return {
    cpbCntMinus1, bitRateScale, cpbSizeScale
    bitRateValueMinus1 := hrd.bitRateValueMinus1 ++ cpbs.map (·.1)
    cpbSizeValueMinus1 := hrd.cpbSizeValueMinus1 ++ cpbs.map (·.2.1)
    cbrFlag := hrd.cbrFlag ++ cpbs.map (·.2.2)
    initialCpbRemovalDelayLengthMinus1, cpbRemovalDelayLengthMinus1
    dpbOutputDelayLengthMinus1, timeOffsetLength }

end HrdParameters

namespace VuiParameters

variable (v : VuiParameters)

def parseAspectRatio : BitReader VuiParameters := do
  let flag ← readOneBit (-1)
  if flag then
    let idc ← readU 8 8
    if idc = 0xff then
      let width ← readU 16 16
      let height ← readU 16 16
      return { v with aspectRatioInfoPresentFlag := true, aspectRatioIdc := idc, sarWidth := width, sarHeight := height }
    else
      return { v with aspectRatioInfoPresentFlag := true, aspectRatioIdc := idc }
  else
    return { v with aspectRatioInfoPresentFlag := false }

def parseOverscan : BitReader VuiParameters := do
  let flag ← readOneBit (-5)
  if flag then
    let appropriate ← readOneBit (-6)
    return { v with overscanInfoPresentFlag := true, overscanAppropriateFlag := appropriate }
  else
    return { v with overscanInfoPresentFlag := false }

def parseColour : BitReader VuiParameters := do
  let flag ← readOneBit (-10)
  if flag then
    let primaries ← readU 8 8
    let transfer ← readU 8 8
    let matrix ← readU 8 8
    return {
      v with
      colourDescriptionPresentFlag := true, colourPrimaries := primaries
      transferCharacteristics := transfer, matrixCoefficients := matrix }
  else
    return { v with colourDescriptionPresentFlag := false }

def parseVideoSignal : BitReader VuiParameters := do
  let flag ← readOneBit (-7)
  if flag then
    let format ← readU 8 3
    let fullRange ← readOneBit (-9)
    parseColour { v with videoSignalTypePresentFlag := true, videoFormat := format, videoFullRangeFlag := fullRange }
  else
    return { v with videoSignalTypePresentFlag := false }

def parseChromaLoc : BitReader VuiParameters := do
  let flag ← readOneBit (-14)
  if flag then
    let top ← readExpGolombUe
    let bottom ← readExpGolombUe
    return {
      v with
      chromaLocInfoPresentFlag := true
      chromaSampleLocTypeTopField := top, chromaSampleLocTypeBottomField := bottom }
  else
    return { v with chromaLocInfoPresentFlag := false }

def parseTiming : BitReader VuiParameters := do
  let flag ← readOneBit (-17)
  if flag then
    let numUnitsInTick ← readU 64 32
    let timeScale ← readU 64 32
    let fixed ← readOneBit (-20)
    return { v with timingInfoPresentFlag := true, numUnitsInTick, timeScale, fixedFrameRateFlag := fixed }
  else
    return { v with timingInfoPresentFlag := false }

def parseHrd : BitReader VuiParameters := do
  let nal ← readOneBit (-21)
  let hrd1 ← readIf nal (orReturn (-22) v.hrdParameters1.parse) v.hrdParameters1
  let vcl ← readOneBit (-23)
  let hrd2 ← readIf vcl (orReturn (-24) v.hrdParameters2.parse) v.hrdParameters2
  let lowDelay ← readIf (nal || vcl) (readOneBit (-25)) v.lowDelayHrdFlag
  return {
    v with
    nalHrdParametersPresentFlag := nal, hrdParameters1 := hrd1
    vclHrdParametersPresentFlag := vcl, hrdParameters2 := hrd2, lowDelayHrdFlag := lowDelay }

def parseRestriction : BitReader VuiParameters := do
  let flag ← readOneBit (-27)
  if flag then
    let overBoundaries ← readOneBit (-28)
    let maxBytesPerPicDenom ← readExpGolombUe
    let maxBitsPerMbDenom ← readExpGolombUe
    let log2MaxMvLengthHorizontal ← readExpGolombUe
    let log2MaxMvLengthVertical ← readExpGolombUe
    let maxNumReorderFrames ← readExpGolombUe
    let maxDecFrameBuffering ← readExpGolombUe
    return {
      v with
      bitstreamRestrictionFlag := true, motionVectorsOverPicBoundariesFlag := overBoundaries
      maxBytesPerPicDenom, maxBitsPerMbDenom, log2MaxMvLengthHorizontal, log2MaxMvLengthVertical
      maxNumReorderFrames, maxDecFrameBuffering }
  else
    return { v with bitstreamRestrictionFlag := false }

def parse : BitReader VuiParameters := do
  let v ← v.parseAspectRatio
  let v ← v.parseOverscan
  let v ← v.parseVideoSignal
  let v ← v.parseChromaLoc
  let v ← v.parseTiming
  let v ← v.parseHrd
  let picStruct ← readOneBit (-26)
  parseRestriction { v with picStructPresentFlag := picStruct }

end VuiParameters

namespace H264Sps

/-- The flags up to the first one that is not there, and whether all of them are. -/
def parseScalingFlags : ℕ → BitReader (List Bool × Bool)
  | 0 => return ([], true)
  | n + 1 => do
    match ← tryOneBit with
    | some b =>
      let (flags, all) ← parseScalingFlags n
      return (b :: flags, all)
    | none => return ([], false)

variable (sps : H264Sps)

def parseHead : BitReader H264Sps := do
  let profileIdc ← readU 8 8
  let constraintSet0Flag ← readOneBit (-2)
  let constraintSet1Flag ← readOneBit (-3)
  let constraintSet2Flag ← readOneBit (-4)
  let constraintSet3Flag ← readOneBit (-5)
  let constraintSet4Flag ← readOneBit (-6)
  let constraintSet5Flag ← readOneBit (-7)
  let reservedZero2Bits ← readU 8 2
  let levelIdc ← readU 8 8
  let seqParameterSetId ← readExpGolombUe
  return {
    sps with
    profileIdc, constraintSet0Flag, constraintSet1Flag, constraintSet2Flag, constraintSet3Flag
    constraintSet4Flag, constraintSet5Flag, reservedZero2Bits, levelIdc, seqParameterSetId }

/-- Of the scaling lists the flags are read, but not the lists. With a flag that is not there
`parse` ends, and returns `false`. -/
def parseScaling : BitReader (H264Sps × Bool) := do
  let flag ← readOneBit (-16)
  if flag then
    let (flags, all) ← parseScalingFlags (if sps.chromaFormatIdc ≠ 3 then 8 else 12)
    return ({
      sps with
      seqScalingMatrixPresentFlag := true
      seqScalingListPresentFlag := sps.seqScalingListPresentFlag ++ flags }, all)
  else
    return ({ sps with seqScalingMatrixPresentFlag := false }, true)

def parseChroma : BitReader (H264Sps × Bool) := do
  let chromaFormatIdc ← readExpGolombUe
  let separate ← readIf (chromaFormatIdc = 3) (readOneBit (-12)) sps.separateColourPlaneFlag
  let bitDepthLumaMinus8 ← readExpGolombUe
  let bitDepthChromaMinus8 ← readExpGolombUe
  let bypass ← readOneBit (-15)
  parseScaling {
    sps with
    chromaFormatIdc, separateColourPlaneFlag := separate, bitDepthLumaMinus8, bitDepthChromaMinus8
    qpprimeYZeroTransformBypassFlag := bypass }

def parseOrder : BitReader H264Sps := do
  let log2MaxFrameNumMinus4 ← readExpGolombUe
  let picOrderCntType ← readExpGolombUe
  if picOrderCntType = 0 then
    let log2MaxPicOrderCntLsbMinus4 ← readExpGolombUe
    return { sps with log2MaxFrameNumMinus4, picOrderCntType, log2MaxPicOrderCntLsbMinus4 }
  else if picOrderCntType = 1 then
    let zero ← readOneBit (-20)
    let offsetForNonRefPic ← readExpGolombSe
    let offsetForTopToBottomField ← readExpGolombSe
    let refs ← readExpGolombUe
    let offsets ← many readExpGolombSe refs
    return {
      sps with
      log2MaxFrameNumMinus4, picOrderCntType, deltaPicOrderAlwaysZeroFlag := zero
      offsetForNonRefPic, offsetForTopToBottomField, numRefFramesInPicOrderCntCycle := refs
      offsetForRefFrame := sps.offsetForRefFrame ++ offsets }
  else
    return { sps with log2MaxFrameNumMinus4, picOrderCntType }

def parseFrame : BitReader H264Sps := do
  let maxNumRefFrames ← readExpGolombUe
  let gaps ← readOneBit (-26)
  let picWidthInMbsMinus1 ← readExpGolombUe
  let picHeightInMapUnitsMinus1 ← readExpGolombUe
  let frameMbsOnlyFlag ← readOneBit (-29)
  let adaptive ← readIf (!frameMbsOnlyFlag) (readOneBit (-30)) sps.mbAdaptiveFrameFieldFlag
  let direct8x8InferenceFlag ← readOneBit (-31)
  return {
    sps with
    maxNumRefFrames, gapsInFrameNumValueAllowedFlag := gaps, picWidthInMbsMinus1
    picHeightInMapUnitsMinus1, frameMbsOnlyFlag, mbAdaptiveFrameFieldFlag := adaptive
    direct8x8InferenceFlag }

def parseCropping : BitReader H264Sps := do
  let flag ← readOneBit (-32)
  if flag then
    let left ← readExpGolombUe
    let right ← readExpGolombUe
    let top ← readExpGolombUe
    let bottom ← readExpGolombUe
    return {
      sps with
      frameCroppingFlag := true, frameCropLeftOffset := left, frameCropRightOffset := right
      frameCropTopOffset := top, frameCropBottomOffset := bottom }
  else
    return { sps with frameCroppingFlag := false }

def parseVui : BitReader H264Sps := do
  let flag ← readOneBit (-37)
  if flag then
    let vui ← orReturn (-38) sps.vuiParameters.parse
    return { sps with vuiParametersPresentFlag := true, vuiParameters := vui }
  else
    return { sps with vuiParametersPresentFlag := false }

/-- `parse` into an object with the members `sps`. A member that is not coded stays as it is. -/
def parse : BitReader H264Sps := do
  let sps ← sps.parseHead
  let (sps, all) ← readIf (sps.profileIdc ∈ chromaProfiles) sps.parseChroma (sps, true)
  if all then
    let sps ← sps.parseOrder
    let sps ← sps.parseFrame
    let sps ← sps.parseCropping
    sps.parseVui
  else
    return sps

end H264Sps

end MmsServer.Codec.SpsParser
