import Mathlib.Data.Int.ModEq
import MmsServer.Codec.AvcConfig
import MmsServer.Codec.EmulationPrevention
import MmsServer.Codec.SpsParser

namespace MmsServer.Codec.AvcCodec

open Lib.ByteReader Lib.Checked AvcConfig EmulationPrevention SpsParser

def wrap32 (x : ℤ) : ℤ := x.bmod (2 ^ 32)

def uint64 (x : ℤ) : ℤ := x % 2 ^ 64

/-- The crop offsets are unsigned numbers of 64 bits, the size is a signed one of 32 bits. -/
def pictureWidth (sps : H264Sps) : ℤ :=
  let width := wrap32 (wrap32 (sps.picWidthInMbsMinus1 + 1) * 16)
  if sps.frameCroppingFlag then
    wrap32 (uint64 (width - 2 * (sps.frameCropLeftOffset + sps.frameCropRightOffset)))
  else width

def pictureHeight (sps : H264Sps) : ℤ :=
  let height := wrap32 (wrap32 (sps.picHeightInMapUnitsMinus1 + 1) * 16)
  let height := if !sps.frameMbsOnlyFlag then wrap32 (height * 2) else height
  if sps.frameCroppingFlag then
    wrap32 (uint64 (height - 2 * (sps.frameCropTopOffset + sps.frameCropBottomOffset)))
  else height

def pictureSize (sps : H264Sps) : ℕ × ℕ :=
  ((pictureWidth sps % 2 ^ 32).toNat, (pictureHeight sps % 2 ^ 32).toNat)

structure FrameRate where
  timeScale : ℕ
  ticks : ℕ
deriving DecidableEq

def frameRate (sps : H264Sps) : Option FrameRate :=
  if sps.vuiParametersPresentFlag && sps.vuiParameters.timingInfoPresentFlag &&
      decide (0 < sps.vuiParameters.numUnitsInTick) then
    some ⟨sps.vuiParameters.timeScale, 2 * sps.vuiParameters.numUnitsInTick⟩
  else none

def addSps (r : AVCDecoderConfigurationRecord) (sps : Bytes) : AVCDecoderConfigurationRecord := {
  r with
  spsNalus := r.spsNalus ++ [sps]
  numOfSequenceParameterSets := .ofNat (r.spsNalus ++ [sps]).length }

def addPps (r : AVCDecoderConfigurationRecord) (pps : Bytes) : AVCDecoderConfigurationRecord := {
  r with
  ppsNalus := r.ppsNalus ++ [pps]
  numOfPictureParameterSets := .ofNat (r.ppsNalus ++ [pps]).length }

structure H264Codec where
  spsPpsParsed : Bool := false
  spsNalu : Bytes := []
  ppsNalu : Bytes := []
  spsRbsp : Bytes := []
  sps : H264Sps
  width : ℕ := 0
  height : ℕ := 0
  fps : Option FrameRate := none
  avcConfigurationValid : Bool := false
  avcConfiguration : AVCDecoderConfigurationRecord
  ready : Bool := false

namespace H264Codec

variable (c : H264Codec)

def complete : Bool := !c.spsNalu.isEmpty && !c.ppsNalu.isEmpty

/-- The parsing in `get_wh`, `get_fps` and `gen_avc_decoder_configuration_record`. The byte in
front is the header of the unit. -/
def parseSps : Outcome H264Codec :=
  if c.spsPpsParsed then return c
  else do
    let rbsp := deemulationPrevention c.spsNalu.tail
    let (sps, _) ← c.sps.parse rbsp 0
    return { c with spsRbsp := rbsp, sps, spsPpsParsed := true }

def measure : H264Codec := {
  c with
  width := (pictureSize c.sps).1
  height := (pictureSize c.sps).2
  fps := (frameRate c.sps).or c.fps }

def getWh : Outcome (H264Codec × Option (ℕ × ℕ)) :=
  if c.complete then do
    let c ← c.parseSps
    return (c.measure, some (pictureSize c.sps))
  else return (c, none)

def getFps : Outcome (H264Codec × Option FrameRate) :=
  if c.complete then do
    let c ← c.parseSps
    return (c.measure, frameRate c.sps)
  else return (c, none)

def setSps (sps : Bytes) : H264Codec :=
  let c := { c with spsNalu := sps }
  if c.complete then { c with ready := true } else c

def setPps (pps : Bytes) : H264Codec :=
  let c := { c with ppsNalu := pps }
  if c.complete then { c with ready := true } else c

def setSpsPps (sps pps : Bytes) : Outcome (H264Codec × Bool) := do
  let (c, size) ← getWh { c with spsNalu := sps, ppsNalu := pps }
  if size.isNone then return (c, false)
  let (c, fps) ← c.getFps
  if fps.isNone then return (c, false)
  return ({ c with ready := true }, true)

def genAvcDecoderConfigurationRecord : Outcome (H264Codec × Bool) :=
  if c.complete then do
    let c ← c.parseSps
    let record := {
      c.avcConfiguration with
      avcProfile := .ofNat c.sps.profileIdc
      avcLevel := .ofNat c.sps.levelIdc
      naluLengthSizeMinusOne := 3 }
    return ({ c with avcConfiguration := addPps (addSps record c.spsNalu) c.ppsNalu }, true)
  else return (c, false)

def getAvcConfiguration : Outcome (H264Codec × AVCDecoderConfigurationRecord) :=
  if c.avcConfigurationValid then return (c, c.avcConfiguration)
  else do
    let (c, made) ← c.genAvcDecoderConfigurationRecord
    let c := { c with avcConfigurationValid := made }
    return (c, c.avcConfiguration)

end H264Codec

section Calls

variable {c d : H264Codec} {sps : H264Sps} {pos : ℕ}

theorem complete_eq (c : H264Codec) : c.complete = true ↔ c.spsNalu ≠ [] ∧ c.ppsNalu ≠ [] := by
  rw [H264Codec.complete, Bool.and_eq_true, Bool.not_eq_true', Bool.not_eq_true',
    List.isEmpty_eq_false_iff, List.isEmpty_eq_false_iff]

theorem setSps_eq (c : H264Codec) (sps : Bytes) : ∃ ready, c.setSps sps = { c with spsNalu := sps, ready } := by
  unfold H264Codec.setSps
  dsimp only
  split
  · exact ⟨true, rfl⟩
  · exact ⟨c.ready, rfl⟩

theorem setPps_eq (c : H264Codec) (pps : Bytes) : ∃ ready, c.setPps pps = { c with ppsNalu := pps, ready } := by
  unfold H264Codec.setPps
  dsimp only
  split
  · exact ⟨true, rfl⟩
  · exact ⟨c.ready, rfl⟩

theorem parseSps_parsed (h : c.spsPpsParsed = true) : c.parseSps = .ok c := by
  rw [H264Codec.parseSps, if_pos h]
  rfl

theorem parseSps_ok (h : c.spsPpsParsed = false)
    (hparse : c.sps.parse (deemulationPrevention c.spsNalu.tail) 0 = .ok (sps, pos)) :
    c.parseSps = .ok {
      c with spsRbsp := deemulationPrevention c.spsNalu.tail, sps, spsPpsParsed := true } := by
  rw [H264Codec.parseSps, if_neg (by rw [h]; exact Bool.false_ne_true)]
  dsimp only
  rw [hparse]
  rfl

theorem getWh_ok (hc : c.complete = true) (h : c.parseSps = .ok d) :
    c.getWh = .ok (d.measure, some (pictureSize d.sps)) := by
  rw [H264Codec.getWh, if_pos hc, h]
  rfl

theorem getWh_incomplete (hc : c.complete = false) : c.getWh = .ok (c, none) := by
  rw [H264Codec.getWh, if_neg (by rw [hc]; exact Bool.false_ne_true)]
  rfl

theorem getFps_ok (hc : c.complete = true) (h : c.parseSps = .ok d) :
    c.getFps = .ok (d.measure, frameRate d.sps) := by
  rw [H264Codec.getFps, if_pos hc, h]
  rfl

theorem getFps_incomplete (hc : c.complete = false) : c.getFps = .ok (c, none) := by
  rw [H264Codec.getFps, if_neg (by rw [hc]; exact Bool.false_ne_true)]
  rfl

theorem getAvcConfiguration_valid (hv : c.avcConfigurationValid = true) :
    c.getAvcConfiguration = .ok (c, c.avcConfiguration) := by
  rw [H264Codec.getAvcConfiguration, if_pos hv]
  rfl

theorem getAvcConfiguration_incomplete (hv : c.avcConfigurationValid = false) (hc : c.complete = false) :
    c.getAvcConfiguration = .ok ({ c with avcConfigurationValid := false }, c.avcConfiguration) := by
  rw [H264Codec.getAvcConfiguration, if_neg (by rw [hv]; exact Bool.false_ne_true),
    H264Codec.genAvcDecoderConfigurationRecord, if_neg (by rw [hc]; exact Bool.false_ne_true)]
  rfl

def madeRecord (d : H264Codec) : AVCDecoderConfigurationRecord :=
  addPps (addSps {
    d.avcConfiguration with
    avcProfile := .ofNat d.sps.profileIdc
    avcLevel := .ofNat d.sps.levelIdc
    naluLengthSizeMinusOne := 3 } d.spsNalu) d.ppsNalu

theorem getAvcConfiguration_made (hv : c.avcConfigurationValid = false) (hc : c.complete = true)
    (h : c.parseSps = .ok d) :
    c.getAvcConfiguration =
      .ok ({ d with avcConfigurationValid := true, avcConfiguration := madeRecord d }, madeRecord d) := by
  rw [H264Codec.getAvcConfiguration, if_neg (by rw [hv]; exact Bool.false_ne_true),
    H264Codec.genAvcDecoderConfigurationRecord, if_pos hc, h]
  rfl

theorem setSpsPps_ok {sps pps : Bytes} {size : ℕ × ℕ} {e : H264Codec × Option FrameRate}
    (h : H264Codec.getWh { c with spsNalu := sps, ppsNalu := pps } = .ok (d, some size))
    (hfps : d.getFps = .ok e) : c.setSpsPps sps pps =
      .ok (if e.2.isNone then (e.1, false) else ({ e.1 with ready := true }, true)) := by
  obtain ⟨e, fps⟩ := e
  rw [H264Codec.setSpsPps, h, Outcome.ok_bind]
  dsimp only
  rw [if_neg (by simp), hfps]
  cases fps with
  | none => rfl
  | some fps => rfl

end Calls

end MmsServer.Codec.AvcCodec
