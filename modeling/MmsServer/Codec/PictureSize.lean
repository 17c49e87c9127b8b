import MmsServer.Codec.AvcCodec
import MmsServer.Codec.SpsRecovery

namespace MmsServer.Codec.PictureSize

open Lib.ByteReader Lib.Checked Lib.BitReading EmulationPrevention SpsSyntax SpsParser SpsRecovery AvcCodec

section Wrapping

theorem wrap32_modEq (x : ℤ) : wrap32 x ≡ x [ZMOD 2 ^ 32] := Int.bmod_emod

theorem uint64_modEq (x : ℤ) : uint64 x ≡ x [ZMOD 2 ^ 32] :=
  Int.emod_emod_of_dvd x (by decide)

theorem pictureWidth_modEq (sps : H264Sps) : pictureWidth sps ≡ 16 * (sps.picWidthInMbsMinus1 + 1) -
    2 * (if sps.frameCroppingFlag then sps.frameCropLeftOffset + sps.frameCropRightOffset else 0 : ℕ)
    [ZMOD 2 ^ 32] := by
  have hfull : wrap32 (wrap32 (sps.picWidthInMbsMinus1 + 1) * 16) ≡ 16 * (sps.picWidthInMbsMinus1 + 1)
      [ZMOD 2 ^ 32] := by
    rw [Int.mul_comm 16]
    exact (wrap32_modEq _).trans ((wrap32_modEq _).mul_right 16)
  unfold pictureWidth
  split
  · rw [Nat.cast_add]
    exact (wrap32_modEq _).trans ((uint64_modEq _).trans (hfull.sub_right _))
  · rw [Nat.cast_zero, Int.mul_zero, Int.sub_zero]
    exact hfull

theorem pictureHeight_modEq (sps : H264Sps) : pictureHeight sps ≡
    16 * (if sps.frameMbsOnlyFlag then 1 else 2 : ℕ) * (sps.picHeightInMapUnitsMinus1 + 1) -
      2 * (if sps.frameCroppingFlag then sps.frameCropTopOffset + sps.frameCropBottomOffset else 0 : ℕ)
    [ZMOD 2 ^ 32] := by
  have hmap : wrap32 (wrap32 (sps.picHeightInMapUnitsMinus1 + 1) * 16) ≡
      16 * (sps.picHeightInMapUnitsMinus1 + 1) [ZMOD 2 ^ 32] := by
    rw [Int.mul_comm 16]
    exact (wrap32_modEq _).trans ((wrap32_modEq _).mul_right 16)
  have hfull : (if !sps.frameMbsOnlyFlag then wrap32 (wrap32 (wrap32 (sps.picHeightInMapUnitsMinus1 + 1) * 16) * 2)
      else wrap32 (wrap32 (sps.picHeightInMapUnitsMinus1 + 1) * 16)) ≡
      16 * (if sps.frameMbsOnlyFlag then 1 else 2 : ℕ) * (sps.picHeightInMapUnitsMinus1 + 1) [ZMOD 2 ^ 32] := by
    cases sps.frameMbsOnlyFlag with
    | true =>
      have hone : ((if true then 1 else 2 : ℕ) : ℤ) = 1 := rfl
      rw [hone, Int.mul_one, Bool.not_true, if_neg Bool.false_ne_true]
      exact hmap
    | false =>
      have htwo : ((if false then 1 else 2 : ℕ) : ℤ) = 2 := rfl
      rw [htwo, Int.mul_right_comm, Bool.not_false, if_pos rfl]
      exact (wrap32_modEq _).trans (hmap.mul_right 2)
  unfold pictureHeight
  dsimp only
  split
  · rw [Nat.cast_add]
    exact (wrap32_modEq _).trans ((uint64_modEq _).trans (hfull.sub_right _))
  · rw [Nat.cast_zero, Int.mul_zero, Int.sub_zero]
    exact hfull

/-- A number of 32 bits is a given one if that is in range and of the same residue. -/
theorem toNat_emod_eq {x y : ℤ} :
    ((x % 2 ^ 32).toNat : ℤ) = y ↔ (0 ≤ y ∧ y < 2 ^ 32) ∧ x ≡ y [ZMOD 2 ^ 32] := by
  have hle : 0 ≤ x % 2 ^ 32 := Int.emod_nonneg x (by decide)
  have hlt : x % 2 ^ 32 < 2 ^ 32 := Int.emod_lt_of_pos x (by decide)
  rw [Int.toNat_of_nonneg hle]
  constructor
  · rintro rfl
    exact ⟨⟨hle, hlt⟩, (Int.emod_emod_of_dvd x (dvd_refl _)).symm⟩
  · rintro ⟨⟨hy, hy'⟩, hxy⟩
    exact Eq.trans hxy (Int.emod_eq_of_lt hy hy')

end Wrapping

variable {s : SeqParameterSet} {c : H264Codec} {header : UInt8}

def nalUnit (header : UInt8) (s : SeqParameterSet) : Bytes := header :: emulationPrevention 0 s.rbsp

/-- The size fits, and what is cropped are twice the offsets, up to a multiple of 2 ^ 32. -/
structure CropsByTwo (s : SeqParameterSet) : Prop where
  width : 0 ≤ s.width ∧ s.width < 2 ^ 32
  height : 0 ≤ s.height ∧ s.height < 2 ^ 32
  columns : (s.cropUnitX * s.croppedColumns : ℤ) ≡ 2 * s.croppedColumns [ZMOD 2 ^ 32]
  rows : (s.cropUnitY * s.croppedRows : ℤ) ≡ 2 * s.croppedRows [ZMOD 2 ^ 32]

/-- The elements of the parameter set are recovered, and its size is returned. -/
def ReadsBack (s : SeqParameterSet) (c : H264Codec) : Prop :=
  (∃ sps pos, c.sps.parse s.rbsp 0 = .ok (sps, pos) ∧ Recovered s c.sps sps) ∧
    ∃ c' w h, c.getWh = .ok (c', some (w, h)) ∧ (w : ℤ) = s.width ∧ (h : ℤ) = s.height

theorem sub_modEq_iff {a b m : ℤ} : a - 2 * b ≡ a - m * b [ZMOD 2 ^ 32] ↔ m * b ≡ 2 * b [ZMOD 2 ^ 32] := by
  rw [Int.modEq_iff_dvd, Int.modEq_iff_dvd, show a - m * b - (a - 2 * b) = 2 * b - m * b by ring]

theorem parse_rbsp (hfree : s.ScalingFree) (old : H264Sps) :
    old.parse s.rbsp 0 = .ok (fill old s, s.bits.length) := by
  have hread := reads_parse old hfree s.rbsp 0 s.bits_prefix_rbsp
  rwa [Nat.zero_add] at hread

theorem getWh_eq (hfree : s.ScalingFree) (hparsed : c.spsPpsParsed = false)
    (hsps : c.spsNalu = nalUnit header s) (hpps : c.ppsNalu ≠ []) :
    ∃ c', c.getWh = .ok (c', some (pictureSize (fill c.sps s))) := by
  have hcomplete : c.complete = true := by
    rw [H264Codec.complete, hsps, nalUnit]
    cases hp : c.ppsNalu with
    | nil => exact absurd hp hpps
    | cons b rest => rfl
  have hrbsp : deemulationPrevention c.spsNalu.tail = s.rbsp := by
    rw [hsps, nalUnit, List.tail_cons]
    exact deemulationPrevention_inserted (show 0 ≤ 2 by omega) s.rbsp
  have hparse := parse_rbsp hfree c.sps
  rw [← hrbsp] at hparse
  exact ⟨_, getWh_ok hcomplete (parseSps_ok hparsed hparse)⟩

theorem pictureWidth_fill (s : SeqParameterSet) (old : H264Sps) :
    pictureWidth (fill old s) ≡ 16 * (s.picWidthInMbsMinus1 + 1) - 2 * s.croppedColumns [ZMOD 2 ^ 32] := by
  have hcols (o : Option Cropping) (l r : ℕ) : (if o.isSome then
      o.elim l (fun c ↦ c.left) + o.elim r (fun c ↦ c.right) else 0) =
      o.elim 0 fun c ↦ (c.left + c.right : ℕ) := by
    cases o with
    | none => rfl
    | some c => rfl
  have hcropped : (if (fill old s).frameCroppingFlag then
      (fill old s).frameCropLeftOffset + (fill old s).frameCropRightOffset else 0) = s.croppedColumns :=
    hcols s.cropping _ _
  have h := pictureWidth_modEq (fill old s)
  rw [hcropped] at h
  exact h

theorem pictureHeight_fill (s : SeqParameterSet) (old : H264Sps) :
    pictureHeight (fill old s) ≡
      16 * s.fieldsPerMap * (s.picHeightInMapUnitsMinus1 + 1) - 2 * s.croppedRows [ZMOD 2 ^ 32] := by
  have hrows (o : Option Cropping) (t b : ℕ) : (if o.isSome then
      o.elim t (fun c ↦ c.top) + o.elim b (fun c ↦ c.bottom) else 0) =
      o.elim 0 fun c ↦ (c.top + c.bottom : ℕ) := by
    cases o with
    | none => rfl
    | some c => rfl
  have hcropped : (if (fill old s).frameCroppingFlag then
      (fill old s).frameCropTopOffset + (fill old s).frameCropBottomOffset else 0) = s.croppedRows :=
    hrows s.cropping _ _
  have h := pictureHeight_modEq (fill old s)
  rw [hcropped] at h
  exact h

/-- The pictures of a set without scaling lists have the right size just when two is the unit
of their cropping. -/
theorem spsReadsBack_iff (hfree : s.ScalingFree) (hparsed : c.spsPpsParsed = false)
    (hsps : c.spsNalu = nalUnit header s) (hpps : c.ppsNalu ≠ []) : ReadsBack s c ↔ CropsByTwo s := by
  obtain ⟨c', hget⟩ := getWh_eq hfree hparsed hsps hpps
  have hwidth : ((pictureSize (fill c.sps s)).1 : ℤ) = s.width ↔
      (0 ≤ s.width ∧ s.width < 2 ^ 32) ∧
        (s.cropUnitX * s.croppedColumns : ℤ) ≡ 2 * s.croppedColumns [ZMOD 2 ^ 32] := by
    refine toNat_emod_eq.trans (and_congr_right' ?_)
    rw [← sub_modEq_iff]
    exact ⟨(pictureWidth_fill s c.sps).symm.trans, (pictureWidth_fill s c.sps).trans⟩
  have hheight : ((pictureSize (fill c.sps s)).2 : ℤ) = s.height ↔
      (0 ≤ s.height ∧ s.height < 2 ^ 32) ∧
        (s.cropUnitY * s.croppedRows : ℤ) ≡ 2 * s.croppedRows [ZMOD 2 ^ 32] := by
    refine toNat_emod_eq.trans (and_congr_right' ?_)
    rw [← sub_modEq_iff]
    exact ⟨(pictureHeight_fill s c.sps).symm.trans, (pictureHeight_fill s c.sps).trans⟩
  constructor
  · rintro ⟨-, c'', w, h, hget', hw, hh⟩
    rw [hget] at hget'
    cases hget'
    have hx := hwidth.mp hw
    have hy := hheight.mp hh
    exact ⟨hx.1, hy.1, hx.2, hy.2⟩
  · intro h
    exact ⟨⟨_, _, parse_rbsp hfree c.sps, fill_recovered s c.sps⟩, c', _, _, hget,
      hwidth.mpr ⟨h.width, h.columns⟩, hheight.mpr ⟨h.height, h.rows⟩⟩

/-- A picture of 1920 x 1088 samples in the format 4:2:0, of which rows are cropped. -/
def fullHd (matrix : Option (ScalingMatrix .yuv420)) (mapUnits : Ue) (adaptive : Option Bool) (bottom : Ue) :
    SeqParameterSet where
  profileIdc := 100
  constraintSet0Flag := false
  constraintSet1Flag := false
  constraintSet2Flag := false
  constraintSet3Flag := false
  constraintSet4Flag := false
  constraintSet5Flag := false
  reservedZero2Bits := 0
  levelIdc := 40
  seqParameterSetId := ⟨0, by decide⟩
  chroma := some {
    format := .yuv420
    bitDepthLumaMinus8 := ⟨0, by decide⟩
    bitDepthChromaMinus8 := ⟨0, by decide⟩
    qpprimeYZeroTransformBypassFlag := false
    scalingMatrix := matrix }
  chroma_isSome := rfl
  log2MaxFrameNumMinus4 := ⟨0, by decide⟩
  picOrder := .lsb ⟨2, by decide⟩
  maxNumRefFrames := ⟨4, by decide⟩
  gapsInFrameNumValueAllowedFlag := false
  picWidthInMbsMinus1 := ⟨119, by decide⟩
  picHeightInMapUnitsMinus1 := mapUnits
  mbAdaptiveFrameFieldFlag := adaptive
  direct8x8InferenceFlag := true
  cropping := some ⟨⟨0, by decide⟩, ⟨0, by decide⟩, ⟨0, by decide⟩, bottom⟩
  vui := none

def progressive : SeqParameterSet := fullHd none ⟨67, by decide⟩ none ⟨4, by decide⟩

def interlaced : SeqParameterSet := fullHd none ⟨33, by decide⟩ (some true) ⟨2, by decide⟩

def scaled : SeqParameterSet :=
  fullHd (some {
    lists4x4 := [some ⟨[-8], by decide, by simp [ScalingDeltas]⟩, none, none, none, none, none]
    lists8x8 := [none, none]
    length4x4 := rfl
    length8x8 := rfl }) ⟨67, by decide⟩ none ⟨4, by decide⟩

def codecOf (s : SeqParameterSet) : H264Codec where
  spsNalu := nalUnit 0x67 s
  ppsNalu := [0x68, 0xee, 0x3c, 0x80]
  sps := default
  avcConfiguration := AvcConfig.mainRecord 3

theorem fullHd_scalingFree (mapUnits : Ue) (adaptive : Option Bool) (bottom : Ue) :
    (fullHd none mapUnits adaptive bottom).ScalingFree := by
  intro c hc m hm
  cases hc
  cases hm

theorem progressive_readsBack : ReadsBack progressive (codecOf progressive) := by
  have hsps : (codecOf progressive).spsNalu = nalUnit 0x67 progressive := rfl
  refine (spsReadsBack_iff (fullHd_scalingFree _ _ _) rfl hsps (List.cons_ne_nil _ _)).mpr ?_
  exact ⟨by decide, by decide, by decide, by decide⟩

/-- Of interlaced pictures too few rows are cropped. -/
theorem interlaced_missed : ¬ ReadsBack interlaced (codecOf interlaced) := by
  rintro ⟨-, c', w, h, hget, -, hh⟩
  have hsps : (codecOf interlaced).spsNalu = nalUnit 0x67 interlaced := rfl
  obtain ⟨c'', hget'⟩ := getWh_eq (fullHd_scalingFree _ _ _) rfl hsps (List.cons_ne_nil _ _)
  have hsize : (pictureSize (fill (codecOf interlaced).sps interlaced)).2 = 1084 := by decide
  have hheight : interlaced.height = 1080 := by decide
  rw [hget'] at hget
  cases hget
  have hrows : ((pictureSize (fill (codecOf interlaced).sps interlaced)).2 : ℤ) = interlaced.height := hh
  rw [hsize, hheight] at hrows
  exact absurd hrows (by decide)

/-- Behind a scaling list the elements are read from other bits. -/
theorem scaled_missed : ¬ ReadsBack scaled (codecOf scaled) := by
  rintro ⟨⟨sps, pos, hparse, hrec⟩, -⟩
  have hwidth : ((codecOf scaled).sps.parse scaled.rbsp 0 >>= fun r ↦
      Outcome.ok r.1.picWidthInMbsMinus1) = .ok 0 := by
    decide +kernel
  rw [hparse, Outcome.ok_bind] at hwidth
  exact absurd (hrec.picWidthInMbsMinus1.symm.trans (Outcome.ok.inj hwidth)) (by decide)

theorem interlaced_or_scaled_missed :
    ¬ ReadsBack interlaced (codecOf interlaced) ∧ ¬ ReadsBack scaled (codecOf scaled) :=
  ⟨interlaced_missed, scaled_missed⟩

end MmsServer.Codec.PictureSize
