import MmsServer.Codec.SpsParser

namespace MmsServer.Codec.SpsRecovery

open Lib.ByteReader Lib.Checked Lib.BitReading Lib.ExpGolomb Base.ExpGolomb SpsSyntax SpsParser

section Vui

def fillHrd (h : Hrd) (old : HrdParameters) : HrdParameters where
  cpbCntMinus1 := h.cpbCntMinus1
  bitRateScale := h.bitRateScale
  cpbSizeScale := h.cpbSizeScale
  bitRateValueMinus1 := old.bitRateValueMinus1 ++ h.cpbs.map fun c ↦ (c.bitRateValueMinus1 : ℕ)
  cpbSizeValueMinus1 := old.cpbSizeValueMinus1 ++ h.cpbs.map fun c ↦ (c.cpbSizeValueMinus1 : ℕ)
  cbrFlag := old.cbrFlag ++ h.cpbs.map Cpb.cbrFlag
  initialCpbRemovalDelayLengthMinus1 := h.initialCpbRemovalDelayLengthMinus1
  cpbRemovalDelayLengthMinus1 := h.cpbRemovalDelayLengthMinus1
  dpbOutputDelayLengthMinus1 := h.dpbOutputDelayLengthMinus1
  timeOffsetLength := h.timeOffsetLength

def fillAspectRatio (v : VuiParameters) : Option AspectRatio → VuiParameters
  | none => { v with aspectRatioInfoPresentFlag := false }
  | some (.ofTable idc) => { v with aspectRatioInfoPresentFlag := true, aspectRatioIdc := idc }
  | some (.extended width height) => {
    v with
    aspectRatioInfoPresentFlag := true, aspectRatioIdc := 0xff, sarWidth := width, sarHeight := height }

def fillOverscan (v : VuiParameters) : Option Bool → VuiParameters
  | none => { v with overscanInfoPresentFlag := false }
  | some appropriate => { v with overscanInfoPresentFlag := true, overscanAppropriateFlag := appropriate }

def fillColour (v : VuiParameters) : Option Colour → VuiParameters
  | none => { v with colourDescriptionPresentFlag := false }
  | some c => {
    v with
    colourDescriptionPresentFlag := true, colourPrimaries := c.colourPrimaries
    transferCharacteristics := c.transferCharacteristics, matrixCoefficients := c.matrixCoefficients }

def fillVideoSignal (v : VuiParameters) : Option VideoSignal → VuiParameters
  | none => { v with videoSignalTypePresentFlag := false }
  | some s => fillColour {
    v with
    videoSignalTypePresentFlag := true, videoFormat := s.videoFormat
    videoFullRangeFlag := s.videoFullRangeFlag } s.colour

def fillChromaLoc (v : VuiParameters) : Option ChromaLoc → VuiParameters
  | none => { v with chromaLocInfoPresentFlag := false }
  | some c => {
    v with
    chromaLocInfoPresentFlag := true
    chromaSampleLocTypeTopField := c.topField, chromaSampleLocTypeBottomField := c.bottomField }

def fillTiming (v : VuiParameters) : Option Timing → VuiParameters
  | none => { v with timingInfoPresentFlag := false }
  | some t => {
    v with
    timingInfoPresentFlag := true, numUnitsInTick := t.numUnitsInTick, timeScale := t.timeScale
    fixedFrameRateFlag := t.fixedFrameRateFlag }

def fillHrds (v : VuiParameters) (nal vcl : Option Hrd) (lowDelay : Option Bool) : VuiParameters := {
  v with
  nalHrdParametersPresentFlag := nal.isSome
  hrdParameters1 := nal.elim v.hrdParameters1 fun h ↦ fillHrd h v.hrdParameters1
  vclHrdParametersPresentFlag := vcl.isSome
  hrdParameters2 := vcl.elim v.hrdParameters2 fun h ↦ fillHrd h v.hrdParameters2
  lowDelayHrdFlag := lowDelay.getD v.lowDelayHrdFlag }

def fillRestriction (v : VuiParameters) : Option Restriction → VuiParameters
  | none => { v with bitstreamRestrictionFlag := false }
  | some r => {
    v with
    bitstreamRestrictionFlag := true
    motionVectorsOverPicBoundariesFlag := r.motionVectorsOverPicBoundariesFlag
    maxBytesPerPicDenom := r.maxBytesPerPicDenom, maxBitsPerMbDenom := r.maxBitsPerMbDenom
    log2MaxMvLengthHorizontal := r.log2MaxMvLengthHorizontal
    log2MaxMvLengthVertical := r.log2MaxMvLengthVertical
    maxNumReorderFrames := r.maxNumReorderFrames, maxDecFrameBuffering := r.maxDecFrameBuffering }

def fillVui (u : Vui) (v : VuiParameters) : VuiParameters :=
  let v := fillAspectRatio v u.aspectRatio
  let v := fillOverscan v u.overscanAppropriateFlag
  let v := fillVideoSignal v u.videoSignal
  let v := fillChromaLoc v u.chromaLoc
  let v := fillTiming v u.timing
  let v := fillHrds v u.nalHrd u.vclHrd u.lowDelayHrdFlag
  fillRestriction { v with picStructPresentFlag := u.picStructPresentFlag } u.restriction

theorem reads_ue (n : Ue) : Reads readExpGolombUe n.bits n := reads_readExpGolombUe n.isLt

theorem reads_se (z : Se) : Reads readExpGolombSe z.bits z := reads_readExpGolombSe z.2.1 z.2.2

theorem reads_fin {w n : ℕ} (h : n ≤ w) (v : Fin (2 ^ n)) : Reads (readU w n) (numberBits n v) v :=
  reads_readU v.isLt h

theorem reads_parseCpb (c : Cpb) :
    Reads HrdParameters.parseCpb c.bits (c.bitRateValueMinus1, c.cpbSizeValueMinus1, c.cbrFlag) :=
  (reads_ue c.bitRateValueMinus1).bind <| (reads_ue c.cpbSizeValueMinus1).bind <|
    (reads_readOneBit (-6) c.cbrFlag).last (.pure _)

theorem reads_parseHrd (h : Hrd) (old : HrdParameters) : Reads old.parse h.bits (fillHrd h old) := by
  have hcpbs := Reads.many fun c (_ : c ∈ h.cpbs) ↦ reads_parseCpb c
  rw [h.counted] at hcpbs
  refine (reads_ue h.cpbCntMinus1).bind <| (reads_fin (by decide) h.bitRateScale).bind <|
    (reads_fin (by decide) h.cpbSizeScale).bind <| hcpbs.bind <|
    (reads_fin (by decide) h.initialCpbRemovalDelayLengthMinus1).bind <|
    (reads_fin (by decide) h.cpbRemovalDelayLengthMinus1).bind <|
    (reads_fin (by decide) h.dpbOutputDelayLengthMinus1).bind <|
    (reads_fin (by decide) h.timeOffsetLength).last ?_
  rw [List.map_map, List.map_map, List.map_map]
  exact .pure _

variable (v : VuiParameters)

theorem reads_parseAspectRatio (o : Option AspectRatio) :
    Reads v.parseAspectRatio (flagged AspectRatio.bits o) (fillAspectRatio v o) := by
  refine .flagged (reads_readOneBit _) ?_ ?_
  · rintro rfl
    exact .pure _
  · rintro (idc | ⟨width, height⟩) rfl
    · have hne : (idc : ℕ) ≠ 0xff := Nat.ne_of_lt idc.isLt
      refine Reads.last (reads_readU (v := idc) (Nat.lt_succ_of_lt idc.isLt) (by decide)) ?_
      rw [if_neg hne]
      exact .pure _
    · exact (reads_readU (v := 255) (by decide) (by decide)).bind <|
        (reads_fin (by decide) width).bind <| (reads_fin (by decide) height).last (.pure _)

theorem reads_parseOverscan (o : Option Bool) :
    Reads v.parseOverscan (flagged (fun flag ↦ [flag]) o) (fillOverscan v o) := by
  refine .flagged (reads_readOneBit _) ?_ ?_
  · rintro rfl
    exact .pure _
  · rintro appropriate rfl
    exact (reads_readOneBit (-6) appropriate).last (.pure _)

theorem reads_parseColour (o : Option Colour) :
    Reads v.parseColour (flagged Colour.bits o) (fillColour v o) := by
  refine .flagged (reads_readOneBit _) ?_ ?_
  · rintro rfl
    exact .pure _
  · rintro c rfl
    exact (reads_fin (by decide) c.colourPrimaries).bind <|
      (reads_fin (by decide) c.transferCharacteristics).bind <|
      (reads_fin (by decide) c.matrixCoefficients).last (.pure _)

theorem reads_parseVideoSignal (o : Option VideoSignal) :
    Reads v.parseVideoSignal (flagged VideoSignal.bits o) (fillVideoSignal v o) := by
  refine .flagged (reads_readOneBit _) ?_ ?_
  · rintro rfl
    exact .pure _
  · rintro s rfl
    exact (reads_fin (by decide) s.videoFormat).bind <|
      (reads_readOneBit (-9) s.videoFullRangeFlag).bind <| reads_parseColour _ s.colour

theorem reads_parseChromaLoc (o : Option ChromaLoc) :
    Reads v.parseChromaLoc (flagged ChromaLoc.bits o) (fillChromaLoc v o) := by
  refine .flagged (reads_readOneBit _) ?_ ?_
  · rintro rfl
    exact .pure _
  · rintro c rfl
    exact (reads_ue c.topField).bind <| (reads_ue c.bottomField).last (.pure _)

theorem reads_parseTiming (o : Option Timing) :
    Reads v.parseTiming (flagged Timing.bits o) (fillTiming v o) := by
  refine .flagged (reads_readOneBit _) ?_ ?_
  · rintro rfl
    exact .pure _
  · rintro t rfl
    exact (reads_fin (by decide) t.numUnitsInTick).bind <| (reads_fin (by decide) t.timeScale).bind <|
      (reads_readOneBit (-20) t.fixedFrameRateFlag).last (.pure _)

theorem reads_parseRestriction (o : Option Restriction) :
    Reads v.parseRestriction (flagged Restriction.bits o) (fillRestriction v o) := by
  refine .flagged (reads_readOneBit _) ?_ ?_
  · rintro rfl
    exact .pure _
  · rintro r rfl
    exact (reads_readOneBit (-28) r.motionVectorsOverPicBoundariesFlag).bind <|
      (reads_ue r.maxBytesPerPicDenom).bind <| (reads_ue r.maxBitsPerMbDenom).bind <|
      (reads_ue r.log2MaxMvLengthHorizontal).bind <| (reads_ue r.log2MaxMvLengthVertical).bind <|
      (reads_ue r.maxNumReorderFrames).bind <| (reads_ue r.maxDecFrameBuffering).last (.pure _)

theorem reads_parseHrds {nal vcl : Option Hrd} {lowDelay : Option Bool}
    (h : lowDelay.isSome = (nal.isSome || vcl.isSome)) :
    Reads v.parseHrd (flagged Hrd.bits nal ++ (flagged Hrd.bits vcl ++ lowDelay.toList))
      (fillHrds v nal vcl lowDelay) := by
  have hlow : Reads (readIf ((nal.isSome || vcl.isSome) = true) (readOneBit (-25)) v.lowDelayHrdFlag)
      lowDelay.toList (lowDelay.getD v.lowDelayHrdFlag) := by
    rw [← h]
    cases lowDelay with
    | none => exact .pure _
    | some flag => exact reads_readOneBit (-25) flag
  rw [flagged_eq, flagged_eq, List.append_assoc, List.append_assoc]
  exact (reads_readOneBit (-21) nal.isSome).bind <|
    (Reads.readIf_isSome _ fun hrd ↦ (reads_parseHrd hrd _).orReturn (-22)).bind <|
    (reads_readOneBit (-23) vcl.isSome).bind <|
    (Reads.readIf_isSome _ fun hrd ↦ (reads_parseHrd hrd _).orReturn (-24)).bind <| hlow.last (.pure _)

theorem reads_parseVui (u : Vui) : Reads v.parse u.bits (fillVui u v) := by
  have hhrds (v : VuiParameters) := reads_parseHrds v u.lowDelay_isSome
  have hbits : u.bits = flagged AspectRatio.bits u.aspectRatio ++
      (flagged (fun flag ↦ [flag]) u.overscanAppropriateFlag ++ (flagged VideoSignal.bits u.videoSignal ++
        (flagged ChromaLoc.bits u.chromaLoc ++ (flagged Timing.bits u.timing ++
          ((flagged Hrd.bits u.nalHrd ++ (flagged Hrd.bits u.vclHrd ++ u.lowDelayHrdFlag.toList)) ++
            ([u.picStructPresentFlag] ++ flagged Restriction.bits u.restriction)))))) := by
    simp only [Vui.bits, List.append_assoc]
  rw [hbits]
  exact (reads_parseAspectRatio _ u.aspectRatio).bind <|
    (reads_parseOverscan _ u.overscanAppropriateFlag).bind <|
    (reads_parseVideoSignal _ u.videoSignal).bind <| (reads_parseChromaLoc _ u.chromaLoc).bind <|
    (reads_parseTiming _ u.timing).bind <| (hhrds _).bind <|
    (reads_readOneBit (-26) u.picStructPresentFlag).bind <| reads_parseRestriction _ u.restriction

end Vui

section Sps

def fillHead (sps : H264Sps) (s : SeqParameterSet) : H264Sps := {
  sps with
  profileIdc := s.profileIdc, constraintSet0Flag := s.constraintSet0Flag
  constraintSet1Flag := s.constraintSet1Flag, constraintSet2Flag := s.constraintSet2Flag
  constraintSet3Flag := s.constraintSet3Flag, constraintSet4Flag := s.constraintSet4Flag
  constraintSet5Flag := s.constraintSet5Flag, reservedZero2Bits := s.reservedZero2Bits
  levelIdc := s.levelIdc, seqParameterSetId := s.seqParameterSetId }

def fillScaling {c : ChromaFormat} (sps : H264Sps) (o : Option (ScalingMatrix c)) : H264Sps := {
  sps with
  seqScalingMatrixPresentFlag := o.isSome
  seqScalingListPresentFlag :=
    o.elim sps.seqScalingListPresentFlag fun m ↦ sps.seqScalingListPresentFlag ++ m.flags }

def separateColourPlane (c : ChromaFormat) (old : Bool) : Bool :=
  match c with
  | .yuv444 separate => separate
  | _ => old

def fillChroma (sps : H264Sps) : Option ChromaInfo → H264Sps
  | none => sps
  | some c => fillScaling {
    sps with
    chromaFormatIdc := c.format.idc
    separateColourPlaneFlag := separateColourPlane c.format sps.separateColourPlaneFlag
    bitDepthLumaMinus8 := c.bitDepthLumaMinus8, bitDepthChromaMinus8 := c.bitDepthChromaMinus8
    qpprimeYZeroTransformBypassFlag := c.qpprimeYZeroTransformBypassFlag } c.scalingMatrix

def fillOrder (sps : H264Sps) (s : SeqParameterSet) : H264Sps :=
  let sps := { sps with log2MaxFrameNumMinus4 := s.log2MaxFrameNumMinus4 }
  match s.picOrder with
  | .lsb log2 => { sps with picOrderCntType := 0, log2MaxPicOrderCntLsbMinus4 := log2 }
  | .cycle zero nonRef field refs _ => {
    sps with
    picOrderCntType := 1, deltaPicOrderAlwaysZeroFlag := zero, offsetForNonRefPic := nonRef
    offsetForTopToBottomField := field, numRefFramesInPicOrderCntCycle := refs.length
    offsetForRefFrame := sps.offsetForRefFrame ++ refs.map Subtype.val }
  | .other type _ => { sps with picOrderCntType := type }

def fillFrame (sps : H264Sps) (s : SeqParameterSet) : H264Sps := {
  sps with
  maxNumRefFrames := s.maxNumRefFrames
  gapsInFrameNumValueAllowedFlag := s.gapsInFrameNumValueAllowedFlag
  picWidthInMbsMinus1 := s.picWidthInMbsMinus1
  picHeightInMapUnitsMinus1 := s.picHeightInMapUnitsMinus1, frameMbsOnlyFlag := s.frameMbsOnlyFlag
  mbAdaptiveFrameFieldFlag := s.mbAdaptiveFrameFieldFlag.getD sps.mbAdaptiveFrameFieldFlag
  direct8x8InferenceFlag := s.direct8x8InferenceFlag }

def fillCropping (sps : H264Sps) (o : Option Cropping) : H264Sps := {
  sps with
  frameCroppingFlag := o.isSome
  frameCropLeftOffset := o.elim sps.frameCropLeftOffset fun c ↦ c.left
  frameCropRightOffset := o.elim sps.frameCropRightOffset fun c ↦ c.right
  frameCropTopOffset := o.elim sps.frameCropTopOffset fun c ↦ c.top
  frameCropBottomOffset := o.elim sps.frameCropBottomOffset fun c ↦ c.bottom }

def fillVuiParameters (sps : H264Sps) (o : Option Vui) : H264Sps := {
  sps with
  vuiParametersPresentFlag := o.isSome
  vuiParameters := o.elim sps.vuiParameters fun u ↦ fillVui u sps.vuiParameters }

def fill (sps : H264Sps) (s : SeqParameterSet) : H264Sps :=
  let sps := fillHead sps s
  let sps := fillChroma sps s.chroma
  let sps := fillOrder sps s
  let sps := fillFrame sps s
  let sps := fillCropping sps s.cropping
  fillVuiParameters sps s.vui

variable {s : SeqParameterSet} (sps : H264Sps)

theorem reads_parseHead (s : SeqParameterSet) : Reads sps.parseHead s.headBits (fillHead sps s) :=
  (reads_fin (by decide) s.profileIdc).bind <| (reads_readOneBit (-2) s.constraintSet0Flag).bind <|
    (reads_readOneBit (-3) s.constraintSet1Flag).bind <| (reads_readOneBit (-4) s.constraintSet2Flag).bind <|
    (reads_readOneBit (-5) s.constraintSet3Flag).bind <| (reads_readOneBit (-6) s.constraintSet4Flag).bind <|
    (reads_readOneBit (-7) s.constraintSet5Flag).bind <| (reads_fin (by decide) s.reservedZero2Bits).bind <|
    (reads_fin (by decide) s.levelIdc).bind <| (reads_ue s.seqParameterSetId).last (.pure _)

theorem reads_parseScalingFlags (flags : List Bool) :
    Reads (H264Sps.parseScalingFlags flags.length) flags (flags, true) := by
  induction flags with
  | nil => exact .pure _
  | cons b flags ih =>
    have hrest := ih.map fun p ↦ (b :: p.1, p.2)
    exact (reads_tryOneBit b).bind hrest

theorem bits_of_free {n : ℕ} {lists : List (Option (ScalingList n))} (h : ∀ l ∈ lists, l = none) :
    lists.flatMap (flagged ScalingList.bits) = lists.map Option.isSome := by
  induction lists with
  | nil => rfl
  | cons l lists ih =>
    rw [List.flatMap_cons, List.map_cons, ih fun l hl ↦ h l (List.mem_cons_of_mem _ hl),
      h l List.mem_cons_self]
    rfl

theorem reads_parseScaling {c : ChromaFormat} {o : Option (ScalingMatrix c)}
    (hfree : ∀ m ∈ o, (∀ l ∈ m.lists4x4, l = none) ∧ ∀ l ∈ m.lists8x8, l = none)
    (hidc : sps.chromaFormatIdc = c.idc) :
    Reads sps.parseScaling (flagged ScalingMatrix.bits o) (fillScaling sps o, true) := by
  refine .flagged (reads_readOneBit _) ?_ ?_
  · rintro rfl
    exact .pure _
  · rintro m rfl
    have hbits : m.bits = m.flags := by
      rw [ScalingMatrix.bits, ScalingMatrix.flags, bits_of_free (hfree m rfl).1, bits_of_free (hfree m rfl).2]
    have hlen : (if sps.chromaFormatIdc ≠ 3 then 8 else 12) = m.flags.length := by
      have h8 := m.length8x8
      rw [ScalingMatrix.flags, List.length_append, List.length_map, List.length_map, m.length4x4, h8, hidc]
      by_cases h3 : c.idc = 3
      · rw [if_neg (not_not.mpr h3), if_pos h3]
      · rw [if_pos h3, if_neg h3]
    have hflags := reads_parseScalingFlags m.flags
    rw [← hlen] at hflags
    rw [hbits]
    exact hflags.last (.pure _)

theorem reads_separate (c : ChromaFormat) (old : Bool) :
    Reads (readIf (c.idc = 3) (readOneBit (-12)) old)
      c.separateBits (separateColourPlane c old) := by
  cases c with
  | monochrome => exact .pure old
  | yuv420 => exact .pure old
  | yuv422 => exact .pure old
  | yuv444 separate => exact reads_readOneBit (-12) separate

theorem idc_lt (c : ChromaFormat) : c.idc < 2 ^ 32 - 1 := by
  cases c with
  | monochrome => decide
  | yuv420 => decide
  | yuv422 => decide
  | yuv444 separate => exact show 3 < 2 ^ 32 - 1 by decide

theorem reads_parseChroma {c : ChromaInfo}
    (hfree : ∀ m ∈ c.scalingMatrix, (∀ l ∈ m.lists4x4, l = none) ∧ ∀ l ∈ m.lists8x8, l = none) :
    Reads sps.parseChroma c.bits (fillChroma sps (some c), true) := by
  rw [ChromaInfo.bits, ChromaFormat.bits, List.append_assoc]
  exact (reads_readExpGolombUe (idc_lt c.format)).bind <| (reads_separate c.format _).bind <|
    (reads_ue c.bitDepthLumaMinus8).bind <| (reads_ue c.bitDepthChromaMinus8).bind <|
    (reads_readOneBit (-15) c.qpprimeYZeroTransformBypassFlag).bind <| reads_parseScaling _ hfree rfl

theorem reads_parseOrder (s : SeqParameterSet) : Reads sps.parseOrder s.orderBits (fillOrder sps s) := by
  refine (reads_ue s.log2MaxFrameNumMinus4).bind ?_
  unfold fillOrder
  cases s.picOrder with
  | lsb log2 =>
    exact (reads_readExpGolombUe (n := 0) (by decide)).bind <| (reads_ue log2).last (.pure _)
  | cycle zero nonRef field refs short =>
    exact (reads_readExpGolombUe (n := 1) (by decide)).bind <| (reads_readOneBit (-20) zero).bind <|
      (reads_se nonRef).bind <| (reads_se field).bind <| (reads_readExpGolombUe short).bind <|
      (Reads.many fun z _ ↦ reads_se z).last (.pure _)
  | other type ge =>
    refine Reads.last (reads_ue type) ?_
    rw [if_neg (by omega), if_neg (by omega)]
    exact .pure _

theorem reads_parseFrame (s : SeqParameterSet) : Reads sps.parseFrame s.frameBits (fillFrame sps s) := by
  have hadaptive : Reads (readIf (!s.frameMbsOnlyFlag) (readOneBit (-30)) sps.mbAdaptiveFrameFieldFlag)
      s.mbAdaptiveFrameFieldFlag.toList (s.mbAdaptiveFrameFieldFlag.getD sps.mbAdaptiveFrameFieldFlag) := by
    unfold SeqParameterSet.frameMbsOnlyFlag
    cases s.mbAdaptiveFrameFieldFlag with
    | none => exact .pure _
    | some flag => exact reads_readOneBit (-30) flag
  exact (reads_ue s.maxNumRefFrames).bind <| (reads_readOneBit (-26) s.gapsInFrameNumValueAllowedFlag).bind <|
    (reads_ue s.picWidthInMbsMinus1).bind <| (reads_ue s.picHeightInMapUnitsMinus1).bind <|
    (reads_readOneBit (-29) s.frameMbsOnlyFlag).bind <| hadaptive.bind <|
    (reads_readOneBit (-31) s.direct8x8InferenceFlag).last (.pure _)

theorem reads_parseCropping (o : Option Cropping) :
    Reads sps.parseCropping (flagged Cropping.bits o) (fillCropping sps o) := by
  refine .flagged (reads_readOneBit _) ?_ ?_
  · rintro rfl
    exact .pure _
  · rintro c rfl
    exact (reads_ue c.left).bind <| (reads_ue c.right).bind <| (reads_ue c.top).bind <|
      (reads_ue c.bottom).last (.pure _)

theorem reads_parseVuiParameters (o : Option Vui) :
    Reads sps.parseVui (flagged Vui.bits o) (fillVuiParameters sps o) := by
  refine .flagged (reads_readOneBit _) ?_ ?_
  · rintro rfl
    exact .pure _
  · rintro u rfl
    exact ((reads_parseVui sps.vuiParameters u).orReturn (-38)).last (.pure _)

/-- A parameter set without scaling lists is read as it was coded. -/
theorem reads_parse (hfree : s.ScalingFree) : Reads sps.parse s.bits (fill sps s) := by
  have hchroma (sps : H264Sps) (hp : sps.profileIdc = s.profileIdc) :
      Reads (readIf (sps.profileIdc ∈ chromaProfiles) sps.parseChroma (sps, true)) s.chromaBits
        (fillChroma sps s.chroma, true) := by
    have hcoded := s.chroma_isSome
    rw [← hp] at hcoded
    unfold SeqParameterSet.chromaBits readIf
    cases hc : s.chroma with
    | none =>
      rw [hc] at hcoded
      rw [if_neg (of_decide_eq_false hcoded.symm)]
      exact .pure _
    | some c =>
      rw [hc] at hcoded
      rw [if_pos (of_decide_eq_true hcoded.symm)]
      exact reads_parseChroma sps (hfree c hc)
  exact (reads_parseHead sps s).bind <| (hchroma _ rfl).bind <| (reads_parseOrder _ s).bind <|
    (reads_parseFrame _ s).bind <| (reads_parseCropping _ s.cropping).bind <|
    reads_parseVuiParameters _ s.vui

/-- The elements in front of the VUI are those of `s`. The lists are not cleared. -/
structure Recovered (s : SeqParameterSet) (old sps : H264Sps) : Prop where
  profileIdc : sps.profileIdc = s.profileIdc
  constraintSetFlags : [sps.constraintSet0Flag, sps.constraintSet1Flag, sps.constraintSet2Flag,
      sps.constraintSet3Flag, sps.constraintSet4Flag, sps.constraintSet5Flag] =
    [s.constraintSet0Flag, s.constraintSet1Flag, s.constraintSet2Flag, s.constraintSet3Flag,
      s.constraintSet4Flag, s.constraintSet5Flag]
  reservedZero2Bits : sps.reservedZero2Bits = s.reservedZero2Bits
  levelIdc : sps.levelIdc = s.levelIdc
  seqParameterSetId : sps.seqParameterSetId = s.seqParameterSetId
  chroma : ∀ c ∈ s.chroma, sps.chromaFormatIdc = c.format.idc ∧
    sps.separateColourPlaneFlag = separateColourPlane c.format old.separateColourPlaneFlag ∧
    sps.bitDepthLumaMinus8 = c.bitDepthLumaMinus8 ∧ sps.bitDepthChromaMinus8 = c.bitDepthChromaMinus8 ∧
    sps.qpprimeYZeroTransformBypassFlag = c.qpprimeYZeroTransformBypassFlag ∧
    sps.seqScalingMatrixPresentFlag = c.scalingMatrix.isSome ∧
    ∀ m ∈ c.scalingMatrix, sps.seqScalingListPresentFlag = old.seqScalingListPresentFlag ++ m.flags
  log2MaxFrameNumMinus4 : sps.log2MaxFrameNumMinus4 = s.log2MaxFrameNumMinus4
  picOrder : match s.picOrder with
    | .lsb log2 => sps.picOrderCntType = 0 ∧ sps.log2MaxPicOrderCntLsbMinus4 = log2
    | .cycle zero nonRef field refs _ =>
      sps.picOrderCntType = 1 ∧ sps.deltaPicOrderAlwaysZeroFlag = zero ∧
        sps.offsetForNonRefPic = nonRef ∧ sps.offsetForTopToBottomField = field ∧
        sps.numRefFramesInPicOrderCntCycle = refs.length ∧
        sps.offsetForRefFrame = old.offsetForRefFrame ++ refs.map Subtype.val
    | .other type _ => sps.picOrderCntType = type
  maxNumRefFrames : sps.maxNumRefFrames = s.maxNumRefFrames
  gaps : sps.gapsInFrameNumValueAllowedFlag = s.gapsInFrameNumValueAllowedFlag
  picWidthInMbsMinus1 : sps.picWidthInMbsMinus1 = s.picWidthInMbsMinus1
  picHeightInMapUnitsMinus1 : sps.picHeightInMapUnitsMinus1 = s.picHeightInMapUnitsMinus1
  frameMbsOnlyFlag : sps.frameMbsOnlyFlag = s.frameMbsOnlyFlag
  mbAdaptiveFrameFieldFlag : ∀ flag ∈ s.mbAdaptiveFrameFieldFlag, sps.mbAdaptiveFrameFieldFlag = flag
  direct8x8InferenceFlag : sps.direct8x8InferenceFlag = s.direct8x8InferenceFlag
  frameCroppingFlag : sps.frameCroppingFlag = s.cropping.isSome
  cropping : ∀ c ∈ s.cropping, sps.frameCropLeftOffset = c.left ∧ sps.frameCropRightOffset = c.right ∧
    sps.frameCropTopOffset = c.top ∧ sps.frameCropBottomOffset = c.bottom

theorem fillChroma_members (sps : H264Sps) (o : Option ChromaInfo) :
    ∃ idc separate luma chroma bypass present flags, fillChroma sps o = {
      sps with
      chromaFormatIdc := idc, separateColourPlaneFlag := separate, bitDepthLumaMinus8 := luma
      bitDepthChromaMinus8 := chroma, qpprimeYZeroTransformBypassFlag := bypass
      seqScalingMatrixPresentFlag := present, seqScalingListPresentFlag := flags } := by
  cases o with
  | none => exact ⟨_, _, _, _, _, _, _, rfl⟩
  | some c => exact ⟨_, _, _, _, _, _, _, rfl⟩

theorem fillOrder_members (sps : H264Sps) (s : SeqParameterSet) :
    ∃ type log2 zero nonRef field refs offsets, fillOrder sps s = {
      sps with
      log2MaxFrameNumMinus4 := s.log2MaxFrameNumMinus4, picOrderCntType := type
      log2MaxPicOrderCntLsbMinus4 := log2, deltaPicOrderAlwaysZeroFlag := zero
      offsetForNonRefPic := nonRef, offsetForTopToBottomField := field
      numRefFramesInPicOrderCntCycle := refs, offsetForRefFrame := offsets } := by
  unfold fillOrder
  cases s.picOrder with
  | lsb log2 => exact ⟨_, _, _, _, _, _, _, rfl⟩
  | cycle zero nonRef field refs short => exact ⟨_, _, _, _, _, _, _, rfl⟩
  | other type ge => exact ⟨_, _, _, _, _, _, _, rfl⟩

theorem fillChroma_recovered {c : ChromaInfo} (sps : H264Sps) :
    (fillChroma sps (some c)).seqScalingMatrixPresentFlag = c.scalingMatrix.isSome ∧
      ∀ m ∈ c.scalingMatrix, (fillChroma sps (some c)).seqScalingListPresentFlag =
        sps.seqScalingListPresentFlag ++ m.flags := by
  refine ⟨rfl, fun m hm ↦ ?_⟩
  have helim : (fillChroma sps (some c)).seqScalingListPresentFlag =
      c.scalingMatrix.elim sps.seqScalingListPresentFlag fun m ↦ sps.seqScalingListPresentFlag ++ m.flags := rfl
  rw [helim, hm]
  rfl

theorem fill_recovered (s : SeqParameterSet) (old : H264Sps) : Recovered s old (fill old s) := by
  obtain ⟨_, _, _, _, _, _, _, hchroma⟩ := fillChroma_members (fillHead old s) s.chroma
  obtain ⟨_, _, _, _, _, _, _, horder⟩ := fillOrder_members (fillChroma (fillHead old s) s.chroma) s
  have hfill : fill old s = fillVuiParameters (fillCropping (fillFrame
      (fillOrder (fillChroma (fillHead old s) s.chroma) s) s) s.cropping) s.vui := rfl
  constructor
  case chroma =>
    intro c hc
    have hscaling := fillChroma_recovered (c := c) (fillHead old s)
    rw [hfill, horder, Option.mem_def.mp hc]
    exact ⟨rfl, rfl, rfl, rfl, rfl, hscaling⟩
  case picOrder =>
    have hoffsets : (fillChroma (fillHead old s) s.chroma).offsetForRefFrame = old.offsetForRefFrame := by
      rw [hchroma]
      rfl
    rw [hfill]
    split
    · next h =>
      unfold fillOrder
      rw [h]
      exact ⟨rfl, rfl⟩
    · next h =>
      unfold fillOrder
      rw [h]
      exact ⟨rfl, rfl, rfl, rfl, rfl, congrArg (· ++ _) hoffsets⟩
    · next h =>
      unfold fillOrder
      rw [h]
      rfl
  case mbAdaptiveFrameFieldFlag =>
    intro flag hflag
    have hget : (fill old s).mbAdaptiveFrameFieldFlag = s.mbAdaptiveFrameFieldFlag.getD
      (fillOrder (fillChroma (fillHead old s) s.chroma) s).mbAdaptiveFrameFieldFlag := rfl
    rw [hget, hflag]
    rfl
  case cropping =>
    intro c hc
    rw [hfill, Option.mem_def.mp hc]
    exact ⟨rfl, rfl, rfl, rfl⟩
  all_goals
    rw [hfill, horder, hchroma]
    rfl

end Sps

end MmsServer.Codec.SpsRecovery
