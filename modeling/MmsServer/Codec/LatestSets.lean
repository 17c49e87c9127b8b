import MmsServer.Codec.PictureSize

namespace MmsServer.Codec.LatestSets

open Lib.ByteReader Lib.Checked AvcConfig EmulationPrevention SpsSyntax SpsParser SpsRecovery AvcCodec

/-- A sequence parameter set that is parsed into any object, with the same profile, level and
size. -/
structure ParsableSps where
  nalu : Bytes
  nonempty : nalu ≠ []
  profile : UInt8
  level : UInt8
  size : ℕ × ℕ
  parses : ∀ old : H264Sps, ∃ sps pos,
    old.parse (deemulationPrevention nalu.tail) 0 = .ok (sps, pos) ∧
      .ofNat sps.profileIdc = profile ∧ .ofNat sps.levelIdc = level ∧ pictureSize sps = size

abbrev Pps := { pps : Bytes // pps ≠ [] }

inductive Call
  | setSps (sps : ParsableSps)
  | setPps (pps : Pps)
  | setSpsPps (sps : ParsableSps) (pps : Pps)
  | getWh
  | getFps
  | getAvcConfiguration

def step (c : H264Codec) : Call → Outcome H264Codec
  | .setSps sps => return c.setSps sps.nalu
  | .setPps pps => return c.setPps pps
  | .setSpsPps sps pps => return (← c.setSpsPps sps.nalu pps).1
  | .getWh => return (← c.getWh).1
  | .getFps => return (← c.getFps).1
  | .getAvcConfiguration => return (← c.getAvcConfiguration).1

structure Latest where
  sps : Option ParsableSps := none
  pps : Option Pps := none

def Latest.after (l : Latest) : Call → Latest
  | .setSps sps => { l with sps := some sps }
  | .setPps pps => { l with pps := some pps }
  | .setSpsPps sps pps => ⟨some sps, some pps⟩
  | _ => l

theorem Latest.after_sps (l : Latest) (sps : ParsableSps) :
    (l.after (.setSps sps)).sps = some sps := rfl

theorem Latest.after_pps (l : Latest) (pps : Pps) : (l.after (.setPps pps)).pps = some pps := rfl

theorem Latest.after_both (l : Latest) (sps : ParsableSps) (pps : Pps) :
    (l.after (.setSpsPps sps pps)).sps = some sps ∧
      (l.after (.setSpsPps sps pps)).pps = some pps := ⟨rfl, rfl⟩

/-- The getters return the parameter sets that were set last, and what is coded in them. -/
def Served (l : Latest) (c : H264Codec) : Prop :=
  ∀ sps ∈ l.sps, ∀ pps ∈ l.pps,
    (∃ c' r, c.getAvcConfiguration = .ok (c', r) ∧ r.spsNalus = [sps.nalu] ∧ r.ppsNalus = [pps.val] ∧
      r.avcProfile = sps.profile ∧ r.avcLevel = sps.level) ∧
    ∃ c', c.getWh = .ok (c', some sps.size)

def AllServed : Latest → H264Codec → List Call → Prop
  | l, c, [] => Served l c
  | l, c, call :: calls => Served l c ∧ ∃ c', step c call = .ok c' ∧ AllServed (l.after call) c' calls

/-- The parsed set codes the same as `sps`, and the record was made of the same bytes. -/
def KeepsSps (c : H264Codec) (sps : ParsableSps) : Prop :=
  (c.spsPpsParsed = true → .ofNat c.sps.profileIdc = sps.profile ∧ .ofNat c.sps.levelIdc = sps.level ∧
    pictureSize c.sps = sps.size) ∧
  (c.avcConfigurationValid = true → c.spsNalu = sps.nalu)

def KeepsPps (c : H264Codec) (pps : Pps) : Prop := c.avcConfigurationValid = true → c.ppsNalu = pps.val

def Keeps (c : H264Codec) : Call → Prop
  | .setSps sps => KeepsSps c sps
  | .setPps pps => KeepsPps c pps
  | .setSpsPps sps pps => KeepsSps c sps ∧ KeepsPps c pps
  | _ => True

def AllKeep : H264Codec → List Call → Prop
  | _, [] => True
  | c, call :: calls => Keeps c call ∧ ∃ c', step c call = .ok c' ∧ AllKeep c' calls

/-- A codec that no call has been made on. The members of `sps` have no values yet. -/
structure Fresh (c : H264Codec) : Prop where
  parsed : c.spsPpsParsed = false
  valid : c.avcConfigurationValid = false
  spsNalu : c.spsNalu = []
  ppsNalu : c.ppsNalu = []
  spsNalus : c.avcConfiguration.spsNalus = []
  ppsNalus : c.avcConfiguration.ppsNalus = []

structure RecordOf (c : H264Codec) (r : AVCDecoderConfigurationRecord) : Prop where
  spsNalus : r.spsNalus = [c.spsNalu]
  ppsNalus : r.ppsNalus = [c.ppsNalu]
  profile : r.avcProfile = .ofNat c.sps.profileIdc
  level : r.avcLevel = .ofNat c.sps.levelIdc

structure Current (l : Latest) (c : H264Codec) : Prop where
  spsNalu : c.spsNalu = l.sps.elim [] ParsableSps.nalu
  ppsNalu : c.ppsNalu = l.pps.elim [] Subtype.val
  complete : c.spsPpsParsed = true → c.complete = true
  parsed : c.spsPpsParsed = true → ∀ sps ∈ l.sps, .ofNat c.sps.profileIdc = sps.profile ∧
    .ofNat c.sps.levelIdc = sps.level ∧ pictureSize c.sps = sps.size
  valid : c.avcConfigurationValid = true → c.spsPpsParsed = true ∧ RecordOf c c.avcConfiguration
  invalid : c.avcConfigurationValid = false →
    c.avcConfiguration.spsNalus = [] ∧ c.avcConfiguration.ppsNalus = []

section Steps

variable {l : Latest} {c d : H264Codec}

theorem Fresh.current (h : Fresh c) : Current {} c where
  spsNalu := h.spsNalu
  ppsNalu := h.ppsNalu
  complete hp := absurd (h.parsed.symm.trans hp) Bool.false_ne_true
  parsed hp := absurd (h.parsed.symm.trans hp) Bool.false_ne_true
  valid hv := absurd (h.valid.symm.trans hv) Bool.false_ne_true
  invalid _ := ⟨h.spsNalus, h.ppsNalus⟩

theorem complete_iff (h : Current l c) : c.complete = true ↔ ∃ sps pps, l.sps = some sps ∧ l.pps = some pps := by
  rw [H264Codec.complete, h.spsNalu, h.ppsNalu]
  cases hs : l.sps with
  | none => simp
  | some sps =>
    cases hp : l.pps with
    | none => simp
    | some pps =>
      have hsne : (sps.nalu.isEmpty) = false := by
        rw [List.isEmpty_eq_false_iff]
        exact sps.nonempty
      have hpne : pps.val.isEmpty = false := by
        rw [List.isEmpty_eq_false_iff]
        exact pps.2
      simp [hsne, hpne]

/-- The parsing does not change what is kept. -/
theorem Current.parseSps (h : Current l c) (hc : c.complete = true) :
    ∃ d, c.parseSps = .ok d ∧ Current l d ∧ d.spsPpsParsed = true ∧ d.complete = true ∧
      d.avcConfigurationValid = c.avcConfigurationValid := by
  obtain ⟨sps, pps, hs, hp⟩ := (complete_iff h).mp hc
  cases hparsed : c.spsPpsParsed with
  | true => exact ⟨c, parseSps_parsed hparsed, h, hparsed, hc, rfl⟩
  | false =>
    have hnalu : c.spsNalu = sps.nalu := by
      rw [h.spsNalu, hs]
      rfl
    obtain ⟨parsed, pos, hparse, hprofile, hlevel, hsize⟩ := sps.parses c.sps
    rw [← hnalu] at hparse
    have hvalid : c.avcConfigurationValid = false := by
      by_contra hv
      have hv' := (h.valid (eq_true_of_ne_false hv)).1
      rw [hparsed] at hv'
      cases hv'
    refine ⟨_, parseSps_ok hparsed hparse, ⟨h.spsNalu, h.ppsNalu, fun _ ↦ hc, ?_, ?_, h.invalid⟩, rfl, hc, rfl⟩
    · intro _ sps' hs'
      rw [hs] at hs'
      cases hs'
      exact ⟨hprofile, hlevel, hsize⟩
    · intro hv
      exact absurd (hvalid.symm.trans hv) Bool.false_ne_true

theorem Current.unmeasured (h : Current l c) (width height : ℕ) (fps : Option FrameRate) (ready : Bool) :
    Current l { c with width, height, fps, ready } where
  spsNalu := h.spsNalu
  ppsNalu := h.ppsNalu
  complete := h.complete
  parsed := h.parsed
  valid hv := by
    obtain ⟨hp, hr⟩ := h.valid hv
    exact ⟨hp, hr.spsNalus, hr.ppsNalus, hr.profile, hr.level⟩
  invalid := h.invalid

theorem Current.getWh (h : Current l c) (hc : c.complete = true) :
    ∃ d, c.getWh = .ok (d, some (pictureSize d.sps)) ∧ Current l d ∧ d.spsPpsParsed = true ∧
      d.complete = true := by
  obtain ⟨d, hparse, hd, hparsed, hcomplete, -⟩ := h.parseSps hc
  exact ⟨d.measure, getWh_ok hc hparse, hd.unmeasured _ _ _ d.ready, hparsed, hcomplete⟩

theorem Current.getFps (h : Current l c) : ∃ d, c.getFps = .ok d ∧ Current l d.1 ∧
    (c.spsPpsParsed = true → d.1.spsPpsParsed = true) := by
  cases hc : c.complete with
  | false => exact ⟨_, getFps_incomplete hc, h, id⟩
  | true =>
    obtain ⟨d, hparse, hd, hparsed, -, -⟩ := h.parseSps hc
    exact ⟨_, getFps_ok hc hparse, hd.unmeasured _ _ _ d.ready, fun _ ↦ hparsed⟩

theorem Current.getAvcConfiguration (h : Current l c) : ∃ d r, c.getAvcConfiguration = .ok (d, r) ∧
    Current l d ∧ (c.complete = true → RecordOf d r ∧ d.spsPpsParsed = true) := by
  cases hv : c.avcConfigurationValid with
  | true =>
    obtain ⟨hparsed, hrecord⟩ := h.valid hv
    exact ⟨c, _, getAvcConfiguration_valid hv, h, fun _ ↦ ⟨hrecord, hparsed⟩⟩
  | false =>
    cases hc : c.complete with
    | false =>
      refine ⟨_, _, getAvcConfiguration_incomplete hv hc, ?_, fun hc ↦ absurd hc Bool.false_ne_true⟩
      rwa [← hv]
    | true =>
      obtain ⟨d, hparse, hd, hparsed, -, hvalid⟩ := h.parseSps hc
      obtain ⟨hsps, hpps⟩ := hd.invalid (hvalid.trans hv)
      have hrecord : RecordOf d (madeRecord d) :=
        ⟨congrArg (· ++ [d.spsNalu]) hsps, congrArg (· ++ [d.ppsNalu]) hpps, rfl, rfl⟩
      refine ⟨_, _, getAvcConfiguration_made hv hc hparse, ?_, fun _ ↦ ⟨?_, hparsed⟩⟩
      · exact ⟨hd.spsNalu, hd.ppsNalu, hd.complete, hd.parsed,
          fun _ ↦ ⟨hparsed, hrecord.spsNalus, hrecord.ppsNalus, hrecord.profile, hrecord.level⟩,
          fun hf ↦ absurd hf.symm Bool.false_ne_true⟩
      · exact ⟨hrecord.spsNalus, hrecord.ppsNalus, hrecord.profile, hrecord.level⟩

theorem Current.served (h : Current l c) : Served l c := by
  intro sps hs pps hp
  have hc : c.complete = true := (complete_iff h).mpr ⟨sps, pps, hs, hp⟩
  constructor
  · obtain ⟨d, r, hget, hd, hrecord⟩ := h.getAvcConfiguration
    obtain ⟨hr, hparsed⟩ := hrecord hc
    obtain ⟨hprofile, hlevel, -⟩ := hd.parsed hparsed sps hs
    have hsnalu : d.spsNalu = sps.nalu := by
      rw [hd.spsNalu, hs]
      rfl
    have hpnalu : d.ppsNalu = pps.val := by
      rw [hd.ppsNalu, hp]
      rfl
    exact ⟨d, r, hget, by rw [hr.spsNalus, hsnalu], by rw [hr.ppsNalus, hpnalu],
      hr.profile.trans hprofile, hr.level.trans hlevel⟩
  · obtain ⟨d, hget, hd, hparsed, -⟩ := h.getWh hc
    obtain ⟨-, -, hsize⟩ := hd.parsed hparsed sps hs
    exact ⟨d, by rw [hget, hsize]⟩

theorem Current.withSps {sps : ParsableSps} (h : Current l c) (hk : KeepsSps c sps) :
    Current { l with sps := some sps } { c with spsNalu := sps.nalu } where
  spsNalu := rfl
  ppsNalu := h.ppsNalu
  complete hp := by
    have hc := h.complete hp
    rw [complete_eq] at hc ⊢
    exact ⟨sps.nonempty, hc.2⟩
  parsed hp sps' hs := by
    cases hs
    exact hk.1 hp
  valid hv := by
    obtain ⟨hp, hr⟩ := h.valid hv
    exact ⟨hp, hr.spsNalus.trans (by rw [hk.2 hv]), hr.ppsNalus, hr.profile, hr.level⟩
  invalid := h.invalid

theorem Current.withPps {pps : Pps} (h : Current l c) (hk : KeepsPps c pps) :
    Current { l with pps := some pps } { c with ppsNalu := pps } where
  spsNalu := h.spsNalu
  ppsNalu := rfl
  complete hp := by
    have hc := h.complete hp
    rw [complete_eq] at hc ⊢
    exact ⟨hc.1, pps.2⟩
  parsed := h.parsed
  valid hv := by
    obtain ⟨hp, hr⟩ := h.valid hv
    exact ⟨hp, hr.spsNalus, hr.ppsNalus.trans (by rw [hk hv]), hr.profile, hr.level⟩
  invalid := h.invalid

theorem Current.setSpsPps {sps : ParsableSps} {pps : Pps} (h : Current l c) (hs : KeepsSps c sps)
    (hp : KeepsPps c pps) : ∃ d, c.setSpsPps sps.nalu pps = .ok d ∧
      Current ⟨some sps, some pps⟩ d.1 ∧ d.1.spsPpsParsed = true := by
  have hset : Current ⟨some sps, some pps⟩ { c with spsNalu := sps.nalu, ppsNalu := pps } :=
    (h.withSps hs).withPps hp
  have hcomplete : H264Codec.complete { c with spsNalu := sps.nalu, ppsNalu := pps } = true :=
    (complete_eq _).mpr ⟨sps.nonempty, pps.2⟩
  obtain ⟨d, hget, hd, hparsed, -⟩ := hset.getWh hcomplete
  obtain ⟨e, hfps, he, hkept⟩ := hd.getFps
  rw [setSpsPps_ok hget hfps]
  split
  · exact ⟨_, rfl, he, hkept hparsed⟩
  · exact ⟨_, rfl, he.unmeasured _ _ _ true, hkept hparsed⟩

/-- A call that keeps what is parsed leaves the latest sets current. -/
theorem Current.step (h : Current l c) {call : Call} (hk : Keeps c call) :
    ∃ d, step c call = .ok d ∧ Current (l.after call) d := by
  cases call with
  | setSps sps =>
    obtain ⟨ready, hset⟩ := setSps_eq c sps.nalu
    refine ⟨_, rfl, ?_⟩
    rw [hset]
    exact (h.withSps hk).unmeasured _ _ _ ready
  | setPps pps =>
    obtain ⟨ready, hset⟩ := setPps_eq c pps
    refine ⟨_, rfl, ?_⟩
    rw [hset]
    exact (h.withPps hk).unmeasured _ _ _ ready
  | setSpsPps sps pps =>
    obtain ⟨d, hset, hd, -⟩ := h.setSpsPps hk.1 hk.2
    exact ⟨d.1, by rw [LatestSets.step, hset]; rfl, hd⟩
  | getWh =>
    cases hc : c.complete with
    | false => exact ⟨c, by rw [LatestSets.step, getWh_incomplete hc]; rfl, h⟩
    | true =>
      obtain ⟨d, hget, hd, -, -⟩ := h.getWh hc
      exact ⟨d, by rw [LatestSets.step, hget]; rfl, hd⟩
  | getFps =>
    obtain ⟨d, hget, hd, -⟩ := h.getFps
    exact ⟨d.1, by rw [LatestSets.step, hget]; rfl, hd⟩
  | getAvcConfiguration =>
    obtain ⟨d, r, hget, hd, -⟩ := h.getAvcConfiguration
    exact ⟨d, by rw [LatestSets.step, hget]; rfl, hd⟩

end Steps

section Stale

variable {l : Latest} {c d : H264Codec} {sps : ParsableSps} {pps : Pps}

/-- Once it is parsed, a set is returned whatever is set after it. -/
theorem returns_parsed (hserved : Served l d) (hs : l.sps = some sps) (hp : l.pps = some pps)
    (hparsed : d.spsPpsParsed = true) (hcomplete : d.complete = true)
    (hvalid : d.avcConfigurationValid = true → d.avcConfiguration.avcProfile = .ofNat d.sps.profileIdc ∧
      d.avcConfiguration.avcLevel = .ofNat d.sps.levelIdc) :
    .ofNat d.sps.profileIdc = sps.profile ∧ .ofNat d.sps.levelIdc = sps.level ∧
      pictureSize d.sps = sps.size ∧ (d.avcConfigurationValid = true →
        d.avcConfiguration.spsNalus = [sps.nalu] ∧ d.avcConfiguration.ppsNalus = [pps.val]) := by
  obtain ⟨⟨c', r, hget, hsps, hpps, hprofile, hlevel⟩, c'', hsize⟩ := hserved sps hs pps hp
  rw [getWh_ok hcomplete (parseSps_parsed hparsed)] at hsize
  have hpicture : pictureSize d.sps = sps.size := by
    injection hsize with hsize
    injection hsize with _ hsize
    injection hsize
  cases hv : d.avcConfigurationValid with
  | true =>
    rw [getAvcConfiguration_valid hv] at hget
    cases hget
    obtain ⟨hp', hl'⟩ := hvalid hv
    exact ⟨hp'.symm.trans hprofile, hl'.symm.trans hlevel, hpicture, fun _ ↦ ⟨hsps, hpps⟩⟩
  | false =>
    rw [getAvcConfiguration_made hv hcomplete (parseSps_parsed hparsed)] at hget
    cases hget
    exact ⟨hprofile, hlevel, hpicture, fun hf ↦ absurd hf Bool.false_ne_true⟩

theorem Current.keeps_of_unparsed (h : Current l c) (hparsed : c.spsPpsParsed = false) (call : Call) :
    Keeps c call := by
  have hunparsed : c.spsPpsParsed ≠ true := by
    rw [hparsed]
    exact Bool.false_ne_true
  have hsps (sps : ParsableSps) : KeepsSps c sps :=
    ⟨fun hp ↦ absurd hp hunparsed, fun hv ↦ absurd (h.valid hv).1 hunparsed⟩
  have hpps (pps : Pps) : KeepsPps c pps := fun hv ↦ absurd (h.valid hv).1 hunparsed
  cases call with
  | setSps sps => exact hsps sps
  | setPps pps => exact hpps pps
  | setSpsPps sps pps => exact ⟨hsps sps, hpps pps⟩
  | getWh => trivial
  | getFps => trivial
  | getAvcConfiguration => trivial

/-- What a set that is not looked at leaves in the codec. -/
theorem setSpsPps_parsed (hparsed : c.spsPpsParsed = true) (sps : ParsableSps) (pps : Pps) :
    ∃ width height fps ready b, c.setSpsPps sps.nalu pps = .ok ({
      c with
      spsNalu := sps.nalu, ppsNalu := pps, width, height, fps, ready }, b) := by
  have hcomplete : H264Codec.complete { c with spsNalu := sps.nalu, ppsNalu := pps } = true :=
    (complete_eq _).mpr ⟨sps.nonempty, pps.2⟩
  have hget := getWh_ok (c := { c with spsNalu := sps.nalu, ppsNalu := pps }) hcomplete (parseSps_parsed hparsed)
  have hfps := getFps_ok (c := H264Codec.measure { c with spsNalu := sps.nalu, ppsNalu := pps }) hcomplete
    (parseSps_parsed hparsed)
  rw [setSpsPps_ok hget hfps]
  split
  · exact ⟨_, _, _, c.ready, false, rfl⟩
  · exact ⟨_, _, _, true, true, rfl⟩

/-- A call after which the getters return the latest sets keeps what is parsed. -/
theorem Current.keeps_of_served (h : Current l c) {call : Call} (hstep : LatestSets.step c call = .ok d)
    (hserved : Served (l.after call) d) : Keeps c call := by
  cases hparsed : c.spsPpsParsed with
  | false => exact h.keeps_of_unparsed hparsed call
  | true =>
    have hcomplete := h.complete hparsed
    obtain ⟨sps₀, pps₀, hs, hp⟩ := (complete_iff h).mp hcomplete
    obtain ⟨hsne, hpne⟩ := (complete_eq c).mp hcomplete
    have hvalid (hv : c.avcConfigurationValid = true) :
        c.avcConfiguration.avcProfile = .ofNat c.sps.profileIdc ∧
          c.avcConfiguration.avcLevel = .ofNat c.sps.levelIdc :=
      ⟨(h.valid hv).2.profile, (h.valid hv).2.level⟩
    cases call with
    | setSps sps =>
      obtain ⟨ready, hset⟩ := setSps_eq c sps.nalu
      rw [LatestSets.step, hset] at hstep
      cases hstep
      obtain ⟨hprofile, hlevel, hsize, hlists⟩ := returns_parsed hserved (Latest.after_sps l sps) hp
        hparsed ((complete_eq _).mpr ⟨sps.nonempty, hpne⟩) hvalid
      refine ⟨fun _ ↦ ⟨hprofile, hlevel, hsize⟩, fun hv ↦ ?_⟩
      have hlist := (h.valid hv).2.spsNalus.symm.trans (hlists hv).1
      exact (List.cons.inj hlist).1
    | setPps pps =>
      obtain ⟨ready, hset⟩ := setPps_eq c pps
      rw [LatestSets.step, hset] at hstep
      cases hstep
      obtain ⟨-, -, -, hlists⟩ := returns_parsed hserved hs (Latest.after_pps l pps)
        hparsed ((complete_eq _).mpr ⟨hsne, pps.2⟩) hvalid
      intro hv
      have hlist := (h.valid hv).2.ppsNalus.symm.trans (hlists hv).2
      exact (List.cons.inj hlist).1
    | setSpsPps sps pps =>
      obtain ⟨width, height, fps, ready, b, hset⟩ := setSpsPps_parsed hparsed sps pps
      rw [LatestSets.step, hset] at hstep
      cases hstep
      obtain ⟨hprofile, hlevel, hsize, hlists⟩ := returns_parsed hserved (Latest.after_both l sps pps).1
        (Latest.after_both l sps pps).2 hparsed ((complete_eq _).mpr ⟨sps.nonempty, pps.2⟩) hvalid
      refine ⟨⟨fun _ ↦ ⟨hprofile, hlevel, hsize⟩, fun hv ↦ ?_⟩, fun hv ↦ ?_⟩
      · have hlist := (h.valid hv).2.spsNalus.symm.trans (hlists hv).1
        exact (List.cons.inj hlist).1
      · have hlist := (h.valid hv).2.ppsNalus.symm.trans (hlists hv).2
        exact (List.cons.inj hlist).1
    | getWh => trivial
    | getFps => trivial
    | getAvcConfiguration => trivial

theorem AllServed.head {calls : List Call} (h : AllServed l c calls) : Served l c := by
  cases calls with
  | nil => exact h
  | cons call calls => exact h.1

theorem Current.allServed_iff (h : Current l c) (calls : List Call) :
    AllServed l c calls ↔ AllKeep c calls := by
  induction calls generalizing l c with
  | nil => exact iff_of_true h.served trivial
  | cons call calls ih =>
    constructor
    · rintro ⟨-, d, hstep, hrest⟩
      have hk := h.keeps_of_served hstep hrest.head
      obtain ⟨d', hstep', hd⟩ := h.step hk
      rw [hstep] at hstep'
      cases hstep'
      exact ⟨hk, d, hstep, (ih hd).mp hrest⟩
    · rintro ⟨hk, d, hstep, hrest⟩
      obtain ⟨d', hstep', hd⟩ := h.step hk
      rw [hstep] at hstep'
      cases hstep'
      exact ⟨h.served, d, hstep, (ih hd).mpr hrest⟩

end Stale

section Again

variable {l : Latest} {c : H264Codec} {sps : ParsableSps} {pps : Pps}

def Sets (sps : ParsableSps) (pps : Pps) : Call → Prop
  | .setSps sps' => sps' = sps
  | .setPps pps' => pps' = pps
  | .setSpsPps sps' pps' => sps' = sps ∧ pps' = pps
  | _ => True

theorem Current.keepsSps (h : Current l c) (hs : ∀ sps' ∈ l.sps, sps' = sps) : KeepsSps c sps := by
  have hset (hp : c.spsPpsParsed = true) : l.sps = some sps := by
    obtain ⟨sps', -, hsps', -⟩ := (complete_iff h).mp (h.complete hp)
    rw [hsps', hs sps' hsps']
  refine ⟨fun hp ↦ h.parsed hp sps (hset hp), fun hv ↦ ?_⟩
  rw [h.spsNalu, hset (h.valid hv).1]
  rfl

theorem Current.keepsPps (h : Current l c) (hp : ∀ pps' ∈ l.pps, pps' = pps) : KeepsPps c pps := by
  intro hv
  obtain ⟨-, pps', -, hpps'⟩ := (complete_iff h).mp (h.complete (h.valid hv).1)
  rw [h.ppsNalu, hpps', hp pps' hpps']
  rfl

/-- Sets that are sent again keep what is parsed. -/
theorem Current.allKeep (h : Current l c) (hs : ∀ sps' ∈ l.sps, sps' = sps)
    (hp : ∀ pps' ∈ l.pps, pps' = pps) {calls : List Call} (hcalls : ∀ call ∈ calls, Sets sps pps call) :
    AllKeep c calls := by
  induction calls generalizing l c with
  | nil => trivial
  | cons call calls ih =>
    obtain ⟨hcall, hrest⟩ := List.forall_mem_cons.mp hcalls
    have hk : Keeps c call := by
      cases call with
      | setSps _ => exact hcall ▸ h.keepsSps hs
      | setPps _ => exact hcall ▸ h.keepsPps hp
      | setSpsPps _ _ => exact ⟨hcall.1 ▸ h.keepsSps hs, hcall.2 ▸ h.keepsPps hp⟩
      | getWh => trivial
      | getFps => trivial
      | getAvcConfiguration => trivial
    obtain ⟨d, hstep, hd⟩ := h.step hk
    refine ⟨hk, d, hstep, ih hd ?_ ?_ hrest⟩
    · cases call with
      | setSps _ => exact fun _ hs' ↦ (Option.mem_some_iff.mp hs').symm.trans hcall
      | setSpsPps _ _ => exact fun _ hs' ↦ (Option.mem_some_iff.mp hs').symm.trans hcall.1
      | _ => exact hs
    · cases call with
      | setPps _ => exact fun _ hp' ↦ (Option.mem_some_iff.mp hp').symm.trans hcall
      | setSpsPps _ _ => exact fun _ hp' ↦ (Option.mem_some_iff.mp hp').symm.trans hcall.2
      | _ => exact hp

end Again

/-- In a run of a codec the getters return the latest sets just as long as no other set is set
behind the first one that is parsed. -/
theorem latestSets_served_iff {c : H264Codec} (h : Fresh c) (calls : List Call) :
    AllServed {} c calls ↔ AllKeep c calls :=
  h.current.allServed_iff calls

section Sets

variable {s : SeqParameterSet}

def sizeByTwo (s : SeqParameterSet) : ℕ × ℕ :=
  (((16 * (s.picWidthInMbsMinus1 + 1) - 2 * s.croppedColumns : ℤ) % 2 ^ 32).toNat,
    ((16 * s.fieldsPerMap * (s.picHeightInMapUnitsMinus1 + 1) - 2 * s.croppedRows : ℤ) % 2 ^ 32).toNat)

theorem pictureSize_fill (s : SeqParameterSet) (old : H264Sps) : pictureSize (fill old s) = sizeByTwo s := by
  rw [pictureSize, PictureSize.pictureWidth_fill s old, PictureSize.pictureHeight_fill s old]
  rfl

/-- The unit of a parameter set that has no scaling lists. -/
def ParsableSps.ofSet (header : UInt8) (s : SeqParameterSet) (hfree : s.ScalingFree) : ParsableSps where
  nalu := PictureSize.nalUnit header s
  nonempty := List.cons_ne_nil _ _
  profile := .ofNat s.profileIdc
  level := .ofNat s.levelIdc
  size := sizeByTwo s
  parses old := by
    have hrbsp : deemulationPrevention (PictureSize.nalUnit header s).tail = s.rbsp :=
      deemulationPrevention_inserted (show 0 ≤ 2 by omega) s.rbsp
    have hrec := fill_recovered s old
    rw [hrbsp]
    exact ⟨_, _, PictureSize.parse_rbsp hfree old, congrArg _ hrec.profileIdc, congrArg _ hrec.levelIdc,
      pictureSize_fill s old⟩

end Sets

def newCodec : H264Codec where
  sps := default
  avcConfiguration := {
    avcProfile := 0
    avcLevel := 0
    naluLengthSizeMinusOne := 0
    numOfSequenceParameterSets := 0
    spsNalus := []
    numOfPictureParameterSets := 0
    ppsNalus := [] }

theorem newCodec_fresh : Fresh newCodec := ⟨rfl, rfl, rfl, rfl, rfl, rfl⟩

def large : ParsableSps := .ofSet 0x67 PictureSize.progressive (PictureSize.fullHd_scalingFree _ _ _)

theorem mapUnits_lt : 33 < 2 ^ 32 - 1 := by decide

theorem bottom_lt : 4 < 2 ^ 32 - 1 := by decide

def small : ParsableSps :=
  .ofSet 0x67 (PictureSize.fullHd none ⟨33, mapUnits_lt⟩ none ⟨4, bottom_lt⟩)
    (PictureSize.fullHd_scalingFree _ _ _)

def anyPps : Pps := ⟨[0x68, 0xee, 0x3c, 0x80], List.cons_ne_nil _ _⟩

theorem onePublisher_served : AllServed {} newCodec
    [.setSps large, .setPps anyPps, .getWh, .setSps large, .getAvcConfiguration,
      .setSpsPps large anyPps] := by
  have hnone (sps : ParsableSps) : sps ∈ (none : Option ParsableSps) → sps = large := nofun
  have hnone' (pps : Pps) : pps ∈ (none : Option Pps) → pps = anyPps := nofun
  refine (latestSets_served_iff newCodec_fresh _).mpr (newCodec_fresh.current.allKeep hnone hnone' ?_)
  intro call hcall
  simp only [List.mem_cons, List.not_mem_nil, or_false] at hcall
  rcases hcall with rfl | rfl | rfl | rfl | rfl | rfl
  · rfl
  · rfl
  · trivial
  · rfl
  · trivial
  · exact ⟨rfl, rfl⟩

/-- A codec goes on with the size that it knew first. -/
theorem resolutionChange_stale :
    Fresh newCodec ∧ ¬ AllServed {} newCodec [.setSpsPps large anyPps, .setSps small] := by
  refine ⟨newCodec_fresh, fun h ↦ ?_⟩
  have hcurrent := newCodec_fresh.current
  obtain ⟨⟨hsps, hpps⟩, c, hstep, hkeeps, -⟩ := (hcurrent.allServed_iff _).mp h
  obtain ⟨d, hset, hd, hparsed⟩ := hcurrent.setSpsPps hsps hpps
  rw [step, hset] at hstep
  cases hstep
  have hlarge := (hd.parsed hparsed large rfl).2.2
  have hsmall := (hkeeps.1 hparsed).2.2
  exact absurd (hlarge.symm.trans hsmall) (by decide)

end MmsServer.Codec.LatestSets
