import MmsServer.Codec.AvcCodec
import MmsServer.Codec.NaluType
import MmsServer.Lib.StringMemory

namespace MmsServer.Rtmp.ParameterSets

open Lib.ByteReader Lib.StringMemory Codec Codec.NaluType

section Spec

structure ParameterSet where
  isKind : Bytes → Bool
  stored : Bytes

def beforeKey (isKey : Bytes → Bool) (nalus : List Bytes) : List Bytes := nalus.takeWhile (!isKey ·)

def Has (isKind : Bytes → Bool) (nalus : List Bytes) : Prop := ∃ x ∈ nalus, isKind x = true

/-- A random access point in `nalus` has all the sets before it in `out`, each from
`nalus` or as it was stored. -/
def Complete (isKey : Bytes → Bool) (sets : List ParameterSet) (nalus out : List Bytes) : Prop :=
  Has isKey nalus → ∀ s ∈ sets, ∃ x ∈ beforeKey isKey out, s.isKind x = true ∧ (x ∈ nalus ∨ x = s.stored)

end Spec

section H264

def isIdr (nalu : Bytes) : Bool := h264NaluType nalu = 5

def isSps (nalu : Bytes) : Bool := h264NaluType nalu = 7

def isPps (nalu : Bytes) : Bool := h264NaluType nalu = 8

def isAud (nalu : Bytes) : Bool := h264NaluType nalu = 9

def defaultAudNalu : Bytes := [0x09, 0xf0]

structure H264Codec where
  spsNalu : Storage UInt8
  ppsNalu : Storage UInt8

def H264Codec.setSps (c : H264Codec) (sps : Bytes) : H264Codec := { c with spsNalu := c.spsNalu.assign sps }

def H264Codec.setPps (c : H264Codec) (pps : Bytes) : H264Codec := { c with ppsNalu := c.ppsNalu.assign pps }

/-- The list holds views, of the message or of the strings of the codec. -/
inductive NaluView
  | own (nalu : Bytes)
  | sps (view : View)
  | pps (view : View)

def NaluView.read (c : H264Codec) : NaluView → Option Bytes
  | .own nalu => some nalu
  | .sps view => c.spsNalu.read view
  | .pps view => c.ppsNalu.read view

structure H264Scan where
  codec : H264Codec
  hasAudNalu : Bool := false
  hasSpsNalu : Bool := false
  hasPpsNalu : Bool := false

def H264Scan.visit (s : H264Scan) (nalu : Bytes) : H264Scan :=
  if isAud nalu then { s with hasAudNalu := true }
  else if isSps nalu then { s with hasSpsNalu := true, codec := s.codec.setSps nalu }
  else if isPps nalu then { s with hasPpsNalu := true, codec := s.codec.setPps nalu }
  else s

/-- Where the loop inserts the sets it goes on with the inserted PPS, and then finds
the same IDR again. -/
def H264Scan.run : H264Scan → List Bytes → List NaluView × H264Scan
  | s, [] => ([], s)
  | s, nalu :: nalus =>
    if isIdr nalu && !s.hasPpsNalu && !s.hasSpsNalu then
      let s' := { s with hasPpsNalu := true, hasSpsNalu := true }
      let r := (s'.visit s.codec.ppsNalu.value).run nalus
      (.sps s.codec.spsNalu.view :: .pps s.codec.ppsNalu.view :: .own nalu :: r.1, r.2)
    else
      let r := (s.visit nalu).run nalus
      (.own nalu :: r.1, r.2)

/-- The NAL units that are packetised, if all the views can still be read then. -/
def h264Nalus (c : H264Codec) (nalus : List Bytes) : Option (List Bytes) :=
  let r := H264Scan.run { codec := c } nalus
  let out := r.1.mapM (NaluView.read r.2.codec)
  if r.2.hasAudNalu then out else out.map (defaultAudNalu :: ·)

def RtmpToTs.processH264Packet : H264Codec → List Bytes → Option (List Bytes) := h264Nalus

def RtmpToRtsp.processH264Packet : H264Codec → List Bytes → Option (List Bytes) := h264Nalus

def H264Codec.sets (c : H264Codec) : List ParameterSet :=
  [⟨isSps, c.spsNalu.value⟩, ⟨isPps, c.ppsNalu.value⟩]

structure H264Ready extends H264Codec where
  sps_ok : isSps spsNalu.value = true
  pps_ok : isPps ppsNalu.value = true

end H264

section H265

/-- The types from `NAL_BLA_W_LP` to `NAL_RSV_IRAP_VCL23` -/
def isIrap (nalu : Bytes) : Bool := 16 ≤ h265NaluType nalu ∧ h265NaluType nalu ≤ 23

def isHevcVps (nalu : Bytes) : Bool := h265NaluType nalu = 32

def isHevcSps (nalu : Bytes) : Bool := h265NaluType nalu = 33

def isHevcPps (nalu : Bytes) : Bool := h265NaluType nalu = 34

structure HevcCodec where
  vpsNalu : Bytes
  spsNalu : Bytes
  ppsNalu : Bytes

structure HevcScan where
  codec : HevcCodec
  hasVpsNalu : Bool := false
  hasSpsNalu : Bool := false
  hasPpsNalu : Bool := false
  hasKeyNalu : Bool := false

def RtmpToTs.visitHevc (s : HevcScan) (nalu : Bytes) : HevcScan :=
  if isHevcSps nalu then { s with hasSpsNalu := true, codec := { s.codec with spsNalu := nalu } }
  else if isHevcPps nalu then { s with hasPpsNalu := true, codec := { s.codec with ppsNalu := nalu } }
  else if isHevcVps nalu then { s with hasVpsNalu := true, codec := { s.codec with vpsNalu := nalu } }
  else if isIrap nalu then { s with hasKeyNalu := true }
  else s

def RtmpToRtsp.visitHevc (s : HevcScan) (nalu : Bytes) : HevcScan :=
  if isHevcVps nalu then { s with hasVpsNalu := true, codec := { s.codec with vpsNalu := nalu } }
  else if isHevcSps nalu then { s with hasSpsNalu := true, codec := { s.codec with spsNalu := nalu } }
  else if isHevcPps nalu then { s with hasPpsNalu := true, codec := { s.codec with ppsNalu := nalu } }
  else if isIrap nalu then { s with hasKeyNalu := true }
  else s

/-- The bytes from the start of a string, with those of the memory behind it. -/
def readMemory (s : Bytes) (behind : ℕ → UInt8) (size : ℕ) : Bytes :=
  s.take size ++ (List.range (size - s.length)).map behind

/-- The VPS is read with the size of the SPS. -/
def HevcScan.missing (s : HevcScan) (behind : ℕ → UInt8) : List Bytes :=
  (if s.hasVpsNalu then [] else [readMemory s.codec.vpsNalu behind s.codec.spsNalu.length]) ++
    (if s.hasSpsNalu then [] else [s.codec.spsNalu]) ++ (if s.hasPpsNalu then [] else [s.codec.ppsNalu])

def hevcNalus (visit : HevcScan → Bytes → HevcScan) (c : HevcCodec) (behind : ℕ → UInt8)
    (nalus : List Bytes) : List Bytes :=
  let s := nalus.foldl visit { codec := c }
  if s.hasKeyNalu then s.missing behind ++ nalus else nalus

def RtmpToTs.processH265Packet : HevcCodec → (ℕ → UInt8) → List Bytes → List Bytes :=
  hevcNalus RtmpToTs.visitHevc

def RtmpToRtsp.processH265Packet : HevcCodec → (ℕ → UInt8) → List Bytes → List Bytes :=
  hevcNalus RtmpToRtsp.visitHevc

def HevcCodec.sets (c : HevcCodec) : List ParameterSet :=
  [⟨isHevcVps, c.vpsNalu⟩, ⟨isHevcSps, c.spsNalu⟩, ⟨isHevcPps, c.ppsNalu⟩]

structure HevcReady extends HevcCodec where
  vps_ok : isHevcVps vpsNalu = true
  sps_ok : isHevcSps spsNalu = true
  pps_ok : isHevcPps ppsNalu = true

end H265

section Complete

variable {isKey isKind : Bytes → Bool} {pre post : List Bytes} {key : Bytes}

theorem exists_first (h : Has isKey nalus) :
    ∃ pre key post, nalus = pre ++ key :: post ∧ isKey key = true ∧ ∀ x ∈ pre, isKey x = false := by
  obtain ⟨x, hx, hkey⟩ := h
  obtain ⟨key, hfind⟩ := Option.isSome_iff_exists.mp (List.find?_isSome.mpr ⟨x, hx, hkey⟩)
  obtain ⟨hkey, pre, post, hl, hpre⟩ := List.find?_eq_some_iff_append.mp hfind
  exact ⟨pre, key, post, hl, hkey, fun y hy ↦ by simpa using hpre y hy⟩

theorem beforeKey_append {front : List Bytes} (hfront : ∀ x ∈ front, isKey x = false)
    (hkey : isKey key = true) : beforeKey isKey (front ++ key :: post) = front := by
  rw [beforeKey, List.takeWhile_append_of_pos (by simpa using hfront),
    List.takeWhile_cons_of_neg (by simpa using hkey), List.append_nil]

theorem has_append {l l' : List Bytes} : Has isKind (l ++ l') ↔ Has isKind l ∨ Has isKind l' := by
  simp only [Has, List.mem_append, or_and_right, exists_or]

theorem has_cons {x : Bytes} {l : List Bytes} : Has isKind (x :: l) ↔ isKind x = true ∨ Has isKind l := by
  simp only [Has, List.mem_cons, or_and_right, exists_or, exists_eq_left]

theorem complete_iff {sets : List ParameterSet} {front : List Bytes} {nalus : List Bytes}
    (hnalus : nalus = pre ++ key :: post) (hkey : isKey key = true) (hfront : ∀ x ∈ front, isKey x = false) :
    Complete isKey sets nalus (front ++ key :: post) ↔
      ∀ s ∈ sets, ∃ x ∈ front, s.isKind x = true ∧ (x ∈ nalus ∨ x = s.stored) := by
  have hhas : Has isKey nalus := ⟨key, by rw [hnalus]; simp, hkey⟩
  rw [Complete, beforeKey_append hfront hkey]
  exact ⟨fun h ↦ h hhas, fun h _ ↦ h⟩

end Complete

section H264

theorem not_sps_of_pps {x : Bytes} (h : isPps x = true) : isSps x = false := by
  simp_all [isPps, isSps]

theorem not_pps_of_sps {x : Bytes} (h : isSps x = true) : isPps x = false := by
  simp_all [isPps, isSps]

theorem not_idr_of_sps {x : Bytes} (h : isSps x = true) : isIdr x = false := by
  simp_all [isIdr, isSps]

theorem not_idr_of_pps {x : Bytes} (h : isPps x = true) : isIdr x = false := by
  simp_all [isIdr, isPps]

theorem visit_sps (s : H264Scan) {x : Bytes} (h : isSps x = true) :
    s.visit x = { s with hasSpsNalu := true, codec := s.codec.setSps x } := by
  have haud : isAud x = false := by simp_all [isAud, isSps]
  rw [H264Scan.visit, haud, if_neg (by decide), if_pos h]

theorem visit_pps (s : H264Scan) {x : Bytes} (h : isPps x = true) :
    s.visit x = { s with hasPpsNalu := true, codec := s.codec.setPps x } := by
  have haud : isAud x = false := by simp_all [isAud, isPps]
  rw [H264Scan.visit, haud, not_sps_of_pps h, if_neg (by decide), if_neg (by decide), if_pos h]

theorem visit_other (s : H264Scan) {x : Bytes} (hsps : isSps x = false) (hpps : isPps x = false) :
    s.visit x = { s with hasAudNalu := s.hasAudNalu || isAud x } := by
  rw [H264Scan.visit, hsps, hpps]
  cases haud : isAud x <;> simp

/-- What the loop over a list of NAL units leaves, where it inserts nothing. -/
theorem foldl_visit (s : H264Scan) (nalus : List Bytes) :
    nalus.foldl H264Scan.visit s =
      { codec :=
          { spsNalu := (nalus.filter isSps).foldl Storage.assign s.codec.spsNalu
            ppsNalu := (nalus.filter isPps).foldl Storage.assign s.codec.ppsNalu }
        hasAudNalu := s.hasAudNalu || nalus.any isAud
        hasSpsNalu := s.hasSpsNalu || nalus.any isSps
        hasPpsNalu := s.hasPpsNalu || nalus.any isPps } := by
  induction nalus generalizing s with
  | nil => simp
  | cons x nalus ih =>
    rw [List.foldl_cons, ih]
    by_cases hsps : isSps x = true
    · have haud : isAud x = false := by simp_all [isAud, isSps]
      simp [visit_sps s hsps, hsps, not_pps_of_sps hsps, haud, H264Codec.setSps]
    · by_cases hpps : isPps x = true
      · have haud : isAud x = false := by simp_all [isAud, isPps]
        simp [visit_pps s hpps, hpps, hsps, haud, H264Codec.setPps]
      · simp [visit_other s (by simpa using hsps) (by simpa using hpps), hsps, hpps, Bool.or_assoc]

theorem visit_seen (s : H264Scan) (x : Bytes) (h : (s.hasPpsNalu || s.hasSpsNalu) = true) :
    ((s.visit x).hasPpsNalu || (s.visit x).hasSpsNalu) = true := by
  unfold H264Scan.visit
  split
  · exact h
  · split
    · simp
    · split
      · simp
      · exact h

theorem run_seen (s : H264Scan) (nalus : List Bytes) (h : (s.hasPpsNalu || s.hasSpsNalu) = true) :
    s.run nalus = (nalus.map .own, nalus.foldl H264Scan.visit s) := by
  induction nalus generalizing s with
  | nil => rfl
  | cons x nalus ih =>
    have hno : (isIdr x && !s.hasPpsNalu && !s.hasSpsNalu) = false := by
      cases hp : s.hasPpsNalu <;> simp_all
    rw [H264Scan.run, hno, if_neg (by decide), ih _ (visit_seen s x h)]
    rfl

theorem run_append (s : H264Scan) {pre : List Bytes} (hpre : ∀ x ∈ pre, isIdr x = false) (rest : List Bytes) :
    s.run (pre ++ rest) =
      (pre.map .own ++ ((pre.foldl H264Scan.visit s).run rest).1, ((pre.foldl H264Scan.visit s).run rest).2) := by
  induction pre generalizing s with
  | nil => rfl
  | cons x pre ih =>
    rw [List.forall_mem_cons] at hpre
    rw [List.cons_append, H264Scan.run, hpre.1, if_neg (by simp), ih _ hpre.2]
    rfl

theorem visit_idr (s : H264Scan) {x : Bytes} (h : isIdr x = true) : s.visit x = s := by
  have hsps : isSps x = false := by simp_all [isIdr, isSps]
  have hpps : isPps x = false := by simp_all [isIdr, isPps]
  have haud : isAud x = false := by simp_all [isIdr, isAud]
  rw [visit_other s hsps hpps, haud, Bool.or_false]

/-- Visiting the stored PPS again does not move it. -/
theorem visit_stored {s : H264Scan} (h : isPps s.codec.ppsNalu.value = true) :
    s.visit s.codec.ppsNalu.value = { s with hasPpsNalu := true } := by
  rw [visit_pps s h, H264Codec.setPps, Storage.assign_self]

theorem run_insert {s : H264Scan} {idr : Bytes} (post : List Bytes) (hidr : isIdr idr = true)
    (hsps : s.hasSpsNalu = false) (hpps : s.hasPpsNalu = false) (hstored : isPps s.codec.ppsNalu.value = true) :
    s.run (idr :: post) =
      (.sps s.codec.spsNalu.view :: .pps s.codec.ppsNalu.view :: (idr :: post).map .own,
        (idr :: post).foldl H264Scan.visit { s with hasPpsNalu := true, hasSpsNalu := true }) := by
  have hvisit := visit_stored (s := { s with hasPpsNalu := true, hasSpsNalu := true }) hstored
  rw [H264Scan.run, hidr, hsps, hpps, if_pos (by decide)]
  dsimp only at hvisit ⊢
  rw [hvisit, run_seen _ _ rfl, List.foldl_cons, visit_idr _ hidr]
  rfl

/-- The strings of `c` with the memory that they stand in. -/
structure H264Codec.Stores (m : H264Codec) (c : AvcCodec.H264Codec) : Prop where
  spsNalu : m.spsNalu.value = c.spsNalu
  ppsNalu : m.ppsNalu.value = c.ppsNalu

def storeSet (c : AvcCodec.H264Codec) (nalu : Bytes) : AvcCodec.H264Codec :=
  if isSps nalu then c.setSps nalu else if isPps nalu then c.setPps nalu else c

theorem visit_stores {s : H264Scan} {c : AvcCodec.H264Codec} (h : s.codec.Stores c) (nalu : Bytes) :
    (s.visit nalu).codec.Stores (storeSet c nalu) := by
  unfold storeSet
  by_cases hsps : isSps nalu = true
  · obtain ⟨ready, hset⟩ := AvcCodec.setSps_eq c nalu
    rw [visit_sps s hsps, if_pos hsps, hset]
    exact ⟨s.codec.spsNalu.assign_value nalu, h.ppsNalu⟩
  · rw [if_neg hsps]
    by_cases hpps : isPps nalu = true
    · obtain ⟨ready, hset⟩ := AvcCodec.setPps_eq c nalu
      rw [visit_pps s hpps, if_pos hpps, hset]
      exact ⟨h.spsNalu, s.codec.ppsNalu.assign_value nalu⟩
    · rw [visit_other s (eq_false_of_ne_true hsps) (eq_false_of_ne_true hpps), if_neg hpps]
      exact h

theorem foldl_visit_stores {s : H264Scan} {c : AvcCodec.H264Codec} (h : s.codec.Stores c)
    (nalus : List Bytes) : (nalus.foldl H264Scan.visit s).codec.Stores (nalus.foldl storeSet c) := by
  induction nalus generalizing s c with
  | nil => exact h
  | cons nalu nalus ih => exact ih (visit_stores h nalu)

theorem visit_ppsStored {s : H264Scan} (h : isPps s.codec.ppsNalu.value = true) (nalu : Bytes) :
    isPps (s.visit nalu).codec.ppsNalu.value = true := by
  by_cases hsps : isSps nalu = true
  · rw [visit_sps s hsps]
    exact h
  · by_cases hpps : isPps nalu = true
    · rw [visit_pps s hpps, H264Codec.setPps, Storage.assign_value]
      exact hpps
    · rw [visit_other s (eq_false_of_ne_true hsps) (eq_false_of_ne_true hpps)]
      exact h

/-- The loop leaves in the codec what the calls for the sets of the unit leave there. -/
theorem run_stores {s : H264Scan} {c : AvcCodec.H264Codec} (h : s.codec.Stores c)
    (hpps : isPps s.codec.ppsNalu.value = true) (nalus : List Bytes) :
    (s.run nalus).2.codec.Stores (nalus.foldl storeSet c) := by
  induction nalus generalizing s c with
  | nil => exact h
  | cons nalu nalus ih =>
    by_cases hinsert : (isIdr nalu && !s.hasPpsNalu && !s.hasSpsNalu) = true
    · obtain ⟨⟨hidr, hp⟩, hs⟩ : (isIdr nalu = true ∧ s.hasPpsNalu = false) ∧ s.hasSpsNalu = false := by
        simpa using hinsert
      rw [run_insert nalus hidr hs hp hpps]
      exact foldl_visit_stores (s := { s with hasPpsNalu := true, hasSpsNalu := true }) h _
    · rw [H264Scan.run, if_neg hinsert]
      exact ih (visit_stores h nalu) (visit_ppsStored hpps nalu)

theorem mapM_own (c : H264Codec) (nalus : List Bytes) :
    (nalus.map NaluView.own).mapM (NaluView.read c) = some nalus := by
  induction nalus with
  | nil => rfl
  | cons x nalus ih => rw [List.map_cons, List.mapM_cons, ih]; rfl

theorem mapM_inserted (c : H264Codec) (pre rest : List Bytes) (v w : View) :
    (pre.map NaluView.own ++ NaluView.sps v :: .pps w :: rest.map .own).mapM (NaluView.read c) =
      (c.spsNalu.read v).bind fun x ↦ (c.ppsNalu.read w).map fun y ↦ pre ++ x :: y :: rest := by
  rw [List.mapM_append, mapM_own, List.mapM_cons, List.mapM_cons, mapM_own]
  cases hv : c.spsNalu.read v <;> cases hw : c.ppsNalu.read w <;> simp [NaluView.read, hv, hw]

def audPrefix (hasAudNalu : Bool) : List Bytes := if hasAudNalu then [] else [defaultAudNalu]

theorem h264Nalus_eq (c : H264Codec) (nalus : List Bytes) :
    h264Nalus c nalus =
      (((H264Scan.run { codec := c } nalus).1.mapM
        (NaluView.read (H264Scan.run { codec := c } nalus).2.codec)).map
        (audPrefix (H264Scan.run { codec := c } nalus).2.hasAudNalu ++ ·)) := by
  rw [h264Nalus]
  cases (H264Scan.run { codec := c } nalus).2.hasAudNalu with
  | true => simp [audPrefix]
  | false => simp [audPrefix]

theorem mem_audPrefix {x : Bytes} {b : Bool} (h : x ∈ audPrefix b) : x = defaultAudNalu := by
  unfold audPrefix at h
  split at h
  · cases h
  · simpa using h

/-- The units are kept in order, and the IDR has its parameter sets. -/
def H264Right (packetised : H264Codec → List Bytes → Option (List Bytes)) (c : H264Codec)
    (nalus : List Bytes) : Prop :=
  ∃ out, packetised c nalus = some out ∧ nalus.Sublist out ∧ Complete isIdr c.sets nalus out

/-- Both sets stand before the IDR, or none of them, and what stands behind leaves the stored
sets as they are where the views point. -/
def H264Codec.Suffices (c : H264Codec) (nalus : List Bytes) : Prop :=
  Has isIdr nalus →
    (Has isSps (beforeKey isIdr nalus) ∧ Has isPps (beforeKey isIdr nalus)) ∨
    (¬ Has isSps (beforeKey isIdr nalus) ∧ ¬ Has isPps (beforeKey isIdr nalus) ∧
      c.spsNalu.Survives (nalus.filter isSps) ∧ c.ppsNalu.Survives (nalus.filter isPps))

variable {nalus pre post : List Bytes} {idr : Bytes}

theorem any_eq_false {isKind : Bytes → Bool} {l : List Bytes} (h : ¬ Has isKind l) : l.any isKind = false := by
  rw [List.any_eq_false]
  exact fun x hx hk ↦ h ⟨x, hx, hk⟩

theorem any_eq_true {isKind : Bytes → Bool} {l : List Bytes} (h : Has isKind l) : l.any isKind = true :=
  List.any_eq_true.mpr h

theorem filter_eq_nil {isKind : Bytes → Bool} {l : List Bytes} (h : ¬ Has isKind l) : l.filter isKind = [] := by
  rw [List.filter_eq_nil_iff]
  exact fun x hx hk ↦ h ⟨x, hx, hk⟩

/-- Without an IDR, or with a set before it, the code inserts nothing. -/
theorem packetised_own (c : H264Codec)
    (h : H264Scan.run { codec := c } nalus = (nalus.map .own, nalus.foldl H264Scan.visit { codec := c })) :
    ∃ b, h264Nalus c nalus = some (audPrefix b ++ nalus) := by
  refine ⟨(H264Scan.run { codec := c } nalus).2.hasAudNalu, ?_⟩
  rw [h264Nalus_eq, h, mapM_own, Option.map_some]

theorem run_noIdr (c : H264Codec) (h : ¬ Has isIdr nalus) :
    H264Scan.run { codec := c } nalus = (nalus.map .own, nalus.foldl H264Scan.visit { codec := c }) := by
  have hno : ∀ x ∈ nalus, isIdr x = false := by
    intro x hx
    cases hx' : isIdr x with
    | false => rfl
    | true => exact absurd ⟨x, hx, hx'⟩ h
  have hrun := run_append { codec := c } hno []
  rw [List.append_nil] at hrun
  simpa [H264Scan.run] using hrun

theorem run_oneBefore (c : H264Codec) (hpre : ∀ x ∈ pre, isIdr x = false) (rest : List Bytes)
    (h : Has isSps pre ∨ Has isPps pre) :
    H264Scan.run { codec := c } (pre ++ rest) =
      ((pre ++ rest).map .own, (pre ++ rest).foldl H264Scan.visit { codec := c }) := by
  have hseen : ((pre.foldl H264Scan.visit { codec := c }).hasPpsNalu ||
      (pre.foldl H264Scan.visit { codec := c }).hasSpsNalu) = true := by
    rw [foldl_visit]
    rcases h with h | h <;> simp [any_eq_true h]
  rw [run_append _ hpre, run_seen _ _ hseen, List.map_append, List.foldl_append]

/-- With none of the sets before the IDR the views of the stored ones are inserted. -/
theorem packetised_inserted (c : H264Ready) (post : List Bytes) (hpre : ∀ x ∈ pre, isIdr x = false)
    (hidr : isIdr idr = true) (hsps : ¬ Has isSps pre) (hpps : ¬ Has isPps pre) :
    ∃ b, h264Nalus c.toH264Codec (pre ++ idr :: post) =
      ((((pre ++ idr :: post).filter isSps).foldl Storage.assign c.spsNalu).read c.spsNalu.view).bind fun x ↦
        ((((pre ++ idr :: post).filter isPps).foldl Storage.assign c.ppsNalu).read c.ppsNalu.view).map
          fun y ↦ audPrefix b ++ (pre ++ x :: y :: idr :: post) := by
  have hvisit := foldl_visit { codec := c.toH264Codec } pre
  rw [filter_eq_nil hsps, filter_eq_nil hpps, any_eq_false hsps, any_eq_false hpps] at hvisit
  have hrun : H264Scan.run { codec := c.toH264Codec } (pre ++ idr :: post) =
      (pre.map .own ++ .sps c.spsNalu.view :: .pps c.ppsNalu.view :: (idr :: post).map .own,
        (idr :: post).foldl H264Scan.visit
          { codec := c.toH264Codec, hasAudNalu := pre.any isAud, hasPpsNalu := true, hasSpsNalu := true }) := by
    rw [run_append _ hpre, hvisit]
    dsimp only [List.foldl_nil, Bool.or_false]
    rw [run_insert post hidr rfl rfl c.pps_ok]
    simp
  refine ⟨(H264Scan.run { codec := c.toH264Codec } (pre ++ idr :: post)).2.hasAudNalu, ?_⟩
  rw [h264Nalus_eq, hrun, mapM_inserted, foldl_visit, List.filter_append, List.filter_append,
    filter_eq_nil hsps, filter_eq_nil hpps, List.nil_append, List.nil_append]
  simp only [Option.map_bind, Option.map_map, Function.comp_def]

/-- Sets behind the IDR do no harm when they have the lengths of the stored ones. -/
theorem H264Codec.suffices_of_length (c : H264Codec) (hsps : ¬ Has isSps (beforeKey isIdr nalus))
    (hpps : ¬ Has isPps (beforeKey isIdr nalus))
    (hspsLength : ∀ x ∈ nalus, isSps x = true → x.length = c.spsNalu.value.length)
    (hppsLength : ∀ x ∈ nalus, isPps x = true → x.length = c.ppsNalu.value.length) : c.Suffices nalus := by
  refine fun _ ↦ .inr ⟨hsps, hpps, Storage.survives_of_length ?_, Storage.survives_of_length ?_⟩
  · intro x hx
    exact hspsLength x (List.mem_filter.mp hx).1 (List.mem_filter.mp hx).2
  · intro x hx
    exact hppsLength x (List.mem_filter.mp hx).1 (List.mem_filter.mp hx).2

/-- A view of a stored set reads a set of its kind. -/
theorem read_isKind {t : ℕ} (ht : t ≠ 0) {s : Storage UInt8} {later : List Bytes} {x : Bytes}
    (hvalue : h264NaluType s.value = t) (hlater : ∀ v ∈ later, h264NaluType v = t)
    (hx : (later.foldl Storage.assign s).read s.view = some x) : h264NaluType x = t := by
  have hall : ∀ v ∈ s.value :: later, h264NaluType v = t := List.forall_mem_cons.mpr ⟨hvalue, hlater⟩
  have hne : ∀ v ∈ s.value :: later, v ≠ [] := by
    rintro v hv rfl
    exact ht (hall [] hv).symm
  obtain ⟨v, hv, hhead⟩ := Storage.read_head hne hx
  rw [h264NaluType_congr hhead, hall v hv]

theorem read_isSps {s : Storage UInt8} {x : Bytes} (hs : isSps s.value = true)
    (hx : ((nalus.filter isSps).foldl Storage.assign s).read s.view = some x) : isSps x = true := by
  refine decide_eq_true (read_isKind (by decide) (of_decide_eq_true hs) (fun v hv ↦ ?_) hx)
  exact of_decide_eq_true (List.mem_filter.mp hv).2

theorem read_isPps {s : Storage UInt8} {x : Bytes} (hs : isPps s.value = true)
    (hx : ((nalus.filter isPps).foldl Storage.assign s).read s.view = some x) : isPps x = true := by
  refine decide_eq_true (read_isKind (by decide) (of_decide_eq_true hs) (fun v hv ↦ ?_) hx)
  exact of_decide_eq_true (List.mem_filter.mp hv).2

theorem audPrefix_kind {isKind : Bytes → Bool} (haud : isKind defaultAudNalu = false) (b : Bool) :
    ¬ Has isKind (audPrefix b) := by
  rintro ⟨x, hx, hk⟩
  rw [mem_audPrefix hx, haud] at hk
  cases hk

/-- A set in front of the IDR is the inserted one, if there was none. -/
theorem found_iff {isKind : Bytes → Bool} {front before after : List Bytes} {stored x : Bytes}
    (hfront : front = before ++ x :: after) (hbefore : ¬ Has isKind before) (hafter : ¬ Has isKind after)
    (hx : isKind x = true) :
    (∃ z ∈ front, isKind z = true ∧ (z ∈ nalus ∨ z = stored)) ↔ x ∈ stored :: nalus.filter isKind := by
  rw [List.mem_cons, List.mem_filter]
  constructor
  · rintro ⟨z, hz, hk, hfrom⟩
    rw [hfront, List.mem_append, List.mem_cons] at hz
    rcases hz with hz | rfl | hz
    · exact absurd ⟨z, hz, hk⟩ hbefore
    · exact hfrom.symm.imp_right fun h ↦ ⟨h, hk⟩
    · exact absurd ⟨z, hz, hk⟩ hafter
  · intro h
    exact ⟨x, by rw [hfront]; simp, hx, h.symm.imp_left And.left⟩

theorem found_own_iff {isKind : Bytes → Bool} (haud : isKind defaultAudNalu = false) (b : Bool)
    {stored : Bytes} (hpre : ∀ x ∈ pre, x ∈ nalus) :
    (∃ z ∈ audPrefix b ++ pre, isKind z = true ∧ (z ∈ nalus ∨ z = stored)) ↔ Has isKind pre := by
  constructor
  · rintro ⟨z, hz, hk, -⟩
    rcases List.mem_append.mp hz with hz | hz
    · exact absurd ⟨z, hz, hk⟩ (audPrefix_kind haud b)
    · exact ⟨z, hz, hk⟩
  · rintro ⟨z, hz, hk⟩
    exact ⟨z, List.mem_append_right _ hz, hk, .inl (hpre z hz)⟩

theorem audPrefix_noIdr (b : Bool) : ∀ x ∈ audPrefix b, isIdr x = false := by
  intro x hx
  rw [mem_audPrefix hx]
  decide

theorem right_own_iff (c : H264Codec) (hpre : ∀ x ∈ pre, isIdr x = false) (hidr : isIdr idr = true)
    (h : Has isSps pre ∨ Has isPps pre) :
    H264Right h264Nalus c (pre ++ idr :: post) ↔ Has isSps pre ∧ Has isPps pre := by
  obtain ⟨b, hout⟩ := packetised_own c (run_oneBefore c hpre (idr :: post) h)
  have hsub : (pre ++ idr :: post).Sublist (audPrefix b ++ (pre ++ idr :: post)) :=
    List.sublist_append_right _ _
  have hfront : ∀ x ∈ audPrefix b ++ pre, isIdr x = false := by
    intro x hx
    exact (List.mem_append.mp hx).elim (audPrefix_noIdr b x) (hpre x)
  have hmem : ∀ x ∈ pre, x ∈ pre ++ idr :: post := fun x ↦ List.mem_append_left _
  have hcomplete : Complete isIdr c.sets (pre ++ idr :: post) (audPrefix b ++ (pre ++ idr :: post)) ↔
      Has isSps pre ∧ Has isPps pre := by
    rw [← List.append_assoc, complete_iff rfl hidr hfront, H264Codec.sets, List.forall_mem_cons,
      List.forall_mem_singleton]
    exact and_congr (found_own_iff (show isSps defaultAudNalu = false by decide) b hmem)
      (found_own_iff (show isPps defaultAudNalu = false by decide) b hmem)
  constructor
  · rintro ⟨out, hout', -, hc⟩
    cases hout.symm.trans hout'
    exact hcomplete.mp hc
  · intro hboth
    exact ⟨_, hout, hsub, hcomplete.mpr hboth⟩

theorem right_inserted_iff (c : H264Ready) (hpre : ∀ x ∈ pre, isIdr x = false) (hidr : isIdr idr = true)
    (hsps : ¬ Has isSps pre) (hpps : ¬ Has isPps pre) :
    H264Right h264Nalus c.toH264Codec (pre ++ idr :: post) ↔
      c.spsNalu.Survives ((pre ++ idr :: post).filter isSps) ∧
        c.ppsNalu.Survives ((pre ++ idr :: post).filter isPps) := by
  obtain ⟨b, hout⟩ := packetised_inserted c post hpre hidr hsps hpps
  -- what the list is when both views can be read
  have hlist {x y : Bytes}
      (hx : (((pre ++ idr :: post).filter isSps).foldl Storage.assign c.spsNalu).read c.spsNalu.view = some x)
      (hy : (((pre ++ idr :: post).filter isPps).foldl Storage.assign c.ppsNalu).read c.ppsNalu.view = some y) :
      h264Nalus c.toH264Codec (pre ++ idr :: post) = some (audPrefix b ++ (pre ++ [x, y]) ++ idr :: post) ∧
        (Complete isIdr c.sets (pre ++ idr :: post) (audPrefix b ++ (pre ++ [x, y]) ++ idr :: post) ↔
          x ∈ c.spsNalu.value :: (pre ++ idr :: post).filter isSps ∧
            y ∈ c.ppsNalu.value :: (pre ++ idr :: post).filter isPps) := by
    have hxk := read_isSps c.sps_ok hx
    have hyk := read_isPps c.pps_ok hy
    have hfront : ∀ z ∈ audPrefix b ++ (pre ++ [x, y]), isIdr z = false := by
      simp only [List.mem_append, List.mem_cons, List.not_mem_nil, or_false]
      rintro z (hz | hz | rfl | rfl)
      · exact audPrefix_noIdr b z hz
      · exact hpre z hz
      · exact not_idr_of_sps hxk
      · exact not_idr_of_pps hyk
    refine ⟨?_, ?_⟩
    · rw [hout, hx, hy]
      simp
    · rw [complete_iff rfl hidr hfront, H264Codec.sets, List.forall_mem_cons, List.forall_mem_singleton]
      have hsps' : ¬ Has isSps (audPrefix b ++ pre) := by
        rw [has_append, not_or]
        exact ⟨audPrefix_kind (by decide) b, hsps⟩
      have hpps' : ¬ Has isPps (audPrefix b ++ (pre ++ [x])) := by
        rw [has_append, has_append, not_or, not_or, has_cons, not_pps_of_sps hxk]
        exact ⟨audPrefix_kind (by decide) b, hpps, by simp [Has]⟩
      have hbehind : ¬ Has isSps [y] := by
        rw [has_cons, not_sps_of_pps hyk]
        simp [Has]
      have hnone : ¬ Has isPps [] := by simp [Has]
      exact and_congr
        (found_iff (show _ = (audPrefix b ++ pre) ++ x :: [y] by simp) hsps' hbehind hxk)
        (found_iff (show _ = (audPrefix b ++ (pre ++ [x])) ++ y :: [] by simp) hpps' hnone hyk)
  constructor
  · rintro ⟨out, hout', -, hc⟩
    obtain ⟨x, hx, hmap⟩ := Option.bind_eq_some_iff.mp (hout.symm.trans hout')
    obtain ⟨y, hy, -⟩ := Option.map_eq_some_iff.mp hmap
    obtain ⟨hsome, hiff⟩ := hlist hx hy
    cases hsome.symm.trans hout'
    obtain ⟨hx', hy'⟩ := hiff.mp hc
    exact ⟨⟨x, hx', hx⟩, ⟨y, hy', hy⟩⟩
  · rintro ⟨⟨x, hx', hx⟩, ⟨y, hy', hy⟩⟩
    obtain ⟨hsome, hiff⟩ := hlist hx hy
    refine ⟨_, hsome, ?_, hiff.mpr ⟨hx', hy'⟩⟩
    exact ((List.sublist_append_left pre _).trans (List.sublist_append_right _ _)).append (.refl _)

theorem h264_right_iff (c : H264Ready) (nalus : List Bytes) :
    H264Right h264Nalus c.toH264Codec nalus ↔ c.Suffices nalus := by
  by_cases hidr : Has isIdr nalus
  · obtain ⟨pre, idr, post, rfl, hkey, hpre⟩ := exists_first hidr
    rw [H264Codec.Suffices, beforeKey_append hpre hkey]
    by_cases hone : Has isSps pre ∨ Has isPps pre
    · rw [right_own_iff c.toH264Codec hpre hkey hone]
      constructor
      · exact fun h _ ↦ .inl h
      · intro h
        rcases h hidr with h | ⟨hs, hp, -⟩
        · exact h
        · exact absurd hone (not_or.mpr ⟨hs, hp⟩)
    · obtain ⟨hs, hp⟩ := not_or.mp hone
      rw [right_inserted_iff c hpre hkey hs hp]
      constructor
      · exact fun h _ ↦ .inr ⟨hs, hp, h⟩
      · intro h
        rcases h hidr with h | ⟨-, -, h⟩
        · exact absurd h.1 hs
        · exact h
  · obtain ⟨b, hout⟩ := packetised_own c.toH264Codec (run_noIdr c.toH264Codec hidr)
    refine iff_of_true ⟨_, hout, List.sublist_append_right _ _, ?_⟩ ?_
    · exact fun h ↦ absurd h hidr
    · exact fun h ↦ absurd h hidr

end H264

section H265

variable {nalus : List Bytes}

theorem isHevcSps_of_vps {x : Bytes} (h : isHevcVps x = true) : isHevcSps x = false := by
  simp_all [isHevcVps, isHevcSps]

theorem isHevcPps_of_vps {x : Bytes} (h : isHevcVps x = true) : isHevcPps x = false := by
  simp_all [isHevcVps, isHevcPps]

theorem isHevcPps_of_sps {x : Bytes} (h : isHevcSps x = true) : isHevcPps x = false := by
  simp_all [isHevcSps, isHevcPps]

theorem isIrap_of_vps {x : Bytes} (h : isHevcVps x = true) : isIrap x = false := by
  simp_all [isHevcVps, isIrap]

theorem isIrap_of_sps {x : Bytes} (h : isHevcSps x = true) : isIrap x = false := by
  simp_all [isHevcSps, isIrap]

theorem isIrap_of_pps {x : Bytes} (h : isHevcPps x = true) : isIrap x = false := by
  simp_all [isHevcPps, isIrap]

/-- The order in which the bridges ask for the type makes no difference. -/
theorem visitHevc_eq : RtmpToRtsp.visitHevc = RtmpToTs.visitHevc := by
  funext s x
  rw [RtmpToRtsp.visitHevc, RtmpToTs.visitHevc]
  by_cases hvps : isHevcVps x = true
  · simp [hvps, isHevcSps_of_vps hvps, isHevcPps_of_vps hvps]
  · simp [hvps]

theorem foldl_visitHevc (s : HevcScan) (nalus : List Bytes) :
    nalus.foldl RtmpToTs.visitHevc s =
      { codec :=
          { vpsNalu := (nalus.filter isHevcVps).getLastD s.codec.vpsNalu
            spsNalu := (nalus.filter isHevcSps).getLastD s.codec.spsNalu
            ppsNalu := (nalus.filter isHevcPps).getLastD s.codec.ppsNalu }
        hasVpsNalu := s.hasVpsNalu || nalus.any isHevcVps
        hasSpsNalu := s.hasSpsNalu || nalus.any isHevcSps
        hasPpsNalu := s.hasPpsNalu || nalus.any isHevcPps
        hasKeyNalu := s.hasKeyNalu || nalus.any isIrap } := by
  induction nalus generalizing s with
  | nil => simp
  | cons x nalus ih =>
    rw [List.foldl_cons, ih, RtmpToTs.visitHevc]
    by_cases hvps : isHevcVps x = true
    · simp [hvps, isHevcSps_of_vps hvps, isHevcPps_of_vps hvps, isIrap_of_vps hvps,
        -List.getLastD_eq_getLast?, List.getLastD_cons]
    · by_cases hsps : isHevcSps x = true
      · simp [hvps, hsps, isHevcPps_of_sps hsps, isIrap_of_sps hsps, -List.getLastD_eq_getLast?,
          List.getLastD_cons]
      · by_cases hpps : isHevcPps x = true
        · simp [hvps, hsps, hpps, isIrap_of_pps hpps, -List.getLastD_eq_getLast?, List.getLastD_cons]
        · by_cases hkey : isIrap x = true
          · simp [hvps, hsps, hpps, hkey]
          · simp [hvps, hsps, hpps, hkey]

theorem readMemory_length (s : Bytes) (behind : ℕ → UInt8) (size : ℕ) :
    (readMemory s behind size).length = size := by
  rw [readMemory, List.length_append, List.length_take, List.length_map, List.length_range]
  omega

theorem readMemory_eq_iff (s : Bytes) (behind : ℕ → UInt8) (size : ℕ) :
    readMemory s behind size = s ↔ size = s.length := by
  constructor
  · intro h
    rw [← readMemory_length s behind size, h]
  · rintro rfl
    rw [readMemory, List.take_length, Nat.sub_self, List.range_zero, List.map_nil, List.append_nil]

theorem readMemory_head {s : Bytes} (behind : ℕ → UInt8) {size : ℕ} (hs : s ≠ []) (hsize : size ≠ 0) :
    (readMemory s behind size).head? = s.head? := by
  obtain ⟨b, t, rfl⟩ := List.exists_cons_of_ne_nil hs
  obtain ⟨n, rfl⟩ := Nat.exists_eq_succ_of_ne_zero hsize
  rfl

/-- The units are kept in order, a random access point has its parameter sets, and what
is inserted is a stored one. -/
structure H265Right (c : HevcCodec) (nalus out : List Bytes) : Prop where
  kept : nalus.Sublist out
  complete : Complete isIrap c.sets nalus out
  stored : ∀ x ∈ out, x ∈ nalus ∨ ∃ s ∈ c.sets, x = s.stored

/-- Each set stands before the random access point or nowhere. A VPS that is missing has
the length of the SPS that is stored last. -/
def HevcCodec.Suffices (c : HevcCodec) (nalus : List Bytes) : Prop :=
  Has isIrap nalus →
    (Has isHevcVps nalus → Has isHevcVps (beforeKey isIrap nalus)) ∧
    (Has isHevcSps nalus → Has isHevcSps (beforeKey isIrap nalus)) ∧
    (Has isHevcPps nalus → Has isHevcPps (beforeKey isIrap nalus)) ∧
    (¬ Has isHevcVps nalus →
      ((nalus.filter isHevcSps).getLastD c.spsNalu).length = c.vpsNalu.length)

def HevcCodec.lastSps (c : HevcCodec) (nalus : List Bytes) : Bytes :=
  (nalus.filter isHevcSps).getLastD c.spsNalu

theorem lastSps_ne (c : HevcReady) (nalus : List Bytes) : c.lastSps nalus ≠ [] := by
  have hsps : isHevcSps (c.lastSps nalus) = true := by
    have hmem : c.lastSps nalus ∈ c.spsNalu :: nalus.filter isHevcSps := List.getLastD_mem_cons
    rcases List.mem_cons.mp hmem with h | h
    · rw [h]
      exact c.sps_ok
    · exact (List.mem_filter.mp h).2
  intro h
  rw [h] at hsps
  exact absurd hsps (by decide)

def HevcCodec.vpsView (c : HevcCodec) (behind : ℕ → UInt8) (nalus : List Bytes) : Bytes :=
  readMemory c.vpsNalu behind (c.lastSps nalus).length

theorem isHevcVps_view (c : HevcReady) (behind : ℕ → UInt8) (nalus : List Bytes) :
    isHevcVps (c.vpsView behind nalus) = true := by
  have hne : c.vpsNalu ≠ [] := fun h ↦ absurd (h ▸ c.vps_ok) (by decide)
  have hsize : (c.lastSps nalus).length ≠ 0 := fun h ↦ lastSps_ne c nalus (List.length_eq_zero_iff.mp h)
  have hhead := h265NaluType_congr (readMemory_head behind hne hsize)
  have hvps : isHevcVps (c.vpsView behind nalus) = isHevcVps c.vpsNalu :=
    congrArg (fun t : ℕ ↦ decide (t = 32)) hhead
  exact hvps.trans c.vps_ok

def missingOf (isKind : Bytes → Bool) (nalus : List Bytes) (x : Bytes) : List Bytes :=
  if nalus.any isKind then [] else [x]

theorem mem_missingOf {isKind : Bytes → Bool} {x z : Bytes} (h : z ∈ missingOf isKind nalus x) :
    z = x ∧ ¬ Has isKind nalus := by
  unfold missingOf at h
  split at h
  · cases h
  · rename_i hany
    exact ⟨List.mem_singleton.mp h, fun hhas ↦ hany (any_eq_true hhas)⟩

theorem missingOf_kind {isKind : Bytes → Bool} {x z : Bytes} (h : z ∈ missingOf isKind nalus x)
    (hx : isKind x = true) : isKind z = true := (mem_missingOf h).1 ▸ hx

theorem missingOf_self {isKind : Bytes → Bool} {x : Bytes} (h : ¬ Has isKind nalus) :
    x ∈ missingOf isKind nalus x := by
  rw [missingOf, any_eq_false h]
  exact List.mem_singleton_self x

theorem missingOf_last (isKind : Bytes → Bool) (f : Bytes → Bytes) (d : Bytes) :
    (if nalus.any isKind then [] else [f ((nalus.filter isKind).getLastD d)]) =
      missingOf isKind nalus (f d) := by
  unfold missingOf
  split
  · rfl
  · rename_i hany
    rw [filter_eq_nil fun h ↦ hany (any_eq_true h)]
    rfl

theorem hevcNalus_irap (c : HevcCodec) (behind : ℕ → UInt8) (h : Has isIrap nalus) :
    RtmpToTs.processH265Packet c behind nalus =
      missingOf isHevcVps nalus (c.vpsView behind nalus) ++ missingOf isHevcSps nalus c.spsNalu ++
        missingOf isHevcPps nalus c.ppsNalu ++ nalus := by
  rw [RtmpToTs.processH265Packet, hevcNalus, foldl_visitHevc]
  simp only [any_eq_true h, Bool.or_true, if_true, HevcScan.missing, Bool.false_or]
  refine congrArg (· ++ nalus) (congrArg₂ _ (congrArg₂ _ ?_ ?_) ?_)
  · exact missingOf_last isHevcVps (readMemory · behind (c.lastSps nalus).length) c.vpsNalu
  · exact missingOf_last isHevcSps id c.spsNalu
  · exact missingOf_last isHevcPps id c.ppsNalu

theorem hevcNalus_other (c : HevcCodec) (behind : ℕ → UInt8) (h : ¬ Has isIrap nalus) :
    RtmpToTs.processH265Packet c behind nalus = nalus := by
  rw [RtmpToTs.processH265Packet, hevcNalus, foldl_visitHevc]
  simp [any_eq_false h]

/-- Where a missing set is inserted, one of its kind is found if it stood before the random
access point, or if the unit had none and the stored one was inserted. -/
theorem found_missing_iff {isKind : Bytes → Bool} {front pre : List Bytes} {x stored : Bytes}
    (hfront : ∀ z, isKind z = true → (z ∈ front ↔ z ∈ missingOf isKind nalus x ∨ z ∈ pre))
    (hpre : ∀ z ∈ pre, z ∈ nalus) (hx : isKind x = true) :
    (∃ z ∈ front, isKind z = true ∧ (z ∈ nalus ∨ z = stored)) ↔
      (Has isKind nalus → Has isKind pre) ∧ (¬ Has isKind nalus → x = stored) := by
  constructor
  · rintro ⟨z, hz, hk, hfrom⟩
    rcases (hfront z hk).mp hz with hz | hz
    · obtain ⟨rfl, hno⟩ := mem_missingOf hz
      refine ⟨fun h ↦ absurd h hno, fun _ ↦ ?_⟩
      exact hfrom.resolve_left fun h ↦ hno ⟨z, h, hk⟩
    · exact ⟨fun _ ↦ ⟨z, hz, hk⟩, fun h ↦ absurd ⟨z, hpre z hz, hk⟩ h⟩
  · rintro ⟨hhas, hno⟩
    by_cases h : Has isKind nalus
    · obtain ⟨z, hz, hk⟩ := hhas h
      exact ⟨z, (hfront z hk).mpr (.inr hz), hk, .inl (hpre z hz)⟩
    · exact ⟨x, (hfront x hx).mpr (.inl (missingOf_self h)), hx, .inr (hno h)⟩

section Front

variable (c : HevcReady) {x : Bytes} (hvps : isHevcVps x = true) (pre : List Bytes)

def hevcFront (c : HevcCodec) (x : Bytes) (nalus pre : List Bytes) : List Bytes :=
  missingOf isHevcVps nalus x ++ missingOf isHevcSps nalus c.spsNalu ++
    missingOf isHevcPps nalus c.ppsNalu ++ pre

theorem mem_hevcFront {c : HevcCodec} {z : Bytes} :
    z ∈ hevcFront c x nalus pre ↔ ((z ∈ missingOf isHevcVps nalus x ∨
      z ∈ missingOf isHevcSps nalus c.spsNalu) ∨ z ∈ missingOf isHevcPps nalus c.ppsNalu) ∨ z ∈ pre := by
  simp only [hevcFront, List.mem_append]

theorem hevcFront_vps (z : Bytes) (hz : isHevcVps z = true) :
    z ∈ hevcFront c.toHevcCodec x nalus pre ↔ z ∈ missingOf isHevcVps nalus x ∨ z ∈ pre := by
  have hsps : z ∉ missingOf isHevcSps nalus c.spsNalu := fun h ↦ by
    simpa [isHevcSps_of_vps hz] using missingOf_kind h c.sps_ok
  have hpps : z ∉ missingOf isHevcPps nalus c.ppsNalu := fun h ↦ by
    simpa [isHevcPps_of_vps hz] using missingOf_kind h c.pps_ok
  rw [mem_hevcFront, or_iff_left hsps, or_iff_left hpps]

include hvps

theorem hevcFront_noIrap (hpre : ∀ z ∈ pre, isIrap z = false) :
    ∀ z ∈ hevcFront c.toHevcCodec x nalus pre, isIrap z = false := by
  intro z hz
  rcases (mem_hevcFront pre).mp hz with ((hz | hz) | hz) | hz
  · exact isIrap_of_vps (missingOf_kind hz hvps)
  · exact isIrap_of_sps (missingOf_kind hz c.sps_ok)
  · exact isIrap_of_pps (missingOf_kind hz c.pps_ok)
  · exact hpre z hz

theorem hevcFront_sps (z : Bytes) (hz : isHevcSps z = true) :
    z ∈ hevcFront c.toHevcCodec x nalus pre ↔ z ∈ missingOf isHevcSps nalus c.spsNalu ∨ z ∈ pre := by
  have hno : z ∉ missingOf isHevcVps nalus x := fun h ↦ by
    simpa [hz] using isHevcSps_of_vps (missingOf_kind h hvps)
  have hpps : z ∉ missingOf isHevcPps nalus c.ppsNalu := fun h ↦ by
    simpa [isHevcPps_of_sps hz] using missingOf_kind h c.pps_ok
  rw [mem_hevcFront, or_iff_right hno, or_iff_left hpps]

theorem hevcFront_pps (z : Bytes) (hz : isHevcPps z = true) :
    z ∈ hevcFront c.toHevcCodec x nalus pre ↔ z ∈ missingOf isHevcPps nalus c.ppsNalu ∨ z ∈ pre := by
  have hno : z ∉ missingOf isHevcVps nalus x := fun h ↦ by
    simpa [hz] using isHevcPps_of_vps (missingOf_kind h hvps)
  have hsps : z ∉ missingOf isHevcSps nalus c.spsNalu := fun h ↦ by
    simpa [hz] using isHevcPps_of_sps (missingOf_kind h c.sps_ok)
  rw [mem_hevcFront, or_iff_right hno, or_iff_right hsps]

end Front

theorem h265_right_iff (c : HevcReady) (behind : ℕ → UInt8) (nalus : List Bytes) :
    H265Right c.toHevcCodec nalus (RtmpToTs.processH265Packet c.toHevcCodec behind nalus) ↔
      c.Suffices nalus := by
  by_cases hirap : Has isIrap nalus
  · obtain ⟨pre, key, post, hnalus, hkey, hpre⟩ := exists_first hirap
    have hvps := isHevcVps_view c behind nalus
    have hlen := readMemory_eq_iff c.vpsNalu behind (c.lastSps nalus).length
    have hmem : ∀ z ∈ pre, z ∈ nalus := fun z hz ↦ hnalus ▸ List.mem_append_left _ hz
    have hout : RtmpToTs.processH265Packet c.toHevcCodec behind nalus =
        hevcFront c.toHevcCodec (c.vpsView behind nalus) nalus pre ++ key :: post := by
      rw [hevcNalus_irap _ _ hirap, hevcFront, List.append_assoc _ pre, ← hnalus]
    have hcomplete : Complete isIrap c.sets nalus (RtmpToTs.processH265Packet c.toHevcCodec behind nalus) ↔
        ((Has isHevcVps nalus → Has isHevcVps pre) ∧ (¬ Has isHevcVps nalus → c.vpsView behind nalus = c.vpsNalu)) ∧
          ((Has isHevcSps nalus → Has isHevcSps pre) ∧ (¬ Has isHevcSps nalus → c.spsNalu = c.spsNalu)) ∧
          (Has isHevcPps nalus → Has isHevcPps pre) ∧ (¬ Has isHevcPps nalus → c.ppsNalu = c.ppsNalu) := by
      rw [hout, complete_iff hnalus hkey (hevcFront_noIrap c hvps pre hpre), HevcCodec.sets,
        List.forall_mem_cons, List.forall_mem_cons, List.forall_mem_singleton]
      exact and_congr (found_missing_iff (hevcFront_vps c pre) hmem hvps)
        (and_congr (found_missing_iff (hevcFront_sps c hvps pre) hmem c.sps_ok)
          (found_missing_iff (hevcFront_pps c hvps pre) hmem c.pps_ok))
    have hbefore : beforeKey isIrap nalus = pre := by rw [hnalus, beforeKey_append hpre hkey]
    rw [HevcCodec.Suffices, hbefore]
    constructor
    · intro h _
      obtain ⟨⟨hv, hview⟩, ⟨hs, -⟩, hp, -⟩ := hcomplete.mp h.complete
      exact ⟨hv, hs, hp, fun hno ↦ hlen.mp (hview hno)⟩
    · intro h
      obtain ⟨hv, hs, hp, hview⟩ := h hirap
      have hview' : ¬ Has isHevcVps nalus → c.vpsView behind nalus = c.vpsNalu := fun hno ↦ hlen.mpr (hview hno)
      refine ⟨?_, hcomplete.mpr ⟨⟨hv, hview'⟩, ⟨hs, fun _ ↦ rfl⟩, hp, fun _ ↦ rfl⟩, ?_⟩
      · rw [hevcNalus_irap _ _ hirap]
        exact List.sublist_append_right _ _
      · intro z hz
        rw [hevcNalus_irap _ _ hirap] at hz
        simp only [List.mem_append] at hz
        rcases hz with ((hz | hz) | hz) | hz
        · obtain ⟨rfl, hno⟩ := mem_missingOf hz
          exact .inr ⟨_, List.mem_cons_self, hview' hno⟩
        · exact .inr ⟨_, List.mem_cons_of_mem _ List.mem_cons_self, (mem_missingOf hz).1⟩
        · exact .inr ⟨_, List.mem_cons_of_mem _ (List.mem_cons_of_mem _ List.mem_cons_self), (mem_missingOf hz).1⟩
        · exact .inl hz
  · rw [hevcNalus_other _ _ hirap]
    refine iff_of_true ⟨.refl _, ?_, fun x hx ↦ .inl hx⟩ ?_
    · exact fun h ↦ absurd h hirap
    · exact fun h ↦ absurd h hirap

/-- When the list that a bridge packetises has the parameter sets a random access point
needs, for each of the two bridges and the two codecs. -/
theorem parameterSets_iff (c : H264Ready) (hevc : HevcReady) (behind : ℕ → UInt8) (nalus : List Bytes) :
    (H264Right RtmpToTs.processH264Packet c.toH264Codec nalus ↔ c.Suffices nalus) ∧
      (H264Right RtmpToRtsp.processH264Packet c.toH264Codec nalus ↔ c.Suffices nalus) ∧
      (H265Right hevc.toHevcCodec nalus (RtmpToTs.processH265Packet hevc.toHevcCodec behind nalus) ↔
        hevc.Suffices nalus) ∧
      (H265Right hevc.toHevcCodec nalus (RtmpToRtsp.processH265Packet hevc.toHevcCodec behind nalus) ↔
        hevc.Suffices nalus) := by
  have hrtsp : RtmpToRtsp.processH265Packet = RtmpToTs.processH265Packet := by
    rw [RtmpToRtsp.processH265Packet, visitHevc_eq]
    rfl
  rw [hrtsp]
  exact ⟨h264_right_iff c nalus, h264_right_iff c nalus, h265_right_iff hevc behind nalus,
    h265_right_iff hevc behind nalus⟩

def storedHevcSets : HevcReady where
  vpsNalu := [0x40, 1]
  spsNalu := [0x42, 1]
  ppsNalu := [0x44, 1]
  vps_ok := rfl
  sps_ok := rfl
  pps_ok := rfl

/-- A unit with none of the sets gets all of them, if the VPS is as long as the SPS. -/
example (behind : ℕ → UInt8) : H265Right storedHevcSets.toHevcCodec [[0x26, 1]]
    (RtmpToTs.processH265Packet storedHevcSets.toHevcCodec behind [[0x26, 1]]) := by
  refine (h265_right_iff storedHevcSets behind [[0x26, 1]]).mpr fun _ ↦ ?_
  simp [Has, storedHevcSets, isHevcVps, isHevcSps, isHevcPps, h265NaluType]

def storedSets : H264Ready where
  spsNalu := { value := [0x67, 1] }
  ppsNalu := { value := [0x68, 2] }
  sps_ok := rfl
  pps_ok := rfl

/-- The unit brings an SPS of its own and no PPS. -/
theorem spsOnly_not_right : ¬ H264Right RtmpToTs.processH264Packet storedSets.toH264Codec [[0x67, 1], [0x65, 3]] := by
  intro h
  have hsps : Has isSps [[0x67, 1]] := ⟨[0x67, 1], List.mem_singleton_self _, rfl⟩
  have hboth := (@right_own_iff [[0x67, 1]] [] [0x65, 3] storedSets.toH264Codec (by decide) (by decide)
    (.inl hsps)).mp h
  exact absurd hboth.2 (by unfold Has; decide)

end H265

end MmsServer.Rtmp.ParameterSets
