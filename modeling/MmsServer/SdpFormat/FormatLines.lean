import MmsServer.Lib.Attach
import MmsServer.SdpFormat.MediaSection

namespace MmsServer.SdpFormat.FormatLines

open Lib.Attach Lib.ByteReader Lib.KeyedList Lib.Text Attributes MediaSection

abbrev Format := RtcpFb ⊕ Fmtp

def Format.pt : Format → BitVec 32
  | .inl fb => fb.pt
  | .inr fmtp => fmtp.pt

def formatLine (line : Bytes) : Option (Line (BitVec 32) Format) :=
  if startsWith line Payload.pfx then (Payload.parse line).map fun p ↦ .head p.payloadType
  else if startsWith line RtcpFb.pfx then (RtcpFb.parse line).map fun fb ↦ .item (.inl fb)
  else if startsWith line Fmtp.pfx then (Fmtp.parse line).map fun fmtp ↦ .item (.inr fmtp)
  else none

def IsFormat (line : Bytes) : Prop :=
  startsWith line Payload.pfx ∨ startsWith line RtcpFb.pfx ∨ startsWith line Fmtp.pfx

/-- A line of the three kinds that its class accepts, or any other line. -/
def Accepted (line : Bytes) : Prop := IsFormat line → (formatLine line).isSome

instance (line : Bytes) : Decidable (Accepted line) :=
  inferInstanceAs (Decidable (startsWith line Payload.pfx ∨ startsWith line RtcpFb.pfx ∨
    startsWith line Fmtp.pfx → (formatLine line).isSome))

def hold (p : Payload) : Format → Payload
  | .inl fb => { p with rtcpFbs := p.rtcpFbs ++ [fb] }
  | .inr fmtp => { p with fmtps := insertNew fmtp.pt fmtp p.fmtps }

section Step

variable {mem : Garbage} {m : MediaSdp} {line : Bytes}

def earlier : List Bytes :=
  [iceUfrag.pfx, icePwd.pfx, iceOption.pfx, Extmap.pfx, ascii "a=recvonly", ascii "a=sendonly",
    ascii "a=sendrecv", ConnectionInfo.pfx, midAttr.pfx, BandWidth.pfx]

theorem not_earlier (h : IsFormat line) : ∀ b ∈ earlier, startsWith line b = false := by
  have hclash : ∀ a ∈ [Payload.pfx, RtcpFb.pfx, Fmtp.pfx], ∀ b ∈ earlier, ¬ a <+: b ∧ ¬ b <+: a := by
    decide
  intro b hb
  obtain h | h | h := h
  · obtain ⟨hab, hba⟩ := hclash Payload.pfx (by simp) b hb
    exact startsWith_clash h hab hba
  · obtain ⟨hab, hba⟩ := hclash RtcpFb.pfx (by simp) b hb
    exact startsWith_clash h hab hba
  · obtain ⟨hab, hba⟩ := hclash Fmtp.pfx (by simp) b hb
    exact startsWith_clash h hab hba

theorem parseAttr_format (h : IsFormat line) : m.parseAttr mem line =
    if startsWith line Payload.pfx then m.parseRtpmap line
    else if startsWith line RtcpFb.pfx then m.attach (m.currPayload.parseRtcpFbAttr line)
    else m.attach (m.currPayload.parseFmtpAttr line) := by
  have hno := not_earlier h
  simp only [earlier, List.forall_mem_cons] at hno
  obtain ⟨h1, h2, h3, h4, h5, h6, h7, h8, h9, h10, -⟩ := hno
  rw [IsFormat] at h
  simp only [MediaSdp.parseAttr, DirAttr.isMyPrefix, h1, h2, h3, h4, h5, h6, h7, h8, h9, h10,
    Bool.or_false, Bool.false_eq_true, if_false]
  split
  · rfl
  · rename_i hmap
    split
    · rfl
    · rename_i hfb
      rw [if_pos ((h.resolve_left hmap).resolve_left hfb)]

theorem isFormat_of_formatLine {l : Line (BitVec 32) Format} (h : formatLine line = some l) :
    IsFormat line := by
  rw [formatLine] at h
  split at h
  · rename_i hs
    exact .inl hs
  · split at h
    · rename_i hs
      exact .inr (.inl hs)
    · split at h
      · rename_i hs
        exact .inr (.inr hs)
      · cases h

theorem payload_parse_new {p : Payload} (h : Payload.parse line = some p) :
    p.rtcpFbs = [] ∧ p.fmtps = [] := by
  rw [Payload.parse] at h
  split at h
  · split at h
    · cases h
      exact ⟨rfl, rfl⟩
    · cases h
  · cases h

theorem step_head (mem : Garbage) (m : MediaSdp) {k : BitVec 32} (h : formatLine line = some (.head k)) :
    ∃ p : Payload, p.payloadType = k ∧ p.rtcpFbs = [] ∧ p.fmtps = [] ∧
      (m.parseAttr mem line).2.currPt = k ∧
      (m.parseAttr mem line).2.payloads = insertNew k p m.payloads := by
  rw [parseAttr_format (isFormat_of_formatLine h)]
  rw [formatLine] at h
  split at h
  · rename_i hs
    obtain ⟨p, hp, hk⟩ := Option.map_eq_some_iff.mp h
    cases hk
    obtain ⟨hfbs, hfmtps⟩ := payload_parse_new hp
    rw [if_pos hs, MediaSdp.parseRtpmap, hp]
    exact ⟨p, rfl, hfbs, hfmtps, rfl, rfl⟩
  · split at h
    · obtain ⟨fb, -, hx⟩ := Option.map_eq_some_iff.mp h
      cases hx
    · split at h
      · obtain ⟨fmtp, -, hx⟩ := Option.map_eq_some_iff.mp h
        cases hx
      · cases h

theorem step_item {x : Format} (h : formatLine line = some (.item x)) :
    (m.parseAttr mem line).2 = m.setCurrPayload (hold m.currPayload x) := by
  rw [parseAttr_format (isFormat_of_formatLine h)]
  rw [formatLine] at h
  split at h
  · obtain ⟨p, -, hx⟩ := Option.map_eq_some_iff.mp h
    cases hx
  · rename_i hmap
    rw [if_neg hmap]
    split at h
    · rename_i hs
      obtain ⟨fb, hfb, hx⟩ := Option.map_eq_some_iff.mp h
      cases hx
      rw [if_pos hs, Payload.parseRtcpFbAttr, hfb]
      rfl
    · rename_i hfb
      rw [if_neg hfb]
      split at h
      · obtain ⟨fmtp, hf, hx⟩ := Option.map_eq_some_iff.mp h
        cases hx
        rw [Payload.parseFmtpAttr, hf]
        rfl
      · cases h

theorem step_other (mem : Garbage) (m : MediaSdp) (h : formatLine line = none) (ha : Accepted line) :
    (m.parseAttr mem line).2.currPt = m.currPt ∧
      (m.parseAttr mem line).2.payloads = m.payloads := by
  have hno : ¬ IsFormat line := fun hf ↦ by
    have := ha hf
    rw [h] at this
    cases this
  rw [IsFormat, not_or, not_or] at hno
  obtain ⟨h1, h2, h3⟩ := hno
  have hframe {β : Type} (f : MediaSdp → β)
      (hf : ∀ m' : MediaSdp, m'.currPt = m.currPt → m'.payloads = m.payloads → f m' = f m) :
      f (m.parseAttr mem line).2 = f m := by
    simp only [MediaSdp.parseAttr, h1, h2, h3, Bool.false_eq_true, if_false]
    repeat' apply MediaSdp.ite_frame
    all_goals first
      | exact hf _ rfl rfl
      | exact MediaSdp.store_frame f fun _ ↦ hf _ rfl rfl
  exact ⟨hframe MediaSdp.currPt fun _ hc _ ↦ hc, hframe MediaSdp.payloads fun _ _ hp ↦ hp⟩

end Step

section Run

variable {mem : ℕ → Garbage} {i : ℕ} {m : MediaSdp} {lines : List Bytes} {p : BitVec 32}

def formatLines (lines : List Bytes) : List (Line (BitVec 32) Format) := lines.filterMap formatLine

def insertAll (fmtps : List Fmtp) (m : List (BitVec 32 × Fmtp)) : List (BitVec 32 × Fmtp) :=
  fmtps.foldl (fun m f ↦ insertNew f.pt f m) m

def payloadAt (m : MediaSdp) (p : BitVec 32) : Payload := (m.payloads.lookup p).getD {}

theorem formatLines_cons {line : Bytes} {l : Line (BitVec 32) Format}
    (h : formatLine line = some l) : formatLines (line :: lines) = l :: formatLines lines :=
  List.filterMap_cons_some h

theorem formatLines_cons_none {line : Bytes} (h : formatLine line = none) :
    formatLines (line :: lines) = formatLines lines := List.filterMap_cons_none h

theorem run_isSome (mem : ℕ → Garbage) (i : ℕ) (hacc : ∀ line ∈ lines, Accepted line)
    (h : (m.payloads.lookup p).isSome ∨ p ∈ heads (formatLines lines)) :
    ((MediaSdp.parseAttrs mem i m lines).payloads.lookup p).isSome := by
  induction lines generalizing i m with
  | nil => exact h.resolve_right List.not_mem_nil
  | cons line lines ih =>
    obtain ⟨hline, hacc⟩ := List.forall_mem_cons.mp hacc
    refine ih (i + 1) hacc ?_
    cases hl : formatLine line with
    | none =>
      rw [(step_other (mem i) m hl hline).2]
      rwa [formatLines_cons_none hl] at h
    | some l =>
      rw [formatLines_cons hl] at h
      cases l with
      | head k =>
        obtain ⟨pl, -, -, -, -, hm⟩ := step_head (mem i) m hl
        rw [hm, insertNew, lookup_modify]
        by_cases hp : p = k
        · rw [if_pos hp]
          exact .inl rfl
        · rw [if_neg hp]
          exact h.imp_right fun h ↦ (List.mem_cons.mp h).resolve_left hp
      | item x =>
        rw [step_item hl, MediaSdp.setCurrPayload, assign, lookup_modify]
        refine h.imp_left fun h ↦ ?_
        split
        · rfl
        · exact h

theorem step_contents_head (mem : Garbage) {line : Bytes} {k : BitVec 32}
    (h : formatLine line = some (.head k)) :
    (payloadAt (m.parseAttr mem line).2 p).rtcpFbs = (payloadAt m p).rtcpFbs ∧
      (payloadAt (m.parseAttr mem line).2 p).fmtps = (payloadAt m p).fmtps := by
  obtain ⟨pl, -, hfbs, hfmtps, -, hm⟩ := step_head mem m h
  rw [payloadAt, payloadAt, hm, insertNew, lookup_modify]
  split
  · rename_i hp
    subst hp
    cases m.payloads.lookup p with
    | none => exact ⟨hfbs, hfmtps⟩
    | some q => exact ⟨rfl, rfl⟩
  · exact ⟨rfl, rfl⟩

theorem step_contents_item {line : Bytes} {x : Format} {mem : Garbage}
    (h : formatLine line = some (.item x)) :
    payloadAt (m.parseAttr mem line).2 p =
      if m.currPt = p then hold (payloadAt m p) x else payloadAt m p := by
  rw [step_item h, MediaSdp.setCurrPayload, payloadAt, assign, lookup_modify]
  by_cases hp : p = m.currPt
  · rw [if_pos hp, if_pos hp.symm, hp]
    rfl
  · rw [if_neg hp, if_neg (Ne.symm hp)]
    rfl

/-- Every line goes to the type of the last `rtpmap` line. -/
theorem run_contents (mem : ℕ → Garbage) (i : ℕ) (hacc : ∀ line ∈ lines, Accepted line) :
    (payloadAt (MediaSdp.parseAttrs mem i m lines) p).rtcpFbs =
        (payloadAt m p).rtcpFbs ++ sent Sum.getLeft? p m.currPt (formatLines lines) ∧
      (payloadAt (MediaSdp.parseAttrs mem i m lines) p).fmtps =
        insertAll (sent Sum.getRight? p m.currPt (formatLines lines)) (payloadAt m p).fmtps := by
  induction lines generalizing i m with
  | nil => exact ⟨(List.append_nil _).symm, rfl⟩
  | cons line lines ih =>
    obtain ⟨hline, hacc⟩ := List.forall_mem_cons.mp hacc
    obtain ⟨hfbs, hfmtps⟩ := ih (m := (m.parseAttr (mem i) line).2) (i + 1) hacc
    rw [MediaSdp.parseAttrs, hfbs, hfmtps]
    cases hl : formatLine line with
    | none =>
      obtain ⟨hc, hp⟩ := step_other (mem i) m hl hline
      rw [formatLines_cons_none hl, payloadAt, payloadAt, hc, hp]
      exact ⟨rfl, rfl⟩
    | some l =>
      rw [formatLines_cons hl]
      cases l with
      | head k =>
        obtain ⟨hf, hg⟩ := step_contents_head (m := m) (p := p) (mem i) hl
        obtain ⟨pl, -, -, -, hc, -⟩ := step_head (mem i) m hl
        rw [hf, hg, hc]
        exact ⟨rfl, rfl⟩
      | item x =>
        have hc : (m.parseAttr (mem i) line).2.currPt = m.currPt := by
          rw [step_item hl]
          rfl
        rw [step_contents_item hl, hc]
        simp only [sent, owned, List.filterMap_cons]
        by_cases hp : m.currPt = p
        · simp only [if_pos hp]
          cases x with
          | inl fb => exact ⟨List.append_assoc _ _ _, rfl⟩
          | inr fmtp => exact ⟨rfl, rfl⟩
        · simp only [if_neg hp, and_self]

/-- An entry is found under its own type where the lines stand behind the `rtpmap` lines
of their types. -/
theorem run_types {o : Option (BitVec 32)} (hacc : ∀ line ∈ lines, Accepted line)
    (hf : Follows Format.pt o (formatLines lines))
    (ho : ∀ k ∈ o, k = m.currPt ∧ (m.payloads.lookup k).isSome)
    (hm : ∀ p pl, m.payloads.lookup p = some pl → pl.payloadType = p) {pl : Payload}
    (h : (MediaSdp.parseAttrs mem i m lines).payloads.lookup p = some pl) : pl.payloadType = p := by
  induction lines generalizing i m o with
  | nil => exact hm p pl h
  | cons line lines ih =>
    obtain ⟨hline, hacc⟩ := List.forall_mem_cons.mp hacc
    cases hl : formatLine line with
    | none =>
      obtain ⟨hc, hp⟩ := step_other (mem i) m hl hline
      rw [formatLines_cons_none hl] at hf
      refine ih hacc hf ?_ ?_ h
      · rw [hc, hp]
        exact ho
      · rw [hp]
        exact hm
    | some l =>
      rw [formatLines_cons hl] at hf
      cases l with
      | head k =>
        obtain ⟨q, hq, -, -, hc, hp⟩ := step_head (mem i) m hl
        refine ih hacc hf ?_ ?_ h
        · rw [hc, hp]
          intro k' hk
          cases hk
          rw [insertNew, lookup_modify, if_pos rfl]
          exact ⟨rfl, rfl⟩
        · rw [hp]
          intro r pl hr
          rw [insertNew, lookup_modify] at hr
          split at hr
          · rename_i hrk
            rw [hrk, ← Option.some_inj.mp hr]
            cases hk : m.payloads.lookup k with
            | none => exact hq
            | some pl => exact hm k pl hk
          · exact hm r pl hr
      | item x =>
        obtain ⟨rfl, hf⟩ := hf
        obtain ⟨hcurr, hsome⟩ := ho _ rfl
        refine ih hacc hf ?_ ?_ h
        · rw [step_item hl]
          intro k hk
          cases hk
          refine ⟨hcurr, ?_⟩
          rw [MediaSdp.setCurrPayload, assign, lookup_modify, if_pos hcurr]
          rfl
        · rw [step_item hl]
          intro r pl hr
          rw [MediaSdp.setCurrPayload, assign, lookup_modify] at hr
          split at hr
          · rename_i hrc
            obtain ⟨pl', hpl⟩ := Option.isSome_iff_exists.mp hsome
            have htype := hm _ pl' hpl
            rw [hcurr] at hpl htype
            rw [hrc, ← Option.some_inj.mp hr, MediaSdp.currPayload, hpl, ← htype]
            cases x with
            | inl fb => rfl
            | inr fmtp => rfl
          · exact hm r pl hr

end Run

section Belong

variable {head : Bytes} {lines : List Bytes} {p c : BitVec 32}

def rtcpFbsOf (p : BitVec 32) (lines : List Bytes) : List RtcpFb :=
  named Sum.getLeft? RtcpFb.pt p (formatLines lines)

def fmtpsOf (p : BitVec 32) (lines : List Bytes) : List Fmtp :=
  named Sum.getRight? Fmtp.pt p (formatLines lines)

/-- The payload with type `p` holds the lines that name `p`, and no other. -/
def HoldsOwn (m : MediaSdp) (lines : List Bytes) (p : BitVec 32) : Prop :=
  ∃ pl, m.payloads.lookup p = some pl ∧ pl.payloadType = p ∧ pl.rtcpFbs = rtcpFbsOf p lines ∧
    pl.fmtps = (fmtpsOf p lines).map fun f ↦ (f.pt, f)

/-- Whatever a new section finds in memory, each type with an `rtpmap` line has its own lines. -/
def FormatsBelong (head : Bytes) (lines : List Bytes) : Prop :=
  ∀ mem m, MediaSdp.parse (mem 0) head = some m →
    ∀ p ∈ heads (formatLines lines), HoldsOwn (MediaSdp.parseAttrs mem 1 m lines) lines p

/-- Each `rtcp-fb` and `fmtp` line names the type of the last `rtpmap` line in front of
it, and no type has two `fmtp` lines. -/
def InOrder (lines : List Bytes) : Prop :=
  Follows Format.pt none (formatLines lines) ∧
    ∀ p ∈ heads (formatLines lines), (fmtpsOf p lines).length ≤ 1

instance (lines : List Bytes) : Decidable (InOrder lines) :=
  -- by the list of types, as there are too many types to try each
  have := List.decidableBAll (fun p ↦ (fmtpsOf p lines).length ≤ 1) (heads (formatLines lines))
  instDecidableAnd

theorem parse_new {mem : Garbage} {m : MediaSdp} (h : MediaSdp.parse mem head = some m) :
    m.currPt = mem.currPt ∧ m.payloads = [] := by
  rw [MediaSdp.parse] at h
  split at h
  · cases h
    exact ⟨rfl, rfl⟩
  · cases h

theorem insertAll_eq_map {fmtps : List Fmtp} (h : fmtps.length ≤ 1) :
    insertAll fmtps [] = fmtps.map fun f ↦ (f.pt, f) := by
  match fmtps with
  | [] => rfl
  | [f] => rfl
  | _ :: _ :: _ =>
    simp only [List.length_cons] at h
    omega

theorem mem_insertAll {fmtps : List Fmtp} {f : Fmtp} {m : List (BitVec 32 × Fmtp)}
    (h : f ∈ fmtps ∨ f.pt ∈ m.map Prod.fst) : f.pt ∈ (insertAll fmtps m).map Prod.fst := by
  induction fmtps generalizing m with
  | nil => exact h.resolve_left List.not_mem_nil
  | cons g fmtps ih =>
    refine ih ?_
    change f ∈ fmtps ∨ f.pt ∈ (modify g.pt g id m).map Prod.fst
    rw [keys_modify]
    obtain h | h := h
    · obtain rfl | h := List.mem_cons.mp h
      · right
        split
        · assumption
        · exact List.mem_append_right _ (List.mem_singleton_self _)
      · exact .inl h
    · right
      split
      · exact h
      · exact List.mem_append_left _ h

theorem nodup_insertAll (fmtps : List Fmtp) {m : List (BitVec 32 × Fmtp)}
    (h : (m.map Prod.fst).Nodup) : ((insertAll fmtps m).map Prod.fst).Nodup := by
  induction fmtps generalizing m with
  | nil => exact h
  | cons f fmtps ih => exact ih (nodup_keys_modify h)

theorem pt_of_mem_named {α : Type} {kind : Format → Option α} {own : α → BitVec 32} {a : α}
    {ls : List (Line (BitVec 32) Format)} (h : a ∈ named kind own p ls) : own a = p := by
  obtain ⟨x, -, hx⟩ := List.mem_filterMap.mp h
  exact of_decide_eq_true (Option.filter_eq_some_iff.mp hx).2

/-- A map of `fmtp` lines under their types has one line at most for each. -/
theorem fmtps_le_one (h : insertAll (sent Sum.getRight? p c (formatLines lines)) [] =
    (fmtpsOf p lines).map fun f ↦ (f.pt, f)) : (fmtpsOf p lines).length ≤ 1 := by
  have hnodup : ((fmtpsOf p lines).map Fmtp.pt).Nodup := by
    have := nodup_insertAll (sent Sum.getRight? p c (formatLines lines)) (m := []) List.nodup_nil
    rwa [h, List.map_map] at this
  have hrep : (fmtpsOf p lines).map Fmtp.pt = List.replicate (fmtpsOf p lines).length p :=
    List.eq_replicate_iff.mpr ⟨List.length_map _, fun q hq ↦ by
      obtain ⟨f, hf, rfl⟩ := List.mem_map.mp hq
      exact pt_of_mem_named hf⟩
  rw [hrep] at hnodup
  exact List.nodup_replicate.mp hnodup

theorem sent_fmtps (h : insertAll (sent Sum.getRight? p c (formatLines lines)) [] =
    (fmtpsOf p lines).map fun f ↦ (f.pt, f)) :
    (∀ f ∈ sent Sum.getRight? p c (formatLines lines), f.pt = p) ∧
      (sent Sum.getRight? p c (formatLines lines)).length = (fmtpsOf p lines).length := by
  have hown : ∀ f ∈ sent Sum.getRight? p c (formatLines lines), f.pt = p := by
    intro f hf
    have hmem := mem_insertAll (m := []) (.inl hf)
    rw [h, List.map_map] at hmem
    obtain ⟨g, hg, heq⟩ := List.mem_map.mp hmem
    exact heq.symm.trans (pt_of_mem_named hg)
  refine ⟨hown, ?_⟩
  have hle := length_sent_le Fmtp.pt hown
  have hone := fmtps_le_one h
  cases hsent : sent Sum.getRight? p c (formatLines lines) with
  | nil =>
    rw [hsent] at h
    rw [List.map_eq_nil_iff.mp h.symm]
  | cons f fs =>
    rw [hsent, List.length_cons] at hle
    rw [List.length_cons]
    rw [fmtpsOf] at hone ⊢
    omega

theorem holdsOwn_of_inOrder {mem : ℕ → Garbage} {i : ℕ} {m : MediaSdp} (hnew : m.payloads = [])
    (hacc : ∀ line ∈ lines, Accepted line) (h : InOrder lines) (hp : p ∈ heads (formatLines lines)) :
    HoldsOwn (MediaSdp.parseAttrs mem i m lines) lines p := by
  obtain ⟨hfollows, hone⟩ := h
  obtain ⟨pl, hpl⟩ := Option.isSome_iff_exists.mp
    (run_isSome (m := m) mem i hacc (.inr hp))
  obtain ⟨hfbs, hfmtps⟩ := run_contents (m := m) (p := p) mem i hacc
  have hown : ∀ e ∈ owned m.currPt (formatLines lines), e.2.pt = e.1 :=
    fun e he ↦ own_of_follows hfollows (fun k hk ↦ by cases hk) he
  have hnone : payloadAt m p = {} := by
    rw [payloadAt, hnew]
    rfl
  have hleft : sent Sum.getLeft? p m.currPt (formatLines lines) = rtcpFbsOf p lines := by
    refine sent_eq_named (fun x fb hx ↦ ?_) hown
    rw [Sum.getLeft?_eq_some_iff.mp hx, Format.pt]
  have hright : sent Sum.getRight? p m.currPt (formatLines lines) = fmtpsOf p lines := by
    refine sent_eq_named (fun x fmtp hx ↦ ?_) hown
    rw [Sum.getRight?_eq_some_iff.mp hx, Format.pt]
  rw [hnone, hleft, payloadAt, hpl] at hfbs
  rw [hnone, hright, payloadAt, hpl, insertAll_eq_map (hone p hp)] at hfmtps
  refine ⟨pl, hpl, ?_, hfbs, hfmtps⟩
  refine run_types hacc hfollows (fun k hk ↦ by cases hk) (fun q pl hq ↦ ?_) hpl
  rw [hnew] at hq
  cases hq

theorem formats_belong_iff (hhead : ∀ mem, (MediaSdp.parse mem head).isSome)
    (hacc : ∀ line ∈ lines, Accepted line) :
    FormatsBelong head lines ↔ heads (formatLines lines) = [] ∨ InOrder lines := by
  constructor
  · intro h
    refine or_iff_not_imp_left.mpr fun hne ↦ ?_
    have hsent (c : BitVec 32) (p : BitVec 32) (hp : p ∈ heads (formatLines lines)) :
        sent Sum.getLeft? p c (formatLines lines) = rtcpFbsOf p lines ∧
          insertAll (sent Sum.getRight? p c (formatLines lines)) [] =
            (fmtpsOf p lines).map fun f ↦ (f.pt, f) := by
      let mem : ℕ → Garbage := fun _ ↦ ⟨0, c, 0, id⟩
      obtain ⟨m, hm⟩ := Option.isSome_iff_exists.mp (hhead (mem 0))
      obtain ⟨hc, hnew⟩ := parse_new hm
      obtain ⟨pl, hpl, -, hfbs, hfmtps⟩ := h mem m hm p hp
      obtain ⟨hl, hr⟩ := run_contents (m := m) (p := p) mem 1 hacc
      rw [payloadAt, hpl, payloadAt, hnew, hc] at hl hr
      exact ⟨hl.symm.trans hfbs, hr.symm.trans hfmtps⟩
    have : Nontrivial (BitVec 32) := ⟨0, 1, by decide⟩
    refine ⟨follows_of_owned hne fun c p hp e he ↦ ?_, fun p hp ↦ fmtps_le_one (hsent 0 p hp).2⟩
    obtain ⟨hl, hr⟩ := hsent c p hp
    cases hx : e.2 with
    | inl fb =>
      refine sent_exact Sum.getLeft? RtcpFb.pt ?_ (congrArg List.length hl) he
        (by rw [hx]; rfl)
      rw [hl]
      exact fun fb hfb ↦ pt_of_mem_named hfb
    | inr fmtp =>
      obtain ⟨hown, hlen⟩ := sent_fmtps hr
      exact sent_exact Sum.getRight? Fmtp.pt hown hlen he (by rw [hx]; rfl)
  · rintro (hnil | h)
    · intro mem m hm p hp
      rw [hnil] at hp
      cases hp
    · exact fun mem m hm p hp ↦ holdsOwn_of_inOrder (parse_new hm).2 hacc h hp

theorem formats_belong_inOrder : FormatsBelong (ascii "m=video 9 RTP/AVP 96 97\r")
    [ascii "a=rtpmap:96 H264/90000\r", ascii "a=fmtp:96 packetization-mode=1\r",
      ascii "a=rtpmap:97 VP8/90000\r", ascii "a=rtcp-fb:97 nack pli\r"] :=
  (formats_belong_iff (fun _ ↦ rfl) (by decide)).mpr (.inr (by decide +kernel))

/-- Two `rtpmap` lines in front of the `fmtp` line of the first type. -/
theorem formats_not_belong : ¬ ∀ head lines, (∀ mem, (MediaSdp.parse mem head).isSome) →
    (∀ line ∈ lines, Accepted line) → FormatsBelong head lines := by
  intro h
  let lines := [ascii "a=rtpmap:96 H264/90000\r", ascii "a=rtpmap:97 VP8/90000\r",
    ascii "a=fmtp:96 packetization-mode=1\r"]
  have hacc : ∀ line ∈ lines, Accepted line := by decide
  have hp : 96 ∈ heads (formatLines lines) := by decide +kernel
  obtain ⟨pl, hpl, -, -, hfmtps⟩ := h (ascii "m=video 9 RTP/AVP 96 97\r") lines (fun _ ↦ rfl) hacc
    (fun _ ↦ ⟨0, 0, 0, id⟩) _ rfl 96 hp
  have hlost : ∀ q ∈ (MediaSdp.parseAttrs (fun _ ↦ ⟨0, 0, 0, id⟩) 1 ((MediaSdp.parse ⟨0, 0, 0, id⟩
      (ascii "m=video 9 RTP/AVP 96 97\r")).get rfl) lines).payloads.lookup 96, q.fmtps = [] := by
    decide +kernel
  have hown : fmtpsOf 96 lines ≠ [] := by decide +kernel
  rw [hlost pl hpl] at hfmtps
  exact hown (List.map_eq_nil_iff.mp hfmtps.symm)

end Belong

end MmsServer.SdpFormat.FormatLines
