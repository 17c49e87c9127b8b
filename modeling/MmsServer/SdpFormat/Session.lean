import MmsServer.Lib.Checked
import MmsServer.SdpFormat.MediaSection

namespace MmsServer.SdpFormat.Session

open Lib.ByteReader Lib.Checked Lib.Text Attributes MediaSection

structure Sdp where
  protocolVersion : BitVec 32
  origin : Origin
  sessionName : Bytes := []
  time : Timing := {}
  attrs : List Bytes := []
  sessionInfo : Option Bytes := none
  tool : Option Bytes := none
  dir : Option MediaDir := none
  uri : Option Bytes := none
  email : Option Bytes := none
  phone : Option Bytes := none
  connInfo : Option ConnectionInfo := none
  iceUfrag : Option Bytes := none
  icePwd : Option Bytes := none
  bundleAttr : Option BundleAttr := none
  mediaSdps : List MediaSdp := []

namespace Sdp

def store {α : Type} (code : ℤ) (v : Option α) (set : α → Sdp) : Outcome Sdp :=
  match v with
  | none => .err code
  | some a => .ok (set a)

/-- A line in front of the first `m=` line. The code tests for `c=` a second time, behind
`t=`, where no such line is left. -/
def sessionAttr (s : Sdp) (line : Bytes) : Outcome Sdp :=
  if DirAttr.isMyPrefix line then .ok { s with dir := some (DirAttr.parse line) }
  else if startsWith line Attributes.uri.pfx then
    .ok { s with uri := some (Attributes.uri.parse line) }
  else if startsWith line emailAddress.pfx then .ok { s with email := some (emailAddress.parse line) }
  else if startsWith line Attributes.phone.pfx then
    .ok { s with phone := some (Attributes.phone.parse line) }
  else if startsWith line ConnectionInfo.pfx then
    store (-13) (ConnectionInfo.parse line) fun c ↦ { s with connInfo := some c }
  else if startsWith line sessionInformation.pfx then
    .ok { s with sessionInfo := some (sessionInformation.parse line) }
  else if startsWith line Timing.pfx then
    store (-10) (Timing.parse line) fun t ↦ { s with time := t }
  else if startsWith line Attributes.iceUfrag.pfx then
    .ok { s with iceUfrag := some (Attributes.iceUfrag.parse line) }
  else if startsWith line Attributes.icePwd.pfx then
    .ok { s with icePwd := some (Attributes.icePwd.parse line) }
  else .ok s

/-- The lines from index `i` on, up to an `m=` line. The condition reads `lines[i]`
without a look at the number of lines. -/
def sessionLoop : ℕ → Sdp → List Bytes → Outcome (ℕ × Sdp × List Bytes)
  | _, _, [] => .fault .overread
  | i, s, line :: lines =>
    if startsWith line MediaSdp.pfx then .ok (i, s, line :: lines)
    else do
      let s ← s.sessionAttr line
      sessionLoop (i + 1) s lines

def addMedia (s : Sdp) (curr : Option MediaSdp) : Sdp :=
  { s with mediaSdps := s.mediaSdps ++ curr.toList }

def mediaAttr (mem : Garbage) (curr : Option MediaSdp) (line : Bytes) : Bool × Option MediaSdp :=
  match curr with
  | none => (false, none)
  | some m => ((m.parseAttr mem line).1, some (m.parseAttr mem line).2)

/-- The group is read from lines that no section takes. -/
def bundle (s : Sdp) (ret : Bool) (line : Bytes) : Outcome Sdp :=
  if !ret && startsWith line BundleAttr.pfx then
    store (-14) (BundleAttr.parse line) fun b ↦ { s with bundleAttr := some b }
  else .ok s

def mediaLoop (mem : ℕ → Garbage) : ℕ → Sdp → Option MediaSdp → List Bytes → Outcome Sdp
  | _, s, curr, [] => .ok (s.addMedia curr)
  | i, s, curr, line :: lines =>
    if startsWith line MediaSdp.pfx then
      match MediaSdp.parse (mem i) line with
      | none => .err (-7)
      | some m => mediaLoop mem (i + 1) (s.addMedia curr) (some m) lines
    else do
      let (ret, curr) := mediaAttr (mem i) curr line
      let s ← s.bundle ret line
      mediaLoop mem (i + 1) s curr lines

def head (s : Sdp) (v o n : Bytes) : Outcome Sdp :=
  if !startsWith v ProtocolVersion.pfx then .err (-1)
  else do
    let s ← store (-2) (ProtocolVersion.parse v) fun protocolVersion ↦ { s with protocolVersion }
    if !startsWith o Origin.pfx then .err (-3)
    else do
      let s ← store (-4) (Origin.parse o) fun origin ↦ { s with origin }
      if !startsWith n Attributes.sessionName.pfx then .err (-5)
      else .ok { s with sessionName := Attributes.sessionName.parse n }

/-- A negative code is an error, 0 comes with the members as they have been filled. -/
def parse (mem : ℕ → Garbage) (s : Sdp) (sdp : Bytes) : Outcome Sdp :=
  match Attributes.split 10 sdp with
  | v :: o :: n :: line :: lines => do
    let s ← s.head v o n
    let (i, s, lines) ← sessionLoop 3 s (line :: lines)
    mediaLoop mem i s none lines
  | _ => .err (-1)

def toString (s : Sdp) : Bytes :=
  ProtocolVersion.toString s.protocolVersion ++ s.origin.toString ++
    Attributes.sessionName.toString s.sessionName ++ s.time.toString ++
    MediaSdp.printed s.sessionInfo sessionInformation.toString ++
    MediaSdp.printed s.tool toolAttr.toString ++
    (s.attrs.flatMap fun a ↦ ascii "a=" ++ a ++ endl) ++
    MediaSdp.printed s.iceUfrag Attributes.iceUfrag.toString ++
    MediaSdp.printed s.icePwd Attributes.icePwd.toString ++
    MediaSdp.printed s.bundleAttr BundleAttr.toString ++ s.mediaSdps.flatMap MediaSdp.toString

end Sdp

section Loops

variable {mem : ℕ → Garbage} {i : ℕ} {s s' : Sdp} {curr : Option MediaSdp} {line : Bytes}
  {lines : List Bytes} {code : ℤ} {f : Fault}

def Rejected (line : Bytes) : Prop :=
  startsWith line ConnectionInfo.pfx ∧ ConnectionInfo.parse line = none ∨
    startsWith line Timing.pfx ∧ Timing.parse line = none

def unchecked : List Bytes :=
  [ascii "a=recvonly", ascii "a=sendonly", ascii "a=sendrecv", uri.pfx, emailAddress.pfx, phone.pfx,
    sessionInformation.pfx]

theorem not_rejected {a : Bytes} (ha : a ∈ unchecked) (h : startsWith line a) :
    ¬ Rejected line := by
  have hclash : ∀ a ∈ unchecked, (¬ a <+: ConnectionInfo.pfx ∧ ¬ ConnectionInfo.pfx <+: a) ∧
      ¬ a <+: Timing.pfx ∧ ¬ Timing.pfx <+: a := by decide
  obtain ⟨⟨hc, hc'⟩, ht, ht'⟩ := hclash a ha
  rintro (⟨hr, -⟩ | ⟨hr, -⟩)
  · rw [startsWith_clash h hc hc'] at hr
    cases hr
  · rw [startsWith_clash h ht ht'] at hr
    cases hr

theorem not_rejected_dir (h : DirAttr.isMyPrefix line) : ¬ Rejected line := by
  rw [DirAttr.isMyPrefix, Bool.or_eq_true, Bool.or_eq_true] at h
  obtain (h | h) | h := h
  · exact not_rejected (by decide) h
  · exact not_rejected (by decide) h
  · exact not_rejected (by decide) h

/-- A session line is rejected, or it fills a member other than the origin and the sections. -/
inductive AttrEnd (s : Sdp) (line : Bytes) : Outcome Sdp → Prop
  | rejected (code : ℤ) (h : Rejected line) (hcode : code < 0) : AttrEnd s line (.err code)
  | filled (s' : Sdp) (h : ¬ Rejected line) (ho : s'.origin = s.origin)
      (hm : s'.mediaSdps = s.mediaSdps) : AttrEnd s line (.ok s')

theorem AttrEnd.ite {c : Prop} [Decidable c] {a b : Outcome Sdp} (ha : c → AttrEnd s line a)
    (hb : ¬ c → AttrEnd s line b) : AttrEnd s line (if c then a else b) := by
  split
  · rename_i h
    exact ha h
  · rename_i h
    exact hb h

theorem sessionAttr_end (s : Sdp) (line : Bytes) : AttrEnd s line (s.sessionAttr line) := by
  refine .ite (fun h ↦ .filled _ (not_rejected_dir h) rfl rfl) fun _ ↦ ?_
  refine .ite (fun h ↦ .filled _ (not_rejected (by decide) h) rfl rfl) fun _ ↦ ?_
  refine .ite (fun h ↦ .filled _ (not_rejected (by decide) h) rfl rfl) fun _ ↦ ?_
  refine .ite (fun h ↦ .filled _ (not_rejected (by decide) h) rfl rfl) fun _ ↦ ?_
  refine .ite (fun h ↦ ?_) fun hc ↦ ?_
  · cases hparse : ConnectionInfo.parse line with
    | none => exact .rejected _ (.inl ⟨h, hparse⟩) (by decide)
    | some c =>
      refine .filled _ ?_ rfl rfl
      rintro (⟨-, hr⟩ | ⟨hr, -⟩)
      · rw [hparse] at hr
        cases hr
      · rw [startsWith_clash h (by decide) (by decide)] at hr
        cases hr
  refine .ite (fun h ↦ .filled _ (not_rejected (by decide) h) rfl rfl) fun _ ↦ ?_
  refine .ite (fun h ↦ ?_) fun ht ↦ ?_
  · cases hparse : Timing.parse line with
    | none => exact .rejected _ (.inr ⟨h, hparse⟩) (by decide)
    | some t =>
      refine .filled _ ?_ rfl rfl
      rintro (⟨hr, -⟩ | ⟨-, hr⟩)
      · exact hc hr
      · rw [hparse] at hr
        cases hr
  have hno : ¬ Rejected line := by
    rintro (⟨hr, -⟩ | ⟨hr, -⟩)
    · exact hc hr
    · exact ht hr
  refine .ite (fun _ ↦ .filled _ hno rfl rfl) fun _ ↦ ?_
  exact .ite (fun _ ↦ .filled _ hno rfl rfl) fun _ ↦ .filled _ hno rfl rfl

/-- The loop ends inside the lines where an `m=` line or a rejected one ends it. -/
def Stops (lines : List Bytes) : Prop :=
  ∃ line ∈ lines, startsWith line MediaSdp.pfx ∨ Rejected line

def mLines (lines : List Bytes) : List Bytes := lines.filter (startsWith · MediaSdp.pfx)

inductive SessionEnd (s : Sdp) (lines : List Bytes) : Outcome (ℕ × Sdp × List Bytes) → Prop
  | overread (h : ¬ Stops lines) : SessionEnd s lines (.fault .overread)
  | rejected (code : ℤ) (h : Stops lines) (hcode : code < 0) : SessionEnd s lines (.err code)
  | atMedia (i : ℕ) (s' : Sdp) (rest : List Bytes) (h : Stops lines) (hrest : mLines rest = mLines lines)
      (ho : s'.origin = s.origin) (hm : s'.mediaSdps = s.mediaSdps) :
      SessionEnd s lines (.ok (i, s', rest))

theorem sessionLoop_end (i : ℕ) (s : Sdp) (lines : List Bytes) :
    SessionEnd s lines (Sdp.sessionLoop i s lines) := by
  induction lines generalizing i s with
  | nil => exact .overread fun ⟨_, hmem, _⟩ ↦ by cases hmem
  | cons line lines ih =>
    rw [Sdp.sessionLoop]
    split
    · rename_i hm
      exact .atMedia i s _ ⟨line, List.mem_cons_self, .inl hm⟩ rfl rfl rfl
    · rename_i hm
      have hattr := sessionAttr_end s line
      generalize s.sessionAttr line = o at hattr
      cases hattr with
      | rejected code hr hcode => exact .rejected code ⟨line, List.mem_cons_self, .inr hr⟩ hcode
      | filled s₁ hr ho hms =>
        have hstops : Stops (line :: lines) ↔ Stops lines := by
          rw [Stops, List.exists_mem_cons_iff]
          exact or_iff_right fun h ↦ h.elim hm hr
        have hlines : mLines (line :: lines) = mLines lines := List.filter_cons_of_neg hm
        have hloop := ih (i + 1) s₁
        change SessionEnd s (line :: lines) (Sdp.sessionLoop (i + 1) s₁ lines)
        generalize Sdp.sessionLoop (i + 1) s₁ lines = o at hloop ⊢
        cases hloop with
        | overread h => exact .overread (hstops.not.mpr h)
        | rejected code h hcode => exact .rejected code (hstops.mpr h) hcode
        | atMedia i s' rest h hrest ho' hms' =>
          exact .atMedia i s' rest (hstops.mpr h) (hrest.trans hlines.symm) (ho'.trans ho)
            (hms'.trans hms)

def Starts (line : Bytes) (m : MediaSdp) : Prop :=
  ∃ mem m₀, MediaSdp.parse mem line = some m₀ ∧ m.toMLine = m₀.toMLine

inductive MediaEnd (s : Sdp) (curr : Option MediaSdp) (lines : List Bytes) : Outcome Sdp → Prop
  | rejected (code : ℤ) (hcode : code < 0) : MediaEnd s curr lines (.err code)
  | filled (s' : Sdp) (closed ms : List MediaSdp) (ho : s'.origin = s.origin)
      (hclosed : List.Forall₂ (fun m m' ↦ m'.toMLine = m.toMLine) curr.toList closed)
      (hms : List.Forall₂ Starts (mLines lines) ms)
      (hm : s'.mediaSdps = s.mediaSdps ++ (closed ++ ms)) : MediaEnd s curr lines (.ok s')

theorem mediaAttr_toMLine (g : Garbage) (curr : Option MediaSdp) (line : Bytes) :
    (Sdp.mediaAttr g curr line).2.map MediaSdp.toMLine = curr.map MediaSdp.toMLine := by
  cases curr with
  | none => rfl
  | some m => exact congrArg some MediaSdp.parseAttr_toMLine

theorem closed_of_map_eq {curr curr' : Option MediaSdp} {closed : List MediaSdp}
    (h : curr'.map MediaSdp.toMLine = curr.map MediaSdp.toMLine)
    (hclosed : List.Forall₂ (fun m m' ↦ m'.toMLine = m.toMLine) curr'.toList closed) :
    List.Forall₂ (fun m m' ↦ m'.toMLine = m.toMLine) curr.toList closed := by
  cases curr with
  | none =>
    rw [Option.map_eq_none_iff.mp h] at hclosed
    exact hclosed
  | some m =>
    obtain ⟨m', rfl, hm⟩ := Option.map_eq_some_iff.mp h
    obtain ⟨m'', ms, hm'', hms, rfl⟩ := List.forall₂_cons_left_iff.mp hclosed
    exact .cons (hm''.trans hm) hms

theorem bundle_cases (s : Sdp) (ret : Bool) (line : Bytes) :
    (∃ code < 0, s.bundle ret line = .err code) ∨
      ∃ s', s.bundle ret line = .ok s' ∧ s'.origin = s.origin ∧ s'.mediaSdps = s.mediaSdps := by
  rw [Sdp.bundle]
  split
  · cases BundleAttr.parse line with
    | none => exact .inl ⟨-14, by decide, rfl⟩
    | some b => exact .inr ⟨_, rfl, rfl, rfl⟩
  · exact .inr ⟨s, rfl, rfl, rfl⟩

theorem mediaLoop_end (mem : ℕ → Garbage) (i : ℕ) (s : Sdp) (curr : Option MediaSdp)
    (lines : List Bytes) : MediaEnd s curr lines (Sdp.mediaLoop mem i s curr lines) := by
  induction lines generalizing i s curr with
  | nil =>
    exact .filled _ curr.toList [] rfl (List.forall₂_same.mpr fun _ _ ↦ rfl) .nil
      (by rw [List.append_nil]; rfl)
  | cons line lines ih =>
    rw [Sdp.mediaLoop]
    split
    · rename_i hline
      cases hm : MediaSdp.parse (mem i) line with
      | none => exact .rejected (-7) (by decide)
      | some m =>
        have hlines : mLines (line :: lines) = line :: mLines lines := List.filter_cons_of_pos hline
        have hloop := ih (i + 1) (s.addMedia curr) (some m)
        dsimp only
        generalize Sdp.mediaLoop mem (i + 1) (s.addMedia curr) (some m) lines = o at hloop ⊢
        cases hloop with
        | rejected code hcode => exact .rejected code hcode
        | filled s' closed ms ho hclosed hms hm' =>
          obtain ⟨m', rest, hm'', hrest, rfl⟩ := List.forall₂_cons_left_iff.mp hclosed
          cases hrest
          refine .filled s' curr.toList (m' :: ms) ho (List.forall₂_same.mpr fun _ _ ↦ rfl) ?_ ?_
          · rw [hlines]
            exact .cons ⟨mem i, m, hm, hm''⟩ hms
          · rw [hm', Sdp.addMedia, List.append_assoc]
            rfl
    · rename_i hline
      have hlines : mLines (line :: lines) = mLines lines := List.filter_cons_of_neg hline
      have hcurr := mediaAttr_toMLine (mem i) curr line
      dsimp only
      obtain ⟨code, hcode, hb⟩ | ⟨s₁, hb, ho, hms⟩ :=
        bundle_cases s (Sdp.mediaAttr (mem i) curr line).1 line
      · rw [hb]
        exact .rejected code hcode
      · rw [hb, Outcome.ok_bind]
        have hloop := ih (i + 1) s₁ (Sdp.mediaAttr (mem i) curr line).2
        generalize Sdp.mediaLoop mem (i + 1) s₁ (Sdp.mediaAttr (mem i) curr line).2 lines = o
          at hloop ⊢
        cases hloop with
        | rejected code hcode => exact .rejected code hcode
        | filled s' closed ms ho' hclosed hms' hm' =>
          exact .filled s' closed ms (ho'.trans ho) (closed_of_map_eq hcurr hclosed) (hlines ▸ hms')
            (hms ▸ hm')

end Loops

section Parse

variable {mem : ℕ → Garbage} {s : Sdp} {sdp v o n : Bytes}

/-- The first three lines are what they have to be. -/
def HeadAccepted (v o n : Bytes) : Prop :=
  (startsWith v ProtocolVersion.pfx ∧ (ProtocolVersion.parse v).isSome) ∧
    (startsWith o Origin.pfx ∧ (Origin.parse o).isSome) ∧ startsWith n sessionName.pfx

inductive HeadEnd (s : Sdp) (v o n : Bytes) : Outcome Sdp → Prop
  | rejected (code : ℤ) (h : ¬ HeadAccepted v o n) (hcode : code < 0) : HeadEnd s v o n (.err code)
  | accepted (s' : Sdp) (h : HeadAccepted v o n) (ho : Origin.parse o = some s'.origin)
      (hm : s'.mediaSdps = s.mediaSdps) : HeadEnd s v o n (.ok s')

theorem head_end (s : Sdp) (v o n : Bytes) : HeadEnd s v o n (s.head v o n) := by
  rw [Sdp.head]
  cases hv : startsWith v ProtocolVersion.pfx with
  | false => exact .rejected (-1) (fun h ↦ by rw [h.1.1] at hv; cases hv) (by decide)
  | true =>
    cases hver : ProtocolVersion.parse v with
    | none => exact .rejected (-2) (fun h ↦ by have := h.1.2; rw [hver] at this; cases this) (by decide)
    | some version =>
      cases ho : startsWith o Origin.pfx with
      | false => exact .rejected (-3) (fun h ↦ by rw [h.2.1.1] at ho; cases ho) (by decide)
      | true =>
        cases horg : Origin.parse o with
        | none =>
          exact .rejected (-4) (fun h ↦ by have := h.2.1.2; rw [horg] at this; cases this) (by decide)
        | some origin =>
          cases hn : startsWith n sessionName.pfx with
          | false => exact .rejected (-5) (fun h ↦ by rw [h.2.2] at hn; cases hn) (by decide)
          | true =>
            exact .accepted _ ⟨⟨hv, by rw [hver]; rfl⟩, ⟨ho, by rw [horg]; rfl⟩, hn⟩ horg rfl

/-- The origin is what the second line says. -/
theorem parse_origin {s' : Sdp} (h : Sdp.parse mem s sdp = .ok s') :
    ∃ v o rest, Attributes.split 10 sdp = v :: o :: rest ∧ Origin.parse o = some s'.origin := by
  rw [Sdp.parse] at h
  split at h
  · rename_i v o n line lines hsplit
    refine ⟨v, o, n :: line :: lines, hsplit, ?_⟩
    obtain ⟨s₁, hhead, h⟩ := Outcome.bind_eq_ok.mp h
    obtain ⟨⟨i, s₂, rest⟩, hsession, h⟩ := Outcome.bind_eq_ok.mp h
    dsimp only at h
    have hend := head_end s v o n
    rw [hhead] at hend
    cases hend with
    | accepted _ _ ho _ =>
      have hend := sessionLoop_end 3 s₁ (line :: lines)
      rw [hsession] at hend
      cases hend with
      | atMedia _ _ _ _ _ ho₂ _ =>
        have hend := mediaLoop_end mem i s₂ none rest
        rw [h] at hend
        cases hend with
        | filled _ _ _ ho₃ _ _ _ => rw [ho₃, ho₂, ho]
  · cases h

/-- A negative code, or one section for each `m=` line. -/
def ParsedInside (s : Sdp) (sdp : Bytes) : Outcome Sdp → Prop
  | .ok s' => ∃ ms, s'.mediaSdps = s.mediaSdps ++ ms ∧
      List.Forall₂ Starts (mLines (Attributes.split 10 sdp)) ms
  | .err code => code < 0
  | .fault _ => False

/-- There are three lines at most, one of the first three is not accepted, or an `m=` line
or a rejected session line follows them. -/
def EndsInside (sdp : Bytes) : Prop :=
  match Attributes.split 10 sdp with
  | v :: o :: n :: line :: lines => HeadAccepted v o n → Stops (line :: lines)
  | _ => True

theorem mLines_head {lines : List Bytes} (h : HeadAccepted v o n) :
    mLines (v :: o :: n :: lines) = mLines lines := by
  have hv : startsWith v MediaSdp.pfx = false := startsWith_clash h.1.1 (by decide) (by decide)
  have ho : startsWith o MediaSdp.pfx = false := startsWith_clash h.2.1.1 (by decide) (by decide)
  have hn : startsWith n MediaSdp.pfx = false := startsWith_clash h.2.2 (by decide) (by decide)
  rw [mLines, List.filter_cons, List.filter_cons, List.filter_cons, hv, ho, hn]
  rfl

theorem parse_inside_iff (mem : ℕ → Garbage) (s : Sdp) (sdp : Bytes) :
    ParsedInside s sdp (Sdp.parse mem s sdp) ↔ EndsInside sdp := by
  rw [Sdp.parse, EndsInside]
  split
  · rename_i v o n line lines hsplit
    have hhead := head_end s v o n
    generalize s.head v o n = a at hhead ⊢
    cases hhead with
    | rejected code h hcode => exact iff_of_true hcode fun ha ↦ absurd ha h
    | accepted s₁ h ho hm =>
      rw [Outcome.ok_bind]
      have hsession := sessionLoop_end 3 s₁ (line :: lines)
      generalize Sdp.sessionLoop 3 s₁ (line :: lines) = b at hsession ⊢
      cases hsession with
      | overread hstops => exact iff_of_false (fun hf ↦ hf) fun hi ↦ hstops (hi h)
      | rejected code hstops hcode => exact iff_of_true hcode fun _ ↦ hstops
      | atMedia i s₂ rest hstops hrest ho₂ hm₂ =>
        refine iff_of_true ?_ fun _ ↦ hstops
        rw [Outcome.ok_bind]
        have hmedia := mediaLoop_end mem i s₂ none rest
        dsimp only
        generalize Sdp.mediaLoop mem i s₂ none rest = c at hmedia ⊢
        cases hmedia with
        | rejected code hcode => exact hcode
        | filled s₃ closed ms ho₃ hclosed hms hm₃ =>
          cases hclosed
          refine ⟨ms, ?_, ?_⟩
          · rw [hm₃, hm₂, hm]
            rfl
          · rw [hsplit, mLines_head h, ← hrest]
            exact hms
  · exact iff_of_true (show (-1 : ℤ) < 0 by decide) trivial

/-- A description of a session without media. -/
theorem parse_reads_past_lines : ¬ ∀ mem s sdp, ParsedInside s sdp (Sdp.parse mem s sdp) := by
  intro h
  let mem : ℕ → Garbage := fun _ ↦ ⟨0, 0, 0, id⟩
  let s : Sdp := { protocolVersion := 0, origin := { sessionId := 0, sessionVersion := 0 } }
  let sdp := ascii "v=0\r\no=- 0 0 IN IP4 127.0.0.1\r\ns=-\r\nt=0 0\r\n"
  have hfault : Sdp.parse mem s sdp = .fault .overread := rfl
  have hin := h mem s sdp
  rw [hfault] at hin
  exact hin

end Parse

end MmsServer.SdpFormat.Session
