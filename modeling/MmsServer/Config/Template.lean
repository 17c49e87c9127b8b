import MmsServer.Config.PlaceHolderGenerator

namespace MmsServer.Config.Template

open Lib.ByteReader Lib.Text PlaceHolderGenerator

inductive Piece
  | char (c : UInt8)
  | name (n : Bytes)

/-- How a template is made up of names in braces and of other characters. -/
inductive Reads : Bytes → List Piece → Prop
  | nil : Reads [] []
  | name {n rest ps} : closing ∉ n → Reads rest ps →
      Reads (opening ++ (n ++ closing :: rest)) (.name n :: ps)
  | char {c rest ps} : ¬ opening <+: c :: rest → Reads rest ps → Reads (c :: rest) (.char c :: ps)

/-- Every opening is followed by a closing brace. -/
def Closed (t : Bytes) : Prop := ∀ pre post, t = pre ++ (opening ++ post) → closing ∈ post

inductive Known : Bytes → Prop
  | domain : Known (ascii "domain")
  | app : Known (ascii "app")
  | streamName : Known (ascii "stream_name")
  | streamType : Known (ascii "stream_type")
  | urlParam (name : Bytes) : Known (ascii "url_params[" ++ (name ++ [93]))
  | headerParam (name : Bytes) : Known (ascii "header_params[" ++ (name ++ [93]))

inductive NameVal (session : StreamSession) : Bytes → Bytes → Prop
  | domain : NameVal session (ascii "domain") session.domainName
  | app : NameVal session (ascii "app") session.appName
  | streamName : NameVal session (ascii "stream_name") session.streamName
  | streamType : NameVal session (ascii "stream_type") session.sessionType
  | urlParam (name : Bytes) : NameVal session (ascii "url_params[" ++ (name ++ [93]))
      ((session.getParam name).getD [])
  | headerParam (name : Bytes) : NameVal session (ascii "header_params[" ++ (name ++ [93]))
      ((session.getHeader name).getD [])

/-- Each name gives way to its value, and what stands around it is kept. -/
inductive Expands (session : StreamSession) : Bytes → Bytes → Prop
  | nil : Expands session [] []
  | name {n v rest out} : closing ∉ n → NameVal session n v → Expands session rest out →
      Expands session (opening ++ (n ++ closing :: rest)) (v ++ out)
  | char {c rest out} : ¬ opening <+: c :: rest → Expands session rest out →
      Expands session (c :: rest) (c :: out)

section Reading

variable {t : Bytes} {session : StreamSession}

theorem Closed.of_append {pre t : Bytes} (h : Closed (pre ++ t)) : Closed t := by
  intro pre' post ht
  exact h (pre ++ pre') post (by rw [ht, List.append_assoc])

/-- A closed template can be read. -/
theorem reads_of_closed (h : Closed t) : ∃ ps, Reads t ps := by
  induction hlen : t.length using Nat.strong_induction_on generalizing t with
  | h len ih =>
    cases t with
    | nil => exact ⟨[], .nil⟩
    | cons c rest =>
      by_cases hopen : opening <+: c :: rest
      · obtain ⟨post, hpost⟩ := hopen
        obtain ⟨n, rest', rfl, hn⟩ := List.eq_append_cons_of_mem (h [] post hpost.symm)
        have hclosed : Closed rest' := by
          have hpre : c :: rest = (opening ++ (n ++ [closing])) ++ rest' := by
            rw [← hpost]
            simp
          exact (hpre ▸ h).of_append
        have hlt : rest'.length < len := by
          rw [← hlen, ← hpost]
          simp only [List.length_append, List.length_cons]
          omega
        obtain ⟨ps, hps⟩ := ih _ hlt hclosed rfl
        exact ⟨.name n :: ps, hpost ▸ Reads.name hn hps⟩
      · have hclosed : Closed rest := Closed.of_append (show Closed ([c] ++ rest) from h)
        obtain ⟨ps, hps⟩ := ih rest.length (by rw [← hlen]; exact Nat.lt_succ_self _) hclosed rfl
        exact ⟨_, .char hopen hps⟩

theorem append_closing_inj {n n' rest rest' : Bytes} (hn : closing ∉ n) (hn' : closing ∉ n')
    (h : n ++ closing :: rest = n' ++ closing :: rest') : n = n' ∧ rest = rest' := by
  induction n generalizing n' with
  | nil =>
    cases n' with
    | nil => exact ⟨rfl, (List.cons.inj h).2⟩
    | cons c n' => exact absurd ((List.cons.inj h).1 ▸ List.mem_cons_self) hn'
  | cons c n ih =>
    cases n' with
    | nil => exact absurd ((List.cons.inj h).1 ▸ List.mem_cons_self) hn
    | cons c' n' =>
      rw [List.cons_append, List.cons_append, List.cons.injEq] at h
      obtain ⟨rfl, hrest⟩ := h
      obtain ⟨rfl, rfl⟩ := ih (fun hc ↦ hn (List.mem_cons_of_mem c hc))
        (fun hc ↦ hn' (List.mem_cons_of_mem c hc)) hrest
      exact ⟨rfl, rfl⟩

/-- A template is read in one way only. -/
theorem Reads.unique {ps ps' : List Piece} (h : Reads t ps) (h' : Reads t ps') : ps = ps' := by
  induction h generalizing ps' with
  | nil =>
    generalize ht : ([] : Bytes) = t at h'
    cases h' with
    | nil => rfl
    | name _ _ => cases ht
    | char _ _ => cases ht
  | @name n rest ps hn hr ih =>
    generalize ht : opening ++ (n ++ closing :: rest) = t at h'
    cases h' with
    | nil => cases ht
    | name hn' hr' =>
      obtain ⟨rfl, rfl⟩ := append_closing_inj hn hn' (List.append_cancel_left ht)
      rw [ih hr']
    | char hc _ => exact absurd ⟨_, ht⟩ hc
  | @char c rest ps hc hr ih =>
    generalize ht : c :: rest = t at h'
    cases h' with
    | nil => cases ht
    | name _ _ => exact absurd ⟨_, ht.symm⟩ hc
    | char _ hr' =>
      obtain ⟨rfl, rfl⟩ := List.cons.inj ht
      rw [ih hr']

theorem closed_of_getLast (h : t.getLast? = some closing) : Closed t := by
  rintro pre post rfl
  cases post with
  | nil =>
    rw [List.append_nil, List.getLast?_append, show opening.getLast? = some 123 from rfl] at h
    exact absurd h (by simp [closing])
  | cons c post =>
    rw [List.getLast?_append, List.getLast?_append, List.getLast?_cons, Option.some_or,
      Option.some_or, ← List.getLast?_cons] at h
    exact List.mem_of_getLast? h

variable (session) in
theorem nameVal_of_known {n : Bytes} (h : Known n) : ∃ v, NameVal session n v := by
  cases h with
  | domain => exact ⟨_, .domain⟩
  | app => exact ⟨_, .app⟩
  | streamName => exact ⟨_, .streamName⟩
  | streamType => exact ⟨_, .streamType⟩
  | urlParam name => exact ⟨_, .urlParam name⟩
  | headerParam name => exact ⟨_, .headerParam name⟩

variable (session) in
theorem expands_of_reads {ps : List Piece} (h : Reads t ps) (hknown : ∀ n, .name n ∈ ps → Known n) :
    ∃ out, Expands session t out := by
  induction h with
  | nil => exact ⟨[], .nil⟩
  | name hn _ ih =>
    obtain ⟨v, hv⟩ := nameVal_of_known session (hknown _ List.mem_cons_self)
    obtain ⟨out, hout⟩ := ih fun n hmem ↦ hknown n (List.mem_cons_of_mem _ hmem)
    exact ⟨_, .name hn hv hout⟩
  | char hc _ ih =>
    obtain ⟨out, hout⟩ := ih fun n hmem ↦ hknown n (List.mem_cons_of_mem _ hmem)
    exact ⟨_, .char hc hout⟩

end Reading

section Holders

variable {call : Method → List Bytes → Bytes} {session : StreamSession}

theorem bracketed_append (pre name : Bytes) : bracketed pre (pre ++ (name ++ [93])) = some name := by
  have hstart : startsWith (pre ++ (name ++ [93])) pre = true := by
    rw [startsWith, List.isPrefixOf_iff_prefix]
    exact List.prefix_append _ _
  have hlast : (pre ++ (name ++ [93])).getLast? = some 93 := by simp
  have hlen : (pre ++ (name ++ [93])).length - (pre.length + 1) = name.length := by
    simp only [List.length_append, List.length_singleton]
    omega
  rw [bracketed, if_pos ⟨hstart, hlast⟩, List.drop_left, hlen, List.take_left]

theorem holdersVal_append (hs hs' : List PlaceHolder) :
    holdersVal call session (hs ++ hs') = holdersVal call session hs ++ holdersVal call session hs' := by
  induction hs with
  | nil => rfl
  | cons h hs ih => rw [List.cons_append, holdersVal, holdersVal, ih, List.append_assoc]

theorem ne_of_head {s t : Bytes} {c d : UInt8} (hs : s.head? = some c) (ht : t.head? = some d)
    (h : c ≠ d) : s ≠ t := by
  rintro rfl
  exact h (Option.some.inj (hs.symm.trans ht))

theorem genHolder_bracketed {seg name : Bytes} {c : UInt8} (hhead : seg.head? = some c)
    (hc : c ≠ 100 ∧ c ≠ 97 ∧ c ≠ 115) (hparam : paramSeg seg = none) {holder : PlaceHolder}
    (h : bracketed (ascii "url_params[") seg = some name ∧ holder = .urlParam name ∨
      bracketed (ascii "url_params[") seg = none ∧
        bracketed (ascii "header_params[") seg = some name ∧ holder = .headerParam name)
    (search : Bytes → Gen (Option Param)) (params : Params) :
    genHolder search seg false params = some (some holder, params) := by
  have hdomain := ne_of_head hhead (show (ascii "domain").head? = some 100 from rfl) hc.1
  have happ := ne_of_head hhead (show (ascii "app").head? = some 97 from rfl) hc.2.1
  have hname := ne_of_head hhead (show (ascii "stream_name").head? = some 115 from rfl) hc.2.2
  have htype := ne_of_head hhead (show (ascii "stream_type").head? = some 115 from rfl) hc.2.2
  rw [genHolder, if_neg (by decide), if_neg hdomain, if_neg happ, if_neg hname, if_neg htype,
    hparam]
  obtain ⟨hu, rfl⟩ | ⟨hu, hh, rfl⟩ := h
  · simp only [hu]
    rfl
  · simp only [hu, hh]
    rfl

variable (call) in
/-- A known name has a holder with its value, whatever else is configured. -/
theorem genHolder_known {n v : Bytes} (h : NameVal session n v) :
    ∃ holder, (∀ search params, genHolder search n false params = some (some holder, params)) ∧
      holder.getVal call session = v := by
  cases h with
  | domain => exact ⟨.domain, fun _ _ ↦ rfl, by rw [PlaceHolder.getVal]⟩
  | app => exact ⟨.app, fun _ _ ↦ rfl, by rw [PlaceHolder.getVal]⟩
  | streamName => exact ⟨.streamName, fun _ _ ↦ rfl, by rw [PlaceHolder.getVal]⟩
  | streamType => exact ⟨.streamType, fun _ _ ↦ rfl, by rw [PlaceHolder.getVal]⟩
  | urlParam name =>
    have hbr := bracketed_append (ascii "url_params[") name
    exact ⟨.urlParam name, genHolder_bracketed (c := 117) rfl (by decide) rfl (.inl ⟨hbr, rfl⟩),
      by rw [PlaceHolder.getVal]⟩
  | headerParam name =>
    have hbr := bracketed_append (ascii "header_params[") name
    exact ⟨.headerParam name,
      genHolder_bracketed (c := 104) rfl (by decide) rfl (.inr ⟨rfl, hbr, rfl⟩),
      by rw [PlaceHolder.getVal]⟩

variable (call session) in
theorem flush_text {seg : Bytes} {isString : Bool} (h : seg = [] ∨ isString = true) :
    ∃ hs, (∀ search params, flush (genHolder search) seg isString params = some (hs, params)) ∧
      holdersVal call session hs = seg := by
  by_cases hseg : seg = []
  · exact ⟨[], fun _ _ ↦ by rw [flush, if_pos hseg]; rfl, by rw [holdersVal, hseg]⟩
  · have hstring : isString = true := h.resolve_left hseg
    refine ⟨[.string seg], fun search params ↦ ?_, ?_⟩
    · rw [flush, if_neg hseg, hstring]
      rfl
    · rw [holdersVal, holdersVal, PlaceHolder.getVal, List.append_nil]

/-- A name ends in front of the first brace that closes. -/
theorem name_split {n : Bytes} (hn : closing ∉ n) (rest : Bytes) :
    (n ++ closing :: rest).takeWhile (· != closing) = n ∧
      (n ++ closing :: rest).dropWhile (· != closing) = closing :: rest := by
  have hname : ∀ c ∈ n, (c != closing) = true := by
    intro c hc
    rw [bne_iff_ne]
    rintro rfl
    exact hn hc
  rw [List.takeWhile_append_of_pos hname, List.dropWhile_append_of_pos hname]
  simp

theorem scan_opening (gen : Bytes → Bool → Gen (Option PlaceHolder)) {n rest seg : Bytes}
    (hn : closing ∉ n) (isString : Bool) :
    scan gen (opening ++ (n ++ closing :: rest)) seg isString = (do
      let before ← flush gen seg isString
      let holder ← gen n false
      let behind ← scan gen rest [] false
      return before ++ holder.toList ++ behind) := by
  have hopen : opening ++ (n ++ closing :: rest) = 36 :: 123 :: (n ++ closing :: rest) := rfl
  obtain ⟨hname, hrest⟩ := name_split hn rest
  rw [hopen, scan, if_pos (by rfl), List.drop_one, List.tail_cons, hname, hrest, List.drop_one,
    List.tail_cons]

theorem scan_char (gen : Bytes → Bool → Gen (Option PlaceHolder)) {c : UInt8} {rest seg : Bytes}
    (hc : ¬ opening <+: c :: rest) (isString : Bool) :
    scan gen (c :: rest) seg isString = scan gen rest (seg ++ [c]) true := by
  rw [scan, if_neg (by rwa [startsWith, List.isPrefixOf_iff_prefix])]

variable (call) in
/-- What is gathered is a plain segment at each point of the loop. -/
theorem scan_expands {t out : Bytes} (h : Expands session t out) {seg : Bytes} {isString : Bool}
    (hseg : seg = [] ∨ isString = true) :
    ∃ hs, (∀ search params, scan (genHolder search) t seg isString params = some (hs, params)) ∧
      holdersVal call session hs = seg ++ out := by
  induction h generalizing seg isString with
  | nil =>
    obtain ⟨hs, hflush, hval⟩ := flush_text call session hseg
    exact ⟨hs, fun search params ↦ by rw [scan, hflush], by rw [hval, List.append_nil]⟩
  | @name n v rest out hn hv _ ih =>
    obtain ⟨before, hflush, hbefore⟩ := flush_text call session hseg
    obtain ⟨holder, hgen, hval⟩ := genHolder_known call hv
    obtain ⟨behind, hscan, hbehind⟩ := ih (.inl rfl)
    refine ⟨before ++ [holder] ++ behind, fun search params ↦ ?_, ?_⟩
    · rw [scan_opening _ hn]
      change (flush _ seg isString params).bind _ = _
      rw [hflush]
      change (genHolder search n false params).bind _ = _
      rw [hgen]
      change (scan _ rest [] false params).bind _ = _
      rw [hscan]
      rfl
    · rw [holdersVal_append, holdersVal_append, hbefore, hbehind, holdersVal, hval, holdersVal,
        List.append_nil, List.nil_append, List.append_assoc]
  | @char c rest out hc _ ih =>
    obtain ⟨hs, hscan, hval⟩ := @ih (seg ++ [c]) true (.inr rfl)
    refine ⟨hs, fun search params ↦ by rw [scan_char _ hc, hscan], ?_⟩
    rw [hval, List.append_assoc, List.singleton_append]

/-- A template whose names are known expands to the values of its holders and to nothing else. -/
theorem template_expands (call : Method → List Bytes → Bytes) (session : StreamSession)
    (table : Table) (t : Bytes) (hclosed : Closed t)
    (hknown : ∀ ps, Reads t ps → ∀ n, .name n ∈ ps → Known n) :
    ∃ holders, (∀ fuel, parseStringToPlaceholders table fuel t = some holders) ∧
      ∀ out, Expands session t out ↔ out = holdersVal call session holders := by
  obtain ⟨ps, hps⟩ := reads_of_closed hclosed
  obtain ⟨out, hout⟩ := expands_of_reads session hps (hknown ps hps)
  have hscan {out : Bytes} (hout : Expands session t out) :
      ∃ hs, (∀ search params, scan (genHolder search) t [] true params = some (hs, params)) ∧
        holdersVal call session hs = [] ++ out := scan_expands call hout (.inl rfl)
  obtain ⟨hs, hparse, hval⟩ := hscan hout
  refine ⟨hs, fun fuel ↦ ?_, fun out' ↦ ⟨fun hout' ↦ ?_, ?_⟩⟩
  · change (scan _ t [] true []).map Prod.fst = _
    rw [hparse]
    rfl
  · obtain ⟨hs', hparse', hval'⟩ := hscan hout'
    have hsame := (hparse' (fun _ ↦ failure) []).symm.trans (hparse (fun _ ↦ failure) [])
    rw [Option.some.injEq, Prod.mk.injEq] at hsame
    rw [← hsame.1, hval', List.nil_append]
  · rintro rfl
    rwa [hval, List.nil_append]

/-- The template `a$${app}${stream_name}`. -/
def appTemplate : Bytes :=
  97 :: 36 :: (opening ++ (ascii "app" ++ closing :: (opening ++ (ascii "stream_name" ++ closing :: []))))

def liveSession : StreamSession := ⟨[], ascii "live", ascii "cam", [], fun _ ↦ none, fun _ ↦ none⟩

theorem appTemplate_expands : ∃ holders,
    (∀ fuel, parseStringToPlaceholders [] fuel appTemplate = some holders) ∧
      holdersVal (fun _ _ ↦ []) liveSession holders = ascii "a$livecam" := by
  have happ : closing ∉ ascii "app" := by decide
  have hstream : closing ∉ ascii "stream_name" := by decide
  have hreads : Reads appTemplate
      [.char 97, .char 36, .name (ascii "app"), .name (ascii "stream_name")] :=
    .char (by decide) (.char (by decide) (.name happ (.name hstream .nil)))
  have hexpands : Expands liveSession appTemplate (ascii "a$livecam") :=
    .char (by decide) (.char (by decide) (.name happ .app (.name hstream .streamName .nil)))
  obtain ⟨holders, hparse, hval⟩ := template_expands (fun _ _ ↦ []) liveSession [] appTemplate
    (closed_of_getLast rfl) fun ps hps n hn ↦ by
      rw [hps.unique hreads] at hn
      simp only [List.mem_cons, reduceCtorEq, Piece.name.injEq, List.not_mem_nil, false_or, or_false] at hn
      rcases hn with rfl | rfl
      · exact .app
      · exact .streamName
  exact ⟨holders, hparse, ((hval _).mp hexpands).symm⟩

end Holders

end MmsServer.Config.Template
