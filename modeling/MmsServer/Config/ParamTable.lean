import MmsServer.Config.Template
import MmsServer.Lib.Fuel

namespace MmsServer.Config.ParamTable

open Lib.ByteReader Lib.Fuel Lib.KeyedList Lib.Text PlaceHolderGenerator Template

def names (text : Bytes) : List Bytes :=
  match text with
  | [] => []
  | c :: rest =>
    if startsWith (c :: rest) opening then
      (rest.drop 1).takeWhile (· != closing) ::
        names (((rest.drop 1).dropWhile (· != closing)).drop 1)
    else names rest
termination_by text.length
decreasing_by
  · have hle := (List.dropWhile_sublist (l := rest.drop 1) (· != closing)).length_le
    simp only [List.length_drop, List.length_cons] at hle ⊢
    omega
  · simp

theorem names_opening {n : Bytes} (hn : closing ∉ n) (rest : Bytes) :
    names (opening ++ (n ++ closing :: rest)) = n :: names rest := by
  have hopen : opening ++ (n ++ closing :: rest) = 36 :: 123 :: (n ++ closing :: rest) := rfl
  obtain ⟨hname, hrest⟩ := name_split hn rest
  rw [hopen, names, if_pos (by rfl), List.drop_one, List.tail_cons, hname, hrest, List.drop_one,
    List.tail_cons]

variable (table : Table)

/-- The arguments of `x` mention the parameter `y`. -/
def Mentions (y x : Bytes) : Prop :=
  ∃ method args, entry table x = some (method, args) ∧ ∃ n ∈ args.flatMap names, paramSeg n = some y

/-- A parameter with a readable entry all of whose names are known, or parameters like this. The
names lead back to none of them. -/
inductive Resolves : Bytes → Prop
  | intro {x : Bytes} {method : Method} {args : List Bytes} : entry table x = some (method, args) →
      (∀ n ∈ args.flatMap names, Known n ∨ (paramSeg n).isSome) →
      (∀ n ∈ args.flatMap names, ∀ y, paramSeg n = some y → Resolves y) → Resolves x

/-- Parameters that are complete: nothing in them leads back, and their entries can be read. -/
def Complete (params : Params) : Prop :=
  ∀ y, (valueAt y params).isSome → Acc (Mentions table) y ∧ (entry table y).isSome

section Scan

variable {gen : Bytes → Bool → Gen (Option PlaceHolder)} {text seg : Bytes} {isString : Bool}

theorem flush_total (h : ∀ s, Total (gen s true)) (hseg : seg = [] ∨ isString = true) :
    Total (flush gen seg isString) := by
  rw [flush]
  split
  · exact total_pure []
  · next hne =>
    rw [hseg.resolve_left hne]
    exact (h seg).bind fun _ ↦ total_pure _

theorem scan_total (h : ∀ s, Total (gen s true)) (hname : ∀ n ∈ names text, Total (gen n false))
    (hseg : seg = [] ∨ isString = true) : Total (scan gen text seg isString) := by
  induction text, seg, isString using scan.induct with
  | case1 seg isString =>
    rw [scan]
    exact flush_total h hseg
  | case2 seg isString c rest hopen ih =>
    rw [names, if_pos hopen] at hname
    rw [scan, if_pos hopen]
    exact (flush_total h hseg).bind fun before ↦ (hname _ List.mem_cons_self).bind fun holder ↦
      (ih (fun n hn ↦ hname n (List.mem_cons_of_mem _ hn)) (.inl rfl)).bind fun behind ↦
        total_pure _
  | case3 seg isString c rest hopen ih =>
    rw [names, if_neg hopen] at hname
    rw [scan, if_neg hopen]
    exact ih hname (.inr rfl)

variable {P : Params → Prop} {Q : Bytes → Prop}

theorem flush_leads (h : ∀ s, Leads P (gen s true) fun _ ↦ True)
    (hseg : seg = [] ∨ isString = true) : Leads P (flush gen seg isString) fun _ ↦ True := by
  rw [flush]
  split
  · exact leads_pure trivial
  · next hne =>
    rw [hseg.resolve_left hne]
    exact (h seg).bind fun _ _ ↦ leads_pure trivial

/-- What the steps for the names tell holds of each name once the loop has ended. -/
theorem scan_leads (h : ∀ s, Leads P (gen s true) fun _ ↦ True)
    (hname : ∀ n, Leads P (gen n false) fun _ ↦ Q n) (hseg : seg = [] ∨ isString = true) :
    Leads P (scan gen text seg isString) fun _ ↦ ∀ n ∈ names text, Q n := by
  induction text, seg, isString using scan.induct with
  | case1 seg isString =>
    rw [scan, names]
    exact (flush_leads h hseg).mono fun _ _ _ hn ↦ by cases hn
  | case2 seg isString c rest hopen ih =>
    rw [scan, if_pos hopen, names, if_pos hopen]
    exact (flush_leads h hseg).bind fun before _ ↦ (hname _).bind fun holder hq ↦
      (ih (.inl rfl)).bind fun behind hqs ↦ leads_pure (List.forall_mem_cons.mpr ⟨hq, hqs⟩)
  | case3 seg isString c rest hopen ih =>
    rw [scan, if_neg hopen, names, if_neg hopen]
    exact ih (.inr rfl)

theorem parseMethodParams_total (h : ∀ s, Total (gen s true)) {args : List Bytes}
    (hname : ∀ n ∈ args.flatMap names, Total (gen n false)) (param : Param) :
    Total (parseMethodParams gen param args) := by
  induction args generalizing param with
  | nil => exact total_pure _
  | cons arg args ih =>
    rw [List.flatMap_cons] at hname
    have harg : Total (parseMethodParam gen param arg) :=
      (scan_total h (fun n hn ↦ hname n (List.mem_append_left _ hn)) (.inl rfl)).bind fun _ ↦
        total_pure _
    refine harg.bind fun ⟨ret, param⟩ ↦ ?_
    dsimp only
    split
    · exact total_pure _
    · exact ih (fun n hn ↦ hname n (List.mem_append_right _ hn)) param

theorem parseMethodParam_leads (h : ∀ s, Leads P (gen s true) fun _ ↦ True)
    (hname : ∀ n, Leads P (gen n false) fun _ ↦ Q n) (param : Param) (arg : Bytes) :
    Leads P (parseMethodParam gen param arg) fun r ↦ r.1 = 0 ∧ ∀ n ∈ names arg, Q n :=
  (scan_leads h hname (.inl rfl)).bind fun _ hq ↦ leads_pure ⟨rfl, hq⟩

/-- No argument is turned down. -/
theorem parseMethodParams_leads (h : ∀ s, Leads P (gen s true) fun _ ↦ True)
    (hname : ∀ n, Leads P (gen n false) fun _ ↦ Q n) (param : Param) (args : List Bytes) :
    Leads P (parseMethodParams gen param args) fun r ↦
      r.isSome ∧ ∀ n ∈ args.flatMap names, Q n := by
  induction args generalizing param with
  | nil => exact leads_pure ⟨rfl, fun n hn ↦ by cases hn⟩
  | cons arg args ih =>
    refine (parseMethodParam_leads h hname param arg).bind fun ⟨ret, param⟩ ⟨hret, hq⟩ ↦ ?_
    dsimp only at hret ⊢
    rw [if_neg (not_not_intro hret)]
    refine (ih param).mono fun r hr ↦ ⟨hr.1, fun n hn ↦ ?_⟩
    rw [List.flatMap_cons, List.mem_append] at hn
    exact hn.elim (hq n) (hr.2 n)

end Scan

section Holder

variable {search : Bytes → Gen (Option Param)} {P : Params → Prop}

theorem genHolder_text_total (seg : Bytes) : Total (genHolder search seg true) := fun _ ↦ rfl

theorem genHolder_text_leads (seg : Bytes) : Leads P (genHolder search seg true) fun _ ↦ True :=
  leads_pure trivial

theorem paramSeg_ne {seg y : Bytes} (h : paramSeg seg = some y) :
    seg ≠ ascii "domain" ∧ seg ≠ ascii "app" ∧ seg ≠ ascii "stream_name" ∧
      seg ≠ ascii "stream_type" := by
  refine ⟨?_, ?_, ?_, ?_⟩ <;> rintro rfl <;> cases h

/-- A holder for a parameter is made from a complete one, or the parameter is searched. -/
theorem genHolder_param {seg y : Bytes} (h : paramSeg seg = some y) (params : Params) :
    genHolder search seg false params = match valueAt y params with
      | some param => some (some (.param y param.method param.holders), params)
      | none => (search y params).map fun r ↦
          (r.1.map fun param ↦ .param y param.method param.holders, r.2) := by
  obtain ⟨hd, ha, hn, ht⟩ := paramSeg_ne h
  rw [genHolder, if_neg (by decide), if_neg hd, if_neg ha, if_neg hn, if_neg ht, h]
  change (match valueAt y params with | some param => _ | none => _ : Gen (Option PlaceHolder)) params = _
  cases valueAt y params with
  | some param => rfl
  | none =>
    change (search y params).bind _ = _
    cases search y params with
    | none => rfl
    | some r => rfl

variable (search) in
/-- A holder for another name needs nothing else. -/
theorem genHolder_other {seg : Bytes} (h : paramSeg seg = none) :
    ∃ holder, ∀ params, genHolder search seg false params = some (holder, params) := by
  rw [genHolder, if_neg (by decide), h]
  split_ifs
  · exact ⟨_, fun _ ↦ rfl⟩
  · exact ⟨_, fun _ ↦ rfl⟩
  · exact ⟨_, fun _ ↦ rfl⟩
  · exact ⟨_, fun _ ↦ rfl⟩
  · cases bracketed (ascii "url_params[") seg with
    | some name => exact ⟨_, fun _ ↦ rfl⟩
    | none => exact ⟨_, fun _ ↦ rfl⟩

theorem genHolder_total {seg : Bytes} (h : ∀ y, paramSeg seg = some y → Total (search y)) :
    Total (genHolder search seg false) := by
  intro params
  cases hp : paramSeg seg with
  | none =>
    obtain ⟨holder, hh⟩ := genHolder_other search hp
    rw [hh, Option.isSome_some]
  | some y =>
    rw [genHolder_param hp]
    cases valueAt y params with
    | some param => rfl
    | none =>
      rw [Option.isSome_map]
      exact h y hp params

theorem genHolder_leads {A : Bytes → Prop} (hP : ∀ params y, P params →
    (valueAt y params).isSome → A y) (h : ∀ y, Leads P (search y) fun _ ↦ A y) (seg : Bytes) :
    Leads P (genHolder search seg false) fun _ ↦ ∀ y, paramSeg seg = some y → A y := by
  intro params holder params' hparams hgen
  cases hp : paramSeg seg with
  | none =>
    obtain ⟨holder', hh⟩ := genHolder_other search hp
    rw [hh] at hgen
    cases hgen
    exact ⟨hparams, fun y hy ↦ by cases hy⟩
  | some y =>
    rw [genHolder_param hp] at hgen
    cases hv : valueAt y params with
    | some param =>
      rw [hv] at hgen
      cases hgen
      refine ⟨hparams, fun y' hy' ↦ ?_⟩
      cases hy'
      exact hP params y hparams (by rw [hv, Option.isSome_some])
    | none =>
      rw [hv, Option.map_eq_some_iff] at hgen
      obtain ⟨r, hr, hgen⟩ := hgen
      cases hgen
      obtain ⟨hkeep, ha⟩ := h y params r.1 r.2 hparams hr
      refine ⟨hkeep, fun y' hy' ↦ ?_⟩
      cases hy'
      exact ha

end Holder

section Search

variable {table} {x : Bytes}

theorem acc_of_entry_none (h : entry table x = none) : Acc (Mentions table) x := by
  refine .intro x fun y ⟨method, args, he, _⟩ ↦ ?_
  rw [h] at he
  cases he

theorem complete_insertNew {params : Params} (h : Complete table params) {param : Param}
    (hacc : Acc (Mentions table) x) (he : (entry table x).isSome) :
    Complete table (insertNew x param params) := by
  intro y hy
  rw [valueAt, insertNew, lookup_modify] at hy
  split at hy
  · next hyx => exact hyx ▸ ⟨hacc, he⟩
  · exact h y hy

/-- A search can end only where the names of a parameter lead back nowhere. It finds the parameter
where its own entry can be read, whatever became of what the entry mentions. -/
theorem search_leads (fuel : ℕ) (x : Bytes) :
    Leads (Complete table) (recursiveSearchParamNode table fuel x) fun r ↦
      Acc (Mentions table) x ∧ (r.isSome ↔ (entry table x).isSome) := by
  induction fuel generalizing x with
  | zero => exact leads_failure
  | succ fuel ih =>
    rw [recursiveSearchParamNode]
    cases he : entry table x with
    | none => exact leads_pure ⟨acc_of_entry_none he, by simp⟩
    | some e =>
      obtain ⟨method, args⟩ := e
      have hname (n : Bytes) := genHolder_leads (A := Acc (Mentions table))
        (fun params y hparams hy ↦ (hparams y hy).1) (fun y ↦ (ih y).mono fun _ h ↦ h.1) n
      refine (parseMethodParams_leads genHolder_text_leads hname ⟨method, []⟩ args).bind
        fun r hr ↦ ?_
      obtain ⟨param, hparam⟩ := Option.isSome_iff_exists.mp hr.1
      have hacc : Acc (Mentions table) x := by
        refine .intro x fun y ⟨method', args', he', n, hn, hy⟩ ↦ ?_
        rw [he] at he'
        cases he'
        exact hr.2 n hn y hy
      rw [hparam]
      intro params r' params' hparams hend
      cases hend
      exact ⟨complete_insertNew hparams hacc (by rw [he, Option.isSome_some]), hacc, by simp⟩

/-- Where the names lead back nowhere, some fuel is enough from any complete parameters. -/
theorem search_total (h : Acc (Mentions table) x) :
    ∃ n, ∀ m ≥ n, Total (recursiveSearchParamNode table m x) := by
  induction h with
  | intro x _ ih =>
    cases he : entry table x with
    | none =>
      refine ⟨1, fun m hm ↦ ?_⟩
      obtain ⟨m, rfl⟩ : ∃ k, m = k + 1 := ⟨m - 1, by omega⟩
      rw [recursiveSearchParamNode, he]
      exact total_pure none
    | some e =>
      obtain ⟨method, args⟩ := e
      have hdeps : ∀ y ∈ (args.flatMap names).filterMap paramSeg,
          ∃ n, ∀ m ≥ n, Total (recursiveSearchParamNode table m y) := by
        intro y hy
        obtain ⟨n, hn, hy⟩ := List.mem_filterMap.mp hy
        exact ih y ⟨method, args, he, n, hn, hy⟩
      obtain ⟨N, hN⟩ := exists_total hdeps
      refine ⟨N + 1, fun m hm ↦ ?_⟩
      obtain ⟨m, rfl⟩ : ∃ k, m = k + 1 := ⟨m - 1, by omega⟩
      have hname : ∀ n ∈ args.flatMap names,
          Total (genHolder (recursiveSearchParamNode table m) n false) := fun n hn ↦
        genHolder_total fun y hy ↦ hN m (by omega) y (List.mem_filterMap.mpr ⟨n, hn, hy⟩)
      rw [recursiveSearchParamNode, he]
      refine (parseMethodParams_total genHolder_text_total hname ⟨method, []⟩).bind fun r ↦ ?_
      cases r with
      | none => exact total_pure none
      | some param => exact fun params ↦ rfl

end Search

section Agrees

variable {gen gen' : Bytes → Bool → Gen (Option PlaceHolder)} {search search' : Bytes → Gen (Option Param)}

theorem flush_agrees (h : ∀ s b, Agrees (gen' s b) (gen s b)) (seg : Bytes) (isString : Bool) :
    Agrees (flush gen' seg isString) (flush gen seg isString) := by
  rw [flush, flush]
  split
  · exact .refl _
  · exact (h seg isString).bind fun _ ↦ .refl _

theorem scan_agrees (h : ∀ s b, Agrees (gen' s b) (gen s b)) (text seg : Bytes) (isString : Bool) :
    Agrees (scan gen' text seg isString) (scan gen text seg isString) := by
  induction text, seg, isString using scan.induct with
  | case1 seg isString =>
    rw [scan, scan]
    exact flush_agrees h seg isString
  | case2 seg isString c rest hopen ih =>
    rw [scan, scan, if_pos hopen, if_pos hopen]
    exact (flush_agrees h seg isString).bind fun _ ↦ (h _ false).bind fun _ ↦ ih.bind fun _ ↦
      .refl _
  | case3 seg isString c rest hopen ih => rwa [scan, scan, if_neg hopen, if_neg hopen]

theorem parseMethodParam_agrees (h : ∀ s b, Agrees (gen' s b) (gen s b)) (param : Param)
    (arg : Bytes) : Agrees (parseMethodParam gen' param arg) (parseMethodParam gen param arg) :=
  (scan_agrees h arg [] true).bind fun _ ↦ .refl _

theorem parseMethodParams_agrees (h : ∀ s b, Agrees (gen' s b) (gen s b)) (param : Param)
    (args : List Bytes) :
    Agrees (parseMethodParams gen' param args) (parseMethodParams gen param args) := by
  induction args generalizing param with
  | nil => exact .refl _
  | cons arg args ih =>
    refine (parseMethodParam_agrees h param arg).bind fun ⟨ret, param⟩ ↦ ?_
    dsimp only
    split
    · exact .refl _
    · exact ih param

theorem genHolder_agrees (h : ∀ y, Agrees (search' y) (search y)) (seg : Bytes) (isString : Bool) :
    Agrees (genHolder search' seg isString) (genHolder search seg isString) := by
  intro params r hr
  cases isString with
  | true => exact hr
  | false =>
    cases hp : paramSeg seg with
    | none => rwa [genHolder, hp] at hr ⊢
    | some y =>
      rw [genHolder_param hp] at hr ⊢
      cases hv : valueAt y params with
      | some param => rwa [hv] at hr
      | none =>
        rw [hv, Option.map_eq_some_iff] at hr
        obtain ⟨r', hr', rfl⟩ := hr
        dsimp only
        rw [h y params r' hr', Option.map_some]

/-- More fuel changes no answer. -/
theorem search_agrees {n m : ℕ} (h : n ≤ m) (x : Bytes) :
    Agrees (recursiveSearchParamNode table m x) (recursiveSearchParamNode table n x) := by
  induction n generalizing m x with
  | zero => exact agrees_failure _
  | succ n ih =>
    obtain ⟨m, rfl⟩ : ∃ k, m = k + 1 := ⟨m - 1, by omega⟩
    rw [recursiveSearchParamNode, recursiveSearchParamNode]
    cases entry table x with
    | none => exact .refl _
    | some e =>
      have hnm : n ≤ m := by omega
      exact (parseMethodParams_agrees (genHolder_agrees fun y ↦ ih hnm y) _ _).bind fun _ ↦ .refl _

end Agrees

section Answers

/-- From some fuel on there is one answer, and it is right. -/
def Answers {α : Type} (run : ℕ → Gen α) (params : Params) (right : α → Prop) : Prop :=
  ∃ fuel r, (∀ m ≥ fuel, run m params = some r) ∧ right r.1

def ArgResolves (table : Table) (arg : Bytes) : Prop :=
  ∀ n ∈ names arg, (Known n ∨ (paramSeg n).isSome) ∧ ∀ y, paramSeg n = some y → Resolves table y

variable {table} {x : Bytes}

theorem Resolves.acc (h : Resolves table x) : Acc (Mentions table) x := by
  induction h with
  | @intro x method args he _ _ ih =>
    refine .intro x fun y ⟨method', args', he', n, hn, hy⟩ ↦ ?_
    rw [he] at he'
    cases he'
    exact ih n hn y hy

theorem Resolves.entry_isSome (h : Resolves table x) : (entry table x).isSome := by
  cases h with | intro he _ _ => rw [he, Option.isSome_some]

variable {params : Params}

theorem answers_of_agrees {α : Type} {run : ℕ → Gen α} {right : α → Prop}
    (h : ∀ n m, n ≤ m → Agrees (run m) (run n)) :
    Answers run params right ↔ ∃ fuel r, run fuel params = some r ∧ right r.1 := by
  constructor
  · rintro ⟨fuel, r, hrun, hr⟩
    exact ⟨fuel, r, hrun fuel le_rfl, hr⟩
  · rintro ⟨fuel, r, hrun, hr⟩
    exact ⟨fuel, r, fun m hm ↦ h fuel m hm params r hrun, hr⟩

theorem search_answers_iff (hparams : Complete table params) :
    Answers (fun fuel ↦ recursiveSearchParamNode table fuel x) params
      (fun r ↦ r.isSome ↔ Resolves table x) ↔ entry table x = none ∨ Resolves table x := by
  rw [answers_of_agrees fun n m h ↦ search_agrees table h x]
  constructor
  · rintro ⟨fuel, ⟨r, params'⟩, hrun, hr⟩
    obtain ⟨-, -, hsome⟩ := search_leads fuel x params r params' hparams hrun
    cases he : entry table x with
    | none => exact .inl rfl
    | some e => exact .inr (hr.mp (hsome.mpr (by rw [he, Option.isSome_some])))
  · intro h
    have hacc : Acc (Mentions table) x := h.elim acc_of_entry_none Resolves.acc
    obtain ⟨n, hn⟩ := search_total hacc
    obtain ⟨⟨r, params'⟩, hrun⟩ := Option.isSome_iff_exists.mp (hn n le_rfl params)
    obtain ⟨-, -, hsome⟩ := search_leads n x params r params' hparams hrun
    refine ⟨n, (r, params'), hrun, hsome.trans ⟨fun he ↦ h.resolve_left ?_, Resolves.entry_isSome⟩⟩
    rw [Option.isSome_iff_ne_none] at he
    exact he

theorem genHolder_answers_iff (hparams : Complete table params) {seg : Bytes}
    (hseg : paramSeg seg = some x) :
    Answers (fun fuel ↦ genHolder (recursiveSearchParamNode table fuel) seg false) params
      (fun r ↦ r.isSome ↔ Resolves table x) ↔ entry table x = none ∨ Resolves table x := by
  cases hv : valueAt x params with
  | some param =>
    have hrun (fuel : ℕ) : genHolder (recursiveSearchParamNode table fuel) seg false params =
        some (some (.param x param.method param.holders), params) := by
      rw [genHolder_param hseg, hv]
    have he := (hparams x (by rw [hv, Option.isSome_some])).2
    rw [Option.isSome_iff_ne_none] at he
    rw [or_iff_right he]
    constructor
    · rintro ⟨fuel, r, h, hr⟩
      rw [← Option.some.inj ((hrun fuel).symm.trans (h fuel le_rfl))] at hr
      exact hr.mp rfl
    · exact fun h ↦ ⟨0, _, fun m _ ↦ hrun m, iff_of_true rfl h⟩
  | none =>
    have hrun (fuel : ℕ) : genHolder (recursiveSearchParamNode table fuel) seg false params =
        (recursiveSearchParamNode table fuel x params).map fun r ↦
          (r.1.map fun param ↦ .param x param.method param.holders, r.2) := by
      rw [genHolder_param hseg, hv]
    rw [← search_answers_iff hparams,
      answers_of_agrees fun n m h ↦ genHolder_agrees (fun y ↦ search_agrees table h y) seg false,
      answers_of_agrees fun n m h ↦ search_agrees table h x]
    constructor
    · rintro ⟨fuel, r, h, hr⟩
      rw [hrun, Option.map_eq_some_iff] at h
      obtain ⟨r', hr', rfl⟩ := h
      rw [Option.isSome_map] at hr
      exact ⟨fuel, r', hr', hr⟩
    · rintro ⟨fuel, r, h, hr⟩
      refine ⟨fuel, _, by rw [hrun, h, Option.map_some], ?_⟩
      rwa [Option.isSome_map]

/-- An argument is never turned down. -/
theorem arg_answers_iff (hparams : Complete table params) (param : Param) (arg : Bytes) :
    Answers (fun fuel ↦ parseMethodParam (genHolder (recursiveSearchParamNode table fuel)) param arg)
      params (fun r ↦ r.1 = 0 ↔ ArgResolves table arg) ↔ ArgResolves table arg := by
  have hleads (fuel : ℕ) := parseMethodParam_leads genHolder_text_leads
    (genHolder_leads (A := Acc (Mentions table)) (fun params y hparams hy ↦ (hparams y hy).1)
      fun y ↦ (search_leads fuel y).mono fun _ h ↦ h.1) param arg
  rw [answers_of_agrees fun n m h ↦ parseMethodParam_agrees
    (genHolder_agrees fun y ↦ search_agrees table h y) param arg]
  constructor
  · rintro ⟨fuel, r, h, hr⟩
    exact hr.mp (hleads fuel params r.1 r.2 hparams h).2.1
  · intro h
    have hdeps : ∀ y ∈ (names arg).filterMap paramSeg,
        ∃ n, ∀ m ≥ n, Total (recursiveSearchParamNode table m y) := by
      intro y hy
      obtain ⟨n, hn, hy⟩ := List.mem_filterMap.mp hy
      exact search_total ((h n hn).2 y hy).acc
    obtain ⟨N, hN⟩ := exists_total hdeps
    have hscan : Total (scan (genHolder (recursiveSearchParamNode table N)) arg [] true) :=
      scan_total genHolder_text_total (fun n hn ↦ genHolder_total fun y hy ↦
        hN N le_rfl y (List.mem_filterMap.mpr ⟨n, hn, hy⟩)) (.inl rfl)
    obtain ⟨r, hr⟩ := Option.isSome_iff_exists.mp (hscan.bind (fun holders ↦
      total_pure ((0 : ℤ), param.addPlaceholder holders)) params)
    exact ⟨N, r, hr, iff_of_true (hleads N params r.1 r.2 hparams hr).2.1 h⟩

theorem not_acc_of_self {α : Type} {r : α → α → Prop} {a : α} (h : r a a) : ¬ Acc r a := by
  intro hacc
  induction hacc with
  | intro b _ ih => exact ih b h h

theorem complete_nil (table : Table) : Complete table [] := by
  intro y hy
  cases hy

/-- Beside complete parameters, a search and a holder answer rightly where the entry cannot be
read, or where it resolves with all that it leads to. An argument is parsed rightly where it
resolves. -/
theorem params_answer_iff (table : Table) (params : { params // Complete table params })
    (x : Bytes) (param : Param) (arg : Bytes) :
    (Answers (fun fuel ↦ recursiveSearchParamNode table fuel x) params
        (fun r ↦ r.isSome ↔ Resolves table x) ↔ entry table x = none ∨ Resolves table x) ∧
      (Answers (fun fuel ↦ genHolder (recursiveSearchParamNode table fuel)
        (ascii "params[" ++ (x ++ [93])) false) params (fun r ↦ r.isSome ↔ Resolves table x) ↔
          entry table x = none ∨ Resolves table x) ∧
      (Answers (fun fuel ↦ parseMethodParam (genHolder (recursiveSearchParamNode table fuel)) param
        arg) params (fun r ↦ r.1 = 0 ↔ ArgResolves table arg) ↔ ArgResolves table arg) :=
  ⟨search_answers_iff params.property,
    genHolder_answers_iff params.property (bracketed_append (ascii "params[") x),
    arg_answers_iff params.property param arg⟩

def oneParam (y : UInt8) : Table :=
  [([97], ascii "string(" ++ opening ++ ascii "params[" ++ [y, 93, closing, 41])]

/-- A parameter that mentions itself is searched for ever, and one that mentions a parameter that
is not there is found. -/
theorem selfMention_or_missing :
    ¬ Answers (fun fuel ↦ recursiveSearchParamNode (oneParam 97) fuel [97]) []
      (fun r ↦ r.isSome ↔ Resolves (oneParam 97) [97]) ∧
    ¬ Answers (fun fuel ↦ recursiveSearchParamNode (oneParam 98) fuel [97]) []
      (fun r ↦ r.isSome ↔ Resolves (oneParam 98) [97]) := by
  have ha : closing ∉ ascii "params[a]" := by decide
  have hb : closing ∉ ascii "params[b]" := by decide
  have hself : entry (oneParam 97) [97] =
      some (.string, [opening ++ (ascii "params[a]" ++ closing :: [])]) := rfl
  have hother : entry (oneParam 98) [97] =
      some (.string, [opening ++ (ascii "params[b]" ++ closing :: [])]) := rfl
  rw [search_answers_iff (complete_nil _), search_answers_iff (complete_nil _), hself, hother]
  refine ⟨fun h ↦ ?_, fun h ↦ ?_⟩
  · obtain h | h := h
    · cases h
    · have hment : Mentions (oneParam 97) [97] [97] :=
        ⟨_, _, hself, ascii "params[a]", by simp [names_opening ha], rfl⟩
      exact not_acc_of_self hment h.acc
  · obtain h | h := h
    · cases h
    · cases h with | intro he _ hres =>
      rw [hother] at he
      cases he
      have hmissing := hres (ascii "params[b]") (by simp [names_opening hb]) [98] rfl
      exact absurd hmissing.entry_isSome (by decide)

end Answers

end MmsServer.Config.ParamTable
