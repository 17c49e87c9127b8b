import Mathlib.Logic.Function.Basic
import MmsServer.Lib.Find
import MmsServer.Lib.Text

namespace MmsServer.Http.RequestText

open Lib.ByteReader Lib.Find Lib.Text

inductive HttpMethod
  | connect
  | get
  | head
  | post
  | put
  | delete
  | trace
  | options
  | patch
deriving DecidableEq

abbrev Fields := Bytes → Option Bytes

def Fields.set (fields : Fields) (k v : Bytes) : Fields := Function.update fields k (some v)

/-- A method that nothing has been assigned to is indeterminate. -/
structure HttpRequest where
  method : Option HttpMethod := none
  path : Bytes := []
  queryParams : Fields := fun _ ↦ none
  headers : Fields := fun _ ↦ none
  scheme : Bytes := []
  version : Bytes := []
  body : Bytes := []

def HttpRequest.getHeader (req : HttpRequest) (k : Bytes) : Bytes := (req.headers k).getD []

def parseMethod (m : Bytes) : Option HttpMethod :=
  if m = ascii "GET" then some .get
  else if m = ascii "POST" then some .post
  else if m = ascii "HEAD" then some .head
  else if m = ascii "OPTIONS" then some .options
  else if m = ascii "PUT" then some .put
  else if m = ascii "DELETE" then some .delete
  else if m = ascii "PATCH" then some .patch
  else none

def parseQueryParam (queryParams : Fields) (s : Bytes) : Fields :=
  match find (ascii "=") s with
  | none => queryParams
  | some equPos => queryParams.set (s.take equPos) (s.drop (equPos + 1))

def parsePath (req : HttpRequest) (p : Bytes) : HttpRequest :=
  match find (ascii "?") p with
  | some pos =>
    { req with
      path := p.take pos
      queryParams := ((p.drop (pos + 1)).splitOn 38).foldl parseQueryParam req.queryParams }
  | none => { req with path := p }

def parseRequestLine (s : Bytes) : Option HttpRequest :=
  match s.splitOn 32 with
  | [m, p, h] =>
    match parseMethod m with
    | none => none
    | some method =>
      match h.splitOn 47 with
      | scheme :: version :: _ =>
        if scheme ≠ ascii "HTTP" then none
        else some { parsePath { method := some method } p with scheme, version }
      | _ => none
  | _ => none

def HttpRequest.parseHeader (req : HttpRequest) (s : Bytes) : Option HttpRequest :=
  match find (ascii ":") s with
  | none => none
  | some pos => some { req with headers := req.headers.set (s.take pos) (trim (s.drop (pos + 1))) }

/-- How much `parse_body` consumes, and the object behind it. The length from `atoi`
is compared as a `size_t`. -/
def HttpRequest.parseBody (req : HttpRequest) (buf : Bytes) : ℕ × HttpRequest :=
  let contentLen := req.getHeader (ascii "Content-Length")
  if contentLen = [] then (buf.length, { req with body := req.body ++ buf })
  else if buf.length < (atoi contentLen % 2 ^ 64).toNat then (0, req)
  else (buf.length, { req with body := req.body ++ buf })

section Wire

def HttpMethod.name : HttpMethod → Bytes
  | .connect => ascii "CONNECT"
  | .get => ascii "GET"
  | .head => ascii "HEAD"
  | .post => ascii "POST"
  | .put => ascii "PUT"
  | .delete => ascii "DELETE"
  | .trace => ascii "TRACE"
  | .options => ascii "OPTIONS"
  | .patch => ascii "PATCH"

def HttpMethod.Known (m : HttpMethod) : Prop := m ≠ .connect ∧ m ≠ .trace

instance (m : HttpMethod) : Decidable m.Known := inferInstanceAs (Decidable (_ ∧ _))

def Without (letters text : Bytes) : Prop := ∀ c ∈ letters, c ∉ text

instance (letters text : Bytes) : Decidable (Without letters text) :=
  List.decidableBAll (fun c ↦ c ∉ text) letters

/-- The last value counts where a name comes twice. -/
def fieldsOf (fields : List (Bytes × Bytes)) : Fields :=
  fields.foldl (fun m f ↦ m.set f.1 f.2) fun _ ↦ none

def contentLength (headers : List (Bytes × Bytes)) : Bytes :=
  (fieldsOf headers (ascii "Content-Length")).getD []

structure Request where
  method : HttpMethod
  path : Bytes
  query : List (Bytes × Bytes)
  version : Bytes
  headers : List (Bytes × Bytes)
  body : Bytes
  path_without : Without [13, 32, 63] path
  query_without : ∀ q ∈ query, Without [13, 32, 38, 61] q.1 ∧ Without [13, 32, 38] q.2
  version_without : Without [13, 32, 47] version
  headers_without : ∀ h ∈ headers, Without [13, 32, 58] h.1 ∧ Without [13] h.2
  trimmed : ∀ h ∈ headers, trim h.2 = h.2
  unsized : method = .get ∨ contentLength headers = [] → body = []
  sized : method ≠ .get → contentLength headers ≠ [] →
    strtol 10 (contentLength headers) = some (body.length : ℤ)

def queryText (query : List (Bytes × Bytes)) : Bytes :=
  [38].intercalate (query.map fun q ↦ q.1 ++ 61 :: q.2)

def targetText (path : Bytes) (query : List (Bytes × Bytes)) : Bytes :=
  if query = [] then path else path ++ 63 :: queryText query

def headerLine (h : Bytes × Bytes) : Bytes := h.1 ++ 58 :: 32 :: h.2

/-- The lines of a head up to the empty one. -/
def linesText (headers : List (Bytes × Bytes)) : Bytes :=
  headers.flatMap (headerLine · ++ crlf) ++ crlf

namespace Request

def line (r : Request) : Bytes :=
  r.method.name ++ 32 :: (targetText r.path r.query ++ 32 :: (ascii "HTTP" ++ 47 :: r.version))

def head (r : Request) : Bytes := r.line ++ crlf ++ linesText r.headers

def wire (r : Request) : Bytes := r.head ++ r.body

def start (r : Request) : HttpRequest where
  method := some r.method
  path := r.path
  queryParams := fieldsOf r.query
  scheme := ascii "HTTP"
  version := r.version

def headObject (r : Request) : HttpRequest := { r.start with headers := fieldsOf r.headers }

def object (r : Request) : HttpRequest := { r.headObject with body := r.body }

end Request

end Wire

section Parse

variable {text : Bytes}

theorem linesText_cons (h : Bytes × Bytes) (left : List (Bytes × Bytes)) :
    linesText (h :: left) = headerLine h ++ (crlf ++ linesText left) := by
  simp only [linesText, List.flatMap_cons, List.append_assoc]

theorem linesText_nil : linesText [] = crlf := rfl

theorem name_without (m : HttpMethod) : Without [13, 32, 58] m.name := by
  cases m <;> decide

theorem parseMethod_name (m : HttpMethod) :
    parseMethod m.name = if m.Known then some m else none := by
  cases m <;> decide

theorem find_letter {c : UInt8} {front : Bytes} (h : c ∉ front) (rest : Bytes) :
    find [c] (front ++ c :: rest) = some front.length := find_line h rest

theorem take_front (front rest : Bytes) (c : UInt8) :
    (front ++ c :: rest).take front.length = front := List.take_left

theorem drop_front (front rest : Bytes) (c : UInt8) :
    (front ++ c :: rest).drop (front.length + 1) = rest := by
  rw [← List.singleton_append, ← List.append_assoc]
  exact List.drop_left' (by rw [List.length_append, List.length_singleton])

theorem parseQueryParam_eq {q : Bytes × Bytes} (h : Without [13, 32, 38, 61] q.1)
    (queryParams : Fields) :
    parseQueryParam queryParams (q.1 ++ 61 :: q.2) = queryParams.set q.1 q.2 := by
  have hfind : find (ascii "=") (q.1 ++ 61 :: q.2) = some q.1.length :=
    find_letter (h 61 (by decide)) q.2
  rw [parseQueryParam, hfind]
  simp only [take_front, drop_front]

theorem splitOn_queryText {query : List (Bytes × Bytes)} (hne : query ≠ [])
    (h : ∀ q ∈ query, Without [13, 32, 38, 61] q.1 ∧ Without [13, 32, 38] q.2) :
    (queryText query).splitOn 38 = query.map fun q ↦ q.1 ++ 61 :: q.2 := by
  refine List.splitOn_intercalate 38 ?_ (List.map_eq_nil_iff.not.mpr hne)
  intro text htext
  obtain ⟨q, hq, rfl⟩ := List.mem_map.mp htext
  rw [List.mem_append, List.mem_cons]
  rintro (hl | hl | hl)
  · exact (h q hq).1 38 (by decide) hl
  · cases hl
  · exact (h q hq).2 38 (by decide) hl

theorem foldl_parseQueryParam (query : List (Bytes × Bytes))
    (h : ∀ q ∈ query, Without [13, 32, 38, 61] q.1 ∧ Without [13, 32, 38] q.2)
    (queryParams : Fields) :
    (query.map fun q ↦ q.1 ++ 61 :: q.2).foldl parseQueryParam queryParams =
      query.foldl (fun m f ↦ m.set f.1 f.2) queryParams := by
  induction query generalizing queryParams with
  | nil => rfl
  | cons q query ih =>
    rw [List.map_cons, List.foldl_cons, List.foldl_cons,
      parseQueryParam_eq (h q List.mem_cons_self).1]
    exact ih (fun q hq ↦ h q (List.mem_cons_of_mem _ hq)) _

section Target

variable {query : List (Bytes × Bytes)}

/-- A target is taken apart at its question mark. -/
theorem find_target {path : Bytes} (hpath : Without [13, 32, 63] path) :
    find (ascii "?") (targetText path query) = if query = [] then none else some path.length := by
  rw [targetText]
  split
  · exact find_none (hpath 63 (by decide))
  · exact find_letter (hpath 63 (by decide)) _

theorem target_params (path : Bytes) (hne : query ≠ [])
    (h : ∀ q ∈ query, Without [13, 32, 38, 61] q.1 ∧ Without [13, 32, 38] q.2) :
    (targetText path query).take path.length = path ∧
      (((targetText path query).drop (path.length + 1)).splitOn 38).foldl parseQueryParam
        (fun _ ↦ none) = fieldsOf query := by
  rw [targetText, if_neg hne, take_front, drop_front, splitOn_queryText hne h,
    foldl_parseQueryParam query h]
  exact ⟨rfl, rfl⟩

end Target

theorem parsePath_target (r : Request) (req : HttpRequest) (hreq : req.queryParams = fun _ ↦ none) :
    parsePath req (targetText r.path r.query) =
      { req with path := r.path, queryParams := fieldsOf r.query } := by
  rw [parsePath, find_target r.path_without]
  by_cases hq : r.query = []
  · rw [if_pos hq, hq]
    simp only [targetText, if_true, fieldsOf, List.foldl_nil, ← hreq]
  · obtain ⟨hpath, hparams⟩ := target_params r.path hq r.query_without
    rw [if_neg hq]
    simp only [hreq, hpath, hparams]

theorem mem_intercalate {c sep : UInt8} {texts : List Bytes} (h : c ∈ [sep].intercalate texts) :
    c = sep ∨ ∃ text ∈ texts, c ∈ text := by
  induction texts with
  | nil => cases h
  | cons text texts ih =>
    cases texts with
    | nil =>
      rw [List.intercalate_singleton] at h
      exact .inr ⟨text, List.mem_cons_self, h⟩
    | cons text' texts =>
      rw [List.intercalate_cons_cons, List.mem_append, List.mem_append, List.mem_singleton] at h
      rcases h with (hl | rfl) | hl
      · exact .inr ⟨text, List.mem_cons_self, hl⟩
      · exact .inl rfl
      · rcases ih hl with rfl | ⟨t, ht, hl⟩
        · exact .inl rfl
        · exact .inr ⟨t, List.mem_cons_of_mem _ ht, hl⟩

theorem Without.mono {letters letters' : Bytes} (h : Without letters text)
    (hsub : ∀ c ∈ letters', c ∈ letters) : Without letters' text := fun c hc ↦ h c (hsub c hc)

theorem target_without {path : Bytes} {query : List (Bytes × Bytes)}
    (hpath : Without [13, 32, 63] path)
    (hquery : ∀ q ∈ query, Without [13, 32, 38, 61] q.1 ∧ Without [13, 32, 38] q.2) :
    Without [13, 32] (targetText path query) := by
  intro c hc hl
  have hpath' : c ∉ path := hpath.mono (by simp) c hc
  have hne : c ≠ 38 ∧ c ≠ 61 ∧ c ≠ 63 :=
    (by simp : ∀ c ∈ ([13, 32] : Bytes), c ≠ 38 ∧ c ≠ 61 ∧ c ≠ 63) c hc
  rw [targetText] at hl
  split at hl
  · exact hpath' hl
  · rw [List.mem_append, List.mem_cons] at hl
    rcases hl with hl | hl | hl
    · exact hpath' hl
    · exact hne.2.2 hl
    · rcases mem_intercalate hl with hl | ⟨text, htext, hl⟩
      · exact hne.1 hl
      · obtain ⟨q, hq, rfl⟩ := List.mem_map.mp htext
        rw [List.mem_append, List.mem_cons] at hl
        rcases hl with hl | hl | hl
        · exact (hquery q hq).1.mono (by simp) c hc hl
        · exact hne.2.1 hl
        · exact (hquery q hq).2.mono (by simp) c hc hl

theorem parseRequestLine_line (r : Request) :
    parseRequestLine r.line = if r.method.Known then some r.start else none := by
  have hm : 32 ∉ r.method.name := name_without r.method 32 (by decide)
  have ht : 32 ∉ targetText r.path r.query :=
    target_without r.path_without r.query_without 32 (by decide)
  have hv : 32 ∉ ascii "HTTP" ++ 47 :: r.version := by
    rw [List.mem_append, List.mem_cons]
    rintro (hl | hl | hl)
    · revert hl
      decide
    · cases hl
    · exact r.version_without 32 (by decide) hl
  have hsplit : r.line.splitOn 32 =
      [r.method.name, targetText r.path r.query, ascii "HTTP" ++ 47 :: r.version] := by
    rw [Request.line, List.splitOn_append_cons_self_of_not_mem hm,
      List.splitOn_append_cons_self_of_not_mem ht, List.splitOn_eq_singleton hv]
  have hversion : (ascii "HTTP" ++ 47 :: r.version).splitOn 47 = [ascii "HTTP", r.version] := by
    rw [List.splitOn_append_cons_self_of_not_mem (by decide),
      List.splitOn_eq_singleton (r.version_without 47 (by decide))]
  rw [parseRequestLine, hsplit]
  simp only [parseMethod_name]
  by_cases hk : r.method.Known
  · simp only [if_pos hk, hversion]
    rw [if_neg (not_not_intro rfl), parsePath_target r _ rfl]
    rfl
  · simp only [if_neg hk]

theorem trim_space (v : Bytes) : trim (32 :: v) = trim v := by
  rw [trim, List.dropWhile_cons_of_pos (by decide)]
  rfl

theorem parseHeader_line {h : Bytes × Bytes} (hname : Without [13, 32, 58] h.1)
    (htrim : trim h.2 = h.2) (req : HttpRequest) :
    req.parseHeader (headerLine h) = some { req with headers := req.headers.set h.1 h.2 } := by
  have hfind : find (ascii ":") (headerLine h) = some h.1.length :=
    find_letter (hname 58 (by decide)) _
  rw [HttpRequest.parseHeader, hfind, headerLine]
  simp only [take_front, drop_front, trim_space, htrim]

theorem noQuery_without :
    ∀ q ∈ ([] : List (Bytes × Bytes)), Without [13, 32, 38, 61] q.1 ∧ Without [13, 32, 38] q.2 :=
  List.forall_mem_nil _

/-- A line of three parts, as in `GET /path HTTP/1.1`, with the slash in the last one. -/
theorem threeParts_no_cr {first second name version : Bytes} (h₁ : 13 ∉ first) (h₂ : 13 ∉ second)
    (h₃ : 13 ∉ name) (h₄ : 13 ∉ version) :
    13 ∉ first ++ 32 :: (second ++ 32 :: (name ++ 47 :: version)) := by
  rw [List.mem_append, List.mem_cons, List.mem_append, List.mem_cons, List.mem_append, List.mem_cons]
  rintro (hl | hl | hl | hl | hl | hl | hl)
  · exact h₁ hl
  · cases hl
  · exact h₂ hl
  · cases hl
  · exact h₃ hl
  · cases hl
  · exact h₄ hl

theorem line_no_cr (r : Request) : 13 ∉ r.line :=
  threeParts_no_cr (name_without r.method 13 (by decide))
    (target_without r.path_without r.query_without 13 (by decide)) (by decide)
    (r.version_without 13 (by decide))

theorem headerLine_no_cr {h : Bytes × Bytes} (hname : 13 ∉ h.1) (hvalue : 13 ∉ h.2) :
    13 ∉ headerLine h := by
  rw [headerLine, List.mem_append, List.mem_cons, List.mem_cons]
  rintro (hl | hl | hl | hl)
  · exact hname hl
  · cases hl
  · cases hl
  · exact hvalue hl

/-- Some header has a name with a space, which no request has. -/
def HttpRequest.Polluted (req : HttpRequest) : Prop := ∃ k, 32 ∈ k ∧ req.headers k ≠ none

theorem fieldsOf_none {fields : List (Bytes × Bytes)} {k : Bytes} (h : ∀ f ∈ fields, f.1 ≠ k) :
    fieldsOf fields k = none := by
  have hfold (m : Fields) : fields.foldl (fun m f ↦ m.set f.1 f.2) m k = m k := by
    induction fields generalizing m with
    | nil => rfl
    | cons f fields ih =>
      rw [List.foldl_cons, ih fun f hf ↦ h f (List.mem_cons_of_mem _ hf)]
      exact Function.update_of_ne (h f List.mem_cons_self).symm _ _
  exact hfold _

theorem object_not_polluted (r : Request) : ¬ r.object.Polluted := by
  rintro ⟨k, hk, hne⟩
  refine hne (fieldsOf_none fun f hf ↦ ?_)
  rintro rfl
  exact (r.headers_without f hf).1 32 (by decide) hk

theorem HttpRequest.Polluted.parseHeader {req req' : HttpRequest} (h : req.Polluted)
    (hreq : req.parseHeader text = some req') : req'.Polluted := by
  obtain ⟨k, hk, hne⟩ := h
  rw [HttpRequest.parseHeader] at hreq
  split at hreq
  · cases hreq
  · cases hreq
    refine ⟨k, hk, ?_⟩
    simp only [Fields.set, Function.update_apply]
    split
    · exact Option.some_ne_none _
    · exact hne

theorem HttpRequest.Polluted.parseBody {req : HttpRequest} (h : req.Polluted) (buf : Bytes) :
    (req.parseBody buf).2.Polluted := by
  unfold HttpRequest.parseBody
  dsimp only
  split
  · exact h
  · split
    · exact h
    · exact h

/-- A request line that is taken for a header leaves its name behind. -/
theorem parseHeader_requestLine (r : Request) {req req' : HttpRequest}
    (hreq : req.parseHeader r.line = some req') : req'.Polluted := by
  rw [HttpRequest.parseHeader] at hreq
  split at hreq
  · cases hreq
  · rename_i pos hpos
    cases hreq
    have hname : 58 ∉ r.method.name ++ [32] := by
      rw [List.mem_append, List.mem_singleton]
      rintro (hl | hl)
      · exact name_without r.method 58 (by decide) hl
      · cases hl
    have hline : r.line =
        (r.method.name ++ [32]) ++ (targetText r.path r.query ++ 32 :: (ascii "HTTP" ++ 47 :: r.version)) := by
      rw [Request.line, List.append_assoc, List.singleton_append]
    have hlen : (r.method.name ++ [32]).length ≤ pos := by
      have hp := find_prefix (hline ▸ hpos)
      have hn : find (ascii ":") (r.method.name ++ [32]) = none := find_none hname
      rw [hn] at hp
      by_contra hlt
      rw [if_pos] at hp
      · cases hp
      · change pos + 1 ≤ _
        omega
    refine ⟨r.line.take pos, ?_, ?_⟩
    · rw [hline, List.take_append, List.take_of_length_le hlen, List.mem_append, List.mem_append]
      exact .inl (.inr List.mem_cons_self)
    · simp only [Fields.set, Function.update_self]
      exact Option.some_ne_none _

end Parse

end MmsServer.Http.RequestText
