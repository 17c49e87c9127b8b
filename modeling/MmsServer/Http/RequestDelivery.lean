import MmsServer.Http.RequestSession

namespace MmsServer.Http.RequestDelivery

open Lib.ByteReader Lib.Find Lib.Pieces Lib.Text RequestText RequestSession

section Position

/-- Where in the stream the parser is: in front of a request, within a head with some
of its header lines to come, or behind one. -/
inductive Position
  | line (rs : List Request)
  | header (r : Request) (left : List (Bytes × Bytes)) (rs : List Request)
  | body (r : Request) (rs : List Request)
  | stray (rs : List Request)

def wires (rs : List Request) : Bytes := rs.flatMap Request.wire

namespace Position

def todo : Position → List Request
  | line rs => rs
  | header r _ rs => r :: rs
  | body r rs => r :: rs
  | stray rs => rs

def rest : Position → Bytes
  | line rs => wires rs
  | header r left rs => linesText left ++ (r.body ++ wires rs)
  | body r rs => r.body ++ wires rs
  | stray rs => wires rs

/-- How much has to be there for the parser to go on. -/
def need : Position → ℕ
  | line (r :: _) => r.line.length + 2
  | header _ (h :: _) _ => (headerLine h).length + 2
  | header _ [] _ => 2
  | stray (r :: _) => r.line.length + 2
  | _ => 1

def Is (parser : HttpParser) : Position → Prop
  | line _ => parser.state = .waitRequestLine
  | header r left _ => parser.state = .waitHeader ∧
      ∃ seen, r.headers = seen ++ left ∧ parser.httpReq = { r.start with headers := fieldsOf seen }
  | body r _ => parser = ⟨.requestBody, r.headObject⟩ ∧ r.method ≠ .get ∧ contentLength r.headers ≠ []
  | stray _ => parser.state = .waitHeader

end Position

def Behind (r : Request) (rs : List Request) (pieces : List Bytes) : Prop :=
  if r.method = .get then Recognised rs pieces
  else if contentLength r.headers = [] then rs = []
  else pieces.head? = some r.body ∧ Recognised rs pieces.tail

/-- The condition on what is still to come, cut into pieces. -/
def Position.Good (pieces : List Bytes) : Position → Prop
  | line rs => Recognised rs pieces
  | header r left rs => (∀ h ∈ left, LineFits (headerLine h)) ∧
      Behind r rs (skip (linesText left).length pieces)
  | body r rs => (skip 0 pieces).head? = some r.body ∧ Recognised rs (skip 0 pieces).tail
  | stray rs => rs = []

theorem recognised_cons {r : Request} {rs : List Request} {pieces : List Bytes} :
    Recognised (r :: rs) pieces ↔
      (r.method.Known ∧ LineFits r.line ∧ ∀ h ∈ r.headers, LineFits (headerLine h)) ∧
        Behind r rs (skip r.head.length pieces) := Iff.rfl

theorem recognised_skip_zero {rs : List Request} {pieces : List Bytes} :
    Recognised rs (skip 0 pieces) ↔ Recognised rs pieces := by
  cases rs with
  | nil => rfl
  | cons r rs => rw [recognised_cons, recognised_cons, skip_skip, Nat.zero_add]

theorem recognised_nil_cons {rs : List Request} {pieces : List Bytes} :
    Recognised rs ([] :: pieces) ↔ Recognised rs pieces := by
  rw [← recognised_skip_zero, ← @recognised_skip_zero rs pieces]
  rfl

theorem good_of_todo_nil {p : Position} (h : p.todo = []) (pieces : List Bytes) : p.Good pieces := by
  cases p with
  | line rs =>
    obtain rfl : rs = [] := h
    trivial
  | header r left rs => cases h
  | body r rs => cases h
  | stray rs => exact h

/-- What is in the buffer already may be seen as a part of the next piece. -/
theorem good_merge {p : Position} {buf : Bytes} (h : buf.length < p.need) (piece : Bytes)
    (pieces : List Bytes) : p.Good (buf :: piece :: pieces) ↔ p.Good ((buf ++ piece) :: pieces) := by
  cases p with
  | line rs =>
    cases rs with
    | nil => rfl
    | cons r rs =>
      have hle : buf.length ≤ r.head.length := by
        rw [Request.head, List.length_append, List.length_append]
        exact Nat.le_trans (Nat.le_of_lt h) (Nat.le_add_right _ _)
      rw [Position.Good, Position.Good, recognised_cons, recognised_cons, skip_merge hle]
  | header r left rs =>
    have hle : buf.length ≤ (linesText left).length := by
      cases left with
      | nil => exact Nat.le_of_lt h
      | cons h' left =>
        rw [linesText_cons, List.length_append, List.length_append, ← Nat.add_assoc]
        exact Nat.le_trans (Nat.le_of_lt h) (Nat.le_add_right _ _)
    rw [Position.Good, Position.Good, skip_merge hle]
  | body r rs => rw [Position.Good, Position.Good, skip_merge (Nat.le_of_lt_succ h)]
  | stray rs => rfl

/-- A line for which the buffer is too small. -/
theorem not_good_of_need {p : Position} (h : bufLimit < p.need) (pieces : List Bytes) :
    p.todo ≠ [] ∧ ¬ p.Good pieces := by
  have hone : ¬ bufLimit < 1 := by decide
  have htwo : ¬ bufLimit < 2 := by decide
  cases p with
  | line rs =>
    cases rs with
    | nil => exact absurd h hone
    | cons r rs =>
      refine ⟨List.cons_ne_nil r rs, fun hg ↦ ?_⟩
      exact Nat.not_le.mpr h hg.1.2.1
  | header r left rs =>
    cases left with
    | nil => exact absurd h htwo
    | cons h' left =>
      refine ⟨List.cons_ne_nil r rs, fun hg ↦ ?_⟩
      exact Nat.not_le.mpr h (hg.1 h' List.mem_cons_self)
  | body r rs => exact absurd h hone
  | stray rs =>
    cases rs with
    | nil => exact absurd h hone
    | cons r rs => exact ⟨List.cons_ne_nil r rs, List.cons_ne_nil r rs⟩

theorem wires_cons (r : Request) (rs : List Request) :
    wires (r :: rs) = r.line ++ (crlf ++ (linesText r.headers ++ (r.body ++ wires rs))) := by
  simp only [wires, List.flatMap_cons, Request.wire, Request.head, List.append_assoc]

/-- All of the stream has been received, and the parser waits for more of it. -/
theorem good_iff_of_end {p : Position} (h : p.rest.length < p.need) :
    p.Good [p.rest] ↔ p.todo = [] := by
  refine ⟨fun hg ↦ ?_, fun ht ↦ good_of_todo_nil ht _⟩
  cases p with
  | line rs =>
    cases rs with
    | nil => rfl
    | cons r rs =>
      rw [Position.rest, wires_cons, List.length_append, List.length_append] at h
      change r.line.length + (2 + _) < r.line.length + 2 at h
      omega
  | header r left rs =>
    rw [Position.rest, List.length_append] at h
    cases left with
    | nil =>
      change 2 + _ < 2 at h
      omega
    | cons h' left =>
      rw [linesText_cons, List.length_append, List.length_append] at h
      change (headerLine h').length + (2 + _) + _ < (headerLine h').length + 2 at h
      omega
  | body r rs =>
    have hnil : (Position.body r rs).rest = [] := List.eq_nil_of_length_eq_zero (Nat.lt_one_iff.mp h)
    rw [hnil] at hg
    cases hg.1
  | stray rs => exact hg

end Position

section Read

def Astray (parser : HttpParser) : Prop :=
  parser.state = .requestError ∨
    (parser.state = .waitHeader ∨ parser.state = .requestBody) ∧ parser.httpReq.Polluted

/-- What a call of `read` can come to, with a buffer that is not empty. -/
inductive Outcome (p : Position) (buf later : Bytes) (r : ReadResult) : Prop
  | waits (code : r.code = 0) (called : r.called = none) (is : p.Is r.parser)
      (short : buf.length < p.need)
  | moves (p' : Position) (n : ℕ) (code : r.code = n) (pos : 0 < n) (le : n ≤ buf.length)
      (is : p'.Is r.parser) (rest : buf.drop n ++ later = p'.rest)
      (todo : p.todo.map Request.object = r.called.toList ++ p'.todo.map Request.object)
      (good : ∀ pieces, p.Good (buf :: pieces) ↔ p'.Good (buf.drop n :: pieces))
  | strays (todo : p.todo ≠ []) (bad : ∀ pieces, ¬ p.Good (buf :: pieces)) (called : r.called = none)
      (astray : Astray r.parser)
  | differs (req : HttpRequest) (q : Request) (bad : ∀ pieces, ¬ p.Good (buf :: pieces))
      (called : r.called = some req) (todo : p.todo.head? = some q) (ne : req ≠ q.object)

variable {buf later rest line : Bytes} {parser : HttpParser}

theorem find_crlf (hcr : 13 ∉ line) (h : buf ++ later = line ++ (crlf ++ rest)) :
    find crlf buf = if line.length + 2 ≤ buf.length then some line.length else none := by
  have hline : find crlf (buf ++ later) = some line.length := by
    rw [h]
    exact find_line hcr rest
  exact find_prefix hline

theorem line_received (h : buf ++ later = line ++ (crlf ++ rest))
    (hle : line.length + 2 ≤ buf.length) :
    buf.take line.length = line ∧ buf.drop (line.length + 2) ++ later = rest := by
  have hpre : line ++ crlf <+: buf ++ later := by
    rw [h, ← List.append_assoc]
    exact List.prefix_append _ _
  obtain ⟨tail, rfl⟩ : line ++ crlf <+: buf := by
    refine List.prefix_of_prefix_length_le hpre (List.prefix_append buf later) ?_
    rw [List.length_append]
    exact hle
  rw [List.append_assoc, List.append_assoc, List.append_cancel_left_eq,
    List.append_cancel_left_eq] at h
  refine ⟨?_, ?_⟩
  · rw [List.append_assoc, List.take_left]
  · rw [List.drop_left' (by rw [List.length_append]; rfl), h]

theorem read_line {r : Request} {rs : List Request} (hbuf : buf.length ≤ bufLimit)
    (his : (Position.line (r :: rs)).Is parser)
    (hrest : buf ++ later = (Position.line (r :: rs)).rest) :
    Outcome (.line (r :: rs)) buf later (parser.read buf) := by
  obtain ⟨state, httpReq⟩ := parser
  obtain rfl : state = .waitRequestLine := his
  rw [Position.rest, wires_cons] at hrest
  have hfind := find_crlf (line_no_cr r) hrest
  by_cases hle : r.line.length + 2 ≤ buf.length
  · obtain ⟨htake, hdrop⟩ := line_received hrest hle
    rw [if_pos hle] at hfind
    simp only [HttpParser.read, hfind, htake, parseRequestLine_line]
    by_cases hk : r.method.Known
    · rw [if_pos hk]
      refine .moves (.header r r.headers rs) (r.line.length + 2) rfl (Nat.succ_pos _) hle ?_ hdrop rfl
        fun pieces ↦ ?_
      · exact ⟨rfl, [], rfl, rfl⟩
      · have hhead : r.head.length = (r.line.length + 2) + (linesText r.headers).length := by
          rw [Request.head, List.length_append, List.length_append]
          rfl
        rw [Position.Good, Position.Good, recognised_cons, hhead, skip_drop hle]
        exact ⟨fun h ↦ ⟨h.1.2.2, h.2⟩, fun h ↦ ⟨⟨hk, Nat.le_trans hle hbuf, h.1⟩, h.2⟩⟩
    · rw [if_neg hk]
      exact .strays (List.cons_ne_nil r rs) (fun pieces hg ↦ hk hg.1.1) rfl (.inl rfl)
  · rw [if_neg hle] at hfind
    simp only [HttpParser.read, hfind]
    exact .waits rfl rfl rfl (Nat.not_le.mp hle)

theorem read_headerLine {r : Request} {h : Bytes × Bytes} {left : List (Bytes × Bytes)}
    {rs : List Request} (hbuf : buf.length ≤ bufLimit)
    (his : (Position.header r (h :: left) rs).Is parser)
    (hrest : buf ++ later = (Position.header r (h :: left) rs).rest) :
    Outcome (.header r (h :: left) rs) buf later (parser.read buf) := by
  obtain ⟨state, httpReq⟩ := parser
  obtain ⟨hstate, seen, hheaders, hreq⟩ := his
  obtain rfl : state = .waitHeader := hstate
  obtain rfl : httpReq = { r.start with headers := fieldsOf seen } := hreq
  have hmem : h ∈ r.headers := by
    rw [hheaders]
    exact List.mem_append_right _ List.mem_cons_self
  rw [Position.rest, linesText_cons, List.append_assoc, List.append_assoc] at hrest
  obtain ⟨hname, hvalue⟩ := r.headers_without h hmem
  have hfind := find_crlf (headerLine_no_cr (hname 13 (by decide)) (hvalue 13 (by decide))) hrest
  by_cases hle : (headerLine h).length + 2 ≤ buf.length
  · obtain ⟨htake, hdrop⟩ := line_received hrest hle
    have hne : (headerLine h).length ≠ 0 := by
      rw [headerLine, List.length_append]
      exact Nat.succ_ne_zero _
    rw [if_pos hle] at hfind
    simp only [HttpParser.read, hfind, if_neg hne, htake,
      parseHeader_line (r.headers_without h hmem).1 (r.trimmed h hmem)]
    refine .moves (.header r left rs) ((headerLine h).length + 2) rfl (Nat.succ_pos _) hle ?_ hdrop rfl
      fun pieces ↦ ?_
    · refine ⟨rfl, seen ++ [h], ?_, ?_⟩
      · rw [hheaders, List.append_assoc, List.singleton_append]
      · simp only [fieldsOf, List.foldl_append, List.foldl_cons, List.foldl_nil]
    · have hlines : (linesText (h :: left)).length =
          ((headerLine h).length + 2) + (linesText left).length := by
        rw [linesText_cons, List.length_append, List.length_append, ← Nat.add_assoc]
        rfl
      rw [Position.Good, Position.Good, hlines, skip_drop hle, List.forall_mem_cons]
      exact ⟨fun hg ↦ ⟨hg.1.2, hg.2⟩, fun hg ↦ ⟨⟨Nat.le_trans hle hbuf, hg.1⟩, hg.2⟩⟩
  · rw [if_neg hle] at hfind
    simp only [HttpParser.read, hfind]
    exact .waits rfl rfl ⟨rfl, seen, hheaders, rfl⟩ (Nat.not_le.mp hle)

theorem read_headEnd {r : Request} {rs : List Request} (his : (Position.header r [] rs).Is parser)
    (hrest : buf ++ later = (Position.header r [] rs).rest) :
    Outcome (.header r [] rs) buf later (parser.read buf) := by
  obtain ⟨state, httpReq⟩ := parser
  obtain ⟨hstate, seen, hheaders, hreq⟩ := his
  rw [List.append_nil] at hheaders
  subst hheaders
  obtain rfl : state = .waitHeader := hstate
  obtain rfl : httpReq = r.headObject := hreq
  rw [Position.rest, linesText_nil, ← List.nil_append (crlf ++ _)] at hrest
  have hfind := find_crlf List.not_mem_nil hrest
  by_cases hle : 2 ≤ buf.length
  · obtain ⟨-, hdrop⟩ := line_received hrest (by rwa [List.length_nil, Nat.zero_add])
    rw [List.length_nil, Nat.zero_add] at hdrop hfind
    rw [if_pos hle] at hfind
    have hgood (pieces : List Bytes) : (Position.header r [] rs).Good (buf :: pieces) ↔
        Behind r rs (skip 0 (buf.drop 2 :: pieces)) := by
      rw [← skip_drop hle]
      exact ⟨fun hg ↦ hg.2, fun hg ↦ ⟨fun h hh ↦ (List.not_mem_nil hh).elim, hg⟩⟩
    by_cases hget : r.method = .get
    · have hbody := r.unsized (.inl hget)
      have hmethod : r.headObject.method = some .get := congrArg some hget
      have hobject : r.object = r.headObject := by rw [Request.object, hbody]; rfl
      simp only [HttpParser.read, hfind, if_true, if_pos hmethod]
      refine .moves (.line rs) 2 rfl Nat.two_pos hle rfl ?_ ?_ fun pieces ↦ ?_
      · rw [hdrop, hbody]
        rfl
      · rw [← hobject]
        rfl
      · rw [hgood, Behind, if_pos hget]
        exact recognised_skip_zero
    · have hmethod : r.headObject.method ≠ some .get := fun h ↦ hget (Option.some_inj.mp h)
      by_cases hlen : contentLength r.headers = []
      · have hbody := r.unsized (.inr hlen)
        have hobject : r.object = r.headObject := by rw [Request.object, hbody]; rfl
        have hheader : r.headObject.getHeader (ascii "Content-Length") = [] := hlen
        simp only [HttpParser.read, hfind, if_true, if_neg hmethod, if_pos hheader]
        refine .moves (.stray rs) 2 rfl Nat.two_pos hle rfl ?_ ?_ fun pieces ↦ ?_
        · rw [hdrop, hbody]
          rfl
        · rw [← hobject]
          rfl
        · rw [hgood, Behind, if_neg hget, if_pos hlen]
          rfl
      · have hheader : r.headObject.getHeader (ascii "Content-Length") ≠ [] := hlen
        simp only [HttpParser.read, hfind, if_true, if_neg hmethod, if_neg hheader]
        refine .moves (.body r rs) 2 rfl Nat.two_pos hle ⟨rfl, hget, hlen⟩ hdrop rfl fun pieces ↦ ?_
        rw [hgood, Behind, if_neg hget, if_neg hlen]
        rfl
  · rw [List.length_nil, Nat.zero_add, if_neg hle] at hfind
    simp only [HttpParser.read, hfind]
    exact .waits rfl rfl ⟨rfl, r.headers, (List.append_nil _).symm, rfl⟩ (Nat.not_le.mp hle)

theorem read_body {r : Request} {rs : List Request} (hne : buf ≠ []) (hbuf : buf.length ≤ bufLimit)
    (his : (Position.body r rs).Is parser)
    (hrest : buf ++ later = (Position.body r rs).rest) :
    Outcome (.body r rs) buf later (parser.read buf) := by
  obtain ⟨rfl, hget, hlen⟩ := his
  have hheader : r.headObject.getHeader (ascii "Content-Length") = contentLength r.headers := rfl
  have hgood (pieces : List Bytes) :
      (Position.body r rs).Good (buf :: pieces) ↔ buf = r.body ∧ Recognised rs pieces := by
    rw [Position.Good, skip_zero_ne hne, List.head?_cons, Option.some_inj, List.tail_cons]
  by_cases hbody : buf = r.body
  · have hsmall : buf.length < 2 ^ 31 := Nat.lt_of_le_of_lt hbuf (by decide)
    have hatoi : atoi (contentLength r.headers) = buf.length := by
      refine atoi_eq ?_ hsmall
      rw [r.sized hget hlen, hbody]
    have hsize : ¬ buf.length < (atoi (contentLength r.headers) % 2 ^ 64).toNat := by
      rw [hatoi]
      omega
    simp only [HttpParser.read, HttpRequest.parseBody, hheader, if_neg hlen, if_neg hsize]
    refine .moves (.line rs) buf.length rfl (List.length_pos_iff.mpr hne) (Nat.le_refl _) rfl ?_ ?_
      fun pieces ↦ ?_
    · rw [Position.rest, hbody, List.append_cancel_left_eq] at hrest
      rw [List.drop_length, hrest]
      rfl
    · rw [hbody]
      rfl
    · rw [hgood, List.drop_length]
      exact ⟨fun hg ↦ recognised_nil_cons.mpr hg.2, fun hg ↦ ⟨hbody, recognised_nil_cons.mp hg⟩⟩
  · have hbad (pieces : List Bytes) : ¬ (Position.body r rs).Good (buf :: pieces) :=
      fun hg ↦ hbody ((hgood pieces).mp hg).1
    by_cases hsize : buf.length < (atoi (contentLength r.headers) % 2 ^ 64).toNat
    · simp only [HttpParser.read, HttpRequest.parseBody, hheader, if_neg hlen, if_pos hsize]
      refine .differs r.headObject r hbad rfl rfl fun heq ↦ ?_
      have hnil : r.body = [] := (congrArg HttpRequest.body heq).symm
      have hzero : atoi (contentLength r.headers) = (0 : ℕ) := by
        refine atoi_eq ?_ (by decide)
        rw [r.sized hget hlen, hnil]
        rfl
      rw [hzero] at hsize
      omega
    · simp only [HttpParser.read, HttpRequest.parseBody, hheader, if_neg hlen, if_neg hsize]
      exact .differs _ r hbad rfl rfl fun heq ↦ hbody (congrArg HttpRequest.body heq)

theorem read_stray {r : Request} {rs : List Request} (his : (Position.stray (r :: rs)).Is parser)
    (hrest : buf ++ later = (Position.stray (r :: rs)).rest) :
    Outcome (.stray (r :: rs)) buf later (parser.read buf) := by
  obtain ⟨state, httpReq⟩ := parser
  obtain rfl : state = .waitHeader := his
  rw [Position.rest, wires_cons] at hrest
  have hfind := find_crlf (line_no_cr r) hrest
  by_cases hle : r.line.length + 2 ≤ buf.length
  · obtain ⟨htake, -⟩ := line_received hrest hle
    have hne : r.line.length ≠ 0 := by
      rw [Request.line, List.length_append]
      exact Nat.succ_ne_zero _
    rw [if_pos hle] at hfind
    simp only [HttpParser.read, hfind, if_neg hne, htake]
    cases hparse : httpReq.parseHeader r.line with
    | none => exact .strays (List.cons_ne_nil r rs) (fun _ ↦ List.cons_ne_nil r rs) rfl (.inl rfl)
    | some req =>
      exact .strays (List.cons_ne_nil r rs) (fun _ ↦ List.cons_ne_nil r rs) rfl
        (.inr ⟨.inl rfl, parseHeader_requestLine r hparse⟩)
  · rw [if_neg hle] at hfind
    simp only [HttpParser.read, hfind]
    exact .waits rfl rfl rfl (Nat.not_le.mp hle)

theorem read_outcome {p : Position} (hne : buf ≠ []) (hbuf : buf.length ≤ bufLimit)
    (his : p.Is parser) (hrest : buf ++ later = p.rest) :
    Outcome p buf later (parser.read buf) := by
  cases p with
  | line rs =>
    cases rs with
    | nil => exact absurd (List.append_eq_nil_iff.mp hrest).1 hne
    | cons r rs => exact read_line hbuf his hrest
  | header r left rs =>
    cases left with
    | nil => exact read_headEnd his hrest
    | cons h left => exact read_headerLine hbuf his hrest
  | body r rs => exact read_body hne hbuf his hrest
  | stray rs =>
    cases rs with
    | nil => exact absurd (List.append_eq_nil_iff.mp hrest).1 hne
    | cons r rs => exact read_stray his hrest

end Read

section Run

variable {answers : Answers} {reqs : List Request} {s : Session} {p : Position}

/-- Nothing that comes can make up for what the callback has been given so far, or is
going to be given. -/
def Lost (reqs : List Request) (s : Session) : Prop :=
  ¬ s.called <+: reqs.map Request.object ∨
    s.called ≠ reqs.map Request.object ∧ Astray s.parser

theorem Lost.ne (h : Lost reqs s) : s.called ≠ reqs.map Request.object := by
  rcases h with h | h
  · intro heq
    rw [heq] at h
    exact h (List.prefix_refl _)
  · exact h.1

theorem not_prefix_concat {called : List HttpRequest} {req : HttpRequest} (h : req.Polluted) :
    ¬ called ++ [req] <+: reqs.map Request.object := by
  intro hpre
  obtain ⟨r, -, rfl⟩ := List.mem_map.mp
    (hpre.subset (List.mem_append_right _ (List.mem_singleton_self req)))
  exact object_not_polluted r h

theorem Lost.read (h : Lost reqs s) (buf : Bytes) : Lost reqs (s.read answers buf).2 := by
  obtain ⟨-, hparser, hcalled, -, -⟩ := read_spec answers s buf
  rw [Lost, hparser, hcalled]
  rcases h with h | ⟨hne, hastray⟩
  · exact .inl fun hpre ↦ h ((List.prefix_append _ _).trans hpre)
  · rcases hp : s.parser with ⟨state, httpReq⟩
    rw [hp] at hastray
    rcases hastray with hstate | ⟨hstate | hstate, hpolluted⟩
    · obtain rfl : state = .requestError := hstate
      refine .inr ⟨?_, .inl rfl⟩
      rw [HttpParser.read, Option.toList_none, List.append_nil]
      exact hne
    · obtain rfl : state = .waitHeader := hstate
      simp only [HttpParser.read]
      cases find crlf buf with
      | none =>
        rw [Option.toList_none, List.append_nil]
        exact .inr ⟨hne, .inr ⟨.inl rfl, hpolluted⟩⟩
      | some pos =>
        simp only
        split
        · split
          · exact .inl (not_prefix_concat hpolluted)
          · split
            · exact .inl (not_prefix_concat hpolluted)
            · rw [Option.toList_none, List.append_nil]
              exact .inr ⟨hne, .inr ⟨.inr rfl, hpolluted⟩⟩
        · cases hparse : httpReq.parseHeader (buf.take pos) with
          | none =>
            rw [Option.toList_none, List.append_nil]
            exact .inr ⟨hne, .inl rfl⟩
          | some req =>
            rw [Option.toList_none, List.append_nil]
            exact .inr ⟨hne, .inr ⟨.inl rfl, hpolluted.parseHeader hparse⟩⟩
    · obtain rfl : state = .requestBody := hstate
      exact .inl (not_prefix_concat (hpolluted.parseBody buf))

structure At (reqs : List Request) (p : Position) (s : Session) : Prop where
  is : p.Is s.parser
  called : s.called ++ p.todo.map Request.object = reqs.map Request.object

theorem At.called_iff (h : At reqs p s) : s.called = reqs.map Request.object ↔ p.todo = [] := by
  rw [← h.called, List.self_eq_append_right, List.map_eq_nil_iff]

theorem At.prefix (h : At reqs p s) : s.called <+: reqs.map Request.object := ⟨_, h.called⟩

theorem need_pos (p : Position) : 0 < p.need := by
  unfold Position.need
  split
  · exact Nat.succ_pos _
  · exact Nat.succ_pos _
  · exact Nat.succ_pos _
  · exact Nat.succ_pos _
  · exact Nat.succ_pos _

inductive Progress (reqs : List Request) (p : Position) (buf later : Bytes) (r : Parsed) : Prop
  | waits (p' : Position) (n : ℕ) (cont : r.cont = true) (consumed : r.consumed = n)
      (at' : At reqs p' r.session) (rest : buf.drop n ++ later = p'.rest)
      (short : (buf.drop n).length < p'.need)
      (good : ∀ pieces, p.Good (buf :: pieces) ↔ p'.Good (buf.drop n :: pieces))
  | upgraded (p' : Position) (cont : r.cont = false) (at' : At reqs p' r.session)
      (websocket : r.session.isWebsocket = true)
      (good : p'.todo = [] → ∀ pieces, p.Good (buf :: pieces))
  | lost (lost : Lost reqs r.session) (bad : ∀ pieces, ¬ p.Good (buf :: pieces))

theorem parseRecvBuf_lost (fuel : ℕ) (buf : Bytes) (h : Lost reqs s) :
    Lost reqs (parseRecvBuf answers fuel s buf).session := by
  induction fuel generalizing s buf with
  | zero => exact h
  | succ fuel ih =>
    rw [parseRecvBuf_succ]
    split
    · exact h.read buf
    · split
      · exact h.read buf
      · split
        · exact ih _ (h.read buf)
        · exact h.read buf

theorem lost_of_read {fuel : ℕ} {buf : Bytes} (h : Lost reqs (s.read answers buf).2) :
    Lost reqs (parseRecvBuf answers (fuel + 1) s buf).session := by
  rw [parseRecvBuf_succ]
  split
  · exact h
  · split
    · exact h
    · split
      · exact parseRecvBuf_lost _ _ h
      · exact h

theorem parseRecvBuf_progress {fuel : ℕ} {buf later : Bytes} (hfuel : buf.length ≤ fuel)
    (hne : buf ≠ []) (hbuf : buf.length ≤ bufLimit) (hat : At reqs p s)
    (hrest : buf ++ later = p.rest) :
    Progress reqs p buf later (parseRecvBuf answers fuel s buf) := by
  induction fuel generalizing s p buf with
  | zero => exact absurd (List.eq_nil_of_length_eq_zero (Nat.le_zero.mp hfuel)) hne
  | succ fuel ih =>
    obtain ⟨hcode, hparser, hcalled, -, -⟩ := read_spec answers s buf
    cases read_outcome hne hbuf hat.is hrest with
    | waits code called is short =>
      have hat' : At reqs p (s.read answers buf).2 := by
        refine ⟨hparser ▸ is, ?_⟩
        rw [hcalled, called, Option.toList_none, List.append_nil]
        exact hat.called
      rw [parseRecvBuf_succ, hcode, code, if_neg (by decide)]
      split
      · rename_i hw
        exact .upgraded p rfl hat' hw fun ht pieces ↦ good_of_todo_nil ht _
      · rw [if_neg (by omega)]
        exact .waits p 0 rfl rfl hat' hrest short fun pieces ↦ Iff.rfl
    | moves p' n code pos le is rest todo good =>
      have hat' : At reqs p' (s.read answers buf).2 := by
        refine ⟨hparser ▸ is, ?_⟩
        rw [hcalled, List.append_assoc, ← todo]
        exact hat.called
      rw [parseRecvBuf_succ, hcode, code, if_neg (by omega)]
      split
      · rename_i hw
        exact .upgraded p' rfl hat' hw fun ht pieces ↦ (good pieces).mpr (good_of_todo_nil ht _)
      · split
        · rename_i hlt
          have hlen : (buf.drop n).length = buf.length - n := List.length_drop
          have hne' : buf.drop n ≠ [] := List.length_pos_iff.mp (by omega)
          rw [Int.toNat_natCast]
          have hfuel' : (buf.drop n).length ≤ fuel := by omega
          cases ih hfuel' hne' (by omega) hat' rest with
          | waits p'' m cont consumed at' rest' short good' =>
            rw [List.drop_drop] at rest' short
            refine .waits p'' (n + m) cont ?_ at' rest' short fun pieces ↦ ?_
            · simp only [consumed]
              rw [if_neg (by omega)]
              rfl
            · rw [good, good', List.drop_drop]
          | upgraded p'' cont at' websocket good' =>
            exact .upgraded p'' cont at' websocket fun ht pieces ↦ (good pieces).mpr (good' ht pieces)
          | lost lost bad => exact .lost lost fun pieces hg ↦ bad pieces ((good pieces).mp hg)
        · rename_i hlt
          have hnil : (buf.drop n).length = 0 := by
            rw [List.length_drop]
            omega
          exact .waits p' n rfl rfl hat' rest (hnil ▸ need_pos p') good
    | strays todo bad called astray =>
      have hlost : Lost reqs (s.read answers buf).2 := by
        refine .inr ⟨?_, hparser ▸ astray⟩
        rw [hcalled, called, Option.toList_none, List.append_nil]
        exact fun heq ↦ todo (hat.called_iff.mp heq)
      exact .lost (lost_of_read hlost) bad
    | differs req q bad called todo ne =>
      have hlost : Lost reqs (s.read answers buf).2 := by
        refine .inl ?_
        obtain ⟨rs, hrs⟩ : ∃ rs, p.todo = q :: rs := ⟨_, List.eq_cons_of_mem_head? todo⟩
        rw [hcalled, called, ← hat.called, hrs, Option.toList_some, List.map_cons,
          List.prefix_append_right_inj, List.cons_prefix_cons]
        exact fun h ↦ ne h.1
      exact .lost (lost_of_read hlost) bad

def Grown (maxBufBytes : ℕ) : Prop := maxBufBytes = 1024 ∨ maxBufBytes = 2048 ∨ maxBufBytes = bufLimit

theorem Grown.le {maxBufBytes : ℕ} (h : Grown maxBufBytes) : maxBufBytes ≤ bufLimit := by
  rcases h with rfl | rfl | rfl
  · decide
  · decide
  · exact Nat.le_refl _

theorem grow_some {s' : Session} (h : s.grow = some s') (hmax : Grown s.maxBufBytes) :
    Grown s'.maxBufBytes ∧ s' = { s with maxBufBytes := s'.maxBufBytes } := by
  rw [Session.grow] at h
  split at h
  · split at h
    · cases h
    · rename_i hlt
      cases h
      refine ⟨?_, rfl⟩
      simp only [Grown, maxHttpBufBytes, bufLimit] at hmax hlt ⊢
      omega
  · cases h
    exact ⟨hmax, rfl⟩

theorem grow_none (h : s.grow = none) : bufLimit ≤ s.buf.length := by
  rw [Session.grow] at h
  split at h
  · rename_i hle
    split at h
    · rename_i hmax
      simp only [maxHttpBufBytes, bufLimit] at hmax ⊢
      omega
    · cases h
  · cases h

inductive Received (reqs : List Request) (p : Position) (buf later : Bytes) (maxBufBytes : ℕ) :
    Turn → Prop
  | waits (p' : Position) (s : Session) (websocket : s.isWebsocket = false)
      (max : s.maxBufBytes = maxBufBytes) (at' : At reqs p' s) (rest : s.buf ++ later = p'.rest)
      (short : s.buf.length < p'.need)
      (good : ∀ pieces, p.Good (buf :: pieces) ↔ p'.Good (s.buf :: pieces)) :
      Received reqs p buf later maxBufBytes (.recv s)
  | upgraded (p' : Position) (s : Session) (at' : At reqs p' s) (websocket : s.isWebsocket = true)
      (good : p'.todo = [] → ∀ pieces, p.Good (buf :: pieces)) :
      Received reqs p buf later maxBufBytes (.ended s)
  | lost (t : Turn) (lost : Lost reqs t.session)
      (websocket : ∀ s, t = .recv s → s.isWebsocket = false)
      (bad : ∀ pieces, ¬ p.Good (buf :: pieces)) : Received reqs p buf later maxBufBytes t

theorem turn_received {piece later : Bytes} (hws : s.isWebsocket = false)
    (hmax : s.maxBufBytes ≤ bufLimit) (hat : At reqs p s)
    (hrest : s.buf ++ piece ++ later = p.rest) (hne : piece ≠ [])
    (hroom : s.buf.length + piece.length ≤ s.maxBufBytes) :
    Received reqs p (s.buf ++ piece) later s.maxBufBytes (turn answers s piece) := by
  have hlen : (s.buf ++ piece).length ≤ bufLimit := by
    rw [List.length_append]
    exact Nat.le_trans hroom hmax
  have hnil : s.buf ++ piece ≠ [] := fun h ↦ hne (List.append_eq_nil_iff.mp h).2
  have hframe := parseRecvBuf_max answers ((s.buf ++ piece).length + 1) s (s.buf ++ piece)
  obtain ⟨-, hcont⟩ := parseRecvBuf_keeps (P := fun _ ↦ True) (fun _ _ _ h ↦ h)
    ((s.buf ++ piece).length + 1) (s.buf ++ piece) hws trivial
  have hprogress : Progress reqs p (s.buf ++ piece) later
      (parseRecvBuf answers ((s.buf ++ piece).length + 1) s (s.buf ++ piece)) :=
    parseRecvBuf_progress (Nat.le_succ _) hnil hlen hat hrest
  unfold turn
  dsimp only
  generalize parseRecvBuf answers ((s.buf ++ piece).length + 1) s (s.buf ++ piece) = r at *
  cases hprogress with
  | waits p' n cont consumed at' rest short good =>
    rw [consumed, if_neg (by omega), if_pos cont, Int.toNat_natCast]
    exact .waits p' _ (hcont cont) hframe ⟨at'.is, at'.called⟩ rest short good
  | upgraded p' cont at' websocket good =>
    split
    · exact .upgraded p' _ at' websocket good
    · rw [if_neg (by rw [cont]; decide)]
      exact .upgraded p' _ ⟨at'.is, at'.called⟩ websocket good
  | lost lost bad =>
    refine .lost _ ?_ ?_ bad
    · split
      · exact lost
      · split
        · exact lost
        · exact lost
    · intro t ht
      split at ht
      · cases ht
      · split at ht
        · rename_i hc
          cases ht
          exact hcont hc
        · cases ht

theorem cycleRecv_lost (pieces : List Bytes) (hws : s.isWebsocket = false) (h : Lost reqs s) :
    Lost reqs (cycleRecv answers pieces s) :=
  cycleRecv_keeps (fun _ buf _ h ↦ h.read buf) (fun _ _ _ h ↦ h) pieces hws h

/-- Once the whole stream has been received, the callback has been given the requests if
the condition is met, unless the connection was upgraded before, and only then. -/
theorem cycleRecv_delivers {pieces : List Bytes} (hws : s.isWebsocket = false)
    (hmax : Grown s.maxBufBytes) (hat : At reqs p s)
    (hrest : s.buf ++ pieces.flatten = p.rest) (hshort : s.buf.length < p.need)
    (hfits : Fits answers pieces s) :
    ((cycleRecv answers pieces s).called = reqs.map Request.object → p.Good (s.buf :: pieces)) ∧
      (p.Good (s.buf :: pieces) →
        (cycleRecv answers pieces s).called = reqs.map Request.object ∨
          (cycleRecv answers pieces s).isWebsocket = true ∧
            (cycleRecv answers pieces s).called <+: reqs.map Request.object) := by
  induction pieces generalizing s p with
  | nil =>
    rw [List.flatten_nil, List.append_nil] at hrest
    rw [hrest] at hshort ⊢
    rw [cycleRecv, hat.called_iff, good_iff_of_end hshort]
    exact ⟨id, .inl⟩
  | cons piece pieces ih =>
    rw [cycleRecv]
    rw [Fits] at hfits
    cases hgrow : s.grow with
    | none =>
      obtain ⟨htodo, hbad⟩ := not_good_of_need (Nat.lt_of_le_of_lt (grow_none hgrow) hshort)
        (s.buf :: piece :: pieces)
      exact ⟨fun h ↦ absurd (hat.called_iff.mp h) htodo, fun h ↦ absurd h hbad⟩
    | some s' =>
      obtain ⟨hmax', hs'⟩ := grow_some hgrow hmax
      have hbuf : s'.buf = s.buf := by rw [hs']
      have hws' : s'.isWebsocket = false := by rw [hs']; exact hws
      have hat' : At reqs p s' := by rw [hs']; exact ⟨hat.is, hat.called⟩
      simp only [hgrow] at hfits ⊢
      obtain ⟨hne, hroom, hfits⟩ := hfits
      rw [List.flatten_cons, ← List.append_assoc, ← hbuf] at hrest
      have hmerge := good_merge hshort piece pieces
      rw [← hbuf] at hmerge ⊢
      rw [hmerge]
      have hreceived : Received reqs p (s'.buf ++ piece) pieces.flatten _ (turn answers s' piece) :=
        turn_received hws' hmax'.le hat' hrest hne hroom
      generalize turn answers s' piece = t at hreceived hfits
      cases hreceived with
      | waits p' s'' websocket max at' rest short good =>
        rw [good]
        exact ih websocket (max ▸ hmax') at' rest short hfits
      | upgraded p' s'' at' websocket good =>
        exact ⟨fun h ↦ good (at'.called_iff.mp h) _, fun _ ↦ .inr ⟨websocket, at'.prefix⟩⟩
      | lost t lost websocket bad =>
        refine ⟨fun h ↦ ?_, fun h ↦ absurd h (bad _)⟩
        cases t with
        | ended s'' => exact absurd h lost.ne
        | recv s'' => exact absurd h (cycleRecv_lost pieces (websocket s'' rfl) lost).ne

end Run

section Fits

variable {answers : Answers} {s : Session}

/-- A stream for which the buffer need not grow may be cut anywhere. -/
theorem fits_of_short {pieces : List Bytes} (hne : ∀ piece ∈ pieces, piece ≠ [])
    (hlen : s.buf.length + pieces.flatten.length ≤ s.maxBufBytes) : Fits answers pieces s := by
  induction pieces generalizing s with
  | nil => trivial
  | cons piece pieces ih =>
    have hpiece : piece ≠ [] := hne piece List.mem_cons_self
    have hpos : 0 < piece.length := List.length_pos_iff.mpr hpiece
    rw [List.flatten_cons, List.length_append] at hlen
    have hgrow : s.grow = some s := by
      rw [Session.grow, if_neg (by omega)]
    rw [Fits, hgrow]
    refine ⟨hpiece, by omega, ?_⟩
    cases hturn : turn answers s piece with
    | ended t => trivial
    | recv t =>
      unfold turn at hturn
      dsimp only at hturn
      split at hturn
      · cases hturn
      · split at hturn
        · cases hturn
          refine ih (fun q hq ↦ hne q (List.mem_cons_of_mem _ hq)) ?_
          simp only [parseRecvBuf_max, List.length_drop, List.length_append]
          omega
        · cases hturn

end Fits

section Upgrade

variable {answers : Answers} {s : Session}

theorem keepAlive_http {req : HttpRequest} (h : KeepAlive req) : isWebsocketReq req = false := by
  have hne : ascii "Keep-Alive" ≠ ascii "Upgrade" := by decide
  rw [isWebsocketReq, h, decide_eq_false hne]
  simp only [Bool.and_false, Bool.false_and]

/-- The handlers may have come to a request that upgrades the connection. -/
def Leaves (called : List HttpRequest) : Prop :=
  ∃ before req behind, called = before ++ req :: behind ∧ (∀ r ∈ before, KeepAlive r) ∧
    isWebsocketReq req = true

theorem Leaves.append {called : List HttpRequest} (h : Leaves called) (more : List HttpRequest) :
    Leaves (called ++ more) := by
  obtain ⟨before, req, behind, rfl, hbefore, hreq⟩ := h
  exact ⟨before, req, behind ++ more, by rw [List.append_assoc, List.cons_append], hbefore, hreq⟩

/-- The requests before the current one have been answered, and it is the last one that
may have upgraded the connection. -/
def Handled (s : Session) : Prop :=
  ∃ done : List HttpRequest, (∀ r ∈ done, KeepAlive r) ∧
    s.called = done ++ (s.currReq.toList ++ s.reqs) ∧ (s.currReq = none → s.reqs = []) ∧
    (s.isWebsocket = true → Leaves s.called)

theorem handled_processOneReq {req : HttpRequest} {done : List HttpRequest}
    (hdone : ∀ r ∈ done, KeepAlive r) (hcurr : s.currReq = some req)
    (hcalled : s.called = done ++ req :: s.reqs) (hws : s.isWebsocket = true → Leaves s.called) :
    Handled (s.processOneReq req) := by
  rw [Session.processOneReq]
  split
  · rename_i hreq
    refine ⟨done, hdone, ?_, ?_, fun _ ↦ ⟨done, req, s.reqs, hcalled, hdone, hreq⟩⟩
    · rw [hcurr]
      exact hcalled
    · rw [hcurr]
      exact fun h ↦ by cases h
  · refine ⟨done, hdone, ?_, ?_, hws⟩
    · rw [hcurr]
      exact hcalled
    · rw [hcurr]
      exact fun h ↦ by cases h

theorem Handled.onHttpRequest (h : Handled s) (req : HttpRequest) : Handled (s.onHttpRequest req) := by
  obtain ⟨done, hdone, hcalled, hnil, hws⟩ := h
  have hws' (hw : s.isWebsocket = true) : Leaves (s.called ++ [req]) := (hws hw).append [req]
  obtain ⟨parser, currReq, reqs, isWebsocket, buf, maxBufBytes, called, reads⟩ := s
  cases currReq with
  | none =>
    obtain rfl : reqs = [] := hnil rfl
    obtain rfl : called = done ++ [] := hcalled
    exact handled_processOneReq hdone rfl (by rw [List.append_nil]) hws'
  | some currReq =>
    obtain rfl : called = done ++ (currReq :: reqs) := hcalled
    refine ⟨done, hdone, ?_, nofun, hws'⟩
    exact List.append_assoc _ _ _

theorem Handled.closeOrDoNextReq (h : Handled s) : Handled s.closeOrDoNextReq := by
  have h' := h
  obtain ⟨done, hdone, hcalled, -, hws⟩ := h
  obtain ⟨parser, currReq, reqs, isWebsocket, buf, maxBufBytes, called, reads⟩ := s
  cases currReq with
  | none => exact h'
  | some currReq =>
    obtain rfl : called = done ++ (currReq :: reqs) := hcalled
    rw [Session.closeOrDoNextReq]
    simp only
    split
    · exact h'
    · rename_i hkeep
      have hdone' : ∀ r ∈ done ++ [currReq], KeepAlive r := by
        intro r hr
        rcases List.mem_append.mp hr with hr | hr
        · exact hdone r hr
        · rw [List.mem_singleton.mp hr]
          exact not_not.mp hkeep
      cases reqs with
      | nil => exact ⟨done ++ [currReq], hdone', (List.append_nil _).symm, fun _ ↦ rfl, hws⟩
      | cons req reqs =>
        refine handled_processOneReq hdone' rfl ?_ hws
        rw [List.append_assoc, List.singleton_append]

theorem Handled.read (h : Handled s) (buf : Bytes) : Handled (s.read answers buf).2 := by
  have hsteps (n : ℕ) (t : Session) (ht : Handled t) : Handled (Session.closeOrDoNextReq^[n] t) := by
    induction n generalizing t with
    | zero => exact ht
    | succ n ih => exact ih _ ht.closeOrDoNextReq
  rw [Session.read]
  refine hsteps _ _ ?_
  cases (s.parser.read buf).called with
  | none => exact h
  | some req =>
    exact Handled.onHttpRequest (s := { s with parser := _, reads := s.reads + 1 }) h req

def promptly : Answers := fun _ ↦ 1

inductive Prompt (s : Session) : Prop
  | free (currReq : s.currReq = none) (reqs : s.reqs = []) (websocket : s.isWebsocket = false)
      (kept : ∀ r ∈ s.called, KeepAlive r)
  | closed (before behind : List HttpRequest) (req : HttpRequest) (currReq : s.currReq = some req)
      (websocket : s.isWebsocket = false) (called : s.called = before ++ req :: behind)
      (kept : ∀ r ∈ before, KeepAlive r) (closes : ¬ KeepAlive req)
      (http : isWebsocketReq req = false)
  | upgraded (before : List HttpRequest) (req : HttpRequest) (websocket : s.isWebsocket = true)
      (called : s.called = before ++ [req]) (kept : ∀ r ∈ before, KeepAlive r)

theorem Prompt.staysHttp {reqs : List Request} (h : Prompt s)
    (hcalled : s.called = reqs.map Request.object) : StaysHttp reqs := by
  intro before req behind hreqs hbefore hreq
  have hnot (hk : KeepAlive req) : False := by
    cases (keepAlive_http hk).symm.trans hreq
  rw [← hcalled] at hreqs
  cases h with
  | free currReq reqs websocket kept =>
    refine (hnot (kept req ?_)).elim
    rw [hreqs]
    exact List.mem_append_right _ List.mem_cons_self
  | closed before' behind' req' currReq websocket called kept closes http =>
    rw [called] at hreqs
    rcases List.append_eq_append_iff.mp hreqs with ⟨mid, rfl, hmid⟩ | ⟨mid, rfl, hmid⟩
    · cases mid with
      | nil =>
        rw [List.nil_append, List.cons.injEq] at hmid
        rw [hmid.1] at http
        cases http.symm.trans hreq
      | cons r mid =>
        rw [List.cons_append, List.cons.injEq] at hmid
        rw [hmid.1] at closes
        exact absurd (hbefore r (List.mem_append_right _ List.mem_cons_self)) closes
    · cases mid with
      | nil =>
        rw [List.nil_append, List.cons.injEq] at hmid
        rw [← hmid.1] at http
        cases http.symm.trans hreq
      | cons r mid =>
        rw [List.cons_append, List.cons.injEq] at hmid
        rw [← hmid.1] at kept
        exact (hnot (kept req (List.mem_append_right _ List.mem_cons_self))).elim
  | upgraded before' req' websocket called kept =>
    rw [called] at hreqs
    rcases List.eq_nil_or_concat behind with hnil | ⟨behind', last, rfl⟩
    · exact hnil
    · rw [List.concat_eq_append, ← List.cons_append, ← List.append_assoc] at hreqs
      obtain ⟨rfl, -⟩ := List.append_inj' hreqs rfl
      exact (hnot (kept req (List.mem_append_right _ List.mem_cons_self))).elim

theorem closeOrDoNextReq_of_not {req : HttpRequest} (hcurr : s.currReq = some req)
    (h : ¬ KeepAlive req) : s.closeOrDoNextReq = s := by
  rw [Session.closeOrDoNextReq, hcurr]
  exact if_pos h

theorem closeOrDoNextReq_of_keepAlive {req : HttpRequest} (hcurr : s.currReq = some req)
    (hreqs : s.reqs = []) (h : KeepAlive req) :
    s.closeOrDoNextReq = { s with currReq := none, reqs := [] } := by
  rw [Session.closeOrDoNextReq, hcurr, hreqs]
  exact if_neg (not_not_intro h)

theorem Prompt.setBuf (h : Prompt s) (buf : Bytes) (maxBufBytes : ℕ) :
    Prompt { s with buf, maxBufBytes } := by
  cases h with
  | free hcurr hreqs websocket kept => exact .free hcurr hreqs websocket kept
  | closed before behind req hcurr websocket hcalled kept closes http =>
    exact .closed before behind req hcurr websocket hcalled kept closes http
  | upgraded before req websocket hcalled kept => exact .upgraded before req websocket hcalled kept

theorem Prompt.read (hws : s.isWebsocket = false) (h : Prompt s) (buf : Bytes) :
    Prompt (s.read promptly buf).2 := by
  obtain ⟨parser, currReq, reqs, isWebsocket, sbuf, maxBufBytes, called, reads⟩ := s
  obtain rfl : isWebsocket = false := hws
  change Prompt (Session.closeOrDoNextReq _)
  cases h with
  | free hcurr hreqs websocket kept =>
    obtain rfl : currReq = none := hcurr
    obtain rfl : reqs = [] := hreqs
    cases (parser.read buf).called with
    | none => exact .free rfl rfl rfl kept
    | some req =>
      simp only [Session.onHttpRequest, Session.processOneReq]
      by_cases hreq : isWebsocketReq req = true
      · have hclose : ¬ KeepAlive req := fun hk ↦ by cases (keepAlive_http hk).symm.trans hreq
        rw [if_pos hreq, closeOrDoNextReq_of_not rfl hclose]
        exact .upgraded called req rfl rfl kept
      · rw [if_neg hreq]
        by_cases hk : KeepAlive req
        · rw [closeOrDoNextReq_of_keepAlive rfl rfl hk]
          refine .free rfl rfl rfl fun r hr ↦ ?_
          rcases List.mem_append.mp hr with hr | hr
          · exact kept r hr
          · rw [List.mem_singleton.mp hr]
            exact hk
        · rw [closeOrDoNextReq_of_not rfl hk]
          exact .closed called [] req rfl rfl rfl kept hk (Bool.eq_false_of_not_eq_true hreq)
  | closed before behind req hcurr websocket hcalled kept closes http =>
    obtain rfl : currReq = some req := hcurr
    obtain rfl : called = before ++ req :: behind := hcalled
    cases (parser.read buf).called with
    | none =>
      rw [closeOrDoNextReq_of_not rfl closes]
      exact .closed before behind req rfl rfl rfl kept closes http
    | some req' =>
      simp only [Session.onHttpRequest]
      rw [closeOrDoNextReq_of_not rfl closes]
      exact .closed before (behind ++ [req']) req rfl rfl (List.append_assoc _ _ _) kept closes http
  | upgraded before req websocket hcalled kept => cases websocket

theorem staysHttp_of_http {reqs : List Request} (h : ∀ r ∈ reqs, isWebsocketReq r.object = false) :
    StaysHttp reqs := by
  intro before req behind hreqs _ hreq
  have hmem : req ∈ reqs.map Request.object := by
    rw [hreqs]
    exact List.mem_append_right _ List.mem_cons_self
  obtain ⟨r, hr, rfl⟩ := List.mem_map.mp hmem
  cases (h r hr).symm.trans hreq

end Upgrade

/-- The callback is given the requests, whenever the handlers answer, exactly if the stream
is cut as `Recognised` says and no request but the last one can leave HTTP. -/
theorem recognised_iff (reqs : List Request) (pieces : List Bytes)
    (hcut : pieces.flatten = reqs.flatMap Request.wire) (hfits : ∀ answers, Fits answers pieces {}) :
    (∀ answers, (cycleRecv answers pieces {}).called = reqs.map Request.object) ↔
      Recognised reqs pieces ∧ StaysHttp reqs := by
  have hgood : (Position.line reqs).Good ([] :: pieces) ↔ Recognised reqs pieces := recognised_nil_cons
  have hat : At reqs (.line reqs) {} := ⟨rfl, List.nil_append _⟩
  have hdelivers (answers : Answers) :=
    @cycleRecv_delivers answers _ _ _ pieces rfl (.inl rfl) hat hcut (need_pos _) (hfits answers)
  rw [← hgood]
  constructor
  · intro h
    refine ⟨(hdelivers promptly).1 (h promptly), ?_⟩
    have hprompt : Prompt (cycleRecv promptly pieces {}) :=
      cycleRecv_keeps (fun _ buf hws hs ↦ hs.read hws buf) (fun _ buf n hs ↦ hs.setBuf buf n) pieces rfl
        (.free rfl rfl rfl nofun)
    exact hprompt.staysHttp (h promptly)
  · rintro ⟨hrecognised, hstays⟩ answers
    rcases (hdelivers answers).2 hrecognised with h | ⟨hws, more, hmore⟩
    · exact h
    · have hhandled : Handled (cycleRecv answers pieces {}) :=
        cycleRecv_keeps (fun _ buf _ hs ↦ hs.read buf) (fun _ _ _ hs ↦ hs) pieces rfl
          ⟨[], nofun, rfl, fun _ ↦ rfl, nofun⟩
      obtain ⟨done, -, -, -, hleaves⟩ := hhandled
      obtain ⟨before, req, behind, hcalled, hbefore, hreq⟩ := hleaves hws
      rw [hcalled, List.append_assoc, List.cons_append] at hmore
      have hnil : behind ++ more = [] := hstays before req _ hmore.symm hbefore hreq
      rw [List.append_eq_nil_iff] at hnil
      rw [hcalled, ← hmore, hnil.1, hnil.2]
      rfl

section Sample

def sampleGet : Request where
  method := .get
  path := ascii "/live/a.flv"
  query := [(ascii "token", ascii "x")]
  version := ascii "1.1"
  headers := [(ascii "Host", ascii "mms"), (ascii "Connection", ascii "Keep-Alive")]
  body := []
  path_without := by decide
  query_without := by decide
  version_without := by decide
  headers_without := by decide
  trimmed := by decide
  unsized _ := rfl
  sized h := absurd rfl h

def samplePost : Request where
  method := .post
  path := ascii "/api"
  query := []
  version := ascii "1.1"
  headers := [(ascii "Content-Length", ascii "5")]
  body := ascii "hello"
  path_without := by decide
  query_without := noQuery_without
  version_without := by decide
  headers_without := by decide
  trimmed := by decide
  unsized h := by revert h; decide
  sized _ _ := by decide

theorem getAndPost_recognised :
    (cycleRecv promptly [sampleGet.wire ++ samplePost.head, samplePost.body] {}).called =
      [sampleGet.object, samplePost.object] := by
  have hcut : [sampleGet.wire ++ samplePost.head, samplePost.body].flatten =
      [sampleGet, samplePost].flatMap Request.wire := by decide
  refine (recognised_iff [sampleGet, samplePost] _ hcut
    fun answers ↦ fits_of_short (by decide) (by decide)).mpr ⟨by decide, staysHttp_of_http ?_⟩ promptly
  decide

theorem splitBody_not_recognised :
    ¬ ∀ (reqs : List Request) (pieces : List Bytes), pieces.flatten = reqs.flatMap Request.wire →
      (∀ answers, Fits answers pieces {}) →
      ∀ answers, (cycleRecv answers pieces {}).called = reqs.map Request.object := by
  intro h
  have hcalled := h [samplePost] [samplePost.head ++ ascii "hel", ascii "lo"] (by decide)
    (fun answers ↦ fits_of_short (by decide) (by decide)) promptly
  exact absurd (congrArg (List.map HttpRequest.body) hcalled) (by decide)

end Sample

end MmsServer.Http.RequestDelivery
