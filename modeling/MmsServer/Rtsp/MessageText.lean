import MmsServer.Http.RequestText

namespace MmsServer.Rtsp.MessageText

open Lib.ByteReader Lib.Find Lib.Text Http.RequestText

structure Message (α : Type) where
  start : α
  headers : Fields := fun _ ↦ none
  body : Bytes := []

structure RequestLine where
  method : Bytes := []
  absUri : Bytes := []
  queryParams : Fields := fun _ ↦ none
  version : Bytes := []

structure StatusLine where
  version : Bytes := []
  statusCode : ℤ := 0
  reason : Bytes := []

abbrev RtspRequest := Message RequestLine

abbrev RtspResponse := Message StatusLine

def RtspRequest.new : RtspRequest := { start := {} }

def RtspResponse.new : RtspResponse := { start := {} }

/-- The version and the body stay as they are. -/
def RtspRequest.clear (m : RtspRequest) : RtspRequest :=
  { m with start := { version := m.start.version }, headers := fun _ ↦ none }

def RequestLine.parseUri (l : RequestLine) (uri : Bytes) : RequestLine :=
  match find (ascii "?") uri with
  | some pos =>
    { l with
      absUri := uri.take pos
      queryParams := ((uri.drop (pos + 1)).splitOn 38).foldl parseQueryParam l.queryParams }
  | none => { l with absUri := uri }

def parseRequestLine (l : RequestLine) (buf : Bytes) : ℤ × RequestLine :=
  match find crlf buf with
  | none => (-1, l)
  | some posEnd =>
    let s := buf.take posEnd
    match find (ascii " ") s with
    | none => (-2, l)
    | some pos =>
      let l := { l with method := s.take pos }
      let s := s.drop (pos + 1)
      match find (ascii " ") s with
      | none => (-4, l)
      | some pos =>
        let l := l.parseUri (s.take pos)
        let s := s.drop (pos + 1)
        if s = [] then (-7, l)
        else match find (ascii "/") s with
          | none => (-8, l)
          | some pos =>
            if s.take pos ≠ ascii "RTSP" then (-9, l)
            else if s.drop (pos + 1) = [] then (-10, l)
            else (posEnd + 2, { l with version := s.drop (pos + 1) })

def parseStatusLine (l : StatusLine) (buf : Bytes) : ℤ × StatusLine :=
  match find crlf buf with
  | none => (-1, l)
  | some posEnd =>
    let s := buf.take posEnd
    match find (ascii " ") s with
    | none => (-2, l)
    | some pos =>
      match find (ascii "/") (s.take pos) with
      | none => (-3, l)
      | some pos2 =>
        let l := { l with version := (s.take pos).take pos2 }
        let s := s.drop (pos + 1)
        match find (ascii " ") s with
        | none => (-4, l)
        | some pos =>
          let l := { l with statusCode := atoi (s.take pos) }
          if s.drop (pos + 1) = [] then (-6, l)
          else (posEnd + 2, { l with reason := s.drop (pos + 1) })

def parseHeader (headers : Fields) (buf : Bytes) : ℤ × Fields :=
  match find crlf buf with
  | none => (-1, headers)
  | some posEnd =>
    if posEnd = 0 then (2, headers)
    else
      let s := buf.take posEnd
      match find (ascii ": ") s with
      | none => (-2, headers)
      | some posComma => (posEnd + 2, headers.set (s.take posComma) (s.drop (posComma + 2)))

/-- A line takes at least two bytes, so the length of the buffer is fuel enough. -/
def parseHeaders : ℕ → Fields → Bytes → ℤ × Fields
  | 0, headers, _ => (-1, headers)
  | fuel + 1, headers, buf =>
    let (consumed, headers) := parseHeader headers buf
    if consumed < 0 then (-1, headers)
    else if consumed = 2 then (consumed, headers)
    else
      let (rest, headers) := parseHeaders fuel headers (buf.drop consumed.toNat)
      (if rest < 0 then -1 else consumed + rest, headers)

namespace Message

variable {α : Type} (parseStart : α → Bytes → ℤ × α)

def parseRtspHeader (m : Message α) (buf : Bytes) : ℤ × Message α :=
  match find (crlf ++ crlf) buf with
  | none => (0, m)
  | some posEnd =>
    let buf := buf.take (posEnd + 4)
    let (consumed, start) := parseStart m.start buf
    let m := { m with start }
    if consumed < 0 then (-1, m)
    else
      let (rest, headers) := parseHeaders buf.length m.headers (buf.drop consumed.toNat)
      let m := { m with headers }
      if rest < 0 then (-2, m) else (posEnd + 4, m)

def contentLen (m : Message α) : ℤ :=
  match m.headers (ascii "Content-Length") with
  | none => 0
  | some v => atoi v

def parse (m : Message α) (buf : Bytes) : ℤ × Message α :=
  let (consumed, m) := m.parseRtspHeader parseStart buf
  if consumed ≤ 0 then (consumed, m)
  else if m.contentLen < 0 then (-2, m)
  else if 0 < m.contentLen then
    let buf := buf.drop consumed.toNat
    if buf.length < m.contentLen then (0, m)
    else (consumed + m.contentLen, { m with body := buf.take m.contentLen.toNat })
  else (consumed, m)

end Message

def RtspRequest.parse (m : RtspRequest) (buf : Bytes) : ℤ × RtspRequest :=
  Message.parse parseRequestLine m buf

def RtspResponse.parse (m : RtspResponse) (buf : Bytes) : ℤ × RtspResponse :=
  Message.parse parseStatusLine m buf

section Wire

structure Request where
  method : Bytes
  uri : Bytes
  query : List (Bytes × Bytes)
  version : Bytes
  headers : List (Bytes × Bytes)
  body : Bytes
  method_without : Without [13, 32] method
  uri_without : Without [13, 32, 63] uri
  query_without : ∀ q ∈ query, Without [13, 32, 38, 61] q.1 ∧ Without [13, 32, 38] q.2
  version_without : Without [13] version
  version_ne : version ≠ []
  headers_without : ∀ h ∈ headers, Without [13, 58] h.1 ∧ Without [13] h.2
  unsized : fieldsOf headers (ascii "Content-Length") = none → body = []
  sized : ∀ v, fieldsOf headers (ascii "Content-Length") = some v →
    strtol 10 v = some (body.length : ℤ)

namespace Request

def line (r : Request) : Bytes :=
  r.method ++ 32 :: (targetText r.uri r.query ++ 32 :: (ascii "RTSP" ++ 47 :: r.version))

def head (r : Request) : Bytes := r.line ++ crlf ++ linesText r.headers

def wire (r : Request) : Bytes := r.head ++ r.body

def object (r : Request) : RtspRequest where
  start := { method := r.method, absUri := r.uri, queryParams := fieldsOf r.query, version := r.version }
  headers := fieldsOf r.headers
  body := r.body

end Request

end Wire

section Parse

variable {buf later more line : Bytes}

theorem take_line (line rest : Bytes) : (line ++ (crlf ++ rest)).take line.length = line :=
  List.take_left

theorem drop_line (line rest : Bytes) :
    (line ++ (crlf ++ rest)).drop (line.length + 2) = rest := by
  rw [← List.append_assoc]
  exact List.drop_left' (by rw [List.length_append]; rfl)

theorem find_crlf (h : 13 ∉ line) (rest : Bytes) :
    find crlf (line ++ (crlf ++ rest)) = some line.length := find_line h rest

theorem parseUri_target (r : Request) (l : RequestLine) (hl : l.queryParams = fun _ ↦ none) :
    l.parseUri (targetText r.uri r.query) =
      { l with absUri := r.uri, queryParams := fieldsOf r.query } := by
  rw [RequestLine.parseUri, find_target r.uri_without]
  by_cases hq : r.query = []
  · rw [if_pos hq, hq]
    simp only [targetText, if_true, fieldsOf, List.foldl_nil, ← hl]
  · obtain ⟨huri, hparams⟩ := target_params r.uri hq r.query_without
    rw [if_neg hq]
    simp only [hl, huri, hparams]

theorem line_no_cr (r : Request) : 13 ∉ r.line :=
  threeParts_no_cr (r.method_without 13 (by decide))
    (target_without r.uri_without r.query_without 13 (by decide)) (by decide)
    (r.version_without 13 (by decide))

theorem parseRequestLine_line (r : Request) (l : RequestLine) (hl : l.queryParams = fun _ ↦ none)
    (rest : Bytes) :
    parseRequestLine l (r.line ++ (crlf ++ rest)) = ((r.line.length : ℤ) + 2, r.object.start) := by
  have hmethod : find (ascii " ") r.line = some r.method.length :=
    find_letter (r.method_without 32 (by decide)) _
  have htarget : find (ascii " ") (targetText r.uri r.query ++ 32 :: (ascii "RTSP" ++ 47 :: r.version)) =
      some (targetText r.uri r.query).length :=
    find_letter (target_without r.uri_without r.query_without 32 (by decide)) _
  have hversion : find (ascii "/") (ascii "RTSP" ++ 47 :: r.version) = some (ascii "RTSP").length :=
    find_letter (by decide) _
  have hne : ascii "RTSP" ++ 47 :: r.version ≠ [] := List.append_ne_nil_of_left_ne_nil (by decide) _
  have hmethod' : r.line.take r.method.length = r.method := take_front _ _ _
  have hrest' : r.line.drop (r.method.length + 1) =
      targetText r.uri r.query ++ 32 :: (ascii "RTSP" ++ 47 :: r.version) := drop_front _ _ _
  rw [parseRequestLine, find_crlf (line_no_cr r)]
  simp only [take_line, hmethod, hmethod', hrest', htarget, take_front, drop_front, if_neg hne, hversion,
    ne_eq, not_true_eq_false, if_false, if_neg r.version_ne]
  rw [parseUri_target r { l with method := r.method } hl]
  rfl

theorem parseHeader_line {h : Bytes × Bytes} (hh : Without [13, 58] h.1 ∧ Without [13] h.2)
    (headers : Fields) (rest : Bytes) :
    parseHeader headers (headerLine h ++ (crlf ++ rest)) =
      (((headerLine h).length : ℤ) + 2, headers.set h.1 h.2) := by
  have hne : (headerLine h).length ≠ 0 := by
    rw [headerLine, List.length_append]
    exact Nat.succ_ne_zero _
  have hcolon : find (ascii ": ") (headerLine h) = some h.1.length :=
    find_line (hh.1 58 (by decide)) h.2
  have hvalue : (headerLine h).drop (h.1.length + 2) = h.2 := by
    have hsplit : headerLine h = (h.1 ++ [58, 32]) ++ h.2 := by
      rw [List.append_assoc]
      rfl
    rw [hsplit]
    exact List.drop_left' (by rw [List.length_append]; rfl)
  have hname : (headerLine h).take h.1.length = h.1 := List.take_left
  rw [parseHeader, find_crlf (headerLine_no_cr (hh.1 13 (by decide)) (hh.2 13 (by decide)))]
  simp only [if_neg hne, take_line, hcolon, hvalue, hname]

theorem parseHeader_end (headers : Fields) (rest : Bytes) :
    parseHeader headers (crlf ++ rest) = (2, headers) := by
  have hfind : find crlf (crlf ++ rest) = some 0 := find_here rest
  rw [parseHeader, hfind]
  rfl

theorem parseHeaders_lines {hs : List (Bytes × Bytes)}
    (h : ∀ h ∈ hs, Without [13, 58] h.1 ∧ Without [13] h.2) {fuel : ℕ} (hfuel : hs.length < fuel)
    (headers : Fields) :
    parseHeaders fuel headers (linesText hs) =
      (((linesText hs).length : ℤ), hs.foldl (fun m f ↦ m.set f.1 f.2) headers) := by
  induction hs generalizing fuel headers with
  | nil =>
    cases fuel with
    | zero => cases hfuel
    | succ fuel =>
      have hend : parseHeader headers (linesText []) = (2, headers) := parseHeader_end headers []
      rw [parseHeaders, hend]
      rfl
  | cons f hs ih =>
    cases fuel with
    | zero => cases hfuel
    | succ fuel =>
      have hline := parseHeader_line (h f List.mem_cons_self) headers (linesText hs)
      have htail := ih (fun f hf ↦ h f (List.mem_cons_of_mem _ hf)) (Nat.lt_of_succ_lt_succ hfuel)
        (headers.set f.1 f.2)
      have hpos : (headerLine f).length ≠ 0 := by
        rw [headerLine, List.length_append]
        exact Nat.succ_ne_zero _
      rw [linesText_cons, parseHeaders, hline]
      simp only
      rw [if_neg (by omega), if_neg (by omega), show ((headerLine f).length + 2 : ℤ).toNat =
        (headerLine f).length + 2 from rfl, drop_line, htail]
      simp only
      rw [if_neg (by omega), List.length_append, List.length_append]
      refine Prod.ext ?_ rfl
      simp only [crlf, List.length_cons, List.length_nil]
      omega

theorem find_over_crlf {text : Bytes} (h : text.head? ≠ some 13) :
    find (crlf ++ crlf) (crlf ++ text) = (find (crlf ++ crlf) text).map (· + 2) := by
  have hcr : ¬ (crlf ++ crlf).isPrefixOf (13 :: 10 :: text) = true := by
    rw [List.isPrefixOf_iff_prefix]
    change ¬ crlf ++ crlf <+: crlf ++ text
    rw [List.prefix_append_right_inj]
    rintro ⟨rest, rfl⟩
    exact h rfl
  have hlf : ¬ (crlf ++ crlf).isPrefixOf (10 :: text) = true := by
    rw [List.isPrefixOf_iff_prefix, crlf, List.cons_append, List.cons_prefix_cons]
    exact fun hp ↦ absurd hp.1 (by decide)
  change find (crlf ++ crlf) (13 :: 10 :: text) = _
  rw [find, if_neg hcr, find, if_neg hlf, Option.map_map]
  rfl

/-- The first empty line is the one that ends the head. -/
theorem find_divider {hs : List (Bytes × Bytes)} (hline : 13 ∉ line)
    (h : ∀ h ∈ hs, Without [13, 58] h.1 ∧ Without [13] h.2) (rest : Bytes) :
    find (crlf ++ crlf) (line ++ (crlf ++ (linesText hs ++ rest))) =
      some (line.length + (linesText hs).length - 2) := by
  rw [show crlf ++ crlf = 13 :: [10, 13, 10] from rfl, find_skip hline]
  induction hs generalizing line with
  | nil =>
    have hhere : find (13 :: [10, 13, 10]) (crlf ++ (linesText [] ++ rest)) = some 0 := find_here rest
    rw [hhere, Option.map_some, linesText_nil, crlf]
    simp only [List.length_cons, List.length_nil]
    congr 1
    omega
  | cons f hs ih =>
    obtain ⟨hname, hvalue⟩ := h f List.mem_cons_self
    have hf := headerLine_no_cr (hname 13 (by decide)) (hvalue 13 (by decide))
    have hhead : (headerLine f ++ (crlf ++ (linesText hs ++ rest))).head? ≠ some 13 := by
      intro heq
      have hne : headerLine f ≠ [] := List.append_ne_nil_of_right_ne_nil _ (List.cons_ne_nil _ _)
      obtain ⟨c, text, hcons⟩ := List.exists_cons_of_ne_nil hne
      rw [hcons, List.cons_append, List.head?_cons, Option.some_inj] at heq
      rw [hcons, heq] at hf
      exact hf List.mem_cons_self
    have htail := ih hf fun f hf ↦ h f (List.mem_cons_of_mem _ hf)
    rw [linesText_cons, List.append_assoc, List.append_assoc,
      show 13 :: [10, 13, 10] = crlf ++ crlf from rfl, find_over_crlf hhead,
      show crlf ++ crlf = 13 :: [10, 13, 10] from rfl, find_skip hf, htail]
    have hpos : 2 ≤ (linesText hs).length := by
      rw [linesText, List.length_append, crlf]
      exact Nat.le_add_left _ _
    simp only [Option.map_some, List.length_append, crlf, List.length_cons, List.length_nil]
    congr 1
    omega

variable {r : Request} {m : RtspRequest}

theorem head_length (r : Request) : r.head.length = r.line.length + 2 + (linesText r.headers).length := by
  rw [Request.head, List.length_append, List.length_append]
  rfl

theorem two_le_linesText (hs : List (Bytes × Bytes)) : 2 ≤ (linesText hs).length := by
  rw [linesText, List.length_append, crlf]
  exact Nat.le_add_left _ _

theorem length_le_linesText (hs : List (Bytes × Bytes)) : hs.length < (linesText hs).length := by
  induction hs with
  | nil => decide
  | cons h hs ih =>
    rw [linesText_cons, List.length_append, List.length_append, List.length_cons, crlf]
    simp only [List.length_cons, List.length_nil]
    omega

/-- A head of which something is missing. -/
theorem parseRtspHeader_short (h : buf ++ later = r.wire ++ more) (hshort : buf.length < r.head.length)
    (m : RtspRequest) : m.parseRtspHeader parseRequestLine buf = (0, m) := by
  have hfind : find (crlf ++ crlf) (buf ++ later) =
      some (r.line.length + (linesText r.headers).length - 2) := by
    rw [h, Request.wire, Request.head, List.append_assoc, List.append_assoc, List.append_assoc]
    exact find_divider (line_no_cr r) r.headers_without _
  have htwo := two_le_linesText r.headers
  have hlen := head_length r
  have hpre := find_prefix hfind
  rw [if_neg (by simp only [List.length_append, crlf, List.length_cons, List.length_nil]; omega)] at hpre
  rw [Message.parseRtspHeader, hpre]

theorem parseRtspHeader_head (rest : Bytes) (hparams : m.start.queryParams = fun _ ↦ none)
    (hheaders : m.headers = fun _ ↦ none) :
    m.parseRtspHeader parseRequestLine (r.head ++ rest) =
      ((r.head.length : ℤ), { m with start := r.object.start, headers := r.object.headers }) := by
  have hfind : find (crlf ++ crlf) (r.head ++ rest) =
      some (r.line.length + (linesText r.headers).length - 2) := by
    rw [Request.head, List.append_assoc, List.append_assoc]
    exact find_divider (line_no_cr r) r.headers_without _
  have htwo := two_le_linesText r.headers
  have hlen := head_length r
  have htake : (r.head ++ rest).take (r.line.length + (linesText r.headers).length - 2 + 4) = r.head := by
    rw [show r.line.length + (linesText r.headers).length - 2 + 4 = r.head.length by omega]
    exact List.take_left
  have hline : parseRequestLine m.start r.head = ((r.line.length : ℤ) + 2, r.object.start) := by
    rw [Request.head, List.append_assoc]
    exact parseRequestLine_line r m.start hparams _
  have hdrop : r.head.drop (r.line.length + 2) = linesText r.headers := by
    rw [Request.head, List.append_assoc]
    exact drop_line _ _
  have hfuel : r.headers.length < r.head.length := by
    have := length_le_linesText r.headers
    omega
  rw [Message.parseRtspHeader, hfind]
  simp only [htake, hline]
  rw [if_neg (by omega), show ((r.line.length : ℤ) + 2).toNat = r.line.length + 2 from rfl, hdrop,
    parseHeaders_lines r.headers_without hfuel, hheaders]
  simp only
  rw [if_neg (by omega)]
  refine Prod.ext ?_ rfl
  simp only
  omega

theorem contentLen_eq (r : Request) (hbody : r.body.length < 2 ^ 31) (body : Bytes) :
    Message.contentLen { start := r.object.start, headers := r.object.headers, body } =
      r.body.length := by
  change (match fieldsOf r.headers (ascii "Content-Length") with | none => 0 | some v => atoi v) = _
  cases hlen : fieldsOf r.headers (ascii "Content-Length") with
  | none => rw [r.unsized hlen, List.length_nil, Nat.cast_zero]
  | some v => exact atoi_eq (r.sized v hlen) hbody

/-- What has been received of a request, in two parts at the end of its head. -/
theorem split_head (h : buf ++ later = r.wire ++ more) (hlen : r.head.length ≤ buf.length) :
    ∃ tail, buf = r.head ++ tail ∧ tail ++ later = r.body ++ more := by
  have hpre : r.head <+: buf ++ later := by
    rw [h, Request.wire, List.append_assoc]
    exact List.prefix_append _ _
  obtain ⟨tail, rfl⟩ := List.prefix_of_prefix_length_le hpre (List.prefix_append buf later) hlen
  rw [Request.wire, List.append_assoc, List.append_assoc, List.append_cancel_left_eq] at h
  exact ⟨tail, rfl, h⟩

theorem parse_short (h : buf ++ later = r.wire ++ more) (hshort : buf.length < r.wire.length)
    (hbody : r.body.length < 2 ^ 31) (hparams : m.start.queryParams = fun _ ↦ none)
    (hheaders : m.headers = fun _ ↦ none) :
    ∃ m', RtspRequest.parse m buf = (0, m') ∧ m'.body = m.body := by
  rw [RtspRequest.parse, Message.parse]
  by_cases hlen : r.head.length ≤ buf.length
  · obtain ⟨tail, rfl, htail⟩ := split_head h hlen
    have hpos := head_length r
    rw [Request.wire, List.length_append, List.length_append] at hshort
    rw [parseRtspHeader_head tail hparams hheaders]
    simp only
    rw [if_neg (by omega), contentLen_eq r hbody m.body, if_neg (by omega), if_pos (by omega),
      Int.toNat_natCast, List.drop_left, if_pos (by omega)]
    exact ⟨_, rfl, rfl⟩
  · rw [parseRtspHeader_short h (Nat.lt_of_not_le hlen)]
    exact ⟨m, rfl, rfl⟩

theorem parse_whole (h : buf ++ later = r.wire ++ more) (hlen : r.wire.length ≤ buf.length)
    (hbody : r.body.length < 2 ^ 31) (hparams : m.start.queryParams = fun _ ↦ none)
    (hheaders : m.headers = fun _ ↦ none) (hm : m.body = []) :
    RtspRequest.parse m buf = ((r.wire.length : ℤ), r.object) := by
  rw [Request.wire, List.length_append] at hlen
  obtain ⟨tail, rfl, htail⟩ := split_head h (by omega)
  rw [List.length_append] at hlen
  have hpos := head_length r
  rw [RtspRequest.parse, Message.parse, parseRtspHeader_head tail hparams hheaders]
  simp only
  rw [if_neg (by omega), contentLen_eq r hbody m.body, if_neg (by omega), Request.wire, List.length_append]
  by_cases hzero : r.body = []
  · rw [hzero, List.length_nil, if_neg (by decide), hm]
    refine Prod.ext (by simp only; omega) ?_
    simp only [Request.object, hzero]
  · have hne : 0 < r.body.length := List.length_pos_iff.mpr hzero
    have hbody' : tail.take r.body.length = r.body := by
      have hpre : r.body <+: tail ++ later := by
        rw [htail]
        exact List.prefix_append _ _
      exact (List.prefix_iff_eq_take.mp
        (List.prefix_of_prefix_length_le hpre (List.prefix_append tail later) (by omega))).symm
    rw [if_pos (by omega), Int.toNat_natCast, List.drop_left, if_neg (by omega), Int.toNat_natCast,
      hbody']
    refine Prod.ext ?_ rfl
    simp only
    omega

end Parse

end MmsServer.Rtsp.MessageText
