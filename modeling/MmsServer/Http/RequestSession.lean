import Mathlib.Data.List.Infix
import Mathlib.Logic.Function.Iterate
import MmsServer.Http.RequestText
import MmsServer.Lib.Pieces

namespace MmsServer.Http.RequestSession

open Lib.ByteReader Lib.Find Lib.Pieces Lib.Text RequestText

inductive HttpState
  | waitRequestLine
  | waitHeader
  | requestBody
  | requestError
deriving DecidableEq

structure HttpParser where
  state : HttpState := .waitRequestLine
  httpReq : HttpRequest := {}

/-- What `read` returns, and the request that it has handed to the callback. -/
structure ReadResult where
  code : ℤ
  parser : HttpParser
  called : Option HttpRequest := none

def HttpParser.read (p : HttpParser) (buf : Bytes) : ReadResult :=
  match p.state with
  | .waitRequestLine =>
    match find crlf buf with
    | none => { code := 0, parser := { p with httpReq := {} } }
    | some pos =>
      match parseRequestLine (buf.take pos) with
      | none => { code := -1, parser := { p with state := .requestError } }
      | some req => { code := pos + 2, parser := { state := .waitHeader, httpReq := req } }
  | .waitHeader =>
    match find crlf buf with
    | none => { code := 0, parser := p }
    | some pos =>
      if pos = 0 then
        if p.httpReq.method = some .get then
          { code := pos + 2, parser := { p with state := .waitRequestLine }, called := some p.httpReq }
        else if p.httpReq.getHeader (ascii "Content-Length") = [] then
          { code := pos + 2, parser := p, called := some p.httpReq }
        else { code := pos + 2, parser := { p with state := .requestBody } }
      else
        match p.httpReq.parseHeader (buf.take pos) with
        | none => { code := -2, parser := { p with state := .requestError } }
        | some req => { code := pos + 2, parser := { p with httpReq := req } }
  | .requestBody =>
    let (consumed, req) := p.httpReq.parseBody buf
    { code := consumed, parser := { state := .waitRequestLine }, called := some req }
  | .requestError => { code := 0, parser := p }

def isWebsocketReq (req : HttpRequest) : Bool :=
  req.getHeader (ascii "Host") ≠ [] && req.getHeader (ascii "Upgrade") = ascii "websocket" &&
    req.getHeader (ascii "Connection") = ascii "Upgrade" &&
    req.getHeader (ascii "Sec-WebSocket-Key") ≠ [] &&
    req.getHeader (ascii "Sec-WebSocket-Version") ≠ [] &&
    atoi (req.getHeader (ascii "Sec-WebSocket-Version")) = 13

def minHttpBufBytes : ℕ := 1024

def maxHttpBufBytes : ℕ := 8192

/-- `called` holds what the callback has been given so far. -/
structure Session where
  parser : HttpParser := {}
  currReq : Option HttpRequest := none
  reqs : List HttpRequest := []
  isWebsocket : Bool := false
  buf : Bytes := []
  maxBufBytes : ℕ := minHttpBufBytes
  called : List HttpRequest := []
  reads : ℕ := 0

def Session.processOneReq (s : Session) (req : HttpRequest) : Session :=
  if isWebsocketReq req then { s with isWebsocket := true } else s

def Session.onHttpRequest (s : Session) (req : HttpRequest) : Session :=
  match s.currReq with
  | some _ => { s with called := s.called ++ [req], reqs := s.reqs ++ [req] }
  | none => { s with called := s.called ++ [req], currReq := some req }.processOneReq req

/-- To close the socket only has an effect on what `recv_some` returns. -/
def Session.closeOrDoNextReq (s : Session) : Session :=
  match s.currReq with
  | none => s
  | some currReq =>
    if currReq.getHeader (ascii "Connection") ≠ ascii "Keep-Alive" then s
    else match s.reqs with
      | [] => { s with currReq := none }
      | req :: reqs => { s with currReq := some req, reqs }.processOneReq req

/-- How many answers the handlers complete around each call of `read`. -/
abbrev Answers := ℕ → ℕ

def Session.read (answers : Answers) (s : Session) (buf : Bytes) : ℤ × Session :=
  let r := s.parser.read buf
  let s' := { s with parser := r.parser, reads := s.reads + 1 }
  let s' := match r.called with
    | none => s'
    | some req => s'.onHttpRequest req
  (r.code, Session.closeOrDoNextReq^[answers s.reads] s')

structure Parsed where
  cont : Bool
  consumed : ℤ
  session : Session

/-- The fuel bounds the calls of `read`. -/
def parseRecvBuf (answers : Answers) : ℕ → Session → Bytes → Parsed
  | 0, s, _ => ⟨true, 0, s⟩
  | fuel + 1, s, buf =>
    let (consumed, s) := s.read answers buf
    if consumed < 0 then ⟨false, -1, s⟩
    else if s.isWebsocket then ⟨false, consumed, s⟩
    else if 0 < consumed ∧ consumed < buf.length then
      let r := parseRecvBuf answers fuel s (buf.drop consumed.toNat)
      { r with consumed := if r.consumed < 0 then -1 else consumed + r.consumed }
    else ⟨true, consumed, s⟩

inductive Turn
  | ended (s : Session)
  | recv (s : Session)

def Turn.session : Turn → Session
  | .ended s => s
  | .recv s => s

def turn (answers : Answers) (s : Session) (piece : Bytes) : Turn :=
  let buf := s.buf ++ piece
  let r := parseRecvBuf answers (buf.length + 1) s buf
  if r.consumed < 0 then .ended r.session
  else
    let s := { r.session with buf := buf.drop r.consumed.toNat }
    if r.cont then .recv s else .ended s

def Session.grow (s : Session) : Option Session :=
  if s.maxBufBytes ≤ s.buf.length then
    if maxHttpBufBytes ≤ 2 * s.maxBufBytes then none else some { s with maxBufBytes := 2 * s.maxBufBytes }
  else some s

/-- `cycle_recv`, where `recv_some` returns one piece after the other. -/
def cycleRecv (answers : Answers) : List Bytes → Session → Session
  | [], s => s
  | piece :: pieces, s =>
    match s.grow with
    | none => s
    | some s =>
      match turn answers s piece with
      | .ended s => s
      | .recv s => cycleRecv answers pieces s

/-- Each piece is something that `recv_some` can return, at least one byte and no more
than there is room for. -/
def Fits (answers : Answers) : List Bytes → Session → Prop
  | [], _ => True
  | piece :: pieces, s =>
    match s.grow with
    | none => True
    | some s => piece ≠ [] ∧ s.buf.length + piece.length ≤ s.maxBufBytes ∧
      match turn answers s piece with
      | .ended _ => True
      | .recv s => Fits answers pieces s

section Spec

def bufLimit : ℕ := 4096

def LineFits (line : Bytes) : Prop := line.length + 2 ≤ bufLimit

instance (line : Bytes) : Decidable (LineFits line) := inferInstanceAs (Decidable (_ ≤ _))

/-- A request without a length is only recognised as the last one. With a length it is
only recognised where its body is received alone and in one piece. -/
def Recognised : List Request → List Bytes → Prop
  | [], _ => True
  | r :: rs, pieces =>
    (r.method.Known ∧ LineFits r.line ∧ ∀ h ∈ r.headers, LineFits (headerLine h)) ∧
      if r.method = .get then Recognised rs (skip r.head.length pieces)
      else if contentLength r.headers = [] then rs = []
      else (skip r.head.length pieces).head? = some r.body ∧
        Recognised rs (skip r.head.length pieces).tail

instance decidableRecognised : ∀ reqs pieces, Decidable (Recognised reqs pieces)
  | [], _ => isTrue trivial
  | r :: rs, pieces =>
    have := decidableRecognised rs
    inferInstanceAs (Decidable ((r.method.Known ∧ LineFits r.line ∧
      ∀ h ∈ r.headers, LineFits (headerLine h)) ∧
      if r.method = .get then Recognised rs (skip r.head.length pieces)
      else if contentLength r.headers = [] then rs = []
      else (skip r.head.length pieces).head? = some r.body ∧
        Recognised rs (skip r.head.length pieces).tail))

def KeepAlive (req : HttpRequest) : Prop :=
  req.getHeader (ascii "Connection") = ascii "Keep-Alive"

/-- Behind requests that keep the connection alive an upgrade is the last one. -/
def StaysHttp (reqs : List Request) : Prop :=
  ∀ before req behind, reqs.map Request.object = before ++ req :: behind →
    (∀ r ∈ before, KeepAlive r) → isWebsocketReq req = true → behind = []

end Spec

section Session

variable {answers : Answers} {s : Session}

theorem processOneReq_frame (s : Session) (req : HttpRequest) :
    (s.processOneReq req).parser = s.parser ∧ (s.processOneReq req).called = s.called ∧
      (s.processOneReq req).buf = s.buf ∧ (s.processOneReq req).maxBufBytes = s.maxBufBytes := by
  rw [Session.processOneReq]
  split
  · exact ⟨rfl, rfl, rfl, rfl⟩
  · exact ⟨rfl, rfl, rfl, rfl⟩

theorem closeOrDoNextReq_frame (s : Session) :
    s.closeOrDoNextReq.parser = s.parser ∧ s.closeOrDoNextReq.called = s.called ∧
      s.closeOrDoNextReq.buf = s.buf ∧ s.closeOrDoNextReq.maxBufBytes = s.maxBufBytes := by
  rw [Session.closeOrDoNextReq]
  split
  · exact ⟨rfl, rfl, rfl, rfl⟩
  · split
    · exact ⟨rfl, rfl, rfl, rfl⟩
    · split
      · exact ⟨rfl, rfl, rfl, rfl⟩
      · exact processOneReq_frame _ _

theorem closeOrDoNextReqs_frame (n : ℕ) (s : Session) :
    (Session.closeOrDoNextReq^[n] s).parser = s.parser ∧
      (Session.closeOrDoNextReq^[n] s).called = s.called ∧
      (Session.closeOrDoNextReq^[n] s).buf = s.buf ∧
      (Session.closeOrDoNextReq^[n] s).maxBufBytes = s.maxBufBytes := by
  induction n generalizing s with
  | zero => exact ⟨rfl, rfl, rfl, rfl⟩
  | succ n ih =>
    rw [Function.iterate_succ_apply]
    obtain ⟨hp, hc, hb, hm⟩ := closeOrDoNextReq_frame s
    obtain ⟨hp', hc', hb', hm'⟩ := ih s.closeOrDoNextReq
    exact ⟨hp'.trans hp, hc'.trans hc, hb'.trans hb, hm'.trans hm⟩

theorem onHttpRequest_frame (s : Session) (req : HttpRequest) :
    (s.onHttpRequest req).parser = s.parser ∧ (s.onHttpRequest req).called = s.called ++ [req] ∧
      (s.onHttpRequest req).buf = s.buf ∧ (s.onHttpRequest req).maxBufBytes = s.maxBufBytes := by
  rw [Session.onHttpRequest]
  split
  · exact ⟨rfl, rfl, rfl, rfl⟩
  · exact processOneReq_frame _ _

/-- What a call of `read` does to the parts of the session that the parsing depends on. -/
theorem read_spec (answers : Answers) (s : Session) (buf : Bytes) :
    (s.read answers buf).1 = (s.parser.read buf).code ∧
      (s.read answers buf).2.parser = (s.parser.read buf).parser ∧
      (s.read answers buf).2.called = s.called ++ (s.parser.read buf).called.toList ∧
      (s.read answers buf).2.buf = s.buf ∧ (s.read answers buf).2.maxBufBytes = s.maxBufBytes := by
  refine ⟨rfl, ?_⟩
  rw [Session.read]
  obtain ⟨hp, hc, hb, hm⟩ := closeOrDoNextReqs_frame (answers s.reads)
    (match (s.parser.read buf).called with
      | none => { s with parser := (s.parser.read buf).parser, reads := s.reads + 1 }
      | some req =>
        { s with parser := (s.parser.read buf).parser, reads := s.reads + 1 }.onHttpRequest req)
  cases hcalled : (s.parser.read buf).called with
  | none =>
    rw [hcalled] at hp hc hb hm
    exact ⟨hp, hc.trans (List.append_nil _).symm, hb, hm⟩
  | some req =>
    rw [hcalled] at hp hc hb hm
    obtain ⟨hp', hc', hb', hm'⟩ := onHttpRequest_frame
      { s with parser := (s.parser.read buf).parser, reads := s.reads + 1 } req
    exact ⟨hp.trans hp', hc.trans hc', hb.trans hb', hm.trans hm'⟩

theorem parseRecvBuf_succ (fuel : ℕ) (s : Session) (buf : Bytes) :
    parseRecvBuf answers (fuel + 1) s buf =
      if (s.read answers buf).1 < 0 then ⟨false, -1, (s.read answers buf).2⟩
      else if (s.read answers buf).2.isWebsocket then
        ⟨false, (s.read answers buf).1, (s.read answers buf).2⟩
      else if 0 < (s.read answers buf).1 ∧ (s.read answers buf).1 < buf.length then
        let r := parseRecvBuf answers fuel (s.read answers buf).2
          (buf.drop (s.read answers buf).1.toNat)
        { r with
          consumed := if r.consumed < 0 then -1 else (s.read answers buf).1 + r.consumed }
      else ⟨true, (s.read answers buf).1, (s.read answers buf).2⟩ := rfl

/-- Whatever the calls of `read` preserve holds of the session behind them. -/
theorem parseRecvBuf_keeps {P : Session → Prop}
    (hread : ∀ s buf, s.isWebsocket = false → P s → P (s.read answers buf).2) (fuel : ℕ)
    (buf : Bytes) (hs : s.isWebsocket = false) (h : P s) :
    P (parseRecvBuf answers fuel s buf).session ∧
      ((parseRecvBuf answers fuel s buf).cont = true →
        (parseRecvBuf answers fuel s buf).session.isWebsocket = false) := by
  induction fuel generalizing s buf with
  | zero => exact ⟨h, fun _ ↦ hs⟩
  | succ fuel ih =>
    have h' := hread s buf hs h
    rw [parseRecvBuf_succ]
    split
    · exact ⟨h', fun hc ↦ by cases hc⟩
    · split
      · exact ⟨h', fun hc ↦ by cases hc⟩
      · rename_i hw
        have hw' : (s.read answers buf).2.isWebsocket = false := Bool.eq_false_of_not_eq_true hw
        split
        · exact ih _ hw' h'
        · exact ⟨h', fun _ ↦ hw'⟩

theorem parseRecvBuf_max (answers : Answers) (fuel : ℕ) (s : Session) (buf : Bytes) :
    (parseRecvBuf answers fuel s buf).session.maxBufBytes = s.maxBufBytes := by
  induction fuel generalizing s buf with
  | zero => rfl
  | succ fuel ih =>
    have hread : (s.read answers buf).2.maxBufBytes = s.maxBufBytes := (read_spec answers s buf).2.2.2.2
    rw [parseRecvBuf_succ]
    split
    · exact hread
    · split
      · exact hread
      · split
        · exact (ih _ _).trans hread
        · exact hread

theorem cycleRecv_keeps {P : Session → Prop}
    (hread : ∀ s buf, s.isWebsocket = false → P s → P (s.read answers buf).2)
    (hbuf : ∀ s buf maxBufBytes, P s → P { s with buf, maxBufBytes }) (pieces : List Bytes)
    (hs : s.isWebsocket = false) (h : P s) : P (cycleRecv answers pieces s) := by
  induction pieces generalizing s with
  | nil => exact h
  | cons piece pieces ih =>
    rw [cycleRecv]
    split
    · exact h
    · rename_i s' hgrow
      have hs' : s'.isWebsocket = false ∧ P s' := by
        rw [Session.grow] at hgrow
        split at hgrow
        · split at hgrow
          · cases hgrow
          · cases hgrow
            exact ⟨hs, hbuf s s.buf _ h⟩
        · cases hgrow
          exact ⟨hs, h⟩
      obtain ⟨hp, hw⟩ := parseRecvBuf_keeps hread ((s'.buf ++ piece).length + 1) (s'.buf ++ piece)
        hs'.1 hs'.2
      rw [turn]
      split
      · rename_i heq
        split at heq
        · cases heq
          exact hp
        · split at heq
          · cases heq
          · cases heq
            exact hbuf _ _ _ hp
      · rename_i heq
        split at heq
        · cases heq
        · split at heq
          · rename_i hc
            cases heq
            exact ih (hw hc) (hbuf _ _ _ hp)
          · cases heq

end Session

end MmsServer.Http.RequestSession
