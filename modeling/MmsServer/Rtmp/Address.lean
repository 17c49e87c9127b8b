import MmsServer.Rtmp.CommandSession

namespace MmsServer.Rtmp.Address

open Lib.ByteReader Lib.Find Lib.Text Http.RequestText CommandSession CommandSession.RtmpServerSession

/-- The address of a stream as the clients are configured with it: a domain or a domain with
a port, an application and a stream, and parameters in which no slash stands. -/
structure StreamUrl where
  tls : Bool
  host : Bytes
  app : Bytes
  stream : Bytes
  query : Option Bytes
  host_without : Without [47, 63] host
  app_without : Without [47, 63] app
  stream_without : Without [47, 63] stream
  query_without : ∀ q, query = some q → 47 ∉ q

namespace StreamUrl

variable (u : StreamUrl)

def scheme : Bytes := if u.tls then ascii "rtmps" else ascii "rtmp"

def domain : Bytes := (u.host.splitOn 58).headD []

def queryText : Bytes := u.query.elim [] fun q ↦ 63 :: q

def tcUrl : Bytes := (u.scheme ++ [58]) ++ 47 :: ([] ++ 47 :: (u.host ++ 47 :: u.app))

def streamAndParams : Bytes := u.stream ++ u.queryText

def text : Bytes := u.tcUrl ++ 47 :: u.streamAndParams

def info : SessionInfo := ⟨u.domain, u.app, u.stream⟩

def params (before : Fields) : Fields := u.query.elim before (setParams before)

theorem scheme_without : Without [47, 58, 63] u.scheme := by
  unfold scheme
  split <;> decide

theorem protocol_without : Without [47, 63] (u.scheme ++ [58]) := by
  unfold scheme
  split <;> decide

theorem queryText_without : 47 ∉ u.queryText := by
  unfold queryText
  cases h : u.query with
  | none => exact List.not_mem_nil
  | some q =>
    rw [Option.elim_some, List.mem_cons, not_or]
    exact ⟨by decide, u.query_without q h⟩

theorem tcUrl_without : 63 ∉ u.tcUrl := by
  have hp := u.scheme_without 63 (by decide)
  have hh := u.host_without 63 (by decide)
  have ha := u.app_without 63 (by decide)
  simp only [tcUrl, List.mem_append, List.mem_cons, List.not_mem_nil, not_or]
  exact ⟨⟨hp, by decide, not_false⟩, by decide, not_false, by decide, hh, by decide, ha⟩

theorem tcUrl_split : u.tcUrl.splitOn 47 = [u.scheme ++ [58], [], u.host, u.app] := by
  rw [tcUrl, List.splitOn_append_cons_self_of_not_mem (u.protocol_without 47 (by decide)),
    List.splitOn_append_cons_self_of_not_mem List.not_mem_nil,
    List.splitOn_append_cons_self_of_not_mem (u.host_without 47 (by decide)),
    List.splitOn_eq_singleton (u.app_without 47 (by decide))]

/-- The part of the address before its parameters. -/
theorem path_split : (u.tcUrl ++ 47 :: u.stream).splitOn 47 =
    [u.scheme ++ [58], [], u.host, u.app, u.stream] := by
  rw [List.splitOn_append_cons_self, tcUrl_split,
    List.splitOn_eq_singleton (u.stream_without 47 (by decide))]
  rfl

theorem text_split : u.text.splitOn 63 =
    (u.tcUrl ++ 47 :: u.stream) :: u.query.elim [] fun q ↦ q.splitOn 63 := by
  have hbase : (63 : UInt8) ∉ u.tcUrl ++ 47 :: u.stream := by
    rw [List.mem_append, List.mem_cons, not_or, not_or]
    exact ⟨u.tcUrl_without, by decide, u.stream_without 63 (by decide)⟩
  rw [text, streamAndParams, queryText]
  cases u.query with
  | none =>
    rw [Option.elim_none, List.append_nil, List.splitOn_eq_singleton hbase]
    rfl
  | some q =>
    rw [Option.elim_some, ← List.cons_append, ← List.append_assoc,
      List.splitOn_append_cons_self_of_not_mem hbase]
    rfl

theorem parseHost_fst (protocol host : Bytes) :
    (parseHost protocol host).1 = (host.splitOn 58).headD [] := by
  unfold parseHost
  cases h : findLast 58 host with
  | none => rw [List.splitOn_eq_singleton (findLast_none.mp h), List.headD_cons]
  | some n => rfl

theorem publishInfo_text : publishInfo u.text = some u.info := by
  have hlast : findLast 58 (u.scheme ++ [58]) = some u.scheme.length :=
    findLast_append u.scheme List.not_mem_nil
  have hpath : (47 :: List.intercalate [47] [u.app, u.stream]).splitOn 47 = [[], u.app, u.stream] := by
    have hlist : ∀ l ∈ [[], u.app, u.stream], (47 : UInt8) ∉ l := by
      intro l hl
      rcases List.mem_cons.mp hl with rfl | hl
      · exact List.not_mem_nil
      · rcases List.mem_cons.mp hl with rfl | hl
        · exact u.app_without 47 (by decide)
        · rw [List.mem_singleton.mp hl]
          exact u.stream_without 47 (by decide)
    exact List.splitOn_intercalate 47 hlist (List.cons_ne_nil _ _)
  have hscheme : u.scheme = ascii "rtmp" ∨ u.scheme = ascii "rtmps" := by
    unfold scheme
    split
    · exact .inr rfl
    · exact .inl rfl
  simp only [publishInfo, parseUrl, text_split, List.headD_cons, path_split, hlast, List.take_left,
    if_neg (List.cons_ne_nil u.app [u.stream]), if_pos hscheme, hpath, parseHost_fst]
  rfl

theorem splitUrl_text : splitUrl u.text = (u.tcUrl, u.streamAndParams) := by
  have hback : (47 : UInt8) ∉ u.streamAndParams := by
    rw [streamAndParams, List.mem_append, not_or]
    exact ⟨u.stream_without 47 (by decide), u.queryText_without⟩
  have hdrop : u.text.drop (u.tcUrl.length + 1) = u.streamAndParams := drop_front ..
  rw [splitUrl, text, findLast_append _ hback]
  exact Prod.ext List.take_left hdrop

theorem parseDomain_tcUrl : parseDomain u.tcUrl = some u.domain := by
  have hprotocol : u.scheme ++ [58] = ascii "rtmp:" ∨ u.scheme ++ [58] = ascii "rtmps:" := by
    unfold scheme
    split
    · exact .inr (by decide)
    · exact .inl (by decide)
  rw [parseDomain, tcUrl_split]
  simp only
  rw [if_neg (by tauto)]
  split
  · rfl
  · rename_i hcolon
    rw [domain, List.splitOn_eq_singleton hcolon, List.headD_cons]

theorem find_streamAndParams :
    find (ascii "?") u.streamAndParams = u.query.map fun _ ↦ u.stream.length := by
  have hstream := u.stream_without 63 (by decide)
  rw [streamAndParams, queryText]
  cases u.query with
  | none =>
    rw [Option.elim_none, List.append_nil]
    exact find_none hstream
  | some q => exact find_letter hstream q

theorem beforeQuestionMark_streamAndParams : beforeQuestionMark u.streamAndParams = u.stream := by
  rw [beforeQuestionMark, find_streamAndParams, streamAndParams, queryText]
  cases u.query with
  | none => exact List.append_nil _
  | some q => exact List.take_left

theorem paramsBehind_tcUrl (before : Fields) : paramsBehind before u.tcUrl = before := by
  have h : find (ascii "?") u.tcUrl = none := find_none u.tcUrl_without
  rw [paramsBehind, h]

theorem paramsBehind_streamAndParams (before : Fields) :
    paramsBehind before u.streamAndParams = u.params before := by
  rw [paramsBehind, find_streamAndParams, streamAndParams, queryText, params]
  cases u.query with
  | none => rfl
  | some q => exact congrArg (setParams before) (drop_front ..)

end StreamUrl

end MmsServer.Rtmp.Address
