import MmsServer.Lib.Checked
import MmsServer.Lib.Text
import MmsServer.Rtmp.FlvBridge

namespace MmsServer.Http.FlvClient

open Lib.ByteReader Lib.Checked Lib.Text
open Rtmp.FlvBridge (FlvTagHeader)

/-- `FlvHeader::decode`: how much is consumed, nothing while the header is incomplete. -/
def flvHeaderDecode (data : Bytes) : ℤ :=
  if data.length < 9 then 0
  else if data.take 3 ≠ ascii "FLV" then -1
  else if data[8]? ≠ some 9 then -2
  else 9

/-- A tag of the stream, before anything behind its header is decoded. -/
structure FlvTag extends FlvTagHeader where
  body : Bytes
  dataSize_eq : dataSize = body.length

inductive Handed
  | videoPacket (tag : FlvTag)
  | audioPacket (tag : FlvTag)
  | metadata (tag : FlvTag)

def handedFor (tag : FlvTag) : Handed :=
  match tag.tagType.toNat % 32 with
  | 9 => .videoPacket tag
  | 8 => .audioPacket tag
  | _ => .metadata tag

structure HttpFlvClientSession where
  flvHeaderReceived : Bool := false
  cacheTag : Option FlvTag := none
  handed : List Handed := []

namespace HttpFlvClientSession

def handOver (s : HttpFlvClientSession) (tag : FlvTag) : HttpFlvClientSession :=
  { s with cacheTag := none, handed := s.handed ++ [handedFor tag] }

/-- The callback of `cycle_pull_flv_tag`. Behind the header it has no `co_return`. -/
def onRecvData (s : HttpFlvClientSession) (recvData : Bytes) : Outcome (ℤ × HttpFlvClientSession) :=
  if s.flvHeaderReceived then .fault .pastEnd
  else
    let consumed := flvHeaderDecode recvData
    if consumed < 0 then .ok (-1, s)
    else if consumed = 0 then .ok (0, s)
    else match s.cacheTag with
      | none => .fault .nullDeref
      | some tag => .ok (consumed + 4, s.handOver tag)

/-- The loop that hands the body to the callback as long as it consumes some of it;
without a state to go on with when the callback has refused it. -/
def feed : ℕ → Bytes → HttpFlvClientSession →
    Outcome (Option Bytes × HttpFlvClientSession)
  | 0, view, s => .ok (some view, s)
  | fuel + 1, view, s =>
    if view = [] then .ok (some view, s)
    else do
      let (consumed, s) ← s.onRecvData view
      if consumed < 0 then return (none, s)
      else if consumed = 0 then return (some view, s)
      else feed fuel (view.drop consumed.toNat) s

/-- `cycle_recv_body` for a body that ends with the connection. A number of `cuts` is
how much `recv_some` takes from the stream at most. -/
def cycleRecvBody (bufferSize : ℕ) :
    List ℕ → Bytes → Bytes → HttpFlvClientSession → Outcome HttpFlvClientSession
  | cuts, stream, recvBuf, s => do
    match ← feed recvBuf.length recvBuf s with
    | (none, s) => return s
    | (some recvBuf, s) =>
      if bufferSize ≤ recvBuf.length then return s
      else match cuts with
        | [] => return s
        | n :: cuts =>
          let n := min n (bufferSize - recvBuf.length)
          cycleRecvBody bufferSize cuts (stream.drop n) (recvBuf ++ stream.take n) s

end HttpFlvClientSession

section Stream

def flvHeader (version flags : UInt8) : Bytes := ascii "FLV" ++ [version, flags, 0, 0, 0, 9]

def FlvTag.encode (tag : FlvTag) : Bytes := tag.toFlvTagHeader.bytes ++ tag.body

def flvTags : ℕ → List FlvTag → Bytes
  | prev, [] => putBE 4 prev
  | prev, tag :: tags => putBE 4 prev ++ tag.encode ++ flvTags tag.encode.length tags

def flvStream (version flags : UInt8) (tags : List FlvTag) : Bytes :=
  flvHeader version flags ++ flvTags 0 tags

/-- The session pulls the whole stream and hands each tag over once. -/
def Pulls (bufferSize : ℕ) (cuts : List ℕ) (stream recvBuf : Bytes) (tags : List FlvTag) : Prop :=
  ∃ s, HttpFlvClientSession.cycleRecvBody bufferSize cuts stream recvBuf {} = .ok s ∧
    s.handed = tags.map handedFor

end Stream

section Crash

open HttpFlvClientSession

theorem flvHeaderDecode_stream {version flags : UInt8} {tags : List FlvTag} {buf ext : Bytes}
    (heq : buf ++ ext = flvStream version flags tags) :
    flvHeaderDecode buf = if buf.length < 9 then 0 else 9 := by
  rw [flvHeaderDecode]
  split
  · rfl
  · rename_i hlen
    obtain ⟨rest, hrest⟩ : ∃ rest, buf = flvHeader version flags ++ rest := by
      refine ⟨buf.drop 9, ?_⟩
      have htake := congrArg (List.take 9) heq
      rw [List.take_append_of_le_length (by omega)] at htake
      change buf.take 9 = flvHeader version flags at htake
      rw [← htake, List.take_append_drop]
    rw [hrest]
    rfl

/-- The first complete header leads to the tag that no one has made. -/
theorem onRecvData_crashes {version flags : UInt8} {tags : List FlvTag} {buf ext : Bytes}
    (heq : buf ++ ext = flvStream version flags tags) :
    onRecvData {} buf = if buf.length < 9 then .ok (0, {}) else .fault .nullDeref := by
  rw [onRecvData, if_neg Bool.false_ne_true, flvHeaderDecode_stream heq]
  by_cases hlen : buf.length < 9
  · simp only [if_pos hlen]
    rfl
  · simp only [if_neg hlen]
    rfl

theorem feed_crashes {version flags : UInt8} {tags : List FlvTag} {buf ext : Bytes}
    (heq : buf ++ ext = flvStream version flags tags) :
    feed buf.length buf {} = if buf.length < 9 then .ok (some buf, {}) else .fault .nullDeref := by
  have hcall := onRecvData_crashes heq
  cases buf with
  | nil => rfl
  | cons b buf =>
    by_cases hlen : (b :: buf).length < 9
    · rw [if_pos hlen] at hcall ⊢
      rw [List.length_cons, feed, if_neg (List.cons_ne_nil b buf), hcall]
      rfl
    · rw [if_neg hlen] at hcall ⊢
      rw [List.length_cons, feed, if_neg (List.cons_ne_nil b buf), hcall]
      rfl

theorem run_crashes {bufferSize : ℕ} (hsize : 9 ≤ bufferSize) {version flags : UInt8}
    {tags : List FlvTag} {cuts : List ℕ} (hcuts : ∀ n ∈ cuts, 0 < n) {stream buf : Bytes}
    (heq : buf ++ stream = flvStream version flags tags) (henough : stream.length ≤ cuts.length) :
    cycleRecvBody bufferSize cuts stream buf {} = .fault .nullDeref := by
  have hlen : 9 ≤ (flvStream version flags tags).length := by
    rw [flvStream, List.length_append]
    exact Nat.le_add_right 9 _
  rw [← heq, List.length_append] at hlen
  induction cuts generalizing stream buf with
  | nil =>
    rw [cycleRecvBody, feed_crashes heq, if_neg (by rw [List.length_nil] at henough; omega)]
    rfl
  | cons n cuts ih =>
    rw [cycleRecvBody, feed_crashes heq]
    by_cases hshort : buf.length < 9
    · rw [if_pos hshort, Outcome.ok_bind]
      simp only
      rw [if_neg (by omega)]
      have hn := hcuts n List.mem_cons_self
      rw [List.length_cons] at henough
      apply ih (fun n hn ↦ hcuts n (List.mem_cons_of_mem _ hn))
      · rw [List.append_assoc, List.take_append_drop, heq]
      · rw [List.length_drop]
        omega
      · rw [List.length_append, List.length_take, List.length_drop]
        omega
    · rw [if_neg hshort]
      rfl

/-- No stream is pulled, whatever its tags and however it is cut. -/
theorem never_pulls (bufferSize : ℕ) (hsize : 9 ≤ bufferSize) (version flags : UInt8)
    (tags : List FlvTag) (cuts : List ℕ) (hcuts : ∀ n ∈ cuts, 0 < n) (stream recvBuf : Bytes)
    (heq : recvBuf ++ stream = flvStream version flags tags)
    (henough : stream.length ≤ cuts.length) : ¬ Pulls bufferSize cuts stream recvBuf tags := by
  rintro ⟨s, hs, -⟩
  rw [run_crashes hsize hcuts heq henough] at hs
  cases hs

def oneTag : FlvTag := ⟨⟨18, 3, 0, 0⟩, [2, 0, 0], rfl⟩

theorem never_pulls_oneTag :
    ¬ Pulls 1048576 (List.replicate 31 5) (flvStream 1 5 [oneTag]) [] [oneTag] :=
  never_pulls 1048576 (by decide) 1 5 [oneTag] (List.replicate 31 5)
    (fun n hn ↦ by rw [List.eq_of_mem_replicate hn]; decide) (flvStream 1 5 [oneTag]) [] rfl
    (by decide)

theorem header_crashes :
    cycleRecvBody 1048576 (List.replicate 31 31) (flvStream 1 5 [oneTag]) [] {} =
      .fault .nullDeref ∧
    ¬ Pulls 1048576 (List.replicate 31 31) (flvStream 1 5 [oneTag]) [] [oneTag] := by
  have hcuts : ∀ n ∈ List.replicate 31 31, 0 < n := fun n hn ↦ by
    rw [List.eq_of_mem_replicate hn]
    decide
  have hrun : cycleRecvBody 1048576 (List.replicate 31 31) (flvStream 1 5 [oneTag]) [] {} =
      .fault .nullDeref := run_crashes (by decide) hcuts rfl (by decide)
  refine ⟨hrun, ?_⟩
  rintro ⟨s, hs, -⟩
  rw [hrun] at hs
  cases hs

end Crash

end MmsServer.Http.FlvClient
