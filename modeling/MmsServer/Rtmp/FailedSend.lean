import MmsServer.Rtmp.ChunkRoundTrip

namespace MmsServer.Rtmp.FailedSend

open Function Lib.ByteReader Lib.Incremental Define ChunkReceiver ChunkSender ChunkRoundTrip

variable {σ : Type}

/-- `conn_->send` has written everything, or it has failed after some bytes. -/
inductive WriteResult
  | done
  | failed (written : ℕ)
deriving DecidableEq

structure Attempt where
  ok : Bool
  state : SendState
  written : Bytes

/-- `send_rtmp_messages` up to its return, on a connection whose write ends with `w`. -/
def sendOver (w : WriteResult) (s : SendState) (msgs : List RtmpMessage) : Attempt :=
  match sendRtmpMessages s msgs with
  | (s', none) => ⟨false, s', []⟩
  | (s', some bytes) =>
    match w with
    | .done => ⟨true, s', bytes⟩
    | .failed written => ⟨false, s', bytes.take written⟩

/-- A call that returns false and has written nothing leaves the records alone. -/
def KeepsRecords (w : WriteResult) (s : SendState) (msgs : List RtmpMessage) : Prop :=
  (sendOver w s msgs).ok = false → (sendOver w s msgs).written = [] →
    (sendOver w s msgs).state.sendChunkStreams = s.sendChunkStreams

/-- The chunks of a message, more than a call has room for if the chunk size is
not positive. -/
def messageChunks (n : BitVec 32) (m : RtmpMessage) : ℕ :=
  if 0 < n.toInt then chunkCount n m.usingData.length
  else if m.usingData = [] then 0 else 201

def chunkMessages (n : BitVec 32) (msgs : List RtmpMessage) : List RtmpMessage :=
  msgs.flatMap fun m ↦ List.replicate (messageChunks n m) m

def record (streams : SendStreams) (m : RtmpMessage) : SendStreams :=
  update streams m.chunkStreamId (some (nextChunk (streams m.chunkStreamId) m))

def layOut (streams : SendStreams) (ms : List RtmpMessage) : SendStreams := ms.foldl record streams

def onChunkStream (c : ℕ) (ms : List RtmpMessage) : List RtmpMessage :=
  ms.filter fun m ↦ m.chunkStreamId = c

def recordOf (before : BitVec 32) (m : RtmpMessage) : SendChunk where
  chunkMessageHeader :=
    { messageStreamId := m.messageStreamId
      messageTypeId := m.messageTypeId
      messageLength := messageLength m
      timestamp := m.timestamp
      timestampDelta := m.timestamp - before }
  rtmpMessage := m

/-- The record of a chunk stream is already what the last of the chunks `ms`
leaves: the same message, as far from the chunk before it. -/
def AlreadyRecorded (prev : Option SendChunk) (ms : List RtmpMessage) : Prop :=
  ∀ m ∈ ms.getLast?, ∃ q, prev = some q ∧
    q = recordOf (ms.dropLast.getLast?.elim q.chunkMessageHeader.timestamp RtmpMessage.timestamp) m

section Layout

variable {n : BitVec 32} {m : RtmpMessage}

theorem layOut_append (streams : SendStreams) (ms ms' : List RtmpMessage) :
    layOut streams (ms ++ ms') = layOut (layOut streams ms) ms' := List.foldl_append

theorem sendMessage_layOut (hn : 0 < n.toInt) (m : RtmpMessage) (free left pos : ℕ)
    (streams : SendStreams) :
    (sendMessage n m free left pos streams).streams =
      layOut streams (List.replicate (min free (chunkCount n left)) m) := by
  induction free generalizing left pos streams with
  | zero =>
    rw [Nat.zero_min, sendMessage]
    split <;> rfl
  | succ free ih =>
    rcases Nat.eq_zero_or_pos left with rfl | hl
    · rw [sendMessage_done m (free + 1) pos streams (by omega), chunkCount_zero, Nat.min_zero]
      rfl
    · have hleft : (left : ℤ) - min n.toInt left = ((left - min n.toInt.toNat left : ℕ) : ℤ) := by omega
      have hs := ih (left - min n.toInt.toNat left) (pos + (min n.toInt left).toNat) (record streams m)
      rw [sendMessage_step m free pos streams (by omega)]
      simp only [hleft]
      rw [chunkCount_step hn hl, Nat.add_min_add_right, List.replicate_succ]
      exact hs

theorem sendMessage_stuck (hn : n.toInt ≤ 0) (m : RtmpMessage) (free : ℕ) {left : ℤ} (hl : 0 < left)
    (pos : ℕ) (streams : SendStreams) :
    (sendMessage n m free left pos streams).streams = layOut streams (List.replicate free m) ∧
      (sendMessage n m free left pos streams).ok = false := by
  induction free generalizing left pos streams with
  | zero =>
    rw [sendMessage, if_neg (by omega)]
    exact ⟨rfl, rfl⟩
  | succ free ih =>
    rw [sendMessage_step m free pos streams hl]
    have hleft : 0 < left - min n.toInt left := by omega
    exact ih hleft _ (record streams m)

theorem sendMessage_whole (n : BitVec 32) (m : RtmpMessage) {free : ℕ} (hfree : free ≤ 200)
    (streams : SendStreams) :
    (sendMessage n m free m.usingData.length 0 streams).streams =
        layOut streams ((List.replicate (messageChunks n m) m).take free) ∧
      ((sendMessage n m free m.usingData.length 0 streams).ok = true ↔ messageChunks n m ≤ free) ∧
      ((sendMessage n m free m.usingData.length 0 streams).ok = true →
        (sendMessage n m free m.usingData.length 0 streams).free = free - messageChunks n m) := by
  unfold messageChunks
  rw [List.take_replicate]
  by_cases hn : 0 < n.toInt
  · rw [if_pos hn]
    obtain ⟨hok, hf⟩ := sendMessage_ok_iff hn m free m.usingData.length 0 streams
    exact ⟨sendMessage_layOut hn m free m.usingData.length 0 streams, hok, fun _ ↦ hf⟩
  · rw [if_neg hn]
    by_cases hm : m.usingData = []
    · rw [if_pos hm, hm, sendMessage_done m free 0 streams (by simp)]
      exact ⟨by simp [layOut], by simp, fun _ ↦ rfl⟩
    · have hl : 0 < (m.usingData.length : ℤ) := by
        have hp := List.length_pos_iff.mpr hm
        omega
      obtain ⟨hs, hok⟩ := sendMessage_stuck (Int.not_lt.mp hn) m free hl 0 streams
      rw [if_neg hm, hs, hok, Nat.min_eq_left (by omega)]
      exact ⟨rfl, by simp; omega, by simp⟩

theorem chunkMessages_cons (m : RtmpMessage) (msgs : List RtmpMessage) :
    chunkMessages n (m :: msgs) = List.replicate (messageChunks n m) m ++ chunkMessages n msgs :=
  List.flatMap_cons

/-- The chunks that the call has room for are recorded one after the other,
whether or not the call goes through. -/
theorem sendMessages_layOut (msgs : List RtmpMessage) {free : ℕ} (hfree : free ≤ 200)
    (streams : SendStreams) :
    (sendMessages n msgs free streams).streams = layOut streams ((chunkMessages n msgs).take free) ∧
      ((sendMessages n msgs free streams).ok = true ↔ (chunkMessages n msgs).length ≤ free) := by
  induction msgs generalizing free streams with
  | nil => exact ⟨by simp [sendMessages, chunkMessages, layOut], by simp [sendMessages, chunkMessages]⟩
  | cons m msgs ih =>
    obtain ⟨hs, hok, hf⟩ := sendMessage_whole n m hfree streams
    rw [chunkMessages_cons, List.take_append, List.length_append, List.length_replicate, layOut_append,
      ← hs, sendMessages]
    cases hm : (sendMessage n m free m.usingData.length 0 streams).ok with
    | true =>
      have hle := hok.mp hm
      have hrest : free - messageChunks n m ≤ 200 := by omega
      obtain ⟨hs', hok'⟩ := ih hrest
        (sendMessage n m free m.usingData.length 0 streams).streams
      simp only [if_true, hf hm]
      refine ⟨hs', hok'.trans ?_⟩
      omega
    | false =>
      have hgt : ¬ messageChunks n m ≤ free := by
        rw [← hok, hm]
        exact Bool.false_ne_true
      rw [if_neg Bool.false_ne_true, hm, Nat.sub_eq_zero_of_le (by omega), List.take_zero]
      exact ⟨rfl, by simp; omega⟩

theorem sendMessage_bytes (hn : 0 < n.toInt) {free : ℕ} (hm : m.usingData ≠ []) (streams : SendStreams)
    (hok : (sendMessage n m free m.usingData.length 0 streams).ok = true) :
    (sendMessage n m free m.usingData.length 0 streams).bytes ≠ [] := by
  have hl := List.length_pos_iff.mpr hm
  cases free with
  | zero =>
    rw [sendMessage, if_neg (by omega)] at hok
    cases hok
  | succ free =>
    rw [sendMessage_step m free 0 streams (by omega)]
    intro hb
    simp only [List.append_eq_nil_iff, List.take_eq_nil_iff, List.drop_zero] at hb
    rcases hb.1.2 with h | h
    · omega
    · exact hm h

/-- A call that goes through with nothing to write has laid out no chunk. -/
theorem chunkMessages_of_bytes (msgs : List RtmpMessage) {free : ℕ} (hfree : free ≤ 200)
    (streams : SendStreams) (hok : (sendMessages n msgs free streams).ok = true)
    (hb : (sendMessages n msgs free streams).bytes = []) : chunkMessages n msgs = [] := by
  induction msgs generalizing free streams with
  | nil => rfl
  | cons m msgs ih =>
    obtain ⟨hs, hokm, hf⟩ := sendMessage_whole n m hfree streams
    rw [sendMessages] at hok hb
    cases hm : (sendMessage n m free m.usingData.length 0 streams).ok with
    | false =>
      rw [if_neg (by rw [hm]; exact Bool.false_ne_true), hm] at hok
      cases hok
    | true =>
      simp only [hm, if_true, List.append_eq_nil_iff] at hok hb
      rw [hf hm] at hok hb
      have hzero : messageChunks n m = 0 := by
        have hle := hokm.mp hm
        unfold messageChunks at hle ⊢
        by_cases hn : 0 < n.toInt
        · rw [if_pos hn]
          have hnil : m.usingData = [] := by
            by_contra hne
            exact sendMessage_bytes hn hne streams hm hb.1
          rw [hnil, List.length_nil, chunkCount_zero]
        · rw [if_neg hn] at hle ⊢
          split
          · rfl
          · rename_i hne
            rw [if_neg hne] at hle
            omega
      rw [chunkMessages_cons, hzero, ih (by omega) _ hok hb.2]
      rfl

theorem layOut_apply (streams : SendStreams) (ms : List RtmpMessage) (c : ℕ) :
    layOut streams ms c =
      (onChunkStream c ms).foldl (fun prev m ↦ some (nextChunk prev m)) (streams c) := by
  induction ms generalizing streams with
  | nil => rfl
  | cons m ms ih =>
    rw [layOut, List.foldl_cons]
    refine (ih (record streams m)).trans ?_
    rw [record, onChunkStream, onChunkStream, List.filter_cons]
    by_cases hc : m.chunkStreamId = c
    · subst hc
      simp
    · simp [hc, update_of_ne (Ne.symm hc)]

theorem record_timestamp (q : SendChunk) (ms : List RtmpMessage) :
    ∃ q', ms.foldl (fun prev m ↦ some (nextChunk prev m)) (some q) = some q' ∧
      q'.chunkMessageHeader.timestamp =
        ms.getLast?.elim q.chunkMessageHeader.timestamp RtmpMessage.timestamp := by
  rcases List.eq_nil_or_concat ms with rfl | ⟨ms', m, rfl⟩
  · exact ⟨q, rfl, rfl⟩
  · rw [List.concat_eq_append, List.foldl_append, List.getLast?_concat]
    exact ⟨_, rfl, rfl⟩

theorem nextChunk_some (q : SendChunk) (m : RtmpMessage) :
    nextChunk (some q) m = recordOf q.chunkMessageHeader.timestamp m := rfl

theorem alreadyRecorded_iff (prev : Option SendChunk) (ms : List RtmpMessage) :
    ms.foldl (fun prev m ↦ some (nextChunk prev m)) prev = prev ↔ AlreadyRecorded prev ms := by
  rcases List.eq_nil_or_concat ms with rfl | ⟨ms', m, rfl⟩
  · exact ⟨fun _ m hm ↦ (by cases hm), fun _ ↦ rfl⟩
  · rw [List.concat_eq_append, List.foldl_append, AlreadyRecorded, List.getLast?_concat,
      List.dropLast_concat]
    cases prev with
    | none =>
      refine ⟨fun h ↦ (by cases h), fun h ↦ ?_⟩
      obtain ⟨q, hq, -⟩ := h m rfl
      cases hq
    | some q =>
      obtain ⟨q', hq', ht⟩ := record_timestamp q ms'
      rw [hq', List.foldl_cons, List.foldl_nil, nextChunk_some, ht, Option.some_inj]
      constructor
      · intro h m' hm'
        cases hm'
        exact ⟨q, rfl, h.symm⟩
      · intro h
        obtain ⟨q₀, hq₀, hrec⟩ := h m rfl
        cases hq₀
        exact hrec.symm

end Layout

section Calls

def laidOut (s : SendState) (msgs : List RtmpMessage) : List RtmpMessage :=
  (chunkMessages s.outChunkSize msgs).take 200

/-- If the call needs more than 200 chunks, or the connection takes nothing,
then every chunk stream's record is already what the call leaves there. -/
def Harmless (w : WriteResult) (s : SendState) (msgs : List RtmpMessage) : Prop :=
  200 < (chunkMessages s.outChunkSize msgs).length ∨ w = .failed 0 →
    ∀ c, AlreadyRecorded (s.sendChunkStreams c) (onChunkStream c (laidOut s msgs))

def afterCall (s : SendState) (msgs : List RtmpMessage) : SendState :=
  { s with sendChunkStreams := layOut s.sendChunkStreams (laidOut s msgs) }

theorem sendOver_refused (w : WriteResult) {s : SendState} {msgs : List RtmpMessage}
    (h : 200 < (chunkMessages s.outChunkSize msgs).length) :
    sendOver w s msgs = ⟨false, afterCall s msgs, []⟩ := by
  obtain ⟨hs, hok⟩ := sendMessages_layOut (n := s.outChunkSize) msgs le_rfl s.sendChunkStreams
  have hf : ¬ (sendMessages s.outChunkSize msgs 200 s.sendChunkStreams).ok = true := by
    rw [hok]
    omega
  simp only [sendOver, sendRtmpMessages, if_neg hf, hs]
  rfl

theorem sendOver_laid {s : SendState} {msgs : List RtmpMessage}
    (h : (chunkMessages s.outChunkSize msgs).length ≤ 200) :
    ∃ bytes, sendRtmpMessages s msgs = (afterCall s msgs, some bytes) ∧
      (bytes = [] → chunkMessages s.outChunkSize msgs = []) := by
  obtain ⟨hs, hok⟩ := sendMessages_layOut (n := s.outChunkSize) msgs le_rfl s.sendChunkStreams
  refine ⟨_, ?_, chunkMessages_of_bytes msgs le_rfl s.sendChunkStreams (hok.mpr h)⟩
  simp only [sendRtmpMessages, if_pos (hok.mpr h), hs]
  rfl

theorem sendOver_state (w : WriteResult) (s : SendState) (msgs : List RtmpMessage) :
    (sendOver w s msgs).state = afterCall s msgs := by
  rcases Nat.lt_or_ge 200 (chunkMessages s.outChunkSize msgs).length with h | h
  · rw [sendOver_refused w h]
  · obtain ⟨bytes, hb, -⟩ := sendOver_laid h
    cases w <;> simp only [sendOver, hb]

theorem layOut_eq_iff (streams : SendStreams) (ms : List RtmpMessage) :
    layOut streams ms = streams ↔ ∀ c, AlreadyRecorded (streams c) (onChunkStream c ms) := by
  rw [funext_iff]
  exact forall_congr' fun c ↦ by rw [layOut_apply, alreadyRecorded_iff]

theorem sendOver_silent {w : WriteResult} {s : SendState} {msgs : List RtmpMessage}
    (h : 200 < (chunkMessages s.outChunkSize msgs).length ∨ w = .failed 0) :
    (sendOver w s msgs).ok = false ∧ (sendOver w s msgs).written = [] := by
  rcases Nat.lt_or_ge 200 (chunkMessages s.outChunkSize msgs).length with hl | hl
  · rw [sendOver_refused w hl]
    exact ⟨rfl, rfl⟩
  · obtain ⟨bytes, hb, -⟩ := sendOver_laid hl
    rw [h.resolve_left (Nat.not_lt.mpr hl)]
    simp only [sendOver, hb, List.take_zero, and_self]

theorem silent_cases {w : WriteResult} {s : SendState} {msgs : List RtmpMessage}
    (hok : (sendOver w s msgs).ok = false) (hw : (sendOver w s msgs).written = []) :
    (200 < (chunkMessages s.outChunkSize msgs).length ∨ w = .failed 0) ∨ laidOut s msgs = [] := by
  rcases Nat.lt_or_ge 200 (chunkMessages s.outChunkSize msgs).length with hl | hl
  · exact Or.inl (Or.inl hl)
  · obtain ⟨bytes, hb, hnil⟩ := sendOver_laid hl
    cases w with
    | done =>
      simp only [sendOver, hb] at hok
      cases hok
    | failed k =>
      simp only [sendOver, hb, List.take_eq_nil_iff] at hw
      rcases hw with rfl | hbytes
      · exact Or.inl (Or.inr rfl)
      · right
        rw [laidOut, hnil hbytes, List.take_nil]

theorem keepsRecords_iff (w : WriteResult) (s : SendState) (msgs : List RtmpMessage) :
    KeepsRecords w s msgs ↔ Harmless w s msgs := by
  rw [KeepsRecords, sendOver_state, afterCall, Harmless, ← layOut_eq_iff]
  constructor
  · intro h hw
    obtain ⟨hok, hwritten⟩ := sendOver_silent hw
    exact h hok hwritten
  · intro h hok hwritten
    rcases silent_cases hok hwritten with hw | hnil
    · exact h hw
    · rw [hnil]
      rfl

def sendAttempts : SendState → List (WriteResult × List RtmpMessage) → Bytes
  | _, [] => []
  | s, (w, msgs) :: calls =>
    (sendOver w s msgs).written ++ sendAttempts (sendOver w s msgs).state calls

/-- Every call goes through, or fails without a byte written and does no harm. -/
def HarmlessRun : SendState → List (WriteResult × List RtmpMessage) → Prop
  | _, [] => True
  | s, (w, msgs) :: calls =>
    ((sendOver w s msgs).ok = true ∨ (sendOver w s msgs).written = [] ∧ Harmless w s msgs) ∧
      HarmlessRun (sendOver w s msgs).state calls

def throughCalls : SendState → List (WriteResult × List RtmpMessage) → List (List RtmpMessage)
  | _, [] => []
  | s, (w, msgs) :: calls =>
    let rest := throughCalls (sendOver w s msgs).state calls
    if (sendOver w s msgs).ok then msgs :: rest else rest

theorem sendOver_ok {w : WriteResult} {s : SendState} {msgs : List RtmpMessage}
    (h : (sendOver w s msgs).ok = true) :
    sendRtmpMessages s msgs = ((sendOver w s msgs).state, some (sendOver w s msgs).written) := by
  rcases Nat.lt_or_ge 200 (chunkMessages s.outChunkSize msgs).length with hl | hl
  · rw [sendOver_refused w hl] at h
    cases h
  · obtain ⟨bytes, hb, -⟩ := sendOver_laid hl
    cases w with
    | done => simp only [sendOver, hb]
    | failed k =>
      simp only [sendOver, hb] at h
      cases h

/-- A failed call that does no harm might as well not have been made. -/
theorem sendAttempts_eq (s : SendState) (calls : List (WriteResult × List RtmpMessage))
    (h : HarmlessRun s calls) : sendCalls s (throughCalls s calls) = some (sendAttempts s calls) := by
  induction calls generalizing s with
  | nil => rfl
  | cons call calls ih =>
    obtain ⟨w, msgs⟩ := call
    obtain ⟨hcall, hrest⟩ := h
    have ih := ih _ hrest
    rw [throughCalls, sendAttempts]
    cases hok : (sendOver w s msgs).ok with
    | true =>
      simp only [if_true, sendCalls, sendOver_ok hok, ih, Option.map_some]
    | false =>
      rw [hok] at hcall
      obtain ⟨hw, hh⟩ := hcall.resolve_left Bool.false_ne_true
      have hs : (sendOver w s msgs).state = s := by
        have hkeep := (keepsRecords_iff w s msgs).mpr hh hok hw
        rw [sendOver_state] at hkeep ⊢
        rw [afterCall] at hkeep ⊢
        simp only at hkeep
        rw [hkeep]
      rw [hs] at ih
      simp only [Bool.false_eq_true, if_false, hs, ih, hw, List.nil_append]

theorem harmlessRun_decodes {n : BitVec 32} (record : σ → RtmpMessage → σ) (app : σ)
    (calls : List (WriteResult × List RtmpMessage)) (h : HarmlessRun { outChunkSize := n } calls)
    (ht : Transferable n (throughCalls { outChunkSize := n } calls)) :
    ∃ s received, run (processRecvBuffer (accepting record)) ({ inChunkSize := n }, app)
        (sendAttempts { outChunkSize := n } calls) = .wait s [] received ∧
      received.map frame = (throughCalls { outChunkSize := n } calls).flatten.map frame := by
  obtain ⟨s, stamps, hs, hlen, -⟩ := transfer_spec record app ht
  rw [transfer, sendAttempts_eq _ calls h, Option.map_some, Option.some_inj] at hs
  exact ⟨s, _, hs, frame_delivered _ stamps hlen⟩

/-- A call that fails before its first byte leaves the sender in step exactly if
what it has recorded was there before. If this holds of every failed call, the
receiver gets all that has been written. -/
theorem failed_send_keeps_step :
    (∀ w s msgs, KeepsRecords w s msgs ↔ Harmless w s msgs) ∧
    ∀ (n : BitVec 32) (record : σ → RtmpMessage → σ) (app : σ)
      (calls : List (WriteResult × List RtmpMessage)), HarmlessRun { outChunkSize := n } calls →
      Transferable n (throughCalls { outChunkSize := n } calls) →
      ∃ s received, run (processRecvBuffer (accepting record)) ({ inChunkSize := n }, app)
          (sendAttempts { outChunkSize := n } calls) = .wait s [] received ∧
        received.map frame = (throughCalls { outChunkSize := n } calls).flatten.map frame :=
  ⟨keepsRecords_iff, fun _ ↦ harmlessRun_decodes⟩

def firstCall : List RtmpMessage := [steadyMessage 0, steadyMessage 40]

def repeatedCalls : List (WriteResult × List RtmpMessage) :=
  [(.done, firstCall), (.failed 0, firstCall), (.done, [steadyMessage 80])]

theorem repeatedCalls_through :
    throughCalls { outChunkSize := 128 } repeatedCalls = steadyCalls := by decide +kernel

theorem repeatedCall_harmless :
    Harmless (.failed 0) (sendOver .done { outChunkSize := 128 } firstCall).state firstCall := by
  intro _ c m hm
  have hl : laidOut (sendOver .done { outChunkSize := 128 } firstCall).state firstCall = firstCall := by
    decide +kernel
  rw [hl] at hm ⊢
  by_cases hc : c = 4
  · subst hc
    cases hm
    exact ⟨nextChunk (some (nextChunk none (steadyMessage 0))) (steadyMessage 40), rfl, rfl⟩
  · have hnil : onChunkStream c firstCall = [] := by
      simp [onChunkStream, firstCall, steadyMessage, Ne.symm hc]
    rw [hnil] at hm
    cases hm

theorem repeatedCalls_harmless : HarmlessRun { outChunkSize := 128 } repeatedCalls :=
  ⟨Or.inl (by decide +kernel), Or.inr ⟨by decide +kernel, repeatedCall_harmless⟩,
    Or.inl (by decide +kernel), trivial⟩

theorem failed_send_repeated :
    KeepsRecords (.failed 0) (sendOver .done { outChunkSize := 128 } firstCall).state firstCall ∧
    ∃ s received, run (processRecvBuffer (accepting fun k _ ↦ k + 1)) ({ inChunkSize := 128 }, 0)
        (sendAttempts { outChunkSize := 128 } repeatedCalls) = .wait s [] received ∧
      received.map frame = (throughCalls { outChunkSize := 128 } repeatedCalls).flatten.map frame :=
  ⟨((failed_send_keeps_step (σ := ℕ)).1 _ _ _).mpr repeatedCall_harmless,
    failed_send_keeps_step.2 128 _ 0 repeatedCalls repeatedCalls_harmless
      (by rw [repeatedCalls_through]; exact steadyCalls_transferable)⟩

def crowdedCall : List RtmpMessage := List.replicate 201 (steadyMessage 0)

/-- The rejected call has recorded its messages. The next one starts with a
type-3 header, and the receiver has nothing it could refer to. -/
theorem failed_send_out_of_step :
    ¬ KeepsRecords .done {} crowdedCall ∧
    (sendAttempts {} [(.done, crowdedCall), (.done, [steadyMessage 0])]) = [0xc4, 0xaf] ∧
    run (processRecvBuffer (accepting fun k _ ↦ k + 1)) ({}, 0) [0xc4, 0xaf] =
      .halt (.code (-13)) [] := by
  refine ⟨fun hk ↦ ?_, by decide +kernel, rfl⟩
  have hc : 200 < (chunkMessages 128 crowdedCall).length := by decide +kernel
  obtain ⟨q, hq, -⟩ := (keepsRecords_iff _ _ _).mp hk (Or.inl hc) 4 (steadyMessage 0) (by decide +kernel)
  cases hq

end Calls

end MmsServer.Rtmp.FailedSend
