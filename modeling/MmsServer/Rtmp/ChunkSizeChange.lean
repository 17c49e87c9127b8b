import MmsServer.Rtmp.ChunkRoundTrip
import MmsServer.Rtmp.ControlMessage

namespace MmsServer.Rtmp.ChunkSizeChange

open Function Lib.ByteReader Lib.Incremental Define ChunkReceiver ChunkSender ControlMessage
open ChunkRoundTrip

variable {σ : Type}

section Relay

def silent : Handler σ := accepting fun app _ ↦ app

/-- The state in which the handler is called for a message that has been taken. -/
def presented (s : RecvState) (msg : RtmpMessage) : RecvState :=
  let chunk := (s.recvChunkStreams msg.chunkStreamId).map fun c ↦ { c with rtmpMessage := some msg }
  { s with recvChunkStreams := update s.recvChunkStreams msg.chunkStreamId chunk }

def answered (msg : RtmpMessage) (n : ℕ) : Bool × σ × RecvState → RecvStep (RecvState × σ)
  | (false, _, _) => .stop (.code (-20)) [msg]
  | (true, app, s) =>
    .take n ({ s with recvChunkStreams := dropMessage s.recvChunkStreams msg.chunkStreamId }, app) [msg]

def relay (h : Handler σ) : RecvStep (RecvState × σ) → RecvStep (RecvState × σ)
  | .take n (s, app) [msg] => answered msg n (h app (presented s msg) msg)
  | r => r

theorem presented_settle (s : RecvState) (csid : ℕ) (hdr : ChunkMessageHeader) (msg : RtmpMessage) :
    presented (settle s csid hdr) (msg.fill csid hdr) = s.install csid hdr (msg.fill csid hdr) := by
  have hc : (msg.fill csid hdr).chunkStreamId = csid := rfl
  simp only [presented, hc, settle, update_self, Option.map_some, update_idem, RecvState.install]

theorem finishChunk_relay (h : Handler σ) (s : RecvState) (app : σ) (csid : ℕ)
    (hdr : ChunkMessageHeader) (msg : RtmpMessage) (pos : ℕ) :
    finishChunk h s app csid hdr msg pos = relay h (finishChunk silent s app csid hdr msg pos) := by
  unfold finishChunk
  split
  · simp only [silent, accepting, dropMessage_install, relay, presented_settle]
    rcases h app (s.install csid hdr (msg.fill csid hdr)) (msg.fill csid hdr) with ⟨_ | _, _, _⟩ <;> rfl
  · split <;> rfl

/-- The handler is asked only when a message is complete. -/
theorem recvStep_relay (h : Handler σ) (s : RecvState × σ) (buf : Bytes) :
    recvStep h s buf = relay h (recvStep silent s buf) := by
  unfold recvStep
  split
  · rfl
  · simp only
    split
    · rfl
    · rfl
    · unfold receivePayload
      split
      · rfl
      · simp only
        split
        · rfl
        · split
          · exact finishChunk_relay ..
          · rfl

end Relay

section Message

variable {h : Handler σ} {m : RtmpMessage}

/-- A run goes on as the handler has left the receiver, or ends. -/
def resumed (h : Handler σ) (msg : RtmpMessage) (rest : Bytes) :
    Bool × σ × RecvState → Result (RecvState × σ) UInt8 RtmpMessage RecvError
  | (false, _, _) => .halt (.code (-20)) [msg]
  | (true, app, s) =>
    (run (recvStep h) ({ s with recvChunkStreams := dropMessage s.recvChunkStreams msg.chunkStreamId },
      app) rest).emit [msg]

/-- The receiver collects `m` and presents it to the handler, whatever that does. -/
theorem run_presented (h : Handler σ) (hm : Sendable m) (free : ℕ) (s : RecvState) (app : σ)
    (hn : 0 < s.inChunkSize.toInt) (streams : SendStreams) {pos : ℕ} {clock : BitVec 32}
    (hpos : pos < m.usingData.length)
    (hr : Ready (streams m.chunkStreamId) (s.recvChunkStreams m.chunkStreamId) m pos clock)
    (hok : (sendMessage s.inChunkSize m free (m.usingData.length - pos : ℕ) pos streams).ok = true) :
    ∃ hdr, Describes hdr m clock ∧ ∀ rest,
      run (recvStep h) (s, app)
          ((sendMessage s.inChunkSize m free (m.usingData.length - pos : ℕ) pos streams).bytes ++ rest) =
        resumed h (delivered m clock) rest
          (h app (presented (settle s m.chunkStreamId hdr) (delivered m clock)) (delivered m clock)) := by
  have hc := (recvStep_lawful h).consumes
  induction free generalizing s streams pos with
  | zero =>
    rw [sendMessage, if_neg (by omega)] at hok
    cases hok
  | succ free ih =>
    obtain ⟨size, hsize⟩ : ∃ size, size =
        min s.inChunkSize.toInt.toNat (m.usingData.length - pos) := ⟨_, rfl⟩
    obtain ⟨hdr, hd, hstep⟩ := recvStep_chunk (fun app _ ↦ app) s app hm hn hr hpos hsize
    have hmin : min s.inChunkSize.toInt ((m.usingData.length - pos : ℕ) : ℤ) = size := by omega
    have hleft : ((m.usingData.length - pos : ℕ) : ℤ) - size =
        (m.usingData.length - (pos + size) : ℕ) := by
      omega
    rw [sendMessage_step m free pos streams (by omega)] at hok ⊢
    simp only [hmin, Int.toNat_natCast, hleft, List.append_assoc] at hok ⊢
    have hchunk (bs : Bytes) :
        basicHeader (chooseFmt (streams m.chunkStreamId) m) m.chunkStreamId ++
        (messageHeader (chooseFmt (streams m.chunkStreamId) m) (streams m.chunkStreamId) m ++
          ((m.usingData.drop pos).take size ++ bs)) =
        chunkBytes (streams m.chunkStreamId) m pos size ++ bs := by
      simp only [chunkBytes, List.append_assoc]
    simp only [hchunk]
    have hrelay := fun rest ↦ (recvStep_relay h (s, app)
      (chunkBytes (streams m.chunkStreamId) m pos size ++ rest)).trans
      (congrArg (relay h) (hstep rest))
    rcases Nat.lt_or_ge (pos + size) m.usingData.length with hlt | hge
    · obtain ⟨hdr', hd', hrun⟩ :=
        ih (s.install m.chunkStreamId hdr (partialMessage m (pos + size))) hn
        (update streams m.chunkStreamId (some (nextChunk (streams m.chunkStreamId) m))) hlt
        (by rw [update_self, install_self]; exact ready_continue _ hd _) hok
      refine ⟨hdr', hd', fun rest ↦ ?_⟩
      have htake := hrelay
      simp only [finishChunk_incomplete _ s app hm hd _ hlt, relay] at htake
      rw [run_item hc (htake _), emit_nil]
      have hrest := hrun rest
      rwa [settle_install] at hrest
    · have hend : pos + size = m.usingData.length := by omega
      have htake := hrelay
      simp only [hend, finishChunk_complete _ s app hm hd, relay] at htake
      refine ⟨hdr, hd, fun rest ↦ ?_⟩
      rw [sendMessage_done m free (pos + size) _ (by omega), List.nil_append]
      have htake := htake rest
      rcases hh : h app (presented (settle s m.chunkStreamId hdr) (delivered m clock))
        (delivered m clock) with ⟨_ | _, app', s'⟩
      · rw [hh] at htake
        exact run_stop htake
      · rw [hh] at htake
        exact run_item hc htake

end Message

section Announce

def setChunkSizeMessage (chunkSize : BitVec 32) : RtmpMessage where
  toPacket := .ofBytes (putBE 4 chunkSize.toNat)
  messageTypeId := 1
  chunkStreamId := chunkIdProtocolControlMessage

/-- What a session does with its chunk layer. The message that announces a new
chunk size is framed after the size has been set, as in the server session, or
before, as it may be in the client sessions. -/
inductive Use
  | send (msgs : List RtmpMessage)
  | announce (early : Bool) (chunkSize : BitVec 32)

def setOutChunkSize (s : SendState) (chunkSize : BitVec 32) : SendState :=
  { s with outChunkSize := chunkSize }

def Use.perform (s : SendState) : Use → SendState × Option Bytes
  | .send msgs => sendRtmpMessages s msgs
  | .announce true chunkSize =>
    sendRtmpMessages (setOutChunkSize s chunkSize) [setChunkSizeMessage chunkSize]
  | .announce false chunkSize =>
    let r := sendRtmpMessages s [setChunkSizeMessage chunkSize]
    (setOutChunkSize r.1 chunkSize, r.2)

def performAll : SendState → List Use → Option Bytes
  | _, [] => some []
  | s, u :: us =>
    match u.perform s with
    | (_, none) => none
    | (s, some bytes) => (performAll s us).map fun bytes' ↦ bytes ++ bytes'

def Use.messages : Use → List RtmpMessage
  | .send msgs => msgs
  | .announce _ chunkSize => [setChunkSizeMessage chunkSize]

/-- A message that leaves the chunk size and the chunk streams of its receiver alone. -/
def Quiet (m : RtmpMessage) : Prop :=
  isProtocolControlMessage m = true →
    m.messageTypeId ≠ 1 ∧ m.messageTypeId ≠ 2 ∧ (m.messageTypeId = 5 → 4 ≤ m.usingData.length)

def Use.Fits (n : BitVec 32) : Use → Prop
  | .send msgs => callChunks n msgs ≤ 200 ∧ ∀ m ∈ msgs, Quiet m
  | .announce _ chunkSize => 4 ≤ chunkSize.toInt

def Use.next (n : BitVec 32) : Use → BitVec 32
  | .send _ => n
  | .announce _ chunkSize => chunkSize

/-- Every call has its chunk headers at the size in force, and every size has
room for the message that announces it. -/
def Workable : BitVec 32 → List Use → Prop
  | _, [] => True
  | n, u :: us => u.Fits n ∧ Workable (u.next n) us

def resized (n : BitVec 32) (m : RtmpMessage) : BitVec 32 :=
  if isProtocolControlMessage m ∧ m.messageTypeId = 1 then (decodeSetChunkSize m).getD n else n

/-- Messages that are framed with the size that the messages before them have announced. -/
inductive Follows : BitVec 32 → SendStreams → List RtmpMessage → Bytes → Prop
  | nil (n : BitVec 32) (streams : SendStreams) : Follows n streams [] []
  | cons {n : BitVec 32} {streams : SendStreams} {m : RtmpMessage} {ms : List RtmpMessage} {bs : Bytes}
      {free : ℕ} : 0 < n.toInt →
      (sendMessage n m free m.usingData.length 0 streams).ok = true →
      Follows (resized n m) (sendMessage n m free m.usingData.length 0 streams).streams ms bs →
      Follows n streams (m :: ms) ((sendMessage n m free m.usingData.length 0 streams).bytes ++ bs)

variable {n : BitVec 32}

theorem resized_quiet {m : RtmpMessage} (h : Quiet m) (n : BitVec 32) : resized n m = n :=
  if_neg fun hc ↦ (h hc.1).1 hc.2

theorem setChunkSizeMessage_length (chunkSize : BitVec 32) :
    (setChunkSizeMessage chunkSize).usingData.length = 4 := rfl

theorem decode_setChunkSizeMessage (chunkSize : BitVec 32) :
    decodeSetChunkSize (setChunkSizeMessage chunkSize) = some chunkSize := by
  have hy := readBE_putBE_of_lt (show chunkSize.toNat < 256 ^ 4 from chunkSize.isLt) []
  rw [List.append_nil] at hy
  have hdata : (setChunkSizeMessage chunkSize).usingData = putBE 4 chunkSize.toNat := rfl
  rw [decodeSetChunkSize, decodeWord, hdata, hy, Option.map_some, ofNat_toNat]

theorem resized_announce (n chunkSize : BitVec 32) :
    resized n (setChunkSizeMessage chunkSize) = chunkSize := by
  rw [resized, if_pos ⟨rfl, rfl⟩, decode_setChunkSizeMessage, Option.getD_some]

/-- A message that fits one chunk does not depend on the chunk size. -/
theorem sendMessage_fits {n n' : BitVec 32} {m : RtmpMessage} (hn : (m.usingData.length : ℤ) ≤ n.toInt)
    (hn' : (m.usingData.length : ℤ) ≤ n'.toInt) {free : ℕ} (hfree : 0 < free) (streams : SendStreams) :
    sendMessage n m free m.usingData.length 0 streams =
      sendMessage n' m free m.usingData.length 0 streams := by
  obtain ⟨free, rfl⟩ := Nat.exists_eq_add_one.mpr hfree
  rcases Nat.eq_zero_or_pos m.usingData.length with h0 | hpos
  · rw [sendMessage_done m _ 0 streams (by omega), sendMessage_done m _ 0 streams (by omega)]
  · rw [sendMessage_step m free 0 streams (by omega), sendMessage_step m free 0 streams (by omega),
      min_eq_right hn, min_eq_right hn']
    simp only [sub_self]
    rw [sendMessage_done m free _ _ le_rfl, sendMessage_done m free _ _ le_rfl]

theorem Follows.prepend {msgs ms : List RtmpMessage} {free : ℕ} {streams : SendStreams} {bs : Bytes}
    (hn : 0 < n.toInt) (hq : ∀ m ∈ msgs, Quiet m) (hok : (sendMessages n msgs free streams).ok = true)
    (h : Follows n (sendMessages n msgs free streams).streams ms bs) :
    Follows n streams (msgs ++ ms) ((sendMessages n msgs free streams).bytes ++ bs) := by
  induction msgs generalizing free streams with
  | nil => exact h
  | cons m msgs ih =>
    cases hm : (sendMessage n m free m.usingData.length 0 streams).ok with
    | false => simp [sendMessages, hm] at hok
    | true =>
      simp only [sendMessages, hm, if_true] at hok h ⊢
      rw [List.append_assoc]
      refine .cons hn hm ?_
      rw [resized_quiet (hq m (List.mem_cons_self ..))]
      exact ih (fun m' hm' ↦ hq m' (List.mem_cons_of_mem m hm')) hok h

theorem announce_follows {chunkSize : BitVec 32} {streams : SendStreams} {ms : List RtmpMessage}
    {bs : Bytes} (n' : BitVec 32) (hn : 4 ≤ n.toInt) (hn' : 4 ≤ n'.toInt) {free : ℕ} (hfree : 0 < free)
    (h : Follows chunkSize
      (sendMessages n' [setChunkSizeMessage chunkSize] free streams).streams ms bs) :
    (sendMessages n' [setChunkSizeMessage chunkSize] free streams).ok = true ∧
      Follows n streams (setChunkSizeMessage chunkSize :: ms)
        ((sendMessages n' [setChunkSizeMessage chunkSize] free streams).bytes ++ bs) := by
  have hlen := setChunkSizeMessage_length chunkSize
  have hsame : sendMessage n (setChunkSizeMessage chunkSize) free
      (setChunkSizeMessage chunkSize).usingData.length 0 streams =
      sendMessage n' (setChunkSizeMessage chunkSize) free
        (setChunkSizeMessage chunkSize).usingData.length 0 streams :=
    sendMessage_fits (by omega) (by omega) hfree streams
  have hok : (sendMessage n (setChunkSizeMessage chunkSize) free
      (setChunkSizeMessage chunkSize).usingData.length 0 streams).ok = true := by
    rw [(sendMessage_ok_iff (by omega) _ free _ 0 streams).1, hlen,
      chunkCount_step (by omega) (by omega), show 4 - min n.toInt.toNat 4 = 0 by omega, chunkCount_zero]
    omega
  simp only [sendMessages, ← hsame, hok, if_true, List.append_nil] at h ⊢
  refine ⟨trivial, .cons (by omega) hok ?_⟩
  rwa [resized_announce]

/-- What a session sends is framed as its receiver expects it. -/
theorem performAll_follows {uses : List Use} (hn : 4 ≤ n.toInt) (streams : SendStreams)
    (h : Workable n uses) :
    ∃ bytes, performAll ⟨n, streams⟩ uses = some bytes ∧
      Follows n streams (uses.flatMap Use.messages) bytes := by
  induction uses generalizing n streams with
  | nil => exact ⟨[], rfl, .nil n streams⟩
  | cons u us ih =>
    obtain ⟨hfit, hrest⟩ := h
    cases u with
    | send msgs =>
      have hok := (sendMessages_ok_iff (by omega) msgs 200 streams).mpr hfit.1
      obtain ⟨bytes, hb, hs⟩ := ih hn (sendMessages n msgs 200 streams).streams hrest
      refine ⟨(sendMessages n msgs 200 streams).bytes ++ bytes, ?_, ?_⟩
      · simp only [performAll, Use.perform, sendRtmpMessages, hok, if_true, hb, Option.map_some]
      · exact Follows.prepend (by omega) hfit.2 hok hs
    | announce early chunkSize =>
      have hfit : 4 ≤ chunkSize.toInt := hfit
      obtain ⟨n', hn', hperform⟩ : ∃ n' : BitVec 32, 4 ≤ n'.toInt ∧
          (Use.announce early chunkSize).perform ⟨n, streams⟩ =
            (⟨chunkSize, (sendMessages n' [setChunkSizeMessage chunkSize] 200 streams).streams⟩,
              if (sendMessages n' [setChunkSizeMessage chunkSize] 200 streams).ok
              then some (sendMessages n' [setChunkSizeMessage chunkSize] 200 streams).bytes else none) := by
        cases early with
        | true => exact ⟨chunkSize, hfit, rfl⟩
        | false => exact ⟨n, hn, rfl⟩
      obtain ⟨bytes, hb, hs⟩ :=
        ih hfit (sendMessages n' [setChunkSizeMessage chunkSize] 200 streams).streams hrest
      obtain ⟨hok, hfollows⟩ := announce_follows n' hn hn' (by decide) hs
      refine ⟨(sendMessages n' [setChunkSizeMessage chunkSize] 200 streams).bytes ++ bytes, ?_, hfollows⟩
      rw [performAll, hperform, if_pos hok]
      simp only [hb, Option.map_some]

end Announce

section Serve

variable (sendAck : σ → Bool × σ) (dispatch : σ → RtmpMessage → Bool × σ)

/-- The part of `onRecvRtmpMessage` that is the session's. -/
def takeUp (app : σ) (msg : RtmpMessage) : Bool × σ :=
  match sendAck app with
  | (false, app) => (false, app)
  | (true, app) => if isProtocolControlMessage msg then (true, app) else dispatch app msg

def serve (f : σ → RtmpMessage → Bool × σ) : σ → List RtmpMessage → Result σ UInt8 RtmpMessage RecvError
  | app, [] => .wait app [] []
  | app, m :: ms =>
    match f app m with
    | (false, _) => .halt (.code (-20)) [m]
    | (true, app) => (serve f app ms).emit [m]

def Sound (m : RtmpMessage) : Prop :=
  isProtocolControlMessage m = true →
    m.messageTypeId ≠ 2 ∧ (m.messageTypeId = 1 ∨ m.messageTypeId = 5 → 4 ≤ m.usingData.length)

theorem Quiet.sound {m : RtmpMessage} (h : Quiet m) : Sound m := by
  intro hc
  obtain ⟨h1, h2, h5⟩ := h hc
  exact ⟨h2, fun ht ↦ h5 (ht.resolve_left h1)⟩

theorem decodeWord_isSome {α : Type} (field : ℕ → α) {m : RtmpMessage} (h : 4 ≤ m.usingData.length) :
    ∃ a, decodeWord field m = some a := by
  have hy := readBE_of_length (List.length_take_of_le h) (m.usingData.drop 4)
  rw [List.take_append_drop] at hy
  exact ⟨_, by rw [decodeWord, hy, Option.map_some]⟩

theorem control_obeyed {m : RtmpMessage} (h : Sound m) (hc : isProtocolControlMessage m = true)
    (s : RecvState) :
    ∃ s', handleProtocolControlMessage s m = (true, s') ∧ s'.recvChunkStreams = s.recvChunkStreams ∧
      s'.inChunkSize = resized s.inChunkSize m := by
  obtain ⟨h2, hlen⟩ := h hc
  by_cases h1 : m.messageTypeId = 1
  · obtain ⟨chunkSize, hdec⟩ := decodeWord_isSome (BitVec.ofNat 32) (hlen (.inl h1))
    refine ⟨{ s with inChunkSize := chunkSize }, ?_, rfl, ?_⟩
    · simp only [handleProtocolControlMessage, h1, ControlType.ofTypeId, handleSetChunkSize]
      rw [decodeSetChunkSize, hdec]
    · rw [resized, if_pos ⟨hc, h1⟩, decodeSetChunkSize, hdec, Option.getD_some]
  · have hsame : resized s.inChunkSize m = s.inChunkSize := if_neg fun hr ↦ h1 hr.2
    rw [hsame]
    by_cases h5 : m.messageTypeId = 5
    · obtain ⟨size, hdec⟩ := decodeWord_isSome id (hlen (.inr h5))
      refine ⟨{ s with inWindowAcknowledgeSize := size }, ?_, rfl, rfl⟩
      simp only [handleProtocolControlMessage, h5, ControlType.ofTypeId, handleWindowAcknowledgeSize]
      rw [decodeWindowAcknowledgeSize, hdec]
    · refine ⟨s, ?_, rfl, rfl⟩
      unfold handleProtocolControlMessage ControlType.ofTypeId
      split <;> grind

/-- The receiver keeps its chunk streams and takes the size that the message announces. -/
theorem onRecv_takeUp {m : RtmpMessage} (h : Sound m) (app : σ) (s : RecvState) :
    ∃ s', onRecvRtmpMessage sendAck dispatch app s m =
        ((takeUp sendAck dispatch app m).1, (takeUp sendAck dispatch app m).2, s') ∧
      ((takeUp sendAck dispatch app m).1 = true →
        s'.recvChunkStreams = s.recvChunkStreams ∧ s'.inChunkSize = resized s.inChunkSize m) := by
  unfold onRecvRtmpMessage takeUp
  rcases sendAck app with ⟨_ | _, app⟩
  · exact ⟨s, rfl, fun h ↦ absurd h Bool.false_ne_true⟩
  · by_cases hc : isProtocolControlMessage m = true
    · obtain ⟨s', hs, hstreams, hsize⟩ := control_obeyed h hc s
      simp only [hc, if_true, hs]
      exact ⟨s', rfl, fun _ ↦ ⟨hstreams, hsize⟩⟩
    · simp only [hc]
      exact ⟨s, rfl, fun _ ↦ ⟨rfl, (if_neg fun hr ↦ hc hr.1).symm⟩⟩

/-- Both sides of a chunk stream between two messages, whatever chunk size the
last of them was framed with. -/
def Linked (last : Option (RtmpMessage × BitVec 32)) (send : Option SendChunk)
    (recv : Option RtmpChunk) : Prop :=
  ∃ step clock, InStep 0x7fffffff (last.map fun p ↦ (p.1, step)) send recv clock

theorem linked_ready {last : Option (RtmpMessage × BitVec 32)} {send : Option SendChunk}
    {recv : Option RtmpChunk} {m : RtmpMessage} (h : Linked last send recv) (hm : Sendable m)
    (hts : TimestampFollows last m) : (∃ clock, Ready send recv m 0 clock) ∧ 0 ≤ m.timestamp.toInt := by
  obtain ⟨step, clock, h⟩ := h
  have hts' : TimestampFollows (last.map fun p ↦ (p.1, step)) m := by
    cases last <;> exact hts
  exact ⟨⟨_, ready_first hm h hts'⟩, timestamp_nonneg h hts'⟩

theorem linked_push {past : History} {streams : SendStreams} {s : RecvState} {m : RtmpMessage}
    (h : ∀ c, Linked (past c) (streams c) (s.recvChunkStreams c)) (hm : Sendable m)
    (hnn : 0 ≤ m.timestamp.toInt) {hdr : ChunkMessageHeader} {t : BitVec 32} (hd : Describes hdr m t)
    (n : BitVec 32) (c : ℕ) :
    Linked (past.push m c)
      (update streams m.chunkStreamId
        (some (lastChunk n m.usingData.length (streams m.chunkStreamId) m)) c)
      ((settle s m.chunkStreamId hdr).recvChunkStreams c) := by
  unfold History.push settle
  by_cases hc : c = m.chunkStreamId
  · subst hc
    simp only [update_self]
    obtain ⟨q, hq⟩ : ∃ q, q = lastChunk n m.usingData.length (streams m.chunkStreamId) m := ⟨_, rfl⟩
    have hlen := hm.length_lt
    have hfit : (m.usingData.length : ℤ) ≤ (0x7fffffff : BitVec 32).toInt := by
      have hmax : (0x7fffffff : BitVec 32).toInt = 2147483647 := rfl
      omega
    have hrem : Remembers 0x7fffffff q m q.chunkMessageHeader.timestampDelta := by
      rw [hq, lastChunk]
      split <;> exact ⟨rfl, ⟨rfl, rfl, rfl, rfl⟩, (if_pos hfit).symm⟩
    rw [← hq]
    exact ⟨_, t, .after hrem hd hm hnn⟩
  · simp only [update_of_ne hc]
    exact h c

theorem dropMessage_presented (s : RecvState) (m : RtmpMessage) (hdr : ChunkMessageHeader) (t : BitVec 32) :
    dropMessage (presented (settle s m.chunkStreamId hdr) (delivered m t)).recvChunkStreams
      (delivered m t).chunkStreamId = (settle s m.chunkStreamId hdr).recvChunkStreams := by
  have hc : (delivered m t).chunkStreamId = m.chunkStreamId := rfl
  simp only [presented, dropMessage, settle, hc, update_self, Option.map_some, update_idem]

theorem run_follows {n : BitVec 32} {streams : SendStreams} {msgs : List RtmpMessage} {bytes : Bytes}
    (hf : Follows n streams msgs bytes) (s : RecvState) (app : σ) (past : History)
    (hsize : s.inChunkSize = n) (h : ∀ c, Linked (past c) (streams c) (s.recvChunkStreams c))
    (hm : ∀ m ∈ msgs, Sendable m ∧ Sound m) (hts : TimestampsOk past msgs) :
    ∃ stamps : List (BitVec 32), stamps.length = msgs.length ∧
      (run (recvStep (onRecvRtmpMessage sendAck dispatch)) (s, app) bytes).mapState Prod.snd =
        serve (takeUp sendAck dispatch) app (List.zipWith delivered msgs stamps) := by
  induction hf generalizing s app past with
  | nil n streams => exact ⟨[], rfl, rfl⟩
  | @cons n streams m ms bs free hn hok _ ih =>
    subst hsize
    obtain ⟨hmm, hsound⟩ := hm m (List.mem_cons_self ..)
    have hpos := hmm.length_pos
    obtain ⟨⟨t, hready⟩, hnn⟩ := linked_ready (h m.chunkStreamId) hmm hts.1
    obtain ⟨hdr, hd, hrun⟩ := run_presented (onRecvRtmpMessage sendAck dispatch) hmm free s app hn
      streams hpos hready hok
    obtain ⟨s', hs', hkept⟩ := onRecv_takeUp sendAck dispatch (m := delivered m t) hsound app
      (presented (settle s m.chunkStreamId hdr) (delivered m t))
    have hrun := hrun bs
    rw [Nat.sub_zero, hs'] at hrun
    rw [hrun]
    rcases htake : takeUp sendAck dispatch app (delivered m t) with ⟨_ | _, app'⟩
    · refine ⟨t :: List.replicate ms.length 0, by simp, ?_⟩
      simp only [List.zipWith_cons_cons, serve, htake, resumed, Result.mapState]
    · rw [htake] at hkept
      obtain ⟨hstreams, hsize⟩ := hkept rfl
      rw [sendMessage_streams m free 0 streams (by omega) hok] at ih
      obtain ⟨stamps, hlen, hrest⟩ := ih
        { s' with recvChunkStreams := dropMessage s'.recvChunkStreams (delivered m t).chunkStreamId } app'
        (past.push m) hsize
        (fun c ↦ by
          simp only [hstreams, dropMessage_presented]
          exact linked_push h hmm hnn hd s.inChunkSize c)
        (fun m' hm' ↦ hm m' (List.mem_cons_of_mem m hm')) hts.2
      refine ⟨t :: stamps, by rw [List.length_cons, List.length_cons, hlen], ?_⟩
      simp only [List.zipWith_cons_cons, serve, htake, resumed, emit_mapState, hrest]

theorem Workable.sound {n : BitVec 32} {uses : List Use} (h : Workable n uses) :
    ∀ m ∈ uses.flatMap Use.messages, Sound m := by
  induction uses generalizing n with
  | nil => exact List.forall_mem_nil _
  | cons u us ih =>
    rw [List.flatMap_cons]
    intro m hm
    rcases List.mem_append.mp hm with hm | hm
    · cases u with
      | send msgs => exact (h.1.2 m hm).sound
      | announce early chunkSize =>
        rw [List.mem_singleton.mp hm]
        exact fun _ ↦ ⟨show (1 : UInt8) ≠ 2 by decide, fun _ ↦ le_rfl⟩
    · exact ih h.2 m hm

/-- A session that changes its chunk size as often as it likes is understood: the
receiver, which knows the sizes from the announcements only, hands every message to
its session, in order and with its content, up to the first that the session refuses. -/
theorem announced_sizes_followed (app : σ) (uses : List Use) (hw : Workable 128 uses)
    (hm : ∀ m ∈ uses.flatMap Use.messages, Sendable m)
    (hts : TimestampsOk (fun _ ↦ none) (uses.flatMap Use.messages)) :
    ∃ bytes received, performAll {} uses = some bytes ∧
      received.map frame = (uses.flatMap Use.messages).map frame ∧
      (run (processRecvBuffer (onRecvRtmpMessage sendAck dispatch)) ({}, app) bytes).mapState Prod.snd =
        serve (takeUp sendAck dispatch) app received := by
  obtain ⟨bytes, hbytes, hfollows⟩ := performAll_follows (by decide) (fun _ ↦ none) hw
  obtain ⟨stamps, hlen, hrun⟩ := run_follows sendAck dispatch hfollows {} app (fun _ ↦ none) rfl
    (fun _ ↦ ⟨0, 0, .idle 0⟩) (fun m hmem ↦ ⟨hm m hmem, hw.sound m hmem⟩) hts
  refine ⟨bytes, _, hbytes, frame_delivered _ stamps hlen, ?_⟩
  have hcache := run_mapState forgetCache
    (process_forgetCache (onRecvRtmpMessage sendAck dispatch)) (({}, app) : RtmpChunkProtocol × σ) bytes
  rw [← hrun, show ({}, app) = forgetCache (({}, app) : RtmpChunkProtocol × σ) from rfl, ← hcache]
  cases run (processRecvBuffer (onRecvRtmpMessage sendAck dispatch)) ({}, app) bytes <;> rfl

def longMessage (typeId : UInt8) : RtmpMessage where
  toPacket := .ofBytes (List.replicate 130 7)
  messageTypeId := typeId
  messageStreamId := 1
  chunkStreamId := 4

def resizedUses : List Use := [.send [longMessage 8], .announce true 4096, .send [longMessage 9]]

theorem longMessage_sendable (typeId : UInt8) : Sendable (longMessage typeId) := by
  have hlen : (longMessage typeId).usingData.length = 130 := List.length_replicate
  exact ⟨show 2 ≤ 4 by decide, show 4 ≤ 65599 by decide, by omega, by omega⟩

theorem longMessage_quiet (typeId : UInt8) : ∀ m ∈ [longMessage typeId], Quiet m := by
  intro m hm hc
  rw [List.mem_singleton.mp hm] at hc
  cases hc

theorem announced_sizes_followed_twice : ∃ bytes received, performAll {} resizedUses = some bytes ∧
    received.map frame = (resizedUses.flatMap Use.messages).map frame ∧
    (run (processRecvBuffer (onRecvRtmpMessage (fun k ↦ (true, k)) fun k _ ↦ (true, k + 1))) ({}, 0)
        bytes).mapState Prod.snd =
      serve (takeUp (fun k ↦ (true, k)) fun k _ ↦ (true, k + 1)) 0 received := by
  refine announced_sizes_followed _ _ 0 resizedUses ?_ ?_ ?_
  · exact ⟨⟨by decide +kernel, longMessage_quiet 8⟩, show 4 ≤ (4096 : BitVec 32).toInt by decide,
      ⟨by decide +kernel, longMessage_quiet 9⟩, trivial⟩
  · intro m hm
    rcases List.mem_cons.mp hm with rfl | hm
    · exact longMessage_sendable 8
    · rcases List.mem_cons.mp hm with rfl | hm
      · exact ⟨by decide, by decide, by decide, by decide⟩
      · rw [List.mem_singleton.mp hm]
        exact longMessage_sendable 9
  · exact ⟨show 0 < 0xffffff by decide, show 0 < 0xffffff by decide, ⟨le_rfl, by decide⟩, trivial⟩

end Serve

end MmsServer.Rtmp.ChunkSizeChange
