import Mathlib.Data.List.Forall2
import MmsServer.Rtmp.Address
import MmsServer.Rtmp.ChunkSizeChange

namespace MmsServer.Rtmp.CommandExchange

open Function Lib.ByteLayout Lib.ByteReader Lib.Checked Lib.CheckedReading Lib.Incremental Lib.Text Amf0.Data
    Amf0.RoundTrip
open Define ChunkReceiver ChunkSender ControlMessage ChunkRoundTrip ChunkSizeChange Command
open CommandSession CommandSession.RtmpServerSession Http.RequestText Address

section Messages

/-- A message that both chunk layers carry in one call, whatever the chunk size is. -/
structure Deliverable (longest : ℕ) (m : RtmpMessage) : Prop where
  sendable : Sendable m
  quiet : Quiet m
  timestamp : m.timestamp = 0
  length_le : m.usingData.length ≤ longest

theorem chunkCount_le {n : BitVec 32} (hn : 0 < n.toInt) {len k : ℕ} (h : len ≤ k * n.toInt.toNat) :
    chunkCount n len ≤ k := by
  have hp : 0 < n.toInt.toNat := by omega
  rw [chunkCount, Nat.div_le_iff_le_mul_add_pred hp, Nat.mul_comm]
  omega

theorem timestampsOk_zero {past : History} (h : ∀ c p step, past c = some (p, step) → p.timestamp = 0)
    {msgs : List RtmpMessage} (hm : ∀ m ∈ msgs, m.timestamp = 0) : TimestampsOk past msgs := by
  induction msgs generalizing past with
  | nil => trivial
  | cons m ms ih =>
    have h0 := hm m (List.mem_cons_self ..)
    refine ⟨?_, ih (fun c p step hp ↦ ?_) fun m' hm' ↦ hm m' (List.mem_cons_of_mem m hm')⟩
    · unfold TimestampFollows
      rw [h0]
      split
      · decide
      · rename_i p step hp
        rw [h _ p step hp]
        decide
    · unfold History.push at hp
      by_cases hc : c = m.chunkStreamId
      · subst hc
        rw [update_self] at hp
        cases hp
        exact h0
      · rw [update_of_ne hc] at hp
        exact h c p step hp

/-- The chunk layer of one side and the session of the other: a chunk size is announced
and messages follow. -/
theorem announced_served {σ : Type} (sendAck : σ → Bool × σ) (dispatch : σ → RtmpMessage → Bool × σ)
    (app : σ) (early : Bool) {n : BitVec 32} (hn : 4 ≤ n.toInt) (longest : ℕ)
    (hlongest : longest ≤ 200 * n.toInt.toNat) {msgs : List RtmpMessage}
    (h : ∀ m ∈ msgs, Deliverable longest m) :
    ∃ bytes received, performAll {} (.announce early n :: msgs.map fun m ↦ .send [m]) = some bytes ∧
      received.map frame = (setChunkSizeMessage n :: msgs).map frame ∧
      (run (processRecvBuffer (onRecvRtmpMessage sendAck dispatch)) ({}, app) bytes).mapState Prod.snd =
        serve (takeUp sendAck dispatch) app received := by
  have hflat : (Use.announce early n :: msgs.map fun m ↦ .send [m]).flatMap Use.messages =
      setChunkSizeMessage n :: msgs := by
    rw [List.flatMap_cons, List.flatMap_map]
    exact congrArg (setChunkSizeMessage n :: ·) (List.flatMap_singleton' msgs)
  have hwork : Workable 128 (.announce early n :: msgs.map fun m ↦ .send [m]) := by
    refine ⟨hn, ?_⟩
    change Workable n _
    clear hflat
    induction msgs with
    | nil => trivial
    | cons m ms ih =>
      have hm := h m (List.mem_cons_self ..)
      refine ⟨⟨?_, fun m' hm' ↦ ?_⟩, ih fun m' hm' ↦ h m' (List.mem_cons_of_mem m hm')⟩
      · have hcount := chunkCount_le (n := n) (by omega) (hm.length_le.trans hlongest)
        simpa [callChunks] using hcount
      · rw [List.mem_singleton.mp hm']
        exact hm.quiet
  have hset : Sendable (setChunkSizeMessage n) :=
    ⟨show 2 ≤ 2 by decide, show 2 ≤ 65599 by decide, show 0 < 4 by decide, show 4 < 2 ^ 21 by decide⟩
  rw [← hflat]
  apply announced_sizes_followed sendAck dispatch app _ hwork
  · rw [hflat]
    exact List.forall_mem_cons.mpr ⟨hset, fun m hm ↦ (h m hm).sendable⟩
  · rw [hflat]
    exact timestampsOk_zero (fun _ _ _ hp ↦ absurd hp (Option.some_ne_none _).symm)
      (List.forall_mem_cons.mpr ⟨rfl, fun m hm ↦ (h m hm).timestamp⟩)

/-- A message as the chunk layer of the other side hands it over, but for its timestamp. -/
structure Handed (m m' : RtmpMessage) : Prop where
  data : m.usingData = m'.usingData
  typeId : m.messageTypeId = m'.messageTypeId
  control : isProtocolControlMessage m = isProtocolControlMessage m'

theorem handed_of_frames {received msgs : List RtmpMessage} (h : received.map frame = msgs.map frame) :
    List.Forall₂ Handed received msgs := by
  rw [← List.forall₂_eq_eq_eq, List.forall₂_map_left_iff, List.forall₂_map_right_iff] at h
  refine h.imp fun m m' hm ↦ ?_
  obtain ⟨hdata, htype, hstream, hchunk⟩ : m.usingData = m'.usingData ∧ m.messageTypeId = m'.messageTypeId ∧
      m.messageStreamId = m'.messageStreamId ∧ m.chunkStreamId = m'.chunkStreamId := by
    simpa only [frame, Prod.mk.injEq] using hm
  exact ⟨hdata, htype, by rw [isProtocolControlMessage, htype, hstream, hchunk, isProtocolControlMessage]⟩

theorem handed_append {received front back : List RtmpMessage}
    (h : List.Forall₂ Handed received (front ++ back)) :
    ∃ front' back', received = front' ++ back' ∧ List.Forall₂ Handed front' front ∧
      List.Forall₂ Handed back' back :=
  ⟨_, _, (List.take_append_drop front.length received).symm, List.forall₂_take_append received front back h,
    List.forall₂_drop_append received front back h⟩

theorem handed_snoc {received msgs : List RtmpMessage} {m : RtmpMessage}
    (h : List.Forall₂ Handed received (msgs ++ [m])) :
    ∃ front m', received = front ++ [m'] ∧ List.Forall₂ Handed front msgs ∧ Handed m' m := by
  obtain ⟨front, back, rfl, hfront, hback⟩ := handed_append h
  obtain _ | @⟨m', _, _, _, hm, hnil⟩ := hback
  obtain _ | _ := hnil
  exact ⟨front, m', rfl, hfront, hm⟩

theorem envelope_deliverable {chunkId longest : ℕ} (hlow : 2 ≤ chunkId) (hhigh : chunkId ≤ 65599)
    {vs : List Amf0Data} (h : PlainFields vs) (hpos : 0 < datasSize vs) (hle : datasSize vs ≤ longest)
    (hlt : datasSize vs < 2 ^ 21) : Deliverable longest (envelope chunkId vs) := by
  have hlen : (envelope chunkId vs).usingData.length = datasSize vs := fieldBytes_length h.plain
  refine ⟨⟨hlow, hhigh, by omega, by omega⟩, fun hc ↦ ?_, rfl, by omega⟩
  have hno : isProtocolControlMessage (envelope chunkId vs) = false := Bool.and_false _
  rw [hno] at hc
  cases hc

theorem command_deliverable {vs : List Amf0Data}
    (h : PlainFields vs ∧ 0 < datasSize vs ∧ datasSize vs ≤ 2 ^ 20 + 200) :
    Deliverable (2 ^ 20 + 200) (envelope 3 vs) :=
  envelope_deliverable (by decide) (by decide) h.1 h.2.1 h.2.2 (by omega)

theorem envelope_typeId (chunkId : ℕ) (vs : List Amf0Data) :
    (envelope chunkId vs).messageTypeId = messageTypeAmf0Command := rfl

theorem envelope_command (chunkId : ℕ) (vs : List Amf0Data) :
    isProtocolControlMessage (envelope chunkId vs) = false := Bool.and_false _

theorem text_lengths {u : StreamUrl} (h : u.text.length ≤ 65535) :
    u.tcUrl.length ≤ 65535 ∧ u.app.length ≤ 65535 ∧ u.streamAndParams.length ≤ 65535 := by
  have htext : u.text.length = u.tcUrl.length + (u.streamAndParams.length + 1) := by
    rw [StreamUrl.text, List.length_append, List.length_cons]
  have happ : u.app.length ≤ u.tcUrl.length := by
    simp only [StreamUrl.tcUrl, List.length_append, List.length_cons]
    omega
  omega

theorem setChunkSize_control (n : BitVec 32) : isProtocolControlMessage (setChunkSizeMessage n) = true := by
  rfl

end Messages

section Answers

def commandOf (msg : RtmpMessage) : Option (Bytes × BitVec 64) :=
  if msg.messageTypeId = messageTypeAmf0Command then
    match decodeMessage (do return (← field 0 amf0String (-1), ← field 0 amf0Number (-2))) msg with
    | .ok command => some command
    | _ => none
  else none

theorem decode_head {name : Bytes} {transactionId : BitVec 64} {vs : List Amf0Data} {msg : RtmpMessage}
    (h : PlainFields (.string name :: .number transactionId :: vs))
    (hdata : msg.usingData = fieldBytes (.string name :: .number transactionId :: vs)) :
    decodeMessage (do return (← field 0 amf0String (-1), ← field 0 amf0Number (-2))) msg =
      .ok (name, transactionId) := by
  have hs := h.size_lt
  have hv := h.plain _ (List.mem_cons_self ..)
  have hw := h.tail.plain _ (List.mem_cons_self ..)
  obtain ⟨buf, hbuf, hlen⟩ : ∃ buf : Bytes, msg.usingData =
      (datasLayout (.string name :: .number transactionId :: vs)).fill buf ∧
        datasSize (.string name :: .number transactionId :: vs) = buf.length :=
    ⟨_, hdata, List.length_replicate.symm⟩
  rw [datasSize, datasSize] at hs hlen
  have hg := gives_field zero_le_one amf0String (-1) hv
    (show (Amf0Data.string name).size < 2 ^ 31 by omega)
    (show (Amf0Data.string name).size ≤ buf.length by omega)
  have hg' := gives_field zero_le_one amf0Number (-2) hw
    (show (Amf0Data.number transactionId).size < 2 ^ 31 by omega)
    (show (Amf0Data.number transactionId).size ≤ (buf.drop (Amf0Data.string name).size).length by
      rw [List.length_drop]
      omega)
  rw [decodeMessage, hbuf, datasLayout, Layout.fill, datasLayout, Layout.fill, hv.size_eq]
  have hfirst := hg.bind_apply (fun name ↦ field 0 amf0Number (-2) >>= fun id ↦ Pure.pure (name, id))
    ((layoutOf (.number transactionId)).fill (buf.drop (Amf0Data.string name).size) ++
      (datasLayout vs).fill ((buf.drop (Amf0Data.string name).size).drop
        (layoutOf (.number transactionId)).size))
  have hsecond := hg'.bind_apply (fun id ↦ Pure.pure (name, id))
    ((datasLayout vs).fill ((buf.drop (Amf0Data.string name).size).drop
      (layoutOf (.number transactionId)).size))
  exact congrArg (· >>= _) (hfirst.trans hsecond)

/-- What a server says before it comes to the stream. -/
structure Answer (m : RtmpMessage) : Prop where
  deliverable : Deliverable 800 m
  passed : isProtocolControlMessage m = false → m.messageTypeId = messageTypeAmf0Command ∧
    ∃ name, decodeMessage (field 0 amf0String (-1)) m = .ok name ∧ name ≠ ascii "onStatus"

theorem answer_word {m : RtmpMessage} (hcsid : m.chunkStreamId = 2) (hstream : m.messageStreamId = 0)
    (htime : m.timestamp = 0) (hlen : 4 ≤ m.usingData.length ∧ m.usingData.length ≤ 8)
    (ht : m.messageTypeId = 3 ∨ m.messageTypeId = 5 ∨ m.messageTypeId = 6) : Answer m ∧ commandOf m = none := by
  have hcontrol : isProtocolControlMessage m = true := by
    rw [isProtocolControlMessage, hcsid, hstream]
    rcases ht with h | h | h <;> rw [h] <;> rfl
  refine ⟨⟨⟨⟨by omega, by omega, by omega, by omega⟩, fun _ ↦ ⟨?_, ?_, fun _ ↦ hlen.1⟩, htime, by omega⟩,
    fun hno ↦ ?_⟩, if_neg ?_⟩
  · rcases ht with h | h | h <;> rw [h] <;> decide
  · rcases ht with h | h | h <;> rw [h] <;> decide
  · rw [hcontrol] at hno
    cases hno
  · rcases ht with h | h | h <;> rw [h] <;> decide

theorem answer_command {name : Bytes} {transactionId : BitVec 64} {vs : List Amf0Data}
    (h : PlainFields (.string name :: .number transactionId :: vs)) (hname : name ≠ ascii "onStatus")
    (hle : datasSize (.string name :: .number transactionId :: vs) ≤ 800) :
    Answer (envelope 2 (.string name :: .number transactionId :: vs)) ∧
      commandOf (envelope 2 (.string name :: .number transactionId :: vs)) = some (name, transactionId) := by
  have hpos : 0 < datasSize (.string name :: .number transactionId :: vs) := by
    have hv := size_pos (h.plain _ (List.mem_cons_self ..))
    rw [datasSize]
    omega
  have hhead : decodeMessage (do return (← field 0 amf0String (-1), ← field 0 amf0Number (-2)))
      (envelope 2 (.string name :: .number transactionId :: vs)) = .ok (name, transactionId) :=
  decode_head h rfl
  refine ⟨⟨envelope_deliverable le_rfl (by decide) h hpos hle (by omega), fun _ ↦ ?_⟩, ?_⟩
  · exact ⟨rfl, name, decode_name h rfl, hname⟩
  · rw [commandOf, if_pos (envelope_typeId 2 _), hhead]

theorem acknowledge_answer (inBytes behind : BitVec 32) :
    Answer (acknowledgeMessage inBytes behind) ∧ commandOf (acknowledgeMessage inBytes behind) = none :=
  answer_word rfl rfl rfl ⟨show 4 ≤ 8 by decide, le_rfl⟩ (.inl rfl)

theorem windowAckSize_answer (n : BitVec 32) :
    Answer (windowAckSizeMessage n) ∧ commandOf (windowAckSizeMessage n) = none :=
  answer_word rfl rfl rfl ⟨le_rfl, show 4 ≤ 8 by decide⟩ (.inr (.inl rfl))

theorem setPeerBandwidth_answer (n : BitVec 32) (limitType : UInt8) :
    Answer (setPeerBandwidthMessage n limitType) ∧ commandOf (setPeerBandwidthMessage n limitType) = none :=
  answer_word rfl rfl rfl ⟨show 4 ≤ 5 by decide, show 5 ≤ 8 by decide⟩ (.inr (.inr rfl))

structure Short (v : Amf0Data) : Prop where
  plain : Plain v
  size_le : v.size ≤ 200

theorem short_fields {vs : List Amf0Data} (h : ∀ v ∈ vs, Short v) (hlen : vs.length ≤ 4) :
    PlainFields vs ∧ datasSize vs ≤ 800 := by
  have hsize : datasSize vs ≤ 200 * vs.length := by
    clear hlen
    induction vs with
    | nil => exact Nat.zero_le _
    | cons v vs ih =>
      have hv := (h v (List.mem_cons_self ..)).size_le
      have hrest := ih fun v' hv' ↦ h v' (List.mem_cons_of_mem v hv')
      rw [datasSize, List.length_cons]
      omega
  exact ⟨⟨fun v hv ↦ (h v hv).plain, by omega⟩, by omega⟩

theorem short_string {value : Bytes} (h : value.length ≤ 100) : Short (.string value) :=
  ⟨.string value (by omega), by rw [string_size]; omega⟩

theorem short_number (value : BitVec 64) : Short (.number value) := ⟨.number value, by rw [number_size]; omega⟩

theorem short_null : Short .null := ⟨.null, show 1 ≤ 200 by decide⟩

theorem short_undefined : Short .undefined := ⟨.undefined, show 1 ≤ 200 by decide⟩

/-- An object with few properties, in whatever order the map iterates them. -/
theorem short_object {iterate : Properties → Properties} (hiter : ∀ ps, (iterate ps).Perm ps)
    {ps : Properties} (hkeys : (ps.map Prod.fst).Nodup)
    (h : ∀ p ∈ ps, (p.1 ≠ [] ∧ p.1.length ≤ 65535) ∧ Plain p.2) (hsize : propertiesSize ps ≤ 196) :
    Short (.object (iterate ps)) := by
  refine ⟨plain_perm (hiter ps) (.object ps hkeys (fun p hp ↦ (h p hp).1) fun p hp ↦ (h p hp).2), ?_⟩
  rw [object_size, propertiesSize_perm (hiter ps)]
  omega

end Answers

section Server

variable {env : Surroundings} {domainName appName : Bytes} {answers : List (Bytes × BitVec 64)}
  {s : RtmpServerSession}

/-- A session that has answered these commands and knows of no stream. -/
structure Answering (answers : List (Bytes × BitVec 64)) (s : RtmpServerSession) : Prop where
  streamName : s.streamName = []
  params : s.params = fun _ ↦ none
  sent : ∀ m ∈ s.sent, Answer m
  answered : s.sent.filterMap commandOf = answers

/-- The same of a session that has been told the application. -/
structure Connected (domainName appName : Bytes) (answers : List (Bytes × BitVec 64))
    (s : RtmpServerSession) : Prop extends Answering answers s where
  domainName : s.domainName = domainName
  appName : s.appName = appName

def saying (s : RtmpServerSession) (ms : List RtmpMessage) : RtmpServerSession :=
  { s with sent := s.sent ++ ms }

theorem sendAll_ok (s : RtmpServerSession) (ms : List RtmpMessage) :
    s.sendAll (ms.map .ok) = (true, saying s ms) := by
  induction ms generalizing s with
  | nil => simp only [List.map_nil, RtmpServerSession.sendAll, saying, List.append_nil]
  | cons m ms ih =>
    rw [List.map_cons, RtmpServerSession.sendAll, ih]
    simp only [saying, List.append_assoc, List.singleton_append]

theorem Answering.grow {ms : List RtmpMessage} {new : List (Bytes × BitVec 64)} (h : Answering answers s)
    (hm : ∀ m ∈ ms, Answer m) (hnew : ms.filterMap commandOf = new) :
    Answering (answers ++ new) (saying s ms) where
  streamName := h.streamName
  params := h.params
  sent m hmem := (List.mem_append.mp hmem).elim (h.sent m) (hm m)
  answered := by
    change (s.sent ++ ms).filterMap commandOf = _
    rw [List.filterMap_append, h.answered, hnew]

theorem Connected.grow {ms : List RtmpMessage} {new : List (Bytes × BitVec 64)}
    (h : Connected domainName appName answers s) (hm : ∀ m ∈ ms, Answer m)
    (hnew : ms.filterMap commandOf = new) :
    Connected domainName appName (answers ++ new) (saying s ms) where
  toAnswering := h.toAnswering.grow hm hnew
  domainName := h.domainName
  appName := h.appName

/-- The acknowledgements of the server, which it sends as the received bytes make them due. -/
def acknowledging (due : ℕ → Option (BitVec 32 × BitVec 32)) (p : ℕ × RtmpServerSession) :
    Bool × ℕ × RtmpServerSession :=
  let r := p.2.sendAcknowledgeMsgIfRequired (due p.1)
  (r.1, p.1 + 1, r.2)

def answering (env : Surroundings) (p : ℕ × RtmpServerSession) (msg : RtmpMessage) :
    Bool × ℕ × RtmpServerSession :=
  let r := p.2.dispatch env msg
  (r.1, p.1, r.2)

theorem acknowledging_eq (due : ℕ → Option (BitVec 32 × BitVec 32)) (k : ℕ) (s : RtmpServerSession) :
    ∃ ms, acknowledging due (k, s) = (true, k + 1, saying s ms) ∧ (∀ m ∈ ms, Answer m) ∧
      ms.filterMap commandOf = [] := by
  refine ⟨(due k).toList.map fun p ↦ acknowledgeMessage p.1 p.2, ?_, fun m hm ↦ ?_, ?_⟩
  · have hsend := sendAll_ok s ((due k).toList.map fun p ↦ acknowledgeMessage p.1 p.2)
    rw [List.map_map] at hsend
    simp only [acknowledging, RtmpServerSession.sendAcknowledgeMsgIfRequired]
    rw [show (fun p : BitVec 32 × BitVec 32 ↦ Outcome.ok (acknowledgeMessage p.1 p.2)) =
      Outcome.ok ∘ fun p ↦ acknowledgeMessage p.1 p.2 from rfl, hsend]
  · obtain ⟨p, -, rfl⟩ := List.mem_map.mp hm
    exact (acknowledge_answer p.1 p.2).1
  · cases hdue : due k with
    | none => rfl
    | some p =>
      simp only [Option.toList_some, List.map_cons, List.map_nil, List.filterMap_cons,
        (acknowledge_answer p.1 p.2).2, List.filterMap_nil]

structure Carries (msg : RtmpMessage) (vs : List Amf0Data) : Prop where
  typeId : msg.messageTypeId = messageTypeAmf0Command
  control : isProtocolControlMessage msg = false
  data : msg.usingData = fieldBytes vs

theorem carries_of_handed {m : RtmpMessage} {chunkId : ℕ} {vs : List Amf0Data}
    (h : Handed m (envelope chunkId vs)) :
    Carries m vs := ⟨h.typeId, h.control.trans (envelope_command chunkId vs), h.data⟩

theorem takeUp_command {due : ℕ → Option (BitVec 32 × BitVec 32)} {k : ℕ} {msg : RtmpMessage} {vs : List Amf0Data}
    (hmsg : Carries msg vs) {ms : List RtmpMessage}
    (hack : acknowledging due (k, s) = (true, k + 1, saying s ms)) {ok : Bool} {s' : RtmpServerSession}
    (hs : (saying s ms).handleAmf0Command env msg = (ok, s')) :
    takeUp (acknowledging due) (answering env) (k, s) msg = (ok, k + 1, s') := by
  have hmedia : ¬ (msg.messageTypeId = 18 ∨ msg.messageTypeId = 8 ∨ msg.messageTypeId = 9) := by
    rw [hmsg.typeId]
    decide
  simp only [takeUp, hack, hmsg.control, answering, RtmpServerSession.dispatch]
  rw [if_neg (by decide), if_neg hmedia, if_pos hmsg.typeId, hs]

/-- The answer to a command that only asks for one. -/
theorem reply_sent (h : Connected domainName appName answers s) (transactionId : BitVec 64) {v : Amf0Data}
    (hv : Short v) :
    ∃ s', s.sendAll [commandMessage chunkIdProtocolControlMessage 0
        [.string (ascii "_result"), .number transactionId, .null, v]] = (true, s') ∧
      Connected domainName appName (answers ++ [(ascii "_result", transactionId)]) s' := by
  have hshort : ∀ w ∈ [.string (ascii "_result"), .number transactionId, .null, v], Short w :=
    List.forall_mem_cons.mpr ⟨short_string (by decide), List.forall_mem_cons.mpr ⟨short_number _,
      List.forall_mem_cons.mpr ⟨short_null, List.forall_mem_singleton.mpr hv⟩⟩⟩
  obtain ⟨hplain, hsize⟩ := short_fields hshort le_rfl
  obtain ⟨hanswer, hcommand⟩ := answer_command hplain (by decide) hsize
  rw [commandMessage_eq _ zero_le_one hplain]
  refine ⟨_, sendAll_ok s [envelope 2 _], h.grow (List.forall_mem_singleton.mpr hanswer) ?_⟩
  rw [List.filterMap_cons, hcommand]
  rfl

def commandFields (name : String) (transactionId : BitVec 64) (vs : List Amf0Data) : List Amf0Data :=
  .string (ascii name) :: .number transactionId :: .null :: vs

theorem commandFields_plain (name : String) (hname : (ascii name).length ≤ 100) (transactionId : BitVec 64)
    {vs : List Amf0Data} (h : PlainFields vs) (hsize : datasSize vs ≤ 2 ^ 20) :
    PlainFields (commandFields name transactionId vs) ∧ 0 < datasSize (commandFields name transactionId vs) ∧
      datasSize (commandFields name transactionId vs) ≤ 2 ^ 20 + 200 := by
  have hnull : datasSize (.null :: vs) = 1 + datasSize vs := rfl
  have hnumber : datasSize (.number transactionId :: .null :: vs) = 9 + datasSize (.null :: vs) := rfl
  have hstring : datasSize (commandFields name transactionId vs) =
      ((ascii name).length + 3) + datasSize (.number transactionId :: .null :: vs) := by
    rw [commandFields, datasSize, string_size]
  refine ⟨.cons (.string _ (by omega)) (.cons (.number _) (.cons .null h ?_) ?_) ?_, by omega, by omega⟩
  · exact hnull ▸ (by omega : 1 + datasSize vs < 2 ^ 31)
  · rw [number_size]
    omega
  · rw [string_size]
    omega

theorem text_plain {text : Bytes} (h : text.length ≤ 65535) {vs : List Amf0Data} (hvs : PlainFields vs)
    (hsize : datasSize vs ≤ 1000) :
    PlainFields (.string text :: vs) ∧ datasSize (.string text :: vs) ≤ 2 ^ 20 := by
  have hstring := string_size text
  refine ⟨.cons (.string text h) hvs (by omega), ?_⟩
  rw [datasSize]
  omega

variable {msg : RtmpMessage} {transactionId : BitVec 64} {text : Bytes}

theorem streamCommand_plain (name : String) (hname : (ascii name).length ≤ 100) (transactionId : BitVec 64)
    (htext : text.length ≤ 65535) :
    PlainFields (commandFields name transactionId [.string text]) := by
  obtain ⟨hplain, hsize⟩ := text_plain htext .nil (Nat.zero_le _)
  exact (commandFields_plain name hname transactionId hplain hsize).1

theorem releaseStream_served (env : Surroundings) (htext : text.length ≤ 65535)
    (h : Connected domainName appName answers s)
    (hmsg : Carries msg (commandFields "releaseStream" transactionId [.string text])) :
    ∃ s', s.handleAmf0Command env msg = (true, s') ∧
      Connected domainName appName (answers ++ [(ascii "_result", transactionId)]) s' := by
  have hplain := streamCommand_plain "releaseStream" (by decide) transactionId htext
  obtain ⟨s', hs, hconnected⟩ := reply_sent h transactionId short_undefined
  refine ⟨s', ?_, hconnected⟩
  rw [RtmpServerSession.handleAmf0Command, decode_name hplain hmsg.data]
  simp only
  rw [if_neg (by decide), if_pos trivial, RtmpServerSession.handleAmf0ReleaseStreamCommand,
    RtmpReleaseStreamMessage.decode, decode_streamCommand hplain hmsg.data]
  exact hs

theorem fcPublish_served (env : Surroundings) (htext : text.length ≤ 65535)
    (h : Connected domainName appName answers s)
    (hmsg : Carries msg (commandFields "FCPublish" transactionId [.string text])) :
    ∃ s', s.handleAmf0Command env msg = (true, s') ∧
      Connected domainName appName (answers ++ [(ascii "_result", transactionId)]) s' := by
  have hplain := streamCommand_plain "FCPublish" (by decide) transactionId htext
  obtain ⟨s', hs, hconnected⟩ := reply_sent h transactionId short_undefined
  refine ⟨s', ?_, hconnected⟩
  rw [RtmpServerSession.handleAmf0Command, decode_name hplain hmsg.data]
  simp only
  rw [if_neg (by decide), if_neg (by decide), if_pos trivial, RtmpServerSession.handleAmf0FcpublishCommand,
    RtmpFCPublishMessage.decode, decode_streamCommand hplain hmsg.data]
  exact hs

theorem createStream_served (env : Surroundings) (h : Connected domainName appName answers s)
    (hmsg : Carries msg (commandFields "createStream" transactionId [])) :
    ∃ s', s.handleAmf0Command env msg = (true, s') ∧
      Connected domainName appName (answers ++ [(ascii "_result", transactionId)]) s' := by
  have hplain := (commandFields_plain "createStream" (by decide) transactionId .nil
    (Nat.zero_le _)).1
  obtain ⟨s', hs, hconnected⟩ := reply_sent h transactionId (short_number (doubleOfInt 1))
  refine ⟨s', ?_, hconnected⟩
  rw [RtmpServerSession.handleAmf0Command, decode_name hplain hmsg.data]
  simp only
  rw [if_neg (by decide), if_neg (by decide), if_neg (by decide), if_pos trivial,
    RtmpServerSession.handleAmf0CreatestreamCommand, decode_createStream hplain hmsg.data]
  exact hs

def connectProperties (tcUrl appName : Bytes) : Properties :=
  stringProperties [("tcUrl", tcUrl), ("pageUrl", []), ("swfUrl", []), ("app", appName)]

def connectFields (iterate : Properties → Properties) (transactionId : BitVec 64) (tcUrl appName : Bytes) :
    List Amf0Data :=
  [.string (ascii "connect"), .number transactionId, .object (iterate (connectProperties tcUrl appName))]

def connectKeys : List Bytes := [ascii "tcUrl", ascii "pageUrl", ascii "swfUrl", ascii "app"]

theorem connectProperties_keys (tcUrl appName : Bytes) :
    (connectProperties tcUrl appName).map Prod.fst = connectKeys := by
  simp only [connectProperties, stringProperties, List.map_cons, List.map_nil, connectKeys]

theorem connectKeys_nodup : connectKeys.Nodup := by decide

theorem connectKeys_short : ∀ key ∈ connectKeys, key ≠ [] ∧ key.length ≤ 65535 := by decide

variable {iterate : Properties → Properties} {tcUrl : Bytes}

theorem connectFields_plain (hiter : ∀ ps, (iterate ps).Perm ps) (transactionId : BitVec 64)
    (htcUrl : tcUrl.length ≤ 65535) (happ : appName.length ≤ 65535) :
    PlainFields (connectFields iterate transactionId tcUrl appName) ∧
      0 < datasSize (connectFields iterate transactionId tcUrl appName) ∧
      datasSize (connectFields iterate transactionId tcUrl appName) ≤ 2 ^ 20 + 200 := by
  have hsize : propertiesSize (connectProperties tcUrl appName) = tcUrl.length + appName.length + 41 := by
    simp only [connectProperties, stringProperties, List.map_cons, List.map_nil, propertiesSize, string_size,
      List.length_nil]
    have h1 : (ascii "tcUrl").length = 5 := by decide
    have h2 : (ascii "pageUrl").length = 7 := by decide
    have h3 : (ascii "swfUrl").length = 6 := by decide
    have h4 : (ascii "app").length = 3 := by decide
    omega
  have hobject : (Amf0Data.object (iterate (connectProperties tcUrl appName))).size =
      tcUrl.length + appName.length + 45 := by
    rw [object_size, propertiesSize_perm (hiter _), hsize]
  have hplain : Plain (.object (iterate (connectProperties tcUrl appName))) := by
    have hkeys := connectProperties_keys tcUrl appName
    refine plain_perm (hiter _) (.object _ (hkeys ▸ connectKeys_nodup) (fun p hp ↦ ?_) ?_)
    · exact connectKeys_short p.1 (hkeys ▸ List.mem_map_of_mem hp)
    · change ∀ p ∈ [(_, .string tcUrl), (_, .string []), (_, .string []), (_, .string appName)], Plain p.2
      exact List.forall_mem_cons.mpr ⟨.string _ htcUrl, List.forall_mem_cons.mpr ⟨.string _ (Nat.zero_le _),
        List.forall_mem_cons.mpr ⟨.string _ (Nat.zero_le _), List.forall_mem_singleton.mpr (.string _ happ)⟩⟩⟩
  have hconnect : (ascii "connect").length = 7 := by decide
  have hdatas : datasSize (connectFields iterate transactionId tcUrl appName) =
      tcUrl.length + appName.length + 64 := by
    simp only [connectFields, datasSize, string_size, number_size, hobject]
    omega
  refine ⟨⟨?_, by omega⟩, by omega, by omega⟩
  exact List.forall_mem_cons.mpr ⟨.string _ (by omega), List.forall_mem_cons.mpr ⟨.number _,
    List.forall_mem_singleton.mpr hplain⟩⟩

theorem connect_answer {env : Surroundings} (henv : ∀ ps, (env.iterate ps).Perm ps)
    (c : RtmpConnectCommandMessage) (transactionId : BitVec 64) :
    ∃ m, RtmpConnectRespMessage.encode env.iterate (ascii "_result") transactionId connectProps
        (connectInfo c) = .ok m ∧
      Answer m ∧ commandOf m = some (ascii "_result", transactionId) := by
  have hprops : Short (.object (env.iterate connectProps)) := by
    refine short_object henv (by decide) ?_ (by decide)
    exact List.forall_mem_cons.mpr ⟨⟨by decide, .string _ (by decide)⟩, List.forall_mem_singleton.mpr
      ⟨by decide, .number _⟩⟩
  have hinfo : Short (.object (env.iterate (connectInfo c))) := by
    have hkeys : (connectInfo c).map Prod.fst =
        [ascii "level", ascii "code", ascii "description", ascii "objEncoding"] := by
      simp only [connectInfo, List.map_cons, List.map_nil]
    refine short_object henv (hkeys ▸ by decide) ?_ ?_
    · exact List.forall_mem_cons.mpr ⟨⟨by decide, .string _ (by decide)⟩, List.forall_mem_cons.mpr
        ⟨⟨by decide, .string _ (by decide)⟩, List.forall_mem_cons.mpr ⟨⟨by decide, .string _ (by decide)⟩,
          List.forall_mem_singleton.mpr ⟨⟨(by decide : ascii "objEncoding" ≠ []),
            (by decide : (ascii "objEncoding").length ≤ 65535)⟩, .number _⟩⟩⟩⟩
    · simp only [connectInfo, propertiesSize, string_size, number_size]
      decide
  have hshort : ∀ v ∈ [.string (ascii "_result"), .number transactionId, .object (env.iterate connectProps),
      .object (env.iterate (connectInfo c))], Short v :=
    List.forall_mem_cons.mpr ⟨short_string (by decide), List.forall_mem_cons.mpr ⟨short_number _,
      List.forall_mem_cons.mpr ⟨hprops, List.forall_mem_singleton.mpr hinfo⟩⟩⟩
  obtain ⟨hplain, hsize⟩ := short_fields hshort le_rfl
  exact ⟨_, commandMessage_eq _ zero_le_one hplain, answer_command hplain (by decide) hsize⟩

theorem connect_served {u : StreamUrl} (env : Surroundings) (henv : ∀ ps, (env.iterate ps).Perm ps)
    (hiter : ∀ ps, (iterate ps).Perm ps) (hurl : u.tcUrl.length ≤ 65535) (happ : appName.length ≤ 65535)
    (hslash : 47 ∉ appName) (h : Answering [] s)
    (hmsg : Carries msg (connectFields iterate transactionId u.tcUrl appName)) :
    ∃ s', s.handleAmf0Command env msg = (true, s') ∧
      Connected u.domain appName [(ascii "_result", transactionId)] s' := by
  have hplain := (connectFields_plain hiter transactionId hurl happ).1
  have hkeys : ((iterate (connectProperties u.tcUrl appName)).map Prod.fst).Nodup :=
    ((hiter _).map Prod.fst).nodup_iff.mpr (connectProperties_keys u.tcUrl appName ▸ connectKeys_nodup)
  obtain ⟨c, hdec, hid, htcUrl, hname⟩ := decode_connect hkeys hplain
    ((hiter _).mem_iff.mpr (List.mem_cons_self ..))
    ((hiter _).mem_iff.mpr (List.mem_cons_of_mem _ (List.mem_cons_of_mem _ (List.mem_cons_of_mem _
      (List.mem_cons_self ..))))) hmsg.data
  obtain ⟨m, hm, hanswer, hcommand⟩ := connect_answer henv c transactionId
  obtain ⟨s', hs'⟩ : ∃ s', s' = { s with domainName := u.domain, appName } := ⟨_, rfl⟩
  have hparse : s.parseConnectCmd c = some s' := by
    rw [RtmpServerSession.parseConnectCmd, htcUrl, u.parseDomain_tcUrl, u.paramsBehind_tcUrl, hname,
      List.splitOn_eq_singleton hslash, hs']
    rfl
  have hconnected : Connected u.domain appName [] s' := by
    rw [hs']
    exact ⟨⟨h.streamName, h.params, h.sent, h.answered⟩, rfl, rfl⟩
  have hsend := sendAll_ok s' [windowAckSizeMessage windowAckSize,
      setPeerBandwidthMessage 800000000 limitTypeDynamic, m]
  refine ⟨saying s' [windowAckSizeMessage windowAckSize, setPeerBandwidthMessage 800000000 limitTypeDynamic, m],
    ?_, hconnected.grow ?_ ?_⟩
  · rw [RtmpServerSession.handleAmf0Command, decode_name hplain hmsg.data]
    simp only
    rw [if_pos trivial, RtmpServerSession.handleAmf0ConnectCommand, hdec]
    simp only
    rw [hparse, hid, hm]
    exact hsend
  · exact List.forall_mem_cons.mpr ⟨(windowAckSize_answer _).1, List.forall_mem_cons.mpr
      ⟨(setPeerBandwidth_answer _ _).1, List.forall_mem_singleton.mpr hanswer⟩⟩
  · simp only [List.filterMap_cons, (windowAckSize_answer _).2, (setPeerBandwidth_answer _ _).2, hcommand,
      List.filterMap_nil]

def statusFields (iterate : Properties → Properties) (code description : String) : List Amf0Data :=
  commandFields "onStatus" (doubleOfInt 0) [.object (iterate (statusInfo code description))]

theorem statusInfo_keys (code description : String) : (statusInfo code description).map Prod.fst =
    [ascii "level", ascii "code", ascii "description", ascii "clientid"] := by
  simp only [statusInfo, stringProperties, List.map_cons, List.map_nil]

theorem statusFields_plain (hiter : ∀ ps, (iterate ps).Perm ps) (code description : String)
    (hlen : (ascii code).length + (ascii description).length ≤ 100) :
    PlainFields (statusFields iterate code description) ∧
      datasSize (statusFields iterate code description) ≤ 800 := by
  have hinfo : Short (.object (iterate (statusInfo code description))) := by
    have hkeys := statusInfo_keys code description
    refine short_object hiter (hkeys ▸ by decide) (fun p hp ↦ ⟨?_, ?_⟩) ?_
    · have hshort : ∀ key ∈ [ascii "level", ascii "code", ascii "description", ascii "clientid"],
          key ≠ [] ∧ key.length ≤ 65535 := by decide
      exact hshort p.1 (hkeys ▸ List.mem_map_of_mem hp)
    · simp only [statusInfo, stringProperties, List.map_cons, List.map_nil, List.mem_cons, List.not_mem_nil,
        or_false] at hp
      rcases hp with rfl | rfl | rfl | rfl
      · exact .string _ (by decide)
      · exact .string _ (by omega)
      · exact .string _ (by omega)
      · exact .string _ (by decide)
    · have h1 : (ascii "level").length + (ascii "status").length = 11 := by decide
      have h2 : (ascii "code").length + (ascii "description").length = 15 := by decide
      have h3 : (ascii "clientid").length + (ascii "mms").length = 11 := by decide
      simp only [statusInfo, stringProperties, List.map_cons, List.map_nil, propertiesSize, string_size]
      omega
  have hshort : ∀ v ∈ statusFields iterate code description, Short v :=
    List.forall_mem_cons.mpr ⟨short_string (by decide), List.forall_mem_cons.mpr ⟨short_number _,
      List.forall_mem_cons.mpr ⟨short_null, List.forall_mem_singleton.mpr hinfo⟩⟩⟩
  exact short_fields hshort le_rfl

def statusMessage (env : Surroundings) (code description : String) : RtmpMessage :=
  envelope 2 (statusFields env.iterate code description)

theorem statusMessage_deliverable (henv : ∀ ps, (env.iterate ps).Perm ps) {code description : String}
    (hlen : (ascii code).length + (ascii description).length ≤ 100) :
    Deliverable 800 (statusMessage env code description) := by
  obtain ⟨hplain, hsize⟩ := statusFields_plain henv _ _ hlen
  have hpos : 0 < datasSize (statusFields env.iterate code description) := by
    have hv := size_pos (hplain.plain _ (List.mem_cons_self ..))
    rw [statusFields, commandFields, datasSize]
    exact Nat.add_pos_left hv _
  exact envelope_deliverable le_rfl (by decide) hplain hpos hsize (by omega)

theorem onStatus_eq (henv : ∀ ps, (env.iterate ps).Perm ps) {code description : String}
    (hlen : (ascii code).length + (ascii description).length ≤ 100) :
    onStatus env code description = .ok (statusMessage env code description) :=
  commandMessage_eq _ zero_le_one (statusFields_plain henv _ _ hlen).1

theorem getProperty_code (hiter : ∀ ps, (iterate ps).Perm ps) (code description : String) :
    getProperty amf0String (iterate (statusInfo code description)) (ascii "code") = some (ascii code) := by
  have hkeys : ((iterate (statusInfo code description)).map Prod.fst).Nodup :=
    ((hiter _).map Prod.fst).nodup_iff.mpr (statusInfo_keys code description ▸ by decide)
  exact getProperty_of_mem amf0String hkeys
    ((hiter _).mem_iff.mpr (List.mem_cons_of_mem _ (List.mem_cons_self ..)))

def startMessage (env : Surroundings) : RtmpMessage :=
  statusMessage env "NetStream.Publish.Start" "publish start ok."

theorem onStatus_start (henv : ∀ ps, (env.iterate ps).Perm ps) :
    onStatus env "NetStream.Publish.Start" "publish start ok." = .ok (startMessage env) :=
  onStatus_eq henv (by decide)

/-- A session that publishes the stream of an address. -/
structure Publishes (u : StreamUrl) (answers : List (Bytes × BitVec 64)) (s : RtmpServerSession) : Prop where
  domainName : s.domainName = u.domain
  appName : s.appName = u.app
  streamName : s.streamName = u.stream
  sessionName : s.sessionName = u.info.sessionName
  params : s.params = u.params fun _ ↦ none
  sent : ∀ m ∈ s.sent, Answer m
  answered : s.sent.filterMap commandOf = answers

theorem publish_plain (htext : text.length ≤ 65535) (transactionId : BitVec 64) :
    PlainFields (commandFields "publish" transactionId [.string text, .string (ascii "live")]) ∧
      0 < datasSize (commandFields "publish" transactionId [.string text, .string (ascii "live")]) ∧
      datasSize (commandFields "publish" transactionId [.string text, .string (ascii "live")]) ≤
        2 ^ 20 + 200 := by
  have hlive : (ascii "live").length = 4 := by decide
  have hsize : datasSize [.string (ascii "live")] = 7 := by
    rw [datasSize, string_size, hlive]
    rfl
  obtain ⟨hplain, hle⟩ := text_plain htext
    (.cons (.string (ascii "live") (by omega)) .nil
      (hsize ▸ (by decide) : datasSize [.string (ascii "live")] < 2 ^ 31))
    (by omega)
  exact commandFields_plain _ (by decide) transactionId hplain hle

theorem publish_served {u : StreamUrl} (henv : ∀ ps, (env.iterate ps).Perm ps)
    (htext : u.streamAndParams.length ≤ 65535) (h : Connected u.domain u.app answers s)
    (hmsg : Carries msg
      (commandFields "publish" transactionId [.string u.streamAndParams, .string (ascii "live")])) :
    ∃ s', Publishes u answers s' ∧ s.handleAmf0Command env msg =
      if env.admits s' then (env.addSource (saying s' [startMessage env]), saying s' [startMessage env])
      else (false, s') := by
  have hplain := (publish_plain htext transactionId).1
  obtain ⟨s', hs'⟩ : ∃ s', s' = s.parsePublishCmd
      ⟨ascii "publish", transactionId, u.streamAndParams, ascii "live"⟩ := ⟨_, rfl⟩
  refine ⟨s', ?_, ?_⟩
  · rw [hs', RtmpServerSession.parsePublishCmd, if_pos h.streamName, u.beforeQuestionMark_streamAndParams,
      u.paramsBehind_streamAndParams, h.domainName, h.appName, h.params]
    exact ⟨rfl, rfl, rfl, rfl, rfl, h.sent, h.answered⟩
  · rw [RtmpServerSession.handleAmf0Command, decode_name hplain hmsg.data]
    simp only
    rw [if_neg (by decide), if_neg (by decide), if_neg (by decide), if_neg (by decide), if_pos trivial,
      RtmpServerSession.handleAmf0PublishCommand, decode_publish hplain hmsg.data]
    simp only
    rw [← hs', onStatus_start henv]
    rfl

/-- What still holds when the session has acknowledged what it received. -/
def Settled (P : RtmpServerSession → Prop) : Prop :=
  ∀ s ms, P s → (∀ m ∈ ms, Answer m) → ms.filterMap commandOf = [] → P (saying s ms)

theorem answering_settled : Settled (Answering answers) := by
  intro s ms h hm hnone
  have hs := h.grow hm hnone
  rwa [List.append_nil] at hs

theorem connected_settled : Settled (Connected domainName appName answers) := by
  intro s ms h hm hnone
  have hs := h.grow hm hnone
  rwa [List.append_nil] at hs

theorem command_taken (env : Surroundings) {P : RtmpServerSession → Prop} (hP : Settled P)
    (due : ℕ → Option (BitVec 32 × BitVec 32))
    {vs : List Amf0Data} (hmsg : Carries msg vs) (h : P s) (k : ℕ) :
    ∃ s', P s' ∧ takeUp (acknowledging due) (answering env) (k, s) msg =
      ((s'.handleAmf0Command env msg).1, k + 1, (s'.handleAmf0Command env msg).2) := by
  obtain ⟨ms, hack, hms, hnone⟩ := acknowledging_eq due k s
  exact ⟨saying s ms, hP s ms h hms hnone, takeUp_command hmsg hack rfl⟩

theorem control_taken (env : Surroundings) {P : RtmpServerSession → Prop} (hP : Settled P)
    (due : ℕ → Option (BitVec 32 × BitVec 32))
    (hmsg : isProtocolControlMessage msg = true) (h : P s) (k : ℕ) :
    ∃ s', P s' ∧ takeUp (acknowledging due) (answering env) (k, s) msg = (true, k + 1, s') := by
  obtain ⟨ms, hack, hms, hnone⟩ := acknowledging_eq due k s
  refine ⟨saying s ms, hP s ms h hms hnone, ?_⟩
  simp only [takeUp, hack, hmsg, if_true]

theorem serve_taken {σ : Type} {f : σ → RtmpMessage → Bool × σ} {app app' : σ} {m : RtmpMessage}
    (h : f app m = (true, app')) (ms : List RtmpMessage) :
    serve f app (m :: ms) = (serve f app' ms).emit [m] := by
  rw [serve, h]

end Server

section Client

variable {σ : Type} {dispatch : σ → RtmpMessage → Bool × σ}

/-- A client that is not interested in the answers to its commands. -/
def PassesOver (dispatch : σ → RtmpMessage → Bool × σ) : Prop :=
  ∀ c m name, m.messageTypeId = messageTypeAmf0Command → decodeMessage (field 0 amf0String (-1)) m = .ok name →
    name ≠ ascii "onStatus" → dispatch c m = (true, c)

/-- A client's acknowledgements do not touch what it knows of the stream. -/
def attending (dispatch : σ → RtmpMessage → Bool × σ) : σ → RtmpMessage → Bool × σ :=
  takeUp (fun c ↦ (true, c)) dispatch

theorem attending_control {m : RtmpMessage} (h : isProtocolControlMessage m = true) (c : σ) :
    attending dispatch c m = (true, c) := by
  simp only [attending, takeUp, h, if_true]

theorem attending_dispatch {m : RtmpMessage} (h : isProtocolControlMessage m = false) (c : σ) :
    attending dispatch c m = dispatch c m := by
  simp only [attending, takeUp, h]
  rfl

theorem attending_answer (hpass : PassesOver dispatch) {m m' : RtmpMessage} (h : Handed m m') (hm : Answer m')
    (c : σ) : attending dispatch c m = (true, c) := by
  cases hcontrol : isProtocolControlMessage m with
  | true => exact attending_control hcontrol c
  | false =>
    obtain ⟨ht, name, hname, hne⟩ := hm.passed (h.control ▸ hcontrol)
    have hdec : decodeMessage (field 0 amf0String (-1)) m = .ok name := by
      rw [decodeMessage, h.data]
      exact hname
    rw [attending_dispatch hcontrol]
    exact hpass c m name (h.typeId.trans ht) hdec hne

theorem serve_answers (hpass : PassesOver dispatch) {received msgs : List RtmpMessage}
    (h : List.Forall₂ Handed received msgs) (hm : ∀ m ∈ msgs, Answer m) (c : σ) (rest : List RtmpMessage) :
    serve (attending dispatch) c (received ++ rest) = (serve (attending dispatch) c rest).emit received := by
  induction h with
  | nil => rw [List.nil_append, emit_nil]
  | @cons m m' ms ms' hfirst _ ih =>
    have htaken := attending_answer hpass hfirst (hm m' (List.mem_cons_self ..)) c
    rw [List.cons_append, serve_taken htaken, ih fun a ha ↦ hm a (List.mem_cons_of_mem m' ha), emit_emit]
    rfl

theorem publish_passesOver (sourceAlive : Bool) :
    PassesOver (RtmpPublishClientSession.dispatch sourceAlive) := by
  intro c m name ht hname hne
  rw [RtmpPublishClientSession.dispatch, if_pos ht, RtmpPublishClientSession.handleAmf0Command, hname]
  simp only
  rw [if_neg hne]

theorem attending_start {env : Surroundings} (henv : ∀ ps, (env.iterate ps).Perm ps) (sourceAlive : Bool)
    {m : RtmpMessage} (h : Handed m (startMessage env)) (c : RtmpPublishClientSession) :
    attending (RtmpPublishClientSession.dispatch sourceAlive) c m =
      if sourceAlive then (true, { c with added := c.added + 1 }) else (false, c) := by
  have hplain := (statusFields_plain henv "NetStream.Publish.Start" "publish start ok." (by decide)).1
  have hcarries := carries_of_handed h
  have hcode := getProperty_code henv "NetStream.Publish.Start" "publish start ok."
  rw [attending_dispatch hcarries.control, RtmpPublishClientSession.dispatch, if_pos hcarries.typeId,
    RtmpPublishClientSession.handleAmf0Command, decode_name hplain hcarries.data]
  simp only
  rw [if_pos trivial, RtmpPublishClientSession.handleAmf0StatusCommand, decode_onStatus hplain hcarries.data]
  simp only [hcode]
  rw [if_neg (by simp)]

end Client

def doorUrl : StreamUrl where
  tls := true
  host := ascii "example.org:1936"
  app := ascii "live"
  stream := ascii "door"
  query := some (ascii "key=7")
  host_without := by decide
  app_without := by decide
  stream_without := by decide
  query_without q hq := by
    rw [← Option.some.inj hq]
    decide

def openDoor : Surroundings where
  iterate := List.reverse
  admits _ := true
  addSource _ := true
  play _ := .found true
  handleMedia _ _ := true

end MmsServer.Rtmp.CommandExchange
