import MmsServer.Rtmp.CommandExchange

namespace MmsServer.Rtmp.PullSession

open Lib.ByteReader Lib.Checked Lib.CheckedReading Lib.Incremental Lib.Text Amf0.Data Amf0.RoundTrip
open Define ChunkReceiver ChunkSender ControlMessage ChunkRoundTrip ChunkSizeChange Command
open CommandSession CommandSession.RtmpServerSession Http.RequestText Address CommandExchange

variable {u : StreamUrl} {app : Bytes} {iterate : Properties → Properties} {env : Surroundings}
  {opened : List (Bytes × BitVec 64)} {s : RtmpServerSession}

section Server

def pullMessages (iterate : Properties → Properties) (u : StreamUrl) (app : Bytes) : List RtmpMessage :=
  [envelope 3 (connectFields iterate (doubleOfInt 1) u.tcUrl app),
    envelope 3 (commandFields "createStream" (doubleOfInt 2) []),
    envelope 3
      (commandFields "play" (doubleOfInt 3) [.string u.streamAndParams, .number (doubleOfInt (-2000))])]

theorem play_plain {text : Bytes} (htext : text.length ≤ 65535) (transactionId start : BitVec 64) :
    PlainFields (commandFields "play" transactionId [.string text, .number start]) ∧
      0 < datasSize (commandFields "play" transactionId [.string text, .number start]) ∧
      datasSize (commandFields "play" transactionId [.string text, .number start]) ≤ 2 ^ 20 + 200 := by
  have hsize : datasSize [.number start] = 9 := rfl
  obtain ⟨hplain, hle⟩ := text_plain htext
      (.cons (.number start) .nil (hsize ▸ (by decide) : datasSize [.number start] < 2 ^ 31))
    (by omega)
  exact commandFields_plain _ (by decide) transactionId hplain hle

theorem playCommands_text (hlen : u.text.length ≤ 65535) (happ : app.length ≤ 65535)
    (hiter : ∀ ps, (iterate ps).Perm ps) :
    playCommands iterate u.text app = .ok (pullMessages iterate u app) := by
  obtain ⟨hurl, -, hstream⟩ := text_lengths hlen
  have hconnect : RtmpConnectCommandMessage.encode iterate 1 u.tcUrl [] [] app = _ :=
    commandMessage_eq chunkIdCommandMessage le_rfl (connectFields_plain hiter (doubleOfInt 1) hurl happ).1
  have hcreate : RtmpCreateStreamMessage.encode 2 = _ :=
    commandMessage_eq chunkIdCommandMessage le_rfl
      (commandFields_plain "createStream" (by decide) (doubleOfInt 2) .nil (Nat.zero_le _)).1
  have hplay : RtmpPlayMessage.encode 3 u.streamAndParams = _ :=
    commandMessage_eq chunkIdCommandMessage zero_le_one
      (play_plain hstream (doubleOfInt 3) (doubleOfInt (-2000))).1
  simp only [playCommands, u.splitUrl_text, hconnect, hcreate, hplay, Outcome.ok_bind, Outcome.pure_eq]
  rfl

theorem pullMessages_deliverable (hlen : u.text.length ≤ 65535) (happ : app.length ≤ 65535)
    (hiter : ∀ ps, (iterate ps).Perm ps) : ∀ m ∈ pullMessages iterate u app, Deliverable (2 ^ 20 + 200) m := by
  obtain ⟨hurl, -, hstream⟩ := text_lengths hlen
  have hconnect := connectFields_plain hiter (doubleOfInt 1) hurl happ
  have hcreate := commandFields_plain "createStream" (by decide) (doubleOfInt 2) .nil (Nat.zero_le _)
  have hplay := play_plain hstream (doubleOfInt 3) (doubleOfInt (-2000))
  exact List.forall_mem_cons.mpr ⟨command_deliverable hconnect, List.forall_mem_cons.mpr
    ⟨command_deliverable hcreate, List.forall_mem_singleton.mpr (command_deliverable hplay)⟩⟩

/-- A session that asks for the stream of an address, in the application of the client. -/
structure Asks (u : StreamUrl) (app : Bytes) (opened : List (Bytes × BitVec 64)) (s : RtmpServerSession) :
    Prop where
  domainName : s.domainName = u.domain
  appName : s.appName = app
  streamName : s.streamName = u.stream
  sessionName : s.sessionName = (SessionInfo.mk u.domain app u.stream).sessionName
  params : s.params = fun _ ↦ none
  sent : ∀ m ∈ s.sent, Answer m
  answered : s.sent.filterMap commandOf = opened

def accessSampleFields : List Amf0Data := [.string (ascii "|RtmpSampleAccess"), .boolean true, .boolean true]

def accessSampleMessage : RtmpMessage := { envelope 2 accessSampleFields with messageTypeId := 18 }

def accepted : PlayAnswer → Bool
  | .found attached => attached
  | _ => false

def playReplies (env : Surroundings) : PlayAnswer → List RtmpMessage
  | .refused => []
  | .notFound => [statusMessage env "NetStream.Play.StreamNotFound" "not found"]
  | .forbidden => [statusMessage env "NetConnection.Connect.Rejected" "forbidden"]
  | .found _ =>
    [streamBeginMessage 1, statusMessage env "NetStream.Play.Start" "play start ok.", accessSampleMessage]

theorem accessSample_plain : PlainFields accessSampleFields ∧ datasSize accessSampleFields ≤ 800 := by
  have hboolean : Short (.boolean true) := ⟨.boolean true, show 2 ≤ 200 by decide⟩
  exact short_fields (List.forall_mem_cons.mpr ⟨short_string (by decide), List.forall_mem_cons.mpr
    ⟨hboolean, List.forall_mem_singleton.mpr hboolean⟩⟩) (show 3 ≤ 4 by decide)

theorem accessSample_eq : RtmpAccessSampleMessage.encode true true = .ok accessSampleMessage := by
  have h : commandMessage chunkIdProtocolControlMessage 0 accessSampleFields = _ :=
    commandMessage_eq _ zero_le_one accessSample_plain.1
  exact congrArg (· >>= _) h

theorem play_served {msg : RtmpMessage} {transactionId start : BitVec 64}
    (henv : ∀ ps, (env.iterate ps).Perm ps)
    (htext : u.streamAndParams.length ≤ 65535) (h : Connected u.domain app opened s)
    (hmsg : Carries msg (commandFields "play" transactionId [.string u.streamAndParams, .number start])) :
    ∃ s', Asks u app opened s' ∧ s.handleAmf0Command env msg =
      (accepted (env.play s'), saying s' (playReplies env (env.play s'))) := by
  have hplain := (play_plain htext transactionId start).1
  obtain ⟨s', hs'⟩ : ∃ s', s' = s.parsePlayCmd
      ⟨ascii "play", transactionId, u.streamAndParams, some start, none, none⟩ := ⟨_, rfl⟩
  refine ⟨s', ?_, ?_⟩
  · rw [hs', RtmpServerSession.parsePlayCmd, if_pos h.streamName, u.beforeQuestionMark_streamAndParams,
      h.domainName, h.appName]
    exact ⟨rfl, rfl, rfl, rfl, h.params, h.sent, h.answered⟩
  · rw [RtmpServerSession.handleAmf0Command, decode_name hplain hmsg.data]
    simp only
    rw [if_neg (by decide), if_neg (by decide), if_neg (by decide), if_neg (by decide), if_neg (by decide),
      if_pos trivial, RtmpServerSession.handleAmf0PlayCommand, decode_play hplain hmsg.data]
    simp only
    rw [← hs', onStatus_eq henv (by decide), onStatus_eq henv (by decide), onStatus_eq henv (by decide),
      accessSample_eq]
    cases hplay : env.play s' with
    | refused => simp [saying, playReplies, accepted]
    | notFound => rfl
    | forbidden => rfl
    | found attached =>
      have hsend := sendAll_ok s' (playReplies env (.found attached))
      simp only [playReplies, List.map_cons, List.map_nil] at hsend ⊢
      rw [hsend]
      rfl

/-- The session of the server behind the messages of a player. -/
theorem serve_pull (hlen : u.text.length ≤ 65535) (happ : app.length ≤ 65535) (hslash : 47 ∉ app)
    (hiter : ∀ ps, (iterate ps).Perm ps) (henv : ∀ ps, (env.iterate ps).Perm ps)
    (due : ℕ → Option (BitVec 32 × BitVec 32)) {n : BitVec 32} {received : List RtmpMessage}
    (h : List.Forall₂ Handed received (setChunkSizeMessage n :: pullMessages iterate u app)) :
    ∃ s, Asks u app ([1, 2].map fun id ↦ (ascii "_result", doubleOfInt id)) s ∧
      serve (takeUp (acknowledging due) (answering env)) (0, {}) received =
        if accepted (env.play s) then .wait (4, saying s (playReplies env (env.play s))) [] received
        else .halt (.code (-20)) received := by
  obtain ⟨hurl, -, hstream⟩ := text_lengths hlen
  have hidle : Answering [] ({} : RtmpServerSession) := ⟨rfl, rfl, List.forall_mem_nil _, rfl⟩
  obtain _ | ⟨h₀, h⟩ := h
  obtain _ | ⟨h₁, h⟩ := h
  obtain _ | ⟨h₂, h⟩ := h
  obtain _ | ⟨h₃, h⟩ := h
  obtain _ | _ := h
  obtain ⟨s₀, hs₀, htake₀⟩ := control_taken env answering_settled due
    (h₀.control.trans (setChunkSize_control n)) hidle 0
  obtain ⟨t₁, ht₁, htake₁⟩ := command_taken env answering_settled due (carries_of_handed h₁) hs₀ 1
  obtain ⟨s₁, hserved₁, hs₁⟩ := connect_served env henv hiter hurl happ hslash ht₁ (carries_of_handed h₁)
  obtain ⟨t₂, ht₂, htake₂⟩ := command_taken env connected_settled due (carries_of_handed h₂) hs₁ 2
  obtain ⟨s₂, hserved₂, hs₂⟩ := createStream_served env ht₂ (carries_of_handed h₂)
  obtain ⟨t₃, ht₃, htake₃⟩ := command_taken env connected_settled due (carries_of_handed h₃) hs₂ 3
  obtain ⟨s, hs, hserved⟩ := play_served henv hstream ht₃ (carries_of_handed h₃)
  rw [hserved₁] at htake₁
  rw [hserved₂] at htake₂
  rw [hserved] at htake₃
  refine ⟨s, hs, ?_⟩
  rw [serve_taken htake₀, serve_taken htake₁, serve_taken htake₂, serve, htake₃]
  cases accepted (env.play s) <;> simp [Result.emit, serve]

end Server

section Client

variable (onPublish : Bool) (onPacket : RtmpMessage → Bool)

theorem play_passesOver : PassesOver (RtmpPlayClientSession.dispatch onPublish onPacket) := by
  intro c m name ht hname hne
  have hmedia : ¬ (m.messageTypeId = 8 ∨ m.messageTypeId = 9) := by
    rw [ht]
    decide
  rw [RtmpPlayClientSession.dispatch, if_neg hmedia, if_pos ht, RtmpPlayClientSession.handleAmf0Command, hname]
  simp only
  rw [if_neg hne]

theorem attending_status (henv : ∀ ps, (env.iterate ps).Perm ps) {code description : String}
    (hlen : (ascii code).length + (ascii description).length ≤ 100) {m : RtmpMessage}
    (h : Handed m (statusMessage env code description)) (c : RtmpPlayClientSession) :
    attending (RtmpPlayClientSession.dispatch onPublish onPacket) c m =
      if ascii code = ascii "NetStream.Play.Start" then (onPublish, { c with status := .ok })
      else if ascii code = ascii "NetStream.Play.StreamNotFound" then (false, { c with status := .notFound })
      else if ascii code = ascii "NetConnection.Connect.Rejected" then (false, { c with status := .forbidden })
      else (false, c) := by
  have hplain := (statusFields_plain henv code description hlen).1
  have hcarries := carries_of_handed h
  have hmedia : ¬ (m.messageTypeId = 8 ∨ m.messageTypeId = 9) := by
    rw [hcarries.typeId]
    decide
  rw [attending_dispatch hcarries.control, RtmpPlayClientSession.dispatch, if_neg hmedia,
    if_pos hcarries.typeId,     RtmpPlayClientSession.handleAmf0Command, decode_name hplain hcarries.data]
  simp only
  rw [if_pos trivial, RtmpPlayClientSession.handleAmf0StatusCommand, decode_onStatus hplain hcarries.data]
  simp only [getProperty_code henv]

theorem attending_streamBegin {m : RtmpMessage} (h : Handed m (streamBeginMessage 1))
    (c : RtmpPlayClientSession) :
    attending (RtmpPlayClientSession.dispatch onPublish onPacket) c m = (true, c) := by
  rw [attending_dispatch h.control, RtmpPlayClientSession.dispatch, h.typeId]
  rfl

theorem attending_accessSample {m : RtmpMessage} (h : Handed m accessSampleMessage)
    (c : RtmpPlayClientSession) :
    attending (RtmpPlayClientSession.dispatch onPublish onPacket) c m = (true, c) := by
  have hdata : m.usingData = fieldBytes accessSampleFields := h.data
  have ht : m.messageTypeId = 18 := h.typeId
  rw [attending_dispatch h.control, RtmpPlayClientSession.dispatch, ht, if_neg (by decide), if_neg (by decide),
    if_pos rfl, RtmpPlayClientSession.handleAmf0Data, decode_name accessSample_plain.1 hdata]
  simp only
  rw [if_neg (by decide)]

def stateAfter {σ : Type} (f : σ → RtmpMessage → Bool × σ) (c : σ) (msgs : List RtmpMessage) : σ :=
  msgs.foldl (fun c m ↦ (f c m).2) c

theorem stateAfter_answers {σ : Type} {dispatch : σ → RtmpMessage → Bool × σ} (hpass : PassesOver dispatch)
    {received msgs : List RtmpMessage} (h : List.Forall₂ Handed received msgs)
    (hm : ∀ m ∈ msgs, Answer m) (c : σ)
    (rest : List RtmpMessage) :
    stateAfter (attending dispatch) c (received ++ rest) = stateAfter (attending dispatch) c rest := by
  induction h with
  | nil => rfl
  | @cons m m' ms ms' hfirst _ ih =>
    have htaken := attending_answer hpass hfirst (hm m' (List.mem_cons_self ..)) c
    rw [List.cons_append, stateAfter, List.foldl_cons, htaken]
    exact ih fun a ha ↦ hm a (List.mem_cons_of_mem m' ha)

def statusOf : PlayAnswer → SourceStatus
  | .refused => .init
  | .notFound => .notFound
  | .forbidden => .forbidden
  | .found _ => .ok

def goesOn (onPublish : Bool) : PlayAnswer → Bool
  | .refused => true
  | .notFound => false
  | .forbidden => false
  | .found _ => onPublish

/-- The client ends with this status, having refused the message that told it or gone on. -/
def Learns (f : RtmpPlayClientSession → RtmpMessage → Bool × RtmpPlayClientSession) (on : Bool)
    (status : SourceStatus) (received : List RtmpMessage) : Prop :=
  ∃ out, serve f {} received = (if on then .wait ⟨status⟩ [] out else .halt (.code (-20)) out) ∧
    (stateAfter f {} out).status = status

variable {onPublish onPacket}

theorem Learns.cons {f : RtmpPlayClientSession → RtmpMessage → Bool × RtmpPlayClientSession} {on : Bool}
    {status : SourceStatus} {m : RtmpMessage} {ms : List RtmpMessage} (hm : f {} m = (true, {}))
    (h : Learns f on status ms) : Learns f on status (m :: ms) := by
  obtain ⟨out, hserve, hstate⟩ := h
  refine ⟨m :: out, ?_, ?_⟩
  · rw [serve_taken hm, hserve]
    cases on <;> rfl
  · rw [stateAfter, List.foldl_cons, hm]
    exact hstate

/-- The message that tells the status is the last but for those that make no difference. -/
theorem Learns.told {f : RtmpPlayClientSession → RtmpMessage → Bool × RtmpPlayClientSession} {on : Bool}
    {status : SourceStatus} {m : RtmpMessage} {ms : List RtmpMessage} (hm : f {} m = (on, ⟨status⟩))
    (hms : ∀ m' ∈ ms, f ⟨status⟩ m' = (true, ⟨status⟩)) : Learns f on status (m :: ms) := by
  cases on with
  | false =>
    refine ⟨[m], ?_, ?_⟩
    · rw [serve, hm]
      rfl
    · rw [stateAfter, List.foldl_cons, hm]
      rfl
  | true =>
    have hrest : serve f ⟨status⟩ ms = .wait ⟨status⟩ [] ms ∧ stateAfter f ⟨status⟩ ms = ⟨status⟩ := by
      induction ms with
      | nil => exact ⟨rfl, rfl⟩
      | cons m' ms ih =>
        have hm' := hms m' (List.mem_cons_self ..)
        obtain ⟨hserve, hstate⟩ := ih fun a ha ↦ hms a (List.mem_cons_of_mem m' ha)
        refine ⟨?_, ?_⟩
        · rw [serve_taken hm', hserve]
          rfl
        · rw [stateAfter, List.foldl_cons, hm']
          exact hstate
    refine ⟨m :: ms, ?_, ?_⟩
    · rw [serve_taken hm, hrest.1]
      rfl
    · rw [stateAfter, List.foldl_cons, hm]
      exact congrArg RtmpPlayClientSession.status hrest.2

theorem Learns.answers {dispatch : RtmpPlayClientSession → RtmpMessage → Bool × RtmpPlayClientSession}
    (hpass : PassesOver dispatch) {on : Bool} {status : SourceStatus} {received msgs rest : List RtmpMessage}
    (hreceived : List.Forall₂ Handed received msgs) (hm : ∀ m ∈ msgs, Answer m)
    (h : Learns (attending dispatch) on status rest) :
    Learns (attending dispatch) on status (received ++ rest) := by
  obtain ⟨out, hserve, hstate⟩ := h
  refine ⟨received ++ out, ?_, ?_⟩
  · rw [serve_answers hpass hreceived hm, hserve]
    cases on <;> rfl
  · rw [stateAfter_answers hpass hreceived hm]
    exact hstate

theorem learns_replies (henv : ∀ ps, (env.iterate ps).Perm ps) (answer : PlayAnswer)
    {received : List RtmpMessage}
    (h : List.Forall₂ Handed received (playReplies env answer)) :
    Learns (attending (RtmpPlayClientSession.dispatch onPublish onPacket)) (goesOn onPublish answer)
      (statusOf answer)
      received := by
  cases answer with
  | refused =>
    obtain _ | _ := h
    exact ⟨[], rfl, rfl⟩
  | notFound =>
    obtain _ | @⟨m, _, _, _, hm, hnil⟩ := h
    obtain _ | _ := hnil
    have hstatus := attending_status onPublish onPacket henv (by decide) hm {}
    rw [if_neg (by decide), if_pos rfl] at hstatus
    exact .told hstatus (List.forall_mem_nil _)
  | forbidden =>
    obtain _ | @⟨m, _, _, _, hm, hnil⟩ := h
    obtain _ | _ := hnil
    have hstatus := attending_status onPublish onPacket henv (by decide) hm {}
    rw [if_neg (by decide), if_neg (by decide), if_pos rfl] at hstatus
    exact .told hstatus (List.forall_mem_nil _)
  | found attached =>
    obtain _ | ⟨hbegin, h⟩ := h
    obtain _ | @⟨m, _, _, _, hm, h⟩ := h
    obtain _ | ⟨hsample, hnil⟩ := h
    obtain _ | _ := hnil
    have hstatus := attending_status onPublish onPacket henv (by decide) hm {}
    rw [if_pos rfl] at hstatus
    exact .cons (attending_streamBegin onPublish onPacket hbegin {})
      (.told hstatus (List.forall_mem_singleton.mpr
      (attending_accessSample onPublish onPacket hsample ⟨.ok⟩)))

theorem playReplies_deliverable (henv : ∀ ps, (env.iterate ps).Perm ps) (answer : PlayAnswer) :
    ∀ m ∈ playReplies env answer, Deliverable 800 m := by
  cases answer with
  | refused => exact List.forall_mem_nil _
  | notFound => exact List.forall_mem_singleton.mpr (statusMessage_deliverable henv (by decide))
  | forbidden => exact List.forall_mem_singleton.mpr (statusMessage_deliverable henv (by decide))
  | found attached =>
    have hbegin : Deliverable 800 (streamBeginMessage 1) :=
      ⟨⟨show 2 ≤ 2 by decide, show 2 ≤ 65599 by decide, show 0 < 6 by decide, show 6 < 2 ^ 21 by decide⟩,
        fun h ↦ (by cases h), rfl, show 6 ≤ 800 by decide⟩
    have hsample : Deliverable 800 accessSampleMessage := by
      obtain ⟨hplain, hsize⟩ := accessSample_plain
      have hlen : accessSampleMessage.usingData.length = datasSize accessSampleFields :=
        fieldBytes_length hplain.plain
      have hpos : 0 < datasSize accessSampleFields := by decide
      exact ⟨⟨show 2 ≤ 2 by decide, show 2 ≤ 65599 by decide, by omega, by omega⟩,
        fun h ↦ (by cases h), rfl, by omega⟩
    exact List.forall_mem_cons.mpr ⟨hbegin, List.forall_mem_cons.mpr
      ⟨statusMessage_deliverable henv (by decide), List.forall_mem_singleton.mpr hsample⟩⟩

end Client

end MmsServer.Rtmp.PullSession
