import MmsServer.Rtmp.CommandExchange

namespace MmsServer.Rtmp.PushSession

open Function Lib.ByteLayout Lib.ByteReader Lib.Checked Lib.CheckedReading Lib.Incremental Lib.Text Amf0.Data
    Amf0.RoundTrip
open Define ChunkReceiver ChunkSender ControlMessage ChunkRoundTrip ChunkSizeChange Command
open CommandSession CommandSession.RtmpServerSession Http.RequestText Address CommandExchange

def pushMessages (iterate : Properties → Properties) (u : StreamUrl) : List RtmpMessage :=
  [envelope 3 (connectFields iterate (doubleOfInt 1) u.tcUrl u.app),
    envelope 3 (commandFields "releaseStream" (doubleOfInt 2) [.string u.streamAndParams]),
    envelope 3 (commandFields "FCPublish" (doubleOfInt 3) [.string u.streamAndParams]),
    envelope 3 (commandFields "createStream" (doubleOfInt 4) []),
    envelope 3 (commandFields "publish" (doubleOfInt 5) [.string u.streamAndParams, .string (ascii "live")])]

variable {u : StreamUrl} {iterate : Properties → Properties} {env : Surroundings}

theorem publishCommands_text (hlen : u.text.length ≤ 65535) (hiter : ∀ ps, (iterate ps).Perm ps) :
    publishCommands iterate u.text u.app = .ok (pushMessages iterate u) := by
  obtain ⟨hurl, happ, hstream⟩ := text_lengths hlen
  have hconnect : RtmpConnectCommandMessage.encode iterate 1 u.tcUrl [] [] u.app = _ :=
    commandMessage_eq chunkIdCommandMessage le_rfl (connectFields_plain hiter (doubleOfInt 1) hurl happ).1
  have hrelease : RtmpReleaseStreamMessage.encode 2 u.streamAndParams = _ :=
    commandMessage_eq chunkIdCommandMessage zero_le_one (streamCommand_plain _ (by decide) _ hstream)
  have hfcPublish : RtmpFCPublishMessage.encode 3 u.streamAndParams = _ :=
    commandMessage_eq chunkIdCommandMessage zero_le_one (streamCommand_plain _ (by decide) _ hstream)
  have hcreate : RtmpCreateStreamMessage.encode 4 = _ :=
    commandMessage_eq chunkIdCommandMessage le_rfl
      (commandFields_plain "createStream" (by decide) (doubleOfInt 4) .nil (Nat.zero_le _)).1
  have hpublish : RtmpPublishMessage.encode 5 u.streamAndParams (ascii "live") = _ :=
    commandMessage_eq chunkIdCommandMessage zero_le_one (publish_plain hstream (doubleOfInt 5)).1
  simp only [publishCommands, u.splitUrl_text, hconnect, hrelease, hfcPublish, hcreate, hpublish,
    Outcome.ok_bind, Outcome.pure_eq]
  rfl

theorem pushMessages_deliverable (hlen : u.text.length ≤ 65535) (hiter : ∀ ps, (iterate ps).Perm ps) :
    ∀ m ∈ pushMessages iterate u, Deliverable (2 ^ 20 + 200) m := by
  obtain ⟨hurl, happ, hstream⟩ := text_lengths hlen
  obtain ⟨hfields, hsize⟩ := text_plain hstream .nil (Nat.zero_le _)
  have hconnect := connectFields_plain hiter (doubleOfInt 1) hurl happ
  have hrelease := commandFields_plain "releaseStream" (by decide) (doubleOfInt 2) hfields hsize
  have hfcPublish := commandFields_plain "FCPublish" (by decide) (doubleOfInt 3) hfields hsize
  have hcreate := commandFields_plain "createStream" (by decide) (doubleOfInt 4) .nil (Nat.zero_le _)
  have hpublish := publish_plain hstream (doubleOfInt 5)
  exact List.forall_mem_cons.mpr ⟨command_deliverable hconnect,
    List.forall_mem_cons.mpr ⟨command_deliverable hrelease,
    List.forall_mem_cons.mpr ⟨command_deliverable hfcPublish,
    List.forall_mem_cons.mpr ⟨command_deliverable hcreate,
      List.forall_mem_singleton.mpr (command_deliverable hpublish)⟩⟩⟩⟩

def pushAnswers : List (Bytes × BitVec 64) :=
  [1, 2, 3, 4].map fun id ↦ (ascii "_result", doubleOfInt id)

/-- The session of the server behind the messages of a publisher. -/
theorem serve_push (hlen : u.text.length ≤ 65535) (hiter : ∀ ps, (iterate ps).Perm ps)
    (henv : ∀ ps, (env.iterate ps).Perm ps) (due : ℕ → Option (BitVec 32 × BitVec 32)) {n : BitVec 32}
    {received : List RtmpMessage}
    (h : List.Forall₂ Handed received (setChunkSizeMessage n :: pushMessages iterate u)) :
    ∃ s, Publishes u pushAnswers s ∧ serve (takeUp (acknowledging due) (answering env)) (0, {}) received =
      if env.admits s ∧ env.addSource (saying s [startMessage env])
      then .wait (6, saying s [startMessage env]) [] received else .halt (.code (-20)) received := by
  obtain ⟨hurl, happ, hstream⟩ := text_lengths hlen
  have hidle : Answering [] ({} : RtmpServerSession) := ⟨rfl, rfl, List.forall_mem_nil _, rfl⟩
  obtain _ | ⟨h₀, h⟩ := h
  obtain _ | ⟨h₁, h⟩ := h
  obtain _ | ⟨h₂, h⟩ := h
  obtain _ | ⟨h₃, h⟩ := h
  obtain _ | ⟨h₄, h⟩ := h
  obtain _ | ⟨h₅, h⟩ := h
  obtain _ | _ := h
  obtain ⟨s₀, hs₀, htake₀⟩ := control_taken env answering_settled due
    (h₀.control.trans (setChunkSize_control n)) hidle 0
  obtain ⟨t₁, ht₁, htake₁⟩ := command_taken env answering_settled due (carries_of_handed h₁) hs₀ 1
  obtain ⟨s₁, hserved₁, hs₁⟩ := connect_served env henv hiter hurl happ (u.app_without 47 (by decide)) ht₁
    (carries_of_handed h₁)
  obtain ⟨t₂, ht₂, htake₂⟩ := command_taken env connected_settled due (carries_of_handed h₂) hs₁ 2
  obtain ⟨s₂, hserved₂, hs₂⟩ := releaseStream_served env hstream ht₂ (carries_of_handed h₂)
  obtain ⟨t₃, ht₃, htake₃⟩ := command_taken env connected_settled due (carries_of_handed h₃) hs₂ 3
  obtain ⟨s₃, hserved₃, hs₃⟩ := fcPublish_served env hstream ht₃ (carries_of_handed h₃)
  obtain ⟨t₄, ht₄, htake₄⟩ := command_taken env connected_settled due (carries_of_handed h₄) hs₃ 4
  obtain ⟨s₄, hserved₄, hs₄⟩ := createStream_served env ht₄ (carries_of_handed h₄)
  obtain ⟨t₅, ht₅, htake₅⟩ := command_taken env connected_settled due (carries_of_handed h₅) hs₄ 5
  obtain ⟨s, hs, hserved⟩ := publish_served henv hstream ht₅ (carries_of_handed h₅)
  rw [hserved₁] at htake₁
  rw [hserved₂] at htake₂
  rw [hserved₃] at htake₃
  rw [hserved₄] at htake₄
  rw [hserved] at htake₅
  refine ⟨s, hs, ?_⟩
  rw [serve_taken htake₀, serve_taken htake₁, serve_taken htake₂, serve_taken htake₃, serve_taken htake₄,
    serve, htake₅]
  cases hadmits : env.admits s with
  | false => simp [Result.emit]
  | true =>
    cases hadd : env.addSource (saying s [startMessage env]) with
    | false => simp [Result.emit]
    | true => simp [Result.emit, serve]

def answersOf (env : Surroundings) (s : RtmpServerSession) : List RtmpMessage :=
  if env.admits s then s.sent ++ [startMessage env] else s.sent

/-- The session of the publisher behind the server's answers. -/
theorem serve_answersOf (henv : ∀ ps, (env.iterate ps).Perm ps) (sourceAlive : Bool) {s : RtmpServerSession}
    (hs : ∀ m ∈ s.sent, Answer m) {n : BitVec 32} {received : List RtmpMessage}
    (h : List.Forall₂ Handed received (setChunkSizeMessage n :: answersOf env s)) :
    serve (attending (RtmpPublishClientSession.dispatch sourceAlive)) {} received =
      if env.admits s = true ∧ sourceAlive = false then .halt (.code (-20)) received
      else .wait ⟨if env.admits s then 1 else 0⟩ [] received := by
  have hpass := publish_passesOver sourceAlive
  obtain _ | @⟨r, _, rs, _, h₀, h⟩ := h
  have htake : attending (RtmpPublishClientSession.dispatch sourceAlive) {} r = (true, {}) :=
    attending_control (h₀.control.trans (setChunkSize_control n)) _
  rw [serve_taken htake]
  unfold answersOf at h
  cases hadmits : env.admits s with
  | false =>
    simp only [hadmits] at h
    have hserve := serve_answers hpass h hs {} []
    rw [List.append_nil] at hserve
    rw [hserve]
    simp [serve, Result.emit]
  | true =>
    simp only [hadmits, if_true] at h
    obtain ⟨front, m, rfl, hfront, hm⟩ := handed_snoc h
    rw [serve_answers hpass hfront hs {} [m], serve, attending_start henv sourceAlive hm]
    cases sourceAlive with
    | false => simp [Result.emit]
    | true => simp [serve, Result.emit]

theorem answersOf_deliverable (henv : ∀ ps, (env.iterate ps).Perm ps) {s : RtmpServerSession}
    (hs : ∀ m ∈ s.sent, Answer m) : ∀ m ∈ answersOf env s, Deliverable 800 m := by
  intro m hm
  unfold answersOf at hm
  split at hm
  · rcases List.mem_append.mp hm with hm | hm
    · exact (hs m hm).deliverable
    · rw [List.mem_singleton.mp hm]
      exact statusMessage_deliverable henv (by decide)
  · exact (hs m hm).deliverable

end MmsServer.Rtmp.PushSession
