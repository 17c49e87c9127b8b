import MmsServer.Rtmp.ChunkReceiver

namespace MmsServer.Rtmp.ControlMessage

open Function Lib.ByteReader Define ChunkReceiver

variable {α σ : Type}

/-- The control messages carry one big-endian word; a shorter payload is refused. -/
def decodeWord (field : ℕ → α) (msg : RtmpMessage) : Option α :=
  (readBE 4 msg.usingData).map fun r ↦ field r.1

def decodeSetChunkSize : RtmpMessage → Option (BitVec 32) := decodeWord (BitVec.ofNat 32)

def decodeAbort : RtmpMessage → Option ℕ := decodeWord id

def decodeWindowAcknowledgeSize : RtmpMessage → Option ℕ := decodeWord id

def handleSetChunkSize (s : RecvState) (msg : RtmpMessage) : Bool × RecvState :=
  match decodeSetChunkSize msg with
  | none => (false, s)
  | some chunkSize => (true, { s with inChunkSize := chunkSize })

def handleAbort (s : RecvState) (msg : RtmpMessage) : Bool × RecvState :=
  match decodeAbort msg with
  | none => (false, s)
  | some chunkId => (true, { s with recvChunkStreams := update s.recvChunkStreams chunkId none })

def handleWindowAcknowledgeSize (s : RecvState) (msg : RtmpMessage) : Bool × RecvState :=
  match decodeWindowAcknowledgeSize msg with
  | none => (false, s)
  | some size => (true, { s with inWindowAcknowledgeSize := size })

def isProtocolControlMessage (msg : RtmpMessage) : Bool :=
  msg.chunkStreamId == chunkIdProtocolControlMessage && msg.messageStreamId == 0 &&
    (ControlType.ofTypeId msg.messageTypeId).isSome

def handleProtocolControlMessage (s : RecvState) (msg : RtmpMessage) : Bool × RecvState :=
  match ControlType.ofTypeId msg.messageTypeId with
  | some .setChunkSize => handleSetChunkSize s msg
  | some .abortMessage => handleAbort s msg
  | some .windowAckSize => handleWindowAcknowledgeSize s msg
  | _ => (true, s)

/-- `on_recv_rtmp_message`, the handler that the server and client sessions
install. Sending an acknowledgement and dispatching the media and command
messages are up to the session. -/
def onRecvRtmpMessage (sendAck : σ → Bool × σ) (dispatch : σ → RtmpMessage → Bool × σ) :
    Handler σ :=
  fun app s msg ↦
    match sendAck app with
    | (false, app) => (false, app, s)
    | (true, app) =>
      if isProtocolControlMessage msg then
        let (ok, s) := handleProtocolControlMessage s msg
        (ok, app, s)
      else
        let (ok, app) := dispatch app msg
        (ok, app, s)

theorem control_streams (s : RecvState) (msg : RtmpMessage) (csid : ℕ) :
    (handleProtocolControlMessage s msg).2.recvChunkStreams csid = s.recvChunkStreams csid ∨
      (handleProtocolControlMessage s msg).2.recvChunkStreams csid = none := by
  unfold handleProtocolControlMessage
  split
  · unfold handleSetChunkSize
    split <;> exact Or.inl rfl
  · unfold handleAbort
    split
    · exact Or.inl rfl
    · rename_i chunkId _
      by_cases hc : csid = chunkId
      · exact Or.inr (by rw [hc]; exact update_self ..)
      · exact Or.inl (update_of_ne hc ..)
  · unfold handleWindowAcknowledgeSize
    split <;> exact Or.inl rfl
  · exact Or.inl rfl

theorem handler_streams (sendAck : σ → Bool × σ) (dispatch : σ → RtmpMessage → Bool × σ) (app : σ)
    (s : RecvState) (msg : RtmpMessage) (csid : ℕ) :
    (onRecvRtmpMessage sendAck dispatch app s msg).2.2.recvChunkStreams csid =
    s.recvChunkStreams csid ∨
      (onRecvRtmpMessage sendAck dispatch app s msg).2.2.recvChunkStreams csid = none := by
  unfold onRecvRtmpMessage
  split
  · exact Or.inl rfl
  · split
    · exact control_streams s msg csid
    · exact Or.inl rfl

end MmsServer.Rtmp.ControlMessage
