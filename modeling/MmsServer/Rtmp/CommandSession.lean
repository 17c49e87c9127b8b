import MmsServer.Http.RequestText
import MmsServer.Rtmp.Command

namespace MmsServer.Rtmp.CommandSession

open Lib.ByteReader Lib.Checked Lib.CheckedReading Lib.Find Lib.Text Amf0.Data Define Command
open Http.RequestText

def setParams (params : Fields) (text : Bytes) : Fields := (text.splitOn 38).foldl parseQueryParam params

section Url

/-- The results of `Utils::parse_url`. The port of a protocol that the routine does not
know is left as it was. -/
structure ParsedUrl where
  protocol : Bytes
  domain : Bytes
  port : Option (BitVec 16)
  path : Bytes := []
  params : Fields := fun _ ↦ none

def defaultPort (protocol : Bytes) : Option (BitVec 16) :=
  if protocol = ascii "http" then some 80
  else if protocol = ascii "rtmp" then some 1935
  else if protocol = ascii "https" then some 443
  else if protocol = ascii "rtmps" then some 1936
  else none

/-- Behind the last colon there may be a port, and before the first one is the domain. -/
def parseHost (protocol host : Bytes) : Bytes × Option (BitVec 16) :=
  match findLast 58 host with
  | none => (host, defaultPort protocol)
  | some _ =>
    let parts := host.splitOn 58
    (parts.headD [], some (BitVec.ofInt 16 (atoi (parts.getD 1 []))))

def parseUrl (url : Bytes) : Option ParsedUrl :=
  let parts := url.splitOn 63
  match (parts.headD []).splitOn 47 with
  | tmp1 :: [] :: host :: dirs =>
    match findLast 58 tmp1 with
    | none => none
    | some pos =>
      let protocol := tmp1.take pos
      let (domain, port) := parseHost protocol host
      let path := if dirs = [] then [] else 47 :: List.intercalate [47] dirs
      let params := match parts with
        | _ :: text :: _ => setParams (fun _ ↦ none) text
        | _ => fun _ ↦ none
      some { protocol, domain, port, path, params }
  | _ => none

def splitUrl (url : Bytes) : Bytes × Bytes :=
  match findLast 47 url with
  | none => (url, url)
  | some slashPos => (url.take slashPos, url.drop (slashPos + 1))

end Url

section Clients

-- the order in which an `unordered_map` is iterated
variable (iterate : Properties → Properties)

structure SessionInfo where
  domainName : Bytes
  appName : Bytes
  streamName : Bytes
deriving DecidableEq

def SessionInfo.sessionName (i : SessionInfo) : Bytes :=
  i.domainName ++ 47 :: (i.appName ++ 47 :: i.streamName)

/-- The session that `RtmpPublishClientSession::start` makes of its URL, without a value
where it gives up before it connects. -/
def publishInfo (url : Bytes) : Option SessionInfo :=
  match parseUrl url with
  | none => none
  | some u =>
    if u.protocol = ascii "rtmp" ∨ u.protocol = ascii "rtmps" then
      match u.path.splitOn 47 with
      | _ :: app :: stream :: _ => some ⟨u.domain, app, stream⟩
      | _ => none
    else none

/-- The commands of `RtmpPublishClientSession::start`, all sent without waiting for an answer. -/
def publishCommands (url appName : Bytes) : Outcome (List RtmpMessage) := do
  let (tcUrl, streamAndParams) := splitUrl url
  let connect ← RtmpConnectCommandMessage.encode iterate 1 tcUrl [] [] appName
  let releaseStream ← RtmpReleaseStreamMessage.encode 2 streamAndParams
  let fcPublish ← RtmpFCPublishMessage.encode 3 streamAndParams
  let createStream ← RtmpCreateStreamMessage.encode 4
  let publish ← RtmpPublishMessage.encode 5 streamAndParams (ascii "live")
  return [connect, releaseStream, fcPublish, createStream, publish]

/-- The commands of `RtmpPlayClientSession::start`, whose application is the one that the
session has been made for. -/
def playCommands (url appName : Bytes) : Outcome (List RtmpMessage) := do
  let (tcUrl, streamAndParams) := splitUrl url
  let connect ← RtmpConnectCommandMessage.encode iterate 1 tcUrl [] [] appName
  let createStream ← RtmpCreateStreamMessage.encode 2
  let play ← RtmpPlayMessage.encode 3 streamAndParams
  return [connect, createStream, play]

/-- How often `RtmpPublishClientSession` has added its sink to the source. -/
structure RtmpPublishClientSession where
  added : ℕ := 0
deriving DecidableEq

variable (sourceAlive : Bool)

def RtmpPublishClientSession.handleAmf0StatusCommand (s : RtmpPublishClientSession) (msg : RtmpMessage) :
    Bool × RtmpPublishClientSession :=
  match decodeMessage RtmpOnStatusMessage.decode msg with
  | .ok command =>
    match getProperty amf0String command.info (ascii "code") with
    | none => (false, s)
    | some code =>
      if code ≠ ascii "NetStream.Publish.Start" then (false, s)
      else if sourceAlive then (true, { s with added := s.added + 1 })
      else (false, s)
  | _ => (false, s)

/-- A message whose name cannot be read ends the session, also where reading it faults. -/
def RtmpPublishClientSession.handleAmf0Command (s : RtmpPublishClientSession) (msg : RtmpMessage) :
    Bool × RtmpPublishClientSession :=
  match decodeMessage (field 0 amf0String (-1)) msg with
  | .ok name => if name = ascii "onStatus" then s.handleAmf0StatusCommand sourceAlive msg else (true, s)
  | _ => (false, s)

/-- `on_recv_rtmp_message` behind the acknowledgement and the protocol control messages. -/
def RtmpPublishClientSession.dispatch (s : RtmpPublishClientSession) (msg : RtmpMessage) :
    Bool × RtmpPublishClientSession :=
  if msg.messageTypeId = messageTypeAmf0Command then s.handleAmf0Command sourceAlive msg else (true, s)

inductive SourceStatus
  | init
  | ok
  | gone
  | unauthorized
  | forbidden
  | notFound
  | timeout
  | connFail
deriving DecidableEq

/-- What `RtmpPlayClientSession` tells the readers of its source. -/
structure RtmpPlayClientSession where
  status : SourceStatus := .init
deriving DecidableEq

-- the answer of `on_publish`, and the source's answers to media and metadata
variable (onPublish : Bool) (onPacket : RtmpMessage → Bool)

def RtmpPlayClientSession.handleAmf0StatusCommand (s : RtmpPlayClientSession) (msg : RtmpMessage) :
    Bool × RtmpPlayClientSession :=
  match decodeMessage RtmpOnStatusMessage.decode msg with
  | .ok command =>
    match getProperty amf0String command.info (ascii "code") with
    | none => (false, s)
    | some code =>
      if code = ascii "NetStream.Play.Start" then (onPublish, { s with status := .ok })
      else if code = ascii "NetStream.Play.StreamNotFound" then (false, { s with status := .notFound })
      else if code = ascii "NetConnection.Connect.Rejected" then (false, { s with status := .forbidden })
      else (false, s)
  | _ => (false, s)

def RtmpPlayClientSession.handleAmf0Command (s : RtmpPlayClientSession) (msg : RtmpMessage) :
    Bool × RtmpPlayClientSession :=
  match decodeMessage (field 0 amf0String (-1)) msg with
  | .ok name => if name = ascii "onStatus" then s.handleAmf0StatusCommand onPublish msg else (true, s)
  | _ => (false, s)

def RtmpPlayClientSession.handleAmf0Data (s : RtmpPlayClientSession) (msg : RtmpMessage) :
    Bool × RtmpPlayClientSession :=
  match decodeMessage (field 0 amf0String (-1)) msg with
  | .ok name =>
    if name = ascii "onMetaData" ∨ name = ascii "@setDataFrame" then (onPacket msg, s) else (true, s)
  | _ => (false, s)

/-- `on_recv_rtmp_message` behind the acknowledgement and the protocol control messages. -/
def RtmpPlayClientSession.dispatch (s : RtmpPlayClientSession) (msg : RtmpMessage) :
    Bool × RtmpPlayClientSession :=
  if msg.messageTypeId = 8 ∨ msg.messageTypeId = 9 then (onPacket msg, s)
  else if msg.messageTypeId = messageTypeAmf0Command then s.handleAmf0Command onPublish msg
  else if msg.messageTypeId = 18 then s.handleAmf0Data onPacket msg
  else (true, s)

end Clients

section Server

/-- The session's own names and parameters, and the messages it has handed to its send coroutine. -/
structure RtmpServerSession where
  domainName : Bytes := []
  appName : Bytes := []
  streamName : Bytes := []
  sessionName : Bytes := []
  params : Fields := fun _ ↦ none
  sent : List RtmpMessage := []

/-- What a player's request for its stream comes to. -/
inductive PlayAnswer
  | refused
  | notFound
  | forbidden
  | found (attached : Bool)

/-- The answers that the session gets from the rest of the server. -/
structure Surroundings where
  -- the order in which an `unordered_map` is iterated
  iterate : Properties → Properties
  -- from `find_and_set_app` to the callback, for a publisher
  admits : RtmpServerSession → Bool
  addSource : RtmpServerSession → Bool
  play : RtmpServerSession → PlayAnswer
  handleMedia : RtmpServerSession → RtmpMessage → Bool

namespace RtmpServerSession

/-- The messages one after the other, as far as they can be encoded. -/
def sendAll (s : RtmpServerSession) : List (Outcome RtmpMessage) → Bool × RtmpServerSession
  | [] => (true, s)
  | .ok m :: ms => { s with sent := s.sent ++ [m] }.sendAll ms
  | _ => (false, s)

/-- Where an acknowledgement is due, the bytes that the connection has received and the
memory behind the message. -/
def sendAcknowledgeMsgIfRequired (s : RtmpServerSession) (due : Option (BitVec 32 × BitVec 32)) :
    Bool × RtmpServerSession :=
  s.sendAll (due.toList.map fun p ↦ .ok (acknowledgeMessage p.1 p.2))

def parseDomain (tcUrl : Bytes) : Option Bytes :=
  match tcUrl.splitOn 47 with
  | protocol :: [] :: domainName :: _ =>
    if protocol ≠ ascii "rtmp:" ∧ protocol ≠ ascii "rtmps:" then none
    else if 58 ∈ domainName then some ((domainName.splitOn 58).headD []) else some domainName
  | _ => none

def beforeQuestionMark (streamName : Bytes) : Bytes :=
  match find (ascii "?") streamName with
  | none => streamName
  | some qmarkPos => streamName.take qmarkPos

def paramsBehind (params : Fields) (text : Bytes) : Fields :=
  match find (ascii "?") text with
  | none => params
  | some pos => setParams params (text.drop (pos + 1))

def parseConnectCmd (s : RtmpServerSession) (c : RtmpConnectCommandMessage) : Option RtmpServerSession :=
  (parseDomain c.tcUrl).map fun domainName ↦
    let parts := c.app.splitOn 47
    { s with
      domainName
      appName := parts.headD []
      streamName := match parts with
        | _ :: streamName :: _ => beforeQuestionMark streamName
        | _ => s.streamName
      params := paramsBehind s.params c.tcUrl }

def setSessionInfo (s : RtmpServerSession) (i : SessionInfo) : RtmpServerSession :=
  { s with
    domainName := i.domainName
    appName := i.appName
    streamName := i.streamName
    sessionName := i.sessionName }

/-- A name that the connect command has brought is kept. -/
def parsePublishCmd (s : RtmpServerSession) (c : RtmpPublishMessage) : RtmpServerSession :=
  if s.streamName = [] then
    { s with params := paramsBehind s.params c.streamName }.setSessionInfo
      ⟨s.domainName, s.appName, beforeQuestionMark c.streamName⟩
  else s.setSessionInfo ⟨s.domainName, s.appName, s.streamName⟩

def parsePlayCmd (s : RtmpServerSession) (c : RtmpPlayMessage) : RtmpServerSession :=
  s.setSessionInfo ⟨s.domainName, s.appName,
    if s.streamName = [] then beforeQuestionMark c.streamName else s.streamName⟩

variable (env : Surroundings)

def statusInfo (code description : String) : Properties :=
  stringProperties [("level", ascii "status"), ("code", ascii code),
    ("description", ascii description), ("clientid", ascii "mms")]

def onStatus (code description : String) : Outcome RtmpMessage :=
  RtmpOnStatusMessage.encode env.iterate { info := statusInfo code description }

def windowAckSize : BitVec 32 := 5 * 1024 * 1024

def limitTypeDynamic : UInt8 := 2

def connectProps : Properties :=
  [(ascii "fmsVer", .string (ascii "FMS/3,0,1,123")), (ascii "capabilities", .number (doubleOfInt 31))]

def connectInfo (c : RtmpConnectCommandMessage) : Properties :=
  [(ascii "level", .string (ascii "status")), (ascii "code", .string (ascii "NetConnection.Connect.Success")),
    (ascii "description", .string (ascii "Connection succeed.")),
    (ascii "objEncoding", .number c.objectEncoding)]

def handleAmf0ConnectCommand (s : RtmpServerSession) (msg : RtmpMessage) : Bool × RtmpServerSession :=
  match decodeMessage RtmpConnectCommandMessage.decode msg with
  | .ok c =>
    match s.parseConnectCmd c with
    | none => (false, s)
    | some s => s.sendAll [
        .ok (windowAckSizeMessage windowAckSize),
        .ok (setPeerBandwidthMessage 800000000 limitTypeDynamic),
        RtmpConnectRespMessage.encode env.iterate (ascii "_result") c.transactionId connectProps (connectInfo c)]
  | _ => (false, s)

def handleAmf0ReleaseStreamCommand (s : RtmpServerSession) (msg : RtmpMessage) : Bool × RtmpServerSession :=
  match decodeMessage RtmpReleaseStreamMessage.decode msg with
  | .ok c => s.sendAll [RtmpReleaseStreamRespMessage.encode (ascii "_result") c.transactionId]
  | _ => (false, s)

def handleAmf0FcpublishCommand (s : RtmpServerSession) (msg : RtmpMessage) : Bool × RtmpServerSession :=
  match decodeMessage RtmpFCPublishMessage.decode msg with
  | .ok c => s.sendAll [RtmpReleaseStreamRespMessage.encode (ascii "_result") c.transactionId]
  | _ => (false, s)

def handleAmf0CreatestreamCommand (s : RtmpServerSession) (msg : RtmpMessage) : Bool × RtmpServerSession :=
  match decodeMessage RtmpCreateStreamMessage.decode msg with
  | .ok c => s.sendAll [RtmpCreateStreamRespMessage.encode (ascii "_result") c.transactionId]
  | _ => (false, s)

/-- The status goes out before the source is registered. -/
def handleAmf0PublishCommand (s : RtmpServerSession) (msg : RtmpMessage) : Bool × RtmpServerSession :=
  match decodeMessage RtmpPublishMessage.decode msg with
  | .ok c =>
    let s := s.parsePublishCmd c
    if env.admits s then
      match s.sendAll [onStatus env "NetStream.Publish.Start" "publish start ok."] with
      | (false, s) => (false, s)
      | (true, s) => (env.addSource s, s)
    else (false, s)
  | _ => (false, s)

def handleAmf0PlayCommand (s : RtmpServerSession) (msg : RtmpMessage) : Bool × RtmpServerSession :=
  match decodeMessage RtmpPlayMessage.decode msg with
  | .ok c =>
    let s := s.parsePlayCmd c
    match env.play s with
    | .refused => (false, s)
    | .notFound => (false, (s.sendAll [onStatus env "NetStream.Play.StreamNotFound" "not found"]).2)
    | .forbidden => (false, (s.sendAll [onStatus env "NetConnection.Connect.Rejected" "forbidden"]).2)
    | .found attached =>
      match s.sendAll [.ok (streamBeginMessage 1), onStatus env "NetStream.Play.Start" "play start ok.",
        RtmpAccessSampleMessage.encode true true] with
      | (false, s) => (false, s)
      | (true, s) => (attached, s)
  | _ => (false, s)

def handleAmf0Command (s : RtmpServerSession) (msg : RtmpMessage) : Bool × RtmpServerSession :=
  match decodeMessage (field 0 amf0String (-1)) msg with
  | .ok name =>
    if name = ascii "connect" then s.handleAmf0ConnectCommand env msg
    else if name = ascii "releaseStream" then s.handleAmf0ReleaseStreamCommand msg
    else if name = ascii "FCPublish" then s.handleAmf0FcpublishCommand msg
    else if name = ascii "createStream" then s.handleAmf0CreatestreamCommand msg
    else if name = ascii "publish" then s.handleAmf0PublishCommand env msg
    else if name = ascii "play" then s.handleAmf0PlayCommand env msg
    else (!name.isEmpty, s)
  | _ => (false, s)

/-- `on_recv_rtmp_message` behind the acknowledgement and the protocol control messages. -/
def dispatch (s : RtmpServerSession) (msg : RtmpMessage) : Bool × RtmpServerSession :=
  if msg.messageTypeId = 18 ∨ msg.messageTypeId = 8 ∨ msg.messageTypeId = 9 then (env.handleMedia s msg, s)
  else if msg.messageTypeId = messageTypeAmf0Command then s.handleAmf0Command env msg
  else (true, s)

end RtmpServerSession

end Server

end MmsServer.Rtmp.CommandSession
