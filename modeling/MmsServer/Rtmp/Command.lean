import MmsServer.Amf0.RoundTrip
import MmsServer.Lib.CheckedReading
import MmsServer.Lib.Text
import MmsServer.Rtmp.Define

namespace MmsServer.Rtmp.Command

open Lib.ByteReader Lib.Checked Lib.CheckedReading Lib.ByteLayout Lib.Text Amf0.Data Amf0.RoundTrip Define

section Fields

structure Amf0Class (α : Type) where
  type : Amf0Type
  make : α → Amf0Data
  value : Amf0Data → Option α
  type_make : ∀ a, (make a).getType = type
  value_make : ∀ a, value (make a) = some a

def amf0Number : Amf0Class (BitVec 64) where
  type := .number
  make := .number
  value
    | .number v => some v
    | _ => none
  type_make _ := rfl
  value_make _ := rfl

def amf0Boolean : Amf0Class Bool where
  type := .boolean
  make := .boolean
  value
    | .boolean v => some v
    | _ => none
  type_make _ := rfl
  value_make _ := rfl

def amf0String : Amf0Class Bytes where
  type := .string
  make := .string
  value
    | .string v => some v
    | _ => none
  type_make _ := rfl
  value_make _ := rfl

abbrev Properties := List (Bytes × Amf0Data)

def amf0Object : Amf0Class Properties where
  type := .object
  make := .object
  value
    | .object properties => some properties
    | _ => none
  type_make _ := rfl
  value_make _ := rfl

def amf0Null : Amf0Class Unit where
  type := .null
  make _ := .null
  value
    | .null => some ()
    | _ => none
  type_make _ := rfl
  value_make _ := rfl

variable {α β : Type}

/-- `Amf0Object::get_property`, which answers values of its class only. -/
def getProperty (c : Amf0Class α) (properties : Properties) (key : Bytes) : Option α :=
  (properties.find? fun p ↦ p.1 = key).bind fun p ↦ c.value p.2

/-- Decode a field and go on behind it. A number of consumed bytes below `least`
makes the command leave with `code`. -/
def field (least : ℤ) (c : Amf0Class α) (code : ℤ) : CheckedReader α := fun payload ↦
  match decode c.type payload with
  | .err _ => .err code
  | .fault f => .fault f
  | .ok (v, consumed) =>
    if consumed.toInt < least then .err code
    else match c.value v with
      | none => .err code
      | some a => .ok (a, payload.drop consumed.toNat)

/-- A field that a command takes only from a payload that has not ended. -/
def optionalField (c : Amf0Class α) (code : ℤ) : CheckedReader (Option α) := fun payload ↦
  if payload.length = 0 then .ok (none, payload) else (some <$> field 0 c code) payload

def orElse (r r' : CheckedReader α) : CheckedReader α := fun payload ↦
  match r payload with
  | .err _ => r' payload
  | o => o

/-- The fields of a command into a packet of their size. The source returns a null
pointer where this leaves. -/
def encodeFields (least : ℤ) : List Amf0Data → Bytes → Outcome Bytes
  | [], left => .ok left
  | v :: vs, left =>
    match v.encode left with
    | .err code => .err code
    | .fault f => .fault f
    | .ok (consumed, left) =>
      if consumed.toInt < least then .err consumed.toInt
      else do
        let rest ← encodeFields least vs (left.drop consumed.toNat)
        return left.take consumed.toNat ++ rest

def fieldBytes (vs : List Amf0Data) : Bytes := (datasLayout vs).fill (List.replicate (datasSize vs) 0)

structure PlainFields (vs : List Amf0Data) : Prop where
  plain : ∀ v ∈ vs, Plain v
  size_lt : datasSize vs < 2 ^ 31

theorem size_pos {v : Amf0Data} (h : Plain v) : 0 < v.size := by
  cases h <;> rw [Amf0Data.size] <;> omega

theorem string_size (value : Bytes) : (Amf0Data.string value).size = value.length + 3 := by
  rw [Amf0Data.size]
  omega

theorem number_size (value : BitVec 64) : (Amf0Data.number value).size = 9 := rfl

theorem PlainFields.nil : PlainFields [] := ⟨List.forall_mem_nil _, by decide⟩

theorem PlainFields.cons {v : Amf0Data} {vs : List Amf0Data} (hv : Plain v) (h : PlainFields vs)
    (hs : v.size + datasSize vs < 2 ^ 31) : PlainFields (v :: vs) :=
  ⟨List.forall_mem_cons.mpr ⟨hv, h.plain⟩, by rwa [datasSize]⟩

theorem datasLayout_size {vs : List Amf0Data} (h : ∀ v ∈ vs, Plain v) :
    (datasLayout vs).size = datasSize vs := by
  induction vs with
  | nil => rfl
  | cons v vs ih =>
    rw [datasLayout, Layout.size_seq, datasSize, (h v (List.mem_cons_self ..)).size_eq,
      ih fun v' hv' ↦ h v' (List.mem_cons_of_mem v hv')]

theorem encodeFields_fills {least : ℤ} (hleast : least ≤ 1) {vs : List Amf0Data} (h : PlainFields vs)
    {buf : Bytes} (hb : datasSize vs ≤ buf.length) :
    encodeFields least vs buf = .ok ((datasLayout vs).fill buf ++ buf.drop (datasSize vs)) := by
  induction vs generalizing buf with
  | nil => rfl
  | cons v vs ih =>
    obtain ⟨hplain, hs⟩ := h
    have hv := hplain v (List.mem_cons_self ..)
    have hpos := size_pos hv
    have hsize := hv.size_eq
    rw [datasSize] at hs hb ⊢
    have hlen : ((layoutOf v).fill buf).length = v.size := by
      rw [Layout.fill_length _ (by omega), hsize]
    have hfit : datasSize vs ≤ (buf.drop v.size).length := by
      rw [List.length_drop]
      omega
    have hrest := ih ⟨fun v' hv' ↦ hplain v' (List.mem_cons_of_mem v hv'), by omega⟩ hfit
    rw [encodeFields, encode_encodes v buf (by omega) (by omega)]
    simp only [hsize, int32_toInt (show v.size < 2 ^ 31 by omega),
      int32_toNat (show v.size < 2 ^ 31 by omega)]
    rw [if_neg (by omega), List.drop_left' hlen, List.take_left' hlen, hrest, datasLayout]
    simp only [Outcome.ok_bind, Outcome.pure_eq, Layout.fill, hsize, List.append_assoc, List.drop_drop]

/-- The fields fill the packet that is made for them. -/
theorem encodeFields_eq {least : ℤ} (hleast : least ≤ 1) {vs : List Amf0Data} (h : PlainFields vs) :
    encodeFields least vs (List.replicate (datasSize vs) 0) = .ok (fieldBytes vs) := by
  have hlen : (List.replicate (datasSize vs) (0 : UInt8)).length = datasSize vs := List.length_replicate
  rw [encodeFields_fills hleast h hlen.ge, List.drop_of_length_le hlen.le, List.append_nil]
  rfl

theorem fieldBytes_length {vs : List Amf0Data} (h : ∀ v ∈ vs, Plain v) :
    (fieldBytes vs).length = datasSize vs := by
  have hsize := datasLayout_size h
  rw [fieldBytes, Layout.fill_length _ (by rw [List.length_replicate, hsize]), hsize]

theorem gives_field {least : ℤ} (hleast : least ≤ 1) (c : Amf0Class α) (code : ℤ) {a : α}
    (h : Plain (c.make a)) (hs : (c.make a).size < 2 ^ 31) {old : Bytes}
    (hold : (c.make a).size ≤ old.length) :
    Gives (field least c code) ((layoutOf (c.make a)).fill old) a := by
  intro rest
  have hpos := size_pos h
  have hsize := h.size_eq
  have hlen : ((layoutOf (c.make a)).fill old).length = (c.make a).size := by
    rw [Layout.fill_length _ (by omega), hsize]
  have hdec : decode c.type ((layoutOf (c.make a)).fill old ++ rest) =
      .ok (c.make a, int32 (c.make a).size) := by
    have hdepth : (c.make a).size < ((layoutOf (c.make a)).fill old ++ rest).length + 1 := by
      rw [List.length_append]
      omega
    have hd := (h.decodesFrom hdepth hs hold).decode rest
    rwa [c.type_make, hlen] at hd
  rw [field, hdec]
  simp only [int32_toInt hs, int32_toNat hs, c.value_make]
  rw [if_neg (by omega), List.drop_left' hlen]

theorem PlainFields.tail {v : Amf0Data} {vs : List Amf0Data} (h : PlainFields (v :: vs)) :
    PlainFields vs :=
  ⟨fun v' hv' ↦ h.plain v' (List.mem_cons_of_mem v hv'), by
    have hs := h.size_lt
    rw [datasSize] at hs
    omega⟩

def decodeMessage (decode : CheckedReader α) (msg : RtmpMessage) : Outcome α := do
  let (command, _) ← decode msg.usingData
  return command

/-- From a packet of these fields the reader makes `a`. -/
def Gets (r : CheckedReader α) (vs : List Amf0Data) (a : α) : Prop :=
  ∀ old, datasSize vs ≤ old.length → r ((datasLayout vs).fill old) = .ok (a, [])

theorem Gets.pure (a : α) : Gets (Pure.pure a) [] a := fun _ _ ↦ rfl

section Bind

variable {a : α} {b : β} {vs : List Amf0Data} {code : ℤ}

theorem Gets.cons {least : ℤ} (hleast : least ≤ 1) (c : Amf0Class α) (h : PlainFields (c.make a :: vs))
    {k : α → CheckedReader β} (hk : Gets (k a) vs b) : Gets (field least c code >>= k) (c.make a :: vs) b := by
  intro old hold
  have hs := h.size_lt
  rw [datasSize] at hs hold
  have hv := h.plain _ (List.mem_cons_self ..)
  have hg := gives_field hleast c code hv (by omega) (show (c.make a).size ≤ old.length by omega)
  rw [datasLayout, Layout.fill, hv.size_eq, hg.bind_apply k]
  exact hk _ (by rw [List.length_drop]; omega)

theorem Gets.null {least : ℤ} (hleast : least ≤ 1) (h : PlainFields (.null :: vs))
    {k : Unit → CheckedReader β} (hk : Gets (k ()) vs b) :
    Gets (field least amf0Null code >>= k) (.null :: vs) b :=
  Gets.cons hleast amf0Null (a := ()) h hk

theorem Gets.absent {c : Amf0Class α} {k : Option α → CheckedReader β} (hk : Gets (k none) [] b) :
    Gets (optionalField c code >>= k) [] b := fun old hold ↦ hk old hold

theorem Gets.present (c : Amf0Class α) (h : PlainFields (c.make a :: vs))
    {k : Option α → CheckedReader β} (hk : Gets (k (some a)) vs b) :
    Gets (optionalField c code >>= k) (c.make a :: vs) b := by
  intro old hold
  have hs := h.size_lt
  rw [datasSize] at hs hold
  have hv := h.plain _ (List.mem_cons_self ..)
  have hpos := size_pos hv
  have hlen : ((layoutOf (c.make a)).fill old).length = (c.make a).size := by
    rw [Layout.fill_length _ (by rw [hv.size_eq]; omega), hv.size_eq]
  have hg := (gives_field zero_le_one c code hv (by omega)
    (show (c.make a).size ≤ old.length by omega)).map some ((datasLayout vs).fill (old.drop (c.make a).size))
  rw [datasLayout, Layout.fill, hv.size_eq, Lib.CheckedReading.bind_apply, optionalField,
    if_neg (by rw [List.length_append]; omega)]
  change (field 0 c code >>= fun a ↦ Pure.pure (some a)) _ >>= _ = _
  rw [hg, Outcome.ok_bind]
  exact hk _ (by rw [List.length_drop]; omega)

theorem Gets.orNull (h : PlainFields (.null :: vs)) {k : Properties → CheckedReader β}
    (hk : Gets (k []) vs b) :
    Gets (orElse (field 0 amf0Object 0) (field 0 amf0Null code >>= fun _ ↦ Pure.pure []) >>= k)
    (.null :: vs) b := by
  intro old hold
  have hs := h.size_lt
  rw [datasSize] at hs hold
  have hg := (gives_field zero_le_one amf0Null code (a := ()) .null (show (1 : ℕ) < 2 ^ 31 by decide)
    (show 1 ≤ old.length from (Nat.le_add_right 1 _).trans hold)).map (fun _ ↦ ([] : Properties))
      ((datasLayout vs).fill (old.drop 1))
  have hobject : field 0 amf0Object 0 ((layoutOf .null).fill old ++ (datasLayout vs).fill (old.drop 1)) =
      .err 0 := rfl
  change (orElse _ _ >>= k) ((layoutOf .null).fill old ++ (datasLayout vs).fill (old.drop 1)) = _
  rw [Lib.CheckedReading.bind_apply, orElse, hobject]
  change (field 0 amf0Null code >>= fun _ ↦ Pure.pure []) _ >>= _ = _
  have hnull : amf0Null.make () = .null := rfl
  rw [hnull] at hg
  rw [hg, Outcome.ok_bind]
  have hsize : Amf0Data.null.size = 1 := rfl
  exact hk _ (by rw [List.length_drop]; omega)

end Bind

theorem Gets.message {r : CheckedReader α} {vs : List Amf0Data} {a : α} (h : Gets r vs a)
    {msg : RtmpMessage} (hdata : msg.usingData = fieldBytes vs) : decodeMessage r msg = .ok a := by
  rw [decodeMessage, hdata, fieldBytes, h _ (by rw [List.length_replicate])]
  rfl

theorem propertiesSize_perm {ps ps' : Properties} (h : ps.Perm ps') :
    propertiesSize ps = propertiesSize ps' := by
  induction h with
  | nil => rfl
  | cons p _ ih => rw [propertiesSize, propertiesSize, ih]
  | swap p q ps =>
    simp only [propertiesSize]
    omega
  | trans _ _ ih ih' => exact ih.trans ih'

/-- The order of its properties makes no difference to an object's being plain. -/
theorem plain_perm {ps ps' : Properties} (h : ps'.Perm ps) (hp : Plain (.object ps)) :
    Plain (.object ps') := by
  cases hp with
  | object _ hkeys hkey hvalues =>
    exact .object ps' ((h.map Prod.fst).nodup_iff.mpr hkeys) (fun p hmem ↦ hkey p (h.mem_iff.mp hmem))
      fun p hmem ↦ hvalues p (h.mem_iff.mp hmem)

theorem object_size (ps : Properties) : (Amf0Data.object ps).size = propertiesSize ps + 4 := by
  rw [Amf0Data.size]
  omega

theorem find_of_mem {properties : Properties} (hkeys : (properties.map Prod.fst).Nodup)
    {key : Bytes} {v : Amf0Data} (h : (key, v) ∈ properties) :
    properties.find? (fun p ↦ p.1 = key) = some (key, v) := by
  induction properties with
  | nil => cases h
  | cons p ps ih =>
    rw [List.map_cons, List.nodup_cons] at hkeys
    rcases List.mem_cons.mp h with rfl | hmem
    · exact List.find?_cons_of_pos (by simp)
    · have hne : p.1 ≠ key := by
        rintro rfl
        exact hkeys.1 (List.mem_map.mpr ⟨_, hmem, rfl⟩)
      rw [List.find?_cons_of_neg (by simpa using hne)]
      exact ih hkeys.2 hmem

/-- A property is found wherever the map lists it. -/
theorem getProperty_of_mem (c : Amf0Class α) {properties : Properties}
    (hkeys : (properties.map Prod.fst).Nodup) {key : Bytes} {a : α} (h : (key, c.make a) ∈ properties) :
    getProperty c properties key = some a := by
  rw [getProperty, find_of_mem hkeys h, Option.bind_some, c.value_make]

end Fields

section Numbers

/-- An `int32_t` as a `double`: the sign, the exponent of the leading bit, and the bits behind it. -/
def doubleOfInt (n : ℤ) : BitVec 64 :=
  if n = 0 then 0
  else
    let magnitude := n.natAbs
    let exponent := magnitude.log2
    let sign := if n < 0 then 2 ^ 63 else 0
    BitVec.ofNat 64 (sign + (1023 + exponent) * 2 ^ 52 + (magnitude - 2 ^ exponent) * 2 ^ (52 - exponent))

end Numbers

section Commands

structure StreamCommand where
  commandName : Bytes := []
  transactionId : BitVec 64 := 0
  streamName : Bytes := []

structure RtmpConnectCommandMessage where
  commandName : Bytes := []
  transactionId : BitVec 64 := 0
  commandObject : Properties := []
  optionalUserArgs : Option Properties := none
  tcUrl : Bytes := []
  pageUrl : Bytes := []
  swfUrl : Bytes := []
  app : Bytes := []
  objectEncoding : BitVec 64 := 0

abbrev RtmpReleaseStreamMessage := StreamCommand

abbrev RtmpFCPublishMessage := StreamCommand

structure RtmpCreateStreamMessage where
  commandName : Bytes := []
  transactionId : BitVec 64 := 0
  commandObj : Properties := []

structure RtmpPublishMessage where
  commandName : Bytes := []
  transactionId : BitVec 64 := 0
  streamName : Bytes := []
  publishType : Bytes := []

structure RtmpPlayMessage where
  commandName : Bytes := []
  transactionId : BitVec 64 := 0
  streamName : Bytes := []
  start : Option (BitVec 64) := none
  duration : Option (BitVec 64) := none
  reset : Option Bool := none

structure RtmpOnStatusMessage where
  commandName : Bytes := ascii "onStatus"
  transactionId : BitVec 64 := doubleOfInt 0
  info : Properties := []

def RtmpConnectCommandMessage.decode : CheckedReader RtmpConnectCommandMessage := do
  let commandName ← field 0 amf0String (-1)
  let transactionId ← field 0 amf0Number (-2)
  let commandObject ← field 0 amf0Object (-3)
  let optionalUserArgs ← optionalField amf0Object (-4)
  match getProperty amf0String commandObject (ascii "tcUrl") with
  | none => fun _ ↦ .err (-5)
  | some tcUrl => return {
      commandName, transactionId, commandObject, optionalUserArgs, tcUrl
      pageUrl := (getProperty amf0String commandObject (ascii "pageUrl")).getD []
      swfUrl := (getProperty amf0String commandObject (ascii "swfUrl")).getD []
      app := (getProperty amf0String commandObject (ascii "app")).getD []
      objectEncoding := (getProperty amf0Number commandObject (ascii "objectEncoding")).getD 0 }

def StreamCommand.decode : CheckedReader StreamCommand := do
  let commandName ← field 0 amf0String (-1)
  let transactionId ← field 0 amf0Number (-2)
  let _ ← field 0 amf0Null (-3)
  let streamName ← field 0 amf0String (-4)
  return { commandName, transactionId, streamName }

def RtmpReleaseStreamMessage.decode : CheckedReader RtmpReleaseStreamMessage := StreamCommand.decode

def RtmpFCPublishMessage.decode : CheckedReader RtmpFCPublishMessage := StreamCommand.decode

/-- The command object may be null. -/
def RtmpCreateStreamMessage.decode : CheckedReader RtmpCreateStreamMessage := do
  let commandName ← field 0 amf0String (-1)
  let transactionId ← field 0 amf0Number (-2)
  let commandObj ← orElse (field 0 amf0Object 0) do
    let _ ← field 0 amf0Null (-4)
    return []
  return { commandName, transactionId, commandObj }

def RtmpPublishMessage.decode : CheckedReader RtmpPublishMessage := do
  let commandName ← field 0 amf0String (-1)
  let transactionId ← field 0 amf0Number (-2)
  let _ ← field 0 amf0Null (-4)
  let streamName ← field 0 amf0String (-5)
  let publishType ← field 0 amf0String (-6)
  return { commandName, transactionId, streamName, publishType }

def RtmpPlayMessage.decode : CheckedReader RtmpPlayMessage := do
  let commandName ← field 0 amf0String (-1)
  let transactionId ← field 0 amf0Number (-2)
  let _ ← field 0 amf0Null (-3)
  let streamName ← field 0 amf0String (-5)
  let start ← optionalField amf0Number (-6)
  let duration ← optionalField amf0Number (-7)
  let reset ← optionalField amf0Boolean (-8)
  return { commandName, transactionId, streamName, start, duration, reset }

def RtmpOnStatusMessage.decode : CheckedReader RtmpOnStatusMessage := do
  let commandName ← field 1 amf0String (-1)
  let transactionId ← field 1 amf0Number (-2)
  let _ ← field 1 amf0Null (-3)
  let info ← field 1 amf0Object (-4)
  return { commandName, transactionId, info }

def messageTypeAmf0Command : UInt8 := 20

def chunkIdCommandMessage : ℕ := 3

def commandMessage (chunkId : ℕ) (least : ℤ) (vs : List Amf0Data) : Outcome RtmpMessage := do
  let payload ← encodeFields least vs (List.replicate (datasSize vs) 0)
  return {
    toPacket := .ofBytes payload
    messageTypeId := messageTypeAmf0Command
    chunkStreamId := chunkId }

def envelope (chunkId : ℕ) (vs : List Amf0Data) : RtmpMessage where
  toPacket := .ofBytes (fieldBytes vs)
  messageTypeId := messageTypeAmf0Command
  chunkStreamId := chunkId

theorem commandMessage_eq (chunkId : ℕ) {least : ℤ} (hleast : least ≤ 1) {vs : List Amf0Data}
    (h : PlainFields vs) : commandMessage chunkId least vs = .ok (envelope chunkId vs) := by
  rw [commandMessage, encodeFields_eq hleast h]
  rfl

-- the order in which an `unordered_map` is iterated
variable (iterate : Properties → Properties)

def stringProperties (ps : List (String × Bytes)) : Properties :=
  ps.map fun p ↦ (ascii p.1, .string p.2)

def RtmpConnectCommandMessage.encode (transactionId : ℤ) (tcUrl pageUrl swfUrl app : Bytes) :
    Outcome RtmpMessage :=
  commandMessage chunkIdCommandMessage 1 [
    .string (ascii "connect"), .number (doubleOfInt transactionId),
    .object (iterate (stringProperties
      [("tcUrl", tcUrl), ("pageUrl", pageUrl), ("swfUrl", swfUrl), ("app", app)]))]

def StreamCommand.encode (name : String) (transactionId : ℤ) (streamName : Bytes) : Outcome RtmpMessage :=
  commandMessage chunkIdCommandMessage 0 [
    .string (ascii name), .number (doubleOfInt transactionId), .null, .string streamName]

def RtmpReleaseStreamMessage.encode (transactionId : ℤ) (streamName : Bytes) : Outcome RtmpMessage :=
  StreamCommand.encode "releaseStream" transactionId streamName

def RtmpFCPublishMessage.encode (transactionId : ℤ) (streamName : Bytes) : Outcome RtmpMessage :=
  StreamCommand.encode "FCPublish" transactionId streamName

def RtmpCreateStreamMessage.encode (transactionId : ℤ) : Outcome RtmpMessage :=
  commandMessage chunkIdCommandMessage 1
    [.string (ascii "createStream"), .number (doubleOfInt transactionId), .null]

def RtmpPublishMessage.encode (transactionId : ℤ) (streamName publishType : Bytes) : Outcome RtmpMessage :=
  commandMessage chunkIdCommandMessage 0 [
    .string (ascii "publish"), .number (doubleOfInt transactionId), .null, .string streamName,
    .string publishType]

/-- Of a play command that starts at -2000. -/
def RtmpPlayMessage.encode (transactionId : ℤ) (streamName : Bytes) : Outcome RtmpMessage :=
  commandMessage chunkIdCommandMessage 0 [
    .string (ascii "play"), .number (doubleOfInt transactionId), .null, .string streamName,
    .number (doubleOfInt (-2000))]

def RtmpConnectRespMessage.encode (name : Bytes) (transactionId : BitVec 64) (props info : Properties) :
    Outcome RtmpMessage :=
  commandMessage chunkIdProtocolControlMessage 0
    [.string name, .number transactionId, .object (iterate props), .object (iterate info)]

/-- `RtmpReleaseStreamRespMessage::encode` and `RtmpFCPublishRespMessage::encode`. -/
def RtmpReleaseStreamRespMessage.encode (name : Bytes) (transactionId : BitVec 64) : Outcome RtmpMessage :=
  commandMessage chunkIdProtocolControlMessage 0
    [.string name, .number transactionId, .null, .undefined]

/-- The stream is always the first. -/
def RtmpCreateStreamRespMessage.encode (name : Bytes) (transactionId : BitVec 64) : Outcome RtmpMessage :=
  commandMessage chunkIdProtocolControlMessage 0
    [.string name, .number transactionId, .null, .number (doubleOfInt 1)]

def RtmpOnStatusMessage.encode (m : RtmpOnStatusMessage) : Outcome RtmpMessage :=
  commandMessage chunkIdProtocolControlMessage 0
    [.string m.commandName, .number m.transactionId, .null, .object (iterate m.info)]

def RtmpAccessSampleMessage.encode (video audio : Bool) : Outcome RtmpMessage := do
  let msg ← commandMessage chunkIdProtocolControlMessage 0
    [.string (ascii "|RtmpSampleAccess"), .boolean video, .boolean audio]
  return { msg with messageTypeId := 18 }

def streamBeginMessage (streamId : BitVec 32) : RtmpMessage where
  toPacket := .ofBytes (putBE 2 0 ++ putBE 4 streamId.toNat)
  messageTypeId := 4
  chunkStreamId := chunkIdProtocolControlMessage

def windowAckSizeMessage (size : BitVec 32) : RtmpMessage where
  toPacket := .ofBytes (putBE 4 size.toNat)
  messageTypeId := 5
  chunkStreamId := chunkIdProtocolControlMessage

/-- The buffer has four bytes, the message eight: `behind` is the memory at the end of
the buffer. -/
def acknowledgeMessage (inBytes behind : BitVec 32) : RtmpMessage where
  toPacket := .ofBytes (putBE 4 inBytes.toNat ++ putBE 4 behind.toNat)
  messageTypeId := 3
  chunkStreamId := chunkIdProtocolControlMessage

def setPeerBandwidthMessage (ackWindowSize : BitVec 32) (limitType : UInt8) : RtmpMessage where
  toPacket := .ofBytes (putBE 4 ackWindowSize.toNat ++ [limitType])
  messageTypeId := 6
  chunkStreamId := chunkIdProtocolControlMessage

end Commands

section Decode

variable {name streamName publishType : Bytes} {transactionId : BitVec 64} {msg : RtmpMessage}

/-- The first field of a command is enough to tell what it is. -/
theorem decode_name {vs : List Amf0Data} (h : PlainFields (.string name :: vs))
    (hdata : msg.usingData = fieldBytes (.string name :: vs)) :
    decodeMessage (field 0 amf0String (-1)) msg = .ok name := by
  have hs := h.size_lt
  have hv := h.plain _ (List.mem_cons_self ..)
  rw [datasSize] at hs
  have hold : (Amf0Data.string name).size ≤
      (List.replicate (datasSize (.string name :: vs)) (0 : UInt8)).length := by
    rw [List.length_replicate, datasSize]
    omega
  have hg := gives_field zero_le_one amf0String (-1) hv
      (show (Amf0Data.string name).size < 2 ^ 31 by omega) hold
  rw [decodeMessage, hdata, fieldBytes, datasLayout, Layout.fill]
  exact congrArg (· >>= _) (hg _)

theorem decode_connect {properties : Properties} (hkeys : (properties.map Prod.fst).Nodup)
    (h : PlainFields [.string name, .number transactionId, .object properties]) {tcUrl app : Bytes}
    (htcUrl : (ascii "tcUrl", .string tcUrl) ∈ properties) (happ : (ascii "app", .string app) ∈ properties)
    (hdata : msg.usingData = fieldBytes [.string name, .number transactionId, .object properties]) :
    ∃ c, decodeMessage RtmpConnectCommandMessage.decode msg = .ok c ∧ c.transactionId = transactionId ∧
      c.tcUrl = tcUrl ∧ c.app = app := by
  have hurl := getProperty_of_mem amf0String hkeys htcUrl
  have hname := getProperty_of_mem amf0String hkeys happ
  have hgets : Gets RtmpConnectCommandMessage.decode
      [.string name, .number transactionId, .object properties]
      { commandName := name, transactionId, commandObject := properties, tcUrl
        pageUrl := (getProperty amf0String properties (ascii "pageUrl")).getD []
        swfUrl := (getProperty amf0String properties (ascii "swfUrl")).getD []
        app := (getProperty amf0String properties (ascii "app")).getD []
        objectEncoding := (getProperty amf0Number properties (ascii "objectEncoding")).getD 0 } := by
    refine .cons zero_le_one amf0String h ?_
    refine .cons zero_le_one amf0Number h.tail ?_
    refine .cons zero_le_one amf0Object h.tail.tail ?_
    refine .absent ?_
    rw [hurl]
    exact .pure _
  exact ⟨_, hgets.message hdata, rfl, rfl, by rw [hname, Option.getD_some]⟩

theorem decode_streamCommand
    (h : PlainFields [.string name, .number transactionId, .null, .string streamName])
    (hdata : msg.usingData = fieldBytes [.string name, .number transactionId, .null, .string streamName]) :
    decodeMessage StreamCommand.decode msg = .ok ⟨name, transactionId, streamName⟩ := by
  refine Gets.message ?_ hdata
  refine .cons zero_le_one amf0String h ?_
  refine .cons zero_le_one amf0Number h.tail ?_
  refine .null zero_le_one h.tail.tail ?_
  refine .cons zero_le_one amf0String h.tail.tail.tail ?_
  exact .pure _

theorem decode_createStream (h : PlainFields [.string name, .number transactionId, .null])
    (hdata : msg.usingData = fieldBytes [.string name, .number transactionId, .null]) :
    decodeMessage RtmpCreateStreamMessage.decode msg = .ok ⟨name, transactionId, []⟩ := by
  refine Gets.message ?_ hdata
  refine .cons zero_le_one amf0String h ?_
  refine .cons zero_le_one amf0Number h.tail ?_
  refine .orNull h.tail.tail ?_
  exact .pure _

theorem decode_publish
    (h : PlainFields [.string name, .number transactionId, .null, .string streamName, .string publishType])
    (hdata : msg.usingData =
      fieldBytes [.string name, .number transactionId, .null, .string streamName, .string publishType]) :
    decodeMessage RtmpPublishMessage.decode msg = .ok ⟨name, transactionId, streamName, publishType⟩ := by
  refine Gets.message ?_ hdata
  refine .cons zero_le_one amf0String h ?_
  refine .cons zero_le_one amf0Number h.tail ?_
  refine .null zero_le_one h.tail.tail ?_
  refine .cons zero_le_one amf0String h.tail.tail.tail ?_
  refine .cons zero_le_one amf0String h.tail.tail.tail.tail ?_
  exact .pure _

theorem decode_play {start : BitVec 64}
    (h : PlainFields [.string name, .number transactionId, .null, .string streamName, .number start])
    (hdata : msg.usingData =
      fieldBytes [.string name, .number transactionId, .null, .string streamName, .number start]) :
    decodeMessage RtmpPlayMessage.decode msg =
      .ok ⟨name, transactionId, streamName, some start, none, none⟩ := by
  refine Gets.message ?_ hdata
  refine .cons zero_le_one amf0String h ?_
  refine .cons zero_le_one amf0Number h.tail ?_
  refine .null zero_le_one h.tail.tail ?_
  refine .cons zero_le_one amf0String h.tail.tail.tail ?_
  refine .present amf0Number h.tail.tail.tail.tail ?_
  refine .absent (.absent ?_)
  exact .pure _

theorem decode_onStatus {info : Properties}
    (h : PlainFields [.string name, .number transactionId, .null, .object info])
    (hdata : msg.usingData = fieldBytes [.string name, .number transactionId, .null, .object info]) :
    decodeMessage RtmpOnStatusMessage.decode msg = .ok ⟨name, transactionId, info⟩ := by
  refine Gets.message ?_ hdata
  refine .cons le_rfl amf0String h ?_
  refine .cons le_rfl amf0Number h.tail ?_
  refine .null le_rfl h.tail.tail ?_
  refine .cons le_rfl amf0Object h.tail.tail.tail ?_
  exact .pure _

end Decode

end MmsServer.Rtmp.Command
