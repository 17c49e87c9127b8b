import MmsServer.Lib.CheckedLoop
import MmsServer.Stun.Attr

namespace MmsServer.Stun.Msg

open Lib.ByteReader Lib.Checked Lib.CheckedLoop Stun.Attr

/-- The digests of the message, from other libraries. -/
structure Digests where
  hmacSha1 : Bytes → Bytes → Bytes
  hmacSha1_length : ∀ key text, (hmacSha1 key text).length = 20
  crc32 : Bytes → BitVec 32

def STUN_MAGIC_COOKIE : BitVec 32 := 0x2112A442#32

def STUN_BINDING_REQUEST : BitVec 16 := 0x0001#16

def STUN_BINDING_RESPONSE : BitVec 16 := 0x0101#16

/-- The length field is written by `StunMsg.encode` and not read back. -/
structure StunMsgHeader where
  type : BitVec 16
  magicCookie : BitVec 32 := STUN_MAGIC_COOKIE
  transactionId : BitVec 96
deriving DecidableEq

def StunMsgHeader.decode (data : Bytes) : Outcome StunMsgHeader :=
  if data.length < 20 then .err (-1) else do
    let type ← load 2 0 data
    if BitVec.ofNat 16 type &&& 0xC0#16 ≠ 0#16 then .err (-2) else
      let magicCookie ← load 4 4 data
      if BitVec.ofNat 32 magicCookie ≠ STUN_MAGIC_COOKIE then .err (-2) else
        let transactionId ← load 12 8 data
        return ⟨BitVec.ofNat 16 type, BitVec.ofNat 32 magicCookie, BitVec.ofNat 96 transactionId⟩

def StunMsgHeader.encode (h : StunMsgHeader) (length : ℕ) (data : Bytes) : Outcome Bytes :=
  if data.length < 20 then .err (-1) else
    .ok (putBE 2 h.type.toNat ++ putBE 2 length ++ putBE 4 h.magicCookie.toNat ++
      putBE 12 h.transactionId.toNat)

structure StunMsg where
  header : StunMsgHeader
  attrs : List StunAttr := []
  usernameAttr : Option StunUsernameAttr := none
  msgIntegrityAttr : Option Bytes := none
  fingerprintAttr : Option (BitVec 32) := none
deriving DecidableEq

def StunMsg.addAttr (msg : StunMsg) (a : StunAttr) : StunMsg :=
  { msg with attrs := msg.attrs ++ [a] }

/-- The `switch` of the attribute loop, with the number of bytes that it moves
on. Eight types have an empty case. -/
def StunMsg.decodeAttr (msg : StunMsg) (data : Bytes) : Outcome (ℕ × StunMsg) := do
  let t ← load 2 0 data
  match AttrType.ofCode t with
  | some .mappedAddress =>
    let (c, a) ← (StunMappedAddressAttr.decode data).orReturn (-2)
    return (c, msg.addAttr (.mappedAddress a))
  | some .username =>
    let (c, username) ← (StunUsernameAttr.decode data).orReturn (-3)
    return (c, { msg with usernameAttr := some username })
  | some .messageIntegrity =>
    let (c, hmacSha1) ← (StunMessageIntegrityAttr.decode data).orReturn (-4)
    return (c, { msg with msgIntegrityAttr := some hmacSha1 })
  | some .googNetworkInfo =>
    let (c, a) ← (StunGoogNetworkInfoAttr.decode data).orReturn (-5)
    return (c, msg.addAttr (.googNetworkInfo a))
  | some .icePriority =>
    let (c, priority) ← (StunIcePriorityAttr.decode data).orReturn (-6)
    return (c, msg.addAttr (.icePriority priority))
  | some .iceUseCandidate =>
    let (c, _) ← (StunIceUseCandidateAttr.decode data).orReturn (-7)
    return (c, msg.addAttr .iceUseCandidate)
  | some .iceControlled =>
    let (c, tieBreaker) ← (StunIceControlledAttr.decode data).orReturn (-8)
    return (c, msg.addAttr (.iceControlled tieBreaker))
  | some .iceControlling =>
    let (c, tieBreaker) ← (StunIceControllingAttr.decode data).orReturn (-9)
    return (c, msg.addAttr (.iceControlling tieBreaker))
  | some .software =>
    let (c, _) ← (StunSoftwareAttr.decode data).orReturn (-10)
    return (c, msg)
  | some .responseAddress | some .changeRequest | some .sourceAddress | some .changedAddress
  | some .password | some .errorCode | some .unknownAttributes | some .reflectedFrom =>
    return (0, msg)
  | some .fingerprint | none => .err (-11)

def StunMsg.decodeRound : StunMsg × Bytes → Outcome (StunMsg × Bytes ⊕ StunMsg × Bytes)
  | (msg, []) => .ok (.inr (msg, []))
  | (msg, data) => do
    let (c, msg) ← msg.decodeAttr data
    if data.length < c then .fault .wrap else
      if msg.msgIntegrityAttr.isSome then .ok (.inr (msg, data.drop c))
      else .ok (.inl (msg, data.drop c))

def StunMsg.decodeTail : StunMsg × Bytes → Outcome StunMsg
  | (msg, []) => .ok msg
  | (msg, data) => do
    let t ← load 2 0 data
    if t = AttrType.fingerprint.code then
      let (_, crc32) ← (StunFingerPrintAttr.decode data).orReturn (-11)
      return { msg with fingerprintAttr := some crc32 }
    else return msg

/-- `none` while the attribute loop is running. -/
def StunMsg.decode (fuel : ℕ) (data : Bytes) : Option (Outcome StunMsg) :=
  match (StunMsgHeader.decode data).orReturn (-1) with
  | .ok header =>
    (run StunMsg.decodeRound fuel ({ header }, data.drop 20)).map (· >>= StunMsg.decodeTail)
  | .err code => some (.err code)
  | .fault f => some (.fault f)

def StunMsg.contentLen (msg : StunMsg) : ℕ :=
  (msg.usernameAttr.map StunUsernameAttr.size).getD 0 + (msg.attrs.map StunAttr.size).sum

def StunMsg.size (msg : StunMsg) (addMessageIntegrity addFingerPrint : Bool) : ℕ :=
  20 + msg.contentLen + (if addMessageIntegrity then 24 else 0) + if addFingerPrint then 8 else 0

def reserved (hasFingerPrint : Bool) : ℕ := if hasFingerPrint then 8 else 0

/-- The digest that the constructor and `check` of `StunMessageIntegrityAttr`
compute over a buffer, and the buffer behind that. -/
def StunMessageIntegrityAttr.digest (D : Digests) (data : Bytes) (len : ℕ) (hasFingerPrint : Bool)
    (pwd : Bytes) : Outcome (Bytes × Bytes) := do
  let lenBackup ← slice 2 2 data
  let patched := data.take 2 ++ putBE 2 (len - 20 - reserved hasFingerPrint) ++ data.drop 4
  if len < 24 + reserved hasFingerPrint then .fault .wrap else
    let text ← slice 0 (len - reserved hasFingerPrint - 24) patched
    return (D.hmacSha1 pwd text, patched.take 2 ++ lenBackup ++ patched.drop 4)

def StunFingerPrintAttr.digest (D : Digests) (data : Bytes) : BitVec 32 :=
  D.crc32 data ^^^ 0x5354554e#32

def encodeAttrs : List StunAttr → Bytes → Outcome Bytes
  | [], _ => .ok []
  | a :: as, data => do
    let bytes ← (a.encode data).orReturn (-2)
    let rest ← encodeAttrs as (data.drop bytes.length)
    return bytes ++ rest

def encodeUsername : Option StunUsernameAttr → Bytes → Outcome Bytes
  | none, _ => .ok []
  | some a, data => (a.encode data).orReturn (-1)

/-- The MESSAGE-INTEGRITY behind `body`, which is at the front of the buffer `data`. -/
def encodeIntegrity (D : Digests) (addMessageIntegrity : Bool) (pwd : Bytes)
    (addFingerPrint : Bool) (len : ℕ) (body data : Bytes) : Outcome Bytes :=
  if addMessageIntegrity then do
    let (hmacSha1, _) ← StunMessageIntegrityAttr.digest D (body ++ data.drop body.length) len
      addFingerPrint pwd
    (StunMessageIntegrityAttr.encode hmacSha1 (data.drop body.length)).orReturn (-3)
  else .ok []

def encodeFingerPrint (D : Digests) (addFingerPrint : Bool) (written data : Bytes) :
    Outcome Bytes :=
  if addFingerPrint then
    (StunFingerPrintAttr.encode (StunFingerPrintAttr.digest D written)
      (data.drop written.length)).orReturn (-4)
  else .ok []

def StunMsg.encode (D : Digests) (msg : StunMsg) (data : Bytes) (addMessageIntegrity : Bool)
    (pwd : Bytes) (addFingerPrint : Bool) : Outcome Bytes := do
  let length := (msg.contentLen + (if addMessageIntegrity then 24 else 0) +
    if addFingerPrint then 8 else 0) % 2 ^ 16
  let header ← (msg.header.encode length data).orReturn (-1)
  let username ← encodeUsername msg.usernameAttr (data.drop 20)
  let attrs ← encodeAttrs msg.attrs (data.drop (header ++ username).length)
  let body := header ++ username ++ attrs
  let integrity ← encodeIntegrity D addMessageIntegrity pwd addFingerPrint (length + 20) body data
  let fingerprint ← encodeFingerPrint D addFingerPrint (body ++ integrity) data
  return body ++ integrity ++ fingerprint

def StunMsg.checkMsgIntegrity (D : Digests) (msg : StunMsg) (data pwd : Bytes) :
    Outcome (Bool × Bytes) :=
  match msg.msgIntegrityAttr with
  | none => .fault .nullDeref
  | some hmacSha1 => do
    let (hmacSha1Check, data) ← StunMessageIntegrityAttr.digest D data data.length
      msg.fingerprintAttr.isSome pwd
    return (hmacSha1Check == hmacSha1, data)

def StunMsg.checkFingerPrint (D : Digests) (msg : StunMsg) (data : Bytes) : Outcome Bool :=
  match msg.fingerprintAttr with
  | none => .ok true
  | some crc32 =>
    if data.length < 8 then .fault .wrap else
      .ok (crc32 == StunFingerPrintAttr.digest D (data.take (data.length - 8)))

end MmsServer.Stun.Msg
