import MmsServer.Lib.Checked

namespace MmsServer.Stun.Attr

open Lib.ByteReader Lib.Checked

/-- The attribute types that `StunMsg::decode` has a case for, and the
fingerprint. -/
inductive AttrType
  | mappedAddress
  | responseAddress
  | changeRequest
  | sourceAddress
  | changedAddress
  | username
  | password
  | messageIntegrity
  | errorCode
  | unknownAttributes
  | reflectedFrom
  | googNetworkInfo
  | icePriority
  | iceUseCandidate
  | iceControlled
  | iceControlling
  | software
  | fingerprint
deriving DecidableEq

def AttrType.code : AttrType → ℕ
  | .mappedAddress => 0x0001
  | .responseAddress => 0x0002
  | .changeRequest => 0x0003
  | .sourceAddress => 0x0004
  | .changedAddress => 0x0005
  | .username => 0x0006
  | .password => 0x0007
  | .messageIntegrity => 0x0008
  | .errorCode => 0x0009
  | .unknownAttributes => 0x000a
  | .reflectedFrom => 0x000b
  | .googNetworkInfo => 0xc057
  | .icePriority => 0x0024
  | .iceUseCandidate => 0x0025
  | .iceControlled => 0x8029
  | .iceControlling => 0x802a
  | .software => 0x8022
  | .fingerprint => 0x8028

def AttrType.ofCode : ℕ → Option AttrType
  | 0x0001 => some .mappedAddress
  | 0x0002 => some .responseAddress
  | 0x0003 => some .changeRequest
  | 0x0004 => some .sourceAddress
  | 0x0005 => some .changedAddress
  | 0x0006 => some .username
  | 0x0007 => some .password
  | 0x0008 => some .messageIntegrity
  | 0x0009 => some .errorCode
  | 0x000a => some .unknownAttributes
  | 0x000b => some .reflectedFrom
  | 0xc057 => some .googNetworkInfo
  | 0x0024 => some .icePriority
  | 0x0025 => some .iceUseCandidate
  | 0x8029 => some .iceControlled
  | 0x802a => some .iceControlling
  | 0x8022 => some .software
  | 0x8028 => some .fingerprint
  | _ => none

theorem ofCode_code (t : AttrType) : AttrType.ofCode t.code = some t := by cases t <;> rfl

theorem code_ofCode {n : ℕ} {t : AttrType} (h : AttrType.ofCode n = some t) : n = t.code := by
  unfold AttrType.ofCode at h
  split at h <;> cases h <;> rfl

theorem code_lt (t : AttrType) : t.code < 256 ^ 2 := by cases t <;> decide

def pad4 (n : ℕ) : ℕ := (n + 3) / 4 * 4

theorem le_pad4 (n : ℕ) : n ≤ pad4 n := by unfold pad4; omega

def encodeHeader (t : AttrType) (length : ℕ) (data : Bytes) : Outcome Bytes :=
  if data.length < 4 then .err (-1) else .ok (putBE 2 t.code ++ putBE 2 length)

/-- `StunMsgAttr::decode` on behalf of an attribute. The type has been read by
the caller. -/
def decodeHeader (data : Bytes) : Outcome ℕ :=
  if data.length < 4 then .err (-1) else load 2 2 data

def encodeValue (t : AttrType) (value data : Bytes) : Outcome Bytes := do
  let header ← (encodeHeader t value.length data).orReturn (-1)
  if data.length - 4 < value.length then .err (-2) else return header ++ value

structure StunMappedAddressAttr where
  family : UInt8
  port : BitVec 16
  address : BitVec 32
deriving DecidableEq

def StunMappedAddressAttr.encode (a : StunMappedAddressAttr) : Bytes → Outcome Bytes :=
  encodeValue .mappedAddress
    (0 :: a.family :: (putBE 2 a.port.toNat ++ putBE 4 a.address.toNat))

/-- The length field of the attribute is not looked at. -/
def StunMappedAddressAttr.decode (data : Bytes) : Outcome (ℕ × StunMappedAddressAttr) := do
  let _ ← (decodeHeader data).orReturn (-1)
  if data.length - 4 < 8 then .err (-2) else
    let family ← load 1 5 data
    let port ← load 2 6 data
    let address ← load 4 8 data
    return (12, ⟨UInt8.ofNat family, BitVec.ofNat 16 port, BitVec.ofNat 32 address⟩)

structure StunUsernameAttr where
  localUserName : Bytes := []
  remoteUserName : Bytes := []
deriving DecidableEq

def colon : UInt8 := 58

def StunUsernameAttr.userName (a : StunUsernameAttr) : Bytes :=
  if 0 < a.remoteUserName.length then a.localUserName ++ colon :: a.remoteUserName
  else a.localUserName

def StunUsernameAttr.size (a : StunUsernameAttr) : ℕ := 4 + pad4 a.userName.length

/-- The padding is left as it is in the buffer. The check leaves it out, so it
can lie behind the end of the buffer. -/
def StunUsernameAttr.encode (a : StunUsernameAttr) (data : Bytes) : Outcome Bytes := do
  let header ← (encodeHeader .username a.userName.length data).orReturn (-1)
  if data.length - 4 < a.userName.length then .err (-2) else
    if data.length < a.size then .fault .wrap else
      return header ++ a.userName ++ (data.take a.size).drop (4 + a.userName.length)

def StunUsernameAttr.ofUserName (name : Bytes) : StunUsernameAttr :=
  match name.splitOn colon with
  | [loc] => { localUserName := loc }
  | [loc, rem] => ⟨loc, rem⟩
  | _ => {}

def StunUsernameAttr.decode (data : Bytes) : Outcome (ℕ × StunUsernameAttr) := do
  let length ← (decodeHeader data).orReturn (-1)
  if data.length - 4 = 0 then .err (-2) else
    let name ← slice 4 length data
    return (4 + pad4 length, ofUserName name)

structure StunGoogNetworkInfoAttr where
  networkId : BitVec 16
  networkCost : BitVec 16
deriving DecidableEq

def StunGoogNetworkInfoAttr.encode (a : StunGoogNetworkInfoAttr) : Bytes → Outcome Bytes :=
  encodeValue .googNetworkInfo (putBE 2 a.networkId.toNat ++ putBE 2 a.networkCost.toNat)

def StunGoogNetworkInfoAttr.decode (data : Bytes) : Outcome (ℕ × StunGoogNetworkInfoAttr) := do
  let length ← (decodeHeader data).orReturn (-1)
  if data.length - 4 = 0 then .err (-2) else
    if length ≠ 4 then .err (-3) else
      let networkId ← load 2 4 data
      let networkCost ← load 2 6 data
      return (8, ⟨BitVec.ofNat 16 networkId, BitVec.ofNat 16 networkCost⟩)

def StunIcePriorityAttr.encode (priority : BitVec 32) : Bytes → Outcome Bytes :=
  encodeValue .icePriority (putBE 4 priority.toNat)

/-- A number of `k` bytes behind a check for four. -/
def decodeNumber (k : ℕ) (data : Bytes) : Outcome (ℕ × BitVec (8 * k)) := do
  let length ← (decodeHeader data).orReturn (-1)
  if data.length - 4 < 4 then .err (-2) else
    if length ≠ k then .err (-3) else
      let value ← load k 4 data
      return (4 + length, BitVec.ofNat (8 * k) value)

def StunIcePriorityAttr.decode : Bytes → Outcome (ℕ × BitVec 32) := decodeNumber 4

def StunIceUseCandidateAttr.encode : Bytes → Outcome Bytes := encodeValue .iceUseCandidate []

/-- The length field of the attribute is not looked at. -/
def StunIceUseCandidateAttr.decode (data : Bytes) : Outcome (ℕ × Unit) := do
  let _ ← (decodeHeader data).orReturn (-1)
  return (4, ())

def StunIceControlledAttr.encode (tieBreaker : BitVec 64) : Bytes → Outcome Bytes :=
  encodeValue .iceControlled (putBE 8 tieBreaker.toNat)

def StunIceControlledAttr.decode : Bytes → Outcome (ℕ × BitVec 64) := decodeNumber 8

def StunIceControllingAttr.encode (tieBreaker : BitVec 64) : Bytes → Outcome Bytes :=
  encodeValue .iceControlling (putBE 8 tieBreaker.toNat)

def StunIceControllingAttr.decode : Bytes → Outcome (ℕ × BitVec 64) := decodeNumber 8

/-- The value is not padded. -/
def StunSoftwareAttr.decode (data : Bytes) : Outcome (ℕ × Bytes) := do
  let length ← (decodeHeader data).orReturn (-1)
  if data.length - 4 < length then .err (-3) else
    let val ← slice 4 length data
    return (4 + length, val)

def StunMessageIntegrityAttr.encode (hmacSha1 : Bytes) : Bytes → Outcome Bytes :=
  encodeValue .messageIntegrity hmacSha1

def StunMessageIntegrityAttr.decode (data : Bytes) : Outcome (ℕ × Bytes) := do
  let length ← (decodeHeader data).orReturn (-1)
  if length ≠ 20 then .err (-2) else
    if data.length - 4 < 20 then .err (-3) else
      let hmacSha1 ← slice 4 length data
      return (4 + length, hmacSha1)

def StunFingerPrintAttr.encode (crc32 : BitVec 32) : Bytes → Outcome Bytes :=
  encodeValue .fingerprint (putBE 4 crc32.toNat)

def StunFingerPrintAttr.decode : Bytes → Outcome (ℕ × BitVec 32) := decodeNumber 4

inductive StunAttr
  | mappedAddress (a : StunMappedAddressAttr)
  | googNetworkInfo (a : StunGoogNetworkInfoAttr)
  | icePriority (priority : BitVec 32)
  | iceUseCandidate
  | iceControlled (tieBreaker : BitVec 64)
  | iceControlling (tieBreaker : BitVec 64)
deriving DecidableEq

def StunAttr.type : StunAttr → AttrType
  | .mappedAddress _ => .mappedAddress
  | .googNetworkInfo _ => .googNetworkInfo
  | .icePriority _ => .icePriority
  | .iceUseCandidate => .iceUseCandidate
  | .iceControlled _ => .iceControlled
  | .iceControlling _ => .iceControlling

def StunAttr.size : StunAttr → ℕ
  | .mappedAddress _ => 4 + 8
  | .googNetworkInfo _ => 4 + 4
  | .icePriority _ => 4 + 4
  | .iceUseCandidate => 4
  | .iceControlled _ => 4 + 4
  | .iceControlling _ => 4 + 4

def StunAttr.encode : StunAttr → Bytes → Outcome Bytes
  | .mappedAddress a => a.encode
  | .googNetworkInfo a => a.encode
  | .icePriority priority => StunIcePriorityAttr.encode priority
  | .iceUseCandidate => StunIceUseCandidateAttr.encode
  | .iceControlled tieBreaker => StunIceControlledAttr.encode tieBreaker
  | .iceControlling tieBreaker => StunIceControllingAttr.encode tieBreaker

end MmsServer.Stun.Attr
