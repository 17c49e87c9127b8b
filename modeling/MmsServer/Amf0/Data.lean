import MmsServer.Lib.ByteLayout

namespace MmsServer.Amf0.Data

open Lib.ByteReader Lib.Checked Lib.ByteLayout

/-- The value classes; the map of an object is listed in the order in which it
is iterated. -/
inductive Amf0Data
  | number (value : BitVec 64)
  | boolean (value : Bool)
  | string (value : Bytes)
  | object (properties : List (Bytes × Amf0Data))
  | null
  | undefined
  | reference (objIndex : BitVec 16)
  | ecmaArray (properties : List (Bytes × Amf0Data))
  | strictArray (datas : List Amf0Data)
  | date (utc : BitVec 64) (timeZone : BitVec 16)

inductive Amf0Type
  | number
  | boolean
  | string
  | object
  | null
  | undefined
  | reference
  | ecmaArray
  | strictArray
  | date
deriving DecidableEq

def Amf0Type.marker : Amf0Type → UInt8
  | .number => 0x00
  | .boolean => 0x01
  | .string => 0x02
  | .object => 0x03
  | .null => 0x05
  | .undefined => 0x06
  | .reference => 0x07
  | .ecmaArray => 0x08
  | .strictArray => 0x0a
  | .date => 0x0b

def Amf0Data.getType : Amf0Data → Amf0Type
  | .number _ => .number
  | .boolean _ => .boolean
  | .string _ => .string
  | .object _ => .object
  | .null => .null
  | .undefined => .undefined
  | .reference _ => .reference
  | .ecmaArray _ => .ecmaArray
  | .strictArray _ => .strictArray
  | .date _ _ => .date

mutual

/-- `Amf0EcmaArray` leaves the method to its base class. -/
def Amf0Data.size : Amf0Data → ℕ
  | .number _ => 9
  | .boolean _ => 2
  | .string value => 1 + 2 + value.length
  | .object properties => 1 + propertiesSize properties + 3
  | .null => 1
  | .undefined => 1
  | .reference _ => 3
  | .ecmaArray _ => 0
  | .strictArray datas => 1 + 4 + datasSize datas
  | .date _ _ => 11

def propertiesSize : List (Bytes × Amf0Data) → ℕ
  | [] => 0
  | (key, value) :: properties => 2 + key.length + value.size + propertiesSize properties

def datasSize : List Amf0Data → ℕ
  | [] => 0
  | data :: datas => data.size + datasSize datas

end

/-- What `data - buf` becomes as an `int32_t`. -/
def int32 (n : ℕ) : BitVec 32 := BitVec.ofNat 32 n

def objEnd : Bytes := [0x00, 0x00, 0x09]

section Encode

def encodeScalar (bytes buf : Bytes) : Outcome (BitVec 32 × Bytes) :=
  if buf.length < 1 then .err (-1)
  else if buf.length < bytes.length then .err (-2)
  else .ok (int32 bytes.length, bytes ++ buf.drop bytes.length)

/-- A string that does not fit is answered with 0. -/
def encodeString (value buf : Bytes) : Outcome (BitVec 32 × Bytes) :=
  if buf.length < 1 then .ok (0, buf)
  else if buf.length < 3 then .ok (0, Amf0Type.string.marker :: buf.drop 1)
  else if buf.length < 3 + value.length then
    .ok (0, Amf0Type.string.marker :: putBE 2 value.length ++ buf.drop 3)
  else .ok (int32 (3 + value.length),
    Amf0Type.string.marker :: (putBE 2 value.length ++ value ++ buf.drop (3 + value.length)))

def encodeObject (encodeProperties : Bytes → Outcome (ℕ × Bytes)) (buf : Bytes) :
    Outcome (BitVec 32 × Bytes) :=
  if buf.length < 1 then .err (-1)
  else do
    let (n, left) ← encodeProperties (buf.drop 1)
    if left.length - n < objEnd.length then .err (-4)
    else return (int32 (1 + n + objEnd.length),
      Amf0Type.object.marker :: (left.take n ++ objEnd ++ left.drop (n + objEnd.length)))

/-- The room for the count is passed over. -/
def encodeStrictArray (encodeDatas : Bytes → Outcome (ℕ × Bytes)) (buf : Bytes) :
    Outcome (BitVec 32 × Bytes) :=
  if buf.length < 1 then .err (-1)
  else if buf.length < 1 + 4 then .err (-2)
  else do
    let (n, left) ← encodeDatas (buf.drop 5)
    return (int32 (1 + 4 + n), Amf0Type.strictArray.marker :: ((buf.drop 1).take 4 ++ left))

/-- The next value starts where the returned number says. -/
def advance (encode : Bytes → Outcome (BitVec 32 × Bytes))
    (encodeRest : Bytes → Outcome (ℕ × Bytes)) (buf : Bytes) : Outcome (ℕ × Bytes) := do
  let (consumed, left) ← (encode buf).orReturn (-3)
  if consumed.toInt < 0 then .err (-3)
  else
    let (n, rest) ← encodeRest (left.drop consumed.toNat)
    return (consumed.toNat + n, left.take consumed.toNat ++ rest)

mutual

def Amf0Data.encode : Amf0Data → Bytes → Outcome (BitVec 32 × Bytes)
  | .number value, buf => encodeScalar (Amf0Type.number.marker :: putBE 8 value.toNat) buf
  | .boolean value, buf => encodeScalar [Amf0Type.boolean.marker, if value then 1 else 0] buf
  | .string value, buf => encodeString value buf
  | .object properties, buf => encodeObject (encodeProperties properties) buf
  | .null, buf => encodeScalar [Amf0Type.null.marker] buf
  | .undefined, buf => encodeScalar [Amf0Type.undefined.marker] buf
  | .reference _, buf => .ok (0, buf)
  -- the array writes itself as an object
  | .ecmaArray properties, buf => encodeObject (encodeProperties properties) buf
  | .strictArray datas, buf => encodeStrictArray (encodeDatas datas) buf
  | .date _ _, buf => .ok (0, buf)

def encodeProperties : List (Bytes × Amf0Data) → Bytes → Outcome (ℕ × Bytes)
  | [], buf => .ok (0, buf)
  | (key, value) :: properties, buf =>
    if buf.length < 2 then .err (-3)
    else if buf.length < 2 + key.length then .fault .overrun
    else do
      let (n, left) ← advance value.encode (encodeProperties properties) (buf.drop (2 + key.length))
      return (2 + key.length + n, putBE 2 key.length ++ key ++ left)

def encodeDatas : List Amf0Data → Bytes → Outcome (ℕ × Bytes)
  | [], buf => .ok (0, buf)
  | data :: datas, buf => advance data.encode (encodeDatas datas) buf

end

end Encode

section Decode

abbrev Decoded := Outcome (Amf0Data × BitVec 32)

def decodeScalar (type : Amf0Type) (n : ℕ) (value : Bytes → Amf0Data) : Bytes → Decoded
  | [] => .err (-1)
  | marker :: data =>
    if marker ≠ type.marker then .err (-2)
    else if data.length < n then .err (-3)
    else .ok (value (data.take n), int32 (1 + n))

def decodeNumber : Bytes → Decoded := decodeScalar .number 8 fun v ↦ .number (BitVec.ofNat 64 (fromBE v))

def decodeBoolean : Bytes → Decoded := decodeScalar .boolean 1 fun v ↦ .boolean (decide (0 < fromBE v))

def decodeNull : Bytes → Decoded := decodeScalar .null 0 fun _ ↦ .null

def decodeUndefined : Bytes → Decoded := decodeScalar .undefined 0 fun _ ↦ .undefined

def decodeReference : Bytes → Decoded :=
  decodeScalar .reference 2 fun v ↦ .reference (BitVec.ofNat 16 (fromBE v))

def decodeString : Bytes → Decoded
  | [] => .err (-1)
  | marker :: data =>
    if marker ≠ Amf0Type.string.marker then .err (-2)
    else if data.length < 2 then .err (-3)
    else
      let stringLen := fromBE (data.take 2)
      if data.length < 2 + stringLen then .err (-4)
      else .ok (.string ((data.drop 2).take stringLen), int32 (3 + stringLen))

def decodeDate : Bytes → Decoded
  | [] => .err (-1)
  | marker :: data =>
    if marker ≠ Amf0Type.date.marker then .err (-2)
    else if data.length < 8 then .err (-3)
    else if data.length < 10 then .err (-4)
    else .ok (.date (BitVec.ofNat 64 (fromBE (data.take 8)))
      (BitVec.ofNat 16 (fromBE ((data.drop 8).take 2))), int32 11)

def ecmaArraySwitch (marker : UInt8) : Option Amf0Type :=
  [Amf0Type.number, .boolean, .string, .null, .undefined, .object].find? fun t ↦ t.marker == marker

def strictArraySwitch (marker : UInt8) : Option Amf0Type :=
  [Amf0Type.number, .boolean, .string, .object, .null, .undefined, .reference, .strictArray].find?
    fun t ↦ t.marker == marker

def objectSwitch (marker : UInt8) : Option Amf0Type :=
  [Amf0Type.number, .boolean, .string, .object, .null, .undefined, .reference, .strictArray,
    .date].find? fun t ↦ t.marker == marker

def insertProperty (key : Bytes) (value : Amf0Data) :
    List (Bytes × Amf0Data) → List (Bytes × Amf0Data)
  | [] => [(key, value)]
  | p :: ps => if p.1 = key then (key, value) :: ps else p :: insertProperty key value ps

-- the value classes that the containers call
variable (decode : Amf0Type → Bytes → Decoded)

def decodeValue (switch : UInt8 → Option Amf0Type) (noClass noValue : ℤ) :
    Bytes → Outcome (Amf0Data × ℕ)
  | [] => .fault .overread
  | marker :: data =>
    match switch marker with
    | none => .err noClass
    | some type => do
      let (value, consumed) ← (decode type (marker :: data)).orReturn noValue
      if consumed.toInt < 0 then .err noValue else return (value, consumed.toNat)

def decodeProperties : ℕ → List (Bytes × Amf0Data) → Bytes → ℕ →
    Outcome (List (Bytes × Amf0Data) × ℕ)
  | 0, _, _, _ => .err 0
  | fuel + 1, properties, data, pos =>
    if data.length = 0 then .ok (properties, pos)
    else if data.take 3 = objEnd then .ok (properties, pos + 3)
    else if data.length < 2 then .err (-3)
    else
      let keyLen := fromBE (data.take 2)
      if data.length < 2 + keyLen then .err (-4)
      else do
        let left := data.drop (2 + keyLen)
        let (value, consumed) ← decodeValue decode objectSwitch (-5) (-6) left
        decodeProperties fuel (insertProperty ((data.drop 2).take keyLen) value properties)
          (left.drop consumed) (pos + (2 + keyLen + consumed))

def decodeObject : Bytes → Decoded
  | [] => .err (-1)
  | marker :: data =>
    if marker ≠ Amf0Type.object.marker then .err (-2)
    else do
      let (properties, pos) ← decodeProperties decode (data.length + 1) [] data 1
      return (.object properties, int32 pos)

def decodeEntries : ℕ → List (Bytes × Amf0Data) → Bytes → ℕ →
    Outcome (List (Bytes × Amf0Data) × Bytes × ℕ)
  | 0, properties, data, pos => .ok (properties, data, pos)
  | count + 1, properties, data, pos =>
    if data.length < 2 then .err (-4)
    else
      let keyLen := fromBE (data.take 2)
      if data.length < 2 + keyLen then .err (-5)
      else
        let left := data.drop (2 + keyLen)
        if left.length < 1 then .err (-6)
        else do
          let (value, consumed) ← decodeValue decode ecmaArraySwitch (-7) (-8) left
          decodeEntries count (insertProperty ((data.drop 2).take keyLen) value properties)
            (left.drop consumed) (pos + (2 + keyLen + consumed))

def decodeEcmaArray : Bytes → Decoded
  | [] => .err (-1)
  | marker :: data =>
    if marker ≠ Amf0Type.ecmaArray.marker then .err (-2)
    else if data.length < 4 then .err (-3)
    else do
      -- a count with the top bit set is negative and reads nothing
      let count := (int32 (fromBE (data.take 4))).toInt.toNat
      let (properties, left, pos) ← decodeEntries decode count [] (data.drop 4) 5
      if left.take 3 ≠ objEnd then .err (-8)
      else return (.ecmaArray properties, int32 (pos + 3))

/-- The loop of `Amf0StrictArray::decode` with `count` elements to go, which
also ends where the data ends. -/
def decodeDatas : ℕ → List Amf0Data → Bytes → ℕ → Outcome (List Amf0Data × ℕ)
  | 0, datas, _, pos => .ok (datas, pos)
  | count + 1, datas, data, pos =>
    if data.length = 0 then .ok (datas, pos)
    else do
      let (value, consumed) ← decodeValue decode strictArraySwitch (-5) (-6) data
      decodeDatas count (datas ++ [value]) (data.drop consumed) (pos + consumed)

def decodeStrictArray : Bytes → Decoded
  | [] => .err (-1)
  | marker :: data =>
    if marker ≠ Amf0Type.strictArray.marker then .err (-2)
    else if data.length < 4 then .err (-3)
    else do
      let (datas, pos) ← decodeDatas decode (fromBE (data.take 4)) [] (data.drop 4) 5
      return (.strictArray datas, int32 pos)

def decodeClass : Amf0Type → Bytes → Decoded
  | .number => decodeNumber
  | .boolean => decodeBoolean
  | .string => decodeString
  | .object => decodeObject decode
  | .null => decodeNull
  | .undefined => decodeUndefined
  | .reference => decodeReference
  | .ecmaArray => decodeEcmaArray decode
  | .strictArray => decodeStrictArray decode
  | .date => decodeDate

end Decode

/-- `decode` of a class, with a bound on how deep the values are nested. -/
def decodeNested : ℕ → Amf0Type → Bytes → Decoded
  | 0 => fun _ _ ↦ .err 0
  | depth + 1 => decodeClass (decodeNested depth)

def decode (type : Amf0Type) (data : Bytes) : Decoded := decodeNested (data.length + 1) type data

end MmsServer.Amf0.Data
