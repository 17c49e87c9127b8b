import MmsServer.Lib.Find
import MmsServer.Lib.KeyedList
import MmsServer.Lib.Text

namespace MmsServer.Config.PlaceHolderGenerator

open Lib.ByteReader Lib.Find Lib.KeyedList Lib.Text

inductive Method
  | md5 (upper : Bool)
  | getTime
  | string
  | hmacSha1
  | base64
  | add
  | sub
  | binToHex
deriving DecidableEq

def genParam (methodName : Bytes) : Option Method :=
  if methodName = ascii "md5_upper" then some (.md5 true)
  else if methodName = ascii "md5_lower" then some (.md5 false)
  else if methodName = ascii "get_time" then some .getTime
  else if methodName = ascii "string" then some .string
  else if methodName = ascii "hmac_sha1" then some .hmacSha1
  else if methodName = ascii "base64" then some .base64
  else if methodName = ascii "add" then some .add
  else if methodName = ascii "sub" then some .sub
  else if methodName = ascii "bin_to_hex" then some .binToHex
  else none

/-- A `ParamPlaceHolder` shares a complete parameter. -/
inductive PlaceHolder
  | string (v : Bytes)
  | domain
  | app
  | streamName
  | streamType
  | param (paramName : Bytes) (method : Method) (holders : List (List PlaceHolder))
  | urlParam (name : Bytes)
  | headerParam (name : Bytes)

structure Param where
  method : Method
  holders : List (List PlaceHolder)

def Param.addPlaceholder (param : Param) (holders : List PlaceHolder) : Param :=
  { param with holders := param.holders ++ [holders] }

structure StreamSession where
  domainName : Bytes
  appName : Bytes
  streamName : Bytes
  sessionType : Bytes
  getParam : Bytes → Option Bytes
  getHeader : Bytes → Option Bytes

section Values

-- what a method makes of its arguments
variable (call : Method → List Bytes → Bytes) (session : StreamSession)

mutual

def PlaceHolder.getVal : PlaceHolder → Bytes
  | .string v => v
  | .domain => session.domainName
  | .app => session.appName
  | .streamName => session.streamName
  | .streamType => session.sessionType
  | .param _ method holders => call method (argVals holders)
  | .urlParam name => (session.getParam name).getD []
  | .headerParam name => (session.getHeader name).getD []

def argVals : List (List PlaceHolder) → List Bytes
  | [] => []
  | hs :: rest => holdersVal hs :: argVals rest

def holdersVal : List PlaceHolder → Bytes
  | [] => []
  | h :: hs => h.getVal ++ holdersVal hs

end

end Values

abbrev Params := List (Bytes × Param)

/-- A step of the generator. A missing result says that its fuel has run out. -/
abbrev Gen := StateT Params Option

/-- What stands between a prefix that ends in a bracket and the bracket that closes it. -/
def bracketed (pre seg : Bytes) : Option Bytes :=
  if startsWith seg pre ∧ seg.getLast? = some 93 then
    some ((seg.drop pre.length).take (seg.length - (pre.length + 1)))
  else none

def paramSeg (seg : Bytes) : Option Bytes := bracketed (ascii "params[") seg

def genHolder (search : Bytes → Gen (Option Param)) (seg : Bytes) (isStringHolder : Bool) :
    Gen (Option PlaceHolder) :=
  if isStringHolder then return some (.string seg)
  else if seg = ascii "domain" then return some .domain
  else if seg = ascii "app" then return some .app
  else if seg = ascii "stream_name" then return some .streamName
  else if seg = ascii "stream_type" then return some .streamType
  else match paramSeg seg with
  | some paramName => do
    match valueAt paramName (← get) with
    | some param => return some (.param paramName param.method param.holders)
    | none =>
      let found ← search paramName
      return found.map fun param ↦ .param paramName param.method param.holders
  | none =>
    match bracketed (ascii "url_params[") seg with
    | some paramName => return some (.urlParam paramName)
    | none => return (bracketed (ascii "header_params[") seg).map .headerParam

section Scan

variable (gen : Bytes → Bool → Gen (Option PlaceHolder))

def opening : Bytes := [36, 123]

def closing : UInt8 := 125

def flush (seg : Bytes) (isStringPlaceholder : Bool) : Gen (List PlaceHolder) :=
  if seg = [] then return []
  else do return (← gen seg isStringPlaceholder).toList

/-- The loop over a text. A name goes up to the next brace, or to the end of the text. -/
def scan (text seg : Bytes) (isStringPlaceholder : Bool) : Gen (List PlaceHolder) :=
  match text with
  | [] => flush gen seg isStringPlaceholder
  | c :: rest =>
    if startsWith (c :: rest) opening then do
      let before ← flush gen seg isStringPlaceholder
      let holder ← gen ((rest.drop 1).takeWhile (· != closing)) false
      let behind ← scan (((rest.drop 1).dropWhile (· != closing)).drop 1) [] false
      return before ++ holder.toList ++ behind
    else scan rest (seg ++ [c]) true
termination_by text.length
decreasing_by
  · have hle := (List.dropWhile_sublist (l := rest.drop 1) (· != closing)).length_le
    simp only [List.length_drop, List.length_cons] at hle ⊢
    omega
  · simp

def parseMethodParam (param : Param) (methodParam : Bytes) : Gen (ℤ × Param) := do
  let holders ← scan gen methodParam [] true
  return (0, param.addPlaceholder holders)

def parseMethodParams (param : Param) : List Bytes → Gen (Option Param)
  | [] => return some param
  | arg :: args => do
    let (ret, param) ← parseMethodParam gen param arg
    if ret ≠ 0 then return none else parseMethodParams param args

end Scan

section Search

abbrev Table := List (Bytes × Bytes)

def readPattern (pattern : Bytes) : Option (Method × List Bytes) := do
  let leftBracketPos ← find [40] pattern
  if pattern.getLast? ≠ some 41 then none
  let method ← genParam (pattern.take leftBracketPos)
  return (method, ((pattern.drop (leftBracketPos + 1)).take
    (pattern.length - leftBracketPos - 2)).splitOn 44)

def entry (table : Table) (paramName : Bytes) : Option (Method × List Bytes) :=
  (valueAt paramName table).bind readPattern

variable (table : Table)

/-- The fuel counts the parameters whose arguments are gone through at a time. -/
def recursiveSearchParamNode : ℕ → Bytes → Gen (Option Param)
  | 0, _ => failure
  | fuel + 1, paramName =>
    match entry table paramName with
    | none => return none
    | some (method, args) => do
      match ← parseMethodParams (genHolder (recursiveSearchParamNode fuel)) ⟨method, []⟩ args with
      | none => return none
      | some param =>
        modify (insertNew paramName param)
        return some param

/-- The holders that are pushed. `parse_string_to_placeholders` returns 0 with them. -/
def parseStringToPlaceholders (fuel : ℕ) (text : Bytes) : Option (List PlaceHolder) :=
  (scan (genHolder (recursiveSearchParamNode table fuel)) text [] true).run' []

end Search

end MmsServer.Config.PlaceHolderGenerator
