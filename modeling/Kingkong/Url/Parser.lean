import Kingkong.Lib.Bytes
import Kingkong.Lib.Run
import Mathlib.Logic.Function.Basic

/-!
`http_parser_parse_url` in strict mode. A scanner goes over the string once and records where each
part of the URL lies; the part between `//` and the path is then scanned again for user information,
host and port. Offsets, lengths and the port are 16 bits wide, and a part that is absent keeps
offset 0 and length 0.
-/

namespace Kingkong.Url
open Lib

abbrev byte (c : Char) : UInt8 := c.toUInt8

/-! ### Character classes -/

def lower (c : UInt8) : UInt8 := c ||| 0x20

def isAlpha (c : UInt8) : Bool := byte 'a' ≤ lower c && lower c ≤ byte 'z'

def isNum (c : UInt8) : Bool := byte '0' ≤ c && c ≤ byte '9'

def isAlphanum (c : UInt8) : Bool := isAlpha c || isNum c

def isHex (c : UInt8) : Bool := isNum c || (byte 'a' ≤ lower c && lower c ≤ byte 'f')

def isMark (c : UInt8) : Bool :=
  c == byte '-' || c == byte '_' || c == byte '.' || c == byte '!' || c == byte '~' || c == byte '*' ||
    c == 0x27 || c == byte '(' || c == byte ')'

def isUserinfoChar (c : UInt8) : Bool :=
  isAlphanum c || isMark c || c == byte '%' || c == byte ';' || c == byte ':' || c == byte '&' || c == byte '=' ||
    c == byte '+' || c == byte '$' || c == byte ','

/-- The bits of `normal_url_char`: every visible character but `#` and `?`. -/
def isUrlChar (c : UInt8) : Bool := byte '!' ≤ c && c ≤ byte '~' && c != byte '#' && c != byte '?'

def isHostChar (c : UInt8) : Bool := isAlphanum c || c == byte '.' || c == byte '-'

/-! ### The result -/

/-- A `uint16_t` that `n` is stored to. -/
def uint16 (n : Nat) : Nat := n % 65536

inductive UrlField where
  | schema | host | port | path | query | fragment | userinfo
  deriving DecidableEq

/-- The bit of a field in `field_set` and its entry in `field_data`. -/
structure FieldData where
  isSet : Bool := false
  off : Nat := 0
  len : Nat := 0
  deriving DecidableEq

structure HttpParserUrl where
  fields : UrlField → FieldData := fun _ => {}
  port : Nat := 0

namespace HttpParserUrl

def modify (u : HttpParserUrl) (uf : UrlField) (f : FieldData → FieldData) : HttpParserUrl :=
  { u with fields := Function.update u.fields uf (f (u.fields uf)) }

/-- `field_data[uf].off = p - buf; field_data[uf].len = len;` with the bit of the field set. -/
def start (u : HttpParserUrl) (uf : UrlField) (p len : Nat) : HttpParserUrl :=
  u.modify uf fun _ => ⟨true, uint16 p, len⟩

/-- `field_data[uf].len++`. -/
def extend (u : HttpParserUrl) (uf : UrlField) : HttpParserUrl :=
  u.modify uf fun field => { field with len := uint16 (field.len + 1) }

theorem modify_fields (u : HttpParserUrl) (uf other : UrlField) (f : FieldData → FieldData) :
    (u.modify uf f).fields other = if other = uf then f (u.fields uf) else u.fields other := by
  by_cases same : other = uf
  · subst same
    rw [if_pos rfl]
    exact Function.update_self ..
  · rw [if_neg same]
    exact Function.update_of_ne same ..

end HttpParserUrl

/-! ### The scanner of the whole string -/

inductive UrlState where
  | dead
  | reqSpacesBeforeUrl
  | reqSchema
  | reqSchemaSlash
  | reqSchemaSlashSlash
  | reqServerStart
  | reqServer
  | reqServerWithAt
  | reqPath
  | reqQueryStringStart
  | reqQueryString
  | reqFragmentStart
  | reqFragment
  deriving DecidableEq

/-- The cases of `s_req_server_start` and `s_req_server`, into which `s_req_server_with_at` falls
through. -/
def parseServerChar (ch : UInt8) : UrlState :=
  if ch = byte '/' then .reqPath
  else if ch = byte '?' then .reqQueryStringStart
  else if ch = byte '@' then .reqServerWithAt
  else if isUserinfoChar ch || ch == byte '[' || ch == byte ']' then .reqServer
  else .dead

def parseUrlChar (s : UrlState) (ch : UInt8) : UrlState :=
  if ch = byte ' ' ∨ ch = byte '\r' ∨ ch = byte '\n' then .dead
  else if ch = byte '\t' ∨ ch = 0x0c then .dead
  else match s with
  | .reqSpacesBeforeUrl =>
    if ch = byte '/' ∨ ch = byte '*' then .reqPath else if isAlpha ch then .reqSchema else .dead
  | .reqSchema => if isAlpha ch then .reqSchema else if ch = byte ':' then .reqSchemaSlash else .dead
  | .reqSchemaSlash => if ch = byte '/' then .reqSchemaSlashSlash else .dead
  | .reqSchemaSlashSlash => if ch = byte '/' then .reqServerStart else .dead
  | .reqServerWithAt => if ch = byte '@' then .dead else parseServerChar ch
  | .reqServerStart | .reqServer => parseServerChar ch
  | .reqPath =>
    if isUrlChar ch then .reqPath
    else if ch = byte '?' then .reqQueryStringStart
    else if ch = byte '#' then .reqFragmentStart
    else .dead
  | .reqQueryStringStart | .reqQueryString =>
    if isUrlChar ch then .reqQueryString
    else if ch = byte '?' then .reqQueryString
    else if ch = byte '#' then .reqFragmentStart
    else .dead
  | .reqFragmentStart =>
    if isUrlChar ch then .reqFragment
    else if ch = byte '?' then .reqFragment
    else if ch = byte '#' then .reqFragmentStart
    else .dead
  | .reqFragment => if isUrlChar ch then .reqFragment else if ch = byte '?' ∨ ch = byte '#' then .reqFragment else .dead
  | .dead => .dead

/-- What the state after a character says about it. -/
inductive Reading where
  | failed
  | delimiter
  | field (uf : UrlField)

def UrlState.reading : UrlState → Reading
  | .reqSchemaSlash | .reqSchemaSlashSlash | .reqServerStart | .reqQueryStringStart | .reqFragmentStart => .delimiter
  | .reqSchema => .field .schema
  | .reqServerWithAt | .reqServer => .field .host
  | .reqPath => .field .path
  | .reqQueryString => .field .query
  | .reqFragment => .field .fragment
  | .dead | .reqSpacesBeforeUrl => .failed

/-- The local variables of the loop. -/
structure Scan where
  s : UrlState := .reqSpacesBeforeUrl
  p : Nat := 0
  oldUf : Option UrlField := none
  foundAt : Bool := false
  u : HttpParserUrl := {}

/-- The result once the character has been recorded as the next one of the field `uf`. -/
def Scan.record (c : Scan) (uf : UrlField) : HttpParserUrl :=
  if c.oldUf = some uf then c.u.extend uf else c.u.start uf c.p 1

/-- The rest of an iteration once the state after the character is known. -/
def Scan.enter (c : Scan) (s : UrlState) : Option Scan :=
  match s.reading with
  | .failed => none
  | .delimiter => some { c with s := s, p := c.p + 1 }
  | .field uf =>
    some
      { s := s
        p := c.p + 1
        oldUf := some uf
        foundAt := c.foundAt || s == .reqServerWithAt
        u := c.record uf }

def scanChar (c : Scan) (ch : UInt8) : Option Scan := c.enter (parseUrlChar c.s ch)

/-! ### The scanner of the authority -/

inductive HostState where
  | dead
  | userinfoStart
  | userinfo
  | hostStart
  | hostV6Start
  | host
  | hostV6
  | hostV6End
  | hostV6ZoneStart
  | hostV6Zone
  | hostPortStart
  | hostPort
  deriving DecidableEq

def isZoneChar (ch : UInt8) : Bool :=
  isAlphanum ch || ch == byte '%' || ch == byte '.' || ch == byte '-' || ch == byte '_' || ch == byte '~'

def httpParseHostChar (s : HostState) (ch : UInt8) : HostState :=
  match s with
  | .userinfo | .userinfoStart =>
    if ch = byte '@' then .hostStart else if isUserinfoChar ch then .userinfo else .dead
  | .hostStart => if ch = byte '[' then .hostV6Start else if isHostChar ch then .host else .dead
  | .host => if isHostChar ch then .host else if ch = byte ':' then .hostPortStart else .dead
  | .hostV6End => if ch = byte ':' then .hostPortStart else .dead
  | .hostV6 =>
    if ch = byte ']' then .hostV6End
    else if isHex ch || ch == byte ':' || ch == byte '.' then .hostV6
    else if ch = byte '%' then .hostV6ZoneStart
    else .dead
  | .hostV6Start => if isHex ch || ch == byte ':' || ch == byte '.' then .hostV6 else .dead
  | .hostV6Zone => if ch = byte ']' then .hostV6End else if isZoneChar ch then .hostV6Zone else .dead
  | .hostV6ZoneStart => if isZoneChar ch then .hostV6Zone else .dead
  | .hostPort | .hostPortStart => if isNum ch then .hostPort else .dead
  | .dead => .dead

structure HostScan where
  s : HostState
  p : Nat
  u : HttpParserUrl

/-- What the loop of `http_parse_host` does to the result when it goes from one state to the
next. -/
def HostScan.record (c : HostScan) (next : HostState) : HttpParserUrl :=
  match next with
  | .host | .hostV6 =>
    (if c.s ≠ next then c.u.modify .host fun field => { field with off := uint16 c.p } else c.u).extend .host
  | .hostV6ZoneStart | .hostV6Zone => c.u.extend .host
  | .hostPort => (if c.s ≠ .hostPort then c.u.start .port c.p 0 else c.u).extend .port
  | .userinfo => (if c.s ≠ .userinfo then c.u.start .userinfo c.p 0 else c.u).extend .userinfo
  | _ => c.u

def hostChar (c : HostScan) (ch : UInt8) : Option HostScan :=
  let next := httpParseHostChar c.s ch
  if next = .dead then none else some { s := next, p := c.p + 1, u := c.record next }

/-- The states in which the authority may not end. -/
def HostState.unexpected : HostState → Bool
  | .hostStart | .hostV6Start | .hostV6 | .hostV6ZoneStart | .hostV6Zone | .hostPortStart | .userinfo
  | .userinfoStart => true
  | .host | .hostV6End | .hostPort | .dead => false

def httpParseHost (buf : Bytes) (u : HttpParserUrl) (foundAt : Bool) : Option HttpParserUrl :=
  let field := u.fields .host
  let first : HostScan :=
    { s := if foundAt then .userinfoStart else .hostStart
      p := field.off
      u := u.modify .host fun field => { field with len := 0 } }
  (run hostChar first ((buf.drop field.off).take field.len)).bind fun last =>
    if last.s.unexpected then none else some last.u

/-! ### The whole function -/

/-- The number that the digits at the start of a text make. -/
def decimal (text : Bytes) : Nat :=
  (text.takeWhile isNum).foldl (fun n digit => n * 10 + (digit - byte '0').toNat) 0

/-- `strtoul` in base 10, for a text without white space and an `unsigned long` of 64 bits. -/
def strtoul (text : Bytes) : Nat :=
  let limit := 2 ^ 64
  match text with
  | [] => 0
  | sign :: rest =>
    if sign = byte '-' then if decimal rest < limit then (limit - decimal rest) % limit else limit - 1
    else min (decimal (if sign = byte '+' then rest else text)) (limit - 1)

/-- `http_parser_parse_url` with `is_connect` false. The result is absent where the function returns
1. -/
def httpParserParseUrl (buf : Bytes) : Option HttpParserUrl :=
  (run scanChar {} buf).bind fun c =>
    let u := c.u
    if (u.fields .schema).isSet && !(u.fields .host).isSet then none
    else
      (if (u.fields .host).isSet then httpParseHost buf u c.foundAt else some u).bind fun u =>
        if (u.fields .port).isSet then
          let v := strtoul (buf.drop (u.fields .port).off)
          if 0xffff < v then none else some { u with port := uint16 v }
        else some u

end Kingkong.Url
