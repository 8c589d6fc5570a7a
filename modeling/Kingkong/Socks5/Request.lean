import Kingkong.Socks5.Model

/-!
The connect request against the request grammar of RFC 1928:
`VER=5 CMD=1 RSV=0 ATYP DST.ADDR DST.PORT`, where a domain name carries its length in one byte.
The username and password request against the grammar of RFC 1929: `VER=1 ULEN UNAME PLEN PASSWD`.
-/

namespace Kingkong.Socks5
open Lib State

inductive Destination where
  | v4 (address : Bytes)
  | v6 (address : Bytes)
  | domain (name : Bytes)
  deriving DecidableEq

/-- What the proxy is to connect to: a literal denotes its address and any other string is a
name. -/
def denotes (literals : Literals) (server : Bytes) : Destination :=
  match literals.v4 server with
  | some address => .v4 address.toList
  | none =>
    match literals.v6 server with
    | some address => .v6 address.toList
    | none => .domain server

def parseAddress (n : Nat) (rest : Bytes) : Option (Bytes × UInt16) :=
  if rest.length = n + 2 then some (rest.take n, UInt16.ofNat (ofBigEndian (rest.drop n))) else none

/-- The destination of a well-formed request that fills the input. -/
def parseRequest : Bytes → Option (Destination × UInt16)
  | 5 :: 1 :: 0 :: 1 :: rest => (parseAddress 4 rest).map fun (address, port) => (.v4 address, port)
  | 5 :: 1 :: 0 :: 4 :: rest => (parseAddress 16 rest).map fun (address, port) => (.v6 address, port)
  | 5 :: 1 :: 0 :: 3 :: len :: rest => (parseAddress len.toNat rest).map fun (name, port) => (.domain name, port)
  | _ => none

/-- The request names the server and the port. For a server that no request can name, none names
another. -/
def Encodes (literals : Literals) (info : Socks5ProxyProperty) (request : Bytes) : Prop :=
  if info.server.length ≤ 255 then parseRequest request = some (denotes literals info.server, info.port)
  else ∀ destination port, parseRequest request = some (destination, port) →
    destination = denotes literals info.server

variable {literals : Literals} {info : Socks5ProxyProperty}

theorem port_bigEndian (port : UInt16) :
    UInt16.ofNat (ofBigEndian (bigEndian 2 port.toNat)) = port := by
  rw [ofBigEndian_bigEndian (by have := port.toNat_lt; omega)]
  exact UInt16.ofNat_toNat

theorem parseAddress_append {n : Nat} {address : Bytes} (length : address.length = n)
    (port : UInt16) :
    parseAddress n (address ++ bigEndian 2 port.toNat) = some (address, port) := by
  subst length
  simp [parseAddress, port_bigEndian]

theorem parse_domain (server : Bytes) (port : UInt16) :
    parseRequest (5 :: 1 :: 0 :: 3 :: (lengthPrefixed server ++ bigEndian 2 port.toNat)) =
      some (.domain (server.take (server.length % 256)), port) := by
  have len : (UInt8.ofNat server.length).toNat = server.length % 256 := by simp
  have parsed := parseAddress_append (n := server.length % 256)
    (by rw [List.length_take]; exact Nat.min_eq_left (Nat.mod_le _ _)) port
  simp only [lengthPrefixed, List.cons_append, parseRequest, len, parsed, Option.map_some]

theorem connectRequest_v4 {address : Vector UInt8 4}
    (literal : literals.v4 info.server = some address) :
    parseRequest (connectRequest literals info) = some (.v4 [0, 0, 0, 0], info.port) := by
  have request : connectRequest literals info = 5 :: 1 :: 0 :: 1 :: ([0, 0, 0,
      0] ++ bigEndian 2 info.port.toNat) := by
    simp only [connectRequest, literal, Option.isSome_some, if_true]
    rfl
  rw [request, parseRequest, parseAddress_append (n := 4) rfl]
  rfl

theorem connectRequest_v6 {address : Vector UInt8 16} (notV4 : literals.v4 info.server = none)
    (literal : literals.v6 info.server = some address) :
    parseRequest (connectRequest literals info) = some (.v6 (List.replicate 16 0), info.port) := by
  have request : connectRequest literals info =
      5 :: 1 :: 0 :: 4 :: (List.replicate 16 0 ++ bigEndian 2 info.port.toNat) := by
    simp only [connectRequest, notV4, literal, Option.isSome_none, Option.isSome_some, if_true]
    rfl
  rw [request, parseRequest, parseAddress_append (by simp)]
  rfl

theorem connectRequest_domain (notV4 : literals.v4 info.server = none)
    (notV6 : literals.v6 info.server = none) :
    parseRequest (connectRequest literals info) =
      some (.domain (info.server.take (info.server.length % 256)), info.port) := by
  rw [← parse_domain]
  simp only [connectRequest, notV4, notV6, Option.isSome_none]
  rfl

/-- A literal survives only if it is the unspecified address, and a name only if its length fits. -/
def Encodable (literals : Literals) (server : Bytes) : Prop :=
  match literals.v4 server with
  | some address => address.toList = [0, 0, 0, 0]
  | none =>
    match literals.v6 server with
    | some address => address.toList = List.replicate 16 0
    | none => server.length ≤ 255

theorem encodes_iff {request : Bytes} {destination : Destination}
    (parsed : parseRequest request = some (destination, info.port)) :
    Encodes literals info request ↔ destination = denotes literals info.server := by
  unfold Encodes
  rw [parsed]
  split
  · simp
  · constructor
    · intro named
      exact named destination info.port rfl
    · intro same other port equal
      cases equal
      exact same

theorem take_mod_iff (server : Bytes) :
    server.take (server.length % 256) = server ↔ server.length ≤ 255 := by
  constructor
  · intro same
    have length := congrArg List.length same
    have small := Nat.mod_lt server.length (by decide : 0 < 256)
    rw [List.length_take] at length
    omega
  · intro fits
    rw [Nat.mod_eq_of_lt (by omega), List.take_length]

/-- `DoConnectMyServer` sends a request for the server exactly when the server is `Encodable`. -/
theorem connect_request_iff (s : State) :
    Encodes literals info (s.doConnectMyServer literals info).writeData ↔
      Encodable literals info.server := by
  show Encodes literals info (connectRequest literals info) ↔ _
  cases v4 : literals.v4 info.server with
  | some address =>
    rw [encodes_iff (connectRequest_v4 v4)]
    simp [denotes, Encodable, v4, eq_comm]
  | none =>
    cases v6 : literals.v6 info.server with
    | some address =>
      rw [encodes_iff (connectRequest_v6 v4 v6)]
      simp only [denotes, Encodable, v4, v6, Destination.v6.injEq]
      exact eq_comm
    | none =>
      rw [encodes_iff (connectRequest_domain v4 v6)]
      simp only [denotes, Encodable, v4, v6, Destination.domain.injEq]
      exact take_mod_iff info.server

def dotted : Bytes := [49, 46, 50, 46, 51, 46, 52]

def dottedLiterals : Literals :=
  ⟨fun server => if server = dotted then some #v[1, 2, 3, 4] else none, fun _ => none⟩

def dottedServer : Socks5ProxyProperty :=
  { server := dotted, port := 443, username := [], password := [] }

/-- A request for `1.2.3.4` asks the proxy for `0.0.0.0`. -/
theorem connect_request_dotted :
    parseRequest (({} : State).doConnectMyServer dottedLiterals dottedServer).writeData =
      some (.v4 [0, 0, 0, 0], 443) ∧
      denotes dottedLiterals dotted = .v4 [1, 2, 3, 4] ∧
      ¬ Encodes dottedLiterals dottedServer (({} : State).doConnectMyServer dottedLiterals dottedServer).writeData := by
  refine ⟨by decide, by decide, ?_⟩
  unfold Encodes
  rw [if_pos (by decide)]
  decide

/-! ### Username and password -/

/-- A field with a one-byte length, and what follows it. -/
def parseField : Bytes → Option (Bytes × Bytes)
  | len :: rest => if len.toNat ≤ rest.length then some (rest.take len.toNat, rest.drop len.toNat) else none
  | [] => none

/-- The credentials of a well-formed request that fills the input. -/
def parseAuth : Bytes → Option (Bytes × Bytes)
  | 1 :: rest => do
    let (username, rest) ← parseField rest
    let (password, rest) ← parseField rest
    if rest = [] then some (username, password) else none
  | _ => none

theorem parseField_lengthPrefixed (field rest : Bytes) :
    parseField (lengthPrefixed field ++ rest) = some (field.take (field.length % 256), rest) := by
  have len : (UInt8.ofNat field.length).toNat = field.length % 256 := by simp
  have kept : (field.take (field.length % 256)).length = field.length % 256 := by
    rw [List.length_take]
    exact Nat.min_eq_left (Nat.mod_le _ _)
  simp only [lengthPrefixed, List.cons_append, parseField, len]
  rw [if_pos (by rw [List.length_append, kept]; omega), List.take_left' kept, List.drop_left' kept]

theorem parse_auth (s : State) : parseAuth (s.doSocks5Auth info).writeData =
    some (info.username.take (info.username.length % 256),
      info.password.take (info.password.length % 256)) := by
  have first := parseField_lengthPrefixed info.username (lengthPrefixed info.password)
  have second := parseField_lengthPrefixed info.password []
  rw [List.append_nil] at second
  show parseAuth (1 :: (lengthPrefixed info.username ++ lengthPrefixed info.password)) = _
  simp [parseAuth, first, second]

/-- `DoSocks5Auth` sends the configured credentials exactly when the length of each fits in its
byte. -/
theorem auth_request_iff (s : State) :
    parseAuth (s.doSocks5Auth info).writeData = some (info.username, info.password) ↔
      info.username.length ≤ 255 ∧ info.password.length ≤ 255 := by
  rw [parse_auth, Option.some.injEq, Prod.mk.injEq]
  exact and_congr (take_mod_iff info.username) (take_mod_iff info.password)

def longName : Socks5ProxyProperty :=
  { server := [104], port := 80, username := List.replicate 256 97, password := [112] }

/-- A name of 256 bytes is sent as the empty name. -/
theorem auth_request_longName :
    parseAuth (({} : State).doSocks5Auth longName).writeData = some ([], [112]) ∧
      longName.username ≠ [] := by
  have length : longName.username.length = 256 := List.length_replicate
  constructor
  · rw [parse_auth, length]
    rfl
  · intro empty
    rw [empty] at length
    cases length

end Kingkong.Socks5
