import Kingkong.Lib.Run
import Kingkong.Lib.Bytes

/-!
`Socks5ClientImpl`: a handshake with a SOCKS5 proxy over a stream. A completion of `async_read_some`
or `async_write` is one event. `OnSocks5Handshake` is always the last thing a handler does.
-/

namespace Kingkong.Socks5
open Lib

inductive Socks5CheckStatus where
  | init | hello | needAuth | authSuccess | authReq | conSvr | conSvrSuccess
  deriving DecidableEq, Repr

def kSocks5Version : UInt8 := 0x05
def kSocks5AuthVersion : UInt8 := 0x01
def kSockstNAuthMethos : UInt8 := 0x01
def kSocks5NoAuth : UInt8 := 0x00
def kSocks5UsrNamePwdAuth : UInt8 := 0x02
def kSocks5RespStatus : UInt8 := 0x00
def kSocks5ConnectCmd : UInt8 := 0x01
def kSocks5RsvVal : UInt8 := 0x00
def kSocksATYPIPv4 : UInt8 := 0x01
def kSocksATYPHost : UInt8 := 0x03
def kSocksATYPIPv6 : UInt8 := 0x04

structure Socks5ProxyProperty where
  server : Bytes
  port : UInt16 := 0
  username : Bytes
  password : Bytes

/-- `address_v4::from_string` and `address_v6::from_string`: the address, or an error in `ec`. -/
structure Literals where
  v4 : Bytes → Option (Vector UInt8 4)
  v6 : Bytes → Option (Vector UInt8 16)

/-- Every host is a name. -/
def noLiterals : Literals := ⟨fun _ => none, fun _ => none⟩

/-- `reads` and `writes` count the operations outstanding on the stream, and `answers` are the codes
that `OnSocks5Handshake` was called with. -/
structure State where
  status : Socks5CheckStatus := .init
  receivedData : Bytes := []
  writeData : Bytes := []
  reads : Nat := 0
  writes : Nat := 0
  answers : List Int := []
  deriving DecidableEq

namespace State

def doReceiveData (s : State) : State := { s with reads := s.reads + 1 }

def doSendData (s : State) (buffer : Bytes) : State :=
  { s with writeData := buffer, writes := s.writes + 1 }

def onSocks5Handshake (s : State) (code : Int) : State := { s with answers := s.answers ++ [code] }

def doSendHello (info : Socks5ProxyProperty) (s : State) : State :=
  let method := if info.username.isEmpty || info.password.isEmpty then kSocks5NoAuth else kSocks5UsrNamePwdAuth
  { s.doSendData [kSocks5Version, kSockstNAuthMethos, method] with status := .hello }.doReceiveData

/-- A field with a one-byte length, which keeps only that many bytes of a longer string. -/
def lengthPrefixed (field : Bytes) : Bytes :=
  let len := UInt8.ofNat field.length
  len :: field.take len.toNat

def doSocks5Auth (info : Socks5ProxyProperty) (s : State) : State :=
  let buf := kSocks5AuthVersion :: (lengthPrefixed info.username ++ lengthPrefixed info.password)
  { s.doSendData buf with status := .authReq }.doReceiveData

/-- The request that `DoConnectMyServer` builds. `from_string` is static, so `v4` and `v6` stay as
they were constructed and only the error code of the call is used. -/
def connectRequest (literals : Literals) (info : Socks5ProxyProperty) : Bytes :=
  let v4 : Vector UInt8 4 := .replicate 4 0
  let v6 : Vector UInt8 16 := .replicate 16 0
  let socksType :=
    if (literals.v4 info.server).isSome then kSocksATYPIPv4
    else if (literals.v6 info.server).isSome then kSocksATYPIPv6
    else kSocksATYPHost
  let head := [kSocks5Version, kSocks5ConnectCmd, kSocks5RsvVal, socksType]
  let netPort := bigEndian 2 info.port.toNat
  if socksType = kSocksATYPIPv4 then head ++ (v4.toList ++ netPort)
  else if socksType = kSocksATYPIPv6 then head ++ (v6.toList ++ netPort)
  else head ++ (lengthPrefixed info.server ++ netPort)

def doConnectMyServer (literals : Literals) (info : Socks5ProxyProperty) (s : State) : State :=
  { s.doSendData (connectRequest literals info) with status := .conSvr }.doReceiveData

/-- `LoopSocks5Handshake(nullptr, 0)`, which the handlers call once they have moved to a sending
status. -/
def loopSending (literals : Literals) (info : Socks5ProxyProperty) (s : State) : State :=
  match s.status with
  | .init => s.doSendHello info
  | .needAuth => s.doSocks5Auth info
  | .authSuccess => s.doConnectMyServer literals info
  | _ => s

def handleHello (literals : Literals) (info : Socks5ProxyProperty) (s : State) (data : Bytes) :
    State :=
  let s := { s with receivedData := s.receivedData ++ data }
  if s.receivedData.length < 2 then s.doReceiveData
  else
    let ver := s.receivedData.getD 0 0
    let method := s.receivedData.getD 1 0
    if kSocks5Version ≠ ver then s.onSocks5Handshake (-1)
    else if kSocks5NoAuth = method then
      { s with status := .authSuccess, receivedData := [] }.loopSending literals info
    else if kSocks5UsrNamePwdAuth = method then
      { s with status := .needAuth, receivedData := [] }.loopSending literals info
    else s.onSocks5Handshake (-1)

def handleSocks5Auth (literals : Literals) (info : Socks5ProxyProperty) (s : State) (data : Bytes) :
    State :=
  let s := { s with receivedData := s.receivedData ++ data }
  if s.receivedData.length < 2 then s.doReceiveData
  else
    let ver := s.receivedData.getD 0 0
    let status := s.receivedData.getD 1 0
    if kSocks5AuthVersion ≠ ver ∨ kSocks5RespStatus ≠ status then s.onSocks5Handshake (-1)
    else { s with status := .authSuccess, receivedData := [] }.loopSending literals info

def signedChar (byte : UInt8) : Int := if byte.toNat < 128 then byte.toNat else byte.toNat - 256

/-- `(size_t)(4 + 1 + received_data_[4] + 2)`. The byte past the end of a string reads as zero. -/
def hostReplyLength (received : Bytes) : Nat :=
  ((4 + 1 + signedChar (received.getD 4 0) + 2) % 2 ^ 64).toNat

def incomplete (received : Bytes) : Bool :=
  let atyp := received.getD 3 0
  (atyp == kSocksATYPIPv4 && received.length < 4 + 4 + 2) ||
    (atyp == kSocksATYPHost && received.length < hostReplyLength received) ||
    (atyp == kSocksATYPIPv6 && received.length < 4 + 16 + 2)

def handleConnectBussinessServer (s : State) (data : Bytes) : State :=
  let s := { s with receivedData := s.receivedData ++ data }
  if s.receivedData.length < 4 then s.doReceiveData
  else if incomplete s.receivedData then s
  else
    let ver := s.receivedData.getD 0 0
    let status := s.receivedData.getD 1 0
    if kSocks5Version ≠ ver ∨ kSocks5RespStatus ≠ status then s.onSocks5Handshake (-1)
    else { s with status := .conSvrSuccess }.onSocks5Handshake 0

def loopSocks5Handshake (literals : Literals) (info : Socks5ProxyProperty) (s : State)
    (data : Bytes) : State :=
  match s.status with
  | .hello => s.handleHello literals info data
  | .authReq => s.handleSocks5Auth literals info data
  | .conSvr => s.handleConnectBussinessServer data
  | _ => s.loopSending literals info

def connect (literals : Literals) (info : Socks5ProxyProperty) (s : State) : State :=
  if s.status ≠ .init then s else s.loopSocks5Handshake literals info []

end State

inductive Event where
  | read (data : Bytes)
  | readError
  | written
  | writeError

/-- The read buffer holds 10 bytes, and `async_read_some` delivers at least one. -/
def step (literals : Literals) (info : Socks5ProxyProperty) (s : State) : Event → Option State
  | .read data =>
    if 0 < s.reads ∧ 1 ≤ data.length ∧ data.length ≤ 10 then
      some ({ s with reads := s.reads - 1 }.loopSocks5Handshake literals info data)
    else none
  | .readError =>
    if 0 < s.reads then some ({ s with reads := s.reads - 1 }.onSocks5Handshake (-1)) else none
  | .written => if 0 < s.writes then some { s with writes := s.writes - 1 } else none
  | .writeError =>
    if 0 < s.writes then some ({ s with writes := s.writes - 1 }.onSocks5Handshake (-1)) else none

def connected (literals : Literals) (info : Socks5ProxyProperty) : State :=
  ({} : State).connect literals info

end Kingkong.Socks5
