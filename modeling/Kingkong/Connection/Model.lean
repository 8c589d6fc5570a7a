import Kingkong.Socks5.Model

/-!
`NetConnectionImpl` with its resolver and its SOCKS5 client. Everything but the calls of the owner
runs on one pump thread: the posted tasks, in the order of their posts, and the completions of
outstanding operations, in any order and with any outcome. An error code is zero for success.
-/

namespace Kingkong.Connection
open Lib

inductive NetType where
  | tcp | tcpTls | websocket | websocketTls | http | https
  deriving DecidableEq, Repr

structure NetConnectionRequest where
  host : Bytes
  port : UInt16
  netType : NetType := .tcp
  proxyHost : Bytes := []
  proxyPort : UInt16 := 0
  proxyUsername : Bytes := []
  proxyPasswd : Bytes := []

/-- A `DnsResolverImpl`: whether it still has a delegate, and its outstanding `async_resolve`
calls. -/
structure DnsResolver where
  host : Bytes
  port : UInt16
  delegate : Bool := true
  outstanding : Nat := 0
  deriving DecidableEq

inductive Task where
  | doDnsResolve
  | doResolver (k : Nat)
  | doCancel (k : Nat)
  | doSendFromQueue (buffer : Bytes)
  | handleCleanUp
  deriving DecidableEq

inductive Callback where
  | onConnect (code : Int)
  | onRecvData (data : Bytes)
  | onDisconnect (code : Int)
  deriving DecidableEq

/-- What a connection does: the operations that it starts, its callbacks and its clean-up. -/
inductive Action where
  | resolve (k : Nat)
  | connect
  | socks5Connect
  | tlsHandshake
  | websocketHandshake
  | recvData
  | sendData (buffer : Bytes)
  | callback (callback : Callback)
  | cleanUp
  deriving DecidableEq

/-- `connects` to `writes` count the operations outstanding on the stream, `cleanUps` the calls of
`DoCleanUp`. `resolvers` has every resolver that was created, and `dnsResolver` tells which one the
connection holds. `history` is what the connection has done, in order. -/
structure State where
  delegate : Bool := true
  stoped : Bool := false
  alreadyCleanUp : Bool := false
  sendBuffers : List Bytes := []
  tasks : List Task := []
  resolvers : List DnsResolver := []
  dnsResolver : Option Nat := none
  socks5Client : Option Socks5.State := none
  connects : Nat := 0
  tlsHandshakes : Nat := 0
  websocketHandshakes : Nat := 0
  reads : Nat := 0
  writes : Nat := 0
  cleanUps : Nat := 0
  callbacks : List Callback := []
  history : List Action := []
  deriving DecidableEq

def proxyProperty (request : NetConnectionRequest) : Socks5.Socks5ProxyProperty where
  server := request.host
  port := request.port
  username := request.proxyUsername
  password := request.proxyPasswd

namespace State

def postRunable (s : State) (task : Task) : State := { s with tasks := s.tasks ++ [task] }

def notify (s : State) (callback : Callback) : State :=
  if s.delegate then
    { s with callbacks := s.callbacks ++ [callback], history := s.history ++ [.callback callback] }
  else s

def handleConnectStatus (s : State) (code : Int) : State := s.notify (.onConnect code)

def notifyDisconnect (s : State) (code : Int) : State := s.notify (.onDisconnect code)

/-- `dns_resolver_->Cancel()` and the release of the pointer. -/
def cancelResolver (s : State) : State :=
  match s.dnsResolver with
  | some k =>
    { s with
      resolvers := s.resolvers.modify k fun resolver => { resolver with delegate := false }
      dnsResolver := none }.postRunable (.doCancel k)
  | none => s

def handleCleanUp (s : State) : State :=
  if s.alreadyCleanUp then s
  else
    let s := { s with alreadyCleanUp := true, socks5Client := none }.cancelResolver
    { s with cleanUps := s.cleanUps + 1, history := s.history ++ [.cleanUp] }

def startRecvDate (s : State) : State :=
  { s with reads := s.reads + 1, history := s.history ++ [.recvData] }

def doTlsHandshake (s : State) : State :=
  { s with tlsHandshakes := s.tlsHandshakes + 1, history := s.history ++ [.tlsHandshake] }

def doWebsocketHandshake (s : State) : State :=
  { s with websocketHandshakes := s.websocketHandshakes + 1, history := s.history ++ [.websocketHandshake] }

def doOtherHandshake (request : NetConnectionRequest) (s : State) (code : Int) : State :=
  match request.netType with
  | .websocketTls | .tcpTls | .https => s.doTlsHandshake
  | .websocket => s.doWebsocketHandshake
  | _ => (s.handleConnectStatus code).startRecvDate

def onSocks5Handshake (request : NetConnectionRequest) (s : State) (state : Int) : State :=
  let s := if state ≠ 0 then s.handleCleanUp.handleConnectStatus state else s.doOtherHandshake request state
  { s with socks5Client := none }

def doDnsResolve (request : NetConnectionRequest) (s : State) : State :=
  let resolver : DnsResolver :=
    if request.proxyHost ≠ [] then { host := request.proxyHost, port := request.proxyPort }
    else { host := request.host, port := request.port }
  { s with
    resolvers := s.resolvers ++ [resolver]
    dnsResolver := some s.resolvers.length }.postRunable (.doResolver s.resolvers.length)

def onDnsResolvered (s : State) (code : Int) : State :=
  let s := s.cancelResolver
  if code ≠ 0 then (s.handleConnectStatus code).handleCleanUp
  else { s with connects := s.connects + 1, history := s.history ++ [.connect] }

def notifyConnectComplete (literals : Socks5.Literals) (request : NetConnectionRequest) (s : State)
    (ec : Int) : State :=
  if ec = 0 then
    if request.proxyHost ≠ [] then
      { s with
        socks5Client := some (Socks5.connected literals (proxyProperty request))
        history := s.history ++ [.socks5Connect] }
    else s.doOtherHandshake request ec
  else s.handleCleanUp.handleConnectStatus ec

def notifyTlsHandshakeComplete (request : NetConnectionRequest) (s : State) (ec : Int) : State :=
  if ec = 0 then
    match request.netType with
    | .websocketTls => s.doWebsocketHandshake
    | _ => (s.handleConnectStatus ec).startRecvDate
  else (s.handleConnectStatus ec).handleCleanUp

def notifyWebsocketHandshakeComplte (s : State) (ec : Int) : State :=
  let s := s.handleConnectStatus ec
  if ec = 0 then s.startRecvDate else s.handleCleanUp

def doSendData (s : State) (buffer : Bytes) : State :=
  { s with writes := s.writes + 1, history := s.history ++ [.sendData buffer] }

/-- `send_buffers.front()`, which is called only when there is one. -/
def front (s : State) : Bytes := s.sendBuffers.headD []

def doSendFromQueue (s : State) (buffer : Bytes) : State :=
  let writeInProgress := !s.sendBuffers.isEmpty
  let s := { s with sendBuffers := s.sendBuffers ++ [buffer] }
  if !writeInProgress && !s.alreadyCleanUp then s.doSendData s.front else s

def notifySendComplete (s : State) (ec : Int) : State :=
  if ec ≠ 0 then (s.notifyDisconnect ec).handleCleanUp
  else
    let s := { s with sendBuffers := s.sendBuffers.tail }
    if !s.sendBuffers.isEmpty && !s.alreadyCleanUp then s.doSendData s.front else s

def handleRecvData (s : State) (data : Bytes) : State := (s.notify (.onRecvData data)).startRecvDate

def notifyRecvData (s : State) (ec : Int) (data : Bytes) : State :=
  if ec ≠ 0 then (s.notifyDisconnect ec).handleCleanUp else s.handleRecvData data

/-- The weak reference of a posted `DoResolver` still finds its resolver. -/
def resolverAlive (s : State) (k : Nat) : Bool :=
  s.dnsResolver == some k || s.tasks.contains (.doCancel k) ||
    (s.resolvers.getD k { host := [], port := 0 }).outstanding != 0

def runTask (request : NetConnectionRequest) (s : State) : Task → State
  | .doDnsResolve => s.doDnsResolve request
  | .doResolver k =>
    if s.resolverAlive k then
      { s with
        resolvers := s.resolvers.modify k fun resolver => { resolver with outstanding := resolver.outstanding + 1 }
        history := s.history ++ [.resolve k] }
    else s
  | .doCancel _ => s
  | .doSendFromQueue buffer => s.doSendFromQueue buffer
  | .handleCleanUp => s.handleCleanUp

def connect (s : State) : State := s.postRunable .doDnsResolve

def disConnect (s : State) : State :=
  if s.stoped then s else { s with stoped := true, delegate := false }.postRunable .handleCleanUp

def send (s : State) (buffer : Bytes) : State :=
  if s.stoped then s else s.postRunable (.doSendFromQueue buffer)

/-- The completion of a lookup. A resolver that was cancelled has nobody to tell. -/
def notifyResult (s : State) (k : Nat) (code : Int) : Option State :=
  match s.resolvers[k]? with
  | some resolver =>
    if 0 < resolver.outstanding then
      let s := { s with resolvers := s.resolvers.modify k fun resolver =>
        { resolver with outstanding := resolver.outstanding - 1 } }
      some (if resolver.delegate then s.onDnsResolvered code else s)
    else none
  | none => none

def socks5Step (literals : Socks5.Literals) (request : NetConnectionRequest) (s : State)
    (event : Socks5.Event) :
    Option State :=
  match s.socks5Client with
  | some client =>
    (Socks5.step literals (proxyProperty request) client event).map fun next =>
      let s := { s with socks5Client := some next }
      match next.answers.drop client.answers.length with
      | code :: _ => s.onSocks5Handshake request code
      | [] => s
  | none => none

end State

inductive Event where
  | connect
  | disConnect
  | send (buffer : Bytes)
  | run
  | resolved (k : Nat) (code : Int)
  | connected (ec : Int)
  | socks5 (event : Socks5.Event)
  | tlsHandshake (ec : Int)
  | websocketHandshake (ec : Int)
  | read (ec : Int) (data : Bytes)
  | written (ec : Int)

/-- A read delivers at most `MAX_RECV_READ` bytes. -/
def step (literals : Socks5.Literals) (request : NetConnectionRequest) (s : State) :
    Event → Option State
  | .connect => some s.connect
  | .disConnect => some s.disConnect
  | .send buffer => some (s.send buffer)
  | .run =>
    match s.tasks with
    | task :: rest => some ({ s with tasks := rest }.runTask request task)
    | [] => none
  | .resolved k code => s.notifyResult k code
  | .connected ec =>
    if 0 < s.connects then some ({ s with connects := s.connects - 1 }.notifyConnectComplete literals request ec)
    else none
  | .socks5 event => s.socks5Step literals request event
  | .tlsHandshake ec =>
    if 0 < s.tlsHandshakes then
      some ({ s with tlsHandshakes := s.tlsHandshakes - 1 }.notifyTlsHandshakeComplete request ec)
    else none
  | .websocketHandshake ec =>
    if 0 < s.websocketHandshakes then
      some ({ s with websocketHandshakes := s.websocketHandshakes - 1 }.notifyWebsocketHandshakeComplte ec)
    else none
  | .read ec data =>
    if 0 < s.reads ∧ data.length ≤ 1024 then some ({ s with reads := s.reads - 1 }.notifyRecvData ec data) else none
  | .written ec => if 0 < s.writes then some ({ s with writes := s.writes - 1 }.notifySendComplete ec) else none

end Kingkong.Connection
