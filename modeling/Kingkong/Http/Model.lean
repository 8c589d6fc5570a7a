import Kingkong.Lib.Lock
import Kingkong.Lib.Bytes
import Mathlib.Logic.Function.Basic

/-!
`HttpConnectionBase`: an HTTP client that is the delegate of its own connection and the parser of
its own response. It tells its `HttpClientDelegate` under `delegate_mutex_`, and the connection
tells the client under its own mutex. Clients are numbered, and a delegate may serve many of them.
-/

namespace Kingkong.Http
open Lib Locked

inductive Mutex where
  | delegate (c : Nat)
  | connection (c : Nat)
  | auth
  | downloader
  deriving DecidableEq

/-- What the connection and the parser have delivered so far. -/
inductive Stage where
  | created | requested | failed | statusLine | fields | body | finished | closed
  deriving DecidableEq

/-- `delegate` and `connectionDelegate` are `delegate_` of the client and of its connection.
`writing` says that the request is being written. `body` has every body piece that the parser
delivered, and `stage` is `finished` once `on_finish_impl` has been called. -/
structure Client where
  delegate : Bool := true
  httpCode : Nat := 404
  heads : List (Bytes × Bytes) := []
  bodyLimit : Option Nat := none
  recvComplete : Bool := false
  connectionDelegate : Bool := true
  stoped : Bool := false
  writing : Bool := false
  stage : Stage := .created
  body : Bytes := []
  deriving DecidableEq

structure System (D : Type) where
  clients : Nat → Client := fun _ => {}
  delegate : D

/-- How the file system takes an `open` and a `write`. A write that fails keeps `kept` bytes. -/
structure FileIO where
  opens : Bool := true
  writes : Bool := true
  kept : Nat := 0

abbrev Call (D : Type) := Locked Mutex (System D)

structure HttpClientDelegate (D : Type) where
  onHttpHeads : Nat → List (Bytes × Bytes) → Call D Unit
  onHttpResponse : Nat → FileIO → Bytes → Call D Unit
  onHttpComplete : Nat → Nat → Call D Unit

variable {D : Type}

def System.set (s : System D) (c : Nat) (client : Client) : System D :=
  { s with clients := Function.update s.clients c client }

def setClient (c : Nat) (f : Client → Client) : Call D Unit :=
  modify fun s => s.set c (f (s.clients c))

def setDelegate (f : D → D) : Call D Unit := modify fun s => { s with delegate := f s.delegate }

/-- `NetConnectionImpl::DisConnect`. -/
def disConnect (c : Nat) : Call D Unit := do
  let s ← read
  if (s.clients c).stoped then pure ()
  else
    setClient c fun client => { client with stoped := true }
    withLock (.connection c) (setClient c fun client => { client with connectionDelegate := false })

def cancel (c : Nat) : Call D Unit := do
  withLock (.delegate c) (setClient c fun client => { client with delegate := false })
  disConnect c

/-- Calls the delegate under `delegate_mutex_`, if it is there. -/
def tell (c : Nat) (call : Client → Call D Unit) : Call D Unit :=
  withLock (.delegate c) do
    let s ← read
    if (s.clients c).delegate then call (s.clients c) else pure ()

def notifyComplete (delegate : HttpClientDelegate D) (c : Nat) : Call D Unit :=
  tell c fun client => delegate.onHttpComplete c client.httpCode

def notifyResponse (delegate : HttpClientDelegate D) (c : Nat) (io : FileIO) (message : Bytes) :
    Call D Unit :=
  tell c fun _ => delegate.onHttpResponse c io message

/-- `Send` posts the write to the pump, unless `stoped_`, and takes no lock. -/
def onConnect (delegate : HttpClientDelegate D) (c : Nat) (code : Int) : Call D Unit :=
  if code = 0 then setClient c fun client => { client with writing := !client.stoped }
  else do
    setClient c fun client => { client with httpCode := 404 }
    notifyComplete delegate c

def onDisconnect (delegate : HttpClientDelegate D) (c : Nat) : Call D Unit :=
  notifyComplete delegate c

/-- The connection calls the client under its own mutex, unless it was disconnected. -/
def fromConnection (c : Nat) (call : Call D Unit) : Call D Unit :=
  withLock (.connection c) do
    let s ← read
    if (s.clients c).connectionDelegate then call else pure ()

def handleConnectStatus (delegate : HttpClientDelegate D) (c : Nat) (code : Int) : Call D Unit :=
  fromConnection c (onConnect delegate c code)

def notifyDisconnect (delegate : HttpClientDelegate D) (c : Nat) : Call D Unit :=
  fromConnection c (onDisconnect delegate c)

def contentLength : Bytes := "Content-Length".toUTF8.toList

/-- `heads_[name] = value`. -/
def setHead (heads : List (Bytes × Bytes)) (name value : Bytes) : List (Bytes × Bytes) :=
  heads.filter (fun head => head.1 != name) ++ [(name, value)]

def findHead (heads : List (Bytes × Bytes)) (name : Bytes) : Option Bytes :=
  (heads.find? fun head => head.1 == name).map Prod.snd

/-- `on_field_impl`. There is no next state when `lexical_cast` throws. -/
def onFieldImpl (lexicalCast : Bytes → Option Nat) (name value : Bytes) (client : Client) :
    Option Client :=
  let client := { client with heads := setHead client.heads name value }
  if name = contentLength then
    (lexicalCast value).map fun length => if length ≠ 0 then { client with bodyLimit := some length } else client
  else some client

def onHeaderImpl (delegate : HttpClientDelegate D) (c : Nat) : Call D Unit :=
  tell c fun client => delegate.onHttpHeads c client.heads

def onBodyImpl (delegate : HttpClientDelegate D) (c : Nat) (io : FileIO) (body : Bytes) :
    Call D Unit :=
  notifyResponse delegate c io body

def onChunkBodyImpl (delegate : HttpClientDelegate D) (c : Nat) (io : FileIO) (body : Bytes) :
    Call D Unit :=
  notifyResponse delegate c io body

def onFinishImpl (delegate : HttpClientDelegate D) (c : Nat) : Call D Unit := do
  notifyComplete delegate c
  setClient c fun client => { client with recvComplete := true }

inductive Event where
  | connected
  | connectFailed (code : Int)
  | response (code : Nat)
  | field (name value : Bytes)
  | header
  | body (io : FileIO) (content : Bytes)
  | chunk (io : FileIO) (content : Bytes)
  | finish
  | readError
  | written
  | writeError

/-- The stages in which a read may complete. No read follows one that failed. -/
def Stage.reads : Stage → Bool
  | .statusLine | .fields | .body | .finished => true
  | _ => false

def piece (c : Nat) (content : Bytes) : Call D Unit :=
  setClient c fun client => { client with body := client.body ++ content }

def setStage (c : Nat) (stage : Stage) : Call D Unit :=
  setClient c fun client => { client with stage := stage }

/-- The handling of an event by the IO thread, in the order in which a connection and a parser
produce events. -/
def deliver (delegate : HttpClientDelegate D) (lexicalCast : Bytes → Option Nat) (c : Nat)
    (client : Client) :
    Event → Option (Call D Unit)
  | .connected =>
    if client.stage = .requested then some (do setStage c .statusLine; handleConnectStatus delegate c 0) else none
  | .connectFailed code =>
    if client.stage = .requested ∧ code ≠ 0 then some (do setStage c .failed; handleConnectStatus delegate c code)
    else none
  | .response code =>
    if client.stage = .statusLine then some (setClient c fun client => { client with httpCode := code, stage := .fields })
    else none
  | .field name value =>
    if client.stage = .fields then
      (onFieldImpl lexicalCast name value client).map fun next => setClient c fun _ => next
    else none
  | .header => if client.stage = .fields then some (do setStage c .body; onHeaderImpl delegate c) else none
  | .body io content =>
    if client.stage = .body then some (do piece c content; onBodyImpl delegate c io content) else none
  | .chunk io content =>
    if client.stage = .body then some (do piece c content; onChunkBodyImpl delegate c io content) else none
  | .finish => if client.stage = .body then some (do setStage c .finished; onFinishImpl delegate c) else none
  | .readError =>
    -- The completion is looked at only as long as the message is not complete.
    if client.stage.reads then
      some (if client.recvComplete then pure () else do setStage c .closed; notifyDisconnect delegate c)
    else none
  | .written =>
    if client.writing then some (setClient c fun client => { client with writing := false }) else none
  | .writeError =>
    if client.writing then
      some (do setClient c fun client => { client with writing := false }; notifyDisconnect delegate c)
    else none

/-- The system, and the mutex at which the IO thread waits for itself, if it does. -/
structure Thread (D : Type) where
  system : System D
  stuck : Option Mutex := none

def Thread.ofResult : Except Mutex Unit × System D → Thread D
  | (.ok _, system) => { system := system }
  | (.error m, system) => { system := system, stuck := some m }

def Thread.perform (t : Thread D) (call : Call D Unit) : Thread D := .ofResult (call [] t.system)

/-- A thread that is stuck handles nothing. -/
def ioStep (delegate : HttpClientDelegate D) (lexicalCast : Bytes → Option Nat) (c : Nat)
    (t : Thread D) (event : Event) :
    Option (Thread D) :=
  if t.stuck.isSome then none
  else (deliver delegate lexicalCast c (t.system.clients c) event).map t.perform

end Kingkong.Http
