import Kingkong.Http.Delivery
import Kingkong.Lib.Run

/-!
`AuthManager`: the delegate of the HTTP clients of all authorization requests. A request is started
before it is registered in `auth_map_`, where the callbacks look for it by its client. The request
with the number `c` has the client `c` and the delegate `c`.
-/

namespace Kingkong.Auth
open Lib Locked Http

/-- `xauth::response`, as `ParseFromString` leaves it. -/
structure Response where
  code : Int32 := 0
  signature : Bytes := []
  desc : Bytes := []

/-- The functions that `AuthManager` calls. `parseFromString` also says whether the bytes are a
response. -/
structure Given where
  base64Decode : Bytes → Bytes
  parseFromString : Bytes → Bool × Response
  rsaVerify : Bytes → Bytes → Bool

structure AuthInfo where
  randomId : Bytes
  deviceId : Bytes
  productType : Int32
  version : Int32
  token : Bytes
  delegate : Nat
  httpClient : Nat
  responseData : Bytes := []

structure DelegateCall where
  delegate : Nat
  status : Int
  desc : Bytes

/-- `starting` has the requests that were started and are not registered yet. -/
structure AuthManager where
  id : Int32 := 0
  authMap : List (Int32 × AuthInfo) := []
  starting : List AuthInfo := []
  calls : List DelegateCall := []

def text (s : String) : Bytes := s.toUTF8.toList

def authInfo (c : Nat) (productType version : Int32) (token randomId : Bytes) : AuthInfo where
  randomId := randomId
  deviceId := text "nodeviceid"
  productType := productType
  version := version
  token := token
  delegate := c
  httpClient := c

def signatureSource (info : AuthInfo) : Bytes :=
  text (toString info.productType.toInt) ++ text (toString info.version.toInt) ++ info.token ++ info.deviceId ++
    info.randomId

/-- The result of `ParseFromString` is not looked at. -/
def handleAuthResponse (given : Given) (info : AuthInfo) (httpCode : Nat) : DelegateCall :=
  if httpCode ≠ 200 then ⟨info.delegate, httpCode, text "failed"⟩
  else
    let response := (given.parseFromString (given.base64Decode info.responseData)).2
    if response.code ≠ 200 then ⟨info.delegate, response.code.toInt, response.desc⟩
    else if given.rsaVerify (signatureSource info) (given.base64Decode response.signature) then
      ⟨info.delegate, response.code.toInt, response.desc⟩
    else ⟨info.delegate, 401, response.desc⟩

namespace AuthManager

/-- The first half of `AuthRequest`, which ends with `Request`. -/
def start (info : AuthInfo) (m : AuthManager) : AuthManager :=
  { m with starting := m.starting ++ [info] }

/-- The locked section of `AuthRequest`. -/
def register (info : AuthInfo) (m : AuthManager) : AuthManager :=
  { m with
    id := m.id + 1
    authMap := m.authMap.filter (fun entry => entry.1 != m.id + 1) ++ [(m.id + 1, info)]
    starting := m.starting.filter fun other => other.httpClient != info.httpClient }

def authCancel (id : Int32) (m : AuthManager) : AuthManager :=
  { m with authMap := m.authMap.filter fun entry => entry.1 != id }

def isOf (c : Nat) (entry : Int32 × AuthInfo) : Bool := entry.2.httpClient == c

def find (c : Nat) (m : AuthManager) : Option AuthInfo := (m.authMap.find? (isOf c)).map Prod.snd

def erase (c : Nat) (m : AuthManager) : AuthManager :=
  { m with authMap := m.authMap.eraseP (isOf c) }

/-- The loop of `OnHttpResponse`, which stops at the first entry of the client. -/
def appendTo (c : Nat) (content : Bytes) : List (Int32 × AuthInfo) → List (Int32 × AuthInfo)
  | [] => []
  | entry :: rest =>
    if isOf c entry then (entry.1, { entry.2 with responseData := entry.2.responseData ++ content }) :: rest
    else entry :: appendTo c content rest

def append (c : Nat) (content : Bytes) (m : AuthManager) : AuthManager :=
  { m with authMap := appendTo c content m.authMap }

def called (call : DelegateCall) (m : AuthManager) : AuthManager :=
  { m with calls := m.calls ++ [call] }

def onHttpResponse (c : Nat) (content : Bytes) : Call AuthManager Unit :=
  withLock .auth (setDelegate (append c content))

def onHttpComplete (given : Given) (c : Nat) (httpCode : Nat) : Call AuthManager Unit :=
  withLock .auth do
    let s ← read
    match s.delegate.find c with
    | none => pure ()
    | some info =>
      setDelegate (called (handleAuthResponse given info httpCode))
      cancel info.httpClient
      setDelegate (erase c)

def httpDelegate (given : Given) : HttpClientDelegate AuthManager where
  onHttpHeads _ _ := pure ()
  onHttpResponse c _ := onHttpResponse c
  onHttpComplete := onHttpComplete given

inductive Event where
  | request (c : Nat) (productType version : Int32) (token randomId : Bytes)
  | register (c : Nat)
  | cancel (id : Int32)
  | io (c : Nat) (event : Http.Event)

def step (given : Given) (lexicalCast : Bytes → Option Nat) (t : Thread AuthManager) :
    Event → Option (Thread AuthManager)
  | .request c productType version token randomId =>
    if t.stuck = none ∧ (t.system.clients c).stage = .created then
      some { system := { t.system.set c { t.system.clients c with stage := .requested } with
        delegate := t.system.delegate.start (authInfo c productType version token randomId) } }
    else none
  | .register c =>
    if t.stuck = none then
      (t.system.delegate.starting.find? fun info => info.httpClient == c).map fun info =>
        t.perform (withLock .auth (setDelegate (AuthManager.register info)))
    else none
  | .cancel id => if t.stuck = none then some (t.perform (withLock .auth (setDelegate (authCancel id)))) else none
  | .io c event => ioStep (httpDelegate given) lexicalCast c t event

def initial : Thread AuthManager := { system := { delegate := {} } }

section Calls

variable {given : Given} {s : System AuthManager} {held : List Mutex} {c : Nat}

theorem find_httpClient {m : AuthManager} {info : AuthInfo} (found : m.find c = some info) :
    info.httpClient = c := by
  obtain ⟨entry, first, rfl⟩ := Option.map_eq_some_iff.mp found
  simpa [isOf] using List.find?_some first

variable (free : Mutex.auth ∉ held)
include free

theorem onHttpResponse_apply (content : Bytes) :
    onHttpResponse c content held s = (.ok (),
      { s with delegate := s.delegate.append c content }) :=
  withLock_free free _

theorem onHttpComplete_absent {httpCode : Nat} (absent : s.delegate.find c = none) :
    onHttpComplete given c httpCode held s = (.ok (), s) := by
  unfold onHttpComplete
  rw [withLock_free free, read_bind, absent]
  rfl

/-- The client of a registered request is cancelled inside of its own callback. -/
theorem onHttpComplete_stuck {httpCode : Nat} {info : AuthInfo}
    (found : s.delegate.find c = some info) (member : Mutex.delegate c ∈ held) :
    onHttpComplete given c httpCode held s =
      (.error (.delegate c),
        { s with delegate := s.delegate.called (handleAuthResponse given info httpCode) }) := by
  unfold onHttpComplete
  rw [withLock_free free, read_bind, found]
  show (cancel info.httpClient >>= fun _ => setDelegate (erase c)) (.auth :: held) _ = _
  rw [find_httpClient found]
  exact bind_stuck (cancel_held (List.mem_cons_of_mem _ member)) _

/-- On a thread that does not hold the client's mutexes, `Cancel` returns and the entry is
erased. -/
theorem onHttpComplete_returns {httpCode : Nat} {info : AuthInfo}
    (found : s.delegate.find c = some info) (delegateFree : Mutex.delegate c ∉ held)
    (connectionFree : Mutex.connection c ∉ held) :
    onHttpComplete given c httpCode held s =
      (.ok (), { s.set c (cancelled (s.clients c)) with
        delegate := (s.delegate.called (handleAuthResponse given info httpCode)).erase c }) := by
  unfold onHttpComplete
  rw [withLock_free free, read_bind, found]
  show (cancel info.httpClient >>= fun _ => setDelegate (erase c)) (.auth :: held) _ = _
  rw [find_httpClient found,
    bind_returns (cancel_free (by simpa using delegateFree) (by simpa using connectionFree))]
  rfl

end Calls

end AuthManager

end Kingkong.Auth
