import Kingkong.Connection.Step

/-!
The handlers of the pump thread as lists of operations. The owner sees nothing of an operation but
its posts, and a callback is an operation of its own, since it is made with `mutex_` held. A step of
the connection is a handler whose operations run without an interruption.
-/

namespace Kingkong.Connection
open Lib State

variable {literals : Socks5.Literals} {request : NetConnectionRequest} {s t : State} {event : Event}

inductive Operation where
  | tell (callback : Callback)
  | handleCleanUp
  | cancelResolver
  | doConnect
  | createSocks5Client
  | releaseSocks5Client
  | doTlsHandshake
  | doWebsocketHandshake
  | startRecvDate
  | sendNext
  | runTask (task : Task)
  deriving DecidableEq

namespace Operation

def run (literals : Socks5.Literals) (request : NetConnectionRequest) (s : State) :
    Operation → State
  | tell callback => s.notify callback
  | handleCleanUp => s.handleCleanUp
  | cancelResolver => s.cancelResolver
  | doConnect => { s with connects := s.connects + 1, history := s.history ++ [.connect] }
  | createSocks5Client =>
    { s with
      socks5Client := some (Socks5.connected literals (proxyProperty request))
      history := s.history ++ [.socks5Connect] }
  | releaseSocks5Client => { s with socks5Client := none }
  | doTlsHandshake => s.doTlsHandshake
  | doWebsocketHandshake => s.doWebsocketHandshake
  | startRecvDate => s.startRecvDate
  | sendNext => s.notifySendComplete 0
  | runTask task => s.runTask request task

end Operation

namespace Handler

def failed (callback : Callback) : List Operation := [.tell callback, .handleCleanUp]

def received (callback : Callback) : List Operation := [.tell callback, .startRecvDate]

def task : Task → List Operation
  | .handleCleanUp => [.handleCleanUp]
  | task => [.runTask task]

def doOtherHandshake (request : NetConnectionRequest) (code : Int) : List Operation :=
  match request.netType with
  | .websocketTls | .tcpTls | .https => [.doTlsHandshake]
  | .websocket => [.doWebsocketHandshake]
  | _ => received (.onConnect code)

def onSocks5Handshake (request : NetConnectionRequest) (state : Int) : List Operation :=
  (if state ≠ 0 then [.handleCleanUp, .tell (.onConnect state)] else doOtherHandshake request state) ++
    [.releaseSocks5Client]

def onDnsResolvered (code : Int) : List Operation :=
  .cancelResolver :: if code ≠ 0 then failed (.onConnect code) else [.doConnect]

def notifyConnectComplete (request : NetConnectionRequest) (ec : Int) : List Operation :=
  if ec = 0 then
    if request.proxyHost ≠ [] then [.createSocks5Client] else doOtherHandshake request ec
  else [.handleCleanUp, .tell (.onConnect ec)]

def notifyTlsHandshakeComplete (request : NetConnectionRequest) (ec : Int) : List Operation :=
  if ec = 0 then
    match request.netType with
    | .websocketTls => [.doWebsocketHandshake]
    | _ => received (.onConnect ec)
  else failed (.onConnect ec)

def notifyWebsocketHandshakeComplte (ec : Int) : List Operation :=
  .tell (.onConnect ec) :: if ec = 0 then [.startRecvDate] else [.handleCleanUp]

def notifySendComplete (ec : Int) : List Operation :=
  if ec ≠ 0 then failed (.onDisconnect ec) else [.sendNext]

def notifyRecvData (ec : Int) (data : Bytes) : List Operation :=
  if ec ≠ 0 then failed (.onDisconnect ec) else received (.onRecvData data)

end Handler

/-- A handler at its start: the connection without the event that the handler answers, and what
there is to do. -/
structure Started where
  connection : State
  operations : List Operation

/-- The handler of an event. The calls of the owner have none. -/
def handler (literals : Socks5.Literals) (request : NetConnectionRequest) (s : State) :
    Event → Option Started
  | .connect | .disConnect | .send _ => none
  | .run =>
    match s.tasks with
    | task :: rest => some ⟨{ s with tasks := rest }, Handler.task task⟩
    | [] => none
  | .resolved k code =>
    match s.resolvers[k]? with
    | some resolver =>
      if 0 < resolver.outstanding then
        some ⟨{ s with resolvers := s.resolvers.modify k fun resolver =>
          { resolver with outstanding := resolver.outstanding - 1 } },
          if resolver.delegate then Handler.onDnsResolvered code else []⟩
      else none
    | none => none
  | .connected ec =>
    if 0 < s.connects then some ⟨{ s with connects := s.connects - 1 }, Handler.notifyConnectComplete request ec⟩
    else none
  | .socks5 event =>
    match s.socks5Client with
    | some client =>
      (Socks5.step literals (proxyProperty request) client event).map fun next =>
        ⟨{ s with socks5Client := some next },
          match next.answers.drop client.answers.length with
          | code :: _ => Handler.onSocks5Handshake request code
          | [] => []⟩
    | none => none
  | .tlsHandshake ec =>
    if 0 < s.tlsHandshakes then
      some ⟨{ s with tlsHandshakes := s.tlsHandshakes - 1 }, Handler.notifyTlsHandshakeComplete request ec⟩
    else none
  | .websocketHandshake ec =>
    if 0 < s.websocketHandshakes then
      some ⟨{ s with websocketHandshakes := s.websocketHandshakes - 1 }, Handler.notifyWebsocketHandshakeComplte ec⟩
    else none
  | .read ec data =>
    if 0 < s.reads ∧ data.length ≤ 1024 then
      some ⟨{ s with reads := s.reads - 1 }, Handler.notifyRecvData ec data⟩
    else none
  | .written ec =>
    if 0 < s.writes then some ⟨{ s with writes := s.writes - 1 }, Handler.notifySendComplete ec⟩ else none

def Event.ofOwner : Event → Bool
  | .connect | .disConnect | .send _ => true
  | _ => false

/-- All the operations, one after the other. -/
def runAll (literals : Socks5.Literals) (request : NetConnectionRequest) (s : State)
    (operations : List Operation) : State :=
  operations.foldl (Operation.run literals request) s

/-! ### A handler without an interruption -/

theorem runAll_append (first second : List Operation) :
    runAll literals request s (first ++ second) =
    runAll literals request (runAll literals request s first) second :=
  List.foldl_append

theorem runAll_task (task : Task) :
    runAll literals request s (Handler.task task) = s.runTask request task := by
  cases task <;> rfl

theorem runAll_doOtherHandshake (code : Int) :
    runAll literals request s (Handler.doOtherHandshake request code) =
      s.doOtherHandshake request code := by
  cases kind : request.netType <;> simp only [Handler.doOtherHandshake, State.doOtherHandshake, kind] <;> rfl

theorem runAll_onSocks5Handshake (code : Int) :
    runAll literals request s (Handler.onSocks5Handshake request code) =
      s.onSocks5Handshake request code := by
  rw [Handler.onSocks5Handshake, runAll_append, State.onSocks5Handshake]
  split
  · rfl
  · rw [runAll_doOtherHandshake]
    rfl

theorem runAll_onDnsResolvered (code : Int) :
    runAll literals request s (Handler.onDnsResolvered code) = s.onDnsResolvered code := by
  unfold Handler.onDnsResolvered State.onDnsResolvered
  split <;> rfl

theorem runAll_notifyConnectComplete (ec : Int) :
    runAll literals request s (Handler.notifyConnectComplete request ec) =
    s.notifyConnectComplete literals request ec := by
  unfold Handler.notifyConnectComplete State.notifyConnectComplete
  split
  · split
    · rfl
    · exact runAll_doOtherHandshake ec
  · rfl

theorem runAll_notifyTlsHandshakeComplete (ec : Int) :
    runAll literals request s (Handler.notifyTlsHandshakeComplete request ec) =
      s.notifyTlsHandshakeComplete request ec := by
  unfold Handler.notifyTlsHandshakeComplete State.notifyTlsHandshakeComplete
  split
  · cases request.netType <;> rfl
  · rfl

theorem runAll_notifyWebsocketHandshakeComplte (ec : Int) :
    runAll literals request s (Handler.notifyWebsocketHandshakeComplte ec) =
      s.notifyWebsocketHandshakeComplte ec := by
  unfold Handler.notifyWebsocketHandshakeComplte State.notifyWebsocketHandshakeComplte
  split <;> rfl

theorem runAll_notifySendComplete (ec : Int) :
    runAll literals request s (Handler.notifySendComplete ec) = s.notifySendComplete ec := by
  by_cases success : ec = 0
  · rw [success]
    rfl
  · rw [Handler.notifySendComplete, State.notifySendComplete, if_pos success, if_pos success]
    rfl

theorem runAll_notifyRecvData (ec : Int) (data : Bytes) :
    runAll literals request s (Handler.notifyRecvData ec data) = s.notifyRecvData ec data := by
  unfold Handler.notifyRecvData State.notifyRecvData
  split <;> rfl

theorem step_handler (pump : event.ofOwner = false) : step literals request s event =
    (handler literals request s event).map fun started =>
      runAll literals request started.connection started.operations := by
  cases event with
  | connect => cases pump
  | disConnect => cases pump
  | send buffer => cases pump
  | run =>
    simp only [step, handler]
    cases s.tasks with
    | nil => rfl
    | cons task rest => simp only [Option.map_some, runAll_task]
  | resolved k code =>
    simp only [step, notifyResult, handler]
    cases s.resolvers[k]? with
    | none => rfl
    | some resolver =>
      by_cases pending : 0 < resolver.outstanding
      · simp only [pending, if_true, Option.map_some]
        cases resolver.delegate with
        | true => simp only [if_true, runAll_onDnsResolvered]
        | false => rfl
      · simp only [pending, if_false, Option.map_none]
  | connected ec => simp only [step, handler, Option.map_if, runAll_notifyConnectComplete]
  | socks5 event =>
    simp only [step, socks5Step, handler]
    cases s.socks5Client with
    | none => rfl
    | some client =>
      simp only [Option.map_map]
      congr 1
      funext next
      simp only [Function.comp_apply]
      cases next.answers.drop client.answers.length with
      | nil => rfl
      | cons code rest => simp only [runAll_onSocks5Handshake]
  | tlsHandshake ec =>
    simp only [step, handler, Option.map_if, runAll_notifyTlsHandshakeComplete]
  | websocketHandshake ec =>
    simp only [step, handler, Option.map_if, runAll_notifyWebsocketHandshakeComplte]
  | read ec data => simp only [step, handler, Option.map_if, runAll_notifyRecvData]
  | written ec => simp only [step, handler, Option.map_if, runAll_notifySendComplete]

/-! ### What the owner sees of an operation -/

/-- The owner's fields are as they were, nothing that was posted is lost, and `DoCleanUp` has been
called as often as `already_clean_up` tells. -/
structure Internal (s t : State) : Prop where
  delegate : t.delegate = s.delegate
  stoped : t.stoped = s.stoped
  tasks : ∀ task ∈ s.tasks, task ∈ t.tasks
  clean : s.alreadyCleanUp = true → t.alreadyCleanUp = true
  counted : s.cleanUps = s.alreadyCleanUp.toNat → t.cleanUps = t.alreadyCleanUp.toNat

theorem internal_refl : Internal s s := ⟨rfl, rfl, fun _ => id, id, id⟩

theorem internal_trans {u : State} (first : Internal s t) (second : Internal t u) :
    Internal s u where
  delegate := second.delegate.trans first.delegate
  stoped := second.stoped.trans first.stoped
  tasks task member := second.tasks task (first.tasks task member)
  clean cleaned := second.clean (first.clean cleaned)
  counted count := second.counted (first.counted count)

theorem notify_internal (callback : Callback) : Internal s (s.notify callback) := by
  unfold notify
  split
  · exact ⟨rfl, rfl, fun _ => id, id, id⟩
  · exact internal_refl

theorem cancelResolver_internal : Internal s s.cancelResolver := by
  rw [cancelResolver_eq]
  exact ⟨rfl, rfl, fun _ member => List.mem_append_left _ member, id, id⟩

theorem handleCleanUp_internal : Internal s s.handleCleanUp := by
  by_cases clean : s.alreadyCleanUp = true
  · rw [handleCleanUp_again clean]
    exact internal_refl
  · have dirty : s.alreadyCleanUp = false := by simpa using clean
    rw [handleCleanUp_first dirty]
    refine ⟨rfl, rfl, fun _ member => List.mem_append_left _ member, fun _ => rfl, ?_⟩
    intro counted
    show s.cleanUps + 1 = 1
    rw [counted, dirty]
    rfl

theorem notifySendComplete_internal : Internal s (s.notifySendComplete 0) := by
  simp only [notifySendComplete, ne_eq, not_true_eq_false, if_false]
  split
  · exact ⟨rfl, rfl, fun _ => id, id, id⟩
  · exact ⟨rfl, rfl, fun _ => id, id, id⟩

theorem runTask_internal (task : Task) : Internal s (s.runTask request task) := by
  cases task with
  | doDnsResolve => exact ⟨rfl, rfl, fun _ member => List.mem_append_left _ member, id, id⟩
  | doResolver k =>
    simp only [runTask]
    split
    · exact ⟨rfl, rfl, fun _ => id, id, id⟩
    · exact internal_refl
  | doCancel k => exact internal_refl
  | doSendFromQueue buffer =>
    simp only [runTask, doSendFromQueue]
    split
    · exact ⟨rfl, rfl, fun _ => id, id, id⟩
    · exact ⟨rfl, rfl, fun _ => id, id, id⟩
  | handleCleanUp => exact handleCleanUp_internal

theorem operation_internal (operation : Operation) :
    Internal s (operation.run literals request s) := by
  cases operation with
  | tell callback => exact notify_internal callback
  | handleCleanUp => exact handleCleanUp_internal
  | cancelResolver => exact cancelResolver_internal
  | sendNext => exact notifySendComplete_internal
  | runTask task => exact runTask_internal task
  | _ => exact ⟨rfl, rfl, fun _ => id, id, id⟩

theorem runAll_internal (operations : List Operation) :
    Internal s (runAll literals request s operations) := by
  induction operations generalizing s with
  | nil => exact internal_refl
  | cons operation rest ih => exact internal_trans (operation_internal operation) ih

/-- A handler starts without telling or cleaning anything. A clean-up that was posted still waits,
or it is what the handler does. -/
structure Takes (s : State) (started : Started) : Prop where
  delegate : started.connection.delegate = s.delegate
  stoped : started.connection.stoped = s.stoped
  callbacks : started.connection.callbacks = s.callbacks
  clean : started.connection.alreadyCleanUp = s.alreadyCleanUp
  cleanUps : started.connection.cleanUps = s.cleanUps
  tasks : .handleCleanUp ∈ s.tasks → .handleCleanUp ∈ started.connection.tasks ∨ .handleCleanUp ∈ started.operations

theorem handler_takes {started : Started} (h : handler literals request s event = some started) :
    Takes s started := by
  cases event with
  | connect => cases h
  | disConnect => cases h
  | send buffer => cases h
  | run =>
    simp only [handler] at h
    cases tasks : s.tasks with
    | nil => simp [tasks] at h
    | cons task rest =>
      rw [tasks] at h
      cases h
      refine ⟨rfl, rfl, rfl, rfl, rfl, ?_⟩
      intro member
      rw [tasks] at member
      rcases List.mem_cons.mp member with rfl | waits
      · exact .inr (List.mem_singleton.mpr rfl)
      · exact .inl waits
  | resolved k code =>
    simp only [handler] at h
    split at h
    · split at h <;> cases h
      exact ⟨rfl, rfl, rfl, rfl, rfl, .inl⟩
    · cases h
  | socks5 event =>
    simp only [handler] at h
    split at h
    · obtain ⟨next, _, rfl⟩ := Option.map_eq_some_iff.mp h
      exact ⟨rfl, rfl, rfl, rfl, rfl, .inl⟩
    · cases h
  | _ =>
    simp only [handler] at h
    split at h <;> cases h
    exact ⟨rfl, rfl, rfl, rfl, rfl, .inl⟩

/-- Only `DisConnect` changes what belongs to the owner. -/
theorem step_owned (other : event ≠ .disConnect) (h : step literals request s event = some t) :
    t.delegate = s.delegate ∧ t.stoped = s.stoped := by
  cases pump : event.ofOwner with
  | true =>
    cases event with
    | connect => cases h; exact ⟨rfl, rfl⟩
    | disConnect => exact absurd rfl other
    | send buffer =>
      cases h
      unfold send
      split
      · exact ⟨rfl, rfl⟩
      · exact ⟨rfl, rfl⟩
    | _ => cases pump
  | false =>
    rw [step_handler pump] at h
    obtain ⟨started, taken, rfl⟩ := Option.map_eq_some_iff.mp h
    have takes := handler_takes taken
    have internal : Internal started.connection (runAll literals request started.connection started.operations) :=
      runAll_internal _
    exact ⟨internal.delegate.trans takes.delegate, internal.stoped.trans takes.stoped⟩

end Kingkong.Connection
