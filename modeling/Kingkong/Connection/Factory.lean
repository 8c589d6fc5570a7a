import Kingkong.Connection.Stages

/-!
The functions that create a connection for a request. `CreateTcpClient` sets the `net_type` of every
request to `kNetTypeTcp`, so a caller that asked for TLS gets a connection that never performs a
handshake and writes to a plain socket.
-/

namespace Kingkong.Connection
open Lib State

variable {literals : Socks5.Literals} {request : NetConnectionRequest} {s t : State} {event : Event}
  {events : List Event} {c d : Session} {story : List Mark}

inductive Impl where
  | tcpConnectionImpl
  | tcpTlsConnectionImpl
  | websocketConnectionImpl
  | websocketTlsConnectionImpl
  deriving DecidableEq

/-- The stream of the class is an `ssl::stream`. -/
def Impl.encrypts : Impl → Bool
  | .tcpTlsConnectionImpl | .websocketTlsConnectionImpl => true
  | .tcpConnectionImpl | .websocketConnectionImpl => false

structure Client where
  impl : Impl
  request : NetConnectionRequest

def createTcpClient (request : NetConnectionRequest) : Option Client :=
  -- The assignment of `kNetTypeTcpTls` for port 443 that follows is commented out.
  let request := { request with netType := .tcp }
  match request.netType with
  | .tcp => some ⟨.tcpConnectionImpl, request⟩
  | .tcpTls => some ⟨.tcpTlsConnectionImpl, request⟩
  | _ => none

def createWebsocket (request : NetConnectionRequest) : Option Client :=
  match request.netType with
  | .websocket => some ⟨.websocketConnectionImpl, request⟩
  | .websocketTls => some ⟨.websocketTlsConnectionImpl, request⟩
  | _ => none

/-- `OnConnect(0)` is delivered only after a TLS handshake has succeeded. -/
def TlsFirst (story : List Mark) : Prop :=
  ∀ before after, story = before ++ .did (.callback (.onConnect 0)) :: after → .completed .tls ∈ before

/-- Nothing of the caller goes out in the clear. -/
def Protected (client : Client) (c : Session) : Prop :=
  TlsFirst c.story ∧ (client.impl.encrypts = false → ∀ buffer, .did (.sendData buffer) ∉ c.story)

/-- The transport does not come up while there is a delegate to tell, and no buffer is taken to be
written. -/
def Refrains (literals : Socks5.Literals) (request : NetConnectionRequest) (c : Session) :
    Event → Prop
  | .connected ec => ec = 0 → request.proxyHost = [] → c.connection.delegate = false
  | .socks5 event => answer literals request c.connection event = some 0 → c.connection.delegate = false
  | .run => ∀ buffer rest, c.connection.tasks = .doSendFromQueue buffer :: rest →
      c.connection.sendBuffers ≠ [] ∨ c.connection.alreadyCleanUp = true
  | _ => True

/-! ### Operations that are never started -/

def counters (s : State) : Nat × Nat × Nat := (s.tlsHandshakes, s.websocketHandshakes, s.writes)

theorem notify_counters (callback : Callback) : counters (s.notify callback) = counters s := by
  unfold notify
  split <;> rfl

theorem cancelResolver_counters : counters s.cancelResolver = counters s := by
  rw [cancelResolver_eq]
  rfl

theorem handleCleanUp_counters : counters s.handleCleanUp = counters s := by
  cases clean : s.alreadyCleanUp with
  | true => rw [handleCleanUp_again clean]
  | false => rw [handleCleanUp_first clean]; rfl

theorem tells_counters (callback : Callback) :
    counters (s.notify callback).handleCleanUp = counters s := by
  rw [handleCleanUp_counters, notify_counters]

theorem cleans_counters (callback : Callback) :
    counters (s.handleCleanUp.notify callback) = counters s := by
  rw [notify_counters, handleCleanUp_counters]

theorem receives_counters (callback : Callback) :
    counters (s.notify callback).startRecvDate = counters s :=
  notify_counters callback

theorem doOtherHandshake_counters (plain : request.netType = .tcp) (code : Int) :
    counters (s.doOtherHandshake request code) = counters s := by
  simp only [doOtherHandshake, plain]
  exact receives_counters _

theorem run_counters (refrains : Refrains literals request c .run)
    (h : step literals request c.connection .run = some t) :
    counters t = counters c.connection := by
  obtain ⟨task, rest, tasks, rfl⟩ := run_task h
  cases task with
  | doDnsResolve => rfl
  | doCancel k => rfl
  | handleCleanUp => exact handleCleanUp_counters
  | doResolver k =>
    simp only [runTask]
    split <;> rfl
  | doSendFromQueue buffer =>
    have idle : (c.connection.sendBuffers.isEmpty && !c.connection.alreadyCleanUp) = false := by
      rcases refrains buffer rest tasks with waiting | clean
      · simp [List.isEmpty_eq_false_iff.mpr waiting]
      · simp [clean]
    simp only [runTask, doSendFromQueue, Bool.not_not, idle, Bool.false_eq_true, if_false]
    rfl

theorem onDnsResolvered_counters (code : Int) : counters (s.onDnsResolvered code) = counters s := by
  unfold onDnsResolvered
  split
  · exact (tells_counters _).trans cancelResolver_counters
  · exact cancelResolver_counters

theorem resolved_counters {k : Nat} {code : Int}
    (h : step literals request s (.resolved k code) = some t) :
    counters t = counters s := by
  obtain ⟨resolver, resolvers, _, _, rfl⟩ := resolved_lookup h
  split
  · exact onDnsResolvered_counters code
  · rfl

theorem onSocks5Handshake_counters (plain : request.netType = .tcp) (code : Int) :
    counters (s.onSocks5Handshake request code) = counters s := by
  rw [onSocks5Handshake_free]
  split
  · exact doOtherHandshake_counters plain code
  · exact cleans_counters _

theorem socks5_counters {event : Socks5.Event} (plain : request.netType = .tcp)
    (h : step literals request s (.socks5 event) = some t) : counters t = counters s := by
  obtain ⟨client, next, _, _, rfl⟩ := socks5_client h
  split
  · exact onSocks5Handshake_counters plain _
  · rfl

theorem step_counters (plain : request.netType = .tcp) (none : counters c.connection = (0, 0, 0))
    (refrains : Refrains literals request c event)
    (h : step literals request c.connection event = some t) :
    counters t = (0, 0, 0) := by
  rw [← none]
  simp only [counters, Prod.mk.injEq] at none
  obtain ⟨tls, websocket, writes⟩ := none
  cases event with
  | connect => cases h; rfl
  | disConnect =>
    cases h
    unfold disConnect
    split <;> rfl
  | send buffer =>
    cases h
    unfold send
    split <;> rfl
  | run => exact run_counters refrains h
  | resolved k code => exact resolved_counters h
  | connected ec =>
    obtain ⟨_, h⟩ := Option.ite_none_right_eq_some.mp h
    cases h
    unfold notifyConnectComplete
    split
    · split
      · rfl
      · exact doOtherHandshake_counters plain ec
    · exact cleans_counters _
  | socks5 event => exact socks5_counters plain h
  | tlsHandshake ec =>
    obtain ⟨busy, _⟩ := Option.ite_none_right_eq_some.mp h
    omega
  | websocketHandshake ec =>
    obtain ⟨busy, _⟩ := Option.ite_none_right_eq_some.mp h
    omega
  | read ec data =>
    obtain ⟨_, h⟩ := Option.ite_none_right_eq_some.mp h
    cases h
    unfold notifyRecvData
    split
    · exact tells_counters _
    · exact receives_counters _
  | written ec =>
    obtain ⟨busy, _⟩ := Option.ite_none_right_eq_some.mp h
    omega

/-! ### Actions that reveal -/

/-- The report of success and the writing of a buffer. -/
def Reveals (actions : List Action) : Prop :=
  .callback (.onConnect 0) ∈ actions ∨ ∃ buffer, .sendData buffer ∈ actions

theorem told_reveals (callback : Callback) :
    Reveals (told s callback) ↔ callback = .onConnect 0 ∧ s.delegate = true := by
  unfold Reveals told
  cases s.delegate with
  | true => simp [eq_comm]
  | false => simp

theorem cleaning_reveals : ¬ Reveals (cleaning s) := by
  unfold Reveals cleaning
  split <;> simp

theorem reveals_append {first second : List Action} :
    Reveals (first ++ second) ↔ Reveals first ∨ Reveals second := by
  simp only [Reveals, List.mem_append, exists_or]
  tauto

theorem handshaking_reveals (plain : request.netType = .tcp) :
    Reveals (handshaking request s 0) ↔ s.delegate = true := by
  simp only [handshaking, plain]
  rw [reveals_append, told_reveals]
  simp [Reveals]

theorem run_reveals : Reveals (runEffects c.connection) ↔ ¬ Refrains literals request c .run := by
  simp only [runEffects, Refrains]
  cases tasks : c.connection.tasks with
  | nil => simp [Reveals]
  | cons task rest =>
    cases task with
    | doSendFromQueue buffer =>
      cases queue : c.connection.sendBuffers with
      | nil =>
        cases clean : c.connection.alreadyCleanUp with
        | true => simp [Reveals]
        | false => simp [Reveals]
      | cons first more => simp [Reveals]
    | handleCleanUp => simp [cleaning_reveals]
    | doResolver k =>
      simp only
      split <;> simp [Reveals]
    | _ => simp [Reveals]

theorem resolved_reveals (k : Nat) (code : Int) : ¬ Reveals (resolvedEffects s k code) := by
  unfold resolvedEffects
  split
  · split
    · split
      · simp [Reveals]
      · rename_i failure
        rw [reveals_append, told_reveals]
        simp [failure, cleaning_reveals]
    · simp [Reveals]
  · simp [Reveals]

theorem effects_reveals (plain : request.netType = .tcp) (none : counters c.connection = (0, 0, 0))
    (h : step literals request c.connection event = some t) :
    Reveals (effects literals request c.connection event) ↔
      ¬ Refrains literals request c event := by
  simp only [counters, Prod.mk.injEq] at none
  obtain ⟨tls, websocket, writes⟩ := none
  cases event with
  | connect | disConnect | send buffer => simp [effects, Reveals, Refrains]
  | run => exact run_reveals
  | resolved k code => simp [effects, resolved_reveals, Refrains]
  | connected ec =>
    by_cases success : ec = 0
    · subst success
      by_cases direct : request.proxyHost = []
      · simp [effects, Refrains, direct, handshaking_reveals plain]
      · simp [effects, Refrains, direct, Reveals]
    · simp [effects, Refrains, success, reveals_append, told_reveals, cleaning_reveals]
  | socks5 event =>
    simp only [effects, Refrains]
    cases answer literals request c.connection event with
    | none => simp [Reveals]
    | some code =>
      by_cases success : code = 0
      · subst success
        simp [handshaking_reveals plain]
      · simp [success, reveals_append, told_reveals, cleaning_reveals]
  | tlsHandshake ec =>
    obtain ⟨busy, _⟩ := Option.ite_none_right_eq_some.mp h
    omega
  | websocketHandshake ec =>
    obtain ⟨busy, _⟩ := Option.ite_none_right_eq_some.mp h
    omega
  | read ec data =>
    by_cases success : ec = 0
    · simp [effects, success, Refrains, reveals_append, told_reveals]
      simp [Reveals]
    · simp [effects, success, Refrains, reveals_append, told_reveals, cleaning_reveals]
  | written ec =>
    obtain ⟨busy, _⟩ := Option.ite_none_right_eq_some.mp h
    omega

/-! ### A plain connection -/

/-- Nothing was revealed so far, and no TLS handshake has been made. -/
structure Concealed (c : Session) : Prop where
  counters : counters c.connection = (0, 0, 0)
  unsecured : .completed .tls ∉ c.story
  unreported : Unreported c.story
  unsent : ∀ buffer, .did (.sendData buffer) ∉ c.story

theorem initial_concealed : Concealed {} := ⟨rfl, by simp, by simp [Unreported], by simp⟩

theorem completes_tls (none : counters c.connection = (0, 0, 0))
    (h : step literals request c.connection event = some t) :
    .tls ∉ completes literals request c.connection event := by
  cases event with
  | tlsHandshake ec =>
    obtain ⟨busy, _⟩ := Option.ite_none_right_eq_some.mp h
    simp only [counters, Prod.mk.injEq] at none
    omega
  | resolved k code =>
    simp only [completes]
    repeat' split
    all_goals simp
  | connected ec | socks5 event | websocketHandshake ec =>
    simp only [completes]
    split <;> simp
  | _ => simp [completes]

theorem concealed_protected (concealed : Concealed c) (client : Client) : Protected client c := by
  refine ⟨?_, fun _ => concealed.unsent⟩
  intro before after split
  apply absurd _ concealed.unreported
  rw [split]
  simp

theorem step_concealed (plain : request.netType = .tcp) (concealed : Concealed c)
    (refrains : Refrains literals request c event) (h : c.step literals request event = some d) :
    Concealed d := by
  obtain ⟨next, stepped, rfl⟩ := session_cases h
  have hidden : ¬ Reveals (effects literals request c.connection event) := fun reveals =>
    (effects_reveals plain concealed.counters stepped).mp reveals refrains
  have tls := completes_tls concealed.counters stepped
  refine ⟨step_counters plain concealed.counters refrains stepped, ?_, ?_, ?_⟩
  · simp [concealed.unsecured, tls]
  · intro member
    rcases List.mem_append.mp member with before | now
    · rcases List.mem_append.mp before with old | completed
      · exact concealed.unreported old
      · simp at completed
    · exact hidden (Or.inl (by simpa using now))
  · intro buffer member
    rcases List.mem_append.mp member with before | now
    · rcases List.mem_append.mp before with old | completed
      · exact concealed.unsent buffer old
      · simp at completed
    · exact hidden (Or.inr ⟨buffer, by simpa using now⟩)

/-- The first report of success comes without a handshake before it, and the first buffer goes to a
plain socket. -/
theorem step_exposed {client : Client} (plain : request.netType = .tcp)
    (clear : client.impl.encrypts = false) (concealed : Concealed c)
    (reveals : ¬ Refrains literals request c event) (h : c.step literals request event = some d) :
    ¬ Protected client d := by
  obtain ⟨next, stepped, rfl⟩ := session_cases h
  have tls := completes_tls concealed.counters stepped
  rintro ⟨first, unsent⟩
  rcases (effects_reveals plain concealed.counters stepped).mpr reveals with
      reported | ⟨buffer, sent⟩
  · obtain ⟨before, after, split⟩ := List.append_of_mem reported
    have secured := first (c.story ++ (completes literals request c.connection event).map .completed ++ before.map .did)
      (after.map .did) (by simp [split])
    simp [concealed.unsecured, tls] at secured
  · exact unsent clear buffer (List.mem_append_right _ (List.mem_map_of_mem sent))

theorem createTcpClient_plain {client : Client} (created : createTcpClient request = some client) :
    client.impl = .tcpConnectionImpl ∧ client.request = { request with netType := .tcp } := by
  cases created
  exact ⟨rfl, rfl⟩

/-- Whatever the request asks for, the connection that `CreateTcpClient` returns keeps to a TLS
request exactly as long as it neither reports success nor writes. -/
theorem tcpClient_protected_iff {client : Client} (created : createTcpClient request = some client)
    (h : run (Session.step literals client.request) {} events = some c) :
    Always (Session.step literals client.request) (Protected client) {} events ↔
      EachStep (Session.step literals client.request) (Refrains literals client.request) {} events := by
  obtain ⟨impl, same⟩ := createTcpClient_plain created
  have plain : client.request.netType = .tcp := by rw [same]
  refine always_iff_eachStep (I := Concealed) (fun c concealed => concealed_protected concealed client) ?_ ?_
    initial_concealed h
  · intro c event d concealed refrains h
    exact step_concealed plain concealed refrains h
  · intro c event d concealed reveals h
    exact step_exposed plain (by rw [impl]; rfl) concealed reveals h

def tlsRequest : NetConnectionRequest := { host := [104], port := 443, netType := .tcpTls }

def connectsAndSends : List Event :=
  [.connect, .run, .run, .resolved 0 0, .connected 0, .send [1], .run, .run]

theorem tcpClient_exposed :
    ∃ client c, createTcpClient tlsRequest = some client ∧ client.impl.encrypts = false ∧
      run (Session.step Socks5.noLiterals client.request) {} connectsAndSends = some c ∧
      c.connection.callbacks = [.onConnect 0] ∧ .completed .tls ∉ c.story ∧
      .did (.sendData [1]) ∈ c.story ∧ ¬ Protected client c := by
  refine ⟨_, _, rfl, rfl, rfl, rfl, by decide, by decide, ?_⟩
  intro holds
  exact holds.2 rfl [1] (by decide)

def refusedAtOnce : List Event := [.connect, .run, .run, .resolved 0 0, .connected 111]

theorem tcpClient_protected_refused :
    ∃ client c, createTcpClient tlsRequest = some client ∧
      run (Session.step Socks5.noLiterals client.request) {} refusedAtOnce = some c ∧
      c.connection.callbacks = [.onConnect 111] ∧
      Always (Session.step Socks5.noLiterals client.request) (Protected client) {} refusedAtOnce := by
  refine ⟨_, _, rfl, rfl, rfl, (tcpClient_protected_iff rfl rfl).mpr ?_⟩
  refine (eachStep_cons rfl).mpr ⟨trivial, (eachStep_cons rfl).mpr ⟨?_, (eachStep_cons rfl).mpr ⟨?_,
    (eachStep_cons rfl).mpr ⟨trivial, (eachStep_cons rfl).mpr ⟨?_, eachStep_nil⟩⟩⟩⟩⟩
  · intro buffer rest tasks
    cases tasks
  · intro buffer rest tasks
    cases tasks
  · intro success
    cases success

/-- `CreateWebsocket` leaves the `net_type` alone. -/
theorem createWebsocket_kept {client : Client} (tls : request.netType = .websocketTls)
    (created : createWebsocket request = some client) :
    client.impl.encrypts = true ∧ client.request = request := by
  simp only [createWebsocket, tls] at created
  cases created
  exact ⟨rfl, rfl⟩

/-- For a request with TLS, `CreateWebsocket` returns a connection with an `ssl::stream`, and in
every run with one `Connect` it reports success only after the TLS handshake. -/
theorem websocket_protected {client : Client} (tls : request.netType = .websocketTls)
    (created : createWebsocket request = some client) (once : events.countP Event.isConnect ≤ 1)
    (h : run (Session.step literals client.request) {} events = some c) :
    client.impl.encrypts = true ∧ TlsFirst c.story := by
  obtain ⟨encrypts, same⟩ := createWebsocket_kept tls created
  obtain ⟨_, next, stands⟩ := run_stands_once once initial_stands initial_heard h
  refine ⟨encrypts, fun before after split => ?_⟩
  obtain ⟨stages, _⟩ := stands.tells.earned before after split
  have needed : .tls ∈ required client.request := by
    simp [required, secured, same, tls, NetType.secure]
  rw [← stages] at needed
  obtain ⟨mark, member, stage⟩ := List.mem_filterMap.mp needed
  cases mark with
  | completed done => cases stage; exact member
  | did action => cases stage

def secureWebsocket : NetConnectionRequest :=
  { host := [104], port := 443, netType := .websocketTls }

def bothHandshakes : List Event :=
  [.connect, .run, .run, .resolved 0 0, .connected 0, .tlsHandshake 0, .websocketHandshake 0]

theorem websocket_protected_bothHandshakes :
    ∃ client c, createWebsocket secureWebsocket = some client ∧
      run (Session.step Socks5.noLiterals client.request) {} bothHandshakes = some c ∧
      c.connection.callbacks = [.onConnect 0] ∧ client.impl.encrypts = true ∧ TlsFirst c.story := by
  have tls : secureWebsocket.netType = .websocketTls := rfl
  have once : bothHandshakes.countP Event.isConnect ≤ 1 := by decide
  exact ⟨_, _, rfl, rfl, rfl, websocket_protected tls rfl once rfl⟩

end Kingkong.Connection
