import Kingkong.Connection.Handlers
import Kingkong.Socks5.Stall

/-!
The SOCKS5 clients of a connection and how long they live. `socks5_client_` is the only lasting
reference to a client. The completion handlers of a client hold weak references, so a completion
finds its client only while the connection refers to it, and does nothing otherwise.
`OnSocks5Handshake` ends with the release of the reference, whatever it did before.
-/

namespace Kingkong.Connection
open Lib State

variable {literals : Socks5.Literals} {request : NetConnectionRequest}

/-- What matters of a run, in order. A call of `HandleCleanUp` comes with the client that the
connection refers to at the time, and is kept even if the call returns at once. -/
inductive Entry where
  | created (k : Nat)
  | handshake (k : Nat) (code : Int)
  | cleanUp (owned : Option Nat)
  deriving DecidableEq

/-- A connection with its clients numbered. `client` is the one that `socks5_client_` refers to. -/
structure Tracked where
  connection : State := {}
  client : Option Nat := none
  made : Nat := 0
  log : List Entry := []
  deriving DecidableEq

/-- Whether the operation is a call of `HandleCleanUp`. -/
def Operation.cleansUp : Operation → Bool
  | .handleCleanUp | .runTask .handleCleanUp => true
  | _ => false

namespace Tracked

/-- An operation, with the reference that the connection is left with and the entry for it. -/
def operate (literals : Socks5.Literals) (request : NetConnectionRequest) (s : Tracked)
    (operation : Operation) : Tracked :=
  let next := operation.run literals request s.connection
  if operation = .createSocks5Client then
    { connection := next, client := some s.made, made := s.made + 1, log := s.log ++ [.created s.made] }
  else
    { s with
      connection := next
      client := if next.socks5Client.isSome then s.client else none
      log := if operation.cleansUp then s.log ++ [.cleanUp s.client] else s.log }

def operateAll (literals : Socks5.Literals) (request : NetConnectionRequest) (s : Tracked)
    (operations : List Operation) :
    Tracked :=
  operations.foldl (operate literals request) s

/-- A handler of the connection from its start to its end. -/
def handle (literals : Socks5.Literals) (request : NetConnectionRequest) (s : Tracked)
    (started : Started) : Tracked :=
  { s with connection := started.connection }.operateAll literals request started.operations

/-- The handler of a completion of client `k`, which may be told the result of its handshake. -/
def complete (literals : Socks5.Literals) (request : NetConnectionRequest) (s : Tracked) (k : Nat)
    (event : Socks5.Event) (started : Started) : Tracked :=
  match answer literals request s.connection event with
  | some code => ({ s with log := s.log ++ [.handshake k code] } : Tracked).handle literals request started
  | none => s.handle literals request started

end Tracked

/-- An event of the connection other than those of its client, or the completion of an operation of
client `k`. -/
inductive TrackedEvent where
  | connection (event : Event)
  | completion (k : Nat) (event : Socks5.Event)

def Event.ofClient : Event → Bool
  | .socks5 _ => true
  | _ => false

def Tracked.step (literals : Socks5.Literals) (request : NetConnectionRequest) (s : Tracked) :
    TrackedEvent → Option Tracked
  | .connection event =>
    if event.ofOwner then
      (Connection.step literals request s.connection event).map fun next => { s with connection := next }
    else if event.ofClient then none
    else (handler literals request s.connection event).map (s.handle literals request)
  | .completion k event =>
    -- `weak_self.lock()`
    if s.client = some k then
      (handler literals request s.connection (.socks5 event)).map (s.complete literals request k event)
    else some s

variable {s t : Tracked} {event : TrackedEvent} {events : List TrackedEvent}

/-- What an event can be: a call of the owner, a handler of the connection, a completion that finds
its client, or one that finds none. -/
inductive Tracks (literals : Socks5.Literals) (request : NetConnectionRequest) (s t : Tracked) :
    TrackedEvent → Prop where
  | call (event : Event) (next : State) (calls : event.ofOwner = true)
    (stepped : step literals request s.connection event = some next) (after : t = { s with connection := next }) :
    Tracks literals request s t (.connection event)
  | handles (event : Event) (started : Started) (pump : event.ofOwner = false)
    (handled : handler literals request s.connection event = some started)
    (after : t = s.handle literals request started) : Tracks literals request s t (.connection event)
  | completes (k : Nat) (event : Socks5.Event) (started : Started) (held : s.client = some k)
    (handled : handler literals request s.connection (.socks5 event) = some started)
    (after : t = s.complete literals request k event started) : Tracks literals request s t (.completion k event)
  | stray (k : Nat) (event : Socks5.Event) (gone : s.client ≠ some k) (after : t = s) :
    Tracks literals request s t (.completion k event)

theorem step_tracks (h : s.step literals request event = some t) :
    Tracks literals request s t event := by
  cases event with
  | connection event =>
    simp only [Tracked.step] at h
    split at h
    · rename_i calls
      obtain ⟨next, stepped, rfl⟩ := Option.map_eq_some_iff.mp h
      exact .call event next calls stepped rfl
    · rename_i pump
      split at h
      · cases h
      · obtain ⟨started, handled, rfl⟩ := Option.map_eq_some_iff.mp h
        exact .handles event started (by simpa using pump) handled rfl
  | completion k event =>
    simp only [Tracked.step] at h
    split at h
    · rename_i held
      obtain ⟨started, handled, rfl⟩ := Option.map_eq_some_iff.mp h
      exact .completes k event started held handled rfl
    · rename_i gone
      exact .stray k event gone (Option.some.inj h).symm

/-! ### A step of the connection -/

theorem operate_connection (operation : Operation) :
    (s.operate literals request operation).connection =
    operation.run literals request s.connection := by
  unfold Tracked.operate
  split <;> rfl

theorem operateAll_connection (operations : List Operation) :
    (s.operateAll literals request operations).connection =
      runAll literals request s.connection operations := by
  induction operations generalizing s with
  | nil => rfl
  | cons operation rest ih =>
    rw [Tracked.operateAll, List.foldl_cons, ← Tracked.operateAll, ih, operate_connection]
    rfl

theorem complete_connection (k : Nat) (event : Socks5.Event) (started : Started) :
    (s.complete literals request k event started).connection =
      runAll literals request started.connection started.operations := by
  unfold Tracked.complete
  split <;> exact operateAll_connection started.operations

/-- A completion that finds no client changes nothing, and any other event is a step of the
connection. -/
theorem step_connection (h : s.step literals request event = some t) :
    t = s ∨ ∃ other, step literals request s.connection other = some t.connection := by
  cases step_tracks h with
  | call event next _ stepped after =>
    subst after
    exact Or.inr ⟨event, stepped⟩
  | handles event started pump handled after =>
    subst after
    refine Or.inr ⟨event, ?_⟩
    rw [step_handler pump, handled, Tracked.handle, operateAll_connection]
    rfl
  | completes k event started held handled after =>
    subst after
    refine Or.inr ⟨.socks5 event, ?_⟩
    rw [step_handler rfl, handled, complete_connection]
    rfl
  | stray k event gone after => exact Or.inl after

/-! ### What an operation does to the client and to the flag -/

section Operations

variable {c : State} {operation : Operation}

theorem runTask_client (task : Task)
    (present : (c.runTask request task).socks5Client.isSome = true) :
    c.socks5Client.isSome = true := by
  cases task with
  | doDnsResolve => exact present
  | doResolver k =>
    simp only [runTask] at present
    split at present <;> exact present
  | doCancel k => exact present
  | doSendFromQueue buffer =>
    simp only [runTask, doSendFromQueue] at present
    split at present <;> exact present
  | handleCleanUp =>
    by_cases clean : c.alreadyCleanUp = true
    · rwa [runTask, handleCleanUp_again clean] at present
    · rw [runTask, handleCleanUp_first (by simpa using clean)] at present
      cases present

/-- Only `CreateSocks5Client` puts a client where there was none. -/
theorem run_client (other : operation ≠ .createSocks5Client)
    (present : (operation.run literals request c).socks5Client.isSome = true) :
    c.socks5Client.isSome = true := by
  cases operation with
  | createSocks5Client => exact absurd rfl other
  | tell callback => rwa [Operation.run, notify_socks5Client] at present
  | handleCleanUp => exact @runTask_client request c .handleCleanUp present
  | cancelResolver =>
    rw [Operation.run, cancelResolver_eq] at present
    exact present
  | releaseSocks5Client => cases present
  | sendNext =>
    simp only [Operation.run, notifySendComplete, ne_eq, not_true_eq_false, if_false] at present
    split at present <;> exact present
  | runTask task => exact runTask_client task present
  | _ => exact present

/-- Only `HandleCleanUp` changes the flag. -/
theorem run_flag (quiet : operation.cleansUp = false) :
    (operation.run literals request c).alreadyCleanUp = c.alreadyCleanUp := by
  cases operation with
  | tell callback => exact notify_alreadyCleanUp callback
  | handleCleanUp => cases quiet
  | cancelResolver =>
    rw [Operation.run, cancelResolver_eq]
  | sendNext =>
    simp only [Operation.run, notifySendComplete, ne_eq, not_true_eq_false, if_false]
    split <;> rfl
  | runTask task =>
    cases task with
    | handleCleanUp => cases quiet
    | doResolver k =>
      simp only [Operation.run, runTask]
      split <;> rfl
    | doSendFromQueue buffer =>
      simp only [Operation.run, runTask, doSendFromQueue]
      split <;> rfl
    | _ => rfl
  | _ => rfl

theorem run_cleanUp (cleans : operation.cleansUp = true) :
    operation.run literals request c = c.handleCleanUp := by
  cases operation with
  | handleCleanUp => rfl
  | runTask task =>
    cases task with
    | handleCleanUp => rfl
    | _ => cases cleans
  | _ => cases cleans

end Operations

/-! ### One result for each client -/

/-- The entry is a call of `OnSocks5Handshake` for client `k`. -/
def Entry.answers (k : Nat) : Entry → Bool
  | .handshake j _ => j == k
  | _ => false

structure Numbered (s : Tracked) : Prop where
  held : s.client.isSome = s.connection.socks5Client.isSome
  fresh : ∀ k, s.client = some k → k < s.made
  logged : ∀ k code, .handshake k code ∈ s.log → k < s.made
  once : ∀ k, s.log.countP (Entry.answers k) ≤ 1

/-- The client that the connection refers to has not given a result. -/
def Unanswered (s : Tracked) : Prop := ∀ k code, s.client = some k → .handshake k code ∉ s.log

theorem operate_numbered (numbered : Numbered s) (operation : Operation) :
    Numbered (s.operate literals request operation) := by
  unfold Tracked.operate
  split
  · rename_i creates
    subst creates
    refine ⟨rfl, ?_, ?_, ?_⟩
    · intro k held
      cases held
      exact Nat.lt_succ_self _
    · intro k code member
      rcases List.mem_append.mp member with old | new
      · exact Nat.lt_succ_of_lt (numbered.logged k code old)
      · simp at new
    · intro k
      simpa [List.countP_append, Entry.answers] using numbered.once k
  · rename_i other
    refine ⟨?_, ?_, ?_, ?_⟩
    · simp only
      split
      · rename_i present
        rw [numbered.held, run_client other present, present]
      · rename_i absent
        simpa using absent
    · intro k held
      simp only at held
      split at held
      · exact numbered.fresh k held
      · cases held
    · intro k code member
      simp only at member
      split at member
      · rcases List.mem_append.mp member with old | new
        · exact numbered.logged k code old
        · simp at new
      · exact numbered.logged k code member
    · intro k
      simp only
      split
      · simpa [List.countP_append, Entry.answers] using numbered.once k
      · exact numbered.once k

theorem operate_unanswered (numbered : Numbered s) (unanswered : Unanswered s)
    (operation : Operation) :
    Unanswered (s.operate literals request operation) := by
  intro k code held member
  unfold Tracked.operate at held member
  split at held
  · rename_i creates
    subst creates
    cases held
    rcases List.mem_append.mp member with old | new
    · exact Nat.lt_irrefl _ (numbered.logged s.made code old)
    · simp at new
  · rename_i other
    rw [if_neg other] at member
    simp only at held member
    have before : s.client = some k := by
      split at held
      · exact held
      · cases held
    refine unanswered k code before ?_
    split at member
    · rcases List.mem_append.mp member with old | new
      · exact old
      · simp at new
    · exact member

theorem operateAll_numbered (numbered : Numbered s) (operations : List Operation) :
    Numbered (s.operateAll literals request operations) := by
  induction operations generalizing s with
  | nil => exact numbered
  | cons operation rest ih => exact ih (operate_numbered numbered operation)

theorem operateAll_unanswered (numbered : Numbered s) (unanswered : Unanswered s)
    (operations : List Operation) :
    Unanswered (s.operateAll literals request operations) := by
  induction operations generalizing s with
  | nil => exact unanswered
  | cons operation rest ih =>
    exact ih (operate_numbered numbered operation) (operate_unanswered numbered unanswered operation)

theorem operateAll_released (operations : List Operation) :
    (s.operateAll literals request (operations ++ [.releaseSocks5Client])).client = none := by
  rw [Tracked.operateAll, List.foldl_append]
  rfl

/-! ### Where a handler starts -/

section Start

variable {c : State} {started : Started}

theorem handler_client {event : Event} (handled : handler literals request c event = some started) :
    started.connection.socks5Client.isSome = c.socks5Client.isSome := by
  cases event with
  | connect => cases handled
  | disConnect => cases handled
  | send buffer => cases handled
  | run =>
    simp only [handler] at handled
    split at handled <;> cases handled
    rfl
  | resolved k code =>
    simp only [handler] at handled
    split at handled
    · split at handled <;> cases handled
      rfl
    · cases handled
  | socks5 event =>
    simp only [handler] at handled
    split at handled
    · rename_i client held
      obtain ⟨next, _, rfl⟩ := Option.map_eq_some_iff.mp handled
      simp only [held, Option.isSome_some]
    · cases handled
  | _ =>
    simp only [handler] at handled
    split at handled <;> cases handled
    rfl

theorem handler_answered {event : Socks5.Event} {code : Int}
    (handled : handler literals request c (.socks5 event) = some started)
    (answered : answer literals request c event = some code) :
    started.operations = Handler.onSocks5Handshake request code := by
  simp only [handler] at handled
  cases held : c.socks5Client with
  | none => simp [held] at handled
  | some client =>
    simp only [held] at handled
    obtain ⟨next, stepped, rfl⟩ := Option.map_eq_some_iff.mp handled
    simp only [answer, held, stepped, Option.bind_some] at answered
    obtain ⟨rest, first⟩ := List.head?_eq_some_iff.mp answered
    simp only [first]

theorem task_creates (task : Task) : .createSocks5Client ∉ Handler.task task := by
  cases task <;> simp [Handler.task]

theorem doOtherHandshake_creates (code : Int) :
    .createSocks5Client ∉ Handler.doOtherHandshake request code := by
  unfold Handler.doOtherHandshake
  split <;> simp [Handler.received]

theorem onSocks5Handshake_creates (code : Int) :
    .createSocks5Client ∉ Handler.onSocks5Handshake request code := by
  unfold Handler.onSocks5Handshake
  split <;> simp [doOtherHandshake_creates]

theorem onDnsResolvered_creates (code : Int) :
    .createSocks5Client ∉ Handler.onDnsResolvered code := by
  unfold Handler.onDnsResolvered Handler.failed
  split <;> simp

theorem notifyTlsHandshakeComplete_creates (ec : Int) :
    .createSocks5Client ∉ Handler.notifyTlsHandshakeComplete request ec := by
  unfold Handler.notifyTlsHandshakeComplete Handler.received Handler.failed
  split
  · split <;> simp
  · simp

theorem notifyWebsocketHandshakeComplte_creates (ec : Int) :
    .createSocks5Client ∉ Handler.notifyWebsocketHandshakeComplte ec := by
  unfold Handler.notifyWebsocketHandshakeComplte
  split <;> simp

theorem notifyRecvData_creates (ec : Int) (data : Bytes) :
    .createSocks5Client ∉ Handler.notifyRecvData ec data := by
  unfold Handler.notifyRecvData Handler.received Handler.failed
  split <;> simp

theorem notifySendComplete_creates (ec : Int) :
    .createSocks5Client ∉ Handler.notifySendComplete ec := by
  unfold Handler.notifySendComplete Handler.failed
  split <;> simp

theorem notifyConnectComplete_creates (ec : Int) :
    .createSocks5Client ∉ Handler.notifyConnectComplete request ec ∨
      ec = 0 ∧ request.proxyHost ≠ [] ∧
      Handler.notifyConnectComplete request ec = [.createSocks5Client] := by
  unfold Handler.notifyConnectComplete
  split
  next success =>
    split
    next proxy => exact Or.inr ⟨success, proxy, rfl⟩
    · exact Or.inl (doOtherHandshake_creates ec)
  · exact Or.inl (by simp)

/-- A client is created by a connect attempt that has succeeded, and by nothing else. -/
theorem handler_creates {event : Event}
    (handled : handler literals request c event = some started) :
    .createSocks5Client ∉ started.operations ∨
      event = .connected 0 ∧ request.proxyHost ≠ [] ∧
      started.operations = [.createSocks5Client] := by
  cases event with
  | connect | disConnect | send => cases handled
  | run =>
    simp only [handler] at handled
    split at handled <;> cases handled
    exact Or.inl (task_creates _)
  | resolved k code =>
    simp only [handler] at handled
    split at handled
    · split at handled <;> cases handled
      refine Or.inl ?_
      dsimp only
      split
      · exact onDnsResolvered_creates code
      · simp
    · cases handled
  | connected ec =>
    simp only [handler] at handled
    split at handled <;> cases handled
    refine (notifyConnectComplete_creates ec).imp_right ?_
    rintro ⟨rfl, proxy, operations⟩
    exact ⟨rfl, proxy, operations⟩
  | socks5 event =>
    simp only [handler] at handled
    split at handled
    · obtain ⟨next, _, rfl⟩ := Option.map_eq_some_iff.mp handled
      refine Or.inl ?_
      simp only
      split
      · exact onSocks5Handshake_creates _
      · simp
    · cases handled
  | tlsHandshake ec =>
    simp only [handler] at handled
    split at handled <;> cases handled
    exact Or.inl (notifyTlsHandshakeComplete_creates ec)
  | websocketHandshake ec =>
    simp only [handler] at handled
    split at handled <;> cases handled
    exact Or.inl (notifyWebsocketHandshakeComplte_creates ec)
  | read ec data =>
    simp only [handler] at handled
    split at handled <;> cases handled
    exact Or.inl (notifyRecvData_creates ec data)
  | written ec =>
    simp only [handler] at handled
    split at handled <;> cases handled
    exact Or.inl (notifySendComplete_creates ec)

/-- The calls of the owner leave the client and the flag alone. -/
theorem call_frame {event : Event} {next : State} (calls : event.ofOwner = true)
    (stepped : step literals request c event = some next) :
    next.socks5Client = c.socks5Client ∧ next.alreadyCleanUp = c.alreadyCleanUp := by
  cases event with
  | connect => cases stepped; exact ⟨rfl, rfl⟩
  | disConnect =>
    cases stepped
    unfold disConnect
    split <;> exact ⟨rfl, rfl⟩
  | send buffer =>
    cases stepped
    unfold send
    split <;> exact ⟨rfl, rfl⟩
  | _ => cases calls

end Start

/-! ### Runs -/

theorem start_numbered {event : Event} {started : Started} (numbered : Numbered s)
    (handled : handler literals request s.connection event = some started) :
    Numbered { s with connection := started.connection } where
  held := numbered.held.trans (handler_client handled).symm
  fresh := numbered.fresh
  logged := numbered.logged
  once := numbered.once

theorem handle_numbered {event : Event} {started : Started} (numbered : Numbered s)
    (handled : handler literals request s.connection event = some started) :
    Numbered (s.handle literals request started) :=
  operateAll_numbered (start_numbered numbered handled) started.operations

theorem handle_unanswered {event : Event} {started : Started} (numbered : Numbered s)
    (unanswered : Unanswered s)
    (handled : handler literals request s.connection event = some started) :
    Unanswered (s.handle literals request started) :=
  operateAll_unanswered (start_numbered numbered handled) unanswered started.operations

/-- `OnSocks5Handshake` ends with the release, so no client is left that could have answered. -/
theorem handle_released {started : Started} {code : Int}
    (answered : started.operations = Handler.onSocks5Handshake request code) :
    (s.handle literals request started).client = none := by
  rw [Tracked.handle, answered, Handler.onSocks5Handshake]
  exact operateAll_released _

theorem handshake_numbered {k : Nat} (numbered : Numbered s) (unanswered : Unanswered s)
    (held : s.client = some k) (code : Int) :
    Numbered { s with log := s.log ++ [.handshake k code] } where
  held := numbered.held
  fresh := numbered.fresh
  logged j other member := by
    rcases List.mem_append.mp member with old | new
    · exact numbered.logged j other old
    · cases List.mem_singleton.mp new
      exact numbered.fresh k held
  once j := by
    have before := numbered.once j
    by_cases same : j = k
    · subst same
      have none : s.log.countP (Entry.answers j) = 0 := by
        apply List.countP_eq_zero.mpr
        intro entry member answers
        cases entry with
        | handshake i other =>
          obtain rfl : i = j := by simpa [Entry.answers] using answers
          exact unanswered i other held member
        | _ => cases answers
      simp [List.countP_append, none, Entry.answers]
    · simpa [List.countP_append, Entry.answers, Ne.symm same] using before

theorem step_numbered (numbered : Numbered s) (unanswered : Unanswered s)
    (h : s.step literals request event = some t) :
    Numbered t ∧ Unanswered t := by
  cases step_tracks h with
  | call event next calls stepped after =>
    subst after
    have same := (call_frame calls stepped).1
    exact ⟨⟨by simp only [same]; exact numbered.held, numbered.fresh, numbered.logged, numbered.once⟩, unanswered⟩
  | handles event started pump handled after =>
    subst after
    exact ⟨handle_numbered numbered handled, handle_unanswered numbered unanswered handled⟩
  | completes k event started held handled after =>
    subst after
    unfold Tracked.complete
    split
    · rename_i code answered
      have told := handshake_numbered numbered unanswered held code
      refine ⟨handle_numbered told handled, ?_⟩
      intro j other referred
      rw [handle_released (handler_answered handled answered)] at referred
      cases referred
    · exact ⟨handle_numbered numbered handled, handle_unanswered numbered unanswered handled⟩
  | stray k event gone after =>
    subst after
    exact ⟨numbered, unanswered⟩

theorem initial_numbered : Numbered {} where
  held := rfl
  fresh k held := by cases held
  logged k code member := by cases member
  once k := Nat.zero_le _

/-! ### No result after a clean-up -/

/-- No call of `OnSocks5Handshake` comes after a call of `HandleCleanUp`, whichever client there
was. -/
def NeverAfter (log : List Entry) : Prop :=
  log.Pairwise fun earlier later => ∀ owned k code, earlier = .cleanUp owned → later ≠ .handshake k code

/-- A connect attempt that succeeds. -/
def TrackedEvent.connects : TrackedEvent → Bool
  | .connection (.connected ec) => ec == 0
  | _ => false

/-- A connect attempt to a proxy does not succeed once the connection has been cleaned up. -/
def NoLateClient (request : NetConnectionRequest) (s : Tracked) (event : TrackedEvent) : Prop :=
  event.connects = true → request.proxyHost ≠ [] → s.connection.alreadyCleanUp = false

instance (request : NetConnectionRequest) (s : Tracked) (event : TrackedEvent) :
    Decidable (NoLateClient request s event) :=
  inferInstanceAs (Decidable (event.connects = true → request.proxyHost ≠ [] → s.connection.alreadyCleanUp = false))

structure Quiet (s : Tracked) : Prop where
  cleaned : ∀ owned, .cleanUp owned ∈ s.log → s.connection.alreadyCleanUp = true
  released : s.connection.alreadyCleanUp = true → s.client = none
  never : NeverAfter s.log

theorem neverAfter_append {log : List Entry} {entry : Entry} (never : NeverAfter log)
    (other : ∀ k code, entry ≠ .handshake k code) : NeverAfter (log ++ [entry]) := by
  refine List.pairwise_append.mpr ⟨never, List.pairwise_singleton _ _, ?_⟩
  intro earlier _ later last owned k code _
  rw [List.mem_singleton.mp last]
  exact other k code

theorem operate_quiet {operation : Operation} (quiet : Quiet s)
    (early : operation = .createSocks5Client → s.connection.alreadyCleanUp = false) :
    Quiet (s.operate literals request operation) := by
  unfold Tracked.operate
  split
  · rename_i creates
    subst creates
    have dirty := early rfl
    have none : ∀ owned, .cleanUp owned ∉ s.log := by
      intro owned member
      have clean := quiet.cleaned owned member
      rw [dirty] at clean
      cases clean
    refine ⟨?_, ?_, neverAfter_append quiet.never (by simp)⟩
    · intro owned member
      rcases List.mem_append.mp member with old | new
      · exact absurd old (none owned)
      · simp at new
    · intro clean
      have clean : s.connection.alreadyCleanUp = true := clean
      rw [dirty] at clean
      cases clean
  · cases cleans : operation.cleansUp with
    | true =>
      simp only [if_true, run_cleanUp cleans]
      refine ⟨fun _ _ => handleCleanUp_alreadyCleanUp, fun _ => ?_,
        neverAfter_append quiet.never (by simp)⟩
      by_cases clean : s.connection.alreadyCleanUp = true
      · simp [quiet.released clean]
      · rw [handleCleanUp_first (by simpa using clean)]
        rfl
    | false =>
      refine ⟨?_, ?_, quiet.never⟩
      · intro owned member
        rw [run_flag cleans]
        exact quiet.cleaned owned member
      · intro clean
        rw [run_flag cleans] at clean
        simp [quiet.released clean]

theorem operateAll_quiet {operations : List Operation} (quiet : Quiet s)
    (none : .createSocks5Client ∉ operations) :
    Quiet (s.operateAll literals request operations) := by
  induction operations generalizing s with
  | nil => exact quiet
  | cons operation rest ih =>
    have first : operation ≠ .createSocks5Client :=
      fun creates => none (creates ▸ List.mem_cons_self)
    exact ih (operate_quiet quiet fun creates => absurd creates first)
      (fun member => none (List.mem_cons_of_mem _ member))

theorem start_quiet {event : Event} {started : Started} (quiet : Quiet s)
    (handled : handler literals request s.connection event = some started) :
    Quiet { s with connection := started.connection } := by
  have same := (handler_takes handled).clean
  refine ⟨fun owned member => ?_, fun clean => ?_, quiet.never⟩
  · simp only [same]
    exact quiet.cleaned owned member
  · simp only [same] at clean
    exact quiet.released clean

/-- A client that can answer has a connection that was not cleaned up, so no clean-up has been
logged. -/
theorem handshake_quiet {k : Nat} (quiet : Quiet s) (held : s.client = some k) (code : Int) :
    Quiet { s with log := s.log ++ [.handshake k code] } := by
  have dirty : ¬ s.connection.alreadyCleanUp = true := by
    intro clean
    rw [quiet.released clean] at held
    cases held
  refine ⟨fun owned member => ?_, quiet.released, ?_⟩
  · rcases List.mem_append.mp member with old | new
    · exact quiet.cleaned owned old
    · simp at new
  · refine List.pairwise_append.mpr ⟨quiet.never, List.pairwise_singleton _ _, ?_⟩
    intro earlier before later _ owned j other cleanUp
    exact absurd (quiet.cleaned owned (cleanUp ▸ before)) dirty

theorem step_quietly (quiet : Quiet s) (timely : NoLateClient request s event)
    (h : s.step literals request event = some t) : Quiet t := by
  cases step_tracks h with
  | call event next calls stepped after =>
    subst after
    have same := (call_frame calls stepped).2
    refine ⟨fun owned member => ?_, fun clean => ?_, quiet.never⟩
    · simp only [same]
      exact quiet.cleaned owned member
    · simp only [same] at clean
      exact quiet.released clean
  | handles event started pump handled after =>
    subst after
    have start := start_quiet quiet handled
    rcases handler_creates handled with none | ⟨rfl, proxy, only⟩
    · exact operateAll_quiet start none
    · rw [Tracked.handle, only]
      show Quiet (Tracked.operate literals request _ .createSocks5Client)
      refine operate_quiet start fun _ => ?_
      exact (handler_takes handled).clean.trans (timely rfl proxy)
  | completes k event started held handled after =>
    subst after
    have none := (handler_creates handled).resolve_right (by simp)
    unfold Tracked.complete
    split
    · exact operateAll_quiet (start_quiet (handshake_quiet quiet held _) handled) none
    · exact operateAll_quiet (start_quiet quiet handled) none
  | stray k event gone after =>
    subst after
    exact quiet

theorem initial_quiet : Quiet {} where
  cleaned owned member := by cases member
  released _ := rfl
  never := List.Pairwise.nil

/-- A client gives at most one result. None is given after a call of `HandleCleanUp` if no client is
created for a connection that has been cleaned up. -/
theorem one_handshake (h : run (Tracked.step literals request) {} events = some s) :
    (∀ k, s.log.countP (Entry.answers k) ≤ 1) ∧
      (EachStep (Tracked.step literals request) (NoLateClient request) {} events →
        NeverAfter s.log) := by
  have numbered := run_keeps (I := fun s => Numbered s ∧ Unanswered s)
    (fun _ _ _ both => step_numbered both.1 both.2) ⟨initial_numbered, fun _ _ held => by cases held⟩ h
  refine ⟨numbered.1.once, fun each => ?_⟩
  exact (run_keeps_under (fun _ _ _ => step_quietly) initial_quiet each h).never

def proxied : NetConnectionRequest :=
  { host := [104], port := 80, proxyHost := [112], proxyPort := 1080 }

/-- A `Send` before the connection is there, and a `DisConnect` that is handled while the results of
the connect attempt and of the write are on their way. The client is created after the clean-up, the
failed write calls `HandleCleanUp` in vain, and the client gives its result. -/
def lateClient : List TrackedEvent :=
  [.connection .connect, .connection .run, .connection .run, .connection (.resolved 0 0), .connection (.send [1]),
    .connection .run, .connection .run, .connection .disConnect, .connection .run, .connection (.connected 0),
    .connection (.written (-1)), .completion 0 .readError]

theorem handshake_lateClient :
    ∃ s, run (Tracked.step Socks5.noLiterals proxied) {} lateClient = some s ∧
      s.log = [.cleanUp none, .created 0, .cleanUp (some 0), .handshake 0 (-1),
        .cleanUp (some 0)] := by
  exact ⟨_, rfl, by decide⟩

/-- A read error and a write error of one client, of which the second finds no client, and a
`DisConnect`. -/
def bothErrors : List TrackedEvent :=
  [.connection .connect, .connection .run, .connection .run, .connection (.resolved 0 0), .connection .run,
    .connection (.connected 0), .completion 0 .readError, .completion 0 .writeError, .connection .disConnect,
    .connection .run]

theorem one_handshake_bothErrors :
    ∃ s, run (Tracked.step Socks5.noLiterals proxied) {} bothErrors = some s ∧
      s.log = [.created 0, .handshake 0 (-1), .cleanUp (some 0), .cleanUp none] ∧
      (∀ k, s.log.countP (Entry.answers k) ≤ 1) ∧ NeverAfter s.log := by
  have each : EachStep (Tracked.step Socks5.noLiterals proxied) (NoLateClient proxied) {} bothErrors :=
    eachStep_of_meets (by decide)
  have reached : run (Tracked.step Socks5.noLiterals proxied) {} bothErrors = some _ := rfl
  exact ⟨_, reached, by decide, (one_handshake reached).1, (one_handshake reached).2 each⟩

end Kingkong.Connection
