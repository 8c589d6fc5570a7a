import Kingkong.Connection.Callbacks
import Kingkong.Connection.Handlers

/-!
How long a connection lives. The handlers of its operations and the task that `DisConnect` posts
hold references to it, the tasks of `Connect` and `Send` hold weak ones, and its resolver has a
plain pointer. `~NetConnectionImpl` and `~DnsResolverImpl` report an object that was not stopped.
-/

namespace Kingkong.Connection
open Lib State

variable {literals : Socks5.Literals} {request : NetConnectionRequest}

/-- The references that handlers and posted tasks hold. -/
def State.strong (s : State) : Nat :=
  s.connects + s.tlsHandshakes + s.websocketHandshakes + s.reads + s.writes + s.tasks.count .handleCleanUp

/-- A resolver that is destroyed though nobody called `Cancel`. -/
def State.Abandoned (s : State) (k : Nat) : Prop :=
  ∃ resolver, s.resolvers[k]? = some resolver ∧ resolver.delegate = true ∧ s.resolverAlive k = false

/-- `owned` is the reference of the owner, and `called` tells whether the owner has called the
connection. A pump that is `refusing` takes no tasks. `dangling` is set when a resolver calls a
connection that is destroyed, and `unstopped` when the destructor of the connection reports it. -/
structure Lifetime where
  connection : State := {}
  owned : Bool := true
  called : Bool := false
  refusing : Bool := false
  destroyed : Bool := false
  dangling : Bool := false
  unstopped : Bool := false
  deriving DecidableEq

inductive LifetimeEvent where
  | connection (event : Event)
  | release
  | refuse

/-- The tasks in the queue that an event leaves there. -/
def Event.leaves (s : State) : Event → Nat
  | .run => s.tasks.length - 1
  | _ => s.tasks.length

/-- What an event makes of a connection if the pump refuses the tasks that are posted. -/
def refusal (refusing : Bool) (event : Event) (s next : State) : State :=
  if refusing then { next with tasks := next.tasks.take (event.leaves s) } else next

namespace Lifetime

def destroy (l : Lifetime) : Lifetime where
  connection := { l.connection with dnsResolver := none, socks5Client := none }
  owned := l.owned
  called := l.called
  refusing := l.refusing
  destroyed := true
  dangling := l.dangling
  unstopped := !l.connection.stoped

/-- The last reference is gone. -/
def settle (l : Lifetime) : Lifetime :=
  if !l.owned && !l.destroyed && l.connection.strong == 0 then l.destroy else l

def moved (l : Lifetime) (event : Event) (next : State) : Lifetime :=
  { l with connection := refusal l.refusing event l.connection next }

/-- What still happens when the connection is destroyed: its tasks find nothing, and those of a
resolver go on. No other operation is outstanding. -/
def afterwards (request : NetConnectionRequest) (l : Lifetime) : Event → Option Lifetime
  | .run =>
    match l.connection.tasks with
    | .doDnsResolve :: rest | .doSendFromQueue _ :: rest => some { l with connection := { l.connection with tasks := rest } }
    | task :: rest => some { l with connection := { l.connection with tasks := rest }.runTask request task }
    | [] => none
  | .resolved k _ =>
    match l.connection.resolvers[k]? with
    | some resolver =>
      if 0 < resolver.outstanding then
        some { l with
          connection := { l.connection with resolvers := l.connection.resolvers.modify k fun resolver =>
            { resolver with outstanding := resolver.outstanding - 1 } }
          dangling := l.dangling || resolver.delegate }
      else none
    | none => none
  | _ => none

/-- A handler is one step. An owner that keeps to `Orderly` leaves a task with a reference behind,
and the thread of the pump comes to it only after the handler. -/
def step (literals : Socks5.Literals) (request : NetConnectionRequest) (l : Lifetime) :
    LifetimeEvent → Option Lifetime
  | .connection event =>
    if event.ofOwner then
      if l.owned then
        (Connection.step literals request l.connection event).map fun next => { l.moved event next with called := true }
      else none
    else if l.destroyed then l.afterwards request event
    else (Connection.step literals request l.connection event).map fun next => (l.moved event next).settle
  | .release => if l.owned then some { l with owned := false }.settle else none
  | .refuse => some { l with refusing := true }

/-- An owner that calls `Connect` first and only once, and `DisConnect` before it gives up its
reference, and a pump that takes the task of `DisConnect`. -/
def Orderly (l : Lifetime) : LifetimeEvent → Prop
  | .connection .connect => l.called = false
  | .connection (.send _) => l.called = true
  | .connection _ => True
  | .release | .refuse => l.connection.stoped = true

instance (l : Lifetime) : (event : LifetimeEvent) → Decidable (Orderly l event)
  | .connection .connect => inferInstanceAs (Decidable (l.called = false))
  | .connection (.send _) => inferInstanceAs (Decidable (l.called = true))
  | .connection .disConnect | .connection .run | .connection (.resolved ..) | .connection (.connected _)
  | .connection (.socks5 _) | .connection (.tlsHandshake _) | .connection (.websocketHandshake _)
  | .connection (.read ..) | .connection (.written _) => inferInstanceAs (Decidable True)
  | .release | .refuse => inferInstanceAs (Decidable (l.connection.stoped = true))

end Lifetime

/-! ### What the handlers leave of the resolvers -/

variable {s t u : State} {event : Event}

/-- No resolver gets a delegate back, the connection keeps its resolver or cancels it, and a
clean-up cancels it. -/
structure Lessens (s t : State) : Prop where
  stoped : t.stoped = s.stoped
  heard : ∀ k resolver, t.resolvers[k]? = some resolver → resolver.delegate = true →
    ∃ before, s.resolvers[k]? = some before ∧ before.delegate = true ∧ (s.dnsResolver = some k → t.dnsResolver = some k)
  held : s.dnsResolver = none → t.dnsResolver = none
  posted : ∃ posted, t.tasks = s.tasks ++ posted ∧ ∀ task ∈ posted, ∃ k, task = .doCancel k
  cleaned : t.alreadyCleanUp = true → s.alreadyCleanUp = true ∨ t.dnsResolver = none
  count : t.cleanUps + s.alreadyCleanUp.toNat = s.cleanUps + t.alreadyCleanUp.toNat
  kept : s.alreadyCleanUp = true → t.alreadyCleanUp = true

theorem Lessens.refl (s : State) : Lessens s s where
  stoped := rfl
  heard _ resolver found told := ⟨resolver, found, told, id⟩
  held := id
  posted := ⟨[], (List.append_nil _).symm, nofun⟩
  cleaned := Or.inl
  count := rfl
  kept := id

theorem Lessens.trans (first : Lessens s t) (second : Lessens t u) : Lessens s u where
  stoped := second.stoped.trans first.stoped
  heard k resolver found told := by
    obtain ⟨middle, found, told, later⟩ := second.heard k resolver found told
    obtain ⟨before, found, told, earlier⟩ := first.heard k middle found told
    exact ⟨before, found, told, fun held => later (earlier held)⟩
  held none := second.held (first.held none)
  posted := by
    obtain ⟨more, tasks, cancels⟩ := first.posted
    obtain ⟨rest, after, also⟩ := second.posted
    refine ⟨more ++ rest, by rw [after, tasks, List.append_assoc], fun task member => ?_⟩
    exact (List.mem_append.mp member).elim (cancels task) (also task)
  cleaned clean := by
    rcases second.cleaned clean with clean | none
    · exact (first.cleaned clean).imp id second.held
    · exact Or.inr none
  count := by
    have one := first.count
    have two := second.count
    omega
  kept clean := second.kept (first.kept clean)

theorem Lessens.of_eq (stoped : t.stoped = s.stoped) (resolvers : t.resolvers = s.resolvers)
    (held : t.dnsResolver = s.dnsResolver) (tasks : t.tasks = s.tasks)
    (clean : t.alreadyCleanUp = s.alreadyCleanUp) (count : t.cleanUps = s.cleanUps) :
    Lessens s t where
  stoped := stoped
  heard k resolver found told := ⟨resolver, resolvers ▸ found, told, held.trans⟩
  held := held.trans
  posted := ⟨[], tasks.trans (List.append_nil _).symm, nofun⟩
  cleaned cleaned := Or.inl (clean.symm.trans cleaned)
  count := by rw [count, clean]
  kept := clean.trans

theorem notify_lessens (callback : Callback) : Lessens s (s.notify callback) := by
  unfold notify
  split <;> exact .of_eq rfl rfl rfl rfl rfl rfl

theorem cancelResolver_lessens : Lessens s s.cancelResolver := by
  rw [cancelResolver_eq]
  constructor
  case heard =>
    intro k resolver found told
    obtain ⟨found, other⟩ := released_delegate found told
    exact ⟨resolver, found, told, fun held => absurd held other⟩
  case posted =>
    refine ⟨_, rfl, fun task member => ?_⟩
    obtain ⟨k, -, rfl⟩ := Option.map_eq_some_iff.mp (Option.mem_toList.mp member)
    exact ⟨k, rfl⟩
  all_goals simp

theorem handleCleanUp_lessens : Lessens s s.handleCleanUp := by
  cases clean : s.alreadyCleanUp with
  | true =>
    rw [handleCleanUp_again clean]
    exact .refl s
  | false =>
    have cancelled := cancelResolver_lessens (s := s)
    rw [cancelResolver_eq] at cancelled
    rw [handleCleanUp_first clean]
    constructor
    case heard => exact cancelled.heard
    case posted => exact cancelled.posted
    all_goals simp [clean]

theorem startRecvDate_lessens : Lessens s s.startRecvDate := .of_eq rfl rfl rfl rfl rfl rfl

theorem tells_lessens (callback : Callback) : Lessens s (s.notify callback).handleCleanUp :=
  (notify_lessens callback).trans handleCleanUp_lessens

theorem cleans_lessens (code : Int) : Lessens s (s.handleCleanUp.handleConnectStatus code) :=
  handleCleanUp_lessens.trans (notify_lessens _)

theorem receives_lessens (callback : Callback) : Lessens s (s.notify callback).startRecvDate :=
  (notify_lessens callback).trans startRecvDate_lessens

theorem doOtherHandshake_lessens (code : Int) : Lessens s (s.doOtherHandshake request code) := by
  rw [doOtherHandshake_eq]
  split
  · exact .of_eq rfl rfl rfl rfl rfl rfl
  · split
    · exact .of_eq rfl rfl rfl rfl rfl rfl
    · exact receives_lessens _

theorem onDnsResolvered_lessens (code : Int) : Lessens s (s.onDnsResolvered code) := by
  unfold onDnsResolvered
  refine cancelResolver_lessens.trans ?_
  split
  · exact tells_lessens _
  · exact .of_eq rfl rfl rfl rfl rfl rfl

theorem onSocks5Handshake_lessens (code : Int) : Lessens s (s.onSocks5Handshake request code) := by
  rw [onSocks5Handshake_free]
  refine Lessens.trans (t := { s with socks5Client := none }) (.of_eq rfl rfl rfl rfl rfl rfl) ?_
  split
  · exact doOtherHandshake_lessens code
  · exact cleans_lessens code

/-- The number of lookups of a resolver changes. -/
theorem outstanding_lessens (k : Nat) (count : Nat → Nat) : Lessens s { s with
    resolvers := s.resolvers.modify k fun resolver =>
      { resolver with outstanding := count resolver.outstanding } } := by
  constructor
  case heard =>
    intro j resolver found told
    rw [List.getElem?_modify] at found
    obtain ⟨before, present, rfl⟩ := Option.map_eq_some_iff.mp found
    refine ⟨before, present, ?_, id⟩
    split at told <;> exact told
  case posted => exact ⟨[], (List.append_nil _).symm, nofun⟩
  case cleaned => exact Or.inl
  all_goals simp

theorem doSendFromQueue_lessens (buffer : Bytes) : Lessens s (s.doSendFromQueue buffer) := by
  unfold doSendFromQueue
  dsimp only
  split <;> exact .of_eq rfl rfl rfl rfl rfl rfl

theorem notifySendComplete_lessens (ec : Int) : Lessens s (s.notifySendComplete ec) := by
  unfold notifySendComplete
  dsimp only
  split
  · exact tells_lessens _
  · split <;> exact .of_eq rfl rfl rfl rfl rfl rfl

theorem runTask_lessens {task : Task} (other : task ≠ .doDnsResolve) :
    Lessens s (s.runTask request task) := by
  cases task with
  | doDnsResolve => exact absurd rfl other
  | doResolver k =>
    simp only [runTask]
    split
    · exact (outstanding_lessens k (· + 1)).trans (.of_eq rfl rfl rfl rfl rfl rfl)
    · exact .refl s
  | doCancel k => exact .refl s
  | doSendFromQueue buffer => exact doSendFromQueue_lessens buffer
  | handleCleanUp => exact handleCleanUp_lessens

/-- The completions of operations. -/
theorem completion_lessens (pump : event.ofOwner = false) (other : event ≠ .run)
    (h : step literals request s event = some t) : Lessens s t := by
  cases event with
  | connect | disConnect | send => cases pump
  | run => exact absurd rfl other
  | resolved k code =>
    obtain ⟨resolver, resolvers, -, rfl, rfl⟩ := resolved_lookup h
    refine (outstanding_lessens k (· - 1)).trans ?_
    split
    · exact onDnsResolvered_lessens code
    · exact .refl _
  | socks5 event =>
    obtain ⟨client, next, -, -, rfl⟩ := socks5_client h
    refine Lessens.trans (t := { s with socks5Client := some next }) (.of_eq rfl rfl rfl rfl rfl rfl) ?_
    split
    · exact onSocks5Handshake_lessens _
    · exact .refl _
  | connected ec =>
    simp only [step] at h
    split at h <;> cases h
    refine Lessens.trans (t := { s with connects := s.connects - 1 }) (.of_eq rfl rfl rfl rfl rfl rfl) ?_
    unfold notifyConnectComplete
    split
    · split
      · exact .of_eq rfl rfl rfl rfl rfl rfl
      · exact doOtherHandshake_lessens ec
    · exact cleans_lessens ec
  | tlsHandshake ec =>
    simp only [step] at h
    split at h <;> cases h
    refine Lessens.trans (t := { s with tlsHandshakes := s.tlsHandshakes - 1 }) (.of_eq rfl rfl rfl rfl rfl rfl) ?_
    unfold notifyTlsHandshakeComplete
    split
    · split
      · exact .of_eq rfl rfl rfl rfl rfl rfl
      · exact receives_lessens _
    · exact tells_lessens _
  | websocketHandshake ec =>
    simp only [step] at h
    split at h <;> cases h
    refine Lessens.trans (t := { s with websocketHandshakes := s.websocketHandshakes - 1 })
      (.of_eq rfl rfl rfl rfl rfl rfl) ?_
    unfold notifyWebsocketHandshakeComplte
    dsimp only
    split
    · exact receives_lessens _
    · exact tells_lessens _
  | read ec data =>
    simp only [step] at h
    split at h <;> cases h
    refine Lessens.trans (t := { s with reads := s.reads - 1 }) (.of_eq rfl rfl rfl rfl rfl rfl) ?_
    unfold notifyRecvData
    split
    · exact tells_lessens _
    · exact receives_lessens _
  | written ec =>
    simp only [step] at h
    split at h <;> cases h
    exact Lessens.trans (t := { s with writes := s.writes - 1 }) (.of_eq rfl rfl rfl rfl rfl rfl)
      (notifySendComplete_lessens ec)

/-- A pump that refuses takes none of the tasks that were posted. -/
theorem Lessens.refused (lessens : Lessens s t) :
    Lessens s { t with tasks := t.tasks.take s.tasks.length } where
  stoped := lessens.stoped
  heard := lessens.heard
  held := lessens.held
  posted := by
    obtain ⟨posted, tasks, -⟩ := lessens.posted
    refine ⟨[], ?_, nofun⟩
    rw [tasks, List.take_left, List.append_nil]
  cleaned := lessens.cleaned
  count := lessens.count
  kept := lessens.kept

/-! ### The resolver of a connection -/

/-- Nothing was started. -/
structure Unstarted (s : State) : Prop where
  resolvers : s.resolvers = []
  held : s.dnsResolver = none
  client : s.socks5Client = none
  connects : s.connects = 0
  tls : s.tlsHandshakes = 0
  websocket : s.websocketHandshakes = 0
  reads : s.reads = 0
  writes : s.writes = 0

theorem unstarted_completion (idle : Unstarted s) (pump : event.ofOwner = false)
    (other : event ≠ .run) :
    step literals request s event = none := by
  cases event with
  | connect | disConnect | send => cases pump
  | run => exact absurd rfl other
  | resolved k code => simp [step, notifyResult, idle.resolvers]
  | socks5 event => simp [step, socks5Step, idle.client]
  | connected ec => simp [step, idle.connects]
  | tlsHandshake ec => simp [step, idle.tls]
  | websocketHandshake ec => simp [step, idle.websocket]
  | read ec data => simp [step, idle.reads]
  | written ec => simp [step, idle.writes]

/-- The only resolver with a delegate is the one that the connection holds, and a connection that
was cleaned up holds none and gets none. -/
structure Fine (s : State) : Prop where
  heard : ∀ k resolver, s.resolvers[k]? = some resolver → resolver.delegate = true → s.dnsResolver = some k
  clean : s.alreadyCleanUp = true → s.dnsResolver = none ∧ .doDnsResolve ∉ s.tasks
  first : .doDnsResolve ∈ s.tasks → Unstarted s ∧ ∃ rest, s.tasks = .doDnsResolve :: rest ∧ .doDnsResolve ∉ rest
  count : s.cleanUps = s.alreadyCleanUp.toNat

theorem initial_fine : Fine {} := ⟨nofun, nofun, nofun, rfl⟩

theorem Fine.lessens (fine : Fine s) (lessens : Lessens s t) (begun : .doDnsResolve ∉ s.tasks) :
    Fine t := by
  have begun : .doDnsResolve ∉ t.tasks := by
    obtain ⟨posted, tasks, cancels⟩ := lessens.posted
    rw [tasks, List.mem_append]
    rintro (member | member)
    · exact begun member
    · obtain ⟨k, same⟩ := cancels _ member
      cases same
  refine ⟨fun k resolver found told => ?_, fun clean => ⟨?_, begun⟩,
    fun member => absurd member begun, ?_⟩
  · obtain ⟨before, found, told, held⟩ := lessens.heard k resolver found told
    exact held (fine.heard k before found told)
  · exact (lessens.cleaned clean).elim (fun clean => lessens.held (fine.clean clean).1) id
  · have before := fine.count
    have after := lessens.count
    omega

theorem Fine.post {task : Task} (fine : Fine s) (other : task ≠ .doDnsResolve) :
    Fine (s.postRunable task) := by
  have same : .doDnsResolve ∈ (s.postRunable task).tasks ↔ .doDnsResolve ∈ s.tasks := by
    simp [postRunable, other.symm]
  refine ⟨fine.heard, fun clean => ⟨(fine.clean clean).1,
    fun member => (fine.clean clean).2 (same.mp member)⟩, fun member => ?_, fine.count⟩
  obtain ⟨idle, rest, tasks, once⟩ := fine.first (same.mp member)
  refine ⟨{ idle with }, rest ++ [task], ?_, ?_⟩
  · rw [postRunable, tasks, List.cons_append]
  · simp [once, other.symm]

theorem Fine.rest {task : Task} {rest : List Task} (fine : Fine s)
    (tasks : s.tasks = task :: rest) :
    Fine { s with tasks := rest } ∧ .doDnsResolve ∉ rest := by
  have once : .doDnsResolve ∉ rest := by
    intro member
    obtain ⟨-, others, same, once⟩ :=
      fine.first (by rw [tasks]; exact List.mem_cons_of_mem _ member)
    rw [tasks] at same
    exact once ((List.cons.inj same).2 ▸ member)
  exact ⟨⟨fine.heard, fun clean => ⟨(fine.clean clean).1, once⟩, fun member => absurd member once,
    fine.count⟩, once⟩

/-- `DoDnsResolve`, with its resolver posted or not. -/
theorem Fine.begins {rest : List Task} {next : State} (fine : Fine s)
    (tasks : s.tasks = .doDnsResolve :: rest)
    (after : next = { s with tasks := rest }.doDnsResolve request ∨
      next = { { s with tasks := rest }.doDnsResolve request with tasks := rest }) :
    Fine next := by
  have member : .doDnsResolve ∈ s.tasks := by
    rw [tasks]
    exact List.mem_cons_self
  obtain ⟨idle, -⟩ := fine.first member
  have once := (fine.rest tasks).2
  have dirty : ¬s.alreadyCleanUp = true := fun clean => (fine.clean clean).2 member
  have heard : ∀ k resolver, ({ s with tasks := rest }.doDnsResolve request).resolvers[k]? =
      some resolver → some s.resolvers.length = some k := by
    intro k resolver found
    rw [idle.resolvers]
    simp only [doDnsResolve, postRunable, idle.resolvers, List.nil_append,
      List.getElem?_singleton] at found
    split at found
    · rename_i zero
      rw [zero]
      rfl
    · cases found
  rcases after with rfl | rfl
  · refine ⟨fun k resolver found _ => heard k resolver found, fun clean => absurd clean dirty,
      fun member => ?_, fine.count⟩
    simp [doDnsResolve, postRunable, once] at member
  · exact ⟨fun k resolver found _ => heard k resolver found, fun clean => absurd clean dirty,
      fun member => absurd member once, fine.count⟩

/-- The task of `DisConnect` is on its way, or the connection is cleaned up. -/
def Stops (s : State) : Prop := .handleCleanUp ∈ s.tasks ∨ s.alreadyCleanUp = true

theorem Lessens.stops (lessens : Lessens s t) (stops : Stops s) : Stops t := by
  refine stops.imp (fun member => ?_) lessens.kept
  obtain ⟨posted, tasks, -⟩ := lessens.posted
  rw [tasks]
  exact List.mem_append_left _ member

theorem Lessens.refusal (lessens : Lessens s t) (refusing : Bool)
    (leaves : event.leaves u = s.tasks.length) :
    Lessens s (refusal refusing event u t) := by
  unfold Connection.refusal
  cases refusing with
  | false => exact lessens
  | true =>
    rw [leaves]
    exact lessens.refused

/-- The thread of the pump keeps the resolver as it should be, and does not lose the task of
`DisConnect`. -/
theorem pump_fine (fine : Fine s) (pump : event.ofOwner = false)
    (h : step literals request s event = some t) (refusing : Bool) :
    Fine (refusal refusing event s t) ∧ (refusal refusing event s t).stoped = s.stoped ∧
      (Stops s → Stops (refusal refusing event s t)) := by
  by_cases runs : event = .run
  · subst runs
    obtain ⟨task, rest, tasks, rfl⟩ := run_task h
    have leaves : Event.leaves s .run = rest.length := by simp [Event.leaves, tasks]
    by_cases begins : task = .doDnsResolve
    · subst begins
      have after : refusal refusing .run s ({ s with tasks := rest }.runTask request .doDnsResolve) =
            { s with tasks := rest }.doDnsResolve request ∨
          refusal refusing .run s ({ s with tasks := rest }.runTask request .doDnsResolve) =
            { { s with tasks := rest }.doDnsResolve request with tasks := rest } := by
        unfold refusal
        cases refusing with
        | false => exact Or.inl rfl
        | true =>
          right
          simp [leaves, runTask, doDnsResolve, postRunable]
      refine ⟨fine.begins tasks after, ?_, ?_⟩
      · rcases after with same | same <;> rw [same] <;> rfl
      · rintro (member | clean)
        · rw [tasks] at member
          have member : .handleCleanUp ∈ rest := by simpa using member
          refine Or.inl ?_
          rcases after with same | same <;> rw [same]
          · exact List.mem_append_left _ member
          · exact member
        · refine Or.inr ?_
          rcases after with same | same <;> rw [same] <;> exact clean
    · have ran : Lessens { s with tasks := rest } ({ s with tasks := rest }.runTask request task) :=
        runTask_lessens begins
      have lessens := ran.refusal refusing leaves
      refine ⟨(fine.rest tasks).1.lessens lessens (fine.rest tasks).2, lessens.stoped, ?_⟩
      rintro (member | clean)
      · rw [tasks] at member
        rcases List.mem_cons.mp member with rfl | member
        · refine Or.inr ?_
          unfold refusal
          split <;> exact handleCleanUp_alreadyCleanUp
        · exact lessens.stops (Or.inl member)
      · exact lessens.stops (Or.inr clean)
  · have begun : .doDnsResolve ∉ s.tasks := by
      intro member
      rw [unstarted_completion (fine.first member).1 pump runs] at h
      cases h
    have leaves : event.leaves s = s.tasks.length := by
      cases event <;> first | rfl | exact absurd rfl runs
    have lessens := (completion_lessens pump runs h).refusal refusing leaves
    exact ⟨fine.lessens lessens begun, lessens.stoped, lessens.stops⟩

/-! ### The life of a connection -/

namespace Lifetime

variable {l m : Lifetime}

structure Sound (l : Lifetime) : Prop where
  fine : Fine l.connection
  fresh : l.called = false → l.connection = {}
  stops : l.connection.stoped = true → Stops l.connection
  owner : l.owned = false → l.connection.stoped = true
  refuses : l.refusing = true → l.connection.stoped = true
  gone : l.destroyed = true → l.connection.alreadyCleanUp = true ∧ l.owned = false
  alive : l.owned = false → l.destroyed = false → 0 < l.connection.strong
  dangling : l.dangling = false
  unstopped : l.unstopped = false

theorem initial_sound : Sound {} :=
  ⟨initial_fine, fun _ => rfl, nofun, nofun, nofun, nofun, nofun, rfl, rfl⟩

/-- When the last reference goes, the connection was cleaned up, and there is no resolver that would
call it. -/
theorem settle_sound (fine : Fine l.connection) (fresh : l.called = false → l.connection = {})
    (stops : l.connection.stoped = true → Stops l.connection)
    (owner : l.owned = false → l.connection.stoped = true)
    (refuses : l.refusing = true → l.connection.stoped = true) (living : l.destroyed = false)
    (dangling : l.dangling = false) (unstopped : l.unstopped = false) : Sound l.settle := by
  unfold settle
  split
  · rename_i last
    simp only [living, Bool.not_false, Bool.and_true, Bool.and_eq_true, Bool.not_eq_true',
      beq_iff_eq] at last
    obtain ⟨released, none⟩ := last
    have stoped := owner released
    have clean : l.connection.alreadyCleanUp = true := by
      refine (stops stoped).resolve_left fun member => ?_
      have positive := List.count_pos_iff.mpr member
      unfold State.strong at none
      omega
    have unheld := (fine.clean clean).1
    refine ⟨⟨fun k resolver found told => ?_, fun _ => ⟨rfl, (fine.clean clean).2⟩,
      fun member => ?_, fine.count⟩, fun uncalled => ?_, stops, owner, refuses,
      fun _ => ⟨clean, released⟩, nofun, dangling, ?_⟩
    · have held := fine.heard k resolver found told
      rw [unheld] at held
      cases held
    · exact absurd member (fine.clean clean).2
    · have initial := fresh uncalled
      rw [initial] at stoped
      cases stoped
    · simp [destroy, stoped]
  · rename_i last
    refine ⟨fine, fresh, stops, owner, refuses, fun gone => ?_, fun released _ => ?_, dangling,
      unstopped⟩
    · rw [living] at gone
      cases gone
    · simpa [living, released, Nat.pos_iff_ne_zero] using last

theorem living (sound : Sound l) (owned : l.owned = true) : l.destroyed = false := by
  cases gone : l.destroyed with
  | false => rfl
  | true =>
    rw [(sound.gone gone).2] at owned
    cases owned

/-- The calls of the owner. -/
theorem call_sound (sound : Sound l) (owned : l.owned = true) {next : State} (fine : Fine next)
    (stoped : l.connection.stoped = true → next.stoped = true)
    (stops : next.stoped = true → Stops next) :
    Sound { l with connection := next, called := true } where
  fine := fine
  fresh := nofun
  stops := stops
  owner released := by
    rw [owned] at released
    cases released
  refuses refusing := stoped (sound.refuses refusing)
  gone gone := by
    rw [living sound owned] at gone
    cases gone
  alive released := by
    rw [owned] at released
    cases released
  dangling := sound.dangling
  unstopped := sound.unstopped

/-- The pump takes the tasks of the owner as long as the connection is not stopped. -/
theorem accepting (sound : Sound l) (running : l.connection.stoped = false) (event : Event)
    (next : State) :
    refusal l.refusing event l.connection next = next := by
  unfold refusal
  refine if_neg fun refusing => ?_
  rw [sound.refuses refusing] at running
  cases running

theorem refusal_same (refusing : Bool) (s : State) (event : Event) (calls : event.ofOwner = true) :
    refusal refusing event s s = s := by
  have leaves : event.leaves s = s.tasks.length := by
    cases event <;> first | rfl | cases calls
  unfold refusal
  rw [leaves, List.take_length]
  split <;> rfl

theorem initial_step {event : Event} (pump : event.ofOwner = false) :
    Connection.step literals request {} event = none := by
  by_cases runs : event = .run
  · rw [runs]
    rfl
  · exact unstarted_completion ⟨rfl, rfl, rfl, rfl, rfl, rfl, rfl, rfl⟩ pump runs

/-- A destroyed connection stays as it is but for the resolvers and the tasks that are left. -/
theorem remains_sound (sound : Sound l) (gone : l.destroyed = true) {rest : List Task}
    {next : State} (fine : Fine { l.connection with tasks := rest }) (begun : .doDnsResolve ∉ rest)
    (lessens : Lessens { l.connection with tasks := rest } next) :
    Sound { l with connection := next } := by
  obtain ⟨clean, released⟩ := sound.gone gone
  have stoped : next.stoped = true := lessens.stoped.trans (sound.owner released)
  have cleaned : next.alreadyCleanUp = true := lessens.kept clean
  refine ⟨fine.lessens lessens begun, fun uncalled => ?_, fun _ => Or.inr cleaned, fun _ => stoped,
    fun _ => stoped, fun _ => ⟨cleaned, released⟩, fun _ alive => ?_, sound.dangling,
    sound.unstopped⟩
  · rw [sound.fresh uncalled] at clean
    cases clean
  · rw [gone] at alive
    cases alive

theorem afterwards_sound (sound : Sound l) (gone : l.destroyed = true) {event : Event}
    (h : l.afterwards request event = some m) : Sound m := by
  obtain ⟨unheld, begun⟩ := sound.fine.clean (sound.gone gone).1
  cases event with
  | run =>
    simp only [afterwards] at h
    split at h <;> cases h
    · rename_i tasks
      exact remains_sound sound gone (sound.fine.rest tasks).1 (sound.fine.rest tasks).2 (.refl _)
    · rename_i tasks
      exact remains_sound sound gone (sound.fine.rest tasks).1 (sound.fine.rest tasks).2 (.refl _)
    · rename_i other _ tasks
      exact remains_sound sound gone (sound.fine.rest tasks).1 (sound.fine.rest tasks).2 (runTask_lessens other)
  | resolved k code =>
    simp only [afterwards] at h
    split at h
    · rename_i resolver found
      split at h <;> cases h
      have silent : resolver.delegate = false := by
        cases told : resolver.delegate with
        | false => rfl
        | true =>
          have held := sound.fine.heard k resolver found told
          rw [unheld] at held
          cases held
      rw [silent, Bool.or_false]
      exact remains_sound sound gone sound.fine begun (outstanding_lessens k (· - 1))
    · cases h
  | connect | disConnect | send | connected | socks5 | tlsHandshake | websocketHandshake | read | written => cases h

theorem owner_sound (sound : Sound l) (owned : l.owned = true) {event : Event}
    (calls : event.ofOwner = true) (orderly : l.Orderly (.connection event)) {next : State}
    (h : Connection.step literals request l.connection event = some next) :
    Sound { l.moved event next with called := true } := by
  cases event with
  | connect =>
    cases h
    have initial := sound.fresh orderly
    have running : l.connection.stoped = false := by rw [initial]
    rw [moved, accepting sound running]
    refine call_sound sound owned ⟨?_, ?_, ?_, ?_⟩ id fun stoped => ?_
    · rw [initial]
      nofun
    · rw [initial]
      nofun
    · rw [initial]
      exact fun _ => ⟨⟨rfl, rfl, rfl, rfl, rfl, rfl, rfl, rfl⟩, [], rfl, nofun⟩
    · rw [initial]
      rfl
    · rw [initial] at stoped
      cases stoped
  | disConnect =>
    cases h
    unfold disConnect
    split
    · rw [moved, refusal_same _ _ _ calls]
      exact call_sound sound owned sound.fine id sound.stops
    · rename_i running
      rw [moved, accepting sound (Bool.eq_false_iff.mpr running)]
      have fine : Fine { l.connection with stoped := true, delegate := false } := by
        refine ⟨sound.fine.heard, sound.fine.clean, fun member => ?_, sound.fine.count⟩
        obtain ⟨idle, split⟩ := sound.fine.first member
        exact ⟨{ idle with }, split⟩
      exact call_sound sound owned (fine.post nofun) (fun _ => rfl)
        fun _ => Or.inl (List.mem_append_right _ List.mem_cons_self)
  | send buffer =>
    cases h
    unfold send
    split
    · rw [moved, refusal_same _ _ _ calls]
      exact call_sound sound owned sound.fine id sound.stops
    · rename_i running
      have running := Bool.eq_false_iff.mpr running
      rw [moved, accepting sound running]
      refine call_sound sound owned (sound.fine.post nofun) id fun stoped => ?_
      rw [show (l.connection.postRunable (.doSendFromQueue buffer)).stoped = l.connection.stoped from rfl, running] at stoped
      cases stoped
  | run | resolved | connected | socks5 | tlsHandshake | websocketHandshake | read | written => cases calls

theorem step_sound (sound : Sound l) {event : LifetimeEvent} (orderly : l.Orderly event)
    (h : l.step literals request event = some m) : Sound m := by
  cases event with
  | refuse =>
    cases h
    exact ⟨sound.fine, sound.fresh, sound.stops, sound.owner, fun _ => orderly, sound.gone,
      sound.alive, sound.dangling, sound.unstopped⟩
  | release =>
    simp only [step] at h
    split at h <;> cases h
    rename_i owned
    have living := living sound owned
    exact settle_sound sound.fine sound.fresh sound.stops (fun _ => orderly) sound.refuses living sound.dangling
      sound.unstopped
  | connection event =>
    simp only [step] at h
    split at h
    · split at h
      · rename_i calls owned
        obtain ⟨next, stepped, rfl⟩ := Option.map_eq_some_iff.mp h
        exact owner_sound sound owned calls orderly stepped
      · cases h
    · rename_i pump
      have pump := Bool.eq_false_iff.mpr pump
      split at h
      · rename_i gone
        exact afterwards_sound sound gone h
      · rename_i living
        obtain ⟨next, stepped, rfl⟩ := Option.map_eq_some_iff.mp h
        obtain ⟨fine, stoped, stops⟩ := pump_fine sound.fine pump stepped l.refusing
        refine settle_sound fine (fun uncalled => ?_) (fun now => stops (sound.stops (stoped.symm.trans now)))
          (fun released => stoped.trans (sound.owner released)) (fun refusing => stoped.trans (sound.refuses refusing))
          (Bool.eq_false_iff.mpr living) sound.dangling sound.unstopped
        rw [sound.fresh uncalled, initial_step pump] at stepped
        cases stepped

end Lifetime

variable {l : Lifetime} {events : List LifetimeEvent}

/-- If the owner calls `Connect` first and once, and `DisConnect` before it gives up its reference,
and the pump takes that task, then no resolver ever calls a connection that is destroyed and no
destructor finds its object not stopped. The connection is cleaned up exactly once before it is
destroyed, and once the owner has given it up it lives only as long as a handler or a task refers to
it. -/
theorem lifetime_orderly
    (orderly : EachStep (Lifetime.step literals request) Lifetime.Orderly {} events)
    (h : run (Lifetime.step literals request) {} events = some l) :
    l.dangling = false ∧ l.unstopped = false ∧ (∀ k, ¬l.connection.Abandoned k) ∧
      (l.destroyed = true → l.connection.cleanUps = 1) ∧
      (l.owned = false → l.destroyed = false → 0 < l.connection.strong) := by
  have sound : l.Sound :=
    run_keeps_under (fun _ _ _ sound orderly stepped => Lifetime.step_sound sound orderly stepped)
      Lifetime.initial_sound orderly h
  refine ⟨sound.dangling, sound.unstopped, ?_, fun gone => ?_, sound.alive⟩
  · rintro k ⟨resolver, found, told, dead⟩
    have held := sound.fine.heard k resolver found told
    simp [State.resolverAlive, held] at dead
  · rw [sound.fine.count, (sound.gone gone).1]
    rfl

/-- The owner gives up an established connection. The read that is aborted is the last to refer to
it. -/
def givenUp : List LifetimeEvent :=
  [.connection .connect, .connection .run, .connection .run, .connection (.resolved 0 0),
    .connection .run, .connection (.connected 0), .connection .disConnect, .release,
    .connection .run, .connection (.read 125 [])]

theorem lifetime_orderly_givenUp :
    ∃ l, run (Lifetime.step Socks5.noLiterals plainRequest) {} givenUp = some l ∧
      l.destroyed = true ∧ l.dangling = false ∧ l.unstopped = false ∧
      (∀ k, ¬ l.connection.Abandoned k) ∧ l.connection.cleanUps = 1 := by
  have orderly : EachStep (Lifetime.step Socks5.noLiterals plainRequest) Lifetime.Orderly {}
      givenUp := eachStep_of_meets (by decide)
  have reached : run (Lifetime.step Socks5.noLiterals plainRequest) {} givenUp = some _ := rfl
  obtain ⟨dangling, unstopped, abandoned, once, -⟩ := lifetime_orderly orderly reached
  exact ⟨_, reached, rfl, dangling, unstopped, abandoned, once rfl⟩

end Kingkong.Connection
