import Kingkong.Connection.Step

/-!
The stages of a connection. At any time at most one stage is under way, and only its completion can
start the next one.
-/

namespace Kingkong.Connection
open Lib State

variable {request : NetConnectionRequest} {s : State}

inductive Stage where
  | resolved (host : Bytes) (port : UInt16)
  | connected
  | socks5
  | tls
  | websocket
  deriving DecidableEq

def target (request : NetConnectionRequest) : Stage :=
  if request.proxyHost ≠ [] then .resolved request.proxyHost request.proxyPort else .resolved request.host request.port

def tunnelled (request : NetConnectionRequest) : List Stage :=
  if request.proxyHost ≠ [] then [.socks5] else []

def secured (request : NetConnectionRequest) : List Stage :=
  if request.netType.secure then [.tls] else []

def upgraded (request : NetConnectionRequest) : List Stage :=
  if request.netType.upgrades then [.websocket] else []

/-- The stages that a request needs, in order. -/
def required (request : NetConnectionRequest) : List Stage :=
  [target request, .connected] ++ tunnelled request ++ secured request ++ upgraded request

theorem tunnelled_direct (direct : request.proxyHost = []) : tunnelled request = [] := by
  simp [tunnelled, direct]

theorem tunnelled_proxy (proxy : request.proxyHost ≠ []) : tunnelled request = [.socks5] := by
  simp [tunnelled, proxy]

/-! ### The stage under way -/

inductive Progress where
  | idle | asked | looking | connecting | proxying | securing | upgrading | done
  deriving DecidableEq

/-- The stages that are complete when the one named is under way. -/
def completedBefore (request : NetConnectionRequest) : Progress → List Stage
  | .idle | .asked | .looking => []
  | .connecting => [target request]
  | .proxying => [target request, .connected]
  | .securing => [target request, .connected] ++ tunnelled request
  | .upgrading => [target request, .connected] ++ tunnelled request ++ secured request
  | .done => required request

/-- Nothing but the named stage can still complete, and nothing is read before the end. -/
structure Only (request : NetConnectionRequest) (progress : Progress) (s : State) : Prop where
  lookups : s.tasks.count .doDnsResolve ≤ if progress = .asked then 1 else 0
  resolver : ∀ k resolver, s.resolvers[k]? = some resolver → resolver.delegate = true →
    progress = .looking ∧ s.dnsResolver = some k ∧ .resolved resolver.host resolver.port = target request
  connects : s.connects ≤ if progress = .connecting then 1 else 0
  client : ∀ client, s.socks5Client = some client → progress = .proxying ∧ client.answers = []
  tls : s.tlsHandshakes ≤ if progress = .securing then 1 else 0
  websocket : s.websocketHandshakes ≤ if progress = .upgrading then 1 else 0
  reads : 0 < s.reads → progress = .done

variable {progress : Progress}

/-- Nothing can complete. -/
structure Bare (s : State) : Prop where
  lookups : s.tasks.count .doDnsResolve = 0
  resolver : ∀ (k : Nat) (resolver : DnsResolver), s.resolvers[k]? = some resolver → resolver.delegate = false
  connects : s.connects = 0
  client : s.socks5Client = none
  tls : s.tlsHandshakes = 0
  websocket : s.websocketHandshakes = 0
  reads : s.reads = 0

theorem initial_bare : Bare {} :=
  ⟨rfl, fun k resolver found => by simp at found, rfl, rfl, rfl, rfl, rfl⟩

theorem bare_only (bare : Bare s) : Only request progress s := by
  refine ⟨by simp [bare.lookups], ?_, by simp [bare.connects], ?_, by simp [bare.tls], by simp [bare.websocket], ?_⟩
  · intro k resolver found told
    rw [bare.resolver k resolver found] at told
    cases told
  · intro client found
    rw [bare.client] at found
    cases found
  · intro reading
    rw [bare.reads] at reading
    cases reading

theorem released_silent {k : Nat} {resolver : DnsResolver} (only : Only request progress s)
    (found : (released s)[k]? = some resolver) : resolver.delegate = false := by
  by_contra told
  obtain ⟨present, other⟩ := released_delegate found (by simpa using told)
  exact other (only.resolver k resolver present (by simpa using told)).2.1

theorem count_doCancel (tasks : List Task) (held : Option Nat) :
    (tasks ++ (held.map Task.doCancel).toList).count .doDnsResolve = tasks.count .doDnsResolve := by
  cases held <;> simp

theorem handleCleanUp_only (only : Only request progress s) :
    Only request progress s.handleCleanUp := by
  cases clean : s.alreadyCleanUp with
  | true => rwa [handleCleanUp_again clean]
  | false =>
    rw [handleCleanUp_first clean]
    refine ⟨?_, ?_, only.connects, ?_, only.tls, only.websocket, only.reads⟩
    · simpa only [count_doCancel] using only.lookups
    · intro k resolver found told
      rw [released_silent only found] at told
      cases told
    · intro client found
      cases found

theorem notify_only (callback : Callback) (only : Only request progress s) :
    Only request progress (s.notify callback) := by
  unfold notify
  split
  · exact ⟨only.lookups, only.resolver, only.connects, only.client, only.tls, only.websocket,
      only.reads⟩
  · exact only

/-! ### The end of a stage -/

/-- What is outstanding of the stages other than the named one. -/
structure Rest (progress : Progress) (s : State) : Prop where
  lookups : progress ≠ .asked → s.tasks.count .doDnsResolve = 0
  resolver : progress ≠ .looking → ∀ (k : Nat) (resolver : DnsResolver), s.resolvers[k]? = some resolver →
    resolver.delegate = false
  connects : progress ≠ .connecting → s.connects = 0
  client : progress ≠ .proxying → s.socks5Client = none
  tls : progress ≠ .securing → s.tlsHandshakes = 0
  websocket : progress ≠ .upgrading → s.websocketHandshakes = 0
  reads : progress ≠ .done → s.reads = 0

theorem only_rest (only : Only request progress s) : Rest progress s := by
  obtain ⟨lookups, resolver, connects, client, tls, websocket, reads⟩ := only
  refine ⟨?_, ?_, ?_, ?_, ?_, ?_, ?_⟩
  · intro other
    rw [if_neg other] at lookups
    omega
  · intro other k held found
    cases told : held.delegate with
    | false => rfl
    | true => exact absurd (resolver k held found told).1 other
  · intro other
    rw [if_neg other] at connects
    omega
  · intro other
    cases held : s.socks5Client with
    | none => rfl
    | some answering => exact absurd (client answering held).1 other
  · intro other
    rw [if_neg other] at tls
    omega
  · intro other
    rw [if_neg other] at websocket
    omega
  · intro other
    by_contra reading
    exact other (reads (Nat.pos_of_ne_zero reading))

theorem connects_end (only : Only request progress s) (enabled : 0 < s.connects) :
    progress = .connecting ∧ Bare { s with connects := s.connects - 1 } := by
  obtain ⟨lookups, resolver, connects, client, tls, websocket, reads⟩ := only_rest only
  obtain rfl : progress = .connecting := by
    by_contra elsewhere
    have zero := connects elsewhere
    omega
  refine ⟨rfl, lookups (by decide), resolver (by decide), ?_, client (by decide), tls (by decide),
    websocket (by decide), reads (by decide)⟩
  have single := only.connects
  show s.connects - 1 = 0
  rw [if_pos rfl] at single
  omega

theorem tls_end (only : Only request progress s) (enabled : 0 < s.tlsHandshakes) :
    progress = .securing ∧ Bare { s with tlsHandshakes := s.tlsHandshakes - 1 } := by
  obtain ⟨lookups, resolver, connects, client, tls, websocket, reads⟩ := only_rest only
  obtain rfl : progress = .securing := by
    by_contra elsewhere
    have zero := tls elsewhere
    omega
  refine ⟨rfl, lookups (by decide), resolver (by decide), connects (by decide),
    client (by decide), ?_, websocket (by decide), reads (by decide)⟩
  have single := only.tls
  show s.tlsHandshakes - 1 = 0
  rw [if_pos rfl] at single
  omega

theorem websocket_end (only : Only request progress s) (enabled : 0 < s.websocketHandshakes) :
    progress = .upgrading ∧ Bare { s with websocketHandshakes := s.websocketHandshakes - 1 } := by
  obtain ⟨lookups, resolver, connects, client, tls, websocket, reads⟩ := only_rest only
  obtain rfl : progress = .upgrading := by
    by_contra elsewhere
    have zero := websocket elsewhere
    omega
  refine ⟨rfl, lookups (by decide), resolver (by decide), connects (by decide), client (by decide),
    tls (by decide), ?_, reads (by decide)⟩
  have single := only.websocket
  show s.websocketHandshakes - 1 = 0
  rw [if_pos rfl] at single
  omega

theorem client_end {client : Socks5.State} (only : Only request progress s)
    (held : s.socks5Client = some client) :
    progress = .proxying ∧ Bare { s with socks5Client := none } := by
  obtain ⟨lookups, resolver, connects, _, tls, websocket, reads⟩ := only_rest only
  obtain ⟨rfl, _⟩ := only.client client held
  exact ⟨rfl, lookups (by decide), resolver (by decide), connects (by decide), rfl, tls (by decide),
    websocket (by decide), reads (by decide)⟩

theorem resolver_end {k : Nat} {resolver : DnsResolver} (only : Only request progress s)
    (found : s.resolvers[k]? = some resolver) (told : resolver.delegate = true) :
    progress = .looking ∧ .resolved resolver.host resolver.port = target request ∧
      Bare s.cancelResolver := by
  obtain ⟨lookups, _, connects, client, tls, websocket, reads⟩ := only_rest only
  obtain ⟨rfl, _, aim⟩ := only.resolver k resolver found told
  refine ⟨rfl, aim, ?_⟩
  rw [cancelResolver_eq]
  refine ⟨?_, fun _ _ => released_silent only, connects (by decide), client (by decide),
    tls (by decide), websocket (by decide), reads (by decide)⟩
  rw [count_doCancel]
  exact lookups (by decide)

theorem lookup_end {rest : List Task} (only : Only request progress s)
    (tasks : s.tasks = .doDnsResolve :: rest) :
    progress = .asked ∧ Bare { s with tasks := rest } := by
  obtain ⟨lookups, resolver, connects, client, tls, websocket, reads⟩ := only_rest only
  have more : s.tasks.count .doDnsResolve = rest.count .doDnsResolve + 1 := by
    rw [tasks, List.count_cons_self]
  obtain rfl : progress = .asked := by
    by_contra elsewhere
    have zero := lookups elsewhere
    omega
  refine ⟨rfl, ?_, resolver (by decide), connects (by decide), client (by decide), tls (by decide),
    websocket (by decide), reads (by decide)⟩
  have single := only.lookups
  show rest.count .doDnsResolve = 0
  rw [if_pos rfl] at single
  omega

theorem idle_bare (only : Only request .idle s) : Bare s := by
  obtain ⟨lookups, resolver, connects, client, tls, websocket, reads⟩ := only_rest only
  exact ⟨lookups (by decide), resolver (by decide), connects (by decide), client (by decide),
    tls (by decide), websocket (by decide), reads (by decide)⟩

/-! ### The start of a stage -/

theorem connect_asked (bare : Bare s) : Only request .asked s.connect := by
  have only : Only request .asked s := bare_only bare
  refine ⟨?_, only.resolver, only.connects, only.client, only.tls, only.websocket, only.reads⟩
  simp [connect, postRunable, bare.lookups]

theorem doDnsResolve_looking (bare : Bare s) : Only request .looking (s.doDnsResolve request) := by
  have only : Only request .looking s := bare_only bare
  refine ⟨?_, ?_, only.connects, only.client, only.tls, only.websocket, only.reads⟩
  · simp [doDnsResolve, postRunable, bare.lookups]
  · intro k resolver found told
    rcases Nat.lt_or_ge k s.resolvers.length with earlier | last
    · rw [doDnsResolve, postRunable, List.getElem?_append_left earlier] at found
      rw [bare.resolver k resolver found] at told
      cases told
    · rw [doDnsResolve, postRunable, List.getElem?_append_right last] at found
      obtain ⟨bound, _⟩ := List.getElem?_eq_some_iff.mp found
      have here : k = s.resolvers.length := by
        rw [List.length_singleton] at bound
        omega
      subst here
      rw [Nat.sub_self, List.getElem?_cons_zero, Option.some.injEq] at found
      refine ⟨rfl, rfl, ?_⟩
      rw [← found, target]
      split <;> rfl

theorem connects_connecting (bare : Bare s) (history : List Action) :
    Only request .connecting { s with connects := s.connects + 1, history := history } := by
  have only : Only request .connecting s := bare_only bare
  exact ⟨only.lookups,
    only.resolver, by simp [bare.connects], only.client, only.tls, only.websocket, only.reads⟩

theorem client_proxying {client : Socks5.State} (bare : Bare s) (fresh : client.answers = [])
    (history : List Action) :
    Only request .proxying { s with socks5Client := some client, history := history } := by
  have only : Only request .proxying s := bare_only bare
  refine ⟨only.lookups, only.resolver, only.connects, ?_, only.tls, only.websocket, only.reads⟩
  rintro other ⟨⟩
  exact ⟨rfl, fresh⟩

theorem doTlsHandshake_securing (bare : Bare s) : Only request .securing s.doTlsHandshake := by
  have only : Only request .securing s := bare_only bare
  exact ⟨only.lookups, only.resolver, only.connects,
    only.client, by simp [doTlsHandshake, bare.tls], only.websocket,
    only.reads⟩

theorem doWebsocketHandshake_upgrading (bare : Bare s) :
    Only request .upgrading s.doWebsocketHandshake := by
  have only : Only request .upgrading s := bare_only bare
  exact ⟨only.lookups, only.resolver, only.connects, only.client, only.tls,
    by simp [doWebsocketHandshake, bare.websocket], only.reads⟩

theorem startRecvDate_done (only : Only request .done s) : Only request .done s.startRecvDate :=
  ⟨only.lookups, only.resolver, only.connects, only.client, only.tls, only.websocket, fun _ => rfl⟩

/-! ### The handlers that change no stage -/

theorem lookups_only (k : Nat) (count : DnsResolver → Nat) (only : Only request progress s)
    (history : List Action) :
    Only request progress
      { s with
        resolvers := s.resolvers.modify k fun resolver =>
          { resolver with outstanding := count resolver }
        history := history } := by
  refine ⟨only.lookups, ?_, only.connects, only.client, only.tls, only.websocket, only.reads⟩
  intro j resolver found told
  rw [List.getElem?_modify] at found
  split at found
  · obtain ⟨before, present, rfl⟩ := Option.map_eq_some_iff.mp found
    exact only.resolver j before present told
  · rw [id_map'] at found
    exact only.resolver j resolver found told

theorem queue_only (only : Only request progress s) (buffers : List Bytes) (writes : Nat)
    (history : List Action) :
    Only request progress { s with sendBuffers := buffers, writes := writes, history := history } :=
  ⟨only.lookups, only.resolver, only.connects, only.client, only.tls, only.websocket, only.reads⟩

theorem posted_only {task : Task} (only : Only request progress s) (other : task ≠ .doDnsResolve) :
    Only request progress (s.postRunable task) := by
  refine ⟨?_, only.resolver, only.connects, only.client, only.tls, only.websocket, only.reads⟩
  have none : [task].count .doDnsResolve = 0 := by simpa [List.count_singleton] using other
  show (s.tasks ++ [task]).count .doDnsResolve ≤ _
  rw [List.count_append, none]
  exact only.lookups

theorem tail_only {task : Task} {rest : List Task} (only : Only request progress s)
    (tasks : s.tasks = task :: rest) :
    Only request progress { s with tasks := rest } := by
  refine ⟨?_, only.resolver, only.connects, only.client, only.tls, only.websocket, only.reads⟩
  have fewer : rest.count .doDnsResolve ≤ s.tasks.count .doDnsResolve := by
    rw [tasks]
    exact List.count_le_count_cons
  exact Nat.le_trans fewer only.lookups

end Kingkong.Connection
