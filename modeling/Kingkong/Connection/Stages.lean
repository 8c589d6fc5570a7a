import Kingkong.Connection.Callbacks
import Kingkong.Connection.Handlers
import Kingkong.Connection.Progress

/-!
What the connection has done when its delegate hears `OnConnect(0)`, in every run with one
`Connect`.
-/

namespace Kingkong.Connection
open Lib State

variable {literals : Socks5.Literals} {request : NetConnectionRequest} {s t : State} {event : Event}
  {events : List Event}

/-- The stage that an event ends with success. A lookup counts for the resolver that still has its
delegate. -/
def completes (literals : Socks5.Literals) (request : NetConnectionRequest) (s : State) :
    Event → List Stage
  | .resolved k code =>
    match s.resolvers[k]? with
    | some resolver => if resolver.delegate ∧ code = 0 then [.resolved resolver.host resolver.port] else []
    | none => []
  | .connected ec => if ec = 0 then [.connected] else []
  | .socks5 event => if answer literals request s event = some 0 then [.socks5] else []
  | .tlsHandshake ec => if ec = 0 then [.tls] else []
  | .websocketHandshake ec => if ec = 0 then [.websocket] else []
  | _ => []

inductive Mark where
  | completed (stage : Stage)
  | did (action : Action)
  deriving DecidableEq

def Mark.stage : Mark → Option Stage
  | .completed stage => some stage
  | .did _ => none

/-- A connection and everything that has happened to it: the stages that were completed and what it
did. -/
structure Session where
  connection : State := {}
  story : List Mark := []

namespace Session

def step (literals : Socks5.Literals) (request : NetConnectionRequest) (c : Session)
    (event : Event) :
    Option Session :=
  (Connection.step literals request c.connection event).map fun next =>
    { connection := next
      story := c.story ++ (completes literals request c.connection event).map .completed ++
        (next.history.drop c.connection.history.length).map .did }

end Session

/-- Whenever `OnConnect(0)` is delivered, exactly the required stages have been completed, in their
order, and nothing has been read yet. -/
def Earned (request : NetConnectionRequest) (story : List Mark) : Prop :=
  ∀ before after, story = before ++ .did (.callback (.onConnect 0)) :: after →
    before.filterMap Mark.stage = required request ∧ .did .recvData ∉ before

/-- Reading starts after the report of success. -/
def ReadsAfterReport (story : List Mark) : Prop :=
  ∀ before after, story = before ++ .did .recvData :: after → .did (.callback (.onConnect 0)) ∈ before

def Event.isConnect : Event → Bool
  | .connect => true
  | _ => false

variable {c d : Session} {story marks : List Mark} {progress : Progress}

/-! ### Stories -/

/-- The actions neither report success nor read. -/
def Plain (actions : List Action) : Prop := .callback (.onConnect 0) ∉ actions ∧ .recvData ∉ actions

def Unreported (story : List Mark) : Prop := .did (.callback (.onConnect 0)) ∉ story

theorem earned_unreported (unreported : Unreported story) : Earned request story := by
  intro before after split
  apply absurd _ unreported
  rw [split]
  simp

theorem earned_append (earned : Earned request story) (unreported : Unreported marks) :
    Earned request (story ++ marks) := by
  intro before after split
  rcases List.append_eq_append_iff.mp split with ⟨middle, rfl, tail⟩ | ⟨middle, rfl, tail⟩
  · apply absurd _ unreported
    rw [tail]
    simp
  · cases middle with
    | nil =>
      apply absurd _ unreported
      rw [List.nil_append] at tail
      rw [← tail]
      exact List.mem_cons_self
    | cons first rest =>
      obtain ⟨rfl, _⟩ := List.cons.inj tail
      exact earned before rest rfl

/-- The one report of success. -/
theorem earned_report {rest : List Mark} (stages : story.filterMap Mark.stage = required request)
    (unreported : Unreported story) (unread : .did .recvData ∉ story) (once : Unreported rest) :
    Earned request (story ++ .did (.callback (.onConnect 0)) :: rest) := by
  intro before after split
  rcases List.append_eq_append_iff.mp split with ⟨middle, rfl, tail⟩ | ⟨middle, rfl, tail⟩
  · cases middle with
    | nil =>
      rw [List.append_nil]
      exact ⟨stages, unread⟩
    | cons first middle =>
      obtain ⟨_, tail⟩ := List.cons.inj tail
      apply absurd _ once
      rw [tail]
      simp
  · cases middle with
    | nil =>
      rw [List.append_nil] at stages unread
      exact ⟨stages, unread⟩
    | cons first middle =>
      obtain ⟨rfl, _⟩ := List.cons.inj tail
      apply absurd _ unreported
      simp

theorem readsAfterReport_append (reads : ReadsAfterReport story)
    (fine : .did .recvData ∈ marks → .did (.callback (.onConnect 0)) ∈ story) :
    ReadsAfterReport (story ++ marks) := by
  intro before after split
  rcases List.append_eq_append_iff.mp split with ⟨middle, rfl, tail⟩ | ⟨middle, rfl, tail⟩
  · apply List.mem_append_left
    apply fine
    rw [tail]
    simp
  · cases middle with
    | nil =>
      rw [List.append_nil] at fine
      apply fine
      rw [List.nil_append] at tail
      rw [← tail]
      exact List.mem_cons_self
    | cons first rest =>
      obtain ⟨rfl, _⟩ := List.cons.inj tail
      exact reads before rest rfl

/-! ### Steps -/

/-- The request asks for the named stage. -/
def Suits (request : NetConnectionRequest) : Progress → Prop
  | .proxying => request.proxyHost ≠ []
  | .securing => request.netType.secure = true
  | .upgrading => request.netType.upgrades = true
  | _ => True

/-- What the story says while the named stage is under way. -/
structure Tells (request : NetConnectionRequest) (progress : Progress) (story : List Mark) :
    Prop where
  suits : Suits request progress
  stages : progress ≠ .done → story.filterMap Mark.stage = completedBefore request progress
  unreported : progress ≠ .done → Unreported story
  unread : progress ≠ .done → .did .recvData ∉ story
  began : progress = .done → .did .recvData ∈ story
  earned : Earned request story

structure Stands (request : NetConnectionRequest) (progress : Progress) (c : Session) : Prop where
  only : Only request progress c.connection
  tells : Tells request progress c.story

/-- The stage that is under way may have changed, but none starts before `Connect`. -/
def Reaches (request : NetConnectionRequest) (progress : Progress) (c : Session) : Prop :=
  ∃ next, (progress = .idle → next = .idle) ∧ Stands request next c

theorem stage_did (actions : List Action) : (actions.map Mark.did).filterMap Mark.stage = [] := by
  simp [List.filterMap_map, Mark.stage]

theorem tells_plain {actions : List Action} (tells : Tells request progress story)
    (plain : Plain actions) :
    Tells request progress (story ++ actions.map .did) := by
  refine ⟨tells.suits, ?_, ?_, ?_, ?_,
    earned_append tells.earned (by simpa [Unreported] using plain.1)⟩
  · intro early
    rw [List.filterMap_append, stage_did, List.append_nil]
    exact tells.stages early
  · intro early
    have before := tells.unreported early
    simpa [Unreported, plain.1] using before
  · intro early
    have before := tells.unread early
    simpa [plain.2] using before
  · exact fun last => List.mem_append_left _ (tells.began last)

theorem tells_done {actions : List Action} (tells : Tells request .done story)
    (unreported : .callback (.onConnect 0) ∉ actions) :
    Tells request .done (story ++ actions.map .did) := by
  refine ⟨tells.suits, ?_, ?_, ?_, ?_,
    earned_append tells.earned (by simpa [Unreported] using unreported)⟩
  · exact fun early => absurd rfl early
  · exact fun early => absurd rfl early
  · exact fun early => absurd rfl early
  · exact fun last => List.mem_append_left _ (tells.began last)

theorem tells_relabel {next : Progress} (tells : Tells request progress story)
    (early : progress ≠ .done) (unfinished : next ≠ .done)
    (same : completedBefore request next = completedBefore request progress)
    (suits : Suits request next) : Tells request next story := by
  refine ⟨suits, ?_, fun _ => tells.unreported early, fun _ => tells.unread early,
    fun last => absurd last unfinished, tells.earned⟩
  intro _
  rw [same]
  exact tells.stages early

/-- A stage ends and the next one starts. -/
theorem tells_next {next : Progress} {stage : Stage} {actions : List Action}
    (tells : Tells request progress story) (early : progress ≠ .done) (unfinished : next ≠ .done)
    (advance : completedBefore request next = completedBefore request progress ++ [stage])
    (suits : Suits request next) (plain : Plain actions) :
    Tells request next (story ++ [.completed stage] ++ actions.map .did) := by
  have unreported : Unreported (story ++ [.completed stage]) := by
    simpa [Unreported] using tells.unreported early
  have here : Tells request next (story ++ [.completed stage]) := by
    refine ⟨suits, ?_, fun _ => unreported, ?_, fun last => absurd last unfinished,
      earned_unreported unreported⟩
    · intro _
      rw [List.filterMap_append, tells.stages early, advance]
      rfl
    · intro _
      simpa using tells.unread early
  exact tells_plain here plain

/-- The last stage ends, and the delegate hears of it unless it is gone. -/
theorem tells_report {stage : Stage} (tells : Tells request progress story)
    (early : progress ≠ .done)
    (advance : required request = completedBefore request progress ++ [stage]) :
    Tells request .done (story ++ [.completed stage] ++ (told s (.onConnect 0) ++ [Action.recvData]).map .did) := by
  have unreported : Unreported (story ++ [.completed stage]) := by
    simpa [Unreported] using tells.unreported early
  have unread : .did .recvData ∉ story ++ [.completed stage] := by simpa using tells.unread early
  have stages : (story ++ [Mark.completed stage]).filterMap Mark.stage = required request := by
    rw [List.filterMap_append, tells.stages early, advance]
    rfl
  refine ⟨trivial, fun late => absurd rfl late, fun late => absurd rfl late,
    fun late => absurd rfl late, fun _ => by simp, ?_⟩
  unfold told
  split
  · exact earned_report stages unreported unread (by simp [Unreported])
  · exact earned_append (earned_unreported unreported) (by simp [Unreported])

/-! ### The effects, without a report -/

theorem plain_append {first second : List Action} (one : Plain first) (two : Plain second) :
    Plain (first ++ second) :=
  ⟨by simp [one.1, two.1], by simp [one.2, two.2]⟩

theorem plain_told {callback : Callback} (other : callback ≠ .onConnect 0) :
    Plain (told s callback) := by
  unfold told
  split
  · exact ⟨by simpa using other.symm, by simp⟩
  · exact ⟨by simp, by simp⟩

theorem plain_cleaning : Plain (cleaning s) := by
  unfold cleaning
  split
  · exact ⟨by simp, by simp⟩
  · exact ⟨by simp, by simp⟩

theorem plain_failed {code : Int} (error : code ≠ 0) :
    Plain (told s (.onConnect code) ++ cleaning s) :=
  plain_append (plain_told (by simpa using error)) plain_cleaning

theorem plain_cleaned {code : Int} (error : code ≠ 0) :
    Plain (cleaning s ++ told s (.onConnect code)) :=
  plain_append plain_cleaning (plain_told (by simpa using error))

theorem plain_disconnected (code : Int) : Plain (told s (.onDisconnect code) ++ cleaning s) :=
  plain_append (plain_told (by simp)) plain_cleaning

theorem session_cases (h : c.step literals request event = some d) :
    ∃ next, step literals request c.connection event = some next ∧
      d = ⟨next, c.story ++ (completes literals request c.connection event).map .completed ++
        (effects literals request c.connection event).map .did⟩ := by
  obtain ⟨next, stepped, rfl⟩ := Option.map_eq_some_iff.mp h
  refine ⟨next, stepped, ?_⟩
  rw [step_history stepped, List.drop_left]

/-! ### Handlers -/

/-- After a failure nothing can complete, whatever the story was. -/
theorem failed_stands (bare : Bare s) (tells : Tells request progress story) {actions : List Action}
    (plain : Plain actions) (callback : Callback) :
    Stands request progress ⟨(s.notify callback).handleCleanUp, story ++ actions.map .did⟩ :=
  ⟨handleCleanUp_only (notify_only callback (bare_only bare)), tells_plain tells plain⟩

theorem cleaned_stands (bare : Bare s) (tells : Tells request progress story)
    {actions : List Action} (plain : Plain actions) (callback : Callback) :
    Stands request progress ⟨s.handleCleanUp.notify callback, story ++ actions.map .did⟩ :=
  ⟨notify_only callback (handleCleanUp_only (bare_only bare)), tells_plain tells plain⟩

theorem reported_stands {stage : Stage} (bare : Bare s) (tells : Tells request progress story)
    (early : progress ≠ .done)
    (advance : required request = completedBefore request progress ++ [stage]) :
    Stands request .done ⟨(s.notify (.onConnect 0)).startRecvDate,
      story ++ [.completed stage] ++ (told s (.onConnect 0) ++ [Action.recvData]).map .did⟩ :=
  ⟨startRecvDate_done (notify_only _ (bare_only bare)), tells_report tells early advance⟩

/-- The stage that brought the stream up ends, and the request decides what comes next. -/
theorem doOtherHandshake_stands {stage : Stage} (bare : Bare s)
    (tells : Tells request progress story) (early : progress ≠ .done)
    (advance : [target request, .connected] ++ tunnelled request =
      completedBefore request progress ++ [stage]) :
    ∃ next, Stands request next ⟨s.doOtherHandshake request 0,
      story ++ [.completed stage] ++ (handshaking request s 0).map .did⟩ := by
  rw [doOtherHandshake_eq, handshaking_eq]
  by_cases secure : request.netType.secure = true
  · refine ⟨.securing, ?_⟩
    rw [if_pos secure, if_pos secure]
    exact ⟨doTlsHandshake_securing bare,
      tells_next tells early (by decide) advance secure ⟨by simp, by simp⟩⟩
  · have direct : secured request = [] := if_neg secure
    rw [if_neg secure, if_neg secure]
    by_cases upgrades : request.netType.upgrades = true
    · refine ⟨.upgrading, ?_⟩
      rw [if_pos upgrades, if_pos upgrades]
      refine ⟨doWebsocketHandshake_upgrading bare,
        tells_next tells early (by decide) ?_ upgrades ⟨by simp, by simp⟩⟩
      rw [completedBefore, direct, List.append_nil, advance]
    · have last : upgraded request = [] := if_neg upgrades
      refine ⟨.done, ?_⟩
      rw [if_neg upgrades, if_neg upgrades]
      apply reported_stands bare tells early
      rw [required, direct, last, List.append_nil, List.append_nil, advance]

theorem onDnsResolvered_stands {k : Nat} {resolver : DnsResolver} {actions : List Action}
    (code : Int) (only : Only request progress s) (tells : Tells request progress story)
    (found : s.resolvers[k]? = some resolver) (heard : resolver.delegate = true)
    (plain : Plain actions) :
    Reaches request progress ⟨s.onDnsResolvered code,
      story ++ (if code = 0 then [Mark.completed (.resolved resolver.host resolver.port)] else []) ++
        actions.map .did⟩ := by
  obtain ⟨rfl, aim, bare⟩ := resolver_end only found heard
  simp only [onDnsResolvered]
  by_cases success : code = 0
  · refine ⟨.connecting, by simp, ?_⟩
    simp only [success, ne_eq, not_true_eq_false, if_false, if_true]
    rw [aim]
    exact ⟨connects_connecting bare _, tells_next tells (by decide) (by decide) rfl trivial plain⟩
  · refine ⟨.looking, by simp, ?_⟩
    simp only [success, ne_eq, not_false_eq_true, if_true, if_false, List.append_nil]
    exact failed_stands bare tells plain _

theorem resolved_stands {k : Nat} {code : Int} (stands : Stands request progress c)
    (h : c.step literals request (.resolved k code) = some d) : Reaches request progress d := by
  obtain ⟨next, stepped, rfl⟩ := session_cases h
  obtain ⟨resolver, resolvers, present, rfl, rfl⟩ := resolved_lookup stepped
  have counted :=
    lookups_only k (fun resolver => resolver.outstanding - 1) stands.only c.connection.history
  simp only [effects, resolvedEffects, completes, present]
  cases heard : resolver.delegate with
  | false =>
    refine ⟨progress, id, ?_⟩
    simp only [Bool.false_eq_true, false_and, if_false, List.map_nil, List.append_nil]
    exact ⟨counted, stands.tells⟩
  | true =>
    have found : (c.connection.resolvers.modify k fun resolver =>
        { resolver with outstanding := resolver.outstanding - 1 })[k]? =
          some { resolver with outstanding := resolver.outstanding - 1 } := by
      simp [present]
    have plain : Plain (if code = 0 then [Action.connect]
        else told c.connection (.onConnect code) ++ cleaning c.connection) := by
      split
      · exact ⟨by simp, by simp⟩
      · rename_i error
        exact plain_failed error
    have both := onDnsResolvered_stands code counted stands.tells found heard plain
    by_cases success : code = 0
    · simpa [success] using both
    · simpa [success] using both

theorem connected_stands {ec : Int} (stands : Stands request progress c)
    (h : c.step literals request (.connected ec) = some d) : Reaches request progress d := by
  obtain ⟨next, stepped, rfl⟩ := session_cases h
  simp only [step] at stepped
  split at stepped <;> cases stepped
  rename_i enabled
  obtain ⟨rfl, bare⟩ := connects_end stands.only enabled
  by_cases success : ec = 0
  · simp only [notifyConnectComplete, effects, completes, success, if_true]
    by_cases direct : request.proxyHost = []
    · simp only [direct, ne_eq, not_true_eq_false, if_false]
      obtain ⟨next, started⟩ :=
        doOtherHandshake_stands bare stands.tells (by decide) (by rw [tunnelled_direct direct]; rfl)
      exact ⟨next, by simp, started⟩
    · refine ⟨.proxying, by simp, ?_⟩
      simp only [direct, ne_eq, not_false_eq_true, if_true]
      exact ⟨client_proxying bare rfl _,
        tells_next stands.tells (by decide) (by decide) rfl direct ⟨by simp, by simp⟩⟩
  · refine ⟨.connecting, by simp, ?_⟩
    simp only [notifyConnectComplete, effects, completes, success, if_false, List.map_nil,
      List.append_nil]
    exact cleaned_stands bare stands.tells (plain_cleaned success) _

theorem tlsHandshake_stands {ec : Int} (stands : Stands request progress c)
    (h : c.step literals request (.tlsHandshake ec) = some d) : Reaches request progress d := by
  obtain ⟨next, stepped, rfl⟩ := session_cases h
  simp only [step] at stepped
  split at stepped <;> cases stepped
  rename_i enabled
  obtain ⟨rfl, bare⟩ := tls_end stands.only enabled
  have secure : request.netType.secure = true := stands.tells.suits
  by_cases success : ec = 0
  · simp only [notifyTlsHandshakeComplete, effects, completes, success, if_true]
    by_cases websocket : request.netType = .websocketTls
    · refine ⟨.upgrading, by simp, ?_⟩
      simp only [websocket, if_true]
      refine ⟨doWebsocketHandshake_upgrading bare,
        tells_next stands.tells (by decide) (by decide) ?_ (by simp [Suits, websocket, NetType.upgrades]) ⟨by simp, by simp⟩⟩
      simp [completedBefore, secured, secure]
    · refine ⟨.done, by simp, ?_⟩
      have last : request.netType.upgrades = false := by
        cases kind : request.netType <;> simp_all [NetType.secure, NetType.upgrades]
      have advance : required request = completedBefore request .securing ++ [.tls] := by
        simp [required, completedBefore, secured, upgraded, secure, last]
      rw [if_neg websocket]
      have reported := reported_stands bare stands.tells (by decide) advance
      cases kind : request.netType with
      | websocketTls => exact absurd kind websocket
      | _ => exact reported
  · refine ⟨.securing, by simp, ?_⟩
    simp only [notifyTlsHandshakeComplete, effects, completes, success, if_false, List.map_nil,
      List.append_nil]
    exact failed_stands bare stands.tells (plain_failed success) _

theorem websocketHandshake_stands {ec : Int} (stands : Stands request progress c)
    (h : c.step literals request (.websocketHandshake ec) = some d) :
    Reaches request progress d := by
  obtain ⟨next, stepped, rfl⟩ := session_cases h
  simp only [step] at stepped
  split at stepped <;> cases stepped
  rename_i enabled
  obtain ⟨rfl, bare⟩ := websocket_end stands.only enabled
  have upgrades : request.netType.upgrades = true := stands.tells.suits
  by_cases success : ec = 0
  · refine ⟨.done, by simp, ?_⟩
    simp only [notifyWebsocketHandshakeComplte, effects, completes, success, if_true]
    exact reported_stands bare stands.tells (by decide) (by simp [required, completedBefore, upgraded, upgrades])
  · refine ⟨.upgrading, by simp, ?_⟩
    simp only [notifyWebsocketHandshakeComplte, effects, completes, success, if_false, List.map_nil,
      List.append_nil]
    exact failed_stands bare stands.tells (plain_failed success) _

theorem socks5_stands {event : Socks5.Event} (stands : Stands request progress c)
    (h : c.step literals request (.socks5 event) = some d) : Reaches request progress d := by
  obtain ⟨next, stepped, rfl⟩ := session_cases h
  obtain ⟨client, after, held, moved, rfl⟩ := socks5_client stepped
  simp only [effects, completes, answer, held, moved, Option.bind_some]
  obtain ⟨_, bare⟩ := client_end stands.only held
  obtain ⟨rfl, fresh⟩ := stands.only.client client held
  have proxy : request.proxyHost ≠ [] := stands.tells.suits
  rw [fresh, List.length_nil, List.drop_zero]
  cases answers : after.answers with
  | nil =>
    refine ⟨.proxying, by simp, ?_⟩
    simp only [List.head?_nil, reduceCtorEq, if_false, List.map_nil, List.append_nil]
    exact ⟨client_proxying (s := { c.connection with socks5Client := none }) bare answers _,
      stands.tells⟩
  | cons code rest =>
    simp only [List.head?_cons, Option.some.injEq, onSocks5Handshake_free]
    by_cases success : code = 0
    · simp only [success, if_true]
      obtain ⟨next, started⟩ :=
        doOtherHandshake_stands bare stands.tells (by decide) (by rw [tunnelled_proxy proxy]; rfl)
      exact ⟨next, by simp, started⟩
    · refine ⟨.proxying, by simp, ?_⟩
      simp only [success, if_false, List.map_nil, List.append_nil]
      exact cleaned_stands bare stands.tells (plain_cleaned success) _

theorem read_stands {ec : Int} {data : Bytes} (stands : Stands request progress c)
    (h : c.step literals request (.read ec data) = some d) : Reaches request progress d := by
  obtain ⟨next, stepped, rfl⟩ := session_cases h
  simp only [step] at stepped
  split at stepped <;> cases stepped
  rename_i enabled
  obtain rfl := stands.only.reads enabled.1
  refine ⟨.done, by simp, ?_⟩
  have only : Only request .done { c.connection with reads := c.connection.reads - 1 } :=
    ⟨stands.only.lookups, stands.only.resolver, stands.only.connects, stands.only.client, stands.only.tls,
      stands.only.websocket, fun _ => rfl⟩
  simp only [notifyRecvData, effects, completes, List.map_nil, List.append_nil]
  by_cases success : ec = 0
  · simp only [success, ne_eq, not_true_eq_false, if_false, if_true]
    refine ⟨startRecvDate_done (notify_only _ only), tells_done stands.tells ?_⟩
    have plain : Plain (told c.connection (.onRecvData data)) := plain_told (by simp)
    simpa using plain.1
  · simp only [success, ne_eq, not_false_eq_true, if_true, if_false]
    exact ⟨handleCleanUp_only (notify_only _ only),
      tells_plain stands.tells (plain_disconnected ec)⟩

/-! ### The send queue, the tasks and the owner -/

theorem written_stands {ec : Int} (stands : Stands request progress c)
    (h : c.step literals request (.written ec) = some d) : Reaches request progress d := by
  obtain ⟨next, stepped, rfl⟩ := session_cases h
  simp only [step] at stepped
  split at stepped <;> cases stepped
  have only := stands.only
  refine ⟨progress, id, ?_⟩
  simp only [notifySendComplete, effects, completes, List.map_nil, List.append_nil]
  by_cases success : ec = 0
  · simp only [success, ne_eq, not_true_eq_false, if_false, if_true]
    refine ⟨?_, tells_plain stands.tells ?_⟩
    · split
      · exact queue_only only _ _ _
      · exact queue_only only _ _ _
    · split
      · split
        · exact ⟨by simp, by simp⟩
        · exact ⟨by simp, by simp⟩
      · exact ⟨by simp, by simp⟩
  · simp only [success, ne_eq, not_false_eq_true, if_true, if_false]
    exact ⟨handleCleanUp_only (notify_only _ (queue_only only _ _ _)),
      tells_plain stands.tells (plain_disconnected ec)⟩

theorem run_stands (stands : Stands request progress c)
    (h : c.step literals request .run = some d) :
    Reaches request progress d := by
  obtain ⟨next, stepped, rfl⟩ := session_cases h
  obtain ⟨task, rest, tasks, rfl⟩ := run_task stepped
  have only := tail_only stands.only tasks
  simp only [effects, runEffects, completes, tasks, List.map_nil, List.append_nil]
  cases task with
  | doDnsResolve =>
    obtain ⟨rfl, bare⟩ := lookup_end stands.only tasks
    have tells : Tells request .looking c.story :=
      tells_relabel stands.tells (by decide) (by decide) rfl trivial
    exact ⟨.looking, by simp, doDnsResolve_looking bare, tells_plain tells ⟨by simp, by simp⟩⟩
  | doResolver k =>
    refine ⟨progress, id, ?_⟩
    simp only [runTask]
    split
    · exact ⟨lookups_only k (fun resolver => resolver.outstanding + 1) only _,
        tells_plain stands.tells ⟨by simp, by simp⟩⟩
    · exact ⟨only, tells_plain stands.tells ⟨by simp, by simp⟩⟩
  | doCancel k => exact ⟨progress, id, only, tells_plain stands.tells ⟨by simp, by simp⟩⟩
  | doSendFromQueue buffer =>
    refine ⟨progress, id, ?_, tells_plain stands.tells ?_⟩
    · simp only [runTask, doSendFromQueue]
      split
      · exact queue_only only _ _ _
      · exact queue_only only _ _ _
    · cases c.connection.sendBuffers.isEmpty && !c.connection.alreadyCleanUp with
      | true => exact ⟨by simp, by simp⟩
      | false => exact ⟨by simp, by simp⟩
  | handleCleanUp => exact ⟨progress, id, handleCleanUp_only only, tells_plain stands.tells plain_cleaning⟩

theorem step_stands (stands : Stands request progress c) (other : event.isConnect = false)
    (h : c.step literals request event = some d) : Reaches request progress d := by
  cases event with
  | connect => cases other
  | disConnect =>
    obtain ⟨next, stepped, rfl⟩ := session_cases h
    cases stepped
    refine ⟨progress, id, ?_,
      tells_plain (by simpa [completes] using stands.tells) ⟨by simp [effects], by simp [effects]⟩⟩
    unfold disConnect
    split
    · exact stands.only
    · have only := stands.only
      exact posted_only ⟨only.lookups, only.resolver, only.connects, only.client, only.tls,
        only.websocket, only.reads⟩
        (by decide)
  | send buffer =>
    obtain ⟨next, stepped, rfl⟩ := session_cases h
    cases stepped
    refine ⟨progress, id, ?_,
      tells_plain (by simpa [completes] using stands.tells) ⟨by simp [effects], by simp [effects]⟩⟩
    unfold send
    split
    · exact stands.only
    · exact posted_only stands.only (by simp)
  | run => exact run_stands stands h
  | resolved k code => exact resolved_stands stands h
  | connected ec => exact connected_stands stands h
  | socks5 event => exact socks5_stands stands h
  | tlsHandshake ec => exact tlsHandshake_stands stands h
  | websocketHandshake ec => exact websocketHandshake_stands stands h
  | read ec data => exact read_stands stands h
  | written ec => exact written_stands stands h

theorem connect_stands (stands : Stands request .idle c)
    (h : c.step literals request .connect = some d) :
    Stands request .asked d := by
  obtain ⟨next, stepped, rfl⟩ := session_cases h
  cases stepped
  have bare := idle_bare stands.only
  have tells : Tells request .asked c.story :=
    tells_relabel stands.tells (by decide) (by decide) rfl trivial
  refine ⟨connect_asked bare, ?_⟩
  simpa [completes, effects] using tells

/-! ### Reads -/

/-- As long as nobody calls `DisConnect`, the delegate is there to hear of the success. -/
def Heard (c : Session) : Prop :=
  c.connection.stoped = false → c.connection.delegate = true ∧ ReadsAfterReport c.story

theorem handshaking_reads : .recvData ∉ handshaking request s 0 ∨
    handshaking request s 0 = told s (.onConnect 0) ++ [.recvData] := by
  rw [handshaking_eq]
  split
  · exact .inl (by simp)
  · split
    · exact .inl (by simp)
    · exact .inr rfl

theorem told_reads (callback : Callback) : .recvData ∉ told s callback := by
  unfold told
  split <;> simp

theorem cleaning_reads : .recvData ∉ cleaning s := by
  unfold cleaning
  split <;> simp

theorem runEffects_reads : .recvData ∉ runEffects s := by
  unfold runEffects
  split
  · split <;> simp
  · split <;> simp
  · exact cleaning_reads
  · simp

theorem resolvedEffects_reads {k : Nat} {code : Int} : .recvData ∉ resolvedEffects s k code := by
  unfold resolvedEffects
  split
  · split
    · split
      · simp
      · simp [told_reads, cleaning_reads]
    · simp
  · simp

/-- The first read comes with a report. -/
theorem effects_reads (first : ∀ ec data, event ≠ .read ec data) :
    .recvData ∉ effects literals request s event ∨
      effects literals request s event = told s (.onConnect 0) ++ [.recvData] := by
  cases event with
  | connect => exact .inl (by simp [effects])
  | disConnect => exact .inl (by simp [effects])
  | send buffer => exact .inl (by simp [effects])
  | run => exact .inl runEffects_reads
  | resolved k code => exact .inl resolvedEffects_reads
  | connected ec =>
    by_cases success : ec = 0
    · simp only [effects, success, if_true]
      split
      · exact .inl (by simp)
      · exact handshaking_reads
    · exact .inl (by simp [effects, success, told_reads, cleaning_reads])
  | socks5 event =>
    simp only [effects]
    split
    · rename_i code _
      by_cases success : code = 0
      · simp only [success, if_true]
        exact handshaking_reads
      · exact .inl (by simp [success, told_reads, cleaning_reads])
    · exact .inl (by simp)
  | tlsHandshake ec =>
    by_cases success : ec = 0
    · simp only [effects, success, if_true]
      split
      · exact .inl (by simp)
      · exact .inr rfl
    · exact .inl (by simp [effects, success, told_reads, cleaning_reads])
  | websocketHandshake ec =>
    by_cases success : ec = 0
    · exact .inr (by simp [effects, success])
    · exact .inl (by simp [effects, success, told_reads, cleaning_reads])
  | read ec data => exact absurd rfl (first ec data)
  | written ec =>
    by_cases success : ec = 0
    · simp only [effects, success, if_true]
      split
      · split <;> exact .inl (by simp)
      · exact .inl (by simp)
    · exact .inl (by simp [effects, success, told_reads, cleaning_reads])

theorem step_unstopped (h : step literals request s event = some t) (unstopped : t.stoped = false) :
    s.stoped = false ∧ (s.delegate = true → t.delegate = true) := by
  by_cases last : event = .disConnect
  · subst last
    cases h
    unfold disConnect at unstopped
    split at unstopped
    · rename_i stoped
      rw [stoped] at unstopped
      cases unstopped
    · cases unstopped
  · obtain ⟨delegate, stoped⟩ := step_owned last h
    rw [delegate]
    exact ⟨stoped.symm.trans unstopped, id⟩

theorem read_reported (stands : Stands request progress c) (reads : ReadsAfterReport c.story)
    (reading : 0 < c.connection.reads) : .did (.callback (.onConnect 0)) ∈ c.story := by
  have began := stands.tells.began (stands.only.reads reading)
  obtain ⟨before, after, split⟩ := List.append_of_mem began
  rw [split]
  exact List.mem_append_left _ (reads before after split)

theorem step_heard (stands : Stands request progress c) (heard : Heard c)
    (h : c.step literals request event = some d) :
    Heard d := by
  obtain ⟨next, stepped, rfl⟩ := session_cases h
  intro unstopped
  obtain ⟨before, kept⟩ := step_unstopped stepped unstopped
  obtain ⟨delegate, reads⟩ := heard before
  refine ⟨kept delegate, ?_⟩
  have completed : ReadsAfterReport (c.story ++ (completes literals request c.connection event).map .completed) :=
    readsAfterReport_append reads (by simp)
  by_cases reading : ∃ ec data, event = .read ec data
  · obtain ⟨ec, data, rfl⟩ := reading
    have enabled : 0 < c.connection.reads := by
      simp only [step] at stepped
      split at stepped
      · rename_i enabled
        exact enabled.1
      · cases stepped
    apply readsAfterReport_append completed
    intro _
    exact List.mem_append_left _ (read_reported stands reads enabled)
  · rcases effects_reads (fun ec data same => reading ⟨ec, data, same⟩) with quiet | report
    · apply readsAfterReport_append completed
      intro member
      exact absurd (by simpa using member) quiet
    · rw [report, told, delegate, if_pos rfl, List.map_append, ← List.append_assoc]
      have reported : ReadsAfterReport (c.story ++ (completes literals request c.connection event).map .completed ++
          [Action.callback (.onConnect 0)].map .did) := readsAfterReport_append completed (by simp)
      exact readsAfterReport_append reported (by simp)

/-! ### Whole runs -/

theorem initial_stands : Stands request .idle {} :=
  ⟨bare_only initial_bare, trivial, fun _ => rfl, fun _ => by simp [Unreported], fun _ => by simp, nofun,
    earned_unreported (by simp [Unreported])⟩

theorem initial_heard : Heard {} := by
  intro _
  refine ⟨rfl, ?_⟩
  intro before after split
  simp at split

/-- After `Connect`. -/
theorem run_stands_later (once : ∀ event ∈ events, event.isConnect = false)
    (stands : Stands request progress c) (heard : Heard c)
    (h : run (Session.step literals request) c events = some d) :
    Heard d ∧ ∃ next, Stands request next d := by
  induction events generalizing c progress with
  | nil =>
    cases h
    exact ⟨heard, progress, stands⟩
  | cons event rest ih =>
    obtain ⟨middle, first, remaining⟩ := run_cons.mp h
    obtain ⟨next, _, moved⟩ := step_stands stands (once event List.mem_cons_self) first
    exact ih (fun other member => once other (List.mem_cons_of_mem _ member)) moved (step_heard stands heard first) remaining

theorem run_stands_once (once : events.countP Event.isConnect ≤ 1) (stands : Stands request .idle c)
    (heard : Heard c) (h : run (Session.step literals request) c events = some d) :
    Heard d ∧ ∃ next, Stands request next d := by
  induction events generalizing c with
  | nil =>
    cases h
    exact ⟨heard, .idle, stands⟩
  | cons event rest ih =>
    obtain ⟨middle, first, remaining⟩ := run_cons.mp h
    have heardNext := step_heard stands heard first
    cases kind : event.isConnect with
    | false =>
      obtain ⟨next, still, moved⟩ := step_stands stands kind first
      obtain rfl := still rfl
      rw [List.countP_cons_of_neg (by simp [kind])] at once
      exact ih once moved heardNext remaining
    | true =>
      rw [List.countP_cons_of_pos kind] at once
      have never : rest.countP Event.isConnect = 0 := by omega
      have asked : Stands request .asked middle := by
        cases event with
        | connect => exact connect_stands stands first
        | _ => cases kind
      apply run_stands_later _ asked heardNext remaining
      intro other member
      simpa using List.countP_eq_zero.mp never other member

/-- Whenever the delegate hears `OnConnect(0)`, the connection has completed the stages that the
request needs, and it reads only afterwards. -/
theorem connected_earned (once : events.countP Event.isConnect ≤ 1)
    (h : run (Session.step literals request) {} events = some c) :
    Earned request c.story ∧ (c.connection.stoped = false → ReadsAfterReport c.story) := by
  obtain ⟨heard, next, stands⟩ := run_stands_once once initial_stands initial_heard h
  exact ⟨stands.tells.earned, fun unstopped => (heard unstopped).2⟩

/-- A request that needs every stage. -/
def proxiedRequest : NetConnectionRequest where
  host := [104]
  port := 443
  netType := .websocketTls
  proxyHost := [112]
  proxyPort := 1080

def everyStage : List Event :=
  [.send [1], .connect, .run, .run, .run, .resolved 0 0, .connected 0, .socks5 (.read [0x05, 0x00]),
    .socks5 (.read [0x05, 0x00, 0x00, 0x01, 0, 0, 0, 0, 0, 0]), .tlsHandshake 0, .websocketHandshake 0, .read 0 [7]]

theorem connected_everyStage :
    ∃ c, run (Session.step Socks5.noLiterals proxiedRequest) {} everyStage = some c ∧
      c.connection.callbacks = [.onConnect 0, .onRecvData [7]] ∧ Earned proxiedRequest c.story ∧
      ReadsAfterReport c.story := by
  have reached : ∃ c, run (Session.step Socks5.noLiterals proxiedRequest) {} everyStage = some c ∧
      c.connection.callbacks = [.onConnect 0, .onRecvData [7]] ∧ c.connection.stoped = false := ⟨_, rfl, rfl, rfl⟩
  obtain ⟨c, reached, callbacks, unstopped⟩ := reached
  obtain ⟨earned, reads⟩ := connected_earned (by decide) reached
  exact ⟨c, reached, callbacks, earned, reads unstopped⟩

end Kingkong.Connection
