import Kingkong.Connection.Model

/-!
What a step does. The shared parts of the handlers, a callback, the release of the resolver and the
clean-up, are each one record, and the actions that a step adds to the history are one list.
-/

namespace Kingkong.Connection
open Lib State

variable {literals : Socks5.Literals} {request : NetConnectionRequest} {s t : State} {event : Event}

namespace NetType

def secure : NetType → Bool
  | .tcpTls | .websocketTls | .https => true
  | .tcp | .websocket | .http => false

def upgrades : NetType → Bool
  | .websocket | .websocketTls => true
  | .tcp | .tcpTls | .http | .https => false

end NetType

/-- The resolvers after the one that the connection holds was cancelled. -/
def released (s : State) : List DnsResolver :=
  match s.dnsResolver with
  | some k => s.resolvers.modify k fun resolver => { resolver with delegate := false }
  | none => s.resolvers

theorem cancelResolver_eq : s.cancelResolver =
    { s with
      resolvers := released s
      dnsResolver := none
      tasks := s.tasks ++ (s.dnsResolver.map Task.doCancel).toList } := by
  unfold cancelResolver released
  cases held : s.dnsResolver with
  | none =>
    simp only [Option.map_none, Option.toList_none, List.append_nil]
    rw [← held]
  | some k => rfl

/-- A resolver that still has its delegate was not the one that was cancelled. -/
theorem released_delegate {k : Nat} {resolver : DnsResolver}
    (found : (released s)[k]? = some resolver) (told : resolver.delegate = true) :
    s.resolvers[k]? = some resolver ∧ s.dnsResolver ≠ some k := by
  unfold released at found
  split at found
  · rename_i j held
    rw [List.getElem?_modify] at found
    obtain ⟨before, present, rfl⟩ := Option.map_eq_some_iff.mp found
    split at told
    · cases told
    · rename_i other
      rw [if_neg other]
      exact ⟨present, fun same => other (Option.some.inj (held.symm.trans same))⟩
  · rename_i held
    exact ⟨found, by rw [held]; nofun⟩

theorem notify_told (told : s.delegate = true) (callback : Callback) : s.notify callback =
    { s with
      callbacks := s.callbacks ++ [callback]
      history := s.history ++ [.callback callback] } := by
  simp [notify, told]

theorem notify_silent (silent : s.delegate = false) (callback : Callback) :
    s.notify callback = s := by
  simp [notify, silent]

theorem handleCleanUp_again (clean : s.alreadyCleanUp = true) : s.handleCleanUp = s := by
  simp [handleCleanUp, clean]

theorem handleCleanUp_first (dirty : s.alreadyCleanUp = false) : s.handleCleanUp =
    { s with
      alreadyCleanUp := true
      socks5Client := none
      resolvers := released s
      dnsResolver := none
      tasks := s.tasks ++ (s.dnsResolver.map Task.doCancel).toList
      cleanUps := s.cleanUps + 1
      history := s.history ++ [.cleanUp] } := by
  simp only [handleCleanUp, dirty, Bool.false_eq_true, if_false, cancelResolver_eq]
  rfl

/-- What a callback adds to the history. -/
def told (s : State) (callback : Callback) : List Action :=
  if s.delegate then [.callback callback] else []

/-- What a clean-up adds to the history. -/
def cleaning (s : State) : List Action := if s.alreadyCleanUp then [] else [.cleanUp]

theorem notify_history (callback : Callback) :
    (s.notify callback).history = s.history ++ told s callback := by
  unfold notify told
  split
  · rfl
  · exact (List.append_nil _).symm

theorem notify_alreadyCleanUp (callback : Callback) :
    (s.notify callback).alreadyCleanUp = s.alreadyCleanUp := by
  unfold notify
  split <;> rfl

theorem handleCleanUp_history : s.handleCleanUp.history = s.history ++ cleaning s := by
  cases clean : s.alreadyCleanUp with
  | true => simp [handleCleanUp_again clean, cleaning, clean]
  | false => simp [handleCleanUp_first clean, cleaning, clean]

theorem handleCleanUp_delegate : s.handleCleanUp.delegate = s.delegate := by
  cases clean : s.alreadyCleanUp with
  | true => rw [handleCleanUp_again clean]
  | false => rw [handleCleanUp_first clean]

theorem handleCleanUp_alreadyCleanUp : s.handleCleanUp.alreadyCleanUp = true := by
  cases clean : s.alreadyCleanUp with
  | true => rw [handleCleanUp_again clean, clean]
  | false => rw [handleCleanUp_first clean]

theorem handleCleanUp_callbacks : s.handleCleanUp.callbacks = s.callbacks := by
  cases clean : s.alreadyCleanUp with
  | true => rw [handleCleanUp_again clean]
  | false => rw [handleCleanUp_first clean]

/-- Cleaning up and then telling the delegate, as after a failed connect or SOCKS5 handshake. -/
theorem cleans_history (code : Int) : (s.handleCleanUp.handleConnectStatus code).history =
    s.history ++ (cleaning s ++ told s (.onConnect code)) := by
  rw [handleConnectStatus, notify_history, handleCleanUp_history, told, handleCleanUp_delegate,
    List.append_assoc]
  rfl

/-- Telling the delegate and then cleaning up, as after the other failures. -/
theorem tells_history (callback : Callback) : (s.notify callback).handleCleanUp.history =
    s.history ++ (told s callback ++ cleaning s) := by
  rw [handleCleanUp_history, notify_history, cleaning, notify_alreadyCleanUp, List.append_assoc]
  rfl

/-- Telling the delegate and then receiving. -/
theorem receives_history (callback : Callback) : (s.notify callback).startRecvDate.history =
    s.history ++ (told s callback ++ [.recvData]) := by
  rw [startRecvDate, notify_history, List.append_assoc]

theorem doOtherHandshake_eq (code : Int) : s.doOtherHandshake request code =
    if request.netType.secure then s.doTlsHandshake
    else if request.netType.upgrades then s.doWebsocketHandshake
    else (s.handleConnectStatus code).startRecvDate := by
  unfold doOtherHandshake
  cases request.netType <;> rfl

/-! ### The end of the SOCKS5 handshake -/

theorem notify_free (callback : Callback) :
    { s.notify callback with socks5Client := none } =
      { s with socks5Client := none }.notify callback := by
  unfold notify
  split <;> rfl

theorem handleCleanUp_free :
    { s.handleCleanUp with socks5Client := none } =
      { s with socks5Client := none }.handleCleanUp := by
  by_cases clean : s.alreadyCleanUp = true
  · rw [handleCleanUp_again clean, handleCleanUp_again (s := { s with socks5Client := none }) clean]
  · have dirty : s.alreadyCleanUp = false := by simpa using clean
    rw [handleCleanUp_first dirty, handleCleanUp_first (s := { s with socks5Client := none }) dirty]
    rfl

theorem doOtherHandshake_free (code : Int) :
    { s.doOtherHandshake request code with socks5Client := none } =
    { s with socks5Client := none }.doOtherHandshake request code := by
  rw [doOtherHandshake_eq, doOtherHandshake_eq]
  split
  · rfl
  · split
    · rfl
    · show { (s.notify (.onConnect code)).startRecvDate with socks5Client := none } =
        ({ s with socks5Client := none }.notify (.onConnect code)).startRecvDate
      rw [← notify_free]
      rfl

theorem onSocks5Handshake_free (code : Int) : s.onSocks5Handshake request code =
    if code = 0 then { s with socks5Client := none }.doOtherHandshake request code
    else { s with socks5Client := none }.handleCleanUp.handleConnectStatus code := by
  unfold onSocks5Handshake
  by_cases success : code = 0
  · simp only [success, ne_eq, not_true_eq_false, if_false, if_true]
    exact doOtherHandshake_free 0
  · simp only [success, ne_eq, not_false_eq_true, if_true, if_false]
    rw [handleConnectStatus, notify_free, handleCleanUp_free]
    rfl

/-! ### The actions of a step -/

def handshaking (request : NetConnectionRequest) (s : State) (code : Int) : List Action :=
  match request.netType with
  | .websocketTls | .tcpTls | .https => [.tlsHandshake]
  | .websocket => [.websocketHandshake]
  | _ => told s (.onConnect code) ++ [.recvData]

theorem handshaking_eq (code : Int) : handshaking request s code =
    if request.netType.secure then [.tlsHandshake]
    else if request.netType.upgrades then [.websocketHandshake]
    else told s (.onConnect code) ++ [.recvData] := by
  unfold handshaking
  cases request.netType <;> rfl

/-- What the SOCKS5 client answers in this step. -/
def answer (literals : Socks5.Literals) (request : NetConnectionRequest) (s : State)
    (event : Socks5.Event) : Option Int :=
  s.socks5Client.bind fun client => (Socks5.step literals (proxyProperty request) client event).bind fun next =>
    (next.answers.drop client.answers.length).head?

def runEffects (s : State) : List Action :=
  match s.tasks with
  | .doResolver k :: rest => if { s with tasks := rest }.resolverAlive k then [.resolve k] else []
  | .doSendFromQueue buffer :: _ => if s.sendBuffers.isEmpty && !s.alreadyCleanUp then [.sendData buffer] else []
  | .handleCleanUp :: _ => cleaning s
  | _ => []

def resolvedEffects (s : State) (k : Nat) (code : Int) : List Action :=
  match s.resolvers[k]? with
  | some resolver =>
    if resolver.delegate then (if code = 0 then [.connect] else told s (.onConnect code) ++ cleaning s) else []
  | none => []

def effects (literals : Socks5.Literals) (request : NetConnectionRequest) (s : State) :
    Event → List Action
  | .connect | .disConnect | .send _ => []
  | .run => runEffects s
  | .resolved k code => resolvedEffects s k code
  | .connected ec =>
    if ec = 0 then (if request.proxyHost ≠ [] then [.socks5Connect] else handshaking request s ec)
    else cleaning s ++ told s (.onConnect ec)
  | .socks5 event =>
    match answer literals request s event with
    | some code => if code = 0 then handshaking request s code else cleaning s ++ told s (.onConnect code)
    | none => []
  | .tlsHandshake ec =>
    if ec = 0 then (if request.netType = .websocketTls then [.websocketHandshake] else told s (.onConnect ec) ++ [.recvData])
    else told s (.onConnect ec) ++ cleaning s
  | .websocketHandshake ec => told s (.onConnect ec) ++ if ec = 0 then [.recvData] else cleaning s
  | .read ec data => if ec = 0 then told s (.onRecvData data) ++ [.recvData] else told s (.onDisconnect ec) ++ cleaning s
  | .written ec =>
    if ec = 0 then
      match s.sendBuffers.tail with
      | buffer :: _ => if s.alreadyCleanUp then [] else [.sendData buffer]
      | [] => []
    else told s (.onDisconnect ec) ++ cleaning s

theorem doOtherHandshake_history (code : Int) :
    (s.doOtherHandshake request code).history = s.history ++ handshaking request s code := by
  rw [doOtherHandshake_eq, handshaking_eq]
  split
  · rfl
  · split
    · rfl
    · exact receives_history _

/-! ### The steps that look something up -/

theorem run_task (h : step literals request s .run = some t) :
    ∃ task rest, s.tasks = task :: rest ∧ t = { s with tasks := rest }.runTask request task := by
  simp only [step] at h
  cases tasks : s.tasks with
  | nil => simp [tasks] at h
  | cons task rest =>
    rw [tasks] at h
    cases h
    exact ⟨task, rest, rfl, rfl⟩

theorem resolved_lookup {k : Nat} {code : Int}
    (h : step literals request s (.resolved k code) = some t) :
    ∃ resolver resolvers, s.resolvers[k]? = some resolver ∧
      resolvers =
        s.resolvers.modify k (fun resolver => { resolver with outstanding := resolver.outstanding - 1 }) ∧
      t = if resolver.delegate then { s with resolvers := resolvers }.onDnsResolvered code
        else { s with resolvers := resolvers } := by
  simp only [step, notifyResult] at h
  cases present : s.resolvers[k]? with
  | none => simp [present] at h
  | some resolver =>
    simp only [present] at h
    split at h <;> cases h
    exact ⟨resolver, _, rfl, rfl, rfl⟩

theorem socks5_client {event : Socks5.Event}
    (h : step literals request s (.socks5 event) = some t) :
    ∃ client next, s.socks5Client = some client ∧
      Socks5.step literals (proxyProperty request) client event = some next ∧
      t = match next.answers.drop client.answers.length with
        | code :: _ => { s with socks5Client := some next }.onSocks5Handshake request code
        | [] => { s with socks5Client := some next } := by
  simp only [step, socks5Step] at h
  cases held : s.socks5Client with
  | none => simp [held] at h
  | some client =>
    simp only [held, Option.map_eq_some_iff] at h
    obtain ⟨next, stepped, rfl⟩ := h
    exact ⟨client, next, rfl, stepped, rfl⟩

/-! ### What a step adds to the history -/

theorem run_history (h : step literals request s .run = some t) :
    t.history = s.history ++ runEffects s := by
  obtain ⟨task, rest, tasks, rfl⟩ := run_task h
  simp only [runEffects, tasks]
  cases task with
  | doDnsResolve => simp [runTask, doDnsResolve, postRunable]
  | doResolver k =>
    simp only [runTask]
    split
    · rfl
    · exact (List.append_nil _).symm
  | doCancel k => exact (List.append_nil _).symm
  | doSendFromQueue buffer =>
    simp only [runTask, doSendFromQueue]
    cases queue : s.sendBuffers with
    | nil =>
      cases clean : s.alreadyCleanUp with
      | true => simp
      | false => simp [doSendData, front]
    | cons head tail => simp
  | handleCleanUp => exact handleCleanUp_history

theorem onDnsResolvered_history (code : Int) : (s.onDnsResolvered code).history =
    s.history ++ if code = 0 then [.connect] else told s (.onConnect code) ++ cleaning s := by
  unfold onDnsResolvered
  by_cases success : code = 0
  · simp [success, cancelResolver_eq]
  · rw [if_neg success, cancelResolver_eq]
    simp only [ne_eq, success, not_false_eq_true, if_true]
    exact tells_history _

theorem resolved_history {k : Nat} {code : Int}
    (h : step literals request s (.resolved k code) = some t) :
    t.history = s.history ++ resolvedEffects s k code := by
  obtain ⟨resolver, resolvers, present, _, rfl⟩ := resolved_lookup h
  simp only [resolvedEffects, present]
  cases heard : resolver.delegate with
  | true =>
    simp only [if_true]
    exact onDnsResolvered_history code
  | false =>
    simp only [Bool.false_eq_true, if_false]
    exact (List.append_nil _).symm

theorem onSocks5Handshake_history (code : Int) : (s.onSocks5Handshake request code).history =
    s.history ++
      if code = 0 then handshaking request s code else cleaning s ++ told s (.onConnect code) := by
  unfold onSocks5Handshake
  by_cases success : code = 0
  · rw [if_pos success, if_neg (not_not.mpr success)]
    exact doOtherHandshake_history code
  · rw [if_neg success, if_pos success]
    exact cleans_history code

theorem socks5_history {event : Socks5.Event}
    (h : step literals request s (.socks5 event) = some t) :
    t.history = s.history ++ effects literals request s (.socks5 event) := by
  obtain ⟨client, next, held, stepped, rfl⟩ := socks5_client h
  simp only [effects, answer, held, stepped, Option.bind_some]
  cases next.answers.drop client.answers.length with
  | nil => exact (List.append_nil _).symm
  | cons code rest => exact onSocks5Handshake_history code

theorem notifyTlsHandshakeComplete_history (literals : Socks5.Literals) (ec : Int) :
    (s.notifyTlsHandshakeComplete request ec).history =
    s.history ++ effects literals request s (.tlsHandshake ec) := by
  simp only [notifyTlsHandshakeComplete, effects]
  by_cases success : ec = 0
  · simp only [success, if_true]
    cases kind : request.netType with
    | websocketTls => rfl
    | _ => exact receives_history _
  · simp only [success, if_false]
    exact tells_history _

theorem notifyWebsocketHandshakeComplte_history (literals : Socks5.Literals)
    (request : NetConnectionRequest) (ec : Int) :
    (s.notifyWebsocketHandshakeComplte ec).history =
    s.history ++ effects literals request s (.websocketHandshake ec) := by
  simp only [notifyWebsocketHandshakeComplte, effects]
  by_cases success : ec = 0
  · simp only [success, if_true]
    exact receives_history _
  · simp only [success, if_false]
    exact tells_history _

theorem notifySendComplete_history (literals : Socks5.Literals) (request : NetConnectionRequest)
    (ec : Int) :
    (s.notifySendComplete ec).history =
    s.history ++ effects literals request s (.written ec) := by
  simp only [notifySendComplete, effects]
  by_cases success : ec = 0
  · simp only [success, ne_eq, not_true_eq_false, if_false, if_true]
    cases queue : s.sendBuffers.tail with
    | nil => simp
    | cons buffer rest =>
      cases clean : s.alreadyCleanUp with
      | true => simp
      | false => simp [doSendData, front]
  · simp only [success, ne_eq, not_false_eq_true, if_true, if_false]
    exact tells_history _

theorem step_history (h : step literals request s event = some t) :
    t.history = s.history ++ effects literals request s event := by
  cases event with
  | connect => cases h; simp [effects, connect, postRunable]
  | disConnect =>
    cases h
    unfold disConnect
    split
    · exact (List.append_nil _).symm
    · exact (List.append_nil _).symm
  | send buffer =>
    cases h
    unfold send
    split
    · exact (List.append_nil _).symm
    · exact (List.append_nil _).symm
  | run => exact run_history h
  | resolved k code => exact resolved_history h
  | connected ec =>
    simp only [step] at h
    split at h <;> cases h
    simp only [notifyConnectComplete, effects]
    by_cases success : ec = 0
    · simp only [success, if_true]
      split
      · rfl
      · exact doOtherHandshake_history 0
    · simp only [success, if_false]
      exact cleans_history ec
  | socks5 event => exact socks5_history h
  | tlsHandshake ec =>
    simp only [step] at h
    split at h <;> cases h
    exact notifyTlsHandshakeComplete_history literals ec
  | websocketHandshake ec =>
    simp only [step] at h
    split at h <;> cases h
    exact notifyWebsocketHandshakeComplte_history literals request ec
  | read ec data =>
    simp only [step] at h
    split at h <;> cases h
    simp only [notifyRecvData, effects]
    by_cases success : ec = 0
    · simp only [success, ne_eq, not_true_eq_false, if_false, if_true]
      exact receives_history _
    · simp only [success, ne_eq, not_false_eq_true, if_true, if_false]
      exact tells_history _
  | written ec =>
    simp only [step] at h
    split at h <;> cases h
    exact notifySendComplete_history literals request ec

/-! ### The clean-up in a step -/

/-- The action starts an operation on the network. -/
def Action.starts : Action → Bool
  | .callback _ | .cleanUp => false
  | _ => true

/-- The handler leaves the clean-up alone, or it makes the one clean-up and starts nothing. -/
inductive Settles (s t : State) (added : List Action) : Prop where
  | keeps (same : t.alreadyCleanUp = s.alreadyCleanUp) (untouched : .cleanUp ∉ added)
      (client : s.socks5Client = none → .socks5Connect ∉ added → t.socks5Client = none)
  | cleans (dirty : s.alreadyCleanUp = false) (clean : t.alreadyCleanUp = true) (client : t.socks5Client = none)
      (made : .cleanUp ∈ added) (quiet : ∀ action ∈ added, action.starts = false)

theorem cleaning_first (dirty : s.alreadyCleanUp = false) : .cleanUp ∈ cleaning s := by
  simp [cleaning, dirty]

theorem notify_socks5Client (callback : Callback) :
    (s.notify callback).socks5Client = s.socks5Client := by
  unfold notify
  split <;> rfl

theorem told_quiet (callback : Callback) :
    ∀ action ∈ told s callback, action.starts = false ∧ action ≠ .cleanUp := by
  intro action member
  unfold told at member
  split at member
  · obtain rfl := List.mem_singleton.mp member
    exact ⟨rfl, by simp⟩
  · cases member

theorem told_not_cleanUp (callback : Callback) : .cleanUp ∉ told s callback :=
  fun member => (told_quiet callback _ member).2 rfl

theorem cleaning_quiet : ∀ action ∈ cleaning s, action.starts = false := by
  intro action member
  unfold cleaning at member
  split at member
  · cases member
  · obtain rfl := List.mem_singleton.mp member
    rfl

theorem told_cleaning_quiet {callback : Callback} {action : Action}
    (member : action ∈ told s callback ∨ action ∈ cleaning s) : action.starts = false := by
  rcases member with member | member
  · exact (told_quiet callback action member).1
  · exact cleaning_quiet action member

theorem tells_settles (callback : Callback) :
    Settles s (s.notify callback).handleCleanUp (told s callback ++ cleaning s) := by
  cases clean : s.alreadyCleanUp with
  | true =>
    have again := handleCleanUp_again ((notify_alreadyCleanUp callback).trans clean)
    refine .keeps ?_ ?_ ?_
    · rw [again, notify_alreadyCleanUp]
    · simp [cleaning, clean, told_not_cleanUp]
    · intro free _
      rw [again, notify_socks5Client, free]
  | false =>
    have first := handleCleanUp_first ((notify_alreadyCleanUp callback).trans clean)
    refine .cleans clean handleCleanUp_alreadyCleanUp (by rw [first]) (List.mem_append_right _ (cleaning_first clean)) ?_
    intro action member
    exact told_cleaning_quiet (List.mem_append.mp member)

theorem cleans_settles (code : Int) :
    Settles s (s.handleCleanUp.handleConnectStatus code) (cleaning s ++ told s (.onConnect code)) := by
  cases clean : s.alreadyCleanUp with
  | true =>
    rw [handleCleanUp_again clean]
    refine .keeps (notify_alreadyCleanUp _) ?_ ?_
    · simp [cleaning, clean, told_not_cleanUp]
    · intro free _
      exact (notify_socks5Client _).trans free
  | false =>
    refine .cleans clean ?_ ?_ (List.mem_append_left _ (cleaning_first clean)) ?_
    · rw [handleConnectStatus, notify_alreadyCleanUp, handleCleanUp_alreadyCleanUp]
    · rw [handleConnectStatus, notify_socks5Client, handleCleanUp_first clean]
    · intro action member
      exact told_cleaning_quiet (List.mem_append.mp member).symm

theorem receives_settles (callback : Callback) :
    Settles s (s.notify callback).startRecvDate (told s callback ++ [.recvData]) := by
  refine .keeps (notify_alreadyCleanUp callback) ?_ ?_
  · simp [told_not_cleanUp]
  · intro free _
    exact (notify_socks5Client callback).trans free

theorem handshaking_settles (code : Int) :
    Settles s (s.doOtherHandshake request code) (handshaking request s code) := by
  rw [doOtherHandshake_eq, handshaking_eq]
  split
  · exact .keeps rfl (by simp) fun free _ => free
  · split
    · exact .keeps rfl (by simp) fun free _ => free
    · exact receives_settles _

/-- What a handler reads of the clean-up does not depend on how many operations are outstanding. -/
theorem settles_start {u : State} {added : List Action} (settles : Settles u t added)
    (clean : u.alreadyCleanUp = s.alreadyCleanUp) (client : u.socks5Client = s.socks5Client) :
    Settles s t added := by
  cases settles with
  | keeps same untouched kept => exact .keeps (same.trans clean) untouched fun free => kept (client.trans free)
  | cleans dirty cleaned released made quiet => exact .cleans (clean.symm.trans dirty) cleaned released made quiet

/-- The end of a SOCKS5 handshake. -/
theorem settles_release {u : State} {added : List Action} (settles : Settles u t added)
    (clean : u.alreadyCleanUp = s.alreadyCleanUp) :
    Settles s { t with socks5Client := none } added := by
  cases settles with
  | keeps same untouched _ => exact .keeps (same.trans clean) untouched fun _ _ => rfl
  | cleans dirty cleaned _ made quiet => exact .cleans (clean.symm.trans dirty) cleaned rfl made quiet

theorem unchanged_settles (clean : t.alreadyCleanUp = s.alreadyCleanUp)
    (client : t.socks5Client = s.socks5Client) :
    Settles s t [] :=
  .keeps clean List.not_mem_nil fun free _ => client.trans free

theorem handleCleanUp_settles : Settles s s.handleCleanUp (cleaning s) := by
  cases clean : s.alreadyCleanUp with
  | true =>
    rw [handleCleanUp_again clean, cleaning, if_pos clean]
    exact unchanged_settles rfl rfl
  | false =>
    rw [handleCleanUp_first clean]
    exact .cleans clean rfl rfl (cleaning_first clean) cleaning_quiet

theorem run_settles (h : step literals request s .run = some t) : Settles s t (runEffects s) := by
  obtain ⟨task, rest, tasks, rfl⟩ := run_task h
  simp only [runEffects, tasks]
  cases task with
  | doDnsResolve => exact unchanged_settles rfl rfl
  | doResolver k =>
    simp only [runTask]
    split
    · exact .keeps rfl (by simp) fun free _ => free
    · exact unchanged_settles rfl rfl
  | doCancel k => exact unchanged_settles rfl rfl
  | doSendFromQueue buffer =>
    simp only [runTask, doSendFromQueue, Bool.not_not]
    split
    · exact .keeps rfl (by simp) fun free _ => free
    · exact unchanged_settles rfl rfl
  | handleCleanUp => exact settles_start handleCleanUp_settles rfl rfl

theorem onDnsResolvered_settles (code : Int) : Settles s (s.onDnsResolvered code)
    (if code = 0 then [.connect] else told s (.onConnect code) ++ cleaning s) := by
  unfold onDnsResolvered
  by_cases success : code = 0
  · simp only [success, ne_eq, not_true_eq_false, if_false, if_true, cancelResolver_eq]
    exact .keeps rfl (by simp) fun free _ => free
  · simp only [success, ne_eq, not_false_eq_true, if_true, if_false, cancelResolver_eq]
    exact settles_start (tells_settles _) rfl rfl

theorem socks5_settles {event : Socks5.Event}
    (h : step literals request s (.socks5 event) = some t) :
    Settles s t (effects literals request s (.socks5 event)) := by
  obtain ⟨client, next, held, stepped, rfl⟩ := socks5_client h
  simp only [effects, answer, held, stepped, Option.bind_some]
  cases next.answers.drop client.answers.length with
  | nil => exact .keeps rfl List.not_mem_nil fun free => by rw [held] at free; cases free
  | cons code rest =>
    simp only [List.head?_cons, onSocks5Handshake]
    by_cases success : code = 0
    · simp only [success, ne_eq, not_true_eq_false, if_false, if_true]
      exact settles_release (handshaking_settles 0) rfl
    · simp only [success, ne_eq, not_false_eq_true, if_true, if_false]
      exact settles_release (cleans_settles code) rfl

theorem step_settles (h : step literals request s event = some t) :
    Settles s t (effects literals request s event) := by
  cases event with
  | connect => cases h; exact unchanged_settles rfl rfl
  | disConnect =>
    cases h
    unfold disConnect
    split
    · exact unchanged_settles rfl rfl
    · exact unchanged_settles rfl rfl
  | send buffer =>
    cases h
    unfold send
    split
    · exact unchanged_settles rfl rfl
    · exact unchanged_settles rfl rfl
  | run => exact run_settles h
  | resolved k code =>
    obtain ⟨resolver, resolvers, present, _, rfl⟩ := resolved_lookup h
    simp only [effects, resolvedEffects, present]
    split
    · exact settles_start (onDnsResolvered_settles code) rfl rfl
    · exact unchanged_settles rfl rfl
  | connected ec =>
    simp only [step] at h
    split at h <;> cases h
    simp only [notifyConnectComplete, effects]
    split
    · split
      · exact .keeps rfl (by simp) fun _ absent => absurd List.mem_cons_self absent
      · exact settles_start (handshaking_settles ec) rfl rfl
    · exact settles_start (cleans_settles ec) rfl rfl
  | socks5 event => exact socks5_settles h
  | tlsHandshake ec =>
    simp only [step] at h
    split at h <;> cases h
    simp only [notifyTlsHandshakeComplete, effects]
    split
    · cases kind : request.netType with
      | websocketTls => exact .keeps rfl (by simp) fun free _ => free
      | _ => exact settles_start (receives_settles _) rfl rfl
    · exact settles_start (tells_settles _) rfl rfl
  | websocketHandshake ec =>
    simp only [step] at h
    split at h <;> cases h
    simp only [notifyWebsocketHandshakeComplte, effects]
    split
    · exact settles_start (receives_settles _) rfl rfl
    · exact settles_start (tells_settles _) rfl rfl
  | read ec data =>
    simp only [step] at h
    split at h <;> cases h
    simp only [notifyRecvData, effects, ne_eq, ite_not]
    split
    · exact settles_start (receives_settles _) rfl rfl
    · exact settles_start (tells_settles _) rfl rfl
  | written ec =>
    simp only [step] at h
    split at h <;> cases h
    simp only [notifySendComplete, effects, ne_eq, ite_not]
    split
    · cases queue : s.sendBuffers.tail with
      | nil => exact unchanged_settles rfl rfl
      | cons buffer rest =>
        cases clean : s.alreadyCleanUp with
        | true => exact unchanged_settles clean.symm rfl
        | false => exact .keeps clean.symm (by simp) fun free _ => free
    · exact settles_start (tells_settles _) rfl rfl

end Kingkong.Connection
