import Kingkong.Connection.SendQueue
import Kingkong.Connection.Stages

/-!
What a connection can still tell its delegate once it has reported the outcome of its one `Connect`.
No stage is under way then, so the outcome is not reported again, and `OnDisconnect` is all that is
left besides the data.
-/

namespace Kingkong.Connection
open Lib State

variable {literals : Socks5.Literals} {request : NetConnectionRequest} {s t : State} {event : Event}
  {progress : Progress}

def Action.heard : Action → Option Callback
  | .callback told => some told
  | _ => none

/-! ### What the delegate hears in a step -/

theorem told_heard (callback : Callback) :
    (told s callback).filterMap Action.heard = if s.delegate then [callback] else [] := by
  unfold told
  split <;> rfl

theorem cleaning_heard : (cleaning s).filterMap Action.heard = [] := by
  unfold cleaning
  split <;> rfl

theorem told_cleaning_heard (callback : Callback) :
    (told s callback ++ cleaning s).filterMap Action.heard =
      if s.delegate then [callback] else [] := by
  rw [List.filterMap_append, told_heard, cleaning_heard, List.append_nil]

theorem cleaning_told_heard (callback : Callback) :
    (cleaning s ++ told s callback).filterMap Action.heard =
      if s.delegate then [callback] else [] := by
  rw [List.filterMap_append, told_heard, cleaning_heard, List.nil_append]

theorem told_recvData_heard (callback : Callback) :
    (told s callback ++ [Action.recvData]).filterMap Action.heard =
      if s.delegate then [callback] else [] := by
  rw [List.filterMap_append, told_heard]
  simp [Action.heard]

theorem runEffects_heard : (runEffects s).filterMap Action.heard = [] := by
  unfold runEffects
  split
  · split <;> rfl
  · split <;> rfl
  · exact cleaning_heard
  · rfl

/-- The event is a read or a write that failed with `ec`. -/
def Event.broken (ec : Int) (event : Event) : Prop :=
  ec ≠ 0 ∧ ((∃ data, event = .read ec data) ∨ event = .written ec)

/-- A step tells its delegate one thing at most. -/
inductive Hears (s : State) (event : Event) : List Callback → Prop where
  | nothing : Hears s event []
  | onConnect (code : Int) (there : s.delegate = true) : Hears s event [.onConnect code]
  | onRecvData (data : Bytes) (there : s.delegate = true) : Hears s event [.onRecvData data]
  | onDisconnect (ec : Int) (there : s.delegate = true) (broken : event.broken ec) : Hears s event [.onDisconnect ec]

theorem hears_onConnect (code : Int) :
    Hears s event (if s.delegate then [.onConnect code] else []) := by
  split
  · rename_i there
    exact .onConnect code there
  · exact .nothing

theorem hears_onRecvData (data : Bytes) :
    Hears s event (if s.delegate then [.onRecvData data] else []) := by
  split
  · rename_i there
    exact .onRecvData data there
  · exact .nothing

theorem hears_onDisconnect {ec : Int} (broken : event.broken ec) :
    Hears s event (if s.delegate then [.onDisconnect ec] else []) := by
  split
  · rename_i there
    exact .onDisconnect ec there broken
  · exact .nothing

theorem handshaking_hears (code : Int) :
    Hears s event ((handshaking request s code).filterMap Action.heard) := by
  rw [handshaking_eq]
  split
  · exact .nothing
  · split
    · exact .nothing
    · rw [told_recvData_heard]
      exact hears_onConnect code

theorem resolvedEffects_hears {k : Nat} {code : Int} :
    Hears s event ((resolvedEffects s k code).filterMap Action.heard) := by
  unfold resolvedEffects
  split
  · split
    · split
      · exact .nothing
      · rw [told_cleaning_heard]
        exact hears_onConnect code
    · exact .nothing
  · exact .nothing

theorem effects_hears :
    Hears s event ((effects literals request s event).filterMap Action.heard) := by
  cases event with
  | connect => exact .nothing
  | disConnect => exact .nothing
  | send buffer => exact .nothing
  | run =>
    rw [effects, runEffects_heard]
    exact .nothing
  | resolved k code => exact resolvedEffects_hears
  | connected ec =>
    simp only [effects]
    split
    · split
      · exact .nothing
      · exact handshaking_hears ec
    · rw [cleaning_told_heard]
      exact hears_onConnect ec
  | socks5 inner =>
    simp only [effects]
    split
    · rename_i code _
      split
      · exact handshaking_hears code
      · rw [cleaning_told_heard]
        exact hears_onConnect code
    · exact .nothing
  | tlsHandshake ec =>
    simp only [effects]
    split
    · split
      · exact .nothing
      · rw [told_recvData_heard]
        exact hears_onConnect ec
    · rw [told_cleaning_heard]
      exact hears_onConnect ec
  | websocketHandshake ec =>
    simp only [effects]
    split
    · rw [told_recvData_heard]
      exact hears_onConnect ec
    · rw [told_cleaning_heard]
      exact hears_onConnect ec
  | read ec data =>
    simp only [effects]
    split
    · rw [told_recvData_heard]
      exact hears_onRecvData data
    · rename_i error
      rw [told_cleaning_heard]
      exact hears_onDisconnect ⟨error, .inl ⟨data, rfl⟩⟩
  | written ec =>
    simp only [effects]
    split
    · split
      · split <;> exact .nothing
      · exact .nothing
    · rename_i error
      rw [told_cleaning_heard]
      exact hears_onDisconnect ⟨error, .inr rfl⟩

theorem broken_heard {ec : Int} (broken : event.broken ec) (there : s.delegate = true) :
    (effects literals request s event).filterMap Action.heard = [.onDisconnect ec] := by
  obtain ⟨error, ⟨data, rfl⟩ | rfl⟩ := broken
  · simp only [effects, if_neg error]
    rw [told_cleaning_heard, if_pos there]
  · simp only [effects, if_neg error]
    rw [told_cleaning_heard, if_pos there]

/-! ### The report of the outcome -/

theorem failed_done (bare : Bare s) (callback : Callback) :
    Only request .done (s.notify callback).handleCleanUp :=
  handleCleanUp_only (notify_only callback (bare_only bare))

theorem cleaned_done (bare : Bare s) (callback : Callback) :
    Only request .done (s.handleCleanUp.notify callback) :=
  notify_only callback (handleCleanUp_only (bare_only bare))

theorem received_done (bare : Bare s) (callback : Callback) :
    Only request .done (s.notify callback).startRecvDate :=
  startRecvDate_done (notify_only callback (bare_only bare))

theorem doOtherHandshake_done {u : State} {code : Int} (bare : Bare s)
    (heard : .onConnect code ∈ (handshaking request u 0).filterMap Action.heard) :
    Only request .done (s.doOtherHandshake request 0) := by
  rw [handshaking_eq] at heard
  rw [doOtherHandshake_eq]
  split at heard
  · cases heard
  · rename_i plain
    rw [if_neg plain]
    split at heard
    · cases heard
    · rename_i direct
      rw [if_neg direct]
      exact received_done bare _

theorem resolved_done {k : Nat} {outcome code : Int} (only : Only request progress s)
    (h : step literals request s (.resolved k outcome) = some t)
    (heard : .onConnect code ∈ (effects literals request s (.resolved k outcome)).filterMap Action.heard) :
    progress ≠ .done ∧ Only request .done t := by
  obtain ⟨resolver, resolvers, found, rfl, rfl⟩ := resolved_lookup h
  simp only [effects, resolvedEffects, found] at heard
  cases there : resolver.delegate with
  | false =>
    rw [there] at heard
    cases heard
  | true =>
    simp only [there, if_true] at heard ⊢
    by_cases success : outcome = 0
    · rw [if_pos success] at heard
      cases heard
    · have counted := lookups_only k (fun resolver => resolver.outstanding - 1) only s.history
      have kept : (s.resolvers.modify k fun resolver =>
          { resolver with outstanding := resolver.outstanding - 1 })[k]? =
            some { resolver with outstanding := resolver.outstanding - 1 } := by
        simp [found]
      obtain ⟨rfl, _, bare⟩ := resolver_end counted kept there
      refine ⟨by decide, ?_⟩
      simp only [onDnsResolvered, ne_eq, success, not_false_eq_true, if_true]
      exact failed_done bare _

theorem connected_done {ec code : Int} (only : Only request progress s)
    (h : step literals request s (.connected ec) = some t)
    (heard : .onConnect code ∈ (effects literals request s (.connected ec)).filterMap Action.heard) :
    progress ≠ .done ∧ Only request .done t := by
  simp only [step] at h
  split at h <;> cases h
  rename_i enabled
  obtain ⟨rfl, bare⟩ := connects_end only enabled
  refine ⟨by decide, ?_⟩
  simp only [effects] at heard
  by_cases success : ec = 0
  · subst success
    rw [if_pos rfl] at heard
    simp only [notifyConnectComplete, if_true]
    split at heard
    · cases heard
    · rename_i direct
      rw [if_neg direct]
      exact doOtherHandshake_done bare heard
  · simp only [notifyConnectComplete, if_neg success]
    exact cleaned_done bare _

theorem socks5_done {inner : Socks5.Event} {code : Int} (only : Only request progress s)
    (h : step literals request s (.socks5 inner) = some t)
    (heard : .onConnect code ∈ (effects literals request s (.socks5 inner)).filterMap Action.heard) :
    progress ≠ .done ∧ Only request .done t := by
  obtain ⟨client, after, held, moved, rfl⟩ := socks5_client h
  simp only [effects, answer, held, moved, Option.bind_some] at heard
  obtain ⟨rfl, bare⟩ := client_end only held
  refine ⟨by decide, ?_⟩
  cases answers : after.answers.drop client.answers.length with
  | nil =>
    rw [answers] at heard
    cases heard
  | cons code rest =>
    simp only [answers, List.head?_cons, onSocks5Handshake_free] at heard ⊢
    by_cases success : code = 0
    · subst success
      rw [if_pos rfl] at heard ⊢
      exact doOtherHandshake_done bare heard
    · rw [if_neg success]
      exact cleaned_done bare _

theorem tlsHandshake_done {ec code : Int} (only : Only request progress s)
    (h : step literals request s (.tlsHandshake ec) = some t)
    (heard : .onConnect code ∈ (effects literals request s (.tlsHandshake ec)).filterMap Action.heard) :
    progress ≠ .done ∧ Only request .done t := by
  simp only [step] at h
  split at h <;> cases h
  rename_i enabled
  obtain ⟨rfl, bare⟩ := tls_end only enabled
  refine ⟨by decide, ?_⟩
  simp only [effects] at heard
  by_cases success : ec = 0
  · subst success
    rw [if_pos rfl] at heard
    simp only [notifyTlsHandshakeComplete, if_true]
    split at heard
    · cases heard
    · rename_i other
      split
      · rename_i kind
        exact absurd kind other
      · exact received_done bare _
  · simp only [notifyTlsHandshakeComplete, if_neg success]
    exact failed_done bare _

theorem websocketHandshake_done {ec : Int} (only : Only request progress s)
    (h : step literals request s (.websocketHandshake ec) = some t) :
    progress ≠ .done ∧ Only request .done t := by
  simp only [step] at h
  split at h <;> cases h
  rename_i enabled
  obtain ⟨rfl, bare⟩ := websocket_end only enabled
  refine ⟨by decide, ?_⟩
  simp only [notifyWebsocketHandshakeComplte]
  split
  · exact received_done bare _
  · exact failed_done bare _

/-- Only the stages report the outcome of `Connect`. -/
theorem transfer_unheard {code : Int}
    (transfer : (∃ ec data, event = .read ec data) ∨ ∃ ec, event = .written ec) :
    .onConnect code ∉ (effects literals request s event).filterMap Action.heard := by
  intro heard
  obtain ⟨ec, data, rfl⟩ | ⟨ec, rfl⟩ := transfer
  · simp only [effects] at heard
    split at heard
    · rw [told_recvData_heard] at heard
      split at heard <;> simp at heard
    · rw [told_cleaning_heard] at heard
      split at heard <;> simp at heard
  · simp only [effects] at heard
    split at heard
    · split at heard
      · split at heard <;> cases heard
      · cases heard
    · rw [told_cleaning_heard] at heard
      split at heard <;> simp at heard

/-- The report of the outcome comes while a stage is under way, and leaves none. -/
theorem onConnect_done {code : Int} (only : Only request progress s)
    (h : step literals request s event = some t)
    (heard : .onConnect code ∈ (effects literals request s event).filterMap Action.heard) :
    progress ≠ .done ∧ Only request .done t := by
  cases event with
  | connect => cases heard
  | disConnect => cases heard
  | send buffer => cases heard
  | run =>
    rw [effects, runEffects_heard] at heard
    cases heard
  | resolved k outcome => exact resolved_done only h heard
  | connected ec => exact connected_done only h heard
  | socks5 inner => exact socks5_done only h heard
  | tlsHandshake ec => exact tlsHandshake_done only h heard
  | websocketHandshake ec => exact websocketHandshake_done only h
  | read ec data => exact absurd heard (transfer_unheard (.inl ⟨ec, data, rfl⟩))
  | written ec => exact absurd heard (transfer_unheard (.inr ⟨ec, rfl⟩))

/-! ### After the report -/

/-- Whatever led to it, a connection with no stage under way is one that might have begun to
read. -/
theorem done_stands (only : Only request .done s) : Stands request .done ⟨s, [.did .recvData]⟩ :=
  ⟨only, trivial, fun early => absurd rfl early, fun early => absurd rfl early, fun early => absurd rfl early,
    fun _ => List.mem_singleton.mpr rfl, earned_unreported (by simp [Unreported])⟩

theorem done_step (only : Only request .done s) (other : event.isConnect = false)
    (h : step literals request s event = some t) : Only request .done t := by
  obtain ⟨d, stepped⟩ : ∃ d, Session.step literals request ⟨s, [.did .recvData]⟩ event = some d :=
    ⟨_, Option.map_eq_some_iff.mpr ⟨t, h, rfl⟩⟩
  obtain ⟨next, _, stands⟩ := step_stands (done_stands only) other stepped
  obtain ⟨reached, again, rfl⟩ := session_cases stepped
  cases h.symm.trans again
  -- The story has the read, which none of the earlier stages allows.
  have last : next = .done := by
    by_contra early
    exact stands.tells.unread early (by simp)
  subst last
  exact stands.only

theorem done_unheard {code : Int} (only : Only request .done s)
    (h : step literals request s event = some t) :
    .onConnect code ∉ (effects literals request s event).filterMap Action.heard :=
  fun heard => (onConnect_done only h heard).1 rfl

/-! ### Writes -/

/-- `Send` has not been called: there is no write, and no task that would start one. -/
structure Unsent (s : State) : Prop where
  writes : s.writes = 0
  posts : ∀ buffer, .doSendFromQueue buffer ∉ s.tasks

theorem cancelResolver_posts {buffer : Bytes}
    (member : .doSendFromQueue buffer ∈ s.cancelResolver.tasks) :
    .doSendFromQueue buffer ∈ s.tasks := by
  rw [cancelResolver_eq] at member
  simpa using member

theorem handleCleanUp_posts {buffer : Bytes}
    (member : .doSendFromQueue buffer ∈ s.handleCleanUp.tasks) :
    .doSendFromQueue buffer ∈ s.tasks := by
  cases clean : s.alreadyCleanUp with
  | true => rwa [handleCleanUp_again clean] at member
  | false =>
    rw [handleCleanUp_first clean] at member
    simpa using member

theorem runTask_posts {buffer : Bytes} (task : Task)
    (member : .doSendFromQueue buffer ∈ (s.runTask request task).tasks) :
    .doSendFromQueue buffer ∈ s.tasks := by
  cases task with
  | doDnsResolve => simpa [runTask, doDnsResolve, postRunable] using member
  | doResolver k =>
    simp only [runTask] at member
    split at member
    · exact member
    · exact member
  | doCancel k => exact member
  | doSendFromQueue other =>
    simp only [runTask, doSendFromQueue] at member
    split at member
    · exact member
    · exact member
  | handleCleanUp => exact handleCleanUp_posts member

theorem operation_posts {buffer : Bytes} (operation : Operation)
    (member : .doSendFromQueue buffer ∈ (operation.run literals request s).tasks) :
    .doSendFromQueue buffer ∈ s.tasks := by
  cases operation with
  | tell callback =>
    simp only [Operation.run, notify] at member
    split at member
    · exact member
    · exact member
  | handleCleanUp => exact handleCleanUp_posts member
  | cancelResolver => exact cancelResolver_posts member
  | sendNext =>
    simp only [Operation.run, notifySendComplete, ne_eq, not_true_eq_false, if_false] at member
    split at member
    · exact member
    · exact member
  | runTask task => exact runTask_posts task member
  | _ => exact member

theorem runAll_posts {buffer : Bytes} (operations : List Operation)
    (member : .doSendFromQueue buffer ∈ (runAll literals request s operations).tasks) :
    .doSendFromQueue buffer ∈ s.tasks := by
  induction operations generalizing s with
  | nil => exact member
  | cons operation rest ih => exact operation_posts operation (ih member)

theorem handler_tasks {started : Started} {task : Task}
    (h : handler literals request s event = some started)
    (member : task ∈ started.connection.tasks) :
    task ∈ s.tasks := by
  cases event with
  | connect => cases h
  | disConnect => cases h
  | send buffer => cases h
  | run =>
    simp only [handler] at h
    cases tasks : s.tasks with
    | nil => simp [tasks] at h
    | cons first rest =>
      rw [tasks] at h
      cases h
      exact List.mem_cons_of_mem _ member
  | resolved k code =>
    simp only [handler] at h
    split at h
    · split at h <;> cases h
      exact member
    · cases h
  | socks5 inner =>
    simp only [handler] at h
    split at h
    · obtain ⟨next, _, rfl⟩ := Option.map_eq_some_iff.mp h
      exact member
    · cases h
  | _ =>
    simp only [handler] at h
    split at h <;> cases h
    exact member

/-- Only `Send` posts what leads to a write. -/
theorem step_posts {buffer : Bytes} (other : ∀ buffer, event ≠ .send buffer)
    (h : step literals request s event = some t) (member : .doSendFromQueue buffer ∈ t.tasks) :
    .doSendFromQueue buffer ∈ s.tasks := by
  cases pump : event.ofOwner with
  | true =>
    cases event with
    | connect =>
      cases h
      simpa [connect, postRunable] using member
    | disConnect =>
      cases h
      unfold disConnect at member
      split at member
      · exact member
      · simpa [postRunable] using member
    | send buffer => exact absurd rfl (other buffer)
    | _ => cases pump
  | false =>
    rw [step_handler pump] at h
    obtain ⟨started, taken, rfl⟩ := Option.map_eq_some_iff.mp h
    exact handler_tasks taken (runAll_posts _ member)

theorem step_unsent (unsent : Unsent s) (other : ∀ buffer, event ≠ .send buffer)
    (h : step literals request s event = some t) : Unsent t := by
  refine ⟨?_, fun buffer member => unsent.posts buffer (step_posts other h member)⟩
  rcases step_outbox h with ⟨buffer, rest, _, tasks, _⟩ | ⟨ec, _, enabled, _⟩ | same | closed
  · exact absurd (by rw [tasks]; exact List.mem_cons_self) (unsent.posts buffer)
  · rw [unsent.writes] at enabled
    cases enabled
  · exact (congrArg Outbox.writing same).trans unsent.writes
  · exact (congrArg Outbox.writing closed).trans unsent.writes

end Kingkong.Connection
