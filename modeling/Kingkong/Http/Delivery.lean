import Kingkong.Http.Model

/-!
What one event does: it moves the client on, it may lead to one call of the delegate under the
mutexes that the IO thread holds by then, and the end of a message is recorded after that call has
returned.
-/

namespace Kingkong.Http
open Lib Locked

variable {D : Type} {s : System D} {c : Nat} {client next : Client} {held : List Mutex}
  {delegate : HttpClientDelegate D} {lexicalCast : Bytes → Option Nat}

@[simp] theorem set_clients : (s.set c client).clients c = client := Function.update_self ..

@[simp] theorem set_delegate : (s.set c client).delegate = s.delegate := rfl

@[simp] theorem set_set : (s.set c client).set c next = s.set c next := by
  simp [System.set]

@[simp] theorem set_self : s.set c (s.clients c) = s := by
  simp [System.set]

theorem set_other {other : Nat} (different : other ≠ c) :
    (s.set c client).clients other = s.clients other :=
  Function.update_of_ne different ..

@[simp] theorem setClient_apply (f : Client → Client) :
    (setClient c f : Call D Unit) held s = (.ok (), s.set c (f (s.clients c))) := rfl

@[simp] theorem setClient_bind (f : Client → Client) (rest : Unit → Call D Unit) :
    (setClient c f >>= rest) held s = rest () held (s.set c (f (s.clients c))) := rfl

@[simp] theorem setDelegate_apply (f : D → D) :
    setDelegate f held s = (.ok (), { s with delegate := f s.delegate }) := rfl

@[simp] theorem setDelegate_bind (f : D → D) (rest : Unit → Call D Unit) :
    (setDelegate f >>= rest) held s = rest () held { s with delegate := f s.delegate } := rfl

/-- `Cancel` takes `delegate_mutex_` first. -/
theorem cancel_held (member : Mutex.delegate c ∈ held) :
    (cancel c : Call D Unit) held s = (.error (.delegate c), s) :=
  bind_stuck (withLock_held member _) _

def cancelled (client : Client) : Client :=
  if client.stoped then { client with delegate := false }
  else { client with delegate := false, stoped := true, connectionDelegate := false }

theorem cancelled_message (client : Client) :
    (cancelled client).stage = client.stage ∧
      (cancelled client).recvComplete = client.recvComplete ∧
      (cancelled client).httpCode = client.httpCode ∧ (cancelled client).body = client.body := by
  unfold cancelled
  split <;> exact ⟨rfl, rfl, rfl, rfl⟩

theorem cancel_free (delegateFree : Mutex.delegate c ∉ held)
    (connectionFree : Mutex.connection c ∉ held) :
    (cancel c : Call D Unit) held s = (.ok (), s.set c (cancelled (s.clients c))) := by
  unfold cancel disConnect cancelled
  rw [bind_returns (withLock_free delegateFree _), read_bind]
  cases stoped : (s.clients c).stoped
  · simp [stoped, withLock_free connectionFree]
  · simp [stoped]

inductive Callback where
  | heads
  | response (io : FileIO) (content : Bytes)
  | complete

def Callback.call (delegate : HttpClientDelegate D) (c : Nat) (client : Client) :
    Callback → Call D Unit
  | .heads => delegate.onHttpHeads c client.heads
  | .response io content => delegate.onHttpResponse c io content
  | .complete => delegate.onHttpComplete c client.httpCode

namespace Event

/-- The client when the delegate is called. -/
def advance (lexicalCast : Bytes → Option Nat) (client : Client) : Event → Option Client
  | .connected =>
    if client.stage = .requested then
      some { client with
        stage := .statusLine
        writing := if client.connectionDelegate then !client.stoped else client.writing }
    else none
  | .connectFailed code =>
    if client.stage = .requested ∧ code ≠ 0 then
      some { client with stage := .failed, httpCode := if client.connectionDelegate then 404 else client.httpCode }
    else none
  | .response code =>
    if client.stage = .statusLine then some { client with httpCode := code, stage := .fields } else none
  | .field name value => if client.stage = .fields then onFieldImpl lexicalCast name value client else none
  | .header => if client.stage = .fields then some { client with stage := .body } else none
  | .body _ content | .chunk _ content =>
    if client.stage = .body then some { client with body := client.body ++ content } else none
  | .finish => if client.stage = .body then some { client with stage := .finished } else none
  | .readError =>
    if client.stage.reads then some (if client.recvComplete then client else { client with stage := .closed })
    else none
  | .written | .writeError => if client.writing then some { client with writing := false } else none

def callback (client : Client) : Event → Option Callback
  | .header => if client.delegate then some .heads else none
  | .body io content | .chunk io content => if client.delegate then some (.response io content) else none
  | .finish => if client.delegate then some .complete else none
  | .connectFailed _ | .writeError => if client.connectionDelegate ∧ client.delegate then some .complete else none
  | .readError =>
    if ¬ client.recvComplete ∧ client.connectionDelegate ∧ client.delegate then some .complete else none
  | _ => none

/-- What the IO thread holds during that call. -/
def holding (c : Nat) : Event → List Mutex
  | .connectFailed _ | .readError | .writeError => [.delegate c, .connection c]
  | _ => [.delegate c]

theorem delegate_mem_holding (event : Event) : Mutex.delegate c ∈ event.holding c := by
  cases event <;> simp [holding]

theorem auth_not_mem_holding (event : Event) : Mutex.auth ∉ event.holding c := by
  cases event <;> simp [holding]

theorem downloader_not_mem_holding (event : Event) : Mutex.downloader ∉ event.holding c := by
  cases event <;> simp [holding]

def settle : Event → Client → Client
  | .finish => fun client => { client with recvComplete := true }
  | _ => id

end Event

def outcome (delegate : HttpClientDelegate D) (c : Nat) (event : Event) (next : Client)
    (s : System D) :
    Option Callback → Except Mutex Unit × System D
  | none => (.ok (), s.set c (event.settle next))
  | some callback =>
    match callback.call delegate c next (event.holding c) (s.set c next) with
    | (.ok _, t) => (.ok (), t.set c (event.settle (t.clients c)))
    | (.error m, t) => (.error m, t)

theorem onFieldImpl_frame {name value : Bytes}
    (h : onFieldImpl lexicalCast name value client = some next) :
    ∃ heads bodyLimit, next = { client with heads := heads, bodyLimit := bodyLimit } := by
  unfold onFieldImpl at h
  simp only at h
  split at h
  · obtain ⟨length, _, same⟩ := Option.map_eq_some_iff.mp h
    split at same
    · exact ⟨_, _, same.symm⟩
    · exact ⟨_, client.bodyLimit, same.symm⟩
  · exact ⟨_, client.bodyLimit, (Option.some.inj h).symm⟩

theorem callback_advance {event : Event} (moved : event.advance lexicalCast client = some next) :
    event.callback next = event.callback client := by
  cases event with
  | field name value => rfl
  | readError =>
    obtain ⟨_, same⟩ := Option.ite_none_right_eq_some.mp moved
    cases same
    cases complete : client.recvComplete <;> simp [Event.callback, complete]
  | _ =>
    obtain ⟨_, same⟩ := Option.ite_none_right_eq_some.mp moved
    cases same
    rfl

theorem settle_stage (event : Event) (client : Client) :
    (event.settle client).stage = client.stage := by
  cases event <;> rfl

@[simp] theorem settle_httpCode (event : Event) :
    (event.settle client).httpCode = client.httpCode := by
  cases event <;> rfl

theorem outcome_returns {event : Event} {callback : Callback} {d : D}
    (returns : callback.call delegate c next (event.holding c) (s.set c next) = (.ok (),
      { s.set c next with delegate := d })) :
    outcome delegate c event next s (some callback) = (.ok (),
      { s.set c (event.settle next) with delegate := d }) := by
  simp only [outcome, returns, set_clients]
  simp [System.set]

theorem outcome_stuck {event : Event} {callback : Callback} {m : Mutex} {t : System D}
    (stuck : callback.call delegate c next (event.holding c) (s.set c next) = (.error m, t)) :
    outcome delegate c event next s (some callback) = (.error m, t) := by
  simp only [outcome, stuck]

theorem tell_apply {call : Client → Call D Unit} (free : Mutex.delegate c ∉ held) :
    tell c call held s =
      if (s.clients c).delegate then call (s.clients c) (.delegate c :: held) s
      else (.ok (), s) := by
  unfold tell
  rw [withLock_free free]
  simp

theorem fromConnection_apply {call : Call D Unit} (free : Mutex.connection c ∉ held) :
    fromConnection c call held s =
      if (s.clients c).connectionDelegate then call (.connection c :: held) s else (.ok (), s) := by
  unfold fromConnection
  rw [withLock_free free]
  simp

theorem notifyComplete_apply (free : Mutex.delegate c ∉ held) :
    notifyComplete delegate c held s =
      if (s.clients c).delegate then delegate.onHttpComplete c (s.clients c).httpCode (.delegate c :: held) s
      else (.ok (), s) :=
  tell_apply free

theorem notifyResponse_apply (io : FileIO) (content : Bytes) (free : Mutex.delegate c ∉ held) :
    notifyResponse delegate c io content held s =
      if (s.clients c).delegate then delegate.onHttpResponse c io content (.delegate c :: held) s
      else (.ok (), s) := tell_apply free

theorem notifyDisconnect_apply :
    notifyDisconnect delegate c [] s =
      if (s.clients c).connectionDelegate ∧ (s.clients c).delegate then
        delegate.onHttpComplete c (s.clients c).httpCode [.delegate c, .connection c] s
      else (.ok (), s) := by
  unfold notifyDisconnect onDisconnect
  rw [fromConnection_apply List.not_mem_nil, notifyComplete_apply (by simp)]
  cases (s.clients c).connectionDelegate <;> simp

/-- Only the end of a message has something left to do after the call. -/
theorem outcome_unsettled {event : Event} {p : Prop} [Decidable p] {callback : Callback}
    (unsettled : event.settle = id) :
    outcome delegate c event next s (if p then some callback else none) =
      if p then callback.call delegate c next (event.holding c) (s.set c next)
      else (.ok (), s.set c next) := by
  by_cases called : p
  · rw [if_pos called, if_pos called]
    simp only [outcome, unsettled, id, set_self]
    rcases callback.call delegate c next (event.holding c) (s.set c next) with ⟨_ | _, _⟩ <;> rfl
  · rw [if_neg called, if_neg called, outcome, unsettled, id]

/-- `deliver` in terms of the move, the call and the end of the message. -/
theorem deliver_outcome {event : Event} {call : Call D Unit}
    (h : deliver delegate lexicalCast c (s.clients c) event = some call) :
    ∃ next, event.advance lexicalCast (s.clients c) = some next ∧
      call [] s = outcome delegate c event next s (event.callback next) := by
  cases event with
  | connected =>
    obtain ⟨enabled, same⟩ := Option.ite_none_right_eq_some.mp h
    cases same
    refine ⟨_, if_pos enabled, ?_⟩
    simp only [setStage, setClient_bind, handleConnectStatus, fromConnection_apply List.not_mem_nil]
    cases (s.clients c).connectionDelegate <;> simp [onConnect, Event.callback, outcome, Event.settle]
  | connectFailed code =>
    obtain ⟨enabled, same⟩ := Option.ite_none_right_eq_some.mp h
    cases same
    refine ⟨_, if_pos enabled, ?_⟩
    have free : Mutex.delegate c ∉ [Mutex.connection c] := by simp
    simp only [setStage, setClient_bind, handleConnectStatus, fromConnection_apply List.not_mem_nil,
      set_clients, Event.callback,
      outcome_unsettled (show (Event.connectFailed code).settle = id from rfl)]
    cases (s.clients c).connectionDelegate
    · simp
    · simp [onConnect, enabled.2, notifyComplete_apply free, Callback.call, Event.holding]
  | response code =>
    obtain ⟨enabled, same⟩ := Option.ite_none_right_eq_some.mp h
    cases same
    exact ⟨_, if_pos enabled, rfl⟩
  | field name value =>
    obtain ⟨enabled, same⟩ := Option.ite_none_right_eq_some.mp h
    obtain ⟨next, read, same⟩ := Option.map_eq_some_iff.mp same
    cases same
    exact ⟨next, (if_pos enabled).trans read, rfl⟩
  | header =>
    obtain ⟨enabled, same⟩ := Option.ite_none_right_eq_some.mp h
    cases same
    refine ⟨_, if_pos enabled, ?_⟩
    rw [Event.callback, outcome_unsettled rfl, setStage, setClient_bind, onHeaderImpl,
      tell_apply List.not_mem_nil, set_clients]
    rfl
  | body io content | chunk io content =>
    obtain ⟨enabled, same⟩ := Option.ite_none_right_eq_some.mp h
    cases same
    refine ⟨_, if_pos enabled, ?_⟩
    rw [Event.callback, outcome_unsettled rfl, piece, setClient_bind]
    first | rw [onBodyImpl] | rw [onChunkBodyImpl]
    rw [notifyResponse_apply io content List.not_mem_nil, set_clients]
    rfl
  | finish =>
    obtain ⟨enabled, same⟩ := Option.ite_none_right_eq_some.mp h
    cases same
    refine ⟨_, if_pos enabled, ?_⟩
    rw [setStage, setClient_bind, onFinishImpl, bind_apply, notifyComplete_apply List.not_mem_nil,
      set_clients, Event.callback]
    by_cases attached : (s.clients c).delegate
    · simp only [attached, if_true, outcome, Callback.call, Event.holding, Event.settle]
      rcases delegate.onHttpComplete c _ _ _ with ⟨_ | _, _⟩ <;> rfl
    · simp [attached, outcome, Event.settle]
  | readError =>
    obtain ⟨enabled, same⟩ := Option.ite_none_right_eq_some.mp h
    cases same
    refine ⟨_, if_pos enabled, ?_⟩
    cases complete : (s.clients c).recvComplete
    · simp [Event.callback, complete, outcome_unsettled (show Event.readError.settle = id from rfl),
        setStage, notifyDisconnect_apply, Callback.call, Event.holding]
    · simp [Event.callback, complete, outcome, Event.settle]
  | written =>
    obtain ⟨enabled, same⟩ := Option.ite_none_right_eq_some.mp h
    cases same
    exact ⟨_, if_pos enabled, rfl⟩
  | writeError =>
    obtain ⟨enabled, same⟩ := Option.ite_none_right_eq_some.mp h
    cases same
    refine ⟨_, if_pos enabled, ?_⟩
    rw [Event.callback, outcome_unsettled rfl, setClient_bind, notifyDisconnect_apply, set_clients]
    rfl

theorem ioStep_outcome {t after : Thread D} {event : Event}
    (h : ioStep delegate lexicalCast c t event = some after) :
    t.stuck = none ∧ ∃ next, event.advance lexicalCast (t.system.clients c) = some next ∧
      after = .ofResult (outcome delegate c event next t.system (event.callback next)) := by
  unfold ioStep at h
  split at h
  · cases h
  · rename_i running
    obtain ⟨call, delivered, same⟩ := Option.map_eq_some_iff.mp h
    obtain ⟨next, moved, called⟩ := deliver_outcome delivered
    refine ⟨by simpa using running, next, moved, ?_⟩
    rw [← called, ← same]
    rfl

end Kingkong.Http
