import Kingkong.Connection.Callbacks
import Kingkong.Connection.Handlers

/-!
The two threads of a connection. The pump thread runs one handler at a time, operation by operation,
and holds `mutex_` from the start of a callback to its end. The owner may come between any two
operations, and its `DisConnect` is three of them.
-/

namespace Kingkong.Connection
open Lib State

/-- Where the owner is in `DisConnect`: it has set `stoped_` and waits for `mutex_`, or it has
cleared `delegate_`. -/
inductive Owner where
  | free | clearing | posting
  deriving DecidableEq

/-- `operations` is what is left of the running handler, and `calling` tells whether it is inside a
callback. `returned` is set when a call of `DisConnect` has returned. -/
structure Threads where
  connection : State := {}
  operations : List Operation := []
  calling : Bool := false
  owner : Owner := .free
  returned : Bool := false
  deriving DecidableEq

inductive Move where
  | connect
  | send (buffer : Bytes)
  | disConnect
  | clear
  | post
  | start (event : Event)
  | next
  | unlock

def Operation.locks : Operation → Bool
  | .tell _ => true
  | _ => false

namespace Threads

def step (literals : Socks5.Literals) (request : NetConnectionRequest) (c : Threads) :
    Move → Option Threads
  | .connect => if c.owner = .free then some { c with connection := c.connection.connect } else none
  | .send buffer => if c.owner = .free then some { c with connection := c.connection.send buffer } else none
  | .disConnect =>
    if c.owner = .free then
      if c.connection.stoped then some { c with returned := true }
      else some { c with connection := { c.connection with stoped := true }, owner := .clearing }
    else none
  | .clear =>
    if c.owner = .clearing ∧ c.calling = false then
      some { c with connection := { c.connection with delegate := false }, owner := .posting }
    else none
  | .post =>
    if c.owner = .posting then
      some { c with connection := c.connection.postRunable .handleCleanUp, owner := .free, returned := true }
    else none
  | .start event =>
    if c.operations = [] ∧ c.calling = false then
      (handler literals request c.connection event).map fun started =>
        { c with connection := started.connection, operations := started.operations }
    else none
  | .next =>
    match c.operations with
    | operation :: rest =>
      if c.calling then none
      else
        some
          { c with
            connection := operation.run literals request c.connection
            operations := rest
            calling := operation.locks }
    | [] => none
  | .unlock => if c.calling then some { c with calling := false } else none

end Threads

variable {literals : Socks5.Literals} {request : NetConnectionRequest} {s t : State} {event : Event}
  {c d : Threads} {move : Move} {moves : List Move}

/-! ### A step of the connection is a run of the threads -/

theorem run_operations (free : c.calling = false) :
    ∃ moves, run (Threads.step literals request) c moves =
      some { c with
        connection := runAll literals request c.connection c.operations
        operations := [] } := by
  -- a callback also gives the mutex back before the next operation
  obtain ⟨connection, operations, calling, owner, returned⟩ := c
  subst free
  induction operations generalizing connection with
  | nil => exact ⟨[], rfl⟩
  | cons operation rest ih =>
    obtain ⟨moves, remaining⟩ := ih (operation.run literals request connection)
    cases locks : operation.locks with
    | false =>
      refine ⟨.next :: moves, run_cons.mpr ⟨_, ?_, remaining⟩⟩
      simp [Threads.step, locks]
    | true =>
      refine ⟨.next :: .unlock :: moves, run_cons.mpr ⟨_, rfl, run_cons.mpr ⟨_, ?_, remaining⟩⟩⟩
      simp [Threads.step, locks]

theorem step_threads (returned : Bool) (h : step literals request s event = some t) :
    ∃ moves returned',
    run (Threads.step literals request) { connection := s, returned := returned } moves =
      some { connection := t, returned := returned' } := by
  cases pump : event.ofOwner with
  | true =>
    cases event with
    | connect =>
      cases h
      exact ⟨[.connect], returned, rfl⟩
    | send buffer =>
      cases h
      exact ⟨[.send buffer], returned, rfl⟩
    | disConnect =>
      cases h
      unfold disConnect
      by_cases stoped : s.stoped = true
      · refine ⟨[.disConnect], true, ?_⟩
        simp [run, Threads.step, stoped]
      · refine ⟨[.disConnect, .clear, .post], true, ?_⟩
        simp [run, Threads.step, stoped]
    | _ => cases pump
  | false =>
    rw [step_handler pump] at h
    obtain ⟨started, taken, rfl⟩ := Option.map_eq_some_iff.mp h
    let begun : Threads := { connection := started.connection, operations := started.operations, returned := returned }
    have free : begun.calling = false := rfl
    obtain ⟨moves, finished⟩ := run_operations free
    refine ⟨.start event :: moves, returned, run_cons.mpr ⟨begun, ?_, finished⟩⟩
    simp [Threads.step, taken, begun]

/-- Every run of the connection is one of the threads in which no handler is interrupted. -/
theorem run_threads {events : List Event} (returned : Bool)
    (h : run (step literals request) s events = some t) :
    ∃ moves returned', run (Threads.step literals request)
      { connection := s, returned := returned } moves =
      some { connection := t, returned := returned' } := by
  have each : ∀ (c : Threads) (s : State) event t,
      (∃ returned, c = { connection := s, returned := returned }) →
      step literals request s event = some t → ∃ moves next, run (Threads.step literals request) c moves = some next ∧
        ∃ returned, next = { connection := t, returned := returned } := by
    rintro _ s event t ⟨returned, rfl⟩ h
    obtain ⟨moves, middle, begun⟩ := step_threads returned h
    exact ⟨moves, _, begun, middle, rfl⟩
  obtain ⟨moves, _, reached, last, rfl⟩ := run_simulates_run each ⟨returned, rfl⟩ h
  exact ⟨moves, last, reached⟩

/-! ### The delegate and the clean-up -/

/-- The owner's progress in `DisConnect` is what the connection shows of it: nobody is told any more
once the delegate is cleared, and the clean-up waits, runs or has run once it is posted. -/
structure Agrees (c : Threads) : Prop where
  counted : c.connection.cleanUps = c.connection.alreadyCleanUp.toNat
  silent : c.owner = .posting ∨ c.returned = true → c.connection.delegate = false
  stoped : c.connection.stoped = true → c.owner = .free → c.returned = true
  posted : c.returned = true → .handleCleanUp ∈ c.connection.tasks ∨ .handleCleanUp ∈ c.operations ∨
    c.connection.alreadyCleanUp = true

theorem initial_agrees : Agrees {} := ⟨rfl, by simp, nofun, nofun⟩

theorem send_stays (buffer : Bytes) :
    Internal s (s.send buffer) ∧ (s.send buffer).callbacks = s.callbacks := by
  unfold send
  split
  · exact ⟨internal_refl, rfl⟩
  · exact ⟨⟨rfl, rfl, fun _ member => List.mem_append_left _ member, id, id⟩, rfl⟩

theorem connect_stays : Internal s s.connect ∧ s.connect.callbacks = s.callbacks :=
  ⟨⟨rfl, rfl, fun _ member => List.mem_append_left _ member, id, id⟩, rfl⟩

/-- A call that only posts leaves the invariant alone. -/
theorem internal_agrees (agrees : Agrees c) (internal : Internal c.connection s) :
    Agrees { c with connection := s } where
  counted := internal.counted agrees.counted
  silent late := internal.delegate.trans (agrees.silent late)
  stoped last := agrees.stoped (internal.stoped.symm.trans last)
  posted returned := by
    rcases agrees.posted returned with waits | runs | clean
    · exact .inl (internal.tasks _ waits)
    · exact .inr (.inl runs)
    · exact .inr (.inr (internal.clean clean))

theorem start_agrees {started : Started} (agrees : Agrees c) (idle : c.operations = [])
    (takes : Takes c.connection started) :
    Agrees { c with connection := started.connection, operations := started.operations } where
  counted := by
    show started.connection.cleanUps = started.connection.alreadyCleanUp.toNat
    rw [takes.cleanUps, takes.clean]
    exact agrees.counted
  silent late := takes.delegate.trans (agrees.silent late)
  stoped last := agrees.stoped (takes.stoped.symm.trans last)
  posted returned := by
    rcases agrees.posted returned with waits | runs | clean
    · rcases takes.tasks waits with still | now
      · exact .inl still
      · exact .inr (.inl now)
    · rw [idle] at runs
      cases runs
    · exact .inr (.inr (takes.clean.trans clean))

theorem next_agrees {operation : Operation} {rest : List Operation} {calling : Bool}
    (agrees : Agrees c) (operations : c.operations = operation :: rest) :
    Agrees { c with
      connection := operation.run literals request c.connection
      operations := rest
      calling := calling } := by
  have internal : Internal c.connection (operation.run literals request c.connection) :=
    operation_internal operation
  have kept := internal_agrees agrees internal
  refine ⟨kept.counted, kept.silent, kept.stoped, ?_⟩
  intro returned
  rcases kept.posted returned with waits | runs | clean
  · exact .inl waits
  · replace runs : .handleCleanUp ∈ c.operations := runs
    rw [operations] at runs
    rcases List.mem_cons.mp runs with rfl | later
    · exact .inr (.inr handleCleanUp_alreadyCleanUp)
    · exact .inr (.inl later)
  · exact .inr (.inr clean)

theorem step_agrees (agrees : Agrees c) (h : c.step literals request move = some d) : Agrees d := by
  cases move with
  | connect =>
    simp only [Threads.step] at h
    split at h <;> cases h
    exact internal_agrees agrees connect_stays.1
  | send buffer =>
    simp only [Threads.step] at h
    split at h <;> cases h
    exact internal_agrees agrees (send_stays buffer).1
  | disConnect =>
    simp only [Threads.step] at h
    split at h
    · rename_i free
      split at h <;> cases h
      · rename_i stoped
        have returned := agrees.stoped stoped free
        exact ⟨agrees.counted, fun _ => agrees.silent (.inr returned), fun _ _ => rfl,
          fun _ => agrees.posted returned⟩
      · refine ⟨agrees.counted, ?_, nofun, agrees.posted⟩
        rintro (posting | returned)
        · cases posting
        · exact agrees.silent (.inr returned)
    · cases h
  | clear =>
    simp only [Threads.step] at h
    split at h <;> cases h
    exact ⟨agrees.counted, fun _ => rfl, nofun, agrees.posted⟩
  | post =>
    simp only [Threads.step] at h
    split at h <;> cases h
    rename_i posting
    exact ⟨agrees.counted, fun _ => agrees.silent (.inl posting), fun _ _ => rfl,
      fun _ => .inl (List.mem_append_right _ (List.mem_singleton.mpr rfl))⟩
  | start event =>
    simp only [Threads.step] at h
    split at h
    · rename_i idle
      obtain ⟨started, taken, rfl⟩ := Option.map_eq_some_iff.mp h
      exact start_agrees agrees idle.1 (handler_takes taken)
    · cases h
  | next =>
    simp only [Threads.step] at h
    split at h
    · rename_i operation rest operations
      split at h <;> cases h
      exact next_agrees agrees operations
    · cases h
  | unlock =>
    simp only [Threads.step] at h
    split at h <;> cases h
    exact ⟨agrees.counted, agrees.silent, agrees.stoped, agrees.posted⟩

/-! ### After `DisConnect` -/

theorem runTask_callbacks (task : Task) : (s.runTask request task).callbacks = s.callbacks := by
  cases task with
  | doDnsResolve => rfl
  | doResolver k =>
    simp only [runTask]
    split <;> rfl
  | doCancel k => rfl
  | doSendFromQueue buffer =>
    simp only [runTask, doSendFromQueue]
    split <;> rfl
  | handleCleanUp => exact handleCleanUp_callbacks

theorem operation_silent (silent : s.delegate = false) (operation : Operation) :
    (operation.run literals request s).callbacks = s.callbacks := by
  cases operation with
  | tell callback => exact congrArg State.callbacks (notify_silent silent callback)
  | handleCleanUp => exact handleCleanUp_callbacks
  | cancelResolver =>
    show s.cancelResolver.callbacks = s.callbacks
    rw [cancelResolver_eq]
  | sendNext =>
    simp only [Operation.run, notifySendComplete, ne_eq, not_true_eq_false, if_false]
    split <;> rfl
  | runTask task => exact runTask_callbacks task
  | _ => rfl

theorem step_returned (agrees : Agrees c) (returned : c.returned = true)
    (h : c.step literals request move = some d) :
    d.returned = true ∧ d.connection.callbacks = c.connection.callbacks := by
  have silent := agrees.silent (.inr returned)
  cases move with
  | connect =>
    simp only [Threads.step] at h
    split at h <;> cases h
    exact ⟨returned, rfl⟩
  | send buffer =>
    simp only [Threads.step] at h
    split at h <;> cases h
    exact ⟨returned, (send_stays buffer).2⟩
  | disConnect =>
    simp only [Threads.step] at h
    split at h
    · split at h <;> cases h
      · exact ⟨rfl, rfl⟩
      · exact ⟨returned, rfl⟩
    · cases h
  | start event =>
    simp only [Threads.step] at h
    split at h
    · obtain ⟨started, taken, rfl⟩ := Option.map_eq_some_iff.mp h
      exact ⟨returned, (handler_takes taken).callbacks⟩
    · cases h
  | next =>
    simp only [Threads.step] at h
    split at h
    · split at h <;> cases h
      exact ⟨returned, operation_silent silent _⟩
    · cases h
  | post =>
    simp only [Threads.step] at h
    split at h <;> cases h
    exact ⟨rfl, rfl⟩
  | _ =>
    simp only [Threads.step] at h
    split at h <;> cases h
    exact ⟨returned, rfl⟩

theorem run_returned (agrees : Agrees c) (returned : c.returned = true)
    (h : run (Threads.step literals request) c moves = some d) :
    d.connection.callbacks = c.connection.callbacks := by
  induction moves generalizing c with
  | nil => cases h; rfl
  | cons move rest ih =>
    obtain ⟨middle, first, remaining⟩ := run_cons.mp h
    obtain ⟨still, same⟩ := step_returned agrees returned first
    exact (ih (step_agrees agrees first) still remaining).trans same

theorem run_agrees (h : run (Threads.step literals request) {} moves = some c) : Agrees c :=
  run_keeps (fun _ _ _ => step_agrees) initial_agrees h

/-- No callback begins after a `DisConnect` has returned, and the connection is cleaned up at most
once, exactly once when the posted clean-up is neither waiting nor running. -/
theorem disConnect_final {before after : List Move}
    (reached : run (Threads.step literals request) {} before = some c)
    (h : run (Threads.step literals request) c after = some d) :
    (c.returned = true → d.connection.callbacks = c.connection.callbacks) ∧
      d.connection.cleanUps ≤ 1 ∧
      (d.returned = true → .handleCleanUp ∉ d.connection.tasks → .handleCleanUp ∉ d.operations →
        d.connection.cleanUps = 1) := by
  have whole : run (Threads.step literals request) {} (before ++ after) = some d :=
    run_append.mpr ⟨c, reached, h⟩
  have agrees := run_agrees whole
  refine ⟨fun returned => run_returned (run_agrees reached) returned h, ?_, ?_⟩
  · rw [agrees.counted]
    exact Bool.toNat_le _
  · intro returned waits runs
    rcases agrees.posted returned with still | now | clean
    · exact absurd still waits
    · exact absurd now runs
    · rw [agrees.counted, clean]
      rfl

/-- The owner disconnects while its delegate hears `OnConnect`, and has to wait for the end of the
callback. -/
def disconnectsInCallback : List Move :=
  [.connect, .start .run, .next, .start .run, .next, .start (.resolved 0 0), .next, .next, .start (.connected 0), .next,
    .disConnect, .unlock, .next, .clear, .post]

/-- Then data arrives, and the clean-up runs. -/
def readsAfterwards : List Move :=
  [.start (.read 0 [7]), .next, .unlock, .next, .start .run, .next, .start .run, .next]

theorem disConnect_inCallback :
    ∃ c d, run (Threads.step Socks5.noLiterals plainRequest) {} disconnectsInCallback = some c ∧
      run (Threads.step Socks5.noLiterals plainRequest) c readsAfterwards = some d ∧
      c.connection.callbacks = [.onConnect 0] ∧
      d.connection.callbacks = c.connection.callbacks ∧ d.connection.cleanUps = 1 := by
  have runs : ∃ c d,
      run (Threads.step Socks5.noLiterals plainRequest) {} disconnectsInCallback = some c ∧
      run (Threads.step Socks5.noLiterals plainRequest) c readsAfterwards = some d ∧
      c.connection.callbacks = [.onConnect 0] ∧
      c.returned = true ∧ d.returned = true ∧ .handleCleanUp ∉ d.connection.tasks ∧ .handleCleanUp ∉ d.operations :=
    ⟨_, _, rfl, rfl, rfl, rfl, rfl, by decide, by decide⟩
  obtain ⟨c, d, first, second, callbacks, returned, still, waits, running⟩ := runs
  obtain ⟨same, _, clean⟩ := disConnect_final first second
  exact ⟨c, d, first, second, callbacks, same returned, clean still waits running⟩

end Kingkong.Connection
