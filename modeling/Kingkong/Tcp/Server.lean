import Kingkong.Lib.Run

/-!
`TcpServerImpl`. The handlers of `async_accept` and the task that `StopListen` posts run on the IO
pump, one at a time. `StartListen` and `StopListen` are called on any thread and in any number. The
delegate records its callbacks and calls nothing, so a callback ends by itself.
-/

namespace Kingkong.Tcp
open Lib

/-- The arguments of an accept handler. `ec` is an error unless its value is 0. -/
structure Completion (Socket : Type) where
  value : Int
  message : String
  socket : Socket

inductive Callback (Socket : Type) where
  | onListen (code : Int) (message : String)
  | onNewConnection (socket : Socket)

variable {Socket : Type}

/-- The callback that `NotifyClient` makes. -/
def Completion.callback (c : Completion Socket) : Callback Socket :=
  if c.value ≠ 0 then .onListen c.value c.message else .onNewConnection c.socket

/-- The IO thread: between tasks, in `NotifyClient` before its lock, or in a callback of the
delegate and so inside of the lock. -/
inductive Io (Socket : Type) where
  | idle
  | notify (completion : Completion Socket)
  | calling

/-- `outstanding` counts the accepts that have not completed. `waiting`, `posting` and `returned`
count the calls of `StopListen` that wait for the lock, have reset the delegate, and have returned.
`started` counts the calls of `StartListen`, and `callbacks` are in the order in which they
began. -/
structure Server (Socket : Type) where
  outstanding : Nat := 0
  io : Io Socket := .idle
  delegate : Bool := true
  closed : Bool := false
  posted : Nat := 0
  waiting : Nat := 0
  posting : Nat := 0
  returned : Nat := 0
  started : Nat := 0
  callbacks : List (Callback Socket) := []

namespace Server

inductive Event (Socket : Type) where
  | startListen
  | accepted (completion : Completion Socket)
  | notifyClient
  | unlock
  | stopListen
  | reset
  | post
  | cleanup

/-- The section in which `StopListen` resets the delegate and a callback exclude each other. -/
def step (s : Server Socket) : Event Socket → Option (Server Socket)
  | .startListen => some { s with outstanding := s.outstanding + 1, started := s.started + 1 }
  | .accepted completion =>
    match s.io with
    | .idle =>
      if 0 < s.outstanding then some { s with outstanding := s.outstanding - 1, io := .notify completion } else none
    | _ => none
  | .notifyClient =>
    match s.io with
    | .notify completion =>
      if s.delegate then some { s with io := .calling, callbacks := s.callbacks ++ [completion.callback] }
      else some { s with io := .idle }
    | _ => none
  | .unlock =>
    match s.io with
    | .calling => some { s with io := .idle }
    | _ => none
  | .stopListen => some { s with waiting := s.waiting + 1 }
  | .reset =>
    match s.io with
    | .calling => none
    | _ =>
      if 0 < s.waiting then some { s with delegate := false, waiting := s.waiting - 1, posting := s.posting + 1 }
      else none
  | .post =>
    if 0 < s.posting then
      some { s with posting := s.posting - 1, returned := s.returned + 1, posted := s.posted + 1 }
    else none
  | .cleanup =>
    match s.io with
    | .idle => if 0 < s.posted then some { s with posted := s.posted - 1, closed := true } else none
    | _ => none

/-- `StopListen` has been called. -/
def Stopped (s : Server Socket) : Prop := 0 < s.waiting + s.posting + s.returned

/-- A server that has been started and not stopped has one accept outstanding. -/
def Listening (s : Server Socket) : Prop := 0 < s.started → ¬ s.Stopped → s.outstanding = 1

/-- Before `StopListen`, the server is started once and no accept completes. -/
def Untouched (s : Server Socket) : Event Socket → Prop
  | .startListen => s.Stopped ∨ s.started = 0
  | .accepted _ => s.Stopped
  | _ => True

instance (s : Server Socket) : Decidable s.Stopped := inferInstanceAs (Decidable (_ < _))

instance (s : Server Socket) (event : Event Socket) : Decidable (s.Untouched event) :=
  match event with
  | .startListen => inferInstanceAs (Decidable (_ ∨ _))
  | .accepted _ => inferInstanceAs (Decidable s.Stopped)
  | .notifyClient | .unlock | .stopListen | .reset | .post | .cleanup => inferInstanceAs (Decidable True)

variable {s t : Server Socket} {event : Event Socket} {events : List (Event Socket)}

/-- What a step can do. -/
inductive Took (s : Server Socket) : Event Socket → Server Socket → Prop where
  | startListen : Took s .startListen { s with outstanding := s.outstanding + 1, started := s.started + 1 }
  | accepted (completion : Completion Socket) (idle : s.io = .idle) (some : 0 < s.outstanding) :
      Took s (.accepted completion) { s with outstanding := s.outstanding - 1, io := .notify completion }
  | called (completion : Completion Socket) (io : s.io = .notify completion) (present : s.delegate = true) :
      Took s .notifyClient { s with io := .calling, callbacks := s.callbacks ++ [completion.callback] }
  | dropped (completion : Completion Socket) (io : s.io = .notify completion) (absent : s.delegate = false) :
      Took s .notifyClient { s with io := .idle }
  | unlock (calling : s.io = .calling) : Took s .unlock { s with io := .idle }
  | stopListen : Took s .stopListen { s with waiting := s.waiting + 1 }
  | reset (free : s.io ≠ .calling) (some : 0 < s.waiting) :
      Took s .reset { s with delegate := false, waiting := s.waiting - 1, posting := s.posting + 1 }
  | post (some : 0 < s.posting) :
      Took s .post { s with posting := s.posting - 1, returned := s.returned + 1, posted := s.posted + 1 }
  | cleanup (idle : s.io = .idle) (some : 0 < s.posted) :
      Took s .cleanup { s with posted := s.posted - 1, closed := true }

theorem step_took (h : s.step event = some t) : Took s event t := by
  cases event with
  | startListen => cases h; exact .startListen
  | accepted completion =>
    simp only [step] at h
    split at h
    · obtain ⟨some, same⟩ := Option.ite_none_right_eq_some.mp h
      cases same
      exact .accepted completion ‹_› some
    · cases h
  | notifyClient =>
    simp only [step] at h
    split at h
    · split at h <;> cases h
      · exact .called _ ‹_› ‹_›
      · exact .dropped _ ‹_› (Bool.of_not_eq_true ‹_›)
    · cases h
  | unlock =>
    simp only [step] at h
    split at h <;> cases h
    exact .unlock ‹_›
  | stopListen => cases h; exact .stopListen
  | reset =>
    simp only [step] at h
    split at h
    · cases h
    · obtain ⟨some, same⟩ := Option.ite_none_right_eq_some.mp h
      cases same
      exact .reset ‹_› some
  | post =>
    obtain ⟨some, same⟩ := Option.ite_none_right_eq_some.mp h
    cases same
    exact .post some
  | cleanup =>
    simp only [step] at h
    split at h
    · obtain ⟨some, same⟩ := Option.ite_none_right_eq_some.mp h
      cases same
      exact .cleanup ‹_› some
    · cases h

/-! ### What the delegate is told -/

def Event.completions : Event Socket → List (Completion Socket)
  | .accepted completion => [completion]
  | .startListen | .notifyClient | .unlock | .stopListen | .reset | .post | .cleanup => []

/-- The handler that has not looked at the delegate yet. -/
def pending (s : Server Socket) : List (Completion Socket) :=
  match s.io with
  | .notify completion => [completion]
  | _ => []

/-- `completions` are those of the run so far. Only `StartListen` starts an accept, and the delegate
is told of the completions in order, of all of them as long as it is set. -/
structure Recorded (completions : List (Completion Socket)) (s : Server Socket) : Prop where
  accepts : completions.length + s.outstanding = s.started
  told : s.callbacks <+: completions.map Completion.callback
  toldAll : s.delegate = true → s.callbacks ++ s.pending.map Completion.callback = completions.map Completion.callback

theorem step_recorded {completions : List (Completion Socket)} (recorded : Recorded completions s)
    (h : s.step event = some t) : Recorded (completions ++ event.completions) t := by
  obtain ⟨accepts, told, toldAll⟩ := recorded
  cases step_took h with
  | startListen =>
    rw [Event.completions, List.append_nil]
    refine ⟨?_, told, toldAll⟩
    simp only
    omega
  | accepted completion idle some =>
    rw [Event.completions]
    refine ⟨?_, ?_, ?_⟩
    · simp only [List.length_append, List.length_singleton]
      omega
    · rw [List.map_append]
      exact told.trans (List.prefix_append _ _)
    · intro present
      have before := toldAll present
      simp only [pending, idle, List.map_nil, List.append_nil] at before
      simp only [pending, List.map_append, before]
  | called completion io present =>
    rw [Event.completions, List.append_nil]
    have before := toldAll present
    simp only [pending, io, List.map_cons, List.map_nil] at before
    refine ⟨accepts, ?_, ?_⟩
    · exact before ▸ List.prefix_rfl
    · intro _
      simpa [pending] using before
  | dropped completion io absent =>
    rw [Event.completions, List.append_nil]
    exact ⟨accepts, told, fun present => absurd (absent.symm.trans present) nofun⟩
  | unlock calling =>
    rw [Event.completions, List.append_nil]
    refine ⟨accepts, told, fun present => ?_⟩
    have before := toldAll present
    simpa only [pending, calling] using before
  | reset _ _ =>
    rw [Event.completions, List.append_nil]
    exact ⟨accepts, told, nofun⟩
  | _ =>
    rw [Event.completions, List.append_nil]
    exact ⟨accepts, told, toldAll⟩

theorem run_recorded (h : run step {} events = some t) :
    Recorded (events.flatMap Event.completions) t := by
  refine run_reads (R := fun events s => Recorded (events.flatMap Event.completions) s) ?_ ?_ h
  · intro before s event t recorded h
    rw [List.flatMap_append, List.flatMap_singleton]
    exact step_recorded recorded h
  · exact ⟨rfl, List.prefix_rfl, fun _ => rfl⟩

/-- The delegate hears of one accept at most for each call of `StartListen`. -/
theorem callbacks_le_started (h : run step {} events = some t) :
    t.callbacks.length ≤ t.started := by
  obtain ⟨accepts, told, _⟩ := run_recorded h
  have := told.length_le
  rw [List.length_map] at this
  omega

/-! ### Stopping -/

/-- A call of `StopListen` that has been through its lock has left no callback behind. -/
def Detached (s : Server Socket) : Prop :=
  0 < s.posting + s.returned → s.delegate = false ∧ s.io ≠ .calling

theorem step_detached (detached : Detached s) (h : s.step event = some t) : Detached t := by
  intro through
  cases step_took h with
  | accepted _ _ _ => exact ⟨(detached through).1, nofun⟩
  | called _ _ present => exact absurd ((detached through).1.symm.trans present) nofun
  | dropped _ _ absent => exact ⟨absent, nofun⟩
  | unlock _ => exact ⟨(detached through).1, nofun⟩
  | reset free _ => exact ⟨rfl, free⟩
  | post some => exact detached (by omega)
  | _ => exact detached through

theorem run_detached (h : run step {} events = some t) : Detached t := by
  have start : Detached ({} : Server Socket) := fun through => absurd through (Nat.lt_irrefl 0)
  exact run_keeps (fun _ _ _ => step_detached) start h

/-- Without a delegate there are no callbacks, and it is never set again. -/
theorem step_silent (absent : s.delegate = false) (h : s.step event = some t) :
    t.delegate = false ∧ t.callbacks = s.callbacks := by
  cases step_took h with
  | called _ _ present => exact absurd (absent.symm.trans present) nofun
  | reset _ _ => exact ⟨rfl, rfl⟩
  | _ => exact ⟨absent, rfl⟩

theorem run_silent (absent : s.delegate = false) (h : run step s events = some t) :
    t.callbacks = s.callbacks := by
  have both : t.delegate = false ∧ t.callbacks = s.callbacks := by
    refine run_keeps (I := fun t => t.delegate = false ∧ t.callbacks = s.callbacks) ?_
      ⟨absent, rfl⟩ h
    intro t event u silent h
    obtain ⟨absent, same⟩ := step_silent silent.1 h
    exact ⟨absent, same.trans silent.2⟩
  exact both.2

theorem step_stopped (stopped : s.Stopped) (h : s.step event = some t) : t.Stopped := by
  unfold Stopped at *
  cases step_took h <;> simp only <;> omega

/-! ### Listening -/

/-- An accept is outstanding only after a start. -/
def Started (s : Server Socket) : Prop := s.outstanding ≤ s.started

theorem step_started (started : Started s) (h : s.step event = some t) : Started t := by
  unfold Started at *
  cases step_took h <;> simp only <;> omega

theorem step_listening (started : Started s) (listening : Listening s) (h : s.step event = some t) :
    Listening t ↔ s.Untouched event := by
  by_cases stopped : s.Stopped
  · have after := step_stopped stopped h
    refine ⟨fun _ => ?_, fun _ _ running => absurd after running⟩
    cases event with
    | startListen => exact .inl stopped
    | accepted _ => exact stopped
    | _ => trivial
  · unfold Started Listening Stopped at *
    cases step_took h with
    | startListen => simp only [Untouched, Stopped]; omega
    | accepted _ _ some => simp only [Untouched, Stopped]; omega
    | stopListen =>
      refine ⟨fun _ => trivial, fun _ _ running => ?_⟩
      simp only at running
      omega
    | reset _ some => omega
    | post some => omega
    | _ => exact ⟨fun _ => trivial, fun _ => listening⟩

/-- The server keeps one accept outstanding exactly when it is started once and nothing is accepted
until `StopListen` is called. After `StopListen` has returned, no callback begins and none is still
running. -/
theorem listening_iff_untouched (h : run step {} events = some t) :
    (Always step Listening {} events ↔ EachStep step Untouched {} events) ∧
      ∀ before after s, events = before ++ after → run step {} before = some s → 0 < s.returned →
        s.io ≠ .calling ∧ t.callbacks = s.callbacks := by
  constructor
  · refine always_iff_eachStep (I := fun s => Started s ∧ Listening s) (fun _ both => both.2) ?_ ?_ ?_ h
    · intro s event t both untouched h
      exact ⟨step_started both.1 h, (step_listening both.1 both.2 h).mpr untouched⟩
    · intro s event t both touched h listening
      exact touched ((step_listening both.1 both.2 h).mp listening)
    · exact ⟨Nat.le_refl 0, fun started => absurd started (Nat.lt_irrefl 0)⟩
  · intro before after s split reached returned
    subst split
    obtain ⟨middle, first, rest⟩ := run_append.mp h
    cases first.symm.trans reached
    obtain ⟨absent, free⟩ := run_detached reached (by omega)
    exact ⟨free, run_silent absent rest⟩

/-- An accept that completes between the call of `StopListen` and its lock still reaches the
delegate, and one that `Cleanup` cancels does not. -/
def stopsInTime : List (Event Nat) :=
  [.startListen, .stopListen, .accepted ⟨0, "Success", 7⟩, .notifyClient, .unlock, .startListen, .reset, .post,
    .cleanup, .accepted ⟨125, "Operation canceled", 8⟩, .notifyClient]

theorem listening_stopsInTime :
    ∃ t, run step {} stopsInTime = some t ∧ Always step Listening {} stopsInTime ∧
      t.callbacks = [.onNewConnection 7] := by
  have untouched : EachStep step Untouched {} stopsInTime := eachStep_of_meets (by decide)
  exact ⟨_, rfl, (listening_iff_untouched rfl).1.mpr untouched, rfl⟩

/-- One connection, told to the delegate. -/
def oneConnection : List (Event Nat) :=
  [.startListen, .accepted ⟨0, "Success", 7⟩, .notifyClient, .unlock]

/-- After it nothing is outstanding, and nothing can be accepted. -/
theorem listening_ends :
    ∃ t, run step {} oneConnection = some t ∧ t.callbacks = [.onNewConnection 7] ∧
      t.delegate = true ∧ ¬ t.Stopped ∧
      ¬ Listening t ∧ ∀ completion, t.step (.accepted completion) = none := by
  refine ⟨_, rfl, rfl, rfl, by decide, ?_, fun _ => rfl⟩
  intro listening
  exact absurd (listening (by decide) (by decide)) (by decide)

end Server

end Kingkong.Tcp
