import Kingkong.Pump.Step

/-!
`MessagePumpWin`: the pump of the UI thread, driven by a window. A custom message or the timer of
the window runs `DoOneWork`, which wakes the pump again before it calls the task. A task may show a
modal dialog, whose own message loop dispatches further messages while the task is on the stack.
-/

namespace Kingkong.Pump
open Lib State

variable {R : Type}

/-- The elapse of `SetTimer` is a `UINT`. -/
def elapseBound : Nat := 2 ^ 32

/-- `messages` counts the queued `MESSAGE_PUMP_CUSTOM`, `timer` is when the timer of the window goes
off, and `running` has the tasks on the stack of the UI thread, the innermost one first. The UI
thread is the worker 0 of the pump. -/
structure Win (R : Type) where
  pump : State R
  messages : Nat := 0
  timer : Option Nat := none
  running : List (RunnableInfo R) := []

namespace Win

/-- `SetTimer` replaces the timer with the same id. -/
def wakeup (s : Win R) (expired : Nat) : Win R :=
  if s.pump.now < expired then { s with timer := some (s.pump.now + (expired - s.pump.now) % elapseBound) }
  else { s with messages := s.messages + 1 }

/-- `PostRunable` on any thread. `late` is what the tick counter gains between its two readings, by
`PostRunable` and by `Wakeup`. -/
def postRunable (s : Win R) (c delay : Nat) (runnable : R) (late : Nat) : Option (Win R) :=
  (run Pump.step s.pump [.enter c delay runnable, .tick late, .insert c]).bind fun inserted =>
    match inserted.calls c with
    | .inserted tick delay _ wakeup =>
      (Pump.step inserted (.leave c)).map fun pump =>
        if wakeup then { s with pump := pump }.wakeup (expiredTime tick delay) else { s with pump := pump }
    | _ => none

/-- `DoOneWork` up to the call of the task that it takes. -/
def doOneWork (s : Win R) (late : Nat) : Option (Win R) :=
  (run Pump.step s.pump [.doOneWork 0, .tick late, .takeOne 0]).map fun pump =>
    match pump.runableSet.first? with
    | some first => { s with pump := pump }.wakeup first.expiredTime
    | none => { s with pump := pump }

inductive Event (R : Type) where
  | tick (elapsed : Nat)
  | post (c delay : Nat) (runnable : R) (late : Nat)
  | cancel (id : Nat)
  | custom (late : Nat)
  | timer (late : Nat)
  | start
  | finish

/-- `custom` and `timer` are `WndProcThunk` and `WndTimerProcThunk`. The outermost loop of the UI
thread or a modal one inside a task calls them, so they only need that the thread is not about to
call a task. -/
def step (s : Win R) : Event R → Option (Win R)
  | .tick elapsed => (Pump.step s.pump (.tick elapsed)).map fun pump => { s with pump := pump }
  | .post c delay runnable late => s.postRunable c delay runnable late
  | .cancel x => (Pump.step s.pump (.cancel x)).map fun pump => { s with pump := pump }
  | .custom late => if 0 < s.messages then { s with messages := s.messages - 1 }.doOneWork late else none
  -- `KillTimer` comes first. It also kills a timer that was set again after this `WM_TIMER` had been generated.
  | .timer late => { s with timer := none }.doOneWork late
  | .start =>
    match s.pump.workers 0 with
    | .took task => (Pump.step s.pump (.start 0)).map fun pump => { s with pump := pump, running := task :: s.running }
    | _ => none
  | .finish =>
    match s.pump.workers 0, s.running with
    | .idle, _ :: rest => some { s with running := rest }
    | _, _ => none

def initial (R : Type) : Win R := { pump := Pump.initial R 1 }

end Win

variable {s t : Win R} {event : Win.Event R} {events : List (Win.Event R)}

@[simp] theorem winWakeup_pump (expired : Nat) : (s.wakeup expired).pump = s.pump := by
  unfold Win.wakeup
  split <;> rfl

theorem winPost_cases {c delay late : Nat} {runnable : R}
    (h : s.postRunable c delay runnable late = some t) :
    ∃ inserted tick delay' id wakeup pump,
      run step s.pump [.enter c delay runnable, .tick late, .insert c] = some inserted ∧
      inserted.calls c = .inserted tick delay' id wakeup ∧ step inserted (.leave c) = some pump ∧
      t = if wakeup then { s with pump := pump }.wakeup (expiredTime tick delay')
        else { s with pump := pump } := by
  obtain ⟨inserted, posted, h⟩ := Option.bind_eq_some_iff.mp h
  split at h
  · rename_i tick delay' id wakeup call
    obtain ⟨pump, left, same⟩ := Option.map_eq_some_iff.mp h
    exact ⟨inserted, tick, delay', id, wakeup, pump, posted, call, left, same.symm⟩
  · cases h

theorem winDoOneWork_cases {late : Nat} (h : s.doOneWork late = some t) :
    ∃ pump, run step s.pump [.doOneWork 0, .tick late, .takeOne 0] = some pump ∧
      t = match pump.runableSet.first? with
        | some first => { s with pump := pump }.wakeup first.expiredTime
        | none => { s with pump := pump } := by
  obtain ⟨pump, worked, same⟩ := Option.map_eq_some_iff.mp h
  exact ⟨pump, worked, same.symm⟩

/-- What the UI pump does is what a pump with one worker does. -/
theorem win_pump (h : s.step event = some t) : ∃ events, run step s.pump events = some t.pump := by
  cases event with
  | tick elapsed => cases h; exact ⟨[.tick elapsed], rfl⟩
  | cancel id => cases h; exact ⟨[.cancel id], rfl⟩
  | post c delay runnable late =>
    obtain ⟨inserted, tick, delay', id, wakeup, pump, posted, _, left, rfl⟩ := winPost_cases h
    refine ⟨[.enter c delay runnable, .tick late, .insert c] ++ [.leave c],
      run_append.mpr ⟨inserted, posted, run_cons.mpr ⟨pump, left, ?_⟩⟩⟩
    cases wakeup <;> simp [run]
  | custom late =>
    obtain ⟨_, h⟩ := Option.ite_none_right_eq_some.mp h
    obtain ⟨pump, worked, rfl⟩ := winDoOneWork_cases h
    refine ⟨_, worked.trans (congrArg some ?_)⟩
    split <;> simp
  | timer late =>
    obtain ⟨pump, worked, rfl⟩ := winDoOneWork_cases h
    refine ⟨_, worked.trans (congrArg some ?_)⟩
    split <;> simp
  | start =>
    simp only [Win.step] at h
    split at h
    · obtain ⟨pump, started, rfl⟩ := Option.map_eq_some_iff.mp h
      exact ⟨[_], run_cons.mpr ⟨pump, started, rfl⟩⟩
    · cases h
  | finish =>
    simp only [Win.step] at h
    split at h <;> cases h
    exact ⟨[], rfl⟩

theorem run_win_pump (h : run Win.step s events = some t) :
    ∃ events, run step s.pump events = some t.pump := by
  have each : ∀ (pump : State R) (s : Win R) event t, pump = s.pump → s.step event = some t →
      ∃ moves next, run step pump moves = some next ∧ next = t.pump := by
    rintro _ s event t rfl h
    obtain ⟨moves, reached⟩ := win_pump h
    exact ⟨moves, t.pump, reached, rfl⟩
  obtain ⟨moves, _, reached, rfl⟩ := run_simulates_run each rfl h
  exact ⟨moves, reached⟩

/-! ### The pump never goes deaf -/

/-- A custom message is queued, or the timer goes off by `deadline`. -/
def Alert (s : Win R) (deadline : Nat) : Prop :=
  0 < s.messages ∨ ∃ e, s.timer = some e ∧ e ≤ deadline

def Awake (s : Win R) : Prop :=
  ∀ first, s.pump.runableSet.first? = some first → Alert s first.expiredTime

theorem wakeup_alert {expired deadline : Nat} (early : expired ≤ deadline) :
    Alert (s.wakeup expired) deadline := by
  unfold Win.wakeup
  split
  · rename_i later
    refine Or.inr ⟨_, rfl, ?_⟩
    -- The truncated elapse can only be too short.
    have short := Nat.mod_le (expired - s.pump.now) elapseBound
    omega
  · exact Or.inl (Nat.succ_pos _)

theorem alert_later {deadline later : Nat} (alert : Alert s deadline) (order : deadline ≤ later) :
    Alert s later := by
  rcases alert with queued | ⟨e, timer, early⟩
  · exact Or.inl queued
  · exact Or.inr ⟨e, timer, Nat.le_trans early order⟩

/-- As long as nothing is posted, the first task only gets later. -/
theorem frame_awake {e : Event R} {pump : State R} (awake : Awake s) (other : ∀ c, e ≠ .insert c)
    (h : step s.pump e = some pump) : Awake { s with pump := pump } := by
  intro first found
  obtain ⟨before, head, order⟩ := step_first h other found
  exact alert_later (awake before head) order

theorem doOneWork_awake {late : Nat} (h : s.doOneWork late = some t) : Awake t := by
  obtain ⟨pump, _, rfl⟩ := winDoOneWork_cases h
  intro first found
  split at found
  · rename_i head present
    rw [winWakeup_pump] at found
    cases present.symm.trans found
    exact wakeup_alert (Nat.le_refl _)
  · rename_i empty
    cases empty.symm.trans found

theorem post_awake {c delay late : Nat} {runnable : R} (awake : Awake s)
    (h : s.postRunable c delay runnable late = some t) : Awake t := by
  obtain ⟨inserted, tick, delay', id, wakeup, pump, posted, call, left, rfl⟩ := winPost_cases h
  obtain ⟨entered, enters, posted⟩ := run_cons.mp posted
  obtain ⟨ticked, ticks, posted⟩ := run_cons.mp posted
  obtain ⟨_, inserts, same⟩ := run_cons.mp posted
  cases same
  have before : Awake { s with pump := ticked } :=
    frame_awake (s := { s with pump := entered }) (frame_awake awake (by simp) enters) (by simp) ticks
  obtain ⟨tick', delay'', runnable', waiting, rfl⟩ := insert_cases inserts
  obtain ⟨_, _, _, _, _, rfl⟩ := leave_cases left
  have answer : tick' = tick ∧ delay'' = delay' ∧ ticked.wakesUp (expiredTime tick' delay'') =
      wakeup := by
    simp only [setCall, Function.update_self, Call.inserted.injEq] at call
    exact ⟨call.1, call.2.1, call.2.2.2⟩
  obtain ⟨rfl, rfl, rfl⟩ := answer
  intro first found
  have placed : (ticked.runableSet.insert ⟨expiredTime tick' delay'', runnable',
      (ticked.id + 1) % wordBound⟩).first? =
      some first := by
    split at found
    · rw [winWakeup_pump] at found; exact found
    · exact found
  rcases first_of_insert placed with ⟨wakes, early⟩ | ⟨head, present, order⟩
  · rw [if_pos wakes]
    exact wakeup_alert early
  · split
    · rename_i wakes
      have early : expiredTime tick' delay'' ≤ first.expiredTime := by
        simp only [wakesUp, present, decide_eq_true_eq] at wakes
        omega
      exact wakeup_alert early
    · exact alert_later (before head present) order

theorem win_awake (awake : Awake s) (h : s.step event = some t) : Awake t := by
  cases event with
  | tick elapsed => cases h; exact frame_awake (e := .tick elapsed) awake (by simp) rfl
  | post c delay runnable late => exact post_awake awake h
  | cancel id => cases h; exact frame_awake (e := .cancel id) awake (by simp) rfl
  | custom late =>
    obtain ⟨_, h⟩ := Option.ite_none_right_eq_some.mp h
    exact doOneWork_awake h
  | timer late => exact doOneWork_awake h
  | start =>
    simp only [Win.step] at h
    split at h
    · obtain ⟨pump, started, rfl⟩ := Option.map_eq_some_iff.mp h
      exact frame_awake awake (by simp) started
    · cases h
  | finish =>
    simp only [Win.step] at h
    split at h <;> cases h
    exact awake

/-- At every moment, also inside the tasks of nested modal loops, a task in the set has a message on
the way or a timer that goes off in time. -/
theorem never_deaf (events : List (Win.Event R)) :
    Always Win.step Awake (Win.initial R) events := by
  intro before after s _ reached
  refine run_keeps (I := Awake) (fun s event t awake h => win_awake awake h) ?_ reached
  intro first found
  cases found

/-- The first task runs a modal loop, which dispatches the message of the second one. -/
example :
    ((run Win.step (Win.initial Unit) [.post 0 0 () 0, .post 1 0 () 3, .custom 0, .start, .custom 0,
      .start]).map
    fun s => (s.running.map RunnableInfo.id, s.messages)) = some ([2, 1], 0) := by
  decide

end Kingkong.Pump
