import Kingkong.Pump.Conservation

/-!
`MessagePumpDefatlt`: the pump driven by an `io_service` with one timer. `Wakeup` either replaces
what the timer waits for or queues one `DoWork`. `DoWork` calls it under the lock, `PostRunable`
after the lock.
-/

namespace Kingkong.Pump
open Lib State

variable {R : Type}

/-- `queued` counts the `DoWork` handlers that are ready to run, `aborted` the handlers of waits
that were cancelled, `timer` is what `timer_` waits for, and `work` tells whether `work_` keeps the
service alive. `stopped` is set once the service has run out of work, and `run` then returns on
every thread. -/
structure Asio (R : Type) where
  pump : State R
  queued : Nat := 0
  aborted : Nat := 0
  timer : Option Nat := none
  work : Bool := true
  stopped : Bool := false

namespace Asio

/-- `expires_from_now` and `cancel` complete an outstanding wait with `operation_aborted`. Its
handler returns at once, but until it has run the service is not out of work. -/
def cancelTimer (s : Asio R) : Asio R :=
  { s with timer := none, aborted := if s.timer.isSome then s.aborted + 1 else s.aborted }

def wakeup (s : Asio R) (expired : Nat) : Asio R :=
  if s.pump.now < expired then { s.cancelTimer with timer := some expired } else { s with queued := s.queued + 1 }

/-- No `work_`, no handler that waits, is ready or runs. -/
def outOfWork (s : Asio R) : Bool :=
  decide (s.work = false ∧ s.queued = 0 ∧ s.aborted = 0 ∧ s.timer = none ∧
    ∀ w < s.pump.threads, (s.pump.workers w).inDoWork = false)

/-- What the service lets the pump do. `run` hands out a `DoWork` only when one is queued, and it
returns only when it is out of work. Nothing calls `DoOneWork` here. -/
def allows (s : Asio R) : Pump.Event R → Bool
  | .doWork _ => decide (0 < s.queued ∧ s.stopped = false)
  | .doOneWork _ | .takeOne _ => false
  | .clear _ => s.stopped
  | _ => true

def follow (s : Asio R) (event : Pump.Event R) (pump : State R) : Asio R :=
  match event with
  | .leave c =>
    match s.pump.calls c with
    | .inserted tick delay _ true => { s with pump := pump }.wakeup (expiredTime tick delay)
    | _ => { s with pump := pump }
  | .doWork _ => { s with pump := pump, queued := s.queued - 1 }
  | .rearm _ =>
    match pump.runableSet.first? with
    | some first => { s with pump := pump }.wakeup first.expiredTime
    | none => { s with pump := pump }
  | _ => { s with pump := pump }

inductive Event (R : Type) where
  | pump (event : Pump.Event R)
  | expire
  | abort (w : Nat)
  | doStop (w : Nat)

def move (s : Asio R) : Event R → Option (Asio R)
  | .pump event => if s.allows event then (Pump.step s.pump event).map (s.follow event) else none
  | .expire =>
    match s.timer with
    | some expired => if expired ≤ s.pump.now then some { s with timer := none, queued := s.queued + 1 } else none
    | none => none
  | .abort w =>
    match s.pump.workers w with
    | .idle =>
      if w < s.pump.threads ∧ 0 < s.aborted ∧ s.stopped = false then some { s with aborted := s.aborted - 1 } else none
    | _ => none
  | .doStop w =>
    -- `Stop` posts `DoStop` as a task, so a worker runs it between two tasks of its batch.
    match s.pump.workers w with
    | .working _ => some { s.cancelTimer with work := false }
    | _ => none

def settle (s : Asio R) : Asio R := { s with stopped := s.stopped || s.outOfWork }

def step (s : Asio R) (event : Event R) : Option (Asio R) := (s.move event).map settle

def initial (R : Type) (threads : Nat) : Asio R := { pump := Pump.initial R threads }

end Asio

variable {s t : Asio R} {event : Asio.Event R} {events : List (Asio.Event R)}

/-! ### The pump underneath -/

@[simp] theorem wakeup_pump (expired : Nat) : (s.wakeup expired).pump = s.pump := by
  unfold Asio.wakeup
  split <;> rfl

theorem follow_pump (event : Event R) (pump : State R) : (s.follow event pump).pump = pump := by
  cases event with
  | leave c =>
    simp only [Asio.follow]
    split
    · rw [wakeup_pump]
    · rfl
  | rearm w =>
    simp only [Asio.follow]
    split
    · rw [wakeup_pump]
    · rfl
  | _ => rfl

theorem asio_pump {event : Event R} (h : s.step (.pump event) = some t) :
    s.allows event = true ∧ ∃ next, step s.pump event = some next ∧
      t = (s.follow event next).settle := by
  obtain ⟨moved, moves, same⟩ := Option.map_eq_some_iff.mp h
  obtain ⟨allowed, moves⟩ := Option.ite_none_right_eq_some.mp moves
  obtain ⟨next, stepped, rfl⟩ := Option.map_eq_some_iff.mp moves
  exact ⟨allowed, next, stepped, same.symm⟩

theorem expire_cases (h : s.step .expire = some t) :
    ∃ expired, s.timer = some expired ∧ expired ≤ s.pump.now ∧
      t = Asio.settle { s with timer := none, queued := s.queued + 1 } := by
  obtain ⟨moved, moves, same⟩ := Option.map_eq_some_iff.mp h
  simp only [Asio.move] at moves
  repeat' split at moves
  all_goals cases moves
  rename_i expired armed reached
  exact ⟨expired, armed, reached, same.symm⟩

theorem abort_cases {w : Nat} (h : s.step (.abort w) = some t) :
    s.pump.workers w = .idle ∧ w < s.pump.threads ∧ 0 < s.aborted ∧ s.stopped = false ∧
      t = Asio.settle { s with aborted := s.aborted - 1 } := by
  obtain ⟨moved, moves, same⟩ := Option.map_eq_some_iff.mp h
  simp only [Asio.move] at moves
  repeat' split at moves
  all_goals cases moves
  rename_i idle enabled
  exact ⟨idle, enabled.1, enabled.2.1, enabled.2.2, same.symm⟩

theorem doStop_cases {w : Nat} (h : s.step (.doStop w) = some t) :
    (∃ batch, s.pump.workers w = .working batch) ∧
      t = Asio.settle { s.cancelTimer with work := false } := by
  obtain ⟨moved, moves, same⟩ := Option.map_eq_some_iff.mp h
  simp only [Asio.move] at moves
  split at moves <;> cases moves
  rename_i batch working
  exact ⟨⟨batch, working⟩, same.symm⟩

def pumpEvents : List (Asio.Event R) → List (Event R)
  | [] => []
  | .pump event :: rest => event :: pumpEvents rest
  | _ :: rest => pumpEvents rest

/-- Every run of the service is a run of the pump, with any `Wakeup`. -/
theorem run_pump (h : run Asio.step s events = some t) :
    run step s.pump (pumpEvents events) = some t.pump := by
  induction events generalizing s with
  | nil => cases h; rfl
  | cons event rest ih =>
    obtain ⟨next, first, h⟩ := run_cons.mp h
    cases event with
    | pump event =>
      obtain ⟨_, stepped, moved, rfl⟩ := asio_pump first
      have tail := ih h
      simp only [Asio.settle, follow_pump] at tail
      exact run_cons.mpr ⟨stepped, moved, tail⟩
    | expire =>
      obtain ⟨_, _, _, rfl⟩ := expire_cases first
      have tail := ih h
      exact tail
    | abort w =>
      obtain ⟨_, _, _, _, rfl⟩ := abort_cases first
      have tail := ih h
      exact tail
    | doStop w =>
      obtain ⟨_, rfl⟩ := doStop_cases first
      have tail := ih h
      exact tail

/-! ### Frames of a pump step -/

/-- The call `c` has yet to call `Wakeup`, for `deadline` or earlier or for a time that has
passed. -/
def WillWake (p : State R) (c deadline : Nat) : Prop :=
  ∃ tick delay id, p.calls c = .inserted tick delay id true ∧
    (expiredTime tick delay ≤ deadline ∨ expiredTime tick delay ≤ p.now)

def Busy (p : State R) : Prop := ∃ w, (p.workers w).inDoWork = true

section Frames

variable {p q : State R} {event : Event R}

theorem step_willWake {c deadline : Nat} (h : step p event = some q) (other : event ≠ .leave c)
    (wakes : WillWake p c deadline) : WillWake q c deadline := by
  obtain ⟨tick, delay, id, inserted, early⟩ := wakes
  refine ⟨tick, delay, id, ?_, early.imp_right fun past => Nat.le_trans past (step_now h)⟩
  rcases step_calls h c with same | ⟨idle, _⟩ | ⟨_, _, _, _, _, entered, _⟩ | ⟨_, _, _, _, left, _⟩
  · rw [same, inserted]
  · rw [inserted] at idle; cases idle
  · rw [inserted] at entered; cases entered
  · exact absurd left other

theorem setWorker_busy {w : Nat} {worker : Worker R}
    (same : worker.inDoWork = (p.workers w).inDoWork) {v : Nat}
    (busy : (p.workers v).inDoWork = true) :
    ((p.setWorker w worker).workers v).inDoWork = true := by
  by_cases here : v = w
  · subst here
    simpa [setWorker, same] using busy
  · simpa [setWorker, here] using busy

theorem step_busy (h : step p event = some q) (other : ∀ w, event ≠ .rearm w) (busy : Busy p) :
    Busy q := by
  obtain ⟨v, busy⟩ := busy
  refine ⟨v, ?_⟩
  cases event with
  | tick elapsed => cases h; exact busy
  | stop => cases h; exact busy
  | enter c delay runnable => obtain ⟨_, rfl⟩ := enter_cases h; exact busy
  | insert c => obtain ⟨_, _, _, _, rfl⟩ := insert_cases h; exact busy
  | leave c => obtain ⟨_, _, _, _, _, rfl⟩ := leave_cases h; exact busy
  | cancel id =>
    cases h
    rcases cancel_cases (s := p) id with ⟨_, same, _⟩ | ⟨_, _, _, _, after, _⟩
    · rw [same]; exact busy
    · rw [after]; exact busy
  | doWork w =>
    obtain ⟨_, _, rfl⟩ := poll_cases h
    by_cases here : v = w
    · subst here; simp [setWorker, Worker.inDoWork]
    · simpa [setWorker, here] using busy
  | doOneWork w =>
    obtain ⟨idle, _, rfl⟩ := poll_cases h
    exact setWorker_busy (by rw [idle]; rfl) busy
  | take w =>
    obtain ⟨seen, polled, rfl⟩ := take_cases h
    exact setWorker_busy (by rw [polled]; rfl) busy
  | takeOne w =>
    obtain ⟨seen, polled, rfl | ⟨_, _, _, rfl⟩⟩ := takeOne_cases h
    all_goals exact setWorker_busy (by rw [polled]; rfl) busy
  | start w =>
    obtain ⟨task, worker, _, same, rfl⟩ := start_cases h
    exact setWorker_busy same busy
  | rearm w => exact absurd rfl (other w)
  | clear w =>
    obtain ⟨idle, _, rfl⟩ := clear_cases h
    exact setWorker_busy (by rw [idle]; rfl) busy

theorem insert_first {c : Nat} (h : step p (.insert c) = some q) {first : RunnableInfo R}
    (found : q.runableSet.first? = some first) :
    (∃ before, p.runableSet.first? = some before ∧ before.expiredTime ≤ first.expiredTime) ∨
      WillWake q c first.expiredTime := by
  obtain ⟨tick, delay, runnable, _, rfl⟩ := insert_cases h
  rcases first_of_insert found with ⟨wakes, early⟩ | earlier
  · exact Or.inr ⟨tick, delay, (p.id + 1) % wordBound, by simp [setCall, wakes], Or.inl early⟩
  · exact Or.inl earlier

end Frames

/-! ### No task waits without a wake-up -/

/-- A `DoWork` is queued, or the timer goes off by `deadline`. -/
def Armed (s : Asio R) (deadline : Nat) : Prop :=
  0 < s.queued ∨ ∃ e, s.timer = some e ∧ e ≤ deadline

/-- Some thread will see to the tasks due at `deadline`: the service, a worker, or a call that will
wake. -/
def Covered (s : Asio R) (deadline : Nat) : Prop :=
  Armed s deadline ∨ Busy s.pump ∨ ∃ c, WillWake s.pump c deadline

/-- No call is between the two steps of `PostRunable` and no worker is in `DoWork`. -/
def Quiet (s : Asio R) : Prop :=
  (∀ c tick delay id wakeup, s.pump.calls c ≠ .inserted tick delay id wakeup) ∧ ¬ Busy s.pump

def Awaited (s : Asio R) : Prop :=
  ∀ first, s.pump.runableSet.first? = some first → Armed s first.expiredTime

/-- The `Wakeup` of a `PostRunable` that is not yet due does not push the timer behind a task that
nobody else sees to. -/
def TimelyWakeup (s : Asio R) (event : Asio.Event R) : Prop :=
  ∀ c tick delay id, event = .pump (.leave c) → s.pump.calls c = .inserted tick delay id true →
    s.pump.now < expiredTime tick delay → ∀ first, s.pump.runableSet.first? = some first →
      expiredTime tick delay ≤ first.expiredTime ∨ 0 < s.queued ∨ Busy s.pump ∨
        ∃ d, d ≠ c ∧ WillWake s.pump d first.expiredTime

def AllCovered (s : Asio R) : Prop :=
  ∀ first, s.pump.runableSet.first? = some first → Covered s first.expiredTime

theorem quiet_awaited (covered : AllCovered s) (quiet : Quiet s) : Awaited s := by
  intro first found
  rcases covered first found with armed | busy | ⟨c, tick, delay, id, inserted, _⟩
  · exact armed
  · exact absurd busy quiet.2
  · exact absurd inserted (quiet.1 c tick delay id true)

theorem armed_later {deadline later : Nat} (armed : Armed s deadline) (order : deadline ≤ later) :
    Armed s later := by
  rcases armed with queued | ⟨e, timer, early⟩
  · exact Or.inl queued
  · exact Or.inr ⟨e, timer, Nat.le_trans early order⟩

theorem covered_later {deadline later : Nat} (covered : Covered s deadline)
    (order : deadline ≤ later) :
    Covered s later := by
  rcases covered with armed | busy | ⟨c, tick, delay, id, inserted, early⟩
  · exact Or.inl (armed_later armed order)
  · exact Or.inr (Or.inl busy)
  · exact Or.inr (Or.inr ⟨c, tick, delay, id, inserted,
      early.imp_left fun early => Nat.le_trans early order⟩)

theorem wakeup_queued (expired : Nat) : s.queued ≤ (s.wakeup expired).queued := by
  unfold Asio.wakeup
  split
  · exact Nat.le_refl _
  · exact Nat.le_succ _

theorem wakeup_armed {expired deadline : Nat} (early : expired ≤ deadline) :
    Armed (s.wakeup expired) deadline := by
  unfold Asio.wakeup
  split
  · exact Or.inr ⟨expired, rfl, early⟩
  · exact Or.inl (Nat.succ_pos _)

theorem frame_covered {event : Event R} {next : State R} (h : step s.pump event = some next)
    (covered : AllCovered s) (notLeave : ∀ c, event ≠ .leave c) (notRearm : ∀ w, event ≠ .rearm w) :
    AllCovered { s with pump := next } := by
  have keep : ∀ deadline, Covered s deadline → Covered { s with pump := next } deadline := by
    intro deadline before
    rcases before with armed | busy | ⟨c, wakes⟩
    · exact Or.inl armed
    · exact Or.inr (Or.inl (step_busy h notRearm busy))
    · exact Or.inr (Or.inr ⟨c, step_willWake h (notLeave c) wakes⟩)
  intro first found
  by_cases inserts : ∃ c, event = .insert c
  · obtain ⟨c, rfl⟩ := inserts
    rcases insert_first h found with ⟨before, head, order⟩ | wakes
    · exact keep _ (covered_later (covered before head) order)
    · exact Or.inr (Or.inr ⟨c, wakes⟩)
  · obtain ⟨before, head, order⟩ := step_first h (fun c same => inserts ⟨c, same⟩) found
    exact keep _ (covered_later (covered before head) order)

theorem leave_covered {c : Nat} {next : State R} (h : step s.pump (.leave c) = some next)
    (covered : AllCovered s) (timely : TimelyWakeup s (.pump (.leave c))) :
    AllCovered (s.follow (.leave c) next) := by
  obtain ⟨tick, delay, id, wakeup, inserted, rfl⟩ := leave_cases h
  have others : ∀ d deadline, d ≠ c → WillWake s.pump d deadline →
      WillWake (s.pump.setCall c (.returned tick delay id)) d deadline := by
    intro d deadline apart wakes
    exact step_willWake h (by simpa using Ne.symm apart) wakes
  simp only [Asio.follow, inserted]
  cases wakeup with
  | false =>
    intro first found
    rcases covered first found with armed | busy | ⟨d, wakes⟩
    · exact Or.inl armed
    · exact Or.inr (Or.inl busy)
    · refine Or.inr (Or.inr ⟨d, others d _ ?_ wakes⟩)
      rintro rfl
      obtain ⟨_, _, _, again, _⟩ := wakes
      rw [inserted] at again
      cases again
  | true =>
    simp only
    intro first found
    rw [wakeup_pump] at found
    by_cases due : s.pump.now < expiredTime tick delay
    · rcases timely c tick delay id rfl inserted due first found with
          early | queued | busy | ⟨d, apart, wakes⟩
      · exact Or.inl (wakeup_armed early)
      · have grows := wakeup_queued (s := { s with pump := s.pump.setCall c (.returned tick delay id) })
          (expiredTime tick delay)
        exact Or.inl (Or.inl (Nat.lt_of_lt_of_le queued grows))
      · refine Or.inr (Or.inl ?_)
        rw [wakeup_pump]
        exact busy
      · refine Or.inr (Or.inr ⟨d, ?_⟩)
        rw [wakeup_pump]
        exact others d _ apart wakes
    · refine Or.inl (Or.inl ?_)
      have queues : ¬ (s.pump.setCall c (.returned tick delay id)).now < expiredTime tick delay :=
        due
      simp [Asio.wakeup, queues]

theorem settle_covered (covered : AllCovered s) : AllCovered s.settle := covered

theorem asio_covered (covered : AllCovered s) (timely : TimelyWakeup s event)
    (h : s.step event = some t) :
    AllCovered t := by
  cases event with
  | expire =>
    obtain ⟨_, _, _, rfl⟩ := expire_cases h
    exact settle_covered fun _ _ => Or.inl (Or.inl (Nat.succ_pos _))
  | abort w =>
    obtain ⟨_, _, _, _, rfl⟩ := abort_cases h
    exact settle_covered covered
  | doStop w =>
    obtain ⟨⟨batch, working⟩, rfl⟩ := doStop_cases h
    exact settle_covered fun _ _ => Or.inr (Or.inl ⟨w, by simp [Asio.cancelTimer, working, Worker.inDoWork]⟩)
  | pump event =>
    obtain ⟨_, next, stepped, rfl⟩ := asio_pump h
    refine settle_covered ?_
    cases event with
    | leave c => exact leave_covered stepped covered timely
    | rearm w =>
      intro first found
      rw [follow_pump] at found
      simp only [Asio.follow, found]
      exact Or.inl (wakeup_armed (Nat.le_refl _))
    | doWork w =>
      obtain ⟨_, _, rfl⟩ := poll_cases stepped
      refine fun _ _ => Or.inr (Or.inl ⟨w, ?_⟩)
      simp [Asio.follow, setWorker, Worker.inDoWork]
    | _ => exact frame_covered stepped covered (by simp) (by simp)

/-- As long as no `Wakeup` of a `PostRunable` is overtaken, the first task of a quiet pump has a
queued `DoWork` or a timer that goes off in time. -/
theorem no_late_wakeup {threads : Nat}
    (each : EachStep Asio.step TimelyWakeup (Asio.initial R threads) events) :
    Always Asio.step (fun s => Quiet s → Awaited s) (Asio.initial R threads) events := by
  refine always_under (I := AllCovered) (fun s covered => quiet_awaited covered) ?_ ?_ each
  · intro s event t covered timely h
    exact asio_covered covered timely h
  · intro first found
    cases found

/-- Two calls have returned, and the workers are idle. -/
theorem quiet_of_returned {s : Asio R}
    (first : ∃ tick delay id, s.pump.calls 0 = .returned tick delay id)
    (second : ∃ tick delay id, s.pump.calls 1 = .returned tick delay id)
    (others : ∀ c, s.pump.calls (c + 2) = .idle) (idle : ∀ w, s.pump.workers w = .idle) :
    Quiet s := by
  constructor
  · intro c tick delay id wakeup inserted
    match c with
    | 0 =>
      obtain ⟨_, _, _, returned⟩ := first
      cases returned.symm.trans inserted
    | 1 =>
      obtain ⟨_, _, _, returned⟩ := second
      cases returned.symm.trans inserted
    | c + 2 => cases (others c).symm.trans inserted
  · rintro ⟨w, busy⟩
    rw [idle w] at busy
    cases busy

/-- The second post is due first and wakes first. The `Wakeup` of the first post then replaces the
timer. -/
def overtaken : List (Asio.Event Unit) :=
  [.pump (.enter 0 100 ()), .pump (.insert 0), .pump (.enter 1 50 ()), .pump (.insert 1), .pump (.leave 1),
    .pump (.leave 0)]

theorem no_late_wakeup_overtaken :
    ∃ s, run Asio.step (Asio.initial Unit 1) overtaken = some s ∧ Quiet s ∧ ¬ Awaited s := by
  refine ⟨_, rfl, quiet_of_returned ⟨_, _, _, rfl⟩ ⟨_, _, _, rfl⟩ (fun _ => rfl) fun _ => rfl, ?_⟩
  intro awaited
  rcases awaited ⟨50, (), 2⟩ rfl with queued | ⟨e, timer, early⟩
  · exact absurd queued (by decide)
  · cases timer
    exact absurd early (by decide)

def inTurn : List (Asio.Event Unit) :=
  [.pump (.enter 0 100 ()), .pump (.insert 0), .pump (.leave 0), .pump (.enter 1 50 ()), .pump (.insert 1),
    .pump (.leave 1)]

theorem timely_other (other : ∀ c, event ≠ .pump (.leave c)) : TimelyWakeup s event := by
  intro c _ _ _ same
  exact absurd same (other c)

theorem no_late_wakeup_inTurn :
    ∃ s, run Asio.step (Asio.initial Unit 1) inTurn = some s ∧
      s.pump.runableSet.first? = some ⟨50, (), 2⟩ ∧ Quiet s ∧ Armed s 50 := by
  have each : EachStep Asio.step TimelyWakeup (Asio.initial Unit 1) inTurn := by
    refine (eachStep_cons rfl).mpr ⟨timely_other (by simp),
      (eachStep_cons rfl).mpr ⟨timely_other (by simp),
      (eachStep_cons rfl).mpr ⟨?_, (eachStep_cons rfl).mpr ⟨timely_other (by simp),
      (eachStep_cons rfl).mpr ⟨timely_other (by simp), (eachStep_cons rfl).mpr ⟨?_, eachStep_nil⟩⟩⟩⟩⟩⟩
    all_goals
      intro c tick delay id same inserted due first found
      cases same
      cases inserted
      cases found
      exact Or.inl (by decide)
  refine ⟨_, rfl, rfl, ?quiet, no_late_wakeup each inTurn [] _ rfl rfl ?quiet _ rfl⟩
  exact quiet_of_returned ⟨_, _, _, rfl⟩ ⟨_, _, _, rfl⟩ (fun _ => rfl) fun _ => rfl

end Kingkong.Pump
