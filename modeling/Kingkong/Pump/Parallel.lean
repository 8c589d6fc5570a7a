import Kingkong.Pump.Service

/-!
A pump with several workers as a thread pool, with `PostRunable` as one step. A worker takes every
due task in one batch and wakes the service again only when the whole batch has run, so a due task
may wait behind a task that runs although another worker is idle.
-/

namespace Kingkong.Pump
open Lib State

variable {R : Type}

namespace Service

/-- A call of `PostRunable`, from its test of `stoped_` to its return. -/
def call (caller : Nat → Option Nat) (s : Service R) (first : Event R) (c : Nat) :
    Option (Service R) :=
  (s.step caller first).bind fun t =>
    match t.pump.calls c with
    | .entered _ _ _ => run (step caller) t [.insert c, .wake c]
    | _ => some t

def Event.inCall : Event R → Bool
  | .post _ _ _ | .stop _ | .insert _ | .wake _ => true
  | _ => false

def atomic (caller : Nat → Option Nat) (s : Service R) : Event R → Option (Service R)
  | .post c delay runnable => s.call caller (.post c delay runnable) c
  | .stop c => s.call caller (.stop c) c
  | .insert _ | .wake _ => none
  | event => s.step caller event

end Service

variable {s t : Service R} {caller : Nat → Option Nat} {event : Service.Event R} {events : List (Service.Event R)}

/-- The worker `w` waits in `run` for a handler. -/
def Waits (s : Service R) (w : Nat) : Prop :=
  w < s.pump.threads ∧ s.pump.workers w = .idle ∧ s.asio.stopped = false

/-- A handler is queued or the timer has expired, and the `DoWork` that `w` then runs takes the
task. -/
def Startable (caller : Nat → Option Nat) (s : Service R) (w : Nat) (info : RunnableInfo (Job R)) :
    Prop :=
  ∃ t, (run (Service.step caller) s [.handler w, .take w] = some t ∨
      run (Service.step caller) s [.expire, .handler w, .take w] = some t) ∧
    info ∈ t.pump.tasks (.batch w)

/-- The worker `v` is in `DoWork` and runs no task, so that it sees to the set without delay. -/
def Attends (s : Service R) (v : Nat) : Prop :=
  s.threads v = .between ∧ ((∃ seen, s.pump.workers v = .polled seen) ∨ s.pump.workers v = .working [])

/-- The worker `v` is about to start the task. -/
def StartsNext (s : Service R) (v : Nat) (info : RunnableInfo (Job R)) : Prop :=
  s.threads v = .between ∧ s.pump.workers v = .working [info]

/-- No due task waits for the end of another one while a worker is idle. A worker that attends sees
to the set, so it counts for the tasks in `runable_set_` only. -/
def NoneWaits (caller : Nat → Option Nat) (s : Service R) : Prop :=
  ∀ w, Waits s w → ∀ place info, place.live = true → info ∈ s.pump.tasks place → info.expiredTime ≤ s.pump.now →
    Startable caller s w info ∨ ∃ v, (place = .runableSet ∧ Attends s v) ∨ StartsNext s v info

/-- A `DoWork` takes one task at most, and before its task runs somebody else sees to what is left
in the set. `DoStop` takes the timer away, so then it is a queued handler or another worker. -/
def Unblocking (s : Service R) : Service.Event R → Prop
  | .take w => ∀ seen, s.pump.workers w = .polled seen →
      (s.pump.runableSet.front (due seen)).length ≤ 1 ∧
      (s.pump.runableSet.front (due seen) ≠ [] → ∀ first, (s.pump.runableSet.dropFront (due seen)).first? = some first →
        Armed s.asio first.expiredTime ∨ ∃ v, v ≠ w ∧ Attends s v)
  | .start w => ∀ task rest, s.pump.workers w = .working (task :: rest) → task.runnable = .doStop →
      ∀ first, s.pump.runableSet.first? = some first → 0 < s.asio.queued ∨ ∃ v, v ≠ w ∧ Attends s v
  | _ => True

/-! ### What an atomic step does -/

/-- A task that posts runs on when its call has returned. -/
theorem post_threads {c delay : Nat} {runnable : R}
    (h : s.atomic caller (.post c delay runnable) = some t) :
    t.threads = s.threads := by
  obtain ⟨u, entered, h⟩ := Option.bind_eq_some_iff.mp h
  obtain ⟨_, _, threads⟩ := post_cases entered
  split at h
  · rename_i passed
    obtain ⟨v, inserted, h⟩ := run_cons.mp h
    obtain ⟨_, woken, last⟩ := run_cons.mp h
    cases last
    obtain ⟨_, same, _⟩ := lift_pump inserted
    rcases (wake_cases woken).2.2 with ⟨outside, kept⟩ | ⟨w, inside, resumed⟩
    · rcases threads with ⟨before, _⟩ | ⟨w, inside, _⟩
      · rw [kept, same, before]
      · rw [outside] at inside; cases inside
    · rcases threads with ⟨_, outside | refused⟩ | ⟨v, inside', running, posting, _⟩
      · rw [outside] at inside; cases inside
      · rw [refused] at passed; cases passed
      · cases inside.symm.trans inside'
        rw [resumed, same, posting]
        funext x
        by_cases here : x = w
        · subst here
          rw [Function.update_self, running]
        · rw [Function.update_of_ne here, Function.update_of_ne here]
  · rename_i ended
    cases h
    rcases threads with ⟨same, _⟩ | ⟨_, _, _, _, tick, delay, job, passed⟩
    · exact same
    · exact absurd passed (ended tick delay job)

theorem stop_threads {c : Nat} (h : s.atomic caller (.stop c) = some t) :
    t.threads = s.threads := by
  obtain ⟨u, entered, h⟩ := Option.bind_eq_some_iff.mp h
  obtain ⟨outside, _, threads, _⟩ := stop_cases entered
  split at h
  · obtain ⟨v, inserted, h⟩ := run_cons.mp h
    obtain ⟨_, woken, last⟩ := run_cons.mp h
    cases last
    obtain ⟨_, same, _⟩ := lift_pump inserted
    rcases (wake_cases woken).2.2 with ⟨_, kept⟩ | ⟨w, inside, _⟩
    · rw [kept, same, threads]
    · rw [outside] at inside; cases inside
  · cases h
    exact threads

theorem atomic_cases (h : s.atomic caller event = some t) :
    (∃ c delay job, (∀ u, s.step caller event = some u → Lifted s u (.enter c delay job)) ∧
      s.call caller event c = some t ∧ t.threads = s.threads) ∨
    s.step caller event = some t ∧ event.inCall = false := by
  cases event with
  | post c delay runnable =>
    exact Or.inl ⟨c, delay, .task runnable, fun _ entered => (post_cases entered).1, h,
      post_threads h⟩
  | stop c => exact Or.inl ⟨c, 0, .doStop, fun _ entered => (stop_cases entered).2.1, h, stop_threads h⟩
  | insert c => cases h
  | wake c => cases h
  | _ => exact Or.inr ⟨h, rfl⟩

theorem atomic_run (h : s.atomic caller event = some t) :
    ∃ events, run (Service.step caller) s events = some t := by
  rcases atomic_cases h with ⟨c, _, _, _, called, _⟩ | ⟨stepped, _⟩
  · obtain ⟨middle, entered, rest⟩ := Option.bind_eq_some_iff.mp called
    split at rest
    · exact ⟨_, run_cons.mpr ⟨middle, entered, rest⟩⟩
    · cases rest
      exact ⟨[event], run_cons.mpr ⟨_, entered, rfl⟩⟩
  · exact ⟨[event], run_cons.mpr ⟨t, stepped, rfl⟩⟩

theorem atomic_callers (callers : Callers caller s) (h : s.atomic caller event = some t) :
    Callers caller t := by
  obtain ⟨events, reached⟩ := atomic_run h
  exact run_keeps (fun _ _ _ callers h => step_callers callers h) callers reached

/-- What a call leaves behind: the workers are as before, and either the call has woken the service
in time for the first task, or the set has had a task that is due no later. -/
structure Enqueues (s t : Service R) : Prop where
  workers : t.pump.workers = s.pump.workers
  first : ∀ first, t.pump.runableSet.first? = some first → Armed t.asio first.expiredTime ∨
    t.asio.queued = s.asio.queued ∧ t.asio.timer = s.asio.timer ∧
      ∃ before, s.pump.runableSet.first? = some before ∧ before.expiredTime ≤ first.expiredTime

theorem enter_enqueues {c delay : Nat} {job : Job R} (lifted : Lifted s t (.enter c delay job)) :
    Enqueues s t := by
  obtain ⟨_, after⟩ := enter_cases lifted.pump
  refine ⟨by rw [after]; rfl, fun first found => Or.inr ⟨by rw [lifted.asio]; rfl, by rw [lifted.asio]; rfl, ?_⟩⟩
  rw [after] at found
  exact ⟨first, found, Nat.le_refl _⟩

/-- The locked section of a call and its `Wakeup`, one right after the other. -/
theorem insert_wake_enqueues {c : Nat} {u : Service R}
    (inserted : s.step caller (.insert c) = some u) (woken : u.step caller (.wake c) = some t) :
    Enqueues s t := by
  obtain ⟨first, _, _⟩ := lift_pump inserted
  obtain ⟨second, _, _⟩ := wake_cases woken
  obtain ⟨tick, delay, job, _, middle⟩ := insert_cases first.pump
  obtain ⟨_, _, _, _, _, last⟩ := leave_cases second.pump
  have call : u.pump.calls c = .inserted tick delay ((s.pump.id + 1) % wordBound)
      (s.pump.wakesUp (expiredTime tick delay)) := by rw [middle]; simp [setCall]
  have follow := second.asio
  simp only [Asio.follow, call] at follow
  have set : t.pump.runableSet = s.pump.runableSet.insert ⟨expiredTime tick delay, job,
      (s.pump.id + 1) % wordBound⟩ := by
    rw [last, middle]; rfl
  refine ⟨by rw [last, middle]; rfl, ?_⟩
  intro head found
  rw [set] at found
  cases wakes : s.pump.wakesUp (expiredTime tick delay) with
  | true =>
    rw [wakes] at follow
    have early : expiredTime tick delay ≤ head.expiredTime := by
      rcases first_of_insert found with ⟨_, early⟩ | ⟨before, present, order⟩
      · exact early
      · simp only [wakesUp, present, decide_eq_true_eq] at wakes
        omega
    rw [follow]
    exact Or.inl (wakeup_armed early)
  | false =>
    rw [wakes] at follow
    rcases first_of_insert found with ⟨woke, _⟩ | earlier
    · rw [wakes] at woke; cases woke
    · refine Or.inr ⟨?_, ?_, earlier⟩
      · rw [follow]
        show u.asio.queued = _
        rw [first.asio]
        rfl
      · rw [follow]
        show u.asio.timer = _
        rw [first.asio]
        rfl

theorem enqueues_trans {u : Service R} (first : Enqueues s t) (second : Enqueues t u) :
    Enqueues s u where
  workers := second.workers.trans first.workers
  first head found := by
    rcases second.first head found with armed | ⟨queued, timer, before, present, order⟩
    · exact Or.inl armed
    · rcases first.first before present with armed | ⟨queued', timer', earlier, found', order'⟩
      · refine Or.inl ?_
        unfold Armed
        rw [queued, timer]
        exact armed_later armed order
      · exact Or.inr ⟨queued.trans queued', timer.trans timer', earlier, found',
          Nat.le_trans order' order⟩

theorem call_enqueues {c delay : Nat} {job : Job R}
    (enters : ∀ u, s.step caller event = some u → Lifted s u (.enter c delay job))
    (h : s.call caller event c = some t) : Enqueues s t := by
  obtain ⟨u, entered, h⟩ := Option.bind_eq_some_iff.mp h
  have first := enter_enqueues (enters u entered)
  split at h
  · obtain ⟨v, inserted, h⟩ := run_cons.mp h
    obtain ⟨_, woken, last⟩ := run_cons.mp h
    cases last
    exact enqueues_trans first (insert_wake_enqueues inserted woken)
  · cases h
    exact first

/-! ### Tasks are spread over the workers -/

structure Spread (s : Service R) : Prop where
  single : ∀ v, (s.pump.workers v).batch = [] ∨ ∃ info, StartsNext s v info
  covered : ∀ first, s.pump.runableSet.first? = some first → Armed s.asio first.expiredTime ∨ ∃ v, Attends s v

theorem initial_spread (threads : Nat) : Spread (Service.initial R threads) where
  single _ := Or.inl rfl
  covered _ found := by cases found

/-- A step that leaves the workers, the queued handlers and the timer alone. -/
theorem spread_frame (spread : Spread s) (workers : t.pump.workers = s.pump.workers)
    (threads : t.threads = s.threads)
    (covered : ∀ first, t.pump.runableSet.first? = some first → Armed t.asio first.expiredTime ∨
      t.asio.queued = s.asio.queued ∧ t.asio.timer = s.asio.timer ∧
      ∃ before, s.pump.runableSet.first? = some before ∧ before.expiredTime ≤ first.expiredTime) :
    Spread t where
  single := by
    unfold StartsNext
    rw [workers, threads]
    exact spread.single
  covered first found := by
    rcases covered first found with armed | ⟨queued, timer, before, present, order⟩
    · exact Or.inl armed
    · unfold Armed Attends
      rw [queued, timer, workers, threads]
      exact (spread.covered before present).imp_left fun armed => armed_later armed order

/-- The worker `w` moves on, and the others see to the set as before. -/
theorem spread_worker {w : Nat} {worker : Worker (Job R)} {thread : Thread} (spread : Spread s)
    (workers : t.pump.workers = Function.update s.pump.workers w worker)
    (threads : t.threads = Function.update s.threads w thread)
    (single : worker.batch = [] ∨ thread = .between ∧ ∃ info, worker = .working [info])
    (covered : ∀ first, t.pump.runableSet.first? = some first → Armed t.asio first.expiredTime ∨
      (∃ v, v ≠ w ∧ Attends s v) ∨ thread = .between ∧ ((∃ seen, worker = .polled seen) ∨
        worker = .working [])) :
    Spread t := by
  have others : ∀ v, v ≠ w → t.pump.workers v = s.pump.workers v ∧ t.threads v = s.threads v := by
    intro v apart
    rw [workers, threads, Function.update_of_ne apart, Function.update_of_ne apart]
    exact ⟨rfl, rfl⟩
  have here : t.pump.workers w = worker ∧ t.threads w = thread := by
    rw [workers, threads, Function.update_self, Function.update_self]
    exact ⟨rfl, rfl⟩
  refine ⟨?_, ?_⟩
  · intro v
    unfold StartsNext
    by_cases same : v = w
    · subst same
      rw [here.1, here.2]
      exact single.imp_right fun ⟨between, info, next⟩ => ⟨info, between, next⟩
    · rw [(others v same).1, (others v same).2]
      exact spread.single v
  · intro first found
    rcases covered first found with armed | ⟨v, apart, attends⟩ | attends
    · exact Or.inl armed
    · refine Or.inr ⟨v, ?_⟩
      unfold Attends
      rw [(others v apart).1, (others v apart).2]
      exact attends
    · refine Or.inr ⟨w, ?_⟩
      unfold Attends
      rw [here.1, here.2]
      exact attends

theorem pump_spread {e : Event (Job R)} (spread : Spread s) (lifted : Lifted s t e)
    (threads : t.threads = s.threads) (other : e.worker? = none) (notInsert : ∀ c, e ≠ .insert c)
    (plain : s.asio.follow e t.pump = { s.asio with pump := t.pump }) : Spread t := by
  refine spread_frame spread (step_workers_same lifted.pump other).1 threads ?_
  intro first found
  refine Or.inr ⟨?_, ?_, step_first lifted.pump notInsert found⟩
  · rw [lifted.asio, plain]; rfl
  · rw [lifted.asio, plain]; rfl

theorem take_spread {w : Nat} (callers : Callers caller s) (spread : Spread s)
    (unblocking : Unblocking s (.take w)) (h : s.step caller (.take w) = some t) : Spread t := by
  obtain ⟨lifted, threads, _⟩ := lift_pump h
  obtain ⟨seen, polled, after⟩ := take_cases lifted.pump
  have between := between_idle callers (w := w) (by simp [polled])
  have same : t.threads = Function.update s.threads w .between := by
    rw [threads, ← between, Function.update_eq_self]
  have armed : ∀ deadline, Armed s.asio deadline → Armed t.asio deadline := by
    intro deadline
    rw [lifted.asio]
    exact id
  obtain ⟨one, rest⟩ := unblocking seen polled
  refine spread_worker spread (by rw [after]; rfl) same ?_ ?_
  · cases batch : s.pump.runableSet.front (due seen) with
    | nil => exact Or.inl rfl
    | cons info more =>
      rw [batch] at one
      obtain rfl : more = [] := List.length_eq_zero_iff.mp (by simpa using one)
      exact Or.inr ⟨rfl, info, rfl⟩
  · intro first found
    by_cases none : s.pump.runableSet.front (due seen) = []
    · exact Or.inr (Or.inr ⟨rfl, Or.inr (by rw [none])⟩)
    · rw [after] at found
      rcases rest none first found with early | other
      · exact Or.inl (armed _ early)
      · exact Or.inr (Or.inl other)

theorem start_spread {w : Nat} (callers : Callers caller s) (spread : Spread s)
    (unblocking : Unblocking s (.start w)) (h : s.step caller (.start w) = some t) : Spread t := by
  obtain ⟨task, rest, _, working, after, asio, threads, _⟩ := start_working callers h
  have last : rest = [] := by
    rcases spread.single w with none | ⟨info, _, next⟩
    · rw [working] at none; cases none
    · rw [working] at next
      cases next
      rfl
  subst last
  refine spread_worker spread (by rw [after]; rfl) threads (Or.inl rfl) ?_
  intro first found
  rw [after] at found
  have others : ∀ v, Attends s v → v ≠ w := by
    rintro v ⟨_, ⟨seen, polled⟩ | vacant⟩ rfl
    · rw [working] at polled; cases polled
    · rw [working] at vacant; cases vacant
  rcases spread.covered first found with armed | ⟨v, attends⟩
  · cases job : task.runnable with
    | task runnable =>
      rw [asio, job]
      exact Or.inl armed
    | doStop =>
      rcases unblocking task [] working job first found with queued | other
      · rw [asio, job]
        exact Or.inl (Or.inl queued)
      · exact Or.inr (Or.inl other)
  · exact Or.inr (Or.inl ⟨v, others v attends, attends⟩)

theorem finish_spread {w : Nat} (spread : Spread s) (h : s.step caller (.finish w) = some t) :
    Spread t := by
  obtain ⟨running, rfl⟩ := finish_cases h
  refine spread_worker spread (w := w) (Function.update_eq_self _ _).symm rfl ?_ ?_
  · rcases spread.single w with none | ⟨_, between, _⟩
    · exact Or.inl none
    · rw [running] at between; cases between
  · intro first found
    rcases spread.covered first found with armed | ⟨v, attends⟩
    · exact Or.inl armed
    · refine Or.inr (Or.inl ⟨v, ?_, attends⟩)
      rintro rfl
      have between := attends.1
      rw [running] at between
      cases between

theorem step_spread (callers : Callers caller s) (spread : Spread s)
    (unblocking : Unblocking s event) (single : event.inCall = false)
    (h : s.step caller event = some t) : Spread t := by
  have kept : ∀ {w : Nat}, t.threads = s.threads →
      t.threads = Function.update s.threads w (s.threads w) :=
    fun same => same.trans (Function.update_eq_self _ _).symm
  cases event with
  | post | stop | insert | wake => cases single
  | tick elapsed =>
    obtain ⟨lifted, threads, _⟩ := lift_pump h
    exact pump_spread spread lifted threads rfl (by simp) rfl
  | cancel x =>
    obtain ⟨lifted, threads, _⟩ := lift_pump h
    exact pump_spread spread lifted threads rfl (by simp) rfl
  | stoped c =>
    obtain ⟨_, lifted, threads, _⟩ := stoped_cases h
    exact pump_spread spread lifted threads rfl (by simp) rfl
  | expire =>
    obtain ⟨_, _, _, rfl⟩ := service_expire_cases h
    exact spread_frame spread rfl rfl fun _ _ => Or.inl (Or.inl (Nat.succ_pos _))
  | abort w =>
    obtain rfl := service_abort_cases h
    exact spread_frame spread rfl rfl fun first found => Or.inr ⟨rfl, rfl, first, found,
      Nat.le_refl _⟩
  | handler w =>
    obtain ⟨lifted, threads, _⟩ := lift_pump h
    obtain ⟨idle, _, after⟩ := poll_cases lifted.pump
    have between := between_idle callers (w := w) (by simp [idle])
    exact spread_worker spread (by rw [after]; rfl) (kept threads) (Or.inl rfl)
      fun _ _ => Or.inr (Or.inr ⟨between, Or.inl ⟨_, rfl⟩⟩)
  | take w => exact take_spread callers spread unblocking h
  | start w => exact start_spread callers spread unblocking h
  | finish w => exact finish_spread spread h
  | rearm w =>
    obtain ⟨_, lifted, threads, _⟩ := service_rearm_cases h
    obtain ⟨_, after⟩ := rearm_cases lifted.pump
    refine spread_worker spread (by rw [after]; rfl) (kept threads) (Or.inl rfl) ?_
    intro first found
    rw [lifted.asio]
    simp only [Asio.follow, found]
    exact Or.inl (wakeup_armed (Nat.le_refl _))
  | clear w =>
    obtain ⟨lifted, threads, _⟩ := lift_pump h
    obtain ⟨_, _, after⟩ := clear_cases lifted.pump
    refine spread_worker spread (by rw [after]; rfl) (kept threads) (Or.inl rfl) ?_
    intro first found
    rw [after] at found
    cases found

theorem atomic_spread (callers : Callers caller s) (spread : Spread s)
    (unblocking : Unblocking s event) (h : s.atomic caller event = some t) : Spread t := by
  rcases atomic_cases h with ⟨c, delay, job, enters, called, threads⟩ | ⟨stepped, single⟩
  · obtain ⟨workers, first⟩ := call_enqueues enters called
    exact spread_frame spread workers threads first
  · exact step_spread callers spread unblocking single stepped

/-! ### What the idle worker finds -/

theorem handler_polls (caller : Nat → Option Nat) {w : Nat} (waits : Waits s w)
    (queued : 0 < s.asio.queued) :
    ∃ t, s.step caller (.handler w) = some t ∧
      t.pump = s.pump.setWorker w (.polled s.pump.now) := by
  obtain ⟨bound, idle, running⟩ := waits
  have stepped : step s.pump (.doWork w) = some (s.pump.setWorker w (.polled s.pump.now)) := by
    simp only [step, poll, idle, bound, if_true]
  exact ⟨_, lift_of_step (by simp [Asio.allows, queued, running]) stepped, follow_pump _ _⟩

theorem take_enabled (caller : Nat → Option Nat) {w seen : Nat}
    (polled : s.pump.workers w = .polled seen) :
    ∃ t, s.step caller (.take w) = some t ∧
      t.pump.workers w = .working (s.pump.runableSet.front (due seen)) := by
  have stepped : step s.pump (.take w) =
      some { s.pump.setWorker w (.working (s.pump.runableSet.front (due seen))) with
      runableSet := s.pump.runableSet.dropFront (due seen) } := by
    simp only [step, doWorkTake, polled]
  exact ⟨_, lift_of_step rfl stepped, Function.update_self _ _ _⟩

theorem handler_takes (caller : Nat → Option Nat) {w : Nat} (waits : Waits s w)
    (queued : 0 < s.asio.queued) {info : RunnableInfo (Job R)}
    (member : info ∈ s.pump.runableSet.elems) (reached : info.expiredTime ≤ s.pump.now) :
    ∃ t, run (Service.step caller) s [.handler w, .take w] = some t ∧
      info ∈ t.pump.tasks (.batch w) := by
  have taken : info ∈ s.pump.runableSet.front (due s.pump.now) := by
    refine OrderedSet.mem_front ?_ member (by simpa [due] using reached)
    intro earlier later before past
    have order := RunnableInfo.lt_iff.mp before
    simp only [due, decide_eq_true_eq] at past ⊢
    omega
  obtain ⟨u, polled, after⟩ := handler_polls caller waits queued
  obtain ⟨t, took, batch⟩ := take_enabled caller (show u.pump.workers w = .polled s.pump.now by
    rw [after]; simp [setWorker])
  refine ⟨t, run_cons.mpr ⟨u, polled, run_cons.mpr ⟨t, took, rfl⟩⟩, ?_⟩
  show info ∈ (t.pump.workers w).batch
  rw [batch, after]
  exact taken

theorem ready_startable {w : Nat} (waits : Waits s w) {info : RunnableInfo (Job R)}
    (member : info ∈ s.pump.runableSet.elems) (reached : info.expiredTime ≤ s.pump.now)
    (ready : Armed s.asio s.pump.now) : Startable caller s w info := by
  rcases ready with queued | ⟨e, armed, past⟩
  · obtain ⟨t, taken, held⟩ := handler_takes caller waits queued member reached
    exact ⟨t, Or.inl taken, held⟩
  · have expired : s.step caller .expire = some { s with
        asio := Asio.settle { s.asio with timer := none, queued := s.asio.queued + 1 } } := by
      simp [Service.step, Service.lift, Asio.step, Asio.move, armed, past]
    obtain ⟨bound, idle, running⟩ := waits
    have still : (Asio.settle { s.asio with timer := none, queued := s.asio.queued + 1 }).stopped =
        false := by
      simp [Asio.settle, Asio.outOfWork, running]
    obtain ⟨t, taken, held⟩ := handler_takes caller (s := { s with
      asio := Asio.settle { s.asio with timer := none, queued := s.asio.queued + 1 } }) ⟨bound, idle, still⟩
      (Nat.succ_pos _) member reached
    exact ⟨t, Or.inr (run_cons.mpr ⟨_, expired, taken⟩), held⟩

theorem spread_noneWaits (spread : Spread s) : NoneWaits caller s := by
  intro w waits place info live member reached
  cases place with
  | started | cancelled | discarded => cases live
  | batch v =>
    rcases spread.single v with none | ⟨next, starts⟩
    · rw [show s.pump.tasks (.batch v) = [] from none] at member
      cases member
    · have batch : s.pump.tasks (.batch v) = [next] := by simp [State.tasks, starts.2, Worker.batch]
      rw [batch] at member
      obtain rfl := List.mem_singleton.mp member
      exact Or.inr ⟨v, Or.inr starts⟩
  | runableSet =>
    change info ∈ s.pump.runableSet.elems at member
    cases head : s.pump.runableSet.first? with
    | none =>
      rw [List.head?_eq_none_iff.mp head] at member
      cases member
    | some first =>
      have order : first.expiredTime ≤ info.expiredTime := by
        rcases OrderedSet.first_le head member with rfl | later
        · exact Nat.le_refl _
        · have order := RunnableInfo.lt_iff.mp later
          omega
      rcases spread.covered first head with armed | ⟨v, attends⟩
      · exact Or.inl (ready_startable waits member reached (armed_later armed (Nat.le_trans order reached)))
      · exact Or.inr ⟨v, Or.inl ⟨rfl, attends⟩⟩

/-- As long as no `DoWork` takes a task that has to wait for another one, no due task waits while a
worker is idle. -/
theorem none_waits {threads : Nat}
    (each : EachStep (Service.atomic caller) Unblocking (Service.initial R threads) events) :
    Always (Service.atomic caller) (NoneWaits caller) (Service.initial R threads) events := by
  refine always_under (I := fun s => Callers caller s ∧ Spread s) (fun s holds => spread_noneWaits holds.2) ?_
    ⟨initial_callers threads, initial_spread threads⟩ each
  rintro s event t ⟨callers, spread⟩ unblocking h
  exact ⟨atomic_callers callers h, atomic_spread callers spread unblocking h⟩

/-- Two tasks are due, and one worker takes both. -/
def takesBoth : List (Service.Event Unit) :=
  [.post 0 0 (), .post 1 0 (), .handler 0, .take 0, .start 0]

theorem takesBoth_waits {s : Service Unit}
    (h : run (Service.atomic fun _ => none) (Service.initial Unit 2) takesBoth = some s) :
    ¬ Startable (fun _ => none) s 1 ⟨0, .task (), 2⟩ ∧ ∀ v, ¬ StartsNext s v ⟨0, .task (), 2⟩ := by
  cases h
  constructor
  · rintro ⟨t, handled | expired, _⟩
    · cases handled
    · cases expired
  · rintro (_ | v) ⟨between, working⟩
    · cases between
    · cases working

/-- The first task runs on worker 0, the second one waits for it, and worker 1 is idle with nothing
to run. -/
theorem none_waits_sameBatch :
    ∃ s, run (Service.atomic fun _ => none) (Service.initial Unit 2) takesBoth = some s ∧
      Waits s 1 ∧ s.threads 0 = .running ∧ ⟨0, .task (), 2⟩ ∈ s.pump.tasks (.batch 0) ∧
      ¬ NoneWaits (fun _ => none) s := by
  obtain ⟨unstartable, alone⟩ := takesBoth_waits rfl
  refine ⟨_, rfl, ⟨by decide, rfl, rfl⟩, rfl, List.mem_singleton.mpr rfl, ?_⟩
  intro none
  rcases none 1 ⟨by decide, rfl, rfl⟩ (.batch 0) ⟨0, .task (), 2⟩ rfl (List.mem_singleton.mpr rfl) (Nat.le_refl 0) with
    startable | ⟨v, ⟨inSet, _⟩ | starts⟩
  · exact unstartable startable
  · cases inSet
  · exact alone v starts

/-- A task becomes due while another one runs. -/
def dueMeanwhile : List (Service.Event Unit) :=
  [.post 0 5 (), .post 1 0 (), .handler 0, .take 0, .start 0, .tick 5]

theorem dueMeanwhile_unblocking :
    EachStep (Service.atomic fun _ => none) Unblocking (Service.initial Unit 2) dueMeanwhile := by
  refine (eachStep_cons rfl).mpr ⟨trivial, (eachStep_cons rfl).mpr ⟨trivial,
    (eachStep_cons rfl).mpr ⟨trivial,
    (eachStep_cons rfl).mpr ⟨?_, (eachStep_cons rfl).mpr ⟨?_, (eachStep_cons rfl).mpr ⟨trivial, eachStep_nil⟩⟩⟩⟩⟩⟩
  · intro seen polled
    cases polled
    refine ⟨by decide, fun _ first found => ?_⟩
    cases found
    exact Or.inl (Or.inr ⟨5, rfl, by decide⟩)
  · intro task rest working stops
    cases working
    cases stops

theorem none_waits_dueMeanwhile :
    ∃ s, run (Service.atomic fun _ => none) (Service.initial Unit 2) dueMeanwhile = some s ∧
      Waits s 1 ∧ s.threads 0 = .running ∧ ⟨5, .task (), 1⟩ ∈ s.pump.tasks .runableSet ∧
      NoneWaits (fun _ => none) s :=
  ⟨_, rfl, ⟨by decide, rfl, rfl⟩, rfl, List.mem_singleton.mpr rfl,
    none_waits dueMeanwhile_unblocking dueMeanwhile [] _ (by simp) rfl⟩

end Kingkong.Pump
