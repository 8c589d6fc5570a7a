import Kingkong.Pump.Wakeup

/-!
`MessagePumpDefatlt` from its construction to the end of `Run`. `Stop` posts `DoStop` as a task like
any other and then sets `stoped_`. A call of `PostRunable` is made on a thread of its own or by a
task that runs on a worker, and such a worker goes on only when the call has returned.
-/

namespace Kingkong.Pump
open Lib State

variable {R : Type}

/-- What the pump is given to run: a task of its users, or the `DoStop` of `Stop`. -/
inductive Job (R : Type) where
  | task (runnable : R)
  | doStop
  deriving DecidableEq

/-- Where a worker is: not in a task, in a task, or in the call `c` that its task makes. -/
inductive Thread where
  | between
  | running
  | posting (c : Nat)
  deriving DecidableEq

/-- `stops` has the calls of `PostRunable` that were made by `Stop`. -/
structure Service (R : Type) where
  asio : Asio (Job R)
  threads : Nat → Thread := fun _ => .between
  stops : List Nat := []

namespace Service

abbrev pump (s : Service R) : State (Job R) := s.asio.pump

def lift (s : Service R) (event : Asio.Event (Job R)) : Option (Service R) :=
  (s.asio.step event).map fun asio => { s with asio := asio }

def setThread (s : Service R) (w : Nat) (thread : Thread) : Service R :=
  { s with threads := Function.update s.threads w thread }

/-- `PostRunable` up to the lock. `caller` is the worker whose task makes the call, if there is
one. -/
def post (caller : Nat → Option Nat) (s : Service R) (c delay : Nat) (runnable : R) :
    Option (Service R) :=
  match caller c with
  | none => s.lift (.pump (.enter c delay (.task runnable)))
  | some w =>
    match s.threads w with
    | .running =>
      (s.lift (.pump (.enter c delay (.task runnable)))).map fun t =>
        match t.pump.calls c with
        | .entered _ _ _ => t.setThread w (.posting c)
        | _ => t
    | _ => none

/-- `Stop` up to the lock of its `PostRunable`. A worker that called it would wait for itself in
`Join`. -/
def stop (caller : Nat → Option Nat) (s : Service R) (c : Nat) : Option (Service R) :=
  match caller c with
  | none => (s.lift (.pump (.enter c 0 .doStop))).map fun t => { t with stops := c :: t.stops }
  | some _ => none

/-- The end of `PostRunable`, with its `Wakeup`. -/
def wake (caller : Nat → Option Nat) (s : Service R) (c : Nat) : Option (Service R) :=
  (s.lift (.pump (.leave c))).map fun t =>
    match caller c with
    | some w => t.setThread w .running
    | none => t

def start (s : Service R) (w : Nat) : Option (Service R) :=
  match s.threads w, (s.pump.workers w).batch with
  | .between, task :: _ =>
    ((s.lift (.pump (.start w))).bind fun t =>
      match task.runnable with
      | .doStop => t.lift (.doStop w)
      | .task _ => some t).map fun t => t.setThread w .running
  | _, _ => none

inductive Event (R : Type) where
  | tick (elapsed : Nat)
  | post (c delay : Nat) (runnable : R)
  | stop (c : Nat)
  | insert (c : Nat)
  | wake (c : Nat)
  | stoped (c : Nat)
  | cancel (id : Nat)
  | expire
  | abort (w : Nat)
  | handler (w : Nat)
  | take (w : Nat)
  | start (w : Nat)
  | finish (w : Nat)
  | rearm (w : Nat)
  | clear (w : Nat)

def step (caller : Nat → Option Nat) (s : Service R) : Event R → Option (Service R)
  | .tick elapsed => s.lift (.pump (.tick elapsed))
  | .post c delay runnable => s.post caller c delay runnable
  | .stop c => s.stop caller c
  | .insert c => s.lift (.pump (.insert c))
  | .wake c => s.wake caller c
  | .stoped c => if c ∈ s.stops ∧ (s.pump.calls c).answer?.isSome then s.lift (.pump .stop) else none
  | .cancel x => s.lift (.pump (.cancel x))
  | .expire => s.lift .expire
  | .abort w => s.lift (.abort w)
  | .handler w => s.lift (.pump (.doWork w))
  | .take w => s.lift (.pump (.take w))
  | .start w => s.start w
  | .finish w =>
    match s.threads w with
    | .running => some (s.setThread w .between)
    | _ => none
  | .rearm w =>
    match s.threads w with
    | .between => s.lift (.pump (.rearm w))
    | _ => none
  | .clear w => s.lift (.pump (.clear w))

def initial (R : Type) (threads : Nat) : Service R := { asio := Asio.initial (Job R) threads }

/-- The step of the pump underneath. -/
def Event.pump : Event R → List (Pump.Event (Job R))
  | .tick elapsed => [.tick elapsed]
  | .post c delay runnable => [.enter c delay (.task runnable)]
  | .stop c => [.enter c 0 .doStop]
  | .insert c => [.insert c]
  | .wake c => [.leave c]
  | .stoped _ => [.stop]
  | .cancel x => [.cancel x]
  | .handler w => [.doWork w]
  | .take w => [.take w]
  | .start w => [.start w]
  | .rearm w => [.rearm w]
  | .clear w => [.clear w]
  | .expire | .abort _ | .finish _ => []

end Service

variable {s t : Service R} {caller : Nat → Option Nat} {event : Service.Event R} {events : List (Service.Event R)}

/-! ### What a step does -/

/-- A step of the pump that the service allows, and what the service makes of it. -/
structure Lifted (s t : Service R) (event : Event (Job R)) : Prop where
  allowed : s.asio.allows event = true
  pump : step s.pump event = some t.pump
  asio : t.asio = (s.asio.follow event t.pump).settle

theorem lift_pump {event : Event (Job R)} (h : s.lift (.pump event) = some t) :
    Lifted s t event ∧ t.threads = s.threads ∧ t.stops = s.stops := by
  obtain ⟨asio, stepped, rfl⟩ := Option.map_eq_some_iff.mp h
  obtain ⟨allowed, next, moved, rfl⟩ := asio_pump stepped
  have same : (s.asio.follow event next).settle.pump = next := follow_pump event next
  refine ⟨⟨allowed, ?_, ?_⟩, rfl, rfl⟩
  · rw [moved]
    exact congrArg some same.symm
  · show _ = (s.asio.follow event (s.asio.follow event next).settle.pump).settle
    rw [same]

theorem lift_of_step {event : Event (Job R)} {next : State (Job R)}
    (allowed : s.asio.allows event = true) (stepped : step s.pump event = some next) :
    s.lift (.pump event) = some { s with asio := (s.asio.follow event next).settle } := by
  simp [Service.lift, Asio.step, Asio.move, allowed, stepped]

theorem post_cases {c delay : Nat} {runnable : R} (h : s.post caller c delay runnable = some t) :
    Lifted s t (.enter c delay (.task runnable)) ∧ t.stops = s.stops ∧
      (t.threads = s.threads ∧ (caller c = none ∨ t.pump.calls c = .refused) ∨
        ∃ w, caller c = some w ∧ s.threads w = .running ∧
          t.threads = Function.update s.threads w (.posting c) ∧
          ∃ tick delay job, t.pump.calls c = .entered tick delay job) := by
  unfold Service.post at h
  split at h
  · rename_i outside
    obtain ⟨lifted, threads, stops⟩ := lift_pump h
    exact ⟨lifted, stops, Or.inl ⟨threads, Or.inl outside⟩⟩
  · rename_i w inside
    split at h
    · rename_i running
      obtain ⟨next, entered, same⟩ := Option.map_eq_some_iff.mp h
      obtain ⟨lifted, threads, stops⟩ := lift_pump entered
      split at same
      · rename_i tick delay job entered
        subst same
        exact ⟨⟨lifted.allowed, lifted.pump, lifted.asio⟩, stops,
          Or.inr ⟨w, inside, running, congrArg (Function.update · w _) threads, tick, delay, job, entered⟩⟩
      · rename_i notEntered
        subst same
        refine ⟨lifted, stops, Or.inl ⟨threads, Or.inr ?_⟩⟩
        obtain ⟨_, after⟩ := enter_cases lifted.pump
        rw [after] at notEntered ⊢
        cases stoped : s.pump.stoped
        · exact absurd (by simp [setCall, stoped]) (notEntered s.pump.now delay (.task runnable))
        · simp [setCall]
    · cases h

theorem stop_cases {c : Nat} (h : s.stop caller c = some t) :
    caller c = none ∧ Lifted s t (.enter c 0 .doStop) ∧ t.threads = s.threads ∧
      t.stops = c :: s.stops := by
  unfold Service.stop at h
  split at h
  · rename_i outside
    obtain ⟨next, entered, rfl⟩ := Option.map_eq_some_iff.mp h
    obtain ⟨lifted, threads, stops⟩ := lift_pump entered
    exact ⟨outside, ⟨lifted.allowed, lifted.pump, lifted.asio⟩, threads, congrArg (c :: ·) stops⟩
  · cases h

theorem wake_cases {c : Nat} (h : s.wake caller c = some t) :
    Lifted s t (.leave c) ∧ t.stops = s.stops ∧
      (caller c = none ∧ t.threads = s.threads ∨
        ∃ w, caller c = some w ∧ t.threads = Function.update s.threads w .running) := by
  obtain ⟨next, left, same⟩ := Option.map_eq_some_iff.mp h
  obtain ⟨lifted, threads, stops⟩ := lift_pump left
  split at same
  · rename_i w inside
    subst same
    exact ⟨⟨lifted.allowed, lifted.pump, lifted.asio⟩, stops,
      Or.inr ⟨w, inside, congrArg (Function.update · w _) threads⟩⟩
  · rename_i outside
    subst same
    exact ⟨lifted, stops, Or.inl ⟨outside, threads⟩⟩

/-- What the service makes of the `DoStop` that a worker has just started. -/
def Asio.stopIf (a : Asio (Job R)) : Job R → Asio (Job R)
  | .doStop => Asio.settle { a.cancelTimer with work := false }
  | .task _ => a

theorem service_start_cases {w : Nat} (h : s.start w = some t) :
    ∃ task rest, s.threads w = .between ∧ (s.pump.workers w).batch = task :: rest ∧
      step s.pump (.start w) = some t.pump ∧
      t.asio = Asio.stopIf (Asio.settle { s.asio with pump := t.pump }) task.runnable ∧
      t.threads = Function.update s.threads w .running ∧ t.stops = s.stops := by
  unfold Service.start at h
  split at h
  · rename_i task rest between next
    obtain ⟨after, started, rfl⟩ := Option.map_eq_some_iff.mp h
    obtain ⟨middle, begun, stops⟩ := Option.bind_eq_some_iff.mp started
    obtain ⟨lifted, threads, kept⟩ := lift_pump begun
    cases job : task.runnable with
    | task runnable =>
      rw [job] at stops
      cases stops
      exact ⟨task, rest, between, next, lifted.pump, by rw [job]; exact lifted.asio,
        congrArg (Function.update · w _) threads, kept⟩
    | doStop =>
      rw [job] at stops
      obtain ⟨asio, stopped, rfl⟩ := Option.map_eq_some_iff.mp stops
      obtain ⟨_, rfl⟩ := doStop_cases stopped
      refine ⟨task, rest, between, next, lifted.pump, ?_,
        congrArg (Function.update · w _) threads, kept⟩
      rw [job]
      exact congrArg (fun a : Asio (Job R) => Asio.settle { a.cancelTimer with work := false }) lifted.asio
  · cases h

theorem finish_cases {w : Nat} (h : s.step caller (.finish w) = some t) :
    s.threads w = .running ∧ t = s.setThread w .between := by
  simp only [Service.step] at h
  split at h <;> cases h
  rename_i running
  exact ⟨running, rfl⟩

theorem service_rearm_cases {w : Nat} (h : s.step caller (.rearm w) = some t) :
    s.threads w = .between ∧ Lifted s t (.rearm w) ∧ t.threads = s.threads ∧ t.stops = s.stops := by
  simp only [Service.step] at h
  split at h
  · rename_i between
    exact ⟨between, lift_pump h⟩
  · cases h

theorem stoped_cases {c : Nat} (h : s.step caller (.stoped c) = some t) :
    c ∈ s.stops ∧ Lifted s t .stop ∧ t.threads = s.threads ∧ t.stops = s.stops := by
  obtain ⟨enabled, h⟩ := Option.ite_none_right_eq_some.mp h
  exact ⟨enabled.1, lift_pump h⟩

theorem service_expire_cases (h : s.step caller .expire = some t) :
    ∃ expired, s.asio.timer = some expired ∧ expired ≤ s.pump.now ∧
      t = { s with
        asio := Asio.settle { s.asio with timer := none, queued := s.asio.queued + 1 } } := by
  obtain ⟨asio, stepped, rfl⟩ := Option.map_eq_some_iff.mp h
  obtain ⟨expired, armed, reached, rfl⟩ := expire_cases stepped
  exact ⟨expired, armed, reached, rfl⟩

theorem service_abort_cases {w : Nat} (h : s.step caller (.abort w) = some t) :
    t = { s with asio := Asio.settle { s.asio with aborted := s.asio.aborted - 1 } } := by
  obtain ⟨asio, stepped, rfl⟩ := Option.map_eq_some_iff.mp h
  obtain ⟨_, _, _, _, rfl⟩ := abort_cases stepped
  rfl

/-- Every run of the service is a run of the pump. -/
theorem service_pump (h : s.step caller event = some t) :
    run step s.pump event.pump = some t.pump := by
  have single : ∀ {e : Event (Job R)}, Lifted s t e → run step s.pump [e] = some t.pump :=
    fun lifted => run_cons.mpr ⟨_, lifted.pump, rfl⟩
  cases event with
  | tick elapsed => exact single (lift_pump h).1
  | post c delay runnable => exact single (post_cases h).1
  | stop c => exact single (stop_cases h).2.1
  | insert c => exact single (lift_pump h).1
  | wake c => exact single (wake_cases h).1
  | stoped c => exact single (stoped_cases h).2.1
  | cancel x => exact single (lift_pump h).1
  | expire => obtain ⟨_, _, _, rfl⟩ := service_expire_cases h; rfl
  | abort w => obtain rfl := service_abort_cases h; rfl
  | handler w => exact single (lift_pump h).1
  | take w => exact single (lift_pump h).1
  | start w =>
    obtain ⟨_, _, _, _, started, _⟩ := service_start_cases h
    exact run_cons.mpr ⟨_, started, rfl⟩
  | finish w => obtain ⟨_, rfl⟩ := finish_cases h; rfl
  | rearm w => exact single (service_rearm_cases h).2.1
  | clear w => exact single (lift_pump h).1

theorem service_step (h : s.step caller event = some t) :
    event.pump = [] ∧ t.pump = s.pump ∨ ∃ e, event.pump = [e] ∧ step s.pump e = some t.pump := by
  have stepped := service_pump h
  cases event with
  | expire | abort w | finish w => exact Or.inl ⟨rfl, (Option.some.inj stepped).symm⟩
  | _ =>
    obtain ⟨next, first, last⟩ := run_cons.mp stepped
    cases last
    exact Or.inr ⟨_, rfl, first⟩

theorem run_service_pump (h : run (Service.step caller) s events = some t) :
    run step s.pump (events.flatMap Service.Event.pump) = some t.pump := by
  induction events generalizing s with
  | nil => cases h; rfl
  | cons event rest ih =>
    obtain ⟨next, first, h⟩ := run_cons.mp h
    rw [List.flatMap_cons]
    exact run_append.mpr ⟨next.pump, service_pump first, ih h⟩

/-! ### Who is in a call -/

/-- Between the test of `stoped_` and the return. -/
def Call.inFlight : Call R → Bool
  | .entered _ _ _ | .inserted _ _ _ _ => true
  | _ => false

/-- A call made by a task keeps its worker waiting, a worker that runs a task is in `DoWork`, and
nobody is in `DoOneWork`. -/
structure Callers (caller : Nat → Option Nat) (s : Service R) : Prop where
  posting : ∀ c w, caller c = some w → (s.pump.calls c).inFlight = true → s.threads w = .posting c
  working : ∀ w, s.threads w ≠ .between → ∃ batch, s.pump.workers w = .working batch
  plain : ∀ w, s.pump.workers w = .idle ∨ s.pump.workers w = .exited ∨
    w < s.pump.threads ∧ (s.pump.workers w).inDoWork = true

theorem initial_callers (threads : Nat) : Callers caller (Service.initial R threads) where
  posting _ _ _ flight := by cases flight
  working _ busy := absurd rfl busy
  plain _ := Or.inl rfl

theorem callers_frame (callers : Callers caller s) (calls : t.pump.calls = s.pump.calls)
    (workers : t.pump.workers = s.pump.workers) (bound : t.pump.threads = s.pump.threads)
    (threads : t.threads = s.threads) : Callers caller t where
  posting := by rw [calls, threads]; exact callers.posting
  working := by rw [workers, threads]; exact callers.working
  plain := by rw [workers, bound]; exact callers.plain

/-- One worker moves on. -/
theorem callers_worker {w : Nat} {worker : Worker (Job R)} (callers : Callers caller s)
    (calls : t.pump.calls = s.pump.calls)
    (workers : t.pump.workers = Function.update s.pump.workers w worker)
    (bound : t.pump.threads = s.pump.threads) (threads : t.threads = s.threads)
    (busy : s.threads w = .between ∨ ∃ batch, worker = .working batch)
    (plain : worker = .idle ∨ worker = .exited ∨ w < s.pump.threads ∧ worker.inDoWork = true) :
    Callers caller t where
  posting := by rw [calls, threads]; exact callers.posting
  working v running := by
    rw [threads] at running
    rw [workers]
    by_cases here : v = w
    · subst here
      rw [Function.update_self]
      exact busy.resolve_left running
    · rw [Function.update_of_ne here]
      exact callers.working v running
  plain v := by
    rw [workers, bound]
    by_cases here : v = w
    · subst here
      rw [Function.update_self]
      exact plain
    · rw [Function.update_of_ne here]
      exact callers.plain v

/-- The call `c` moves on while its caller waits. -/
theorem callers_call {c : Nat} {call : Call (Job R)} (callers : Callers caller s)
    (calls : t.pump.calls = Function.update s.pump.calls c call)
    (workers : t.pump.workers = s.pump.workers) (bound : t.pump.threads = s.pump.threads)
    (threads : t.threads = s.threads)
    (waits : caller c = none ∨ call.inFlight = false ∨ (s.pump.calls c).inFlight = true) :
    Callers caller t where
  posting d w inside flight := by
    rw [threads]
    rw [calls] at flight
    by_cases here : d = c
    · subst here
      rw [Function.update_self] at flight
      rcases waits with outside | returned | before
      · rw [outside] at inside; cases inside
      · rw [returned] at flight; cases flight
      · exact callers.posting d w inside before
    · rw [Function.update_of_ne here] at flight
      exact callers.posting d w inside flight
  working := by rw [workers, threads]; exact callers.working
  plain := by rw [workers, bound]; exact callers.plain

theorem working_bound (callers : Callers caller s) {w : Nat}
    (busy : (s.pump.workers w).inDoWork = true) :
    w < s.pump.threads := by
  rcases callers.plain w with idle | exited | both
  · rw [idle] at busy; cases busy
  · rw [exited] at busy; cases busy
  · exact both.1

/-- A worker that is not past the first locked section of `DoWork` is not in a task. -/
theorem between_idle (callers : Callers caller s) {w : Nat}
    (idle : ∀ batch, s.pump.workers w ≠ .working batch) :
    s.threads w = .between := by
  by_contra busy
  obtain ⟨batch, working⟩ := callers.working w busy
  exact idle batch working

theorem post_callers {c delay : Nat} {runnable : R} (callers : Callers caller s)
    (h : s.step caller (.post c delay runnable) = some t) : Callers caller t := by
  obtain ⟨lifted, _, threads⟩ := post_cases h
  obtain ⟨idle, after⟩ := enter_cases lifted.pump
  have calls : t.pump.calls =
      Function.update s.pump.calls c (t.pump.calls c) := by rw [after]; simp [setCall]
  have workers : t.pump.workers = s.pump.workers := by rw [after]; rfl
  have bound : t.pump.threads = s.pump.threads := by rw [after]; rfl
  rcases threads with ⟨threads, outside | refused⟩ | ⟨w, inside, running, threads, _⟩
  · exact callers_call callers calls workers bound threads (Or.inl outside)
  · exact callers_call callers calls workers bound threads (Or.inr (Or.inl (by rw [refused]; rfl)))
  · -- The task of `w` had no other call in flight, or `w` would be waiting for that one.
    refine ⟨?_, ?_, by rw [workers, bound]; exact callers.plain⟩
    · intro d v made flight
      rw [threads]
      by_cases here : d = c
      · subst here
        cases inside.symm.trans made
        simp
      · rw [calls, Function.update_of_ne here] at flight
        have posting := callers.posting d v made flight
        have apart : v ≠ w := by
          rintro rfl
          rw [running] at posting
          cases posting
        rw [Function.update_of_ne apart]
        exact posting
    · intro v busy
      rw [workers]
      rw [threads] at busy
      by_cases here : v = w
      · subst here
        exact callers.working v (by rw [running]; simp)
      · rw [Function.update_of_ne here] at busy
        exact callers.working v busy

theorem wake_callers {c : Nat} (callers : Callers caller s) (h : s.step caller (.wake c) = some t) :
    Callers caller t := by
  obtain ⟨lifted, _, threads⟩ := wake_cases h
  obtain ⟨tick, delay, x, wakeup, inserted, after⟩ := leave_cases lifted.pump
  have calls : t.pump.calls =
      Function.update s.pump.calls c (.returned tick delay x) := by rw [after]; rfl
  have workers : t.pump.workers = s.pump.workers := by rw [after]; rfl
  have bound : t.pump.threads = s.pump.threads := by rw [after]; rfl
  rcases threads with ⟨_, threads⟩ | ⟨w, inside, threads⟩
  · exact callers_call callers calls workers bound threads (Or.inr (Or.inl rfl))
  · have posting := callers.posting c w inside (by rw [inserted]; rfl)
    refine ⟨?_, ?_, by rw [workers, bound]; exact callers.plain⟩
    · intro d v made flight
      rw [calls] at flight
      by_cases here : d = c
      · subst here
        rw [Function.update_self] at flight
        cases flight
      · rw [Function.update_of_ne here] at flight
        have other := callers.posting d v made flight
        have apart : v ≠ w := by
          rintro rfl
          rw [posting] at other
          exact here (Thread.posting.inj other).symm
        rw [threads, Function.update_of_ne apart]
        exact other
    · intro v busy
      rw [workers]
      rw [threads] at busy
      by_cases here : v = w
      · subst here
        exact callers.working v (by rw [posting]; simp)
      · rw [Function.update_of_ne here] at busy
        exact callers.working v busy

/-- The worker that starts a task has it at the head of its batch. -/
theorem start_working (callers : Callers caller s) {w : Nat}
    (h : s.step caller (.start w) = some t) :
    ∃ task rest, s.threads w = .between ∧ s.pump.workers w = .working (task :: rest) ∧
      t.pump = { s.pump.setWorker w (.working rest) with started := s.pump.started ++ [task] } ∧
      t.asio = Asio.stopIf (Asio.settle { s.asio with pump := t.pump }) task.runnable ∧
      t.threads = Function.update s.threads w .running ∧ t.stops = s.stops := by
  obtain ⟨task, rest, between, next, started, asio, threads, stops⟩ := service_start_cases h
  have working : s.pump.workers w = .working (task :: rest) := by
    rcases callers.plain w with idle | exited | ⟨_, busy⟩
    · rw [idle] at next; cases next
    · rw [exited] at next; cases next
    · cases worker : s.pump.workers w with
      | working batch =>
        rw [worker] at next
        exact congrArg Worker.working next
      | polled seen => rw [worker] at next; cases next
      | _ => rw [worker] at busy; cases busy
  refine ⟨task, rest, between, working, ?_, asio, threads, stops⟩
  simp only [step, State.start, working, Option.some.injEq] at started
  exact started.symm

theorem start_callers {w : Nat} (callers : Callers caller s)
    (h : s.step caller (.start w) = some t) :
    Callers caller t := by
  obtain ⟨task, rest, _, working, after, _, threads, _⟩ := start_working callers h
  have moved : Callers caller { t with threads := s.threads } :=
    callers_worker callers (by rw [after]; rfl)
      (show t.pump.workers = Function.update _ w (.working rest) by rw [after]; rfl)
      (by rw [after]; rfl) rfl (Or.inr ⟨rest, rfl⟩)
      (Or.inr (Or.inr ⟨working_bound callers (by rw [working]; rfl), rfl⟩))
  refine ⟨?_, ?_, moved.plain⟩
  · intro c v made flight
    have posting := moved.posting c v made flight
    have apart : v ≠ w := by
      rintro rfl
      have between : s.threads v = .between := by assumption
      rw [show s.threads v = _ from posting] at between
      cases between
    rw [threads, Function.update_of_ne apart]
    exact posting
  · intro v busy
    rw [threads] at busy
    by_cases here : v = w
    · subst here
      exact ⟨rest, by rw [after]; simp [setWorker]⟩
    · rw [Function.update_of_ne here] at busy
      exact moved.working v busy

theorem finish_callers {w : Nat} (callers : Callers caller s)
    (h : s.step caller (.finish w) = some t) :
    Callers caller t := by
  obtain ⟨running, rfl⟩ := finish_cases h
  refine ⟨?_, ?_, callers.plain⟩
  · intro c v made flight
    have posting := callers.posting c v made flight
    have apart : v ≠ w := by
      rintro rfl
      rw [running] at posting
      cases posting
    simpa [Service.setThread, apart] using posting
  · intro v busy
    by_cases here : v = w
    · subst here
      simp [Service.setThread] at busy
    · simp only [Service.setThread, Function.update_of_ne here] at busy
      exact callers.working v busy

theorem step_callers (callers : Callers caller s) (h : s.step caller event = some t) :
    Callers caller t := by
  cases event with
  | tick elapsed =>
    obtain ⟨lifted, threads, _⟩ := lift_pump h
    have after := Option.some.inj lifted.pump
    exact callers_frame callers (by rw [← after]) (by rw [← after]) (by rw [← after]) threads
  | post c delay runnable => exact post_callers callers h
  | stop c =>
    obtain ⟨outside, lifted, threads, _⟩ := stop_cases h
    obtain ⟨_, after⟩ := enter_cases lifted.pump
    exact callers_call callers (by rw [after]; rfl) (by rw [after]; rfl) (by rw [after]; rfl) threads (Or.inl outside)
  | insert c =>
    obtain ⟨lifted, threads, _⟩ := lift_pump h
    obtain ⟨_, _, _, entered, after⟩ := insert_cases lifted.pump
    exact callers_call callers (by rw [after]; rfl) (by rw [after]; rfl) (by rw [after]; rfl) threads
      (Or.inr (Or.inr (by rw [entered]; rfl)))
  | wake c => exact wake_callers callers h
  | stoped c =>
    obtain ⟨_, lifted, threads, _⟩ := stoped_cases h
    have after := Option.some.inj lifted.pump
    exact callers_frame callers (by rw [← after]) (by rw [← after]) (by rw [← after]) threads
  | cancel x =>
    obtain ⟨lifted, threads, _⟩ := lift_pump h
    have after := Option.some.inj lifted.pump
    rcases cancel_cases (s := s.pump) x with ⟨_, same, _⟩ | ⟨_, _, _, _, removed, _⟩
    · rw [same] at after
      exact callers_frame callers (by rw [← after]) (by rw [← after]) (by rw [← after]) threads
    · rw [removed] at after
      exact callers_frame callers (by rw [← after]) (by rw [← after]) (by rw [← after]) threads
  | expire =>
    obtain ⟨_, _, _, rfl⟩ := service_expire_cases h
    exact callers_frame callers rfl rfl rfl rfl
  | abort w =>
    obtain rfl := service_abort_cases h
    exact callers_frame callers rfl rfl rfl rfl
  | handler w =>
    obtain ⟨lifted, threads, _⟩ := lift_pump h
    obtain ⟨idle, bound, after⟩ := poll_cases lifted.pump
    exact callers_worker callers (by rw [after]; rfl) (by rw [after]; rfl) (by rw [after]; rfl) threads
      (Or.inl (between_idle callers (by simp [idle]))) (Or.inr (Or.inr ⟨bound, rfl⟩))
  | take w =>
    obtain ⟨lifted, threads, _⟩ := lift_pump h
    obtain ⟨seen, polled, after⟩ := take_cases lifted.pump
    exact callers_worker callers (by rw [after]; rfl) (by rw [after]; rfl) (by rw [after]; rfl) threads
      (Or.inr ⟨_, rfl⟩) (Or.inr (Or.inr ⟨working_bound callers (by rw [polled]; rfl), rfl⟩))
  | start w => exact start_callers callers h
  | finish w => exact finish_callers callers h
  | rearm w =>
    obtain ⟨between, lifted, threads, _⟩ := service_rearm_cases h
    obtain ⟨_, after⟩ := rearm_cases lifted.pump
    exact callers_worker callers (by rw [after]; rfl) (by rw [after]; rfl) (by rw [after]; rfl) threads
      (Or.inl between) (Or.inl rfl)
  | clear w =>
    obtain ⟨lifted, threads, _⟩ := lift_pump h
    obtain ⟨idle, _, after⟩ := clear_cases lifted.pump
    exact callers_worker callers (by rw [after]; rfl) (by rw [after]; rfl) (by rw [after]; rfl) threads
      (Or.inl (between_idle callers (by simp [idle]))) (Or.inr (Or.inl rfl))

/-! ### Tasks of a pump at rest -/

theorem calm_batch (callers : Callers caller s) (calm : ¬ Busy s.pump) (w : Nat) :
    (s.pump.workers w).batch = [] := by
  rcases callers.plain w with idle | exited | ⟨_, busy⟩
  · rw [idle]; rfl
  · rw [exited]; rfl
  · exact absurd ⟨w, busy⟩ calm

/-- When the set is empty and no worker is in `DoWork`, every task whose call has answered is
started, cancelled or discarded. -/
theorem answered_ended (callers : Callers caller s) (conserved : Conserved s.pump)
    (empty : s.pump.runableSet.elems = []) (calm : ¬ Busy s.pump) {c x : Nat}
    (answer : (s.pump.calls c).answer? = some x) (nonzero : x ≠ 0) :
    ∃ place, place.live = false ∧ (s.pump.ids place).count x = 1 ∧
      ∀ other, other ≠ place → (s.pump.ids other).count x = 0 := by
  have bounds := conserved.drawn c x (answer_drawn answer nonzero)
  obtain ⟨place, here, elsewhere⟩ := conserved.accepted x bounds.1 bounds.2
  refine ⟨place, ?_, here, elsewhere⟩
  cases place with
  | runableSet => simp [State.ids, State.tasks, empty] at here
  | batch w => simp [State.ids, State.tasks, calm_batch callers calm] at here
  | started | cancelled | discarded => rfl

end Kingkong.Pump
