import Kingkong.Pump.Service

/-!
`Stop` drains the pump. `DoStop` cancels the timer and gives up `work_`, but it runs as a task of a
`DoWork`, and the end of `DoWork` arms the timer again or queues another `DoWork` as long as the set
is not empty. So `run` returns only when the set is empty.
-/

namespace Kingkong.Pump
open Lib State

variable {R : Type} {s t : Service R} {caller : Nat → Option Nat} {event : Service.Event R}
  {events : List (Service.Event R)}

/-- `Stop` is called when every call of `PostRunable` made from outside has returned, and no such
call is made after it. Once `stoped_` is set both are refused. -/
def Prompt (caller : Nat → Option Nat) (s : Service R) : Service.Event R → Prop
  | .post c _ _ => caller c = none → s.stops = [] ∨ s.pump.stoped = true
  | .stop _ => s.pump.stoped = true ∨ s.stops = [] ∧ ∀ c, caller c = none → (s.pump.calls c).inFlight = false
  | _ => True

/-! ### Nothing comes from outside behind `DoStop` -/

/-- `Stop` was called, and no call from outside is about to insert a task. -/
def Closing (caller : Nat → Option Nat) (s : Service R) : Prop :=
  s.stops ≠ [] ∧ ∀ c tick delay job, caller c = none → s.pump.calls c ≠ .entered tick delay job

structure Shutdown (caller : Nat → Option Nat) (s : Service R) : Prop where
  alone : ∀ c tick delay, s.pump.calls c = .entered tick delay .doStop →
    s.stops ≠ [] ∧ ∀ d tick delay job, d ≠ c → caller d = none → s.pump.calls d ≠ .entered tick delay job
  posted : ∀ place, ∀ info ∈ s.pump.tasks place, info.runnable = .doStop → Closing caller s
  released : s.asio.work = false → Closing caller s

theorem initial_shutdown (threads : Nat) : Shutdown caller (Service.initial R threads) where
  alone _ _ _ entered := by cases entered
  posted place _ member := by cases place <;> cases member
  released released := by cases released

theorem step_entered (h : s.step caller event = some t) {c tick delay : Nat} {job : Job R}
    (entered : t.pump.calls c = .entered tick delay job) :
    s.pump.calls c = .entered tick delay job ∨
      s.pump.stoped = false ∧ event.pump = [.enter c delay job] := by
  rcases service_step h with ⟨_, same⟩ | ⟨e, pump, stepped⟩
  · rw [same] at entered
    exact Or.inl entered
  · rcases step_calls stepped c with
        same | ⟨_, refused | ⟨_, _, rfl, after⟩⟩ | ⟨_, _, _, _, _, _, inserted⟩ |
      ⟨_, _, _, _, _, _, returned⟩
    · exact Or.inl (same ▸ entered)
    · rw [refused] at entered; cases entered
    · cases after.symm.trans entered
      obtain ⟨_, next⟩ := enter_cases stepped
      refine Or.inr ⟨?_, pump⟩
      cases stoped : s.pump.stoped with
      | false => rfl
      | true => rw [next] at after; simp [setCall, stoped] at after
    · rw [inserted] at entered; cases entered
    · rw [returned] at entered; cases entered

theorem step_stops (h : s.step caller event = some t) :
    t.stops = s.stops ∨ ∃ c, event = .stop c ∧ t.stops = c :: s.stops := by
  cases event with
  | stop c => exact Or.inr ⟨c, rfl, (stop_cases h).2.2.2⟩
  | post c delay runnable => exact Or.inl (post_cases h).2.1
  | wake c => exact Or.inl (wake_cases h).2.1
  | stoped c => exact Or.inl (stoped_cases h).2.2.2
  | expire => obtain ⟨_, _, _, rfl⟩ := service_expire_cases h; exact Or.inl rfl
  | abort w => obtain rfl := service_abort_cases h; exact Or.inl rfl
  | start w => obtain ⟨_, _, _, _, _, _, _, stops⟩ := service_start_cases h; exact Or.inl stops
  | finish w => obtain ⟨_, rfl⟩ := finish_cases h; exact Or.inl rfl
  | rearm w => exact Or.inl (service_rearm_cases h).2.2.2
  | _ => exact Or.inl (lift_pump h).2.2

theorem stops_grow (h : s.step caller event = some t) (called : s.stops ≠ []) : t.stops ≠ [] := by
  rcases step_stops h with same | ⟨c, _, after⟩
  · rwa [same]
  · rw [after]; simp

/-- A call that comes from outside passes the test of `stoped_` only as long as `Stop` was not
called before. -/
theorem outside_enters (prompt : Prompt caller s event) {c delay : Nat} {job : Job R}
    (outside : caller c = none) (enters : event.pump = [.enter c delay job])
    (open' : s.pump.stoped = false) : s.stops = [] := by
  cases event with
  | post d delay runnable =>
    cases enters
    refine (prompt outside).resolve_right ?_
    rw [open']
    simp
  | stop d =>
    rcases prompt with stoped | early
    · rw [open'] at stoped; cases stoped
    · exact early.1
  | _ => cases enters

theorem step_closing (closing : Closing caller s) (prompt : Prompt caller s event)
    (h : s.step caller event = some t) :
    Closing caller t := by
  refine ⟨stops_grow h closing.1, ?_⟩
  intro c tick delay job outside entered
  rcases step_entered h entered with before | ⟨stoped, enters⟩
  · exact closing.2 c tick delay job outside before
  · exact closing.1 (outside_enters prompt outside enters stoped)

/-- A `DoStop` that is about to be inserted closes the pump. -/
theorem insert_closing (shutdown : Shutdown caller s) {c tick delay : Nat}
    (entered : s.pump.calls c = .entered tick delay .doStop) (h : s.step caller event = some t)
    (inserts : event.pump = [.insert c]) : Closing caller t := by
  obtain ⟨called, alone⟩ := shutdown.alone c tick delay entered
  refine ⟨stops_grow h called, ?_⟩
  intro d tick delay job outside after
  rcases step_entered h after with before | ⟨_, enters⟩
  · by_cases here : d = c
    · subst here
      rcases service_step h with ⟨none, _⟩ | ⟨e, pump, stepped⟩
      · rw [none] at inserts; cases inserts
      · cases pump.symm.trans inserts
        obtain ⟨_, _, _, _, next⟩ := insert_cases stepped
        rw [next] at after
        simp [setCall] at after
    · exact alone d tick delay job here outside before
  · rw [enters] at inserts; cases inserts

theorem step_alone (shutdown : Shutdown caller s) (prompt : Prompt caller s event)
    (h : s.step caller event = some t) {c tick delay : Nat}
    (entered : t.pump.calls c = .entered tick delay .doStop) :
    t.stops ≠ [] ∧ ∀ d tick delay job, d ≠ c → caller d = none →
      t.pump.calls d ≠ .entered tick delay job := by
  rcases step_entered h entered with before | ⟨stoped, enters⟩
  · obtain ⟨called, alone⟩ := shutdown.alone c tick delay before
    refine ⟨stops_grow h called, ?_⟩
    intro d tick delay job apart outside after
    rcases step_entered h after with old | ⟨stoped, enters⟩
    · exact alone d tick delay job apart outside old
    · exact called (outside_enters prompt outside enters stoped)
  · -- `Stop` has just passed the test of `stoped_`, and no other call is between its test and its return.
    cases event with
    | stop b =>
      cases enters
      refine ⟨by rw [(stop_cases h).2.2.2]; simp, ?_⟩
      intro d tick delay job apart outside after
      rcases step_entered h after with old | ⟨_, enters⟩
      · rcases prompt with stoped' | ⟨_, returned⟩
        · rw [stoped] at stoped'; cases stoped'
        · have back := returned d outside
          rw [old] at back
          cases back
      · cases enters
        exact apart rfl
    | _ => cases enters

theorem wakeup_flags (a : Asio R) (expired : Nat) :
    (a.wakeup expired).work = a.work ∧ (a.wakeup expired).stopped = a.stopped := by
  unfold Asio.wakeup
  split <;> exact ⟨rfl, rfl⟩

theorem follow_flags (a : Asio R) (event : Event R) (pump : State R) :
    (a.follow event pump).work = a.work ∧ (a.follow event pump).stopped = a.stopped := by
  cases event with
  | leave c =>
    simp only [Asio.follow]
    split
    · exact wakeup_flags _ _
    · exact ⟨rfl, rfl⟩
  | rearm w =>
    simp only [Asio.follow]
    split
    · exact wakeup_flags _ _
    · exact ⟨rfl, rfl⟩
  | _ => exact ⟨rfl, rfl⟩

theorem lifted_work {e : Event (Job R)} (lifted : Lifted s t e) : t.asio.work = s.asio.work := by
  rw [lifted.asio]
  exact (follow_flags s.asio e t.pump).1

/-- Only `DoStop` gives up `work_`. -/
theorem step_work (h : s.step caller event = some t) :
    t.asio.work = s.asio.work ∨ ∃ w, ∃ info ∈ s.pump.tasks (.batch w), info.runnable = .doStop := by
  cases event with
  | stop c => exact Or.inl (lifted_work (stop_cases h).2.1)
  | post c delay runnable => exact Or.inl (lifted_work (post_cases h).1)
  | wake c => exact Or.inl (lifted_work (wake_cases h).1)
  | stoped c => exact Or.inl (lifted_work (stoped_cases h).2.1)
  | expire => obtain ⟨_, _, _, rfl⟩ := service_expire_cases h; exact Or.inl rfl
  | abort w => obtain rfl := service_abort_cases h; exact Or.inl rfl
  | start w =>
    obtain ⟨task, rest, _, next, _, asio, _, _⟩ := service_start_cases h
    cases job : task.runnable with
    | task runnable =>
      rw [asio, job]
      exact Or.inl rfl
    | doStop => exact Or.inr ⟨w, task, show task ∈ (s.pump.workers w).batch by rw [next]; exact List.mem_cons_self, job⟩
  | finish w => obtain ⟨_, rfl⟩ := finish_cases h; exact Or.inl rfl
  | rearm w => exact Or.inl (lifted_work (service_rearm_cases h).2.1)
  | _ => exact Or.inl (lifted_work (lift_pump h).1)

theorem step_shutdown (shutdown : Shutdown caller s) (prompt : Prompt caller s event)
    (h : s.step caller event = some t) :
    Shutdown caller t where
  alone _ _ _ entered := step_alone shutdown prompt h entered
  posted place info member stops := by
    rcases service_step h with ⟨_, same⟩ | ⟨e, pump, stepped⟩
    · rw [same] at member
      exact step_closing (shutdown.posted place info member stops) prompt h
    · rcases step_mem stepped member with ⟨source, before⟩ | ⟨c, tick, delay, rfl, entered, _⟩
      · exact step_closing (shutdown.posted source info before stops) prompt h
      · rw [stops] at entered
        exact insert_closing shutdown entered h pump
  released released := by
    rcases step_work h with same | ⟨w, info, member, stops⟩
    · exact step_closing (shutdown.released (same ▸ released)) prompt h
    · exact step_closing (shutdown.posted _ info member stops) prompt h

/-! ### The service runs out of work only when the set is empty -/

def Alive (a : Asio R) : Prop := 0 < a.queued ∨ a.timer.isSome = true ∨ Busy a.pump

structure Draining (a : Asio R) : Prop where
  kept : a.work = false → a.pump.runableSet.elems = [] ∨ Alive a
  ended : a.stopped = true → a.work = false ∧ a.pump.runableSet.elems = [] ∧ ¬ Busy a.pump
  none : a.pump.discarded = []

theorem initial_draining (threads : Nat) : Draining (Service.initial R threads).asio where
  kept released := by cases released
  ended stopped := by cases stopped
  none := rfl

section Service

variable {a b : Asio R}

theorem settle_draining (bound : ∀ w, (a.pump.workers w).inDoWork = true → w < a.pump.threads)
    (draining : Draining a) :
    Draining a.settle := by
  refine ⟨draining.kept, ?_, draining.none⟩
  intro stopped
  rcases Bool.or_eq_true_iff.mp stopped with before | exhausted
  · exact draining.ended before
  · obtain ⟨released, queued, _, timer, idle⟩ := of_decide_eq_true exhausted
    have calm : ¬ Busy a.pump := by
      rintro ⟨w, busy⟩
      rw [idle w (bound w busy)] at busy
      cases busy
    refine ⟨released, ?_, calm⟩
    rcases draining.kept released with empty | waiting | armed | busy
    · exact empty
    · rw [queued] at waiting; exact absurd waiting (Nat.lt_irrefl 0)
    · rw [timer] at armed; cases armed
    · exact absurd busy calm

/-- A step that leaves the workers alone and takes neither the queued handlers nor the timer
away. -/
theorem draining_frame (draining : Draining a) (work : b.work = a.work)
    (stopped : b.stopped = a.stopped)
    (empty : a.pump.runableSet.elems = [] → b.pump.runableSet.elems = [])
    (workers : b.pump.workers = a.pump.workers) (alive : Alive a → Alive b)
    (discarded : b.pump.discarded = a.pump.discarded) : Draining b where
  kept released := (draining.kept (work ▸ released)).imp empty alive
  ended halted := by
    obtain ⟨released, vacant, calm⟩ := draining.ended (stopped ▸ halted)
    refine ⟨work.trans released, empty vacant, ?_⟩
    unfold Busy
    rw [workers]
    exact calm
  none := discarded.trans draining.none

theorem running_draining (running : a.stopped = false)
    (kept : a.pump.runableSet.elems = [] ∨ Alive a) (none : a.pump.discarded = []) :
    Draining a where
  kept _ := kept
  ended stopped := by rw [running] at stopped; cases stopped
  none := none

theorem wakeup_alive (expired : Nat) : Alive (a.wakeup expired) := by
  unfold Asio.wakeup
  split
  · exact Or.inr (Or.inl rfl)
  · exact Or.inl (Nat.succ_pos _)

theorem wakeup_draining (draining : Draining a) (expired : Nat) : Draining (a.wakeup expired) := by
  obtain ⟨work, stopped⟩ := wakeup_flags a expired
  refine draining_frame draining work stopped ?_ ?_ (fun _ => wakeup_alive expired) ?_
  · rw [wakeup_pump]; exact id
  · rw [wakeup_pump]
  · rw [wakeup_pump]

/-- A worker in `DoWork` keeps the service from running out of work. -/
theorem busy_running (draining : Draining a) (busy : Busy a.pump) : a.stopped = false := by
  cases stopped : a.stopped with
  | false => rfl
  | true => exact absurd busy (draining.ended stopped).2.2

end Service

theorem lifted_draining {e : Event (Job R)} (callers : Callers caller t) (lifted : Lifted s t e)
    (draining : Draining (s.asio.follow e t.pump)) : Draining t.asio := by
  rw [lifted.asio]
  refine settle_draining ?_ draining
  rw [follow_pump]
  exact fun w busy => working_bound callers busy

theorem pump_draining {e : Event (Job R)} (draining : Draining s.asio)
    (h : step s.pump e = some t.pump) (other : e.worker? = none) (notInsert : ∀ c, e ≠ .insert c) :
    Draining { s.asio with pump := t.pump } := by
  obtain ⟨workers, _, discarded⟩ := step_workers_same h other
  refine draining_frame draining rfl rfl (step_empty h notInsert) workers ?_ discarded
  rintro (queued | armed | busy)
  · exact Or.inl queued
  · exact Or.inr (Or.inl armed)
  · refine Or.inr (Or.inr ?_)
    unfold Busy
    rw [workers]
    exact busy

theorem wake_draining {c : Nat} (draining : Draining s.asio)
    (h : step s.pump (.leave c) = some t.pump) :
    Draining (s.asio.follow (.leave c) t.pump) := by
  have moved : Draining { s.asio with pump := t.pump } := pump_draining draining h rfl (by simp)
  simp only [Asio.follow]
  split
  · exact wakeup_draining moved _
  · exact moved

/-- A task is inserted before `work_` is given up, or by a task that keeps its worker in
`DoWork`. -/
theorem insert_draining {c : Nat} (callers : Callers caller s) (shutdown : Shutdown caller s)
    (draining : Draining s.asio) (h : step s.pump (.insert c) = some t.pump) :
    Draining { s.asio with pump := t.pump } := by
  obtain ⟨tick, delay, job, entered, _⟩ := insert_cases h
  obtain ⟨workers, _, discarded⟩ := step_workers_same h rfl
  have either : s.asio.work = true ∨ Busy s.pump := by
    cases made : caller c with
    | none =>
      refine Or.inl ?_
      by_contra released
      exact (shutdown.released (Bool.eq_false_iff.mpr released)).2 c tick delay job made entered
    | some w =>
      have posting := callers.posting c w made (by rw [entered]; rfl)
      obtain ⟨batch, working⟩ := callers.working w (by rw [posting]; simp)
      exact Or.inr ⟨w, by rw [working]; rfl⟩
  have running : s.asio.stopped = false := by
    rcases either with held | busy
    · cases stopped : s.asio.stopped with
      | false => rfl
      | true => rw [(draining.ended stopped).1] at held; cases held
    · exact busy_running draining busy
  refine ⟨?_, ?_, discarded.trans draining.none⟩
  · intro released
    rcases either with held | busy
    · rw [show s.asio.work = false from released] at held; cases held
    · refine Or.inr (Or.inr (Or.inr ?_))
      unfold Busy
      rw [workers]
      exact busy
  · intro stopped
    rw [show s.asio.stopped = true from stopped] at running
    cases running

theorem start_draining {w : Nat} (callers : Callers caller s) (draining : Draining s.asio)
    (h : s.step caller (.start w) = some t) : Draining t.asio := by
  obtain ⟨task, rest, _, working, pump, asio, _, _⟩ := start_working callers h
  have after := step_callers callers h
  have running := busy_running draining ⟨w, by rw [working]; rfl⟩
  have busy : Busy t.pump := ⟨w, by rw [pump]; simp [setWorker, Worker.inDoWork]⟩
  have discarded : t.pump.discarded = [] := by rw [pump]; exact draining.none
  have started : Draining (Asio.settle { s.asio with pump := t.pump }) :=
    settle_draining (fun v busy => working_bound after busy)
      (running_draining running (Or.inr (Or.inr (Or.inr busy))) discarded)
  rw [asio]
  cases task.runnable with
  | task runnable => exact started
  | doStop =>
    have still := busy_running started busy
    refine settle_draining (fun v busy => working_bound after busy) ?_
    exact running_draining still (Or.inr (Or.inr (Or.inr busy))) discarded

/-- At the end of `DoWork` the set is empty, or the service is told when to go on. -/
theorem rearm_draining {w : Nat} (draining : Draining s.asio)
    (h : step s.pump (.rearm w) = some t.pump) :
    Draining (s.asio.follow (.rearm w) t.pump) := by
  obtain ⟨working, after⟩ := rearm_cases h
  have running := busy_running draining ⟨w, by rw [working]; rfl⟩
  have discarded : t.pump.discarded = [] := by rw [after]; exact draining.none
  refine running_draining ((follow_flags _ _ _).2.trans running) ?_ (by rw [follow_pump]; exact discarded)
  rw [follow_pump]
  cases head : t.pump.runableSet.first? with
  | none => exact Or.inl (List.head?_eq_none_iff.mp head)
  | some first =>
    simp only [Asio.follow, head]
    exact Or.inr (wakeup_alive _)

theorem clear_draining {w : Nat} (draining : Draining s.asio) (lifted : Lifted s t (.clear w)) :
    Draining (s.asio.follow (.clear w) t.pump) := by
  obtain ⟨released, empty, calm⟩ := draining.ended lifted.allowed
  obtain ⟨idle, _, after⟩ := clear_cases lifted.pump
  have vacant : t.pump.runableSet.elems = [] := by rw [after]; rfl
  refine ⟨fun _ => Or.inl vacant, fun _ => ⟨released, vacant, ?_⟩, ?_⟩
  · rintro ⟨v, busy⟩
    refine calm ⟨v, ?_⟩
    simp only [Asio.follow] at busy
    rw [after] at busy
    by_cases here : v = w
    · subst here
      simp [setWorker, Worker.inDoWork] at busy
    · simpa [setWorker, here] using busy
  · simp only [Asio.follow]
    rw [after]
    show s.pump.discarded ++ s.pump.runableSet.elems = []
    rw [draining.none, empty]
    rfl

theorem step_draining (callers : Callers caller s) (shutdown : Shutdown caller s)
    (draining : Draining s.asio) (h : s.step caller event = some t) : Draining t.asio := by
  have after := step_callers callers h
  cases event with
  | tick elapsed =>
    have lifted := (lift_pump h).1
    exact lifted_draining after lifted (pump_draining draining lifted.pump rfl (by simp))
  | post c delay runnable =>
    have lifted := (post_cases h).1
    exact lifted_draining after lifted (pump_draining draining lifted.pump rfl (by simp))
  | stop c =>
    have lifted := (stop_cases h).2.1
    exact lifted_draining after lifted (pump_draining draining lifted.pump rfl (by simp))
  | stoped c =>
    have lifted := (stoped_cases h).2.1
    exact lifted_draining after lifted (pump_draining draining lifted.pump rfl (by simp))
  | cancel x =>
    have lifted := (lift_pump h).1
    exact lifted_draining after lifted (pump_draining draining lifted.pump rfl (by simp))
  | insert c =>
    have lifted := (lift_pump h).1
    exact lifted_draining after lifted (insert_draining callers shutdown draining lifted.pump)
  | wake c =>
    have lifted := (wake_cases h).1
    exact lifted_draining after lifted (wake_draining draining lifted.pump)
  | expire =>
    obtain ⟨_, _, _, rfl⟩ := service_expire_cases h
    refine settle_draining (fun w busy => working_bound callers busy) ?_
    exact draining_frame draining rfl rfl id rfl (fun _ => Or.inl (Nat.succ_pos _)) rfl
  | abort w =>
    obtain rfl := service_abort_cases h
    refine settle_draining (fun w busy => working_bound callers busy) ?_
    exact draining_frame draining rfl rfl id rfl id rfl
  | handler w =>
    have lifted := (lift_pump h).1
    obtain ⟨_, _, polled⟩ := poll_cases lifted.pump
    have enabled := of_decide_eq_true lifted.allowed
    refine lifted_draining after lifted
      (running_draining enabled.2 (Or.inr (Or.inr (Or.inr ⟨w, ?_⟩))) ?_)
    · simp [Asio.follow, polled, setWorker, Worker.inDoWork]
    · simpa [Asio.follow, polled, setWorker] using draining.none
  | take w =>
    have lifted := (lift_pump h).1
    obtain ⟨seen, polled, took⟩ := take_cases lifted.pump
    have running := busy_running draining ⟨w, by rw [polled]; rfl⟩
    refine lifted_draining after lifted
      (running_draining running (Or.inr (Or.inr (Or.inr ⟨w, ?_⟩))) ?_)
    · simp [Asio.follow, took, setWorker, Worker.inDoWork]
    · simpa [Asio.follow, took, setWorker] using draining.none
  | start w => exact start_draining callers draining h
  | finish w =>
    obtain ⟨_, rfl⟩ := finish_cases h
    exact draining
  | rearm w =>
    have lifted := (service_rearm_cases h).2.1
    exact lifted_draining after lifted (rearm_draining draining lifted.pump)
  | clear w =>
    have lifted := (lift_pump h).1
    exact lifted_draining after lifted (clear_draining draining lifted)

theorem run_drains {threads : Nat}
    (prompt : EachStep (Service.step caller) (Prompt caller) (Service.initial R threads) events)
    (h : run (Service.step caller) (Service.initial R threads) events = some s) :
    Callers caller s ∧ Shutdown caller s ∧ Draining s.asio := by
  refine run_keeps_under (I := fun s => Callers caller s ∧ Shutdown caller s ∧ Draining s.asio) ?_
    ⟨initial_callers threads, initial_shutdown threads, initial_draining threads⟩ prompt h
  rintro s event t ⟨callers, shutdown, draining⟩ prompt h
  exact ⟨step_callers callers h, step_shutdown shutdown prompt h,
    step_draining callers shutdown draining h⟩

/-- Every task whose `PostRunable` has answered was started or cancelled, and that once. -/
def Served (s : Service R) : Prop :=
  ∀ c x, (s.pump.calls c).answer? = some x → x ≠ 0 →
    (s.pump.ids .started).count x + (s.pump.ids .cancelled).count x = 1

theorem drained_served (callers : Callers caller s) (draining : Draining s.asio)
    (conserved : Conserved s.pump) (empty : s.pump.runableSet.elems = []) (calm : ¬ Busy s.pump) :
    Served s := by
  intro c x answer nonzero
  obtain ⟨place, ended, here, elsewhere⟩ :=
    answered_ended callers conserved empty calm answer nonzero
  cases place with
  | started =>
    have other := elsewhere .cancelled (by simp)
    omega
  | cancelled =>
    have other := elsewhere .started (by simp)
    omega
  | discarded => simp [State.ids, State.tasks, draining.none] at here
  | runableSet | batch w => cases ended

/-- When `run` has returned and `Run` clears the set, nothing is left in it. -/
theorem stop_drains {threads : Nat}
    (prompt : EachStep (Service.step caller) (Prompt caller) (Service.initial R threads) events)
    (h : run (Service.step caller) (Service.initial R threads) events = some t) :
    ∀ before w after s, events = before ++ .clear w :: after →
      run (Service.step caller) (Service.initial R threads) before = some s →
      s.pump.runableSet.elems = [] ∧ (posts (before.flatMap Service.Event.pump) < wordBound →
        Served s) := by
  intro before w after s split reached
  subst split
  obtain ⟨middle, first, rest⟩ := run_append.mp h
  cases reached.symm.trans first
  obtain ⟨next, cleared, _⟩ := run_cons.mp rest
  obtain ⟨callers, _, draining⟩ := run_drains (eachStep_initial prompt) reached
  obtain ⟨_, empty, calm⟩ := draining.ended (lift_pump cleared).1.allowed
  refine ⟨empty, fun few => ?_⟩
  exact drained_served callers draining (run_conserved few (run_service_pump reached)) empty calm

theorem run_stops (h : run (Service.step caller) s events = some t)
    (never : ∀ c, .stop c ∉ events) :
    t.stops = s.stops := by
  induction events generalizing s with
  | nil => cases h; rfl
  | cons event rest ih =>
    obtain ⟨next, first, h⟩ := run_cons.mp h
    rw [ih h fun c member => never c (List.mem_cons_of_mem _ member)]
    rcases step_stops first with same | ⟨c, rfl, _⟩
    · exact same
    · exact absurd List.mem_cons_self (never c)

/-- One `Stop`, at a moment when no call from outside is in flight, and none afterwards. -/
theorem prompt_run {before after : List (Service.Event R)} {c : Nat} (fresh : s.stops = [])
    (reached : run (Service.step caller) s before = some t) (never : ∀ d, .stop d ∉ before)
    (returned : ∀ d, caller d = none → (t.pump.calls d).inFlight = false)
    (quiet : ∀ event ∈ after, (∀ d, event ≠ .stop d) ∧
      ∀ d delay runnable, event = .post d delay runnable → caller d ≠ none) :
    EachStep (Service.step caller) (Prompt caller) s (before ++ .stop c :: after) := by
  refine (eachStep_append reached).mpr ⟨?_, ?_⟩
  · intro first event rest u split passed
    subst split
    have stops : u.stops = [] := by
      rw [run_stops passed fun d member => never d (List.mem_append_left _ member), fresh]
    cases event with
    | post d delay runnable => exact fun _ => Or.inl stops
    | stop d => exact absurd (by simp) (never d)
    | _ => trivial
  · intro first event rest u split passed
    cases first with
    | nil =>
      cases split
      cases passed
      exact Or.inr ⟨by rw [run_stops reached never, fresh], returned⟩
    | cons opened first =>
      obtain ⟨_, rfl⟩ := List.cons.inj split
      obtain ⟨noStop, inside⟩ := quiet event (by simp)
      cases event with
      | post d delay runnable => exact fun outside => absurd outside (inside d delay runnable rfl)
      | stop d => exact absurd rfl (noStop d)
      | _ => trivial

def posterOnZero (c : Nat) : Option Nat := if c = 2 then some 0 else none

/-- A task waits for its delay and another one posts a third task. -/
def beforeStop : List (Service.Event Unit) :=
  [.post 0 5 (), .insert 0, .wake 0, .post 1 0 (), .insert 1, .wake 1, .handler 0, .take 0, .start 0, .post 2 0 (),
    .insert 2]

/-- `DoStop` runs on the other worker, and the delayed task is started before `run` returns. -/
def afterStop : List (Service.Event Unit) :=
  [.insert 3, .wake 3, .stoped 3, .wake 2, .finish 0, .rearm 0, .handler 1, .take 1, .start 1, .finish 1, .start 1,
    .finish 1, .rearm 1, .handler 0, .take 0, .rearm 0, .abort 0, .abort 1, .tick 5, .expire, .handler 1, .take 1,
    .start 1, .finish 1, .rearm 1]

theorem beforeStop_returned {s : Service Unit}
    (h : run (Service.step posterOnZero) (Service.initial Unit 2) beforeStop = some s) (c : Nat)
    (outside : posterOnZero c = none) : (s.pump.calls c).inFlight = false := by
  cases h
  match c with
  | 0 | 1 | _ + 3 => rfl
  | 2 => cases outside

theorem stop_drains_delayed :
    ∃ s,
      run (Service.step posterOnZero) (Service.initial Unit 2) (beforeStop ++ .stop 3 :: afterStop) = some s ∧
      (s.pump.calls 0).answer? = some 1 ∧ s.pump.runableSet.elems = [] ∧ Served s := by
  obtain ⟨u, reached⟩ : ∃ u,
    run (Service.step posterOnZero) (Service.initial Unit 2) beforeStop = some u := ⟨_, rfl⟩
  obtain ⟨t, whole⟩ : ∃ t, run (Service.step posterOnZero) (Service.initial Unit 2)
      (beforeStop ++ .stop 3 :: (afterStop ++ [.clear 0])) = some t := ⟨_, rfl⟩
  have prompt : EachStep (Service.step posterOnZero) (Prompt posterOnZero) (Service.initial Unit 2)
      (beforeStop ++ .stop 3 :: (afterStop ++ [.clear 0])) :=
    prompt_run rfl reached (by simp [beforeStop]) (beforeStop_returned reached) (by simp [afterStop])
  have drained := stop_drains prompt whole (beforeStop ++ .stop 3 :: afterStop) 0 [] _ (by simp) rfl
  exact ⟨_, rfl, rfl, drained.1, drained.2 (by decide)⟩

/-! ### The id counter wraps -/

/-- One task waits, and every other one of the first `n` was posted and cancelled. -/
def waiting (n : Nat) (calls : Nat → Call (Job Bool)) (cancelled : List (RunnableInfo (Job Bool))) :
    Service Bool :=
  { asio := {
      pump := { initial (Job Bool) 1 with
        id := n
        calls := calls
        runableSet := OrderedSet.empty.insert ⟨0, .task true, 1⟩
        cancelled := cancelled }
      queued := 1 } }

def postAndRevoke (c : Nat) : List (Service.Event Bool) :=
  [.post c 0 true, .insert c, .wake c, .cancel (c + 1)]

abbrev fromOutside : Nat → Option Nat := fun _ => none

theorem run_postAndRevoke {n : Nat} {calls : Nat → Call (Job Bool)}
    {cancelled : List (RunnableInfo (Job Bool))} (small : n + 1 < wordBound) (later : 0 < n)
    (idle : calls n = .idle) :
    run (Service.step fromOutside) (waiting n calls cancelled) (postAndRevoke n) =
      some (waiting (n + 1) (Function.update calls n (.returned 0 0 (n + 1)))
        (cancelled ++ [⟨0, .task true, n + 1⟩])) := by
  have next : (n + 1) % wordBound = n + 1 := Nat.mod_eq_of_lt small
  have other : (1 == n + 1) = false := by
    rw [beq_eq_false_iff_ne]
    omega
  simp [run, postAndRevoke, Service.step, Service.post, Service.wake, Service.lift, Asio.step,
    Asio.move, Asio.allows, Asio.follow, Asio.settle, Asio.outOfWork, step, waiting, initial,
    postRunableEnter, postRunableInsert, postRunableReturn, idle, setCall, next, State.cancel,
    OrderedSet.insert, OrderedSet.empty, OrderedSet.place, OrderedSet.eraseFirst, expiredTime,
    wakesUp, OrderedSet.first?, RunnableInfo.lt, later, other]

def revoked (n : Nat) : List (Service.Event Bool) :=
  [.post 0 0 true, .insert 0, .wake 0] ++ (List.range n).flatMap fun c => postAndRevoke (c + 1)

theorem run_revoked {n : Nat} (small : n + 1 < wordBound) :
    ∃ calls cancelled, (∀ c, n < c → calls c = .idle) ∧ (∀ c, (calls c).inFlight = false) ∧
      (∀ info ∈ cancelled, info.runnable = .task true) ∧
      run (Service.step fromOutside) (Service.initial Bool 1) (revoked n) =
        some (waiting (n + 1) calls cancelled) := by
  induction n with
  | zero =>
    refine ⟨Function.update (fun _ => .idle) 0 (.returned 0 0 1), [], ?_, ?_, by simp, ?_⟩
    · intro c later
      rw [Function.update_of_ne (by omega)]
    · intro c
      by_cases here : c = 0
      · subst here; rfl
      · rw [Function.update_of_ne here]; rfl
    · simp [run, revoked, Service.initial, Asio.initial, Service.step, Service.post, Service.wake,
        Service.lift, Asio.step, Asio.move, Asio.allows, Asio.follow, Asio.settle, Asio.outOfWork,
        Asio.wakeup, step, waiting, initial, postRunableEnter, postRunableInsert, postRunableReturn,
        setCall, expiredTime, wakesUp, OrderedSet.first?, OrderedSet.empty, wordBound]
  | succ n ih =>
    obtain ⟨calls, cancelled, idle, returned, label, reached⟩ := ih (by omega)
    have grown : revoked (n + 1) = revoked n ++ postAndRevoke (n + 1) := by
      simp [revoked, List.range_succ]
    rw [grown]
    refine ⟨_, _, ?_, ?_, ?_, run_append.mpr ⟨_, reached,
      run_postAndRevoke small (by omega) (idle _ (by omega))⟩⟩
    · intro c later
      rw [Function.update_of_ne (by omega), idle c (by omega)]
    · intro c
      by_cases here : c = n + 1
      · subst here; simp [Call.inFlight]
      · rw [Function.update_of_ne here]; exact returned c
    · intro info member
      rcases List.mem_append.mp member with old | new
      · exact label info old
      · rw [List.mem_singleton.mp new]

/-- The ids 0 and 1 are drawn again, the latter by a task that the set does not take in. -/
def afterRevoked (c : Nat) : List (Service.Event Bool) :=
  [.post c 0 true, .insert c, .wake c, .cancel 0, .post (c + 1) 0 false, .insert (c + 1), .wake (c + 1)]

def untilEmpty (c : Nat) : List (Service.Event Bool) :=
  [.insert c, .wake c, .stoped c, .handler 0, .take 0, .start 0, .finish 0, .start 0, .finish 0, .rearm 0]

def answered (calls : Nat → Call (Job Bool)) (c : Nat) : Nat → Call (Job Bool) :=
  Function.update (Function.update calls c (.returned 0 0 0)) (c + 1) (.returned 0 0 1)

theorem answered_later {calls : Nat → Call (Job Bool)} {c d : Nat} (later : c + 1 < d) :
    answered calls c d = calls d := by
  rw [answered, Function.update_of_ne (by omega), Function.update_of_ne (by omega)]

theorem answered_quiet {calls : Nat → Call (Job Bool)} (returned : ∀ d, (calls d).inFlight = false)
    (c d : Nat) :
    (answered calls c d).inFlight = false := by
  unfold answered
  by_cases second : d = c + 1
  · rw [second, Function.update_self]; rfl
  rw [Function.update_of_ne second]
  by_cases first : d = c
  · rw [first, Function.update_self]; rfl
  · rw [Function.update_of_ne first]; exact returned d

/-- The set is as before: the first task was cancelled and the second one has the key of the one
that waits. -/
theorem run_afterRevoked {c : Nat} {calls : Nat → Call (Job Bool)}
    (cancelled : List (RunnableInfo (Job Bool))) (first : calls c = .idle)
    (second : calls (c + 1) = .idle) :
    run (Service.step fromOutside) (waiting (wordBound - 1) calls cancelled) (afterRevoked c) =
      some (waiting 1 (answered calls c) (cancelled ++ [⟨0, .task true, 0⟩])) := by
  simp [run, afterRevoked, answered, Service.step, Service.post, Service.wake, Service.lift,
    Asio.step, Asio.move, Asio.allows, Asio.follow, Asio.settle, Asio.outOfWork, step, waiting,
    initial, postRunableEnter, postRunableInsert, postRunableReturn, first, second, setCall,
    State.cancel, OrderedSet.insert, OrderedSet.empty, OrderedSet.place,
    OrderedSet.eraseFirst, OrderedSet.first?, RunnableInfo.lt, expiredTime, wakesUp, wordBound]

theorem run_untilEmpty {c : Nat} {calls : Nat → Call (Job Bool)}
    (cancelled : List (RunnableInfo (Job Bool))) (idle : calls c = .idle) :
    ∃ s t, run (Service.step fromOutside) (waiting 1 calls cancelled) (.stop c :: untilEmpty c) =
      some s ∧ s.step fromOutside (.clear 0) = some t ∧ (∀ d, d ≠ c → s.pump.calls d = calls d) ∧
      s.pump.started.map RunnableInfo.runnable = [.task true, .doStop] ∧
      s.pump.cancelled = cancelled := by
  simp [run, untilEmpty, Service.step, Service.stop, Service.wake, Service.start, Service.setThread,
    Service.lift, Asio.step, Asio.move, Asio.allows, Asio.follow, Asio.settle, Asio.outOfWork,
    Asio.cancelTimer, step, waiting, initial, postRunableEnter, postRunableInsert,
    postRunableReturn, idle, setCall, setWorker, poll, doWorkTake, State.start,
    State.clear, doWorkEnd, OrderedSet.insert, OrderedSet.empty, OrderedSet.place, OrderedSet.front,
    OrderedSet.dropFront, OrderedSet.first?, RunnableInfo.lt, due, expiredTime, wakesUp, wordBound, Call.answer?,
    Worker.batch, Worker.inDoWork]
  intro d other
  rw [Function.update_of_ne other]

/-- After `2 ^ 64` posts a task with the key of a waiting one is not taken in: its call answers 1,
and the task is neither started nor cancelled. -/
theorem stop_drains_wrap :
    ∃ events, ∃ c, ∃ s t : Service Bool,
      EachStep (Service.step fromOutside) (Prompt fromOutside) (Service.initial Bool 1) events ∧
      run (Service.step fromOutside) (Service.initial Bool 1) events = some s ∧
      s.step fromOutside (.clear 0) = some t ∧ .post c 0 false ∈ events ∧
      (s.pump.calls c).answer? = some 1 ∧
      ∀ info ∈ s.pump.started ++ s.pump.cancelled, info.runnable ≠ .task false := by
  obtain ⟨n, last⟩ : ∃ n, n + 1 = wordBound - 1 := ⟨wordBound - 2, by decide⟩
  obtain ⟨calls, cancelled, idle, returned, label, reached⟩ :=
    run_revoked (n := n) (by rw [last]; decide)
  have around := run_afterRevoked cancelled (idle (n + 1) (by omega)) (idle (n + 2) (by omega))
  obtain ⟨s, t, drained, cleared, kept, started, same⟩ :=
    run_untilEmpty (cancelled ++ [⟨0, .task true, 0⟩])
      ((answered_later (Nat.lt_succ_self (n + 2))).trans (idle (n + 3) (by omega)))
  rw [last] at reached
  have before := run_append.mpr ⟨_, reached, around⟩
  have answer : (s.pump.calls (n + 2)).answer? = some 1 := by
    rw [kept (n + 2) (by omega), answered, Function.update_self]
    rfl
  refine ⟨_, _, s, t, prompt_run rfl before ?_ (fun d _ => answered_quiet returned _ d) (by simp [untilEmpty]),
    run_append.mpr ⟨_, before, drained⟩, cleared, by simp [afterRevoked], answer, ?_⟩
  · intro d
    simp [revoked, postAndRevoke, afterRevoked]
  · intro info member
    rcases List.mem_append.mp member with began | gone
    · have job : info.runnable ∈ s.pump.started.map RunnableInfo.runnable :=
        List.mem_map_of_mem began
      rw [started] at job
      intro lost
      rw [lost] at job
      simp at job
    · rw [same] at gone
      rcases List.mem_append.mp gone with old | last
      · rw [label info old]; simp
      · rw [List.mem_singleton.mp last]; simp

end Kingkong.Pump
