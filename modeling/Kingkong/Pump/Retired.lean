import Kingkong.Pump.Drain
import Kingkong.Pump.Stranded

/-!
The two ends of the life of a `MessagePumpDefatlt`: the pump before anybody calls `Stop`, and the
pump when all its threads are gone.
-/

namespace Kingkong.Pump
open Lib State

variable {R : Type}

section Workers

variable {p q : State R} {e : Event R} {w : Nat}

/-- A worker that takes a step is there, and one that begins to work is a worker of this pump. -/
theorem step_worker (h : step p e = some q) (worker : e.worker? = some w) :
    p.workers w ≠ .exited ∧ (p.workers w = .idle → w < p.threads) := by
  cases e with
  | doWork v | doOneWork v =>
    cases worker
    obtain ⟨idle, bound, -⟩ := poll_cases h
    exact ⟨by rw [idle]; nofun, fun _ => bound⟩
  | take v =>
    cases worker
    obtain ⟨_, polled, -⟩ := take_cases h
    rw [polled]
    exact ⟨nofun, nofun⟩
  | takeOne v =>
    cases worker
    obtain ⟨_, polled, -⟩ := takeOne_cases h
    rw [polled]
    exact ⟨nofun, nofun⟩
  | start v =>
    cases worker
    obtain ⟨task, _, next, -⟩ := start_cases h
    refine ⟨fun exited => ?_, fun idle => ?_⟩
    · rw [exited] at next
      cases next
    · rw [idle] at next
      cases next
  | rearm v =>
    cases worker
    obtain ⟨working, -⟩ := rearm_cases h
    rw [working]
    exact ⟨nofun, nofun⟩
  | clear v =>
    cases worker
    obtain ⟨idle, bound, -⟩ := clear_cases h
    exact ⟨by rw [idle]; nofun, fun _ => bound⟩
  | _ => cases worker

/-- Only a worker starts a task. -/
theorem step_started (h : step p e = some q) (nobody : e.worker? = none) :
    q.started = p.started := by
  cases e with
  | tick elapsed => cases h; rfl
  | stop => cases h; rfl
  | enter c delay runnable => obtain ⟨_, rfl⟩ := enter_cases h; rfl
  | insert c => obtain ⟨_, _, _, _, rfl⟩ := insert_cases h; rfl
  | leave c => obtain ⟨_, _, _, _, _, rfl⟩ := leave_cases h; rfl
  | cancel id => cases h; rcases cancel_cases (s := p) id with ⟨_, same, _⟩ | ⟨_, _, _, _, after, _⟩ <;> simp [*]
  | _ => cases nobody

/-- `stoped_` is set by `Stop` and at the end of `Run`, and never reset. -/
theorem step_stoped (h : step p e = some q) :
    q.stoped = p.stoped ∨ q.stoped = true ∧ (e = .stop ∨ ∃ w, e = .clear w) := by
  cases e with
  | tick elapsed => cases h; exact Or.inl rfl
  | stop => cases h; exact Or.inr ⟨rfl, Or.inl rfl⟩
  | enter c delay runnable => obtain ⟨_, rfl⟩ := enter_cases h; exact Or.inl rfl
  | insert c => obtain ⟨_, _, _, _, rfl⟩ := insert_cases h; exact Or.inl rfl
  | leave c => obtain ⟨_, _, _, _, _, rfl⟩ := leave_cases h; exact Or.inl rfl
  | cancel id =>
    cases h
    rcases cancel_cases (s := p) id with ⟨_, same, _⟩ | ⟨_, _, _, _, after, _⟩
    · exact Or.inl (congrArg State.stoped same)
    · rw [after]
      exact Or.inl rfl
  | doWork w | doOneWork w => obtain ⟨_, _, rfl⟩ := poll_cases h; exact Or.inl rfl
  | take w => obtain ⟨_, _, rfl⟩ := take_cases h; exact Or.inl rfl
  | takeOne w => obtain ⟨_, _, rfl | ⟨_, _, _, rfl⟩⟩ := takeOne_cases h <;> exact Or.inl rfl
  | start w => obtain ⟨_, _, _, _, rfl⟩ := start_cases h; exact Or.inl rfl
  | rearm w => obtain ⟨_, rfl⟩ := rearm_cases h; exact Or.inl rfl
  | clear w => obtain ⟨_, _, rfl⟩ := clear_cases h; exact Or.inr ⟨rfl, Or.inr ⟨w, rfl⟩⟩

/-- A worker leaves at the end of `Run`. -/
theorem step_leaves (h : step p e = some q) (gone : q.workers w = .exited) :
    p.workers w = .exited ∨ e = .clear w := by
  have other : ∀ {v : Nat} {worker : Worker R}, q.workers = Function.update p.workers v worker →
      worker ≠ .exited → p.workers w = .exited := by
    intro v worker same stays
    rw [same] at gone
    by_cases here : w = v
    · subst here
      rw [Function.update_self] at gone
      exact absurd gone stays
    · rwa [Function.update_of_ne here] at gone
  cases nobody : e.worker? with
  | none => exact Or.inl ((step_workers_same h nobody).1 ▸ gone)
  | some v =>
    cases e with
    | doWork v | doOneWork v => obtain ⟨_, _, rfl⟩ := poll_cases h; exact Or.inl (other rfl (by rintro ⟨⟩))
    | take v => obtain ⟨_, _, rfl⟩ := take_cases h; exact Or.inl (other rfl (by rintro ⟨⟩))
    | takeOne v => obtain ⟨_, _, rfl | ⟨_, _, _, rfl⟩⟩ := takeOne_cases h <;> exact Or.inl (other rfl (by rintro ⟨⟩))
    | start v =>
      simp only [step, State.start] at h
      split at h <;> cases h
      · exact Or.inl (other rfl (by rintro ⟨⟩))
      · exact Or.inl (other rfl (by rintro ⟨⟩))
    | rearm v => obtain ⟨_, rfl⟩ := rearm_cases h; exact Or.inl (other rfl (by rintro ⟨⟩))
    | clear v =>
      obtain ⟨_, _, rfl⟩ := clear_cases h
      by_cases here : w = v
      · exact Or.inr (by rw [here])
      · refine Or.inl ?_
        rwa [show (State.setWorker p v .exited).workers w = p.workers w from Function.update_of_ne here _ _] at gone
    | _ => cases nobody

end Workers

/-! ### Before `Stop` -/

variable {s t : Service R} {caller : Nat → Option Nat} {event : Service.Event R}

/-- Nobody has called `Stop`: the pump takes tasks, and its threads are in `run`. -/
structure Untouched (s : Service R) : Prop where
  stops : s.stops = []
  work : s.asio.work = true
  running : s.asio.stopped = false
  stoped : s.pump.stoped = false
  entered : ∀ c tick delay, s.pump.calls c ≠ .entered tick delay .doStop
  posted : ∀ place, ∀ info ∈ s.pump.tasks place, info.runnable ≠ .doStop
  alive : ∀ w, s.pump.workers w ≠ .exited

theorem initial_untouched (threads : Nat) : Untouched (Service.initial R threads) where
  stops := rfl
  work := rfl
  running := rfl
  stoped := rfl
  entered _ _ _ := nofun
  posted place _ member := by cases place <;> cases member
  alive _ := nofun

/-- What anybody may do with a pump but stop it. -/
def Service.Event.stops : Service.Event R → Bool
  | .stop _ | .stoped _ => true
  | _ => false

theorem settle_running {a : Asio R} (work : a.work = true) : a.settle.stopped = a.stopped := by
  have busy : a.outOfWork = false := by
    unfold Asio.outOfWork
    rw [work]
    simp
  unfold Asio.settle
  rw [busy, Bool.or_false]

theorem lifted_running {e : Event (Job R)} (lifted : Lifted s t e) (work : t.asio.work = true) :
    t.asio.stopped = s.asio.stopped := by
  have flags := follow_flags s.asio e t.pump
  rw [lifted_work lifted] at work
  rw [lifted.asio, settle_running (flags.1.trans work), flags.2]

/-- As long as somebody holds `work_`, `run` does not return. -/
theorem step_running (h : s.step caller event = some t) (work : t.asio.work = true) :
    t.asio.stopped = s.asio.stopped := by
  cases event with
  | stop c => exact lifted_running (stop_cases h).2.1 work
  | post c delay runnable => exact lifted_running (post_cases h).1 work
  | wake c => exact lifted_running (wake_cases h).1 work
  | stoped c => exact lifted_running (stoped_cases h).2.1 work
  | expire => obtain ⟨_, _, _, rfl⟩ := service_expire_cases h; exact settle_running work
  | abort w => obtain rfl := service_abort_cases h; exact settle_running work
  | start w =>
    obtain ⟨task, _, _, _, _, asio, _, _⟩ := service_start_cases h
    rw [asio] at work ⊢
    cases job : task.runnable with
    | task runnable =>
      rw [job] at work
      exact settle_running work
    | doStop =>
      rw [job] at work
      cases work
  | finish w => obtain ⟨_, rfl⟩ := finish_cases h; rfl
  | rearm w => exact lifted_running (service_rearm_cases h).2.1 work
  | _ => exact lifted_running (lift_pump h).1 work

/-- Only `Stop` calls `PostRunable` with `DoStop`. -/
theorem pump_untouched (other : event.stops = false) {e : Event (Job R)} (pump : event.pump = [e]) :
    e ≠ .stop ∧ ∀ c delay, e ≠ .enter c delay .doStop := by
  cases event with
  | stop c | stoped c => cases other
  | expire | abort w | finish w => cases pump
  | _ => cases pump; exact ⟨nofun, nofun⟩

theorem untouched_step (untouched : Untouched s) (other : event.stops = false)
    (h : s.step caller event = some t) :
    Untouched t := by
  have stops : t.stops = [] := by
    rcases step_stops h with same | ⟨c, rfl, -⟩
    · rw [same, untouched.stops]
    · cases other
  have work : t.asio.work = true := by
    rcases step_work h with same | ⟨w, info, member, doStop⟩
    · rw [same, untouched.work]
    · exact absurd doStop (untouched.posted _ info member)
  have running : t.asio.stopped = false := by rw [step_running h work, untouched.running]
  rcases service_step h with ⟨-, same⟩ | ⟨e, pump, stepped⟩
  · exact ⟨stops, work, running, same ▸ untouched.stoped, same ▸ untouched.entered,
      same ▸ untouched.posted, same ▸ untouched.alive⟩
  · obtain ⟨notStop, notDoStop⟩ := pump_untouched other pump
    have notClear : ∀ w, e ≠ .clear w := by
      rintro w rfl
      have allowed : s.asio.stopped = true := by
        cases event with
        | clear v =>
          cases pump
          exact (lift_pump h).1.allowed
        | expire | abort v | finish v => cases pump
        | _ => cases pump
      rw [untouched.running] at allowed
      cases allowed
    refine ⟨stops, work, running, ?_, ?_, ?_, ?_⟩
    · rcases step_stoped stepped with same | ⟨-, rfl | ⟨w, rfl⟩⟩
      · rw [same, untouched.stoped]
      · exact absurd rfl notStop
      · exact absurd rfl (notClear w)
    · intro c tick delay entered
      rcases step_entered h entered with before | ⟨-, enters⟩
      · exact untouched.entered c tick delay before
      · rw [pump] at enters
        exact notDoStop c delay (List.cons.inj enters).1
    · intro place info member doStop
      rcases step_mem stepped member with ⟨source, before⟩ | ⟨c, tick, delay, rfl, entered, -⟩
      · exact untouched.posted source info before doStop
      · rw [doStop] at entered
        exact untouched.entered c tick delay entered
    · intro w gone
      rcases step_leaves stepped gone with before | rfl
      · exact untouched.alive w before
      · exact notClear w rfl

/-! ### After `Join` -/

/-- `Stop` was called, and all threads of the pump have ended. -/
structure Retired (caller : Nat → Option Nat) (s : Service R) : Prop where
  callers : Callers caller s
  stoped : s.pump.stoped = true
  exited : AllExited s.pump

/-- Nobody is left who could take a step. -/
theorem retired_nobody (retired : Retired caller s) {e : Event (Job R)} {p : State (Job R)}
    (h : step s.pump e = some p) : e.worker? = none := by
  cases worker : e.worker? with
  | none => rfl
  | some w =>
    obtain ⟨there, bound⟩ := step_worker h worker
    rcases retired.callers.plain w with idle | exited | ⟨inside, -⟩
    · exact absurd (retired.exited w (bound idle)) there
    · exact absurd exited there
    · exact absurd (retired.exited w inside) there

theorem retired_step (retired : Retired caller s) (h : s.step caller event = some t) :
    Retired caller t ∧ t.pump.started = s.pump.started := by
  have callers := step_callers retired.callers h
  rcases service_step h with ⟨-, same⟩ | ⟨e, -, stepped⟩
  · exact ⟨⟨callers, same ▸ retired.stoped, same ▸ retired.exited⟩, congrArg State.started same⟩
  · have nobody := retired_nobody retired stepped
    obtain ⟨workers, threads, -⟩ := step_workers_same stepped nobody
    refine ⟨⟨callers, ?_, ?_⟩, step_started stepped nobody⟩
    · rcases step_stoped stepped with same | ⟨set, -⟩
      · rw [same, retired.stoped]
      · exact set
    · intro w small
      rw [workers]
      exact retired.exited w (threads ▸ small)

/-- A call of `PostRunable` that is made now is refused. -/
def Refusing (s t : Service R) : Prop :=
  ∀ c, s.pump.calls c = .idle → t.pump.calls c = .idle ∨ t.pump.calls c = .refused

theorem refusing_step {u : Service R} (refusing : Refusing u s) (stoped : s.pump.stoped = true)
    (h : s.step caller event = some t) : Refusing u t := by
  intro c idle
  have before := refusing c idle
  rcases service_step h with ⟨-, same⟩ | ⟨e, -, stepped⟩
  · rwa [same]
  · rcases step_calls stepped c with
        same | ⟨-, refused | ⟨delay, runnable, rfl, -⟩⟩ | ⟨_, _, _, _, -, entered, -⟩ |
      ⟨_, _, _, _, -, inserted, -⟩
    · rwa [same]
    · exact Or.inr refused
    · obtain ⟨-, after⟩ := enter_cases stepped
      rw [stoped] at after
      refine Or.inr ?_
      rw [after]
      exact Function.update_self ..
    · rw [entered] at before
      rcases before with before | before <;> cases before
    · rw [inserted] at before
      rcases before with before | before <;> cases before

end Kingkong.Pump
