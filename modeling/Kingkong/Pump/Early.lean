import Kingkong.Pump.Step

/-!
When a task is started, against the tick that its `PostRunable` call read and the delay that it was
given. An id does not name a call for ever, since `id_` comes round, so the runnables carry the tick
and the delay of their call with them. The pump never looks at a runnable, so this changes no run.
-/

namespace Kingkong.Pump
open Lib State

variable {R S : Type} {event : Event R} {events : List (Event R)}

/-! ### The pump under another choice of runnables -/

def RunnableInfo.map (f : R → S) (info : RunnableInfo R) : RunnableInfo S :=
  ⟨info.expiredTime, f info.runnable, info.id⟩

def Call.map (f : R → S) : Call R → Call S
  | .idle => .idle
  | .entered tick delay runnable => .entered tick delay (f runnable)
  | .inserted tick delay drawn wakeup => .inserted tick delay drawn wakeup
  | .returned tick delay drawn => .returned tick delay drawn
  | .refused => .refused

def Worker.map (f : R → S) : Worker R → Worker S
  | .idle => .idle
  | .polled seen => .polled seen
  | .working batch => .working (batch.map (RunnableInfo.map f))
  | .polledOne seen => .polledOne seen
  | .took task => .took (task.map f)
  | .exited => .exited

def Event.map (f : R → S) : Event R → Event S
  | .tick elapsed => .tick elapsed
  | .enter c delay runnable => .enter c delay (f runnable)
  | .insert c => .insert c
  | .leave c => .leave c
  | .cancel named => .cancel named
  | .doWork w => .doWork w
  | .take w => .take w
  | .start w => .start w
  | .rearm w => .rearm w
  | .doOneWork w => .doOneWork w
  | .takeOne w => .takeOne w
  | .clear w => .clear w
  | .stop => .stop

theorem lt_map (f : R → S) (left right : RunnableInfo R) :
    (left.map f).lt (right.map f) ↔ left.lt right :=
  Iff.rfl

def State.map (f : R → S) (s : State R) : State S where
  threads := s.threads
  now := s.now
  runableSet := s.runableSet.map (RunnableInfo.map f) (lt_map f)
  id := s.id
  stoped := s.stoped
  calls c := (s.calls c).map f
  workers w := (s.workers w).map f
  started := s.started.map (RunnableInfo.map f)
  cancelled := s.cancelled.map (RunnableInfo.map f)
  discarded := s.discarded.map (RunnableInfo.map f)

section Map

variable {s t : State R} {f : R → S}

theorem map_calls (c : Nat) : (s.map f).calls c = (s.calls c).map f := rfl

theorem map_workers (w : Nat) : (s.map f).workers w = (s.workers w).map f := rfl

theorem setCall_map (c : Nat) (call : Call R) :
    (s.map f).setCall c (call.map f) = (s.setCall c call).map f := by
  have calls : Function.update (fun c => (s.calls c).map f) c (call.map f) =
      fun d => (Function.update s.calls c call d).map f :=
    (Function.comp_update (Call.map f) s.calls c call).symm
  simp only [setCall, State.map, calls]

theorem setWorker_map (w : Nat) (worker : Worker R) :
    (s.map f).setWorker w (worker.map f) = (s.setWorker w worker).map f := by
  have workers : Function.update (fun w => (s.workers w).map f) w (worker.map f) =
      fun v => (Function.update s.workers w worker v).map f :=
    (Function.comp_update (Worker.map f) s.workers w worker).symm
  simp only [setWorker, State.map, workers]

theorem insert_map (x : RunnableInfo R) : (s.map f).runableSet.insert (x.map f) =
    (s.runableSet.insert x).map (RunnableInfo.map f) (lt_map f) :=
  OrderedSet.ext (OrderedSet.place_map (lt_map f) x s.runableSet.elems)

theorem wakesUp_map (expired : Nat) : (s.map f).wakesUp expired = s.wakesUp expired := by
  simp only [wakesUp, State.map, OrderedSet.first_map]
  cases s.runableSet.first? <;> rfl

theorem cancel_map (id : Nat) : ((s.map f).cancel id).2 = (s.cancel id).2.map f := by
  have found : (s.map f).runableSet.elems.find? (fun info => info.id == id) =
      (s.runableSet.elems.find? (fun info => info.id == id)).map (RunnableInfo.map f) := List.find?_map
  simp only [State.cancel, found]
  cases s.runableSet.elems.find? (fun info => info.id == id) with
  | none => rfl
  | some info =>
    simp only [Option.map_some, State.map, List.map_append, List.map_cons, List.map_nil]
    rw [OrderedSet.eraseFirst_map]
    rfl

theorem poll_map (w : Nat) (polled : Nat → Worker R) (other : Nat → Worker S)
    (same : ∀ seen, other seen = (polled seen).map f) :
    (s.map f).poll w other = (s.poll w polled).map (State.map f) := by
  simp only [poll]
  rw [map_workers, show (s.map f).threads = s.threads from rfl]
  cases s.workers w with
  | idle =>
    simp only [Worker.map]
    split
    · exact congrArg some ((congrArg _ (same s.now)).trans (setWorker_map w (polled s.now)))
    · rfl
  | _ => rfl

theorem postRunableEnter_map (c delay : Nat) (runnable : R) :
    (s.map f).postRunableEnter c delay (f runnable) =
      (s.postRunableEnter c delay runnable).map (State.map f) := by
  simp only [postRunableEnter]
  rw [map_calls]
  cases s.calls c with
  | idle =>
    refine congrArg some ((congrArg (setCall (s.map f) c) ?_).trans (setCall_map c _))
    rw [apply_ite (Call.map f)]
    rfl
  | _ => rfl

theorem postRunableInsert_map (c : Nat) :
    (s.map f).postRunableInsert c = (s.postRunableInsert c).map (State.map f) := by
  simp only [postRunableInsert]
  rw [map_calls]
  cases s.calls c with
  | entered tick delay runnable =>
    simp only [Call.map, Option.map_some, wakesUp_map]
    have inserted :=
      insert_map (s := s) (f := f) ⟨expiredTime tick delay, runnable, (s.id + 1) % wordBound⟩
    have posted := setCall_map (s := s) (f := f) c
      (.inserted tick delay ((s.id + 1) % wordBound) (s.wakesUp (expiredTime tick delay)))
    simp only [RunnableInfo.map, Call.map] at inserted posted
    refine congrArg some ?_
    rw [show (s.map f).id = s.id from rfl, posted, inserted]
    rfl
  | _ => rfl

theorem postRunableReturn_map (c : Nat) :
    (s.map f).postRunableReturn c = (s.postRunableReturn c).map (State.map f) := by
  simp only [postRunableReturn]
  rw [map_calls]
  cases s.calls c with
  | inserted tick delay drawn wakeup => exact congrArg some (setCall_map c (.returned tick delay drawn))
  | _ => rfl

theorem doWorkTake_map (w : Nat) : (s.map f).doWorkTake w = (s.doWorkTake w).map (State.map f) := by
  simp only [doWorkTake]
  rw [map_workers]
  cases s.workers w with
  | polled seen =>
    simp only [Worker.map, Option.map_some]
    have front : (s.map f).runableSet.front (due seen) =
        (s.runableSet.front (due seen)).map (RunnableInfo.map f) :=
      OrderedSet.front_map (lt_map f) s.runableSet (due seen)
    have rest : (s.map f).runableSet.dropFront (due seen) =
        (s.runableSet.dropFront (due seen)).map (RunnableInfo.map f) (lt_map f) :=
      OrderedSet.dropFront_map (lt_map f) s.runableSet (due seen)
    have working := setWorker_map (s := s) (f := f) w (.working (s.runableSet.front (due seen)))
    simp only [Worker.map] at working
    rw [front, rest, working]
    rfl
  | _ => rfl

theorem doOneWorkTake_map (w : Nat) :
    (s.map f).doOneWorkTake w = (s.doOneWorkTake w).map (State.map f) := by
  simp only [doOneWorkTake]
  rw [map_workers]
  cases s.workers w with
  | polledOne seen =>
    simp only [Worker.map]
    rw [show (s.map f).runableSet.first? = s.runableSet.first?.map (RunnableInfo.map f) from
      OrderedSet.first_map (lt_map f) s.runableSet]
    cases s.runableSet.first? with
    | none => exact congrArg some (setWorker_map w .idle)
    | some first =>
      simp only [Option.map_some]
      rw [show due seen (first.map f) = due seen first from rfl]
      cases due seen first with
      | false => exact congrArg some (setWorker_map w .idle)
      | true =>
        have took := setWorker_map (s := s) (f := f) w (.took first)
        simp only [Worker.map] at took
        simp only [if_true, Option.map_some, took]
        rw [show (s.map f).runableSet.dropFirst = s.runableSet.dropFirst.map (RunnableInfo.map f) (lt_map f) from
          OrderedSet.dropFirst_map (lt_map f) s.runableSet]
        rfl
  | _ => rfl

theorem start_map (w : Nat) : (s.map f).start w = (s.start w).map (State.map f) := by
  simp only [State.start]
  rw [map_workers]
  cases s.workers w with
  | working batch =>
    cases batch with
    | nil => rfl
    | cons task rest =>
      have working := setWorker_map (s := s) (f := f) w (.working rest)
      simp only [Worker.map] at working
      simp only [Worker.map, List.map_cons, Option.map_some, working]
      simp only [State.map, List.map_append, List.map_cons, List.map_nil]
  | took task =>
    have idle := setWorker_map (s := s) (f := f) w .idle
    simp only [Worker.map] at idle
    simp only [Worker.map, Option.map_some, idle]
    simp only [State.map, List.map_append, List.map_cons, List.map_nil]
  | _ => rfl

theorem doWorkEnd_map (w : Nat) : (s.map f).doWorkEnd w = (s.doWorkEnd w).map (State.map f) := by
  simp only [doWorkEnd]
  rw [map_workers]
  cases s.workers w with
  | working batch =>
    cases batch with
    | nil => exact congrArg some (setWorker_map w .idle)
    | cons task rest => rfl
  | _ => rfl

theorem clear_map (w : Nat) : (s.map f).clear w = (s.clear w).map (State.map f) := by
  simp only [State.clear]
  rw [map_workers, show (s.map f).threads = s.threads from rfl]
  cases s.workers w with
  | idle =>
    simp only [Worker.map]
    split
    · have exited := setWorker_map (s := s) (f := f) w .exited
      simp only [Worker.map] at exited
      rw [exited]
      simp only [Option.map_some, State.map, List.map_append]
      rfl
    · rfl
  | _ => rfl

/-- The pump does the same whatever its runnables are. -/
theorem step_map (f : R → S) (s : State R) (event : Event R) :
    step (s.map f) (event.map f) = (step s event).map (State.map f) := by
  cases event with
  | tick elapsed => rfl
  | stop => rfl
  | enter c delay runnable => exact postRunableEnter_map c delay runnable
  | insert c => exact postRunableInsert_map c
  | leave c => exact postRunableReturn_map c
  | cancel named => exact congrArg some (cancel_map named)
  | doWork w => exact poll_map w _ _ fun _ => rfl
  | doOneWork w => exact poll_map w _ _ fun _ => rfl
  | take w => exact doWorkTake_map w
  | takeOne w => exact doOneWorkTake_map w
  | start w => exact start_map w
  | rearm w => exact doWorkEnd_map w
  | clear w => exact clear_map w

end Map

/-! ### What the workers have taken is due -/

/-- A tick that a worker has read is past, and what it has taken has expired. -/
structure Worker.OnTime (now : Nat) (worker : Worker R) : Prop where
  seen : ∀ seen, worker = .polled seen ∨ worker = .polledOne seen → seen ≤ now
  taken : ∀ info ∈ worker.batch, info.expiredTime ≤ now

section OnTime

variable {s t : State R} {worker : Worker R} {now later : Nat}

theorem onTime_later (onTime : worker.OnTime now) (past : now ≤ later) : worker.OnTime later where
  seen seen polled := Nat.le_trans (onTime.seen seen polled) past
  taken info member := Nat.le_trans (onTime.taken info member) past

theorem onTime_idle : (.idle : Worker R).OnTime now where
  seen _ polled := by simp at polled
  taken _ member := by simp [Worker.batch] at member

theorem onTime_working {batch : List (RunnableInfo R)}
    (expired : ∀ info ∈ batch, info.expiredTime ≤ now) :
    (Worker.working batch).OnTime now where
  seen _ polled := by simp at polled
  taken := expired

theorem setWorker_onTime {w : Nat} (others : ∀ v, (s.workers v).OnTime now)
    (this : worker.OnTime now) (v : Nat) :
    ((s.setWorker w worker).workers v).OnTime now := by
  by_cases here : v = w
  · subst here
    simpa [setWorker] using this
  · simpa [setWorker, here] using others v

theorem step_onTime (onTime : ∀ w, (s.workers w).OnTime s.now) (h : step s event = some t)
    (v : Nat) :
    (t.workers v).OnTime t.now := by
  cases worker : event.worker? with
  | none =>
    rw [(step_workers_same h worker).1]
    exact onTime_later (onTime v) (step_now h)
  | some w =>
    cases event with
    | doWork w =>
      obtain ⟨_, _, rfl⟩ := poll_cases h
      refine setWorker_onTime onTime ⟨fun seen polled => ?_, by simp [Worker.batch]⟩ v
      rcases polled with polled | polled <;> cases polled
      exact Nat.le_refl _
    | doOneWork w =>
      obtain ⟨_, _, rfl⟩ := poll_cases h
      refine setWorker_onTime onTime ⟨fun seen polled => ?_, by simp [Worker.batch]⟩ v
      rcases polled with polled | polled <;> cases polled
      exact Nat.le_refl _
    | take w =>
      obtain ⟨seen, polled, rfl⟩ := take_cases h
      have past := (onTime w).seen seen (Or.inl polled)
      refine setWorker_onTime onTime (onTime_working fun info member => ?_) v
      have passed := List.all_eq_true.mp List.all_takeWhile info member
      exact Nat.le_trans (of_decide_eq_true passed) past
    | takeOne w =>
      obtain ⟨seen, polled, rfl | ⟨first, _, passed, rfl⟩⟩ := takeOne_cases h
      · exact setWorker_onTime onTime onTime_idle v
      · have past := (onTime w).seen seen (Or.inr polled)
        refine setWorker_onTime onTime ⟨by simp, fun info member => ?_⟩ v
        obtain rfl : info = first := List.mem_singleton.mp member
        exact Nat.le_trans (of_decide_eq_true passed) past
    | start w =>
      simp only [step, State.start] at h
      split at h
      · rename_i task rest working
        cases h
        refine setWorker_onTime onTime (onTime_working fun info member => ?_) v
        exact (onTime w).taken info (by rw [working]; exact List.mem_cons_of_mem _ member)
      · cases h
        exact setWorker_onTime onTime onTime_idle v
      · cases h
    | rearm w =>
      obtain ⟨_, rfl⟩ := rearm_cases h
      exact setWorker_onTime onTime onTime_idle v
    | clear w =>
      obtain ⟨_, _, rfl⟩ := clear_cases h
      exact setWorker_onTime onTime ⟨by simp, by simp [Worker.batch]⟩ v
    | _ => cases worker

end OnTime

/-! ### Runnables that carry the tick and the delay of their call -/

structure Stamped (R : Type) where
  tick : Nat
  delay : Nat
  runnable : R
  deriving DecidableEq

/-- The tick plus the delay, as an unbounded number. -/
def Stamped.dueAt (x : Stamped R) : Nat := x.tick + x.delay

def Event.stamp (now : Nat) : Event R → Event (Stamped R)
  | .enter c delay runnable => .enter c delay ⟨now, delay, runnable⟩
  | event => event.map fun runnable => ⟨now, 0, runnable⟩

/-- A step of the pump in which a posted runnable is stamped with the tick that its call reads and
with its delay. -/
def stampedStep (s : State (Stamped R)) (event : Event R) : Option (State (Stamped R)) :=
  step s (event.stamp s.now)

theorem stampedStep_forget (s : State (Stamped R)) (event : Event R) :
    step (s.map Stamped.runnable) event =
      (stampedStep s event).map (State.map Stamped.runnable) := by
  have forgotten : (event.stamp s.now).map Stamped.runnable = event := by cases event <;> rfl
  rw [stampedStep, ← step_map, forgotten]

/-- The runs of the pump are those of the stamped pump with the stamps forgotten. -/
theorem run_stamped (threads : Nat) : run step (initial R threads) events =
    (run stampedStep (initial (Stamped R) threads) events).map (State.map Stamped.runnable) := by
  have start : (initial (Stamped R) threads).map Stamped.runnable = initial R threads := rfl
  rw [← start]
  exact run_map (State.map Stamped.runnable) stampedStep_forget

section Stamped

variable {s t u : State (Stamped R)}

/-- Every task is filed under the stamp of its runnable. -/
structure Timely (s : State (Stamped R)) : Prop where
  entered : ∀ c tick delay x, s.calls c = .entered tick delay x → x.tick = tick ∧ x.delay = delay
  filed : ∀ place, ∀ info ∈ s.tasks place, info.expiredTime = info.runnable.dueAt % wordBound
  onTime : ∀ w, (s.workers w).OnTime s.now

theorem initial_timely (threads : Nat) : Timely (initial (Stamped R) threads) where
  entered c tick delay x call := by simp [initial] at call
  filed place info member := by cases place <;> simp [State.tasks, initial, OrderedSet.empty, Worker.batch] at member
  onTime _ := onTime_idle

theorem stampedStep_timely (timely : Timely s) (h : stampedStep s event = some t) : Timely t where
  entered c tick delay x call := by
    rcases step_calls h c with
        same | ⟨_, refused | ⟨delay', x', stamped, entered⟩⟩ | ⟨_, _, _, _, _, _, inserted⟩ |
      ⟨_, _, _, _, _, _, returned⟩
    · exact timely.entered c tick delay x (same ▸ call)
    · rw [refused] at call
      cases call
    · rw [entered] at call
      cases call
      cases event with
      | enter d delay runnable =>
        cases stamped
        exact ⟨rfl, rfl⟩
      | _ => cases stamped
    · rw [inserted] at call
      cases call
    · rw [returned] at call
      cases call
  filed place info member := by
    rcases step_mem h member with ⟨source, before⟩ | ⟨c, tick, delay, _, entered, expired⟩
    · exact timely.filed source info before
    · obtain ⟨rfl, rfl⟩ := timely.entered c tick delay info.runnable entered
      exact expired
  onTime := step_onTime timely.onTime h

theorem stampedStep_now (h : stampedStep s event = some t) : s.now ≤ t.now := step_now h

/-- The task that the event starts is not started before it is due. -/
def NotEarly (s : State (Stamped R)) (event : Event R) : Prop :=
  ∀ w task, event = .start w → (s.workers w).batch.head? = some task → task.runnable.dueAt ≤ s.now

/-- The time at which the task that the event starts is due fits in 64 bits. -/
def DueInWord (s : State (Stamped R)) (event : Event R) : Prop :=
  ∀ w task, event = .start w → (s.workers w).batch.head? = some task → task.runnable.dueAt < wordBound

theorem notEarly_iff (timely : Timely s) (clock : s.now < wordBound) (event : Event R) :
    NotEarly s event ↔ DueInWord s event := by
  have expired : ∀ w task, (s.workers w).batch.head? = some task →
      task.runnable.dueAt % wordBound ≤ s.now := by
    intro w task next
    have member : task ∈ s.tasks (.batch w) := List.mem_of_head? next
    rw [← timely.filed _ task member]
    exact (timely.onTime w).taken task member
  constructor
  · intro notEarly w task start next
    exact Nat.lt_of_le_of_lt (notEarly w task start next) clock
  · intro inWord w task start next
    rw [← Nat.mod_eq_of_lt (inWord w task start next)]
    exact expired w task next

/-- The states that a run passes through are timely, and its clock has not passed the last one. -/
theorem run_timely {before after : List (Event R)} {threads : Nat}
    (reached : run stampedStep (initial (Stamped R) threads) before = some u)
    (h : run stampedStep (initial (Stamped R) threads) (before ++ after) = some t) :
    Timely u ∧ u.now ≤ t.now := by
  refine ⟨run_keeps (fun _ _ _ => stampedStep_timely) (initial_timely threads) reached, ?_⟩
  obtain ⟨middle, first, rest⟩ := run_append.mp h
  cases reached.symm.trans first
  exact run_keeps (I := fun v => u.now ≤ v.now) (fun _ _ _ past h => Nat.le_trans past (stampedStep_now h))
    (Nat.le_refl _) rest

end Stamped

/-- While the tick counter fits in 64 bits, no task of a run is started early exactly when no task
is started whose tick plus delay does not fit. -/
theorem never_early_iff {threads : Nat} {t : State R}
    (h : run step (initial R threads) events = some t) (clock : t.now < wordBound) :
    EachStep stampedStep NotEarly (initial (Stamped R) threads) events ↔
      EachStep stampedStep DueInWord (initial (Stamped R) threads) events := by
  rw [run_stamped] at h
  obtain ⟨last, stamped, rfl⟩ := Option.map_eq_some_iff.mp h
  have pointwise : ∀ before event after u, events = before ++ event :: after →
      run stampedStep (initial (Stamped R) threads) before = some u → (NotEarly u event ↔ DueInWord u event) := by
    intro before event after u split reached
    rw [split] at stamped
    obtain ⟨timely, past⟩ := run_timely reached stamped
    exact notEarly_iff timely (Nat.lt_of_le_of_lt past clock) event
  constructor
  · intro each before event after u split reached
    exact (pointwise before event after u split reached).mp (each before event after u split reached)
  · intro each before event after u split reached
    exact (pointwise before event after u split reached).mpr (each before event after u split reached)

/-- A task with the largest delay is posted at tick 1 and found due at once. -/
def farDelay : List (Event Unit) :=
  [.tick 1, .enter 0 (wordBound - 1) (), .insert 0, .leave 0, .doWork 0, .take 0, .start 0]

theorem early_farDelay : ∃ t u task, run step (initial Unit 1) farDelay = some t ∧ t.now = 1 ∧
    run stampedStep (initial (Stamped Unit) 1) (farDelay.take 6) = some u ∧
      (u.workers 0).batch.head? = some task ∧
    u.now = 1 ∧ task.runnable.dueAt = wordBound ∧
    ¬ EachStep stampedStep NotEarly (initial (Stamped Unit) 1) farDelay := by
  refine ⟨_, _, _, rfl, rfl, rfl, rfl, rfl, rfl, ?_⟩
  intro each
  have past : wordBound ≤ 1 := each (farDelay.take 6) (.start 0) [] _ rfl rfl 0 _ rfl rfl
  exact absurd past (by decide)

def shortDelay : List (Event Unit) :=
  [.enter 0 5 (), .insert 0, .tick 5, .doWork 0, .take 0, .start 0]

theorem never_early_shortDelay :
    ∃ t, run step (initial Unit 1) shortDelay = some t ∧ t.now = 5 ∧ t.started.length = 1 ∧
    EachStep stampedStep NotEarly (initial (Stamped Unit) 1) shortDelay := by
  refine ⟨_, rfl, rfl, rfl, (never_early_iff rfl (by decide)).mpr ?_⟩
  refine (eachStep_cons rfl).mpr ⟨nofun, (eachStep_cons rfl).mpr ⟨nofun,
    (eachStep_cons rfl).mpr ⟨nofun, ?_⟩⟩⟩
  refine (eachStep_cons rfl).mpr ⟨nofun, (eachStep_cons rfl).mpr ⟨nofun,
    (eachStep_cons rfl).mpr ⟨?_, eachStep_nil⟩⟩⟩
  rintro w task start next
  cases start
  cases next
  decide

end Kingkong.Pump
