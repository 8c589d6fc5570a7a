import Kingkong.Pump.Model

/-!
What one step of the pump does to the tasks and to the posting calls. Later invariants are read off
these two statements and never unfold `step`.
-/

namespace Kingkong.Pump
open Lib State

variable {R : Type} {s t : State R} {event : Event R}

@[simp] theorem setCall_tasks (c : Nat) (call : Call R) : (s.setCall c call).tasks = s.tasks := by
  funext place
  cases place <;> rfl

@[simp] theorem tick_tasks (elapsed : Nat) : State.tasks { s with now := elapsed } = s.tasks := by
  funext place
  cases place <;> rfl

@[simp] theorem stop_tasks (stoped : Bool) : State.tasks { s with stoped := stoped } = s.tasks := by
  funext place
  cases place <;> rfl

theorem setWorker_tasks {w : Nat} {worker : Worker R} (same : worker.batch = (s.workers w).batch) :
    (s.setWorker w worker).tasks = s.tasks := by
  funext place
  cases place with
  | batch v =>
    by_cases here : v = w
    · subst here
      simpa [State.tasks, setWorker] using same
    · simp [State.tasks, setWorker, here]
  | _ => rfl

theorem take_moves {w : Nat} {worker : Worker R} {moved : List (RunnableInfo R)}
    {set : RunableSet R} (empty : (s.workers w).batch = []) (filled : worker.batch = moved)
    (away : s.runableSet.elems.Perm (moved ++ set.elems)) :
    Moves s.tasks ({ s.setWorker w worker with runableSet := set } : State R).tasks .runableSet (.batch w) moved where
  distinct := by simp
  away := away
  into := by simp [State.tasks, setWorker, empty, filled]
  other place first second := by
    cases place with
    | runableSet => exact absurd rfl first
    | batch v =>
      have apart : v ≠ w := fun same => second (congrArg Place.batch same)
      simp [State.tasks, setWorker, apart]
    | _ => rfl

theorem start_moves {w : Nat} {worker : Worker R} {task : RunnableInfo R}
    (next : (s.workers w).batch = task :: worker.batch) :
    Moves s.tasks ({ s.setWorker w worker with started := s.started ++ [task] } : State R).tasks
      (.batch w) .started [task] where
  distinct := by simp
  away := by simp [State.tasks, setWorker, next]
  into := List.Perm.refl _
  other place first second := by
    cases place with
    | started => exact absurd rfl second
    | batch v =>
      have apart : v ≠ w := fun same => first (congrArg Place.batch same)
      simp [State.tasks, setWorker, apart]
    | _ => rfl

theorem clear_moves {w : Nat} (idle : s.workers w = .idle) :
    Moves s.tasks ({ s.setWorker w .exited with
      stoped := true
      runableSet := .empty
      discarded := s.discarded ++ s.runableSet.elems } :
      State R).tasks .runableSet .discarded s.runableSet.elems where
  distinct := by simp
  away := by simp [State.tasks, OrderedSet.empty]
  into := List.Perm.refl _
  other place first second := by
    cases place with
    | runableSet => exact absurd rfl first
    | discarded => exact absurd rfl second
    | batch v =>
      by_cases here : v = w
      · subst here
        simp [State.tasks, setWorker, idle, Worker.batch]
      · simp [State.tasks, setWorker, here]
    | _ => rfl

theorem poll_cases {w : Nat} {polled : Nat → Worker R} (h : s.poll w polled = some t) :
    s.workers w = .idle ∧ w < s.threads ∧ t = s.setWorker w (polled s.now) := by
  unfold poll at h
  split at h
  · rename_i idle
    split at h
    · rename_i bound
      cases h
      exact ⟨idle, bound, rfl⟩
    · cases h
  · cases h

theorem cancel_cases (id : Nat) :
    ((s.cancel id).1 = false ∧ (s.cancel id).2 = s ∧ id ∉ s.ids .runableSet) ∨
      ∃ info, info.id = id ∧ (s.cancel id).1 = true ∧ id ∈ s.ids .runableSet ∧
        (s.cancel id).2 = { s with
          runableSet := s.runableSet.eraseFirst (fun info => info.id == id)
          cancelled := s.cancelled ++ [info] } ∧
        Moves s.tasks (s.cancel id).2.tasks .runableSet .cancelled [info] := by
  unfold State.cancel
  cases found : s.runableSet.elems.find? (fun info => info.id == id) with
  | none =>
    refine Or.inl ⟨rfl, rfl, ?_⟩
    intro member
    obtain ⟨info, present, same⟩ := List.mem_map.mp member
    have different := List.find?_eq_none.mp found info present
    simp [same] at different
  | some info =>
    have same : info.id = id := by simpa using List.find?_some found
    have present := List.mem_of_find?_eq_some found
    refine Or.inr ⟨info, same, rfl, List.mem_map.mpr ⟨info, present, same⟩, rfl, ?_⟩
    exact {
      distinct := by simp
      away := OrderedSet.eraseFirst_perm found
      into := List.Perm.refl _
      other := by intro place first second; cases place <;> first | rfl | contradiction }

theorem insert_cases {c : Nat} (h : step s (.insert c) = some t) :
    ∃ tick delay runnable, s.calls c = .entered tick delay runnable ∧
      t =
        { s.setCall c (.inserted tick delay ((s.id + 1) % wordBound) (s.wakesUp (expiredTime tick delay))) with
        id := (s.id + 1) % wordBound
        runableSet := s.runableSet.insert ⟨expiredTime tick delay, runnable,
          (s.id + 1) % wordBound⟩ } := by
  simp only [step, postRunableInsert] at h
  split at h
  · rename_i tick delay runnable entered
    cases h
    exact ⟨tick, delay, runnable, entered, rfl⟩
  · cases h

theorem enter_cases {c delay : Nat} {runnable : R} (h : step s (.enter c delay runnable) = some t) :
    s.calls c = .idle ∧
      t = s.setCall c (if s.stoped then .refused else .entered s.now delay runnable) := by
  simp only [step, postRunableEnter] at h
  split at h
  · rename_i idle
    cases h
    exact ⟨idle, rfl⟩
  · cases h

theorem leave_cases {c : Nat} (h : step s (.leave c) = some t) :
    ∃ tick delay id wakeup, s.calls c = .inserted tick delay id wakeup ∧
      t = s.setCall c (.returned tick delay id) := by
  simp only [step, postRunableReturn] at h
  split at h
  · rename_i tick delay id wakeup inserted
    cases h
    exact ⟨tick, delay, id, wakeup, inserted, rfl⟩
  · cases h

theorem take_cases {w : Nat} (h : step s (.take w) = some t) :
    ∃ seen, s.workers w = .polled seen ∧
      t = { s.setWorker w (.working (s.runableSet.front (due seen))) with
        runableSet := s.runableSet.dropFront (due seen) } := by
  simp only [step, doWorkTake] at h
  split at h
  · rename_i seen polled
    cases h
    exact ⟨seen, polled, rfl⟩
  · cases h

theorem takeOne_cases {w : Nat} (h : step s (.takeOne w) = some t) :
    ∃ seen, s.workers w = .polledOne seen ∧ (t = s.setWorker w .idle ∨
      ∃ first, s.runableSet.first? = some first ∧ due seen first = true ∧
        t = { s.setWorker w (.took first) with runableSet := s.runableSet.dropFirst }) := by
  simp only [step, doOneWorkTake] at h
  split at h
  · rename_i seen polled
    refine ⟨seen, polled, ?_⟩
    split at h
    · rename_i first found
      split at h
      · rename_i passed
        cases h
        exact Or.inr ⟨first, found, passed, rfl⟩
      · cases h; exact Or.inl rfl
    · cases h; exact Or.inl rfl
  · cases h

/-- A worker of either kind starts the next task that it has taken, and `DoWork` goes on. -/
theorem start_cases {w : Nat} (h : step s (.start w) = some t) :
    ∃ task worker, (s.workers w).batch = task :: worker.batch ∧
      worker.inDoWork = (s.workers w).inDoWork ∧
      t = { s.setWorker w worker with started := s.started ++ [task] } := by
  simp only [step, State.start] at h
  split at h
  · rename_i task rest working
    cases h
    exact ⟨task, .working rest, by rw [working]; rfl, by rw [working]; rfl, rfl⟩
  · rename_i task took
    cases h
    exact ⟨task, .idle, by rw [took]; rfl, by rw [took]; rfl, rfl⟩
  · cases h

theorem rearm_cases {w : Nat} (h : step s (.rearm w) = some t) :
    s.workers w = .working [] ∧ t = s.setWorker w .idle := by
  simp only [step, doWorkEnd] at h
  split at h
  · rename_i working
    cases h
    exact ⟨working, rfl⟩
  · cases h

theorem clear_cases {w : Nat} (h : step s (.clear w) = some t) :
    s.workers w = .idle ∧ w < s.threads ∧
      t = { s.setWorker w .exited with
        stoped := true
        runableSet := .empty
        discarded := s.discarded ++ s.runableSet.elems } := by
  simp only [step, State.clear] at h
  split at h
  · rename_i idle
    split at h
    · rename_i bound
      cases h
      exact ⟨idle, bound, rfl⟩
    · cases h
  · cases h

/-- A step leaves the tasks where they are, moves some of them, or adds the one that a call
posts. -/
theorem step_tasks (h : step s event = some t) :
    (t.tasks = s.tasks ∧ t.id = s.id) ∨
    (∃ source target moved, source.live = true ∧ target ≠ .runableSet ∧
      Moves s.tasks t.tasks source target moved ∧ t.id = s.id) ∨
    (∃ c tick delay runnable, event = .insert c ∧ s.calls c = .entered tick delay runnable ∧
      t.id = (s.id + 1) % wordBound ∧
      t.runableSet = s.runableSet.insert ⟨expiredTime tick delay, runnable, t.id⟩ ∧
      ∀ place, place ≠ .runableSet → t.tasks place = s.tasks place) := by
  cases event with
  | tick elapsed => cases h; exact Or.inl ⟨tick_tasks _, rfl⟩
  | stop => cases h; exact Or.inl ⟨stop_tasks _, rfl⟩
  | enter c delay runnable =>
    obtain ⟨_, rfl⟩ := enter_cases h
    exact Or.inl ⟨setCall_tasks _ _, rfl⟩
  | leave c =>
    obtain ⟨_, _, _, _, _, rfl⟩ := leave_cases h
    exact Or.inl ⟨setCall_tasks _ _, rfl⟩
  | insert c =>
    obtain ⟨tick, delay, runnable, entered, rfl⟩ := insert_cases h
    refine Or.inr (Or.inr ⟨c, tick, delay, runnable, rfl, entered, rfl, rfl, ?_⟩)
    intro place other
    cases place with
    | runableSet => exact absurd rfl other
    | _ => rfl
  | cancel id =>
    cases h
    rcases cancel_cases (s := s) id with ⟨_, same, _⟩ | ⟨info, _, _, _, after, moves⟩
    · exact Or.inl ⟨congrArg State.tasks same, congrArg State.id same⟩
    · refine Or.inr (Or.inl ⟨_, _, _, rfl, by decide, moves, ?_⟩)
      rw [after]
  | doWork w =>
    obtain ⟨idle, _, rfl⟩ := poll_cases h
    exact Or.inl ⟨setWorker_tasks (by rw [idle]; rfl), rfl⟩
  | doOneWork w =>
    obtain ⟨idle, _, rfl⟩ := poll_cases h
    exact Or.inl ⟨setWorker_tasks (by rw [idle]; rfl), rfl⟩
  | take w =>
    obtain ⟨seen, polled, rfl⟩ := take_cases h
    have vacant : (s.workers w).batch = [] := by rw [polled]; rfl
    refine Or.inr (Or.inl ⟨_, _, s.runableSet.front (due seen),
      rfl, by simp, take_moves vacant rfl ?_, rfl⟩)
    rw [OrderedSet.front_append_dropFront]
  | takeOne w =>
    obtain ⟨seen, polled, taken⟩ := takeOne_cases h
    have vacant : (s.workers w).batch = [] := by rw [polled]; rfl
    rcases taken with rfl | ⟨first, found, _, rfl⟩
    · exact Or.inl ⟨setWorker_tasks (by rw [vacant]; rfl), rfl⟩
    · refine Or.inr (Or.inl ⟨_, _, [first], rfl, by simp, take_moves vacant rfl ?_, rfl⟩)
      rw [OrderedSet.dropFirst_elems found]
      exact List.Perm.refl _
  | start w =>
    obtain ⟨task, worker, next, _, rfl⟩ := start_cases h
    exact Or.inr (Or.inl ⟨_, _, _, rfl, by simp, start_moves next, rfl⟩)
  | rearm w =>
    obtain ⟨working, rfl⟩ := rearm_cases h
    exact Or.inl ⟨setWorker_tasks (by rw [working]; rfl), rfl⟩
  | clear w =>
    obtain ⟨idle, _, rfl⟩ := clear_cases h
    exact Or.inr (Or.inl ⟨_, _, _, rfl, by simp, clear_moves idle, rfl⟩)

/-- The worker that takes the step. -/
def Event.worker? : Event R → Option Nat
  | .doWork w | .take w | .start w | .rearm w | .doOneWork w | .takeOne w | .clear w => some w
  | _ => none

/-- A worker touches neither the calls nor the clock. -/
theorem step_worker_frame {w : Nat} (h : step s event = some t) (worker : event.worker? = some w) :
    t.calls = s.calls ∧ t.now = s.now := by
  cases event with
  | doWork w => obtain ⟨_, _, rfl⟩ := poll_cases h; exact ⟨rfl, rfl⟩
  | doOneWork w => obtain ⟨_, _, rfl⟩ := poll_cases h; exact ⟨rfl, rfl⟩
  | take w => obtain ⟨_, _, rfl⟩ := take_cases h; exact ⟨rfl, rfl⟩
  | takeOne w => obtain ⟨_, _, rfl | ⟨_, _, _, rfl⟩⟩ := takeOne_cases h <;> exact ⟨rfl, rfl⟩
  | start w => obtain ⟨_, _, _, _, rfl⟩ := start_cases h; exact ⟨rfl, rfl⟩
  | rearm w => obtain ⟨_, rfl⟩ := rearm_cases h; exact ⟨rfl, rfl⟩
  | clear w => obtain ⟨_, _, rfl⟩ := clear_cases h; exact ⟨rfl, rfl⟩
  | _ => cases worker

theorem step_calls_same (h : step s event = some t)
    (notEnter : ∀ c delay runnable, event ≠ .enter c delay runnable)
    (notInsert : ∀ c, event ≠ .insert c) (notLeave : ∀ c, event ≠ .leave c) :
    t.calls = s.calls := by
  cases worker : event.worker? with
  | some w => exact (step_worker_frame h worker).1
  | none =>
    cases event with
    | enter c delay runnable => exact absurd rfl (notEnter c delay runnable)
    | insert c => exact absurd rfl (notInsert c)
    | leave c => exact absurd rfl (notLeave c)
    | tick elapsed => cases h; rfl
    | stop => cases h; rfl
    | cancel id =>
      cases h
      rcases cancel_cases (s := s) id with ⟨_, same, _⟩ | ⟨info, _, _, _, after, _⟩
      · rw [same]
      · rw [after]
    | _ => cases worker

theorem step_workers_same (h : step s event = some t) (other : event.worker? = none) :
    t.workers = s.workers ∧ t.threads = s.threads ∧ t.discarded = s.discarded := by
  cases event with
  | tick elapsed => cases h; exact ⟨rfl, rfl, rfl⟩
  | stop => cases h; exact ⟨rfl, rfl, rfl⟩
  | enter c delay runnable => obtain ⟨_, rfl⟩ := enter_cases h; exact ⟨rfl, rfl, rfl⟩
  | insert c => obtain ⟨_, _, _, _, rfl⟩ := insert_cases h; exact ⟨rfl, rfl, rfl⟩
  | leave c => obtain ⟨_, _, _, _, _, rfl⟩ := leave_cases h; exact ⟨rfl, rfl, rfl⟩
  | cancel id =>
    cases h
    rcases cancel_cases (s := s) id with ⟨_, same, _⟩ | ⟨info, _, _, _, after, _⟩
    · rw [same]; exact ⟨rfl, rfl, rfl⟩
    · rw [after]; exact ⟨rfl, rfl, rfl⟩
  | _ => cases other

theorem step_calls (h : step s event = some t) (c : Nat) :
    t.calls c = s.calls c ∨
    (s.calls c = .idle ∧ (t.calls c = .refused ∨
      ∃ delay runnable, event = .enter c delay runnable ∧
        t.calls c = .entered s.now delay runnable)) ∨
    (∃ tick delay runnable wakeup, event = .insert c ∧ s.calls c = .entered tick delay runnable ∧
      t.calls c = .inserted tick delay t.id wakeup) ∨
    (∃ tick delay id wakeup, event = .leave c ∧ s.calls c = .inserted tick delay id wakeup ∧
      t.calls c = .returned tick delay id) := by
  cases event with
  | enter d delay runnable =>
    obtain ⟨idle, rfl⟩ := enter_cases h
    by_cases here : c = d
    · subst here
      refine Or.inr (Or.inl ⟨idle, ?_⟩)
      cases stoped : s.stoped
      · exact Or.inr ⟨delay, runnable, rfl, by simp [setCall]⟩
      · exact Or.inl (by simp [setCall])
    · exact Or.inl (by simp [setCall, here])
  | insert d =>
    obtain ⟨tick, delay, runnable, entered, rfl⟩ := insert_cases h
    by_cases here : c = d
    · subst here
      exact Or.inr (Or.inr (Or.inl ⟨tick, delay, runnable, s.wakesUp (expiredTime tick delay),
        rfl, entered, by simp [setCall]⟩))
    · exact Or.inl (by simp [setCall, here])
  | leave d =>
    obtain ⟨tick, delay, id, wakeup, inserted, rfl⟩ := leave_cases h
    by_cases here : c = d
    · subst here
      exact Or.inr (Or.inr (Or.inr ⟨tick, delay, id, wakeup, rfl, inserted, by simp [setCall]⟩))
    · exact Or.inl (by simp [setCall, here])
  | _ => exact Or.inl (congrFun (step_calls_same h (by simp) (by simp) (by simp)) c)

/-- A task that is somewhere after a step was somewhere before it, or it is the one that a call
posts. -/
theorem step_mem (h : step s event = some t) {place : Place} {info : RunnableInfo R}
    (member : info ∈ t.tasks place) :
    (∃ source, info ∈ s.tasks source) ∨
      ∃ c tick delay, event = .insert c ∧ s.calls c = .entered tick delay info.runnable ∧
        info.expiredTime = expiredTime tick delay := by
  rcases step_tasks h with ⟨same, _⟩ | ⟨_, _, _, _, _, moves, _⟩ | ⟨c, tick, delay, runnable, rfl, entered, _, set, other⟩
  · rw [same] at member
    exact Or.inl ⟨place, member⟩
  · exact Or.inl (moves.mem.mp ⟨place, member⟩)
  · by_cases here : place = .runableSet
    · subst here
      change info ∈ t.runableSet.elems at member
      rw [set] at member
      rcases OrderedSet.mem_place member with rfl | old
      · exact Or.inr ⟨c, tick, delay, rfl, entered, rfl⟩
      · exact Or.inl ⟨.runableSet, old⟩
    · rw [other place here] at member
      exact Or.inl ⟨place, member⟩

def Event.elapsed : Event R → Nat
  | .tick elapsed => elapsed
  | _ => 0

theorem step_elapsed (h : step s event = some t) : t.now = s.now + event.elapsed := by
  cases worker : event.worker? with
  | some w =>
    rw [(step_worker_frame h worker).2]
    cases event <;> first | rfl | cases worker
  | none =>
    cases event with
    | tick elapsed => cases h; rfl
    | stop => cases h; rfl
    | enter c delay runnable => obtain ⟨_, rfl⟩ := enter_cases h; rfl
    | insert c => obtain ⟨_, _, _, _, rfl⟩ := insert_cases h; rfl
    | leave c => obtain ⟨_, _, _, _, _, rfl⟩ := leave_cases h; rfl
    | cancel id =>
      cases h
      rcases cancel_cases (s := s) id with ⟨_, same, _⟩ | ⟨info, _, _, _, after, _⟩
      · rw [same]; rfl
      · rw [after]; rfl
    | _ => cases worker

theorem step_now (h : step s event = some t) : s.now ≤ t.now := by
  rw [step_elapsed h]
  exact Nat.le_add_right _ _

/-! ### The first task of the set -/

theorem step_queue (h : step s event = some t) (other : ∀ c, event ≠ .insert c)
    {info : RunnableInfo R} (member : info ∈ t.runableSet.elems) : info ∈ s.runableSet.elems := by
  change info ∈ t.tasks .runableSet at member
  change info ∈ s.tasks .runableSet
  rcases step_tasks h with
      ⟨same, _⟩ | ⟨source, target, moved, _, apart, moves, _⟩ | ⟨c, _, _, _, inserts, _⟩
  · rwa [← same]
  · by_cases here : source = .runableSet
    · subst here
      exact moves.away.mem_iff.mpr (List.mem_append_right _ member)
    · rwa [moves.other .runableSet (Ne.symm here) (Ne.symm apart)] at member
  · exact absurd inserts (other c)

theorem step_empty (h : step s event = some t) (other : ∀ c, event ≠ .insert c)
    (empty : s.runableSet.elems = []) :
    t.runableSet.elems = [] := by
  refine List.eq_nil_iff_forall_not_mem.mpr ?_
  intro info member
  have before := step_queue h other member
  rw [empty] at before
  cases before

theorem step_first (h : step s event = some t) (other : ∀ c, event ≠ .insert c)
    {first : RunnableInfo R} (found : t.runableSet.first? = some first) :
    ∃ before, s.runableSet.first? = some before ∧ before.expiredTime ≤ first.expiredTime := by
  have member := step_queue h other (OrderedSet.first_mem found)
  cases head : s.runableSet.first? with
  | none =>
    have empty : s.runableSet.elems = [] := List.head?_eq_none_iff.mp head
    rw [empty] at member
    cases member
  | some before =>
    refine ⟨before, rfl, ?_⟩
    rcases OrderedSet.first_le head member with rfl | later
    · exact Nat.le_refl _
    · have order := RunnableInfo.lt_iff.mp later
      omega

/-- A post that does not wake finds a task in the set that is due no later than the first one
afterwards. -/
theorem first_of_insert {info first : RunnableInfo R}
    (found : (s.runableSet.insert info).first? = some first) :
    (s.wakesUp info.expiredTime = true ∧ info.expiredTime ≤ first.expiredTime) ∨
      ∃ before, s.runableSet.first? = some before ∧ before.expiredTime ≤ first.expiredTime := by
  rw [OrderedSet.first_insert] at found
  cases head : s.runableSet.first? with
  | none =>
    rw [head] at found
    cases found
    exact Or.inl ⟨by simp [wakesUp, head], Nat.le_refl _⟩
  | some before =>
    rw [head] at found
    by_cases early : info.expiredTime < before.expiredTime
    · refine Or.inl ⟨by simp [wakesUp, head, early], ?_⟩
      simp only at found
      repeat' split at found
      all_goals cases found
      · exact Nat.le_of_lt early
      · exact Nat.le_refl _
      · exact Nat.le_of_lt early
    · refine Or.inr ⟨before, rfl, ?_⟩
      simp only at found
      repeat' split at found
      all_goals cases found
      · exact Nat.le_refl _
      · exact Nat.le_of_not_lt early
      · exact Nat.le_refl _

end Kingkong.Pump
