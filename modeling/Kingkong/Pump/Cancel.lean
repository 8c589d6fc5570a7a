import Kingkong.Pump.Conservation

/-!
How long a task can be cancelled. `Cancel` looks for it in the set only, so it comes too late for a
task that a worker has taken and not started: `DoWork` takes a whole batch before it starts the
first task of it, while `DoOneWork` starts the one task that it takes at once.
-/

namespace Kingkong.Pump
open Lib State

variable {R : Type} {s t u : State R} {event : Event R} {events : List (Event R)} {threads : Nat}

/-- The task `x` was accepted and has not been cancelled, discarded or started. -/
structure Pending (s : State R) (x : Nat) : Prop where
  accepted : ∃ c, (s.calls c).id? = some x
  cancelled : x ∉ s.ids .cancelled
  discarded : x ∉ s.ids .discarded
  started : x ∉ s.ids .started

/-- Every `Cancel` of a pending task answers true, and the task is not started in the rest of the
run. -/
def Effective (threads : Nat) (events : List (Event R)) (s : State R) : Prop :=
  ∀ before x after u, events = before ++ .cancel x :: after → run step (initial R threads) before = some u →
    Pending u x → (u.cancel x).1 = true ∧ x ∉ s.ids .started

/-- No worker has taken the pending task that is cancelled. -/
def Untaken (s : State R) (event : Event R) : Prop :=
  ∀ x, event = .cancel x → Pending s x → ∀ w, x ∉ s.ids (.batch w)

theorem pending_live (conserved : Conserved s) {x : Nat} (pending : Pending s x) :
    x ∈ s.ids .runableSet ∨ ∃ w, x ∈ s.ids (.batch w) := by
  obtain ⟨c, drawn⟩ := pending.accepted
  have bounds := conserved.drawn c x drawn
  obtain ⟨place, here, _⟩ := conserved.accepted x bounds.1 bounds.2
  have member : x ∈ s.ids place := List.count_pos_iff.mp (by omega)
  cases place with
  | runableSet => exact Or.inl member
  | batch w => exact Or.inr ⟨w, member⟩
  | started => exact absurd member pending.started
  | cancelled => exact absurd member pending.cancelled
  | discarded => exact absurd member pending.discarded

theorem posts_before {before after : List (Event R)} (few : posts (before ++ after) < wordBound) :
    posts before < wordBound := by
  unfold posts at few ⊢
  rw [List.countP_append] at few
  omega

theorem effective_of_untaken (few : posts events < wordBound)
    (h : run step (initial R threads) events = some s)
    (untaken : EachStep step Untaken (initial R threads) events) : Effective threads events s := by
  intro before x after u split reached pending
  have conserved := run_conserved (posts_before (split ▸ few)) reached
  have queued : (u.cancel x).1 = true := by
    rcases pending_live conserved pending with queued | ⟨w, taken⟩
    · exact (cancel_iff x).mpr queued
    · exact absurd taken (untaken before _ after u split reached x rfl pending w)
  subst split
  exact ⟨queued, cancel_never_started few h reached queued⟩

/-- `Cancel` is effective until the task is started exactly when it is never called for a task that
is in the hands of a worker. -/
theorem cancel_effective_iff (few : posts events < wordBound)
    (h : run step (initial R threads) events = some s) :
    Effective threads events s ↔ EachStep step Untaken (initial R threads) events := by
  constructor
  · intro effective before event after u split reached x same pending w taken
    subst same
    obtain ⟨answer, _⟩ := effective before x after u split reached pending
    have conserved := run_conserved (posts_before (split ▸ few)) reached
    cases conserved_unique conserved ((cancel_iff x).mp answer) taken
  · exact effective_of_untaken few h

/-- The first of two tasks of one batch cancels the second. -/
def cancelsNext : List (Event Unit) :=
  [.enter 0 0 (), .insert 0, .leave 0, .enter 1 0 (), .insert 1, .leave 1, .doWork 0, .take 0, .start 0, .cancel 2,
    .start 0]

theorem cancel_effective_sameBatch :
    ∃ s, run step (initial Unit 1) cancelsNext = some s ∧ posts cancelsNext < wordBound ∧
      ¬ Effective 1 cancelsNext s := by
  refine ⟨_, rfl, by decide, ?_⟩
  intro effective
  have answer := effective (cancelsNext.take 9) 2 [.start 0] _ rfl rfl
    ⟨⟨1, rfl⟩, by decide, by decide, by decide⟩
  exact absurd answer.1 (by decide)

theorem untaken_other (other : ∀ x, event ≠ .cancel x) : Untaken s event :=
  fun x same => absurd same (other x)

/-- The task is cancelled while it waits for its time. -/
def cancelsEarly : List (Event Unit) :=
  [.enter 0 7 (), .insert 0, .leave 0, .cancel 1, .tick 9, .doWork 0, .take 0]

theorem cancel_effective_early :
    ∃ s, run step (initial Unit 1) cancelsEarly = some s ∧ Effective 1 cancelsEarly s := by
  refine ⟨_, rfl, (cancel_effective_iff (by decide) rfl).mpr ?_⟩
  refine (eachStep_cons rfl).mpr ⟨untaken_other (by simp),
    (eachStep_cons rfl).mpr ⟨untaken_other (by simp),
    (eachStep_cons rfl).mpr ⟨untaken_other (by simp), (eachStep_cons rfl).mpr ⟨?_,
    (eachStep_cons rfl).mpr ⟨untaken_other (by simp), (eachStep_cons rfl).mpr ⟨untaken_other (by simp),
    (eachStep_cons rfl).mpr ⟨untaken_other (by simp), eachStep_nil⟩⟩⟩⟩⟩⟩⟩
  intro x _ _ w taken
  cases taken

/-! ### A pump driven by `DoOneWork` -/

/-- No worker has taken a task that it has not started. -/
def EmptyHanded (s : State R) (event : Event R) : Prop :=
  ∀ x, event = .cancel x → ∀ w task, s.workers w ≠ .took task

def OneByOne (s : State R) : Prop := ∀ w, (s.workers w).inDoWork = false

theorem setWorker_oneByOne {w : Nat} {worker : Worker R} (outside : worker.inDoWork = false)
    (one : OneByOne s) :
    OneByOne (s.setWorker w worker) := by
  intro v
  by_cases here : v = w
  · subst here
    simpa [setWorker] using outside
  · simpa [setWorker, here] using one v

theorem step_oneByOne (one : OneByOne s) (never : ∀ w, event ≠ .doWork w)
    (h : step s event = some t) : OneByOne t := by
  cases event with
  | doWork w => exact absurd rfl (never w)
  | tick elapsed => cases h; exact one
  | stop => cases h; exact one
  | enter c delay runnable => obtain ⟨_, rfl⟩ := enter_cases h; exact one
  | insert c => obtain ⟨_, _, _, _, rfl⟩ := insert_cases h; exact one
  | leave c => obtain ⟨_, _, _, _, _, rfl⟩ := leave_cases h; exact one
  | cancel id =>
    cases h
    rcases cancel_cases (s := s) id with ⟨_, same, _⟩ | ⟨_, _, _, _, after, _⟩
    · rw [same]; exact one
    · rw [after]; exact one
  | doOneWork w => obtain ⟨_, _, rfl⟩ := poll_cases h; exact setWorker_oneByOne rfl one
  | take w =>
    obtain ⟨seen, polled, _⟩ := take_cases h
    have outside := one w
    rw [polled] at outside
    cases outside
  | takeOne w =>
    obtain ⟨_, _, rfl | ⟨_, _, _, rfl⟩⟩ := takeOne_cases h
    all_goals exact setWorker_oneByOne rfl one
  | start w =>
    obtain ⟨_, worker, _, same, rfl⟩ := start_cases h
    exact setWorker_oneByOne (same.trans (one w)) one
  | rearm w => obtain ⟨_, rfl⟩ := rearm_cases h; exact setWorker_oneByOne rfl one
  | clear w => obtain ⟨_, _, rfl⟩ := clear_cases h; exact setWorker_oneByOne rfl one

theorem oneByOne_untaken (one : OneByOne s) (empty : EmptyHanded s event) : Untaken s event := by
  intro x same _ w taken
  cases worker : s.workers w with
  | working batch =>
    have outside := one w
    rw [worker] at outside
    cases outside
  | took task => exact empty x same w task worker
  | idle | polled _ | polledOne _ | exited => simp [State.ids, State.tasks, worker, Worker.batch] at taken

/-- Without `DoWork`, a `Cancel` that does not fall between the lock of `DoOneWork` and its call of
the task is effective. The calls that the tasks of the pump make are all of this kind. -/
theorem cancel_effective_oneByOne (few : posts events < wordBound)
    (h : run step (initial R threads) events = some s) (never : ∀ w, .doWork w ∉ events)
    (empty : EachStep step EmptyHanded (initial R threads) events) :
    Effective threads events s := by
  refine effective_of_untaken few h ?_
  intro before event after u split reached
  refine oneByOne_untaken ?_ (empty before event after u split reached)
  refine run_keeps_under (C := fun _ event => ∀ w, event ≠ .doWork w) (I := OneByOne)
    (fun _ _ _ one never => step_oneByOne one never) (fun _ => rfl) ?_ reached
  intro first current rest v earlier _ w same
  refine never w ?_
  rw [split, earlier, same]
  simp

theorem emptyHanded_other (other : ∀ x, event ≠ .cancel x) : EmptyHanded s event :=
  fun x same => absurd same (other x)

/-- `DoOneWork` has read the tick when the task is cancelled, and finds nothing in the set. -/
def cancelsBeforeLock : List (Event Unit) :=
  [.enter 0 0 (), .insert 0, .doOneWork 0, .cancel 1, .takeOne 0]

theorem cancel_effective_beforeLock :
    ∃ s, run step (initial Unit 1) cancelsBeforeLock = some s ∧ s.ids .cancelled = [1] ∧
      Effective 1 cancelsBeforeLock s := by
  refine ⟨_, rfl, rfl, cancel_effective_oneByOne (by decide) rfl (by simp [cancelsBeforeLock]) ?_⟩
  refine (eachStep_cons rfl).mpr ⟨emptyHanded_other (by simp),
    (eachStep_cons rfl).mpr ⟨emptyHanded_other (by simp),
    (eachStep_cons rfl).mpr ⟨emptyHanded_other (by simp), (eachStep_cons rfl).mpr ⟨?_,
    (eachStep_cons rfl).mpr ⟨emptyHanded_other (by simp), eachStep_nil⟩⟩⟩⟩⟩
  rintro x _ (_ | w) task taken
  · cases taken
  · cases taken

end Kingkong.Pump
