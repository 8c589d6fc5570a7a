import Kingkong.Pump.Service

/-!
A post that races with the end of the pump. `PostRunable` tests `stoped_` outside the lock, so a
call that has passed the test may insert its task when every worker has left `Run` and the set was
cleared for the last time.
-/

namespace Kingkong.Pump
open Lib State

variable {R : Type} {s t : Service R} {caller : Nat → Option Nat} {event : Service.Event R}
  {events : List (Service.Event R)}

def AllExited (p : State R) : Prop := ∀ w < p.threads, p.workers w = .exited

instance [DecidableEq R] (p : State R) : Decidable (AllExited p) :=
  inferInstanceAs (Decidable (∀ w < p.threads, p.workers w = .exited))

/-- The pump is dead only with an empty set. -/
def NotStranded (s : Service R) : Prop := AllExited s.pump → s.pump.runableSet.elems = []

/-- A task is inserted only while some worker has yet to clear the set. -/
def InTime (s : Service R) (event : Service.Event R) : Prop :=
  event.pump.any Event.isInsert = true → ¬ AllExited s.pump

instance [DecidableEq R] (s : Service R) (event : Service.Event R) : Decidable (InTime s event) :=
  inferInstanceAs (Decidable (_ → ¬ _))

section Exit

variable {p q : State R}

theorem setWorker_exited {w : Nat} {worker : Worker R} (exited : AllExited q)
    (same : q.workers = Function.update p.workers w worker) (bound : q.threads = p.threads)
    (after : worker ≠ .exited) :
    AllExited p := by
  intro v small
  have gone := exited v (bound ▸ small)
  rw [same] at gone
  by_cases here : v = w
  · subst here
    rw [Function.update_self] at gone
    exact absurd gone after
  · rwa [Function.update_of_ne here] at gone

/-- The last worker leaves with the clearing of the set. -/
theorem step_exited {e : Event R} (h : step p e = some q) (exited : AllExited q) :
    AllExited p ∨ q.runableSet.elems = [] := by
  cases e with
  | doWork w =>
    obtain ⟨_, _, rfl⟩ := poll_cases h
    exact Or.inl (setWorker_exited exited rfl rfl (by simp))
  | doOneWork w =>
    obtain ⟨_, _, rfl⟩ := poll_cases h
    exact Or.inl (setWorker_exited exited rfl rfl (by simp))
  | take w =>
    obtain ⟨_, _, rfl⟩ := take_cases h
    exact Or.inl (setWorker_exited exited rfl rfl (by simp))
  | takeOne w =>
    obtain ⟨_, _, rfl | ⟨_, _, _, rfl⟩⟩ := takeOne_cases h
    all_goals exact Or.inl (setWorker_exited exited rfl rfl (by simp))
  | start w =>
    simp only [step, State.start] at h
    split at h <;> cases h
    all_goals exact Or.inl (setWorker_exited exited rfl rfl (by simp))
  | rearm w =>
    obtain ⟨_, rfl⟩ := rearm_cases h
    exact Or.inl (setWorker_exited exited rfl rfl (by simp))
  | clear w =>
    obtain ⟨_, _, rfl⟩ := clear_cases h
    exact Or.inr rfl
  | tick | enter | insert | leave | cancel | stop =>
    obtain ⟨workers, bound, _⟩ := step_workers_same h rfl
    refine Or.inl fun w small => ?_
    rw [← workers]
    exact exited w (bound ▸ small)

theorem insert_nonempty {c : Nat} (h : step p (.insert c) = some q) : q.runableSet.elems ≠ [] := by
  obtain ⟨tick, delay, runnable, _, rfl⟩ := insert_cases h
  show OrderedSet.place _ _ _ ≠ []
  cases p.runableSet.elems with
  | nil => simp [OrderedSet.place]
  | cons first rest =>
    unfold OrderedSet.place
    repeat' split
    all_goals simp

end Exit

theorem step_notStranded (safe : NotStranded s) (h : s.step caller event = some t) :
    NotStranded t ↔ InTime s event := by
  by_cases inserts : ∃ c, event = .insert c
  · obtain ⟨c, rfl⟩ := inserts
    have stepped := (lift_pump h).1.pump
    obtain ⟨workers, bound, _⟩ := step_workers_same stepped rfl
    have same : AllExited t.pump ↔ AllExited s.pump := by
      unfold AllExited
      rw [workers, bound]
    constructor
    · intro after _ exited
      exact insert_nonempty stepped (after (same.mpr exited))
    · intro inTime exited
      exact absurd (same.mp exited) (inTime rfl)
  · have other : event.pump.any Event.isInsert ≠ true := by
      intro some
      cases event <;> cases some
      exact inserts ⟨_, rfl⟩
    refine ⟨fun _ some => absurd some other, fun _ exited => ?_⟩
    rcases service_step h with ⟨_, same⟩ | ⟨e, pump, stepped⟩
    · rw [same] at exited ⊢
      exact safe exited
    · rcases step_exited stepped exited with before | empty
      · refine step_empty stepped ?_ (safe before)
        rintro c rfl
        exact other (by rw [pump]; rfl)
      · exact empty

theorem allExited_calm (callers : Callers caller s) (exited : AllExited s.pump) :
    ¬ Busy s.pump := by
  rintro ⟨w, busy⟩
  rw [exited w (working_bound callers busy)] at busy
  cases busy

theorem run_callers {threads : Nat}
    (h : run (Service.step caller) (Service.initial R threads) events = some s) :
    Callers caller s :=
  run_keeps (fun _ _ _ callers h => step_callers callers h) (initial_callers threads) h

/-- The set of a dead pump is and stays empty exactly when every task is inserted in time. Then
every task that was accepted has left the pump. -/
theorem not_stranded_iff {threads : Nat}
    (h : run (Service.step caller) (Service.initial R threads) events = some s) :
    (Always (Service.step caller) NotStranded (Service.initial R threads) events ↔
      EachStep (Service.step caller) InTime (Service.initial R threads) events) ∧
    (EachStep (Service.step caller) InTime (Service.initial R threads) events →
      posts (events.flatMap Service.Event.pump) < wordBound → AllExited s.pump →
      ∀ c x, (s.pump.calls c).answer? = some x → x ≠ 0 →
        x ∈ s.pump.ids .started ∨ x ∈ s.pump.ids .cancelled ∨ x ∈ s.pump.ids .discarded) := by
  have safe : Always (Service.step caller) NotStranded (Service.initial R threads) events ↔
      EachStep (Service.step caller) InTime (Service.initial R threads) events :=
    always_iff_of_step_iff (fun _ _ _ before h => step_notStranded before h) (fun _ => rfl) h
  refine ⟨safe, fun inTime few exited c x answer nonzero => ?_⟩
  have empty : s.pump.runableSet.elems = [] := safe.mpr inTime events [] s (by simp) h exited
  have callers := run_callers h
  have conserved := run_conserved few (run_service_pump h)
  obtain ⟨place, ended, here, _⟩ :=
    answered_ended callers conserved empty (allExited_calm callers exited) answer nonzero
  have present : x ∈ s.pump.ids place := List.count_pos_iff.mp (by omega)
  cases place with
  | started => exact Or.inl present
  | cancelled => exact Or.inr (Or.inl present)
  | discarded => exact Or.inr (Or.inr present)
  | runableSet | batch w => cases ended

/-- A call passes the test of `stoped_`, the pump is stopped and run to its end, and the call goes
on. -/
def insertsLate : List (Service.Event Unit) :=
  [.post 0 0 (), .stop 1, .insert 1, .wake 1, .stoped 1, .handler 0, .take 0, .start 0, .finish 0, .rearm 0, .clear 0,
    .insert 0, .wake 0]

theorem not_stranded_late :
    ∃ s, run (Service.step fun _ => none) (Service.initial Unit 1) insertsLate = some s ∧
      AllExited s.pump ∧
      s.pump.runableSet.elems = [⟨0, .task (), 2⟩] ∧ (s.pump.calls 0).answer? = some 2 ∧
      2 ∉ s.pump.ids .started ∧ 2 ∉ s.pump.ids .cancelled ∧ 2 ∉ s.pump.ids .discarded := by
  exact ⟨_, rfl, by decide, rfl, rfl, by decide, by decide, by decide⟩

/-- The same race, won by the call. -/
def insertsInTime : List (Service.Event Unit) :=
  [.post 0 0 (), .stop 1, .insert 1, .wake 1, .stoped 1, .handler 0, .take 0, .start 0, .insert 0, .wake 0, .finish 0,
    .rearm 0, .handler 0, .take 0, .start 0, .finish 0, .rearm 0, .handler 0, .take 0, .rearm 0, .clear 0]

theorem not_stranded_inTime :
    ∃ s, run (Service.step fun _ => none) (Service.initial Unit 1) insertsInTime = some s ∧
      AllExited s.pump ∧
      Always (Service.step fun _ => none) NotStranded (Service.initial Unit 1) insertsInTime ∧
      (s.pump.calls 0).answer? = some 2 ∧
      (2 ∈ s.pump.ids .started ∨ 2 ∈ s.pump.ids .cancelled ∨ 2 ∈ s.pump.ids .discarded) := by
  have inTime : EachStep (Service.step fun _ => none) InTime (Service.initial Unit 1) insertsInTime :=
    eachStep_of_meets (by decide)
  have holds := not_stranded_iff
    (show run (Service.step fun _ => none) (Service.initial Unit 1) insertsInTime = some _ from rfl)
  exact ⟨_, rfl, by decide, holds.1.mpr inTime, rfl, holds.2 inTime (by decide) (by decide) 0 2 rfl (by decide)⟩

end Kingkong.Pump
