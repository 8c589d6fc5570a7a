import Kingkong.Pump.Retired

/-!
The pump of the UI on Android, and who keeps it alive. `MessagePumpImpl::Stop` captures a reference
in the task that it posts, and the task gives it up when it runs. `Join` does nothing here, so by
then the looper has given up its own.
-/

namespace Kingkong.Loop
open Lib Pump

variable {R : Type}

def isDoStop : Job R → Bool
  | .doStop => true
  | .task _ => false

/-- `unint` has the `PostRunable` of `Stop` while the UI thread is between `Stop` and the deletion
of the looper. `captured` counts the references that tasks hold. `torn` says that the destructor ran
inside of `DoWork`. -/
structure UiPump (R : Type) where
  pump : State (Job R) := Pump.initial (Job R) 1
  looper : Bool := true
  clients : Nat := 0
  captured : Nat := 0
  unint : Option Nat := none
  destroyed : Bool := false
  torn : Bool := false

namespace UiPump

def inDoWork (s : UiPump R) : Bool := (s.pump.workers 0).inDoWork

inductive Event (R : Type) where
  | pump (event : Pump.Event (Job R))
  | acquire
  | release
  | stop (c : Nat)
  | stoped
  | delete

/-- What happens in the pump without the manager. Somebody who calls it has a reference or is one of
its tasks, and the UI thread calls `DoWork` only from its own loop. -/
def allows (s : UiPump R) : Pump.Event (Job R) → Bool
  | .tick _ | .insert _ | .leave _ => true
  | .enter _ _ job => !isDoStop job && (s.looper || decide (0 < s.clients) || s.inDoWork)
  | .cancel _ => s.looper || decide (0 < s.clients) || s.inDoWork
  | .doWork w | .take w | .start w | .rearm w => w == 0 && s.unint.isNone
  | .doOneWork _ | .takeOne _ | .clear _ | .stop => false

/-- The task that an event destroys. -/
def finished (p : State (Job R)) : Pump.Event (Job R) → Option (RunnableInfo (Job R))
  | .start w => (p.workers w).batch.head?
  | .cancel id => p.runableSet.elems.find? fun info => info.id == id
  | _ => none

def drops (p : State (Job R)) (event : Pump.Event (Job R)) : Nat :=
  if (finished p event).any fun info => isDoStop info.runnable then 1 else 0

def move (s : UiPump R) : Event R → Option (UiPump R)
  | .pump event =>
    if s.allows event then
      (Pump.step s.pump event).map fun p => { s with pump := p, captured := s.captured - drops s.pump event }
    else none
  | .acquire => some { s with clients := s.clients + 1 }
  | .release => if 0 < s.clients then some { s with clients := s.clients - 1 } else none
  | .stop c =>
    if s.looper && s.unint.isNone && !s.pump.stoped then
      (Pump.step s.pump (.enter c 0 .doStop)).map fun p => { s with pump := p, captured := s.captured + 1, unint := some c }
    else none
  | .stoped =>
    match s.unint with
    | some c =>
      if (s.pump.calls c).answer?.isSome then some { s with pump := { s.pump with stoped := true } } else none
    | none => none
  | .delete => if s.unint.isSome && s.pump.stoped then some { s with looper := false, unint := none } else none

/-- The last reference is gone. -/
def settle (s : UiPump R) : UiPump R :=
  if s.looper = false ∧ s.clients = 0 ∧ s.captured = 0 then { s with destroyed := true, torn := s.inDoWork } else s

/-- Once the pump is destroyed, nothing about it is defined. -/
def step (s : UiPump R) (event : Event R) : Option (UiPump R) :=
  if s.destroyed then none else (s.move event).map settle

end UiPump

variable {s t : UiPump R} {event : UiPump.Event R} {events later : List (UiPump.Event R)}

/-- What is true of a pump as long as it is there. -/
structure Referenced (s : UiPump R) : Prop where
  held : s.destroyed = false → s.looper = true ∨ 0 < s.clients ∨ 0 < s.captured
  manager : s.looper = false → s.unint = none
  worker : s.pump.workers 0 = .idle ∨ s.inDoWork = true

/-- The thread of the UI is in its loop or in `DoWork`. -/
theorem pump_worker {e : Pump.Event (Job R)} {p : State (Job R)} (allowed : s.allows e = true)
    (worker : s.pump.workers 0 = .idle ∨ s.inDoWork = true) (h : Pump.step s.pump e = some p) :
    p.workers 0 = .idle ∨ (p.workers 0).inDoWork = true := by
  cases nobody : e.worker? with
  | none => rwa [(step_workers_same h nobody).1]
  | some w =>
    cases e with
    | doWork w =>
      obtain ⟨-, -, rfl⟩ := poll_cases h
      cases eq_of_beq (Bool.and_eq_true_iff.mp allowed).1
      exact Or.inr (by simp [State.setWorker, Worker.inDoWork])
    | take w =>
      obtain ⟨_, -, rfl⟩ := take_cases h
      cases eq_of_beq (Bool.and_eq_true_iff.mp allowed).1
      exact Or.inr (by simp [State.setWorker, Worker.inDoWork])
    | start w =>
      obtain ⟨task, after, batch, same, rfl⟩ := start_cases h
      cases eq_of_beq (Bool.and_eq_true_iff.mp allowed).1
      rcases worker with idle | busy
      · rw [idle] at batch
        cases batch
      · have busy : (s.pump.workers 0).inDoWork = true := busy
        exact Or.inr (by simpa [State.setWorker, same] using busy)
    | rearm w =>
      obtain ⟨-, rfl⟩ := rearm_cases h
      cases eq_of_beq (Bool.and_eq_true_iff.mp allowed).1
      exact Or.inl (by simp [State.setWorker])
    | doOneWork w | takeOne w | clear w => cases allowed
    | _ => cases nobody

theorem settle_referenced (manager : s.looper = false → s.unint = none)
    (worker : s.pump.workers 0 = .idle ∨ s.inDoWork = true) : Referenced s.settle := by
  unfold UiPump.settle
  split
  · exact ⟨nofun, manager, worker⟩
  · rename_i held
    refine ⟨fun _ => ?_, manager, worker⟩
    by_contra none
    simp only [not_or, Bool.not_eq_true, Nat.not_lt, Nat.le_zero] at none
    exact held none

theorem step_referenced (referenced : Referenced s) (h : s.step event = some t) : Referenced t := by
  obtain ⟨-, h⟩ := Option.ite_none_left_eq_some.mp h
  obtain ⟨u, moved, rfl⟩ := Option.map_eq_some_iff.mp h
  obtain ⟨-, manager, worker⟩ := referenced
  cases event with
  | pump event =>
    obtain ⟨allowed, moved⟩ := Option.ite_none_right_eq_some.mp moved
    obtain ⟨p, stepped, rfl⟩ := Option.map_eq_some_iff.mp moved
    exact settle_referenced manager (pump_worker allowed worker stepped)
  | acquire => cases moved; exact settle_referenced manager worker
  | release =>
    obtain ⟨-, moved⟩ := Option.ite_none_right_eq_some.mp moved
    cases moved
    exact settle_referenced manager worker
  | stop c =>
    obtain ⟨allowed, moved⟩ := Option.ite_none_right_eq_some.mp moved
    obtain ⟨p, stepped, rfl⟩ := Option.map_eq_some_iff.mp moved
    have looper : s.looper = true := by
      simp only [Bool.and_eq_true] at allowed
      exact allowed.1.1
    obtain ⟨-, rfl⟩ := enter_cases stepped
    refine settle_referenced (fun gone => ?_) worker
    rw [looper] at gone
    cases gone
  | stoped =>
    simp only [UiPump.move] at moved
    split at moved
    · obtain ⟨-, moved⟩ := Option.ite_none_right_eq_some.mp moved
      cases moved
      exact settle_referenced manager worker
    · cases moved
  | delete =>
    obtain ⟨-, moved⟩ := Option.ite_none_right_eq_some.mp moved
    cases moved
    exact settle_referenced (fun _ => rfl) worker

theorem initial_referenced : Referenced ({} : UiPump R) where
  held _ := Or.inl rfl
  manager := nofun
  worker := Or.inl rfl

/-! ### The last reference -/

/-- Without a looper and without clients, a task gives its reference up inside of `DoWork`. -/
theorem drops_inDoWork {e : Pump.Event (Job R)} {p : State (Job R)} (referenced : Referenced s)
    (released : s.looper = false) (nobody : s.clients = 0) (allowed : s.allows e = true)
    (h : Pump.step s.pump e = some p) (dropped : UiPump.drops s.pump e ≠ 0) :
    (p.workers 0).inDoWork = true := by
  unfold UiPump.drops at dropped
  cases e with
  | start w =>
    cases eq_of_beq (Bool.and_eq_true_iff.mp allowed).1
    obtain ⟨task, after, batch, same, rfl⟩ := start_cases h
    rcases referenced.worker with idle | busy
    · rw [idle] at batch
      cases batch
    · have busy : (s.pump.workers 0).inDoWork = true := busy
      simpa [State.setWorker, same] using busy
  | cancel id =>
    have inside : s.inDoWork = true := by simpa [UiPump.allows, released, nobody] using allowed
    rw [(step_workers_same h rfl).1]
    exact inside
  | _ => exact absurd rfl dropped

theorem unreferenced_step (referenced : Referenced s) (released : s.looper = false)
    (nobody : s.clients = 0) (other : event ≠ .acquire) (h : s.step event = some t) :
    t.looper = false ∧ t.clients = 0 ∧ (t.destroyed = true → t.torn = true) := by
  obtain ⟨alive, h⟩ := Option.ite_none_left_eq_some.mp h
  obtain ⟨u, moved, rfl⟩ := Option.map_eq_some_iff.mp h
  have alive := Bool.eq_false_iff.mpr alive
  have held : 0 < s.captured := by
    rcases referenced.held alive with looper | clients | captured
    · rw [released] at looper
      cases looper
    · omega
    · exact captured
  have none := referenced.manager released
  cases event with
  | pump event =>
    obtain ⟨allowed, moved⟩ := Option.ite_none_right_eq_some.mp moved
    obtain ⟨p, stepped, rfl⟩ := Option.map_eq_some_iff.mp moved
    unfold UiPump.settle
    split
    · rename_i last
      refine ⟨released, nobody,
        fun _ => drops_inDoWork referenced released nobody allowed stepped ?_⟩
      have gone := last.2.2
      dsimp only at gone
      omega
    · exact ⟨released, nobody, fun destroyed => absurd destroyed (by rw [alive]; nofun)⟩
  | acquire => exact absurd rfl other
  | release => simp [UiPump.move, nobody] at moved
  | stop c => simp [UiPump.move, released] at moved
  | stoped => simp [UiPump.move, none] at moved
  | delete => simp [UiPump.move, none] at moved

/-- When `UnintMessageLoop` is done with the pump and no client has it or takes it again from
`CurrentMessagePump`, the pump is not destroyed but by the task that was to stop it, and `DoWork`
goes on with a pump that is no more. -/
theorem ui_pump_torn (h : run UiPump.step {} events = some s) (released : s.looper = false)
    (nobody : s.clients = 0) (alive : s.destroyed = false)
    (after : run UiPump.step s later = some t) (none : .acquire ∉ later)
    (destroyed : t.destroyed = true) : t.torn = true := by
  have referenced : Referenced s := run_keeps (fun _ _ _ => step_referenced) initial_referenced h
  suffices kept : t.destroyed = true → t.torn = true from kept destroyed
  clear destroyed h
  have start : s.destroyed = true → s.torn = true :=
    fun destroyed => absurd destroyed (by rw [alive]; nofun)
  clear alive
  induction later generalizing s with
  | nil =>
    cases after
    exact start
  | cons event rest ih =>
    obtain ⟨next, first, remaining⟩ := run_cons.mp after
    have other : event ≠ .acquire := fun equal => none (equal ▸ List.mem_cons_self)
    obtain ⟨released, nobody, torn⟩ := unreferenced_step referenced released nobody other first
    exact ih released nobody remaining (fun member => none (List.mem_cons_of_mem _ member))
      (step_referenced referenced first) torn

/-- The manager is deleted on the UI thread, and the loop of the UI goes on. -/
def unintOnUi : List (UiPump.Event Unit) :=
  [.stop 0, .pump (.insert 0), .pump (.leave 0), .stoped, .delete]

def nextCallback : List (UiPump.Event Unit) :=
  [.pump (.doWork 0), .pump (.take 0), .pump (.start 0)]

theorem ui_pump_torn_nextCallback : ∃ s t, run UiPump.step {} unintOnUi = some s ∧
    run UiPump.step s nextCallback = some t ∧ t.destroyed = true ∧ t.torn = true := by
  have state : run UiPump.step {} unintOnUi = some _ := rfl
  have both : run UiPump.step {} (unintOnUi ++ nextCallback) = some _ := rfl
  obtain ⟨s, first, second⟩ := run_append.mp both
  cases state.symm.trans first
  exact ⟨_, _, first, second, rfl,
    ui_pump_torn first rfl rfl rfl second (by simp [nextCallback]) rfl⟩

end Kingkong.Loop
