import Kingkong.Lib.Run
import Kingkong.Lib.Places

/-!
`AtExitManager`. Callbacks are numbered in the order in which they are registered. A callback is
arbitrary code, so what it registers are the registrations between its call and its end. The
destructor takes the stack and calls what it has taken, while registrations go to the member
`stack_` as long as `g_top_manager` is set.
-/

namespace Kingkong.Base
open Lib

/-- What `g_top_manager` points to. `draining` and `calling` are in the destructor, between and
inside callbacks. -/
inductive Phase where
  | none | alive | draining | calling
  deriving DecidableEq

/-- `stack` is `stack_` and `tasks` the stack of the destructor, both with the top first. `ran` has
the callbacks in the order of their calls, and `lost` those that were destroyed with their
manager. -/
structure AtExit where
  phase : Phase := .none
  stack : List Nat := []
  tasks : List Nat := []
  registered : Nat := 0
  ran : List Nat := []
  lost : List Nat := []

namespace AtExit

inductive Event where
  | construct
  | registerCallback
  | destroy
  | call
  | pop
  | finish
  deriving DecidableEq

/-- A second manager is a fatal error. -/
def step (s : AtExit) : Event → Option AtExit
  | .construct => if s.phase = .none then some { s with phase := .alive } else none
  | .registerCallback =>
    if s.phase = .none then some s
    else some { s with stack := s.registered :: s.stack, registered := s.registered + 1 }
  | .destroy => if s.phase = .alive then some { s with phase := .draining, tasks := s.stack, stack := [] } else none
  | .call =>
    match s.phase, s.tasks with
    | .draining, top :: _ => some { s with phase := .calling, ran := s.ran ++ [top] }
    | _, _ => none
  | .pop => if s.phase = .calling then some { s with phase := .draining, tasks := s.tasks.tail } else none
  | .finish =>
    if s.phase = .draining ∧ s.tasks = [] then
      some { s with phase := .none, stack := [], lost := s.lost ++ s.stack }
    else none

def destructing (s : AtExit) : Bool := s.phase == .draining || s.phase == .calling

/-- The tasks that have not been called. The top of the stack stays there during its call. -/
def waiting (s : AtExit) : List Nat := if s.phase = .calling then s.tasks.tail else s.tasks

/-- Every callback that was registered has been called exactly once. -/
def RanAll (s : AtExit) : Prop := ∀ c < s.registered, s.ran.count c = 1

/-- The callback that is called is newer than any other one that has not been called. -/
def Newest (s : AtExit) : Event → Prop
  | .call => s.phase = .draining → ∀ top ∈ s.tasks.head?, ∀ c < s.registered, top < c → c ∈ s.ran
  | _ => True

/-- Nothing is registered while the destructor runs. -/
def Quiet (s : AtExit) : Event → Prop
  | .registerCallback => s.destructing = false
  | _ => True

instance (s : AtExit) (event : Event) : Decidable (Quiet s event) :=
  match event with
  | .registerCallback => inferInstanceAs (Decidable (s.destructing = false))
  | .construct | .destroy | .call | .pop | .finish => inferInstanceAs (Decidable True)

variable {s t : AtExit} {event : Event} {events : List Event}

/-- What a step can do. -/
inductive Took (s : AtExit) : Event → AtExit → Prop where
  | construct (absent : s.phase = .none) : Took s .construct { s with phase := .alive }
  | ignored (absent : s.phase = .none) : Took s .registerCallback s
  | registered (present : s.phase ≠ .none) :
      Took s .registerCallback { s with stack := s.registered :: s.stack, registered := s.registered + 1 }
  | destroy (live : s.phase = .alive) : Took s .destroy { s with phase := .draining, tasks := s.stack, stack := [] }
  | call {top : Nat} {rest : List Nat} (draining : s.phase = .draining) (tasks : s.tasks = top :: rest) :
      Took s .call { s with phase := .calling, ran := s.ran ++ [top] }
  | pop (calling : s.phase = .calling) : Took s .pop { s with phase := .draining, tasks := s.tasks.tail }
  | finish (draining : s.phase = .draining) (empty : s.tasks = []) :
      Took s .finish { s with phase := .none, stack := [], lost := s.lost ++ s.stack }

theorem step_took (h : s.step event = some t) : Took s event t := by
  cases event with
  | registerCallback =>
    simp only [step] at h
    split at h <;> cases h
    · exact .ignored ‹_›
    · exact .registered ‹_›
  | call =>
    simp only [step] at h
    split at h <;> cases h
    exact .call ‹_› ‹_›
  | finish =>
    obtain ⟨⟨draining, empty⟩, same⟩ := Option.ite_none_right_eq_some.mp h
    cases same
    exact .finish draining empty
  | _ =>
    obtain ⟨guard, same⟩ := Option.ite_none_right_eq_some.mp h
    cases same
    first | exact .construct guard | exact .destroy guard | exact .pop guard

@[simp] theorem destructing_none (phase : s.phase = .none) : s.destructing = false := by
  simp [destructing, phase]

@[simp] theorem destructing_alive (phase : s.phase = .alive) : s.destructing = false := by
  simp [destructing, phase]

@[simp] theorem destructing_draining (phase : s.phase = .draining) : s.destructing = true := by
  simp [destructing, phase]

@[simp] theorem destructing_calling (phase : s.phase = .calling) : s.destructing = true := by
  simp [destructing, phase]

/-! ### Every callback is in one place -/

inductive Place where
  | stack | tasks | ran | lost
  deriving DecidableEq

def held (s : AtExit) : Place → List Nat
  | .stack => s.stack
  | .tasks => s.waiting
  | .ran => s.ran
  | .lost => s.lost

/-- A registration puts a callback on the stack, and every other step moves callbacks on. -/
inductive Change (s t : AtExit) : Prop where
  | stays (same : t.held = s.held) (registered : t.registered = s.registered)
  | arrives (pushed : t.held .stack = s.registered :: s.held .stack) (other : ∀ p, p ≠ .stack → t.held p = s.held p)
      (registered : t.registered = s.registered + 1)
  | moves (source target : Place) (moved : List Nat) (moves : Moves s.held t.held source target moved)
      (registered : t.registered = s.registered)

/-- The destructor has no tasks before it is called and after it has returned. -/
structure Shaped (s : AtExit) : Prop where
  none : s.phase = .none → s.stack = [] ∧ s.tasks = []
  alive : s.phase = .alive → s.tasks = []

theorem step_shaped (shaped : Shaped s) (h : s.step event = some t) : Shaped t := by
  cases step_took h with
  | construct absent => exact ⟨nofun, fun _ => (shaped.none absent).2⟩
  | ignored _ => exact shaped
  | registered present => exact ⟨fun absent => absurd absent present, shaped.alive⟩
  | finish _ empty => exact ⟨fun _ => ⟨rfl, empty⟩, nofun⟩
  | _ => exact ⟨nofun, nofun⟩

theorem step_change (shaped : Shaped s) (h : s.step event = some t) : Change s t := by
  cases step_took h with
  | construct absent =>
    refine .stays ?_ rfl
    funext p
    cases p <;> simp [held, waiting, absent]
  | ignored _ => exact .stays rfl rfl
  | registered _ =>
    refine .arrives rfl ?_ rfl
    intro p other
    cases p with
    | stack => exact absurd rfl other
    | _ => rfl
  | destroy live =>
    refine .moves .stack .tasks s.stack ⟨by decide, ?_, ?_, ?_⟩ rfl
    · simp [held]
    · simp [held, waiting, live, shaped.alive live]
    · intro p first second
      cases p <;> first | rfl | contradiction
  | @call top rest draining tasks =>
    refine .moves .tasks .ran [top] ⟨by decide, ?_, ?_, ?_⟩ rfl
    · simp [held, waiting, draining, tasks]
    · simp [held]
    · intro p first second
      cases p <;> first | rfl | contradiction
  | pop calling =>
    -- the task that returns has not been waiting since its call
    refine .stays ?_ rfl
    funext p
    cases p <;> simp [held, waiting, calling]
  | finish draining empty =>
    refine .moves .stack .lost s.stack ⟨by decide, ?_, ?_, ?_⟩ rfl
    · simp [held]
    · simp [held]
    · intro p first second
      cases p <;> first | contradiction | simp [held, waiting, draining]

/-- Every callback that was registered is in exactly one place, and there are no others. -/
structure Placed (s : AtExit) : Prop where
  settled : ∀ c < s.registered, Settled s.held c
  absent : ∀ c, s.registered ≤ c → Absent s.held c

theorem step_placed (shaped : Shaped s) (placed : Placed s) (h : s.step event = some t) :
    Placed t := by
  cases step_change shaped h with
  | stays same registered =>
    constructor
    · intro c known
      rw [same]
      exact placed.settled c (by omega)
    · intro c unknown
      rw [same]
      exact placed.absent c (by omega)
  | arrives pushed other registered =>
    have arrival : (t.held .stack).Perm (s.registered :: s.held .stack) := by rw [pushed]
    constructor
    · intro c known
      by_cases fresh : c = s.registered
      · subst fresh
        exact settled_arrival (placed.absent _ (Nat.le_refl _)) arrival other
      · obtain ⟨p, here, elsewhere⟩ := placed.settled c (by omega)
        have same := count_beside arrival other fresh
        exact ⟨p, (same p).trans here, fun q apart => (same q).trans (elsewhere q apart)⟩
    · intro c unknown p
      rw [count_beside arrival other (by omega) p]
      exact placed.absent c (by omega) p
  | moves source target moved moves registered =>
    constructor
    · intro c known
      exact settled_moves moves (placed.settled c (by omega))
    · intro c unknown
      exact absent_moves moves (placed.absent c (by omega))

theorem Placed.lt (placed : Placed s) {c : Nat} {p : Place} (mem : c ∈ s.held p) :
    c < s.registered := by
  by_contra unknown
  exact absent_not_mem (placed.absent c (by omega)) mem

/-- A callback that is nowhere else has been called once. -/
theorem Placed.ran (placed : Placed s) {c : Nat} (known : c < s.registered) (stack : c ∉ s.stack)
    (waiting : c ∉ s.waiting) (lost : c ∉ s.lost) : s.ran.count c = 1 := by
  obtain ⟨p, here, _⟩ := placed.settled c known
  have mem : c ∈ s.held p := List.count_pos_iff.mp (by omega)
  cases p with
  | stack => exact absurd mem stack
  | tasks => exact absurd mem waiting
  | ran => exact here
  | lost => exact absurd mem lost

/-! ### Registrations while the destructor runs -/

/-- The stacks have the newest callback on top, and nothing is or will be lost. -/
structure Tidy (s : AtExit) : Prop where
  lost : s.lost = []
  taken : s.destructing = true → s.stack = []
  stack : s.stack.Pairwise (· > ·)
  tasks : s.tasks.Pairwise (· > ·)

theorem step_tidy (placed : Placed s) (tidy : Tidy s) (quiet : Quiet s event)
    (h : s.step event = some t) : Tidy t := by
  obtain ⟨lost, taken, stack, tasks⟩ := tidy
  cases step_took h with
  | construct _ => exact ⟨lost, nofun, stack, tasks⟩
  | ignored _ => exact ⟨lost, taken, stack, tasks⟩
  | registered _ =>
    have idle : s.destructing = false := quiet
    refine ⟨lost, fun destructing => absurd (idle.symm.trans destructing) nofun, ?_, tasks⟩
    exact List.pairwise_cons.mpr ⟨fun c mem => placed.lt (p := .stack) mem, stack⟩
  | destroy _ => exact ⟨lost, fun _ => rfl, List.Pairwise.nil, stack⟩
  | call draining _ => exact ⟨lost, fun _ => taken (destructing_draining draining), stack, tasks⟩
  | pop calling =>
    exact ⟨lost, fun _ => taken (destructing_calling calling), stack,
      tasks.sublist (List.tail_sublist _)⟩
  | finish draining _ =>
    have empty := taken (destructing_draining draining)
    exact ⟨by rw [lost, empty]; rfl, nofun, List.Pairwise.nil, tasks⟩

theorem newest_of_tidy (placed : Placed s) (tidy : Tidy s) (event : Event) : Newest s event := by
  cases event with
  | call =>
    intro draining top first c known newer
    obtain ⟨rest, tasks⟩ : ∃ rest, s.tasks = top :: rest := by
      cases tasks : s.tasks with
      | nil => simp [tasks] at first
      | cons head rest =>
        rw [tasks] at first
        cases first
        exact ⟨rest, rfl⟩
    have below : ∀ d ∈ rest, d < top := by
      have sorted := tidy.tasks
      rw [tasks] at sorted
      exact (List.pairwise_cons.mp sorted).1
    have once : s.ran.count c = 1 := by
      apply placed.ran known
      · simp [tidy.taken (destructing_draining draining)]
      · simp only [waiting, draining, tasks]
        intro mem
        rcases List.mem_cons.mp mem with rfl | later
        · exact absurd newer (Nat.lt_irrefl c)
        · exact absurd (below c later) (by omega)
      · simp [tidy.lost]
    exact List.count_pos_iff.mp (by omega)
  | _ => trivial

/-- A callback is lost, or it will be when the destructor returns. -/
def Spoiled (s : AtExit) : Prop := s.lost ≠ [] ∨ s.destructing = true ∧ s.stack ≠ []

theorem step_spoiled (spoiled : Spoiled s) (h : s.step event = some t) : Spoiled t := by
  cases step_took h with
  | construct absent => exact spoiled.imp id fun both => absurd both.1 (by simp [absent])
  | ignored _ => exact spoiled
  | registered _ => exact spoiled.imp id fun both => ⟨both.1, by simp⟩
  | destroy live => exact spoiled.imp id fun both => absurd both.1 (by simp [live])
  | call _ _ => exact spoiled.imp id fun both => ⟨rfl, both.2⟩
  | pop _ => exact spoiled.imp id fun both => ⟨rfl, both.2⟩
  | finish _ _ =>
    -- what is still on the stack is lost here
    refine .inl ?_
    rcases spoiled with lost | ⟨_, left⟩
    · simp [lost]
    · simp [left]

theorem loud_spoils (loud : ¬ Quiet s event) (h : s.step event = some t) : Spoiled t := by
  cases step_took h with
  | ignored absent => exact absurd (destructing_none absent) loud
  | registered _ => exact .inr ⟨Bool.of_not_eq_false loud, List.cons_ne_nil _ _⟩
  | _ => exact absurd trivial loud

theorem spoiled_not_ranAll (placed : Placed s) (ended : s.phase = .none) (spoiled : Spoiled s) :
    ¬ RanAll s := by
  rcases spoiled with lost | ⟨destructing, _⟩
  · obtain ⟨c, mem⟩ := List.exists_mem_of_ne_nil _ lost
    intro ranAll
    have known : c < s.registered := placed.lt (p := .lost) mem
    have called : c ∈ s.ran := List.count_pos_iff.mp (by rw [ranAll c known]; decide)
    cases settled_unique (p := Place.lost) (q := Place.ran) (placed.settled c known) mem called
  · simp [ended] at destructing

theorem initial_placed : Shaped {} ∧ Placed {} := by
  refine ⟨⟨fun _ => ⟨rfl, rfl⟩, nofun⟩, ⟨nofun, ?_⟩⟩
  intro c _ p
  cases p <;> rfl

theorem run_placed (h : run step {} events = some s) : Shaped s ∧ Placed s :=
  run_keeps (I := fun s => Shaped s ∧ Placed s)
    (fun _ _ _ both h => ⟨step_shaped both.1 h, step_placed both.1 both.2 h⟩) initial_placed h

theorem run_tidy (quiet : EachStep step Quiet {} events) (h : run step {} events = some s) :
    (Shaped s ∧ Placed s) ∧ Tidy s := by
  refine run_keeps_under (I := fun s => (Shaped s ∧ Placed s) ∧ Tidy s) ?_ ?_ quiet h
  · intro s event t inv quiet h
    obtain ⟨⟨shaped, placed⟩, tidy⟩ := inv
    exact ⟨⟨step_shaped shaped h, step_placed shaped placed h⟩, step_tidy placed tidy quiet h⟩
  · exact ⟨initial_placed, ⟨rfl, nofun, List.Pairwise.nil, List.Pairwise.nil⟩⟩

/-- When no destructor is running, every callback has been called once and in the reverse order of
registration exactly when nothing was registered while a destructor ran. -/
theorem atExit_runs_all_iff (h : run step {} events = some t) (ended : t.phase = .none) :
    RanAll t ∧ EachStep step Newest {} events ↔ EachStep step Quiet {} events := by
  constructor
  · rintro ⟨ranAll, _⟩ before event after s split reached
    by_contra loud
    subst split
    obtain ⟨middle, first, rest⟩ := run_append.mp h
    cases first.symm.trans reached
    obtain ⟨next, stepped, rest⟩ := run_cons.mp rest
    have spoiled : Spoiled t :=
      run_keeps (fun _ _ _ => step_spoiled) (loud_spoils loud stepped) rest
    exact spoiled_not_ranAll (run_placed h).2 ended spoiled ranAll
  · intro quiet
    constructor
    · obtain ⟨⟨shaped, placed⟩, tidy⟩ := run_tidy quiet h
      obtain ⟨stack, tasks⟩ := shaped.none ended
      intro c known
      apply placed.ran known
      · simp [stack]
      · simp [waiting, ended, tasks]
      · simp [tidy.lost]
    · intro before event after s split reached
      subst split
      obtain ⟨⟨_, placed⟩, tidy⟩ := run_tidy (eachStep_initial quiet) reached
      exact newest_of_tidy placed tidy event

/-- Two callbacks under one manager. The registration that follows the destructor is ignored. -/
def twoCallbacks : List Event :=
  [.construct, .registerCallback, .registerCallback, .destroy, .call, .pop, .call, .pop, .finish, .registerCallback]

theorem atExit_runs_twoCallbacks :
    ∃ t, run step {} twoCallbacks = some t ∧ t.ran = [1, 0] ∧ RanAll t ∧
      EachStep step Newest {} twoCallbacks := by
  have quiet : EachStep step Quiet {} twoCallbacks := eachStep_of_meets (by decide)
  exact ⟨_, rfl, rfl, (atExit_runs_all_iff rfl rfl).mpr quiet⟩

/-- Callback 0 registers callback 1 while the destructor calls it. -/
def lateRegistration : List Event :=
  [.construct, .registerCallback, .destroy, .call, .registerCallback, .pop, .finish]

/-- The late callback goes to the stack that has already been taken, and is never called. -/
theorem atExit_loses_late :
    ∃ t, run step {} lateRegistration = some t ∧ t.phase = .none ∧ t.registered = 2 ∧ t.ran = [0] ∧
      t.lost = [1] ∧ ¬ RanAll t := by
  refine ⟨_, rfl, rfl, rfl, rfl, rfl, ?_⟩
  intro ranAll
  exact absurd (ranAll 1 (by decide)) (by decide)

end AtExit

end Kingkong.Base
