import Kingkong.Pump.Retired

/-!
`MessageLooperManager` behind `g_loop_manager_mutex`. `InitMessageLoop` constructs the manager under
the lock. `UnintMessageLoop` only takes the pointer under the lock and deletes the manager outside
of it, so its stops and joins are steps among those of all other threads.
-/

namespace Kingkong.Loop
open Lib Pump

variable {R : Type}

inductive Platform where
  | windows
  | android

/-- The loopers that have a `MessagePumpDefatlt`. -/
inductive AsioType where
  | io
  | work
  | file
  deriving DecidableEq

def AsioType.threadCount : AsioType → Nat
  | .io | .file => 1
  | .work => 4

inductive MessagePumpType where
  | ui
  | asio (type : AsioType)
  deriving DecidableEq

/-- The keys of `loopers_`, in the order of the map. -/
def loopers : List MessagePumpType := [.ui, .asio .io, .asio .work, .asio .file]

/-- The pumps of one manager. The pump of the UI belongs to the thread that called
`InitMessageLoop`. -/
structure Pumps (R : Type) where
  ui : State (Job R) := Pump.initial (Job R) 1
  asio : AsioType → Service R := fun type => Service.initial R type.threadCount

/-- Where a thread is in `Stop`: at the test of `stoped_`, in the `PostRunable` of `DoStop`, or in
`Join`. -/
inductive Stage where
  | test
  | posting (c : Nat)
  | joining
  deriving DecidableEq

/-- `delete tmp`, with the loopers that it has not deleted yet. -/
structure Deletion where
  manager : Nat
  loopers : List MessagePumpType
  stage : Stage := .test

/-- Managers have numbers in the order in which they are constructed. -/
structure Loops (R : Type) where
  gLoopManager : Option Nat := none
  created : Nat := 0
  pumps : Nat → Pumps R := fun _ => {}
  deleting : Nat → Option Deletion := fun _ => none
  deleted : List Nat := []

namespace Pumps

variable (platform : Platform) (caller : AsioType → Nat → Option Nat)

def setAsio (p : Pumps R) (type : AsioType) (service : Service R) : Pumps R :=
  { p with asio := Function.update p.asio type service }

def stoped (p : Pumps R) : MessagePumpType → Bool
  | .ui => p.ui.stoped
  | .asio type => (p.asio type).pump.stoped

/-- One of the pumps takes a step. -/
def change (p : Pumps R) (type : MessagePumpType) (ui : State (Job R) → Option (State (Job R)))
    (event : Service.Event R) : Option (Pumps R) :=
  match type with
  | .ui => (ui p.ui).map fun ui => { p with ui := ui }
  | .asio type => ((p.asio type).step (caller type) event).map (p.setAsio type)

/-- The `PostRunable` of `Stop` up to its lock. -/
def post (p : Pumps R) (type : MessagePumpType) (c : Nat) : Option (Pumps R) :=
  p.change caller type (Pump.step · (.enter c 0 .doStop)) (.stop c)

/-- `stoped_ = true` in `Stop`, when `PostRunable` has returned. -/
def setStoped (p : Pumps R) (type : MessagePumpType) (c : Nat) : Option (Pumps R) :=
  p.change caller type (fun ui => if (ui.calls c).answer?.isSome then Pump.step ui .stop else none) (.stoped c)

/-- `Join` returns. It is empty for the pump of the UI. -/
def Joined (p : Pumps R) : MessagePumpType → Prop
  | .ui => True
  | .asio type => AllExited (p.asio type).pump

instance [DecidableEq R] (p : Pumps R) : (type : MessagePumpType) → Decidable (p.Joined type)
  | .ui => inferInstanceAs (Decidable True)
  | .asio type => inferInstanceAs (Decidable (AllExited (p.asio type).pump))

/-- What else happens in a pump. Nobody but the manager calls `Stop`, and the pump of the UI has no
`Run`. -/
inductive Event (R : Type) where
  | ui (event : Pump.Event (Job R))
  | asio (type : AsioType) (event : Service.Event R)

def Event.isForeign : Event R → Bool
  | .ui (.enter _ _ .doStop) | .ui .stop | .ui (.clear _) => false
  | .ui _ => true
  | .asio _ event => !event.stops

def step (p : Pumps R) : Event R → Option (Pumps R)
  | .ui event => (Pump.step p.ui event).map fun ui => { p with ui := ui }
  | .asio type event => ((p.asio type).step (caller type) event).map (p.setAsio type)

end Pumps

inductive Event (R : Type) where
  | initMessageLoop
  | unintMessageLoop (t : Nat)
  | stop (t c : Nat)
  | stoped (t : Nat)
  | join (t : Nat)
  | finish (t : Nat)
  | pump (g : Nat) (event : Pumps.Event R)

namespace Loops

variable (platform : Platform) (caller : Nat → AsioType → Nat → Option Nat)

def setPumps (s : Loops R) (g : Nat) (p : Pumps R) : Loops R :=
  { s with pumps := Function.update s.pumps g p }

def setDeletion (s : Loops R) (t : Nat) (d : Option Deletion) : Loops R :=
  { s with deleting := Function.update s.deleting t d }

def initMessageLoop (s : Loops R) : Loops R :=
  match s.gLoopManager with
  | some _ => s
  | none => { s with gLoopManager := some s.created, created := s.created + 1 }

def unintMessageLoop (s : Loops R) (t : Nat) : Loops R :=
  match s.gLoopManager with
  | some g => { s with gLoopManager := none }.setDeletion t (some ⟨g, loopers, .test⟩)
  | none => s

/-- The first half of `Stop`. `MessagePumpWin` only sets `stoped_` and destroys its window. -/
def stop (s : Loops R) (t c : Nat) : Option (Loops R) :=
  match s.deleting t with
  | some ⟨g, type :: rest, .test⟩ =>
    match platform, type with
    | .windows, .ui =>
      some ((s.setPumps g { s.pumps g with ui := { (s.pumps g).ui with stoped := true } }).setDeletion t
        (some ⟨g, rest, .test⟩))
    | _, _ =>
      if (s.pumps g).stoped type then some (s.setDeletion t (some ⟨g, rest, .test⟩))
      else ((s.pumps g).post (caller g) type c).map fun p =>
        (s.setPumps g p).setDeletion t (some ⟨g, type :: rest, .posting c⟩)
  | _ => none

def stoped (s : Loops R) (t : Nat) : Option (Loops R) :=
  match s.deleting t with
  | some ⟨g, type :: rest, .posting c⟩ =>
    ((s.pumps g).setStoped (caller g) type c).map fun p =>
      (s.setPumps g p).setDeletion t (some ⟨g, type :: rest, .joining⟩)
  | _ => none

/-- `Join` returns, and the looper is deleted. Its own `Stop` finds `stoped_` set. -/
def join [DecidableEq R] (s : Loops R) (t : Nat) : Option (Loops R) :=
  match s.deleting t with
  | some ⟨g, type :: rest, .joining⟩ =>
    if (s.pumps g).Joined type then some (s.setDeletion t (some ⟨g, rest, .test⟩)) else none
  | _ => none

/-- `UnintMessageLoop` returns. -/
def finish (s : Loops R) (t : Nat) : Option (Loops R) :=
  match s.deleting t with
  | some ⟨g, [], .test⟩ => some { s.setDeletion t none with deleted := g :: s.deleted }
  | _ => none

def step [DecidableEq R] (s : Loops R) : Event R → Option (Loops R)
  | .initMessageLoop => some s.initMessageLoop
  | .unintMessageLoop t => if s.deleting t = none then some (s.unintMessageLoop t) else none
  | .stop t c => s.stop platform caller t c
  | .stoped t => s.stoped caller t
  | .join t => s.join t
  | .finish t => s.finish t
  | .pump g event =>
    if g < s.created ∧ event.isForeign = true then ((s.pumps g).step (caller g) event).map (s.setPumps g) else none

/-- The pump that an accessor such as `IOMessagePump` returns: the manager and the key of the looper
that is found in `loopers_`. `none` is `s_empty_pump`, or the null pointer for a type that is no
key. -/
def getMessagePumpByType (s : Loops R) (type : MessagePumpType) : Option (Nat × MessagePumpType) :=
  s.gLoopManager.bind fun g => (loopers.find? (· == type)).map fun key => (g, key)

end Loops

/-! ### The pumps of one manager -/

namespace Pumps

variable {p q : Pumps R} {caller : AsioType → Nat → Option Nat} {type other : MessagePumpType} {c : Nat}

/-- Nobody has stopped the pump. -/
def Untouched (p : Pumps R) : MessagePumpType → Prop
  | .ui => p.ui.stoped = false
  | .asio type => Pump.Untouched (p.asio type)

/-- The pump is stopped, and if it has threads of its own they have ended. -/
def Retired (caller : AsioType → Nat → Option Nat) (p : Pumps R) : MessagePumpType → Prop
  | .ui => p.ui.stoped = true
  | .asio type => Pump.Retired (caller type) (p.asio type)

/-- Both have the same pump there. -/
def Same (p q : Pumps R) : MessagePumpType → Prop
  | .ui => q.ui = p.ui
  | .asio type => q.asio type = p.asio type

theorem Untouched.stoped (untouched : p.Untouched type) : p.stoped type = false := by
  cases type with
  | ui => exact untouched
  | asio type => exact Pump.Untouched.stoped untouched

theorem Same.untouched (same : p.Same q type) (untouched : p.Untouched type) :
    q.Untouched type := by
  cases type with
  | ui => exact (congrArg State.stoped same).trans untouched
  | asio type =>
    have same : q.asio type = p.asio type := same
    simpa only [Untouched, same] using untouched

theorem Same.retired (same : p.Same q type) (retired : p.Retired caller type) :
    q.Retired caller type := by
  cases type with
  | ui => exact (congrArg State.stoped same).trans retired
  | asio type =>
    have same : q.asio type = p.asio type := same
    simpa only [Retired, same] using retired

def AllCallers (caller : AsioType → Nat → Option Nat) (p : Pumps R) : Prop :=
  ∀ type, Callers (caller type) (p.asio type)

/-- One of the other pumps takes a step. -/
theorem setAsio_same {type : AsioType} {service : Service R} (apart : other ≠ .asio type) :
    p.Same (p.setAsio type service) other := by
  cases other with
  | ui => rfl
  | asio other =>
    have different : other ≠ type := fun equal => apart (congrArg _ equal)
    exact Function.update_of_ne different ..

theorem setAsio_callers {type : AsioType} {service : Service R} (all : p.AllCallers caller)
    (callers : Callers (caller type) service) : (p.setAsio type service).AllCallers caller := by
  intro other
  by_cases equal : other = type
  · subst equal
    simpa only [setAsio, Function.update_self] using callers
  · simpa only [setAsio, Function.update_of_ne equal] using all other

/-- What a step of one pump is for each of them. -/
theorem asio_step {type other : AsioType} {event : Service.Event R}
    (h : ((p.asio type).step (caller type) event).map (p.setAsio type) = some q) :
    q.asio other = p.asio other ∨
      ∃ event, (p.asio other).step (caller other) event = some (q.asio other) := by
  obtain ⟨service, stepped, rfl⟩ := Option.map_eq_some_iff.mp h
  by_cases equal : other = type
  · subst equal
    have here : (p.setAsio other service).asio other = service := Function.update_self ..
    exact Or.inr ⟨event, by rw [here, stepped]⟩
  · exact Or.inl (Function.update_of_ne equal ..)

section Change

variable {ui : State (Job R) → Option (State (Job R))} {event : Service.Event R}

theorem change_same (h : p.change caller type ui event = some q) (apart : other ≠ type) :
    p.Same q other := by
  cases type with
  | ui =>
    obtain ⟨after, -, rfl⟩ := Option.map_eq_some_iff.mp h
    cases other with
    | ui => exact absurd rfl apart
    | asio other => rfl
  | asio type =>
    obtain ⟨service, -, rfl⟩ := Option.map_eq_some_iff.mp h
    exact setAsio_same apart

theorem change_callers (h : p.change caller type ui event = some q) (all : p.AllCallers caller) :
    q.AllCallers caller := by
  cases type with
  | ui =>
    obtain ⟨after, -, rfl⟩ := Option.map_eq_some_iff.mp h
    exact all
  | asio type =>
    obtain ⟨service, stepped, rfl⟩ := Option.map_eq_some_iff.mp h
    exact setAsio_callers all (step_callers (all type) stepped)

theorem change_asio (h : p.change caller type ui event = some q) (other : AsioType) :
    q.asio other = p.asio other ∨
      ∃ event, (p.asio other).step (caller other) event = some (q.asio other) := by
  cases type with
  | ui =>
    obtain ⟨after, -, rfl⟩ := Option.map_eq_some_iff.mp h
    exact Or.inl rfl
  | asio type => exact asio_step h

end Change

theorem setStoped_stoped (h : p.setStoped caller type c = some q) : q.stoped type = true := by
  cases type with
  | ui =>
    obtain ⟨after, stopped, rfl⟩ := Option.map_eq_some_iff.mp h
    obtain ⟨-, stopped⟩ := Option.ite_none_right_eq_some.mp stopped
    cases stopped
    rfl
  | asio type =>
    obtain ⟨service, stepped, rfl⟩ := Option.map_eq_some_iff.mp h
    have set := (Option.some.inj (stoped_cases stepped).2.1.pump).symm
    simp only [stoped, setAsio, Function.update_self, set]

theorem ui_stoped {event : Pump.Event (Job R)} {ui : State (Job R)}
    (foreign : (Event.ui event).isForeign = true) (h : Pump.step p.ui event = some ui) :
    ui.stoped = p.ui.stoped := by
  rcases step_stoped h with same | ⟨-, rfl | ⟨w, rfl⟩⟩
  · exact same
  · cases foreign
  · cases foreign

theorem step_allCallers {event : Event R} (h : p.step caller event = some q)
    (all : p.AllCallers caller) :
    q.AllCallers caller := by
  cases event with
  | ui event =>
    obtain ⟨ui, -, rfl⟩ := Option.map_eq_some_iff.mp h
    exact all
  | asio type event =>
    obtain ⟨service, stepped, rfl⟩ := Option.map_eq_some_iff.mp h
    exact setAsio_callers all (step_callers (all type) stepped)

/-- What others do with the pumps neither stops one nor wakes one up. -/
theorem step_foreign {event : Event R} (foreign : event.isForeign = true)
    (h : p.step caller event = some q) (type : MessagePumpType) :
    (p.Untouched type → q.Untouched type) ∧ (p.Retired caller type → q.Retired caller type) ∧
      (p.stoped type = true → q.stoped type = true) := by
  cases event with
  | ui event =>
    obtain ⟨ui, stepped, rfl⟩ := Option.map_eq_some_iff.mp h
    cases type with
    | ui =>
      have same := ui_stoped foreign stepped
      exact ⟨same.trans, same.trans, same.trans⟩
    | asio type => exact ⟨id, id, id⟩
  | asio changed event =>
    obtain ⟨service, stepped, rfl⟩ := Option.map_eq_some_iff.mp h
    by_cases equal : type = .asio changed
    · subst equal
      have kept : (p.setAsio changed service).asio changed = service := Function.update_self ..
      simp only [Untouched, Retired, stoped, kept]
      refine ⟨fun untouched => untouched_step untouched (by simpa [Event.isForeign] using foreign) stepped,
        fun retired => (retired_step retired stepped).1, fun set => ?_⟩
      rcases service_step stepped with ⟨-, same⟩ | ⟨e, -, moved⟩
      · rw [same, set]
      · rcases step_stoped moved with same | ⟨after, -⟩
        · rw [same, set]
        · exact after
    · have same : p.Same (p.setAsio changed service) type := setAsio_same equal
      refine ⟨same.untouched, same.retired, fun set => ?_⟩
      cases type with
      | ui => exact set
      | asio type => exact (congrArg (fun service : Service R => service.pump.stoped) same).trans set

theorem joined_retired (joined : p.Joined type) (stoped : p.stoped type = true)
    (all : p.AllCallers caller) :
    p.Retired caller type := by
  cases type with
  | ui => exact stoped
  | asio type => exact ⟨all type, stoped, joined⟩

end Pumps

end Kingkong.Loop
