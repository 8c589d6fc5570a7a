import Kingkong.Lib.Run
import Kingkong.Lib.OrderedSet
import Kingkong.Lib.Places
import Mathlib.Algebra.Ring.Nat
import Mathlib.Logic.Function.Basic

/-!
`MessagePumpImpl`: the set of posted tasks, the `PostRunable` calls in flight on any threads, and
the worker routines `DoWork` and `DoOneWork`. A section under `runable_set_mutex_` is one step. What
a thread does between two such sections is a step of its own, so every interleaving of threads is a
list of events.

`Wakeup` is virtual. The pumps that implement it add their own state to this one.
-/

namespace Kingkong.Pump
open Lib

variable {R : Type}

def wordBound : Nat := 2 ^ 64

def expiredTime (tick delay : Nat) : Nat := (tick + delay) % wordBound

structure RunnableInfo (R : Type) where
  expiredTime : Nat
  runnable : R
  id : Nat
  deriving DecidableEq

/-- `operator<`: by expiry, and by id among equal expiries. -/
def RunnableInfo.lt (left right : RunnableInfo R) : Prop :=
  if left.expiredTime = right.expiredTime then left.id < right.id else left.expiredTime < right.expiredTime

instance : DecidableRel (RunnableInfo.lt (R := R)) := fun left right =>
  inferInstanceAs (Decidable (if left.expiredTime = right.expiredTime then left.id < right.id
    else left.expiredTime < right.expiredTime))

theorem RunnableInfo.lt_iff {left right : RunnableInfo R} :
    left.lt right ↔ left.expiredTime < right.expiredTime ∨
      left.expiredTime = right.expiredTime ∧ left.id < right.id := by
  unfold RunnableInfo.lt
  split <;> omega

instance : IsTrans (RunnableInfo R) RunnableInfo.lt where
  trans a b c := by
    simp only [RunnableInfo.lt_iff]
    omega

theorem RunnableInfo.lt_asymm {left right : RunnableInfo R} (before : left.lt right) :
    ¬ right.lt left := by
  simp only [RunnableInfo.lt_iff] at before ⊢
  omega

/-- Tasks with different ids are never equivalent, so the set keeps both. -/
theorem RunnableInfo.lt_or_lt {left right : RunnableInfo R} (different : left.id ≠ right.id) :
    left.lt right ∨ right.lt left := by
  simp only [RunnableInfo.lt_iff]
  omega

abbrev RunableSet (R : Type) := OrderedSet (RunnableInfo R) RunnableInfo.lt

/-- Where a `PostRunable` call is. `tick` is the answer of its own `GetTickCount2`. -/
inductive Call (R : Type) where
  | idle
  | entered (tick delay : Nat) (runnable : R)
  | inserted (tick delay id : Nat) (wakeup : Bool)
  | returned (tick delay id : Nat)
  | refused
  deriving DecidableEq

def Call.id? : Call R → Option Nat
  | .inserted _ _ id _ | .returned _ _ id => some id
  | _ => none

def Call.answer? : Call R → Option Nat
  | .returned _ _ id => some id
  | .refused => some 0
  | _ => none

/-- The tick, the delay and the id of a call that has drawn one. -/
def Call.post? : Call R → Option (Nat × Nat × Nat)
  | .inserted tick delay id _ | .returned tick delay id => some (tick, delay, id)
  | _ => none

/-- Where a worker thread is. `polled` and `polledOne` hold the tick that `DoWork` and `DoOneWork`
read before they take the lock. A task taken by `DoOneWork` may run a nested loop, so its worker is
idle again as soon as the task is started. -/
inductive Worker (R : Type) where
  | idle
  | polled (seen : Nat)
  | working (batch : List (RunnableInfo R))
  | polledOne (seen : Nat)
  | took (task : RunnableInfo R)
  | exited
  deriving DecidableEq

def Worker.batch : Worker R → List (RunnableInfo R)
  | .working batch => batch
  | .took task => [task]
  | _ => []

/-- Inside `DoWork`, between its call and its second locked section. -/
def Worker.inDoWork : Worker R → Bool
  | .polled _ | .working _ => true
  | _ => false

/-- `started`, `cancelled` and `discarded` are the history of the tasks that left the pump. -/
structure State (R : Type) where
  threads : Nat
  now : Nat := 0
  runableSet : RunableSet R := .empty
  id : Nat := 0
  stoped : Bool := false
  calls : Nat → Call R := fun _ => .idle
  workers : Nat → Worker R := fun _ => .idle
  started : List (RunnableInfo R) := []
  cancelled : List (RunnableInfo R) := []
  discarded : List (RunnableInfo R) := []

def due (seen : Nat) (info : RunnableInfo R) : Bool := decide (info.expiredTime ≤ seen)

namespace State

def setCall (s : State R) (c : Nat) (call : Call R) : State R :=
  { s with calls := Function.update s.calls c call }

def setWorker (s : State R) (w : Nat) (worker : Worker R) : State R :=
  { s with workers := Function.update s.workers w worker }

/-- `PostRunable` up to the lock: the test of `stoped_` and the tick. -/
def postRunableEnter (s : State R) (c delay : Nat) (runnable : R) : Option (State R) :=
  match s.calls c with
  | .idle => some (s.setCall c (if s.stoped then .refused else .entered s.now delay runnable))
  | _ => none

/-- The task is due before every task of the set. -/
def wakesUp (s : State R) (expired : Nat) : Bool :=
  match s.runableSet.first? with
  | none => true
  | some first => decide (expired < first.expiredTime)

/-- The locked section of `PostRunable`. -/
def postRunableInsert (s : State R) (c : Nat) : Option (State R) :=
  match s.calls c with
  | .entered tick delay runnable =>
    let id := (s.id + 1) % wordBound
    let expired := Pump.expiredTime tick delay
    some { s.setCall c (.inserted tick delay id (s.wakesUp expired)) with
      id := id
      runableSet := s.runableSet.insert ⟨expired, runnable, id⟩ }
  | _ => none

/-- The end of `PostRunable`, after its `Wakeup` if there is one. -/
def postRunableReturn (s : State R) (c : Nat) : Option (State R) :=
  match s.calls c with
  | .inserted tick delay id _ => some (s.setCall c (.returned tick delay id))
  | _ => none

def cancel (s : State R) (id : Nat) : Bool × State R :=
  match s.runableSet.elems.find? (fun info => info.id == id) with
  | some info =>
    (true, { s with
      runableSet := s.runableSet.eraseFirst (fun info => info.id == id)
      cancelled := s.cancelled ++ [info] })
  | none => (false, s)

/-- The call of `DoWork` or `DoOneWork` by an idle worker, which reads the tick. -/
def poll (s : State R) (w : Nat) (polled : Nat → Worker R) : Option (State R) :=
  match s.workers w with
  | .idle => if w < s.threads then some (s.setWorker w (polled s.now)) else none
  | _ => none

/-- The first locked section of `DoWork`: every due task leaves the set for the batch. -/
def doWorkTake (s : State R) (w : Nat) : Option (State R) :=
  match s.workers w with
  | .polled seen =>
    some { s.setWorker w (.working (s.runableSet.front (due seen))) with
      runableSet := s.runableSet.dropFront (due seen) }
  | _ => none

def start (s : State R) (w : Nat) : Option (State R) :=
  match s.workers w with
  | .working (task :: rest) => some { s.setWorker w (.working rest) with started := s.started ++ [task] }
  | .took task => some { s.setWorker w .idle with started := s.started ++ [task] }
  | _ => none

/-- The second locked section of `DoWork`, once the batch has run. -/
def doWorkEnd (s : State R) (w : Nat) : Option (State R) :=
  match s.workers w with
  | .working [] => some (s.setWorker w .idle)
  | _ => none

/-- The locked section of `DoOneWork`: one task, if the first one is due. -/
def doOneWorkTake (s : State R) (w : Nat) : Option (State R) :=
  match s.workers w with
  | .polledOne seen =>
    match s.runableSet.first? with
    | some first =>
      if due seen first then some { s.setWorker w (.took first) with runableSet := s.runableSet.dropFirst }
      else some (s.setWorker w .idle)
    | none => some (s.setWorker w .idle)
  | _ => none

/-- The end of `Run` on a worker thread: the tasks left in the set are dropped. -/
def clear (s : State R) (w : Nat) : Option (State R) :=
  match s.workers w with
  | .idle =>
    if w < s.threads then
      some { s.setWorker w .exited with
        stoped := true
        runableSet := .empty
        discarded := s.discarded ++ s.runableSet.elems }
    else none
  | _ => none

end State

inductive Event (R : Type) where
  | tick (elapsed : Nat)
  | enter (c delay : Nat) (runnable : R)
  | insert (c : Nat)
  | leave (c : Nat)
  | cancel (id : Nat)
  | doWork (w : Nat)
  | take (w : Nat)
  | start (w : Nat)
  | rearm (w : Nat)
  | doOneWork (w : Nat)
  | takeOne (w : Nat)
  | clear (w : Nat)
  | stop

def step (s : State R) : Event R → Option (State R)
  | .tick elapsed => some { s with now := s.now + elapsed }
  | .enter c delay runnable => s.postRunableEnter c delay runnable
  | .insert c => s.postRunableInsert c
  | .leave c => s.postRunableReturn c
  | .cancel id => some (s.cancel id).2
  | .doWork w => s.poll w .polled
  | .take w => s.doWorkTake w
  | .start w => s.start w
  | .rearm w => s.doWorkEnd w
  | .doOneWork w => s.poll w .polledOne
  | .takeOne w => s.doOneWorkTake w
  | .clear w => s.clear w
  | .stop => some { s with stoped := true }

def initial (R : Type) (threads : Nat) : State R := { threads := threads }

inductive Place where
  | runableSet
  | batch (w : Nat)
  | started
  | cancelled
  | discarded
  deriving DecidableEq

def Place.live : Place → Bool
  | .runableSet | .batch _ => true
  | _ => false

def State.tasks (s : State R) : Place → List (RunnableInfo R)
  | .runableSet => s.runableSet.elems
  | .batch w => (s.workers w).batch
  | .started => s.started
  | .cancelled => s.cancelled
  | .discarded => s.discarded

def State.ids (s : State R) (place : Place) : List Nat := (s.tasks place).map RunnableInfo.id

end Kingkong.Pump
