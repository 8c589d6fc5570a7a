import Kingkong.Lib.Monitor
import Mathlib.Algebra.Ring.Int.Defs
import Mathlib.Algebra.Ring.Nat
import Mathlib.Data.List.Nodup

/-!
`SemaphoreImpl`: a counter under a mutex. `Wait` takes from the counter after its predicate has
held, and `Wait(timeout)` inside of its predicate. Each call of a wait has a number of its own, on
whatever thread it is made.
-/

namespace Kingkong.Base
open Lib Monitor

/-- `Wait()` and `Wait(timeout)`. -/
inductive Wait where
  | untimed
  | timed (timeout : Nat)
  deriving DecidableEq

/-- `count_` is an `int`. -/
def int (x : Int) : Int := Int.bmod x (2 ^ 32)

def semaphore : Monitor Int Wait where
  timed
    | .untimed => false
    | .timed _ => true
  pred
    | .untimed, count => (decide (count > 0), count)
    | .timed _, count => if count > 0 then (true, int (count - 1)) else (false, count)
  rest
    | .untimed, count => int (count - 1)
    | .timed _, count => count

def signal (_ : Unit) (count : Int) : Int := int (count + 1)

namespace Semaphore

def step : State Int Wait → Event Unit Wait → Option (State Int Wait) := semaphore.step signal

def initial : State Int Wait := { data := 0 }

def isSignal : Event Unit Wait → Bool
  | .act _ => true
  | _ => false

def signals (events : List (Event Unit Wait)) : Nat := events.countP isSignal

/-- The calls that have taken from the counter, once for each time. -/
def consumers (s : State Int Wait) : List Nat :=
  (s.evaluations.filter fun e => e.after < e.before).map Evaluation.call

variable {s t : State Int Wait} {events : List (Event Unit Wait)}

theorem int_small {x : Int} (low : -2 ^ 31 ≤ x) (high : x < 2 ^ 31) : int x = x :=
  Int.bmod_eq_of_le (by omega) (by omega)

/-- Both kinds of wait take one from a counter that is positive. -/
theorem attempt_eq (kind : Wait) (count : Int) :
    semaphore.attempt kind count =
      if 0 < count then (true, int (count - 1)) else (false, count) := by
  cases kind with
  | untimed =>
    by_cases positive : 0 < count
    · simp [attempt, semaphore, positive]
    · simp [attempt, semaphore, positive]
  | timed timeout =>
    by_cases positive : 0 < count
    · simp [attempt, semaphore, positive]
    · simp [attempt, semaphore, positive]

/-- The counter holds the signals that nobody has consumed, and an evaluation consumes one when its
predicate holds. -/
structure Conserved (signals : Nat) (s : State Int Wait) : Prop where
  nonneg : 0 ≤ s.data
  balance : s.data + (consumers s).length = signals
  faithful : ∀ e ∈ s.evaluations, (e.after < e.before ↔ e.answer = true)

theorem evaluate_conserved {n : Nat} (few : n < 2 ^ 31) (conserved : Conserved n s) (w : Nat)
    (kind : Wait) (otherwise : Call Wait) :
    Conserved n (semaphore.evaluate s w kind otherwise) := by
  obtain ⟨nonneg, balance, faithful⟩ := conserved
  by_cases positive : 0 < s.data
  · have taken : semaphore.attempt kind s.data = (true, s.data - 1) := by
      rw [attempt_eq, if_pos positive, int_small (by omega) (by omega)]
    have consumed : consumers (semaphore.evaluate s w kind otherwise) = consumers s ++ [w] := by
      have lower : s.data - 1 < s.data := by omega
      simp [consumers, evaluate, taken, lower]
    refine ⟨?_, ?_, ?_⟩
    · simp only [evaluate, taken]
      omega
    · rw [consumed, List.length_append, List.length_singleton]
      simp only [evaluate, taken]
      omega
    · simp only [evaluate, taken, List.forall_mem_append, List.forall_mem_singleton]
      exact ⟨faithful, iff_of_true (by omega) trivial⟩
  · have untaken : semaphore.attempt kind s.data = (false, s.data) := by
      rw [attempt_eq, if_neg positive]
    have same : consumers (semaphore.evaluate s w kind otherwise) = consumers s := by
      simp [consumers, evaluate, untaken]
    refine ⟨?_, ?_, ?_⟩
    · simp only [evaluate, untaken]
      exact nonneg
    · rw [same]
      simp only [evaluate, untaken]
      exact balance
    · simp only [evaluate, untaken, List.forall_mem_append, List.forall_mem_singleton]
      exact ⟨faithful, iff_of_false (by omega) (by decide)⟩

theorem signal_conserved {n : Nat} (few : n + 1 < 2 ^ 31) (conserved : Conserved n s) :
    Conserved (n + 1) { s with data := signal () s.data } := by
  obtain ⟨nonneg, balance, faithful⟩ := conserved
  have raised : signal () s.data = s.data + 1 := int_small (by omega) (by omega)
  refine ⟨?_, ?_, faithful⟩
  · show 0 ≤ signal () s.data
    omega
  · show signal () s.data + (consumers s).length = (n + 1 : Nat)
    omega

/-- A step of the run keeps the balance, as long as the signals so far are few. -/
theorem step_conserved {before : List (Event Unit Wait)} {event : Event Unit Wait}
    (earlier : signals before < 2 ^ 31 → Conserved (signals before) s) (h : step s event = some t) :
    signals (before ++ [event]) < 2 ^ 31 → Conserved (signals (before ++ [event])) t := by
  intro few
  have split : signals (before ++ [event]) = signals before + signals [event] := List.countP_append
  rcases step_cases h with ⟨action, rfl, rfl⟩ | ⟨w, kind, otherwise, _, _, other, rfl⟩
  · rw [split] at few ⊢
    exact signal_conserved few (earlier (by omega))
  · have none : signals [event] = 0 := by
      cases event with
      | act action => exact absurd rfl (other action)
      | _ => rfl
    rw [split, none] at few ⊢
    exact evaluate_conserved few (earlier few) w kind otherwise

theorem run_conserved (h : run step initial events = some s) (few : signals events < 2 ^ 31) :
    Conserved (signals events) s := by
  refine run_reads (R := fun before s => signals before < 2 ^ 31 → Conserved (signals before) s) ?_ ?_ h few
  · intro before s event t earlier h
    exact step_conserved earlier h
  · intro _
    exact ⟨Int.le_refl _, rfl, by simp [initial]⟩

theorem count_consumers {n : Nat} (conserved : Conserved n s) (w : Nat) :
    (consumers s).count w = (successes s w).length := by
  have answers : (s.evaluations.filter fun e => e.after < e.before) =
      s.evaluations.filter Evaluation.answer := by
    apply List.filter_congr
    intro e mem
    rw [Bool.eq_iff_iff, decide_eq_true_iff]
    exact conserved.faithful e mem
  rw [consumers, answers, List.count, List.countP_map, List.countP_filter, successes,
    List.countP_eq_length_filter]
  rfl

/-- The counter is never negative and holds the signals that were not consumed. No wait consumes two
of them, and a wait that ends by its timeout consumes none. -/
theorem semaphore_conserves (h : run step initial events = some s) (few : signals events < 2 ^ 31) :
    0 ≤ s.data ∧ s.data + (consumers s).length = signals events ∧ (consumers s).Nodup ∧
      ∀ w timeout, s.calls w = .returned (.timed timeout) false → w ∉ consumers s := by
  have conserved := run_conserved h few
  have once : Once s := run_once h
  refine ⟨conserved.nonneg, conserved.balance, ?_, ?_⟩
  · rw [List.nodup_iff_count_le_one]
    intro w
    rw [count_consumers conserved, once w]
    split <;> decide
  · intro w timeout ended
    rw [← List.count_eq_zero, count_consumers conserved, once w, ended]
    rfl

/-- A timed wait that finds a signal, one that times out, and an untimed wait that a later signal
wakes. -/
def mixedWaits : List (Event Unit Wait) :=
  [.act (), .enter 0 (.timed 2000), .enter 1 .untimed, .enter 2 (.timed 0), .wake 1, .expire 2, .act (), .wake 1]

theorem semaphore_conserves_mixed :
    ∃ s, run step initial mixedWaits = some s ∧ consumers s = [0, 1] ∧
    s.data + (consumers s).length = 2 ∧ 2 ∉ consumers s := by
  obtain ⟨s, reached⟩ : ∃ s, run step initial mixedWaits = some s := ⟨_, rfl⟩
  obtain ⟨_, balance, _, timedOut⟩ := semaphore_conserves reached (by decide)
  refine ⟨s, reached, ?_, balance, timedOut 2 0 ?_⟩
  · cases reached
    decide
  · cases reached
    rfl

end Semaphore

end Kingkong.Base
