import Kingkong.Lib.Run
import Mathlib.Logic.Function.Basic

/-!
A mutex with a condition variable. A wait evaluates its predicate under the mutex when it is called
and each time it wakes up, until the predicate holds. A wait with a deadline evaluates it a last
time when the deadline has passed. A predicate may write to the data that the mutex guards. Wake-ups
come at any time, so they need no notification.
-/

namespace Kingkong.Lib

/-- `rest` is what a wait does between a predicate that holds and the end of the locked section. -/
structure Monitor (σ κ : Type) where
  timed : κ → Bool
  pred : κ → σ → Bool × σ
  rest : κ → σ → σ

namespace Monitor

inductive Call (κ : Type) where
  | idle
  | blocked (kind : κ)
  | returned (kind : κ) (answer : Bool)
  deriving DecidableEq

/-- An evaluation of the predicate of a call, with the data before it and at the end of its locked
section. -/
structure Evaluation (σ : Type) where
  call : Nat
  answer : Bool
  before : σ
  after : σ

/-- `evaluations` is the history of the predicate. -/
structure State (σ κ : Type) where
  data : σ
  calls : Nat → Call κ := fun _ => .idle
  evaluations : List (Evaluation σ) := []

/-- `act` is any other section under the mutex. -/
inductive Event (α κ : Type) where
  | act (action : α)
  | enter (w : Nat) (kind : κ)
  | wake (w : Nat)
  | expire (w : Nat)

variable {σ κ α : Type}

def attempt (m : Monitor σ κ) (kind : κ) (data : σ) : Bool × σ :=
  match m.pred kind data with
  | (true, data) => (true, m.rest kind data)
  | (false, data) => (false, data)

/-- `otherwise` is where the call is when its predicate does not hold. -/
def evaluate (m : Monitor σ κ) (s : State σ κ) (w : Nat) (kind : κ) (otherwise : Call κ) :
    State σ κ where
  data := (m.attempt kind s.data).2
  calls := Function.update s.calls w (if (m.attempt kind s.data).1 then .returned kind true else otherwise)
  evaluations := s.evaluations ++ [⟨w, (m.attempt kind s.data).1, s.data, (m.attempt kind s.data).2⟩]

def step (m : Monitor σ κ) (act : α → σ → σ) (s : State σ κ) : Event α κ → Option (State σ κ)
  | .act action => some { s with data := act action s.data }
  | .enter w kind =>
    match s.calls w with
    | .idle => some (m.evaluate s w kind (.blocked kind))
    | _ => none
  | .wake w =>
    match s.calls w with
    | .blocked kind => some (m.evaluate s w kind (.blocked kind))
    | _ => none
  | .expire w =>
    match s.calls w with
    | .blocked kind => if m.timed kind then some (m.evaluate s w kind (.returned kind false)) else none
    | _ => none

variable {m : Monitor σ κ} {act : α → σ → σ} {s t : State σ κ} {event : Event α κ} {events : List (Event α κ)}

def Call.succeeded : Call κ → Bool
  | .returned _ answer => answer
  | _ => false

/-- A step is an action, or it evaluates the predicate of a call that has not returned. -/
theorem step_cases (h : m.step act s event = some t) :
    (∃ action, event = .act action ∧ t = { s with data := act action s.data }) ∨
      ∃ w kind otherwise, (s.calls w).succeeded = false ∧ otherwise.succeeded = false ∧
        (∀ action, event ≠ .act action) ∧ t = m.evaluate s w kind otherwise := by
  cases event with
  | act action =>
    cases h
    exact .inl ⟨action, rfl, rfl⟩
  | enter w kind =>
    simp only [step] at h
    split at h <;> cases h
    rename_i place
    exact .inr ⟨w, kind, _, by rw [place]; rfl, rfl, by simp, rfl⟩
  | wake w =>
    simp only [step] at h
    split at h <;> cases h
    rename_i kind place
    exact .inr ⟨w, kind, _, by rw [place]; rfl, rfl, by simp, rfl⟩
  | expire w =>
    simp only [step] at h
    split at h
    · rename_i kind place
      obtain ⟨_, same⟩ := Option.ite_none_right_eq_some.mp h
      cases same
      exact .inr ⟨w, kind, _, by rw [place]; rfl, rfl, by simp, rfl⟩
    · cases h

/-- The evaluations of a call in which its predicate held. -/
def successes (s : State σ κ) (w : Nat) : List (Evaluation σ) :=
  s.evaluations.filter fun e => e.call == w && e.answer

/-- A call that has succeeded had one evaluation in which its predicate held, and any other call had
none. -/
def Once (s : State σ κ) : Prop :=
  ∀ w, (successes s w).length = if (s.calls w).succeeded then 1 else 0

theorem step_once (once : Once s) (h : m.step act s event = some t) : Once t := by
  rcases step_cases h with ⟨action, _, rfl⟩ | ⟨v, kind, otherwise, before, failed, _, rfl⟩
  · exact once
  · intro w
    have earlier := once w
    have added : successes (m.evaluate s v kind otherwise) w =
        successes s w ++ if v = w ∧ (m.attempt kind s.data).1 = true then
          [⟨v, (m.attempt kind s.data).1, s.data, (m.attempt kind s.data).2⟩] else [] := by
      simp only [successes, evaluate, List.filter_append, List.filter_cons, List.filter_nil,
        Bool.and_eq_true, beq_iff_eq]
    rw [added, List.length_append, earlier]
    by_cases same : v = w
    · subst same
      rw [before]
      cases answer : (m.attempt kind s.data).1 with
      | true => simp [evaluate, answer, Call.succeeded]
      | false => simp [evaluate, answer, failed]
    · have other : (m.evaluate s v kind otherwise).calls w = s.calls w :=
        Function.update_of_ne (Ne.symm same) _ _
      have none : ¬ (v = w ∧ (m.attempt kind s.data).1 = true) := fun both => same both.1
      rw [if_neg none, other]
      rfl

theorem run_once {data : σ} (h : run (m.step act) { data := data } events = some t) : Once t :=
  run_keeps (fun _ _ _ once h => step_once once h) (fun _ => rfl) h

end Monitor

end Kingkong.Lib
