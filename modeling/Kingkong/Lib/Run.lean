import Mathlib.Data.List.Basic

/-!
Runs of an executable step function. A step that is not enabled has no next state, so a run exists
only when every event of it was enabled in turn. Safety is stated over every state that a run passes
through, and a condition on steps is stated over the state before each step and its event.
-/

namespace Kingkong.Lib

variable {σ ε : Type}

def run (step : σ → ε → Option σ) : σ → List ε → Option σ
  | s, [] => some s
  | s, event :: rest => (step s event).bind fun next => run step next rest

/-- `P` holds of every state that the run of `events` from `s` passes through. -/
def Always (step : σ → ε → Option σ) (P : σ → Prop) (s : σ) (events : List ε) : Prop :=
  ∀ before after t, events = before ++ after → run step s before = some t → P t

/-- Every step of the run meets `C`, a condition on the state before the step and on its event. -/
def EachStep (step : σ → ε → Option σ) (C : σ → ε → Prop) (s : σ) (events : List ε) : Prop :=
  ∀ before event after t, events = before ++ event :: after → run step s before = some t → C t event

variable {step : σ → ε → Option σ} {P I : σ → Prop} {C : σ → ε → Prop} {s t : σ} {event : ε} {events : List ε}

theorem run_cons {rest : List ε} :
    run step s (event :: rest) = some t ↔ ∃ next, step s event = some next ∧
      run step next rest = some t := by
  simp [run, Option.bind_eq_some_iff]

theorem run_append {before after : List ε} :
    run step s (before ++ after) = some t ↔
      ∃ middle, run step s before = some middle ∧ run step middle after = some t := by
  induction before generalizing s with
  | nil => simp [run]
  | cons event rest ih =>
    simp only [List.cons_append, run_cons, ih]
    constructor
    · rintro ⟨next, first, middle, head, tail⟩
      exact ⟨middle, ⟨next, first, head⟩, tail⟩
    · rintro ⟨middle, ⟨next, first, head⟩, tail⟩
      exact ⟨next, first, middle, head, tail⟩

theorem run_keeps (keep : ∀ s event t, I s → step s event = some t → I t) (start : I s)
    (h : run step s events = some t) : I t := by
  induction events generalizing s with
  | nil => cases h; exact start
  | cons event rest ih =>
    obtain ⟨next, first, rest⟩ := run_cons.mp h
    exact ih (keep s event next start first) rest

/-- What a step keeps about the state and the events so far holds of the whole run and its last
state. -/
theorem run_reads {R : List ε → σ → Prop}
    (each : ∀ before s event t, R before s → step s event = some t → R (before ++ [event]) t)
    (start : R [] s) (h : run step s events = some t) : R events t := by
  suffices more : ∀ before, R before s → R (before ++ events) t from more [] start
  clear start
  induction events generalizing s with
  | nil =>
    intro before related
    cases h
    rwa [List.append_nil]
  | cons event rest ih =>
    intro before related
    obtain ⟨next, first, remaining⟩ := run_cons.mp h
    have longer := ih remaining (before ++ [event]) (each before s event next related first)
    rwa [List.append_assoc] at longer

/-- A view of the states under which every step is a step of another machine takes runs to runs. -/
theorem run_view {τ δ : Type} {other : τ → δ → Option τ} (view : σ → τ) (rename : ε → δ)
    (each : ∀ s event t, step s event = some t → other (view s) (rename event) = some (view t))
    (h : run step s events = some t) : run other (view s) (events.map rename) = some (view t) := by
  induction events generalizing s with
  | nil => cases h; rfl
  | cons event rest ih =>
    obtain ⟨next, first, remaining⟩ := run_cons.mp h
    exact run_cons.mpr ⟨view next, each s event next first, ih remaining⟩

/-- The same for a machine that is the view of this one: its runs are the views of runs, enabled
together. -/
theorem run_map {τ : Type} {other : τ → ε → Option τ} (view : σ → τ)
    (each : ∀ s event, other (view s) event = (step s event).map view) :
    run other (view s) events = (run step s events).map view := by
  induction events generalizing s with
  | nil => rfl
  | cons event rest ih =>
    rw [run, run, each]
    cases step s event with
    | none => rfl
    | some next => exact ih

/-- A relation that every step keeps, with a step of the other machine for it, is kept by runs. -/
theorem run_simulates {τ : Type} {other : τ → ε → Option τ} {R : τ → σ → Prop} {r : τ}
    (each : ∀ r s event t, R r s → step s event = some t → ∃ next,
      other r event = some next ∧ R next t)
    (start : R r s) (h : run step s events = some t) :
    ∃ last, run other r events = some last ∧ R last t := by
  induction events generalizing r s with
  | nil =>
    cases h
    exact ⟨r, rfl, start⟩
  | cons event rest ih =>
    obtain ⟨next, first, remaining⟩ := run_cons.mp h
    obtain ⟨matching, moved, related⟩ := each r s event next start first
    obtain ⟨last, reached, final⟩ := ih related remaining
    exact ⟨last, run_cons.mpr ⟨matching, moved, reached⟩, final⟩

/-- The same when a step is matched by a run of the other machine, of any length and with events of
its own. -/
theorem run_simulates_run {τ δ : Type} {other : τ → δ → Option τ} {R : τ → σ → Prop} {r : τ}
    (each : ∀ r s event t, R r s → step s event = some t → ∃ moves next,
      run other r moves = some next ∧ R next t)
    (start : R r s) (h : run step s events = some t) :
    ∃ moves last, run other r moves = some last ∧ R last t := by
  induction events generalizing r s with
  | nil =>
    cases h
    exact ⟨[], r, rfl, start⟩
  | cons event rest ih =>
    obtain ⟨next, first, remaining⟩ := run_cons.mp h
    obtain ⟨head, matching, moved, related⟩ := each r s event next start first
    obtain ⟨tail, last, reached, final⟩ := ih related remaining
    exact ⟨head ++ tail, last, run_append.mpr ⟨matching, moved, reached⟩, final⟩

theorem eachStep_cons {rest : List ε} {next : σ} (first : step s event = some next) :
    EachStep step C s (event :: rest) ↔ C s event ∧ EachStep step C next rest := by
  constructor
  · intro each
    refine ⟨each [] event rest s rfl rfl, ?_⟩
    intro before current after t split reached
    exact each (event :: before) current after t (by rw [split]; rfl) (run_cons.mpr ⟨next, first,
      reached⟩)
  · rintro ⟨head, tail⟩ before current after t split reached
    cases before with
    | nil =>
      cases split
      cases reached
      exact head
    | cons opened before =>
      obtain ⟨rfl, remaining⟩ := List.cons.inj split
      obtain ⟨middle, stepped, reached⟩ := run_cons.mp reached
      cases first.symm.trans stepped
      exact tail before current after t remaining reached

theorem always_cons {rest : List ε} {next : σ} (first : step s event = some next) :
    Always step P s (event :: rest) ↔ P s ∧ Always step P next rest := by
  constructor
  · intro always
    refine ⟨always [] (event :: rest) s rfl rfl, ?_⟩
    intro before after t split reached
    exact always (event :: before) after t (by rw [split]; rfl) (run_cons.mpr ⟨next, first,
      reached⟩)
  · rintro ⟨head, tail⟩ before after t split reached
    cases before with
    | nil => cases reached; exact head
    | cons opened before =>
      obtain ⟨rfl, remaining⟩ := List.cons.inj split
      obtain ⟨middle, stepped, reached⟩ := run_cons.mp reached
      cases first.symm.trans stepped
      exact tail before after t remaining reached

theorem always_nil : Always step P s [] ↔ P s := by
  constructor
  · intro always
    exact always [] [] s rfl rfl
  · intro holds before after t split reached
    obtain ⟨rfl, rfl⟩ := List.append_eq_nil_iff.mp split.symm
    cases reached
    exact holds

theorem eachStep_nil : EachStep step C s [] := by
  intro before event after t split
  simp at split

theorem eachStep_initial {before after : List ε} (each : EachStep step C s (before ++ after)) :
    EachStep step C s before := by
  intro first current rest t split reached
  exact each first current (rest ++ after) t (by rw [split]; simp) reached

theorem eachStep_append {before after : List ε} (reached : run step s before = some t) :
    EachStep step C s (before ++ after) ↔ EachStep step C s before ∧ EachStep step C t after := by
  induction before generalizing s with
  | nil =>
    cases reached
    simp [eachStep_nil]
  | cons event rest ih =>
    obtain ⟨next, first, reached⟩ := run_cons.mp reached
    rw [List.cons_append, eachStep_cons first, eachStep_cons first, ih reached, and_assoc]

theorem run_keeps_under (keep : ∀ s event t, I s → C s event → step s event = some t → I t)
    (start : I s) (each : EachStep step C s events) (h : run step s events = some t) : I t := by
  induction events generalizing s with
  | nil => cases h; exact start
  | cons event rest ih =>
    obtain ⟨next, first, h⟩ := run_cons.mp h
    obtain ⟨head, tail⟩ := (eachStep_cons first).mp each
    exact ih (keep s event next start head first) tail h

theorem always_under (safe : ∀ s, I s → P s)
    (keep : ∀ s event t, I s → C s event → step s event = some t → I t)
    (start : I s) (each : EachStep step C s events) : Always step P s events := by
  intro before after t split reached
  subst split
  exact safe t (run_keeps_under keep start (eachStep_initial each) reached)

/-- When a step that misses `C` leads out of `P`, a run stays inside `P` exactly when its steps all
meet `C`. -/
theorem always_iff_eachStep (safe : ∀ s, I s → P s)
    (keep : ∀ s event t, I s → C s event → step s event = some t → I t)
    (broken : ∀ s event t, I s → ¬ C s event → step s event = some t → ¬ P t)
    (start : I s) (h : run step s events = some t) :
    Always step P s events ↔ EachStep step C s events := by
  constructor
  · intro always
    induction events generalizing s with
    | nil => exact eachStep_nil
    | cons event rest ih =>
      obtain ⟨next, first, h⟩ := run_cons.mp h
      obtain ⟨_, tail⟩ := (always_cons first).mp always
      have head : C s event := by
        by_contra missed
        exact broken s event next start missed first (tail [] rest next rfl rfl)
      exact (eachStep_cons first).mpr ⟨head, ih (keep s event next start head first) h tail⟩
  · exact always_under safe keep start

/-- The same when `C` decides of each single step whether it stays inside `P`. -/
theorem always_iff_of_step_iff (each : ∀ s event t, P s → step s event = some t → (P t ↔ C s event))
    (start : P s) (h : run step s events = some t) :
    Always step P s events ↔ EachStep step C s events :=
  always_iff_eachStep (I := P) (fun _ holds => holds) (fun s event t holds meets h => (each s event t holds h).mpr meets)
    (fun s event t holds misses h => fun after => misses ((each s event t holds h).mp after)) start h

/-- `Always` as a check that a concrete run can be put through. -/
def passes (step : σ → ε → Option σ) (P : σ → Prop) [DecidablePred P] : σ → List ε → Bool
  | s, [] => decide (P s)
  | s, event :: rest =>
    decide (P s) &&
      match step s event with
      | some next => passes step P next rest
      | none => true

theorem always_of_passes [DecidablePred P] (checked : passes step P s events = true) :
    Always step P s events := by
  induction events generalizing s with
  | nil => exact always_nil.mpr (by simpa [passes] using checked)
  | cons event rest ih =>
    simp only [passes, Bool.and_eq_true, decide_eq_true_eq] at checked
    cases first : step s event with
    | some next =>
      rw [first] at checked
      exact (always_cons first).mpr ⟨checked.1, ih checked.2⟩
    | none =>
      -- The run stops at once, so `s` is all it passes through.
      intro before after t split reached
      cases before with
      | nil => cases reached; exact checked.1
      | cons opened before =>
        obtain ⟨rfl, _⟩ := List.cons.inj split
        obtain ⟨next, stepped, _⟩ := run_cons.mp reached
        rw [first] at stepped
        cases stepped

/-- `EachStep` as such a check. -/
def meets (step : σ → ε → Option σ) (C : σ → ε → Prop) [∀ s event, Decidable (C s event)] :
    σ → List ε → Bool
  | _, [] => true
  | s, event :: rest =>
    decide (C s event) &&
      match step s event with
      | some next => meets step C next rest
      | none => false

theorem eachStep_of_meets [∀ s event, Decidable (C s event)]
    (checked : meets step C s events = true) :
    EachStep step C s events := by
  induction events generalizing s with
  | nil => exact eachStep_nil
  | cons event rest ih =>
    simp only [meets, Bool.and_eq_true, decide_eq_true_eq] at checked
    cases first : step s event with
    | some next =>
      rw [first] at checked
      exact (eachStep_cons first).mpr ⟨checked.1, ih checked.2⟩
    | none =>
      rw [first] at checked
      cases checked.2

end Kingkong.Lib
