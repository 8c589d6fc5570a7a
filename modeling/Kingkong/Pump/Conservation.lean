import Kingkong.Pump.Step

/-!
Conservation of tasks. `PostRunable` draws a fresh id, and from then on the task is in exactly one
place: in the set, in the batch of one worker, or in the history of started, cancelled or discarded
tasks.
-/

namespace Kingkong.Pump
open Lib State

variable {R : Type} {s t : State R} {event : Event R} {events : List (Event R)}

def Room (s : State R) (event : Event R) : Prop := ∀ c, event = .insert c → s.id + 1 < wordBound

def Event.isInsert : Event R → Bool
  | .insert _ => true
  | _ => false

def posts (events : List (Event R)) : Nat := events.countP Event.isInsert

/-- Ids run from 1 to `id_`. Each of them is settled, no other is in the pump, and no two calls
share one. -/
structure Conserved (s : State R) : Prop where
  accepted : ∀ x, 1 ≤ x → x ≤ s.id → Settled s.ids x
  fresh : ∀ x, x = 0 ∨ s.id < x → Absent s.ids x
  drawn : ∀ c x, (s.calls c).id? = some x → 1 ≤ x ∧ x ≤ s.id
  distinct : ∀ c d x, (s.calls c).id? = some x → (s.calls d).id? = some x → c = d

theorem initial_conserved (threads : Nat) : Conserved (initial R threads) where
  accepted x low high := absurd high (by simp only [initial]; omega)
  fresh x _ place := by cases place <;> rfl
  drawn c x drawn := by simp [initial, Call.id?] at drawn
  distinct c d x drawn := by simp [initial, Call.id?] at drawn

theorem step_id (room : Room s event) (h : step s event = some t) :
    t.id = s.id ∨ (∃ c, event = .insert c) ∧ t.id = s.id + 1 := by
  rcases step_tasks h with ⟨_, same⟩ | ⟨_, _, _, _, _, _, same⟩ | ⟨c, _, _, _, rfl, _, next, _⟩
  · exact Or.inl same
  · exact Or.inl same
  · exact Or.inr ⟨⟨c, rfl⟩, next.trans (Nat.mod_eq_of_lt (room c rfl))⟩

theorem insert_apart (conserved : Conserved s) {x : Nat} (above : s.id < x) {info : RunnableInfo R}
    (member : info ∈ s.runableSet.elems) : info.id ≠ x := by
  intro same
  have absent := conserved.fresh x (Or.inr above)
  exact absent_not_mem (p := Place.runableSet) absent (List.mem_map.mpr ⟨info, member, same⟩)

theorem insert_arrives (conserved : Conserved s) {x : RunnableInfo R} (above : s.id < x.id) :
    (s.runableSet.insert x).elems.Perm (x :: s.runableSet.elems) :=
  OrderedSet.insert_perm fun _ member => RunnableInfo.lt_or_lt (insert_apart conserved above member)

theorem step_settled (conserved : Conserved s) (room : Room s event) (h : step s event = some t) :
    (∀ x, 1 ≤ x → x ≤ t.id → Settled t.ids x) ∧ ∀ x, x = 0 ∨ t.id < x → Absent t.ids x := by
  rcases step_tasks h with ⟨same, id⟩ | ⟨source, target, moved, _, _, moves, id⟩ |
    ⟨c, tick, delay, runnable, rfl, _, next, set, other⟩
  · have held : t.ids = s.ids := by funext place; simp only [State.ids, same]
    rw [held, id]
    exact ⟨conserved.accepted, conserved.fresh⟩
  · have moved := moves.map RunnableInfo.id
    rw [id]
    exact ⟨fun x low high => settled_moves moved (conserved.accepted x low high),
      fun x out => absent_moves moved (conserved.fresh x out)⟩
  · have grows : t.id = s.id + 1 := next.trans (Nat.mod_eq_of_lt (room c rfl))
    have arrives : (t.ids .runableSet).Perm (t.id :: s.ids .runableSet) := by
      have perm := insert_arrives conserved (x := ⟨expiredTime tick delay, runnable,
          t.id⟩) (by simp only; omega)
      simpa [State.ids, State.tasks, set] using perm.map RunnableInfo.id
    have rest : ∀ place, place ≠ .runableSet → t.ids place = s.ids place :=
      fun place apart => congrArg (List.map RunnableInfo.id) (other place apart)
    constructor
    · intro x low high
      by_cases new : x = t.id
      · subst new
        exact settled_arrival (conserved.fresh t.id (by omega)) arrives rest
      · obtain ⟨place, here, elsewhere⟩ := conserved.accepted x low (by omega)
        exact ⟨place, (count_beside arrives rest new place).trans here,
          fun q apart => (count_beside arrives rest new q).trans (elsewhere q apart)⟩
    · intro x out place
      have new : x ≠ t.id := by omega
      rw [count_beside arrives rest new]
      exact conserved.fresh x (by omega) place

theorem insert_id {c : Nat} (room : Room s (.insert c)) (h : step s (.insert c) = some t) :
    t.id = s.id + 1 := by
  obtain ⟨_, _, _, _, rfl⟩ := insert_cases h
  exact Nat.mod_eq_of_lt (room c rfl)

theorem step_drawn (room : Room s event) (h : step s event = some t) {c x : Nat}
    (drawn : (t.calls c).id? = some x) :
    (s.calls c).id? = some x ∨ event = .insert c ∧ x = t.id ∧ t.id = s.id + 1 := by
  rcases step_calls h c with
      same | ⟨_, refused | ⟨_, _, _, entered⟩⟩ | ⟨_, _, _, _, rfl, _, inserted⟩ |
    ⟨_, _, _, _, _, inserted, returned⟩
  · exact Or.inl (same ▸ drawn)
  · simp [refused, Call.id?] at drawn
  · simp [entered, Call.id?] at drawn
  · have new : x = t.id := by simpa [inserted, Call.id?, eq_comm] using drawn
    exact Or.inr ⟨rfl, new, insert_id room h⟩
  · rw [returned] at drawn
    rw [inserted]
    exact Or.inl drawn

theorem step_conserved (conserved : Conserved s) (room : Room s event) (h : step s event = some t) :
    Conserved t := by
  obtain ⟨accepted, fresh⟩ := step_settled conserved room h
  have grows : s.id ≤ t.id := by
    rcases step_id room h with same | ⟨_, next⟩ <;> omega
  refine ⟨accepted, fresh, ?_, ?_⟩
  · intro c x drawn
    rcases step_drawn room h drawn with old | ⟨_, new, next⟩
    · have bounds := conserved.drawn c x old
      omega
    · omega
  · intro c d x first second
    rcases step_drawn room h first with old | ⟨rfl, new, next⟩
    · rcases step_drawn room h second with old' | ⟨_, new', next'⟩
      · exact conserved.distinct c d x old old'
      · have bounds := conserved.drawn c x old
        omega
    · rcases step_drawn room h second with old' | ⟨same, _, _⟩
      · have bounds := conserved.drawn d x old'
        omega
      · exact (Event.insert.inj same)

theorem few_posts_room (h : run step s events = some t) (few : s.id + posts events < wordBound) :
    EachStep step Room s events := by
  induction events generalizing s with
  | nil => exact eachStep_nil
  | cons event rest ih =>
    obtain ⟨next, first, h⟩ := run_cons.mp h
    have count : posts (event :: rest) = posts rest + if event.isInsert then 1 else 0 :=
      List.countP_cons
    have room : Room s event := by
      intro c same
      subst same
      simp only [count, Event.isInsert, if_true] at few
      omega
    refine (eachStep_cons first).mpr ⟨room, ih h ?_⟩
    rcases step_id room first with same | ⟨⟨c, rfl⟩, grown⟩
    · rw [count] at few; omega
    · simp only [count, Event.isInsert, if_true] at few; omega

theorem run_conserved {threads : Nat} (few : posts events < wordBound)
    (h : run step (initial R threads) events = some s) : Conserved s :=
  run_keeps_under (fun _ _ _ conserved room => step_conserved conserved room) (initial_conserved threads)
    (few_posts_room h (by simpa [initial] using few)) h

theorem step_history {place : Place} (ended : place.live = false) (h : step s event = some t)
    {info : RunnableInfo R} (member : info ∈ s.tasks place) : info ∈ t.tasks place := by
  rcases step_tasks h with
      ⟨same, _⟩ | ⟨source, target, moved, live, _, moves, _⟩ | ⟨_, _, _, _, _, _, _, _, other⟩
  · rw [same]; exact member
  · have notSource : place ≠ source := by
      intro same
      rw [same, live] at ended
      cases ended
    by_cases here : place = target
    · subst here
      exact moves.into.mem_iff.mpr (List.mem_append_left _ member)
    · rw [moves.other place notSource here]; exact member
  · rw [other place (by intro same; rw [same] at ended; cases ended)]; exact member

theorem run_history {p : Place} (ended : p.live = false) (h : run step s events = some t)
    {info : RunnableInfo R} (member : info ∈ s.tasks p) : info ∈ t.tasks p :=
  run_keeps (I := fun u => info ∈ u.tasks p) (fun _ _ _ present h => step_history ended h present) member h

theorem answer_drawn {call : Call R} {x : Nat} (answer : call.answer? = some x) (nonzero : x ≠ 0) :
    call.id? = some x := by
  cases call with
  | returned tick delay id => exact answer
  | refused => exact absurd (Option.some.inj answer).symm nonzero
  | _ => cases answer

theorem cancel_iff (id : Nat) : (s.cancel id).1 = true ↔ id ∈ s.ids .runableSet := by
  rcases cancel_cases (s := s) id with ⟨answer, _, absent⟩ | ⟨_, _, answer, present, _, _⟩
  · simp [answer, absent]
  · simp [answer, present]

theorem conserved_unique (conserved : Conserved s) {x : Nat} {p q : Place} (first : x ∈ s.ids p)
    (second : x ∈ s.ids q) : p = q := by
  by_cases known : 1 ≤ x ∧ x ≤ s.id
  · exact settled_unique (conserved.accepted x known.1 known.2) first second
  · exact absurd first (absent_not_mem (conserved.fresh x (by omega)))

theorem cancel_never_started {threads : Nat} {before after : List (Event R)} {u : State R} {x : Nat}
    (few : posts (before ++ .cancel x :: after) < wordBound)
    (h : run step (initial R threads) (before ++ .cancel x :: after) = some s)
    (reached : run step (initial R threads) before = some u) (answer : (u.cancel x).1 = true) :
    x ∉ s.ids .started := by
  intro started
  have conserved := run_conserved few h
  obtain ⟨middle, first, h⟩ := run_append.mp h
  cases reached.symm.trans first
  obtain ⟨next, cancelled, h⟩ := run_cons.mp h
  cases cancelled
  rcases cancel_cases (s := u) x with ⟨no, _, _⟩ | ⟨info, same, _, _, post, _⟩
  · rw [no] at answer; cases answer
  · have present : info ∈ (u.cancel x).2.tasks .cancelled := by
      rw [post]
      exact List.mem_append_right _ (List.mem_singleton.mpr rfl)
    have kept := run_history (p := .cancelled) rfl h present
    have gone : x ∈ s.ids .cancelled := List.mem_map.mpr ⟨info, kept, same⟩
    cases conserved_unique conserved gone started

/-- Every id that `PostRunable` answers is unique and settled, `Cancel` succeeds exactly on queued
tasks, and a task whose `Cancel` succeeded is never started. -/
theorem task_conservation {threads : Nat} (few : posts events < wordBound)
    (h : run step (initial R threads) events = some s) :
    (∀ c d x, (s.calls c).answer? = some x → (s.calls d).answer? = some x → x ≠ 0 → c = d) ∧
    (∀ c x, (s.calls c).answer? = some x → x ≠ 0 → Settled s.ids x) ∧
    (∀ x, (s.cancel x).1 = true ↔ x ∈ s.ids .runableSet) ∧
    (∀ before after u x, events = before ++ .cancel x :: after →
      run step (initial R threads) before = some u →
      (u.cancel x).1 = true → x ∉ s.ids .started) := by
  have conserved := run_conserved few h
  refine ⟨?_, ?_, cancel_iff, ?_⟩
  · intro c d x first second nonzero
    exact conserved.distinct c d x (answer_drawn first nonzero) (answer_drawn second nonzero)
  · intro c x answer nonzero
    have bounds := conserved.drawn c x (answer_drawn answer nonzero)
    exact conserved.accepted x bounds.1 bounds.2
  · intro before after u x split reached answer
    subst split
    exact cancel_never_started few h reached answer

/-- Two posts, a `Cancel` of the first, and two workers of which one takes and starts the second. -/
def cancelFirst : List (Event Unit) :=
  [.enter 0 7 (), .enter 1 7 (), .insert 0, .insert 1, .leave 1, .leave 0, .cancel 1, .tick 9, .doWork 1, .take 1,
    .doWork 0, .take 0, .start 1]

theorem task_conservation_cancelFirst :
    ∃ s, run step (initial Unit 2) cancelFirst = some s ∧ (s.calls 1).answer? = some 2 ∧
      Settled s.ids 2 ∧ (s.calls 0).answer? = some 1 ∧ 1 ∉ s.ids .started := by
  have few : posts cancelFirst < wordBound := by decide
  have holds := task_conservation few (show run step (initial Unit 2) cancelFirst = some _ from rfl)
  refine ⟨_, rfl, rfl, holds.2.1 1 2 rfl (by decide), rfl, ?_⟩
  refine holds.2.2.2 [.enter 0 7 (), .enter 1 7 (), .insert 0, .insert 1, .leave 1,
    .leave 0] _ _ 1 rfl rfl ?_
  decide

end Kingkong.Pump
