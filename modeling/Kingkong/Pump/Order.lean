import Kingkong.Pump.Conservation

/-!
Execution order of a pump with one worker thread. Expiries are computed outside the lock and ids
inside it, so a call that ended before another began has the smaller id, and with a delay no longer
than the other's it has the smaller key as well. The worker takes tasks by key and starts them as it
took them.
-/

namespace Kingkong.Pump
open Lib State

variable {R : Type} {s t : State R} {event : Event R} {events : List (Event R)}

/-- `GetTickCount2() + delay` stays below 64 bits in this step. -/
def NoOverflow (s : State R) (event : Event R) : Prop :=
  ∀ c delay runnable, event = .enter c delay runnable → s.now + delay < wordBound

/-- The tasks that the only worker has taken, in the order in which it took them. -/
def State.taken (s : State R) : List (RunnableInfo R) := s.started ++ (s.workers 0).batch

/-- `later` was not due before `earlier` if it was posted before it. -/
def InOrder (earlier later : RunnableInfo R) : Prop := later.id < earlier.id → ¬ later.lt earlier

structure Ordered (s : State R) : Prop where
  single : s.threads = 1
  others : ∀ w, w ≠ 0 → s.workers w = .idle
  taken : s.taken.Pairwise InOrder
  queued : ∀ earlier ∈ s.taken, ∀ later ∈ s.runableSet.elems, InOrder earlier later
  dropped : ∀ earlier ∈ s.taken, ∀ later ∈ s.discarded, InOrder earlier later
  final : s.discarded ≠ [] → s.workers 0 = .exited

theorem initial_ordered : Ordered (initial R 1) where
  single := rfl
  others _ _ := rfl
  taken := List.Pairwise.nil
  queued _ member := by simp [State.taken, initial, Worker.batch] at member
  dropped _ member := by simp [State.taken, initial, Worker.batch] at member
  final some := absurd rfl some

/-! ### What a step does to the taken tasks -/

/-- The frame of a step that takes nothing: the set may only lose tasks or gain the one just
posted. -/
structure Idles (s t : State R) : Prop where
  threads : t.threads = s.threads
  others : ∀ w, w ≠ 0 → t.workers w = s.workers w
  taken : t.taken = s.taken
  discarded : t.discarded = s.discarded
  exited : s.workers 0 = .exited → t.workers 0 = .exited
  queued : ∀ info ∈ t.runableSet.elems, info ∈ s.runableSet.elems ∨ s.id < info.id

/-- A step that takes tasks takes a leading part of the set. -/
structure Takes (s t : State R) (moved : List (RunnableInfo R)) : Prop where
  threads : t.threads = s.threads
  others : ∀ w, w ≠ 0 → t.workers w = s.workers w
  taken : t.taken = s.taken ++ moved
  discarded : t.discarded = s.discarded
  live : s.workers 0 ≠ .exited
  queued : s.runableSet.elems = moved ++ t.runableSet.elems

structure Drops (s t : State R) : Prop where
  threads : t.threads = s.threads
  others : ∀ w, w ≠ 0 → t.workers w = s.workers w
  taken : t.taken = s.taken
  discarded : t.discarded = s.discarded ++ s.runableSet.elems
  exited : t.workers 0 = .exited
  queued : t.runableSet.elems = []

theorem setWorker_idles {worker : Worker R} (same : worker.batch = (s.workers 0).batch)
    (live : s.workers 0 ≠ .exited) : Idles s (s.setWorker 0 worker) where
  threads := rfl
  others w apart := by simp [setWorker, apart]
  taken := by simp [State.taken, setWorker, same]
  discarded := rfl
  exited gone := absurd gone live
  queued _ member := Or.inl member

theorem setCall_idles (c : Nat) (call : Call R) : Idles s (s.setCall c call) where
  threads := rfl
  others _ _ := rfl
  taken := rfl
  discarded := rfl
  exited gone := gone
  queued _ member := Or.inl member

theorem worker_zero (ordered : Ordered s) {w : Nat} (busy : s.workers w ≠ .idle) : w = 0 := by
  by_contra apart
  exact busy (ordered.others w apart)

theorem insert_idles {c : Nat} (room : Room s (.insert c)) (h : step s (.insert c) = some t) :
    Idles s t := by
  have next := insert_id room h
  obtain ⟨tick, delay, runnable, _, rfl⟩ := insert_cases h
  refine ⟨rfl, fun _ _ => rfl, rfl, rfl, id, ?_⟩
  intro info member
  rcases OrderedSet.mem_place member with rfl | old
  · right
    change (s.id + 1) % wordBound = s.id + 1 at next
    simp only [next]
    omega
  · exact Or.inl old

theorem cancel_idles (id : Nat) : Idles s (s.cancel id).2 := by
  rcases cancel_cases (s := s) id with ⟨_, same, _⟩ | ⟨info, _, _, _, after, _⟩
  · rw [same]
    exact ⟨rfl, fun _ _ => rfl, rfl, rfl, fun gone => gone, fun _ member => Or.inl member⟩
  · rw [after]
    refine ⟨rfl, fun _ _ => rfl, rfl, rfl, fun gone => gone, ?_⟩
    intro info member
    exact Or.inl (List.mem_of_mem_eraseP member)

theorem step_taken (ordered : Ordered s) (room : Room s event) (h : step s event = some t) :
    Idles s t ∨ (∃ moved, Takes s t moved) ∨ Drops s t := by
  cases event with
  | tick elapsed =>
    cases h
    exact Or.inl ⟨rfl, fun _ _ => rfl, rfl, rfl, fun gone => gone, fun _ member => Or.inl member⟩
  | stop =>
    cases h
    exact Or.inl ⟨rfl, fun _ _ => rfl, rfl, rfl, fun gone => gone, fun _ member => Or.inl member⟩
  | enter c delay runnable =>
    obtain ⟨_, rfl⟩ := enter_cases h
    exact Or.inl (setCall_idles _ _)
  | insert c => exact Or.inl (insert_idles room h)
  | leave c =>
    obtain ⟨_, _, _, _, _, rfl⟩ := leave_cases h
    exact Or.inl (setCall_idles _ _)
  | cancel id => cases h; exact Or.inl (cancel_idles id)
  | doWork w =>
    obtain ⟨idle, bound, rfl⟩ := poll_cases h
    obtain rfl : w = 0 := by rw [ordered.single] at bound; omega
    exact Or.inl (setWorker_idles (by rw [idle]; rfl) (by simp [idle]))
  | doOneWork w =>
    obtain ⟨idle, bound, rfl⟩ := poll_cases h
    obtain rfl : w = 0 := by rw [ordered.single] at bound; omega
    exact Or.inl (setWorker_idles (by rw [idle]; rfl) (by simp [idle]))
  | take w =>
    obtain ⟨seen, polled, rfl⟩ := take_cases h
    obtain rfl := worker_zero ordered (w := w) (by simp [polled])
    refine Or.inr (Or.inl ⟨s.runableSet.front (due seen), rfl, ?_, ?_, rfl, by simp [polled], ?_⟩)
    · intro w apart
      simp [setWorker, apart]
    · simp [State.taken, setWorker, polled, Worker.batch]
    · exact OrderedSet.front_append_dropFront.symm
  | takeOne w =>
    obtain ⟨seen, polled, taken⟩ := takeOne_cases h
    obtain rfl := worker_zero ordered (w := w) (by simp [polled])
    have live : s.workers 0 ≠ .exited := by simp [polled]
    rcases taken with rfl | ⟨first, found, _, rfl⟩
    · exact Or.inl (setWorker_idles (by rw [polled]; rfl) live)
    · refine Or.inr (Or.inl ⟨[first], rfl, ?_, ?_, rfl, live, OrderedSet.dropFirst_elems found⟩)
      · intro w apart
        simp [setWorker, apart]
      · simp [State.taken, setWorker, polled, Worker.batch]
  | start w =>
    obtain ⟨task, worker, next, _, rfl⟩ := start_cases h
    obtain rfl := worker_zero ordered (w := w) (by intro idle; simp [idle, Worker.batch] at next)
    refine Or.inl ⟨rfl, ?_, ?_, rfl, ?_, fun _ member => Or.inl member⟩
    · intro w apart
      simp [setWorker, apart]
    · simp [State.taken, setWorker, next]
    · intro gone
      simp [gone, Worker.batch] at next
  | rearm w =>
    obtain ⟨working, rfl⟩ := rearm_cases h
    obtain rfl := worker_zero ordered (w := w) (by simp [working])
    exact Or.inl (setWorker_idles (by rw [working]; rfl) (by simp [working]))
  | clear w =>
    obtain ⟨idle, bound, rfl⟩ := clear_cases h
    obtain rfl : w = 0 := by rw [ordered.single] at bound; omega
    refine Or.inr (Or.inr ⟨rfl, ?_, ?_, rfl, by simp [setWorker], rfl⟩)
    · intro w apart
      simp [setWorker, apart]
    · simp [State.taken, setWorker, idle, Worker.batch]

theorem tasks_bounded (conserved : Conserved s) {p : Place} {info : RunnableInfo R}
    (member : info ∈ s.tasks p) :
    1 ≤ info.id ∧ info.id ≤ s.id := by
  by_contra outside
  have absent := conserved.fresh info.id (by omega)
  exact absent_not_mem (p := p) absent (List.mem_map.mpr ⟨info, member, rfl⟩)

theorem taken_bounded (conserved : Conserved s) {info : RunnableInfo R} (member : info ∈ s.taken) :
    info.id ≤ s.id := by
  rcases List.mem_append.mp member with started | batch
  · exact (tasks_bounded (p := .started) conserved started).2
  · exact (tasks_bounded (p := .batch 0) conserved batch).2

theorem step_ordered (ordered : Ordered s) (conserved : Conserved s) (room : Room s event)
    (h : step s event = some t) : Ordered t := by
  rcases step_taken ordered room h with idles | ⟨moved, takes⟩ | drops
  · refine ⟨idles.threads.trans ordered.single,
      fun w apart => (idles.others w apart).trans (ordered.others w apart),
      idles.taken ▸ ordered.taken, ?_, ?_, ?_⟩
    · intro earlier old later member
      rw [idles.taken] at old
      rcases idles.queued later member with kept | new
      · exact ordered.queued earlier old later kept
      · -- A task posted now has an id above every id that was ever taken.
        intro posted
        have bound := taken_bounded conserved old
        omega
    · rw [idles.taken, idles.discarded]
      exact ordered.dropped
    · rw [idles.discarded]
      exact fun some => idles.exited (ordered.final some)
  · have sorted := s.runableSet.sorted
    rw [takes.queued] at sorted
    obtain ⟨within, _, across⟩ := List.pairwise_append.mp sorted
    have empty : s.discarded = [] := by
      by_contra some
      exact takes.live (ordered.final some)
    refine ⟨takes.threads.trans ordered.single,
      fun w apart => (takes.others w apart).trans (ordered.others w apart),
      ?_, ?_, ?_, ?_⟩
    · rw [takes.taken]
      refine List.pairwise_append.mpr ⟨ordered.taken, within.imp ?_, ?_⟩
      · exact fun before _ => RunnableInfo.lt_asymm before
      intro earlier old later member
      exact ordered.queued earlier old later (by rw [takes.queued]; exact List.mem_append_left _ member)
    · intro earlier member later kept
      rw [takes.taken] at member
      rcases List.mem_append.mp member with old | new
      · exact ordered.queued earlier old later (by rw [takes.queued]; exact List.mem_append_right _ kept)
      · exact fun _ => RunnableInfo.lt_asymm (across earlier new later kept)
    · rw [takes.discarded, empty]
      simp
    · rw [takes.discarded]
      exact fun some => absurd empty some
  · refine ⟨drops.threads.trans ordered.single,
      fun w apart => (drops.others w apart).trans (ordered.others w apart),
      drops.taken ▸ ordered.taken, ?_, ?_, fun _ => drops.exited⟩
    · rw [drops.queued]
      simp
    · rw [drops.taken, drops.discarded]
      intro earlier old later member
      rcases List.mem_append.mp member with before | now
      · exact ordered.dropped earlier old later before
      · exact ordered.queued earlier old later now

/-! ### Posting calls and their tasks -/

/-- Every call that has drawn an id has its task somewhere, filed under the tick the call read. -/
structure Posted (s : State R) : Prop where
  entered : ∀ c tick delay runnable, s.calls c = .entered tick delay runnable →
    tick ≤ s.now ∧ tick + delay < wordBound
  filed : ∀ c tick delay id, (s.calls c).post? = some (tick, delay, id) →
    tick ≤ s.now ∧ tick + delay < wordBound ∧
      ∃ place, ∃ info ∈ s.tasks place, info.id = id ∧ info.expiredTime = tick + delay

theorem initial_posted (threads : Nat) : Posted (initial R threads) where
  entered c tick delay runnable call := by simp [initial] at call
  filed c tick delay id call := by simp [initial, Call.post?] at call

def elapsed (events : List (Event R)) : Nat := (events.map Event.elapsed).sum

theorem run_elapsed (h : run step s events = some t) : t.now = s.now + elapsed events := by
  induction events generalizing s with
  | nil => cases h; rfl
  | cons event rest ih =>
    obtain ⟨next, first, h⟩ := run_cons.mp h
    rw [ih h, step_elapsed first]
    simp [elapsed, Nat.add_assoc]

theorem short_noOverflow (short : ∀ c delay runnable, .enter c delay runnable ∈ events →
    s.now + elapsed events + delay < wordBound) : EachStep step NoOverflow s events := by
  intro before event after t split reached c delay runnable same
  subst split same
  have bound := short c delay runnable (by simp)
  rw [run_elapsed reached]
  simp only [elapsed, List.map_append, List.sum_append] at bound ⊢
  omega

theorem step_present (conserved : Conserved s) (room : Room s event) (h : step s event = some t)
    {info : RunnableInfo R} (present : ∃ place, info ∈ s.tasks place) :
    ∃ place, info ∈ t.tasks place := by
  rcases step_tasks h with
      ⟨same, _⟩ | ⟨_, _, _, _, _, moves, _⟩ | ⟨c, tick, delay, runnable, rfl, _, _, set, other⟩
  · rw [same]; exact present
  · exact moves.mem.mpr present
  · obtain ⟨place, member⟩ := present
    by_cases here : place = .runableSet
    · subst here
      refine ⟨.runableSet, ?_⟩
      have next := insert_id room h
      show info ∈ t.runableSet.elems
      rw [set]
      exact (insert_arrives conserved (x := ⟨expiredTime tick delay, runnable, t.id⟩)
        (by simp only; omega)).mem_iff.mpr (List.mem_cons_of_mem _ member)
    · exact ⟨place, by rw [other place here]; exact member⟩

theorem step_posted (posted : Posted s) (conserved : Conserved s) (room : Room s event)
    (exact : NoOverflow s event) (h : step s event = some t) : Posted t := by
  have clock := step_now h
  have keep : ∀ c tick delay id, (s.calls c).post? = some (tick, delay, id) →
      tick ≤ t.now ∧ tick + delay < wordBound ∧
        ∃ place, ∃ info ∈ t.tasks place, info.id = id ∧ info.expiredTime = tick + delay := by
    intro c tick delay id call
    obtain ⟨past, small, place, info, member, same, expiry⟩ := posted.filed c tick delay id call
    obtain ⟨place, member⟩ := step_present conserved room h ⟨place, member⟩
    exact ⟨Nat.le_trans past clock, small, place, info, member, same, expiry⟩
  constructor
  · intro c tick delay runnable call
    rcases step_calls h c with
        same | ⟨_, refused | ⟨_, _, rfl, entered⟩⟩ | ⟨_, _, _, _, _, _, inserted⟩ |
      ⟨_, _, _, _, _, _, returned⟩
    · have before := posted.entered c tick delay runnable (same ▸ call)
      exact ⟨Nat.le_trans before.1 clock, before.2⟩
    · rw [refused] at call; cases call
    · rw [entered] at call
      cases call
      exact ⟨clock, exact _ _ _ rfl⟩
    · rw [inserted] at call; cases call
    · rw [returned] at call; cases call
  · intro c tick delay id call
    rcases step_calls h c with
        same | ⟨_, refused | ⟨_, _, _, entered⟩⟩ | ⟨_, _, runnable, _, rfl, entered, inserted⟩ |
      ⟨_, _, _, _, _, inserted, returned⟩
    · exact keep c tick delay id (same ▸ call)
    · simp [refused, Call.post?] at call
    · simp [entered, Call.post?] at call
    · rw [inserted] at call
      cases call
      have before := posted.entered c _ _ _ entered
      refine ⟨Nat.le_trans before.1 clock, before.2, .runableSet, ?_⟩
      have next := insert_id room h
      obtain ⟨_, _, _, again, rfl⟩ := insert_cases h
      cases entered.symm.trans again
      refine ⟨⟨expiredTime _ _, runnable, (s.id + 1) % wordBound⟩, ?_, rfl,
        Nat.mod_eq_of_lt before.2⟩
      exact (insert_arrives conserved (by simp only at next ⊢; omega)).mem_iff.mpr List.mem_cons_self
    · rw [returned] at call
      exact keep c tick delay id (by rw [inserted]; exact call)

/-! ### Calls in time -/

/-- What a call that begins after the state `u` reads and draws. -/
def Since (u : State R) : Call R → Prop
  | .idle | .refused => True
  | .entered tick _ _ => u.now ≤ tick
  | .inserted tick _ drawn _ | .returned tick _ drawn => u.now ≤ tick ∧ u.id < drawn

theorem run_since {u : State R} {c : Nat} (idle : u.calls c = .idle)
    (each : EachStep step Room u events) (h : run step u events = some s) :
    Since u (s.calls c) := by
  have kept : u.now ≤ s.now ∧ u.id ≤ s.id ∧ Since u (s.calls c) := by
    refine run_keeps_under (C := Room) (I := fun s => u.now ≤ s.now ∧ u.id ≤ s.id ∧ Since u (s.calls c))
      ?_ ⟨Nat.le_refl _, Nat.le_refl _, by rw [idle]; trivial⟩ each h
    rintro s event t ⟨clock, counter, since⟩ room h
    have tick := step_now h
    have grows : s.id ≤ t.id := by rcases step_id room h with same | ⟨_, next⟩ <;> omega
    refine ⟨Nat.le_trans clock tick, Nat.le_trans counter grows, ?_⟩
    rcases step_calls h c with
        same | ⟨_, refused | ⟨_, _, _, entered⟩⟩ | ⟨_, _, _, _, rfl, entered, inserted⟩ |
      ⟨_, _, _, _, _, inserted, returned⟩
    · rw [same]; exact since
    · rw [refused]; trivial
    · rw [entered]; exact clock
    · rw [inserted]
      rw [entered] at since
      have next := insert_id room h
      exact ⟨since, by omega⟩
    · rw [returned]
      rw [inserted] at since
      exact since
  exact kept.2.2

theorem run_returned {c tick delay id : Nat} (returned : s.calls c = .returned tick delay id)
    (h : run step s events = some t) : t.calls c = .returned tick delay id := by
  refine run_keeps (I := fun s => s.calls c = .returned tick delay id) ?_ returned h
  intro s event t returned h
  rcases step_calls h c with
      same | ⟨idle, _⟩ | ⟨_, _, _, _, _, entered, _⟩ | ⟨_, _, _, _, _, inserted, _⟩
  · rw [same]; exact returned
  · rw [returned] at idle; cases idle
  · rw [returned] at entered; cases entered
  · rw [returned] at inserted; cases inserted

/-! ### The order of execution -/

theorem pair_sublist {α : Type} {x y : α} {l : List α} (first : x ∈ l) (second : y ∈ l)
    (apart : x ≠ y) :
    [x, y].Sublist l ∨ [y, x].Sublist l := by
  induction l with
  | nil => simp at first
  | cons z l ih =>
    rcases List.mem_cons.mp first with rfl | first
    · have tail := (List.mem_cons.mp second).resolve_left (Ne.symm apart)
      exact Or.inl ((List.singleton_sublist.mpr tail).cons_cons x)
    · rcases List.mem_cons.mp second with same | second
      · rw [same]
        exact Or.inr ((List.singleton_sublist.mpr first).cons_cons z)
      · exact (ih first second).imp (fun sub => sub.cons z) (fun sub => sub.cons z)

/-- A task that precedes a started one both by id and by key has been started before it or was
cancelled. -/
theorem started_in_order (ordered : Ordered s) {x y : RunnableInfo R} {place : Place}
    (present : x ∈ s.tasks place) (kept : place ≠ .cancelled) (started : y ∈ s.started)
    (earlier : x.id < y.id) (key : x.lt y) : [x, y].Sublist s.started := by
  have pairs := List.pairwise_append.mp ordered.taken
  have taken : y ∈ s.taken := List.mem_append_left _ started
  cases place with
  | runableSet => exact absurd key (ordered.queued y taken x present earlier)
  | discarded => exact absurd key (ordered.dropped y taken x present earlier)
  | cancelled => exact absurd rfl kept
  | batch w =>
    by_cases here : w = 0
    · subst here
      exact absurd key (pairs.2.2 y started x present earlier)
    · have idle := ordered.others w here
      simp [State.tasks, idle, Worker.batch] at present
  | started =>
    rcases pair_sublist present started (fun same => by rw [same] at earlier; omega) with
        right | wrong
    · exact right
    · have inOrder := List.pairwise_pair.mp (pairs.1.sublist wrong)
      exact absurd key (inOrder earlier)

theorem run_ordered (few : posts events < wordBound)
    (exact : EachStep step NoOverflow (initial R 1) events)
    (h : run step (initial R 1) events = some s) : Ordered s ∧ Conserved s ∧ Posted s := by
  have room := few_posts_room h (by simpa [initial] using few)
  refine run_keeps_under (C := fun s event => Room s event ∧ NoOverflow s event)
    (I := fun s => Ordered s ∧ Conserved s ∧ Posted s) ?_
    ⟨initial_ordered, initial_conserved 1, initial_posted 1⟩ ?_ h
  · intro s event t holds both h
    obtain ⟨ordered, conserved, posted⟩ := holds
    exact ⟨step_ordered ordered conserved both.1 h, step_conserved conserved both.1 h,
      step_posted posted conserved both.1 both.2 h⟩
  · intro before event after s split reached
    exact ⟨room before event after s split reached, exact before event after s split reached⟩

/-- The call that posted `x` with delay `dx` had returned when the call that posted `y` with delay
`dy` began. -/
def ReturnedBefore (events : List (Event R)) (s : State R) (x dx y dy : Nat) : Prop :=
  ∃ before after u c d runnable tick later, events = before ++ .enter d dy runnable :: after ∧
    run step (initial R 1) before = some u ∧ u.calls c = .returned tick dx x ∧
    (s.calls d).post? = some (later, dy, y)

/-- A call that begins after another has returned reads a later tick and draws a larger id. -/
theorem returnedBefore_later (few : posts events < wordBound)
    (exact : EachStep step NoOverflow (initial R 1) events)
    (h : run step (initial R 1) events = some s) {x dx y dy : Nat}
    (returned : ReturnedBefore events s x dx y dy) :
    ∃ c d tick later, (s.calls c).post? = some (tick, dx, x) ∧
      (s.calls d).post? = some (later, dy, y) ∧ tick ≤ later ∧ x < y := by
  obtain ⟨before, after, u, c, d, runnable, tick, later, rfl, reached, left, drawn⟩ := returned
  obtain ⟨middle, same, h'⟩ := run_append.mp h
  cases reached.symm.trans same
  have few' : posts before < wordBound := by
    unfold posts at few ⊢
    rw [List.countP_append] at few
    omega
  obtain ⟨_, conserved, posted⟩ := run_ordered few' (eachStep_initial exact) reached
  have last := run_returned left h'
  obtain ⟨next, entered, _⟩ := run_cons.mp h'
  have idle : u.calls d = .idle := (enter_cases entered).1
  have room : EachStep step Room u (.enter d dy runnable :: after) := by
    intro first event rest v split passed
    refine few_posts_room h (by simpa [initial] using few) (before ++ first) event rest v ?_ ?_
    · rw [split, List.append_assoc]
    · exact run_append.mpr ⟨u, reached, passed⟩
  have since := run_since idle room h'
  have past := (posted.filed c tick dx x (by rw [left]; rfl)).1
  have low := (conserved.drawn c x (by rw [left]; rfl)).2
  refine ⟨c, d, tick, later, by rw [last]; rfl, drawn, ?_⟩
  cases call : s.calls d with
  | idle | entered | refused => simp [call, Call.post?] at drawn
  | inserted | returned =>
    rw [call] at since drawn
    cases drawn
    exact ⟨Nat.le_trans past since.1, Nat.lt_of_le_of_lt low since.2⟩

/-- A task posted after another one, with no shorter delay, is not started before it. -/
theorem execution_order (few : posts events < wordBound)
    (exact : EachStep step NoOverflow (initial R 1) events)
    (h : run step (initial R 1) events = some s) {x dx y dy : Nat}
    (returned : ReturnedBefore events s x dx y dy) (shorter : dx ≤ dy) (kept : x ∉ s.ids .cancelled)
    (started : y ∈ s.ids .started) :
    [x, y].Sublist (s.ids .started) := by
  obtain ⟨ordered, conserved, posted⟩ := run_ordered few exact h
  obtain ⟨c, d, tick, later, first, second, clock, earlier⟩ :=
    returnedBefore_later few exact h returned
  obtain ⟨_, _, place, info, member, rfl, expiry⟩ := posted.filed c tick dx x first
  obtain ⟨_, _, other, task, filed, rfl, due⟩ := posted.filed d later dy y second
  obtain rfl : other = .started :=
    conserved_unique conserved (List.mem_map.mpr ⟨task, filed, rfl⟩) started
  have live : place ≠ .cancelled := by
    intro same
    subst same
    exact kept (List.mem_map.mpr ⟨info, member, rfl⟩)
  have key : info.lt task := RunnableInfo.lt_iff.mpr (by omega)
  exact (started_in_order ordered member live filed earlier key).map RunnableInfo.id

def twoPosts : List (Event Unit) :=
  [.enter 0 5 (), .insert 0, .leave 0, .tick 1, .enter 1 5 (), .insert 1, .leave 1, .tick 5, .doWork 0, .take 0,
    .start 0, .start 0, .rearm 0]

theorem execution_order_two_posts :
    ∃ s, run step (initial Unit 1) twoPosts = some s ∧ [1, 2].Sublist (s.ids .started) := by
  have few : posts twoPosts < wordBound := by decide
  have exact : EachStep step NoOverflow (initial Unit 1) twoPosts := by
    refine short_noOverflow ?_
    intro c delay runnable member
    simp only [twoPosts, List.mem_cons, Event.enter.injEq, reduceCtorEq, List.not_mem_nil, or_false,
      false_or] at member
    obtain rfl : delay = 5 := by omega
    decide
  refine ⟨_, rfl, execution_order (x := 1) (y := 2) few exact rfl ?_ (Nat.le_refl 5) (by decide) (by decide)⟩
  exact ⟨[.enter 0 5 (), .insert 0, .leave 0, .tick 1], _, _, 0, 1, (), 0, 1, rfl, rfl, rfl, rfl⟩

/-! ### The id counter wraps -/

/-- A pump that has drawn `n` ids and kept no task. -/
def spent (n : Nat) (calls : Nat → Call Unit) (cancelled : List (RunnableInfo Unit)) : State Unit :=
  { initial Unit 1 with id := n, calls := calls, cancelled := cancelled }

def postAndCancel (c : Nat) : List (Event Unit) := [.enter c 0 (), .insert c, .cancel (c + 1)]

theorem run_postAndCancel {n : Nat} {calls : Nat → Call Unit} {cancelled : List (RunnableInfo Unit)}
    (small : n + 1 < wordBound) (idle : calls n = .idle) :
    run step (spent n calls cancelled) (postAndCancel n) =
      some (spent (n + 1) (Function.update (Function.update calls n (.entered 0 0 ())) n (.inserted 0 0 (n + 1) true))
        (cancelled ++ [⟨0, (), n + 1⟩])) := by
  have next : (n + 1) % wordBound = n + 1 := Nat.mod_eq_of_lt small
  simp [run, postAndCancel, step, spent, initial, postRunableEnter, postRunableInsert, idle,
    setCall, next, State.cancel, OrderedSet.insert, OrderedSet.empty, OrderedSet.place,
    OrderedSet.eraseFirst, expiredTime, wakesUp, OrderedSet.first?]

theorem run_spent {n : Nat} (small : n < wordBound) :
    ∃ calls cancelled, (∀ c, n ≤ c → calls c = .idle) ∧ (∀ info ∈ cancelled, info.id ≤ n) ∧
      run step (initial Unit 1) ((List.range n).flatMap postAndCancel) =
        some (spent n calls cancelled) := by
  induction n with
  | zero => exact ⟨fun _ => .idle, [], fun _ _ => rfl, by simp, rfl⟩
  | succ n ih =>
    obtain ⟨calls, cancelled, idle, bound, reached⟩ := ih (by omega)
    rw [List.range_succ, List.flatMap_append, List.flatMap_singleton]
    refine ⟨_, _, ?_, ?_, run_append.mpr ⟨_, reached,
      run_postAndCancel small (idle n (Nat.le_refl n))⟩⟩
    · intro c above
      rw [Function.update_of_ne (by omega), Function.update_of_ne (by omega), idle c (by omega)]
    · intro info member
      rcases List.mem_append.mp member with old | new
      · exact Nat.le_succ_of_le (bound info old)
      · exact Nat.le_of_eq (congrArg RunnableInfo.id (List.mem_singleton.mp new))

def aroundWrap (c : Nat) : List (Event Unit) :=
  [.enter c 0 (), .insert c, .leave c, .enter (c + 1) 0 (), .insert (c + 1), .leave (c + 1)]

def afterWrap (c : Nat) : List (Event Unit) :=
  [.enter c 0 (), .insert c, .leave c, .doWork 0, .take 0, .start 0, .start 0]

theorem run_aroundWrap {c : Nat} {calls : Nat → Call Unit} (cancelled : List (RunnableInfo Unit))
    (idle : ∀ d, c ≤ d → calls d = .idle) :
    ∃ u s, run step (spent (wordBound - 2) calls cancelled) (aroundWrap c) = some u ∧
      run step u (afterWrap (c + 2)) = some s ∧ u.calls c = .returned 0 0 (wordBound - 1) ∧
      s.calls (c + 2) = .returned 0 0 1 ∧ s.cancelled = cancelled ∧ s.ids .started = [0, 1] := by
  have first := idle c (Nat.le_refl c)
  have second := idle (c + 1) (by omega)
  have third := idle (c + 2) (by omega)
  simp [run, aroundWrap, afterWrap, step, spent, initial, postRunableEnter, postRunableInsert,
    postRunableReturn, first, second, third, setCall, setWorker, poll, doWorkTake, State.start,
    OrderedSet.insert, OrderedSet.empty, OrderedSet.place, OrderedSet.front, OrderedSet.dropFront,
    RunnableInfo.lt, due, expiredTime, wordBound, State.ids, State.tasks]

theorem elapsed_eq_zero (still : ∀ event ∈ events, event.elapsed = 0) : elapsed events = 0 := by
  induction events with
  | nil => simp [elapsed]
  | cons event rest ih =>
    have tail := ih fun event member => still event (List.mem_cons_of_mem _ member)
    simpa [elapsed, still event List.mem_cons_self] using tail

theorem still_noOverflow (still : ∀ event ∈ events, event.elapsed = 0 ∧
    ∀ c delay runnable, event = .enter c delay runnable → delay = 0) :
    EachStep step NoOverflow (initial R 1) events := by
  refine short_noOverflow ?_
  intro c delay runnable member
  rw [elapsed_eq_zero fun event member => (still event member).1,
    (still _ member).2 c delay runnable rfl]
  show 0 < wordBound
  decide

/-- After `2 ^ 64` posts a new task has the id 1 and runs before an older one. -/
theorem execution_order_wrap :
    ∃ events, ∃ s : State Unit, EachStep step NoOverflow (initial Unit 1) events ∧
      run step (initial Unit 1) events = some s ∧ ReturnedBefore events s (wordBound - 1) 0 1 0 ∧
      wordBound - 1 ∉ s.ids .cancelled ∧ 1 ∈ s.ids .started ∧
      ¬ [wordBound - 1, 1].Sublist (s.ids .started) := by
  obtain ⟨calls, cancelled, idle, bound, reached⟩ := run_spent (n := wordBound - 2) (by decide)
  obtain ⟨u, s, around, after, returned, posted, same, started⟩ := run_aroundWrap cancelled idle
  have middle := run_append.mpr ⟨_, reached, around⟩
  refine ⟨_, s, ?_, run_append.mpr ⟨u, middle, after⟩, ?_, ?_, ?_, ?_⟩
  · refine still_noOverflow ?_
    intro event member
    simp only [List.mem_append, List.mem_flatMap, postAndCancel, aroundWrap, afterWrap,
      List.mem_cons, List.not_mem_nil, or_false] at member
    rcases member with (⟨_, _, member⟩ | member) | member
    all_goals
      repeat' rcases member with rfl | member
      all_goals simp [Event.elapsed]
  · exact ⟨_, _, u, _, _, (), 0, 0, rfl, middle, returned, by rw [posted]; rfl⟩
  · intro member
    obtain ⟨info, present, last⟩ := List.mem_map.mp member
    have low := bound info (same ▸ present)
    rw [last] at low
    exact absurd low (by decide)
  · rw [started]; decide
  · rw [started]; decide

end Kingkong.Pump
