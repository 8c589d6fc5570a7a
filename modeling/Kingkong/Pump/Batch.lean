import Kingkong.Pump.Step
import Mathlib.Data.List.TakeWhile
import Mathlib.Logic.Function.Iterate

/-!
`DoWork` and `DoOneWork` on a thread of their own, as long as the tick counter stands still.
`DoWork` takes every due task before it calls the first one, `DoOneWork` looks at the set again
after every task. A task posted by a task has the largest id and is due no earlier than now, so it
comes after the whole batch either way, and one call of `DoWork` is as many calls of `DoOneWork` as
the batch has tasks.
-/

namespace Kingkong.Pump
open Lib

variable {R : Type}

namespace State

/-- A call of `PostRunable` with nothing in between. -/
def postRunable (s : State R) (delay : Nat) (runnable : R) : State R :=
  if s.stoped then s
  else
    let id := (s.id + 1) % wordBound
    { s with id := id, runableSet := s.runableSet.insert ⟨Pump.expiredTime s.now delay, runnable, id⟩ }

def post (s : State R) (request : Nat × R) : State R := s.postRunable request.1 request.2

variable (behave : RunnableInfo R → List (Nat × R))

/-- The call of a task, which makes the posts `behave task`. -/
def call (s : State R) (task : RunnableInfo R) : State R :=
  (behave task).foldl post { s with started := s.started ++ [task] }

def doWork (s : State R) : State R :=
  (s.runableSet.front (due s.now)).foldl (call behave) { s with runableSet := s.runableSet.dropFront (due s.now) }

def doOneWork (s : State R) : State R :=
  match s.runableSet.first? with
  | some first => if due s.now first then { s with runableSet := s.runableSet.dropFirst }.call behave first else s
  | none => s

end State

open State

variable {behave : RunnableInfo R → List (Nat × R)} {s t u : State R} {batch : List (RunnableInfo R)}

/-! ### What posts change -/

def Bounded (s : State R) : Prop := ∀ info ∈ s.runableSet.elems, info.id ≤ s.id

def posted (behave : RunnableInfo R → List (Nat × R)) (tasks : List (RunnableInfo R)) : Nat :=
  (tasks.map fun task => (behave task).length).sum

/-- The frame of `n` posts and of the calls of `tasks`. -/
structure Grows (s t : State R) (n : Nat) (tasks : List (RunnableInfo R)) : Prop where
  now : t.now = s.now
  started : t.started = s.started ++ tasks
  grows : s.id ≤ t.id
  most : t.id ≤ s.id + n
  bounded : Bounded s → Bounded t

theorem Grows.trans {n m : Nat} {first second : List (RunnableInfo R)} (left : Grows s t n first)
    (right : Grows t u m second) : Grows s u (n + m) (first ++ second) where
  now := right.now.trans left.now
  started := by rw [right.started, left.started, List.append_assoc]
  grows := Nat.le_trans left.grows right.grows
  most := by have := left.most; have := right.most; omega
  bounded := fun bounded => right.bounded (left.bounded bounded)

theorem post_grows {request : Nat × R} (room : s.id + 1 < wordBound) :
    Grows s (s.post request) 1 [] := by
  unfold post postRunable
  split
  · exact ⟨rfl, by simp, Nat.le_refl _, Nat.le_succ _, fun bounded => bounded⟩
  · have next : (s.id + 1) % wordBound = s.id + 1 := Nat.mod_eq_of_lt room
    simp only [next]
    refine ⟨rfl, by simp, Nat.le_succ _, Nat.le_refl _, ?_⟩
    intro bounded info member
    rcases OrderedSet.mem_place member with rfl | old
    · exact Nat.le_refl _
    · exact Nat.le_succ_of_le (bounded info old)

theorem posts_grow {requests : List (Nat × R)} (room : s.id + requests.length < wordBound) :
    Grows s (requests.foldl post s) requests.length [] := by
  induction requests generalizing s with
  | nil => exact ⟨rfl, by simp, Nat.le_refl _, Nat.le_refl _, fun bounded => bounded⟩
  | cons request rest ih =>
    simp only [List.length_cons] at room ⊢
    have first : Grows s (s.post request) 1 [] := post_grows (by omega)
    have most := first.most
    have second := ih (s := s.post request) (by omega)
    rw [Nat.add_comm]
    exact first.trans second

theorem call_grows {task : RunnableInfo R} (room : s.id + (behave task).length < wordBound) :
    Grows s (s.call behave task) (behave task).length [task] := by
  have begins : Grows s { s with started := s.started ++ [task] } 0 [task] :=
    ⟨rfl, rfl, Nat.le_refl _, Nat.le_refl _, fun bounded => bounded⟩
  have posts : Grows { s with started := s.started ++ [task] } (s.call behave task) (behave task).length [] :=
    posts_grow room
  have both := begins.trans posts
  rw [Nat.zero_add, List.append_nil] at both
  exact both

theorem calls_grow (room : s.id + posted behave batch < wordBound) :
    Grows s (batch.foldl (call behave) s) (posted behave batch) batch := by
  induction batch generalizing s with
  | nil => exact ⟨rfl, by simp, Nat.le_refl _, Nat.le_refl _, fun bounded => bounded⟩
  | cons task rest ih =>
    have count : posted behave (task :: rest) = (behave task).length + posted behave rest := by
      simp [posted]
    rw [count] at room ⊢
    have first : Grows s (s.call behave task) (behave task).length [task] := call_grows (by omega)
    have most := first.most
    exact first.trans (ih (s := s.call behave task) (by omega))

/-! ### A batch in front of the set -/

/-- `u` still has the tasks of `batch`, at the head of its set, that `t` has already taken. -/
def Ahead (batch : List (RunnableInfo R)) (t u : State R) : Prop :=
  ∃ set : RunableSet R, u = { t with runableSet := set } ∧ set.elems = batch ++ t.runableSet.elems

/-- The tasks of a batch are due and older than any task posted from now on. -/
def Early (batch : List (RunnableInfo R)) (t : State R) : Prop :=
  ∀ x ∈ batch, x.expiredTime ≤ t.now ∧ x.id ≤ t.id

theorem post_ahead {request : Nat × R} (early : Early batch t)
    (exact : t.now + request.1 < wordBound) (room : t.id + 1 < wordBound)
    (ahead : Ahead batch t u) :
    Ahead batch (t.post request) (u.post request) := by
  obtain ⟨set, rfl, elems⟩ := ahead
  have next : (t.id + 1) % wordBound = t.id + 1 := Nat.mod_eq_of_lt room
  have expiry : expiredTime t.now request.1 = t.now + request.1 := Nat.mod_eq_of_lt exact
  unfold post postRunable
  simp only [next, expiry]
  split
  · exact ⟨set, rfl, elems⟩
  · refine ⟨set.insert ⟨t.now + request.1, request.2, t.id + 1⟩, rfl, ?_⟩
    show OrderedSet.place _ _ set.elems = batch ++ OrderedSet.place _ _ t.runableSet.elems
    rw [elems]
    refine OrderedSet.place_append ?_
    intro x member
    have facts := early x member
    simp only [RunnableInfo.lt_iff]
    omega

theorem early_grows {n : Nat} {tasks : List (RunnableInfo R)} (early : Early batch s)
    (grows : Grows s t n tasks) :
    Early batch t := by
  intro x member
  have facts := early x member
  exact ⟨by rw [grows.now]; exact facts.1, Nat.le_trans facts.2 grows.grows⟩

theorem posts_ahead {requests : List (Nat × R)} (early : Early batch t)
    (exact : ∀ request ∈ requests, t.now + request.1 < wordBound)
    (room : t.id + requests.length < wordBound) (ahead : Ahead batch t u) :
    Ahead batch (requests.foldl post t) (requests.foldl post u) := by
  induction requests generalizing t u with
  | nil => exact ahead
  | cons request rest ih =>
    simp only [List.length_cons] at room
    have grows : Grows t (t.post request) 1 [] := post_grows (by omega)
    have most := grows.most
    refine ih (early_grows early grows) ?_ (by omega)
      (post_ahead early (exact request List.mem_cons_self) (by omega) ahead)
    intro later member
    rw [grows.now]
    exact exact later (List.mem_cons_of_mem _ member)

theorem call_ahead {task : RunnableInfo R} (early : Early batch t)
    (exact : ∀ request ∈ behave task, t.now + request.1 < wordBound)
    (room : t.id + (behave task).length < wordBound) (ahead : Ahead batch t u) :
    Ahead batch (t.call behave task) (u.call behave task) := by
  obtain ⟨set, rfl, elems⟩ := ahead
  exact posts_ahead early exact room ⟨set, rfl, elems⟩

/-- With the batch in front, `DoOneWork` calls the task that `DoWork` calls next. -/
theorem doOneWork_ahead {task : RunnableInfo R} (early : Early (task :: batch) t)
    (exact : ∀ request ∈ behave task, t.now + request.1 < wordBound)
    (room : t.id + (behave task).length < wordBound) (ahead : Ahead (task :: batch) t u) :
    Ahead batch (t.call behave task) (u.doOneWork behave) := by
  obtain ⟨set, rfl, elems⟩ := ahead
  have first : set.first? = some task := by simp [OrderedSet.first?, elems]
  have dueNow : due t.now task = true := decide_eq_true (early task List.mem_cons_self).1
  simp only [doOneWork, first, dueNow, if_true]
  refine call_ahead (fun x member => early x (List.mem_cons_of_mem _ member)) exact room ⟨set.dropFirst, rfl, ?_⟩
  simp [OrderedSet.dropFirst, elems]

theorem calls_ahead (early : Early batch t)
    (exact : ∀ task, ∀ request ∈ behave task, t.now + request.1 < wordBound)
    (room : t.id + posted behave batch < wordBound) (ahead : Ahead batch t u) :
    batch.foldl (call behave) t = (doOneWork behave)^[batch.length] u := by
  induction batch generalizing t u with
  | nil =>
    obtain ⟨set, rfl, elems⟩ := ahead
    have same : set = t.runableSet := OrderedSet.ext elems
    rw [same]
    rfl
  | cons task rest ih =>
    have count : posted behave (task :: rest) = (behave task).length + posted behave rest := by
      simp [posted]
    have grows : Grows t (t.call behave task) (behave task).length [task] := call_grows (by omega)
    have most := grows.most
    rw [List.foldl_cons, List.length_cons, Function.iterate_succ_apply]
    refine ih ?_ ?_ (by omega) (doOneWork_ahead early (exact task) (by omega) ahead)
    · exact early_grows (fun x member => early x (List.mem_cons_of_mem _ member)) grows
    · rw [grows.now]
      exact exact

theorem doWork_early (bounded : Bounded s) :
    Early (s.runableSet.front (due s.now)) { s with runableSet := s.runableSet.dropFront (due s.now) } := by
  intro x member
  have dueNow := List.mem_takeWhile_imp member
  exact ⟨of_decide_eq_true dueNow, bounded x (List.takeWhile_sublist _ |>.subset member)⟩

theorem doWork_doOneWork (bounded : Bounded s)
    (exact : ∀ task, ∀ request ∈ behave task, s.now + request.1 < wordBound)
    (room : s.id + posted behave (s.runableSet.front (due s.now)) < wordBound) :
    s.doWork behave = (doOneWork behave)^[(s.runableSet.front (due s.now)).length] s :=
  calls_ahead (doWork_early bounded) exact room ⟨s.runableSet, rfl, OrderedSet.front_append_dropFront.symm⟩

/-! ### Repeated calls -/

theorem posts_started (requests : List (Nat × R)) :
    (requests.foldl post s).started = s.started := by
  induction requests generalizing s with
  | nil => rfl
  | cons request rest ih =>
    rw [List.foldl_cons, ih]
    unfold post postRunable
    split <;> rfl

theorem call_started (task : RunnableInfo R) : (s.call behave task).started = s.started ++ [task] :=
  posts_started _

theorem calls_started : (batch.foldl (call behave) s).started = s.started ++ batch := by
  induction batch generalizing s with
  | nil => simp
  | cons task rest ih => rw [List.foldl_cons, ih, call_started, List.append_assoc, List.singleton_append]

theorem doWork_started : (s.doWork behave).started = s.started ++ s.runableSet.front (due s.now) :=
  calls_started

theorem doOneWork_started : s.started <+: (s.doOneWork behave).started := by
  unfold doOneWork
  split
  · split
    · rw [call_started]; exact List.prefix_append _ _
    · exact List.prefix_refl _
  · exact List.prefix_refl _

theorem iterate_started (k : Nat) : s.started <+: ((doOneWork behave)^[k] s).started := by
  induction k generalizing s with
  | zero => exact List.prefix_refl _
  | succ k ih => rw [Function.iterate_succ_apply]; exact doOneWork_started.trans ih

theorem posted_append (first second : List (RunnableInfo R)) :
    posted behave (first ++ second) = posted behave first + posted behave second := by
  simp [posted]

theorem doWork_grows (room : s.id + posted behave (s.runableSet.front (due s.now)) < wordBound) :
    Grows s (s.doWork behave) (posted behave (s.runableSet.front (due s.now))) (s.runableSet.front (due s.now)) := by
  have taken : Grows s { s with runableSet := s.runableSet.dropFront (due s.now) } 0 [] := by
    refine ⟨rfl, by simp, Nat.le_refl _, Nat.le_refl _, ?_⟩
    intro bounded info member
    exact bounded info ((List.dropWhile_sublist _).subset member)
  have calls : Grows { s with runableSet := s.runableSet.dropFront (due s.now) } (s.doWork behave) _ _ := calls_grow room
  have both := taken.trans calls
  rw [Nat.zero_add, List.nil_append] at both
  exact both

/-- Any number of `DoWork` calls are some number of `DoOneWork` calls. -/
theorem iterate_doWork (fresh : s.started = []) (bounded : Bounded s)
    (exact : ∀ task, ∀ request ∈ behave task, s.now + request.1 < wordBound) {m : Nat}
    (room : s.id + posted behave ((doWork behave)^[m] s).started < wordBound) :
    (∃ j, (doWork behave)^[m] s = (doOneWork behave)^[j] s) ∧
      Grows s ((doWork behave)^[m] s) (posted behave ((doWork behave)^[m] s).started) ((doWork behave)^[m] s).started := by
  induction m with
  | zero =>
    refine ⟨⟨0, rfl⟩, rfl, ?_, Nat.le_refl _, Nat.le_add_right _ _, fun bounded => bounded⟩
    simp [fresh]
  | succ m ih =>
    rw [Function.iterate_succ_apply', doWork_started, posted_append] at room
    obtain ⟨⟨j, reached⟩, grows⟩ := ih (by omega)
    have most := grows.most
    rw [Function.iterate_succ_apply']
    generalize (doWork behave)^[m] s = middle at *
    have again : ∀ task, ∀ request ∈ behave task,
        middle.now + request.1 < wordBound := by rw [grows.now]; exact exact
    have next : middle.id + posted behave (middle.runableSet.front (due middle.now)) < wordBound := by omega
    constructor
    · refine ⟨(middle.runableSet.front (due middle.now)).length + j, ?_⟩
      rw [doWork_doOneWork (grows.bounded bounded) again next, Function.iterate_add_apply,
        ← reached]
    · rw [doWork_started, posted_append]
      exact grows.trans (doWork_grows next)

def NothingDue (s : State R) : Prop := ∀ info ∈ s.runableSet.elems, s.now < info.expiredTime

theorem doOneWork_idle (idle : NothingDue s) : s.doOneWork behave = s := by
  unfold doOneWork
  split
  · rename_i first found
    have later := idle first (OrderedSet.first_mem found)
    have notDue : due s.now first = false := decide_eq_false (by omega)
    simp [notDue]
  · rfl

theorem iterate_idle (idle : NothingDue s) (k : Nat) : (doOneWork behave)^[k] s = s :=
  Function.iterate_fixed (doOneWork_idle idle) k

theorem take_of_prefix {first second : List (RunnableInfo R)} (shorter : first <+: second) {n : Nat}
    (short : n ≤ first.length) : first.take n = second.take n := by
  obtain ⟨rest, rfl⟩ := shorter
  rw [List.take_append_of_le_length short]

/-- Two numbers of `DoOneWork` calls: the longer run continues the shorter one. -/
theorem iterates_agree (j k : Nat) :
    (∀ n, n ≤ ((doOneWork behave)^[j] s).started.length →
      n ≤ ((doOneWork behave)^[k] s).started.length →
      ((doOneWork behave)^[j] s).started.take n = ((doOneWork behave)^[k] s).started.take n) ∧
    (NothingDue ((doOneWork behave)^[j] s) → NothingDue ((doOneWork behave)^[k] s) →
      (doOneWork behave)^[j] s = (doOneWork behave)^[k] s) := by
  wlog order : j ≤ k generalizing j k
  · obtain ⟨takes, rests⟩ := this k j (by omega)
    exact ⟨fun n first second => (takes n second first).symm,
      fun first second => (rests second first).symm⟩
  obtain ⟨more, rfl⟩ := Nat.exists_eq_add_of_le' order
  rw [Function.iterate_add_apply]
  exact ⟨fun n short _ => take_of_prefix (iterate_started more) short,
    fun idle _ => (iterate_idle idle more).symm⟩

/-- `DoWork` and `DoOneWork`, called again and again, start the same tasks in the same order, and
they leave the same set and the same `id_` behind when both have nothing more to do. -/
theorem doWork_agrees (fresh : s.started = []) (bounded : Bounded s)
    (exact : ∀ task, ∀ request ∈ behave task, s.now + request.1 < wordBound) {m k : Nat}
    (room : s.id + posted behave ((doWork behave)^[m] s).started < wordBound) :
    (∀ n, n ≤ ((doWork behave)^[m] s).started.length →
      n ≤ ((doOneWork behave)^[k] s).started.length →
      ((doWork behave)^[m] s).started.take n = ((doOneWork behave)^[k] s).started.take n) ∧
    (NothingDue ((doWork behave)^[m] s) → NothingDue ((doOneWork behave)^[k] s) →
      ((doWork behave)^[m] s).runableSet = ((doOneWork behave)^[k] s).runableSet ∧
        ((doWork behave)^[m] s).id = ((doOneWork behave)^[k] s).id) := by
  obtain ⟨⟨j, same⟩, _⟩ := iterate_doWork fresh bounded exact room
  rw [same]
  refine ⟨(iterates_agree j k).1, fun first second => ?_⟩
  rw [(iterates_agree j k).2 first second]
  exact ⟨rfl, rfl⟩

/-- Two due tasks, of which the first one posts a third one that is due at once. -/
def twoDue (id : Nat) : State Bool where
  threads := 1
  id := id
  runableSet := ⟨[⟨0, true, 1⟩, ⟨0, false, 2⟩], by simp [RunnableInfo.lt]⟩

def postsOne (task : RunnableInfo Bool) : List (Nat × Bool) :=
  if task.runnable then [(0, false)] else []

theorem postsOne_delay {task : RunnableInfo Bool} {request : Nat × Bool}
    (member : request ∈ postsOne task) :
    request.1 = 0 := by
  unfold postsOne at member
  split at member
  · rw [List.mem_singleton.mp member]
  · cases member

theorem postsOne_exact {id : Nat} (task : RunnableInfo Bool) (request : Nat × Bool)
    (member : request ∈ postsOne task) :
    (twoDue id).now + request.1 < wordBound := by
  rw [postsOne_delay member]
  show 0 < wordBound
  decide

theorem doWork_agrees_twoDue :
    ((doWork postsOne)^[2] (twoDue 2)).started.map RunnableInfo.id = [1, 2, 3] ∧
      ((doWork postsOne)^[2] (twoDue 2)).started.take 3 =
        ((doOneWork postsOne)^[3] (twoDue 2)).started.take 3 := by
  have bounded : Bounded (twoDue 2) := by simp [Bounded, twoDue]
  exact ⟨by decide, (doWork_agrees rfl bounded postsOne_exact (by decide)).1 3 (by decide) (by decide)⟩

/-- With the last id drawn, the third task gets the id 0 and comes before the second one in the
set. -/
theorem doWork_agrees_wrap :
    Bounded (twoDue (wordBound - 1)) ∧
      (∀ task, ∀ request ∈ postsOne task, (twoDue (wordBound - 1)).now + request.1 < wordBound) ∧
      ((doWork postsOne)^[2] (twoDue (wordBound - 1))).started.map RunnableInfo.id = [1, 2, 0] ∧
      ((doOneWork postsOne)^[3] (twoDue (wordBound - 1))).started.map RunnableInfo.id =
        [1, 0, 2] := by
  exact ⟨by simp [Bounded, twoDue, wordBound], postsOne_exact, by decide, by decide⟩

/-! ### The routines as runs of the pump -/

def Reaches (s t : State R) : Prop := ∃ events, run step s events = some t

theorem Reaches.trans (first : Reaches s t) (second : Reaches t u) : Reaches s u := by
  obtain ⟨before, reached⟩ := first
  obtain ⟨after, remaining⟩ := second
  exact ⟨before ++ after, run_append.mpr ⟨t, reached, remaining⟩⟩

theorem reaches_step {event : Event R} (h : step s event = some t) : Reaches s t :=
  ⟨[event], run_cons.mpr ⟨t, h, rfl⟩⟩

/-- The calls from `n` on have not been made. -/
def Unused (n : Nat) (calls : Nat → Call R) : Prop := ∀ c, n ≤ c → calls c = .idle

theorem unused_update {n : Nat} {calls : Nat → Call R} {call : Call R} (unused : Unused n calls) :
    Unused (n + 1) (Function.update calls n call) := by
  intro c above
  rw [Function.update_of_ne (by omega)]
  exact unused c (by omega)

theorem post_reached (request : Nat × R) {n : Nat} (unused : Unused n s.calls) :
    ∃ calls, Reaches s { s.post request with calls := calls } ∧ Unused (n + 1) calls := by
  have idle := unused n (Nat.le_refl n)
  cases stoped : s.stoped with
  | true =>
    refine ⟨Function.update s.calls n .refused, ⟨[.enter n request.1 request.2], ?_⟩,
      unused_update unused⟩
    simp [run, step, postRunableEnter, idle, stoped, setCall, post, postRunable]
  | false =>
    refine ⟨Function.update s.calls n (.returned s.now request.1 ((s.id + 1) % wordBound)),
      ⟨[.enter n request.1 request.2, .insert n, .leave n], ?_⟩, unused_update unused⟩
    simp [run, step, postRunableEnter, postRunableInsert, postRunableReturn, idle, stoped, setCall,
      post, postRunable]

/-- The posts of a task do not depend on what the threads are doing. -/
theorem posts_apart (calls : Nat → Call R) (workers : Nat → Worker R) (requests : List (Nat × R)) :
    requests.foldl post { s with calls := calls, workers := workers } =
      { requests.foldl post s with calls := calls, workers := workers } := by
  induction requests generalizing s with
  | nil => rfl
  | cons request rest ih =>
    rw [List.foldl_cons, List.foldl_cons, ← ih]
    unfold post postRunable
    split <;> rfl

theorem posts_workers (requests : List (Nat × R)) :
    (requests.foldl post s).workers = s.workers := by
  induction requests generalizing s with
  | nil => rfl
  | cons request rest ih =>
    rw [List.foldl_cons, ih]
    unfold post postRunable
    split <;> rfl

theorem call_apart (calls : Nat → Call R) (workers : Nat → Worker R) (task : RunnableInfo R) :
    ({ s with calls := calls, workers := workers } : State R).call behave task =
      { s.call behave task with calls := calls, workers := workers } :=
  posts_apart (s := { s with started := s.started ++ [task] }) calls workers (behave task)

theorem call_workers (task : RunnableInfo R) : (s.call behave task).workers = s.workers :=
  posts_workers _

theorem calls_workers : (batch.foldl (call behave) s).workers = s.workers := by
  induction batch generalizing s with
  | nil => rfl
  | cons task rest ih => rw [List.foldl_cons, ih, call_workers]

theorem calls_apart (calls : Nat → Call R) (workers : Nat → Worker R) :
    batch.foldl (call behave) { s with calls := calls, workers := workers } =
      { batch.foldl (call behave) s with calls := calls, workers := workers } := by
  induction batch generalizing s with
  | nil => rfl
  | cons task rest ih =>
    rw [List.foldl_cons, List.foldl_cons, call_apart, ih]

theorem posts_reached (requests : List (Nat × R)) {n : Nat} (unused : Unused n s.calls) :
    ∃ calls m, Reaches s { requests.foldl post s with calls := calls } ∧ Unused m calls := by
  induction requests generalizing s n with
  | nil => exact ⟨s.calls, n, ⟨[], rfl⟩, unused⟩
  | cons request rest ih =>
    obtain ⟨calls, first, unused⟩ := post_reached request unused
    obtain ⟨final, m, others, unused⟩ := ih (s := { s.post request with calls := calls }) unused
    refine ⟨final, m, first.trans ?_, unused⟩
    have apart := posts_apart (s := s.post request) calls (s.post request).workers rest
    rw [apart] at others
    rw [List.foldl_cons]
    simpa only [posts_workers] using others

theorem call_reached (behave : RunnableInfo R → List (Nat × R)) {task : RunnableInfo R}
    {worker : Worker R} {n : Nat} (unused : Unused n s.calls)
    (h : step s (.start 0) = some { s.setWorker 0 worker with started := s.started ++ [task] }) :
    ∃ calls m, Reaches s
        { s.call behave task with
          calls := calls
          workers := Function.update s.workers 0 worker } ∧
      Unused m calls := by
  obtain ⟨calls, m, reached, unused⟩ := posts_reached (behave task)
    (s := { s.setWorker 0 worker with started := s.started ++ [task] }) unused
  refine ⟨calls, m, (reaches_step h).trans ?_, unused⟩
  have apart := posts_apart (s := { s with started := s.started ++ [task] }) s.calls
    (Function.update s.workers 0 worker) (behave task)
  rw [setWorker, apart] at reached
  exact reached

theorem calls_reached (behave : RunnableInfo R → List (Nat × R)) {n : Nat}
    (working : s.workers 0 = .working batch) (unused : Unused n s.calls) :
    ∃ calls m, Reaches s { batch.foldl (call behave) s with
      calls := calls, workers := Function.update s.workers 0 (.working []) } ∧ Unused m calls := by
  induction batch generalizing s n with
  | nil =>
    refine ⟨s.calls, n, ⟨[], ?_⟩, unused⟩
    rw [← working, Function.update_eq_self]
    rfl
  | cons task rest ih =>
    have starts : step s (.start 0) =
        some { s.setWorker 0 (.working rest) with started := s.started ++ [task] } := by
      simp only [step, State.start, working]
    obtain ⟨calls, m, first, unused⟩ := call_reached behave unused starts
    obtain ⟨final, k, others, unused⟩ := ih (s := { s.call behave task with
      calls := calls, workers := Function.update s.workers 0 (.working rest) }) (by simp) unused
    refine ⟨final, k, first.trans ?_, unused⟩
    rw [calls_apart, Function.update_idem] at others
    exact others

/-- `DoWork` on the thread of worker 0, with no other thread in between, is a run of the pump. -/
theorem doWork_reached {n : Nat} (live : 0 < s.threads) (idle : s.workers 0 = .idle)
    (unused : Unused n s.calls) :
    ∃ calls m, Reaches s { s.doWork behave with calls := calls } ∧ Unused m calls := by
  let batch := s.runableSet.front (due s.now)
  let taken : State R := { s with runableSet := s.runableSet.dropFront (due s.now) }
  have takes : run step s [.doWork 0, .take 0] = some (taken.setWorker 0 (.working batch)) := by
    simp [run, step, poll, doWorkTake, idle, live, setWorker, taken, batch]
  have working : (taken.setWorker 0 (.working batch)).workers 0 = .working batch := by
    simp [setWorker]
  obtain ⟨calls, m, called, unused⟩ := calls_reached behave working unused
  have worked := Reaches.trans ⟨_, takes⟩ called
  refine ⟨calls, m, worked.trans (reaches_step (show step _ (.rearm 0) = some _ from ?_)), unused⟩
  have apart : batch.foldl (call behave) (taken.setWorker 0 (.working batch)) = _ :=
    calls_apart taken.calls (Function.update taken.workers 0 (.working batch))
  have back : (s.doWork behave).workers = s.workers := calls_workers
  simp only [step, doWorkEnd, setWorker, Function.update_self, Function.update_idem,
    Option.some.injEq] at apart ⊢
  rw [apart, ← idle, Function.update_eq_self]
  exact congrArg (fun workers =>
    { s.doWork behave with calls := calls, workers := workers }) back.symm

/-- `DoOneWork` likewise. -/
theorem doOneWork_reached {n : Nat} (live : 0 < s.threads) (idle : s.workers 0 = .idle)
    (unused : Unused n s.calls) :
    ∃ calls m, Reaches s { s.doOneWork behave with calls := calls } ∧ Unused m calls := by
  have polls : step s (.doOneWork 0) = some (s.setWorker 0 (.polledOne s.now)) := by
    simp [step, poll, idle, live]
  have back : Function.update (Function.update s.workers 0 (.polledOne s.now)) 0 .idle =
      s.workers := by
    rw [Function.update_idem, ← idle, Function.update_eq_self]
  have nothing : s.doOneWork behave = s →
      step (s.setWorker 0 (.polledOne s.now)) (.takeOne 0) = some s →
      ∃ calls m, Reaches s { s.doOneWork behave with calls := calls } ∧ Unused m calls := by
    intro same takes
    rw [same]
    exact ⟨s.calls, n, (reaches_step polls).trans (reaches_step takes), unused⟩
  cases found : s.runableSet.first? with
  | none =>
    refine nothing (by simp [doOneWork, found]) ?_
    simp [step, doOneWorkTake, setWorker, found, back]
  | some first =>
    cases dueNow : due s.now first with
    | false =>
      refine nothing (by simp [doOneWork, found, dueNow]) ?_
      simp [step, doOneWorkTake, setWorker, found, dueNow, back]
    | true =>
      let taken : State R := { s with runableSet := s.runableSet.dropFirst }
      have takes : step (s.setWorker 0 (.polledOne s.now)) (.takeOne 0) =
          some (taken.setWorker 0 (.took first)) := by
        simp [step, doOneWorkTake, setWorker, found, dueNow, taken]
      have starts : step (taken.setWorker 0 (.took first)) (.start 0) =
          some { (taken.setWorker 0 (.took first)).setWorker 0 .idle with started := s.started ++ [first] } := by
        simp [step, State.start, setWorker, taken]
      obtain ⟨calls, m, called, unused⟩ :=
        call_reached behave (s := taken.setWorker 0 (.took first)) unused starts
      refine ⟨calls, m, ((reaches_step polls).trans (reaches_step takes)).trans ?_, unused⟩
      have apart : (taken.setWorker 0 (.took first)).call behave first = _ :=
        call_apart taken.calls (Function.update taken.workers 0 (.took first)) first
      have same : s.doOneWork behave = taken.call behave first := by
        simp [doOneWork, found, dueNow, taken]
      have kept : Function.update (Function.update taken.workers 0 (.took first)) 0 .idle =
          (taken.call behave first).workers := by
        rw [call_workers, Function.update_idem, ← idle]
        exact Function.update_eq_self ..
      rw [apart, setWorker, kept] at called
      rw [same]
      exact called

end Kingkong.Pump
