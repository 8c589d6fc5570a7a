import Kingkong.Lib.Run

/-!
A queue that writes its own head. Nothing records that a write is under way: a push takes a queue
that is not empty for one that is being written. A closed outbox starts no more writes, and the one
under way still ends.
-/

namespace Kingkong.Lib

/-- `handed` has the items that a write was started for, in order. -/
structure Outbox (α : Type) where
  queue : List α := []
  writing : Nat := 0
  closed : Bool := false
  handed : List α := []

namespace Outbox

variable {α : Type}

def write (o : Outbox α) : Outbox α :=
  match o.closed, o.queue with
  | false, item :: _ => { o with writing := o.writing + 1, handed := o.handed ++ [item] }
  | _, _ => o

def push (o : Outbox α) (item : α) : Outbox α :=
  let idle := o.queue.isEmpty
  let o := { o with queue := o.queue ++ [item] }
  if idle then o.write else o

def sent (o : Outbox α) : Outbox α :=
  { o with writing := o.writing - 1, queue := o.queue.tail }.write

def failed (o : Outbox α) : Outbox α := { o with writing := o.writing - 1, closed := true }

def close (o : Outbox α) : Outbox α := { o with closed := true }

inductive Event (α : Type) where
  | push (item : α)
  | sent
  | failed
  | close

def step (o : Outbox α) : Event α → Option (Outbox α)
  | .push item => some (o.push item)
  | .sent => if 0 < o.writing then some o.sent else none
  | .failed => if 0 < o.writing then some o.failed else none
  | .close => some o.close

def Event.item : Event α → Option α
  | .push item => some item
  | _ => none

/-- The event leaves the outbox open. -/
def Event.healthy : Event α → Bool
  | .push _ | .sent => true
  | .failed | .close => false

/-- Every item pushed was handed out, is waiting, or is the one item that is both. -/
inductive Ordered (pushed : List α) (o : Outbox α) : Prop where
  | idle (none : o.writing = 0) (all : pushed = o.handed ++ o.queue) (drained : o.closed = false → o.queue = [])
  | busy (before : List α) (item : α) (rest : List α) (few : o.writing ≤ 1) (opened : o.closed = false → o.writing = 1)
      (handed : o.handed = before ++ [item]) (queue : o.queue = item :: rest) (all : pushed = before ++ item :: rest)

variable {o p : Outbox α} {pushed : List α} {event : Event α} {events : List (Event α)}

theorem initial_ordered : Ordered [] ({} : Outbox α) := .idle rfl rfl fun _ => rfl

theorem write_ordered (none : o.writing = 0) (all : pushed = o.handed ++ o.queue) :
    Ordered pushed o.write := by
  unfold write
  split
  · rename_i item rest opened waiting
    exact .busy o.handed item rest (by simp [none]) (fun _ => by simp [none]) rfl waiting (by rw [all, waiting])
  · rename_i stuck
    refine .idle none all fun opened => ?_
    cases waiting : o.queue with
    | nil => rfl
    | cons item rest => exact (stuck item rest opened waiting).elim

theorem push_closed (closed : o.closed = true) (item : α) :
    o.push item = { o with queue := o.queue ++ [item] } := by
  simp [push, write, closed]

theorem push_ordered (item : α) (ordered : Ordered pushed o) :
    Ordered (pushed ++ [item]) (o.push item) := by
  unfold push
  cases ordered with
  | idle none all drained =>
    have appended : pushed ++ [item] = o.handed ++ (o.queue ++ [item]) := by
      rw [all, List.append_assoc]
    dsimp only
    split
    · exact write_ordered none appended
    · rename_i waiting
      refine .idle none appended fun opened => ?_
      simp [drained opened] at waiting
  | busy before first rest few opened handed queue all =>
    simp only [queue, List.isEmpty_cons, Bool.false_eq_true, if_false]
    exact .busy before first (rest ++ [item]) few opened handed rfl (by rw [all]; simp)

theorem sent_ordered (enabled : 0 < o.writing) (ordered : Ordered pushed o) :
    Ordered pushed o.sent := by
  cases ordered with
  | idle none => omega
  | busy before item rest few _ handed queue all =>
    apply write_ordered
    · show o.writing - 1 = 0
      omega
    · simp [handed, queue, all]

theorem failed_ordered (ordered : Ordered pushed o) : Ordered pushed o.failed := by
  cases ordered with
  | idle none all => exact .idle (by simp [failed, none]) all fun opened => by cases opened
  | busy before item rest few _ handed queue all =>
    exact .busy before item rest (by simp only [failed]; omega) (fun opened => by cases opened) handed queue all

theorem close_ordered (ordered : Ordered pushed o) : Ordered pushed o.close := by
  cases ordered with
  | idle none all => exact .idle none all fun opened => by cases opened
  | busy before item rest few _ handed queue all =>
    exact .busy before item rest few (fun opened => by cases opened) handed queue all

theorem step_ordered (ordered : Ordered pushed o) (h : o.step event = some p) :
    Ordered (pushed ++ event.item.toList) p := by
  cases event with
  | push item =>
    cases h
    exact push_ordered item ordered
  | sent =>
    simp only [step] at h
    split at h <;> cases h
    rename_i enabled
    simpa [Event.item] using sent_ordered enabled ordered
  | failed =>
    simp only [step] at h
    split at h <;> cases h
    simpa [Event.item] using failed_ordered ordered
  | close =>
    cases h
    simpa [Event.item] using close_ordered ordered

theorem run_ordered (ordered : Ordered pushed o) (h : run step o events = some p) :
    Ordered (pushed ++ events.filterMap Event.item) p := by
  induction events generalizing o pushed with
  | nil =>
    cases h
    simpa using ordered
  | cons event rest ih =>
    obtain ⟨next, first, remaining⟩ := run_cons.mp h
    have both := ih (step_ordered ordered first) remaining
    rw [List.append_assoc] at both
    cases item : event.item with
    | none => simpa [item] using both
    | some _ => simpa [item] using both

theorem write_closed : o.write.closed = o.closed := by
  unfold write
  split <;> rfl

theorem step_open (healthy : event.healthy = true) (h : o.step event = some p) :
    p.closed = o.closed := by
  cases event with
  | push item =>
    cases h
    simp only [push]
    split
    · exact write_closed
    · rfl
  | sent =>
    simp only [step] at h
    split at h <;> cases h
    exact write_closed
  | failed => cases healthy
  | close => cases healthy

theorem run_open (healthy : ∀ event ∈ events, event.healthy = true)
    (h : run step o events = some p) :
    p.closed = o.closed := by
  induction events generalizing o with
  | nil => cases h; rfl
  | cons event rest ih =>
    obtain ⟨next, first, remaining⟩ := run_cons.mp h
    have later := ih (fun other member => healthy other (List.mem_cons_of_mem _ member)) remaining
    exact later.trans (step_open (healthy event List.mem_cons_self) first)

/-! ### What an ordered outbox gives -/

theorem Ordered.single (ordered : Ordered pushed o) : o.writing ≤ 1 := by
  cases ordered with
  | idle none => omega
  | busy _ _ _ few => exact few

theorem Ordered.handed_first (ordered : Ordered pushed o) : o.handed <+: pushed := by
  cases ordered with
  | idle _ all => exact ⟨o.queue, all.symm⟩
  | busy before item rest _ _ handed _ all => exact ⟨rest, by rw [handed, all]; simp⟩

theorem Ordered.queue_of_writing (ordered : Ordered pushed o) (writing : 0 < o.writing) :
    o.queue ≠ [] := by
  cases ordered with
  | idle none => omega
  | busy before item rest _ _ _ queue => simp [queue]

theorem Ordered.writing_front (ordered : Ordered pushed o) (opened : o.closed = false)
    (waiting : o.queue ≠ []) :
    o.writing = 1 ∧ o.handed.getLast? = o.queue.head? := by
  cases ordered with
  | idle _ _ drained => exact absurd (drained opened) waiting
  | busy before item rest _ one handed queue => exact ⟨one opened, by simp [handed, queue]⟩

/-- An open outbox has handed out all but what waits behind the head of its queue. -/
theorem Ordered.pushed_open (ordered : Ordered pushed o) (opened : o.closed = false) :
    pushed = o.handed ++ o.queue.tail := by
  cases ordered with
  | idle _ all drained => rw [all, drained opened, List.tail_nil]
  | busy before item rest _ _ handed queue all => simp [all, handed, queue]

end Outbox

end Kingkong.Lib
