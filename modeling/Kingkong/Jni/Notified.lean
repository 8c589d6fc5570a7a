import Kingkong.Jni.Model
import Mathlib.Algebra.Order.BigOperators.Group.List
import Mathlib.Algebra.Order.Ring.Nat
import Mathlib.Data.List.Forall2

/-!
What Java hears. The cache is there because a class of the application is found only from a thread
that came from Java. An exception that stays pending on a thread silences it.
-/

namespace Kingkong.Jni
open Lib Mvvm

variable {vm : Vm} {ndebug : Bool} {valid : Bytes → Bool} {s s' : State} {t : Nat} {n : Notification}

namespace State

variable (s) (f : Env → Env)

@[simp] theorem setEnv_self : (s.setEnv t f).env t = f (s.env t) := Function.update_self ..

theorem setEnv_other {u : Nat} (other : u ≠ t) : (s.setEnv t f).env u = s.env u :=
  Function.update_of_ne other ..

@[simp] theorem setEnv_classMap : (s.setEnv t f).classMap = s.classMap := rfl

@[simp] theorem setEnv_globals : (s.setEnv t f).globals = s.globals := rfl

@[simp] theorem setEnv_calls : (s.setEnv t f).calls = s.calls := rfl

end State

@[simp] theorem Env.newLocalRef_pending (e : Env) : e.newLocalRef.pending = e.pending := rfl

@[simp] theorem Env.deleteLocalRef_pending (e : Env) : e.deleteLocalRef.pending = e.pending := rfl

@[simp] theorem Env.newByteArray_pending (e : Env) : e.newByteArray.pending = e.pending := rfl

@[simp] theorem Env.leave_pending (e : Env) : e.leave.pending = e.pending := rfl

@[simp] theorem Env.newLocalRef_misused (e : Env) : e.newLocalRef.misused = e.misused := rfl

@[simp] theorem Env.newLocalRef_overrun (e : Env) : e.newLocalRef.overrun = e.overrun := rfl

theorem Env.newLocalRef_tail (e : Env) : e.newLocalRef.frames.tail = e.frames.tail := by
  unfold Env.newLocalRef
  cases e.frames <;> rfl

theorem Env.deleteLocalRef_tail (e : Env) : e.deleteLocalRef.frames.tail = e.frames.tail := by
  unfold Env.deleteLocalRef
  cases e.frames <;> rfl

/-- An exception that is pending after it was logged. -/
def Exception.stays (exception : Exception) : Bool := (printStackTrace exception 1024).throws

/-- The notification leaves an exception on its thread. -/
def Answers.stays (answers : Answers) : Bool := answers.thrown.any Exception.stays

/-- The notification throws an exception with a stack trace that does not fit the buffer. -/
def Answers.overruns (answers : Answers) : Bool :=
  answers.thrown.any fun exception => (printStackTrace exception 1024).overrun

/-- The class is in the cache, and it has the method. -/
structure Ready (vm : Vm) (s : State) (info : JniMethodInfo) (clz method : Nat) : Prop where
  cached : s.classMap.lookup info.classname = some clz
  found : vm.getStaticMethodID clz info.methodname info.methodsig = some method
  legal : (State.returnType info.methodsig).any State.isReturnType = true

/-- Only thread `t` is touched. -/
structure Touches (t : Nat) (s s' : State) : Prop where
  cache : s'.classMap = s.classMap
  globals : s'.globals = s.globals
  others : ∀ u ≠ t, s'.env u = s.env u

theorem Touches.trans {s'' : State} (first : Touches t s s') (second : Touches t s' s'') :
    Touches t s s'' where
  cache := second.cache.trans first.cache
  globals := second.globals.trans first.globals
  others u other := (second.others u other).trans (first.others u other)

theorem setEnv_touches (s : State) (f : Env → Env) : Touches t s (s.setEnv t f) :=
  ⟨rfl, rfl, fun _ other => s.setEnv_other f other⟩

variable {buffer array : Bytes} {info : JniMethodInfo} {view id : Int} {answers : Answers}

/-- What a call leaves on its thread. -/
structure Calls (t : Nat) (pending overruns : Bool) (made : List Call) (s c : State) : Prop where
  touches : Touches t s c
  calls : c.calls = s.calls ++ made
  pending : (c.env t).pending.isSome = pending
  frames : (c.env t).frames.tail = (s.env t).frames.tail
  misused : (c.env t).misused = (s.env t).misused
  overrun : (c.env t).overrun = ((s.env t).overrun || overruns)

/-- With an exception pending, nothing is looked up. -/
theorem call_pending {c : State} (pending : (s.env t).pending.isSome = true)
    (h : s.callStaticMethodByMethodInfo vm t info view id array answers = some c) :
    Calls t true false [] s c := by
  have again : ((s.setEnv t Env.newLocalRef).env t).pending.isSome = true := by
    rw [State.setEnv_self]
    exact pending
  simp only [State.callStaticMethodByMethodInfo, State.callStaticMethodByName,
    State.getStaticMethodId, State.getId, State.getClass, pending, again, if_true] at h
  cases h
  refine ⟨(setEnv_touches _ _).trans (setEnv_touches _ _),
    (List.append_nil _).symm, by simp [pending], ?_, ?_, ?_⟩
  all_goals simp only [State.setEnv_self, Env.newLocalRef_tail, Env.newLocalRef_misused, Env.newLocalRef_overrun,
    Bool.or_false]

/-- Without one, the method is called, and what is pending then is what its exception leaves. -/
theorem call_clear {c : State} {clz method : Nat} (clear : (s.env t).pending = none)
    (ready : Ready vm s info clz method)
    (h : s.callStaticMethodByMethodInfo vm t info view id array answers = some c) :
    Calls t answers.stays answers.overruns [⟨t, method, view, id, array⟩] s c := by
  simp only [State.callStaticMethodByMethodInfo, State.callStaticMethodByName,
    State.getStaticMethodId, State.getId, State.getClass, clear, Option.isSome_none,
    Bool.false_eq_true, if_false, ready.cached, ready.found, ready.legal,
    if_true] at h
  split at h <;> cases h
  · rename_i thrown
    exact ⟨⟨rfl, rfl, fun _ _ => rfl⟩, rfl, by simp [clear, Answers.stays, thrown], rfl, rfl,
      by simp [Answers.overruns, thrown]⟩
  · rename_i exception thrown
    refine ⟨⟨rfl, rfl, fun u other => ?_⟩, rfl, ?_, ?_, ?_, ?_⟩
    · simp only [State.jniLogException]
      exact State.setEnv_other _ _ other
    · simp only [State.jniLogException, State.setEnv_self, Env.logged, Answers.stays, thrown,
        Option.any_some, Exception.stays]
      split
      · rename_i throws
        exact throws.symm
      · rename_i throws
        exact (Bool.eq_false_iff.mpr throws).symm
    · simp only [State.jniLogException, State.setEnv_self, Env.logged, Env.newLocalRef_tail]
    · simp only [State.jniLogException, State.setEnv_self, Env.logged, Env.newLocalRef_misused]
    · simp only [State.jniLogException, State.setEnv_self, Env.logged, Answers.overruns, thrown,
        Option.any_some]

/-- The frame and the array around the call. -/
theorem notify_call (h : s.notify vm t info view id buffer answers = some s') : ∃ b c : State,
    b.callStaticMethodByMethodInfo vm t info view id (buffer.take (buffer.length % 2 ^ 32)) answers = some c ∧
      b.classMap = s.classMap ∧
      (b.env t).pending = (if answers.push then (s.env t).pending else some .outOfMemoryError) ∧
      ∀ pending overruns made, Calls t pending overruns made b c → Touches t s s' ∧
        s'.calls = s.calls ++ made ∧ (s'.env t).pending.isSome = pending ∧
        (s'.env t).misused = ((s.env t).misused || ((s.env t).pending.isSome || !answers.push)) ∧
        (s'.env t).overrun = ((s.env t).overrun || overruns) ∧
        (answers.push = true → (s'.env t).frames = (s.env t).frames) := by
  obtain ⟨a, entered, h⟩ := Option.bind_eq_some_iff.mp h
  obtain ⟨⟨array, b⟩, copied, h⟩ := Option.bind_eq_some_iff.mp h
  obtain ⟨c, called, rfl⟩ := Option.map_eq_some_iff.mp h
  unfold State.enter at entered
  split at entered <;> cases entered
  simp only [State.buffer2JbyteArray] at copied
  split at copied <;> cases copied
  refine ⟨_, c, called, rfl, by simp [Env.enter], fun pending overruns made calls => ⟨?_, ?_, ?_, ?_, ?_, fun push => ?_⟩⟩
  · exact (setEnv_touches _ _).trans <| (setEnv_touches _ _).trans <| calls.touches.trans <|
      (setEnv_touches _ _).trans (setEnv_touches _ _)
  · exact calls.calls
  · simp only [State.leave, State.setEnv_self, Env.leave_pending, Env.deleteLocalRef_pending,
      calls.pending]
  · simp only [State.leave, State.setEnv_self]
    refine calls.misused.trans ?_
    simp only [State.setEnv_self, Env.newByteArray, Env.enter]
    cases answers.push <;> simp
  · simp only [State.leave, State.setEnv_self]
    refine calls.overrun.trans ?_
    simp only [State.setEnv_self, Env.newByteArray, Env.newLocalRef_overrun, Env.enter]
  · simp only [State.leave, State.setEnv_self, Env.leave, Env.deleteLocalRef_tail, calls.frames]
    simp [Env.newByteArray, Env.newLocalRef_tail, Env.enter, push]

/-! ### What a thread has to say -/

/-- The notifications of thread `t` that Java hears. `pending` tells whether there is an exception
on the thread. -/
def heard (t : Nat) : Bool → List Event → List Notification
  | _, [] => []
  | pending, .returns u :: rest => heard t (if u = t then false else pending) rest
  | pending, .notify n :: rest =>
    if n.thread = t then
      if pending || !n.answers.push then heard t true rest else n :: heard t n.answers.stays rest
    else heard t pending rest

/-- Those that it has. -/
def sent (t : Nat) : List Event → List Notification
  | [] => []
  | .returns _ :: rest => sent t rest
  | .notify n :: rest => if n.thread = t then n :: sent t rest else sent t rest

theorem heard_length (t : Nat) (pending : Bool) (events : List Event) :
    (heard t pending events).length ≤ (sent t events).length := by
  fun_induction heard t pending events with
  | case1 => exact Nat.le_refl _
  | case2 pending u rest ih => exact ih
  | case3 pending n rest here blocked ih =>
    rw [sent, if_pos here]
    exact Nat.le_succ_of_le ih
  | case4 pending n rest here clear ih =>
    rw [sent, if_pos here]
    exact Nat.succ_le_succ ih
  | case5 pending n rest other ih =>
    rw [sent, if_neg other]
    exact ih

/-- The call is that of the notification, and its array has the bytes of the value. -/
structure Delivers (ndebug : Bool) (valid : Bytes → Bool) (vm : Vm) (s : State) (n : Notification)
    (call : Call) : Prop where
  method : ∃ clz, Ready vm s n.info clz call.method
  thread : call.thread = n.thread
  view : call.view = n.view
  id : call.id = n.id
  array : n.value.buffer ndebug valid = some call.array

/-- The value can be packed, and the class is cached and has the method. -/
def Prepared (vm : Vm) (s : State) (event : Event) : Prop :=
  ∀ n, event = .notify n → n.value.Short ∧ ∃ clz method, Ready vm s n.info clz method

theorem Prepared.kept {event : Event} (prepared : Prepared vm s event)
    (cache : s'.classMap = s.classMap) :
    Prepared vm s' event := by
  intro n same
  obtain ⟨short, clz, method, ready⟩ := prepared n same
  exact ⟨short, clz, method, cache ▸ ready.1, ready.2, ready.3⟩

/-- An exception is pending when the method is to be called. -/
def State.blocks (s : State) (n : Notification) : Bool :=
  (s.env n.thread).pending.isSome || !n.answers.push

/-- The notification is not heard. -/
structure Unheard (n : Notification) (s s' : State) : Prop where
  calls : s'.calls = s.calls
  pending : (s'.env n.thread).pending.isSome = true
  overrun : (s'.env n.thread).overrun = (s.env n.thread).overrun

/-- It is. -/
structure Heard (ndebug : Bool) (valid : Bytes → Bool) (vm : Vm) (n : Notification) (s s' : State) :
    Prop where
  calls : ∃ call, s'.calls = s.calls ++ [call] ∧ Delivers ndebug valid vm s n call
  pending : (s'.env n.thread).pending.isSome = n.answers.stays
  overrun : (s'.env n.thread).overrun = ((s.env n.thread).overrun || n.answers.overruns)

/-- What a notification does. A thread is not touched by the notifications of another one. -/
structure Notified (ndebug : Bool) (valid : Bytes → Bool) (vm : Vm) (n : Notification)
    (s s' : State) : Prop where
  cache : s'.classMap = s.classMap
  others : ∀ u ≠ n.thread, s'.env u = s.env u
  frames : n.answers.push = true → (s'.env n.thread).frames = (s.env n.thread).frames
  misused : (s'.env n.thread).misused = ((s.env n.thread).misused || s.blocks n)
  outcome : if s.blocks n then Unheard n s s' else Heard ndebug valid vm n s s'

theorem notify_step (prepared : Prepared vm s (.notify n))
    (h : step ndebug valid vm s (.notify n) = some s') :
    Notified ndebug valid vm n s s' := by
  obtain ⟨short, clz, method, ready⟩ := prepared n rfl
  simp only [step, buffer_field ndebug valid short, Option.bind_some] at h
  have whole : (Protobuf.plain n.value.field.toList).take ((Protobuf.plain n.value.field.toList).length % 2 ^ 32) =
      Protobuf.plain n.value.field.toList := by
    have small := field_length short
    rw [Nat.mod_eq_of_lt (by omega), List.take_length]
  obtain ⟨b, c, called, cache, pending, rest⟩ := notify_call h
  rw [whole] at called
  cases blocked : s.blocks n with
  | true =>
    have still : (b.env n.thread).pending.isSome = true := by
      rw [pending]
      cases push : n.answers.push with
      | false => rfl
      | true => simpa [State.blocks, push] using blocked
    obtain ⟨touches, calls, stays, misused, overrun, frames⟩ :=
      rest _ _ _ (call_pending still called)
    refine ⟨touches.cache, touches.others, frames, misused, ?_⟩
    rw [if_pos blocked]
    exact ⟨calls.trans (List.append_nil _), stays, overrun.trans (Bool.or_false _)⟩
  | false =>
    obtain ⟨clear, push⟩ := Bool.or_eq_false_iff.mp blocked
    have push : n.answers.push = true := by simpa using push
    have still : (b.env n.thread).pending = none := by
      rw [pending, if_pos push]
      exact Option.isNone_iff_eq_none.mp (Option.isSome_eq_false_iff.mp clear)
    obtain ⟨touches, calls, stays, misused, overrun, frames⟩ :=
      rest _ _ _ (call_clear still ⟨cache ▸ ready.1, ready.2, ready.3⟩ called)
    have delivers : Delivers ndebug valid vm s n ⟨n.thread, method, n.view, n.id,
        Protobuf.plain n.value.field.toList⟩ :=
      ⟨⟨clz, ready⟩, rfl, rfl, rfl, buffer_field ndebug valid short⟩
    refine ⟨touches.cache, touches.others, frames, misused, ?_⟩
    rw [if_neg (by rw [blocked]; nofun)]
    exact ⟨⟨_, calls, delivers⟩, stays, overrun⟩

theorem Delivers.kept {call : Call} (cache : s'.classMap = s.classMap)
    (delivers : Delivers ndebug valid vm s' n call) :
    Delivers ndebug valid vm s n call := by
  obtain ⟨clz, ready⟩ := delivers.method
  exact ⟨⟨clz, cache ▸ ready.1, ready.2, ready.3⟩, delivers.2, delivers.3, delivers.4, delivers.5⟩

variable {events : List Event}

/-- The frames of a thread are in balance, if there is room for them. -/
theorem run_frames (prepared : ∀ event ∈ events, Prepared vm s event)
    (h : run (step ndebug valid vm) s events = some s')
    (room : ∀ n, .notify n ∈ events → n.thread = t → n.answers.push = true) :
    (s'.env t).frames = (s.env t).frames := by
  induction events generalizing s with
  | nil =>
    cases h
    rfl
  | cons event rest ih =>
    obtain ⟨middle, stepped, h⟩ := run_cons.mp h
    have later (cache : middle.classMap = s.classMap) : (s'.env t).frames = (middle.env t).frames :=
      ih (fun event member => (prepared event (List.mem_cons_of_mem _ member)).kept cache) h
        fun n member => room n (List.mem_cons_of_mem _ member)
    cases event with
    | returns u =>
      cases stepped
      rw [later rfl]
      by_cases same : u = t
      · rw [same, State.setEnv_self]
      · rw [State.setEnv_other _ _ (Ne.symm same)]
    | notify n =>
      have notified := notify_step (prepared _ List.mem_cons_self) stepped
      rw [later notified.cache]
      by_cases same : n.thread = t
      · subst same
        exact notified.frames (room n List.mem_cons_self rfl)
      · rw [notified.others t (Ne.symm same)]

/-- A run as thread `t` has it, from `pending` on. -/
structure Traced (ndebug : Bool) (valid : Bytes → Bool) (vm : Vm) (t : Nat) (pending : Bool)
    (events : List Event) (s s' : State) :
    Prop where
  calls : ∃ made, s'.calls.filter (·.thread == t) = s.calls.filter (·.thread == t) ++ made ∧
    List.Forall₂ (Delivers ndebug valid vm s) (heard t pending events) made
  misused : (s'.env t).misused = false ↔ (s.env t).misused = false ∧ heard t pending events = sent t events
  overrun : (s'.env t).overrun = ((s.env t).overrun || (heard t pending events).any (·.answers.overruns))

namespace Traced

variable {pending : Bool} {middle : State} {rest : List Event}

theorem nil : Traced ndebug valid vm t pending [] s s where
  calls := ⟨[], (List.append_nil _).symm, .nil⟩
  misused := by simp [heard, sent]
  overrun := by simp [heard]

/-- The cache does not change in between. -/
theorem calls_kept (later : Traced ndebug valid vm t pending rest middle s')
    (cache : middle.classMap = s.classMap) :
    ∃ made, s'.calls.filter (·.thread == t) = middle.calls.filter (·.thread == t) ++ made ∧
      List.Forall₂ (Delivers ndebug valid vm s) (heard t pending rest) made := by
  obtain ⟨made, calls, all⟩ := later.calls
  exact ⟨made, calls, all.imp fun _ _ delivers => delivers.kept cache⟩

theorem returns (u : Nat)
    (later : Traced ndebug valid vm t (if u = t then false else pending) rest
      (s.setEnv u fun e => { e with pending := none }) s') :
    Traced ndebug valid vm t pending (.returns u :: rest) s s' := by
  have misused : ((s.setEnv u fun e => { e with pending := none }).env t).misused =
      (s.env t).misused := by
    by_cases same : u = t
    · rw [same, State.setEnv_self]
    · rw [State.setEnv_other _ _ (Ne.symm same)]
  have overrun : ((s.setEnv u fun e => { e with pending := none }).env t).overrun =
      (s.env t).overrun := by
    by_cases same : u = t
    · rw [same, State.setEnv_self]
    · rw [State.setEnv_other _ _ (Ne.symm same)]
  refine ⟨later.calls_kept rfl, ?_, ?_⟩
  · rw [later.misused, misused]
    rfl
  · rw [later.overrun, overrun]
    rfl

theorem other (notified : Notified ndebug valid vm n s middle) (other : n.thread ≠ t)
    (later : Traced ndebug valid vm t pending rest middle s') :
    Traced ndebug valid vm t pending (.notify n :: rest) s s' := by
  have same := notified.others t (Ne.symm other)
  have quiet : middle.calls.filter (·.thread == t) = s.calls.filter (·.thread == t) := by
    have outcome := notified.outcome
    split at outcome
    · rw [outcome.calls]
    · obtain ⟨call, one, delivers⟩ := outcome.calls
      rw [one, List.filter_append]
      simp [delivers.thread, other]
  refine ⟨?_, ?_, ?_⟩
  · rw [heard, if_neg other, ← quiet]
    exact later.calls_kept notified.cache
  · rw [heard, sent, if_neg other, if_neg other, later.misused, same]
  · rw [heard, if_neg other, later.overrun, same]

theorem unheard (notified : Notified ndebug valid vm n s middle) (blocked : s.blocks n = true)
    (later : Traced ndebug valid vm n.thread true rest middle s') :
    Traced ndebug valid vm n.thread (s.env n.thread).pending.isSome (.notify n :: rest) s s' := by
  have outcome := notified.outcome
  rw [if_pos blocked] at outcome
  have silent : heard n.thread (s.env n.thread).pending.isSome (.notify n :: rest) =
      heard n.thread true rest := by
    rw [heard, if_pos rfl]
    exact if_pos blocked
  refine ⟨?_, ?_, ?_⟩
  · rw [silent, ← outcome.calls]
    exact later.calls_kept notified.cache
  · -- fewer are heard than there are
    have fewer := heard_length n.thread true rest
    rw [silent, later.misused, notified.misused, blocked, Bool.or_true, sent, if_pos rfl]
    refine ⟨fun both => absurd both.1 (by nofun), fun both => ?_⟩
    have length := congrArg List.length both.2
    rw [List.length_cons] at length
    omega
  · rw [silent, later.overrun, outcome.overrun]

theorem heard (notified : Notified ndebug valid vm n s middle) (clear : s.blocks n = false)
    (later : Traced ndebug valid vm n.thread n.answers.stays rest middle s') :
    Traced ndebug valid vm n.thread (s.env n.thread).pending.isSome (.notify n :: rest) s s' := by
  have outcome := notified.outcome
  rw [if_neg (by rw [clear]; nofun)] at outcome
  have told : Jni.heard n.thread (s.env n.thread).pending.isSome (.notify n :: rest) =
      n :: Jni.heard n.thread n.answers.stays rest := by
    rw [Jni.heard, if_pos rfl]
    exact if_neg (by rw [← State.blocks, clear]; nofun)
  refine ⟨?_, ?_, ?_⟩
  · obtain ⟨call, one, delivers⟩ := outcome.calls
    obtain ⟨made, calls, all⟩ := later.calls_kept notified.cache
    rw [told]
    refine ⟨call :: made, ?_, .cons delivers all⟩
    rw [calls, one, List.filter_append, List.append_assoc]
    simp [delivers.thread]
  · rw [told, later.misused, notified.misused, clear, Bool.or_false, sent, if_pos rfl,
      List.cons_inj_right]
  · rw [told, later.overrun, outcome.overrun, List.any_cons, Bool.or_assoc]

end Traced

theorem run_traced (prepared : ∀ event ∈ events, Prepared vm s event)
    (h : run (step ndebug valid vm) s events = some s') (t : Nat) :
    Traced ndebug valid vm t (s.env t).pending.isSome events s s' := by
  induction events generalizing s with
  | nil =>
    cases h
    exact .nil
  | cons event rest ih =>
    obtain ⟨middle, stepped, h⟩ := run_cons.mp h
    have later (cache : middle.classMap = s.classMap) :
        Traced ndebug valid vm t (middle.env t).pending.isSome rest middle s' :=
      ih (fun event member => (prepared event (List.mem_cons_of_mem _ member)).kept cache) h
    cases event with
    | returns u =>
      cases stepped
      apply Traced.returns
      by_cases same : u = t
      · rw [if_pos same]
        simpa [same] using later rfl
      · rw [if_neg same]
        simpa [State.setEnv_other _ _ (Ne.symm same)] using later rfl
    | notify n =>
      have notified := notify_step (prepared _ List.mem_cons_self) stepped
      have later := later notified.cache
      have outcome := notified.outcome
      by_cases same : n.thread = t
      · subst same
        split at outcome
        · rename_i blocked
          rw [outcome.pending] at later
          exact .unheard notified blocked later
        · rename_i clear
          rw [outcome.pending] at later
          exact .heard notified (Bool.eq_false_iff.mpr clear) later
      · rw [notified.others t (Ne.symm same)] at later
        exact .other notified same later

/-! ### Stack traces -/

/-- The units of the trace are few, or all of them are ASCII. -/
def Exception.Fits (exception : Exception) : Prop :=
  ∀ units, exception.trace = some units → units.length ≤ 341 ∨ ∀ unit ∈ units, 0 < unit.toNat ∧ unit.toNat < 0x80

theorem modifiedUtf8_length (unit : UInt16) : (modifiedUtf8 unit).length ≤ 3 := by
  unfold modifiedUtf8
  dsimp only
  split
  · simp
  · split <;> simp

theorem modifiedUtf8_ascii {unit : UInt16} (ascii : 0 < unit.toNat ∧ unit.toNat < 0x80) :
    (modifiedUtf8 unit).length = 1 := by
  rw [modifiedUtf8, if_pos ⟨Nat.ne_of_gt ascii.1, ascii.2⟩]
  rfl

theorem region_length {units : List UInt16} {most : Nat}
    (each : ∀ unit ∈ units, (modifiedUtf8 unit).length ≤ most) :
    (units.flatMap modifiedUtf8).length ≤ units.length * most := by
  have total := List.sum_le_card_nsmul (units.map fun unit => (modifiedUtf8 unit).length) most (by simpa using each)
  rwa [List.length_map, nsmul_eq_mul, Nat.cast_id, ← List.length_flatMap] at total

theorem Exception.Fits.stays_inside {exception : Exception} (fits : exception.Fits) :
    (printStackTrace exception 1024).overrun = false := by
  unfold printStackTrace
  split
  · rename_i units traced
    have inside : (if 1024 ≤ units.length then 1024 - 1 else units.length) ≤ 1023 := by
      split <;> omega
    dsimp only
    generalize (if 1024 ≤ units.length then 1024 - 1 else units.length) = cut at inside ⊢
    have short : (units.take cut).length ≤ 1023 := Nat.le_trans (List.length_take_le _ _) inside
    rw [decide_eq_false_iff_not, Nat.not_lt]
    rcases fits units traced with few | ascii
    · have region : ((units.take cut).flatMap modifiedUtf8).length ≤ (units.take cut).length * 3 :=
        region_length fun unit _ => modifiedUtf8_length unit
      have few : (units.take cut).length ≤ 341 := Nat.le_trans (List.length_take_le' _ _) few
      omega
    · have region : ((units.take cut).flatMap modifiedUtf8).length ≤ (units.take cut).length * 1 :=
        region_length fun unit member => Nat.le_of_eq (modifiedUtf8_ascii (ascii unit (List.mem_of_mem_take member)))
      omega
  · unfold getExceptionSummary
    split <;> rfl

-- Letters outside ASCII take two bytes and more.
example : (printStackTrace ⟨[], .null, some (List.replicate 600 233)⟩ 1024).overrun = true := by
  decide +kernel

theorem Answers.overruns_false {answers : Answers}
    (fits : ∀ exception, answers.thrown = some exception → exception.Fits) :
    answers.overruns = false := by
  unfold Answers.overruns
  cases thrown : answers.thrown with
  | none => rfl
  | some exception => exact (fits exception thrown).stays_inside

theorem heard_sent {t : Nat} {pending : Bool} {events : List Event} {n : Notification}
    (member : n ∈ heard t pending events) : .notify n ∈ events ∧ n.thread = t := by
  fun_induction heard t pending events with
  | case1 => cases member
  | case2 pending u rest ih => exact (ih member).imp_left (List.mem_cons_of_mem _)
  | case3 pending m rest here blocked ih => exact (ih member).imp_left (List.mem_cons_of_mem _)
  | case4 pending m rest here clear ih =>
    rcases List.mem_cons.mp member with rfl | member
    · exact ⟨List.mem_cons_self, here⟩
    · exact (ih member).imp_left (List.mem_cons_of_mem _)
  | case5 pending m rest other ih => exact (ih member).imp_left (List.mem_cons_of_mem _)

end Kingkong.Jni
