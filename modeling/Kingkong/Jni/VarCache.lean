import Kingkong.Jni.Notified

/-!
The cache of class objects. `JNI_OnLoad` fills it on a thread that finds the classes of the
application.
-/

namespace Kingkong.Jni
open Lib

variable {vm : Vm} {ndebug : Bool} {valid : Bytes → Bool} {s s' : State} {t : Nat}

/-- What is in the cache stays there. -/
def Grows (s s' : State) : Prop :=
  ∀ path clz, s.classMap.lookup path = some clz → s'.classMap.lookup path = some clz

theorem Grows.trans {s'' : State} (first : Grows s s') (second : Grows s' s'') : Grows s s'' :=
  fun path clz cached => second path clz (first path clz cached)

/-- Every path is there once, with a class that some thread finds under it, and the cache has one
reference to each. -/
structure Coherent (vm : Vm) (s : State) : Prop where
  once : (s.classMap.map Prod.fst).Nodup
  found : ∀ entry ∈ s.classMap, ∃ u, vm.findClass u entry.1 = some entry.2
  globals : s.globals = s.classMap.map Prod.snd

theorem initial_coherent : Coherent vm {} := ⟨List.nodup_nil, nofun, rfl⟩

/-- The cache after a step of some thread. -/
structure Caches (vm : Vm) (s s' : State) : Prop where
  grows : Grows s s'
  coherent : Coherent vm s → Coherent vm s'

theorem Caches.trans {s'' : State} (first : Caches vm s s') (second : Caches vm s' s'') :
    Caches vm s s'' :=
  ⟨first.grows.trans second.grows, fun coherent => second.coherent (first.coherent coherent)⟩

theorem Caches.of_eq (cache : s'.classMap = s.classMap) (globals : s'.globals = s.globals) :
    Caches vm s s' where
  grows path clz cached := by rwa [cache]
  coherent coherent := ⟨cache ▸ coherent.once, cache ▸ coherent.found, by rw [globals, cache, coherent.globals]⟩

theorem lookup_none {classMap : List (Bytes × Nat)} {path : Bytes}
    (missing : classMap.lookup path = none) :
    path ∉ classMap.map Prod.fst := by
  intro member
  obtain ⟨entry, present, rfl⟩ := List.mem_map.mp member
  rw [List.lookup_eq_none_iff] at missing
  simpa using missing entry present

theorem lookup_append {classMap : List (Bytes × Nat)} {path other : Bytes} {clz found : Nat}
    (cached : classMap.lookup path = some clz) :
    (classMap ++ [(other, found)]).lookup path = some clz := by
  rw [List.lookup_append, cached]
  rfl

theorem getClass_caches (path : Bytes) : Caches vm s (s.getClass vm t path).2 := by
  unfold State.getClass
  split
  · exact .of_eq rfl rfl
  · split
    · exact .of_eq rfl rfl
    · rename_i missing
      split
      · rename_i clz found
        refine ⟨fun other clz cached => lookup_append cached, fun coherent => ⟨?_, ?_, ?_⟩⟩
        · rw [List.map_append, List.nodup_append]
          refine ⟨coherent.once, by simp, fun a member b single same => lookup_none missing ?_⟩
          have single : b = path := by simpa using single
          rwa [← single, ← same]
        · intro entry member
          rcases List.mem_append.mp member with member | member
          · exact coherent.found entry member
          · obtain rfl := List.mem_singleton.mp member
            exact ⟨t, found⟩
        · simp [coherent.globals]
      · exact .of_eq rfl rfl

theorem getId_caches {find : Nat → Bytes → Bytes → Option Nat} (clz : Option Nat)
    (name signature : Bytes) :
    Caches vm s (s.getId find t clz name signature).2 := by
  unfold State.getId
  split
  · exact .of_eq rfl rfl
  · split
    · exact .of_eq rfl rfl
    · split
      · exact .of_eq rfl rfl
      · exact .of_eq rfl rfl

theorem call_caches {info : JniMethodInfo} {view id : Int} {array : Bytes} {answers : Answers}
    (h : s.callStaticMethodByMethodInfo vm t info view id array answers = some s') :
    Caches vm s s' := by
  have found : Caches vm s (s.getClass vm t info.classname).2 := getClass_caches info.classname
  have looked : Caches vm (s.getClass vm t info.classname).2 (State.getIdOf vm.getStaticMethodID vm t info s).2 :=
    getId_caches _ _ _
  refine (found.trans looked).trans ?_
  simp only [State.callStaticMethodByMethodInfo, State.callStaticMethodByName,
    State.getStaticMethodId] at h
  unfold State.getIdOf
  split at h
  · rename_i c result
    rw [result]
    cases h
    exact .of_eq rfl rfl
  · rename_i method c result
    rw [result]
    split at h
    · split at h <;> cases h
      · exact .of_eq rfl rfl
      · exact .of_eq rfl rfl
    · cases h

theorem notify_caches {info : JniMethodInfo} {view id : Int} {buffer : Bytes} {answers : Answers}
    (h : s.notify vm t info view id buffer answers = some s') : Caches vm s s' := by
  obtain ⟨a, entered, h⟩ := Option.bind_eq_some_iff.mp h
  obtain ⟨⟨array, b⟩, copied, h⟩ := Option.bind_eq_some_iff.mp h
  obtain ⟨c, called, rfl⟩ := Option.map_eq_some_iff.mp h
  unfold State.enter at entered
  split at entered <;> cases entered
  simp only [State.buffer2JbyteArray] at copied
  split at copied <;> cases copied
  have around : Caches vm s ((s.setEnv t (Env.enter answers.push)).setEnv t Env.newByteArray) :=
    .of_eq rfl rfl
  exact (around.trans (call_caches called)).trans (.of_eq rfl rfl)

theorem step_caches {event : Event} (h : step ndebug valid vm s event = some s') :
    Caches vm s s' := by
  cases event with
  | returns u =>
    cases h
    exact .of_eq rfl rfl
  | notify n =>
    obtain ⟨buffer, -, h⟩ := Option.bind_eq_some_iff.mp h
    exact notify_caches h

theorem run_caches {events : List Event} (h : run (step ndebug valid vm) s events = some s') :
    Caches vm s s' :=
  run_keeps (fun _ _ _ caches stepped => caches.trans (step_caches stepped)) (.of_eq rfl rfl) h

theorem load_caches {α : Type} {get : α → State → Option Nat × State}
    (each : ∀ item s, Caches vm s (get item s).2) (items : List α) :
    Caches vm s (State.load get items s).2 := by
  induction items generalizing s with
  | nil => exact .of_eq rfl rfl
  | cons item rest ih =>
    have first := each item s
    unfold State.load
    split
    · rename_i after looked
      rw [looked] at first
      exact first.trans ih
    · rename_i after looked
      rwa [looked] at first

theorem getIdOf_caches (find : Nat → Bytes → Bytes → Option Nat) (info : JniMethodInfo)
    (s : State) :
    Caches vm s (State.getIdOf find vm t info s).2 :=
  (getClass_caches info.classname).trans (getId_caches _ _ _)

variable {answers : Answers} {classes : List Bytes} {staticMethods methods : List JniMethodInfo}

theorem onLoad_caches (h : s.onLoad vm t answers classes staticMethods methods = some s') :
    Caches vm s s' := by
  obtain ⟨a, entered, rfl⟩ := Option.map_eq_some_iff.mp h
  unfold State.enter at entered
  split at entered <;> cases entered
  have entering : Caches vm s (s.setEnv t (Env.enter answers.push)) := .of_eq rfl rfl
  refine entering.trans ?_
  refine (load_caches (fun path s => getClass_caches (t := t) path) classes).trans ?_
  refine (load_caches (getIdOf_caches (t := t) vm.getStaticMethodID) staticMethods).trans ?_
  exact (load_caches (getIdOf_caches (t := t) vm.getMethodID) methods).trans (.of_eq rfl rfl)

theorem erase_all (entries : List (Bytes × Nat)) :
    entries.foldl (fun refs entry => refs.erase entry.2) (entries.map Prod.snd) = [] := by
  induction entries with
  | nil => rfl
  | cons entry rest ih => simpa using ih

/-- `JNI_OnLoad` with the class and the methods that `ActivityView` registers. -/
def activityOnLoad (vm : Vm) (t : Nat) : Option State :=
  ({} : State).onLoad vm t {} [kC2Java] [notifyEventFired, notifyPropertyChanged] []

/-- A machine where only thread 0 finds the class. -/
def loader : Vm where
  findClass t path := if t = 0 ∧ path = kC2Java then some 7 else none
  getStaticMethodID clz name _ :=
    if clz ≠ 7 then none
    else if name = notifyEventFired.methodname then some 1
    else if name = notifyPropertyChanged.methodname then some 2
    else none
  getMethodID _ _ _ := none

/-- The view has two changes and an event for Java on thread 1, where the first call throws
something that cannot even be described. -/
def silenced : List Event :=
  let undescribed : Exception := ⟨utf8 "java.lang.IllegalStateException", .throws, none⟩
  [.notify ⟨1, notifyPropertyChanged, 64, 3, .int32 5, { thrown := some undescribed }⟩,
    .notify ⟨1, notifyPropertyChanged, 64, 3, .int32 6, {}⟩,
    .notify ⟨0, notifyEventFired, 64, 4, .bool true, {}⟩,
    .returns 1,
    .notify ⟨1, notifyEventFired, 64, 4, .int32 7, {}⟩]

/-- However threads use the cache after it was filled, every path keeps its class, that class is one
that some thread finds, and `Release` deletes each reference once and leaves none. -/
theorem cache_coherent {events : List Event} {u : Nat}
    (loaded : ({} : State).onLoad vm u answers classes staticMethods methods = some s)
    (h : run (step ndebug valid vm) s events = some s') :
    Coherent vm s' ∧ Grows s s' ∧ s'.release.globals = [] := by
  have coherent : Coherent vm s' :=
    (run_caches h).coherent ((onLoad_caches loaded).coherent initial_coherent)
  refine ⟨coherent, (run_caches h).grows, ?_⟩
  rw [State.release, coherent.globals]
  exact erase_all _

theorem cache_coherent_loader : ∃ s s', activityOnLoad loader 0 = some s ∧
    run (step false (fun _ => true) loader) s silenced = some s' ∧ s'.globals = [7] ∧
    Coherent loader s' ∧ Grows s s' ∧ s'.release.globals = [] := by
  have same : ((activityOnLoad loader 0).bind (run (step false (fun _ => true) loader) · silenced)).map (·.globals) =
      some [7] := by decide +kernel
  obtain ⟨s', ran, same⟩ := Option.map_eq_some_iff.mp same
  obtain ⟨s, loaded, ran⟩ := Option.bind_eq_some_iff.mp ran
  exact ⟨s, s', loaded, ran, same, cache_coherent loaded ran⟩

/-! ### What `JNI_OnLoad` leaves -/

/-- The message of the error if the class is not found, if it is not. -/
def Vm.missingClass (vm : Vm) (t : Nat) (path : Bytes) : Option Bytes :=
  if (vm.findClass t path).isSome then none else some (utf8 "classPath:" ++ path)

def Vm.missingMethod (vm : Vm) (find : Nat → Bytes → Bytes → Option Nat) (t : Nat)
    (info : JniMethodInfo) :
    Option Bytes :=
  match vm.findClass t info.classname with
  | none => some (utf8 "classPath:" ++ info.classname)
  | some clz =>
    if (find clz info.methodname info.methodsig).isSome then none
    else some (utf8 "method:" ++ info.methodname ++ utf8 ", sig:" ++ info.methodsig)

/-- The first of the registered classes and methods that is missing. -/
def Vm.missing (vm : Vm) (t : Nat) (classes : List Bytes)
    (staticMethods methods : List JniMethodInfo) : Option Bytes :=
  (classes.findSome? (vm.missingClass t)).or
    ((staticMethods.findSome? (vm.missingMethod vm.getStaticMethodID t)).or
      (methods.findSome? (vm.missingMethod vm.getMethodID t)))

/-- The cache has what thread `t` finds. -/
def Own (vm : Vm) (t : Nat) (s : State) : Prop :=
  ∀ path clz, s.classMap.lookup path = some clz → vm.findClass t path = some clz

theorem Own.add {path : Bytes} {clz : Nat} (own : Own vm t s)
    (found : vm.findClass t path = some clz) :
    Own vm t { s with classMap := s.classMap ++ [(path, clz)], globals := s.globals ++ [clz] } := by
  intro other clz' cached
  rw [List.lookup_append] at cached
  rcases Option.or_eq_some_iff.mp cached with before | ⟨-, added⟩
  · exact own other clz' before
  · rw [List.lookup_cons] at added
    split at added
    · rename_i same
      rw [eq_of_beq same, found, added]
    · cases added

/-- Lookups of thread `t`. The first that fails leaves its error, if none is pending, and none that
follows changes that. If none fails, the classes are in the cache. -/
structure Looked (vm : Vm) (t : Nat) (paths : List Bytes) (missing : Option Bytes) (s s' : State) :
    Prop where
  own : Own vm t s'
  grows : Grows s s'
  pending : (s'.env t).pending =
    (s.env t).pending.or (missing.map fun message => .unsatisfiedLinkError (message.take 511))
  frames : (s'.env t).frames.tail = (s.env t).frames.tail
  misused : (s'.env t).misused = (s.env t).misused
  overrun : (s'.env t).overrun = (s.env t).overrun
  others : ∀ u ≠ t, s'.env u = s.env u
  calls : s'.calls = s.calls
  cached : (s'.env t).pending = none → ∀ path ∈ paths, ∃ clz, s'.classMap.lookup path = some clz

namespace Looked

variable {first second : List Bytes} {a b : Option Bytes} {s'' : State}

theorem nothing (own : Own vm t s) : Looked vm t [] none s s :=
  ⟨own, fun _ _ cached => cached, by simp, rfl, rfl, rfl, fun _ _ => rfl, rfl,
    fun _ _ member => absurd member List.not_mem_nil⟩

theorem trans (before : Looked vm t first a s s') (after : Looked vm t second b s' s'') :
    Looked vm t (first ++ second) (a.or b) s s'' where
  own := after.own
  grows := before.grows.trans after.grows
  pending := by
    rw [after.pending, before.pending, Option.or_assoc]
    cases a <;> rfl
  frames := after.frames.trans before.frames
  misused := after.misused.trans before.misused
  overrun := after.overrun.trans before.overrun
  others u other := (after.others u other).trans (before.others u other)
  calls := after.calls.trans before.calls
  cached clear path member := by
    have earlier : (s'.env t).pending = none := by
      rw [after.pending] at clear
      exact (Option.or_eq_none_iff.mp clear).1
    rcases List.mem_append.mp member with member | member
    · obtain ⟨clz, cached⟩ := before.cached earlier path member
      exact ⟨clz, after.grows path clz cached⟩
    · exact after.cached clear path member

/-- What comes after an error does not matter. -/
theorem stuck (before : Looked vm t first a s s') (error : (s'.env t).pending.isSome = true)
    (second : List Bytes) (b : Option Bytes) : Looked vm t (first ++ second) (a.or b) s s' where
  own := before.own
  grows := before.grows
  pending := by
    rw [Option.map_or, ← Option.or_assoc, ← before.pending, Option.or_of_isSome error]
  frames := before.frames
  misused := before.misused
  overrun := before.overrun
  others := before.others
  calls := before.calls
  cached clear := by
    rw [clear] at error
    cases error

/-- A lookup with an exception pending. -/
theorem blocked (own : Own vm t s) (error : (s.env t).pending.isSome = true) (paths : List Bytes)
    (missing : Option Bytes) :
    Looked vm t paths missing s (s.setEnv t Env.newLocalRef) where
  own := own
  grows _ _ cached := cached
  pending := by rw [State.setEnv_self, Env.newLocalRef_pending, Option.or_of_isSome error]
  frames := by rw [State.setEnv_self, Env.newLocalRef_tail]
  misused := by rw [State.setEnv_self, Env.newLocalRef_misused]
  overrun := by rw [State.setEnv_self, Env.newLocalRef_overrun]
  others _ other := State.setEnv_other _ _ other
  calls := rfl
  cached clear := by
    rw [State.setEnv_self, Env.newLocalRef_pending] at clear
    rw [clear] at error
    cases error

/-- A lookup that finds nothing. -/
theorem failed (own : Own vm t s) (clear : (s.env t).pending = none) (paths : List Bytes)
    (message : Bytes) :
    Looked vm t paths (some message) s (s.setEnv t (Env.linkError message)) where
  own := own
  grows _ _ cached := cached
  pending := by
    rw [State.setEnv_self, clear]
    rfl
  frames := by
    rw [State.setEnv_self]
    exact (Env.newLocalRef_tail _).trans (Env.newLocalRef_tail _)
  misused := by
    rw [State.setEnv_self]
    rfl
  overrun := by
    rw [State.setEnv_self]
    rfl
  others _ other := State.setEnv_other _ _ other
  calls := rfl
  cached clear := by
    rw [State.setEnv_self] at clear
    cases clear

end Looked

theorem getClass_looked (own : Own vm t s) (path : Bytes) :
    Looked vm t [path] (vm.missingClass t path) s (s.getClass vm t path).2 ∧
      (((s.getClass vm t path).2.env t).pending = none →
        ∃ clz, (s.getClass vm t path).1 = some clz ∧ vm.findClass t path = some clz) := by
  unfold State.getClass
  split
  · rename_i error
    refine ⟨.blocked own error _ _, fun clear => ?_⟩
    rw [State.setEnv_self, Env.newLocalRef_pending] at clear
    rw [clear] at error
    cases error
  · rename_i clear
    have clear : (s.env t).pending = none := Option.not_isSome_iff_eq_none.mp clear
    split
    · rename_i clz cached
      have found := own path clz cached
      refine ⟨⟨own, fun _ _ cached => cached, ?_, rfl, rfl, rfl, fun _ _ => rfl, rfl,
        fun _ other member => ?_⟩, fun _ => ⟨clz, rfl, found⟩⟩
      · simp [Vm.missingClass, found]
      · rw [List.mem_singleton.mp member]
        exact ⟨clz, cached⟩
    · rename_i missing
      split
      · rename_i clz found
        refine ⟨⟨own.add found, fun other clz cached => lookup_append cached, ?_, rfl, rfl, rfl,
          fun _ _ => rfl, rfl, fun _ other member => ?_⟩,
          fun _ => ⟨clz, rfl, found⟩⟩
        · simp [Vm.missingClass, found]
        · rw [List.mem_singleton.mp member]
          exact ⟨clz, by simp [List.lookup_append, missing]⟩
      · rename_i absent
        refine ⟨?_, fun clear => ?_⟩
        · rw [Vm.missingClass, absent]
          exact .failed own clear _ _
        · rw [State.setEnv_self] at clear
          cases clear

/-- A class that is missing comes first. -/
theorem missingMethod_or (find : Nat → Bytes → Bytes → Option Nat) (info : JniMethodInfo) :
    vm.missingMethod find t info =
      (vm.missingClass t info.classname).or (vm.missingMethod find t info) := by
  unfold Vm.missingMethod Vm.missingClass
  cases vm.findClass t info.classname <;> rfl

theorem getIdOf_looked (find : Nat → Bytes → Bytes → Option Nat) (info : JniMethodInfo)
    (own : Own vm t s) :
    Looked vm t [info.classname] (vm.missingMethod find t info) s (State.getIdOf find vm t info s).2 ∧
      (((State.getIdOf find vm t info s).2.env t).pending = none →
        (State.getIdOf find vm t info s).1.isSome = true) := by
  obtain ⟨looked, found⟩ := getClass_looked own info.classname
  unfold State.getIdOf State.getId
  split
  · rename_i error
    refine ⟨?_, fun clear => ?_⟩
    · rw [missingMethod_or]
      exact looked.trans (.blocked looked.own error [] (vm.missingMethod find t info))
    · rw [State.setEnv_self, Env.newLocalRef_pending] at clear
      rw [clear] at error
      cases error
  · rename_i clear
    have clear := Option.not_isSome_iff_eq_none.mp clear
    obtain ⟨clz, same, here⟩ := found clear
    have missing : vm.missingClass t info.classname = none := by simp [Vm.missingClass, here]
    rw [missing] at looked
    rw [same]
    simp only [Vm.missingMethod, here]
    cases result : find clz info.methodname info.methodsig with
    | some mid => exact ⟨looked, fun _ => rfl⟩
    | none =>
      refine ⟨looked.trans (.failed looked.own clear [] _), fun clear => ?_⟩
      rw [State.setEnv_self] at clear
      cases clear

theorem load_looked {α : Type} {get : α → State → Option Nat × State} {path : α → Bytes}
    {missing : α → Option Bytes}
    (each : ∀ item s, Own vm t s → Looked vm t [path item] (missing item) s (get item s).2 ∧
      (((get item s).2.env t).pending = none → (get item s).1.isSome = true))
    (items : List α) (own : Own vm t s) :
    Looked vm t (items.map path) (items.findSome? missing) s (State.load get items s).2 := by
  induction items generalizing s with
  | nil => exact .nothing own
  | cons item rest ih =>
    obtain ⟨first, found⟩ := each item s own
    have split : (item :: rest).findSome? missing = (missing item).or (rest.findSome? missing) := by
      rw [List.findSome?_cons]
      cases missing item <;> rfl
    rw [List.map_cons, split, ← List.singleton_append]
    unfold State.load
    split
    · rename_i mid after looked
      rw [looked] at first
      exact first.trans (ih first.own)
    · rename_i after looked
      rw [looked] at first found
      refine first.stuck ?_ _ _
      rw [Option.isSome_iff_ne_none]
      intro clear
      cases found clear

theorem loadClass_looked (own : Own vm t s) (classes : List Bytes) :
    Looked vm t classes (classes.findSome? (vm.missingClass t)) s (s.loadClass vm t classes).2 := by
  have each (path : Bytes) (s : State) (own : Own vm t s) :
      Looked vm t [id path] (vm.missingClass t path) s (s.getClass vm t path).2 ∧
        (((s.getClass vm t path).2.env t).pending = none → (s.getClass vm t path).1.isSome = true) := by
    obtain ⟨looked, found⟩ := getClass_looked own path
    refine ⟨looked, fun clear => ?_⟩
    obtain ⟨clz, same, -⟩ := found clear
    rw [same]
    rfl
  have all := load_looked each classes own
  rwa [List.map_id] at all

theorem onLoad_looked
    (h : ({} : State).onLoad vm t answers classes staticMethods methods = some s) :
    ∃ loaded,
    Looked vm t (classes ++ (staticMethods.map (·.classname) ++ methods.map (·.classname)))
        (vm.missing t classes staticMethods methods) (({} : State).setEnv t (Env.enter answers.push)) loaded ∧
      s = loaded.leave t := by
  obtain ⟨a, entered, rfl⟩ := Option.map_eq_some_iff.mp h
  unfold State.enter at entered
  split at entered <;> cases entered
  have own : Own vm t (({} : State).setEnv t (Env.enter answers.push)) := nofun
  have first := loadClass_looked own classes
  have second :=
    load_looked (fun info _ => getIdOf_looked vm.getStaticMethodID info) staticMethods first.own
  have third := load_looked (fun info _ => getIdOf_looked vm.getMethodID info) methods second.own
  exact ⟨_, first.trans (second.trans third), rfl⟩

theorem missingMethod_none {find : Nat → Bytes → Bytes → Option Nat} {info : JniMethodInfo}
    {clz : Nat} (present : vm.missingMethod find t info = none)
    (found : vm.findClass t info.classname = some clz) :
    ∃ method, find clz info.methodname info.methodsig = some method := by
  simp only [Vm.missingMethod, found] at present
  split at present
  · rename_i here
    exact Option.isSome_iff_exists.mp here
  · cases present

section
variable (h : ({} : State).onLoad vm t answers classes staticMethods methods = some s)

include h

theorem onLoad_pending (room : answers.push = true) : (s.env t).pending =
    (vm.missing t classes staticMethods methods).map fun message =>
      .unsatisfiedLinkError (message.take 511) := by
  obtain ⟨loaded, looked, rfl⟩ := onLoad_looked h
  rw [State.leave, State.setEnv_self, Env.leave_pending, looked.pending, State.setEnv_self,
    Env.enter, if_pos room]
  rfl

theorem onLoad_others {u : Nat} (other : u ≠ t) : s.env u = {} := by
  obtain ⟨loaded, looked, rfl⟩ := onLoad_looked h
  rw [State.leave, State.setEnv_other _ _ other, looked.others u other,
    State.setEnv_other _ _ other]

theorem onLoad_safe (u : Nat) : (s.env u).misused = false ∧ (s.env u).overrun = false := by
  by_cases same : u = t
  · obtain ⟨loaded, looked, rfl⟩ := onLoad_looked h
    rw [same, State.leave, State.setEnv_self]
    constructor
    · refine looked.misused.trans ?_
      rw [State.setEnv_self]
      rfl
    · refine looked.overrun.trans ?_
      rw [State.setEnv_self]
      rfl
  · rw [onLoad_others h same]
    exact ⟨rfl, rfl⟩

theorem onLoad_calls : s.calls = [] := by
  obtain ⟨loaded, looked, rfl⟩ := onLoad_looked h
  exact looked.calls

theorem onLoad_frames (room : answers.push = true) (u : Nat) : (s.env u).frames = [0] := by
  by_cases same : u = t
  · obtain ⟨loaded, looked, rfl⟩ := onLoad_looked h
    rw [same, State.leave, State.setEnv_self, Env.leave]
    refine looked.frames.trans ?_
    rw [State.setEnv_self, room]
    rfl
  · rw [onLoad_others h same]

theorem onLoad_cached (room : answers.push = true)
    (complete : vm.missing t classes staticMethods methods = none) {path : Bytes}
    (member : path ∈ classes ∨ path ∈ staticMethods.map (·.classname)) :
    ∃ clz, vm.findClass t path = some clz ∧ s.classMap.lookup path = some clz := by
  have clear := onLoad_pending h room
  rw [complete] at clear
  obtain ⟨loaded, looked, rfl⟩ := onLoad_looked h
  rw [State.leave, State.setEnv_self, Env.leave_pending] at clear
  have member : path ∈ classes ++ (staticMethods.map (·.classname) ++ methods.map (·.classname)) :=
    List.mem_append.mpr (member.imp_right (List.mem_append_left _))
  obtain ⟨clz, cached⟩ := looked.cached clear path member
  exact ⟨clz, looked.own path clz cached, cached⟩

theorem onLoad_ready (room : answers.push = true)
    (complete : vm.missing t classes staticMethods methods = none) {info : JniMethodInfo}
    (member : info ∈ staticMethods)
    (legal : (State.returnType info.methodsig).any State.isReturnType = true) :
    ∃ clz method, vm.findClass t info.classname = some clz ∧ Ready vm s info clz method := by
  obtain ⟨clz, here, cached⟩ := onLoad_cached h room complete (Or.inr (List.mem_map_of_mem member))
  obtain ⟨-, complete⟩ := Option.or_eq_none_iff.mp complete
  obtain ⟨present, -⟩ := Option.or_eq_none_iff.mp complete
  obtain ⟨method, has⟩ :=
    missingMethod_none (List.findSome?_eq_none_iff.mp present info member) here
  exact ⟨clz, method, here, cached, has, legal⟩

theorem onLoad_clear (room : answers.push = true)
    (complete : vm.missing t classes staticMethods methods = none) {u : Nat} :
    (s.env u).pending = none := by
  by_cases same : u = t
  · rw [same, onLoad_pending h room, complete]
    rfl
  · rw [onLoad_others h same]

end

/-- What can be packed and is for a registered method. -/
def Registered (staticMethods : List JniMethodInfo) (events : List Event) : Prop :=
  ∀ n, .notify n ∈ events → n.value.Short ∧ n.info ∈ staticMethods ∧
    (State.returnType n.info.methodsig).any State.isReturnType = true

theorem onLoad_prepared {events : List Event}
    (h : ({} : State).onLoad vm t answers classes staticMethods methods = some s)
    (room : answers.push = true) (complete : vm.missing t classes staticMethods methods = none)
    (registered : Registered staticMethods events) :
    ∀ event ∈ events, Prepared vm s event := by
  rintro event member n rfl
  obtain ⟨short, known, legal⟩ := registered n member
  obtain ⟨clz, method, -, ready⟩ := onLoad_ready h room complete known legal
  exact ⟨short, clz, method, ready⟩

/-- `JNI_OnLoad` ignores what its loops return, but the first class or method that is missing leaves
its error pending. Without one, every thread is ready to call the registered static methods, also a
thread that does not find their classes. -/
theorem onLoad_complete (room : answers.push = true)
    (h : ({} : State).onLoad vm t answers classes staticMethods methods = some s) :
    (s.env t).pending = (vm.missing t classes staticMethods methods).map
        (fun message => .unsatisfiedLinkError (message.take 511)) ∧
      (s.env t).frames = [0] ∧
      (vm.missing t classes staticMethods methods = none →
        (∀ path ∈ classes, s.classMap.lookup path = vm.findClass t path) ∧
        ∀ info ∈ staticMethods, (State.returnType info.methodsig).any State.isReturnType = true →
          ∃ clz method, vm.findClass t info.classname = some clz ∧ Ready vm s info clz method) := by
  refine ⟨onLoad_pending h room, onLoad_frames h room t, fun complete => ⟨fun path member => ?_,
    fun info member => ?_⟩⟩
  · obtain ⟨clz, here, cached⟩ := onLoad_cached h room complete (Or.inl member)
    rw [here, cached]
  · exact onLoad_ready h room complete member

theorem onLoad_complete_loader : ∃ s s', activityOnLoad loader 0 = some s ∧
    (∃ method, Ready loader s notifyPropertyChanged 7 method) ∧ activityOnLoad loader 1 = some s' ∧
    (s'.env 1).pending = some (.unsatisfiedLinkError (utf8 "classPath:com/mvvm/MVVMHelp")) := by
  obtain ⟨s, loaded⟩ : ∃ s, activityOnLoad loader 0 = some s :=
    Option.isSome_iff_exists.mp (by decide +kernel)
  obtain ⟨s', failed⟩ : ∃ s', activityOnLoad loader 1 = some s' :=
    Option.isSome_iff_exists.mp (by decide +kernel)
  obtain ⟨-, -, whole⟩ := onLoad_complete rfl loaded
  obtain ⟨-, ready⟩ := whole (by decide +kernel)
  obtain ⟨clz, method, found, ready⟩ := ready notifyPropertyChanged (by simp) (by decide +kernel)
  have same : loader.findClass 0 notifyPropertyChanged.classname = some 7 := by decide +kernel
  obtain rfl := Option.some.inj (same.symm.trans found)
  obtain ⟨pending, -⟩ := onLoad_complete rfl failed
  exact ⟨s, s', loaded, ⟨method, ready⟩, failed, pending.trans (by decide +kernel)⟩

/-- On every thread Java hears of the changes in their order, each with its value, up to the first
exception that stays pending. From then on it hears nothing of that thread until the thread returns
to Java. The local references of the notifications are all gone, if there was room for their
frames. -/
theorem view_notified {events : List Event} (room : answers.push = true)
    (loaded : ({} : State).onLoad vm t answers classes staticMethods methods = some s)
    (complete : vm.missing t classes staticMethods methods = none)
    (registered : Registered staticMethods events)
    (h : run (step ndebug valid vm) s events = some s') (u : Nat) :
    List.Forall₂ (Delivers ndebug valid vm s) (heard u false events) (s'.calls.filter (·.thread == u)) ∧
      ((∀ n, .notify n ∈ events → n.thread = u → n.answers.push = true) →
        (s'.env u).frames = [0]) := by
  have prepared := onLoad_prepared loaded room complete registered
  constructor
  · obtain ⟨made, calls, all⟩ := (run_traced prepared h u).calls
    rw [onLoad_calls loaded, List.filter_nil, List.nil_append] at calls
    rw [onLoad_clear loaded room complete, ← calls] at all
    exact all
  · intro room'
    rw [run_frames prepared h room', onLoad_frames loaded room]

theorem silenced_cases {n : Notification} (member : .notify n ∈ silenced) :
    n = ⟨1, notifyPropertyChanged, 64, 3, .int32 5,
        { thrown := some ⟨utf8 "java.lang.IllegalStateException", .throws, none⟩ }⟩ ∨
      n = ⟨1, notifyPropertyChanged, 64, 3, .int32 6, {}⟩ ∨
      n = ⟨0, notifyEventFired, 64, 4, .bool true, {}⟩ ∨
      n = ⟨1, notifyEventFired, 64, 4, .int32 7, {}⟩ := by
  simpa [silenced] using member

theorem silenced_registered : Registered [notifyEventFired, notifyPropertyChanged] silenced := by
  intro n member
  rcases silenced_cases member with rfl | rfl | rfl | rfl
  all_goals exact ⟨trivial, by simp, by decide +kernel⟩

theorem view_notified_silenced : ∃ s s', activityOnLoad loader 0 = some s ∧
    run (step false (fun _ => true) loader) s silenced = some s' ∧
    (heard 1 false silenced).map (·.value) = [.int32 5, .int32 7] ∧
    List.Forall₂ (Delivers false (fun _ => true) loader s) (heard 1 false silenced) (s'.calls.filter (·.thread == 1)) ∧
    (s'.env 1).frames = [0] := by
  obtain ⟨s', ran⟩ : ∃ s',
    (activityOnLoad loader 0).bind (run (step false (fun _ => true) loader) · silenced) = some s' :=
    Option.isSome_iff_exists.mp (by decide +kernel)
  obtain ⟨s, loaded, ran⟩ := Option.bind_eq_some_iff.mp ran
  obtain ⟨all, frames⟩ := view_notified rfl loaded (by decide +kernel) silenced_registered ran 1
  refine ⟨s, s', loaded, ran, rfl, all, frames fun n member _ => ?_⟩
  rcases silenced_cases member with rfl | rfl | rfl | rfl <;> rfl

/-- The same run as the machine has it. No thread makes an array while an exception is pending
exactly if all that it has is heard. Nothing is written behind the buffer of a stack trace unless
one is heard that does not fit, and one that is short or in ASCII does. -/
theorem notified_safe {events : List Event} (room : answers.push = true)
    (loaded : ({} : State).onLoad vm t answers classes staticMethods methods = some s)
    (complete : vm.missing t classes staticMethods methods = none)
    (registered : Registered staticMethods events)
    (h : run (step ndebug valid vm) s events = some s') (u : Nat) :
    ((s'.env u).misused = false ↔ heard u false events = sent u events) ∧
      (s'.env u).overrun = (heard u false events).any (·.answers.overruns) ∧
      ((∀ n, .notify n ∈ events → n.thread = u → ∀ exception, n.answers.thrown = some exception →
        exception.Fits) → (s'.env u).overrun = false) := by
  have traced := run_traced (onLoad_prepared loaded room complete registered) h u
  obtain ⟨misused, overrun⟩ := onLoad_safe loaded u
  rw [onLoad_clear loaded room complete] at traced
  have total := traced.overrun
  rw [overrun, Bool.false_or] at total
  refine ⟨?_, total, fun fits => ?_⟩
  · rw [traced.misused, misused]
    exact and_iff_right rfl
  · rw [total, List.any_eq_false]
    intro n member
    obtain ⟨present, here⟩ := heard_sent member
    rw [Answers.overruns_false (fits n present here)]
    nofun

theorem notified_safe_silenced : ∃ s s', activityOnLoad loader 0 = some s ∧
    run (step false (fun _ => true) loader) s silenced = some s' ∧ (s'.env 0).misused = false ∧
      (s'.env 1).misused = true ∧
    (s'.env 1).overrun = false := by
  obtain ⟨s', ran⟩ : ∃ s',
    (activityOnLoad loader 0).bind (run (step false (fun _ => true) loader) · silenced) = some s' :=
    Option.isSome_iff_exists.mp (by decide +kernel)
  obtain ⟨s, loaded, ran⟩ := Option.bind_eq_some_iff.mp ran
  have safe := notified_safe rfl loaded (by decide +kernel) silenced_registered ran
  have lost : (heard 1 false silenced).length ≠ (sent 1 silenced).length := by decide
  refine ⟨s, s', loaded, ran, (safe 0).1.mpr rfl, ?_, (safe 1).2.1.trans rfl⟩
  rw [← Bool.not_eq_false, (safe 1).1]
  exact fun all => lost (congrArg List.length all)

end Kingkong.Jni
