import Kingkong.Mvvm.Registry

/-!
What the list of subscriptions says about the maps of the layer: ids are distinct, a view model
knows what the models hold of it, events call what is subscribed to them, and nothing is left of a
view model that was detached.
-/

namespace Kingkong.Mvvm
open Lib

/-- The model of a type: neither missing nor null. -/
def State.cached (s : State) (type : Int) : Option Nat := (s.models.find? type).join

/-- The model holds a delegate of the view model under `id`. -/
def Holds (s : State) (m v id : Nat) : Prop :=
  ∃ event, ∃ info ∈ (s.objects m).delegates event, info.delegate.viewModel = v ∧ info.id = id

/-- The type does not share its model with another type. -/
def Unique (s : State) (type : Int) : Prop :=
  ∀ other m, s.cached type = some m → s.cached other = some m → other = type

def Operation.attaches (v : Nat) : Operation → Bool
  | .notifyBind other _ => other == v
  | _ => false

def Operation.detaches (v : Nat) : Operation → Bool
  | .notifyUnBind other _ => other == v
  | .destroy other => other == v
  | _ => false

def seen (v : Nat) (s : State) : List (Nat × ViewAction) := s.shown.filter fun item => item.1 == v

/-- What is expected of a state that has the subscriptions of `r`. No id is used twice. The entries
of a view model are what the models hold of it; where types share a model, an entry is still backed
by its model. An event calls what is subscribed to it, in order, and every view model that it calls
is alive. A view model that was detached is in no model until it is bound again, and its view hears
no more. -/
structure Bookkeeping (react : Nat → Int → Bytes → List ViewAction) (r : Registry) (s : State) :
    Prop where
  issued : s.issued.Nodup
  distinct : ∀ m n event other (i j : Nat) info info', ((s.objects m).delegates event)[i]? = some info →
    ((s.objects n).delegates other)[j]? = some info' → info.id = info'.id → m = n ∧ event = other ∧ i = j
  entries : ∀ v viewModel, s.viewModels v = some viewModel → ∀ id type, Unique s type →
    ((id, type) ∈ viewModel.subscribeIds.entries ↔ ∃ m, s.cached type = some m ∧ Holds s m v id)
  backed : ∀ v viewModel, s.viewModels v = some viewModel → ∀ id type, (id, type) ∈ viewModel.subscribeIds.entries →
    ∃ m, s.cached type = some m ∧ Holds s m v id
  fires : ∀ m event value, (s.fireEvent react m event value).calls =
    s.calls ++ (r.subscribed m event).map fun x => ⟨x.info, event, value⟩
  alive : ∀ m event, ∀ x ∈ r.subscribed m event, (s.viewModels x.delegate.viewModel).isSome = true
  detached : ∀ v operation t, operation.detaches v = true → step react s operation = some t →
    ∀ later u, run (step react) t later = some u →
      seen v u = seen v s ∧
      ((∀ operation ∈ later, operation.attaches v = false) → ∀ m id, ¬ Holds u m v id)

variable {react : Nat → Int → Bytes → List ViewAction} {operation : Operation} {operations : List Operation}
  {r : Registry} {s t : State} {v m : Nat} {type event : Int}

/-! ### What the representation gives -/

theorem represents_distinct (represents : Represents r s) {n : Nat} {other : Int} {i j : Nat}
    {info info' : SuscribeEventDelegateInfo}
    (first : ((s.objects m).delegates event)[i]? = some info)
    (second : ((s.objects n).delegates other)[j]? = some info') (same : info.id = info'.id) :
    m = n ∧ event = other ∧ i = j := by
  have delegated : Delegated r.subscriptions s := represents.delegates
  obtain ⟨x, listed, rfl, rfl, rfl⟩ := delegated_mem delegated (List.mem_of_getElem? first)
  obtain ⟨y, listed', rfl, rfl, rfl⟩ := delegated_mem delegated (List.mem_of_getElem? second)
  obtain rfl := same_id r.ordered listed listed' same
  refine ⟨rfl, rfl, ?_⟩
  have apart : (((s.objects x.model).delegates x.event).map SuscribeEventDelegateInfo.id).Nodup := by
    rw [represents.delegates, List.map_map]
    exact (List.pairwise_map.mpr (r.ordered.sublist List.filter_sublist)).imp Nat.ne_of_lt
  obtain ⟨bound, _⟩ := List.getElem?_eq_some_iff.mp first
  refine (List.getElem?_inj (by rwa [List.length_map]) apart).mp ?_
  rw [List.getElem?_map, List.getElem?_map, first, second]

theorem represents_cached (represents : Represents r s) {x : Subscription}
    (member : x ∈ r.subscriptions) :
    s.cached x.modelType = some x.model := by
  rw [State.cached, represents.models, represents.resolved x member]
  rfl

theorem represents_backed (represents : Represents r s) {viewModel : ViewModel}
    (found : s.viewModels v = some viewModel) {id : Nat}
    (entered : (id, type) ∈ viewModel.subscribeIds.entries) :
    ∃ m, s.cached type = some m ∧ Holds s m v id := by
  rw [represents.entries v viewModel found] at entered
  obtain ⟨x, mine, same⟩ := List.mem_map.mp entered
  cases same
  obtain ⟨listed, his⟩ := List.mem_filter.mp mine
  refine ⟨x.model, represents_cached represents listed, x.event, x.info, ?_, ?_, rfl⟩
  · rw [represents.delegates]
    exact List.mem_map_of_mem (List.mem_filter.mpr ⟨listed, by simp [Subscription.isAt]⟩)
  · simpa [Subscription.isOf, Subscription.info] using his

theorem represents_listed (represents : Represents r s) {viewModel : ViewModel}
    (found : s.viewModels v = some viewModel) {id : Nat} (unique : Unique s type)
    (cached : s.cached type = some m) (held : Holds s m v id) :
    (id, type) ∈ viewModel.subscribeIds.entries := by
  obtain ⟨event, info, member, his, rfl⟩ := held
  have delegated : Delegated r.subscriptions s := represents.delegates
  obtain ⟨x, listed, rfl, rfl, rfl⟩ := delegated_mem delegated member
  obtain rfl := unique x.modelType x.model cached (represents_cached represents listed)
  rw [represents.entries v viewModel found]
  exact List.mem_map.mpr ⟨x,
    List.mem_filter.mpr ⟨listed, by simpa [Subscription.isOf, Subscription.info] using his⟩, rfl⟩

theorem act_calls (action : ViewAction) : (s.act v action).calls = s.calls := by
  unfold State.act
  split
  · split <;> rfl
  · rfl

theorem acts_calls (actions : List ViewAction) :
    (actions.foldl (State.act v) s).calls = s.calls := by
  induction actions generalizing s with
  | nil => rfl
  | cons action rest ih => rw [List.foldl_cons, ih, act_calls]

theorem calls_calls (value : Bytes) (delegates : List SuscribeEventDelegateInfo) :
    (delegates.foldl (State.call react event value) s).calls = s.calls ++ delegates.map fun info =>
      ⟨info, event, value⟩ := by
  induction delegates generalizing s with
  | nil => simp
  | cons info rest ih =>
    rw [List.foldl_cons, ih, State.call, acts_calls]
    simp

/-- `FireEvent` calls the delegates of the event, each once and in their order. -/
theorem fireEvent_calls (m : Nat) (event : Int) (value : Bytes) :
    (s.fireEvent react m event value).calls =
    s.calls ++ ((s.objects m).delegates event).map fun info => ⟨info, event, value⟩ := by
  rw [fireEvent_eq]
  exact calls_calls value _

/-! ### A view model that is detached -/

theorem subscrieEvent_of {w : Nat} {subscription : Int × Nat} {next : Registry} (other : v ≠ w)
    (h : r.subscrieEvent v m type subscription = some next) : next.of w = r.of w := by
  unfold Registry.subscrieEvent at h
  split at h <;> cases h
  rw [of_subscribe, if_neg other]

theorem hook_of {w : Nat} {hook : Hook} {next : Registry} (other : v ≠ w)
    (h : r.hook v hook = some next) :
    next.of w = r.of w := by
  cases hook with
  | act action =>
    cases h
    rfl
  | subscrie block =>
    simp only [Registry.hook, Registry.subscrie] at h
    split at h
    · exact run_keeps (I := fun next => next.of w = r.of w)
        (fun _ _ _ same moved => (subscrieEvent_of other moved).trans same) rfl h
    · cases h
      rfl

theorem hooks_of {w : Nat} {hooks : List Hook} {next : Registry} (other : v ≠ w)
    (h : run (Registry.hook v) r hooks = some next) : next.of w = r.of w :=
  run_keeps (I := fun next => next.of w = r.of w) (fun _ _ _ same moved => (hook_of other moved).trans same) rfl h

theorem step_detaches {next : Registry} (detaches : operation.detaches v = true)
    (h : r.step operation = some next) :
    next.of v = [] := by
  cases operation with
  | notifyUnBind w onDetach =>
    obtain rfl : w = v := by simpa [Operation.detaches] using detaches
    simp only [Registry.step] at h
    split at h
    · obtain ⟨middle, _, rfl⟩ := Option.map_eq_some_iff.mp h
      exact of_dismiss_self
    · cases h
  | destroy w =>
    obtain rfl : w = v := by simpa [Operation.detaches] using detaches
    simp only [Registry.step] at h
    split at h <;> cases h
    exact of_dismiss_self
  | _ => cases detaches

theorem step_of {next : Registry} (apart : operation.attaches v = false) (none : r.of v = [])
    (h : r.step operation = some next) : next.of v = [] := by
  cases operation with
  | registerModel type builder =>
    cases h
    exact none
  | modelOf type =>
    cases h
    exact none
  | createVM =>
    cases h
    exact none
  | notifyBind w onAttach =>
    have other : w ≠ v := by simpa [Operation.attaches] using apart
    simp only [Registry.step] at h
    split at h
    · exact (hooks_of other h).trans none
    · cases h
  | fireEvent m event value =>
    cases h
    exact none
  | notifyUnBind w onDetach =>
    by_cases same : w = v
    · exact step_detaches (by simpa [Operation.detaches] using same) h
    · simp only [Registry.step] at h
      split at h
      · obtain ⟨middle, hooks, rfl⟩ := Option.map_eq_some_iff.mp h
        rw [of_dismiss_other (Ne.symm same), hooks_of same hooks]
        exact none
      · cases h
  | destroy w =>
    by_cases same : w = v
    · exact step_detaches (by simpa [Operation.detaches] using same) h
    · simp only [Registry.step] at h
      split at h <;> cases h
      exact (of_dismiss_other (Ne.symm same)).trans none
  | act w action =>
    simp only [Registry.step] at h
    split at h <;> cases h
    exact none

theorem run_of {next : Registry} (apart : ∀ operation ∈ operations, operation.attaches v = false)
    (none : r.of v = []) (h : run Registry.step r operations = some next) : next.of v = [] := by
  induction operations generalizing r with
  | nil =>
    cases h
    exact none
  | cons operation rest ih =>
    obtain ⟨middle, first, remaining⟩ := run_cons.mp h
    exact ih (fun later member => apart later (List.mem_cons_of_mem _ member))
      (step_of (apart operation List.mem_cons_self) none first) remaining

theorem represents_free (represents : Represents r s) (none : r.of v = []) (m id : Nat) :
    ¬ Holds s m v id := by
  rintro ⟨event, info, member, his, rfl⟩
  have delegated : Delegated r.subscriptions s := represents.delegates
  obtain ⟨x, listed, rfl, rfl, rfl⟩ := delegated_mem delegated member
  have mine : x ∈ r.of v :=
    List.mem_filter.mpr ⟨listed, by simpa [Subscription.isOf, Subscription.info] using his⟩
  rw [none] at mine
  cases mine

/-! ### A view that was unbound -/

/-- The view model exists or has existed, and if it is alive its view is not bound. -/
structure Muted (v : Nat) (s : State) : Prop where
  old : v < s.created
  unbound : ∀ viewModel, s.viewModels v = some viewModel →
    viewModel.propertyChangedDelegate = false ∧ viewModel.eventFiredDelegate = false

/-- Muted, and nothing has reached the view that had not reached it in `s`. -/
def Hushed (v : Nat) (s t : State) : Prop := Muted v t ∧ seen v t = seen v s

section Hushed

variable {u : State} {w : Nat}

theorem hushed_frame (hushed : Hushed v s t) (created : u.created = t.created)
    (viewModels : u.viewModels = t.viewModels) (shown : u.shown = t.shown) : Hushed v s u := by
  obtain ⟨⟨old, unbound⟩, same⟩ := hushed
  refine ⟨⟨by rwa [created], by rwa [viewModels]⟩, ?_⟩
  rw [seen, shown]
  exact same

theorem act_hushed (hushed : Hushed v s t) (action : ViewAction) : Hushed v s (t.act w action) := by
  unfold State.act
  split
  · rename_i viewModel found
    split
    · rename_i reaches
      refine ⟨⟨hushed.1.old, hushed.1.unbound⟩, ?_⟩
      have other : w ≠ v := by
        rintro rfl
        obtain ⟨noProperty, noEvent⟩ := hushed.1.unbound viewModel found
        cases action with
        | setProperty property value =>
          rw [ViewModel.reaches, noProperty] at reaches
          cases reaches
        | fireEvent event value =>
          rw [ViewModel.reaches, noEvent] at reaches
          cases reaches
      show (t.shown ++ [(w, action)]).filter _ = seen v s
      rw [List.filter_append, List.filter_cons_of_neg (by simpa using other), List.filter_nil,
        List.append_nil]
      exact hushed.2
    · exact hushed
  · exact hushed

theorem acts_hushed (hushed : Hushed v s t) (actions : List ViewAction) :
    Hushed v s (actions.foldl (State.act w) t) := by
  induction actions generalizing t with
  | nil => exact hushed
  | cons action rest ih => exact ih (act_hushed hushed action)

theorem calls_hushed (hushed : Hushed v s t) (value : Bytes)
    (delegates : List SuscribeEventDelegateInfo) :
    Hushed v s (delegates.foldl (State.call react event value) t) := by
  induction delegates generalizing t with
  | nil => exact hushed
  | cons info rest ih =>
    apply ih
    apply acts_hushed
    exact hushed_frame hushed rfl rfl rfl

theorem setViewModel_hushed (hushed : Hushed v s t) {f : ViewModel → ViewModel}
    (mutes : ∀ viewModel, viewModel.propertyChangedDelegate = false ∧
      viewModel.eventFiredDelegate = false → (f viewModel).propertyChangedDelegate = false ∧
      (f viewModel).eventFiredDelegate = false) :
    Hushed v s (t.setViewModel w f) := by
  refine ⟨⟨hushed.1.old, ?_⟩, hushed.2⟩
  intro viewModel found
  rcases setViewModel_cases found with ⟨_, before, there, rfl⟩ | ⟨_, there⟩
  · exact mutes before (hushed.1.unbound before there)
  · exact hushed.1.unbound viewModel there

theorem modelOf_hushed (hushed : Hushed v s t) (type : Int) : Hushed v s (t.modelOf type).2 := by
  obtain ⟨models, same⟩ := modelOf_frame t type
  rw [same]
  exact hushed_frame hushed rfl rfl rfl

theorem subscrieEvent_hushed {subscription : Int × Nat} (hushed : Hushed v s t)
    (h : t.subscrieEvent w m type subscription = some u) : Hushed v s u := by
  simp only [State.subscrieEvent, State.subscribeEvent] at h
  split at h <;> cases h
  refine setViewModel_hushed ?_ fun _ muted => muted
  exact hushed_frame hushed rfl rfl rfl

theorem hook_hushed {hook : Hook} (hushed : Hushed v s t) (h : t.hook w hook = some u) :
    Hushed v s u := by
  cases hook with
  | act action =>
    cases h
    exact act_hushed hushed action
  | subscrie block =>
    simp only [State.hook, State.subscrie] at h
    have looked := modelOf_hushed hushed block.modelType
    cases called : t.modelOf block.modelType with
    | mk model after =>
      rw [called] at h looked
      cases model with
      | none =>
        cases h
        exact looked
      | some m => exact run_keeps (fun _ _ _ hushed moved => subscrieEvent_hushed hushed moved) looked h

theorem hooks_hushed {hooks : List Hook} (hushed : Hushed v s t)
    (h : run (State.hook w) t hooks = some u) :
    Hushed v s u :=
  run_keeps (fun _ _ _ hushed moved => hook_hushed hushed moved) hushed h

theorem unSubscrie_frame (items : List (Nat × Int)) :
    ∃ models objects, items.foldl State.unSubscrie s =
      { s with models := models, objects := objects } := by
  induction items generalizing s with
  | nil => exact ⟨s.models, s.objects, rfl⟩
  | cons item rest ih =>
    have first : ∃ models objects, s.unSubscrie item =
        { s with models := models, objects := objects } := by
      obtain ⟨models, same⟩ := modelOf_frame s item.2
      unfold State.unSubscrie
      cases called : s.modelOf item.2 with
      | mk model after =>
        rw [called] at same
        subst same
        cases model with
        | none => exact ⟨models, s.objects, rfl⟩
        | some m => exact ⟨models, _, rfl⟩
    obtain ⟨models, objects, same⟩ := first
    rw [List.foldl_cons, same]
    exact ih

theorem unSubscrieAllEvent_hushed (hushed : Hushed v s t) (w : Nat) :
    Hushed v s (t.unSubscrieAllEvent w) := by
  unfold State.unSubscrieAllEvent
  split
  · rename_i viewModel _
    obtain ⟨models, objects, same⟩ := unSubscrie_frame (s := t) viewModel.subscribeIds.entries
    rw [same]
    refine setViewModel_hushed ?_ fun _ muted => muted
    exact hushed_frame hushed rfl rfl rfl
  · exact hushed

theorem destroy_hushed (hushed : Hushed v s t) (w : Nat) : Hushed v s (t.destroy w) := by
  have left := unSubscrieAllEvent_hushed hushed w
  refine ⟨⟨left.1.old, ?_⟩, left.2⟩
  intro viewModel found
  change Function.update (t.unSubscrieAllEvent w).viewModels w none v = some viewModel at found
  rw [Function.update_apply] at found
  split at found
  · cases found
  · exact left.1.unbound viewModel found

theorem step_hushed (hushed : Hushed v s t) (h : step react t operation = some u) :
    Hushed v s u := by
  cases operation with
  | registerModel type builder =>
    cases h
    exact hushed_frame hushed rfl rfl rfl
  | modelOf type =>
    cases h
    exact modelOf_hushed hushed type
  | createVM =>
    cases h
    refine ⟨⟨Nat.lt_succ_of_lt hushed.1.old, ?_⟩, hushed.2⟩
    intro viewModel found
    change Function.update t.viewModels t.created (some {}) v = some viewModel at found
    rw [Function.update_of_ne (Nat.ne_of_lt hushed.1.old)] at found
    exact hushed.1.unbound viewModel found
  | notifyBind w onAttach =>
    simp only [step] at h
    split at h
    · exact hooks_hushed hushed h
    · cases h
  | fireEvent m event value =>
    cases h
    rw [fireEvent_eq]
    exact calls_hushed hushed value _
  | notifyUnBind w onDetach =>
    simp only [step] at h
    split at h
    · obtain ⟨middle, hooks, rfl⟩ := Option.map_eq_some_iff.mp h
      apply unSubscrieAllEvent_hushed
      apply hooks_hushed _ hooks
      exact setViewModel_hushed hushed fun _ _ => ⟨rfl, rfl⟩
    · cases h
  | destroy w =>
    simp only [step] at h
    split at h <;> cases h
    exact destroy_hushed hushed w
  | act w action =>
    simp only [step] at h
    split at h <;> cases h
    exact act_hushed hushed action

theorem run_hushed (hushed : Hushed v s t) (h : run (step react) t operations = some u) :
    Hushed v s u :=
  run_keeps (fun _ _ _ hushed moved => step_hushed hushed moved) hushed h

theorem unSubscrieAllEvent_logs (v : Nat) :
    (s.unSubscrieAllEvent v).shown = s.shown ∧ (s.unSubscrieAllEvent v).created = s.created := by
  unfold State.unSubscrieAllEvent
  split
  · rename_i viewModel _
    obtain ⟨models, objects, same⟩ := unSubscrie_frame (s := s) viewModel.subscribeIds.entries
    rw [same]
    exact ⟨rfl, rfl⟩
  · exact ⟨rfl, rfl⟩

/-- The operation that detaches a view model unbinds its view before anything else, or is the end of
the view model. -/
theorem detaches_hushed (old : v < s.created) (detaches : operation.detaches v = true)
    (h : step react s operation = some t) : Hushed v s t := by
  cases operation with
  | notifyUnBind w onDetach =>
    obtain rfl : w = v := by simpa [Operation.detaches] using detaches
    simp only [step] at h
    split at h
    · obtain ⟨middle, hooks, rfl⟩ := Option.map_eq_some_iff.mp h
      apply unSubscrieAllEvent_hushed
      refine hooks_hushed ?_ hooks
      refine ⟨⟨old, ?_⟩, rfl⟩
      intro viewModel found
      change Function.update s.viewModels w ((s.viewModels w).map _) w = some viewModel at found
      rw [Function.update_self] at found
      obtain ⟨before, _, rfl⟩ := Option.map_eq_some_iff.mp found
      exact ⟨rfl, rfl⟩
    · cases h
  | destroy w =>
    obtain rfl : w = v := by simpa [Operation.detaches] using detaches
    simp only [step] at h
    split at h <;> cases h
    obtain ⟨shown, created⟩ := unSubscrieAllEvent_logs (s := s) w
    refine ⟨⟨?_, ?_⟩, ?_⟩
    · show w < (s.unSubscrieAllEvent w).created
      rwa [created]
    · intro viewModel found
      change Function.update (s.unSubscrieAllEvent w).viewModels w none w = some viewModel at found
      rw [Function.update_self] at found
      cases found
    · show (s.unSubscrieAllEvent w).shown.filter _ = _
      rw [shown]
      rfl
  | _ => cases detaches

end Hushed

theorem detaches_live (represents : Represents r s) (detaches : operation.detaches v = true)
    (h : step react s operation = some t) : r.live v = true := by
  rw [← represents.live]
  cases operation with
  | notifyUnBind w onDetach =>
    obtain rfl : w = v := by simpa [Operation.detaches] using detaches
    simp only [step] at h
    split at h
    · rename_i live
      exact live
    · cases h
  | destroy w =>
    obtain rfl : w = v := by simpa [Operation.detaches] using detaches
    simp only [step] at h
    split at h
    · rename_i live
      exact live
    · cases h
  | _ => cases detaches

/-- In every run, the maps of the layer agree with the list of the subscriptions in force. -/
theorem subscriptions_kept (h : run (step react) {} operations = some s) :
    ∃ r, run Registry.step {} operations = some r ∧ Bookkeeping react r s := by
  obtain ⟨r, reached, represents⟩ := run_represents initial_represents h
  refine ⟨r, reached, ?_, ?_, ?_, ?_, ?_, ?_, ?_⟩
  · rw [represents.issued]
    exact List.nodup_range'
  · exact fun m n event other i j info info' => represents_distinct represents
  · intro v viewModel found id type unique
    refine ⟨represents_backed represents found, ?_⟩
    rintro ⟨m, cached, held⟩
    exact represents_listed represents found unique cached held
  · exact fun v viewModel found id type => represents_backed represents found
  · intro m event value
    rw [fireEvent_calls, represents.delegates, List.map_map]
    rfl
  · intro m event x member
    rw [represents.live]
    exact represents.served x (List.mem_of_mem_filter member)
  · intro v operation t detaches stepped later u reached
    obtain ⟨next, moved, related⟩ := step_represents represents stepped
    have old : v < s.created := by
      rw [represents.created]
      exact represents.young v (detaches_live represents detaches stepped)
    refine ⟨(run_hushed (detaches_hushed old detaches stepped) reached).2, ?_⟩
    intro apart
    obtain ⟨final, ended, related⟩ := run_represents related reached
    exact represents_free related (run_of apart (step_detaches detaches moved) ended)

/-- Two models and two view models. The first view model subscribes to events of both models, and is
destroyed. -/
def twoViews : List Operation :=
  [.registerModel 1 (some 0), .registerModel 2 (some 1), .createVM, .createVM,
    .notifyBind 0 [.subscrie ⟨1, [(5, 0), (6, 1)]⟩, .subscrie ⟨2, [(5, 2)]⟩], .notifyBind 1 [.subscrie ⟨1, [(5, 3)]⟩],
    .fireEvent 0 5 [7], .destroy 0, .fireEvent 0 5 [8]]

theorem subscriptions_kept_twoViews :
    ∃ s r, run (step fun _ _ _ => []) {} twoViews = some s ∧
      s.calls = [⟨⟨⟨0, 0⟩, 1⟩, 5, [7]⟩, ⟨⟨⟨1, 3⟩, 4⟩, 5, [7]⟩, ⟨⟨⟨1, 3⟩, 4⟩, 5, [8]⟩] ∧
      run Registry.step {} twoViews = some r ∧ Bookkeeping (fun _ _ _ => []) r s := by
  have reached : ∃ s, run (step fun _ _ _ => []) {} twoViews = some s ∧
      s.calls = [⟨⟨⟨0, 0⟩, 1⟩, 5, [7]⟩, ⟨⟨⟨1, 3⟩, 4⟩, 5, [7]⟩, ⟨⟨⟨1, 3⟩, 4⟩, 5, [8]⟩] := ⟨_, rfl, rfl⟩
  obtain ⟨s, reached, calls⟩ := reached
  obtain ⟨r, same, kept⟩ := subscriptions_kept reached
  exact ⟨s, r, reached, calls, same, kept⟩

end Kingkong.Mvvm
