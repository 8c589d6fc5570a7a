import Kingkong.Lib.Run
import Kingkong.Lib.Bytes
import Kingkong.Lib.OrderedMap
import Mathlib.Data.Int.Order.Basic
import Mathlib.Data.Nat.Basic
import Mathlib.Logic.Function.Basic

/-!
The MVVM layer: models with their subscriptions, the static table of models, and view models with
the ids that they subscribed under. Models and view models are numbered. A builder stands for the
model that it returns, and every model starts without subscriptions. `value` is a protobuf message.
-/

namespace Kingkong.Mvvm
open Lib

/-! ### Models -/

/-- What `std::bind(func, this, …)` holds. -/
structure SuscribeEventDelegate where
  viewModel : Nat
  func : Nat
  deriving DecidableEq

structure SuscribeEventDelegateInfo where
  delegate : SuscribeEventDelegate
  id : Nat
  deriving DecidableEq

structure Model where
  eventDelegate : OrderedMap Int (List SuscribeEventDelegateInfo) := .empty

namespace Model

def delegates (model : Model) (event : Int) : List SuscribeEventDelegateInfo :=
  (model.eventDelegate.find? event).getD []

def subscribeEvent (model : Model) (event : Int) (info : SuscribeEventDelegateInfo) : Model where
  eventDelegate := model.eventDelegate.insert event (model.delegates event ++ [info])

/-- Goes through the events until it meets `id`, and stops there. -/
def unSubscribeEvent (model : Model) (id : Nat) : Model :=
  match model.eventDelegate.entries.find? fun entry => entry.2.any fun info => info.id == id with
  | some (event, delegates) =>
    { eventDelegate := model.eventDelegate.insert event (delegates.eraseP fun info => info.id == id) }
  | none => model

end Model

/-! ### View models -/

/-- `propertyChangedDelegate` and `eventFiredDelegate` tell whether the view is still bound. -/
structure ViewModel where
  propertyChangedDelegate : Bool := true
  eventFiredDelegate : Bool := true
  subscribeIds : OrderedMap Nat Int := .empty

/-- What a view model tells its view: `SetProperty`, and `FireEvent` or `RouteEventToUI`. -/
inductive ViewAction where
  | setProperty (property : Int) (value : Bytes)
  | fireEvent (event : Int) (value : Bytes)
  deriving DecidableEq

def ViewModel.reaches (viewModel : ViewModel) : ViewAction → Bool
  | .setProperty _ _ => viewModel.propertyChangedDelegate
  | .fireEvent _ _ => viewModel.eventFiredDelegate

/-- `BEGIN_SUBSCRIE_EVENT(modelType)`, with a `SUBSCRIE_EVENT` for each event and function. -/
structure Block where
  modelType : Int
  events : List (Int × Nat)

/-- What `OnAttach` and `OnDetach` do. -/
inductive Hook where
  | subscrie (block : Block)
  | act (action : ViewAction)

/-- The call of a delegate. -/
structure Call where
  info : SuscribeEventDelegateInfo
  event : Int
  value : Bytes
  deriving DecidableEq

/-- `viewModels` has the view models that are alive, of the `created` ones. `issued` has the ids
that `SubscribeEvent` returned, `calls` the calls of delegates and `shown` what reached the view of
which view model, each in order. -/
structure State where
  modelBuilder : OrderedMap Int (Option Nat) := .empty
  models : OrderedMap Int (Option Nat) := .empty
  objects : Nat → Model := fun _ => {}
  suscribeId : Nat := 0
  viewModels : Nat → Option ViewModel := fun _ => none
  created : Nat := 0
  issued : List Nat := []
  calls : List Call := []
  shown : List (Nat × ViewAction) := []

def int64Bound : Nat := 2 ^ 63

namespace State

def registerModel (s : State) (type : Int) (builder : Option Nat) : State :=
  { s with modelBuilder := s.modelBuilder.insert type builder }

/-- The model, or null, and the table with it. A builder is called once for its type. -/
def modelOf (s : State) (type : Int) : Option Nat × State :=
  match s.models.find? type with
  | some model => (model, s)
  | none =>
    match s.modelBuilder.find? type with
    | none => (none, s)
    | some model => (model, { s with models := s.models.insert type model })

/-- There is no next state when `++s_suscribe_id_` leaves `int64_t`. -/
def subscribeEvent (s : State) (m : Nat) (event : Int) (delegate : SuscribeEventDelegate) :
    Option (Nat × State) :=
  let id := s.suscribeId + 1
  if id < int64Bound then
    some (id, { s with
      suscribeId := id
      objects := Function.update s.objects m ((s.objects m).subscribeEvent event ⟨delegate, id⟩)
      issued := s.issued ++ [id] })
  else none

def unSubscribeEvent (s : State) (m : Nat) (id : Nat) : State :=
  { s with objects := Function.update s.objects m ((s.objects m).unSubscribeEvent id) }

def setViewModel (s : State) (v : Nat) (f : ViewModel → ViewModel) : State :=
  { s with viewModels := Function.update s.viewModels v ((s.viewModels v).map f) }

/-- `SUBSCRIE_EVENT(event, func)` between the other two macros. -/
def subscrieEvent (v m : Nat) (type : Int) (s : State) (subscription : Int × Nat) : Option State :=
  (s.subscribeEvent m subscription.1 ⟨v, subscription.2⟩).map fun (id, s) =>
    s.setViewModel v fun viewModel => { viewModel with subscribeIds := viewModel.subscribeIds.insert id type }

def subscrie (s : State) (v : Nat) (block : Block) : Option State :=
  match s.modelOf block.modelType with
  | (some m, s) => run (subscrieEvent v m block.modelType) s block.events
  | (none, s) => some s

def act (v : Nat) (s : State) (action : ViewAction) : State :=
  match s.viewModels v with
  | some viewModel => if viewModel.reaches action then { s with shown := s.shown ++ [(v, action)] } else s
  | none => s

def hook (v : Nat) (s : State) : Hook → Option State
  | .subscrie block => s.subscrie v block
  | .act action => some (s.act v action)

/-- The pass of the loop for one entry of `subscribe_ids_`. -/
def unSubscrie (s : State) (item : Nat × Int) : State :=
  match s.modelOf item.2 with
  | (some m, s) => s.unSubscribeEvent m item.1
  | (none, s) => s

def unSubscrieAllEvent (s : State) (v : Nat) : State :=
  match s.viewModels v with
  | some viewModel =>
    (viewModel.subscribeIds.entries.foldl unSubscrie s).setViewModel v fun viewModel =>
      { viewModel with subscribeIds := .empty }
  | none => s

/-- `ViewModel::Create` and the two bindings of the view. -/
def createVM (s : State) : State :=
  { s with viewModels := Function.update s.viewModels s.created (some {}), created := s.created + 1 }

def notifyBind (s : State) (v : Nat) (onAttach : List Hook) : Option State :=
  run (hook v) s onAttach

def notifyUnBind (s : State) (v : Nat) (onDetach : List Hook) : Option State :=
  let s := s.setViewModel v fun viewModel =>
    { viewModel with propertyChangedDelegate := false, eventFiredDelegate := false }
  (run (hook v) s onDetach).map fun s => s.unSubscrieAllEvent v

def destroy (s : State) (v : Nat) : State :=
  let s := s.unSubscrieAllEvent v
  { s with viewModels := Function.update s.viewModels v none }

/-- The call of a delegate. What it tells the view of its view model is up to the function. -/
def call (react : Nat → Int → Bytes → List ViewAction) (event : Int) (value : Bytes) (s : State)
    (info : SuscribeEventDelegateInfo) : State :=
  (react info.delegate.func event value).foldl (act info.delegate.viewModel)
    { s with calls := s.calls ++ [⟨info, event, value⟩] }

def fireEvent (react : Nat → Int → Bytes → List ViewAction) (s : State) (m : Nat) (event : Int)
    (value : Bytes) : State :=
  match (s.objects m).eventDelegate.find? event with
  | none => s
  | some delegates => delegates.foldl (call react event value) s

end State

inductive Operation where
  | registerModel (type : Int) (builder : Option Nat)
  | modelOf (type : Int)
  | createVM
  | notifyBind (v : Nat) (onAttach : List Hook)
  | fireEvent (m : Nat) (event : Int) (value : Bytes)
  | notifyUnBind (v : Nat) (onDetach : List Hook)
  | destroy (v : Nat)
  | act (v : Nat) (action : ViewAction)

/-- Nobody calls a view model that was not created or has been destroyed. -/
def step (react : Nat → Int → Bytes → List ViewAction) (s : State) : Operation → Option State
  | .registerModel type builder => some (s.registerModel type builder)
  | .modelOf type => some (s.modelOf type).2
  | .createVM => some s.createVM
  | .notifyBind v onAttach => if (s.viewModels v).isSome then s.notifyBind v onAttach else none
  | .fireEvent m event value => some (s.fireEvent react m event value)
  | .notifyUnBind v onDetach => if (s.viewModels v).isSome then s.notifyUnBind v onDetach else none
  | .destroy v => if (s.viewModels v).isSome then some (s.destroy v) else none
  | .act v action => if (s.viewModels v).isSome then some (s.act v action) else none

/-! ### The subscriptions of a model -/

namespace Model

variable {model : Model} {event other : Int} {info : SuscribeEventDelegateInfo} {id : Nat}

theorem delegates_subscribe : (model.subscribeEvent event info).delegates other =
    if other = event then model.delegates other ++ [info] else model.delegates other := by
  unfold subscribeEvent
  rw [delegates, OrderedMap.find_insert]
  split
  · rename_i here
    rw [here]
    rfl
  · rfl

theorem delegates_of_mem {delegates : List SuscribeEventDelegateInfo}
    (member : (event, delegates) ∈ model.eventDelegate.entries) :
    model.delegates event = delegates := by
  rw [Model.delegates, OrderedMap.find_of_mem member]
  rfl

/-- An id that stands under one event only is erased where it is. -/
theorem delegates_unSubscribe
    (single : ∀ event other, ∀ info ∈ model.delegates event, ∀ info' ∈ model.delegates other,
      info.id = id → info'.id = id → event = other)
    (event : Int) :
    (model.unSubscribeEvent id).delegates event = (model.delegates event).eraseP fun info =>
      info.id == id := by
  unfold unSubscribeEvent
  cases found : model.eventDelegate.entries.find? fun entry => entry.2.any fun info => info.id == id with
  | none =>
    refine (List.eraseP_of_forall_not ?_).symm
    intro info member named
    cases there : model.eventDelegate.find? event with
    | none =>
      rw [delegates, there] at member
      cases member
    | some delegates =>
      have listed := OrderedMap.mem_of_find there
      rw [delegates_of_mem listed] at member
      have missed := List.find?_eq_none.mp found _ listed
      exact missed (List.any_eq_true.mpr ⟨info, member, named⟩)
  | some entry =>
    obtain ⟨here, delegates⟩ := entry
    have listed := List.mem_of_find?_eq_some found
    obtain ⟨hit, _⟩ := List.find?_eq_some_iff_append.mp found
    obtain ⟨info, member, named⟩ := List.any_eq_true.mp hit
    simp only [Model.delegates, OrderedMap.find_insert]
    by_cases same : event = here
    · subst same
      rw [if_pos rfl, OrderedMap.find_of_mem listed]
      rfl
    · rw [if_neg same]
      refine (List.eraseP_of_forall_not ?_).symm
      intro info' member' named'
      rw [← Model.delegates_of_mem listed] at member
      exact same (single event here info' member' info member (by simpa using named') (by simpa using named))

end Model

theorem setViewModel_isSome (s : State) (v w : Nat) (f : ViewModel → ViewModel) :
    ((s.setViewModel v f).viewModels w).isSome = (s.viewModels w).isSome := by
  show (Function.update s.viewModels v ((s.viewModels v).map f) w).isSome = _
  rw [Function.update_apply]
  split
  · rename_i here
    rw [here, Option.isSome_map]
  · rfl

theorem setViewModel_cases {s : State} {v w : Nat} {f : ViewModel → ViewModel}
    {viewModel : ViewModel} (found : (s.setViewModel v f).viewModels w = some viewModel) :
    (w = v ∧ ∃ before, s.viewModels w = some before ∧ f before = viewModel) ∨
      w ≠ v ∧ s.viewModels w = some viewModel := by
  change Function.update s.viewModels v ((s.viewModels v).map f) w = some viewModel at found
  rw [Function.update_apply] at found
  split at found
  · rename_i here
    subst here
    exact .inl ⟨rfl, Option.map_eq_some_iff.mp found⟩
  · rename_i elsewhere
    exact .inr ⟨elsewhere, found⟩

/-- `ModelOf` changes the table of models only. -/
theorem modelOf_frame (s : State) (type : Int) :
    ∃ models, (s.modelOf type).2 = { s with models := models } := by
  unfold State.modelOf
  split
  · exact ⟨s.models, rfl⟩
  · split
    · exact ⟨s.models, rfl⟩
    · exact ⟨_, rfl⟩

theorem fireEvent_eq (react : Nat → Int → Bytes → List ViewAction) (s : State) (m : Nat)
    (event : Int) (value : Bytes) :
    s.fireEvent react m event value =
      ((s.objects m).delegates event).foldl (State.call react event value) s := by
  unfold State.fireEvent Model.delegates
  cases (s.objects m).eventDelegate.find? event <;> rfl

end Kingkong.Mvvm
