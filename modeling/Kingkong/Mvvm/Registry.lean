import Kingkong.Mvvm.Model
import Mathlib.Data.List.Nodup

/-!
What the MVVM layer keeps in three kinds of maps is one list: the subscriptions that are in force,
in the order in which they were made. A view model adds to it when it is bound, and takes everything
of its own away when it is unbound or destroyed.
-/

namespace Kingkong.Mvvm
open Lib

structure Subscription where
  id : Nat
  model : Nat
  event : Int
  delegate : SuscribeEventDelegate
  modelType : Int
  deriving DecidableEq

namespace Subscription

def info (x : Subscription) : SuscribeEventDelegateInfo := ⟨x.delegate, x.id⟩

def entry (x : Subscription) : Nat × Int := (x.id, x.modelType)

def isAt (m : Nat) (event : Int) (x : Subscription) : Bool := x.model == m && x.event == event

def isOf (v : Nat) (x : Subscription) : Bool := x.delegate.viewModel == v

end Subscription

/-- Later subscriptions have larger ids. -/
structure Registry where
  builders : Int → Option (Option Nat) := fun _ => none
  models : Int → Option (Option Nat) := fun _ => none
  live : Nat → Bool := fun _ => false
  created : Nat := 0
  last : Nat := 0
  subscriptions : List Subscription := []
  ordered : subscriptions.Pairwise fun x y => x.id < y.id := by exact List.Pairwise.nil
  bounded : ∀ x ∈ subscriptions, x.id ≤ last := by exact fun _ member => absurd member List.not_mem_nil

namespace Registry

def subscribed (r : Registry) (m : Nat) (event : Int) : List Subscription :=
  r.subscriptions.filter (Subscription.isAt m event)

def of (r : Registry) (v : Nat) : List Subscription := r.subscriptions.filter (Subscription.isOf v)

/-- The entry that a type has after `ModelOf`. -/
def entryOf (r : Registry) (type : Int) : Option (Option Nat) :=
  (r.models type).or (r.builders type)

def modelOf (r : Registry) (type : Int) : Registry :=
  { r with models := Function.update r.models type (r.entryOf type) }

def subscribe (r : Registry) (m : Nat) (event : Int) (delegate : SuscribeEventDelegate)
    (type : Int) :
    Registry :=
  { r with
    last := r.last + 1
    subscriptions := r.subscriptions ++ [⟨r.last + 1, m, event, delegate, type⟩]
    ordered := by
      refine List.pairwise_append.mpr ⟨r.ordered, List.pairwise_singleton _ _, ?_⟩
      intro x member y last
      rw [List.mem_singleton.mp last]
      exact Nat.lt_succ_of_le (r.bounded x member)
    bounded := by
      intro x member
      rcases List.mem_append.mp member with old | new
      · exact Nat.le_succ_of_le (r.bounded x old)
      · rw [List.mem_singleton.mp new] }

def dismiss (r : Registry) (v : Nat) : Registry :=
  { r with
    subscriptions := r.subscriptions.filter fun x => !x.isOf v
    ordered := r.ordered.sublist List.filter_sublist
    bounded := fun x member => r.bounded x (List.mem_of_mem_filter member) }

def subscrieEvent (v m : Nat) (type : Int) (r : Registry) (subscription : Int × Nat) :
    Option Registry :=
  if r.last + 1 < int64Bound then some (r.subscribe m subscription.1 ⟨v, subscription.2⟩ type) else none

def subscrie (r : Registry) (v : Nat) (block : Block) : Option Registry :=
  match (r.entryOf block.modelType).join with
  | some m => run (subscrieEvent v m block.modelType) (r.modelOf block.modelType) block.events
  | none => some (r.modelOf block.modelType)

def hook (v : Nat) (r : Registry) : Hook → Option Registry
  | .subscrie block => r.subscrie v block
  | .act _ => some r

def step (r : Registry) : Operation → Option Registry
  | .registerModel type builder => some { r with builders := Function.update r.builders type (some builder) }
  | .modelOf type => some (r.modelOf type)
  | .createVM => some { r with live := Function.update r.live r.created true, created := r.created + 1 }
  | .notifyBind v onAttach => if r.live v then run (hook v) r onAttach else none
  | .fireEvent _ _ _ => some r
  | .notifyUnBind v onDetach => if r.live v then (run (hook v) r onDetach).map fun r => r.dismiss v else none
  | .destroy v => if r.live v then some { r.dismiss v with live := Function.update r.live v false } else none
  | .act v _ => if r.live v then some r else none

end Registry

/-! ### Representation -/

structure Represents (r : Registry) (s : State) : Prop where
  builders : ∀ type, s.modelBuilder.find? type = r.builders type
  models : ∀ type, s.models.find? type = r.models type
  last : s.suscribeId = r.last
  issued : s.issued = List.range' 1 r.last
  created : s.created = r.created
  live : ∀ v, (s.viewModels v).isSome = r.live v
  young : ∀ v, r.live v = true → v < r.created
  resolved : ∀ x ∈ r.subscriptions, r.models x.modelType = some (some x.model)
  served : ∀ x ∈ r.subscriptions, r.live x.delegate.viewModel = true
  delegates : ∀ m event, (s.objects m).delegates event = (r.subscribed m event).map Subscription.info
  entries : ∀ v viewModel, s.viewModels v = some viewModel →
    viewModel.subscribeIds.entries = (r.of v).map Subscription.entry

variable {r : Registry} {s t : State} {v m : Nat} {type event : Int}

theorem initial_represents : Represents {} {} := by
  refine ⟨fun _ => rfl, fun _ => rfl, rfl, rfl, rfl, fun _ => rfl, ?_, ?_, ?_, fun _ _ => rfl, ?_⟩
  · intro v live
    cases live
  · intro x member
    cases member
  · intro x member
    cases member
  · intro v viewModel found
    cases found

/-! ### The operations that subscribe nothing -/

theorem registerModel_represents (represents : Represents r s) (type : Int) (builder : Option Nat) :
    Represents { r with builders := Function.update r.builders type (some builder) } (s.registerModel type builder) := by
  refine ⟨?_, represents.models, represents.last, represents.issued, represents.created,
    represents.live, represents.young, represents.resolved, represents.served, represents.delegates,
    represents.entries⟩
  intro other
  show (s.modelBuilder.insert type builder).find? other =
      Function.update r.builders type (some builder) other
  rw [OrderedMap.find_insert, Function.update_apply, represents.builders]

theorem entryOf_of_models {entry : Option Nat} (there : r.models type = some entry) :
    r.entryOf type = some entry := by
  rw [Registry.entryOf, there, Option.some_or]

theorem modelOf_represents (represents : Represents r s) (type : Int) :
    (s.modelOf type).1 = (r.entryOf type).join ∧
      Represents (r.modelOf type) (s.modelOf type).2 := by
  have resolved : ∀ x ∈ r.subscriptions, (r.modelOf type).models x.modelType =
      some (some x.model) := by
    intro x member
    have there := represents.resolved x member
    show Function.update r.models type (r.entryOf type) x.modelType = _
    rw [Function.update_apply]
    split
    · rename_i here
      rw [here] at there
      exact entryOf_of_models there
    · exact there
  have kept : ∀ {models : OrderedMap Int (Option Nat)},
      (∀ other, models.find? other = (r.modelOf type).models other) →
      Represents (r.modelOf type) { s with models := models } := fun found =>
    ⟨represents.builders, found, represents.last, represents.issued, represents.created, represents.live,
      represents.young, resolved, represents.served, represents.delegates, represents.entries⟩
  unfold State.modelOf
  rw [represents.models, represents.builders]
  cases cached : r.models type with
  | some entry =>
    refine ⟨by rw [entryOf_of_models cached]; rfl, kept fun other => ?_⟩
    rw [represents.models]
    show _ = Function.update r.models type (r.entryOf type) other
    rw [entryOf_of_models cached, ← cached, Function.update_eq_self]
  | none =>
    have entry : r.entryOf type = r.builders type := by
      rw [Registry.entryOf, cached, Option.none_or]
    cases built : r.builders type with
    | none =>
      refine ⟨by rw [entry, built]; rfl, kept fun other => ?_⟩
      rw [represents.models]
      show _ = Function.update r.models type (r.entryOf type) other
      rw [entry, built, ← cached, Function.update_eq_self]
    | some model =>
      refine ⟨by rw [entry, built]; rfl, kept fun other => ?_⟩
      show _ = Function.update r.models type (r.entryOf type) other
      rw [OrderedMap.find_insert, Function.update_apply, entry, built, represents.models]

theorem modelOf_cached {answer : Option Nat} (cached : s.models.find? type = some answer) :
    s.modelOf type = (answer, s) := by
  simp only [State.modelOf, cached]

theorem createVM_represents (represents : Represents r s) :
    Represents
      { r with
        live := Function.update r.live r.created true
        created := r.created + 1 } s.createVM := by
  refine ⟨represents.builders, represents.models, represents.last, represents.issued, ?_, ?_, ?_,
    represents.resolved, ?_, represents.delegates, ?_⟩
  · show s.created + 1 = _
    rw [represents.created]
  · intro v
    show (Function.update s.viewModels s.created (some {}) v).isSome =
        Function.update r.live r.created true v
    rw [represents.created, Function.update_apply, Function.update_apply]
    split
    · rfl
    · exact represents.live v
  · intro v live
    change Function.update r.live r.created true v = true at live
    rw [Function.update_apply] at live
    split at live
    · rename_i here
      rw [here]
      exact Nat.lt_succ_self _
    · exact Nat.lt_succ_of_lt (represents.young v live)
  · intro x member
    show Function.update r.live r.created true x.delegate.viewModel = true
    rw [Function.update_apply]
    split
    · rfl
    · exact represents.served x member
  · intro v viewModel found
    change Function.update s.viewModels s.created (some {}) v = some viewModel at found
    rw [represents.created, Function.update_apply] at found
    split at found
    · rename_i here
      cases found
      -- Nobody has subscribed for a view model that did not exist.
      refine (List.map_eq_nil_iff.mpr (List.filter_eq_nil_iff.mpr ?_)).symm
      intro x member mine
      have live := represents.young _ (represents.served x member)
      have same : x.delegate.viewModel = v := by simpa [Subscription.isOf] using mine
      omega
    · exact represents.entries v viewModel found

theorem logs_represents (represents : Represents r s) (calls : List Call)
    (shown : List (Nat × ViewAction)) :
    Represents r { s with calls := calls, shown := shown } :=
  ⟨represents.builders, represents.models, represents.last, represents.issued, represents.created, represents.live,
    represents.young, represents.resolved, represents.served, represents.delegates, represents.entries⟩

theorem act_represents (represents : Represents r s) (v : Nat) (action : ViewAction) :
    Represents r (s.act v action) := by
  unfold State.act
  split
  · split
    · exact logs_represents represents _ _
    · exact represents
  · exact represents

theorem acts_represents (represents : Represents r s) (v : Nat) (actions : List ViewAction) :
    Represents r (actions.foldl (State.act v) s) := by
  induction actions generalizing s with
  | nil => exact represents
  | cons action rest ih => exact ih (act_represents represents v action)

theorem calls_represents (react : Nat → Int → Bytes → List ViewAction) (represents : Represents r s)
    (event : Int) (value : Bytes) (delegates : List SuscribeEventDelegateInfo) :
    Represents r (delegates.foldl (State.call react event value) s) := by
  induction delegates generalizing s with
  | nil => exact represents
  | cons info rest ih =>
    apply ih
    apply acts_represents
    exact logs_represents represents _ _

theorem fireEvent_represents (react : Nat → Int → Bytes → List ViewAction)
    (represents : Represents r s) (m : Nat) (event : Int) (value : Bytes) :
    Represents r (s.fireEvent react m event value) := by
  rw [fireEvent_eq]
  exact calls_represents react represents event value _

/-! ### Subscribing -/

theorem subscribed_subscribe (x : SuscribeEventDelegate) (m n : Nat) (event other : Int)
    (type : Int) :
    (r.subscribe m event x type).subscribed n other =
      if m = n ∧ event = other then r.subscribed n other ++ [⟨r.last + 1, m, event, x, type⟩]
      else r.subscribed n other := by
  show (r.subscriptions ++ [_]).filter (Subscription.isAt n other) = _
  rw [List.filter_append]
  split
  · rename_i here
    simp [Registry.subscribed, Subscription.isAt, here]
  · rename_i elsewhere
    have apart : Subscription.isAt n other ⟨r.last + 1, m, event, x, type⟩ = false := by
      simpa [Subscription.isAt] using elsewhere
    rw [List.filter_cons_of_neg (by simp [apart]), List.filter_nil, List.append_nil]
    rfl

theorem of_subscribe (x : SuscribeEventDelegate) (m v : Nat) (event : Int) (type : Int) :
    (r.subscribe m event x type).of v =
      if x.viewModel = v then r.of v ++ [⟨r.last + 1, m, event, x, type⟩] else r.of v := by
  show (r.subscriptions ++ [_]).filter (Subscription.isOf v) = _
  rw [List.filter_append]
  split
  · rename_i here
    simp [Registry.of, Subscription.isOf, here]
  · rename_i elsewhere
    have apart : Subscription.isOf v ⟨r.last + 1, m, event, x, type⟩ = false := by
      simpa [Subscription.isOf] using elsewhere
    rw [List.filter_cons_of_neg (by simp [apart]), List.filter_nil, List.append_nil]
    rfl

theorem subscribe_represents (represents : Represents r s)
    (resolved : r.models type = some (some m)) (live : r.live v = true) {subscription : Int × Nat}
    (h : s.subscrieEvent v m type subscription = some t) :
    ∃ next, r.subscrieEvent v m type subscription = some next ∧ Represents next t ∧
      next.models = r.models ∧ next.live = r.live := by
  obtain ⟨event, func⟩ := subscription
  simp only [State.subscrieEvent, State.subscribeEvent] at h
  split at h
  swap
  · cases h
  rename_i room
  cases h
  rw [represents.last] at room
  refine ⟨r.subscribe m event ⟨v, func⟩ type,
    by simp only [Registry.subscrieEvent, if_pos room], ?_, rfl, rfl⟩
  refine ⟨represents.builders, represents.models, ?_, ?_, represents.created, ?_, represents.young,
    ?_, ?_, ?_, ?_⟩
  · show s.suscribeId + 1 = r.last + 1
    rw [represents.last]
  · show s.issued ++ [s.suscribeId + 1] = List.range' 1 (r.last + 1)
    rw [represents.issued, represents.last, List.range'_concat, Nat.one_mul, Nat.add_comm 1]
  · intro w
    rw [setViewModel_isSome]
    exact represents.live w
  · intro x member
    rcases List.mem_append.mp member with old | new
    · exact represents.resolved x old
    · rw [List.mem_singleton.mp new]
      exact resolved
  · intro x member
    rcases List.mem_append.mp member with old | new
    · exact represents.served x old
    · rw [List.mem_singleton.mp new]
      exact live
  · intro n other
    rw [subscribed_subscribe]
    show (Function.update s.objects m _ n).delegates other = _
    rw [Function.update_apply]
    by_cases here : n = m
    · subst here
      rw [if_pos rfl, Model.delegates_subscribe, represents.delegates]
      by_cases same : other = event
      · rw [if_pos same, if_pos ⟨rfl, same.symm⟩, List.map_append, represents.last]
        rfl
      · rw [if_neg same, if_neg fun both => same both.2.symm]
    · rw [if_neg here, if_neg fun both => here both.1.symm]
      exact represents.delegates n other
  · intro w viewModel found
    rw [of_subscribe]
    rcases setViewModel_cases found with ⟨rfl, before, there, rfl⟩ | ⟨elsewhere, there⟩
    · rw [if_pos rfl, List.map_append, ← represents.entries w before there, represents.last]
      apply OrderedMap.insert_last
      intro entry member
      rw [represents.entries w before there] at member
      obtain ⟨x, mine, rfl⟩ := List.mem_map.mp member
      exact Nat.lt_succ_of_le (r.bounded x (List.mem_of_mem_filter mine))
    · rw [if_neg fun same => elsewhere same.symm]
      exact represents.entries w viewModel there

theorem block_represents {events : List (Int × Nat)} (represents : Represents r s)
    (resolved : r.models type = some (some m)) (live : r.live v = true)
    (h : run (State.subscrieEvent v m type) s events = some t) :
    ∃ next, run (Registry.subscrieEvent v m type) r events = some next ∧ Represents next t ∧
      next.live = r.live := by
  have simulates : ∃ next, run (Registry.subscrieEvent v m type) r events = some next ∧
      Represents next t ∧ next.models type = some (some m) ∧ next.live = r.live := by
    refine run_simulates
      (R := fun next t => Represents next t ∧ next.models type = some (some m) ∧ next.live = r.live) ?_
      ⟨represents, resolved, rfl⟩ h
    rintro q s subscription t ⟨related, there, same⟩ stepped
    obtain ⟨next, moved, related, models, live'⟩ :=
      subscribe_represents related there (by rw [same]; exact live) stepped
    exact ⟨next, moved, related, by rw [models]; exact there, live'.trans same⟩
  obtain ⟨next, reached, related, _, same⟩ := simulates
  exact ⟨next, reached, related, same⟩

theorem subscrie_represents (represents : Represents r s) (live : r.live v = true) {block : Block}
    (h : s.subscrie v block = some t) :
    ∃ next, r.subscrie v block = some next ∧ Represents next t ∧ next.live = r.live := by
  obtain ⟨answer, related⟩ := modelOf_represents represents block.modelType
  unfold State.subscrie at h
  unfold Registry.subscrie
  rw [← answer]
  cases called : s.modelOf block.modelType with
  | mk model after =>
    rw [called] at h related answer
    cases model with
    | none =>
      cases h
      exact ⟨_, rfl, related, rfl⟩
    | some m =>
      have resolved : (r.modelOf block.modelType).models block.modelType = some (some m) := by
        show Function.update r.models block.modelType (r.entryOf block.modelType) block.modelType =
            _
        rw [Function.update_self]
        exact Option.join_eq_some_iff.mp answer.symm
      exact block_represents related resolved live h

theorem hooks_represents (represents : Represents r s) (live : r.live v = true) {hooks : List Hook}
    (h : run (State.hook v) s hooks = some t) :
    ∃ next, run (Registry.hook v) r hooks = some next ∧ Represents next t ∧ next.live = r.live := by
  refine run_simulates (R := fun next t => Represents next t ∧ next.live = r.live) ?_
    ⟨represents, rfl⟩ h
  rintro q s hook t ⟨related, same⟩ stepped
  cases hook with
  | subscrie block =>
    obtain ⟨next, moved, related, live'⟩ :=
      subscrie_represents related (by rw [same]; exact live) stepped
    exact ⟨next, moved, related, live'.trans same⟩
  | act action =>
    cases stepped
    exact ⟨q, rfl, act_represents related v action, same⟩

/-! ### Unsubscribing -/

theorem same_id {subscriptions : List Subscription}
    (ordered : subscriptions.Pairwise fun x y => x.id < y.id) {x y : Subscription}
    (first : x ∈ subscriptions) (second : y ∈ subscriptions) (same : x.id = y.id) : x = y := by
  have apart : (subscriptions.map Subscription.id).Nodup :=
    (List.pairwise_map.mpr ordered).imp Nat.ne_of_lt
  exact List.inj_on_of_nodup_map apart first second same

theorem eraseP_ordered {subscriptions : List Subscription}
    (ordered : subscriptions.Pairwise fun x y => x.id < y.id) (id : Nat) :
    subscriptions.eraseP (fun x => x.id == id) = subscriptions.filter fun x => x.id != id := by
  induction subscriptions with
  | nil => rfl
  | cons first rest ih =>
    obtain ⟨before, after⟩ := List.pairwise_cons.mp ordered
    by_cases here : first.id = id
    · rw [List.eraseP_cons_of_pos (by simpa using here),
        List.filter_cons_of_neg (by simpa using here)]
      refine (List.filter_eq_self.mpr ?_).symm
      intro x member
      have later := before x member
      rw [here] at later
      simpa using Nat.ne_of_gt later
    · rw [List.eraseP_cons_of_neg (by simpa using here),
        List.filter_cons_of_pos (by simpa using here), ih after]

/-- The models hold these subscriptions and no others. -/
def Delegated (subscriptions : List Subscription) (s : State) : Prop :=
  ∀ m event, (s.objects m).delegates event = (subscriptions.filter (Subscription.isAt m event)).map Subscription.info

section Delegated

variable {subscriptions : List Subscription}

theorem delegated_mem (delegated : Delegated subscriptions s) {info : SuscribeEventDelegateInfo}
    (member : info ∈ (s.objects m).delegates event) :
    ∃ x ∈ subscriptions, x.model = m ∧ x.event = event ∧ x.info = info := by
  rw [delegated m event] at member
  obtain ⟨x, filtered, rfl⟩ := List.mem_map.mp member
  obtain ⟨listed, here⟩ := List.mem_filter.mp filtered
  obtain ⟨model, same⟩ : x.model = m ∧ x.event = event := by simpa [Subscription.isAt] using here
  exact ⟨x, listed, model, same, rfl⟩

theorem unSubscribeEvent_delegated (ordered : subscriptions.Pairwise fun x y => x.id < y.id)
    (delegated : Delegated subscriptions s) {x : Subscription} (member : x ∈ subscriptions) :
    Delegated (subscriptions.filter fun y => y.id != x.id) (s.unSubscribeEvent x.model x.id) := by
  intro m event
  show (Function.update s.objects x.model _ m).delegates event = _
  rw [Function.update_apply, List.filter_filter]
  split
  · rename_i here
    subst here
    rw [Model.delegates_unSubscribe, delegated, List.eraseP_map]
    · congr 1
      have part := ordered.sublist (List.filter_sublist (p := Subscription.isAt x.model event))
      refine (eraseP_ordered part x.id).trans ?_
      rw [List.filter_filter]
      exact List.filter_congr fun y _ => Bool.and_comm _ _
    · intro event other info member info' member' one two
      obtain ⟨y, listed, _, rfl, rfl⟩ := delegated_mem delegated member
      obtain ⟨z, listed', _, rfl, rfl⟩ := delegated_mem delegated member'
      rw [same_id ordered listed listed' (one.trans two.symm)]
  · rename_i elsewhere
    rw [delegated]
    congr 1
    apply List.filter_congr
    intro y listed
    -- The id stands in the other model only.
    cases there : y.isAt m event with
    | false => rfl
    | true =>
      have kept : y.id ≠ x.id := by
        intro same
        rw [same_id ordered listed member same] at there
        have model : x.model = m := by
          simp only [Subscription.isAt, Bool.and_eq_true, beq_iff_eq] at there
          exact there.1
        exact elsewhere model.symm
      simpa using kept

/-- The loop of `UnSubscrieAllEvent` takes away what it is given. -/
theorem unSubscrie_delegated (mine : List Subscription)
    (ordered : subscriptions.Pairwise fun x y => x.id < y.id)
    (delegated : Delegated subscriptions s) (members : ∀ x ∈ mine, x ∈ subscriptions)
    (apart : mine.Pairwise fun x y => x.id < y.id)
    (cached : ∀ x ∈ mine, s.models.find? x.modelType = some (some x.model)) :
    ∃ objects, (mine.map Subscription.entry).foldl State.unSubscrie s =
      { s with objects := objects } ∧
      Delegated (subscriptions.filter fun y => mine.all fun x => y.id != x.id) { s with objects := objects } := by
  induction mine generalizing s subscriptions with
  | nil => exact ⟨s.objects, rfl, by simpa using delegated⟩
  | cons x rest ih =>
    obtain ⟨before, after⟩ := List.pairwise_cons.mp apart
    have first : State.unSubscrie s x.entry = s.unSubscribeEvent x.model x.id := by
      simp only [State.unSubscrie, Subscription.entry, modelOf_cached (cached x List.mem_cons_self)]
    have fewer := unSubscribeEvent_delegated ordered delegated (members x List.mem_cons_self)
    obtain ⟨objects, reached, held⟩ := ih (ordered.sublist List.filter_sublist) fewer
      (fun y member => List.mem_filter.mpr
        ⟨members y (List.mem_cons_of_mem _ member), by simpa using Nat.ne_of_gt (before y member)⟩)
      after (fun y member => cached y (List.mem_cons_of_mem _ member))
    refine ⟨objects, ?_, ?_⟩
    · rw [List.map_cons, List.foldl_cons, first]
      exact reached
    · have both : (subscriptions.filter fun y => y.id != x.id).filter (fun y => rest.all fun x => y.id != x.id) =
          subscriptions.filter fun y => (x :: rest).all fun x => y.id != x.id := by
        rw [List.filter_filter]
        exact List.filter_congr fun y _ => by rw [List.all_cons, Bool.and_comm]
      rw [← both]
      exact held

end Delegated

theorem of_dismiss_self : (r.dismiss v).of v = [] := by
  show (r.subscriptions.filter _).filter _ = []
  rw [List.filter_filter, List.filter_eq_nil_iff]
  intro x _
  simp

theorem of_dismiss_other {w : Nat} (other : w ≠ v) : (r.dismiss v).of w = r.of w := by
  show (r.subscriptions.filter _).filter _ = r.subscriptions.filter _
  rw [List.filter_filter]
  apply List.filter_congr
  intro x _
  cases mine : x.isOf w with
  | false => rfl
  | true =>
    have apart : x.isOf v = false := by
      have here : x.delegate.viewModel = w := by simpa [Subscription.isOf] using mine
      simpa [Subscription.isOf, here] using other
    rw [apart]
    rfl

/-- The ids of a view model are those of its own subscriptions only. -/
theorem dismissed (r : Registry) (v : Nat) :
    (r.subscriptions.filter fun y => (r.of v).all fun x => y.id != x.id) =
      (r.dismiss v).subscriptions := by
  apply List.filter_congr
  intro y listed
  cases mine : y.isOf v with
  | true =>
    have member : y ∈ r.of v := List.mem_filter.mpr ⟨listed, mine⟩
    rw [Bool.not_true, List.all_eq_false]
    exact ⟨y, member, by simp⟩
  | false =>
    rw [Bool.not_false, List.all_eq_true]
    intro x member
    obtain ⟨there, his⟩ := List.mem_filter.mp member
    have apart : y.id ≠ x.id := by
      intro same
      rw [same_id r.ordered listed there same, his] at mine
      cases mine
    simpa using apart

theorem unSubscrieAllEvent_represents (represents : Represents r s) (live : r.live v = true) :
    Represents (r.dismiss v) (s.unSubscrieAllEvent v) := by
  have resolved : ∀ x ∈ (r.dismiss v).subscriptions, r.models x.modelType = some (some x.model) :=
    fun x member => represents.resolved x (List.mem_of_mem_filter member)
  have served : ∀ x ∈ (r.dismiss v).subscriptions, r.live x.delegate.viewModel = true :=
    fun x member => represents.served x (List.mem_of_mem_filter member)
  unfold State.unSubscrieAllEvent
  cases found : s.viewModels v with
  | none =>
    rw [← represents.live, found] at live
    cases live
  | some viewModel =>
    have entries := represents.entries v viewModel found
    obtain ⟨objects, reached, held⟩ := unSubscrie_delegated (r.of v) r.ordered represents.delegates
      (fun x member => List.mem_of_mem_filter member) (r.ordered.sublist List.filter_sublist)
      (fun x member => by
        rw [represents.models]
        exact represents.resolved x (List.mem_of_mem_filter member))
    rw [dismissed] at held
    simp only [entries, reached]
    refine ⟨represents.builders, represents.models, represents.last, represents.issued,
      represents.created, ?_, represents.young, resolved, served, held, ?_⟩
    · intro w
      rw [setViewModel_isSome]
      exact represents.live w
    · intro w other found
      rcases setViewModel_cases found with ⟨rfl, before, _, rfl⟩ | ⟨elsewhere, there⟩
      · rw [of_dismiss_self]
        rfl
      · rw [of_dismiss_other elsewhere]
        exact represents.entries w other there

/-! ### Steps -/

/-- The view goes, and the subscriptions stay. -/
theorem setViewModel_represents (represents : Represents r s) (v : Nat) {f : ViewModel → ViewModel}
    (same : ∀ viewModel, (f viewModel).subscribeIds = viewModel.subscribeIds) :
    Represents r (s.setViewModel v f) := by
  refine ⟨represents.builders, represents.models, represents.last, represents.issued,
    represents.created, ?_, represents.young, represents.resolved, represents.served,
    represents.delegates, ?_⟩
  · intro w
    rw [setViewModel_isSome]
    exact represents.live w
  · intro w viewModel found
    rcases setViewModel_cases found with ⟨rfl, before, there, rfl⟩ | ⟨_, there⟩
    · rw [same]
      exact represents.entries w before there
    · exact represents.entries w viewModel there

theorem destroy_represents (represents : Represents r s) (live : r.live v = true) :
    Represents { r.dismiss v with live := Function.update r.live v false } (s.destroy v) := by
  have left := unSubscrieAllEvent_represents represents live
  refine ⟨left.builders, left.models, left.last, left.issued, left.created, ?_, ?_, left.resolved,
    ?_, left.delegates, ?_⟩
  · intro w
    show (Function.update (s.unSubscrieAllEvent v).viewModels v none w).isSome =
        Function.update r.live v false w
    rw [Function.update_apply, Function.update_apply]
    split
    · rfl
    · exact left.live w
  · intro w there
    change Function.update r.live v false w = true at there
    rw [Function.update_apply] at there
    split at there
    · cases there
    · exact left.young w there
  · intro x member
    show Function.update r.live v false x.delegate.viewModel = true
    have other : x.delegate.viewModel ≠ v := by
      have kept := (List.mem_filter.mp member).2
      simpa [Subscription.isOf] using kept
    rw [Function.update_of_ne other]
    exact left.served x member
  · intro w viewModel found
    change Function.update (s.unSubscrieAllEvent v).viewModels v none w = some viewModel at found
    rw [Function.update_apply] at found
    split at found
    · cases found
    · exact left.entries w viewModel found

variable {react : Nat → Int → Bytes → List ViewAction} {operation : Operation} {operations : List Operation}

theorem step_represents (represents : Represents r s) (h : step react s operation = some t) :
    ∃ next, r.step operation = some next ∧ Represents next t := by
  cases operation with
  | registerModel type builder =>
    cases h
    exact ⟨_, rfl, registerModel_represents represents type builder⟩
  | modelOf type =>
    cases h
    exact ⟨_, rfl, (modelOf_represents represents type).2⟩
  | createVM =>
    cases h
    exact ⟨_, rfl, createVM_represents represents⟩
  | notifyBind v onAttach =>
    simp only [step, represents.live] at h
    split at h
    · rename_i live
      obtain ⟨next, reached, related, _⟩ := hooks_represents represents live h
      exact ⟨next, by simpa only [Registry.step, if_pos live] using reached, related⟩
    · cases h
  | fireEvent m event value =>
    cases h
    exact ⟨r, rfl, fireEvent_represents react represents m event value⟩
  | notifyUnBind v onDetach =>
    simp only [step, represents.live] at h
    split at h
    · rename_i live
      obtain ⟨middle, hooks, rfl⟩ := Option.map_eq_some_iff.mp h
      have muted := setViewModel_represents represents v (f := fun viewModel =>
        { viewModel with propertyChangedDelegate := false, eventFiredDelegate := false }) fun _ => rfl
      obtain ⟨next, reached, related, same⟩ := hooks_represents muted live hooks
      refine ⟨next.dismiss v, ?_, unSubscrieAllEvent_represents related (by rw [same]; exact live)⟩
      simp only [Registry.step, if_pos live, reached, Option.map_some]
    · cases h
  | destroy v =>
    simp only [step, represents.live] at h
    split at h
    · rename_i live
      cases h
      exact ⟨_, by simp only [Registry.step, if_pos live], destroy_represents represents live⟩
    · cases h
  | act v action =>
    simp only [step, represents.live] at h
    split at h
    · rename_i live
      cases h
      exact ⟨r, by simp only [Registry.step, if_pos live], act_represents represents v action⟩
    · cases h

theorem run_represents (represents : Represents r s) (h : run (step react) s operations = some t) :
    ∃ next, run Registry.step r operations = some next ∧ Represents next t :=
  run_simulates (fun _ _ _ _ represents moved => step_represents represents moved) represents h

end Kingkong.Mvvm
