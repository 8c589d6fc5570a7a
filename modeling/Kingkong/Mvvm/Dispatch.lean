import Kingkong.Mvvm.Model
import Mathlib.Data.List.Nodup
import Mathlib.Data.List.Perm.Subperm

/-!
`FireEvent` as the loop that it is. The loop goes through positions of a vector, to an end that it
fixed when it started. Between two positions a delegate runs, and may do anything: subscribe,
unsubscribe itself or others, or fire an event, which is another loop on top of this one.
-/

namespace Kingkong.Mvvm
open Lib

/-- A loop under way. The delegate at `position` is running. `begun` has the delegates that were
subscribed when the loop started, and `called` those that it has called, in order. -/
structure Frame where
  model : Nat
  event : Int
  value : Bytes
  position : Nat := 0
  last : Nat
  begun : List SuscribeEventDelegateInfo
  called : List SuscribeEventDelegateInfo := []
  deriving DecidableEq

/-- `broken` says that a loop has accessed an element that does not exist. -/
structure Dispatch where
  state : State := {}
  stack : List Frame := []
  broken : Bool := false
  finished : List Frame := []

/-- `FireEvent` in one piece. -/
def Operation.fires : Operation → Bool
  | .fireEvent _ _ _ => true
  | _ => false

/-- The vector that a loop goes through, as it is now. -/
def State.vector (s : State) (frame : Frame) : List SuscribeEventDelegateInfo :=
  (s.objects frame.model).delegates frame.event

namespace Dispatch

variable (react : Nat → Int → Bytes → List ViewAction)

/-- The head of the loop: the end, or the call of the delegate at the position. -/
def access (d : Dispatch) (frame : Frame) : Dispatch :=
  if frame.position = frame.last then { d with finished := d.finished ++ [frame] }
  else
    match (d.state.vector frame)[frame.position]? with
    | some info =>
      { d with
        state := d.state.call react frame.event frame.value info
        stack := { frame with called := frame.called ++ [info] } :: d.stack }
    | none => { d with broken := true }

def fireEvent (d : Dispatch) (m : Nat) (event : Int) (value : Bytes) : Dispatch :=
  let delegates := (d.state.objects m).delegates event
  d.access react { model := m, event := event, value := value, last := delegates.length, begun := delegates }

inductive Event where
  | perform (operation : Operation)
  | subscribeEvent (m : Nat) (event : Int) (delegate : SuscribeEventDelegate)
  | unSubscribeEvent (m id : Nat)
  | fireEvent (m : Nat) (event : Int) (value : Bytes)
  | proceed

/-- A loop goes on when the delegate that it called returns. -/
def move (d : Dispatch) : Event → Option Dispatch
  | .perform operation =>
    if operation.fires then none else (Mvvm.step react d.state operation).map fun s => { d with state := s }
  | .subscribeEvent m event delegate =>
    (d.state.subscribeEvent m event delegate).map fun (_, s) => { d with state := s }
  | .unSubscribeEvent m id => some { d with state := d.state.unSubscribeEvent m id }
  | .fireEvent m event value => some (d.fireEvent react m event value)
  | .proceed =>
    match d.stack with
    | frame :: rest => some ({ d with stack := rest }.access react { frame with position := frame.position + 1 })
    | [] => none

/-- Nothing is known of what follows an access that was not allowed. -/
def step (d : Dispatch) (event : Event) : Option Dispatch :=
  if d.broken then none else d.move react event

/-- Nothing is unsubscribed from an event that a loop is going through, unless the loop is at its
last delegate. -/
def Undisturbed (d : Dispatch) (event : Event) : Prop :=
  match d.step react event with
  | some t => ∀ frame ∈ d.stack, frame.position + 1 < frame.last →
      ∀ info ∈ d.state.vector frame, info ∈ t.state.vector frame
  | none => True

instance (d : Dispatch) (event : Event) : Decidable (Undisturbed react d event) :=
  match moved : d.step react event with
  | some t => decidable_of_iff (∀ frame ∈ d.stack, frame.position + 1 < frame.last →
      ∀ info ∈ d.state.vector frame, info ∈ t.state.vector frame) (by simp only [Undisturbed, moved])
  | none => isTrue (by simp only [Undisturbed, moved])

end Dispatch

/-! ### What happens to the vectors -/

/-- Some of what was there is left, in its order, and what is new comes behind it with new ids. -/
structure Evolves (s t : State) : Prop where
  later : s.suscribeId ≤ t.suscribeId
  vectors : ∀ m event, ∃ kept new, List.Sublist kept ((s.objects m).delegates event) ∧
    (t.objects m).delegates event = kept ++ new ∧ new.Pairwise (fun x y => x.id < y.id) ∧
    ∀ info ∈ new, s.suscribeId < info.id ∧ info.id ≤ t.suscribeId

/-- Every vector is in the order of its ids. -/
def Ranked (s : State) : Prop :=
  ∀ m event, ((s.objects m).delegates event).Pairwise (fun x y => x.id < y.id) ∧
  ∀ info ∈ (s.objects m).delegates event, info.id ≤ s.suscribeId

variable {react : Nat → Int → Bytes → List ViewAction} {s t u : State} {v m : Nat} {type : Int}

theorem evolves_same (objects : t.objects = s.objects) (last : t.suscribeId = s.suscribeId) :
    Evolves s t := by
  refine ⟨Nat.le_of_eq last.symm, fun m event => ⟨_, [], List.Sublist.refl _, ?_,
    List.Pairwise.nil, ?_⟩⟩
  · rw [objects, List.append_nil]
  · intro info member
    cases member

theorem evolves_trans (first : Evolves s t) (second : Evolves t u) : Evolves s u := by
  refine ⟨Nat.le_trans first.later second.later, fun m event => ?_⟩
  obtain ⟨kept, new, part, vector, ordered, bounds⟩ := first.vectors m event
  obtain ⟨kept', new', part', vector', ordered', bounds'⟩ := second.vectors m event
  rw [vector] at part'
  obtain ⟨old, recent, rfl, fromKept, fromNew⟩ := List.sublist_append_iff.mp part'
  refine ⟨old, recent ++ new', fromKept.trans part, by rw [vector', List.append_assoc], ?_, ?_⟩
  · refine List.pairwise_append.mpr ⟨ordered.sublist fromNew, ordered', ?_⟩
    intro x earlier y later
    exact Nat.lt_of_le_of_lt (bounds x (fromNew.subset earlier)).2 (bounds' y later).1
  · intro info member
    rcases List.mem_append.mp member with earlier | later
    · obtain ⟨above, below⟩ := bounds info (fromNew.subset earlier)
      exact ⟨above, Nat.le_trans below second.later⟩
    · obtain ⟨above, below⟩ := bounds' info later
      exact ⟨Nat.lt_of_le_of_lt first.later above, below⟩

theorem evolves_ranked (evolves : Evolves s t) (ranked : Ranked s) : Ranked t := by
  intro m event
  obtain ⟨kept, new, part, vector, ordered, bounds⟩ := evolves.vectors m event
  obtain ⟨before, bounded⟩ := ranked m event
  rw [vector]
  constructor
  · refine List.pairwise_append.mpr ⟨before.sublist part, ordered, ?_⟩
    intro x old y recent
    exact Nat.lt_of_le_of_lt (bounded x (part.subset old)) (bounds y recent).1
  · intro info member
    rcases List.mem_append.mp member with old | recent
    · exact Nat.le_trans (bounded info (part.subset old)) evolves.later
    · exact (bounds info recent).2

/-- When nothing is gone, the vector has only grown. -/
theorem evolves_grown (evolves : Evolves s t) (ranked : Ranked s) {event : Int}
    (stays : ∀ info ∈ (s.objects m).delegates event, info ∈ (t.objects m).delegates event) :
    (s.objects m).delegates event <+: (t.objects m).delegates event := by
  obtain ⟨kept, new, part, vector, ordered, bounds⟩ := evolves.vectors m event
  obtain ⟨before, bounded⟩ := ranked m event
  have all : (s.objects m).delegates event ⊆ kept := by
    intro info member
    have there := stays info member
    rw [vector] at there
    rcases List.mem_append.mp there with old | recent
    · exact old
    · have above := (bounds info recent).1
      have below := bounded info member
      omega
  have nodup : ((s.objects m).delegates event).Nodup := before.imp fun less same => by
    rw [same] at less
    exact Nat.lt_irrefl _ less
  have short := (List.subperm_of_subset nodup all).length_le
  rw [vector, part.eq_of_length_le short]
  exact List.prefix_append _ _

theorem subscribeEvent_evolves {event : Int} {delegate : SuscribeEventDelegate} {id : Nat}
    (h : s.subscribeEvent m event delegate = some (id, t)) : Evolves s t := by
  simp only [State.subscribeEvent] at h
  split at h <;> cases h
  refine ⟨Nat.le_succ _, fun n other => ?_⟩
  show ∃ kept new, _ ∧ (Function.update s.objects m _ n).delegates other = _ ∧ _
  rw [Function.update_apply]
  by_cases here : n = m ∧ other = event
  · obtain ⟨rfl, rfl⟩ := here
    refine ⟨_, [⟨delegate, s.suscribeId + 1⟩], List.Sublist.refl _, ?_,
      List.pairwise_singleton _ _, ?_⟩
    · rw [if_pos rfl, Model.delegates_subscribe, if_pos rfl]
    · intro info member
      rw [List.mem_singleton.mp member]
      exact ⟨Nat.lt_succ_self _, Nat.le_refl _⟩
  · refine ⟨_, [], List.Sublist.refl _, ?_, List.Pairwise.nil,
      fun info member => absurd member List.not_mem_nil⟩
    rw [List.append_nil]
    split
    · rename_i same
      subst same
      rw [Model.delegates_subscribe, if_neg fun there => here ⟨rfl, there⟩]
    · rfl

theorem delegates_unSubscribe_sublist (model : Model) (id : Nat) (event : Int) :
    List.Sublist ((model.unSubscribeEvent id).delegates event) (model.delegates event) := by
  unfold Model.unSubscribeEvent
  split
  · rename_i here delegates found
    have listed := Model.delegates_of_mem (List.mem_of_find?_eq_some found)
    simp only [Model.delegates, OrderedMap.find_insert]
    split
    · rename_i same
      subst same
      rw [← Model.delegates, listed]
      exact List.eraseP_sublist
    · exact List.Sublist.refl _
  · exact List.Sublist.refl _

theorem unSubscribeEvent_evolves (s : State) (m id : Nat) :
    Evolves s (s.unSubscribeEvent m id) := by
  refine ⟨Nat.le_refl _, fun n event => ⟨_, [], ?_, (List.append_nil _).symm,
    List.Pairwise.nil, ?_⟩⟩
  · show List.Sublist ((Function.update s.objects m _ n).delegates event) _
    rw [Function.update_apply]
    split
    · rename_i same
      subst same
      exact delegates_unSubscribe_sublist _ _ _
    · exact List.Sublist.refl _
  · intro info member
    cases member

theorem modelOf_evolves (s : State) (type : Int) : Evolves s (s.modelOf type).2 := by
  obtain ⟨models, same⟩ := modelOf_frame s type
  rw [same]
  exact evolves_same rfl rfl

theorem act_objects (s : State) (v : Nat) (action : ViewAction) :
    (s.act v action).objects = s.objects ∧ (s.act v action).suscribeId = s.suscribeId := by
  unfold State.act
  split
  · split <;> exact ⟨rfl, rfl⟩
  · exact ⟨rfl, rfl⟩

theorem call_objects (react : Nat → Int → Bytes → List ViewAction) (s : State) (event : Int)
    (value : Bytes) (info : SuscribeEventDelegateInfo) :
    (s.call react event value info).objects = s.objects ∧
      (s.call react event value info).suscribeId = s.suscribeId := by
  have acts : ∀ (actions : List ViewAction) (u : State),
      (actions.foldl (State.act info.delegate.viewModel) u).objects =
      u.objects ∧ (actions.foldl (State.act info.delegate.viewModel) u).suscribeId = u.suscribeId := by
    intro actions
    induction actions with
    | nil => exact fun u => ⟨rfl, rfl⟩
    | cons action rest ih =>
      intro u
      obtain ⟨objects, last⟩ := act_objects u info.delegate.viewModel action
      obtain ⟨objects', last'⟩ := ih (u.act info.delegate.viewModel action)
      exact ⟨objects'.trans objects, last'.trans last⟩
  exact acts _ _

theorem subscrieEvent_evolves {subscription : Int × Nat}
    (h : s.subscrieEvent v m type subscription = some t) :
    Evolves s t := by
  obtain ⟨⟨id, after⟩, subscribed, rfl⟩ := Option.map_eq_some_iff.mp h
  exact evolves_trans (subscribeEvent_evolves subscribed) (evolves_same rfl rfl)

theorem hook_evolves {hook : Hook} (h : s.hook v hook = some t) : Evolves s t := by
  cases hook with
  | act action =>
    cases h
    obtain ⟨objects, last⟩ := act_objects s v action
    exact evolves_same objects last
  | subscrie block =>
    simp only [State.hook, State.subscrie] at h
    have looked := modelOf_evolves s block.modelType
    cases called : s.modelOf block.modelType with
    | mk model after =>
      rw [called] at h looked
      cases model with
      | none =>
        cases h
        exact looked
      | some m =>
        exact run_keeps (I := fun u => Evolves s u)
          (fun _ _ _ evolves moved => evolves_trans evolves (subscrieEvent_evolves moved)) looked h

theorem hooks_evolves {hooks : List Hook} (evolves : Evolves s t)
    (h : run (State.hook v) t hooks = some u) : Evolves s u :=
  run_keeps (I := fun u => Evolves s u) (fun _ _ _ evolves moved => evolves_trans evolves (hook_evolves moved)) evolves h

theorem unSubscrie_evolves (items : List (Nat × Int)) (s : State) :
    Evolves s (items.foldl State.unSubscrie s) := by
  induction items generalizing s with
  | nil => exact evolves_same rfl rfl
  | cons item rest ih =>
    refine evolves_trans ?_ (ih _)
    have looked := modelOf_evolves s item.2
    unfold State.unSubscrie
    cases called : s.modelOf item.2 with
    | mk model after =>
      rw [called] at looked
      cases model with
      | none => exact looked
      | some m => exact evolves_trans looked (unSubscribeEvent_evolves after m item.1)

theorem unSubscrieAllEvent_evolves (s : State) (v : Nat) : Evolves s (s.unSubscrieAllEvent v) := by
  unfold State.unSubscrieAllEvent
  split
  · exact evolves_trans (unSubscrie_evolves _ s) (evolves_same rfl rfl)
  · exact evolves_same rfl rfl

theorem step_evolves {operation : Operation} (other : operation.fires = false)
    (h : step react s operation = some t) : Evolves s t := by
  cases operation with
  | registerModel type builder =>
    cases h
    exact evolves_same rfl rfl
  | modelOf type =>
    cases h
    exact modelOf_evolves s type
  | createVM =>
    cases h
    exact evolves_same rfl rfl
  | notifyBind v onAttach =>
    simp only [step] at h
    split at h
    · exact hooks_evolves (evolves_same rfl rfl) h
    · cases h
  | fireEvent m event value => cases other
  | notifyUnBind v onDetach =>
    simp only [step] at h
    split at h
    · obtain ⟨middle, hooks, rfl⟩ := Option.map_eq_some_iff.mp h
      refine evolves_trans (hooks_evolves ?_ hooks) (unSubscrieAllEvent_evolves middle v)
      exact evolves_same rfl rfl
    · cases h
  | destroy v =>
    simp only [step] at h
    split at h <;> cases h
    exact evolves_trans (unSubscrieAllEvent_evolves s v) (evolves_same rfl rfl)
  | act v action =>
    simp only [step] at h
    split at h <;> cases h
    obtain ⟨objects, last⟩ := act_objects s v action
    exact evolves_same objects last

namespace Dispatch

/-! ### Loops -/

/-- The loop has called the first of its delegates, and the others are where it will look for
them. -/
structure Steady (s : State) (frame : Frame) : Prop where
  length : frame.last = frame.begun.length
  within : frame.position < frame.last
  called : frame.called = frame.begun.take (frame.position + 1)
  ahead : frame.position + 1 < frame.last → frame.begun <+: s.vector frame
  ordered : frame.begun.Pairwise fun x y => x.id < y.id

/-- Every loop that ended has called each of its delegates once, in order. -/
structure Sound (d : Dispatch) : Prop where
  unbroken : d.broken = false
  ranked : Ranked d.state
  stack : ∀ frame ∈ d.stack, Steady d.state frame
  finished : ∀ frame ∈ d.finished, frame.called = frame.begun ∧ frame.begun.Pairwise fun x y => x.id < y.id

variable {d e : Dispatch} {event : Event} {events : List Event} {frame : Frame}

theorem initial_sound : Sound {} := by
  refine ⟨rfl, ?_, ?_, ?_⟩
  · exact fun m event => ⟨List.Pairwise.nil, fun info member => absurd member List.not_mem_nil⟩
  · exact fun frame member => absurd member List.not_mem_nil
  · exact fun frame member => absurd member List.not_mem_nil

theorem steady_frame (steady : Steady s frame) (objects : t.objects = s.objects) :
    Steady t frame := by
  refine ⟨steady.length, steady.within, steady.called, ?_, steady.ordered⟩
  rw [State.vector, objects]
  exact steady.ahead

theorem ranked_frame (ranked : Ranked s) (objects : t.objects = s.objects)
    (last : t.suscribeId = s.suscribeId) :
    Ranked t := by
  intro m event
  rw [objects, last]
  exact ranked m event

/-- The head of a loop whose delegates are all where they were. -/
theorem access_sound (sound : Sound d) (length : frame.last = frame.begun.length)
    (within : frame.position ≤ frame.last) (called : frame.called = frame.begun.take frame.position)
    (ahead : frame.position < frame.last → frame.begun <+: d.state.vector frame)
    (ordered : frame.begun.Pairwise fun x y => x.id < y.id) : Sound (d.access react frame) := by
  unfold access
  split
  · rename_i ended
    refine ⟨sound.unbroken, sound.ranked, sound.stack, ?_⟩
    intro other member
    rcases List.mem_append.mp member with old | new
    · exact sound.finished other old
    · rw [List.mem_singleton.mp new, called, ended, length, List.take_length]
      exact ⟨rfl, ordered⟩
  · rename_i running
    have inside : frame.position < frame.last := Nat.lt_of_le_of_ne within running
    have bound : frame.position < frame.begun.length := by rwa [← length]
    have found : (d.state.vector frame)[frame.position]? = some frame.begun[frame.position] := by
      obtain ⟨more, vector⟩ := ahead inside
      rw [← vector, List.getElem?_append_left bound, List.getElem?_eq_getElem bound]
    rw [found]
    obtain ⟨objects, last⟩ :=
      call_objects react d.state frame.event frame.value frame.begun[frame.position]
    refine ⟨sound.unbroken, ranked_frame sound.ranked objects last, ?_, sound.finished⟩
    intro other member
    rcases List.mem_cons.mp member with rfl | old
    · refine ⟨length, inside, ?_, fun _ => ?_, ordered⟩
      · show frame.called ++ [frame.begun[frame.position]] = frame.begun.take (frame.position + 1)
        rw [called, List.take_append_getElem]
      · show frame.begun <+: State.vector _ frame
        rw [State.vector, objects]
        exact ahead inside
    · exact steady_frame (sound.stack other old) objects

theorem fireEvent_sound (sound : Sound d) (m : Nat) (event : Int) (value : Bytes) :
    Sound (d.fireEvent react m event value) := by
  apply access_sound sound rfl (Nat.zero_le _) rfl
  · exact fun _ => List.prefix_rfl
  · exact (sound.ranked m event).1

theorem proceed_sound {rest : List Frame} (sound : Sound d) (top : d.stack = frame :: rest) :
    Sound ({ d with stack := rest }.access react { frame with position := frame.position + 1 }) := by
  have steady := sound.stack frame (by rw [top]; exact List.mem_cons_self)
  have others : Sound { d with stack := rest } :=
    ⟨sound.unbroken, sound.ranked, fun other member => sound.stack other (by rw [top]; exact List.mem_cons_of_mem _ member),
      sound.finished⟩
  exact access_sound others steady.length steady.within steady.called steady.ahead steady.ordered

/-- What the running delegate does to the subscriptions. -/
theorem evolves_sound (sound : Sound d) (evolves : Evolves d.state s)
    (stays : ∀ frame ∈ d.stack, frame.position + 1 < frame.last → ∀ info ∈ d.state.vector frame,
      info ∈ s.vector frame) :
    Sound { d with state := s } := by
  refine ⟨sound.unbroken, evolves_ranked evolves sound.ranked, ?_, sound.finished⟩
  intro frame member
  have steady := sound.stack frame member
  refine ⟨steady.length, steady.within, steady.called, ?_, steady.ordered⟩
  intro early
  exact (steady.ahead early).trans (evolves_grown evolves sound.ranked (stays frame member early))

theorem step_sound (sound : Sound d) (undisturbed : Undisturbed react d event)
    (h : d.step react event = some e) :
    Sound e := by
  simp only [Undisturbed, h] at undisturbed
  rw [step, if_neg (by simp [sound.unbroken])] at h
  cases event with
  | perform operation =>
    simp only [move] at h
    split at h
    · cases h
    · rename_i other
      obtain ⟨s, performed, rfl⟩ := Option.map_eq_some_iff.mp h
      exact evolves_sound sound (step_evolves (by simpa using other) performed) undisturbed
  | subscribeEvent m event delegate =>
    obtain ⟨⟨id, s⟩, subscribed, rfl⟩ := Option.map_eq_some_iff.mp h
    exact evolves_sound sound (subscribeEvent_evolves subscribed) undisturbed
  | unSubscribeEvent m id =>
    cases h
    exact evolves_sound sound (unSubscribeEvent_evolves d.state m id) undisturbed
  | fireEvent m event value =>
    cases h
    exact fireEvent_sound sound m event value
  | proceed =>
    simp only [move] at h
    split at h <;> cases h
    rename_i frame rest top
    exact proceed_sound sound top

/-- A loop accesses only what exists, and calls every delegate that was subscribed when it started,
once and in order, as long as nothing is unsubscribed from its event before it has come to its last
delegate. -/
theorem loops_complete (undisturbed : EachStep (step react) (Undisturbed react) {} events)
    (h : run (step react) {} events = some d) :
    d.broken = false ∧
    (∀ frame ∈ d.stack, frame.called = frame.begun.take (frame.position + 1)) ∧
    ∀ frame ∈ d.finished, frame.called = frame.begun ∧ frame.begun.Nodup := by
  have sound := run_keeps_under (fun _ _ _ sound meets moved => step_sound sound meets moved) initial_sound undisturbed h
  refine ⟨sound.unbroken, fun frame member => (sound.stack frame member).called,
    fun frame member => ?_⟩
  obtain ⟨called, ordered⟩ := sound.finished frame member
  refine ⟨called, ordered.imp fun less same => ?_⟩
  rw [same] at less
  exact Nat.lt_irrefl _ less

/-- Two view models are subscribed to one event, and the first one unbinds itself when it is
called. -/
def unbindsItself : List Event :=
  [.perform (.registerModel 1 (some 0)), .perform .createVM, .perform .createVM,
    .perform (.notifyBind 0 [.subscrie ⟨1, [(5, 0)]⟩]), .perform (.notifyBind 1 [.subscrie ⟨1, [(5, 1)]⟩]),
    .fireEvent 0 5 [7], .perform (.notifyUnBind 0 []), .proceed]

/-- The second view model is still subscribed and is not called, and the loop runs over the end of
the vector. -/
theorem loops_complete_overrun :
    ∃ d, run (step fun _ _ _ => []) {} unbindsItself = some d ∧ d.broken = true ∧
      (d.state.objects 0).delegates 5 = [⟨⟨1, 1⟩, 2⟩] ∧ d.state.calls = [⟨⟨⟨0, 0⟩, 1⟩, 5, [7]⟩] :=
  ⟨_, rfl, rfl, rfl, rfl⟩

/-- The first delegate subscribes another one and fires a second event, and the last one unbinds
itself. -/
def nests : List Event :=
  [.perform (.registerModel 1 (some 0)), .perform .createVM, .perform .createVM,
    .perform (.notifyBind 0 [.subscrie ⟨1, [(5, 0), (6, 2)]⟩]), .perform (.notifyBind 1 [.subscrie ⟨1, [(5, 1)]⟩]),
    .fireEvent 0 5 [7], .subscribeEvent 0 5 ⟨0, 3⟩, .fireEvent 0 6 [8], .proceed, .proceed, .perform (.notifyUnBind 1 []),
    .proceed]

theorem loops_complete_nests :
    ∃ d, run (step fun _ _ _ => []) {} nests = some d ∧ d.broken = false ∧
      d.state.calls.map (fun call => call.info.id) = [1, 2, 3] ∧ d.finished.length = 2 ∧
      ∀ frame ∈ d.finished, frame.called = frame.begun ∧ frame.begun.Nodup := by
  have reached : ∃ d, run (step fun _ _ _ => []) {} nests = some d ∧
      d.state.calls.map (fun call => call.info.id) = [1, 2, 3] ∧ d.finished.length = 2 := ⟨_, rfl, rfl, rfl⟩
  obtain ⟨d, reached, calls, finished⟩ := reached
  obtain ⟨unbroken, _, complete⟩ := loops_complete (eachStep_of_meets (by decide)) reached
  exact ⟨d, reached, unbroken, calls, finished, complete⟩

/-! ### Loops that nothing interrupts -/

theorem proceed_runs (rest : List SuscribeEventDelegateInfo) (d : Dispatch) (frame : Frame)
    (unbroken : d.broken = false) (ahead : (d.state.vector frame).drop frame.position = rest)
    (last : frame.last = frame.position + rest.length) :
    run (step react) (d.access react frame) (List.replicate rest.length .proceed) =
      some { d with
        state := rest.foldl (State.call react frame.event frame.value) d.state
        finished := d.finished ++
          [{ frame with position := frame.last, called := frame.called ++ rest }] } := by
  induction rest generalizing d frame with
  | nil =>
    have ended : frame.position = frame.last := last.symm
    have same : { frame with position := frame.last, called := frame.called ++ [] } = frame := by
      cases frame
      cases ended
      rw [List.append_nil]
    rw [access, if_pos ended, same]
    rfl
  | cons info rest ih =>
    have running : frame.position ≠ frame.last := by
      rw [last, List.length_cons]
      omega
    have found : (d.state.vector frame)[frame.position]? = some info := by
      rw [← List.head?_drop, ahead]
      rfl
    obtain ⟨objects, _⟩ := call_objects react d.state frame.event frame.value info
    have next := ih { d with state := d.state.call react frame.event frame.value info }
      { frame with position := frame.position + 1, called := frame.called ++ [info] } unbroken ?_ ?_
    · rw [access, if_neg running, found, List.length_cons, List.replicate_succ]
      refine run_cons.mpr ⟨_, by rw [step, if_neg (by simp [unbroken])]; rfl, ?_⟩
      rw [next]
      simp
    · show (State.vector _ frame).drop (frame.position + 1) = rest
      rw [State.vector, objects, ← List.tail_drop]
      exact congrArg List.tail ahead
    · show frame.last = frame.position + 1 + rest.length
      rw [last, List.length_cons]
      omega

/-- When every delegate just returns, the loop does what `FireEvent` does in one piece. -/
theorem fireEvent_runs (unbroken : d.broken = false) (m : Nat) (event : Int) (value : Bytes)
    {delegates : List SuscribeEventDelegateInfo}
    (subscribed : (d.state.objects m).delegates event = delegates) :
    run (step react) d (.fireEvent m event value :: List.replicate delegates.length .proceed) =
      some { d with
        state := d.state.fireEvent react m event value
        finished := d.finished ++ [⟨m, event, value, delegates.length, delegates.length, delegates,
          delegates⟩] } := by
  subst subscribed
  refine run_cons.mpr ⟨_, by rw [step, if_neg (by simp [unbroken])]; rfl, ?_⟩
  rw [fireEvent_eq]
  exact proceed_runs _ d ⟨m, event, value, 0, _, _, []⟩ unbroken rfl (Nat.zero_add _).symm

end Dispatch

end Kingkong.Mvvm
