import Kingkong.Loop.Manager

/-!
The managers that `InitMessageLoop` constructs one after another: whose they are, and which of their
pumps still work.
-/

namespace Kingkong.Loop
open Lib Pump

variable {R : Type} {s s' : Loops R} {t g : Nat}

/-! ### Whose manager it is -/

/-- The manager that a thread deletes. -/
def Loops.removes (s : Loops R) (t : Nat) : Option Nat := (s.deleting t).map Deletion.manager

/-- A manager is installed, or one thread deletes it, or it is deleted. -/
structure Owned (s : Loops R) : Prop where
  installed : ∀ g, s.gLoopManager = some g → g < s.created ∧ (∀ t, s.removes t ≠ some g) ∧ g ∉ s.deleted
  removed : ∀ t g, s.removes t = some g → g < s.created ∧ g ∉ s.deleted
  alone : ∀ t u g, s.removes t = some g → s.removes u = some g → t = u
  once : s.deleted.Nodup
  old : ∀ g ∈ s.deleted, g < s.created
  all : ∀ g < s.created, s.gLoopManager = some g ∨ (∃ t, s.removes t = some g) ∨ g ∈ s.deleted

theorem owned_initial : Owned ({} : Loops R) where
  installed _ := nofun
  removed _ _ := nofun
  alone _ _ _ := nofun
  once := List.nodup_nil
  old _ := nofun
  all _ := nofun

theorem owned_frame (owned : Owned s) (installed : s'.gLoopManager = s.gLoopManager)
    (created : s'.created = s.created) (removes : s'.removes = s.removes)
    (deleted : s'.deleted = s.deleted) : Owned s' where
  installed := by rw [installed, created, removes, deleted]; exact owned.installed
  removed := by rw [created, removes, deleted]; exact owned.removed
  alone := by rw [removes]; exact owned.alone
  once := by rw [deleted]; exact owned.once
  old := by rw [created, deleted]; exact owned.old
  all := by rw [installed, created, removes, deleted]; exact owned.all

theorem removes_setDeletion (s : Loops R) (t : Nat) (d : Option Deletion) :
    (s.setDeletion t d).removes = Function.update s.removes t (d.map Deletion.manager) := by
  funext u
  by_cases same : u = t
  · subst same
    simp [Loops.removes, Loops.setDeletion]
  · simp [Loops.removes, Loops.setDeletion, same]

theorem deleting_setDeletion {d : Option Deletion} {u : Nat} {e : Deletion} :
    (s.setDeletion t d).deleting u = some e ↔ u = t ∧ d = some e ∨ u ≠ t ∧
      s.deleting u = some e := by
  by_cases same : u = t
  · subst same
    simp [Loops.setDeletion]
  · simp [Loops.setDeletion, same]

theorem owned_init (owned : Owned s) (free : s.gLoopManager = none) :
    Owned { s with gLoopManager := some s.created, created := s.created + 1 } where
  installed g same := by
    cases Option.some.inj same
    refine ⟨Nat.lt_succ_self _, fun t removed => ?_, fun old => ?_⟩
    · exact Nat.lt_irrefl _ (owned.removed t _ removed).1
    · exact Nat.lt_irrefl _ (owned.old _ old)
  removed t g removed := ⟨Nat.lt_succ_of_lt (owned.removed t g removed).1, (owned.removed t g removed).2⟩
  alone := owned.alone
  once := owned.once
  old g old := Nat.lt_succ_of_lt (owned.old g old)
  all g small := by
    rcases Nat.lt_succ_iff_lt_or_eq.mp small with small | rfl
    · rcases owned.all g small with same | rest
      · rw [free] at same
        cases same
      · exact Or.inr rest
    · exact Or.inl rfl

theorem owned_unint (owned : Owned s) (idle : s.deleting t = none)
    (installed : s.gLoopManager = some g) :
    Owned ({ s with gLoopManager := none }.setDeletion t (some ⟨g, loopers, .test⟩)) := by
  obtain ⟨small, free, kept⟩ := owned.installed g installed
  have removes : Loops.removes _ = _ :=
    removes_setDeletion { s with gLoopManager := none } t (some ⟨g, loopers, .test⟩)
  have others : ∀ u h, Function.update s.removes t (some g) u = some h → u = t ∧ h = g ∨ u ≠ t ∧
      s.removes u = some h := by
    intro u h removed
    by_cases same : u = t
    · subst same
      rw [Function.update_self] at removed
      exact Or.inl ⟨rfl, (Option.some.inj removed).symm⟩
    · rw [Function.update_of_ne same] at removed
      exact Or.inr ⟨same, removed⟩
  constructor
  case installed => exact fun g => nofun
  case removed =>
    intro u h removed
    rw [removes] at removed
    rcases others u h removed with ⟨-, rfl⟩ | ⟨-, removed⟩
    · exact ⟨small, kept⟩
    · exact owned.removed u h removed
  case alone =>
    intro u v h first second
    rw [removes] at first second
    rcases others u h first with
        ⟨here, rfl⟩ | ⟨-, before⟩ <;> rcases others v h second with ⟨there, same⟩ | ⟨-, after⟩
    · rw [here, there]
    · exact absurd after (free v)
    · exact absurd (same ▸ before) (free u)
    · exact owned.alone u v h before after
  case once => exact owned.once
  case old => exact owned.old
  case all =>
    intro h small
    refine Or.inr ?_
    rw [removes]
    rcases owned.all h small with same | ⟨u, removed⟩ | old
    · rw [installed] at same
      cases same
      exact Or.inl ⟨t, Function.update_self ..⟩
    · have apart : u ≠ t := by
        rintro rfl
        rw [Loops.removes, idle] at removed
        cases removed
      exact Or.inl ⟨u, by rw [Function.update_of_ne apart]; exact removed⟩
    · exact Or.inr old

theorem owned_finish (owned : Owned s) (removed : s.removes t = some g) :
    Owned { s.setDeletion t none with deleted := g :: s.deleted } := by
  obtain ⟨small, kept⟩ := owned.removed t g removed
  have removes : Loops.removes { s.setDeletion t none with deleted := g :: s.deleted } =
      Function.update s.removes t none := removes_setDeletion s t none
  have others : ∀ u h, Function.update s.removes t none u = some h → u ≠ t ∧
      s.removes u = some h := by
    intro u h removed
    have apart : u ≠ t := by
      rintro rfl
      rw [Function.update_self] at removed
      cases removed
    rw [Function.update_of_ne apart] at removed
    exact ⟨apart, removed⟩
  constructor
  case installed =>
    intro h same
    obtain ⟨small, free, kept⟩ := owned.installed h same
    rw [removes]
    refine ⟨small, fun u removed => free u (others u h removed).2, fun member => ?_⟩
    rcases List.mem_cons.mp member with rfl | member
    · exact free t removed
    · exact kept member
  case removed =>
    intro u h other
    rw [removes] at other
    obtain ⟨apart, other⟩ := others u h other
    refine ⟨(owned.removed u h other).1, fun member => ?_⟩
    rcases List.mem_cons.mp member with rfl | member
    · exact apart (owned.alone u t h other removed)
    · exact (owned.removed u h other).2 member
  case alone =>
    intro u v h first second
    rw [removes] at first second
    exact owned.alone u v h (others u h first).2 (others v h second).2
  case once => exact List.nodup_cons.mpr ⟨kept, owned.once⟩
  case old =>
    intro h member
    rcases List.mem_cons.mp member with rfl | member
    · exact small
    · exact owned.old h member
  case all =>
    intro h small
    rw [removes]
    rcases owned.all h small with same | ⟨u, other⟩ | old
    · exact Or.inl same
    · by_cases same : u = t
      · subst same
        rw [removed] at other
        cases other
        exact Or.inr (Or.inr List.mem_cons_self)
      · exact Or.inr (Or.inl ⟨u, by rw [Function.update_of_ne same]; exact other⟩)
    · exact Or.inr (Or.inr (List.mem_cons_of_mem _ old))

/-! ### What a step does -/

section Took

variable (platform : Platform) (caller : Nat → AsioType → Nat → Option Nat)

/-- Why a thread turns to the next looper: `stoped_` was set already, the pump is that of Windows,
or `Join` returned. -/
inductive Passes (p q : Pumps R) (type : MessagePumpType) : Stage → Prop where
  | skipped (stoped : p.stoped type = true) (same : q = p) : Passes p q type .test
  | window (windows : platform = .windows) (isUi : type = .ui)
      (after : q = { p with ui := { p.ui with stoped := true } }) : Passes p q type .test
  | joined (joined : p.Joined type) (same : q = p) : Passes p q type .joining

/-- How a thread goes on with the looper that it is at. -/
inductive Continues (caller : AsioType → Nat → Option Nat) (p q : Pumps R)
    (type : MessagePumpType) :
    Stage → Stage → Prop where
  | posts (c : Nat) (open' : p.stoped type = false) (posts : p.post caller type c = some q) :
      Continues caller p q type .test (.posting c)
  | stops (c : Nat) (stops : p.setStoped caller type c = some q) : Continues caller p q type (.posting c) .joining

inductive Took (s : Loops R) : Event R → Loops R → Prop where
  | kept (event : Event R) : Took s event s
  | init (free : s.gLoopManager = none) :
      Took s .initMessageLoop { s with gLoopManager := some s.created, created := s.created + 1 }
  | unint {t g : Nat} (idle : s.deleting t = none) (installed : s.gLoopManager = some g) :
      Took s (.unintMessageLoop t) ({ s with gLoopManager := none }.setDeletion t (some ⟨g, loopers, .test⟩))
  | passes {event : Event R} {t g : Nat} {type : MessagePumpType} {rest : List MessagePumpType} {stage : Stage}
      {p : Pumps R} (found : s.deleting t = some ⟨g, type :: rest, stage⟩)
      (passes : Passes platform (s.pumps g) p type stage) :
      Took s event ((s.setPumps g p).setDeletion t (some ⟨g, rest, .test⟩))
  | continues {event : Event R} {t g : Nat} {type : MessagePumpType} {rest : List MessagePumpType}
      {stage stage' : Stage} {p : Pumps R} (found : s.deleting t = some ⟨g, type :: rest, stage⟩)
      (continues : Continues (caller g) (s.pumps g) p type stage stage') :
      Took s event ((s.setPumps g p).setDeletion t (some ⟨g, type :: rest, stage'⟩))
  | finish {t g : Nat} (found : s.deleting t = some ⟨g, [], .test⟩) :
      Took s (.finish t) { s.setDeletion t none with deleted := g :: s.deleted }
  | pump {g : Nat} {event : Pumps.Event R} {p : Pumps R} (small : g < s.created) (foreign : event.isForeign = true)
      (stepped : (s.pumps g).step (caller g) event = some p) : Took s (.pump g event) (s.setPumps g p)

variable {platform} {caller}

theorem setPumps_self (s : Loops R) (g : Nat) : s.setPumps g (s.pumps g) = s := by
  unfold Loops.setPumps
  rw [Function.update_eq_self]

theorem took_stop {c : Nat} (h : s.stop platform caller t c = some s') :
    Took platform caller s (.stop t c) s' := by
  unfold Loops.stop at h
  split at h
  · rename_i g type rest found
    split at h
    · cases h
      exact .passes found (.window rfl rfl rfl)
    · split at h
      · rename_i stoped
        cases h
        have passes : Took platform caller s (.stop t c) _ := .passes found (.skipped stoped rfl)
        rwa [setPumps_self] at passes
      · rename_i open'
        obtain ⟨p, posted, rfl⟩ := Option.map_eq_some_iff.mp h
        exact .continues found (.posts c (Bool.eq_false_iff.mpr open') posted)
  · cases h

theorem took_stoped (h : s.stoped caller t = some s') : Took platform caller s (.stoped t) s' := by
  unfold Loops.stoped at h
  split at h
  · rename_i g type rest c found
    obtain ⟨p, stops, rfl⟩ := Option.map_eq_some_iff.mp h
    exact .continues found (.stops c stops)
  · cases h

variable [DecidableEq R]

theorem took_join (h : s.join t = some s') : Took platform caller s (.join t) s' := by
  unfold Loops.join at h
  split at h
  · rename_i g type rest found
    obtain ⟨joined, h⟩ := Option.ite_none_right_eq_some.mp h
    cases h
    have passes : Took platform caller s (.join t) _ := .passes found (.joined joined rfl)
    rwa [setPumps_self] at passes
  · cases h

theorem took {event : Event R} (h : s.step platform caller event = some s') :
    Took platform caller s event s' := by
  cases event with
  | initMessageLoop =>
    cases h
    unfold Loops.initMessageLoop
    split
    · exact .kept _
    · exact .init ‹_›
  | unintMessageLoop t =>
    obtain ⟨idle, h⟩ := Option.ite_none_right_eq_some.mp h
    cases h
    unfold Loops.unintMessageLoop
    split
    · exact .unint idle ‹_›
    · exact .kept _
  | stop t c => exact took_stop h
  | stoped t => exact took_stoped h
  | join t => exact took_join h
  | finish t =>
    simp only [Loops.step, Loops.finish] at h
    split at h
    · cases h
      exact .finish ‹_›
    · cases h
  | pump g event =>
    obtain ⟨⟨small, foreign⟩, h⟩ := Option.ite_none_right_eq_some.mp h
    obtain ⟨p, stepped, rfl⟩ := Option.map_eq_some_iff.mp h
    exact .pump small foreign stepped

end Took

/-! ### How far a deletion is -/

/-- The loopers whose `Stop` has not begun. -/
def Deletion.ahead (d : Deletion) : List MessagePumpType :=
  if d.stage = .test then d.loopers else d.loopers.tail

/-- The loopers that were deleted are retired, and nobody has touched those that come after the next
one. -/
structure Progress (caller : AsioType → Nat → Option Nat) (p : Pumps R) (d : Deletion) : Prop where
  nodup : d.loopers.Nodup
  passed : ∀ type, type ∉ d.loopers → p.Retired caller type
  ahead : ∀ type ∈ d.ahead, p.Untouched type
  stoped : d.stage = .joining → ∀ type ∈ d.loopers.head?, p.stoped type = true

section Progress

variable {caller : AsioType → Nat → Option Nat} {p q : Pumps R} {type : MessagePumpType} {rest : List MessagePumpType}
  {stage : Stage}

theorem mem_loopers (type : MessagePumpType) : type ∈ loopers := by
  rcases type with _ | type
  · decide
  · cases type <;> decide

theorem progress_begin (untouched : ∀ type, p.Untouched type) :
    Progress caller p ⟨g, loopers, .test⟩ where
  nodup := show loopers.Nodup by decide
  passed type absent := absurd (mem_loopers type) absent
  ahead type _ := untouched type
  stoped := nofun

theorem mem_ahead {other : MessagePumpType} (member : other ∈ rest) :
    other ∈ Deletion.ahead ⟨g, type :: rest, stage⟩ := by
  unfold Deletion.ahead
  split
  · exact List.mem_cons_of_mem _ member
  · exact member

theorem progress_next (progress : Progress caller p ⟨g, type :: rest, stage⟩)
    (same : ∀ other, other ≠ type → p.Same q other) (retired : q.Retired caller type) :
    Progress caller q ⟨g, rest, .test⟩ := by
  obtain ⟨apart, nodup⟩ := List.nodup_cons.mp progress.nodup
  refine ⟨nodup, fun other absent => ?_, fun other member => ?_, nofun⟩
  · by_cases equal : other = type
    · rw [equal]
      exact retired
    · exact (same other equal).retired (progress.passed other (List.not_mem_cons_of_ne_of_not_mem equal absent))
  · have different : other ≠ type := by
      rintro rfl
      exact apart member
    exact (same other different).untouched (progress.ahead other (mem_ahead member))

theorem progress_within {stage' : Stage} (progress : Progress caller p ⟨g, type :: rest, stage⟩)
    (same : ∀ other, other ≠ type → p.Same q other) (begun : stage' ≠ .test)
    (stoped : stage' = .joining → q.stoped type = true) :
    Progress caller q ⟨g, type :: rest, stage'⟩ := by
  obtain ⟨apart, nodup⟩ := List.nodup_cons.mp progress.nodup
  refine ⟨progress.nodup, fun other absent => ?_, fun other member => ?_,
    fun joining other member => ?_⟩
  · have different : other ≠ type := by
      rintro rfl
      exact absent List.mem_cons_self
    exact (same other different).retired (progress.passed other absent)
  · rw [Deletion.ahead, if_neg begun] at member
    have different : other ≠ type := by
      rintro rfl
      exact apart member
    exact (same other different).untouched (progress.ahead other (mem_ahead member))
  · cases Option.some.inj member
    exact stoped joining

theorem progress_passes {platform : Platform}
    (progress : Progress caller p ⟨g, type :: rest, stage⟩) (all : p.AllCallers caller)
    (passes : Passes platform p q type stage) :
    Progress caller q ⟨g, rest, .test⟩ ∧ q.AllCallers caller := by
  cases passes with
  | skipped stoped same =>
    -- Nobody else calls `Stop`, so `stoped_` is not set yet.
    have untouched := progress.ahead type List.mem_cons_self
    rw [untouched.stoped] at stoped
    cases stoped
  | window windows isUi after =>
    subst isUi after
    refine ⟨progress_next progress (fun other apart => ?_) rfl, all⟩
    cases other with
    | ui => exact absurd rfl apart
    | asio other => rfl
  | joined joined same =>
    subst same
    have stoped := progress.stoped rfl type rfl
    refine ⟨progress_next progress (fun other _ => ?_) (Pumps.joined_retired joined stoped all),
      all⟩
    cases other <;> rfl

theorem progress_continues {stage' : Stage} (progress : Progress caller p ⟨g, type :: rest, stage⟩)
    (all : p.AllCallers caller) (continues : Continues caller p q type stage stage') :
    Progress caller q ⟨g, type :: rest, stage'⟩ ∧ q.AllCallers caller := by
  cases continues with
  | posts c open' posts =>
    exact ⟨progress_within progress (fun _ apart => Pumps.change_same posts apart) nofun nofun,
      Pumps.change_callers posts all⟩
  | stops c stops =>
    exact ⟨progress_within progress (fun _ apart => Pumps.change_same stops apart) nofun
      fun _ => Pumps.setStoped_stoped stops, Pumps.change_callers stops all⟩

end Progress

/-! ### One generation after another -/

/-- `InitMessageLoop` is not called while a thread is in `UnintMessageLoop`, as when one thread
makes both calls. -/
def Calm (s : Loops R) (event : Event R) : Prop :=
  event = .initMessageLoop → ∀ t, s.deleting t = none

/-- A thread of a pump that has not ended. -/
def Live (s : Loops R) (g : Nat) (type : AsioType) (w : Nat) : Prop :=
  g < s.created ∧ w < ((s.pumps g).asio type).pump.threads ∧ ((s.pumps g).asio type).pump.workers w ≠ .exited

/-- At most one thread deletes a manager, and none is installed then. -/
structure Single (s : Loops R) : Prop where
  free : ∀ t g, s.removes t = some g → s.gLoopManager = none
  one : ∀ t u g h, s.removes t = some g → s.removes u = some h → t = u

theorem single_initial : Single ({} : Loops R) where
  free _ _ := nofun
  one _ _ _ _ := nofun

theorem single_frame (single : Single s) (installed : s'.gLoopManager = s.gLoopManager)
    (removes : s'.removes = s.removes) : Single s' where
  free := by rw [installed, removes]; exact single.free
  one := by rw [removes]; exact single.one

/-! ### Over whole runs -/

section Kept

variable {platform : Platform} {caller : Nat → AsioType → Nat → Option Nat}

structure Kept (caller : Nat → AsioType → Nat → Option Nat) (s : Loops R) : Prop where
  owned : Owned s
  callers : ∀ g, (s.pumps g).AllCallers (caller g)
  fresh : ∀ g, s.gLoopManager = some g ∨ s.created ≤ g → ∀ type, (s.pumps g).Untouched type
  progress : ∀ t d, s.deleting t = some d → Progress (caller d.manager) (s.pumps d.manager) d
  gone : ∀ g ∈ s.deleted, ∀ type, (s.pumps g).Retired (caller g) type

theorem kept_initial : Kept caller ({} : Loops R) where
  owned := owned_initial
  callers _ type := initial_callers _
  fresh _ _ type := by
    cases type with
    | ui => rfl
    | asio type => exact initial_untouched _
  progress _ _ := nofun
  gone _ := nofun

/-- A thread goes on with its deletion. -/
theorem kept_moves (kept : Kept caller s) {d : Deletion} (found : s.deleting t = some d)
    (d' : Deletion) (same : d'.manager = d.manager) {p : Pumps R}
    (progress : Progress (caller d.manager) p d' ∧ p.AllCallers (caller d.manager)) :
    Kept caller ((s.setPumps d.manager p).setDeletion t (some d')) := by
  have removes : s.removes t = some d.manager := by rw [Loops.removes, found, Option.map_some]
  have elsewhere : ∀ g, g ≠ d.manager → ((s.setPumps d.manager p).setDeletion t (some d')).pumps g =
      s.pumps g :=
    fun g apart => Function.update_of_ne apart ..
  have here : ((s.setPumps d.manager p).setDeletion t (some d')).pumps d.manager = p :=
    Function.update_self ..
  constructor
  case owned =>
    refine owned_frame kept.owned rfl rfl ?_ rfl
    rw [removes_setDeletion, Option.map_some, same, ← removes]
    exact Function.update_eq_self ..
  case callers =>
    intro g
    by_cases equal : g = d.manager
    · rw [equal, here]
      exact progress.2
    · rw [elsewhere g equal]
      exact kept.callers g
  case fresh =>
    intro g outside
    have apart : g ≠ d.manager := by
      rintro rfl
      rcases outside with installed | large
      · exact (kept.owned.installed _ installed).2.1 t removes
      · exact absurd (kept.owned.removed t _ removes).1 (Nat.not_lt.mpr large)
    rw [elsewhere g apart]
    exact kept.fresh g outside
  case progress =>
    intro u e deletes
    rcases deleting_setDeletion.mp deletes with ⟨rfl, after⟩ | ⟨other, before⟩
    · cases after
      rw [same, here]
      exact progress.1
    · have before : s.deleting u = some e := before
      have apart : e.manager ≠ d.manager := by
        intro both
        exact other (kept.owned.alone u t d.manager (by rw [Loops.removes, before, Option.map_some, both]) removes)
      rw [elsewhere _ apart]
      exact kept.progress u e before
  case gone =>
    intro g old
    have apart : g ≠ d.manager := by
      rintro rfl
      exact (kept.owned.removed t _ removes).2 old
    rw [elsewhere g apart]
    exact kept.gone g old

theorem kept_pump (kept : Kept caller s) {event : Pumps.Event R} {p : Pumps R}
    (foreign : event.isForeign = true) (h : (s.pumps g).step (caller g) event = some p) :
    Kept caller (s.setPumps g p) := by
  have elsewhere : ∀ h, h ≠ g → (s.setPumps g p).pumps h = s.pumps h :=
    fun h apart => Function.update_of_ne apart ..
  have here : (s.setPumps g p).pumps g = p := Function.update_self ..
  have foreign := Pumps.step_foreign foreign h
  constructor
  case owned => exact owned_frame kept.owned rfl rfl rfl rfl
  case callers =>
    intro i
    by_cases equal : i = g
    · rw [equal, here]
      exact Pumps.step_allCallers h (kept.callers g)
    · rw [elsewhere i equal]
      exact kept.callers i
  case fresh =>
    intro i outside type
    by_cases equal : i = g
    · rw [equal, here]
      exact (foreign type).1 (kept.fresh g (equal ▸ outside) type)
    · rw [elsewhere i equal]
      exact kept.fresh i outside type
  case progress =>
    intro t d deletes
    have before := kept.progress t d deletes
    by_cases equal : d.manager = g
    · rw [equal] at before ⊢
      rw [here]
      exact ⟨before.nodup, fun type absent => (foreign type).2.1 (before.passed type absent),
        fun type member => (foreign type).1 (before.ahead type member),
        fun joining type member => (foreign type).2.2 (before.stoped joining type member)⟩
    · rw [elsewhere _ equal]
      exact before
  case gone =>
    intro i old type
    by_cases equal : i = g
    · rw [equal, here]
      exact (foreign type).2.1 (kept.gone g (equal ▸ old) type)
    · rw [elsewhere i equal]
      exact kept.gone i old type

theorem kept_took {event : Event R} (kept : Kept caller s)
    (took : Took platform caller s event s') :
    Kept caller s' := by
  cases took with
  | kept => exact kept
  | init free =>
    refine ⟨owned_init kept.owned free, kept.callers, fun g outside => ?_, kept.progress, kept.gone⟩
    refine kept.fresh g (Or.inr ?_)
    rcases outside with installed | large
    · exact Nat.le_of_eq (Option.some.inj installed)
    · exact Nat.le_of_succ_le large
  | @unint t g idle installed =>
    refine ⟨owned_unint kept.owned idle installed, kept.callers, fun h outside => ?_,
      fun u d deletes => ?_, kept.gone⟩
    · exact kept.fresh h (outside.resolve_left nofun |> Or.inr)
    · rcases deleting_setDeletion.mp deletes with ⟨-, after⟩ | ⟨-, before⟩
      · cases after
        exact progress_begin (kept.fresh g (Or.inl installed))
      · exact kept.progress u d before
  | passes found passes =>
    refine kept_moves kept found _ ?_ (progress_passes (kept.progress _ _ found) (kept.callers _) passes)
    rfl
  | continues found continues =>
    refine kept_moves kept found _ ?_ (progress_continues (kept.progress _ _ found) (kept.callers _) continues)
    rfl
  | @finish t g found =>
    have removes : s.removes t = some g := by rw [Loops.removes, found, Option.map_some]
    refine ⟨owned_finish kept.owned removes, kept.callers, kept.fresh, fun u d deletes => ?_,
      fun h old type => ?_⟩
    · rcases deleting_setDeletion.mp deletes with ⟨-, after⟩ | ⟨-, before⟩
      · cases after
      · exact kept.progress u d before
    · rcases List.mem_cons.mp old with rfl | old
      · exact (kept.progress t _ found).passed type (List.not_mem_nil)
      · exact kept.gone h old type
  | pump small foreign stepped => exact kept_pump kept foreign stepped

/-- Whatever happens to the managers is a step of each pump, or nothing to it. -/
theorem took_asio {event : Event R} (took : Took platform caller s event s') (g : Nat)
    (type : AsioType) :
    (s'.pumps g).asio type = (s.pumps g).asio type ∨
      ∃ event, ((s.pumps g).asio type).step (caller g type) event =
        some ((s'.pumps g).asio type) := by
  have one {i : Nat} {p : Pumps R} (changed : p.asio type = (s.pumps i).asio type ∨
      ∃ event, ((s.pumps i).asio type).step (caller i type) event = some (p.asio type)) :
      ((s.setPumps i p).pumps g).asio type = (s.pumps g).asio type ∨
        ∃ event, ((s.pumps g).asio type).step (caller g type) event = some (((s.setPumps i p).pumps g).asio type) := by
    by_cases equal : g = i
    · subst equal
      rwa [show (s.setPumps g p).pumps g = p from Function.update_self ..]
    · exact Or.inl (congrArg (Pumps.asio · type) (Function.update_of_ne equal ..))
  cases took with
  | kept | init | unint | finish => exact Or.inl rfl
  | passes found passes =>
    refine one (Or.inl ?_)
    cases passes with
    | skipped stoped same | joined joined same => rw [same]
    | window windows isUi after => rw [after]
  | continues found continues =>
    cases continues with
    | posts c open' posts => exact one (Pumps.change_asio posts type)
    | stops c stops => exact one (Pumps.change_asio stops type)
  | @pump i event p small foreign stepped =>
    refine one ?_
    cases event with
    | ui event =>
      obtain ⟨ui, -, rfl⟩ := Option.map_eq_some_iff.mp stepped
      exact Or.inl rfl
    | asio other event => exact Pumps.asio_step stepped

variable [DecidableEq R] {events : List (Event R)}

theorem run_kept (h : run (Loops.step platform caller) {} events = some s) : Kept caller s :=
  run_keeps (fun _ _ _ kept stepped => kept_took kept (took stepped)) kept_initial h

/-- Nobody but the manager calls `Stop` of a pump here. Then what the accessors return is a pump
that takes tasks, or the empty one. At any time at most one thread deletes a manager, and none is
deleted twice. -/
theorem accessor_running (h : run (Loops.step platform caller) {} events = some s) :
    Owned s ∧ ∀ type g other, s.getMessagePumpByType type = some (g, other) →
      other = type ∧ g < s.created ∧ (s.pumps g).Untouched type := by
  have kept := run_kept h
  refine ⟨kept.owned, fun type g other found => ?_⟩
  obtain ⟨i, installed, looper⟩ := Option.bind_eq_some_iff.mp found
  obtain ⟨key, isKey, same⟩ := Option.map_eq_some_iff.mp looper
  cases same
  have asked : (other == type) = true := @List.find?_some _ (· == type) _ _ isKey
  exact ⟨beq_iff_eq.mp asked, (kept.owned.installed g installed).1,
    kept.fresh g (Or.inl installed) type⟩

/-- Every call of `PostRunable` is made from outside of the pumps. -/
def outside : Nat → AsioType → Nat → Option Nat := fun _ _ _ => none

/-- A manager is constructed while the first one is being deleted. -/
def initAgain : List (Event Unit) := [.initMessageLoop, .unintMessageLoop 0, .initMessageLoop]

theorem accessor_running_initAgain :
    ∃ s, run (Loops.step .android outside) {} initAgain = some s ∧ Owned s ∧
    ∀ type g other, s.getMessagePumpByType type = some (g, other) →
      other = type ∧ g < s.created ∧ (s.pumps g).Untouched type := by
  have reached : run (Loops.step .android outside) {} initAgain = some _ := rfl
  exact ⟨_, reached, accessor_running reached⟩

/-! ### When `UnintMessageLoop` has returned -/

/-- No thread is left, no task was started since, and calls of `PostRunable` made since are
refused. -/
structure Quiet (caller : Nat → Option Nat) (before after : Service R) : Prop where
  retired : Retired caller after
  started : after.pump.started = before.pump.started
  refusing : Refusing before after

/-- When `UnintMessageLoop` has returned, the threads of all asio pumps of the manager have ended,
if nobody but the manager calls `Stop` of a pump. Whatever happens then, no task of them is started,
and nobody who still has one of them can post to it. -/
theorem unint_quiet {later : List (Event R)}
    (h : run (Loops.step platform caller) {} events = some s) (gone : g ∈ s.deleted)
    (after : run (Loops.step platform caller) s later = some s') (type : AsioType) :
    Quiet (caller g type) ((s.pumps g).asio type) ((s'.pumps g).asio type) := by
  have retired : Retired (caller g type) ((s.pumps g).asio type) :=
    (run_kept h).gone g gone (.asio type)
  refine run_keeps (I := fun u => Quiet (caller g type) ((s.pumps g).asio type) ((u.pumps g).asio type)) ?_
    ⟨retired, rfl, fun _ idle => Or.inl idle⟩ after
  intro u event v quiet stepped
  rcases took_asio (took stepped) g type with same | ⟨event, moved⟩
  · rwa [same]
  · obtain ⟨retired, started⟩ := retired_step quiet.retired moved
    exact ⟨retired, started.trans quiet.started,
      refusing_step quiet.refusing quiet.retired.stoped moved⟩

/-- `DoStop` is posted, the first thread runs it, and all threads end. -/
def shutDown (type : AsioType) : List (Event Unit) :=
  let pump (event : Service.Event Unit) : Event Unit := .pump 0 (.asio type event)
  [.stop 0 0, pump (.insert 0), pump (.wake 0), .stoped 0, pump (.handler 0), pump (.take 0), pump (.start 0),
    pump (.finish 0), pump (.rearm 0)] ++ (List.range type.threadCount).map (fun w => pump (.clear w)) ++ [.join 0]

def wholeLife : List (Event Unit) :=
  [.initMessageLoop, .unintMessageLoop 0, .stop 0 0] ++ shutDown .io ++ shutDown .work ++ shutDown .file ++ [.finish 0]

theorem wholeLife_deleted :
    ∃ s, run (Loops.step .windows outside) {} wholeLife = some s ∧ s.deleted = [0] := by
  have gone : (run (Loops.step .windows outside) {} wholeLife).map Loops.deleted = some [0] := by
    decide +kernel
  obtain ⟨s, reached, deleted⟩ := Option.map_eq_some_iff.mp gone
  exact ⟨s, reached, deleted⟩

theorem unint_quiet_wholeLife : ∃ s, run (Loops.step .windows outside) {} wholeLife = some s ∧
    ∀ later s', run (Loops.step .windows outside) s later = some s' → ∀ type,
      Quiet (outside 0 type) ((s.pumps 0).asio type) ((s'.pumps 0).asio type) := by
  obtain ⟨s, reached, deleted⟩ := wholeLife_deleted
  exact ⟨s, reached, fun later s' after type => unint_quiet reached (by rw [deleted]; exact List.mem_cons_self) after type⟩

theorem single_step {event : Event R} (single : Single s) (calm : Calm s event)
    (h : s.step platform caller event = some s') : Single s' := by
  have goes {t g : Nat} {d d' : Deletion} {p : Pumps R} (found : s.deleting t = some d) (same : d'.manager = d.manager) :
      Single ((s.setPumps g p).setDeletion t (some d')) := by
    refine single_frame single rfl ?_
    have removes : s.removes t = some d.manager := by rw [Loops.removes, found, Option.map_some]
    rw [removes_setDeletion, Option.map_some, same, ← removes]
    exact Function.update_eq_self ..
  cases took h with
  | kept => exact single
  | init free =>
    have nobody (t g : Nat) : s.removes t ≠ some g := by
      rw [Loops.removes, calm rfl t]
      nofun
    exact ⟨fun t g removes => absurd removes (nobody t g),
      fun t _ g _ removes => absurd removes (nobody t g)⟩
  | @unint t g idle installed =>
    have others : ∀ u h, Loops.removes
        ({ s with gLoopManager := none }.setDeletion t (some ⟨g, loopers, .test⟩)) u =
        some h → u = t := by
      intro u h removes
      by_contra apart
      rw [removes_setDeletion, Function.update_of_ne apart] at removes
      have free := single.free u h removes
      rw [installed] at free
      cases free
    exact ⟨fun _ _ _ => rfl,
      fun u v h i first second => (others u h first).trans (others v i second).symm⟩
  | passes found => exact goes found rfl
  | continues found => exact goes found rfl
  | @finish t g found =>
    have fewer : ∀ u h, Loops.removes { s.setDeletion t none with deleted := g :: s.deleted } u =
        some h → s.removes u = some h := by
      intro u h removes
      obtain ⟨d, deletes, same⟩ := Option.map_eq_some_iff.mp removes
      rcases deleting_setDeletion.mp deletes with ⟨-, after⟩ | ⟨-, before⟩
      · cases after
      · rw [Loops.removes, before, Option.map_some, same]
    exact ⟨fun u h removes => single.free u h (fewer u h removes),
      fun u v h i first second => single.one u v h i (fewer u h first) (fewer v i second)⟩
  | pump => exact single_frame single rfl rfl

/-- If the two calls do not overlap, the threads of the asio pumps of two managers are never there
together: a task of an asio pump of the new manager never meets one of the old manager. The pump of
the UI on Android has no thread that is joined, so this does not speak of its tasks. -/
theorem generations_apart (calm : EachStep (Loops.step platform caller) Calm {} events)
    (h : run (Loops.step platform caller) {} events = some s) {i j : Nat} {type other : AsioType}
    {v w : Nat} (first : Live s i type v) (second : Live s j other w) : i = j := by
  have single : Single s :=
    run_keeps_under (fun _ _ _ single calm stepped => single_step single calm stepped) single_initial calm h
  have kept := run_kept h
  have current {g : Nat} {type : AsioType} {w : Nat} (live : Live s g type w) :
      s.gLoopManager = some g ∨ ∃ t, s.removes t = some g := by
    rcases kept.owned.all g live.1 with installed | removed | old
    · exact Or.inl installed
    · exact Or.inr removed
    · have retired : Retired (caller g type) ((s.pumps g).asio type) := kept.gone g old (.asio type)
      exact absurd (retired.exited w live.2.1) live.2.2
  rcases current first with
      installed | ⟨t, removes⟩ <;> rcases current second with also | ⟨u, alsoRemoves⟩
  · exact Option.some.inj (installed.symm.trans also)
  · cases (single.free u j alsoRemoves).symm.trans installed
  · cases (single.free t i removes).symm.trans also
  · cases single.one t u i j removes alsoRemoves
    exact Option.some.inj (removes.symm.trans alsoRemoves)

/-- The manager is being deleted, and its threads are still there. -/
def removed : List (Event Unit) := [.initMessageLoop, .unintMessageLoop 0]

theorem generations_apart_removed : ∃ s, run (Loops.step .android outside) {} removed = some s ∧
    Live s 0 .io 0 ∧ Live s 0 .work 3 ∧ ∀ i j type other v w, Live s i type v →
      Live s j other w → i = j := by
  have reached : run (Loops.step .android outside) {} removed = some _ := rfl
  have calm : EachStep (Loops.step .android outside) Calm {} removed :=
    (eachStep_cons rfl).mpr ⟨fun _ _ => rfl, (eachStep_cons rfl).mpr ⟨nofun, eachStep_nil⟩⟩
  refine ⟨_, reached, ⟨Nat.one_pos, Nat.one_pos, nofun⟩, ⟨Nat.one_pos, by decide, nofun⟩, ?_⟩
  exact fun i j type other v w first second => generations_apart calm reached first second

/-- Otherwise they may overlap. -/
example :
    ∃ s, run (Loops.step .android outside) {} initAgain = some s ∧ Live s 0 .io 0 ∧
      Live s 1 .io 0 :=
  ⟨_, rfl, ⟨Nat.two_pos, Nat.one_pos, nofun⟩, Nat.one_lt_two, Nat.one_pos, nofun⟩

end Kept

end Kingkong.Loop
