import Kingkong.Connection.Callbacks
import Kingkong.Connection.Step

/-!
What a connection does after its clean-up. Only the send queue looks at `already_clean_up`: every
other handler goes on to its next stage when its operation has succeeded, and so does a lookup whose
task was posted before.
-/

namespace Kingkong.Connection
open Lib State

variable {literals : Socks5.Literals} {request : NetConnectionRequest} {s t : State} {event : Event}
  {events : List Event}

/-- Nothing is started after the clean-up. -/
def Rests (s : State) : Prop :=
  s.history.Pairwise fun earlier later => earlier = .cleanUp → later.starts = false

instance : DecidablePred Rests := fun s => inferInstanceAs (Decidable (s.history.Pairwise _))

/-- The step takes a connection to its next stage: a lookup that still finds its resolver, the
success of a lookup that was not cancelled, or the success of another operation. -/
def revives (s : State) : Event → Bool
  | .run =>
    match s.tasks with
    | .doResolver k :: rest => { s with tasks := rest }.resolverAlive k
    | _ => false
  | .resolved k code => code == 0 && s.resolvers[k]?.any (·.delegate)
  | .connected ec | .tlsHandshake ec | .websocketHandshake ec | .read ec _ => ec == 0
  | _ => false

/-- Once the connection has been cleaned up, no step revives it. -/
def LeavesAlone (s : State) (event : Event) : Prop :=
  s.alreadyCleanUp = true → revives s event = false

instance (s : State) (event : Event) : Decidable (LeavesAlone s event) :=
  inferInstanceAs (Decidable (_ → _))

/-! ### The effects on a connection that was cleaned up -/

theorem cleaning_clean (clean : s.alreadyCleanUp = true) : cleaning s = [] := by
  simp [cleaning, clean]

theorem told_starts (callback : Callback) : (told s callback).any Action.starts = false := by
  unfold told
  split <;> rfl

theorem handshaking_starts (code : Int) :
    (handshaking request s code).any Action.starts = true := by
  rw [handshaking_eq]
  split
  · rfl
  · split
    · rfl
    · simp [Action.starts]

/-- A step starts something exactly when it revives the connection. -/
theorem effects_starts (clean : s.alreadyCleanUp = true) (client : s.socks5Client = none) :
    (effects literals request s event).any Action.starts = revives s event := by
  cases event with
  | connect => rfl
  | disConnect => rfl
  | send buffer => rfl
  | run =>
    simp only [effects, runEffects, revives]
    cases tasks : s.tasks with
    | nil => rfl
    | cons task rest =>
      cases task with
      | doResolver k =>
        dsimp only
        split
        · rename_i alive
          simp [alive, Action.starts]
        · rename_i dead
          simp [dead]
      | doSendFromQueue buffer => simp [clean]
      | handleCleanUp => simp [cleaning_clean clean]
      | doDnsResolve => rfl
      | doCancel k => rfl
  | resolved k code =>
    simp only [effects, resolvedEffects, revives]
    cases s.resolvers[k]? with
    | none => simp
    | some resolver =>
      cases heard : resolver.delegate with
      | false => simp [heard]
      | true =>
        by_cases success : code = 0
        · simp [heard, success, Action.starts]
        · simp [heard, success, cleaning_clean clean, told_starts]
  | connected ec =>
    by_cases success : ec = 0
    · by_cases proxy : request.proxyHost = []
      · simp [effects, revives, success, proxy, handshaking_starts]
      · simp [effects, revives, success, proxy, Action.starts]
    · simp [effects, revives, success, cleaning_clean clean, told_starts]
  | socks5 event => simp [effects, answer, client, revives]
  | tlsHandshake ec =>
    by_cases success : ec = 0
    · by_cases websocket : request.netType = .websocketTls
      · simp [effects, revives, success, websocket, Action.starts]
      · simp [effects, revives, success, websocket, Action.starts]
    · simp [effects, revives, success, cleaning_clean clean, told_starts]
  | websocketHandshake ec =>
    by_cases success : ec = 0
    · simp [effects, revives, success, Action.starts]
    · simp [effects, revives, success, cleaning_clean clean, told_starts]
  | read ec data =>
    by_cases success : ec = 0
    · simp [effects, revives, success, Action.starts]
    · simp [effects, revives, success, cleaning_clean clean, told_starts]
  | written ec =>
    by_cases success : ec = 0
    · simp only [effects, success, if_true, clean, revives]
      split <;> rfl
    · simp [effects, revives, success, cleaning_clean clean, told_starts]

/-! ### Runs -/

structure Rested (s : State) : Prop where
  rests : Rests s
  dirty : s.alreadyCleanUp = false → .cleanUp ∉ s.history
  clean : s.alreadyCleanUp = true → .cleanUp ∈ s.history
  client : s.alreadyCleanUp = true → s.socks5Client = none

theorem initial_rested : Rested {} := by
  refine ⟨List.Pairwise.nil, fun _ => List.not_mem_nil, ?_, ?_⟩
  · intro clean
    cases clean
  · intro clean
    cases clean

theorem quiet_rests {history added : List Action} (quiet : ∀ action ∈ added, action.starts = false)
    (rests : history.Pairwise fun earlier later => earlier = .cleanUp → later.starts = false) :
    (history ++ added).Pairwise fun earlier later => earlier = Action.cleanUp →
      later.starts = false := by
  refine List.pairwise_append.mpr ⟨rests, ?_, fun _ _ action member _ => quiet action member⟩
  exact List.pairwise_of_forall_mem_list fun _ _ action member _ => quiet action member

theorem untouched_rests {history added : List Action} (before : .cleanUp ∉ history)
    (untouched : .cleanUp ∉ added) :
    (history ++ added).Pairwise fun earlier later => earlier = Action.cleanUp →
      later.starts = false := by
  apply List.pairwise_of_forall_mem_list
  rintro action member _ _ rfl
  exact ((List.mem_append.mp member).elim before untouched).elim

/-- A step on a connection that was cleaned up before, when it starts nothing. -/
theorem clean_rested (rested : Rested s) (clean : s.alreadyCleanUp = true)
    (quiet : ∀ action ∈ effects literals request s event, action.starts = false)
    (h : step literals request s event = some t) : Rested t := by
  have grows := step_history h
  cases step_settles h with
  | keeps same _ client =>
    refine ⟨?_, ?_, ?_, ?_⟩
    · rw [Rests, grows]
      exact quiet_rests quiet rested.rests
    · intro dirty
      rw [same, clean] at dirty
      cases dirty
    · intro _
      rw [grows]
      exact List.mem_append_left _ (rested.clean clean)
    · intro _
      apply client (rested.client clean)
      intro started
      cases quiet _ started
  | cleans dirty =>
    rw [clean] at dirty
    cases dirty

theorem dirty_rested (rested : Rested s) (dirty : s.alreadyCleanUp = false)
    (h : step literals request s event = some t) : Rested t := by
  have grows := step_history h
  cases step_settles h with
  | keeps same untouched _ =>
    have still : t.alreadyCleanUp = false := same.trans dirty
    refine ⟨?_, ?_, ?_, ?_⟩
    · rw [Rests, grows]
      exact untouched_rests (rested.dirty dirty) untouched
    · intro _ member
      rw [grows] at member
      exact (List.mem_append.mp member).elim (rested.dirty dirty) untouched
    · intro clean
      rw [still] at clean
      cases clean
    · intro clean
      rw [still] at clean
      cases clean
  | cleans _ clean client made quiet =>
    refine ⟨?_, ?_, ?_, fun _ => client⟩
    · rw [Rests, grows]
      exact quiet_rests quiet rested.rests
    · intro again
      rw [clean] at again
      cases again
    · intro _
      rw [grows]
      exact List.mem_append_right _ made

theorem step_rested (rested : Rested s) (alone : LeavesAlone s event)
    (h : step literals request s event = some t) :
    Rested t := by
  cases clean : s.alreadyCleanUp with
  | true =>
    refine clean_rested rested clean ?_ h
    have idle : (effects literals request s event).any Action.starts = false :=
      (effects_starts clean (rested.client clean)).trans (alone clean)
    simpa using idle
  | false => exact dirty_rested rested clean h

theorem step_revived (rested : Rested s) (revived : ¬ LeavesAlone s event)
    (h : step literals request s event = some t) :
    ¬ Rests t := by
  simp only [LeavesAlone, Classical.not_imp, Bool.not_eq_false] at revived
  obtain ⟨clean, works⟩ := revived
  have busy : (effects literals request s event).any Action.starts = true :=
    (effects_starts clean (rested.client clean)).trans works
  obtain ⟨action, member, starts⟩ := List.any_eq_true.mp busy
  intro rests
  rw [Rests, step_history h] at rests
  have quiet := (List.pairwise_append.mp rests).2.2 _ (rested.clean clean) action member rfl
  rw [starts] at quiet
  cases quiet

/-- Nothing is started after the clean-up exactly when no step revives a connection that has been
cleaned up. -/
theorem rests_iff (h : run (step literals request) {} events = some s) :
    Always (step literals request) Rests {} events ↔
      EachStep (step literals request) LeavesAlone {} events :=
  always_iff_eachStep (fun _ rested => rested.rests) (fun _ _ _ => step_rested) (fun _ _ _ => step_revived)
    initial_rested h

/-- The owner connects and disconnects at once. The clean-up runs between the task that creates the
resolver and the one that starts its lookup, and the task that cancels the resolver keeps it alive
for that one. -/
def disconnectsAtOnce : List Event := [.connect, .disConnect, .run, .run, .run]

theorem rests_disconnectsAtOnce :
    ∃ s, run (step Socks5.noLiterals plainRequest) {} disconnectsAtOnce = some s ∧
      s.history = [.cleanUp, .resolve 0] ∧ ¬ Rests s := by
  exact ⟨_, rfl, by decide, by decide⟩

-- A read that had succeeded before the clean-up reads on.
example : ∃ s, run (step Socks5.noLiterals plainRequest) {}
    [.connect, .run, .run, .resolved 0 0, .run, .connected 0, .disConnect, .run,
      .read 0 [1]] = some s ∧ ¬ Rests s :=
  ⟨_, rfl, by decide⟩

def disconnectsLate : List Event :=
  [.connect, .run, .run, .resolved 0 0, .run, .connected 0, .disConnect, .run, .read 125 []]

theorem rests_disconnectsLate :
    ∃ s, run (step Socks5.noLiterals plainRequest) {} disconnectsLate = some s ∧
      s.alreadyCleanUp = true ∧
      EachStep (step Socks5.noLiterals plainRequest) LeavesAlone {} disconnectsLate := by
  have always : Always (step Socks5.noLiterals plainRequest) Rests {} disconnectsLate :=
    always_of_passes (by decide)
  exact ⟨_, rfl, by decide, (rests_iff rfl).mp always⟩

end Kingkong.Connection
