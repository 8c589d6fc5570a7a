import Kingkong.Connection.Callbacks
import Kingkong.Connection.SendQueue

/-!
When a connection writes for its owner. `Send` only looks at `stoped_`, so a buffer that comes early
is written as soon as its task runs, whatever stage the connection has reached.
-/

namespace Kingkong.Connection
open Lib State

variable {literals : Socks5.Literals} {request : NetConnectionRequest} {s t : State} {event : Event}
  {events : List Event}

/-- Every `DoSendData` comes after an `OnConnect(0)`. -/
def Announced (history : List Action) : Prop :=
  ∀ before buffer after, history = before ++ .sendData buffer :: after → .callback (.onConnect 0) ∈ before

def Delivered (s : State) : Prop := .callback (.onConnect 0) ∈ s.history

instance : DecidablePred Delivered := fun s => inferInstanceAs (Decidable (_ ∈ s.history))

/-- The step runs a task of `Send`. -/
def takesBuffer (s : State) (event : Event) : Bool :=
  match event, s.tasks with
  | .run, .doSendFromQueue _ :: _ => true
  | _, _ => false

/-- A task of `Send` runs only after `OnConnect(0)`, or when the connection has been cleaned up. -/
def AwaitsConnect (s : State) (event : Event) : Prop :=
  takesBuffer s event = true → Delivered s ∨ s.alreadyCleanUp = true

instance (s : State) (event : Event) : Decidable (AwaitsConnect s event) :=
  inferInstanceAs (Decidable (_ → Delivered s ∨ _))

theorem takesBuffer_cases (takes : takesBuffer s event = true) :
    event = .run ∧ ∃ buffer rest, s.tasks = .doSendFromQueue buffer :: rest := by
  unfold takesBuffer at takes
  split at takes
  · rename_i buffer rest tasks
    exact ⟨rfl, buffer, rest, tasks⟩
  · cases takes

theorem announced_append {history more : List Action} (announced : Announced history)
    (late : ∀ buffer, .sendData buffer ∈ more → .callback (.onConnect 0) ∈ history) :
    Announced (history ++ more) := by
  intro before buffer after split
  rcases List.append_eq_append_iff.mp split with ⟨middle, rfl, tail⟩ | ⟨middle, rfl, tail⟩
  · have sent : .sendData buffer ∈ more := by
      rw [tail]
      simp
    exact List.mem_append_left _ (late buffer sent)
  · cases middle with
    | nil =>
      have sent : .sendData buffer ∈ more := by
        rw [List.nil_append] at tail
        rw [← tail]
        exact List.mem_cons_self
      have told := late buffer sent
      rwa [List.append_nil] at told
    | cons first rest =>
      obtain ⟨rfl, _⟩ := List.cons.inj tail
      exact announced before buffer rest rfl

/-- Before `OnConnect(0)` nothing is written, and nothing waits in the queue unless it is dead. -/
structure Waits (s : State) : Prop where
  announced : Announced s.history
  writes : ¬ Delivered s → s.writes = 0
  queue : ¬ Delivered s → s.alreadyCleanUp = false → s.sendBuffers = []

theorem initial_waits : Waits {} := by
  refine ⟨?_, fun _ => rfl, fun _ _ => rfl⟩
  intro before buffer after split
  simp at split

theorem delivered_grows (h : step literals request s event = some t) (delivered : Delivered s) :
    Delivered t := by
  unfold Delivered
  rw [step_history h]
  exact List.mem_append_left _ delivered

theorem handed_step (h : step literals request s event = some t) :
    handed t = handed s ++ (effects literals request s event).filterMap Action.sent := by
  rw [handed, step_history h, List.filterMap_append]
  rfl

/-- A step after which `DoSendData` has the calls it had before does not write. -/
theorem not_sent_of_handed (h : step literals request s event = some t) (same : handed t = handed s)
    (buffer : Bytes) :
    .sendData buffer ∉ effects literals request s event := by
  intro sent
  rw [handed_step h] at same
  have none := List.append_right_eq_self.mp same
  have member : buffer ∈ (effects literals request s event).filterMap Action.sent :=
    List.mem_filterMap.mpr ⟨.sendData buffer, sent, rfl⟩
  rw [none] at member
  cases member

theorem quiet_waits (waits : Waits s) (h : step literals request s event = some t)
    (same : handed t = handed s) (writes : t.writes = 0)
    (queue : t.alreadyCleanUp = false → t.sendBuffers = []) : Waits t := by
  refine ⟨?_, fun _ => writes, fun _ => queue⟩
  rw [step_history h]
  exact announced_append waits.announced fun buffer sent => absurd sent (not_sent_of_handed h same buffer)

theorem step_waits (waits : Waits s) (awaits : AwaitsConnect s event)
    (h : step literals request s event = some t) :
    Waits t := by
  by_cases delivered : Delivered s
  · have later := delivered_grows h delivered
    refine ⟨?_, fun silent => absurd later silent, fun silent => absurd later silent⟩
    rw [step_history h]
    exact announced_append waits.announced fun _ _ => delivered
  · have idle := waits.writes delivered
    have waiting := waits.queue delivered
    rcases step_outbox h with
        ⟨buffer, rest, ran, tasks, pushed⟩ | ⟨_, _, enabled, _⟩ | same | closed
    · have takes : takesBuffer s event = true := by simp [takesBuffer, ran, tasks]
      have clean := (awaits takes).resolve_left delivered
      rw [Outbox.push_closed clean] at pushed
      have stays : t.alreadyCleanUp = s.alreadyCleanUp := congrArg Outbox.closed pushed
      apply quiet_waits waits h (congrArg Outbox.handed pushed) ((congrArg Outbox.writing pushed).trans idle)
      intro dirty
      rw [stays, clean] at dirty
      cases dirty
    · omega
    · apply quiet_waits waits h (congrArg Outbox.handed same) ((congrArg Outbox.writing same).trans idle)
      intro dirty
      exact (congrArg Outbox.queue same).trans (waiting ((congrArg Outbox.closed same).symm.trans dirty))
    · apply quiet_waits waits h (congrArg Outbox.handed closed) ((congrArg Outbox.writing closed).trans idle)
      intro dirty
      cases (congrArg Outbox.closed closed).symm.trans dirty

theorem step_early (waits : Waits s) (early : ¬ AwaitsConnect s event)
    (h : step literals request s event = some t) :
    ¬ Announced t.history := by
  simp only [AwaitsConnect, Classical.not_imp, not_or, Bool.not_eq_true] at early
  obtain ⟨takes, silent, dirty⟩ := early
  obtain ⟨rfl, buffer, rest, tasks⟩ := takesBuffer_cases takes
  have sent : effects literals request s .run = [.sendData buffer] := by
    simp [effects, runEffects, tasks, waits.queue silent dirty, dirty]
  intro announced
  exact silent (announced s.history buffer [] (by rw [step_history h, sent]))

/-- No buffer is written before `OnConnect(0)` exactly when no task of `Send` runs before it on a
connection that has not been cleaned up. -/
theorem announced_iff (h : run (step literals request) {} events = some s) :
    Always (step literals request) (fun s => Announced s.history) {} events ↔
      EachStep (step literals request) AwaitsConnect {} events :=
  always_iff_eachStep (fun _ waits => waits.announced) (fun _ _ _ => step_waits) (fun _ _ _ => step_early) initial_waits h

/-- The owner sends without waiting, and its buffer is written while the name is being looked up. -/
def sendsAtOnce : List Event := [.connect, .send [1], .run, .run]

theorem announced_sendsAtOnce :
    ∃ s, run (step Socks5.noLiterals plainRequest) {} sendsAtOnce = some s ∧
      ¬ Announced s.history := by
  refine ⟨_, rfl, fun announced => ?_⟩
  have early := announced [] [1] [] rfl
  cases early

/-- The connection is established, and then the owner sends. -/
def sendsInTime : List Event :=
  [.connect, .run, .run, .resolved 0 0, .connected 0, .send [1], .run, .run]

theorem announced_sendsInTime :
    ∃ s, run (step Socks5.noLiterals plainRequest) {} sendsInTime = some s ∧ handed s = [[1]] ∧
      Always (step Socks5.noLiterals plainRequest) (fun s => Announced s.history) {} sendsInTime := by
  have each : EachStep (step Socks5.noLiterals plainRequest) AwaitsConnect {} sendsInTime :=
    eachStep_of_meets (by decide)
  exact ⟨_, rfl, by decide, (announced_iff rfl).mpr each⟩

end Kingkong.Connection
