import Kingkong.Connection.Step
import Kingkong.Lib.Outbox

/-!
The send queue of a connection, under calls of `DoSendFromQueue`, completions of the writes that it
starts and clean-ups, in any order. A failed write stays at the head of the queue, and the clean-up
that follows it is what keeps the queue from being written again.
-/

namespace Kingkong.Connection
open Lib State

def Action.sent : Action → Option Bytes
  | .sendData buffer => some buffer
  | _ => none

/-- The buffers that `DoSendData` was called with. -/
def handed (s : State) : List Bytes := s.history.filterMap Action.sent

def outbox (s : State) : Outbox Bytes where
  queue := s.sendBuffers
  writing := s.writes
  closed := s.alreadyCleanUp
  handed := handed s

inductive QueueEvent where
  | doSendFromQueue (buffer : Bytes)
  | written (ec : Int)
  | handleCleanUp

def queueStep (s : State) : QueueEvent → Option State
  | .doSendFromQueue buffer => some (s.doSendFromQueue buffer)
  | .written ec => if 0 < s.writes then some ({ s with writes := s.writes - 1 }.notifySendComplete ec) else none
  | .handleCleanUp => some s.handleCleanUp

namespace QueueEvent

def buffer : QueueEvent → Option Bytes
  | .doSendFromQueue buffer => some buffer
  | _ => none

/-- Neither a failed write nor a clean-up. -/
def healthy : QueueEvent → Bool
  | .doSendFromQueue _ => true
  | .written ec => ec == 0
  | .handleCleanUp => false

def outboxEvent : QueueEvent → Outbox.Event Bytes
  | .doSendFromQueue buffer => .push buffer
  | .written ec => if ec = 0 then .sent else .failed
  | .handleCleanUp => .close

theorem item_outboxEvent (event : QueueEvent) : event.outboxEvent.item = event.buffer := by
  cases event with
  | doSendFromQueue buffer => rfl
  | written ec =>
    simp only [outboxEvent]
    split <;> rfl
  | handleCleanUp => rfl

theorem healthy_outboxEvent (event : QueueEvent) : event.outboxEvent.healthy = event.healthy := by
  cases event with
  | doSendFromQueue buffer => rfl
  | written ec =>
    simp only [outboxEvent, healthy]
    split
    · rename_i success
      simp [success, Outbox.Event.healthy]
    · rename_i error
      simp [error, Outbox.Event.healthy]
  | handleCleanUp => rfl

end QueueEvent

variable {literals : Socks5.Literals} {request : NetConnectionRequest} {s t : State} {event : QueueEvent}
  {events : List QueueEvent}

/-! ### The queue as an outbox -/

theorem outbox_doSendData {buffer : Bytes} {rest : List Bytes} (clean : s.alreadyCleanUp = false)
    (queue : s.sendBuffers = buffer :: rest) :
    outbox (s.doSendData s.front) = (outbox s).write := by
  simp [outbox, Outbox.write, clean, queue, doSendData, front, handed, Action.sent]

theorem outbox_write_closed (clean : s.alreadyCleanUp = true) : (outbox s).write = outbox s := by
  simp [outbox, Outbox.write, clean]

theorem outbox_write_empty (empty : s.sendBuffers = []) : (outbox s).write = outbox s := by
  simp [outbox, Outbox.write, empty]

/-- What both ends of the queue do once they have changed it. -/
theorem outbox_writes :
    outbox (if !s.sendBuffers.isEmpty && !s.alreadyCleanUp then s.doSendData s.front else s) =
    (outbox s).write := by
  cases clean : s.alreadyCleanUp with
  | true => simp [outbox_write_closed clean]
  | false =>
    cases queue : s.sendBuffers with
    | nil => simp [outbox_write_empty queue]
    | cons buffer rest => simpa using outbox_doSendData clean queue

theorem outbox_doSendFromQueue (buffer : Bytes) :
    outbox (s.doSendFromQueue buffer) = (outbox s).push buffer := by
  have writes := outbox_writes (s := { s with sendBuffers := s.sendBuffers ++ [buffer] })
  unfold doSendFromQueue Outbox.push
  show outbox (if !(!s.sendBuffers.isEmpty) && !s.alreadyCleanUp then _ else _) =
      if s.sendBuffers.isEmpty then _ else _
  cases idle : s.sendBuffers.isEmpty with
  | true =>
    have waiting : (s.sendBuffers ++ [buffer]).isEmpty = false := by simp
    rw [waiting] at writes
    exact writes
  | false => simp [outbox, handed]

theorem outbox_notify (callback : Callback) : outbox (s.notify callback) = outbox s := by
  cases told : s.delegate with
  | true =>
    rw [notify_told told]
    simp [outbox, handed, Action.sent]
  | false => rw [notify_silent told]

theorem outbox_handleCleanUp : outbox s.handleCleanUp = (outbox s).close := by
  cases clean : s.alreadyCleanUp with
  | true =>
    rw [handleCleanUp_again clean]
    simp [outbox, Outbox.close, clean]
  | false =>
    rw [handleCleanUp_first clean]
    simp [outbox, Outbox.close, handed, Action.sent]

theorem outbox_notifySendComplete (ec : Int) :
    outbox ({ s with writes := s.writes - 1 }.notifySendComplete ec) =
    if ec = 0 then (outbox s).sent else (outbox s).failed := by
  unfold notifySendComplete
  by_cases success : ec = 0
  · rw [if_neg (not_not.mpr success), if_pos success]
    exact outbox_writes (s := { s with writes := s.writes - 1, sendBuffers := s.sendBuffers.tail })
  · rw [if_pos success, if_neg success, outbox_handleCleanUp, notifyDisconnect, outbox_notify]
    rfl

theorem queueStep_outbox (h : queueStep s event = some t) :
    Outbox.step (outbox s) event.outboxEvent = some (outbox t) := by
  cases event with
  | doSendFromQueue buffer =>
    cases h
    exact congrArg some (outbox_doSendFromQueue buffer).symm
  | written ec =>
    simp only [queueStep] at h
    split at h <;> cases h
    rename_i enabled
    rw [outbox_notifySendComplete, QueueEvent.outboxEvent]
    split
    · exact if_pos enabled
    · exact if_pos enabled
  | handleCleanUp =>
    cases h
    exact congrArg some outbox_handleCleanUp.symm

/-- A connection that has queued nothing yet writes one buffer at a time and in the order of the
calls, and pops only what it has queued. As long as nothing failed and nothing was cleaned up, every
buffer was handed over or waits behind the head of the queue, and the head is being written. -/
theorem send_queue {start : State} (fresh : outbox start = {})
    (h : run queueStep start events = some s) :
    s.writes ≤ 1 ∧ handed s <+: events.filterMap QueueEvent.buffer ∧
      (0 < s.writes → s.sendBuffers ≠ []) ∧
      ((∀ event ∈ events, event.healthy = true) →
        events.filterMap QueueEvent.buffer = handed s ++ s.sendBuffers.tail ∧
        (s.sendBuffers ≠ [] → s.writes = 1 ∧ (handed s).getLast? = s.sendBuffers.head?)) := by
  have view := run_view outbox QueueEvent.outboxEvent (fun _ _ _ => queueStep_outbox) h
  rw [fresh] at view
  have ordered := Outbox.run_ordered Outbox.initial_ordered view
  have buffers : (events.map QueueEvent.outboxEvent).filterMap Outbox.Event.item =
      events.filterMap QueueEvent.buffer := by
    rw [List.filterMap_map]
    exact congrArg (events.filterMap ·) (funext QueueEvent.item_outboxEvent)
  rw [buffers, List.nil_append] at ordered
  refine ⟨ordered.single, ordered.handed_first, ordered.queue_of_writing, fun healthy => ?_⟩
  have opened : (outbox s).closed = false := by
    refine Outbox.run_open (fun event member => ?_) view
    obtain ⟨origin, present, rfl⟩ := List.mem_map.mp member
    rw [QueueEvent.healthy_outboxEvent]
    exact healthy origin present
  exact ⟨ordered.pushed_open opened, ordered.writing_front opened⟩

/-- Two buffers, the second queued while the first is written; then a clean-up while the second
is. -/
def twoBuffers : List QueueEvent :=
  [.doSendFromQueue [1], .doSendFromQueue [2], .written 0, .handleCleanUp, .written 0]

theorem send_queue_twoBuffers :
    ∃ s, run queueStep {} twoBuffers = some s ∧ handed s = [[1], [2]] ∧ s.alreadyCleanUp = true ∧
      s.writes ≤ 1 := by
  refine ⟨_, rfl, by decide, by decide, ?_⟩
  exact (send_queue (show outbox {} = {} from rfl) (show run queueStep {} twoBuffers = some _ from rfl)).1

/-! ### The queue in the whole connection -/

theorem outbox_startRecvDate : outbox s.startRecvDate = outbox s := by
  simp [outbox, startRecvDate, handed, Action.sent]

theorem outbox_cancelResolver : outbox s.cancelResolver = outbox s := by
  rw [cancelResolver_eq]
  rfl

theorem outbox_doOtherHandshake (code : Int) :
    outbox (s.doOtherHandshake request code) = outbox s := by
  rw [doOtherHandshake_eq]
  split
  · simp [outbox, doTlsHandshake, handed, Action.sent]
  · split
    · simp [outbox, doWebsocketHandshake, handed, Action.sent]
    · rw [outbox_startRecvDate, handleConnectStatus, outbox_notify]

/-- `t` has the queue of `s`, except perhaps that it was cleaned up. -/
def Undisturbed (s t : State) : Prop := outbox t = outbox s ∨ outbox t = (outbox s).close

theorem notify_undisturbed (callback : Callback) :
    Undisturbed s (s.notify callback).handleCleanUp :=
  Or.inr (by rw [outbox_handleCleanUp, outbox_notify])

theorem handleCleanUp_undisturbed (code : Int) :
    Undisturbed s (s.handleCleanUp.handleConnectStatus code) :=
  Or.inr (by rw [handleConnectStatus, outbox_notify, outbox_handleCleanUp])

theorem startRecvDate_undisturbed (callback : Callback) :
    Undisturbed s (s.notify callback).startRecvDate :=
  Or.inl (by rw [outbox_startRecvDate, outbox_notify])

theorem onDnsResolvered_undisturbed (code : Int) : Undisturbed s (s.onDnsResolvered code) := by
  unfold onDnsResolvered
  split
  · right
    rw [outbox_handleCleanUp, handleConnectStatus, outbox_notify, outbox_cancelResolver]
  · left
    rw [cancelResolver_eq]
    simp [outbox, handed, Action.sent]

theorem notifyConnectComplete_undisturbed (ec : Int) :
    Undisturbed s (s.notifyConnectComplete literals request ec) := by
  unfold notifyConnectComplete
  split
  · left
    split
    · simp [outbox, handed, Action.sent]
    · exact outbox_doOtherHandshake ec
  · exact handleCleanUp_undisturbed ec

theorem onSocks5Handshake_undisturbed (code : Int) :
    Undisturbed s (s.onSocks5Handshake request code) := by
  unfold onSocks5Handshake
  split
  · exact handleCleanUp_undisturbed code
  · exact Or.inl (outbox_doOtherHandshake code)

theorem notifyTlsHandshakeComplete_undisturbed (ec : Int) :
    Undisturbed s (s.notifyTlsHandshakeComplete request ec) := by
  unfold notifyTlsHandshakeComplete
  split
  · split
    · left
      simp [outbox, doWebsocketHandshake, handed, Action.sent]
    · exact startRecvDate_undisturbed _
  · exact notify_undisturbed _

theorem notifyWebsocketHandshakeComplte_undisturbed (ec : Int) :
    Undisturbed s (s.notifyWebsocketHandshakeComplte ec) := by
  simp only [notifyWebsocketHandshakeComplte]
  split
  · exact startRecvDate_undisturbed _
  · exact notify_undisturbed _

theorem notifyRecvData_undisturbed (ec : Int) (data : Bytes) :
    Undisturbed s (s.notifyRecvData ec data) := by
  unfold notifyRecvData
  split
  · exact notify_undisturbed _
  · exact startRecvDate_undisturbed _

/-- A step queues a buffer, or completes a write, or leaves the queue alone. -/
theorem step_outbox {event : Event} (h : step literals request s event = some t) :
    (∃ buffer rest, event = .run ∧ s.tasks = .doSendFromQueue buffer :: rest ∧
      outbox t = (outbox s).push buffer) ∨
    (∃ ec, event = .written ec ∧ 0 < s.writes ∧ outbox t =
      if ec = 0 then (outbox s).sent else (outbox s).failed) ∨
    Undisturbed s t := by
  cases event with
  | connect =>
    cases h
    exact Or.inr (Or.inr (Or.inl rfl))
  | disConnect =>
    cases h
    unfold disConnect
    split
    · exact Or.inr (Or.inr (Or.inl rfl))
    · exact Or.inr (Or.inr (Or.inl rfl))
  | send buffer =>
    cases h
    unfold send
    split
    · exact Or.inr (Or.inr (Or.inl rfl))
    · exact Or.inr (Or.inr (Or.inl rfl))
  | run =>
    obtain ⟨task, rest, tasks, rfl⟩ := run_task h
    cases task with
    | doDnsResolve => exact Or.inr (Or.inr (Or.inl rfl))
    | doResolver k =>
      refine Or.inr (Or.inr (Or.inl ?_))
      simp only [runTask]
      split
      · simp [outbox, handed, Action.sent]
      · rfl
    | doCancel k => exact Or.inr (Or.inr (Or.inl rfl))
    | doSendFromQueue buffer =>
      exact Or.inl ⟨buffer, rest, rfl, tasks,
        outbox_doSendFromQueue (s := { s with tasks := rest }) buffer⟩
    | handleCleanUp => exact Or.inr (Or.inr (Or.inr (outbox_handleCleanUp (s := { s with tasks := rest }))))
  | resolved k code =>
    refine Or.inr (Or.inr ?_)
    obtain ⟨resolver, resolvers, _, _, rfl⟩ := resolved_lookup h
    split
    · exact onDnsResolvered_undisturbed code
    · exact Or.inl rfl
  | connected ec =>
    simp only [step] at h
    split at h <;> cases h
    exact Or.inr (Or.inr (notifyConnectComplete_undisturbed ec))
  | socks5 event =>
    refine Or.inr (Or.inr ?_)
    obtain ⟨client, next, _, _, rfl⟩ := socks5_client h
    split
    · exact onSocks5Handshake_undisturbed _
    · exact Or.inl rfl
  | tlsHandshake ec =>
    simp only [step] at h
    split at h <;> cases h
    exact Or.inr (Or.inr (notifyTlsHandshakeComplete_undisturbed ec))
  | websocketHandshake ec =>
    simp only [step] at h
    split at h <;> cases h
    exact Or.inr (Or.inr (notifyWebsocketHandshakeComplte_undisturbed ec))
  | read ec data =>
    simp only [step] at h
    split at h <;> cases h
    exact Or.inr (Or.inr (notifyRecvData_undisturbed ec data))
  | written ec =>
    simp only [step] at h
    split at h <;> cases h
    rename_i enabled
    exact Or.inr (Or.inl ⟨ec, rfl, enabled, outbox_notifySendComplete ec⟩)

end Kingkong.Connection
