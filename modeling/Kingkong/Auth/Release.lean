import Kingkong.Auth.Ledger

/-!
How the manager lets go of its clients. `OnHttpComplete` cancels the client before it erases the
entry, but `AuthCancel` only erases it, and an entry whose id is given out again is overwritten.
-/

namespace Kingkong.Auth.Ledger
open Lib Http

variable {given : Given} {l next : Ledger} {s : Session} {event : Session.Event} {events : List Session.Event}
  {info : AuthInfo} {m : AuthManager} {c d : Nat}

/-- The manager has a reference to the client. -/
def Referenced (m : AuthManager) (c : Nat) : Prop := ∃ entry ∈ m.authMap, entry.2.httpClient = c

theorem referenced_registered : Referenced (m.register info) info.httpClient :=
  ⟨(m.id + 1, info), List.mem_append_right _ (List.mem_singleton.mpr rfl), rfl⟩

theorem referenced_register (referenced : Referenced m d)
    (fresh : ∀ entry ∈ m.authMap, entry.1 ≠ m.id + 1) :
    Referenced (m.register info) d := by
  obtain ⟨entry, member, own⟩ := referenced
  refine ⟨entry, List.mem_append_left _ (List.mem_filter.mpr ⟨member, ?_⟩), own⟩
  simpa using fresh entry member

theorem referenced_append (referenced : Referenced m d) (content : Bytes) :
    Referenced (m.append c content) d := by
  obtain ⟨entry, member, own⟩ := referenced
  have tagged : AuthManager.tag entry ∈ (AuthManager.appendTo c content m.authMap).map AuthManager.tag := by
    rw [AuthManager.appendTo_tag]
    exact List.mem_map_of_mem member
  obtain ⟨other, present, tags⟩ := List.mem_map.mp tagged
  exact ⟨other, present, (congrArg (·.2.1) tags).trans own⟩

theorem referenced_erase (referenced : Referenced m d) (different : d ≠ c) (call : DelegateCall) :
    Referenced ((m.called call).erase c) d := by
  obtain ⟨entry, member, own⟩ := referenced
  refine ⟨entry, ?_, own⟩
  show entry ∈ m.authMap.eraseP (AuthManager.isOf c)
  rw [List.mem_eraseP_of_neg]
  · exact member
  · simpa [AuthManager.isOf, own] using different

/-- `Cancel` has been called. -/
def Stopped (client : Client) : Prop := client.delegate = false ∧ client.stoped = true

/-- Every client that the manager got is still referenced, or it was cancelled. No callback came for
a request that was cancelled. -/
structure Released (l : Ledger) : Prop where
  stopped : ∀ c, l.ids c ≠ none → Referenced l.manager c ∨ Stopped (l.client c)
  silent : l.late = []

/-- A request is cancelled only when it has no entry, and no id that is in use is given out. -/
def Keeps (l : Ledger) : Session.Event → Prop
  | .register _ => ∀ entry ∈ l.manager.authMap, entry.1 ≠ l.manager.id + 1
  | .cancel id => ∀ entry ∈ l.manager.authMap, entry.1 ≠ id
  | _ => True

instance (l : Ledger) : (event : Session.Event) → Decidable (Keeps l event)
  | .register _ | .cancel _ => List.decidableBAll _ _
  | .request .. | .response .. | .complete .. => isTrue trivial

theorem initial_released : Released {} := ⟨fun _ issued => absurd rfl issued, rfl⟩

theorem stopped_withClient {next : Client} {request : Option AuthInfo} {m : AuthManager}
    (stopped : Stopped (s.client d)) (delegate : next.delegate = (s.client c).delegate)
    (stoped : next.stoped = (s.client c).stoped) :
    Stopped ((s.withClient c next request m).client d) := by
  by_cases own : d = c
  · rw [own, Session.withClient_client]
    rw [own] at stopped
    exact ⟨delegate.trans stopped.1, stoped.trans stopped.2⟩
  · rwa [Session.withClient_client_other own]

/-- A client that makes a callback was not cancelled, and neither was its request. -/
theorem called_released (book : Book l.session l.ids l.cancelled) (released : Released l)
    (isOpen : l.session.Open c) :
    l.called c = [] := by
  have kept : l.cancelled c = false := by
    by_contra gone
    obtain ⟨issued, absent⟩ := book.cancelled c (by simpa using gone)
    rcases released.stopped c issued with ⟨entry, member, own⟩ | stopped
    · exact absent entry member own
    · cases stopped.1.symm.trans isOpen.2.2
  simp [called, kept, released.silent]

theorem step_released (book : Book l.session l.ids l.cancelled) (released : Released l)
    (keeps : Keeps l event) (h : l.step given event = some next) : Released next := by
  obtain ⟨after, stepped, rfl⟩ := Option.map_eq_some_iff.mp h
  cases Session.step_moved stepped with
  | request created =>
    refine ⟨?_, released.silent⟩
    intro d issued
    rcases released.stopped d issued with referenced | stopped
    · exact .inl referenced
    · exact .inr (stopped_withClient stopped rfl rfl)
  | @register c info waits own =>
    subst own
    refine ⟨?_, released.silent⟩
    intro d issued
    by_cases same : d = info.httpClient
    · rw [same]
      exact .inl referenced_registered
    · replace issued : Function.update l.ids info.httpClient _ d ≠ none := issued
      rw [Function.update_of_ne same] at issued
      rcases released.stopped d issued with referenced | stopped
      · exact .inl (referenced_register referenced keeps)
      · exact .inr stopped
  | @cancel id =>
    refine ⟨?_, released.silent⟩
    intro d issued
    rcases released.stopped d issued with ⟨entry, member, own⟩ | stopped
    · refine .inl ⟨entry, List.mem_filter.mpr ⟨member, ?_⟩, own⟩
      simpa using keeps entry member
    · exact .inr stopped
  | response isOpen =>
    refine ⟨?_, called_released book released isOpen⟩
    intro d issued
    rcases released.stopped d issued with referenced | stopped
    · exact .inl (referenced_append referenced _)
    · exact .inr (stopped_withClient stopped rfl rfl)
  | absent isOpen absent =>
    refine ⟨?_, called_released book released isOpen⟩
    intro d issued
    rcases released.stopped d issued with referenced | stopped
    · exact .inl referenced
    · exact .inr (stopped_withClient stopped rfl rfl)
  | @found c httpCode info isOpen found =>
    refine ⟨?_, called_released book released isOpen⟩
    intro d issued
    show Referenced _ d ∨ Stopped ((l.session.withClient c _ _ _).client d)
    by_cases same : d = c
    · obtain ⟨silent, stoped, _⟩ :=
        cancelled_status { l.session.client c with httpCode := httpCode }
      rw [same, Session.withClient_client]
      exact .inr ⟨silent, stoped⟩
    · rw [Session.withClient_client_other same]
      rcases released.stopped d issued with referenced | stopped
      · exact .inl (referenced_erase referenced same _)
      · exact .inr stopped

/-- The client of an entry that is lost otherwise was not cancelled. -/
theorem dropped_unstopped {entry : Int32 × AuthInfo} (book : Book l.session l.ids l.cancelled)
    (member : entry ∈ l.manager.authMap) : ¬ Stopped (l.client entry.2.httpClient) := by
  intro stopped
  have live := book.live entry.2 (AuthManager.mem_infos_of_entry member)
  cases stopped.1.symm.trans live.2.1

theorem step_dropped (book : Book l.session l.ids l.cancelled) (drops : ¬ Keeps l event)
    (h : l.step given event = some next) : ¬ Released next := by
  obtain ⟨after, stepped, rfl⟩ := Option.map_eq_some_iff.mp h
  intro released
  cases Session.step_moved stepped with
  | request created => exact drops trivial
  | @register c info waits own =>
    subst own
    simp only [Keeps, not_forall, not_not] at drops
    obtain ⟨entry, member, key⟩ := drops
    have different := book.elsewhere waits entry member
    have issued := book.keyed entry member
    have still : Function.update l.ids info.httpClient (some (l.manager.id + 1)) entry.2.httpClient ≠ none := by
      rw [Function.update_of_ne different, issued]
      simp
    rcases released.stopped entry.2.httpClient still with ⟨other, present, same⟩ | stopped
    · rcases List.mem_append.mp present with stays | new
      · -- another entry of the client would have the same id
        obtain ⟨before, kept⟩ := List.mem_filter.mp stays
        have again := book.keyed other before
        rw [same, issued] at again
        simp [← Option.some.inj again, key] at kept
      · rw [List.mem_singleton.mp new] at same
        exact different same.symm
    · exact dropped_unstopped book member stopped
  | @cancel id =>
    simp only [Keeps, not_forall, not_not] at drops
    obtain ⟨entry, member, key⟩ := drops
    have issued := book.keyed entry member
    have still : l.ids entry.2.httpClient ≠ none := by simp [issued]
    rcases released.stopped entry.2.httpClient still with ⟨other, present, same⟩ | stopped
    · obtain ⟨before, kept⟩ := List.mem_filter.mp present
      have again := book.keyed other before
      rw [same, issued] at again
      simp [← Option.some.inj again, key] at kept
    · exact dropped_unstopped book member stopped
  | response isOpen => exact drops trivial
  | absent isOpen absent => exact drops trivial
  | found isOpen found => exact drops trivial

/-- Clients are cancelled before they are released, and cancelled requests get no callbacks, exactly
when `AuthCancel` finds no entry and no entry is overwritten. -/
theorem released_iff {after : Ledger} (h : run (step given) {} events = some after) :
    Always (step given) Released {} events ↔ EachStep (step given) Keeps {} events := by
  refine always_iff_eachStep (I := fun l => Book l.session l.ids l.cancelled ∧ Released l) ?_ ?_ ?_
    ⟨initial_book, initial_released⟩ h
  · exact fun l holds => holds.2
  · exact fun l event next holds keeps h => ⟨step_book holds.1 h,
      step_released holds.1 holds.2 keeps h⟩
  · exact fun l event next holds drops h => step_dropped holds.1 drops h

/-- A request is cancelled while its response is on the way. -/
def cancelsInFlight : List Session.Event :=
  [.request 0 0 1 [] [], .register 0, .cancel 1, .response 0 [65]]

theorem released_cancelsInFlight :
    ∃ l, run (step Session.sample) {} cancelsInFlight = some l ∧
      l.manager.authMap.map Prod.fst = [] ∧
      (l.client 0).stoped = false ∧ l.late = [0] ∧ ¬ Released l := by
  refine ⟨_, rfl, rfl, rfl, rfl, ?_⟩
  intro released
  cases released.silent

/-- The two requests come to their ends, and then both are cancelled. -/
def cancelsAtTheEnd : List Session.Event := Session.twoRequests ++ [.cancel 1, .cancel 2]

theorem released_cancelsAtTheEnd :
    ∃ l, run (step Session.sample) {} cancelsAtTheEnd = some l ∧
      l.manager.authMap.map Prod.fst = [] ∧ l.cancelled 0 = true ∧ l.cancelled 1 = true ∧
      Always (step Session.sample) Released {} cancelsAtTheEnd := by
  have each : EachStep (step Session.sample) Keeps {} cancelsAtTheEnd :=
    eachStep_of_meets (by decide)
  exact ⟨_, rfl, rfl, rfl, rfl, (released_iff rfl).mpr each⟩

end Kingkong.Auth.Ledger
