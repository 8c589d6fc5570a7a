import Kingkong.Auth.Ledger

/-!
Whether every request comes to its end. `AuthRequest` starts the client before it makes the entry,
and an `OnHttpComplete` that comes in between finds nothing to report to.
-/

namespace Kingkong.Auth.Ledger
open Lib Http

variable {given : Given} {l next : Ledger} {s : Session} {event : Session.Event} {events : List Session.Event}
  {info : AuthInfo} {c : Nat}

/-- The delegate of the request has been called once, and the manager has forgotten the request. -/
def Ended (m : AuthManager) (c : Nat) : Prop :=
  m.calls.countP (fun call => call.delegate == c) = 1 ∧ ∀ entry ∈ m.authMap, entry.2.httpClient ≠ c

/-- Every request that completed, was not cancelled and whose `AuthRequest` has returned has come to
its end. -/
def NoneLost (l : Ledger) : Prop :=
  ∀ c, l.completed c = true → l.ids c ≠ none → l.cancelled c = false → Ended l.manager c

/-- A request is registered before it completes. When it completes, an entry that was made and not
cancelled is still there. -/
def InTime (l : Ledger) : Session.Event → Prop
  | .register c => l.completed c = false
  | .complete c _ => l.ids c ≠ none → l.cancelled c = false → l.manager.find c ≠ none
  | _ => True

instance (l : Ledger) (event : Session.Event) : Decidable (InTime l event) := by
  cases event <;> simp only [InTime] <;> infer_instance

theorem ended_of_sublist {m m' : AuthManager} (ended : Ended m c) (calls : m'.calls = m.calls)
    (entries : ∀ entry ∈ m'.authMap, AuthManager.tag entry ∈ m.authMap.map AuthManager.tag) :
    Ended m' c := by
  refine ⟨by rw [calls]; exact ended.1, ?_⟩
  intro entry member
  obtain ⟨other, before, tags⟩ := List.mem_map.mp (entries entry member)
  rw [← show other.2.httpClient = entry.2.httpClient from congrArg (·.2.1) tags]
  exact ended.2 other before

theorem ended_register {m : AuthManager} (ended : Ended m c) (other : info.httpClient ≠ c) :
    Ended (m.register info) c := by
  refine ⟨ended.1, ?_⟩
  intro entry member
  rcases List.mem_append.mp member with stays | new
  · exact ended.2 entry (List.mem_filter.mp stays).1
  · rw [List.mem_singleton.mp new]
    exact other

/-- The first call of a delegate, for a request whose entry is erased at once. -/
theorem ended_found {m : AuthManager} {call : DelegateCall}
    (distinct : AuthManager.Distinct m.infos) (found : m.find c = some info)
    (uncalled : ∀ call ∈ m.calls, call.delegate ≠ c) (own : call.delegate = c) :
    Ended ((m.called call).erase c) c := by
  constructor
  · have before : m.calls.countP (fun call => call.delegate == c) = 0 := by
      apply List.countP_eq_zero.mpr
      intro made member
      simpa using uncalled made member
    show (m.calls ++ [call]).countP _ = 1
    simp [List.countP_append, before, own]
  · intro entry member
    exact AuthManager.erase_absent distinct found entry.2 (AuthManager.mem_infos_of_entry (m := m.erase c) member)

theorem ended_other {m : AuthManager} {call : DelegateCall} {d : Nat} (ended : Ended m d)
    (own : call.delegate = c) (different : d ≠ c) : Ended ((m.called call).erase c) d := by
  constructor
  · show (m.calls ++ [call]).countP _ = 1
    have apart : (call.delegate == d) = false := by
      rw [own]
      simpa using different.symm
    simpa [List.countP_append, apart] using ended.1
  · exact fun entry member => ended.2 entry (List.eraseP_sublist.subset member)

theorem call_own (book : Book s l.ids l.cancelled) (found : s.manager.find c = some info)
    (httpCode : Nat) :
    (handleAuthResponse given info httpCode).delegate = c := by
  rw [handleAuthResponse_delegate, book.own info (AuthManager.mem_of_find found),
    AuthManager.find_httpClient found]

theorem step_noneLost (book : Book l.session l.ids l.cancelled) (noneLost : NoneLost l)
    (inTime : InTime l event) (h : l.step given event = some next) : NoneLost next := by
  obtain ⟨after, stepped, rfl⟩ := Option.map_eq_some_iff.mp h
  cases Session.step_moved stepped with
  | request created => exact noneLost
  | @register c info waits own =>
    intro d completed issued kept
    have different : d ≠ c := by
      rintro rfl
      cases completed.symm.trans inTime
    replace issued : Function.update l.ids c _ d ≠ none := issued
    rw [Function.update_of_ne different] at issued
    exact ended_register (noneLost d completed issued kept) (by rw [own]; exact different.symm)
  | @cancel id =>
    intro d completed issued kept
    have before : l.cancelled d = false := (Bool.or_eq_false_iff.mp kept).1
    refine ended_of_sublist (noneLost d completed issued before) rfl ?_
    exact tag_of_mem fun entry member => (List.mem_filter.mp member).1
  | @response c content isOpen =>
    intro d completed issued kept
    refine ended_of_sublist (noneLost d completed issued kept) rfl ?_
    intro entry member
    rw [← AuthManager.appendTo_tag content l.manager.authMap]
    exact List.mem_map_of_mem member
  | @absent c httpCode isOpen absent =>
    intro d completed issued kept
    by_cases same : d = c
    · subst same
      exact absurd absent (inTime issued kept)
    · replace completed : Function.update l.completed c true d = true := completed
      rw [Function.update_of_ne same] at completed
      exact noneLost d completed issued kept
  | @found c httpCode info isOpen found =>
    intro d completed issued kept
    have own : (handleAuthResponse given info httpCode).delegate = c := call_own book found httpCode
    by_cases same : d = c
    · subst same
      exact ended_found book.distinct found (book.uncalled d isOpen.2.2) own
    · replace completed : Function.update l.completed c true d = true := completed
      rw [Function.update_of_ne same] at completed
      exact ended_other (noneLost d completed issued kept) own same

/-- Too late: the request has completed already, or its entry was overwritten. -/
theorem step_lost (book : Book l.session l.ids l.cancelled) (late : ¬ InTime l event)
    (h : l.step given event = some next) : ¬ NoneLost next := by
  obtain ⟨after, stepped, rfl⟩ := Option.map_eq_some_iff.mp h
  intro noneLost
  cases Session.step_moved stepped with
  | request created => exact late trivial
  | @register c info waits own =>
    subst own
    have completed : l.completed info.httpClient = true := by simpa [InTime] using late
    have unissued := book.waiting info waits
    have kept : l.cancelled info.httpClient = false := by
      by_contra gone
      exact (book.cancelled _ (by simpa using gone)).1 unissued
    have issued : Function.update l.ids info.httpClient (some (l.manager.id + 1)) info.httpClient ≠ none := by simp
    have ended := noneLost info.httpClient completed issued kept
    exact ended.2 (l.manager.id + 1,
      info) (List.mem_append_right _ (List.mem_singleton.mpr rfl)) rfl
  | cancel => exact late trivial
  | response isOpen => exact late trivial
  | @absent c httpCode isOpen absent =>
    simp only [InTime, Classical.not_imp, not_not] at late
    obtain ⟨issued, kept, _⟩ := late
    have completed : Function.update l.completed c true c = true := Function.update_self ..
    have called := (noneLost c completed issued kept).1
    have uncalled : l.manager.calls.countP (fun call => call.delegate == c) = 0 := by
      apply List.countP_eq_zero.mpr
      intro call member
      simpa using book.uncalled c isOpen.2.2 call member
    cases uncalled.symm.trans called
  | @found c httpCode info isOpen found =>
    apply late
    intro _ _ absent
    cases absent.symm.trans found

theorem initial_noneLost : NoneLost {} := nofun

/-- No result is lost exactly when every request is registered before it completes, and keeps its
entry until then. -/
theorem noneLost_iff {after : Ledger} (h : run (step given) {} events = some after) :
    Always (step given) NoneLost {} events ↔ EachStep (step given) InTime {} events := by
  refine always_iff_eachStep (I := fun l => Book l.session l.ids l.cancelled ∧ NoneLost l) ?_ ?_ ?_
    ⟨initial_book, initial_noneLost⟩ h
  · exact fun l holds => holds.2
  · exact fun l event next holds inTime h => ⟨step_book holds.1 h,
      step_noneLost holds.1 holds.2 inTime h⟩
  · exact fun l event next holds late h => step_lost holds.1 late h

/-- The connect fails before `AuthRequest` has made the entry, which then stays for ever. -/
def failsAtOnce : List Session.Event := [.request 0 0 1 [] [], .complete 0 404, .register 0]

theorem noneLost_failsAtOnce :
    ∃ l, run (step Session.sample) {} failsAtOnce = some l ∧ l.completed 0 = true ∧
      l.ids 0 = some 1 ∧
      l.cancelled 0 = false ∧ l.manager.calls = [] ∧ l.manager.authMap.map Prod.fst = [1] ∧
      ¬ NoneLost l := by
  refine ⟨_, rfl, rfl, rfl, rfl, rfl, rfl, ?_⟩
  intro noneLost
  have ended := noneLost 0 rfl (by decide) rfl
  exact absurd ended.1 (by decide)

theorem noneLost_twoRequests :
    ∃ l, run (step Session.sample) {} Session.twoRequests = some l ∧ l.completed 0 = true ∧
      l.completed 1 = true ∧ Always (step Session.sample) NoneLost {} Session.twoRequests := by
  have each : EachStep (step Session.sample) InTime {} Session.twoRequests :=
    eachStep_of_meets (by decide)
  exact ⟨_, rfl, rfl, rfl, (noneLost_iff rfl).mpr each⟩

end Kingkong.Auth.Ledger
