import Kingkong.Http.Downloader
import Kingkong.Auth.Model

/-!
Where the IO thread waits for itself. A client calls its delegate under `delegate_mutex_`, which
`Cancel` takes too. `AuthManager` cancels the client of every request that completes, and
`HttpDownloaderImpl` cancels its client when the file cannot be opened or written.
-/

namespace Kingkong.Http
open Lib Locked

def Running {D : Type} (t : Thread D) : Prop := t.stuck = none

instance {D : Type} {t : Thread D} : Decidable (Running t) := inferInstanceAs (Decidable (_ = _))

namespace Downloader

variable {t after : Thread Downloader} {lexicalCast : Bytes → Option Nat}

/-- A piece of the body that reaches the downloader can be written. -/
def Writable (t : Thread Downloader) : Event → Prop
  | .io event =>
    ∀ io content, event.callback (t.system.clients 0) = some (.response io content) → t.system.delegate.takes io = true
  | _ => True

theorem step_running {event : Event} (h : step lexicalCast t event = some after) :
    Running after ↔ Writable t event := by
  cases step_took h with
  | start _ _ | cancel _ | cancelClient _ _ => exact iff_of_true rfl trivial
  | io event handled =>
    obtain ⟨_, next, moved, ends⟩ := io_after handled
    rw [callback_advance moved] at ends
    unfold Writable Running
    match called : event.callback (t.system.clients 0) with
    | none =>
      rw [called] at ends
      cases ends
      simp [called]
    | some .heads =>
      rw [called] at ends
      obtain ⟨n, _, running⟩ := ends
      simp [called, running]
    | some (.response io content) =>
      rw [called] at ends
      simp only [After] at ends
      split at ends
      · rename_i taken
        refine iff_of_true ends.2 ?_
        intro io content same
        cases called.symm.trans same
        exact taken
      · rename_i notTaken
        obtain ⟨_, _, stuck, _⟩ := ends
        exact iff_of_false (by simp [stuck]) fun writable => notTaken (writable io content called)
    | some .complete =>
      rw [called] at ends
      simp [called, ends.2]

end Downloader

end Kingkong.Http

namespace Kingkong.Auth.AuthManager
open Lib Locked Http

variable {t after : Thread AuthManager} {given : Given} {lexicalCast : Bytes → Option Nat}

/-- A request that completes is not registered. -/
def Unregistered (t : Thread AuthManager) : Event → Prop
  | .io c event => event.callback (t.system.clients c) = some .complete → t.system.delegate.find c = none
  | _ => True

theorem step_running {event : Event} (h : step given lexicalCast t event = some after) :
    Running after ↔ Unregistered t event := by
  cases event with
  | request c productType version token randomId =>
    obtain ⟨_, same⟩ := Option.ite_none_right_eq_some.mp h
    cases same
    exact iff_of_true rfl trivial
  | register c =>
    obtain ⟨_, found⟩ := Option.ite_none_right_eq_some.mp h
    obtain ⟨info, _, same⟩ := Option.map_eq_some_iff.mp found
    cases same
    exact iff_of_true rfl trivial
  | cancel id =>
    obtain ⟨_, same⟩ := Option.ite_none_right_eq_some.mp h
    cases same
    exact iff_of_true rfl trivial
  | io c event =>
    obtain ⟨_, next, moved, same⟩ := ioStep_outcome h
    rw [callback_advance moved] at same
    have free := Event.auth_not_mem_holding (c := c) event
    show Running after ↔ (event.callback (t.system.clients c) = some .complete →
        t.system.delegate.find c = none)
    rw [same]
    match event.callback (t.system.clients c) with
    | none =>
      exact iff_of_true rfl nofun
    | some .heads =>
      exact iff_of_true rfl nofun
    | some (.response io content) =>
      have returned : outcome (httpDelegate given) c event next t.system (some (.response io content)) = _ :=
        outcome_returns (onHttpResponse_apply (s := t.system.set c next) free content)
      rw [returned]
      exact iff_of_true rfl nofun
    | some .complete =>
      cases found : t.system.delegate.find c with
      | none =>
        have returned : outcome (httpDelegate given) c event next t.system (some .complete) = _ :=
          outcome_returns (onHttpComplete_absent (s := t.system.set c next) free found)
        rw [returned]
        exact iff_of_true rfl fun _ => rfl
      | some info =>
        have stopped : outcome (httpDelegate given) c event next t.system (some .complete) = _ :=
          outcome_stuck (onHttpComplete_stuck (s := t.system.set c next) free found (Event.delegate_mem_holding event))
        rw [stopped]
        exact iff_of_false nofun fun absent => nomatch absent rfl

end Kingkong.Auth.AuthManager

namespace Kingkong.Http
open Lib Auth

/-- In every run, with either delegate, the IO thread never waits for itself exactly when no
registered request completes and every piece of a body that reaches the downloader can be
written. -/
theorem no_self_deadlock_iff (given : Given) (lexicalCast : Bytes → Option Nat) :
    (∀ events last, run (AuthManager.step given lexicalCast) AuthManager.initial events =
      some last → (Always (AuthManager.step given lexicalCast) Running AuthManager.initial events ↔
        EachStep (AuthManager.step given lexicalCast) AuthManager.Unregistered AuthManager.initial events)) ∧
    ∀ events last, run (Downloader.step lexicalCast) Downloader.initial events = some last →
      (Always (Downloader.step lexicalCast) Running Downloader.initial events ↔
        EachStep (Downloader.step lexicalCast) Downloader.Writable Downloader.initial events) := by
  constructor
  · intro events last h
    exact always_iff_of_step_iff (fun _ _ _ _ h => AuthManager.step_running h) rfl h
  · intro events last h
    exact always_iff_of_step_iff (fun _ _ _ _ h => Downloader.step_running h) rfl h

/-- The parser and the key at an empty response, which has no code and no signature. -/
def emptyResponse : Given := ⟨fun _ => [], fun _ => (false, {}), fun _ _ => false⟩

def cancelledRequest : List AuthManager.Event :=
  [.request 0 0 1 [] [], .register 0, .io 0 .connected, .io 0 (.response 200), .io 0 .header, .io 0 (.body {} [1]),
    .cancel 1, .io 0 .finish]

def writtenFile : List Downloader.Event :=
  [.start, .io .connected, .io (.response 200), .io .header, .io (.body {} [1, 2]), .io (.chunk {} [3]), .io .finish]

theorem no_self_deadlock_quiet :
    (∃ t, run (AuthManager.step emptyResponse fun _ => none) AuthManager.initial cancelledRequest =
      some t ∧
      EachStep (AuthManager.step emptyResponse fun _ => none) AuthManager.Unregistered AuthManager.initial cancelledRequest) ∧
    ∃ t, run (Downloader.step fun _ => none) Downloader.initial writtenFile = some t ∧
      EachStep (Downloader.step fun _ => none) Downloader.Writable Downloader.initial writtenFile :=
  ⟨⟨_, rfl, ((no_self_deadlock_iff _ _).1 _ _ rfl).mp (always_of_passes (by decide))⟩,
    _, rfl, ((no_self_deadlock_iff emptyResponse _).2 _ _ rfl).mp (always_of_passes (by decide))⟩

/-- A registered request whose connection fails, one whose message ends, and a download whose file
cannot be opened: each time the IO thread waits for the `delegate_mutex_` that it holds. -/
theorem self_deadlock :
    (∃ t, run (AuthManager.step emptyResponse fun _ => none) AuthManager.initial
        [.request 0 0 1 [] [], .register 0, .io 0 (.connectFailed 111)] = some t ∧
        t.stuck = some (.delegate 0)) ∧
    (∃ t, run (AuthManager.step emptyResponse fun _ => none) AuthManager.initial
        [.request 0 0 1 [] [], .register 0, .io 0 .connected, .io 0 (.response 200), .io 0 .header,
          .io 0 .finish] =
      some t ∧ t.stuck = some (.delegate 0)) ∧
    ∃ t, run (Downloader.step fun _ => none) Downloader.initial
        [.start, .io .connected, .io (.response 200), .io .header,
          .io (.body { opens := false } [1])] = some t ∧
      t.stuck = some (.delegate 0) :=
  ⟨⟨_, rfl, rfl⟩, ⟨_, rfl, rfl⟩, _, rfl, rfl⟩

end Kingkong.Http
