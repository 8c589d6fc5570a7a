import Kingkong.Http.Downloader

/-!
What a successful download stands for. The status code is stored when the status line arrives, and
every end of the message or of the connection reports by that code alone. So a connection that
breaks after a status line with 200 is reported as a success, and this is the only way in which a
success is reported of less than the whole body.
-/

namespace Kingkong.Http.Downloader
open Lib

variable {d : Downloader} {client next : Client} {t after : Thread Downloader} {lexicalCast : Bytes → Option Nat}

/-- A success is reported only of a finished response with status 200, and the file then has its
body. -/
def Honest (t : Thread Downloader) : Prop :=
  .onDownloadComplte 0 ∈ t.system.delegate.reports →
    (t.system.clients 0).stage = .finished ∧ (t.system.clients 0).httpCode = 200 ∧
      t.system.delegate.file = (t.system.clients 0).body

instance : Decidable (Honest t) := inferInstanceAs (Decidable (_ → _ ∧ _ ∧ _))

/-- The connection does not fail between a status line with 200 and the end of the message. -/
def Unbroken (t : Thread Downloader) : Event → Prop
  | .io .readError | .io .writeError =>
    t.system.delegate.delegate = true → (t.system.clients 0).httpCode = 200 → (t.system.clients 0).stage = .finished
  | _ => True

section Effects

@[simp] theorem report_file (make : Downloader → Report) : (d.report make).file = d.file := by
  unfold report; split <;> rfl

@[simp] theorem report_isOpen (make : Downloader → Report) : (d.report make).isOpen = d.isOpen := by
  unfold report; split <;> rfl

@[simp] theorem report_delegate (make : Downloader → Report) :
    (d.report make).delegate = d.delegate := by
  unfold report; split <;> rfl

@[simp] theorem complete_file (httpCode : Nat) : (d.complete httpCode).file = d.file :=
  report_file _

@[simp] theorem complete_delegate (httpCode : Nat) : (d.complete httpCode).delegate = d.delegate :=
  report_delegate _

@[simp] theorem complete_isOpen (httpCode : Nat) : (d.complete httpCode).isOpen = false :=
  report_isOpen _

@[simp] theorem accept_isOpen (content : Bytes) : (d.accept content).isOpen = true := by
  unfold accept written opened
  rw [report_isOpen]
  cases isOpen : d.isOpen <;> simp [isOpen]

@[simp] theorem accept_delegate (content : Bytes) : (d.accept content).delegate = d.delegate := by
  unfold accept written opened
  rw [report_delegate]
  cases d.isOpen <;> simp

@[simp] theorem accept_file (content : Bytes) :
    (d.accept content).file = (if d.isOpen then d.file else []) ++ content := by
  unfold accept written opened
  rw [report_file]
  cases d.isOpen <;> simp

theorem success_accept {content : Bytes}
    (told : .onDownloadComplte 0 ∈ (d.accept content).reports) :
    .onDownloadComplte 0 ∈ d.reports := by
  unfold accept written at told
  rcases mem_report told with told | same
  · unfold opened at told
    split at told
    · exact told
    · exact (mem_report told).resolve_right (by simp)
  · cases same

theorem success_complete {httpCode : Nat}
    (told : .onDownloadComplte 0 ∈ (d.complete httpCode).reports) :
    .onDownloadComplte 0 ∈ d.reports ∨ d.delegate = true ∧ httpCode = 200 := by
  unfold complete report at told
  split at told
  · rename_i attached
    rcases List.mem_append.mp told with told | told
    · exact .inl told
    · refine .inr ⟨attached, ?_⟩
      by_contra other
      simp [other] at told
  · exact .inl told

end Effects

def Matches (client : Client) (d : Downloader) : Prop :=
  match client.stage with
  | .body => client.httpCode = 200 → if d.isOpen then d.file = client.body else client.body = [] ∧ d.file = []
  | .finished => client.httpCode = 200 → d.file = client.body
  | .closed => client.httpCode ≠ 200
  | _ => client.body = [] ∧ d.file = [] ∧ d.isOpen = false

theorem Matches.accept (matching : Matches client d) (reading : client.stage = .body)
    (content : Bytes) :
    Matches { client with body := client.body ++ content } (d.accept content) := by
  simp only [Matches, reading, accept_isOpen, if_true, accept_file] at matching ⊢
  intro ok
  have before := matching ok
  split at before
  · rename_i isOpen
    rw [if_pos isOpen, before]
  · rename_i notOpen
    rw [if_neg notOpen, before.1]

theorem Matches.whole (matching : Matches client d) (reading : client.stage = .body)
    (ok : client.httpCode = 200) :
    d.file = client.body := by
  simp only [Matches, reading] at matching
  have before := matching ok
  split at before
  · exact before
  · rw [before.1, before.2]

/-- Closing the file loses nothing when the message is over, or when its status is not 200. -/
theorem Matches.complete (matching : Matches client d)
    (settled : client.httpCode = 200 → client.stage = .finished) (httpCode : Nat) :
    Matches client (d.complete httpCode) := by
  cases stage : client.stage <;>
    simp only [Matches, stage, complete_file, complete_isOpen] at matching ⊢
  case body => exact fun ok => absurd ((settled ok).symm.trans stage) (by decide)
  case finished | closed => exact matching
  all_goals exact ⟨matching.1, matching.2.1, trivial⟩

/-- While the downloader has its delegate, the client and its connection have theirs. -/
structure Sound (client : Client) (d : Downloader) : Prop where
  ended : client.recvComplete = true ↔ client.stage = .finished
  attached : d.delegate = true → client.delegate = true ∧ client.connectionDelegate = true
  matching : d.delegate = true → Matches client d

theorem Sound.detached (ended : client.recvComplete = true ↔ client.stage = .finished)
    (detached : d.delegate = false) :
    Sound client d := by
  refine ⟨ended, ?_, ?_⟩ <;> simp [detached]

section Moves

variable {event : Http.Event} (moved : event.advance lexicalCast client = some next)
include moved

theorem advance_attached : (event.settle next).delegate = client.delegate ∧
    (event.settle next).connectionDelegate = client.connectionDelegate := by
  cases event with
  | field name value =>
    obtain ⟨_, read⟩ := Option.ite_none_right_eq_some.mp moved
    obtain ⟨heads, bodyLimit, rfl⟩ := onFieldImpl_frame read
    exact ⟨rfl, rfl⟩
  | readError =>
    obtain ⟨_, same⟩ := Option.ite_none_right_eq_some.mp moved
    cases same
    cases client.recvComplete <;> exact ⟨rfl, rfl⟩
  | _ =>
    obtain ⟨_, same⟩ := Option.ite_none_right_eq_some.mp moved
    cases same
    exact ⟨rfl, rfl⟩

theorem advance_ended (ended : client.recvComplete = true ↔ client.stage = .finished) :
    (event.settle next).recvComplete = true ↔ (event.settle next).stage = .finished := by
  cases event with
  | field name value =>
    obtain ⟨_, read⟩ := Option.ite_none_right_eq_some.mp moved
    obtain ⟨heads, bodyLimit, rfl⟩ := onFieldImpl_frame read
    exact ended
  | readError =>
    obtain ⟨_, same⟩ := Option.ite_none_right_eq_some.mp moved
    cases same
    cases complete : client.recvComplete <;> simp_all [Event.settle]
  | _ =>
    obtain ⟨_, same⟩ := Option.ite_none_right_eq_some.mp moved
    cases same
    simp_all [Event.settle]

theorem advance_finished (ended : client.recvComplete = true)
    (finished : client.stage = .finished) :
    (event.settle next).stage = .finished ∧ (event.settle next).httpCode = client.httpCode ∧
      (event.settle next).body = client.body := by
  cases event with
  | field name value =>
    obtain ⟨_, read⟩ := Option.ite_none_right_eq_some.mp moved
    obtain ⟨heads, bodyLimit, rfl⟩ := onFieldImpl_frame read
    exact ⟨finished, rfl, rfl⟩
  | readError =>
    obtain ⟨_, same⟩ := Option.ite_none_right_eq_some.mp moved
    cases same
    rw [if_pos ended]
    exact ⟨finished, rfl, rfl⟩
  | _ =>
    obtain ⟨_, same⟩ := Option.ite_none_right_eq_some.mp moved
    cases same
    simp_all [Event.settle]

end Moves

theorem After.frame {event : Http.Event} {callback : Option Callback}
    (ends : After t event next after callback) (running : after.stuck = none) :
    after.system.clients 0 = event.settle next ∧
      after.system.delegate.delegate = t.system.delegate.delegate := by
  match callback with
  | none =>
    cases ends
    exact ⟨set_clients, rfl⟩
  | some .heads =>
    obtain ⟨n, system, _⟩ := ends
    simp [system]
  | some (.response io content) =>
    simp [ends.taken running]
  | some .complete =>
    simp [ends.1]

theorem After.success_response {event : Http.Event} {io : FileIO} {content : Bytes}
    (ends : After t event next after (some (.response io content)))
    (told : .onDownloadComplte 0 ∈ after.system.delegate.reports) :
    .onDownloadComplte 0 ∈ t.system.delegate.reports := by
  simp only [After] at ends
  split at ends
  · rw [ends.1] at told
    exact success_accept told
  · obtain ⟨d, system, _, reports⟩ := ends
    rw [system] at told
    exact (reports _ told).resolve_right (by simp)

/-- The cases are those of the event, as each of them leads to one call at most. -/
theorem io_matches {event : Http.Event} (sound : Sound (t.system.clients 0) t.system.delegate)
    (attached : t.system.delegate.delegate = true) (unbroken : Unbroken t (.io event))
    (moved : event.advance lexicalCast (t.system.clients 0) = some next)
    (ends : After t event next after (event.callback next)) (running : after.stuck = none) :
    Matches (after.system.clients 0) after.system.delegate := by
  have matching := sound.matching attached
  obtain ⟨clientAttached, connectionAttached⟩ := sound.attached attached
  cases event with
  | connected | response code | written =>
    obtain ⟨enabled, same⟩ := Option.ite_none_right_eq_some.mp moved
    cases same
    cases ends
    simp_all [Event.settle, Matches]
  | connectFailed code =>
    obtain ⟨enabled, same⟩ := Option.ite_none_right_eq_some.mp moved
    cases same
    simp only [Event.callback, clientAttached, connectionAttached, and_self, if_true] at ends
    obtain ⟨system, _⟩ := ends
    rw [system]
    simp_all [Event.settle, Matches]
  | field name value =>
    obtain ⟨enabled, read⟩ := Option.ite_none_right_eq_some.mp moved
    obtain ⟨heads, bodyLimit, rfl⟩ := onFieldImpl_frame read
    cases ends
    simp_all [Event.settle, Matches]
  | header =>
    obtain ⟨enabled, same⟩ := Option.ite_none_right_eq_some.mp moved
    cases same
    simp only [Event.callback, clientAttached, if_true] at ends
    obtain ⟨n, system, _⟩ := ends
    rw [system]
    simp_all [Event.settle, Matches]
  | body io content | chunk io content =>
    obtain ⟨enabled, same⟩ := Option.ite_none_right_eq_some.mp moved
    cases same
    simp only [Event.callback, clientAttached, if_true] at ends
    rw [ends.taken running]
    simpa [Event.settle, clientAttached] using matching.accept enabled content
  | finish =>
    obtain ⟨enabled, same⟩ := Option.ite_none_right_eq_some.mp moved
    cases same
    simp only [Event.callback, clientAttached, if_true] at ends
    obtain ⟨system, _⟩ := ends
    rw [system]
    simpa [Event.settle, Matches] using matching.whole enabled
  | readError =>
    obtain ⟨enabled, same⟩ := Option.ite_none_right_eq_some.mp moved
    cases same
    cases complete : (t.system.clients 0).recvComplete
    · have unfinished : (t.system.clients 0).stage ≠ .finished := fun finished => by
        simp [sound.ended.mpr finished] at complete
      have other : (t.system.clients 0).httpCode ≠ 200 :=
        fun ok => unfinished (unbroken attached ok)
      simp only [Event.callback, complete, clientAttached, connectionAttached, Bool.false_eq_true,
        not_false_eq_true, and_self, if_true, if_false] at ends
      rw [ends.1]
      simpa [Event.settle, Matches] using other
    · simp only [Event.callback, complete, if_true, not_true, false_and, if_false] at ends
      cases ends
      simpa [Event.settle] using matching
  | writeError =>
    obtain ⟨enabled, same⟩ := Option.ite_none_right_eq_some.mp moved
    cases same
    simp only [Event.callback, clientAttached, connectionAttached, and_self, if_true] at ends
    obtain ⟨system, _⟩ := ends
    rw [system]
    simpa [Event.settle, Matches] using matching.complete (unbroken attached)

theorem complete_finished {event : Http.Event}
    (sound : Sound (t.system.clients 0) t.system.delegate)
    (attached : t.system.delegate.delegate = true) (unbroken : Unbroken t (.io event))
    (moved : event.advance lexicalCast (t.system.clients 0) = some next)
    (called : event.callback next = some .complete) (ok : next.httpCode = 200) :
    (event.settle next).stage = .finished := by
  obtain ⟨_, connectionAttached⟩ := sound.attached attached
  cases event with
  | connectFailed code =>
    obtain ⟨_, same⟩ := Option.ite_none_right_eq_some.mp moved
    cases same
    simp [connectionAttached] at ok
  | finish =>
    obtain ⟨_, same⟩ := Option.ite_none_right_eq_some.mp moved
    cases same
    rfl
  | readError =>
    obtain ⟨_, same⟩ := Option.ite_none_right_eq_some.mp moved
    cases same
    cases complete : (t.system.clients 0).recvComplete
    · simp only [complete, Bool.false_eq_true, if_false] at ok
      have finished := unbroken attached ok
      simp [sound.ended.mpr finished] at complete
    · exact absurd called (by simp [Event.callback, complete])
  | writeError =>
    obtain ⟨_, same⟩ := Option.ite_none_right_eq_some.mp moved
    cases same
    exact unbroken attached ok
  | _ => simp [Event.callback] at called

theorem response_reading {event : Http.Event} {io : FileIO} {content : Bytes}
    (moved : event.advance lexicalCast client = some next)
    (called : event.callback next = some (.response io content)) : client.stage = .body := by
  cases event with
  | body | chunk => exact (Option.ite_none_right_eq_some.mp moved).1
  | _ => simp [Event.callback] at called

theorem io_sound {event : Http.Event} (sound : Sound (t.system.clients 0) t.system.delegate)
    (unbroken : Unbroken t (.io event))
    (moved : event.advance lexicalCast (t.system.clients 0) = some next)
    (ends : After t event next after (event.callback next)) (running : after.stuck = none) :
    Sound (after.system.clients 0) after.system.delegate := by
  obtain ⟨client, delegate⟩ := ends.frame running
  obtain ⟨clientSame, connectionSame⟩ := advance_attached moved
  refine ⟨?_, ?_, fun attached => io_matches sound (delegate ▸ attached) unbroken moved ends running⟩
  · rw [client]
    exact advance_ended moved sound.ended
  · rw [client, delegate, clientSame, connectionSame]
    exact sound.attached

theorem io_honest {event : Http.Event} (honest : Honest t)
    (sound : Sound (t.system.clients 0) t.system.delegate) (unbroken : Unbroken t (.io event))
    (moved : event.advance lexicalCast (t.system.clients 0) = some next)
    (ends : After t event next after (event.callback next)) : Honest after := by
  intro told
  -- A success that was reported before is that of a message which nothing changes any more.
  have before : .onDownloadComplte 0 ∈ t.system.delegate.reports →
      (event.settle next).stage = .finished ∧
      (event.settle next).httpCode = 200 ∧ t.system.delegate.file = (event.settle next).body := by
    intro told
    obtain ⟨finished, ok, file⟩ := honest told
    obtain ⟨stage, httpCode, body⟩ := advance_finished moved (sound.ended.mpr finished) finished
    exact ⟨stage, httpCode.trans ok, file.trans body.symm⟩
  match called : event.callback next with
  | none =>
    rw [called] at ends
    cases ends
    simpa using before told
  | some .heads =>
    rw [called] at ends
    obtain ⟨n, system, _⟩ := ends
    rw [system] at told ⊢
    simpa using before told
  | some (.response io content) =>
    have reading := response_reading moved called
    rw [called] at ends
    have finished := (honest (ends.success_response told)).1
    exact absurd (finished.symm.trans reading) (by decide)
  | some .complete =>
    obtain ⟨system, running⟩ : After t event next after (some .complete) := called ▸ ends
    rw [system] at told
    rcases success_complete told with told | ⟨attached, ok⟩
    · rw [system]
      simpa using before told
    · have finished := complete_finished sound attached unbroken moved called ok
      have matching := io_matches sound attached unbroken moved ends running
      rw [system] at matching ⊢
      simp only [Matches, set_clients, finished, settle_httpCode, ok, forall_const] at matching
      simpa [finished, ok] using matching

/-- What holds in every state, also in one in which the IO thread is stuck. -/
structure Inv (t : Thread Downloader) : Prop where
  honest : Honest t
  sound : t.stuck = none → Sound (t.system.clients 0) t.system.delegate

theorem io_keeps {event : Http.Event} (inv : Inv t) (unbroken : Unbroken t (.io event))
    (h : ioStep (httpDelegate lexicalCast) lexicalCast 0 t event = some after) : Inv after := by
  obtain ⟨running, next, moved, ends⟩ := io_after h
  have sound := inv.sound running
  exact ⟨io_honest inv.honest sound unbroken moved ends, io_sound sound unbroken moved ends⟩

theorem inv_initial : Inv initial := by
  refine ⟨?_, fun _ => ⟨by decide, fun _ => ⟨rfl, rfl⟩, fun _ => ⟨rfl, rfl, rfl⟩⟩⟩
  intro told
  cases told

theorem step_keeps {event : Event} (inv : Inv t) (unbroken : Unbroken t event)
    (h : step lexicalCast t event = some after) : Inv after := by
  cases step_took h with
  | start running created =>
    obtain ⟨ended, attached, matching⟩ := inv.sound running
    refine ⟨?_, fun _ => ⟨?_, ?_, ?_⟩⟩
    · intro told
      exact absurd ((inv.honest told).1.symm.trans created) (by decide)
    · simpa [created] using ended
    · simpa using attached
    · simpa [Matches, created] using matching
  | cancel running => exact ⟨inv.honest, fun _ => .detached (inv.sound running).ended rfl⟩
  | cancelClient running detached =>
    obtain ⟨stage, recvComplete, httpCode, body⟩ := cancelled_message (t.system.clients 0)
    refine ⟨?_, fun _ => .detached ?_ detached⟩
    · simpa [Honest, stage, httpCode, body] using inv.honest
    · simpa [stage, recvComplete] using (inv.sound running).ended
  | io event handled => exact io_keeps inv unbroken handled

/-- A failure before the end of a message with status 200 is reported as a success. -/
theorem step_broken {event : Event} (inv : Inv t) (broken : ¬ Unbroken t event)
    (h : step lexicalCast t event = some after) : ¬ Honest after := by
  intro honest
  match event with
  | .io .readError =>
    obtain ⟨running, next, moved, ends⟩ := io_after h
    obtain ⟨ended, attached, _⟩ := inv.sound running
    simp only [Unbroken, Classical.not_imp] at broken
    obtain ⟨present, ok, unfinished⟩ := broken
    obtain ⟨clientAttached, connectionAttached⟩ := attached present
    have incomplete : (t.system.clients 0).recvComplete = false := by simpa [unfinished] using ended
    obtain ⟨_, same⟩ := Option.ite_none_right_eq_some.mp moved
    cases same
    simp only [Event.callback, incomplete, clientAttached, connectionAttached, Bool.false_eq_true,
      not_false_eq_true, and_self, if_true, if_false] at ends
    cases ends.stage.symm.trans (honest (ends.success present ok)).1
  | .io .writeError =>
    obtain ⟨running, next, moved, ends⟩ := io_after h
    obtain ⟨_, attached, _⟩ := inv.sound running
    simp only [Unbroken, Classical.not_imp] at broken
    obtain ⟨present, ok, unfinished⟩ := broken
    obtain ⟨clientAttached, connectionAttached⟩ := attached present
    obtain ⟨_, same⟩ := Option.ite_none_right_eq_some.mp moved
    cases same
    simp only [Event.callback, clientAttached, connectionAttached, and_self, if_true] at ends
    exact unfinished (ends.stage.symm.trans (honest (ends.success present ok)).1)
  | .start | .cancel | .cancelClient => exact broken trivial
  | .io .connected | .io (.connectFailed _) | .io (.response _) | .io (.field _ _) | .io .header | .io (.body _ _)
  | .io (.chunk _ _) | .io .finish | .io .written => exact broken trivial

/-- In every run, a success is only ever reported of a whole body exactly when the connection never
fails between a status line with 200 and the end of its message. -/
theorem success_whole_iff (lexicalCast : Bytes → Option Nat) {events : List Event}
    {last : Thread Downloader} (h : run (step lexicalCast) initial events = some last) :
    Always (step lexicalCast) Honest initial events ↔
      EachStep (step lexicalCast) Unbroken initial events :=
  always_iff_eachStep (I := Inv) (fun _ inv => inv.honest) (fun _ _ _ inv unbroken => step_keeps inv unbroken)
    (fun _ _ _ inv broken => step_broken inv broken) inv_initial h

def wholeResponse : List Event :=
  [.start, .io .connected, .io .written, .io (.response 200), .io .header, .io (.body {} [1, 2]), .io (.chunk {} [3]),
    .io .finish, .io .readError]

theorem success_whole_response :
    ∃ t, run (step fun _ => none) initial wholeResponse = some t ∧
      t.system.delegate.file = [1, 2, 3] ∧ .onDownloadComplte 0 ∈ t.system.delegate.reports ∧
      EachStep (step fun _ => none) Unbroken initial wholeResponse :=
  ⟨_, rfl, rfl, by decide, (success_whole_iff _ rfl).mp (always_of_passes (by decide))⟩

/-- The connection is reset after the first piece of the body. -/
theorem success_truncated :
    ∃ t, run (step fun _ => none) initial
        [.start, .io .connected, .io .written, .io (.response 200), .io .header,
          .io (.body {} [1, 2]), .io .readError] =
      some t ∧ .onDownloadComplte 0 ∈ t.system.delegate.reports ∧
      (t.system.clients 0).stage ≠ .finished ∧ ¬ Honest t :=
  ⟨_, rfl, by decide, by decide, by decide⟩

end Kingkong.Http.Downloader
