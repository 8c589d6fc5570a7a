import Kingkong.Http.Delivery
import Kingkong.Lib.Run

/-!
`HttpDownloaderImpl`: the delegate of one HTTP client, which writes the body to a file. Its client
has the number 0. `file` has the bytes of the file since it was last opened, and `reports` what the
downloader told its own delegate.
-/

namespace Kingkong.Http
open Lib Locked

inductive Report where
  | onStartDownload
  | onDownloadProgress (writeSize totalSize : Nat)
  | onDownloadComplte (code : Int)
  deriving DecidableEq

structure Downloader where
  totalSize : Nat := 0
  writeSize : Nat := 0
  isOpen : Bool := false
  delegate : Bool := true
  file : Bytes := []
  reports : List Report := []

namespace Downloader

/-- Calls the delegate under `mutex_`, if it is there. -/
def notify (report : Downloader → Report) : Call Downloader Unit :=
  withLock .downloader do
    let s ← read
    if s.delegate.delegate then setDelegate fun d => { d with reports := d.reports ++ [report d] } else pure ()

def notifyDownloadStart : Call Downloader Unit := notify fun _ => .onStartDownload

def notifyDownloadProgress : Call Downloader Unit :=
  notify fun d => .onDownloadProgress d.writeSize d.totalSize

def notifyDownloadComplte (code : Int) : Call Downloader Unit :=
  notify fun _ => .onDownloadComplte code

/-- The first half of `Cancel`. -/
def detach : Call Downloader Unit :=
  withLock .downloader (setDelegate fun d => { d with delegate := false })

def cancel : Call Downloader Unit := do
  detach
  Http.cancel 0

def onHttpComplete (httpCode : Nat) : Call Downloader Unit := do
  setDelegate fun d => { d with isOpen := false }
  notifyDownloadComplte (if httpCode = 200 then 0 else -1)

/-- The second half of `OnHttpResponse`. -/
def write (io : FileIO) (content : Bytes) : Call Downloader Unit :=
  if io.writes then do
    setDelegate fun d =>
      { d with file := d.file ++ content, writeSize := (d.writeSize + content.length) % 2 ^ 64 }
    notifyDownloadProgress
  else do
    setDelegate fun d => { d with file := d.file ++ content.take io.kept }
    notifyDownloadComplte (-1)
    cancel

/-- The file is opened for writing, which cuts it to no bytes. -/
def onHttpResponse (io : FileIO) (content : Bytes) : Call Downloader Unit := do
  let s ← read
  if s.delegate.isOpen then write io content
  else if io.opens then do
    setDelegate fun d => { d with isOpen := true, file := [] }
    notifyDownloadStart
    write io content
  else do
    notifyDownloadComplte (-1)
    cancel

/-- `lexical_cast` does not throw here, as `on_field_impl` has made the same cast before. -/
def onHttpHeads (lexicalCast : Bytes → Option Nat) (heads : List (Bytes × Bytes)) :
    Call Downloader Unit :=
  match (findHead heads contentLength).bind lexicalCast with
  | some totalSize => setDelegate fun d => { d with totalSize := totalSize }
  | none => pure ()

def httpDelegate (lexicalCast : Bytes → Option Nat) : HttpClientDelegate Downloader where
  onHttpHeads _ := onHttpHeads lexicalCast
  onHttpResponse _ := onHttpResponse
  onHttpComplete _ := onHttpComplete

/-- What the owner and the IO thread do. The owner's `Cancel` is two events, for its two locked
sections. -/
inductive Event where
  | start
  | cancel
  | cancelClient
  | io (event : Http.Event)

def step (lexicalCast : Bytes → Option Nat) (t : Thread Downloader) :
    Event → Option (Thread Downloader)
  | .start =>
    if t.stuck = none ∧ (t.system.clients 0).stage = .created then
      some { system := t.system.set 0 { t.system.clients 0 with stage := .requested } }
    else none
  | .cancel => if t.stuck = none then some (t.perform detach) else none
  | .cancelClient =>
    if t.stuck = none ∧ t.system.delegate.delegate = false then some (t.perform (Http.cancel 0)) else none
  | .io event => ioStep (httpDelegate lexicalCast) lexicalCast 0 t event

def initial : Thread Downloader := { system := { delegate := {} } }

def report (make : Downloader → Report) (d : Downloader) : Downloader :=
  if d.delegate then { d with reports := d.reports ++ [make d] } else d

theorem mem_report {make : Downloader → Report} {d : Downloader} {r : Report}
    (reported : r ∈ (d.report make).reports) :
    r ∈ d.reports ∨ r = make d := by
  unfold report at reported
  split at reported
  · simpa using reported
  · exact .inl reported

def complete (httpCode : Nat) (d : Downloader) : Downloader :=
  report (fun _ => .onDownloadComplte (if httpCode = 200 then 0 else -1)) { d with isOpen := false }

def opened (d : Downloader) : Downloader :=
  if d.isOpen then d else report (fun _ => .onStartDownload) { d with isOpen := true, file := [] }

def written (content : Bytes) (d : Downloader) : Downloader :=
  report (fun d => .onDownloadProgress d.writeSize d.totalSize)
    { d with file := d.file ++ content, writeSize := (d.writeSize + content.length) % 2 ^ 64 }

def accept (content : Bytes) (d : Downloader) : Downloader := d.opened.written content

/-- The file takes the piece when it is open or can be opened, and can be written. -/
def takes (d : Downloader) (io : FileIO) : Bool := (d.isOpen || io.opens) && io.writes

section Calls

variable {s : System Downloader} {held : List Mutex} (free : Mutex.downloader ∉ held)
include free

theorem notify_apply (make : Downloader → Report) :
    notify make held s = (.ok (), { s with delegate := s.delegate.report make }) := by
  unfold notify report
  rw [withLock_free free]
  cases attached : s.delegate.delegate <;> simp [attached]

theorem onHttpComplete_apply (httpCode : Nat) :
    onHttpComplete httpCode held s = (.ok (),
      { s with delegate := s.delegate.complete httpCode }) := by
  unfold onHttpComplete
  rw [setDelegate_bind]
  exact notify_apply free _

theorem detach_apply :
    detach held s = (.ok (), { s with delegate := { s.delegate with delegate := false } }) :=
  withLock_free free _

/-- `Cancel` inside of a callback waits for the mutex under which the callback was made. -/
theorem cancel_stuck (member : Mutex.delegate 0 ∈ held) :
    cancel held s = (.error (.delegate 0),
      { s with delegate := { s.delegate with delegate := false } }) := by
  unfold cancel
  rw [bind_returns (detach_apply free)]
  exact cancel_held member

theorem write_apply {io : FileIO} (content : Bytes) (writes : io.writes = true) :
    write io content held s =
      (.ok (), { s with delegate := s.delegate.written content }) := by
  unfold write
  rw [if_pos writes, setDelegate_bind]
  exact notify_apply free _

theorem write_stuck {io : FileIO} (content : Bytes) (fails : io.writes = false)
    (member : Mutex.delegate 0 ∈ held) :
    ∃ d, write io content held s = (.error (.delegate 0), { s with delegate := d }) ∧
      ∀ r ∈ d.reports, r ∈ s.delegate.reports ∨ r = .onDownloadComplte (-1) := by
  unfold write
  rw [if_neg (by simp [fails]), setDelegate_bind, notifyDownloadComplte,
    bind_returns (notify_apply free _), cancel_stuck free member]
  exact ⟨_, rfl, fun r => mem_report⟩

theorem onHttpResponse_apply {io : FileIO} (content : Bytes) (taken : s.delegate.takes io = true) :
    onHttpResponse io content held s = (.ok (),
      { s with delegate := s.delegate.accept content }) := by
  obtain ⟨opens, writes⟩ := Bool.and_eq_true_iff.mp taken
  unfold onHttpResponse accept opened
  rw [read_bind]
  cases isOpen : s.delegate.isOpen with
  | true => simpa [isOpen] using write_apply free content writes
  | false =>
    have opens : io.opens = true := by simpa [isOpen] using opens
    simp only [opens, if_true, Bool.false_eq_true, if_false, setDelegate_bind]
    rw [notifyDownloadStart, bind_returns (notify_apply free _)]
    exact write_apply free content writes

/-- A failed `open` or `write` is reported and then cancels the client from inside of its own
callback. -/
theorem onHttpResponse_stuck {io : FileIO} (content : Bytes) (fails : s.delegate.takes io = false)
    (member : Mutex.delegate 0 ∈ held) :
    ∃ d, onHttpResponse io content held s = (.error (.delegate 0), { s with delegate := d }) ∧
      ∀ r ∈ d.reports, r ∈ s.delegate.reports ∨ r = .onStartDownload ∨
        r = .onDownloadComplte (-1) := by
  unfold onHttpResponse
  rw [read_bind]
  cases isOpen : s.delegate.isOpen with
  | true =>
    have fails : io.writes = false := by simpa [takes, isOpen] using fails
    obtain ⟨d, stuck, told⟩ := write_stuck (s := s) free content fails member
    exact ⟨d, stuck, fun r reported => (told r reported).imp id .inr⟩
  | false =>
    simp only [Bool.false_eq_true, if_false]
    cases opens : io.opens with
    | true =>
      have fails : io.writes = false := by simpa [takes, isOpen, opens] using fails
      simp only [if_true, setDelegate_bind]
      rw [notifyDownloadStart, bind_returns (notify_apply free _)]
      obtain ⟨d, stuck, told⟩ := write_stuck free content fails member
      refine ⟨d, stuck, ?_⟩
      intro r reported
      rcases told r reported with before | failed
      · exact (mem_report before).imp id .inl
      · exact .inr (.inr failed)
    | false =>
      simp only [Bool.false_eq_true, if_false]
      rw [notifyDownloadComplte, bind_returns (notify_apply free _), cancel_stuck free member]
      exact ⟨_, rfl, fun r reported => (mem_report reported).imp id .inr⟩

end Calls

theorem onHttpHeads_apply (lexicalCast : Bytes → Option Nat) (heads : List (Bytes × Bytes))
    (held : List Mutex) (s : System Downloader) :
    ∃ n, onHttpHeads lexicalCast heads held s = (.ok (),
      { s with delegate := { s.delegate with totalSize := n } }) := by
  unfold onHttpHeads
  cases (findHead heads contentLength).bind lexicalCast with
  | some totalSize => exact ⟨totalSize, rfl⟩
  | none => exact ⟨s.delegate.totalSize, rfl⟩

/-- The state after an event, by the call of the downloader that it led to. -/
def After (t : Thread Downloader) (event : Http.Event) (next : Client) (after : Thread Downloader) :
    Option Callback → Prop
  | none => after = { system := t.system.set 0 (event.settle next) }
  | some .heads =>
    ∃ n, after.system =
        { t.system.set 0 (event.settle next) with delegate := { t.system.delegate with totalSize := n } } ∧
      after.stuck = none
  | some (.response io content) =>
    if t.system.delegate.takes io then
      after.system = { t.system.set 0 (event.settle next) with delegate := t.system.delegate.accept content } ∧
        after.stuck = none
    else
      ∃ d, after.system = { t.system.set 0 next with delegate := d } ∧ after.stuck = some (.delegate 0) ∧
        ∀ r ∈ d.reports, r ∈ t.system.delegate.reports ∨ r = .onStartDownload ∨ r = .onDownloadComplte (-1)
  | some .complete =>
    after.system = { t.system.set 0 (event.settle next) with delegate := t.system.delegate.complete next.httpCode } ∧
      after.stuck = none

theorem After.taken {t after : Thread Downloader} {event : Http.Event} {next : Client} {io : FileIO}
    {content : Bytes} (ends : After t event next after (some (.response io content)))
    (running : after.stuck = none) :
    after.system =
      { t.system.set 0 (event.settle next) with delegate := t.system.delegate.accept content } := by
  simp only [After] at ends
  split at ends
  · exact ends.1
  · obtain ⟨_, _, stuck, _⟩ := ends
    simp [running] at stuck

theorem After.stage {t after : Thread Downloader} {event : Http.Event} {next : Client}
    {callback : Option Callback} (ends : After t event next after callback) :
    (after.system.clients 0).stage = next.stage := by
  have settled := settle_stage event next
  match callback with
  | none =>
    cases ends
    exact settled
  | some .heads =>
    obtain ⟨n, system, _⟩ := ends
    rw [system]
    exact settled
  | some (.response io content) =>
    simp only [After] at ends
    split at ends
    · rw [ends.1]
      exact settled
    · obtain ⟨d, system, _⟩ := ends
      rw [system]
      rfl
  | some .complete =>
    rw [ends.1]
    exact settled

theorem After.success {t after : Thread Downloader} {event : Http.Event} {next : Client}
    (ends : After t event next after (some .complete))
    (attached : t.system.delegate.delegate = true) (ok : next.httpCode = 200) :
    .onDownloadComplte 0 ∈ after.system.delegate.reports := by
  rw [ends.1]
  simp [complete, report, attached, ok]

theorem io_after {lexicalCast : Bytes → Option Nat} {t after : Thread Downloader}
    {event : Http.Event}
    (h : ioStep (httpDelegate lexicalCast) lexicalCast 0 t event = some after) :
    t.stuck = none ∧ ∃ next, event.advance lexicalCast (t.system.clients 0) = some next ∧
      After t event next after (event.callback next) := by
  obtain ⟨running, next, moved, same⟩ := ioStep_outcome h
  refine ⟨running, next, moved, ?_⟩
  have free := Event.downloader_not_mem_holding (c := 0) event
  rw [same]
  match event.callback next with
  | none => rfl
  | some .heads =>
    obtain ⟨n, read⟩ :=
      onHttpHeads_apply lexicalCast next.heads (event.holding 0) (t.system.set 0 next)
    have returned : outcome (httpDelegate lexicalCast) 0 event next t.system (some .heads) = _ :=
      outcome_returns read
    rw [returned]
    exact ⟨n, rfl, rfl⟩
  | some (.response io content) =>
    by_cases taken : t.system.delegate.takes io
    · have returned : outcome (httpDelegate lexicalCast) 0 event next t.system (some (.response io content)) = _ :=
        outcome_returns (onHttpResponse_apply (s := t.system.set 0 next) free content taken)
      rw [returned]
      simp only [After, if_pos taken]
      exact ⟨rfl, rfl⟩
    · obtain ⟨d, stuck, told⟩ := onHttpResponse_stuck (s := t.system.set 0 next) free content
        (by simpa using taken) (Event.delegate_mem_holding event)
      have stopped : outcome (httpDelegate lexicalCast) 0 event next t.system (some (.response io content)) = _ :=
        outcome_stuck stuck
      rw [stopped]
      simp only [After, if_neg taken]
      exact ⟨d, rfl, rfl, told⟩
  | some .complete =>
    have returned : outcome (httpDelegate lexicalCast) 0 event next t.system (some .complete) = _ :=
      outcome_returns (onHttpComplete_apply (s := t.system.set 0 next) free next.httpCode)
    rw [returned]
    exact ⟨rfl, rfl⟩

/-- What a step can do. -/
inductive Took (lexicalCast : Bytes → Option Nat) (t : Thread Downloader) :
    Event → Thread Downloader → Prop where
  | start (running : t.stuck = none) (created : (t.system.clients 0).stage = .created) :
      Took lexicalCast t .start { system := t.system.set 0 { t.system.clients 0 with stage := .requested } }
  | cancel (running : t.stuck = none) :
      Took lexicalCast t .cancel
        { system := { t.system with delegate := { t.system.delegate with delegate := false } } }
  | cancelClient (running : t.stuck = none) (detached : t.system.delegate.delegate = false) :
      Took lexicalCast t .cancelClient { system := t.system.set 0 (cancelled (t.system.clients 0)) }
  | io (event : Http.Event) {after : Thread Downloader}
      (handled : ioStep (httpDelegate lexicalCast) lexicalCast 0 t event = some after) :
      Took lexicalCast t (.io event) after

theorem step_took {lexicalCast : Bytes → Option Nat} {t after : Thread Downloader} {event : Event}
    (h : step lexicalCast t event = some after) : Took lexicalCast t event after := by
  cases event with
  | start =>
    obtain ⟨⟨running, created⟩, same⟩ := Option.ite_none_right_eq_some.mp h
    cases same
    exact .start running created
  | cancel =>
    obtain ⟨running, same⟩ := Option.ite_none_right_eq_some.mp h
    cases same
    rw [Thread.perform, detach_apply List.not_mem_nil]
    exact .cancel running
  | cancelClient =>
    obtain ⟨⟨running, detached⟩, same⟩ := Option.ite_none_right_eq_some.mp h
    cases same
    rw [Thread.perform, cancel_free List.not_mem_nil List.not_mem_nil]
    exact .cancelClient running detached
  | io event => exact .io event h

end Downloader

end Kingkong.Http
