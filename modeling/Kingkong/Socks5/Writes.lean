import Kingkong.Socks5.Stall
import Kingkong.Socks5.Transcript

/-!
`DoSendData` puts a message into `write_data_` and starts a write without a look at the write before
it. It is reached from the completion of a read, and the proxy may answer a message before its write
has completed here.
-/

namespace Kingkong.Socks5
open Lib State

variable {literals : Literals} {info : Socks5ProxyProperty} {s t : State} {event : Event} {events : List Event}

/-- The event is a read that completes a reply to which the client has a next message. -/
def Prompts (s : State) : Event → Prop
  | .read data =>
    (s.status = .hello ∧ ([kSocks5Version, kSocks5NoAuth] <+: s.receivedData ++ data ∨
      [kSocks5Version, kSocks5UsrNamePwdAuth] <+: s.receivedData ++ data)) ∨
    (s.status = .authReq ∧ [kSocks5AuthVersion, kSocks5RespStatus] <+: s.receivedData ++ data)
  | _ => False

/-- Such a read comes when the previous write has completed. -/
def AfterWrite (s : State) (event : Event) : Prop := Prompts s event → s.writes = 0

/-- A step that assigns `write_data_` or starts a write finds no write outstanding. -/
def Exclusive (literals : Literals) (info : Socks5ProxyProperty) (s : State) (event : Event) :
    Prop :=
  ∀ t, step literals info s event = some t → t.writeData ≠ s.writeData ∨ s.writes < t.writes → s.writes = 0

/-- A read is outstanding only where a reply is expected. -/
def Listening (s : State) : Prop :=
  s.reads ≤ 1 ∧ (0 < s.reads → s.status = .hello ∨ s.status = .authReq ∨ s.status = .conSvr)

/-- What a step does to the writes: a prompt adds one, and nothing else touches `write_data_`. -/
inductive Writes (s t : State) (event : Event) : Prop where
  | next (prompted : Prompts s event) (more : t.writes = s.writes + 1)
  | quiet (unprompted : ¬ Prompts s event) (same : t.writeData = s.writeData) (fewer : t.writes ≤ s.writes)

theorem start_long {first second : UInt8} {bytes : Bytes} (start : [first, second] <+: bytes) :
    2 ≤ bytes.length :=
  start.length_le

theorem handleHello_writes {data : Bytes} (none : s.reads = 0) (status : s.status = .hello) :
    Listening (s.handleHello literals info data) ∧
      Writes s (s.handleHello literals info data) (.read data) := by
  rcases handleHello_cases (s := s) data with
    ⟨short, next⟩ | ⟨refused, next⟩ | ⟨start, next⟩ | ⟨start, next⟩
  · rw [next]
    refine ⟨⟨by simp [doReceiveData, none], fun _ => Or.inl status⟩, .quiet ?_ rfl (Nat.le_refl _)⟩
    rintro (⟨_, start | start⟩ | ⟨other, _⟩)
    · exact absurd (start_long start) (by omega)
    · exact absurd (start_long start) (by omega)
    · exact absurd (status.symm.trans other) (by decide)
  · rw [next]
    refine ⟨⟨by simp [onSocks5Handshake, none], fun _ => Or.inl status⟩,
      .quiet ?_ rfl (Nat.le_refl _)⟩
    rintro (⟨_, start | start⟩ | ⟨other, _⟩)
    · exact (refused _ start).1 rfl
    · exact (refused _ start).2 rfl
    · exact absurd (status.symm.trans other) (by decide)
  · rw [next]
    exact ⟨⟨by simp [doConnectMyServer, doSendData, doReceiveData, none], fun _ => Or.inr (Or.inr rfl)⟩,
      .next (Or.inl ⟨status, Or.inl start⟩) rfl⟩
  · rw [next]
    exact ⟨⟨by simp [doSocks5Auth, doSendData, doReceiveData, none], fun _ => Or.inr (Or.inl rfl)⟩,
      .next (Or.inl ⟨status, Or.inr start⟩) rfl⟩

theorem handleSocks5Auth_writes {data : Bytes} (none : s.reads = 0) (status : s.status = .authReq) :
    Listening (s.handleSocks5Auth literals info data) ∧
      Writes s (s.handleSocks5Auth literals info data) (.read data) := by
  rcases handleSocks5Auth_cases (s := s) data with
    ⟨short, next⟩ | ⟨refused, next⟩ | ⟨start, next⟩
  · rw [next]
    refine ⟨⟨by simp [doReceiveData, none], fun _ => Or.inr (Or.inl status)⟩,
      .quiet ?_ rfl (Nat.le_refl _)⟩
    rintro (⟨other, _⟩ | ⟨_, start⟩)
    · exact absurd (status.symm.trans other) (by decide)
    · exact absurd (start_long start) (by omega)
  · rw [next]
    refine ⟨⟨by simp [onSocks5Handshake, none], fun _ => Or.inr (Or.inl status)⟩,
      .quiet ?_ rfl (Nat.le_refl _)⟩
    rintro (⟨other, _⟩ | ⟨_, start⟩)
    · exact absurd (status.symm.trans other) (by decide)
    · exact refused start
  · rw [next]
    exact ⟨⟨by simp [doConnectMyServer, doSendData, doReceiveData, none], fun _ => Or.inr (Or.inr rfl)⟩,
      .next (Or.inr ⟨status, start⟩) rfl⟩

theorem handleConnectBussinessServer_writes {data : Bytes} (none : s.reads = 0)
    (status : s.status = .conSvr) :
    Listening (s.handleConnectBussinessServer data) ∧
      Writes s (s.handleConnectBussinessServer data) (.read data) := by
  have unprompted : ¬ Prompts s (.read data) := by
    rintro (⟨other, _⟩ | ⟨other, _⟩) <;> exact absurd (status.symm.trans other) (by decide)
  rcases handleConnectBussinessServer_cases (s := s) data with
      ⟨_, next⟩ | next | next | ⟨_, _, _, next⟩
  · rw [next]
    exact ⟨⟨by simp [doReceiveData, none], fun _ => Or.inr (Or.inr status)⟩,
      .quiet unprompted rfl (Nat.le_refl _)⟩
  · rw [next]
    exact ⟨⟨by simp [none], fun _ => Or.inr (Or.inr status)⟩, .quiet unprompted rfl (Nat.le_refl _)⟩
  · rw [next]
    exact ⟨⟨by simp [onSocks5Handshake, none], fun _ => Or.inr (Or.inr status)⟩,
      .quiet unprompted rfl (Nat.le_refl _)⟩
  · rw [next]
    refine ⟨⟨by simp [onSocks5Handshake, none], fun some => ?_⟩,
      .quiet unprompted rfl (Nat.le_refl _)⟩
    simp [onSocks5Handshake, none] at some

/-- The handlers look at the state without the read that completed. -/
theorem writes_of_taken {data : Bytes} (writes : Writes (taken s) t (.read data)) :
    Writes s t (.read data) := by
  cases writes with
  | next prompted more => exact .next prompted more
  | quiet unprompted same fewer => exact .quiet unprompted same fewer

theorem step_writes (listening : Listening s) (h : step literals info s event = some t) :
    Listening t ∧ Writes s t event := by
  obtain ⟨single, expects⟩ := listening
  cases event with
  | read data =>
    obtain ⟨some, rfl⟩ := read_cases h
    have none : (taken s).reads = 0 := by
      show s.reads - 1 = 0
      omega
    change Listening ((taken s).loopSocks5Handshake literals info data) ∧
      Writes s ((taken s).loopSocks5Handshake literals info data) (.read data)
    rcases expects some with status | status | status
    · rw [loop_hello (s := taken s) status]
      exact (handleHello_writes none status).imp id writes_of_taken
    · rw [loop_authReq (s := taken s) status]
      exact (handleSocks5Auth_writes none status).imp id writes_of_taken
    · rw [loop_conSvr (s := taken s) status]
      exact (handleConnectBussinessServer_writes none status).imp id writes_of_taken
  | readError =>
    simp only [step] at h
    split at h <;> cases h
    exact ⟨⟨by simp only [onSocks5Handshake]; omega, fun some => expects (by simp only [onSocks5Handshake] at some; omega)⟩,
      .quiet id rfl (Nat.le_refl _)⟩
  | written =>
    simp only [step] at h
    split at h <;> cases h
    exact ⟨⟨single, expects⟩, .quiet id rfl (Nat.sub_le _ _)⟩
  | writeError =>
    simp only [step] at h
    split at h <;> cases h
    exact ⟨⟨single, expects⟩, .quiet id rfl (Nat.sub_le _ _)⟩

/-- One write at a time, where reads are outstanding only for replies. -/
def OneWrite (s : State) : Prop := Listening s ∧ s.writes ≤ 1

theorem connected_oneWrite : OneWrite (connected literals info) :=
  ⟨⟨Nat.le_refl _, fun _ => Or.inl rfl⟩, Nat.le_refl _⟩

theorem step_oneWrite (one : OneWrite s) (after : AfterWrite s event)
    (h : step literals info s event = some t) :
    OneWrite t := by
  obtain ⟨listening, writes⟩ := step_writes one.1 h
  refine ⟨listening, ?_⟩
  cases writes with
  | next prompted more =>
    have none := after prompted
    omega
  | quiet _ _ fewer => exact Nat.le_trans fewer one.2

theorem step_overlaps (one : OneWrite s) (early : ¬ AfterWrite s event)
    (h : step literals info s event = some t) :
    ¬ t.writes ≤ 1 := by
  obtain ⟨prompted, busy⟩ := Classical.not_imp.mp early
  obtain ⟨_, writes⟩ := step_writes one.1 h
  cases writes with
  | next _ more => omega
  | quiet unprompted _ _ => exact absurd prompted unprompted

theorem afterWrite_exclusive (one : OneWrite s) (after : AfterWrite s event) :
    Exclusive literals info s event := by
  intro t h changed
  obtain ⟨_, writes⟩ := step_writes one.1 h
  cases writes with
  | next prompted _ => exact after prompted
  | quiet _ same fewer =>
    rcases changed with reassigned | started
    · exact absurd same reassigned
    · exact absurd started (Nat.not_lt.mpr fewer)

/-- One write is outstanding at a time, and `write_data_` is left alone until it has completed,
exactly when no reply that calls for a next message is read before the completion of the write that
it answers. -/
theorem writes_exclusive_iff
    (h : run (step literals info) (connected literals info) events = some s) :
    (Always (step literals info) (fun s => s.writes ≤ 1) (connected literals info) events ∧
        EachStep (step literals info) (Exclusive literals info) (connected literals info) events) ↔
      EachStep (step literals info) AfterWrite (connected literals info) events := by
  have single := always_iff_eachStep (P := fun s : State => s.writes ≤ 1) (fun _ one => one.2)
    (fun _ _ _ => step_oneWrite) (fun _ _ _ => step_overlaps) connected_oneWrite h
  refine ⟨fun both => single.mp both.1, fun each => ⟨single.mpr each, ?_⟩⟩
  intro before event after t split reached
  have initial : EachStep (step literals info) AfterWrite (connected literals info) before := by
    rw [split] at each
    exact eachStep_initial each
  have one := run_keeps_under (fun _ _ _ => step_oneWrite) connected_oneWrite initial reached
  exact afterWrite_exclusive one (each before event after t split reached)

/-- The proxy takes the greeting and answers before its write has completed here. -/
def quickReply : List Event := [.read [0x05, 0x00]]

theorem writes_overlap_quickReply :
    ∃ s, run (step noLiterals anonymous) (connected noLiterals anonymous) quickReply = some s ∧
      s.writes = 2 ∧ (connected noLiterals anonymous).writes = 1 ∧
      s.writeData ≠ (connected noLiterals anonymous).writeData := by
  exact ⟨_, rfl, by decide, by decide, by decide⟩

def patientReply : List Event := [.written, .read [0x05, 0x00], .written]

theorem writes_exclusive_patientReply :
    ∃ s, run (step noLiterals anonymous) (connected noLiterals anonymous) patientReply = some s ∧
      s.writes = 0 ∧
      s.status = .conSvr ∧ EachStep (step noLiterals anonymous) (Exclusive noLiterals anonymous)
        (connected noLiterals anonymous) patientReply := by
  have first : step noLiterals anonymous (connected noLiterals anonymous) .written =
    some { connected noLiterals anonymous with writes := 0 } := rfl
  refine ⟨_, rfl, by decide, by decide, ((writes_exclusive_iff rfl).mpr ?_).2⟩
  refine (eachStep_cons first).mpr ⟨nofun, (eachStep_cons rfl).mpr ⟨fun _ => rfl, ?_⟩⟩
  exact (eachStep_cons rfl).mpr ⟨nofun, eachStep_nil⟩

end Kingkong.Socks5
