import Kingkong.Socks5.Model

/-!
A handshake that is not answered waits for the proxy. Every handler either answers or reads again,
except for a reply to the connect request that has its four head bytes and is not complete.
-/

namespace Kingkong.Socks5
open Lib State

variable {literals : Literals} {info : Socks5ProxyProperty} {s t : State} {event : Event} {events : List Event}

def Waiting (s : State) : Prop :=
  s.reads = 1 ∧ (s.status = .hello ∨ s.status = .authReq ∨ s.status = .conSvr)

def Attentive (s : State) : Prop := s.answers = [] → Waiting s

/-- An `async_read_some` is outstanding until the client has answered. -/
def Reads (s : State) : Prop := s.answers = [] → 0 < s.reads

instance : DecidablePred Reads :=
  fun s => inferInstanceAs (Decidable (s.answers = [] → 0 < s.reads))

/-- A read does not leave the reply to the connect request with its head and without its end. -/
def WholeReply (s : State) (event : Event) : Prop :=
  ∀ data, event = .read data → s.answers = [] → s.status = .conSvr →
    (s.receivedData ++ data).length < 4 ∨ incomplete (s.receivedData ++ data) = false

theorem attentive_reads (attentive : Attentive s) : Reads s := by
  intro unanswered
  rw [(attentive unanswered).1]
  exact Nat.one_pos

theorem onSocks5Handshake_attentive (code : Int) : Attentive (s.onSocks5Handshake code) := by
  intro unanswered
  simp [onSocks5Handshake] at unanswered

theorem doReceiveData_attentive (none : s.reads = 0)
    (status : s.status = .hello ∨ s.status = .authReq ∨ s.status = .conSvr) :
    Attentive s.doReceiveData := by
  intro _
  exact ⟨by simp [doReceiveData, none], status⟩

theorem loopSending_attentive (none : s.reads = 0)
    (sending : s.status = .init ∨ s.status = .needAuth ∨ s.status = .authSuccess) :
    Attentive (s.loopSending literals info) := by
  unfold loopSending
  rcases sending with status | status | status
  · rw [status]
    exact doReceiveData_attentive none (Or.inl rfl)
  · rw [status]
    exact doReceiveData_attentive none (Or.inr (Or.inl rfl))
  · rw [status]
    exact doReceiveData_attentive none (Or.inr (Or.inr rfl))

theorem handleHello_attentive {data : Bytes} (none : s.reads = 0) (status : s.status = .hello) :
    Attentive (s.handleHello literals info data) := by
  simp only [handleHello]
  split
  · exact doReceiveData_attentive none (Or.inl status)
  · split
    · exact onSocks5Handshake_attentive _
    · split
      · exact loopSending_attentive none (Or.inr (Or.inr rfl))
      · split
        · exact loopSending_attentive none (Or.inr (Or.inl rfl))
        · exact onSocks5Handshake_attentive _

theorem handleSocks5Auth_attentive {data : Bytes} (none : s.reads = 0)
    (status : s.status = .authReq) :
    Attentive (s.handleSocks5Auth literals info data) := by
  simp only [handleSocks5Auth]
  split
  · exact doReceiveData_attentive none (Or.inr (Or.inl status))
  · split
    · exact onSocks5Handshake_attentive _
    · exact loopSending_attentive none (Or.inr (Or.inr rfl))

theorem handleConnectBussinessServer_attentive {data : Bytes} (none : s.reads = 0)
    (status : s.status = .conSvr)
    (whole : (s.receivedData ++ data).length < 4 ∨ incomplete (s.receivedData ++ data) = false) :
    Attentive (s.handleConnectBussinessServer data) := by
  simp only [handleConnectBussinessServer]
  split
  · exact doReceiveData_attentive none (Or.inr (Or.inr status))
  · rename_i long
    rw [whole.resolve_left long]
    simp only [Bool.false_eq_true, if_false]
    split
    · exact onSocks5Handshake_attentive _
    · exact onSocks5Handshake_attentive _

theorem handleConnectBussinessServer_stalls {data : Bytes}
    (long : ¬ (s.receivedData ++ data).length < 4)
    (short : incomplete (s.receivedData ++ data) = true) :
    s.handleConnectBussinessServer data = { s with receivedData := s.receivedData ++ data } := by
  simp only [handleConnectBussinessServer, if_neg long, short, if_true]

theorem loop_hello {data : Bytes} (status : s.status = .hello) :
    s.loopSocks5Handshake literals info data = s.handleHello literals info data := by
  unfold loopSocks5Handshake
  rw [status]

theorem loop_authReq {data : Bytes} (status : s.status = .authReq) :
    s.loopSocks5Handshake literals info data = s.handleSocks5Auth literals info data := by
  unfold loopSocks5Handshake
  rw [status]

theorem loop_conSvr {data : Bytes} (status : s.status = .conSvr) :
    s.loopSocks5Handshake literals info data = s.handleConnectBussinessServer data := by
  unfold loopSocks5Handshake
  rw [status]

theorem loopSending_answers : (s.loopSending literals info).answers = s.answers := by
  unfold loopSending
  split <;> rfl

theorem loop_answers (data : Bytes) :
    ∃ more, (s.loopSocks5Handshake literals info data).answers = s.answers ++ more := by
  unfold loopSocks5Handshake
  split
  · simp only [handleHello]
    repeat' split
    all_goals simp [doReceiveData, onSocks5Handshake, loopSending_answers]
  · simp only [handleSocks5Auth]
    repeat' split
    all_goals simp [doReceiveData, onSocks5Handshake, loopSending_answers]
  · simp only [handleConnectBussinessServer]
    repeat' split
    all_goals simp [doReceiveData, onSocks5Handshake]
  · exact ⟨[], by simp [loopSending_answers]⟩

theorem read_cases {data : Bytes} (h : step literals info s (.read data) = some t) :
    0 < s.reads ∧ t = { s with reads := s.reads - 1 }.loopSocks5Handshake literals info data := by
  simp only [step] at h
  split at h
  · rename_i enabled
    cases h
    exact ⟨enabled.1, rfl⟩
  · cases h

theorem step_attentive (attentive : Attentive s) (whole : WholeReply s event)
    (h : step literals info s event = some t) :
    Attentive t := by
  cases event with
  | read data =>
    obtain ⟨_, rfl⟩ := read_cases h
    by_cases unanswered : s.answers = []
    · obtain ⟨one, status⟩ := attentive unanswered
      have none : s.reads - 1 = 0 := by omega
      rcases status with status | status | status
      · rw [loop_hello (s := { s with reads := s.reads - 1 }) status]
        exact handleHello_attentive none status
      · rw [loop_authReq (s := { s with reads := s.reads - 1 }) status]
        exact handleSocks5Auth_attentive none status
      · rw [loop_conSvr (s := { s with reads := s.reads - 1 }) status]
        exact handleConnectBussinessServer_attentive none status (whole data rfl unanswered status)
    · intro silent
      obtain ⟨more, grown⟩ := loop_answers (s := { s with reads := s.reads - 1 }) data
      rw [silent] at grown
      exact absurd (List.append_eq_nil_iff.mp grown.symm).1 unanswered
  | readError =>
    simp only [step] at h
    split at h <;> cases h
    exact onSocks5Handshake_attentive _
  | written =>
    simp only [step] at h
    split at h <;> cases h
    exact attentive
  | writeError =>
    simp only [step] at h
    split at h <;> cases h
    exact onSocks5Handshake_attentive _

theorem step_stalls (attentive : Attentive s) (cut : ¬ WholeReply s event)
    (h : step literals info s event = some t) :
    ¬ Reads t := by
  simp only [WholeReply, not_forall, not_or, Bool.not_eq_false] at cut
  obtain ⟨data, rfl, unanswered, status, long, short⟩ := cut
  obtain ⟨one, _⟩ := attentive unanswered
  obtain ⟨_, rfl⟩ := read_cases h
  have stalled :=
    handleConnectBussinessServer_stalls (s := { s with reads := s.reads - 1 }) long short
  rw [loop_conSvr (s := { s with reads := s.reads - 1 }) status, stalled]
  intro reads
  have some : 0 < s.reads - 1 := reads unanswered
  omega

theorem connected_attentive : Attentive (connected literals info) := by
  show Attentive (({} : State).loopSending literals info)
  exact loopSending_attentive rfl (Or.inl rfl)

/-- The handshake never stops reading of its own exactly when no read leaves an incomplete reply to
the connect request. -/
theorem handshake_reads_iff
    (h : run (step literals info) (connected literals info) events = some s) :
    Always (step literals info) Reads (connected literals info) events ↔
      EachStep (step literals info) WholeReply (connected literals info) events :=
  always_iff_eachStep (fun _ => attentive_reads) (fun _ _ _ => step_attentive) (fun _ _ _ => step_stalls)
    connected_attentive h

def anonymous : Socks5ProxyProperty :=
  { server := [104], port := 80, username := [], password := [] }

/-- A proxy without authentication that sends the head of its reply in a read of its own. -/
def cutAfterHead : List Event := [.read [0x05, 0x00], .read [0x05, 0x00, 0x00, 0x01]]

theorem handshake_stalls_cutAfterHead :
    ∃ s, run (step noLiterals anonymous) (connected noLiterals anonymous) cutAfterHead = some s ∧
      ¬ Reads s := by
  exact ⟨_, rfl, by decide⟩

def wholeReply : List Event :=
  [.read [0x05, 0x00], .read [0x05, 0x00, 0x00, 0x01, 10, 0, 0, 1, 0, 80]]

theorem handshake_reads_wholeReply :
    ∃ s, run (step noLiterals anonymous) (connected noLiterals anonymous) wholeReply = some s ∧
      s.answers = [0] ∧
      EachStep (step noLiterals anonymous) WholeReply (connected noLiterals anonymous) wholeReply := by
  have always : Always (step noLiterals anonymous) Reads (connected noLiterals anonymous) wholeReply :=
    always_of_passes (by decide)
  exact ⟨_, rfl, by decide, (handshake_reads_iff rfl).mp always⟩

end Kingkong.Socks5
