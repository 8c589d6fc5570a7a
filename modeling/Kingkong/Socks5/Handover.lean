import Kingkong.Socks5.Transcript

/-!
Where the handshake leaves the stream to the tunnelled connection. The client reads up to ten bytes
at a time and keeps none of them for its delegate, so what it has read when it reports success is
gone.
-/

namespace Kingkong.Socks5
open Lib State

variable {literals : Literals} {info : Socks5ProxyProperty} {s t : State} {c d : Session} {event : Event}
  {events : List Event}

/-- The bytes read since the last time that `request` was sent. -/
def sinceRequest (request : Bytes) (transcript : List Entry) : Bytes :=
  transcript.foldl (fun bytes entry =>
    match entry with
    | .sent buffer => if buffer = request then [] else bytes
    | .received data => bytes ++ data) []

/-- One reply of RFC 1928: four bytes, an address of the type that the fourth names, and a port. -/
def CompleteReply (reply : Bytes) : Prop :=
  (reply.getD 3 0 = kSocksATYPIPv4 ∧ reply.length = 4 + 4 + 2) ∨
    (reply.getD 3 0 = kSocksATYPHost ∧ reply.length = 4 + 1 + (reply.getD 4 0).toNat + 2) ∨
    (reply.getD 3 0 = kSocksATYPIPv6 ∧ reply.length = 4 + 16 + 2)

instance : DecidablePred CompleteReply := fun _ => instDecidableOr

/-- Success is reported with exactly the reply read. -/
def HandsOver (literals : Literals) (info : Socks5ProxyProperty) (c : Session) : Prop :=
  0 ∈ c.client.answers → CompleteReply (sinceRequest (connectRequest literals info) c.transcript)

/-- The bytes have a known address type and do not go past the end of the reply. A length byte from
249 on is negative as a `char`, and then `length - 249` bytes are taken for the whole reply. -/
def WithinReply (reply : Bytes) : Prop :=
  (reply.getD 3 0 = kSocksATYPIPv4 ∧ reply.length ≤ 4 + 4 + 2) ∨
    (reply.getD 3 0 = kSocksATYPHost ∧ reply.length ≤ 4 + 1 + (reply.getD 4 0).toNat + 2 ∧
      ((reply.getD 4 0).toNat < 249 ∨ reply.length + 249 < (reply.getD 4 0).toNat)) ∨
    (reply.getD 3 0 = kSocksATYPIPv6 ∧ reply.length ≤ 4 + 16 + 2)

instance : DecidablePred WithinReply := fun _ => instDecidableOr

/-- A read that brings the head of a reply of success does not go past that reply. -/
def StopsInReply (c : Session) (event : Event) : Prop :=
  ∀ data, event = .read data → c.client.status = .conSvr → 4 ≤ (c.client.receivedData ++ data).length →
    [kSocks5Version, kSocks5RespStatus] <+: c.client.receivedData ++ data → WithinReply (c.client.receivedData ++ data)

/-! ### The test for a complete reply -/

theorem hostReplyLength_small {reply : Bytes} (small : (reply.getD 4 0).toNat < 128) :
    hostReplyLength reply = 7 + (reply.getD 4 0).toNat := by
  simp only [hostReplyLength, signedChar, if_pos small]
  omega

theorem hostReplyLength_wraps {reply : Bytes} (large : 128 ≤ (reply.getD 4 0).toNat)
    (few : (reply.getD 4 0).toNat < 249) :
    2 ^ 63 < hostReplyLength reply := by
  simp only [hostReplyLength, signedChar, if_neg (Nat.not_lt.mpr large)]
  omega

theorem hostReplyLength_negative {reply : Bytes} (many : 249 ≤ (reply.getD 4 0).toNat) :
    hostReplyLength reply = (reply.getD 4 0).toNat - 249 := by
  have bound := (reply.getD 4 0).toNat_lt
  simp only [hostReplyLength, signedChar, if_neg (show ¬ (reply.getD 4 0).toNat < 128 by omega)]
  omega

theorem incomplete_v4 {reply : Bytes} (atyp : reply.getD 3 0 = kSocksATYPIPv4) :
    incomplete reply = decide (reply.length < 4 + 4 + 2) := by
  simp only [incomplete, atyp]
  simp [kSocksATYPIPv4, kSocksATYPHost, kSocksATYPIPv6]

theorem incomplete_host {reply : Bytes} (atyp : reply.getD 3 0 = kSocksATYPHost) :
    incomplete reply = decide (reply.length < hostReplyLength reply) := by
  simp only [incomplete, atyp]
  simp [kSocksATYPIPv4, kSocksATYPHost, kSocksATYPIPv6]

theorem incomplete_v6 {reply : Bytes} (atyp : reply.getD 3 0 = kSocksATYPIPv6) :
    incomplete reply = decide (reply.length < 4 + 16 + 2) := by
  simp only [incomplete, atyp]
  simp [kSocksATYPIPv4, kSocksATYPHost, kSocksATYPIPv6]

theorem complete_of_within {reply : Bytes} (whole : incomplete reply = false)
    (within : WithinReply reply) :
    CompleteReply reply := by
  rcases within with ⟨atyp, short⟩ | ⟨atyp, short, sign⟩ | ⟨atyp, short⟩
  · rw [incomplete_v4 atyp, decide_eq_false_iff_not] at whole
    exact Or.inl ⟨atyp, by omega⟩
  · rw [incomplete_host atyp, decide_eq_false_iff_not] at whole
    refine Or.inr (Or.inl ⟨atyp, ?_⟩)
    by_cases small : (reply.getD 4 0).toNat < 128
    · rw [hostReplyLength_small small] at whole
      omega
    · by_cases few : (reply.getD 4 0).toNat < 249
      · have wraps := hostReplyLength_wraps (by omega) few
        omega
      · rw [hostReplyLength_negative (by omega)] at whole
        omega
  · rw [incomplete_v6 atyp, decide_eq_false_iff_not] at whole
    exact Or.inr (Or.inr ⟨atyp, by omega⟩)

/-- With the head and ten more bytes at most, a reply that is overrun is taken for complete. -/
theorem overrun_of_beyond {reply : Bytes} (few : reply.length ≤ 13) (beyond : ¬ WithinReply reply) :
    incomplete reply = false ∧ ¬ CompleteReply reply := by
  simp only [WithinReply, not_or, not_and] at beyond
  obtain ⟨v4, host, v6⟩ := beyond
  by_cases isV4 : reply.getD 3 0 = kSocksATYPIPv4
  · have past := v4 isV4
    rw [incomplete_v4 isV4, CompleteReply, isV4]
    simp [kSocksATYPIPv4, kSocksATYPHost, kSocksATYPIPv6]
    omega
  · by_cases isHost : reply.getD 3 0 = kSocksATYPHost
    · have past := host isHost
      constructor
      · rw [incomplete_host isHost, decide_eq_false_iff_not]
        by_cases small : (reply.getD 4 0).toNat < 128
        · rw [hostReplyLength_small small]
          omega
        · rw [hostReplyLength_negative (by omega)]
          omega
      · rintro (⟨atyp, _⟩ | ⟨_, length⟩ | ⟨atyp, _⟩)
        · exact isV4 atyp
        · omega
        · exact absurd (isHost.symm.trans atyp) (by decide)
    · by_cases isV6 : reply.getD 3 0 = kSocksATYPIPv6
      · have past := v6 isV6
        omega
      · constructor
        · simp only [incomplete, beq_eq_false_iff_ne.mpr isV4, beq_eq_false_iff_ne.mpr isHost,
            beq_eq_false_iff_ne.mpr isV6, Bool.false_and, Bool.or_false]
        · rintro (⟨atyp, _⟩ | ⟨atyp, _⟩ | ⟨atyp, _⟩)
          · exact isV4 atyp
          · exact isHost atyp
          · exact isV6 atyp

theorem handleConnectBussinessServer_grants {data : Bytes}
    (long : 4 ≤ (s.receivedData ++ data).length)
    (whole : incomplete (s.receivedData ++ data) = false)
    (start : [kSocks5Version, kSocks5RespStatus] <+: s.receivedData ++ data) :
    s.handleConnectBussinessServer data =
      { s with
        receivedData := s.receivedData ++ data
        status := .conSvrSuccess }.onSocks5Handshake 0 := by
  obtain ⟨version, status⟩ := getD_of_start start
  simp only [handleConnectBussinessServer, if_neg (Nat.not_lt.mpr long), whole, version,
    status, ne_eq, not_true_eq_false, or_self, Bool.false_eq_true, if_false]

/-! ### Runs -/

theorem sinceRequest_received (request : Bytes) (transcript : List Entry) (data : Bytes) :
    sinceRequest request (transcript ++ [.received data]) =
      sinceRequest request transcript ++ data := by
  simp [sinceRequest]

theorem sinceRequest_sent (request : Bytes) (transcript : List Entry) :
    sinceRequest request (transcript ++ [.sent request]) = [] := by
  simp [sinceRequest]

inductive Position (literals : Literals) (info : Socks5ProxyProperty) (c : Session) : Prop where
  | earlier (status : c.client.status = .hello ∨ c.client.status = .authReq) (pending : 0 ∉ c.client.answers)
  | requested (status : c.client.status = .conSvr)
      (received : c.client.receivedData = sinceRequest (connectRequest literals info) c.transcript)
      (short : 0 < c.client.reads → c.client.receivedData.length < 4) (pending : 0 ∉ c.client.answers)
  | granted (status : c.client.status = .conSvrSuccess) (done : c.client.reads = 0)
      (whole : CompleteReply (sinceRequest (connectRequest literals info) c.transcript))

structure Placed (literals : Literals) (info : Socks5ProxyProperty) (c : Session) : Prop where
  single : c.client.reads ≤ 1
  position : Position literals info c

theorem placed_handsOver (placed : Placed literals info c) : HandsOver literals info c := by
  intro told
  cases placed.position with
  | earlier _ pending => exact absurd told pending
  | requested _ _ _ pending => exact absurd told pending
  | granted _ _ whole => exact whole

theorem opened_placed : Placed literals info (Session.opened literals info) := by
  refine ⟨Nat.le_refl 1, .earlier (Or.inl rfl) ?_⟩
  simp [Session.opened, connected, connect, loopSocks5Handshake, loopSending, doSendHello,
    doSendData, doReceiveData]

theorem answered_request {data : Bytes} (none : s.reads = 0) (writes : s.writes = c.client.writes)
    (pending : 0 ∉ s.answers) (cleared : s.receivedData = []) :
    Placed literals info (answered c (s.doConnectMyServer literals info) data) := by
  have sent : (answered c (s.doConnectMyServer literals info) data).transcript =
      c.transcript ++ [.received data] ++ [.sent (connectRequest literals info)] := by
    simp [answered, said_sent, doConnectMyServer, doSendData, doReceiveData, writes]
  refine ⟨by simp [answered, doConnectMyServer, doSendData, doReceiveData, none], .requested rfl ?_ ?_ pending⟩
  · rw [sent, sinceRequest_sent]
    exact cleared
  · intro _
    show s.receivedData.length < 4
    rw [cleared]
    decide

theorem answered_earlier {next : State} {data : Bytes} (single : next.reads ≤ 1)
    (status : next.status = .hello ∨ next.status = .authReq) (pending : 0 ∉ next.answers) :
    Placed literals info (answered c next data) := ⟨single, .earlier status pending⟩

theorem hello_placed {data : Bytes} (single : c.client.reads ≤ 1)
    (status : c.client.status = .hello) (pending : 0 ∉ c.client.answers) :
    Placed literals info (answered c ((taken c.client).handleHello literals info data) data) := by
  have none : c.client.reads - 1 = 0 := by omega
  rcases handleHello_cases (s := taken c.client) data with
      ⟨_, more⟩ | ⟨_, refused⟩ | ⟨_, free⟩ | ⟨_, password⟩
  · rw [more]
    exact answered_earlier (by simp [doReceiveData, taken, none]) (Or.inl status) pending
  · rw [refused]
    exact answered_earlier (by simp [onSocks5Handshake, taken, none]) (Or.inl status) (told_refusal pending)
  · rw [free]
    exact answered_request none rfl pending rfl
  · rw [password]
    exact answered_earlier (by simp [doSocks5Auth, doSendData, doReceiveData, taken, none]) (Or.inr rfl) pending

theorem auth_placed {data : Bytes} (single : c.client.reads ≤ 1)
    (status : c.client.status = .authReq) (pending : 0 ∉ c.client.answers) :
    Placed literals info (answered c ((taken c.client).handleSocks5Auth literals info data) data) := by
  have none : c.client.reads - 1 = 0 := by omega
  rcases handleSocks5Auth_cases (s := taken c.client) data with
      ⟨_, more⟩ | ⟨_, refused⟩ | ⟨_, granted⟩
  · rw [more]
    exact answered_earlier (by simp [doReceiveData, taken, none]) (Or.inr status) pending
  · rw [refused]
    exact answered_earlier (by simp [onSocks5Handshake, taken, none]) (Or.inr status) (told_refusal pending)
  · rw [granted]
    exact answered_request none rfl pending rfl

theorem sinceRequest_answered {request data : Bytes} {next : State}
    (received : c.client.receivedData = sinceRequest request c.transcript)
    (writes : next.writes = c.client.writes) :
    sinceRequest request (answered c next data).transcript = c.client.receivedData ++ data := by
  rw [answered, said_quiet writes, sinceRequest_received, received]

theorem request_placed {data : Bytes} (single : c.client.reads ≤ 1)
    (status : c.client.status = .conSvr)
    (received : c.client.receivedData = sinceRequest (connectRequest literals info) c.transcript)
    (pending : 0 ∉ c.client.answers) (stops : StopsInReply c (.read data)) :
    Placed literals info (answered c ((taken c.client).handleConnectBussinessServer data) data) := by
  have none : c.client.reads - 1 = 0 := by omega
  rcases handleConnectBussinessServer_cases (s := taken c.client) data with
    ⟨short, more⟩ | waiting | refused | ⟨long, whole, start, granted⟩
  · rw [more]
    exact ⟨by simp [answered, doReceiveData, taken, none],
      .requested status (sinceRequest_answered received rfl).symm (fun _ => short) pending⟩
  · rw [waiting]
    exact ⟨by simp [answered, taken, none],
      .requested status (sinceRequest_answered received rfl).symm (by simp [answered, taken, none]) pending⟩
  · rw [refused]
    exact ⟨by simp [answered, onSocks5Handshake, taken, none],
      .requested status (sinceRequest_answered received rfl).symm (by simp [answered, onSocks5Handshake, taken, none])
        (told_refusal pending)⟩
  · rw [granted]
    have complete := complete_of_within whole (stops data rfl status long start)
    refine ⟨by simp [answered, onSocks5Handshake, taken, none], .granted rfl ?_ ?_⟩
    · simp [answered, onSocks5Handshake, taken, none]
    · rw [sinceRequest_answered received]
      · exact complete
      · rfl

theorem quiet_placed (placed : Placed literals info c) (quiet : Quiet c d) :
    Placed literals info d := by
  refine ⟨Nat.le_trans quiet.reads placed.single, ?_⟩
  cases placed.position with
  | earlier status pending =>
    exact .earlier (by rw [quiet.status]; exact status) fun told => pending (quiet.answers told)
  | requested status received short pending =>
    refine .requested (quiet.status.trans status) (by rw [quiet.received, quiet.transcript]; exact received) ?_
      fun told => pending (quiet.answers told)
    intro reading
    rw [quiet.received]
    exact short (Nat.lt_of_lt_of_le reading quiet.reads)
  | granted status done whole =>
    refine .granted (quiet.status.trans status) ?_ (by rw [quiet.transcript]; exact whole)
    have fewer := quiet.reads
    omega

theorem step_placed (placed : Placed literals info c) (stops : StopsInReply c event)
    (h : c.step literals info event = some d) : Placed literals info d := by
  cases event with
  | read data =>
    obtain ⟨enabled, rfl⟩ := session_read h
    cases placed.position with
    | earlier status pending =>
      rcases status with status | status
      · rw [loop_hello (s := taken c.client) status]
        exact hello_placed placed.single status pending
      · rw [loop_authReq (s := taken c.client) status]
        exact auth_placed placed.single status pending
    | requested status received _ pending =>
      rw [loop_conSvr (s := taken c.client) status]
      exact request_placed placed.single status received pending stops
    | granted _ done _ => omega
  | readError => exact quiet_placed placed (step_quiet rfl h)
  | written => exact quiet_placed placed (step_quiet rfl h)
  | writeError => exact quiet_placed placed (step_quiet rfl h)

theorem read_length {data : Bytes} (h : c.step literals info (.read data) = some d) :
    data.length ≤ 10 := by
  obtain ⟨next, stepped, _⟩ := session_cases h
  simp only [step] at stepped
  split at stepped
  · rename_i enabled
    exact enabled.2.2
  · cases stepped

theorem step_overruns (placed : Placed literals info c) (beyond : ¬ StopsInReply c event)
    (h : c.step literals info event = some d) : ¬ HandsOver literals info d := by
  simp only [StopsInReply, not_forall] at beyond
  obtain ⟨data, rfl, status, long, start, beyond⟩ := beyond
  have few := read_length h
  obtain ⟨enabled, rfl⟩ := session_read h
  cases placed.position with
  | earlier elsewhere => simp [status] at elsewhere
  | granted elsewhere => cases status.symm.trans elsewhere
  | requested _ received short _ =>
    have head := short enabled
    obtain ⟨whole, inexact⟩ := overrun_of_beyond (by simp; omega) beyond
    rw [loop_conSvr (s := taken c.client) status,
      handleConnectBussinessServer_grants (s := taken c.client) long whole start]
    intro handsOver
    have complete := handsOver (by simp [answered, onSocks5Handshake])
    rw [sinceRequest_answered received] at complete
    · exact inexact complete
    · rfl

/-- The client always hands the stream over at the end of the reply exactly when no read goes past
it and the reply has a known address type and a length byte that is not taken for a negative
number. -/
theorem handover_iff
    (h : run (Session.step literals info) (Session.opened literals info) events = some c) :
    Always (Session.step literals info) (HandsOver literals info) (Session.opened literals info) events ↔
      EachStep (Session.step literals info) StopsInReply (Session.opened literals info) events :=
  always_iff_eachStep (fun _ => placed_handsOver) (fun _ _ _ => step_placed) (fun _ _ _ => step_overruns) opened_placed h

instance (literals : Literals) (info : Socks5ProxyProperty) :
    DecidablePred (HandsOver literals info) :=
  fun c => inferInstanceAs (Decidable (0 ∈ c.client.answers → CompleteReply _))

/-- The proxy names the domain of 255 bytes that it has bound, and its reply comes six bytes
first. -/
def longDomain : List Event := [.read [0x05, 0x00], .read [0x05, 0x00, 0x00, 0x03, 0xff, 97]]

theorem handover_longDomain :
    ∃ c, run (Session.step noLiterals anonymous) (Session.opened noLiterals anonymous) longDomain =
      some c ∧ c.client.answers = [0] ∧ ¬ HandsOver noLiterals anonymous c := by
  exact ⟨_, rfl, by decide, by decide⟩

-- Three bytes of the tunnelled stream come with the reply, and are lost.
example : ∃ c, run (Session.step noLiterals anonymous) (Session.opened noLiterals anonymous)
    [.read [0x05, 0x00], .read [0x05, 0x00, 0x00, 0x03, 0x00, 0x00, 0x50, 72, 84, 84]] = some c ∧
      ¬ HandsOver noLiterals anonymous c := ⟨_, rfl, by decide⟩

theorem handover_wholeReply :
    ∃ c, run (Session.step noLiterals anonymous) (Session.opened noLiterals anonymous) wholeReply =
      some c ∧ c.client.answers = [0] ∧
      EachStep (Session.step noLiterals anonymous) StopsInReply (Session.opened noLiterals anonymous) wholeReply := by
  have always : Always (Session.step noLiterals anonymous) (HandsOver noLiterals anonymous)
      (Session.opened noLiterals anonymous) wholeReply := always_of_passes (by decide)
  exact ⟨_, rfl, by decide, (handover_iff rfl).mp always⟩

end Kingkong.Socks5
