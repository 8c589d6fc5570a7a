import Kingkong.Socks5.Stall

/-!
What the client and the proxy say to each other. The client names one method in its greeting and
then goes on with the method that the reply names, whether it is the same one or not.
-/

namespace Kingkong.Socks5
open Lib State

inductive Entry where
  | sent (buffer : Bytes)
  | received (data : Bytes)
  deriving DecidableEq

structure Session where
  client : State
  transcript : List Entry
  deriving DecidableEq

def delivered : Event → List Entry
  | .read data => [.received data]
  | _ => []

/-- What a step adds: the bytes of a read, and then the buffer of a `DoSendData`, which is the only
thing that starts a write. -/
def said (s t : State) (event : Event) : List Entry :=
  delivered event ++ if s.writes < t.writes then [.sent t.writeData] else []

namespace Session

def step (literals : Literals) (info : Socks5ProxyProperty) (c : Session) (event : Event) :
    Option Session :=
  (Socks5.step literals info c.client event).map fun next => ⟨next, c.transcript ++ said c.client next event⟩

def opened (literals : Literals) (info : Socks5ProxyProperty) : Session :=
  ⟨connected literals info, [.sent (connected literals info).writeData]⟩

end Session

def offered (info : Socks5ProxyProperty) : UInt8 :=
  if info.username.isEmpty || info.password.isEmpty then kSocks5NoAuth else kSocks5UsrNamePwdAuth

def greeting (info : Socks5ProxyProperty) : Bytes :=
  [kSocks5Version, kSockstNAuthMethos, offered info]

def authRequest (info : Socks5ProxyProperty) : Bytes :=
  kSocks5AuthVersion :: (lengthPrefixed info.username ++ lengthPrefixed info.password)

/-- A message of the client and the reads up to the next one. -/
def exchange (message : Bytes) (reads : List Bytes) : List Entry :=
  .sent message :: reads.map .received

/-- The greeting, answered with the method it offers, and the password request of that method, if it
has one, answered with success. -/
def Agreed (info : Socks5ProxyProperty) (transcript : List Entry) : Prop :=
  ∃ hello auth : List Bytes,
    transcript = exchange (greeting info) hello ++
      (if offered info = kSocks5UsrNamePwdAuth then exchange (authRequest info) auth else []) ∧
    [kSocks5Version, offered info] <+: hello.flatten ∧
    (offered info = kSocks5UsrNamePwdAuth → [kSocks5AuthVersion, kSocks5RespStatus] <+: auth.flatten)

/-- A transcript that ends with the connect request answered with success. -/
def Authentic (literals : Literals) (info : Socks5ProxyProperty) (transcript : List Entry) : Prop :=
  ∃ (before : List Entry) (reply : List Bytes), Agreed info before ∧
    transcript = before ++ exchange (connectRequest literals info) reply ∧
    [kSocks5Version, kSocks5RespStatus] <+: reply.flatten

/-- Whatever the client says after its greeting, the proxy has answered with the offered method. -/
def Accepts (info : Socks5ProxyProperty) (transcript : List Entry) : Prop :=
  ∀ (hello : List Bytes) (message : Bytes) (rest : List Entry),
    transcript = exchange (greeting info) hello ++ .sent message :: rest → [kSocks5Version, offered info] <+: hello.flatten

/-- Success has an authentic transcript, no method but the offered one is accepted, and credentials
are sent only if that is the method with credentials. -/
structure Genuine (literals : Literals) (info : Socks5ProxyProperty) (c : Session) : Prop where
  success : 0 ∈ c.client.answers → Authentic literals info c.transcript
  accepts : Accepts info c.transcript
  credentials : .sent (authRequest info) ∈ c.transcript → offered info = kSocks5UsrNamePwdAuth

/-- A greeting is not answered with the method of the two known ones that was not offered. -/
def SelectsOffered (info : Socks5ProxyProperty) (c : Session) (event : Event) : Prop :=
  ∀ data method, event = .read data → c.client.status = .hello →
    [kSocks5Version, method] <+: c.client.receivedData ++ data →
    method = kSocks5NoAuth ∨ method = kSocks5UsrNamePwdAuth → method = offered info

variable {literals : Literals} {info : Socks5ProxyProperty} {s t : State} {c d : Session} {event : Event}
  {events : List Event}

/-! ### The handlers, by what was received -/

theorem start_two {bytes : Bytes} (long : ¬ bytes.length < 2) :
    [bytes.getD 0 0, bytes.getD 1 0] <+: bytes := by
  match bytes with
  | [] | [_] => simp at long
  | first :: second :: rest => exact ⟨rest, rfl⟩

theorem getD_of_start {first second : UInt8} {bytes : Bytes} (start : [first, second] <+: bytes) :
    bytes.getD 0 0 = first ∧ bytes.getD 1 0 = second := by
  obtain ⟨rest, rfl⟩ := start
  exact ⟨rfl, rfl⟩

/-- Reading on, refusing, going on without credentials, or sending them. -/
theorem handleHello_cases (data : Bytes) :
    ((s.receivedData ++ data).length < 2 ∧
      s.handleHello literals info data =
        { s with receivedData := s.receivedData ++ data }.doReceiveData) ∨
    ((∀ method, [kSocks5Version, method] <+: s.receivedData ++ data →
        method ≠ kSocks5NoAuth ∧ method ≠ kSocks5UsrNamePwdAuth) ∧
      s.handleHello literals info data =
        { s with receivedData := s.receivedData ++ data }.onSocks5Handshake (-1)) ∨
    ([kSocks5Version, kSocks5NoAuth] <+: s.receivedData ++ data ∧
      s.handleHello literals info data =
        { s with status := .authSuccess, receivedData := [] }.doConnectMyServer literals info) ∨
    ([kSocks5Version, kSocks5UsrNamePwdAuth] <+: s.receivedData ++ data ∧
      s.handleHello literals info data =
        { s with status := .needAuth, receivedData := [] }.doSocks5Auth info) := by
  simp only [handleHello]
  split
  · rename_i short
    exact Or.inl ⟨short, rfl⟩
  · rename_i long
    have start := start_two long
    refine Or.inr ?_
    split
    · rename_i version
      refine Or.inl ⟨fun method named => ?_, rfl⟩
      exact absurd (getD_of_start named).1.symm version
    · rename_i version
      rw [← not_not.mp version] at start
      split
      · rename_i none
        rw [← none] at start
        exact Or.inr (Or.inl ⟨start, rfl⟩)
      · rename_i some
        split
        · rename_i password
          rw [← password] at start
          exact Or.inr (Or.inr ⟨start, rfl⟩)
        · rename_i other
          refine Or.inl ⟨fun method named => ?_, rfl⟩
          rw [← (getD_of_start named).2]
          exact ⟨fun same => some same.symm, fun same => other same.symm⟩

theorem handleSocks5Auth_cases (data : Bytes) :
    ((s.receivedData ++ data).length < 2 ∧
      s.handleSocks5Auth literals info data =
        { s with receivedData := s.receivedData ++ data }.doReceiveData) ∨
    (¬ [kSocks5AuthVersion, kSocks5RespStatus] <+: s.receivedData ++ data ∧
      s.handleSocks5Auth literals info data =
        { s with receivedData := s.receivedData ++ data }.onSocks5Handshake (-1)) ∨
    ([kSocks5AuthVersion, kSocks5RespStatus] <+: s.receivedData ++ data ∧
      s.handleSocks5Auth literals info data =
        { s with status := .authSuccess, receivedData := [] }.doConnectMyServer literals info) := by
  simp only [handleSocks5Auth]
  split
  · rename_i short
    exact Or.inl ⟨short, rfl⟩
  · rename_i long
    have start := start_two long
    split
    · rename_i refused
      refine Or.inr (Or.inl ⟨fun granted => ?_, rfl⟩)
      obtain ⟨version, status⟩ := getD_of_start granted
      exact refused.elim (fun other => other version.symm) (fun other => other status.symm)
    · rename_i granted
      rw [not_or, not_not, not_not] at granted
      rw [← granted.1, ← granted.2] at start
      exact Or.inr (Or.inr ⟨start, rfl⟩)

/-- Reading on, waiting for nothing, refusing or success. -/
theorem handleConnectBussinessServer_cases (data : Bytes) :
    ((s.receivedData ++ data).length < 4 ∧
      s.handleConnectBussinessServer data =
        { s with receivedData := s.receivedData ++ data }.doReceiveData) ∨
    s.handleConnectBussinessServer data = { s with receivedData := s.receivedData ++ data } ∨
    s.handleConnectBussinessServer data =
      { s with receivedData := s.receivedData ++ data }.onSocks5Handshake (-1) ∨
    (4 ≤ (s.receivedData ++ data).length ∧ incomplete (s.receivedData ++ data) = false ∧
      [kSocks5Version, kSocks5RespStatus] <+: s.receivedData ++ data ∧
      s.handleConnectBussinessServer data =
        { s with
          receivedData := s.receivedData ++ data
          status := .conSvrSuccess }.onSocks5Handshake 0) := by
  simp only [handleConnectBussinessServer]
  split
  · rename_i short
    exact Or.inl ⟨short, rfl⟩
  · rename_i long
    refine Or.inr ?_
    split
    · exact Or.inl rfl
    · rename_i whole
      split
      · exact Or.inr (Or.inl rfl)
      · rename_i granted
        have start := start_two (show ¬ (s.receivedData ++ data).length < 2 by omega)
        rw [not_or, not_not, not_not] at granted
        rw [← granted.1, ← granted.2] at start
        exact Or.inr (Or.inr ⟨Nat.le_of_not_lt long, by simpa using whole, start, rfl⟩)

/-! ### The transcript, by stages -/

theorem said_quiet {data : Bytes} (same : t.writes = s.writes) :
    said s t (.read data) = [.received data] := by
  simp [said, delivered, same]

theorem said_sent {data : Bytes} (more : t.writes = s.writes + 1) :
    said s t (.read data) = [.received data, .sent t.writeData] := by
  simp [said, delivered, more]

theorem said_nothing (silent : delivered event = []) (fewer : t.writes ≤ s.writes) :
    said s t event = [] := by
  simp [said, silent, Nat.not_lt.mpr fewer]

theorem exchange_received (message : Bytes) (reads : List Bytes) (data : Bytes) :
    exchange message reads ++ [.received data] = exchange message (reads ++ [data]) := by
  simp [exchange]

theorem flatten_received {received : Bytes} {reads : List Bytes} (same : received = reads.flatten)
    (data : Bytes) :
    received ++ data = (reads ++ [data]).flatten := by
  simp [same]

theorem exchange_split {message next other : Bytes} {reads after : List Bytes}
    {rest more : List Entry}
    (same : exchange message reads ++ .sent next :: rest =
      exchange message after ++ .sent other :: more) :
    reads = after ∧ next = other ∧ rest = more := by
  simp only [exchange, List.cons_append, List.cons.injEq, true_and] at same
  induction reads generalizing after with
  | nil =>
    cases after with
    | nil => simpa using same
    | cons head tail => simp at same
  | cons head tail ih =>
    cases after with
    | nil => simp at same
    | cons first last =>
      simp only [List.map_cons, List.cons_append, List.cons.injEq, Entry.received.injEq] at same
      obtain ⟨rfl, remaining⟩ := same
      obtain ⟨rfl, rfl, rfl⟩ := ih remaining
      exact ⟨rfl, rfl, rfl⟩

theorem not_exchange {message next : Bytes} {reads after : List Bytes} {rest : List Entry}
    (same : exchange message reads = exchange message after ++ .sent next :: rest) : False := by
  have sent : Entry.sent next ∈ reads.map Entry.received := by
    simp only [exchange, List.cons_append, List.cons.injEq, true_and] at same
    rw [same]
    simp
  simp at sent

inductive Stage (literals : Literals) (info : Socks5ProxyProperty) (c : Session) : Prop where
  | hello (reads : List Bytes) (status : c.client.status = .hello)
      (transcript : c.transcript = exchange (greeting info) reads)
      (received : c.client.receivedData = reads.flatten) (pending : 0 ∉ c.client.answers)
  | auth (hello reads : List Bytes) (status : c.client.status = .authReq)
      (method : offered info = kSocks5UsrNamePwdAuth) (selected : [kSocks5Version, offered info] <+: hello.flatten)
      (transcript : c.transcript = exchange (greeting info) hello ++ exchange (authRequest info) reads)
      (received : c.client.receivedData = reads.flatten) (pending : 0 ∉ c.client.answers)
  | request (before : List Entry) (reads : List Bytes) (status : c.client.status = .conSvr) (agreed : Agreed info before)
      (transcript : c.transcript = before ++ exchange (connectRequest literals info) reads)
      (received : c.client.receivedData = reads.flatten) (pending : 0 ∉ c.client.answers)
  | success (status : c.client.status = .conSvrSuccess) (done : c.client.reads = 0)
      (authentic : Authentic literals info c.transcript)

/-- `d` is `c` after a completion that brings no bytes. -/
structure Quiet (c d : Session) : Prop where
  transcript : d.transcript = c.transcript
  status : d.client.status = c.client.status
  received : d.client.receivedData = c.client.receivedData
  reads : d.client.reads ≤ c.client.reads
  answers : 0 ∈ d.client.answers → 0 ∈ c.client.answers

theorem stage_frame (stage : Stage literals info c) (quiet : Quiet c d) :
    Stage literals info d := by
  cases stage with
  | hello reads status transcript received pending =>
    exact .hello reads (quiet.status.trans status) (quiet.transcript.trans transcript) (quiet.received.trans received)
      fun told => pending (quiet.answers told)
  | auth hello reads status method selected transcript received pending =>
    exact .auth hello reads (quiet.status.trans status) method selected (quiet.transcript.trans transcript)
      (quiet.received.trans received) fun told => pending (quiet.answers told)
  | request before reads status agreed transcript received pending =>
    exact .request before reads (quiet.status.trans status) agreed (quiet.transcript.trans transcript)
      (quiet.received.trans received) fun told => pending (quiet.answers told)
  | success status done authentic =>
    refine .success (quiet.status.trans status) ?_ (quiet.transcript ▸ authentic)
    have fewer := quiet.reads
    omega

/-! ### What the stages have said -/

theorem sent_mem_exchange {message next : Bytes} {reads : List Bytes}
    (sent : .sent next ∈ exchange message reads) :
    next = message := by
  simpa [exchange] using sent

theorem greeting_ne_authRequest : authRequest info ≠ greeting info := by
  intro same
  have version := congrArg List.head? same
  simp [authRequest, greeting, kSocks5AuthVersion, kSocks5Version] at version

theorem connectRequest_head : (connectRequest literals info).head? = some kSocks5Version := by
  simp only [connectRequest]
  split
  · rfl
  · split
    · rfl
    · rfl

theorem connectRequest_ne_authRequest : authRequest info ≠ connectRequest literals info := by
  intro same
  have version := congrArg List.head? same
  rw [connectRequest_head] at version
  simp [authRequest, kSocks5AuthVersion, kSocks5Version] at version

theorem agreed_credentials {before : List Entry} (agreed : Agreed info before)
    (sent : .sent (authRequest info) ∈ before) :
    offered info = kSocks5UsrNamePwdAuth := by
  obtain ⟨hello, auth, rfl, _, _⟩ := agreed
  by_contra other
  rw [if_neg other, List.append_nil] at sent
  exact greeting_ne_authRequest (sent_mem_exchange sent)

theorem request_credentials {before : List Entry} {reads : List Bytes} (agreed : Agreed info before)
    (sent : .sent (authRequest info) ∈ before ++ exchange (connectRequest literals info) reads) :
    offered info = kSocks5UsrNamePwdAuth := by
  rcases List.mem_append.mp sent with early | late
  · exact agreed_credentials agreed early
  · exact absurd (sent_mem_exchange late) connectRequest_ne_authRequest

theorem authentic_credentials {transcript : List Entry}
    (authentic : Authentic literals info transcript)
    (sent : .sent (authRequest info) ∈ transcript) :
    offered info = kSocks5UsrNamePwdAuth := by
  obtain ⟨before, reply, agreed, rfl, _⟩ := authentic
  exact request_credentials agreed sent

theorem agreed_accepts {before rest : List Entry} {message : Bytes} (agreed : Agreed info before) :
    Accepts info (before ++ .sent message :: rest) := by
  obtain ⟨hello, auth, rfl, selected, _⟩ := agreed
  intro reads next more same
  by_cases method : offered info = kSocks5UsrNamePwdAuth
  · rw [if_pos method, exchange.eq_def (authRequest info), List.append_assoc,
      List.cons_append] at same
    rw [← (exchange_split same).1]
    exact selected
  · rw [if_neg method, List.append_nil] at same
    rw [← (exchange_split same).1]
    exact selected

theorem stage_genuine (stage : Stage literals info c) : Genuine literals info c := by
  cases stage with
  | hello reads _ transcript _ pending =>
    refine ⟨fun told => absurd told pending, ?_, ?_⟩
    · intro hello message rest same
      rw [transcript] at same
      exact (not_exchange same).elim
    · intro sent
      rw [transcript] at sent
      exact absurd (sent_mem_exchange sent) greeting_ne_authRequest
  | auth hello reads _ method selected transcript _ pending =>
    refine ⟨fun told => absurd told pending, ?_, fun _ => method⟩
    intro before message rest same
    rw [transcript] at same
    rw [← (exchange_split same).1]
    exact selected
  | request before reads _ agreed transcript _ pending =>
    refine ⟨fun told => absurd told pending, ?_, ?_⟩
    · rw [transcript]
      exact agreed_accepts agreed
    · rw [transcript]
      exact request_credentials agreed
  | success _ _ authentic =>
    refine ⟨fun _ => authentic, ?_, authentic_credentials authentic⟩
    obtain ⟨before, reply, agreed, transcript, _⟩ := authentic
    rw [transcript]
    exact agreed_accepts agreed

/-! ### Steps -/

structure Ongoing (literals : Literals) (info : Socks5ProxyProperty) (c : Session) : Prop where
  single : c.client.reads ≤ 1
  stage : Stage literals info c

/-- The state in which the handler of a read runs. -/
def taken (s : State) : State := { s with reads := s.reads - 1 }

/-- The session after a handler that left `next`. -/
def answered (c : Session) (next : State) (data : Bytes) : Session :=
  ⟨next, c.transcript ++ said c.client next (.read data)⟩

theorem answered_quiet {next : State} {data message : Bytes} {reads : List Bytes}
    (before : List Entry) (same : next.writes = c.client.writes)
    (transcript : c.transcript = before ++ exchange message reads) :
    (answered c next data).transcript = before ++ exchange message (reads ++ [data]) := by
  simp only [answered, said_quiet same, transcript, List.append_assoc, exchange_received]

theorem answered_sent {next : State} {data message : Bytes} {reads : List Bytes}
    (before : List Entry) (more : next.writes = c.client.writes + 1)
    (transcript : c.transcript = before ++ exchange message reads) :
    (answered c next data).transcript =
      before ++ exchange message (reads ++ [data]) ++ exchange next.writeData [] := by
  simp [answered, said_sent more, transcript, exchange]

theorem opened_ongoing : Ongoing literals info (Session.opened literals info) := by
  refine ⟨Nat.le_refl 1, .hello [] rfl rfl rfl ?_⟩
  simp [Session.opened, connected, connect, loopSocks5Handshake, loopSending, doSendHello,
    doSendData, doReceiveData]

theorem told_refusal {answers : List Int} (pending : 0 ∉ answers) : 0 ∉ answers ++ [-1] := by
  simpa using pending

theorem hello_ongoing {reads : List Bytes} {data : Bytes} (single : c.client.reads ≤ 1)
    (status : c.client.status = .hello) (transcript : c.transcript = exchange (greeting info) reads)
    (received : c.client.receivedData = reads.flatten) (pending : 0 ∉ c.client.answers)
    (selects : SelectsOffered info c (.read data)) :
    Ongoing literals info (answered c ((taken c.client).handleHello literals info data) data) := by
  have none : c.client.reads - 1 = 0 := by omega
  have reading := flatten_received received data
  have selected : ∀ method, [kSocks5Version, method] <+: c.client.receivedData ++ data →
      method = kSocks5NoAuth ∨ method = kSocks5UsrNamePwdAuth → method = offered info :=
    fun method => selects data method rfl status
  rcases handleHello_cases (s := taken c.client) data with
      ⟨_, more⟩ | ⟨_, refused⟩ | ⟨start, free⟩ | ⟨start, password⟩
  · rw [more]
    refine ⟨by simp [answered, doReceiveData, taken, none], .hello (reads ++ [data]) status ?_ reading pending⟩
    exact answered_quiet [] rfl transcript
  · rw [refused]
    refine ⟨by simp [answered, onSocks5Handshake, taken, none], .hello (reads ++ [data]) status ?_ reading
      (told_refusal pending)⟩
    exact answered_quiet [] rfl transcript
  · rw [free]
    have offers := selected _ start (Or.inl rfl)
    have agreed : Agreed info (exchange (greeting info) (reads ++ [data])) := by
      have unasked : offered info ≠ kSocks5UsrNamePwdAuth := by rw [← offers]; decide
      refine ⟨reads ++ [data], [], by simp [unasked], ?_, fun asked => absurd asked unasked⟩
      rw [← reading, ← offers]
      exact start
    refine ⟨by simp [answered, doConnectMyServer, doSendData, doReceiveData, taken, none],
      .request (exchange (greeting info) (reads ++ [data])) [] rfl agreed ?_ rfl pending⟩
    exact answered_sent [] rfl transcript
  · rw [password]
    have offers := selected _ start (Or.inr rfl)
    refine ⟨by simp [answered, doSocks5Auth, doSendData, doReceiveData, taken, none],
      .auth (reads ++ [data]) [] rfl offers.symm ?_ ?_ rfl pending⟩
    · rw [← reading, ← offers]
      exact start
    · exact answered_sent [] rfl transcript

theorem auth_ongoing {hello reads : List Bytes} {data : Bytes} (single : c.client.reads ≤ 1)
    (status : c.client.status = .authReq) (method : offered info = kSocks5UsrNamePwdAuth)
    (selected : [kSocks5Version, offered info] <+: hello.flatten)
    (transcript : c.transcript =
      exchange (greeting info) hello ++ exchange (authRequest info) reads)
    (received : c.client.receivedData = reads.flatten) (pending : 0 ∉ c.client.answers) :
    Ongoing literals info (answered c ((taken c.client).handleSocks5Auth literals info data) data) := by
  have none : c.client.reads - 1 = 0 := by omega
  have reading := flatten_received received data
  rcases handleSocks5Auth_cases (s := taken c.client) data with
      ⟨_, more⟩ | ⟨_, refused⟩ | ⟨start, granted⟩
  · rw [more]
    refine ⟨by simp [answered, doReceiveData, taken, none],
      .auth hello (reads ++ [data]) status method selected ?_ reading pending⟩
    exact answered_quiet _ rfl transcript
  · rw [refused]
    refine ⟨by simp [answered, onSocks5Handshake, taken, none],
      .auth hello (reads ++ [data]) status method selected ?_ reading (told_refusal pending)⟩
    exact answered_quiet _ rfl transcript
  · rw [granted]
    have agreed : Agreed info (exchange (greeting info) hello ++ exchange (authRequest info) (reads ++ [data])) := by
      refine ⟨hello, reads ++ [data], by rw [if_pos method], selected, fun _ => ?_⟩
      rw [← reading]
      exact start
    refine ⟨by simp [answered, doConnectMyServer, doSendData, doReceiveData, taken, none],
      .request _ [] rfl agreed ?_ rfl pending⟩
    exact answered_sent _ rfl transcript

theorem request_ongoing {before : List Entry} {reads : List Bytes} {data : Bytes}
    (single : c.client.reads ≤ 1) (status : c.client.status = .conSvr) (agreed : Agreed info before)
    (transcript : c.transcript = before ++ exchange (connectRequest literals info) reads)
    (received : c.client.receivedData = reads.flatten) (pending : 0 ∉ c.client.answers) :
    Ongoing literals info (answered c ((taken c.client).handleConnectBussinessServer data) data) := by
  have none : c.client.reads - 1 = 0 := by omega
  have reading := flatten_received received data
  rcases handleConnectBussinessServer_cases (s := taken c.client) data with
      ⟨_, more⟩ | waiting | refused | ⟨_, _, start, done⟩
  · rw [more]
    refine ⟨by simp [answered, doReceiveData, taken, none],
      .request before (reads ++ [data]) status agreed ?_ reading pending⟩
    exact answered_quiet before rfl transcript
  · rw [waiting]
    refine ⟨by simp [answered, taken, none],
      .request before (reads ++ [data]) status agreed ?_ reading pending⟩
    exact answered_quiet before rfl transcript
  · rw [refused]
    refine ⟨by simp [answered, onSocks5Handshake, taken, none],
      .request before (reads ++ [data]) status agreed ?_ reading (told_refusal pending)⟩
    exact answered_quiet before rfl transcript
  · rw [done]
    refine ⟨by simp [answered, onSocks5Handshake, taken, none],
      .success rfl (by simp [answered, onSocks5Handshake, taken, none])
        ⟨before, reads ++ [data], agreed, ?_, ?_⟩⟩
    · exact answered_quiet before rfl transcript
    · rw [← reading]
      exact start

theorem session_cases (h : c.step literals info event = some d) :
    ∃ next, step literals info c.client event = some next ∧
      d = ⟨next, c.transcript ++ said c.client next event⟩ := by
  obtain ⟨next, stepped, rfl⟩ := Option.map_eq_some_iff.mp h
  exact ⟨next, stepped, rfl⟩

theorem session_read {data : Bytes} (h : c.step literals info (.read data) = some d) :
    0 < c.client.reads ∧
      d = answered c ((taken c.client).loopSocks5Handshake literals info data) data := by
  obtain ⟨next, stepped, rfl⟩ := session_cases h
  obtain ⟨enabled, rfl⟩ := read_cases stepped
  exact ⟨enabled, rfl⟩

theorem step_quiet (silent : delivered event = []) (h : c.step literals info event = some d) :
    Quiet c d := by
  obtain ⟨next, stepped, rfl⟩ := session_cases h
  cases event with
  | read data => cases silent
  | readError =>
    simp only [step] at stepped
    split at stepped <;> cases stepped
    refine ⟨?_, rfl, rfl, Nat.sub_le _ _, by simp [onSocks5Handshake]⟩
    simp [said_nothing silent, onSocks5Handshake]
  | written =>
    simp only [step] at stepped
    split at stepped <;> cases stepped
    refine ⟨?_, rfl, rfl, Nat.le_refl _, id⟩
    simp [said_nothing silent]
  | writeError =>
    simp only [step] at stepped
    split at stepped <;> cases stepped
    refine ⟨?_, rfl, rfl, Nat.le_refl _, by simp [onSocks5Handshake]⟩
    simp [said_nothing silent, onSocks5Handshake]

theorem quiet_ongoing (ongoing : Ongoing literals info c) (quiet : Quiet c d) :
    Ongoing literals info d :=
  ⟨Nat.le_trans quiet.reads ongoing.single, stage_frame ongoing.stage quiet⟩

theorem step_ongoing (ongoing : Ongoing literals info c) (selects : SelectsOffered info c event)
    (h : c.step literals info event = some d) : Ongoing literals info d := by
  cases event with
  | read data =>
    obtain ⟨enabled, rfl⟩ := session_read h
    cases ongoing.stage with
    | hello reads status transcript received pending =>
      rw [loop_hello (s := taken c.client) status]
      exact hello_ongoing ongoing.single status transcript received pending selects
    | auth hello reads status method selected transcript received pending =>
      rw [loop_authReq (s := taken c.client) status]
      exact auth_ongoing ongoing.single status method selected transcript received pending
    | request before reads status agreed transcript received pending =>
      rw [loop_conSvr (s := taken c.client) status]
      exact request_ongoing ongoing.single status agreed transcript received pending
    | success _ done _ => omega
  | readError => exact quiet_ongoing ongoing (step_quiet rfl h)
  | written => exact quiet_ongoing ongoing (step_quiet rfl h)
  | writeError => exact quiet_ongoing ongoing (step_quiet rfl h)

theorem transcript_accepts {reads : List Bytes} {data message : Bytes} {method : UInt8}
    (transcript : d.transcript = exchange (greeting info) (reads ++ [data]) ++ [.sent message])
    (start : [kSocks5Version, method] <+: (reads ++ [data]).flatten)
    (genuine : Genuine literals info d) :
    method = offered info := by
  have selected := genuine.accepts _ _ _ transcript
  rw [← (getD_of_start start).2, ← (getD_of_start selected).2]

theorem step_unoffered (ongoing : Ongoing literals info c)
    (unoffered : ¬ SelectsOffered info c event) (h : c.step literals info event = some d) :
    ¬ Genuine literals info d := by
  simp only [SelectsOffered, not_forall] at unoffered
  obtain ⟨data, method, rfl, status, start, known, other⟩ := unoffered
  obtain ⟨_, rfl⟩ := session_read h
  rw [loop_hello (s := taken c.client) status]
  cases ongoing.stage with
  | hello reads _ transcript received pending =>
    have reading := flatten_received received data
    rw [reading] at start
    intro genuine
    apply other
    rcases handleHello_cases (s := taken c.client) data with
        ⟨short, _⟩ | ⟨unknown, _⟩ | ⟨_, free⟩ | ⟨_, password⟩
    · rw [taken, reading] at short
      have long := start.length_le
      exact absurd long (Nat.not_le_of_lt short)
    · rw [taken, reading] at unknown
      have neither := unknown method start
      exact (known.elim neither.1 neither.2).elim
    · rw [free] at genuine
      exact transcript_accepts (answered_sent [] rfl transcript) start genuine
    · rw [password] at genuine
      exact transcript_accepts (answered_sent [] rfl transcript) start genuine
  | auth _ _ elsewhere => cases status.symm.trans elsewhere
  | request _ _ elsewhere => cases status.symm.trans elsewhere
  | success elsewhere => cases status.symm.trans elsewhere

/-- Every success of the client has an authentic transcript, and no method but the offered one is
accepted, exactly when the proxy never answers the greeting with the other method. -/
theorem transcript_genuine_iff
    (h : run (Session.step literals info) (Session.opened literals info) events = some c) :
    Always (Session.step literals info) (Genuine literals info) (Session.opened literals info) events ↔
      EachStep (Session.step literals info) (SelectsOffered info) (Session.opened literals info) events :=
  always_iff_eachStep (fun _ ongoing => stage_genuine ongoing.stage) (fun _ _ _ => step_ongoing)
    (fun _ _ _ => step_unoffered) opened_ongoing h

/-- A proxy that asks a client without credentials for its credentials. -/
def asksForCredentials : List Event :=
  [.read [0x05, 0x02], .read [0x01, 0x00], .read [0x05, 0x00, 0x00, 0x01, 10, 0, 0, 1, 0, 80]]

theorem transcript_asksForCredentials :
    ∃ c,
      run (Session.step noLiterals anonymous) (Session.opened noLiterals anonymous) asksForCredentials = some c ∧
      c.client.answers = [0] ∧ offered anonymous = kSocks5NoAuth ∧
      .sent (authRequest anonymous) ∈ c.transcript ∧
      ¬ Authentic noLiterals anonymous c.transcript := by
  refine ⟨_, rfl, by decide, by decide, by decide, ?_⟩
  intro authentic
  have method : offered anonymous = kSocks5UsrNamePwdAuth :=
    authentic_credentials authentic (by decide)
  exact absurd method (by decide)

theorem selectsOffered_elsewhere (status : c.client.status ≠ .hello) :
    SelectsOffered info c event := by
  intro data method _ hello
  exact absurd hello status

theorem selectsOffered_named {data : Bytes}
    (named : (c.client.receivedData ++ data).getD 1 0 = offered info) :
    SelectsOffered info c (.read data) := by
  intro read method same _ start _
  cases same
  rw [← named, (getD_of_start start).2]

def registered : Socks5ProxyProperty :=
  { server := [104], port := 80, username := [117], password := [112] }

theorem transcript_registered :
    ∃ c,
      run (Session.step noLiterals registered) (Session.opened noLiterals registered) asksForCredentials = some c ∧
      c.client.answers = [0] ∧
      Always (Session.step noLiterals registered) (Genuine noLiterals registered)
        (Session.opened noLiterals registered) asksForCredentials := by
  have each : EachStep (Session.step noLiterals registered) (SelectsOffered registered)
      (Session.opened noLiterals registered) asksForCredentials := by
    refine (eachStep_cons rfl).mpr ⟨selectsOffered_named rfl, ?_⟩
    refine (eachStep_cons rfl).mpr ⟨selectsOffered_elsewhere (by decide), ?_⟩
    exact (eachStep_cons rfl).mpr ⟨selectsOffered_elsewhere (by decide), eachStep_nil⟩
  exact ⟨_, rfl, by decide, (transcript_genuine_iff rfl).mpr each⟩

end Kingkong.Socks5
