import Kingkong.Connection.Reported
import Kingkong.Http.Model

/-!
One HTTP request over its connection, and what the `HttpClientDelegate` is told. The client is the
delegate of the connection: it answers `OnConnect(0)` with `Send`, and takes a failed `OnConnect`
and every `OnDisconnect` for the end of the exchange. The parser runs inside the read that is
outstanding, and ends the exchange as well.
-/

namespace Kingkong.Http
open Lib

inductive Told where
  | onHttpHeads (heads : List (Bytes × Bytes))
  | onHttpResponse (message : Bytes)
  | onHttpComplete (code : Nat)
  deriving DecidableEq

/-- What the parser expects next. -/
inductive Parser where
  | startLine | fields | body | complete
  deriving DecidableEq

/-- `told` has the calls of the delegate, in order. -/
structure Exchange where
  connection : Connection.State := {}
  requested : Bool := false
  delegate : Bool := true
  httpCode : Nat := 404
  heads : List (Bytes × Bytes) := []
  recvComplete : Bool := false
  parser : Parser := .startLine
  told : List Told := []

namespace Exchange

def tell (s : Exchange) (callback : Told) : Exchange :=
  if s.delegate then { s with told := s.told ++ [callback] } else s

def notifyComplete (s : Exchange) : Exchange := s.tell (.onHttpComplete s.httpCode)

def notifyResponse (s : Exchange) (message : Bytes) : Exchange := s.tell (.onHttpResponse message)

def onConnect (s : Exchange) (code : Int) : Exchange :=
  if code = 0 then { s with connection := s.connection.send "1".toUTF8.toList }
  else { s with httpCode := 404 }.notifyComplete

def onDisconnect (s : Exchange) : Exchange := s.notifyComplete

def onCallback (s : Exchange) : Connection.Callback → Exchange
  | .onConnect code => s.onConnect code
  | .onRecvData _ => s
  | .onDisconnect _ => s.onDisconnect

/-- A step of the connection, with the answer of the client to what it hears in it. -/
def netStep (literals : Socks5.Literals) (request : Connection.NetConnectionRequest) (s : Exchange)
    (event : Connection.Event) : Option Exchange :=
  (Connection.step literals request s.connection event).map fun next =>
    ((next.history.drop s.connection.history.length).filterMap Connection.Action.heard).foldl onCallback
      { s with connection := next }

/-- The end of `async_read_some`. The data stays with the parser, and once the message is complete
nobody looks at the outcome. -/
def readStep (literals : Socks5.Literals) (request : Connection.NetConnectionRequest) (s : Exchange)
    (ec : Int) :
    Option Exchange :=
  if s.recvComplete then
    if 0 < s.connection.reads then
      some { s with connection := { s.connection with reads := s.connection.reads - 1 } }
    else none
  else s.netStep literals request (.read ec [])

/-- The parser runs in a read, and only when it expects what it finds. -/
def parse (s : Exchange) (expects : List Parser) (next : Exchange) : Option Exchange :=
  if 0 < s.connection.reads ∧ s.parser ∈ expects then some next else none

/-- `Cancel` is `cancel`, which takes the delegate away, and then `disConnect`, after which it
returns. -/
inductive Event where
  | request
  | cancel
  | disConnect
  | net (event : Connection.Event)
  | read (ec : Int)
  | response (code : Nat)
  | field (name value : Bytes)
  | header
  | body (content : Bytes)
  | chunk (content : Bytes)
  | finish

/-- The client makes the calls of the owner itself, and has its own end of a read. -/
def internal : Connection.Event → Bool
  | .connect | .disConnect | .send _ | .read _ _ => false
  | _ => true

/-- A field may also come in the trailer of a chunked body. There is no next state when
`lexical_cast` throws. -/
def step (literals : Socks5.Literals) (request : Connection.NetConnectionRequest)
    (lexicalCast : Bytes → Option Nat) (s : Exchange) : Event → Option Exchange
  | .request => if s.requested then none else some { s with requested := true, connection := s.connection.connect }
  | .cancel => some { s with delegate := false }
  | .disConnect => if s.delegate then none else some { s with connection := s.connection.disConnect }
  | .net event => if internal event then s.netStep literals request event else none
  | .read ec => s.readStep literals request ec
  | .response code => s.parse [.startLine] { s with httpCode := code, parser := .fields }
  | .field name value =>
    if name = contentLength ∧ lexicalCast value = none then none
    else s.parse [.fields, .body] { s with heads := setHead s.heads name value }
  | .header => s.parse [.fields] ({ s with parser := .body }.tell (.onHttpHeads s.heads))
  | .body content => s.parse [.body] (s.notifyResponse content)
  | .chunk content => s.parse [.body] (s.notifyResponse content)
  | .finish => s.parse [.body] { { s with parser := .complete }.notifyComplete with recvComplete := true }

end Exchange

/-- Nothing follows an `OnHttpComplete`, so there is at most one. -/
def Final (told : List Told) : Prop :=
  ∀ before code after, told = before ++ .onHttpComplete code :: after → after = []

def Told.completes : Told → Bool
  | .onHttpComplete _ => true
  | _ => false

/-- The delegate is there, and it has been told that the exchange is complete. -/
def Completed (s : Exchange) : Prop := s.delegate = true ∧ s.told.any Told.completes = true

/-- The event is a write that fails, or a read that fails before the whole message was parsed, or
something that the parser tells the delegate of. -/
def disturbs (s : Exchange) : Exchange.Event → Bool
  | .net (.written ec) => ec != 0
  | .read ec => ec != 0 && !s.recvComplete
  | .header | .body _ | .chunk _ | .finish => true
  | _ => false

/-- After `OnHttpComplete` there is none of these. -/
def Quiet (s : Exchange) (event : Exchange.Event) : Prop := Completed s → disturbs s event = false

instance (s : Exchange) : Decidable (Completed s) := inferInstanceAs (Decidable (_ ∧ _))

instance (s : Exchange) (event : Exchange.Event) : Decidable (Quiet s event) :=
  inferInstanceAs (Decidable (Completed s → _))

namespace Exchange
open Connection (Only Stands Unsent effects)

variable {literals : Socks5.Literals} {request : Connection.NetConnectionRequest} {lexicalCast : Bytes → Option Nat}
  {s t : Exchange} {event : Event} {events : List Event}

/-! ### Steps -/

theorem tell_there (there : s.delegate = true) (callback : Told) :
    (s.tell callback).told = s.told ++ [callback] := by
  simp [tell, there]

theorem tell_told (callback : Told) :
    (s.tell callback).told = s.told ∨ s.delegate = true ∧
      (s.tell callback).told = s.told ++ [callback] := by
  cases there : s.delegate with
  | false => simp [tell, there]
  | true => exact .inr ⟨rfl, tell_there there callback⟩

theorem tell_delegate (callback : Told) : (s.tell callback).delegate = s.delegate := by
  unfold tell
  split <;> rfl

/-- The answer of the client to what it hears of its connection. -/
inductive Answers (s : Exchange) (event : Connection.Event) (next : Connection.State) :
    List Connection.Callback → Exchange → Prop where
  | none (heard : List Connection.Callback) : Answers s event next heard { s with connection := next }
  | connected : Answers s event next [.onConnect 0] { s with connection := next.send "1".toUTF8.toList }
  | refused (code : Int) :
      Answers s event next [.onConnect code] ({ s with connection := next, httpCode := 404 }.tell (.onHttpComplete 404))
  | disconnected (ec : Int) (broken : event.broken ec) :
      Answers s event next [.onDisconnect ec] ({ s with connection := next }.tell (.onHttpComplete s.httpCode))

theorem netStep_cases {event : Connection.Event} (h : s.netStep literals request event = some t) :
    ∃ next, Connection.step literals request s.connection event = some next ∧
      Answers s event next ((effects literals request s.connection event).filterMap Connection.Action.heard) t := by
  obtain ⟨next, stepped, rfl⟩ := Option.map_eq_some_iff.mp h
  refine ⟨next, stepped, ?_⟩
  rw [Connection.step_history stepped, List.drop_left]
  have hears : Connection.Hears s.connection event
      ((effects literals request s.connection event).filterMap Connection.Action.heard) := Connection.effects_hears
  generalize (effects literals request s.connection event).filterMap Connection.Action.heard = heard at hears
  cases hears with
  | nothing => exact .none []
  | onConnect code there =>
    by_cases success : code = 0
    · subst success
      exact .connected
    · simp only [List.foldl_cons, List.foldl_nil, onCallback, onConnect, if_neg success]
      exact .refused code
  | onRecvData data there => exact .none [.onRecvData data]
  | onDisconnect ec there broken => exact .disconnected ec broken

theorem readStep_cases {ec : Int} (h : s.readStep literals request ec = some t) :
    (s.recvComplete = true ∧ 0 < s.connection.reads ∧
      t = { s with connection := { s.connection with reads := s.connection.reads - 1 } }) ∨
    (s.recvComplete = false ∧ s.netStep literals request (.read ec []) = some t) := by
  unfold readStep at h
  split at h
  · rename_i complete
    split at h <;> cases h
    rename_i reading
    exact .inl ⟨complete, reading, rfl⟩
  · rename_i incomplete
    exact .inr ⟨by simpa using incomplete, h⟩

theorem parse_cases {expects : List Parser} {next : Exchange} (h : s.parse expects next = some t) :
    0 < s.connection.reads ∧ t = next := by
  unfold parse at h
  split at h <;> cases h
  rename_i enabled
  exact ⟨enabled.1, rfl⟩

/-! ### A connection that has reported -/

/-- The connection belongs to its client until `Cancel`, and has had one `Connect` at most. Nothing
was told or sent before `Request`; whatever was told as the end of the exchange, or sent, came after
the outcome of `Connect`. -/
structure Sound (request : Connection.NetConnectionRequest) (s : Exchange) : Prop where
  attached : s.delegate = true → s.connection.delegate = true
  stands : ∃ progress story, (s.requested = false → progress = .idle) ∧ Stands request progress ⟨s.connection, story⟩
  fresh : s.requested = false → s.told = [] ∧ Unsent s.connection
  past : s.told.any Told.completes = true ∨ ¬ Unsent s.connection → Only request .done s.connection

theorem initial_sound : Sound request {} := by
  have unsent : Unsent {} := ⟨rfl, fun buffer => by simp⟩
  refine ⟨fun _ => rfl, ⟨.idle, [], fun _ => rfl, Connection.initial_stands⟩,
    fun _ => ⟨rfl, unsent⟩, ?_⟩
  rintro (told | sent)
  · cases told
  · exact absurd unsent sent

theorem sound_frame (sound : Sound request s) (connection : t.connection = s.connection)
    (requested : t.requested = s.requested) (delegate : t.delegate = true → s.delegate = true)
    (told : t.told = s.told) :
    Sound request t := by
  obtain ⟨attached, stands, fresh, past⟩ := sound
  refine ⟨?_, ?_, ?_, ?_⟩
  · rw [connection]
    exact fun there => attached (delegate there)
  · rw [connection, requested]
    exact stands
  · rw [connection, requested, told]
    exact fresh
  · rw [connection, told]
    exact past

theorem sound_tell (sound : Sound request s) (requested : s.requested = true)
    (only : Only request .done s.connection) (callback : Told) :
    Sound request (s.tell callback) := by
  unfold tell
  split
  · refine ⟨sound.attached, sound.stands, ?_, fun _ => only⟩
    intro early
    rw [requested] at early
    cases early
  · exact sound

/-- Before `Request` nothing can complete. -/
theorem sound_idle (sound : Sound request s) (early : s.requested = false) :
    Connection.Bare s.connection := by
  obtain ⟨progress, story, idle, stands⟩ := sound.stands
  obtain rfl := idle early
  exact Connection.idle_bare stands.only

theorem reads_done (sound : Sound request s) (reading : 0 < s.connection.reads) :
    s.requested = true ∧ Only request .done s.connection := by
  obtain ⟨progress, story, idle, stands⟩ := sound.stands
  obtain rfl := stands.only.reads reading
  refine ⟨?_, stands.only⟩
  by_contra early
  cases idle (by simpa using early)

theorem writes_done (sound : Sound request s) (writing : 0 < s.connection.writes) :
    s.requested = true ∧ Only request .done s.connection := by
  have sent : ¬ Unsent s.connection := by
    intro unsent
    rw [unsent.writes] at writing
    cases writing
  refine ⟨?_, sound.past (.inr sent)⟩
  by_contra early
  exact sent (sound.fresh (by simpa using early)).2

theorem broken_done {event : Connection.Event} {next : Connection.State} {ec : Int}
    (sound : Sound request s) (broken : event.broken ec)
    (h : Connection.step literals request s.connection event = some next) :
    s.requested = true ∧ Only request .done s.connection := by
  obtain ⟨_, ⟨data, rfl⟩ | rfl⟩ := broken
  · simp only [Connection.step] at h
    split at h
    · rename_i enabled
      exact reads_done sound enabled.1
    · cases h
  · simp only [Connection.step] at h
    split at h
    · rename_i enabled
      exact writes_done sound enabled
    · cases h

/-! ### Steps of the connection -/

theorem ofOwner_of_internal {event : Connection.Event} (inside : internal event = true) :
    event.ofOwner = false := by
  cases event <;> first | rfl | cases inside

theorem isConnect_of_ofOwner {event : Connection.Event} (pump : event.ofOwner = false) :
    event.isConnect = false := by
  cases event <;> first | rfl | cases pump

section Net

variable {event : Connection.Event} {next : Connection.State}

theorem stands_step {progress : Connection.Progress} {story : List Connection.Mark}
    (stands : Stands request progress ⟨s.connection, story⟩) (other : event.isConnect = false)
    (h : Connection.step literals request s.connection event = some next) :
    ∃ later story, (progress = .idle → later = .idle) ∧ Stands request later ⟨next, story⟩ := by
  obtain ⟨d, stepped⟩ : ∃ d, Connection.Session.step literals request ⟨s.connection,
    story⟩ event = some d :=
    ⟨_, Option.map_eq_some_iff.mpr ⟨next, h, rfl⟩⟩
  obtain ⟨later, idle, reached⟩ := Connection.step_stands stands other stepped
  obtain ⟨after, again, rfl⟩ := Connection.session_cases stepped
  cases h.symm.trans again
  exact ⟨later, _, idle, reached⟩

theorem sound_moves (sound : Sound request s) (notConnect : event.isConnect = false)
    (notSend : ∀ buffer, event ≠ .send buffer) (attached : s.delegate = true → next.delegate = true)
    (h : Connection.step literals request s.connection event = some next) :
    Sound request { s with connection := next } := by
  obtain ⟨progress, story, idle, stands⟩ := sound.stands
  obtain ⟨later, longer, still, reached⟩ := stands_step stands notConnect h
  refine ⟨attached, ⟨later, longer, fun early => still (idle early), reached⟩, ?_, ?_⟩
  · intro early
    obtain ⟨silent, unsent⟩ := sound.fresh early
    exact ⟨silent, Connection.step_unsent unsent notSend h⟩
  · rintro (told | sent)
    · exact Connection.done_step (sound.past (.inl told)) notConnect h
    · have before : ¬ Unsent s.connection :=
        fun unsent => sent (Connection.step_unsent unsent notSend h)
      exact Connection.done_step (sound.past (.inr before)) notConnect h

theorem pump_moves (sound : Sound request s) (pump : event.ofOwner = false)
    (h : Connection.step literals request s.connection event = some next) :
    Sound request { s with connection := next } := by
  have notSend : ∀ buffer, event ≠ .send buffer := by
    rintro buffer rfl
    cases pump
  have notDisConnect : event ≠ .disConnect := by
    rintro rfl
    cases pump
  refine sound_moves sound (isConnect_of_ofOwner pump) notSend ?_ h
  intro there
  exact (Connection.step_owned notDisConnect h).1.trans (sound.attached there)

theorem sound_sends (sound : Sound request s) (requested : s.requested = true)
    (only : Only request .done s.connection) (buffer : Bytes) :
    Sound request { s with connection := s.connection.send buffer } := by
  have sent : Connection.step ⟨fun _ => none, fun _ => none⟩ request s.connection (.send buffer) =
      some (s.connection.send buffer) := rfl
  obtain ⟨progress, story, _, stands⟩ := sound.stands
  obtain ⟨later, longer, _, reached⟩ := stands_step stands rfl sent
  refine ⟨?_, ⟨later, longer, fun early => ?_, reached⟩, fun early => ?_,
    fun _ => Connection.done_step only rfl sent⟩
  · intro there
    exact (Connection.step_owned (by simp) sent).1.trans (sound.attached there)
  · rw [requested] at early
    cases early
  · rw [requested] at early
    cases early

/-- The outcome of `Connect` is reported after `Request`, and for the first time. -/
theorem onConnect_requested {code : Int} (sound : Sound request s)
    (h : Connection.step literals request s.connection event = some next)
    (heard : .onConnect code ∈ (effects literals request s.connection event).filterMap Connection.Action.heard) :
    s.requested = true ∧ ¬ s.told.any Told.completes = true ∧ Only request .done next := by
  obtain ⟨progress, story, _, stands⟩ := sound.stands
  refine ⟨?_, ?_, (Connection.onConnect_done stands.only h heard).2⟩
  · by_contra early
    have bare := sound_idle sound (by simpa using early)
    exact Connection.done_unheard (Connection.bare_only bare) h heard
  · intro told
    exact Connection.done_unheard (sound.past (.inl told)) h heard

theorem netStep_sound (sound : Sound request s) (pump : event.ofOwner = false)
    (h : s.netStep literals request event = some t) : Sound request t := by
  obtain ⟨next, stepped, answers⟩ := netStep_cases h
  have moved := pump_moves sound pump stepped
  generalize heard : (effects literals request s.connection event).filterMap Connection.Action.heard = callbacks at answers
  cases answers with
  | none => exact moved
  | connected =>
    obtain ⟨requested, _, only⟩ :=
      onConnect_requested sound stepped (by rw [heard]; exact List.mem_singleton.mpr rfl)
    exact sound_sends moved requested only _
  | refused code =>
    obtain ⟨requested, _, only⟩ :=
      onConnect_requested sound stepped (by rw [heard]; exact List.mem_singleton.mpr rfl)
    have reset : Sound request { s with connection := next, httpCode := 404 } :=
      sound_frame moved rfl rfl id rfl
    exact sound_tell reset requested only _
  | disconnected ec broken =>
    obtain ⟨requested, only⟩ := broken_done sound broken stepped
    exact sound_tell moved requested (Connection.done_step only (isConnect_of_ofOwner pump) stepped) _

/-- What a step of the connection makes the client tell: the end of the exchange, after a failed
`Connect` or after a failed read or write. -/
theorem netStep_told (sound : Sound request s) (h : s.netStep literals request event = some t) :
    t.told = s.told ∨ s.delegate = true ∧ ∃ code, t.told = s.told ++ [.onHttpComplete code] ∧
      (s.told.any Told.completes = true → ∃ ec, event.broken ec) := by
  obtain ⟨next, stepped, answers⟩ := netStep_cases h
  generalize heard : (effects literals request s.connection event).filterMap Connection.Action.heard = callbacks at answers
  cases answers with
  | none => exact .inl rfl
  | connected => exact .inl rfl
  | refused code =>
    obtain ⟨_, first, _⟩ :=
      onConnect_requested sound stepped (by rw [heard]; exact List.mem_singleton.mpr rfl)
    rcases tell_told (.onHttpComplete 404) with same | ⟨there, more⟩
    · exact .inl same
    · exact .inr ⟨there, 404, more, fun told => absurd told first⟩
  | disconnected ec broken =>
    rcases tell_told (.onHttpComplete s.httpCode) with same | ⟨there, more⟩
    · exact .inl same
    · exact .inr ⟨there, s.httpCode, more, fun _ => ⟨ec, broken⟩⟩

theorem netStep_broken {ec : Int} (sound : Sound request s) (there : s.delegate = true)
    (broken : event.broken ec) (h : s.netStep literals request event = some t) :
    t.told = s.told ++ [.onHttpComplete s.httpCode] := by
  obtain ⟨next, stepped, rfl⟩ := Option.map_eq_some_iff.mp h
  rw [Connection.step_history stepped, List.drop_left,
    Connection.broken_heard broken (sound.attached there)]
  have told : ({ s with connection := next } : Exchange).delegate = true := there
  exact tell_there told _

theorem netStep_delegate (h : s.netStep literals request event = some t) :
    t.delegate = s.delegate := by
  obtain ⟨next, stepped, answers⟩ := netStep_cases h
  generalize (effects literals request s.connection event).filterMap Connection.Action.heard = callbacks at answers
  cases answers with
  | none => rfl
  | connected => rfl
  | refused code => exact tell_delegate _
  | disconnected ec broken => exact tell_delegate _

end Net

/-! ### Steps of the client -/

/-- The two agree in all that the delegate and the connection know of. -/
structure Alike (s t : Exchange) : Prop where
  connection : t.connection = s.connection
  requested : t.requested = s.requested
  delegate : t.delegate = s.delegate
  told : t.told = s.told

/-- What a step is: a call of the owner, a step of the connection, the end of a read that nobody
looks at, or a step of the parser, which may have something to tell. -/
inductive Moves (literals : Socks5.Literals) (request : Connection.NetConnectionRequest)
    (s : Exchange) :
    Event → Exchange → Prop where
  | request (early : s.requested = false) :
      Moves literals request s .request { s with requested := true, connection := s.connection.connect }
  | cancel : Moves literals request s .cancel { s with delegate := false }
  | disConnect (gone : s.delegate = false) :
      Moves literals request s .disConnect { s with connection := s.connection.disConnect }
  | net {event : Event} {t : Exchange} (inner : Connection.Event) (pump : inner.ofOwner = false)
      (moved : s.netStep literals request inner = some t)
      (fails : (∃ ec, inner.broken ec) ↔ disturbs s event = true) : Moves literals request s event t
  | skips {event : Event} (reading : 0 < s.connection.reads) (calm : disturbs s event = false) :
      Moves literals request s event { s with connection := { s.connection with reads := s.connection.reads - 1 } }
  | parses {event : Event} {t : Exchange} (calm : disturbs s event = false) (same : Alike s t) :
      Moves literals request s event t
  | tells {event : Event} {u t : Exchange} (callback : Told) (reading : 0 < s.connection.reads)
      (loud : disturbs s event = true) (before : Alike s u) (after : Alike (u.tell callback) t) :
      Moves literals request s event t

theorem internal_fails {inner : Connection.Event} (inside : internal inner = true) :
    (∃ ec, inner.broken ec) ↔ disturbs s (.net inner) = true := by
  constructor
  · rintro ⟨ec, error, ⟨data, rfl⟩ | rfl⟩
    · cases inside
    · simpa [disturbs] using error
  · intro loud
    cases inner with
    | written ec => exact ⟨ec, by simpa [disturbs] using loud, .inr rfl⟩
    | _ => cases loud

theorem read_fails {ec : Int} (incomplete : s.recvComplete = false) :
    (∃ code, (Connection.Event.read ec []).broken code) ↔ disturbs s (.read ec) = true := by
  constructor
  · rintro ⟨_, error, ⟨data, same⟩ | same⟩
    · cases same
      simpa [disturbs, incomplete] using error
    · cases same
  · intro loud
    exact ⟨ec, by simpa [disturbs, incomplete] using loud, .inl ⟨[], rfl⟩⟩

theorem step_moves (h : s.step literals request lexicalCast event = some t) :
    Moves literals request s event t := by
  cases event with
  | request =>
    simp only [step] at h
    split at h <;> cases h
    rename_i early
    exact .request (by simpa using early)
  | cancel =>
    cases h
    exact .cancel
  | disConnect =>
    simp only [step] at h
    split at h <;> cases h
    rename_i gone
    exact .disConnect (by simpa using gone)
  | net inner =>
    simp only [step] at h
    split at h
    · rename_i inside
      exact .net inner (ofOwner_of_internal inside) h (internal_fails inside)
    · cases h
  | read ec =>
    rcases readStep_cases h with ⟨complete, reading, rfl⟩ | ⟨incomplete, h⟩
    · exact .skips reading (by simp [disturbs, complete])
    · exact .net _ rfl h (read_fails incomplete)
  | response code =>
    obtain ⟨_, rfl⟩ := parse_cases h
    exact .parses rfl ⟨rfl, rfl, rfl, rfl⟩
  | field name value =>
    simp only [step] at h
    split at h
    · cases h
    · obtain ⟨_, rfl⟩ := parse_cases h
      exact .parses rfl ⟨rfl, rfl, rfl, rfl⟩
  | header =>
    obtain ⟨reading, rfl⟩ := parse_cases h
    exact .tells (u := { s with parser := .body }) _ reading rfl ⟨rfl, rfl, rfl, rfl⟩ ⟨rfl, rfl,
      rfl, rfl⟩
  | body content =>
    obtain ⟨reading, rfl⟩ := parse_cases h
    exact .tells (u := s) _ reading rfl ⟨rfl, rfl, rfl, rfl⟩ ⟨rfl, rfl, rfl, rfl⟩
  | chunk content =>
    obtain ⟨reading, rfl⟩ := parse_cases h
    exact .tells (u := s) _ reading rfl ⟨rfl, rfl, rfl, rfl⟩ ⟨rfl, rfl, rfl, rfl⟩
  | finish =>
    obtain ⟨reading, rfl⟩ := parse_cases h
    exact .tells (u := { s with parser := .complete }) _ reading rfl ⟨rfl, rfl, rfl, rfl⟩ ⟨rfl, rfl,
      rfl, rfl⟩

theorem request_sound (sound : Sound request s) (early : s.requested = false) :
    Sound request { s with requested := true, connection := s.connection.connect } := by
  obtain ⟨silent, unsent⟩ := sound.fresh early
  have still : Unsent s.connection.connect := by
    refine ⟨unsent.writes, fun buffer member => unsent.posts buffer ?_⟩
    simpa [Connection.State.connect, Connection.State.postRunable] using member
  refine ⟨sound.attached, ?_, by simp, ?_⟩
  · obtain ⟨progress, story, idle, stands⟩ := sound.stands
    obtain rfl := idle early
    have asks : Connection.Session.step ⟨fun _ => none, fun _ => none⟩ request ⟨s.connection,
        story⟩ .connect =
        some _ := rfl
    exact ⟨.asked, _, by simp, Connection.connect_stands stands asks⟩
  · rintro (told | sent)
    · rw [silent] at told
      cases told
    · exact absurd still sent

theorem reading_sound (sound : Sound request s) (reading : 0 < s.connection.reads) :
    Sound request { s with connection := { s.connection with reads := s.connection.reads - 1 } } := by
  obtain ⟨requested, only⟩ := reads_done sound reading
  have fewer : Only request .done { s.connection with reads := s.connection.reads - 1 } :=
    ⟨only.lookups, only.resolver, only.connects, only.client, only.tls, only.websocket, fun _ => rfl⟩
  have late : ∀ {P : Prop}, s.requested = false → P := by
    intro P early
    rw [requested] at early
    cases early
  exact ⟨sound.attached, ⟨.done, _, late, Connection.done_stands fewer⟩, late, fun _ => fewer⟩

theorem sound_alike (sound : Sound request s) (same : Alike s t) : Sound request t :=
  sound_frame sound same.connection same.requested (fun there => same.delegate ▸ there) same.told

theorem step_sound (sound : Sound request s)
    (h : s.step literals request lexicalCast event = some t) :
    Sound request t := by
  cases step_moves h with
  | request early => exact request_sound sound early
  | cancel => exact sound_frame sound rfl rfl (by simp) rfl
  | disConnect gone =>
    have left : Connection.step literals request s.connection .disConnect =
        some s.connection.disConnect := rfl
    exact sound_moves sound rfl (by simp) (fun there => absurd (gone.symm.trans there) (by simp)) left
  | net inner pump moved _ => exact netStep_sound sound pump moved
  | skips reading _ => exact reading_sound sound reading
  | parses _ same => exact sound_alike sound same
  | tells callback reading _ before after =>
    obtain ⟨requested, only⟩ := reads_done sound reading
    rw [← before.connection] at only
    exact sound_alike (sound_tell (sound_alike sound before) (before.requested.trans requested) only callback) after

/-- A step tells the delegate one thing at most, and after the end only when the event disturbs
it. -/
theorem step_told (sound : Sound request s)
    (h : s.step literals request lexicalCast event = some t) :
    t.told = s.told ∨ s.delegate = true ∧ ∃ callback, t.told = s.told ++ [callback] ∧
      (s.told.any Told.completes = true → disturbs s event = true) := by
  cases step_moves h with
  | request | cancel | disConnect | skips => exact .inl rfl
  | net inner pump moved fails =>
    rcases netStep_told sound moved with same | ⟨there, code, more, late⟩
    · exact .inl same
    · exact .inr ⟨there, _, more, fun complete => fails.mp (late complete)⟩
  | parses _ same => exact .inl same.told
  | tells callback _ loud before after =>
    rw [after.told, ← before.told, ← before.delegate]
    rcases tell_told callback with same | ⟨there, more⟩
    · exact .inl same
    · exact .inr ⟨there, callback, more, fun _ => loud⟩

/-- And every such event makes it tell something. -/
theorem step_disturbed (sound : Sound request s) (there : s.delegate = true)
    (loud : disturbs s event = true) (h : s.step literals request lexicalCast event = some t) :
    ∃ callback, t.told = s.told ++ [callback] := by
  cases step_moves h with
  | request | cancel | disConnect => cases loud
  | net inner pump moved fails =>
    obtain ⟨ec, broken⟩ := fails.mpr loud
    exact ⟨_, netStep_broken sound there broken moved⟩
  | skips _ calm | parses calm _ =>
    rw [loud] at calm
    cases calm
  | tells callback _ _ before after =>
    rw [after.told, ← before.told]
    exact ⟨callback, tell_there (before.delegate.trans there) callback⟩

theorem step_gone (gone : s.delegate = false)
    (h : s.step literals request lexicalCast event = some t) :
    t.delegate = false := by
  cases step_moves h with
  | request | disConnect | skips => exact gone
  | cancel => rfl
  | net inner pump moved _ => exact (netStep_delegate moved).trans gone
  | parses _ same => exact same.delegate.trans gone
  | tells callback _ _ before after =>
    exact after.delegate.trans ((tell_delegate callback).trans (before.delegate.trans gone))

/-! ### Whole runs -/

theorem final_more {told : List Told} (unfinished : told.any Told.completes = false)
    (callback : Told) :
    Final (told ++ [callback]) := by
  intro before code after split
  rcases List.eq_nil_or_concat after with rfl | ⟨rest, last, rfl⟩
  · rfl
  · rw [List.concat_eq_append, ← List.cons_append, ← List.append_assoc] at split
    obtain ⟨rfl, _⟩ := List.append_inj' split rfl
    simp [Told.completes] at unfinished

theorem not_final_more {told : List Told} (complete : told.any Told.completes = true)
    (callback : Told) :
    ¬ Final (told ++ [callback]) := by
  obtain ⟨last, member, completes⟩ := List.any_eq_true.mp complete
  obtain ⟨before, after, rfl⟩ := List.append_of_mem member
  intro final
  cases last with
  | onHttpComplete code =>
    have none := final before code (after ++ [callback]) (by simp)
    simp at none
  | onHttpHeads heads => cases completes
  | onHttpResponse message => cases completes

theorem step_final (sound : Sound request s) (final : Final s.told) (quiet : Quiet s event)
    (h : s.step literals request lexicalCast event = some t) : Final t.told := by
  rcases step_told sound h with same | ⟨there, callback, more, late⟩
  · rwa [same]
  · rw [more]
    apply final_more
    by_contra complete
    have told : s.told.any Told.completes = true := by simpa using complete
    have loud := late told
    rw [quiet ⟨there, told⟩] at loud
    cases loud

theorem run_gone (gone : s.delegate = false) (sound : Sound request s)
    (h : run (step literals request lexicalCast) s events = some t) : t.told = s.told := by
  have kept := run_keeps (I := fun u => Sound request u ∧ u.delegate = false ∧
      u.told = s.told) ?_ ⟨sound, gone, rfl⟩ h
  · exact kept.2.2
  · rintro u event v ⟨sound, gone, same⟩ moved
    refine ⟨step_sound sound moved, step_gone gone moved, ?_⟩
    rcases step_told sound moved with silent | ⟨there, _⟩
    · exact silent.trans same
    · rw [gone] at there
      cases there

theorem run_sound (h : run (step literals request lexicalCast) {} events = some s) :
    Sound request s :=
  run_keeps (fun _ _ _ sound moved => step_sound sound moved) initial_sound h

/-- `OnHttpComplete` is the last thing that the delegate is told, and is told once, exactly when
nothing disturbs the exchange after it: no write fails, no read fails before the whole message was
parsed, and the parser goes no further. After `Cancel` the delegate is told nothing. -/
theorem completes_once_iff (h : run (step literals request lexicalCast) {} events = some t) :
    (Always (step literals request lexicalCast) (fun s => Final s.told) {} events ↔
      EachStep (step literals request lexicalCast) Quiet {} events) ∧
    ∀ before after s, events = before ++ .disConnect :: after →
      run (step literals request lexicalCast) {} before = some s → t.told = s.told := by
  refine ⟨always_iff_eachStep (I := fun s => Sound request s ∧ Final s.told) ?_ ?_ ?_ ⟨initial_sound, ?_⟩ h, ?_⟩
  · exact fun s holds => holds.2
  · rintro s event t ⟨sound, final⟩ quiet stepped
    exact ⟨step_sound sound stepped, step_final sound final quiet stepped⟩
  · rintro s event t ⟨sound, _⟩ loud stepped
    obtain ⟨⟨there, complete⟩, disturbed⟩ := Classical.not_imp.mp loud
    obtain ⟨callback, more⟩ := step_disturbed sound there (by simpa using disturbed) stepped
    show ¬ Final t.told
    rw [more]
    exact not_final_more complete callback
  · intro before code after split
    simp at split
  · rintro before after s rfl reached
    obtain ⟨middle, first, rest⟩ := run_append.mp h
    cases reached.symm.trans first
    obtain ⟨next, left, rest⟩ := run_cons.mp rest
    have gone : s.delegate = false := by
      simp only [step] at left
      split at left
      · cases left
      · rename_i gone
        simpa using gone
    have sound := run_sound reached
    have silent := run_gone (step_gone gone left) (step_sound sound left) rest
    rcases step_told sound left with same | ⟨there, _⟩
    · exact silent.trans same
    · rw [gone] at there
      cases there

/-- A client on its way to a response: the request is being written, and the status line and the
head are parsed. -/
def exchanges : List Event :=
  [.request, .net .run, .net .run, .net (.resolved 0 0), .net (.connected 0), .net .run, .net .run, .response 200,
    .header, .body [1]]

/-- The message is complete, and then the write succeeds. -/
theorem completes_once_exchanges :
    ∃ s, run (step Socks5.noLiterals Connection.plainRequest fun _ => none) {}
        (exchanges ++ [.finish, .read 0, .net (.written 0)]) = some s ∧
      s.told = [.onHttpHeads [], .onHttpResponse [1], .onHttpComplete 200] ∧ Final s.told := by
  have reached : ∃ s, run (step Socks5.noLiterals Connection.plainRequest fun _ => none) {}
      (exchanges ++ [.finish, .read 0, .net (.written 0)]) = some s ∧
      s.told = [.onHttpHeads [], .onHttpResponse [1], .onHttpComplete 200] := ⟨_, rfl, rfl⟩
  obtain ⟨s, reached, told⟩ := reached
  have quiet : EachStep (step Socks5.noLiterals Connection.plainRequest fun _ => none) Quiet {}
      (exchanges ++ [.finish, .read 0, .net (.written 0)]) := eachStep_of_meets (by decide)
  exact ⟨s, reached, told,
    (completes_once_iff reached).1.mpr quiet _ [] s (List.append_nil _).symm reached⟩

/-- The message is complete, and then the write fails: the delegate is told of the end twice. -/
theorem completes_twice :
    ∃ s, run (step Socks5.noLiterals Connection.plainRequest fun _ => none) {}
        (exchanges ++ [.finish, .read 0, .net (.written 104)]) = some s ∧
      s.told = [.onHttpHeads [], .onHttpResponse [1], .onHttpComplete 200, .onHttpComplete 200] ∧
      ¬ Final s.told := by
  refine ⟨_, rfl, rfl, ?_⟩
  intro final
  have none := final [.onHttpHeads [], .onHttpResponse [1]] 200 [.onHttpComplete 200] rfl
  cases none

end Exchange

end Kingkong.Http
