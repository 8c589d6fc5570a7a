import Kingkong.Connection.Step

/-!
What the delegate of a connection hears after one `Connect`, when nobody disconnects and data is
sent only once the connection is established. Until the first callback exactly one stage of the
connection is under way; after it none is, and only reads and writes are left.
-/

namespace Kingkong.Connection
open Lib State

variable {literals : Socks5.Literals} {request : NetConnectionRequest} {s t : State} {event : Event}
  {events : List Event}

/-- The owner calls neither `Connect` again nor `DisConnect`, and calls `Send` only after
`OnConnect(0)`. -/
def permitted (s : State) : Event → Bool
  | .connect | .disConnect => false
  | .send _ => s.callbacks.contains (.onConnect 0)
  | _ => true

def clientStep (literals : Socks5.Literals) (request : NetConnectionRequest) (s : State)
    (event : Event) : Option State :=
  if permitted s event then step literals request s event else none

def opened : State := ({} : State).connect

def receiving : List Callback → Bool
  | [] => true
  | .onRecvData _ :: rest => receiving rest
  | .onDisconnect _ :: rest => rest.isEmpty
  | .onConnect _ :: _ => false

/-- Nothing, a failed `OnConnect`, or `OnConnect(0)` with data after it and at most one
`OnDisconnect` at the end. -/
def wellFormed : List Callback → Bool
  | [] => true
  | .onConnect code :: rest => if code = 0 then receiving rest else rest.isEmpty
  | _ => false

def live (s : State) : Nat :=
  s.tasks.count .doDnsResolve + s.dnsResolver.isSome.toNat + s.connects + s.tlsHandshakes +
    s.websocketHandshakes + s.socks5Client.isSome.toNat

structure Sound (s : State) : Prop where
  delegate : s.delegate = true
  running : .handleCleanUp ∉ s.tasks
  held : ∀ k resolver, s.resolvers[k]? = some resolver → resolver.delegate = true → s.dnsResolver = some k
  unanswered : ∀ client, s.socks5Client = some client → client.answers = []

structure Idle (s : State) : Prop where
  reads : s.reads = 0
  writes : s.writes = 0
  queue : ∀ buffer, .doSendFromQueue buffer ∉ s.tasks

def Established (callbacks : List Callback) : Prop :=
  ∃ data : List Bytes, callbacks = .onConnect 0 :: data.map .onRecvData

inductive Phase (s : State) : Prop where
  | early (silent : s.callbacks = []) (stage : live s = 1) (clean : s.alreadyCleanUp = false) (idle : Idle s)
  | established (heard : Established s.callbacks) (stage : live s = 0) (clean : s.alreadyCleanUp = false)
  | closed (before : List Callback) (heard : Established before) (code : Int)
      (last : s.callbacks = before ++ [.onDisconnect code]) (stage : live s = 0) (clean : s.alreadyCleanUp = true)
  | failed (code : Int) (error : code ≠ 0) (heard : s.callbacks = [.onConnect code]) (stage : live s = 0)
      (clean : s.alreadyCleanUp = true) (idle : Idle s)

/-- Between two stages: the last one has ended and has not been answered. -/
structure Between (s : State) : Prop where
  sound : Sound s
  silent : s.callbacks = []
  stage : live s = 0
  clean : s.alreadyCleanUp = false
  idle : Idle s

theorem opened_phase : Sound opened ∧ Phase opened := by
  refine ⟨⟨rfl, by decide, ?_, ?_⟩, .early rfl (by decide) rfl ⟨rfl, rfl, ?_⟩⟩
  · intro k resolver found
    simp [opened, connect, postRunable] at found
  · intro client found
    cases found
  · intro buffer
    simp [opened, connect, postRunable]

/-! ### What the delegate may hear next -/

theorem receiving_map (data : List Bytes) (rest : List Callback) :
    receiving (data.map .onRecvData ++ rest) = receiving rest := by
  induction data with
  | nil => rfl
  | cons head tail ih => simpa [receiving] using ih

theorem established_wellFormed {callbacks : List Callback} (heard : Established callbacks) :
    wellFormed callbacks = true := by
  obtain ⟨data, rfl⟩ := heard
  have tail := receiving_map data []
  rw [List.append_nil] at tail
  simp [wellFormed, tail, receiving]

theorem closed_wellFormed {callbacks : List Callback} {code : Int} (heard : Established callbacks) :
    wellFormed (callbacks ++ [.onDisconnect code]) = true := by
  obtain ⟨data, rfl⟩ := heard
  simp [wellFormed, receiving_map, receiving]

theorem closed_final {callbacks : List Callback} {code : Int} (heard : Established callbacks)
    (callback : Callback) :
    wellFormed (callbacks ++ [.onDisconnect code] ++ [callback]) = false := by
  obtain ⟨data, rfl⟩ := heard
  simp [wellFormed, receiving_map, receiving]

theorem established_data {callbacks : List Callback} (heard : Established callbacks)
    (more : Bytes) :
    Established (callbacks ++ [.onRecvData more]) := by
  obtain ⟨data, rfl⟩ := heard
  exact ⟨data ++ [more], by simp⟩

theorem phase_wellFormed (phase : Phase s) : wellFormed s.callbacks = true := by
  cases phase with
  | early silent => rw [silent]; rfl
  | established heard => exact established_wellFormed heard
  | closed before heard code last => rw [last]; exact closed_wellFormed heard
  | failed code error heard => rw [heard]; simp [wellFormed, error]

/-! ### Cleaning up -/

section Notify

variable (callback : Callback)

theorem notify_callbacks (sound : Sound s) :
    (s.notify callback).callbacks = s.callbacks ++ [callback] := by
  simp [notify, sound.delegate]

theorem notify_live : live (s.notify callback) = live s := by
  unfold notify
  split <;> rfl

theorem notify_sound (sound : Sound s) : Sound (s.notify callback) := by
  unfold notify
  split
  · exact ⟨sound.delegate, sound.running, sound.held, sound.unanswered⟩
  · exact sound

theorem notify_idle (idle : Idle s) : Idle (s.notify callback) := by
  unfold notify
  split
  · exact ⟨idle.reads, idle.writes, idle.queue⟩
  · exact idle

end Notify

theorem cancelResolver_held (sound : Sound s) (k : Nat) (resolver : DnsResolver)
    (found : s.cancelResolver.resolvers[k]? = some resolver) : resolver.delegate = false := by
  rw [cancelResolver_eq] at found
  by_contra told
  obtain ⟨present, other⟩ := released_delegate found (by simpa using told)
  exact other (sound.held k resolver present (by simpa using told))

/-- `t` is `s` without its resolver, and perhaps without its SOCKS5 client. -/
structure Released (s t : State) : Prop where
  callbacks : t.callbacks = s.callbacks
  delegate : t.delegate = s.delegate
  reads : t.reads = s.reads
  writes : t.writes = s.writes
  connects : t.connects = s.connects
  tlsHandshakes : t.tlsHandshakes = s.tlsHandshakes
  websocketHandshakes : t.websocketHandshakes = s.websocketHandshakes
  socks5Client : t.socks5Client = none ∨ t.socks5Client = s.socks5Client
  dnsResolver : t.dnsResolver = none
  resolvers : ∀ (k : Nat) (resolver : DnsResolver), t.resolvers[k]? = some resolver → resolver.delegate = false
  tasks : ∃ cancelled : List Nat, t.tasks = s.tasks ++ cancelled.map .doCancel

theorem cancelResolver_released (sound : Sound s) : Released s s.cancelResolver := by
  have resolvers := cancelResolver_held sound
  cases held : s.dnsResolver with
  | none =>
    have same : s.cancelResolver = s := by simp only [cancelResolver, held]
    rw [same] at resolvers ⊢
    exact ⟨rfl, rfl, rfl, rfl, rfl, rfl, rfl, Or.inr rfl, held, resolvers, ⟨[], by simp⟩⟩
  | some k =>
    refine ⟨?_, ?_, ?_, ?_, ?_, ?_, ?_, Or.inr ?_, ?_, resolvers, ⟨[k], ?_⟩⟩
    all_goals simp [cancelResolver, held, postRunable]

theorem handleCleanUp_released (sound : Sound s) (clean : s.alreadyCleanUp = false) :
    Released s s.handleCleanUp ∧ s.handleCleanUp.alreadyCleanUp = true := by
  have inner : Sound { s with alreadyCleanUp := true, socks5Client := none } :=
    ⟨sound.delegate, sound.running, sound.held, by intro client found; cases found⟩
  have released := cancelResolver_released inner
  have kept : State.alreadyCleanUp
      (cancelResolver { s with alreadyCleanUp := true, socks5Client := none }) = true := by
    unfold cancelResolver
    split <;> rfl
  have gone : State.socks5Client
      (cancelResolver { s with alreadyCleanUp := true, socks5Client := none }) = none := by
    unfold cancelResolver
    split <;> rfl
  simp only [handleCleanUp, clean, Bool.false_eq_true, if_false]
  exact ⟨⟨released.callbacks, released.delegate, released.reads, released.writes, released.connects,
    released.tlsHandshakes, released.websocketHandshakes, Or.inl gone, released.dnsResolver, released.resolvers,
    released.tasks⟩, kept⟩

theorem released_sound (released : Released s t) (sound : Sound s) : Sound t where
  delegate := released.delegate.trans sound.delegate
  running := by
    obtain ⟨cancelled, tasks⟩ := released.tasks
    rw [tasks]
    simpa using sound.running
  held k resolver found told := by
    rw [released.resolvers k resolver found] at told
    cases told
  unanswered client found := by
    rcases released.socks5Client with none | same
    · rw [none] at found; cases found
    · exact sound.unanswered client (same ▸ found)

theorem released_idle (released : Released s t) (idle : Idle s) : Idle t where
  reads := released.reads.trans idle.reads
  writes := released.writes.trans idle.writes
  queue buffer := by
    obtain ⟨cancelled, tasks⟩ := released.tasks
    rw [tasks]
    simpa using idle.queue buffer

theorem released_live (released : Released s t) (none : live s = 0) : live t = 0 := by
  obtain ⟨cancelled, tasks⟩ := released.tasks
  have count : t.tasks.count .doDnsResolve = s.tasks.count .doDnsResolve := by
    rw [tasks, List.count_append, Nat.add_eq_left, List.count_eq_zero]
    simp
  unfold live at none ⊢
  rw [count, released.connects, released.tlsHandshakes, released.websocketHandshakes,
    released.dnsResolver]
  rcases released.socks5Client with gone | same
  · rw [gone]
    simp only [Option.isSome_none, Bool.toNat_false]
    omega
  · rw [same]
    simp only [Option.isSome_none, Bool.toNat_false]
    omega

/-! ### From one stage to the next -/

theorem between_fails (between : Between s) {code : Int} (error : code ≠ 0) :
    Sound (s.handleConnectStatus code).handleCleanUp ∧
      Phase (s.handleConnectStatus code).handleCleanUp := by
  have sound := notify_sound (.onConnect code) between.sound
  obtain ⟨released, cleaned⟩ :=
    handleCleanUp_released sound (by rw [notify_alreadyCleanUp, between.clean])
  refine ⟨released_sound released sound, .failed code error ?_ ?_ cleaned ?_⟩
  · rw [handleConnectStatus, released.callbacks, notify_callbacks _ between.sound, between.silent]
    rfl
  · exact released_live released (by rw [notify_live, between.stage])
  · exact released_idle released (notify_idle _ between.idle)

theorem between_cleans (between : Between s) {code : Int} (error : code ≠ 0) :
    Sound (s.handleCleanUp.handleConnectStatus code) ∧
      Phase (s.handleCleanUp.handleConnectStatus code) := by
  obtain ⟨released, cleaned⟩ := handleCleanUp_released between.sound between.clean
  have sound := released_sound released between.sound
  refine ⟨notify_sound _ sound, .failed code error ?_ ?_ ?_ ?_⟩
  · rw [handleConnectStatus, notify_callbacks _ sound, released.callbacks, between.silent]
    rfl
  · rw [handleConnectStatus, notify_live, released_live released between.stage]
  · rw [handleConnectStatus, notify_alreadyCleanUp, cleaned]
  · exact notify_idle _ (released_idle released between.idle)

theorem between_opens (between : Between s) :
    Sound (s.handleConnectStatus 0).startRecvDate ∧
      Phase (s.handleConnectStatus 0).startRecvDate := by
  have sound := notify_sound (.onConnect 0) between.sound
  refine ⟨⟨sound.delegate, sound.running, sound.held, sound.unanswered⟩,
    .established ⟨[], ?_⟩ ?_ ?_⟩
  · show (s.notify (.onConnect 0)).callbacks = _
    rw [notify_callbacks _ between.sound, between.silent]
    rfl
  · show live (s.notify (.onConnect 0)) = 0
    rw [notify_live, between.stage]
  · show (s.notify (.onConnect 0)).alreadyCleanUp = false
    rw [notify_alreadyCleanUp, between.clean]

theorem between_starts (between : Between s) (callbacks : t.callbacks = s.callbacks)
    (clean : t.alreadyCleanUp = s.alreadyCleanUp) (idle : Idle s → Idle t)
    (stage : live t = live s + 1) : Phase t :=
  .early (callbacks.trans between.silent) (by rw [stage, between.stage]) (clean.trans between.clean) (idle between.idle)

theorem between_websocket (between : Between s) :
    Sound s.doWebsocketHandshake ∧ Phase s.doWebsocketHandshake := by
  have sound := between.sound
  refine ⟨⟨sound.delegate, sound.running, sound.held, sound.unanswered⟩,
    between_starts between rfl rfl ?_ ?_⟩
  · exact fun idle => ⟨idle.reads, idle.writes, idle.queue⟩
  · simp only [live, doWebsocketHandshake]
    omega

theorem between_tls (between : Between s) : Sound s.doTlsHandshake ∧ Phase s.doTlsHandshake := by
  have sound := between.sound
  refine ⟨⟨sound.delegate, sound.running, sound.held, sound.unanswered⟩,
    between_starts between rfl rfl ?_ ?_⟩
  · exact fun idle => ⟨idle.reads, idle.writes, idle.queue⟩
  · simp only [live, doTlsHandshake]
    omega

theorem between_connects (between : Between s) (history : List Action) :
    Sound { s with connects := s.connects + 1, history := history } ∧
      Phase { s with connects := s.connects + 1, history := history } := by
  have sound := between.sound
  refine ⟨⟨sound.delegate, sound.running, sound.held, sound.unanswered⟩,
    between_starts between rfl rfl ?_ ?_⟩
  · exact fun idle => ⟨idle.reads, idle.writes, idle.queue⟩
  · simp only [live]
    omega

theorem between_proxy (between : Between s) {client : Socks5.State} (fresh : client.answers = [])
    (history : List Action) :
    Sound { s with socks5Client := some client, history := history } ∧
      Phase { s with socks5Client := some client, history := history } := by
  have sound := between.sound
  refine ⟨⟨sound.delegate, sound.running, sound.held, ?_⟩, between_starts between rfl rfl ?_ ?_⟩
  · intro other found
    cases found
    exact fresh
  · exact fun idle => ⟨idle.reads, idle.writes, idle.queue⟩
  · have stage := between.stage
    unfold live at stage
    simp only [live, Option.isSome_some, Bool.toNat_true]
    omega

theorem between_resolves (between : Between s) :
    Sound (s.doDnsResolve request) ∧ Phase (s.doDnsResolve request) := by
  have sound := between.sound
  have unresolved : s.dnsResolver = none := by
    have stage := between.stage
    unfold live at stage
    cases held : s.dnsResolver with
    | none => rfl
    | some k => rw [held, Option.isSome_some, Bool.toNat_true] at stage; omega
  refine ⟨⟨sound.delegate, ?_, ?_, sound.unanswered⟩, between_starts between rfl rfl ?_ ?_⟩
  · simpa [doDnsResolve, postRunable] using sound.running
  · intro k resolver found told
    show some s.resolvers.length = some k
    change (s.resolvers ++ [_])[k]? = some resolver at found
    rw [List.getElem?_append] at found
    split at found
    · have held := sound.held k resolver found told
      rw [unresolved] at held
      cases held
    · rename_i outside
      obtain ⟨zero, _⟩ := List.getElem?_eq_some_iff.mp found
      rw [List.length_singleton] at zero
      congr
      omega
  · intro idle
    refine ⟨idle.reads, idle.writes, ?_⟩
    intro buffer
    simpa [doDnsResolve, postRunable] using idle.queue buffer
  · simp [live, doDnsResolve, postRunable, unresolved]
    omega

theorem between_handshake (between : Between s) :
    Sound (s.doOtherHandshake request 0) ∧ Phase (s.doOtherHandshake request 0) := by
  rw [doOtherHandshake_eq]
  split
  · exact between_tls between
  · split
    · exact between_websocket between
    · exact between_opens between

theorem phase_between (phase : Phase s) (sound : Sound t) (callbacks : t.callbacks = s.callbacks)
    (clean : t.alreadyCleanUp = s.alreadyCleanUp) (idle : Idle s → Idle t)
    (stage : live t + 1 = live s) :
    Between t := by
  cases phase with
  | early silent one before quiet =>
    exact ⟨sound, callbacks.trans silent, by omega, clean.trans before, idle quiet⟩
  | established _ none _ => omega
  | closed _ _ _ _ none _ => omega
  | failed _ _ _ none _ _ => omega

theorem phase_frame (phase : Phase s) (callbacks : t.callbacks = s.callbacks)
    (clean : t.alreadyCleanUp = s.alreadyCleanUp) (idle : Idle s → Idle t)
    (stage : live t = live s) :
    Phase t := by
  cases phase with
  | early silent one before quiet =>
    exact .early (callbacks.trans silent) (stage.trans one) (clean.trans before) (idle quiet)
  | established heard none before =>
    exact .established (callbacks ▸ heard) (stage.trans none) (clean.trans before)
  | closed start heard code last none before =>
    exact .closed start heard code (callbacks.trans last) (stage.trans none) (clean.trans before)
  | failed code error heard none before quiet =>
    exact .failed code error (callbacks.trans heard) (stage.trans none) (clean.trans before) (idle quiet)

/-! ### Completions of the stages -/

theorem connected_phase {ec : Int} (sound : Sound s) (phase : Phase s)
    (h : step literals request s (.connected ec) = some t) : Sound t ∧ Phase t := by
  simp only [step] at h
  split at h
  · rename_i outstanding
    cases h
    have between : Between { s with connects := s.connects - 1 } := by
      refine phase_between phase ⟨sound.delegate, sound.running, sound.held,
        sound.unanswered⟩ rfl rfl ?_ ?_
      · exact fun idle => ⟨idle.reads, idle.writes, idle.queue⟩
      · simp only [live]
        omega
    unfold notifyConnectComplete
    split
    · rename_i success
      subst success
      split
      · exact between_proxy between rfl _
      · exact between_handshake between
    · rename_i error
      exact between_cleans between error
  · cases h

theorem tlsHandshake_phase {ec : Int} (sound : Sound s) (phase : Phase s)
    (h : step literals request s (.tlsHandshake ec) = some t) : Sound t ∧ Phase t := by
  simp only [step] at h
  split at h
  · rename_i outstanding
    cases h
    have between : Between { s with tlsHandshakes := s.tlsHandshakes - 1 } := by
      refine phase_between phase ⟨sound.delegate, sound.running, sound.held,
        sound.unanswered⟩ rfl rfl ?_ ?_
      · exact fun idle => ⟨idle.reads, idle.writes, idle.queue⟩
      · simp only [live]
        omega
    unfold notifyTlsHandshakeComplete
    split
    · rename_i success
      subst success
      split
      · exact between_websocket between
      · exact between_opens between
    · rename_i error
      exact between_fails between error
  · cases h

theorem websocketHandshake_phase {ec : Int} (sound : Sound s) (phase : Phase s)
    (h : step literals request s (.websocketHandshake ec) = some t) : Sound t ∧ Phase t := by
  simp only [step] at h
  split at h
  · rename_i outstanding
    cases h
    have between : Between { s with websocketHandshakes := s.websocketHandshakes - 1 } := by
      refine phase_between phase ⟨sound.delegate, sound.running, sound.held,
        sound.unanswered⟩ rfl rfl ?_ ?_
      · exact fun idle => ⟨idle.reads, idle.writes, idle.queue⟩
      · simp only [live]
        omega
    simp only [notifyWebsocketHandshakeComplte]
    split
    · rename_i success
      subst success
      exact between_opens between
    · rename_i error
      exact between_fails between error
  · cases h

theorem socks5_phase {inner : Socks5.Event} (sound : Sound s) (phase : Phase s)
    (h : step literals request s (.socks5 inner) = some t) : Sound t ∧ Phase t := by
  obtain ⟨client, next, present, _, rfl⟩ := socks5_client h
  rw [sound.unanswered client present, List.length_nil, List.drop_zero]
  cases answers : next.answers with
  | nil =>
    refine ⟨⟨sound.delegate, sound.running, sound.held, ?_⟩, phase_frame phase rfl rfl ?_ ?_⟩
    · intro other found
      cases found
      exact answers
    · exact fun idle => ⟨idle.reads, idle.writes, idle.queue⟩
    · simp [live, present]
  | cons code rest =>
    have between : Between { s with socks5Client := none } := by
      refine phase_between phase ⟨sound.delegate, sound.running, sound.held, ?_⟩ rfl rfl ?_ ?_
      · intro other found
        cases found
      · exact fun idle => ⟨idle.reads, idle.writes, idle.queue⟩
      · simp [live, present]
    simp only [onSocks5Handshake_free]
    split
    · rename_i success
      subst success
      exact between_handshake between
    · rename_i error
      exact between_cleans between error

/-! ### The resolver and the posted tasks -/

theorem lookups_sound (sound : Sound s) (k : Nat) (count : DnsResolver → Nat) :
    Sound { s with resolvers := s.resolvers.modify k fun resolver => { resolver with outstanding := count resolver } } where
  delegate := sound.delegate
  running := sound.running
  held j resolver found told := by
    simp only [List.getElem?_modify] at found
    split at found
    · obtain ⟨before, present, rfl⟩ := Option.map_eq_some_iff.mp found
      exact sound.held j before present told
    · rw [id_map'] at found
      exact sound.held j resolver found told
  unanswered := sound.unanswered

theorem resolved_phase {k : Nat} {code : Int} (sound : Sound s) (phase : Phase s)
    (h : step literals request s (.resolved k code) = some t) : Sound t ∧ Phase t := by
  obtain ⟨resolver, resolvers, present, lookups, rfl⟩ := resolved_lookup h
  have ended := lookups_sound sound k fun resolver => resolver.outstanding - 1
  rw [← lookups] at ended
  cases told : resolver.delegate with
  | false =>
    simp only [Bool.false_eq_true, if_false]
    exact ⟨ended, phase_frame phase rfl rfl (fun idle => ⟨idle.reads, idle.writes, idle.queue⟩) rfl⟩
  | true =>
    simp only [if_true]
    have held := sound.held k resolver present told
    have released := cancelResolver_released ended
    have between : Between (cancelResolver { s with resolvers := resolvers }) := by
      refine phase_between phase (released_sound released ended) released.callbacks ?_ ?_ ?_
      · simp [cancelResolver, held, postRunable]
      · exact fun idle => released_idle released ⟨idle.reads, idle.writes, idle.queue⟩
      · simp [live, cancelResolver, held, postRunable]
        omega
    simp only [onDnsResolvered]
    split
    · rename_i error
      exact between_fails between error
    · exact between_connects between _

theorem tasks_tail (sound : Sound s) {task : Task} {rest : List Task}
    (tasks : s.tasks = task :: rest) :
    Sound { s with tasks := rest } where
  delegate := sound.delegate
  running member := sound.running (by rw [tasks]; exact List.mem_cons_of_mem _ member)
  held := sound.held
  unanswered := sound.unanswered

theorem idle_tail {task : Task} {rest : List Task} (tasks : s.tasks = task :: rest)
    (idle : Idle s) :
    Idle { s with tasks := rest } where
  reads := idle.reads
  writes := idle.writes
  queue buffer member := idle.queue buffer (by rw [tasks]; exact List.mem_cons_of_mem _ member)

theorem phase_heard (phase : Phase s) (busy : ¬ Idle s) :
    (∃ before, Established before ∧
      (s.callbacks = before ∨ ∃ code, s.callbacks = before ++ [.onDisconnect code])) ∧
      (s.alreadyCleanUp = false → Established s.callbacks) ∧ live s = 0 := by
  cases phase with
  | early _ _ _ idle => exact absurd idle busy
  | established heard none _ => exact ⟨⟨_, heard, Or.inl rfl⟩, fun _ => heard, none⟩
  | closed before heard code last none clean =>
    refine ⟨⟨before, heard, Or.inr ⟨code, last⟩⟩, ?_, none⟩
    intro dirty
    rw [clean] at dirty
    cases dirty
  | failed _ _ _ _ _ idle => exact absurd idle busy

theorem phase_busy (phase : Phase s) (busy : ¬ Idle s) (callbacks : t.callbacks = s.callbacks)
    (clean : t.alreadyCleanUp = s.alreadyCleanUp) (stage : live t = live s) : Phase t :=
  phase_frame phase callbacks clean (fun idle => absurd idle busy) stage

theorem run_phase (sound : Sound s) (phase : Phase s) (h : step literals request s .run = some t) :
    Sound t ∧ Phase t := by
  obtain ⟨task, rest, tasks, rfl⟩ := run_task h
  have tail := tasks_tail sound tasks
  cases task with
  | doDnsResolve =>
    have between : Between { s with tasks := rest } := by
      refine phase_between phase tail rfl rfl (idle_tail tasks) ?_
      simp [live, tasks]
      omega
    exact between_resolves between
  | doResolver k =>
    have same : Phase { s with tasks := rest } :=
      phase_frame phase rfl rfl (idle_tail tasks) (by simp [live, tasks])
    simp only [runTask]
    split
    · have counted := lookups_sound tail k fun resolver => resolver.outstanding + 1
      exact ⟨⟨counted.delegate, counted.running, counted.held, counted.unanswered⟩,
        phase_frame same rfl rfl (fun idle => ⟨idle.reads, idle.writes, idle.queue⟩) rfl⟩
    · exact ⟨tail, same⟩
  | doCancel k => exact ⟨tail, phase_frame phase rfl rfl (idle_tail tasks) (by simp [live, runTask, tasks])⟩
  | doSendFromQueue buffer =>
    have busy : ¬ Idle s := fun idle => idle.queue buffer (by rw [tasks]; exact List.mem_cons_self)
    have stage : live { s with tasks := rest } = live s := by simp [live, tasks]
    simp only [runTask, doSendFromQueue]
    split
    · exact ⟨⟨tail.delegate, tail.running, tail.held, tail.unanswered⟩,
        phase_busy phase busy rfl rfl stage⟩
    · exact ⟨⟨tail.delegate, tail.running, tail.held, tail.unanswered⟩,
        phase_busy phase busy rfl rfl stage⟩
  | handleCleanUp => exact absurd (by rw [tasks]; exact List.mem_cons_self) sound.running

/-! ### Reads and writes -/

theorem send_phase {buffer : Bytes} (sound : Sound s) (phase : Phase s)
    (told : .onConnect 0 ∈ s.callbacks) :
    Sound (s.send buffer) ∧ Phase (s.send buffer) := by
  have posted : Sound (s.postRunable (.doSendFromQueue buffer)) ∧
      Phase (s.postRunable (.doSendFromQueue buffer)) := by
    refine ⟨⟨sound.delegate, by simpa [postRunable] using sound.running, sound.held, sound.unanswered⟩, ?_⟩
    have stage : live (s.postRunable (.doSendFromQueue buffer)) = live s := by
      simp [live, postRunable]
    cases phase with
    | early silent => rw [silent] at told; cases told
    | established heard none clean => exact .established heard (stage.trans none) clean
    | closed before heard code last none clean => exact .closed before heard code last (stage.trans none) clean
    | failed code error heard =>
      rw [heard, List.mem_singleton] at told
      exact absurd (Callback.onConnect.inj told).symm error
  unfold send
  split
  · exact ⟨sound, phase⟩
  · exact posted

theorem disconnect_phase {ec : Int} (sound : Sound s) (heard : Established s.callbacks)
    (none : live s = 0) (clean : s.alreadyCleanUp = false) :
    Sound (s.notifyDisconnect ec).handleCleanUp ∧ Phase (s.notifyDisconnect ec).handleCleanUp := by
  have told := notify_sound (.onDisconnect ec) sound
  obtain ⟨released, cleaned⟩ := handleCleanUp_released told (by rw [notify_alreadyCleanUp, clean])
  refine ⟨released_sound released told, .closed s.callbacks heard ec ?_ ?_ cleaned⟩
  · rw [notifyDisconnect, released.callbacks, notify_callbacks _ sound]
  · exact released_live released (by rw [notify_live, none])

/-- No read ends, and no write fails, once the connection has been cleaned up. -/
def SettledTransport (s : State) (event : Event) : Prop :=
  s.alreadyCleanUp = true → (∀ ec data, event ≠ .read ec data) ∧ ∀ ec, event = .written ec → ec = 0

theorem not_idle_of_reads (outstanding : 0 < s.reads) : ¬ Idle s :=
  fun idle => Nat.ne_of_gt outstanding idle.reads

theorem not_idle_of_writes (outstanding : 0 < s.writes) : ¬ Idle s :=
  fun idle => Nat.ne_of_gt outstanding idle.writes

theorem Sound.reads (sound : Sound s) (n : Nat) : Sound { s with reads := n } :=
  ⟨sound.delegate, sound.running, sound.held, sound.unanswered⟩

theorem Sound.writes (sound : Sound s) (n : Nat) : Sound { s with writes := n } :=
  ⟨sound.delegate, sound.running, sound.held, sound.unanswered⟩

theorem read_phase {ec : Int} {data : Bytes} (sound : Sound s) (phase : Phase s)
    (clean : s.alreadyCleanUp = false) (h : step literals request s (.read ec data) = some t) :
    Sound t ∧ Phase t := by
  simp only [step] at h
  split at h
  · rename_i outstanding
    cases h
    have busy := not_idle_of_reads outstanding.1
    obtain ⟨_, heard, none⟩ := phase_heard phase busy
    have ended := sound.reads (s.reads - 1)
    unfold notifyRecvData
    split
    · exact disconnect_phase ended (heard clean) none clean
    · have told := notify_sound (.onRecvData data) ended
      refine ⟨⟨told.delegate, told.running, told.held, told.unanswered⟩, .established ?_ ?_ ?_⟩
      · show Established (notify { s with reads := s.reads - 1 } (.onRecvData data)).callbacks
        rw [notify_callbacks _ ended]
        exact established_data (heard clean) data
      · show live (notify { s with reads := s.reads - 1 } (.onRecvData data)) = 0
        rw [notify_live]
        exact none
      · show (notify { s with reads := s.reads - 1 } (.onRecvData data)).alreadyCleanUp = false
        rw [notify_alreadyCleanUp]
        exact clean
  · cases h

theorem written_phase {ec : Int} (sound : Sound s) (phase : Phase s)
    (settled : s.alreadyCleanUp = true → ec = 0)
    (h : step literals request s (.written ec) = some t) : Sound t ∧ Phase t := by
  simp only [step] at h
  split at h
  · rename_i outstanding
    cases h
    have busy := not_idle_of_writes outstanding
    obtain ⟨_, heard, none⟩ := phase_heard phase busy
    have ended := sound.writes (s.writes - 1)
    simp only [notifySendComplete]
    split
    · rename_i error
      have clean : s.alreadyCleanUp = false := by
        by_contra cleaned
        exact error (settled (by simpa using cleaned))
      exact disconnect_phase ended (heard clean) none clean
    · split
      · exact ⟨⟨sound.delegate, sound.running, sound.held, sound.unanswered⟩,
          phase_busy phase busy rfl rfl rfl⟩
      · exact ⟨⟨sound.delegate, sound.running, sound.held, sound.unanswered⟩,
          phase_busy phase busy rfl rfl rfl⟩
  · cases h

theorem clientStep_cases (h : clientStep literals request s event = some t) :
    permitted s event = true ∧ step literals request s event = some t := by
  unfold clientStep at h
  split at h
  · rename_i allowed
    exact ⟨allowed, h⟩
  · cases h

theorem clientStep_phase (holds : Sound s ∧ Phase s) (settled : SettledTransport s event)
    (h : clientStep literals request s event = some t) : Sound t ∧ Phase t := by
  obtain ⟨sound, phase⟩ := holds
  obtain ⟨allowed, h⟩ := clientStep_cases h
  cases event with
  | connect => cases allowed
  | disConnect => cases allowed
  | send buffer =>
    cases h
    exact send_phase sound phase (by simpa [permitted] using allowed)
  | run => exact run_phase sound phase h
  | resolved k code => exact resolved_phase sound phase h
  | connected ec => exact connected_phase sound phase h
  | socks5 inner => exact socks5_phase sound phase h
  | tlsHandshake ec => exact tlsHandshake_phase sound phase h
  | websocketHandshake ec => exact websocketHandshake_phase sound phase h
  | read ec data =>
    have clean : s.alreadyCleanUp = false := by
      by_contra cleaned
      exact (settled (by simpa using cleaned)).1 ec data rfl
    exact read_phase sound phase clean h
  | written ec => exact written_phase sound phase (fun cleaned => (settled cleaned).2 ec rfl) h

theorem closed_again (holds : Sound s ∧ Phase s) (busy : ¬ Idle s)
    (cleaned : s.alreadyCleanUp = true) (callback : Callback)
    (told : t.callbacks = s.callbacks ++ [callback]) : wellFormed t.callbacks = false := by
  obtain ⟨sound, phase⟩ := holds
  rw [told]
  cases phase with
  | early _ _ _ idle => exact absurd idle busy
  | established _ _ clean => rw [clean] at cleaned; cases cleaned
  | closed before heard code last => rw [last]; exact closed_final heard callback
  | failed _ _ _ _ _ idle => exact absurd idle busy

theorem clientStep_unsettled (holds : Sound s ∧ Phase s) (unsettled : ¬ SettledTransport s event)
    (h : clientStep literals request s event = some t) : ¬ wellFormed t.callbacks = true := by
  obtain ⟨_, h⟩ := clientStep_cases h
  have sound := holds.1
  rw [Bool.not_eq_true]
  by_cases cleaned : s.alreadyCleanUp = true
  swap
  · exact absurd (fun dirty => absurd dirty cleaned) unsettled
  have disconnects : ∀ u : State, Sound u → u.callbacks = s.callbacks →
      u.alreadyCleanUp = true → ∀ ec,
      ((u.notifyDisconnect ec).handleCleanUp).callbacks = s.callbacks ++ [.onDisconnect ec] := by
    intro u inner same dirty ec
    rw [handleCleanUp_again (by rw [notifyDisconnect, notify_alreadyCleanUp, dirty]),
      notifyDisconnect, notify_callbacks _ inner, same]
  cases event with
  | read ec data =>
    simp only [step] at h
    split at h
    · rename_i outstanding
      cases h
      have busy := not_idle_of_reads outstanding.1
      have ended := sound.reads (s.reads - 1)
      unfold notifyRecvData
      split
      · exact closed_again holds busy cleaned _ (disconnects _ ended rfl cleaned ec)
      · exact closed_again holds busy cleaned (.onRecvData data) (notify_callbacks _ ended)
    · cases h
  | written ec =>
    simp only [step] at h
    split at h
    · rename_i outstanding
      cases h
      have busy := not_idle_of_writes outstanding
      have ended := sound.writes (s.writes - 1)
      have error : ec ≠ 0 := by
        intro success
        exact unsettled fun _ => ⟨by simp, fun other same => by cases same; exact success⟩
      simp only [notifySendComplete, if_pos error]
      exact closed_again holds busy cleaned _ (disconnects _ ended rfl cleaned ec)
    · cases h
  | _ => exact absurd (fun _ => ⟨by simp, by simp⟩) unsettled

/-- The delegate hears a well-formed sequence all along exactly when, after the clean-up, no read
ends and no write fails. -/
theorem callbacks_iff (h : run (clientStep literals request) opened events = some s) :
    Always (clientStep literals request) (fun s => wellFormed s.callbacks = true) opened events ↔
      EachStep (clientStep literals request) SettledTransport opened events := by
  refine always_iff_eachStep (I := fun s => Sound s ∧ Phase s) ?_ ?_ ?_ opened_phase h
  · exact fun s holds => phase_wellFormed holds.2
  · exact fun s event t holds settled h => clientStep_phase holds settled h
  · exact fun s event t holds unsettled h => clientStep_unsettled holds unsettled h

def plainRequest : NetConnectionRequest := { host := [104], port := 80 }

/-- A plain connection is established and sends one byte. While the write is outstanding, the read
fails. -/
def readFails : List Event :=
  [.run, .run, .resolved 0 0, .connected 0, .send [1], .run, .run, .read 0 [7], .read 104 []]

theorem callbacks_readFails :
    ∃ s, run (clientStep Socks5.noLiterals plainRequest) opened readFails = some s ∧
      s.callbacks = [.onConnect 0, .onRecvData [7], .onDisconnect 104] ∧ s.writes = 1 ∧
      EachStep (clientStep Socks5.noLiterals plainRequest) SettledTransport opened readFails :=
  ⟨_, rfl, rfl, rfl, (callbacks_iff rfl).mp (always_of_passes (by decide))⟩

/-- The clean-up aborts the write, and the delegate is told a second time. -/
theorem callbacks_write_aborted :
    ∃ s, run (clientStep Socks5.noLiterals plainRequest) opened (readFails ++ [.written 125]) =
      some s ∧ s.callbacks = [.onConnect 0, .onRecvData [7], .onDisconnect 104, .onDisconnect 125] ∧
      wellFormed s.callbacks = false :=
  ⟨_, rfl, rfl, by decide⟩

end Kingkong.Connection
