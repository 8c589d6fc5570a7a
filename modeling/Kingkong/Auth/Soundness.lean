import Kingkong.Auth.Model

/-!
What a delegate that is called with 200 can rely on, for any number of requests and any interleaving
of their callbacks. The callbacks run here on a thread that holds no mutex, so that `Cancel`
returns.
-/

namespace Kingkong.Auth
open Lib Locked Http

theorem handleAuthResponse_ok {given : Given} {info : AuthInfo} {httpCode : Nat}
    (ok : (handleAuthResponse given info httpCode).status = 200) :
    httpCode = 200 ∧
      let response := (given.parseFromString (given.base64Decode info.responseData)).2
      response.code = 200 ∧ given.rsaVerify (signatureSource info) (given.base64Decode response.signature) = true := by
  unfold handleAuthResponse at ok
  split at ok
  · rename_i other
    have same : (httpCode : Int) = 200 := ok
    omega
  · rename_i same
    simp only at ok
    split at ok
    · rename_i other
      exact absurd (Int32.toInt_inj.mp (ok.trans rfl)) other
    · rename_i code
      split at ok
      · rename_i verified
        exact ⟨not_not.mp same, not_not.mp code, verified⟩
      · cases ok

@[simp] theorem handleAuthResponse_delegate (given : Given) (info : AuthInfo) (httpCode : Nat) :
    (handleAuthResponse given info httpCode).delegate = info.delegate := by
  unfold handleAuthResponse
  grind

namespace AuthManager

variable {m : AuthManager} {info : AuthInfo} {c : Nat}

def infos (m : AuthManager) : List AuthInfo := m.starting ++ m.authMap.map Prod.snd

def Distinct (infos : List AuthInfo) : Prop := (infos.map (·.httpClient)).Nodup

theorem infos_start (m : AuthManager) (info : AuthInfo) :
    (m.start info).infos.Perm (info :: m.infos) := by
  unfold infos start
  simp

theorem infos_authCancel (id : Int32) : (m.authCancel id).infos.Sublist m.infos :=
  (List.Sublist.refl _).append ((List.filter_sublist).map _)

theorem infos_erase : (m.erase c).infos.Sublist m.infos :=
  (List.Sublist.refl _).append ((List.eraseP_sublist).map _)

/-- Registering moves a request from one list to the other, and may replace the request that had its
number. -/
theorem infos_register (distinct : Distinct m.infos) (member : info ∈ m.starting) :
    ∃ rest, (m.register info).infos.Perm (info :: rest) ∧ rest.Sublist m.infos ∧
      Distinct (info :: rest) := by
  have kept : (m.starting.filter (fun other => other.httpClient != info.httpClient) ++
      (m.authMap.filter fun entry => entry.1 != m.id + 1).map Prod.snd).Sublist m.infos :=
    List.filter_sublist.append (List.filter_sublist.map _)
  refine ⟨_, ?_, kept, List.nodup_cons.mpr ⟨?_, distinct.sublist (kept.map _)⟩⟩
  · unfold infos register
    simp only [List.map_append, List.map_cons, List.map_nil, ← List.append_assoc]
    exact List.perm_append_singleton ..
  · intro again
    obtain ⟨other, present, same⟩ := List.mem_map.mp again
    rcases List.mem_append.mp present with waiting | registered
    · simpa [same] using List.of_mem_filter waiting
    · unfold Distinct infos at distinct
      rw [List.map_append, List.nodup_append] at distinct
      have mapped := (List.filter_sublist.map Prod.snd).subset registered
      exact distinct.2.2 _ (List.mem_map_of_mem member) _ (List.mem_map_of_mem mapped) same.symm

def extend (c : Nat) (content : Bytes) (info : AuthInfo) : AuthInfo :=
  if info.httpClient = c then { info with responseData := info.responseData ++ content } else info

theorem distinct_extend {content : Bytes} {infos : List AuthInfo} (distinct : Distinct infos) :
    Distinct (infos.map (extend c content)) := by
  have client : ∀ info, (extend c content info).httpClient = info.httpClient := by
    intro info
    unfold extend
    split <;> rfl
  unfold Distinct
  rw [List.map_map]
  exact (List.map_congr_left fun info _ => client info) ▸ distinct

theorem appendTo_eq_map {content : Bytes} {entries : List (Int32 × AuthInfo)}
    (distinct : Distinct (entries.map Prod.snd)) :
    (appendTo c content entries).map Prod.snd =
      (entries.map Prod.snd).map (extend c content) := by
  induction entries with
  | nil => rfl
  | cons entry rest ih =>
    obtain ⟨absent, distinct⟩ := List.nodup_cons.mp distinct
    by_cases own : entry.2.httpClient = c
    · -- No later entry has the client, so the rest stays as it is where the loop stops.
      have others : (rest.map Prod.snd).map (extend c content) = rest.map Prod.snd := by
        refine (List.map_congr_left fun info member => if_neg ?_).trans (List.map_id _)
        intro same
        exact absent (List.mem_map.mpr ⟨info, member, same.trans own.symm⟩)
      rw [List.map_cons, List.map_cons, others]
      simp [appendTo, isOf, own, extend]
    · rw [List.map_cons, List.map_cons, ← ih distinct]
      simp [appendTo, isOf, own, extend]

theorem infos_append (content : Bytes) (distinct : Distinct m.infos)
    (registered : ∀ info ∈ m.starting, info.httpClient ≠ c) :
    (m.append c content).infos = m.infos.map (extend c content) := by
  unfold Distinct infos at distinct
  rw [List.map_append, List.nodup_append] at distinct
  have starting : m.starting.map (extend c content) = m.starting :=
    (List.map_congr_left fun info member => if_neg (registered info member)).trans (List.map_id _)
  unfold infos append
  rw [List.map_append, starting]
  exact congrArg _ (appendTo_eq_map distinct.2.1)

theorem mem_of_find (found : m.find c = some info) : info ∈ m.infos := by
  obtain ⟨entry, first, rfl⟩ := Option.map_eq_some_iff.mp found
  exact List.mem_append_right _ (List.mem_map_of_mem (List.mem_of_find?_eq_some first))

end AuthManager

/-- `requests` has what each request was started with. -/
structure Session where
  thread : Thread AuthManager := AuthManager.initial
  requests : Nat → Option AuthInfo := fun _ => none

namespace Session

inductive Event where
  | request (c : Nat) (productType version : Int32) (token randomId : Bytes)
  | register (c : Nat)
  | cancel (id : Int32)
  | response (c : Nat) (content : Bytes)
  | complete (c : Nat) (httpCode : Nat)

abbrev client (s : Session) (c : Nat) : Client := s.thread.system.clients c

abbrev manager (s : Session) : AuthManager := s.thread.system.delegate

/-- A client makes callbacks from `Request` on, as long as it has its delegate. -/
def Open (s : Session) (c : Nat) : Prop :=
  s.thread.stuck = none ∧ (s.requests c).isSome ∧ (s.client c).delegate = true

instance (s : Session) (c : Nat) : Decidable (s.Open c) := inferInstanceAs (Decidable (_ ∧ _ ∧ _))

def step (given : Given) (s : Session) : Event → Option Session
  | .request c productType version token randomId =>
    (AuthManager.step given (fun _ => none) s.thread (.request c productType version token randomId)).map fun thread =>
      { thread := thread
        requests := Function.update s.requests c (some (authInfo c productType version token randomId)) }
  | .register c =>
    (AuthManager.step given (fun _ => none) s.thread (.register c)).map fun thread => { s with thread := thread }
  | .cancel id =>
    (AuthManager.step given (fun _ => none) s.thread (.cancel id)).map fun thread => { s with thread := thread }
  | .response c content =>
    if s.Open c then
      some { s with thread := s.thread.perform (do piece c content; AuthManager.onHttpResponse c content) }
    else none
  | .complete c httpCode =>
    if s.Open c then
      some { s with
        thread := s.thread.perform (do
          setClient c fun client => { client with httpCode := httpCode }
          AuthManager.onHttpComplete given c httpCode) }
    else none

/-- What `ParseFromString` makes of all that was delivered for a client. -/
def received (given : Given) (client : Client) : Bool × Response :=
  given.parseFromString (given.base64Decode client.body)

/-- The request may be granted, by the status and the chunks of its client and by its own data. -/
def Granted (given : Given) (request : Option AuthInfo) (client : Client) : Prop :=
  ∃ info, request = some info ∧ client.httpCode = 200 ∧ (received given client).2.code = 200 ∧
    given.rsaVerify (signatureSource info) (given.base64Decode (received given client).2.signature) = true

/-- A delegate is called with 200 only when its own request may be granted. -/
def Authorized (given : Given) (s : Session) : Prop :=
  ∀ call ∈ s.manager.calls, call.status = 200 → Granted given (s.requests call.delegate) (s.client call.delegate)

/-- A delegate is called with 200 only when what was delivered for its request is a response. -/
def Parsed (given : Given) (s : Session) : Prop :=
  ∀ call ∈ s.manager.calls, call.status = 200 → (received given (s.client call.delegate)).1 = true

/-- No chunk arrives for a request that is not registered yet. -/
def Registered (s : Session) : Event → Prop
  | .response c _ => ∀ info ∈ s.manager.starting, info.httpClient ≠ c
  | _ => True

/-- The data of a request that completes with 200 is a response. -/
def Wellformed (given : Given) (s : Session) : Event → Prop
  | .complete c httpCode =>
    httpCode = 200 → ∀ info, s.manager.find c = some info →
      (given.parseFromString (given.base64Decode info.responseData)).1 = true
  | _ => True

variable {given : Given} {strict : Prop} {s : Session} {info : AuthInfo} {c : Nat}

/-- The manager's view of a request is what was started, with the chunks that were delivered. -/
structure Tracked (requests : Nat → Option AuthInfo) (clients : Nat → Client) (info : AuthInfo) :
    Prop where
  request : requests info.httpClient = some { info with responseData := [] }
  own : info.delegate = info.httpClient
  data : info.responseData = (clients info.httpClient).body

theorem Tracked.keep {requests : Nat → Option AuthInfo} {clients : Nat → Client} {next : Client}
    (tracked : Tracked requests clients info) (body : next.body = (clients info.httpClient).body) :
    Tracked (fun _ => requests info.httpClient) (fun _ => next) info :=
  ⟨tracked.request, tracked.own, tracked.data.trans body.symm⟩

/-- A granted request whose client makes no more callbacks. -/
structure Sealed (given : Given) (strict : Prop) (request : Option AuthInfo) (client : Client) :
    Prop where
  granted : Granted given request client
  parsed : strict → (received given client).1 = true
  silent : client.delegate = false

structure Inv (given : Given) (strict : Prop) (s : Session) : Prop where
  fresh : ∀ c, (s.client c).stage = .created → s.requests c = none ∧ (s.client c).body = []
  tracked : ∀ info ∈ s.manager.infos, Tracked s.requests s.client info
  distinct : AuthManager.Distinct s.manager.infos
  granted : ∀ call ∈ s.manager.calls, call.status = 200 →
    Sealed given strict (s.requests call.delegate) (s.client call.delegate)

def withManager (s : Session) (m : AuthManager) : Session :=
  { s with thread := { system := { s.thread.system with delegate := m } } }

theorem Inv.withManager {m : AuthManager} (inv : Inv given strict s)
    (tracked : ∀ info ∈ m.infos, info ∈ s.manager.infos) (distinct : AuthManager.Distinct m.infos)
    (calls : m.calls = s.manager.calls) : Inv given strict (s.withManager m) where
  fresh := inv.fresh
  tracked info member := inv.tracked info (tracked info member)
  distinct := distinct
  granted call member := inv.granted call (calls ▸ member)

theorem Inv.register (inv : Inv given strict s) (member : info ∈ s.manager.starting) :
    Inv given strict (s.withManager (s.manager.register info)) := by
  obtain ⟨rest, same, kept, distinct⟩ := AuthManager.infos_register inv.distinct member
  apply inv.withManager
  · intro other present
    rcases List.mem_cons.mp (same.mem_iff.mp present) with rfl | present
    · exact List.mem_append_left _ member
    · exact kept.subset present
  · exact ((same.map _).nodup_iff).mpr distinct
  · rfl

theorem Inv.authCancel (inv : Inv given strict s) (id : Int32) :
    Inv given strict (s.withManager (s.manager.authCancel id)) :=
  have kept := AuthManager.infos_authCancel (m := s.manager) id
  inv.withManager (fun _ member => kept.subset member) (inv.distinct.sublist (kept.map _)) rfl

theorem Inv.known (inv : Inv given strict s) (member : info ∈ s.manager.infos) :
    s.requests info.httpClient ≠ none := by
  rw [(inv.tracked info member).request]
  exact Option.some_ne_none _

def withClient (s : Session) (c : Nat) (next : Client) (request : Option AuthInfo)
    (m : AuthManager) :
    Session where
  thread := { system := { s.thread.system.set c next with delegate := m } }
  requests := Function.update s.requests c request

section WithClient

variable {next : Client} {request : Option AuthInfo} {m : AuthManager} {other : Nat}

@[simp] theorem withClient_client : (s.withClient c next request m).client c = next := set_clients

@[simp] theorem withClient_requests : (s.withClient c next request m).requests c = request :=
  Function.update_self ..

theorem withClient_client_other (different : other ≠ c) :
    (s.withClient c next request m).client other = s.client other := set_other different

theorem withClient_requests_other (different : other ≠ c) :
    (s.withClient c next request m).requests other = s.requests other :=
  Function.update_of_ne different ..

theorem withClient_same : s.withClient c next (s.requests c) m =
    { s with thread := { system := { s.thread.system.set c next with delegate := m } } } := by
  unfold withClient
  rw [Function.update_eq_self]

theorem Inv.withClient (inv : Inv given strict s)
    (started : next.stage = .created → request = none ∧ next.body = [])
    (tracked : ∀ info ∈ m.infos, info.httpClient = c ∧
      Tracked (fun _ => request) (fun _ => next) info ∨ info.httpClient ≠ c ∧
      info ∈ s.manager.infos)
    (distinct : AuthManager.Distinct m.infos)
    (granted : ∀ call ∈ m.calls, call.status = 200 → call.delegate = c ∧
      Sealed given strict request next ∨ call.delegate ≠ c ∧ call ∈ s.manager.calls) :
    Inv given strict (s.withClient c next request m) where
  fresh other := by
    by_cases same : other = c
    · rw [same, withClient_client, withClient_requests]
      exact started
    · rw [withClient_client_other same, withClient_requests_other same]
      exact inv.fresh other
  tracked info member := by
    rcases tracked info member with ⟨rfl, own⟩ | ⟨different, known⟩
    · exact ⟨withClient_requests.trans own.request, own.own,
        own.data.trans (by rw [withClient_client])⟩
    · obtain ⟨request, own, data⟩ := inv.tracked info known
      exact ⟨(withClient_requests_other different).trans request, own,
        data.trans (by rw [withClient_client_other different])⟩
  distinct := distinct
  granted call member ok := by
    rcases granted call member ok with ⟨rfl, own⟩ | ⟨different, before⟩
    · rw [withClient_client, withClient_requests]
      exact own
    · rw [withClient_client_other different, withClient_requests_other different]
      exact inv.granted call before ok

end WithClient

/-- A request that was granted is not the one of a client that makes callbacks, or that is new. -/
theorem Inv.call_other (inv : Inv given strict s) {call : DelegateCall}
    (member : call ∈ s.manager.calls) (ok : call.status = 200)
    (active : s.requests c = none ∨ (s.client c).delegate = true) : call.delegate ≠ c := by
  rintro rfl
  obtain ⟨⟨info, request, _⟩, _, silent⟩ := inv.granted call member ok
  rcases active with absent | attached
  · rw [absent] at request
    cases request
  · rw [silent] at attached
    cases attached

theorem Inv.request (inv : Inv given strict s) (created : (s.client c).stage = .created)
    {next : Client} (body : next.body = []) (requested : next.stage ≠ .created)
    (client : info.httpClient = c) (own : info.delegate = c) (empty : info.responseData = []) :
    Inv given strict (s.withClient c next (some info) (s.manager.start info)) := by
  obtain ⟨absent, _⟩ := inv.fresh c created
  have other : ∀ known ∈ s.manager.infos, known.httpClient ≠ c := by
    intro known member same
    exact inv.known member (same ▸ absent)
  have same := AuthManager.infos_start s.manager info
  apply inv.withClient
  · exact fun created => absurd created requested
  · intro known member
    rcases List.mem_cons.mp (same.mem_iff.mp member) with rfl | member
    · refine .inl ⟨client, ?_, own.trans client.symm, empty.trans body.symm⟩
      rw [← empty]
    · exact .inr ⟨other known member, member⟩
  · refine ((same.map _).nodup_iff).mpr (List.nodup_cons.mpr ⟨?_, inv.distinct⟩)
    intro again
    obtain ⟨known, member, clash⟩ := List.mem_map.mp again
    exact other known member (clash.trans client)
  · exact fun call member ok => .inr ⟨inv.call_other member ok (.inl absent), member⟩

theorem Inv.response (inv : Inv given strict s) (isOpen : s.Open c) (content : Bytes)
    (registered : ∀ info ∈ s.manager.starting, info.httpClient ≠ c) :
    Inv given strict (s.withClient c { s.client c with body := (s.client c).body ++ content } (s.requests c)
      (s.manager.append c content)) := by
  obtain ⟨_, started, attached⟩ := isOpen
  have infos := AuthManager.infos_append content inv.distinct registered
  apply inv.withClient
  · intro created
    simp [(inv.fresh c created).1] at started
  · intro known member
    rw [infos] at member
    obtain ⟨info, present, rfl⟩ := List.mem_map.mp member
    obtain ⟨request, own, data⟩ := inv.tracked info present
    by_cases same : info.httpClient = c
    · subst same
      rw [AuthManager.extend, if_pos rfl]
      exact .inl ⟨rfl, request, own, by simp [data]⟩
    · rw [AuthManager.extend, if_neg same]
      exact .inr ⟨same, present⟩
  · rw [infos]
    exact AuthManager.distinct_extend inv.distinct
  · exact fun call member ok => .inr ⟨inv.call_other member ok (.inr attached), member⟩

theorem Inv.complete_absent (inv : Inv given strict s) (isOpen : s.Open c) (httpCode : Nat) :
    Inv given strict (s.withClient c { s.client c with httpCode := httpCode } (s.requests c) s.manager) := by
  obtain ⟨_, _, attached⟩ := isOpen
  apply inv.withClient
  · exact inv.fresh c
  · intro info member
    by_cases same : info.httpClient = c
    · subst same
      exact .inl ⟨rfl, (inv.tracked info member).keep rfl⟩
    · exact .inr ⟨same, member⟩
  · exact inv.distinct
  · exact fun call member ok => .inr ⟨inv.call_other member ok (.inr attached), member⟩

/-- What the delegate is told rests on the chunks that its entry has, and these are all that were
delivered. -/
theorem Inv.complete_found {httpCode : Nat} (inv : Inv given strict s) (isOpen : s.Open c)
    (found : s.manager.find c = some info)
    (wellformed : strict → httpCode = 200 →
      (given.parseFromString (given.base64Decode info.responseData)).1 = true) :
    Inv given strict (s.withClient c (cancelled { s.client c with httpCode := httpCode }) (s.requests c)
      ((s.manager.called (handleAuthResponse given info httpCode)).erase c)) := by
  obtain ⟨_, _, attached⟩ := isOpen
  have member := AuthManager.mem_of_find found
  have client := AuthManager.find_httpClient found
  obtain ⟨request, own, data⟩ := inv.tracked info member
  have kept := AuthManager.infos_erase (c := c) (m := s.manager)
  obtain ⟨stage, _, code, body⟩ := cancelled_message { s.client c with httpCode := httpCode }
  have silent : (cancelled { s.client c with httpCode := httpCode }).delegate = false := by
    unfold cancelled
    split <;> rfl
  generalize cancelled { s.client c with httpCode := httpCode } = next at *
  apply inv.withClient
  · intro created
    obtain ⟨absent, empty⟩ := inv.fresh c (stage ▸ created)
    exact ⟨absent, body.trans empty⟩
  · intro other present
    have known := kept.subset present
    by_cases same : other.httpClient = c
    · subst same
      exact .inl ⟨rfl, (inv.tracked other known).keep body⟩
    · exact .inr ⟨same, known⟩
  · exact inv.distinct.sublist (kept.map _)
  · intro call called ok
    rcases List.mem_append.mp called with before | now
    · exact .inr ⟨inv.call_other before ok (.inr attached), before⟩
    · cases List.mem_singleton.mp now
      obtain ⟨status, accepted, verified⟩ := handleAuthResponse_ok ok
      have all : received given next =
          given.parseFromString (given.base64Decode info.responseData) := by
        rw [received, body, data, client]
      refine .inl ⟨(handleAuthResponse_delegate ..).trans (own.trans client), ⟨_, client ▸ request,
        code.trans status, ?_, ?_⟩, ?_, silent⟩
      · rw [all]
        exact accepted
      · rw [all]
        exact verified
      · intro strictly
        rw [all]
        exact wellformed strictly status

/-- What an event does to its client, the requests and the manager. -/
inductive Moved (given : Given) (s : Session) : Event → Session → Prop where
  | request {c : Nat} {productType version : Int32} {token randomId : Bytes} (created : (s.client c).stage = .created) :
      Moved given s (.request c productType version token randomId)
        (s.withClient c { s.client c with stage := .requested } (some (authInfo c productType version token randomId))
          (s.manager.start (authInfo c productType version token randomId)))
  | register {c : Nat} {info : AuthInfo} (waiting : info ∈ s.manager.starting) (own : info.httpClient = c) :
      Moved given s (.register c) (s.withManager (s.manager.register info))
  | cancel {id : Int32} : Moved given s (.cancel id) (s.withManager (s.manager.authCancel id))
  | response {c : Nat} {content : Bytes} (isOpen : s.Open c) :
      Moved given s (.response c content)
        (s.withClient c { s.client c with body := (s.client c).body ++ content } (s.requests c)
          (s.manager.append c content))
  | absent {c httpCode : Nat} (isOpen : s.Open c) (absent : s.manager.find c = none) :
      Moved given s (.complete c httpCode)
        (s.withClient c { s.client c with httpCode := httpCode } (s.requests c) s.manager)
  | found {c httpCode : Nat} {info : AuthInfo} (isOpen : s.Open c) (found : s.manager.find c = some info) :
      Moved given s (.complete c httpCode)
        (s.withClient c (cancelled { s.client c with httpCode := httpCode }) (s.requests c)
          ((s.manager.called (handleAuthResponse given info httpCode)).erase c))

theorem step_moved {event : Event} {after : Session} (h : step given s event = some after) :
    Moved given s event after := by
  cases event with
  | request c productType version token randomId =>
    obtain ⟨thread, stepped, rfl⟩ := Option.map_eq_some_iff.mp h
    obtain ⟨⟨_, created⟩, started⟩ := Option.ite_none_right_eq_some.mp stepped
    cases started
    exact .request created
  | register c =>
    obtain ⟨thread, stepped, rfl⟩ := Option.map_eq_some_iff.mp h
    obtain ⟨_, found⟩ := Option.ite_none_right_eq_some.mp stepped
    obtain ⟨info, first, moved⟩ := Option.map_eq_some_iff.mp found
    cases moved
    exact .register (List.mem_of_find?_eq_some first) (by simpa using List.find?_some first)
  | cancel id =>
    obtain ⟨thread, stepped, rfl⟩ := Option.map_eq_some_iff.mp h
    obtain ⟨_, cancelled⟩ := Option.ite_none_right_eq_some.mp stepped
    cases cancelled
    exact .cancel
  | response c content =>
    obtain ⟨isOpen, same⟩ := Option.ite_none_right_eq_some.mp h
    cases same
    have moved : Moved given s (.response c content) _ := .response isOpen
    rw [withClient_same] at moved
    exact moved
  | complete c httpCode =>
    obtain ⟨isOpen, same⟩ := Option.ite_none_right_eq_some.mp h
    cases same
    rw [Thread.perform, setClient_bind]
    cases found : s.manager.find c with
    | none =>
      have moved : Moved given s (.complete c httpCode) _ := .absent isOpen found
      rw [withClient_same] at moved
      rw [AuthManager.onHttpComplete_absent (s := s.thread.system.set c _) List.not_mem_nil found]
      exact moved
    | some info =>
      have moved : Moved given s (.complete c httpCode) _ := .found isOpen found
      rw [withClient_same] at moved
      rw [AuthManager.onHttpComplete_returns (s := s.thread.system.set c _) List.not_mem_nil found List.not_mem_nil
        List.not_mem_nil, set_clients, set_set]
      exact moved

theorem inv_initial : Inv given strict {} where
  fresh _ _ := ⟨rfl, rfl⟩
  tracked := nofun
  distinct := List.nodup_nil
  granted := nofun

/-- The condition under which a step is sound, also of the parse when `strict`. -/
def Careful (given : Given) (strict : Prop) (s : Session) (event : Event) : Prop :=
  Registered s event ∧ (strict → Wellformed given s event)

theorem step_keeps {event : Event} {after : Session} (inv : Inv given strict s)
    (careful : Careful given strict s event) (h : step given s event = some after) :
    Inv given strict after := by
  obtain ⟨registered, wellformed⟩ := careful
  cases step_moved h with
  | request created => exact inv.request created (inv.fresh _ created).2 nofun rfl rfl rfl
  | register waiting own => exact inv.register waiting
  | cancel => exact inv.authCancel _
  | response isOpen => exact inv.response isOpen _ registered
  | absent isOpen absent => exact inv.complete_absent isOpen _
  | found isOpen found => exact inv.complete_found isOpen found fun strictly ok => wellformed strictly ok _ found

/-- In every run in which no chunk arrives before its request is registered, a delegate is called
with 200 only when its own request may be granted. When `ParseFromString` also accepts the data of
every request that completes with 200, the delivered bytes are a response. -/
theorem authorization_sound (given : Given) (events : List Event) :
    (EachStep (step given) Registered {} events →
      Always (step given) (Authorized given) {} events) ∧
    (EachStep (step given) (fun s event => Registered s event ∧
      Wellformed given s event) {} events →
      Always (step given) (fun s => Authorized given s ∧ Parsed given s) {} events) := by
  constructor
  · intro each
    refine always_under (I := Inv given False) (C := Careful given False) ?_ ?_ inv_initial ?_
    · exact fun s inv call member ok => (inv.granted call member ok).granted
    · exact fun s event after inv careful h => step_keeps inv careful h
    · exact fun before event after t split reached => ⟨each before event after t split reached,
        False.elim⟩
  · intro each
    refine always_under (I := Inv given True) (C := Careful given True) ?_ ?_ inv_initial ?_
    · intro s inv
      exact ⟨fun call member ok => (inv.granted call member ok).granted,
        fun call member ok => (inv.granted call member ok).parsed trivial⟩
    · exact fun s event after inv careful h => step_keeps inv careful h
    · intro before event after t split reached
      obtain ⟨registered, wellformed⟩ := each before event after t split reached
      exact ⟨registered, fun _ => wellformed⟩

def accepting : Bytes := [8, 200, 1, 18, 4, 79, 81, 61, 61]

def refusing : Bytes := [8, 147, 3, 18, 0]

/-- Base64, the parser and a key that signs with the byte `9`, at the data of the runs below. The
parser keeps the fields that it has read before it fails. -/
def sample : Given where
  base64Decode data :=
    if data = [67, 77, 103, 66, 69, 103, 82, 80, 85, 84, 48, 57] then accepting
    else if data = [67, 77, 103, 66, 69, 103, 82, 80, 85, 84, 48, 57, 66, 119, 61, 61] then accepting ++ [7]
    else if data = [65, 65, 65, 65, 67, 77, 103, 66, 69, 103, 82, 80, 85, 84, 48, 57] then [0, 0, 0] ++ accepting
    else if data = [67, 74, 77, 68, 69, 103, 65, 61] then refusing
    else if data = [79, 81, 61, 61] then [57]
    else []
  parseFromString data :=
    if data = accepting then (true, { code := 200, signature := [79, 81, 61, 61] })
    else if data = accepting ++ [7] then (false, { code := 200, signature := [79, 81, 61, 61] })
    else if data = refusing then (true, { code := 403 })
    else (false, {})
  rsaVerify _ signature := signature == [57]

/-- The first request gets its response in two chunks, the second one is refused in between. -/
def twoRequests : List Event :=
  [.request 0 0 1 [] [], .request 1 0 1 [] [], .register 1, .register 0, .response 0 [67, 77, 103, 66],
    .response 1 [67, 74, 77, 68, 69, 103, 65, 61], .response 0 [69, 103, 82, 80, 85, 84, 48, 57], .complete 1 200,
    .complete 0 200]

theorem authorization_sound_two :
    ∃ s, run (step sample) {} twoRequests = some s ∧
      s.manager.calls = [⟨1, 403, []⟩, ⟨0, 200, []⟩] ∧ Authorized sample s ∧ Parsed sample s := by
  have each : EachStep (step sample) (fun s event => Registered s event ∧
      Wellformed sample s event) {} twoRequests := by
    iterate 4 refine (eachStep_cons rfl).mpr ⟨⟨trivial, trivial⟩, ?_⟩
    iterate 3 refine (eachStep_cons rfl).mpr ⟨⟨nofun, trivial⟩, ?_⟩
    iterate 2
      refine (eachStep_cons rfl).mpr ⟨⟨trivial, ?_⟩, ?_⟩
      · intro _ info found
        cases found
        rfl
    exact eachStep_nil
  exact ⟨_, rfl, rfl, (authorization_sound sample twoRequests).2 each twoRequests [] _ rfl rfl⟩

/-- A chunk that arrives before the registration is lost, and the rest is a response although the
whole is not. And data with a malformed byte at its end is taken for a response, as the result of
the parse is not looked at. -/
theorem authorization_unsound :
    (∃ s, run (step sample) {}
        [.request 0 0 1 [] [], .response 0 [65, 65, 65, 65], .register 0,
          .response 0 [67, 77, 103, 66, 69, 103, 82, 80, 85, 84, 48, 57],
          .complete 0 200] = some s ∧
      s.manager.calls = [⟨0, 200, []⟩] ∧ ¬ Authorized sample s) ∧
    ∃ s, run (step sample) {}
        [.request 0 0 1 [] [], .register 0,
          .response 0 [67, 77, 103, 66, 69, 103, 82, 80, 85, 84, 48, 57, 66, 119, 61, 61],
          .complete 0 200] = some s ∧
      s.manager.calls = [⟨0, 200, []⟩] ∧ ¬ Parsed sample s := by
  refine ⟨⟨_, rfl, rfl, ?_⟩, _, rfl, rfl, ?_⟩
  · intro authorized
    obtain ⟨info, _, _, code, _⟩ := authorized ⟨0, 200, []⟩ (List.mem_singleton.mpr rfl) rfl
    exact absurd code (by decide)
  · intro parsed
    exact absurd (parsed ⟨0, 200, []⟩ (List.mem_singleton.mpr rfl) rfl) (by decide)

end Session

end Kingkong.Auth
