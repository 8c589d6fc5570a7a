import Kingkong.Auth.Soundness

/-!
The requests in the eyes of their callers. A ledger has the id that `AuthRequest` returned for each
request, whether the request was cancelled, whether `OnHttpComplete` was processed for its client,
and the callbacks that came after its cancellation. What it says agrees with `auth_map_` in every
run.
-/

namespace Kingkong.Auth
open Lib Http

namespace AuthManager

variable {m : AuthManager} {info : AuthInfo} {c : Nat}

/-- What no callback changes in an entry. -/
def tag (entry : Int32 × AuthInfo) : Int32 × Nat × Nat :=
  (entry.1, entry.2.httpClient, entry.2.delegate)

theorem appendTo_tag (content : Bytes) (entries : List (Int32 × AuthInfo)) :
    (appendTo c content entries).map tag = entries.map tag := by
  induction entries with
  | nil => rfl
  | cons entry rest ih =>
    unfold appendTo
    split
    · rfl
    · rw [List.map_cons, List.map_cons, ih]

theorem infos_clients : m.infos.map (·.httpClient) =
    m.starting.map (·.httpClient) ++ (m.authMap.map tag).map (·.2.1) := by
  simp [infos, tag]

theorem distinct_append (content : Bytes) (distinct : Distinct m.infos) :
    Distinct (m.append c content).infos := by
  unfold Distinct at distinct ⊢
  rw [infos_clients] at distinct ⊢
  rw [show (m.append c content).authMap.map tag = m.authMap.map tag from appendTo_tag content m.authMap]
  exact distinct

theorem mem_infos_of_entry {entry : Int32 × AuthInfo} (member : entry ∈ m.authMap) :
    entry.2 ∈ m.infos :=
  List.mem_append_right _ (List.mem_map_of_mem member)

/-- A client has one request, and so it has none when its entry is gone. -/
theorem erase_absent (distinct : Distinct m.infos) (found : m.find c = some info) :
    ∀ other ∈ (m.erase c).infos, other.httpClient ≠ c := by
  obtain ⟨entry, first, rfl⟩ := Option.map_eq_some_iff.mp found
  obtain ⟨erased, before, after, _, own, split, left⟩ :=
    List.exists_of_eraseP (List.mem_of_find?_eq_some first) (List.find?_some first)
  have client : erased.2.httpClient = c := by simpa [isOf] using own
  have order : m.infos.Perm (erased.2 :: (m.erase c).infos) := by
    simp only [infos, erase, left]
    rw [split, List.map_append, List.map_cons, List.map_append, ← List.append_assoc,
      ← List.append_assoc]
    exact List.perm_middle
  have unique := List.nodup_cons.mp ((order.map AuthInfo.httpClient).nodup_iff.mp distinct)
  intro other member same
  exact unique.1 (List.mem_map.mpr ⟨other, member, same.trans client.symm⟩)

end AuthManager

structure Ledger where
  session : Session := {}
  ids : Nat → Option Int32 := fun _ => none
  cancelled : Nat → Bool := fun _ => false
  completed : Nat → Bool := fun _ => false
  late : List Nat := []

namespace Ledger

abbrev client (l : Ledger) (c : Nat) : Client := l.session.client c

abbrev manager (l : Ledger) : AuthManager := l.session.manager

/-- A callback for the client. -/
def called (l : Ledger) (c : Nat) : List Nat := if l.cancelled c then l.late ++ [c] else l.late

def record (l : Ledger) (event : Session.Event) (after : Session) : Ledger :=
  match event with
  | .request .. => { l with session := after }
  | .register c => { l with session := after, ids := Function.update l.ids c (some after.manager.id) }
  | .cancel id => { l with session := after, cancelled := fun c => l.cancelled c || l.ids c == some id }
  | .response c _ => { l with session := after, late := l.called c }
  | .complete c _ =>
    { l with session := after, completed := Function.update l.completed c true, late := l.called c }

def step (given : Given) (l : Ledger) (event : Session.Event) : Option Ledger :=
  (Session.step given l.session event).map (l.record event)

/-- `auth_map_` and the clients agree with the ids that were returned and the requests that were
cancelled. -/
structure Book (s : Session) (ids : Nat → Option Int32) (cancelled : Nat → Bool) : Prop where
  distinct : AuthManager.Distinct s.manager.infos
  own : ∀ info ∈ s.manager.infos, info.delegate = info.httpClient
  live : ∀ info ∈ s.manager.infos, (s.client info.httpClient).stage ≠ .created ∧
    (s.client info.httpClient).delegate = true ∧ (s.client info.httpClient).stoped = false
  waiting : ∀ info ∈ s.manager.starting, ids info.httpClient = none
  keyed : ∀ entry ∈ s.manager.authMap, ids entry.2.httpClient = some entry.1
  created : ∀ c, (s.client c).stage = .created →
    (s.client c).delegate = true ∧ (s.client c).stoped = false ∧ ids c = none
  cancelled : ∀ c, cancelled c = true → ids c ≠ none ∧ ∀ entry ∈ s.manager.authMap, entry.2.httpClient ≠ c
  uncalled : ∀ c, (s.client c).delegate = true → ∀ call ∈ s.manager.calls, call.delegate ≠ c

variable {given : Given} {s after : Session} {ids : Nat → Option Int32} {cancelled : Nat → Bool} {event : Session.Event}
  {info : AuthInfo} {c : Nat}

theorem initial_book : Book {} (fun _ => none) (fun _ => false) where
  distinct := List.nodup_nil
  own := nofun
  live := nofun
  waiting := nofun
  keyed := nofun
  created _ _ := ⟨rfl, rfl, rfl⟩
  cancelled := nofun
  uncalled _ _ := nofun

/-- The part of a client that the ledger depends on. -/
def status (client : Client) : Stage × Bool × Bool := (client.stage, client.delegate, client.stoped)

/-- The manager loses requests, or changes only what the ledger does not look at. -/
theorem Book.narrow (book : Book s ids cancelled)
    (same : ∀ c, status (after.client c) = status (s.client c))
    (starting : ∀ info ∈ after.manager.starting, info ∈ s.manager.starting)
    (entries : ∀ entry ∈ after.manager.authMap,
      AuthManager.tag entry ∈ s.manager.authMap.map AuthManager.tag)
    (distinct : AuthManager.Distinct after.manager.infos)
    (calls : after.manager.calls = s.manager.calls) :
    Book after ids cancelled := by
  have stage : ∀ c, (after.client c).stage = (s.client c).stage := fun c => congrArg (·.1) (same c)
  have delegate : ∀ c, (after.client c).delegate = (s.client c).delegate :=
    fun c => congrArg (·.2.1) (same c)
  have stoped : ∀ c, (after.client c).stoped = (s.client c).stoped :=
    fun c => congrArg (·.2.2) (same c)
  have known : ∀ info ∈ after.manager.infos,
      ∃ other ∈ s.manager.infos, other.httpClient = info.httpClient ∧ other.delegate = info.delegate := by
    intro info member
    rcases List.mem_append.mp member with waits | registered
    · exact ⟨info, List.mem_append_left _ (starting info waits), rfl, rfl⟩
    · obtain ⟨entry, present, rfl⟩ := List.mem_map.mp registered
      obtain ⟨other, before, tags⟩ := List.mem_map.mp (entries entry present)
      exact ⟨other.2, AuthManager.mem_infos_of_entry before, congrArg (·.2.1) tags,
        congrArg (·.2.2) tags⟩
  refine ⟨distinct, ?_, ?_, ?_, ?_, ?_, ?_, ?_⟩
  · intro info member
    obtain ⟨other, before, client, own⟩ := known info member
    rw [← client, ← own]
    exact book.own other before
  · intro info member
    obtain ⟨other, before, client, _⟩ := known info member
    rw [stage, delegate, stoped, ← client]
    exact book.live other before
  · exact fun info member => book.waiting info (starting info member)
  · intro entry member
    obtain ⟨other, before, tags⟩ := List.mem_map.mp (entries entry member)
    have keyed := book.keyed other before
    rwa [show other.2.httpClient = entry.2.httpClient from congrArg (·.2.1) tags,
      show other.1 = entry.1 from congrArg (·.1) tags] at keyed
  · intro c created
    rw [delegate, stoped]
    exact book.created c ((stage c).symm.trans created)
  · intro c gone
    obtain ⟨issued, absent⟩ := book.cancelled c gone
    refine ⟨issued, ?_⟩
    intro entry member
    obtain ⟨other, before, tags⟩ := List.mem_map.mp (entries entry member)
    rw [← show other.2.httpClient = entry.2.httpClient from congrArg (·.2.1) tags]
    exact absent other before
  · intro c attached
    rw [calls]
    exact book.uncalled c ((delegate c).symm.trans attached)

theorem status_withClient {next : Client} {request : Option AuthInfo} {m : AuthManager}
    (same : status next = status (s.client c)) (other : Nat) :
    status ((s.withClient c next request m).client other) = status (s.client other) := by
  by_cases own : other = c
  · rw [own, Session.withClient_client]
    exact same
  · rw [Session.withClient_client_other own]

theorem Book.request {next : Client} (book : Book s ids cancelled)
    (fresh : (s.client c).stage = .created) (stage : next.stage = .requested)
    (delegate : next.delegate = (s.client c).delegate) (stoped : next.stoped = (s.client c).stoped)
    (client : info.httpClient = c) (own : info.delegate = c) :
    Book (s.withClient c next (some info) (s.manager.start info)) ids cancelled := by
  obtain ⟨attached, running, unissued⟩ := book.created c fresh
  have other : ∀ known ∈ s.manager.infos, known.httpClient ≠ c := by
    intro known member same
    exact (book.live known member).1 (same ▸ fresh)
  have order := AuthManager.infos_start s.manager info
  refine ⟨?_, ?_, ?_, ?_, book.keyed, ?_, book.cancelled, ?_⟩
  · refine ((order.map _).nodup_iff).mpr (List.nodup_cons.mpr ⟨?_, book.distinct⟩)
    intro again
    obtain ⟨known, member, clash⟩ := List.mem_map.mp again
    exact other known member (clash.trans client)
  · intro known member
    rcases List.mem_cons.mp (order.mem_iff.mp member) with rfl | before
    · exact own.trans client.symm
    · exact book.own known before
  · intro known member
    rcases List.mem_cons.mp (order.mem_iff.mp member) with rfl | before
    · rw [client, Session.withClient_client, stage]
      exact ⟨by decide, delegate.trans attached, stoped.trans running⟩
    · rw [Session.withClient_client_other (other known before)]
      exact book.live known before
  · intro known member
    rcases List.mem_append.mp member with before | new
    · exact book.waiting known before
    · rw [List.mem_singleton.mp new, client]
      exact unissued
  · intro d created
    by_cases same : d = c
    · rw [same, Session.withClient_client, stage] at created
      cases created
    · rw [Session.withClient_client_other same] at created ⊢
      exact book.created d created
  · intro d attachedNow
    by_cases same : d = c
    · rw [same]
      exact book.uncalled c attached
    · rw [Session.withClient_client_other same] at attachedNow
      exact book.uncalled d attachedNow

theorem Book.elsewhere (book : Book s ids cancelled) (waits : info ∈ s.manager.starting) :
    ∀ entry ∈ s.manager.authMap, entry.2.httpClient ≠ info.httpClient := by
  intro entry present same
  have issued := book.keyed entry present
  rw [same, book.waiting info waits] at issued
  cases issued

theorem Book.register (book : Book s ids cancelled) (waits : info ∈ s.manager.starting) :
    Book (s.withManager (s.manager.register info))
      (Function.update ids info.httpClient (some (s.manager.id + 1))) cancelled := by
  have known : info ∈ s.manager.infos := List.mem_append_left _ waits
  obtain ⟨rest, order, kept, distinct⟩ := AuthManager.infos_register book.distinct waits
  have member : ∀ other ∈ (s.manager.register info).infos, other ∈ s.manager.infos := by
    intro other present
    rcases List.mem_cons.mp (order.mem_iff.mp present) with rfl | before
    · exact known
    · exact kept.subset before
  have unissued := book.waiting info waits
  refine ⟨((order.map _).nodup_iff).mpr distinct,
    fun other present => book.own other (member other present),
    fun other present => book.live other (member other present), ?_, ?_, ?_, ?_, book.uncalled⟩
  · intro other present
    obtain ⟨before, different⟩ := List.mem_filter.mp present
    rw [Function.update_of_ne (by simpa using different)]
    exact book.waiting other before
  · intro entry present
    rcases List.mem_append.mp present with stays | new
    · have before := (List.mem_filter.mp stays).1
      rw [Function.update_of_ne (book.elsewhere waits entry before)]
      exact book.keyed entry before
    · rw [List.mem_singleton.mp new, Function.update_self]
  · intro c created
    obtain ⟨attached, running, none⟩ := book.created c created
    have different : c ≠ info.httpClient := by
      rintro rfl
      exact (book.live info known).1 created
    rw [Function.update_of_ne different]
    exact ⟨attached, running, none⟩
  · intro c gone
    obtain ⟨issued, absent⟩ := book.cancelled c gone
    have different : c ≠ info.httpClient := by
      rintro rfl
      exact issued unissued
    rw [Function.update_of_ne different]
    refine ⟨issued, ?_⟩
    intro entry present
    rcases List.mem_append.mp present with stays | new
    · exact absent entry (List.mem_filter.mp stays).1
    · rw [List.mem_singleton.mp new]
      exact different.symm

theorem tag_of_mem {m m' : AuthManager} (kept : ∀ entry ∈ m'.authMap, entry ∈ m.authMap) :
    ∀ entry ∈ m'.authMap, AuthManager.tag entry ∈ m.authMap.map AuthManager.tag :=
  fun entry member => List.mem_map_of_mem (kept entry member)

theorem Book.authCancel (book : Book s ids cancelled) (id : Int32) :
    Book (s.withManager (s.manager.authCancel id)) ids (fun c => cancelled c || ids c == some id) := by
  have kept := AuthManager.infos_authCancel (m := s.manager) id
  have narrowed : Book (s.withManager (s.manager.authCancel id)) ids cancelled :=
    book.narrow (fun _ => rfl) (fun _ waits => waits) (tag_of_mem fun entry member => (List.mem_filter.mp member).1)
      (book.distinct.sublist (kept.map _)) rfl
  refine { narrowed with cancelled := ?_ }
  intro c gone
  rcases Bool.or_eq_true_iff.mp gone with before | now
  · exact narrowed.cancelled c before
  · have issued : ids c = some id := by simpa using now
    refine ⟨by simp [issued], ?_⟩
    rintro entry member rfl
    obtain ⟨present, different⟩ := List.mem_filter.mp member
    have key := (book.keyed entry present).symm.trans issued
    simp [Option.some.inj key] at different

theorem Book.response (book : Book s ids cancelled) (content : Bytes) :
    Book (s.withClient c { s.client c with body := (s.client c).body ++ content } (s.requests c)
      (s.manager.append c content)) ids cancelled := by
  refine book.narrow (status_withClient rfl) (fun _ => id) ?_ (AuthManager.distinct_append content book.distinct) rfl
  intro entry member
  rw [← AuthManager.appendTo_tag content s.manager.authMap]
  exact List.mem_map_of_mem member

theorem Book.absent (book : Book s ids cancelled) (httpCode : Nat) :
    Book (s.withClient c { s.client c with httpCode := httpCode } (s.requests c) s.manager) ids cancelled :=
  book.narrow (status_withClient rfl) (fun _ => id) (tag_of_mem fun _ => id) book.distinct rfl

theorem Book.found {next : Client} {call : DelegateCall} (book : Book s ids cancelled)
    (found : s.manager.find c = some info) (silent : next.delegate = false)
    (stage : next.stage ≠ .created) (own : call.delegate = c) :
    Book (s.withClient c next (s.requests c) ((s.manager.called call).erase c)) ids cancelled := by
  have kept : ((s.manager.called call).erase c).infos.Sublist s.manager.infos :=
    AuthManager.infos_erase
  have other : ∀ known ∈ ((s.manager.called call).erase c).infos, known.httpClient ≠ c :=
    AuthManager.erase_absent book.distinct found
  have entries : ∀ entry ∈ ((s.manager.called call).erase c).authMap, entry ∈ s.manager.authMap :=
    fun entry member => List.eraseP_sublist.subset member
  refine ⟨book.distinct.sublist (kept.map _),
    fun known member => book.own known (kept.subset member), ?_, ?_, ?_, ?_, ?_, ?_⟩
  · intro known member
    rw [Session.withClient_client_other (other known member)]
    exact book.live known (kept.subset member)
  · exact book.waiting
  · exact fun entry member => book.keyed entry (entries entry member)
  · intro d created
    by_cases same : d = c
    · rw [same, Session.withClient_client] at created
      exact absurd created stage
    · rw [Session.withClient_client_other same] at created ⊢
      exact book.created d created
  · intro d gone
    obtain ⟨issued, absent⟩ := book.cancelled d gone
    exact ⟨issued, fun entry member => absent entry (entries entry member)⟩
  · intro d attached made member
    have different : d ≠ c := by
      rintro rfl
      rw [Session.withClient_client, silent] at attached
      cases attached
    rw [Session.withClient_client_other different] at attached
    rcases List.mem_append.mp member with before | now
    · exact book.uncalled d attached made before
    · rw [List.mem_singleton.mp now, own]
      exact different.symm

theorem cancelled_status (client : Client) : (Http.cancelled client).delegate = false ∧
    (Http.cancelled client).stoped = true ∧ (Http.cancelled client).stage = client.stage := by
  unfold Http.cancelled
  split
  · rename_i stoped
    exact ⟨rfl, stoped, rfl⟩
  · exact ⟨rfl, rfl, rfl⟩

variable {l next : Ledger}

theorem step_book (book : Book l.session l.ids l.cancelled) (h : l.step given event = some next) :
    Book next.session next.ids next.cancelled := by
  obtain ⟨after, stepped, rfl⟩ := Option.map_eq_some_iff.mp h
  cases Session.step_moved stepped with
  | request created => exact book.request created rfl rfl rfl rfl rfl
  | register waits own =>
    subst own
    exact book.register waits
  | cancel => exact book.authCancel _
  | response isOpen => exact book.response _
  | absent isOpen absent => exact book.absent _
  | @found c httpCode info isOpen found =>
    obtain ⟨silent, _, stage⟩ := cancelled_status { l.session.client c with httpCode := httpCode }
    have present := AuthManager.mem_of_find found
    have client := AuthManager.find_httpClient found
    apply book.found found silent
    · rw [stage, ← client]
      exact (book.live info present).1
    · rw [handleAuthResponse_delegate, book.own info present, client]

end Ledger

end Kingkong.Auth
