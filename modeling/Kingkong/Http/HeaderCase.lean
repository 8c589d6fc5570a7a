import Kingkong.Http.Downloader
import Kingkong.Lib.Ascii

/-!
The spelling of `Content-Length`. Header names are case-insensitive, and the parser passes them on
as the server has spelled them. The client compares a name with the one spelling of the source, and
the downloader looks that spelling up in a map with the raw names as its keys.
-/

namespace Kingkong.Http.Downloader
open Lib

abbrev Fields := List (Bytes × Bytes)

def lowered (name : Bytes) : Bytes := name.map toLower

/-- The two lists differ at most in the case of names. -/
def SameButCase (fields other : Fields) : Prop :=
  (fields.map fun field => (lowered field.1, field.2)) = other.map fun field => (lowered field.1, field.2)

def isContentLength (name : Bytes) : Bool := lowered name == lowered contentLength

/-- The values of the fields with that name in any spelling. -/
def declared (fields : Fields) : List Bytes :=
  (fields.filter fun field => isContentLength field.1).map Prod.snd

/-- Those in the spelling of the source. -/
def spelled (fields : Fields) : List Bytes :=
  (fields.filter fun field => field.1 == contentLength).map Prod.snd

def Canonical (fields : Fields) : Prop :=
  ∀ field ∈ fields, isContentLength field.1 = true → field.1 = contentLength

/-- The body limit is the last length that is not 0. -/
def limit (lengths : List Nat) : Option Nat := (lengths.filter (· ≠ 0)).getLast?

/-- The body limit and the total size that the values stand for. The downloader hears of the heads
as long as the client has its delegate. -/
def honour (lexicalCast : Bytes → Option Nat) (attached : Bool) (values : List Bytes) :
    Option (Option Nat × Nat) :=
  (values.mapM lexicalCast).map fun lengths => (limit lengths, if attached then lengths.getLast?.getD 0 else 0)

def fieldEvents (fields : Fields) : List Event :=
  fields.map fun field => .io (.field field.1 field.2)

/-- The body limit and the total size after the headers. There are none when a cast throws. -/
def readHeads (lexicalCast : Bytes → Option Nat) (t : Thread Downloader) (fields : Fields) :
    Option (Option Nat × Nat) :=
  (run (step lexicalCast) t (fieldEvents fields ++ [.io .header])).map
    fun t => ((t.system.clients 0).bodyLimit, t.system.delegate.totalSize)

variable {lexicalCast : Bytes → Option Nat} {attached : Bool} {t after : Thread Downloader} {name value : Bytes}
  {lengths : List Nat} {heads fields other : Fields} {client next : Client}

/-! ### The headers of one response -/

theorem findHead_setHead : findHead (setHead heads name value) name = some value := by
  have absent : (heads.filter fun head => head.1 != name).find? (fun head => head.1 == name) =
      none := by
    simp
  simp [findHead, setHead, List.find?_append, absent]

theorem findHead_setHead_other {key : Bytes} (apart : name ≠ key) :
    findHead (setHead heads name value) key = findHead heads key := by
  have last : [(name, value)].find? (fun head => head.1 == key) = none := by simp [apart]
  rw [findHead, setHead, List.find?_append, last, Option.or_none, List.find?_filter]
  congr 2
  funext head
  by_cases hit : head.1 = key
  · simp [hit, Ne.symm apart]
  · simp [hit]

/-- After some of the fields, of which those in the spelling of the source have these lengths. -/
structure Reading (lexicalCast : Bytes → Option Nat) (attached : Bool) (lengths : List Nat)
    (t : Thread Downloader) :
    Prop where
  running : t.stuck = none
  stage : (t.system.clients 0).stage = .fields
  delegate : (t.system.clients 0).delegate = attached
  limit : (t.system.clients 0).bodyLimit = limit lengths
  last : (findHead (t.system.clients 0).heads contentLength).bind lexicalCast = lengths.getLast?
  total : t.system.delegate.totalSize = 0

theorem Reading.step_field (reading : Reading lexicalCast attached lengths t) :
    step lexicalCast t (.io (.field name value)) =
      (onFieldImpl lexicalCast name value (t.system.clients 0)).map fun next =>
        { system := t.system.set 0 next } := by
  simp only [step, ioStep, deliver, reading.running, reading.stage, Option.isSome_none,
    Bool.false_eq_true, if_false, if_true, Option.map_map]
  rfl

theorem limit_append (length : Nat) :
    limit (lengths ++ [length]) = if length ≠ 0 then some length else limit lengths := by
  unfold limit
  by_cases zero : length = 0
  · simp [zero]
  · simp [zero]

theorem onFieldImpl_other (apart : name ≠ contentLength) :
    onFieldImpl lexicalCast name value client =
      some { client with heads := setHead client.heads name value } :=
  if_neg apart

theorem onFieldImpl_length {length : Nat} (cast : lexicalCast value = some length) :
    onFieldImpl lexicalCast contentLength value client = some { client with
      heads := setHead client.heads contentLength value
      bodyLimit := if length ≠ 0 then some length else client.bodyLimit } := by
  rw [onFieldImpl, if_pos rfl, cast]
  by_cases zero : length = 0
  · simp [zero]
  · simp [zero]

theorem Reading.other_field (reading : Reading lexicalCast attached lengths t)
    (apart : name ≠ contentLength) (value : Bytes) :
    ∃ after, step lexicalCast t (.io (.field name value)) = some after ∧
      Reading lexicalCast attached lengths after := by
  rw [reading.step_field, onFieldImpl_other apart]
  refine ⟨_, rfl, ⟨rfl, reading.stage, reading.delegate, reading.limit, ?_, reading.total⟩⟩
  exact (congrArg (·.bind lexicalCast) (findHead_setHead_other apart)).trans reading.last

theorem Reading.length_field (reading : Reading lexicalCast attached lengths t) {length : Nat}
    (cast : lexicalCast value = some length) :
    ∃ after, step lexicalCast t (.io (.field contentLength value)) = some after ∧
      Reading lexicalCast attached (lengths ++ [length]) after := by
  rw [reading.step_field, onFieldImpl_length cast]
  refine ⟨_, rfl, ⟨rfl, reading.stage, reading.delegate, ?_, ?_, reading.total⟩⟩
  · rw [limit_append, ← reading.limit]
    rfl
  · rw [List.getLast?_concat, ← cast]
    exact congrArg (·.bind lexicalCast) findHead_setHead

theorem Reading.length_throws (reading : Reading lexicalCast attached lengths t)
    (throws : lexicalCast value = none) :
    step lexicalCast t (.io (.field contentLength value)) = none := by
  rw [reading.step_field, onFieldImpl, if_pos rfl, throws]
  rfl

/-- Each field in the spelling of the source adds its length, and the others add nothing. -/
theorem Reading.run_fields (reading : Reading lexicalCast attached lengths t) (fields : Fields) :
    match (spelled fields).mapM lexicalCast with
    | some more => ∃ after, run (step lexicalCast) t (fieldEvents fields) = some after ∧
        Reading lexicalCast attached (lengths ++ more) after
    | none => run (step lexicalCast) t (fieldEvents fields) = none := by
  induction fields generalizing t lengths with
  | nil =>
    simp only [spelled, List.filter_nil, List.map_nil, List.mapM_nil]
    exact ⟨t, rfl, by rwa [List.append_nil]⟩
  | cons field rest ih =>
    obtain ⟨name, value⟩ := field
    have first : fieldEvents ((name, value) :: rest) =
        .io (.field name value) :: fieldEvents rest := rfl
    rw [first, run]
    by_cases named : name = contentLength
    · subst named
      have values : spelled ((contentLength, value) :: rest) = value :: spelled rest := by
        simp [spelled]
      rw [values, List.mapM_cons]
      cases cast : lexicalCast value with
      | none =>
        rw [reading.length_throws cast]
        rfl
      | some length =>
        obtain ⟨next, stepped, reading⟩ := reading.length_field cast
        have tail := ih reading
        rw [stepped]
        cases mapped : (spelled rest).mapM lexicalCast with
        | none =>
          rw [mapped] at tail
          exact tail
        | some more =>
          rw [mapped] at tail
          obtain ⟨after, ran, reading⟩ := tail
          exact ⟨after, ran, by rwa [List.append_assoc] at reading⟩
    · have values : spelled ((name, value) :: rest) = spelled rest := by simp [spelled, named]
      obtain ⟨next, stepped, reading⟩ := reading.other_field named value
      rw [values, stepped]
      exact ih reading

theorem Reading.header (reading : Reading lexicalCast attached lengths t) :
    ∃ after, step lexicalCast t (.io .header) = some after ∧
      (after.system.clients 0).bodyLimit = Downloader.limit lengths ∧
      after.system.delegate.totalSize = if attached then lengths.getLast?.getD 0 else 0 := by
  obtain ⟨running, stage, delegate, limit, last, total⟩ := reading
  obtain ⟨after, stepped⟩ : ∃ after, step lexicalCast t (.io .header) = some after := by
    simp [step, ioStep, deliver, running, stage]
  obtain ⟨_, next, moved, same⟩ := ioStep_outcome stepped
  rw [Event.advance, if_pos stage] at moved
  cases moved
  refine ⟨after, stepped, ?_⟩
  rw [same, Event.callback, outcome_unsettled rfl, delegate]
  cases attached with
  | false => exact ⟨limit, total⟩
  | true =>
    simp only [if_true, Callback.call, httpDelegate, onHttpHeads, last]
    cases lengths.getLast? with
    | none => exact ⟨limit, total⟩
    | some length => exact ⟨limit, rfl⟩

/-- What the client and the downloader read off the headers are the lengths in the spelling of the
source. -/
theorem Reading.readHeads_eq (reading : Reading lexicalCast attached [] t) (fields : Fields) :
    readHeads lexicalCast t fields = honour lexicalCast attached (spelled fields) := by
  have ran := reading.run_fields fields
  unfold honour
  cases mapped : (spelled fields).mapM lexicalCast with
  | none =>
    rw [mapped] at ran
    have throws : run (step lexicalCast) t (fieldEvents fields ++ [.io .header]) = none := by
      rw [Option.eq_none_iff_forall_ne_some]
      intro after reached
      obtain ⟨middle, first, _⟩ := run_append.mp reached
      cases ran.symm.trans first
    rw [readHeads, throws]
    rfl
  | some more =>
    rw [mapped] at ran
    obtain ⟨middle, ran, reading⟩ := ran
    obtain ⟨after, stepped, limit, total⟩ := reading.header
    have reached : run (step lexicalCast) t (fieldEvents fields ++ [.io .header]) = some after :=
      run_append.mpr ⟨middle, ran, run_cons.mpr ⟨after, stepped, rfl⟩⟩
    rw [readHeads, reached, Option.map_some, limit, total]
    rfl

/-! ### Before the headers -/

/-- No header has arrived. -/
def early : Stage → Bool
  | .created | .requested | .statusLine => true
  | _ => false

structure Blank (client : Client) (d : Downloader) : Prop where
  heads : client.heads = []
  bodyLimit : client.bodyLimit = none
  total : d.totalSize = 0

def Fresh (t : Thread Downloader) : Prop :=
  early (t.system.clients 0).stage = true → Blank (t.system.clients 0) t.system.delegate

/-- An event that leaves a client without headers found it so, and calls for nothing but the end of
the download. -/
theorem advance_early {event : Http.Event} (moved : event.advance lexicalCast client = some next)
    (unread : early next.stage = true) :
    early client.stage = true ∧ next.heads = client.heads ∧ next.bodyLimit = client.bodyLimit ∧
      (event.callback next = none ∨ event.callback next = some .complete) := by
  cases event with
  | connected =>
    obtain ⟨stage, same⟩ := Option.ite_none_right_eq_some.mp moved
    cases same
    exact ⟨by rw [stage]; rfl, rfl, rfl, .inl rfl⟩
  | field name value =>
    obtain ⟨stage, read⟩ := Option.ite_none_right_eq_some.mp moved
    obtain ⟨heads, bodyLimit, rfl⟩ := onFieldImpl_frame read
    simp [stage, early] at unread
  | body io content | chunk io content =>
    obtain ⟨stage, same⟩ := Option.ite_none_right_eq_some.mp moved
    cases same
    simp [stage, early] at unread
  | readError =>
    obtain ⟨_, same⟩ := Option.ite_none_right_eq_some.mp moved
    cases same
    cases complete : client.recvComplete with
    | true => simpa [complete, Event.callback] using unread
    | false => simp [complete, early] at unread
  | written =>
    obtain ⟨_, same⟩ := Option.ite_none_right_eq_some.mp moved
    cases same
    exact ⟨unread, rfl, rfl, .inl rfl⟩
  | writeError =>
    obtain ⟨_, same⟩ := Option.ite_none_right_eq_some.mp moved
    cases same
    refine ⟨unread, rfl, rfl, ?_⟩
    rw [Event.callback]
    split
    · exact .inr rfl
    · exact .inl rfl
  | _ =>
    obtain ⟨_, same⟩ := Option.ite_none_right_eq_some.mp moved
    cases same
    cases unread

theorem complete_totalSize (httpCode : Nat) (d : Downloader) :
    (d.complete httpCode).totalSize = d.totalSize := by
  unfold complete report
  split <;> rfl

theorem cancelled_heads (client : Client) :
    (cancelled client).heads = client.heads ∧ (cancelled client).bodyLimit = client.bodyLimit := by
  unfold cancelled
  split <;> exact ⟨rfl, rfl⟩

theorem settle_heads (event : Http.Event) (client : Client) :
    (event.settle client).heads = client.heads ∧
      (event.settle client).bodyLimit = client.bodyLimit := by
  cases event <;> exact ⟨rfl, rfl⟩

theorem io_fresh {event : Http.Event} (fresh : Fresh t)
    (h : ioStep (httpDelegate lexicalCast) lexicalCast 0 t event = some after) : Fresh after := by
  obtain ⟨_, next, moved, ends⟩ := io_after h
  by_cases unread : early next.stage = true
  · obtain ⟨before, heads, bodyLimit, called⟩ := advance_early moved unread
    obtain ⟨noHeads, noLimit, noTotal⟩ := fresh before
    obtain ⟨sameHeads, sameLimit⟩ := settle_heads event next
    have blank : ∀ d : Downloader, d.totalSize = t.system.delegate.totalSize →
        Blank (event.settle next) d := by
      intro d same
      exact ⟨sameHeads.trans (heads.trans noHeads), sameLimit.trans (bodyLimit.trans noLimit),
        same.trans noTotal⟩
    rcases called with called | called
    · rw [called] at ends
      cases ends
      exact fun _ => blank _ rfl
    · rw [called] at ends
      intro _
      rw [ends.1]
      exact blank _ (complete_totalSize _ _)
  · exact fun early => absurd (ends.stage ▸ early) unread

theorem step_fresh {event : Event} (fresh : Fresh t) (h : step lexicalCast t event = some after) :
    Fresh after := by
  cases step_took h with
  | start _ created =>
    intro _
    obtain ⟨heads, bodyLimit, total⟩ := fresh (by rw [created]; rfl)
    exact ⟨heads, bodyLimit, total⟩
  | cancel _ =>
    intro unread
    obtain ⟨heads, bodyLimit, total⟩ := fresh unread
    exact ⟨heads, bodyLimit, total⟩
  | cancelClient _ _ =>
    obtain ⟨stage, _⟩ := cancelled_message (t.system.clients 0)
    obtain ⟨sameHeads, sameLimit⟩ := cancelled_heads (t.system.clients 0)
    intro unread
    obtain ⟨heads, bodyLimit, total⟩ := fresh (by rw [← stage]; exact unread)
    exact ⟨sameHeads.trans heads, sameLimit.trans bodyLimit, total⟩
  | io event handled => exact io_fresh fresh handled

/-- After the status line of any run, the headers are still to be read. -/
theorem reading_of_response {events : List Event} {code : Nat}
    (h : run (step lexicalCast) initial (events ++ [.io (.response code)]) = some t) :
    Reading lexicalCast (t.system.clients 0).delegate [] t := by
  obtain ⟨s, reached, last⟩ := run_append.mp h
  obtain ⟨_, stepped, same⟩ := run_cons.mp last
  cases same
  have fresh : Fresh s := run_keeps (fun _ _ _ => step_fresh) (fun _ => ⟨rfl, rfl, rfl⟩) reached
  obtain ⟨_, next, moved, ends⟩ := io_after stepped
  obtain ⟨stage, same⟩ := Option.ite_none_right_eq_some.mp moved
  cases same
  cases ends
  obtain ⟨heads, bodyLimit, total⟩ := fresh (by rw [stage]; rfl)
  refine ⟨rfl, rfl, rfl, bodyLimit, ?_, total⟩
  exact congrArg (fun heads => (findHead heads contentLength).bind lexicalCast) heads

/-! ### Spellings -/

theorem SameButCase.declared_eq (same : SameButCase fields other) :
    declared fields = declared other := by
  have through : ∀ fields : Fields, declared fields =
      ((fields.map fun field => (lowered field.1, field.2)).filter fun field => field.1 == lowered contentLength).map
        Prod.snd := by
    intro fields
    rw [List.filter_map, List.map_map]
    rfl
  rw [through fields, through other, same]

theorem spelled_subset : spelled fields ⊆ declared fields := by
  intro value mem
  obtain ⟨field, kept, rfl⟩ := List.mem_map.mp mem
  obtain ⟨present, named⟩ := List.mem_filter.mp kept
  refine List.mem_map.mpr ⟨field, List.mem_filter.mpr ⟨present, ?_⟩, rfl⟩
  rw [isContentLength, beq_iff_eq.mp named, beq_self_eq_true]

theorem Canonical.spelled_eq (canonical : Canonical fields) : spelled fields = declared fields := by
  unfold spelled declared
  congr 1
  apply List.filter_congr
  intro field mem
  rw [Bool.eq_iff_iff, beq_iff_eq]
  constructor
  · intro named
    rw [isContentLength, named, beq_self_eq_true]
  · exact canonical field mem

/-- The same fields, with another spelling of that one name. -/
def respell (spelling : Bytes) (fields : Fields) : Fields :=
  fields.map fun field => if isContentLength field.1 then (spelling, field.2) else field

theorem sameButCase_respell {spelling : Bytes} (named : isContentLength spelling = true) :
    SameButCase fields (respell spelling fields) := by
  unfold SameButCase respell
  rw [List.map_map]
  apply List.map_congr_left
  intro field _
  by_cases hit : isContentLength field.1 = true
  · simp only [Function.comp, if_pos hit]
    rw [beq_iff_eq.mp hit, beq_iff_eq.mp named]
  · simp only [Function.comp, if_neg hit]

theorem lowered_contentLength : isContentLength (lowered contentLength) = true := by decide +kernel

theorem lowered_ne_contentLength : lowered contentLength ≠ contentLength := by decide +kernel

theorem canonical_respell : Canonical (respell contentLength fields) := by
  intro field mem named
  obtain ⟨original, _, rfl⟩ := List.mem_map.mp mem
  by_cases hit : isContentLength original.1 = true
  · rw [if_pos hit]
  · rw [if_neg hit] at named
    exact absurd named hit

theorem spelled_respell {spelling : Bytes} (apart : spelling ≠ contentLength) :
    spelled (respell spelling fields) = [] := by
  unfold spelled
  rw [List.map_eq_nil_iff, List.filter_eq_nil_iff]
  intro field mem named
  obtain ⟨original, _, rfl⟩ := List.mem_map.mp mem
  by_cases hit : isContentLength original.1 = true
  · rw [if_pos hit] at named
    exact apart (beq_iff_eq.mp named)
  · rw [if_neg hit] at named
    apply hit
    rw [isContentLength, beq_iff_eq.mp named, beq_self_eq_true]

theorem mapM_mem {values : List Bytes} (mapped : values.mapM lexicalCast = some lengths) :
    ∀ value ∈ values, ∃ length ∈ lengths, lexicalCast value = some length := by
  induction values generalizing lengths with
  | nil => nofun
  | cons first rest ih =>
    rw [List.mapM_cons] at mapped
    obtain ⟨length, cast, mapped⟩ := Option.bind_eq_some_iff.mp mapped
    obtain ⟨more, mappedRest, same⟩ := Option.bind_eq_some_iff.mp mapped
    cases same
    intro value mem
    rcases List.mem_cons.mp mem with rfl | later
    · exact ⟨length, List.mem_cons_self, cast⟩
    · obtain ⟨found, member, cast⟩ := ih mappedRest value later
      exact ⟨found, List.mem_cons_of_mem _ member, cast⟩

theorem mapM_zero {values : List Bytes} (zero : ∀ value ∈ values, lexicalCast value = some 0) :
    values.mapM lexicalCast = some (List.replicate values.length 0) := by
  induction values with
  | nil => rfl
  | cons first rest ih =>
    rw [List.mapM_cons, zero first List.mem_cons_self,
      ih fun value mem => zero value (List.mem_cons_of_mem _ mem)]
    rfl

theorem limit_eq_none_iff : limit lengths = none ↔ ∀ length ∈ lengths, length = 0 := by
  simp [limit]

theorem honour_nil : honour lexicalCast attached [] = some (none, 0) := by
  cases attached <;> rfl

/-- Values leave the limit and the total as they were exactly when they are all 0. -/
theorem honour_blank_iff {values : List Bytes} :
    honour lexicalCast attached values = some (none, 0) ↔ ∀ value ∈ values,
      lexicalCast value = some 0 := by
  constructor
  · intro blank
    obtain ⟨lengths, mapped, same⟩ := Option.map_eq_some_iff.mp blank
    have zero := limit_eq_none_iff.mp (Prod.mk.inj same).1
    intro value mem
    obtain ⟨length, member, cast⟩ := mapM_mem mapped value mem
    rw [cast, zero length member]
  · intro zero
    have unlimited : limit (List.replicate values.length 0) = none :=
      limit_eq_none_iff.mpr fun length mem => (List.mem_replicate.mp mem).2
    have last : (List.replicate values.length 0).getLast?.getD 0 = 0 := by
      rw [List.getLast?_replicate]
      split <;> rfl
    rw [honour, mapM_zero zero, Option.map_some, unlimited, last, ite_self]

/-- Lists in which `Content-Length` has the spelling of the source are honoured whatever the case of
other names. The case of names does not matter at all exactly when every such field, in any
spelling, has the value 0. -/
theorem readHeads_case {events : List Event} {code : Nat}
    (h : run (step lexicalCast) initial (events ++ [.io (.response code)]) = some t) :
    (∀ fields, Canonical fields →
      readHeads lexicalCast t fields =
        honour lexicalCast (t.system.clients 0).delegate (declared fields)) ∧
    (∀ fields other, SameButCase fields other → Canonical fields → Canonical other →
      readHeads lexicalCast t fields = readHeads lexicalCast t other) ∧
    ∀ fields, (∀ other, SameButCase fields other →
      readHeads lexicalCast t fields = readHeads lexicalCast t other) ↔
      ∀ value ∈ declared fields, lexicalCast value = some 0 := by
  have reading := reading_of_response h
  have honoured : ∀ fields, Canonical fields →
      readHeads lexicalCast t fields = honour lexicalCast (t.system.clients 0).delegate (declared fields) := by
    intro fields canonical
    rw [reading.readHeads_eq, canonical.spelled_eq]
  refine ⟨honoured, ?_, ?_⟩
  · intro fields other same canonical otherCanonical
    rw [honoured fields canonical, honoured other otherCanonical, same.declared_eq]
  · intro fields
    constructor
    · intro all
      -- one list has the name in the spelling of the source everywhere, and one has it nowhere
      have proper : SameButCase fields (respell contentLength fields) :=
        sameButCase_respell (beq_self_eq_true _)
      have lower := all _ (sameButCase_respell lowered_contentLength)
      rw [all _ proper, honoured _ canonical_respell, ← proper.declared_eq, reading.readHeads_eq,
        spelled_respell lowered_ne_contentLength, honour_nil] at lower
      exact honour_blank_iff.mp lower
    · intro zero other same
      have blank : ∀ other, SameButCase fields other → readHeads lexicalCast t other =
          some (none, 0) := by
        intro other same
        rw [reading.readHeads_eq, honour_blank_iff]
        intro value mem
        exact zero value (same.declared_eq ▸ spelled_subset mem)
      rw [blank fields rfl, blank other same]

/-- Decimal digits, as one cast that the source may make. -/
def decimal (value : Bytes) : Option Nat :=
  if value ≠ [] ∧ value.all isDigit then some (value.foldl (fun n c => 10 * n + (c.toNat - 48)) 0) else none

def connects : List Event := [.start, .io .connected]

/-- A server that spells the name as the source does, and another name in two ways. -/
def proper : Fields := [("Server".toUTF8.toList, [97]), (contentLength, [53])]

def properToo : Fields := [("SERVER".toUTF8.toList, [97]), (contentLength, [53])]

theorem readHeads_case_proper :
    ∃ t, run (step decimal) initial (connects ++ [.io (.response 200)]) = some t ∧
      SameButCase proper properToo ∧ readHeads decimal t proper = some (some 5, 5) ∧
      readHeads decimal t proper = readHeads decimal t properToo := by
  have canonical : Canonical proper ∧ Canonical properToo := by
    unfold Canonical
    decide +kernel
  have same : SameButCase proper properToo := by
    unfold SameButCase
    decide +kernel
  obtain ⟨t, reached⟩ : ∃ t,
    run (step decimal) initial (connects ++ [.io (.response 200)]) = some t := ⟨_, rfl⟩
  obtain ⟨honoured, equal, _⟩ := readHeads_case reached
  cases reached
  exact ⟨_, rfl, same, (honoured proper canonical.1).trans (by decide +kernel),
    equal proper properToo same canonical.1 canonical.2⟩

/-- The same names from a server that writes them in lower case. -/
def lowerCase : Fields := [("server".toUTF8.toList, [97]), ("content-length".toUTF8.toList, [53])]

/-- Its length is not honoured. -/
theorem readHeads_lowerCase :
    ∃ t, run (step decimal) initial (connects ++ [.io (.response 200)]) = some t ∧
      SameButCase proper lowerCase ∧ readHeads decimal t proper = some (some 5, 5) ∧
      readHeads decimal t lowerCase = some (none, 0) := by
  refine ⟨_, rfl, ?_, ?_, ?_⟩
  · unfold SameButCase
    decide +kernel
  · decide +kernel
  · decide +kernel

end Kingkong.Http.Downloader
