import Kingkong.Url.Parser

/-!
The components of a URL, as the generic syntax separates them, and where the parser finds them. What
the scanner has read of a string with a schema is always the text of well-formed components, and the
fields it has recorded are the positions of these components in the string.
-/

namespace Kingkong.Url
open Lib

variable {c d : Scan} {s t : UrlState} {ch : UInt8} {u : Bytes}

/-! ### Components -/

structure Components where
  schema : Bytes
  authority : Bytes := []
  path : Bytes := []
  query : Option Bytes := none
  fragment : Option Bytes := none
  deriving DecidableEq

def inAuthority (ch : UInt8) : Bool := ch != byte '/' && ch != byte '?' && ch != byte '#'

def inPath (ch : UInt8) : Bool := ch != byte '?' && ch != byte '#'

/-- A component that is there if its delimiter is. -/
def detach : Bytes → Option Bytes
  | [] => none
  | _ :: text => some text

def components (u : Bytes) : Components :=
  let afterSchema := (u.dropWhile (· != byte ':')).drop 3
  let afterAuthority := afterSchema.dropWhile inAuthority
  let afterPath := afterAuthority.dropWhile inPath
  { schema := u.takeWhile (· != byte ':')
    authority := afterSchema.takeWhile inAuthority
    path := afterAuthority.takeWhile inPath
    query := detach (afterPath.takeWhile (· != byte '#'))
    fragment := detach (afterPath.dropWhile (· != byte '#')) }

def lead (delimiter : Char) : Option Bytes → Bytes
  | none => []
  | some text => byte delimiter :: text

namespace Components

def suffix (parts : Components) : Bytes := lead '?' parts.query ++ lead '#' parts.fragment

def text (parts : Components) : Bytes :=
  parts.schema ++ [byte ':', byte '/', byte '/'] ++ parts.authority ++ parts.path ++ parts.suffix

structure WellFormed (parts : Components) : Prop where
  schema : ∀ ch ∈ parts.schema, isAlpha ch = true
  authority : ∀ ch ∈ parts.authority, inAuthority ch = true
  path : ∀ ch ∈ parts.path, inPath ch = true
  rooted : ∀ ch ∈ parts.path.head?, ch = byte '/'
  query : ∀ query ∈ parts.query, byte '#' ∉ query

end Components

theorem detach_lead (delimiter : Char) (text : Option Bytes) :
    detach (lead delimiter text) = text := by
  cases text <;> rfl

theorem head_lead {delimiter : Char} {text : Option Bytes} (h : ch ∈ (lead delimiter text).head?) :
    ch = byte delimiter := by
  cases text with
  | none => cases h
  | some text => exact (Option.mem_some_iff.mp h).symm

namespace Components

variable {parts : Components}

theorem text_eq (parts : Components) :
    parts.text =
      parts.schema ++ ([byte ':', byte '/',
        byte '/'] ++ (parts.authority ++ (parts.path ++ parts.suffix))) := by
  simp [text]

theorem text_length (parts : Components) :
    parts.text.length =
      parts.schema.length + 3 + parts.authority.length + parts.path.length + parts.suffix.length := by
  simp only [text, List.length_append, List.length_cons, List.length_nil]

theorem suffix_none (noQuery : parts.query = none) (noFragment : parts.fragment = none) :
    parts.suffix = [] := by
  rw [suffix, noQuery, noFragment]
  rfl

theorem head_suffix (h : ch ∈ parts.suffix.head?) : inPath ch = false := by
  unfold suffix at h
  cases query : parts.query with
  | none =>
    rw [query] at h
    rw [head_lead h]
    decide
  | some text =>
    rw [query] at h
    obtain rfl : byte '?' = ch := by simpa [lead] using h
    decide

theorem WellFormed.head_afterAuthority (ok : parts.WellFormed)
    (h : ch ∈ (parts.path ++ parts.suffix).head?) :
    inAuthority ch = false := by
  cases path : parts.path with
  | nil =>
    rw [path] at h
    have := head_suffix h
    simp only [inPath, inAuthority, Bool.and_eq_false_iff] at this ⊢
    tauto
  | cons first rest =>
    rw [path, List.cons_append, List.head?_cons, Option.mem_some_iff] at h
    rw [← h, ok.rooted first (by rw [path]; rfl)]
    decide

/-- The components of a text that is put together from well-formed components are these. -/
theorem components_text (ok : parts.WellFormed) : components parts.text = parts := by
  have schema := cut_at (byte ':') parts.schema
    ([byte ':', byte '/', byte '/'] ++ (parts.authority ++ (parts.path ++ parts.suffix)))
    (fun colon => absurd (ok.schema _ colon) (by decide)) (by simp)
  have authority :=
    cut_append parts.authority _ ok.authority fun ch mem => ok.head_afterAuthority mem
  have path := cut_append parts.path parts.suffix ok.path fun ch mem => head_suffix mem
  have query : byte '#' ∉ lead '?' parts.query := by
    cases h : parts.query with
    | none => simp [lead]
    | some text =>
      intro mem
      rcases List.mem_cons.mp mem with mem | mem
      · exact absurd mem (by decide)
      · exact ok.query text h mem
  have suffix := cut_at (byte '#') _ (lead '#' parts.fragment) query fun ch mem => head_lead mem
  unfold components
  rw [text_eq, schema.1, schema.2]
  simp only [List.cons_append, List.nil_append, List.drop_succ_cons, List.drop_zero, authority.1,
    authority.2, path.1, path.2]
  unfold Components.suffix
  rw [suffix.1, suffix.2, detach_lead, detach_lead]

end Components

/-! ### The moves of the scanner -/

def UrlState.inServer : UrlState → Bool
  | .reqServerStart | .reqServer | .reqServerWithAt => true
  | _ => false

def UrlState.inQuery : UrlState → Bool
  | .reqQueryStringStart | .reqQueryString => true
  | _ => false

def UrlState.inFragment : UrlState → Bool
  | .reqFragmentStart | .reqFragment => true
  | _ => false

inductive Moves : UrlState → UInt8 → UrlState → Prop
  | root (ch : UInt8) : Moves .reqSpacesBeforeUrl ch .reqPath
  | schema {ch : UInt8} (letter : isAlpha ch = true) : Moves .reqSpacesBeforeUrl ch .reqSchema
  | letter {ch : UInt8} (letter : isAlpha ch = true) : Moves .reqSchema ch .reqSchema
  | colon : Moves .reqSchema (byte ':') .reqSchemaSlash
  | slash : Moves .reqSchemaSlash (byte '/') .reqSchemaSlashSlash
  | slashSlash : Moves .reqSchemaSlashSlash (byte '/') .reqServerStart
  | server {s : UrlState} {ch : UInt8} (state : s.inServer = true) (inside : inAuthority ch = true)
      (other : ch ≠ byte '@') : Moves s ch .reqServer
  | serverAt {s : UrlState} (state : s.inServer = true) : Moves s (byte '@') .reqServerWithAt
  | serverPath {s : UrlState} (state : s.inServer = true) : Moves s (byte '/') .reqPath
  | path {ch : UInt8} (inside : inPath ch = true) : Moves .reqPath ch .reqPath
  | queryStart {s : UrlState} (state : s.inServer = true ∨ s = .reqPath) : Moves s (byte '?') .reqQueryStringStart
  | query {s : UrlState} {ch : UInt8} (state : s.inQuery = true) (inside : ch ≠ byte '#') : Moves s ch .reqQueryString
  | fragmentStart {s : UrlState} (state : s = .reqPath ∨ s.inQuery = true) : Moves s (byte '#') .reqFragmentStart
  | fragment {s t : UrlState} (ch : UInt8) (state : s.inFragment = true) (next : t.inFragment = true) : Moves s ch t

theorem isUserinfoChar_inAuthority
    (h : (isUserinfoChar ch || ch == byte '[' || ch == byte ']') = true) :
    inAuthority ch = true := by
  simp only [inAuthority, Bool.and_eq_true, bne_iff_ne]
  refine ⟨⟨?_, ?_⟩, ?_⟩
  all_goals
    rintro rfl
    exact absurd h (by decide)

theorem isUrlChar_inPath (h : isUrlChar ch = true) : inPath ch = true := by
  simp only [isUrlChar, inPath, Bool.and_eq_true] at h ⊢
  exact ⟨h.2, h.1.2⟩

theorem parseServerChar_moves (state : s.inServer = true) (h : parseServerChar ch = t)
    (alive : t ≠ .dead) :
    Moves s ch t := by
  unfold parseServerChar at h
  split_ifs at h with path query at_ inside
  all_goals subst h
  · exact path ▸ .serverPath state
  · exact query ▸ .queryStart (.inl state)
  · exact at_ ▸ .serverAt state
  · exact .server state (isUserinfoChar_inAuthority inside) at_
  · exact absurd rfl alive

theorem parseUrlChar_moves (h : parseUrlChar s ch = t) (alive : t ≠ .dead) : Moves s ch t := by
  unfold parseUrlChar at h
  split at h
  · exact absurd h.symm alive
  split at h
  · exact absurd h.symm alive
  cases s with
  | dead => exact absurd h.symm alive
  | reqSpacesBeforeUrl =>
    dsimp only at h
    split_ifs at h with root letter
    all_goals subst h
    · exact .root ch
    · exact .schema letter
    · exact absurd rfl alive
  | reqSchema =>
    dsimp only at h
    split_ifs at h with letter colon
    all_goals subst h
    · exact .letter letter
    · exact colon ▸ .colon
    · exact absurd rfl alive
  | reqSchemaSlash =>
    dsimp only at h
    split_ifs at h with slash
    all_goals subst h
    · exact slash ▸ .slash
    · exact absurd rfl alive
  | reqSchemaSlashSlash =>
    dsimp only at h
    split_ifs at h with slash
    all_goals subst h
    · exact slash ▸ .slashSlash
    · exact absurd rfl alive
  | reqServerStart | reqServer => exact parseServerChar_moves rfl h alive
  | reqServerWithAt =>
    dsimp only at h
    split_ifs at h
    · exact absurd h.symm alive
    · exact parseServerChar_moves rfl h alive
  | reqPath =>
    dsimp only at h
    split_ifs at h with inside query fragment
    all_goals subst h
    · exact .path (isUrlChar_inPath inside)
    · exact query ▸ .queryStart (.inr rfl)
    · exact fragment ▸ .fragmentStart (.inl rfl)
    · exact absurd rfl alive
  | reqQueryStringStart | reqQueryString =>
    dsimp only at h
    split_ifs at h with inside question fragment
    all_goals subst h
    · have := isUrlChar_inPath inside
      exact .query rfl (bne_iff_ne.mp (Bool.and_eq_true_iff.mp this).2)
    · exact question ▸ .query rfl (by decide)
    · exact fragment ▸ .fragmentStart (.inr rfl)
    · exact absurd rfl alive
  | reqFragmentStart | reqFragment =>
    dsimp only at h
    split_ifs at h
    all_goals subst h
    all_goals first | exact absurd rfl alive | exact .fragment ch rfl rfl

theorem scanChar_moves (h : scanChar c ch = some d) : ∃ t, Moves c.s ch t ∧ c.enter t = some d := by
  refine ⟨_, parseUrlChar_moves rfl fun dead => ?_, h⟩
  unfold scanChar at h
  rw [dead] at h
  cases h

/-! ### What has been recorded -/

/-- The entry of a part of the string that begins at `off`. -/
def fieldAt (off : Nat) (text : Bytes) : FieldData :=
  if text = [] then {} else ⟨true, uint16 off, uint16 text.length⟩

theorem record_other {uf other : UrlField} (different : other ≠ uf) :
    (c.record uf).fields other = c.u.fields other := by
  unfold Scan.record
  split
  · rw [HttpParserUrl.extend, HttpParserUrl.modify_fields, if_neg different]
  · rw [HttpParserUrl.start, HttpParserUrl.modify_fields, if_neg different]

theorem fieldAt_append (off : Nat) (text : Bytes) (ch : UInt8) :
    fieldAt off (text ++ [ch]) = ⟨true, uint16 off, uint16 (text.length + 1)⟩ := by
  rw [fieldAt, if_neg (by simp), List.length_append, List.length_singleton]

theorem record_same {uf : UrlField} {off : Nat} {text : Bytes} (ch : UInt8)
    (was : c.u.fields uf = fieldAt off text) (going : c.oldUf = some uf ↔ text ≠ [])
    (begins : text = [] → c.p = off) :
    (c.record uf).fields uf = fieldAt off (text ++ [ch]) := by
  rw [fieldAt_append]
  unfold Scan.record
  by_cases empty : text = []
  · rw [if_neg fun same => going.mp same empty, HttpParserUrl.start, HttpParserUrl.modify_fields,
      if_pos rfl, begins empty, empty]
    rfl
  · rw [if_pos (going.mpr empty), HttpParserUrl.extend, HttpParserUrl.modify_fields, if_pos rfl,
      was, fieldAt, if_neg empty]
    simp [uint16]

/-- The positions of the components are what the parser has recorded. -/
structure Recorded (parts : Components) (c : Scan) : Prop where
  schema : c.u.fields .schema = fieldAt 0 parts.schema
  host : c.u.fields .host = fieldAt (parts.schema.length + 3) parts.authority
  path : c.u.fields .path = fieldAt (parts.schema.length + 3 + parts.authority.length) parts.path
  port : c.u.fields .port = {}
  foundAt : c.foundAt = true ↔ byte '@' ∈ parts.authority

/-- Reading the schema, or the delimiter `separator` behind it. -/
structure InSchema (schema separator : Bytes) (c : Scan) : Prop where
  recorded : Recorded { schema := schema } c
  nonempty : schema ≠ []
  letters : ∀ ch ∈ schema, isAlpha ch = true
  position : c.p = schema.length + separator.length
  oldUf : c.oldUf = some .schema
  state : (c.s, separator) ∈
    [(.reqSchema, []), (.reqSchemaSlash, [byte ':']), (.reqSchemaSlashSlash, [byte ':', byte '/'])]

/-- Which component is being read. -/
def Components.Open (parts : Components) (c : Scan) : Prop :=
  if c.s.inServer then
    parts.path = [] ∧ parts.query = none ∧ parts.fragment = none ∧ (c.oldUf = some .host ↔ parts.authority ≠ []) ∧
      c.oldUf ≠ some .path
  else if c.s = .reqPath then
    parts.path ≠ [] ∧ parts.query = none ∧ parts.fragment = none ∧ c.oldUf = some .path
  else if c.s.inQuery then parts.query.isSome = true ∧ parts.fragment = none
  else c.s.inFragment = true ∧ parts.fragment.isSome = true

/-- Reading behind `//`. -/
structure Rooted (parts : Components) (c : Scan) : Prop where
  recorded : Recorded parts c
  nonempty : parts.schema ≠ []
  wellFormed : parts.WellFormed
  position : c.p = parts.text.length
  reading : parts.Open c

inductive Located : Bytes → Scan → Prop
  | start : Located [] {}
  | rootless {read : Bytes} {c : Scan} (unset : c.u.fields .host = {})
      (state : c.s = .reqPath ∨ c.s.inQuery = true ∨ c.s.inFragment = true) : Located read c
  | inSchema {schema separator : Bytes} {c : Scan} (h : InSchema schema separator c) : Located (schema ++ separator) c
  | rooted {parts : Components} {c : Scan} (h : Rooted parts c) : Located parts.text c

theorem enter_rootless {read : Bytes} (unset : c.u.fields .host = {})
    (state : c.s = .reqPath ∨ c.s.inQuery = true ∨ c.s.inFragment = true) (moves : Moves c.s ch t)
    (h : c.enter t = some d) : Located read d := by
  obtain ⟨s, p, oldUf, foundAt, u⟩ := c
  dsimp only at moves state unset
  cases moves with
  | root | schema | letter | colon | slash | slashSlash => simp [UrlState.inQuery, UrlState.inFragment] at state
  | server inServer | serverAt inServer | serverPath inServer =>
    cases s <;> simp [UrlState.inQuery, UrlState.inFragment, UrlState.inServer] at state inServer
  | path =>
    cases h
    exact .rootless ((record_other (by decide)).trans unset) (.inl rfl)
  | queryStart =>
    cases h
    exact .rootless unset (.inr (.inl rfl))
  | query =>
    cases h
    exact .rootless ((record_other (by decide)).trans unset) (.inr (.inl rfl))
  | fragmentStart =>
    cases h
    exact .rootless unset (.inr (.inr rfl))
  | fragment _ _ next =>
    cases t <;> simp [UrlState.inFragment] at next
    · cases h
      exact .rootless unset (.inr (.inr rfl))
    · cases h
      exact .rootless ((record_other (by decide)).trans unset) (.inr (.inr rfl))

theorem enter_start (moves : Moves .reqSpacesBeforeUrl ch t) (h : ({} : Scan).enter t = some d) :
    Located [ch] d := by
  generalize first : UrlState.reqSpacesBeforeUrl = s at moves
  cases moves with
  | root =>
    cases h
    exact .rootless rfl (.inl rfl)
  | schema letter =>
    cases h
    exact .inSchema (show InSchema [ch] [] _ from
      { recorded := ⟨rfl, rfl, rfl, rfl, by simp⟩
        nonempty := by simp
        letters := by simpa using letter
        position := rfl
        oldUf := rfl
        state := by simp })
  | letter | colon | slash | slashSlash | path => cases first
  | server state | serverAt state | serverPath state | query state | fragment _ state => subst first; cases state
  | queryStart state | fragmentStart state =>
    subst first
    rcases state with state | state <;> cases state

theorem forall_mem_append {P : UInt8 → Prop} {text : Bytes} (all : ∀ x ∈ text, P x) (last : P ch) :
    ∀ x ∈ text ++ [ch], P x := by
  intro x mem
  rcases List.mem_append.mp mem with mem | mem
  · exact all x mem
  · rwa [List.mem_singleton.mp mem]

theorem InSchema.delimiter {schema separator : Bytes} (h : InSchema schema separator c) (ch : UInt8)
    (next : (t, separator ++ [ch]) ∈ [(.reqSchema, []), (.reqSchemaSlash, [byte ':']),
      (.reqSchemaSlashSlash, [byte ':', byte '/'])]) :
    InSchema schema (separator ++ [ch]) { c with s := t, p := c.p + 1 } where
  recorded := ⟨h.recorded.schema, h.recorded.host, h.recorded.path, h.recorded.port, h.recorded.foundAt⟩
  nonempty := h.nonempty
  letters := h.letters
  position := by simp [h.position, Nat.add_assoc]
  oldUf := h.oldUf
  state := next

theorem enter_inSchema {schema separator : Bytes} (inSchema : InSchema schema separator c)
    (moves : Moves c.s ch t) (h : c.enter t = some d) :
    Located (schema ++ separator ++ [ch]) d := by
  have ⟨recorded, nonempty, letters, position, oldUf, state⟩ := inSchema
  obtain ⟨s, p, old, found, u⟩ := c
  dsimp only at moves state position oldUf
  cases moves with
  | letter letter =>
    obtain rfl : separator = [] := by simpa using state
    cases h
    rw [List.append_nil, ← List.append_nil (schema ++ [ch])]
    exact .inSchema
      { recorded :=
          { schema := record_same ch recorded.schema (by simp [oldUf, nonempty]) (absurd · nonempty)
            host := (record_other (by decide)).trans recorded.host
            path := (record_other (by decide)).trans recorded.path
            port := (record_other (by decide)).trans recorded.port
            foundAt := by simpa using recorded.foundAt }
        nonempty := by simp
        letters := forall_mem_append letters letter
        position := by simp [position]
        oldUf := rfl
        state := by simp }
  | colon =>
    obtain rfl : separator = [] := by simpa using state
    cases h
    rw [List.append_assoc]
    exact .inSchema (inSchema.delimiter (byte ':') (by simp))
  | slash =>
    obtain rfl : separator = [byte ':'] := by simpa using state
    cases h
    rw [List.append_assoc]
    exact .inSchema (inSchema.delimiter (byte '/') (by simp))
  | slashSlash =>
    obtain rfl : separator = [byte ':', byte '/'] := by simpa using state
    cases h
    have text : schema ++ [byte ':', byte '/'] ++ [byte '/'] =
        ({ schema := schema } : Components).text := by
      simp [Components.text, Components.suffix, lead]
    rw [text]
    exact .rooted
      { recorded := ⟨recorded.schema, recorded.host, recorded.path, recorded.port, recorded.foundAt⟩
        nonempty := nonempty
        wellFormed := ⟨letters, by simp, by simp, by simp, by simp⟩
        position := by simp [position, ← text]
        reading := by simp [Components.Open, UrlState.inServer, oldUf] }
  | root | schema | path => simp at state
  | server inside | serverAt inside | serverPath inside | query inside | fragment _ inside =>
    cases s <;> simp [UrlState.inServer, UrlState.inQuery, UrlState.inFragment] at inside state
  | queryStart inside | fragmentStart inside =>
    cases s <;> simp [UrlState.inServer, UrlState.inQuery] at inside state

variable {parts : Components}

/-- A character of the authority. -/
theorem Rooted.enter_server (r : Rooted parts c) (state : c.s.inServer = true)
    (inside : inAuthority ch = true)
    (next : t = .reqServer ∧ ch ≠ byte '@' ∨ t = .reqServerWithAt ∧ ch = byte '@')
    (h : c.enter t = some d) :
    Located (parts.text ++ [ch]) d := by
  obtain ⟨recorded, nonempty, wellFormed, position, reading⟩ := r
  unfold Components.Open at reading
  rw [if_pos state] at reading
  obtain ⟨noPath, noQuery, noFragment, going, notPath⟩ := reading
  have noSuffix := Components.suffix_none noQuery noFragment
  obtain ⟨inServer, p, oldUf, u,
    foundAt⟩ : d.s.inServer = true ∧ d.p = c.p + 1 ∧ d.oldUf = some .host ∧
      d.u = c.record .host ∧ (d.foundAt = true ↔ c.foundAt = true ∨ ch = byte '@') := by
    rcases next with ⟨rfl, other⟩ | ⟨rfl, rfl⟩
    · cases h
      simp [UrlState.inServer, other]
    · cases h
      simp [UrlState.inServer]
  have text : parts.text ++ [ch] =
      ({ parts with authority := parts.authority ++ [ch] } : Components).text := by
    simp [Components.text, Components.suffix, noPath, noQuery, noFragment, lead]
  rw [text]
  exact .rooted
    { recorded :=
        { schema := by rw [u, record_other (by decide)]; exact recorded.schema
          host := by
            rw [u]
            refine record_same ch recorded.host going fun none => ?_
            simp [position, Components.text_length, noPath, noSuffix, none]
          path := by
            rw [u, record_other (by decide), recorded.path, noPath]
            rfl
          port := by rw [u, record_other (by decide)]; exact recorded.port
          foundAt := by simp [foundAt, recorded.foundAt, eq_comm] }
      nonempty := nonempty
      wellFormed := { wellFormed with authority := forall_mem_append wellFormed.authority inside }
      position := by rw [p, position, ← text]; simp
      reading := by
        unfold Components.Open
        rw [if_pos inServer]
        simp [noPath, noQuery, noFragment, oldUf] }

/-- A character of the path. -/
theorem Rooted.enter_path (r : Rooted parts c)
    (state : c.s.inServer = true ∧ ch = byte '/' ∨ c.s = .reqPath) (inside : inPath ch = true)
    (h : c.enter .reqPath = some d) : Located (parts.text ++ [ch]) d := by
  obtain ⟨recorded, nonempty, wellFormed, position, reading⟩ := r
  obtain ⟨noQuery, noFragment, going, rooted⟩ : parts.query = none ∧ parts.fragment = none ∧
      (c.oldUf = some .path ↔ parts.path ≠ []) ∧ (parts.path = [] → ch = byte '/') := by
    unfold Components.Open at reading
    rcases state with ⟨inServer, slash⟩ | inPath
    · rw [if_pos inServer] at reading
      exact ⟨reading.2.1, reading.2.2.1, by simp [reading.1, reading.2.2.2.2], fun _ => slash⟩
    · rw [inPath, if_neg (by decide), if_pos rfl] at reading
      exact ⟨reading.2.1, reading.2.2.1, by simp [reading.1, reading.2.2.2], (absurd · reading.1)⟩
  have noSuffix := Components.suffix_none noQuery noFragment
  have text : parts.text ++ [ch] = ({ parts with path := parts.path ++ [ch] } : Components).text := by
    simp [Components.text, Components.suffix, noQuery, noFragment, lead]
  cases h
  rw [text]
  exact .rooted
    { recorded :=
        { schema := (record_other (by decide)).trans recorded.schema
          host := (record_other (by decide)).trans recorded.host
          path := by
            refine record_same ch recorded.path going fun none => ?_
            simp [position, Components.text_length, noSuffix, none]
          port := (record_other (by decide)).trans recorded.port
          foundAt := by simpa using recorded.foundAt }
      nonempty := nonempty
      wellFormed :=
        { wellFormed with
          path := forall_mem_append wellFormed.path inside
          rooted := by
            cases path : parts.path with
            | nil => simpa using rooted path
            | cons first rest => simpa [path] using wellFormed.rooted }
      position := by rw [← text]; simp [position]
      reading := by simp [Components.Open, UrlState.inServer, noQuery, noFragment] }

/-- Behind the path nothing is recorded that the client uses. -/
theorem enter_later (later : t.inQuery = true ∨ t.inFragment = true) (h : c.enter t = some d) :
    d.s = t ∧ d.p = c.p + 1 ∧ d.foundAt = c.foundAt ∧
      ∀ other, other ≠ .query → other ≠ .fragment → d.u.fields other = c.u.fields other := by
  cases t <;> simp [UrlState.inQuery, UrlState.inFragment] at later
  · cases h
    exact ⟨rfl, rfl, rfl, fun _ _ _ => rfl⟩
  · cases h
    exact ⟨rfl, rfl, by simp, fun _ different _ => record_other different⟩
  · cases h
    exact ⟨rfl, rfl, rfl, fun _ _ _ => rfl⟩
  · cases h
    exact ⟨rfl, rfl, by simp, fun _ _ different => record_other different⟩

/-- A character of the query or of the fragment, or the delimiter of one of them. -/
theorem Rooted.enter_suffix {query fragment : Option Bytes} (r : Rooted parts c)
    (later : t.inQuery = true ∨ t.inFragment = true) (h : c.enter t = some d)
    (suffix : lead '?' query ++ lead '#' fragment = parts.suffix ++ [ch])
    (wellFormed : ∀ text ∈ query, byte '#' ∉ text)
    (reading : t.inQuery = true ∧ query.isSome = true ∧ fragment = none ∨
      t.inFragment = true ∧ fragment.isSome = true) :
    Located (parts.text ++ [ch]) d := by
  obtain ⟨s, p, foundAt, keeps⟩ := enter_later later h
  have text : parts.text ++ [ch] =
      ({ parts with query := query, fragment := fragment } : Components).text := by
    simp only [Components.text, Components.suffix] at suffix ⊢
    rw [List.append_assoc, suffix]
  rw [text]
  exact .rooted
    { recorded :=
        { schema := (keeps _ (by decide) (by decide)).trans r.recorded.schema
          host := (keeps _ (by decide) (by decide)).trans r.recorded.host
          path := (keeps _ (by decide) (by decide)).trans r.recorded.path
          port := (keeps _ (by decide) (by decide)).trans r.recorded.port
          foundAt := by rw [foundAt]; exact r.recorded.foundAt }
      nonempty := r.nonempty
      wellFormed := { r.wellFormed with query := wellFormed }
      position := by rw [p, r.position, ← text]; simp
      reading := by
        unfold Components.Open
        rw [s]
        rcases reading with ⟨inQuery, reading⟩ | ⟨inFragment, reading⟩
        · cases t <;> simp [UrlState.inQuery] at inQuery
          all_goals simpa [UrlState.inServer, UrlState.inQuery] using reading
        · cases t <;> simp [UrlState.inFragment] at inFragment
          all_goals simpa [UrlState.inServer, UrlState.inQuery, UrlState.inFragment] using reading }

theorem Rooted.enter (r : Rooted parts c) (moves : Moves c.s ch t) (h : c.enter t = some d) :
    Located (parts.text ++ [ch]) d := by
  have reading := r.reading
  unfold Components.Open at reading
  generalize state : c.s = s at moves reading
  cases moves with
  | root | schema | letter | colon | slash | slashSlash =>
    simp [UrlState.inServer, UrlState.inQuery, UrlState.inFragment] at reading
  | server inServer inside other => exact r.enter_server (state ▸ inServer) inside (.inl ⟨rfl, other⟩) h
  | serverAt inServer => exact r.enter_server (state ▸ inServer) (by decide) (.inr ⟨rfl, rfl⟩) h
  | serverPath inServer => exact r.enter_path (.inl ⟨state ▸ inServer, rfl⟩) (by decide) h
  | path inside => exact r.enter_path (.inr state) inside h
  | queryStart before =>
    obtain ⟨noQuery, noFragment⟩ : parts.query = none ∧ parts.fragment = none := by
      rcases before with inServer | rfl
      · rw [if_pos inServer] at reading
        exact ⟨reading.2.1, reading.2.2.1⟩
      · rw [if_neg (by decide), if_pos rfl] at reading
        exact ⟨reading.2.1, reading.2.2.1⟩
    have suffix : lead '?' (some []) ++ lead '#' none = parts.suffix ++ [byte '?'] := by
      rw [Components.suffix_none noQuery noFragment]
      rfl
    exact r.enter_suffix (.inl rfl) h suffix (by simp) (.inl ⟨rfl, rfl, rfl⟩)
  | query inQuery inside =>
    obtain ⟨hasQuery, noFragment⟩ : parts.query.isSome = true ∧ parts.fragment = none := by
      cases s <;> simp [UrlState.inQuery] at inQuery
      all_goals simpa [UrlState.inServer, UrlState.inQuery] using reading
    obtain ⟨query, isQuery⟩ := Option.isSome_iff_exists.mp hasQuery
    have suffix : lead '?' (some (query ++ [ch])) ++ lead '#' none = parts.suffix ++ [ch] := by
      simp [Components.suffix, isQuery, noFragment, lead]
    refine r.enter_suffix (.inl rfl) h suffix ?_ (.inl ⟨rfl, rfl, rfl⟩)
    rintro text ⟨rfl⟩
    simpa [inside.symm] using r.wellFormed.query query isQuery
  | fragmentStart before =>
    have noFragment : parts.fragment = none := by
      rcases before with rfl | inQuery
      · rw [if_neg (by decide), if_pos rfl] at reading
        exact reading.2.2.1
      · cases s <;> simp [UrlState.inQuery] at inQuery
        all_goals simpa [UrlState.inServer, UrlState.inQuery] using reading.2
    have suffix : lead '?' parts.query ++ lead '#' (some []) = parts.suffix ++ [byte '#'] := by
      simp [Components.suffix, noFragment, lead]
    exact r.enter_suffix (.inr rfl) h suffix r.wellFormed.query (.inr ⟨rfl, rfl⟩)
  | fragment _ inFragment next =>
    have hasFragment : parts.fragment.isSome = true := by
      cases s <;> simp [UrlState.inFragment] at inFragment
      all_goals simpa [UrlState.inServer, UrlState.inQuery, UrlState.inFragment] using reading
    obtain ⟨fragment, isFragment⟩ := Option.isSome_iff_exists.mp hasFragment
    have suffix : lead '?' parts.query ++ lead '#' (some (fragment ++ [ch])) =
        parts.suffix ++ [ch] := by
      simp [Components.suffix, isFragment, lead]
    exact r.enter_suffix (.inr next) h suffix r.wellFormed.query (.inr ⟨next, rfl⟩)

theorem scanChar_located {read : Bytes} (located : Located read c) (h : scanChar c ch = some d) :
    Located (read ++ [ch]) d := by
  obtain ⟨t, moves, entered⟩ := scanChar_moves h
  cases located with
  | start => exact enter_start moves entered
  | rootless unset state => exact enter_rootless unset state moves entered
  | inSchema inSchema => exact enter_inSchema inSchema moves entered
  | rooted rooted => exact rooted.enter moves entered

/-- A string with a host is the text of its components, and these are what the scanner has
recorded. -/
theorem scan_components (h : run scanChar {} u = some c) (host : (c.u.fields .host).isSet = true) :
    (components u).text = u ∧ (components u).WellFormed ∧ (components u).schema ≠ [] ∧
      (components u).authority ≠ [] ∧ Recorded (components u) c := by
  have located : Located u c :=
    run_reads (fun _ _ _ _ located step => scanChar_located located step) .start h
  cases located with
  | start => cases host
  | rootless unset => rw [unset] at host; cases host
  | inSchema inSchema => rw [inSchema.recorded.host] at host; cases host
  | @rooted parts _ rooted =>
    rw [Components.components_text rooted.wellFormed]
    refine ⟨rfl, rooted.wellFormed, rooted.nonempty, fun none => ?_, rooted.recorded⟩
    rw [rooted.recorded.host, none] at host
    cases host

end Kingkong.Url
