import Kingkong.Url.Client

/-!
A query behind a URL that has none. The parser accepts the longer string and finds the same server
in it.
-/

namespace Kingkong.Url
open Lib

variable {u q : Bytes} {parsed : HttpParserUrl} {c d : Scan}

/-! ### The scanner of the whole string -/

theorem parseUrlChar_query {s : UrlState} {ch : UInt8} (inQuery : s.inQuery = true)
    (visible : isUrlChar ch = true) :
    parseUrlChar s ch = .reqQueryString := by
  have other (blank : UInt8) (hidden : isUrlChar blank = false) : ch ≠ blank := by
    rintro rfl
    rw [hidden] at visible
    cases visible
  have first : ¬ (ch = byte ' ' ∨ ch = byte '\r' ∨ ch = byte '\n') := by
    rintro (same | same | same)
    · exact other _ (by decide) same
    · exact other _ (by decide) same
    · exact other _ (by decide) same
  have second : ¬ (ch = byte '\t' ∨ ch = 0x0c) := by
    rintro (same | same)
    · exact other _ (by decide) same
    · exact other _ (by decide) same
  unfold parseUrlChar
  rw [if_neg first, if_neg second]
  cases s <;> simp_all [UrlState.inQuery]

/-- `d` has the same parts of the URL as `c`, but for the query. -/
structure SameServer (c d : Scan) : Prop where
  fields : ∀ uf, uf ≠ .query → d.u.fields uf = c.u.fields uf
  foundAt : d.foundAt = c.foundAt

theorem scan_query (inQuery : c.s.inQuery = true) (visible : ∀ ch ∈ q, isUrlChar ch = true) :
    ∃ d, run scanChar c q = some d ∧ SameServer c d := by
  induction q generalizing c with
  | nil => exact ⟨c, rfl, fun _ _ => rfl, rfl⟩
  | cons ch q ih =>
    obtain ⟨first, rest⟩ := List.forall_mem_cons.mp visible
    have entered : scanChar c ch =
        some { s := .reqQueryString, p := c.p + 1, oldUf := some .query, foundAt := c.foundAt, u := c.record .query } := by
      rw [scanChar, parseUrlChar_query inQuery first]
      simp [Scan.enter, UrlState.reading]
    obtain ⟨d, ran, same⟩ := ih (c :=
      { s := .reqQueryString
        p := c.p + 1
        oldUf := some .query
        foundAt := c.foundAt
        u := c.record .query }) rfl rest
    refine ⟨d, run_cons.mpr ⟨_, entered, ran⟩, fun uf other => ?_, same.foundAt⟩
    rw [same.fields uf other]
    exact record_other other

/-! ### The scanner of the authority -/

structure SameHost (b a : HostScan) : Prop where
  state : b.s = a.s
  position : b.p = a.p
  fields : ∀ uf, uf ≠ .query → b.u.fields uf = a.u.fields uf

theorem modify_same {v w : HttpParserUrl} (same : ∀ uf, uf ≠ .query → w.fields uf = v.fields uf)
    {uf : UrlField} (other : uf ≠ .query) (f : FieldData → FieldData) :
    ∀ field, field ≠ .query → (w.modify uf f).fields field = (v.modify uf f).fields field := by
  intro field outside
  rw [HttpParserUrl.modify_fields, HttpParserUrl.modify_fields, same uf other, same field outside]

theorem record_sameHost {a b : HostScan} (same : SameHost b a) (next : HostState) :
    ∀ uf, uf ≠ .query → (b.record next).fields uf = (a.record next).fields uf := by
  obtain ⟨state, position, fields⟩ := same
  unfold HostScan.record
  rw [state, position]
  have extended {v w : HttpParserUrl} (same : ∀ uf, uf ≠ .query →
      w.fields uf = v.fields uf) {uf : UrlField}
      (other : uf ≠ .query) : ∀ field, field ≠ .query → (w.extend uf).fields field = (v.extend uf).fields field :=
    modify_same same other _
  split
  · apply extended _ (by decide)
    split
    · exact modify_same fields (by decide) _
    · exact fields
  · apply extended _ (by decide)
    split
    · exact modify_same fields (by decide) _
    · exact fields
  · exact extended fields (by decide)
  · exact extended fields (by decide)
  · apply extended _ (by decide)
    split
    · exact modify_same fields (by decide) _
    · exact fields
  · apply extended _ (by decide)
    split
    · exact modify_same fields (by decide) _
    · exact fields
  · exact fields

theorem hostChar_same {a b next : HostScan} {ch : UInt8} (same : SameHost b a)
    (h : hostChar a ch = some next) :
    ∃ last, hostChar b ch = some last ∧ SameHost last next := by
  unfold hostChar at h ⊢
  dsimp only at h ⊢
  rw [same.state]
  split at h
  · cases h
  · rename_i alive
    cases h
    rw [if_neg alive]
    exact ⟨_, rfl, rfl, congrArg (· + 1) same.position, record_sameHost same _⟩

/-- The text of the authority alone decides whether it is accepted. -/
theorem httpParseHost_same {buf longer : Bytes} {v w parsed : HttpParserUrl} {foundAt : Bool}
    (same : ∀ uf, uf ≠ .query → w.fields uf = v.fields uf)
    (text : (longer.drop (v.fields .host).off).take (v.fields .host).len =
      (buf.drop (v.fields .host).off).take (v.fields .host).len)
    (h : httpParseHost buf v foundAt = some parsed) :
    ∃ other, httpParseHost longer w foundAt = some other ∧ ∀ uf, uf ≠ .query →
      other.fields uf = parsed.fields uf := by
  unfold httpParseHost at h ⊢
  obtain ⟨last, ran, ends⟩ := Option.bind_eq_some_iff.mp h
  split_ifs at ends with expected
  cases ends
  dsimp only
  rw [same .host (by decide), text]
  have start (s : HostState) (p : Nat) : SameHost
      { s := s, p := p, u := w.modify .host fun field => { field with len := 0 } }
      { s := s, p := p, u := v.modify .host fun field => { field with len := 0 } } := by
    refine ⟨rfl, rfl, ?_⟩
    dsimp only
    exact modify_same same (by decide) _
  have each (b a : HostScan) (ch : UInt8) (next : HostScan) (same : SameHost b a) (step : hostChar a ch = some next) :
      ∃ last, hostChar b ch = some last ∧ SameHost last next := hostChar_same same step
  obtain ⟨end_, reached, agree⟩ := run_simulates each (start _ _) ran
  refine ⟨end_.u, ?_, agree.fields⟩
  rw [reached, Option.bind_some, agree.state, if_neg expected]

/-! ### The whole string -/

/-- A path that is not closed yet is where a query may begin. -/
theorem scan_path (scanned : run scanChar {} u = some c) (host : (c.u.fields .host).isSet = true)
    (path : (components u).path ≠ []) (noQuery : (components u).query = none)
    (noFragment : (components u).fragment = none) :
    c.s = .reqPath := by
  have located : Located u c :=
    run_reads (fun _ _ _ _ located step => scanChar_located located step) .start scanned
  cases located with
  | start => cases host
  | rootless unset => rw [unset] at host; cases host
  | inSchema inSchema => rw [inSchema.recorded.host] at host; cases host
  | @rooted parts _ rooted =>
    rw [Components.components_text rooted.wellFormed] at path noQuery noFragment
    have reading := rooted.reading
    unfold Components.Open at reading
    split at reading
    · exact absurd reading.1 path
    · split at reading
      · assumption
      · split at reading
        · rw [noQuery] at reading
          cases reading.1
        · rw [noFragment] at reading
          cases reading.2

/-- The digits of the port are followed by the path, so `strtoul` reads no further. -/
theorem strtoul_longer {v : HttpParserUrl} {rest : Bytes} (scanned : run scanChar {} u = some c)
    (host : (c.u.fields .host).isSet = true) (parsedHost : httpParseHost u c.u c.foundAt = some v)
    (path : (components u).path ≠ []) (short : u.length < 65536)
    (port : (v.fields .port).isSet = true) :
    strtoul ((u ++ rest).drop (v.fields .port).off) = strtoul (u.drop (v.fields .port).off) := by
  obtain ⟨text, wellFormed, -, nonempty, recorded⟩ := scan_components scanned host
  obtain ⟨parts, last, rfl, region, complete, kept⟩ :=
    httpParseHost_recorded recorded.port parsedHost
  have length := (components u).text_length
  rw [text] at length
  generalize components u = whole at *
  have split : u =
      (whole.schema ++ [byte ':', byte '/', byte '/']) ++ whole.authority ++ (whole.path ++ whole.suffix) := by
    rw [← text]
    simp [Components.text]
  have front : whole.schema.length + 3 = (whole.schema ++ [byte ':', byte '/',
      byte '/']).length := by simp
  rw [recorded.host, fieldAt, if_neg nonempty] at region kept
  dsimp only at region kept
  rw [uint16_of_lt (by omega), front] at kept
  rw [uint16_of_lt (by omega), uint16_of_lt (by omega), split, front, List.append_assoc,
    List.drop_left, List.take_left] at region
  have reach : (whole.schema ++ [byte ':', byte '/',
      byte '/']).length + parts.text.length < 65536 := by
    rw [region, ← front]
    omega
  rw [← region] at split
  have stop : ∀ ch ∈ (whole.path ++ whole.suffix).head?, isNum ch = false := by
    intro ch mem
    have outside := wellFormed.head_afterAuthority mem
    by_contra digit
    rw [inAuthority_of_isNum (by simpa using digit)] at outside
    cases outside
  have stopToo : ∀ ch ∈ (whole.path ++ whole.suffix ++ rest).head?, isNum ch = false := by
    obtain ⟨first, more, isPath⟩ := List.exists_cons_of_ne_nil path
    rw [isPath] at stop ⊢
    exact stop
  cases isPort : parts.port with
  | none =>
    have unset := kept.port
    rw [isPort] at unset
    rw [unset] at port
    cases port
  | some digits =>
    obtain ⟨some_, allDigits⟩ := complete.port digits isPort
    have behind := (kept.drop_port (whole.path ++ whole.suffix) isPort some_ reach).2
    have behindToo := (kept.drop_port (whole.path ++ whole.suffix ++ rest) isPort some_ reach).2
    rw [← List.append_assoc, ← split] at behindToo
    rw [← split] at behind
    rw [behind, behindToo, strtoul_digits some_ allDigits stop,
      strtoul_digits some_ allDigits stopToo]

/-- A query behind a URL with a path and without a query or a fragment. -/
theorem query_accepted (h : httpParserParseUrl u = some parsed)
    (schema : (parsed.fields .schema).isSet = true) (path : (components u).path ≠ [])
    (noQuery : (components u).query = none) (noFragment : (components u).fragment = none)
    (visible : ∀ ch ∈ q, isUrlChar ch = true) (short : u.length < 65536) :
    HasSchema (u ++ byte '?' :: q) := by
  obtain ⟨c, v, scanned, host, parsedHost, fields, number⟩ := httpParserParseUrl_cases h schema
  have state := scan_path scanned host path noQuery noFragment
  obtain ⟨text, wellFormed, hasSchema, nonempty, recorded⟩ := scan_components scanned host
  have question : scanChar c (byte '?') =
      some { c with s := .reqQueryStringStart, p := c.p + 1 } := by
    rw [scanChar, state]
    rfl
  obtain ⟨d, ran, same⟩ :=
    scan_query (c := { c with s := .reqQueryStringStart, p := c.p + 1 }) rfl visible
  have whole : run scanChar {} (u ++ byte '?' :: q) = some d :=
    run_append.mpr ⟨c, scanned, run_cons.mpr ⟨_, question, ran⟩⟩
  have schemaSet : (d.u.fields .schema).isSet = true := by
    rw [same.fields _ (by decide)]
    show (c.u.fields .schema).isSet = true
    rw [recorded.schema, fieldAt, if_neg hasSchema]
  have hostSet : (d.u.fields .host).isSet = true := by
    rw [same.fields _ (by decide)]
    exact host
  -- The authority lies inside of the string that was there before.
  have length := (components u).text_length
  rw [text] at length
  have inside : (c.u.fields .host).off + (c.u.fields .host).len ≤ u.length := by
    rw [recorded.host, fieldAt, if_neg nonempty]
    dsimp only
    rw [uint16_of_lt (by omega), uint16_of_lt (by omega)]
    omega
  have region : ((u ++ byte '?' :: q).drop (c.u.fields .host).off).take (c.u.fields .host).len =
      (u.drop (c.u.fields .host).off).take (c.u.fields .host).len := by
    rw [List.drop_append_of_le_length (by omega),
      List.take_append_of_le_length (by rw [List.length_drop]; omega)]
  obtain ⟨other, parsedToo, agree⟩ := httpParseHost_same (w := d.u) same.fields region parsedHost
  have otherSchema : (other.fields .schema).isSet = true := by
    rw [agree _ (by decide), ← fields]
    exact schema
  have opened : httpParserParseUrl (u ++ byte '?' :: q) =
      if (other.fields .port).isSet then
        if 0xffff < strtoul ((u ++ byte '?' :: q).drop (other.fields .port).off) then none
        else some { other with port := uint16 (strtoul ((u ++ byte '?' :: q).drop (other.fields .port).off)) }
      else some other := by
    unfold httpParserParseUrl
    rw [whole, Option.bind_some]
    dsimp only
    rw [schemaSet, hostSet, same.foundAt]
    simp only [Bool.not_true, Bool.and_false, Bool.false_eq_true, if_false, if_true]
    rw [show httpParseHost _ d.u c.foundAt = _ from parsedToo, Option.bind_some]
  by_cases port : (other.fields .port).isSet = true
  · have before : (v.fields .port).isSet = true := by rwa [← agree _ (by decide)]
    rw [if_pos before] at number
    rw [if_pos port, agree _ (by decide), strtoul_longer scanned host parsedHost path short before,
      if_neg (by omega)] at opened
    exact ⟨_, opened, otherSchema⟩
  · rw [if_neg port] at opened
    exact ⟨_, opened, otherSchema⟩

theorem components_query (text : (components u).text = u) (wellFormed : (components u).WellFormed)
    (noQuery : (components u).query = none) (noFragment : (components u).fragment = none)
    (visible : ∀ ch ∈ q, isUrlChar ch = true) :
    components (u ++ byte '?' :: q) = { components u with query := some q } := by
  generalize components u = parts at *
  have longer : u ++ byte '?' :: q = ({ parts with query := some q } : Components).text := by
    rw [← text, Components.text, Components.text, Components.suffix_none noQuery noFragment,
      Components.suffix, noFragment]
    simp [lead]
  rw [longer]
  apply Components.components_text
  refine ⟨wellFormed.schema, wellFormed.authority, wellFormed.path, wellFormed.rooted, ?_⟩
  rintro _ ⟨⟩ hash
  exact absurd (visible _ hash) (by decide)

/-- The client connects to the server that the URL names, and it does so by TLS if the schema is
`https` in lower case. -/
structure Names (parts : Components) (client : HttpClient) : Prop where
  impl : client.impl = if parts.schema = https then .httpsClientImpl else .httpClientImpl
  netType : client.request.netType = if parts.schema = https then .https else .http
  host : client.request.host = (hostAndPort parts.authority).host
  port : client.request.port.toNat =
    if portNumber (hostAndPort parts.authority).port = 0 then if parts.schema = https then 443 else 80
    else portNumber (hostAndPort parts.authority).port

theorem requestOf_names (request : HttpClientRequest) (h : httpParserParseUrl u = some parsed)
    (schema : (parsed.fields .schema).isSet = true) (reach : WithinReach u) :
    Names (components u) (clientFor request (requestOf u parsed)) := by
  have isSchema := substr_schema h schema reach
  obtain ⟨host, port, small⟩ := parsed_authority h schema reach
  have number := requestOf_port (u := u) small
  rw [isSchema, port] at number
  refine ⟨?_, ?_, host, number⟩
  · by_cases isHttps : (components u).schema = https <;> simp [clientFor, requestOf, isSchema, isHttps]
  · by_cases isHttps : (components u).schema = https <;> simp [clientFor, requestOf, isSchema, isHttps]

/-- Behind a URL with a path, a query changes nothing but the target of the request. -/
theorem client_query {ndebug : Bool} {request : HttpClientRequest}
    (url : request.url = u ++ byte '?' :: q) (hasSchema : HasSchema u)
    (path : (components u).path ≠ []) (noQuery : (components u).query = none)
    (noFragment : (components u).fragment = none) (visible : ∀ ch ∈ q, isUrlChar ch = true)
    (short : (u ++ byte '?' :: q).length < 65536) :
    ∃ client, createHttpClient ndebug request = some client ∧ Names (components u) client ∧
      client.request.path = (components u).path ++ byte '?' :: q := by
  obtain ⟨parsed, h, schema⟩ := hasSchema
  have before : u.length < 65536 := by
    rw [List.length_append] at short
    omega
  obtain ⟨longer, accepted, schemaToo⟩ :=
    query_accepted h schema path noQuery noFragment visible before
  obtain ⟨text, wellFormed, -, -, -⟩ := parsed_components h schema
  have same := components_query text wellFormed noQuery noFragment visible
  have length := (components u).text_length
  rw [text] at length
  have reach : WithinReach (u ++ byte '?' :: q) := by
    unfold WithinReach
    rw [same]
    show (components u).schema.length + 3 + (components u).authority.length < 65536
    omega
  have target := requestOf_path accepted schemaToo short
  have names := requestOf_names request accepted schemaToo reach
  have suffix : ({ components u with query := some q } : Components).suffix = byte '?' :: q := by
    simp [Components.suffix, noFragment, lead]
  rw [same, if_neg path, suffix] at target
  rw [same] at names
  rw [← url] at accepted names target
  exact ⟨_, createHttpClient_accepted accepted, ⟨names.impl, names.netType, names.host,
    names.port⟩, target⟩

end Kingkong.Url
