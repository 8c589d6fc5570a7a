import Kingkong.Connection.Model
import Kingkong.Url.Host

/-!
`CreateHttpClient`: what of a URL decides the host, the port, the transport and the target of a
request. The path is cut out by its offset alone, and the offset of an absent path is 0; the schema
is compared as it is written; and a string that the parser rejects stops the program only where
assertions are compiled in.
-/

namespace Kingkong.Url
open Lib

variable {u : Bytes} {parsed : HttpParserUrl}

structure HttpClientRequest where
  url : Bytes
  proxyHost : Bytes := []
  proxyPort : UInt16 := 0
  proxyUsername : Bytes := []
  proxyPasswd : Bytes := []

/-- The request of an HTTP connection. Its path is sent as the request target. -/
structure HttpConnectionRequest extends Connection.NetConnectionRequest where
  path : Bytes := [byte '/']

inductive HttpImpl where
  | httpClientImpl
  | httpsClientImpl
  deriving DecidableEq

structure HttpClient where
  impl : HttpImpl
  request : HttpConnectionRequest

def https : Bytes := ['h', 't', 't', 'p', 's'].map byte

/-- The fields of the request that come from the URL. -/
def requestOf (url : Bytes) (parsed : HttpParserUrl) : HttpConnectionRequest :=
  let scheme := substr url (parsed.fields .schema)
  let port := UInt16.ofNat parsed.port
  let path := url.drop (parsed.fields .path).off
  { host := substr url (parsed.fields .host)
    port := if port = 0 then if scheme = https then 443 else 80 else port
    netType := if scheme = https then .https else .http
    path := if path = [] then [byte '/'] else path }

/-- The end of `CreateHttpClient`. -/
def clientFor (request : HttpClientRequest) (connection : HttpConnectionRequest) : HttpClient :=
  { impl := if connection.netType = .http then .httpClientImpl else .httpsClientImpl
    request :=
      { connection with
        proxyHost := request.proxyHost
        proxyPort := request.proxyPort
        proxyUsername := request.proxyUsername
        proxyPasswd := request.proxyPasswd } }

/-- The client for a request, with `ndebug` where `BOOST_VERIFY` only evaluates its argument;
otherwise a string that the parser rejects ends the program. The request of the connection is
value-initialised, so its port is 0 until it is assigned. -/
def createHttpClient (ndebug : Bool) (request : HttpClientRequest) : Option HttpClient :=
  match httpParserParseUrl request.url with
  | some parsed => some (clientFor request (requestOf request.url parsed))
  | none => if ndebug then some (clientFor request { host := [], port := 0 }) else none

/-! ### What the parser has found -/

theorem scanChar_port {c d : Scan} {ch : UInt8} (h : scanChar c ch = some d) :
    d.u.port = c.u.port := by
  unfold scanChar Scan.enter at h
  split at h
  · cases h
  · cases h
    rfl
  · cases h
    dsimp only
    unfold Scan.record
    split <;> rfl

theorem hostChar_port {c d : HostScan} {ch : UInt8} (h : hostChar c ch = some d) :
    d.u.port = c.u.port := by
  obtain ⟨t, -, rfl⟩ := hostChar_moves h
  dsimp only
  unfold HostScan.record
  split <;> try split
  all_goals rfl

theorem httpParseHost_port {foundAt : Bool} {v : HttpParserUrl}
    (h : httpParseHost u parsed foundAt = some v) :
    v.port = parsed.port := by
  obtain ⟨last, reads, ends⟩ := Option.bind_eq_some_iff.mp h
  split_ifs at ends
  cases ends
  refine run_keeps (I := fun c => c.u.port = parsed.port) (fun c ch d same step => ?_) rfl reads
  exact (hostChar_port step).trans same

/-- The port that is left at 0 where the URL has none. -/
def portNumber : Option Bytes → Nat
  | none => 0
  | some digits => decimal digits

theorem httpParserParseUrl_cases (h : httpParserParseUrl u = some parsed)
    (schema : (parsed.fields .schema).isSet = true) :
    ∃ c v, run scanChar {} u = some c ∧ (c.u.fields .host).isSet = true ∧
      httpParseHost u c.u c.foundAt = some v ∧ parsed.fields = v.fields ∧
      if (v.fields .port).isSet then
        strtoul (u.drop (v.fields .port).off) ≤ 0xffff ∧
        parsed.port = strtoul (u.drop (v.fields .port).off)
      else parsed.port = 0 := by
  unfold httpParserParseUrl at h
  obtain ⟨c, scanned, h⟩ := Option.bind_eq_some_iff.mp h
  have zero : c.u.port = 0 := by
    refine run_keeps (I := fun c => c.u.port = 0) (fun c ch d same step => ?_) rfl scanned
    exact (scanChar_port step).trans same
  dsimp only at h
  split at h
  · cases h
  next schemaless =>
  by_cases host : (c.u.fields .host).isSet = true
  · rw [if_pos host] at h
    obtain ⟨v, parsedHost, h⟩ := Option.bind_eq_some_iff.mp h
    refine ⟨c, v, scanned, host, parsedHost, ?_⟩
    split_ifs at h ⊢ with port small
    · cases h
      exact ⟨rfl, by omega, uint16_of_lt (by omega)⟩
    · cases h
      exact ⟨rfl, (httpParseHost_port parsedHost).trans zero⟩
  · rw [if_neg host, Option.bind_some] at h
    have fields : parsed.fields = c.u.fields := by
      split_ifs at h <;> cases h <;> rfl
    rw [fields] at schema
    exact absurd (by simp [schema, host]) schemaless

/-- The schema and the path of an accepted URL are where the parser says, up to the width of an
offset. -/
theorem parsed_components (h : httpParserParseUrl u = some parsed)
    (schema : (parsed.fields .schema).isSet = true) :
    (components u).text = u ∧ (components u).WellFormed ∧ (components u).schema ≠ [] ∧
      parsed.fields .schema = fieldAt 0 (components u).schema ∧
      parsed.fields .path =
        fieldAt ((components u).schema.length + 3 + (components u).authority.length) (components u).path := by
  obtain ⟨c, v, scanned, host, parsedHost, fields, -⟩ := httpParserParseUrl_cases h schema
  obtain ⟨text, wellFormed, nonempty, -, recorded⟩ := scan_components scanned host
  obtain ⟨parts, last, rfl, -, -, kept⟩ := httpParseHost_recorded recorded.port parsedHost
  rw [fields]
  exact ⟨text, wellFormed, nonempty, (kept.keeps _ (by decide)).trans recorded.schema,
    (kept.keeps _ (by decide)).trans recorded.path⟩

/-- What a field can describe of a part that begins at `off`. Offsets and lengths are 16 bits
wide. -/
def reached (u : Bytes) (off len : Nat) : Bytes := (u.drop (uint16 off)).take (uint16 len)

def schemaSeen (u : Bytes) : Bytes := reached u 0 (components u).schema.length

def authoritySeen (u : Bytes) : Bytes :=
  reached u ((components u).schema.length + 3) (components u).authority.length

/-- The host of the authority as far as that is seen, at its offset modulo 65536. -/
def hostSeen (u : Bytes) : Bytes :=
  reached u ((components u).schema.length + 3 + hostOffset (authoritySeen u))
    (hostAndPort (authoritySeen u)).host.length

/-- The number at the offset of the port modulo 65536, if there is a port in what is seen of the
authority. -/
def portSeen (u : Bytes) : Nat :=
  match (hostAndPort (authoritySeen u)).port with
  | none => 0
  | some digits =>
    strtoul (u.drop (uint16 ((components u).schema.length + 3 + ((authoritySeen u).length - digits.length))))

theorem uint16_add (a b : Nat) : uint16 (uint16 a + b) = uint16 (a + b) := Nat.mod_add_mod ..

/-- What the client takes from a URL of any length. -/
theorem parsed_seen (h : httpParserParseUrl u = some parsed)
    (schema : (parsed.fields .schema).isSet = true) :
    substr u (parsed.fields .schema) = schemaSeen u ∧ substr u (parsed.fields .host) = hostSeen u ∧
      parsed.port = portSeen u ∧ parsed.port ≤ 0xffff := by
  obtain ⟨c, v, scanned, host, parsedHost, fields, number⟩ := httpParserParseUrl_cases h schema
  obtain ⟨-, -, nonempty, isSchema, -⟩ := parsed_components h schema
  obtain ⟨-, -, -, authority, recorded⟩ := scan_components scanned host
  obtain ⟨parts, last, rfl, region, complete, kept⟩ :=
    httpParseHost_recorded recorded.port parsedHost
  rw [recorded.host, fieldAt, if_neg authority] at region kept
  have seen : parts.text = authoritySeen u := region
  refine ⟨?_, ?_, ?_⟩
  · rw [isSchema, fieldAt, if_neg nonempty]
    rfl
  · rw [fields, hostSeen, ← seen, complete.hostAndPort_text, complete.hostOffset_text, substr,
      reached, kept.off complete.named.1, kept.len, uint16_add]
  · rw [portSeen, ← seen, complete.hostAndPort_text]
    have port := kept.port
    cases isPort : parts.port with
    | none =>
      rw [isPort] at port
      rw [port] at number
      have number : parsed.port = 0 := number
      exact ⟨number, by omega⟩
    | some digits =>
      obtain ⟨some_, -⟩ := complete.port digits isPort
      have length : parts.text.length - digits.length = parts.beforePort.length + 1 := by
        simp only [HostParts.text, isPort, lead, List.length_append, List.length_cons]
        omega
      rw [isPort, Option.getD_some, fieldAt, if_neg some_] at port
      rw [port, if_pos rfl] at number
      dsimp only at number ⊢
      rw [Nat.add_assoc, uint16_add] at number
      rw [length]
      omega

theorem inAuthority_of_isNum {ch : UInt8} (h : isNum ch = true) : inAuthority ch = true := by
  simp only [inAuthority, Bool.and_eq_true, bne_iff_ne]
  refine ⟨⟨?_, ?_⟩, ?_⟩
  all_goals
    rintro rfl
    exact absurd h (by decide)

/-- The host and the port are those of the authority if the authority lies within reach of an
offset. -/
theorem parsed_authority (h : httpParserParseUrl u = some parsed)
    (schema : (parsed.fields .schema).isSet = true)
    (short : (components u).schema.length + 3 + (components u).authority.length < 65536) :
    substr u (parsed.fields .host) = (hostAndPort (components u).authority).host ∧
      parsed.port = portNumber (hostAndPort (components u).authority).port ∧
      parsed.port ≤ 0xffff := by
  obtain ⟨c, v, scanned, host, parsedHost, fields, number⟩ := httpParserParseUrl_cases h schema
  obtain ⟨text, wellFormed, -, nonempty, recorded⟩ := scan_components scanned host
  obtain ⟨parts, last, rfl, region, complete, kept⟩ :=
    httpParseHost_recorded recorded.port parsedHost
  generalize components u = whole at *
  have split : u =
      (whole.schema ++ [byte ':', byte '/', byte '/']) ++ whole.authority ++ (whole.path ++ whole.suffix) := by
    rw [← text]
    simp [Components.text]
  have front : whole.schema.length + 3 = (whole.schema ++ [byte ':', byte '/',
      byte '/']).length := by simp
  rw [recorded.host, fieldAt, if_neg nonempty] at region kept
  dsimp only at region kept
  rw [uint16_of_lt (by omega), front] at kept
  rw [uint16_of_lt (by omega), uint16_of_lt (by omega), split, front, List.append_assoc,
    List.drop_left, List.take_left] at region
  rw [← region] at split short ⊢
  rw [complete.hostAndPort_text, fields]
  rw [front] at short
  refine ⟨?_, ?_⟩
  · rw [split]
    exact kept.substr_host _ complete.named short
  · have stop : ∀ ch ∈ (whole.path ++ whole.suffix).head?, isNum ch = false := by
      intro ch mem
      have outside := wellFormed.head_afterAuthority mem
      by_contra digit
      rw [inAuthority_of_isNum (by simpa using digit)] at outside
      cases outside
    cases isPort : parts.port with
    | none =>
      have unset := kept.port
      rw [isPort] at unset
      rw [unset] at number
      have number : parsed.port = 0 := number
      rw [number]
      exact ⟨rfl, by omega⟩
    | some digits =>
      obtain ⟨nonempty, allDigits⟩ := complete.port digits isPort
      obtain ⟨isSet, behind⟩ := kept.drop_port (whole.path ++ whole.suffix) isPort nonempty short
      rw [if_pos isSet, split, behind, strtoul_digits nonempty allDigits stop] at number
      exact ⟨by rw [portNumber]; omega, by omega⟩

/-! ### The request target -/

variable {ndebug : Bool} {request : HttpClientRequest}

/-- The target in origin form: the path, or `/` where there is none, and the query. -/
def Components.originForm (parts : Components) : Bytes :=
  (if parts.path = [] then [byte '/'] else parts.path) ++ lead '?' parts.query

theorem createHttpClient_accepted (h : httpParserParseUrl request.url = some parsed) :
    createHttpClient ndebug request = some (clientFor request (requestOf request.url parsed)) := by
  rw [createHttpClient, h]

/-- Everything from the path on is sent, and the whole URL where there is no path. -/
theorem requestOf_path (h : httpParserParseUrl u = some parsed)
    (schema : (parsed.fields .schema).isSet = true) (short : u.length < 65536) :
    (requestOf u parsed).path =
      if (components u).path = [] then u else (components u).path ++ (components u).suffix := by
  obtain ⟨text, -, nonempty, -, path⟩ := parsed_components h schema
  generalize components u = parts at *
  unfold requestOf
  dsimp only
  rw [path, fieldAt]
  by_cases empty : parts.path = []
  · rw [if_pos empty, if_pos empty]
    have some_ : u ≠ [] := by
      rw [← text, Components.text_eq]
      simp
    exact if_neg some_
  · rw [if_neg empty, if_neg empty]
    dsimp only
    have length := parts.text_length
    rw [text] at length
    have front : (parts.schema ++ [byte ':', byte '/', byte '/'] ++ parts.authority).length =
        parts.schema.length + 3 + parts.authority.length := by
      simp only [List.length_append, List.length_cons, List.length_nil]
    have behind : u.drop (parts.schema.length + 3 + parts.authority.length) =
        parts.path ++ parts.suffix := by
      rw [← front, ← text, Components.text, List.append_assoc _ parts.path, List.drop_left]
    rw [uint16_of_lt (by omega), behind]
    exact if_neg (by simp [empty])

/-- For a URL with a schema, which has a host if it is accepted, the target is in origin form
exactly when the URL has a path and no fragment. -/
theorem target_originForm_iff (h : httpParserParseUrl request.url = some parsed)
    (schema : (parsed.fields .schema).isSet = true) (short : request.url.length < 65536) :
    (createHttpClient ndebug request).map (·.request.path) =
      some (components request.url).originForm ↔
      (components request.url).path ≠ [] ∧ (components request.url).fragment = none := by
  obtain ⟨text, wellFormed, nonempty, -, -⟩ := parsed_components h schema
  rw [createHttpClient_accepted h, Option.map_some, Option.some.injEq]
  change (requestOf request.url parsed).path = _ ↔ _
  rw [requestOf_path h schema short]
  generalize components request.url = parts at *
  unfold Components.originForm
  by_cases empty : parts.path = []
  · rw [if_pos empty, if_pos empty]
    -- A URL begins with a letter, the origin form with a slash.
    refine ⟨fun same => ?_, fun condition => absurd empty condition.1⟩
    obtain ⟨first, rest, isSchema⟩ := List.exists_cons_of_ne_nil nonempty
    rw [← text, Components.text_eq, isSchema] at same
    have slash : first = byte '/' := (List.cons.inj same).1
    have letter := wellFormed.schema first (by simp [isSchema])
    rw [slash] at letter
    exact absurd letter (by decide)
  · rw [if_neg empty, if_neg empty, Components.suffix, List.append_cancel_left_eq]
    cases fragment : parts.fragment with
    | none => simp [lead, empty]
    | some fragment => simp [lead]

/-- `http://h` and `http://h/p#f`. -/
def pathless : Bytes := ['h', 't', 't', 'p', ':', '/', '/', 'h'].map byte

def fragmented : Bytes := pathless ++ ['/', 'p', '#', 'f'].map byte

/-- Without a path the whole URL is sent as the target, and with a fragment the fragment is sent. -/
theorem target_pathless :
    (createHttpClient true { url := pathless }).map (·.request.path) = some pathless ∧
      (components pathless).originForm = [byte '/'] ∧
      (createHttpClient true { url := fragmented }).map (·.request.path) =
        some ([byte '/', byte 'p'] ++ [byte '#', byte 'f']) ∧
      (components fragmented).originForm = [byte '/', byte 'p'] := by
  decide

/-- The target of `http://h/p?q`. -/
def queried : Bytes := pathless ++ ['/', 'p', '?', 'q'].map byte

theorem target_queried :
    (createHttpClient true { url := queried }).map (·.request.path) =
      some (components queried).originForm := by
  obtain ⟨parsed, accepted⟩ :=
    Option.isSome_iff_exists.mp (show (httpParserParseUrl queried).isSome = true by decide)
  have schema : (httpParserParseUrl queried).map (fun parsed => (parsed.fields .schema).isSet) =
      some true := by decide
  rw [accepted] at schema
  exact (@target_originForm_iff _ true { url := queried } accepted (Option.some.inj schema) (by decide)).mpr (by decide)

/-! ### The transport -/

/-- The schema is `https` in any case of its letters. -/
def Components.secure (parts : Components) : Bool := parts.schema.map lower == https

/-- The port to connect to, for the number in the URL. -/
def Components.portFor (parts : Components) (number : Nat) : Nat :=
  if number = 0 then if parts.secure then 443 else 80 else number

def Components.portToUse (parts : Components) : Nat :=
  parts.portFor (portNumber (hostAndPort parts.authority).port)

/-- The parser accepts the string and finds a schema in it. -/
def HasSchema (u : Bytes) : Prop :=
  ∃ parsed, httpParserParseUrl u = some parsed ∧ (parsed.fields .schema).isSet = true

/-- The URL alone decides the transport, and a string that is no URL gives no client. -/
structure Selects (ndebug : Bool) (request : HttpClientRequest) : Prop where
  accepted : HasSchema request.url → ∃ client, createHttpClient ndebug request = some client ∧
    (client.impl = .httpsClientImpl ∧ client.request.netType = .https ↔ (components request.url).secure = true) ∧
    client.request.port.toNat = (components request.url).portToUse ∧
    client.request.host = (hostAndPort (components request.url).authority).host
  rejected : httpParserParseUrl request.url = none → createHttpClient ndebug request = none
  agree : ∀ client, createHttpClient ndebug request = some client →
    (client.impl = .httpsClientImpl ↔ client.request.netType = .https) ∧
      (client.impl = .httpClientImpl ↔ client.request.netType = .http)

/-- What the parser can say of the URL is what the URL says. -/
structure Legible (u : Bytes) : Prop where
  schema : schemaSeen u = https ↔ (components u).secure = true
  port : (components u).portFor (portSeen u) = (components u).portToUse
  host : hostSeen u = (hostAndPort (components u).authority).host

/-- The schema and the authority end within reach of a 16-bit offset. -/
def WithinReach (u : Bytes) : Prop :=
  (components u).schema.length + 3 + (components u).authority.length < 65536

theorem substr_schema (h : httpParserParseUrl u = some parsed)
    (schema : (parsed.fields .schema).isSet = true) (reach : WithinReach u) :
    substr u (parsed.fields .schema) = (components u).schema := by
  obtain ⟨text, -, nonempty, field, -⟩ := parsed_components h schema
  unfold WithinReach at reach
  generalize components u = parts at *
  rw [field, fieldAt, if_neg nonempty, substr]
  dsimp only
  rw [uint16_of_lt (by omega), uint16_of_lt (by omega), List.drop_zero, ← text, Components.text_eq,
    List.take_left]

theorem secure_of_https {parts : Components} (h : parts.schema = https) : parts.secure = true := by
  rw [Components.secure, h]
  decide

/-- Within reach, only the case of the schema matters. -/
theorem legible_within_reach (hasSchema : HasSchema u) (reach : WithinReach u) :
    Legible u ↔ ((components u).secure = true → (components u).schema = https) := by
  obtain ⟨parsed, h, schema⟩ := hasSchema
  obtain ⟨isSchema, isHost, isPort, -⟩ := parsed_seen h schema
  obtain ⟨host, port, -⟩ := parsed_authority h schema reach
  rw [substr_schema h schema reach] at isSchema
  constructor
  · intro legible secure
    rw [isSchema]
    exact legible.schema.mpr secure
  · intro written
    refine ⟨?_, ?_, ?_⟩
    · rw [← isSchema]
      exact ⟨secure_of_https, written⟩
    · rw [← isPort, port]
      rfl
    · rw [← isHost, host]

/-- For a string that is accepted, the class of the client and its `net_type` come from the same
comparison. -/
theorem clientFor_agrees (request : HttpClientRequest) (u : Bytes) (parsed : HttpParserUrl) :
    ((clientFor request (requestOf u parsed)).impl = .httpsClientImpl ↔
      substr u (parsed.fields .schema) = https) ∧
      ((requestOf u parsed).netType = .https ↔ substr u (parsed.fields .schema) = https) ∧
      ((clientFor request (requestOf u parsed)).impl = .httpClientImpl ↔
        (requestOf u parsed).netType = .http) := by
  by_cases isHttps : substr u (parsed.fields .schema) = https <;> simp [clientFor, requestOf, isHttps]

theorem requestOf_port (small : parsed.port ≤ 0xffff) :
    (requestOf u parsed).port.toNat =
      if parsed.port = 0 then if substr u (parsed.fields .schema) = https then 443 else 80
      else parsed.port := by
  have number : (UInt16.ofNat parsed.port).toNat = parsed.port := by
    rw [UInt16.toNat_ofNat', Nat.mod_eq_of_lt (by omega)]
  have zero : UInt16.ofNat parsed.port = 0 ↔ parsed.port = 0 := by
    rw [← UInt16.toNat_inj, number]
    rfl
  unfold requestOf
  dsimp only
  simp only [zero]
  split_ifs
  · rfl
  · rfl
  · exact number

/-- The client for a URL with a schema is the right one exactly if the URL is legible. -/
theorem client_legible_iff (h : httpParserParseUrl request.url = some parsed)
    (schema : (parsed.fields .schema).isSet = true) :
    ((clientFor request (requestOf request.url parsed)).impl = .httpsClientImpl ∧
          (requestOf request.url parsed).netType = .https ↔
          (components request.url).secure = true) ∧
        (requestOf request.url parsed).port.toNat = (components request.url).portToUse ∧
        (requestOf request.url parsed).host =
          (hostAndPort (components request.url).authority).host ↔
      Legible request.url := by
  obtain ⟨isSchema, isHost, isPort, small⟩ := parsed_seen h schema
  obtain ⟨impl, netType, -⟩ := clientFor_agrees request request.url parsed
  have port := requestOf_port (u := request.url) small
  rw [isSchema] at impl netType port
  rw [impl, netType, and_self, port, isPort]
  have host : (requestOf request.url parsed).host = hostSeen request.url := isHost
  rw [host]
  constructor
  · rintro ⟨kind, port, host⟩
    refine ⟨kind, ?_, host⟩
    rw [← port, Components.portFor]
    simp only [kind]
  · rintro ⟨kind, port, host⟩
    refine ⟨kind, ?_, host⟩
    rw [← port, Components.portFor]
    simp only [kind]

/-- The transport is selected as it should be exactly when a rejected string ends the program and an
accepted one is legible. A URL within reach is legible unless its schema is a variant of `https`
with capital letters. -/
theorem transport_selected_iff :
    (Selects ndebug request ↔
      (httpParserParseUrl request.url = none → ndebug = false) ∧
      (HasSchema request.url → Legible request.url)) ∧
    (HasSchema request.url → WithinReach request.url → (Legible request.url ↔
      ((components request.url).secure = true → (components request.url).schema = https))) := by
  refine ⟨⟨fun selects => ⟨fun rejected => ?_, ?_⟩, ?_⟩, legible_within_reach⟩
  · have none := selects.rejected rejected
    rw [createHttpClient, rejected] at none
    cases ndebug with
    | false => rfl
    | true => cases none
  · rintro ⟨parsed, h, schema⟩
    obtain ⟨client, created, right⟩ := selects.accepted ⟨parsed, h, schema⟩
    rw [createHttpClient_accepted h] at created
    cases created
    exact (client_legible_iff h schema).mp right
  · rintro ⟨aborts, legible⟩
    refine ⟨?_, fun rejected => ?_, fun client created => ?_⟩
    · rintro ⟨parsed, h, schema⟩
      exact ⟨_, createHttpClient_accepted h, (client_legible_iff h schema).mpr (legible ⟨parsed, h,
        schema⟩)⟩
    · rw [createHttpClient, rejected, aborts rejected]
      rfl
    · unfold createHttpClient at created
      split at created
      next parsed h =>
        cases created
        obtain ⟨impl, netType, plain⟩ := clientFor_agrees request request.url parsed
        exact ⟨impl.trans netType.symm, plain⟩
      next rejected =>
        rw [aborts rejected] at created
        cases created

/-- `HTTPS://h`. -/
def capitals : Bytes := ['H', 'T', 'T', 'P', 'S', ':', '/', '/', 'h'].map byte

/-- `https://h:8443/`. -/
def secured : Bytes :=
  ['h', 't', 't', 'p', 's', ':', '/', '/', 'h', ':', '8', '4', '4', '3', '/'].map byte

theorem hasSchema_of_decide {u : Bytes}
    (h : (httpParserParseUrl u).any (fun parsed => (parsed.fields .schema).isSet) = true) :
    HasSchema u := by
  cases parsed : httpParserParseUrl u with
  | none => rw [parsed] at h; cases h
  | some result => exact ⟨result, parsed, by rw [parsed] at h; exact h⟩

/-- A schema in capital letters selects a plain connection to port 80, and without assertions a
space gives an `HttpsClientImpl` that makes no handshake. -/
theorem transport_capitals :
    ¬ Selects false { url := capitals } ∧
      (createHttpClient false { url := capitals }).map (fun client =>
        (client.impl, client.request.netType, client.request.port)) = some (.httpClientImpl,
        .http, 80) ∧
      ¬ Selects true { url := [byte ' '] } ∧
      (createHttpClient true { url := [byte ' '] }).map (fun client => (client.impl,
        client.request.netType)) =
        some (.httpsClientImpl, .tcp) := by
  refine ⟨fun selects => ?_, by decide, fun selects => ?_, by decide⟩
  · obtain ⟨client, created, kind, -⟩ := selects.accepted (hasSchema_of_decide (by decide))
    have secure := (kind.mpr (by decide)).1
    have plain : (createHttpClient false { url := capitals }).map (·.impl) =
        some .httpClientImpl := by decide
    rw [created, Option.map_some, secure] at plain
    cases plain
  · have none := selects.rejected rfl
    cases none

theorem transport_secured : WithinReach secured ∧ Selects true { url := secured } := by
  have reach : WithinReach secured := by unfold WithinReach; decide
  have accepted : httpParserParseUrl secured ≠ none := Option.isSome_iff_ne_none.mp (by decide)
  obtain ⟨selects, legible⟩ := @transport_selected_iff true { url := secured }
  exact ⟨reach, selects.mpr ⟨fun rejected => absurd rejected accepted,
    fun hasSchema => (legible hasSchema reach).mpr (by decide)⟩⟩

end Kingkong.Url
