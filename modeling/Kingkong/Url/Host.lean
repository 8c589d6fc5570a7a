import Kingkong.Url.Components

/-!
The host and the port of an authority, and where `http_parse_host` finds them. An authority that it
accepts consists of user information, if there is an `@`, of a name or an address in brackets, and
of a port, if there is a colon behind that.
-/

namespace Kingkong.Url
open Lib

variable {c d : HostScan} {s t : HostState} {ch : UInt8} {u : HttpParserUrl} {foundAt : Bool} {o : Nat}

structure Authority where
  host : Bytes
  port : Option Bytes
  deriving DecidableEq

def hostAndPort (text : Bytes) : Authority :=
  let hostPort := if byte '@' ∈ text then (text.dropWhile (· != byte '@')).tail else text
  if hostPort.head? = some (byte '[') then
    let address := hostPort.tail
    { host := address.takeWhile (· != byte ']'), port := detach (address.dropWhile (· != byte ']')).tail }
  else { host := hostPort.takeWhile (· != byte ':'), port := detach (hostPort.dropWhile (· != byte ':')) }

/-- The number of bytes before the host. -/
def hostOffset (text : Bytes) : Nat :=
  let user := if byte '@' ∈ text then (text.takeWhile (· != byte '@')).length + 1 else 0
  if (text.drop user).head? = some (byte '[') then user + 1 else user

/-! ### The moves of the scanner -/

/-- What an address in brackets does not contain. -/
def inBrackets (ch : UInt8) : Bool := ch != byte ']' && ch != byte '@'

inductive HostMoves : HostState → UInt8 → HostState → Prop
  | user {s : HostState} {ch : UInt8} (state : s ∈ [.userinfoStart, .userinfo]) (other : ch ≠ byte '@') :
      HostMoves s ch .userinfo
  | userEnd {s : HostState} (state : s ∈ [.userinfoStart, .userinfo]) : HostMoves s (byte '@') .hostStart
  | bracket : HostMoves .hostStart (byte '[') .hostV6Start
  | name {s : HostState} {ch : UInt8} (state : s ∈ [.hostStart, .host]) (inside : isHostChar ch = true) :
      HostMoves s ch .host
  | address {s : HostState} {ch : UInt8} (state : s ∈ [.hostV6Start, .hostV6])
      (inside : inBrackets ch = true) : HostMoves s ch .hostV6
  | zone {s t : HostState} {ch : UInt8} (state : s ∈ [.hostV6, .hostV6ZoneStart, .hostV6Zone])
      (inside : inBrackets ch = true) (next : t ∈ [.hostV6ZoneStart, .hostV6Zone]) : HostMoves s ch t
  | bracketEnd {s : HostState} (state : s ∈ [.hostV6, .hostV6Zone]) : HostMoves s (byte ']') .hostV6End
  | colon {s : HostState} (state : s ∈ [.host, .hostV6End]) : HostMoves s (byte ':') .hostPortStart
  | digit {s : HostState} {ch : UInt8} (state : s ∈ [.hostPortStart, .hostPort]) (inside : isNum ch = true) :
      HostMoves s ch .hostPort

theorem inBrackets_of_address (h : (isHex ch || ch == byte ':' || ch == byte '.') = true) :
    inBrackets ch = true := by
  simp only [inBrackets, Bool.and_eq_true, bne_iff_ne]
  constructor
  all_goals
    rintro rfl
    exact absurd h (by decide)

theorem inBrackets_of_zone (h : isZoneChar ch = true) : inBrackets ch = true := by
  simp only [inBrackets, Bool.and_eq_true, bne_iff_ne]
  constructor
  all_goals
    rintro rfl
    exact absurd h (by decide)

theorem httpParseHostChar_moves (h : httpParseHostChar s ch = t) (alive : t ≠ .dead) :
    HostMoves s ch t := by
  unfold httpParseHostChar at h
  cases s with
  | dead => exact absurd h.symm alive
  | userinfoStart | userinfo =>
    dsimp only at h
    split_ifs at h with userEnd
    all_goals subst h
    · exact userEnd ▸ .userEnd (by simp)
    · exact .user (by simp) userEnd
    · exact absurd rfl alive
  | hostStart =>
    dsimp only at h
    split_ifs at h with bracket inside
    all_goals subst h
    · exact bracket ▸ .bracket
    · exact .name (by simp) inside
    · exact absurd rfl alive
  | host =>
    dsimp only at h
    split_ifs at h with inside colon
    all_goals subst h
    · exact .name (by simp) inside
    · exact colon ▸ .colon (by simp)
    · exact absurd rfl alive
  | hostV6End =>
    dsimp only at h
    split_ifs at h with colon
    all_goals subst h
    · exact colon ▸ .colon (by simp)
    · exact absurd rfl alive
  | hostV6Start =>
    dsimp only at h
    split_ifs at h with inside
    all_goals subst h
    · exact .address (by simp) (inBrackets_of_address inside)
    · exact absurd rfl alive
  | hostV6 =>
    dsimp only at h
    split_ifs at h with closed inside percent
    all_goals subst h
    · exact closed ▸ .bracketEnd (by simp)
    · exact .address (by simp) (inBrackets_of_address inside)
    · exact .zone (by simp) (percent ▸ by decide) (by simp)
    · exact absurd rfl alive
  | hostV6ZoneStart =>
    dsimp only at h
    split_ifs at h with inside
    all_goals subst h
    · exact .zone (by simp) (inBrackets_of_zone inside) (by simp)
    · exact absurd rfl alive
  | hostV6Zone =>
    dsimp only at h
    split_ifs at h with closed inside
    all_goals subst h
    · exact closed ▸ .bracketEnd (by simp)
    · exact .zone (by simp) (inBrackets_of_zone inside) (by simp)
    · exact absurd rfl alive
  | hostPortStart | hostPort =>
    dsimp only at h
    split_ifs at h with inside
    all_goals subst h
    · exact .digit (by simp) inside
    · exact absurd rfl alive

theorem hostChar_moves (h : hostChar c ch = some d) :
    ∃ t, HostMoves c.s ch t ∧ d = { s := t, p := c.p + 1, u := c.record t } := by
  unfold hostChar at h
  dsimp only at h
  split_ifs at h with dead
  cases h
  exact ⟨_, httpParseHostChar_moves rfl dead, rfl⟩

/-! ### What has been read -/

/-- The parts of what has been read of an authority: `front` is what stands before the host. -/
structure HostParts where
  front : Bytes := []
  bracket : Bool := false
  name : Bytes := []
  closed : Bool := false
  port : Option Bytes := none

namespace HostParts

def begins (parts : HostParts) : Bytes := parts.front ++ if parts.bracket then [byte '['] else []

def beforePort (parts : HostParts) : Bytes :=
  parts.begins ++ parts.name ++ if parts.closed then [byte ']'] else []

def text (parts : HostParts) : Bytes := parts.beforePort ++ lead ':' parts.port

/-- The user information has been read to its end, if there is any. -/
def Front (parts : HostParts) (foundAt : Bool) : Prop :=
  if foundAt then ∃ user, byte '@' ∉ user ∧ parts.front = user ++ [byte '@'] else parts.front = []

/-- The host has been read to its end. -/
def Named (parts : HostParts) : Prop :=
  parts.name ≠ [] ∧ parts.closed = parts.bracket ∧
    ∀ ch ∈ parts.name, (if parts.bracket then inBrackets ch else isHostChar ch) = true

def Open (parts : HostParts) (foundAt : Bool) : HostState → Prop
  | .userinfoStart | .userinfo => foundAt = true ∧ byte '@' ∉ parts.front ∧ parts = { front := parts.front }
  | .hostStart => parts.Front foundAt ∧ parts = { front := parts.front }
  | .hostV6Start => parts.Front foundAt ∧ parts = { front := parts.front, bracket := true }
  | .host =>
    parts.Front foundAt ∧ parts = { front := parts.front, name := parts.name } ∧ parts.name ≠ [] ∧
      ∀ ch ∈ parts.name, isHostChar ch = true
  | .hostV6 | .hostV6ZoneStart | .hostV6Zone =>
    parts.Front foundAt ∧ parts = { front := parts.front, bracket := true, name := parts.name } ∧ parts.name ≠ [] ∧
      ∀ ch ∈ parts.name, inBrackets ch = true
  | .hostV6End => parts.Front foundAt ∧ parts.Named ∧ parts.bracket = true ∧ parts.port = none
  | .hostPortStart => parts.Front foundAt ∧ parts.Named ∧ parts.port = some []
  | .hostPort =>
    parts.Front foundAt ∧ parts.Named ∧ ∃ digits, parts.port = some digits ∧ digits ≠ [] ∧ ∀ ch ∈ digits, isNum ch = true
  | .dead => False

end HostParts

/-- The positions of the parts are what has been recorded, for an authority that begins at `o`. -/
structure HostRecorded (o : Nat) (u : HttpParserUrl) (parts : HostParts) (c : HostScan) : Prop where
  position : c.p = o + parts.text.length
  off : parts.name ≠ [] → (c.u.fields .host).off = uint16 (o + parts.begins.length)
  len : (c.u.fields .host).len = uint16 parts.name.length
  port : c.u.fields .port = fieldAt (o + parts.beforePort.length + 1) (parts.port.getD [])
  keeps : ∀ other, other ∉ [.host, .port, .userinfo] → c.u.fields other = u.fields other

theorem record_user {other : UrlField} (different : other ≠ .userinfo) :
    (c.record .userinfo).fields other = c.u.fields other := by
  unfold HostScan.record
  dsimp only
  split <;> simp [HttpParserUrl.extend, HttpParserUrl.start, HttpParserUrl.modify_fields, different]

theorem record_name (next : t = .host ∨ t = .hostV6) (other : UrlField) :
    (c.record t).fields other =
      if other = .host then
        { c.u.fields .host with
          off := if c.s ≠ t then uint16 c.p else (c.u.fields .host).off
          len := uint16 ((c.u.fields .host).len + 1) }
      else c.u.fields other := by
  rcases next with rfl | rfl
  all_goals
    unfold HostScan.record
    dsimp only
    split <;> simp +contextual [HttpParserUrl.extend, HttpParserUrl.modify_fields]

theorem record_zone (next : t ∈ [.hostV6ZoneStart, .hostV6Zone]) (other : UrlField) :
    (c.record t).fields other =
      if other = .host then { c.u.fields .host with len := uint16 ((c.u.fields .host).len + 1) }
      else c.u.fields other := by
  simp only [List.mem_cons, List.not_mem_nil, or_false] at next
  rcases next with rfl | rfl
  all_goals simp [HostScan.record, HttpParserUrl.extend, HttpParserUrl.modify_fields]

theorem record_port (other : UrlField) :
    (c.record .hostPort).fields other =
      if other = .port then
        if c.s ≠ .hostPort then ⟨true, uint16 c.p, 1⟩
        else { c.u.fields .port with len := uint16 ((c.u.fields .port).len + 1) }
      else c.u.fields other := by
  unfold HostScan.record
  dsimp only
  split <;> simp +contextual [HttpParserUrl.extend, HttpParserUrl.start, HttpParserUrl.modify_fields, uint16]

variable {parts : HostParts}

/-- A delimiter moves on in the text and leaves the record alone. -/
theorem HostRecorded.delimiter {next : HostParts} (r : HostRecorded o u parts c)
    (quiet : c.record t = c.u) (text : next.text = parts.text ++ [ch])
    (name : next.name = parts.name) (begins : parts.name ≠ [] → next.begins = parts.begins)
    (port : fieldAt (o + next.beforePort.length + 1) (next.port.getD []) =
      fieldAt (o + parts.beforePort.length + 1) (parts.port.getD [])) :
    HostRecorded o u next { s := t, p := c.p + 1, u := c.record t } := by
  rw [quiet]
  exact
    { position := by rw [text, List.length_append, ← Nat.add_assoc, ← r.position]; rfl
      off := fun nonempty => by
        rw [name] at nonempty
        rw [begins nonempty]
        exact r.off nonempty
      len := by rw [name]; exact r.len
      port := by rw [port]; exact r.port
      keeps := r.keeps }

/-- A character of the host. -/
theorem HostRecorded.name (r : HostRecorded o u parts c) (ch : UInt8)
    (open_ : parts.closed = false ∧ parts.port = none)
    (host : (c.record t).fields .host =
      { c.u.fields .host with
        off := if parts.name = [] then uint16 c.p else (c.u.fields .host).off
        len := uint16 ((c.u.fields .host).len + 1) })
    (others : ∀ other, other ≠ .host → (c.record t).fields other = c.u.fields other) :
    HostRecorded o u { parts with name := parts.name ++ [ch] }
      { s := t, p := c.p + 1, u := c.record t } ∧
      ({ parts with name := parts.name ++ [ch] } : HostParts).text = parts.text ++ [ch] := by
  obtain ⟨front, bracket, name, closed, port⟩ := parts
  obtain ⟨rfl, rfl⟩ := open_
  have text : (HostParts.mk front bracket (name ++ [ch]) false none).text =
      (HostParts.mk front bracket name false none).text ++ [ch] := by
    simp [HostParts.text, HostParts.beforePort, HostParts.begins, lead]
  refine ⟨⟨?_, fun _ => ?_, ?_, ?_, ?_⟩, text⟩
  · rw [text, List.length_append, ← Nat.add_assoc, ← r.position]
    rfl
  · show ((c.record t).fields .host).off = _
    rw [host]
    dsimp only
    by_cases empty : name = []
    · rw [if_pos empty, r.position]
      simp [HostParts.text, HostParts.beforePort, HostParts.begins, empty, lead]
    · rw [if_neg empty]
      exact r.off empty
  · show ((c.record t).fields .host).len = _
    rw [host, r.len]
    simp [uint16]
  · exact (others _ (by decide)).trans r.port
  · intro other outside
    rw [← r.keeps other outside]
    refine others other ?_
    rintro rfl
    simp at outside

theorem HostRecorded.user {front : Bytes} (r : HostRecorded o u { front := front } c) (ch : UInt8) :
    HostRecorded o u { front := front ++ [ch] }
      { s := .userinfo, p := c.p + 1, u := c.record .userinfo } :=
  { position := by
      rw [r.position]
      simp [HostParts.text, HostParts.beforePort, HostParts.begins, lead, Nat.add_assoc]
    off := fun nonempty => absurd rfl nonempty
    len := by rw [record_user (by decide)]; exact r.len
    port := (record_user (by decide)).trans r.port
    keeps := fun other outside => by
      rw [← r.keeps other outside]
      exact record_user (by rintro rfl; simp at outside) }

theorem HostRecorded.digit {front name digits : Bytes} {bracket closed : Bool}
    (r : HostRecorded o u ⟨front, bracket, name, closed, some digits⟩ c)
    (going : c.s = .hostPort ↔ digits ≠ []) (ch : UInt8) :
    HostRecorded o u ⟨front, bracket, name, closed, some (digits ++ [ch])⟩
      { s := .hostPort, p := c.p + 1, u := c.record .hostPort } := by
  refine ⟨?_, fun nonempty => ?_, ?_, ?_, ?_⟩
  · rw [r.position]
    simp [HostParts.text, HostParts.beforePort, HostParts.begins, lead]
    omega
  · rw [record_port, if_neg (by decide)]
    exact r.off nonempty
  · rw [record_port, if_neg (by decide)]
    exact r.len
  · rw [record_port, if_pos rfl, Option.getD_some, fieldAt_append]
    by_cases empty : digits = []
    · rw [if_pos (by simpa [empty] using going), r.position, empty]
      simp [HostParts.text, lead, uint16, Nat.add_assoc, HostParts.beforePort, HostParts.begins]
    · have port := r.port
      rw [Option.getD_some, fieldAt, if_neg empty] at port
      rw [if_neg (by simpa using going.mpr empty), port]
      simp [uint16, HostParts.beforePort, HostParts.begins]
  · intro other outside
    rw [← r.keeps other outside]
    rw [record_port, if_neg]
    rintro rfl
    simp at outside

section

variable {front name : Bytes} {bracket closed : Bool} {port : Option Bytes}

/-- Up to the end of the user information there is nothing else. -/
theorem HostParts.Open.user (h : HostParts.Open ⟨front, bracket, name, closed, port⟩ foundAt s)
    (state : s ∈ [.userinfoStart, .userinfo]) :
    foundAt = true ∧ byte '@' ∉ front ∧ bracket = false ∧ name = [] ∧ closed = false ∧
      port = none := by
  simp only [List.mem_cons, List.not_mem_nil, or_false] at state
  rcases state with rfl | rfl <;> simpa [HostParts.Open] using h

/-- Up to the end of a name that is not in brackets. -/
theorem HostParts.Open.host (h : HostParts.Open ⟨front, bracket, name, closed, port⟩ foundAt s)
    (state : s ∈ [.hostStart, .host]) :
    HostParts.Front ⟨front, bracket, name, closed, port⟩ foundAt ∧ bracket = false ∧
      closed = false ∧ port = none ∧
      (s = .host ↔ name ≠ []) ∧ ∀ ch ∈ name, isHostChar ch = true := by
  simp only [List.mem_cons, List.not_mem_nil, or_false] at state
  rcases state with rfl | rfl
  · obtain ⟨ready, shape⟩ := h
    simp only [HostParts.mk.injEq] at shape
    obtain ⟨-, rfl, rfl, rfl, rfl⟩ := shape
    exact ⟨ready, rfl, rfl, rfl, by simp, by simp⟩
  · obtain ⟨ready, shape, nonempty, hostChars⟩ := h
    simp only [HostParts.mk.injEq] at shape
    obtain ⟨-, rfl, -, rfl, rfl⟩ := shape
    exact ⟨ready, rfl, rfl, rfl, by simpa using nonempty, hostChars⟩

/-- Up to the end of an address in brackets. -/
theorem HostParts.Open.address (h : HostParts.Open ⟨front, bracket, name, closed, port⟩ foundAt s)
    (state : s ∈ [.hostV6Start, .hostV6, .hostV6ZoneStart, .hostV6Zone]) :
    HostParts.Front ⟨front, bracket, name, closed, port⟩ foundAt ∧ bracket = true ∧ closed = false ∧
      port = none ∧ (s ≠ .hostV6Start ↔ name ≠ []) ∧ ∀ ch ∈ name, inBrackets ch = true := by
  simp only [List.mem_cons, List.not_mem_nil, or_false] at state
  rcases state with rfl | rfl | rfl | rfl
  · obtain ⟨ready, shape⟩ := h
    simp only [HostParts.mk.injEq] at shape
    obtain ⟨-, rfl, rfl, rfl, rfl⟩ := shape
    exact ⟨ready, rfl, rfl, rfl, by simp, by simp⟩
  all_goals
    obtain ⟨ready, shape, nonempty, unclosed⟩ := h
    simp only [HostParts.mk.injEq] at shape
    obtain ⟨-, rfl, -, rfl, rfl⟩ := shape
    exact ⟨ready, rfl, rfl, rfl, by simpa using nonempty, unclosed⟩

/-- Where the host may end. -/
theorem HostParts.Open.named (h : HostParts.Open ⟨front, bracket, name, closed, port⟩ foundAt s)
    (state : s ∈ [.host, .hostV6End]) :
    HostParts.Front ⟨front, bracket, name, closed, port⟩ foundAt ∧
      HostParts.Named ⟨front, bracket, name, closed, port⟩ ∧ port = none := by
  simp only [List.mem_cons, List.not_mem_nil, or_false] at state
  rcases state with rfl | rfl
  · obtain ⟨ready, rfl, rfl, rfl, nonempty, hostChars⟩ := h.host (by simp)
    exact ⟨ready, ⟨nonempty.mp rfl, rfl, hostChars⟩, rfl⟩
  · exact ⟨h.1, h.2.1, h.2.2.2⟩

theorem HostParts.Open.numbered (h : HostParts.Open ⟨front, bracket, name, closed, port⟩ foundAt s)
    (state : s ∈ [.hostPortStart, .hostPort]) :
    HostParts.Front ⟨front, bracket, name, closed, port⟩ foundAt ∧
      HostParts.Named ⟨front, bracket, name, closed, port⟩ ∧
      ∃ digits, port = some digits ∧ (s = .hostPort ↔ digits ≠ []) ∧
        ∀ ch ∈ digits, isNum ch = true := by
  simp only [List.mem_cons, List.not_mem_nil, or_false] at state
  rcases state with rfl | rfl
  · exact ⟨h.1, h.2.1, [], h.2.2, by simp, by simp⟩
  · obtain ⟨ready, named, digits, isPort, nonempty, allDigits⟩ := h
    exact ⟨ready, named, digits, isPort, by simpa using nonempty, allDigits⟩

end

theorem HostRecorded.moves (r : HostRecorded o u parts c) (open_ : parts.Open foundAt c.s)
    (moves : HostMoves c.s ch t) :
    ∃ next : HostParts, HostRecorded o u next { s := t, p := c.p + 1, u := c.record t } ∧
      next.Open foundAt t ∧ next.text = parts.text ++ [ch] := by
  generalize state : c.s = s at open_ moves
  obtain ⟨front, bracket, name, closed, port⟩ := parts
  cases moves with
  | user before other =>
    obtain ⟨found, user, rfl, rfl, rfl, rfl⟩ := open_.user before
    refine ⟨{ front := front ++ [ch] }, r.user ch, ⟨found, ?_, rfl⟩, ?_⟩
    · simp [user, other.symm]
    · simp [HostParts.text, HostParts.beforePort, HostParts.begins, lead]
  | userEnd before =>
    obtain ⟨found, user, rfl, rfl, rfl, rfl⟩ := open_.user before
    have text : HostParts.text { front := front ++ [byte '@'] } =
        HostParts.text { front := front } ++ [byte '@'] := by
      simp [HostParts.text, HostParts.beforePort, HostParts.begins, lead]
    refine ⟨_, r.delimiter rfl text rfl (absurd rfl ·) rfl, ⟨?_, rfl⟩, text⟩
    rw [HostParts.Front, if_pos found]
    exact ⟨front, user, rfl⟩
  | bracket =>
    obtain ⟨ready, rfl, rfl, rfl, empty, -⟩ := open_.host (by simp)
    obtain rfl : name = [] := by simpa using empty
    have text : HostParts.text { front := front, bracket := true } =
        HostParts.text { front := front } ++ [byte '['] := by
      simp [HostParts.text, HostParts.beforePort, HostParts.begins, lead]
    exact ⟨_, r.delimiter rfl text rfl (absurd rfl ·) rfl, ⟨ready, rfl⟩, text⟩
  | name before inside =>
    obtain ⟨ready, rfl, rfl, rfl, empty, hostChars⟩ := open_.host before
    obtain ⟨recorded, text⟩ := r.name ch ⟨rfl, rfl⟩
      (by rw [record_name (.inl rfl), if_pos rfl, state]; simp [empty])
      (fun other different => by rw [record_name (.inl rfl), if_neg different])
    exact ⟨_, recorded, ⟨ready, rfl, by simp, forall_mem_append hostChars inside⟩, text⟩
  | address before inside =>
    obtain ⟨ready, rfl, rfl, rfl, empty, unclosed⟩ := open_.address (by simp at before ⊢; tauto)
    have first : s ≠ .hostV6 ↔ name = [] := by
      simp only [List.mem_cons, List.not_mem_nil, or_false] at before
      rcases before with rfl | rfl <;> simpa using empty
    obtain ⟨recorded, text⟩ := r.name ch ⟨rfl, rfl⟩
      (by rw [record_name (.inr rfl), if_pos rfl, state]; simp only [first])
      (fun other different => by rw [record_name (.inr rfl), if_neg different])
    exact ⟨_, recorded, ⟨ready, rfl, by simp, forall_mem_append unclosed inside⟩, text⟩
  | zone before inside next =>
    obtain ⟨ready, rfl, rfl, rfl, nonempty, unclosed⟩ := open_.address (by simp at before ⊢; tauto)
    have nonempty : name ≠ [] := nonempty.mp (by rintro rfl; simp at before)
    obtain ⟨recorded, text⟩ := r.name ch ⟨rfl, rfl⟩
      (by rw [record_zone next, if_pos rfl]; simp [nonempty])
      (fun other different => by rw [record_zone next, if_neg different])
    refine ⟨_, recorded, ?_, text⟩
    simp only [List.mem_cons, List.not_mem_nil, or_false] at next
    rcases next with rfl | rfl
    all_goals exact ⟨ready, rfl, by simp, forall_mem_append unclosed inside⟩
  | bracketEnd before =>
    obtain ⟨ready, rfl, rfl, rfl, nonempty, unclosed⟩ := open_.address (by simp at before ⊢; tauto)
    have nonempty : name ≠ [] := nonempty.mp (by rintro rfl; simp at before)
    have text : HostParts.text ⟨front, true, name, true, none⟩ =
        HostParts.text ⟨front, true, name, false, none⟩ ++ [byte ']'] := by
      simp [HostParts.text, HostParts.beforePort, HostParts.begins, lead]
    exact ⟨_, r.delimiter rfl text rfl (fun _ => rfl) rfl, ⟨ready, ⟨nonempty, rfl, unclosed⟩, rfl,
      rfl⟩, text⟩
  | colon before =>
    obtain ⟨ready, named, rfl⟩ := open_.named before
    have text : HostParts.text ⟨front, bracket, name, closed, some []⟩ =
        HostParts.text ⟨front, bracket, name, closed, none⟩ ++ [byte ':'] := by
      simp [HostParts.text, HostParts.beforePort, HostParts.begins, lead]
    exact ⟨_, r.delimiter rfl text rfl (fun _ => rfl) rfl, ⟨ready, named, rfl⟩, text⟩
  | digit before inside =>
    obtain ⟨ready, named, digits, rfl, going, allDigits⟩ := open_.numbered before
    refine ⟨_, r.digit (state ▸ going) ch,
      ⟨ready, named, _, rfl, by simp, forall_mem_append allDigits inside⟩, ?_⟩
    simp [HostParts.text, HostParts.beforePort, HostParts.begins, lead]

/-! ### The whole authority -/

/-- An authority that may end where it ends. -/
structure HostParts.Complete (parts : HostParts) (foundAt : Bool) : Prop where
  front : parts.Front foundAt
  named : parts.Named
  port : ∀ digits ∈ parts.port, digits ≠ [] ∧ ∀ ch ∈ digits, isNum ch = true

theorem HostParts.Open.complete (open_ : parts.Open foundAt s) (ends : s.unexpected = false) :
    parts.Complete foundAt := by
  cases s <;> try cases ends
  case dead => exact open_.elim
  case host | hostV6End =>
    obtain ⟨ready, named, noPort⟩ := open_.named (by simp)
    exact ⟨ready, named, by simp [noPort]⟩
  case hostPort =>
    obtain ⟨ready, named, digits, isPort, nonempty, allDigits⟩ := open_.numbered (by simp)
    refine ⟨ready, named, fun found mem => ?_⟩
    obtain rfl := Option.some.inj (mem.symm.trans isPort)
    exact ⟨nonempty.mp rfl, allDigits⟩

/-- What stands behind the user information. -/
def HostParts.behind (parts : HostParts) : Bytes :=
  (if parts.bracket then [byte '['] else []) ++ parts.name ++ (if parts.closed then [byte ']'] else []) ++
    lead ':' parts.port

theorem HostParts.text_eq (parts : HostParts) : parts.text = parts.front ++ parts.behind := by
  simp [HostParts.text, HostParts.beforePort, HostParts.begins, HostParts.behind]

theorem HostParts.Complete.at_behind (complete : parts.Complete foundAt) :
    byte '@' ∉ parts.behind := by
  have ready := complete.named.2.2
  simp only [HostParts.behind, List.mem_append, not_or]
  refine ⟨⟨⟨?_, fun mem => ?_⟩, ?_⟩, ?_⟩
  · split <;> decide
  · have inside := ready _ mem
    split at inside <;> exact absurd inside (by decide)
  · split <;> decide
  · cases isPort : parts.port with
    | none => exact List.not_mem_nil
    | some digits =>
      intro mem
      rcases List.mem_cons.mp mem with same | mem
      · exact absurd same (by decide)
      · exact absurd ((complete.port digits isPort).2 _ mem) (by decide)

/-- There is user information exactly if there is an `@`, and it ends there. -/
theorem HostParts.Complete.user (complete : parts.Complete foundAt) :
    (foundAt = true ↔ byte '@' ∈ parts.text) ∧
      (if byte '@' ∈ parts.text then (parts.text.takeWhile (· != byte '@')).length + 1 else 0) =
        parts.front.length ∧
      (if byte '@' ∈ parts.text then (parts.text.dropWhile (· != byte '@')).tail else parts.text) =
        parts.behind := by
  have none := complete.at_behind
  have ready := complete.front
  rw [HostParts.text_eq]
  cases foundAt with
  | false =>
    have ready : parts.front = [] := ready
    rw [ready, List.nil_append, if_neg none, if_neg none]
    simp [none]
  | true =>
    obtain ⟨user, noAt, isFront⟩ : ∃ user, byte '@' ∉ user ∧ parts.front = user ++ [byte '@'] :=
      ready
    have text : parts.front ++ parts.behind = user ++ byte '@' :: parts.behind := by
      rw [isFront]
      simp
    have cut := cut_at (byte '@') user (byte '@' :: parts.behind) noAt (by simp)
    rw [text, cut.1, cut.2, isFront]
    simp

theorem HostParts.Complete.bracket_iff (complete : parts.Complete foundAt) :
    parts.behind.head? = some (byte '[') ↔ parts.bracket = true := by
  obtain ⟨nonempty, -, chars⟩ := complete.named
  unfold HostParts.behind
  cases bracket : parts.bracket with
  | true => simp
  | false =>
    obtain ⟨first, rest, isName⟩ := List.exists_cons_of_ne_nil nonempty
    have inside := chars first (by simp [isName])
    rw [bracket] at inside
    refine ⟨fun head => ?_, nofun⟩
    obtain rfl : first = byte '[' := by simpa [isName] using head
    exact absurd inside (by decide)

/-- The host and the port of the authority are the parts that have been read. -/
theorem HostParts.Complete.hostAndPort_text (complete : parts.Complete foundAt) :
    hostAndPort parts.text = ⟨parts.name, parts.port⟩ := by
  obtain ⟨-, isClosed, chars⟩ := complete.named
  have bracket_iff := complete.bracket_iff
  unfold hostAndPort
  dsimp only
  rw [complete.user.2.2]
  unfold HostParts.behind at bracket_iff ⊢
  cases bracket : parts.bracket with
  | true =>
    rw [bracket] at isClosed chars
    have noEnd : byte ']' ∉ parts.name := fun mem => absurd (chars _ mem) (by decide)
    have address := cut_at (byte ']') parts.name (byte ']' :: lead ':' parts.port) noEnd (by simp)
    simp [isClosed, address, detach_lead]
  | false =>
    rw [bracket] at isClosed chars bracket_iff
    have noColon : byte ':' ∉ parts.name := fun mem => absurd (chars _ mem) (by decide)
    have cut :=
      cut_at (byte ':') parts.name (lead ':' parts.port) noColon fun ch mem => head_lead mem
    rw [if_neg (by simpa using bracket_iff)]
    simp only [isClosed, Bool.false_eq_true, if_false, List.nil_append, List.append_nil]
    rw [cut.1, cut.2, detach_lead]

theorem HostParts.Complete.hostOffset_text (complete : parts.Complete foundAt) :
    hostOffset parts.text = parts.begins.length := by
  have bracket_iff := complete.bracket_iff
  unfold hostOffset
  dsimp only
  rw [complete.user.2.1, HostParts.text_eq, List.drop_left, HostParts.begins, List.length_append]
  cases bracket : parts.bracket with
  | true => simp [bracket_iff, bracket]
  | false => simp [bracket_iff, bracket]

/-- What has been read of the authority at `o` has been recorded. -/
def HostLocated (o : Nat) (u : HttpParserUrl) (foundAt : Bool) (read : Bytes) (c : HostScan) :
    Prop :=
  ∃ parts, HostRecorded o u parts c ∧ parts.Open foundAt c.s ∧ parts.text = read

theorem hostChar_located {read : Bytes} (located : HostLocated o u foundAt read c)
    (h : hostChar c ch = some d) :
    HostLocated o u foundAt (read ++ [ch]) d := by
  obtain ⟨parts, recorded, open_, rfl⟩ := located
  obtain ⟨t, moves, rfl⟩ := hostChar_moves h
  exact recorded.moves open_ moves

theorem httpParseHost_located (noPort : u.fields .port = {}) :
    HostLocated o u foundAt []
      { s := if foundAt then .userinfoStart else .hostStart
        p := o
        u := u.modify .host fun field => { field with len := 0 } } := by
  refine ⟨{}, ⟨rfl, fun nonempty => absurd rfl nonempty, ?_, ?_, ?_⟩, ?_, rfl⟩
  · rw [HttpParserUrl.modify_fields, if_pos rfl]
    rfl
  · rw [HttpParserUrl.modify_fields, if_neg (by decide), noPort]
    rfl
  · intro other outside
    rw [HttpParserUrl.modify_fields, if_neg]
    rintro rfl
    simp at outside
  · cases foundAt <;> simp [HostParts.Open, HostParts.Front]

theorem httpParseHost_recorded {buf : Bytes} {v : HttpParserUrl} (noPort : u.fields .port = {})
    (h : httpParseHost buf u foundAt = some v) :
    ∃ parts last, last.u = v ∧ parts.text =
      (buf.drop (u.fields .host).off).take (u.fields .host).len ∧
      parts.Complete foundAt ∧ HostRecorded (u.fields .host).off u parts last := by
  unfold httpParseHost at h
  obtain ⟨last, reads, ends⟩ := Option.bind_eq_some_iff.mp h
  split_ifs at ends with expected
  cases ends
  have located := run_reads (R := HostLocated (u.fields .host).off u foundAt) (fun _ _ _ _ => hostChar_located)
    (httpParseHost_located noPort) reads
  obtain ⟨parts, recorded, open_, text⟩ := located
  exact ⟨parts, last, rfl, text, open_.complete (by simpa using expected), recorded⟩

/-- The text that a field describes. -/
def substr (buf : Bytes) (field : FieldData) : Bytes := (buf.drop field.off).take field.len

theorem uint16_of_lt {n : Nat} (small : n < 65536) : uint16 n = n := Nat.mod_eq_of_lt small

variable {before : Bytes}

theorem HostRecorded.substr_host (r : HostRecorded before.length u parts c) (after : Bytes)
    (named : parts.Named) (small : before.length + parts.text.length < 65536) :
    substr (before ++ parts.text ++ after) (c.u.fields .host) = parts.name := by
  have inside : parts.begins.length + parts.name.length ≤ parts.text.length := by
    simp only [HostParts.text, HostParts.beforePort, List.length_append]
    omega
  rw [substr, r.off named.1, r.len, uint16_of_lt (by omega), uint16_of_lt (by omega)]
  have text : before ++ parts.text ++ after = (before ++ parts.begins) ++
      (parts.name ++ ((if parts.closed then [byte ']'] else []) ++ lead ':' parts.port ++ after)) := by
    simp [HostParts.text, HostParts.beforePort]
  rw [text, ← List.length_append, List.drop_left, List.take_left]

theorem HostRecorded.drop_port {digits : Bytes} (r : HostRecorded before.length u parts c)
    (after : Bytes) (isPort : parts.port = some digits) (nonempty : digits ≠ [])
    (small : before.length + parts.text.length < 65536) :
    (c.u.fields .port).isSet = true ∧
      (before ++ parts.text ++ after).drop (c.u.fields .port).off = digits ++ after := by
  have port := r.port
  rw [isPort, Option.getD_some, fieldAt, if_neg nonempty] at port
  have length : parts.text.length = parts.beforePort.length + 1 + digits.length := by
    simp [HostParts.text, isPort, lead]
    omega
  have text : before ++ parts.text ++ after =
      (before ++ parts.beforePort ++ [byte ':']) ++ (digits ++ after) := by
    simp [HostParts.text, isPort, lead]
  rw [port]
  refine ⟨rfl, ?_⟩
  dsimp only
  rw [uint16_of_lt (by omega), text, show before.length + parts.beforePort.length + 1 =
    (before ++ parts.beforePort ++ [byte ':']).length by simp [Nat.add_assoc], List.drop_left]

theorem decimal_append {digits after : Bytes} (all : ∀ ch ∈ digits, isNum ch = true)
    (stop : ∀ ch ∈ after.head?, isNum ch = false) : decimal (digits ++ after) = decimal digits := by
  have alone := (cut_append digits [] all (by simp)).1
  rw [List.append_nil] at alone
  rw [decimal, decimal, (cut_append digits after all stop).1, alone]

/-- Before a digit there is no sign, so `strtoul` gives the number or its largest value. -/
theorem strtoul_digits {digits after : Bytes} (nonempty : digits ≠ [])
    (all : ∀ ch ∈ digits, isNum ch = true) (stop : ∀ ch ∈ after.head?, isNum ch = false) :
    strtoul (digits ++ after) = min (decimal digits) (2 ^ 64 - 1) := by
  rw [← decimal_append all stop]
  obtain ⟨first, rest, rfl⟩ := List.exists_cons_of_ne_nil nonempty
  have digit := all first (by simp)
  rw [List.cons_append, strtoul, if_neg (by rintro rfl; exact absurd digit (by decide)),
    if_neg (by rintro rfl; exact absurd digit (by decide))]

end Kingkong.Url
