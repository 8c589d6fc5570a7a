import Kingkong.Protobuf.Serialize

/-!
`xauth::request`, as `protoc` generates it. A field that has its presence bit is a `some`.
-/

namespace Kingkong.Xauth
open Lib Protobuf

structure Request where
  type : Option Int32 := none
  version : Option Int32 := none
  token : Option Bytes := none
  deviceid : Option Bytes := none
  randomid : Option Bytes := none
  unknown : List UnknownField := []

/-- The number is converted to an `int` first. -/
def productIsValid (value : Nat) : Bool := Int32.ofNat value == 0

namespace Request

/-- A product that is not in the enumeration goes to the unknown fields. -/
def typeField : Known Request :=
  .varint (fun m value =>
    if productIsValid value then { m with type := some (Int32.ofNat value) }
    else { m with unknown := m.unknown ++ [.varint 1 value] }) id

def known : Nat → Option (Known Request)
  | 8 => some typeField
  | 16 => some (int32Field fun m value => { m with version := some value })
  | 26 => some (stringField token fun m data => { m with token := some data })
  | 34 => some (stringField deviceid fun m data => { m with deviceid := some data })
  | 42 => some (stringField randomid fun m data => { m with randomid := some data })
  | _ => none

def isInitialized (m : Request) : Bool :=
  m.type.isSome && m.version.isSome && m.token.isSome && m.deviceid.isSome && m.randomid.isSome

def generated : MessageClass Request where
  empty := {}
  known := known
  addUnknown m f := { m with unknown := m.unknown ++ [f] }
  isInitialized := isInitialized
  wire := by
    intro tag k found
    unfold known at found
    split at found <;> cases found <;> decide

def internalSerialize (m : Request) : Writer := fun out => do
  let out ← writePresent m.type (writeInt32 1) out
  let out ← writePresent m.version (writeInt32 2) out
  let out ← writePresent m.token (writeString 3) out
  let out ← writePresent m.deviceid (writeString 4) out
  let out ← writePresent m.randomid (writeString 5) out
  writeFields m.unknown out

def requiredFieldsByteSizeFallback (m : Request) : Nat :=
  sizePresent m.token stringSize + sizePresent m.deviceid stringSize + sizePresent m.randomid stringSize +
    sizePresent m.type int32Size + sizePresent m.version int32Size

def byteSizeLong (m : Request) : Nat :=
  let required :=
    match m.token, m.deviceid, m.randomid, m.type, m.version with
    | some token, some deviceid, some randomid, some type, some version =>
      (1 + stringSize token) + (1 + stringSize deviceid) + (1 + stringSize randomid) + (1 + int32Size type) +
        (1 + int32Size version)
    | _, _, _, _, _ => m.requiredFieldsByteSizeFallback
  required + fieldsSize m.unknown

def mergeFrom (m source : Request) : Request where
  type := source.type <|> m.type
  version := source.version <|> m.version
  token := source.token <|> m.token
  deviceid := source.deviceid <|> m.deviceid
  randomid := source.randomid <|> m.randomid
  unknown := m.unknown ++ source.unknown

def serializeToString (ndebug : Bool) (m : Request) : Option (Bytes × Bool) :=
  Protobuf.serializeToString ndebug m.isInitialized m.byteSizeLong m.internalSerialize

def parseFromString : Bytes → Request × Bool := generated.parseFromString

/-- The fields in the order in which they are written. -/
def fields (m : Request) : List UnknownField :=
  (m.type.map fun value => .varint 1 (signExtended value)).toList ++
  ((m.version.map fun value => .varint 2 (signExtended value)).toList ++
  ((m.token.map fun data => .lengthDelimited 3 data).toList ++
  ((m.deviceid.map fun data => .lengthDelimited 4 data).toList ++
  ((m.randomid.map fun data => .lengthDelimited 5 data).toList ++ m.unknown))))

/-- The size that is computed when all fields are there is the one that is computed field by
field. -/
theorem byteSizeLong_eq (m : Request) :
    m.byteSizeLong = m.requiredFieldsByteSizeFallback + fieldsSize m.unknown := by
  unfold byteSizeLong
  dsimp only
  split
  · rename_i token deviceid randomid type version
    simp only [requiredFieldsByteSizeFallback, sizePresent, *]
  · rfl

section Serialize

variable {m : Request} {depth : Nat} {ndebug : Bool}

theorem written (form : HasForm depth m.unknown) (small : m.byteSizeLong < 2 ^ 31) :
    Written m.internalSerialize m.byteSizeLong m.fields := by
  have size := byteSizeLong_eq m
  unfold requiredFieldsByteSizeFallback at size
  have all := (written_presentInt32 (by decide : 1 < 16) m.type).seq <|
    (written_presentInt32 (by decide : 2 < 16) m.version).seq <|
    (written_presentString (by decide : 3 < 16) (by omega : sizePresent m.token stringSize < 2 ^ 32)).seq <|
    (written_presentString (by decide : 4 < 16) (by omega : sizePresent m.deviceid stringSize < 2 ^ 32)).seq <|
    (written_presentString (by decide : 5 < 16) (by omega : sizePresent m.randomid stringSize < 2 ^ 32)).seq <|
    written_fields form
  refine ⟨all.writes, Eq.trans ?_ all.size⟩
  omega

/-- What `SerializeToString` gives. An incomplete request ends a program that is built without
`NDEBUG`. Otherwise it is the plain form of the fields, as long as `ByteSizeLong` says and never
outside the string that was resized to it, or nothing at all. -/
theorem request_serialized (form : HasForm depth m.unknown) :
    if ndebug || m.isInitialized then
      (m.byteSizeLong < 2 ^ 31 →
        m.serializeToString ndebug = some (plain m.fields, true) ∧
        (plain m.fields).length = m.byteSizeLong) ∧
      (2 ^ 31 ≤ m.byteSizeLong → m.serializeToString ndebug = some ([], false))
    else m.serializeToString ndebug = none := by
  split
  · rename_i checked
    refine ⟨fun small => (written form small).serializes checked small, fun large => ?_⟩
    rw [serializeToString, serializeToString_checked checked, appendPartialToString,
      if_pos (by omega)]
  · rename_i unchecked
    obtain ⟨rfl, incomplete⟩ := Bool.or_eq_false_iff.mp (Bool.eq_false_iff.mpr unchecked)
    rw [serializeToString, incomplete]
    exact serializeToString_incomplete _ _

/-- A request with a negative version and a field that the class does not know. -/
def downgraded : Request :=
  { type := some 0, version := some (-1), token := some [65], deviceid := some [], randomid := some [66],
    unknown := [.varint 7 5] }

theorem request_serialized_downgraded : downgraded.serializeToString false =
    some ([0x08, 0, 0x10, 0xFF, 0xFF, 0xFF, 0xFF, 0xFF, 0xFF, 0xFF, 0xFF, 0xFF, 1, 0x1A, 1, 65,
      0x22, 0, 0x2A, 1, 66, 0x38, 5], true) := by
  have form : HasForm 0 downgraded.unknown := hasForm_varint (by decide) (by decide) (by decide)
  have bytes : plain downgraded.fields =
      [0x08, 0, 0x10, 0xFF, 0xFF, 0xFF, 0xFF, 0xFF, 0xFF, 0xFF, 0xFF, 0xFF, 1, 0x1A, 1, 65, 0x22, 0, 0x2A, 1, 66,
        0x38, 5] := by decide +kernel
  have whole := @request_serialized downgraded 0 false form
  rw [if_pos (by decide)] at whole
  rw [(whole.1 (by decide +kernel)).1, bytes]

end Serialize

section Parse

variable {m : Request} {f : UnknownField} {ndebug : Bool}

/-- A field that is kept as it is. -/
def Foreign (f : UnknownField) : Prop :=
  ∀ m, generated.absorb m f = { m with unknown := m.unknown ++ [f] }

theorem accepts (f : UnknownField) : generated.Accepts f = true := by
  unfold MessageClass.Accepts
  split
  · rename_i found
    simp only [generated, known] at found
    split at found <;> cases found <;> rfl
  · rfl

theorem absorb_type (value : Nat) (m : Request) : generated.absorb m (.varint 1 value) =
    if productIsValid value then { m with type := some (Int32.ofNat value) }
    else { m with unknown := m.unknown ++ [.varint 1 value] } := rfl

theorem productIsValid_signExtended (value : Int32) :
    productIsValid (signExtended value) = (value == 0) := by
  rw [productIsValid, ofNat_signExtended]

theorem foldl_foreign {fields : List UnknownField} (foreign : ∀ f ∈ fields, Foreign f)
    (m : Request) :
    fields.foldl generated.absorb m = { m with unknown := m.unknown ++ fields } := by
  induction fields generalizing m with
  | nil => rw [List.append_nil]; rfl
  | cons f fields ih =>
    obtain ⟨first, rest⟩ := List.forall_mem_cons.mp foreign
    rw [List.foldl_cons, first m, ih rest]
    simp only [List.append_assoc, List.singleton_append]

/-- The message that is read where `m` was written. A product that is not in the enumeration is not
there any more. -/
def received (m : Request) : Request :=
  match m.type with
  | none => m
  | some type =>
    if type = 0 then m else { m with type := none, unknown := .varint 1 (signExtended type) :: m.unknown }

theorem absorb_fields (foreign : ∀ f ∈ m.unknown, Foreign f) :
    m.fields.foldl generated.absorb {} = m.received := by
  obtain ⟨type, version, token, deviceid, randomid, unknown⟩ := m
  have versions (m : Request) :
      (version.map fun a => UnknownField.varint 2 (signExtended a)).toList.foldl generated.absorb m =
      { m with version := version <|> m.version } := by
    cases version with
    | none => rfl
    | some a =>
      show { m with version := some (Int32.ofNat (signExtended a)) } = _
      rw [ofNat_signExtended]
      rfl
  have tokens (m : Request) :
      (token.map fun a => UnknownField.lengthDelimited 3 a).toList.foldl generated.absorb m =
      { m with token := token <|> m.token } := by
    cases token <;> rfl
  have deviceids (m : Request) :
      (deviceid.map fun a => UnknownField.lengthDelimited 4 a).toList.foldl generated.absorb m =
      { m with deviceid := deviceid <|> m.deviceid } := by
    cases deviceid <;> rfl
  have randomids (m : Request) :
      (randomid.map fun a => UnknownField.lengthDelimited 5 a).toList.foldl generated.absorb m =
      { m with randomid := randomid <|> m.randomid } := by
    cases randomid <;> rfl
  simp only [fields, List.foldl_append, versions, tokens, deviceids, randomids,
    foldl_foreign foreign]
  cases type with
  | none => simp [received]
  | some type =>
    simp only [Option.map_some, Option.toList_some, List.foldl_cons, List.foldl_nil, absorb_type,
      productIsValid_signExtended, received, beq_iff_eq, ofNat_signExtended]
    split <;> simp

/-- What a field can be for a request. -/
inductive Field : UnknownField → Prop where
  | type (value : Nat) : Field (.varint 1 value)
  | version (value : Nat) : Field (.varint 2 value)
  | token (data : Bytes) : Field (.lengthDelimited 3 data)
  | deviceid (data : Bytes) : Field (.lengthDelimited 4 data)
  | randomid (data : Bytes) : Field (.lengthDelimited 5 data)
  | foreign {f : UnknownField} (keeps : Foreign f) : Field f

theorem field (f : UnknownField) : Field f := by
  cases found : known (tagOf f) with
  | none => exact .foreign fun m => by simp only [MessageClass.absorb, generated, found]
  | some k =>
    have tag : tagOf f = 8 ∨ tagOf f = 16 ∨ tagOf f = 26 ∨ tagOf f = 34 ∨ tagOf f = 42 := by
      unfold known at found
      split at found <;> first | omega | cases found
    cases f with
    | varint number value =>
      simp only [tagOf] at tag
      obtain rfl | rfl : number = 1 ∨ number = 2 := by omega
      · exact .type value
      · exact .version value
    | lengthDelimited number data =>
      simp only [tagOf] at tag
      obtain rfl | rfl | rfl : number = 3 ∨ number = 4 ∨ number = 5 := by omega
      · exact .token data
      · exact .deviceid data
      · exact .randomid data
    | fixed64 | group | fixed32 =>
      simp only [tagOf] at tag
      omega

/-- A request that is read again where it is written: the strings are not too long, and the unknown
fields are unknown. -/
structure Readable (m : Request) : Prop where
  token : ∀ data ∈ m.token, data.length ≤ maxSize
  deviceid : ∀ data ∈ m.deviceid, data.length ≤ maxSize
  randomid : ∀ data ∈ m.randomid, data.length ≤ maxSize
  unknown : ∀ f ∈ m.unknown, HasForm recursionLimit [f] ∧ Foreign f

theorem Readable.hasForm_unknown (readable : m.Readable) : HasForm recursionLimit m.unknown :=
  hasForm_iff.mpr fun f member => (readable.unknown f member).1

theorem Readable.hasForm_fields (readable : m.Readable) : HasForm recursionLimit m.fields :=
  (hasForm_presentInt32 Nat.one_pos (by decide) m.type).append <|
    (hasForm_presentInt32 Nat.two_pos (by decide) m.version).append <|
    (hasForm_presentString (by decide) (by decide) readable.token).append <|
    (hasForm_presentString (by decide) (by decide) readable.deviceid).append <|
    (hasForm_presentString (by decide) (by decide) readable.randomid).append readable.hasForm_unknown

theorem parse_fields (readable : m.Readable) :
    parseFromString (plain m.fields) = (m.received, m.received.isInitialized) := by
  have merged : generated.mergePartialFrom {} (plain m.fields) = (m.received, true) := by
    refine MessageClass.mergePartialFrom_iff.mpr ⟨m.fields, readable.hasForm_fields.plain.form,
      fun f _ => accepts f, ?_⟩
    exact (absorb_fields fun f member => (readable.unknown f member).2).symm
  simp only [parseFromString, MessageClass.parseFromString, show generated.empty = {} from rfl,
    merged, Bool.true_and]
  rfl

/-- What `SerializeToString` has written, `ParseFromString` reads again; a request with a product
that is not in the enumeration comes back without its type. -/
theorem request_received (checked : (ndebug || m.isInitialized) = true) (readable : m.Readable)
    (small : m.byteSizeLong < 2 ^ 31) :
    ∃ data, m.serializeToString ndebug = some (data, true) ∧ data.length = m.byteSizeLong ∧
      parseFromString data = (m.received, m.received.isInitialized) := by
  obtain ⟨serialized, length⟩ := (written readable.hasForm_unknown small).serializes checked small
  exact ⟨_, serialized, length, parse_fields readable⟩

/-! ### What a parse leaves -/

theorem readable_absorb (form : HasForm recursionLimit [f]) (readable : m.Readable) :
    (generated.absorb m f).Readable := by
  obtain ⟨token, deviceid, randomid, unknown⟩ := readable
  have added (foreign : Foreign f) : ∀ g ∈ m.unknown ++ [f], HasForm recursionLimit [g] ∧
      Foreign g := by
    intro g member
    rcases List.mem_append.mp member with old | new
    · exact unknown g old
    · rw [List.mem_singleton.mp new]
      exact ⟨form, foreign⟩
  cases field f with
  | type value =>
    by_cases valid : productIsValid value = true
    · rw [absorb_type, if_pos valid]
      exact ⟨token, deviceid, randomid, unknown⟩
    · have foreign : Foreign (.varint 1 value) := fun m => by rw [absorb_type, if_neg valid]
      rw [foreign m]
      exact ⟨token, deviceid, randomid, added foreign⟩
  | version value => exact ⟨token, deviceid, randomid, unknown⟩
  | token data => exact ⟨by rintro _ ⟨⟩; exact hasForm_length form, deviceid, randomid, unknown⟩
  | deviceid data => exact ⟨token, by rintro _ ⟨⟩; exact hasForm_length form, randomid, unknown⟩
  | randomid data => exact ⟨token, deviceid, by rintro _ ⟨⟩; exact hasForm_length form, unknown⟩
  | foreign keeps =>
    rw [keeps m]
    exact ⟨token, deviceid, randomid, added keeps⟩

/-- A type that was read is in the enumeration. -/
theorem valid_absorb (valid : ∀ type ∈ m.type, type = 0) :
    ∀ type ∈ (generated.absorb m f).type, type = 0 := by
  cases field f with
  | type value =>
    rw [absorb_type]
    split
    · rename_i ok
      rintro _ ⟨⟩
      exact eq_of_beq ok
    · exact valid
  | version | token | deviceid | randomid => exact valid
  | foreign keeps =>
    rw [keeps m]
    exact valid

theorem foldl_absorb {fields : List UnknownField} (form : HasForm recursionLimit fields)
    (readable : m.Readable) (valid : ∀ type ∈ m.type, type = 0) :
    (fields.foldl generated.absorb m).Readable ∧ ∀ type ∈ (fields.foldl generated.absorb m).type,
    type = 0 := by
  induction fields generalizing m with
  | nil => exact ⟨readable, valid⟩
  | cons f fields ih =>
    obtain ⟨first, rest⟩ := hasForm_cons form
    exact ih rest (readable_absorb first readable) (valid_absorb valid)

theorem received_valid (valid : ∀ type ∈ m.type, type = 0) : m.received = m := by
  unfold received
  split
  · rfl
  · rw [if_pos (valid _ ‹_›)]

/-- A request that was read is the same after it is written and read again, with all that it did not
know. -/
theorem request_reread {data : Bytes} (parsed : parseFromString data = (m, true))
    (small : m.byteSizeLong < 2 ^ 31) :
    ∃ again, m.serializeToString ndebug = some (again, true) ∧
      parseFromString again = (m, true) := by
  obtain ⟨⟨fields, form, -, rfl⟩, initialized⟩ := MessageClass.parseFromString_iff.mp parsed
  have initialized : (fields.foldl generated.absorb {}).isInitialized = true := initialized
  have empty : ({} : Request).Readable := ⟨nofun, nofun, nofun, nofun⟩
  obtain ⟨readable, valid⟩ := foldl_absorb ⟨_, form⟩ empty nofun
  obtain ⟨again, serialized, -, reread⟩ :=
    @request_received _ ndebug (by rw [initialized, Bool.or_true]) readable small
  rw [received_valid valid] at reread
  exact ⟨again, serialized, reread.trans (congrArg _ initialized)⟩

/-- A request with a field that the class does not know, behind which the version is set again. -/
def amended : Bytes := [0x08, 0, 0x10, 1, 0x1A, 0, 0x22, 0, 0x2A, 1, 65, 0x38, 5, 0x10, 2]

theorem request_reread_amended : ∃ again,
    (parseFromString amended).1.serializeToString false = some (again, true) ∧
      parseFromString again = ((parseFromString amended).1, true) :=
  request_reread rfl (by decide)

/-! ### Two requests in one string -/

theorem mergeFrom_absorb (m source : Request) (f : UnknownField) :
    generated.absorb (m.mergeFrom source) f = m.mergeFrom (generated.absorb source f) := by
  cases field f with
  | type value =>
    rw [absorb_type, absorb_type]
    split
    · rfl
    · simp only [mergeFrom, List.append_assoc]
  | version | token | deviceid | randomid => rfl
  | foreign keeps => simp only [keeps _, mergeFrom, List.append_assoc]

/-- What is read from two strings one behind the other is what `MergeFrom` makes of the two
requests. -/
theorem request_concatenated {a b : Bytes} {x r : Request}
    (first : generated.mergePartialFrom {} a = (x, true)) :
    generated.mergePartialFrom {} (a ++ b) = (r, true) ↔
      ∃ y, generated.mergePartialFrom {} b = (y, true) ∧ r = x.mergeFrom y :=
  MessageClass.mergePartialFrom_mergeFrom (fun m => by simp [mergeFrom, generated]) mergeFrom_absorb first

theorem request_concatenated_amended : ∃ y, generated.mergePartialFrom {} [0x08, 3] = (y, true) ∧
    (generated.mergePartialFrom {} (amended ++ [0x08, 3])).1 =
      (generated.mergePartialFrom {} amended).1.mergeFrom y :=
  (request_concatenated rfl).mp rfl

end Parse

end Request

end Kingkong.Xauth
