import Kingkong.Protobuf.Serialize

/-!
The messages of `MvvmBasicParam.proto`, in which `SetProperty` and `FireEvent` pack a value for the
view. A field that has its default value is not written. What the view gets are bytes, and what it
reads there depends on the type that it expects. The reader of the view is not part of the library,
so it is any reader of the wire format.
-/

namespace Kingkong.Mvvm
open Lib Protobuf

structure Param (α : Type) where
  value : α
  unknown : List UnknownField := []

/-- What the generated classes differ in: the tag of their field, and how its value is written and
read. -/
structure ParamType (α : Type) where
  tag : Nat
  known : Known (Param α)
  initial : α
  isSet : α → Bool
  write : α → Writer
  size : α → Nat
  wire : 8 ≤ tag ∧ tag % 8 = known.wireType

namespace ParamType

variable {α : Type} (type : ParamType α)

def generated : MessageClass (Param α) where
  empty := { value := type.initial }
  known tag := if tag = type.tag then some type.known else none
  addUnknown m f := { m with unknown := m.unknown ++ [f] }
  isInitialized _ := true
  wire tag k found := by
    obtain ⟨same, found⟩ := Option.ite_none_right_eq_some.mp found
    cases found
    exact same ▸ type.wire

/-- What is written of a value. -/
def present (value : α) : Option α := if type.isSet value then some value else none

def internalSerialize (m : Param α) : Writer := fun out => do
  let out ← writePresent (type.present m.value) type.write out
  writeFields m.unknown out

def byteSizeLong (m : Param α) : Nat :=
  sizePresent (type.present m.value) type.size + fieldsSize m.unknown

def mergeFrom (m source : Param α) : Param α where
  value := if type.isSet source.value then source.value else m.value
  unknown := m.unknown ++ source.unknown

def serializeToString (ndebug : Bool) (m : Param α) : Option (Bytes × Bool) :=
  Protobuf.serializeToString ndebug (type.generated.isInitialized m) (type.byteSizeLong m) (type.internalSerialize m)

def parseFromString : Bytes → Param α × Bool := type.generated.parseFromString

end ParamType

/-- `WriteInt64ToArray`. -/
def writeInt64 (number : Nat) (value : Int64) : Writer := writeVarint number value.toUInt64.toNat

def paramInt32 : ParamType Int32 where
  tag := 8
  known := int32Field fun m value => { m with value := value }
  initial := 0
  isSet value := value != 0
  write := writeInt32 1
  size := int32Size
  wire := ⟨Nat.le_refl 8, rfl⟩

def paramInt64 : ParamType Int64 where
  tag := 8
  known := .varint (fun m value => { m with value := Int64.ofNat value }) fun m => { m with value := 0 }
  initial := 0
  isSet value := value != 0
  write := writeInt64 1
  size value := varintSize value.toUInt64.toNat
  wire := ⟨Nat.le_refl 8, rfl⟩

def paramBool : ParamType Bool where
  tag := 8
  known := .varint (fun m value => { m with value := value != 0 }) fun m => { m with value := false }
  initial := false
  isSet value := value
  write value := writeVarint 1 value.toNat
  size _ := 1
  wire := ⟨Nat.le_refl 8, rfl⟩

/-- `valid` is `IsStructurallyValidUTF8`, whose result is looked at when a string is read, but not
when it is written. -/
def paramString (valid : Bytes → Bool) : ParamType Bytes where
  tag := 10
  known := .string id (fun m data => { m with value := data }) valid
  initial := []
  isSet value := decide (0 < value.length)
  write := writeString 1
  size := stringSize
  wire := ⟨by decide, rfl⟩

/-! ### One field -/

namespace ParamType

variable {α : Type} {type : ParamType α} {value : α} {ndebug : Bool}

theorem mem_present {a : α} (member : a ∈ type.present value) : a = value := by
  obtain ⟨-, same⟩ := Option.ite_none_right_eq_some.mp member
  exact (Option.some.inj same).symm

/-- A value is written as the plain form of one field, or not at all. -/
theorem serializes (field : α → UnknownField)
    (written : Written (type.write value) (1 + type.size value) [field value])
    (small : 1 + type.size value < 2 ^ 31) :
    type.serializeToString ndebug { value := value } =
      some (plain ((type.present value).map field).toList, true) := by
  have known : HasForm 0 [] := hasForm_nil
  have first : Written (writePresent (type.present value) type.write) (sizePresent (type.present value) type.size)
      ((type.present value).map field).toList := by
    refine written_present fun a member => ?_
    rw [mem_present member]
    exact written
  have whole := first.seq (written_fields known)
  rw [List.append_nil] at whole
  refine (whole.serializes (Bool.or_true ndebug) ?_).1
  unfold present
  split <;> simp only [sizePresent, fieldsSize] <;> omega

theorem parse_forms {fields : List UnknownField} {data : Bytes}
    (form : Forms recursionLimit fields data)
    (accepted : ∀ f ∈ fields, type.generated.Accepts f = true) :
    type.parseFromString data = (fields.foldl type.generated.absorb { value := type.initial },
      true) :=
  MessageClass.parseFromString_iff.mpr ⟨⟨fields, form, accepted, rfl⟩, rfl⟩

theorem absorb_other {f : UnknownField} (other : tagOf f ≠ type.tag) (m : Param α) :
    (type.generated.absorb m f).value = m.value := by
  rw [type.generated.absorb_unknown (if_neg other)]
  rfl

theorem known_own {f : UnknownField} (own : tagOf f = type.tag) :
    type.generated.known (tagOf f) = some type.known :=
  if_pos own

/-- A number is stored if it has the tag of the class. -/
theorem absorb_number {store : Param α → Nat → Param α} {failed : Param α → Param α} {set : Nat → α}
    (tag : type.tag = 8) (known : type.known = .varint store failed)
    (stores : ∀ m value, (store m value).value = set value) (m : Param α) (f : UnknownField) :
    (type.generated.absorb m f).value = ((numberOf 1 f).map set).getD m.value := by
  by_cases own : tagOf f = type.tag
  · obtain ⟨value, rfl⟩ : ∃ value, f = .varint 1 value := eq_varint (own.trans tag)
    have found := known_own own
    rw [known] at found
    simp only [MessageClass.absorb, found]
    exact stores m value
  · rw [absorb_other own, numberOf_other fun same => own (same.trans tag.symm)]
    rfl

/-- And so is a string. -/
theorem absorb_string {type : ParamType Bytes} {opened : Param Bytes → Param Bytes}
    {store : Param Bytes → Bytes → Param Bytes} {verified : Bytes → Bool} (tag : type.tag = 10)
    (known : type.known = .string opened store verified)
    (stores : ∀ m value, (store m value).value = value) (m : Param Bytes) (f : UnknownField) :
    (type.generated.absorb m f).value = ((stringOf 1 f).map id).getD m.value := by
  by_cases own : tagOf f = type.tag
  · obtain ⟨data, rfl⟩ : ∃ data, f = .lengthDelimited 1 data := eq_lengthDelimited (own.trans tag)
    have found := known_own own
    rw [known] at found
    simp only [MessageClass.absorb, found]
    exact stores m data
  · rw [absorb_other own, stringOf_other fun same => own (same.trans tag.symm)]
    rfl

end ParamType

/-! ### What arrives at the other side -/

/-- What a view model hands to `SetProperty` or `FireEvent`. `null` is a message that is
`nullptr`. -/
inductive Value where
  | null
  | int32 (value : Int32)
  | int64 (value : Int64)
  | bool (value : Bool)
  | string (value : Bytes)

/-- The class of the message into which the bytes are read. -/
inductive Kind where
  | int32
  | int64
  | bool
  | string

variable (ndebug : Bool) (valid : Bytes → Bool)

/-- `OnPropertyChanged` and `OnEventFired` of `ActivityView`, which do not look at the result of
`SerializeToString`. -/
def Value.buffer : Value → Option Bytes
  | .null => some []
  | .int32 value => (paramInt32.serializeToString ndebug { value := value }).map Prod.fst
  | .int64 value => (paramInt64.serializeToString ndebug { value := value }).map Prod.fst
  | .bool value => (paramBool.serializeToString ndebug { value := value }).map Prod.fst
  | .string value => ((paramString valid).serializeToString ndebug { value := value }).map Prod.fst

/-- The generated class of a kind parses the bytes. -/
def Kind.parsed : Kind → Bytes → Value
  | .int32, buffer => .int32 (paramInt32.parseFromString buffer).1.value
  | .int64, buffer => .int64 (paramInt64.parseFromString buffer).1.value
  | .bool, buffer => .bool (paramBool.parseFromString buffer).1.value
  | .string, buffer => .string ((paramString valid).parseFromString buffer).1.value

/-- What a value is to a receiver that expects one of some kind. -/
def Kind.converts : Kind → Value → Value
  | .int32, .int32 value => .int32 value
  | .int32, .int64 value => .int32 value.toInt32
  | .int32, .bool value => .int32 (if value then 1 else 0)
  | .int64, .int32 value => .int64 value.toInt64
  | .int64, .int64 value => .int64 value
  | .int64, .bool value => .int64 (if value then 1 else 0)
  | .bool, .int32 value => .bool (value != 0)
  | .bool, .int64 value => .bool (value != 0)
  | .bool, .bool value => .bool value
  | .string, .string value => .string value
  | .int32, .string _ | .int32, .null => .int32 0
  | .int64, .string _ | .int64, .null => .int64 0
  | .bool, .string _ | .bool, .null => .bool false
  | .string, .int32 _ | .string, .int64 _ | .string, .bool _ | .string, .null => .string []

/-- No value, or the one that a message has from the start. -/
def Value.IsDefault : Value → Prop
  | .null => True
  | .int32 value => value = 0
  | .int64 value => value = 0
  | .bool value => value = false
  | .string value => value = []

/-- A string that fits into a field. -/
def Value.Short : Value → Prop
  | .string value => value.length ≤ maxSize
  | _ => True

/-! #### Numbers -/

/-- The field for a number. -/
def numberField (number : Nat) : Option UnknownField :=
  if number = 0 then none else some (.varint 1 number)

/-- The number as the message has it. -/
def Kind.ofNumber : Kind → Nat → Value
  | .int32, number => .int32 (Int32.ofNat number)
  | .int64, number => .int64 (Int64.ofNat number)
  | .bool, number => .bool (number != 0)
  | .string, _ => .string []

theorem numberField_eq_none {number : Nat} : numberField number = none ↔ number = 0 := by
  simp [numberField]

theorem written_varint {number value : Nat} (small : number < 16) (wide : value < 2 ^ 64) :
    Written (writeVarint number value) (1 + varintSize value) [.varint number value] where
  writes := by
    rw [plain_singleton, plainField]
    exact writes_writeVarint _ _
  size := by
    rw [plain_singleton, plainField, List.length_append, tag_length (by omega), varintSize_eq wide]

theorem hasForm_numberField {number : Nat} (wide : number < 2 ^ 64) :
    HasForm recursionLimit (numberField number).toList := by
  unfold numberField
  split
  · exact hasForm_nil
  · exact hasForm_varint (by decide) (by decide) wide

/-- What some fields mean to a reader: the last field 1 of the wire type that it expects, or the
default. -/
def Kind.ofFields (kind : Kind) (fields : List UnknownField) : Value :=
  match kind with
  | .string => .string ((fields.filterMap (stringOf 1)).getLast?.getD [])
  | kind => kind.ofNumber ((fields.filterMap (numberOf 1)).getLast?.getD 0)

/-- A reader of the wire format. What it makes of a string that is not valid is left open. -/
def ReadsWire (read : Kind → Bytes → Value) : Prop :=
  ∀ kind fields data, Forms recursionLimit fields data → (∀ text ∈ fields.filterMap (stringOf 1), valid text = true) →
    read kind data = kind.ofFields fields

theorem getD_map_getD {α β : Type} (last : Option α) (f : α → β) (a : α) :
    (last.map f).getD (f a) = f (last.getD a) := by
  cases last <;> rfl

/-- A class with a number has nothing to verify. -/
theorem accepts_number {α : Type} {type : ParamType α} {store : Param α → Nat → Param α}
    {failed : Param α → Param α} (known : type.known = .varint store failed) (f : UnknownField) :
    type.generated.Accepts f = true := by
  unfold MessageClass.Accepts
  split
  · rename_i found
    rw [Option.some.inj (Option.ite_none_right_eq_some.mp found).2] at known
    cases known
  · rfl

theorem accepts_string {f : UnknownField} (verified : ∀ text ∈ stringOf 1 f, valid text = true) :
    (paramString valid).generated.Accepts f = true := by
  unfold MessageClass.Accepts
  split
  · rename_i data found
    obtain ⟨tag, same⟩ := Option.ite_none_right_eq_some.mp found
    cases same
    obtain ⟨text, same⟩ : ∃ text, UnknownField.lengthDelimited _ data = .lengthDelimited 1 text :=
      eq_lengthDelimited tag
    cases same
    exact verified data rfl
  · rfl

/-- The generated classes read the wire format. -/
theorem parsed_readsWire : ReadsWire valid (Kind.parsed valid) := by
  intro kind fields data form verified
  cases kind with
  | int32 =>
    have last := foldl_last (paramInt32.absorb_number rfl rfl fun _ _ => rfl) fields { value := 0 }
    rw [Kind.parsed, ParamType.parse_forms form fun f _ => accepts_number rfl f]
    exact congrArg Value.int32 (last.trans (getD_map_getD _ Int32.ofNat 0))
  | int64 =>
    have last := foldl_last (paramInt64.absorb_number rfl rfl fun _ _ => rfl) fields { value := 0 }
    rw [Kind.parsed, ParamType.parse_forms form fun f _ => accepts_number rfl f]
    exact congrArg Value.int64 (last.trans (getD_map_getD _ Int64.ofNat 0))
  | bool =>
    have last :=
      foldl_last (paramBool.absorb_number rfl rfl fun _ _ => rfl) fields { value := false }
    rw [Kind.parsed, ParamType.parse_forms form fun f _ => accepts_number rfl f]
    exact congrArg Value.bool (last.trans (getD_map_getD _ (fun number : Nat => number != 0) 0))
  | string =>
    have last :=
      foldl_last ((paramString valid).absorb_string rfl rfl fun _ _ => rfl) fields { value := [] }
    have accepted : ∀ f ∈ fields, (paramString valid).generated.Accepts f = true := by
      intro f member
      refine accepts_string valid fun text found => verified text ?_
      exact List.mem_filterMap.mpr ⟨f, member, found⟩
    rw [Kind.parsed, ParamType.parse_forms form accepted]
    exact congrArg Value.string (last.trans (getD_map_getD _ id []))

/-- What the sender writes for a value, if it is a number. -/
def Value.number : Value → Option Nat
  | .int32 value => some (signExtended value)
  | .int64 value => some value.toUInt64.toNat
  | .bool value => some value.toNat
  | .null | .string _ => none

theorem int64_ofNat_signExtended (value : Int32) :
    Int64.ofNat (signExtended value) = value.toInt64 := by
  have low := value.le_toInt
  have high := value.toInt_lt
  apply Int64.toInt_inj.mp
  rw [Int64.toInt_ofNat', signExtended, Int.toNat_of_nonneg (Int.emod_nonneg _ (by decide)),
    Int32.toInt_toInt64, Int.bmod_def, Int64.size]
  split <;> omega

theorem signExtended_eq_zero {value : Int32} : signExtended value = 0 ↔ value = 0 := by
  rw [← Int32.toInt_inj]
  have low := value.le_toInt
  have high := value.toInt_lt
  have zero : (0 : Int32).toInt = 0 := rfl
  rw [zero, signExtended]
  omega

theorem toInt_bmod (value : Int64) : value.toInt = Int.bmod value.toUInt64.toNat Int64.size :=
  BitVec.toInt_eq_toNat_bmod _

theorem int64_ofNat (value : Int64) : Int64.ofNat value.toUInt64.toNat = value := by
  apply Int64.toInt_inj.mp
  rw [Int64.toInt_ofNat', toInt_bmod]

theorem int32_ofNat (value : Int64) : Int32.ofNat value.toUInt64.toNat = value.toInt32 := by
  apply Int32.toInt_inj.mp
  rw [Int32.toInt_ofNat', Int64.toInt_toInt32, toInt_bmod, Int.bmod_bmod_of_dvd (by decide)]

theorem toNat_eq_zero {value : Int64} : value.toUInt64.toNat = 0 ↔ value = 0 := by
  have small := value.toUInt64.toNat_lt
  have zero : (0 : Int64).toInt = 0 := rfl
  rw [← Int64.toInt_inj, toInt_bmod, zero, Int.bmod_def, Int64.size]
  split <;> omega

/-- The integers are converted as the language does it. -/
theorem ofNumber_converts (expected : Kind) {sent : Value} {number : Nat}
    (written : sent.number = some number) :
    expected.ofNumber number = expected.converts sent := by
  cases sent with
  | null | string => cases written
  | bool value =>
    cases written
    cases expected <;> cases value <;> rfl
  | int32 value =>
    cases written
    cases expected with
    | int32 => exact congrArg Value.int32 (ofNat_signExtended value)
    | int64 => exact congrArg Value.int64 (int64_ofNat_signExtended value)
    | bool => exact congrArg Value.bool (Bool.eq_iff_iff.mpr (by simp only [bne_iff_ne, ne_eq, signExtended_eq_zero]))
    | string => rfl
  | int64 value =>
    cases written
    cases expected with
    | int32 => exact congrArg Value.int32 (int32_ofNat value)
    | int64 => exact congrArg Value.int64 (int64_ofNat value)
    | bool => exact congrArg Value.bool (Bool.eq_iff_iff.mpr (by simp only [bne_iff_ne, ne_eq, toNat_eq_zero]))
    | string => rfl

/-- A number that is zero is not written. -/
theorem numberField_present {α : Type} {type : ParamType α} {value : α} {number : α → Nat}
    (set : type.isSet value = true ↔ number value ≠ 0) :
    (type.present value).map (fun value => UnknownField.varint 1 (number value)) =
      numberField (number value) := by
  unfold ParamType.present numberField
  by_cases zero : number value = 0
  · rw [if_pos zero, if_neg (fun isSet => set.mp isSet zero)]
    rfl
  · rw [if_neg zero, if_pos (set.mpr zero)]
    rfl

theorem varintSize_le {value : Nat} (wide : value < 2 ^ 64) : varintSize value ≤ 10 := by
  rw [varintSize_eq wide, varint_length]
  have few : value.log2 < 64 := by
    by_cases zero : value = 0
    · subst zero
      decide
    · exact (Nat.log2_lt zero).mpr wide
  omega

theorem serializes_number {α : Type} {type : ParamType α} {value : α} (number : α → Nat)
    (set : type.isSet value = true ↔ number value ≠ 0) (wide : number value < 2 ^ 64)
    (write : type.write value = writeVarint 1 (number value))
    (size : type.size value = varintSize (number value)) :
    (type.serializeToString ndebug { value := value }).map Prod.fst =
      some (plain (numberField (number value)).toList) := by
  have small := varintSize_le wide
  have written : Written (type.write value) (1 + type.size value) [.varint 1 (number value)] := by
    rw [write, size]
    exact written_varint (by decide) wide
  rw [ParamType.serializes (fun value => .varint 1 (number value)) written (by omega),
    numberField_present set]
  rfl

theorem buffer_number {sent : Value} {number : Nat} (written : sent.number = some number) :
    sent.buffer ndebug valid = some (plain (numberField number).toList) ∧ number < 2 ^ 64 ∧
      (number = 0 ↔ sent.IsDefault) := by
  cases sent with
  | null | string => cases written
  | int32 value =>
    cases written
    have wide := signExtended_lt value
    have set : paramInt32.isSet value = true ↔ signExtended value ≠ 0 := by
      rw [ne_eq, signExtended_eq_zero]
      exact bne_iff_ne
    refine ⟨serializes_number ndebug signExtended set wide rfl ?_, wide, signExtended_eq_zero⟩
    rw [varintSize_eq wide]
    exact int32Size_eq value
  | int64 value =>
    cases written
    have wide := value.toUInt64.toNat_lt
    have set : paramInt64.isSet value = true ↔ value.toUInt64.toNat ≠ 0 := by
      rw [ne_eq, toNat_eq_zero]
      exact bne_iff_ne
    exact ⟨serializes_number ndebug (fun value : Int64 => value.toUInt64.toNat) set wide rfl rfl,
      wide, toNat_eq_zero⟩
  | bool value =>
    cases written
    have wide : value.toNat < 2 ^ 64 := by cases value <;> decide
    refine ⟨serializes_number ndebug Bool.toNat ?_ wide rfl ?_, wide, Bool.toNat_eq_zero⟩
    · cases value <;> decide
    · cases value <;> decide

/-! #### Strings -/

/-- The field for a string. -/
def textField (data : Bytes) : Option UnknownField :=
  if data = [] then none else some (.lengthDelimited 1 data)

theorem textField_eq_none {data : Bytes} : textField data = none ↔ data = [] := by
  simp [textField]

theorem hasForm_textField {data : Bytes} (short : data.length ≤ maxSize) :
    HasForm recursionLimit (textField data).toList := by
  unfold textField
  split
  · exact hasForm_nil
  · exact hasForm_string (by decide) (by decide) short

/-- A string that is empty is not written. -/
theorem textField_present (data : Bytes) :
    ((paramString valid).present data).map (fun data => UnknownField.lengthDelimited 1 data) =
      textField data := by
  cases data <;> rfl

theorem buffer_string {data : Bytes} (short : data.length ≤ maxSize) :
    (Value.string data).buffer ndebug valid = some (plain (textField data).toList) := by
  have short : data.length ≤ 2 ^ 31 - 17 := short
  have written : Written (writeString 1 data) (1 + stringSize data) [.lengthDelimited 1 data] :=
    written_string (by decide) (by omega)
  have small : 1 + stringSize data < 2 ^ 31 := by
    have few : varintSize (data.length % 2 ^ 32) ≤ 10 := varintSize_le (by omega)
    unfold stringSize
    omega
  rw [Value.buffer, ParamType.serializes (fun data => .lengthDelimited 1 data) written small,
    textField_present]
  rfl

/-! #### A property on its way -/

theorem plain_eq_nil {f : Option UnknownField} : plain f.toList = [] ↔ f = none := by
  cases f with
  | none => exact ⟨fun _ => rfl, fun _ => rfl⟩
  | some f =>
    refine ⟨fun empty => absurd empty ?_, nofun⟩
    rw [Option.toList, plain_singleton]
    cases f <;> exact append_ne_nil _ _

/-- The field that is written for a value. -/
def Value.field (sent : Value) : Option UnknownField :=
  match sent.number, sent with
  | some number, _ => numberField number
  | none, .string data => textField data
  | none, _ => none

theorem buffer_field {sent : Value} (short : sent.Short) :
    sent.buffer ndebug valid = some (plain sent.field.toList) := by
  cases sent with
  | null => rfl
  | int32 | int64 | bool => exact (buffer_number ndebug valid rfl).1
  | string data => exact buffer_string ndebug valid short

theorem number_lt {sent : Value} {number : Nat} (written : sent.number = some number) :
    number < 2 ^ 64 :=
  (buffer_number true (fun _ => true) written).2.1

theorem hasForm_field {sent : Value} (short : sent.Short) :
    HasForm recursionLimit sent.field.toList := by
  cases written : sent.number with
  | some number =>
    simp only [Value.field, written]
    exact hasForm_numberField (number_lt written)
  | none =>
    cases sent with
    | int32 | int64 | bool => cases written
    | null => exact hasForm_nil
    | string data => exact hasForm_textField short

/-- A number means to a reader what `ofNumber` says, but nothing to one that expects a string. -/
theorem ofFields_numberField (expected : Kind) (number : Nat) :
    expected.ofFields (numberField number).toList = expected.ofNumber number := by
  unfold numberField
  split
  · rename_i zero
    subst zero
    cases expected <;> rfl
  · cases expected <;> rfl

theorem ofFields_textField (expected : Kind) (data : Bytes) :
    expected.ofFields (textField data).toList = expected.converts (.string data) := by
  unfold textField
  split
  · rename_i empty
    subst empty
    cases expected <;> rfl
  · cases expected <;> rfl

theorem ofFields_field (sent : Value) (expected : Kind) :
    expected.ofFields sent.field.toList = expected.converts sent := by
  cases written : sent.number with
  | some number =>
    simp only [Value.field, written]
    rw [ofFields_numberField, ofNumber_converts expected written]
  | none =>
    cases sent with
    | int32 | int64 | bool => cases written
    | null => cases expected <;> rfl
    | string data => exact ofFields_textField expected data

/-- The only string that is written is the one that is sent. -/
theorem stringOf_field {sent : Value} {text : Bytes}
    (member : text ∈ sent.field.toList.filterMap (stringOf 1)) :
    sent = .string text := by
  obtain ⟨f, member, found⟩ := List.mem_filterMap.mp member
  rw [Option.mem_toList] at member
  cases written : sent.number with
  | some number =>
    simp only [Value.field, written, numberField] at member
    obtain ⟨-, same⟩ := Option.ite_none_left_eq_some.mp member
    cases same
    cases found
  | none =>
    cases sent with
    | int32 | int64 | bool => cases written
    | null => cases member
    | string data =>
      obtain ⟨-, same⟩ := Option.ite_none_left_eq_some.mp member
      cases same
      cases found
      rfl

theorem field_eq_none {sent : Value} : sent.field = none ↔ sent.IsDefault := by
  cases written : sent.number with
  | some number =>
    simp only [Value.field, written, numberField_eq_none]
    exact (buffer_number true (fun _ => true) written).2.2
  | none =>
    cases sent with
    | int32 | int64 | bool => cases written
    | null => exact iff_of_true rfl trivial
    | string data => exact textField_eq_none

theorem field_length {sent : Value} (short : sent.Short) :
    (plain sent.field.toList).length < 2 ^ 31 := by
  cases written : sent.number with
  | some number =>
    have wide := number_lt written
    have few := varintSize_le wide
    rw [varintSize_eq wide] at few
    simp only [Value.field, written, numberField]
    split
    · decide
    · rw [Option.toList, plain_singleton, plainField, List.length_append, tag_length (by decide)]
      omega
  | none =>
    cases sent with
    | int32 | int64 | bool => cases written
    | null => decide
    | string data =>
      have short : data.length ≤ 2 ^ 31 - 17 := short
      have few : varintSize data.length ≤ 10 := varintSize_le (by omega)
      rw [varintSize_eq (by omega)] at few
      simp only [Value.field, written, textField]
      split
      · decide
      · rw [Option.toList, plain_singleton, plainField, List.length_append, List.length_append,
          tag_length (by decide)]
        omega

/-- For every value that is not a string of two gigabytes, the bytes are the form of one field, and
there are none exactly if there is no value, or the default one. Whoever reads the wire format gets
the value itself if the kinds agree; else an integer is cut or extended as the language does it, a
number and a truth value are turned into each other, and a string and a number are dropped for the
default of the other. -/
theorem property_arrives {read : Kind → Bytes → Value} (reads : ReadsWire valid read) (sent : Value)
    (short : sent.Short) (utf8 : ∀ text, sent = .string text → valid text = true)
    (expected : Kind) :
    ∃ bytes, sent.buffer ndebug valid = some bytes ∧ Forms recursionLimit sent.field.toList bytes ∧
      (bytes = [] ↔ sent.IsDefault) ∧ read expected bytes = expected.converts sent := by
  have form := (hasForm_field short).plain.form
  refine ⟨_, buffer_field ndebug valid short, form, plain_eq_nil.trans field_eq_none, ?_⟩
  rw [reads expected _ _ form fun text member => utf8 text (stringOf_field member), ofFields_field]

/-- The generated classes are such readers. -/
theorem property_arrives_parsed :
    ∃ bytes, (Value.int64 (-1)).buffer false (fun _ => true) = some bytes ∧
    bytes ≠ [] ∧ Kind.int32.parsed (fun _ => true) bytes = .int32 (-1) ∧
    Kind.string.parsed (fun _ => true) bytes = .string [] := by
  have reads := parsed_readsWire fun _ => true
  obtain ⟨bytes, buffer, -, empty, number⟩ :=
    property_arrives false (fun _ => true) reads (.int64 (-1)) trivial nofun .int32
  obtain ⟨again, same, -, -, text⟩ :=
    property_arrives false (fun _ => true) reads (.int64 (-1)) trivial nofun .string
  cases same.symm.trans buffer
  exact ⟨bytes, buffer, fun none => absurd (empty.mp none) (show (-1 : Int64) ≠ 0 by decide),
    number, text⟩

end Kingkong.Mvvm
