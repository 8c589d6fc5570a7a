import Kingkong.Protobuf.Message

/-!
How a message is written: first its size is computed, then the fields are written into an array of
exactly that size, with few tests of how much room is left. Beside the writers stands the plain form
of a list of fields, which is what they write and one of the forms that a parser accepts.
-/

namespace Kingkong.Protobuf
open Lib

/-! ### Numbers and their sizes -/

/-- The loop of `UnsafeVarint` and the byte behind it. -/
def varintTail (value : Nat) : Bytes :=
  UInt8.ofNat (value ||| 0x80) ::
    if 0x80 ≤ value / 128 then varintTail (value / 128) else [UInt8.ofNat (value / 128)]
termination_by value
decreasing_by omega

/-- `UnsafeVarint`, which tests for one and for two bytes before its loop. -/
def unsafeVarint (value : Nat) : Bytes :=
  if value < 0x80 then [UInt8.ofNat value]
  else if value / 128 < 0x80 then [UInt8.ofNat (value ||| 0x80), UInt8.ofNat (value / 128)]
  else UInt8.ofNat (value ||| 0x80) :: varintTail (value / 128)

def unsafeWriteSize (value : Nat) : Bytes :=
  if 0x80 ≤ value then UInt8.ofNat (value ||| 0x80) :: unsafeWriteSize (value / 128) else [UInt8.ofNat value]
termination_by value
decreasing_by omega

/-- `VarintSize32` and `VarintSize64`: the logarithm is divided by seven with a multiplication. -/
def varintSize (value : Nat) : Nat := (Nat.log2 (value ||| 1) * 9 + 73) / 64

def tagSize (tag : Nat) : Nat :=
  if tag < 2 ^ 7 then 1 else if tag < 2 ^ 14 then 2 else if tag < 2 ^ 21 then 3 else if tag < 2 ^ 28 then 4 else 5

theorem ofNat_or (value : Nat) :
    UInt8.ofNat (value ||| 0x80) = UInt8.ofNat (value % 128 + 128) := by
  have every : ∀ low < 256, low ||| 0x80 = low % 128 + 128 := by decide +kernel
  apply UInt8.toNat_inj.mp
  rw [UInt8.toNat_ofNat', UInt8.toNat_ofNat', Nat.or_mod_two_pow (n := 8)]
  rw [show (0x80 : Nat) % 2 ^ 8 = 0x80 from rfl, every _ (Nat.mod_lt _ (by decide))]
  omega

theorem varintTail_eq (value : Nat) (large : 0x80 ≤ value) : varintTail value = varint value := by
  induction value using Nat.strongRecOn with
  | ind value ih =>
    rw [varintTail, varint_large (by omega), ofNat_or]
    split
    · rw [ih _ (by omega) ‹_›]
    · rw [varint_small (by omega)]

theorem unsafeVarint_eq (value : Nat) : unsafeVarint value = varint value := by
  unfold unsafeVarint
  split
  · rw [varint_small ‹_›]
  · split
    · rw [varint_large ‹_›, varint_small ‹_›, ofNat_or]
    · rw [varint_large ‹_›, varintTail_eq _ (by omega), ofNat_or]

theorem unsafeWriteSize_eq (value : Nat) : unsafeWriteSize value = varint value := by
  induction value using Nat.strongRecOn with
  | ind value ih =>
    rw [unsafeWriteSize]
    split
    · rw [varint_large (by omega), ih _ (by omega), ofNat_or]
    · rw [varint_small (by omega)]

theorem log2_or_one (value : Nat) : Nat.log2 (value ||| 1) = Nat.log2 value := by
  by_cases few : value < 2
  · obtain rfl | rfl : value = 0 ∨ value = 1 := by omega
    · decide
    · decide
  · have more : value ≤ value ||| 1 := Nat.left_le_or
    rw [Nat.log2_def (value ||| 1), Nat.log2_def value, if_pos (by omega), if_pos (by omega),
      Nat.or_div_two, show 1 / 2 = 0 from rfl, Nat.or_zero]

theorem varintSize_eq {value : Nat} (small : value < 2 ^ 64) :
    varintSize value = (varint value).length := by
  have every : ∀ log < 64, (log * 9 + 73) / 64 = log / 7 + 1 := by decide
  rw [varintSize, varint_length, log2_or_one]
  apply every
  by_cases zero : value = 0
  · rw [zero]
    decide
  · exact (Nat.log2_lt zero).mpr small

/-! ### The array -/

/-- An array that is written from the front: `end_ - ptr`, and what there is before `ptr`. -/
structure OutputArray where
  room : Nat
  written : Bytes

/-- There is no result when a byte would be written behind the end of the array, or when the stream
asks for another array, which it does not have. -/
abbrev Writer := OutputArray → Option OutputArray

def put (bytes : Bytes) : Writer := fun out =>
  if bytes.length ≤ out.room then some { room := out.room - bytes.length, written := out.written ++ bytes } else none

def ensureSpace : Writer := fun out => if 0 < out.room then some out else none

/-- `WriteRaw`. Without the room `WriteRawFallback` writes on behind the array. -/
def writeRaw (data : Bytes) : Writer :=
  fun out => if out.room < data.length then none else put data out

/-- `WriteTagToArray` and `WriteTag`. -/
def writeTag (number wireType : Nat) : Writer := put (unsafeVarint (8 * number + wireType))

/-- `WriteUInt64ToArray`, with the room ensured before. -/
def writeVarint (number value : Nat) : Writer := fun out => do
  let out ← ensureSpace out
  let out ← writeTag number 0 out
  put (unsafeVarint value) out

/-- `WriteFixed32ToArray` and `WriteFixed64ToArray`. -/
def writeFixed (n number wireType value : Nat) : Writer := fun out => do
  let out ← ensureSpace out
  let out ← writeTag number wireType out
  put (bigEndian n value).reverse out

/-- `WriteStringOutline` and `WriteStringMaybeAliasedOutline`. -/
def writeStringOutline (number : Nat) (data : Bytes) : Writer := fun out => do
  let out ← ensureSpace out
  let out ← writeTag number 2 out
  let out ← put (unsafeWriteSize (data.length % 2 ^ 32)) out
  writeRaw data out

/-- `WriteString` and `WriteStringMaybeAliased`: a short string for which there is room is written
at once. -/
def writeString (number : Nat) (data : Bytes) : Writer := fun out =>
  if 128 ≤ data.length ∨ (out.room : Int) + 16 - tagSize (8 * number) - 1 < data.length then
    writeStringOutline number data out
  else do
    let out ← writeTag number 2 out
    let out ← put [UInt8.ofNat data.length] out
    put data out

mutual

/-- A field in `InternalSerializeUnknownFieldsToArray`. -/
def writeField : UnknownField → Writer
  | .varint number value => writeVarint number value
  | .fixed64 number value => writeFixed 8 number 1 value
  | .lengthDelimited number data => fun out => do
    let out ← ensureSpace out
    writeString number data out
  | .group number fields => fun out => do
    let out ← ensureSpace out
    let out ← writeTag number 3 out
    let out ← writeFields fields out
    let out ← ensureSpace out
    writeTag number 4 out
  | .fixed32 number value => writeFixed 4 number 5 value

def writeFields : List UnknownField → Writer
  | [] => fun out => some out
  | field :: fields => fun out => do
    let out ← writeField field out
    writeFields fields out

end

mutual

/-- A field in `ComputeUnknownFieldsSize`. -/
def fieldSize : UnknownField → Nat
  | .varint number value => varintSize (8 * number) + varintSize value
  | .fixed64 number _ => varintSize (8 * number + 1) + 8
  | .lengthDelimited number data =>
    varintSize (8 * number + 2) + varintSize (data.length % 2 ^ 32) + data.length
  | .group number fields => varintSize (8 * number + 3) + fieldsSize fields + varintSize (8 * number + 4)
  | .fixed32 number _ => varintSize (8 * number + 5) + 4

def fieldsSize : List UnknownField → Nat
  | [] => 0
  | field :: fields => fieldSize field + fieldsSize fields

end

/-! ### The plain form -/

mutual

def plainField : UnknownField → Bytes
  | .varint number value => varint (8 * number) ++ varint value
  | .fixed64 number value => varint (8 * number + 1) ++ (bigEndian 8 value).reverse
  | .lengthDelimited number data => varint (8 * number + 2) ++ (varint data.length ++ data)
  | .group number fields => varint (8 * number + 3) ++ (plain fields ++ varint (8 * number + 4))
  | .fixed32 number value => varint (8 * number + 5) ++ (bigEndian 4 value).reverse

def plain : List UnknownField → Bytes
  | [] => []
  | field :: fields => plainField field ++ plain fields

end

/-- `write` puts the bytes into every array that has room for them. -/
def Writes (write : Writer) (bytes : Bytes) : Prop :=
  ∀ out, bytes.length ≤ out.room → write out = some { room := out.room - bytes.length, written := out.written ++ bytes }

section Writes

variable {first second : Writer} {a b : Bytes}

theorem writes_put (bytes : Bytes) : Writes (put bytes) bytes := fun _ room => if_pos room

theorem Writes.seq (writes : Writes first a) (more : Writes second b) :
    Writes (fun out => (first out).bind second) (a ++ b) := by
  intro out room
  rw [List.length_append] at room
  show (first out).bind second = _
  rw [writes out (by omega), Option.bind_some, more _ (by dsimp only; omega)]
  simp only [List.length_append, List.append_assoc, Nat.sub_sub]

theorem Writes.ensured (writes : Writes first a) (nonempty : a ≠ []) :
    Writes (fun out => (ensureSpace out).bind first) a := by
  intro out room
  have positive := List.length_pos_of_ne_nil nonempty
  have space : ensureSpace out = some out := if_pos (by omega)
  show (ensureSpace out).bind first = _
  rw [space, Option.bind_some, writes out room]

theorem writes_writeRaw (data : Bytes) : Writes (writeRaw data) data := by
  intro out room
  rw [writeRaw, if_neg (by omega), writes_put data out room]

theorem writes_writeTag (number wireType : Nat) :
    Writes (writeTag number wireType) (varint (8 * number + wireType)) := by
  unfold writeTag
  rw [unsafeVarint_eq]
  exact writes_put _

theorem append_ne_nil (a : Nat) (b : Bytes) : varint a ++ b ≠ [] :=
  List.append_ne_nil_of_left_ne_nil (varint_ne_nil a) b

theorem writes_writeVarint (number value : Nat) :
    Writes (writeVarint number value) (varint (8 * number) ++ varint value) := by
  apply Writes.ensured _ (append_ne_nil _ _)
  apply (writes_writeTag number 0).seq
  rw [unsafeVarint_eq]
  exact writes_put _

theorem writes_writeFixed (n number wireType value : Nat) :
    Writes (writeFixed n number wireType value)
    (varint (8 * number + wireType) ++ (bigEndian n value).reverse) := by
  apply Writes.ensured _ (append_ne_nil _ _)
  exact (writes_writeTag number wireType).seq (writes_put _)

theorem writes_writeStringOutline {number : Nat} {data : Bytes} (small : data.length < 2 ^ 32) :
    Writes (writeStringOutline number data) (varint (8 * number + 2) ++ (varint data.length ++ data)) := by
  apply Writes.ensured _ (append_ne_nil _ _)
  apply (writes_writeTag number 2).seq
  rw [Nat.mod_eq_of_lt small, unsafeWriteSize_eq]
  exact (writes_put _).seq (writes_writeRaw data)

/-- Both ways of writing a string write the same. -/
theorem writes_writeString {number : Nat} {data : Bytes} (small : data.length < 2 ^ 32) :
    Writes (writeString number data) (varint (8 * number + 2) ++ (varint data.length ++ data)) := by
  intro out room
  unfold writeString
  split
  · exact writes_writeStringOutline small out room
  · rename_i short
    have few : data.length < 128 := by omega
    have same : varint data.length = [UInt8.ofNat data.length] := varint_small few
    rw [same] at room ⊢
    exact (writes_writeTag number 2).seq ((writes_put _).seq (writes_put data)) out room

end Writes

/-! ### What has a form has a plain one -/

section Plain

variable {depth tag : Nat} {fields more : List UnknownField} {f : UnknownField} {data head body : Bytes}
  {Inner : List UnknownField → Bytes → Prop}

theorem isTag_varint (small : tag < 2 ^ 32) : IsTag tag (varint tag) :=
  ⟨tag, varint_isVarint (by omega), congrArg Except.ok (Nat.mod_eq_of_lt small)⟩

theorem isTag_lt (start : IsTag tag head) : tag < 2 ^ 32 := by
  obtain ⟨x, -, equal⟩ := start
  cases equal
  exact Nat.mod_lt _ (by decide)

theorem isValue_varint {value : Nat} (small : value < 2 ^ 64) : IsValue value (varint value) :=
  ⟨value, varint_isVarint (by omega), congrArg Except.ok (Nat.mod_eq_of_lt small)⟩

theorem isValue_lt {value : Nat} (form : IsValue value body) : value < 2 ^ 64 := by
  obtain ⟨x, -, equal⟩ := form
  cases equal
  exact Nat.mod_lt _ (by decide)

theorem isSize_varint {length : Nat} (small : length ≤ maxSize) :
    IsSize length (varint length) := by
  have few : length < 128 ^ 5 := Nat.lt_of_le_of_lt small (by decide)
  exact ⟨length, varint_isVarint few, if_pos small⟩

theorem isSize_le {length : Nat} (form : IsSize length body) : length ≤ maxSize := by
  obtain ⟨x, -, equal⟩ := form
  unfold size at equal
  split at equal
  · cases equal
    assumption
  · cases equal

theorem isFixed_reverse {n value : Nat} (form : IsFixed n value body) :
    IsFixed n value (bigEndian n value).reverse := by
  obtain ⟨rfl, rfl⟩ := form
  have small := ofBigEndian_lt body.reverse
  rw [List.length_reverse] at small
  refine ⟨?_, ?_⟩
  · rw [List.length_reverse, bigEndian_length]
  · rw [List.reverse_reverse, ofBigEndian_bigEndian small]

/-- The fields have a plain form, which is what is written, and its length is known before. -/
structure Plain (Form : List UnknownField → Bytes → Prop) (fields : List UnknownField) : Prop where
  form : Form fields (plain fields)
  writes : Writes (writeFields fields) (plain fields)
  size : fieldsSize fields = (plain fields).length

theorem plain_body (inner : ∀ fields bytes, Inner fields bytes → Plain Inner fields)
    (start : IsTag tag head) (form : BodyForm Inner tag f body) :
    ∃ body, BodyForm Inner tag f body ∧ plainField f = varint tag ++ body ∧
      Writes (writeField f) (plainField f) ∧ fieldSize f = (plainField f).length := by
  have small := isTag_lt start
  cases form with
  | @varint value _ wire form =>
    have same : 8 * (tag / 8) = tag := by omega
    have wide := isValue_lt form
    refine ⟨_, .varint wire (isValue_varint wide), ?_, ?_, ?_⟩
    · rw [plainField, same]
    · exact writes_writeVarint _ _
    · rw [fieldSize, plainField, List.length_append, varintSize_eq wide, varintSize_eq (by omega)]
  | @fixed64 value _ wire form =>
    have same : 8 * (tag / 8) + 1 = tag := by omega
    refine ⟨_, .fixed64 wire (isFixed_reverse form), ?_, ?_, ?_⟩
    · rw [plainField, same]
    · exact writes_writeFixed _ _ _ _
    · rw [fieldSize, plainField, List.length_append, List.length_reverse, bigEndian_length,
        varintSize_eq (by omega)]
  | @lengthDelimited data _ wire form =>
    have same : 8 * (tag / 8) + 2 = tag := by omega
    have few := isSize_le form
    have short : data.length < 2 ^ 32 := Nat.lt_of_le_of_lt few (by decide)
    refine ⟨_, .lengthDelimited wire (isSize_varint few), ?_, ?_, ?_⟩
    · rw [plainField, same]
    · exact (writes_writeString short).ensured (append_ne_nil _ _)
    · rw [fieldSize, plainField, Nat.mod_eq_of_lt short, List.length_append, List.length_append,
        varintSize_eq (by omega), varintSize_eq (by omega), Nat.add_assoc]
  | @group fields _ _ wire form stop =>
    have same : 8 * (tag / 8) + 3 = tag := by omega
    have next : 8 * (tag / 8) + 4 = tag + 1 := by omega
    have large := isTag_lt stop
    obtain ⟨form, writes, size⟩ := inner _ _ form
    refine ⟨_, .group wire form (isTag_varint large), ?_, ?_, ?_⟩
    · rw [plainField, same, next]
    · have ending := (writes_writeTag (tag / 8) 4).ensured (varint_ne_nil _)
      exact ((writes_writeTag (tag / 8) 3).seq (writes.seq ending)).ensured (append_ne_nil _ _)
    · rw [fieldSize, plainField, size, List.length_append, List.length_append,
        varintSize_eq (by omega), varintSize_eq (by omega), Nat.add_assoc]
  | @fixed32 value _ wire form =>
    have same : 8 * (tag / 8) + 5 = tag := by omega
    refine ⟨_, .fixed32 wire (isFixed_reverse form), ?_, ?_, ?_⟩
    · rw [plainField, same]
    · exact writes_writeFixed _ _ _ _
    · rw [fieldSize, plainField, List.length_append, List.length_reverse, bigEndian_length,
        varintSize_eq (by omega)]

theorem plain_sequence (inner : ∀ fields bytes, Inner fields bytes → Plain Inner fields)
    (sequence : Sequence (fun tag f body => 8 ≤ tag ∧ BodyForm Inner tag f body) fields data) :
    Plain (Sequence fun tag f body => 8 ≤ tag ∧ BodyForm Inner tag f body) fields := by
  induction sequence with
  | nil => exact ⟨.nil, fun out _ => by simp only [writeFields, plain, List.append_nil]; rfl, rfl⟩
  | @cons tag head f body fields rest start ends first more ih =>
    obtain ⟨large, first⟩ := first
    obtain ⟨body, form, equal, writes, size⟩ := plain_body inner start first
    refine ⟨?_, writes.seq ih.writes, ?_⟩
    · rw [plain, equal, List.append_assoc]
      exact .cons (isTag_varint (isTag_lt start)) ends ⟨large, form⟩ ih.form
    · rw [fieldsSize, plain, List.length_append, size, ih.size]

/-- Fields that have a form have a plain form, and it is what is written for them. -/
theorem forms_plain (form : Forms depth fields data) : Plain (Forms depth) fields := by
  induction depth generalizing fields data with
  | zero => exact plain_sequence (fun _ _ none => none.elim) form
  | succ depth ih => exact plain_sequence (fun _ _ form => ih form) form

theorem groupForms_plain (form : GroupForms depth fields data) :
    Plain (GroupForms depth) fields := by
  cases depth with
  | zero => exact form.elim
  | succ depth => exact forms_plain form

theorem plain_append (fields more : List UnknownField) :
    plain (fields ++ more) = plain fields ++ plain more := by
  induction fields with
  | nil => rfl
  | cons f fields ih => rw [List.cons_append, plain, plain, ih, List.append_assoc]

/-- The fields can be written: their numbers are not too wide, their strings not too long, their
groups not too deep. -/
def HasForm (depth : Nat) (fields : List UnknownField) : Prop := ∃ data, Forms depth fields data

theorem hasForm_nil : HasForm depth [] := by
  refine ⟨[], ?_⟩
  rw [forms_eq]
  exact .nil

theorem HasForm.append (form : HasForm depth fields) (after : HasForm depth more) :
    HasForm depth (fields ++ more) := by
  obtain ⟨data, form⟩ := form
  obtain ⟨rest, after⟩ := after
  exact ⟨_, forms_append form after⟩

theorem HasForm.plain (form : HasForm depth fields) : Plain (Forms depth) fields :=
  forms_plain form.choose_spec

/-- A field that is not in a group. -/
theorem forms_field (large : 8 ≤ tag) (small : tag < 2 ^ 32) (ends : endsMessage tag = false)
    (form : BodyForm (GroupForms depth) tag f body) : Forms depth [f] (varint tag ++ body) := by
  rw [forms_eq, ← List.append_nil body]
  exact .cons (isTag_varint small) ends ⟨large, form⟩ .nil

end Plain

end Kingkong.Protobuf
