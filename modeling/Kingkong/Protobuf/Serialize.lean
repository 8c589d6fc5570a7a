import Kingkong.Protobuf.Output

/-!
The fields of the generated classes, and the way of a whole message into a string and back.
-/

namespace Kingkong.Protobuf
open Lib

/-! ### Signed numbers -/

/-- `static_cast<uint64>` of an `int32`. -/
def signExtended (value : Int32) : Nat := (value.toInt % 2 ^ 64).toNat

/-- `VarintSize32SignExtended`, which is also `EnumSize` and `Int32Size`. -/
def int32Size (value : Int32) : Nat := if value < 0 then 10 else varintSize value.toUInt32.toNat

theorem signExtended_lt (value : Int32) : signExtended value < 2 ^ 64 := by
  unfold signExtended
  omega

/-- The 32 bits that are kept of the number are the ones that were extended. -/
theorem ofNat_signExtended (value : Int32) : Int32.ofNat (signExtended value) = value := by
  have low := value.le_toInt
  have high := value.toInt_lt
  apply Int32.toInt_inj.mp
  rw [Int32.toInt_ofNat', signExtended, Int.toNat_of_nonneg (Int.emod_nonneg _ (by decide)),
    Int.bmod_def, Int32.size]
  split <;> omega

theorem signExtended_nonneg {value : Int32} (positive : 0 ≤ value.toInt) :
    signExtended value = value.toUInt32.toNat := by
  have small := value.toUInt32.toNat_lt
  have equal : value.toInt = Int.bmod value.toUInt32.toNat (2 ^ 32) := BitVec.toInt_eq_toNat_bmod _
  rw [Int.bmod_def] at equal
  unfold signExtended
  split at equal <;> omega

theorem int32Size_eq (value : Int32) : int32Size value = (varint (signExtended value)).length := by
  unfold int32Size
  split
  · rename_i negative
    have negative : value.toInt < 0 := by simpa [Int32.lt_iff_toInt_lt] using negative
    have low := value.le_toInt
    have small := signExtended_lt value
    have large : 2 ^ 63 ≤ signExtended value := by
      unfold signExtended
      omega
    rw [varint_length, (Nat.log2_eq_iff (by omega)).mpr ⟨large, small⟩]
  · rename_i negative
    have positive : 0 ≤ value.toInt := by simpa [Int32.lt_iff_toInt_lt] using negative
    have small := value.toUInt32.toNat_lt
    rw [signExtended_nonneg positive, varintSize_eq (by omega)]

/-- `LengthDelimitedSize`, which is also `StringSize`. -/
def stringSize (data : Bytes) : Nat := data.length + varintSize (data.length % 2 ^ 32)

/-! ### A whole message -/

/-- `GOOGLE_DCHECK`, which ends the program unless `NDEBUG` is defined. -/
def dcheck (ndebug condition : Bool) : Option Unit := if ndebug || condition then some () else none

/-- `SerializeToArrayImpl` and `AppendPartialToString`. The string is resized before the message is
written into it. -/
def appendPartialToString (ndebug : Bool) (byteSizeLong : Nat) (internalSerialize : Writer)
    (output : Bytes) :
    Option (Bytes × Bool) :=
  if 2 ^ 31 - 1 < byteSizeLong then some (output, false)
  else do
    let out ← internalSerialize { room := byteSizeLong, written := [] }
    dcheck ndebug (out.room == 0)
    some (output ++ (out.written ++ List.replicate out.room 0), true)

/-- `SerializeToString`, which clears the string, and `AppendToString`. -/
def serializeToString (ndebug isInitialized : Bool) (byteSizeLong : Nat)
    (internalSerialize : Writer) :
    Option (Bytes × Bool) := do
  dcheck ndebug isInitialized
  appendPartialToString ndebug byteSizeLong internalSerialize []

theorem serializeToString_incomplete (byteSizeLong : Nat) (internalSerialize : Writer) :
    serializeToString false false byteSizeLong internalSerialize = none := rfl

/-- Where the program goes on, `AppendPartialToString` does the rest. -/
theorem serializeToString_checked {ndebug isInitialized : Bool}
    (checked : (ndebug || isInitialized) = true) (byteSizeLong : Nat) (internalSerialize : Writer) :
    serializeToString ndebug isInitialized byteSizeLong internalSerialize =
      appendPartialToString ndebug byteSizeLong internalSerialize [] := by
  rw [serializeToString, dcheck, if_pos checked]
  rfl

/-! ### The fields of a message -/

/-- `WriteInt32ToArray` and `WriteEnumToArray`. -/
def writeInt32 (number : Nat) (value : Int32) : Writer := writeVarint number (signExtended value)

/-- A field with a presence bit. -/
def writePresent {α : Type} (value : Option α) (write : α → Writer) : Writer :=
  match value with
  | some a => write a
  | none => fun out => some out

/-- What is added to the size for such a field. The tags of the generated classes have one byte. -/
def sizePresent {α : Type} (value : Option α) (size : α → Nat) : Nat :=
  match value with
  | some a => 1 + size a
  | none => 0

/-- A field with an `int32`. -/
def int32Field {M : Type} (set : M → Int32 → M) : Known M :=
  .varint (fun m value => set m (Int32.ofNat value)) fun m => set m 0

/-- A field with a string that is not tested. -/
def stringField {M : Type} (get : M → Option Bytes) (set : M → Bytes → M) : Known M :=
  .string (fun m => set m ((get m).getD [])) set fun _ => true

/-- The plain form of the fields is written, and `size` is its length. -/
structure Written (write : Writer) (size : Nat) (fields : List UnknownField) : Prop where
  writes : Writes write (plain fields)
  size : size = (plain fields).length

section Written

variable {first second : Writer} {n k number : Nat} {fields more : List UnknownField} {data : Bytes}

theorem Written.seq (written : Written first n fields) (next : Written second k more) :
    Written (fun out => (first out).bind second) (n + k) (fields ++ more) where
  writes := by
    rw [plain_append]
    exact written.writes.seq next.writes
  size := by rw [plain_append, List.length_append, written.size, next.size]

theorem written_nil : Written (fun out => some out) 0 [] where
  writes out _ := by
    simp only [plain, List.append_nil]
    rfl
  size := rfl

theorem written_fields {depth : Nat} (form : HasForm depth fields) :
    Written (writeFields fields) (fieldsSize fields) fields :=
  ⟨form.plain.writes, form.plain.size⟩

theorem plain_singleton (f : UnknownField) : plain [f] = plainField f := by
  rw [plain, plain, List.append_nil]

/-- A tag of one byte. -/
theorem tag_length {tag : Nat} (small : tag < 128) : (varint tag).length = 1 := by
  rw [varint_small small, List.length_singleton]

theorem written_int32 (small : number < 16) (value : Int32) :
    Written (writeInt32 number value) (1 + int32Size value) [.varint number (signExtended value)] where
  writes := by
    rw [plain_singleton, plainField]
    exact writes_writeVarint _ _
  size := by
    rw [plain_singleton, plainField, List.length_append, tag_length (by omega), int32Size_eq]

theorem written_string (small : number < 16) (short : data.length < 2 ^ 32) :
    Written (writeString number data) (1 + stringSize data) [.lengthDelimited number data] where
  writes := by
    rw [plain_singleton, plainField]
    exact writes_writeString short
  size := by
    rw [plain_singleton, plainField, List.length_append, List.length_append, tag_length (by omega),
      stringSize, Nat.mod_eq_of_lt short, varintSize_eq (by omega), Nat.add_comm data.length]

theorem written_present {α : Type} {value : Option α} {write : α → Writer} {size : α → Nat}
    {field : α → UnknownField} (written : ∀ a ∈ value, Written (write a) (1 + size a) [field a]) :
    Written (writePresent value write) (sizePresent value size) (value.map field).toList := by
  cases value with
  | none => exact written_nil
  | some a => exact written a rfl

theorem written_presentInt32 (small : number < 16) (value : Option Int32) :
    Written (writePresent value (writeInt32 number)) (sizePresent value int32Size)
      (value.map fun a => .varint number (signExtended a)).toList :=
  written_present fun a _ => written_int32 small a

theorem length_le_sizePresent {value : Option Bytes} :
    ∀ data ∈ value, data.length ≤ sizePresent value stringSize := by
  rintro data ⟨⟩
  simp only [sizePresent, stringSize]
  omega

theorem written_presentString (small : number < 16) {value : Option Bytes}
    (short : sizePresent value stringSize < 2 ^ 32) :
    Written (writePresent value (writeString number)) (sizePresent value stringSize)
      (value.map fun a => .lengthDelimited number a).toList := by
  apply written_present
  intro a member
  have length := length_le_sizePresent a member
  exact written_string small (by omega)

/-- A message of less than two gigabytes is written as a whole. -/
theorem Written.serializes {ndebug isInitialized : Bool}
    (checked : (ndebug || isInitialized) = true) (written : Written first n fields)
    (small : n < 2 ^ 31) :
    serializeToString ndebug isInitialized n first = some (plain fields, true) ∧
      (plain fields).length = n := by
  refine ⟨?_, written.size.symm⟩
  have length := written.size
  rw [serializeToString_checked checked, appendPartialToString, if_neg (by omega),
    written.writes _ (by dsimp only; omega), length]
  simp [dcheck]

end Written

/-! ### Reading the fields again -/

section Forms

variable {depth number : Nat} {data : Bytes}

theorem hasForm_varint {value : Nat} (positive : 0 < number) (small : number < 16)
    (wide : value < 2 ^ 64) :
    HasForm depth [.varint number value] := by
  have same : 8 * number / 8 = number := by omega
  have wire : 8 * number % 8 = 0 := by omega
  have form : BodyForm (GroupForms depth) (8 * number) (.varint (8 * number / 8) value) _ :=
    .varint wire (isValue_varint wide)
  rw [same] at form
  refine ⟨_, forms_field (by omega) (by omega) ?_ form⟩
  simp only [endsMessage, wire, beq_eq_false_iff_ne, Bool.or_eq_false_iff]
  omega

theorem hasForm_string (positive : 0 < number) (small : number < 16)
    (short : data.length ≤ maxSize) :
    HasForm depth [.lengthDelimited number data] := by
  have same : (8 * number + 2) / 8 = number := by omega
  have wire : (8 * number + 2) % 8 = 2 := by omega
  have form : BodyForm (GroupForms depth) (8 * number + 2) (.lengthDelimited ((8 * number + 2) / 8) data) _ :=
    .lengthDelimited wire (isSize_varint short)
  rw [same] at form
  refine ⟨_, forms_field (by omega) (by omega) ?_ form⟩
  simp only [endsMessage, wire, beq_eq_false_iff_ne, Bool.or_eq_false_iff]
  omega

theorem hasForm_presentInt32 (positive : 0 < number) (small : number < 16) (value : Option Int32) :
    HasForm depth (value.map fun a => .varint number (signExtended a)).toList := by
  cases value with
  | none => exact hasForm_nil
  | some a => exact hasForm_varint positive small (signExtended_lt a)

theorem hasForm_presentString (positive : 0 < number) (small : number < 16) {value : Option Bytes}
    (short : ∀ data ∈ value, data.length ≤ maxSize) :
    HasForm depth (value.map fun a => .lengthDelimited number a).toList := by
  cases value with
  | none => exact hasForm_nil
  | some a => exact hasForm_string positive small (short a rfl)

/-- What the parts of a list that has a form are. -/
theorem hasForm_cons {f : UnknownField} {fields : List UnknownField}
    (form : HasForm depth (f :: fields)) :
    HasForm depth [f] ∧ HasForm depth fields := by
  obtain ⟨data, form⟩ := form
  rw [forms_eq] at form
  cases form with
  | @cons tag head _ body _ rest start ends first more =>
    refine ⟨⟨head ++ (body ++ []), ?_⟩, rest, ?_⟩
    · rw [forms_eq]
      exact .cons start ends first .nil
    · rwa [forms_eq]

theorem hasForm_iff {fields : List UnknownField} :
    HasForm depth fields ↔ ∀ f ∈ fields, HasForm depth [f] := by
  induction fields with
  | nil => exact ⟨fun _ => nofun, fun _ => hasForm_nil⟩
  | cons f fields ih =>
    rw [List.forall_mem_cons]
    refine ⟨fun form => ⟨(hasForm_cons form).1, ih.mp (hasForm_cons form).2⟩,
      fun ⟨first, rest⟩ => ?_⟩
    exact first.append (ih.mpr rest)

theorem hasForm_length (form : HasForm depth [.lengthDelimited number data]) :
    data.length ≤ maxSize := by
  obtain ⟨_, form⟩ := form
  rw [forms_eq] at form
  cases form with
  | cons _ _ first _ =>
    obtain ⟨-, body⟩ := first
    cases body with
    | lengthDelimited _ size => exact isSize_le size

end Forms

/-! ### A message that is cut short -/

section Cut

variable {M : Type} {c : MessageClass M} {tag limit rounds : Nat} {f g : UnknownField} {body other r r' : Bytes}
  {s t : InputStream}

theorem at_unique (stands : s.At r) (again : s.At r') : r = r' := by
  obtain ⟨pad, ahead, length⟩ := stands
  obtain ⟨pad', ahead', length'⟩ := again
  have same : r ++ pad = r' ++ pad' := ahead.symm.trans ahead'
  exact (List.append_inj' same (length.trans length'.symm)).1

/-- Only one body can stand at the front of the bytes. -/
theorem body_unique (ends : endsMessage tag = false) (form : c.Body tag f body)
    (again : c.Body tag g other) (same : body ++ r = other ++ r') : body = other ∧ r = r' := by
  have parses :=
    (MessageClass.parseField_follows (c := c) ((body ++ r).length + 1)) c.empty tag ends
  have stands := InputStream.initFrom_at (body ++ r)
  have standsToo : (InputStream.initFrom (body ++ r)).At (other ++ r') := same ▸ stands
  obtain ⟨t, parsed, after⟩ := parses.complete _ _ body r ⟨f, form, rfl⟩ stands (Nat.lt_succ_self _)
  obtain ⟨u, parsed', after'⟩ := parses.complete _ _ other r' ⟨g, again,
    rfl⟩ standsToo (by rw [← same]; omega)
  obtain ⟨-, next⟩ := Prod.mk.inj (parsed.symm.trans parsed')
  cases next
  obtain rfl := at_unique after after'
  exact ⟨List.append_cancel_right same, rfl⟩

/-- The parser of a field whose tag has one byte keeps `P`, whatever the bytes behind the tag
are. -/
structure Keeps (c : MessageClass M) (P : M → Prop) (f : UnknownField) : Prop where
  oneByte : tagOf f < 128
  keeps : ∀ limit m s, P m → P (c.parseField limit m (tagOf f) s).1

/-- A loop over the first bytes of a form, however many they are. The last field may be read from
what happens to follow them, but then the loop ends. -/
theorem parseLoop_cut {P : M → Prop} {fields : List UnknownField} {data : Bytes}
    (sequence : Sequence c.Body fields data) (keeps : ∀ f ∈ fields, Keeps c P f) {m : M}
    (holds : P m) {n : Nat} (stands : s.At ((plain fields).take n)) :
    P (parseLoop (c.parseField limit) rounds m s).1 := by
  induction sequence generalizing m s n rounds with
  | nil =>
    rw [plain, List.take_nil] at stands
    cases rounds with
    | zero => exact holds
    | succ rounds =>
      rw [parseLoop_nil stands]
      exact holds
  | @cons tag head f _ fields _ start ends first _ ih =>
    obtain ⟨⟨large, first⟩, accepted⟩ := first
    obtain ⟨⟨small, keep⟩, keeps⟩ := List.forall_mem_cons.mp keeps
    rw [← first.tag_eq] at small keep
    obtain ⟨body, form, equal, -, -⟩ :=
      plain_body (fun _ _ form => groupForms_plain form) start first
    rw [plain, equal, varint_small small, List.append_assoc, List.singleton_append] at stands
    cases rounds with
    | zero => exact holds
    | succ rounds =>
      cases n with
      | zero =>
        rw [List.take_zero] at stands
        rw [parseLoop_nil stands]
        exact holds
      | succ n =>
        rw [List.take_succ_cons] at stands
        obtain ⟨u, more, stands, -⟩ := InputStream.doneWithCheck_more stands (List.cons_ne_nil _ _)
        rw [← List.singleton_append, ← varint_small small] at stands
        obtain ⟨ahead, split, after⟩ := InputStream.at_append stands
        have read : readTag u.ahead = .ok (tag, ahead) := by
          rw [split, readTag_reads.complete _ _ (isTag_varint (isTag_lt start))]
        simp only [parseLoop, more, read, ends, Bool.false_eq_true, if_false]
        have kept := keep limit m (u.moved ahead) holds
        rcases parsed : c.parseField limit m tag (u.moved ahead) with ⟨m1, fault | t⟩
        · rwa [parsed] at kept
        rw [parsed] at kept
        rcases (MessageClass.parseField_follows limit m tag ends).sound _ _ _ _ after parsed with
          beyond | ⟨used, left, taken, ⟨g, again, -⟩, stands⟩
        · obtain ⟨fault, failed⟩ : ∃ fault, parseLoop (c.parseField limit) rounds m1 t =
            (m1, .failed fault) :=
            parseLoop_over beyond
          dsimp only
          rwa [failed]
        · -- The bytes that were read are those of the field, so the cut is behind it.
          have whole : body ++ plain fields = used ++ (left ++ (body ++ plain fields).drop n) := by
            rw [← List.append_assoc, ← taken, List.take_append_drop]
          obtain ⟨rfl, -⟩ := body_unique ends ⟨⟨large, form⟩, accepted⟩ again whole
          have length := congrArg List.length taken
          simp only [List.length_take, List.length_append] at length
          rw [List.take_append, List.take_of_length_le (by omega)] at taken
          obtain rfl := List.append_cancel_left taken
          exact ih keeps kept stands

end Cut

end Kingkong.Protobuf
