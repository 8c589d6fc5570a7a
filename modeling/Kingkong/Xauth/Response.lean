import Kingkong.Protobuf.Serialize

/-!
`xauth::response`, as `protoc` generates it.
-/

namespace Kingkong.Xauth
open Lib Protobuf

structure Response where
  code : Option Int32 := none
  signature : Option Bytes := none
  desc : Option Bytes := none
  rights : Option Bytes := none
  unknown : List UnknownField := []

namespace Response

def known : Nat → Option (Known Response)
  | 8 => some (int32Field fun m value => { m with code := some value })
  | 18 => some (stringField signature fun m data => { m with signature := some data })
  | 26 => some (stringField desc fun m data => { m with desc := some data })
  | 34 => some (stringField rights fun m data => { m with rights := some data })
  | _ => none

def isInitialized (m : Response) : Bool := m.code.isSome && m.signature.isSome

def generated : MessageClass Response where
  empty := {}
  known := known
  addUnknown m f := { m with unknown := m.unknown ++ [f] }
  isInitialized := isInitialized
  wire := by
    intro tag k found
    unfold known at found
    split at found <;> cases found <;> decide

def internalSerialize (m : Response) : Writer := fun out => do
  let out ← writePresent m.code (writeInt32 1) out
  let out ← writePresent m.signature (writeString 2) out
  let out ← writePresent m.desc (writeString 3) out
  let out ← writePresent m.rights (writeString 4) out
  writeFields m.unknown out

def requiredFieldsByteSizeFallback (m : Response) : Nat :=
  sizePresent m.signature stringSize + sizePresent m.code int32Size

def byteSizeLong (m : Response) : Nat :=
  let required :=
    match m.signature, m.code with
    | some signature, some code => (1 + stringSize signature) + (1 + int32Size code)
    | _, _ => m.requiredFieldsByteSizeFallback
  required + sizePresent m.desc stringSize + sizePresent m.rights stringSize + fieldsSize m.unknown

def mergeFrom (m source : Response) : Response where
  code := source.code <|> m.code
  signature := source.signature <|> m.signature
  desc := source.desc <|> m.desc
  rights := source.rights <|> m.rights
  unknown := m.unknown ++ source.unknown

def serializeToString (ndebug : Bool) (m : Response) : Option (Bytes × Bool) :=
  Protobuf.serializeToString ndebug m.isInitialized m.byteSizeLong m.internalSerialize

def parseFromString : Bytes → Response × Bool := generated.parseFromString

/-- The fields in the order in which they are written. -/
def fields (m : Response) : List UnknownField :=
  (m.code.map fun value => .varint 1 (signExtended value)).toList ++
  ((m.signature.map fun data => .lengthDelimited 2 data).toList ++
  ((m.desc.map fun data => .lengthDelimited 3 data).toList ++
  ((m.rights.map fun data => .lengthDelimited 4 data).toList ++ m.unknown)))

theorem byteSizeLong_eq (m : Response) : m.byteSizeLong = m.requiredFieldsByteSizeFallback +
    sizePresent m.desc stringSize + sizePresent m.rights stringSize + fieldsSize m.unknown := by
  unfold byteSizeLong
  dsimp only
  split
  · rename_i signature code
    simp only [requiredFieldsByteSizeFallback, sizePresent, *]
  · rfl

section Serialize

variable {m : Response} {depth : Nat}

theorem written (form : HasForm depth m.unknown) (small : m.byteSizeLong < 2 ^ 31) :
    Written m.internalSerialize m.byteSizeLong m.fields := by
  have size := byteSizeLong_eq m
  unfold requiredFieldsByteSizeFallback at size
  have all := (written_presentInt32 (by decide : 1 < 16) m.code).seq <|
    (written_presentString (by decide : 2 < 16) (by omega : sizePresent m.signature stringSize < 2 ^ 32)).seq <|
    (written_presentString (by decide : 3 < 16) (by omega : sizePresent m.desc stringSize < 2 ^ 32)).seq <|
    (written_presentString (by decide : 4 < 16) (by omega : sizePresent m.rights stringSize < 2 ^ 32)).seq <|
    written_fields form
  refine ⟨all.writes, Eq.trans ?_ all.size⟩
  omega

end Serialize

section Parse

variable {m : Response} {f : UnknownField}

theorem absorb_foreign (unknown : known (tagOf f) = none) (m : Response) :
    generated.absorb m f = { m with unknown := m.unknown ++ [f] } :=
  generated.absorb_unknown unknown m

theorem accepts (f : UnknownField) : generated.Accepts f = true := by
  unfold MessageClass.Accepts
  split
  · rename_i found
    simp only [generated, known] at found
    split at found <;> cases found <;> rfl
  · rfl

theorem foldl_foreign {fields : List UnknownField} (foreign : ∀ f ∈ fields, known (tagOf f) = none)
    (m : Response) :
    fields.foldl generated.absorb m = { m with unknown := m.unknown ++ fields } := by
  induction fields generalizing m with
  | nil => rw [List.append_nil]; rfl
  | cons f fields ih =>
    obtain ⟨first, rest⟩ := List.forall_mem_cons.mp foreign
    rw [List.foldl_cons, absorb_foreign first, ih rest]
    simp only [List.append_assoc, List.singleton_append]

theorem absorb_fields (foreign : ∀ f ∈ m.unknown, known (tagOf f) = none) :
    m.fields.foldl generated.absorb {} = m := by
  obtain ⟨code, signature, desc, rights, unknown⟩ := m
  have codes (m : Response) :
      (code.map fun a => UnknownField.varint 1 (signExtended a)).toList.foldl generated.absorb m =
      { m with code := code <|> m.code } := by
    cases code with
    | none => rfl
    | some a =>
      show { m with code := some (Int32.ofNat (signExtended a)) } = _
      rw [ofNat_signExtended]
      rfl
  have signatures (m : Response) :
      (signature.map fun a => UnknownField.lengthDelimited 2 a).toList.foldl generated.absorb m =
      { m with signature := signature <|> m.signature } := by
    cases signature <;> rfl
  have descs (m : Response) :
      (desc.map fun a => UnknownField.lengthDelimited 3 a).toList.foldl generated.absorb m =
      { m with desc := desc <|> m.desc } := by
    cases desc <;> rfl
  have rightss (m : Response) :
      (rights.map fun a => UnknownField.lengthDelimited 4 a).toList.foldl generated.absorb m =
      { m with rights := rights <|> m.rights } := by
    cases rights <;> rfl
  simp only [fields, List.foldl_append, codes, signatures, descs, rightss, foldl_foreign foreign]
  simp

/-- What a field can be for a response. -/
inductive Field : UnknownField → Prop where
  | code (value : Nat) : Field (.varint 1 value)
  | signature (data : Bytes) : Field (.lengthDelimited 2 data)
  | desc (data : Bytes) : Field (.lengthDelimited 3 data)
  | rights (data : Bytes) : Field (.lengthDelimited 4 data)
  | foreign {f : UnknownField} (unknown : known (tagOf f) = none) : Field f

theorem field (f : UnknownField) : Field f := by
  cases found : known (tagOf f) with
  | none => exact .foreign found
  | some k =>
    have tag : tagOf f = 8 ∨ tagOf f = 18 ∨ tagOf f = 26 ∨ tagOf f = 34 := by
      unfold known at found
      split at found <;> first | omega | cases found
    cases f with
    | varint number value =>
      simp only [tagOf] at tag
      obtain rfl : number = 1 := by omega
      exact .code value
    | lengthDelimited number data =>
      simp only [tagOf] at tag
      obtain rfl | rfl | rfl : number = 2 ∨ number = 3 ∨ number = 4 := by omega
      · exact .signature data
      · exact .desc data
      · exact .rights data
    | fixed64 | group | fixed32 =>
      simp only [tagOf] at tag
      omega

theorem mergeFrom_absorb (m source : Response) (f : UnknownField) :
    generated.absorb (m.mergeFrom source) f = m.mergeFrom (generated.absorb source f) := by
  cases field f with
  | code | signature | desc | rights => rfl
  | foreign unknown => simp only [absorb_foreign unknown, mergeFrom, List.append_assoc]

/-! ### What a response is -/

def isUnknown (f : UnknownField) : Bool := (known (tagOf f)).isNone

theorem foldl_unknown (fields : List UnknownField) (m : Response) :
    (fields.foldl generated.absorb m).unknown = m.unknown ++ fields.filter isUnknown := by
  induction fields generalizing m with
  | nil => exact (List.append_nil _).symm
  | cons f fields ih =>
    rw [List.foldl_cons, ih, List.filter_cons]
    cases field f with
    | code | signature | desc | rights => rfl
    | foreign unknown =>
      rw [absorb_foreign unknown, if_pos (by rw [isUnknown, unknown]; rfl), List.append_assoc,
        List.singleton_append]

theorem absorb_code (m : Response) (f : UnknownField) :
    (generated.absorb m f).code =
      ((numberOf 1 f).map (fun value => some (Int32.ofNat value))).getD m.code := by
  cases field f with
  | code value => rfl
  | signature | desc | rights => rfl
  | foreign unknown =>
    have other : tagOf f ≠ 8 * 1 := fun tag => nomatch (congrArg known tag).symm.trans unknown
    rw [absorb_foreign unknown, numberOf_other other]
    rfl

/-- A field that is unknown is none of the strings. -/
theorem stringOf_unknown (unknown : known (tagOf f) = none) {number : Nat}
    (one : number = 2 ∨ number = 3 ∨ number = 4) :
    stringOf number f = none := by
  refine stringOf_other fun tag => ?_
  rw [tag] at unknown
  rcases one with rfl | rfl | rfl <;> cases unknown

theorem absorb_signature (m : Response) (f : UnknownField) :
    (generated.absorb m f).signature = ((stringOf 2 f).map some).getD m.signature := by
  cases field f with
  | signature data => rfl
  | code | desc | rights => rfl
  | foreign unknown =>
    rw [absorb_foreign unknown, stringOf_unknown unknown (.inl rfl)]
    rfl

theorem absorb_desc (m : Response) (f : UnknownField) :
    (generated.absorb m f).desc = ((stringOf 3 f).map some).getD m.desc := by
  cases field f with
  | desc data => rfl
  | code | signature | rights => rfl
  | foreign unknown =>
    rw [absorb_foreign unknown, stringOf_unknown unknown (.inr (.inl rfl))]
    rfl

theorem absorb_rights (m : Response) (f : UnknownField) :
    (generated.absorb m f).rights = ((stringOf 4 f).map some).getD m.rights := by
  cases field f with
  | rights data => rfl
  | code | signature | desc => rfl
  | foreign unknown =>
    rw [absorb_foreign unknown, stringOf_unknown unknown (.inr (.inr rfl))]
    rfl

/-- The response that some fields stand for: of each field that it knows the last one counts. -/
def ofFields (fields : List UnknownField) : Response where
  code := ((fields.filterMap (numberOf 1)).getLast?).map Int32.ofNat
  signature := (fields.filterMap (stringOf 2)).getLast?
  desc := (fields.filterMap (stringOf 3)).getLast?
  rights := (fields.filterMap (stringOf 4)).getLast?
  unknown := fields.filter isUnknown

theorem foldl_ofFields (fields : List UnknownField) :
    fields.foldl generated.absorb {} = ofFields fields := by
  have code := foldl_last absorb_code fields {}
  have signature := foldl_last absorb_signature fields {}
  have desc := foldl_last absorb_desc fields {}
  have rights := foldl_last absorb_rights fields {}
  have unknown := foldl_unknown fields {}
  generalize fields.foldl generated.absorb {} = m at *
  obtain ⟨_, _, _, _, _⟩ := m
  have set {α β : Type} (last : Option α) (f : α → β) : (last.map fun a => some (f a)).getD none =
      last.map f := by
    cases last <;> rfl
  simp only [set, List.nil_append, Option.map_id_fun', id] at code signature desc rights unknown
  simp only [ofFields, code, signature, desc, rights, unknown]

/-- The bytes that are taken for a response are the forms of fields with a code and a signature, in
any order, whatever else there is. Other bytes do not lead out of the buffers, nor do they keep the
parser for ever. -/
theorem response_parsed_iff (data : Bytes) (m : Response) :
    (parseFromString data = (m, true) ↔ ∃ fields, Forms recursionLimit fields data ∧
      m = ofFields fields ∧
      fields.filterMap (numberOf 1) ≠ [] ∧ fields.filterMap (stringOf 2) ≠ []) ∧
      (generated.internalParse {} data).2 ≠ .failed .outside ∧
      (generated.internalParse {} data).2 ≠ .failed .unfinished := by
  refine ⟨?_, MessageClass.internalParse_fault⟩
  have initialized (fields : List UnknownField) : (ofFields fields).isInitialized = true ↔
      fields.filterMap (numberOf 1) ≠ [] ∧ fields.filterMap (stringOf 2) ≠ [] := by
    rw [isInitialized, Bool.and_eq_true]
    simp only [ofFields, Option.isSome_map, List.getLast?_isSome]
  rw [parseFromString, MessageClass.parseFromString_iff]
  constructor
  · rintro ⟨⟨fields, form, -, rfl⟩, complete⟩
    have same : fields.foldl generated.absorb generated.empty = ofFields fields :=
      foldl_ofFields fields
    rw [same] at complete
    exact ⟨fields, form, same, (initialized fields).mp complete⟩
  · rintro ⟨fields, form, rfl, present⟩
    exact ⟨⟨fields, form, fun f _ => accepts f, (foldl_ofFields fields).symm⟩,
      (initialized fields).mpr present⟩

/-! ### Writing and reading again -/

/-- A response that is read again where it is written. -/
structure Readable (m : Response) : Prop where
  signature : ∀ data ∈ m.signature, data.length ≤ maxSize
  desc : ∀ data ∈ m.desc, data.length ≤ maxSize
  rights : ∀ data ∈ m.rights, data.length ≤ maxSize
  unknown : ∀ f ∈ m.unknown, HasForm recursionLimit [f] ∧ known (tagOf f) = none

theorem Readable.hasForm_unknown (readable : m.Readable) : HasForm recursionLimit m.unknown :=
  hasForm_iff.mpr fun f member => (readable.unknown f member).1

theorem Readable.hasForm_fields (readable : m.Readable) : HasForm recursionLimit m.fields :=
  (hasForm_presentInt32 Nat.one_pos (by decide) m.code).append <|
    (hasForm_presentString (by decide) (by decide) readable.signature).append <|
    (hasForm_presentString (by decide) (by decide) readable.desc).append <|
    (hasForm_presentString (by decide) (by decide) readable.rights).append readable.hasForm_unknown

theorem parse_fields (readable : m.Readable) :
    parseFromString (plain m.fields) = (m, m.isInitialized) := by
  have merged : generated.mergePartialFrom {} (plain m.fields) = (m, true) := by
    refine MessageClass.mergePartialFrom_iff.mpr ⟨m.fields, readable.hasForm_fields.plain.form,
      fun f _ => accepts f, ?_⟩
    exact (absorb_fields fun f member => (readable.unknown f member).2).symm
  simp only [parseFromString, MessageClass.parseFromString, show generated.empty = {} from rfl,
    merged, Bool.true_and]
  rfl

/-! ### A response that is cut short -/

/-- The fields that are looked at before the description. -/
def required (m : Response) : List UnknownField :=
  (m.code.map fun value => .varint 1 (signExtended value)).toList ++
    (m.signature.map fun data => .lengthDelimited 2 data).toList

def optional (m : Response) : List UnknownField :=
  (m.desc.map fun data => .lengthDelimited 3 data).toList ++ (m.rights.map fun data => .lengthDelimited 4 data).toList

theorem keeps_optional {P : Response → Prop} (desc : ∀ m data, P m → P { m with desc := some data })
    (rights : ∀ m data, P m → P { m with rights := some data }) :
    ∀ f ∈ m.optional, Keeps generated P f := by
  intro f member
  rcases List.mem_append.mp member with member | member
  · obtain ⟨data, -, rfl⟩ := Option.map_eq_some_iff.mp (Option.mem_toList.mp member)
    refine ⟨by simp only [tagOf]; omega, fun limit m s holds => ?_⟩
    have left := parseString_fst (fun _ => true) { m with desc := some (m.desc.getD []) }
      (fun data => { m with desc := some data }) s
    rcases left with equal | ⟨data, equal⟩
    · exact equal ▸ desc m _ holds
    · exact equal ▸ desc m _ holds
  · obtain ⟨data, -, rfl⟩ := Option.map_eq_some_iff.mp (Option.mem_toList.mp member)
    refine ⟨by simp only [tagOf]; omega, fun limit m s holds => ?_⟩
    have left := parseString_fst (fun _ => true) { m with rights := some (m.rights.getD []) }
      (fun data => { m with rights := some data }) s
    rcases left with equal | ⟨data, equal⟩
    · exact equal ▸ rights m _ holds
    · exact equal ▸ rights m _ holds

/-- The same as far as the verdict depends on it. -/
structure SameVerdict (m r : Response) : Prop where
  code : r.code = m.code
  signature : r.signature = m.signature

/-- A response that is cut behind its signature. -/
theorem parse_cut (readable : m.Readable) (known : m.unknown = []) {n : Nat}
    (behind : (plain m.required).length ≤ n) :
    SameVerdict m (parseFromString ((plain m.fields).take n)).1 := by
  have split : m.fields = m.required ++ m.optional := by
    simp only [fields, required, optional, known, List.append_nil, List.append_assoc]
  have front : HasForm recursionLimit m.required :=
    (hasForm_presentInt32 Nat.one_pos (by decide) m.code).append
      (hasForm_presentString (by decide) (by decide) readable.signature)
  have back : HasForm recursionLimit m.optional :=
    (hasForm_presentString (by decide) (by decide) readable.desc).append
      (hasForm_presentString (by decide) (by decide) readable.rights)
  have start : m.required.foldl generated.absorb {} =
      { code := m.code, signature := m.signature } := by
    have whole : ({ code := m.code, signature := m.signature } : Response).fields = m.required := by
      simp only [fields, required, Option.map_none, Option.toList_none, List.append_nil]
    rw [← whole]
    exact absorb_fields nofun
  obtain ⟨t, left, looped, stands⟩ :=
    MessageClass.internalParse_front front.plain.form (fun f _ => accepts f) {}
    ((plain m.optional).take (n - (plain m.required).length))
  rw [start] at looped
  rw [split, plain_append, List.take_append, List.take_of_length_le behind]
  show SameVerdict m (generated.internalParse {} _).1
  rw [looped]
  exact parseLoop_cut (P := SameVerdict m) (MessageClass.sequence_body.mpr ⟨back.plain.form,
    fun f _ => accepts f⟩)
    (keeps_optional (fun _ _ ⟨code, signature⟩ => ⟨code, signature⟩) fun _ _ ⟨code, signature⟩ => ⟨code, signature⟩)
    ⟨rfl, rfl⟩ stands

end Parse

end Response

end Kingkong.Xauth
