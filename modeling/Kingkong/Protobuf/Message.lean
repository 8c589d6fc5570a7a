import Kingkong.Protobuf.Fields

/-!
What the generated parsers have in common: a table of the fields that a message knows, and the set
for those that it does not know. A parse that succeeds has read a form of some fields, and the
message is what these make of the one before.
-/

namespace Kingkong.Protobuf
open Lib InputStream

/-- A field with a number, and what is left behind if there is none; or a field with a string, with
what there is before the string is read and the test that follows. -/
inductive Known (M : Type) where
  | varint (store : M → Nat → M) (failed : M → M)
  | string (opened : M → M) (store : M → Bytes → M) (verified : Bytes → Bool)

def Known.wireType {M : Type} : Known M → Nat
  | .varint .. => 0
  | .string .. => 2

/-- A generated class. `known` has the cases of the switch in `_InternalParse`. -/
structure MessageClass (M : Type) where
  empty : M
  known : Nat → Option (Known M)
  addUnknown : M → UnknownField → M
  isInitialized : M → Bool
  wire : ∀ tag k, known tag = some k → 8 ≤ tag ∧ tag % 8 = k.wireType

/-- `default_recursion_limit_`. -/
def recursionLimit : Nat := 100

/-- The tag in front of a field. -/
def tagOf : UnknownField → Nat
  | .varint number _ => 8 * number
  | .fixed64 number _ => 8 * number + 1
  | .lengthDelimited number _ => 8 * number + 2
  | .group number _ => 8 * number + 3
  | .fixed32 number _ => 8 * number + 5

theorem BodyForm.tag_eq {Inner : List UnknownField → Bytes → Prop} {tag : Nat} {f : UnknownField}
    {body : Bytes} (form : BodyForm Inner tag f body) : tag = tagOf f := by
  cases form <;> simp only [tagOf] <;> omega

/-- The numbers and the strings that stand under a field number. -/
def numberOf (number : Nat) : UnknownField → Option Nat
  | .varint n value => if n = number then some value else none
  | _ => none

def stringOf (number : Nat) : UnknownField → Option Bytes
  | .lengthDelimited n data => if n = number then some data else none
  | _ => none

theorem eq_varint {number : Nat} {f : UnknownField} (tag : tagOf f = 8 * number) :
    ∃ value, f = .varint number value := by
  cases f with
  | varint n value =>
    obtain rfl : n = number := by
      simp only [tagOf] at tag
      omega
    exact ⟨value, rfl⟩
  | fixed64 | lengthDelimited | group | fixed32 =>
    simp only [tagOf] at tag
    omega

theorem eq_lengthDelimited {number : Nat} {f : UnknownField} (tag : tagOf f = 8 * number + 2) :
    ∃ data, f = .lengthDelimited number data := by
  cases f with
  | lengthDelimited n data =>
    obtain rfl : n = number := by
      simp only [tagOf] at tag
      omega
    exact ⟨data, rfl⟩
  | fixed64 | varint | group | fixed32 =>
    simp only [tagOf] at tag
    omega

theorem numberOf_other {number : Nat} {f : UnknownField} (other : tagOf f ≠ 8 * number) :
    numberOf number f = none := by
  cases f with
  | varint n value =>
    refine if_neg ?_
    rintro rfl
    exact other rfl
  | fixed64 | lengthDelimited | group | fixed32 => rfl

theorem stringOf_other {number : Nat} {f : UnknownField} (other : tagOf f ≠ 8 * number + 2) :
    stringOf number f = none := by
  cases f with
  | lengthDelimited n data =>
    refine if_neg ?_
    rintro rfl
    exact other rfl
  | fixed64 | varint | group | fixed32 => rfl

/-- A value that is set by some of the fields is what the last of them says. -/
theorem foldl_last {M α β : Type} {absorb : M → UnknownField → M} {get : M → β}
    {pick : UnknownField → Option α} {set : α → β}
    (step : ∀ m f, get (absorb m f) = ((pick f).map set).getD (get m)) (fields : List UnknownField)
    (m : M) :
    get (fields.foldl absorb m) = ((fields.filterMap pick).getLast?.map set).getD (get m) := by
  induction fields generalizing m with
  | nil => rfl
  | cons f fields ih =>
    rw [List.foldl_cons, ih, step, List.filterMap_cons]
    cases pick f with
    | none => rfl
    | some a =>
      rw [List.getLast?_cons]
      cases (fields.filterMap pick).getLast? <;> rfl

namespace MessageClass

variable {M : Type} (c : MessageClass M) {m m' : M} {f : UnknownField} {data : Bytes}

def parseField (rounds : Nat) (m : M) (tag : Nat) : Parser M :=
  match c.known tag with
  | some (.varint store failed) => parseNumber varintParse (failed m) (store m)
  | some (.string opened store verified) => parseString verified (opened m) (store m)
  | none => fun s =>
    match fieldParser (groupParser rounds recursionLimit) tag s with
    | (field, next) => (field.toList.foldl c.addUnknown m, next)

/-- `_InternalParse` on an array. There are fewer rounds than bytes. -/
def internalParse (m : M) (data : Bytes) : M × Ended :=
  parseLoop (c.parseField (data.length + 1)) (data.length + 1) m (initFrom data)

/-- `ptr && ctx.EndedAtLimit()`. -/
def endedAtLimit : Ended → Bool
  | .limit => true
  | _ => false

/-- `MergePartialFromImpl`. -/
def mergePartialFrom (m : M) (data : Bytes) : M × Bool :=
  ((c.internalParse m data).1, endedAtLimit (c.internalParse m data).2)

/-- `ParseFromString`. The message is filled also where the result is false. -/
def parseFromString (data : Bytes) : M × Bool :=
  ((c.mergePartialFrom c.empty data).1,
    (c.mergePartialFrom c.empty data).2 && c.isInitialized (c.mergePartialFrom c.empty data).1)

/-! ### Fields one by one -/

/-- What a field makes of the message. -/
def absorb (m : M) (f : UnknownField) : M :=
  match c.known (tagOf f), f with
  | some (.varint store _), .varint _ value => store m value
  | some (.string _ store _), .lengthDelimited _ data => store m data
  | _, _ => c.addUnknown m f

theorem absorb_unknown (unknown : c.known (tagOf f) = none) (m : M) :
    c.absorb m f = c.addUnknown m f := by
  simp only [absorb, unknown]

/-- The fields that pass the tests of the class. -/
def Accepts (f : UnknownField) : Bool :=
  match c.known (tagOf f), f with
  | some (.string _ _ verified), .lengthDelimited _ data => verified data
  | _, _ => true

variable {c}

/-- The bodies that the class reads. -/
def Body (c : MessageClass M) (tag : Nat) (f : UnknownField) (body : Bytes) : Prop :=
  (8 ≤ tag ∧ BodyForm (GroupForms recursionLimit) tag f body) ∧ c.Accepts f = true

theorem parseField_follows (limit : Nat) : Follows limit c.Body c.absorb (c.parseField limit) := by
  intro m tag plain
  unfold parseField
  split
  · rename_i store failed known
    obtain ⟨large, wire⟩ := c.wire _ _ known
    have same : 8 * (tag / 8) = tag := by
      simp only [Known.wireType] at wire
      omega
    refine (parses_number varintParse_reads (Nat.le_refl 10) _ _).of_iff fun a body => ⟨?_, ?_⟩
    · rintro ⟨value, form, rfl⟩
      refine ⟨.varint (tag / 8) value, ⟨⟨large, .varint wire form⟩, ?_⟩, ?_⟩
      · simp only [Accepts, tagOf, same, known]
      · simp only [absorb, tagOf, same, known]
    · rintro ⟨f, ⟨⟨-, form⟩, -⟩, rfl⟩
      simp only [Known.wireType] at wire
      cases form <;> first | (simp only [absorb, tagOf, same, known]; exact ⟨_, ‹_›, rfl⟩) | omega
  · rename_i opened store verified known
    obtain ⟨large, wire⟩ := c.wire _ _ known
    have same : 8 * (tag / 8) + 2 = tag := by
      simp only [Known.wireType] at wire
      omega
    refine (parses_string verified _ _).of_iff fun a body => ⟨?_, ?_⟩
    · rintro ⟨data, size, rfl, form, passed, rfl⟩
      refine ⟨.lengthDelimited (tag / 8) data, ⟨⟨large, .lengthDelimited wire form⟩, ?_⟩, ?_⟩
      · simp only [Accepts, tagOf, same, known, passed]
      · simp only [absorb, tagOf, same, known]
    · rintro ⟨f, ⟨⟨-, form⟩, accepted⟩, rfl⟩
      simp only [Known.wireType] at wire
      cases form <;>
        first
        | (simp only [absorb, Accepts, tagOf, same, known] at accepted ⊢; exact ⟨_, _, rfl, ‹_›, accepted, rfl⟩)
        | omega
  · rename_i unknown
    have groups (wire : tag % 8 = 3) : Parses limit (GroupBody (GroupForms recursionLimit) tag)
        (parseGroup (groupParser limit recursionLimit) tag) := parseGroup_parses wire
    have parses := fieldParser_parses groups
    refine (parses.map fun field => field.toList.foldl c.addUnknown m).of_iff fun a body => ⟨?_, ?_⟩
    · rintro ⟨_, ⟨f, ⟨large, form⟩, rfl⟩, rfl⟩
      have known : c.known (tagOf f) = none := by rwa [← form.tag_eq]
      exact ⟨f, ⟨⟨large, form⟩, by simp only [Accepts, known]⟩, by simp only [absorb, known]; rfl⟩
    · rintro ⟨f, ⟨⟨large, form⟩, -⟩, rfl⟩
      have known : c.known (tagOf f) = none := by rwa [← form.tag_eq]
      exact ⟨_, ⟨f, ⟨large, form⟩, rfl⟩, by simp only [absorb, known]; rfl⟩

/-! ### The whole message -/

theorem sequence_body {fields : List UnknownField} :
    Sequence c.Body fields data ↔ Forms recursionLimit fields data ∧
      ∀ f ∈ fields, c.Accepts f = true := by
  rw [forms_eq]
  constructor
  · intro sequence
    induction sequence with
    | nil => exact ⟨.nil, nofun⟩
    | cons start plain first _ ih => exact ⟨.cons start plain first.1 ih.1, List.forall_mem_cons.mpr ⟨first.2, ih.2⟩⟩
  · rintro ⟨sequence, accepted⟩
    induction sequence with
    | nil => exact .nil
    | cons start plain first _ ih =>
      obtain ⟨head, accepted⟩ := List.forall_mem_cons.mp accepted
      exact .cons start plain ⟨first, head⟩ (ih accepted)

/-- A merge succeeds on the forms of fields that are accepted, and on nothing else. -/
theorem mergePartialFrom_iff : c.mergePartialFrom m data = (m', true) ↔
    ∃ fields, Forms recursionLimit fields data ∧ (∀ f ∈ fields, c.Accepts f = true) ∧
      m' = fields.foldl c.absorb m := by
  have follows : Follows (data.length + 1) c.Body c.absorb (c.parseField (data.length + 1)) :=
    parseField_follows _
  constructor
  · intro merged
    obtain ⟨rfl, ended⟩ := Prod.mk.inj merged
    have read : HasRead c.Body c.absorb m (c.internalParse m data).1 data (c.internalParse m data).2 :=
      parseLoop_sound follows (initFrom_at data)
    cases atLimit : (c.internalParse m data).2 with
    | limit =>
      rw [atLimit] at read
      obtain ⟨fields, sequence, parsed⟩ := read
      obtain ⟨form, accepted⟩ := sequence_body.mp sequence
      exact ⟨fields, form, accepted, parsed⟩
    | lastTag | failed =>
      rw [atLimit] at ended
      cases ended
  · rintro ⟨fields, form, accepted, rfl⟩
    have stands : (initFrom data).At (data ++ []) := by
      rw [List.append_nil]
      exact initFrom_at data
    have small : (data ++ []).length < data.length + 1 := by
      rw [List.append_nil]
      omega
    obtain ⟨t, left, looped, after⟩ :=
      parseLoop_complete (m := m) follows (sequence_body.mpr ⟨form, accepted⟩) stands
      small (Nat.lt_succ_self _)
    have parsed : c.internalParse m data = (fields.foldl c.absorb m, .limit) :=
      looped.trans (parseLoop_nil after)
    simp only [mergePartialFrom, parsed, endedAtLimit]

theorem parseFromString_iff : c.parseFromString data = (m, true) ↔
    (∃ fields, Forms recursionLimit fields data ∧ (∀ f ∈ fields, c.Accepts f = true) ∧
      m = fields.foldl c.absorb c.empty) ∧ c.isInitialized m = true := by
  rw [← mergePartialFrom_iff]
  constructor
  · intro parsed
    obtain ⟨rfl, accepted⟩ := Prod.mk.inj parsed
    obtain ⟨merged, initialized⟩ := (Bool.and_eq_true _ _).mp accepted
    exact ⟨Prod.ext rfl merged, initialized⟩
  · rintro ⟨merged, initialized⟩
    rw [parseFromString, merged, initialized]
    rfl

/-- Whatever the bytes are, nothing is read behind the buffers, and the loop comes to its end. -/
theorem internalParse_fault :
    (c.internalParse m data).2 ≠ .failed .outside ∧
      (c.internalParse m data).2 ≠ .failed .unfinished :=
  ⟨parseLoop_inside (parseField_follows _), parseLoop_finished (parseField_follows _) (Nat.le_refl _) (within_initFrom data)⟩

/-- A form at the front of the bytes is read round by round, and then there is what follows it. -/
theorem internalParse_front {fields : List UnknownField} {front : Bytes}
    (form : Forms recursionLimit fields front) (accepted : ∀ f ∈ fields, c.Accepts f = true) (m : M)
    (rest : Bytes) :
    ∃ t left, c.internalParse m (front ++ rest) =
      parseLoop (c.parseField ((front ++ rest).length + 1)) (left + 1) (fields.foldl c.absorb m) t ∧
      t.At rest := by
  refine parseLoop_complete (parseField_follows _) (sequence_body.mpr ⟨form, accepted⟩)
    (initFrom_at _)
    (Nat.lt_succ_self _) ?_
  rw [List.length_append]
  omega

/-! ### One message behind another -/

variable {a b : Bytes} {x y : M}

/-- What follows a message is merged into it. -/
theorem mergePartialFrom_append (first : c.mergePartialFrom m a = (x, true)) :
    c.mergePartialFrom m (a ++ b) = (y, true) ↔ c.mergePartialFrom x b = (y, true) := by
  obtain ⟨fields, form, accepted, rfl⟩ := mergePartialFrom_iff.mp first
  constructor
  · intro merged
    obtain ⟨t, left, looped, stands⟩ := internalParse_front form accepted m b
    obtain ⟨rfl, ended⟩ := Prod.mk.inj merged
    have read : HasRead c.Body c.absorb (fields.foldl c.absorb m) (c.internalParse m (a ++ b)).1 b
        (c.internalParse m (a ++ b)).2 := by
      rw [looped]
      exact parseLoop_sound (parseField_follows _) stands
    cases atLimit : (c.internalParse m (a ++ b)).2 with
    | limit =>
      rw [atLimit] at read
      obtain ⟨more, sequence, parsed⟩ := read
      obtain ⟨form, accepted⟩ := sequence_body.mp sequence
      exact mergePartialFrom_iff.mpr ⟨more, form, accepted, parsed⟩
    | lastTag | failed =>
      rw [atLimit] at ended
      cases ended
  · intro merged
    obtain ⟨more, after, accepts, rfl⟩ := mergePartialFrom_iff.mp merged
    refine mergePartialFrom_iff.mpr ⟨fields ++ more, forms_append form after, ?_,
      List.foldl_append.symm⟩
    intro f member
    rcases List.mem_append.mp member with member | member
    · exact accepted f member
    · exact accepts f member

/-- Two messages in one string are read as `MergeFrom` puts them together. -/
theorem mergePartialFrom_mergeFrom {mergeFrom : M → M → M} (right : ∀ m, mergeFrom m c.empty = m)
    (step : ∀ m source f, c.absorb (mergeFrom m source) f = mergeFrom m (c.absorb source f))
    (first : c.mergePartialFrom c.empty a = (x, true)) :
    c.mergePartialFrom c.empty (a ++ b) = (m', true) ↔
      ∃ y, c.mergePartialFrom c.empty b = (y, true) ∧ m' = mergeFrom x y := by
  have folds (fields : List UnknownField) (source : M) :
      fields.foldl c.absorb (mergeFrom x source) = mergeFrom x (fields.foldl c.absorb source) := by
    induction fields generalizing source with
    | nil => rfl
    | cons f fields ih => rw [List.foldl_cons, List.foldl_cons, step, ih]
  rw [mergePartialFrom_append first]
  constructor
  · intro merged
    obtain ⟨fields, form, accepted, rfl⟩ := mergePartialFrom_iff.mp merged
    refine ⟨_, mergePartialFrom_iff.mpr ⟨fields, form, accepted, rfl⟩, ?_⟩
    rw [← folds, right]
  · rintro ⟨y, merged, rfl⟩
    obtain ⟨fields, form, accepted, rfl⟩ := mergePartialFrom_iff.mp merged
    refine mergePartialFrom_iff.mpr ⟨fields, form, accepted, ?_⟩
    rw [← folds, right]

end MessageClass

end Kingkong.Protobuf
