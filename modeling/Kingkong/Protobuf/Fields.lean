import Kingkong.Protobuf.Input

/-!
The loop that parses a message, and the fields that a message does not know. Beside the parser
stands the wire format as a relation: a message is a sequence of fields, a field is a tag and a
body, and a group is a sequence inside of a sequence, up to a depth.
-/

namespace Kingkong.Protobuf
open Lib InputStream

/-- A field of an `UnknownFieldSet`. -/
inductive UnknownField where
  | varint (number value : Nat)
  | fixed64 (number value : Nat)
  | lengthDelimited (number : Nat) (data : Bytes)
  | group (number : Nat) (fields : List UnknownField)
  | fixed32 (number value : Nat)

/-- How a parse ends: at the limit of the stream, at a tag that `SetLastTag` keeps, or with a null
pointer. -/
inductive Ended where
  | limit
  | lastTag (tag : Nat) (s : InputStream)
  | failed (fault : Fault)

/-- The tags at which every parse stops: zero, and the end of a group. -/
def endsMessage (tag : Nat) : Bool := tag == 0 || tag % 8 == 4

/-- A value, or what is there in its place after a fault, and the pointer behind it. -/
abbrev Parser (α : Type) := InputStream → α × Except Fault InputStream

section Loop

variable {M : Type}

/-- `_InternalParse` and `WireFormatParser`: the loop over the tags, with what is done for a
field. -/
def parseLoop (field : M → Nat → Parser M) : Nat → M → InputStream → M × Ended
  | 0, m, _ => (m, .failed .unfinished)
  | rounds + 1, m, s =>
    match s.doneWithCheck with
    | .done => (m, .limit)
    | .exceeded => (m, .failed .malformed)
    | .more s =>
      match readTag s.ahead with
      | .error fault => (m, .failed fault)
      | .ok (tag, rest) =>
        if endsMessage tag then (m, .lastTag tag (s.moved rest))
        else
          match field m tag (s.moved rest) with
          | (m, .error fault) => (m, .failed fault)
          | (m, .ok s) => parseLoop field rounds m s

end Loop

/-- A number, and what it is made into. -/
def parseNumber {α : Type} (read : Reader Nat) (missing : α) (found : Nat → α) : Parser α :=
  fun s =>
  match read s.ahead with
  | .ok (value, rest) => (found value, .ok (s.moved rest))
  | .error fault => (missing, .error fault)

/-- `InlineGreedyStringParser` and `ParseLengthDelimited`, with the test of the string that some
fields have. -/
def parseString {α : Type} (verified : Bytes → Bool) (missing : α) (found : Bytes → α) : Parser α :=
  fun s =>
  match readSize s.ahead with
  | .ok (size, rest) =>
    match (s.moved rest).readString size with
    | (data, next) => (found data, if verified data then next else .error .malformed)
  | .error fault => (missing, .error fault)

/-- `ConsumeEndGroup`. -/
def consumeEndGroup (startTag : Nat) : Ended → Except Fault InputStream
  | .lastTag tag s => if tag = startTag + 1 then .ok s else .error .malformed
  | .limit => .error .malformed
  | .failed fault => .error fault

/-- `ParseGroup`. There is no `inner` parser when `depth_` is used up. -/
def parseGroup (inner : Option (InputStream → List UnknownField × Ended)) (tag : Nat) :
    Parser (Option UnknownField) :=
  fun s =>
    match inner with
    | none => (some (.group (tag / 8) []), .error .malformed)
    | some parse =>
      match parse s with
      | (fields, ended) => (some (.group (tag / 8) fields), consumeEndGroup tag ended)

/-- `FieldParser`, with the field that is added to the set. A string and a group are added before
they are read. -/
def fieldParser (inner : Option (InputStream → List UnknownField × Ended)) (tag : Nat) :
    Parser (Option UnknownField) :=
  if tag / 8 = 0 then fun _ => (none, .error .malformed)
  else
    match tag % 8 with
    | 0 => parseNumber varintParse none fun value => some (.varint (tag / 8) value)
    | 1 => parseNumber (unalignedLoad 8) none fun value => some (.fixed64 (tag / 8) value)
    | 2 => parseString (fun _ => true) (some (.lengthDelimited (tag / 8) [])) fun data =>
        some (.lengthDelimited (tag / 8) data)
    | 3 => parseGroup inner tag
    | 5 => parseNumber (unalignedLoad 4) none fun value => some (.fixed32 (tag / 8) value)
    | _ => fun _ => (none, .error .malformed)

def addField (inner : Option (InputStream → List UnknownField × Ended)) (fields : List UnknownField)
    (tag : Nat) :
    Parser (List UnknownField) :=
  fun s =>
  match fieldParser inner tag s with
  | (field, next) => (fields ++ field.toList, next)

/-- The fields of a group, when `depth_` has the value `depth`. -/
def wireFormatParser (rounds : Nat) : Nat → InputStream → List UnknownField × Ended
  | 0 => parseLoop (addField none) rounds []
  | depth + 1 => parseLoop (addField (some (wireFormatParser rounds depth))) rounds []

/-- The parser of the groups inside. -/
def groupParser (rounds : Nat) : Nat → Option (InputStream → List UnknownField × Ended)
  | 0 => none
  | depth + 1 => some (wireFormatParser rounds depth)

theorem wireFormatParser_eq (rounds depth : Nat) :
    wireFormatParser rounds depth = parseLoop (addField (groupParser rounds depth)) rounds [] := by
  cases depth <;> rfl

/-! ### The wire format -/

/-- What may stand behind a tag. `Inner` has the sequences that a group may have inside. -/
inductive BodyForm (Inner : List UnknownField → Bytes → Prop) (tag : Nat) :
    UnknownField → Bytes → Prop where
  | varint {value bytes} (wire : tag % 8 = 0) (body : IsValue value bytes) :
    BodyForm Inner tag (.varint (tag / 8) value) bytes
  | fixed64 {value bytes} (wire : tag % 8 = 1) (body : IsFixed 8 value bytes) :
    BodyForm Inner tag (.fixed64 (tag / 8) value) bytes
  | lengthDelimited {data size} (wire : tag % 8 = 2) (body : IsSize data.length size) :
    BodyForm Inner tag (.lengthDelimited (tag / 8) data) (size ++ data)
  | group {fields inner last} (wire : tag % 8 = 3) (body : Inner fields inner) (stop : IsTag (tag + 1) last) :
    BodyForm Inner tag (.group (tag / 8) fields) (inner ++ last)
  | fixed32 {value bytes} (wire : tag % 8 = 5) (body : IsFixed 4 value bytes) :
    BodyForm Inner tag (.fixed32 (tag / 8) value) bytes

inductive Sequence (Body : Nat → UnknownField → Bytes → Prop) :
    List UnknownField → Bytes → Prop where
  | nil : Sequence Body [] []
  | cons {tag head field body fields rest} (start : IsTag tag head) (plain : endsMessage tag = false)
    (first : Body tag field body) (more : Sequence Body fields rest) :
    Sequence Body (field :: fields) (head ++ (body ++ rest))

/-- The bytes are a form of the fields, with groups up to a depth. -/
def Forms : Nat → List UnknownField → Bytes → Prop
  | 0 => Sequence fun tag field body => 8 ≤ tag ∧ BodyForm (fun _ _ => False) tag field body
  | depth + 1 => Sequence fun tag field body => 8 ≤ tag ∧ BodyForm (Forms depth) tag field body

/-- The forms that a group may have inside. -/
def GroupForms : Nat → List UnknownField → Bytes → Prop
  | 0 => fun _ _ => False
  | depth + 1 => Forms depth

theorem forms_eq (depth : Nat) :
    Forms depth = Sequence fun tag field body => 8 ≤ tag ∧
      BodyForm (GroupForms depth) tag field body := by
  cases depth <;> rfl

theorem forms_append {depth : Nat} {fields more : List UnknownField} {data rest : Bytes}
    (form : Forms depth fields data) (after : Forms depth more rest) :
    Forms depth (fields ++ more) (data ++ rest) := by
  rw [forms_eq] at form after ⊢
  induction form with
  | nil => exact after
  | cons start ends first _ ih =>
    simp only [List.append_assoc, List.cons_append]
    exact .cons start ends first ih

/-! ### What a parser reads -/

section Parses

variable {α : Type} {Form : α → Bytes → Prop} {parse : Parser α} {rounds k : Nat} {read : Reader Nat}

/-- `parse` takes a form of its value from the stream. Once the pointer is past the end of the array
it stays there, and 10 bytes are enough for what is read without a test. -/
structure Parses (rounds : Nat) (Form : α → Bytes → Prop) (parse : Parser α) : Prop where
  sound : ∀ s r a t, s.At r → parse s = (a, .ok t) → t.Over ∨ ∃ body r', r = body ++ r' ∧ Form a body ∧ t.At r'
  beyond : ∀ s a t, s.Over → parse s = (a, .ok t) → t.Over
  complete : ∀ s a body r, Form a body → s.At (body ++ r) → (body ++ r).length < rounds →
    ∃ t, parse s = (a, .ok t) ∧ t.At r
  inside : ∀ s, 10 ≤ s.ahead.length → (parse s).2 ≠ .error .outside
  finished : ∀ s, s.Within rounds → (parse s).2 ≠ .error .unfinished

theorem parses_number {Form : Nat → Bytes → Prop} (reads : Reads k Form read) (few : k ≤ 10)
    (missing : α) (found : Nat → α) :
    Parses rounds (fun a body => ∃ value, Form value body ∧
      a = found value) (parseNumber read missing found) where
  sound s r a t stands h := by
    unfold parseNumber at h
    split at h
    · rename_i value rest given
      cases h
      obtain ⟨used, split, form⟩ := reads.sound _ _ _ given
      rcases at_moved stands split with beyond | ⟨r', rfl, after⟩
      · exact .inl beyond
      · exact .inr ⟨used, r', rfl, ⟨value, form, rfl⟩, after⟩
    · cases h
  beyond s a t beyond h := by
    unfold parseNumber at h
    split at h
    · rename_i value rest given
      cases h
      obtain ⟨used, split, -⟩ := reads.sound _ _ _ given
      exact over_moved beyond split
    · cases h
  complete s a body r form stands _ := by
    obtain ⟨value, form, rfl⟩ := form
    obtain ⟨rest, split, after⟩ := at_append stands
    refine ⟨s.moved rest, ?_, after⟩
    unfold parseNumber
    rw [split, reads.complete _ _ form]
  inside s enough := by
    unfold parseNumber
    split
    · nofun
    · rename_i fault given
      rintro ⟨⟩
      exact reads.inside _ (by omega) given
  finished s _ := by
    unfold parseNumber
    split
    · nofun
    · rename_i fault given
      rintro ⟨⟩
      exact reads.finished _ given

/-- A string that is all there. -/
theorem readString_sound {s t : InputStream} {size : Nat} {data : Bytes}
    (h : s.readString size = (data, .ok t)) :
    data.length = size ∧ ∃ rest, s.ahead = data ++ rest ∧ t = s.moved rest := by
  unfold readString at h
  split at h
  · cases h
    exact ⟨List.length_take_of_le ‹_›, _, (List.take_append_drop _ _).symm, rfl⟩
  · cases h

theorem readString_complete {s : InputStream} {data rest : Bytes} (split : s.ahead = data ++ rest) :
    s.readString data.length = (data, .ok (s.moved rest)) := by
  unfold readString
  rw [split, if_pos (by rw [List.length_append]; omega), List.take_left, List.drop_left]
  rfl

theorem readString_fault (s : InputStream) (size : Nat) :
    (s.readString size).2 ≠ .error .outside ∧ (s.readString size).2 ≠ .error .unfinished := by
  unfold readString
  split <;> exact ⟨nofun, nofun⟩

theorem parses_string (verified : Bytes → Bool) (missing : α) (found : Bytes → α) :
    Parses rounds
      (fun a body => ∃ data size, body = size ++ data ∧ IsSize data.length size ∧
        verified data = true ∧ a = found data)
      (parseString verified missing found) := by
  have inversion : ∀ s a t, parseString verified missing found s = (a, .ok t) →
      ∃ data size rest, s.ahead = (size ++ data) ++ rest ∧ IsSize data.length size ∧ verified data = true ∧
        a = found data ∧ t = s.moved rest := by
    intro s a t h
    unfold parseString at h
    split at h
    · rename_i n rest given
      split at h
      rename_i data next taken
      split at h
      · rename_i passed
        cases h
        obtain ⟨size, split, form⟩ := readSize_reads.sound _ _ _ given
        obtain ⟨rfl, after, behind, rfl⟩ := readString_sound taken
        refine ⟨data, size, after, ?_, form, passed, rfl, rfl⟩
        rw [split, List.append_assoc]
        exact congrArg (size ++ ·) behind
      · cases h
    · cases h
  constructor
  · intro s r a t stands h
    obtain ⟨data, size, rest, split, form, passed, rfl, rfl⟩ := inversion s a t h
    rcases at_moved stands split with beyond | ⟨r', rfl, after⟩
    · exact .inl beyond
    · exact .inr ⟨size ++ data, r', rfl, ⟨data, size, rfl, form, passed, rfl⟩, after⟩
  · intro s a t beyond h
    obtain ⟨data, size, rest, split, -, -, -, rfl⟩ := inversion s a t h
    exact over_moved beyond split
  · rintro s a body r ⟨data, size, rfl, form, passed, rfl⟩ stands -
    obtain ⟨rest, split, after⟩ := at_append stands
    refine ⟨s.moved rest, ?_, after⟩
    have taken : (s.moved (data ++ rest)).readString data.length = (data, .ok (s.moved rest)) :=
      readString_complete rfl
    unfold parseString
    rw [split, List.append_assoc, readSize_reads.complete _ _ form]
    simp only [taken, passed, if_true]
  · intro s enough
    unfold parseString
    split
    · rename_i n rest given
      have fine := (readString_fault (s.moved rest) n).1
      generalize (s.moved rest).readString n = result at fine
      dsimp only
      split
      · exact fine
      · nofun
    · rename_i fault given
      rintro ⟨⟩
      exact readSize_reads.inside _ (by omega) given
  · intro s _
    unfold parseString
    split
    · rename_i n rest given
      have fine := (readString_fault (s.moved rest) n).2
      generalize (s.moved rest).readString n = result at fine
      dsimp only
      split
      · exact fine
      · nofun
    · rename_i fault given
      rintro ⟨⟩
      exact readSize_reads.finished _ given

/-- What a string leaves behind, read or not. -/
theorem parseString_fst (verified : Bytes → Bool) (missing : α) (found : Bytes → α)
    (s : InputStream) :
    (parseString verified missing found s).1 = missing ∨
      ∃ data, (parseString verified missing found s).1 = found data := by
  unfold parseString
  split
  · exact .inr ⟨_, rfl⟩
  · exact .inl rfl

theorem Parses.of_iff {Other : α → Bytes → Prop} (parses : Parses rounds Form parse)
    (same : ∀ a body, Form a body ↔ Other a body) : Parses rounds Other parse := by
  have equal : Form = Other := funext fun a => funext fun body => propext (same a body)
  rwa [← equal]

theorem Parses.map {β : Type} (parses : Parses rounds Form parse) (g : α → β) :
    Parses rounds (fun b body => ∃ a, Form a body ∧
      b = g a) (fun s => (g (parse s).1, (parse s).2)) where
  sound s r b t stands h := by
    obtain ⟨rfl, next⟩ := Prod.mk.inj h
    rcases parses.sound s r _ t stands (Prod.ext rfl next) with
        beyond | ⟨body, r', split, form, after⟩
    · exact .inl beyond
    · exact .inr ⟨body, r', split, ⟨_, form, rfl⟩, after⟩
  beyond s b t beyond h := parses.beyond s _ t beyond (Prod.ext rfl (Prod.mk.inj h).2)
  complete s b body r form stands small := by
    obtain ⟨a, form, rfl⟩ := form
    obtain ⟨t, parsed, after⟩ := parses.complete s a body r form stands small
    exact ⟨t, by rw [parsed], after⟩
  inside := parses.inside
  finished := parses.finished

/-- A parser that refuses whatever it is given. -/
theorem parses_none (none : ∀ a body, ¬ Form a body) (missing : α) :
    Parses rounds Form fun _ => (missing, .error .malformed) where
  sound _ _ _ _ _ h := nomatch h
  beyond _ _ _ _ h := nomatch h
  complete _ a body _ form := absurd form (none a body)
  inside _ _ := nofun
  finished _ _ := nofun

end Parses

/-! ### The loop reads sequences -/

section Follows

variable {M : Type} {Body : Nat → UnknownField → Bytes → Prop} {absorb : M → UnknownField → M}
  {field : M → Nat → Parser M} {rounds limit tag : Nat} {m m' : M} {s t : InputStream} {r body : Bytes}

/-- `field` reads the bodies of `Body`, and adds what it has read by `absorb`. -/
def Follows (limit : Nat) (Body : Nat → UnknownField → Bytes → Prop) (absorb : M → UnknownField → M)
    (field : M → Nat → Parser M) : Prop :=
  ∀ m tag, endsMessage tag = false → Parses limit (fun m' body => ∃ f, Body tag f body ∧ m' = absorb m f) (field m tag)

theorem parseLoop_nil (stands : s.At []) : parseLoop field (rounds + 1) m s = (m, .limit) := by
  simp only [parseLoop, doneWithCheck_nil stands]

theorem parseLoop_over (beyond : s.Over) :
    ∃ fault, parseLoop field rounds m s = (m, .failed fault) := by
  cases rounds with
  | zero => exact ⟨_, rfl⟩
  | succ rounds =>
    refine ⟨.malformed, ?_⟩
    simp only [parseLoop, doneWithCheck_over beyond]

/-- What a loop has read when it ends. -/
def HasRead (Body : Nat → UnknownField → Bytes → Prop) (absorb : M → UnknownField → M) (m m' : M)
    (r : Bytes) :
    Ended → Prop
  | .limit => ∃ fields, Sequence Body fields r ∧ m' = fields.foldl absorb m
  | .lastTag tag t => t.Over ∨ ∃ fields bytes last r', r = bytes ++ (last ++ r') ∧ Sequence Body fields bytes ∧
      m' = fields.foldl absorb m ∧ IsTag tag last ∧ t.At r'
  | .failed _ => True

/-- One more field in front of what the loop has read. -/
theorem hasRead_cons {f : UnknownField} {head : Bytes} {ended : Ended} (start : IsTag tag head)
    (plain : endsMessage tag = false) (first : Body tag f body)
    (read : HasRead Body absorb (absorb m f) m' r ended) :
    HasRead Body absorb m m' (head ++ (body ++ r)) ended := by
  cases ended with
  | limit =>
    obtain ⟨fields, sequence, rfl⟩ := read
    exact ⟨f :: fields, .cons start plain first sequence, rfl⟩
  | lastTag last t =>
    rcases read with beyond | ⟨fields, bytes, stop, r', rfl, sequence, rfl, isTag, after⟩
    · exact .inl beyond
    · refine .inr ⟨f :: fields, head ++ (body ++ bytes), stop, r', ?_,
        .cons start plain first sequence, rfl, isTag, after⟩
      simp only [List.append_assoc]
  | failed fault => trivial

theorem parseLoop_sound (follows : Follows limit Body absorb field) (stands : s.At r) :
    HasRead Body absorb m (parseLoop field rounds m s).1 r (parseLoop field rounds m s).2 := by
  induction rounds generalizing m s r with
  | zero => trivial
  | succ rounds ih =>
    by_cases empty : r = []
    · subst empty
      rw [parseLoop_nil stands]
      exact ⟨[], .nil, rfl⟩
    obtain ⟨u, more, stands, -⟩ := doneWithCheck_more stands empty
    simp only [parseLoop, more]
    cases read : readTag u.ahead with
    | error fault => trivial
    | ok found =>
      obtain ⟨tag, rest⟩ := found
      obtain ⟨head, split, isTag⟩ := readTag_reads.sound _ _ _ read
      dsimp only
      cases plain : endsMessage tag with
      | true =>
        rcases at_moved stands split with beyond | ⟨r', rfl, after⟩
        · exact .inl beyond
        · exact .inr ⟨[], [], head, r', rfl, .nil, rfl, isTag, after⟩
      | false =>
        rw [if_neg Bool.false_ne_true]
        have parses := follows m tag plain
        rcases parsed : field m tag (u.moved rest) with ⟨m1, fault | t⟩
        · trivial
        · have over_fails (beyond : t.Over) :
              HasRead Body absorb m (parseLoop field rounds m1 t).1 r
              (parseLoop field rounds m1 t).2 := by
            have failed : ∃ fault, parseLoop field rounds m1 t = (m1, .failed fault) :=
              parseLoop_over beyond
            obtain ⟨fault, failed⟩ := failed
            rw [failed]
            trivial
          rcases at_moved stands split with beyond | ⟨r', rfl, after⟩
          · exact over_fails (parses.beyond _ _ _ beyond parsed)
          · rcases parses.sound _ _ _ _ after parsed with
                beyond | ⟨body, r'', rfl, ⟨f, first, rfl⟩, stands⟩
            · exact over_fails beyond
            · exact hasRead_cons isTag plain first (ih stands)

/-- A sequence is read round by round. -/
theorem parseLoop_complete {fields : List UnknownField} {bytes : Bytes}
    (follows : Follows limit Body absorb field) (sequence : Sequence Body fields bytes)
    (stands : s.At (bytes ++ r)) (small : (bytes ++ r).length < limit)
    (enough : bytes.length < rounds) :
    ∃ t left, parseLoop field rounds m s = parseLoop field (left + 1) (fields.foldl absorb m) t ∧
      t.At r := by
  induction sequence generalizing m s rounds with
  | nil =>
    obtain ⟨left, rfl⟩ := Nat.exists_eq_add_of_lt enough
    exact ⟨s, _, by simp only [List.length_nil, Nat.zero_add]; rfl, stands⟩
  | @cons tag head f body fields rest start plain first sequence ih =>
    have headLength := (readTag_reads.length _ _ start).1
    obtain ⟨left, rfl⟩ := Nat.exists_eq_add_of_lt enough
    have nonempty : head ++ (body ++ rest) ++ r ≠ [] := by
      intro empty
      have := congrArg List.length empty
      simp only [List.length_append, List.length_nil] at this
      omega
    obtain ⟨u, more, stands, -⟩ := doneWithCheck_more stands nonempty
    rw [List.append_assoc] at stands
    obtain ⟨ahead, split, after⟩ := at_append stands
    rw [List.append_assoc] at after
    simp only [List.length_append] at small
    obtain ⟨t, parsed, after⟩ :=
      (follows m tag plain).complete (u.moved ahead) _ body (rest ++ r) ⟨f, first, rfl⟩ after
      (by simp only [List.length_append]; omega)
    have read : readTag u.ahead = .ok (tag, ahead) := by
      rw [split, readTag_reads.complete _ _ start]
    simp only [parseLoop, more, read, plain, Bool.false_eq_true, if_false, parsed]
    refine ih after (by simp only [List.length_append]; omega) ?_
    simp only [List.length_append]
    omega

theorem parseLoop_inside (follows : Follows limit Body absorb field) :
    (parseLoop field rounds m s).2 ≠ .failed .outside := by
  induction rounds generalizing m s with
  | zero => nofun
  | succ rounds ih =>
    cases check : s.doneWithCheck with
    | done =>
      simp only [parseLoop, check]
      nofun
    | exceeded =>
      simp only [parseLoop, check]
      nofun
    | more u =>
      have far := doneWithCheck_far check
      simp only [parseLoop, check]
      cases read : readTag u.ahead with
      | error fault =>
        rintro ⟨⟩
        exact readTag_reads.inside _ (by unfold kSlopBytes at far; omega) read
      | ok found =>
        obtain ⟨tag, rest⟩ := found
        dsimp only
        cases plain : endsMessage tag with
        | true => nofun
        | false =>
          obtain ⟨head, split, isTag⟩ := readTag_reads.sound _ _ _ read
          have few := (readTag_reads.length _ _ isTag).2
          have left : 10 ≤ (u.moved rest).ahead.length := by
            rw [split, List.length_append] at far
            show 10 ≤ rest.length
            unfold kSlopBytes at far
            omega
          have inside := (follows m tag plain).inside _ left
          rw [if_neg Bool.false_ne_true]
          rcases parsed : field m tag (u.moved rest) with ⟨m1, fault | t⟩
          · rw [parsed] at inside
            rintro ⟨⟩
            exact inside rfl
          · exact ih

theorem parseLoop_finished (follows : Follows limit Body absorb field) (most : rounds ≤ limit)
    (within : s.Within rounds) :
    (parseLoop field rounds m s).2 ≠ .failed .unfinished := by
  induction rounds generalizing m s with
  | zero => rcases within with ⟨-, none⟩ | ⟨r, -, none⟩ <;> cases none
  | succ rounds ih =>
    rcases within with ⟨beyond, -⟩ | ⟨r, stands, small⟩
    · simp only [parseLoop, doneWithCheck_over beyond]
      nofun
    by_cases empty : r = []
    · subst empty
      rw [parseLoop_nil stands]
      nofun
    obtain ⟨u, more, stands, -⟩ := doneWithCheck_more stands empty
    simp only [parseLoop, more]
    cases read : readTag u.ahead with
    | error fault =>
      rintro ⟨⟩
      exact readTag_reads.finished _ read
    | ok found =>
      obtain ⟨tag, rest⟩ := found
      obtain ⟨head, split, isTag⟩ := readTag_reads.sound _ _ _ read
      have positive := (readTag_reads.length _ _ isTag).1
      dsimp only
      cases plain : endsMessage tag with
      | true => nofun
      | false =>
        rw [if_neg Bool.false_ne_true]
        have parses := follows m tag plain
        have within : u.Within limit := .inr ⟨r, stands, by omega⟩
        have finished := parses.finished _ (within_moved within split)
        have length := List.length_pos_of_ne_nil empty
        rcases parsed : field m tag (u.moved rest) with ⟨m1, fault | t⟩
        · rw [parsed] at finished
          rintro ⟨⟩
          exact finished rfl
        · apply ih (by omega)
          rcases at_moved stands split with beyond | ⟨r', rfl, after⟩
          · exact .inl ⟨parses.beyond _ _ _ beyond parsed, by omega⟩
          · rcases parses.sound _ _ _ _ after parsed with beyond | ⟨body, r'', rfl, -, stands⟩
            · exact .inl ⟨beyond, by omega⟩
            · simp only [List.length_append] at small
              exact .inr ⟨r'', stands, by omega⟩

theorem parseLoop_lastTag {last : Bytes} (ends : endsMessage tag = true) (isTag : IsTag tag last)
    (stands : s.At (last ++ r)) :
    ∃ t, parseLoop field (rounds + 1) m s = (m, .lastTag tag t) ∧ t.At r := by
  have positive := (readTag_reads.length _ _ isTag).1
  have nonempty : last ++ r ≠ [] := by
    intro empty
    have := congrArg List.length empty
    simp only [List.length_append, List.length_nil] at this
    omega
  obtain ⟨u, more, stands, -⟩ := doneWithCheck_more stands nonempty
  obtain ⟨ahead, split, after⟩ := at_append stands
  have read : readTag u.ahead = .ok (tag, ahead) := by rw [split, readTag_reads.complete _ _ isTag]
  refine ⟨u.moved ahead, ?_, after⟩
  simp only [parseLoop, more, read, ends, if_true]

end Follows

/-! ### Unknown fields -/

section Unknown

variable {limit depth tag : Nat} {Inner : List UnknownField → Bytes → Prop}
  {inner : Option (InputStream → List UnknownField × Ended)}

/-- A group behind its start tag. -/
def GroupBody (Inner : List UnknownField → Bytes → Prop) (tag : Nat) (a : Option UnknownField)
    (body : Bytes) : Prop :=
  ∃ fields bytes last, body = bytes ++ last ∧ Inner fields bytes ∧ IsTag (tag + 1) last ∧
    a = some (.group (tag / 8) fields)

theorem fieldParser_parses
    (groups : tag % 8 = 3 → Parses limit (GroupBody Inner tag) (parseGroup inner tag)) :
    Parses limit (fun a body => ∃ f, (8 ≤ tag ∧ BodyForm Inner tag f body) ∧
      a = some f) (fieldParser inner tag) := by
  unfold fieldParser
  by_cases numbered : tag / 8 = 0
  · rw [if_pos numbered]
    apply parses_none
    rintro a body ⟨f, ⟨large, -⟩, -⟩
    omega
  rw [if_neg numbered]
  have large : 8 ≤ tag := by omega
  split
  · rename_i wire
    refine (parses_number varintParse_reads (Nat.le_refl 10) _ _).of_iff fun a body => ⟨?_, ?_⟩
    · rintro ⟨value, form, rfl⟩
      exact ⟨_, ⟨large, .varint wire form⟩, rfl⟩
    · rintro ⟨f, ⟨-, form⟩, rfl⟩
      cases form <;> first | exact ⟨_, ‹_›, rfl⟩ | omega
  · rename_i wire
    refine (parses_number (unalignedLoad_reads (n := 8) (by decide)) (by decide) _ _).of_iff fun a body => ⟨?_, ?_⟩
    · rintro ⟨value, form, rfl⟩
      exact ⟨_, ⟨large, .fixed64 wire form⟩, rfl⟩
    · rintro ⟨f, ⟨-, form⟩, rfl⟩
      cases form <;> first | exact ⟨_, ‹_›, rfl⟩ | omega
  · rename_i wire
    refine (parses_string (fun _ => true) _ _).of_iff fun a body => ⟨?_, ?_⟩
    · rintro ⟨data, size, rfl, form, -, rfl⟩
      exact ⟨_, ⟨large, .lengthDelimited wire form⟩, rfl⟩
    · rintro ⟨f, ⟨-, form⟩, rfl⟩
      cases form <;> first | exact ⟨_, _, rfl, ‹_›, rfl, rfl⟩ | omega
  · rename_i wire
    refine (groups wire).of_iff fun a body => ⟨?_, ?_⟩
    · rintro ⟨fields, bytes, last, rfl, form, stop, rfl⟩
      exact ⟨_, ⟨large, .group wire form stop⟩, rfl⟩
    · rintro ⟨f, ⟨-, form⟩, rfl⟩
      cases form <;> first | exact ⟨_, _, _, rfl, ‹_›, ‹_›, rfl⟩ | omega
  · rename_i wire
    refine (parses_number (unalignedLoad_reads (n := 4) (by decide)) (by decide) _ _).of_iff fun a body => ⟨?_, ?_⟩
    · rintro ⟨value, form, rfl⟩
      exact ⟨_, ⟨large, .fixed32 wire form⟩, rfl⟩
    · rintro ⟨f, ⟨-, form⟩, rfl⟩
      cases form <;> first | exact ⟨_, ‹_›, rfl⟩ | omega
  · apply parses_none
    rintro a body ⟨f, ⟨-, form⟩, -⟩
    cases form <;> contradiction

theorem addField_follows
    (groups : ∀ tag, tag % 8 = 3 → Parses limit (GroupBody Inner tag) (parseGroup inner tag)) :
    Follows limit (fun tag f body => 8 ≤ tag ∧
      BodyForm Inner tag f body) (fun fields f => fields ++ [f])
      (addField inner) := by
  intro fields tag plain
  refine ((fieldParser_parses (groups tag)).map fun field => fields ++ field.toList).of_iff fun a body => ⟨?_, ?_⟩
  · rintro ⟨_, ⟨f, form, rfl⟩, rfl⟩
    exact ⟨f, form, rfl⟩
  · rintro ⟨f, form, rfl⟩
    exact ⟨_, ⟨f, form, rfl⟩, rfl⟩

theorem foldl_snoc {α : Type} (front fields : List α) :
    fields.foldl (fun fields f => fields ++ [f]) front = front ++ fields := by
  induction fields generalizing front with
  | nil => exact (List.append_nil _).symm
  | cons f fields ih => rw [List.foldl_cons, ih, List.append_assoc, List.singleton_append]

/-- What `ConsumeEndGroup` lets through. -/
theorem consumeEndGroup_ok {ended : Ended} {t : InputStream}
    (h : consumeEndGroup tag ended = .ok t) :
    ended = .lastTag (tag + 1) t := by
  unfold consumeEndGroup at h
  split at h
  · split at h
    · rename_i same
      cases h
      rw [same]
    · cases h
  · cases h
  · cases h

theorem consumeEndGroup_error {ended : Ended} {fault : Fault} (fine : ended ≠ .failed fault)
    (other : fault ≠ .malformed) :
    consumeEndGroup tag ended ≠ .error fault := by
  intro h
  unfold consumeEndGroup at h
  split at h
  · split at h
    · cases h
    · cases h
      exact other rfl
  · cases h
    exact other rfl
  · cases h
    exact fine rfl

/-- A loop over unknown fields, as the parser of a group. -/
theorem parseGroup_loop {Body : Nat → UnknownField → Bytes → Prop}
    {field : List UnknownField → Nat → Parser (List UnknownField)} (wire : tag % 8 = 3)
    (follows : Follows limit Body (fun fields f => fields ++ [f]) field) :
    Parses limit (GroupBody (Sequence Body) tag) (parseGroup (some (parseLoop field limit [])) tag) where
  sound s r a t stands h := by
    obtain ⟨rfl, closed⟩ := Prod.mk.inj h
    have read : HasRead Body _ [] (parseLoop field limit [] s).1 r (parseLoop field limit [] s).2 :=
      parseLoop_sound follows stands
    rw [consumeEndGroup_ok closed] at read
    rcases read with beyond | ⟨fields, bytes, last, r', rfl, sequence, parsed, stop, after⟩
    · exact .inl beyond
    · rw [parsed, foldl_snoc, List.nil_append]
      exact .inr ⟨bytes ++ last, r', (List.append_assoc _ _ _).symm, ⟨fields, bytes, last, rfl,
        sequence, stop, rfl⟩, after⟩
  beyond s a t beyond h := by
    obtain ⟨-, closed⟩ := Prod.mk.inj h
    have failed : ∃ fault, parseLoop field limit [] s = ([], .failed fault) := parseLoop_over beyond
    obtain ⟨fault, failed⟩ := failed
    rw [failed] at closed
    cases closed
  complete s a body r form stands small := by
    obtain ⟨fields, bytes, last, rfl, sequence, stop, rfl⟩ := form
    rw [List.append_assoc] at stands small
    have few : bytes.length < limit := by
      simp only [List.length_append] at small
      omega
    obtain ⟨u, left, looped, here⟩ := parseLoop_complete (m := []) follows sequence stands small few
    have ends : endsMessage (tag + 1) = true := by
      have : (tag + 1) % 8 = 4 := by omega
      simp only [endsMessage, this, beq_self_eq_true, Bool.or_true]
    rw [foldl_snoc, List.nil_append] at looped
    have stopped : ∃ t, parseLoop field (left + 1) fields u = (fields, .lastTag (tag + 1) t) ∧
        t.At r :=
      parseLoop_lastTag ends stop here
    obtain ⟨t, stopped, after⟩ := stopped
    refine ⟨t, ?_, after⟩
    simp only [parseGroup, looped, stopped, consumeEndGroup, if_true]
  inside s _ := consumeEndGroup_error (parseLoop_inside follows) nofun
  finished s within := consumeEndGroup_error (parseLoop_finished follows (Nat.le_refl _) within) nofun

/-- The parser of a group takes a sequence and the tag that ends it. -/
theorem parseGroup_parses (wire : tag % 8 = 3) :
    Parses limit (GroupBody (GroupForms depth) tag) (parseGroup (groupParser limit depth) tag) := by
  induction depth generalizing tag with
  | zero =>
    apply parses_none
    rintro a body ⟨fields, bytes, last, -, form, -⟩
    exact form
  | succ depth ih =>
    show Parses limit (GroupBody (Forms depth) tag) (parseGroup (some (wireFormatParser limit depth)) tag)
    rw [forms_eq, wireFormatParser_eq]
    exact parseGroup_loop wire (addField_follows fun tag wire => ih wire)

end Unknown

end Kingkong.Protobuf
