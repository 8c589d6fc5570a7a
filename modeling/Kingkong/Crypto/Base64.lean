import Kingkong.Lib.Base64

/-!
`Base64Encode`, `Base64Decode` and `Base64EncodeUrlSafe` over the functions of the cryptographic
library. A length is passed as an `int32_t` and read as a `size_t`. A result of `none` is a buffer
that is written past its end, or a string that is too long to be built.
-/

namespace Kingkong.Crypto
open Lib

/-- The functions of the library: `encodeBlock` is the text without its terminator, and
`decodeBase64` gets the size of the buffer that it writes to. -/
structure Evp where
  encodedLength : Nat → Nat
  encodeBlock : Bytes → Bytes
  decodedLength : Nat → Option Nat
  decodeBase64 : Nat → Bytes → Option Bytes

/-- The functions are those of RFC 4648, with padding. The encoded length counts a terminator. -/
structure Evp.Standard (evp : Evp) : Prop where
  encodedLength : ∀ len, evp.encodedLength len = (len + 2) / 3 * 4 + 1
  encodeBlock : ∀ bytes, evp.encodeBlock bytes = encode64 bytes
  decodedLength : ∀ len, len % 4 = 0 → evp.decodedLength len = some (len / 4 * 3)
  ragged : ∀ maxOut input, input.length % 4 ≠ 0 → evp.decodeBase64 maxOut input = none
  decodeBase64 : ∀ maxOut input, input.length % 4 = 0 → input.length / 4 * 3 ≤ maxOut →
    evp.decodeBase64 maxOut input = decode64 input

/-- The value that an `int32_t` has as a `size_t`. -/
def sizeT (len : Int) : Nat := (len % 2 ^ 64).toNat

def base64Encode (evp : Evp) (buffer : Bytes) : Option Bytes :=
  let len := int32 buffer.length
  if len < 0 then none
  else
    -- `EVP_EncodeBlock` also writes a terminator.
    let text := evp.encodeBlock (buffer.take len.toNat)
    let result := List.replicate (evp.encodedLength len.toNat) 0
    (writeAt result 0 (text ++ [0])).map (resize text.length)

/-- `Base64Decode` with the buffer for its result. -/
def decodeInto (evp : Evp) (maxDecodeLen : Nat) (input : Bytes) : Option Bytes :=
  let result := List.replicate maxDecodeLen 0
  match evp.decodeBase64 maxDecodeLen input with
  | some bytes => (writeAt result 0 bytes).map (resize bytes.length)
  | none => some []

/-- If `EVP_DecodedLength` fails, `max_decode_len` stays 0. -/
def base64Decode (evp : Evp) (buffer : Bytes) : Option Bytes :=
  let len := int32 buffer.length
  let maxDecodeLen := evp.decodedLength (sizeT len)
  if len < 0 then
    -- No string has the length, and `EVP_DecodeBase64` tests it before it reads.
    if maxDecodeLen.isSome then none else some []
  else decodeInto evp (maxDecodeLen.getD 0) (buffer.take len.toNat)

/-- `replace_all` for a search string of one character. -/
def replaceAll (search : Char) (format : List Char) (text : Bytes) : Bytes :=
  text.flatMap fun c => if c = search.toUInt8 then format.map Char.toUInt8 else [c]

def base64EncodeUrlSafe (evp : Evp) (buffer : Bytes) : Option Bytes :=
  (base64Encode evp buffer).map fun text =>
    replaceAll '=' [] (replaceAll '/' ['_'] (replaceAll '+' ['-'] text))

def plainChar (c : UInt8) : UInt8 :=
  if c = '-'.toUInt8 then '+'.toUInt8 else if c = '_'.toUInt8 then '/'.toUInt8 else c

/-- A URL-safe text in the characters of plain Base64, padded to a multiple of four. -/
def plainBase64 (text : Bytes) : Bytes :=
  text.map plainChar ++ List.replicate ((4 - text.length % 4) % 4) '='.toUInt8

def isUrlSafe (c : UInt8) : Bool := isAlnum c || c == '-'.toUInt8 || c == '_'.toUInt8

/-! ### The two functions on texts that fit -/

variable {evp : Evp}

theorem base64Encode_eq (standard : evp.Standard) {buffer : Bytes}
    (small : buffer.length < 2 ^ 31) :
    base64Encode evp buffer = some (encode64 buffer) := by
  have room : (encode64 buffer ++ [0]).length = evp.encodedLength buffer.length := by
    rw [standard.encodedLength, List.length_append, encode64_length, List.length_singleton,
      Nat.mul_comm]
  unfold base64Encode
  simp only [int32_small small, Int.toNat_natCast, List.take_length, standard.encodeBlock]
  rw [if_neg (by omega), writeAt_front (by rw [List.length_replicate, room]), Option.map_some,
    List.append_assoc, resize_append]

theorem base64Decode_small {text : Bytes} (small : text.length < 2 ^ 31) :
    base64Decode evp text = decodeInto evp ((evp.decodedLength text.length).getD 0) text := by
  have size : sizeT text.length = text.length := by
    unfold sizeT
    omega
  unfold base64Decode
  simp only [int32_small small, size, Int.toNat_natCast, List.take_length]
  exact if_neg (by omega)

theorem base64Decode_eq (standard : evp.Standard) {text : Bytes} (small : text.length < 2 ^ 31)
    (groups : text.length % 4 = 0) :
    base64Decode evp text = some ((decode64 text).getD []) := by
  rw [base64Decode_small small, standard.decodedLength _ groups, decodeInto, Option.getD_some,
    standard.decodeBase64 _ _ groups (Nat.le_refl _)]
  cases read : decode64 text with
  | none => rfl
  | some bytes =>
    have fits := decode64_length_le read
    simp only [Option.getD_some]
    rw [writeAt_front (by rwa [List.length_replicate]), Option.map_some, resize_append]

/-- A text that is no whole number of groups is decoded to nothing. -/
theorem base64Decode_ragged (standard : evp.Standard) {text : Bytes}
    (small : text.length < 2 ^ 31) (ragged : text.length % 4 ≠ 0) : base64Decode evp text = some [] := by
  rw [base64Decode_small small, decodeInto, standard.ragged _ _ ragged]

theorem base64Decode_encode64 (standard : evp.Standard) {data : Bytes}
    (small : data.length < 2 ^ 30) :
    base64Decode evp (encode64 data) = some data := by
  have length := encode64_length data
  rw [base64Decode_eq standard (by omega) (by omega), decode64_encode64, Option.getD_some]

/-- The functions as RFC 4648 has them. -/
def rfc4648 : Evp where
  encodedLength len := (len + 2) / 3 * 4 + 1
  encodeBlock := encode64
  decodedLength len := if len % 4 = 0 then some (len / 4 * 3) else none
  decodeBase64 maxOut input :=
    if input.length % 4 ≠ 0 ∨ maxOut < input.length / 4 * 3 then none else decode64 input

theorem rfc4648_standard : rfc4648.Standard where
  encodedLength _ := rfl
  encodeBlock _ := rfl
  decodedLength _ groups := if_pos groups
  ragged _ _ ragged := if_pos (.inl ragged)
  decodeBase64 maxOut input groups room := if_neg (by omega)

/-! ### The URL-safe text -/

def urlSafe (c : UInt8) : UInt8 :=
  if c = '+'.toUInt8 then '-'.toUInt8 else if c = '/'.toUInt8 then '_'.toUInt8 else c

theorem replaceAll_cons (search : Char) (format : List Char) (c : UInt8) (text : Bytes) :
    replaceAll search format (c :: text) =
      (if c = search.toUInt8 then format.map Char.toUInt8 else [c]) ++
        replaceAll search format text :=
  rfl

/-- The three replacements leave out every `=` and change the other characters one by one. -/
theorem replaceAll_eq (text : Bytes) :
    replaceAll '=' [] (replaceAll '/' ['_'] (replaceAll '+' ['-'] text)) =
      (text.filter (· != '='.toUInt8)).map urlSafe := by
  induction text with
  | nil => rfl
  | cons c text ih =>
    by_cases plus : c = '+'.toUInt8
    · subst plus
      rw [replaceAll_cons, if_pos rfl]
      exact congrArg ('-'.toUInt8 :: ·) ih
    · rw [replaceAll_cons, if_neg plus]
      by_cases slash : c = '/'.toUInt8
      · subst slash
        exact congrArg ('_'.toUInt8 :: ·) ih
      · rw [List.singleton_append, replaceAll_cons, if_neg slash, List.singleton_append,
          replaceAll_cons, ih]
        by_cases pad : c = '='.toUInt8
        · simp [pad]
        · simp [pad, urlSafe, plus, slash]

theorem digit64_urlSafe {n : Nat} (small : n < 64) :
    digit64 n ≠ '='.toUInt8 ∧ isUrlSafe (urlSafe (digit64 n)) = true ∧
      plainChar (urlSafe (digit64 n)) = digit64 n := by
  have all : ∀ n : Fin 64, digit64 n ≠ '='.toUInt8 ∧ isUrlSafe (urlSafe (digit64 n)) = true ∧
      plainChar (urlSafe (digit64 n)) = digit64 n := by
    decide
  exact all ⟨n, small⟩

theorem urlSafe_encode64 (buffer : Bytes) :
    ((encode64 buffer).filter (· != '='.toUInt8)).map urlSafe = (sextets buffer).map fun n =>
      urlSafe (digit64 n) := by
  have kept : ((sextets buffer).map digit64).filter (· != '='.toUInt8) =
      (sextets buffer).map digit64 := by
    apply List.filter_eq_self.mpr
    intro c mem
    obtain ⟨n, member, rfl⟩ := List.mem_map.mp mem
    exact bne_iff_ne.mpr (digit64_urlSafe (sextets_lt buffer n member)).1
  have dropped (k : Nat) : (List.replicate k pad64).filter (· != '='.toUInt8) = [] := by
    apply List.filter_eq_nil_iff.mpr
    intro c mem
    rw [List.eq_of_mem_replicate mem]
    decide
  rw [encode64, List.filter_append, kept, dropped, List.append_nil, List.map_map]
  rfl

theorem base64EncodeUrlSafe_eq (standard : evp.Standard) {buffer : Bytes}
    (small : buffer.length < 2 ^ 31) :
    base64EncodeUrlSafe evp buffer = some ((sextets buffer).map fun n => urlSafe (digit64 n)) := by
  rw [base64EncodeUrlSafe, base64Encode_eq standard small, Option.map_some, replaceAll_eq,
    urlSafe_encode64]

/-- The padding can be told from the number of digits. -/
theorem plainBase64_sextets (buffer : Bytes) :
    plainBase64 ((sextets buffer).map fun n => urlSafe (digit64 n)) = encode64 buffer := by
  have digits : ((sextets buffer).map fun n => urlSafe (digit64 n)).map plainChar =
      (sextets buffer).map digit64 := by
    rw [List.map_map]
    apply List.map_congr_left
    intro n mem
    exact (digit64_urlSafe (sextets_lt buffer n mem)).2.2
  have missing : (4 - (sextets buffer).length % 4) % 4 = padding buffer.length := by
    have groups := sextets_length buffer
    have few : padding buffer.length < 3 := Nat.mod_lt _ (by decide)
    omega
  rw [plainBase64, digits, List.length_map, missing]
  rfl

/-- What `Base64EncodeUrlSafe` leaves out can be put back, if the library keeps to RFC 4648. -/
theorem urlSafe_roundTrip (standard : evp.Standard) {buffer : Bytes}
    (small : buffer.length < 2 ^ 30) :
    ∃ text, base64EncodeUrlSafe evp buffer = some text ∧ (∀ c ∈ text, isUrlSafe c = true) ∧
      text.length % 4 ≠ 1 ∧ base64Decode evp (plainBase64 text) = some buffer := by
  refine ⟨_, base64EncodeUrlSafe_eq standard (by omega), ?_, ?_, ?_⟩
  · intro c mem
    obtain ⟨n, member, rfl⟩ := List.mem_map.mp mem
    exact (digit64_urlSafe (sextets_lt buffer n member)).2.1
  · have groups := sextets_length buffer
    have few : padding buffer.length < 3 := Nat.mod_lt _ (by decide)
    rw [List.length_map]
    omega
  · rw [plainBase64_sextets, base64Decode_encode64 standard small]

/-- Every digit of the alphabet that is not a letter or a number, and padding. -/
theorem urlSafe_roundTrip_padded :
    ∃ text, base64EncodeUrlSafe rfc4648 [251, 255, 191, 0] = some text ∧
      (∀ c ∈ text, isUrlSafe c = true) ∧ text.length % 4 ≠ 1 ∧
      base64Decode rfc4648 (plainBase64 text) = some [251, 255, 191, 0] :=
  urlSafe_roundTrip rfc4648_standard (by decide)

end Kingkong.Crypto
