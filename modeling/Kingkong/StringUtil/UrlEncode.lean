import Kingkong.Lib.Ascii

/-!
`URLEncode`, and the decoder of form-urlencoded text that it is written for.
-/

namespace Kingkong.StringUtil
open Lib

def sHexDataMap3 : Bytes :=
  ['0', '1', '2', '3', '4', '5', '6', '7', '8', '9', 'a', 'b', 'c', 'd', 'e', 'f'].map Char.toUInt8

/-- The characters that stand for themselves. `isalnum` is that of the C locale. -/
def isPlain (c : UInt8) : Bool := isAlnum c || c == '.'.toUInt8 || c == '~'.toUInt8

/-- What a round of the loop appends to the result. -/
def encodeChar (c : UInt8) : Bytes :=
  if isPlain c then [c]
  else if c = ' '.toUInt8 then ['+'.toUInt8]
  else ['%'.toUInt8, sHexDataMap3.getD ((c >>> 4) &&& 15).toNat 0, sHexDataMap3.getD (c &&& 15).toNat 0]

def urlEncode (str : Bytes) : Bytes := str.foldl (fun result c => result ++ encodeChar c) []

/-- The form-urlencoding rules, with no result for a `%` that two digits do not follow. -/
def formDecode : Bytes → Option Bytes
  | [] => some []
  | c :: rest =>
    if c = '+'.toUInt8 then (formDecode rest).map (' '.toUInt8 :: ·)
    else if c = '%'.toUInt8 then
      match rest with
      | high :: low :: rest =>
        match hexValue high, hexValue low with
        | some high, some low => (formDecode rest).map (UInt8.ofNat (16 * high + low) :: ·)
        | _, _ => none
      | _ => none
    else (formDecode rest).map (c :: ·)

def isUrlSafe (c : UInt8) : Bool :=
  isAlnum c || c == '.'.toUInt8 || c == '~'.toUInt8 || c == '+'.toUInt8 || c == '%'.toUInt8

theorem urlEncode_eq (str : Bytes) : urlEncode str = str.flatMap encodeChar := by
  suffices general : ∀ result, str.foldl (fun result c => result ++ encodeChar c) result =
      result ++ str.flatMap encodeChar from general []
  induction str with
  | nil => simp
  | cons c str ih =>
    intro result
    rw [List.foldl_cons, ih, List.append_assoc, List.flatMap_cons]

/-! ### What the decoder reads -/

theorem formDecode_nil : formDecode [] = some [] := rfl

theorem formDecode_plain {c : UInt8} (plain : isPlain c = true) (rest : Bytes) :
    formDecode (c :: rest) = (formDecode rest).map (c :: ·) := by
  have plus : c ≠ '+'.toUInt8 := by
    rintro rfl
    exact absurd plain (by decide)
  have percent : c ≠ '%'.toUInt8 := by
    rintro rfl
    exact absurd plain (by decide)
  rw [formDecode.eq_def]
  exact (if_neg plus).trans (if_neg percent)

theorem formDecode_plus (rest : Bytes) :
    formDecode ('+'.toUInt8 :: rest) = (formDecode rest).map (' '.toUInt8 :: ·) := by
  rw [formDecode.eq_def]
  exact if_pos rfl

theorem formDecode_percent {high low : UInt8} {h l : Nat} (highValue : hexValue high = some h)
    (lowValue : hexValue low = some l) (rest : Bytes) :
    formDecode ('%'.toUInt8 :: high :: low :: rest) =
      (formDecode rest).map (UInt8.ofNat (16 * h + l) :: ·) := by
  rw [formDecode, if_neg (by decide), if_pos rfl, highValue, lowValue]

theorem sHexDataMap3_value (c : UInt8) :
    hexValue (sHexDataMap3.getD ((c >>> 4) &&& 15).toNat 0) = some (c.toNat / 16) ∧
      hexValue (sHexDataMap3.getD (c &&& 15).toNat 0) = some (c.toNat % 16) := by
  revert c
  apply forall_byte
  decide

theorem formDecode_encodeChar (c : UInt8) (rest : Bytes) :
    formDecode (encodeChar c ++ rest) = (formDecode rest).map (c :: ·) := by
  unfold encodeChar
  split
  · rename_i plain
    exact formDecode_plain plain rest
  · split
    · rename_i blank
      subst blank
      exact formDecode_plus rest
    · obtain ⟨high, low⟩ := sHexDataMap3_value c
      have escaped := formDecode_percent high low rest
      rwa [Nat.div_add_mod, UInt8.ofNat_toNat] at escaped

theorem formDecode_urlEncode (str : Bytes) : formDecode (urlEncode str) = some str := by
  rw [urlEncode_eq]
  exact decode_flatMap formDecode_nil formDecode_encodeChar str

theorem isUrlSafe_of_isAlnum {c : UInt8} (alnum : isAlnum c = true) : isUrlSafe c = true := by
  simp [isUrlSafe, alnum]

theorem encodeChar_urlSafe (c : UInt8) : ∀ x ∈ encodeChar c, isUrlSafe x = true := by
  obtain ⟨high, low⟩ := sHexDataMap3_value c
  unfold encodeChar
  split
  · rename_i plain
    rw [List.forall_mem_singleton]
    simp only [isUrlSafe, isPlain, Bool.or_eq_true] at plain ⊢
    exact .inl (.inl plain)
  · split
    · exact List.forall_mem_singleton.mpr (by decide)
    · refine List.forall_mem_cons.mpr ⟨by decide, List.forall_mem_cons.mpr ⟨?_, List.forall_mem_singleton.mpr ?_⟩⟩
      · exact isUrlSafe_of_isAlnum (hexValue_isAlnum high)
      · exact isUrlSafe_of_isAlnum (hexValue_isAlnum low)

/-- What `URLEncode` writes is decoded to its argument, and has only characters that are safe in a
URL. -/
theorem urlEncode_decodable :
    (∀ str : Bytes, formDecode (urlEncode str) = some str ∧ ∀ c ∈ urlEncode str,
      isUrlSafe c = true) ∧ Function.Injective urlEncode := by
  constructor
  · intro str
    refine ⟨formDecode_urlEncode str, ?_⟩
    intro x mem
    rw [urlEncode_eq] at mem
    obtain ⟨c, _, written⟩ := List.mem_flatMap.mp mem
    exact encodeChar_urlSafe c x written
  · intro first second same
    have decoded := formDecode_urlEncode first
    rw [same, formDecode_urlEncode] at decoded
    exact (Option.some.inj decoded).symm

end Kingkong.StringUtil
