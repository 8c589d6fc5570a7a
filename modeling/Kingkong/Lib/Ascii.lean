import Kingkong.Lib.Bytes

/-!
ASCII characters as bytes: their classes, their case and the values of hexadecimal digits.
-/

namespace Kingkong.Lib

/-- A byte is two hexadecimal digits, so a statement about all bytes has sixteen times sixteen
cases. -/
theorem forall_byte {P : UInt8 → Prop}
    (all : ∀ high low : Fin 16, P (UInt8.ofNat (16 * high + low))) (c : UInt8) :
    P c := by
  have small := c.toNat_lt
  have digits := all ⟨c.toNat / 16, by omega⟩ ⟨c.toNat % 16, by omega⟩
  rwa [Nat.div_add_mod, UInt8.ofNat_toNat] at digits

def isDigit (c : UInt8) : Bool := 48 ≤ c && c ≤ 57

def isUpper (c : UInt8) : Bool := 65 ≤ c && c ≤ 90

def isLower (c : UInt8) : Bool := 97 ≤ c && c ≤ 122

def isAlnum (c : UInt8) : Bool := isDigit c || isUpper c || isLower c

def toUpper (c : UInt8) : UInt8 := if isLower c then c - 32 else c

def toLower (c : UInt8) : UInt8 := if isUpper c then c + 32 else c

/-- The value of a hexadecimal digit of either case. -/
def hexValue (c : UInt8) : Option Nat :=
  if isDigit c then some (c.toNat - 48)
  else if 65 ≤ c ∧ c ≤ 70 then some (c.toNat - 55)
  else if 97 ≤ c ∧ c ≤ 102 then some (c.toNat - 87)
  else none

theorem hexValue_lt (c : UInt8) : ∀ n ∈ hexValue c, n < 16 := by
  revert c
  apply forall_byte
  decide

theorem hexValue_isAlnum {c : UInt8} {n : Nat} (value : hexValue c = some n) :
    isAlnum c = true := by
  unfold hexValue at value
  simp only [isAlnum, isUpper, isLower, Bool.or_eq_true, Bool.and_eq_true, decide_eq_true_eq,
    UInt8.le_iff_toNat_le] at value ⊢
  split at value
  · rename_i digit
    exact .inl (.inl digit)
  · split at value
    · rename_i upper
      exact .inl (.inr ⟨upper.1, Nat.le_trans upper.2 (by decide)⟩)
    · split at value
      · rename_i lower
        exact .inr ⟨lower.1, Nat.le_trans lower.2 (by decide)⟩
      · cases value

/-- The bytes that a text of hexadecimal digits stands for, two digits a byte. -/
def ofHex : Bytes → Option Bytes
  | [] => some []
  | [_] => none
  | high :: low :: rest =>
    match hexValue high, hexValue low, ofHex rest with
    | some high, some low, some rest => some (UInt8.ofNat (16 * high + low) :: rest)
    | _, _, _ => none

theorem ofHex_nil : ofHex [] = some [] := rfl

theorem ofHex_append {first second : Bytes} (even : first.length % 2 = 0) :
    ofHex (first ++ second) = (ofHex first).bind fun bytes => (ofHex second).map (bytes ++ ·) := by
  fun_induction ofHex first with
  | case1 => simp
  | case2 c => simp at even
  | case3 high low rest h l bytes read lowValue highValue ih =>
    rw [List.cons_append, List.cons_append, ofHex, highValue, lowValue,
      ih (by simp at even; omega), read]
    cases ofHex second <;> rfl
  | case4 high low rest bad ih =>
    rw [List.cons_append, List.cons_append, ofHex, ih (by simp at even; omega)]
    split
    · rename_i h l bytes highValue lowValue read
      obtain ⟨front, read, _⟩ := Option.bind_eq_some_iff.mp read
      exact absurd read (bad h l front highValue lowValue)
    · rfl

theorem ofHex_isSome_iff (text : Bytes) :
    (ofHex text).isSome ↔ text.length % 2 = 0 ∧ ∀ c ∈ text, (hexValue c).isSome := by
  fun_induction ofHex text with
  | case1 => simp
  | case2 c => simp
  | case3 high low rest h l bytes read lowValue highValue ih =>
    rw [read] at ih
    have even : rest.length % 2 = 0 := (ih.mp rfl).1
    have digits := (ih.mp rfl).2
    simp only [Option.isSome_some, true_iff, List.length_cons, List.forall_mem_cons, highValue,
      lowValue, true_and]
    exact ⟨by omega, digits⟩
  | case4 high low rest bad ih =>
    simp only [Option.isSome_none, Bool.false_eq_true, false_iff, List.length_cons,
      List.forall_mem_cons]
    rintro ⟨even, highDigit, lowDigit, digits⟩
    obtain ⟨h, highValue⟩ := Option.isSome_iff_exists.mp highDigit
    obtain ⟨l, lowValue⟩ := Option.isSome_iff_exists.mp lowDigit
    obtain ⟨bytes, read⟩ := Option.isSome_iff_exists.mp (ih.mpr ⟨by omega, digits⟩)
    exact bad h l bytes highValue lowValue read

end Kingkong.Lib
