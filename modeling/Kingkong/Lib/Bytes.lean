import Mathlib.Algebra.Ring.Int.Defs
import Mathlib.Algebra.Ring.Nat
import Mathlib.Data.List.Basic

/-!
Byte strings: numbers in network order, buffers that are written in pieces, the bytes of an array,
texts that are put together without a separator, and texts that are taken apart at their separators.
-/

namespace Kingkong.Lib

abbrev Bytes := List UInt8

/-- The low `n` bytes of `x`, the highest of them first. -/
def bigEndian : Nat → Nat → Bytes
  | 0, _ => []
  | n + 1, x => bigEndian n (x / 256) ++ [UInt8.ofNat x]

def ofBigEndian (bytes : Bytes) : Nat := bytes.foldl (fun high byte => high * 256 + byte.toNat) 0

@[simp] theorem bigEndian_length (n x : Nat) : (bigEndian n x).length = n := by
  induction n generalizing x with
  | zero => rfl
  | succ n ih => simp [bigEndian, ih]

theorem ofBigEndian_bigEndian {n x : Nat} (small : x < 256 ^ n) :
    ofBigEndian (bigEndian n x) = x := by
  induction n generalizing x with
  | zero => simp [bigEndian, ofBigEndian]; omega
  | succ n ih =>
    have high := ih (x := x / 256) (by rw [Nat.pow_succ] at small; omega)
    unfold ofBigEndian at high ⊢
    simp only [bigEndian, List.foldl_append, List.foldl_cons, List.foldl_nil, high,
      UInt8.toNat_ofNat']
    omega

theorem ofBigEndian_lt (bytes : Bytes) : ofBigEndian bytes < 256 ^ bytes.length := by
  suffices below : ∀ high, bytes.foldl (fun high byte => high * 256 + byte.toNat) high < (high + 1) * 256 ^ bytes.length by
    have most := below 0
    rwa [Nat.zero_add, Nat.one_mul] at most
  induction bytes with
  | nil => intro high; exact Nat.lt_of_lt_of_eq (Nat.lt_succ_self high) (Nat.mul_one _).symm
  | cons byte bytes ih =>
    intro high
    have small := byte.toNat_lt
    have next : high * 256 + byte.toNat + 1 ≤ (high + 1) * 256 := by omega
    calc bytes.foldl (fun high byte => high * 256 + byte.toNat) (high * 256 + byte.toNat)
        < (high * 256 + byte.toNat + 1) * 256 ^ bytes.length := ih _
      _ ≤ (high + 1) * 256 * 256 ^ bytes.length := Nat.mul_le_mul_right _ next
      _ = (high + 1) * 256 ^ (byte :: bytes).length := by
        rw [List.length_cons, Nat.pow_succ', Nat.mul_assoc]

/-- A length that is passed as a signed number of 32 bits. -/
def int32 (length : Nat) : Int := Int.bmod length (2 ^ 32)

theorem int32_small {length : Nat} (small : length < 2 ^ 31) : int32 length = length := by
  unfold int32
  rw [Int.bmod_eq_of_le] <;> omega

/-! ### A buffer that is written in pieces -/

/-- The first `n` bytes, with zeros for the ones that are missing. -/
def resize (n : Nat) (data : Bytes) : Bytes := data.take n ++ List.replicate (n - data.length) 0

@[simp] theorem resize_length (n : Nat) (data : Bytes) : (resize n data).length = n := by
  simp [resize]
  omega

theorem resize_append (front rest : Bytes) : resize front.length (front ++ rest) = front := by
  simp [resize]

/-- `piece` over the bytes of `data` from `offset` on, if they are all there. -/
def writeAt (data : Bytes) (offset : Int) (piece : Bytes) : Option Bytes :=
  if 0 ≤ offset ∧ offset + piece.length ≤ data.length then
    some (data.take offset.toNat ++ piece ++ data.drop (offset.toNat + piece.length))
  else none

/-- A piece that is written behind what is already there. -/
theorem writeAt_append {front rest piece : Bytes} {offset : Int} (behind : offset = front.length)
    (fits : piece.length ≤ rest.length) :
    writeAt (front ++ rest) offset piece = some (front ++ piece ++ rest.drop piece.length) := by
  subst behind
  unfold writeAt
  rw [if_pos (by simp only [List.length_append]; omega)]
  simp [List.drop_append]

theorem writeAt_front {data piece : Bytes} (fits : piece.length ≤ data.length) :
    writeAt data 0 piece = some (piece ++ data.drop piece.length) :=
  @writeAt_append [] data piece 0 rfl fits

/-- A code can be told from whatever follows it exactly when it is free of prefixes. -/
theorem append_injective_iff {α β : Type} {code : α → List β} {used : α → Prop} :
    (∀ a b, used a → used b → ∀ x y, code a ++ x = code b ++ y → a = b ∧ x = y) ↔
      ∀ a b, used a → used b → code a <+: code b → a = b := by
  constructor
  · rintro apart a b usedA usedB ⟨rest, same⟩
    exact (apart a b usedA usedB rest [] (by rw [same, List.append_nil])).1
  · intro free a b usedA usedB x y same
    have equal : a = b := by
      have first : code a <+: code b ++ y := ⟨x, same⟩
      rcases List.prefix_or_prefix_of_prefix first (List.prefix_append _ _) with shorter | longer
      · exact free a b usedA usedB shorter
      · exact (free b a usedB usedA longer).symm
    subst equal
    exact ⟨rfl, List.append_cancel_left same⟩

/-- A decoder that reads one code in front of any rest reads a whole text of codes. -/
theorem decode_flatMap {α β : Type} {code : α → List β} {decode : List β → Option (List α)}
    (none : decode [] = some [])
    (each : ∀ a rest, decode (code a ++ rest) = (decode rest).map (a :: ·)) (text : List α) :
    decode (text.flatMap code) = some text := by
  induction text with
  | nil => exact none
  | cons a text ih => rw [List.flatMap_cons, each, ih, Option.map_some]

/-! ### A text that is cut at a delimiter -/

/-- A text is cut where its first part ends if the second begins with a delimiter. -/
theorem cut_append {α : Type} {p : α → Bool} (first second : List α)
    (inside : ∀ x ∈ first, p x = true) (stop : ∀ x ∈ second.head?, p x = false) :
    (first ++ second).takeWhile p = first ∧ (first ++ second).dropWhile p = second := by
  rw [List.takeWhile_append_of_pos inside, List.dropWhile_append_of_pos inside]
  cases second with
  | nil => simp
  | cons x rest => simp [stop x rfl]

theorem cut_at {α : Type} [BEq α] [LawfulBEq α] (stop : α) (first second : List α)
    (free : stop ∉ first) (begins : ∀ x ∈ second.head?, x = stop) :
    (first ++ second).takeWhile (· != stop) = first ∧
      (first ++ second).dropWhile (· != stop) = second := by
  apply cut_append
  · intro x mem
    rw [bne_iff_ne]
    rintro rfl
    exact free mem
  · intro x mem
    rw [begins x mem, bne_self_eq_false]

section

variable {α : Type} {p : α → Bool}

/-- The pieces of a text between separators, without the empty ones. -/
def words (p : α → Bool) (text : List α) : List (List α) := (text.splitOnP p).filter (!·.isEmpty)

theorem words_nil : words p [] = [] := by simp [words]

theorem words_separators (pad rest : List α) (all : ∀ x ∈ pad, p x = true) :
    words p (pad ++ rest) = words p rest := by
  induction pad with
  | nil => rfl
  | cons x pad ih =>
    have separator := all x List.mem_cons_self
    rw [List.cons_append, ← ih fun y mem => all y (List.mem_cons_of_mem x mem)]
    simp [words, List.splitOnP_cons_eq_if_modifyHead, separator]

/-- The first word is everything before the first separator. -/
theorem words_append (word rest : List α) (nonempty : word ≠ []) (inside : ∀ x ∈ word, p x = false)
    (stop : ∀ x ∈ rest.head?, p x = true) : words p (word ++ rest) = word :: words p rest := by
  cases rest with
  | nil =>
    rw [List.append_nil, words, List.splitOnP_eq_singleton inside, words_nil]
    simp [nonempty]
  | cons x rest =>
    have separator := stop x rfl
    have skipped := words_separators [x] rest (by simpa using separator)
    rw [List.singleton_append] at skipped
    rw [skipped, words, List.splitOnP_append_cons_of_forall_mem inside x separator,
      List.filter_cons_of_pos (by simp [nonempty]), ← words]

end

end Kingkong.Lib
