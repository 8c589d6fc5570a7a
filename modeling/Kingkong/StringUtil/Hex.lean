import Kingkong.Lib.Ascii

/-!
`BinToHex` and `HexToBin`. Both write into a string that already has its final size, and
`hex_string_to_bytes` leaves what it has written when it finds a character that is no digit. Strings
are never null, so the tests of the pointers are left out.
-/

namespace Kingkong.StringUtil
open Lib

/-! ### Bytes to digits -/

def sHexDataMap : Bytes :=
  ['0', '1', '2', '3', '4', '5', '6', '7', '8', '9', 'A', 'B', 'C', 'D', 'E', 'F'].map Char.toUInt8

/-- The two characters that `byte_to_hex` writes. -/
def byteToHex (data : UInt8) : Bytes :=
  let h1 := (data &&& 0xF0) >>> 4
  let h2 := data &&& 0xF
  [sHexDataMap.getD h1.toNat 0, sHexDataMap.getD h2.toNat 0]

def putByte (bin result : Bytes) (i : Nat) : Option Bytes :=
  writeAt result (i * 2 : Nat) (byteToHex (bin.getD i 0))

/-- There is no result when `len * 2` overflows an `int` or is not the size of any string. -/
def binToHex (bin : Bytes) : Option Bytes :=
  let len := int32 bin.length
  if 0 ≤ len ∧ len * 2 < 2 ^ 31 then
    (List.range len.toNat).foldlM (putByte bin) (List.replicate (len.toNat * 2) '*'.toUInt8)
  else none

@[simp] theorem byteToHex_length (data : UInt8) : (byteToHex data).length = 2 := rfl

theorem digits_length (bin : Bytes) : (bin.flatMap byteToHex).length = bin.length * 2 := by
  induction bin with
  | nil => rfl
  | cons data bin ih => rw [List.flatMap_cons, List.length_append, ih, byteToHex_length, List.length_cons]; omega

theorem take_succ_getD (text : Bytes) {n : Nat} (inside : n < text.length) :
    text.take (n + 1) = text.take n ++ [text.getD n 0] := by
  have here : text.getD n 0 = text[n] := by simp [inside]
  rw [here, List.take_append_getElem]

/-- After `n` rounds the digits of the first `n` bytes stand in front of what is left of the
string. -/
theorem putByte_rounds (bin result : Bytes) (room : result.length = bin.length * 2) {n : Nat}
    (inside : n ≤ bin.length) :
    (List.range n).foldlM (putByte bin) result =
      some ((bin.take n).flatMap byteToHex ++ result.drop (n * 2)) := by
  induction n with
  | zero => simp
  | succ n ih =>
    have front : ((n * 2 : Nat) : Int) = ((bin.take n).flatMap byteToHex).length := by
      rw [digits_length, List.length_take, Nat.min_eq_left (by omega)]
    have next : (bin.take (n + 1)).flatMap byteToHex =
        (bin.take n).flatMap byteToHex ++ byteToHex (bin.getD n 0) := by
      rw [take_succ_getD bin (by omega), List.flatMap_append, List.flatMap_singleton]
    rw [List.range_succ, List.foldlM_append, ih (by omega)]
    simp only [Option.bind_eq_bind, Option.bind_some, List.foldlM_cons, List.foldlM_nil, putByte]
    rw [writeAt_append front (by rw [byteToHex_length, List.length_drop]; omega), next,
      byteToHex_length, List.drop_drop]
    simp [Nat.succ_mul]

theorem binToHex_eq {bin : Bytes} (small : bin.length < 2 ^ 30) :
    binToHex bin = some (bin.flatMap byteToHex) := by
  unfold binToHex
  rw [int32_small (by omega), if_pos (by omega), Int.toNat_natCast,
    putByte_rounds bin _ List.length_replicate (Nat.le_refl _), List.take_length, List.drop_replicate, Nat.sub_self,
    List.replicate_zero, List.append_nil]

/-! ### Digits to bytes -/

def hexToInt (ch : UInt8) : Int :=
  if '0'.toUInt8 ≤ ch ∧ ch ≤ '9'.toUInt8 then ch.toNat - '0'.toNat
  else if 'A'.toUInt8 ≤ ch ∧ ch ≤ 'F'.toUInt8 then ch.toNat - 'A'.toNat + 10
  else if 'a'.toUInt8 ≤ ch ∧ ch ≤ 'f'.toUInt8 then ch.toNat - 'a'.toNat + 10
  else -1

/-- A round of the loop in `hex_string_to_bytes`. An error is `return -1`, with the buffer as it is
then. -/
def takeByte (hexBuffer buffer : Bytes) (i : Nat) : Except Bytes Bytes :=
  let h1 := hexToInt (hexBuffer.getD (i * 2) 0)
  if h1 < 0 then .error buffer
  else
    let h2 := hexToInt (hexBuffer.getD (i * 2 + 1) 0)
    if h2 < 0 then .error buffer
    else .ok (buffer.set i (UInt8.ofNat (h1.toNat <<< 4 ||| h2.toNat)))

def hexStringToBytes (hexBuffer : Bytes) (hexLen : Nat) (buffer : Bytes) (bufferLen : Nat) :
    Int × Bytes :=
  if hexLen % 2 ≠ 0 then (-1, buffer)
  else
    let nbytes := hexLen / 2
    if bufferLen < nbytes then (-1, buffer)
    else
      match (List.range nbytes).foldlM (takeByte hexBuffer) buffer with
      | .ok buffer => (nbytes, buffer)
      | .error buffer => (-1, buffer)

/-- The lengths are passed as `unsigned int`. -/
def hexToBin (hex : Bytes) : Bytes :=
  let ret := List.replicate (hex.length / 2) 0
  let (len, ret) := hexStringToBytes hex (hex.length % 2 ^ 32) ret (ret.length % 2 ^ 32)
  if len = -1 then [] else resize len.toNat ret

theorem hexToInt_eq (ch : UInt8) :
    hexToInt ch = match hexValue ch with | some n => (n : Int) | none => -1 := by
  revert ch
  apply forall_byte
  decide

theorem takeByte_eq (hexBuffer buffer : Bytes) (i : Nat) :
    takeByte hexBuffer buffer i =
      match hexValue (hexBuffer.getD (i * 2) 0), hexValue (hexBuffer.getD (i * 2 + 1) 0) with
      | some h1, some h2 => .ok (buffer.set i (UInt8.ofNat (16 * h1 + h2)))
      | _, _ => .error buffer := by
  unfold takeByte
  rw [hexToInt_eq, hexToInt_eq]
  cases hexValue (hexBuffer.getD (i * 2) 0) with
  | none => rfl
  | some h1 =>
    cases low : hexValue (hexBuffer.getD (i * 2 + 1) 0) with
    | none => simp
    | some h2 =>
      have digit : h2 < 2 ^ 4 := hexValue_lt _ h2 low
      have joined : h1 <<< 4 ||| h2 = 16 * h1 + h2 := by
        rw [← Nat.shiftLeft_add_eq_or_of_lt digit, Nat.shiftLeft_eq]
        omega
      simp only [Int.toNat_natCast, joined]
      rw [if_neg (by omega), if_neg (by omega)]

theorem take_pair (hex : Bytes) {n : Nat} (inside : (n + 1) * 2 ≤ hex.length) :
    hex.take ((n + 1) * 2) = hex.take (n * 2) ++ [hex.getD (n * 2) 0, hex.getD (n * 2 + 1) 0] := by
  rw [Nat.succ_mul, take_succ_getD hex (by omega), take_succ_getD hex (by omega), List.append_assoc,
    List.singleton_append]

/-- After `n` rounds the buffer begins with the bytes of the first `n` pairs, unless one is no pair
of digits. -/
theorem takeByte_rounds (hex buffer : Bytes) (room : buffer.length * 2 ≤ hex.length) {n : Nat}
    (inside : n ≤ buffer.length) :
    match ofHex (hex.take (n * 2)) with
    | some bytes => bytes.length = n ∧
      (List.range n).foldlM (takeByte hex) buffer = .ok (bytes ++ buffer.drop n)
    | none => ∃ written, (List.range n).foldlM (takeByte hex) buffer = .error written := by
  induction n with
  | zero => simp [ofHex, pure, Except.pure]
  | succ n ih =>
    have before := ih (by omega)
    have even : (hex.take (n * 2)).length % 2 = 0 := by
      rw [List.length_take, Nat.min_eq_left (by omega)]
      omega
    rw [take_pair hex (by omega), ofHex_append even, List.range_succ, List.foldlM_append]
    cases read : ofHex (hex.take (n * 2)) with
    | none =>
      rw [read] at before
      obtain ⟨written, stopped⟩ := before
      rw [stopped]
      exact ⟨written, rfl⟩
    | some bytes =>
      rw [read] at before
      obtain ⟨length, filled⟩ := before
      rw [filled]
      have round : List.foldlM (takeByte hex) (bytes ++ buffer.drop n) [n] =
          takeByte hex (bytes ++ buffer.drop n) n := by
        simp
      simp only [bind, Except.bind, round, takeByte_eq, ofHex, Option.bind]
      cases hexValue (hex.getD (n * 2) 0) with
      | none => exact ⟨_, rfl⟩
      | some h1 =>
        cases hexValue (hex.getD (n * 2 + 1) 0) with
        | none => exact ⟨_, rfl⟩
        | some h2 =>
          refine ⟨by simp [length], congrArg Except.ok ?_⟩
          have here : n < buffer.length := by omega
          rw [List.drop_eq_getElem_cons here, List.set_append_right _ _ (by omega), length,
            Nat.sub_self, List.set_cons_zero, List.append_assoc, List.singleton_append]

theorem hexStringToBytes_reads (hex buffer : Bytes) (room : buffer.length = hex.length / 2) :
    match ofHex hex with
    | some bytes => hexStringToBytes hex hex.length buffer buffer.length =
      ((bytes.length : Int), bytes)
    | none => ∃ written, hexStringToBytes hex hex.length buffer buffer.length = (-1, written) := by
  unfold hexStringToBytes
  by_cases odd : hex.length % 2 ≠ 0
  · have unread : ofHex hex = none := by
      rw [← Option.not_isSome_iff_eq_none, ofHex_isSome_iff]
      exact fun digits => odd digits.1
    rw [unread, if_pos odd]
    exact ⟨buffer, rfl⟩
  · have rounds := takeByte_rounds hex buffer (by omega) (Nat.le_refl _)
    rw [List.take_of_length_le (by omega)] at rounds
    rw [if_neg odd, ← room, if_neg (Nat.lt_irrefl _)]
    cases read : ofHex hex with
    | none =>
      rw [read] at rounds
      obtain ⟨written, stopped⟩ := rounds
      rw [stopped]
      exact ⟨written, rfl⟩
    | some bytes =>
      rw [read] at rounds
      obtain ⟨length, filled⟩ := rounds
      rw [filled, List.drop_length, List.append_nil]
      show ((buffer.length : Int), bytes) = ((bytes.length : Int), bytes)
      rw [length]

theorem hexToBin_eq {hex : Bytes} (small : hex.length < 2 ^ 32) :
    hexToBin hex = (ofHex hex).getD [] := by
  have reads := hexStringToBytes_reads hex (List.replicate (hex.length / 2) 0) List.length_replicate
  rw [List.length_replicate] at reads
  unfold hexToBin
  simp only [List.length_replicate, Nat.mod_eq_of_lt small,
    Nat.mod_eq_of_lt (Nat.lt_of_le_of_lt (Nat.div_le_self _ 2) small)]
  cases read : ofHex hex with
  | none =>
    rw [read] at reads
    obtain ⟨written, stopped⟩ := reads
    rw [stopped]
    rfl
  | some bytes =>
    rw [read] at reads
    rw [reads, if_neg (by omega)]
    simp [resize]

/-! ### Round trips -/

theorem byteToHex_pair : ∀ high low : Fin 16,
    byteToHex (UInt8.ofNat (16 * high + low)) = [sHexDataMap.getD high 0,
      sHexDataMap.getD low 0] := by
  decide

theorem sHexDataMap_value : ∀ n : Fin 16, hexValue (sHexDataMap.getD n 0) = some n.val := by decide

theorem byteToHex_read (data : UInt8) : ofHex (byteToHex data) = some [data] := by
  revert data
  apply forall_byte
  intro high low
  rw [byteToHex_pair, ofHex, sHexDataMap_value, sHexDataMap_value, ofHex_nil]

theorem ofHex_digits (bin : Bytes) : ofHex (bin.flatMap byteToHex) = some bin := by
  apply decode_flatMap ofHex_nil
  intro data rest
  rw [ofHex_append (by rw [byteToHex_length]), byteToHex_read]
  rfl

theorem sHexDataMap_upper (c : UInt8) : ∀ n ∈ hexValue c, sHexDataMap.getD n 0 = toUpper c := by
  revert c
  apply forall_byte
  decide

theorem digits_ofHex {hex bin : Bytes} (read : ofHex hex = some bin) :
    bin.flatMap byteToHex = hex.map toUpper := by
  fun_induction ofHex hex generalizing bin with
  | case1 =>
    cases read
    rfl
  | case2 c => cases read
  | case3 high low rest h l bytes inner lowValue highValue ih =>
    cases read
    have pair := byteToHex_pair ⟨h, hexValue_lt high h highValue⟩ ⟨l, hexValue_lt low l lowValue⟩
    rw [List.flatMap_cons, ih inner, pair, sHexDataMap_upper high h highValue,
      sHexDataMap_upper low l lowValue]
    rfl
  | case4 high low rest bad ih => cases read

/-- Bytes written as digits are read back. A text of digits is read and written back in upper case,
and any other text is read as the empty string. -/
theorem hex_codec :
    (∀ bin : Bytes, bin.length < 2 ^ 30 → (binToHex bin).map hexToBin = some bin) ∧
      ∀ hex : Bytes, hex.length < 2 ^ 31 →
        ((hex.length % 2 = 0 ∧ ∀ c ∈ hex, (hexValue c).isSome) →
          binToHex (hexToBin hex) = some (hex.map toUpper)) ∧
        (¬ (hex.length % 2 = 0 ∧ ∀ c ∈ hex, (hexValue c).isSome) → hexToBin hex = []) := by
  constructor
  · intro bin small
    rw [binToHex_eq small, Option.map_some, hexToBin_eq (by rw [digits_length]; omega),
      ofHex_digits]
    rfl
  · intro hex small
    rw [hexToBin_eq (by omega)]
    constructor
    · intro digits
      obtain ⟨bin, read⟩ := Option.isSome_iff_exists.mp ((ofHex_isSome_iff hex).mpr digits)
      have written := digits_ofHex read
      have length := congrArg List.length written
      rw [digits_length, List.length_map] at length
      rw [read, Option.getD_some, binToHex_eq (by omega), written]
    · intro other
      rw [← ofHex_isSome_iff, Option.not_isSome_iff_eq_none] at other
      rw [other, Option.getD_none]

theorem hex_codec_mixedCase :
    (binToHex [0, 255, 127]).map hexToBin = some [0, 255, 127] ∧
      binToHex (hexToBin [97, 70, 48, 99]) = some [65, 70, 48, 67] ∧
      hexToBin [97, 70, 48, 103] = [] := by
  have digits : ∀ c ∈ ([97, 70, 48, 99] : Bytes), (hexValue c).isSome :=
    List.all_eq_true.mp (by decide)
  have other : ¬ (hexValue 103).isSome := by decide
  refine ⟨hex_codec.1 [0, 255, 127] (by decide),
    (hex_codec.2 [97, 70, 48, 99] (by decide)).1 ⟨rfl, digits⟩, ?_⟩
  exact (hex_codec.2 [97, 70, 48, 103] (by decide)).2 fun both => other (both.2 103 (by decide))

end Kingkong.StringUtil
