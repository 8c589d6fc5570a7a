import Kingkong.Lib.Bytes

/-!
Base-128 numbers: seven bits to a byte, the lowest first, and the high bit set in every byte but the
last. A number has many forms, since zeros may follow its highest digit; `varint` is the shortest
one.
-/

namespace Kingkong.Lib

def varint (x : Nat) : Bytes :=
  if x < 128 then [UInt8.ofNat x] else UInt8.ofNat (x % 128 + 128) :: varint (x / 128)
termination_by x
decreasing_by omega

/-- The number that the bytes begin with, if it ends within `k` of them, and what follows it. -/
def ofVarint : Nat → Bytes → Option (Nat × Bytes)
  | 0, _ => none
  | _ + 1, [] => none
  | k + 1, byte :: rest =>
    if byte.toNat < 128 then some (byte.toNat, rest)
    else (ofVarint k rest).map fun (high, rest) => (byte.toNat - 128 + 128 * high, rest)

/-- The bytes are a form of `x`. -/
def IsVarint (k x : Nat) (bytes : Bytes) : Prop := ofVarint k bytes = some (x, [])

variable {k x : Nat} {byte : UInt8} {bytes rest : Bytes}

theorem ofVarint_last (low : byte.toNat < 128) :
    ofVarint (k + 1) (byte :: rest) = some (byte.toNat, rest) := by
  rw [ofVarint, if_pos low]

theorem ofVarint_more (high : ¬ byte.toNat < 128) : ofVarint (k + 1) (byte :: rest) =
    (ofVarint k rest).map fun (high, rest) => (byte.toNat - 128 + 128 * high, rest) := by
  rw [ofVarint, if_neg high]

/-! ### What a number takes of the bytes -/

/-- A reader of numbers looks at the bytes of the number only. -/
theorem ofVarint_split (h : ofVarint k bytes = some (x, rest)) :
    ∃ used, bytes = used ++ rest ∧ 0 < used.length ∧ used.length ≤ k ∧
      ∀ more, ofVarint k (used ++ more) = some (x, more) := by
  induction k generalizing bytes x with
  | zero => cases h
  | succ k ih =>
    cases bytes with
    | nil => cases h
    | cons byte bytes =>
      by_cases low : byte.toNat < 128
      · rw [ofVarint_last low] at h
        cases h
        exact ⟨[byte], rfl, Nat.one_pos, Nat.succ_pos k, fun more => ofVarint_last low⟩
      · rw [ofVarint_more low] at h
        obtain ⟨⟨high, after⟩, read, equal⟩ := Option.map_eq_some_iff.mp h
        cases equal
        obtain ⟨used, rfl, -, short, again⟩ := ih read
        refine ⟨byte :: used, rfl, Nat.succ_pos _, Nat.succ_le_succ short, fun more => ?_⟩
        rw [List.cons_append, ofVarint_more low, again, Option.map_some]

theorem IsVarint.read (number : IsVarint k x bytes) (rest : Bytes) :
    ofVarint k (bytes ++ rest) = some (x, rest) := by
  obtain ⟨used, rfl, -, -, again⟩ := ofVarint_split number
  rw [List.append_nil]
  exact again rest

theorem IsVarint.length (number : IsVarint k x bytes) : 0 < bytes.length ∧ bytes.length ≤ k := by
  obtain ⟨used, rfl, positive, short, -⟩ := ofVarint_split number
  rw [List.append_nil]
  exact ⟨positive, short⟩

theorem isVarint_of_ofVarint (h : ofVarint k bytes = some (x, rest)) :
    ∃ used, bytes = used ++ rest ∧ IsVarint k x used := by
  obtain ⟨used, rfl, -, -, again⟩ := ofVarint_split h
  refine ⟨used, rfl, ?_⟩
  have alone := again []
  rwa [List.append_nil] at alone

/-! ### The shortest form -/

theorem varint_small (small : x < 128) : varint x = [UInt8.ofNat x] := by
  rw [varint, if_pos small]

theorem varint_large (large : ¬ x < 128) :
    varint x = UInt8.ofNat (x % 128 + 128) :: varint (x / 128) := by
  rw [varint, if_neg large]

theorem varint_ne_nil (x : Nat) : varint x ≠ [] := by
  unfold varint
  split <;> exact List.cons_ne_nil _ _

theorem varint_isVarint (small : x < 128 ^ (k + 1)) : IsVarint (k + 1) x (varint x) := by
  unfold IsVarint
  induction k generalizing x with
  | zero =>
    have digit : (UInt8.ofNat x).toNat = x := by
      rw [UInt8.toNat_ofNat']
      omega
    rw [varint_small (by omega), ofVarint_last (by omega), digit]
  | succ k ih =>
    by_cases low : x < 128
    · have digit : (UInt8.ofNat x).toNat = x := by
        rw [UInt8.toNat_ofNat']
        omega
      rw [varint_small low, ofVarint_last (by omega), digit]
    · have digit : (UInt8.ofNat (x % 128 + 128)).toNat = x % 128 + 128 := by
        rw [UInt8.toNat_ofNat']
        omega
      have high : x / 128 < 128 ^ (k + 1) := by
        rw [Nat.pow_succ] at small
        omega
      rw [varint_large low, ofVarint_more (by omega), ih high, Option.map_some, digit]
      dsimp only
      congr 2
      omega

theorem log2_shift (large : ¬ x < 128) : Nat.log2 x = Nat.log2 (x / 128) + 7 := by
  have rest : x / 128 ≠ 0 := by omega
  obtain ⟨least, most⟩ := (Nat.log2_eq_iff rest).mp rfl
  generalize Nat.log2 (x / 128) = q at least most
  rw [Nat.log2_eq_iff (by omega)]
  rw [Nat.pow_succ] at most
  constructor
  · rw [Nat.pow_add]
    omega
  · rw [Nat.pow_succ, Nat.pow_add]
    omega

/-- A number takes one byte for every seven bits that it has, and at least one. -/
theorem varint_length (x : Nat) : (varint x).length = Nat.log2 x / 7 + 1 := by
  induction x using Nat.strongRecOn with
  | ind x ih =>
    by_cases low : x < 128
    · have few : Nat.log2 x < 7 := by
        by_cases zero : x = 0
        · rw [zero]
          decide
        · exact (Nat.log2_lt zero).mpr low
      rw [varint_small low, List.length_singleton]
      omega
    · rw [varint_large low, List.length_cons, ih (x / 128) (by omega), log2_shift low]
      omega

end Kingkong.Lib
