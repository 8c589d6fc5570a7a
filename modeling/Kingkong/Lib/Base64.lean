import Kingkong.Lib.Ascii

/-!
Base64 of RFC 4648. Three bytes are one number of 24 bits, which is written as four digits of six
bits. A last group of one or two bytes has two or three digits, and `=` fills it up.
-/

namespace Kingkong.Lib

def digit64 (n : Nat) : UInt8 :=
  if n < 26 then UInt8.ofNat (65 + n)
  else if n < 52 then UInt8.ofNat (71 + n)
  else if n < 62 then UInt8.ofNat (n - 4)
  else if n = 62 then 43
  else 47

def value64 (c : UInt8) : Option Nat :=
  if isUpper c then some (c.toNat - 65)
  else if isLower c then some (c.toNat - 71)
  else if isDigit c then some (c.toNat + 4)
  else if c = 43 then some 62
  else if c = 47 then some 63
  else none

def pad64 : UInt8 := 61

def sextets : Bytes → List Nat
  | [] => []
  | [a] => let n := a.toNat * 65536; [n / 262144, n / 4096 % 64]
  | [a, b] => let n := a.toNat * 65536 + b.toNat * 256; [n / 262144, n / 4096 % 64, n / 64 % 64]
  | a :: b :: c :: rest =>
    let n := a.toNat * 65536 + b.toNat * 256 + c.toNat
    [n / 262144, n / 4096 % 64, n / 64 % 64, n % 64] ++ sextets rest

def padding (length : Nat) : Nat := (3 - length % 3) % 3

def encode64 (bytes : Bytes) : Bytes :=
  (sextets bytes).map digit64 ++ List.replicate (padding bytes.length) pad64

/-- The bytes of four characters, of which only the last two may be `=`. -/
def quad (a b c d : UInt8) : Option Bytes :=
  match value64 a, value64 b, value64 c, value64 d with
  | some a, some b, some c, some d =>
    let n := a * 262144 + b * 4096 + c * 64 + d
    some [UInt8.ofNat (n / 65536), UInt8.ofNat (n / 256), UInt8.ofNat n]
  | some a, some b, some c, none =>
    let n := a * 262144 + b * 4096 + c * 64
    if d = pad64 then some [UInt8.ofNat (n / 65536), UInt8.ofNat (n / 256)] else none
  | some a, some b, none, none =>
    let n := a * 262144 + b * 4096
    if c = pad64 ∧ d = pad64 then some [UInt8.ofNat (n / 65536)] else none
  | _, _, _, _ => none

/-- Only the last four characters may stand for less than three bytes. -/
def decode64 : Bytes → Option Bytes
  | [] => some []
  | a :: b :: c :: d :: rest =>
    match quad a b c d, decode64 rest with
    | some bytes, some more => if bytes.length = 3 ∨ rest = [] then some (bytes ++ more) else none
    | _, _ => none
  | _ => none

/-! ### Digits -/

theorem value64_digit64 {n : Nat} (small : n < 64) : value64 (digit64 n) = some n := by
  have all : ∀ n : Fin 64, value64 (digit64 n) = some n.val := by decide
  exact all ⟨n, small⟩

theorem value64_pad64 : value64 pad64 = none := by decide

theorem sextets_lt (bytes : Bytes) : ∀ n ∈ sextets bytes, n < 64 := by
  fun_induction sextets bytes with
  | case1 => simp
  | case2 a =>
    have small := a.toNat_lt
    simp only [List.forall_mem_cons]
    refine ⟨by omega, by omega, by simp⟩
  | case3 a b =>
    have smallA := a.toNat_lt
    have smallB := b.toNat_lt
    simp only [List.forall_mem_cons]
    refine ⟨by omega, by omega, by omega, by simp⟩
  | case4 a b c rest n ih =>
    have smallA := a.toNat_lt
    have smallB := b.toNat_lt
    have smallC := c.toNat_lt
    simp only [List.forall_mem_append, List.forall_mem_cons]
    refine ⟨⟨by omega, by omega, by omega, by omega, by simp⟩, ih⟩

/-- With the padding the digits make whole groups of four. -/
theorem sextets_length (bytes : Bytes) :
    (sextets bytes).length + padding bytes.length = 4 * ((bytes.length + 2) / 3) := by
  fun_induction sextets bytes with
  | case1 => rfl
  | case2 a n => simp [padding]
  | case3 a b n => simp [padding]
  | case4 a b c rest n ih =>
    simp only [padding, List.length_append, List.length_cons, List.length_nil] at ih ⊢
    omega

theorem encode64_length (bytes : Bytes) :
    (encode64 bytes).length = 4 * ((bytes.length + 2) / 3) := by
  rw [encode64, List.length_append, List.length_map, List.length_replicate, sextets_length]

theorem quad_length_le {a b c d : UInt8} {bytes : Bytes} (read : quad a b c d = some bytes) :
    bytes.length ≤ 3 := by
  unfold quad at read
  grind

theorem decode64_length_le {text bytes : Bytes} (read : decode64 text = some bytes) :
    bytes.length ≤ text.length / 4 * 3 := by
  fun_induction decode64 text generalizing bytes with
  | case1 => cases read; rfl
  | case2 a b c d rest piece more inner first whole ih =>
    cases read
    have short := quad_length_le first
    have later := ih inner
    simp only [List.length_append, List.length_cons]
    omega
  | _ => cases read

/-! ### Reading back -/

theorem encode64_group (a b c : UInt8) (rest : Bytes) :
    encode64 (a :: b :: c :: rest) = (sextets [a, b, c]).map digit64 ++ encode64 rest := by
  have same : padding (a :: b :: c :: rest).length = padding rest.length := by
    simp only [padding, List.length_cons]
    omega
  rw [encode64, same, encode64, ← List.append_assoc, ← List.map_append]
  rfl

theorem ofNat_eq {n : Nat} {a : UInt8} (same : n % 256 = a.toNat) : UInt8.ofNat n = a := by
  rw [← UInt8.toNat_inj, UInt8.toNat_ofNat', same]

theorem quad_three {n : Nat} (small : n < 16777216) :
    quad (digit64 (n / 262144)) (digit64 (n / 4096 % 64)) (digit64 (n / 64 % 64)) (digit64 (n % 64)) =
      some [UInt8.ofNat (n / 65536), UInt8.ofNat (n / 256), UInt8.ofNat n] := by
  have joined : n / 262144 * 262144 + n / 4096 % 64 * 4096 + n / 64 % 64 * 64 + n % 64 = n := by
    omega
  unfold quad
  rw [value64_digit64 (by omega), value64_digit64 (by omega), value64_digit64 (by omega),
    value64_digit64 (by omega)]
  simp only [joined]

theorem quad_two {n : Nat} (small : n < 16777216) (whole : n % 64 = 0) :
    quad (digit64 (n / 262144)) (digit64 (n / 4096 % 64)) (digit64 (n / 64 % 64)) pad64 =
      some [UInt8.ofNat (n / 65536), UInt8.ofNat (n / 256)] := by
  have joined : n / 262144 * 262144 + n / 4096 % 64 * 4096 + n / 64 % 64 * 64 = n := by omega
  unfold quad
  rw [value64_digit64 (by omega), value64_digit64 (by omega), value64_digit64 (by omega),
    value64_pad64]
  simp only [joined, if_true]

theorem quad_one {n : Nat} (small : n < 16777216) (whole : n % 4096 = 0) :
    quad (digit64 (n / 262144)) (digit64 (n / 4096 % 64)) pad64 pad64 =
      some [UInt8.ofNat (n / 65536)] := by
  have joined : n / 262144 * 262144 + n / 4096 % 64 * 4096 = n := by omega
  unfold quad
  rw [value64_digit64 (by omega), value64_digit64 (by omega), value64_pad64]
  simp only [joined, and_self, if_true]

theorem decode64_encode64 (bytes : Bytes) : decode64 (encode64 bytes) = some bytes := by
  induction bytes using sextets.induct with
  | case1 => rfl
  | case2 a =>
    have smallA := a.toNat_lt
    show decode64 [_, _, pad64, pad64] = _
    rw [decode64, quad_one (by omega) (by omega), ofNat_eq (a := a) (by omega)]
    rfl
  | case3 a b =>
    have smallA := a.toNat_lt
    have smallB := b.toNat_lt
    show decode64 [_, _, _, pad64] = _
    rw [decode64, quad_two (by omega) (by omega), ofNat_eq (a := a) (by omega),
      ofNat_eq (a := b) (by omega)]
    rfl
  | case4 a b c rest ih =>
    have smallA := a.toNat_lt
    have smallB := b.toNat_lt
    have smallC := c.toNat_lt
    rw [encode64_group]
    show decode64 (_ :: _ :: _ :: _ :: encode64 rest) = _
    rw [decode64, quad_three (by omega), ofNat_eq (a := a) (by omega), ofNat_eq (a := b) (by omega),
      ofNat_eq (a := c) (by omega), ih]
    exact if_pos (.inl rfl)

theorem encode64_nil : encode64 [] = [] := by simp [encode64, sextets, padding]

/-- The first groups of the text are the text of the first bytes. -/
theorem encode64_take (bytes : Bytes) (j : Nat) :
    (encode64 bytes).take (4 * j) = encode64 (bytes.take (3 * j)) := by
  have none (bytes : Bytes) : (encode64 bytes).take (4 * 0) = encode64 (bytes.take (3 * 0)) := by
    rw [Nat.mul_zero, List.take_zero, List.take_zero, encode64_nil]
  induction bytes using sextets.induct generalizing j with
  | case1 => rw [encode64_nil, List.take_nil, List.take_nil, encode64_nil]
  | case2 a =>
    cases j with
    | zero => exact none _
    | succ j =>
      rw [List.take_of_length_le, List.take_of_length_le]
      · simp only [List.length_cons, List.length_nil]
        omega
      · simp only [encode64_length, List.length_cons, List.length_nil]
        omega
  | case3 a b =>
    cases j with
    | zero => exact none _
    | succ j =>
      rw [List.take_of_length_le, List.take_of_length_le]
      · simp only [List.length_cons, List.length_nil]
        omega
      · simp only [encode64_length, List.length_cons, List.length_nil]
        omega
  | case4 a b c rest ih =>
    cases j with
    | zero => exact none _
    | succ j =>
      rw [encode64_group, Nat.mul_succ, Nat.mul_succ]
      show (_ :: _ :: _ :: _ :: encode64 rest).take (4 * j + 4) =
          encode64 (a :: b :: c :: rest.take (3 * j))
      rw [encode64_group, ← ih]
      rfl

end Kingkong.Lib
