import Kingkong.Lib.Varint

/-!
How the Protobuf runtime reads an array: the numbers, and `EpsCopyInputStream`, which lets a reader
run up to 16 bytes past `buffer_end_` without a test. Near the end of the array, or from the start
if the array is short, the bytes are read from a buffer in which zeros follow them.
-/

namespace Kingkong.Protobuf
open Lib

/-- A null pointer for the result, or a read behind the bytes that may be read. A loop of the model
that has used up its rounds is `unfinished`. -/
inductive Fault where
  | malformed
  | outside
  | unfinished
  deriving DecidableEq

/-- A value and the bytes from the new pointer on. -/
abbrev Reader (α : Type) := Bytes → Except Fault (α × Bytes)

def kSlopBytes : Nat := 16

/-! ### Numbers -/

/-- `res += (byte - 1) << (7 * i)` in words of `w` bits. -/
def addDigit (w res i : Nat) (byte : UInt8) : Nat :=
  (res + (byte.toNat + 2 ^ w - 1) * 2 ^ (7 * i)) % 2 ^ w

/-- The loop over `n` bytes in words of `w` bits, and what comes after it if none of them is the
last. -/
def digits (w : Nat) : Nat → Nat → (Nat → Reader Nat) → Nat → Reader Nat
  | 0, _, ending, res, bytes => ending res bytes
  | _ + 1, _, _, _, [] => .error .outside
  | n + 1, i, ending, res, byte :: rest =>
    let res := addDigit w res i byte
    if byte.toNat < 128 then .ok (res, rest) else digits w n (i + 1) ending res rest

/-- The end of a loop over as many bytes as are allowed. -/
def tooLong (_ : Nat) : Reader Nat := fun _ => .error .malformed

/-- The first byte of every number is tested by itself. -/
def oneByte (more : Nat → Reader Nat) : Reader Nat
  | [] => .error .outside
  | first :: rest => if first.toNat < 128 then .ok (first.toNat, rest) else more first.toNat rest

def readTagFallback : Nat → Reader Nat := digits 32 3 2 tooLong

def readTag : Reader Nat := oneByte (digits 32 1 1 readTagFallback)

def varintParseSlow64 : Nat → Reader Nat := digits 64 8 2 tooLong

/-- `VarintParse<uint64>`, which is also `ReadVarint`. The second byte is added in 32 bits. -/
def varintParse : Reader Nat := oneByte (digits 32 1 1 varintParseSlow64)

/-- The largest size that `ReadSize` returns: `INT_MAX - kSlopBytes`. -/
def maxSize : Nat := 2 ^ 31 - 1 - kSlopBytes

/-- The fifth byte in `ReadSizeFallback`. -/
def sizeEnd (res : Nat) : Reader Nat
  | [] => .error .outside
  | byte :: rest =>
    if 8 ≤ byte.toNat then .error .malformed
    else
      let res := addDigit 32 res 4 byte
      if maxSize < res then .error .malformed else .ok (res, rest)

def readSizeFallback : Nat → Reader Nat := digits 32 3 1 sizeEnd

def readSize : Reader Nat := oneByte readSizeFallback

/-- `UnalignedLoad` of `n` bytes. -/
def unalignedLoad (n : Nat) : Reader Nat := fun bytes =>
  if n ≤ bytes.length then .ok (ofBigEndian (bytes.take n).reverse, bytes.drop n) else .error .outside

/-! ### The stream -/

/-- A stream over an array. `ahead` has the bytes from the pointer to the end of what may be read,
which is `kSlopBytes` behind `buffer_end_`; `patched` tells whether the pointer is in the buffer of
the stream. -/
structure InputStream where
  ahead : Bytes
  patched : Bool

namespace InputStream

/-- The upper half of the buffer, which is never written. -/
def zeros : Bytes := List.replicate kSlopBytes 0

def initFrom (flat : Bytes) : InputStream :=
  if kSlopBytes < flat.length then { ahead := flat, patched := false }
  else { ahead := flat ++ zeros, patched := true }

/-- `limit_`: how far behind `buffer_end_` the array ends. -/
def limit (s : InputStream) : Nat := if s.patched then 0 else kSlopBytes

/-- What `DoneWithCheck` says: there is more, the pointer is at the end, or it has gone past it. -/
inductive Check where
  | more (s : InputStream)
  | done
  | exceeded

def doneWithCheck (s : InputStream) : Check :=
  if kSlopBytes < s.ahead.length then .more s
  else
    let overrun := kSlopBytes - s.ahead.length
    if overrun = s.limit then .done
    else if s.limit < overrun then .exceeded
    else .more { ahead := s.ahead ++ zeros, patched := true }

/-- `ReadString`. A string that does not end within what may be read takes all of it, and the parse
fails. -/
def readString (s : InputStream) (size : Nat) : Bytes × Except Fault InputStream :=
  if size ≤ s.ahead.length then (s.ahead.take size, .ok { s with ahead := s.ahead.drop size })
  else (s.ahead, .error .malformed)

end InputStream

/-! ### What the readers accept -/

section Readers

variable {k i n w low : Nat} {out : Nat → Except Fault Nat} {ending : Nat → Reader Nat} {read : Reader Nat}

/-- `read` goes on with the digit `i` of a number whose lower digits are `low`, and may take `k`
more bytes. `out` is what becomes of the whole number. -/
structure GoesOn (k i low : Nat) (out : Nat → Except Fault Nat) (read : Reader Nat) : Prop where
  found : ∀ bytes x rest, ofVarint k bytes = some (x, rest) → read bytes = (out (low + 128 ^ i * x)).map (·, rest)
  missing : ∀ bytes, ofVarint k bytes = none →
    ∃ fault, read bytes = .error fault ∧ fault ≠ .unfinished ∧ (fault = .outside → bytes.length < k)

/-- The `- 1` takes off the continuation bit of the byte before. -/
theorem addDigit_eq (w low i : Nat) (byte : UInt8) :
    addDigit w ((low + 128 ^ i) % 2 ^ w) i byte = (low + 128 ^ i * byte.toNat) % 2 ^ w := by
  have positive : 0 < 2 ^ w := Nat.two_pow_pos w
  have carried : 128 ^ i + (byte.toNat + 2 ^ w - 1) * 128 ^ i = (byte.toNat + 2 ^ w) * 128 ^ i := by
    rw [Nat.add_comm, ← Nat.succ_mul]
    congr 1
    omega
  have sum : low + 128 ^ i + (byte.toNat + 2 ^ w - 1) * 128 ^ i =
      low + 128 ^ i * byte.toNat + 2 ^ w * 128 ^ i := by
    rw [Nat.add_assoc, carried, Nat.add_mul, Nat.mul_comm byte.toNat, Nat.add_assoc]
  rw [addDigit, show 2 ^ (7 * i) = 128 ^ i from Nat.pow_mul .., Nat.mod_add_mod, sum,
    Nat.add_mul_mod_self_left]

/-- The sum of the digits stays below the weight of the next one. -/
theorem digit_lt {digit : Nat} (small : low < 128 ^ i) (low7 : digit < 128) :
    low + 128 ^ i * digit < 128 ^ (i + 1) := by
  have most := Nat.mul_le_mul_left (128 ^ i) (Nat.le_sub_one_of_lt low7)
  rw [Nat.pow_succ]
  omega

theorem goesOn_digits (early : ∀ y < 128 ^ (i + n), out y = .ok (y % 2 ^ w))
    (later : ∀ low < 128 ^ (i + n),
      GoesOn k (i + n) low out (ending ((low + 128 ^ (i + n)) % 2 ^ w)))
    (small : low < 128 ^ i) :
    GoesOn (n + k) i low out (digits w n i ending ((low + 128 ^ i) % 2 ^ w)) := by
  induction n generalizing i low with
  | zero =>
    rw [Nat.zero_add]
    exact later low small
  | succ n ih =>
    have shift : i + 1 + n = i + (n + 1) := by omega
    have onwards (byte : UInt8) (more : ¬ byte.toNat < 128) :
        GoesOn (n + k) (i + 1) (low + 128 ^ i * (byte.toNat - 128)) out
          (digits w n (i + 1) ending ((low + 128 ^ i * byte.toNat) % 2 ^ w)) := by
      have size := byte.toNat_lt
      have carried : low + 128 ^ i * byte.toNat =
          low + 128 ^ i * (byte.toNat - 128) + 128 ^ (i + 1) := by
        rw [Nat.pow_succ, Nat.add_assoc, ← Nat.mul_add]
        congr 2
        omega
      rw [carried]
      exact ih (by rwa [shift]) (by rwa [shift]) (digit_lt small (by omega))
    rw [Nat.add_right_comm]
    constructor
    · intro bytes x rest h
      cases bytes with
      | nil => cases h
      | cons byte bytes =>
        simp only [digits, addDigit_eq]
        by_cases last : byte.toNat < 128
        · rw [ofVarint_last last] at h
          cases h
          have below : low + 128 ^ i * byte.toNat < 128 ^ (i + (n + 1)) :=
            Nat.lt_of_lt_of_le (digit_lt small last) (Nat.pow_le_pow_right (by decide) (by omega))
          rw [if_pos last, early _ below]
          rfl
        · rw [ofVarint_more last] at h
          obtain ⟨⟨high, after⟩, read, equal⟩ := Option.map_eq_some_iff.mp h
          cases equal
          have total : low + 128 ^ i * (byte.toNat - 128) + 128 ^ (i + 1) * high =
              low + 128 ^ i * (byte.toNat - 128 + 128 * high) := by
            rw [Nat.pow_succ, Nat.mul_add, Nat.mul_assoc, Nat.add_assoc]
          rw [if_neg last, (onwards byte last).found _ _ _ read, total]
    · intro bytes h
      cases bytes with
      | nil => exact ⟨.outside, rfl, nofun, fun _ => Nat.succ_pos _⟩
      | cons byte bytes =>
        simp only [digits, addDigit_eq]
        by_cases last : byte.toNat < 128
        · rw [ofVarint_last last] at h
          cases h
        · rw [ofVarint_more last, Option.map_eq_none_iff] at h
          obtain ⟨fault, failed, finished, short⟩ := (onwards byte last).missing _ h
          rw [if_neg last]
          exact ⟨fault, failed, finished, fun outside => Nat.succ_lt_succ (short outside)⟩

theorem goesOn_tooLong (res : Nat) : GoesOn 0 i low out (tooLong res) where
  found := nofun
  missing := fun _ _ => ⟨.malformed, rfl, nofun, nofun⟩

/-- A number begins with its first byte, which is followed by the rest if its high bit is set. -/
theorem goesOn_oneByte {more : Nat → Reader Nat} (early : ∀ y < 128, out y = .ok y)
    (later : ∀ low < 128, GoesOn k 1 low out (more (low + 128))) :
    GoesOn (k + 1) 0 0 out (oneByte more) := by
  have onwards (byte : UInt8) (high : ¬ byte.toNat < 128) :
      GoesOn k 1 (byte.toNat - 128) out (more byte.toNat) := by
    have size := byte.toNat_lt
    have go := later (byte.toNat - 128) (by omega)
    rwa [Nat.sub_add_cancel (by omega)] at go
  constructor
  · intro bytes x rest h
    cases bytes with
    | nil => cases h
    | cons byte bytes =>
      simp only [oneByte]
      by_cases last : byte.toNat < 128
      · rw [ofVarint_last last] at h
        cases h
        rw [if_pos last, Nat.pow_zero, Nat.one_mul, Nat.zero_add, early _ last]
        rfl
      · rw [ofVarint_more last] at h
        obtain ⟨⟨high, after⟩, read, equal⟩ := Option.map_eq_some_iff.mp h
        cases equal
        rw [if_neg last, (onwards byte last).found _ _ _ read, Nat.pow_zero, Nat.one_mul,
          Nat.zero_add, Nat.pow_one]
  · intro bytes h
    cases bytes with
    | nil => exact ⟨.outside, rfl, nofun, fun _ => Nat.succ_pos _⟩
    | cons byte bytes =>
      simp only [oneByte]
      by_cases last : byte.toNat < 128
      · rw [ofVarint_last last] at h
        cases h
      · rw [ofVarint_more last, Option.map_eq_none_iff] at h
        obtain ⟨fault, failed, finished, short⟩ := (onwards byte last).missing _ h
        rw [if_neg last]
        exact ⟨fault, failed, finished, fun outside => Nat.succ_lt_succ (short outside)⟩

/-- What remains of a number in words of `w` bits. -/
def word (w x : Nat) : Except Fault Nat := .ok (x % 2 ^ w)

/-- A tag or a value: two bytes in 32 bits, and `n` more in `w` bits. -/
theorem goesOn_word (wide : 32 ≤ w) :
    GoesOn (n + 2) 0 0 (word w) (oneByte (digits 32 1 1 (digits w n 2 tooLong))) := by
  have fits : 2 ^ 32 ≤ 2 ^ w := Nat.pow_le_pow_right (by decide) wide
  apply goesOn_oneByte
  · intro y small
    rw [word, Nat.mod_eq_of_lt (by omega)]
  · intro low small
    have second : low + 128 = (low + 128 ^ 1) % 2 ^ 32 := by omega
    rw [second, Nat.add_comm n 1]
    apply goesOn_digits
    · intro y small
      rw [word, Nat.mod_eq_of_lt (by omega), Nat.mod_eq_of_lt (by omega)]
    · intro low small
      have third : (low + 128 ^ (1 + 1)) % 2 ^ 32 = (low + 128 ^ 2) % 2 ^ w := by
        rw [Nat.mod_eq_of_lt (by omega), Nat.mod_eq_of_lt (by omega)]
      rw [third]
      exact goesOn_digits (k := 0) (fun _ _ => rfl) (fun _ _ => goesOn_tooLong _) small
    · exact small

def size (x : Nat) : Except Fault Nat := if x ≤ maxSize then .ok x else .error .malformed

theorem goesOn_sizeEnd (small : low < 128 ^ 4) :
    GoesOn 1 4 low size (sizeEnd ((low + 128 ^ 4) % 2 ^ 32)) where
  found bytes x rest h := by
    cases bytes with
    | nil => cases h
    | cons byte bytes =>
      by_cases last : byte.toNat < 128
      · rw [ofVarint_last last] at h
        cases h
        simp only [sizeEnd, addDigit_eq]
        by_cases large : 8 ≤ byte.toNat
        · rw [if_pos large, size, if_neg (by unfold maxSize; omega)]
          rfl
        · have exactly : (low + 128 ^ 4 * byte.toNat) % 2 ^ 32 = low + 128 ^ 4 * byte.toNat := by
            omega
          rw [if_neg large, exactly, size]
          by_cases most : low + 128 ^ 4 * byte.toNat ≤ maxSize
          · rw [if_pos most, if_neg (Nat.not_lt.mpr most)]
            rfl
          · rw [if_neg most, if_pos (Nat.lt_of_not_le most)]
            rfl
      · rw [ofVarint_more last] at h
        cases h
  missing bytes h := by
    cases bytes with
    | nil => exact ⟨.outside, rfl, nofun, fun _ => Nat.one_pos⟩
    | cons byte bytes =>
      by_cases last : byte.toNat < 128
      · rw [ofVarint_last last] at h
        cases h
      · refine ⟨.malformed, ?_, nofun, nofun⟩
        simp only [sizeEnd]
        rw [if_pos (by omega)]

theorem goesOn_size : GoesOn 5 0 0 size readSize := by
  apply goesOn_oneByte
  · intro y small
    exact if_pos (by unfold maxSize kSlopBytes; omega)
  · intro low small
    have second : low + 128 = (low + 128 ^ 1) % 2 ^ 32 := by omega
    rw [second]
    apply goesOn_digits (n := 3) (k := 1)
    · intro y small
      rw [size, if_pos (by unfold maxSize kSlopBytes; omega), Nat.mod_eq_of_lt (by omega)]
    · exact fun low small => goesOn_sizeEnd small
    · exact small

end Readers

/-! ### Readers and what they read -/

section Reads

variable {α : Type} {k : Nat} {Form : α → Bytes → Prop} {read : Reader α}

/-- `read` takes from the front a form of the value that it returns, of up to `k` bytes, and looks
at no other byte. -/
structure Reads (k : Nat) (Form : α → Bytes → Prop) (read : Reader α) : Prop where
  sound : ∀ bytes a rest, read bytes = .ok (a, rest) → ∃ used, bytes = used ++ rest ∧ Form a used
  complete : ∀ a used, Form a used → ∀ rest, read (used ++ rest) = .ok (a, rest)
  inside : ∀ bytes, k ≤ bytes.length → read bytes ≠ .error .outside
  finished : ∀ bytes, read bytes ≠ .error .unfinished
  length : ∀ a used, Form a used → 0 < used.length ∧ used.length ≤ k

/-- The faults that come from the number itself. -/
def Refuses (out : Nat → Except Fault Nat) : Prop :=
  ∀ x fault, out x = .error fault → fault = .malformed

theorem GoesOn.fault {out : Nat → Except Fault Nat} {read : Reader Nat} {bytes : Bytes}
    {fault : Fault} (goes : GoesOn k 0 0 out read) (refuses : Refuses out)
    (failed : read bytes = .error fault) :
    fault ≠ .unfinished ∧ (fault = .outside → bytes.length < k) := by
  cases number : ofVarint k bytes with
  | none =>
    obtain ⟨given, same, finished, short⟩ := goes.missing _ number
    cases failed.symm.trans same
    exact ⟨finished, short⟩
  | some found =>
    have given := goes.found _ _ _ number
    rw [failed] at given
    cases made : out (0 + 128 ^ 0 * found.1) with
    | error other =>
      rw [made] at given
      cases given
      rw [refuses _ _ made]
      exact ⟨nofun, nofun⟩
    | ok b =>
      rw [made] at given
      cases given

theorem GoesOn.reads {out : Nat → Except Fault Nat} {read : Reader Nat}
    (goes : GoesOn k 0 0 out read) (refuses : Refuses out) :
    Reads k (fun a used => ∃ x, IsVarint k x used ∧ out x = .ok a) read := by
  have total (x : Nat) : 0 + 128 ^ 0 * x = x := by omega
  constructor
  · intro bytes a rest h
    cases number : ofVarint k bytes with
    | none =>
      obtain ⟨fault, failed, -⟩ := goes.missing _ number
      cases failed.symm.trans h
    | some found =>
      obtain ⟨x, after⟩ := found
      have given := goes.found _ _ _ number
      rw [h, total] at given
      obtain ⟨used, split, isNumber⟩ := isVarint_of_ofVarint number
      cases made : out x with
      | error fault =>
        rw [made] at given
        cases given
      | ok b =>
        rw [made] at given
        cases given
        exact ⟨used, split, x, isNumber, made⟩
  · rintro a used ⟨x, isNumber, made⟩ rest
    rw [goes.found _ _ _ (isNumber.read rest), total, made]
    rfl
  · intro bytes enough failed
    have short := (goes.fault refuses failed).2 rfl
    omega
  · exact fun bytes failed => (goes.fault refuses failed).1 rfl
  · rintro a used ⟨x, isNumber, -⟩
    exact isNumber.length

/-- The bytes are a form of the tag, of which 32 bits count. -/
def IsTag (tag : Nat) (bytes : Bytes) : Prop := ∃ x, IsVarint 5 x bytes ∧ word 32 x = .ok tag

def IsValue (value : Nat) (bytes : Bytes) : Prop := ∃ x, IsVarint 10 x bytes ∧ word 64 x = .ok value

def IsSize (length : Nat) (bytes : Bytes) : Prop := ∃ x, IsVarint 5 x bytes ∧ size x = .ok length

def IsFixed (n value : Nat) (bytes : Bytes) : Prop :=
  bytes.length = n ∧ ofBigEndian bytes.reverse = value

theorem readTag_reads : Reads 5 IsTag readTag := (goesOn_word (Nat.le_refl 32)).reads nofun

theorem varintParse_reads : Reads 10 IsValue varintParse := (goesOn_word (by decide)).reads nofun

theorem readSize_reads : Reads 5 IsSize readSize := by
  refine goesOn_size.reads fun x fault refused => ?_
  unfold size at refused
  split at refused
  · cases refused
  · exact (Except.error.inj refused).symm

theorem unalignedLoad_reads {n : Nat} (positive : 0 < n) :
    Reads n (IsFixed n) (unalignedLoad n) := by
  constructor
  · intro bytes a rest h
    unfold unalignedLoad at h
    split at h
    · cases h
      exact ⟨bytes.take n, (List.take_append_drop n bytes).symm, List.length_take_of_le ‹_›, rfl⟩
    · cases h
  · rintro a used ⟨rfl, rfl⟩ rest
    unfold unalignedLoad
    rw [if_pos (by rw [List.length_append]; omega), List.take_left, List.drop_left]
  · intro bytes enough h
    unfold unalignedLoad at h
    rw [if_pos enough] at h
    cases h
  · intro bytes h
    unfold unalignedLoad at h
    split at h <;> cases h
  · rintro a used ⟨length, -⟩
    omega

end Reads

/-! ### Where a stream stands -/

namespace InputStream

variable {s : InputStream} {r : Bytes}

/-- `r` is what the array still has. -/
def At (s : InputStream) (r : Bytes) : Prop :=
  ∃ pad, s.ahead = r ++ pad ∧ pad.length = kSlopBytes - s.limit

/-- The pointer has gone past the end of the array. -/
def Over (s : InputStream) : Prop := s.ahead.length < kSlopBytes - s.limit

def moved (s : InputStream) (rest : Bytes) : InputStream := { s with ahead := rest }

theorem initFrom_at (flat : Bytes) : (initFrom flat).At flat := by
  unfold initFrom
  split
  · exact ⟨[], (List.append_nil _).symm, rfl⟩
  · exact ⟨zeros, rfl, List.length_replicate⟩

theorem limit_le (s : InputStream) : s.limit ≤ kSlopBytes := by
  unfold limit
  split
  · exact Nat.zero_le _
  · exact Nat.le_refl _

theorem doneWithCheck_nil (stands : s.At []) : s.doneWithCheck = .done := by
  obtain ⟨pad, ahead, length⟩ := stands
  have most := limit_le s
  rw [List.nil_append] at ahead
  unfold doneWithCheck
  rw [ahead, if_neg (by omega)]
  dsimp only
  rw [if_pos (by omega)]

theorem doneWithCheck_more (stands : s.At r) (nonempty : r ≠ []) :
    ∃ t, s.doneWithCheck = .more t ∧ t.At r ∧ kSlopBytes < t.ahead.length := by
  obtain ⟨pad, ahead, length⟩ := stands
  have positive := List.length_pos_of_ne_nil nonempty
  have total : s.ahead.length = r.length + pad.length := by rw [ahead, List.length_append]
  unfold doneWithCheck
  by_cases far : kSlopBytes < s.ahead.length
  · rw [if_pos far]
    exact ⟨s, rfl, ⟨pad, ahead, length⟩, far⟩
  · -- Less than 16 bytes are left, so the stream still reads from the array.
    have direct : s.patched = false := by
      by_contra patched
      rw [limit, if_pos (by simpa using patched)] at length
      omega
    rw [limit, direct] at length
    have empty : pad = [] := List.eq_nil_of_length_eq_zero length
    rw [if_neg far]
    dsimp only
    rw [limit, direct, if_neg (by simp; omega), if_neg (by simp)]
    refine ⟨_, rfl, ⟨zeros, ?_, List.length_replicate⟩, ?_⟩
    · rw [ahead, empty, List.append_nil]
    · rw [List.length_append, zeros, List.length_replicate]
      omega

theorem doneWithCheck_over (beyond : s.Over) : s.doneWithCheck = .exceeded := by
  unfold Over at beyond
  unfold doneWithCheck
  rw [if_neg (by omega)]
  dsimp only
  rw [if_neg (by omega), if_pos (by omega)]

/-- Bytes are taken from what the array has, or the pointer goes past its end. -/
theorem at_moved {used rest : Bytes} (stands : s.At r) (split : s.ahead = used ++ rest) :
    (s.moved rest).Over ∨ ∃ r', r = used ++ r' ∧ (s.moved rest).At r' := by
  obtain ⟨pad, ahead, length⟩ := stands
  have total := congrArg List.length (ahead.symm.trans split)
  simp only [List.length_append] at total
  by_cases within : used.length ≤ r.length
  · right
    obtain ⟨r', rfl⟩ : used <+: r :=
      List.prefix_of_prefix_length_le ⟨rest, rfl⟩ (split ▸ ahead ▸ ⟨pad, rfl⟩) within
    rw [ahead, List.append_assoc] at split
    exact ⟨r', rfl, pad, (List.append_cancel_left split).symm, length⟩
  · left
    show rest.length < kSlopBytes - s.limit
    omega

theorem over_moved {used rest : Bytes} (beyond : s.Over) (split : s.ahead = used ++ rest) :
    (s.moved rest).Over := by
  have total := congrArg List.length split
  rw [List.length_append] at total
  show rest.length < kSlopBytes - s.limit
  unfold Over at beyond
  omega

theorem at_append {used : Bytes} (stands : s.At (used ++ r)) :
    ∃ rest, s.ahead = used ++ rest ∧ (s.moved rest).At r := by
  obtain ⟨pad, ahead, length⟩ := stands
  exact ⟨r ++ pad, by rw [ahead, List.append_assoc], pad, rfl, length⟩

/-- A reader may run on for 16 bytes. -/
theorem doneWithCheck_far {t : InputStream} (h : s.doneWithCheck = .more t) :
    kSlopBytes < t.ahead.length := by
  have most : s.limit ≤ kSlopBytes := limit_le s
  unfold doneWithCheck at h
  split at h
  · cases h
    assumption
  · dsimp only at h
    split at h
    · cases h
    · split at h
      · cases h
      · cases h
        rw [List.length_append, zeros, List.length_replicate]
        omega

/-- The array has less than `n` bytes left, or the pointer is past its end and there is a round to
find that out. -/
def Within (n : Nat) (s : InputStream) : Prop := (s.Over ∧ 0 < n) ∨ ∃ r, s.At r ∧ r.length < n

theorem within_initFrom (flat : Bytes) : (initFrom flat).Within (flat.length + 1) :=
  .inr ⟨flat, initFrom_at flat, Nat.lt_succ_self _⟩

/-- What stays away from the end after some bytes are taken. -/
theorem within_moved {n : Nat} {used rest : Bytes} (within : s.Within n)
    (split : s.ahead = used ++ rest) :
    (s.moved rest).Within n := by
  rcases within with ⟨beyond, positive⟩ | ⟨r, stands, small⟩
  · exact .inl ⟨over_moved beyond split, positive⟩
  · rcases at_moved stands split with beyond | ⟨r', rfl, after⟩
    · exact .inl ⟨beyond, Nat.zero_lt_of_lt small⟩
    · rw [List.length_append] at small
      exact .inr ⟨r', after, by omega⟩

end InputStream

end Kingkong.Protobuf
