import Kingkong.Lib.Bytes

/-!
`EncryptByPublicKey` and `DecryptByPrivateKey`: a text is cut into pieces of 100 bytes, each piece
becomes a block of 128, and the blocks are opened one by one. The answer of `RSA_public_encrypt` is
added to the output offset as it is, and a failed call answers -1.
-/

namespace Kingkong.Crypto
open Lib

/-- `RSA_size` of the key. -/
def rsaSize : Nat := 128

/-- The two primitives under the key pair. The padding is drawn anew for each call of
`RSA_public_encrypt`, so the answer depends on the number of the call as well. -/
structure Rsa where
  publicEncrypt : Nat → Bytes → Option (Vector UInt8 128)
  privateDecrypt : Bytes → Option Bytes

/-- The private key opens what the public key has made of a piece that the padding leaves room
for. -/
def Rsa.Matching (rsa : Rsa) : Prop :=
  ∀ n piece block, piece.length ≤ 117 → rsa.publicEncrypt n piece = some block →
    rsa.privateDecrypt block.toList = some piece

/-- `aborted` is a failed `assert`, and `undefined` an `int` that overflows or a write outside of
the result. -/
inductive Outcome where
  | returned (value : Bool) (result : Bytes)
  | aborted
  | undefined
  deriving DecidableEq

/-! ### Encryption -/

/-- The loop of `EncryptByPublicKey`. `result` is missing once a block was written outside of it,
and `offsets` are the places in it that the calls were given. -/
structure Encrypting where
  alreadyEncLen : Nat := 0
  encDataLen : Int := 0
  result : Option Bytes
  offsets : List Int := []

def encryptPiece (rsa : Rsa) (buffer : Bytes) (s : Encrypting) : Encrypting :=
  let currentEncLen := min 100 (buffer.length - s.alreadyEncLen)
  let ret := rsa.publicEncrypt s.offsets.length ((buffer.drop s.alreadyEncLen).take currentEncLen)
  { alreadyEncLen := s.alreadyEncLen + currentEncLen
    encDataLen := s.encDataLen + if ret.isSome then (rsaSize : Int) else -1
    result :=
      match ret with
      | some block => s.result.bind fun data => writeAt data s.encDataLen block.toList
      | none => s.result
    offsets := s.offsets ++ [s.encDataLen] }

def encryptLoop (rsa : Rsa) (buffer : Bytes) (s : Encrypting) : Encrypting :=
  if s.alreadyEncLen < buffer.length then encryptLoop rsa buffer (encryptPiece rsa buffer s) else s
termination_by buffer.length - s.alreadyEncLen
decreasing_by
  simp only [encryptPiece]
  omega

def encResultLen (len : Nat) : Nat := ((len - 1) / 100 + 1) * rsaSize

def encrypting (rsa : Rsa) (buffer result : Bytes) : Encrypting :=
  encryptLoop rsa buffer { result := some (resize (encResultLen buffer.length) result) }

/-- `rsa` is missing when the key could not be read. `ndebug` is set in a build in which `assert`
does nothing. -/
def encryptByPublicKey (ndebug : Bool) (rsa : Option Rsa) (buffer result : Bytes) : Outcome :=
  if buffer.length = 0 then .returned false result
  else
    match rsa with
    | none => .returned false result
    | some rsa =>
      if 2 ^ 31 ≤ encResultLen buffer.length then .undefined
      else
        let s := encrypting rsa buffer result
        match s.result with
        | none => .undefined
        | some data =>
          if s.encDataLen = encResultLen buffer.length then .returned true data
          else if ndebug then .returned false data
          else .aborted

/-! ### Decryption -/

structure Decrypting where
  decryptedLen : Nat := 0
  resultDataLen : Nat := 0
  result : Option Bytes

def decryptLoop (rsa : Rsa) (buffer : Bytes) (s : Decrypting) : Decrypting :=
  if s.decryptedLen < buffer.length then
    match rsa.privateDecrypt ((buffer.drop s.decryptedLen).take rsaSize) with
    | none => s
    | some data =>
      decryptLoop rsa buffer
        { decryptedLen := s.decryptedLen + rsaSize
          resultDataLen := s.resultDataLen + data.length
          result := s.result.bind fun result => writeAt result s.resultDataLen data }
  else s
termination_by buffer.length - s.decryptedLen
decreasing_by
  simp only [rsaSize]
  omega

/-- It is compiled only where `assert` is in force. -/
def decryptByPrivateKey (rsa : Option Rsa) (buffer result : Bytes) : Outcome :=
  match rsa with
  | none => .returned false result
  | some rsa =>
    if 2 ^ 31 ≤ buffer.length then .undefined
    else if buffer.length % rsaSize ≠ 0 then .aborted
    else
      let s := decryptLoop rsa buffer { result := some (resize buffer.length result) }
      match s.result with
      | none => .undefined
      | some data => .returned (decide (s.decryptedLen = buffer.length)) (resize s.resultDataLen data)

variable {rsa : Rsa} {buffer : Bytes} {s t : Encrypting}

/-! ### The pieces of a text -/

/-- How many pieces `EncryptByPublicKey` cuts. -/
def pieces (len : Nat) : Nat := (len - 1) / 100 + 1

def piece (buffer : Bytes) (i : Nat) : Bytes := (buffer.drop (100 * i)).take 100

/-- What `RSA_public_encrypt` makes of a piece. -/
def block (rsa : Rsa) (buffer : Bytes) (i : Nat) : Option (Vector UInt8 128) :=
  rsa.publicEncrypt i (piece buffer i)

theorem pieces_flatten (buffer : Bytes) (n : Nat) :
    ((List.range n).map (piece buffer)).flatten = buffer.take (100 * n) := by
  induction n with
  | zero => simp
  | succ n ih =>
    rw [List.range_succ, List.map_append, List.flatten_append, ih]
    simp only [List.map_cons, List.map_nil, List.flatten_cons, List.flatten_nil,
      List.append_nil, piece]
    rw [Nat.mul_succ, List.take_add]

theorem piece_length_le (buffer : Bytes) (i : Nat) : (piece buffer i).length ≤ 100 := by
  rw [piece, List.length_take]
  exact Nat.min_le_left _ _

/-- The output offset before call `i`, if nothing interferes. -/
def offset (rsa : Rsa) (buffer : Bytes) : Nat → Int
  | 0 => 0
  | i + 1 => offset rsa buffer i + if (block rsa buffer i).isSome then (rsaSize : Int) else -1

/-- How many of the first calls have failed. -/
def failures (rsa : Rsa) (buffer : Bytes) : Nat → Nat
  | 0 => 0
  | i + 1 => failures rsa buffer i + if (block rsa buffer i).isSome then 0 else 1

theorem offset_eq (rsa : Rsa) (buffer : Bytes) (i : Nat) :
    offset rsa buffer i = 128 * (i : Int) - 129 * (failures rsa buffer i : Int) := by
  induction i with
  | zero => simp [offset, failures]
  | succ i ih =>
    simp only [offset, failures, ih, rsaSize]
    split <;> push_cast <;> omega

theorem failures_le (rsa : Rsa) (buffer : Bytes) (i : Nat) : failures rsa buffer i ≤ i := by
  induction i with
  | zero => exact Nat.le_refl _
  | succ i ih =>
    simp only [failures]
    split <;> omega

theorem failures_eq_zero_iff (rsa : Rsa) (buffer : Bytes) (n : Nat) :
    failures rsa buffer n = 0 ↔ ∀ i < n, (block rsa buffer i).isSome := by
  induction n with
  | zero => simp [failures]
  | succ n ih =>
    rw [failures, Nat.add_eq_zero_iff, ih]
    constructor
    · rintro ⟨before, last⟩ i inside
      rcases Nat.lt_succ_iff_lt_or_eq.mp inside with earlier | rfl
      · exact before i earlier
      · by_contra failed
        simp [failed] at last
    · intro all
      refine ⟨fun i inside => all i (Nat.lt_succ_of_lt inside), ?_⟩
      rw [if_pos (all n (Nat.lt_succ_self n))]

/-! ### The loop, call by call -/

/-- Where the loop is after `i` calls. -/
structure AfterCalls (rsa : Rsa) (buffer : Bytes) (i : Nat) (s : Encrypting) : Prop where
  already : s.alreadyEncLen = min (100 * i) buffer.length
  written : s.encDataLen = offset rsa buffer i
  offsets : s.offsets = (List.range i).map (offset rsa buffer)

theorem afterCalls_piece {i : Nat} (after : AfterCalls rsa buffer i s)
    (more : 100 * i < buffer.length) :
    rsa.publicEncrypt s.offsets.length
      ((buffer.drop s.alreadyEncLen).take (min 100 (buffer.length - s.alreadyEncLen))) =
        block rsa buffer i := by
  have already : s.alreadyEncLen = 100 * i := by rw [after.already]; omega
  have number : s.offsets.length = i := by rw [after.offsets, List.length_map, List.length_range]
  rw [already, number, block, piece, ← List.length_drop]
  exact congrArg _ List.take_eq_take_min.symm

theorem encryptPiece_afterCalls {i : Nat} (after : AfterCalls rsa buffer i s)
    (more : 100 * i < buffer.length) :
    AfterCalls rsa buffer (i + 1) (encryptPiece rsa buffer s) where
  already := by
    simp only [encryptPiece, after.already]
    omega
  written := by
    simp only [encryptPiece, afterCalls_piece after more, after.written]
    rfl
  offsets := by
    simp only [encryptPiece, after.written, after.offsets, List.range_succ, List.map_append,
      List.map_cons, List.map_nil]

theorem encryptPiece_result {i : Nat} (after : AfterCalls rsa buffer i s)
    (more : 100 * i < buffer.length) :
    (encryptPiece rsa buffer s).result =
      match block rsa buffer i with
      | some made => s.result.bind fun data => writeAt data (offset rsa buffer i) made.toList
      | none => s.result := by
  simp only [encryptPiece, afterCalls_piece after more, after.written]

theorem piece_inside_iff (nonempty : buffer ≠ []) (i : Nat) :
    100 * i < buffer.length ↔ i < pieces buffer.length := by
  have positive := List.length_pos_of_ne_nil nonempty
  unfold pieces
  omega

/-- What each call keeps holds once the loop has made them all. -/
theorem encryptLoop_keeps {P : Nat → Encrypting → Prop} (nonempty : buffer ≠ [])
    (keep : ∀ i s, i < pieces buffer.length → AfterCalls rsa buffer i s → P i s →
      P (i + 1) (encryptPiece rsa buffer s))
    (left : Nat) {i : Nat} (after : AfterCalls rsa buffer i s) (start : P i s)
    (calls : i + left = pieces buffer.length) :
    AfterCalls rsa buffer (pieces buffer.length) (encryptLoop rsa buffer s) ∧
      P (pieces buffer.length) (encryptLoop rsa buffer s) := by
  have inside := piece_inside_iff nonempty i
  induction left generalizing i s with
  | zero =>
    obtain rfl : i = pieces buffer.length := calls
    have finished : ¬ s.alreadyEncLen < buffer.length := by
      rw [after.already]
      omega
    rw [encryptLoop, if_neg finished]
    exact ⟨after, start⟩
  | succ left ih =>
    have more : i < pieces buffer.length := by omega
    have further : s.alreadyEncLen < buffer.length := by
      rw [after.already]
      omega
    rw [encryptLoop, if_pos further]
    exact ih (encryptPiece_afterCalls after (inside.mpr more)) (keep i s more after start) (by omega)
      (piece_inside_iff nonempty (i + 1))

theorem afterCalls_zero (result : Option Bytes) : AfterCalls rsa buffer 0 { result := result } where
  already := by simp
  written := rfl
  offsets := rfl

theorem encrypting_afterCalls (nonempty : buffer ≠ []) (result : Bytes) :
    AfterCalls rsa buffer (pieces buffer.length) (encrypting rsa buffer result) :=
  (encryptLoop_keeps (P := fun _ _ => True) nonempty (fun _ _ _ _ _ => trivial) (pieces buffer.length)
    (afterCalls_zero _) trivial (Nat.zero_add _)).1

theorem encResultLen_eq (len : Nat) : encResultLen len = 128 * pieces len := Nat.mul_comm _ _

/-- The sum of the answers is the length of the ciphertext only if each of them is a block. -/
theorem encDataLen_iff (nonempty : buffer ≠ []) (result : Bytes) :
    (encrypting rsa buffer result).encDataLen = encResultLen buffer.length ↔
      ∀ i < pieces buffer.length, (block rsa buffer i).isSome := by
  rw [(encrypting_afterCalls nonempty result).written, offset_eq, encResultLen_eq,
    ← failures_eq_zero_iff]
  push_cast
  omega

/-! ### Blocks that all succeed -/

def blockBytes (rsa : Rsa) (buffer : Bytes) (i : Nat) : Bytes :=
  ((block rsa buffer i).map Vector.toList).getD []

def joined (rsa : Rsa) (buffer : Bytes) (i : Nat) : Bytes :=
  ((List.range i).map (blockBytes rsa buffer)).flatten

theorem joined_succ (rsa : Rsa) (buffer : Bytes) (i : Nat) :
    joined rsa buffer (i + 1) = joined rsa buffer i ++ blockBytes rsa buffer i := by
  simp [joined, List.range_succ]

section Success

variable {n : Nat} (succeed : ∀ i < n, (block rsa buffer i).isSome)

include succeed

theorem blockBytes_length {i : Nat} (inside : i < n) : (blockBytes rsa buffer i).length = 128 := by
  obtain ⟨made, equal⟩ := Option.isSome_iff_exists.mp (succeed i inside)
  simp [blockBytes, equal]

theorem joined_length {i : Nat} (inside : i ≤ n) : (joined rsa buffer i).length = 128 * i := by
  induction i with
  | zero => rfl
  | succ i ih =>
    rw [joined_succ, List.length_append, ih (by omega), blockBytes_length succeed (by omega)]
    omega

theorem offset_success {i : Nat} (inside : i ≤ n) :
    offset rsa buffer i = (joined rsa buffer i).length := by
  have none := (failures_eq_zero_iff rsa buffer i).mpr fun j earlier => succeed j (by omega)
  rw [offset_eq, none, joined_length succeed inside]
  omega

end Success

/-- The blocks made so far stand at the start of the result. -/
def Filled (rsa : Rsa) (buffer space : Bytes) (i : Nat) (s : Encrypting) : Prop :=
  s.result = some (joined rsa buffer i ++ space.drop (128 * i))

theorem encryptPiece_filled {space : Bytes} {i : Nat} (nonempty : buffer ≠ [])
    (length : space.length = 128 * pieces buffer.length)
    (succeed : ∀ i < pieces buffer.length, (block rsa buffer i).isSome)
    (inside : i < pieces buffer.length) (after : AfterCalls rsa buffer i s)
    (filled : Filled rsa buffer space i s) :
    Filled rsa buffer space (i + 1) (encryptPiece rsa buffer s) := by
  obtain ⟨made, equal⟩ := Option.isSome_iff_exists.mp (succeed i inside)
  have bytes : made.toList = blockBytes rsa buffer i := by simp [blockBytes, equal]
  have room : (blockBytes rsa buffer i).length ≤ (space.drop (128 * i)).length := by
    rw [blockBytes_length succeed inside, List.length_drop]
    omega
  unfold Filled at filled ⊢
  rw [encryptPiece_result after ((piece_inside_iff nonempty i).mpr inside), equal, filled]
  simp only [Option.bind_some, bytes]
  rw [writeAt_append (offset_success succeed (Nat.le_of_lt inside)) room, joined_succ,
    List.drop_drop, blockBytes_length succeed inside, Nat.mul_succ]

theorem encrypting_result (nonempty : buffer ≠ []) (result : Bytes)
    (succeed : ∀ i < pieces buffer.length, (block rsa buffer i).isSome) :
    (encrypting rsa buffer result).result = some (joined rsa buffer (pieces buffer.length)) := by
  have length : (resize (encResultLen buffer.length) result).length =
      128 * pieces buffer.length := by
    rw [resize_length, encResultLen_eq]
  have filled : Filled rsa buffer _ _ (encrypting rsa buffer result) :=
    (encryptLoop_keeps nonempty (fun _ _ => encryptPiece_filled nonempty length succeed) (pieces buffer.length)
      (afterCalls_zero _) rfl (Nat.zero_add _)).2
  rw [Filled, List.drop_eq_nil_of_le (Nat.le_of_eq length), List.append_nil] at filled
  exact filled

theorem encrypt_success (ndebug : Bool) (nonempty : buffer ≠ [])
    (fits : encResultLen buffer.length < 2 ^ 31)
    (succeed : ∀ i < pieces buffer.length, (block rsa buffer i).isSome) (result : Bytes) :
    encryptByPublicKey ndebug (some rsa) buffer result =
      .returned true (joined rsa buffer (pieces buffer.length)) := by
  have positive := List.length_pos_of_ne_nil nonempty
  unfold encryptByPublicKey
  rw [if_neg (by omega)]
  simp only [if_neg (Nat.not_le.mpr fits), encrypting_result nonempty result succeed,
    (encDataLen_iff nonempty result).mpr succeed, if_true]

/-! ### Opening the blocks -/

/-- The loop of `DecryptByPrivateKey` over blocks that all open. -/
theorem decryptLoop_blocks (rest : List (Bytes × Bytes)) (front opened space : Bytes)
    (opens : ∀ pair ∈ rest, pair.1.length = 128 ∧ rsa.privateDecrypt pair.1 = some pair.2)
    (buffered : buffer = front ++ (rest.map Prod.fst).flatten)
    (room : (rest.map Prod.snd).flatten.length ≤ space.length) :
    decryptLoop rsa buffer
        { decryptedLen := front.length
          resultDataLen := opened.length
          result := some (opened ++ space) } =
      { decryptedLen := buffer.length
        resultDataLen := (opened ++ (rest.map Prod.snd).flatten).length
        result := some (opened ++ (rest.map Prod.snd).flatten ++ space.drop (rest.map Prod.snd).flatten.length) } := by
  induction rest generalizing front opened space with
  | nil =>
    simp only [List.map_nil, List.flatten_nil, List.append_nil] at buffered
    subst buffered
    rw [decryptLoop, if_neg (Nat.lt_irrefl _)]
    simp
  | cons pair rest ih =>
    obtain ⟨length, opening⟩ := opens pair List.mem_cons_self
    simp only [List.map_cons, List.flatten_cons] at buffered room
    have further : front.length < buffer.length := by
      rw [buffered]
      simp only [List.length_append]
      omega
    have next : (buffer.drop front.length).take rsaSize = pair.1 := by
      rw [buffered, List.drop_left]
      exact List.take_left' length
    rw [List.length_append] at room
    have continued := ih (front ++ pair.1) (opened ++ pair.2) (space.drop pair.2.length)
      (fun other member => opens other (List.mem_cons_of_mem _ member)) (by rw [buffered, List.append_assoc])
      (by rw [List.length_drop]; omega)
    rw [List.length_append, length] at continued
    rw [decryptLoop, if_pos further]
    simp only [next, opening, Option.bind_some]
    rw [writeAt_append rfl (by omega)]
    simp only [List.length_append] at continued ⊢
    rw [show rsaSize = 128 from rfl, continued]
    simp [List.drop_drop, Nat.add_assoc]

/-- The blocks of a text, each with the piece that it was made of. -/
def sealedPieces (rsa : Rsa) (buffer : Bytes) : List (Bytes × Bytes) :=
  (List.range (pieces buffer.length)).map fun i => (blockBytes rsa buffer i, piece buffer i)

theorem sealedPieces_blocks :
    ((sealedPieces rsa buffer).map Prod.fst).flatten =
      joined rsa buffer (pieces buffer.length) := by
  rw [sealedPieces, List.map_map]
  rfl

theorem sealedPieces_pieces : ((sealedPieces rsa buffer).map Prod.snd).flatten = buffer := by
  have cut := pieces_flatten buffer (pieces buffer.length)
  rw [List.take_of_length_le (by unfold pieces; omega)] at cut
  rw [sealedPieces, List.map_map]
  exact cut

theorem sealedPieces_open (matching : rsa.Matching)
    (succeed : ∀ i < pieces buffer.length, (block rsa buffer i).isSome) :
    ∀ pair ∈ sealedPieces rsa buffer, pair.1.length = 128 ∧
      rsa.privateDecrypt pair.1 = some pair.2 := by
  intro pair member
  obtain ⟨i, inside, rfl⟩ := List.mem_map.mp member
  have inside := List.mem_range.mp inside
  refine ⟨blockBytes_length succeed inside, ?_⟩
  obtain ⟨made, equal⟩ := Option.isSome_iff_exists.mp (succeed i inside)
  have small := piece_length_le buffer i
  simp only [blockBytes, equal, Option.map_some, Option.getD_some]
  exact matching i (piece buffer i) made (by omega) equal

theorem decrypt_joined (matching : rsa.Matching) (fits : encResultLen buffer.length < 2 ^ 31)
    (succeed : ∀ i < pieces buffer.length, (block rsa buffer i).isSome) (result : Bytes) :
    decryptByPrivateKey (some rsa) (joined rsa buffer (pieces buffer.length)) result =
      .returned true buffer := by
  have length := joined_length succeed (Nat.le_refl _)
  rw [encResultLen_eq] at fits
  have room : buffer.length ≤ (resize (joined rsa buffer (pieces buffer.length)).length result).length := by
    rw [resize_length, length]
    unfold pieces
    omega
  have opened := decryptLoop_blocks (sealedPieces rsa buffer) [] []
    (resize (joined rsa buffer (pieces buffer.length)).length result) (sealedPieces_open matching succeed)
    sealedPieces_blocks.symm (by rw [sealedPieces_pieces]; exact room)
  simp only [sealedPieces_pieces, List.nil_append, List.length_nil] at opened
  unfold decryptByPrivateKey
  simp only
  rw [if_neg (by omega), if_neg (by rw [length, rsaSize]; omega), opened]
  simp [resize]

/-- A text that is sealed in pieces of 100 bytes is opened in blocks of 128 to what it was. -/
theorem rsa_roundTrip (matching : rsa.Matching) (nonempty : buffer ≠ [])
    (fits : encResultLen buffer.length < 2 ^ 31)
    (succeed : ∀ i < pieces buffer.length, (block rsa buffer i).isSome) (ndebug : Bool)
    (before other : Bytes) :
    ∃ result, encryptByPublicKey ndebug (some rsa) buffer before = .returned true result ∧
      result.length = ((buffer.length - 1) / 100 + 1) * 128 ∧
      decryptByPrivateKey (some rsa) result other = .returned true buffer := by
  refine ⟨_, encrypt_success ndebug nonempty fits succeed before, ?_,
    decrypt_joined matching fits succeed other⟩
  rw [joined_length succeed (Nat.le_refl _), pieces, Nat.mul_comm]

/-- A primitive that puts the length and the bytes of a piece at the start of its block. -/
def plainBlocks : Rsa where
  publicEncrypt _ piece := some ⟨(resize 128 (UInt8.ofNat piece.length :: piece)).toArray, by simp⟩
  privateDecrypt block := some ((block.drop 1).take (block.headD 0).toNat)

theorem plainBlocks_matching : plainBlocks.Matching := by
  intro n piece block short made
  cases Option.some.inj made
  have len : (UInt8.ofNat piece.length).toNat = piece.length := by
    rw [UInt8.toNat_ofNat']
    omega
  have front : resize 128 (UInt8.ofNat piece.length :: piece) =
      UInt8.ofNat piece.length :: (piece ++ List.replicate (127 - piece.length) 0) := by
    rw [resize, List.take_of_length_le (by simp only [List.length_cons]; omega), List.length_cons,
      List.cons_append]
    congr 3
    omega
  simp only [plainBlocks, front, Vector.toList_mk, List.drop_succ_cons, List.drop_zero,
    List.headD_cons, len]
  rw [List.take_left]

/-- One full piece and a piece of a single byte. -/
def twoPieces : Bytes := List.replicate 101 65

theorem twoPieces_length : twoPieces.length = 101 := List.length_replicate

theorem twoPieces_ne_nil : twoPieces ≠ [] := List.ne_nil_of_length_eq_add_one twoPieces_length

theorem twoPieces_fits : encResultLen twoPieces.length < 2 ^ 31 := by
  rw [twoPieces_length]
  decide

theorem rsa_roundTrip_twoPieces : ∃ result,
    encryptByPublicKey false (some plainBlocks) twoPieces [] = .returned true result ∧
      result.length = ((twoPieces.length - 1) / 100 + 1) * 128 ∧
      decryptByPrivateKey (some plainBlocks) result [] = .returned true twoPieces :=
  rsa_roundTrip plainBlocks_matching twoPieces_ne_nil twoPieces_fits (fun _ _ => rfl) false [] []

/-! ### Blocks that may fail -/

/-- A block at `offset` lies inside a result for `buffer`. -/
def Inside (buffer : Bytes) (offset : Int) : Prop :=
  0 ≤ offset ∧ offset + rsaSize ≤ encResultLen buffer.length

theorem inside_iff {i : Nat} (call : i < pieces buffer.length) :
    Inside buffer (offset rsa buffer i) ↔
      failures rsa buffer i ≤ 128 * (i - failures rsa buffer i) := by
  have few := failures_le rsa buffer i
  unfold Inside
  rw [offset_eq, encResultLen_eq, rsaSize]
  push_cast
  omega

/-- `EncryptByPublicKey` has its answer from the sum alone. -/
theorem encrypt_returns_true_iff (ndebug : Bool) (nonempty : buffer ≠ [])
    (fits : encResultLen buffer.length < 2 ^ 31) (before : Bytes) :
    (∃ result, encryptByPublicKey ndebug (some rsa) buffer before = .returned true result) ↔
      ∀ i < pieces buffer.length, (block rsa buffer i).isSome := by
  constructor
  · rintro ⟨result, returned⟩
    rw [← encDataLen_iff nonempty before]
    have positive := List.length_pos_of_ne_nil nonempty
    unfold encryptByPublicKey at returned
    rw [if_neg (by omega)] at returned
    simp only [if_neg (Nat.not_le.mpr fits)] at returned
    cases written : (encrypting rsa buffer before).result with
    | none => simp [written] at returned
    | some data =>
      by_contra different
      simp only [written, if_neg different] at returned
      cases ndebug <;> simp at returned
  · intro succeed
    exact ⟨_, encrypt_success ndebug nonempty fits succeed before⟩

/-- Every call is given a place inside the result, and the answer tells whether all of them
succeeded, exactly when before each call there were at most 128 failures for each success. -/
theorem encrypt_inside_iff (ndebug : Bool) (nonempty : buffer ≠ [])
    (fits : encResultLen buffer.length < 2 ^ 31) (before : Bytes) :
    ((∀ offset ∈ (encrypting rsa buffer before).offsets, Inside buffer offset) ∧
      ((∃ result, encryptByPublicKey ndebug (some rsa) buffer before = .returned true result) ↔
        ∀ i < pieces buffer.length, (block rsa buffer i).isSome)) ↔
      ∀ i < pieces buffer.length, failures rsa buffer i ≤ 128 * (i - failures rsa buffer i) := by
  have offsets : (encrypting rsa buffer before).offsets = _ :=
    (encrypting_afterCalls nonempty before).offsets
  constructor
  · rintro ⟨inside, _⟩ i call
    rw [← inside_iff call]
    refine inside _ ?_
    rw [offsets]
    exact List.mem_map.mpr ⟨i, List.mem_range.mpr call, rfl⟩
  · intro few
    refine ⟨?_, encrypt_returns_true_iff ndebug nonempty fits before⟩
    intro place member
    rw [offsets] at member
    obtain ⟨i, call, rfl⟩ := List.mem_map.mp member
    have call := List.mem_range.mp call
    exact (inside_iff call).mpr (few i call)

/-- A primitive of which one call fails. -/
def failing (call : Nat) : Rsa where
  publicEncrypt n _ := if n = call then none else some (.replicate 128 0)
  privateDecrypt _ := none

/-- After a failure of the first call the second one writes its block from the byte before the
result on. -/
theorem encrypt_outside_failing :
    (encrypting (failing 0) twoPieces []).offsets = [0, -1] ∧
      (block (failing 0) twoPieces 1).isSome ∧ ¬ Inside twoPieces (-1) := by
  have offsets : (encrypting (failing 0) twoPieces []).offsets = _ :=
    (encrypting_afterCalls twoPieces_ne_nil []).offsets
  rw [twoPieces_length] at offsets
  exact ⟨offsets, rfl, fun inside => absurd inside.1 (by decide)⟩

theorem encrypt_inside_failing :
    ¬ (block (failing 1) twoPieces 1).isSome ∧
    (∀ offset ∈ (encrypting (failing 1) twoPieces []).offsets, Inside twoPieces offset) ∧
      ((∃ result, encryptByPublicKey true (some (failing 1)) twoPieces [] = .returned true result) ↔
        ∀ i < pieces twoPieces.length, (block (failing 1) twoPieces i).isSome) := by
  refine ⟨by decide, (encrypt_inside_iff true twoPieces_ne_nil twoPieces_fits []).mpr ?_⟩
  rw [twoPieces_length]
  decide

end Kingkong.Crypto
