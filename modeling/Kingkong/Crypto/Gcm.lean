import Kingkong.Lib.Aead

/-!
`EncryptByAESGCM` and `DecryptByAESGCM` over the `EVP` cipher context. A result of `none` is
undefined behaviour of the source: a read past the key or an `int` that overflows.
-/

namespace Kingkong.Crypto
open Lib

inductive Direction where
  | encrypt
  | decrypt
  deriving DecidableEq

/-- `EVP_CIPHER_CTX` once key and iv are set. `text` is the ciphertext so far and `expected` the tag
given by `EVP_CTRL_GCM_SET_TAG`. -/
structure Ctx where
  direction : Direction
  key : Bytes
  iv : Bytes
  ad : Bytes := []
  text : Bytes := []
  expected : Option Bytes := none

namespace Ctx

def updateAad (ctx : Ctx) (ad : Bytes) : Ctx := { ctx with ad := ctx.ad ++ ad }

/-- `EVP_EncryptUpdate` or `EVP_DecryptUpdate`: what it writes, which for decryption is not yet
verified. -/
def update (aead : Aead) (ctx : Ctx) (input : Bytes) : Bytes × Ctx :=
  let output := mask (aead.stream ctx.key ctx.iv) ctx.text.length input
  let text :=
    match ctx.direction with
    | .encrypt => output
    | .decrypt => input
  (output, { ctx with text := ctx.text ++ text })

/-- `EVP_DecryptFinal_ex` succeeds only on the tag that was set. -/
def decryptFinal (aead : Aead) (ctx : Ctx) : Bool :=
  match ctx.expected with
  | some tag => tag == (aead.tag ctx.key ctx.iv ctx.ad ctx.text).toList
  | none => false

/-- `EVP_CTRL_GCM_GET_TAG`, which fails on a decrypting context. -/
def getTag (aead : Aead) (ctx : Ctx) : Option Bytes :=
  match ctx.direction with
  | .encrypt => some (aead.tag ctx.key ctx.iv ctx.ad ctx.text).toList
  | .decrypt => none

end Ctx

/-- `iv_str`: four zero bytes and the iv in network order. -/
def ivStr (iv : Int64) : Bytes := [0, 0, 0, 0] ++ bigEndian 8 iv.toUInt64.toNat

/-- The 32 bytes at `key.c_str()`, whose terminator may be one of them. -/
def keyBytes (key : Bytes) : Bytes := (key ++ [0]).take 32

def cryptLoop (aead : Aead) (source : Bytes) (dataLen i : Nat) (ctx : Ctx) (result : Bytes) :
    Ctx × Bytes :=
  if i < dataLen then
    let inputSize := if dataLen > i + 128 then 128 else dataLen - i
    let (out, ctx) := ctx.update aead ((source.drop i).take inputSize)
    cryptLoop aead source dataLen (i + 128) ctx (result ++ out)
  else (ctx, result)
termination_by dataLen - i
decreasing_by omega

/-- The longest text for which `i + 128` stays an `int`. -/
def longest : Nat := 2 ^ 31 - 128

def encryptByAESGCM (aead : Aead) (key : Bytes) (iv : Int64) (source addata : Bytes) :
    Option Bytes :=
  if key.length < 31 ∨ 2 ^ 31 ≤ addata.length ∨ longest < source.length then none
  else
    let ctx := ({ direction := .encrypt, key := keyBytes key, iv := ivStr iv } : Ctx).updateAad addata
    let final := cryptLoop aead source source.length 0 ctx []
    some (final.2 ++ (final.1.getTag aead).getD [])

/-- `source.length() - 16` in 64 bits, kept as an `int32_t`. -/
def dataLength (length : Nat) : Int :=
  (((length + 2 ^ 64 - 16) % 2 ^ 64 + 2 ^ 31) % 2 ^ 32 : Nat) - 2 ^ 31

def decryptByAESGCM (aead : Aead) (key : Bytes) (iv : Int64) (source addata : Bytes) :
    Option Bytes :=
  if key.length < 31 ∨ 2 ^ 31 ≤ addata.length ∨ longest < (dataLength source.length).toNat then none
  else
    let ctx := ({ direction := .decrypt, key := keyBytes key, iv := ivStr iv } : Ctx).updateAad addata
    let final := cryptLoop aead source (dataLength source.length).toNat 0 ctx []
    -- Neither answer is looked at.
    let _verified := final.1.decryptFinal aead
    let _tag := final.1.getTag aead
    some final.2

variable {aead : Aead} {key source addata result : Bytes} {iv : Int64}

theorem update_output (ctx : Ctx) (input : Bytes) :
    (ctx.update aead input).1 = mask (aead.stream ctx.key ctx.iv) ctx.text.length input := rfl

theorem update_append (ctx : Ctx) (left right : Bytes) :
    ctx.update aead (left ++ right) =
      ((ctx.update aead left).1 ++ ((ctx.update aead left).2.update aead right).1,
        ((ctx.update aead left).2.update aead right).2) := by
  cases direction : ctx.direction with
  | encrypt => simp [Ctx.update, direction, mask_append]
  | decrypt => simp [Ctx.update, direction, mask_append]

theorem update_nil (ctx : Ctx) : ctx.update aead [] = ([], ctx) := by
  obtain ⟨direction, key, iv, ad, text, expected⟩ := ctx
  cases direction <;> simp [Ctx.update, mask]

theorem piece_append {dataLen i : Nat} (inside : i < dataLen) :
    (source.drop i).take (if dataLen > i + 128 then 128 else dataLen - i) ++
      (source.drop (i + 128)).take (dataLen - (i + 128)) = (source.drop i).take (dataLen - i) := by
  split
  · rename_i more
    have gap : dataLen - i = 128 + (dataLen - (i + 128)) := by omega
    rw [gap, List.take_add, List.drop_drop]
  · rename_i last
    have none : dataLen - (i + 128) = 0 := by omega
    rw [none, List.take_zero, List.append_nil]

theorem cryptLoop_eq (dataLen i : Nat) (ctx : Ctx) (result : Bytes) :
    cryptLoop aead source dataLen i ctx result =
      ((ctx.update aead ((source.drop i).take (dataLen - i))).2,
        result ++ (ctx.update aead ((source.drop i).take (dataLen - i))).1) := by
  fun_induction cryptLoop aead source dataLen i ctx result with
  | case1 i ctx result inside inputSize out next updated ih =>
    have piece : ctx.update aead ((source.drop i).take (if dataLen > i + 128 then 128 else dataLen - i)) =
        (out, next) := updated
    rw [ih, ← piece_append inside, update_append, piece, List.append_assoc]
  | case2 i ctx result ended =>
    have none : dataLen - i = 0 := by omega
    rw [none, List.take_zero, update_nil, List.append_nil]

theorem cryptLoop_zero (dataLen : Nat) (ctx : Ctx) :
    cryptLoop aead source dataLen 0 ctx [] =
      ((ctx.update aead (source.take dataLen)).2, (ctx.update aead (source.take dataLen)).1) := by
  rw [cryptLoop_eq, List.drop_zero, Nat.sub_zero, List.nil_append]

theorem decrypt_defined (long : 31 ≤ key.length) (small : addata.length < 2 ^ 31)
    (fits : (dataLength source.length).toNat ≤ longest) :
    decryptByAESGCM aead key iv source addata =
      some (mask (aead.stream (keyBytes key) (ivStr iv)) 0 (source.take (dataLength source.length).toNat)) := by
  unfold decryptByAESGCM
  rw [if_neg (by omega)]
  -- The output is rewritten and not computed: unfolding it would evaluate `dataLength`.
  simp only [cryptLoop_zero, update_output]
  rfl

theorem decrypt_eq (h : decryptByAESGCM aead key iv source addata = some result) :
    result =
      mask (aead.stream (keyBytes key) (ivStr iv)) 0 (source.take (dataLength source.length).toNat) := by
  by_cases bad : key.length < 31 ∨ 2 ^ 31 ≤ addata.length ∨ longest < (dataLength source.length).toNat
  · unfold decryptByAESGCM at h
    rw [if_pos bad] at h
    cases h
  · rw [decrypt_defined (by omega) (by omega) (by omega)] at h
    exact (Option.some.inj h).symm

theorem encrypt_defined (long : 31 ≤ key.length) (small : addata.length < 2 ^ 31)
    (fits : source.length ≤ longest) :
    encryptByAESGCM aead key iv source addata =
      some (mask (aead.stream (keyBytes key) (ivStr iv)) 0 source ++
        (aead.tag (keyBytes key) (ivStr iv) addata (mask (aead.stream (keyBytes key) (ivStr iv)) 0 source)).toList) := by
  unfold encryptByAESGCM
  rw [if_neg (by omega)]
  simp [cryptLoop_zero, Ctx.update, Ctx.updateAad, Ctx.getTag]

theorem encrypt_eq (h : encryptByAESGCM aead key iv source addata = some result) :
    source.length ≤ longest ∧ result = mask (aead.stream (keyBytes key) (ivStr iv)) 0 source ++
      (aead.tag (keyBytes key) (ivStr iv) addata (mask (aead.stream (keyBytes key) (ivStr iv)) 0 source)).toList := by
  by_cases bad : key.length < 31 ∨ 2 ^ 31 ≤ addata.length ∨ longest < source.length
  · unfold encryptByAESGCM at h
    rw [if_pos bad] at h
    cases h
  · rw [encrypt_defined (by omega) (by omega) (by omega)] at h
    exact ⟨by omega, (Option.some.inj h).symm⟩

theorem dataLength_le (length : Nat) : (dataLength length).toNat ≤ length := by
  unfold dataLength
  omega

theorem dataLength_add {length : Nat} (small : length ≤ longest) :
    dataLength (length + 16) = length := by
  unfold dataLength
  unfold longest at small
  omega

theorem keyBytes_full (length : key.length = 32) : keyBytes key = key := List.take_left' length

theorem encrypt_oneShot (length : key.length = 32) (small : addata.length < 2 ^ 31)
    (fits : source.length ≤ longest) :
    encryptByAESGCM aead key iv source addata =
      some (aead.oneShot key (ivStr iv) addata source) := by
  rw [encrypt_defined (by omega) small fits, keyBytes_full length]
  rfl

theorem decrypt_oneShot (length : key.length = 32) (small : addata.length < 2 ^ 31)
    (fits : source.length ≤ longest) :
    decryptByAESGCM aead key iv (aead.oneShot key (ivStr iv) addata source) addata =
      some source := by
  have size : (dataLength (aead.oneShot key (ivStr iv) addata source).length).toNat =
      source.length := by
    rw [oneShot_length, dataLength_add fits]
    rfl
  rw [decrypt_defined (by omega) small (by rw [size]; exact fits), size, keyBytes_full length,
    oneShot_text]

theorem decrypt_empty_iff (h : decryptByAESGCM aead key iv source addata = some result) :
    result = [] ↔ dataLength source.length ≤ 0 := by
  rw [decrypt_eq h, mask_eq_nil, ← List.length_eq_zero_iff, List.length_take]
  have bound := dataLength_le source.length
  omega

/-- A text sealed by `EncryptByAESGCM` can be changed in any way that keeps its length, and so can
the associated data: what `DecryptByAESGCM` then returns is still not empty. -/
theorem tampered_decrypts {plain other sealed : Bytes}
    (h : decryptByAESGCM aead key iv source addata = some result) (nonempty : plain ≠ [])
    (honest : encryptByAESGCM aead key iv plain other = some sealed)
    (length : source.length = sealed.length) : result ≠ [] := by
  obtain ⟨small, same⟩ := encrypt_eq honest
  have size : sealed.length = plain.length + 16 := by
    rw [same]
    simp
  have positive := List.length_pos_of_ne_nil nonempty
  rw [Ne, decrypt_empty_iff h, length, size, dataLength_add small]
  omega

/-- What `DecryptByAESGCM` returns is authenticated exactly when it is empty or the input was
authentic: the tag plays no part. It is not empty for any input that is as long as a sealed text,
whatever was changed in it. -/
theorem decrypt_authenticated_iff (h : decryptByAESGCM aead key iv source addata = some result) :
    ((result ≠ [] → Authentic aead (keyBytes key) (ivStr iv) addata source) ↔
      dataLength source.length ≤ 0 ∨ Authentic aead (keyBytes key) (ivStr iv) addata source) ∧
    ∀ plain other sealed, plain ≠ [] → encryptByAESGCM aead key iv plain other = some sealed →
      source.length = sealed.length → result ≠ [] := by
  refine ⟨?_, fun plain other sealed nonempty honest length => tampered_decrypts h nonempty honest length⟩
  rw [← decrypt_empty_iff h]
  constructor
  · intro checked
    by_cases empty : result = []
    · exact Or.inl empty
    · exact Or.inr (checked empty)
  · rintro (empty | authentic) some
    · exact absurd empty some
    · exact authentic

/-- A primitive with a visible keystream and a checksum for a tag. -/
def checksum : Aead where
  stream _ _ n := UInt8.ofNat (n + 1)
  tag _ _ ad text := .replicate 16 ((ad ++ text).foldl (· + ·) 0)

def someKey : Bytes := List.replicate 32 7

/-- Two rounds, the second with a single byte. -/
def twoRounds : Bytes := List.replicate 129 5

/-- A sealed text with a tag of zeros in the place of its own tag. -/
theorem decrypt_forged :
    encryptByAESGCM checksum someKey 9 [10, 20,
      30] [] = some ([11, 22, 29] ++ List.replicate 16 62) ∧
      decryptByAESGCM checksum someKey 9 ([11, 22, 29] ++ List.replicate 16 0) [] =
        some [10, 20, 30] ∧
      ¬ Authentic checksum (keyBytes someKey) (ivStr 9) [] ([11, 22,
        29] ++ List.replicate 16 0) := by
  refine ⟨?_, ?_, ?_⟩
  · rw [encrypt_defined (by decide) (by decide) (by decide)]
    decide
  · rw [decrypt_defined (by decide) (by decide) (by decide)]
    decide
  · rw [authentic_iff (by decide)]
    decide

theorem decrypt_authenticated_sealed :
    decryptByAESGCM checksum someKey 9 ([11, 22, 29] ++ List.replicate 16 62) [] =
      some [10, 20, 30] ∧
      Authentic checksum (keyBytes someKey) (ivStr 9) [] ([11, 22,
        29] ++ List.replicate 16 62) := by
  have opened : decryptByAESGCM checksum someKey 9 ([11, 22, 29] ++ List.replicate 16 62) [] =
      some [10, 20, 30] := by
    rw [decrypt_defined (by decide) (by decide) (by decide)]
    decide
  refine ⟨opened, (decrypt_authenticated_iff opened).1.mpr (Or.inr ?_) (by decide)⟩
  rw [authentic_iff (by decide)]
  decide

end Kingkong.Crypto
