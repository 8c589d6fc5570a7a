import Kingkong.Lib.Bytes

/-!
Authenticated encryption in counter mode: a keystream that is added to the text, and a tag over the
associated data and the ciphertext. Text may be processed in pieces.
-/

namespace Kingkong.Lib

/-- `data` with the keystream added from its byte `n` on. -/
def mask (stream : Nat → UInt8) : Nat → Bytes → Bytes
  | _, [] => []
  | n, byte :: rest => (byte ^^^ stream n) :: mask stream (n + 1) rest

section Mask

variable {stream : Nat → UInt8} {n : Nat}

@[simp] theorem mask_length (data : Bytes) : (mask stream n data).length = data.length := by
  induction data generalizing n with
  | nil => rfl
  | cons byte rest ih => simp [mask, ih]

theorem mask_append (left right : Bytes) :
    mask stream n (left ++ right) = mask stream n left ++ mask stream (n + left.length) right := by
  induction left generalizing n with
  | nil => simp [mask]
  | cons byte rest ih =>
    simp only [List.cons_append, mask, ih, List.length_cons]
    rw [Nat.add_assoc n 1 rest.length, Nat.add_comm 1 rest.length]

theorem mask_eq_nil {data : Bytes} : mask stream n data = [] ↔ data = [] := by
  rw [← List.length_eq_zero_iff, mask_length, List.length_eq_zero_iff]

/-- Adding the keystream again takes it away. -/
theorem mask_mask (data : Bytes) : mask stream n (mask stream n data) = data := by
  induction data generalizing n with
  | nil => rfl
  | cons byte rest ih => rw [mask, mask, ih, UInt8.xor_assoc, UInt8.xor_self, UInt8.xor_zero]

end Mask

/-- The primitive: the keystream of a key and an iv, and the tag of a key, an iv, associated data
and a ciphertext. -/
structure Aead where
  stream : Bytes → Bytes → Nat → UInt8
  tag : Bytes → Bytes → Bytes → Bytes → Vector UInt8 16

/-- The ciphertext of a text taken as a whole, followed by its tag. -/
def Aead.oneShot (aead : Aead) (key iv ad plain : Bytes) : Bytes :=
  let text := mask (aead.stream key iv) 0 plain
  text ++ (aead.tag key iv ad text).toList

theorem oneShot_length (aead : Aead) (key iv ad plain : Bytes) :
    (aead.oneShot key iv ad plain).length = plain.length + 16 := by
  simp [Aead.oneShot]

theorem oneShot_text (aead : Aead) (key iv ad plain : Bytes) :
    mask (aead.stream key iv) 0 ((aead.oneShot key iv ad plain).take plain.length) = plain := by
  rw [Aead.oneShot, List.take_left' (mask_length plain), mask_mask]

/-- `sealed` is a ciphertext with the tag that belongs to it. -/
def Authentic (aead : Aead) (key iv ad sealed : Bytes) : Prop :=
  ∃ text, sealed = text ++ (aead.tag key iv ad text).toList

theorem authentic_iff {aead : Aead} {key iv ad text tag : Bytes} (length : tag.length = 16) :
    Authentic aead key iv ad (text ++ tag) ↔ tag = (aead.tag key iv ad text).toList := by
  constructor
  · rintro ⟨other, same⟩
    obtain ⟨rfl, rfl⟩ := List.append_inj' same (by simp [length])
    rfl
  · rintro rfl
    exact ⟨text, rfl⟩

end Kingkong.Lib
