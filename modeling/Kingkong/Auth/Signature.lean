import Kingkong.Auth.Model

/-!
What a signature is about. The random id and the device id at the end of the signed text have fixed
lengths, but nothing stands between the product type and the version, or between the version and the
token.
-/

namespace Kingkong.Auth
open Lib

def decimal (x : Int32) : Bytes := text (toString x.toInt)

/-- The signed text up to the token, for a product type and a version. -/
def heading (product : Int32 × Int32) : Bytes := decimal product.1 ++ decimal product.2

def hexDigit (byte : UInt8) : Bool := (48 ≤ byte && byte ≤ 57) || (97 ≤ byte && byte ≤ 102)

/-- The text of a UUID: 36 characters, with hyphens at four places and hexadecimal digits
elsewhere. -/
def uuidForm (id : Bytes) : Bool :=
  id.length == 36 && (List.range 36).all fun i =>
    if i == 8 || i == 13 || i == 18 || i == 23 then id.getD i 0 == 45 else hexDigit (id.getD i 0)

/-- The signed text tells apart any two requests with products in use. -/
def Identifies (used : Int32 × Int32 → Prop) : Prop :=
  ∀ a b, used a → used b → ∀ (c d : Nat) (token other randomId otherId : Bytes),
    uuidForm randomId = true → uuidForm otherId = true →
    signatureSource (authInfo c a.1 a.2 token randomId) = signatureSource (authInfo d b.1 b.2 other otherId) →
    a = b ∧ token = other ∧ randomId = otherId

/-- No heading is the start of another one. -/
def HeadingsApart (used : Int32 × Int32 → Prop) : Prop :=
  ∀ a b, used a → used b → heading a <+: heading b → a = b

variable {used : Int32 × Int32 → Prop} {a b : Int32 × Int32} {c d : Nat} {token other randomId otherId : Bytes}

theorem signatureSource_authInfo : signatureSource (authInfo c a.1 a.2 token randomId) =
    heading a ++ token ++ (text "nodeviceid" ++ randomId) := by
  simp only [signatureSource, authInfo, heading, decimal, List.append_assoc]

theorem uuidForm_length (form : uuidForm randomId = true) : randomId.length = 36 := by
  simp only [uuidForm, Bool.and_eq_true, beq_iff_eq] at form
  exact form.1

/-- The ids at the end can be read off from the right. -/
theorem signatureSource_split (form : uuidForm randomId = true)
    (otherForm : uuidForm otherId = true)
    (same : signatureSource (authInfo c a.1 a.2 token randomId) =
      signatureSource (authInfo d b.1 b.2 other otherId)) :
    heading a ++ token = heading b ++ other ∧ randomId = otherId := by
  rw [signatureSource_authInfo, signatureSource_authInfo] at same
  have lengths : (text "nodeviceid" ++ randomId).length =
      (text "nodeviceid" ++ otherId).length := by
    rw [List.length_append, List.length_append, uuidForm_length form, uuidForm_length otherForm]
  obtain ⟨front, back⟩ := List.append_inj' same lengths
  exact ⟨front, List.append_cancel_left back⟩

theorem identifies_of_apart (apart : HeadingsApart used) : Identifies used := by
  intro a b usedA usedB c d token other randomId otherId form otherForm same
  obtain ⟨front, ids⟩ := signatureSource_split form otherForm same
  obtain ⟨products, tokens⟩ := append_injective_iff.mpr apart a b usedA usedB token other front
  exact ⟨products, tokens, ids⟩

def nilUuid : Bytes :=
  List.replicate 8 48 ++ 45 :: (List.replicate 4 48 ++ 45 :: (List.replicate 4 48 ++ 45 ::
    (List.replicate 4 48 ++ 45 :: List.replicate 12 48)))

theorem nilUuid_form : uuidForm nilUuid = true := by decide

/-- What is missing of a longer heading may be the start of the token. -/
theorem apart_of_identifies (identifies : Identifies used) : HeadingsApart used := by
  rintro a b usedA usedB ⟨rest, same⟩
  refine (identifies a b usedA usedB 0 0 rest [] nilUuid nilUuid nilUuid_form nilUuid_form ?_).1
  rw [signatureSource_authInfo, signatureSource_authInfo, same, List.append_nil]

/-- The signed text identifies the request exactly when no product type and version in use, written
one after the other, are the start of others. -/
theorem identifies_iff (used : Int32 × Int32 → Prop) : Identifies used ↔ HeadingsApart used :=
  ⟨apart_of_identifies, identifies_of_apart⟩

/-- Version 23 of product 1 and version 3 of product 12 are signed alike. -/
theorem identifies_collision : heading (1, 23) = heading (12, 3) ∧ ¬ Identifies fun _ => True := by
  have same : heading (1, 23) = heading (12, 3) := by decide +kernel
  refine ⟨same, ?_⟩
  intro identifies
  have texts : signatureSource (authInfo 0 1 23 [116] nilUuid) =
      signatureSource (authInfo 1 12 3 [116] nilUuid) := by
    rw [signatureSource_authInfo (a := (1, 23)), signatureSource_authInfo (a := (12, 3)), same]
  have equal := identifies (1, 23) (12, 3) trivial trivial 0 1 [116] [116] nilUuid nilUuid
    nilUuid_form nilUuid_form texts
  exact absurd equal.1 (by decide)

/-- Products whose numbers have fixed lengths are told apart. -/
example : Identifies (· ∈ [(1, 10), (2, 10), (2, 11)]) := by
  refine identifies_of_apart fun a b usedA usedB => ?_
  simp only [List.mem_cons, List.not_mem_nil, or_false] at usedA usedB
  rcases usedA with rfl | rfl | rfl <;> rcases usedB with rfl | rfl | rfl <;> decide +kernel

end Kingkong.Auth
