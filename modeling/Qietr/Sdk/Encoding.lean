import Qietr.Library.NumberText
import Qietr.Pool.Honest
import Qietr.Sdk.Client

/-!
# SDK — field elements as texts and as bytes

`prover.ts`, `randomness.ts` and `pubkey.ts`: the SDK passes a field element to the prover as a
decimal text and to the program as 32 bytes.

* `decStringToBE32`, `fieldDecToBE32`: the bytes of a text, once for each file that has it.
* `be32ToFieldDec`, `pubkeyToFieldText`: the text of bytes, and of a public key.
* `decStringToBE32_toString`: the bytes of a decimal are those of its number.
* `field_encodings_agree`: the SDK and the program agree.
-/

namespace Qietr.Sdk

open Outcome Pool BigIntText NumberText

/-! ### The conversions -/

/-- Of `prover.ts`. -/
def decStringToBE32 (dec : String) : Except String Bytes32 := do
  let n ← bigInt dec
  let hex := padStart 64 '0' (toRadix 16 n)
  let hex := if 64 < hex.length then sliceEnd 64 hex else hex
  .ok (bytesOfHex 32 hex)

/-- Of `randomness.ts`: it cuts before it pads. -/
def fieldDecToBE32 (dec : String) : Except String Bytes32 := do
  let n ← bigInt dec
  let hex := toRadix 16 n
  let hex := if 64 < hex.length then sliceEnd 64 hex else hex
  .ok (bytesOfHex 32 (padStart 64 '0' hex))

/-- The number that the bytes spell, shifted in one byte after the other. -/
def bigIntOfBytes (bytes : List UInt8) : ℕ :=
  bytes.foldl (fun n b => n <<< 8 ||| b.toNat) 0

def be32ToFieldDec (bytes : List UInt8) : Except String String := do
  require (bytes.length = 32) s!"expected 32 bytes, got {bytes.length}"
  .ok (toString (bigIntOfBytes bytes))

/-- The text that `pubkeyToFieldString` returns. -/
def pubkeyToFieldText (pubkey : Bytes32) : String :=
  toString (pubkeyToFieldString pubkey)

/-! ### What they compute -/

theorem bigInt_toString (n : ℕ) : bigInt (toString n) = .ok (n : ℤ) := by
  rw [bigInt, bigIntOfString_toString, okOr_some]

theorem bigIntOfBytes_eq (bytes : List UInt8) : bigIntOfBytes bytes = beNat bytes :=
  foldl_shiftLeft_or bytes

variable {n : ℕ}

/-- **The bytes of a decimal** are those of its number. -/
theorem decStringToBE32_toString (hn : n < 256 ^ 32) :
    decStringToBE32 (toString n) = .ok (Bytes.ofNat 32 n) := by
  have hpad : padStart 64 '0' (toRadix 16 n) = hexOf (Bytes.ofNat 32 n).toList :=
    padStart_toRadix (k := 32) (by norm_num) hn
  have hlen : ¬ 64 < (hexOf (Bytes.ofNat 32 n).toList).length := by simp
  rw [decStringToBE32, bigInt_toString, ok_bind, hpad]
  simp only [if_neg hlen, bytesOfHex_hexOf]

/-- To cut and to pad do not meet. -/
theorem fieldDecToBE32_toString (hn : n < 256 ^ 32) :
    fieldDecToBE32 (toString n) = .ok (Bytes.ofNat 32 n) := by
  have hpad : padStart 64 '0' (toRadix 16 n) = hexOf (Bytes.ofNat 32 n).toList :=
    padStart_toRadix (k := 32) (by norm_num) hn
  have hlen : ¬ 64 < (toRadix 16 n).length :=
    not_lt.mpr (toRadix_length_le (k := 32) (by norm_num) hn)
  rw [fieldDecToBE32, bigInt_toString, ok_bind]
  simp only [if_neg hlen, hpad, bytesOfHex_hexOf]

theorem be32ToFieldDec_toList (b : Bytes32) : be32ToFieldDec b.toList = .ok (toString b.toNat) := by
  rw [be32ToFieldDec, require_of _ (Vector.length_toList), bigIntOfBytes_eq]
  rfl

/-- A number that is no `u64` is no payment. -/
theorem decodePayment_overflow {b : Bytes32} (hb : 2 ^ 64 ≤ b.toNat) :
    decodePayment b = .error .paymentAmountOverflow := by
  cases h : decodePayment b with
  | ok p =>
      have hp := p.toNat_lt
      have heq := decodePayment_eq_ok.mp h
      omega
  | error e =>
      rw [decodePayment, bind_eq_error, require_eq_error] at h
      rcases h with ⟨-, rfl⟩ | ⟨_, -, h⟩
      · rfl
      · cases h

/-! ### Agreement -/

/-- **The encodings agree.**  A recipient and an amount reach the program as the field elements it
computes itself; both of the SDK's conversions give the bytes of a number; and the decimal of bytes
is the way back. -/
theorem field_encodings_agree :
    (∀ pk : Pubkey, decStringToBE32 (pubkeyToFieldText pk) = .ok (Pool.pubkeyToField pk) ∧
      (Pool.pubkeyToField pk).toNat < r) ∧
    (∀ v : UInt64, decStringToBE32 (toString v.toNat) = .ok (fieldFromU64 v) ∧
      decodePayment (fieldFromU64 v) = .ok v) ∧
    (∀ b : Bytes32, 2 ^ 64 ≤ b.toNat → decodePayment b = .error .paymentAmountOverflow) ∧
    (∀ n < 2 ^ 256, ∃ b : Bytes32, fieldDecToBE32 (toString n) = .ok b ∧
      decStringToBE32 (toString n) = .ok b ∧ b.toNat = n ∧
      be32ToFieldDec b.toList = .ok (toString n)) ∧
    (∀ b : Bytes32, ∃ dec, be32ToFieldDec b.toList = .ok dec ∧ fieldDecToBE32 dec = .ok b) := by
  have hwidth : (2 : ℕ) ^ 256 = 256 ^ 32 := by norm_num
  refine ⟨fun pk => ?_, fun v => ?_, fun b hb => decodePayment_overflow hb, fun n hn => ?_,
    fun b => ?_⟩
  · -- both clear the top three bits
    have hcanonical : Canonical (Pool.pubkeyToField pk) := canonical_pubkeyToField pk
    refine ⟨?_, hcanonical⟩
    rw [pubkeyToFieldText, pubkeyToFieldString_eq, pubkeyToField_eq_sdk,
      decStringToBE32_toString (Bytes.toNat_lt _), Bytes.ofNat_toNat]
  · have hbytes : Bytes.ofNat 32 v.toNat = fieldFromU64 v := by
      rw [← toNat_fieldFromU64, Bytes.ofNat_toNat]
    have hlt : v.toNat < 256 ^ 32 := v.toNat_lt.trans (by norm_num)
    rw [decStringToBE32_toString hlt, hbytes]
    exact ⟨rfl, decodePayment_eq_ok.mpr (toNat_fieldFromU64 v)⟩
  · rw [hwidth] at hn
    have hnat : (Bytes.ofNat 32 n).toNat = n := Bytes.toNat_ofNat_of_lt hn
    refine ⟨Bytes.ofNat 32 n, fieldDecToBE32_toString hn, decStringToBE32_toString hn, hnat, ?_⟩
    rw [be32ToFieldDec_toList, hnat]
  · refine ⟨toString b.toNat, be32ToFieldDec_toList b, ?_⟩
    rw [fieldDecToBE32_toString (Bytes.toNat_lt b), Bytes.ofNat_toNat]

end Qietr.Sdk
