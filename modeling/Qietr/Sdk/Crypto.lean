import Qietr.Library.Sealed
import Qietr.Library.Utf8

/-!
# SDK — passphrases

What notes and messages are sealed with: a key from the passphrase, and AES-GCM under it.

* `Crypto`: the platform's cryptography.
* `Crypto.cipher`: `deriveKey`, with AES-GCM.
-/

namespace Qietr.Sdk

/-- The platform's cryptography: Argon2id, and AES-GCM with a tag of sixteen bytes. -/
structure Crypto where
  argon2id : (password salt : List UInt8) → (t m p dkLen : ℕ) → List UInt8
  encrypt : (key iv plaintext : List UInt8) → List UInt8
  decrypt : (key iv ciphertext : List UInt8) → Option (List UInt8)
  length_encrypt : ∀ key iv plaintext, (encrypt key iv plaintext).length = plaintext.length + 16
  decrypt_eq_some : ∀ key iv ciphertext plaintext,
    decrypt key iv ciphertext = some plaintext ↔ ciphertext = encrypt key iv plaintext

/-- `deriveKey`, with AES-GCM under it. -/
def Crypto.cipher (K : Crypto) : Cipher 16 12 16 where
  deriveKey passphrase salt := K.argon2id passphrase salt 3 (64 * 1024) 1 32
  encrypt := K.encrypt
  decrypt := K.decrypt
  length_encrypt := K.length_encrypt
  decrypt_eq_some := K.decrypt_eq_some

/-- A cipher that only puts a tag of its key behind the text. -/
def tagged : Crypto where
  argon2id password salt _ _ _ dkLen := (password ++ salt).take dkLen
  encrypt key iv plaintext := plaintext ++ (key ++ iv).takeD 16 0
  decrypt key iv ciphertext :=
    if 16 ≤ ciphertext.length ∧ ciphertext.drop (ciphertext.length - 16) = (key ++ iv).takeD 16 0
    then some (ciphertext.take (ciphertext.length - 16)) else none
  length_encrypt _ _ _ := by rw [List.length_append, List.takeD_length]
  decrypt_eq_some key iv ciphertext plaintext := by
    rw [Option.ite_none_right_eq_some, Option.some.injEq]
    constructor
    · rintro ⟨⟨-, htag⟩, rfl⟩
      rw [← htag, List.take_append_drop]
    · rintro rfl
      rw [List.length_append, List.takeD_length, Nat.add_sub_cancel, List.drop_left, List.take_left]
      exact ⟨⟨by omega, rfl⟩, rfl⟩

end Qietr.Sdk
