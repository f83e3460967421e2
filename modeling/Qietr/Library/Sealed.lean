import Qietr.Library.BigEndian

/-!
# Library — sealed bytes

Bytes under a passphrase: a salt, a nonce, and behind them the ciphertext with its tag.

* `Cipher`: an authenticated cipher, with keys from passphrases.
* `Cipher.close`, `Cipher.open?`: bytes are sealed, and opened.
* `Cipher.open?_eq_some`: what is opened is what was sealed, under the same passphrase.
-/

/-- An authenticated cipher for salts and nonces of these lengths.  Under a key and a nonce, bytes
are decrypted just when they are what the cipher makes of the plaintext. -/
structure Cipher (saltLen nonceLen tagLen : ℕ) where
  deriveKey : (passphrase : List UInt8) → (salt : List UInt8) → List UInt8
  encrypt : (key nonce plaintext : List UInt8) → List UInt8
  decrypt : (key nonce ciphertext : List UInt8) → Option (List UInt8)
  length_encrypt : ∀ key nonce plaintext,
    (encrypt key nonce plaintext).length = plaintext.length + tagLen
  decrypt_eq_some : ∀ key nonce ciphertext plaintext,
    decrypt key nonce ciphertext = some plaintext ↔ ciphertext = encrypt key nonce plaintext

namespace Cipher

variable {saltLen nonceLen tagLen : ℕ} (C : Cipher saltLen nonceLen tagLen)

def close (salt : Bytes saltLen) (nonce : Bytes nonceLen) (passphrase plaintext : List UInt8) :
    List UInt8 :=
  salt.toList ++ (nonce.toList ++
    C.encrypt (C.deriveKey passphrase salt.toList) nonce.toList plaintext)

def open? (passphrase blob : List UInt8) : Option (List UInt8) :=
  C.decrypt (C.deriveKey passphrase (blob.take saltLen)) ((blob.drop saltLen).take nonceLen)
    (blob.drop (saltLen + nonceLen))

variable {C} {salt : Bytes saltLen} {nonce : Bytes nonceLen} {passphrase plaintext : List UInt8}

@[simp] theorem length_close :
    (C.close salt nonce passphrase plaintext).length =
      saltLen + (nonceLen + (plaintext.length + tagLen)) := by
  simp [close, C.length_encrypt]

theorem exists_toList {n : ℕ} {bs : List UInt8} (h : bs.length = n) :
    ∃ v : Bytes n, v.toList = bs :=
  ⟨⟨bs.toArray, by rwa [List.size_toArray]⟩, rfl⟩

/-- What was sealed is opened under a passphrase whose key makes the same of what it yields. -/
theorem open?_close_eq_some {passphrase' plaintext' : List UInt8} :
    C.open? passphrase' (C.close salt nonce passphrase plaintext) = some plaintext' ↔
      C.encrypt (C.deriveKey passphrase salt.toList) nonce.toList plaintext =
        C.encrypt (C.deriveKey passphrase' salt.toList) nonce.toList plaintext' := by
  rw [open?, ← List.drop_drop, close, List.take_left' (Vector.length_toList),
    List.drop_left' (Vector.length_toList), List.take_left' (Vector.length_toList),
    List.drop_left' (Vector.length_toList)]
  exact C.decrypt_eq_some ..

/-- What was sealed is opened. -/
theorem open?_close : C.open? passphrase (C.close salt nonce passphrase plaintext) =
    some plaintext :=
  open?_close_eq_some.mpr rfl

/-- **And nothing else is**: what is opened under a passphrase was sealed under it. -/
theorem open?_eq_some {blob : List UInt8} (hlen : saltLen + nonceLen ≤ blob.length) :
    C.open? passphrase blob = some plaintext ↔
      ∃ salt nonce, blob = C.close salt nonce passphrase plaintext := by
  constructor
  · intro h
    have hblob := (C.decrypt_eq_some ..).mp h
    obtain ⟨salt, hsalt⟩ : ∃ v : Bytes saltLen, v.toList = blob.take saltLen :=
      exists_toList (by rw [List.length_take]; omega)
    obtain ⟨nonce, hnonce⟩ : ∃ v : Bytes nonceLen, v.toList = (blob.drop saltLen).take nonceLen :=
      exists_toList (by rw [List.length_take, List.length_drop]; omega)
    refine ⟨salt, nonce, ?_⟩
    rw [close, hsalt, hnonce, ← hblob, ← List.drop_drop, List.take_append_drop,
      List.take_append_drop]
  · rintro ⟨salt, nonce, rfl⟩
    exact open?_close

end Cipher
