import Qietr.Library.JsonText
import Qietr.Sdk.Accounts
import Qietr.Sdk.Client
import Qietr.Sdk.Crypto

/-!
# SDK — notes at rest

`note.ts`: a note as a text, and sealed under a passphrase.

* `Note.json`, `readNote`: a note as the value it is in JSON, and back.
* `serializeNote`, `parseNote`: as a text.
* `encryptNote`, `decryptNote`: under a passphrase.
* `decryptNote_encryptNote`, `decryptNote_eq_ok`: what is opened is what was sealed.
-/

namespace Qietr.Sdk

open Outcome

/-! ### As a value -/

def NoteCommitment.json (c : NoteCommitment) : Json :=
  .obj [("secret", .str c.secret), ("nullifier", .str c.nullifier),
    ("amount", .num (.ofInt c.amount)),
    ("denomId", .num (.ofInt c.denomId))]

def Note.json (note : Note) : Json :=
  .obj [("version", .str note.version),
    ("commitments", .arr (note.commitments.map NoteCommitment.json))]

def numberField (j : Json) (key : String) : Option ℤ :=
  match j.get key with
  | some (.num n) => n.integer
  | _ => none

def readCommitment (j : Json) : Option NoteCommitment := do
  let secret ← (j.get "secret").bind Json.string?
  let nullifier ← (j.get "nullifier").bind Json.string?
  let amount ← numberField j "amount"
  let denomId ← numberField j "denomId"
  some { secret, nullifier, amount, denomId := denomId.toNat }

def elements? : Json → Option (List Json)
  | .arr xs => some xs
  | _ => none

/-- A value that is used as a note. -/
def readNote (j : Json) : Option Note := do
  let version ← (j.get "version").bind Json.string?
  let commitments ← (j.get "commitments").bind elements?
  let commitments ← commitments.mapM readCommitment
  some { version, commitments }

/-- The amounts are numbers that JavaScript does not round. -/
def Note.Safe (note : Note) : Prop :=
  note.version = NOTE_VERSION ∧ ∀ c ∈ note.commitments, |c.amount| ≤ 2 ^ 53 ∧ c.denomId ≤ 2 ^ 53

theorem readCommitment_json (c : NoteCommitment) : readCommitment c.json = some c := by
  have hdenom : (c.denomId : ℤ).toNat = c.denomId := Int.toNat_natCast c.denomId
  have hsecret : c.json.get "secret" = some (.str c.secret) := rfl
  have hnullifier : c.json.get "nullifier" = some (.str c.nullifier) := rfl
  have hamount : numberField c.json "amount" = some c.amount := rfl
  have hdenomId : numberField c.json "denomId" = some (c.denomId : ℤ) := rfl
  rw [readCommitment, hsecret, hnullifier, hamount, hdenomId]
  simp only [Option.bind_some, Json.string?, Option.bind_eq_bind, hdenom]

theorem readNote_json (note : Note) : readNote note.json = some note := by
  have hversion : note.json.get "version" = some (.str note.version) := rfl
  have hcommitments : note.json.get "commitments" =
      some (.arr (note.commitments.map NoteCommitment.json)) := rfl
  have hread : (note.commitments.map NoteCommitment.json).mapM readCommitment =
      some note.commitments := by
    induction note.commitments with
    | nil => rfl
    | cons c cs ih =>
        rw [List.map_cons, List.mapM_cons, readCommitment_json, ih]
        rfl
  rw [readNote, hversion, hcommitments]
  simp only [Option.bind_some, Json.string?, elements?, Option.bind_eq_bind, hread]

theorem regularAll_json {cs : List NoteCommitment}
    (h : ∀ c ∈ cs, |c.amount| ≤ 2 ^ 53 ∧ c.denomId ≤ 2 ^ 53) :
    Json.RegularAll (cs.map NoteCommitment.json) := by
  induction cs with
  | nil => trivial
  | cons c cs ih =>
      obtain ⟨hamount, hdenom⟩ := h c List.mem_cons_self
      have hdenom' : |(c.denomId : ℤ)| ≤ 2 ^ 53 := by
        rw [Nat.abs_cast]
        exact_mod_cast hdenom
      have hkeys : ["secret", "nullifier", "amount", "denomId"].Nodup := by decide
      exact ⟨⟨hkeys, trivial, trivial, ⟨_, hamount, rfl⟩, ⟨_, hdenom', rfl⟩, trivial⟩,
        ih fun c hc => h c (List.mem_cons_of_mem _ hc)⟩

theorem regular_json {note : Note} (h : note.Safe) : note.json.Regular := by
  have hkeys : ["version", "commitments"].Nodup := by decide
  exact ⟨hkeys, trivial, regularAll_json h.2, trivial⟩

/-! ### As a text -/

def serializeNote (note : Note) : Except String String := do
  require (note.version = NOTE_VERSION) s!"unexpected note version: {note.version}"
  .ok note.json.stringify

variable (other : List Char → JsonNumber)

/-- What is returned is not looked at any further. -/
def parseNote (json : String) : Except String Json := do
  let obj ← okOr (Json.parse other json) "SyntaxError"
  require ((obj.get "version").bind Json.string? = some NOTE_VERSION ∧
    ((obj.get "commitments").bind elements?).isSome) "invalid note payload"
  .ok obj

/-! ### Under a passphrase -/

def ENCRYPTED_MAGIC : String := "qietr.enc.v1:"

def isEncryptedNote (s : String) : Bool :=
  ENCRYPTED_MAGIC.toList.isPrefixOf s.toList

/-- The message of a `DecryptError`. -/
def decryptError (reason : String) : String :=
  "note decrypt failed: " ++ reason

variable (K : Crypto)

/-- With the salt and the nonce that were drawn. -/
def encryptNote (salt : Bytes 16) (nonce : Bytes 12) (note : Note) (passphrase : String) :
    Except String String := do
  let text ← serializeNote note
  .ok (ENCRYPTED_MAGIC ++
    b64encode (K.cipher.close salt nonce (Utf8.encode passphrase) (Utf8.encode text)))

def decryptNote (encrypted passphrase : String) : Except String Json := do
  require (isEncryptedNote encrypted) (decryptError "missing qietr.enc.v1: magic")
  let blob := Base64.decode (String.ofList (encrypted.toList.drop ENCRYPTED_MAGIC.length))
  require (16 + 12 + 16 ≤ blob.length) (decryptError "blob too short")
  let plaintext ← okOr (K.cipher.open? (Utf8.encode passphrase) blob)
    (decryptError "wrong passphrase or corrupted payload")
  parseNote other (Utf8.decode plaintext)

variable {other K} {note : Note} {passphrase : String}

theorem parseNote_json (h : note.Safe) : parseNote other note.json.stringify = .ok note.json := by
  have hversion : (note.json.get "version").bind Json.string? = some NOTE_VERSION :=
    congrArg some h.1
  rw [parseNote, Json.parse_stringify (regular_json h), okOr_some, ok_bind,
    require_of _ ⟨hversion, rfl⟩, ok_bind]

/-- The text of a note begins with a brace, not with a mark of byte order. -/
theorem unmark_stringify (note : Note) : Utf8.unmark note.json.stringify = note.json.stringify := by
  have hhead : note.json.stringify.toList.head? = some '\x7b' := by
    rw [Note.json, Json.stringify, String.toList_append, String.toList_append, List.append_assoc]
    rfl
  have hne : ¬ note.json.stringify.toList.head? = some '\uFEFF' := by
    rw [hhead]
    decide
  rw [Utf8.unmark, if_neg hne, String.ofList_toList]

theorem drop_magic (s : String) :
    String.ofList ((ENCRYPTED_MAGIC ++ s).toList.drop ENCRYPTED_MAGIC.length) = s := by
  rw [String.toList_append, List.drop_left' (by rfl), String.ofList_toList]

theorem isEncryptedNote_append (s : String) : isEncryptedNote (ENCRYPTED_MAGIC ++ s) = true := by
  rw [isEncryptedNote, String.toList_append, List.isPrefixOf_iff_prefix]
  exact List.prefix_append ..

theorem encryptNote_eq_ok {salt : Bytes 16} {nonce : Bytes 12} {encrypted : String} :
    encryptNote K salt nonce note passphrase = .ok encrypted ↔
      note.version = NOTE_VERSION ∧ encrypted = ENCRYPTED_MAGIC ++ b64encode
        (K.cipher.close salt nonce (Utf8.encode passphrase) (Utf8.encode note.json.stringify)) := by
  simp only [encryptNote, serializeNote, bind_eq_ok, require_eq_ok, exists_const, Except.ok.injEq,
    exists_eq_left', and_assoc, exists_and_left]
  exact and_congr_right fun _ => eq_comm

/-- What becomes of a sealed note, under any passphrase. -/
theorem decryptNote_append {salt : Bytes 16} {nonce : Bytes 12} {text passphrase' : String} :
    decryptNote other K (ENCRYPTED_MAGIC ++ b64encode
      (K.cipher.close salt nonce (Utf8.encode passphrase) (Utf8.encode text))) passphrase' =
      (okOr (K.cipher.open? (Utf8.encode passphrase')
        (K.cipher.close salt nonce (Utf8.encode passphrase) (Utf8.encode text)))
          (decryptError "wrong passphrase or corrupted payload") >>= fun plaintext =>
        parseNote other (Utf8.decode plaintext)) := by
  have hlen : 16 + 12 + 16 ≤ (K.cipher.close salt nonce (Utf8.encode passphrase)
      (Utf8.encode text)).length := by
    rw [Cipher.length_close]
    omega
  rw [decryptNote, require_of _ (isEncryptedNote_append _), ok_bind, drop_magic, decode_b64encode]
  simp only
  rw [require_of _ hlen, ok_bind]

/-- **A note is opened** by whoever has the passphrase. -/
theorem decryptNote_encryptNote {salt : Bytes 16} {nonce : Bytes 12} {encrypted : String}
    (hsafe : note.Safe) (h : encryptNote K salt nonce note passphrase = .ok encrypted) :
    decryptNote other K encrypted passphrase = .ok note.json := by
  obtain ⟨-, rfl⟩ := encryptNote_eq_ok.mp h
  rw [decryptNote_append, Cipher.open?_close, okOr_some, ok_bind, Utf8.decode_encode,
    unmark_stringify, parseNote_json hsafe]

/-- **What is opened was sealed** under that passphrase, and is the value of a note's text. -/
theorem decryptNote_eq_ok {encrypted : String} {j : Json} :
    decryptNote other K encrypted passphrase = .ok j ↔
      ∃ salt nonce bytes, isEncryptedNote encrypted = true ∧
        Base64.decode (String.ofList (encrypted.toList.drop ENCRYPTED_MAGIC.length)) =
          K.cipher.close salt nonce (Utf8.encode passphrase) bytes ∧
        parseNote other (Utf8.decode bytes) = .ok j := by
  simp only [decryptNote, require_bind_eq_ok, okOr_bind_eq_ok]
  constructor
  · rintro ⟨hmagic, hlen, bytes, hopen, hparse⟩
    obtain ⟨salt, nonce, hblob⟩ := (Cipher.open?_eq_some (by omega)).mp hopen
    exact ⟨salt, nonce, bytes, hmagic, hblob, hparse⟩
  · rintro ⟨salt, nonce, bytes, hmagic, hblob, hparse⟩
    rw [hblob, Cipher.length_close]
    exact ⟨hmagic, by omega, bytes, Cipher.open?_close, hparse⟩

/-- **Notes survive.**  A note whose amounts are safe is sealed under any passphrase; who has it
reads the note back, as it was.  Another passphrase opens it only where its key makes the same
ciphertext of a text, which then has to be that of a note. -/
theorem note_round_trip (other : List Char → JsonNumber) (K : Crypto) (salt : Bytes 16)
    (nonce : Bytes 12) (passphrase : String) {note : Note} (hsafe : note.Safe) :
    ∃ encrypted, encryptNote K salt nonce note passphrase = .ok encrypted ∧
      isEncryptedNote encrypted = true ∧
      decryptNote other K encrypted passphrase = .ok note.json ∧ readNote note.json = some note ∧
      ∀ passphrase' j, decryptNote other K encrypted passphrase' = .ok j ↔
        ∃ bytes, parseNote other (Utf8.decode bytes) = .ok j ∧
          K.encrypt (K.argon2id (Utf8.encode passphrase) salt.toList 3 (64 * 1024) 1 32)
            nonce.toList (Utf8.encode note.json.stringify) =
            K.encrypt (K.argon2id (Utf8.encode passphrase') salt.toList 3 (64 * 1024) 1 32)
              nonce.toList bytes := by
  obtain ⟨encrypted, hencrypt⟩ : ∃ encrypted, encryptNote K salt nonce note passphrase =
      .ok encrypted := ⟨_, encryptNote_eq_ok.mpr ⟨hsafe.1, rfl⟩⟩
  obtain ⟨-, rfl⟩ := encryptNote_eq_ok.mp hencrypt
  refine ⟨_, hencrypt, isEncryptedNote_append _, decryptNote_encryptNote hsafe hencrypt,
    readNote_json note, fun passphrase' j => ?_⟩
  rw [decryptNote_append, okOr_bind_eq_ok]
  constructor
  · rintro ⟨bytes, hopen, hparse⟩
    exact ⟨bytes, hparse, Cipher.open?_close_eq_some.mp hopen⟩
  · rintro ⟨bytes, hparse, hsame⟩
    exact ⟨bytes, Cipher.open?_close_eq_some.mpr hsame, hparse⟩

/-- A note of three micro-USDC, and a passphrase that does not open it. -/
theorem note_round_trip_three :
    ∃ encrypted, decryptNote (fun _ => .ofInt 0) tagged encrypted "right" =
        .ok (Note.json ⟨NOTE_VERSION, [⟨"1", "2", 3, 0⟩]⟩) ∧
      ∀ j, decryptNote (fun _ => .ofInt 0) tagged encrypted "wrong" ≠ .ok j := by
  have hsafe : (Note.mk NOTE_VERSION [⟨"1", "2", 3, 0⟩]).Safe := ⟨rfl, by simp⟩
  obtain ⟨encrypted, -, -, hopen, -, hother⟩ :=
    note_round_trip (fun _ => .ofInt 0) tagged (Bytes.zero 16) (Bytes.zero 12) "right" hsafe
  refine ⟨encrypted, hopen, fun j hj => ?_⟩
  obtain ⟨bytes, -, hsame⟩ := (hother "wrong" j).mp hj
  have htags := List.append_inj_right' hsame (by rw [List.takeD_length, List.takeD_length])
  exact absurd htags (by decide +kernel)

end Qietr.Sdk
