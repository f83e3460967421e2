import Qietr.Msg.Wire
import Qietr.Sdk.Accounts
import Qietr.Sdk.Crypto

/-!
# SDK — messages

`msg.ts`: the instructions of the messaging program, and bodies under a passphrase.

* `buildSendMsgIx`, `buildDeleteMsgIx`, `buildCloseMsgIx`: the instructions.
* `process_buildSendMsgIx` and the others: the program reads of them what was put there.
* `messages_authorised`: whatever is sent to the program, its runs are those of signed calls.
* `encryptMsgBody`, `decryptMsgBody`: a body is sealed under a passphrase, and opened.
* `decryptMsgBody_encryptMsgBody`, `decryptMsgBody_eq_ok`: what is opened is what was sealed.
-/

namespace Qietr.Sdk

open Borsh Msg Outcome

/-! ### Instructions -/

def QIETR_MSG_PROGRAM_ID : Pubkey :=
  Bytes.ofNat 32 0x5287ec87acc0e1f42255269df6aa72981c7a760da2dfc85c4c38b1a3324e0f1b

def MAX_MESSAGE_BYTES : ℕ := 1024

structure SendMsgAccounts where
  sender : Pubkey

variable (env : MsgEnv)

def findMsgPda (sender recipient : Pubkey) (nonce : List UInt8) : Pubkey :=
  env.pda ⟨sender, recipient, bytesAt 8 nonce⟩

def buildSendMsgIx (recipient : Pubkey) (nonce body : List UInt8) (accts : SendMsgAccounts)
    (programId : Pubkey) : Except String Instruction := do
  require (nonce.length = 8) s!"nonce must be 8 bytes, got {nonce.length}"
  require (body.length ≤ MAX_MESSAGE_BYTES) s!"body exceeds {MAX_MESSAGE_BYTES} bytes"
  .ok
    { programId
      keys :=
        [⟨findMsgPda env accts.sender recipient nonce, false, true⟩, ⟨accts.sender, true, true⟩,
          ⟨Pubkey.default, false, false⟩]
      data := SEND_DISC ++ (recipient.toList ++ (nonce ++ (leBytes 4 body.length ++ body))) }

def buildDeleteMsgIx (msgPda recipient programId : Pubkey) : Instruction where
  programId
  keys := [⟨msgPda, false, true⟩, ⟨recipient, true, false⟩]
  data := DELETE_DISC

def buildCloseMsgIx (msgPda recipient programId : Pubkey) : Instruction where
  programId
  keys := [⟨msgPda, false, true⟩, ⟨recipient, true, true⟩]
  data := CLOSE_DISC

variable {env} {s : MsgState} {now : Int64} {tx : Transaction env.address} {ix : Instruction}

/-- **A message that is built is sent.** -/
theorem process_buildSendMsgIx {recipient : Pubkey} {nonce : Bytes 8} {body : List UInt8}
    {sender : Signer env.address} {programId : Pubkey}
    (hix : buildSendMsgIx env recipient nonce.toList body ⟨sender.key⟩ programId = .ok ix)
    (hsigned : tx.signer? sender.key = some sender) :
    process env s now tx ix = send env s now sender.key recipient nonce body := by
  obtain ⟨-, hix⟩ := require_bind_eq_ok.mp hix
  obtain ⟨hlen, hix⟩ := require_bind_eq_ok.mp hix
  obtain rfl := Except.ok.inj hix
  have hbody : body.length < 256 ^ 4 := hlen.trans_lt (by decide)
  have hread : SendArgs.read ((SEND_DISC ++ (recipient.toList ++ (nonce.toList ++
      (leBytes 4 body.length ++ body)))).drop 8) = some (⟨recipient, nonce, body⟩, []) := by
    have h := SendArgs.read_write ⟨recipient, nonce, body⟩ hbody []
    rw [List.append_nil] at h
    exact h
  have hnonce : findMsgPda env sender.key recipient nonce.toList =
      env.pda ⟨sender.key, recipient, nonce⟩ := by
    rw [findMsgPda, ← List.append_nil nonce.toList, bytesAt_toList]
  rw [process, if_pos (by rfl), processSend, hread, okOr_some, ok_bind]
  simp only [hnonce, keyAt, mutAt, pdaAt, programAt, signerAt, Instruction.account?,
    List.getElem?_cons_zero, List.getElem?_cons_succ, Option.map_some, okOr_some, ok_bind, hsigned,
    require_of _ trivial]

theorem process_buildDeleteMsgIx {message : Pubkey} {recipient : Signer env.address}
    {programId : Pubkey} (hsigned : tx.signer? recipient.key = some recipient) :
    process env s now tx (buildDeleteMsgIx message recipient.key programId) =
      delete env s message recipient.key := by
  have hdata : (buildDeleteMsgIx message recipient.key programId).data = DELETE_DISC := rfl
  rw [process, hdata, if_neg (show ¬ DELETE_DISC.take 8 = SEND_DISC by decide), if_pos (by rfl),
    processOwned]
  simp only [buildDeleteMsgIx, keyAt, mutAt, signerAt, Instruction.account?,
    List.getElem?_cons_zero, List.getElem?_cons_succ, Option.map_some, okOr_some, ok_bind, hsigned,
    require_of _ trivial]

theorem process_buildCloseMsgIx {message : Pubkey} {recipient : Signer env.address}
    {programId : Pubkey} (hsigned : tx.signer? recipient.key = some recipient) :
    process env s now tx (buildCloseMsgIx message recipient.key programId) =
      close env s message recipient.key := by
  have hdata : (buildCloseMsgIx message recipient.key programId).data = CLOSE_DISC := rfl
  rw [process, hdata, if_neg (show ¬ CLOSE_DISC.take 8 = SEND_DISC by decide),
    if_neg (show ¬ CLOSE_DISC.take 8 = DELETE_DISC by decide), if_pos (by rfl), processOwned]
  simp only [buildCloseMsgIx, keyAt, mutAt, signerAt, Instruction.account?,
    List.getElem?_cons_zero, List.getElem?_cons_succ, Option.map_some, okOr_some, ok_bind, hsigned,
    require_of _ trivial]

/-- The instruction of a call, as the SDK builds it. -/
def instructionOf (env : MsgEnv) : Call → Except String Instruction
  | .send sender recipient nonce body =>
      buildSendMsgIx env recipient nonce.toList body ⟨sender⟩ QIETR_MSG_PROGRAM_ID
  | .delete message recipient => .ok (buildDeleteMsgIx message recipient QIETR_MSG_PROGRAM_ID)
  | .close message recipient => .ok (buildCloseMsgIx message recipient QIETR_MSG_PROGRAM_ID)

/-- **What is built is executed**, in any transaction that is signed for it. -/
theorem process_instructionOf {c : Call} (hix : instructionOf env c = .ok ix)
    (hsigned : (tx.signer? c.authority).isSome) : process env s now tx ix = exec env s now c := by
  obtain ⟨signer, hsigner⟩ := Option.isSome_iff_exists.mp hsigned
  have hkey := Transaction.signer?_key hsigner
  cases c with
  | send sender recipient nonce body =>
      obtain rfl : signer.key = sender := hkey
      exact process_buildSendMsgIx hix hsigner
  | delete message recipient =>
      obtain rfl : signer.key = recipient := hkey
      obtain rfl := Except.ok.inj hix
      exact process_buildDeleteMsgIx hsigner
  | close message recipient =>
      obtain rfl : signer.key = recipient := hkey
      obtain rfl := Except.ok.inj hix
      exact process_buildCloseMsgIx hsigner

/-- Only a body that the program refuses is not built. -/
theorem instructionOf_of_exec {c : Call} {s' : MsgState} (h : exec env s now c = .ok s') :
    ∃ ix, instructionOf env c = .ok ix := by
  cases c with
  | send sender recipient nonce body =>
      obtain ⟨-, hlen, -⟩ := send_eq_ok.mp h
      exact ⟨_, require_bind_eq_ok.mpr ⟨Vector.length_toList, require_bind_eq_ok.mpr ⟨hlen, rfl⟩⟩⟩
  | delete message recipient => exact ⟨_, rfl⟩
  | close message recipient => exact ⟨_, rfl⟩

/-- **The messaging program on the wire.**  Whatever transactions reach it, in any order, its runs
are those of signed calls: each account that changes is a new message, signed for by its sender, or
one that its recipient has signed to empty or to remove.  And each call that succeeds is what the
SDK's instruction for it does, in any transaction that carries the signature. -/
theorem messages_authorised (env : MsgEnv)
    {log : List (Int64 × Transaction env.address × Instruction)} {s : MsgState}
    (h : WireRun env log s) :
    (∃ calls, MsgRun env calls s ∧ List.Forall₂ (Msg.Carries env) log calls) ∧
    (∀ now tx ix s', process env s now tx ix = .ok s' →
      ∃ authority, (tx.signer? authority).isSome ∧
        ∀ key, Changed env now authority key (s key) (s' key)) ∧
    ∀ now c s', exec env s now c = .ok s' → ∃ ix, instructionOf env c = .ok ix ∧
      ∀ tx : Transaction env.address, (tx.signer? c.authority).isSome →
        process env s now tx ix = .ok s' := by
  refine ⟨h.refines, ?_, ?_⟩
  · intro now tx ix s' hprocess
    obtain ⟨c, hexec, hsigned⟩ := exists_call hprocess
    exact ⟨c.authority, hsigned, exec_changes hexec⟩
  · intro now c s' hexec
    obtain ⟨ix, hix⟩ := instructionOf_of_exec hexec
    exact ⟨ix, hix, fun tx hsigned => (process_instructionOf hix hsigned).trans hexec⟩

/-- Alice writes to Bob, where every message lies at one address. -/
def oneMailbox : MsgEnv := ⟨fun _ => zero32, fun _ => 255⟩

def alice : Signer oneMailbox.address := ⟨Bytes.ofNat 32 1, fun _ => show zero32 ≠ _ by decide⟩

def bob : Signer oneMailbox.address := ⟨Bytes.ofNat 32 2, fun _ => show zero32 ≠ _ by decide⟩

theorem exists_mail :
    ∃ s, exec oneMailbox (fun _ => none) 7 (.send alice.key bob.key (Bytes.zero 8) [1]) = .ok s ∧
      send oneMailbox (fun _ => none) 7 alice.key bob.key (Bytes.zero 8) [1] = .ok s := by
  obtain ⟨s, hsend⟩ : ∃ s, send oneMailbox (fun _ => none) 7 alice.key bob.key (Bytes.zero 8) [1] =
      .ok s := ⟨_, send_eq_ok.mpr ⟨rfl, by decide, rfl⟩⟩
  exact ⟨s, hsend, hsend⟩

theorem messages_authorised_sent :
    ∃ tx ix s, WireRun oneMailbox [(7, tx, ix)] s ∧ s zero32 ≠ none ∧
      (∃ calls, MsgRun oneMailbox calls s ∧
        List.Forall₂ (Msg.Carries oneMailbox) [(7, tx, ix)] calls) ∧
      (∀ now tx ix s', process oneMailbox s now tx ix = .ok s' →
        ∃ authority, (tx.signer? authority).isSome ∧
          ∀ key, Changed oneMailbox now authority key (s key) (s' key)) ∧
      ∀ now c s', exec oneMailbox s now c = .ok s' → ∃ ix, instructionOf oneMailbox c = .ok ix ∧
        ∀ tx : Transaction oneMailbox.address, (tx.signer? c.authority).isSome →
          process oneMailbox s now tx ix = .ok s' := by
  obtain ⟨s, hexec, hsend⟩ := exists_mail
  obtain ⟨ix, hix⟩ := instructionOf_of_exec hexec
  let tx : Transaction oneMailbox.address := ⟨some alice.key, [ix], [alice]⟩
  have hrun : WireRun oneMailbox ([] ++ [(7, tx, ix)]) s :=
    .snoc (.start rfl) ((process_instructionOf hix (by rfl)).trans hexec)
  refine ⟨tx, ix, s, hrun, ?_, messages_authorised oneMailbox hrun⟩
  obtain ⟨-, -, rfl⟩ := send_eq_ok.mp hsend
  exact (Function.update_self ..).trans_ne (Option.some_ne_none _)

/-! ### Bodies -/

variable (K : Crypto)

/-- With the salt and the nonce that were drawn. -/
def encryptMsgBody (salt : Bytes 16) (nonce : Bytes 12) (plaintext passphrase : String) : String :=
  b64encode (K.cipher.close salt nonce (Utf8.encode passphrase) (Utf8.encode plaintext))

def decryptMsgBody (encrypted passphrase : String) : Except String String := do
  let blob := Base64.decode encrypted
  require (16 + 12 + 16 ≤ blob.length) "encrypted body too short"
  let plaintext ← okOr (K.cipher.open? (Utf8.encode passphrase) blob)
    "The operation failed for an operation-specific reason"
  .ok (Utf8.decode plaintext)

variable {K}

/-- **A body is opened** by whoever has the passphrase. -/
theorem decryptMsgBody_encryptMsgBody (salt : Bytes 16) (nonce : Bytes 12)
    (plaintext passphrase : String) :
    decryptMsgBody K (encryptMsgBody K salt nonce plaintext passphrase) passphrase =
      .ok (Utf8.unmark plaintext) := by
  have hlen : 16 + 12 + 16 ≤ (K.cipher.close salt nonce (Utf8.encode passphrase)
      (Utf8.encode plaintext)).length := by
    rw [Cipher.length_close]
    omega
  rw [decryptMsgBody, encryptMsgBody, decode_b64encode, require_of _ hlen, ok_bind,
    Cipher.open?_close, okOr_some, ok_bind, Utf8.decode_encode]

/-- **And what is opened was sealed** under that passphrase. -/
theorem decryptMsgBody_eq_ok {encrypted passphrase text : String} :
    decryptMsgBody K encrypted passphrase = .ok text ↔
      ∃ salt nonce bytes, Utf8.decode bytes = text ∧
        Base64.decode encrypted = K.cipher.close salt nonce (Utf8.encode passphrase) bytes := by
  simp only [decryptMsgBody, require_bind_eq_ok, okOr_bind_eq_ok, Except.ok.injEq]
  constructor
  · rintro ⟨hlen, bytes, hopen, htext⟩
    obtain ⟨salt, nonce, hblob⟩ := (Cipher.open?_eq_some (by omega)).mp hopen
    exact ⟨salt, nonce, bytes, htext, hblob⟩
  · rintro ⟨salt, nonce, bytes, htext, hblob⟩
    rw [hblob, Cipher.length_close]
    exact ⟨by omega, bytes, Cipher.open?_close, htext⟩

end Qietr.Sdk
