import Qietr.Attestor.Filters
import Qietr.Sdk.Authorised
import Qietr.Sdk.Messages

/-!
# Web — messages

`MessagingManager.tsx`: the form of a message, and the inbox.

* `handleSend`: the instruction a form sends; `handleSend_eq_ok`: which forms do.
* `fetchInbox`: the messages of the accounts a node returns, the newest first.
* `handleDecrypt`: the text of a message, under a passphrase.
* `mailbox_of_send`, `exists_send`: a message stays until its recipient takes it out, and each has
  been sent.
* `mail_delivered`: in every run, an inbox is what was sent to it.
-/

open Outcome

namespace Qietr.Web

open Attestor Base64 Borsh Msg Sdk

/-! ### The form -/

structure SendForm where
  recipient : String
  passphrase : String
  body : String

/-- What is drawn at random for a message. -/
structure Draws where
  nonce : Bytes 8
  salt : Bytes 16
  iv : Bytes 12

variable (K : Crypto) (env : MsgEnv)

/-- The instruction that is signed and sent, or what the form says. -/
def handleSend (signer : Option Pubkey) (form : SendForm) (draws : Draws) :
    Except String Instruction := do
  let sender ← okOr signer "Connect a wallet first."
  let recipient ← okOr (pubkeyOfText form.recipient).toOption "Invalid Solana address."
  require (BigIntText.trim form.body.toList ≠ []) "Message body cannot be empty."
  require ((Utf8.encode form.body).length ≤ 1024) "Message body exceeds 1024 bytes."
  require (form.passphrase ≠ "") "Enter a passphrase for encryption."
  let encrypted := encryptMsgBody K draws.salt draws.iv form.body form.passphrase
  buildSendMsgIx env recipient draws.nonce.toList (Utf8.encode encrypted) ⟨sender⟩
    QIETR_MSG_PROGRAM_ID

/-! ### The inbox -/

structure InboxMessage where
  pda : String
  /-- `from`. -/
  sender : String
  timestamp : ℤ
  bodyBase64 : String

def inboxFilters (toPubkey : Pubkey) : List Filter :=
  [.dataSize 1115, .memcmp 40 (Base58.encode toPubkey.toList) .base58]

/-- The accounts a node returns: those that pass the filters, each once, in any order. -/
def Returned (s : MsgState) (filters : List Filter) (accounts : List (Pubkey × List UInt8)) :
    Prop :=
  (accounts.map Prod.fst).Nodup ∧ ∀ key data, (key, data) ∈ accounts ↔
    ∃ msg, s key = some msg ∧ msg.data = data ∧ ∀ f ∈ filters, f.Matches data

/-- Of what an account says, what is listed. -/
def inboxMessage (msg : EncryptedMessage) : InboxMessage where
  pda := msg.pda
  sender := msg.sender
  timestamp := msg.timestamp
  bodyBase64 := msg.bodyBase64

/-- `b.timestamp - a.timestamp` is what they are sorted by. -/
def newestFirst (a b : InboxMessage) : Bool :=
  b.timestamp ≤ a.timestamp

def fetchInbox (accounts : List (Pubkey × List UInt8)) : List InboxMessage :=
  (accounts.filterMap fun account =>
    (parseMessageAccount env account.2).map inboxMessage).mergeSort newestFirst

/-- A byte is a character of a text that `atob` returns. -/
def binaryString (bs : List UInt8) : String :=
  String.ofList (bs.map fun b => Char.ofNat b.toNat)

def handleDecrypt (msg : InboxMessage) (passphrase : String) : Except String String := do
  require (passphrase ≠ "") "Enter passphrase first."
  let bodyStr ← okOr (atob msg.bodyBase64) "Decryption failed. Wrong passphrase?"
  okOr (decryptMsgBody K (binaryString bodyStr) passphrase).toOption
    "Decryption failed. Wrong passphrase?"

/-! ### The text of a body -/

/-- The text of some bytes: digits, and what fills up the last four characters. -/
theorem exists_digits (bs : List UInt8) :
    ∃ ds k, base64Chars bs = ds.map base64Digit ++ List.replicate k '=' ∧ k ≤ 2 ∧
      (ds.length + k) % 4 = 0 ∧ (∀ d ∈ ds, d < 64) ∧ bytesOf ds = bs := by
  induction bs using base64Chars.induct with
  | case1 => exact ⟨[], 0, rfl, by omega, rfl, by simp, rfl⟩
  | case2 a =>
      have ha := a.toNat_lt
      refine ⟨[a.toNat / 4, a.toNat % 4 * 16], 2, rfl, by omega, by simp, ?_, ?_⟩
      · simp only [List.forall_mem_cons, List.not_mem_nil, false_implies, implies_true, and_true]
        omega
      · rw [bytesOf, ofNat_of_eq (b := a) (by omega)]
  | case3 a b =>
      have ha := a.toNat_lt
      have hb := b.toNat_lt
      refine ⟨[a.toNat / 4, a.toNat % 4 * 16 + b.toNat / 16, b.toNat % 16 * 4], 1, rfl, by omega,
        by simp, ?_, ?_⟩
      · simp only [List.forall_mem_cons, List.not_mem_nil, false_implies, implies_true, and_true]
        omega
      · rw [bytesOf, ofNat_of_eq (b := a) (by omega), ofNat_of_eq (b := b) (by omega)]
  | case4 a b c rest ih =>
      have ha := a.toNat_lt
      have hb := b.toNat_lt
      have hc := c.toNat_lt
      obtain ⟨ds, k, hchars, hk, hlen, hds, hbytes⟩ := ih
      refine ⟨a.toNat / 4 :: (a.toNat % 4 * 16 + b.toNat / 16) ::
        (b.toNat % 16 * 4 + c.toNat / 64) :: c.toNat % 64 :: ds, k, ?_, hk, ?_, ?_, ?_⟩
      · rw [base64Chars, hchars]
        rfl
      · simp only [List.length_cons]
        omega
      · simp only [List.forall_mem_cons]
        exact ⟨by omega, by omega, by omega, by omega, hds⟩
      · rw [bytesOf, ofNat_of_eq (b := a) (by omega), ofNat_of_eq (b := b) (by omega),
          ofNat_of_eq (b := c) (by omega), hbytes]

/-- A digit is in ASCII, and no blank, no filling and of the standard alphabet. -/
theorem base64Digit_spec {d : ℕ} (hd : d < 64) :
    (base64Digit d).toNat < 0x80 ∧ base64Digit d ∉ ['\t', '\n', '\x0c', '\r', ' '] ∧
      base64Digit d ≠ '=' ∧ standardDigit (base64Digit d) = some d := by
  revert d
  decide +kernel

theorem toNat_lt_of_mem {bs : List UInt8} {c : Char} (h : c ∈ base64Chars bs) :
    c.toNat < 0x80 ∧ c ∉ ['\t', '\n', '\x0c', '\r', ' '] := by
  obtain ⟨ds, k, hchars, -, -, hds, -⟩ := exists_digits bs
  rw [hchars] at h
  rcases List.mem_append.mp h with h | h
  · obtain ⟨d, hd, rfl⟩ := List.mem_map.mp h
    obtain ⟨hascii, hblank, -⟩ := base64Digit_spec (hds d hd)
    exact ⟨hascii, hblank⟩
  · obtain rfl := List.eq_of_mem_replicate h
    decide

/-- **A body is read back** from its text, also by `atob`. -/
theorem atob_b64encode (bs : List UInt8) : atob (b64encode bs) = some bs := by
  obtain ⟨ds, k, hchars, hk, hlen, hds, hbytes⟩ := exists_digits bs
  have hfilter : (base64Chars bs).filter (· ∉ ['\t', '\n', '\x0c', '\r', ' ']) = base64Chars bs :=
    List.filter_eq_self.mpr fun c hc => decide_eq_true (toNat_lt_of_mem hc).2
  have hfill : '=' ∉ ds.map base64Digit := by
    intro h
    obtain ⟨d, hd, hdigit⟩ := List.mem_map.mp h
    exact (base64Digit_spec (hds d hd)).2.2.1 hdigit
  have hread : (ds.map base64Digit).mapM standardDigit = some ds := by
    clear hchars hlen hfill hbytes
    induction ds with
    | nil => rfl
    | cons d ds ih =>
        obtain ⟨-, -, -, hdigit⟩ := base64Digit_spec (hds d List.mem_cons_self)
        rw [List.map_cons, List.mapM_cons, hdigit,
          ih fun d hd => hds d (List.mem_cons_of_mem _ hd)]
        rfl
  have hunpad : unpad (base64Chars bs) = ds.map base64Digit := by
    rw [hchars, unpad_append hk (by rwa [List.length_map]) hfill]
  simp only [atob, b64encode, String.toList_ofList, hfilter, hunpad, List.length_map, hread,
    Option.map_some, hbytes]
  rw [if_neg (by omega)]

/-- The text of some bytes as bytes, and these as a text. -/
theorem binaryString_encode (bs : List UInt8) :
    binaryString (Utf8.encode (b64encode bs)) = b64encode bs := by
  have hascii : ∀ c ∈ base64Chars bs, c.toNat < 0x80 := fun c hc => (toNat_lt_of_mem hc).1
  rw [b64encode, Utf8.encode_of_ascii hascii, binaryString, List.map_map]
  congr 1
  refine (List.map_congr_left fun c hc => ?_).trans (List.map_id _)
  have hlt := hascii c hc
  rw [Function.comp_apply, UInt8.toNat_ofNat_of_lt' (hlt.trans (by decide)), Char.ofNat_toNat, id]

theorem length_base64Chars (bs : List UInt8) :
    (base64Chars bs).length = 4 * ((bs.length + 2) / 3) := by
  induction bs using base64Chars.induct with
  | case1 => rfl
  | case2 a => simp [base64Chars]
  | case3 a b => simp [base64Chars]
  | case4 a b c rest ih =>
      rw [base64Chars]
      simp only [List.length_cons, ih]
      omega

/-- Four characters for three bytes. -/
theorem length_encode_b64encode (bs : List UInt8) :
    (Utf8.encode (b64encode bs)).length = 4 * ((bs.length + 2) / 3) := by
  rw [b64encode, Utf8.encode_of_ascii fun c hc => (toNat_lt_of_mem hc).1, List.length_map,
    length_base64Chars]

/-! ### What is sent, and what is read of it -/

variable {K env} {signer : Option Pubkey} {form : SendForm} {draws : Draws} {ix : Instruction}

theorem toOption_eq_some {ε α : Type*} {x : Except ε α} {a : α} :
    x.toOption = some a ↔ x = .ok a := by
  cases x with
  | error e => simp [Except.toOption]
  | ok b => simp [Except.toOption]

/-- The body of a message. -/
def bodyOf (K : Crypto) (form : SendForm) (draws : Draws) : List UInt8 :=
  Utf8.encode (encryptMsgBody K draws.salt draws.iv form.body form.passphrase)

theorem length_bodyOf :
    (bodyOf K form draws).length = 4 * ((44 + (Utf8.encode form.body).length + 2) / 3) := by
  rw [bodyOf, encryptMsgBody, length_encode_b64encode, Cipher.length_close]
  omega

/-- **Which forms are sent.**  A text is sent up to 724 bytes: what it is sealed in is longer, and
so is what that is written as. -/
theorem handleSend_eq_ok :
    handleSend K env signer form draws = .ok ix ↔
      ∃ sender recipient, signer = some sender ∧ pubkeyOfText form.recipient = .ok recipient ∧
        BigIntText.trim form.body.toList ≠ [] ∧ (Utf8.encode form.body).length ≤ 724 ∧
        form.passphrase ≠ "" ∧
        instructionOf env (.send sender recipient draws.nonce (bodyOf K form draws)) = .ok ix := by
  have hlen : (bodyOf K form draws).length = 4 * ((44 + (Utf8.encode form.body).length + 2) / 3) :=
    length_bodyOf
  simp only [handleSend, okOr_bind_eq_ok, require_bind_eq_ok, toOption_eq_some]
  constructor
  · rintro ⟨sender, hsigner, recipient, hrecipient, hblank, -, hpass, hix⟩
    obtain ⟨-, hix'⟩ := require_bind_eq_ok.mp hix
    obtain ⟨hmax, -⟩ := require_bind_eq_ok.mp hix'
    change (bodyOf K form draws).length ≤ 1024 at hmax
    exact ⟨sender, recipient, hsigner, hrecipient, hblank, by omega, hpass, hix⟩
  · rintro ⟨sender, recipient, hsigner, hrecipient, hblank, hmax, hpass, hix⟩
    exact ⟨sender, hsigner, recipient, hrecipient, hblank, by omega, hpass, hix⟩

/-- **What was sealed is shown** to whoever has the passphrase. -/
theorem handleDecrypt_bodyOf {msg : InboxMessage} (hpass : form.passphrase ≠ "")
    (hbody : msg.bodyBase64 = b64encode (bodyOf K form draws)) :
    handleDecrypt K msg form.passphrase = .ok (Utf8.unmark form.body) := by
  rw [handleDecrypt, require_of _ hpass, ok_bind, hbody, atob_b64encode, okOr_some, ok_bind, bodyOf,
    encryptMsgBody, binaryString_encode, ← encryptMsgBody, decryptMsgBody_encryptMsgBody]
  rfl

/-! ### Letters -/

variable {log : List (Int64 × Call)} {s : MsgState}

/-- The recipient takes nothing out of the address. -/
def Untouched (key recipient : Pubkey) (log : List (Int64 × Call)) : Prop :=
  ∀ a ∈ log, a.2 ≠ .delete key recipient ∧ a.2 ≠ .close key recipient

theorem mailbox_append (log : List (Int64 × Call)) (a : Int64 × Call) :
    mailbox env (log ++ [a]) = (mailbox env log).after env a := by
  rw [mailbox, List.foldl_append]
  rfl

/-- **A letter stays** until its recipient takes it out: its address is not free for another, and
nobody else may touch it. -/
theorem mailbox_of_send {log' : List (Int64 × Call)} {now : Int64} {sender recipient : Pubkey}
    {nonce : Bytes 8} {body : List UInt8}
    (hrun : MsgRun env (log ++ (now, .send sender recipient nonce body) :: log') s)
    (hlog : Untouched (env.pda ⟨sender, recipient, nonce⟩) recipient log') :
    mailbox env (log ++ (now, .send sender recipient nonce body) :: log')
      (env.pda ⟨sender, recipient, nonce⟩) = some ⟨sender, recipient, now, body⟩ := by
  induction log' using List.reverseRecOn generalizing s with
  | nil =>
      rw [mailbox_append, Mailbox.after]
      exact Function.update_self ..
  | append_singleton log' a ih =>
      rw [← List.cons_append, ← List.append_assoc] at hrun ⊢
      obtain ⟨s', hrun', hs⟩ := hrun.last
      have hletter := ih hrun' fun b hb => hlog b (List.mem_append_left _ hb)
      have hholds := (MsgRun.mailbox hrun' (env.pda ⟨sender, recipient, nonce⟩)).1
      rw [hletter, Option.map_eq_some_iff] at hholds
      obtain ⟨msg, hmsg, hmsgLetter⟩ := hholds
      obtain ⟨hdelete, hclose⟩ := hlog a (List.mem_append_right _ (List.mem_singleton_self a))
      rw [mailbox_append, ← hletter]
      obtain ⟨clock, call⟩ := a
      -- an instruction on the same address would fail, or is its recipient's
      have howned : ∀ {key owner m}, loadMessage env s' key owner = .ok m →
          key = env.pda ⟨sender, recipient, nonce⟩ → owner = recipient := by
        rintro key owner m hload rfl
        obtain ⟨hm, -, hrecipient⟩ := loadMessage_eq_ok.mp hload
        obtain rfl := Option.some.inj (hmsg.symm.trans hm)
        exact hrecipient.symm.trans (congrArg Letter.recipient hmsgLetter)
      cases call with
      | send sender' recipient' nonce' body' =>
          obtain ⟨hnone, -, -⟩ := send_eq_ok.mp hs
          refine Function.update_of_ne (fun heq => ?_) ..
          rw [← heq, hmsg] at hnone
          cases hnone
      | delete key owner =>
          obtain ⟨m, hload, -⟩ := delete_eq_ok.mp hs
          refine Function.update_of_ne (fun heq => hdelete ?_) ..
          rw [howned hload heq.symm, heq]
      | close key owner =>
          obtain ⟨m, hload, -⟩ := close_eq_ok.mp hs
          refine Function.update_of_ne (fun heq => hclose ?_) ..
          rw [howned hload heq.symm, heq]

/-- Where a letter comes from. -/
def Sent (env : MsgEnv) (log : List (Int64 × Call)) (key : Pubkey) (letter : Letter) : Prop :=
  ∃ nonce body, key = env.pda ⟨letter.sender, letter.recipient, nonce⟩ ∧
    (letter.timestamp, .send letter.sender letter.recipient nonce body) ∈ log ∧
    (letter.body = body ∨
      letter.body = [] ∧ ∃ now, (now, .delete key letter.recipient) ∈ log)

theorem Sent.append {key : Pubkey} {letter : Letter} (h : Sent env log key letter)
    (a : Int64 × Call) : Sent env (log ++ [a]) key letter := by
  obtain ⟨nonce, body, hkey, hsend, hbody⟩ := h
  refine ⟨nonce, body, hkey, List.mem_append_left _ hsend, hbody.imp id ?_⟩
  rintro ⟨hempty, now, hdelete⟩
  exact ⟨hempty, now, List.mem_append_left _ hdelete⟩

/-- **Each letter has been sent**, and is as it was unless its recipient emptied it. -/
theorem exists_send (hrun : MsgRun env log s) {key : Pubkey} {letter : Letter}
    (hletter : mailbox env log key = some letter) : Sent env log key letter := by
  refine hrun.invariant (fun log _ => ∀ key letter, mailbox env log key = some letter →
    Sent env log key letter) ?_ ?_ key letter hletter
  · intro _ _ key letter hletter
    cases hletter
  · rintro log s ⟨now, call⟩ s' hrun hsent hs key letter hletter
    rw [mailbox_append] at hletter
    cases call with
    | send sender recipient nonce body =>
        by_cases heq : key = env.pda ⟨sender, recipient, nonce⟩
        · subst heq
          rw [Mailbox.after, Function.update_self] at hletter
          obtain rfl := Option.some.inj hletter
          exact ⟨nonce, body, rfl, List.mem_append_right _ (List.mem_singleton_self _), .inl rfl⟩
        · rw [Mailbox.after, Function.update_of_ne heq] at hletter
          exact (hsent key letter hletter).append _
    | delete key' owner =>
        by_cases heq : key = key'
        · subst heq
          rw [Mailbox.after, Function.update_self, Option.map_eq_some_iff] at hletter
          obtain ⟨old, hold, rfl⟩ := hletter
          obtain ⟨nonce, body, hkey, hsend, -⟩ := hsent key old hold
          obtain ⟨msg, hload, -⟩ := delete_eq_ok.mp hs
          obtain ⟨hmsg, -, hrecipient⟩ := loadMessage_eq_ok.mp hload
          have hholds := (MsgRun.mailbox hrun key).1
          rw [hold, hmsg, Option.map_some, Option.some.injEq] at hholds
          have howner : old.recipient = owner :=
            (congrArg Letter.recipient hholds).symm.trans hrecipient
          refine ⟨nonce, body, hkey, List.mem_append_left _ hsend, .inr ⟨rfl, now, ?_⟩⟩
          rw [howner]
          exact List.mem_append_right _ (List.mem_singleton_self _)
        · rw [Mailbox.after, Function.update_of_ne heq] at hletter
          exact (hsent key letter hletter).append _
    | close key' owner =>
        by_cases heq : key = key'
        · subst heq
          rw [Mailbox.after, Function.update_self] at hletter
          cases hletter
        · rw [Mailbox.after, Function.update_of_ne heq] at hletter
          exact (hsent key letter hletter).append _

/-! ### The inbox of a run -/

theorem matches_inboxFilters {msg : Message} {toPubkey : Pubkey} :
    (∀ f ∈ inboxFilters toPubkey, f.Matches msg.data) ↔ msg.recipient = toPubkey := by
  have hrecipient : (msg.data.drop 40).take 32 = msg.recipient.toList := by
    have hsender : msg.data.drop 8 = msg.sender.toList ++ _ := rfl
    rw [drop_next hsender (n := 32) (Vector.length_toList)]
    exact List.take_left' Vector.length_toList
  simp only [inboxFilters, List.forall_mem_cons, List.not_mem_nil, false_implies, implies_true,
    and_true, Filter.Matches, msg.length_data, true_and, Encoding.decode, Base58.decode_encode,
    Option.some.injEq, exists_eq_left', Vector.length_toList, hrecipient, Vector.toList_inj]

variable {toPubkey : Pubkey} {accounts : List (Pubkey × List UInt8)}

/-- The messages of an inbox, one for each letter to it. -/
theorem mem_fetchInbox (hrun : MsgRun env log s)
    (haccounts : Returned s (inboxFilters toPubkey) accounts) {e : InboxMessage} :
    e ∈ fetchInbox env accounts ↔ ∃ key letter, mailbox env log key = some letter ∧
      letter.recipient = toPubkey ∧ e = inboxMessage (shown key letter) := by
  rw [fetchInbox, List.mem_mergeSort, List.mem_filterMap]
  constructor
  · rintro ⟨⟨key, data⟩, hmem, he⟩
    obtain ⟨msg, hmsg, rfl, hfilters⟩ := (haccounts.2 key data).mp hmem
    obtain ⟨hletter, hkey⟩ := hrun.mailbox key
    rw [parseMessageAccount_data, hkey msg hmsg, Option.map_some, Option.some.injEq] at he
    refine ⟨key, msg.letter, ?_, matches_inboxFilters.mp hfilters, he.symm⟩
    rw [← hletter, hmsg, Option.map_some]
  · rintro ⟨key, letter, hletter, hrecipient, rfl⟩
    obtain ⟨hholds, hkey⟩ := hrun.mailbox key
    rw [hletter, Option.map_eq_some_iff] at hholds
    obtain ⟨msg, hmsg, rfl⟩ := hholds
    refine ⟨(key, msg.data), (haccounts.2 _ _).mpr ⟨msg, hmsg, rfl, ?_⟩, ?_⟩
    · exact matches_inboxFilters.mpr hrecipient
    · rw [parseMessageAccount_data, hkey msg hmsg]
      rfl

/-- No address is listed twice. -/
theorem nodup_fetchInbox (hrun : MsgRun env log s)
    (haccounts : Returned s (inboxFilters toPubkey) accounts) :
    ((fetchInbox env accounts).map InboxMessage.pda).Nodup := by
  have hperm := (List.mergeSort_perm (accounts.filterMap fun account =>
    (parseMessageAccount env account.2).map inboxMessage) newestFirst).map InboxMessage.pda
  refine hperm.nodup_iff.mpr ?_
  have hkeys : (accounts.filterMap fun account =>
      (parseMessageAccount env account.2).map inboxMessage).map InboxMessage.pda =
      (accounts.map Prod.fst).map fun key => Base58.encode key.toList := by
    have hall : ∀ account ∈ accounts, ∃ msg, s account.1 = some msg ∧ msg.data = account.2 :=
      fun account h => by
        obtain ⟨msg, hmsg, hdata, -⟩ := (haccounts.2 account.1 account.2).mp h
        exact ⟨msg, hmsg, hdata⟩
    clear haccounts hperm
    induction accounts with
    | nil => rfl
    | cons account accounts ih =>
        obtain ⟨msg, hmsg, hdata⟩ := hall account List.mem_cons_self
        rw [List.filterMap_cons, ← hdata, parseMessageAccount_data,
          (hrun.mailbox account.1).2 msg hmsg]
        simp only [Option.map_some, List.map_cons]
        rw [ih fun account h => hall account (List.mem_cons_of_mem _ h)]
        rfl
  rw [hkeys]
  refine haccounts.1.map fun key key' h => ?_
  have hdecode := congrArg Base58.decode h
  simp only [Base58.decode_encode, Option.some.injEq] at hdecode
  exact Vector.toList_inj.mp hdecode

/-- **Messages are delivered.**  In every run of the program, whichever accounts a node returns for
an inbox, in whatever order:

* a message that was sent to it is listed, under its sender and its time, for as long as the
  recipient does not take it out;
* whatever is listed has been sent to it, by the sender it names, and has the body that was sent,
  or none, and then the recipient has deleted it;
* no message is listed twice, and none after an older one.

A form that is sent is a message to the recipient it names, whose body shows the text, without a
mark of byte order, to whoever has the passphrase. -/
theorem mail_delivered (K : Crypto) (env : MsgEnv) {log : List (Int64 × Call)} {s : MsgState}
    (hrun : MsgRun env log s) {toPubkey : Pubkey} {accounts : List (Pubkey × List UInt8)}
    (haccounts : Returned s (inboxFilters toPubkey) accounts) :
    (∀ before now sender nonce body after,
      log = before ++ (now, .send sender toPubkey nonce body) :: after →
      Untouched (env.pda ⟨sender, toPubkey, nonce⟩) toPubkey after →
        inboxMessage (shown (env.pda ⟨sender, toPubkey, nonce⟩) ⟨sender, toPubkey, now, body⟩) ∈
          fetchInbox env accounts) ∧
    (∀ e ∈ fetchInbox env accounts, ∃ now sender nonce body,
      (now, .send sender toPubkey nonce body) ∈ log ∧
      e.pda = Base58.encode (env.pda ⟨sender, toPubkey, nonce⟩).toList ∧
      e.sender = Base58.encode sender.toList ∧ e.timestamp = Doubles.double now.toInt ∧
      (e.bodyBase64 = b64encode body ∨ e.bodyBase64 = "" ∧
        ∃ later, (later, .delete (env.pda ⟨sender, toPubkey, nonce⟩) toPubkey) ∈ log)) ∧
    ((fetchInbox env accounts).map InboxMessage.pda).Nodup ∧
    (fetchInbox env accounts).Pairwise (fun a b => b.timestamp ≤ a.timestamp) ∧
    ∀ signer form draws ix, handleSend K env signer form draws = .ok ix →
      ∃ sender recipient body, signer = some sender ∧ pubkeyOfText form.recipient = .ok recipient ∧
        (∀ s now tx, (tx.signer? sender).isSome →
          process env s now tx ix = send env s now sender recipient draws.nonce body) ∧
        ∀ e : InboxMessage, e.bodyBase64 = b64encode body →
          handleDecrypt K e form.passphrase = .ok (Utf8.unmark form.body) := by
  refine ⟨?_, ?_, nodup_fetchInbox hrun haccounts, ?_, ?_⟩
  · rintro before now sender nonce body after rfl hafter
    exact (mem_fetchInbox hrun haccounts).mpr ⟨_, _, mailbox_of_send hrun hafter, rfl, rfl⟩
  · intro e he
    obtain ⟨key, letter, hletter, rfl, rfl⟩ := (mem_fetchInbox hrun haccounts).mp he
    obtain ⟨nonce, body, rfl, hsend, hbody⟩ := exists_send hrun hletter
    refine ⟨_, _, nonce, body, hsend, rfl, rfl, rfl, ?_⟩
    rcases hbody with hbody | ⟨hempty, hdelete⟩
    · exact .inl (congrArg b64encode hbody)
    · exact .inr ⟨congrArg b64encode hempty, hdelete⟩
  · have hsorted := @List.pairwise_mergeSort _ newestFirst
      (fun a b c hab hbc => decide_eq_true ((of_decide_eq_true hbc).trans (of_decide_eq_true hab)))
      (fun a b => by simpa [newestFirst] using le_total b.timestamp a.timestamp)
      (accounts.filterMap fun account => (parseMessageAccount env account.2).map inboxMessage)
    exact hsorted.imp of_decide_eq_true
  · intro signer form draws ix hix
    obtain ⟨sender, recipient, hsigner, hrecipient, -, -, hpass, hbuilt⟩ := handleSend_eq_ok.mp hix
    exact ⟨sender, recipient, bodyOf K form draws, hsigner, hrecipient,
      fun s now tx hsigned => process_instructionOf hbuilt hsigned,
      fun e he => handleDecrypt_bodyOf hpass he⟩

/-! ### Two messages of Alice's to Bob -/

/-- Two addresses, for the nonce of zeros and for any other. -/
def twoMailboxes : MsgEnv where
  address seed := if seed.1.nonce = Bytes.zero 8 then Bytes.ofNat 32 8 else Bytes.ofNat 32 9
  bump _ := 255

/-- A form for Bob, and what is drawn for it. -/
def hello : SendForm where
  recipient := Base58.encode bob.key.toList
  passphrase := "secret"
  body := "Hello"

def helloDraws : Draws where
  nonce := Bytes.zero 8
  salt := Bytes.zero 16
  iv := Bytes.zero 12

theorem length_bodyOf_hello : (bodyOf tagged hello helloDraws).length ≤ MAX_MSG_BYTES := by
  rw [length_bodyOf]
  decide

theorem exists_handleSend_hello :
    ∃ ix, handleSend tagged twoMailboxes (some alice.key) hello helloDraws = .ok ix := by
  have hrecipient : pubkeyOfText hello.recipient = .ok bob.key := by
    rw [hello, pubkeyOfText, Base58.decode_encode]
    exact dif_pos Vector.length_toList
  exact ⟨_, handleSend_eq_ok.mpr ⟨alice.key, bob.key, rfl, hrecipient, by decide, by decide,
    by decide, require_bind_eq_ok.mpr ⟨Vector.length_toList,
      require_bind_eq_ok.mpr ⟨length_bodyOf_hello, rfl⟩⟩⟩⟩

/-- Two accounts of one recipient. -/
theorem returned_pair {key key' : Pubkey} {msg msg' : Message} (hne : key ≠ key')
    (hkey : s key = some msg) (hkey' : s key' = some msg')
    (hnone : ∀ k, k ≠ key → k ≠ key' → s k = none) (hto : msg.recipient = toPubkey)
    (hto' : msg'.recipient = toPubkey) :
    Returned s (inboxFilters toPubkey) [(key, msg.data), (key', msg'.data)] := by
  refine ⟨by simpa using hne, fun k data => ?_⟩
  simp only [List.mem_cons, Prod.mk.injEq, List.not_mem_nil, or_false]
  constructor
  · rintro (⟨rfl, rfl⟩ | ⟨rfl, rfl⟩)
    · exact ⟨msg, hkey, rfl, matches_inboxFilters.mpr hto⟩
    · exact ⟨msg', hkey', rfl, matches_inboxFilters.mpr hto'⟩
  · rintro ⟨m, hm, rfl, -⟩
    by_cases hk : k = key
    · subst hk
      exact .inl ⟨rfl, by rw [Option.some.inj (hkey.symm.trans hm)]⟩
    · by_cases hk' : k = key'
      · subst hk'
        exact .inr ⟨rfl, by rw [Option.some.inj (hkey'.symm.trans hm)]⟩
      · rw [hnone k hk hk'] at hm
        cases hm

/-- A message, and another that is deleted. -/
def twoLetters (body : List UInt8) : List (Int64 × Call) :=
  [(7, .send alice.key bob.key (Bytes.zero 8) body),
    (8, .send alice.key bob.key (Bytes.ofNat 8 1) [1]), (9, .delete (Bytes.ofNat 32 9) bob.key)]

theorem exists_twoLetters {body : List UInt8} (hlen : body.length ≤ MAX_MSG_BYTES) :
    ∃ (s : MsgState) (accounts : List (Pubkey × List UInt8)),
      MsgRun twoMailboxes (twoLetters body) s ∧ Returned s (inboxFilters bob.key) accounts := by
  have hne : (Bytes.ofNat 32 8 : Pubkey) ≠ Bytes.ofNat 32 9 := by decide
  obtain ⟨first, hfirst⟩ : ∃ msg, msg = newMessage twoMailboxes 7
    ⟨alice.key, bob.key, Bytes.zero 8⟩ body := ⟨_, rfl⟩
  obtain ⟨second, hsecond⟩ : ∃ msg, msg = newMessage twoMailboxes 8
    ⟨alice.key, bob.key, Bytes.ofNat 8 1⟩ [1] := ⟨_, rfl⟩
  let s₁ : MsgState := Function.update (fun _ => none) (Bytes.ofNat 32 8) (some first)
  let s₂ : MsgState := Function.update s₁ (Bytes.ofNat 32 9) (some second)
  let emptied : Message := { second with bodyLen := 0, body := Bytes.zero MAX_MSG_BYTES }
  have hstart : MsgRun twoMailboxes [] fun _ => none := .start rfl
  have hsent : send twoMailboxes (fun _ => none) 7 alice.key bob.key (Bytes.zero 8) body =
      .ok s₁ := send_eq_ok.mpr ⟨rfl, hlen, by rw [← hfirst]; rfl⟩
  have hsent' : send twoMailboxes s₁ 8 alice.key bob.key (Bytes.ofNat 8 1) [1] = .ok s₂ :=
    send_eq_ok.mpr ⟨Function.update_of_ne hne.symm _ _, by decide, by rw [← hsecond]; rfl⟩
  have hloaded : loadMessage twoMailboxes s₂ (Bytes.ofNat 32 9) bob.key = .ok second :=
    loadMessage_eq_ok.mpr ⟨Function.update_self .., by rw [hsecond]; rfl, by rw [hsecond]; rfl⟩
  have hdeleted : delete twoMailboxes s₂ (Bytes.ofNat 32 9) bob.key =
      .ok (Function.update s₂ (Bytes.ofNat 32 9) (some emptied)) :=
    delete_eq_ok.mpr ⟨second, hloaded, rfl⟩
  have hsteps : MsgStep twoMailboxes (fun _ => none)
        (7, .send alice.key bob.key (Bytes.zero 8) body) s₁ ∧
      MsgStep twoMailboxes s₁ (8, .send alice.key bob.key (Bytes.ofNat 8 1) [1]) s₂ ∧
      MsgStep twoMailboxes s₂ (9, .delete (Bytes.ofNat 32 9) bob.key) _ :=
    ⟨hsent, hsent', hdeleted⟩
  refine ⟨_, _, ((hstart.snoc hsteps.1).snoc hsteps.2.1).snoc hsteps.2.2,
    returned_pair hne (show _ = some first from ?_)
      (show _ = some emptied from Function.update_self ..) ?_
      (by rw [hfirst]; rfl) (show second.recipient = bob.key by rw [hsecond]; rfl)⟩
  · rw [Function.update_of_ne hne]
    exact (Function.update_of_ne hne _ _).trans (Function.update_self ..)
  · intro k hk hk'
    rw [Function.update_of_ne hk']
    exact (Function.update_of_ne hk' _ _).trans (Function.update_of_ne hk _ _)

/-- Both are listed: the first shows the text of a form, and the second has no body any more. -/
theorem mail_delivered_bob : ∃ (s : MsgState) (accounts : List (Pubkey × List UInt8))
    (ix : Instruction) (e e' : InboxMessage),
    MsgRun twoMailboxes (twoLetters (bodyOf tagged hello helloDraws)) s ∧
    Returned s (inboxFilters bob.key) accounts ∧
    handleSend tagged twoMailboxes (some alice.key) hello helloDraws = .ok ix ∧
    e ∈ fetchInbox twoMailboxes accounts ∧ e' ∈ fetchInbox twoMailboxes accounts ∧
    handleDecrypt tagged e hello.passphrase = .ok hello.body ∧ e'.bodyBase64 = "" := by
  obtain ⟨ix, hix⟩ := exists_handleSend_hello
  obtain ⟨s, accounts, hrun, hreturned⟩ := exists_twoLetters length_bodyOf_hello
  have huntouched : Untouched (twoMailboxes.pda ⟨alice.key, bob.key, Bytes.zero 8⟩) bob.key
      (twoLetters (bodyOf tagged hello helloDraws)).tail := by
    intro a ha
    simp only [twoLetters, List.tail_cons, List.mem_cons, List.not_mem_nil, or_false] at ha
    rcases ha with rfl | rfl
    · exact ⟨nofun, nofun⟩
    · refine ⟨fun h => ?_, nofun⟩
      injection h with hkey
      exact absurd hkey (by decide)
  have hdelivered := (mail_delivered tagged twoMailboxes hrun hreturned).1 [] 7 alice.key
    (Bytes.zero 8) _ _ rfl huntouched
  have hlisted := (mem_fetchInbox hrun hreturned).mpr
    ⟨Bytes.ofNat 32 9, ⟨alice.key, bob.key, 8, []⟩, rfl, rfl, rfl⟩
  have hshown : handleDecrypt tagged
      (inboxMessage (shown (twoMailboxes.pda ⟨alice.key, bob.key, Bytes.zero 8⟩)
        ⟨alice.key, bob.key, 7, bodyOf tagged hello helloDraws⟩)) hello.passphrase =
      .ok (Utf8.unmark hello.body) :=
    handleDecrypt_bodyOf (by decide) rfl
  exact ⟨s, accounts, ix, _, _, hrun, hreturned, hix, hdelivered, hlisted, hshown, rfl⟩

end Qietr.Web
