import Qietr.Msg.Program
import Qietr.Solana.Context

/-!
# Messages — instructions on the wire

How the program reads the three instructions of a transaction.

* `SendArgs.read`: the arguments of a `send`, whose body has any length.
* `process`: an instruction, from its data and its accounts.
* `exists_call`: what is processed is one of the three calls, and whoever it needs has signed.
* `WireRun.refines`: the runs of transactions are runs of calls; `exec_changes`: whose messages a
  call changes.
-/

namespace Qietr.Msg

open Borsh Outcome

/-! ### Data -/

/-- The first eight bytes of the SHA-256 of `global:send`, `global:delete` and `global:close`. -/
def SEND_DISC : List UInt8 := [102, 251, 20, 187, 65, 75, 12, 69]
def DELETE_DISC : List UInt8 := [165, 204, 60, 98, 134, 15, 83, 134]
def CLOSE_DISC : List UInt8 := [98, 165, 201, 177, 108, 65, 206, 96]

structure SendArgs where
  /-- `to`. -/
  recipient : Pubkey
  nonce : Bytes 8
  body : List UInt8

def SendArgs.read : Reader SendArgs := do
  let recipient ← readArray 32
  let nonce ← readArray 8
  let body ← readBytes
  pure { recipient, nonce, body }

def SendArgs.write (args : SendArgs) : List UInt8 :=
  args.recipient.toList ++ (args.nonce.toList ++ writeBytes args.body)

/-- What is written is read back; bytes after it are not read. -/
theorem SendArgs.read_write (args : SendArgs) (hlen : args.body.length < 256 ^ 4)
    (rest : List UInt8) : SendArgs.read (args.write ++ rest) = some (args, rest) := by
  rw [SendArgs.write, List.append_assoc, List.append_assoc]
  unfold SendArgs.read
  rw [(Inverts.readArray 32).bind, (Inverts.readArray 8).bind]
  show (readBytes (writeBytes args.body ++ rest)).bind (fun p => some (_, p.2)) = _
  rw [readBytes_writeBytes hlen, Option.bind_some]

/-! ### Accounts -/

variable (env : MsgEnv)

/-- `Send`: the new message, the sender who pays for it, the system program. -/
def processSend (s : MsgState) (now : Int64) (tx : Transaction env.address) (ix : Instruction) :
    Except Error MsgState := do
  let (args, _) ← okOr (SendArgs.read (ix.data.drop 8)) (.anchor .instructionDidNotDeserialize)
  let key ← keyAt ix 1
  let sender ← signerAt tx key
  -- the system program's address is all zeros
  programAt ix 2 Pubkey.default
  pdaAt ix 0 (env.pda ⟨sender.key, args.recipient, args.nonce⟩)
  let _ ← mutAt ix 1
  send env s now sender.key args.recipient args.nonce args.body

/-- `Delete` and `Close`: the message and its recipient. -/
def processOwned (instruction : Pubkey → Pubkey → Except Error MsgState)
    (tx : Transaction env.address) (ix : Instruction) : Except Error MsgState := do
  let message ← keyAt ix 0
  let key ← keyAt ix 1
  let recipient ← signerAt tx key
  let _ ← mutAt ix 0
  instruction message recipient.key

/-- **The program**: an instruction, by the first eight bytes of its data. -/
def process (s : MsgState) (now : Int64) (tx : Transaction env.address) (ix : Instruction) :
    Except Error MsgState :=
  if ix.data.take 8 = SEND_DISC then processSend env s now tx ix
  else if ix.data.take 8 = DELETE_DISC then processOwned env (delete env s) tx ix
  else if ix.data.take 8 = CLOSE_DISC then processOwned env (close env s) tx ix
  else .error (.anchor .instructionFallbackNotFound)

/-! ### What is processed -/

variable {env} {s s' : MsgState} {now : Int64} {tx : Transaction env.address} {ix : Instruction}

/-- Who has to sign. -/
def Call.authority : Call → Pubkey
  | .send sender .. => sender
  | .delete _ recipient | .close _ recipient => recipient

theorem processOwned_eq_ok {instruction : Pubkey → Pubkey → Except Error MsgState}
    (h : processOwned env instruction tx ix = .ok s') :
    ∃ message recipient : Pubkey, instruction message recipient = .ok s' ∧
      (tx.signer? recipient).isSome := by
  obtain ⟨message, -, h⟩ := bind_eq_ok.mp h
  obtain ⟨key, -, h⟩ := bind_eq_ok.mp h
  obtain ⟨recipient, hsigner, h⟩ := bind_eq_ok.mp h
  obtain ⟨_, -, hok⟩ := bind_eq_ok.mp h
  exact ⟨message, recipient.key, hok, isSome_of_signerAt hsigner⟩

/-- **What is processed is a call**, and whoever it needs has signed. -/
theorem exists_call (h : process env s now tx ix = .ok s') :
    ∃ c, exec env s now c = .ok s' ∧ (tx.signer? c.authority).isSome := by
  unfold process at h
  split_ifs at h
  · obtain ⟨⟨args, rest⟩, -, h⟩ := bind_eq_ok.mp h
    obtain ⟨key, -, h⟩ := bind_eq_ok.mp h
    obtain ⟨sender, hsigner, h⟩ := bind_eq_ok.mp h
    obtain ⟨_, -, h⟩ := bind_eq_ok.mp h
    obtain ⟨_, -, h⟩ := bind_eq_ok.mp h
    obtain ⟨_, -, hok⟩ := bind_eq_ok.mp h
    exact ⟨.send sender.key args.recipient args.nonce args.body, hok, isSome_of_signerAt hsigner⟩
  · obtain ⟨message, recipient, hdelete, hsigned⟩ := processOwned_eq_ok h
    exact ⟨.delete message recipient, hdelete, hsigned⟩
  · obtain ⟨message, recipient, hclose, hsigned⟩ := processOwned_eq_ok h
    exact ⟨.close message recipient, hclose, hsigned⟩

/-! ### Runs -/

variable (env) in
/-- An instruction that is processed, of a transaction at a clock. -/
def WireStep (s : MsgState) (a : Int64 × Transaction env.address × Instruction) (s' : MsgState) :
    Prop :=
  process env s a.1 a.2.1 a.2.2 = .ok s'

variable (env) in
/-- The runs of the program, from no messages, by the transactions that reach it. -/
abbrev WireRun := Run (fun s : MsgState => s = fun _ => none) (WireStep env)

variable (env) in
/-- The call is at the clock of the instruction, and signed for. -/
def Carries (a : Int64 × Transaction env.address × Instruction) (c : Int64 × Call) : Prop :=
  c.1 = a.1 ∧ (a.2.1.signer? c.2.authority).isSome

/-- **A run of transactions is one of calls**, each of them signed for. -/
theorem WireRun.refines {log : List (Int64 × Transaction env.address × Instruction)}
    (h : WireRun env log s) :
    ∃ calls, MsgRun env calls s ∧ List.Forall₂ (Carries env) log calls := by
  refine h.invariant
    (fun log s => ∃ calls, MsgRun env calls s ∧ List.Forall₂ (Carries env) log calls) ?_ ?_
  · intro s hs
    exact ⟨[], .start hs, .nil⟩
  · rintro log s ⟨now, tx, ix⟩ s' - ⟨calls, hrun, hcalls⟩ hstep
    obtain ⟨c, hexec, hsigned⟩ := exists_call hstep
    refine ⟨calls ++ [(now, c)], hrun.snoc hexec, ?_⟩
    exact List.rel_append hcalls (.cons ⟨rfl, hsigned⟩ .nil)

variable (env) in
/-- What becomes of the account at `key`: nothing; or it is a new message; or its recipient takes
the body out, or the whole of it. -/
def Changed (now : Int64) (authority : Pubkey) (key : Pubkey) (before after : Option Message) :
    Prop :=
  after = before ∨
    (before = none ∧ ∃ msg, after = some msg ∧ env.pda msg.seed = key ∧ msg.timestamp = now ∧
      msg.sender = authority) ∨
    ∃ msg, before = some msg ∧ msg.recipient = authority ∧
      (after = none ∨ after = some { msg with bodyLen := 0, body := Bytes.zero MAX_MSG_BYTES })

/-- **Whose messages a call changes.** -/
theorem exec_changes {c : Call} (h : exec env s now c = .ok s') (key : Pubkey) :
    Changed env now c.authority key (s key) (s' key) := by
  cases c with
  | send sender recipient nonce body =>
      obtain ⟨hnone, -, rfl⟩ := send_eq_ok.mp h
      by_cases heq : key = env.pda ⟨sender, recipient, nonce⟩
      · subst heq
        exact .inr (.inl ⟨hnone, _, Function.update_self .., rfl, rfl, rfl⟩)
      · exact .inl (Function.update_of_ne heq ..)
  | delete message recipient =>
      obtain ⟨msg, hload, rfl⟩ := delete_eq_ok.mp h
      obtain ⟨hmsg, -, hrecipient⟩ := loadMessage_eq_ok.mp hload
      by_cases heq : key = message
      · subst heq
        exact .inr (.inr ⟨msg, hmsg, hrecipient, .inr (Function.update_self ..)⟩)
      · exact .inl (Function.update_of_ne heq ..)
  | close message recipient =>
      obtain ⟨msg, hload, rfl⟩ := close_eq_ok.mp h
      obtain ⟨hmsg, -, hrecipient⟩ := loadMessage_eq_ok.mp hload
      by_cases heq : key = message
      · subst heq
        exact .inr (.inr ⟨msg, hmsg, hrecipient, .inl (Function.update_self ..)⟩)
      · exact .inl (Function.update_of_ne heq ..)

end Qietr.Msg
