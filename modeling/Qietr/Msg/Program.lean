import Qietr.Library.Borsh
import Qietr.Library.Runs
import Qietr.Solana.Runtime

/-!
# Messages — the program

`qietr_msg`: a message from one agent to another, each in an account of its own, whose body lies in
a buffer of fixed size.

* `Message`, `Message.data`: the account, and its bytes.
* `send`, `delete`, `close`: the three instructions; `exec`, any of them at a clock.
* `Letter`, `Mailbox.after`: what there is for a reader at each address, and what an instruction
  does to that.
* `MsgRun.mailbox`: in every run the accounts hold the letters, each at the address of its seeds.
-/

namespace Qietr.Msg

open Borsh Outcome

def MAX_MSG_BYTES : ℕ := 1024

/-! ### Accounts -/

/-- `[b"msg", from, to, nonce]`. -/
structure MsgSeed where
  sender : Pubkey
  recipient : Pubkey
  nonce : Bytes 8
  deriving DecidableEq

structure Message where
  /-- `from`. -/
  sender : Pubkey
  /-- `to`. -/
  recipient : Pubkey
  nonce : Bytes 8
  timestamp : Int64
  bodyLen : UInt16
  bump : UInt8
  body : Bytes MAX_MSG_BYTES

/-- The first eight bytes of the SHA-256 of `account:Message`. -/
def MESSAGE_DISC : List UInt8 := [0x6e, 0x97, 0x17, 0x6e, 0xc6, 0x06, 0x7d, 0xb5]

namespace Message

variable (msg : Message)

def seed : MsgSeed where
  sender := msg.sender
  recipient := msg.recipient
  nonce := msg.nonce

/-- The fields, one after the other. -/
def write : List UInt8 :=
  msg.sender.toList ++ (msg.recipient.toList ++ (msg.nonce.toList ++ (writeI64 msg.timestamp ++
    (writeU16 msg.bodyLen ++ (writeU8 msg.bump ++ msg.body.toList)))))

def data : List UInt8 :=
  MESSAGE_DISC ++ msg.write

theorem length_data : msg.data.length = 1115 := by
  have hbody : msg.body.toList.length = 1024 := Vector.length_toList
  simp [data, write, MESSAGE_DISC, hbody]

end Message

inductive MsgError where
  | bodyTooLong
  | notRecipient
  deriving DecidableEq, Repr

abbrev Error := ProgramError MsgError

/-- Where the program is deployed. -/
structure MsgEnv where
  /-- The address of the seeds with a bump. -/
  address : MsgSeed × UInt8 → Pubkey
  /-- The bump that is found for the seeds. -/
  bump : MsgSeed → UInt8

/-- The address that is found for the seeds. -/
def MsgEnv.pda (env : MsgEnv) (seed : MsgSeed) : Pubkey :=
  env.address (seed, env.bump seed)

/-- The message accounts, by their address. -/
abbrev MsgState := Pubkey → Option Message

variable (env : MsgEnv)

/-! ### Instructions -/

/-- `arr[..body.len()].copy_from_slice(&body)`: what comes after the body stays. -/
def copyFromSlice {n : ℕ} (arr : Bytes n) (body : List UInt8) : Bytes n :=
  Vector.ofFn fun i : Fin n => body.getD i (arr.get i)

/-- The account of a new message; it starts as zeros. -/
def newMessage (now : Int64) (seed : MsgSeed) (body : List UInt8) : Message where
  sender := seed.sender
  recipient := seed.recipient
  nonce := seed.nonce
  timestamp := now
  bodyLen := UInt16.ofNat body.length
  bump := env.bump seed
  body := copyFromSlice (Bytes.zero MAX_MSG_BYTES) body

def send (s : MsgState) (now : Int64) (sender recipient : Pubkey) (nonce : Bytes 8)
    (body : List UInt8) :
    Except Error MsgState := do
  let seed : MsgSeed := ⟨sender, recipient, nonce⟩
  vacant (s (env.pda seed))
  require (body.length ≤ MAX_MSG_BYTES) (.custom .bodyTooLong)
  .ok (Function.update s (env.pda seed) (some (newMessage env now seed body)))

/-- The message at `key`, whose address has to come from its own seeds, for its recipient. -/
def loadMessage (s : MsgState) (key recipient : Pubkey) : Except Error Message := do
  let msg ← initialized (s key)
  require (env.address (msg.seed, msg.bump) = key) (.anchor .constraintSeeds)
  require (msg.recipient = recipient) (.custom .notRecipient)
  .ok msg

def delete (s : MsgState) (key recipient : Pubkey) : Except Error MsgState := do
  let msg ← loadMessage env s key recipient
  let msg := { msg with bodyLen := 0, body := Bytes.zero MAX_MSG_BYTES }
  .ok (Function.update s key (some msg))

def close (s : MsgState) (key recipient : Pubkey) : Except Error MsgState := do
  let _ ← loadMessage env s key recipient
  .ok (Function.update s key none)

inductive Call where
  | send (sender recipient : Pubkey) (nonce : Bytes 8) (body : List UInt8)
  | delete (message recipient : Pubkey)
  | close (message recipient : Pubkey)

/-- The instruction, at the clock `now`. -/
def exec (s : MsgState) (now : Int64) : Call → Except Error MsgState
  | .send sender recipient nonce body => send env s now sender recipient nonce body
  | .delete message recipient => delete env s message recipient
  | .close message recipient => close env s message recipient

/-! ### What they do -/

variable {env} {s s' : MsgState} {now : Int64}

theorem send_eq_ok {sender recipient : Pubkey} {nonce : Bytes 8} {body : List UInt8} :
    send env s now sender recipient nonce body = .ok s' ↔
      s (env.pda ⟨sender, recipient, nonce⟩) = none ∧ body.length ≤ MAX_MSG_BYTES ∧
        s' = Function.update s (env.pda ⟨sender, recipient, nonce⟩)
          (some (newMessage env now ⟨sender, recipient, nonce⟩ body)) := by
  simp only [send, bind_eq_ok, vacant_eq_ok, require_eq_ok, exists_const, Except.ok.injEq]
  rw [eq_comm (b := s')]

theorem loadMessage_eq_ok {key recipient : Pubkey} {msg : Message} :
    loadMessage env s key recipient = .ok msg ↔
      s key = some msg ∧ env.address (msg.seed, msg.bump) = key ∧ msg.recipient = recipient := by
  simp only [loadMessage, bind_eq_ok, initialized_eq_ok, require_eq_ok, exists_const,
    Except.ok.injEq]
  constructor
  · rintro ⟨_, hmsg, haddress, hrecipient, rfl⟩
    exact ⟨hmsg, haddress, hrecipient⟩
  · rintro ⟨hmsg, haddress, hrecipient⟩
    exact ⟨msg, hmsg, haddress, hrecipient, rfl⟩

theorem delete_eq_ok {key recipient : Pubkey} :
    delete env s key recipient = .ok s' ↔
      ∃ msg, loadMessage env s key recipient = .ok msg ∧ s' = Function.update s key
        (some { msg with bodyLen := 0, body := Bytes.zero MAX_MSG_BYTES }) := by
  simp only [delete, bind_eq_ok, Except.ok.injEq, eq_comm (b := s')]

theorem close_eq_ok {key recipient : Pubkey} :
    close env s key recipient = .ok s' ↔
      ∃ msg, loadMessage env s key recipient = .ok msg ∧ s' = Function.update s key none := by
  simp only [close, bind_eq_ok, Except.ok.injEq, eq_comm (b := s')]

/-! ### Letters -/

/-- What there is for a reader. -/
structure Letter where
  sender : Pubkey
  recipient : Pubkey
  timestamp : Int64
  body : List UInt8

/-- Of the buffer no more than the body. -/
def Message.letter (msg : Message) : Letter where
  sender := msg.sender
  recipient := msg.recipient
  timestamp := msg.timestamp
  body := msg.body.toList.take msg.bodyLen.toNat

theorem take_copyFromSlice {n : ℕ} (arr : Bytes n) {body : List UInt8} (h : body.length ≤ n) :
    (copyFromSlice arr body).toList.take body.length = body := by
  rw [copyFromSlice, Vector.toList_ofFn]
  refine List.ext_getElem ?_ ?_
  · rw [List.length_take, List.length_ofFn, Nat.min_eq_left h]
  · intro i _ hi
    rw [List.getElem_take, List.getElem_ofFn, List.getD_eq_getElem?_getD,
      List.getElem?_eq_getElem hi, Option.getD_some]

theorem letter_newMessage (seed : MsgSeed) {body : List UInt8} (h : body.length ≤ MAX_MSG_BYTES) :
    (newMessage env now seed body).letter = ⟨seed.sender, seed.recipient, now, body⟩ := by
  have hlen : (UInt16.ofNat body.length).toNat = body.length :=
    UInt16.toNat_ofNat_of_lt (h.trans_lt (by decide))
  rw [Message.letter, newMessage, hlen, take_copyFromSlice _ h]

/-- The letters, by their address. -/
abbrev Mailbox := Pubkey → Option Letter

variable (env) in
/-- What an instruction does to the letters. -/
def Mailbox.after (box : Mailbox) : Int64 × Call → Mailbox
  | (now, .send sender recipient nonce body) =>
      Function.update box (env.pda ⟨sender, recipient, nonce⟩)
        (some ⟨sender, recipient, now, body⟩)
  | (_, .delete key _) =>
      Function.update box key ((box key).map fun letter => { letter with body := [] })
  | (_, .close key _) => Function.update box key none

variable (env) in
/-- The letters after the instructions of `log`. -/
def mailbox (log : List (Int64 × Call)) : Mailbox :=
  log.foldl (Mailbox.after env) fun _ => none

variable (env) in
/-- The accounts hold the letters, each at the address of its seeds. -/
def Holds (s : MsgState) (box : Mailbox) : Prop :=
  ∀ key, (s key).map Message.letter = box key ∧ ∀ msg, s key = some msg → env.pda msg.seed = key

theorem Holds.update {box : Mailbox} (h : Holds env s box) (key : Pubkey) (new : Option Message)
    (hnew : ∀ msg, new = some msg → env.pda msg.seed = key) :
    Holds env (Function.update s key new) (Function.update box key (new.map Message.letter)) := by
  intro key'
  by_cases heq : key' = key
  · subst heq
    simp only [Function.update_self]
    exact ⟨trivial, hnew⟩
  · simp only [Function.update_of_ne heq]
    exact h key'

/-! ### Runs -/

variable (env) in
/-- An instruction that succeeds. -/
def MsgStep (s : MsgState) (a : Int64 × Call) (s' : MsgState) : Prop :=
  exec env s a.1 a.2 = .ok s'

variable (env) in
/-- The runs of the program, from no messages. -/
abbrev MsgRun := Run (fun s : MsgState => s = fun _ => none) (MsgStep env)

/-- **What a step does.** -/
theorem Holds.step {box : Mailbox} (h : Holds env s box) {a : Int64 × Call}
    (hs : MsgStep env s a s') : Holds env s' (box.after env a) := by
  obtain ⟨now, call⟩ := a
  cases call with
  | send sender recipient nonce body =>
      obtain ⟨-, hlen, rfl⟩ := send_eq_ok.mp hs
      have hupdate := h.update (env.pda ⟨sender, recipient, nonce⟩)
        (some (newMessage env now ⟨sender, recipient, nonce⟩ body)) fun msg hmsg => by
          cases hmsg
          rfl
      rwa [Option.map_some, letter_newMessage _ hlen] at hupdate
  | delete key recipient =>
      obtain ⟨msg, hload, rfl⟩ := delete_eq_ok.mp hs
      obtain ⟨hmsg, -, -⟩ := loadMessage_eq_ok.mp hload
      have hbox : box key = some msg.letter := by rw [← (h key).1, hmsg, Option.map_some]
      have hupdate := h.update key
        (some { msg with bodyLen := 0, body := Bytes.zero MAX_MSG_BYTES }) fun msg' hmsg' => by
          cases hmsg'
          exact (h key).2 msg hmsg
      rw [Mailbox.after, hbox, Option.map_some]
      exact hupdate
  | close key recipient =>
      obtain ⟨msg, -, rfl⟩ := close_eq_ok.mp hs
      exact h.update key none fun _ hmsg => by cases hmsg

/-- **In every run** the accounts hold the letters. -/
theorem MsgRun.mailbox {log : List (Int64 × Call)} (h : MsgRun env log s) :
    Holds env s (mailbox env log) := by
  refine h.invariant (fun log s => Holds env s (Msg.mailbox env log)) ?_ ?_
  · rintro s rfl key
    exact ⟨rfl, fun _ hmsg => by cases hmsg⟩
  · intro log s a s' _ hholds hs
    have hafter : Msg.mailbox env (log ++ [a]) = (Msg.mailbox env log).after env a := by
      rw [Msg.mailbox, List.foldl_append]
      rfl
    rw [hafter]
    exact hholds.step hs

end Qietr.Msg
