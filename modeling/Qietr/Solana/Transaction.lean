import Qietr.Solana.Token

/-!
# Solana — transactions

A transaction as `@solana/web3.js` decodes it, and what the runtime asks of its signatures.

* `Transaction address`: its instructions and the keys that have signed it.
* `Transaction.partialSign`: one more of them.
* `Transaction.signer?`: an account a program sees as a signer.  A key signs a transaction as a
  whole: each account that names it is a signer in every instruction.
* `splTransfer`: the token program's `Transfer`, from the accounts and the data of an instruction.
-/

namespace Qietr

open Outcome

structure AccountMeta where
  pubkey : Pubkey
  isSigner : Bool
  isWritable : Bool
  deriving DecidableEq

structure Instruction where
  programId : Pubkey
  keys : List AccountMeta
  data : List UInt8
  deriving DecidableEq

/-- The `i`-th account of an instruction. -/
def Instruction.account? (ix : Instruction) (i : ℕ) : Option Pubkey :=
  ix.keys[i]?.map AccountMeta.pubkey

structure Transaction {Seed : Type} (address : Seed → Pubkey) where
  feePayer : Option Pubkey
  instructions : List Instruction
  signatures : List (Signer address)

/-- The number the bytes spell, least significant first. -/
def leNat (bs : List UInt8) : ℕ :=
  beNat bs.reverse

/-- `TokenkegQfeZyiNwAJbNbGKPFXCWuBvf9Ss623VQ5DA`. -/
def TOKEN_PROGRAM_ID : Pubkey :=
  Bytes.ofNat 32 0x06ddf6e1d765a193d9cbe146ceeb79ac1cb485ed5f5b37913a8cf5857eff00a9

namespace Transaction

variable {Seed : Type} {address : Seed → Pubkey}

/-- The signature of `signer` is added. -/
def partialSign (tx : Transaction address) (signer : Signer address) : Transaction address :=
  { tx with signatures := tx.signatures ++ [signer] }

/-- The account `key` as a signer, if it has signed. -/
def signer? (tx : Transaction address) (key : Pubkey) : Option (Signer address) :=
  tx.signatures.find? fun s => s.key = key

/-- Each account that is marked as a signer has signed. -/
def Signed (tx : Transaction address) : Prop :=
  ∀ ix ∈ tx.instructions, ∀ account ∈ ix.keys, account.isSigner = true →
    (tx.signer? account.pubkey).isSome = true

instance (tx : Transaction address) : Decidable tx.Signed :=
  inferInstanceAs (Decidable (∀ ix ∈ tx.instructions, _))

theorem signer?_key {tx : Transaction address} {key : Pubkey} {s : Signer address}
    (h : tx.signer? key = some s) : s.key = key := by
  simpa using List.find?_some h

end Transaction

/-- The token program's `Transfer`: tag, amount; source, destination, authority. -/
def splTransfer {Seed : Type} {address : Seed → Pubkey} (l : Ledger) (tx : Transaction address)
    (ix : Instruction) : Except TokenError Ledger := do
  require (ix.data.head? = some 3 ∧ 9 ≤ ix.data.length) .invalidInstruction
  let source ← okOr (ix.account? 0) .notEnoughAccountKeys
  let destination ← okOr (ix.account? 1) .notEnoughAccountKeys
  let authority ← okOr (ix.account? 2) .notEnoughAccountKeys
  let l ← l.transfer source destination authority (UInt64.ofNat (leNat ((ix.data.drop 1).take 8)))
  require ((tx.signer? authority).isSome = true) .missingRequiredSignature
  .ok l

end Qietr
