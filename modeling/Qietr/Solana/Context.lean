import Qietr.Solana.Transaction

/-!
# Solana — the accounts of an instruction

What Anchor asks of the accounts of an instruction before a program's handler runs, one account
after the other.

* `keyAt`, `mutAt`: an account, and one that the instruction writes; `pdaAt`, at a derived address.
* `signerAt`: one that has signed the transaction; `programAt`: a program.
-/

namespace Qietr

open Outcome

variable {ε Seed : Type} {address : Seed → Pubkey}

/-- The `i`-th account, which has to be there. -/
def keyAt (ix : Instruction) (i : ℕ) : Except (ProgramError ε) Pubkey :=
  okOr (ix.account? i) (.anchor .accountNotEnoughKeys)

/-- The same, of one that the instruction writes. -/
def mutAt (ix : Instruction) (i : ℕ) : Except (ProgramError ε) Pubkey := do
  let account ← okOr ix.keys[i]? (.anchor .accountNotEnoughKeys)
  require (account.isWritable = true) (.anchor .constraintMut)
  .ok account.pubkey

/-- An account at a derived address, which the instruction writes. -/
def pdaAt (ix : Instruction) (i : ℕ) (expected : Pubkey) : Except (ProgramError ε) Unit := do
  let key ← mutAt ix i
  require (key = expected) (.anchor .constraintSeeds)

/-- A signer, of the accounts `key`. -/
def signerAt (tx : Transaction address) (key : Pubkey) : Except (ProgramError ε) (Signer address) :=
  okOr (tx.signer? key) (.anchor .accountNotSigner)

/-- A program, of this address. -/
def programAt (ix : Instruction) (i : ℕ) (id : Pubkey) : Except (ProgramError ε) Unit := do
  let key ← keyAt ix i
  require (key = id) (.anchor .invalidProgramId)

variable {k : Pubkey}

theorem signerAt_eq_ok {tx : Transaction address} {s : Signer address} :
    (signerAt tx k : Except (ProgramError ε) (Signer address)) = .ok s ↔ tx.signer? k = some s :=
  okOr_eq_ok

/-- Whoever is seen to sign has signed. -/
theorem isSome_of_signerAt {tx : Transaction address} {s : Signer address}
    (h : (signerAt tx k : Except (ProgramError ε) (Signer address)) = .ok s) :
    (tx.signer? s.key).isSome := by
  have hsigned := signerAt_eq_ok.mp h
  obtain rfl := Transaction.signer?_key hsigned
  rw [hsigned]
  rfl

/-- A signature tells no more than its key. -/
theorem signer?_of_isSome {tx : Transaction address} {s : Signer address}
    (h : (tx.signer? s.key).isSome) : tx.signer? s.key = some s := by
  obtain ⟨⟨k, hderived⟩, hsigned⟩ := Option.isSome_iff_exists.mp h
  obtain ⟨k', _⟩ := s
  obtain rfl : k = k' := Transaction.signer?_key hsigned
  exact hsigned

end Qietr
