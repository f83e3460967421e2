import Qietr.Library.BigEndian
import Qietr.Library.Outcome

/-!
# Solana — the runtime

What the programs take from the chain they run on.

* `Pubkey`: an account's address.
* `Signer address`: a key that signed the transaction.  A program's derived addresses lie off the
  curve: none of them signs but through the program.
* `ProgramError`: a failed instruction, by the layer that raised it.  A failed transaction is rolled
  back as a whole, so that an instruction is a function to the next state or to an error.
-/

namespace Qietr

/-- An account's address. -/
abbrev Pubkey := Bytes 32

/-- `Pubkey::default()`. -/
abbrev Pubkey.default : Pubkey := Bytes.zero 32

/-- A key that signed the transaction, for a program whose derived addresses are `address`. -/
structure Signer {Seed : Type} (address : Seed → Pubkey) where
  key : Pubkey
  /-- No derived address has a private key. -/
  not_derived : ∀ s, address s ≠ key

/-- What the SPL token program answers to a transfer it refuses. -/
inductive TokenError where
  | invalidInstruction
  | notEnoughAccountKeys
  | missingRequiredSignature
  | uninitializedAccount
  | insufficientFunds
  | mintMismatch
  | ownerMismatch
  | overflow
  deriving DecidableEq, Repr

/-- What Anchor answers to accounts it refuses. -/
inductive AnchorError where
  | instructionFallbackNotFound
  | instructionDidNotDeserialize
  | accountNotEnoughKeys
  | accountNotInitialized
  | accountNotSigner
  | invalidProgramId
  | constraintMut
  | constraintSeeds
  | constraintAddress
  | constraintRaw
  deriving DecidableEq, Repr

/-- A failed instruction: the program's own error, Anchor's, the token program's, or the system
program's refusal to create an account that exists. -/
inductive ProgramError (ε : Type) where
  | custom (e : ε)
  | anchor (e : AnchorError)
  | token (e : TokenError)
  | accountAlreadyInUse
  deriving DecidableEq, Repr

/-- An account that must have been initialised. -/
def initialized {ε α : Type} (o : Option α) : Except (ProgramError ε) α :=
  Outcome.okOr o (.anchor .accountNotInitialized)

/-- An account that `init` is about to create. -/
def vacant {ε α : Type} (o : Option α) : Except (ProgramError ε) Unit :=
  Outcome.require (o.isNone = true) .accountAlreadyInUse

/-- A call into the token program. -/
def cpi {ε α : Type} (x : Except TokenError α) : Except (ProgramError ε) α :=
  x.mapError .token

@[simp] theorem initialized_eq_ok {ε α : Type} {o : Option α} {a : α} :
    (initialized o : Except (ProgramError ε) α) = .ok a ↔ o = some a :=
  Outcome.okOr_eq_ok

@[simp] theorem vacant_eq_ok {ε α : Type} {o : Option α} {u : Unit} :
    (vacant o : Except (ProgramError ε) Unit) = .ok u ↔ o = none := by
  simp [vacant]

@[simp] theorem cpi_eq_ok {ε α : Type} {x : Except TokenError α} {a : α} :
    (cpi x : Except (ProgramError ε) α) = .ok a ↔ x = .ok a := by
  cases x <;> simp [cpi, Except.mapError]

@[simp] theorem initialized_eq_error {ε α : Type} {o : Option α} {e : ProgramError ε} :
    initialized o = .error e ↔ o = none ∧ .anchor .accountNotInitialized = e :=
  Outcome.okOr_eq_error

@[simp] theorem vacant_eq_error {ε α : Type} {o : Option α} {e : ProgramError ε} :
    vacant o = .error e ↔ o ≠ none ∧ .accountAlreadyInUse = e := by
  simp [vacant, Option.ne_none_iff_isSome]

@[simp] theorem cpi_eq_error {ε α : Type} {x : Except TokenError α} {e : ProgramError ε} :
    cpi x = .error e ↔ ∃ e', x = .error e' ∧ .token e' = e := by
  cases x <;> simp [cpi, Except.mapError]

end Qietr
