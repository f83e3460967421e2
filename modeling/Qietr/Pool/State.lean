import Qietr.Field.Poseidon
import Qietr.Solana.Token

/-!
# Pool — account layouts

`state.rs` and `errors.rs`: what the pool stores, and how it fails.

* `PoolConfig`, `Denomination`, `MerkleTree`, `NullifierRecord`: the accounts.
* `MerkleTree.isKnownRoot`: the recent-root test.
* `PoolSeed`: the seeds the program derives its addresses from.
-/

namespace Qietr.Pool

abbrev MERKLE_DEPTH : ℕ := 20
abbrev ROOT_HISTORY_LEN : ℕ := 30

/-- `[b"config"]`, `[b"denom", denom_id]`, `[b"tree", denom_id]`, `[b"vault", denom_id]` and
`[b"nullifier", denom_id, nullifier_hash]`. -/
inductive PoolSeed where
  | config
  | denomination (denomId : UInt8)
  | tree (denomId : UInt8)
  | vault (denomId : UInt8)
  | nullifier (denomId : UInt8) (nullifierHash : Bytes32)
  deriving DecidableEq

inductive QietrError where
  | paused
  | notAdmin
  | unknownDenomination
  | treeFull
  | staleRoot
  | nullifierSpent
  | invalidProof
  | paymentAmountOverflow
  | amountMismatch
  | nullifierMismatch
  | recipientMismatch
  | nonCanonicalAta
  | vkUpgradeLocked
  | vkHashMismatch
  | noPendingUpgrade
  | overflow
  | hashFailure
  | feeVaultNotSet
  | feeVaultMismatch
  | feeBpsTooHigh
  deriving DecidableEq, Repr

structure PoolConfig where
  admin : Pubkey
  feeBps : UInt16
  paused : Bool
  verifyingKeyHash : Bytes32
  pendingVkHash : Bytes32
  pendingAppliesAtSlot : UInt64
  /-- Where fees go; `Pubkey.default` for no fee. -/
  feeVault : Pubkey
  bump : UInt8
  deriving DecidableEq

structure Denomination where
  denomId : UInt8
  amountMicroUsdc : UInt64
  depositCount : UInt64
  vault : Pubkey
  mint : Pubkey
  vaultBump : UInt8
  bump : UInt8
  deriving DecidableEq

structure MerkleTree where
  denomId : UInt8
  nextLeafIndex : UInt64
  filledSubtree : Vector Bytes32 MERKLE_DEPTH
  rootHistory : Vector Bytes32 ROOT_HISTORY_LEN
  rootCursor : UInt8
  bump : UInt8
  /-- The empty subtree of each height below the root's. -/
  zeroHashes : Vector Bytes32 MERKLE_DEPTH
  deriving DecidableEq

/-- Its existence is the record; it is never written again. -/
structure NullifierRecord where
  denomId : UInt8
  nullifierHash : Bytes32
  spentAtSlot : UInt64
  bump : UInt8
  deriving DecidableEq

/-- Whether `root` is among the recorded roots.  The zero string fills the slots not yet
written, and is none. -/
def MerkleTree.isKnownRoot (t : MerkleTree) (root : Bytes32) : Bool :=
  if root = zero32 then false else t.rootHistory.any (· == root)

/-- An account as it is allocated. -/
def MerkleTree.zeroed : MerkleTree where
  denomId := 0
  nextLeafIndex := 0
  filledSubtree := Vector.replicate _ zero32
  rootHistory := Vector.replicate _ zero32
  rootCursor := 0
  bump := 0
  zeroHashes := Vector.replicate _ zero32

end Qietr.Pool
