import Qietr.Library.Borsh
import Qietr.Pool.State

/-!
# Pool — accounts as bytes

What Anchor keeps in an account of the program: eight bytes for the struct, then its fields in
borsh.

* `POOL_CONFIG_DISC` to `NULLIFIER_RECORD_DISC`: the eight bytes.
* `write`, `read`: the fields of a struct; `inverts`: the one reads what the other has written.
* `ofBytes`: the fields at their places; `sized`: these are the ones that are read.
* `PoolAccount.data`: an account of any kind.
-/

namespace Qietr.Pool

open Borsh

/-- The first eight bytes of the SHA-256 of `account:PoolConfig`. -/
def POOL_CONFIG_DISC : List UInt8 := [0x1a, 0x6c, 0x0e, 0x7b, 0x74, 0xe6, 0x81, 0x2b]

/-- The first eight bytes of the SHA-256 of `account:Denomination`. -/
def DENOMINATION_DISC : List UInt8 := [0xff, 0x5f, 0xf6, 0x28, 0x38, 0xa3, 0x6b, 0x55]

/-- The first eight bytes of the SHA-256 of `account:MerkleTree`. -/
def MERKLE_TREE_DISC : List UInt8 := [0x62, 0x33, 0x33, 0xe2, 0xa2, 0x14, 0x49, 0xd4]

/-- The first eight bytes of the SHA-256 of `account:NullifierRecord`. -/
def NULLIFIER_RECORD_DISC : List UInt8 := [0x38, 0x12, 0x39, 0xaf, 0x45, 0xca, 0xbd, 0x46]

/-! ### Fields -/

def PoolConfig.write (c : PoolConfig) : List UInt8 :=
  c.admin.toList ++ (leBytes 2 c.feeBps.toNat ++ (writeU8 (if c.paused then 1 else 0) ++
    (c.verifyingKeyHash.toList ++ (c.pendingVkHash.toList ++ (writeU64 c.pendingAppliesAtSlot ++
      (c.feeVault.toList ++ writeU8 c.bump))))))

namespace Denomination

def write (d : Denomination) : List UInt8 :=
  writeU8 d.denomId ++ (writeU64 d.amountMicroUsdc ++ (writeU64 d.depositCount ++
    (d.vault.toList ++ (d.mint.toList ++ (writeU8 d.vaultBump ++ writeU8 d.bump)))))

def read : Reader Denomination := do
  let denomId ← readU8
  let amountMicroUsdc ← readU64
  let depositCount ← readU64
  let vault ← readArray 32
  let mint ← readArray 32
  let vaultBump ← readU8
  let bump ← readU8
  pure { denomId, amountMicroUsdc, depositCount, vault, mint, vaultBump, bump }

/-- The fields at their places. -/
def ofBytes (bs : List UInt8) : Denomination where
  denomId := bs.getD 0 0
  amountMicroUsdc := UInt64.ofNat (natAt 8 (bs.drop 1))
  depositCount := UInt64.ofNat (natAt 8 ((bs.drop 1).drop 8))
  vault := bytesAt 32 (((bs.drop 1).drop 8).drop 8)
  mint := bytesAt 32 ((((bs.drop 1).drop 8).drop 8).drop 32)
  vaultBump := (((((bs.drop 1).drop 8).drop 8).drop 32).drop 32).getD 0 0
  bump := ((((((bs.drop 1).drop 8).drop 8).drop 32).drop 32).drop 1).getD 0 0

theorem sized : Sized (1 + (8 + (8 + (32 + (32 + (1 + (1 + 0))))))) read ofBytes :=
  .bind .readU8 fun denomId => .bind .readU64 fun amountMicroUsdc =>
    .bind .readU64 fun depositCount => .bind (.readArray 32) fun vault =>
      .bind (.readArray 32) fun mint => .bind .readU8 fun vaultBump => .bind .readU8 fun bump =>
        .pure (Denomination.mk denomId amountMicroUsdc depositCount vault mint vaultBump bump)

theorem inverts : Inverts read write := by
  intro d rest
  simp only [write, List.append_assoc]
  rw [read, Inverts.readU8.bind, Inverts.readU64.bind, Inverts.readU64.bind,
    (Inverts.readArray 32).bind, (Inverts.readArray 32).bind, Inverts.readU8.bind,
    Inverts.readU8.bind]
  rfl

theorem length_write (d : Denomination) : d.write.length = 83 :=
  inverts.length_eq sized d

end Denomination

namespace MerkleTree

def write (t : MerkleTree) : List UInt8 :=
  writeU8 t.denomId ++ (writeU64 t.nextLeafIndex ++ (writeVector Vector.toList t.filledSubtree ++
    (writeVector Vector.toList t.rootHistory ++ (writeU8 t.rootCursor ++ (writeU8 t.bump ++
      writeVector Vector.toList t.zeroHashes)))))

def read : Reader MerkleTree := do
  let denomId ← readU8
  let nextLeafIndex ← readU64
  let filledSubtree ← readVector (readArray 32) MERKLE_DEPTH
  let rootHistory ← readVector (readArray 32) ROOT_HISTORY_LEN
  let rootCursor ← readU8
  let bump ← readU8
  let zeroHashes ← readVector (readArray 32) MERKLE_DEPTH
  pure { denomId, nextLeafIndex, filledSubtree, rootHistory, rootCursor, bump, zeroHashes }

/-- An array of 32-byte fields. -/
def hashesAt (k : ℕ) (bs : List UInt8) : Vector Bytes32 k :=
  Vector.ofFn fun i : Fin k => bytesAt 32 (bs.drop (i * 32))

/-- The fields at their places. -/
def ofBytes (bs : List UInt8) : MerkleTree :=
  let history := ((bs.drop 1).drop 8).drop (MERKLE_DEPTH * 32)
  let cursor := history.drop (ROOT_HISTORY_LEN * 32)
  { denomId := bs.getD 0 0
    nextLeafIndex := UInt64.ofNat (natAt 8 (bs.drop 1))
    filledSubtree := hashesAt MERKLE_DEPTH ((bs.drop 1).drop 8)
    rootHistory := hashesAt ROOT_HISTORY_LEN history
    rootCursor := cursor.getD 0 0
    bump := (cursor.drop 1).getD 0 0
    zeroHashes := hashesAt MERKLE_DEPTH ((cursor.drop 1).drop 1) }

theorem sized :
    Sized (1 + (8 + (MERKLE_DEPTH * 32 +
      (ROOT_HISTORY_LEN * 32 + (1 + (1 + (MERKLE_DEPTH * 32 + 0)))))))
      read ofBytes :=
  .bind .readU8 fun denomId => .bind .readU64 fun nextLeafIndex =>
    .bind (.readVector (.readArray 32) MERKLE_DEPTH) fun filledSubtree =>
      .bind (.readVector (.readArray 32) ROOT_HISTORY_LEN) fun rootHistory =>
        .bind .readU8 fun rootCursor => .bind .readU8 fun bump =>
          .bind (.readVector (.readArray 32) MERKLE_DEPTH) fun zeroHashes =>
            .pure (MerkleTree.mk denomId nextLeafIndex filledSubtree rootHistory rootCursor bump
              zeroHashes)

theorem inverts : Inverts read write := by
  intro t rest
  have hashes := fun k => (Inverts.readArray 32).readVector k
  simp only [write, List.append_assoc]
  rw [read, Inverts.readU8.bind, Inverts.readU64.bind, (hashes MERKLE_DEPTH).bind,
    (hashes ROOT_HISTORY_LEN).bind, Inverts.readU8.bind, Inverts.readU8.bind,
    (hashes MERKLE_DEPTH).bind]
  rfl

theorem length_write (t : MerkleTree) : t.write.length = 2251 :=
  inverts.length_eq sized t

end MerkleTree

namespace NullifierRecord

def write (n : NullifierRecord) : List UInt8 :=
  writeU8 n.denomId ++ (n.nullifierHash.toList ++ (writeU64 n.spentAtSlot ++ writeU8 n.bump))

def read : Reader NullifierRecord := do
  let denomId ← readU8
  let nullifierHash ← readArray 32
  let spentAtSlot ← readU64
  let bump ← readU8
  pure { denomId, nullifierHash, spentAtSlot, bump }

/-- The fields at their places. -/
def ofBytes (bs : List UInt8) : NullifierRecord where
  denomId := bs.getD 0 0
  nullifierHash := bytesAt 32 (bs.drop 1)
  spentAtSlot := UInt64.ofNat (natAt 8 ((bs.drop 1).drop 32))
  bump := (((bs.drop 1).drop 32).drop 8).getD 0 0

theorem sized : Sized (1 + (32 + (8 + (1 + 0)))) read ofBytes :=
  .bind .readU8 fun denomId => .bind (.readArray 32) fun nullifierHash =>
    .bind .readU64 fun spentAtSlot => .bind .readU8 fun bump =>
      .pure (NullifierRecord.mk denomId nullifierHash spentAtSlot bump)

theorem inverts : Inverts read write := by
  intro n rest
  simp only [write, List.append_assoc]
  rw [read, Inverts.readU8.bind, (Inverts.readArray 32).bind, Inverts.readU64.bind,
    Inverts.readU8.bind]
  rfl

theorem length_write (n : NullifierRecord) : n.write.length = 42 :=
  inverts.length_eq sized n

end NullifierRecord

/-! ### An account -/

inductive PoolAccount where
  | config (c : PoolConfig)
  | denomination (d : Denomination)
  | tree (t : MerkleTree)
  | nullifier (n : NullifierRecord)

/-- Its data. -/
def PoolAccount.data : PoolAccount → List UInt8
  | .config c => POOL_CONFIG_DISC ++ c.write
  | .denomination d => DENOMINATION_DISC ++ d.write
  | .tree t => MERKLE_TREE_DISC ++ t.write
  | .nullifier n => NULLIFIER_RECORD_DISC ++ n.write

end Qietr.Pool
