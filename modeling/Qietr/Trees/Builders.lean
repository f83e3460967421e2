import Qietr.Field.Poseidon

/-!
# Trees — the off-chain builders

`poseidon-tree.ts` of the indexer and `merkle.ts` of the SDK: each rebuilds the tree level by level
from the list of its leaves, and reads the siblings of one of them on the way.  Leaves and hashes
are numbers there.

* `hashTwo`, `zeroChain`, `nextLevel`: what both do.
* `Indexer.buildInclusionPath`, and `Sdk.PoseidonMerkleTree` with its `insert`, `root` and `proof`.
-/

namespace Qietr

/-- `F.toObject(poseidon([l, r]))`. -/
def hashTwo (P : Poseidon) (l r : ℕ) : ℕ :=
  (P.two (l : F) (r : F)).val

/-- The empty subtree of each height up to `depth`. -/
def zeroChain (P : Poseidon) (depth : ℕ) : List ℕ :=
  (List.range depth).foldl
    (fun zeros i => zeros ++ [hashTwo P (zeros.getD i 0) (zeros.getD i 0)]) [0]

/-- The level above: the nodes in pairs, the last with an empty subtree when it has no other. -/
def nextLevel (P : Poseidon) (zeros : List ℕ) (d : ℕ) (level : List ℕ) : List ℕ :=
  (List.range ((level.length + 1) / 2)).map fun i =>
    let l := level.getD (2 * i) 0
    let r := if 2 * i + 1 < level.length then level.getD (2 * i + 1) 0 else zeros.getD d 0
    hashTwo P l r

/-- An inclusion proof. -/
structure InclusionPath where
  pathElements : List ℕ
  pathIndices : List ℕ
  root : ℕ
  deriving DecidableEq

/-! ### The indexer -/

namespace Indexer

abbrev MERKLE_DEPTH : ℕ := 20

/-- The variables of the loop over the levels. -/
structure Loop where
  level : List ℕ
  idx : ℕ
  pathElements : List ℕ
  pathIndices : List ℕ

/-- One level. -/
def Loop.next (P : Poseidon) (zeros : List ℕ) (s : Loop) (d : ℕ) : Loop :=
  let isRight := s.idx &&& 1
  let sibIdx := s.idx ^^^ 1
  let sibling := if sibIdx < s.level.length then s.level.getD sibIdx 0 else zeros.getD d 0
  { level := nextLevel P zeros d s.level
    idx := s.idx >>> 1
    pathElements := s.pathElements ++ [sibling]
    pathIndices := s.pathIndices ++ [isRight] }

/-- The inclusion proof of the leaf at `queryIndex`. -/
def buildInclusionPath (P : Poseidon) (leaves : List ℕ) (queryIndex : ℤ) :
    Except String InclusionPath :=
  if queryIndex < 0 ∨ leaves.length ≤ queryIndex then
    .error s!"leaf index {queryIndex} out of range (size={leaves.length})"
  else
    let zeros := zeroChain P MERKLE_DEPTH
    let s := (List.range MERKLE_DEPTH).foldl (Loop.next P zeros)
      { level := leaves, idx := queryIndex.toNat, pathElements := [], pathIndices := [] }
    .ok
      { pathElements := s.pathElements
        pathIndices := s.pathIndices
        root := if s.level.length = 0 then zeros.getD MERKLE_DEPTH 0 else s.level.getD 0 0 }

end Indexer

/-! ### The SDK -/

namespace Sdk

structure PoseidonMerkleTree where
  depth : ℕ
  zeros : List ℕ
  leaves : List ℕ

namespace PoseidonMerkleTree

def create (P : Poseidon) (depth : ℕ) : PoseidonMerkleTree where
  depth
  zeros := zeroChain P depth
  leaves := []

def insert (t : PoseidonMerkleTree) (leaf : ℕ) : PoseidonMerkleTree :=
  { t with leaves := t.leaves ++ [leaf] }

/-- The variables of the loop; a negative `idx` asks for no path. -/
structure Loop where
  level : List ℕ
  idx : ℤ
  pathElements : List ℕ
  pathIndices : List ℕ

/-- One level. -/
def Loop.next (P : Poseidon) (zeros : List ℕ) (s : Loop) (d : ℕ) : Loop :=
  let s :=
    if 0 ≤ s.idx then
      let idx := s.idx.toNat
      let isRight := idx &&& 1
      let sibIdx := idx ^^^ 1
      let sibling := if sibIdx < s.level.length then s.level.getD sibIdx 0 else zeros.getD d 0
      { s with
        pathIndices := s.pathIndices ++ [isRight]
        pathElements := s.pathElements ++ [sibling]
        idx := ↑(idx >>> 1) }
    else s
  { s with level := nextLevel P zeros d s.level }

/-- `_walk`: the root, with the path of the leaf at `queryIndex` unless that is negative. -/
def walk (P : Poseidon) (t : PoseidonMerkleTree) (queryIndex : ℤ) : InclusionPath :=
  let s := (List.range t.depth).foldl (Loop.next P t.zeros)
    { level := t.leaves, idx := queryIndex, pathElements := [], pathIndices := [] }
  { root := if s.level.length = 0 then t.zeros.getD t.depth 0 else s.level.getD 0 0
    pathElements := s.pathElements
    pathIndices := s.pathIndices }

def root (P : Poseidon) (t : PoseidonMerkleTree) : ℕ :=
  (t.walk P (-1)).root

def proof (P : Poseidon) (t : PoseidonMerkleTree) (index : ℤ) : Except String InclusionPath :=
  if index < 0 ∨ t.leaves.length ≤ index then
    .error s!"leaf index {index} out of range"
  else .ok (t.walk P index)

end PoseidonMerkleTree

end Sdk

end Qietr
