import Qietr.Library.HashTree
import Qietr.Library.RingBuffer
import Qietr.Pool.State

/-!
# Pool — the incremental tree

`merkle.rs` and the tree half of `initialize_denomination`.

* `poseidonHashTwo`: the hash of two 32-byte strings, defined on canonical ones.
* `append`: a leaf, its new root, and the ring of roots.
* `Tracks P t ls`: the account `t` is the tree of the leaves `ls`: its frontier, its zero subtrees,
  and the roots of all its prefixes in the ring.
* `append_ok`, `append_full`, `append_hashFailure`: an append from such an account.
-/

namespace Qietr.Pool

open Outcome HashTree

/-! ### The code -/

/-- Poseidon of two field elements in big-endian form; the hasher refuses one that is not below
the modulus. -/
def poseidonHashTwo (P : Poseidon) (left right : Bytes32) : Except QietrError Bytes32 :=
  if Canonical left ∧ Canonical right then .ok (encode (P.two (decode left) (decode right)))
  else .error .hashFailure

/-- A method of `MerkleTree` that mutates it. -/
abbrev TreeM := EStateM QietrError MerkleTree

/-- `zero_hashes[i + 1]` from `zero_hashes[i]`. -/
def zeroHashLevel (P : Poseidon) (_ : Unit) (i : Fin (MERKLE_DEPTH - 1)) : TreeM Unit := do
  let tree ← get
  have hi : i.val < MERKLE_DEPTH := Nat.lt_of_lt_pred i.isLt
  let prev := tree.zeroHashes[i.val]
  let h ← lift (poseidonHashTwo P prev prev)
  set { tree with zeroHashes := tree.zeroHashes.set (i + 1) h (Nat.add_lt_of_lt_sub i.isLt) }

/-- The table of zero subtrees, from the zero leaf up. -/
def fillZeroHashes (P : Poseidon) : TreeM Unit :=
  (List.finRange (MERKLE_DEPTH - 1)).foldlM (zeroHashLevel P) ()

/-- One level of an append: the index and the hash of the current node, and those of its parent. -/
def appendLevel (P : Poseidon) (current : UInt64 × Bytes32) (i : Fin MERKLE_DEPTH) :
    TreeM (UInt64 × Bytes32) := do
  let (currentIndex, currentHash) := current
  let tree ← get
  if currentIndex &&& 1 = 0 then
    -- a left child: its sibling is the empty subtree
    set { tree with filledSubtree := tree.filledSubtree.set i currentHash }
    let h ← lift (poseidonHashTwo P currentHash tree.zeroHashes[i])
    pure (currentIndex >>> 1, h)
  else
    -- a right child: its sibling is the saved frontier
    let h ← lift (poseidonHashTwo P tree.filledSubtree[i] currentHash)
    pure (currentIndex >>> 1, h)

/-- A new root in the slot after the cursor. -/
def pushRoot (t : MerkleTree) (root : Bytes32) : MerkleTree :=
  let nextCursor := (t.rootCursor.toNat + 1) % ROOT_HISTORY_LEN
  { t with
    rootHistory := t.rootHistory.set nextCursor root (Nat.mod_lt _ (by decide))
    rootCursor := UInt8.ofNat nextCursor }

/-- `MerkleAppend::append`: the new root. -/
def append (P : Poseidon) (leaf : Bytes32) : TreeM Bytes32 := do
  let tree ← get
  let capacity : UInt64 := 1 <<< UInt64.ofNat MERKLE_DEPTH
  lift (require (tree.nextLeafIndex < capacity) .treeFull)
  let (_, root) ← (List.finRange MERKLE_DEPTH).foldlM (appendLevel P) (tree.nextLeafIndex, leaf)
  let tree ← get
  let next ← lift (okOr (checkedAdd tree.nextLeafIndex 1) .overflow)
  set (pushRoot { tree with nextLeafIndex := next } root)
  pure root

/-- The scalar fields of a new tree, over a zeroed account. -/
def freshTree (denomId bump : UInt8) : MerkleTree :=
  { MerkleTree.zeroed with denomId, nextLeafIndex := 0, rootCursor := 0, bump }

/-- The tree half of `initialize_denomination`. -/
def initializeTree (P : Poseidon) (denomId bump : UInt8) : Except QietrError MerkleTree :=
  finalState ((fillZeroHashes P).run (freshTree denomId bump))

/-! ### The hash -/

theorem poseidonHashTwo_eq_ok {P : Poseidon} {a b h : Bytes32} :
    poseidonHashTwo P a b = .ok h ↔
      Canonical a ∧ Canonical b ∧ h = encode (P.two (decode a) (decode b)) := by
  unfold poseidonHashTwo
  split
  case isTrue hc => simp [hc, eq_comm]
  case isFalse hc => simp only [reduceCtorEq, false_iff]; tauto

@[simp] theorem poseidonHashTwo_encode (P : Poseidon) (x y : F) :
    poseidonHashTwo P (encode x) (encode y) = .ok (encode (P.two x y)) :=
  poseidonHashTwo_eq_ok.mpr ⟨canonical_encode x, canonical_encode y, by simp⟩

theorem poseidonHashTwo_error {P : Poseidon} {a b : Bytes32} (h : ¬ (Canonical a ∧ Canonical b)) :
    poseidonHashTwo P a b = .error .hashFailure :=
  if_neg h

/-! ### What the account holds -/

/-- The root of the full tree over `ls`, whose other leaves are zero. -/
def fullRoot (P : Poseidon) (ls : List F) : F :=
  root P.two 0 MERKLE_DEPTH ls

/-- The roots after each leaf of `ls`, the latest last. -/
def roots (P : Poseidon) (ls : List F) : List Bytes32 :=
  (List.range ls.length).map fun k => encode (fullRoot P (ls.take (k + 1)))

@[simp] theorem roots_length (P : Poseidon) (ls : List F) : (roots P ls).length = ls.length := by
  simp [roots]

theorem roots_snoc (P : Poseidon) (ls : List F) (x : F) :
    roots P (ls ++ [x]) = roots P ls ++ [encode (fullRoot P (ls ++ [x]))] := by
  have hpre : ∀ k ∈ List.range ls.length,
      encode (fullRoot P ((ls ++ [x]).take (k + 1))) = encode (fullRoot P (ls.take (k + 1))) := by
    intro k hk
    have hk' : k + 1 ≤ ls.length := List.mem_range.mp hk
    rw [List.take_append_of_le_length hk']
  have hlast : (ls ++ [x]).take (ls.length + 1) = ls ++ [x] := by
    rw [List.take_of_length_le]; simp
  rw [roots, List.length_append, List.length_singleton, List.range_succ, List.map_append,
    List.map_congr_left hpre, List.map_singleton, hlast, roots]

/-- The account `t` is the tree of the leaves `ls`. -/
structure Tracks (P : Poseidon) (t : MerkleTree) (ls : List F) : Prop where
  count : t.nextLeafIndex.toNat = ls.length
  bound : ls.length ≤ 2 ^ MERKLE_DEPTH
  zeros : ∀ i : Fin MERKLE_DEPTH, t.zeroHashes[i] = encode (empty P.two 0 i)
  canonical : ∀ i : Fin MERKLE_DEPTH, Canonical t.filledSubtree[i]
  frontier : Live P.two (leavesOf 0 ls) ls.length
    fun i : Fin MERKLE_DEPTH => decode t.filledSubtree[i]
  history : RingBuffer.Holds zero32 (roots P ls)
    (fun i : Fin ROOT_HISTORY_LEN => t.rootHistory[i]) t.rootCursor.toNat

/-! ### A new tree -/

/-- What `fillZeroHashes` has written after level `i`. -/
structure ZeroFilled (P : Poseidon) (t₀ : MerkleTree) (i : ℕ) (t : MerkleTree) : Prop where
  frame : t = { t₀ with zeroHashes := t.zeroHashes }
  filled : ∀ j : Fin MERKLE_DEPTH, j.val ≤ i → t.zeroHashes[j] = encode (empty P.two 0 j)

theorem zeroHashLevel_ok {P : Poseidon} {t₀ t : MerkleTree} (i : Fin (MERKLE_DEPTH - 1))
    (h : ZeroFilled P t₀ i t) :
    ∃ u t', (zeroHashLevel P () i).run t = .ok u t' ∧ ZeroFilled P t₀ (i + 1) t' := by
  have hi : i.val < MERKLE_DEPTH := Nat.lt_of_lt_pred i.isLt
  have hi' : i.val + 1 < MERKLE_DEPTH := Nat.add_lt_of_lt_sub i.isLt
  have hprev : t.zeroHashes[i.val] = encode (empty P.two 0 i) := h.filled ⟨i, hi⟩ (le_refl _)
  refine ⟨(), { t with zeroHashes := t.zeroHashes.set (i + 1) (encode (empty P.two 0 (i + 1))) },
    ?_, ?_, ?_⟩
  · simp [zeroHashLevel, hprev, empty_succ]
  · rw [h.frame]
  · intro j hj
    by_cases e : i.val + 1 = j.val
    · simp only [Fin.getElem_fin, ← e, Vector.getElem_set_self]
    · simp only [Fin.getElem_fin, Vector.getElem_set_ne _ _ e]
      exact h.filled j (by omega)

/-- **The zero table.** -/
theorem fillZeroHashes_ok (P : Poseidon) {t : MerkleTree}
    (hz : t.zeroHashes = Vector.replicate _ zero32) :
    ∃ t', (fillZeroHashes P).run t = .ok () t' ∧ ZeroFilled P t (MERKLE_DEPTH - 1) t' := by
  have h0 : ZeroFilled P t 0 t := by
    refine ⟨rfl, fun j hj => ?_⟩
    have hj0 : j.val = 0 := by omega
    simp [hz, hj0, encode_zero]
  obtain ⟨_, t', hrun, ht'⟩ := finRange_foldlM_ok (fun i _ t' => ZeroFilled P t i t')
    (fun i _ _ h => zeroHashLevel_ok i h) h0
  exact ⟨t', hrun, ht'⟩

/-- **A new denomination's tree** is the empty one. -/
theorem initializeTree_ok (P : Poseidon) (denomId bump : UInt8) :
    ∃ t, initializeTree P denomId bump = .ok t ∧ Tracks P t [] ∧ t.denomId = denomId ∧
      t.bump = bump := by
  obtain ⟨t, hrun, hframe, hfilled⟩ := fillZeroHashes_ok P (t := freshTree denomId bump) rfl
  refine ⟨t, by rw [initializeTree, hrun]; rfl, ?_, by rw [hframe]; rfl, by rw [hframe]; rfl⟩
  have hsub : t.filledSubtree = Vector.replicate _ zero32 := by rw [hframe]; rfl
  have hroots : t.rootHistory = Vector.replicate _ zero32 := by rw [hframe]; rfl
  constructor
  case count => rw [hframe]; rfl
  case bound => exact Nat.zero_le _
  case zeros => exact fun i => hfilled i (Nat.le_pred_of_lt i.isLt)
  case canonical => intro i; simp [hsub]
  case frontier => exact Live.zero _ _ _
  case history =>
    rw [show t.rootCursor = 0 by rw [hframe]; rfl]
    exact RingBuffer.Holds.initial (by decide) fun i => by simp [hroots]

/-! ### An append -/

/-- The climb of the leaf `x` after `i` levels: where it is, and what it has stored. -/
structure Climbed (P : Poseidon) (t₀ : MerkleTree) (ls : List F) (x : F) (i : ℕ)
    (current : UInt64 × Bytes32) (t : MerkleTree) : Prop where
  index : current.1.toNat = ls.length / 2 ^ i
  hash : current.2 = encode (node P.two (leavesOf 0 (ls ++ [x])) i (ls.length / 2 ^ i))
  frame : t = { t₀ with filledSubtree := t.filledSubtree }
  even : ∀ j : Fin MERKLE_DEPTH, j.val < i → ls.length / 2 ^ j.val % 2 = 0 →
    t.filledSubtree[j] =
      encode (node P.two (leavesOf 0 (ls ++ [x])) j (ls.length / 2 ^ j.val))
  odd : ∀ j : Fin MERKLE_DEPTH, i ≤ j.val ∨ ls.length / 2 ^ j.val % 2 = 1 →
    t.filledSubtree[j] = t₀.filledSubtree[j]

theorem and_one_eq_zero (c : UInt64) : c &&& 1 = 0 ↔ c.toNat % 2 = 0 := by
  rw [← UInt64.toNat_inj, UInt64.toNat_and]
  show c.toNat &&& 1 = 0 ↔ _
  rw [Nat.and_one_is_mod]

theorem toNat_shiftRight_one (c : UInt64) : (c >>> 1).toNat = c.toNat / 2 := by
  rw [UInt64.toNat_shiftRight]
  show c.toNat >>> 1 = _
  rw [Nat.shiftRight_one]

theorem leavesOf_snoc_ge {ls : List F} {x : F} {j : ℕ} (hj : ls.length < j) :
    leavesOf 0 (ls ++ [x]) j = 0 :=
  leavesOf_ge (by simp only [List.length_append, List.length_singleton]; omega)

/-- The saved frontier, read over the leaves with the new one. -/
theorem Tracks.frontier_snoc {P : Poseidon} {t : MerkleTree} {ls : List F} (h : Tracks P t ls)
    (x : F) (i : Fin MERKLE_DEPTH) (hi : ls.length / 2 ^ i.val % 2 = 1) :
    t.filledSubtree[i] =
      encode (node P.two (leavesOf 0 (ls ++ [x])) i (ls.length / 2 ^ i.val - 1)) := by
  have hlive := h.frontier i hi
  rw [node_left_congr P.two (fun j hj => (leavesOf_append_lt hj).symm) hi] at hlive
  rw [← hlive, encode_decode (h.canonical i)]

/-- A level at a left child. -/
theorem appendLevel_even {P : Poseidon} {t : MerkleTree} {c : UInt64} {x h : Bytes32}
    {i : Fin MERKLE_DEPTH} (hc : c &&& 1 = 0)
    (hh : poseidonHashTwo P x t.zeroHashes[i.val] = .ok h) :
    (appendLevel P (c, x) i).run t =
      .ok (c >>> 1, h) { t with filledSubtree := t.filledSubtree.set i x } := by
  simp only [appendLevel, EStateM.run_bind, EStateM.run_get, if_pos hc, EStateM.run_set,
    Fin.getElem_fin, hh, run_lift_ok, EStateM.run_pure]

/-- A level at a right child. -/
theorem appendLevel_odd {P : Poseidon} {t : MerkleTree} {c : UInt64} {x h : Bytes32}
    {i : Fin MERKLE_DEPTH} (hc : ¬ c &&& 1 = 0)
    (hh : poseidonHashTwo P t.filledSubtree[i.val] x = .ok h) :
    (appendLevel P (c, x) i).run t = .ok (c >>> 1, h) t := by
  simp only [appendLevel, EStateM.run_bind, EStateM.run_get, if_neg hc, Fin.getElem_fin, hh,
    run_lift_ok, EStateM.run_pure]

theorem appendLevel_ok {P : Poseidon} {t₀ t : MerkleTree} {ls : List F} {x : F}
    {current : UInt64 × Bytes32} (htracks : Tracks P t₀ ls) (i : Fin MERKLE_DEPTH)
    (h : Climbed P t₀ ls x i current t) :
    ∃ current' t', (appendLevel P current i).run t = .ok current' t' ∧
      Climbed P t₀ ls x (i + 1) current' t' := by
  obtain ⟨currentIndex, currentHash⟩ := current
  have hindex : currentIndex.toNat = ls.length / 2 ^ i.val := h.index
  have hhash := h.hash
  simp only at hhash
  have hnext : (currentIndex >>> 1).toNat = ls.length / 2 ^ (i.val + 1) := by
    rw [toNat_shiftRight_one, hindex, pow_succ, Nat.div_div_eq_div_mul]
  have hzero : t.zeroHashes[i.val] = encode (empty P.two 0 i) := by
    rw [h.frame]; exact htracks.zeros i
  by_cases e : currentIndex &&& 1 = 0
  · have heven : ls.length / 2 ^ i.val % 2 = 0 := by rw [← hindex]; exact (and_one_eq_zero _).mp e
    have hparent : poseidonHashTwo P currentHash t.zeroHashes[i.val] =
        .ok (encode (node P.two (leavesOf 0 (ls ++ [x])) (i + 1)
          (ls.length / 2 ^ (i.val + 1)))) := by
      rw [hhash, hzero, poseidonHashTwo_encode,
        climb_even P.two (fun j => leavesOf_snoc_ge) heven]
    refine ⟨_, _, appendLevel_even e hparent, hnext, rfl, ?_, ?_, ?_⟩
    · rw [h.frame]
    · intro j hj hev
      by_cases hij : i.val = j.val
      · simp only [Fin.getElem_fin, ← hij, Vector.getElem_set_self]
        exact hhash
      · simp only [Fin.getElem_fin, Vector.getElem_set_ne _ _ hij]
        exact h.even j (by omega) hev
    · intro j hj
      have hij : i.val ≠ j.val := by
        rintro hij
        rcases hj with hj | hj
        · omega
        · rw [← hij, heven] at hj; cases hj
      simp only [Fin.getElem_fin, Vector.getElem_set_ne _ _ hij]
      exact h.odd j (hj.imp_left (by omega))
  · have hodd : ls.length / 2 ^ i.val % 2 = 1 := by
      rw [and_one_eq_zero, hindex] at e
      omega
    have hfilled : t.filledSubtree[i.val] =
        encode (node P.two (leavesOf 0 (ls ++ [x])) i (ls.length / 2 ^ i.val - 1)) :=
      (h.odd i (.inl (le_refl _))).trans (htracks.frontier_snoc x i hodd)
    have hparent : poseidonHashTwo P t.filledSubtree[i.val] currentHash =
        .ok (encode (node P.two (leavesOf 0 (ls ++ [x])) (i + 1)
          (ls.length / 2 ^ (i.val + 1)))) := by
      rw [hhash, hfilled, poseidonHashTwo_encode, climb_odd P.two hodd]
    refine ⟨_, _, appendLevel_odd e hparent, hnext, rfl, h.frame, ?_, ?_⟩
    · intro j hj hev
      have hij : i.val ≠ j.val := by
        intro hij; rw [← hij, hodd] at hev; cases hev
      exact h.even j (by omega) hev
    · exact fun j hj => h.odd j (hj.imp_left (by omega))

theorem capacity_toNat : ((1 : UInt64) <<< UInt64.ofNat MERKLE_DEPTH).toNat = 2 ^ MERKLE_DEPTH := by
  decide

theorem pushRoot_getElem (t : MerkleTree) (root : Bytes32) (i : Fin ROOT_HISTORY_LEN) :
    (pushRoot t root).rootHistory[i] =
      if RingBuffer.advance ROOT_HISTORY_LEN t.rootCursor.toNat = i.val then root
      else t.rootHistory[i] := by
  simp only [pushRoot, Fin.getElem_fin, Vector.getElem_set, RingBuffer.advance]
  rfl

theorem pushRoot_history {P : Poseidon} {t : MerkleTree} {ls : List F} (x : F)
    (h : RingBuffer.Holds zero32 (roots P ls)
      (fun i : Fin ROOT_HISTORY_LEN => t.rootHistory[i]) t.rootCursor.toNat) :
    RingBuffer.Holds zero32 (roots P (ls ++ [x]))
      (fun i : Fin ROOT_HISTORY_LEN =>
        (pushRoot t (encode (fullRoot P (ls ++ [x])))).rootHistory[i])
      (pushRoot t (encode (fullRoot P (ls ++ [x])))).rootCursor.toNat := by
  have hcursor : (pushRoot t (encode (fullRoot P (ls ++ [x])))).rootCursor.toNat =
      RingBuffer.advance ROOT_HISTORY_LEN t.rootCursor.toNat := by
    have hlt : (t.rootCursor.toNat + 1) % ROOT_HISTORY_LEN < 30 := Nat.mod_lt _ (by decide)
    show (UInt8.ofNat _).toNat = _
    rw [UInt8.toNat_ofNat', Nat.mod_eq_of_lt (by omega), RingBuffer.advance]
  rw [hcursor, roots_snoc]
  refine h.push (fun i hi => ?_) (fun i hi => ?_)
  · exact (pushRoot_getElem _ _ i).trans (if_pos hi.symm)
  · exact (pushRoot_getElem _ _ i).trans (if_neg (Ne.symm hi))

/-- The levels of an append, from the leaf to the root. -/
theorem climb_ok {P : Poseidon} {t : MerkleTree} {ls : List F} (h : Tracks P t ls) (x : F) :
    ∃ current t', ((List.finRange MERKLE_DEPTH).foldlM (appendLevel P)
        (t.nextLeafIndex, encode x)).run t = .ok current t' ∧
      Climbed P t ls x MERKLE_DEPTH current t' := by
  refine finRange_foldlM_ok (fun i => Climbed P t ls x i)
    (fun i _ _ hc => appendLevel_ok h i hc) ?_
  refine ⟨by simpa using h.count, ?_, rfl, fun j hj => absurd hj (Nat.not_lt_zero _),
    fun _ _ => rfl⟩
  simp [leavesOf_append_self]

theorem append_run {P : Poseidon} {t t' : MerkleTree} {leaf : Bytes32}
    {current : UInt64 × Bytes32} (hroom : t.nextLeafIndex < 1 <<< UInt64.ofNat MERKLE_DEPTH)
    (hclimb : ((List.finRange MERKLE_DEPTH).foldlM (appendLevel P) (t.nextLeafIndex, leaf)).run t =
      .ok current t')
    (hcount : t'.nextLeafIndex.toNat + (1 : UInt64).toNat < 2 ^ 64) :
    (append P leaf).run t =
      .ok current.2 (pushRoot { t' with nextLeafIndex := t'.nextLeafIndex + 1 } current.2) := by
  simp only [append, EStateM.run_bind, EStateM.run_get, require_of _ hroom, run_lift_ok, hclimb,
    checkedAdd_of_lt hcount, okOr_some, EStateM.run_set, EStateM.run_pure]

/-- The account after the climb, with its count and its new root, is the tree with the leaf. -/
theorem Climbed.tracks {P : Poseidon} {t t' : MerkleTree} {ls : List F} {x : F}
    {current : UInt64 × Bytes32} (hc : Climbed P t ls x MERKLE_DEPTH current t')
    (h : Tracks P t ls) (hlt : ls.length < 2 ^ MERKLE_DEPTH) {next : UInt64}
    (hnext : next.toNat = ls.length + 1) :
    Tracks P (pushRoot { t' with nextLeafIndex := next } (encode (fullRoot P (ls ++ [x]))))
      (ls ++ [x]) := by
  have hzeros : t'.zeroHashes = t.zeroHashes := by rw [hc.frame]
  have hhist : t'.rootHistory = t.rootHistory := by rw [hc.frame]
  have hcur : t'.rootCursor = t.rootCursor := by rw [hc.frame]
  constructor
  case count => rw [List.length_append]; exact hnext
  case bound => rw [List.length_append]; exact hlt
  case zeros => intro i; rw [← h.zeros i, ← hzeros]; rfl
  case canonical =>
    intro i
    show Canonical t'.filledSubtree[i]
    rcases Nat.mod_two_eq_zero_or_one (ls.length / 2 ^ i.val) with e | e
    · rw [hc.even i i.isLt e]; exact canonical_encode _
    · rw [hc.odd i (.inr e)]; exact h.canonical i
  case frontier =>
    rw [List.length_append]
    refine h.frontier.next P.two (fun j hj => (leavesOf_append_lt hj).symm) ?_ ?_
    · intro i e
      show decode t'.filledSubtree[i] = _
      rw [hc.even i i.isLt e, decode_encode]
    · intro i e
      show decode t'.filledSubtree[i] = _
      rw [hc.odd i (.inr e)]
  case history =>
    refine pushRoot_history (t := { t' with nextLeafIndex := next }) x ?_
    simp only [hhist, hcur]
    exact h.history

/-- **An append** to a tree that is not full: the new root is that of the full tree over the
leaves so far. -/
theorem append_ok {P : Poseidon} {t : MerkleTree} {ls : List F} (h : Tracks P t ls)
    (hlt : ls.length < 2 ^ MERKLE_DEPTH) (x : F) :
    ∃ t', (append P (encode x)).run t = .ok (encode (fullRoot P (ls ++ [x]))) t' ∧
      Tracks P t' (ls ++ [x]) ∧ t'.denomId = t.denomId ∧ t'.bump = t.bump := by
  obtain ⟨current, t₁, hrun, hclimb⟩ := climb_ok h x
  -- at the top the current node is the root
  have htop : current.2 = encode (fullRoot P (ls ++ [x])) := by
    rw [hclimb.hash, Nat.div_eq_of_lt hlt]; rfl
  have hnext : t₁.nextLeafIndex.toNat = ls.length := by rw [hclimb.frame]; exact h.count
  have hone : (1 : UInt64).toNat = 1 := rfl
  have hcount : t₁.nextLeafIndex.toNat + (1 : UInt64).toNat < 2 ^ 64 := by
    have hcap : (2 : ℕ) ^ MERKLE_DEPTH < 2 ^ 64 - 1 := by decide
    omega
  have hsucc : (t₁.nextLeafIndex + 1).toNat = ls.length + 1 := by
    rw [checkedAdd_eq_some.mp (checkedAdd_of_lt hcount), hnext, hone]
  have hroom : t.nextLeafIndex < 1 <<< UInt64.ofNat MERKLE_DEPTH := by
    rw [UInt64.lt_iff_toNat_lt, capacity_toNat, h.count]
    exact hlt
  have happend := append_run hroom hrun hcount
  rw [htop] at happend
  refine ⟨_, happend, hclimb.tracks h hlt hsucc, ?_, ?_⟩
  · show t₁.denomId = _
    rw [hclimb.frame]
  · show t₁.bump = _
    rw [hclimb.frame]

/-- A full tree refuses the leaf before it touches anything. -/
theorem append_full {P : Poseidon} {t : MerkleTree} {ls : List F} (h : Tracks P t ls)
    (hfull : ls.length = 2 ^ MERKLE_DEPTH) (leaf : Bytes32) :
    (append P leaf).run t = .error .treeFull t := by
  have hroom : ¬ t.nextLeafIndex < 1 <<< UInt64.ofNat MERKLE_DEPTH := by
    rw [UInt64.lt_iff_toNat_lt, capacity_toNat, h.count, hfull]
    exact lt_irrefl _
  simp only [append, EStateM.run_bind, EStateM.run_get, require_of_not _ hroom, run_lift_error]

/-- A leaf that is no field element does not get past the first hash. -/
theorem append_hashFailure {P : Poseidon} {t : MerkleTree} {leaf : Bytes32}
    (hroom : t.nextLeafIndex < 1 <<< UInt64.ofNat MERKLE_DEPTH) (hleaf : ¬ Canonical leaf) :
    ∃ t', (append P leaf).run t = .error .hashFailure t' := by
  have hlevel : ∃ t', (appendLevel P (t.nextLeafIndex, leaf) 0).run t = .error .hashFailure t' := by
    by_cases e : t.nextLeafIndex &&& 1 = 0
    · refine ⟨{ t with filledSubtree := t.filledSubtree.set (0 : Fin MERKLE_DEPTH) leaf }, ?_⟩
      simp only [appendLevel, EStateM.run_bind, EStateM.run_get, if_pos e, EStateM.run_set,
        poseidonHashTwo_error (P := P) (fun h => hleaf h.1), run_lift_error]
    · refine ⟨t, ?_⟩
      simp only [appendLevel, EStateM.run_bind, EStateM.run_get, if_neg e,
        poseidonHashTwo_error (P := P) (fun h => hleaf h.2), run_lift_error]
  obtain ⟨t', ht'⟩ := hlevel
  refine ⟨t', ?_⟩
  have hloop : ((List.finRange MERKLE_DEPTH).foldlM (appendLevel P) (t.nextLeafIndex, leaf)).run t =
      .error .hashFailure t' := by
    rw [List.finRange_succ, List.foldlM_cons, EStateM.run_bind, ht']
  simp only [append, EStateM.run_bind, EStateM.run_get, require_of _ hroom, run_lift_ok, hloop]

/-- **When an append succeeds**, and what it then leaves. -/
theorem append_eq_ok {P : Poseidon} {t t' : MerkleTree} {ls : List F} {leaf root : Bytes32}
    (h : Tracks P t ls) (hrun : (append P leaf).run t = .ok root t') :
    Canonical leaf ∧ ls.length < 2 ^ MERKLE_DEPTH ∧
      root = encode (fullRoot P (ls ++ [decode leaf])) ∧ Tracks P t' (ls ++ [decode leaf]) ∧
      t'.denomId = t.denomId ∧ t'.bump = t.bump := by
  have hlt : ls.length < 2 ^ MERKLE_DEPTH := by
    by_contra hge
    rw [append_full h (le_antisymm h.bound (not_lt.mp hge))] at hrun
    exact absurd hrun (by simp)
  have hroom : t.nextLeafIndex < 1 <<< UInt64.ofNat MERKLE_DEPTH := by
    rw [UInt64.lt_iff_toNat_lt, capacity_toNat, h.count]
    exact hlt
  have hleaf : Canonical leaf := by
    by_contra hn
    obtain ⟨t₁, ht₁⟩ := append_hashFailure (P := P) hroom hn
    rw [ht₁] at hrun
    exact absurd hrun (by simp)
  obtain ⟨t₁, ht₁, htracks, hid, hbump⟩ := append_ok h hlt (decode leaf)
  rw [encode_decode hleaf, hrun, EStateM.Result.ok.injEq] at ht₁
  obtain ⟨hroot, rfl⟩ := ht₁
  exact ⟨hleaf, hlt, hroot, htracks, hid, hbump⟩

/-! ### The recent roots -/

/-- **The window** of an account that tracks `ls`: the last thirty roots, and no zero string. -/
theorem Tracks.isKnownRoot_iff {P : Poseidon} {t : MerkleTree} {ls : List F} (h : Tracks P t ls)
    (root : Bytes32) :
    t.isKnownRoot root = true ↔
      root ≠ zero32 ∧ root ∈ (roots P ls).drop ((roots P ls).length - ROOT_HISTORY_LEN) := by
  unfold MerkleTree.isKnownRoot
  by_cases e : root = zero32
  · simp [e]
  · rw [if_neg e, ← h.history.mem_iff e, Vector.any_eq_true]
    simp only [beq_iff_eq, ne_eq, e, not_false_eq_true, true_and]
    exact ⟨fun ⟨i, hi, hr⟩ => ⟨⟨i, hi⟩, hr⟩, fun ⟨i, hr⟩ => ⟨i.val, i.isLt, hr⟩⟩

-- from here on only their specifications are used
attribute [irreducible] append initializeTree

end Qietr.Pool
