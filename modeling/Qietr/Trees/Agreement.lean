import Qietr.Circuit.Templates
import Qietr.Pool.FullTree
import Qietr.Trees.Builders
import Mathlib.Data.Nat.Bitwise

/-!
# Trees — the implementations agree

The tree the indexer and the SDK rebuild is the one the program appends to and the circuit checks
paths of.

* `getD_zeroChain`, `LevelOk.next`: the empty subtrees, and one level.
* `PathOk`: what the loop has found after `d` levels; `pathOk_loop`.
* `Sdk.proof_eq`: the SDK's loop is the indexer's.
* `implementations_agree`: all four.
-/

namespace Qietr

open HashTree Circuit Pool

variable {P : Poseidon}

/-! ### Levels -/

/-- The chain holds the empty subtrees. -/
theorem zeroChain_eq (P : Poseidon) (depth : ℕ) :
    zeroChain P depth = (List.range (depth + 1)).map fun d => (empty P.two 0 d).val := by
  induction depth with
  | zero => rfl
  | succ depth ih =>
      have hlast : (zeroChain P depth).getD depth 0 = (empty P.two 0 depth).val := by
        rw [ih]
        simp
      rw [zeroChain, List.range_succ, List.foldl_append, ← zeroChain, List.foldl_cons,
        List.foldl_nil, hlast, ih, List.range_succ (n := depth + 1), List.map_append]
      simp [hashTwo, empty_succ]

theorem getD_zeroChain {depth d : ℕ} (hd : d ≤ depth) :
    (((zeroChain P depth).getD d 0 : ℕ) : F) = empty P.two 0 d := by
  rw [zeroChain_eq]
  simp [Nat.lt_succ_of_le hd]

/-- The leaves as field elements, zero past the last. -/
abbrev leafOf (leaves : List ℕ) : ℕ → F :=
  leavesOf 0 (leaves.map (↑))

theorem leafOf_eq {leaves : List ℕ} {i : ℕ} (hi : i < leaves.length) :
    leafOf leaves i = (leaves[i] : F) := by
  rw [leafOf, leavesOf_eq (by rwa [List.length_map]), List.getElem_map]

/-- A list has the nodes of height `d`, up to the last with a leaf under it. -/
structure LevelOk (P : Poseidon) (leaves : List ℕ) (d : ℕ) (level : List ℕ) : Prop where
  covers : leaves.length ≤ level.length * 2 ^ d
  node_eq : ∀ j, j < level.length → ((level.getD j 0 : ℕ) : F) = node P.two (leafOf leaves) d j
  val_lt : 0 < d → ∀ x ∈ level, x < r

theorem LevelOk.leaves (P : Poseidon) (leaves : List ℕ) : LevelOk P leaves 0 leaves where
  covers := by simp
  node_eq j hj := by
    rw [node_zero, leafOf_eq hj]
    simp [hj]
  val_lt h := absurd h (lt_irrefl 0)

/-- The node at `j`, or the empty subtree when the list ends before it. -/
theorem LevelOk.getD_eq {leaves : List ℕ} {d depth : ℕ} {level : List ℕ}
    (h : LevelOk P leaves d level) (hd : d ≤ depth) (j : ℕ) :
    ((if j < level.length then level.getD j 0 else (zeroChain P depth).getD d 0 : ℕ) : F) =
      node P.two (leafOf leaves) d j := by
  split
  · exact h.node_eq j ‹_›
  · rename_i hj
    rw [getD_zeroChain hd]
    refine (node_eq_empty P.two fun i hi => leavesOf_ge ?_).symm
    rw [List.length_map]
    calc leaves.length ≤ level.length * 2 ^ d := h.covers
      _ ≤ j * 2 ^ d := Nat.mul_le_mul_right _ (not_lt.mp hj)
      _ = i / 2 ^ d * 2 ^ d := by rw [hi]
      _ ≤ i := Nat.div_mul_le_self i _

/-- **One level up.** -/
theorem LevelOk.next {leaves : List ℕ} {d depth : ℕ} {level : List ℕ}
    (h : LevelOk P leaves d level) (hd : d ≤ depth) :
    LevelOk P leaves (d + 1) (nextLevel P (zeroChain P depth) d level) := by
  have hlen : (nextLevel P (zeroChain P depth) d level).length = (level.length + 1) / 2 := by
    simp [nextLevel]
  refine ⟨?_, fun j hj => ?_, fun _ x hx => ?_⟩
  · calc leaves.length ≤ level.length * 2 ^ d := h.covers
      _ ≤ (level.length + 1) / 2 * 2 * 2 ^ d := Nat.mul_le_mul_right _ (by omega)
      _ = _ := by rw [hlen, pow_succ']; ring
  · rw [hlen] at hj
    have hl : 2 * j < level.length := by omega
    have hr := h.getD_eq hd (2 * j + 1)
    rw [nextLevel, List.getD_eq_getElem?_getD, List.getElem?_map, List.getElem?_range hj]
    show ((hashTwo P _ _ : ℕ) : F) = _
    rw [hashTwo, ZMod.natCast_zmod_val, hr, h.node_eq _ hl, node_succ]
  · obtain ⟨j, -, rfl⟩ := List.mem_map.mp hx
    exact ZMod.val_lt _

/-- The node over the first leaf. -/
theorem LevelOk.head_eq {leaves : List ℕ} {d : ℕ} {level : List ℕ} (h : LevelOk P leaves d level)
    (hd : 0 < d) (hne : 0 < leaves.length) (z : ℕ) :
    (if level.length = 0 then z else level.getD 0 0) = (node P.two (leafOf leaves) d 0).val := by
  have hpos : 0 < level.length := Nat.pos_of_mul_pos_right (hne.trans_le h.covers)
  have hmem : level.getD 0 0 ∈ level := by
    rw [List.getD_eq_getElem _ _ hpos]
    exact List.getElem_mem hpos
  rw [if_neg hpos.ne', ← h.node_eq 0 hpos, val_natCast (h.val_lt hd _ hmem)]

/-! ### The loop -/

/-- The other child, as the loop computes it. -/
theorem xor_one_eq_sibling (j : ℕ) : j ^^^ 1 = sibling j := by
  rw [sibling]
  split
  · exact Nat.xor_one_of_even (Nat.even_iff.mpr ‹_›)
  · exact Nat.xor_one_of_odd (Nat.odd_iff.mpr (by omega))

/-- What the loop has found of the path of `i` after `d` levels. -/
structure PathOk (P : Poseidon) (leaves : List ℕ) (i d : ℕ) (s : Indexer.Loop) : Prop where
  level : LevelOk P leaves d s.level
  idx : s.idx = i / 2 ^ d
  elements : s.pathElements.map (fun x : ℕ => (x : F)) =
    (siblings P.two (leafOf leaves) d i).map Prod.fst
  indices : s.pathIndices = (List.range d).map fun k => i / 2 ^ k % 2

theorem PathOk.next {leaves : List ℕ} {i d depth : ℕ} {s : Indexer.Loop}
    (h : PathOk P leaves i d s) (hd : d ≤ depth) :
    PathOk P leaves i (d + 1) (s.next P (zeroChain P depth) d) where
  level := h.level.next hd
  idx := by
    show s.idx >>> 1 = _
    rw [h.idx, Nat.shiftRight_eq_div_pow, Nat.div_div_eq_div_mul, ← pow_add]
  elements := by
    have hsibling := h.level.getD_eq hd (s.idx ^^^ 1)
    rw [xor_one_eq_sibling, h.idx] at hsibling
    rw [siblings_succ, List.map_append, ← h.elements]
    show List.map _ (s.pathElements ++ [_]) = _
    rw [List.map_append, List.map_singleton, xor_one_eq_sibling, h.idx, hsibling]
    rfl
  indices := by
    show s.pathIndices ++ [s.idx &&& 1] = _
    rw [h.indices, h.idx, Nat.and_one_is_mod, List.range_succ, List.map_append]
    rfl

/-- **The loop**, from its invariant. -/
theorem pathOk_loop (P : Poseidon) (leaves : List ℕ) (i depth : ℕ) :
    ∀ d ≤ depth, PathOk P leaves i d ((List.range d).foldl (Indexer.Loop.next P (zeroChain P depth))
      { level := leaves, idx := i, pathElements := [], pathIndices := [] }) := by
  intro d
  induction d with
  | zero =>
      intro _
      exact ⟨.leaves P leaves, by simp, rfl, rfl⟩
  | succ d ih =>
      intro hd
      rw [List.range_succ, List.foldl_append]
      exact (ih (by omega)).next (by omega)

/-- What the indexer answers. -/
theorem buildInclusionPath_ok (P : Poseidon) {leaves : List ℕ} {i : ℕ} (hi : i < leaves.length) :
    ∃ path, Indexer.buildInclusionPath P leaves i = .ok path ∧
      path.pathElements.map (fun x : ℕ => (x : F)) =
        (siblings P.two (leafOf leaves) 20 i).map Prod.fst ∧
      path.pathIndices = ((List.range 20).map fun k => i / 2 ^ k % 2) ∧
      path.root = (fullRoot P (leaves.map (↑))).val := by
  have hrange : ¬ ((i : ℤ) < 0 ∨ (leaves.length : ℤ) ≤ i) := by omega
  have h := pathOk_loop P leaves i Indexer.MERKLE_DEPTH _ (le_refl _)
  rw [Indexer.buildInclusionPath, if_neg hrange]
  exact ⟨_, rfl, h.elements, h.indices, h.level.head_eq (by decide) (by omega) _⟩

/-! ### The SDK's loop -/

/-- The indexer's variables as the SDK's. -/
def Indexer.Loop.toSdk (s : Indexer.Loop) : Sdk.PoseidonMerkleTree.Loop where
  level := s.level
  idx := s.idx
  pathElements := s.pathElements
  pathIndices := s.pathIndices

theorem Indexer.Loop.toSdk_next (zeros : List ℕ) (s : Indexer.Loop) (d : ℕ) :
    s.toSdk.next P zeros d = (s.next P zeros d).toSdk := by
  have hidx : (0 : ℤ) ≤ s.idx := Int.natCast_nonneg _
  simp [Sdk.PoseidonMerkleTree.Loop.next, Indexer.Loop.next, Indexer.Loop.toSdk, hidx]

theorem Indexer.Loop.toSdk_foldl (zeros ds : List ℕ) (s : Indexer.Loop) :
    ds.foldl (Sdk.PoseidonMerkleTree.Loop.next P zeros) s.toSdk =
      (ds.foldl (Indexer.Loop.next P zeros) s).toSdk :=
  List.foldl_hom _ fun s d => toSdk_next zeros s d

/-- The SDK's tree over the leaves, one insert after the other. -/
def Sdk.PoseidonMerkleTree.ofLeaves (P : Poseidon) (depth : ℕ) (leaves : List ℕ) :
    Sdk.PoseidonMerkleTree :=
  leaves.foldl Sdk.PoseidonMerkleTree.insert (Sdk.PoseidonMerkleTree.create P depth)

theorem Sdk.PoseidonMerkleTree.ofLeaves_eq (P : Poseidon) (depth : ℕ) (leaves : List ℕ) :
    Sdk.PoseidonMerkleTree.ofLeaves P depth leaves =
      { depth, zeros := zeroChain P depth, leaves } := by
  induction leaves using List.reverseRecOn with
  | nil => rfl
  | append_singleton leaves leaf ih =>
      rw [ofLeaves, List.foldl_append, ← ofLeaves, ih]
      rfl

/-- **The SDK's proof is the indexer's.** -/
theorem Sdk.PoseidonMerkleTree.proof_eq (P : Poseidon) {leaves : List ℕ} {i : ℕ}
    (hi : i < leaves.length) :
    (ofLeaves P 20 leaves).proof P i = Indexer.buildInclusionPath P leaves i := by
  have hrange : ¬ ((i : ℤ) < 0 ∨ (leaves.length : ℤ) ≤ i) := by omega
  have hloop := Indexer.Loop.toSdk_foldl (P := P) (zeroChain P 20) (List.range 20)
    { level := leaves, idx := i, pathElements := [], pathIndices := [] }
  rw [ofLeaves_eq, proof, Indexer.buildInclusionPath, if_neg hrange, if_neg hrange]
  simp only [walk, Int.toNat_natCast]
  rw [show ({ level := leaves, idx := (i : ℤ), pathElements := [], pathIndices := [] } : Loop) =
    Indexer.Loop.toSdk { level := leaves, idx := i, pathElements := [], pathIndices := [] }
      from rfl, hloop]
  rfl

/-! ### Agreement -/

/-- The path of an answer, as the circuit's inputs. -/
theorem pathOf_answer {leaves elements : List ℕ} {i d : ℕ}
    (helements : elements.map (fun x : ℕ => (x : F)) =
      (siblings P.two (leafOf leaves) d i).map Prod.fst) :
    pathOf (fun k : Fin d => (elements.getD k 0 : F))
      (fun k : Fin d => decide (i / 2 ^ k.val % 2 = 1)) = siblings P.two (leafOf leaves) d i := by
  have hlen : elements.length = d := by simpa using congrArg List.length helements
  refine List.ext_getElem (by simp) fun k hk _ => ?_
  rw [pathOf_length] at hk
  have hk' : k < elements.length := by rwa [hlen]
  have helement := congrArg (·[k]?) helements
  simp only [List.getElem?_map, List.getElem?_eq_getElem hk', siblings, List.getElem?_range hk,
    Option.map_some, Option.some.injEq] at helement
  refine Prod.ext ?_ ?_
  · simpa [pathOf, siblings, hk'] using helement
  · simp [pathOf, siblings]

/-- Its indices, as the circuit's selectors. -/
theorem selector_answer (i : ℕ) {d : ℕ} (k : Fin d) :
    ((((List.range d).map fun k => i / 2 ^ k % 2).getD k 0 : ℕ) : F) =
      FieldBits.ofBool (decide (i / 2 ^ k.val % 2 = 1)) := by
  rcases Nat.mod_two_eq_zero_or_one (i / 2 ^ k.val) with e | e <;> simp [FieldBits.ofBool, e]

/-- The leaves as the program takes them. -/
def leafBytes (leaves : List ℕ) : List Bytes32 :=
  leaves.map (Bytes.ofNat 32)

theorem canonical_ofNat {l : ℕ} (hl : l < r) : Canonical (Bytes.ofNat 32 l : Bytes32) := by
  rw [Canonical, Bytes.toNat_ofNat_of_lt (hl.trans r_lt)]
  exact hl

theorem decode_ofNat {l : ℕ} (hl : l < r) : decode (Bytes.ofNat 32 l) = (l : F) := by
  rw [decode, Bytes.toNat_ofNat_of_lt (hl.trans r_lt)]

/-- What the program has after appending the leaves. -/
theorem exists_afterAppends (P : Poseidon) (denomId bump : UInt8) {leaves : List ℕ}
    (hlen : leaves.length ≤ 2 ^ MERKLE_DEPTH) (hne : leaves ≠ []) (hcan : ∀ l ∈ leaves, l < r) :
    ∃ t₀, initializeTree P denomId bump = .ok t₀ ∧
      (afterAppends P t₀ (leafBytes leaves)).nextLeafIndex.toNat = leaves.length ∧
      (afterAppends P t₀ (leafBytes leaves)).rootHistory[
          (afterAppends P t₀ (leafBytes leaves)).rootCursor.toNat]? =
        some (encode (fullRoot P (leaves.map (↑)))) := by
  obtain ⟨t₀, hinit, htracks, -, -⟩ := initializeTree_ok P denomId bump
  have hdecode : (leafBytes leaves).map decode = leaves.map (fun l : ℕ => (l : F)) := by
    rw [leafBytes, List.map_map]
    exact List.map_congr_left fun l hl => decode_ofNat (hcan l hl)
  have hcanonical : ∀ b ∈ leafBytes leaves, Canonical b := by
    intro b hb
    obtain ⟨l, hl, rfl⟩ := List.mem_map.mp hb
    exact canonical_ofNat (hcan l hl)
  have happended := tracks_afterAppends htracks (by rwa [leafBytes, List.length_map]) hcanonical
  rw [hdecode] at happended
  refine ⟨t₀, hinit, by rw [happended.count, List.length_map], ?_⟩
  obtain ⟨ls, x, hsnoc⟩ := (List.eq_nil_or_concat' (leaves.map fun l : ℕ => (l : F))).resolve_left
    fun e => hne (List.map_eq_nil_iff.mp e)
  rw [hsnoc] at happended
  rw [happended.newest, hsnoc]

/-- **The four implementations agree.**  The indexer and the SDK find the same root and path of each
leaf; its indices are the bits of the leaf's index; the circuit's checker accepts them; the root is
the one the program has after appending the leaves; and a path from any other value at that index to
the root meets a collision. -/
theorem implementations_agree (P : Poseidon) (leaves : List ℕ) (hlen : leaves.length ≤ 2 ^ 20)
    {i : ℕ} (hi : i < leaves.length) :
    ∃ path, Indexer.buildInclusionPath P leaves i = .ok path ∧
      (Sdk.PoseidonMerkleTree.ofLeaves P 20 leaves).proof P i = .ok path ∧
      path.pathElements.length = 20 ∧
      path.pathIndices = (List.range 20).map (fun k => i / 2 ^ k % 2) ∧
      (∃ signals, MerkleTreeChecker P (leaves[i] : F) (path.root : F)
        (fun k : Fin 20 => (path.pathElements.getD k 0 : F))
        (fun k : Fin 20 => (path.pathIndices.getD k 0 : F)) signals) ∧
      ((∀ l ∈ leaves, l < r) → ∀ denomId bump, ∃ t₀, initializeTree P denomId bump = .ok t₀ ∧
        let t := afterAppends P t₀ (leafBytes leaves)
        t.nextLeafIndex.toNat = leaves.length ∧
        t.rootHistory[t.rootCursor.toNat]? = some (Bytes.ofNat 32 path.root)) ∧
      (∀ (x : F) (p : List (F × Bool)), p.length = 20 → position p = i → x ≠ leaves[i] →
        fold P.two x p = path.root → ∃ u ∈ foldInputs P.two x p, ∃ k j, k < 20 ∧
          Collide P.two u (nodeInput P.two (leafOf leaves) k j)) := by
  obtain ⟨path, hpath, helements, hindices, hroot⟩ := buildInclusionPath_ok P hi
  have hrootF : (path.root : F) = fullRoot P (leaves.map (↑)) := by
    rw [hroot, ZMod.natCast_zmod_val]
  have hleaf := leafOf_eq hi
  have hdiv : i / 2 ^ 20 = 0 := Nat.div_eq_of_lt (hi.trans_le hlen)
  refine ⟨path, hpath, (Sdk.PoseidonMerkleTree.proof_eq P hi).trans hpath, ?_, hindices, ?_, ?_, ?_⟩
  · simpa using congrArg List.length helements
  · refine merkleTreeChecker_iff.mpr ⟨fun k => decide (i / 2 ^ k.val % 2 = 1), fun k => ?_, ?_⟩
    · rw [hindices]
      exact selector_answer i k
    · rw [pathOf_answer helements, ← hleaf, fold_siblings, hdiv, hrootF]
      rfl
  · intro hcan denomId bump
    rw [hroot]
    exact exists_afterAppends P denomId bump hlen (List.ne_nil_of_length_pos (by omega)) hcan
  · intro x p hp hposition hne hfold
    rw [hrootF] at hfold
    have hbinding : fold P.two x p = node P.two (leafOf leaves) p.length 0 := by
      rw [hp]
      exact hfold
    rcases binding P.two hbinding with hx | ⟨u, hu, k, j, hk, -, hc⟩
    · rw [Nat.mul_zero, Nat.zero_add, hposition, hleaf] at hx
      exact absurd hx hne
    · exact ⟨u, hu, k, j, hp ▸ hk, hc⟩

theorem implementations_agree_three :
    ∃ path, Indexer.buildInclusionPath circom [7, 11, 13] 2 = .ok path ∧
      (Sdk.PoseidonMerkleTree.ofLeaves circom 20 [7, 11, 13]).proof circom 2 = .ok path ∧
      path.pathElements.length = 20 := by
  obtain ⟨path, hindexer, hsdk, hlen, -⟩ :=
    implementations_agree circom [7, 11, 13] (by decide) (i := 2) (by decide)
  exact ⟨path, hindexer, hsdk, hlen⟩

end Qietr
