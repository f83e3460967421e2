import Qietr.Pool.Merkle

/-!
# Pool — the incremental tree refines the full tree

What a sequence of appends to a new denomination's tree returns, against the tree of height 20
that has the leaves from the left and zeros after them.

* `afterAppends`: the account, one append after the other.
* `tracks_afterAppends`: it tracks the leaves.
* `append_refines_fullTree`: every call returns, and stores, the full tree's root, up to the
  last of the `2 ^ 20` leaves; the call after that changes nothing.
-/

namespace Qietr.Pool

open Outcome HashTree

/-- What a call leaves in the account it mutates, whether or not it succeeds. -/
def stateAfter {ε σ α : Type} : EStateM.Result ε σ α → σ
  | .ok _ s => s
  | .error _ s => s

/-- The account after appending the leaves in turn. -/
def afterAppends (P : Poseidon) (t : MerkleTree) (leaves : List Bytes32) : MerkleTree :=
  leaves.foldl (fun t leaf => stateAfter ((append P leaf).run t)) t

theorem afterAppends_snoc (P : Poseidon) (t : MerkleTree) (leaves : List Bytes32)
    (leaf : Bytes32) :
    afterAppends P t (leaves ++ [leaf]) =
      stateAfter ((append P leaf).run (afterAppends P t leaves)) := by
  simp only [afterAppends, List.foldl_append, List.foldl_cons, List.foldl_nil]

/-- **Appends to a new tree** leave the tree of the leaves appended. -/
theorem tracks_afterAppends {P : Poseidon} {t : MerkleTree} (h : Tracks P t [])
    {leaves : List Bytes32} (hlen : leaves.length ≤ 2 ^ MERKLE_DEPTH)
    (hleaves : ∀ l ∈ leaves, Canonical l) :
    Tracks P (afterAppends P t leaves) (leaves.map decode) := by
  induction leaves using List.reverseRecOn with
  | nil => exact h
  | append_singleton leaves leaf ih =>
      rw [List.length_append, List.length_singleton] at hlen
      have htracks := ih (by omega) fun l hl => hleaves l (List.mem_append_left _ hl)
      have hleaf : Canonical leaf := hleaves leaf (by simp)
      have hlt : (leaves.map decode).length < 2 ^ MERKLE_DEPTH := by rw [List.length_map]; omega
      obtain ⟨t', hrun, ht', -, -⟩ := append_ok htracks hlt (decode leaf)
      rw [encode_decode hleaf] at hrun
      rw [afterAppends_snoc, hrun, List.map_append]
      exact ht'

/-- The newest root is in the slot under the cursor. -/
theorem Tracks.newest {P : Poseidon} {t : MerkleTree} {ls : List F} {x : F}
    (h : Tracks P t (ls ++ [x])) :
    t.rootHistory[t.rootCursor.toNat]? = some (encode (fullRoot P (ls ++ [x]))) := by
  obtain ⟨hlt, hslots⟩ := h.history
  rw [Vector.getElem?_eq_getElem hlt]
  refine congrArg some ?_
  rw [roots_snoc] at hslots
  have hpos : t.rootCursor.toNat = (t.rootCursor.toNat + 1 + (ROOT_HISTORY_LEN - 1)) %
      ROOT_HISTORY_LEN := by
    rw [Nat.add_assoc, Nat.add_sub_cancel' (by decide), Nat.add_mod_right, Nat.mod_eq_of_lt hlt]
  exact (hslots (ROOT_HISTORY_LEN - 1) (by decide) ⟨_, hlt⟩ hpos).trans
    (RingBuffer.recent_snoc_last (by decide))

/-- **The incremental tree refines the full tree.** -/
theorem append_refines_fullTree (P : Poseidon) (denomId bump : UInt8) (leaves : List Bytes32)
    (hlen : leaves.length ≤ 2 ^ MERKLE_DEPTH)
    (hleaves : ∀ l ∈ leaves, ∃ h, poseidonHashTwo P l zero32 = .ok h) :
    ∃ t₀, initializeTree P denomId bump = .ok t₀ ∧
      (∀ k (hk : k < leaves.length),
        let root := encode (root P.two 0 20 ((leaves.take (k + 1)).map decode))
        let t := afterAppends P t₀ (leaves.take (k + 1))
        (append P leaves[k]).run (afterAppends P t₀ (leaves.take k)) = .ok root t ∧
          t.rootHistory[t.rootCursor.toNat]? = some root) ∧
      (afterAppends P t₀ leaves).nextLeafIndex.toNat = leaves.length ∧
      (leaves.length = 2 ^ 20 → ∀ leaf,
        (append P leaf).run (afterAppends P t₀ leaves) =
          .error .treeFull (afterAppends P t₀ leaves)) := by
  have hcanonical : ∀ l ∈ leaves, Canonical l := fun l hl =>
    (poseidonHashTwo_eq_ok.mp (hleaves l hl).choose_spec).1
  obtain ⟨t₀, hinit, h₀, -, -⟩ := initializeTree_ok P denomId bump
  have hall := tracks_afterAppends h₀ hlen hcanonical
  refine ⟨t₀, hinit, fun k hk => ?_, by simpa using hall.count, fun hfull leaf => ?_⟩
  · have htake : leaves.take (k + 1) = leaves.take k ++ [leaves[k]] := by
      rw [List.take_append_getElem]
    have hleaf : Canonical leaves[k] := hcanonical _ (List.getElem_mem hk)
    have hk' : ((leaves.take k).map decode).length < 2 ^ MERKLE_DEPTH := by
      rw [List.length_map, List.length_take]; omega
    have htracks : Tracks P (afterAppends P t₀ (leaves.take k)) ((leaves.take k).map decode) :=
      tracks_afterAppends h₀ (by rw [List.length_take]; omega)
        fun l hl => hcanonical l (List.mem_of_mem_take hl)
    obtain ⟨t', hrun, ht', -, -⟩ := append_ok htracks hk' (decode leaves[k])
    rw [encode_decode hleaf] at hrun
    have hstate : afterAppends P t₀ (leaves.take (k + 1)) = t' := by
      rw [htake, afterAppends_snoc, hrun]; rfl
    have hmap : (leaves.take (k + 1)).map decode =
        (leaves.take k).map decode ++ [decode leaves[k]] := by
      rw [htake, List.map_append, List.map_singleton]
    simp only [hstate, hmap]
    exact ⟨hrun, ht'.newest⟩
  · exact append_full hall (by rw [List.length_map]; exact hfull) leaf

theorem append_refines_fullTree_two :
    ∃ t₀, initializeTree circom 0 255 = .ok t₀ ∧
      (afterAppends circom t₀ [encode 7, encode 11]).nextLeafIndex.toNat = 2 := by
  have hleaves : ∀ l ∈ [encode 7, encode 11], ∃ h, poseidonHashTwo circom l zero32 = .ok h := by
    intro l hl
    rw [← encode_zero]
    rcases List.mem_pair.mp hl with rfl | rfl
    · exact ⟨_, poseidonHashTwo_encode _ _ _⟩
    · exact ⟨_, poseidonHashTwo_encode _ _ _⟩
  obtain ⟨t₀, hinit, -, hcount, -⟩ :=
    append_refines_fullTree circom 0 255 [encode 7, encode 11] (by decide) hleaves
  exact ⟨t₀, hinit, hcount⟩

end Qietr.Pool
