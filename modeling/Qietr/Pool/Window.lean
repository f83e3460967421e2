import Qietr.Pool.Deployment
import Qietr.Pool.FullTree

/-!
# Pool — the recent-root window

Which roots a denomination accepts, over a whole run.

* `producedRoots`: what a sequence of appends returns.
* `Held.rootsOf_eq`: the tree a run leaves is what the appends of its history left, and the roots in
  its ring are among those they returned.
* `isKnownRoot_iff_recent`: a root is accepted exactly when it is one of the last thirty produced
  and is not the zero string.
-/

namespace Qietr.Pool

open Outcome

/-- The roots that appending the leaves in turn returns. -/
def producedRoots (P : Poseidon) (t : MerkleTree) : List Bytes32 → List Bytes32
  | [] => []
  | leaf :: leaves =>
      match (append P leaf).run t with
      | .ok root t' => root :: producedRoots P t' leaves
      | .error _ t' => producedRoots P t' leaves

/-- From an account that tracks `ls`, appends return the full tree's roots. -/
theorem roots_append_producedRoots {P : Poseidon} {t : MerkleTree} {ls : List F}
    (h : Tracks P t ls) {xs : List Bytes32} (hlen : ls.length + xs.length ≤ 2 ^ MERKLE_DEPTH)
    (hxs : ∀ x ∈ xs, Canonical x) :
    roots P ls ++ producedRoots P t xs = roots P (ls ++ xs.map decode) := by
  induction xs generalizing t ls with
  | nil => simp [producedRoots]
  | cons x xs ih =>
      rw [List.length_cons] at hlen
      obtain ⟨t', hrun, ht', -, -⟩ := append_ok h (by omega) (decode x)
      rw [encode_decode (hxs x List.mem_cons_self)] at hrun
      have hrest := ih ht' (by rw [List.length_append, List.length_singleton]; omega)
        fun y hy => hxs y (List.mem_cons_of_mem _ hy)
      rw [roots_snoc, List.append_assoc, List.append_assoc] at hrest
      simp only [producedRoots, hrun, List.map_cons]
      exact hrest

theorem producedRoots_eq {P : Poseidon} {t : MerkleTree} (h : Tracks P t [])
    {xs : List Bytes32} (hlen : xs.length ≤ 2 ^ MERKLE_DEPTH) (hxs : ∀ x ∈ xs, Canonical x) :
    producedRoots P t xs = roots P (xs.map decode) := by
  have happ := roots_append_producedRoots h (by simpa using hlen) hxs
  simpa [roots] using happ

variable {env : PoolEnv}

/-- The roots a denomination's appends produced. -/
def rootsOf (env : PoolEnv) (d : UInt8) (h : List Entry) : List Bytes32 :=
  match initializeTree env.poseidon d (env.bump (.tree d)) with
  | .ok t₀ => producedRoots env.poseidon t₀ (h.map Entry.leaf)
  | .error _ => []

/-- The roots a run produced are those of the full trees over its history. -/
theorem Held.rootsOf_eq {s : PoolState} {d : UInt8} {h : List Entry} {denomination : Denomination}
    {tree : MerkleTree} (hh : Held env s d h denomination tree) :
    rootsOf env d h = roots env.poseidon (leaves h) := by
  obtain ⟨t₀, ht₀, htracks, -, -⟩ := initializeTree_ok env.poseidon d (env.bump (.tree d))
  have hlen : (h.map Entry.leaf).length ≤ 2 ^ MERKLE_DEPTH := by
    rw [List.length_map, ← leaves_length]
    exact hh.tracks.bound
  have hcan : ∀ x ∈ h.map Entry.leaf, Canonical x := by
    rintro x hx
    obtain ⟨e, he, rfl⟩ := List.mem_map.mp hx
    exact hh.canonical e he
  rw [rootsOf, ht₀]
  show producedRoots _ _ _ = _
  rw [producedRoots_eq htracks hlen hcan, List.map_map]
  rfl

/-- **The recent-root window.**  After `n` appends with the roots `r₁ … rₙ`, a root is known
exactly when it is not the zero string and is one of the last thirty; so `rₖ` stays known through
exactly 29 further appends, and after that only if it recurs. -/
theorem isKnownRoot_iff_recent {log : List (Action env)} {s : PoolState} (h : PoolRun env log s)
    {d : UInt8} {tree : MerkleTree} (ht : s.tree d = some tree) :
    let rs := rootsOf env d (history d log)
    let n := (history d log).length
    rs.length = n ∧
    (∀ r, tree.isKnownRoot r = true ↔ r ≠ zero32 ∧ ∃ k, n - 30 ≤ k ∧ rs[k]? = some r) ∧
    (∀ k r, rs[k]? = some r → r ≠ zero32 → n ≤ k + 1 + 29 → tree.isKnownRoot r = true) ∧
    (∀ k r, rs[k]? = some r → k + 1 + 30 ≤ n →
      (∀ j, n - 30 ≤ j → rs[j]? ≠ some r) → tree.isKnownRoot r = false) := by
  have hinv := poolInv_of_run h
  obtain ⟨denomination, hh⟩ : ∃ denomination, Held env s d (history d log) denomination tree := by
    rcases hinv.denominations d with habs | ⟨denomination, tree', hh⟩
    · rw [habs.tree] at ht; cases ht
    · rw [hh.tree_eq] at ht
      cases ht
      exact ⟨denomination, hh⟩
  have hlen : (rootsOf env d (history d log)).length = (history d log).length := by
    rw [hh.rootsOf_eq, roots_length, leaves_length]
  have hknown : ∀ r, tree.isKnownRoot r = true ↔ r ≠ zero32 ∧
      ∃ k, (history d log).length - 30 ≤ k ∧ (rootsOf env d (history d log))[k]? = some r := by
    intro r
    rw [hh.tracks.isKnownRoot_iff, hh.rootsOf_eq, roots_length, leaves_length]
    refine and_congr_right fun _ => ?_
    rw [List.mem_iff_getElem?]
    refine ⟨?_, ?_⟩
    · rintro ⟨i, hi⟩
      rw [List.getElem?_drop] at hi
      exact ⟨_, Nat.le_add_right _ _, hi⟩
    · rintro ⟨k, hk, hr⟩
      refine ⟨k - ((history d log).length - 30), ?_⟩
      rw [List.getElem?_drop, Nat.add_sub_cancel' hk]
      exact hr
  refine ⟨hlen, hknown, fun k r hr hne hk => ?_, fun k r _ _ hfresh => ?_⟩
  · exact (hknown r).mpr ⟨hne, k, by omega, hr⟩
  · by_contra hr
    obtain ⟨-, j, hj, hrj⟩ := (hknown r).mp (by simpa using hr)
    exact hfresh j hj hrj

theorem isKnownRoot_iff_recent_launched :
    ∃ (log : List (Action (ideal circom))) (s : PoolState) (tree : MerkleTree),
      PoolRun (ideal circom) log s ∧ s.tree 0 = some tree ∧ (history 0 log).length = 2 ∧
      ∀ r, tree.isKnownRoot r = true ↔ r ≠ zero32 ∧ ∃ k, (history 0 log).length - 30 ≤ k ∧
        (rootsOf (ideal circom) 0 (history 0 log))[k]? = some r := by
  obtain ⟨log, s, config, denomination, tree, hl⟩ := exists_launched circom [7, 11] (by decide)
  refine ⟨log, s, tree, hl.run, hl.tree_eq, by rw [hl.history_eq]; rfl, ?_⟩
  exact (isKnownRoot_iff_recent hl.run hl.tree_eq).2.1

end Qietr.Pool
