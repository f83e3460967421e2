import Qietr.Library.BigEndian
import Qietr.Library.Dedup

/-!
# Indexer — the database

`db.ts` and the tables of `schema.sql` that hold the leaves and the progress; `writer.rs` runs the
same statements.

* `Db`: the rows of `commitments`, and the row of `ingest_progress` of one component.
* `insertCommitment`, `maxLeafIndex`, `commitmentExists`, `writeCheckpoint`: the statements.
* `Db.tree d`: the leaves of a denomination, ordered by index.
* `Db.Stores d xs`: these are `xs`, from index zero on; what the statements then do.
-/

namespace Qietr.Indexer

structure CommitmentRow where
  denomId : UInt8
  leafIndex : ℤ
  commitmentBe : Bytes 32
  insertedSlot : ℕ
  deriving DecidableEq

/-- Which leaf it is. -/
def CommitmentRow.leaf (row : CommitmentRow) : ℤ × Bytes 32 :=
  (row.leafIndex, row.commitmentBe)

structure Checkpoint where
  lastSlot : ℕ
  lastSignature : Option String
  deriving DecidableEq

structure Db where
  commitments : List CommitmentRow
  progress : Option Checkpoint

/-- Before the indexer's first run. -/
def Db.empty : Db where
  commitments := []
  progress := none

namespace Db

/-- `ON CONFLICT (denom_id, leaf_index) DO NOTHING`. -/
def insertCommitment (db : Db) (row : CommitmentRow) : Db :=
  if db.commitments.any fun r => r.denomId = row.denomId ∧ r.leafIndex = row.leafIndex then db
  else { db with commitments := db.commitments ++ [row] }

/-- The rows of a denomination. -/
def rowsOf (db : Db) (denomId : UInt8) : List CommitmentRow :=
  db.commitments.filter fun row => row.denomId = denomId

/-- The highest index of a denomination, or `-1`. -/
def maxLeafIndex (db : Db) (denomId : UInt8) : ℤ :=
  ((db.rowsOf denomId).map CommitmentRow.leafIndex).max?.getD (-1)

def commitmentExists (db : Db) (denomId : UInt8) (commitmentBe : Bytes 32) : Bool :=
  (db.rowsOf denomId).any fun row => row.commitmentBe = commitmentBe

/-- The progress, with the greatest slot seen. -/
def writeCheckpoint (db : Db) (lastSlot : ℕ) (lastSignature : Option String) : Db :=
  let seen := (db.progress.map Checkpoint.lastSlot).getD 0
  { db with progress := some { lastSlot := max seen lastSlot, lastSignature } }

/-- The leaves of a denomination, ordered by index. -/
def tree (db : Db) (denomId : UInt8) : List (ℤ × Bytes 32) :=
  ((db.rowsOf denomId).mergeSort fun r₁ r₂ => r₁.leafIndex ≤ r₂.leafIndex).map CommitmentRow.leaf

end Db

/-! ### A tree from index zero on -/

/-- The leaves with their indices. -/
def numbered (xs : List (Bytes 32)) : List (ℤ × Bytes 32) :=
  xs.zipIdx.map fun x => ((x.2 : ℤ), x.1)

theorem numbered_snoc (xs : List (Bytes 32)) (x : Bytes 32) :
    numbered (xs ++ [x]) = numbered xs ++ [((xs.length : ℤ), x)] := by
  simp [numbered, List.zipIdx_append]

theorem mem_numbered {xs : List (Bytes 32)} {i : ℤ} {x : Bytes 32} :
    (i, x) ∈ numbered xs ↔ ∃ n : ℕ, i = n ∧ xs[n]? = some x := by
  simp only [numbered, List.mem_map, Prod.exists, List.mem_zipIdx_iff_getElem?, Prod.mk.injEq]
  refine ⟨?_, ?_⟩
  · rintro ⟨y, n, h, rfl, rfl⟩
    exact ⟨n, rfl, h⟩
  · rintro ⟨n, rfl, h⟩
    exact ⟨x, n, h, rfl, rfl⟩

theorem numbered_inj {xs ys : List (Bytes 32)} : numbered xs = numbered ys ↔ xs = ys := by
  refine ⟨fun h => ?_, congrArg numbered⟩
  have hsnd : ∀ zs, (numbered zs).map Prod.snd = zs := by
    intro zs
    rw [numbered, List.map_map]
    exact List.zipIdx_map_fst 0 zs
  rw [← hsnd xs, h, hsnd]

theorem pairwise_numbered (xs : List (Bytes 32)) : (numbered xs).Pairwise fun a b => a.1 < b.1 := by
  rw [numbered, List.pairwise_map, List.pairwise_iff_getElem]
  intro i j hi hj hij
  rw [List.getElem_zipIdx, List.getElem_zipIdx]
  simpa using hij

namespace Db

variable {db : Db} {d : UInt8} {xs : List (Bytes 32)}

/-- The rows of a denomination are the leaves `xs`, in the order they were inserted. -/
def Stores (db : Db) (d : UInt8) (xs : List (Bytes 32)) : Prop :=
  (db.rowsOf d).map CommitmentRow.leaf = numbered xs

theorem Stores.empty (d : UInt8) : Db.empty.Stores d [] :=
  rfl

theorem Stores.mem {row : CommitmentRow} (h : db.Stores d xs) (hrow : row ∈ db.rowsOf d) :
    ∃ n : ℕ, row.leafIndex = n ∧ xs[n]? = some row.commitmentBe :=
  mem_numbered.mp (h ▸ List.mem_map_of_mem hrow)

/-- The order is that of the indices. -/
theorem Stores.tree_eq (h : db.Stores d xs) : db.tree d = numbered xs := by
  have hsorted : (db.rowsOf d).Pairwise fun r₁ r₂ => r₁.leafIndex ≤ r₂.leafIndex := by
    have hnumbered := pairwise_numbered xs
    rw [← h, List.pairwise_map] at hnumbered
    exact hnumbered.imp le_of_lt
  have hsort : (db.rowsOf d).mergeSort (fun r₁ r₂ => r₁.leafIndex ≤ r₂.leafIndex) = db.rowsOf d :=
    List.mergeSort_of_pairwise (hsorted.imp fun h => decide_eq_true h)
  rw [tree, hsort]
  exact h

theorem Stores.commitmentExists_iff (h : db.Stores d xs) {c : Bytes 32} :
    db.commitmentExists d c = true ↔ c ∈ xs := by
  have hmap : (db.rowsOf d).map CommitmentRow.commitmentBe = xs := by
    have hsnd := congrArg (List.map Prod.snd) h
    rw [List.map_map, numbered, List.map_map] at hsnd
    exact hsnd.trans (List.zipIdx_map_fst 0 xs)
  rw [commitmentExists, List.any_eq_true, ← hmap, List.mem_map]
  simp only [decide_eq_true_eq]

/-- The next index is the number of leaves. -/
theorem Stores.maxLeafIndex_eq (h : db.Stores d xs) : db.maxLeafIndex d + 1 = xs.length := by
  have hmap : (db.rowsOf d).map CommitmentRow.leafIndex = (numbered xs).map Prod.fst := by
    have hfst := congrArg (List.map Prod.fst) h
    rwa [List.map_map] at hfst
  rw [maxLeafIndex, hmap]
  rcases List.eq_nil_or_concat' xs with rfl | ⟨ys, y, rfl⟩
  · rfl
  · have hmax : ((numbered (ys ++ [y])).map Prod.fst).max? = some (ys.length : ℤ) := by
      refine List.max?_eq_some_iff.mpr ⟨?_, fun i hi => ?_⟩
      · rw [numbered_snoc, List.map_append]
        exact List.mem_append_right _ (List.mem_singleton_self _)
      · obtain ⟨⟨_, x⟩, hmem, rfl⟩ := List.mem_map.mp hi
        obtain ⟨n, rfl, hget⟩ := mem_numbered.mp hmem
        have hlt := (List.getElem?_eq_some_iff.mp hget).1
        rw [List.length_append, List.length_singleton] at hlt
        show (n : ℤ) ≤ ys.length
        omega
    rw [hmax, Option.getD_some, List.length_append, List.length_singleton]
    push_cast
    ring

/-- The next index is free. -/
theorem Stores.insertCommitment_eq (h : db.Stores d xs) (c : Bytes 32) (slot : ℕ) :
    db.insertCommitment ⟨d, xs.length, c, slot⟩ =
      { db with commitments := db.commitments ++ [⟨d, xs.length, c, slot⟩] } := by
  have hfree : (db.commitments.any fun r => decide (r.denomId = d ∧ r.leafIndex = xs.length)) =
      false := by
    rw [List.any_eq_false]
    intro row hrow hboth
    obtain ⟨hd, hindex⟩ := of_decide_eq_true hboth
    obtain ⟨n, hn, hget⟩ := h.mem (List.mem_filter.mpr ⟨hrow, decide_eq_true hd⟩)
    have hlt := (List.getElem?_eq_some_iff.mp hget).1
    omega
  exact if_neg (Bool.eq_false_iff.mp hfree)

/-- A leaf at the next index. -/
theorem Stores.insert (h : db.Stores d xs) (c : Bytes 32) (slot : ℕ) :
    (db.insertCommitment ⟨d, xs.length, c, slot⟩).Stores d (xs ++ [c]) := by
  rw [h.insertCommitment_eq, Stores, rowsOf, List.filter_append, numbered_snoc, List.map_append]
  congr 1
  simp [CommitmentRow.leaf]

/-- The first row of an index stays. -/
theorem map_leaf_insertCommitment (db : Db) (row : CommitmentRow) :
    ((db.insertCommitment row).rowsOf row.denomId).map CommitmentRow.leaf =
      Dedup.addKey Prod.fst ((db.rowsOf row.denomId).map CommitmentRow.leaf) row.leaf := by
  have hany : (db.commitments.any fun r =>
      decide (r.denomId = row.denomId ∧ r.leafIndex = row.leafIndex)) =
        ((db.rowsOf row.denomId).map CommitmentRow.leaf).any fun y =>
          decide (y.1 = row.leaf.1) := by
    rw [rowsOf, List.any_map, List.any_filter]
    simp only [Bool.decide_and, CommitmentRow.leaf, Function.comp_def]
    rfl
  rw [insertCommitment, Dedup.addKey, hany]
  split
  · rfl
  · simp [rowsOf, List.filter_append]

/-- Another denomination's rows are left alone. -/
theorem rowsOf_insertCommitment {row : CommitmentRow} (hne : row.denomId ≠ d) :
    (db.insertCommitment row).rowsOf d = db.rowsOf d := by
  rw [insertCommitment]
  split
  · rfl
  · simp [rowsOf, hne]

/-- Rows of distinct indices are a tree just when they are its leaves. -/
theorem tree_eq_iff (hnodup : ((db.rowsOf d).map CommitmentRow.leafIndex).Nodup) :
    db.tree d = numbered xs ↔
      ∀ x, x ∈ (db.rowsOf d).map CommitmentRow.leaf ↔ x ∈ numbered xs := by
  have hperm : (db.tree d).Perm ((db.rowsOf d).map CommitmentRow.leaf) :=
    (List.mergeSort_perm ..).map _
  refine ⟨?_, ?_⟩
  · intro h x
    rw [← h]
    exact hperm.mem_iff.symm
  · intro h
    have hsorted : (db.tree d).Pairwise fun a b => a.1 < b.1 := by
      have hle : ((db.rowsOf d).mergeSort fun r₁ r₂ => r₁.leafIndex ≤ r₂.leafIndex).Pairwise
          fun r₁ r₂ => decide (r₁.leafIndex ≤ r₂.leafIndex) = true :=
        List.pairwise_mergeSort (fun a b c => by simpa using le_trans)
          (fun a b => by simpa using le_total _ _) _
      have hne := ((List.mergeSort_perm (db.rowsOf d) fun r₁ r₂ => r₁.leafIndex ≤ r₂.leafIndex).map
        CommitmentRow.leafIndex).nodup_iff.mpr hnodup
      rw [tree, List.pairwise_map]
      refine (hle.and (List.pairwise_map.mp hne)).imp fun hboth => ?_
      exact lt_of_le_of_ne (of_decide_eq_true hboth.1) hboth.2
    have hrows : (db.tree d).Nodup := hsorted.imp fun hlt e => (lt_irrefl _ (e ▸ hlt)).elim
    have hnumbered : (numbered xs).Nodup :=
      (pairwise_numbered xs).imp fun hlt e => (lt_irrefl _ (e ▸ hlt)).elim
    have hmem : (db.tree d).Perm (numbered xs) :=
      (List.perm_ext_iff_of_nodup hrows hnumbered).mpr fun x => hperm.mem_iff.trans (h x)
    exact hmem.eq_of_pairwise (fun a b _ _ hab hba => (lt_asymm hab hba).elim) hsorted
      (pairwise_numbered xs)

end Db

end Qietr.Indexer
