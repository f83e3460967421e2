import Qietr.Indexer.Poller
import Qietr.Library.Dedup

/-!
# Indexer — rebuilding the tree

The poller gives a leaf that is there already no index of its own; the program appends it again.

* `SyncState.Tracks`: the database and the indices of a pass, against the leaves it has met.
* `Polled`: the passes over a chain whose every transaction the node answers with.
* `poller_rebuilds_iff`: the rows of a denomination are its tree just when no leaf occurs twice.
* `repeated_leaf_lost`: a chain with a leaf that occurs twice.
-/

namespace Qietr.Indexer

open Pool Outcome Dedup

variable {env : PoolEnv} {programId : Pubkey}

/-! ### One leaf -/

/-- Of each denomination the database has the leaves `xs`, and their number is the next index. -/
structure SyncState.Tracks (st : SyncState) (xs : UInt8 → List Bytes32) : Prop where
  stores : ∀ d, st.db.Stores d (xs d)
  next : ∀ d, ∀ i ∈ st.nextLeaf d, i = (xs d).length

variable {st : SyncState} {xs : UInt8 → List Bytes32}

theorem SyncState.Tracks.leafFor_eq (h : st.Tracks xs) (d : UInt8) :
    leafFor st d = (((xs d).length : ℤ),
      { st with nextLeaf := Function.update st.nextLeaf d (some ((xs d).length + 1)) }) := by
  have hindex : (st.nextLeaf d).getD (st.db.maxLeafIndex d + 1) = (xs d).length := by
    cases hnext : st.nextLeaf d with
    | none => exact (h.stores d).maxLeafIndex_eq
    | some i => exact h.next d i hnext
  rw [leafFor, hindex]

/-- **A leaf** is added unless it is there. -/
theorem SyncState.Tracks.appendLeaf (h : st.Tracks xs) (d : UInt8) (c : Bytes32) (slot : ℕ) :
    (appendLeaf st d c slot).Tracks (Function.update xs d (addNew (xs d) c)) := by
  by_cases hmem : c ∈ xs d
  · rw [Indexer.appendLeaf, if_pos ((h.stores d).commitmentExists_iff.mpr hmem), addNew,
      if_pos hmem, Function.update_eq_self]
    exact h
  · have hnew : ¬ st.db.commitmentExists d c = true := fun e =>
      hmem ((h.stores d).commitmentExists_iff.mp e)
    rw [Indexer.appendLeaf, if_neg hnew, h.leafFor_eq, addNew, if_neg hmem]
    refine ⟨fun d' => ?_, fun d' i hi => ?_⟩
    · by_cases hd : d' = d
      · subst hd
        rw [Function.update_self]
        exact (h.stores d').insert c slot
      · rw [Function.update_of_ne hd, Db.Stores,
          Db.rowsOf_insertCommitment (show d ≠ d' from Ne.symm hd)]
        exact h.stores d'
    · replace hi : i ∈ Function.update st.nextLeaf d (some ((xs d).length + 1)) d' := hi
      by_cases hd : d' = d
      · subst hd
        rw [Function.update_self] at hi ⊢
        cases hi
        simp
      · rw [Function.update_of_ne hd] at hi ⊢
        exact h.next d' i hi

/-! ### Transactions -/

/-- The leaves of a denomination after more of them. -/
def readOn (xs : UInt8 → List Bytes32) (ys : List (UInt8 × Bytes32)) (d : UInt8) : List Bytes32 :=
  (leavesOf d ys).foldl addNew (xs d)

theorem SyncState.Tracks.appendLeaves (h : st.Tracks xs) (slot : ℕ)
    (ys : List (UInt8 × Bytes32)) : (appendLeaves st slot ys).Tracks (readOn xs ys) := by
  induction ys generalizing st xs with
  | nil => exact h
  | cons y ys ih =>
      have hread : readOn xs (y :: ys) =
          readOn (Function.update xs y.1 (addNew (xs y.1) y.2)) ys := by
        funext d
        by_cases hd : y.1 = d
        · subst hd
          rw [readOn, readOn, Function.update_self, leavesOf, List.filterMap_cons, if_pos rfl]
          rfl
        · rw [readOn, readOn, Function.update_of_ne (Ne.symm hd), leavesOf, List.filterMap_cons,
            if_neg hd]
          rfl
      rw [hread]
      exact ih (h.appendLeaf y.1 y.2 slot)

theorem SyncState.Tracks.passed (h : st.Tracks xs) (sig : SignatureInfo) :
    (st.passed sig).Tracks xs :=
  ⟨h.stores, h.next⟩

/-- What transactions append. -/
def appendedBy (txs : List (ChainTransaction env programId)) : List (UInt8 × Bytes32) :=
  (txs.flatMap ChainTransaction.calls).filterMap appended

/-- **The walk** over transactions that the node answers with. -/
theorem SyncState.Tracks.syncLoop {txs : List (ChainTransaction env programId)}
    (htop : ∀ tx ∈ txs, tx.TopLevel)
    {answer : SignatureInfo → Except String (Option ParsedTransaction)}
    (hanswer : ∀ tx ∈ txs, answer tx.info = .ok (some tx.parsed)) (h : st.Tracks xs) :
    (syncLoop programId answer st (txs.map ChainTransaction.info)).1.Tracks
      (readOn xs (appendedBy txs)) := by
  induction txs generalizing st xs with
  | nil => exact h
  | cons tx txs ih =>
      rw [List.forall_mem_cons] at htop hanswer
      have hread : readOn xs (appendedBy (tx :: txs)) =
          readOn (readOn xs (tx.calls.filterMap appended)) (appendedBy txs) := by
        funext d
        rw [appendedBy, List.flatMap_cons, List.filterMap_append, readOn, leavesOf_append,
          List.foldl_append]
        rfl
      rw [List.map_cons, Indexer.syncLoop, hanswer.1, syncSignature_parsed tx htop.1, hread]
      exact ih htop.2 hanswer.2 ((h.appendLeaves tx.slot _).passed tx.info)

/-! ### Passes -/

/-- The database after passes over the transactions of a chain: the node lists each signature once,
oldest first, and answers with each transaction. -/
inductive Polled (env : PoolEnv) (programId : Pubkey) :
    List (ChainTransaction env programId) → Db → Prop
  | start : Polled env programId [] Db.empty
  | pass {done batch : List (ChainTransaction env programId)} {db : Db}
      {pages : Option String → List (List SignatureInfo)}
      {answer : SignatureInfo → Except String (Option ParsedTransaction)}
      (h : Polled env programId done db)
      (hpages : getNewSignatures (pages (db.progress.bind Checkpoint.lastSignature)) =
        batch.map ChainTransaction.info)
      (hanswer : ∀ tx ∈ batch, answer tx.info = .ok (some tx.parsed)) :
      Polled env programId (done ++ batch) (syncCommitments programId db pages answer).1.db

/-- **After the passes** the database has the first occurrences of each denomination's leaves. -/
theorem stores_of_polled {txs : List (ChainTransaction env programId)} {db : Db}
    (h : Polled env programId txs db) (htop : ∀ tx ∈ txs, tx.TopLevel) (d : UInt8) :
    db.Stores d (firsts (leavesOf d (appendedBy txs))) := by
  induction h generalizing d with
  | start => exact Db.Stores.empty d
  | @pass done batch db pages answer h hpages hanswer ih =>
      rw [List.forall_mem_append] at htop
      have hstart : SyncState.Tracks
          { db
            nextLeaf := fun _ => none
            commitments := 0
            lastSig := db.progress.bind Checkpoint.lastSignature
            maxSlot := (db.progress.map Checkpoint.lastSlot).getD 0 }
          fun d => firsts (leavesOf d (appendedBy done)) :=
        ⟨ih htop.1, nofun⟩
      have hwalk := hstart.syncLoop htop.2 hanswer
      rw [appendedBy, List.flatMap_append, List.filterMap_append, leavesOf_append, firsts_append,
        syncCommitments, hpages]
      exact hwalk.stores d

/-! ### The chain's tree -/

/-- The leaves of a history, which are field elements, are what its transactions append. -/
theorem leavesOf_appendedBy {log : List (Action env)} {s : PoolState} (hrun : PoolRun env log s)
    {txs : List (ChainTransaction env programId)}
    (hlog : log.filterMap callOf = txs.flatMap ChainTransaction.calls) (d : UInt8) :
    leavesOf d (appendedBy txs) = (leaves (history d log)).map encode := by
  rw [appendedBy, ← hlog, ← map_leaf_history, leaves, List.map_map]
  refine List.map_congr_left fun e he => ?_
  rcases (poolInv_of_run hrun).denominations d with habs | ⟨_, _, hheld⟩
  · rw [habs.history] at he
    cases he
  · exact (encode_decode (hheld.canonical e he)).symm

/-- The rows that the passes leave are the tree just when no leaf occurs twice. -/
theorem polled_tree_eq_iff {log : List (Action env)} {s : PoolState} (hrun : PoolRun env log s)
    {txs : List (ChainTransaction env programId)}
    (hlog : log.filterMap callOf = txs.flatMap ChainTransaction.calls)
    (htop : ∀ tx ∈ txs, tx.TopLevel) {db : Db} (h : Polled env programId txs db) (d : UInt8) :
    db.tree d = numbered ((leaves (history d log)).map encode) ↔
      (leaves (history d log)).Nodup := by
  have hencode : Function.Injective encode := fun x y => encode_inj.mp
  rw [(stores_of_polled h htop d).tree_eq, numbered_inj, leavesOf_appendedBy hrun hlog,
    firsts_eq_self_iff, List.nodup_map_iff hencode]

/-- **The poller rebuilds the tree** of a denomination just when no leaf of it occurs twice. -/
theorem poller_rebuilds_iff {log : List (Action env)} {s : PoolState} (hrun : PoolRun env log s)
    {txs : List (ChainTransaction env programId)}
    (hlog : log.filterMap callOf = txs.flatMap ChainTransaction.calls)
    (htop : ∀ tx ∈ txs, tx.TopLevel) {db : Db} (h : Polled env programId txs db) (d : UInt8) :
    (∀ tree, s.tree d = some tree → Tracks env.poseidon tree (leaves (history d log))) ∧
      (db.tree d = numbered ((leaves (history d log)).map encode) ↔
        (leaves (history d log)).Nodup) := by
  refine ⟨?_, ?_⟩
  · exact fun tree htree => tracks_tree hrun htree
  · exact polled_tree_eq_iff hrun hlog htop h d

theorem calls_direct {P : Poseidon} (calls : List (Call (ideal P))) :
    (direct calls).calls = calls := by
  show (calls.map fun c => TopInstruction.pool c []).flatMap TopInstruction.calls = calls
  rw [List.flatMap_map]
  exact List.flatMap_singleton' calls

theorem leaves_of_launched {P : Poseidon} {log : List (Action (ideal P))} {s : PoolState}
    {xs : List F} {config : PoolConfig} {denomination : Denomination} {tree : MerkleTree}
    (hl : Launched P log s xs config denomination tree) : leaves (history 0 log) = xs := by
  rw [hl.history_eq, leaves_depositEntries]

/-- The deposits of `xs`, in one transaction that one pass walks over. -/
theorem exists_polled {P : Poseidon} (xs : List F) (hlen : xs.length ≤ 2 ^ MERKLE_DEPTH) :
    ∃ log s config denomination tree txs db, Launched P log s xs config denomination tree ∧
      log.filterMap callOf = txs.flatMap ChainTransaction.calls ∧
      (∀ tx ∈ txs, tx.TopLevel) ∧ Polled (ideal P) Sdk.QIETR_POOL_PROGRAM_ID txs db := by
  obtain ⟨log, s, config, denomination, tree, hl⟩ := exists_launched P xs hlen
  let tx := direct (log.filterMap callOf)
  let pages : Option String → List (List SignatureInfo) := fun _ => [[tx.info]]
  let answer : SignatureInfo → Except String (Option ParsedTransaction) :=
    fun _ => .ok (some tx.parsed)
  have hpages : getNewSignatures (pages (Db.empty.progress.bind Checkpoint.lastSignature)) =
      [tx].map ChainTransaction.info := rfl
  have hanswer : ∀ t ∈ [tx], answer t.info = .ok (some t.parsed) :=
    List.forall_mem_singleton.mpr rfl
  have hpolled := Polled.pass Polled.start hpages hanswer
  refine ⟨log, s, config, denomination, tree, [tx], _, hl, ?_, ?_, hpolled⟩
  · rw [List.flatMap_singleton, calls_direct]
  · exact List.forall_mem_singleton.mpr (topLevel_direct _)

/-- Two leaves that differ. -/
theorem poller_rebuilds_iff_two : ∃ log s, ∃ db : Db, PoolRun (ideal circom) log s ∧
    leaves (history 0 log) = [1, 2] ∧ db.tree 0 = numbered [encode 1, encode 2] := by
  obtain ⟨log, s, _, _, _, txs, db, hl, hlog, htop, hpolled⟩ :=
    exists_polled (P := circom) [1, 2] (by decide)
  have hrebuilt := (poller_rebuilds_iff hl.run hlog htop hpolled 0).2
  rw [leaves_of_launched hl] at hrebuilt
  exact ⟨log, s, db, hl.run, leaves_of_launched hl, hrebuilt.mpr (by decide)⟩

/-- The same leaf twice: the indexer has it once. -/
theorem repeated_leaf_lost : ∃ log s txs, ∃ db : Db, PoolRun (ideal circom) log s ∧
    log.filterMap callOf = txs.flatMap ChainTransaction.calls ∧ (∀ tx ∈ txs, tx.TopLevel) ∧
    Polled (ideal circom) Sdk.QIETR_POOL_PROGRAM_ID txs db ∧
    leaves (history 0 log) = [1, 1] ∧ db.tree 0 = numbered [encode 1] ∧
    db.tree 0 ≠ numbered ((leaves (history 0 log)).map encode) := by
  obtain ⟨log, s, _, _, _, txs, db, hl, hlog, htop, hpolled⟩ :=
    exists_polled (P := circom) [1, 1] (by decide)
  have hleaves := leaves_of_launched hl
  have hone : addNew [] (encode 1) = [encode 1] := if_neg List.not_mem_nil
  have htree : db.tree 0 = numbered [encode 1] := by
    rw [(stores_of_polled hpolled htop 0).tree_eq, leavesOf_appendedBy hl.run hlog, hleaves]
    show numbered (addNew (addNew [] (encode 1)) (encode 1)) = _
    rw [hone, addNew, if_pos (List.mem_singleton_self _)]
  refine ⟨log, s, txs, db, hl.run, hlog, htop, hpolled, hleaves, htree, ?_⟩
  rw [htree, hleaves, ne_eq, numbered_inj]
  simp

end Qietr.Indexer
