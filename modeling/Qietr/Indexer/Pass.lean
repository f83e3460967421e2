import Qietr.Indexer.Signatures

/-!
# Indexer — a pass, call by call

`index.ts`, `syncCommitments`, between its database calls.

* `table`: the rows that a stream of leaves is to have.
* `Pass`, `Pass.step`: a pass, with the call that it is to make next; `Pass.reaches_syncLoop`: left
  alone, it is the walk.
* `Pass.Inv`: the rows are those of what has been read, by this pass or an earlier one; the progress
  does not stand beyond them.
* `Pass.Inv.step`: each call keeps it.
-/

namespace Qietr.Indexer

open Pool

variable {programId : Pubkey}

/-! ### The rows of a stream of leaves -/

/-- A leaf, as a transaction of the slot appends it. -/
structure Leaf where
  denomId : UInt8
  commitmentBe : Bytes32
  slot : ℕ

/-- The leaf of a row. -/
def CommitmentRow.source (row : CommitmentRow) : Leaf where
  denomId := row.denomId
  commitmentBe := row.commitmentBe
  slot := row.insertedSlot

/-- A leaf that is in the table, whatever its slot. -/
def Known (rows : List CommitmentRow) (x : Leaf) : Prop :=
  ∃ row ∈ rows, row.denomId = x.denomId ∧ row.commitmentBe = x.commitmentBe

instance (rows : List CommitmentRow) (x : Leaf) : Decidable (Known rows x) :=
  inferInstanceAs (Decidable (∃ row ∈ rows, _))

/-- A leaf's row: its index is the number of rows of its denomination. -/
def nextRow (rows : List CommitmentRow) (x : Leaf) : CommitmentRow where
  denomId := x.denomId
  leafIndex := (rows.filter fun row => row.denomId = x.denomId).length
  commitmentBe := x.commitmentBe
  insertedSlot := x.slot

def addRow (rows : List CommitmentRow) (x : Leaf) : List CommitmentRow :=
  if Known rows x then rows else rows ++ [nextRow rows x]

/-- The rows of a stream of leaves, each the first of its value. -/
def table (xs : List Leaf) : List CommitmentRow :=
  xs.foldl addRow []

theorem table_snoc (xs : List Leaf) (x : Leaf) : table (xs ++ [x]) = addRow (table xs) x := by
  rw [table, List.foldl_append]
  rfl

theorem Known.addRow {rows : List CommitmentRow} {x : Leaf} (h : Known rows x) (y : Leaf) :
    Known (addRow rows y) x := by
  rw [Indexer.addRow]
  split
  · exact h
  · obtain ⟨row, hrow, hx⟩ := h
    exact ⟨row, List.mem_append_left _ hrow, hx⟩

theorem known_addRow_self (rows : List CommitmentRow) (x : Leaf) : Known (addRow rows x) x := by
  rw [addRow]
  split
  · assumption
  · exact ⟨nextRow rows x, List.mem_append_right _ (List.mem_singleton_self _), rfl, rfl⟩

/-- What has been read is known. -/
theorem known_table {xs : List Leaf} {x : Leaf} (hx : x ∈ xs) : Known (table xs) x := by
  induction xs using List.reverseRecOn with
  | nil => cases hx
  | append_singleton xs y ih =>
      rw [table_snoc]
      rcases List.mem_append.mp hx with hx | hx
      · exact (ih hx).addRow y
      · obtain rfl := List.mem_singleton.mp hx
        exact known_addRow_self _ _

theorem commitmentExists_iff (db : Db) (x : Leaf) :
    db.commitmentExists x.denomId x.commitmentBe = true ↔ Known db.commitments x := by
  simp only [Db.commitmentExists, Db.rowsOf, Known, List.any_filter, List.any_eq_true,
    Bool.and_eq_true, decide_eq_true_eq]

/-- The number of rows is the next index. -/
theorem Db.Stores.nextRow_eq {db : Db} {x : Leaf} {ys : List Bytes32}
    (h : db.Stores x.denomId ys) :
    nextRow db.commitments x = ⟨x.denomId, ys.length, x.commitmentBe, x.slot⟩ := by
  have hlen : (db.rowsOf x.denomId).length = ys.length := by
    have hlength := congrArg List.length h
    simpa [numbered] using hlength
  rw [nextRow, ← hlen]
  rfl

/-- Each denomination's rows are numbered from zero on. -/
def Db.Numbered (db : Db) : Prop :=
  ∀ d, ∃ ys, db.Stores d ys

variable {db : Db}

theorem Db.Numbered.congr {db' : Db} (h : db.Numbered)
    (hrows : db'.commitments = db.commitments) : db'.Numbered := by
  intro d
  obtain ⟨ys, hys⟩ := h d
  refine ⟨ys, ?_⟩
  rw [Db.Stores, Db.rowsOf, hrows]
  exact hys

/-- The next row is inserted. -/
theorem Db.Numbered.insertCommitment_eq (h : db.Numbered) (x : Leaf) :
    db.insertCommitment (nextRow db.commitments x) =
      { db with commitments := db.commitments ++ [nextRow db.commitments x] } := by
  obtain ⟨ys, hys⟩ := h x.denomId
  rw [hys.nextRow_eq]
  exact hys.insertCommitment_eq x.commitmentBe x.slot

theorem Db.Numbered.insert (h : db.Numbered) (x : Leaf) :
    (db.insertCommitment (nextRow db.commitments x)).Numbered := by
  intro d
  by_cases hd : x.denomId = d
  · subst hd
    obtain ⟨ys, hys⟩ := h x.denomId
    rw [hys.nextRow_eq]
    exact ⟨_, hys.insert x.commitmentBe x.slot⟩
  · obtain ⟨ys, hys⟩ := h d
    refine ⟨ys, ?_⟩
    rw [Db.Stores, Db.rowsOf_insertCommitment hd]
    exact hys

/-- `MAX(leaf_index)` is the last of the indices. -/
theorem Db.Numbered.maxLeafIndex_eq (h : db.Numbered) (d : UInt8) :
    db.maxLeafIndex d + 1 = (db.rowsOf d).length := by
  obtain ⟨ys, hys⟩ := h d
  have hlength := congrArg List.length hys
  rw [hys.maxLeafIndex_eq]
  simpa [numbered] using hlength.symm

/-- The rows of a table are numbered. -/
theorem numbered_of_table {xs : List Leaf} (h : db.commitments = table xs) : db.Numbered := by
  induction xs using List.reverseRecOn generalizing db with
  | nil =>
      intro d
      refine ⟨[], ?_⟩
      rw [Db.Stores, Db.rowsOf, h]
      rfl
  | append_singleton xs x ih =>
      rw [table_snoc, addRow] at h
      split at h
      · exact ih h
      · have hbefore : Db.Numbered { db with commitments := table xs } := ih rfl
        refine (hbefore.insert x).congr ?_
        rw [hbefore.insertCommitment_eq x]
        exact h

/-! ### A pass, call by call -/

/-- What a pass is to do next. -/
inductive Phase where
  /-- `getPoolIxs` of the next signature. -/
  | next
  /-- `commitmentExists` of the next leaf of a signature, or its checkpoint. -/
  | leaves (sig : SignatureInfo) (ixs : List PoolIxRecord)
  /-- `leafFor`, of a leaf that is not there. -/
  | index (sig : SignatureInfo) (x : Leaf) (ixs : List PoolIxRecord)
  /-- `insertCommitment`. -/
  | insert (sig : SignatureInfo) (row : CommitmentRow) (ixs : List PoolIxRecord)

structure Pass where
  st : SyncState
  phase : Phase
  sigs : List SignatureInfo

/-- The leaf of an instruction. -/
def leafAt (ix : PoolIxRecord) : Option Leaf :=
  (leafOfIx ix.ixData).map fun x => { denomId := x.1, commitmentBe := x.2, slot := ix.slot }

/-- The next call of a pass, over a history whose transactions are `tx`. -/
def Pass.step (programId : Pubkey) (tx : SignatureInfo → Option ParsedTransaction) : Pass → Pass
  | ⟨st, .next, []⟩ => ⟨st, .next, []⟩
  | ⟨st, .next, sig :: sigs⟩ => ⟨st, .leaves sig (getPoolIxs programId sig (tx sig)), sigs⟩
  | ⟨st, .leaves sig [], sigs⟩ => ⟨st.passed sig, .next, sigs⟩
  | ⟨st, .leaves sig (ix :: ixs), sigs⟩ =>
      match leafAt ix with
      | none => ⟨st, .leaves sig ixs, sigs⟩
      | some x =>
          if st.db.commitmentExists x.denomId x.commitmentBe then ⟨st, .leaves sig ixs, sigs⟩
          else ⟨st, .index sig x ixs, sigs⟩
  | ⟨st, .index sig x ixs, sigs⟩ =>
      let (leafIndex, st) := leafFor st x.denomId
      ⟨st, .insert sig ⟨x.denomId, leafIndex, x.commitmentBe, x.slot⟩ ixs, sigs⟩
  | ⟨st, .insert sig row ixs, sigs⟩ =>
      let st := { st with
        db := st.db.insertCommitment row
        commitments := st.commitments + 1 }
      ⟨st, .leaves sig ixs, sigs⟩

/-- The pass may come to that one. -/
def Pass.Reaches (programId : Pubkey) (tx : SignatureInfo → Option ParsedTransaction) :
    Pass → Pass → Prop :=
  Relation.ReflTransGen fun p q => p.step programId tx = q

variable {tx : SignatureInfo → Option ParsedTransaction}

theorem syncIx_of_leafAt (st : SyncState) (ix : PoolIxRecord) :
    syncIx st ix = match leafAt ix with
      | none => st
      | some x => appendLeaf st x.denomId x.commitmentBe x.slot := by
  rw [syncIx_eq, leafAt]
  cases leafOfIx ix.ixData <;> rfl

/-- An instruction. -/
theorem Pass.reaches_syncIx (st : SyncState) (sig : SignatureInfo) (ix : PoolIxRecord)
    (ixs : List PoolIxRecord) (sigs : List SignatureInfo) :
    Reaches programId tx ⟨st, .leaves sig (ix :: ixs), sigs⟩
      ⟨syncIx st ix, .leaves sig ixs, sigs⟩ := by
  rw [syncIx_of_leafAt]
  cases hleaf : leafAt ix with
  | none =>
      refine .single ?_
      rw [Pass.step, hleaf]
  | some x =>
      by_cases hexists : st.db.commitmentExists x.denomId x.commitmentBe = true
      · refine .single ?_
        simp only [Pass.step, hleaf, appendLeaf, if_pos hexists]
      · have habsent : Pass.step programId tx ⟨st, .leaves sig (ix :: ixs), sigs⟩ =
            ⟨st, .index sig x ixs, sigs⟩ := by
          simp only [Pass.step, hleaf, if_neg hexists]
        refine .head habsent (.head rfl (.single ?_))
        simp only [Pass.step, appendLeaf, if_neg hexists]

/-- The instructions of a signature. -/
theorem Pass.reaches_foldl (st : SyncState) (sig : SignatureInfo) (ixs : List PoolIxRecord)
    (sigs : List SignatureInfo) :
    Reaches programId tx ⟨st, .leaves sig ixs, sigs⟩
      ⟨ixs.foldl syncIx st, .leaves sig [], sigs⟩ := by
  induction ixs generalizing st with
  | nil => exact .refl
  | cons ix ixs ih => exact (reaches_syncIx st sig ix ixs sigs).trans (ih (syncIx st ix))

/-- **Left alone**, a pass is the walk. -/
theorem Pass.reaches_syncLoop (st : SyncState) (sigs : List SignatureInfo) :
    Reaches programId tx ⟨st, .next, sigs⟩
      ⟨(syncLoop programId (fun sig => .ok (tx sig)) st sigs).1, .next, []⟩ := by
  induction sigs generalizing st with
  | nil => exact .refl
  | cons sig sigs ih =>
      refine .head ?_ ((reaches_foldl st sig (getPoolIxs programId sig (tx sig)) sigs).trans
        (.head ?_ (ih _)))
      · rfl
      · rfl

/-! ### What a pass has done -/

/-- The leaves that signatures are read as. -/
def leavesAt (programId : Pubkey) (tx : SignatureInfo → Option ParsedTransaction)
    (sigs : List SignatureInfo) : List Leaf :=
  sigs.flatMap fun sig => (getPoolIxs programId sig (tx sig)).filterMap leafAt

theorem leavesAt_append (xs ys : List SignatureInfo) :
    leavesAt programId tx (xs ++ ys) = leavesAt programId tx xs ++ leavesAt programId tx ys :=
  List.flatMap_append

/-- The signatures that a pass has not checkpointed. -/
def Pass.listed : Pass → List SignatureInfo
  | ⟨_, .next, sigs⟩ => sigs
  | ⟨_, .leaves sig _, sigs⟩ | ⟨_, .index sig _ _, sigs⟩ | ⟨_, .insert sig _ _, sigs⟩ => sig :: sigs

/-- The leaves that are still to be read. -/
def Pass.todo (programId : Pubkey) (tx : SignatureInfo → Option ParsedTransaction) :
    Pass → List Leaf
  | ⟨_, .next, sigs⟩ => leavesAt programId tx sigs
  | ⟨_, .leaves _ ixs, sigs⟩ => ixs.filterMap leafAt ++ leavesAt programId tx sigs
  | ⟨_, .index _ x ixs, sigs⟩ => x :: (ixs.filterMap leafAt ++ leavesAt programId tx sigs)
  | ⟨_, .insert _ row ixs, sigs⟩ =>
      row.source :: (ixs.filterMap leafAt ++ leavesAt programId tx sigs)

/-- The indices in memory are the next ones of these rows. -/
def Indexed (nextLeaf : UInt8 → Option ℤ) (rows : List CommitmentRow) : Prop :=
  ∀ d, ∀ i ∈ nextLeaf d, i = (rows.filter fun row => row.denomId = d).length

/-- What a pass knows when it makes its next call. -/
def Pass.Ready : Pass → Prop
  | ⟨st, .next, _⟩ | ⟨st, .leaves _ _, _⟩ => Indexed st.nextLeaf st.db.commitments
  | ⟨st, .index _ x _, _⟩ => Indexed st.nextLeaf st.db.commitments ∧ ¬ Known st.db.commitments x
  | ⟨st, .insert _ row _, _⟩ => Indexed st.nextLeaf (st.db.commitments ++ [row]) ∧
      ¬ Known st.db.commitments row.source ∧ row = nextRow st.db.commitments row.source

/-- The history is `handled`, what the pass is at, and what is younger.  Of the leaves that it is at
it has read `done`; the rows are those of all that has been read, and of the leaves `ahead`, which
an earlier pass has read. -/
structure Pass.Inv (programId : Pubkey) (tx : SignatureInfo → Option ParsedTransaction)
    (chain : List SignatureInfo) (p : Pass) (handled younger : List SignatureInfo)
    (done ahead : List Leaf) : Prop where
  chain : chain = handled ++ (p.listed ++ younger)
  progress : p.st.db.lastSignature = lastOf handled
  leaves : leavesAt programId tx p.listed = done ++ p.todo programId tx
  within : ahead <+: p.todo programId tx ++ leavesAt programId tx younger
  rows : p.st.db.commitments = table (leavesAt programId tx handled ++ done ++ ahead)
  ready : p.Ready

variable {chain handled younger : List SignatureInfo} {done ahead : List Leaf}

/-- Of a leaf that is not there, nothing is ahead. -/
theorem ahead_eq_nil {rows : List CommitmentRow} {xs rest : List Leaf} {x : Leaf}
    (hrows : rows = table (xs ++ ahead)) (hahead : ahead <+: x :: rest) (hnew : ¬ Known rows x) :
    ahead = [] := by
  rcases List.prefix_cons_iff.mp hahead with rfl | ⟨ahead, rfl, -⟩
  · rfl
  · have hmem : x ∈ xs ++ x :: ahead := List.mem_append_right _ List.mem_cons_self
    exact (hnew (hrows ▸ known_table hmem)).elim

/-- A leaf that is there is read without a change: it is ahead, or it has been read before. -/
theorem rows_of_known {rows : List CommitmentRow} {xs rest : List Leaf} {x : Leaf}
    (hrows : rows = table (xs ++ ahead)) (hahead : ahead <+: x :: rest) (hknown : Known rows x) :
    ∃ ahead', ahead' <+: rest ∧ rows = table (xs ++ [x] ++ ahead') := by
  rcases List.prefix_cons_iff.mp hahead with rfl | ⟨ahead, rfl, hrest⟩
  · refine ⟨[], List.nil_prefix, ?_⟩
    rw [List.append_nil] at hrows
    rw [List.append_nil, table_snoc, ← hrows, addRow, if_pos hknown]
  · refine ⟨ahead, hrest, ?_⟩
    rw [hrows, List.append_assoc, List.singleton_append]

theorem Indexed.leafFor_eq {st : SyncState} (h : Indexed st.nextLeaf st.db.commitments)
    (hnumbered : st.db.Numbered) (d : UInt8) :
    (leafFor st d).1 = ((st.db.commitments.filter fun row => row.denomId = d).length : ℤ) := by
  show (st.nextLeaf d).getD (st.db.maxLeafIndex d + 1) = _
  cases hnext : st.nextLeaf d with
  | none => exact hnumbered.maxLeafIndex_eq d
  | some i => exact h d i hnext

/-- The index that is taken is that of the row to come. -/
theorem Indexed.leafFor {st : SyncState} (h : Indexed st.nextLeaf st.db.commitments)
    (hnumbered : st.db.Numbered) (x : Leaf) :
    Indexed (leafFor st x.denomId).2.nextLeaf
      (st.db.commitments ++ [nextRow st.db.commitments x]) := by
  intro d i hi
  have hindex := h.leafFor_eq hnumbered x.denomId
  replace hi : i ∈ Function.update st.nextLeaf x.denomId
    (some ((Indexer.leafFor st x.denomId).1 + 1)) d := hi
  rw [List.filter_append, List.length_append]
  by_cases hd : d = x.denomId
  · subst hd
    rw [Function.update_self, hindex] at hi
    cases hi
    simp [nextRow]
  · rw [Function.update_of_ne hd] at hi
    have hrow : (nextRow st.db.commitments x).denomId ≠ d := Ne.symm hd
    simp [h d i hi, hrow]

variable {st : SyncState} {sig : SignatureInfo} {ix : PoolIxRecord} {ixs : List PoolIxRecord}
  {sigs : List SignatureInfo} {x : Leaf} {row : CommitmentRow}

/-- The checkpoint of a signature whose leaves have been read. -/
theorem Pass.Inv.checkpoint
    (h : Pass.Inv programId tx chain ⟨st, .leaves sig [], sigs⟩ handled younger done ahead) :
    Pass.Inv programId tx chain ⟨st.passed sig, .next, sigs⟩ (handled ++ [sig]) younger []
      ahead := by
  have hdone : leavesAt programId tx [sig] = done := by
    rw [← List.append_left_inj (leavesAt programId tx sigs), ← leavesAt_append]
    exact h.leaves
  refine ⟨?_, ?_, rfl, h.within, ?_, h.ready⟩
  · rw [List.append_assoc]
    exact h.chain
  · simp [SyncState.passed, lastSignature_writeCheckpoint, lastOf]
  · rw [leavesAt_append, hdone, List.append_nil]
    exact h.rows

/-- An instruction that appends nothing. -/
theorem Pass.Inv.skip (hleaf : leafAt ix = none)
    (h : Pass.Inv programId tx chain ⟨st, .leaves sig (ix :: ixs), sigs⟩ handled younger done
      ahead) :
    Pass.Inv programId tx chain ⟨st, .leaves sig ixs, sigs⟩ handled younger done ahead := by
  obtain ⟨hchain, hprogress, hleaves, hwithin, hrows, hready⟩ := h
  rw [Pass.todo, List.filterMap_cons_none hleaf] at hleaves hwithin
  exact ⟨hchain, hprogress, hleaves, hwithin, hrows, hready⟩

/-- A leaf that is there. -/
theorem Pass.Inv.known (hleaf : leafAt ix = some x) (hknown : Known st.db.commitments x)
    (h : Pass.Inv programId tx chain ⟨st, .leaves sig (ix :: ixs), sigs⟩ handled younger done
      ahead) :
    ∃ ahead, Pass.Inv programId tx chain ⟨st, .leaves sig ixs, sigs⟩ handled younger (done ++ [x])
      ahead := by
  obtain ⟨hchain, hprogress, hleaves, hwithin, hrows, hready⟩ := h
  rw [Pass.todo, List.filterMap_cons_some hleaf] at hleaves hwithin
  obtain ⟨ahead, hwithin, hrows⟩ := rows_of_known hrows hwithin hknown
  refine ⟨ahead, hchain, hprogress, ?_, hwithin, ?_, hready⟩
  · rw [List.append_assoc]
    exact hleaves
  · rw [← List.append_assoc]
    exact hrows

/-- A leaf that is not there is to have an index. -/
theorem Pass.Inv.new (hleaf : leafAt ix = some x) (hnew : ¬ Known st.db.commitments x)
    (h : Pass.Inv programId tx chain ⟨st, .leaves sig (ix :: ixs), sigs⟩ handled younger done
      ahead) :
    Pass.Inv programId tx chain ⟨st, .index sig x ixs, sigs⟩ handled younger done ahead := by
  obtain ⟨hchain, hprogress, hleaves, hwithin, hrows, hready⟩ := h
  rw [Pass.todo, List.filterMap_cons_some hleaf] at hleaves hwithin
  exact ⟨hchain, hprogress, hleaves, hwithin, hrows, hready, hnew⟩

/-- Its index is taken. -/
theorem Pass.Inv.index
    (h : Pass.Inv programId tx chain ⟨st, .index sig x ixs, sigs⟩ handled younger done ahead) :
    Pass.Inv programId tx chain (Pass.step programId tx ⟨st, .index sig x ixs, sigs⟩) handled
      younger done ahead := by
  obtain ⟨hchain, hprogress, hleaves, hwithin, hrows, hindexed, hnew⟩ := h
  have hnumbered := numbered_of_table hrows
  have hrow : CommitmentRow.mk x.denomId (leafFor st x.denomId).1 x.commitmentBe x.slot =
      nextRow st.db.commitments x := by
    rw [hindexed.leafFor_eq hnumbered]
    rfl
  have hnext := hindexed.leafFor hnumbered x
  rw [← hrow] at hnext
  exact ⟨hchain, hprogress, hleaves, hwithin, hrows, hnext, hnew, hrow⟩

/-- Its row is inserted. -/
theorem Pass.Inv.insert
    (h : Pass.Inv programId tx chain ⟨st, .insert sig row ixs, sigs⟩ handled younger done ahead) :
    Pass.Inv programId tx chain (Pass.step programId tx ⟨st, .insert sig row ixs, sigs⟩) handled
      younger (done ++ [row.source]) [] := by
  obtain ⟨hchain, hprogress, hleaves, hwithin, hrows, hindexed, hnew, hrow⟩ := h
  obtain rfl := ahead_eq_nil hrows hwithin hnew
  have hinsert : st.db.insertCommitment row =
      { st.db with commitments := st.db.commitments ++ [row] } := by
    have hnext := (numbered_of_table hrows).insertCommitment_eq row.source
    rwa [← hrow] at hnext
  simp only [Pass.step, hinsert]
  refine ⟨hchain, hprogress, ?_, List.nil_prefix, ?_, hindexed⟩
  · rw [List.append_assoc]
    exact hleaves
  · rw [List.append_nil] at hrows ⊢
    rw [← List.append_assoc, table_snoc, ← hrows, addRow, if_neg hnew, ← hrow]

/-- **One call** of a pass. -/
theorem Pass.Inv.step {p : Pass} (h : p.Inv programId tx chain handled younger done ahead) :
    ∃ handled done ahead,
      (p.step programId tx).Inv programId tx chain handled younger done ahead := by
  obtain ⟨st, phase, sigs⟩ := p
  cases phase with
  | next =>
      obtain ⟨hchain, hprogress, hleaves, hwithin, hrows, hready⟩ := h
      cases sigs with
      | nil => exact ⟨handled, done, ahead, hchain, hprogress, hleaves, hwithin, hrows, hready⟩
      | cons sig sigs =>
          exact ⟨handled, done, ahead, hchain, hprogress, hleaves, hwithin, hrows, hready⟩
  | leaves sig ixs =>
      cases ixs with
      | nil => exact ⟨_, _, _, h.checkpoint⟩
      | cons ix ixs =>
          cases hleaf : leafAt ix with
          | none =>
              simp only [Pass.step, hleaf]
              exact ⟨_, _, _, h.skip hleaf⟩
          | some x =>
              by_cases hknown : Known st.db.commitments x
              · simp only [Pass.step, hleaf, if_pos ((commitmentExists_iff _ _).mpr hknown)]
                exact ⟨_, _, h.known hleaf hknown⟩
              · have hexists := fun e => hknown ((commitmentExists_iff st.db x).mp e)
                simp only [Pass.step, hleaf, if_neg hexists]
                exact ⟨_, _, _, h.new hleaf hknown⟩
  | index sig x ixs => exact ⟨_, _, _, h.index⟩
  | insert sig row ixs => exact ⟨_, _, _, h.insert⟩

theorem Pass.Inv.reaches {p q : Pass} (h : p.Inv programId tx chain handled younger done ahead)
    (hpq : Reaches programId tx p q) :
    ∃ handled done ahead, q.Inv programId tx chain handled younger done ahead := by
  induction hpq with
  | refl => exact ⟨handled, done, ahead, h⟩
  | tail _ hstep ih =>
      obtain ⟨handled, done, ahead, h⟩ := ih
      exact hstep ▸ h.step

/-- A pass begins. -/
theorem Pass.Inv.begin {db : Db} {sigs : List SignatureInfo}
    (hprogress : db.lastSignature = lastOf handled)
    (hahead : ahead <+: leavesAt programId tx (sigs ++ younger))
    (hrows : db.commitments = table (leavesAt programId tx handled ++ ahead)) :
    Pass.Inv programId tx (handled ++ (sigs ++ younger)) ⟨SyncState.resumed db, .next, sigs⟩
      handled younger [] ahead := by
  refine ⟨rfl, hprogress, rfl, ?_, ?_, nofun⟩
  · rw [leavesAt_append] at hahead
    exact hahead
  · rw [List.append_nil]
    exact hrows

end Qietr.Indexer
