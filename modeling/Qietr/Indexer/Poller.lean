import Qietr.Indexer.Db
import Qietr.Indexer.Rpc
import Qietr.Pool.Deployment
import Qietr.Sdk.Program

/-!
# Indexer — one pass of the poller

`index.ts`: `syncCommitments`, which walks the new signatures, oldest first, and gives each leaf the
next index of its denomination, unless the leaf is there already.

* `SyncState`, `appendLeaf`, `syncSignature`, `syncLoop`: the walk; it ends where the node's answer
  is an error.
* `syncSignature_parsed`: what a pass does of a transaction whose instructions are at top level.
* `no_leaf_skipped`: it appends all of its leaves, in order, or it does not go past it.
* `cpi_leaf_skipped`: the leaf of a deposit from within another program is skipped.
-/

namespace Qietr.Indexer

open Pool Outcome

variable {env : PoolEnv} {programId : Pubkey}

/-! ### The walk -/

/-- A pass: the database, and the next index of the denominations it has met. -/
structure SyncState where
  db : Db
  nextLeaf : UInt8 → Option ℤ
  commitments : ℕ
  lastSig : Option String
  maxSlot : ℕ

/-- The next index of a denomination, which is then taken. -/
def leafFor (st : SyncState) (denomId : UInt8) : ℤ × SyncState :=
  let idx := (st.nextLeaf denomId).getD (st.db.maxLeafIndex denomId + 1)
  (idx, { st with nextLeaf := Function.update st.nextLeaf denomId (some (idx + 1)) })

/-- A leaf that is known is not appended again. -/
def appendLeaf (st : SyncState) (denomId : UInt8) (commitmentBe : Bytes32) (slot : ℕ) : SyncState :=
  if st.db.commitmentExists denomId commitmentBe then st
  else
    let (leafIndex, st) := leafFor st denomId
    { st with
      db := st.db.insertCommitment { denomId, leafIndex, commitmentBe, insertedSlot := slot }
      commitments := st.commitments + 1 }

/-- One instruction of the program. -/
def syncIx (st : SyncState) (ix : PoolIxRecord) : SyncState :=
  match parseDepositIx ix.ixData with
  | some (denomId, commitment) => appendLeaf st denomId commitment ix.slot
  | none =>
      match parseWithdrawIx ix.ixData with
      | some (denomId, changeCommitment) => appendLeaf st denomId changeCommitment ix.slot
      | none => st

/-- The progress after a signature. -/
def SyncState.passed (st : SyncState) (sig : SignatureInfo) : SyncState :=
  { st with
    db := st.db.writeCheckpoint sig.slot (some sig.signature)
    lastSig := some sig.signature
    maxSlot := max st.maxSlot sig.slot }

/-- One signature, with what the node answers about its transaction. -/
def syncSignature (programId : Pubkey) (st : SyncState) (sig : SignatureInfo)
    (answer : Except String (Option ParsedTransaction)) : Except String SyncState := do
  let tx ← answer
  .ok (((getPoolIxs programId sig tx).foldl syncIx st).passed sig)

/-- The signatures, up to the first error, which the pass ends with. -/
def syncLoop (programId : Pubkey)
    (answer : SignatureInfo → Except String (Option ParsedTransaction))
    (st : SyncState) : List SignatureInfo → SyncState × Option String
  | [] => (st, none)
  | sig :: sigs =>
      match syncSignature programId st sig (answer sig) with
      | .ok st => syncLoop programId answer st sigs
      | .error e => (st, some e)

/-- **One pass**, over the signatures that the node lists after the last one seen. -/
def syncCommitments (programId : Pubkey) (db : Db)
    (pages : Option String → List (List SignatureInfo))
    (answer : SignatureInfo → Except String (Option ParsedTransaction)) :
    SyncState × Option String :=
  let since := db.progress.bind Checkpoint.lastSignature
  syncLoop programId answer
    { db
      nextLeaf := fun _ => none
      commitments := 0
      lastSig := since
      maxSlot := (db.progress.map Checkpoint.lastSlot).getD 0 }
    (getNewSignatures (pages since))

/-! ### Leaf by leaf -/

/-- The leaves of a transaction, one after the other. -/
def appendLeaves (st : SyncState) (slot : ℕ) (xs : List (UInt8 × Bytes32)) : SyncState :=
  xs.foldl (fun st x => appendLeaf st x.1 x.2 slot) st

theorem syncIx_eq (st : SyncState) (ix : PoolIxRecord) :
    syncIx st ix = appendLeaves st ix.slot (leafOfIx ix.ixData).toList := by
  rw [syncIx, leafOfIx]
  cases parseDepositIx ix.ixData with
  | some deposit => rfl
  | none => cases parseWithdrawIx ix.ixData <;> rfl

/-- The instructions of one slot append the leaves that they are read as. -/
theorem foldl_syncIx {slot : ℕ} {ixs : List PoolIxRecord} (h : ∀ ix ∈ ixs, ix.slot = slot)
    (st : SyncState) :
    ixs.foldl syncIx st = appendLeaves st slot (ixs.filterMap fun ix => leafOfIx ix.ixData) := by
  induction ixs generalizing st with
  | nil => rfl
  | cons ix ixs ih =>
      rw [List.forall_mem_cons] at h
      rw [List.foldl_cons, ih h.2, syncIx_eq, h.1]
      cases hleaf : leafOfIx ix.ixData with
      | none => rw [List.filterMap_cons, hleaf]; rfl
      | some x => rw [List.filterMap_cons, hleaf]; rfl

/-- A transaction that the node answers with, whose instructions are at top level. -/
theorem syncSignature_parsed (tx : ChainTransaction env programId) (htop : tx.TopLevel)
    (st : SyncState) :
    syncSignature programId st tx.info (.ok (some tx.parsed)) =
      .ok ((appendLeaves st tx.slot (tx.calls.filterMap appended)).passed tx.info) := by
  rw [syncSignature, ok_bind, foldl_syncIx (slot_getPoolIxs tx), leafOfIx_getPoolIxs tx htop]

/-! ### No leaf is skipped -/

/-- **No leaf is skipped**, of a transaction that calls the program at top level: if the node
answers with it, its leaves are appended, in order, before the progress goes on to its signature;
if the answer is an error, the pass ends where it was. -/
theorem no_leaf_skipped (tx : ChainTransaction env programId) (htop : tx.TopLevel)
    (answer : SignatureInfo → Except String (Option ParsedTransaction)) (st : SyncState)
    (sigs : List SignatureInfo) :
    (answer tx.info = .ok (some tx.parsed) →
      syncLoop programId answer st (tx.info :: sigs) =
        syncLoop programId answer
          ((appendLeaves st tx.slot (tx.calls.filterMap appended)).passed tx.info) sigs) ∧
    ∀ e, answer tx.info = .error e →
      syncLoop programId answer st (tx.info :: sigs) = (st, some e) := by
  refine ⟨fun h => ?_, fun e h => ?_⟩
  · rw [syncLoop, h, syncSignature_parsed tx htop]
  · rw [syncLoop, h]
    rfl

/-- Another program that a transaction may call. -/
abbrev routerProgram : Pubkey :=
  key 9

/-- A transaction of another program, which makes these instructions of the pool. -/
def routed {P : Poseidon} (calls : List (Call (ideal P))) :
    ChainTransaction (ideal P) Sdk.QIETR_POOL_PROGRAM_ID where
  signature := "5"
  slot := 1
  err := none
  instructions := [.other ⟨routerProgram, some ""⟩ (by decide) calls]

/-- A transaction of the program alone. -/
def direct {P : Poseidon} (calls : List (Call (ideal P))) :
    ChainTransaction (ideal P) Sdk.QIETR_POOL_PROGRAM_ID where
  signature := "5"
  slot := 1
  err := none
  instructions := calls.map fun c => .pool c []

theorem topLevel_direct {P : Poseidon} (calls : List (Call (ideal P))) :
    (direct calls).TopLevel := by
  intro ix hix
  obtain ⟨c, -, rfl⟩ := List.mem_map.mp hix
  trivial

/-- A deposit that the program accepts, and another after it. -/
theorem exists_deposits (P : Poseidon) (x y : F) : ∃ log s s' s'' accounts,
    PoolRun (ideal P) log s ∧
    exec (ideal P) s 0 (.deposit accounts 0 (encode x)) = .ok s' ∧
    exec (ideal P) s' 0 (.deposit accounts 0 (encode y)) = .ok s'' := by
  obtain ⟨config, tree, s, hrun, ho, -, -, -, hkept, -⟩ := exists_opened P
  let accounts : DepositAccounts (ideal P) := ⟨depositorAta, admin P⟩
  have hata : s.ledger.account accounts.depositorAta = some _ :=
    hkept _ _ (genesis_ledger P).depositor
  obtain ⟨denomination', _, s', hdep, ho', hmint, hamount, -, hmoved⟩ := ho.deposit_ok hata rfl rfl
    (by decide : (10 : UInt64).toNat ≤ (2 ^ 24 : UInt64).toNat) (by decide) x
  -- the depositor's account has enough left
  obtain ⟨ata', hata', hmint', howner'⟩ := hmoved.account_some hata
  have hleft := (PaidOut.of_moved hmoved).vault
  rw [Ledger.balance_eq hata, Ledger.balance_eq hata'] at hleft
  have hfunds : denomination'.amountMicroUsdc.toNat ≤ ata'.amount.toNat := by
    have hten : denomination'.amountMicroUsdc.toNat = 10 := congrArg UInt64.toNat hamount
    have hpaid : 2 ^ 24 ≤ ata'.amount.toNat + 10 := hleft
    omega
  obtain ⟨_, _, s'', hdep', -⟩ := ho'.deposit_ok hata' (hmint'.trans hmint.symm) howner' hfunds
    (show 1 < 2 ^ MERKLE_DEPTH by decide) y
  exact ⟨_, s, s', s'', _, hrun, hdep, hdep'⟩

/-- At top level two leaves are appended, in their order. -/
theorem no_leaf_skipped_direct : ∃ log s s' s'' accounts, PoolRun (ideal circom) log s ∧
    exec (ideal circom) s 0 (.deposit accounts 0 (encode 1)) = .ok s' ∧
    exec (ideal circom) s' 0 (.deposit accounts 0 (encode 2)) = .ok s'' ∧
    ∀ st, syncLoop Sdk.QIETR_POOL_PROGRAM_ID
        (fun _ => .ok (some (direct [Call.deposit accounts 0 (encode 1),
          .deposit accounts 0 (encode 2)]).parsed)) st [⟨"5", 1⟩] =
      ((appendLeaf (appendLeaf st 0 (encode 1) 1) 0 (encode 2) 1).passed ⟨"5", 1⟩, none) := by
  obtain ⟨log, s, s', s'', accounts, hrun, hok, hok'⟩ := exists_deposits circom 1 2
  refine ⟨log, s, s', s'', accounts, hrun, hok, hok', fun st => ?_⟩
  exact (no_leaf_skipped
    (direct [Call.deposit accounts 0 (encode 1), .deposit accounts 0 (encode 2)])
    (topLevel_direct _) (fun _ => .ok (some (direct [Call.deposit accounts 0 (encode 1),
      .deposit accounts 0 (encode 2)]).parsed)) st []).1 rfl

/-- From within another program it is not, though the node answers, and the progress goes on. -/
theorem cpi_leaf_skipped : ∃ log s s' accounts, PoolRun (ideal circom) log s ∧
    exec (ideal circom) s 0 (.deposit accounts 0 (encode 1)) = .ok s' ∧
    (routed [Call.deposit accounts 0 (encode 1)]).calls = [.deposit accounts 0 (encode 1)] ∧
    ∀ st, syncLoop Sdk.QIETR_POOL_PROGRAM_ID
        (fun _ => .ok (some (routed [Call.deposit accounts 0 (encode 1)]).parsed)) st [⟨"5", 1⟩] =
      (st.passed ⟨"5", 1⟩, none) := by
  obtain ⟨log, s, s', _, accounts, hrun, hok, -⟩ := exists_deposits circom 1 2
  refine ⟨log, s, s', accounts, hrun, hok, rfl, fun st => ?_⟩
  have hother : routerProgram ≠ Sdk.QIETR_POOL_PROGRAM_ID := by decide
  have hread := getPoolIxs_of_other (routed [Call.deposit accounts 0 (encode 1)])
    (List.forall_mem_singleton.mpr hother)
  rw [syncLoop, syncSignature, ok_bind]
  exact congrArg (fun ixs => ((ixs.foldl syncIx st).passed ⟨"5", 1⟩, none)) hread

end Qietr.Indexer
