import Qietr.Indexer.Geyser
import Qietr.Indexer.AccountState
import Qietr.Library.Upsert

/-!
# Indexer — the tables and their two writers

`schema.sql` with its primary and foreign keys, the statements that `writer.rs` and `db.ts` share,
and what the plugin's `update_account` and the poller's `syncAccountState` write of an account.

* `Store`, `handleEvent`: the tables, and a statement, which fails when a number is no BIGINT or
  when the denomination of a row is not there.
* `Writer.event`: what either writer makes of the bytes of an account; `event_data`: of one of the
  program's.
* `Plain`: numbers that both write alike; `event_plain`: then the events are the same.
* `Referenced`: the denomination of each row is there; `Referenced.handleEvent`: it stays so.
-/

namespace Qietr.Indexer

open Doubles Pool Upsert

/-! ### Tables -/

/-- A row of `denominations`. -/
structure DenominationEntry where
  denomId : UInt8
  amountMicroUsdc : ℤ
  depositCount : ℤ
  vaultAddress : String
  lastSeenSlot : ℕ
  deriving DecidableEq

/-- A row of `roots`. -/
structure RootEntry where
  denomId : UInt8
  leafCount : ℤ
  rootBe : Bytes32
  insertedSlot : ℕ
  deriving DecidableEq

/-- What is asked of the database. -/
inductive WriteEvent where
  | upsertDenomination (row : DenominationEntry)
  | upsertRoot (row : RootEntry)
  | insertCommitment (row : CommitmentRow)
  | insertNullifier (row : NullifierRow)
  | checkpoint (lastSlot : ℕ) (lastSignature : Option String)
  deriving DecidableEq

structure Store where
  denominations : List DenominationEntry
  roots : List RootEntry
  nullifiers : List NullifierRow
  db : Db

def Store.empty : Store where
  denominations := []
  roots := []
  nullifiers := []
  db := Db.empty

/-! ### Statements -/

/-- `DO UPDATE SET …, last_seen_slot = GREATEST (…)`. -/
def mergeDenomination (old row : DenominationEntry) : DenominationEntry :=
  { row with lastSeenSlot := max old.lastSeenSlot row.lastSeenSlot }

/-- `DO UPDATE SET root_be = …, inserted_slot = LEAST (…)`. -/
def mergeRoot (old row : RootEntry) : RootEntry :=
  { old with rootBe := row.rootBe, insertedSlot := min old.insertedSlot row.insertedSlot }

/-- `DO NOTHING`. -/
def mergeNullifier (old _row : NullifierRow) : NullifierRow :=
  old

/-- Which root it is. -/
def RootEntry.key (row : RootEntry) : UInt8 × ℤ :=
  (row.denomId, row.leafCount)

/-- Which nullifier it is. -/
def NullifierRow.key (row : NullifierRow) : UInt8 × Bytes32 :=
  (row.denomId, row.nullifierHashBe)

/-- It is a BIGINT. -/
def Fits (n : ℤ) : Prop :=
  -2 ^ 63 ≤ n ∧ n < 2 ^ 63

instance (n : ℤ) : Decidable (Fits n) :=
  inferInstanceAs (Decidable (_ ∧ _))

namespace Store

/-- `REFERENCES denominations (denom_id)`. -/
def hasDenomination (st : Store) (denomId : UInt8) : Prop :=
  denomId ∈ st.denominations.map DenominationEntry.denomId

instance (st : Store) (denomId : UInt8) : Decidable (st.hasDenomination denomId) :=
  inferInstanceAs (Decidable (_ ∈ _))

/-- The numbers are BIGINTs, and the denomination of a row is there. -/
def accepts (st : Store) : WriteEvent → Prop
  | .upsertDenomination row => Fits row.amountMicroUsdc ∧ Fits row.depositCount
  | .upsertRoot row => Fits row.leafCount ∧ st.hasDenomination row.denomId
  | .insertCommitment row => Fits row.leafIndex ∧ st.hasDenomination row.denomId
  | .insertNullifier row => Fits row.spentAtSlot ∧ st.hasDenomination row.denomId
  | .checkpoint .. => True

instance (st : Store) : (e : WriteEvent) → Decidable (st.accepts e)
  | .upsertDenomination _ => inferInstanceAs (Decidable (_ ∧ _))
  | .upsertRoot _ => inferInstanceAs (Decidable (_ ∧ _))
  | .insertCommitment _ => inferInstanceAs (Decidable (_ ∧ _))
  | .insertNullifier _ => inferInstanceAs (Decidable (_ ∧ _))
  | .checkpoint .. => inferInstanceAs (Decidable True)

/-- What a statement does. -/
def apply (st : Store) : WriteEvent → Store
  | .upsertDenomination row =>
      { st with denominations :=
          upsert DenominationEntry.denomId mergeDenomination st.denominations row }
  | .upsertRoot row => { st with roots := upsert RootEntry.key mergeRoot st.roots row }
  | .insertCommitment row => { st with db := st.db.insertCommitment row }
  | .insertNullifier row =>
      { st with nullifiers := upsert NullifierRow.key mergeNullifier st.nullifiers row }
  | .checkpoint lastSlot lastSignature =>
      { st with db := st.db.writeCheckpoint lastSlot lastSignature }

/-- **A statement**, which may fail. -/
def handleEvent (st : Store) (e : WriteEvent) : Option Store :=
  if st.accepts e then some (st.apply e) else none

theorem handleEvent_eq_some {st st' : Store} {e : WriteEvent} :
    st.handleEvent e = some st' ↔ st.accepts e ∧ st' = st.apply e := by
  rw [handleEvent]
  split
  case isTrue h => simp [h, eq_comm]
  case isFalse h => simp [h]

theorem handleEvent_of_accepts {st : Store} {e : WriteEvent} (h : st.accepts e) :
    st.handleEvent e = some (st.apply e) :=
  if_pos h

end Store

/-- Statements that succeed do what they do. -/
theorem foldl_of_foldlM {es : List WriteEvent} {s s' : Store}
    (h : es.foldlM Store.handleEvent s = some s') : s' = es.foldl Store.apply s := by
  induction es generalizing s with
  | nil => exact (Option.some.inj h).symm
  | cons e es ih =>
      rw [List.foldlM_cons] at h
      obtain ⟨s₁, hs₁, h⟩ := Option.bind_eq_some_iff.mp h
      obtain ⟨-, rfl⟩ := Store.handleEvent_eq_some.mp hs₁
      exact ih h

/-! ### Writers -/

/-- `as i64`. -/
def asI64 (n : UInt64) : ℤ :=
  n.toInt64.toInt

inductive Writer where
  | plugin
  | poller
  deriving DecidableEq

namespace Plugin

/-- `update_account`, of the bytes of one of the program's accounts. -/
def accountEvent (data : List UInt8) (slot : ℕ) : Option WriteEvent :=
  match accountKind data with
  | some .denomination =>
      (decodeDenomination data).map fun denom => .upsertDenomination
        { denomId := denom.denomId
          amountMicroUsdc := asI64 denom.amountMicroUsdc
          depositCount := asI64 denom.depositCount
          vaultAddress := Base58.encode denom.vault.toList
          lastSeenSlot := slot }
  | some .merkleTree =>
      (decodeMerkleTree data).bind fun tree =>
        (latestRoot tree).map fun root => .upsertRoot
          { denomId := tree.denomId
            leafCount := asI64 tree.nextLeafIndex
            rootBe := root
            insertedSlot := slot }
  | some .nullifierRecord =>
      (decodeNullifierRecord data).map fun n => .insertNullifier
        { denomId := n.denomId
          nullifierHashBe := n.nullifierHash
          spentAtSlot := asI64 n.spentAtSlot }
  | _ => none

end Plugin

namespace Poller

/-- `syncAccountState`, of the bytes of one account. -/
def accountEvent (data : List UInt8) (slot : ℕ) : Option WriteEvent :=
  match accountKind data with
  | some .denomination =>
      (decodeDenomination data).map fun d => .upsertDenomination
        { denomId := d.denomId
          amountMicroUsdc := d.amountMicroUsdc
          depositCount := d.depositCount
          vaultAddress := Base58.encode d.vault.toList
          lastSeenSlot := slot }
  | some .merkleTree =>
      (decodeMerkleTree data).bind fun t =>
        t.latestRoot.map fun root => .upsertRoot
          { denomId := t.denomId
            leafCount := t.nextLeafIndex
            rootBe := root
            insertedSlot := slot }
  | some .nullifierRecord =>
      (decodeNullifierRecord data).map fun n => .insertNullifier
        { denomId := n.denomId
          nullifierHashBe := n.nullifierHash
          spentAtSlot := double n.spentAtSlot }
  | _ => none

end Poller

def Writer.event : Writer → List UInt8 → ℕ → Option WriteEvent
  | .plugin => Plugin.accountEvent
  | .poller => Poller.accountEvent

/-! ### The events of an account -/

/-- A whole number as it is written. -/
def Writer.whole : Writer → UInt64 → ℤ
  | .plugin, n => asI64 n
  | .poller, n => n.toNat

/-- The slot of a nullifier as it is written: the poller has made it a double. -/
def Writer.spent : Writer → UInt64 → ℤ
  | .plugin, n => asI64 n
  | .poller, n => double n.toNat

/-- What is written of an account of the program. -/
def Writer.eventOf (w : Writer) (slot : ℕ) : PoolAccount → Option WriteEvent
  | .config _ => none
  | .denomination d => some (.upsertDenomination
      { denomId := d.denomId
        amountMicroUsdc := w.whole d.amountMicroUsdc
        depositCount := w.whole d.depositCount
        vaultAddress := Base58.encode d.vault.toList
        lastSeenSlot := slot })
  | .tree t => (Plugin.latestRoot t).map fun root => .upsertRoot
      { denomId := t.denomId
        leafCount := w.whole t.nextLeafIndex
        rootBe := root
        insertedSlot := slot }
  | .nullifier n => some (.insertNullifier
      { denomId := n.denomId
        nullifierHashBe := n.nullifierHash
        spentAtSlot := w.spent n.spentAtSlot })

/-- What the two decoders make of a denomination, of a tree and of a nullifier. -/
theorem decode_denomination (d : Denomination) :
    Plugin.decodeDenomination (PoolAccount.denomination d).data = some d ∧
      decodeDenomination (PoolAccount.denomination d).data = some (fieldsOfDenomination d) :=
  decode_account Denomination.sized Denomination.inverts decodeDenomination_eq rfl d

theorem decode_tree (t : MerkleTree) :
    Plugin.decodeMerkleTree (PoolAccount.tree t).data = some t ∧
      decodeMerkleTree (PoolAccount.tree t).data = some (stateOfTree t) :=
  decode_account MerkleTree.sized MerkleTree.inverts decodeMerkleTree_eq rfl t

theorem decode_nullifier (n : NullifierRecord) :
    Plugin.decodeNullifierRecord (PoolAccount.nullifier n).data = some n ∧
      decodeNullifierRecord (PoolAccount.nullifier n).data = some (fieldsOfNullifier n) :=
  decode_account NullifierRecord.sized NullifierRecord.inverts decodeNullifierRecord_eq rfl n

/-- **Of the bytes of an account** a writer makes its event. -/
theorem event_data (w : Writer) (slot : ℕ) (a : PoolAccount) :
    w.event a.data slot = w.eventOf slot a := by
  have hkind := accountKind_data a
  cases w with
  | plugin =>
      rw [Writer.event, Plugin.accountEvent, hkind]
      cases a with
      | config c => rfl
      | denomination d =>
          simp only [kindOf, (decode_denomination d).1]
          rfl
      | tree t =>
          simp only [kindOf, (decode_tree t).1]
          rfl
      | nullifier n =>
          simp only [kindOf, (decode_nullifier n).1]
          rfl
  | poller =>
      rw [Writer.event, Poller.accountEvent, hkind]
      cases a with
      | config c => rfl
      | denomination d =>
          simp only [kindOf, (decode_denomination d).2]
          rfl
      | tree t =>
          simp only [kindOf, (decode_tree t).2]
          rfl
      | nullifier n =>
          simp only [kindOf, (decode_nullifier n).2]
          rfl

/-! ### The same events -/

/-- Numbers that both writers write alike. -/
def Plain : PoolAccount → Prop
  | .config _ => True
  | .denomination d => d.amountMicroUsdc.toNat < 2 ^ 63 ∧ d.depositCount.toNat < 2 ^ 63
  | .tree t => t.rootCursor.toNat < ROOT_HISTORY_LEN → t.nextLeafIndex.toNat < 2 ^ 63
  | .nullifier n => n.spentAtSlot.toNat < 2 ^ 63 ∧ IsDouble n.spentAtSlot.toNat

theorem asI64_of_lt {n : UInt64} (h : n.toNat < 2 ^ 63) : asI64 n = n.toNat :=
  toInt_toInt64 h

/-- From `2 ^ 63` on the cast is negative. -/
theorem asI64_neg {n : UInt64} (h : 2 ^ 63 ≤ n.toNat) : asI64 n < 0 := by
  have hn := n.toNat_lt
  have hint : asI64 n = if 2 * n.toNat < 2 ^ 64 then (n.toNat : ℤ) else n.toNat - (2 ^ 64 : ℕ) :=
    BitVec.toInt_eq_toNat_cond n.toBitVec
  rw [hint, if_neg (by omega)]
  omega

theorem asI64_eq_iff {n : UInt64} : asI64 n = n.toNat ↔ n.toNat < 2 ^ 63 := by
  refine ⟨fun h => ?_, asI64_of_lt⟩
  by_contra hlarge
  have hneg := asI64_neg (not_lt.mp hlarge)
  omega

/-- It is a BIGINT. -/
theorem fits_asI64 (n : UInt64) : Fits (asI64 n) :=
  ⟨Int64.le_toInt n.toInt64, Int64.toInt_lt n.toInt64⟩

theorem asI64_eq_double_iff {n : UInt64} :
    asI64 n = double n.toNat ↔ n.toNat < 2 ^ 63 ∧ IsDouble n.toNat := by
  constructor
  · intro h
    by_cases hn : n.toNat < 2 ^ 63
    · rw [asI64_of_lt hn] at h
      exact ⟨hn, h ▸ isDouble_double _⟩
    · have hneg := asI64_neg (not_lt.mp hn)
      have hpos : 0 ≤ double n.toNat :=
        le_double (isDouble_of_le (by norm_num)) (Int.natCast_nonneg _)
      omega
  · rintro ⟨hn, hdouble⟩
    rw [asI64_of_lt hn, double_of_isDouble hdouble]

theorem latestRoot_isSome (t : MerkleTree) :
    (Plugin.latestRoot t).isSome ↔ t.rootCursor.toNat < ROOT_HISTORY_LEN := by
  rw [Plugin.latestRoot, isSome_getElem?]

/-- **The writers agree** just on accounts with such numbers. -/
theorem event_plain (slot : ℕ) (a : PoolAccount) :
    Writer.plugin.event a.data slot = Writer.poller.event a.data slot ↔ Plain a := by
  rw [event_data, event_data]
  cases a with
  | config c => exact iff_of_true rfl trivial
  | denomination d =>
      simp only [Writer.eventOf, Option.some.injEq, WriteEvent.upsertDenomination.injEq,
        DenominationEntry.mk.injEq, true_and, and_true]
      exact and_congr asI64_eq_iff asI64_eq_iff
  | tree t =>
      rw [Plain, ← latestRoot_isSome, Writer.eventOf, Writer.eventOf]
      cases Plugin.latestRoot t with
      | none => simp
      | some root =>
          simp only [Option.map_some, Option.some.injEq, WriteEvent.upsertRoot.injEq,
            RootEntry.mk.injEq, true_and, and_true, Option.isSome_some, forall_const]
          exact asI64_eq_iff
  | nullifier n =>
      simp only [Writer.eventOf, Option.some.injEq, WriteEvent.insertNullifier.injEq,
        NullifierRow.mk.injEq, true_and]
      exact asI64_eq_double_iff

/-! ### References -/

/-- The denomination of each row is there, and each key is there once. -/
structure Referenced (st : Store) : Prop where
  roots : ∀ row ∈ st.roots, st.hasDenomination row.denomId
  nullifiers : ∀ row ∈ st.nullifiers, st.hasDenomination row.denomId
  commitments : ∀ row ∈ st.db.commitments, st.hasDenomination row.denomId
  denominationKeys : (st.denominations.map DenominationEntry.denomId).Nodup
  rootKeys : (st.roots.map RootEntry.key).Nodup
  nullifierKeys : (st.nullifiers.map NullifierRow.key).Nodup

theorem keepsKey_mergeDenomination : KeepsKey DenominationEntry.denomId mergeDenomination :=
  fun _ _ _ => rfl

theorem keepsKey_mergeRoot : KeepsKey RootEntry.key mergeRoot :=
  fun _ _ h => h

theorem keepsKey_mergeNullifier : KeepsKey NullifierRow.key mergeNullifier :=
  fun _ _ h => h

theorem Referenced.empty : Referenced Store.empty where
  roots := List.forall_mem_nil _
  nullifiers := List.forall_mem_nil _
  commitments := List.forall_mem_nil _
  denominationKeys := List.nodup_nil
  rootKeys := List.nodup_nil
  nullifierKeys := List.nodup_nil

/-- A denomination that is there stays there. -/
theorem hasDenomination_apply {st : Store} {d : UInt8} (e : WriteEvent)
    (h : st.hasDenomination d) : (st.apply e).hasDenomination d := by
  cases e with
  | upsertDenomination row =>
      show d ∈ (upsert _ _ st.denominations row).map DenominationEntry.denomId
      rw [keys_upsert keepsKey_mergeDenomination]
      split
      · exact h
      · exact List.mem_append_left _ h
  | upsertRoot | insertCommitment | insertNullifier | checkpoint => exact h

/-- **One statement** keeps it. -/
theorem Referenced.apply {st : Store} {e : WriteEvent} (h : Referenced st) (he : st.accepts e) :
    Referenced (st.apply e) := by
  have hkeep : ∀ d, st.hasDenomination d → (st.apply e).hasDenomination d :=
    fun d => hasDenomination_apply e
  have hroots := fun row hrow => hkeep _ (h.roots row hrow)
  have hnullifiers := fun row hrow => hkeep _ (h.nullifiers row hrow)
  have hcommitments := fun row hrow => hkeep _ (h.commitments row hrow)
  cases e with
  | upsertDenomination row =>
      exact { h with
        roots := hroots
        nullifiers := hnullifiers
        commitments := hcommitments
        denominationKeys := nodup_upsert keepsKey_mergeDenomination h.denominationKeys }
  | upsertRoot row =>
      exact { h with
        roots := forall_key_upsert (Q := fun k : UInt8 × ℤ => st.hasDenomination k.1)
          keepsKey_mergeRoot h.roots he.2
        rootKeys := nodup_upsert keepsKey_mergeRoot h.rootKeys }
  | insertCommitment row =>
      refine { h with commitments := fun r hr => ?_ }
      rw [Store.apply, Db.insertCommitment] at hr
      split at hr
      · exact h.commitments r hr
      · rcases List.mem_append.mp hr with hr | hr
        · exact h.commitments r hr
        · exact List.mem_singleton.mp hr ▸ he.2
  | insertNullifier row =>
      exact { h with
        nullifiers := forall_key_upsert (Q := fun k : UInt8 × Bytes32 => st.hasDenomination k.1)
          keepsKey_mergeNullifier h.nullifiers he.2
        nullifierKeys := nodup_upsert keepsKey_mergeNullifier h.nullifierKeys }
  | checkpoint lastSlot lastSignature => exact { h with }

end Qietr.Indexer
