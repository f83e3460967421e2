import Qietr.Indexer.Accounts
import Qietr.Indexer.ProofRoute
import Qietr.Library.Base58
import Qietr.Library.Doubles

/-!
# Indexer — the accounts of a poll

`index.ts`: `syncAccountState`, which writes what a poll has returned to three tables: denominations
first, then roots, then nullifiers.

* `Tables`, `upsertDenomination`, `insertNullifier`: the tables, and the statements on them.
* `syncAccountState`: the accounts of a poll, in the order in which they come.
* `Determined f rows`: the roots are a function of their keys; `storedRoot_keep`: then none of them
  changes.
* `roots_syncAccountState`: of a poll of the program's accounts it writes the roots of its trees.
-/

namespace Qietr.Indexer

open Doubles Pool

/-! ### Tables -/

structure DenominationRow where
  denomId : UInt8
  amountMicroUsdc : ℕ
  depositCount : ℕ
  vaultAddress : String
  lastSeenSlot : ℕ
  deriving DecidableEq

structure NullifierRow where
  denomId : UInt8
  nullifierHashBe : Bytes32
  spentAtSlot : ℤ
  deriving DecidableEq

structure Tables where
  denominations : List DenominationRow
  roots : List RootRow
  nullifiers : List NullifierRow

def Tables.empty : Tables where
  denominations := []
  roots := []
  nullifiers := []

/-- `ON CONFLICT (denom_id) DO UPDATE`. -/
def upsertDenomination (rows : List DenominationRow) (row : DenominationRow) :
    List DenominationRow :=
  if rows.any fun r => r.denomId = row.denomId then
    rows.map fun r =>
      if r.denomId = row.denomId then
        { row with lastSeenSlot := max r.lastSeenSlot row.lastSeenSlot }
      else r
  else rows ++ [row]

/-- `ON CONFLICT (denom_id, nullifier_hash_be) DO NOTHING`. -/
def insertNullifier (rows : List NullifierRow) (row : NullifierRow) : List NullifierRow :=
  if rows.any fun r => r.denomId = row.denomId ∧ r.nullifierHashBe = row.nullifierHashBe then rows
  else rows ++ [row]

/-! ### A poll -/

structure ProgramAccount where
  data : List UInt8
  slot : ℕ
  deriving DecidableEq

/-- The tables, and how many rows have been written to each. -/
structure AccountSync where
  tables : Tables
  denoms : ℕ
  roots : ℕ
  nullifiers : ℕ

def syncDenomination (st : AccountSync) (acc : ProgramAccount) : AccountSync :=
  match decodeDenomination acc.data with
  | none => st
  | some d =>
      { st with
        tables := { st.tables with
          denominations := upsertDenomination st.tables.denominations
            { denomId := d.denomId
              amountMicroUsdc := d.amountMicroUsdc
              depositCount := d.depositCount
              vaultAddress := Base58.encode d.vault.toList
              lastSeenSlot := acc.slot } }
        denoms := st.denoms + 1 }

/-- A root cursor out of range gives no row. -/
def syncTree (st : AccountSync) (acc : ProgramAccount) : AccountSync :=
  match decodeMerkleTree acc.data with
  | none => st
  | some t =>
      match t.latestRoot with
      | none => st
      | some latestRoot =>
          { st with
            tables := { st.tables with
              roots := upsertRoot st.tables.roots
                { denomId := t.denomId
                  leafCount := t.nextLeafIndex
                  rootBe := latestRoot
                  insertedSlot := acc.slot } }
            roots := st.roots + 1 }

def syncNullifier (st : AccountSync) (acc : ProgramAccount) : AccountSync :=
  match decodeNullifierRecord acc.data with
  | none => st
  | some n =>
      { st with
        tables := { st.tables with
          nullifiers := insertNullifier st.tables.nullifiers
            { denomId := n.denomId
              nullifierHashBe := n.nullifierHash
              spentAtSlot := double n.spentAtSlot } }
        nullifiers := st.nullifiers + 1 }

/-- The accounts of one kind. -/
def ofKind (kind : AccountKind) (accounts : List ProgramAccount) : List ProgramAccount :=
  accounts.filter fun acc => accountKind acc.data = some kind

/-- **A poll**, of the accounts it has returned. -/
def syncAccountState (tables : Tables) (accounts : List ProgramAccount) : AccountSync :=
  let st : AccountSync := { tables, denoms := 0, roots := 0, nullifiers := 0 }
  let st := (ofKind .denomination accounts).foldl syncDenomination st
  let st := (ofKind .merkleTree accounts).foldl syncTree st
  (ofKind .nullifierRecord accounts).foldl syncNullifier st

/-! ### Roots by their keys -/

/-- Which root it is. -/
def RootRow.key (row : RootRow) : UInt8 × ℕ :=
  (row.denomId, row.leafCount)

/-- The root of a row is the one that `f` says. -/
def Determined (f : UInt8 × ℕ → Bytes32) (rows : List RootRow) : Prop :=
  ∀ row ∈ rows, row.rootBe = f row.key

variable {f : UInt8 × ℕ → Bytes32} {rows : List RootRow} {row : RootRow}

theorem key_eq_iff {r r' : RootRow} :
    r.key = r'.key ↔ r.denomId = r'.denomId ∧ r.leafCount = r'.leafCount :=
  Prod.mk.injEq .. ▸ Iff.rfl

/-- Its keys are the ones that there were, and that of the row. -/
theorem keys_upsertRoot (rows : List RootRow) (row : RootRow) (k : UInt8 × ℕ) :
    k ∈ (upsertRoot rows row).map RootRow.key ↔ k ∈ rows.map RootRow.key ∨ k = row.key := by
  rw [upsertRoot]
  split
  case isTrue h =>
    have hmap : (rows.map fun r => if r.denomId = row.denomId ∧ r.leafCount = row.leafCount then
        { r with rootBe := row.rootBe, insertedSlot := min r.insertedSlot row.insertedSlot }
        else r).map RootRow.key = rows.map RootRow.key := by
      rw [List.map_map]
      refine List.map_congr_left fun r _ => ?_
      rw [Function.comp_apply]
      split <;> rfl
    obtain ⟨r, hr, hkey⟩ := List.any_eq_true.mp h
    have hk : row.key ∈ rows.map RootRow.key :=
      key_eq_iff.mpr (of_decide_eq_true hkey) ▸ List.mem_map_of_mem hr
    rw [hmap]
    refine ⟨.inl, ?_⟩
    rintro (hin | rfl)
    · exact hin
    · exact hk
  case isFalse h => rw [List.map_append, List.mem_append, List.map_singleton, List.mem_singleton]

theorem Determined.upsertRoot (h : Determined f rows) (hrow : row.rootBe = f row.key) :
    Determined f (upsertRoot rows row) := by
  rw [Indexer.upsertRoot]
  split
  · intro r hr
    obtain ⟨r₀, hr₀, rfl⟩ := List.mem_map.mp hr
    split
    case isTrue hkey =>
      have hk : r₀.key = row.key := key_eq_iff.mpr hkey
      exact hrow.trans (congrArg f hk.symm)
    case isFalse => exact h r₀ hr₀
  · intro r hr
    rcases List.mem_append.mp hr with hr | hr
    · exact h r hr
    · exact List.mem_singleton.mp hr ▸ hrow

theorem storedRoot_isSome (rows : List RootRow) (d : UInt8) (n : ℕ) :
    (storedRoot rows d n).isSome ↔ (d, n) ∈ rows.map RootRow.key := by
  rw [storedRoot, Option.isSome_map, List.find?_isSome, List.mem_map]
  constructor
  · rintro ⟨r, hr, hkey⟩
    exact ⟨r, hr, Prod.ext_iff.mpr (of_decide_eq_true hkey)⟩
  · rintro ⟨r, hr, hkey⟩
    exact ⟨r, hr, decide_eq_true (Prod.ext_iff.mp hkey)⟩

theorem Determined.storedRoot (h : Determined f rows) {d : UInt8} {n : ℕ} {x : Bytes32}
    (hx : storedRoot rows d n = some x) : x = f (d, n) := by
  obtain ⟨r, hr, rfl⟩ := Option.map_eq_some_iff.mp hx
  have hmatch := List.find?_some hr
  have hkey : r.key = (d, n) := Prod.ext_iff.mpr (of_decide_eq_true hmatch)
  rw [h r (List.mem_of_find?_eq_some hr), hkey]

/-- **No root changes** while they are a function of their keys. -/
theorem storedRoot_keep {rows' : List RootRow} (h : Determined f rows) (h' : Determined f rows')
    (hkeys : ∀ k ∈ rows.map RootRow.key, k ∈ rows'.map RootRow.key) {d : UInt8} {n : ℕ}
    {x : Bytes32} (hx : storedRoot rows d n = some x) : storedRoot rows' d n = some x := by
  have hin : (d, n) ∈ rows.map RootRow.key :=
    (storedRoot_isSome rows d n).mp (Option.isSome_of_eq_some hx)
  obtain ⟨y, hy⟩ := Option.isSome_iff_exists.mp ((storedRoot_isSome rows' d n).mpr (hkeys _ hin))
  rw [hy, h.storedRoot hx, h'.storedRoot hy]

/-! ### The roots of a poll -/

/-- The account as it is returned. -/
def returned (slot : ℕ) (a : PoolAccount) : ProgramAccount where
  data := a.data
  slot

/-- The row of a tree, with the root under its cursor. -/
def rootRow (slot : ℕ) : PoolAccount → Option RootRow
  | .tree t => (Plugin.latestRoot t).map fun root => ⟨t.denomId, t.nextLeafIndex.toNat, root, slot⟩
  | _ => none

theorem accountKind_append {disc : List UInt8} (hdisc : disc.length = 8) (bs : List UInt8) :
    accountKind (disc ++ bs) = accountKind disc := by
  have hlong : ¬ (disc ++ bs).length < 8 := by
    rw [List.length_append]
    omega
  have hlen : ¬ disc.length < 8 := by omega
  rw [accountKind, accountKind, if_neg hlong, if_neg hlen, List.take_left' hdisc,
    List.take_of_length_le hdisc.le]

def kindOf : PoolAccount → AccountKind
  | .config _ => .poolConfig
  | .denomination _ => .denomination
  | .tree _ => .merkleTree
  | .nullifier _ => .nullifierRecord

/-- **Its first bytes say which account it is.** -/
theorem accountKind_data (a : PoolAccount) : accountKind a.data = some (kindOf a) := by
  have hconfig : accountKind POOL_CONFIG_DISC = some .poolConfig := by decide
  have hdenomination : accountKind DENOMINATION_DISC = some .denomination := by decide
  have htree : accountKind MERKLE_TREE_DISC = some .merkleTree := by decide
  have hnullifier : accountKind NULLIFIER_RECORD_DISC = some .nullifierRecord := by decide
  cases a with
  | config c => exact (accountKind_append rfl _).trans hconfig
  | denomination d => exact (accountKind_append rfl _).trans hdenomination
  | tree t => exact (accountKind_append rfl _).trans htree
  | nullifier n => exact (accountKind_append rfl _).trans hnullifier

theorem roots_foldl {step : AccountSync → ProgramAccount → AccountSync}
    (hstep : ∀ st acc, (step st acc).tables.roots = st.tables.roots)
    (accounts : List ProgramAccount)
    (st : AccountSync) : (accounts.foldl step st).tables.roots = st.tables.roots := by
  induction accounts generalizing st with
  | nil => rfl
  | cons acc accounts ih => rw [List.foldl_cons, ih, hstep]

theorem roots_syncDenomination (st : AccountSync) (acc : ProgramAccount) :
    (syncDenomination st acc).tables.roots = st.tables.roots := by
  rw [syncDenomination]
  split <;> rfl

theorem roots_syncNullifier (st : AccountSync) (acc : ProgramAccount) :
    (syncNullifier st acc).tables.roots = st.tables.roots := by
  rw [syncNullifier]
  split <;> rfl

/-- A tree that is returned. -/
theorem roots_syncTree (st : AccountSync) (slot : ℕ) (t : MerkleTree) :
    (syncTree st (returned slot (.tree t))).tables.roots =
      (rootRow slot (.tree t)).toList.foldl upsertRoot st.tables.roots := by
  have hdecode : decodeMerkleTree (PoolAccount.tree t).data = some (stateOfTree t) :=
    (decode_account MerkleTree.sized MerkleTree.inverts decodeMerkleTree_eq rfl t).2
  rw [syncTree, returned, hdecode, rootRow]
  show (match Plugin.latestRoot t with | none => st | some latestRoot => _).tables.roots = _
  cases Plugin.latestRoot t with
  | none => rfl
  | some root => rfl

/-- **Of a poll of the program's accounts** the roots are those of its trees. -/
theorem roots_syncAccountState (tables : Tables) (slot : ℕ) (accounts : List PoolAccount) :
    (syncAccountState tables (accounts.map (returned slot))).tables.roots =
      (accounts.filterMap (rootRow slot)).foldl upsertRoot tables.roots := by
  have htrees : ∀ st : AccountSync,
      ((ofKind .merkleTree (accounts.map (returned slot))).foldl syncTree st).tables.roots =
        (accounts.filterMap (rootRow slot)).foldl upsertRoot st.tables.roots := by
    induction accounts with
    | nil => exact fun st => rfl
    | cons a accounts ih =>
        intro st
        have hkind : accountKind (returned slot a).data = some (kindOf a) := accountKind_data a
        cases a with
        | tree t =>
            have hcons : ofKind .merkleTree ((PoolAccount.tree t :: accounts).map (returned slot)) =
                returned slot (.tree t) :: ofKind .merkleTree (accounts.map (returned slot)) :=
              List.filter_cons_of_pos (decide_eq_true hkind)
            rw [hcons, List.foldl_cons, ih, roots_syncTree, List.filterMap_cons]
            cases rootRow slot (.tree t) with
            | none => rfl
            | some row => rfl
        | config c | denomination d | nullifier n => exact ih st
  rw [syncAccountState, roots_foldl roots_syncNullifier, htrees, roots_foldl roots_syncDenomination]

end Qietr.Indexer
