import Qietr.Indexer.Feed

/-!
# Indexer — a poll and the keys

The statements of `syncAccountState` over the tables with their keys.  A node answers in any order;
the poller writes denominations first, so that no row comes before the denomination it refers to.

* `pollEvents`, `syncStore`: the statements of a poll, one after the other.
* `Widens`: a store with the rows of the plain tables; `widens_syncStore`: a poll that comes through
  does to both the same.
* `accepts_of_kind`: what is accepted while the denominations are there.
* `poll_respects_keys`: of a whole answer every statement succeeds.
-/

namespace Qietr.Indexer

open Doubles Pool Upsert

variable {env : PoolEnv}

/-- The statements of some accounts. -/
def accountEvents (accounts : List ProgramAccount) : List WriteEvent :=
  accounts.filterMap fun acc => Poller.accountEvent acc.data acc.slot

/-- The statements of a poll. -/
def pollEvents (accounts : List ProgramAccount) : List WriteEvent :=
  accountEvents (ofKind .denomination accounts) ++
    (accountEvents (ofKind .merkleTree accounts) ++
      accountEvents (ofKind .nullifierRecord accounts))

/-- **A poll** ends at the first statement that fails. -/
def syncStore (st : Store) (accounts : List ProgramAccount) : Option Store :=
  (pollEvents accounts).foldlM Store.handleEvent st

/-! ### The plain tables -/

/-- A row as the database holds it. -/
def DenominationRow.entry (row : DenominationRow) : DenominationEntry where
  denomId := row.denomId
  amountMicroUsdc := row.amountMicroUsdc
  depositCount := row.depositCount
  vaultAddress := row.vaultAddress
  lastSeenSlot := row.lastSeenSlot

def RootRow.entry (row : RootRow) : RootEntry where
  denomId := row.denomId
  leafCount := row.leafCount
  rootBe := row.rootBe
  insertedSlot := row.insertedSlot

/-- The store has these rows. -/
structure Widens (tables : Tables) (st : Store) : Prop where
  denominations : st.denominations = tables.denominations.map DenominationRow.entry
  roots : st.roots = tables.roots.map RootRow.entry
  nullifiers : st.nullifiers = tables.nullifiers

theorem upsertDenomination_eq (rows : List DenominationRow) (row : DenominationRow) :
    (upsertDenomination rows row).map DenominationRow.entry =
      upsert DenominationEntry.denomId mergeDenomination (rows.map DenominationRow.entry)
        row.entry := by
  have hplain : upsertDenomination rows row = upsert DenominationRow.denomId
      (fun old row => { row with lastSeenSlot := max old.lastSeenSlot row.lastSeenSlot }) rows
        row :=
    rfl
  rw [hplain]
  exact map_upsert (fun _ => rfl) fun _ _ _ => rfl

theorem upsertRoot_eq (rows : List RootRow) (row : RootRow) :
    (upsertRoot rows row).map RootRow.entry =
      upsert RootEntry.key mergeRoot (rows.map RootRow.entry) row.entry := by
  have hkey : ∀ a b : RootRow, a.entry.key = b.entry.key ↔ a.denomId = b.denomId ∧
      a.leafCount = b.leafCount := by
    intro a b
    rw [RootEntry.key, RootEntry.key, Prod.mk.injEq, RootRow.entry, RootRow.entry, Nat.cast_inj]
  have hplain : upsertRoot rows row = upsert (fun r => r.entry.key) (fun old row =>
      { old with
        rootBe := row.rootBe
        insertedSlot := min old.insertedSlot row.insertedSlot }) rows row := by
    simp only [upsertRoot, upsert, hkey]
  rw [hplain]
  exact map_upsert (fun _ => rfl) fun _ _ _ => rfl

theorem insertNullifier_eq (rows : List NullifierRow) (row : NullifierRow) :
    insertNullifier rows row = upsert NullifierRow.key mergeNullifier rows row := by
  have hkey : ∀ a b : NullifierRow, a.key = b.key ↔ a.denomId = b.denomId ∧
      a.nullifierHashBe = b.nullifierHashBe := fun a b => Prod.mk.injEq .. ▸ Iff.rfl
  simp only [insertNullifier, upsert, mergeNullifier, hkey, ite_self, List.map_id']

/-- What the poller does with the accounts of a kind. -/
def syncOf : AccountKind → AccountSync → ProgramAccount → AccountSync
  | .poolConfig => fun st _ => st
  | .denomination => syncDenomination
  | .merkleTree => syncTree
  | .nullifierRecord => syncNullifier

/-- **One account.** -/
theorem Widens.sync {sync : AccountSync} {st : Store} (h : Widens sync.tables st)
    {acc : ProgramAccount} {kind : AccountKind} (hkind : accountKind acc.data = some kind) :
    Widens (syncOf kind sync acc).tables
      ((Poller.accountEvent acc.data acc.slot).toList.foldl Store.apply st) := by
  rw [Poller.accountEvent, hkind]
  cases kind with
  | poolConfig => exact h
  | denomination =>
      simp only [syncOf, syncDenomination]
      cases decodeDenomination acc.data with
      | none => exact h
      | some x =>
          refine { h with denominations := ?_ }
          show upsert DenominationEntry.denomId mergeDenomination st.denominations _ =
            (upsertDenomination sync.tables.denominations _).map DenominationRow.entry
          rw [h.denominations, upsertDenomination_eq]
          rfl
  | merkleTree =>
      simp only [syncOf, syncTree]
      cases decodeMerkleTree acc.data with
      | none => exact h
      | some t =>
          simp only [Option.bind_some]
          cases t.latestRoot with
          | none => exact h
          | some root =>
              refine { h with roots := ?_ }
              show upsert RootEntry.key mergeRoot st.roots _ =
                (upsertRoot sync.tables.roots _).map RootRow.entry
              rw [h.roots, upsertRoot_eq]
              rfl
  | nullifierRecord =>
      simp only [syncOf, syncNullifier]
      cases decodeNullifierRecord acc.data with
      | none => exact h
      | some n =>
          refine { h with nullifiers := ?_ }
          exact (congrArg (upsert _ _ · _) h.nullifiers).trans (insertNullifier_eq _ _).symm

theorem accountEvents_cons (acc : ProgramAccount) (accounts : List ProgramAccount) :
    accountEvents (acc :: accounts) =
      (Poller.accountEvent acc.data acc.slot).toList ++ accountEvents accounts := by
  rw [accountEvents, List.filterMap_cons]
  cases Poller.accountEvent acc.data acc.slot <;> rfl

/-- **The accounts of a kind.** -/
theorem Widens.foldl {sync : AccountSync} {st : Store} (h : Widens sync.tables st)
    (kind : AccountKind) {accounts : List ProgramAccount}
    (hkind : ∀ acc ∈ accounts, accountKind acc.data = some kind) :
    Widens (accounts.foldl (syncOf kind) sync).tables
      ((accountEvents accounts).foldl Store.apply st) := by
  induction accounts generalizing sync st with
  | nil => exact h
  | cons acc accounts ih =>
      rw [List.foldl_cons, accountEvents_cons, List.foldl_append]
      exact ih (h.sync (hkind acc List.mem_cons_self)) fun b hb =>
        hkind b (List.mem_cons_of_mem _ hb)

theorem accountKind_of_mem_ofKind {kind : AccountKind} {accounts : List ProgramAccount}
    {acc : ProgramAccount} (h : acc ∈ ofKind kind accounts) : accountKind acc.data = some kind := by
  simpa using (List.mem_filter.mp h).2

/-- **A poll that comes through** does to the store what it does to the plain tables. -/
theorem widens_syncStore {tables : Tables} {st st' : Store} (h : Widens tables st)
    {accounts : List ProgramAccount} (hsync : syncStore st accounts = some st') :
    Widens (syncAccountState tables accounts).tables st' := by
  obtain rfl := foldl_of_foldlM hsync
  rw [pollEvents, List.foldl_append, List.foldl_append]
  have hstart : Widens (AccountSync.mk tables 0 0 0).tables st := h
  exact ((hstart.foldl .denomination fun _ => accountKind_of_mem_ofKind).foldl .merkleTree
    fun _ => accountKind_of_mem_ofKind).foldl .nullifierRecord fun _ => accountKind_of_mem_ofKind

/-! ### A whole answer -/

/-- Statements of which each is accepted, with what the others leave. -/
theorem exists_foldlM {Q : Store → Prop} {es : List WriteEvent}
    (hstep : ∀ st, Q st → ∀ e ∈ es, st.accepts e ∧ Q (st.apply e)) {st : Store} (h : Q st) :
    ∃ st', es.foldlM Store.handleEvent st = some st' ∧ Q st' := by
  induction es generalizing st with
  | nil => exact ⟨st, rfl, h⟩
  | cons e es ih =>
      obtain ⟨haccepts, hnext⟩ := hstep st h e List.mem_cons_self
      obtain ⟨st', hst', hQ⟩ :=
        ih (fun st hst e he => hstep st hst e (List.mem_cons_of_mem _ he)) hnext
      refine ⟨st', ?_, hQ⟩
      rw [List.foldlM_cons, Store.handleEvent_of_accepts haccepts]
      exact hst'

/-- The events of the accounts of one kind. -/
theorem mem_accountEvents {kind : AccountKind} {accounts : List PoolAccount} {slot : ℕ}
    {e : WriteEvent} (h : e ∈ accountEvents (ofKind kind (accounts.map (returned slot)))) :
    ∃ a ∈ accounts, kindOf a = kind ∧ Writer.poller.eventOf slot a = some e := by
  obtain ⟨acc, hacc, he⟩ := List.mem_filterMap.mp h
  have hkind := accountKind_of_mem_ofKind hacc
  obtain ⟨a, ha, rfl⟩ := List.mem_map.mp (List.mem_filter.mp hacc).1
  refine ⟨a, ha, Option.some.inj ((accountKind_data a).symm.trans hkind), ?_⟩
  exact (event_data .poller slot a).symm.trans he

/-- A denomination of the answer is there after the first statements. -/
theorem hasDenomination_foldl {accounts : List PoolAccount} {slot : ℕ} {x : Denomination}
    (hx : .denomination x ∈ accounts) (st : Store) :
    ((accountEvents (ofKind .denomination (accounts.map (returned slot)))).foldl Store.apply
      st).hasDenomination x.denomId := by
  have hmem : returned slot (.denomination x) ∈
      ofKind .denomination (accounts.map (returned slot)) :=
    List.mem_filter.mpr ⟨List.mem_map_of_mem hx,
      decide_eq_true (accountKind_data (.denomination x))⟩
  have hevent : WriteEvent.upsertDenomination _ ∈
      accountEvents (ofKind .denomination (accounts.map (returned slot))) :=
    List.mem_filterMap.mpr ⟨_, hmem, event_data .poller slot (.denomination x)⟩
  rw [Store.hasDenomination, (tables_foldl _ _).1, mem_keys_foldl keepsKey_mergeDenomination]
  exact .inr (List.mem_map.mpr ⟨_, (mem_filterMap_iff denominationOf_eq_some).mpr hevent, rfl⟩)

/-- A tree or a record has its denomination, by name. -/
theorem denomination_of_account {log : List (Action env)} {s : PoolState}
    (hrun : PoolRun env log s) :
    (∀ t, HasAccount s (.tree t) → s.denomination t.denomId ≠ none) ∧
      ∀ n, HasAccount s (.nullifier n) → s.denomination n.denomId ≠ none := by
  have hinv := poolInv_of_run hrun
  refine ⟨?_, ?_⟩
  · rintro t ⟨d, ht⟩
    obtain rfl := treesNamed_of_run hrun d t ht
    rcases hinv.denominations t.denomId with habsent | ⟨_, _, hheld⟩
    · rw [habsent.tree] at ht
      cases ht
    · rw [hheld.denomination_eq]
      exact Option.some_ne_none _
  · rintro n ⟨d, x, hn⟩
    rcases hinv.denominations d with habsent | ⟨_, _, hheld⟩
    · rw [habsent.nullifier] at hn
      cases hn
    · rcases recorded_of_run hrun d x with ⟨-, hnone⟩ | ⟨_, -, hsome⟩
      · rw [hnone] at hn
        cases hn
      · rw [hsome] at hn
        cases hn
        show s.denomination d ≠ none
        rw [hheld.denomination_eq]
        exact Option.some_ne_none _

/-- **Of a plain account** the statement is accepted, where the denomination that it names is. -/
theorem accepts_of_plain {a : PoolAccount} (hplain : Plain a) {slot : ℕ} {e : WriteEvent}
    (he : Writer.poller.eventOf slot a = some e) {st : Store}
    (htree : ∀ t, a = .tree t → st.hasDenomination t.denomId)
    (hnullifier : ∀ n, a = .nullifier n → st.hasDenomination n.denomId) : st.accepts e := by
  have hfits : ∀ n : UInt64, n.toNat < 2 ^ 63 → Fits (n.toNat : ℤ) := fun n hn =>
    fits_whole .poller hn
  cases a with
  | config c => cases he
  | denomination x =>
      cases he
      exact ⟨hfits _ hplain.1, hfits _ hplain.2⟩
  | tree t =>
      obtain ⟨root, hroot, rfl⟩ := Option.map_eq_some_iff.mp he
      have hcursor := (latestRoot_isSome t).mp (Option.isSome_of_eq_some hroot)
      exact ⟨hfits _ (hplain hcursor), htree t rfl⟩
  | nullifier n =>
      cases he
      refine ⟨?_, hnullifier n rfl⟩
      show Fits (double n.spentAtSlot.toNat)
      rw [double_of_isDouble hplain.2]
      exact hfits _ hplain.1

/-- **A poll does not fail on a key.**  Of a whole answer with the accounts of any state that the
program comes to, in whatever order they are returned, every statement succeeds, and the tables are
those without keys.  From there on each denomination is there. -/
theorem poll_respects_keys {log : List (Action env)} {s : PoolState} (hrun : PoolRun env log s)
    {accounts : List PoolAccount} (hacc : ∀ a ∈ accounts, HasAccount s a)
    (hwhole : ∀ x, HasAccount s (.denomination x) → .denomination x ∈ accounts)
    (hplain : ∀ a ∈ accounts, Plain a) (slot : ℕ) {tables : Tables} {st : Store}
    (h : Widens tables st) :
    ∃ st', syncStore st (accounts.map (returned slot)) = some st' ∧
      Widens (syncAccountState tables (accounts.map (returned slot))).tables st' ∧
      ∀ d, s.denomination d ≠ none → st'.hasDenomination d := by
  obtain ⟨htrees, hnullifiers⟩ := denomination_of_account hrun
  let Ready : Store → Prop := fun st => ∀ d, s.denomination d ≠ none → st.hasDenomination d
  -- the denominations refer to nothing, and the others to what is there by then
  have hphase : ∀ (kind : AccountKind) (st₀ : Store), (kind ≠ .denomination → Ready st₀) →
      ∃ st₁, (accountEvents (ofKind kind (accounts.map (returned slot)))).foldlM
        Store.handleEvent st₀ = some st₁ ∧ (kind ≠ .denomination → Ready st₁) := by
    intro kind st₀ hst₀
    refine exists_foldlM (fun st₁ hst₁ e he => ⟨?_, fun hk d hd => ?_⟩) hst₀
    · obtain ⟨a, ha, rfl, hevent⟩ := mem_accountEvents he
      refine accepts_of_plain (hplain a ha) hevent ?_ ?_
      · rintro t rfl
        exact hst₁ (by simp [kindOf]) _ (htrees t (hacc _ ha))
      · rintro n rfl
        exact hst₁ (by simp [kindOf]) _ (hnullifiers n (hacc _ ha))
    · exact hasDenomination_apply e (hst₁ hk d hd)
  obtain ⟨st₁, hst₁, -⟩ := hphase .denomination st fun hk => absurd rfl hk
  have hready : Ready st₁ := by
    intro d hd
    obtain ⟨x, hx⟩ := Option.ne_none_iff_exists'.mp hd
    have hid : x.denomId = d := by
      rcases denomination_of_run hrun d with ⟨-, hnone⟩ | ⟨_, y, -, hy, hid, -⟩
      · exact absurd hnone hd
      · rw [hx] at hy
        cases hy
        exact hid
    rw [foldl_of_foldlM hst₁, ← hid]
    exact hasDenomination_foldl (hwhole x ⟨d, hx⟩) st
  obtain ⟨st₂, hst₂, hready₂⟩ := hphase .merkleTree st₁ fun _ => hready
  obtain ⟨st₃, hst₃, hready₃⟩ := hphase .nullifierRecord st₂ fun _ => hready₂ (by simp)
  have hsync : syncStore st (accounts.map (returned slot)) = some st₃ := by
    rw [syncStore, pollEvents, List.foldlM_append, hst₁]
    show (accountEvents _ ++ accountEvents _).foldlM Store.handleEvent st₁ = some st₃
    rw [List.foldlM_append, hst₂]
    exact hst₃
  exact ⟨st₃, hsync, widens_syncStore h hsync, hready₃ (by simp)⟩

/-- A tree that is returned before its denomination; in that order its statement would fail. -/
theorem poll_respects_keys_order : ∃ (s : PoolState) (accounts : List PoolAccount) (st' : Store),
    (∀ a ∈ accounts, HasAccount s a) ∧
      (accountEvents (accounts.map (returned 1))).foldlM Store.handleEvent Store.empty = none ∧
      syncStore Store.empty (accounts.map (returned 1)) = some st' := by
  obtain ⟨config, tree, s, hrun, ho, -⟩ := exists_opened circom
  have hcount : tree.nextLeafIndex.toNat = 0 := ho.tracks.count
  let accounts : List PoolAccount :=
    [.tree tree, .denomination (newDenomination (ideal circom) usdc 0 10)]
  have hacc : ∀ a ∈ accounts, HasAccount s a := by
    intro a ha
    rcases List.mem_pair.mp ha with rfl | rfl
    · exact ⟨0, ho.tree_eq⟩
    · exact ⟨0, ho.denomination_eq⟩
  have hwhole : ∀ x, HasAccount s (.denomination x) → .denomination x ∈ accounts := by
    rintro x ⟨d, hx⟩
    rcases denomination_of_run hrun d with ⟨-, hnone⟩ | ⟨amount, -, hopen, -⟩
    · rw [hx] at hnone
      cases hnone
    · have hd : 0 = d := by
        by_contra hne
        have hskip : opening d (.call 0 (.initializeDenomination (admin circom) usdc 0 10) :
            Action (ideal circom)) = none := if_neg hne
        have hnone : openings d (launchLog (admin circom) 0 usdc 0 10) = [] := by
          rw [openings, launchLog, List.filterMap_cons_none rfl,
            List.filterMap_cons_none hskip, List.filterMap_nil]
        rw [hnone] at hopen
        cases hopen
      subst hd
      rw [ho.denomination_eq] at hx
      cases hx
      exact List.mem_cons_of_mem _ (List.mem_singleton_self _)
  have hplain : ∀ a ∈ accounts, Plain a := by
    intro a ha
    rcases List.mem_pair.mp ha with rfl | rfl
    · intro _
      rw [hcount]
      decide
    · exact ⟨by decide, by decide⟩
  have hempty : Widens Tables.empty Store.empty := ⟨rfl, rfl, rfl⟩
  obtain ⟨st', hst', -⟩ := poll_respects_keys hrun hacc hwhole hplain 1 hempty
  refine ⟨s, accounts, st', hacc, ?_, hst'⟩
  have hfirst : Poller.accountEvent (returned 1 (.tree tree)).data (returned 1 (.tree tree)).slot =
      some (.upsertRoot ⟨tree.denomId, tree.nextLeafIndex.toNat,
        writtenRoot circom (leaves []), 1⟩) := by
    refine (event_data .poller 1 (.tree tree)).trans ?_
    rw [Writer.eventOf, latestRoot_eq ho.tracks]
    rfl
  have hfails : Store.empty.handleEvent (.upsertRoot ⟨tree.denomId, tree.nextLeafIndex.toNat,
      writtenRoot circom (leaves []), 1⟩) = none :=
    if_neg fun haccepts => List.not_mem_nil haccepts.2
  rw [List.map_cons, accountEvents_cons, hfirst, Option.toList_some, List.singleton_append,
    List.foldlM_cons, hfails]
  rfl

end Qietr.Indexer
