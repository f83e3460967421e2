import Qietr.Indexer.AccountState
import Qietr.Pool.Deployment
import Qietr.Pool.FullTree

/-!
# Indexer — the roots that are stored

Polls of the program's accounts while the program goes on: a node answers with the accounts of some
moment, and each tree gives a row of its number of leaves and the root under its cursor.

* `Synced`, `SyncStep`, `SyncRun`: the chain and the tables.
* `writtenRoot`: what a tree of these leaves has under its cursor; `latestRoot_eq`.
* `RowsOf`: each row has the root that was written; `RowsOf.poll`, `rowsOf_run`: every run keeps it.
* `stored_roots_iff`: it is the root of the leaves, but for a tree that has none yet.
* `empty_root_zero`: there the zero string is stored.
-/

namespace Qietr.Indexer

open Pool

variable {env : PoolEnv}

/-! ### Runs -/

/-- What the chain has come to, the states so far, which a node may answer with, and the tables. -/
structure Synced (env : PoolEnv) where
  chain : PoolState
  past : List PoolState
  tables : Tables

inductive SyncEvent (env : PoolEnv) where
  | chain (a : Action env)
  | polled (accounts : List PoolAccount) (slot : ℕ)

/-- An account of the program. -/
def HasAccount (s : PoolState) : PoolAccount → Prop
  | .config c => s.config = some c
  | .denomination x => ∃ d, s.denomination d = some x
  | .tree t => ∃ d, s.tree d = some t
  | .nullifier n => ∃ d x, s.nullifier d x = some n

/-- **One step**: of the program, or a poll.  A node may leave accounts out, and be behind. -/
inductive SyncStep (env : PoolEnv) : Synced env → SyncEvent env → Synced env → Prop
  | chain {st : Synced env} {a : Action env} {s' : PoolState} (h : Step env st.chain a s') :
      SyncStep env st (.chain a) { st with chain := s', past := s' :: st.past }
  | poll {st : Synced env} {s : PoolState} {accounts : List PoolAccount} {slot : ℕ}
      (hs : s ∈ st.past) (h : ∀ a ∈ accounts, HasAccount s a) :
      SyncStep env st (.polled accounts slot)
        { st with tables := (syncAccountState st.tables (accounts.map (returned slot))).tables }

def SyncRun (env : PoolEnv) : List (SyncEvent env) → Synced env → Prop :=
  Run (fun st => Initial st.chain ∧ st.past = [st.chain] ∧ st.tables = Tables.empty) (SyncStep env)

/-- What the program has done. -/
def chainLog (log : List (SyncEvent env)) : List (Action env) :=
  log.filterMap fun e => match e with
    | .chain a => some a
    | .polled .. => none

/-- The leaves of a denomination. -/
def leavesOn (log : List (SyncEvent env)) (d : UInt8) : List F :=
  leaves (history d (chainLog log))

theorem chainLog_append (log log' : List (SyncEvent env)) :
    chainLog (log ++ log') = chainLog log ++ chainLog log' :=
  List.filterMap_append

theorem leavesOn_append (log log' : List (SyncEvent env)) (d : UInt8) :
    leavesOn (log ++ log') d = leavesOn log d ++ leavesOn log' d := by
  rw [leavesOn, chainLog_append, history_append, leaves, List.map_append]
  rfl

/-- The leaves grow. -/
theorem leavesOn_grow (log : List (SyncEvent env)) (e : SyncEvent env) (d : UInt8) :
    leavesOn log d <+: leavesOn (log ++ [e]) d :=
  ⟨_, (leavesOn_append log [e] d).symm⟩

/-! ### What is under the cursor -/

/-- The root of the leaves, and the zero string where there are none. -/
def writtenRoot (P : Poseidon) (ls : List F) : Bytes32 :=
  if ls = [] then zero32 else encode (fullRoot P ls)

/-- **The slot under the cursor.**  The first append writes the slot after it. -/
theorem latestRoot_eq {P : Poseidon} {t : MerkleTree} {ls : List F} (h : Tracks P t ls) :
    Plugin.latestRoot t = some (writtenRoot P ls) := by
  rcases List.eq_nil_or_concat ls with rfl | ⟨ls, x, rfl⟩
  · obtain ⟨hlt, hslots⟩ := h.history
    have hpos : t.rootCursor.toNat =
        (t.rootCursor.toNat + 1 + (ROOT_HISTORY_LEN - 1)) % ROOT_HISTORY_LEN := by
      rw [Nat.add_assoc, Nat.add_sub_cancel' (by decide), Nat.add_mod_right, Nat.mod_eq_of_lt hlt]
    have hslot := hslots (ROOT_HISTORY_LEN - 1) (by decide) ⟨_, hlt⟩ hpos
    rw [Plugin.latestRoot, Vector.getElem?_eq_getElem hlt, writtenRoot, if_pos rfl]
    exact congrArg some (hslot.trans (RingBuffer.recent_nil (by decide)))
  · rw [List.concat_eq_append] at h ⊢
    rw [Plugin.latestRoot, h.newest, writtenRoot, if_neg (by simp)]

/-! ### Every run -/

/-- The states so far are those of the program's runs before. -/
structure ChainOk (log : List (SyncEvent env)) (st : Synced env) : Prop where
  run : PoolRun env (chainLog log) st.chain
  past : ∀ s ∈ st.past, ∃ log₁ log₂, chainLog log = log₁ ++ log₂ ∧ PoolRun env log₁ s

/-- Each row has the root that a tree of its leaves has under the cursor. -/
structure RowsOf (P : Poseidon) (ls : UInt8 → List F) (rows : List RootRow) : Prop where
  root : Determined (fun k => writtenRoot P ((ls k.1).take k.2)) rows
  count : ∀ row ∈ rows, row.leafCount ≤ (ls row.denomId).length

theorem RowsOf.mono {P : Poseidon} {ls ls' : UInt8 → List F} {rows : List RootRow}
    (h : RowsOf P ls rows) (hls : ∀ d, ls d <+: ls' d) : RowsOf P ls' rows where
  root row hrow := by
    obtain ⟨rest, hrest⟩ := hls row.denomId
    refine (h.root row hrow).trans ?_
    show writtenRoot P ((ls row.denomId).take row.leafCount) =
      writtenRoot P ((ls' row.denomId).take row.leafCount)
    rw [← hrest, List.take_append_of_le_length (h.count row hrow)]
  count row hrow := (h.count row hrow).trans (hls row.denomId).length_le

/-- A row of a tree of the first leaves. -/
theorem RowsOf.upsert {P : Poseidon} {ls : UInt8 → List F} {rows : List RootRow} {row : RootRow}
    (h : RowsOf P ls rows) (hroot : row.rootBe = writtenRoot P
    ((ls row.denomId).take row.leafCount))
    (hcount : row.leafCount ≤ (ls row.denomId).length) : RowsOf P ls (upsertRoot rows row) where
  root := h.root.upsertRoot hroot
  count r hr := by
    rcases (keys_upsertRoot rows row r.key).mp (List.mem_map_of_mem hr) with hold | hnew
    · obtain ⟨r₀, hr₀, hkey⟩ := List.mem_map.mp hold
      obtain ⟨hd, hn⟩ := key_eq_iff.mp hkey
      rw [← hd, ← hn]
      exact h.count r₀ hr₀
    · obtain ⟨hd, hn⟩ := key_eq_iff.mp hnew
      rw [hd, hn]
      exact hcount

/-- The tree `t` is that of the first leaves of its denomination. -/
def TreeOf (P : Poseidon) (ls : UInt8 → List F) (t : MerkleTree) : Prop :=
  t.nextLeafIndex.toNat ≤ (ls t.denomId).length ∧
    Tracks P t ((ls t.denomId).take t.nextLeafIndex.toNat)

/-- The row of such a tree. -/
theorem TreeOf.rootRow {P : Poseidon} {ls : UInt8 → List F} {t : MerkleTree} (h : TreeOf P ls t)
    (slot : ℕ) : rootRow slot (.tree t) = some
      ⟨t.denomId, t.nextLeafIndex.toNat,
        writtenRoot P ((ls t.denomId).take t.nextLeafIndex.toNat), slot⟩ := by
  rw [Indexer.rootRow, latestRoot_eq h.2]
  rfl

/-- **A poll** writes the rows of its trees. -/
theorem RowsOf.poll {P : Poseidon} {ls : UInt8 → List F} (slot : ℕ) {accounts : List PoolAccount}
    (htrees : ∀ t, PoolAccount.tree t ∈ accounts → TreeOf P ls t) {rows : List RootRow}
    (h : RowsOf P ls rows) :
    RowsOf P ls ((accounts.filterMap (rootRow slot)).foldl upsertRoot rows) ∧
      ∀ k, k ∈ ((accounts.filterMap (rootRow slot)).foldl upsertRoot rows).map RootRow.key ↔
        k ∈ rows.map RootRow.key ∨
          ∃ t, PoolAccount.tree t ∈ accounts ∧ (t.denomId, t.nextLeafIndex.toNat) = k := by
  induction accounts generalizing rows with
  | nil =>
      refine ⟨h, fun k => ⟨.inl, ?_⟩⟩
      rintro (hk | ⟨t, ht, -⟩)
      · exact hk
      · exact absurd ht List.not_mem_nil
  | cons a accounts ih =>
      have htail : ∀ t, PoolAccount.tree t ∈ accounts → TreeOf P ls t :=
        fun t ht => htrees t (List.mem_cons_of_mem _ ht)
      have hother : rootRow slot a = none → (∀ t, a ≠ .tree t) →
          RowsOf P ls (((a :: accounts).filterMap (rootRow slot)).foldl upsertRoot rows) ∧
          ∀ k, k ∈ (((a :: accounts).filterMap (rootRow slot)).foldl upsertRoot rows).map
            RootRow.key ↔ k ∈ rows.map RootRow.key ∨
              ∃ t, PoolAccount.tree t ∈ a :: accounts ∧ (t.denomId, t.nextLeafIndex.toNat) = k := by
        intro hnone hne
        have hmem : ∀ t, PoolAccount.tree t ∈ a :: accounts ↔ PoolAccount.tree t ∈ accounts :=
          fun t => List.mem_cons.trans (or_iff_right (Ne.symm (hne t)))
        rw [List.filterMap_cons_none hnone]
        simp only [hmem]
        exact ih htail h
      cases a with
      | config c => exact hother rfl fun t ht => by cases ht
      | denomination d => exact hother rfl fun t ht => by cases ht
      | nullifier n => exact hother rfl fun t ht => by cases ht
      | tree t =>
          have ht := htrees t List.mem_cons_self
          rw [List.filterMap_cons_some (ht.rootRow slot), List.foldl_cons]
          have hnext : RowsOf P ls (upsertRoot rows ⟨t.denomId, t.nextLeafIndex.toNat,
              writtenRoot P ((ls t.denomId).take t.nextLeafIndex.toNat), slot⟩) :=
            h.upsert rfl ht.1
          obtain ⟨hrows, hkeys⟩ := ih htail hnext
          refine ⟨hrows, fun k => ?_⟩
          rw [hkeys, keys_upsertRoot, or_assoc]
          refine or_congr_right ⟨?_, ?_⟩
          · rintro (rfl | ⟨t', ht', hk⟩)
            · exact ⟨t, List.mem_cons_self, rfl⟩
            · exact ⟨t', List.mem_cons_of_mem _ ht', hk⟩
          · rintro ⟨t', ht', rfl⟩
            rcases List.mem_cons.mp ht' with heq | ht'
            · cases heq
              exact .inl rfl
            · exact .inr ⟨t', ht', rfl⟩

/-- What holds of the state that a log leads to. -/
structure SyncedOk (log : List (SyncEvent env)) (st : Synced env) :
    Prop extends ChainOk log st where
  rows : RowsOf env.poseidon (leavesOn log) st.tables.roots
  /-- Each row is that of a tree that a poll has returned. -/
  keys : ∀ k, k ∈ st.tables.roots.map RootRow.key ↔ ∃ accounts slot t,
    SyncEvent.polled accounts slot ∈ log ∧ PoolAccount.tree t ∈ accounts ∧
      (t.denomId, t.nextLeafIndex.toNat) = k

/-- A tree of a state so far. -/
theorem ChainOk.treeOf {log : List (SyncEvent env)} {st : Synced env} (h : ChainOk log st)
    {s : PoolState} (hs : s ∈ st.past) {t : MerkleTree} (ht : HasAccount s (.tree t)) :
    TreeOf env.poseidon (leavesOn log) t := by
  obtain ⟨log₁, log₂, hlog, hrun⟩ := h.past s hs
  obtain ⟨d, hd⟩ := ht
  obtain rfl := treesNamed_of_run hrun d t hd
  have htracks := tracks_tree hrun hd
  have hleaves : leavesOn log t.denomId =
      leaves (history t.denomId log₁) ++ leaves (history t.denomId log₂) := by
    rw [leavesOn, hlog, history_append, leaves, List.map_append]
    rfl
  have hle : (leaves (history t.denomId log₁)).length ≤ (leavesOn log t.denomId).length := by
    rw [hleaves, List.length_append]
    exact Nat.le_add_right _ _
  refine ⟨htracks.count ▸ hle, ?_⟩
  rw [htracks.count, hleaves, List.take_left]
  exact htracks

/-- **One step** keeps it. -/
theorem SyncedOk.step {log : List (SyncEvent env)} {st st' : Synced env} {e : SyncEvent env}
    (h : SyncedOk log st) (hs : SyncStep env st e st') : SyncedOk (log ++ [e]) st' := by
  cases hs with
  | @chain a s' hstep =>
      have hlog : chainLog (log ++ [.chain a]) = chainLog log ++ [a] := chainLog_append log _
      have hrun : PoolRun env (chainLog (log ++ [.chain a])) s' := by
        rw [hlog]
        exact h.run.snoc hstep
      refine ⟨⟨hrun, fun s hs => ?_⟩, h.rows.mono (leavesOn_grow log _), fun k => ?_⟩
      · rcases List.mem_cons.mp hs with rfl | hs
        · exact ⟨_, [], (List.append_nil _).symm, hrun⟩
        · obtain ⟨log₁, log₂, heq, hrun₁⟩ := h.past s hs
          exact ⟨log₁, log₂ ++ [a], by rw [hlog, heq, List.append_assoc], hrun₁⟩
      · rw [h.keys k]
        simp only [List.mem_append, List.mem_singleton, reduceCtorEq, or_false]
  | @poll s accounts slot hs hacc =>
      have hlog : chainLog (log ++ [.polled accounts slot]) = chainLog log :=
        (chainLog_append log _).trans (List.append_nil _)
      have hleaves : leavesOn (log ++ [.polled accounts slot]) = leavesOn log := by
        funext d
        rw [leavesOn, hlog]
        rfl
      obtain ⟨hrows, hkeys⟩ := h.rows.poll slot fun t ht => h.treeOf hs (hacc _ ht)
      refine ⟨⟨hlog ▸ h.run, hlog ▸ h.past⟩, ?_, fun k => ?_⟩
      · rw [hleaves, roots_syncAccountState]
        exact hrows
      · rw [roots_syncAccountState, hkeys, h.keys]
        simp only [List.mem_append, List.mem_singleton, SyncEvent.polled.injEq]
        constructor
        · rintro (⟨accounts', slot', t, hmem, ht⟩ | ⟨t, ht⟩)
          · exact ⟨accounts', slot', t, .inl hmem, ht⟩
          · exact ⟨accounts, slot, t, .inr ⟨rfl, rfl⟩, ht⟩
        · rintro ⟨accounts', slot', t, hmem | ⟨rfl, rfl⟩, ht⟩
          · exact .inl ⟨accounts', slot', t, hmem, ht⟩
          · exact .inr ⟨t, ht⟩

/-- **Every run** has it. -/
theorem syncedOk_of_run {log : List (SyncEvent env)} {st : Synced env}
    (h : SyncRun env log st) : SyncedOk log st := by
  refine h.invariant SyncedOk ?_ fun log st e st' _ hok hs => hok.step hs
  rintro st ⟨hinitial, hpast, htables⟩
  refine ⟨⟨.start hinitial, fun s hs => ?_⟩, ?_, fun k => ?_⟩
  · rw [hpast] at hs
    obtain rfl := List.mem_singleton.mp hs
    exact ⟨[], [], rfl, .start hinitial⟩
  · rw [htables]
    exact ⟨List.forall_mem_nil _, List.forall_mem_nil _⟩
  · rw [htables]
    simp [Tables.empty]

/-! ### The roots of the leaves -/

/-- The root is that of the first leaves, of which there are so many. -/
def Right (log : List (SyncEvent env)) (row : RootRow) : Prop :=
  row.leafCount ≤ (leavesOn log row.denomId).length ∧
    row.rootBe = encode (fullRoot env.poseidon ((leavesOn log row.denomId).take row.leafCount))

/-- No poll has returned a tree that has no leaves yet. -/
def NoEmptyTree (log : List (SyncEvent env)) : Prop :=
  ∀ accounts slot, SyncEvent.polled accounts slot ∈ log →
    ∀ t, PoolAccount.tree t ∈ accounts → t.nextLeafIndex.toNat ≠ 0

/-- **The roots that are stored** are those of the stored number of leaves, just when no poll has
returned a tree without leaves (unless their root is the zero string).  No later step changes
one. -/
theorem stored_roots_iff {log : List (SyncEvent env)} {st : Synced env} (h : SyncRun env log st) :
    ((∀ row ∈ st.tables.roots, Right log row) ↔
      encode (fullRoot env.poseidon []) = zero32 ∨ NoEmptyTree log) ∧
    ∀ e st', SyncStep env st e st' → ∀ d n x,
      storedRoot st.tables.roots d n = some x → storedRoot st'.tables.roots d n = some x := by
  have hok := syncedOk_of_run h
  refine ⟨⟨fun hright => ?_, fun hcond row hrow => ?_⟩, fun e st' hs d n x hx => ?_⟩
  · by_cases hzero : encode (fullRoot env.poseidon []) = zero32
    · exact .inl hzero
    · refine .inr fun accounts slot hpoll t ht hcount => hzero ?_
      obtain ⟨row, hrow, hkey⟩ :=
        List.mem_map.mp ((hok.keys _).mpr ⟨accounts, slot, t, hpoll, ht, rfl⟩)
      have hnone : row.leafCount = 0 := (congrArg Prod.snd hkey).trans hcount
      have hwritten : row.rootBe = writtenRoot env.poseidon _ := hok.rows.root row hrow
      have hroot := (hright row hrow).2
      rw [hwritten] at hroot
      simp only [RootRow.key, hnone, List.take_zero] at hroot
      exact hroot.symm
  · have hcount := hok.rows.count row hrow
    refine ⟨hcount, (hok.rows.root row hrow).trans ?_⟩
    show writtenRoot env.poseidon ((leavesOn log row.denomId).take row.leafCount) = _
    rw [writtenRoot]
    split
    case isTrue hnil =>
      rcases hcond with hzero | hnone
      · rw [hnil, hzero]
      · obtain ⟨accounts, slot, t, hpoll, ht, hkey⟩ :=
          (hok.keys _).mp (List.mem_map_of_mem hrow)
        have hsame : t.nextLeafIndex.toNat = row.leafCount := congrArg Prod.snd hkey
        have hpos := hnone accounts slot hpoll t ht
        have hlength := congrArg List.length hnil
        rw [List.length_take, List.length_nil] at hlength
        omega
    case isFalse => rfl
  · have hok' := hok.step hs
    have hrows := hok.rows.mono (leavesOn_grow log e)
    refine storedRoot_keep hrows.root hok'.rows.root (fun k hk => ?_) hx
    obtain ⟨accounts, slot, t, hpoll, ht⟩ := (hok.keys k).mp hk
    exact (hok'.keys k).mpr ⟨accounts, slot, t, List.mem_append_left _ hpoll, ht⟩

/-! ### Two polls -/

/-- A run of the program before any poll. -/
theorem exists_synced {log : List (Action env)} {s : PoolState} (h : PoolRun env log s) :
    ∃ st, SyncRun env (log.map .chain) st ∧ st.chain = s ∧ s ∈ st.past := by
  induction h with
  | @start s h => exact ⟨⟨s, [s], Tables.empty⟩, .start ⟨h, rfl, rfl⟩, rfl,
    List.mem_singleton_self s⟩
  | @snoc log s s' a h hs ih =>
      obtain ⟨st, hrun, rfl, -⟩ := ih
      refine ⟨{ st with chain := s', past := s' :: st.past }, ?_, rfl, List.mem_cons_self⟩
      rw [List.map_append]
      exact hrun.snoc (.chain hs)

theorem chainLog_map (log : List (Action env)) : chainLog (log.map .chain) = log := by
  rw [chainLog, List.filterMap_map]
  exact List.filterMap_some

/-- A poll of a denomination's tree, of these leaves, leaves its row. -/
theorem exists_polled_tree (P : Poseidon) (xs : List F) (hlen : xs.length ≤ 2 ^ MERKLE_DEPTH) :
    ∃ log st, SyncRun (ideal P) log st ∧
      (∀ accounts slot, SyncEvent.polled accounts slot ∈ log →
        ∀ t, PoolAccount.tree t ∈ accounts → t.nextLeafIndex.toNat = xs.length) ∧
      leavesOn log 0 = xs ∧
      ∃ row ∈ st.tables.roots, row.denomId = 0 ∧ row.leafCount = xs.length ∧
        row.rootBe = writtenRoot P xs := by
  obtain ⟨log, s, config, denomination, tree, hl⟩ := exists_launched P xs hlen
  obtain ⟨st, hrun, rfl, hpast⟩ := exists_synced hl.run
  have hname : tree.denomId = 0 := treesNamed_of_run hl.run 0 tree hl.tree_eq
  have hcount : tree.nextLeafIndex.toNat = xs.length := by
    rw [hl.tracks.count, leaves_depositEntries]
  have hpoll : SyncStep (ideal P) st (.polled [.tree tree] 1) _ :=
    .poll hpast (List.forall_mem_singleton.mpr ⟨0, hl.tree_eq⟩)
  have hok := syncedOk_of_run (hrun.snoc hpoll)
  have hleaves : leavesOn (log.map .chain ++ [SyncEvent.polled [.tree tree] 1]) 0 = xs := by
    rw [leavesOn_append, leavesOn, chainLog_map, hl.history_eq, leaves_depositEntries]
    exact List.append_nil xs
  refine ⟨_, _, hrun.snoc hpoll, ?_, hleaves, ?_⟩
  · intro accounts slot hmem t ht
    rcases List.mem_append.mp hmem with hmem | hmem
    · obtain ⟨a, -, heq⟩ := List.mem_map.mp hmem
      cases heq
    · cases List.mem_singleton.mp hmem
      cases List.mem_singleton.mp ht
      exact hcount
  · obtain ⟨row, hrow, hkey⟩ := List.mem_map.mp ((hok.keys (0, xs.length)).mpr
      ⟨_, _, tree, List.mem_append_right _ (List.mem_singleton_self _), List.mem_singleton_self _,
        Prod.ext hname hcount⟩)
    have hdenom : row.denomId = 0 := congrArg Prod.fst hkey
    have hleaf : row.leafCount = xs.length := congrArg Prod.snd hkey
    refine ⟨row, hrow, hdenom, hleaf, (hok.rows.root row hrow).trans ?_⟩
    rw [hkey]
    show writtenRoot P ((leavesOn _ 0).take xs.length) = _
    rw [hleaves, List.take_length]

/-- Two leaves. -/
theorem stored_roots_iff_two : ∃ log st, SyncRun (ideal circom) log st ∧
    ∃ row ∈ st.tables.roots, row.leafCount = 2 ∧ Right log row := by
  obtain ⟨log, st, hrun, hpolls, -, row, hrow, -, hcount, -⟩ :=
    exists_polled_tree circom [7, 11] (by decide)
  have hnone : NoEmptyTree log := by
    intro accounts slot hmem t ht
    rw [hpolls accounts slot hmem t ht]
    exact Nat.succ_ne_zero 1
  exact ⟨log, st, hrun, row, hrow, hcount, (stored_roots_iff hrun).1.mpr (.inr hnone) row hrow⟩

/-- **None yet**: the zero string is stored, which is not their root. -/
theorem empty_root_zero : ∃ log st, SyncRun (ideal (offZero circom)) log st ∧
    ∃ row ∈ st.tables.roots, row.leafCount = 0 ∧ row.rootBe = zero32 ∧ ¬ Right log row := by
  obtain ⟨log, st, hrun, -, -, row, hrow, -, hcount, hroot⟩ :=
    exists_polled_tree (offZero circom) [] (by decide)
  rw [writtenRoot, if_pos rfl] at hroot
  refine ⟨log, st, hrun, row, hrow, hcount, hroot, ?_⟩
  rintro ⟨-, hright⟩
  rw [hroot, ← encode_zero, encode_inj] at hright
  exact fullRoot_offZero circom _ hright.symm

end Qietr.Indexer
