import Qietr.Indexer.Deliveries
import Qietr.Indexer.Rebuild
import Qietr.Indexer.Writer
import Qietr.Pool.Records

/-!
# Indexer — the plugin and the poller

`lib.rs` with `writer.rs`, once more without its threads: a validator hands over accounts and
transactions in some order, nothing is dropped, and what is written is compared with the tree and
with what the poller writes.

* `Notification`, `Plugin`, `runPlugin`: what is handed over, and what the plugin does of it.
* `deliveriesOf`: what of this concerns one denomination.
* `Plugin.Follows`, `follows_runPlugin`: the rows are the first deposits of each index.
* `geyser_rebuilds_iff`: the two indexers have the tree just when these are its leaves, and no leaf
  occurs twice.
* `leaf_misplaced`: a deposit that is delivered after the account that it has written.
-/

namespace Qietr.Indexer

open Pool Dedup

variable {env : PoolEnv} {programId : Pubkey} {d : UInt8}

/-! ### The plugin -/

/-- What a validator hands over. -/
inductive Notification where
  | account (owner : Pubkey) (data : List UInt8) (slot : ℕ)
  /-- A transaction, failed or not, with its top-level instructions. -/
  | transaction (instructions : List (Pubkey × List UInt8)) (slot : ℕ) (signature : String)
  | slotStatus (slot : ℕ) (rooted : Bool)

/-- Of a transaction `notify_transaction` takes the instructions of the program. -/
def Notification.callbacks (programId : Pubkey) : Notification → List Callback
  | .account owner data slot => [.updateAccount owner data slot]
  | .transaction instructions slot signature =>
      -- the status in its meta is not looked at
      (instructions.filter fun ix => ix.1 = programId).map fun ix =>
        .handlePoolIx ix.2 slot signature
  | .slotStatus slot rooted => [.updateSlotStatus slot rooted]

/-- The cache of next indices, and the tables. -/
structure Plugin where
  leafIndexCache : LeafIndexCache
  store : Store

/-- When it is loaded. -/
def Plugin.empty : Plugin where
  leafIndexCache := fun _ => none
  store := Store.empty

/-- `run_worker`: a statement that fails is not tried again. -/
def Store.written (st : Store) (e : WriteEvent) : Store :=
  (st.handleEvent e).getD st

/-- A call, with its events written. -/
def Plugin.call (programId : Pubkey) (st : Plugin) (cb : Callback) : Plugin :=
  let (leafIndexCache, es) := cb.run programId st.leafIndexCache
  { leafIndexCache, store := es.foldl Store.written st.store }

/-- The plugin after what it was handed. -/
def runPlugin (programId : Pubkey) (ns : List Notification) : Plugin :=
  (ns.flatMap (Notification.callbacks programId)).foldl (Plugin.call programId) Plugin.empty

/-- What a call delivers of the denomination `d`. -/
def Callback.deliveries (programId : Pubkey) (d : UInt8) : Callback → List Delivery
  | .updateAccount owner data _ =>
      if owner ≠ programId then []
      else
        match accountKind data with
        | some .denomination =>
            match Plugin.decodeDenomination data with
            | some denom => if denom.denomId = d then [.denomination] else []
            | none => []
        | some .merkleTree =>
            match Plugin.decodeMerkleTree data with
            | some tree => if tree.denomId = d then [.tree tree.nextLeafIndex] else []
            | none => []
        | _ => []
  | .handlePoolIx data _ _ =>
      match parseDepositIx data with
      | some (denomId, commitment) => if denomId = d then [.deposit commitment] else []
      | none => []
  | .updateSlotStatus _ _ => []

/-- What is delivered of it, in order. -/
def deliveriesOf (programId : Pubkey) (d : UInt8) (ns : List Notification) : List Delivery :=
  (ns.flatMap (Notification.callbacks programId)).flatMap (Callback.deliveries programId d)

/-! ### What the plugin has written -/

variable {es : List Delivery} {i : ℕ} {c : Bytes32}

/-- The cache's entry. -/
def capped (i : ℕ) : UInt64 :=
  UInt64.ofNat (min i (2 ^ 64 - 1))

theorem toNat_capped (i : ℕ) : (capped i).toNat = min i (2 ^ 64 - 1) := by
  rw [capped, UInt64.toNat_ofNat', Nat.mod_eq_of_lt (by omega)]

theorem capped_toNat (n : UInt64) : capped n.toNat = n := by
  have hn := n.toNat_lt
  rw [← UInt64.toNat_inj, toNat_capped]
  omega

theorem saturatingSucc_capped (i : ℕ) : saturatingSucc (capped i) = capped (i + 1) := by
  rw [saturatingSucc, toNat_capped, capped]
  congr 1
  omega

/-- The index that is written is that where the deposit comes, up to the largest BIGINT. -/
theorem asI64_capped_eq_iff {i j : ℕ} (hj : j < 2 ^ 63) : asI64 (capped i) = j ↔ i = j := by
  have hcap := toNat_capped i
  by_cases hi : (capped i).toNat < 2 ^ 63
  · rw [asI64_of_lt hi]
    omega
  · have hneg := asI64_neg (not_lt.mp hi)
    omega

def rowAt (x : ℕ × Bytes32) : ℤ × Bytes32 :=
  (asI64 (capped x.1), x.2)

/-- The plugin after what was delivered of the denomination `d`. -/
structure Plugin.Follows (d : UInt8) (st : Plugin) (es : List Delivery) : Prop where
  cache : (st.leafIndexCache d).getD 0 = capped (nextIndex es)
  shown : st.store.hasDenomination d ↔ .denomination ∈ es
  rows : (st.store.db.rowsOf d).map CommitmentRow.leaf =
    firstsBy Prod.fst ((arrivals es).map rowAt)

/-- An event is about the leaves of `d`, or about whether `d` is there. -/
def WriteEvent.Concerns (d : UInt8) : WriteEvent → Prop
  | .upsertDenomination row => row.denomId = d
  | .insertCommitment row => row.denomId = d
  | .upsertRoot _ | .insertNullifier _ | .checkpoint _ _ => False

theorem hasDenomination_upsert {st : Store} {row : DenominationEntry} :
    (st.apply (.upsertDenomination row)).hasDenomination d ↔
      st.hasDenomination d ∨ row.denomId = d := by
  show d ∈ (Upsert.upsert _ _ st.denominations row).map DenominationEntry.denomId ↔ _
  rw [Upsert.keys_upsert keepsKey_mergeDenomination]
  split
  · rename_i hmem
    refine ⟨.inl, ?_⟩
    rintro (hd | rfl)
    · exact hd
    · exact hmem
  · rw [List.mem_append, List.mem_singleton]
    exact or_congr_right eq_comm

/-- **An event that is not** leaves them. -/
theorem written_of_not_concerns (st : Store) {e : WriteEvent} (h : ¬ e.Concerns d) :
    ((st.written e).hasDenomination d ↔ st.hasDenomination d) ∧
      (st.written e).db.rowsOf d = st.db.rowsOf d := by
  rw [Store.written, Store.handleEvent]
  split
  · rw [Option.getD_some]
    cases e with
    | upsertDenomination row =>
        exact ⟨hasDenomination_upsert.trans (or_iff_left h), rfl⟩
    | insertCommitment row => exact ⟨Iff.rfl, Db.rowsOf_insertCommitment h⟩
    | upsertRoot | insertNullifier | checkpoint => exact ⟨Iff.rfl, rfl⟩
  · exact ⟨Iff.rfl, rfl⟩

variable {st : Plugin}

/-- A call that delivers nothing of `d`. -/
theorem Plugin.Follows.same (h : st.Follows d es) {st' : Plugin} {events : List WriteEvent}
    (hcache : st'.leafIndexCache d = st.leafIndexCache d)
    (hstore : st'.store = events.foldl Store.written st.store)
    (hother : ∀ e ∈ events, ¬ e.Concerns d) : st'.Follows d es := by
  have hfold : ∀ (events : List WriteEvent) (s : Store), (∀ e ∈ events, ¬ e.Concerns d) →
      ((events.foldl Store.written s).hasDenomination d ↔ s.hasDenomination d) ∧
        (events.foldl Store.written s).db.rowsOf d = s.db.rowsOf d := by
    intro events s hother
    induction events generalizing s with
    | nil => exact ⟨Iff.rfl, rfl⟩
    | cons e events ih =>
        rw [List.forall_mem_cons] at hother
        obtain ⟨hshown, hrows⟩ := written_of_not_concerns s hother.1
        obtain ⟨hshown', hrows'⟩ := ih (s.written e) hother.2
        exact ⟨hshown'.trans hshown, hrows'.trans hrows⟩
  obtain ⟨hshown, hrows⟩ := hfold events st.store hother
  refine ⟨?_, ?_, ?_⟩
  · rw [hcache]
    exact h.cache
  · rw [hstore, hshown]
    exact h.shown
  · rw [hstore, hrows]
    exact h.rows

/-- The account of the denomination. -/
theorem Plugin.Follows.denomination (h : st.Follows d es) {row : DenominationEntry}
    (hrow : row.denomId = d) (haccepts : st.store.accepts (.upsertDenomination row)) :
    ({ st with store := st.store.written (.upsertDenomination row) } : Plugin).Follows d
      (es ++ [.denomination]) where
  cache := by
    rw [nextIndex_snoc]
    exact h.cache
  shown := by
    rw [Store.written, Store.handleEvent_of_accepts haccepts, Option.getD_some,
      hasDenomination_upsert]
    simp [hrow]
  rows := by
    rw [Store.written, Store.handleEvent_of_accepts haccepts, arrivals_snoc, arrival,
      List.append_nil]
    exact h.rows

/-- Its tree. -/
theorem Plugin.Follows.tree (h : st.Follows d es) (n : UInt64) {st' : Plugin}
    (hcache : st'.leafIndexCache d = some n)
    {events : List WriteEvent} (hstore : st'.store = events.foldl Store.written st.store)
    (hother : ∀ e ∈ events, ¬ e.Concerns d) : st'.Follows d (es ++ [.tree n]) := by
  have hsame : ({ st' with leafIndexCache := st.leafIndexCache } : Plugin).Follows d es :=
    h.same rfl hstore hother
  refine ⟨?_, ?_, ?_⟩
  · rw [hcache, nextIndex_snoc]
    exact (capped_toNat n).symm
  · simpa using hsame.shown
  · rw [arrivals_snoc, arrival, List.append_nil]
    exact hsame.rows

/-- A deposit into it. -/
theorem Plugin.Follows.deposit (h : st.Follows d es) (row : CommitmentRow) (hrow : row.denomId = d)
    (hindex : row.leafIndex = asI64 ((st.leafIndexCache d).getD 0)) {st' : Plugin}
    (hcache : st'.leafIndexCache d = some (saturatingSucc ((st.leafIndexCache d).getD 0)))
    {slot : ℕ} {signature : Option String}
    (hstore : st'.store =
      (st.store.written (.insertCommitment row)).written (.checkpoint slot signature)) :
    st'.Follows d (es ++ [.deposit row.commitmentBe]) := by
  subst hrow
  have hleaf : row.leaf = rowAt (nextIndex es, row.commitmentBe) := by
    rw [CommitmentRow.leaf, hindex, h.cache]
    rfl
  have hnext : (st'.leafIndexCache row.denomId).getD 0 =
      capped (nextIndex (es ++ [.deposit row.commitmentBe])) := by
    rw [hcache, Option.getD_some, h.cache, saturatingSucc_capped, nextIndex_snoc]
    rfl
  -- with its denomination the deposit is a row, if its index has none yet
  by_cases hshown : Delivery.denomination ∈ es
  · have haccepts : st.store.accepts (.insertCommitment row) :=
      ⟨hindex ▸ fits_asI64 _, h.shown.mpr hshown⟩
    have hwritten : st.store.written (.insertCommitment row) =
        st.store.apply (.insertCommitment row) := by
      rw [Store.written, Store.handleEvent_of_accepts haccepts, Option.getD_some]
    refine ⟨?_, ?_, ?_⟩
    · exact hnext
    · rw [hstore, hwritten]
      exact iff_of_true (h.shown.mpr hshown) (List.mem_append_left _ hshown)
    · rw [hstore, hwritten, arrivals_snoc, arrival, if_pos hshown, List.map_append,
        List.map_singleton, firstsBy_append, ← h.rows, ← hleaf]
      exact Db.map_leaf_insertCommitment st.store.db row
  -- without it the foreign key refuses the row, and the cache has counted it all the same
  · have hrefused : ¬ st.store.accepts (.insertCommitment row) := fun haccepts =>
      hshown (h.shown.mp haccepts.2)
    have hwritten : st.store.written (.insertCommitment row) = st.store := by
      rw [Store.written, Store.handleEvent, if_neg hrefused]
      rfl
    refine ⟨?_, ?_, ?_⟩
    · exact hnext
    · rw [hstore, hwritten, List.mem_append, List.mem_singleton]
      exact h.shown.trans (or_iff_left (by simp)).symm
    · rw [hstore, hwritten, arrivals_snoc, arrival, if_neg hshown, List.append_nil]
      exact h.rows

/-- **One call** keeps it. -/
theorem Plugin.Follows.call (h : st.Follows d es) (cb : Callback) :
    (st.call programId cb).Follows d (es ++ cb.deliveries programId d) := by
  cases cb with
  | updateAccount owner data slot =>
      rw [Callback.deliveries, Plugin.call, Callback.run]
      -- only a denomination and a tree of `d` deliver something of it
      by_cases howner : owner ≠ programId
      · rw [if_pos howner, if_pos howner, List.append_nil]
        exact h.same rfl rfl (List.forall_mem_nil _)
      · rw [if_neg howner, if_neg howner, cacheAfter, Plugin.accountEvent]
        rcases accountKind data with _ | (_ | _ | _ | _)
        · rw [List.append_nil]
          exact h.same rfl rfl (List.forall_mem_nil _)
        · rw [List.append_nil]
          exact h.same rfl rfl (List.forall_mem_nil _)
        · rcases Plugin.decodeDenomination data with _ | denom
          · rw [List.append_nil]
            exact h.same rfl rfl (List.forall_mem_nil _)
          · by_cases hd : denom.denomId = d
            · simp only [if_pos hd]
              exact h.denomination hd ⟨fits_asI64 _, fits_asI64 _⟩
            · simp only [if_neg hd, List.append_nil]
              exact h.same rfl rfl (List.forall_mem_singleton.mpr hd)
        · rcases Plugin.decodeMerkleTree data with _ | tree
          · rw [List.append_nil]
            exact h.same rfl rfl (List.forall_mem_nil _)
          · have hroot : ∀ e ∈ ((Plugin.latestRoot tree).map fun root => WriteEvent.upsertRoot
                { denomId := tree.denomId
                  leafCount := asI64 tree.nextLeafIndex
                  rootBe := root
                  insertedSlot := slot }).toList, ¬ e.Concerns d := by
              cases Plugin.latestRoot tree with
              | none => exact List.forall_mem_nil _
              | some root => exact List.forall_mem_singleton.mpr id
            by_cases hd : tree.denomId = d
            · simp only [if_pos hd]
              subst hd
              exact h.tree tree.nextLeafIndex (Function.update_self ..) rfl hroot
            · simp only [if_neg hd, List.append_nil]
              exact h.same (Function.update_of_ne (Ne.symm hd) ..) rfl hroot
        · rw [List.append_nil]
          refine h.same rfl rfl ?_
          cases Plugin.decodeNullifierRecord data with
          | none => exact List.forall_mem_nil _
          | some n => exact List.forall_mem_singleton.mpr id
  | handlePoolIx data slot signature =>
      rw [Callback.deliveries, Plugin.call, run_handlePoolIx]
      rcases parseDepositIx data with _ | ⟨denomId, commitment⟩
      · rw [List.append_nil]
        exact h.same rfl rfl (List.forall_mem_nil _)
      · by_cases hd : denomId = d
        · subst hd
          simp only [if_pos]
          exact h.deposit
            { denomId
              leafIndex := asI64 ((st.leafIndexCache denomId).getD 0)
              commitmentBe := commitment
              insertedSlot := slot } rfl rfl (Function.update_self ..) rfl
        · simp only [if_neg hd, List.append_nil]
          refine h.same (Function.update_of_ne (Ne.symm hd) ..) rfl ?_
          simp [WriteEvent.Concerns, hd]
  | updateSlotStatus slot rooted =>
      rw [Callback.deliveries, List.append_nil]
      refine h.same rfl
        (show _ = List.foldl _ _ (if rooted then [.checkpoint slot none] else []) from rfl) ?_
      split <;> simp [WriteEvent.Concerns]

/-- **Whatever is handed over.** -/
theorem follows_runPlugin (programId : Pubkey) (ns : List Notification) (d : UInt8) :
    (runPlugin programId ns).Follows d (deliveriesOf programId d ns) := by
  have hfold : ∀ (cbs : List Callback) {st : Plugin} {es : List Delivery}, st.Follows d es →
      (cbs.foldl (Plugin.call programId) st).Follows d
        (es ++ cbs.flatMap (Callback.deliveries programId d)) := by
    intro cbs
    induction cbs with
    | nil => exact fun h => (List.append_nil _).symm ▸ h
    | cons cb cbs ih =>
        intro st es h
        rw [List.flatMap_cons, ← List.append_assoc]
        exact ih (h.call cb)
  have hempty : Plugin.empty.Follows d [] :=
    ⟨rfl, iff_of_false List.not_mem_nil List.not_mem_nil, rfl⟩
  exact hfold _ hempty

/-! ### The tree -/

variable {xs : List Bytes32}

/-- A row at an index that is a BIGINT. -/
theorem Plugin.Follows.mem_rows (h : st.Follows d es) (hi : i < 2 ^ 63) :
    ((i : ℤ), c) ∈ (st.store.db.rowsOf d).map CommitmentRow.leaf ↔ FirstAt es i c := by
  -- rows and arrivals of a small index are found alike, since only such indices are written as it
  have hkey : ((fun x : ℤ × Bytes32 => decide (x.1 = i)) ∘ rowAt) = fun x => decide (x.1 = i) :=
    funext fun x => decide_eq_decide.mpr (asI64_capped_eq_iff hi)
  rw [h.rows, mem_firstsBy, List.find?_map, hkey, Option.map_eq_some_iff, ← find?_arrivals]
  refine ⟨?_, fun hfind => ⟨_, hfind, ?_⟩⟩
  · rintro ⟨⟨j, c'⟩, hfind, hrow⟩
    obtain ⟨hj, rfl⟩ := Prod.mk.inj hrow
    obtain rfl := (asI64_capped_eq_iff hi).mp hj
    exact hfind
  · exact Prod.ext ((asI64_capped_eq_iff hi).mpr rfl) rfl

/-- **The rows are the tree** just under the condition on the order. -/
theorem Plugin.Follows.tree_eq_iff (h : st.Follows d es) (hlen : xs.length ≤ 2 ^ MERKLE_DEPTH) :
    st.store.db.tree d = numbered xs ↔ Rebuilds es xs := by
  have hsmall : ∀ i : ℕ, i < xs.length → i < 2 ^ 63 := fun i hi =>
    (hi.trans_le hlen).trans (by decide)
  have hnodup : ((st.store.db.rowsOf d).map CommitmentRow.leafIndex).Nodup := by
    have hfst : ((firstsBy Prod.fst ((arrivals es).map rowAt)).map Prod.fst).Nodup :=
      nodup_firstsBy _
    rwa [← h.rows, List.map_map] at hfst
  rw [Db.tree_eq_iff hnodup]
  refine ⟨fun hrows => ⟨fun i c hc => ?_, fun i c hcomes => ?_⟩, fun hrebuilds => ?_⟩
  · have hi := hsmall i (List.getElem?_eq_some_iff.mp hc).1
    exact (h.mem_rows hi).mp ((hrows _).mpr (mem_numbered.mpr ⟨i, rfl, hc⟩))
  · -- the row of its index, whichever deposit that is of, is a leaf
    obtain ⟨row, hrow, hkey⟩ : ∃ row ∈ firstsBy Prod.fst ((arrivals es).map rowAt),
        row.1 = (rowAt (i, c)).1 :=
      exists_mem_firstsBy (List.mem_map_of_mem (f := rowAt) (mem_arrivals.mpr hcomes))
    rw [← h.rows, hrows] at hrow
    obtain ⟨j, hj, hget⟩ := mem_numbered.mp hrow
    have hlt := (List.getElem?_eq_some_iff.mp hget).1
    obtain rfl := (asI64_capped_eq_iff (hsmall j hlt)).mp (hkey.symm.trans hj)
    exact hlt
  · rintro ⟨k, c⟩
    refine ⟨fun hrow => ?_, fun hmem => ?_⟩
    · have hmem := hrow
      rw [h.rows] at hmem
      obtain ⟨⟨i, c'⟩, hcomes, heq⟩ :=
        List.mem_map.mp (List.mem_of_find?_eq_some (mem_firstsBy.mp hmem))
      obtain ⟨hk, -⟩ := Prod.mk.inj heq
      have hlt := hrebuilds.others i c' (mem_arrivals.mp hcomes)
      obtain rfl : (i : ℤ) = k := ((asI64_capped_eq_iff (hsmall i hlt)).mpr rfl).symm.trans hk
      have hfirst := find?_arrivals.mpr ((h.mem_rows (hsmall i hlt)).mp hrow)
      have hget := List.getElem?_eq_getElem hlt
      have hleaf := find?_arrivals.mpr (hrebuilds.leaves i _ hget)
      obtain ⟨-, rfl⟩ := Prod.mk.inj (Option.some.inj (hfirst.symm.trans hleaf))
      exact mem_numbered.mpr ⟨i, rfl, hget⟩
    · obtain ⟨i, rfl, hc⟩ := mem_numbered.mp hmem
      have hi := hsmall i (List.getElem?_eq_some_iff.mp hc).1
      exact (h.mem_rows hi).mpr (hrebuilds.leaves i c hc)

/-! ### Every order -/

/-- **The two indexers rebuild the tree** of a denomination just when no leaf of it occurs twice and
the first deposit that comes at each index, by the order of what is handed over, is its leaf. -/
theorem geyser_rebuilds_iff {log : List (Action env)} {s : PoolState} (hrun : PoolRun env log s)
    {txs : List (ChainTransaction env programId)}
    (hlog : log.filterMap callOf = txs.flatMap ChainTransaction.calls)
    (htop : ∀ tx ∈ txs, tx.TopLevel) {db : Db} (hpolled : Polled env programId txs db)
    (ns : List Notification) (d : UInt8) :
    (∀ tree, s.tree d = some tree → Tracks env.poseidon tree (leaves (history d log))) ∧
      ((runPlugin programId ns).store.db.tree d = numbered ((leaves (history d log)).map encode) ∧
        (runPlugin programId ns).store.db.tree d = db.tree d ↔
        (leaves (history d log)).Nodup ∧
          Rebuilds (deliveriesOf programId d ns) ((leaves (history d log)).map encode)) := by
  refine ⟨?_, ?_⟩
  · exact fun tree htree => tracks_tree hrun htree
  · have hlen : ((leaves (history d log)).map encode).length ≤ 2 ^ MERKLE_DEPTH := by
      rw [List.length_map]
      rcases (poolInv_of_run hrun).denominations d with habs | ⟨_, _, hheld⟩
      · rw [habs.history]
        exact Nat.zero_le _
      · exact hheld.tracks.bound
    have hpoller := polled_tree_eq_iff hrun hlog htop hpolled d
    have hplugin := (follows_runPlugin programId ns d).tree_eq_iff hlen
    refine ⟨?_, ?_⟩
    -- the poller has the tree just when no leaf occurs twice, so a plugin with the same rows has it
    · rintro ⟨htree, hsame⟩
      exact ⟨hpoller.mp (hsame ▸ htree), hplugin.mp htree⟩
    · rintro ⟨hnodup, hrebuilds⟩
      have htree := hplugin.mpr hrebuilds
      exact ⟨htree, htree.trans (hpoller.mpr hnodup).symm⟩

/-! ### A deposit and its account -/

/-- An account of the program is handed over. -/
def accountOf (programId : Pubkey) (a : PoolAccount) : Notification :=
  .account programId a.data 1

/-- A transaction of the program alone. -/
def transactionOf (programId : Pubkey) (calls : List (Call env)) : Notification :=
  .transaction (calls.map fun c => (programId, c.data)) 1 "5"

theorem deliveriesOf_three (n₁ n₂ n₃ : Notification) :
    deliveriesOf programId d [n₁, n₂, n₃] = deliveriesOf programId d [n₁] ++
      deliveriesOf programId d [n₂] ++ deliveriesOf programId d [n₃] := by
  simp [deliveriesOf]

theorem deliveriesOf_denomination (x : Denomination) :
    deliveriesOf programId x.denomId [accountOf programId (.denomination x)] = [.denomination] := by
  show (Callback.updateAccount programId (PoolAccount.denomination x).data 1).deliveries
    programId x.denomId ++ [] = _
  rw [Callback.deliveries, if_neg (not_not.mpr rfl), accountKind_data]
  simp only [kindOf, (decode_denomination x).1, if_pos, List.append_nil]

theorem deliveriesOf_tree (t : MerkleTree) :
    deliveriesOf programId t.denomId [accountOf programId (.tree t)] = [.tree t.nextLeafIndex] := by
  show (Callback.updateAccount programId (PoolAccount.tree t).data 1).deliveries
    programId t.denomId ++ [] = _
  rw [Callback.deliveries, if_neg (not_not.mpr rfl), accountKind_data]
  simp only [kindOf, (decode_tree t).1, if_pos, List.append_nil]

/-- What an instruction delivers. -/
def depositOf (d : UInt8) : Call env → List Delivery
  | .deposit _ denomId commitment => if denomId = d then [.deposit commitment] else []
  | _ => []

theorem deliveriesOf_transaction (d : UInt8) (calls : List (Call env)) :
    deliveriesOf programId d [transactionOf programId calls] = calls.flatMap (depositOf d) := by
  have hcall : ∀ c : Call env, (Callback.handlePoolIx c.data 1 "5").deliveries programId d =
      depositOf d c := by
    intro c
    rw [Callback.deliveries, ← List.append_nil c.data]
    cases c with
    | deposit accounts denomId commitment => rw [parseDepositIx_deposit, depositOf]
    | withdraw | initializePool | initializeDenomination | setPaused | queueVkUpgrade
    | applyVkUpgrade | setFeeVault =>
        rw [parseDepositIx_of_ne (by rw [Call.discriminator]; decide)]
        rfl
  have hall : (calls.map fun c : Call env => (programId, c.data)).filter
      (fun ix => ix.1 = programId) = calls.map fun c => (programId, c.data) :=
    List.filter_eq_self.mpr fun ix hix => by
      obtain ⟨c, -, rfl⟩ := List.mem_map.mp hix
      exact decide_eq_true rfl
  rw [deliveriesOf, List.flatMap_singleton, transactionOf, Notification.callbacks, hall,
    List.map_map, List.flatMap_map]
  exact List.flatMap_congr fun c _ => hcall c

/-- The deposits of a log. -/
theorem flatMap_depositOf (d : UInt8) (log : List (Action env)) :
    (log.filterMap callOf).flatMap (depositOf d) =
      (history d log).filterMap fun e => if e.isDeposit then some (.deposit e.leaf) else none := by
  induction log with
  | nil => rfl
  | cons a log ih =>
      have hcons : history d (a :: log) = (entry d a).toList ++ history d log := by
        rw [history, List.filterMap_cons]
        cases entry d a <;> rfl
      rw [hcons, List.filterMap_append, ← ih]
      rcases a with ⟨slot, c⟩ | ledger
      · rw [List.filterMap_cons_some (show callOf (.call slot c) = some c from rfl),
          List.flatMap_cons]
        congr 1
        cases c with
        | deposit accounts denomId commitment
        | withdraw accounts denomId nullifierHash proof signals =>
            simp only [entry, depositOf]
            split <;> rfl
        | initializePool | initializeDenomination | setPaused | queueVkUpgrade | applyVkUpgrade
        | setFeeVault => rfl
      · rfl

/-- A chain with the deposits of `xs`, and what its accounts and its transaction deliver. -/
theorem exists_notified (P : Poseidon) (xs : List F) (hlen : xs.length ≤ 2 ^ MERKLE_DEPTH) :
    ∃ log s txs, ∃ db : Db, ∃ x tree, PoolRun (ideal P) log s ∧ leaves (history 0 log) = xs ∧
      log.filterMap callOf = txs.flatMap ChainTransaction.calls ∧ (∀ tx ∈ txs, tx.TopLevel) ∧
      Polled (ideal P) Sdk.QIETR_POOL_PROGRAM_ID txs db ∧
      s.denomination 0 = some x ∧ s.tree 0 = some tree ∧ tree.nextLeafIndex.toNat = xs.length ∧
      deliveriesOf Sdk.QIETR_POOL_PROGRAM_ID 0
        [accountOf Sdk.QIETR_POOL_PROGRAM_ID (.denomination x)] = [.denomination] ∧
      deliveriesOf Sdk.QIETR_POOL_PROGRAM_ID 0
        [transactionOf Sdk.QIETR_POOL_PROGRAM_ID (log.filterMap callOf)] =
          xs.map (.deposit ∘ encode) ∧
      deliveriesOf Sdk.QIETR_POOL_PROGRAM_ID 0
        [accountOf Sdk.QIETR_POOL_PROGRAM_ID (.tree tree)] = [.tree tree.nextLeafIndex] := by
  obtain ⟨log, s, config, x, tree, txs, db, hl, hlog, htop, hpolled⟩ :=
    exists_polled (P := P) xs hlen
  have hname : x.denomId = 0 := by
    rcases denomination_of_run hl.run 0 with ⟨-, hnone⟩ | ⟨_, y, -, hy, hid, -⟩
    · rw [hl.denomination_eq] at hnone
      cases hnone
    · rw [hl.denomination_eq] at hy
      cases hy
      exact hid
  have htree : tree.denomId = 0 := treesNamed_of_run hl.run 0 tree hl.tree_eq
  refine ⟨log, s, txs, db, x, tree, hl.run, leaves_of_launched hl, hlog, htop, hpolled,
    hl.denomination_eq, hl.tree_eq, ?_, ?_, ?_, ?_⟩
  · rw [hl.tracks.count, leaves_depositEntries]
  · rw [← hname]
    exact deliveriesOf_denomination x
  · rw [deliveriesOf_transaction, flatMap_depositOf, hl.history_eq, depositEntries,
      List.filterMap_map]
    exact congrFun (List.filterMap_eq_map (f := Delivery.deposit ∘ encode)) xs
  · rw [← htree]
    exact deliveriesOf_tree tree

/-- Two deposits, each index in its turn, and the account that they have written. -/
theorem geyser_rebuilds_iff_two : ∃ log s, ∃ db : Db, ∃ x tree ns, PoolRun (ideal circom) log s ∧
    s.denomination 0 = some x ∧ s.tree 0 = some tree ∧ leaves (history 0 log) = [1, 2] ∧
    ns = [accountOf Sdk.QIETR_POOL_PROGRAM_ID (.denomination x),
      transactionOf Sdk.QIETR_POOL_PROGRAM_ID (log.filterMap callOf),
      accountOf Sdk.QIETR_POOL_PROGRAM_ID (.tree tree)] ∧
    (runPlugin Sdk.QIETR_POOL_PROGRAM_ID ns).store.db.tree 0 = numbered [encode 1, encode 2] ∧
      (runPlugin Sdk.QIETR_POOL_PROGRAM_ID ns).store.db.tree 0 = db.tree 0 := by
  obtain ⟨log, s, txs, db, x, tree, hrun, hleaves, hlog, htop, hpolled, hx, htree, hn, hshown,
    hdeposits, hupdate⟩ := exists_notified circom [1, 2] (by decide)
  refine ⟨log, s, db, x, tree, _, hrun, hx, htree, hleaves, rfl, ?_⟩
  have horder : Prompt ([.denomination] ++ [.deposit (encode 1)] ++ [.deposit (encode 2)] ++
      [.tree tree.nextLeafIndex]) ([] ++ [encode 1] ++ [encode 2]) :=
    .tree (.deposit (.deposit .shown _) _) hn
  have hrebuilt := (geyser_rebuilds_iff hrun hlog htop hpolled
    [accountOf Sdk.QIETR_POOL_PROGRAM_ID (.denomination x),
      transactionOf Sdk.QIETR_POOL_PROGRAM_ID (log.filterMap callOf),
      accountOf Sdk.QIETR_POOL_PROGRAM_ID (.tree tree)] 0).2
  rw [hleaves, deliveriesOf_three, hshown, hdeposits, hupdate] at hrebuilt
  exact hrebuilt.mpr ⟨by decide, horder.rebuilds.2.2⟩

/-- **The account is delivered first**: the leaf is given the index after its own, while the poller
gives it its own. -/
theorem leaf_misplaced : ∃ log s, ∃ db : Db, ∃ x tree, PoolRun (ideal circom) log s ∧
    s.denomination 0 = some x ∧ s.tree 0 = some tree ∧ leaves (history 0 log) = [1] ∧
    db.tree 0 = numbered [encode 1] ∧
    (runPlugin Sdk.QIETR_POOL_PROGRAM_ID [accountOf Sdk.QIETR_POOL_PROGRAM_ID (.denomination x),
      accountOf Sdk.QIETR_POOL_PROGRAM_ID (.tree tree),
      transactionOf Sdk.QIETR_POOL_PROGRAM_ID (log.filterMap callOf)]).store.db.tree 0 =
        [(1, encode 1)] := by
  obtain ⟨log, s, txs, db, x, tree, hrun, hleaves, hlog, htop, hpolled, hx, htree, hn, hshown,
    hdeposits, hupdate⟩ := exists_notified circom [1] (by decide)
  have hpoller := (polled_tree_eq_iff hrun hlog htop hpolled 0).mpr (by simp [hleaves])
  rw [hleaves] at hpoller
  have hrows := (follows_runPlugin Sdk.QIETR_POOL_PROGRAM_ID
    [accountOf Sdk.QIETR_POOL_PROGRAM_ID (.denomination x),
      accountOf Sdk.QIETR_POOL_PROGRAM_ID (.tree tree),
      transactionOf Sdk.QIETR_POOL_PROGRAM_ID (log.filterMap callOf)] 0).rows
  have harrivals : arrivals ([.denomination] ++ [.tree tree.nextLeafIndex] ++
      [.deposit (encode 1)]) = [(1, encode 1)] := by
    rw [arrivals_snoc, arrival, nextIndex_snoc, Delivery.next, hn, if_pos (by simp)]
    rfl
  have hindex : asI64 (capped 1) = (1 : ℕ) := (asI64_capped_eq_iff (by norm_num)).mpr rfl
  have hrow : rowAt (1, encode 1) = (1, encode 1) := Prod.ext hindex rfl
  rw [deliveriesOf_three, hshown, hdeposits, hupdate] at hrows
  replace hrows := hrows.trans (congrArg (fun xs => firstsBy Prod.fst (xs.map rowAt)) harrivals)
  rw [List.map_singleton, hrow] at hrows
  obtain ⟨row, hone, hleaf⟩ := List.map_eq_singleton_iff.mp hrows
  refine ⟨log, s, db, x, tree, hrun, hx, htree, hleaves, hpoller, ?_⟩
  rw [Db.tree, hone, List.mergeSort_singleton]
  exact congrArg (fun x => [x]) hleaf

end Qietr.Indexer
