import Qietr.Indexer.Store
import Qietr.Indexer.StoredRoots
import Qietr.Pool.Records

/-!
# Indexer — feeds

The plugin and the poller at work on one database, while the program goes on.  Whatever account the
program has had may be written by either, at any time, again and again, or never: a queue drops
events, a poll stops half-way, a validator replays a fork.

* `Fed`, `FeedStep`, `FeedRun`: the chain and the store.
* `writesOf log`: the events that were written; `store_of_run`: the store is what they make of it.
* `Agreed`: an event says what the chain does; `agreed_of_hasAccount`.
* `joins_…`: among such rows the statements are joins.
* `feeds_converge`: the tables are a function of what was written, by whom, when and how often.
-/

namespace Qietr.Indexer

open Doubles Pool Upsert

variable {env : PoolEnv}

/-! ### Runs -/

/-- What the chain has come to, the states so far, and the store. -/
structure Fed where
  chain : PoolState
  past : List PoolState
  store : Store

inductive FeedEvent (env : PoolEnv) where
  | chain (a : Action env)
  | wrote (w : Writer) (a : PoolAccount) (slot : ℕ)

/-- **One step**: of the program, or a statement that succeeds.  An account may be long past. -/
inductive FeedStep (env : PoolEnv) : Fed → FeedEvent env → Fed → Prop
  | chain {st : Fed} {a : Action env} {s' : PoolState} (h : Step env st.chain a s') :
      FeedStep env st (.chain a) { st with chain := s', past := s' :: st.past }
  | write {st : Fed} {s : PoolState} {w : Writer} {a : PoolAccount} {slot : ℕ} {e : WriteEvent}
      {store' : Store} (hs : s ∈ st.past) (ha : HasAccount s a) (he : w.event a.data slot = some e)
      (hok : st.store.handleEvent e = some store') :
      FeedStep env st (.wrote w a slot) { st with store := store' }

def FeedRun (env : PoolEnv) : List (FeedEvent env) → Fed → Prop :=
  Run (fun st => Initial st.chain ∧ st.past = [st.chain] ∧ st.store = Store.empty) (FeedStep env)

/-- What the program has done. -/
def chainOf (log : List (FeedEvent env)) : List (Action env) :=
  log.filterMap fun e => match e with
    | .chain a => some a
    | .wrote .. => none

/-- What a step writes. -/
def written : FeedEvent env → Option WriteEvent
  | .chain _ => none
  | .wrote w a slot => w.eventOf slot a

/-- What was written. -/
def writesOf (log : List (FeedEvent env)) : List WriteEvent :=
  log.filterMap written

theorem chainOf_append (log log' : List (FeedEvent env)) :
    chainOf (log ++ log') = chainOf log ++ chainOf log' :=
  List.filterMap_append

theorem writesOf_append (log log' : List (FeedEvent env)) :
    writesOf (log ++ log') = writesOf log ++ writesOf log' :=
  List.filterMap_append

/-- What holds of the state that a log leads to. -/
structure FedOk (log : List (FeedEvent env)) (st : Fed) : Prop where
  run : PoolRun env (chainOf log) st.chain
  past : ∀ s ∈ st.past, ∃ log₁ log₂, chainOf log = log₁ ++ log₂ ∧ PoolRun env log₁ s
  store : st.store = (writesOf log).foldl Store.apply Store.empty
  referenced : Referenced st.store
  /-- Each account that was written is one that the program has had. -/
  wrote : ∀ w a slot, FeedEvent.wrote w a slot ∈ log →
    ∃ log₁ log₂ s, chainOf log = log₁ ++ log₂ ∧ PoolRun env log₁ s ∧ HasAccount s a

theorem FedOk.step {log : List (FeedEvent env)} {st st' : Fed} {e : FeedEvent env}
    (h : FedOk log st) (hs : FeedStep env st e st') : FedOk (log ++ [e]) st' := by
  cases hs with
  | @chain a s' hstep =>
      have hlog : chainOf (log ++ [.chain a]) = chainOf log ++ [a] := chainOf_append log _
      have hwrites : writesOf (log ++ [.chain a]) = writesOf log :=
        (writesOf_append log _).trans (List.append_nil _)
      have hrun : PoolRun env (chainOf (log ++ [.chain a])) s' := by
        rw [hlog]
        exact h.run.snoc hstep
      refine ⟨hrun, fun s hs => ?_, hwrites ▸ h.store, h.referenced, fun w b slot hmem => ?_⟩
      · rcases List.mem_cons.mp hs with rfl | hs
        · exact ⟨_, [], (List.append_nil _).symm, hrun⟩
        · obtain ⟨log₁, log₂, heq, hrun₁⟩ := h.past s hs
          exact ⟨log₁, log₂ ++ [a], by rw [hlog, heq, List.append_assoc], hrun₁⟩
      · rcases List.mem_append.mp hmem with hmem | hmem
        · obtain ⟨log₁, log₂, s, heq, hrun₁, hb⟩ := h.wrote w b slot hmem
          exact ⟨log₁, log₂ ++ [a], s, by rw [hlog, heq, List.append_assoc], hrun₁, hb⟩
        · cases List.mem_singleton.mp hmem
  | @write s w a slot e store' hs ha he hok =>
      have hlog : chainOf (log ++ [.wrote w a slot]) = chainOf log :=
        (chainOf_append log _).trans (List.append_nil _)
      have hwrites : writesOf (log ++ [.wrote w a slot]) = writesOf log ++ [e] := by
        rw [event_data] at he
        have hlast : writesOf ([.wrote w a slot] : List (FeedEvent env)) = [e] :=
          List.filterMap_cons_some he
        rw [writesOf_append, hlast]
      obtain ⟨haccepts, rfl⟩ := Store.handleEvent_eq_some.mp hok
      refine ⟨hlog ▸ h.run, hlog ▸ h.past, ?_, h.referenced.apply haccepts, fun w' b slot' hmem =>
        ?_⟩
      · rw [hwrites, List.foldl_append, ← h.store]
        rfl
      · rw [hlog]
        rcases List.mem_append.mp hmem with hmem | hmem
        · exact h.wrote w' b slot' hmem
        · cases List.mem_singleton.mp hmem
          obtain ⟨log₁, log₂, heq, hrun₁⟩ := h.past s hs
          exact ⟨log₁, log₂, s, heq, hrun₁, ha⟩

/-- **Every run** has it. -/
theorem fedOk_of_run {log : List (FeedEvent env)} {st : Fed} (h : FeedRun env log st) :
    FedOk log st := by
  refine h.invariant FedOk ?_ fun log st e st' _ hok hs => hok.step hs
  rintro st ⟨hinitial, hpast, hstore⟩
  refine ⟨.start hinitial, fun s hs => ?_, hstore, hstore ▸ Referenced.empty, nofun⟩
  rw [hpast] at hs
  obtain rfl := List.mem_singleton.mp hs
  exact ⟨[], [], rfl, .start hinitial⟩

/-! ### What the events say -/

/-- The root of the first leaves. -/
def rootIn (env : PoolEnv) (chain : List (Action env)) (k : UInt8 × ℤ) : Bytes32 :=
  writtenRoot env.poseidon ((leaves (history k.1 chain)).take k.2.toNat)

/-- The amount of a denomination. -/
def amountIn (chain : List (Action env)) (d : UInt8) : ℤ :=
  ((openings d chain).headD 0).toNat

/-- The slot of a nullifier. -/
def spentIn (chain : List (Action env)) (k : UInt8 × Bytes32) : ℤ :=
  ((spendSlots k.1 k.2 chain).headD 0).toNat

/-- A root is that of the leaves. -/
def RootAgrees (env : PoolEnv) (chain : List (Action env)) (row : RootEntry) : Prop :=
  row.rootBe = rootIn env chain row.key

/-- A nullifier has the slot of its spend. -/
def NullifierAgrees (chain : List (Action env)) (row : NullifierRow) : Prop :=
  row.spentAtSlot = spentIn chain row.key

/-- A denomination has its amount and its vault. -/
def DenominationAgrees (env : PoolEnv) (chain : List (Action env)) (row : DenominationEntry) :
    Prop :=
  row.amountMicroUsdc = amountIn chain row.denomId ∧
    row.vaultAddress = Base58.encode (env.vault row.denomId).toList

/-- **The event says what the chain does.** -/
def Agreed (env : PoolEnv) (chain : List (Action env)) : WriteEvent → Prop
  | .upsertDenomination row => DenominationAgrees env chain row
  | .upsertRoot row => RootAgrees env chain row
  | .insertNullifier row => NullifierAgrees chain row
  | _ => True

/-- The tree of a state so far. -/
theorem treeOf_of_run {log₁ log₂ : List (Action env)} {s s' : PoolState} {t : MerkleTree}
    (hall : PoolRun env (log₁ ++ log₂) s') (hrun : PoolRun env log₁ s)
    (ht : HasAccount s (.tree t)) :
    TreeOf env.poseidon (fun d => leaves (history d (log₁ ++ log₂))) t := by
  have hok : ChainOk ((log₁ ++ log₂).map .chain) ⟨s', [s], Tables.empty⟩ := by
    refine ⟨by rwa [chainLog_map], fun s₁ hs₁ => ?_⟩
    obtain rfl := List.mem_singleton.mp hs₁
    exact ⟨log₁, log₂, chainLog_map _, hrun⟩
  have hleaves : leavesOn ((log₁ ++ log₂).map SyncEvent.chain) =
      fun d => leaves (history d (log₁ ++ log₂)) := by
    funext d
    rw [leavesOn, chainLog_map]
  exact hleaves ▸ hok.treeOf (List.mem_singleton_self s) ht

/-- **Of an account that the program has had**, with plain numbers, every writer says what the chain
does. -/
theorem agreed_of_hasAccount {log₁ log₂ : List (Action env)} {s s' : PoolState} {a : PoolAccount}
    (hall : PoolRun env (log₁ ++ log₂) s') (hrun : PoolRun env log₁ s) (ha : HasAccount s a)
    (hplain : Plain a) {w : Writer} {slot : ℕ} {e : WriteEvent} (he : w.eventOf slot a = some e) :
    Agreed env (log₁ ++ log₂) e := by
  have hsame : Writer.poller.eventOf slot a = some e := by
    have hagree := (event_plain slot a).mpr hplain
    rw [event_data, event_data] at hagree
    cases w with
    | plugin => exact hagree.symm.trans he
    | poller => exact he
  cases a with
  | config c => cases hsame
  | denomination x =>
      cases hsame
      obtain ⟨d, hd⟩ := ha
      rcases denomination_of_run hrun d with ⟨-, hnone⟩ |
        ⟨amount, y, hopen, hy, rfl, hamount, hvault⟩
      · rw [hnone] at hd
        cases hd
      · rw [hd] at hy
        cases hy
        refine ⟨?_, ?_⟩
        · show (x.amountMicroUsdc.toNat : ℤ) = _
          rw [amountIn, openings, List.filterMap_append, ← openings, hopen, hamount]
          rfl
        · show Base58.encode x.vault.toList = _
          rw [hvault]
  | tree t =>
      have ht := treeOf_of_run hall hrun ha
      rw [Writer.eventOf, latestRoot_eq ht.2] at hsame
      cases hsame
      rfl
  | nullifier n =>
      cases hsame
      obtain ⟨d, x, hd⟩ := ha
      rcases recorded_of_run hrun d x with ⟨-, hnone⟩ | ⟨slot', hspent, hsome⟩
      · rw [hnone] at hd
        cases hd
      · rw [hsome] at hd
        cases hd
        have hdouble : double (slot'.toNat : ℤ) = slot'.toNat := double_of_isDouble hplain.2
        show double (slot'.toNat : ℤ) = spentIn (log₁ ++ log₂) (d, x)
        rw [hdouble, spentIn, spendSlots, List.filterMap_append, ← spendSlots, hspent]
        rfl

/-! ### Joins -/

theorem joins_root (env : PoolEnv) (chain : List (Action env)) :
    Joins RootEntry.key mergeRoot (RootAgrees env chain) where
  keeps := keepsKey_mergeRoot
  closed a b _ hb hk := by
    show b.rootBe = rootIn env chain a.key
    rw [hk]
    exact hb
  comm a b ha hb hk := by
    have hroot : a.rootBe = b.rootBe := ha.trans ((congrArg _ hk).trans hb.symm)
    obtain ⟨hd, hn⟩ := Prod.mk.inj hk
    cases a
    cases b
    simp_all [mergeRoot, min_comm]
  assoc a b c _ _ _ _ _ := by simp [mergeRoot, min_assoc]
  idem a _ := by simp [mergeRoot]

theorem joins_nullifier (chain : List (Action env)) :
    Joins NullifierRow.key mergeNullifier (NullifierAgrees chain) where
  keeps := keepsKey_mergeNullifier
  closed a _ ha _ _ := ha
  comm a b ha hb hk := by
    have hslot : a.spentAtSlot = b.spentAtSlot := ha.trans ((congrArg _ hk).trans hb.symm)
    obtain ⟨hd, hn⟩ := Prod.mk.inj hk
    cases a
    cases b
    simp_all [mergeNullifier]
  assoc _ _ _ _ _ _ _ _ := rfl
  idem _ _ := rfl

/-- A denomination but for its count, which is that of the last statement. -/
def settled (row : DenominationEntry) : DenominationEntry :=
  { row with depositCount := 0 }

theorem joins_denomination (env : PoolEnv) (chain : List (Action env)) :
    Joins DenominationEntry.denomId mergeDenomination
      fun row => DenominationAgrees env chain row ∧ row.depositCount = 0 where
  keeps := keepsKey_mergeDenomination
  closed _ _ _ hb _ := hb
  comm a b ha hb hk := by
    obtain ⟨⟨hamount, hvault⟩, hcount⟩ := ha
    obtain ⟨⟨hamount', hvault'⟩, hcount'⟩ := hb
    cases a
    cases b
    simp_all [mergeDenomination, max_comm]
  assoc a b c _ _ _ _ _ := by simp [mergeDenomination, max_assoc]
  idem a _ := by simp [mergeDenomination]

/-! ### Convergence -/

/-- The row that an event writes to each table. -/
def denominationOf : WriteEvent → Option DenominationEntry
  | .upsertDenomination row => some row
  | _ => none

def rootOf : WriteEvent → Option RootEntry
  | .upsertRoot row => some row
  | _ => none

def nullifierOf : WriteEvent → Option NullifierRow
  | .insertNullifier row => some row
  | _ => none

/-- **Each table** is what its own statements make of it. -/
theorem tables_foldl (es : List WriteEvent) (st : Store) :
    (es.foldl Store.apply st).denominations = (es.filterMap denominationOf).foldl
        (upsert DenominationEntry.denomId mergeDenomination) st.denominations ∧
    (es.foldl Store.apply st).roots =
      (es.filterMap rootOf).foldl (upsert RootEntry.key mergeRoot) st.roots ∧
    (es.foldl Store.apply st).nullifiers =
      (es.filterMap nullifierOf).foldl (upsert NullifierRow.key mergeNullifier) st.nullifiers := by
  induction es generalizing st with
  | nil => exact ⟨rfl, rfl, rfl⟩
  | cons e es ih =>
      rw [List.foldl_cons]
      obtain ⟨hdenominations, hroots, hnullifiers⟩ := ih (st.apply e)
      rw [hdenominations, hroots, hnullifiers]
      cases e <;> exact ⟨rfl, rfl, rfl⟩

/-- The rows of the events of one kind. -/
theorem mem_filterMap_iff {α : Type} {of : WriteEvent → Option α} {event : α → WriteEvent}
    (h : ∀ e row, of e = some row ↔ e = event row) {es : List WriteEvent} {row : α} :
    row ∈ es.filterMap of ↔ event row ∈ es := by
  rw [List.mem_filterMap]
  constructor
  · rintro ⟨e, he, hrow⟩
    exact (h e row).mp hrow ▸ he
  · exact fun he => ⟨_, he, (h _ row).mpr rfl⟩

theorem denominationOf_eq_some (e : WriteEvent) (row : DenominationEntry) :
    denominationOf e = some row ↔ e = .upsertDenomination row := by
  cases e <;> simp [denominationOf]

theorem rootOf_eq_some (e : WriteEvent) (row : RootEntry) :
    rootOf e = some row ↔ e = .upsertRoot row := by
  cases e <;> simp [rootOf]

theorem nullifierOf_eq_some (e : WriteEvent) (row : NullifierRow) :
    nullifierOf e = some row ↔ e = .insertNullifier row := by
  cases e <;> simp [nullifierOf]

/-- The accounts that a log has written, with the slots. -/
def Wrote (log : List (FeedEvent env)) (a : PoolAccount) (slot : ℕ) : Prop :=
  ∃ w, FeedEvent.wrote w a slot ∈ log

/-- Of plain accounts it does not matter who writes. -/
theorem mem_writesOf {log : List (FeedEvent env)}
    (hplain : ∀ a slot, Wrote log a slot → Plain a) {e : WriteEvent} :
    e ∈ writesOf log ↔ ∃ a slot, Wrote log a slot ∧ Writer.poller.eventOf slot a = some e := by
  have hevent : ∀ w a slot, .wrote w a slot ∈ log →
      w.eventOf slot a = Writer.poller.eventOf slot a := by
    intro w a slot hmem
    have hagree := (event_plain slot a).mpr (hplain a slot ⟨w, hmem⟩)
    rw [event_data, event_data] at hagree
    cases w with
    | plugin => exact hagree
    | poller => rfl
  rw [writesOf, List.mem_filterMap]
  constructor
  · rintro ⟨c, hc, he⟩
    cases c with
    | chain a => cases he
    | wrote w a slot => exact ⟨a, slot, ⟨w, hc⟩, (hevent w a slot hc).symm.trans he⟩
  · rintro ⟨a, slot, ⟨w, hmem⟩, he⟩
    exact ⟨_, hmem, (hevent w a slot hmem).trans he⟩

theorem FedOk.agreed {log : List (FeedEvent env)} {st : Fed} (h : FedOk log st)
    (hplain : ∀ a slot, Wrote log a slot → Plain a) :
    ∀ e ∈ writesOf log, Agreed env (chainOf log) e := by
  intro e he
  obtain ⟨a, slot, ⟨w, hmem⟩, he⟩ := (mem_writesOf hplain).mp he
  obtain ⟨log₁, log₂, s, hlog, hrun, ha⟩ := h.wrote w a slot hmem
  have hall := h.run
  rw [hlog] at hall ⊢
  exact agreed_of_hasAccount hall hrun ha (hplain a slot ⟨w, hmem⟩) he

/-- **The tables converge.**  Two indexers of one chain that have written the same accounts hold the
same roots and the same nullifiers, whichever writer it was, in whatever order and how often; and
the same denominations, but for the deposit count, which is that of the last statement. -/
theorem feeds_converge {log log' : List (FeedEvent env)} {st st' : Fed} (h : FeedRun env log st)
    (h' : FeedRun env log' st') (hchain : chainOf log = chainOf log')
    (hplain : ∀ a slot, Wrote log a slot → Plain a)
    (hsame : ∀ a slot, Wrote log a slot ↔ Wrote log' a slot) :
    st.store.roots.Perm st'.store.roots ∧
    st.store.nullifiers.Perm st'.store.nullifiers ∧
    (st.store.denominations.map settled).Perm (st'.store.denominations.map settled) := by
  have hok := fedOk_of_run h
  have hok' := fedOk_of_run h'
  have hplain' : ∀ a slot, Wrote log' a slot → Plain a :=
    fun a slot hw => hplain a slot ((hsame a slot).mpr hw)
  have hagreed := hok.agreed hplain
  have hagreed' : ∀ e ∈ writesOf log', Agreed env (chainOf log) e := hchain ▸ hok'.agreed hplain'
  have hevents : ∀ e, e ∈ writesOf log ↔ e ∈ writesOf log' := by
    intro e
    rw [mem_writesOf hplain, mem_writesOf hplain']
    simp only [hsame]
  rw [hok.store, hok'.store]
  obtain ⟨hdenominations, hroots, hnullifiers⟩ := tables_foldl (writesOf log) Store.empty
  obtain ⟨hdenominations', hroots', hnullifiers'⟩ := tables_foldl (writesOf log') Store.empty
  rw [hdenominations, hroots, hnullifiers, hdenominations', hroots', hnullifiers']
  have hrows : ∀ {α : Type} {of : WriteEvent → Option α} {event : α → WriteEvent},
      (∀ e row, of e = some row ↔ e = event row) →
      ∀ row, row ∈ (writesOf log).filterMap of ↔ row ∈ (writesOf log').filterMap of := by
    intro α of event h row
    rw [mem_filterMap_iff h, mem_filterMap_iff h, hevents]
  refine ⟨?_, ?_, ?_⟩
  · refine perm_of_same (joins_root env (chainOf log)) (fun row hrow => ?_) (fun row hrow => ?_)
      (hrows rootOf_eq_some)
    · exact hagreed _ ((mem_filterMap_iff rootOf_eq_some).mp hrow)
    · exact hagreed' _ ((mem_filterMap_iff rootOf_eq_some).mp hrow)
  · refine perm_of_same (joins_nullifier (chainOf log)) (fun row hrow => ?_) (fun row hrow => ?_)
      (hrows nullifierOf_eq_some)
    · exact hagreed _ ((mem_filterMap_iff nullifierOf_eq_some).mp hrow)
    · exact hagreed' _ ((mem_filterMap_iff nullifierOf_eq_some).mp hrow)
  · have hkey : ∀ r, DenominationEntry.denomId (settled r) = r.denomId := fun _ => rfl
    have hmerge : ∀ a b, a.denomId = b.denomId →
        settled (mergeDenomination a b) = mergeDenomination (settled a) (settled b) :=
      fun _ _ _ => rfl
    have hview := fun rows => map_foldl_upsert hkey hmerge rows Store.empty.denominations
    rw [hview, hview]
    refine perm_of_same (joins_denomination env (chainOf log)) (fun row hrow => ?_)
      (fun row hrow => ?_) fun row => ?_
    · obtain ⟨row', hrow', rfl⟩ := List.mem_map.mp hrow
      exact ⟨hagreed _ ((mem_filterMap_iff denominationOf_eq_some).mp hrow'), rfl⟩
    · obtain ⟨row', hrow', rfl⟩ := List.mem_map.mp hrow
      exact ⟨hagreed' _ ((mem_filterMap_iff denominationOf_eq_some).mp hrow'), rfl⟩
    · simp only [List.mem_map, hrows denominationOf_eq_some]

/-! ### Two writers -/

/-- A run of the program before anything is written. -/
theorem exists_fed {log : List (Action env)} {s : PoolState} (h : PoolRun env log s) :
    ∃ st, FeedRun env (log.map .chain) st ∧ st.chain = s ∧ s ∈ st.past ∧
      st.store = Store.empty := by
  induction h with
  | @start s h =>
      exact ⟨⟨s, [s], Store.empty⟩, .start ⟨h, rfl, rfl⟩, rfl, List.mem_singleton_self s, rfl⟩
  | @snoc log s s' a h hs ih =>
      obtain ⟨st, hrun, rfl, -, hstore⟩ := ih
      refine ⟨{ st with chain := s', past := s' :: st.past }, ?_, rfl, List.mem_cons_self, hstore⟩
      rw [List.map_append]
      exact hrun.snoc (.chain hs)

theorem fits_whole (w : Writer) {n : UInt64} (h : n.toNat < 2 ^ 63) : Fits (w.whole n) := by
  cases w with
  | plugin => exact fits_asI64 n
  | poller =>
      show -2 ^ 63 ≤ (n.toNat : ℤ) ∧ (n.toNat : ℤ) < 2 ^ 63
      omega

variable {P : Poseidon} {log : List (Action (ideal P))} {s : PoolState} {xs : List F}
  {config : PoolConfig} {denomination : Denomination} {tree : MerkleTree}

/-- A statement that the store accepts. -/
theorem FeedStep.accepted {st : Fed} {s : PoolState} {w : Writer} {a : PoolAccount} {slot : ℕ}
    {e : WriteEvent} (hs : s ∈ st.past) (ha : HasAccount s a) (he : w.eventOf slot a = some e)
    (hok : st.store.accepts e) :
    FeedStep env st (.wrote w a slot) { st with store := st.store.apply e } :=
  .write hs ha ((event_data w slot a).trans he) (Store.handleEvent_of_accepts hok)

/-- Its accounts have plain numbers. -/
theorem plain_launched (hl : Launched P log s xs config denomination tree)
    (hlen : xs.length ≤ 2 ^ MERKLE_DEPTH) :
    denomination.denomId = 0 ∧ Plain (.denomination denomination) ∧
      tree.nextLeafIndex.toNat < 2 ^ 63 := by
  have hcap : 2 ^ MERKLE_DEPTH < 2 ^ 63 := by decide
  obtain ⟨_, hheld⟩ := (poolInv_of_run hl.run).held hl.denomination_eq
  have hcount : denomination.depositCount.toNat ≤ xs.length := by
    rw [hheld.count, hl.history_eq]
    exact List.countP_le_length.trans_eq (List.length_map _)
  have hleaves : tree.nextLeafIndex.toNat = xs.length := by
    rw [hl.tracks.count, leaves_depositEntries]
  refine ⟨?_, ⟨?_, by omega⟩, by omega⟩
  · rcases denomination_of_run hl.run 0 with ⟨-, hnone⟩ | ⟨_, x, -, hsome, hid, -⟩
    · rw [hl.denomination_eq] at hnone
      cases hnone
    · rw [hl.denomination_eq] at hsome
      cases hsome
      exact hid
  · rw [hl.amount]
    decide

/-- After the program one writer writes the denomination, and others its tree. -/
def indexed (log : List (Action env)) (denomination : Denomination) (tree : MerkleTree) (w : Writer)
    (ws : List Writer) : List (FeedEvent env) :=
  (log.map .chain ++ [.wrote w (.denomination denomination) 1]) ++
    ws.map fun w => .wrote w (.tree tree) 2

theorem chainOf_indexed (log : List (Action env)) (denomination : Denomination) (tree : MerkleTree)
    (w : Writer) (ws : List Writer) : chainOf (indexed log denomination tree w ws) = log := by
  have htrees : chainOf (ws.map fun w => FeedEvent.wrote w (.tree tree) 2 : List (FeedEvent env)) =
      [] := by
    rw [chainOf, List.filterMap_map, List.filterMap_eq_nil_iff]
    exact fun _ _ => rfl
  have hlog : chainOf (log.map .chain) = log := by
    rw [chainOf, List.filterMap_map]
    exact List.filterMap_some
  rw [indexed, chainOf_append, chainOf_append, htrees, hlog]
  exact (List.append_nil _).trans (List.append_nil _)

theorem wrote_indexed (log : List (Action env)) (denomination : Denomination) (tree : MerkleTree)
    (w : Writer) {ws : List Writer} (hws : ws ≠ []) {a : PoolAccount} {slot : ℕ} :
    Wrote (indexed log denomination tree w ws) a slot ↔
      (a = .denomination denomination ∧ slot = 1) ∨ (a = .tree tree ∧ slot = 2) := by
  obtain ⟨w₀, hw₀⟩ := List.exists_mem_of_ne_nil ws hws
  constructor
  · rintro ⟨w', hmem⟩
    rcases List.mem_append.mp hmem with hmem | hmem
    · rcases List.mem_append.mp hmem with hmem | hmem
      · obtain ⟨_, -, heq⟩ := List.mem_map.mp hmem
        cases heq
      · cases List.mem_singleton.mp hmem
        exact .inl ⟨rfl, rfl⟩
    · obtain ⟨_, -, heq⟩ := List.mem_map.mp hmem
      cases heq
      exact .inr ⟨rfl, rfl⟩
  · rintro (⟨rfl, rfl⟩ | ⟨rfl, rfl⟩)
    · exact ⟨w, List.mem_append_left _ (List.mem_append_right _ (List.mem_singleton_self _))⟩
    · exact ⟨w₀, List.mem_append_right _ (List.mem_map.mpr ⟨w₀, hw₀, rfl⟩)⟩

/-- There is such a run. -/
theorem exists_indexed (hl : Launched P log s xs config denomination tree)
    (hlen : xs.length ≤ 2 ^ MERKLE_DEPTH) (w : Writer) (ws : List Writer) :
    ∃ st, FeedRun (ideal P) (indexed log denomination tree w ws) st ∧ s ∈ st.past ∧
      st.store.hasDenomination 0 := by
  obtain ⟨hid, ⟨hamount, hcount⟩, htree⟩ := plain_launched hl hlen
  induction ws using List.reverseRecOn with
  | nil =>
      obtain ⟨st, hrun, -, hpast, hstore⟩ := exists_fed hl.run
      have hstep : FeedStep (ideal P) st (.wrote w (.denomination denomination) 1) _ :=
        .accepted hpast ⟨0, hl.denomination_eq⟩ rfl ⟨fits_whole w hamount, fits_whole w hcount⟩
      rw [hstore] at hstep
      rw [indexed, List.map_nil, List.append_nil]
      exact ⟨_, hrun.snoc hstep, hpast, List.mem_singleton.mpr hid.symm⟩
  | append_singleton ws w' ih =>
      obtain ⟨st, hrun, hpast, hdenom⟩ := ih
      have hroot : w'.eventOf 2 (.tree tree) = some (.upsertRoot
          ⟨tree.denomId, w'.whole tree.nextLeafIndex,
            writtenRoot P (leaves (depositEntries xs)), 2⟩) := by
        rw [Writer.eventOf, latestRoot_eq hl.tracks]
        rfl
      have hname := treesNamed_of_run hl.run 0 tree hl.tree_eq
      have hstep : FeedStep (ideal P) st (.wrote w' (.tree tree) 2) _ :=
        .accepted hpast ⟨0, hl.tree_eq⟩ hroot ⟨fits_whole w' htree, hname ▸ hdenom⟩
      rw [indexed, List.map_append, ← List.append_assoc]
      exact ⟨_, hrun.snoc hstep, hpast, hdenom⟩

/-- The plugin alone, and the poller with the plugin. -/
theorem feeds_converge_two : ∃ (log log' : List (FeedEvent (ideal circom))) (st st' : Fed),
    FeedRun (ideal circom) log st ∧ FeedRun (ideal circom) log' st' ∧
      log.length + 2 = log'.length ∧ st.store.roots.Perm st'.store.roots := by
  obtain ⟨log, s, config, denomination, tree, hl⟩ := exists_launched circom [1] (by decide)
  obtain ⟨st, hrun, -⟩ := exists_indexed hl (by decide) .plugin [.plugin]
  obtain ⟨st', hrun', -⟩ := exists_indexed hl (by decide) .poller [.poller, .plugin, .poller]
  obtain ⟨-, hplain, htree⟩ := plain_launched hl (by decide)
  refine ⟨_, _, st, st', hrun, hrun', by simp [indexed], (feeds_converge hrun hrun' ?_ ?_ ?_).1⟩
  · rw [chainOf_indexed, chainOf_indexed]
  · intro a slot hw
    rcases (wrote_indexed log denomination tree _ (by simp)).mp hw with ⟨rfl, -⟩ | ⟨rfl, -⟩
    · exact hplain
    · exact fun _ => htree
  · intro a slot
    rw [wrote_indexed log denomination tree _ (by simp),
      wrote_indexed log denomination tree _ (by simp)]

end Qietr.Indexer
