import Qietr.Indexer.Store
import Qietr.Library.LossyQueue

/-!
# Indexer — the plugin's queue

`lib.rs` and `writer.rs` with their threads: the validator calls the plugin, each call puts its
events into a bounded queue, and a worker writes them to the database.  A full queue drops an event,
and a statement that fails is not tried again.

* `Callback`, `Callback.run`: what a call does to the cache, and the events that it puts.
* `Plugged`, `WriterStep`, `WriterRun`: the plugin with its queue.
* `seen d log`: the tree and the deposits of a denomination, as they are called.
* `leaves_emitted`: the leaves that are put have the positions of the calls.
* `rows_of_run`: the rows are the first leaves that were written of each position.
* `queue_never_misplaces`: a drop leaves a gap, and moves no leaf.
-/

namespace Qietr.Indexer

open Dedup LossyQueue Pool

variable {env : PoolEnv} {programId : Pubkey} {d : UInt8}

def QUEUE_CAPACITY : ℕ := 16384

/-! ### Calls -/

/-- The next index of each denomination, as last seen. -/
abbrev LeafIndexCache : Type :=
  UInt8 → Option UInt64

/-- What the validator calls the plugin with. -/
inductive Callback where
  | updateAccount (owner : Pubkey) (data : List UInt8) (slot : ℕ)
  /-- One of the pool's instructions of a transaction. -/
  | handlePoolIx (data : List UInt8) (slot : ℕ) (signature : String)
  | updateSlotStatus (slot : ℕ) (rooted : Bool)

/-- The cache after an account of the program. -/
def cacheAfter (cache : LeafIndexCache) (data : List UInt8) : LeafIndexCache :=
  if accountKind data = some .merkleTree then
    match Plugin.decodeMerkleTree data with
    | some tree => Function.update cache tree.denomId (some tree.nextLeafIndex)
    | none => cache
  else cache

/-- **A call**: the cache that it leaves, and the events that it puts. -/
def Callback.run (programId : Pubkey) (cache : LeafIndexCache) :
    Callback → LeafIndexCache × List WriteEvent
  | .updateAccount owner data slot =>
      if owner ≠ programId then (cache, [])
      else (cacheAfter cache data, (Plugin.accountEvent data slot).toList)
  | .handlePoolIx data slot signature =>
      if data.length < 8 then (cache, [])
      else if data.take 8 = DEPOSIT_DISC then
        if data.length < 8 + 1 + 32 then (cache, [])
        else
          let denomId := data.getD 8 0
          let commitmentBe := dataBytes 32 data 9
          let leafIndex := (cache denomId).getD 0
          (Function.update cache denomId (some (saturatingSucc leafIndex)),
            [.insertCommitment
              { denomId, leafIndex := asI64 leafIndex, commitmentBe, insertedSlot := slot },
              .checkpoint slot (some signature)])
      else (cache, [])
  | .updateSlotStatus slot rooted => (cache, if rooted then [.checkpoint slot none] else [])

/-! ### Runs -/

/-- The plugin with its queue. -/
structure Plugged where
  cache : LeafIndexCache
  writer : State WriteEvent Store

inductive WriterEvent where
  | called (cb : Callback) (es : List WriteEvent)
  | moved (l : Label WriteEvent)

/-- What a step is to the queue. -/
def WriterEvent.label : WriterEvent → Label WriteEvent
  | called _ es => .emit es
  | moved l => l

/-- **One step**: a call, or the queue's. -/
inductive WriterStep (programId : Pubkey) : Plugged → WriterEvent → Plugged → Prop
  | called {st : Plugged} {cb : Callback} {cache : LeafIndexCache} {es : List WriteEvent}
      (h : cb.run programId st.cache = (cache, es)) :
      WriterStep programId st (.called cb es)
        ⟨cache, { st.writer with pending := es :: st.writer.pending }⟩
  | moved {st : Plugged} {l : Label WriteEvent} {writer : State WriteEvent Store}
      (h : Step QUEUE_CAPACITY Store.handleEvent st.writer l writer) (hl : l.puts = []) :
      WriterStep programId st (.moved l) { st with writer }

/-- Runs of a plugin that was just loaded. -/
def WriterRun (programId : Pubkey) : List WriterEvent → Plugged → Prop :=
  Run (fun st => st.cache = (fun _ => none) ∧ Start (· = Store.empty) st.writer)
    (WriterStep programId)

/-- What the queue has done. -/
def labels (log : List WriterEvent) : List (Label WriteEvent) :=
  log.map WriterEvent.label

variable {log : List WriterEvent} {st : Plugged}

/-- **The queue of a run** is a run of the queue. -/
theorem queueRun_of_run (h : WriterRun programId log st) :
    Run (Start (· = Store.empty)) (Step QUEUE_CAPACITY Store.handleEvent) (labels log)
      st.writer := by
  refine h.invariant (fun log st => Run (Start (· = Store.empty))
    (Step QUEUE_CAPACITY Store.handleEvent) (labels log) st.writer) (fun st hst => .start hst.2)
    fun log st e st' _ hrun hstep => ?_
  rw [labels, List.map_append]
  cases hstep with
  | called hcb => exact hrun.snoc (.emit _)
  | moved hmove => exact hrun.snoc hmove

/-! ### What is seen of a denomination -/

/-- What a call says of the tree of `d`. -/
def Callback.treeEvents (programId : Pubkey) (d : UInt8) : Callback → List TreeEvent
  | .updateAccount owner data _ =>
      if owner = programId ∧ accountKind data = some .merkleTree then
        match Plugin.decodeMerkleTree data with
        | some tree => if tree.denomId = d then [.update tree.nextLeafIndex] else []
        | none => []
      else []
  | .handlePoolIx data _ _ =>
      match parseDepositIx data with
      | some (denomId, commitment) => if denomId = d then [.deposit commitment] else []
      | none => []
  | .updateSlotStatus _ _ => []

/-- What the calls of a log say of it. -/
def seen (programId : Pubkey) (d : UInt8) (log : List WriterEvent) : List TreeEvent :=
  log.flatMap fun e => match e with
    | .called cb _ => cb.treeEvents programId d
    | .moved _ => []

/-- The leaf of `d` that an event writes. -/
def leafOf (d : UInt8) : WriteEvent → Option (ℤ × Bytes32)
  | .insertCommitment row => if row.denomId = d then some row.leaf else none
  | _ => none

/-- What `handle_pool_ix` does, of what it parses. -/
theorem run_handlePoolIx (cache : LeafIndexCache) (data : List UInt8) (slot : ℕ)
    (signature : String) : (Callback.handlePoolIx data slot signature).run programId cache =
      match parseDepositIx data with
      | none => (cache, [])
      | some (denomId, commitmentBe) =>
          let leafIndex := (cache denomId).getD 0
          (Function.update cache denomId (some (saturatingSucc leafIndex)),
            [.insertCommitment
              { denomId, leafIndex := asI64 leafIndex, commitmentBe, insertedSlot := slot },
              .checkpoint slot (some signature)]) := by
  rw [Callback.run, parseDepositIx]
  by_cases hlen : data.length < 8 + 1 + 32
  · rw [if_pos hlen, if_pos hlen, ite_self, ite_self]
  · have hlen' : ¬ data.length < 8 := by omega
    rw [if_neg hlen, if_neg hlen, if_neg hlen']
    by_cases hdisc : data.take 8 = DEPOSIT_DISC
    · rw [if_pos hdisc, if_neg (not_not.mpr hdisc)]
    · rw [if_neg hdisc, if_pos hdisc]

/-- An account writes no leaf. -/
theorem leafOf_accountEvent (data : List UInt8) (slot : ℕ) :
    (Plugin.accountEvent data slot).toList.filterMap (leafOf d) = [] := by
  rw [Plugin.accountEvent]
  split
  · cases Plugin.decodeDenomination data <;> rfl
  · cases Plugin.decodeMerkleTree data with
    | none => rfl
    | some tree =>
        rw [Option.bind_some]
        cases Plugin.latestRoot tree <;> rfl
  · cases Plugin.decodeNullifierRecord data <;> rfl
  · rfl

/-- **A call** moves the cache and puts the leaf as the tree's events say. -/
theorem run_treeEvents (cb : Callback) {cache cache' : LeafIndexCache} {es : List WriteEvent}
    (h : cb.run programId cache = (cache', es)) (d : UInt8) :
    (cache' d).getD 0 = nextAfter ((cache d).getD 0) (cb.treeEvents programId d) ∧
      es.filterMap (leafOf d) = positions ((cache d).getD 0) (cb.treeEvents programId d) := by
  cases cb with
  | updateAccount owner data slot =>
      rw [Callback.run] at h
      split at h
      case isTrue hne =>
        cases h
        rw [Callback.treeEvents, if_neg fun hand => hne hand.1]
        exact ⟨rfl, rfl⟩
      case isFalse howner =>
        cases h
        rw [leafOf_accountEvent, Callback.treeEvents, cacheAfter]
        by_cases hkind : accountKind data = some .merkleTree
        · rw [if_pos hkind, if_pos ⟨not_not.mp howner, hkind⟩]
          cases Plugin.decodeMerkleTree data with
          | none => exact ⟨rfl, rfl⟩
          | some tree =>
              by_cases hd : tree.denomId = d
              · subst hd
                simp [nextAfter, positions]
              · simp [hd, nextAfter, positions, Function.update_of_ne (Ne.symm hd)]
        · rw [if_neg hkind, if_neg fun hand => hkind hand.2]
          exact ⟨rfl, rfl⟩
  | handlePoolIx data slot signature =>
      rw [run_handlePoolIx] at h
      rw [Callback.treeEvents]
      cases hparse : parseDepositIx data with
      | none =>
          rw [hparse] at h
          cases h
          exact ⟨rfl, rfl⟩
      | some deposit =>
          rw [hparse] at h
          cases h
          by_cases hd : deposit.1 = d
          · subst hd
            simp [nextAfter, positions, leafOf, CommitmentRow.leaf, asI64]
          · simp [hd, nextAfter, positions, leafOf, Function.update_of_ne (Ne.symm hd)]
  | updateSlotStatus slot rooted =>
      cases h
      cases rooted <;> exact ⟨rfl, rfl⟩

theorem seen_append (d : UInt8) (log log' : List WriterEvent) :
    seen programId d (log ++ log') = seen programId d log ++ seen programId d log' :=
  List.flatMap_append

/-- **The leaves that are put** have the positions of the calls, whatever becomes of them. -/
theorem leaves_emitted (h : WriterRun programId log st) (d : UInt8) :
    (st.cache d).getD 0 = nextAfter 0 (seen programId d log) ∧
      (emitted (labels log)).filterMap (leafOf d) = positions 0 (seen programId d log) := by
  refine h.invariant (fun log st => (st.cache d).getD 0 = nextAfter 0 (seen programId d log) ∧
    (emitted (labels log)).filterMap (leafOf d) = positions 0 (seen programId d log))
    (fun st hst => ?_) fun log st e st' _ hinv hstep => ?_
  · rw [hst.1]
    exact ⟨rfl, rfl⟩
  · obtain ⟨hcache, hleaves⟩ := hinv
    rw [labels, List.map_append, List.map_singleton, emitted_snoc, ← labels, List.filterMap_append,
      hleaves, seen_append, positions_append]
    cases hstep with
    | @called cb cache es hcb =>
        obtain ⟨hnext, hput⟩ := run_treeEvents cb hcb d
        have hseen : seen programId d [.called cb es] = cb.treeEvents programId d :=
          List.flatMap_singleton ..
        rw [hseen]
        refine ⟨?_, ?_⟩
        · rw [hnext, hcache, nextAfter, nextAfter, nextAfter, List.foldl_append]
        · exact congrArg _ (hput.trans (congrArg (positions · _) hcache))
    | @moved l writer hmove hl =>
        have hseen : seen programId d [.moved l] = [] := rfl
        rw [hseen, List.append_nil, WriterEvent.label, hl]
        exact ⟨hcache, rfl⟩

/-! ### The rows -/

theorem leaves_foldl (es : List WriteEvent) (s : Store) (d : UInt8) :
    ((es.foldl Store.apply s).db.rowsOf d).map CommitmentRow.leaf =
      (es.filterMap (leafOf d)).foldl (addKey Prod.fst)
      ((s.db.rowsOf d).map CommitmentRow.leaf) := by
  induction es generalizing s with
  | nil => rfl
  | cons e es ih =>
      rw [List.foldl_cons, ih]
      cases e with
      | upsertDenomination | upsertRoot | insertNullifier | checkpoint => rfl
      | insertCommitment row =>
          by_cases hd : row.denomId = d
          · subst hd
            have hleaf : leafOf row.denomId (.insertCommitment row) = some row.leaf := if_pos rfl
            have hrow : ((s.apply (.insertCommitment row)).db.rowsOf row.denomId).map
                CommitmentRow.leaf =
                addKey Prod.fst ((s.db.rowsOf row.denomId).map CommitmentRow.leaf) row.leaf :=
              Db.map_leaf_insertCommitment s.db row
            rw [List.filterMap_cons_some hleaf, List.foldl_cons, hrow]
          · have hleaf : leafOf d (.insertCommitment row) = none := if_neg hd
            have hrows : (s.apply (.insertCommitment row)).db.rowsOf d = s.db.rowsOf d :=
              Db.rowsOf_insertCommitment hd
            rw [List.filterMap_cons_none hleaf, hrows]

/-- **The rows** are the first leaves that were written of each position. -/
theorem rows_of_run (h : WriterRun programId log st) (d : UInt8) :
    (st.writer.handler.db.rowsOf d).map CommitmentRow.leaf =
      firstsBy Prod.fst ((handled (labels log)).filterMap (leafOf d)) := by
  obtain ⟨s, rfl, hfold⟩ := state_of_run (queueRun_of_run h)
  rw [foldl_of_foldlM hfold, leaves_foldl]
  rfl

/-- **A drop leaves a gap, and moves no leaf.**  The queue is bounded, and each event that is put is
to come, in the queue, written or lost, and only one of these.  Of a denomination whose deposits are
called in order every row is the leaf of its index, whatever was lost; and once all is quiet, if
nothing was, the rows are the tree. -/
theorem queue_never_misplaces (h : WriterRun programId log st) (d : UInt8) :
    st.writer.queue.length ≤ QUEUE_CAPACITY ∧
    (emitted (labels log)).Perm (st.writer.pending.flatten ++
      (st.writer.queue ++ (handled (labels log) ++ lost (labels log)))) ∧
    ∀ xs, InOrder (seen programId d log) xs → xs.length ≤ 2 ^ MERKLE_DEPTH →
      (∀ leaf ∈ st.writer.handler.db.tree d, leaf ∈ numbered xs) ∧
      (st.writer.pending.flatten = [] → st.writer.queue = [] → lost (labels log) = [] →
        st.writer.handler.db.tree d = numbered xs) := by
  have hqueue := queueRun_of_run h
  refine ⟨length_queue_le hqueue, accounted hqueue, fun xs horder hlen => ?_⟩
  have hput : (emitted (labels log)).filterMap (leafOf d) = numbered xs :=
    (leaves_emitted h d).2.trans (horder.positions_eq hlen).1
  have hwritten : ∀ leaf ∈ (handled (labels log)).filterMap (leafOf d), leaf ∈ numbered xs := by
    intro leaf hleaf
    obtain ⟨e, he, heq⟩ := List.mem_filterMap.mp hleaf
    rw [← hput]
    exact List.mem_filterMap.mpr ⟨e, mem_emitted_of_handled hqueue he, heq⟩
  have hrows : ∀ leaf ∈ (st.writer.handler.db.rowsOf d).map CommitmentRow.leaf,
      leaf ∈ numbered xs := by
    intro leaf hleaf
    rw [rows_of_run h] at hleaf
    exact hwritten leaf (List.mem_of_find?_eq_some (mem_firstsBy.mp hleaf))
  refine ⟨fun leaf hleaf => ?_, fun hpending hempty hlost => ?_⟩
  · exact hrows leaf (((List.mergeSort_perm ..).map _).mem_iff.mp hleaf)
  · have hperm := (handled_perm hqueue hpending hempty hlost).filterMap (leafOf d)
    rw [hput] at hperm
    have hnodup : (((handled (labels log)).filterMap (leafOf d)).map Prod.fst).Nodup :=
      (hperm.map Prod.fst).nodup_iff.mp (nodup_numbered xs)
    have hall := rows_of_run h d
    rw [firstsBy_eq_self hnodup] at hall
    refine (Db.tree_eq_iff ?_).mpr fun leaf => ?_
    · have hfst := congrArg (List.map Prod.fst) hall
      rw [List.map_map] at hfst
      exact hfst ▸ hnodup
    · rw [hall]
      exact hperm.mem_iff.symm

/-! ### A deposit that is lost, and one that is not -/

theorem lost_append (log log' : List WriterEvent) :
    LossyQueue.lost (labels (log ++ log')) =
      LossyQueue.lost (labels log) ++ LossyQueue.lost (labels log') := by
  rw [labels, List.map_append, LossyQueue.lost, List.flatMap_append]
  rfl

variable {cache cache' : LeafIndexCache} {pending : List (List WriteEvent)} {s s' : Store}
  {es : List WriteEvent}

/-- Events whose statements succeed are put and written, one after the other. -/
theorem exists_drained (h : WriterRun programId log ⟨cache, es :: pending, [], s⟩)
    (hok : es.foldlM Store.handleEvent s = some s') :
    ∃ log', WriterRun programId (log ++ log') ⟨cache, [] :: pending, [], s'⟩ ∧
      lost (labels log') = [] ∧ ∀ d, seen programId d log' = [] := by
  induction es generalizing log s with
  | nil =>
      obtain rfl := Option.some.inj hok
      exact ⟨[], by rwa [List.append_nil], rfl, fun _ => rfl⟩
  | cons e es ih =>
      rw [List.foldlM_cons] at hok
      obtain ⟨s₁, hs₁, hok⟩ := Option.bind_eq_some_iff.mp hok
      have hsend : WriterStep programId ⟨cache, (e :: es) :: pending, [], s⟩ (.moved (.send e)) _ :=
        .moved (.send_first (by decide)) rfl
      have hhandle : WriterStep programId ⟨cache, es :: pending, [e], s⟩ (.moved (.handle e)) _ :=
        .moved (.handle rfl hs₁) rfl
      obtain ⟨log', hrun, hlost, hseen⟩ := ih ((h.snoc hsend).snoc hhandle) hok
      rw [List.append_assoc, List.append_assoc] at hrun
      exact ⟨_, hrun, hlost, hseen⟩

/-- A call whose statements succeed is served. -/
theorem exists_served {cb : Callback} (h : WriterRun programId log ⟨cache, pending, [], s⟩)
    (hcb : cb.run programId cache = (cache', es))
    (hok : es.foldlM Store.handleEvent s = some s') :
    ∃ log', WriterRun programId (log ++ log') ⟨cache', [] :: pending, [], s'⟩ ∧
      lost (labels log') = [] ∧ ∀ d, seen programId d log' = cb.treeEvents programId d := by
  have hcalled : WriterStep programId ⟨cache, pending, [], s⟩ (.called cb es) _ := .called hcb
  obtain ⟨log', hrun, hlost, hseen⟩ := exists_drained (h.snoc hcalled) hok
  rw [List.append_assoc] at hrun
  refine ⟨_, hrun, hlost, fun d => ?_⟩
  rw [seen_append, hseen, List.append_nil]
  exact List.flatMap_singleton ..

/-- Slots fill the queue while nothing is written. -/
theorem exists_filled (h : WriterRun programId log ⟨cache, pending, [], s⟩) {n : ℕ}
    (hn : n ≤ QUEUE_CAPACITY) :
    ∃ log' pending', WriterRun programId (log ++ log')
        ⟨cache, pending', List.replicate n (.checkpoint 1 none), s⟩ ∧
      ∀ d, seen programId d log' = [] := by
  induction n with
  | zero => exact ⟨[], pending, by rwa [List.append_nil], fun _ => rfl⟩
  | succ n ih =>
      obtain ⟨log', pending', hrun, hseen⟩ := ih (Nat.le_of_succ_le hn)
      -- a slot that is rooted puts a checkpoint
      have hslot := hrun.snoc (.called
        (show (Callback.updateSlotStatus 1 true).run programId cache = (cache, _) from rfl))
      have hroom : (List.replicate n (WriteEvent.checkpoint 1 none)).length < QUEUE_CAPACITY := by
        rwa [List.length_replicate]
      have hsent := hslot.snoc (.moved (.send
        (show _ = [] ++ (WriteEvent.checkpoint 1 none :: []) :: pending' from rfl) hroom) rfl)
      rw [List.append_assoc, List.append_assoc] at hsent
      refine ⟨_, _, List.replicate_succ' ▸ hsent, fun d => ?_⟩
      rw [seen_append, hseen]
      rfl

/-- What is in the queue may fail. -/
theorem exists_failed {queue : List WriteEvent}
    (h : WriterRun programId log ⟨cache, pending, queue, s⟩) :
    ∃ log', WriterRun programId (log ++ log') ⟨cache, pending, [], s⟩ ∧
      ∀ d, seen programId d log' = [] := by
  induction queue generalizing log with
  | nil => exact ⟨[], by rwa [List.append_nil], fun _ => rfl⟩
  | cons e queue ih =>
      obtain ⟨log', hrun, hseen⟩ := ih (h.snoc (.moved (.fail rfl) rfl))
      rw [List.append_assoc] at hrun
      exact ⟨_, hrun, hseen⟩

/-- A call that finds the queue full loses what it puts. -/
theorem exists_lost {cb : Callback} {queue : List WriteEvent}
    (hfull : QUEUE_CAPACITY ≤ queue.length)
    (h : WriterRun programId log ⟨cache, pending, queue, s⟩)
    (hcb : cb.run programId cache = (cache', es)) :
    ∃ log', WriterRun programId (log ++ log') ⟨cache', [] :: pending, queue, s⟩ ∧
      lost (labels log') = es ∧ ∀ d, seen programId d log' = cb.treeEvents programId d := by
  have hdrops : ∀ (es : List WriteEvent) {log : List WriterEvent},
      WriterRun programId log ⟨cache', es :: pending, queue, s⟩ →
      ∃ log', WriterRun programId (log ++ log') ⟨cache', [] :: pending, queue, s⟩ ∧
        lost (labels log') = es ∧ ∀ d, seen programId d log' = [] := by
    intro es
    induction es with
    | nil => exact fun h => ⟨[], by rwa [List.append_nil], rfl, fun _ => rfl⟩
    | cons e es ih =>
        intro log h
        obtain ⟨log', hrun, hlost, hseen⟩ :=
          ih (h.snoc (.moved (.drop (show _ = [] ++ (e :: es) :: pending from rfl) hfull) rfl))
        rw [List.append_assoc] at hrun
        refine ⟨_, hrun, ?_, hseen⟩
        rw [lost_append, hlost]
        rfl
  obtain ⟨log', hrun, hlost, hseen⟩ := hdrops es (h.snoc (.called hcb))
  rw [List.append_assoc] at hrun
  refine ⟨_, hrun, ?_, fun d => ?_⟩
  · rw [lost_append, hlost]
    rfl
  · rw [seen_append, hseen, List.append_nil]
    exact List.flatMap_singleton ..

/-- A denomination's account puts its row. -/
theorem run_denomination (cache : LeafIndexCache) (x : Denomination) (slot : ℕ) (d : UInt8) :
    (Callback.updateAccount programId (PoolAccount.denomination x).data slot).run programId cache =
      (cache, [.upsertDenomination
        { denomId := x.denomId
          amountMicroUsdc := asI64 x.amountMicroUsdc
          depositCount := asI64 x.depositCount
          vaultAddress := Base58.encode x.vault.toList
          lastSeenSlot := slot }]) ∧
    (Callback.updateAccount programId (PoolAccount.denomination x).data slot).treeEvents
      programId d = [] := by
  have hkind := accountKind_data (.denomination x)
  have hevent := event_data .plugin slot (.denomination x)
  rw [Writer.event] at hevent
  have hother : ¬ some (kindOf (.denomination x)) = some AccountKind.merkleTree := by simp [kindOf]
  rw [Callback.run, if_neg (not_not.mpr rfl), cacheAfter, hkind, hevent, Callback.treeEvents, hkind,
    if_neg hother, if_neg fun hand => hother hand.2]
  exact ⟨rfl, rfl⟩

/-- Two deposits, of which the first finds the queue full: the second has its place all the same. -/
theorem queue_never_misplaces_drop : ∃ (log : List WriterEvent) (st : Plugged)
    (row : CommitmentRow), WriterRun (key 1) log st ∧ row.leaf = (0, Bytes.ofNat 32 1) ∧
    .insertCommitment row ∈ lost (labels log) ∧
    st.writer.handler.db.tree 0 = [(1, Bytes.ofNat 32 2)] ∧
    ∀ leaf ∈ st.writer.handler.db.tree 0, leaf ∈ numbered [Bytes.ofNat 32 1, Bytes.ofNat 32 2] := by
  have hstart : WriterRun (key 1) [] ⟨fun _ => none, [], [], Store.empty⟩ :=
    .start ⟨rfl, rfl, rfl, rfl⟩
  obtain ⟨hcall, hnone⟩ := run_denomination (fun _ => none)
    ⟨0, 10, 0, zero32, zero32, 0, 0⟩ 1 0
  have hfirst : ∀ row : DenominationEntry, Store.empty.accepts (.upsertDenomination row) →
      [WriteEvent.upsertDenomination row].foldlM Store.handleEvent Store.empty =
        some (Store.empty.apply (.upsertDenomination row)) := by
    intro row hrow
    rw [List.foldlM_cons, Store.handleEvent_of_accepts hrow]
    rfl
  obtain ⟨log₁, hrun₁, -, hseen₁⟩ := exists_served hstart hcall
    (hfirst _ (by exact ⟨fits_asI64 10, fits_asI64 0⟩))
  obtain ⟨log₂, pending₂, hrun₂, hseen₂⟩ := exists_filled hrun₁ le_rfl
  -- the first deposit is lost, and so is what has filled the queue
  have hparse : ∀ n < 3, parseDepositIx (DEPOSIT_DISC ++ 0 :: (Bytes.ofNat 32 n).toList) =
      some (0, Bytes.ofNat 32 n) := by decide +kernel
  have hdeposit : ∀ n < 3, ∀ (cache : LeafIndexCache) (next : UInt64), (cache 0).getD 0 = next →
      Callback.run (key 1) cache
        (.handlePoolIx (DEPOSIT_DISC ++ 0 :: (Bytes.ofNat 32 n).toList) 2 "signature") =
        (Function.update cache 0 (some (saturatingSucc next)),
          [.insertCommitment ⟨0, asI64 next, Bytes.ofNat 32 n, 2⟩,
            .checkpoint 2 (some "signature")]) := by
    intro n hn cache next hnext
    rw [run_handlePoolIx, hparse n hn, ← hnext]
  obtain ⟨log₃, hrun₃, hlost₃, hseen₃⟩ := exists_lost (List.length_replicate ..).ge hrun₂
    (hdeposit 1 (by decide) _ 0 rfl)
  obtain ⟨log₄, hrun₄, hseen₄⟩ := exists_failed hrun₃
  have hsecond : ∀ (s : Store) (row : CommitmentRow) (slot : ℕ) (signature : Option String),
      s.accepts (.insertCommitment row) →
      [.insertCommitment row, .checkpoint slot signature].foldlM Store.handleEvent s =
        some ((s.apply (.insertCommitment row)).apply (.checkpoint slot signature)) := by
    intro s row slot signature hrow
    rw [List.foldlM_cons, Store.handleEvent_of_accepts hrow]
    rfl
  obtain ⟨log₅, hrun₅, -, hseen₅⟩ := exists_served hrun₄
    (hdeposit 2 (by decide) _ 1 rfl)
    (hsecond _ _ _ _ (by exact ⟨fits_asI64 1, List.mem_singleton_self _⟩))
  have horder : InOrder (seen (key 1) 0 ([] ++ log₁ ++ log₂ ++ log₃ ++ log₄ ++ log₅))
      [Bytes.ofNat 32 1, Bytes.ofNat 32 2] := by
    simp only [seen_append, hseen₁, hnone, hseen₂, hseen₃, hseen₄, hseen₅]
    rw [Callback.treeEvents, Callback.treeEvents, hparse 1 (by decide), hparse 2 (by decide)]
    exact (InOrder.nil.deposit _).deposit _
  obtain ⟨-, -, hnever⟩ := queue_never_misplaces hrun₅ 0
  refine ⟨_, _, ⟨0, asI64 0, Bytes.ofNat 32 1, 2⟩, hrun₅, rfl, ?_, ?_,
    (hnever _ horder (by decide)).1⟩
  · simp [lost_append, hlost₃]
  · exact congrArg (List.map CommitmentRow.leaf) (List.mergeSort_singleton _)

end Qietr.Indexer
