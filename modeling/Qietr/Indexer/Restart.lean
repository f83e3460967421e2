import Qietr.Indexer.Pass

/-!
# Indexer — crashes of the poller

Between any two of its database calls a pass may be lost, and what is left is the database, from
which the next pass begins.

* `Poller.Step`: signatures arrive, a pass begins, calls, and is lost.
* `Kept`: what the database holds wherever a pass ends; `Poller.inv_of_run`.
* `Pass.Settled`: a pass over leaves that are all there changes no row.
* `Poller.exists_caught_up`: the poller can always catch up.
* `restart_changes_nothing`: then it has the rows of one that never stopped.
-/

namespace Qietr.Indexer

open Pool

variable {programId : Pubkey} {tx : SignatureInfo → Option ParsedTransaction}
  {chain handled younger : List SignatureInfo} {done ahead : List Leaf}

/-! ### Crashes -/

/-- What happens: signatures arrive; a pass begins, makes a call, or ends. -/
inductive PollerEvent where
  | arrived
  | began
  | called
  | stopped

/-- The history, the database, and the pass that is at work. -/
structure Poller where
  chain : List SignatureInfo
  db : Db
  pass : Option Pass

def Poller.start : Poller where
  chain := []
  db := Db.empty
  pass := none

/-- A pass may end anywhere: at its end, because a call has thrown, whether it has had its effect or
not, or because the poller has crashed.  What is left is the database. -/
inductive Poller.Step (node : SignatureNode) (programId : Pubkey)
    (tx : SignatureInfo → Option ParsedTransaction) : Poller → PollerEvent → Poller → Prop
  | arrive {s : Poller} (sigs : List SignatureInfo) (h : IsHistory (s.chain ++ sigs)) :
      Step node programId tx s .arrived { s with chain := s.chain ++ sigs }
  | begin {s : Poller} {seen : ℕ → List SignatureInfo} {fuel : ℕ}
      {pages : List (List SignatureInfo)} (hidle : s.pass = none) (hseen : Arrivals seen)
      (h0 : seen 0 = s.chain)
      (hpages : requestPages node seen s.db.lastSignature fuel 0 none = some pages) :
      Step node programId tx s .began
        { s with
          chain := seen fuel
          pass := some ⟨SyncState.resumed s.db, .next, getNewSignatures pages⟩ }
  | call {s : Poller} {p : Pass} (hp : s.pass = some p) :
      Step node programId tx s .called
        { s with
          db := (p.step programId tx).st.db
          pass := some (p.step programId tx) }
  | stop {s : Poller} : Step node programId tx s .stopped { s with pass := none }

/-- The runs of a poller that may crash. -/
abbrev Poller.Runs (node : SignatureNode) (programId : Pubkey)
    (tx : SignatureInfo → Option ParsedTransaction) : List PollerEvent → Poller → Prop :=
  Run (· = Poller.start) (Poller.Step node programId tx)

/-- What the database holds: the rows of the signatures up to the checkpoint, and of some leaves
that come after them. -/
structure Kept (programId : Pubkey) (tx : SignatureInfo → Option ParsedTransaction)
    (chain : List SignatureInfo) (db : Db) (handled rest : List SignatureInfo)
    (ahead : List Leaf) : Prop where
  chain : chain = handled ++ rest
  progress : db.lastSignature = lastOf handled
  within : ahead <+: leavesAt programId tx rest
  rows : db.commitments = table (leavesAt programId tx handled ++ ahead)

/-- Wherever a pass ends. -/
theorem Pass.Inv.kept {p : Pass} (h : p.Inv programId tx chain handled younger done ahead) :
    Kept programId tx chain p.st.db handled (p.listed ++ younger) (done ++ ahead) := by
  refine ⟨h.chain, h.progress, ?_, ?_⟩
  · rw [leavesAt_append, h.leaves, List.append_assoc]
    exact (List.prefix_append_right_inj done).mpr h.within
  · rw [← List.append_assoc]
    exact h.rows

theorem Kept.mono {db : Db} {rest more : List SignatureInfo}
    (h : Kept programId tx chain db handled rest ahead) :
    Kept programId tx (chain ++ more) db handled (rest ++ more) ahead := by
  refine ⟨?_, h.progress, ?_, h.rows⟩
  · rw [h.chain, List.append_assoc]
  · rw [leavesAt_append]
    exact h.within.trans (List.prefix_append _ _)

theorem Pass.Inv.mono {p : Pass} (h : p.Inv programId tx chain handled younger done ahead)
    (more : List SignatureInfo) :
    p.Inv programId tx (chain ++ more) handled (younger ++ more) done ahead := by
  refine ⟨?_, h.progress, h.leaves, ?_, h.rows, h.ready⟩
  · rw [h.chain, List.append_assoc, List.append_assoc]
  · rw [leavesAt_append, ← List.append_assoc]
    exact h.within.trans (List.prefix_append _ _)

structure Poller.Inv (programId : Pubkey) (tx : SignatureInfo → Option ParsedTransaction)
    (s : Poller) : Prop where
  history : IsHistory s.chain
  kept : ∃ handled rest ahead, Kept programId tx s.chain s.db handled rest ahead
  pass : ∀ p ∈ s.pass, p.st.db = s.db ∧ ∃ handled younger done ahead,
    p.Inv programId tx s.chain handled younger done ahead

variable {node : SignatureNode}

theorem Poller.Inv.step (hnode : Newest node) {s s' : Poller} {a : PollerEvent}
    (h : s.Inv programId tx) (hs : Step node programId tx s a s') : s'.Inv programId tx := by
  obtain ⟨hhistory, ⟨handled, rest, ahead, hkept⟩, hpass⟩ := h
  cases hs with
  | arrive sigs hchain =>
      refine ⟨hchain, ⟨handled, rest ++ sigs, ahead, hkept.mono⟩, fun p hp => ?_⟩
      obtain ⟨hdb, handled, younger, done, ahead, hinv⟩ := hpass p hp
      exact ⟨hdb, handled, younger ++ sigs, done, ahead, hinv.mono sigs⟩
  | @begin seen fuel pages hidle hseen h0 hpages =>
      obtain ⟨more, hmore⟩ := h0 ▸ hseen.prefix_of_le (Nat.zero_le fuel)
      have hlater : Kept programId tx (seen fuel) s.db handled (rest ++ more) ahead :=
        hmore ▸ hkept.mono
      rw [hkept.progress] at hpages
      have hlisted := getNewSignatures_requestPages hnode hseen (h0.trans hkept.chain) hpages
      refine ⟨hseen.history fuel, ⟨handled, rest ++ more, ahead, hlater⟩, ?_⟩
      rintro p ⟨⟩
      refine ⟨rfl, handled, more, [], ahead, ?_⟩
      show Pass.Inv programId tx (seen fuel) ⟨_, .next, getNewSignatures pages⟩ _ _ _ _
      rw [hlisted, hlater.chain]
      exact .begin hlater.progress hlater.within hlater.rows
  | @call p hp =>
      obtain ⟨-, _, younger, _, _, hinv⟩ := hpass p hp
      obtain ⟨handled, done, ahead, hnext⟩ := hinv.step
      refine ⟨hhistory, ⟨handled, _, _, hnext.kept⟩, ?_⟩
      rintro q ⟨⟩
      exact ⟨rfl, handled, younger, done, ahead, hnext⟩
  | stop => exact ⟨hhistory, ⟨handled, rest, ahead, hkept⟩, nofun⟩

theorem Poller.inv_of_run (hnode : Newest node) {log : List PollerEvent} {s : Poller}
    (hrun : Poller.Runs node programId tx log s) : s.Inv programId tx := by
  refine hrun.invariant (fun _ s => s.Inv programId tx) ?_ ?_
  · rintro s rfl
    refine ⟨⟨List.nodup_nil, nofun⟩, ⟨[], [], [], ?_⟩, nofun⟩
    exact ⟨rfl, rfl, List.prefix_rfl, rfl⟩
  · intro log s a s' _ h hs
    exact h.step hnode hs

/-! ### Caught up -/

/-- A part of the history is known by its last signature. -/
theorem eq_of_lastOf {xs ys : List SignatureInfo} (hchain : IsHistory chain) (hxs : xs <+: chain)
    (hys : ys <+: chain) (h : lastOf xs = lastOf ys) : xs = ys := by
  have hlonger : ∀ xs rest, xs ++ rest <+: chain → lastOf xs = lastOf (xs ++ rest) → rest = [] := by
    rintro xs rest ⟨younger, rfl⟩ hlast
    rcases List.eq_nil_or_concat' rest with rfl | ⟨init, last, rfl⟩
    · rfl
    · have hsig : lastOf xs = some last.signature := by
        rw [hlast]
        simp [lastOf]
      obtain ⟨sig, hget, hsame⟩ := Option.map_eq_some_iff.mp hsig
      have hdistinct := hchain.of_append.1.distinct
      rw [List.map_append] at hdistinct
      refine ((List.nodup_append.mp hdistinct).2.2 _
        (List.mem_map_of_mem (List.mem_of_getLast? hget)) last.signature ?_ hsame).elim
      simp
  rcases List.prefix_or_prefix_of_prefix hxs hys with ⟨rest, rfl⟩ | ⟨rest, rfl⟩
  · rw [hlonger xs rest hys h, List.append_nil]
  · rw [hlonger ys rest hxs h.symm, List.append_nil]

/-- **A run that nothing interrupts** has the rows of the history's leaves. -/
theorem commitments_syncCommitments {pages : List (List SignatureInfo)}
    (hpages : getNewSignatures pages = chain) :
    (syncCommitments programId Db.empty (fun _ => pages) fun sig => .ok (tx sig)).1.db.commitments =
      table (leavesAt programId tx chain) := by
  have hbegin : Pass.Inv programId tx ([] ++ (chain ++ []))
      ⟨SyncState.resumed Db.empty, .next, chain⟩ [] [] [] [] :=
    .begin rfl List.nil_prefix rfl
  obtain ⟨handled, done, ahead, hend⟩ := hbegin.reaches (Pass.reaches_syncLoop _ chain)
  have hhandled : chain = handled := by
    have hchain := hend.chain
    rwa [List.nil_append, List.append_nil, Pass.listed, List.append_nil, List.append_nil] at hchain
  obtain ⟨rfl, -⟩ := List.append_eq_nil_iff.mp hend.leaves.symm
  obtain rfl : ahead = [] := List.prefix_nil.mp hend.within
  have hrows := hend.rows
  rw [List.append_nil, List.append_nil, ← hhandled] at hrows
  rw [syncCommitments_eq, hpages]
  exact hrows

/-- A pass whose leaves are all there. -/
structure Pass.Settled (programId : Pubkey) (tx : SignatureInfo → Option ParsedTransaction)
    (rows : List CommitmentRow) (p : Pass) : Prop where
  kept : p.st.db.commitments = rows
  known : ∀ x ∈ p.todo programId tx, Known rows x
  scanning : match p.phase with
    | .next | .leaves _ _ => True
    | .index _ _ _ | .insert _ _ _ => False

/-- It changes no row. -/
theorem Pass.Settled.step {rows : List CommitmentRow} {p : Pass}
    (h : p.Settled programId tx rows) : (p.step programId tx).Settled programId tx rows := by
  obtain ⟨hrows, hknown, hscanning⟩ := h
  obtain ⟨st, phase, sigs⟩ := p
  cases phase with
  | next =>
      cases sigs with
      | nil => exact ⟨hrows, hknown, trivial⟩
      | cons sig sigs => exact ⟨hrows, hknown, trivial⟩
  | leaves sig ixs =>
      cases ixs with
      | nil => exact ⟨hrows, hknown, trivial⟩
      | cons ix ixs =>
          cases hleaf : leafAt ix with
          | none =>
              rw [Pass.todo, List.filterMap_cons_none hleaf] at hknown
              simp only [Pass.step, hleaf]
              exact ⟨hrows, hknown, trivial⟩
          | some x =>
              rw [Pass.todo, List.filterMap_cons_some hleaf, List.cons_append,
                List.forall_mem_cons] at hknown
              have hexists := (commitmentExists_iff st.db x).mpr (hrows ▸ hknown.1)
              simp only [Pass.step, hleaf, if_pos hexists]
              exact ⟨hrows, hknown.2, trivial⟩
  | index sig x ixs => exact hscanning.elim
  | insert sig row ixs => exact hscanning.elim

theorem Pass.Settled.reaches {rows : List CommitmentRow} {p q : Pass}
    (h : p.Settled programId tx rows) (hpq : Reaches programId tx p q) :
    q.Settled programId tx rows := by
  induction hpq with
  | refl => exact h
  | tail _ hstep ih => exact hstep ▸ ih.step

/-- Signatures that have been handled are settled. -/
theorem Kept.settled {db : Db} {rest sigs : List SignatureInfo}
    (h : Kept programId tx chain db handled rest ahead) (hsigs : sigs ⊆ handled) :
    Pass.Settled programId tx db.commitments ⟨SyncState.resumed db, .next, sigs⟩ := by
  refine ⟨rfl, fun x hx => ?_, trivial⟩
  obtain ⟨sig, hsig, hleaf⟩ := List.mem_flatMap.mp hx
  have hmem : x ∈ leavesAt programId tx handled :=
    List.mem_flatMap.mpr ⟨sig, hsigs hsig, hleaf⟩
  exact h.rows ▸ known_table (List.mem_append_left _ hmem)

/-- The calls of a pass are steps of the poller. -/
theorem Poller.exists_calls {log : List PollerEvent} {s : Poller} {p q : Pass}
    (hrun : Poller.Runs node programId tx log s) (hp : s.pass = some p) (hdb : p.st.db = s.db)
    (hpq : Pass.Reaches programId tx p q) : ∃ calls,
      Poller.Runs node programId tx (log ++ calls) { s with db := q.st.db, pass := some q } := by
  induction hpq with
  | refl =>
      refine ⟨[], ?_⟩
      rw [List.append_nil, hdb, ← hp]
      exact hrun
  | @tail q r _ hstep ih =>
      obtain ⟨calls, hcalls⟩ := ih
      refine ⟨calls ++ [.called], ?_⟩
      rw [← List.append_assoc, ← hstep]
      exact hcalls.snoc (.call rfl)

/-- The poller can always catch up. -/
theorem Poller.exists_caught_up (hnode : Newest node) {log : List PollerEvent} {s : Poller}
    (hrun : Poller.Runs node programId tx log s) : ∃ log' s',
      Poller.Runs node programId tx (log ++ log') s' ∧ s'.chain = s.chain ∧
      s'.db.lastSignature = lastOf s.chain := by
  obtain ⟨hhistory, ⟨handled, rest, ahead, hkept⟩, -⟩ := Poller.inv_of_run hnode hrun
  have hseen : Arrivals fun _ => s.chain :=
    ⟨fun _ => List.prefix_rfl, fun _ => hhistory⟩
  obtain ⟨pages, hpages⟩ := requestPages_isSome hnode hseen hkept.chain
    (by omega : rest.length < 1000 * (rest.length + 1))
  have hlisted := getNewSignatures_requestPages hnode hseen hkept.chain hpages
  rw [← hkept.progress] at hpages
  have hbegun := (hrun.snoc .stop).snoc (.begin rfl hseen rfl hpages)
  obtain ⟨calls, hcalls⟩ := Poller.exists_calls hbegun rfl rfl (Pass.reaches_syncLoop _ _)
  rw [List.append_assoc, List.append_assoc] at hcalls
  refine ⟨_, _, hcalls, rfl, ?_⟩
  have hresumed : (SyncState.resumed s.db).db.lastSignature = lastOf handled := hkept.progress
  show (syncLoop _ _ _ _).1.db.lastSignature = _
  rw [lastSignature_syncLoop _ hresumed, handledBy_eq (syncLoop_answered tx _ _), hlisted,
    hkept.chain]

/-- **A restart changes nothing.**  Wherever the passes of a poller have ended, once its progress
stands at the end of the history its rows are those of a single pass over that history; and a pass
over signatures that the progress has gone past changes no row, wherever it ends. -/
theorem restart_changes_nothing (node : SignatureNode) (hnode : Newest node) (programId : Pubkey)
    (tx : SignatureInfo → Option ParsedTransaction) {log : List PollerEvent} {s : Poller}
    (hrun : Poller.Runs node programId tx log s) :
    (s.db.lastSignature = lastOf s.chain → ∀ pages, getNewSignatures pages = s.chain →
      s.db.commitments = (syncCommitments programId Db.empty (fun _ => pages)
        fun sig => .ok (tx sig)).1.db.commitments) ∧
    ∀ handled, handled <+: s.chain → s.db.lastSignature = lastOf handled →
      ∀ sigs, sigs ⊆ handled → ∀ p : Pass,
        Pass.Reaches programId tx ⟨SyncState.resumed s.db, .next, sigs⟩ p →
          p.st.db.commitments = s.db.commitments := by
  obtain ⟨hhistory, ⟨handled, rest, ahead, hkept⟩, -⟩ := Poller.inv_of_run hnode hrun
  have hprefix : handled <+: s.chain := hkept.chain ▸ List.prefix_append handled rest
  refine ⟨fun hcaught pages hpages => ?_, fun handled' hhandled hlast sigs hsigs p hp => ?_⟩
  · have hall : handled = s.chain :=
      eq_of_lastOf hhistory hprefix List.prefix_rfl (hkept.progress.symm.trans hcaught)
    obtain rfl : rest = [] := List.append_right_eq_self.mp (hkept.chain.symm.trans hall.symm)
    obtain rfl : ahead = [] := List.prefix_nil.mp hkept.within
    rw [commitments_syncCommitments hpages, hkept.rows, List.append_nil, hall]
  · obtain rfl : handled = handled' :=
      eq_of_lastOf hhistory hprefix hhandled (hkept.progress.symm.trans hlast)
    exact ((hkept.settled hsigs).reaches hp).kept

/-- A deposit, by a depositor who need not be there. -/
noncomputable def sampleDeposit (d : UInt8) : Call (ideal circom) :=
  .deposit ⟨key 1, admin circom⟩ d (encode 1)

/-- The deposit as it is read of the transaction. -/
noncomputable def depositRecord (d : UInt8) : PoolIxRecord where
  signature := "5"
  slot := 1
  ixData := (sampleDeposit d).data ++ []

/-- Every signature is that of two deposits, to two denominations. -/
noncomputable def twoDeposits (_ : SignatureInfo) : Option ParsedTransaction :=
  some (direct [sampleDeposit 0, sampleDeposit 1]).parsed

theorem getPoolIxs_twoDeposits :
    getPoolIxs Sdk.QIETR_POOL_PROGRAM_ID ⟨"5", 1⟩ (twoDeposits ⟨"5", 1⟩) =
      [depositRecord 0, depositRecord 1] := by
  have hixs : (direct [sampleDeposit 0, sampleDeposit 1]).parsed.instructions =
      [TopInstruction.parsed (.pool (sampleDeposit 0) []),
        TopInstruction.parsed (.pool (sampleDeposit 1) [])] :=
    rfl
  rw [twoDeposits, getPoolIxs, if_neg (by exact Bool.false_ne_true), hixs,
    List.filterMap_cons_some (poolIx_pool _ _ (sampleDeposit 0) []),
    List.filterMap_cons_some (poolIx_pool _ _ (sampleDeposit 1) []), List.filterMap_nil]
  rfl

theorem leafAt_depositRecord (d : UInt8) : leafAt (depositRecord d) = some ⟨d, encode 1, 1⟩ := by
  rw [leafAt, depositRecord, leafOfIx_data]
  rfl

/-- A poller that crashes between the two leaves. -/
theorem exists_crash : ∃ log s,
    Poller.Runs newestSignatures Sdk.QIETR_POOL_PROGRAM_ID twoDeposits log s ∧
    s.chain = [⟨"5", 1⟩] ∧ s.db.lastSignature = none ∧
    s.db.commitments = [⟨0, 0, encode 1, 1⟩] := by
  have hchain : IsHistory [⟨"5", 1⟩] :=
    ⟨by decide, by decide⟩
  have hseen : Arrivals fun _ => [⟨"5", 1⟩] :=
    ⟨fun _ => List.prefix_rfl, fun _ => hchain⟩
  have hstart : Poller.Runs newestSignatures Sdk.QIETR_POOL_PROGRAM_ID twoDeposits [] .start :=
    .start rfl
  have harrived := hstart.snoc (.arrive [⟨"5", 1⟩] hchain)
  have h0 : [⟨"5", 1⟩] = [] ++ [(⟨"5", 1⟩ : SignatureInfo)] :=
    rfl
  obtain ⟨pages, hpages⟩ := requestPages_isSome newest_newestSignatures hseen h0
    (by decide : 1 < 1000 * 1)
  have hlisted := getNewSignatures_requestPages newest_newestSignatures hseen h0 hpages
  have hbegun := harrived.snoc (.begin rfl hseen rfl hpages)
  have hread : Pass.Reaches Sdk.QIETR_POOL_PROGRAM_ID twoDeposits
      ⟨SyncState.resumed Db.empty, .next, getNewSignatures pages⟩
      ⟨syncIx (SyncState.resumed Db.empty) (depositRecord 0),
        .leaves ⟨"5", 1⟩ [depositRecord 1], []⟩ := by
    rw [hlisted]
    refine .head rfl ?_
    rw [Pass.step, getPoolIxs_twoDeposits]
    exact Pass.reaches_syncIx _ _ _ _ _
  obtain ⟨calls, hcalls⟩ := Poller.exists_calls hbegun rfl rfl hread
  refine ⟨_, _, hcalls.snoc .stop, rfl, ?_, ?_⟩
  · show (syncIx _ _).db.lastSignature = none
    rw [syncIx_of_leafAt, leafAt_depositRecord]
    rfl
  · show (syncIx _ _).db.commitments = _
    rw [syncIx_of_leafAt, leafAt_depositRecord]
    rfl

/-- Once it has caught up, it has both leaves, each once. -/
theorem restart_changes_nothing_two : ∃ log s,
    Poller.Runs newestSignatures Sdk.QIETR_POOL_PROGRAM_ID twoDeposits log s ∧
    s.chain = [⟨"5", 1⟩] ∧ s.db.lastSignature = lastOf s.chain ∧
    s.db.commitments = [⟨0, 0, encode 1, 1⟩, ⟨1, 0, encode 1, 1⟩] := by
  obtain ⟨log, s₀, hrun₀, hchain₀, -⟩ := exists_crash
  obtain ⟨log', s, hrun, hchain, hcaught⟩ :=
    Poller.exists_caught_up newest_newestSignatures hrun₀
  have hpages : getNewSignatures [[⟨"5", 1⟩]] = s.chain :=
    (hchain.trans hchain₀).symm
  rw [← hchain] at hcaught
  refine ⟨_, s, hrun, hchain.trans hchain₀, hcaught, ?_⟩
  rw [(restart_changes_nothing newestSignatures newest_newestSignatures
    Sdk.QIETR_POOL_PROGRAM_ID twoDeposits hrun).1 hcaught _ hpages,
    commitments_syncCommitments rfl]
  have hleaves : leavesAt Sdk.QIETR_POOL_PROGRAM_ID twoDeposits [⟨"5", 1⟩] =
      [⟨0, encode 1, 1⟩, ⟨1, encode 1, 1⟩] := by
    rw [leavesAt, List.flatMap_singleton, getPoolIxs_twoDeposits,
      List.filterMap_cons_some (leafAt_depositRecord 0),
      List.filterMap_cons_some (leafAt_depositRecord 1), List.filterMap_nil]
  show table (leavesAt _ _ [⟨"5", 1⟩]) = _
  rw [hleaves]
  simp [table, addRow, Known, nextRow]

end Qietr.Indexer
