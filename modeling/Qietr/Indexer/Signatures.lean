import Qietr.Indexer.Poller
import Qietr.Library.Runs

/-!
# Indexer — the scan of the signatures

`rpc.ts`, `getNewSignatures`: the pages of signatures that the poller asks a node for, from the
newest backwards, while new signatures arrive; and the ticks that walk over them.

* `Newest`: what a node answers with; `newestSignatures`: a node that does.
* `requestPages`: the requests, of the history as it stands at each of them.
* `getNewSignatures_requestPages`, `requestPages_isSome`: the scan is exact, and it ends.
* `Indexing.Step`: arrivals, and ticks, which an error ends.
* `signatures_handled_once`: each signature is handled once, in the order of the chain.
-/

namespace Qietr.Indexer

open Pool

/-! ### A node's listing -/

/-- The options of `getSignaturesForAddress`. -/
structure SignaturesOptions where
  limit : ℕ
  before : Option String
  untilSignature : Option String

/-- What a node lists of a history, which is given oldest first. -/
abbrev SignatureNode :=
  List SignatureInfo → SignaturesOptions → List SignatureInfo

/-- Each signature is another one, and has its characters. -/
structure IsHistory (chain : List SignatureInfo) : Prop where
  distinct : (chain.map SignatureInfo.signature).Nodup
  nonempty : ∀ sig ∈ chain, sig.signature ≠ ""

/-- The last signature of a part of the history, if it has any. -/
def lastOf (chain : List SignatureInfo) : Option String :=
  chain.getLast?.map SignatureInfo.signature

/-- The first signature of a part of the history. -/
def firstOf (chain : List SignatureInfo) : Option String :=
  chain.head?.map SignatureInfo.signature

/-- A node lists the newest signatures, `limit` of them at most, that are older than `before` and
newer than the signature it is to stop at. -/
def Newest (node : SignatureNode) : Prop :=
  ∀ (limit : ℕ) (older between younger : List SignatureInfo),
    IsHistory (older ++ between ++ younger) →
      node (older ++ between ++ younger)
        { limit, before := firstOf younger, untilSignature := lastOf older } =
          between.reverse.take limit

/-- What comes after a signature, and what comes before it. -/
def newerThan (chain : List SignatureInfo) : Option String → List SignatureInfo
  | none => chain
  | some signature => (chain.dropWhile fun sig => sig.signature ≠ signature).tail

def olderThan (chain : List SignatureInfo) : Option String → List SignatureInfo
  | none => chain
  | some signature => chain.takeWhile fun sig => sig.signature ≠ signature

theorem newerThan_lastOf {older newer : List SignatureInfo}
    (h : ((older ++ newer).map SignatureInfo.signature).Nodup) :
    newerThan (older ++ newer) (lastOf older) = newer := by
  rcases List.eq_nil_or_concat' older with rfl | ⟨init, last, rfl⟩
  · rfl
  · rw [List.append_assoc, List.map_append] at h
    have hinit : ∀ sig ∈ init, decide (sig.signature ≠ last.signature) = true := by
      intro sig hsig
      refine decide_eq_true ((List.nodup_append.mp h).2.2 _ (List.mem_map_of_mem hsig) _ ?_)
      simp
    have hlast : lastOf (init ++ [last]) = some last.signature := by simp [lastOf]
    rw [hlast, newerThan, List.append_assoc, List.dropWhile_append_of_pos hinit]
    simp

theorem olderThan_firstOf {older newer : List SignatureInfo}
    (h : ((older ++ newer).map SignatureInfo.signature).Nodup) :
    olderThan (older ++ newer) (firstOf newer) = older := by
  cases newer with
  | nil => exact List.append_nil older
  | cons first rest =>
      rw [List.map_append] at h
      have holder : ∀ sig ∈ older, decide (sig.signature ≠ first.signature) = true := by
        intro sig hsig
        refine decide_eq_true ((List.nodup_append.mp h).2.2 _ (List.mem_map_of_mem hsig) _ ?_)
        simp
      show (older ++ first :: rest).takeWhile _ = older
      rw [List.takeWhile_append_of_pos holder]
      simp

/-- Such a node. -/
def newestSignatures : SignatureNode := fun chain opts =>
  (olderThan (newerThan chain opts.untilSignature) opts.before).reverse.take opts.limit

theorem newest_newestSignatures : Newest newestSignatures := by
  intro limit older between younger h
  have hnodup := h.distinct
  rw [List.append_assoc] at hnodup
  have hnewer : ((between ++ younger).map SignatureInfo.signature).Nodup := by
    rw [List.map_append] at hnodup
    exact (List.nodup_append.mp hnodup).2.1
  rw [newestSignatures, List.append_assoc, newerThan_lastOf hnodup, olderThan_firstOf hnewer]

/-! ### The requests -/

/-- Of a text that may be absent, what is taken as given: an empty one is not. -/
def given (text : Option String) : Option String :=
  text.filter fun s => s ≠ ""

/-- The pages that `getNewSignatures` asks for, from its request number `i` on: each before the last
signature of the one before it, up to one that is not full. -/
def requestPages (node : SignatureNode) (seen : ℕ → List SignatureInfo)
    (untilSignature : Option String) : ℕ → ℕ → Option String → Option (List (List SignatureInfo))
  | 0, _, _ => none
  | fuel + 1, i, before =>
      let page := node (seen i)
        { limit := 1000, before := given before, untilSignature := given untilSignature }
      if page.length = 0 then some []
      else if page.length < 1000 then some [page]
      else (requestPages node seen untilSignature fuel (i + 1) (lastOf page)).map (page :: ·)

/-- The history at each request: it only grows. -/
structure Arrivals (seen : ℕ → List SignatureInfo) : Prop where
  grows : ∀ i, seen i <+: seen (i + 1)
  history : ∀ i, IsHistory (seen i)

theorem Arrivals.prefix_of_le {seen : ℕ → List SignatureInfo} (h : Arrivals seen) {i j : ℕ}
    (hij : i ≤ j) : seen i <+: seen j := by
  induction j, hij using Nat.le_induction with
  | base => exact List.prefix_rfl
  | succ j _ ih => exact ih.trans (h.grows j)

theorem IsHistory.of_append {xs ys : List SignatureInfo} (h : IsHistory (xs ++ ys)) :
    IsHistory xs ∧ IsHistory ys := by
  have hnodup := h.distinct
  rw [List.map_append] at hnodup
  obtain ⟨hxs, hys, -⟩ := List.nodup_append.mp hnodup
  refine ⟨⟨hxs, fun sig hsig => ?_⟩, ⟨hys, fun sig hsig => ?_⟩⟩
  · exact h.nonempty sig (List.mem_append_left _ hsig)
  · exact h.nonempty sig (List.mem_append_right _ hsig)

theorem given_lastOf {xs : List SignatureInfo} (h : IsHistory xs) :
    given (lastOf xs) = lastOf xs := by
  rcases List.eq_nil_or_concat' xs with rfl | ⟨init, last, rfl⟩
  · rfl
  · have hlast : last.signature ≠ "" := h.nonempty last (by simp)
    simp [given, lastOf, hlast]

theorem given_firstOf {xs : List SignatureInfo} (h : IsHistory xs) :
    given (firstOf xs) = firstOf xs := by
  cases xs with
  | nil => rfl
  | cons first rest =>
      have hfirst : first.signature ≠ "" := h.nonempty first List.mem_cons_self
      simp [given, firstOf, hfirst]

variable {node : SignatureNode} {seen : ℕ → List SignatureInfo}

/-- One page: of `old ++ left ++ got`, the signatures `got` have been listed, and what has arrived
since the first request is younger than they are. -/
theorem Newest.page (hnode : Newest node) (hseen : Arrivals seen) {i : ℕ}
    {old left got : List SignatureInfo} (h0 : seen 0 = old ++ left ++ got)
    (hgot : got = [] → i = 0) :
    node (seen i)
        { limit := 1000, before := given (firstOf got), untilSignature := given (lastOf old) } =
      left.reverse.take 1000 := by
  obtain ⟨young, hyoung⟩ := hseen.prefix_of_le (Nat.zero_le i)
  rw [h0, List.append_assoc] at hyoung
  have hi := hseen.history i
  rw [← hyoung] at hi ⊢
  have hfirst : firstOf got = firstOf (got ++ young) := by
    cases got with
    | nil =>
        obtain rfl := hgot rfl
        rw [h0, List.append_nil, List.nil_append] at hyoung
        obtain rfl : young = [] := List.append_right_eq_self.mp hyoung
        rfl
    | cons first rest => rfl
  rw [hfirst, given_firstOf hi.of_append.2, given_lastOf hi.of_append.1.of_append.1]
  exact hnode 1000 old left (got ++ young) hi

/-- A page that is full ends with the signature that the signatures listed so far begin with. -/
theorem page_of_full {left : List SignatureInfo} (h : 1000 ≤ left.length) :
    ∃ rest tail, left = rest ++ tail ∧ tail.length = 1000 ∧ left.reverse.take 1000 = tail.reverse ∧
      ∀ got, lastOf tail.reverse = firstOf (tail ++ got) := by
  have hlen : (left.drop (left.length - 1000)).length = 1000 := by
    rw [List.length_drop]
    omega
  refine ⟨left.take (left.length - 1000), left.drop (left.length - 1000),
    (List.take_append_drop _ _).symm, hlen, ?_, fun got => ?_⟩
  · rw [List.take_reverse]
  · cases htail : left.drop (left.length - 1000) with
    | nil => simp [htail] at hlen
    | cons first rest => simp [lastOf, firstOf]

/-- **The requests**, once `got` has been listed: the pages are what is left of the history as it
was at the first of them, whatever has arrived since, and their number is bounded. -/
theorem requestPages_spec (hnode : Newest node) (hseen : Arrivals seen)
    {old left got : List SignatureInfo} {i : ℕ} (h0 : seen 0 = old ++ left ++ got)
    (hgot : got = [] → i = 0) (fuel : ℕ) :
    (∀ pages, requestPages node seen (lastOf old) fuel i (firstOf got) = some pages →
      collectPages pages = left.reverse) ∧
    (left.length < 1000 * fuel →
      (requestPages node seen (lastOf old) fuel i (firstOf got)).isSome) := by
  induction fuel generalizing left got i with
  | zero => exact ⟨nofun, fun h => (Nat.not_lt_zero _ h).elim⟩
  | succ fuel ih =>
      rw [requestPages, hnode.page hseen h0 hgot]
      by_cases hfull : 1000 ≤ left.length
      · obtain ⟨rest, tail, rfl, hlen, hpage, hlast⟩ := page_of_full hfull
        have h0' : seen 0 = old ++ rest ++ (tail ++ got) := by
          rw [h0]
          simp only [List.append_assoc]
        have hgot' : tail ++ got = [] → i + 1 = 0 := by
          intro h
          rw [(List.append_eq_nil_iff.mp h).1] at hlen
          cases hlen
        have hnext := ih h0' hgot'
        simp only [hpage, List.length_reverse, hlen]
        rw [if_neg (by decide), if_neg (by decide), hlast got]
        refine ⟨fun pages h => ?_, fun h => ?_⟩
        · obtain ⟨pages, hpages, rfl⟩ := Option.map_eq_some_iff.mp h
          rw [collectPages, if_neg (by simp [hlen]), hnext.1 pages hpages, List.reverse_append]
        · rw [Option.isSome_map]
          rw [List.length_append] at h
          exact hnext.2 (by omega)
      · have hpage : left.reverse.take 1000 = left.reverse := by
          refine List.take_of_length_le ?_
          rw [List.length_reverse]
          omega
        simp only [hpage, List.length_reverse]
        by_cases hempty : left.length = 0
        · rw [if_pos hempty, List.eq_nil_of_length_eq_zero hempty]
          refine ⟨fun pages h => ?_, fun _ => rfl⟩
          cases h
          rfl
        · rw [if_neg hempty, if_pos (by omega)]
          refine ⟨fun pages h => ?_, fun _ => rfl⟩
          cases h
          rw [collectPages, if_pos (by rw [List.length_reverse]; omega)]

/-- The signatures that are newer than the checkpoint, oldest first. -/
theorem getNewSignatures_requestPages (hnode : Newest node) (hseen : Arrivals seen)
    {old new : List SignatureInfo} (h0 : seen 0 = old ++ new) {fuel : ℕ}
    {pages : List (List SignatureInfo)}
    (h : requestPages node seen (lastOf old) fuel 0 none = some pages) :
    getNewSignatures pages = new := by
  rw [← List.append_nil (old ++ new)] at h0
  have hspec := requestPages_spec hnode hseen h0 (fun _ => rfl) fuel
  rw [getNewSignatures, hspec.1 pages h, List.reverse_reverse]

/-- The scan ends. -/
theorem requestPages_isSome (hnode : Newest node) (hseen : Arrivals seen)
    {old new : List SignatureInfo} (h0 : seen 0 = old ++ new) {fuel : ℕ}
    (h : new.length < 1000 * fuel) :
    ∃ pages, requestPages node seen (lastOf old) fuel 0 none = some pages := by
  rw [← List.append_nil (old ++ new)] at h0
  have hspec := requestPages_spec hnode hseen h0 (fun _ => rfl) fuel
  exact Option.isSome_iff_exists.mp (hspec.2 h)

/-! ### Ticks -/

variable {programId : Pubkey}

/-- The signature that the progress stands at. -/
def Db.lastSignature (db : Db) : Option String :=
  db.progress.bind Checkpoint.lastSignature

/-- The signatures of a walk whose turn ends with their checkpoint. -/
def handledBy (programId : Pubkey)
    (answer : SignatureInfo → Except String (Option ParsedTransaction)) (st : SyncState) :
    List SignatureInfo → List SignatureInfo
  | [] => []
  | sig :: sigs =>
      match syncSignature programId st sig (answer sig) with
      | .ok st => sig :: handledBy programId answer st sigs
      | .error _ => []

/-- What a pass begins with. -/
def SyncState.resumed (db : Db) : SyncState where
  db
  nextLeaf := fun _ => none
  commitments := 0
  lastSig := db.lastSignature
  maxSlot := (db.progress.map Checkpoint.lastSlot).getD 0

theorem syncCommitments_eq (db : Db) (pages : Option String → List (List SignatureInfo))
    (answer : SignatureInfo → Except String (Option ParsedTransaction)) :
    syncCommitments programId db pages answer =
      syncLoop programId answer (SyncState.resumed db)
        (getNewSignatures (pages db.lastSignature)) :=
  rfl

/-- The history, the database, and the signatures that the passes have handled. -/
structure Indexing where
  chain : List SignatureInfo
  db : Db
  handled : List SignatureInfo

def Indexing.start : Indexing where
  chain := []
  db := Db.empty
  handled := []

/-- What happens: signatures arrive, or a tick ends, with an error or without. -/
inductive IndexingEvent where
  | arrived
  | ticked (err : Option String)

/-- Signatures arrive between ticks, and between the requests of a tick. -/
inductive Indexing.Step (node : SignatureNode) (programId : Pubkey) :
    Indexing → IndexingEvent → Indexing → Prop
  | arrive {s : Indexing} (sigs : List SignatureInfo) (h : IsHistory (s.chain ++ sigs)) :
      Step node programId s .arrived { s with chain := s.chain ++ sigs }
  | unlisted {s : Indexing} {seen : ℕ → List SignatureInfo} (e : String) (n : ℕ)
      (hseen : Arrivals seen) (h0 : seen 0 = s.chain) :
      Step node programId s (.ticked (some e)) { s with chain := seen n }
  | tick {s : Indexing} {seen : ℕ → List SignatureInfo} {fuel : ℕ}
      {pages : List (List SignatureInfo)}
      (answer : SignatureInfo → Except String (Option ParsedTransaction))
      (hseen : Arrivals seen) (h0 : seen 0 = s.chain)
      (hpages : requestPages node seen s.db.lastSignature fuel 0 none = some pages) :
      Step node programId s (.ticked (syncCommitments programId s.db (fun _ => pages) answer).2)
        { chain := seen fuel
          db := (syncCommitments programId s.db (fun _ => pages) answer).1.db
          handled := s.handled ++
            handledBy programId answer (SyncState.resumed s.db) (getNewSignatures pages) }

/-- The runs of the poller. -/
abbrev Indexing.Runs (node : SignatureNode) (programId : Pubkey) :
    List IndexingEvent → Indexing → Prop :=
  Run (· = Indexing.start) (Indexing.Step node programId)

theorem lastSignature_writeCheckpoint (db : Db) (slot : ℕ) (signature : Option String) :
    (db.writeCheckpoint slot signature).lastSignature = signature :=
  rfl

/-- A walk handles the signatures in their order. -/
theorem handledBy_prefix (answer : SignatureInfo → Except String (Option ParsedTransaction))
    (st : SyncState) (sigs : List SignatureInfo) :
    handledBy programId answer st sigs <+: sigs := by
  induction sigs generalizing st with
  | nil => exact List.prefix_rfl
  | cons sig sigs ih =>
      rw [handledBy]
      cases syncSignature programId st sig (answer sig) with
      | error e => exact List.nil_prefix
      | ok st' => exact List.prefix_cons_inj sig |>.mpr (ih st')

/-- It handles all of them if it meets no error. -/
theorem handledBy_eq {answer : SignatureInfo → Except String (Option ParsedTransaction)}
    {st : SyncState} {sigs : List SignatureInfo}
    (h : (syncLoop programId answer st sigs).2 = none) :
    handledBy programId answer st sigs = sigs := by
  induction sigs generalizing st with
  | nil => rfl
  | cons sig sigs ih =>
      rw [syncLoop] at h
      rw [handledBy]
      cases hsig : syncSignature programId st sig (answer sig) with
      | error e => rw [hsig] at h; cases h
      | ok st' =>
          rw [hsig] at h
          exact congrArg (sig :: ·) (ih h)

/-- The progress stands at the last that it has handled. -/
theorem lastSignature_syncLoop (answer : SignatureInfo → Except String (Option ParsedTransaction))
    {st : SyncState} {done : List SignatureInfo} (hdone : st.db.lastSignature = lastOf done)
    (sigs : List SignatureInfo) :
    (syncLoop programId answer st sigs).1.db.lastSignature =
      lastOf (done ++ handledBy programId answer st sigs) := by
  induction sigs generalizing st done with
  | nil => rw [handledBy, List.append_nil]; exact hdone
  | cons sig sigs ih =>
      rw [syncLoop, handledBy]
      cases hsig : syncSignature programId st sig (answer sig) with
      | error e => rw [List.append_nil]; exact hdone
      | ok st' =>
          have hpassed : st'.db.lastSignature = lastOf (done ++ [sig]) := by
            obtain ⟨tx, -, htx⟩ := Outcome.bind_eq_ok.mp hsig
            cases htx
            simp [lastOf, SyncState.passed, lastSignature_writeCheckpoint]
          rw [List.append_cons]
          exact ih hpassed

/-- What holds between two ticks. -/
structure Indexing.Inv (s : Indexing) : Prop where
  history : IsHistory s.chain
  handled : s.handled <+: s.chain
  progress : s.db.lastSignature = lastOf s.handled

/-- **A tick** that meets no error has handled everything that was there when it began. -/
theorem Indexing.Inv.tick (hnode : Newest node) {s s' : Indexing} (h : s.Inv)
    {err : Option String} (hs : Step node programId s (.ticked err) s') :
    s'.Inv ∧ (err = none → s'.handled = s.chain) := by
  obtain ⟨new, hnew⟩ := h.handled
  cases hs with
  | unlisted e n hseen h0 =>
      refine ⟨⟨hseen.history n, ?_, h.progress⟩, nofun⟩
      exact h.handled.trans (h0 ▸ hseen.prefix_of_le (Nat.zero_le n))
  | @tick seen fuel pages answer hseen h0 hpages =>
      rw [h.progress] at hpages
      have hlisted := getNewSignatures_requestPages hnode hseen (h0.trans hnew.symm) hpages
      have hwalk : handledBy programId answer (SyncState.resumed s.db) new <+: new :=
        handledBy_prefix answer _ new
      rw [syncCommitments_eq, hlisted]
      refine ⟨⟨hseen.history fuel, ?_, ?_⟩, fun herr => ?_⟩
      · have hbegin : s.handled ++ new <+: seen fuel :=
          hnew ▸ h0 ▸ hseen.prefix_of_le (Nat.zero_le fuel)
        exact ((List.prefix_append_right_inj s.handled).mpr hwalk).trans hbegin
      · exact lastSignature_syncLoop answer h.progress new
      · rw [← hnew]
        exact congrArg (s.handled ++ ·) (handledBy_eq herr)

theorem Indexing.Inv.step (hnode : Newest node) {s s' : Indexing} {a : IndexingEvent} (h : s.Inv)
    (hs : Step node programId s a s') : s'.Inv := by
  cases a with
  | arrived =>
      cases hs with
      | arrive sigs hchain =>
          exact ⟨hchain, h.handled.trans (List.prefix_append _ _), h.progress⟩
  | ticked err => exact (h.tick hnode hs).1

theorem Indexing.inv_of_run (hnode : Newest node) {log : List IndexingEvent} {s : Indexing}
    (hrun : Indexing.Runs node programId log s) : s.Inv := by
  refine hrun.invariant (fun _ s => s.Inv) ?_ ?_
  · rintro s rfl
    exact ⟨⟨List.nodup_nil, nofun⟩, List.prefix_rfl, rfl⟩
  · intro log s a s' _ h hs
    exact h.step hnode hs

/-- A walk meets no error if the node answers. -/
theorem syncLoop_answered (tx : SignatureInfo → Option ParsedTransaction) (st : SyncState)
    (sigs : List SignatureInfo) :
    (syncLoop programId (fun sig => .ok (tx sig)) st sigs).2 = none := by
  induction sigs generalizing st with
  | nil => rfl
  | cons sig sigs ih => exact ih _

/-- A tick ends without an error if the node answers. -/
theorem Indexing.Inv.exists_tick (hnode : Newest node) {s : Indexing} (h : s.Inv)
    (tx : SignatureInfo → Option ParsedTransaction) :
    ∃ s', Step node programId s (.ticked none) s' := by
  obtain ⟨new, hnew⟩ := h.handled
  have hseen : Arrivals fun _ => s.chain :=
    ⟨fun _ => List.prefix_rfl, fun _ => h.history⟩
  obtain ⟨pages, hpages⟩ := requestPages_isSome hnode hseen hnew.symm
    (by omega : new.length < 1000 * (new.length + 1))
  rw [← h.progress] at hpages
  have htick : Step node programId s _ _ := Step.tick (fun sig => .ok (tx sig)) hseen rfl hpages
  rw [syncCommitments_eq, syncLoop_answered] at htick
  exact ⟨_, htick⟩

/-- **Exactly once, and in order.**  A scan lists the signatures that were newer than the checkpoint
at its first request, oldest first, and it ends; what a run has handled is where the history
begins, each signature once; and a tick that meets no error leaves none of those out that were
there when it began. -/
theorem signatures_handled_once (node : SignatureNode) (hnode : Newest node)
    (programId : Pubkey) :
    (∀ seen, Arrivals seen → ∀ old new, seen 0 = old ++ new →
      (∀ fuel, new.length < 1000 * fuel →
        ∃ pages, requestPages node seen (lastOf old) fuel 0 none = some pages) ∧
      (∀ fuel pages, requestPages node seen (lastOf old) fuel 0 none = some pages →
        getNewSignatures pages = new ∧ (new.map SignatureInfo.signature).Nodup)) ∧
    ∀ log s, Indexing.Runs node programId log s →
      (s.handled.map SignatureInfo.signature).Nodup ∧ s.handled <+: s.chain ∧
      (∃ s', Indexing.Step node programId s (.ticked none) s') ∧
      ∀ s', Indexing.Step node programId s (.ticked none) s' → s'.handled = s.chain := by
  refine ⟨fun seen hseen old new h0 => ⟨fun fuel h => ?_, fun fuel pages h => ⟨?_, ?_⟩⟩, ?_⟩
  · exact requestPages_isSome hnode hseen h0 h
  · exact getNewSignatures_requestPages hnode hseen h0 h
  · exact (h0 ▸ hseen.history 0).of_append.2.distinct
  · intro log s hrun
    have hinv := Indexing.inv_of_run hnode hrun
    obtain ⟨rest, hrest⟩ := hinv.handled
    refine ⟨?_, hinv.handled, hinv.exists_tick hnode fun _ => none, fun s' hs => ?_⟩
    · exact (hrest ▸ hinv.history).of_append.1.distinct
    · exact (hinv.tick hnode hs).2 rfl

/-- Three signatures. -/
def threeSignatures : List SignatureInfo :=
  [⟨"1", 1⟩, ⟨"2", 2⟩, ⟨"3", 3⟩]

/-- The node answers about the first of them only. -/
def answerFirst (sig : SignatureInfo) : Except String (Option ParsedTransaction) :=
  if sig.slot = 1 then .ok none else .error "timeout"

/-- A tick that an error ends after the first of three signatures. -/
theorem exists_failed_tick : ∃ log s,
    Indexing.Runs newestSignatures Sdk.QIETR_POOL_PROGRAM_ID log s ∧
    s.handled = [⟨"1", 1⟩] ∧ s.chain = threeSignatures := by
  have hchain : IsHistory threeSignatures :=
    ⟨by decide, by decide⟩
  have hseen : Arrivals fun _ => threeSignatures :=
    ⟨fun _ => List.prefix_rfl, fun _ => hchain⟩
  have hstart : Indexing.Runs newestSignatures Sdk.QIETR_POOL_PROGRAM_ID [] .start :=
    .start rfl
  have harrived := hstart.snoc (.arrive threeSignatures hchain)
  have h0 : threeSignatures = [] ++ threeSignatures :=
    rfl
  obtain ⟨pages, hpages⟩ := requestPages_isSome newest_newestSignatures hseen h0
    (by decide : threeSignatures.length < 1000 * 1)
  have hlisted := getNewSignatures_requestPages newest_newestSignatures hseen h0 hpages
  refine ⟨_, _, harrived.snoc (.tick answerFirst hseen rfl hpages), ?_, rfl⟩
  rw [hlisted]
  rfl

/-- The next one handles the two that are left. -/
theorem signatures_handled_once_three : ∃ log s s',
    Indexing.Runs newestSignatures Sdk.QIETR_POOL_PROGRAM_ID log s ∧
    s.handled = [⟨"1", 1⟩] ∧ Indexing.Step newestSignatures Sdk.QIETR_POOL_PROGRAM_ID s
      (.ticked none) s' ∧ s'.handled = threeSignatures := by
  obtain ⟨log, s, hrun, hhandled, hchain⟩ := exists_failed_tick
  obtain ⟨-, -, ⟨s', hs⟩, hall⟩ := (signatures_handled_once newestSignatures
    newest_newestSignatures Sdk.QIETR_POOL_PROGRAM_ID).2 log s hrun
  exact ⟨log, s, s', hrun, hhandled, hs, (hall s' hs).trans hchain⟩

end Qietr.Indexer
