import Qietr.Indexer.ProofRoute
import Qietr.Library.Runs

/-!
# Indexer — concurrent requests for proofs

Any number of requests are in flight.  Their queries see the rows of different moments, the leaves
grow in between, and they share the answers that are kept.

* `Request`, `Server`: a request, and what the server has; `ProofStep`, `ProofRun`.
* `Db.leaves`: the leaves of a denomination; `Db.Grown`: later ones only come after them.
* `Sound`: a body is a new answer over the first leaves; `Sound.mono`.
* `FlightOk`: what a request in flight knows; `flightOk_of_executes`, `resume_ok`: it stays so.
* `proof_answers_consistent`: every proof that is answered, kept or new.
-/

namespace Qietr.Indexer

open Outcome NumberText Pool

/-! ### The server -/

/-- A request that has been read. -/
structure Request where
  query : ProofQuery
  denomId : UInt8
  commitment : List UInt8
  read : readQuery query = .ok (denomId, commitment)
  /-- The database when it came, which nothing reads. -/
  begun : Db

/-- The tables, the answers that are kept, and the requests in flight: each waits for a query, or
for its turn with the result. -/
structure Server where
  db : Db
  roots : List RootRow
  cache : ProofCache
  flights : Multiset (Request × (Query ⊕ Rows))

inductive ProofEvent where
  | wrote
  | went
  | refused (query : ProofQuery) (reply : Reply)
  | answered (req : Request) (reply : Reply)

/-- **One step**: of whoever writes to the tables, of the database, or of the route.  The tree on
chain has room for `2 ^ 20` leaves. -/
inductive ProofStep (P : Poseidon) : Server → ProofEvent → Server → Prop
  | insert {s : Server} {d : UInt8} {xs : List (Bytes 32)} (c : Bytes 32) (slot : ℕ)
      (h : s.db.Stores d xs) (hroom : xs.length < 2 ^ MERKLE_DEPTH) :
      ProofStep P s .wrote { s with db := s.db.insertCommitment ⟨d, xs.length, c, slot⟩ }
  | upsertRoot {s : Server} (row : RootRow) :
      ProofStep P s .wrote { s with roots := upsertRoot s.roots row }
  | refuse {s : Server} {query : ProofQuery} {reply : Reply} (h : readQuery query = .error reply) :
      ProofStep P s (.refused query reply) s
  | receive {s : Server} {query : ProofQuery} {d : UInt8} {c : List UInt8}
      (h : readQuery query = .ok (d, c)) :
      ProofStep P s .went { s with flights := (⟨query, d, c, h, s.db⟩, .inl .count) ::ₘ s.flights }
  | execute {s : Server} {req : Request} {q : Query} {rows : Rows}
      {flights : Multiset (Request × (Query ⊕ Rows))} (hf : s.flights = (req, .inl q) ::ₘ flights)
      (h : Executes s.db s.roots req.denomId req.commitment q rows) :
      ProofStep P s .went { s with flights := (req, .inr rows) ::ₘ flights }
  | fail {s : Server} {req : Request} {q : Query}
      {flights : Multiset (Request × (Query ⊕ Rows))} (hf : s.flights = (req, .inl q) ::ₘ flights) :
      ProofStep P s (.answered req .internalError) { s with flights }
  | goOn {s : Server} {req : Request} {rows : Rows} {q : Query} {cache : ProofCache}
      {flights : Multiset (Request × (Query ⊕ Rows))} (now : ℤ)
      (hf : s.flights = (req, .inr rows) ::ₘ flights)
      (h : resume P s.cache now req.denomId req.commitment rows = (cache, .inl q)) :
      ProofStep P s .went { s with cache, flights := (req, .inl q) ::ₘ flights }
  | answer {s : Server} {req : Request} {rows : Rows} {reply : Reply} {cache : ProofCache}
      {flights : Multiset (Request × (Query ⊕ Rows))} (now : ℤ)
      (hf : s.flights = (req, .inr rows) ::ₘ flights)
      (h : resume P s.cache now req.denomId req.commitment rows = (cache, .inr reply)) :
      ProofStep P s (.answered req reply) { s with cache, flights }

/-! ### Leaves that grow -/

/-- The leaves of a denomination, in the order of their indices. -/
def Db.leaves (db : Db) (d : UInt8) : List (Bytes 32) :=
  (db.tree d).map Prod.snd

/-- Every denomination has its leaves from index zero on. -/
def Db.Contiguous (db : Db) : Prop :=
  ∀ d, db.Stores d (db.leaves d) ∧ (db.leaves d).length ≤ 2 ^ MERKLE_DEPTH

def Db.Grown (db db' : Db) : Prop :=
  ∀ d, db.leaves d <+: db'.leaves d

/-- **The runs of the server**, from leaves without a gap, nothing kept and no request. -/
def ProofRun (P : Poseidon) : List ProofEvent → Server → Prop :=
  Run (fun s => s.db.Contiguous ∧ s.cache = (fun _ => none) ∧ s.flights = 0) (ProofStep P)

variable {P : Poseidon} {db db' : Db} {d : UInt8} {c : List UInt8}

theorem Db.Stores.leaves_eq {xs : List (Bytes 32)} (h : db.Stores d xs) : db.leaves d = xs := by
  rw [Db.leaves, h.tree_eq, numbered, List.map_map]
  exact List.zipIdx_map_fst 0 xs

/-- **The next leaf** comes after the others, and no other denomination has it. -/
theorem Db.Contiguous.insert (hdb : db.Contiguous) {xs : List (Bytes 32)} (h : db.Stores d xs)
    (hroom : xs.length < 2 ^ MERKLE_DEPTH) (c : Bytes 32) (slot : ℕ) :
    (db.insertCommitment ⟨d, xs.length, c, slot⟩).Contiguous ∧
      db.Grown (db.insertCommitment ⟨d, xs.length, c, slot⟩) := by
  have hsame : (db.insertCommitment ⟨d, xs.length, c, slot⟩).leaves d = xs ++ [c] :=
    (h.insert c slot).leaves_eq
  have hother : ∀ e, e ≠ d →
      (db.insertCommitment ⟨d, xs.length, c, slot⟩).rowsOf e = db.rowsOf e :=
    fun e he => Db.rowsOf_insertCommitment (Ne.symm he)
  have hleaves : ∀ e, e ≠ d →
      (db.insertCommitment ⟨d, xs.length, c, slot⟩).leaves e = db.leaves e := by
    intro e he
    rw [Db.leaves, Db.tree, hother e he]
    rfl
  constructor
  · intro e
    by_cases he : e = d
    · subst he
      rw [hsame, List.length_append, List.length_singleton]
      exact ⟨h.insert c slot, hroom⟩
    · rw [hleaves e he, Db.Stores, hother e he]
      exact hdb e
  · intro e
    by_cases he : e = d
    · subst he
      rw [hsame, h.leaves_eq]
      exact List.prefix_append xs [c]
    · rw [hleaves e he]

/-! ### Bodies over the first leaves -/

/-- The commitment is the leaf at an index. -/
def LeafAt (leaves : List (Bytes 32)) (index : ℤ) (c : List UInt8) : Prop :=
  ∃ (i : ℕ) (leaf : Bytes 32), index = i ∧ leaves[i]? = some leaf ∧ leaf.toList = c

theorem LeafAt.mono {xs ys : List (Bytes 32)} {index : ℤ} (h : LeafAt xs index c)
    (hpre : xs <+: ys) : LeafAt ys index c := by
  obtain ⟨i, leaf, hi, hleaf, hc⟩ := h
  obtain ⟨more, rfl⟩ := hpre
  have hlt := (List.getElem?_eq_some_iff.mp hleaf).1
  exact ⟨i, leaf, hi, (List.getElem?_append_left hlt).trans hleaf, hc⟩

/-- **A body is a new answer** over the first leaves that there are. -/
structure Sound (P : Poseidon) (db : Db) (d : UInt8) (c : List UInt8) (body : ProofBody) :
    Prop where
  count : body.leafCount ≤ (db.leaves d).length
  leaf : LeafAt ((db.leaves d).take body.leafCount) body.leafIndex c
  body : missBody P d ((db.leaves d).take body.leafCount) body.leafIndex = .ok body

theorem Sound.mono {body : ProofBody} (h : Sound P db d c body) (hgrown : db.Grown db') :
    Sound P db' d c body := by
  have htake : (db'.leaves d).take body.leafCount = (db.leaves d).take body.leafCount := by
    obtain ⟨more, hmore⟩ := hgrown d
    rw [← hmore, List.take_append_of_le_length h.count]
  refine ⟨h.count.trans (hgrown d).length_le, ?_, ?_⟩
  · rw [htake]
    exact h.leaf
  · rw [htake]
    exact h.body

/-- What is kept under the key of a commitment is about that commitment. -/
def CacheOk (P : Poseidon) (db : Db) (cache : ProofCache) : Prop :=
  ∀ key cached, cache key = some cached → cached.leafCount = cached.body.leafCount ∧
    ∃ d c, key = cacheKey d c ∧ Sound P db d c cached.body

theorem colon_notMem_hexOf (bs : List UInt8) : ':' ∉ hexOf bs := by
  have hdigit : ∀ n < 16, ':' ≠ Nat.digitChar n := by decide
  intro hmem
  obtain ⟨b, -, hb⟩ := List.mem_flatMap.mp hmem
  have hlt := b.toNat_lt
  rcases List.mem_cons.mp hb with hb | hb
  · exact hdigit _ (by omega) hb
  · exact hdigit _ (by omega) (List.mem_singleton.mp hb)

/-- A key is of one commitment. -/
theorem cacheKey_inj {d' : UInt8} {c' : List UInt8} :
    cacheKey d c = cacheKey d' c' ↔ d = d' ∧ c = c' := by
  constructor
  · intro h
    have hdigits : ':' ∉ (toString d.toNat).toList := fun hmem =>
      absurd (BigIntText.isDigit_of_mem_toString hmem) (by decide)
    have hlists : (toString d.toNat).toList ++ ':' :: hexOf c =
        (toString d'.toNat).toList ++ ':' :: hexOf c' := by
      simpa [cacheKey] using congrArg String.toList h
    obtain ⟨hd, -, hc⟩ := (List.append_cons_inj_of_notMem hdigits (colon_notMem_hexOf c)).mp hlists
    exact ⟨UInt8.toNat_inj.mp (BigIntText.toString_injective (String.toList_inj.mp hd)),
      hexOf_injective hc⟩
  · rintro ⟨rfl, rfl⟩
    rfl

/-! ### What a request knows -/

/-- How many leaves there were when it came. -/
def Request.before (req : Request) : ℕ :=
  (req.begun.leaves req.denomId).length

/-- **What a request in flight has found** is of leaves that are still the first ones, and no fewer
than when it came. -/
def FlightOk (P : Poseidon) (db : Db) (req : Request) : Query ⊕ Rows → Prop
  | .inl .count | .inl .target | .inr (.target none) => req.before ≤ (db.leaves req.denomId).length
  | .inr (.count currentCount) =>
      req.before ≤ currentCount ∧ currentCount ≤ (db.leaves req.denomId).length
  | .inr (.target (some index)) | .inl (.leaves index) =>
      req.before ≤ (db.leaves req.denomId).length ∧
        LeafAt (db.leaves req.denomId) index req.commitment
  | .inr (.leaves index rows) =>
      ∃ xs, xs <+: db.leaves req.denomId ∧ req.before ≤ xs.length ∧ rows = numbered xs ∧
        LeafAt xs index req.commitment
  | .inl (.root index leaves path) | .inr (.root index leaves path _) =>
      ∃ xs, xs <+: db.leaves req.denomId ∧ req.before ≤ xs.length ∧
        (leaves = xs.map fun leaf => beToBigInt leaf.toList) ∧ LeafAt xs index req.commitment ∧
        buildInclusionPath P leaves index = .ok path

theorem FlightOk.mono {req : Request} {phase : Query ⊕ Rows} (h : FlightOk P db req phase)
    (hgrown : db.Grown db') : FlightOk P db' req phase := by
  have hpre := hgrown req.denomId
  have hle := hpre.length_le
  match phase with
  | .inl .count | .inl .target | .inr (.target none) => exact Nat.le_trans h hle
  | .inr (.count currentCount) => exact ⟨h.1, h.2.trans hle⟩
  | .inr (.target (some index)) | .inl (.leaves index) =>
      exact ⟨h.1.trans hle, h.2.mono hpre⟩
  | .inr (.leaves index rows) =>
      obtain ⟨xs, hxs, hrest⟩ := h
      exact ⟨xs, hxs.trans hpre, hrest⟩
  | .inl (.root index leaves path) | .inr (.root index leaves path _) =>
      obtain ⟨xs, hxs, hrest⟩ := h
      exact ⟨xs, hxs.trans hpre, hrest⟩

/-- A proof that is answered. -/
def AnswerOk (P : Poseidon) (db : Db) (req : Request) (reply : Reply) : Prop :=
  ∀ hit body, reply = .proof hit body →
    Sound P db req.denomId req.commitment body ∧ req.before ≤ body.leafCount

/-- **A query** finds what is there. -/
theorem flightOk_of_executes (hdb : db.Contiguous) {roots : List RootRow} {req : Request}
    {q : Query} {rows : Rows} (hq : FlightOk P db req (.inl q))
    (h : Executes db roots req.denomId req.commitment q rows) : FlightOk P db req (.inr rows) := by
  obtain ⟨hstores, -⟩ := hdb req.denomId
  cases h with
  | count =>
      have hlength : (db.rowsOf req.denomId).length = (db.leaves req.denomId).length := by
        have hmap := congrArg List.length hstores
        rwa [List.length_map, numbered, List.length_map, List.length_zipIdx] at hmap
      rw [hlength]
      exact ⟨hq, le_refl _⟩
  | found hrow hcommitment =>
      obtain ⟨i, hi, hleaf⟩ := hstores.mem hrow
      exact ⟨hq, i, _, hi, hleaf, hcommitment⟩
  | missing => exact hq
  | leaves => exact ⟨_, List.prefix_refl _, hq.1, hstores.tree_eq, hq.2⟩
  | root => exact hq

/-- A body over leaves that come first. -/
theorem sound_of_proofBody {xs : List (Bytes 32)} {index : ℤ} {path : InclusionPath}
    {body : ProofBody} (hxs : xs <+: db.leaves d) (hleaf : LeafAt xs index c)
    (hpath : buildInclusionPath P (xs.map fun leaf => beToBigInt leaf.toList) index = .ok path)
    (hbody : proofBody d index (xs.map fun leaf => beToBigInt leaf.toList) path = .ok body) :
    Sound P db d c body := by
  obtain ⟨-, -, -, hindex, hcount, -⟩ := proofBody_eq_ok.mp hbody
  rw [List.length_map] at hcount
  have htake : (db.leaves d).take body.leafCount = xs := by
    rw [hcount]
    exact (List.prefix_iff_eq_take.mp hxs).symm
  refine ⟨hcount ▸ hxs.length_le, ?_, ?_⟩
  · rw [htake, hindex]
    exact hleaf
  · rw [htake, hindex, missBody, hpath]
    exact hbody

/-- A new answer is kept. -/
theorem CacheOk.update {cache : ProofCache} (hcache : CacheOk P db cache) {leafCount : ℕ}
    {body : ProofBody} (hcount : leafCount = body.leafCount) (hsound : Sound P db d c body)
    (expires : ℤ) :
    CacheOk P db (Function.update cache (cacheKey d c) (some { leafCount, expires, body })) := by
  intro key cached hkept
  by_cases hkey : key = cacheKey d c
  · subst hkey
    rw [Function.update_self] at hkept
    obtain rfl := Option.some.inj hkept
    exact ⟨hcount, _, _, rfl, hsound⟩
  · rw [Function.update_of_ne hkey] at hkept
    exact hcache key cached hkept

/-- **The route** goes on with what it has found, keeps no other answers and gives no other. -/
theorem resume_ok {cache : ProofCache} (hcache : CacheOk P db cache) (now : ℤ) {req : Request}
    {rows : Rows} (h : FlightOk P db req (.inr rows)) {cache' : ProofCache} {out : Query ⊕ Reply}
    (hresume : resume P cache now req.denomId req.commitment rows = (cache', out)) :
    CacheOk P db cache' ∧ out.elim (fun q => FlightOk P db req (.inl q)) (AnswerOk P db req) := by
  match rows with
  | .count currentCount =>
      rw [resume] at hresume
      split at hresume
      case h_1 cached hcached =>
        obtain ⟨rfl, rfl⟩ := Prod.mk.inj hresume
        obtain ⟨hkept, hpasses⟩ := Option.filter_eq_some_iff.mp hcached
        obtain ⟨hcount, d, c, hkey, hsound⟩ := hcache _ _ hkept
        obtain ⟨rfl, rfl⟩ := cacheKey_inj.mp hkey
        refine ⟨hcache, ?_⟩
        rintro hit body ⟨⟩
        refine ⟨hsound, ?_⟩
        -- what is kept counts as many leaves as the first query has just found
        rw [← hcount, (of_decide_eq_true hpasses).1]
        exact h.1
      case h_2 =>
        obtain ⟨rfl, rfl⟩ := Prod.mk.inj hresume
        exact ⟨hcache, h.1.trans h.2⟩
  | .target none =>
      obtain ⟨rfl, rfl⟩ := Prod.mk.inj hresume
      refine ⟨hcache, ?_⟩
      rintro hit body ⟨⟩
  | .target (some index) =>
      obtain ⟨rfl, rfl⟩ := Prod.mk.inj hresume
      exact ⟨hcache, h⟩
  | .leaves index rows =>
      obtain ⟨xs, hxs, hbefore, rfl, hleaf⟩ := h
      rw [resume] at hresume
      split at hresume
      case h_1 =>
        obtain ⟨rfl, rfl⟩ := Prod.mk.inj hresume
        refine ⟨hcache, ?_⟩
        rintro hit body ⟨⟩
      case h_2 =>
        have hleaves : ((numbered xs).map fun row => beToBigInt row.2.toList) =
            xs.map fun leaf => beToBigInt leaf.toList := by
          rw [numbered, List.map_map, ← List.zipIdx_map_fst 0 xs, List.map_map, List.zipIdx_map_fst]
          rfl
        simp only [hleaves] at hresume
        split at hresume
        case h_1 =>
          obtain ⟨rfl, rfl⟩ := Prod.mk.inj hresume
          refine ⟨hcache, ?_⟩
          rintro hit body ⟨⟩
        case h_2 path hpath =>
          obtain ⟨rfl, rfl⟩ := Prod.mk.inj hresume
          exact ⟨hcache, ⟨xs, hxs, hbefore, rfl, hleaf, hpath⟩⟩
  | .root index leaves path rootBe =>
      obtain ⟨xs, hxs, hbefore, rfl, hleaf, hpath⟩ := h
      rw [resume] at hresume
      split at hresume
      case h_1 =>
        obtain ⟨rfl, rfl⟩ := Prod.mk.inj hresume
        refine ⟨hcache, ?_⟩
        rintro hit body hproof
        -- another root is stored, and the answer is no proof
        rw [rootMismatch] at hproof
        split at hproof <;> cases hproof
      case h_2 =>
        split at hresume
        case h_1 =>
          obtain ⟨rfl, rfl⟩ := Prod.mk.inj hresume
          refine ⟨hcache, ?_⟩
          rintro hit body ⟨⟩
        case h_2 body hbody =>
          obtain ⟨rfl, rfl⟩ := Prod.mk.inj hresume
          obtain ⟨-, -, -, -, hcount, -⟩ := proofBody_eq_ok.mp hbody
          have hsound := sound_of_proofBody hxs hleaf hpath hbody
          refine ⟨hcache.update hcount.symm hsound _, ?_⟩
          rintro hit _ ⟨⟩
          exact ⟨hsound, by rwa [hcount, List.length_map]⟩

/-! ### Every answer -/

/-- **What holds of a server** and of the answers it has given. -/
structure ProofInv (P : Poseidon) (log : List ProofEvent) (s : Server) : Prop where
  contiguous : s.db.Contiguous
  cache : CacheOk P s.db s.cache
  flights : ∀ flight ∈ s.flights, FlightOk P s.db flight.1 flight.2
  answers : ∀ req reply, .answered req reply ∈ log → AnswerOk P s.db req reply

variable {log : List ProofEvent} {s s' : Server} {e : ProofEvent}

theorem AnswerOk.mono {req : Request} {reply : Reply} (h : AnswerOk P db req reply)
    (hgrown : db.Grown db') : AnswerOk P db' req reply := by
  intro hit body hproof
  obtain ⟨hsound, hbefore⟩ := h hit body hproof
  exact ⟨hsound.mono hgrown, hbefore⟩

theorem CacheOk.mono {cache : ProofCache} (h : CacheOk P db cache) (hgrown : db.Grown db') :
    CacheOk P db' cache := by
  intro key cached hkept
  obtain ⟨hcount, d, c, hkey, hsound⟩ := h key cached hkept
  exact ⟨hcount, d, c, hkey, hsound.mono hgrown⟩

/-- What an event adds to the answers. -/
theorem answers_snoc (h : ∀ req reply, .answered req reply ∈ log → AnswerOk P db req reply)
    (hnew : ∀ req reply, e = .answered req reply → AnswerOk P db req reply) :
    ∀ req reply, .answered req reply ∈ log ++ [e] → AnswerOk P db req reply := by
  intro req reply hmem
  rcases List.mem_append.mp hmem with hmem | hmem
  · exact h req reply hmem
  · exact hnew req reply (List.mem_singleton.mp hmem).symm

/-- An event that is no answer. -/
theorem answers_silent (h : ∀ req reply, .answered req reply ∈ log → AnswerOk P db req reply)
    (he : e = .wrote ∨ e = .went ∨ ∃ query reply, e = .refused query reply) :
    ∀ req reply, .answered req reply ∈ log ++ [e] → AnswerOk P db req reply := by
  refine answers_snoc h ?_
  rintro req reply rfl
  obtain he | he | ⟨query, reply, he⟩ := he <;> cases he

/-- The flight that a step is about, and the others. -/
theorem ProofInv.flight (h : ProofInv P log s) {flight : Request × (Query ⊕ Rows)}
    {others : Multiset (Request × (Query ⊕ Rows))} (hf : s.flights = flight ::ₘ others) :
    FlightOk P s.db flight.1 flight.2 ∧ ∀ other ∈ others, FlightOk P s.db other.1 other.2 := by
  have hall := h.flights
  rw [hf] at hall
  exact ⟨hall _ (Multiset.mem_cons_self _ _),
    fun other hmem => hall other (Multiset.mem_cons_of_mem hmem)⟩

theorem ProofInv.step (h : ProofInv P log s) (hs : ProofStep P s e s') :
    ProofInv P (log ++ [e]) s' := by
  cases hs with
  | insert c slot hstores hroom =>
      obtain ⟨hcontiguous, hgrown⟩ := h.contiguous.insert hstores hroom c slot
      exact ⟨hcontiguous, h.cache.mono hgrown,
        fun flight hmem => (h.flights flight hmem).mono hgrown,
        answers_silent (fun req reply hmem => (h.answers req reply hmem).mono hgrown) (.inl rfl)⟩
  | upsertRoot row =>
      exact ⟨h.contiguous, h.cache, h.flights, answers_silent h.answers (.inl rfl)⟩
  | refuse hread =>
      exact ⟨h.contiguous, h.cache, h.flights, answers_silent h.answers (.inr (.inr ⟨_, _, rfl⟩))⟩
  | receive hread =>
      refine ⟨h.contiguous, h.cache, fun flight hmem => ?_,
        answers_silent h.answers (.inr (.inl rfl))⟩
      rcases Multiset.mem_cons.mp hmem with rfl | hmem
      · -- it begins with the leaves that there are
        exact le_refl _
      · exact h.flights flight hmem
  | execute hf hexec =>
      obtain ⟨hflight, hothers⟩ := h.flight hf
      refine ⟨h.contiguous, h.cache, fun flight hmem => ?_,
        answers_silent h.answers (.inr (.inl rfl))⟩
      rcases Multiset.mem_cons.mp hmem with rfl | hmem
      · exact flightOk_of_executes h.contiguous hflight hexec
      · exact hothers flight hmem
  | fail hf =>
      refine ⟨h.contiguous, h.cache, (h.flight hf).2, answers_snoc h.answers ?_⟩
      rintro _ _ ⟨⟩ hit body ⟨⟩
  | goOn now hf hresume =>
      obtain ⟨hflight, hothers⟩ := h.flight hf
      obtain ⟨hcache, hnext⟩ := resume_ok h.cache _ hflight hresume
      refine ⟨h.contiguous, hcache, fun flight hmem => ?_,
        answers_silent h.answers (.inr (.inl rfl))⟩
      rcases Multiset.mem_cons.mp hmem with rfl | hmem
      · exact hnext
      · exact hothers flight hmem
  | answer now hf hresume =>
      obtain ⟨hflight, hothers⟩ := h.flight hf
      obtain ⟨hcache, hanswer⟩ := resume_ok h.cache _ hflight hresume
      refine ⟨h.contiguous, hcache, hothers, answers_snoc h.answers ?_⟩
      rintro _ _ ⟨⟩
      exact hanswer

theorem proofInv_of_run (h : ProofRun P log s) : ProofInv P log s := by
  refine h.invariant (ProofInv P) ?_ fun log s e s' _ hinv hs => hinv.step hs
  rintro s ⟨hcontiguous, hcache, hflights⟩
  refine ⟨hcontiguous, fun key cached hkept => ?_, fun flight hmem => ?_, nofun⟩
  · rw [hcache] at hkept
    cases hkept
  · rw [hflights] at hmem
    exact absurd hmem (Multiset.notMem_zero _)

/-- **Every proof that is answered**, kept or new, proves the commitment that was asked for in the
first leaves, as many as it counts and no fewer than when the request came; and it is what a request
that finds nothing kept is answered over them. -/
theorem proof_answers_consistent (P : Poseidon) {log : List ProofEvent} {s : Server}
    (h : ProofRun P log s) {req : Request} {hit : Bool} {body : ProofBody}
    (hanswer : .answered req (.proof hit body) ∈ log) :
    body.leafCount ≤ (s.db.leaves req.denomId).length ∧
      Proves P ((s.db.leaves req.denomId).take body.leafCount) req.commitment body ∧
      (req.begun.leaves req.denomId).length ≤ body.leafCount ∧
      missBody P req.denomId ((s.db.leaves req.denomId).take body.leafCount) body.leafIndex =
        .ok body := by
  have hinv := proofInv_of_run h
  obtain ⟨hsound, hbefore⟩ := hinv.answers _ _ hanswer hit body rfl
  obtain ⟨i, leaf, hi, hleaf, hcommitment⟩ := hsound.leaf
  have hfit : ((s.db.leaves req.denomId).take body.leafCount).length ≤ 2 ^ MERKLE_DEPTH :=
    (List.length_take_le' _ _).trans (hinv.contiguous req.denomId).2
  have hmiss := hsound.body
  rw [hi] at hmiss
  refine ⟨hsound.count, ?_, hbefore, hsound.body⟩
  rw [← hcommitment]
  exact proves_of_missBody hfit hleaf hmiss

/-! ### Two requests -/

theorem Db.contiguous_empty : Db.empty.Contiguous := by
  intro d
  have hstores := Db.Stores.empty d
  rw [hstores.leaves_eq]
  exact ⟨hstores, Nat.zero_le _⟩

/-- The rows of one leaf. -/
def dbOf (x : Bytes 32) : Db :=
  Db.empty.insertCommitment ⟨0, (0 : ℕ), x, 0⟩

theorem dbOf_stores (x : Bytes 32) : (dbOf x).Stores 0 [x] :=
  (Db.Stores.empty 0).insert x 0

theorem firstGap_numbered (xs : List (Bytes 32)) : firstGap (numbered xs) = none := by
  rw [firstGap, Option.map_eq_none_iff, List.find?_eq_none]
  rintro ⟨row, i⟩ hrow
  have hi := List.mem_zipIdx_iff_getElem?.mp hrow
  rw [numbered, List.getElem?_map, List.getElem?_zipIdx] at hi
  obtain ⟨x, -, rfl⟩ : ∃ x, xs[i]? = some x ∧ ((i : ℤ), x) = row := by simpa using hi
  simp

/-- A leaf is inserted, asked for, and found. -/
theorem exists_found (P : Poseidon) {query : ProofQuery} {x : Bytes 32}
    (hread : readQuery query = .ok (0, x.toList)) : ∃ log,
      ProofRun P log ⟨dbOf x, [], fun _ => none,
        {((⟨query, 0, x.toList, hread, dbOf x⟩ : Request), .inl (.leaves 0))}⟩ := by
  let req : Request := ⟨query, 0, x.toList, hread, dbOf x⟩
  have hroom : ([] : List (Bytes 32)).length < 2 ^ MERKLE_DEPTH := by norm_num
  have hrow : (⟨0, (0 : ℕ), x, 0⟩ : CommitmentRow) ∈ (dbOf x).rowsOf 0 :=
    List.mem_singleton_self _
  have hstart : ProofRun P [] ⟨Db.empty, [], fun _ => none, 0⟩ :=
    .start ⟨Db.contiguous_empty, rfl, rfl⟩
  have hinsert : ProofRun P _ ⟨dbOf x, [], fun _ => none, 0⟩ :=
    hstart.snoc (.insert x 0 (Db.Stores.empty 0) hroom)
  have hreceive : ProofRun P _ ⟨dbOf x, [], fun _ => none, {(req, .inl .count)}⟩ :=
    hinsert.snoc (.receive hread)
  have hcount : ProofRun P _ ⟨dbOf x, [], fun _ => none, {(req, .inr (.count 1))}⟩ :=
    hreceive.snoc (.execute rfl .count)
  have htarget : ProofRun P _ ⟨dbOf x, [], fun _ => none, {(req, .inl .target)}⟩ :=
    hcount.snoc (.goOn 0 rfl rfl)
  have hfound : ProofRun P _ ⟨dbOf x, [], fun _ => none, {(req, .inr (.target (some 0)))}⟩ :=
    htarget.snoc (.execute rfl (.found hrow rfl))
  exact ⟨_, hfound.snoc (.goOn 0 rfl rfl)⟩

/-- The first leaf is proved in those that there are, and the answer is kept. -/
theorem exists_answered_leaves {req : Request} {xs : List (Bytes 32)}
    (h : ProofRun P log ⟨db, [], fun _ => none, {(req, .inl (.leaves 0))}⟩)
    (hxs : db.Stores req.denomId xs) (hne : 0 < xs.length) : ∃ log' body,
      ProofRun P (log ++ log') ⟨db, [], Function.update (fun _ => none)
        (cacheKey req.denomId req.commitment) (some ⟨xs.length, 0 + PROOF_CACHE_TTL_MS, body⟩), 0⟩ ∧
      .answered req (.proof false body) ∈ log' := by
  obtain ⟨body, hbody⟩ := exists_missBody P req.denomId hne
  obtain ⟨path, hpath, hbody⟩ := bind_eq_ok.mp hbody
  let leaves := xs.map fun leaf => beToBigInt leaf.toList
  have hleaves : ((numbered xs).map fun row => beToBigInt row.2.toList) = leaves := by
    have hfst := congrArg (List.map fun leaf => beToBigInt leaf.toList) (List.zipIdx_map_fst 0 xs)
    rw [List.map_map] at hfst
    rw [numbered, List.map_map]
    exact hfst
  have hrows : ProofRun P _ ⟨db, [], fun _ => none, {(req, .inr (.leaves 0 (numbered xs)))}⟩ :=
    h.snoc (.execute rfl (hxs.tree_eq ▸ .leaves))
  have hbuilt : resume P (fun _ => none) 0 req.denomId req.commitment (.leaves 0 (numbered xs)) =
      (fun _ => none, .inl (.root 0 leaves path)) := by
    have hpath' : buildInclusionPath P leaves 0 = .ok path := hpath
    simp only [resume, firstGap_numbered, hleaves, hpath']
  have hroot : ProofRun P _ ⟨db, [], fun _ => none, {(req, .inl (.root 0 leaves path))}⟩ :=
    hrows.snoc (.goOn 0 rfl hbuilt)
  have hstored : ProofRun P _ ⟨db, [], fun _ => none, {(req, .inr (.root 0 leaves path none))}⟩ :=
    hroot.snoc (.execute rfl .root)
  have hanswer : resume P (fun _ => none) 0 req.denomId req.commitment (.root 0 leaves path none) =
      (Function.update (fun _ => none) (cacheKey req.denomId req.commitment)
        (some ⟨xs.length, 0 + PROOF_CACHE_TTL_MS, body⟩), .inr (.proof false body)) := by
    have hbody' : proofBody req.denomId 0 leaves path = .ok body := hbody
    have hlength : leaves.length = xs.length := List.length_map ..
    simp only [resume, hbody', hlength, Option.map_none, Option.filter_none]
  have hflights : ({(req, .inr (.root 0 leaves path none))} :
      Multiset (Request × (Query ⊕ Rows))) = (req, .inr (.root 0 leaves path none)) ::ₘ 0 := rfl
  have hlast := hstored.snoc (.answer 0 hflights hanswer)
  simp only [List.append_assoc] at hlast
  exact ⟨_, body, hlast, by simp⟩

/-- A leaf is inserted, asked for, and proved. -/
theorem exists_answered_query (P : Poseidon) {query : ProofQuery} {x : Bytes 32}
    (hread : readQuery query = .ok (0, x.toList)) : ∃ log s req body,
      ProofRun P log s ∧ .answered req (.proof false body) ∈ log ∧ req.query = query ∧
        s.db.leaves 0 = [x] := by
  obtain ⟨log, h⟩ := exists_found P hread
  obtain ⟨log', body, hrun, hanswer⟩ := exists_answered_leaves h (dbOf_stores x) Nat.one_pos
  exact ⟨_, _, _, body, hrun, List.mem_append_right _ hanswer, rfl, (dbOf_stores x).leaves_eq⟩

/-- The leaf whose number is asked for below, and another. -/
def firstLeaf : Bytes 32 :=
  Bytes.ofNat 32 31

def secondLeaf : Bytes 32 :=
  Bytes.ofNat 32 32

def firstQuery : ProofQuery where
  denomId := some "0"
  commitment := some "31"

theorem readQuery_firstQuery : readQuery firstQuery = .ok (0, firstLeaf.toList) := by
  decide +kernel

/-- A leaf is inserted between the queries of a first request, and a second is answered with what
the first has kept. -/
theorem exists_answered_twice (P : Poseidon) : ∃ log s req req' body,
    ProofRun P log s ∧ req.begun.leaves 0 = [firstLeaf] ∧
    s.db.leaves 0 = [firstLeaf, secondLeaf] ∧
    .answered req (.proof false body) ∈ log ∧ .answered req' (.proof true body) ∈ log := by
  have hstores := (dbOf_stores firstLeaf).insert secondLeaf 0
  let db : Db := (dbOf firstLeaf).insertCommitment ⟨0, [firstLeaf].length, secondLeaf, 0⟩
  obtain ⟨log, h⟩ := exists_found P readQuery_firstQuery
  have hroom : [firstLeaf].length < 2 ^ MERKLE_DEPTH := Nat.one_lt_two_pow (by decide)
  obtain ⟨log', body, hrun, hanswer⟩ := exists_answered_leaves
    (h.snoc (.insert secondLeaf 0 (dbOf_stores firstLeaf) hroom)) hstores Nat.two_pos
  let req : Request := ⟨firstQuery, 0, firstLeaf.toList, readQuery_firstQuery, dbOf firstLeaf⟩
  let again : Request := ⟨firstQuery, 0, firstLeaf.toList, readQuery_firstQuery, db⟩
  let cache : ProofCache := Function.update (fun _ => none) (cacheKey 0 firstLeaf.toList)
    (some ⟨2, 0 + PROOF_CACHE_TTL_MS, body⟩)
  have hreceive : ProofRun P _ ⟨db, [], cache, {(again, .inl .count)}⟩ :=
    hrun.snoc (.receive readQuery_firstQuery)
  have hcount : ProofRun P _ ⟨db, [], cache, {(again, .inr (.count 2))}⟩ :=
    hreceive.snoc (.execute rfl .count)
  have hkept : resume P cache 0 0 firstLeaf.toList (.count 2) =
    (cache, .inr (.proof true body)) := by
    rw [resume, show cache (cacheKey 0 firstLeaf.toList) = _ from Function.update_self ..]
    rfl
  have hflights : ({(again, .inr (.count 2))} : Multiset (Request × (Query ⊕ Rows))) =
      (again, .inr (.count 2)) ::ₘ 0 := rfl
  refine ⟨_, _, req, again, body, hcount.snoc (.answer 0 hflights hkept),
    (dbOf_stores firstLeaf).leaves_eq, hstores.leaves_eq, ?_, ?_⟩
  · exact List.mem_append_left _ (List.mem_append_left _ (List.mem_append_left _
      (List.mem_append_right _ hanswer)))
  · exact List.mem_append_right _ (List.mem_singleton_self _)

/-- Both answers are proofs in the two leaves that there are, and the second is the kept one. -/
theorem proof_answers_consistent_kept : ∃ log s req req' body,
    ProofRun circom log s ∧ req.begun.leaves 0 = [firstLeaf] ∧
    s.db.leaves 0 = [firstLeaf, secondLeaf] ∧
    .answered req (.proof false body) ∈ log ∧ .answered req' (.proof true body) ∈ log ∧
    Proves circom ((s.db.leaves req.denomId).take body.leafCount) req.commitment body ∧
    Proves circom ((s.db.leaves req'.denomId).take body.leafCount) req'.commitment body := by
  obtain ⟨log, s, req, req', body, h, hbegun, hleaves, hanswer, hanswer'⟩ :=
    exists_answered_twice circom
  exact ⟨log, s, req, req', body, h, hbegun, hleaves, hanswer, hanswer',
    (proof_answers_consistent circom h hanswer).2.1,
    (proof_answers_consistent circom h hanswer').2.1⟩

end Qietr.Indexer
