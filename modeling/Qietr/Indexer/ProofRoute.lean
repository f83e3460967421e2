import Qietr.Indexer.Db
import Qietr.Library.NumberText
import Qietr.Trees.Agreement

/-!
# Indexer — the answer to a request for a proof

`merkle-proof.ts` and the texts of `poseidon-tree.ts`: a request is answered from four queries, one
after the other, and from the answers that are kept.

* `parseCommitmentParam`, `bigIntToHexBE32`, `beToBigInt`: numbers as texts and as bytes.
* `readQuery`: the parameters of a request; `Query`, `Rows`: what it asks the database, and gets.
* `Executes`: a query over the rows that are there; `resume`: what the route makes of them.
* `missBody`: the body over a list of leaves; `Proves`: what it says; `proves_of_missBody`.
-/

namespace Qietr.Indexer

open Outcome BigIntText NumberText HashTree Pool

/-! ### Numbers -/

/-- `^(0[xX][0-9a-fA-F]+|[0-9]+)$`. -/
def matchesCommitment : List Char → Bool
  | '0' :: 'x' :: cs | '0' :: 'X' :: cs =>
      cs ≠ [] && cs.all fun c => (digitValue c).any (· < 16)
  | cs => cs ≠ [] && cs.all Char.isDigit

/-- The bytes of a commitment, given in hexadecimal or in decimal. -/
def parseCommitmentParam (s : String) : Except String (List UInt8) := do
  let trimmed := trim s.toList
  require (matchesCommitment trimmed) "commitment must be a hex (0x…) or decimal integer string"
  let n ← okOr (bigIntOfString (String.ofList trimmed))
    s!"Cannot convert {String.ofList trimmed} to a BigInt"
  require (0 ≤ n) "commitment must be non-negative"
  require (n < r) "commitment is not a valid BN254 field element (>= prime)"
  let hex := toRadix 16 n
  require (hex.length ≤ 64) "commitment exceeds 32 bytes"
  .ok (bufferOfHex (padStart 64 '0' hex))

example : parseCommitmentParam " 0x1F " = .ok (List.replicate 31 0 ++ [31]) := by decide +kernel

def beToBigInt (buf : List UInt8) : ℕ :=
  buf.foldl (fun n b => n <<< 8 ||| b.toNat) 0

def bigIntToHexBE32 (n : ℕ) : Except String String := do
  let hex := toRadix 16 n
  require (hex.length ≤ 64) "value exceeds 32 bytes"
  .ok (String.ofList ('0' :: 'x' :: padStart 64 '0' hex))

/-! ### A request -/

structure ProofQuery where
  denomId : Option String
  commitment : Option String

/-- The body of an answer. -/
structure ProofBody where
  denomId : UInt8
  leafIndex : ℤ
  leafCount : ℕ
  root : String
  pathElements : List String
  pathIndices : List ℕ
  deriving DecidableEq

/-- An answer: the proof with status 200, kept or new; before it 400, 404 and 500. -/
inductive Reply where
  | missingParam
  | invalidDenomId
  | invalidCommitment (message : String)
  | commitmentNotFound
  | ingestGap (i : ℕ)
  | rootMismatch (expectedRoot computedRoot : String)
  | internalError
  | proof (hit : Bool) (body : ProofBody)
  deriving DecidableEq

/-- The denomination and the commitment that are asked for. -/
def readQuery (query : ProofQuery) : Except Reply (UInt8 × List UInt8) := do
  let denomId ← okOr (query.denomId.filter (· ≠ "")) .missingParam
  let commitment ← okOr (query.commitment.filter (· ≠ "")) .missingParam
  let denomIdNum ← okOr (parseInt 10 denomId.toList) .invalidDenomId
  require (0 ≤ denomIdNum ∧ denomIdNum ≤ 255) .invalidDenomId
  let commitmentBuf ← (parseCommitmentParam commitment).mapError .invalidCommitment
  .ok (UInt8.ofNat denomIdNum.toNat, commitmentBuf)

/-! ### Its queries -/

structure RootRow where
  denomId : UInt8
  leafCount : ℕ
  rootBe : Bytes 32
  insertedSlot : ℕ
  deriving DecidableEq

/-- `ON CONFLICT (denom_id, leaf_count) DO UPDATE`. -/
def upsertRoot (roots : List RootRow) (row : RootRow) : List RootRow :=
  if roots.any fun r => r.denomId = row.denomId ∧ r.leafCount = row.leafCount then
    roots.map fun r =>
      if r.denomId = row.denomId ∧ r.leafCount = row.leafCount then
        { r with rootBe := row.rootBe, insertedSlot := min r.insertedSlot row.insertedSlot }
      else r
  else roots ++ [row]

def storedRoot (roots : List RootRow) (denomId : UInt8) (leafCount : ℕ) : Option (Bytes 32) :=
  (roots.find? fun row => row.denomId = denomId ∧ row.leafCount = leafCount).map RootRow.rootBe

/-- A query, with what the request has found before it. -/
inductive Query where
  | count
  | target
  | leaves (queryIndex : ℤ)
  | root (queryIndex : ℤ) (leaves : List ℕ) (path : InclusionPath)

/-- Its result. -/
inductive Rows where
  | count (currentCount : ℕ)
  | target (leafIndex : Option ℤ)
  | leaves (queryIndex : ℤ) (rows : List (ℤ × Bytes 32))
  | root (queryIndex : ℤ) (leaves : List ℕ) (path : InclusionPath) (rootBe : Option (Bytes 32))

/-- **A query over the rows that are there.**  Any row of the commitment may be the target. -/
inductive Executes (db : Db) (roots : List RootRow) (denomId : UInt8) (commitment : List UInt8) :
    Query → Rows → Prop
  | count : Executes db roots denomId commitment .count (.count (db.rowsOf denomId).length)
  | found {row : CommitmentRow} (h : row ∈ db.rowsOf denomId)
      (hcommitment : row.commitmentBe.toList = commitment) :
      Executes db roots denomId commitment .target (.target (some row.leafIndex))
  | missing (h : ∀ row ∈ db.rowsOf denomId, row.commitmentBe.toList ≠ commitment) :
      Executes db roots denomId commitment .target (.target none)
  | leaves {queryIndex : ℤ} :
      Executes db roots denomId commitment (.leaves queryIndex)
        (.leaves queryIndex (db.tree denomId))
  | root {queryIndex : ℤ} {leaves : List ℕ} {path : InclusionPath} :
      Executes db roots denomId commitment (.root queryIndex leaves path)
        (.root queryIndex leaves path (storedRoot roots denomId leaves.length))

/-! ### The answers that are kept -/

def PROOF_CACHE_TTL_MS : ℤ := 10000

structure CachedProof where
  leafCount : ℕ
  expires : ℤ
  body : ProofBody

abbrev ProofCache := String → Option CachedProof

def cacheKey (denomId : UInt8) (commitment : List UInt8) : String :=
  toString denomId.toNat ++ ":" ++ String.ofList (hexOf commitment)

/-! ### The route -/

/-- The first row whose index is not its place. -/
def firstGap (rows : List (ℤ × Bytes 32)) : Option ℕ :=
  (rows.zipIdx.find? fun row => decide (row.1.1 ≠ row.2)).map Prod.snd

def proofBody (denomId : UInt8) (queryIndex : ℤ) (leaves : List ℕ) (path : InclusionPath) :
    Except String ProofBody := do
  let root ← bigIntToHexBE32 path.root
  let pathElements ← path.pathElements.mapM bigIntToHexBE32
  .ok
    { denomId, leafIndex := queryIndex, leafCount := leaves.length, root, pathElements
      pathIndices := path.pathIndices }

/-- The answer about a root that is not the stored one. -/
def rootMismatch (onChainRoot root : ℕ) : Reply :=
  match bigIntToHexBE32 onChainRoot, bigIntToHexBE32 root with
  | .ok expectedRoot, .ok computedRoot => .rootMismatch expectedRoot computedRoot
  | _, _ => .internalError

/-- **The route** from one query to the next, or to the answer; what it throws is answered too. -/
def resume (P : Poseidon) (cache : ProofCache) (now : ℤ) (denomId : UInt8)
    (commitment : List UInt8) : Rows → ProofCache × (Query ⊕ Reply)
  | .count currentCount =>
      match (cache (cacheKey denomId commitment)).filter fun cached =>
          cached.leafCount = currentCount ∧ now < cached.expires with
      | some cached => (cache, .inr (.proof true cached.body))
      | none => (cache, .inl .target)
  | .target none => (cache, .inr .commitmentNotFound)
  | .target (some leafIndex) => (cache, .inl (.leaves leafIndex))
  | .leaves queryIndex rows =>
      match firstGap rows with
      | some i => (cache, .inr (.ingestGap i))
      | none =>
          let leaves := rows.map fun row => beToBigInt row.2.toList
          match buildInclusionPath P leaves queryIndex with
          | .error _ => (cache, .inr .internalError)
          | .ok path => (cache, .inl (.root queryIndex leaves path))
  | .root queryIndex leaves path rootBe =>
      match (rootBe.map fun root => beToBigInt root.toList).filter (· ≠ path.root) with
      | some onChainRoot => (cache, .inr (rootMismatch onChainRoot path.root))
      | none =>
          match proofBody denomId queryIndex leaves path with
          | .error _ => (cache, .inr .internalError)
          | .ok body =>
              (Function.update cache (cacheKey denomId commitment)
                (some { leafCount := leaves.length, expires := now + PROOF_CACHE_TTL_MS, body }),
                .inr (.proof false body))

/-- What a request that finds nothing kept is answered over these leaves. -/
def missBody (P : Poseidon) (denomId : UInt8) (leaves : List (Bytes 32)) (queryIndex : ℤ) :
    Except String ProofBody := do
  let leaves := leaves.map fun leaf => beToBigInt leaf.toList
  let path ← buildInclusionPath P leaves queryIndex
  proofBody denomId queryIndex leaves path

/-! ### What a body says -/

/-- The path of a body, with its sides. -/
def toPath (elements indices : List ℕ) : List (F × Bool) :=
  List.zipWith (fun x i : ℕ => ((x : F), decide (i = 1))) elements indices

/-- **A body proves the leaf** at its index: as many leaves as it counts have its root, and from the
commitment its path leads there. -/
structure Proves (P : Poseidon) (leaves : List (Bytes 32)) (commitment : List UInt8)
    (body : ProofBody) : Prop where
  leafCount : body.leafCount = leaves.length
  leaf : ∃ (i : ℕ) (leaf : Bytes 32), body.leafIndex = i ∧ leaves[i]? = some leaf ∧
    leaf.toList = commitment
  root : bigIntOfString body.root = some ((fullRoot P (leaves.map decode)).val : ℤ)
  path : ∃ elements : List ℕ, elements.length = MERKLE_DEPTH ∧
    body.pathElements.map bigIntOfString = List.map (fun x : ℕ => some (x : ℤ)) elements ∧
    fold P.two (beNat commitment : F) (toPath elements body.pathIndices) =
      fullRoot P (leaves.map decode)

variable {P : Poseidon} {denomId : UInt8} {leaves : List (Bytes 32)} {body : ProofBody}

/-- A text of 32 bytes is read back. -/
theorem bigIntOfString_hexBE32 {n : ℕ} {s : String} (h : bigIntToHexBE32 n = .ok s) :
    bigIntOfString s = some (n : ℤ) := by
  obtain ⟨hlen, hs⟩ := require_bind_eq_ok.mp h
  obtain rfl := Except.ok.inj hs
  have hnonneg : ¬ ((n : ℤ) < 0) := by omega
  rw [toRadix, if_neg hnonneg, Int.natAbs_natCast] at hlen ⊢
  have hn : n < 16 ^ 64 := (Nat.length_toDigits_le_iff (by norm_num) (by norm_num)).mp hlen
  rw [padStart_toDigits (by norm_num) hn, bigIntOfString_hex fun c hc => isBlank_of_mem_fixed hc,
    digits_fixed (by norm_num) hn]
  rfl

theorem map_bigIntOfString_mapM {elements : List ℕ} {texts : List String}
    (h : elements.mapM bigIntToHexBE32 = .ok texts) :
    texts.map bigIntOfString = List.map (fun x : ℕ => some (x : ℤ)) elements := by
  induction elements generalizing texts with
  | nil =>
      obtain rfl := Except.ok.inj h
      rfl
  | cons x elements ih =>
      rw [List.mapM_cons] at h
      obtain ⟨text, htext, h⟩ := bind_eq_ok.mp h
      obtain ⟨rest, hrest, h⟩ := bind_eq_ok.mp h
      obtain rfl := Except.ok.inj h
      rw [List.map_cons, List.map_cons, bigIntOfString_hexBE32 htext, ih hrest]

theorem proofBody_eq_ok {queryIndex : ℤ} {leaves : List ℕ} {path : InclusionPath} :
    proofBody denomId queryIndex leaves path = .ok body ↔
      bigIntToHexBE32 path.root = .ok body.root ∧
      path.pathElements.mapM bigIntToHexBE32 = .ok body.pathElements ∧
      body.denomId = denomId ∧ body.leafIndex = queryIndex ∧ body.leafCount = leaves.length ∧
      body.pathIndices = path.pathIndices := by
  rw [proofBody, bind_eq_ok]
  simp only [bind_eq_ok]
  constructor
  · rintro ⟨root, hroot, elements, helements, h⟩
    obtain rfl := Except.ok.inj h
    exact ⟨hroot, helements, rfl, rfl, rfl, rfl⟩
  · rintro ⟨hroot, helements, rfl, rfl, hcount, hindices⟩
    exact ⟨_, hroot, _, helements, by rw [← hcount, ← hindices]⟩

theorem map_beToBigInt (leaves : List (Bytes 32)) :
    (leaves.map fun leaf => beToBigInt leaf.toList) = leaves.map Bytes.toNat :=
  List.map_congr_left fun leaf _ => foldl_shiftLeft_or leaf.toList

/-- The path that is built has the siblings of the leaf. -/
theorem toPath_answer {leaves elements : List ℕ} {i d : ℕ}
    (helements : elements.map (fun x : ℕ => (x : F)) =
      (siblings P.two (leafOf leaves) d i).map Prod.fst) :
    toPath elements ((List.range d).map fun k => i / 2 ^ k % 2) =
      siblings P.two (leafOf leaves) d i := by
  have hzip : ∀ bits : List ℕ, toPath elements bits =
      ((siblings P.two (leafOf leaves) d i).map Prod.fst).zipWith
        (fun x b => (x, decide (b = 1))) bits := by
    intro bits
    rw [← helements, List.zipWith_map_left]
    rfl
  rw [hzip, siblings, List.map_map, List.zipWith_map_left, List.zipWith_map_right,
    List.zipWith_self]
  rfl

/-- **A new answer** proves the leaf at its index. -/
theorem proves_of_missBody {i : ℕ} {leaf : Bytes 32} (hlen : leaves.length ≤ 2 ^ MERKLE_DEPTH)
    (hleaf : leaves[i]? = some leaf) (h : missBody P denomId leaves i = .ok body) :
    Proves P leaves leaf.toList body := by
  obtain ⟨hi, hget⟩ := List.getElem?_eq_some_iff.mp hleaf
  obtain ⟨path, hpath, hbody⟩ := bind_eq_ok.mp h
  obtain ⟨hroot, htexts, -, hindex, hcount, hpathIndices⟩ := proofBody_eq_ok.mp hbody
  have hi' : i < (leaves.map Bytes.toNat).length := by rwa [List.length_map]
  obtain ⟨path', hpath', helements, hindices, hroot'⟩ := buildInclusionPath_ok P hi'
  rw [map_beToBigInt, hpath'] at hpath
  obtain rfl := Except.ok.inj hpath
  have hdecode : (leaves.map Bytes.toNat).map (fun x : ℕ => (x : F)) = leaves.map decode := by
    rw [List.map_map]
    rfl
  rw [hdecode] at hroot'
  refine ⟨by rw [hcount, List.length_map], ⟨i, leaf, hindex, hleaf, rfl⟩, ?_, path'.pathElements,
    ?_, map_bigIntOfString_mapM htexts, ?_⟩
  · rw [← hroot']
    exact bigIntOfString_hexBE32 hroot
  · have hlength := congrArg List.length helements
    rwa [List.length_map, List.length_map, siblings_length] at hlength
  · -- the siblings lead from the leaf to the one node of the top level
    have hstart : (beNat leaf.toList : F) = leafOf (leaves.map Bytes.toNat) i := by
      rw [leafOf_eq hi', List.getElem_map, hget]
      rfl
    rw [hpathIndices, hindices, toPath_answer helements, hstart, fold_siblings,
      Nat.div_eq_of_lt (hi.trans_le hlen), ← hdecode]
    rfl

/-! ### No text is too long -/

/-- The numbers of the loop stay under a bound that all hashes are under. -/
def Loop.Under (bound : ℕ) (s : Loop) : Prop :=
  (∀ x ∈ s.level, x < bound) ∧ ∀ x ∈ s.pathElements, x < bound

theorem getD_zeroChain_lt (P : Poseidon) (depth d : ℕ) : (zeroChain P depth).getD d 0 < r := by
  rw [zeroChain_eq, List.getD_eq_getElem?_getD, List.getElem?_map]
  cases (List.range (depth + 1))[d]? with
  | none => exact prime_r.pos
  | some d =>
      rw [Option.map_some, Option.getD_some]
      exact ZMod.val_lt _

theorem getD_lt {bound i : ℕ} {xs : List ℕ} (hpos : 0 < bound) (h : ∀ x ∈ xs, x < bound) :
    xs.getD i 0 < bound := by
  rw [List.getD_eq_getElem?_getD]
  cases hget : xs[i]? with
  | none => exact hpos
  | some x => exact h x (List.mem_of_getElem? hget)

theorem Loop.Under.next {bound : ℕ} (hbound : r ≤ bound) {s : Loop} (h : s.Under bound)
    (depth d : ℕ) : (s.next P (zeroChain P depth) d).Under bound := by
  have hpos : 0 < bound := prime_r.pos.trans_le hbound
  constructor
  · intro x hx
    obtain ⟨j, -, rfl⟩ := List.mem_map.mp hx
    exact (ZMod.val_lt _).trans_le hbound
  · intro x hx
    rcases List.mem_append.mp hx with hx | hx
    · exact h.2 x hx
    · rw [List.mem_singleton.mp hx]
      split
      · exact getD_lt hpos h.1
      · exact (getD_zeroChain_lt P depth d).trans_le hbound

theorem buildInclusionPath_lt {bound : ℕ} (hbound : r ≤ bound) {leaves : List ℕ}
    (hleaves : ∀ x ∈ leaves, x < bound) {queryIndex : ℤ} {path : InclusionPath}
    (h : buildInclusionPath P leaves queryIndex = .ok path) :
    path.root < bound ∧ ∀ x ∈ path.pathElements, x < bound := by
  have hloop : ∀ (ds : List ℕ) (s : Loop), s.Under bound →
      (ds.foldl (Loop.next P (zeroChain P MERKLE_DEPTH)) s).Under bound := by
    intro ds
    induction ds with
    | nil => exact fun s hs => hs
    | cons d ds ih => exact fun s hs => ih _ (hs.next hbound _ d)
  rw [buildInclusionPath] at h
  split at h
  · cases h
  · obtain rfl := Except.ok.inj h
    obtain ⟨hlevel, helements⟩ := hloop (List.range MERKLE_DEPTH)
      { level := leaves, idx := queryIndex.toNat, pathElements := [], pathIndices := [] }
      ⟨hleaves, fun x hx => absurd hx List.not_mem_nil⟩
    refine ⟨?_, helements⟩
    show (if _ then _ else _) < bound
    split
    · exact (getD_zeroChain_lt P _ _).trans_le hbound
    · exact getD_lt (prime_r.pos.trans_le hbound) hlevel

theorem exists_hexBE32 {n : ℕ} (hn : n < 256 ^ 32) : ∃ s, bigIntToHexBE32 n = .ok s :=
  ⟨_, require_bind_eq_ok.mpr ⟨toRadix_length_le (by norm_num) hn, rfl⟩⟩

/-- **A request for a leaf that is there** has a body. -/
theorem exists_missBody (P : Poseidon) (denomId : UInt8) {leaves : List (Bytes 32)} {i : ℕ}
    (hi : i < leaves.length) : ∃ body, missBody P denomId leaves i = .ok body := by
  obtain ⟨path, hpath, -⟩ := buildInclusionPath_ok P
    (show i < (leaves.map Bytes.toNat).length by rwa [List.length_map])
  -- leaves are any 32 bytes, hashes are field elements: no text is longer than 64 digits
  obtain ⟨hroot, helements⟩ := buildInclusionPath_lt r_lt.le (fun x hx => by
    obtain ⟨leaf, -, rfl⟩ := List.mem_map.mp hx
    exact leaf.toNat_lt) hpath
  obtain ⟨root, hroot⟩ := exists_hexBE32 hroot
  have htexts : ∀ xs : List ℕ, (∀ x ∈ xs, x < 256 ^ 32) →
      ∃ texts, xs.mapM bigIntToHexBE32 = .ok texts := by
    intro xs
    induction xs with
    | nil => exact fun _ => ⟨[], rfl⟩
    | cons x xs ih =>
        intro hxs
        obtain ⟨text, htext⟩ := exists_hexBE32 (hxs x List.mem_cons_self)
        obtain ⟨texts, htexts⟩ := ih fun y hy => hxs y (List.mem_cons_of_mem _ hy)
        exact ⟨text :: texts, by rw [List.mapM_cons, htext, ok_bind, htexts, ok_bind]; rfl⟩
  obtain ⟨pathElements, hpathElements⟩ := htexts _ helements
  refine ⟨{ denomId, leafIndex := i, leafCount := leaves.length, root, pathElements
            pathIndices := path.pathIndices }, ?_⟩
  simp only [missBody, map_beToBigInt, hpath, ok_bind]
  exact proofBody_eq_ok.mpr ⟨hroot, hpathElements, rfl, rfl, (List.length_map _).symm, rfl⟩

end Qietr.Indexer
