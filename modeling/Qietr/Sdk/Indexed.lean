import Qietr.Indexer.NullifierStatus
import Qietr.Indexer.ProofRuns
import Qietr.Sdk.Accepted

/-!
# SDK — a payment with the indexer's proof

From the leaves that an indexer has stored to the program: any answer of the proof route, kept or
new, is read by the client, makes a witness of the circuit, and pays.

* `Reply.received`: an answer of the route as the SDK takes it.
* `readQuery_proofQuery`: the SDK's request is read.
* `exists_merkleProof`: what is answered is the path of the leaf.
* `WitnessInputs.Satisfied`, `Complete`: the inputs of the circuit, and a prover that proves them.
* `indexed_payment_accepted`: the payment is accepted, while its root is recent.
-/

namespace Qietr.Indexer

open BigIntText HashTree NumberText Outcome Pool

/-! ### The route's answer -/

namespace Reply

def code : Reply → ℕ
  | missingParam | invalidDenomId | invalidCommitment _ => 400
  | commitmentNotFound => 404
  | ingestGap _ | rootMismatch .. | internalError => 500
  | proof .. => 200

/-- The body of an answer that is no proof; `message` is that of what the route has thrown. -/
def errorBody (message : String) : Reply → Json
  | missingParam => .obj [("error", .str "missing_param"),
      ("required", .arr [.str "denomId", .str "commitment"])]
  | invalidDenomId => .obj [("error", .str "invalid_denom_id")]
  | invalidCommitment reason =>
      .obj [("error", .str "invalid_commitment"), ("message", .str reason)]
  | commitmentNotFound => .obj [("error", .str "commitment_not_found")]
  | ingestGap i => .obj [("error", .str "ingest_gap"),
      ("message", .str s!"expected contiguous leaf_index, found gap at {i}")]
  | rootMismatch expectedRoot computedRoot => .obj [("error", .str "root_mismatch"),
      ("expectedRoot", .str expectedRoot), ("computedRoot", .str computedRoot)]
  | internalError => .obj [("statusCode", .num ⟨some 500, "500"⟩),
      ("error", .str "Internal Server Error"), ("message", .str message)]
  | proof .. => .null

end Reply

/-! ### The SDK's request -/

/-- The parameters of the client. -/
def proofQuery (denomId : ℕ) (leafBe : Bytes32) : ProofQuery where
  denomId := some (toString denomId)
  commitment := some (hexText leafBe.toList)

/-- A proof as `payMicroExact` takes it from a body. -/
def ProofBody.merkleProof (body : ProofBody) : Except String Sdk.MerkleProof := do
  let pathElements ← body.pathElements.mapM Sdk.bigInt
  let root ← Sdk.bigInt body.root
  .ok { pathElements, pathIndices := body.pathIndices, root }

/-- An answer as the payment is given it: `getJson`, and what is read of the body. -/
def Reply.received (message : String) : Reply → Except String Sdk.MerkleProof
  | .proof _ body => body.merkleProof
  | reply => .error ("indexer " ++ toString reply.code ++ ": " ++
    (reply.errorBody message).stringify)

variable {P : Poseidon} {db : Db} {d : UInt8} {x : Bytes32}

/-- **The request is read**, of a leaf that is a field element. -/
theorem readQuery_proofQuery (n : ℕ) (hx : x.toNat < r) :
    readQuery (proofQuery n x) =
      if n ≤ 255 then .ok (UInt8.ofNat n, x.toList) else .error .invalidDenomId := by
  have hid : (some (toString n)).filter (· ≠ "") = some (toString n) :=
    Option.filter_some_pos (decide_eq_true (toString_ne _))
  have hleaf : (some (hexText x.toList)).filter (· ≠ "") = some (hexText x.toList) :=
    Option.filter_some_pos (decide_eq_true (hexText_ne _))
  rw [readQuery, proofQuery, hid, hleaf, okOr_some, ok_bind, okOr_some, ok_bind,
    parseInt_toString, okOr_some, ok_bind, parseCommitmentParam_hexText hx]
  by_cases hn : n ≤ 255
  · rw [require_of _ (by omega), if_pos hn]
    rfl
  · rw [require, if_neg (by omega), if_neg hn]
    rfl

theorem mapM_bigInt {texts : List String} {elements : List ℕ}
    (h : texts.map bigIntOfString = List.map (fun x : ℕ => some (x : ℤ)) elements) :
    texts.mapM Sdk.bigInt = .ok (List.map (fun x : ℕ => (x : ℤ)) elements) := by
  induction texts generalizing elements with
  | nil =>
      obtain rfl := List.map_eq_nil_iff.mp h.symm
      rfl
  | cons text texts ih =>
      obtain ⟨x, elements, rfl⟩ : ∃ x elements', elements = x :: elements' := by
        cases elements with
        | nil => cases h
        | cons x elements => exact ⟨x, elements, rfl⟩
      rw [List.map_cons, List.map_cons] at h
      obtain ⟨hx, hrest⟩ := List.cons.inj h
      rw [List.mapM_cons, Sdk.bigInt, hx, okOr_some, ok_bind, ih hrest]
      rfl

/-- **What is answered is a path**: the siblings of the leaf at some index, their sides, and the
root. -/
structure PathFor (P : Poseidon) (leaves : List (Bytes 32)) (i : ℕ)
    (merkleProof : Sdk.MerkleProof) : Prop where
  root : (merkleProof.root : F) = fullRoot P (leaves.map decode)
  elements : ∃ elements : List ℕ,
    merkleProof.pathElements = elements.map (fun x : ℕ => (x : ℤ)) ∧
    elements.map (fun x : ℕ => (x : F)) =
      (siblings P.two (HashTree.leavesOf 0 (leaves.map decode)) Pool.MERKLE_DEPTH i).map Prod.fst
  indices : merkleProof.pathIndices = (List.range Pool.MERKLE_DEPTH).map fun k => i / 2 ^ k % 2

theorem exists_merkleProof {body : ProofBody} (h : Sound P db d x.toList body) :
    ∃ i merkleProof, body.merkleProof = .ok merkleProof ∧
      ((db.leaves d).take body.leafCount)[i]? = some x ∧
      PathFor P ((db.leaves d).take body.leafCount) i merkleProof := by
  obtain ⟨i, leaf, hi, hleaf, hx⟩ := h.leaf
  obtain rfl : leaf = x := Vector.toList_inj.mp hx
  obtain ⟨hlt, -⟩ := List.getElem?_eq_some_iff.mp hleaf
  have hbody := h.body
  generalize (db.leaves d).take body.leafCount = xs at hleaf hlt hbody ⊢
  obtain ⟨path, hpath, hbody⟩ := bind_eq_ok.mp hbody
  obtain ⟨hroot, htexts, -, -, -, hindices⟩ := proofBody_eq_ok.mp hbody
  obtain ⟨path', hpath', helements, hindices', hroot'⟩ :=
    buildInclusionPath_ok P (show i < (xs.map Bytes.toNat).length by rwa [List.length_map])
  rw [hi, map_beToBigInt, hpath'] at hpath
  obtain rfl := Except.ok.inj hpath
  have hdecode : (xs.map Bytes.toNat).map (fun x : ℕ => (x : F)) = xs.map decode := by
    rw [List.map_map]
    rfl
  have hparsed : Sdk.bigInt body.root = .ok ((path'.root : ℕ) : ℤ) := by
    rw [Sdk.bigInt, bigIntOfString_hexBE32 hroot, okOr_some]
  refine ⟨i, _, by rw [ProofBody.merkleProof, mapM_bigInt (map_bigIntOfString_mapM htexts), ok_bind,
    hparsed, ok_bind], hleaf, ?_, ⟨path'.pathElements, rfl, ?_⟩, hindices.trans hindices'⟩
  · rw [Int.cast_natCast, hroot', ZMod.natCast_zmod_val, hdecode]
  · rw [helements, Qietr.leafOf, hdecode]

end Qietr.Indexer

namespace Qietr.Sdk

open Circuit FieldBits HashTree Outcome Pool
open Indexer hiding MERKLE_DEPTH

variable {env : PoolEnv} {config : QietrSDKConfig} {recipient : Pubkey} {paymentMicro : ℤ}
  {net : PayNetwork} {note : Note} {c : NoteCommitment} {leaf nullHash : F}

/-! ### The circuit's inputs -/

/-- The inputs of a payment satisfy the circuit. -/
def WitnessInputs.Satisfied (P : Poseidon) (w : WitnessInputs) : Prop :=
  ∃ sig : Witness MERKLE_DEPTH, QietrPayment P w.pub sig ∧
    sig.secret = w.secret ∧ sig.nullifier = w.nullifier ∧
    sig.newSecret = w.newSecret ∧ sig.newNullifier = w.newNullifier ∧
    List.ofFn sig.pathElements = w.pathElements.map (fun x : ℤ => (x : F)) ∧
    List.ofFn sig.pathIndices = w.pathIndices.map (fun i : ℕ => (i : F))

/-- A prover that proves all such inputs, to the program's verifier. -/
def Complete (env : PoolEnv) (fullProve : WitnessInputs → Except String Groth16Proof) : Prop :=
  ∀ w : WitnessInputs, w.Satisfied env.poseidon → ∃ groth, fullProve w = .ok groth ∧
    groth.publicSignals = (proveGroth16 w.pub).toList ∧
    env.groth16 groth.proofBytes (proveGroth16 w.pub) = true

theorem ofFn_getD {α β : Type*} {d : ℕ} {xs : List α} (hlen : xs.length = d) (z : α) (f : α → β) :
    (List.ofFn fun k : Fin d => f (xs.getD k z)) = xs.map f := by
  subst hlen
  refine List.ext_getElem (by simp) fun k hk hk' => ?_
  rw [List.length_map] at hk'
  rw [List.getElem_ofFn, List.getElem_map, List.getD_eq_getElem _ _ hk']

/-- **The witness of a payment is one of the circuit**, when its path is that of the leaf. -/
theorem satisfied_of_path {P : Poseidon} {merkleProof : MerkleProof} {secret nullifier : ℤ}
    {amount : UInt64} {w : WitnessInputs} {xs : List (Bytes 32)} {i : ℕ}
    (hamount : c.amount = amount.toNat) (hpos : 0 < paymentMicro) (hle : paymentMicro ≤ c.amount)
    (hsecret : bigInt c.secret = .ok secret) (hnullifier : bigInt c.nullifier = .ok nullifier)
    (hw : buildWitnessInputs P c merkleProof (pubkeyToFieldString recipient) paymentMicro
      net.newSecret net.newNullifier = .ok w)
    (hlen : xs.length ≤ 2 ^ MERKLE_DEPTH) (hpath : PathFor P xs i merkleProof)
    (hleaf : xs[i]? = some (encode (P.three secret nullifier c.amount))) :
    w.Satisfied P := by
  obtain ⟨elements, helements, hsiblings⟩ := hpath.elements
  have hpub := pub_of_witness hamount hpos hle hpath.root hsecret hnullifier hw
  obtain ⟨hlt, hget⟩ := List.getElem?_eq_some_iff.mp hleaf
  have hlength : elements.length = MERKLE_DEPTH := by
    have h := congrArg List.length hsiblings
    rwa [List.length_map, List.length_map, siblings_length] at h
  have hmicro : ((paymentMicro.toNat : ℕ) : ℤ) = paymentMicro := Int.toNat_of_nonneg hpos.le
  have hpayment : (UInt64.ofNat paymentMicro.toNat).toNat = paymentMicro.toNat := by
    have := amount.toNat_lt
    exact UInt64.toNat_ofNat_of_lt' (show paymentMicro.toNat < 2 ^ 64 by omega)
  -- the siblings lead from the leaf to the root
  have hmem : xs.map decode = (xs.map Bytes.toNat).map (fun x : ℕ => (x : F)) := by
    rw [List.map_map]
    rfl
  have hfold : fold P.two (P.three secret nullifier (amount.toNat : F))
      (pathOf (fun k : Fin MERKLE_DEPTH => (elements.getD k 0 : F))
        fun k : Fin MERKLE_DEPTH => decide (i / 2 ^ k.val % 2 = 1)) =
      fullRoot P (xs.map decode) := by
    have hstart : P.three secret nullifier (amount.toNat : F) =
        HashTree.leavesOf 0 (xs.map decode) i := by
      rw [leavesOf_eq (by rwa [List.length_map]), List.getElem_map, hget, decode_encode, hamount,
        Int.cast_natCast]
    rw [hmem] at hsiblings
    rw [pathOf_answer hsiblings, Qietr.leafOf, ← hmem, hstart, fold_siblings,
      Nat.div_eq_of_lt (hlt.trans_le hlen)]
    rfl
  have hopens : Opens P w.pub secret nullifier net.newSecret net.newNullifier
      (pathOf (fun k : Fin MERKLE_DEPTH => (elements.getD k 0 : F))
        fun k : Fin MERKLE_DEPTH => decide (i / 2 ^ k.val % 2 = 1)) amount.toNat
      paymentMicro.toNat := by
    rw [hpub]
    exact
      { amount_eq := rfl
        payment_eq := by rw [buildWitness, asPayment, hpayment]
        pos := by omega
        le := by omega
        lt := amount.toNat_lt
        root_eq := hfold.symm
        nullifier_eq := rfl
        change_eq := by
          rw [buildWitness, changeOf, asPayment, asCommitment, hpayment] }
  obtain ⟨sig, hsig, h₁, h₂, h₃, h₄, h₅, h₆⟩ := hopens.exists_witness_inputs
  rw [buildWitnessInputs, hsecret, ok_bind, hnullifier, ok_bind] at hw
  obtain rfl := Except.ok.inj hw
  refine ⟨sig, hsig, h₁, h₂, h₃, h₄, ?_, ?_⟩
  · rw [h₅, helements, List.map_map, ofFn_getD hlength 0 (fun x : ℕ => (x : F))]
    exact List.map_congr_left fun x _ => (Int.cast_natCast x).symm
  · rw [h₆, hpath.indices, ← ofFn_getD (d := MERKLE_DEPTH) (by simp) 0 (fun i : ℕ => (i : F))]
    congr 1
    funext k
    exact (selector_answer i k).symm

/-! ### Recent roots -/

/-- The root over the first leaves is known while no more than 29 came after them. -/
theorem isKnownRoot_of_recent {P : Poseidon} {t : MerkleTree} {ls : List F}
    (ht : Pool.Tracks P t ls)
    {n : ℕ} (hn : 1 ≤ n) (hle : n ≤ ls.length) (hrecent : ls.length ≤ n + 29)
    (hroot : fullRoot P (ls.take n) ≠ 0) :
    t.isKnownRoot (encode (fullRoot P (ls.take n))) = true := by
  have hwindow : ROOT_HISTORY_LEN = 30 := rfl
  refine (ht.isKnownRoot_iff _).mpr ⟨fun hzero => hroot ?_, ?_⟩
  · rw [← encode_zero, encode_inj] at hzero
    exact hzero
  · refine List.mem_iff_getElem?.mpr ⟨n - 1 - (ls.length - ROOT_HISTORY_LEN), ?_⟩
    have hat : ls.length - ROOT_HISTORY_LEN + (n - 1 - (ls.length - ROOT_HISTORY_LEN)) = n - 1 := by
      omega
    rw [roots_length, List.getElem?_drop, hat, roots, List.getElem?_map,
      List.getElem?_range (by omega), Option.map_some, Nat.sub_add_cancel hn]

/-! ### The payment -/

/-- What a payment is answered: a proof that the route has given for its request, what the tables
say of its nullifier, if they can be asked, and what a complete prover proves. -/
structure Asked (env : PoolEnv) (plog : List ProofEvent) (st : Fed) (net : PayNetwork)
    (c : NoteCommitment) (leaf nullHash : F) (body : ProofBody) : Prop where
  answered : ∃ req hit, .answered req (.proof hit body) ∈ plog ∧
    req.query = proofQuery c.denomId (encode leaf)
  merkleProof : net.merkleProof c.denomId (encode leaf) = body.merkleProof
  status : net.nullifierStatus c.denomId (encode nullHash) =
      askStatus st.store.nullifiers c.denomId (encode nullHash) ∨
    ∃ e, net.nullifierStatus c.denomId (encode nullHash) = .error e
  prover : Complete env net.fullProve

/-- The state in which the payment is sent: the pool takes payments without a fee, the recipient can
be paid, the note is not spent, and the proof is recent. -/
structure Ready (env : PoolEnv) (s : PoolState) (config : QietrSDKConfig) (c : NoteCommitment)
    (recipient : Pubkey) (paymentMicro : ℤ) (h : List Entry) (nullHash : F) (leafCount : ℕ) :
    Prop where
  pool : ∃ poolConfig, s.config = some poolConfig ∧ poolConfig.paused = false ∧
    env.embeddedVkHash = poolConfig.verifyingKeyHash ∧ poolConfig.feeVault = Pubkey.default
  denomination : ∃ denomination, s.denomination (UInt8.ofNat c.denomId) = some denomination ∧
    config.usdcMint = denomination.mint ∧ c.amount = denomination.amountMicroUsdc.toNat
  ata : ∃ a, s.ledger.account (env.associatedTokenAddress recipient config.usdcMint) = some a ∧
    a.mint = config.usdcMint ∧ a.owner = recipient
  unspent : s.nullifier (UInt8.ofNat c.denomId) (encode nullHash) = none
  funds : paymentMicro ≤ s.ledger.balance (env.vault (UInt8.ofNat c.denomId))
  room : h.length < 2 ^ MERKLE_DEPTH
  recent : h.length ≤ leafCount + 29
  root : fullRoot env.poseidon ((leaves h).take leafCount) ≠ 0

/-- A note that is not spent is not refused. -/
theorem checkUnspent_of_unspent {flog : List (FeedEvent env)} {st : Fed}
    (hfeed : FeedRun env flog st) {log : List (Action env)} {s : PoolState}
    (hlater : Run (· = st.chain) (Pool.Step env) log s) {d : UInt8} {x : Bytes32} (hx : x.toNat < r)
    (hnone : s.nullifier d x = none) :
    checkUnspent (askStatus st.store.nullifiers d.toNat x) = .ok () := by
  rw [askStatus_eq _ d hx]
  rcases nullifierRow_of_run hfeed d x with ⟨hrow, -⟩ | ⟨w, slot, t, -, -, hspent⟩
  · rw [hrow]
    rfl
  · rcases recorded_of_run (fedOk_of_run hfeed).run d x with ⟨hquiet, -⟩ | ⟨_, -, hrecord⟩
    · rw [hspent] at hquiet
      cases hquiet
    · rw [(record_stays hlater hrecord).2] at hnone
      cases hnone

/-- **A payment with the indexer's proof is accepted.**  The proof is any that the route has
answered, new or kept, while leaves came in and other requests were in flight; the leaves it had are
the first of the chain, and no more than 29 have come after those of the proof.  Then the SDK
prepares the payment, and the program releases it to the recipient. -/
theorem indexed_payment_accepted {flog : List (FeedEvent env)} {st : Fed}
    (hfeed : FeedRun env flog st) {plog : List ProofEvent} {server : Server}
    (hserver : ProofRun env.poseidon plog server) {log : List (Action env)} {s : PoolState}
    (hlater : Run (· = st.chain) (Pool.Step env) log s)
    (hstored : server.db.leaves (UInt8.ofNat c.denomId) <+:
      (history (UInt8.ofNat c.denomId) (chainOf flog ++ log)).map Entry.leaf)
    (hpick : pickCommitment note paymentMicro = some c) (hpos : 0 < paymentMicro)
    (hleaf : commitmentHashOf env.poseidon c.secret c.nullifier c.amount = .ok leaf)
    (hnull : nullifierHashDec env.poseidon c.nullifier = .ok nullHash) {body : ProofBody}
    (hasked : Asked env plog st net c leaf nullHash body)
    (hready : Ready env s config c recipient paymentMicro
      (history (UInt8.ofNat c.denomId) (chainOf flog ++ log)) nullHash body.leafCount)
    (feePayer : PoolSigner env) :
    ∃ p, preparePayment env config (some note) recipient paymentMicro (some feePayer.key) net =
        .ok p ∧
      ∀ (slot : UInt64) (tx : Transaction env.address), tx.signer? feePayer.key = some feePayer →
        ∃ s', poolWithdraw env config.programId s slot tx p.ix = .ok s' ∧
          Ledger.Moved s.ledger s'.ledger (env.vault (UInt8.ofNat c.denomId))
            (env.associatedTokenAddress recipient config.usdcMint)
            (UInt64.ofNat paymentMicro.toNat) := by
  obtain ⟨poolConfig, hconfig, hpaused, hvk, hnoFee⟩ := hready.pool
  obtain ⟨denomination, hdenomination, hmint, hamount⟩ := hready.denomination
  obtain ⟨-, hle⟩ := mem_of_pickCommitment hpick
  obtain ⟨secret, nullifier, hsecret, hnullifier, rfl⟩ := commitmentHashOf_eq_ok.mp hleaf
  obtain rfl : env.poseidon.one nullifier = nullHash := by
    rw [nullifierHashDec, hnullifier] at hnull
    exact Except.ok.inj hnull
  have hrun : PoolRun env (chainOf flog ++ log) s := (fedOk_of_run hfeed).run.extend hlater
  obtain ⟨tree, ho⟩ := open_of_run hrun hconfig hpaused hvk hdenomination
  have hcanonical : ∀ z : F, (encode z).toNat < r := fun z => by
    rw [toNat_encode]
    exact z.val_lt
  -- the answer is about this leaf
  obtain ⟨req, hit, hanswer, hquery⟩ := hasked.answered
  have hinv := proofInv_of_run hserver
  obtain ⟨hsound, -⟩ := hinv.answers _ _ hanswer hit body rfl
  have hread := req.read
  rw [hquery] at hread
  rw [readQuery_proofQuery _ (hcanonical _)] at hread
  split at hread
  case isFalse => cases hread
  case isTrue hsmall =>
  obtain ⟨hd, hcommitment⟩ := Prod.mk.inj (Except.ok.inj hread)
  rw [← hd, ← hcommitment] at hsound
  obtain ⟨i, merkleProof, hmerkleProof, hi, hpath⟩ := exists_merkleProof hsound
  -- its leaves are the first of the chain
  have htake : ((server.db.leaves (UInt8.ofNat c.denomId)).take body.leafCount).map decode =
      (leaves (history (UInt8.ofNat c.denomId) (chainOf flog ++ log))).take body.leafCount := by
    obtain ⟨more, hmore⟩ := hstored
    have happend : (server.db.leaves (UInt8.ofNat c.denomId) ++ more).take body.leafCount =
        (server.db.leaves (UInt8.ofNat c.denomId)).take body.leafCount :=
      List.take_append_of_le_length hsound.count
    rw [← happend, hmore, leaves, List.map_take, List.map_map]
    rfl
  have hroot := hpath.root
  rw [htake] at hroot
  have hcount : body.leafCount ≤
      (leaves (history (UInt8.ofNat c.denomId) (chainOf flog ++ log))).length := by
    have hlength := hstored.length_le
    rw [List.length_map] at hlength
    rw [leaves_length]
    exact hsound.count.trans hlength
  have hsome : 1 ≤ body.leafCount := by
    have hlt := (List.getElem?_eq_some_iff.mp hi).1
    rw [List.length_take] at hlt
    omega
  have hknown := isKnownRoot_of_recent ho.tracks hsome hcount
    (by rw [leaves_length]; exact hready.recent) hready.root
  have hmem : commitmentHash env.poseidon
      (asCommitment secret nullifier denomination.amountMicroUsdc) ∈
        leaves (history (UInt8.ofNat c.denomId) (chainOf flog ++ log)) := by
    refine List.mem_of_mem_take (i := body.leafCount) ?_
    rw [← htake]
    refine List.mem_map.mpr ⟨_, List.mem_of_getElem? hi, ?_⟩
    rw [decode_encode, hamount, Int.cast_natCast]
    rfl
  -- what the indexer and the prover answer
  have hcheck : checkUnspent (net.nullifierStatus c.denomId
      (encode (env.poseidon.one nullifier))) = .ok () := by
    rcases hasked.status with hstatus | ⟨e, hstatus⟩
    · have hdenom : (UInt8.ofNat c.denomId).toNat = c.denomId :=
        UInt8.toNat_ofNat_of_lt' (show c.denomId < 2 ^ 8 by omega)
      rw [hstatus]
      nth_rewrite 1 [← hdenom]
      exact checkUnspent_of_unspent hfeed hlater (hcanonical _) hready.unspent
    · rw [hstatus]
      rfl
  have hanswered : Answered env net c recipient paymentMicro
      (env.poseidon.three secret nullifier c.amount) (env.poseidon.one nullifier)
      (fullRoot env.poseidon
        ((leaves (history (UInt8.ofNat c.denomId) (chainOf flog ++ log))).take body.leafCount)) :=
    { merkleProof := ⟨merkleProof, hasked.merkleProof.trans hmerkleProof, hroot⟩
      unspent := hcheck
      proof := by
        intro merkleProof' w hmp hw
        rw [hasked.merkleProof, hmerkleProof] at hmp
        obtain rfl := Except.ok.inj hmp
        exact hasked.prover w (satisfied_of_path hamount hpos hle hsecret hnullifier hw
          ((List.length_take_le' _ _).trans (hinv.contiguous _).2) hpath hi) }
  obtain ⟨p, proof, hproof, hp, hwithdraw⟩ :=
    exists_prepared hpick hpos hmint hamount hsecret hnullifier hanswered feePayer
  have hpayment : (asPayment recipient paymentMicro net).paymentAmount.toNat =
      paymentMicro.toNat := by
    have hlt := denomination.amountMicroUsdc.toNat_lt
    exact UInt64.toNat_ofNat_of_lt' (show paymentMicro.toNat < 2 ^ 64 by omega)
  have hfunds := hready.funds
  refine ⟨p, hp, fun slot tx hsigned => ?_⟩
  rw [hwithdraw s slot tx hsigned, hmint]
  have hone : 1 ≤ (asPayment recipient paymentMicro net).paymentAmount.toNat := by omega
  have hcovers : (asPayment recipient paymentMicro net).paymentAmount.toNat ≤
      (asCommitment secret nullifier denomination.amountMicroUsdc).amount.toNat :=
    show _ ≤ denomination.amountMicroUsdc.toNat by omega
  obtain ⟨s', hok⟩ := withdraw_of_known ho feePayer slot
    (show (asCommitment secret nullifier denomination.amountMicroUsdc).amount = _ from rfl) hmem
    hone hcovers rfl (by rw [← hmint]; exact hready.ata) hproof hnoFee hready.unspent hknown
    hready.room (by omega)
  exact ⟨s', hok, (checked_of_withdraw ho hok).2.2.2.2.2⟩

/-- What the prover of `honestNetwork` proves is valid. -/
theorem honestNetwork_complete (P : Poseidon) : Complete (ideal P) (honestNetwork P).fullProve := by
  rintro w ⟨sig, hsig, -⟩
  refine ⟨_, rfl, rfl, ideal_accepts.mpr ⟨canonical_proveGroth16 _, ?_⟩⟩
  rw [publicOf_proveGroth16]
  exact ⟨sig, hsig⟩

/-- A payment of four from a note of ten, whose leaf is stored. -/
theorem indexed_payment_accepted_ten : ∃ (s : PoolState) (net : PayNetwork) (p : PreparedPayment),
    preparePayment (ideal (offZero circom)) tenConfig (some tenNoteOnly) merchant 4
      (some (admin (offZero circom)).key) net = .ok p ∧
    ∃ s', poolWithdraw (ideal (offZero circom)) tenConfig.programId s 0 (signedByAdmin p.ix) p.ix =
      .ok s' := by
  obtain ⟨log, s, poolConfig, denomination, tree, hl⟩ :=
    exists_launched (offZero circom) [tenLeaf (offZero circom)] (by decide)
  obtain ⟨st, hfeed, rfl, -⟩ := exists_fed hl.run
  have hcanonical : (encode (tenLeaf (offZero circom))).toNat < r := by
    rw [toNat_encode]
    exact (tenLeaf (offZero circom)).val_lt
  obtain ⟨plog, server, req, body, hserver, hanswer, hquery, hstored⟩ :=
    exists_answered_query (offZero circom) (readQuery_proofQuery 0 hcanonical)
  have hchain : chainOf (log.map FeedEvent.chain) = log := by
    rw [chainOf, List.filterMap_map]
    exact List.filterMap_some
  have hhistory : history 0 (chainOf (log.map FeedEvent.chain) ++ []) =
      depositEntries [tenLeaf (offZero circom)] := by
    rw [List.append_nil, hchain, hl.history_eq]
  let net : PayNetwork :=
    { honestNetwork (offZero circom) with
      merkleProof := fun _ _ => body.merkleProof
      nullifierStatus := askStatus st.store.nullifiers }
  have hstatus : net.nullifierStatus = askStatus st.store.nullifiers := rfl
  have hasked : Asked (ideal (offZero circom)) plog st net tenNote (tenLeaf (offZero circom))
      ((offZero circom).one 2) body :=
    { answered := ⟨req, false, hanswer, hquery⟩
      merkleProof := rfl
      status := .inl (by rw [hstatus])
      prover := honestNetwork_complete (offZero circom) }
  have hbalance := hl.balance
  rw [List.length_singleton] at hbalance
  have hready : Ready (ideal (offZero circom)) st.chain tenConfig tenNote merchant 4
      (history 0 (chainOf (log.map FeedEvent.chain) ++ [])) ((offZero circom).one 2)
      body.leafCount :=
    { pool := ⟨poolConfig, hl.config_eq, hl.unpaused, hl.vkHash, hl.noFee⟩
      denomination := ⟨denomination, hl.denomination_eq, hl.mint.symm, by rw [hl.amount]; rfl⟩
      ata := hl.recipient
      unspent := hl.fresh _
      funds := by
        show (4 : ℤ) ≤ (st.chain.ledger.balance ((ideal (offZero circom)).vault 0) : ℤ)
        omega
      room := by
        rw [hhistory]
        decide
      recent := by
        rw [hhistory]
        exact Nat.le_add_left_of_le (by decide)
      root := fullRoot_offZero _ _ }
  have hprefix : server.db.leaves 0 <+:
      (history 0 (chainOf (log.map FeedEvent.chain) ++ [])).map Entry.leaf := by
    rw [hstored, hhistory]
    exact List.prefix_rfl
  obtain ⟨p, hp, haccepted⟩ := indexed_payment_accepted hfeed hserver (.start rfl) hprefix
    pickCommitment_tenNote (by decide) commitmentHashOf_tenNote nullifierHashDec_tenNote hasked
    hready (admin (offZero circom))
  obtain ⟨s', hok, -⟩ := haccepted 0 _ (signedByAdmin_signer p.ix)
  exact ⟨st.chain, net, p, hp, s', hok⟩

end Qietr.Sdk
