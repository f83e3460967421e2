import Qietr.Pool.Deployment
import Qietr.Sdk.Client

/-!
# SDK — a prepared payment

* `Prepared`: all that was asked for a payment up to its instruction.
* `Answered`: what the indexer and the prover are taken to answer.
* `exists_prepared`: a payment whose questions are answered is prepared, and what the program reads
  of its instruction.
* `honestNetwork_answered`: a note of ten, and a network that answers so about it.
-/

namespace Qietr.Sdk

open Outcome Pool HashTree

variable {env : PoolEnv} {config : QietrSDKConfig} {recipient : Pubkey} {paymentMicro : ℤ}
  {feePayer : Option Pubkey} {net : PayNetwork} {p : PreparedPayment} {note : Note}
  {c : NoteCommitment} {leaf nullHash : F}

/-! ### Up to the instruction -/

theorem mem_of_pickCommitment {note : Note} {c : NoteCommitment}
    (h : pickCommitment note paymentMicro = some c) :
    c ∈ note.commitments ∧ paymentMicro ≤ c.amount := by
  have hmem := List.mem_of_find?_eq_some h
  have hle := List.find?_some h
  rw [List.mem_mergeSort] at hmem
  exact ⟨hmem, of_decide_eq_true hle⟩

/-- A payment that has been prepared, with all that was asked for it. -/
structure Prepared (env : PoolEnv) (config : QietrSDKConfig) (n : Note) (recipient : Pubkey)
    (paymentMicro : ℤ) (feePayer : Pubkey) (net : PayNetwork) (leaf nullHash : F)
    (merkleProof : MerkleProof) (groth : Groth16Proof) (p : PreparedPayment) : Prop where
  nonempty : n.commitments ≠ []
  pos : 0 < paymentMicro
  pick : pickCommitment n paymentMicro = some p.commitment
  leaf_eq : commitmentHashOf env.poseidon p.commitment.secret p.commitment.nullifier
    p.commitment.amount = .ok leaf
  merkleProof_eq : net.merkleProof p.commitment.denomId (encode leaf) = .ok merkleProof
  witness : buildWitnessInputs env.poseidon p.commitment merkleProof
    (pubkeyToFieldString recipient) paymentMicro net.newSecret net.newNullifier = .ok p.witness
  nullHash_eq : nullifierHashDec env.poseidon p.commitment.nullifier = .ok nullHash
  unspent : checkUnspent (net.nullifierStatus p.commitment.denomId (encode nullHash)) = .ok ()
  groth_eq : net.fullProve p.witness = .ok groth
  psNullifier : groth.publicSignals[2]? = some (encode nullHash)
  psRecipient : groth.publicSignals[3]? = some (pubkeyToField recipient)
  ix : buildWithdrawIx p.commitment.denomId (encode nullHash) groth.proofBytes groth.publicSignals
    (withdrawIxAccounts env p.commitment.denomId (encode nullHash)
      (env.associatedTokenAddress recipient config.usdcMint) feePayer none)
    config.programId = .ok p.ix

/-- The witness has the two secrets drawn for the change. -/
theorem Prepared.newSecrets {n : Note} {key : Pubkey} {merkleProof : MerkleProof}
    {groth : Groth16Proof}
    (h : Prepared env config n recipient paymentMicro key net leaf nullHash merkleProof groth p) :
    p.witness.newSecret = net.newSecret ∧ p.witness.newNullifier = net.newNullifier := by
  have hw := h.witness
  simp only [buildWitnessInputs, bind_eq_ok, Except.ok.injEq] at hw
  obtain ⟨secret, -, nullifier, -, hw⟩ := hw
  rw [← hw]
  exact ⟨rfl, rfl⟩

theorem preparePayment_eq_ok {note : Option Note} :
    preparePayment env config note recipient paymentMicro feePayer net = .ok p ↔
      ∃ n key leaf nullHash merkleProof groth, note = some n ∧ feePayer = some key ∧
        Prepared env config n recipient paymentMicro key net leaf nullHash merkleProof groth p := by
  refine ⟨?_, ?_⟩
  · intro h
    simp only [preparePayment, bind_eq_ok, okOr_eq_ok, require_eq_ok, Option.filter_eq_some_iff,
      exists_and_left, exists_const, Except.ok.injEq, decide_eq_true_eq] at h
    obtain ⟨n, ⟨hn, hnonempty⟩, hpos, c, hpick, leaf, hleaf, mp, hmp, w, hw, nullHash, hnull, _,
      hunspent, groth, hgroth, _, hps₂, _, hps₃, rfl, rfl, key, hkey, ix, hix, rfl⟩ := h
    exact ⟨n, key, leaf, nullHash, mp, groth, hn, hkey, hnonempty, hpos, hpick, hleaf, hmp, hw,
      hnull, hunspent, hgroth, hps₂, hps₃, hix⟩
  · rintro ⟨n, key, leaf, nullHash, mp, groth, hn, hkey, h⟩
    have hnote : note.filter (fun n => n.commitments ≠ []) = some n := by
      rw [hn, Option.filter_some, if_pos (decide_eq_true h.nonempty)]
    rw [preparePayment, hnote, hkey]
    simp only [okOr_some, ok_bind, require_of _ h.pos, h.pick, h.leaf_eq, h.merkleProof_eq,
      h.witness, h.nullHash_eq, h.unspent, h.groth_eq, h.psNullifier, h.psRecipient,
      require_of _ trivial, h.ix]

/-! ### What was asked for -/

/-- The indexer knows the current root and no spend of the commitment, and the prover proves. -/
structure Answered (env : PoolEnv) (net : PayNetwork) (c : NoteCommitment) (recipient : Pubkey)
    (paymentMicro : ℤ) (leaf nullHash root : F) : Prop where
  merkleProof : ∃ merkleProof, net.merkleProof c.denomId (encode leaf) = .ok merkleProof ∧
    (merkleProof.root : F) = root
  unspent : checkUnspent (net.nullifierStatus c.denomId (encode nullHash)) = .ok ()
  proof : ∀ merkleProof w, net.merkleProof c.denomId (encode leaf) = .ok merkleProof →
    buildWitnessInputs env.poseidon c merkleProof (pubkeyToFieldString recipient) paymentMicro
      net.newSecret net.newNullifier = .ok w →
    ∃ groth, net.fullProve w = .ok groth ∧
      groth.publicSignals = (proveGroth16 w.pub).toList ∧
      env.groth16 groth.proofBytes (proveGroth16 w.pub) = true

/-- The commitment and the payment as the circuit has them. -/
def asCommitment (secret nullifier : ℤ) (amountMicroUsdc : UInt64) : Commitment where
  secret
  nullifier
  amount := amountMicroUsdc

def asPayment (recipient : Pubkey) (paymentMicro : ℤ) (net : PayNetwork) : Payment where
  recipient
  paymentAmount := UInt64.ofNat paymentMicro.toNat
  newSecret := net.newSecret
  newNullifier := net.newNullifier

theorem commitmentHashOf_eq_ok {P : Poseidon} {secretDec nullifierDec : String} {amount : ℤ} :
    commitmentHashOf P secretDec nullifierDec amount = .ok leaf ↔ ∃ secret nullifier,
      bigInt secretDec = .ok secret ∧ bigInt nullifierDec = .ok nullifier ∧
        P.three secret nullifier amount = leaf := by
  simp only [commitmentHashOf, bind_eq_ok, exists_and_left, Except.ok.injEq]

/-- The witness of a payment is what the circuit's statement is about. -/
theorem pub_of_witness {P : Poseidon} {merkleProof : MerkleProof} {secret nullifier : ℤ}
    {amount : UInt64} {w : WitnessInputs} (hamount : c.amount = amount.toNat)
    (hpos : 0 < paymentMicro) (hle : paymentMicro ≤ c.amount) {root : F}
    (hroot : (merkleProof.root : F) = root)
    (hsecret : bigInt c.secret = .ok secret) (hnullifier : bigInt c.nullifier = .ok nullifier)
    (hw : buildWitnessInputs P c merkleProof (pubkeyToFieldString recipient) paymentMicro
      net.newSecret net.newNullifier = .ok w) :
    w.pub = buildWitness P (asCommitment secret nullifier amount) root
      (asPayment recipient paymentMicro net) := by
  have hpayment : (UInt64.ofNat paymentMicro.toNat).toNat = paymentMicro.toNat := by
    have hlt := amount.toNat_lt
    exact UInt64.toNat_ofNat_of_lt' (show paymentMicro.toNat < 2 ^ 64 by omega)
  have hmicro : ((paymentMicro.toNat : ℕ) : ℤ) = paymentMicro := Int.toNat_of_nonneg hpos.le
  have hchange : ((amount.toNat - paymentMicro.toNat : ℕ) : ℤ) = c.amount - paymentMicro := by
    omega
  rw [buildWitnessInputs, hsecret, ok_bind, hnullifier, ok_bind] at hw
  obtain rfl := Except.ok.inj hw
  simp only [WitnessInputs.pub, buildWitness, asCommitment, asPayment, changeOf, hpayment,
    Circuit.PublicSignals.mk.injEq, poseidonNullifierHash, true_and, hroot, hamount]
  refine ⟨by push_cast; rfl, ?_, ?_⟩
  · rw [← Int.cast_natCast, hmicro]
  · rw [← hamount, ← hchange, Int.cast_natCast]

/-! ### The instruction -/

/-- The accounts an SDK names: no fee vault. -/
def sdkAccounts (env : PoolEnv) (denomination : Denomination) (recipient : Pubkey)
    (feePayer : PoolSigner env) : WithdrawAccounts env where
  recipientAta := env.associatedTokenAddress recipient denomination.mint
  feeVault := none
  feePayer

/-- A payment whose questions are answered is prepared, and the program reads of its instruction a
withdraw with a valid proof. -/
theorem exists_prepared {secret nullifier : ℤ} {denomination : Denomination} {root : F}
    (hpick : pickCommitment note paymentMicro = some c) (hpos : 0 < paymentMicro)
    (hmint : config.usdcMint = denomination.mint)
    (hamount : c.amount = denomination.amountMicroUsdc.toNat)
    (hsecret : bigInt c.secret = .ok secret) (hnullifier : bigInt c.nullifier = .ok nullifier)
    (hanswered : Answered env net c recipient paymentMicro
      (env.poseidon.three secret nullifier c.amount) (env.poseidon.one nullifier) root)
    (feePayer : PoolSigner env) :
    let c' := asCommitment secret nullifier denomination.amountMicroUsdc
    let signals := honestSignals env.poseidon c' root (asPayment recipient paymentMicro net)
    ∃ p proof, env.groth16 proof signals = true ∧
      preparePayment env config (some note) recipient paymentMicro (some feePayer.key) net = .ok p ∧
      ∀ (s : PoolState) (slot : UInt64) (tx : Transaction env.address),
        tx.signer? feePayer.key = some feePayer →
        poolWithdraw env config.programId s slot tx p.ix =
          withdraw env s slot (sdkAccounts env denomination recipient feePayer)
            (UInt8.ofNat c.denomId) (nullifierHashOf env.poseidon c') proof signals := by
  intro c' signals
  obtain ⟨hcmem, hle⟩ := mem_of_pickCommitment hpick
  obtain ⟨merkleProof, hmp, hroot⟩ := hanswered.merkleProof
  obtain ⟨w, hw⟩ : ∃ w, buildWitnessInputs env.poseidon c merkleProof
      (pubkeyToFieldString recipient) paymentMicro net.newSecret net.newNullifier = .ok w := by
    rw [buildWitnessInputs, hsecret, ok_bind, hnullifier, ok_bind]
    exact ⟨_, rfl⟩
  have hpub := pub_of_witness hamount hpos hle hroot hsecret hnullifier hw
  obtain ⟨groth, hgroth, hsignals, hproof⟩ := hanswered.proof merkleProof w hmp hw
  rw [hpub] at hsignals hproof
  obtain ⟨ix, hix⟩ : ∃ ix, buildWithdrawIx c.denomId (nullifierHashOf env.poseidon c')
      groth.proofBytes groth.publicSignals (withdrawIxAccounts env c.denomId
        (nullifierHashOf env.poseidon c') (env.associatedTokenAddress recipient config.usdcMint)
        feePayer.key none) config.programId = .ok ix := by
    rw [hsignals, buildWithdrawIx, require_of _ (Vector.length_toList ..)]
    exact ⟨_, rfl⟩
  have hprepared : Prepared env config note recipient paymentMicro feePayer.key net _ _ merkleProof
      groth ⟨c, w, ix⟩ :=
    { nonempty := List.ne_nil_of_mem hcmem
      pos := hpos
      pick := hpick
      leaf_eq := commitmentHashOf_eq_ok.mpr ⟨secret, nullifier, hsecret, hnullifier, rfl⟩
      merkleProof_eq := hmp
      witness := hw
      nullHash_eq := by rw [nullifierHashDec, hnullifier, ok_bind]
      unspent := hanswered.unspent
      groth_eq := hgroth
      psNullifier := by rw [hsignals]; rfl
      psRecipient := by
        rw [hsignals]
        exact congrArg some (encode_pubkeyToFieldString recipient)
      ix := hix }
  refine ⟨⟨c, w, ix⟩, groth.proofBytes, hproof, preparePayment_eq_ok.mpr ⟨note, feePayer.key, _, _,
    merkleProof, groth, rfl, rfl, hprepared⟩, fun s slot tx hsigned => ?_⟩
  rw [hsignals, hmint] at hix
  exact poolWithdraw_buildWithdrawIx hix (by nofun) hsigned s slot

/-! ### A note of ten -/

variable {P : Poseidon}

/-- A note of ten, and what an honest indexer and an honest prover answer about it when it is the
only leaf of the tree. -/
def tenNote : NoteCommitment where
  secret := "1"
  nullifier := "2"
  amount := 10
  denomId := 0

def tenLeaf (P : Poseidon) : F :=
  P.three 1 (2 : ℕ) (10 : ℕ)

def honestNetwork (P : Poseidon) : PayNetwork where
  merkleProof _ _ :=
    let path := siblings P.two (leavesOf 0 [tenLeaf P]) MERKLE_DEPTH 0
    .ok
      { pathElements := path.map fun x => (x.1.val : ℤ)
        pathIndices := path.map fun x => x.2.toNat
        root := ((fullRoot P [tenLeaf P]).val : ℤ) }
  newSecret := 5
  newNullifier := 6
  nullifierStatus _ _ := .ok { spent := false, spentAtSlot := none }
  fullProve w := .ok { proofBytes := Bytes.zero _, publicSignals := (proveGroth16 w.pub).toList }

theorem bigInt_one : bigInt "1" = .ok 1 := by
  decide +kernel

theorem bigInt_two : bigInt "2" = .ok 2 := by
  decide +kernel

theorem commitmentHashOf_tenNote :
    commitmentHashOf P tenNote.secret tenNote.nullifier tenNote.amount = .ok (tenLeaf P) := by
  refine commitmentHashOf_eq_ok.mpr ⟨1, 2, bigInt_one, bigInt_two, ?_⟩
  norm_num [tenLeaf, tenNote]

theorem honestNetwork_answered : Answered (ideal P) (honestNetwork P) tenNote merchant 4
    (tenLeaf P) (P.one 2) (fullRoot P [tenLeaf P]) where
  merkleProof := ⟨_, rfl, by
    show (((fullRoot P [tenLeaf P]).val : ℤ) : F) = _
    rw [Int.cast_natCast, ZMod.natCast_zmod_val]⟩
  unspent := rfl
  proof := by
    intro merkleProof w hmp hw
    refine ⟨_, rfl, rfl, ?_⟩
    have hroot : ((merkleProof.root : ℤ) : F) = fullRoot P [tenLeaf P] := by
      rw [← Except.ok.inj hmp]
      show (((fullRoot P [tenLeaf P]).val : ℤ) : F) = _
      rw [Int.cast_natCast, ZMod.natCast_zmod_val]
    have hpub : w.pub = buildWitness P (asCommitment 1 2 10) (fullRoot P [tenLeaf P])
        (asPayment merchant 4 (honestNetwork P)) :=
      pub_of_witness (c := tenNote) rfl (by decide) (by decide) hroot bigInt_one bigInt_two hw
    have hten : (((10 : UInt64).toNat : ℕ) : F) = 10 := by
      rw [show (10 : UInt64).toNat = 10 from rfl]
      norm_num
    have hleaf : [tenLeaf P][0]? = some (commitmentHash P (asCommitment 1 2 10)) := by
      norm_num [tenLeaf, commitmentHash, asCommitment, hten]
    have hpos : 1 ≤ (asPayment merchant 4 (honestNetwork P)).paymentAmount.toNat :=
      (by decide : 1 ≤ (UInt64.ofNat 4).toNat)
    have hle : (asPayment merchant 4 (honestNetwork P)).paymentAmount.toNat ≤ 10 :=
      (by decide : (UInt64.ofNat 4).toNat ≤ 10)
    rw [hpub]
    refine ideal_accepts.mpr ⟨canonical_proveGroth16 _, ?_⟩
    rw [publicOf_proveGroth16]
    exact Circuit.exists_witness_iff.mpr
      (buildWitness_statement hleaf (by decide) hpos hle)

/-- An SDK of this deployment, with this note alone. -/
def tenConfig : QietrSDKConfig where
  programId := QIETR_POOL_PROGRAM_ID
  usdcMint := usdc
  tiers := [⟨0, 10⟩]
  relayerUrl := none

def tenNoteOnly : Note where
  version := NOTE_VERSION
  commitments := [tenNote]

theorem pickCommitment_tenNote : pickCommitment tenNoteOnly 4 = some tenNote := by
  rw [pickCommitment, tenNoteOnly, List.mergeSort_singleton]
  rfl

theorem nullifierHashDec_tenNote : nullifierHashDec P tenNote.nullifier = .ok (P.one 2) := by
  rw [nullifierHashDec, show bigInt tenNote.nullifier = .ok 2 from bigInt_two, ok_bind]
  norm_num

/-- A payment of four from it is prepared with a valid proof, whatever the rest of its
denomination. -/
theorem exists_prepared_ten (denomination : Denomination) (hmint : denomination.mint = usdc)
    (hamount : denomination.amountMicroUsdc = 10) :
    ∃ p proof, preparePayment (ideal P) tenConfig (some tenNoteOnly) merchant 4
        (some (admin P).key) (honestNetwork P) = .ok p ∧
      (ideal P).groth16 proof (honestSignals P (asCommitment 1 2 10) (fullRoot P [tenLeaf P])
        (asPayment merchant 4 (honestNetwork P))) = true ∧
      ∀ (s : PoolState) (slot : UInt64) (tx : Transaction (ideal P).address),
        tx.signer? (admin P).key = some (admin P) →
        poolWithdraw (ideal P) tenConfig.programId s slot tx p.ix =
          withdraw (ideal P) s slot (sdkAccounts (ideal P) denomination merchant (admin P)) 0
            (nullifierHashOf P (asCommitment 1 2 10)) proof
            (honestSignals P (asCommitment 1 2 10) (fullRoot P [tenLeaf P])
              (asPayment merchant 4 (honestNetwork P))) := by
  have hanswered : Answered (ideal P) (honestNetwork P) tenNote merchant 4
      (P.three (1 : ℤ) (2 : ℤ) tenNote.amount) (P.one (2 : ℤ)) (fullRoot P [tenLeaf P]) := by
    have h := honestNetwork_answered (P := P)
    norm_num [tenLeaf, tenNote] at h ⊢
    exact h
  obtain ⟨p, proof, hproof, hp, hread⟩ := exists_prepared pickCommitment_tenNote
    (by decide) (show tenConfig.usdcMint = denomination.mint from hmint.symm)
    (by rw [hamount]; rfl) bigInt_one bigInt_two hanswered (admin P)
  rw [hamount] at hproof hread
  exact ⟨p, proof, hp, hproof, hread⟩

end Qietr.Sdk
