import Qietr.Sdk.Accepted
import Qietr.Sdk.Encoding
import Qietr.Wire.Arguments

/-!
# SDK — a payment and its note

The note is updated when the sending of the withdraw has returned, and on nothing else: neither the
confirmation nor the fate of the transaction is looked at.

* `Withdrawn`, `withdrawn_of_poolWithdraw`: what the pool does of the instruction.
* `Paid`: the note has the opening of the leaf that the pool appends, for the commitment.
* `InStep`: the note shows that just when the withdraw was executed.
* `pay_in_step_iff`: that is so just when the answer to the sending tells the fate.
-/

namespace Qietr.Sdk

open Outcome Pool Wire

variable {env : PoolEnv} {config : QietrSDKConfig} {sdk : QietrSDK} {recipient : Pubkey}
  {paymentMicro : ℤ} {feePayer : Option Pubkey} {net : PayNetwork} {p : PreparedPayment}

/-! ### What the pool does -/

/-- The prover returns the public signals of what it proves. -/
def PayNetwork.Proves (net : PayNetwork) : Prop :=
  ∀ w groth, net.fullProve w = .ok groth → groth.publicSignals = (proveGroth16 w.pub).toList

/-- **The withdraw is made**: the leaf of the change is appended to the commitment's tree, and the
commitment's nullifier is recorded. -/
structure Withdrawn (env : PoolEnv) (p : PreparedPayment) (s s' : PoolState) : Prop where
  appended : ∃ tree tree' root, s.tree (UInt8.ofNat p.commitment.denomId) = some tree ∧
    (append env.poseidon (encode p.witness.changeCommitment)).run tree = .ok root tree' ∧
    s'.tree (UInt8.ofNat p.commitment.denomId) = some tree'
  recorded : ∃ nullHash, nullifierHashDec env.poseidon p.commitment.nullifier = .ok nullHash ∧
    s.nullifier (UInt8.ofNat p.commitment.denomId) (encode nullHash) = none ∧
    s'.nullifier (UInt8.ofNat p.commitment.denomId) (encode nullHash) ≠ none

/-- What the program runs with, of the instruction of a payment. -/
theorem withdraw_of_poolWithdraw {n : Note} {key : Pubkey} {leaf nullHash : F}
    {merkleProof : MerkleProof} {groth : Groth16Proof}
    (hp : Prepared env config n recipient paymentMicro key net leaf nullHash merkleProof groth p)
    (hsignals : groth.publicSignals = (proveGroth16 p.witness.pub).toList) {s s' : PoolState}
    {slot : UInt64} {tx : Transaction env.address}
    (h : poolWithdraw env config.programId s slot tx p.ix = .ok s') : ∃ accounts,
      withdraw env s slot accounts (UInt8.ofNat p.commitment.denomId) (encode nullHash)
        groth.proofBytes (proveGroth16 p.witness.pub) = .ok s' := by
  -- the program cuts the SDK's bytes where the SDK has put them together
  obtain ⟨args, keys, feePayer, hargs, -, -, hok⟩ := poolWithdraw_args h
  obtain ⟨-, hix⟩ := require_bind_eq_ok.mp hp.ix
  rw [hsignals] at hix
  have hdata : WITHDRAW_DISC ++ UInt8.ofNat p.commitment.denomId :: ((encode nullHash).toList ++
      (groth.proofBytes.toList ++ signalBytes (proveGroth16 p.witness.pub))) = p.ix.data :=
    congrArg Instruction.data (Except.ok.inj hix)
  obtain ⟨hnull, hproof, hsignals⟩ := dataBytes_withdraw (UInt8.ofNat p.commitment.denomId)
    (encode nullHash) groth.proofBytes (proveGroth16 p.witness.pub)
  rw [decodeWithdraw_eq] at hargs
  split at hargs
  · obtain rfl := Option.some.inj hargs
    rw [← hdata] at hok
    simp only [hnull, hproof, hsignals] at hok
    exact ⟨_, hok⟩
  · cases hargs

/-- **Any withdraw** that the pool makes of the instruction. -/
theorem withdrawn_of_poolWithdraw {note : Option Note}
    (hp : preparePayment env config note recipient paymentMicro feePayer net = .ok p)
    (hproves : net.Proves) {s s' : PoolState} {slot : UInt64} {tx : Transaction env.address}
    (h : poolWithdraw env config.programId s slot tx p.ix = .ok s') : Withdrawn env p s s' := by
  obtain ⟨_, _, _, nullHash, _, groth, -, -, hprepared⟩ := preparePayment_eq_ok.mp hp
  obtain ⟨accounts, hok⟩ :=
    withdraw_of_poolWithdraw hprepared (hproves _ _ hprepared.groth_eq) h
  obtain ⟨_, _, tree, _, _, _, tree', hchecked, -, ⟨root, happend⟩, rfl⟩ := withdraw_eq_ok.mp hok
  exact
    { appended := ⟨tree, tree', root, hchecked.tree_eq, happend, Function.update_self ..⟩
      recorded := ⟨nullHash, hprepared.nullHash_eq, hchecked.unspent, by
        simp [PoolState.withdrawn]⟩ }

/-! ### The note of a payment -/

/-- It opens the leaf of the change, with the secrets that were drawn for it. -/
structure OpensChange (P : Poseidon) (p : PreparedPayment) (c : NoteCommitment) : Prop where
  secret : bigInt c.secret = .ok (p.witness.newSecret : ℤ)
  nullifier : bigInt c.nullifier = .ok (p.witness.newNullifier : ℤ)
  opens : commitmentHashOf P c.secret c.nullifier c.amount = .ok p.witness.changeCommitment
  denomId : c.denomId = p.commitment.denomId

/-- A payment has left a note: its commitment is not there, the opening of its change is, unless
nothing is left of it, and the other commitments are kept. -/
structure Paid (P : Poseidon) (p : PreparedPayment) (paymentMicro : ℤ) (old note : Note) :
    Prop where
  lacks : p.commitment ∉ note.commitments
  contains : 0 < p.commitment.amount - paymentMicro → ∃ c ∈ note.commitments,
    OpensChange P p c ∧ c.amount = p.commitment.amount - paymentMicro
  kept : ∀ c ∈ old.commitments,
    ¬ (c.secret = p.commitment.secret ∧ c.nullifier = p.commitment.nullifier) →
      c ∈ note.commitments

theorem change?_ne_commitment (hpos : 0 < paymentMicro) :
    p.change? paymentMicro ≠ some p.commitment := by
  intro h
  have hamount : p.commitment.amount - paymentMicro = p.commitment.amount := by
    rw [PreparedPayment.change?] at h
    split at h
    · exact congrArg NoteCommitment.amount (Option.some.inj h)
    · cases h
  omega

/-- The witness commits to what is left. -/
theorem changeCommitment_of_witness {P : Poseidon} {merkleProof : MerkleProof} {recipient : ℕ}
    (h : buildWitnessInputs P p.commitment merkleProof recipient paymentMicro net.newSecret
      net.newNullifier = .ok p.witness) :
    p.witness.changeCommitment = P.three p.witness.newSecret p.witness.newNullifier
      ((p.commitment.amount - paymentMicro : ℤ) : F) := by
  simp only [buildWitnessInputs, bind_eq_ok, Except.ok.injEq] at h
  obtain ⟨secret, -, nullifier, -, hw⟩ := h
  rw [← hw]

/-- **The update** makes it so. -/
theorem paid_spendFrom {n : Note} {key : Pubkey} {leaf nullHash : F} {merkleProof : MerkleProof}
    {groth : Groth16Proof}
    (hp : Prepared env config n recipient paymentMicro key net leaf nullHash merkleProof groth p)
    (note : Note) : Paid env.poseidon p paymentMicro note (spendFrom note p paymentMicro) where
  lacks := by
    intro hmem
    rcases List.mem_append.mp hmem with hmem | hmem
    · simpa using (List.mem_filter.mp hmem).2
    · exact change?_ne_commitment hp.pos (Option.mem_toList.mp hmem)
  contains hleft := by
    refine ⟨_, List.mem_append_right _ (Option.mem_toList.mpr (if_pos hleft)), ?_, rfl⟩
    exact
      { secret := bigInt_toString p.witness.newSecret
        nullifier := bigInt_toString p.witness.newNullifier
        opens := by
          rw [changeCommitment_of_witness hp.witness]
          exact commitmentHashOf_eq_ok.mpr
            ⟨_, _, bigInt_toString _, bigInt_toString _, by push_cast; rfl⟩
        denomId := rfl }
  kept c hc hother := List.mem_append_left _ (List.mem_filter.mpr ⟨hc, decide_eq_true hother⟩)

/-! ### In step -/

/-- The SDK's note shows the payment just when it was executed, and is the old one otherwise. -/
structure InStep (P : Poseidon) (p : PreparedPayment) (paymentMicro : ℤ) (submission : Submission)
    (sdk sdk' : QietrSDK) : Prop where
  paid : (∃ old note, sdk.note = some old ∧ sdk'.note = some note ∧
    Paid P p paymentMicro old note) ↔ submission.Executed
  unchanged : ¬ submission.Executed → sdk'.note = sdk.note

/-- Once the transaction is handed over, the sending returns just when it is executed. -/
def Submission.Tells : Submission → Prop
  | .sent send _ fate => (∃ signature, send = .ok signature) ↔ fate = .executed
  | _ => True

theorem Submission.tells_iff {submission : Submission} : submission.Tells ↔
    ((∃ signature, sendIxs submission = .ok signature) ↔ submission.Executed) := by
  cases submission with
  | noBlockhash message | notSigned message | notSerialized message =>
      exact ⟨fun _ => ⟨nofun, False.elim⟩, fun _ => trivial⟩
  | sent send confirm fate =>
      cases send with
      | error message => exact iff_congr ⟨nofun, nofun⟩ Iff.rfl
      | ok signature => exact iff_congr ⟨fun _ => ⟨_, rfl⟩, fun _ => ⟨_, rfl⟩⟩ Iff.rfl

/-- What a prepared payment leaves, by the answer to its sending. -/
theorem payMicroExact_note {n : Note} (hn : sdk.note = some n) (submission : Submission)
    (h : preparePayment env config sdk.note recipient paymentMicro feePayer net = .ok p) :
    (payMicroExact env config sdk recipient paymentMicro feePayer net submission).2.note =
      match sendIxs submission with
      | .ok _ => some (spendFrom n p paymentMicro)
      | .error _ => some n := by
  rw [payMicroExact, h]
  cases sendIxs submission with
  | error e => exact hn
  | ok signature =>
      show (finishPayment sdk p paymentMicro signature).2.note = _
      rw [finishPayment, hn]
      rfl

/-- The note shows the payment just when the sending has returned. -/
theorem paid_iff_returned {submission : Submission}
    (h : preparePayment env config sdk.note recipient paymentMicro feePayer net = .ok p) :
    (∃ old note, sdk.note = some old ∧
        (payMicroExact env config sdk recipient paymentMicro feePayer net submission).2.note =
          some note ∧ Paid env.poseidon p paymentMicro old note) ↔
      ∃ signature, sendIxs submission = .ok signature := by
  obtain ⟨n, _, _, _, _, _, hn, -, hprepared⟩ := preparePayment_eq_ok.mp h
  rw [payMicroExact_note hn submission h]
  cases sendIxs submission with
  | error message =>
      refine ⟨?_, nofun⟩
      rintro ⟨old, note, -, hnote, hpaid⟩
      obtain rfl := Option.some.inj hnote
      -- the old note still has the commitment
      exact (hpaid.lacks (mem_of_pickCommitment hprepared.pick).1).elim
  | ok signature =>
      exact ⟨fun _ => ⟨signature, rfl⟩, fun _ => ⟨n, _, hn, rfl, paid_spendFrom hprepared n⟩⟩

/-- When the sending throws, the note stays. -/
theorem note_of_not_returned {submission : Submission}
    (h : preparePayment env config sdk.note recipient paymentMicro feePayer net = .ok p)
    (hnot : ¬ ∃ signature, sendIxs submission = .ok signature) :
    (payMicroExact env config sdk recipient paymentMicro feePayer net submission).2.note =
      sdk.note := by
  obtain ⟨n, _, _, _, _, _, hn, -⟩ := preparePayment_eq_ok.mp h
  rw [payMicroExact_note hn submission h, hn]
  cases hsend : sendIxs submission with
  | error message => rfl
  | ok signature => exact (hnot ⟨signature, hsend⟩).elim

/-- **A payment and its note are in step** just when the answer to the sending tells what becomes of
the withdraw; one that is not sent leaves the note as it was.  The secrets in the note are those of
the leaf that the pool appends. -/
theorem pay_in_step_iff (env : PoolEnv) (config : QietrSDKConfig) (sdk : QietrSDK)
    (recipient : Pubkey) (paymentMicro : ℤ) (feePayer : Option Pubkey) (net : PayNetwork)
    (submission : Submission) :
    (∀ e, preparePayment env config sdk.note recipient paymentMicro feePayer net = .error e →
      (payMicroExact env config sdk recipient paymentMicro feePayer net submission).2 = sdk) ∧
    ∀ p, preparePayment env config sdk.note recipient paymentMicro feePayer net = .ok p →
      (net.Proves → ∀ s s' slot tx, poolWithdraw env config.programId s slot tx p.ix = .ok s' →
        Withdrawn env p s s') ∧
      (InStep env.poseidon p paymentMicro submission sdk
        (payMicroExact env config sdk recipient paymentMicro feePayer net submission).2 ↔
          submission.Tells) := by
  refine ⟨fun e he => by rw [payMicroExact, he],
    fun p hp => ⟨fun hproves s s' slot tx hok => ?_, ?_⟩⟩
  · exact withdrawn_of_poolWithdraw hp hproves hok
  · -- the note shows the payment when the sending has returned, and that is all it goes by
    rw [Submission.tells_iff]
    refine ⟨fun h => (paid_iff_returned hp).symm.trans h.paid, fun h => ?_⟩
    exact
      { paid := (paid_iff_returned hp).trans h
        unchanged := fun hnot => note_of_not_returned hp fun hreturned => hnot (h.mp hreturned) }

/-- An SDK with the note of ten. -/
def tenSdk : QietrSDK where
  note := some tenNoteOnly
  lastUpdatedNote := none
  lastDepositSignature := none

theorem honestNetwork_proves (P : Poseidon) : (honestNetwork P).Proves := by
  intro w groth h
  rw [← Except.ok.inj h]

/-- A payment whose withdraw is executed, with the answer to its sending, and what the pool does of
it. -/
theorem pay_in_step_iff_ten : ∃ (log : List (Action (ideal (offZero circom)))) (s s' : PoolState)
    (p : PreparedPayment), PoolRun (ideal (offZero circom)) log s ∧
    preparePayment (ideal (offZero circom)) tenConfig (some tenNoteOnly) merchant 4
      (some (admin (offZero circom)).key) (honestNetwork (offZero circom)) = .ok p ∧
    poolWithdraw (ideal (offZero circom)) tenConfig.programId s 0 (signedByAdmin p.ix) p.ix =
      .ok s' ∧
    Withdrawn (ideal (offZero circom)) p s s' ∧
    InStep (offZero circom) p 4 (.sent (.ok "") (.ok none) .executed) tenSdk
      (payMicroExact (ideal (offZero circom)) tenConfig tenSdk merchant 4
        (some (admin (offZero circom)).key) (honestNetwork (offZero circom))
        (.sent (.ok "") (.ok none) .executed)).2 := by
  obtain ⟨log, s, poolConfig, denomination, tree, hl⟩ :=
    exists_launched (offZero circom) [tenLeaf (offZero circom)] (by decide)
  obtain ⟨p, proof, hp, hproof, hread⟩ :=
    exists_prepared_ten (P := offZero circom) denomination hl.mint hl.amount
  have hleaf : commitmentHash (offZero circom) (asCommitment 1 2 10) =
      tenLeaf (offZero circom) := by
    have hten : (((10 : UInt64).toNat : ℕ) : F) = 10 := by
      rw [show (10 : UInt64).toNat = 10 from rfl]
      norm_num
    norm_num [tenLeaf, commitmentHash, asCommitment, hten]
  have hpays : (asPayment merchant 4 (honestNetwork (offZero circom))).recipient = merchant := rfl
  rw [← leaves_depositEntries [tenLeaf (offZero circom)]] at hproof
  have haccepted := withdraw_of_acceptable hl.toOpen (admin (offZero circom)) 0
    (show (asCommitment 1 2 10).amount = denomination.amountMicroUsdc from hl.amount.symm)
    (by
      rw [leaves_depositEntries]
      exact List.mem_singleton.mpr hleaf)
    (show (0 : ℤ) < 4 by decide) rfl (by decide) hpays
    (by rw [hl.mint]; exact hl.recipient) hproof (acceptable_ten hl _)
  obtain ⟨s', hok⟩ := haccepted
  rw [leaves_depositEntries] at hok
  have hpaid := (hread s 0 (signedByAdmin p.ix) (signedByAdmin_signer p.ix)).trans hok
  obtain ⟨hwithdrawn, hstep⟩ := (pay_in_step_iff (ideal (offZero circom)) tenConfig tenSdk
    merchant 4 (some (admin (offZero circom)).key) (honestNetwork (offZero circom))
    (.sent (.ok "") (.ok none) .executed)).2 p hp
  exact ⟨log, s, s', p, hl.run, hp, hpaid,
    hwithdrawn (honestNetwork_proves _) s s' 0 _ hpaid,
    hstep.mpr ⟨fun _ => rfl, fun _ => ⟨_, rfl⟩⟩⟩

/-- A withdraw that fails after its sending has returned, and one that is executed though its
sending threw: the first has the note without the commitment, the second the note with it. -/
theorem pay_out_of_step : ∃ p,
    preparePayment (ideal circom) tenConfig (some tenNoteOnly) merchant 4
      (some (admin circom).key) (honestNetwork circom) = .ok p ∧
    ¬ InStep circom p 4 (.sent (.ok "") (.ok (some "InstructionError")) .failed) tenSdk
      (payMicroExact (ideal circom) tenConfig tenSdk merchant 4 (some (admin circom).key)
        (honestNetwork circom) (.sent (.ok "") (.ok (some "InstructionError")) .failed)).2 ∧
    ¬ InStep circom p 4 (.sent (.error "timeout") (.ok none) .executed) tenSdk
      (payMicroExact (ideal circom) tenConfig tenSdk merchant 4 (some (admin circom).key)
        (honestNetwork circom) (.sent (.error "timeout") (.ok none) .executed)).2 := by
  obtain ⟨p, -, hp, -⟩ := exists_prepared_ten (P := circom)
    (newDenomination (ideal circom) usdc 0 10) rfl rfl
  have hiff : ∀ submission, (∃ old note, tenSdk.note = some old ∧
      (payMicroExact (ideal circom) tenConfig tenSdk merchant 4 (some (admin circom).key)
        (honestNetwork circom) submission).2.note = some note ∧ Paid circom p 4 old note) ↔
      ∃ signature, sendIxs submission = .ok signature :=
    fun submission => paid_iff_returned 
      (show preparePayment (ideal circom) _ tenSdk.note _ _ _ _ = _ from hp)
  refine ⟨p, hp, fun h => ?_, fun h => ?_⟩
  · have hexecuted := h.paid.mp ((hiff _).mpr ⟨"", rfl⟩)
    cases hexecuted
  · obtain ⟨signature, hsend⟩ := (hiff _).mp (h.paid.mpr rfl)
    cases hsend

end Qietr.Sdk
