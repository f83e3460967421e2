import Qietr.Escrow.Moves
import Qietr.Escrow.Wire

/-!
# SDK — jobs

`escrow.ts`: the instructions of the escrow program.

* `buildCreateJobIx` to `buildCloseJobIx`: the eight builders.
* `instructionOf`: the instruction of a call, as the SDK builds it.
* `process_instructionOf`: what is built is executed, in any transaction that is signed for it.
* `jobs_authorised`: whatever is sent to the program, its runs are those of signed calls.
-/

namespace Qietr.Sdk

open Borsh Escrow Outcome

/-! ### Builders -/

def QIETR_ESCROW_PROGRAM_ID : Pubkey :=
  Bytes.ofNat 32 0xb4f25ddae00b8b4a0707d7565064870615e2056a4d2d8aa6fbf4125d495648cb

section

variable (env : EscrowEnv)

def findJobPda (client : Pubkey) (nonce : List UInt8) : Pubkey :=
  env.pda (.job client (bytesAt 8 nonce))

def findEscrowVaultPda (client : Pubkey) (nonce : List UInt8) : Pubkey :=
  env.vault client (bytesAt 8 nonce)

/-- `setBigUint64` keeps the low 64 bits of the price. -/
def buildCreateJobIx (agent : Pubkey) (nonce : List UInt8) (priceMicro : ℤ)
    (client clientAta mint programId : Pubkey) : Except String Instruction := do
  require (nonce.length = 8) s!"nonce must be 8 bytes, got {nonce.length}"
  .ok
    { programId
      keys :=
        [⟨findJobPda env client nonce, false, true⟩,
          ⟨findEscrowVaultPda env client nonce, false, true⟩, ⟨clientAta, false, true⟩,
          ⟨client, true, true⟩, ⟨mint, false, false⟩, ⟨TOKEN_PROGRAM_ID, false, false⟩,
          ⟨Pubkey.default, false, false⟩, ⟨SYSVAR_RENT, false, false⟩]
      data := Kind.createJob.discriminator ++ (agent.toList ++ (nonce ++
        leBytes 8 (priceMicro % 2 ^ 64).toNat)) }

end

/-- An instruction that its signer makes on a job. -/
def jobIx (kind : Kind) (jobPda caller programId : Pubkey) (writable : Bool) : Instruction where
  programId
  keys := [⟨jobPda, false, true⟩, ⟨caller, true, writable⟩]
  data := kind.discriminator

/-- An instruction that settles a job. -/
def settleIx (kind : Kind) (jobPda escrowVault ata caller programId : Pubkey) : Instruction where
  programId
  keys :=
    [⟨jobPda, false, true⟩, ⟨escrowVault, false, true⟩, ⟨ata, false, true⟩, ⟨caller, true, false⟩,
      ⟨TOKEN_PROGRAM_ID, false, false⟩]
  data := kind.discriminator

def buildAcceptJobIx (jobPda agent programId : Pubkey) : Instruction :=
  jobIx .acceptJob jobPda agent programId false

def buildCompleteJobIx (jobPda agent programId : Pubkey) : Instruction :=
  jobIx .completeJob jobPda agent programId false

def buildReleasePaymentIx (jobPda escrowVault agentAta client programId : Pubkey) : Instruction :=
  settleIx .releasePayment jobPda escrowVault agentAta client programId

def buildDisputeJobIx (jobPda client programId : Pubkey) : Instruction :=
  jobIx .disputeJob jobPda client programId false

def buildCancelJobIx (jobPda escrowVault clientAta client programId : Pubkey) : Instruction :=
  settleIx .cancelJob jobPda escrowVault clientAta client programId

def buildResolveDisputeIx (jobPda escrowVault clientAta caller programId : Pubkey) : Instruction :=
  settleIx .resolveDispute jobPda escrowVault clientAta caller programId

def buildCloseJobIx (jobPda claimant programId : Pubkey) : Instruction :=
  jobIx .closeJob jobPda claimant programId true

variable {env : EscrowEnv}

/-- The instruction of a call, as the SDK builds it. -/
def jobInstruction : Escrow.Call env → Except String Instruction
  | .createJob accounts agent nonce priceMicro =>
      buildCreateJobIx env agent nonce.toList priceMicro.toNat accounts.client.key
        accounts.clientAta accounts.mint QIETR_ESCROW_PROGRAM_ID
  | .acceptJob accounts =>
      .ok (buildAcceptJobIx accounts.job accounts.caller.key QIETR_ESCROW_PROGRAM_ID)
  | .completeJob accounts =>
      .ok (buildCompleteJobIx accounts.job accounts.caller.key QIETR_ESCROW_PROGRAM_ID)
  | .releasePayment accounts =>
      .ok (buildReleasePaymentIx accounts.job accounts.escrowVault accounts.ata accounts.caller.key
        QIETR_ESCROW_PROGRAM_ID)
  | .disputeJob accounts =>
      .ok (buildDisputeJobIx accounts.job accounts.caller.key QIETR_ESCROW_PROGRAM_ID)
  | .cancelJob accounts =>
      .ok (buildCancelJobIx accounts.job accounts.escrowVault accounts.ata accounts.caller.key
        QIETR_ESCROW_PROGRAM_ID)
  | .resolveDispute accounts =>
      .ok (buildResolveDisputeIx accounts.job accounts.escrowVault accounts.ata accounts.caller.key
        QIETR_ESCROW_PROGRAM_ID)
  | .closeJob accounts =>
      .ok (buildCloseJobIx accounts.job accounts.caller.key QIETR_ESCROW_PROGRAM_ID)

/-! ### What is read of them -/

variable {s : EscrowState} {now : ℤ} {tx : Transaction env.address} {ix : Instruction}

/-- Each call has an instruction. -/
theorem exists_jobInstruction (c : Escrow.Call env) : ∃ ix, jobInstruction c = .ok ix := by
  cases c with
  | createJob accounts agent nonce priceMicro =>
      exact ⟨_, require_bind_eq_ok.mpr ⟨Vector.length_toList, rfl⟩⟩
  | acceptJob | completeJob | releasePayment | disputeJob | cancelJob | resolveDispute | closeJob =>
      exact ⟨_, rfl⟩

theorem jobCall_jobIx {kind : Kind} {job programId : Pubkey} {caller : EscrowSigner env}
    {writable : Bool} (hsigned : tx.signer? caller.key = some caller) :
    jobCall env tx (jobIx kind job caller.key programId writable) = .ok ⟨job, caller⟩ := by
  simp only [jobCall, jobIx, keyAt, mutAt, signerAt, Instruction.account?, List.getElem?_cons_zero,
    List.getElem?_cons_succ, Option.map_some, okOr_some, ok_bind, hsigned, require_of _ trivial]

theorem settleCall_settleIx {kind : Kind} {job vault ata programId : Pubkey}
    {caller : EscrowSigner env} (hsigned : tx.signer? caller.key = some caller) :
    settleCall env tx (settleIx kind job vault ata caller.key programId) =
      .ok ⟨job, vault, ata, caller⟩ := by
  simp only [settleCall, settleIx, keyAt, mutAt, signerAt, programAt, Instruction.account?,
    List.getElem?_cons_zero, List.getElem?_cons_succ, Option.map_some, okOr_some, ok_bind, hsigned,
    require_of _ trivial]

/-- The arguments of a new job. -/
theorem process_buildCreateJobIx {accounts : CreateJob env} {agent : Pubkey} {nonce : Bytes 8}
    {priceMicro : UInt64} {programId : Pubkey}
    (hix : buildCreateJobIx env agent nonce.toList priceMicro.toNat accounts.client.key
      accounts.clientAta accounts.mint programId = .ok ix)
    (hsigned : tx.signer? accounts.client.key = some accounts.client) :
    process env s now tx ix = createJob env s now accounts agent nonce priceMicro := by
  obtain ⟨-, hix⟩ := require_bind_eq_ok.mp hix
  obtain rfl := Except.ok.inj hix
  have hprice : ((priceMicro.toNat : ℤ) % 2 ^ 64).toNat = priceMicro.toNat := by
    have := priceMicro.toNat_lt
    omega
  have hread : CreateArgs.read ((Kind.createJob.discriminator ++ (agent.toList ++ (nonce.toList ++
      leBytes 8 ((priceMicro.toNat : ℤ) % 2 ^ 64).toNat))).drop 8) =
        some (⟨agent, nonce, priceMicro⟩, []) := by
    rw [hprice]
    exact CreateArgs.read_write ⟨agent, nonce, priceMicro⟩
  have hnonce : bytesAt 8 nonce.toList = nonce := by
    rw [← List.append_nil nonce.toList, bytesAt_toList]
  rw [process, kindOf_discriminator]
  show processCreate env s now tx _ = _
  rw [processCreate, hread, okOr_some, ok_bind]
  simp only [findJobPda, findEscrowVaultPda, hnonce, keyAt, mutAt, pdaAt, programAt, signerAt,
    Instruction.account?, List.getElem?_cons_zero, List.getElem?_cons_succ, Option.map_some,
    okOr_some, ok_bind, hsigned, require_of _ trivial]

/-- **What is built is executed**, in any transaction that is signed for it. -/
theorem process_jobInstruction {c : Escrow.Call env} (hix : jobInstruction c = .ok ix)
    (hsigned : (tx.signer? c.authority).isSome) :
    process env s now tx ix = exec env s now c := by
  cases c with
  | createJob accounts agent nonce priceMicro =>
      exact process_buildCreateJobIx hix (signer?_of_isSome hsigned)
  | acceptJob accounts =>
      obtain rfl := Except.ok.inj hix
      rw [process, buildAcceptJobIx, jobCall_jobIx (signer?_of_isSome hsigned)]
      rfl
  | completeJob accounts =>
      obtain rfl := Except.ok.inj hix
      rw [process, buildCompleteJobIx, jobCall_jobIx (signer?_of_isSome hsigned)]
      rfl
  | releasePayment accounts =>
      obtain rfl := Except.ok.inj hix
      rw [process, buildReleasePaymentIx, settleCall_settleIx (signer?_of_isSome hsigned)]
      rfl
  | disputeJob accounts =>
      obtain rfl := Except.ok.inj hix
      rw [process, buildDisputeJobIx, jobCall_jobIx (signer?_of_isSome hsigned)]
      rfl
  | cancelJob accounts =>
      obtain rfl := Except.ok.inj hix
      rw [process, buildCancelJobIx, settleCall_settleIx (signer?_of_isSome hsigned)]
      rfl
  | resolveDispute accounts =>
      obtain rfl := Except.ok.inj hix
      rw [process, buildResolveDisputeIx, settleCall_settleIx (signer?_of_isSome hsigned)]
      rfl
  | closeJob accounts =>
      obtain rfl := Except.ok.inj hix
      rw [process, buildCloseJobIx, jobCall_jobIx (signer?_of_isSome hsigned)]
      rfl

/-- **The escrow program on the wire.**  Whatever transactions reach it, in any order and with
whatever others do to the token accounts in between, its runs are those of signed calls, so that
each job has its story, and its client has signed a transaction, and the agent too once the job is
accepted, unless it was refunded.  And each call that succeeds is what the SDK's instruction for it
does, in any transaction that carries the signature. -/
theorem jobs_authorised (env : EscrowEnv)
    {log : List (Option (Transaction env.address × Instruction))} {c : Clocked}
    (h : WireRun env log c) :
    (∃ ds, ClockedRun env ds c ∧ List.Forall₂ Escrow.Carries log ds ∧
      ∀ key job, c.escrow.job key = some job → job.Story (deeds job.key ds)) ∧
    (∀ key job, c.escrow.job key = some job → SignedIn log job.client ∧
      (job.state.agentSigned = true → SignedIn log job.agent)) ∧
    ∀ now i s', exec env c.escrow now i = .ok s' → ∃ ix, jobInstruction i = .ok ix ∧
      ∀ tx : Transaction env.address, (tx.signer? i.authority).isSome →
        process env c.escrow now tx ix = .ok s' := by
  obtain ⟨ds, hrun, hds⟩ := h.refines
  have hstory := (storyInv_of_run hrun).story
  refine ⟨⟨ds, hrun, hds, hstory⟩, ?_, ?_⟩
  · intro key job hjob
    obtain ⟨hopened, haccepted⟩ := (hstory key job hjob).mem
    exact ⟨signedIn_of_deed hds (mem_log_of_deeds hopened),
      fun hagent => signedIn_of_deed hds (mem_log_of_deeds (haccepted hagent))⟩
  · intro now i s' hexec
    obtain ⟨ix, hix⟩ := exists_jobInstruction i
    exact ⟨ix, hix, fun tx hsigned => (process_jobInstruction hix hsigned).trans hexec⟩

/-- The job of the deployment's client. -/
theorem jobs_authorised_created :
    ∃ (tx : Transaction sample.address) (ix : Instruction) (c : Clocked) (key : Pubkey) (job : Job),
      WireRun sample [some (tx, ix)] c ∧ c.escrow.job key = some job ∧
        SignedIn [some (tx, ix)] job.client := by
  have hcreate := (sample_canCreate.createJob 0 sampleAgent.key).2
  have hjob := (sample_canCreate.deal (fun _ => rfl) 0 (by norm_num) (by norm_num)
    sampleAgent.key).2
  obtain ⟨ix, hix⟩ := exists_jobInstruction
    (.createJob sampleAccounts sampleAgent.key (Bytes.zero 8) 10)
  obtain ⟨tx, hsigned⟩ : ∃ tx : Transaction sample.address,
      (tx.signer? sampleClient.key).isSome :=
    ⟨⟨some sampleClient.key, [ix], [sampleClient]⟩, by simp [Transaction.signer?]⟩
  have hprocess := (process_jobInstruction hix hsigned).trans hcreate
  have hticks : (Clocked.mk 0 sampleStart).Ticks 0 := ⟨le_refl 0, by norm_num, by norm_num⟩
  have hstart : WireRun sample [] ⟨0, sampleStart⟩ := .start fun _ => rfl
  have hrun := hstart.snoc (WireStep.instruction hticks hprocess)
  exact ⟨tx, ix, _, _, _, hrun, hjob, ((jobs_authorised sample hrun).2.1 _ _ hjob).1⟩

end Qietr.Sdk
