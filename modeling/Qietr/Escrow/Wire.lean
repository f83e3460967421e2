import Qietr.Escrow.History
import Qietr.Library.Borsh
import Qietr.Solana.Context

/-!
# Escrow — instructions on the wire

How the program reads its eight instructions of a transaction.

* `Kind`, `kindOf`: which of them it is, by the first eight bytes of its data.
* `CreateArgs.read`: the arguments of `create_job`; the others have none.
* `process`: an instruction, from its data and its accounts.
* `WireRun.refines`: a run of transactions is a run of the program, in which each deed is signed
  for.
-/

namespace Qietr.Escrow

open Borsh Outcome

/-! ### Data -/

inductive Kind where
  | createJob
  | acceptJob
  | completeJob
  | releasePayment
  | disputeJob
  | cancelJob
  | resolveDispute
  | closeJob
  deriving DecidableEq

def Kind.all : List Kind :=
  [.createJob, .acceptJob, .completeJob, .releasePayment, .disputeJob, .cancelJob, .resolveDispute,
    .closeJob]

/-- The first eight bytes of the SHA-256 of `global:` and the name of the instruction. -/
def Kind.discriminator : Kind → List UInt8
  | createJob => [178, 130, 217, 110, 100, 27, 82, 119]
  | acceptJob => [43, 201, 124, 1, 19, 189, 96, 10]
  | completeJob => [221, 216, 225, 72, 101, 250, 3, 11]
  | releasePayment => [24, 34, 191, 86, 145, 160, 183, 233]
  | disputeJob => [101, 104, 253, 231, 1, 139, 108, 100]
  | cancelJob => [126, 241, 155, 241, 50, 236, 83, 118]
  | resolveDispute => [231, 6, 202, 6, 96, 103, 12, 230]
  | closeJob => [90, 100, 180, 200, 200, 163, 120, 182]

def kindOf (data : List UInt8) : Option Kind :=
  Kind.all.find? fun kind => kind.discriminator = data.take 8

/-- No two begin alike. -/
theorem kindOf_discriminator (kind : Kind) (args : List UInt8) :
    kindOf (kind.discriminator ++ args) = some kind := by
  have htake : (kind.discriminator ++ args).take 8 = kind.discriminator :=
    List.take_left' (by cases kind <;> rfl)
  rw [kindOf, htake]
  cases kind <;> decide

structure CreateArgs where
  agent : Pubkey
  nonce : Bytes 8
  priceMicro : UInt64

def CreateArgs.read : Reader CreateArgs := do
  let agent ← readArray 32
  let nonce ← readArray 8
  let priceMicro ← readU64
  pure { agent, nonce, priceMicro }

def CreateArgs.write (args : CreateArgs) : List UInt8 :=
  args.agent.toList ++ (args.nonce.toList ++ writeU64 args.priceMicro)

theorem CreateArgs.read_write (args : CreateArgs) :
    CreateArgs.read args.write = some (args, []) := by
  rw [CreateArgs.write, ← List.append_nil (writeU64 _)]
  unfold CreateArgs.read
  rw [(Inverts.readArray 32).bind, (Inverts.readArray 8).bind, Inverts.readU64.bind]
  rfl

/-! ### Accounts -/

/-- `SysvarRent111111111111111111111111111111111`. -/
def SYSVAR_RENT : Pubkey :=
  Bytes.ofNat 32 0x06a7d517192c5c51218cc94c3d4af17f58daee089ba1fd44e3dbd98a00000000

variable (env : EscrowEnv)

/-- `CreateJob`: the new job and its vault, the client's token account, the client, who pays, the
mint, the two programs and the rent. -/
def processCreate (s : EscrowState) (now : ℤ) (tx : Transaction env.address) (ix : Instruction) :
    Except Error EscrowState := do
  let (args, _) ← okOr (CreateArgs.read (ix.data.drop 8)) (.anchor .instructionDidNotDeserialize)
  let key ← mutAt ix 3
  let client ← signerAt tx key
  let clientAta ← mutAt ix 2
  let mint ← keyAt ix 4
  programAt ix 5 TOKEN_PROGRAM_ID
  -- the system program's address is all zeros
  programAt ix 6 Pubkey.default
  programAt ix 7 SYSVAR_RENT
  pdaAt ix 0 (env.pda (.job client.key args.nonce))
  pdaAt ix 1 (env.vault client.key args.nonce)
  createJob env s now ⟨clientAta, client, mint⟩ args.agent args.nonce args.priceMicro

/-- `AcceptJob`, `CompleteJob` and `DisputeJob`: the job, and who signs. -/
def jobCall (tx : Transaction env.address) (ix : Instruction) : Except Error (JobCall env) := do
  let job ← mutAt ix 0
  let key ← keyAt ix 1
  let caller ← signerAt tx key
  .ok ⟨job, caller⟩

/-- `ReleasePayment`, `CancelJob` and `ResolveDispute`: the job, its vault, the token account that
is paid, who signs, the token program. -/
def settleCall (tx : Transaction env.address) (ix : Instruction) :
    Except Error (SettleCall env) := do
  let job ← mutAt ix 0
  let escrowVault ← mutAt ix 1
  let ata ← mutAt ix 2
  let key ← keyAt ix 3
  let caller ← signerAt tx key
  programAt ix 4 TOKEN_PROGRAM_ID
  .ok ⟨job, escrowVault, ata, caller⟩

/-- **The program.** -/
def process (s : EscrowState) (now : ℤ) (tx : Transaction env.address) (ix : Instruction) :
    Except Error EscrowState :=
  match kindOf ix.data with
  | none => .error (.anchor .instructionFallbackNotFound)
  | some .createJob => processCreate env s now tx ix
  | some .acceptJob => jobCall env tx ix >>= acceptJob env s now
  | some .completeJob => jobCall env tx ix >>= completeJob env s now
  | some .releasePayment => settleCall env tx ix >>= releasePayment env s
  | some .disputeJob => jobCall env tx ix >>= disputeJob env s
  | some .cancelJob => settleCall env tx ix >>= cancelJob env s now
  | some .resolveDispute => settleCall env tx ix >>= resolveDispute env s now
  | some .closeJob => do
      let accounts ← jobCall env tx ix
      -- the claimant gets the rent
      let _ ← (mutAt ix 1 : Except Error Pubkey)
      closeJob env s accounts

/-! ### What is processed -/

variable {env} {s s' : EscrowState} {now : ℤ} {tx : Transaction env.address} {ix : Instruction}

/-- Who has to sign. -/
def Call.authority : Call env → Pubkey
  | .createJob accounts .. => accounts.client.key
  | .acceptJob accounts | .completeJob accounts | .disputeJob accounts | .closeJob accounts =>
      accounts.caller.key
  | .releasePayment accounts | .cancelJob accounts | .resolveDispute accounts => accounts.caller.key

theorem jobCall_signed {accounts : JobCall env} (h : jobCall env tx ix = .ok accounts) :
    (tx.signer? accounts.caller.key).isSome := by
  obtain ⟨job, -, h⟩ := bind_eq_ok.mp h
  obtain ⟨key, -, h⟩ := bind_eq_ok.mp h
  obtain ⟨caller, hsigner, h⟩ := bind_eq_ok.mp h
  obtain rfl := Except.ok.inj h
  exact isSome_of_signerAt hsigner

theorem settleCall_signed {accounts : SettleCall env} (h : settleCall env tx ix = .ok accounts) :
    (tx.signer? accounts.caller.key).isSome := by
  obtain ⟨job, -, h⟩ := bind_eq_ok.mp h
  obtain ⟨vault, -, h⟩ := bind_eq_ok.mp h
  obtain ⟨ata, -, h⟩ := bind_eq_ok.mp h
  obtain ⟨key, -, h⟩ := bind_eq_ok.mp h
  obtain ⟨caller, hsigner, h⟩ := bind_eq_ok.mp h
  obtain ⟨_, -, h⟩ := bind_eq_ok.mp h
  obtain rfl := Except.ok.inj h
  exact isSome_of_signerAt hsigner

/-- **What is processed is a call**, and whoever it needs has signed. -/
theorem exists_call (h : process env s now tx ix = .ok s') :
    ∃ c : Call env, exec env s now c = .ok s' ∧ (tx.signer? c.authority).isSome := by
  unfold process at h
  split at h
  · cases h
  · obtain ⟨⟨args, rest⟩, -, h⟩ := bind_eq_ok.mp h
    obtain ⟨key, -, h⟩ := bind_eq_ok.mp h
    obtain ⟨client, hsigner, h⟩ := bind_eq_ok.mp h
    obtain ⟨clientAta, -, h⟩ := bind_eq_ok.mp h
    obtain ⟨mint, -, h⟩ := bind_eq_ok.mp h
    obtain ⟨_, -, h⟩ := bind_eq_ok.mp h
    obtain ⟨_, -, h⟩ := bind_eq_ok.mp h
    obtain ⟨_, -, h⟩ := bind_eq_ok.mp h
    obtain ⟨_, -, h⟩ := bind_eq_ok.mp h
    obtain ⟨_, -, hcreate⟩ := bind_eq_ok.mp h
    exact ⟨.createJob ⟨clientAta, client, mint⟩ args.agent args.nonce args.priceMicro, hcreate,
      isSome_of_signerAt hsigner⟩
  · obtain ⟨accounts, haccounts, hok⟩ := bind_eq_ok.mp h
    exact ⟨.acceptJob accounts, hok, jobCall_signed haccounts⟩
  · obtain ⟨accounts, haccounts, hok⟩ := bind_eq_ok.mp h
    exact ⟨.completeJob accounts, hok, jobCall_signed haccounts⟩
  · obtain ⟨accounts, haccounts, hok⟩ := bind_eq_ok.mp h
    exact ⟨.releasePayment accounts, hok, settleCall_signed haccounts⟩
  · obtain ⟨accounts, haccounts, hok⟩ := bind_eq_ok.mp h
    exact ⟨.disputeJob accounts, hok, jobCall_signed haccounts⟩
  · obtain ⟨accounts, haccounts, hok⟩ := bind_eq_ok.mp h
    exact ⟨.cancelJob accounts, hok, settleCall_signed haccounts⟩
  · obtain ⟨accounts, haccounts, hok⟩ := bind_eq_ok.mp h
    exact ⟨.resolveDispute accounts, hok, settleCall_signed haccounts⟩
  · obtain ⟨accounts, haccounts, h⟩ := bind_eq_ok.mp h
    obtain ⟨_, -, hok⟩ := bind_eq_ok.mp h
    exact ⟨.closeJob accounts, hok, jobCall_signed haccounts⟩

/-! ### Runs -/

/-- One step: a transaction's instruction at the clock, or what others do to the token accounts. -/
inductive WireStep (env : EscrowEnv) :
    Clocked → Option (Transaction env.address × Instruction) → Clocked → Prop
  | instruction {c : Clocked} {now : ℤ} {tx : Transaction env.address} {ix : Instruction}
      {s' : EscrowState} (ht : c.Ticks now) (h : process env c.escrow now tx ix = .ok s') :
      WireStep env c (some (tx, ix)) ⟨now, s'⟩
  | external {c : Clocked} {now : ℤ} {ledger : Ledger} (ht : c.Ticks now)
      (h : c.escrow.ledger.KeepsOwnedBy (fun owner => ∃ seed, env.address seed = owner) ledger) :
      WireStep env c none ⟨now, { c.escrow with ledger }⟩

/-- The runs of the program by the transactions that reach it. -/
abbrev WireRun (env : EscrowEnv) := Run (fun c : Clocked => Initial c.escrow) (WireStep env)

/-- The deed, if there is one, is signed for in the transaction. -/
def Carries (a : Option (Transaction env.address × Instruction)) (d : Option Deed) : Prop :=
  ∀ deed, d = some deed → ∃ tx ix, a = some (tx, ix) ∧ (tx.signer? deed.signer).isSome

theorem deed_signer {c : Call env} {d : Deed} (h : deed s now c = some d) :
    d.signer = c.authority := by
  cases c with
  | createJob accounts agent nonce priceMicro =>
      obtain rfl := Option.some.inj h
      rfl
  | acceptJob accounts | completeJob accounts | disputeJob accounts | closeJob accounts
  | releasePayment accounts | cancelJob accounts | resolveDispute accounts =>
      obtain ⟨job, -, rfl⟩ := Option.map_eq_some_iff.mp h
      rfl

/-- What a step of the wire is in the program's own terms. -/
theorem WireStep.clocked {c c' : Clocked} {a : Option (Transaction env.address × Instruction)}
    (h : WireStep env c a c') : ∃ d, ClockedStep env c d c' ∧ Carries a d := by
  cases h with
  | instruction ht hprocess =>
      obtain ⟨call, hexec, hsigned⟩ := exists_call hprocess
      refine ⟨_, .call ht hexec, fun d hd => ⟨_, _, rfl, ?_⟩⟩
      rwa [deed_signer hd]
  | external ht hkeeps => exact ⟨none, .external ht hkeeps, fun _ h => by cases h⟩

/-- **A run of transactions is a run of the program**, in which each deed is signed for. -/
theorem WireRun.refines {log : List (Option (Transaction env.address × Instruction))} {c : Clocked}
    (h : WireRun env log c) :
    ∃ deeds, ClockedRun env deeds c ∧ List.Forall₂ Carries log deeds := by
  refine h.invariant (fun log c => ∃ deeds, ClockedRun env deeds c ∧ List.Forall₂ Carries log deeds)
    ?_ ?_
  · intro c hc
    exact ⟨[], .start hc, .nil⟩
  · rintro log c a c' - ⟨deeds, hrun, hdeeds⟩ hstep
    obtain ⟨d, hclocked, hcarries⟩ := hstep.clocked
    exact ⟨deeds ++ [d], hrun.snoc hclocked, List.rel_append hdeeds (.cons hcarries .nil)⟩

/-- `p` has signed a transaction of the run. -/
def SignedIn (log : List (Option (Transaction env.address × Instruction))) (p : Pubkey) : Prop :=
  ∃ tx ix, some (tx, ix) ∈ log ∧ (tx.signer? p).isSome

theorem signedIn_of_deed {log : List (Option (Transaction env.address × Instruction))}
    {ds : List (Option Deed)} (h : List.Forall₂ Carries log ds) {d : Deed} (hd : some d ∈ ds) :
    SignedIn log d.signer := by
  induction h with
  | nil => cases hd
  | cons ha _ ih =>
      rcases List.mem_cons.mp hd with rfl | hd
      · obtain ⟨tx, ix, rfl, hsigned⟩ := ha d rfl
        exact ⟨tx, ix, List.mem_cons_self, hsigned⟩
      · obtain ⟨tx, ix, hmem, hsigned⟩ := ih hd
        exact ⟨tx, ix, List.mem_cons_of_mem _ hmem, hsigned⟩

/-- The client's deed is in every story, and the agent's where the agent has agreed. -/
theorem Job.Story.mem {job : Job} {h : List Deed} (hs : job.Story h) :
    job.opened ∈ h ∧ (job.state.agentSigned = true → job.acceptance ∈ h) := by
  unfold Job.Story at hs
  split at hs
  · subst hs
    simp_all [JobState.agentSigned]
  · subst hs
    simp
  · subst hs
    simp
  · obtain ⟨t, rfl⟩ := hs
    simp
  · obtain ⟨t, rfl⟩ := hs
    simp
  · rcases hs with ⟨t, rfl⟩ | ⟨t, -, rfl⟩ | ⟨t, caller, -, rfl⟩ <;>
      simp_all [JobState.agentSigned]

end Qietr.Escrow
