import Qietr.Pool.Wire

/-!
# SDK — the program's instructions

`program.ts`: the instructions the SDK builds, hand-crafted to match the program.

* `buildDepositIx`, `buildWithdrawIx`: a deposit and a withdraw.
* `poolWithdraw_buildWithdrawIx`: what the program reads of it.
-/

namespace Qietr.Sdk

open Outcome Pool

variable {env : PoolEnv}

/-- The pool's address. -/
def QIETR_POOL_PROGRAM_ID : Pubkey :=
  Bytes.ofNat 32 0x3454afc46e97ac20c043a95eb0fd2ea0d88445aa57b47bc8d749c96908463300

/-! ### Deposit -/

/-- The SDK's deposit instruction. -/
def buildDepositIx (env : PoolEnv) (programId : Pubkey) (denomId : UInt8) (commitmentBe : Bytes32)
    (depositorAta depositor : Pubkey) : Instruction where
  programId
  keys :=
    [⟨env.address .config, false, false⟩, ⟨env.address (.denomination denomId), false, true⟩,
      ⟨env.address (.tree denomId), false, true⟩, ⟨env.vault denomId, false, true⟩,
      ⟨depositorAta, false, true⟩, ⟨depositor, true, true⟩, ⟨TOKEN_PROGRAM_ID, false, false⟩]
  data := DEPOSIT_DISC ++ denomId :: commitmentBe.toList

structure DepositIxAccounts where
  config : Pubkey
  denomination : Pubkey
  tree : Pubkey
  vault : Pubkey
  depositorAta : Pubkey
  depositor : Pubkey
  tokenProgram : Option Pubkey

/-- `buildDepositIx`, from any accounts. -/
def buildDepositIxFrom (denomId : ℕ) (commitmentBe : List UInt8) (accts : DepositIxAccounts)
    (programId : Pubkey) : Except String Instruction := do
  require (commitmentBe.length = 32) s!"commitment must be 32 bytes, got {commitmentBe.length}"
  .ok
    { programId
      keys :=
        [⟨accts.config, false, false⟩, ⟨accts.denomination, false, true⟩, ⟨accts.tree, false, true⟩,
          ⟨accts.vault, false, true⟩, ⟨accts.depositorAta, false, true⟩,
          ⟨accts.depositor, true, true⟩, ⟨accts.tokenProgram.getD TOKEN_PROGRAM_ID, false, false⟩]
      data := DEPOSIT_DISC ++ UInt8.ofNat denomId :: commitmentBe }

/-- The accounts of a deposit of the denomination `denomId`. -/
def depositIxAccounts (env : PoolEnv) (denomId : UInt8) (depositorAta depositor : Pubkey) :
    DepositIxAccounts where
  config := env.address .config
  denomination := env.address (.denomination denomId)
  tree := env.address (.tree denomId)
  vault := env.vault denomId
  depositorAta
  depositor
  tokenProgram := none

theorem buildDepositIxFrom_eq {programId : Pubkey} {denomId : UInt8} {commitmentBe : Bytes32}
    {depositorAta depositor : Pubkey} :
    buildDepositIxFrom denomId.toNat commitmentBe.toList
        (depositIxAccounts env denomId depositorAta depositor) programId =
      .ok (buildDepositIx env programId denomId commitmentBe depositorAta depositor) := by
  rw [buildDepositIxFrom, require_of _ (Vector.length_toList), UInt8.ofNat_toNat]
  rfl

/-! ### Withdraw -/

structure WithdrawIxAccounts where
  config : Pubkey
  denomination : Pubkey
  tree : Pubkey
  vault : Pubkey
  nullifier : Pubkey
  recipientAta : Pubkey
  feePayer : Pubkey
  /-- The fee vault, for the protocol's fee. -/
  feeVault : Option Pubkey
  tokenProgram : Option Pubkey
  systemProgram : Option Pubkey

/-- The data and the accounts of a withdraw, in the program's order. -/
def buildWithdrawIx (denomId : ℕ) (nullifierHashBe : Bytes32) (proofBytes : Bytes PROOF_BYTES)
    (publicSignals : List Bytes32) (accts : WithdrawIxAccounts) (programId : Pubkey) :
    Except String Instruction := do
  require (publicSignals.length = 6) s!"expected 6 public signals, got {publicSignals.length}"
  .ok
    { programId
      keys :=
        [⟨accts.config, false, false⟩, ⟨accts.denomination, false, false⟩,
          ⟨accts.tree, false, true⟩,
          ⟨accts.vault, false, true⟩, ⟨accts.nullifier, false, true⟩,
          ⟨accts.recipientAta, false, true⟩,
          -- an optional account that is not there is the program itself
          ⟨accts.feeVault.getD programId, false, accts.feeVault.isSome⟩,
          ⟨accts.feePayer, true, true⟩, ⟨accts.tokenProgram.getD TOKEN_PROGRAM_ID, false, false⟩,
          ⟨accts.systemProgram.getD SYSTEM_PROGRAM_ID, false, false⟩]
      data := WITHDRAW_DISC ++ UInt8.ofNat denomId :: (nullifierHashBe.toList ++
        (proofBytes.toList ++ publicSignals.flatMap Vector.toList)) }

/-- The accounts of a withdraw of the denomination `denomId`. -/
def withdrawIxAccounts (env : PoolEnv) (denomId : ℕ) (nullifierHashBe : Bytes32)
    (recipientAta feePayer : Pubkey) (feeVault : Option Pubkey) : WithdrawIxAccounts where
  config := env.address .config
  denomination := env.address (.denomination (UInt8.ofNat denomId))
  tree := env.address (.tree (UInt8.ofNat denomId))
  vault := env.vault (UInt8.ofNat denomId)
  nullifier := env.address (.nullifier (UInt8.ofNat denomId) nullifierHashBe)
  recipientAta
  feePayer
  feeVault
  tokenProgram := none
  systemProgram := none

/-- **The program reads** of the SDK's instruction what the SDK has put there. -/
theorem poolWithdraw_buildWithdrawIx {denomId : ℕ} {nullifierHashBe : Bytes32}
    {proofBytes : Bytes PROOF_BYTES} {publicSignals : Vector Bytes32 PUBLIC_SIGNAL_COUNT}
    {recipientAta : Pubkey} {feeVault : Option Pubkey} {feePayer : PoolSigner env}
    {programId : Pubkey} {ix : Instruction}
    (hix : buildWithdrawIx denomId nullifierHashBe proofBytes publicSignals.toList
      (withdrawIxAccounts env denomId nullifierHashBe recipientAta feePayer.key feeVault)
        programId = .ok ix)
    (hvault : feeVault ≠ some programId) {tx : Transaction env.address}
    (hsigned : tx.signer? feePayer.key = some feePayer) (s : PoolState) (slot : UInt64) :
    poolWithdraw env programId s slot tx ix =
      withdraw env s slot { recipientAta, feeVault, feePayer } (UInt8.ofNat denomId) nullifierHashBe
        proofBytes publicSignals := by
  obtain ⟨-, hix⟩ := require_bind_eq_ok.mp hix
  have hkeys := congrArg Instruction.keys (Except.ok.inj hix)
  have hdata : WITHDRAW_DISC ++ UInt8.ofNat denomId :: (nullifierHashBe.toList ++
      (proofBytes.toList ++ signalBytes publicSignals)) = ix.data :=
    congrArg Instruction.data (Except.ok.inj hix)
  have hkey : ∀ {i : ℕ} {account : AccountMeta}, _ → ix.keys[i]? = some account :=
    fun {i account} h => (congrArg (·[i]?) hkeys).symm.trans h
  obtain ⟨hnull, hproof, hsignals⟩ :=
    dataBytes_withdraw (UInt8.ofNat denomId) nullifierHashBe proofBytes publicSignals
  rw [hdata] at hnull hproof hsignals
  exact poolWithdraw_eq
    { discriminator := by rw [← hdata]; rfl
      length := by
        rw [← hdata]
        simp [WITHDRAW_LEN, WITHDRAW_DISC, signalBytes, PROOF_BYTES,
          PUBLIC_SIGNAL_COUNT]
      denomId_eq := by rw [← hdata]; rfl
      nullifierHash_eq := hnull
      proof_eq := hproof
      signals_eq := hsignals
      config := accountKey_of (hkey rfl)
      denomination := accountKey_of (hkey rfl)
      tree := writableKey_of (hkey rfl)
      vault := writableKey_of (hkey rfl)
      nullifier := writableKey_of (hkey rfl)
      recipientAta := writableKey_of (hkey rfl)
      feeVault := optionalWritableKey_of hvault (hkey rfl)
      feePayer := writableKey_of (hkey rfl)
      signed := hsigned
      tokenProgram := accountKey_of (hkey rfl)
      systemProgram := accountKey_of (hkey rfl) } s slot

end Qietr.Sdk
