import Qietr.Library.Borsh
import Qietr.Pool.Wire

/-!
# Wire — arguments and accounts of a call

What Anchor takes from the data and the accounts of an instruction before the program's handler
runs: the arguments one after the other, and the accounts in the order of the context.

* `decodeDeposit`, `decodeWithdraw`: the data as a call, or none; bytes after it are not read.
* `DepositKeys`, `WithdrawKeys`: the two contexts.
* `poolWithdraw_args`: what the program's `withdraw` runs with.
-/

namespace Qietr.Wire

open Borsh Outcome Pool

/-! ### Arguments -/

structure DepositArgs where
  denomId : UInt8
  commitment : Bytes32
  deriving DecidableEq

structure WithdrawArgs where
  denomId : UInt8
  nullifierHash : Bytes32
  proof : Bytes PROOF_BYTES
  publicSignals : Vector Bytes32 PUBLIC_SIGNAL_COUNT
  deriving DecidableEq

def DepositArgs.read : Reader DepositArgs := do
  let denomId ← readU8
  let commitment ← readArray 32
  pure { denomId, commitment }

def WithdrawArgs.read : Reader WithdrawArgs := do
  let denomId ← readU8
  let nullifierHash ← readArray 32
  let proof ← readArray PROOF_BYTES
  let publicSignals ← readVector (readArray 32) PUBLIC_SIGNAL_COUNT
  pure { denomId, nullifierHash, proof, publicSignals }

/-- The data as a call of the instruction `disc`. -/
def decodeCall {α : Type} (disc : List UInt8) (read : Reader α) (data : List UInt8) : Option α :=
  if data.take 8 = disc then (read (data.drop 8)).map Prod.fst else none

def decodeDeposit : List UInt8 → Option DepositArgs :=
  decodeCall DEPOSIT_DISC DepositArgs.read

def decodeWithdraw : List UInt8 → Option WithdrawArgs :=
  decodeCall WITHDRAW_DISC WithdrawArgs.read

theorem DepositArgs.sized : Sized (1 + (32 + 0)) DepositArgs.read fun bs =>
    { denomId := bs.getD 0 0, commitment := bytesAt 32 (bs.drop 1) } :=
  .bind .readU8 fun denomId => .bind (.readArray 32) fun commitment =>
    .pure (DepositArgs.mk denomId commitment)

theorem WithdrawArgs.sized :
    Sized (1 + (32 + (PROOF_BYTES + (PUBLIC_SIGNAL_COUNT * 32 + 0)))) WithdrawArgs.read fun bs =>
      { denomId := bs.getD 0 0
        nullifierHash := bytesAt 32 (bs.drop 1)
        proof := bytesAt PROOF_BYTES ((bs.drop 1).drop 32)
        publicSignals := Vector.ofFn fun i : Fin PUBLIC_SIGNAL_COUNT =>
          bytesAt 32 ((((bs.drop 1).drop 32).drop PROOF_BYTES).drop (i * 32)) } :=
  .bind .readU8 fun denomId => .bind (.readArray 32) fun nullifierHash =>
    .bind (.readArray PROOF_BYTES) fun proof =>
      .bind (.readVector (.readArray 32) PUBLIC_SIGNAL_COUNT) fun publicSignals =>
        .pure (WithdrawArgs.mk denomId nullifierHash proof publicSignals)

/-- A call of `8 + n` bytes. -/
theorem decodeCall_eq {α : Type} {disc : List UInt8} {n : ℕ} {read : Reader α}
    {get : List UInt8 → α} (h : Sized n read get) (data : List UInt8) :
    decodeCall disc read data =
      if data.take 8 = disc ∧ n ≤ data.length - 8 then some (get (data.drop 8)) else none := by
  rw [decodeCall, h, List.length_drop]
  by_cases hdisc : data.take 8 = disc
  · by_cases hlen : n ≤ data.length - 8
    · rw [if_pos hdisc, if_pos hlen, if_pos ⟨hdisc, hlen⟩]
      rfl
    · rw [if_pos hdisc, if_neg hlen, if_neg fun h => hlen h.2]
      rfl
  · rw [if_neg hdisc, if_neg fun h => hdisc h.1]

/-- **A deposit** on the wire. -/
theorem decodeDeposit_eq (data : List UInt8) :
    decodeDeposit data =
      if data.take 8 = DEPOSIT_DISC ∧ 41 ≤ data.length then
        some { denomId := data.getD 8 0, commitment := dataBytes 32 data 9 }
      else none := by
  have hlen : 1 + (32 + 0) ≤ data.length - 8 ↔ 41 ≤ data.length := by omega
  rw [decodeDeposit, decodeCall_eq DepositArgs.sized, List.drop_drop]
  simp only [hlen, List.getD_eq_getElem?_getD, List.getElem?_drop]
  rfl

/-- **A withdraw** on the wire. -/
theorem decodeWithdraw_eq (data : List UInt8) :
    decodeWithdraw data =
      if data.take 8 = WITHDRAW_DISC ∧ WITHDRAW_LEN ≤ data.length then
        some
          { denomId := data.getD 8 0
            nullifierHash := dataBytes 32 data 9
            proof := dataBytes PROOF_BYTES data 41
            publicSignals := Vector.ofFn fun i : Fin PUBLIC_SIGNAL_COUNT =>
              dataBytes 32 data (297 + 32 * i) }
      else none := by
  have hlen : 1 + (32 + (PROOF_BYTES + (PUBLIC_SIGNAL_COUNT * 32 + 0))) ≤ data.length - 8 ↔
      WITHDRAW_LEN ≤ data.length := by
    rw [WITHDRAW_LEN, PROOF_BYTES, PUBLIC_SIGNAL_COUNT]
    omega
  have hsignal : ∀ i : Fin PUBLIC_SIGNAL_COUNT, 8 + 1 + 32 + PROOF_BYTES + i * 32 =
    297 + 32 * i := by
    intro i
    rw [PROOF_BYTES]
    omega
  rw [decodeWithdraw, decodeCall_eq WithdrawArgs.sized]
  simp only [hlen, List.getD_eq_getElem?_getD, List.getElem?_drop, List.drop_drop, hsignal]
  rfl

/-- What is written is what is read. -/
theorem decodeDeposit_data (denomId : UInt8) (commitment : Bytes32) :
    decodeDeposit (DEPOSIT_DISC ++ denomId :: commitment.toList) =
      some { denomId, commitment } := by
  have hbytes := dataBytes_append (DEPOSIT_DISC ++ [denomId]) commitment []
    (show (DEPOSIT_DISC ++ [denomId]).length = 9 from rfl)
  rw [List.append_nil, List.append_assoc, List.singleton_append] at hbytes
  have hlen : 41 ≤ (DEPOSIT_DISC ++ denomId :: commitment.toList).length := by
    simp [DEPOSIT_DISC]
  rw [decodeDeposit_eq, if_pos ⟨rfl, hlen⟩, hbytes]
  rfl

theorem decodeWithdraw_data (denomId : UInt8) (nullifierHash : Bytes32) (proof : Bytes PROOF_BYTES)
    (publicSignals : Vector Bytes32 PUBLIC_SIGNAL_COUNT) :
    decodeWithdraw (WITHDRAW_DISC ++ denomId ::
        (nullifierHash.toList ++ (proof.toList ++ signalBytes publicSignals))) =
      some { denomId, nullifierHash, proof, publicSignals } := by
  obtain ⟨hnullifier, hproof, hsignals⟩ :=
    dataBytes_withdraw denomId nullifierHash proof publicSignals
  have hlen : WITHDRAW_LEN ≤ (WITHDRAW_DISC ++ denomId ::
      (nullifierHash.toList ++ (proof.toList ++ signalBytes publicSignals))).length := by
    simp [WITHDRAW_LEN, WITHDRAW_DISC, signalBytes, PROOF_BYTES, PUBLIC_SIGNAL_COUNT]
  rw [decodeWithdraw_eq, if_pos ⟨rfl, hlen⟩, hnullifier, hproof, hsignals]
  rfl

/-! ### Accounts -/

/-- The accounts of the `Deposit` context. -/
structure DepositKeys where
  config : Pubkey
  denomination : Pubkey
  tree : Pubkey
  vault : Pubkey
  depositorAta : Pubkey
  depositor : Pubkey
  tokenProgram : Pubkey
  deriving DecidableEq

def depositKeys? (ix : Instruction) : Option DepositKeys := do
  let config ← ix.account? 0
  let denomination ← ix.account? 1
  let tree ← ix.account? 2
  let vault ← ix.account? 3
  let depositorAta ← ix.account? 4
  let depositor ← ix.account? 5
  let tokenProgram ← ix.account? 6
  some { config, denomination, tree, vault, depositorAta, depositor, tokenProgram }

/-- The accounts of the `Withdraw` context. -/
structure WithdrawKeys where
  config : Pubkey
  denomination : Pubkey
  tree : Pubkey
  vault : Pubkey
  nullifier : Pubkey
  recipientAta : Pubkey
  feeVault : Option Pubkey
  feePayer : Pubkey
  tokenProgram : Pubkey
  systemProgram : Pubkey
  deriving DecidableEq

/-- An optional account: the program's own address stands for none. -/
def optionalKey (programId key : Pubkey) : Option Pubkey :=
  if key = programId then none else some key

theorem optionalKey_getD (programId : Pubkey) (key : Option Pubkey) :
    optionalKey programId (key.getD programId) = key.bind (optionalKey programId) := by
  cases key with
  | none => exact if_pos rfl
  | some key => rfl

def withdrawKeys? (programId : Pubkey) (ix : Instruction) : Option WithdrawKeys := do
  let config ← ix.account? 0
  let denomination ← ix.account? 1
  let tree ← ix.account? 2
  let vault ← ix.account? 3
  let nullifier ← ix.account? 4
  let recipientAta ← ix.account? 5
  let feeVault ← ix.account? 6
  let feePayer ← ix.account? 7
  let tokenProgram ← ix.account? 8
  let systemProgram ← ix.account? 9
  some
    { config, denomination, tree, vault, nullifier, recipientAta
      feeVault := optionalKey programId feeVault
      feePayer, tokenProgram, systemProgram }

/-! ### The program's withdraw -/

theorem account?_of_writableKey {ix : Instruction} {i : ℕ} {k : Pubkey}
    (h : writableKey ix i = .ok k) : ix.account? i = some k := by
  obtain ⟨account, haccount, h⟩ := okOr_bind_eq_ok.mp h
  obtain ⟨-, h⟩ := require_bind_eq_ok.mp h
  rw [Instruction.account?, haccount, ← Except.ok.inj h]
  rfl

theorem account?_of_optionalWritableKey {programId : Pubkey} {ix : Instruction} {i : ℕ}
    {o : Option Pubkey} (h : optionalWritableKey programId ix i = .ok o) :
    ∃ k, ix.account? i = some k ∧ optionalKey programId k = o := by
  obtain ⟨k, hk, h⟩ := bind_eq_ok.mp h
  refine ⟨k, accountKey_eq_ok.mp hk, ?_⟩
  rw [optionalKey]
  by_cases e : k = programId
  · rw [if_pos e] at h ⊢
    exact Except.ok.inj h
  · rw [if_neg e] at h ⊢
    cases hw : writableKey ix i with
    | error err =>
        rw [hw] at h
        cases h
    | ok k' =>
        rw [hw] at h
        have hkey := accountKey_eq_ok.mp hk
        rw [account?_of_writableKey hw] at hkey
        obtain rfl := Option.some.inj hkey
        exact Except.ok.inj h

variable {env : PoolEnv}

/-- **What a withdraw runs with**: the arguments and the accounts as they are read. -/
theorem poolWithdraw_args {programId : Pubkey} {s s' : PoolState} {slot : UInt64}
    {tx : Transaction env.address} {ix : Instruction}
    (h : poolWithdraw env programId s slot tx ix = .ok s') :
    ∃ args keys feePayer, decodeWithdraw ix.data = some args ∧
      withdrawKeys? programId ix = some keys ∧ tx.signer? keys.feePayer = some feePayer ∧
      withdraw env s slot { recipientAta := keys.recipientAta, feeVault := keys.feeVault, feePayer }
        args.denomId args.nullifierHash args.proof args.publicSignals = .ok s' := by
  simp only [poolWithdraw, checkAddress, bind_eq_ok, require_eq_ok, okOr_eq_ok, accountKey_eq_ok,
    exists_and_left, exists_const] at h
  obtain ⟨hdisc, hlen, config, h₀, -, denomination, h₁, -, tree, h₂, -, vault, h₃, -, nullifier, h₄,
    -, recipientAta, h₅, feeVault, h₆, feePayerKey, h₇, feePayer, hsigned, tokenProgram, h₈, -,
    systemProgram, h₉, -, h⟩ := h
  obtain ⟨feeVaultKey, hfeeVault, rfl⟩ := account?_of_optionalWritableKey h₆
  have hkeys : withdrawKeys? programId ix = some
      { config, denomination, tree, vault, nullifier, recipientAta
        feeVault := optionalKey programId feeVaultKey
        feePayer := feePayerKey
        tokenProgram, systemProgram } := by
    rw [withdrawKeys?, h₀, h₁, account?_of_writableKey h₂, account?_of_writableKey h₃,
      account?_of_writableKey h₄, account?_of_writableKey h₅, hfeeVault,
      account?_of_writableKey h₇, h₈, h₉]
    rfl
  have hargs := (decodeWithdraw_eq ix.data).trans (if_pos ⟨hdisc, hlen⟩)
  exact ⟨_, _, feePayer, hargs, hkeys, hsigned, h⟩

end Qietr.Wire
