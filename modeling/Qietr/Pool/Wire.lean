import Qietr.Pool.Spec
import Qietr.Solana.Transaction

/-!
# Pool — instructions on the wire

How an instruction of the program is written in a transaction, and what the program reads of it.

* `discriminator`, `Call.args`, `Call.data`: the data of an instruction.
* `accountKey`, `writableKey`: an account of an instruction, as Anchor loads it.
* `poolWithdraw`: the program's `withdraw`, from the accounts and the data of an instruction.
-/

namespace Qietr.Pool

open Outcome

variable {env : PoolEnv}

/-! ### Data -/

/-- The first eight bytes of the SHA-256 of `global:deposit`. -/
def DEPOSIT_DISC : List UInt8 := [242, 35, 198, 137, 82, 225, 242, 182]

/-- The first eight bytes of the SHA-256 of `global:withdraw`. -/
def WITHDRAW_DISC : List UInt8 := [183, 18, 70, 156, 148, 109, 161, 34]

/-- Which instruction it is: the same of each. -/
def Call.discriminator : Call env → List UInt8
  | .initializePool .. => [95, 180, 10, 172, 84, 174, 232, 40]
  | .initializeDenomination .. => [233, 177, 61, 145, 203, 67, 98, 115]
  | .deposit .. => DEPOSIT_DISC
  | .withdraw .. => WITHDRAW_DISC
  | .setPaused .. => [91, 60, 125, 192, 176, 225, 166, 218]
  | .queueVkUpgrade .. => [19, 13, 170, 119, 203, 216, 161, 241]
  | .applyVkUpgrade .. => [57, 77, 22, 176, 20, 42, 219, 195]
  | .setFeeVault .. => [123, 251, 35, 203, 85, 56, 54, 5]

/-- The public signals, one after the other. -/
def signalBytes (signals : Vector Bytes32 PUBLIC_SIGNAL_COUNT) : List UInt8 :=
  signals.toList.flatMap Vector.toList

/-- The arguments: numbers are little-endian, and arrays have no length prefix. -/
def Call.args : Call env → List UInt8
  | .initializePool _ feeBps => (beBytes 2 feeBps.toNat).reverse
  | .initializeDenomination _ _ denomId amount => denomId :: (beBytes 8 amount.toNat).reverse
  | .deposit _ denomId commitment => denomId :: commitment.toList
  | .withdraw _ denomId nullifierHash proof signals =>
      denomId :: (nullifierHash.toList ++ (proof.toList ++ signalBytes signals))
  | .setPaused _ paused => [if paused then 1 else 0]
  | .queueVkUpgrade _ newVkHash => newVkHash.toList
  | .applyVkUpgrade _ | .setFeeVault .. => []

/-- The data of an instruction. -/
def Call.data (c : Call env) : List UInt8 :=
  c.discriminator ++ c.args

@[simp] theorem Call.length_discriminator (c : Call env) : c.discriminator.length = 8 := by
  cases c <;> rfl

/-- The bytes of a field of the data. -/
def dataBytes (n : ℕ) (data : List UInt8) (offset : ℕ) : Bytes n :=
  Bytes.ofNat n (beNat ((data.drop offset).take n))

theorem dataBytes_append {n : ℕ} (before : List UInt8) (v : Bytes n) (after : List UInt8)
    {offset : ℕ} (hoffset : before.length = offset) :
    dataBytes n (before ++ (v.toList ++ after)) offset = v := by
  subst hoffset
  rw [dataBytes, List.drop_left, List.take_left' (Vector.length_toList)]
  exact Bytes.ofNat_toNat v

/-- One of several fields of 32 bytes. -/
theorem dataBytes_flatMap {k : ℕ} (before : List UInt8) (fields : Vector Bytes32 k) (i : Fin k)
    {offset : ℕ} (hoffset : before.length + 32 * i = offset) :
    dataBytes 32 (before ++ fields.toList.flatMap Vector.toList) offset = fields[i] := by
  have hi : i.val < fields.toList.length := by simp
  have hlength : ∀ xs : List Bytes32, (xs.flatMap Vector.toList).length = 32 * xs.length := by
    intro xs
    induction xs with
    | nil => rfl
    | cons x xs ih => rw [List.flatMap_cons, List.length_append, ih, Vector.length_toList,
        List.length_cons, Nat.mul_succ, Nat.add_comm]
  have hget : fields.toList[i.val] = fields[i] := by simp
  have hsplit : fields.toList = fields.toList.take i ++ fields[i] ::
    fields.toList.drop (i + 1) := by
    rw [← hget, List.getElem_cons_drop, List.take_append_drop]
  rw [hsplit, List.flatMap_append, List.flatMap_cons, ← List.append_assoc]
  refine dataBytes_append _ _ _ ?_
  rw [List.length_append, hlength, List.length_take_of_le hi.le, hoffset]

/-- The fields of a withdraw's data. -/
theorem dataBytes_withdraw (denomId : UInt8) (nullifierHash : Bytes32) (proof : Bytes PROOF_BYTES)
    (signals : Vector Bytes32 PUBLIC_SIGNAL_COUNT) :
    let data := WITHDRAW_DISC ++ denomId ::
      (nullifierHash.toList ++ (proof.toList ++ signalBytes signals))
    dataBytes 32 data 9 = nullifierHash ∧ dataBytes PROOF_BYTES data 41 = proof ∧
      (Vector.ofFn fun i : Fin PUBLIC_SIGNAL_COUNT => dataBytes 32 data (297 + 32 * i)) =
        signals := by
  let header := WITHDRAW_DISC ++ [denomId]
  have hheader : header.length = 9 := rfl
  refine ⟨dataBytes_append header _ _ hheader, ?_, ?_⟩
  · have hproof := dataBytes_append (header ++ nullifierHash.toList) proof (signalBytes signals)
      (by rw [List.length_append, hheader, Vector.length_toList])
    rwa [List.append_assoc] at hproof
  · have hbefore : (header ++ nullifierHash.toList ++ proof.toList).length = 297 := by
      rw [List.length_append, List.length_append, hheader, Vector.length_toList,
        Vector.length_toList, PROOF_BYTES]
    ext i hi : 1
    rw [Vector.getElem_ofFn]
    have hsignal := dataBytes_flatMap (header ++ nullifierHash.toList ++ proof.toList) signals
      ⟨i, hi⟩ (by rw [hbefore])
    rwa [List.append_assoc, List.append_assoc] at hsignal

/-! ### Accounts -/

/-- The `i`-th account, which has to be there. -/
def accountKey (ix : Instruction) (i : ℕ) : Except PoolError Pubkey :=
  okOr (ix.account? i) (.anchor .accountNotEnoughKeys)

/-- The same, of one that the instruction writes. -/
def writableKey (ix : Instruction) (i : ℕ) : Except PoolError Pubkey := do
  let account ← okOr ix.keys[i]? (.anchor .accountNotEnoughKeys)
  require (account.isWritable = true) (.anchor .constraintMut)
  .ok account.pubkey

theorem accountKey_eq_ok {ix : Instruction} {i : ℕ} {k : Pubkey} :
    accountKey ix i = .ok k ↔ ix.account? i = some k :=
  okOr_eq_ok

theorem accountKey_of {ix : Instruction} {i : ℕ} {k : Pubkey} {isSigner isWritable : Bool}
    (h : ix.keys[i]? = some ⟨k, isSigner, isWritable⟩) : accountKey ix i = .ok k := by
  rw [accountKey_eq_ok, Instruction.account?, h]
  rfl

theorem writableKey_of {ix : Instruction} {i : ℕ} {k : Pubkey} {isSigner : Bool}
    (h : ix.keys[i]? = some ⟨k, isSigner, true⟩) : writableKey ix i = .ok k := by
  rw [writableKey, h]
  rfl

/-- An account the accounts struct wants at a derived address. -/
def checkAddress (key expected : Pubkey) : Except PoolError Unit :=
  require (key = expected) (.anchor .constraintSeeds)

/-- The system program. -/
def SYSTEM_PROGRAM_ID : Pubkey := Bytes.zero 32

/-- An optional account that the instruction writes: the program's own address stands for none. -/
def optionalWritableKey (programId : Pubkey) (ix : Instruction) (i : ℕ) :
    Except PoolError (Option Pubkey) := do
  let key ← accountKey ix i
  if key = programId then .ok none else some <$> writableKey ix i

theorem optionalWritableKey_of {programId : Pubkey} {ix : Instruction} {i : ℕ}
    {o : Option Pubkey} (ho : o ≠ some programId)
    (h : ix.keys[i]? = some ⟨o.getD programId, false, o.isSome⟩) :
    optionalWritableKey programId ix i = .ok o := by
  have hkey : ix.account? i = some (o.getD programId) := by
    rw [Instruction.account?, h]
    rfl
  rw [optionalWritableKey, accountKey_eq_ok.mpr hkey, ok_bind]
  cases o with
  | none => rw [Option.getD_none, if_pos rfl]
  | some key =>
      rw [Option.getD_some, if_neg fun e => ho (congrArg some e), writableKey_of h]
      rfl

/-- The length of a withdraw's data. -/
def WITHDRAW_LEN : ℕ := 8 + 1 + 32 + PROOF_BYTES + 32 * PUBLIC_SIGNAL_COUNT

/-- The program's `withdraw`. -/
def poolWithdraw (env : PoolEnv) (programId : Pubkey) (s : PoolState) (slot : UInt64)
    (tx : Transaction env.address) (ix : Instruction) : Except PoolError PoolState := do
  require (ix.data.take 8 = WITHDRAW_DISC) (.anchor .instructionFallbackNotFound)
  require (WITHDRAW_LEN ≤ ix.data.length) (.anchor .instructionDidNotDeserialize)
  let denomId := ix.data.getD 8 0
  let nullifierHash := dataBytes 32 ix.data 9
  let proof := dataBytes PROOF_BYTES ix.data 41
  let signals := Vector.ofFn fun i : Fin PUBLIC_SIGNAL_COUNT => dataBytes 32 ix.data (297 + 32 * i)
  let config ← accountKey ix 0
  checkAddress config (env.address .config)
  let denomination ← accountKey ix 1
  checkAddress denomination (env.address (.denomination denomId))
  let tree ← writableKey ix 2
  checkAddress tree (env.address (.tree denomId))
  let vault ← writableKey ix 3
  checkAddress vault (env.vault denomId)
  let nullifier ← writableKey ix 4
  checkAddress nullifier (env.address (.nullifier denomId nullifierHash))
  let recipientAta ← writableKey ix 5
  let feeVault ← optionalWritableKey programId ix 6
  let key ← writableKey ix 7
  let feePayer ← okOr (tx.signer? key) (.anchor .accountNotSigner)
  let tokenProgram ← accountKey ix 8
  require (tokenProgram = TOKEN_PROGRAM_ID) (.anchor .invalidProgramId)
  let systemProgram ← accountKey ix 9
  require (systemProgram = SYSTEM_PROGRAM_ID) (.anchor .invalidProgramId)
  withdraw env s slot { recipientAta, feeVault, feePayer } denomId nullifierHash proof signals

/-- An instruction that the program reads as a withdraw with these accounts and arguments. -/
structure WithdrawIx (env : PoolEnv) (programId : Pubkey) (tx : Transaction env.address)
    (ix : Instruction) (accounts : WithdrawAccounts env) (denomId : UInt8)
    (nullifierHash : Bytes32) (proof : Bytes PROOF_BYTES)
    (signals : Vector Bytes32 PUBLIC_SIGNAL_COUNT) : Prop where
  discriminator : ix.data.take 8 = WITHDRAW_DISC
  length : WITHDRAW_LEN ≤ ix.data.length
  denomId_eq : ix.data.getD 8 0 = denomId
  nullifierHash_eq : dataBytes 32 ix.data 9 = nullifierHash
  proof_eq : dataBytes PROOF_BYTES ix.data 41 = proof
  signals_eq : (Vector.ofFn fun i : Fin PUBLIC_SIGNAL_COUNT =>
    dataBytes 32 ix.data (297 + 32 * i)) = signals
  config : accountKey ix 0 = .ok (env.address .config)
  denomination : accountKey ix 1 = .ok (env.address (.denomination denomId))
  tree : writableKey ix 2 = .ok (env.address (.tree denomId))
  vault : writableKey ix 3 = .ok (env.vault denomId)
  nullifier : writableKey ix 4 = .ok (env.address (.nullifier denomId nullifierHash))
  recipientAta : writableKey ix 5 = .ok accounts.recipientAta
  feeVault : optionalWritableKey programId ix 6 = .ok accounts.feeVault
  feePayer : writableKey ix 7 = .ok accounts.feePayer.key
  signed : tx.signer? accounts.feePayer.key = some accounts.feePayer
  tokenProgram : accountKey ix 8 = .ok TOKEN_PROGRAM_ID
  systemProgram : accountKey ix 9 = .ok SYSTEM_PROGRAM_ID

theorem poolWithdraw_eq {programId : Pubkey} {tx : Transaction env.address} {ix : Instruction}
    {accounts : WithdrawAccounts env} {denomId : UInt8} {nullifierHash : Bytes32}
    {proof : Bytes PROOF_BYTES} {signals : Vector Bytes32 PUBLIC_SIGNAL_COUNT}
    (h : WithdrawIx env programId tx ix accounts denomId nullifierHash proof signals)
    (s : PoolState) (slot : UInt64) :
    poolWithdraw env programId s slot tx ix =
      withdraw env s slot accounts denomId nullifierHash proof signals := by
  rw [poolWithdraw, require_of _ h.discriminator, ok_bind, require_of _ h.length, ok_bind]
  simp only [h.denomId_eq, h.nullifierHash_eq, h.proof_eq, h.signals_eq]
  simp only [h.config, h.denomination, h.tree, h.vault, h.nullifier, h.recipientAta, h.feeVault,
    h.feePayer, h.signed, h.tokenProgram, h.systemProgram, checkAddress, require_of _ trivial,
      ok_bind, okOr_some]

end Qietr.Pool
