import Qietr.Indexer.Decode
import Qietr.Relayer.Deposit
import Qietr.Relayer.Withdraw
import Qietr.Sdk.Program
import Qietr.Wire.Arguments

/-!
# Wire — the four codecs

The SDK writes instructions, the program reads them, and the poller and the relayer read them again,
each by offsets of its own.

* `SdkAgrees`: what the SDK writes is what the program reads.
* `PollerAgrees`: the poller reads of any bytes what the program does, and of no others.
* `RelayerAgrees`: so does the relayer, of the transactions it accepts.
* `ProgramReads`: the program's handlers run with what is read.
* `codecs_agree`: all four.
-/

namespace Qietr.Wire

open Outcome Pool

/-- What the SDK writes is what the program reads. -/
structure SdkAgrees : Prop where
  deposit : ∀ (denomId : UInt8) (commitment : Bytes32) (accts : Sdk.DepositIxAccounts)
    (programId : Pubkey), ∃ ix,
      Sdk.buildDepositIxFrom denomId.toNat commitment.toList accts programId = .ok ix ∧
      ix.programId = programId ∧
      decodeDeposit ix.data = some { denomId, commitment } ∧
      depositKeys? ix = some
        { config := accts.config
          denomination := accts.denomination
          tree := accts.tree
          vault := accts.vault
          depositorAta := accts.depositorAta
          depositor := accts.depositor
          tokenProgram := accts.tokenProgram.getD TOKEN_PROGRAM_ID }
  withdraw : ∀ (denomId : UInt8) (nullifierHash : Bytes32) (proof : Bytes PROOF_BYTES)
    (publicSignals : Vector Bytes32 PUBLIC_SIGNAL_COUNT) (accts : Sdk.WithdrawIxAccounts)
    (programId : Pubkey), ∃ ix,
      Sdk.buildWithdrawIx denomId.toNat nullifierHash proof publicSignals.toList accts programId =
        .ok ix ∧
      ix.programId = programId ∧
      decodeWithdraw ix.data = some { denomId, nullifierHash, proof, publicSignals } ∧
      withdrawKeys? programId ix = some
        { config := accts.config
          denomination := accts.denomination
          tree := accts.tree
          vault := accts.vault
          nullifier := accts.nullifier
          recipientAta := accts.recipientAta
          feeVault := accts.feeVault.bind (optionalKey programId)
          feePayer := accts.feePayer
          tokenProgram := accts.tokenProgram.getD TOKEN_PROGRAM_ID
          systemProgram := accts.systemProgram.getD SYSTEM_PROGRAM_ID }

/-- The poller reads of any bytes what the program does: the denomination, and the leaf that it
appends. -/
structure PollerAgrees : Prop where
  deposit : ∀ data, Indexer.parseDepositIx data =
    (decodeDeposit data).map fun args => (args.denomId, args.commitment)
  withdraw : ∀ data, Indexer.parseWithdrawIx data =
    (decodeWithdraw data).map fun args => (args.denomId, args.publicSignals[5])

/-- The validators read what the program does: the denomination, and the account they look at. -/
structure RelayerAgrees : Prop where
  deposit : ∀ {Seed : Type} {address : Seed → Pubkey} (web3 : Relayer.Web3 address)
    (txBase64 : String) (programId expectedFeePayer : Pubkey)
    (fee : Option Relayer.DepositFeeExpectation) (v : Relayer.ValidatedDepositTx address),
    Relayer.decodeAndValidateDeposit web3 txBase64 programId expectedFeePayer fee = .ok v →
    ∃ transferIx ix, v.tx.instructions = [transferIx, ix] ∧
      (∀ args ∈ decodeDeposit ix.data, args.denomId = v.denomId) ∧
      ∀ keys ∈ depositKeys? ix, keys.depositor = v.depositor
  withdraw : ∀ {Seed : Type} {address : Seed → Pubkey} (web3 : Relayer.Web3 address)
    (txBase64 : String) (programId expectedFeePayer : Pubkey)
    (v : Relayer.ValidatedWithdrawTx address),
    Relayer.decodeAndValidateWithdraw web3 txBase64 programId expectedFeePayer = .ok v →
    ∃ ix, v.tx.instructions = [ix] ∧
      (∀ args ∈ decodeWithdraw ix.data, args.denomId = v.denomId) ∧
      ∀ keys ∈ withdrawKeys? programId ix, keys.recipientAta = v.recipientAta

/-- The program's handlers run with the arguments and the accounts that are read. -/
structure ProgramReads : Prop where
  deposit : ∀ {env : PoolEnv} {s s' : PoolState} {tx : Transaction env.address} {ix : Instruction},
    Relayer.poolDeposit env s tx ix = .ok s' →
    ∃ args keys depositor, decodeDeposit ix.data = some args ∧ depositKeys? ix = some keys ∧
      tx.signer? keys.depositor = some depositor ∧
      Pool.deposit env s { depositorAta := keys.depositorAta, depositor } args.denomId
        args.commitment = .ok s'
  withdraw : ∀ {env : PoolEnv} {programId : Pubkey} {s s' : PoolState} {slot : UInt64}
    {tx : Transaction env.address} {ix : Instruction},
    poolWithdraw env programId s slot tx ix = .ok s' →
    ∃ args keys feePayer, decodeWithdraw ix.data = some args ∧
      withdrawKeys? programId ix = some keys ∧ tx.signer? keys.feePayer = some feePayer ∧
      Pool.withdraw env s slot
        { recipientAta := keys.recipientAta, feeVault := keys.feeVault, feePayer }
        args.denomId args.nullifierHash args.proof args.publicSignals = .ok s'

/-! ### The SDK -/

theorem sdkAgrees : SdkAgrees where
  deposit := by
    intro denomId commitment accts programId
    have hlen : commitment.toList.length = 32 := Vector.length_toList
    refine ⟨_, by rw [Sdk.buildDepositIxFrom, require_of _ hlen, ok_bind], rfl, ?_, rfl⟩
    rw [UInt8.ofNat_toNat]
    exact decodeDeposit_data denomId commitment
  withdraw := by
    intro denomId nullifierHash proof publicSignals accts programId
    have hlen : publicSignals.toList.length = 6 := Vector.length_toList
    refine ⟨_, by rw [Sdk.buildWithdrawIx, require_of _ hlen, ok_bind], rfl, ?_, ?_⟩
    · rw [UInt8.ofNat_toNat]
      exact decodeWithdraw_data denomId nullifierHash proof publicSignals
    · rw [← optionalKey_getD]
      rfl

/-! ### The poller -/

theorem parse_eq {α : Type} {n : ℕ} {disc data : List UInt8} {x : α} :
    (if data.length < n then none else if data.take 8 ≠ disc then none else some x) =
      if data.take 8 = disc ∧ n ≤ data.length then some x else none := by
  by_cases hlen : data.length < n
  · rw [if_pos hlen, if_neg fun h => absurd h.2 (not_le.mpr hlen)]
  · by_cases hdisc : data.take 8 = disc
    · rw [if_neg hlen, if_neg (not_not.mpr hdisc), if_pos ⟨hdisc, not_lt.mp hlen⟩]
    · rw [if_neg hlen, if_pos hdisc, if_neg fun h => hdisc h.1]

theorem pollerAgrees : PollerAgrees where
  deposit := by
    intro data
    rw [decodeDeposit_eq, Indexer.parseDepositIx, parse_eq, apply_ite (Option.map _)]
    rfl
  withdraw := by
    intro data
    rw [decodeWithdraw_eq, Indexer.parseWithdrawIx, parse_eq, apply_ite (Option.map _),
      Option.map_some, Vector.getElem_ofFn]
    rfl

/-! ### The relayer -/

theorem denomId_of_decodeDeposit {data : List UInt8} {args : DepositArgs}
    (h : args ∈ decodeDeposit data) : args.denomId = data.getD 8 0 := by
  rw [decodeDeposit_eq, Option.mem_def, Option.ite_none_right_eq_some] at h
  rw [← Option.some.inj h.2]

theorem denomId_of_decodeWithdraw {data : List UInt8} {args : WithdrawArgs}
    (h : args ∈ decodeWithdraw data) : args.denomId = data.getD 8 0 := by
  rw [decodeWithdraw_eq, Option.mem_def, Option.ite_none_right_eq_some] at h
  rw [← Option.some.inj h.2]

theorem depositor_of_depositKeys {ix : Instruction} {keys : DepositKeys}
    (h : keys ∈ depositKeys? ix) : ix.account? 5 = some keys.depositor := by
  simp only [depositKeys?, Option.mem_def, Option.bind_eq_bind, Option.bind_eq_some_iff] at h
  obtain ⟨_, -, _, -, _, -, _, -, _, -, depositor, hdepositor, _, -, h⟩ := h
  rw [hdepositor, ← Option.some.inj h]

theorem recipientAta_of_withdrawKeys {programId : Pubkey} {ix : Instruction} {keys : WithdrawKeys}
    (h : keys ∈ withdrawKeys? programId ix) : ix.account? 5 = some keys.recipientAta := by
  simp only [withdrawKeys?, Option.mem_def, Option.bind_eq_bind, Option.bind_eq_some_iff] at h
  obtain ⟨_, -, _, -, _, -, _, -, _, -, ata, hata, _, -, _, -, _, -, _, -, h⟩ := h
  rw [hata, ← Option.some.inj h]

theorem relayerAgrees : RelayerAgrees where
  deposit := by
    intro Seed address web3 txBase64 programId payer fee v h
    obtain ⟨-, transferIx, ix, hv⟩ := Relayer.decodeAndValidateDeposit_eq_ok.mp h
    refine ⟨transferIx, ix, hv.instructions, fun args hargs => ?_, fun keys hkeys => ?_⟩
    · rw [denomId_of_decodeDeposit hargs, hv.denomId]
    · exact Option.some.inj ((depositor_of_depositKeys hkeys).symm.trans hv.depositor)
  withdraw := by
    intro Seed address web3 txBase64 programId payer v h
    obtain ⟨-, ix, hv⟩ := Relayer.decodeAndValidateWithdraw_eq_ok.mp h
    refine ⟨ix, hv.instructions, fun args hargs => ?_, fun keys hkeys => ?_⟩
    · rw [denomId_of_decodeWithdraw hargs, hv.denomId]
    · exact Option.some.inj ((recipientAta_of_withdrawKeys hkeys).symm.trans hv.recipientAta)

/-! ### The program -/

theorem programReads : ProgramReads where
  deposit := by
    intro env s s' tx ix h
    obtain ⟨hdisc, hlen, h₀, h₁, h₂, h₃, ata, key, depositor, h₄, h₅, hsigned, h₆, h⟩ :=
      Relayer.poolDeposit_eq_ok.mp h
    have hargs := (decodeDeposit_eq ix.data).trans (if_pos ⟨hdisc, hlen⟩)
    have hkeys : depositKeys? ix = some
        { config := env.address .config
          denomination := env.address (.denomination (ix.data.getD 8 0))
          tree := env.address (.tree (ix.data.getD 8 0))
          vault := env.vault (ix.data.getD 8 0)
          depositorAta := ata
          depositor := key
          tokenProgram := TOKEN_PROGRAM_ID } := by
      rw [depositKeys?, h₀, h₁, h₂, h₃, h₄, h₅, h₆]
      rfl
    exact ⟨_, _, depositor, hargs, hkeys, hsigned, h⟩
  withdraw := poolWithdraw_args

/-- **The four codecs agree.**  The SDK's instructions are read on chain as they were written; the
poller reads exactly the data that the program does, and of it the denomination and the leaf; the
relayer's validators read the same denomination, and the account that the program takes as the
depositor or the recipient; and it is with these that the program's handlers run. -/
theorem codecs_agree : SdkAgrees ∧ PollerAgrees ∧ RelayerAgrees ∧ ProgramReads :=
  ⟨sdkAgrees, pollerAgrees, relayerAgrees, programReads⟩

end Qietr.Wire
