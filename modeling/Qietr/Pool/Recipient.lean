import Qietr.Pool.Deployment

/-!
# Pool — the recipient of a withdraw

The recipient's key is a public signal without its top three bits, so that a proof is bound to the
eight keys that agree on the others and not to one of them.

* `SameField`: two keys with one signal; `pubkeyToField_inj`.
* `Paid`: what a successful withdraw adds to its recipient account.
* `recipient_binding`: whoever submits a proof made for a key, the payment lands in the associated
  token account of a key with the same signal.
* `merchantTwin_paid`: which need not be the key itself.
-/

namespace Qietr.Pool

open Outcome

variable {env : PoolEnv}

/-- The keys agree but for the top three bits of their first byte. -/
def SameField (pk pk' : Pubkey) : Prop :=
  getElem pk 0 firstByte_lt &&& (0x1f : UInt8) = getElem pk' 0 firstByte_lt &&& (0x1f : UInt8) ∧
    ∀ i : Fin 32, i ≠ 0 → pk[i] = pk'[i]

instance (pk pk' : Pubkey) : Decidable (SameField pk pk') :=
  inferInstanceAs (Decidable (_ ∧ _))

/-- **The mask loses the three bits and no others.** -/
theorem pubkeyToField_inj {pk pk' : Pubkey} :
    pubkeyToField pk = pubkeyToField pk' ↔ SameField pk pk' := by
  have hget : ∀ (k : Pubkey) (i : Fin 32), (pubkeyToField k)[i] =
      if i = 0 then k[0] &&& 0x1f else k[i] := by
    intro k i
    by_cases e : i = 0
    · subst e
      simp [pubkeyToField]
    · have hne : (0 : ℕ) ≠ i.val := fun h => e (Fin.ext h.symm)
      simp [pubkeyToField, Vector.getElem_set_ne, hne, e]
  refine ⟨?_, ?_⟩
  · intro h
    have hbyte : ∀ i : Fin 32, (if i = 0 then pk[0] &&& 0x1f else pk[i]) =
        if i = 0 then pk'[0] &&& 0x1f else pk'[i] := fun i => by
      rw [← hget, ← hget, h]
    exact ⟨by simpa using hbyte 0, fun i hi => by simpa [hi] using hbyte i⟩
  · rintro ⟨h₀, hrest⟩
    refine Vector.ext fun i hi => ?_
    have hi' := hget pk ⟨i, hi⟩
    have hi'' := hget pk' ⟨i, hi⟩
    by_cases e : (⟨i, hi⟩ : Fin 32) = 0
    · rw [if_pos e] at hi' hi''
      exact hi'.trans (h₀.trans hi''.symm)
    · rw [if_neg e] at hi' hi''
      exact hi'.trans ((hrest _ e).trans hi''.symm)

/-! ### Where the payment lands -/

/-- The protocol's fee on a payment. -/
def feeOf (config : PoolConfig) (payment : ℕ) : ℕ :=
  if config.feeVault = Pubkey.default then 0 else payment * config.feeBps.toNat / 10000

/-- **The recipient gets the payment, less the fee.** -/
theorem payOut_recipient {config : PoolConfig} {l l' : Ledger} {vault recipientAta : Pubkey}
    {feeVault : Option Pubkey} {payment : UInt64} (hne : recipientAta ≠ vault)
    (h : payOut config l vault recipientAta feeVault payment = .ok l') :
    l.balance recipientAta + payment.toNat ≤
      l'.balance recipientAta + feeOf config payment.toNat := by
  rcases payOut_eq_ok.mp h with ⟨hnone, h⟩ | ⟨hsome, fee, net, l₁, hsplit, -, h₁, h₂⟩
  · obtain ⟨ht, rfl⟩ := Ledger.transfer_eq_ok.mp h
    have hdst := ht.moved.destination hne.symm
    rw [hdst]
    omega
  · obtain ⟨ht₁, rfl⟩ := Ledger.transfer_eq_ok.mp h₁
    obtain ⟨ht₂, rfl⟩ := Ledger.transfer_eq_ok.mp h₂
    obtain ⟨-, hfee, hsum⟩ := feeSplit_eq_ok.mp hsplit
    have hdst := ht₁.moved.destination hne.symm
    have hkeep := ht₂.moved.balance_le hne
    rw [feeOf, if_neg hsome, ← hfee]
    omega

/-- What a successful withdraw has paid, and to whom. -/
structure Paid (env : PoolEnv) (s s' : PoolState) (d : UInt8) (recipientAta : Pubkey)
    (recipient : Bytes32) (payment : ℕ) (config : PoolConfig) (denomination : Denomination)
    (a : TokenAccount) : Prop where
  config_eq : s.config = some config
  denomination_eq : s.denomination d = some denomination
  account : s.ledger.account recipientAta = some a
  mint : a.mint = denomination.mint
  canonicalAta : recipientAta = env.associatedTokenAddress a.owner denomination.mint
  owner : pubkeyToField a.owner = recipient
  lands : recipientAta ≠ env.vault d →
    s.ledger.balance recipientAta + payment ≤ s'.ledger.balance recipientAta + feeOf config payment

theorem exists_paidTo {s s' : PoolState} {slot : UInt64} {accounts : WithdrawAccounts env}
    {d : UInt8} {nullifierHash : Bytes32} {proof : Bytes PROOF_BYTES}
    {signals : Vector Bytes32 PUBLIC_SIGNAL_COUNT}
    (hw : withdraw env s slot accounts d nullifierHash proof signals = .ok s') :
    ∃ config denomination a, Paid env s s' d accounts.recipientAta signals[3] signals[4].toNat
      config denomination a := by
  obtain ⟨config, denomination, tree, a, payment, ledger, tree', hok, hpay, -, rfl⟩ :=
    withdraw_eq_ok.mp hw
  exact ⟨config, denomination, a,
    { config_eq := hok.config_eq
      denomination_eq := hok.denomination_eq
      account := hok.ata
      mint := hok.mint
      canonicalAta := hok.signals.canonicalAta.symm
      owner := hok.signals.recipient.symm
      lands := fun hne => by
        rw [hok.payment_eq]
        exact payOut_recipient hne hpay }⟩

/-- **A withdraw is bound to its recipient**, up to the bits the mask loses.  Whatever accounts a
proof made for the key `pk` is submitted with, a withdraw that succeeds pays the associated token
account of a key with the signal of `pk`. -/
theorem recipient_binding {s s' : PoolState} {slot : UInt64} {accounts : WithdrawAccounts env}
    {d : UInt8} {nullifierHash : Bytes32} {proof : Bytes PROOF_BYTES}
    {signals : Vector Bytes32 PUBLIC_SIGNAL_COUNT} (pk : Pubkey)
    (hpk : signals[3] = encode (Sdk.pubkeyToFieldString pk : F))
    (hw : withdraw env s slot accounts d nullifierHash proof signals = .ok s') :
    ∃ config denomination a, s.config = some config ∧ s.denomination d = some denomination ∧
      s.ledger.account accounts.recipientAta = some a ∧ a.mint = denomination.mint ∧
      accounts.recipientAta = env.associatedTokenAddress a.owner denomination.mint ∧
      SameField a.owner pk ∧
      (accounts.recipientAta ≠ env.vault d →
        s.ledger.balance accounts.recipientAta + signals[4].toNat ≤
          s'.ledger.balance accounts.recipientAta + feeOf config signals[4].toNat) := by
  obtain ⟨config, denomination, a, hpaid⟩ := exists_paidTo hw
  refine ⟨config, denomination, a, hpaid.config_eq, hpaid.denomination_eq, hpaid.account,
    hpaid.mint, hpaid.canonicalAta, pubkeyToField_inj.mp ?_, hpaid.lands⟩
  rw [hpaid.owner, hpk, encode_pubkeyToFieldString]

/-! ### Two keys with one signal -/

theorem sameField_merchant : SameField merchantTwin merchant := by
  decide +kernel

/-- The signals of a payment do not tell keys of one field element apart. -/
theorem honestSignals_recipient (P : Poseidon) (c : Sdk.Commitment) (root : F)
    (pay : Sdk.Payment) {pk : Pubkey} (h : SameField pk pay.recipient) :
    honestSignals P c root { pay with recipient := pk } = honestSignals P c root pay := by
  have hnumber : Sdk.pubkeyToFieldString pk = Sdk.pubkeyToFieldString pay.recipient := by
    rw [Sdk.pubkeyToFieldString_eq, Sdk.pubkeyToFieldString_eq, pubkeyToField_eq_sdk,
      pubkeyToField_eq_sdk, pubkeyToField_inj.mpr h]
  exact congrArg (fun n : ℕ =>
    Sdk.proveGroth16 { Sdk.buildWitness P c root pay with recipient := (n : F) }) hnumber

/-- A run in which a proof made for one key pays the other, for any hash without zero roots. -/
theorem exists_twin_paid {P : Poseidon} (hroots : ∀ ls, fullRoot P ls ≠ 0) :
    ∃ (log : List (Action (ideal P))) (s s' : PoolState) (config : PoolConfig)
      (denomination : Denomination) (proof : Bytes PROOF_BYTES) (root : F),
      PoolRun (ideal P) log s ∧
      (ideal P).groth16 proof (honestSignals P someNote root somePayment) = true ∧
      config.feeVault = Pubkey.default ∧ s.config = some config ∧ denomination.mint = usdc ∧
      withdraw (ideal P) s 0 (honestAccounts (ideal P) config denomination (admin P) merchantTwin) 0
        (nullifierHashOf P someNote) proof (honestSignals P someNote root somePayment) =
          .ok s' := by
  let pay : Sdk.Payment := { somePayment with recipient := merchantTwin }
  obtain ⟨log, s, config, denomination, tree, proof, s', hl, hproof, hw⟩ :=
    exists_paid hroots someNote rfl pay (by decide) (by decide) (.inr rfl)
  have hsignals : honestSignals P someNote (fullRoot P [Sdk.commitmentHash P someNote]) pay =
      honestSignals P someNote (fullRoot P [Sdk.commitmentHash P someNote]) somePayment :=
    honestSignals_recipient P someNote _ somePayment sameField_merchant
  rw [hsignals] at hproof hw
  exact ⟨log, s, s', config, denomination, proof, _, hl.run, hproof, hl.noFee, hl.config_eq,
    hl.mint, hw⟩

/-- A proof made for one key pays the account of the other. -/
theorem merchantTwin_paid : ∃ (log : List (Action (ideal (offZero circom)))) (s s' : PoolState)
    (accounts : WithdrawAccounts (ideal (offZero circom))) (proof : Bytes PROOF_BYTES) (root : F),
    PoolRun (ideal (offZero circom)) log s ∧
    (ideal (offZero circom)).groth16 proof
      (honestSignals (offZero circom) someNote root somePayment) = true ∧
    withdraw (ideal (offZero circom)) s 0 accounts 0 (nullifierHashOf (offZero circom) someNote)
      proof (honestSignals (offZero circom) someNote root somePayment) = .ok s' ∧
    somePayment.recipient ≠ merchantTwin ∧
    accounts.recipientAta = ata (offZero circom) merchantTwin ∧
    accounts.recipientAta ≠ ata (offZero circom) somePayment.recipient ∧
    s.ledger.balance accounts.recipientAta + 4 ≤ s'.ledger.balance accounts.recipientAta := by
  obtain ⟨log, s, s', config, denomination, proof, root, hrun, hproof, hnoFee, hc, hmint, hw⟩ :=
    exists_twin_paid (fullRoot_offZero circom)
  obtain ⟨config', _, _, hpaid⟩ := exists_paidTo hw
  obtain rfl : config = config' := Option.some.inj (hc.symm.trans hpaid.config_eq)
  have hata : (honestAccounts (ideal (offZero circom)) config denomination (admin (offZero circom))
      merchantTwin).recipientAta = ata (offZero circom) merchantTwin := by
    rw [honestAccounts, hmint]
  have hlands := hpaid.lands (hata ▸ vault_ne_ata_twin.symm)
  rw [honestSignals_payment, feeOf, if_pos hnoFee] at hlands
  refine ⟨log, s, s', _, proof, root, hrun, hproof, hw, ?_, hata, hata ▸ ata_twin_ne, hlands⟩
  exact key_ne (by norm_num) (by norm_num) (by norm_num)

theorem recipient_binding_paid : ∃ (s s' : PoolState)
    (accounts : WithdrawAccounts (ideal (offZero circom))) (proof : Bytes PROOF_BYTES) (root : F)
    (a : TokenAccount),
    withdraw (ideal (offZero circom)) s 0 accounts 0 (nullifierHashOf (offZero circom) someNote)
      proof (honestSignals (offZero circom) someNote root somePayment) = .ok s' ∧
    s.ledger.account accounts.recipientAta = some a ∧ SameField a.owner merchant := by
  obtain ⟨log, s, s', config, denomination, proof, root, -, -, -, -, -, hw⟩ :=
    exists_twin_paid (fullRoot_offZero circom)
  obtain ⟨-, -, a, -, -, ha, -, -, hsame, -⟩ := recipient_binding merchant rfl hw
  exact ⟨s, s', _, proof, root, a, hw, ha, hsame⟩

end Qietr.Pool
