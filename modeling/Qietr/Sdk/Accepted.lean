import Qietr.Sdk.Prepare

/-!
# SDK — the program accepts its withdraws

A payment of the SDK, from a commitment that is a leaf of the tree, with the indexer's current path
and a valid proof, against every check of the program.

* `Acceptable`: when the program accepts the payment.
* `sdk_withdraw_accepted_iff`: it does just then; in particular while no fee vault is set.
-/

namespace Qietr.Sdk

open Outcome Pool HashTree

variable {env : PoolEnv} {config : QietrSDKConfig} {recipient : Pubkey} {paymentMicro : ℤ}
  {net : PayNetwork} {note : Note} {c : NoteCommitment} {leaf nullHash : F} {P : Poseidon}

/-! ### What the program asks -/

/-- No fee vault is set, the commitment is not spent, the tree has room and a root that is not the
zero string, and the vault holds the payment. -/
structure Acceptable (env : PoolEnv) (s : PoolState) (poolConfig : PoolConfig) (h : List Entry)
    (d : UInt8) (nullHash : F) (paymentMicro : ℤ) : Prop where
  noFeeVault : poolConfig.feeVault = Pubkey.default
  unspent : s.nullifier d (encode nullHash) = none
  room : h.length < 2 ^ MERKLE_DEPTH
  root : fullRoot env.poseidon (leaves h) ≠ 0
  funds : paymentMicro ≤ s.ledger.balance (env.vault d)

section Withdraw

variable {s : PoolState} {d : UInt8} {h : List Entry} {poolConfig : PoolConfig}
  {denomination : Denomination} {tree : MerkleTree}

/-- A withdraw that names no fee vault and succeeds, whatever its root: none is set, the commitment
is not spent, the root is known, the tree has room, and the vault releases the payment. -/
theorem checked_of_withdraw (ho : Open env s d h poolConfig denomination tree)
    {c' : Commitment} {pay : Payment} {root : F} {feePayer : PoolSigner env} {slot : UInt64}
    {proof : Bytes PROOF_BYTES} {s' : PoolState}
    (hok : withdraw env s slot (sdkAccounts env denomination recipient feePayer) d
      (nullifierHashOf env.poseidon c') proof (honestSignals env.poseidon c' root pay) = .ok s') :
    poolConfig.feeVault = Pubkey.default ∧ s.nullifier d (nullifierHashOf env.poseidon c') = none ∧
      tree.isKnownRoot (encode root) = true ∧ h.length < 2 ^ MERKLE_DEPTH ∧
      pay.paymentAmount.toNat ≤ s.ledger.balance (env.vault d) ∧
      Ledger.Moved s.ledger s'.ledger (env.vault d)
        (env.associatedTokenAddress recipient denomination.mint) pay.paymentAmount := by
  obtain ⟨config', denomination', tree₁, a, payment, ledger, tree', hchecked, hpayOut,
    ⟨root', happend⟩, rfl⟩ := withdraw_eq_ok.mp hok
  obtain rfl : poolConfig = config' :=
    Option.some.inj (ho.config_eq.symm.trans hchecked.config_eq)
  obtain rfl : tree = tree₁ := Option.some.inj (ho.tree_eq.symm.trans hchecked.tree_eq)
  obtain rfl : pay.paymentAmount = payment := by
    rw [← UInt64.toNat_inj, ← hchecked.payment_eq, honestSignals_payment]
  -- without a fee vault the program pays only when it asks for none
  rcases payOut_eq_ok.mp hpayOut with ⟨hnoFee, htransfer⟩ | ⟨-, _, _, _, -, hnone, -⟩
  · obtain ⟨ht, rfl⟩ := Ledger.transfer_eq_ok.mp htransfer
    obtain ⟨-, hroom, -⟩ := append_eq_ok ho.tracks happend
    have hmoved := ht.moved
    obtain ⟨v, _, hv, -, hfunds, -⟩ := ht
    refine ⟨hnoFee, hchecked.unspent, hchecked.signals.root, by rwa [leaves_length] at hroom, ?_,
      hmoved⟩
    rw [Ledger.balance_eq hv]
    exact hfunds
  · cases hnone

/-- A withdraw that names no fee vault and succeeds is `Acceptable`, and releases the payment. -/
theorem acceptable_of_withdraw (ho : Open env s d h poolConfig denomination tree)
    {c' : Commitment} {pay : Payment} {feePayer : PoolSigner env} {slot : UInt64}
    {proof : Bytes PROOF_BYTES} {s' : PoolState} (hpos : 0 < paymentMicro)
    (hpay : pay.paymentAmount.toNat = paymentMicro.toNat)
    (hok : withdraw env s slot (sdkAccounts env denomination recipient feePayer) d
      (nullifierHashOf env.poseidon c') proof
      (honestSignals env.poseidon c' (fullRoot env.poseidon (leaves h)) pay) = .ok s') :
    Acceptable env s poolConfig h d (poseidonNullifierHash env.poseidon c'.nullifier) paymentMicro ∧
      Ledger.Moved s.ledger s'.ledger (env.vault d)
        (env.associatedTokenAddress recipient denomination.mint) pay.paymentAmount := by
  obtain ⟨hnoFee, hunspent, hknown, hroom, hfunds, hmoved⟩ := checked_of_withdraw ho hok
  refine ⟨⟨hnoFee, hunspent, hroom, fun hzero => ?_, by omega⟩, hmoved⟩
  refine ((ho.tracks.isKnownRoot_iff _).mp hknown).1 ?_
  rw [hzero, encode_zero]

/-- And one succeeds, with a root that is known. -/
theorem withdraw_of_known (ho : Open env s d h poolConfig denomination tree)
    {c' : Commitment} {pay : Payment} {root : F} (feePayer : PoolSigner env) (slot : UInt64)
    {proof : Bytes PROOF_BYTES} (hamount : c'.amount = denomination.amountMicroUsdc)
    (hleaf : commitmentHash env.poseidon c' ∈ leaves h) (hpos : 1 ≤ pay.paymentAmount.toNat)
    (hle : pay.paymentAmount.toNat ≤ c'.amount.toNat) (hrecipient : pay.recipient = recipient)
    (hata : ∃ a, s.ledger.account (env.associatedTokenAddress recipient denomination.mint) =
      some a ∧ a.mint = denomination.mint ∧ a.owner = recipient)
    (hproof : env.groth16 proof (honestSignals env.poseidon c' root pay) = true)
    (hnoFee : poolConfig.feeVault = Pubkey.default)
    (hunspent : s.nullifier d (nullifierHashOf env.poseidon c') = none)
    (hknown : tree.isKnownRoot (encode root) = true) (hroom : h.length < 2 ^ MERKLE_DEPTH)
    (hfunds : pay.paymentAmount.toNat ≤ s.ledger.balance (env.vault d)) :
    ∃ s', withdraw env s slot (sdkAccounts env denomination recipient feePayer) d
      (nullifierHashOf env.poseidon c') proof (honestSignals env.poseidon c' root pay) =
        .ok s' := by
  subst hrecipient
  have hpayable : Payable env s d h poolConfig denomination c' pay :=
    { amount := hamount
      leaf := List.mem_iff_getElem?.mp hleaf
      unspent := hunspent
      pos := hpos
      le := hle
      recipient := hata
      fee := fun hne => absurd hnoFee hne }
  have haccounts : honestAccounts env poolConfig denomination feePayer pay.recipient =
      sdkAccounts env denomination pay.recipient feePayer := by
    rw [honestAccounts, sdkAccounts, feeVaultArg, if_pos hnoFee]
  obtain ⟨a, hok⟩ := ho.withdrawChecked_known hpayable hknown feePayer hproof
  rw [← haccounts]
  exact ho.withdraw_of_checked hpayable hok hroom hfunds slot

/-- And an `Acceptable` one succeeds. -/
theorem withdraw_of_acceptable (ho : Open env s d h poolConfig denomination tree)
    {c' : Commitment} {pay : Payment} (feePayer : PoolSigner env) (slot : UInt64)
    {proof : Bytes PROOF_BYTES} (hamount : c'.amount = denomination.amountMicroUsdc)
    (hleaf : commitmentHash env.poseidon c' ∈ leaves h) (hpos : 0 < paymentMicro)
    (hpay : pay.paymentAmount.toNat = paymentMicro.toNat)
    (hle : pay.paymentAmount.toNat ≤ c'.amount.toNat) (hrecipient : pay.recipient = recipient)
    (hata : ∃ a, s.ledger.account (env.associatedTokenAddress recipient denomination.mint) =
      some a ∧ a.mint = denomination.mint ∧ a.owner = recipient)
    (hproof : env.groth16 proof
      (honestSignals env.poseidon c' (fullRoot env.poseidon (leaves h)) pay) = true)
    (hacc : Acceptable env s poolConfig h d (poseidonNullifierHash env.poseidon c'.nullifier)
      paymentMicro) :
    ∃ s', withdraw env s slot (sdkAccounts env denomination recipient feePayer) d
      (nullifierHashOf env.poseidon c') proof
      (honestSignals env.poseidon c' (fullRoot env.poseidon (leaves h)) pay) = .ok s' := by
  have hfunds := hacc.funds
  exact withdraw_of_known ho feePayer slot hamount hleaf (by omega) hle hrecipient hata hproof
    hacc.noFeeVault hacc.unspent
    (isKnownRoot_newest ho.tracks (List.ne_nil_of_mem hleaf) hacc.root) hacc.room (by omega)

end Withdraw

/-- **A withdraw of the SDK is accepted**, and releases the payment, just when it is `Acceptable`:
the SDK names no fee vault. -/
theorem sdk_withdraw_accepted_iff {log : List (Action env)} {s : PoolState}
    (hrun : PoolRun env log s) {poolConfig : PoolConfig} (hconfig : s.config = some poolConfig)
    (hpaused : poolConfig.paused = false) (hvk : env.embeddedVkHash = poolConfig.verifyingKeyHash)
    (hpick : pickCommitment note paymentMicro = some c) {denomination : Denomination}
    (hdenomination : s.denomination (UInt8.ofNat c.denomId) = some denomination)
    (hmint : config.usdcMint = denomination.mint)
    (hamount : c.amount = denomination.amountMicroUsdc.toNat)
    (hleaf : commitmentHashOf env.poseidon c.secret c.nullifier c.amount = .ok leaf)
    (hmem : leaf ∈ leaves (history (UInt8.ofNat c.denomId) log))
    (hnull : nullifierHashDec env.poseidon c.nullifier = .ok nullHash) (hpos : 1 ≤ paymentMicro)
    (hata : ∃ a, s.ledger.account (env.associatedTokenAddress recipient denomination.mint) =
      some a ∧ a.mint = denomination.mint ∧ a.owner = recipient)
    (hanswered : Answered env net c recipient paymentMicro leaf nullHash
      (fullRoot env.poseidon (leaves (history (UInt8.ofNat c.denomId) log))))
    (feePayer : PoolSigner env) :
    ∃ p, preparePayment env config (some note) recipient paymentMicro (some feePayer.key) net =
      .ok p ∧
      ∀ (slot : UInt64) (tx : Transaction env.address), tx.signer? feePayer.key = some feePayer →
        ((∃ s', poolWithdraw env config.programId s slot tx p.ix = .ok s' ∧
          Ledger.Moved s.ledger s'.ledger (env.vault (UInt8.ofNat c.denomId))
            (env.associatedTokenAddress recipient denomination.mint)
            (UInt64.ofNat paymentMicro.toNat)) ↔
          Acceptable env s poolConfig (history (UInt8.ofNat c.denomId) log) (UInt8.ofNat c.denomId)
            nullHash paymentMicro) := by
  obtain ⟨tree, ho⟩ := open_of_run hrun hconfig hpaused hvk hdenomination
  obtain ⟨-, hle⟩ := mem_of_pickCommitment hpick
  obtain ⟨secret, nullifier, hsecret, hnullifier, rfl⟩ := commitmentHashOf_eq_ok.mp hleaf
  obtain rfl : env.poseidon.one nullifier = nullHash := by
    rw [nullifierHashDec, hnullifier] at hnull
    exact Except.ok.inj hnull
  obtain ⟨p, proof, hproof, hp, hread⟩ :=
    exists_prepared hpick hpos hmint hamount hsecret hnullifier hanswered feePayer
  have hpayment : (asPayment recipient paymentMicro net).paymentAmount.toNat =
    paymentMicro.toNat := by
    have hlt := denomination.amountMicroUsdc.toNat_lt
    exact UInt64.toNat_ofNat_of_lt' (show paymentMicro.toNat < 2 ^ 64 by omega)
  refine ⟨p, hp, fun slot tx hsigned => ?_⟩
  rw [hread s slot tx hsigned]
  refine ⟨?_, ?_⟩
  · rintro ⟨s', hok, -⟩
    exact (acceptable_of_withdraw ho hpos hpayment hok).1
  · intro hacc
    have hmem' : commitmentHash env.poseidon
        (asCommitment secret nullifier denomination.amountMicroUsdc) ∈
          leaves (history (UInt8.ofNat c.denomId) log) := by
      rwa [hamount, Int.cast_natCast] at hmem
    have hle' : (asPayment recipient paymentMicro net).paymentAmount.toNat ≤
        denomination.amountMicroUsdc.toNat := by omega
    obtain ⟨s', hok⟩ := withdraw_of_acceptable ho feePayer slot rfl hmem' hpos hpayment hle' rfl
      hata hproof hacc
    exact ⟨s', hok, (acceptable_of_withdraw ho hpos hpayment hok).2⟩

/-! ### With a fee vault, and without -/

/-- A run that deposits the note once the admin has set a fee vault. -/
theorem exists_feeVault (P : Poseidon) : ∃ log s config denomination tree,
    PoolRun (ideal P) log s ∧ history 0 log = depositEntries [tenLeaf P] ∧
    Open (ideal P) s 0 (depositEntries [tenLeaf P]) config denomination tree ∧
    config.feeVault ≠ Pubkey.default ∧ denomination.mint = usdc ∧
    denomination.amountMicroUsdc = 10 ∧ (∀ x, s.nullifier 0 x = none) ∧
    ∃ a, s.ledger.account (ata P merchant) = some a ∧ a.mint = usdc ∧ a.owner = merchant := by
  have hg := genesis_ledger P
  obtain ⟨config, tree, s, hrun, ho, -, hadmin, hnull, hkept, -⟩ := exists_opened P
  let config' : PoolConfig := { config with feeVault := ata P merchant }
  have hset : exec (ideal P) s 0 (.setFeeVault (admin P) (ata P merchant)) =
      .ok { s with config := some config' } := by
    have hadmin' : checkAdmin (ideal P) config (admin P) = .ok () :=
      checkAdmin_eq_ok.mpr ⟨ho.configBump, hadmin⟩
    rw [exec, setFeeVault, initialized_eq_ok.mpr ho.config_eq, ok_bind,
      initialized_eq_ok.mpr (hkept _ _ hg.recipient), ok_bind, hadmin', ok_bind]
  have hrun₁ := hrun.snoc (Step.call hset)
  obtain ⟨tree₁, ho₁⟩ := open_of_run hrun₁ rfl ho.unpaused ho.vkHash ho.denomination_eq
  obtain ⟨denomination, tree₂, s₂, hrun₂, ho₂, hkin⟩ := ho₁.deposits_run hrun₁ 0
    ⟨depositorAta, admin P⟩ (hkept _ _ hg.depositor) rfl rfl [tenLeaf P]
    (by decide : (10 : UInt64).toNat * 1 ≤ (2 ^ 24 : UInt64).toNat)
    (by decide : 0 + 1 ≤ 2 ^ MERKLE_DEPTH)
  obtain ⟨a, ha, hm, howner⟩ := hkin.accounts _ _ (hkept _ _ hg.recipient)
  refine ⟨_, s₂, config', denomination, tree₂, hrun₂, rfl, ho₂, ?_, hkin.mint, hkin.amount,
    fun x => ?_, a, ha, hm, howner⟩
  swap
  · rw [hkin.nullifier]
    exact congrFun (congrFun hnull 0) x
  show ata P merchant ≠ key 0
  rw [ata_merchant]
  exact key_ne (by norm_num) (by norm_num) (by norm_num)

/-- A transaction with this instruction alone, which the admin pays for. -/
def signedByAdmin (ix : Instruction) : Transaction (ideal P).address where
  feePayer := some (admin P).key
  instructions := [ix]
  signatures := [admin P]

theorem signedByAdmin_signer (ix : Instruction) :
    (signedByAdmin (P := P) ix).signer? (admin P).key = some (admin P) :=
  List.find?_cons_of_pos (decide_eq_true rfl)

/-- A payment of four is `Acceptable` where a note of ten is the only leaf. -/
theorem acceptable_ten {log : List (Action (ideal (offZero circom)))} {s : PoolState}
    {poolConfig : PoolConfig} {denomination : Denomination} {tree : MerkleTree}
    (hl : Launched (offZero circom) log s [tenLeaf (offZero circom)] poolConfig denomination tree)
    (nullHash : F) :
    Acceptable (ideal (offZero circom)) s poolConfig (depositEntries [tenLeaf (offZero circom)]) 0
      nullHash 4 where
  noFeeVault := hl.noFee
  unspent := hl.fresh _
  room := by decide
  root := fullRoot_offZero _ _
  funds := by
    have hbalance := hl.balance
    rw [List.length_singleton] at hbalance
    show (4 : ℤ) ≤ (s.ledger.balance ((ideal (offZero circom)).vault 0) : ℤ)
    omega

theorem sdk_withdraw_accepted_iff_ten : ∃ (log : List (Action (ideal (offZero circom))))
    (s : PoolState) (p : PreparedPayment), PoolRun (ideal (offZero circom)) log s ∧
    preparePayment (ideal (offZero circom)) tenConfig (some tenNoteOnly) merchant 4
      (some (admin (offZero circom)).key) (honestNetwork (offZero circom)) = .ok p ∧
    ∃ s', poolWithdraw (ideal (offZero circom)) tenConfig.programId s 0 (signedByAdmin p.ix) p.ix =
      .ok s' := by
  obtain ⟨log, s, poolConfig, denomination, tree, hl⟩ :=
    exists_launched (offZero circom) [tenLeaf (offZero circom)] (by decide)
  have hhistory : leaves (history 0 log) = [tenLeaf (offZero circom)] := by
    rw [hl.history_eq, leaves_depositEntries]
  obtain ⟨p, hp, hiff⟩ := sdk_withdraw_accepted_iff hl.run hl.config_eq hl.unpaused hl.vkHash
    pickCommitment_tenNote hl.denomination_eq (show tenConfig.usdcMint = _ from hl.mint.symm)
    (by rw [hl.amount]; rfl)
    commitmentHashOf_tenNote (by
      show _ ∈ leaves (history 0 log)
      rw [hhistory]
      exact List.mem_singleton_self _)
    nullifierHashDec_tenNote (by decide) (by rw [hl.mint]; exact hl.recipient) (by
      show Answered _ _ _ _ _ _ _ (fullRoot _ (leaves (history 0 log)))
      rw [hhistory]
      exact honestNetwork_answered) (admin (offZero circom))
  obtain ⟨s', hok, -⟩ := (hiff 0 _ (signedByAdmin_signer p.ix)).mpr (by
    show Acceptable _ _ _ (history 0 log) _ _ _
    rw [hl.history_eq]
    exact acceptable_ten hl _)
  exact ⟨log, s, p, hl.run, hp, s', hok⟩

/-- Once a fee vault is set, this payment of an unspent note is refused, at any slot and in any
transaction. -/
theorem sdk_withdraw_refused : ∃ (log : List (Action (ideal circom))) (s : PoolState)
    (poolConfig : PoolConfig) (denomination : Denomination) (p : PreparedPayment),
    PoolRun (ideal circom) log s ∧ s.config = some poolConfig ∧ poolConfig.paused = false ∧
    (ideal circom).embeddedVkHash = poolConfig.verifyingKeyHash ∧
    s.denomination (UInt8.ofNat tenNote.denomId) = some denomination ∧
    tenNote.amount = denomination.amountMicroUsdc.toNat ∧
    commitmentHashOf circom tenNote.secret tenNote.nullifier tenNote.amount =
      .ok (tenLeaf circom) ∧
    tenLeaf circom ∈ leaves (history (UInt8.ofNat tenNote.denomId) log) ∧
    s.nullifier (UInt8.ofNat tenNote.denomId) (encode (circom.one 2)) = none ∧
    (∃ a, s.ledger.account ((ideal circom).associatedTokenAddress merchant denomination.mint) =
      some a ∧ a.mint = denomination.mint ∧ a.owner = merchant) ∧
    preparePayment (ideal circom) tenConfig (some tenNoteOnly) merchant 4
      (some (admin circom).key) (honestNetwork circom) = .ok p ∧
    ∀ (slot : UInt64) (tx : Transaction (ideal circom).address) (s' : PoolState),
      tx.signer? (admin circom).key = some (admin circom) →
      poolWithdraw (ideal circom) tenConfig.programId s slot tx p.ix ≠ .ok s' := by
  obtain ⟨log, s, poolConfig, denomination, tree, hrun, hhistory, ho, hfee, hmint, hamount,
    hfresh, hrecipient⟩ := exists_feeVault circom
  have hleaves : leaves (history 0 log) = [tenLeaf circom] := by
    rw [hhistory, leaves_depositEntries]
  have htier : tenNote.amount = denomination.amountMicroUsdc.toNat := by rw [hamount]; rfl
  obtain ⟨p, proof, hp, -, hread⟩ := exists_prepared_ten (P := circom) denomination hmint hamount
  refine ⟨log, s, poolConfig, denomination, p, hrun, ho.config_eq, ho.unpaused, ho.vkHash,
    ho.denomination_eq, htier, commitmentHashOf_tenNote, ?_,
      hfresh _, by rw [hmint]; exact hrecipient, hp,
    fun slot tx s' hsigned hok => ?_⟩
  · show _ ∈ leaves (history 0 log)
    rw [hleaves]
    exact List.mem_singleton_self _
  · rw [hread s slot tx hsigned, ← leaves_depositEntries [tenLeaf circom]] at hok
    exact hfee (acceptable_of_withdraw ho (show (0 : ℤ) < 4 by decide) rfl hok).1.noFeeVault

end Qietr.Sdk
