import Qietr.Pool.Deployment

/-!
# Pool — the fee vault

`set_fee_vault` takes any token account, for all denominations at once; a withdraw then has to name
it, and it has to be of the withdraw's own mint.

* `PoolState.feeless`: the state without a fee vault; `ValidButForFee`: a withdraw that succeeds in
  it.
* `set_fee_vault_iff`: which of them can still be made.
* `exists_fee_vault_set`: a pool whose admin has set a fee vault of a given mint.
-/

namespace Qietr.Pool

open Outcome HashTree

variable {env : PoolEnv}

/-! ### Withdraws but for the fee -/

/-- A configuration without a fee vault. -/
def PoolConfig.feeless (config : PoolConfig) : PoolConfig :=
  { config with feeVault := Pubkey.default }

/-- The state, had no fee vault been set. -/
def PoolState.feeless (s : PoolState) : PoolState :=
  { s with config := s.config.map PoolConfig.feeless }

/-- The accounts of a withdraw with another choice of the optional one. -/
def WithdrawAccounts.withFeeVault (accounts : WithdrawAccounts env) (feeVault : Option Pubkey) :
    WithdrawAccounts env :=
  { accounts with feeVault }

/-- A withdraw that is valid but for the fee: it goes through where none is taken. -/
def ValidButForFee (env : PoolEnv) (s : PoolState) (slot : UInt64)
    (accounts : WithdrawAccounts env) (denomId : UInt8) (nullifierHash : Bytes32)
    (proof : Bytes PROOF_BYTES) (publicSignals : Vector Bytes32 PUBLIC_SIGNAL_COUNT) : Prop :=
  ∃ s₁, withdraw env s.feeless slot (accounts.withFeeVault none) denomId nullifierHash proof
    publicSignals = .ok s₁

/-- The fee branch can take its fee: the fee vault is of the mint, and the product fits. -/
structure FeeVaultFits (s : PoolState) (denomId : UInt8) (feeVault : Pubkey) (payment : ℕ) :
    Prop where
  mint : ∃ denomination account, s.denomination denomId = some denomination ∧
    s.ledger.account feeVault = some account ∧ account.mint = denomination.mint
  product : ∃ config, s.config = some config ∧ payment * config.feeBps.toNat < 2 ^ 64

theorem setFeeVault_eq_ok {s s' : PoolState} {admin : PoolSigner env} {feeVault : Pubkey} :
    setFeeVault env s admin feeVault = .ok s' ↔
      ∃ config, s.config = some config ∧ (∃ a, s.ledger.account feeVault = some a) ∧
        (config.bump = env.bump .config ∧ config.admin = admin.key) ∧
        { s with config := some { config with feeVault } } = s' := by
  unfold setFeeVault
  simp only [bind_eq_ok, initialized_eq_ok, checkAdmin_eq_ok, exists_and_left, exists_const,
    Except.ok.injEq]
  refine ⟨?_, ?_⟩
  · rintro ⟨config, hc, a, ha, hadmin, rfl⟩
    exact ⟨config, hc, ⟨a, ha⟩, hadmin, rfl⟩
  · rintro ⟨config, hc, ⟨a, ha⟩, hadmin, rfl⟩
    exact ⟨config, hc, a, ha, hadmin, rfl⟩

variable {s : PoolState} {slot : UInt64} {accounts : WithdrawAccounts env} {d : UInt8}
  {nullifierHash : Bytes32} {proof : Bytes PROOF_BYTES}
  {signals : Vector Bytes32 PUBLIC_SIGNAL_COUNT} {config : PoolConfig}
  {denomination : Denomination} {tree : MerkleTree} {recipientAta : TokenAccount} {payment : UInt64}

/-- What a withdraw checks does not depend on the fee vault that is configured, but for the one that
is named. -/
theorem WithdrawChecked.changeFeeVault
    (h : WithdrawChecked env s accounts d nullifierHash proof signals config denomination tree
      recipientAta payment) (configured : Pubkey) {feeVault : Option Pubkey}
    (hf : ∀ key ∈ feeVault, ∃ a, s.ledger.account key = some a ∧ a.mint = denomination.mint) :
    WithdrawChecked env { s with config := some { config with feeVault := configured } }
      (accounts.withFeeVault feeVault) d nullifierHash proof signals
      { config with feeVault := configured } denomination tree recipientAta payment where
  config_eq := rfl
  denomination_eq := h.denomination_eq
  tree_eq := h.tree_eq
  vaultAccount := h.vaultAccount
  configBump := h.configBump
  bump := h.bump
  treeBump := h.treeBump
  vaultBump := h.vaultBump
  vault := h.vault
  unpaused := h.unpaused
  ata := h.ata
  unspent := h.unspent
  mint := h.mint
  feeVault := hf
  signals := { h.signals with }
  payment_eq := h.payment_eq

/-- From the state without one to the state itself. -/
theorem WithdrawChecked.withFeeVault
    (h : WithdrawChecked env s.feeless (accounts.withFeeVault none) d nullifierHash proof signals
      config.feeless denomination tree recipientAta payment) (hc : s.config = some config)
    {feeVault : Option Pubkey} (hf : ∀ key ∈ feeVault, ∃ a, s.ledger.account key = some a ∧
      a.mint = denomination.mint) :
    WithdrawChecked env s (accounts.withFeeVault feeVault) d nullifierHash proof signals config
      denomination tree recipientAta payment := by
  have hs : { s.feeless with config := some config } = s := by
    rw [← hc]
    rfl
  have hchanged : WithdrawChecked env { s.feeless with config := some config }
      (accounts.withFeeVault feeVault) d nullifierHash proof signals config denomination tree
      recipientAta payment := h.changeFeeVault config.feeVault hf
  rwa [hs] at hchanged

/-- A withdraw that is valid but for the fee, taken apart. -/
theorem ValidButForFee.checked
    (h : ValidButForFee env s slot accounts d nullifierHash proof signals)
    (hc : s.config = some config) :
    ∃ denomination tree recipientAta payment tree',
      WithdrawChecked env s.feeless (accounts.withFeeVault none) d nullifierHash proof signals
        config.feeless denomination tree recipientAta payment ∧
      s.ledger.Transferable (env.vault d) accounts.recipientAta (env.vault d) payment ∧
      ∃ root, (append env.poseidon signals[5]).run tree = .ok root tree' := by
  obtain ⟨s₁, h⟩ := h
  obtain ⟨config', denomination, tree, a, payment, ledger, tree', hchecked, hpay, happend, -⟩ :=
    withdraw_eq_ok.mp h
  obtain rfl : config.feeless = config' := by
    have hconfig := hchecked.config_eq
    rw [PoolState.feeless, hc] at hconfig
    exact Option.some.inj hconfig
  rcases payOut_eq_ok.mp hpay with ⟨-, ht⟩ | ⟨hne, -⟩
  · exact ⟨denomination, tree, a, payment, tree', hchecked, (Ledger.transfer_eq_ok.mp ht).1,
      happend⟩
  · exact absurd rfl hne

/-- A withdraw that succeeds has the fee vault it needs. -/
theorem fits_of_withdraw {s₂ : PoolState} (hc : s.config = some config)
    (h : withdraw env s slot accounts d nullifierHash proof signals = .ok s₂) :
    config.feeVault = Pubkey.default ∨ FeeVaultFits s d config.feeVault signals[4].toNat := by
  obtain ⟨config', denomination, _, _, payment, _, _, hok, hpay, -⟩ := withdraw_eq_ok.mp h
  obtain rfl := Option.some.inj (hc.symm.trans hok.config_eq)
  rcases payOut_eq_ok.mp hpay with ⟨hnone, -⟩ | ⟨-, fee, net, -, hsplit, ho, -⟩
  · exact .inl hnone
  · obtain ⟨f, hf, hmint⟩ := hok.feeVault config.feeVault ho
    refine .inr ⟨⟨denomination, f, hok.denomination_eq, hf, hmint⟩, config, hc, ?_⟩
    rw [hok.payment_eq]
    exact (feeSplit_eq_ok.mp hsplit).1

/-- **Which withdraws survive a new fee vault.**  After the admin has set the fee vault, a withdraw
that is valid but for the fee can be made, with some choice of the optional account, exactly when
the fee vault is of the mint of its denomination and the product of the payment and the rate is a
`u64`; or when it is the default key, which stands for none. -/
theorem set_fee_vault_iff {log : List (Action env)} {s' : PoolState} {admin : PoolSigner env}
    {feeVault : Pubkey} (hrun : PoolRun env log s)
    (hset : setFeeVault env s admin feeVault = .ok s')
    (hvalid : ValidButForFee env s' slot accounts d nullifierHash proof signals) :
    (∃ o s₂, withdraw env s' slot (accounts.withFeeVault o) d nullifierHash proof signals =
      .ok s₂) ↔
      feeVault = Pubkey.default ∨ FeeVaultFits s' d feeVault signals[4].toNat := by
  obtain ⟨config₀, hc₀, -, -, rfl⟩ := setFeeVault_eq_ok.mp hset
  let config : PoolConfig := { config₀ with feeVault }
  let s' : PoolState := { s with config := some config }
  have hbps : config.feeBps ≤ 10000 := ((poolInv_of_run hrun).config config₀ hc₀).2
  obtain ⟨denomination, tree, a, payment, tree', hchecked, ht, root, happend⟩ :=
    hvalid.checked (show s'.config = some config from rfl)
  refine ⟨?_, fun hfits => ?_⟩
  · rintro ⟨o, s₂, h⟩
    exact fits_of_withdraw (show s'.config = some config from rfl) h
  · obtain ⟨v, b, hv, hb, hle, hm, ho⟩ := ht
    have hvm : v.mint = denomination.mint := by
      have hb' := hchecked.ata
      obtain rfl := Option.some.inj (hb.symm.trans hb')
      exact hm.trans hchecked.mint
    have hfits' : config.feeVault ≠ Pubkey.default →
        FeePayable config s.ledger denomination.mint payment := by
      intro hne
      obtain ⟨⟨denomination', f, hd, hf, hfm⟩, config', hc, hproduct⟩ := hfits.resolve_left hne
      obtain rfl := Option.some.inj (hd.symm.trans hchecked.denomination_eq)
      obtain rfl : config = config' := Option.some.inj hc
      rw [hchecked.payment_eq] at hproduct
      exact ⟨hproduct, f, hf, hfm⟩
    obtain ⟨ledger, hpay⟩ := payOut_ok hv ho hb hm.symm hle hbps (hvm ▸ hfits')
    refine ⟨feeVaultArg config, _,
      withdraw_eq_ok.mpr ⟨config, denomination, tree, a, payment, ledger,
      tree', hchecked.withFeeVault rfl ?_, hpay, ⟨root, happend⟩, rfl⟩⟩
    intro key hkey
    by_cases e : config.feeVault = Pubkey.default
    · simp [feeVaultArg, e] at hkey
    · obtain rfl : config.feeVault = key := by simpa [feeVaultArg, e] using hkey
      exact (hfits' e).account

/-! ### A pool with a fee vault -/

/-- A pool with an empty tree, and beside the token accounts of its start one of another mint. -/
theorem exists_account_opened (P : Poseidon) (mint : Pubkey) :
    ∃ log config tree s, PoolRun (ideal P) log s ∧ history 0 log = [] ∧
      Open (ideal P) s 0 [] config (newDenomination (ideal P) usdc 0 10) tree ∧
      config.feeVault = Pubkey.default ∧ config.admin = (admin P).key ∧
      s.nullifier = (genesis P).nullifier ∧
      (∀ k a, (genesisLedger P).account k = some a → s.ledger.account k = some a) ∧
      ∃ a, s.ledger.account (key 9) = some a ∧ a.mint = mint := by
  obtain ⟨config, tree, s, hrun, ho, hnoFee, hadmin, hnull, hkept, hnone⟩ := exists_opened P
  have hvacant : s.ledger.account (key 9) = none := by
    refine hnone _ (genesis_account_none ?_ ?_ ?_) ?_
    · exact key_ne (by norm_num) (by norm_num) (by norm_num)
    · rw [ata_merchant]
      exact key_ne (by norm_num) (by norm_num) (by norm_num)
    · rw [ata_merchantTwin]
      exact key_ne (by norm_num) (by norm_num) (by norm_num)
    · exact key_ne (by norm_num) (by norm_num [addressCode]) (by norm_num [addressCode])
  let l := s.ledger.openAccount (key 9) mint (admin P).key
  have hopened := Ledger.openAccount_account hvacant mint (admin P).key
  have hstep : Step (ideal P) s (.external l) { s with ledger := l } :=
    .external (.of_openAccount hvacant)
  have hrun₁ := hrun.snoc hstep
  obtain ⟨tree₁, ho₁⟩ := open_of_run hrun₁ ho.config_eq ho.unpaused ho.vkHash ho.denomination_eq
  refine ⟨_, config, tree₁, _, hrun₁, rfl, ho₁, hnoFee, hadmin, hnull, fun k a ha => ?_, _,
    (congrFun hopened (key 9)).trans (Function.update_self ..), rfl⟩
  have hk : k ≠ key 9 := by
    rintro rfl
    rw [hkept _ a ha] at hvacant
    cases hvacant
  exact (congrFun hopened k).trans ((Function.update_of_ne hk ..).trans (hkept k a ha))

/-- A token account of any mint can be made the fee vault of a pool with a note in it, whose payment
is then valid but for the fee. -/
theorem exists_fee_vault_set {P : Poseidon} (hroots : ∀ ls, fullRoot P ls ≠ 0) (mint : Pubkey) :
    ∃ log s s' accounts proof denomination account,
      PoolRun (ideal P) log s ∧ setFeeVault (ideal P) s (admin P) (key 9) = .ok s' ∧
      ValidButForFee (ideal P) s' 0 accounts 0 (nullifierHashOf P someNote) proof
        (honestSignals P someNote (fullRoot P [Sdk.commitmentHash P someNote]) somePayment) ∧
      s'.denomination 0 = some denomination ∧ denomination.mint = usdc ∧
      s'.ledger.account (key 9) = some account ∧ account.mint = mint := by
  obtain ⟨_, config, _, s, hrun, hhistory, ho, hnoFee, hadmin, hnull, hkept, a, ha, hmint₀⟩ :=
    exists_account_opened P mint
  -- a note is deposited
  have hlen : [Sdk.commitmentHash P someNote].length < 2 ^ MERKLE_DEPTH :=
    Nat.one_lt_two_pow (by decide)
  have hleaf : [Sdk.commitmentHash P someNote][0]? = some (Sdk.commitmentHash P someNote) := rfl
  obtain ⟨log, s₂, denomination, tree, hl, haccounts⟩ := exists_launched_from hrun hhistory ho
    hnoFee hnull hkept [Sdk.commitmentHash P someNote] hlen.le
  obtain ⟨account, haccount, hmint, -⟩ := haccounts (key 9) a ha
  have hpay := hl.payable someNote rfl hleaf somePayment (by decide) (by decide) (.inl rfl)
  obtain ⟨proof, hproof⟩ : ∃ proof, (ideal P).groth16 proof
      (honestSignals P someNote (fullRoot P [Sdk.commitmentHash P someNote]) somePayment) = true :=
    exists_honest_proof ideal_complete hleaf hlen.le (by decide) (by decide)
  obtain ⟨s', hs'⟩ := hl.withdraw_ok hpay (hroots _) hlen hproof
  let config' : PoolConfig := { config with feeVault := key 9 }
  have hset : setFeeVault (ideal P) s₂ (admin P) (key 9) =
      .ok { s₂ with config := some config' } :=
    setFeeVault_eq_ok.mpr ⟨config, hl.config_eq, ⟨account, haccount⟩,
      ⟨hl.configBump, hadmin⟩, rfl⟩
  have hfeeless : PoolState.feeless { s₂ with config := some config' } = s₂ := by
    have hconfig : config'.feeless = config := by
      rw [PoolConfig.feeless, ← hl.noFee]
    rw [PoolState.feeless, Option.map_some, hconfig, ← hl.config_eq]
  refine ⟨log, s₂, _, honestAccounts (ideal P) config denomination (admin P) merchant, proof,
    denomination, account, hl.run, hset, ⟨s', ?_⟩, hl.denomination_eq, hl.mint, haccount,
    hmint.trans hmint₀⟩
  have hnoArg : feeVaultArg config = none := if_pos hl.noFee
  rw [hfeeless]
  rw [honestAccounts, hnoArg] at hs'
  exact hs'

/-- A fee vault of the denomination's mint leaves its withdraws possible. -/
theorem set_fee_vault_iff_usdc : ∃ (s' : PoolState)
    (accounts : WithdrawAccounts (ideal (offZero circom))) (o : Option Pubkey) (s₂ : PoolState)
    (proof : Bytes PROOF_BYTES) (signals : Vector Bytes32 PUBLIC_SIGNAL_COUNT),
    withdraw (ideal (offZero circom)) s' 0 (accounts.withFeeVault o) 0
      (nullifierHashOf (offZero circom) someNote) proof signals = .ok s₂ := by
  obtain ⟨log, s, s', accounts, proof, denomination, account, hrun, hset, hvalid, hd, hmint,
    haccount, hmint'⟩ := exists_fee_vault_set (fullRoot_offZero circom) usdc
  obtain ⟨config₀, hc₀, -, -, hs'⟩ := setFeeVault_eq_ok.mp hset
  have hbps : config₀.feeBps.toNat ≤ 10000 :=
    UInt16.le_iff_toNat_le.mp ((poolInv_of_run hrun).config config₀ hc₀).2
  have hfits : FeeVaultFits s' 0 (key 9)
      (honestSignals (offZero circom) someNote (fullRoot (offZero circom)
        [Sdk.commitmentHash (offZero circom) someNote]) somePayment)[4].toNat := by
    refine ⟨⟨denomination, account, hd, haccount, hmint'.trans hmint.symm⟩,
      { config₀ with feeVault := key 9 }, by rw [← hs'], ?_⟩
    rw [honestSignals_payment]
    show 4 * config₀.feeBps.toNat < _
    omega
  obtain ⟨o, s₂, hok⟩ := (set_fee_vault_iff hrun hset hvalid).mpr (.inr hfits)
  exact ⟨s', accounts, o, s₂, proof, _, hok⟩

/-- A fee vault of another mint stops them all. -/
theorem set_fee_vault_bricks : ∃ (log : List (Action (ideal (offZero circom))))
    (s s' : PoolState) (accounts : WithdrawAccounts (ideal (offZero circom)))
    (proof : Bytes PROOF_BYTES) (signals : Vector Bytes32 PUBLIC_SIGNAL_COUNT),
    PoolRun (ideal (offZero circom)) log s ∧
    setFeeVault (ideal (offZero circom)) s (admin (offZero circom)) (key 9) = .ok s' ∧
    ValidButForFee (ideal (offZero circom)) s' 0 accounts 0
      (nullifierHashOf (offZero circom) someNote) proof signals ∧
    ∀ o s₂, withdraw (ideal (offZero circom)) s' 0 (accounts.withFeeVault o) 0
      (nullifierHashOf (offZero circom) someNote) proof signals ≠ .ok s₂ := by
  obtain ⟨log, s, s', accounts, proof, denomination, account, hrun, hset, hvalid, hd, hmint,
    haccount, hmint'⟩ := exists_fee_vault_set (fullRoot_offZero circom) (key 8)
  obtain ⟨config₀, -, -, -, hs'⟩ := setFeeVault_eq_ok.mp hset
  have hc : s'.config = some { config₀ with feeVault := key 9 } := by rw [← hs']
  refine ⟨log, s, s', accounts, proof, _, hrun, hset, hvalid, fun o s₂ h => ?_⟩
  rcases fits_of_withdraw hc h with hnone | hfits
  · have hne : key 9 ≠ Pubkey.default := by decide
    exact hne hnone
  · obtain ⟨denomination', account', hd', haccount', heq⟩ := hfits.mint
    obtain rfl := Option.some.inj (hd.symm.trans hd')
    obtain rfl := Option.some.inj (haccount.symm.trans haccount')
    have hne : key 8 ≠ usdc := key_ne (by norm_num) (by norm_num) (by norm_num)
    exact hne (hmint'.symm.trans (heq.trans hmint))

end Qietr.Pool
