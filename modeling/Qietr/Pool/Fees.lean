import Qietr.Pool.FeeVault
import Qietr.Pool.Recipient

/-!
# Pool — the fee of a payment

The fee is a quotient whose dividend is computed in a `u64`, with a check.

* `payOut_overflow_iff`: when the fee branch refuses a payment for its size.
* `PaidExactly`: what a payment does to the three balances; `paidExactly_of_payOut`.
* `withdraw_pays_exactly`: a withdraw that has passed its checks either overflows or, in a vault and
  a tree that can take it, pays to the token.
* `exists_fee_branch`: a pool with any rate and any tier, and a payment in its fee branch.
-/

namespace Qietr.Pool

open Outcome HashTree

variable {env : PoolEnv} {s : PoolState} {slot : UInt64} {accounts : WithdrawAccounts env}
  {d : UInt8} {nullifierHash : Bytes32} {proof : Bytes PROOF_BYTES}
  {signals : Vector Bytes32 PUBLIC_SIGNAL_COUNT} {config : PoolConfig}
  {denomination : Denomination} {tree : MerkleTree} {recipientAta : TokenAccount} {payment : UInt64}

/-! ### The product -/

/-- The split fails for one reason. -/
theorem feeSplit_eq_error {bps : UInt16} (hbps : bps ≤ 10000) {e : QietrError} :
    feeSplit payment bps = .error e ↔ e = .overflow ∧ 2 ^ 64 ≤ payment.toNat * bps.toNat := by
  refine ⟨?_, ?_⟩
  · intro h
    have hlarge : 2 ^ 64 ≤ payment.toNat * bps.toNat := by
      by_contra hsmall
      obtain ⟨fee, net, hok⟩ := feeSplit_ok hbps (not_le.mp hsmall)
      rw [hok] at h
      cases h
    refine ⟨?_, hlarge⟩
    unfold feeSplit at h
    simp only [bind_eq_error, okOr_eq_error] at h
    rcases h with ⟨-, rfl⟩ | ⟨_, -, ⟨-, rfl⟩ | ⟨_, -, ⟨-, rfl⟩ | ⟨_, -, h⟩⟩⟩
    · rfl
    · rfl
    · rfl
    · cases h
  · rintro ⟨rfl, hlarge⟩
    have hnone : checkedMul payment bps.toUInt64 = none := by
      refine Option.eq_none_iff_forall_ne_some.mpr fun q hq => ?_
      have hq' := checkedMul_eq_some.mp hq
      rw [UInt16.toNat_toUInt64] at hq'
      have := q.toNat_lt
      omega
    rw [feeSplit, hnone]
    rfl

/-- A fee vault that is set is the one the withdraw names. -/
def FeeVaultSupplied (config : PoolConfig) (feeVault : Option Pubkey) : Prop :=
  config.feeVault ≠ Pubkey.default → feeVault = some config.feeVault

/-- The payment's product with the rate is no `u64`, in a pool that computes it. -/
def ProductOverflows (config : PoolConfig) (payment : ℕ) : Prop :=
  config.feeVault ≠ Pubkey.default ∧ 2 ^ 64 ≤ payment * config.feeBps.toNat

/-- **The fee branch overflows** just when the product does. -/
theorem payOut_overflow_iff (hbps : config.feeBps ≤ 10000) {l : Ledger}
    {vault recipientAta : Pubkey} {feeVault : Option Pubkey} :
    payOut config l vault recipientAta feeVault payment = .error (.custom .overflow) ↔
      ProductOverflows config payment.toNat := by
  unfold payOut ProductOverflows
  by_cases hnone : config.feeVault = Pubkey.default
  · simp only [hnone, ne_eq, not_true, ite_false, false_and, iff_false, cpi_eq_error]
    rintro ⟨e, -, he⟩
    cases he
  · simp only [hnone, ne_eq, not_false_eq_true, ite_true, true_and, bind_eq_error, custom_eq_error,
      feeSplit_eq_error hbps, okOr_eq_error, require_eq_error, cpi_eq_error]
    refine ⟨?_, fun h => .inl ⟨_, ⟨rfl, h⟩, rfl⟩⟩
    rintro (⟨_, ⟨-, h⟩, -⟩ | ⟨_, -, h⟩)
    · exact h
    · simp at h

/-! ### The balances -/

theorem balance_other_of_moved {l l' : Ledger} {src dst k : Pubkey} {amount : UInt64}
    (h : Ledger.Moved l l' src dst amount) (hs : k ≠ src) (hd : k ≠ dst) :
    l'.balance k = l.balance k := by
  rw [Ledger.balance, Ledger.balance, h.other k hs hd]

/-- What a payment does to the balances of its three accounts. -/
structure PaidExactly (config : PoolConfig) (l l' : Ledger) (vault recipientAta : Pubkey)
    (payment : ℕ) : Prop where
  recipient : l'.balance recipientAta = l.balance recipientAta + (payment - feeOf config payment)
  feeVault : config.feeVault ≠ Pubkey.default →
    l'.balance config.feeVault = l.balance config.feeVault + feeOf config payment
  vault : l'.balance vault + payment = l.balance vault

/-- **A payment that leaves the vault is exact**, where its accounts are distinct. -/
theorem paidExactly_of_payOut {l l' : Ledger} {vault recipientAta : Pubkey}
    {feeVault : Option Pubkey} (hr : recipientAta ≠ vault)
    (hdistinct : config.feeVault ≠ Pubkey.default →
      config.feeVault ≠ vault ∧ config.feeVault ≠ recipientAta)
    (h : payOut config l vault recipientAta feeVault payment = .ok l') :
    PaidExactly config l l' vault recipientAta payment.toNat := by
  rcases payOut_eq_ok.mp h with ⟨hnone, h⟩ | ⟨hsome, fee, net, l₁, hsplit, -, h₁, h₂⟩
  · obtain ⟨ht, rfl⟩ := Ledger.transfer_eq_ok.mp h
    have hfee : feeOf config payment.toNat = 0 := if_pos hnone
    refine ⟨?_, fun hne => absurd hnone hne, ht.moved.source hr.symm⟩
    rw [hfee, Nat.sub_zero]
    exact ht.moved.destination hr.symm
  · obtain ⟨ht₁, rfl⟩ := Ledger.transfer_eq_ok.mp h₁
    obtain ⟨ht₂, rfl⟩ := Ledger.transfer_eq_ok.mp h₂
    obtain ⟨-, hfee, hsum⟩ := feeSplit_eq_ok.mp hsplit
    have hf := hdistinct hsome
    have hfeeOf : feeOf config payment.toNat = fee.toNat := (if_neg hsome).trans hfee.symm
    have hrecipient : ((l.move vault recipientAta net).move vault config.feeVault fee).balance
        recipientAta = l.balance recipientAta + net.toNat :=
      (balance_other_of_moved ht₂.moved hr hf.2.symm).trans (ht₁.moved.destination hr.symm)
    have hfeeVault : ((l.move vault recipientAta net).move vault config.feeVault fee).balance
        config.feeVault = l.balance config.feeVault + fee.toNat := by
      rw [ht₂.moved.destination hf.1.symm, balance_other_of_moved ht₁.moved hf.1 hf.2]
    -- the vault pays both, the net amount first
    have hvault₁ := ht₁.moved.source hr.symm
    have hvault₂ := ht₂.moved.source hf.1.symm
    exact
      { recipient := by rw [hrecipient, hfeeOf]; omega
        feeVault := fun _ => by rw [hfeeVault, hfeeOf]
        vault := by omega }

/-! ### A withdraw -/

/-- What is left to do once a withdraw has passed its checks. -/
theorem WithdrawChecked.withdraw_eq
    (h : WithdrawChecked env s accounts d nullifierHash proof signals config denomination tree
      recipientAta payment) :
    withdraw env s slot accounts d nullifierHash proof signals = (do
      let ledger ← payOut config s.ledger (env.vault d) accounts.recipientAta accounts.feeVault
        payment
      let tree ← appendTo env tree signals[5]
      .ok (s.withdrawn d nullifierHash (nullifierRecord env d nullifierHash slot) tree
        ledger)) := by
  obtain ⟨vault, hvault⟩ := h.vaultAccount
  obtain ⟨feeVault, hload, hmint⟩ : ∃ feeVault, loadFeeVault s accounts.feeVault = .ok feeVault ∧
      ∀ a ∈ feeVault, a.mint = denomination.mint := by
    cases hkey : accounts.feeVault with
    | none => exact ⟨none, rfl, fun a ha => by cases ha⟩
    | some key =>
        obtain ⟨a, ha, hm⟩ := h.feeVault key hkey
        exact ⟨some a, loadFeeVault_eq_ok.mpr (.inr ⟨key, a, rfl, ha, rfl⟩),
          fun b hb => by cases hb; exact hm⟩
  have hvacant : (vacant (s.nullifier d nullifierHash) : Except PoolError Unit) = .ok () :=
    vacant_eq_ok.mpr h.unspent
  unfold withdraw
  rw [initialized_eq_ok.mpr h.config_eq, ok_bind, initialized_eq_ok.mpr h.denomination_eq, ok_bind,
    initialized_eq_ok.mpr h.tree_eq, ok_bind, initialized_eq_ok.mpr hvault, ok_bind,
    initialized_eq_ok.mpr h.ata, ok_bind, hload, ok_bind, hvacant, ok_bind,
    (checkSeeds_eq_ok (u := ())).mpr h.configBump, ok_bind,
    (checkSeeds_eq_ok (u := ())).mpr h.bump, ok_bind,
    (checkSeeds_eq_ok (u := ())).mpr h.treeBump, ok_bind,
    (checkSeeds_eq_ok (u := ())).mpr h.vaultBump, ok_bind,
    require_of _ h.vault, ok_bind, require_of _ h.mint, ok_bind, require_of _ hmint, ok_bind,
    require_of _ h.unpaused, ok_bind,
    custom_eq_ok.mpr ((checkSignals_eq_ok (u := ())).mpr h.signals), ok_bind,
    custom_eq_ok.mpr (decodePayment_eq_ok.mpr h.payment_eq), ok_bind]
  simp only [PoolState.withdrawn, nullifierRecord, ← h.signals.nullifierHash]

/-- An append never overflows. -/
theorem appendTo_ne_overflow {ls : List F} (h : Tracks env.poseidon tree ls) (leaf : Bytes32) :
    appendTo env tree leaf ≠ .error (.custom .overflow) := by
  intro herr
  obtain ⟨e, he, hcustom⟩ := custom_eq_error.mp herr
  cases hcustom
  rcases h.bound.lt_or_eq with hlt | hfull
  · have hroom : tree.nextLeafIndex < 1 <<< UInt64.ofNat MERKLE_DEPTH := by
      rw [UInt64.lt_iff_toNat_lt, capacity_toNat, h.count]
      exact hlt
    by_cases hleaf : Canonical leaf
    · obtain ⟨t', ht', -⟩ := append_ok h hlt (decode leaf)
      rw [encode_decode hleaf] at ht'
      rw [ht', finalState] at he
      cases he
    · obtain ⟨t', ht'⟩ := append_hashFailure (P := env.poseidon) hroom hleaf
      rw [ht', finalState] at he
      cases he
  · rw [append_full h hfull, finalState] at he
    cases he

/-- Only a fee vault that is set is looked at. -/
theorem payOut_supplied {l : Ledger} {vault recipientAta : Pubkey} {feeVault : Option Pubkey}
    (h : FeeVaultSupplied config feeVault) :
    payOut config l vault recipientAta feeVault payment =
      payOut config l vault recipientAta (feeVaultArg config) payment := by
  by_cases hnone : config.feeVault = Pubkey.default
  · have hif : ¬ config.feeVault ≠ Pubkey.default := not_not.mpr hnone
    rw [payOut, payOut, if_neg hif, if_neg hif]
  · rw [feeVaultArg, if_neg hnone, h hnone]

/-- **The arithmetic of a withdraw.**  In every state of every run, a withdraw that has passed its
checks, with the fee vault supplied, overflows just when a fee is taken and the product of payment
and rate is no `u64`.  When it succeeds, and its accounts are distinct, it pays to the token; and it
succeeds when it does not overflow, the vault holds the payment, and the tree can take the
change. -/
theorem withdraw_pays_exactly {log : List (Action env)} (hrun : PoolRun env log s)
    (h : WithdrawChecked env s accounts d nullifierHash proof signals config denomination tree
      recipientAta payment)
    (hsupplied : FeeVaultSupplied config accounts.feeVault) (slot : UInt64) :
    (withdraw env s slot accounts d nullifierHash proof signals = .error (.custom .overflow) ↔
      ProductOverflows config payment.toNat) ∧
    (accounts.recipientAta ≠ env.vault d →
      (config.feeVault ≠ Pubkey.default →
        config.feeVault ≠ env.vault d ∧ config.feeVault ≠ accounts.recipientAta) →
      ∀ s', withdraw env s slot accounts d nullifierHash proof signals = .ok s' →
        PaidExactly config s.ledger s'.ledger (env.vault d) accounts.recipientAta payment.toNat) ∧
    (¬ ProductOverflows config payment.toNat → payment.toNat ≤ s.ledger.balance (env.vault d) →
      (history d log).length < 2 ^ MERKLE_DEPTH → Canonical signals[5] →
      ∃ s', withdraw env s slot accounts d nullifierHash proof signals = .ok s') := by
  have hinv := poolInv_of_run hrun
  have hbps := (hinv.config config h.config_eq).2
  obtain ⟨tree', hheld⟩ := hinv.held h.denomination_eq
  obtain rfl : tree = tree' := Option.some.inj (h.tree_eq.symm.trans hheld.tree_eq)
  rw [h.withdraw_eq]
  refine ⟨?_, fun hr hdistinct s' hok => ?_, fun hfits hfunds hroom hchange => ?_⟩
  · -- nothing after the payment overflows: an append has errors of its own
    rw [bind_eq_error, payOut_overflow_iff hbps]
    refine ⟨?_, .inl⟩
    rintro (hlarge | ⟨ledger, -, herr⟩)
    · exact hlarge
    · rcases bind_eq_error.mp herr with herr | ⟨_, -, herr⟩
      · exact absurd herr (appendTo_ne_overflow hheld.tracks _)
      · cases herr
  · obtain ⟨ledger, hpay, hok⟩ := bind_eq_ok.mp hok
    obtain ⟨tree', -, hok⟩ := bind_eq_ok.mp hok
    cases hok
    exact paidExactly_of_payOut hr hdistinct hpay
  · obtain ⟨v, hv, hvm, hvo⟩ := hheld.vaultAccount
    rw [Ledger.balance_eq hv] at hfunds
    have hfee : config.feeVault ≠ Pubkey.default →
        FeePayable config s.ledger v.mint payment := fun hne => by
      obtain ⟨a, ha, ham⟩ := h.feeVault _ (hsupplied hne)
      exact ⟨not_le.mp fun hle => hfits ⟨hne, hle⟩, a, ha, ham.trans hvm.symm⟩
    obtain ⟨ledger, hpay⟩ := payOut_ok hv hvo h.ata (h.mint.trans hvm.symm) hfunds hbps hfee
    obtain ⟨tree', htree, -⟩ := append_ok hheld.tracks (by rwa [leaves_length]) (decode signals[5])
    rw [encode_decode hchange] at htree
    exact ⟨_, by rw [payOut_supplied hsupplied, hpay, ok_bind, appendTo_eq_ok.mpr ⟨_, htree⟩,
      ok_bind]⟩

/-! ### A pool with any rate and any tier -/

/-- Token accounts of which one holds a large supply. -/
noncomputable def whaleLedger (P : Poseidon) : Ledger :=
  ((Ledger.funded depositorAta usdc (admin P).key (2 ^ 60)).openAccount (ata P merchant) usdc
    merchant).openAccount (key 9) usdc (admin P).key

/-- The state before the first instruction, with these accounts. -/
noncomputable def whale (P : Poseidon) : PoolState :=
  { genesis P with ledger := whaleLedger P }

/-- The token accounts it has. -/
structure Whale (P : Poseidon) (l : Ledger) : Prop where
  depositor : l.account depositorAta =
    some { mint := usdc, owner := (admin P).key, amount := 2 ^ 60 }
  recipient : l.account (ata P merchant) = some { mint := usdc, owner := merchant, amount := 0 }
  feeVault : l.account (key 9) = some { mint := usdc, owner := (admin P).key, amount := 0 }
  vault : l.account ((ideal P).vault 0) = none
  supply : l.supply usdc = some (2 ^ 60)

theorem ata_merchant_ne {P : Poseidon} {n : ℕ} (hn : n < 2 ^ 64) : key n ≠ ata P merchant := by
  rw [ata_merchant]
  exact key_ne (hn.trans (by norm_num)) (by norm_num) (by omega)

theorem vault_ne_key {P : Poseidon} {n : ℕ} (hn : n < 2 ^ 64) : (ideal P).vault 0 ≠ key n :=
  key_ne (by norm_num [addressCode]) (hn.trans (by norm_num)) (by
    have : (2 : ℕ) ^ 64 ≤ 2 ^ 128 := by norm_num
    omega)

theorem whale_ledger (P : Poseidon) : Whale P (whaleLedger P) := by
  have hnine : key 9 ≠ depositorAta := key_ne (by norm_num) (by norm_num) (by norm_num)
  have hdr : depositorAta ≠ ata P merchant := ata_merchant_ne (by norm_num)
  have hvd : (ideal P).vault 0 ≠ depositorAta := vault_ne_key (by norm_num)
  have hvn : (ideal P).vault 0 ≠ key 9 := vault_ne_key (by norm_num)
  have hnr : key 9 ≠ ata P merchant := ata_merchant_ne (by norm_num)
  let l₀ := Ledger.funded depositorAta usdc (admin P).key (2 ^ 60)
  have h₀ : ∀ k, k ≠ depositorAta → l₀.account k = none := fun k hk => by
    rw [funded_account, Function.update_of_ne hk]
  have h₁ := Ledger.openAccount_account (h₀ _ hdr.symm) usdc merchant
  have hfree : (l₀.openAccount (ata P merchant) usdc merchant).account (key 9) = none := by
    rw [h₁, Function.update_of_ne hnr, h₀ _ hnine]
  have h₂ := Ledger.openAccount_account hfree usdc (admin P).key
  exact
    { depositor := by
        rw [whaleLedger, h₂, Function.update_of_ne hnine.symm, h₁, Function.update_of_ne hdr,
          funded_account, Function.update_self]
      recipient := by
        rw [whaleLedger, h₂, Function.update_of_ne hnr.symm, h₁, Function.update_self]
      feeVault := by
        rw [whaleLedger, h₂, Function.update_self]
      vault := by
        rw [whaleLedger, h₂, Function.update_of_ne hvn, h₁,
          Function.update_of_ne vault_ne_ata_merchant, h₀ _ hvd]
      supply := by
        rw [whaleLedger, Ledger.openAccount_supply, Ledger.openAccount_supply, funded_supply,
          Function.update_self] }

/-- A withdraw in the fee branch, which has passed its checks and which the vault and the tree can
take. -/
structure FeeBranch (P : Poseidon) (log : List (Action (ideal P))) (s : PoolState)
    (accounts : WithdrawAccounts (ideal P)) (nullifierHash : Bytes32) (proof : Bytes PROOF_BYTES)
    (signals : Vector Bytes32 PUBLIC_SIGNAL_COUNT) (config : PoolConfig)
    (denomination : Denomination) (tree : MerkleTree) (recipientAta : TokenAccount)
    (payment : UInt64) : Prop where
  checked : WithdrawChecked (ideal P) s accounts 0 nullifierHash proof signals config denomination
    tree recipientAta payment
  run : PoolRun (ideal P) log s
  recipient : accounts.recipientAta = ata P merchant
  configured : config.feeVault = key 9
  supplied : FeeVaultSupplied config accounts.feeVault
  funds : payment.toNat ≤ s.ledger.balance ((ideal P).vault 0)
  room : (history 0 log).length < 2 ^ MERKLE_DEPTH
  change : Canonical signals[5]

theorem FeeBranch.distinct {P : Poseidon} {log : List (Action (ideal P))}
    {accounts : WithdrawAccounts (ideal P)}
    (h : FeeBranch P log s accounts nullifierHash proof signals config denomination tree
      recipientAta payment) :
    accounts.recipientAta ≠ (ideal P).vault 0 ∧ (config.feeVault ≠ Pubkey.default →
      config.feeVault ≠ (ideal P).vault 0 ∧ config.feeVault ≠ accounts.recipientAta) := by
  rw [h.recipient, h.configured]
  exact ⟨vault_ne_ata_merchant.symm, fun _ =>
    ⟨(vault_ne_key (by norm_num)).symm, ata_merchant_ne (by norm_num)⟩⟩

theorem FeeBranch.set {P : Poseidon} {log : List (Action (ideal P))}
    {accounts : WithdrawAccounts (ideal P)}
    (h : FeeBranch P log s accounts nullifierHash proof signals config denomination tree
      recipientAta payment) : config.feeVault ≠ Pubkey.default := by
  have hne : key 9 ≠ Pubkey.default := by decide
  rwa [h.configured]

/-- The checks pass as well once a fee vault is set and named. -/
theorem WithdrawChecked.setFeeVault
    (h : WithdrawChecked env s accounts d nullifierHash proof signals config denomination tree
      recipientAta payment) {feeVault : Pubkey} {f : TokenAccount}
    (hf : s.ledger.account feeVault = some f) (hm : f.mint = denomination.mint) :
    WithdrawChecked env { s with config := some { config with feeVault } }
      (accounts.withFeeVault (some feeVault)) d nullifierHash proof signals { config with feeVault }
      denomination tree recipientAta payment := by
  refine h.changeFeeVault feeVault fun key hkey => ?_
  obtain rfl := Option.some.inj hkey
  exact ⟨f, hf, hm⟩

/-- A denomination of any tier and a pool of any rate, with a note of the tier in it. -/
theorem exists_whale_note (P : Poseidon) (feeBps : UInt16) (hbps : feeBps ≤ 10000) (amount : UInt64)
    (hamount : amount.toNat ≤ 2 ^ 60) (x : F) :
    ∃ log s config denomination tree, PoolRun (ideal P) log s ∧
      history 0 log = depositEntries [x] ∧
      Open (ideal P) s 0 (depositEntries [x]) config denomination tree ∧
      config.feeVault = Pubkey.default ∧ config.feeBps = feeBps ∧ config.admin = (admin P).key ∧
      denomination.mint = usdc ∧ denomination.amountMicroUsdc = amount ∧
      (∀ y, s.nullifier 0 y = none) ∧
      ∀ k a, (whaleLedger P).account k = some a →
        ∃ a', s.ledger.account k = some a' ∧ a'.mint = a.mint ∧ a'.owner = a.owner := by
  have hg := whale_ledger P
  have hinitial : Initial (whale P) := ⟨rfl, fun _ => rfl, fun _ => rfl, fun _ _ => rfl⟩
  obtain ⟨config, tree, s, hrun, ho, hnoFee, hrate, hadmin, hnull, hledger⟩ :=
    exists_open hinitial (admin P) feeBps hbps ⟨_, hg.supply⟩ hg.vault amount
  have haccount : ∀ {k a}, (whaleLedger P).account k = some a → s.ledger.account k = some a := by
    intro k a ha
    have hk : k ≠ (ideal P).vault 0 := by
      rintro rfl
      rw [hg.vault] at ha
      cases ha
    rw [hledger]
    exact (congrFun (Ledger.openAccount_account hg.vault _ _) k).trans
      ((Function.update_of_ne hk ..).trans ha)
  have hroom : [x].length ≤ 2 ^ MERKLE_DEPTH := (Nat.one_lt_two_pow (by decide)).le
  obtain ⟨denomination, tree₁, s₁, hrun₁, ho₁, hkin⟩ := ho.deposits_run hrun 0
    ⟨depositorAta, admin P⟩ (haccount hg.depositor) rfl rfl [x]
    (by rw [List.length_singleton, Nat.mul_one]; exact hamount) (by simpa using hroom)
  rw [List.nil_append] at ho₁
  refine ⟨_, s₁, config, denomination, tree₁, hrun₁, ?_, ho₁, hnoFee, hrate, hadmin, hkin.mint,
    hkin.amount, fun y => ?_, fun k a ha => hkin.accounts k a (haccount ha)⟩
  · rw [history_append, history_launchLog, history_depositLog, List.nil_append]
  · rw [hkin.nullifier, hnull]
    rfl

/-- There is one for every rate, every tier and every payment. -/
theorem exists_fee_branch {P : Poseidon} (hroots : ∀ ls, fullRoot P ls ≠ 0) (feeBps : UInt16)
    (hbps : feeBps ≤ 10000) (amount : UInt64) (hamount : amount.toNat ≤ 2 ^ 60) (payment : UInt64)
    (hpos : 1 ≤ payment.toNat) (hle : payment.toNat ≤ amount.toNat) :
    ∃ log s accounts nullifierHash proof signals config denomination tree recipientAta,
      FeeBranch P log s accounts nullifierHash proof signals config denomination tree recipientAta
        payment ∧
      config.feeBps = feeBps ∧ denomination.amountMicroUsdc = amount := by
  have hg := whale_ledger P
  let c : Sdk.Commitment := { secret := 1, nullifier := 2, amount }
  let pay : Sdk.Payment := { somePayment with paymentAmount := payment }
  obtain ⟨log, s, config, denomination, tree, hrun, hhistory, ho, hnoFee, hrate, hadmin, hmint,
    htier, hfresh, haccount⟩ :=
    exists_whale_note P feeBps hbps amount hamount (Sdk.commitmentHash P c)
  obtain ⟨r, hr, hrm, hro⟩ := haccount _ _ hg.recipient
  obtain ⟨f, hf, hfm, -⟩ := haccount _ _ hg.feeVault
  have hroom : [Sdk.commitmentHash P c].length < 2 ^ MERKLE_DEPTH := Nat.one_lt_two_pow (by decide)
  have hleaf : (leaves (depositEntries [Sdk.commitmentHash P c]))[0]? =
      some (Sdk.commitmentHash P c) := by rw [leaves_depositEntries]; rfl
  have hpayable : Payable (ideal P) s 0 (depositEntries [Sdk.commitmentHash P c]) config
      denomination c pay :=
    { amount := htier.symm
      leaf := ⟨0, hleaf⟩
      unspent := hfresh _
      pos := hpos
      le := hle
      recipient := ⟨r, by rw [hmint]; exact hr, hrm.trans hmint.symm, hro⟩
      fee := fun hne => absurd hnoFee hne }
  obtain ⟨proof, hproof⟩ : ∃ proof, (ideal P).groth16 proof (honestSignals P c
      (fullRoot P (leaves (depositEntries [Sdk.commitmentHash P c]))) pay) = true :=
    exists_honest_proof ideal_complete hleaf (by rw [leaves_depositEntries]; exact hroom.le) hpos
      hle
  obtain ⟨a, hchecked⟩ := ho.withdrawChecked hpayable (hroots _) (admin P) hproof
  -- and the fee vault is set
  have hset : setFeeVault (ideal P) s (admin P) (key 9) =
      .ok { s with config := some { config with feeVault := key 9 } } :=
    setFeeVault_eq_ok.mpr ⟨config, ho.config_eq, ⟨f, hf⟩, ⟨ho.configBump, hadmin⟩, rfl⟩
  have hstep : Step (ideal P) s (.call 0 (.setFeeVault (admin P) (key 9))) _ := .call hset
  have hconfig : (Call.setFeeVault (admin P) (key 9)).IsConfig := trivial
  have hfunds := ho.funds
  have hcount : deposits (depositEntries [Sdk.commitmentHash P c]) = 1 := rfl
  have hpayments : payments (depositEntries [Sdk.commitmentHash P c]) = 0 := rfl
  rw [hcount, hpayments, htier, Nat.mul_one, Nat.add_zero] at hfunds
  refine ⟨_, _, _, _, proof, _, { config with feeVault := key 9 }, denomination, tree, a,
    { checked := hchecked.setFeeVault hf (hfm.trans hmint.symm)
      run := hrun.snoc hstep
      recipient := by
        show (ideal P).associatedTokenAddress merchant denomination.mint = _
        rw [hmint]
      configured := rfl
      supplied := fun _ => rfl
      funds := hle.trans hfunds
      room := by
        rw [history_snoc_none (entry_config hconfig 0), hhistory]
        exact hroom
      change := canonical_encode _ }, hrate, htier⟩

/-- A payment of four hundred at one percent. -/
theorem withdraw_pays_exactly_four : ∃ (s s' : PoolState) (config : PoolConfig)
    (accounts : WithdrawAccounts (ideal (offZero circom))) (nullifierHash : Bytes32)
    (proof : Bytes PROOF_BYTES) (signals : Vector Bytes32 PUBLIC_SIGNAL_COUNT),
    withdraw (ideal (offZero circom)) s 0 accounts 0 nullifierHash proof signals = .ok s' ∧
    s'.ledger.balance accounts.recipientAta = s.ledger.balance accounts.recipientAta + 396 ∧
    s'.ledger.balance config.feeVault = s.ledger.balance config.feeVault + 4 ∧
    s'.ledger.balance ((ideal (offZero circom)).vault 0) + 400 =
      s.ledger.balance ((ideal (offZero circom)).vault 0) := by
  obtain ⟨log, s, accounts, nullifierHash, proof, signals, config, denomination, tree, a, h,
    hrate, -⟩ :=
    exists_fee_branch (fullRoot_offZero circom) 100 (by decide) 1000 (by decide) 400 (by decide)
      (by decide)
  obtain ⟨-, hexact, hok⟩ := withdraw_pays_exactly h.run h.checked h.supplied 0
  have hset := h.set
  have hfits : ¬ ProductOverflows config (400 : UInt64).toNat := by
    rintro ⟨-, hlarge⟩
    rw [hrate] at hlarge
    exact absurd hlarge (by decide)
  obtain ⟨s', hs'⟩ := hok hfits h.funds h.room h.change
  have hpaid := hexact h.distinct.1 h.distinct.2 s' hs'
  have hfee : feeOf config (400 : UInt64).toNat = 4 := by
    rw [feeOf, if_neg hset, hrate]
    rfl
  have hrecipient := hpaid.recipient
  have hvault := hpaid.feeVault hset
  rw [hfee] at hrecipient hvault
  exact ⟨s, s', config, accounts, nullifierHash, proof, signals, hs', hrecipient, hvault,
    hpaid.vault⟩

/-- At the highest rate a payment of `2 ^ 52` overflows, though the payment, and the fee with it,
are far below the limit. -/
theorem fee_branch_overflows : ∃ (log : List (Action (ideal (offZero circom)))) (s : PoolState)
    (accounts : WithdrawAccounts (ideal (offZero circom))) (nullifierHash : Bytes32)
    (proof : Bytes PROOF_BYTES) (signals : Vector Bytes32 PUBLIC_SIGNAL_COUNT)
    (config : PoolConfig) (denomination : Denomination) (tree : MerkleTree) (a : TokenAccount),
    PoolRun (ideal (offZero circom)) log s ∧
    WithdrawChecked (ideal (offZero circom)) s accounts 0 nullifierHash proof signals config
      denomination tree a (2 ^ 52) ∧
    denomination.amountMicroUsdc = 2 ^ 52 ∧ config.feeVault ≠ Pubkey.default ∧
    accounts.feeVault = some config.feeVault ∧
    withdraw (ideal (offZero circom)) s 0 accounts 0 nullifierHash proof signals =
      .error (.custom .overflow) := by
  obtain ⟨log, s, accounts, nullifierHash, proof, signals, config, denomination, tree, a, h, hrate,
    htier⟩ := exists_fee_branch (fullRoot_offZero circom) 10000 (by decide) (2 ^ 52) (by decide)
      (2 ^ 52) (by decide) (by decide)
  have hset := h.set
  refine ⟨log, s, accounts, nullifierHash, proof, signals, config, denomination, tree, a, h.run,
    h.checked, htier, hset, h.supplied hset, ?_⟩
  have hbps := ((poolInv_of_run h.run).config config h.checked.config_eq).2
  have hlarge : ProductOverflows config (2 ^ 52 : UInt64).toNat :=
    ⟨hset, by rw [hrate]; decide⟩
  rw [h.checked.withdraw_eq, (payOut_overflow_iff hbps).mpr hlarge]
  rfl

end Qietr.Pool
