import Qietr.Pool.Program

/-!
# Pool — what each instruction does

One inversion per function of the program: when it succeeds, and what it then leaves.  The rest of
the development reads these and not the code.

* `toNat_fieldFromU64`, `decodePayment_eq_ok`, `feeSplit_eq_ok`: the encodings.
* `SignalsOk`, `PaidOut`: what a withdraw has checked, and what has left the vault.
* `DepositOk`, `WithdrawChecked`, `initializeDenomination_eq_ok`: the three instructions that touch
  a tree.
* `exec_config`: the others leave everything but the configuration.
-/

namespace Qietr.Pool

open Outcome

variable {env : PoolEnv}

/-! ### Encodings -/

theorem toNat_fieldFromU64 (v : UInt64) : (fieldFromU64 v).toNat = v.toNat := by
  show beNat ((Bytes.zero 24 ++ Bytes.ofNat 8 v.toNat : Bytes (24 + 8)).toList) = _
  rw [Vector.toList_append, Bytes.zero, Vector.toList_replicate, beNat_zeros_append,
    Bytes.toList_ofNat, beNat_beBytes, Nat.mod_eq_of_lt]
  exact v.toNat_lt

theorem two_pow_64_lt_r : 2 ^ 64 < r :=
  two_pow_lt_r (by decide)

@[simp] theorem decode_fieldFromU64 (v : UInt64) : decode (fieldFromU64 v) = (v.toNat : F) := by
  rw [decode, toNat_fieldFromU64]

/-- The payment is decoded exactly when its field element is a `u64`. -/
theorem decodePayment_eq_ok {f : Bytes32} {p : UInt64} :
    decodePayment f = .ok p ↔ f.toNat = p.toNat := by
  have hsplit : f.toNat =
      beNat (f.toList.take 24) * 256 ^ 8 + beNat (f.toList.drop 24) := by
    rw [Bytes.toNat, ← List.take_append_drop 24 f.toList, beNat_append]
    simp
  have hlow : beNat (f.toList.drop 24) < 256 ^ 8 := by
    have h := beNat_lt (f.toList.drop 24)
    rwa [List.length_drop, Vector.length_toList] at h
  have htake : (∀ i : Fin 24, f[i] = 0) ↔ beNat (f.toList.take 24) = 0 := by
    rw [beNat_eq_zero]
    refine ⟨?_, ?_⟩
    · intro h b hb
      obtain ⟨i, hi, rfl⟩ := List.mem_iff_getElem.mp hb
      have hi24 : i < 24 := by
        rw [List.length_take] at hi; omega
      simpa using h ⟨i, hi24⟩
    · intro h i
      have hi : i.val < (f.toList.take 24).length := by
        rw [List.length_take, Vector.length_toList]; omega
      simpa using h _ (List.getElem_mem hi)
  have hof : ∀ n < 256 ^ 8, (UInt64.ofNat n).toNat = n := fun n hn => by
    rw [UInt64.toNat_ofNat', Nat.mod_eq_of_lt (by omega)]
  unfold decodePayment
  rw [require_bind_eq_ok, htake, Except.ok.injEq, ← UInt64.toNat_inj, hof _ hlow]
  have hp := p.toNat_lt
  refine ⟨?_, ?_⟩
  · rintro ⟨h0, hp'⟩
    rw [hsplit, h0, hp', Nat.zero_mul, Nat.zero_add]
  · intro h
    rw [hsplit] at h
    have h0 : beNat (f.toList.take 24) = 0 := by
      by_contra hne
      have : 1 * 256 ^ 8 ≤ beNat (f.toList.take 24) * 256 ^ 8 :=
        Nat.mul_le_mul_right _ (Nat.one_le_iff_ne_zero.mpr hne)
      omega
    exact ⟨h0, by rw [← h, h0, Nat.zero_mul, Nat.zero_add]⟩

/-- The fee is what the division leaves of the product, and the rest is net. -/
theorem feeSplit_eq_ok {payment : UInt64} {bps : UInt16} {fee net : UInt64} :
    feeSplit payment bps = .ok (fee, net) ↔
      payment.toNat * bps.toNat < 2 ^ 64 ∧ fee.toNat = payment.toNat * bps.toNat / 10000 ∧
        fee.toNat + net.toNat = payment.toNat := by
  have hten : (10000 : UInt64) ≠ 0 := by decide
  have hten' : (10000 : UInt64).toNat = 10000 := rfl
  unfold feeSplit
  simp only [okOr_bind_eq_ok, checkedMul_eq_some, checkedDiv_eq_some, checkedSub_eq_some,
    Except.ok.injEq, Prod.mk.injEq, UInt16.toNat_toUInt64, hten', ne_eq, hten, not_false_eq_true,
    true_and]
  refine ⟨?_, ?_⟩
  · rintro ⟨q, hq, f, hf, n, hn, rfl, rfl⟩
    have := q.toNat_lt
    refine ⟨by omega, by rw [hf, hq], by omega⟩
  · rintro ⟨hlt, hf, hsum⟩
    exact ⟨payment * bps.toUInt64, by
      rw [UInt64.toNat_mul, UInt16.toNat_toUInt64, Nat.mod_eq_of_lt hlt], fee, by
      rw [hf, UInt64.toNat_mul, UInt16.toNat_toUInt64, Nat.mod_eq_of_lt hlt], net, by omega,
      rfl, rfl⟩

/-! ### The small checks -/

@[simp] theorem custom_eq_ok {α : Type} {x : Except QietrError α} {a : α} :
    custom x = .ok a ↔ x = .ok a := by
  cases x <;> simp [custom, Except.mapError]

@[simp] theorem custom_eq_error {α : Type} {x : Except QietrError α} {e : PoolError} :
    custom x = .error e ↔ ∃ e', x = .error e' ∧ .custom e' = e := by
  cases x <;> simp [custom, Except.mapError]

theorem custom_ne_token {α : Type} {x : Except QietrError α} {e : TokenError} :
    custom x = .error (.token e) ↔ False := by
  simp

@[simp] theorem checkSeeds_eq_ok {seed : PoolSeed} {stored : UInt8} {u : Unit} :
    checkSeeds env seed stored = .ok u ↔ stored = env.bump seed := by
  simp [checkSeeds]

theorem checkAdmin_eq_ok {config : PoolConfig} {admin : PoolSigner env} {u : Unit} :
    checkAdmin env config admin = .ok u ↔
      config.bump = env.bump .config ∧ config.admin = admin.key := by
  unfold checkAdmin
  simp only [bind_eq_ok, checkSeeds_eq_ok, require_eq_ok, exists_and_left, exists_const]

theorem finalState_eq_ok {ε σ α : Type} {x : EStateM.Result ε σ α} {s : σ} :
    finalState x = .ok s ↔ ∃ a, x = .ok a s := by
  cases x <;> simp [finalState]

theorem appendTo_eq_ok {tree tree' : MerkleTree} {leaf : Bytes32} :
    appendTo env tree leaf = .ok tree' ↔
      ∃ root, (append env.poseidon leaf).run tree = .ok root tree' := by
  rw [appendTo, custom_eq_ok, finalState_eq_ok]

/-- What a withdraw has checked of its signals. -/
structure SignalsOk (env : PoolEnv) (config : PoolConfig) (denomination : Denomination)
    (tree : MerkleTree) (recipientKey : Pubkey) (recipientAta : TokenAccount)
    (nullifierHashArg : Bytes32) (proof : Bytes PROOF_BYTES)
    (publicSignals : Vector Bytes32 PUBLIC_SIGNAL_COUNT) : Prop where
  nullifierHash : nullifierHashArg = publicSignals[2]
  recipient : publicSignals[3] = pubkeyToField recipientAta.owner
  canonicalAta : env.associatedTokenAddress recipientAta.owner denomination.mint = recipientKey
  root : tree.isKnownRoot publicSignals[1] = true
  amount : publicSignals[0] = fieldFromU64 denomination.amountMicroUsdc
  vkHash : env.embeddedVkHash = config.verifyingKeyHash
  proof : env.groth16 proof publicSignals = true

theorem checkSignals_eq_ok {config : PoolConfig} {denomination : Denomination} {tree : MerkleTree}
    {recipientKey : Pubkey} {recipientAta : TokenAccount} {nullifierHashArg : Bytes32}
    {proof : Bytes PROOF_BYTES} {publicSignals : Vector Bytes32 PUBLIC_SIGNAL_COUNT} {u : Unit} :
    checkSignals env config denomination tree recipientKey recipientAta nullifierHashArg proof
        publicSignals = .ok u ↔
      SignalsOk env config denomination tree recipientKey recipientAta nullifierHashArg proof
        publicSignals := by
  unfold checkSignals verify
  simp only [require_bind_eq_ok, require_eq_ok]
  exact ⟨fun ⟨h₁, h₂, h₃, h₄, h₅, h₆, h₇⟩ => ⟨h₁, h₂, h₃, h₄, h₅, h₆, h₇⟩,
    fun ⟨h₁, h₂, h₃, h₄, h₅, h₆, h₇⟩ => ⟨h₁, h₂, h₃, h₄, h₅, h₆, h₇⟩⟩

/-! ### Out of the vault -/

/-- A payment leaves the vault in one transfer, or in two when a fee vault is configured. -/
theorem payOut_eq_ok {config : PoolConfig} {l l' : Ledger} {vault recipientAta : Pubkey}
    {feeVault : Option Pubkey} {payment : UInt64} :
    payOut config l vault recipientAta feeVault payment = .ok l' ↔
      (config.feeVault = Pubkey.default ∧
        l.transfer vault recipientAta vault payment = .ok l') ∨
      (config.feeVault ≠ Pubkey.default ∧ ∃ fee net l₁,
        feeSplit payment config.feeBps = .ok (fee, net) ∧ feeVault = some config.feeVault ∧
        l.transfer vault recipientAta vault net = .ok l₁ ∧
        l₁.transfer vault config.feeVault vault fee = .ok l') := by
  unfold payOut
  by_cases h : config.feeVault = Pubkey.default
  · simp [h]
  · rw [if_pos h]
    simp only [bind_eq_ok, custom_eq_ok, okOr_eq_ok, require_eq_ok, cpi_eq_ok, h, false_and,
      false_or, ne_eq, not_false_eq_true, true_and, Prod.exists, exists_and_left, exists_const]
    refine ⟨?_, ?_⟩
    · rintro ⟨fee, net, hsplit, fv, hfv, rfl, l₁, h₁, h₂⟩
      exact ⟨fee, net, hsplit, hfv, l₁, h₁, h₂⟩
    · rintro ⟨fee, net, hsplit, hfv, l₁, h₁, h₂⟩
      exact ⟨fee, net, hsplit, _, hfv, rfl, l₁, h₁, h₂⟩

/-- What a payment does to the ledger: no account but the vault loses tokens, and the vault loses
no more than the payment. -/
structure PaidOut (l l' : Ledger) (vault : Pubkey) (payment : ℕ) : Prop where
  supply : l'.supply = l.supply
  keeps : ∀ k a, l.account k = some a →
    ∃ a', l'.account k = some a' ∧ a'.mint = a.mint ∧ a'.owner = a.owner
  vacant : ∀ k, l.account k = none → l'.account k = none
  others : ∀ k, k ≠ vault → l.balance k ≤ l'.balance k
  vault : l.balance vault ≤ l'.balance vault + payment

theorem PaidOut.of_moved {l l' : Ledger} {vault dst : Pubkey} {amount : UInt64}
    (h : Ledger.Moved l l' vault dst amount) : PaidOut l l' vault amount.toNat where
  supply := h.supply
  keeps _ _ ha := h.account_some ha
  vacant _ hk := h.account_none hk
  others _ hk := h.balance_le hk
  vault := by
    by_cases e : vault = dst
    · rw [h.self e]; omega
    · have := h.source e; omega

theorem PaidOut.trans {l l₁ l' : Ledger} {vault : Pubkey} {m n : ℕ} (h : PaidOut l l₁ vault m)
    (h' : PaidOut l₁ l' vault n) : PaidOut l l' vault (m + n) where
  supply := h'.supply.trans h.supply
  keeps k a ha := by
    obtain ⟨a₁, ha₁, hm, ho⟩ := h.keeps k a ha
    obtain ⟨a', ha', hm', ho'⟩ := h'.keeps k a₁ ha₁
    exact ⟨a', ha', hm'.trans hm, ho'.trans ho⟩
  vacant k hk := h'.vacant k (h.vacant k hk)
  others k hk := (h.others k hk).trans (h'.others k hk)
  vault := by
    have := h.vault
    have := h'.vault
    omega

theorem paidOut_of_payOut {config : PoolConfig} {l l' : Ledger} {vault recipientAta : Pubkey}
    {feeVault : Option Pubkey} {payment : UInt64}
    (h : payOut config l vault recipientAta feeVault payment = .ok l') :
    PaidOut l l' vault payment.toNat := by
  rcases payOut_eq_ok.mp h with ⟨-, h⟩ | ⟨-, fee, net, l₁, hsplit, -, h₁, h₂⟩
  · obtain ⟨ht, rfl⟩ := Ledger.transfer_eq_ok.mp h
    exact .of_moved ht.moved
  · obtain ⟨ht₁, rfl⟩ := Ledger.transfer_eq_ok.mp h₁
    obtain ⟨ht₂, rfl⟩ := Ledger.transfer_eq_ok.mp h₂
    have hsum := (feeSplit_eq_ok.mp hsplit).2.2
    rw [← hsum, Nat.add_comm]
    exact (PaidOut.of_moved ht₁.moved).trans (.of_moved ht₂.moved)

/-- A vault that holds the payment does not run out of funds. -/
theorem payOut_ne_insufficientFunds {config : PoolConfig} {l : Ledger}
    {vault recipientAta : Pubkey} {feeVault : Option Pubkey} {payment : UInt64}
    (h : payment.toNat ≤ l.balance vault) :
    payOut config l vault recipientAta feeVault payment ≠ .error (.token .insufficientFunds) := by
  intro herr
  unfold payOut at herr
  split at herr
  · rcases bind_eq_error.mp herr with hs | ⟨⟨fee, net⟩, hsplit, herr⟩
    · revert hs; cases feeSplit payment config.feeBps <;> simp [custom, Except.mapError]
    have hsum := (feeSplit_eq_ok.mp (custom_eq_ok.mp hsplit)).2.2
    simp only [bind_eq_error, okOr_eq_error, require_eq_error, cpi_eq_error, okOr_eq_ok,
      require_eq_ok, cpi_eq_ok, reduceCtorEq, and_false, false_or, exists_and_left, exists_const,
      ProgramError.token.injEq, exists_eq_right] at herr
    obtain ⟨fv, -, -, h₁ | ⟨l₁, h₁, h₂⟩⟩ := herr
    · exact Ledger.transfer_ne_insufficientFunds (by omega) h₁
    · obtain ⟨ht, rfl⟩ := Ledger.transfer_eq_ok.mp h₁
      have hleft := (PaidOut.of_moved ht.moved).vault
      exact Ledger.transfer_ne_insufficientFunds (by omega) h₂
  · simp only [cpi_eq_error, ProgramError.token.injEq, exists_eq_right] at herr
    exact Ledger.transfer_ne_insufficientFunds h herr

/-! ### The instructions that touch a tree -/

/-- The accounts a deposit and a withdraw of a denomination both load. -/
structure Loaded (env : PoolEnv) (s : PoolState) (denomId : UInt8) (config : PoolConfig)
    (denomination : Denomination) (tree : MerkleTree) : Prop where
  config_eq : s.config = some config
  denomination_eq : s.denomination denomId = some denomination
  tree_eq : s.tree denomId = some tree
  vaultAccount : ∃ a, s.ledger.account (env.vault denomId) = some a
  configBump : config.bump = env.bump .config
  bump : denomination.bump = env.bump (.denomination denomId)
  treeBump : tree.bump = env.bump (.tree denomId)
  vaultBump : denomination.vaultBump = env.bump (.vault denomId)
  vault : env.vault denomId = denomination.vault
  unpaused : config.paused = false

/-- What a deposit leaves. -/
def PoolState.deposited (s : PoolState) (denomId : UInt8) (denomination : Denomination)
    (tree : MerkleTree) (ledger : Ledger) : PoolState :=
  { s with
    denomination := Function.update s.denomination denomId (some denomination)
    tree := Function.update s.tree denomId (some tree)
    ledger }

/-- A successful deposit. -/
structure DepositOk (env : PoolEnv) (s : PoolState) (accounts : DepositAccounts env)
    (denomId : UInt8) (commitment : Bytes32) (config : PoolConfig) (denomination : Denomination)
    (tree : MerkleTree) (depositorAta : TokenAccount) (ledger : Ledger) (tree' : MerkleTree)
    (depositCount : UInt64) : Prop extends Loaded env s denomId config denomination tree where
  ata : s.ledger.account accounts.depositorAta = some depositorAta
  mint : depositorAta.mint = denomination.mint
  owner : depositorAta.owner = accounts.depositor.key
  transfer : s.ledger.transfer accounts.depositorAta (env.vault denomId) accounts.depositor.key
    denomination.amountMicroUsdc = .ok ledger
  append : ∃ root, (append env.poseidon commitment).run tree = .ok root tree'
  count : depositCount.toNat = denomination.depositCount.toNat + 1

theorem deposit_eq_ok {s s' : PoolState} {accounts : DepositAccounts env} {denomId : UInt8}
    {commitment : Bytes32} :
    deposit env s accounts denomId commitment = .ok s' ↔
      ∃ config denomination tree depositorAta ledger tree' depositCount,
        DepositOk env s accounts denomId commitment config denomination tree depositorAta ledger
          tree' depositCount ∧
        s' = s.deposited denomId { denomination with depositCount } tree' ledger := by
  unfold deposit
  simp only [bind_eq_ok, initialized_eq_ok, checkSeeds_eq_ok, require_eq_ok, cpi_eq_ok,
    appendTo_eq_ok, okOr_eq_ok, checkedAdd_eq_some, exists_and_left, exists_const,
    Except.ok.injEq]
  refine ⟨?_, ?_⟩
  · rintro ⟨config, hc, denomination, hd, tree, ht, vault, hv, ata, ha, hcb, hdb, htb, hvb, hveq,
      hm, ho, hp, ledger, hl, tree', happ, count, hcount, rfl⟩
    exact ⟨config, denomination, tree, ata, ledger, tree', count,
      ⟨⟨hc, hd, ht, ⟨vault, hv⟩, hcb, hdb, htb, hvb, hveq, hp⟩, ha, hm, ho, hl, happ, hcount⟩, rfl⟩
  · rintro ⟨config, denomination, tree, ata, ledger, tree', count,
      ⟨⟨hc, hd, ht, ⟨vault, hv⟩, hcb, hdb, htb, hvb, hveq, hp⟩, ha, hm, ho, hl, happ, hcount⟩, rfl⟩
    exact ⟨config, hc, denomination, hd, tree, ht, vault, hv, ata, ha, hcb, hdb, htb, hvb, hveq,
      hm, ho, hp, ledger, hl, tree', happ, count, hcount, rfl⟩

/-- What a withdraw leaves. -/
def PoolState.withdrawn (s : PoolState) (denomId : UInt8) (nullifierHash : Bytes32)
    (record : NullifierRecord) (tree : MerkleTree) (ledger : Ledger) : PoolState :=
  { s with
    tree := Function.update s.tree denomId (some tree)
    nullifier := Function.update s.nullifier denomId <|
      Function.update (s.nullifier denomId) nullifierHash (some record)
    ledger }

/-- The record a withdraw creates. -/
def nullifierRecord (env : PoolEnv) (denomId : UInt8) (nullifierHash : Bytes32) (slot : UInt64) :
    NullifierRecord where
  denomId
  nullifierHash
  spentAtSlot := slot
  bump := env.bump (.nullifier denomId nullifierHash)

/-- A withdraw that has passed its checks: all there is before tokens move. -/
structure WithdrawChecked (env : PoolEnv) (s : PoolState) (accounts : WithdrawAccounts env)
    (denomId : UInt8) (nullifierHashArg : Bytes32) (proof : Bytes PROOF_BYTES)
    (publicSignals : Vector Bytes32 PUBLIC_SIGNAL_COUNT) (config : PoolConfig)
    (denomination : Denomination) (tree : MerkleTree) (recipientAta : TokenAccount)
    (payment : UInt64) : Prop extends Loaded env s denomId config denomination tree where
  ata : s.ledger.account accounts.recipientAta = some recipientAta
  unspent : s.nullifier denomId nullifierHashArg = none
  mint : recipientAta.mint = denomination.mint
  feeVault : ∀ key ∈ accounts.feeVault, ∃ a, s.ledger.account key = some a ∧
    a.mint = denomination.mint
  signals : SignalsOk env config denomination tree accounts.recipientAta recipientAta
    nullifierHashArg proof publicSignals
  payment_eq : publicSignals[4].toNat = payment.toNat

theorem loadFeeVault_eq_ok {s : PoolState} {feeVault : Option Pubkey} {o : Option TokenAccount} :
    loadFeeVault s feeVault = .ok o ↔
      (feeVault = none ∧ o = none) ∨
        ∃ key a, feeVault = some key ∧ s.ledger.account key = some a ∧ o = some a := by
  cases feeVault with
  | none => simp [loadFeeVault, eq_comm]
  | some key =>
      cases h : s.ledger.account key with
      | none => simp [loadFeeVault, h, initialized, Functor.map, Except.map]
      | some a => simp [loadFeeVault, h, initialized, Functor.map, Except.map, eq_comm]

/-- The fee vault that was loaded is the one that is named. -/
theorem feeVault_of_loaded {s : PoolState} {feeVault : Option Pubkey} {o : Option TokenAccount}
    {mint : Pubkey} (hload : (feeVault = none ∧ o = none) ∨ ∃ key, feeVault = some key ∧
      ∃ a, s.ledger.account key = some a ∧ o = some a) (hmint : ∀ a ∈ o, a.mint = mint) :
    ∀ key ∈ feeVault, ∃ a, s.ledger.account key = some a ∧ a.mint = mint := by
  rintro key hkey
  rcases hload with ⟨rfl, -⟩ | ⟨key', rfl, a, ha, rfl⟩
  · cases hkey
  · cases hkey
    exact ⟨a, ha, hmint a rfl⟩

/-- **The withdraw**, up to what fails once the checks have passed. -/
theorem withdraw_eq_ok {s s' : PoolState} {slot : UInt64} {accounts : WithdrawAccounts env}
    {denomId : UInt8} {nullifierHashArg : Bytes32} {proof : Bytes PROOF_BYTES}
    {publicSignals : Vector Bytes32 PUBLIC_SIGNAL_COUNT} :
    withdraw env s slot accounts denomId nullifierHashArg proof publicSignals = .ok s' ↔
      ∃ config denomination tree recipientAta payment ledger tree',
        WithdrawChecked env s accounts denomId nullifierHashArg proof publicSignals config
          denomination tree recipientAta payment ∧
        payOut config s.ledger (env.vault denomId) accounts.recipientAta accounts.feeVault payment =
          .ok ledger ∧
        (∃ root, (append env.poseidon publicSignals[5]).run tree = .ok root tree') ∧
        s' = s.withdrawn denomId nullifierHashArg
          (nullifierRecord env denomId nullifierHashArg slot) tree' ledger := by
  refine ⟨?_, ?_⟩
  · intro h
    unfold withdraw at h
    simp only [bind_eq_ok, initialized_eq_ok, loadFeeVault_eq_ok, vacant_eq_ok, checkSeeds_eq_ok,
      require_eq_ok, custom_eq_ok, checkSignals_eq_ok, decodePayment_eq_ok, appendTo_eq_ok,
      exists_and_left, exists_const, Except.ok.injEq] at h
    obtain ⟨config, hc, denomination, hd, tree, ht, vault, hv, ata, ha, fv, hfv, hun, hcb, hdb, htb,
      hvb, hveq, hm, hfm, hp, hs, payment, hpay, ledger, hl, tree', happ, rfl⟩ := h
    refine ⟨config, denomination, tree, ata, payment, ledger, tree',
      ⟨⟨hc, hd, ht, ⟨vault, hv⟩, hcb, hdb, htb, hvb, hveq, hp⟩, ha, hun, hm,
        feeVault_of_loaded hfv hfm, hs, hpay⟩, hl, happ, ?_⟩
    rw [PoolState.withdrawn, nullifierRecord, ← hs.nullifierHash]
  · rintro ⟨config, denomination, tree, ata, payment, ledger, tree',
      ⟨⟨hc, hd, ht, ⟨vault, hv⟩, hcb, hdb, htb, hvb, hveq, hp⟩, ha, hun, hm, hfm, hs, hpay⟩, hl,
      happ, rfl⟩
    obtain ⟨fv, hfv, hfvm⟩ : ∃ fv : Option TokenAccount,
        ((accounts.feeVault = none ∧ fv = none) ∨ ∃ key, accounts.feeVault = some key ∧
          ∃ a, s.ledger.account key = some a ∧ fv = some a) ∧
        ∀ a ∈ fv, a.mint = denomination.mint := by
      cases e : accounts.feeVault with
      | none => exact ⟨none, .inl ⟨rfl, rfl⟩, fun a h => by cases h⟩
      | some key =>
          obtain ⟨a, ha', hma⟩ := hfm key e
          exact ⟨some a, .inr ⟨key, rfl, a, ha', rfl⟩, fun b hb => by cases hb; exact hma⟩
    unfold withdraw
    simp only [bind_eq_ok, initialized_eq_ok, loadFeeVault_eq_ok, vacant_eq_ok, checkSeeds_eq_ok,
      require_eq_ok, custom_eq_ok, checkSignals_eq_ok, decodePayment_eq_ok, appendTo_eq_ok,
      exists_and_left, exists_const, Except.ok.injEq]
    refine ⟨config, hc, denomination, hd, tree, ht, vault, hv, ata, ha, fv, hfv, hun, hcb, hdb, htb,
      hvb, hveq, hm, hfvm, hp, hs, payment, hpay, ledger, hl, tree', happ, ?_⟩
    rw [PoolState.withdrawn, nullifierRecord, ← hs.nullifierHash]

theorem loadFeeVault_ne_token {s : PoolState} {feeVault : Option Pubkey} {e : TokenError} :
    loadFeeVault s feeVault = .error (.token e) ↔ False := by
  cases feeVault with
  | none => simp [loadFeeVault]
  | some key =>
      cases h : s.ledger.account key with
      | none => simp [loadFeeVault, h, initialized, Functor.map, Except.map]
      | some a => simp [loadFeeVault, h, initialized, Functor.map, Except.map]

/-- A withdraw that fails for lack of funds has passed every check and failed in the payment. -/
theorem withdraw_insufficientFunds {s : PoolState} {slot : UInt64}
    {accounts : WithdrawAccounts env} {denomId : UInt8} {nullifierHashArg : Bytes32}
    {proof : Bytes PROOF_BYTES} {publicSignals : Vector Bytes32 PUBLIC_SIGNAL_COUNT}
    (h : withdraw env s slot accounts denomId nullifierHashArg proof publicSignals =
      .error (.token .insufficientFunds)) :
    ∃ config denomination tree recipientAta payment,
      WithdrawChecked env s accounts denomId nullifierHashArg proof publicSignals config
        denomination tree recipientAta payment ∧
      payOut config s.ledger (env.vault denomId) accounts.recipientAta accounts.feeVault payment =
        .error (.token .insufficientFunds) := by
  unfold withdraw at h
  simp only [bind_eq_error, initialized_eq_error, vacant_eq_error, checkSeeds, require_eq_error,
    custom_ne_token, loadFeeVault_ne_token, initialized_eq_ok, loadFeeVault_eq_ok, vacant_eq_ok,
    require_eq_ok, custom_eq_ok, checkSignals_eq_ok, decodePayment_eq_ok, appendTo,
    reduceCtorEq, and_false, false_or, or_false, exists_false, exists_and_left, exists_const] at h
  obtain ⟨config, hc, denomination, hd, tree, ht, vault, hv, ata, ha, fv, hfv, hun, hcb, hdb, htb,
    hvb, hveq, hm, hfm, hp, hs, payment, hpay, hout⟩ := h
  exact ⟨config, denomination, tree, ata, payment,
    ⟨⟨hc, hd, ht, ⟨vault, hv⟩, hcb, hdb, htb, hvb, hveq, hp⟩, ha, hun, hm,
      feeVault_of_loaded hfv hfm, hs, hpay⟩, hout⟩

/-! ### Setting up and administration -/

/-- The account a denomination starts as. -/
def newDenomination (env : PoolEnv) (mint : Pubkey) (denomId : UInt8) (amountMicroUsdc : UInt64) :
    Denomination where
  denomId
  amountMicroUsdc
  depositCount := 0
  vault := env.vault denomId
  mint
  vaultBump := env.bump (.vault denomId)
  bump := env.bump (.denomination denomId)

theorem initializeDenomination_eq_ok {s s' : PoolState} {admin : PoolSigner env} {mint : Pubkey}
    {denomId : UInt8} {amountMicroUsdc : UInt64} :
    initializeDenomination env s admin mint denomId amountMicroUsdc = .ok s' ↔
      ∃ config tree, s.config = some config ∧ (∃ n, s.ledger.supply mint = some n) ∧
        s.denomination denomId = none ∧ s.tree denomId = none ∧
        s.ledger.account (env.vault denomId) = none ∧ config.bump = env.bump .config ∧
        config.admin = admin.key ∧
        initializeTree env.poseidon denomId (env.bump (.tree denomId)) = .ok tree ∧
        s' = s.deposited denomId (newDenomination env mint denomId amountMicroUsdc) tree
          (s.ledger.openAccount (env.vault denomId) mint (env.vault denomId)) := by
  refine ⟨?_, ?_⟩
  · intro h
    unfold initializeDenomination at h
    simp only [bind_eq_ok, initialized_eq_ok, vacant_eq_ok, checkAdmin_eq_ok, custom_eq_ok,
      exists_and_left, exists_const, Except.ok.injEq] at h
    obtain ⟨config, hc, n, hm, hd, ht, hv, ⟨hb, ha⟩, tree, htree, rfl⟩ := h
    exact ⟨config, tree, hc, ⟨n, hm⟩, hd, ht, hv, hb, ha, htree, rfl⟩
  · rintro ⟨config, tree, hc, ⟨n, hm⟩, hd, ht, hv, hb, ha, htree, rfl⟩
    unfold initializeDenomination
    simp only [bind_eq_ok, initialized_eq_ok, vacant_eq_ok, checkAdmin_eq_ok, custom_eq_ok,
      exists_and_left, exists_const, Except.ok.injEq]
    exact ⟨config, hc, n, hm, hd, ht, hv, ⟨hb, ha⟩, tree, htree, rfl⟩

/-- The instructions that write the configuration and nothing else. -/
def Call.IsConfig : Call env → Prop
  | .initializeDenomination .. | .deposit .. | .withdraw .. => False
  | _ => True

/-- **The other five** leave everything but the configuration, and none sets a fee above all of a
payment. -/
theorem exec_config {s s' : PoolState} {slot : UInt64} {c : Call env}
    (h : exec env s slot c = .ok s') (hc : c.IsConfig) :
    ∃ config, config.bump = env.bump .config ∧
      ((∀ old, s.config = some old → old.feeBps ≤ 10000) → config.feeBps ≤ 10000) ∧
      s' = { s with config := some config } := by
  cases c with
  | initializePool admin feeBps =>
      simp only [exec, initializePool, bind_eq_ok, vacant_eq_ok, require_eq_ok, exists_and_left,
        exists_const, Except.ok.injEq] at h
      obtain ⟨-, hfee, rfl⟩ := h
      exact ⟨_, rfl, fun _ => hfee, rfl⟩
  | setPaused admin paused =>
      simp only [exec, setPaused, bind_eq_ok, initialized_eq_ok, checkAdmin_eq_ok, exists_const,
        Except.ok.injEq] at h
      obtain ⟨config, hold, ⟨hb, -⟩, rfl⟩ := h
      refine ⟨_, ?_, ?_, rfl⟩
      · exact hb
      · exact fun hfee => hfee config hold
  | queueVkUpgrade admin newVkHash =>
      simp only [exec, queueVkUpgrade, bind_eq_ok, initialized_eq_ok, checkAdmin_eq_ok, okOr_eq_ok,
        exists_and_left, exists_const, Except.ok.injEq] at h
      obtain ⟨config, hold, ⟨hb, -⟩, _, -, rfl⟩ := h
      refine ⟨_, ?_, ?_, rfl⟩
      · exact hb
      · exact fun hfee => hfee config hold
  | applyVkUpgrade admin =>
      simp only [exec, applyVkUpgrade, bind_eq_ok, initialized_eq_ok, checkAdmin_eq_ok,
        require_eq_ok, exists_and_left, exists_const, Except.ok.injEq] at h
      obtain ⟨config, hold, ⟨hb, -⟩, -, -, rfl⟩ := h
      refine ⟨_, ?_, ?_, rfl⟩
      · exact hb
      · exact fun hfee => hfee config hold
  | setFeeVault admin feeVault =>
      simp only [exec, setFeeVault, bind_eq_ok, initialized_eq_ok, checkAdmin_eq_ok,
        exists_and_left, exists_const, Except.ok.injEq] at h
      obtain ⟨config, hold, _, -, ⟨hb, -⟩, rfl⟩ := h
      refine ⟨_, ?_, ?_, rfl⟩
      · exact hb
      · exact fun hfee => hfee config hold
  | initializeDenomination | deposit | withdraw => exact hc.elim

end Qietr.Pool
