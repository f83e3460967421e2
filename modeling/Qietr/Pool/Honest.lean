import Qietr.Pool.Groth16
import Qietr.Pool.Runs
import Qietr.Sdk.Payment

/-!
# Pool — honest calls

What the program lets its users do: a deposit into a tree with room, and a withdraw from a note
whose leaf is in the tree.

* `Open`: an initialised denomination, not paused, whose verifying key is the embedded one.
* `exists_open`: a new one is.
* `payOut_ok`: a vault that holds a payment pays it.
* `Open.deposit_ok`, `Open.withdraw_ok`: the calls succeed.
* `Open.deposits_run`: any number of deposits, one after the other.
-/

namespace Qietr.Pool

open Outcome HashTree Circuit

variable {env : PoolEnv}

/-! ### The signals -/

theorem fieldFromU64_eq_encode (v : UInt64) : fieldFromU64 v = encode (v.toNat : F) := by
  refine Bytes.toNat_inj.mp ?_
  rw [toNat_fieldFromU64, toNat_encode, val_natCast (v.toNat_lt.trans two_pow_64_lt_r)]

/-- A key without its top three bits is a field element. -/
theorem canonical_pubkeyToField (pk : Pubkey) : Canonical (pubkeyToField pk) := by
  have hlist : (pubkeyToField pk).toList = (pk[0] &&& 0x1f) :: pk.toList.tail := by
    rw [pubkeyToField, Vector.toList_set]
    cases h : pk.toList with
    | nil => simpa using congrArg List.length h
    | cons b bs => rfl
  have hmask : (pk[0] &&& 0x1f).toNat ≤ 31 := by
    rw [UInt8.toNat_and]
    exact Nat.and_le_right
  have htail := beNat_lt pk.toList.tail
  rw [List.length_tail, Vector.length_toList] at htail
  have hsplit := beNat_append [pk[0] &&& 0x1f] pk.toList.tail
  rw [List.length_tail, Vector.length_toList, List.singleton_append] at hsplit
  have hone : beNat [pk[0] &&& 0x1f] = (pk[0] &&& 0x1f).toNat := by simp [beNat]
  have hle : (pk[0] &&& 0x1f).toNat * 256 ^ 31 ≤ 31 * 256 ^ 31 := Nat.mul_le_mul_right _ hmask
  have hbound : 31 * 256 ^ 31 + 256 ^ 31 < r := by norm_num [r]
  rw [Canonical, Bytes.toNat, hlist, hsplit, hone]
  exact (Nat.add_lt_add_of_le_of_lt hle htail).trans hbound

/-- The program's form of a recipient is the SDK's. -/
theorem pubkeyToField_eq_sdk (pk : Pubkey) : Sdk.pubkeyToField pk = pubkeyToField pk := rfl

theorem encode_pubkeyToFieldString (pk : Pubkey) :
    encode (Sdk.pubkeyToFieldString pk : F) = pubkeyToField pk := by
  rw [Sdk.pubkeyToFieldString_eq, pubkeyToField_eq_sdk, ← decode,
    encode_decode (canonical_pubkeyToField pk)]

/-- The signals the SDK submits to pay from the note `c` against `root`. -/
def honestSignals (P : Poseidon) (c : Sdk.Commitment) (root : F) (pay : Sdk.Payment) :
    Vector Bytes32 PUBLIC_SIGNAL_COUNT :=
  Sdk.proveGroth16 (Sdk.buildWitness P c root pay)

/-- The nullifier account of a note. -/
def nullifierHashOf (P : Poseidon) (c : Sdk.Commitment) : Bytes32 :=
  encode (Sdk.poseidonNullifierHash P c.nullifier)

theorem canonical_proveGroth16 (pub : PublicSignals) (i : Fin PUBLIC_SIGNAL_COUNT) :
    Canonical (Sdk.proveGroth16 pub)[i] := by
  fin_cases i <;> exact canonical_encode _

@[simp] theorem publicOf_proveGroth16 (pub : PublicSignals) :
    publicOf (Sdk.proveGroth16 pub) = pub := by
  simp [publicOf, Sdk.proveGroth16]

@[simp] theorem honestSignals_payment (P : Poseidon) (c : Sdk.Commitment) (root : F)
    (pay : Sdk.Payment) : (honestSignals P c root pay)[4].toNat = pay.paymentAmount.toNat := by
  show (encode (pay.paymentAmount.toNat : F)).toNat = _
  rw [← fieldFromU64_eq_encode, toNat_fieldFromU64]

@[simp] theorem honestSignals_change (P : Poseidon) (c : Sdk.Commitment) (root : F)
    (pay : Sdk.Payment) : (honestSignals P c root pay)[5] = encode (Sdk.changeOf P c pay) := rfl

/-- A complete verifier accepts a proof of an honest payment. -/
theorem exists_honest_proof (hcomplete : Groth16Complete env) {c : Sdk.Commitment}
    {pay : Sdk.Payment} {ls : List F} {i : ℕ}
    (hleaf : ls[i]? = some (Sdk.commitmentHash env.poseidon c))
    (hlen : ls.length ≤ 2 ^ MERKLE_DEPTH)
    (hpos : 1 ≤ pay.paymentAmount.toNat) (hle : pay.paymentAmount.toNat ≤ c.amount.toNat) :
    ∃ proof, env.groth16 proof
      (honestSignals env.poseidon c (fullRoot env.poseidon ls) pay) = true := by
  obtain ⟨hlt, -⟩ := List.getElem?_eq_some_iff.mp hleaf
  have hstatement := Sdk.buildWitness_statement hleaf (hlt.trans_le hlen) hpos hle
  refine hcomplete _ (canonical_proveGroth16 _) ?_
  rw [honestSignals, publicOf_proveGroth16]
  exact exists_witness_iff.mpr hstatement

/-! ### Out of the vault -/

/-- The fee vault account a withdraw must name. -/
def feeVaultArg (config : PoolConfig) : Option Pubkey :=
  if config.feeVault = Pubkey.default then none else some config.feeVault

/-- The fee of a payment can be taken: there is none, or the product fits and the fee vault is
there. -/
structure FeePayable (config : PoolConfig) (l : Ledger) (mint : Pubkey) (payment : UInt64) :
    Prop where
  product : payment.toNat * config.feeBps.toNat < 2 ^ 64
  account : ∃ a, l.account config.feeVault = some a ∧ a.mint = mint

theorem feeSplit_ok {payment : UInt64} {bps : UInt16} (hbps : bps ≤ 10000)
    (hlt : payment.toNat * bps.toNat < 2 ^ 64) : ∃ fee net,
      feeSplit payment bps = .ok (fee, net) := by
  have hbps' : bps.toNat ≤ 10000 := UInt16.le_iff_toNat_le.mp hbps
  have hfee : payment.toNat * bps.toNat / 10000 ≤ payment.toNat := by
    refine Nat.div_le_of_le_mul ?_
    rw [Nat.mul_comm 10000]
    exact Nat.mul_le_mul_left _ hbps'
  have hp : payment.toNat < UInt64.size := payment.toNat_lt
  refine ⟨UInt64.ofNat (payment.toNat * bps.toNat / 10000),
    UInt64.ofNat (payment.toNat - payment.toNat * bps.toNat / 10000), feeSplit_eq_ok.mpr ?_⟩
  rw [UInt64.toNat_ofNat_of_lt' (by omega), UInt64.toNat_ofNat_of_lt' (by omega)]
  exact ⟨hlt, rfl, Nat.add_sub_cancel' hfee⟩

/-- **A vault that holds the payment pays it.** -/
theorem payOut_ok {config : PoolConfig} {l : Ledger} {vault recipientAta : Pubkey}
    {payment : UInt64} {v a : TokenAccount} (hv : l.account vault = some v) (ho : v.owner = vault)
    (ha : l.account recipientAta = some a) (hm : a.mint = v.mint)
    (hle : payment.toNat ≤ v.amount.toNat) (hbps : config.feeBps ≤ 10000)
    (hfee : config.feeVault ≠ Pubkey.default → FeePayable config l v.mint payment) :
    ∃ l', payOut config l vault recipientAta (feeVaultArg config) payment = .ok l' := by
  by_cases hnone : config.feeVault = Pubkey.default
  · refine ⟨_, payOut_eq_ok.mpr (.inl ⟨hnone, Ledger.transfer_eq_ok.mpr ⟨?_, rfl⟩⟩)⟩
    exact ⟨v, a, hv, ha, hle, hm.symm, ho⟩
  · obtain ⟨hproduct, f, hf, hfm⟩ := hfee hnone
    obtain ⟨fee, net, hsplit⟩ := feeSplit_ok hbps hproduct
    have hsum := (feeSplit_eq_ok.mp hsplit).2.2
    have ht₁ : l.Transferable vault recipientAta vault net :=
      ⟨v, a, hv, ha, by omega, hm.symm, ho⟩
    -- what is left in the vault covers the fee
    obtain ⟨v', hv', hvm, hvo⟩ := ht₁.moved.account_some hv
    obtain ⟨f', hf', hfm', -⟩ := ht₁.moved.account_some hf
    have hleft := (PaidOut.of_moved ht₁.moved).vault
    rw [Ledger.balance_eq hv, Ledger.balance_eq hv'] at hleft
    have ht₂ : (l.move vault recipientAta net).Transferable vault config.feeVault vault fee :=
      ⟨v', f', hv', hf', by omega, hvm.trans (hfm.symm.trans hfm'.symm), hvo.trans ho⟩
    exact ⟨_, payOut_eq_ok.mpr (.inr ⟨hnone, fee, net, _, hsplit, if_neg hnone,
      Ledger.transfer_eq_ok.mpr ⟨ht₁, rfl⟩, Ledger.transfer_eq_ok.mpr ⟨ht₂, rfl⟩⟩)⟩

/-! ### An open denomination -/

/-- An initialised denomination, not paused, whose verifying key is the embedded one. -/
structure Open (env : PoolEnv) (s : PoolState) (d : UInt8) (h : List Entry) (config : PoolConfig)
    (denomination : Denomination) (tree : MerkleTree) : Prop
    extends Held env s d h denomination tree where
  config_eq : s.config = some config
  configBump : config.bump = env.bump .config
  feeBps : config.feeBps ≤ 10000
  unpaused : config.paused = false
  vkHash : env.embeddedVkHash = config.verifyingKeyHash

/-- In a run it is enough to look at the configuration. -/
theorem open_of_run {log : List (Action env)} {s : PoolState} (hrun : PoolRun env log s)
    {d : UInt8} {config : PoolConfig} {denomination : Denomination} (hc : s.config = some config)
    (hp : config.paused = false) (hvk : env.embeddedVkHash = config.verifyingKeyHash)
    (hd : s.denomination d = some denomination) :
    ∃ tree, Open env s d (history d log) config denomination tree := by
  have hinv := poolInv_of_run hrun
  obtain ⟨tree, hh⟩ := hinv.held hd
  obtain ⟨hb, hfee⟩ := hinv.config config hc
  exact ⟨tree, { hh with
    config_eq := hc
    configBump := hb
    feeBps := hfee
    unpaused := hp
    vkHash := hvk }⟩

/-- The calls that set up a denomination. -/
def launchLog (admin : PoolSigner env) (feeBps : UInt16) (mint : Pubkey) (d : UInt8)
    (amount : UInt64) : List (Action env) :=
  [.call 0 (.initializePool admin feeBps), .call 0 (.initializeDenomination admin mint d amount)]

/-- **A new denomination is open**, and takes no fee. -/
theorem exists_open {s : PoolState} (hinitial : Initial s) (admin : PoolSigner env)
    (feeBps : UInt16) (hfee : feeBps ≤ 10000) {mint : Pubkey}
    (hmint : ∃ n, s.ledger.supply mint = some n) {d : UInt8}
    (hvault : s.ledger.account (env.vault d) = none) (amount : UInt64) :
    ∃ config tree s', PoolRun env (launchLog admin feeBps mint d amount) s' ∧
      Open env s' d [] config (newDenomination env mint d amount) tree ∧
      config.feeVault = Pubkey.default ∧ config.feeBps = feeBps ∧ config.admin = admin.key ∧
      s'.nullifier = s.nullifier ∧
      s'.ledger = s.ledger.openAccount (env.vault d) mint (env.vault d) := by
  obtain ⟨config, h₁, hnoFee, hbps, hpaused, hvk, hadmin, hbump⟩ : ∃ config,
      initializePool env s admin feeBps = .ok { s with config := some config } ∧
      config.feeVault = Pubkey.default ∧ config.feeBps = feeBps ∧ config.paused = false ∧
      env.embeddedVkHash = config.verifyingKeyHash ∧ config.admin = admin.key ∧
      config.bump = env.bump .config := by
    have hvacant : (vacant s.config : Except PoolError Unit) = .ok () :=
      vacant_eq_ok.mpr hinitial.config
    exact ⟨_, by rw [initializePool, hvacant]; exact require_bind_eq_ok.mpr ⟨hfee, rfl⟩,
      rfl, rfl, rfl, rfl, rfl, rfl⟩
  obtain ⟨tree, htree, -⟩ := initializeTree_ok env.poseidon d (env.bump (.tree d))
  obtain ⟨s', h₂, hs'⟩ : ∃ s',
    initializeDenomination env { s with config := some config } admin mint
      d amount = .ok s' ∧ s' = PoolState.deposited { s with config := some config } d
        (newDenomination env mint d amount) tree
        (s.ledger.openAccount (env.vault d) mint (env.vault d)) :=
    ⟨_, initializeDenomination_eq_ok.mpr ⟨config, tree, rfl, hmint, hinitial.denomination d,
      hinitial.tree d, hvault, hbump, hadmin, htree, rfl⟩, rfl⟩
  have hstep₁ : Step env s (.call 0 (.initializePool admin feeBps))
      { s with config := some config } := .call h₁
  have hstep₂ : Step env { s with config := some config }
      (.call 0 (.initializeDenomination admin mint d amount)) s' := .call h₂
  have hrun : PoolRun env (launchLog admin feeBps mint d amount) s' :=
    ((Run.start hinitial).snoc hstep₁).snoc hstep₂
  have hconfig : s'.config = some config := by rw [hs']; rfl
  have hden : s'.denomination d = some (newDenomination env mint d amount) := by
    rw [hs']
    exact Function.update_self ..
  obtain ⟨tree', ho⟩ := open_of_run hrun hconfig hpaused hvk hden
  exact ⟨config, tree', s', hrun, ho, hnoFee, hbps, hadmin, by rw [hs']; rfl, by rw [hs']; rfl⟩

variable {s : PoolState} {d : UInt8} {h : List Entry} {config : PoolConfig}
  {denomination : Denomination} {tree : MerkleTree}

theorem Open.loaded (ho : Open env s d h config denomination tree) :
    Loaded env s d config denomination tree where
  config_eq := ho.config_eq
  denomination_eq := ho.denomination_eq
  tree_eq := ho.tree_eq
  vaultAccount := ho.vaultAccount.imp fun _ ha => ha.1
  configBump := ho.configBump
  bump := ho.bump
  treeBump := ho.treeBump
  vaultBump := ho.vaultBump
  vault := ho.vault.symm
  unpaused := ho.unpaused

/-- The newest root of a tree is known, unless it is the zero string. -/
theorem isKnownRoot_newest {P : Poseidon} {t : MerkleTree} {ls : List F} (ht : Tracks P t ls)
    (hne : ls ≠ []) (hroot : fullRoot P ls ≠ 0) : t.isKnownRoot (encode (fullRoot P ls)) =
      true := by
  refine (ht.isKnownRoot_iff _).mpr ⟨fun e => hroot ?_, ?_⟩
  · rw [← encode_zero, encode_inj] at e
    exact e
  · obtain ⟨ls', x, rfl⟩ := (List.eq_nil_or_concat' ls).resolve_left hne
    have hwindow : 1 ≤ ROOT_HISTORY_LEN := by decide
    rw [roots_snoc, List.length_append, List.length_singleton,
      List.drop_append_of_le_length (by omega)]
    exact List.mem_append_right _ (List.mem_singleton_self _)

/-! ### Withdraw -/

/-- What the holder of the note `c` needs to make the payment `pay` from it. -/
structure Payable (env : PoolEnv) (s : PoolState) (d : UInt8) (h : List Entry)
    (config : PoolConfig) (denomination : Denomination) (c : Sdk.Commitment) (pay : Sdk.Payment) :
    Prop where
  amount : c.amount = denomination.amountMicroUsdc
  leaf : ∃ i : ℕ, (leaves h)[i]? = some (Sdk.commitmentHash env.poseidon c)
  unspent : s.nullifier d (nullifierHashOf env.poseidon c) = none
  pos : 1 ≤ pay.paymentAmount.toNat
  le : pay.paymentAmount.toNat ≤ c.amount.toNat
  recipient : ∃ a, s.ledger.account (env.associatedTokenAddress pay.recipient denomination.mint) =
    some a ∧ a.mint = denomination.mint ∧ a.owner = pay.recipient
  fee : config.feeVault ≠ Pubkey.default →
    FeePayable config s.ledger denomination.mint pay.paymentAmount

/-- The accounts of an honest withdraw. -/
def honestAccounts (env : PoolEnv) (config : PoolConfig) (denomination : Denomination)
    (feePayer : PoolSigner env) (recipient : Pubkey) : WithdrawAccounts env where
  recipientAta := env.associatedTokenAddress recipient denomination.mint
  feeVault := feeVaultArg config
  feePayer

/-- An honest withdraw against a known root passes its checks. -/
theorem Open.withdrawChecked_known (ho : Open env s d h config denomination tree)
    {c : Sdk.Commitment} {pay : Sdk.Payment}
    (hpay : Payable env s d h config denomination c pay) {root : F}
    (hroot : tree.isKnownRoot (encode root) = true) (feePayer : PoolSigner env)
    {proof : Bytes PROOF_BYTES} (hproof : env.groth16 proof
      (honestSignals env.poseidon c root pay) = true) :
    ∃ a, WithdrawChecked env s (honestAccounts env config denomination feePayer pay.recipient) d
      (nullifierHashOf env.poseidon c) proof (honestSignals env.poseidon c root pay) config
      denomination tree a pay.paymentAmount := by
  obtain ⟨a, ha, ham, hao⟩ := hpay.recipient
  refine ⟨a, { ho.loaded with
    ata := ha
    unspent := hpay.unspent
    mint := ham
    feeVault := ?_
    signals := ?_
    payment_eq := ?_ }⟩
  · intro key hkey
    by_cases e : config.feeVault = Pubkey.default
    · simp [honestAccounts, feeVaultArg, e] at hkey
    · obtain rfl : config.feeVault = key := by simpa [honestAccounts, feeVaultArg, e] using hkey
      exact (hpay.fee e).account
  · exact
      { nullifierHash := rfl
        recipient := by
          rw [hao]
          exact encode_pubkeyToFieldString pay.recipient
        canonicalAta := by rw [hao]; rfl
        root := hroot
        amount := by
          rw [← hpay.amount, fieldFromU64_eq_encode]
          rfl
        vkHash := ho.vkHash
        proof := hproof }
  · exact honestSignals_payment ..

/-- One against the newest does. -/
theorem Open.withdrawChecked (ho : Open env s d h config denomination tree)
    {c : Sdk.Commitment} {pay : Sdk.Payment}
    (hpay : Payable env s d h config denomination c pay)
    (hroot : fullRoot env.poseidon (leaves h) ≠ 0) (feePayer : PoolSigner env)
    {proof : Bytes PROOF_BYTES} (hproof : env.groth16 proof
      (honestSignals env.poseidon c (fullRoot env.poseidon (leaves h)) pay) = true) :
    ∃ a, WithdrawChecked env s (honestAccounts env config denomination feePayer pay.recipient) d
      (nullifierHashOf env.poseidon c) proof
      (honestSignals env.poseidon c (fullRoot env.poseidon (leaves h)) pay) config denomination tree
      a pay.paymentAmount := by
  obtain ⟨i, hleaf⟩ := hpay.leaf
  have hne : leaves h ≠ [] := by
    rintro e
    rw [e] at hleaf
    simp at hleaf
  exact ho.withdrawChecked_known hpay (isKnownRoot_newest ho.tracks hne hroot) feePayer hproof

/-- **A withdraw that passes its checks succeeds** when the tree has room and the vault the
funds. -/
theorem Open.withdraw_of_checked (ho : Open env s d h config denomination tree)
    {c : Sdk.Commitment} {pay : Sdk.Payment}
    (hpay : Payable env s d h config denomination c pay) {root : F} {feePayer : PoolSigner env}
    {proof : Bytes PROOF_BYTES} {a : TokenAccount}
    (hok : WithdrawChecked env s (honestAccounts env config denomination feePayer pay.recipient) d
      (nullifierHashOf env.poseidon c) proof (honestSignals env.poseidon c root pay) config
      denomination tree a pay.paymentAmount)
    (hroom : h.length < 2 ^ MERKLE_DEPTH)
    (hfunds : pay.paymentAmount.toNat ≤ s.ledger.balance (env.vault d)) (slot : UInt64) :
    ∃ s', withdraw env s slot (honestAccounts env config denomination feePayer pay.recipient) d
      (nullifierHashOf env.poseidon c) proof (honestSignals env.poseidon c root pay) = .ok s' := by
  obtain ⟨v, hv, hvm, hvo⟩ := ho.vaultAccount
  rw [Ledger.balance_eq hv] at hfunds
  obtain ⟨ledger, hledger⟩ := payOut_ok hv hvo hok.ata (hok.mint.trans hvm.symm) hfunds ho.feeBps
    (hvm ▸ hpay.fee)
  obtain ⟨tree', htree, -⟩ := append_ok ho.tracks (by rwa [leaves_length])
    (Sdk.changeOf env.poseidon c pay)
  exact ⟨_, withdraw_eq_ok.mpr ⟨_, _, _, _, _, _, _, hok, hledger, ⟨_, htree⟩, rfl⟩⟩

/-- **An honest withdraw succeeds** when the tree has room and the vault the funds. -/
theorem Open.withdraw_ok (ho : Open env s d h config denomination tree)
    {c : Sdk.Commitment} {pay : Sdk.Payment}
    (hpay : Payable env s d h config denomination c pay)
    (hroot : fullRoot env.poseidon (leaves h) ≠ 0) (feePayer : PoolSigner env)
    {proof : Bytes PROOF_BYTES} (hproof : env.groth16 proof
      (honestSignals env.poseidon c (fullRoot env.poseidon (leaves h)) pay) = true)
    (hroom : h.length < 2 ^ MERKLE_DEPTH)
    (hfunds : pay.paymentAmount.toNat ≤ s.ledger.balance (env.vault d)) (slot : UInt64) :
    ∃ s', withdraw env s slot (honestAccounts env config denomination feePayer pay.recipient) d
      (nullifierHashOf env.poseidon c) proof
      (honestSignals env.poseidon c (fullRoot env.poseidon (leaves h)) pay) = .ok s' := by
  obtain ⟨a, hok⟩ := ho.withdrawChecked hpay hroot feePayer hproof
  exact ho.withdraw_of_checked hpay hok hroom hfunds slot

/-! ### Deposit -/

/-- **A deposit succeeds** when the tree has room and the depositor the funds. -/
theorem Open.deposit_ok (ho : Open env s d h config denomination tree)
    {accounts : DepositAccounts env} {ata : TokenAccount}
    (hata : s.ledger.account accounts.depositorAta = some ata)
    (hm : ata.mint = denomination.mint) (howner : ata.owner = accounts.depositor.key)
    (hfunds : denomination.amountMicroUsdc.toNat ≤ ata.amount.toNat)
    (hroom : h.length < 2 ^ MERKLE_DEPTH) (x : F) :
    ∃ denomination' tree' s', deposit env s accounts d (encode x) = .ok s' ∧
      Open env s' d (h ++ [.deposit (encode x)]) config denomination' tree' ∧
      denomination'.mint = denomination.mint ∧
      denomination'.amountMicroUsdc = denomination.amountMicroUsdc ∧
      s'.nullifier = s.nullifier ∧
      Ledger.Moved s.ledger s'.ledger accounts.depositorAta (env.vault d)
        denomination.amountMicroUsdc := by
  obtain ⟨v, hv, hvm, hvo⟩ := ho.vaultAccount
  have ht : s.ledger.Transferable accounts.depositorAta (env.vault d) accounts.depositor.key
      denomination.amountMicroUsdc := ⟨ata, v, hata, hv, hfunds, hm.trans hvm.symm, howner⟩
  obtain ⟨tree', htree, -⟩ := append_ok ho.tracks (by rwa [leaves_length]) x
  have hcount : denomination.depositCount.toNat + 1 < 2 ^ 64 := by
    have hle : deposits h ≤ h.length := List.countP_le_length
    have hcap : 2 ^ MERKLE_DEPTH < 2 ^ 64 - 1 := by decide
    rw [ho.count]
    omega
  have hok : DepositOk env s accounts d (encode x) config denomination tree ata
      (s.ledger.move accounts.depositorAta (env.vault d) denomination.amountMicroUsdc) tree'
      (denomination.depositCount + 1) :=
    { ho.loaded with
      ata := hata
      mint := hm
      owner := howner
      transfer := Ledger.transfer_eq_ok.mpr ⟨ht, rfl⟩
      append := ⟨_, htree⟩
      count := by rw [UInt64.toNat_add, UInt64.toNat_one, Nat.mod_eq_of_lt hcount] }
  refine ⟨_, tree', _, deposit_eq_ok.mpr ⟨_, _, _, _, _, _, _, hok, rfl⟩,
    { ho.toHeld.deposit hok with
      config_eq := ho.config_eq
      configBump := ho.configBump
      feeBps := ho.feeBps
      unpaused := ho.unpaused
      vkHash := ho.vkHash }, rfl, rfl, rfl, ht.moved⟩

/-- Deposits of the leaves `xs`, one after the other. -/
def depositLog (slot : UInt64) (accounts : DepositAccounts env) (d : UInt8) (xs : List F) :
    List (Action env) :=
  xs.map fun x => .call slot (.deposit accounts d (encode x))

/-- What they append. -/
def depositEntries (xs : List F) : List Entry :=
  xs.map fun x => .deposit (encode x)

@[simp] theorem leaves_depositEntries (xs : List F) : leaves (depositEntries xs) = xs := by
  rw [leaves, depositEntries, List.map_map]
  exact List.map_id'' (fun x => decode_encode x) xs

theorem history_launchLog (admin : PoolSigner env) (feeBps : UInt16) (mint : Pubkey) (d : UInt8)
    (amount : UInt64) : history d (launchLog admin feeBps mint d amount) = [] := rfl

theorem history_depositLog (slot : UInt64) (accounts : DepositAccounts env) (d : UInt8)
    (xs : List F) : history d (depositLog slot accounts d xs) = depositEntries xs := by
  induction xs with
  | nil => rfl
  | cons x xs ih =>
      rw [depositLog, List.map_cons, history, List.filterMap_cons_some entry_deposit,
        depositEntries, List.map_cons]
      exact congrArg _ ih

/-- What deposits leave besides their leaves. -/
structure Kin (denomination denomination' : Denomination) (s s' : PoolState) : Prop where
  mint : denomination'.mint = denomination.mint
  amount : denomination'.amountMicroUsdc = denomination.amountMicroUsdc
  nullifier : s'.nullifier = s.nullifier
  accounts : ∀ k a, s.ledger.account k = some a →
    ∃ a', s'.ledger.account k = some a' ∧ a'.mint = a.mint ∧ a'.owner = a.owner

/-- **Any number of deposits** goes through, while the depositor has the funds and the tree the
room. -/
theorem Open.deposits_run {log : List (Action env)} (hrun : PoolRun env log s)
    (ho : Open env s d h config denomination tree) (slot : UInt64)
    (accounts : DepositAccounts env) {ata : TokenAccount}
    (hata : s.ledger.account accounts.depositorAta = some ata)
    (hm : ata.mint = denomination.mint) (howner : ata.owner = accounts.depositor.key)
    (xs : List F) (hfunds : denomination.amountMicroUsdc.toNat * xs.length ≤ ata.amount.toNat)
    (hroom : h.length + xs.length ≤ 2 ^ MERKLE_DEPTH) :
    ∃ denomination' tree' s', PoolRun env (log ++ depositLog slot accounts d xs) s' ∧
      Open env s' d (h ++ depositEntries xs) config denomination' tree' ∧
      Kin denomination denomination' s s' := by
  induction xs generalizing log s h denomination tree ata with
  | nil =>
      refine ⟨denomination, tree, s, ?_, ?_, rfl, rfl, rfl, fun _ a ha => ⟨a, ha, rfl, rfl⟩⟩
      · simpa [depositLog] using hrun
      · simpa [depositEntries] using ho
  | cons x xs ih =>
      rw [List.length_cons, Nat.mul_succ] at hfunds
      rw [List.length_cons] at hroom
      obtain ⟨den₁, tree₁, s₁, hdep, ho₁, hm₁, ha₁, hn₁, hmoved⟩ :=
        ho.deposit_ok hata hm howner (by omega) (by omega) x
      obtain ⟨ata₁, hata₁, hm', howner'⟩ := hmoved.account_some hata
      have hleft := (PaidOut.of_moved hmoved).vault
      rw [Ledger.balance_eq hata, Ledger.balance_eq hata₁] at hleft
      have hstep : Step env s (.call slot (.deposit accounts d (encode x))) s₁ := .call hdep
      obtain ⟨den₂, tree₂, s₂, hrun₂, ho₂, hkin⟩ :=
        ih (hrun.snoc hstep) ho₁ hata₁
          (hm'.trans (hm.trans hm₁.symm)) (howner'.trans howner) (by rw [ha₁]; omega)
          (by rw [List.length_append, List.length_singleton]; omega)
      rw [List.append_assoc] at hrun₂ ho₂
      refine ⟨den₂, tree₂, s₂, hrun₂, ho₂, hkin.mint.trans hm₁, hkin.amount.trans ha₁,
        hkin.nullifier.trans hn₁, fun k a ha => ?_⟩
      obtain ⟨a₁, hka₁, hma₁, hoa₁⟩ := hmoved.account_some ha
      obtain ⟨a₂, hka₂, hma₂, hoa₂⟩ := hkin.accounts k a₁ hka₁
      exact ⟨a₂, hka₂, hma₂.trans hma₁, hoa₂.trans hoa₁⟩

end Qietr.Pool
