import Mathlib.Data.UInt
import Qietr.Pool.Honest

/-!
# Pool — a deployment

The program with a verifier that accepts exactly what has a witness, and runs of it from before its
first instruction.  It is what the assumptions on the verifier are satisfiable by, for any hash.

* `ideal P`: the deployment; `ideal_sound`, `ideal_complete`: its verifier.
* `Launched`: the state of a denomination of it after some deposits; `exists_launched`: there is one
  for any leaves, up to a full tree.
* `offZero`: a hash whose trees have no zero root.
-/

namespace Qietr.Pool

open Outcome HashTree Circuit

/-! ### The verifier -/

instance {depth : ℕ} : Nonempty (Witness depth) :=
  ⟨{ secret := 0, nullifier := 0, newSecret := 0, newNullifier := 0
     pathElements := 0, pathIndices := 0, commitment := 0
     tree := { currentHash := 0, left := 0, right := 0 }
     amountBits := 0, paymentIsZeroInv := 0, paymentIsZeroOut := 0
     paymentBits := 0, paymentLEBits := 0, paymentLEOut := 0, change := 0, recipientBound := 0 }⟩

/-- The addresses, past those of keys. -/
def addressCode : PoolSeed → ℕ
  | .config => 0
  | .denomination denomId => 256 + denomId.toNat
  | .tree denomId => 512 + denomId.toNat
  | .vault denomId => 768 + denomId.toNat
  | .nullifier denomId _ => 1024 + denomId.toNat

theorem addressCode_lt (seed : PoolSeed) : addressCode seed < 2048 := by
  cases seed with
  | config => decide
  | denomination d | tree d | vault d | nullifier d _ =>
      have := d.toNat_lt
      simp only [addressCode]
      omega

open Classical in
/-- A deployment whose verifier accepts exactly the canonical signals that have a witness. -/
noncomputable def ideal (P : Poseidon) : PoolEnv where
  poseidon := P
  groth16 _ signals := decide (
    (∀ i : Fin PUBLIC_SIGNAL_COUNT, Canonical (getElem signals i i.isLt)) ∧
    ∃ w : Witness MERKLE_DEPTH, QietrPayment P (publicOf signals) w)
  embeddedVkHash := Bytes.ofNat 32 1
  address seed := Bytes.ofNat 32 (2 ^ 128 + addressCode seed)
  bump _ := 255
  associatedTokenAddress owner _ := Bytes.ofNat 32 (owner.toNat + 2 ^ 64)

/-- A witness of the signals, when they have one. -/
noncomputable def idealExtractor (P : Poseidon) : Extractor := fun _ signals =>
  Classical.epsilon fun w => QietrPayment P (publicOf signals) w

variable {P : Poseidon}

theorem ideal_accepts {proof : Bytes PROOF_BYTES} {signals : Vector Bytes32 PUBLIC_SIGNAL_COUNT} :
    (ideal P).groth16 proof signals = true ↔
      (∀ i : Fin PUBLIC_SIGNAL_COUNT, Canonical (getElem signals i i.isLt)) ∧
        ∃ w : Witness MERKLE_DEPTH, QietrPayment P (publicOf signals) w := by
  simp only [ideal, decide_eq_true_eq]

theorem ideal_sound : Groth16Sound (ideal P) (idealExtractor P) where
  canonical _ _ h := (ideal_accepts.mp h).1
  witness _ _ h := Classical.epsilon_spec (ideal_accepts.mp h).2

theorem ideal_complete : Groth16Complete (ideal P) := fun _ hcan hw =>
  ⟨Bytes.zero _, ideal_accepts.mpr ⟨hcan, hw⟩⟩

/-! ### Keys and token accounts -/

/-- The key of a small number. -/
def key (n : ℕ) : Pubkey :=
  Bytes.ofNat 32 n

theorem key_inj {m n : ℕ} (hm : m < 256 ^ 32) (hn : n < 256 ^ 32) : key m = key n ↔ m = n := by
  rw [← Bytes.toNat_inj, key, key, Bytes.toNat_ofNat_of_lt hm, Bytes.toNat_ofNat_of_lt hn]

/-- A small key signs for itself. -/
def signer (P : Poseidon) (n : ℕ) (hn : n < 2 ^ 128) : PoolSigner (ideal P) where
  key := key n
  not_derived seed e := by
    have hcode := addressCode_lt seed
    have hseed : 2 ^ 128 + addressCode seed < 256 ^ 32 :=
      (Nat.add_lt_add_left hcode _).trans (by norm_num)
    have hkey : n < 256 ^ 32 := hn.trans (by norm_num)
    have := (key_inj hseed hkey).mp e
    omega

/-- A ledger of one account, which holds the whole supply of its mint. -/
def Ledger.funded (k mint owner : Pubkey) (amount : UInt64) : Ledger where
  account := Function.update (fun _ => none) k (some { mint, owner, amount })
  supply := Function.update (fun _ => none) mint (some amount)
  backed m S := by
    have hother : ∀ j, j ≠ k → holding (Function.update (fun _ => none) k
        (some { mint, owner, amount })) m j = 0 := fun j hj => by
      rw [holding, Function.update_of_ne hj]
    by_cases hm : mint = m
    · subst hm
      rw [Function.update_self]
      calc _ ≤ ∑ j ∈ insert k S, _ := Finset.sum_le_sum_of_subset (Finset.subset_insert k S)
        _ = _ := Finset.sum_eq_single k (fun j _ hj => hother j hj)
            fun h => absurd (Finset.mem_insert_self k S) h
        _ = amount.toNat := by rw [Ledger.holding_eq (Function.update_self ..), if_pos rfl]
        _ ≤ _ := le_refl _
    · refine le_of_eq_of_le (Finset.sum_eq_zero fun j _ => ?_) (Nat.zero_le _)
      by_cases hj : j = k
      · rw [hj, Ledger.holding_eq (Function.update_self ..), if_neg hm]
      · exact hother j hj

theorem funded_account (k mint owner : Pubkey) (amount : UInt64) :
    (Ledger.funded k mint owner amount).account =
      Function.update (fun _ => none) k (some { mint, owner, amount }) := rfl

theorem funded_supply (k mint owner : Pubkey) (amount : UInt64) :
    (Ledger.funded k mint owner amount).supply =
      Function.update (fun _ => none) mint (some amount) := rfl

/-- The mint, the depositor's account, and two recipients that differ in the highest bit. -/
abbrev usdc : Pubkey := key 1
abbrev depositorAta : Pubkey := key 2
abbrev merchant : Pubkey := key 3
abbrev merchantTwin : Pubkey := key (2 ^ 255 + 3)

/-- The admin, who is also the depositor and the fee payer. -/
abbrev admin (P : Poseidon) : PoolSigner (ideal P) :=
  signer P 4 (by norm_num)

/-- The associated token account of an owner. -/
noncomputable abbrev ata (P : Poseidon) (owner : Pubkey) : Pubkey :=
  (ideal P).associatedTokenAddress owner usdc

/-- The token accounts before the program's first instruction. -/
noncomputable def genesisLedger (P : Poseidon) : Ledger :=
  ((Ledger.funded depositorAta usdc (admin P).key (2 ^ 24)).openAccount (ata P merchant) usdc
    merchant).openAccount (ata P merchantTwin) usdc merchantTwin

noncomputable def genesis (P : Poseidon) : PoolState where
  config := none
  denomination _ := none
  tree _ := none
  nullifier _ _ := none
  ledger := genesisLedger P

theorem ata_key {n : ℕ} (hn : n < 256 ^ 32) : ata P (key n) = key (n + 2 ^ 64) := by
  show Bytes.ofNat 32 ((Bytes.ofNat 32 n).toNat + 2 ^ 64) = _
  rw [Bytes.toNat_ofNat_of_lt hn, key]

theorem key_ne {m n : ℕ} (hm : m < 256 ^ 32) (hn : n < 256 ^ 32) (h : m ≠ n) : key m ≠ key n :=
  fun e => h ((key_inj hm hn).mp e)

theorem ata_merchant : ata P merchant = key (3 + 2 ^ 64) :=
  ata_key (by norm_num)

theorem ata_merchantTwin : ata P merchantTwin = key (2 ^ 255 + 3 + 2 ^ 64) :=
  ata_key (by norm_num)

theorem ata_twin_ne : ata P merchantTwin ≠ ata P merchant := by
  rw [ata_merchant, ata_merchantTwin]
  exact key_ne (by norm_num) (by norm_num) (by norm_num)

theorem vault_ne_ata_merchant : (ideal P).vault 0 ≠ ata P merchant := by
  rw [ata_merchant]
  exact key_ne (by norm_num [addressCode]) (by norm_num) (by norm_num [addressCode])

theorem vault_ne_ata_twin : (ideal P).vault 0 ≠ ata P merchantTwin := by
  rw [ata_merchantTwin]
  exact key_ne (by norm_num [addressCode]) (by norm_num) (by norm_num [addressCode])

/-- The token accounts of the genesis ledger. -/
structure Genesis (P : Poseidon) (l : Ledger) : Prop where
  depositor : l.account depositorAta =
    some { mint := usdc, owner := (admin P).key, amount := 2 ^ 24 }
  recipient : l.account (ata P merchant) = some { mint := usdc, owner := merchant, amount := 0 }
  twin : l.account (ata P merchantTwin) = some { mint := usdc, owner := merchantTwin, amount := 0 }
  vault : l.account ((ideal P).vault 0) = none
  supply : l.supply usdc = some (2 ^ 24)

theorem genesis_ledger (P : Poseidon) : Genesis P (genesisLedger P) := by
  have hdr : ata P merchant ≠ depositorAta := by
    rw [ata_merchant]
    exact key_ne (by norm_num) (by norm_num) (by norm_num)
  have hdt : ata P merchantTwin ≠ depositorAta := by
    rw [ata_merchantTwin]
    exact key_ne (by norm_num) (by norm_num) (by norm_num)
  have hvd : (ideal P).vault 0 ≠ depositorAta :=
    key_ne (by norm_num [addressCode]) (by norm_num) (by norm_num [addressCode])
  let l₀ := Ledger.funded depositorAta usdc (admin P).key (2 ^ 24)
  have h₀ : ∀ k, k ≠ depositorAta → l₀.account k = none := fun k hk => by
    rw [funded_account, Function.update_of_ne hk]
  have h₁ := Ledger.openAccount_account (h₀ _ hdr) usdc merchant
  have hfree : (l₀.openAccount (ata P merchant) usdc merchant).account (ata P merchantTwin) =
    none := by
    rw [h₁, Function.update_of_ne ata_twin_ne, h₀ _ hdt]
  have h₂ := Ledger.openAccount_account hfree usdc merchantTwin
  exact
    { depositor := by
        rw [genesisLedger, h₂, Function.update_of_ne hdt.symm, h₁, Function.update_of_ne hdr.symm,
          funded_account, Function.update_self]
      recipient := by
        rw [genesisLedger, h₂, Function.update_of_ne ata_twin_ne.symm, h₁, Function.update_self]
      twin := by
        rw [genesisLedger, h₂, Function.update_self]
      vault := by
        rw [genesisLedger, h₂, Function.update_of_ne vault_ne_ata_twin, h₁,
          Function.update_of_ne vault_ne_ata_merchant, h₀ _ hvd]
      supply := by
        rw [genesisLedger, Ledger.openAccount_supply, Ledger.openAccount_supply, funded_supply,
          Function.update_self] }

/-- It has no other accounts. -/
theorem genesis_account_none {k : Pubkey} (hd : k ≠ depositorAta) (hr : k ≠ ata P merchant)
    (ht : k ≠ ata P merchantTwin) : (genesisLedger P).account k = none := by
  have hopen : ∀ {l : Ledger} {j : Pubkey} (owner : Pubkey), k ≠ j → l.account k = none →
      (l.openAccount j usdc owner).account k = none := by
    intro l j owner hne hk
    by_cases h : l.account j = none
    · rw [Ledger.openAccount_account h, Function.update_of_ne hne, hk]
    · rw [Ledger.openAccount, dif_neg h, hk]
  refine hopen _ ht (hopen _ hr ?_)
  rw [funded_account, Function.update_of_ne hd]

/-! ### Launching it -/

/-- The deployment's denomination `0`, of ten a deposit, after the deposits of `xs` and no
withdraw. -/
structure Launched (P : Poseidon) (log : List (Action (ideal P))) (s : PoolState) (xs : List F)
    (config : PoolConfig) (denomination : Denomination) (tree : MerkleTree) : Prop
    extends Open (ideal P) s 0 (depositEntries xs) config denomination tree where
  run : PoolRun (ideal P) log s
  history_eq : history 0 log = depositEntries xs
  noFee : config.feeVault = Pubkey.default
  mint : denomination.mint = usdc
  amount : denomination.amountMicroUsdc = 10
  fresh : ∀ x, s.nullifier 0 x = none
  recipient : ∃ a, s.ledger.account (ata P merchant) = some a ∧ a.mint = usdc ∧
    a.owner = merchant
  twin : ∃ a, s.ledger.account (ata P merchantTwin) = some a ∧ a.mint = usdc ∧
    a.owner = merchantTwin

/-- Its denomination can be opened, and the token accounts are still there. -/
theorem exists_opened (P : Poseidon) : ∃ config tree s,
    PoolRun (ideal P) (launchLog (admin P) 0 usdc 0 10) s ∧
    Open (ideal P) s 0 [] config (newDenomination (ideal P) usdc 0 10) tree ∧
    config.feeVault = Pubkey.default ∧ config.admin = (admin P).key ∧
    s.nullifier = (genesis P).nullifier ∧
    (∀ k a, (genesisLedger P).account k = some a → s.ledger.account k = some a) ∧
    ∀ k, (genesisLedger P).account k = none → k ≠ (ideal P).vault 0 →
      s.ledger.account k = none := by
  have hg := genesis_ledger P
  have hinitial : Initial (genesis P) := ⟨rfl, fun _ => rfl, fun _ => rfl, fun _ _ => rfl⟩
  obtain ⟨config, tree, s, hrun, ho, hnoFee, -, hadmin, hnull, hledger⟩ :=
    exists_open hinitial (admin P) 0 (by decide) ⟨_, hg.supply⟩ hg.vault 10
  have haccount : ∀ k, k ≠ (ideal P).vault 0 →
      s.ledger.account k = (genesisLedger P).account k := by
    intro k hk
    rw [hledger]
    exact (congrFun (Ledger.openAccount_account hg.vault _ _) k).trans (Function.update_of_ne hk ..)
  refine ⟨config, tree, s, hrun, ho, hnoFee, hadmin, hnull, fun k a ha => ?_, fun k hk hne => ?_⟩
  · have hk : k ≠ (ideal P).vault 0 := by
      rintro rfl
      rw [hg.vault] at ha
      cases ha
    rw [haccount k hk, ha]
  · rw [haccount k hne, hk]

/-- From there on, with any leaves up to a full tree. -/
theorem exists_launched_from {P : Poseidon} {log : List (Action (ideal P))} {config : PoolConfig}
    {tree : MerkleTree} {s : PoolState} (hrun : PoolRun (ideal P) log s)
    (hhistory : history 0 log = [])
    (ho : Open (ideal P) s 0 [] config (newDenomination (ideal P) usdc 0 10) tree)
    (hnoFee : config.feeVault = Pubkey.default) (hnull : s.nullifier = (genesis P).nullifier)
    (hkept : ∀ k a, (genesisLedger P).account k = some a → s.ledger.account k = some a)
    (xs : List F) (hlen : xs.length ≤ 2 ^ MERKLE_DEPTH) :
    ∃ log' s' denomination tree', Launched P log' s' xs config denomination tree' ∧
      ∀ k a, s.ledger.account k = some a →
        ∃ a', s'.ledger.account k = some a' ∧ a'.mint = a.mint ∧ a'.owner = a.owner := by
  have hg := genesis_ledger P
  have hfunds : 10 * xs.length ≤ (2 ^ 24 : UInt64).toNat := by
    have hcap : 10 * 2 ^ MERKLE_DEPTH ≤ (2 ^ 24 : UInt64).toNat := by decide
    omega
  obtain ⟨denomination', tree', s', hrun', ho', hkin⟩ :=
    ho.deposits_run hrun 0 ⟨depositorAta, admin P⟩ (hkept _ _ hg.depositor) rfl rfl
      xs hfunds (by simpa using hlen)
  obtain ⟨r, hr, hrm, hro⟩ := hkin.accounts _ _ (hkept _ _ hg.recipient)
  obtain ⟨t, ht, htm, hto⟩ := hkin.accounts _ _ (hkept _ _ hg.twin)
  refine ⟨_, s', denomination', tree', { ho' with
    run := hrun'
    history_eq := ?_
    noFee := hnoFee
    mint := hkin.mint
    amount := hkin.amount
    fresh := fun x => by rw [hkin.nullifier, hnull]; rfl
    recipient := ⟨r, hr, hrm, hro⟩
    twin := ⟨t, ht, htm, hto⟩ }, hkin.accounts⟩
  rw [history_append, hhistory, history_depositLog]
  rfl

/-- **It can be launched** with any leaves, up to a full tree. -/
theorem exists_launched (P : Poseidon) (xs : List F) (hlen : xs.length ≤ 2 ^ MERKLE_DEPTH) :
    ∃ log s config denomination tree, Launched P log s xs config denomination tree := by
  obtain ⟨config, tree, s, hrun, ho, hnoFee, -, hnull, hkept, -⟩ := exists_opened P
  obtain ⟨log, s', denomination, tree', hl, -⟩ :=
    exists_launched_from hrun (history_launchLog ..) ho hnoFee hnull hkept xs hlen
  exact ⟨log, s', config, denomination, tree', hl⟩

/-! ### Roots that are not zero -/

/-- `P`, but for the nodes that it would make zero. -/
def offZero (P : Poseidon) : Poseidon :=
  { P with two := fun a b => if P.two a b = 0 then 1 else P.two a b }

/-- No tree of such a hash has a zero root. -/
theorem fullRoot_offZero (P : Poseidon) (ls : List F) : fullRoot (offZero P) ls ≠ 0 := by
  have htop : ∀ a b, (offZero P).two a b ≠ 0 := by
    intro a b
    show (if P.two a b = 0 then 1 else P.two a b) ≠ 0
    split
    · exact one_ne_zero
    · assumption
  exact htop _ _

/-! ### Paying from it -/

variable {log : List (Action (ideal P))} {s : PoolState} {xs : List F} {config : PoolConfig}
  {denomination : Denomination} {tree : MerkleTree}

/-- The holder of a deposited note can pay either recipient. -/
theorem Launched.payable (hl : Launched P log s xs config denomination tree) (c : Sdk.Commitment)
    (hamount : c.amount = 10) {i : ℕ} (hleaf : xs[i]? = some (Sdk.commitmentHash P c))
    (pay : Sdk.Payment) (hpos : 1 ≤ pay.paymentAmount.toNat)
    (hle : pay.paymentAmount.toNat ≤ c.amount.toNat)
    (hto : pay.recipient = merchant ∨ pay.recipient = merchantTwin) :
    Payable (ideal P) s 0 (depositEntries xs) config denomination c pay where
  amount := hamount.trans hl.amount.symm
  leaf := ⟨i, by rw [leaves_depositEntries]; exact hleaf⟩
  unspent := hl.fresh _
  pos := hpos
  le := hle
  recipient := by
    rw [hl.mint]
    rcases hto with e | e
    · rw [e]; exact hl.recipient
    · rw [e]; exact hl.twin
  fee := fun hne => absurd hl.noFee hne

/-- Its vault holds the deposits. -/
theorem Launched.balance (hl : Launched P log s xs config denomination tree) :
    10 * xs.length ≤ s.ledger.balance ((ideal P).vault 0) := by
  have hfunds := hl.funds
  have hcount : deposits (depositEntries xs) = xs.length := by
    rw [deposits, depositEntries, List.countP_map]
    exact List.countP_eq_length.mpr fun _ _ => rfl
  have hspends : spends (depositEntries xs) = [] := by
    rw [spends, depositEntries, List.filterMap_map]
    exact List.filterMap_eq_nil_iff.mpr fun _ _ => rfl
  rwa [hcount, payments, hspends, hl.amount] at hfunds

/-- **And the payment goes through.** -/
theorem Launched.withdraw_ok (hl : Launched P log s xs config denomination tree)
    {c : Sdk.Commitment} {pay : Sdk.Payment}
    (hpay : Payable (ideal P) s 0 (depositEntries xs) config denomination c pay)
    (hroot : fullRoot P xs ≠ 0) (hroom : xs.length < 2 ^ MERKLE_DEPTH)
    {proof : Bytes PROOF_BYTES}
    (hproof : (ideal P).groth16 proof (honestSignals P c (fullRoot P xs) pay) = true) :
    ∃ s', withdraw (ideal P) s 0
      (honestAccounts (ideal P) config denomination (admin P) pay.recipient) 0 (nullifierHashOf P c)
      proof (honestSignals P c (fullRoot P xs) pay) = .ok s' := by
  have hle : pay.paymentAmount.toNat ≤ s.ledger.balance ((ideal P).vault 0) := by
    obtain ⟨i, hi⟩ := hpay.leaf
    rw [leaves_depositEntries] at hi
    have hpos : 0 < xs.length := Nat.zero_lt_of_lt (List.getElem?_eq_some_iff.mp hi).1
    have hten : c.amount.toNat = 10 := by rw [hpay.amount, hl.amount]; rfl
    have hbal := hl.balance
    have := hpay.le
    omega
  have hok := hl.toOpen.withdraw_ok hpay (by rwa [leaves_depositEntries]) (admin P)
    (by rwa [leaves_depositEntries]) (by simpa [depositEntries] using hroom) hle 0
  rwa [leaves_depositEntries] at hok

/-- A run of one deposit and one withdraw from it. -/
theorem exists_paid {P : Poseidon} (hroots : ∀ ls, fullRoot P ls ≠ 0) (c : Sdk.Commitment)
    (hamount : c.amount = 10) (pay : Sdk.Payment) (hpos : 1 ≤ pay.paymentAmount.toNat)
    (hle : pay.paymentAmount.toNat ≤ c.amount.toNat)
    (hto : pay.recipient = merchant ∨ pay.recipient = merchantTwin) :
    ∃ log s config denomination tree proof s',
      Launched P log s [Sdk.commitmentHash P c] config denomination tree ∧
      (ideal P).groth16 proof
        (honestSignals P c (fullRoot P [Sdk.commitmentHash P c]) pay) = true ∧
      withdraw (ideal P) s 0
        (honestAccounts (ideal P) config denomination (admin P) pay.recipient) 0
        (nullifierHashOf P c) proof
        (honestSignals P c (fullRoot P [Sdk.commitmentHash P c]) pay) = .ok s' := by
  have hroom : [Sdk.commitmentHash P c].length < 2 ^ MERKLE_DEPTH := Nat.one_lt_two_pow (by decide)
  have hleaf : [Sdk.commitmentHash P c][0]? = some (Sdk.commitmentHash P c) := rfl
  obtain ⟨log, s, config, denomination, tree, hl⟩ := exists_launched P _ hroom.le
  have hpay := hl.payable c hamount hleaf pay hpos hle hto
  obtain ⟨proof, hproof⟩ : ∃ proof, (ideal P).groth16 proof
      (honestSignals P c (fullRoot P [Sdk.commitmentHash P c]) pay) = true :=
    exists_honest_proof ideal_complete hleaf hroom.le hpos hle
  obtain ⟨s', hs'⟩ := hl.withdraw_ok hpay (hroots _) hroom hproof
  exact ⟨log, s, config, denomination, tree, proof, s', hl, hproof, hs'⟩

/-- A note and a payment from it. -/
def someNote : Sdk.Commitment where
  secret := 1
  nullifier := (2 : ℕ)
  amount := 10

def somePayment : Sdk.Payment where
  recipient := merchant
  paymentAmount := 4
  newSecret := 5
  newNullifier := 6

end Qietr.Pool
