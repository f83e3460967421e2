import Qietr.Pool.Deployment

/-!
# Pool — solvency

Why the vault of a denomination always covers what may still be withdrawn from it: every withdraw
spends a leaf some deposit put there, and no two spend the same.  Each step of the argument that
could fail would show two inputs the hash sends to one output, and both are inputs hashed in the
run.

* `Hashed env E h`: the inputs hashed in a history, by the trees and by the witnesses.
* `Exhibits env E h`: two of them collide, or one is a note whose commitment is the empty leaf.
* `spendLeaf`: a withdraw spends a deposit's leaf.
* `nodup_spentLeaf`: and no other withdraw does.
* `pool_solvency`: what follows for every run.
-/

namespace Qietr.Pool

open Outcome HashTree Circuit

variable {env : PoolEnv}

/-! ### Exhibits -/

/-- The witness of a withdraw. -/
def Extractor.of (E : Extractor) (w : Spend) : Witness MERKLE_DEPTH :=
  E w.proof w.signals

/-- What was hashed in a history: at the nodes of the tree after each append, and by the witnesses
of the withdraws. -/
inductive Hashed (env : PoolEnv) (E : Extractor) (h : List Entry) : HashInput → Prop
  | node {n k j : ℕ} (hn : n ≤ h.length) (hk : k < MERKLE_DEPTH)
      (hj : j < 2 ^ (MERKLE_DEPTH - 1 - k)) :
      Hashed env E h (.two
        (nodeInput env.poseidon.two (leavesOf 0 ((leaves h).take n)) k j).1
        (nodeInput env.poseidon.two (leavesOf 0 ((leaves h).take n)) k j).2)
  | path {w : Spend} {u : F × F} (hw : w ∈ spends h)
      (hu : u ∈ foldInputs env.poseidon.two
        (env.poseidon.three (E.of w).secret (E.of w).nullifier (publicOf w.signals).amount)
        (E.of w).path) :
      Hashed env E h (.two u.1 u.2)
  | commitment {w : Spend} (hw : w ∈ spends h) :
      Hashed env E h
        (.three (E.of w).secret (E.of w).nullifier (publicOf w.signals).amount)
  | change {w : Spend} (hw : w ∈ spends h) :
      Hashed env E h
        (.three (E.of w).newSecret (E.of w).newNullifier
          ((publicOf w.signals).amount - (publicOf w.signals).paymentAmount))

/-- The history shows a collision, or a preimage of the empty leaf. -/
def Exhibits (env : PoolEnv) (E : Extractor) (h : List Entry) : Prop :=
  (∃ u v, Hashed env E h u ∧ Hashed env E h v ∧ Collision env.poseidon u v) ∨
    ∃ a b c, Hashed env E h (.three a b c) ∧ env.poseidon.three a b c = 0

theorem Exhibits.of_three {E : Extractor} {h : List Entry} {a b c a' b' c' : F}
    (hu : Hashed env E h (.three a b c)) (hv : Hashed env E h (.three a' b' c'))
    (hne : (a, b, c) ≠ (a', b', c'))
    (heq : env.poseidon.three a b c = env.poseidon.three a' b' c') : Exhibits env E h := by
  refine .inl ⟨_, _, hu, hv, fun e => hne ?_, rfl, heq⟩
  injection e with ha hb hc
  rw [ha, hb, hc]

theorem Exhibits.of_two {E : Extractor} {h : List Entry} {u v : F × F}
    (hu : Hashed env E h (.two u.1 u.2)) (hv : Hashed env E h (.two v.1 v.2))
    (hc : Collide env.poseidon.two u v) : Exhibits env E h := by
  refine .inl ⟨_, _, hu, hv, fun e => hc.1 ?_, rfl, hc.2⟩
  injection e with h₁ h₂
  exact Prod.ext h₁ h₂

/-- A history whose withdraws were checked when they came, each against the nullifiers before. -/
structure CheckedHistory (env : PoolEnv) (amountMicroUsdc : UInt64) (h : List Entry) : Prop where
  checked : ∀ i w, h[i]? = some (.spend w) → SpendOk env amountMicroUsdc (h.take i) w
  nodup : ((spends h).map Spend.nullifierHash).Nodup

/-! ### One withdraw -/

theorem mem_spends_of_getElem? {h : List Entry} {i : ℕ} {w : Spend}
    (hi : h[i]? = some (.spend w)) : w ∈ spends h :=
  List.mem_filterMap.mpr ⟨_, List.mem_of_getElem? hi, rfl⟩

theorem exists_getElem?_of_mem_spends {h : List Entry} {w : Spend} (hw : w ∈ spends h) :
    ∃ i : ℕ, h[i]? = some (Entry.spend w) := by
  obtain ⟨e, he, hew⟩ := List.mem_filterMap.mp hw
  cases e with
  | deposit c => cases hew
  | spend w' =>
      cases hew
      exact List.mem_iff_getElem?.mp he

/-- The leaf a withdraw spends, by its witness's path. -/
def spentLeaf (E : Extractor) (w : Spend) : ℕ :=
  position (E.of w).path

/-- What a checked withdraw's witness opens: the tier amount, and at least one of it paid. -/
theorem SpendOk.opens {E : Extractor} (hsound : Groth16Sound env E) {amount : UInt64}
    {before : List Entry} {w : Spend} (hw : SpendOk env amount before w) :
    (publicOf w.signals).amount = (amount.toNat : F) ∧
      Opens env.poseidon (publicOf w.signals) (E.of w).secret (E.of w).nullifier
        (E.of w).newSecret (E.of w).newNullifier (E.of w).path amount.toNat w.payment := by
  obtain ⟨a, p, ho⟩ := (hsound.witness _ _ hw.proof).opens
  have hamount : (publicOf w.signals).amount = (amount.toNat : F) := by
    show decode w.signals[0] = _
    rw [hw.amount, decode_fieldFromU64]
  have ha : a = amount.toNat :=
    natCast_inj (ho.lt.trans two_pow_64_lt_r) (amount.toNat_lt.trans two_pow_64_lt_r)
      (ho.amount_eq.symm.trans hamount)
  have hp : p = w.payment :=
    natCast_inj ((lt_of_le_of_lt ho.le ho.lt).trans two_pow_64_lt_r)
      (hw.payment.trans two_pow_64_lt_r) ho.payment_eq.symm
  subst ha hp
  exact ⟨hamount, ho⟩

/-- Two openings of the tier amount and of a change have different amounts. -/
theorem amount_ne_change {amount payment : ℕ} (hpos : 1 ≤ payment) (hle : payment ≤ amount)
    (hlt : amount < 2 ^ 64) : ((amount : ℕ) : F) ≠ (amount : F) - (payment : F) := by
  intro e
  have hzero : (payment : F) = ((0 : ℕ) : F) := by
    rw [Nat.cast_zero]
    exact sub_eq_self.mp e.symm
  have hr : payment < r := (lt_of_le_of_lt hle hlt).trans two_pow_64_lt_r
  have := natCast_inj hr prime_r.pos hzero
  omega

/-- A checked withdraw's path leads to the root of a tree the denomination had. -/
theorem SpendOk.exists_tree {E : Extractor} (hsound : Groth16Sound env E) {amount : UInt64}
    {h : List Entry} {i : ℕ} {w : Spend} (hw : SpendOk env amount (h.take i) w) :
    ∃ n ≤ h.length, fold env.poseidon.two
      (env.poseidon.three (E.of w).secret (E.of w).nullifier (amount.toNat : F))
      (E.of w).path =
      node env.poseidon.two (leavesOf 0 ((leaves h).take n)) (E.of w).path.length 0 := by
  obtain ⟨-, ho⟩ := hw.opens hsound
  obtain ⟨k, hk, hroot⟩ := List.mem_map.mp (List.mem_of_mem_drop hw.root)
  rw [List.mem_range, leaves_length, List.length_take] at hk
  have htake : (leaves (h.take i)).take (k + 1) = (leaves h).take (k + 1) := by
    rw [leaves, leaves, List.map_take, List.take_take, Nat.min_eq_left (by omega)]
  refine ⟨k + 1, by omega, ?_⟩
  have hlen : (E.of w).path.length = MERKLE_DEPTH := pathOf_length _ _
  have hdecode : (publicOf w.signals).root =
      fullRoot env.poseidon ((leaves h).take (k + 1)) := by
    show decode w.signals[1] = _
    rw [← hroot, htake, decode_encode]
  rw [hlen, ← ho.root_eq, hdecode]
  rfl

/-- The leaf of a change is not the leaf of a note of the tier amount. -/
theorem exhibits_of_change {E : Extractor} (hsound : Groth16Sound env E) {amount : UInt64}
    {h before before' : List Entry} {w w' : Spend} (hw : w ∈ spends h) (hw' : w' ∈ spends h)
    (hok : SpendOk env amount before w) (hok' : SpendOk env amount before' w')
    (heq : env.poseidon.three (E.of w).secret (E.of w).nullifier (amount.toNat : F) =
      decode w'.signals[5]) : Exhibits env E h := by
  obtain ⟨hamount, -⟩ := hok.opens hsound
  obtain ⟨hamount', ho'⟩ := hok'.opens hsound
  have hpay : (publicOf w'.signals).paymentAmount = (w'.payment : F) := ho'.payment_eq
  have hchange : decode w'.signals[5] = env.poseidon.three (E.of w').newSecret
      (E.of w').newNullifier ((amount.toNat : F) - (w'.payment : F)) := by
    rw [← Nat.cast_sub ho'.le]
    exact ho'.change_eq
  have hu : Hashed env E h _ := .commitment hw
  have hv : Hashed env E h _ := .change hw'
  rw [hamount] at hu
  rw [hamount', hpay] at hv
  refine Exhibits.of_three hu hv (fun e => ?_) (heq.trans hchange)
  exact amount_ne_change ho'.pos ho'.le ho'.lt (Prod.ext_iff.mp (Prod.ext_iff.mp e).2).2

/-- **A withdraw spends a deposit's leaf**: a path to an empty leaf, to a change or to no leaf of
the tree shows a collision or a preimage. -/
theorem spendLeaf {E : Extractor} (hsound : Groth16Sound env E) {amount : UInt64}
    {h : List Entry} (hh : CheckedHistory env amount h) {i : ℕ} {w : Spend}
    (hi : h[i]? = some (.spend w)) :
    Exhibits env E h ∨ ∃ c, h[spentLeaf E w]? = some (.deposit c) ∧
      decode c = env.poseidon.three (E.of w).secret (E.of w).nullifier
        (amount.toNat : F) := by
  have hmem := mem_spends_of_getElem? hi
  have hok := hh.checked i w hi
  obtain ⟨hamount, -⟩ := hok.opens hsound
  obtain ⟨n, hn, hfold⟩ := hok.exists_tree hsound
  rcases binding env.poseidon.two hfold with hleaf | ⟨u, hu, k, j, hk, hj, hcollide⟩
  · -- the commitment is the leaf the path is about
    rw [Nat.mul_zero, Nat.zero_add] at hleaf
    by_cases hlt : spentLeaf E w < n
    · have hlen : spentLeaf E w < h.length := by omega
      have hget : leavesOf 0 ((leaves h).take n) (position (E.of w).path) =
          decode h[spentLeaf E w].leaf := by
        rw [leavesOf_eq (by rw [List.length_take, leaves_length]; exact lt_min hlt hlen),
          List.getElem_take]
        simp [leaves, spentLeaf]
      rw [hget] at hleaf
      cases he : h[spentLeaf E w] with
      | deposit c =>
          rw [he] at hleaf
          exact .inr ⟨c, by rw [List.getElem?_eq_getElem hlen, he], hleaf.symm⟩
      | spend w' =>
          rw [he] at hleaf
          have hi' : h[spentLeaf E w]? = some (.spend w') := by
            rw [List.getElem?_eq_getElem hlen, he]
          exact .inl (exhibits_of_change hsound hmem (mem_spends_of_getElem? hi') hok
            (hh.checked _ w' hi') hleaf)
    · -- past the leaves there is only the empty one
      have hempty : leavesOf 0 ((leaves h).take n) (position (E.of w).path) = 0 := by
        refine leavesOf_ge ?_
        rw [List.length_take]
        exact (Nat.min_le_left _ _).trans (not_lt.mp hlt)
      have hu : Hashed env E h _ := .commitment hmem
      rw [hamount] at hu
      exact .inl (.inr ⟨_, _, _, hu, hleaf.trans hempty⟩)
  · -- the path leaves the tree at a collision
    have hlen : (E.of w).path.length = MERKLE_DEPTH := pathOf_length _ _
    rw [hlen] at hk hj
    have hj' : j < 2 ^ (MERKLE_DEPTH - 1 - k) := by
      rwa [Nat.div_eq_zero_iff_lt (by positivity)] at hj
    rw [← hamount] at hu
    exact .inl (Exhibits.of_two (.path hmem hu) (.node hn hk hj') hcollide)

/-! ### All of them -/

/-- Two withdraws of one leaf have one nullifier, or show a collision. -/
theorem nullifierHash_eq_of_spentLeaf_eq {E : Extractor} (hsound : Groth16Sound env E)
    {amount : UInt64} {h : List Entry} (hh : CheckedHistory env amount h) {w w' : Spend}
    (hw : w ∈ spends h) (hw' : w' ∈ spends h) (heq : spentLeaf E w = spentLeaf E w') :
    Exhibits env E h ∨ w.nullifierHash = w'.nullifierHash := by
  obtain ⟨i, hi⟩ := exists_getElem?_of_mem_spends hw
  obtain ⟨i', hi'⟩ := exists_getElem?_of_mem_spends hw'
  have hok := hh.checked i w hi
  have hok' := hh.checked i' w' hi'
  obtain ⟨hamount, ho⟩ := hok.opens hsound
  obtain ⟨hamount', ho'⟩ := hok'.opens hsound
  rcases spendLeaf hsound hh hi with hex | ⟨c, hc, hopen⟩
  · exact .inl hex
  rcases spendLeaf hsound hh hi' with hex | ⟨c', hc', hopen'⟩
  · exact .inl hex
  have hcc : c = c' := by
    rw [heq, hc'] at hc
    exact (Entry.deposit.inj (Option.some.inj hc)).symm
  have hhash := hopen.symm.trans ((congrArg decode hcc).trans hopen')
  by_cases hnul : (E.of w).nullifier = (E.of w').nullifier
  · refine .inr ?_
    have hfield : decode w.signals[2] = decode w'.signals[2] := by
      show (publicOf w.signals).nullifierHash = (publicOf w'.signals).nullifierHash
      rw [ho.nullifier_eq, ho'.nullifier_eq, hnul]
    have hcan := hsound.canonical _ _ hok.proof 2
    have hcan' := hsound.canonical _ _ hok'.proof 2
    rw [hok.nullifierHash, hok'.nullifierHash]
    exact (decode_inj hcan hcan').mp hfield
  · have hu : Hashed env E h _ := .commitment hw
    have hv : Hashed env E h _ := .commitment hw'
    rw [hamount] at hu
    rw [hamount'] at hv
    refine .inl (Exhibits.of_three hu hv (fun e => hnul ?_) hhash)
    exact (Prod.ext_iff.mp (Prod.ext_iff.mp e).2).1

/-- **No leaf is spent twice.** -/
theorem nodup_spentLeaf {E : Extractor} (hsound : Groth16Sound env E) {amount : UInt64}
    {h : List Entry} (hh : CheckedHistory env amount h) :
    Exhibits env E h ∨ ((spends h).map (spentLeaf E)).Nodup := by
  by_cases hex : Exhibits env E h
  · exact .inl hex
  · refine .inr ((List.Nodup.of_map _ hh.nodup).map_on fun w hw w' hw' heq => ?_)
    have hnul := (nullifierHash_eq_of_spentLeaf_eq hsound hh hw hw' heq).resolve_left hex
    exact List.inj_on_of_nodup_map hh.nodup hw hw' hnul

/-- Where the deposits are. -/
def depositIndices (h : List Entry) : List ℕ :=
  (List.range h.length).filter fun i => (h[i]?.map Entry.isDeposit).getD false

theorem depositIndices_length (h : List Entry) : (depositIndices h).length = deposits h := by
  induction h using List.reverseRecOn with
  | nil => rfl
  | append_singleton h e ih =>
      have hold : (List.range h.length).filter
          (fun i => ((h ++ [e])[i]?.map Entry.isDeposit).getD false) = depositIndices h := by
        refine List.filter_congr fun i hi => ?_
        rw [List.getElem?_append_left (List.mem_range.mp hi)]
      rw [depositIndices, List.length_append, List.length_singleton, List.range_succ,
        List.filter_append, hold, List.length_append, ih]
      cases e with
      | deposit c => simp [Entry.isDeposit]
      | spend w => simp [Entry.isDeposit]

/-- There are no more withdraws than deposits. -/
theorem spends_length_le {E : Extractor} (hsound : Groth16Sound env E) {amount : UInt64}
    {h : List Entry} (hh : CheckedHistory env amount h) :
    Exhibits env E h ∨ (spends h).length ≤ deposits h := by
  by_cases hex : Exhibits env E h
  · exact .inl hex
  · refine .inr ?_
    have hnodup := (nodup_spentLeaf hsound hh).resolve_left hex
    have hsub : (spends h).map (spentLeaf E) ⊆ depositIndices h := by
      intro k hk
      obtain ⟨w, hw, rfl⟩ := List.mem_map.mp hk
      obtain ⟨i, hi⟩ := exists_getElem?_of_mem_spends hw
      obtain ⟨c, hc, -⟩ := (spendLeaf hsound hh hi).resolve_left hex
      have hlt := (List.getElem?_eq_some_iff.mp hc).1
      rw [depositIndices, List.mem_filter, List.mem_range, hc]
      exact ⟨hlt, rfl⟩
    have hle := (List.subperm_of_subset hnodup hsub).length_le
    rwa [List.length_map, depositIndices_length] at hle

/-- Each payment is at most the tier amount. -/
theorem payments_le {E : Extractor} (hsound : Groth16Sound env E) {amount : UInt64}
    {h : List Entry} (hh : CheckedHistory env amount h) :
    payments h ≤ amount.toNat * (spends h).length := by
  have hle : ∀ p ∈ (spends h).map Spend.payment, p ≤ amount.toNat := by
    intro p hp
    obtain ⟨w, hw, rfl⟩ := List.mem_map.mp hp
    obtain ⟨i, hi⟩ := exists_getElem?_of_mem_spends hw
    exact ((hh.checked i w hi).opens hsound).2.le
  have hsum := List.sum_le_card_nsmul _ _ hle
  rwa [List.length_map, smul_eq_mul, Nat.mul_comm] at hsum

theorem Held.checkedHistory {s : PoolState} {d : UInt8} {h : List Entry}
    {denomination : Denomination} {tree : MerkleTree} (hh : Held env s d h denomination tree) :
    CheckedHistory env denomination.amountMicroUsdc h :=
  ⟨hh.checked, hh.nodup⟩

/-- The history a withdraw that passes its checks would leave is a checked one. -/
theorem Held.checkedHistory_snoc {s : PoolState} {d : UInt8} {h : List Entry}
    {denomination : Denomination} {tree : MerkleTree} (hh : Held env s d h denomination tree)
    {accounts : WithdrawAccounts env} {nullifierHash : Bytes32} {proof : Bytes PROOF_BYTES}
    {signals : Vector Bytes32 PUBLIC_SIGNAL_COUNT} {config : PoolConfig} {ata : TokenAccount}
    {payment : UInt64}
    (hok : WithdrawChecked env s accounts d nullifierHash proof signals config denomination tree ata
      payment) :
    CheckedHistory env denomination.amountMicroUsdc
      (h ++ [.spend { nullifierHash, proof, signals }]) := by
  refine ⟨checked_snoc hh.checked fun w hw => by cases hw; exact hh.spendOk hok, ?_⟩
  rw [spends_snoc_spend, List.map_append, List.map_singleton]
  exact hh.nodup.append (List.nodup_singleton _)
    (List.disjoint_singleton.mpr ((hh.spent nullifierHash).mp hok.unspent))

/-- **A withdraw that passes its checks finds its payment in the vault.** -/
theorem Held.payment_le {E : Extractor} (hsound : Groth16Sound env E) {s : PoolState}
    {d : UInt8} {h : List Entry} {denomination : Denomination} {tree : MerkleTree}
    (hh : Held env s d h denomination tree) {accounts : WithdrawAccounts env}
    {nullifierHash : Bytes32} {proof : Bytes PROOF_BYTES}
    {signals : Vector Bytes32 PUBLIC_SIGNAL_COUNT} {config : PoolConfig} {ata : TokenAccount}
    {payment : UInt64}
    (hok : WithdrawChecked env s accounts d nullifierHash proof signals config denomination tree ata
      payment) :
    Exhibits env E (h ++ [.spend { nullifierHash, proof, signals }]) ∨
      payment.toNat ≤ s.ledger.balance (env.vault d) := by
  have hnext := hh.checkedHistory_snoc hok
  rcases spends_length_le hsound hnext with hex | hcount
  · exact .inl hex
  · refine .inr ?_
    have hpay : Spend.payment { nullifierHash, proof, signals } = payment.toNat := hok.payment_eq
    have hsum := payments_le hsound hnext
    have hfunds := hh.funds
    rw [payments_snoc_spend, hpay] at hsum
    rw [deposits_snoc_spend] at hcount
    have hmul := Nat.mul_le_mul_left denomination.amountMicroUsdc.toNat hcount
    omega

/-- **Pool solvency.**  In every state of every run, for every initialised denomination, unless the
history exhibits a collision or a preimage of the empty leaf: there are no more withdraws than
deposits, they paid no more than was deposited, the vault holds the rest, and each withdraw spent
the leaf of a deposit of its own.  And a withdraw that fails for lack of vault funds exhibits
one. -/
theorem pool_solvency {E : Extractor} (hsound : Groth16Sound env E)
    {log : List (Action env)} {s : PoolState} (hrun : PoolRun env log s) {d : UInt8}
    {denomination : Denomination} (hd : s.denomination d = some denomination) :
    let h := history d log
    let deposited := denomination.amountMicroUsdc.toNat * denomination.depositCount.toNat
    (Exhibits env E h ∨
      ((spends h).length ≤ denomination.depositCount.toNat ∧
        payments h ≤ deposited ∧
        deposited - payments h ≤ s.ledger.balance (env.vault d) ∧
        (∀ w ∈ spends h, ∃ c, h[spentLeaf E w]? = some (.deposit c) ∧
          decode c = env.poseidon.three (E.of w).secret (E.of w).nullifier
            (denomination.amountMicroUsdc.toNat : F)) ∧
        ((spends h).map (spentLeaf E)).Nodup)) ∧
    ∀ slot accounts nullifierHash proof signals,
      withdraw env s slot accounts d nullifierHash proof signals =
        .error (.token .insufficientFunds) →
      Exhibits env E (h ++ [.spend { nullifierHash, proof, signals }]) := by
  intro h deposited
  obtain ⟨tree, hh⟩ := (poolInv_of_run hrun).held hd
  have hchecked := hh.checkedHistory
  refine ⟨?_, ?_⟩
  · by_cases hex : Exhibits env E h
    · exact .inl hex
    · have hcount := (spends_length_le hsound hchecked).resolve_left hex
      have hsum := payments_le hsound hchecked
      have hfunds := hh.funds
      have hmul := Nat.mul_le_mul_left denomination.amountMicroUsdc.toNat hcount
      refine .inr ⟨by rwa [hh.count], ?_, ?_, fun w hw => ?_,
        (nodup_spentLeaf hsound hchecked).resolve_left hex⟩
      · show _ ≤ _ * _
        rw [hh.count]
        exact hsum.trans hmul
      · show _ * _ - _ ≤ _
        rw [hh.count]
        exact Nat.sub_le_iff_le_add.mpr hfunds
      · obtain ⟨i, hi⟩ := exists_getElem?_of_mem_spends hw
        exact (spendLeaf hsound hchecked hi).resolve_left hex
  · intro slot accounts nullifierHash proof signals herr
    obtain ⟨config, denomination', tree', ata, payment, hok, hpay⟩ :=
      withdraw_insufficientFunds herr
    obtain rfl : denomination = denomination' := Option.some.inj (hd.symm.trans hok.denomination_eq)
    obtain rfl : tree = tree' := Option.some.inj (hh.tree_eq.symm.trans hok.tree_eq)
    rcases hh.payment_le hsound hok with hex | hle
    · exact hex
    · exact absurd hpay (payOut_ne_insufficientFunds hle)

theorem pool_solvency_paid :
    ∃ (log : List (Action (ideal (offZero circom)))) (s : PoolState) (denomination : Denomination),
      PoolRun (ideal (offZero circom)) log s ∧ s.denomination 0 = some denomination ∧
      (spends (history 0 log)).length = 1 ∧
      (Exhibits (ideal (offZero circom)) (idealExtractor (offZero circom)) (history 0 log) ∨
        (spends (history 0 log)).length ≤ denomination.depositCount.toNat) := by
  obtain ⟨log, s, config, denomination, tree, proof, s', hl, -, hw⟩ :=
    exists_paid (fullRoot_offZero circom) someNote rfl somePayment (by decide) (by decide)
      (.inl rfl)
  have hden : s'.denomination 0 = some denomination := by
    obtain ⟨-, -, -, -, -, -, -, -, -, -, rfl⟩ := withdraw_eq_ok.mp hw
    exact hl.denomination_eq
  have hrun := hl.run.snoc (.call hw : Step _ s (.call 0 (.withdraw _ 0 _ proof _)) s')
  refine ⟨_, s', denomination, hrun, hden, ?_,
    (pool_solvency ideal_sound hrun hden).1.imp_right And.left⟩
  rw [history_snoc_some entry_withdraw, hl.history_eq]
  rfl

end Qietr.Pool
