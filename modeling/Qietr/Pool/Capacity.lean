import Qietr.Pool.Solvency

/-!
# Pool — capacity

Every withdraw appends a leaf, so that a denomination whose tree is full pays nothing out any more.
Until then the holder of an unspent note can always be paid.

* `withdraw_full`: a full tree rejects every withdraw.
* `Open.withdraw_or_exhibits`: a tree with room executes every honest one, or the run exhibits a
  collision.
* `withdraw_available`: both, in every state of every run.
-/

namespace Qietr.Pool

open Outcome HashTree Circuit

variable {env : PoolEnv}

/-- **A full tree rejects every withdraw.** -/
theorem withdraw_full {s : PoolState} {d : UInt8} {h : List Entry} {denomination : Denomination}
    {tree : MerkleTree} (hh : Held env s d h denomination tree)
    (hfull : h.length = 2 ^ MERKLE_DEPTH)
    {slot : UInt64} {accounts : WithdrawAccounts env} {nullifierHash : Bytes32}
    {proof : Bytes PROOF_BYTES} {signals : Vector Bytes32 PUBLIC_SIGNAL_COUNT} {s' : PoolState} :
    withdraw env s slot accounts d nullifierHash proof signals ≠ .ok s' := by
  intro hw
  obtain ⟨_, _, tree', _, _, _, _, hok, -, ⟨root, happend⟩, -⟩ := withdraw_eq_ok.mp hw
  obtain rfl : tree = tree' := Option.some.inj (hh.tree_eq.symm.trans hok.tree_eq)
  have hlt := (append_eq_ok hh.tracks happend).2.1
  rw [leaves_length, hfull] at hlt
  exact lt_irrefl _ hlt

/-- **A tree with room executes every honest withdraw**, or the run and the withdraw exhibit a
collision: nothing but a double spend empties the vault of a deposited note. -/
theorem Open.withdraw_or_exhibits {E : Extractor} (hsound : Groth16Sound env E)
    (hcomplete : Groth16Complete env) {s : PoolState} {d : UInt8} {h : List Entry}
    {config : PoolConfig} {denomination : Denomination} {tree : MerkleTree}
    (ho : Open env s d h config denomination tree) (hroom : h.length < 2 ^ MERKLE_DEPTH)
    (hroot : fullRoot env.poseidon (leaves h) ≠ 0) {c : Sdk.Commitment} {pay : Sdk.Payment}
    (hpay : Payable env s d h config denomination c pay) (feePayer : PoolSigner env)
    (slot : UInt64) :
    ∃ proof,
      let nullifierHash := nullifierHashOf env.poseidon c
      let signals := honestSignals env.poseidon c (fullRoot env.poseidon (leaves h)) pay
      Exhibits env E (h ++ [.spend { nullifierHash, proof, signals }]) ∨
      ∃ s', withdraw env s slot
        (honestAccounts env config denomination feePayer pay.recipient) d nullifierHash proof
        signals = .ok s' := by
  obtain ⟨i, hleaf⟩ := hpay.leaf
  obtain ⟨proof, hproof⟩ := exists_honest_proof hcomplete hleaf ho.tracks.bound hpay.pos hpay.le
  obtain ⟨a, hok⟩ := ho.withdrawChecked hpay hroot feePayer hproof
  exact ⟨proof, (ho.payment_le hsound hok).imp_right fun hfunds =>
    ho.withdraw_ok hpay hroot feePayer hproof hroom hfunds slot⟩

/-- **Funds are locked by a full tree, and by nothing else.**  In every state of every run in which
the pool is not paused and its verifying key is the embedded one: while the tree has room and its
root is not the zero string, each unspent note in it can make each payment it covers, unless the run
exhibits a collision; and a tree without room rejects every withdraw. -/
theorem withdraw_available {E : Extractor} (hsound : Groth16Sound env E)
    (hcomplete : Groth16Complete env) {log : List (Action env)} {s : PoolState}
    (hrun : PoolRun env log s) {d : UInt8} {config : PoolConfig} {denomination : Denomination}
    (hc : s.config = some config) (hp : config.paused = false)
    (hvk : env.embeddedVkHash = config.verifyingKeyHash)
    (hd : s.denomination d = some denomination) :
    let h := history d log
    (∃ tree, s.tree d = some tree ∧ tree.nextLeafIndex.toNat = h.length ∧
      h.length ≤ 2 ^ MERKLE_DEPTH) ∧
    (h.length < 2 ^ MERKLE_DEPTH → fullRoot env.poseidon (leaves h) ≠ 0 →
      ∀ c pay, Payable env s d h config denomination c pay → ∀ feePayer slot, ∃ proof,
        let nullifierHash := nullifierHashOf env.poseidon c
        let signals := honestSignals env.poseidon c (fullRoot env.poseidon (leaves h)) pay
        Exhibits env E (h ++ [.spend { nullifierHash, proof, signals }]) ∨
        ∃ s', withdraw env s slot
          (honestAccounts env config denomination feePayer pay.recipient) d nullifierHash proof
          signals = .ok s') ∧
    (h.length = 2 ^ MERKLE_DEPTH → ∀ slot accounts nullifierHash proof signals s',
      withdraw env s slot accounts d nullifierHash proof signals ≠ .ok s') := by
  obtain ⟨tree, ho⟩ := open_of_run hrun hc hp hvk hd
  refine ⟨⟨tree, ho.tree_eq, ?_, ?_⟩, fun hroom hroot c pay hpay feePayer slot => ?_,
    fun hfull slot accounts nullifierHash proof signals s' => ?_⟩
  · rw [ho.tracks.count, leaves_length]
  · rw [← leaves_length]
    exact ho.tracks.bound
  · exact ho.withdraw_or_exhibits hsound hcomplete hroom hroot hpay feePayer slot
  · exact withdraw_full ho.toHeld hfull

/-- A note in a tree that the others' deposits have filled. -/
theorem full_tree_locks : ∃ (log : List (Action (ideal circom))) (s : PoolState)
    (config : PoolConfig) (denomination : Denomination) (tree : MerkleTree),
    PoolRun (ideal circom) log s ∧
    Open (ideal circom) s 0 (history 0 log) config denomination tree ∧
    Payable (ideal circom) s 0 (history 0 log) config denomination someNote somePayment ∧
    ∀ slot accounts nullifierHash proof signals s',
      withdraw (ideal circom) s slot accounts 0 nullifierHash proof signals ≠ .ok s' := by
  have hlen : (Sdk.commitmentHash circom someNote ::
    List.replicate (2 ^ MERKLE_DEPTH - 1) 7).length =
      2 ^ MERKLE_DEPTH := by
    rw [List.length_cons, List.length_replicate]
    exact Nat.sub_add_cancel Nat.one_le_two_pow
  obtain ⟨log, s, config, denomination, tree, hl⟩ := exists_launched circom _ hlen.le
  have hpay := hl.payable someNote rfl (i := 0) rfl somePayment (by decide) (by decide) (.inl rfl)
  refine ⟨log, s, config, denomination, tree, hl.run, ?_, ?_, fun _ _ _ _ _ _ =>
    withdraw_full hl.toHeld ?_⟩
  · rw [hl.history_eq]
    exact hl.toOpen
  · rw [hl.history_eq]
    exact hpay
  · rw [depositEntries, List.length_map]
    exact hlen

theorem withdraw_available_paid : ∃ (log : List (Action (ideal (offZero circom)))) (s : PoolState)
    (config : PoolConfig) (denomination : Denomination) (proof : Bytes PROOF_BYTES)
    (nullifierHash : Bytes32) (signals : Vector Bytes32 PUBLIC_SIGNAL_COUNT),
    PoolRun (ideal (offZero circom)) log s ∧ (history 0 log).length = 1 ∧
    (Exhibits (ideal (offZero circom)) (idealExtractor (offZero circom))
        (history 0 log ++ [.spend { nullifierHash, proof, signals }]) ∨
      ∃ s', withdraw (ideal (offZero circom)) s 0
        (honestAccounts (ideal (offZero circom)) config denomination (admin (offZero circom))
          merchant) 0 nullifierHash proof signals = .ok s') := by
  obtain ⟨log, s, config, denomination, tree, hl⟩ :=
    exists_launched (offZero circom) [Sdk.commitmentHash (offZero circom) someNote] (by decide)
  have hlen : (history 0 log).length = 1 := by rw [hl.history_eq]; rfl
  have hpay := hl.payable someNote rfl (i := 0) rfl somePayment (by decide) (by decide) (.inl rfl)
  rw [← hl.history_eq] at hpay
  obtain ⟨proof, hproof⟩ := (withdraw_available ideal_sound ideal_complete hl.run hl.config_eq
    hl.unpaused hl.vkHash hl.denomination_eq).2.1 (by rw [hlen]; decide)
    (fullRoot_offZero circom _) someNote somePayment hpay (admin _) 0
  exact ⟨log, s, config, denomination, proof, _, _, hl.run, hlen, hproof⟩

end Qietr.Pool
