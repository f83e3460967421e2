import Qietr.Pool.Deployment

/-!
# Pool — change

A withdraw of less than the tier amount appends a leaf for the rest of it.  The program compares the
amount of every withdraw with the tier amount, so that this leaf is never spent: what it stands for
stays in the vault.

* `Later`: what may follow a state.
* `Spendable`: the holder of a note can pay from it, then or later.
* `HasAmount.later`: a denomination's tier amount does not change.
* `change_not_spendable`: no change is spendable.
-/

namespace Qietr.Pool

open Outcome Circuit

variable {env : PoolEnv}

/-! ### Later states -/

/-- `s'` follows `s`. -/
def Later (env : PoolEnv) (s s' : PoolState) : Prop :=
  ∃ log, Run (fun t => t = s) (Step env) log s'

/-- The tier amount of a denomination. -/
def HasAmount (s : PoolState) (d : UInt8) (amount : UInt64) : Prop :=
  ∃ denomination, s.denomination d = some denomination ∧ denomination.amountMicroUsdc = amount

/-- **No step changes a tier amount.** -/
theorem HasAmount.step {s s' : PoolState} {a : Action env} {d : UInt8} {amount : UInt64}
    (h : HasAmount s d amount) (hstep : Step env s a s') : HasAmount s' d amount := by
  obtain ⟨denomination, hd, hamount⟩ := h
  cases hstep with
  | external => exact ⟨denomination, hd, hamount⟩
  | @call _ slot c hexec =>
      cases c with
      | initializeDenomination admin mint d' tier =>
          obtain ⟨-, -, -, -, hvacant, -, -, -, -, -, rfl⟩ := initializeDenomination_eq_ok.mp hexec
          have hne : d ≠ d' := by
            rintro rfl
            rw [hd] at hvacant
            cases hvacant
          exact ⟨denomination, (Function.update_of_ne hne ..).trans hd, hamount⟩
      | deposit accounts d' commitment =>
          obtain ⟨_, denomination', _, _, _, _, _, hok, rfl⟩ := deposit_eq_ok.mp hexec
          by_cases e : d = d'
          · subst e
            obtain rfl : denomination = denomination' :=
              Option.some.inj (hd.symm.trans hok.denomination_eq)
            exact ⟨_, Function.update_self .., hamount⟩
          · exact ⟨denomination, (Function.update_of_ne e ..).trans hd, hamount⟩
      | withdraw accounts d' nullifierHash proof signals =>
          obtain ⟨-, -, -, -, -, -, -, -, -, -, rfl⟩ := withdraw_eq_ok.mp hexec
          exact ⟨denomination, hd, hamount⟩
      | initializePool | setPaused | queueVkUpgrade | applyVkUpgrade | setFeeVault =>
          obtain ⟨-, -, -, rfl⟩ := exec_config hexec trivial
          exact ⟨denomination, hd, hamount⟩

theorem HasAmount.later {s s' : PoolState} {d : UInt8} {amount : UInt64}
    (h : HasAmount s d amount) (hlater : Later env s s') : HasAmount s' d amount := by
  obtain ⟨log, hrun⟩ := hlater
  refine hrun.invariant (fun _ t => HasAmount t d amount) ?_ fun _ _ _ _ _ ht hstep => ht.step hstep
  rintro t rfl
  exact h

/-! ### Spending a note -/

/-- In `s` or later, a withdraw from the denomination `d` succeeds that pays `payment` from the note
`(secret, nullifier)` of `amount`. -/
def Spendable (env : PoolEnv) (s : PoolState) (d : UInt8) (secret nullifier : F)
    (amount payment : ℕ) : Prop :=
  ∃ s', Later env s s' ∧ ∃ slot accounts nullifierHash proof signals s'',
    withdraw env s' slot accounts d nullifierHash proof signals = .ok s'' ∧
    ∃ newSecret newNullifier path, Opens env.poseidon (publicOf signals) secret nullifier newSecret
      newNullifier path amount payment

/-- Every payment from the note can be made. -/
def FullySpendable (env : PoolEnv) (s : PoolState) (d : UInt8) (secret nullifier : F)
    (amount : ℕ) : Prop :=
  ∀ payment, 1 ≤ payment → payment ≤ amount → Spendable env s d secret nullifier amount payment

/-- A note of any other amount than the tier's is never spent. -/
theorem not_spendable {s : PoolState} {d : UInt8} {tier : UInt64} (hs : HasAmount s d tier)
    {secret nullifier : F} {amount payment : ℕ} (hne : amount ≠ tier.toNat) :
    ¬ Spendable env s d secret nullifier amount payment := by
  rintro ⟨s', hlater, slot, accounts, nullifierHash, proof, signals, s'', hw, _, _, _, ho⟩
  obtain ⟨denomination, hd, rfl⟩ := hs.later hlater
  obtain ⟨_, denomination', _, _, _, _, _, hok, -⟩ := withdraw_eq_ok.mp hw
  obtain rfl : denomination = denomination' := Option.some.inj (hd.symm.trans hok.denomination_eq)
  -- the first signal is both amounts
  have hsignal : (publicOf signals).amount = (denomination.amountMicroUsdc.toNat : F) := by
    show decode signals[0] = _
    rw [hok.signals.amount, decode_fieldFromU64]
  refine hne (natCast_inj (ho.lt.trans two_pow_64_lt_r)
    (denomination.amountMicroUsdc.toNat_lt.trans two_pow_64_lt_r) ?_)
  rw [← ho.amount_eq, hsignal]

/-- A withdraw from `s` to `s'` that pays part of the tier amount, and whose change commitment is
the note `(newSecret, newNullifier)` of `change`. -/
def LeavesChange (env : PoolEnv) (s s' : PoolState) (d : UInt8) (newSecret newNullifier : F)
    (change : ℕ) : Prop :=
  ∃ slot accounts nullifierHash proof signals denomination payment,
    withdraw env s slot accounts d nullifierHash proof signals = .ok s' ∧
    s.denomination d = some denomination ∧
    (getElem signals 4 Signal.payment_lt).toNat = payment ∧ 0 < payment ∧
    payment < denomination.amountMicroUsdc.toNat ∧
    change = denomination.amountMicroUsdc.toNat - payment ∧
    decode (getElem signals 5 Signal.change_lt) =
      env.poseidon.three newSecret newNullifier (change : F)

/-- What is left of a note is less than the tier amount. -/
theorem LeavesChange.lt {s s' : PoolState} {d : UInt8} {newSecret newNullifier : F} {change : ℕ}
    (h : LeavesChange env s s' d newSecret newNullifier change) :
    ∃ tier, HasAmount s' d tier ∧ 1 ≤ change ∧ change < tier.toNat := by
  obtain ⟨slot, accounts, nullifierHash, proof, signals, denomination, payment, hw, hd, -, hpos,
    hlt, rfl, -⟩ := h
  have hs : HasAmount s d denomination.amountMicroUsdc := ⟨denomination, hd, rfl⟩
  have hstep : Step env s (.call slot (.withdraw accounts d nullifierHash proof signals)) s' :=
    .call hw
  exact ⟨_, hs.step hstep, by omega, by omega⟩

/-- **Change is not spendable.**  Whenever a withdraw leaves change, no payment from it ever
succeeds. -/
theorem change_not_spendable {s s' : PoolState} {d : UInt8} {newSecret newNullifier : F}
    {change : ℕ} (h : LeavesChange env s s' d newSecret newNullifier change) :
    (∀ payment, ¬ Spendable env s' d newSecret newNullifier change payment) ∧
      ¬ FullySpendable env s' d newSecret newNullifier change := by
  obtain ⟨tier, hs, hpos, hlt⟩ := h.lt
  have hnone : ∀ payment, ¬ Spendable env s' d newSecret newNullifier change payment :=
    fun payment => not_spendable hs hlt.ne
  exact ⟨hnone, fun hall => hnone 1 (hall 1 (le_refl 1) hpos)⟩

/-- A run with an honest withdraw that leaves change, into a denomination that is open and has
room. -/
theorem exists_leavesChange : ∃ (log : List (Action (ideal (offZero circom)))) (s s' : PoolState)
    (config : PoolConfig) (denomination : Denomination) (tree : MerkleTree),
    PoolRun (ideal (offZero circom)) log s' ∧
    LeavesChange (ideal (offZero circom)) s s' 0 somePayment.newSecret somePayment.newNullifier 6 ∧
    Open (ideal (offZero circom)) s' 0 (history 0 log) config denomination tree ∧
    (history 0 log).length = 2 := by
  obtain ⟨log, s, config, denomination, tree, proof, s', hl, -, hw⟩ :=
    exists_paid (fullRoot_offZero circom) someNote rfl somePayment (by decide) (by decide)
      (.inl rfl)
  have hrun := hl.run.snoc (.call hw : Step _ s (.call 0 (.withdraw _ 0 _ proof _)) s')
  obtain ⟨hconfig, hden⟩ : s'.config = some config ∧ s'.denomination 0 = some denomination := by
    obtain ⟨-, -, -, -, -, -, -, -, -, -, rfl⟩ := withdraw_eq_ok.mp hw
    exact ⟨hl.config_eq, hl.denomination_eq⟩
  obtain ⟨tree', ho⟩ := open_of_run hrun hconfig hl.unpaused hl.vkHash hden
  have hten : denomination.amountMicroUsdc.toNat = 10 := by rw [hl.amount]; rfl
  refine ⟨_, s, s', config, denomination, tree', hrun, ⟨0, _, _, proof, _, denomination, 4, hw,
    hl.denomination_eq, ?_, by decide, by rw [hten]; decide, by rw [hten], ?_⟩, ho, ?_⟩
  · rw [honestSignals_payment]
    rfl
  · have hsix : someNote.amount.toNat - somePayment.paymentAmount.toNat = 6 := by decide
    rw [honestSignals_change, decode_encode, Sdk.changeOf, hsix]
    rfl
  · rw [history_snoc_some entry_withdraw, hl.history_eq]
    rfl

/-- The change of that withdraw is lost. -/
theorem change_lost : ∃ (log : List (Action (ideal (offZero circom)))) (s s' : PoolState)
    (config : PoolConfig) (denomination : Denomination) (tree : MerkleTree),
    PoolRun (ideal (offZero circom)) log s' ∧
    LeavesChange (ideal (offZero circom)) s s' 0 somePayment.newSecret somePayment.newNullifier 6 ∧
    somePayment.newNullifier ≠ someNote.nullifier ∧
    Open (ideal (offZero circom)) s' 0 (history 0 log) config denomination tree ∧
    (history 0 log).length = 2 ∧
    ¬ FullySpendable (ideal (offZero circom)) s' 0 somePayment.newSecret somePayment.newNullifier
      6 := by
  obtain ⟨log, s, s', config, denomination, tree, hrun, hchange, ho, hlen⟩ := exists_leavesChange
  obtain ⟨tier, hs, -, hlt⟩ := hchange.lt
  refine ⟨log, s, s', config, denomination, tree, hrun, hchange, ?_, ho, hlen, fun hall => ?_⟩
  · exact fun e => absurd (natCast_inj (two_pow_64_lt_r.trans' (by decide))
      (two_pow_64_lt_r.trans' (by decide)) (by exact_mod_cast e)) (by decide : (6 : ℕ) ≠ 2)
  · exact not_spendable hs hlt.ne (hall 1 (by decide) (by decide))

theorem change_not_spendable_six : ∃ (s s' : PoolState),
    LeavesChange (ideal (offZero circom)) s s' 0 somePayment.newSecret somePayment.newNullifier 6 ∧
    ∀ payment, ¬ Spendable (ideal (offZero circom)) s' 0 somePayment.newSecret
      somePayment.newNullifier 6 payment := by
  obtain ⟨-, s, s', -, -, -, -, hchange, -⟩ := exists_leavesChange
  exact ⟨s, s', hchange, (change_not_spendable hchange).1⟩

end Qietr.Pool
