import Qietr.Pool.Deployment

/-!
# Pool — nullifier records

What the program remembers of the notes that were spent: an account for each, which no instruction
but a withdraw creates, and none closes or rewrites.

* `spendSlots d x log`: when the nullifier `x` was spent in the denomination `d`.
* `record_of_step`: what one step does to a record.
* `records_are_spends`: the records are the spends of the log, each of them once and for good.
* `openings d log`, `denomination_of_run`: the same of the denominations.
-/

namespace Qietr.Pool

open Outcome

variable {env : PoolEnv}

/-- The slot in which an action spends the nullifier `x` of `d`. -/
def spendSlot (d : UInt8) (x : Bytes32) : Action env → Option UInt64
  | .call slot (.withdraw _ d' x' _ _) => if d' = d ∧ x' = x then some slot else none
  | _ => none

/-- The slots in which the log spent it. -/
def spendSlots (d : UInt8) (x : Bytes32) (log : List (Action env)) : List UInt64 :=
  log.filterMap (spendSlot d x)

theorem spendSlots_snoc (d : UInt8) (x : Bytes32) (log : List (Action env)) (a : Action env) :
    spendSlots d x (log ++ [a]) = spendSlots d x log ++ (spendSlot d x a).toList := by
  cases h : spendSlot d x a <;> simp [spendSlots, h]

theorem spendSlot_withdraw {slot : UInt64} {accounts : WithdrawAccounts env} {d : UInt8}
    {x : Bytes32} {proof : Bytes PROOF_BYTES} {signals : Vector Bytes32 PUBLIC_SIGNAL_COUNT} :
    spendSlot d x (.call slot (.withdraw accounts d x proof signals)) = some slot :=
  if_pos ⟨rfl, rfl⟩

/-- **One step**: a spend creates the record, where there was none; every other step leaves what
there is. -/
theorem record_of_step {s s' : PoolState} {a : Action env} (h : Step env s a s') (d : UInt8)
    (x : Bytes32) :
    (spendSlot d x a = none ∧ s'.nullifier d x = s.nullifier d x) ∨
      ∃ slot, spendSlot d x a = some slot ∧ s.nullifier d x = none ∧
        s'.nullifier d x = some (nullifierRecord env d x slot) := by
  cases h with
  | external => exact .inl ⟨rfl, rfl⟩
  | @call _ slot c hexec =>
      cases c with
      | initializeDenomination admin mint d' amount =>
          obtain ⟨_, _, _, _, _, _, _, _, _, _, rfl⟩ := initializeDenomination_eq_ok.mp hexec
          exact .inl ⟨rfl, rfl⟩
      | deposit accounts d' commitment =>
          obtain ⟨_, _, _, _, _, _, _, _, rfl⟩ := deposit_eq_ok.mp hexec
          exact .inl ⟨rfl, rfl⟩
      | withdraw accounts d' x' proof signals =>
          obtain ⟨_, _, _, _, _, _, _, hok, -, -, rfl⟩ := withdraw_eq_ok.mp hexec
          by_cases hsame : d' = d ∧ x' = x
          · obtain ⟨rfl, rfl⟩ := hsame
            refine .inr ⟨slot, spendSlot_withdraw, hok.unspent, ?_⟩
            show Function.update s.nullifier d' _ d' x' = _
            rw [Function.update_self, Function.update_self]
          · refine .inl ⟨if_neg hsame, ?_⟩
            show Function.update s.nullifier d' _ d x = _
            by_cases hd : d' = d
            · subst hd
              rw [Function.update_self,
                Function.update_of_ne fun hx => hsame ⟨rfl, hx.symm⟩]
            · rw [Function.update_of_ne (Ne.symm hd)]
      | initializePool | setPaused | queueVkUpgrade | applyVkUpgrade | setFeeVault =>
          obtain ⟨_, -, -, rfl⟩ := exec_config hexec trivial
          exact .inl ⟨rfl, rfl⟩

/-- A record stays as it is, and its nullifier is not spent again. -/
theorem record_stays {s s' : PoolState} {log : List (Action env)}
    (h : Run (· = s) (Step env) log s')
    {d : UInt8} {x : Bytes32} {record : NullifierRecord} (hrecord : s.nullifier d x = some record) :
    spendSlots d x log = [] ∧ s'.nullifier d x = some record := by
  refine h.invariant (fun log s' => spendSlots d x log = [] ∧ s'.nullifier d x = some record)
    (fun s₀ hs₀ => ?_) fun log s₁ a s₂ _ hinv hstep => ?_
  · exact ⟨rfl, hs₀ ▸ hrecord⟩
  · obtain ⟨hlog, hkeep⟩ := hinv
    rcases record_of_step hstep d x with ⟨hnone, hsame⟩ | ⟨_, -, hfresh, -⟩
    · rw [spendSlots_snoc, hlog, hnone, hsame]
      exact ⟨rfl, hkeep⟩
    · rw [hkeep] at hfresh
      cases hfresh

/-- No withdraw with it succeeds. -/
theorem withdraw_ne_ok {s s' : PoolState} {log : List (Action env)}
    (h : Run (· = s) (Step env) log s') {d : UInt8} {x : Bytes32} {record : NullifierRecord}
    (hrecord : s.nullifier d x = some record) (slot : UInt64) (accounts : WithdrawAccounts env)
    (proof : Bytes PROOF_BYTES) (signals : Vector Bytes32 PUBLIC_SIGNAL_COUNT) (s'' : PoolState) :
    withdraw env s' slot accounts d x proof signals ≠ .ok s'' := by
  intro hok
  obtain ⟨-, hkeep⟩ := record_stays h hrecord
  obtain ⟨_, _, _, _, _, _, _, hchecked, -⟩ := withdraw_eq_ok.mp hok
  rw [hchecked.unspent] at hkeep
  cases hkeep

/-- What a log has spent is what is recorded. -/
def Recorded (d : UInt8) (x : Bytes32) (log : List (Action env)) (s : PoolState) : Prop :=
  (spendSlots d x log = [] ∧ s.nullifier d x = none) ∨
    ∃ slot, spendSlots d x log = [slot] ∧ s.nullifier d x = some (nullifierRecord env d x slot)

theorem recorded_of_run {log : List (Action env)} {s : PoolState} (h : PoolRun env log s)
    (d : UInt8) (x : Bytes32) : Recorded d x log s := by
  refine h.invariant (Recorded d x) (fun s hs => .inl ⟨rfl, hs.nullifier d x⟩)
    fun log s a s' _ hinv hstep => ?_
  rcases hinv with ⟨hlog, hnone⟩ | ⟨slot, hlog, hsome⟩
  · rcases record_of_step hstep d x with ⟨hquiet, hsame⟩ | ⟨slot, hspend, -, hnew⟩
    · refine .inl ⟨?_, hsame.trans hnone⟩
      rw [spendSlots_snoc, hlog, hquiet]
      rfl
    · refine .inr ⟨slot, ?_, hnew⟩
      rw [spendSlots_snoc, hlog, hspend]
      rfl
  · obtain ⟨hquiet, hkeep⟩ := record_stays (Run.snoc (.start rfl) hstep) hsome
    refine .inr ⟨slot, ?_, hkeep⟩
    rw [spendSlots, List.filterMap_append]
    exact congrArg₂ (· ++ ·) hlog hquiet

/-- **The records are the spends.**  In every state there is a record of a nullifier just when the
log has spent it, which it has then done once, in the slot that the record names.  From there on the
record stays as it is, whatever anybody does, and no withdraw with that nullifier succeeds. -/
theorem records_are_spends {log : List (Action env)} {s : PoolState} (h : PoolRun env log s)
    (d : UInt8) (x : Bytes32) :
    Recorded d x log s ∧
    ∀ record, s.nullifier d x = some record → ∀ log' s', Run (· = s) (Step env) log' s' →
      s'.nullifier d x = some record ∧
      ∀ slot accounts proof signals s'',
        withdraw env s' slot accounts d x proof signals ≠ .ok s'' := by
  refine ⟨recorded_of_run h d x, fun record hrecord log' s' hlater => ?_⟩
  exact ⟨(record_stays hlater hrecord).2, withdraw_ne_ok hlater hrecord⟩

/-- A note that was spent in the slot `0`. -/
theorem records_are_spends_once : ∃ (log : List (Action (ideal (offZero circom)))) (s : PoolState)
    (d : UInt8) (x : Bytes32), PoolRun (ideal (offZero circom)) log s ∧
      spendSlots d x log = [0] ∧ Recorded d x log s := by
  obtain ⟨log, s, _, _, _, proof, s', hl, -, hw⟩ := exists_paid (P := offZero circom)
    (fullRoot_offZero circom) someNote rfl somePayment (by decide) (by decide) (.inl rfl)
  have hrun := hl.run.snoc (Step.call (c := .withdraw _ _ _ _ _) hw)
  have hrecorded := (records_are_spends hrun 0 (nullifierHashOf (offZero circom) someNote)).1
  refine ⟨_, s', 0, nullifierHashOf (offZero circom) someNote, hrun, ?_, hrecorded⟩
  rcases recorded_of_run hl.run 0 (nullifierHashOf (offZero circom) someNote) with
    ⟨hlog, -⟩ | ⟨_, -, hsome⟩
  · rw [spendSlots_snoc, hlog, spendSlot_withdraw]
    rfl
  · rw [hl.fresh] at hsome
    cases hsome

/-! ### Denominations -/

/-- The amount with which an action initialises the denomination `d`. -/
def opening (d : UInt8) : Action env → Option UInt64
  | .call _ (.initializeDenomination _ _ d' amount) => if d' = d then some amount else none
  | _ => none

/-- The amounts with which it was initialised. -/
def openings (d : UInt8) (log : List (Action env)) : List UInt64 :=
  log.filterMap (opening d)

/-- There is a denomination just when it was initialised, which was once; its name, amount and vault
stay. -/
def Opened (d : UInt8) (log : List (Action env)) (s : PoolState) : Prop :=
  (openings d log = [] ∧ s.denomination d = none) ∨
    ∃ amount x, openings d log = [amount] ∧ s.denomination d = some x ∧ x.denomId = d ∧
      x.amountMicroUsdc = amount ∧ x.vault = env.vault d

theorem openings_snoc (d : UInt8) (log : List (Action env)) (a : Action env) :
    openings d (log ++ [a]) = openings d log ++ (opening d a).toList := by
  cases h : opening d a <;> simp [openings, h]

/-- **One step**: a denomination is initialised once, where there was none. -/
theorem denomination_of_step {s s' : PoolState} {a : Action env} (h : Step env s a s') (d : UInt8) :
    (opening d a = none ∧ ((s.denomination d = none ∧ s'.denomination d = none) ∨
      ∃ x count, s.denomination d = some x ∧
        s'.denomination d = some { x with depositCount := count })) ∨
    ∃ mint amount, opening d a = some amount ∧ s.denomination d = none ∧
      s'.denomination d = some (newDenomination env mint d amount) := by
  have hsame : s'.denomination d = s.denomination d → opening d a = none →
      (opening d a = none ∧ ((s.denomination d = none ∧ s'.denomination d = none) ∨
        ∃ x count, s.denomination d = some x ∧
          s'.denomination d = some { x with depositCount := count })) := by
    intro heq hnone
    refine ⟨hnone, ?_⟩
    cases hd : s.denomination d with
    | none => exact .inl ⟨rfl, heq.trans hd⟩
    | some x => exact .inr ⟨x, x.depositCount, rfl, heq.trans hd⟩
  cases h with
  | external => exact .inl (hsame rfl rfl)
  | @call _ slot c hexec =>
      cases c with
      | initializeDenomination admin mint d' amount =>
          obtain ⟨_, tree, -, -, hvacant, -, -, -, -, -, rfl⟩ :=
            initializeDenomination_eq_ok.mp hexec
          by_cases hd : d' = d
          · subst hd
            exact .inr ⟨mint, amount, if_pos rfl, hvacant, Function.update_self ..⟩
          · exact .inl (hsame (Function.update_of_ne (Ne.symm hd) ..) (if_neg hd))
      | deposit accounts d' commitment =>
          obtain ⟨_, denomination, _, _, _, _, count, hok, rfl⟩ := deposit_eq_ok.mp hexec
          by_cases hd : d' = d
          · subst hd
            exact .inl ⟨rfl, .inr ⟨denomination, count, hok.denomination_eq,
              Function.update_self ..⟩⟩
          · exact .inl (hsame (Function.update_of_ne (Ne.symm hd) ..) rfl)
      | withdraw accounts d' x proof signals =>
          obtain ⟨_, _, _, _, _, _, _, -, -, -, rfl⟩ := withdraw_eq_ok.mp hexec
          exact .inl (hsame rfl rfl)
      | initializePool | setPaused | queueVkUpgrade | applyVkUpgrade | setFeeVault =>
          obtain ⟨_, -, -, rfl⟩ := exec_config hexec trivial
          exact .inl (hsame rfl rfl)

theorem denomination_of_run {log : List (Action env)} {s : PoolState} (h : PoolRun env log s)
    (d : UInt8) : Opened d log s := by
  refine h.invariant (Opened d) (fun s hs => .inl ⟨rfl, hs.denomination d⟩)
    fun log s a s' _ hinv hstep => ?_
  rcases denomination_of_step hstep d with ⟨hquiet, hkeep⟩ | ⟨mint, amount, hopen, hnone, hnew⟩
  · rcases hinv with ⟨hlog, hnone⟩ | ⟨amount, x, hlog, hsome, hid, hamount, hvault⟩
    · rcases hkeep with ⟨-, hnone'⟩ | ⟨_, _, hsome, -⟩
      · refine .inl ⟨?_, hnone'⟩
        rw [openings_snoc, hlog, hquiet]
        rfl
      · rw [hnone] at hsome
        cases hsome
    · rcases hkeep with ⟨hnone, -⟩ | ⟨x', count, hx', hnext⟩
      · rw [hsome] at hnone
        cases hnone
      · rw [hsome] at hx'
        cases hx'
        refine .inr ⟨amount, _, ?_, hnext, hid, hamount, hvault⟩
        rw [openings_snoc, hlog, hquiet]
        rfl
  · rcases hinv with ⟨hlog, -⟩ | ⟨_, _, _, hsome, -⟩
    · refine .inr ⟨amount, _, ?_, hnew, rfl, rfl, rfl⟩
      rw [openings_snoc, hlog, hopen]
      rfl
    · rw [hnone] at hsome
      cases hsome

end Qietr.Pool
