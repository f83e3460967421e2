import Qietr.Pool.Authority

/-!
# Pool — isolation and pause

A denomination is a machine of its own: its accounts are what the instructions on it have made them,
whatever is deposited and withdrawn in the others in between, and whatever the admin sets.  While
the pool is paused none of them moves.

* `View`, `localStep`: the accounts of a denomination, and what an action does to them.
* `own d log`: the actions on `d`; `denomination_noninterference`: its accounts depend on no others.
* `Untouched d s s'`: `d` is in `s'` as it was in `s`, but for tokens that its vault was given.
* `untouched_of_step`: a step that appends no leaf of `d` leaves it so.
* `pause_freezes`: a run that does not end a pause leaves every denomination so.
-/

namespace Qietr.Pool

open Outcome

variable {env : PoolEnv}

theorem Kept.refl (l : Ledger) (k : Pubkey) : Kept l l k := fun a ha =>
  ⟨a, ha, rfl, rfl, le_refl _⟩

theorem Kept.trans {l l₁ l₂ : Ledger} {k : Pubkey} (h₁ : Kept l l₁ k) (h₂ : Kept l₁ l₂ k) :
    Kept l l₂ k := by
  intro a ha
  obtain ⟨a₁, ha₁, hm₁, ho₁, hle₁⟩ := h₁ a ha
  obtain ⟨a₂, ha₂, hm₂, ho₂, hle₂⟩ := h₂ a₁ ha₁
  exact ⟨a₂, ha₂, hm₂.trans hm₁, ho₂.trans ho₁, hle₁.trans hle₂⟩

/-! ### A machine for each denomination -/

/-- The accounts of a denomination. -/
structure View where
  denomination : Option Denomination
  tree : Option MerkleTree
  nullifier : Bytes32 → Option NullifierRecord

/-- The accounts of `d`. -/
def PoolState.view (s : PoolState) (d : UInt8) : View where
  denomination := s.denomination d
  tree := s.tree d
  nullifier := s.nullifier d

/-- Before it is initialised. -/
def View.initial : View where
  denomination := none
  tree := none
  nullifier _ := none

/-- The tree with one more leaf, if there is room. -/
def grown (env : PoolEnv) (leaf : Bytes32) (tree : MerkleTree) : MerkleTree :=
  match appendTo env tree leaf with
  | .ok tree' => tree'
  | .error _ => tree

/-- What an action on `d` does to its accounts. -/
def localStep (env : PoolEnv) (d : UInt8) (v : View) : Action env → View
  | .call _ (.initializeDenomination _ mint _ amount) =>
      { v with
        denomination := some (newDenomination env mint d amount)
        tree := (initializeTree env.poseidon d (env.bump (.tree d))).toOption }
  | .call _ (.deposit _ _ commitment) =>
      { v with
        denomination := v.denomination.map fun denomination =>
          { denomination with depositCount := denomination.depositCount + 1 }
        tree := v.tree.map (grown env commitment) }
  | .call slot (.withdraw _ _ x _ signals) =>
      { v with
        tree := v.tree.map (grown env (getElem signals 5 Signal.change_lt))
        nullifier := Function.update v.nullifier x (some (nullifierRecord env d x slot)) }
  | _ => v

/-- Whether an action is on `d`. -/
def isOn (d : UInt8) : Action env → Bool
  | .call _ (.initializeDenomination _ _ d' _) | .call _ (.deposit _ d' _)
  | .call _ (.withdraw _ d' ..) => d' = d
  | _ => false

/-- The actions of a log on `d`. -/
def own (d : UInt8) (log : List (Action env)) : List (Action env) :=
  log.filter (isOn d)

theorem grown_of_append {leaf root : Bytes32} {tree tree' : MerkleTree}
    (h : (append env.poseidon leaf).run tree = .ok root tree') : grown env leaf tree = tree' := by
  rw [grown, appendTo_eq_ok.mpr ⟨root, h⟩]

/-- **A step** on a denomination does what its own machine does; any other leaves its accounts. -/
theorem view_of_step {s s' : PoolState} {a : Action env} (h : Step env s a s') (d : UInt8) :
    s'.view d = if isOn d a then localStep env d (s.view d) a else s.view d := by
  cases h with
  | external => rfl
  | @call _ slot c hexec =>
      cases c with
      | initializeDenomination admin mint d' amount =>
          obtain ⟨_, tree, -, -, -, -, -, -, -, htree, rfl⟩ := initializeDenomination_eq_ok.mp hexec
          by_cases hd : d' = d
          · subst hd
            rw [if_pos (by simp [isOn]), localStep, htree]
            simp only [PoolState.view, PoolState.deposited, Function.update_self]
            rfl
          · rw [if_neg (by simpa [isOn] using hd)]
            simp only [PoolState.view, PoolState.deposited, Function.update_of_ne (Ne.symm hd)]
      | deposit accounts d' commitment =>
          obtain ⟨_, denomination, tree, _, _, tree', count, hok, rfl⟩ := deposit_eq_ok.mp hexec
          obtain ⟨root, happend⟩ := hok.append
          by_cases hd : d' = d
          · subst hd
            have hcount : count = denomination.depositCount + 1 := by
              have hlt := count.toNat_lt
              rw [← UInt64.toNat_inj, UInt64.toNat_add, UInt64.toNat_one, ← hok.count,
                Nat.mod_eq_of_lt hlt]
            rw [if_pos (by simp [isOn]), localStep]
            simp only [PoolState.view, PoolState.deposited, Function.update_self,
              hok.denomination_eq, hok.tree_eq, Option.map_some, grown_of_append happend, hcount]
          · rw [if_neg (by simpa [isOn] using hd)]
            simp only [PoolState.view, PoolState.deposited, Function.update_of_ne (Ne.symm hd)]
      | withdraw accounts d' x proof signals =>
          obtain ⟨_, _, tree, _, _, _, tree', hok, -, ⟨root, happend⟩, rfl⟩ :=
            withdraw_eq_ok.mp hexec
          by_cases hd : d' = d
          · subst hd
            have hgrown : grown env (getElem signals 5 Signal.change_lt) tree = tree' :=
              grown_of_append happend
            rw [if_pos (by simp [isOn]), localStep]
            simp only [PoolState.view, PoolState.withdrawn, Function.update_self, hok.tree_eq,
              Option.map_some, hgrown]
          · rw [if_neg (by simpa [isOn] using hd)]
            simp only [PoolState.view, PoolState.withdrawn, Function.update_of_ne (Ne.symm hd)]
      | initializePool | setPaused | queueVkUpgrade | applyVkUpgrade | setFeeVault =>
          obtain ⟨_, -, -, rfl⟩ := exec_config hexec trivial
          rfl

/-- **The pool is the product of its denominations.** -/
theorem view_of_run {log : List (Action env)} {s : PoolState} (h : PoolRun env log s) (d : UInt8) :
    s.view d = (own d log).foldl (localStep env d) View.initial := by
  refine h.invariant (fun log s => s.view d = (own d log).foldl (localStep env d) View.initial)
    (fun s hs => ?_) fun log s a s' _ hinv hstep => ?_
  · simp only [PoolState.view, hs.denomination, hs.tree]
    exact congrArg (View.mk none none) (funext (hs.nullifier d))
  · rw [view_of_step hstep d, own, List.filter_append, List.foldl_append, ← own, ← hinv]
    by_cases hon : isOn d a = true
    · rw [if_pos hon, List.filter_cons_of_pos hon]
      rfl
    · rw [if_neg hon, List.filter_cons_of_neg hon]
      rfl

/-- **The denominations do not interfere.**  In any two runs with the same instructions on a
denomination, however these are interleaved with instructions on others, with the admin's and with
whatever happens to tokens, the denomination has the same accounts: the same count, the same tree
with the same recent roots, the same records. -/
theorem denomination_noninterference {log₁ log₂ : List (Action env)} {s₁ s₂ : PoolState}
    (h₁ : PoolRun env log₁ s₁) (h₂ : PoolRun env log₂ s₂) (d : UInt8)
    (hown : own d log₁ = own d log₂) :
    s₁.denomination d = s₂.denomination d ∧ s₁.tree d = s₂.tree d ∧
      s₁.nullifier d = s₂.nullifier d := by
  have hview : s₁.view d = s₂.view d := by rw [view_of_run h₁, view_of_run h₂, hown]
  exact ⟨congrArg View.denomination hview, congrArg View.tree hview, congrArg View.nullifier hview⟩

/-- With a pause, and without. -/
theorem denomination_noninterference_paused :
    ∃ (log₁ log₂ : List (Action (ideal circom))) (s₁ s₂ : PoolState),
      PoolRun (ideal circom) log₁ s₁ ∧ PoolRun (ideal circom) log₂ s₂ ∧ s₁.config ≠ s₂.config ∧
      s₁.denomination 0 ≠ none ∧ s₁.denomination 0 = s₂.denomination 0 ∧ s₁.tree 0 = s₂.tree 0 := by
  obtain ⟨config, tree, s, hrun, ho, -⟩ := exists_opened circom
  obtain ⟨s', config', hrun', hc', hpaused', -⟩ := exists_paused circom
  obtain ⟨hden, htree, -⟩ := denomination_noninterference hrun hrun' 0 rfl
  refine ⟨_, _, s, s', hrun, hrun', fun hsame => ?_, ?_, hden, htree⟩
  · rw [ho.config_eq, hc'] at hsame
    cases hsame
    rw [ho.unpaused] at hpaused'
    cases hpaused'
  · rw [ho.denomination_eq]
    exact Option.some_ne_none _

/-! ### What is left alone -/

/-- The accounts of `d` are as they were, and its vault has lost nothing. -/
structure Untouched (env : PoolEnv) (d : UInt8) (s s' : PoolState) : Prop where
  denomination : s'.denomination d = s.denomination d
  tree : s'.tree d = s.tree d
  nullifier : s'.nullifier d = s.nullifier d
  vault : Kept s.ledger s'.ledger (env.vault d)

namespace Untouched

variable {d : UInt8} {s s₁ s₂ : PoolState}

theorem refl (d : UInt8) (s : PoolState) : Untouched env d s s :=
  ⟨rfl, rfl, rfl, .refl _ _⟩

theorem trans (h₁ : Untouched env d s s₁) (h₂ : Untouched env d s₁ s₂) : Untouched env d s s₂ where
  denomination := h₂.denomination.trans h₁.denomination
  tree := h₂.tree.trans h₁.tree
  nullifier := h₂.nullifier.trans h₁.nullifier
  vault := h₁.vault.trans h₂.vault

end Untouched

/-! ### One step -/

/-- **A step** that appends no leaf of a denomination leaves it untouched. -/
theorem untouched_of_step {log : List (Action env)} {s s' : PoolState} {a : Action env}
    (hinv : PoolInv env log s) (h : Step env s a s') {d : UInt8}
    (hd : s.denomination d ≠ none) (hentry : entry d a = none) : Untouched env d s s' := by
  obtain ⟨denomination, hden⟩ := Option.ne_none_iff_exists'.mp hd
  obtain ⟨tree, hheld⟩ := hinv.held hden
  obtain ⟨v, hv, -, howner⟩ := hheld.vaultAccount
  cases h with
  | external hkeeps =>
      refine ⟨rfl, rfl, rfl, fun b hb => ?_⟩
      rw [hv] at hb
      cases hb
      exact hkeeps _ _ hv ⟨_, howner.symm⟩
  | @call _ slot c hexec =>
      cases c with
      | initializeDenomination admin mint d' amount =>
          obtain ⟨_, _, -, -, hvacant, -, hnew, -, -, -, rfl⟩ :=
            initializeDenomination_eq_ok.mp hexec
          have hne : d ≠ d' := by
            rintro rfl
            rw [hden] at hvacant
            cases hvacant
          exact ⟨Function.update_of_ne hne .., Function.update_of_ne hne .., rfl,
            .of_openAccount hnew⟩
      | deposit accounts d' commitment =>
          obtain ⟨_, _, _, ata, _, _, _, hok, rfl⟩ := deposit_eq_ok.mp hexec
          have hne : d ≠ d' := by
            rintro rfl
            rw [entry_deposit] at hentry
            cases hentry
          refine ⟨Function.update_of_ne hne .., Function.update_of_ne hne .., rfl, ?_⟩
          obtain ⟨ht, rfl⟩ := Ledger.transfer_eq_ok.mp hok.transfer
          -- the depositor signed, and so does not own the vault
          refine .of_moved ht.moved fun e => ?_
          have hsame : ata = v := Option.some.inj (hok.ata.symm.trans (e ▸ hv))
          exact accounts.depositor.not_derived (.vault d) (howner.symm.trans (hsame ▸ hok.owner))
      | withdraw accounts d' x proof signals =>
          obtain ⟨_, _, _, _, _, _, _, hok, hpay, -, rfl⟩ := withdraw_eq_ok.mp hexec
          have hne : d ≠ d' := by
            rintro rfl
            rw [entry_withdraw] at hentry
            cases hentry
          have hsome : s.denomination d' ≠ none := by
            rw [hok.denomination_eq]
            exact Option.some_ne_none _
          exact ⟨rfl, Function.update_of_ne hne .., Function.update_of_ne hne ..,
            .of_paidOut (paidOut_of_payOut hpay) fun e => hne (hinv.vaults d d' hd hsome e)⟩
      | initializePool | setPaused | queueVkUpgrade | applyVkUpgrade | setFeeVault =>
          obtain ⟨_, -, -, rfl⟩ := exec_config hexec trivial
          exact ⟨rfl, rfl, rfl, .refl _ _⟩

/-! ### Runs -/

/-- **A run** that appends no leaf of a denomination leaves it untouched. -/
theorem untouched_of_run {log log' : List (Action env)} {s s' : PoolState}
    (hrun : PoolRun env log s) (hlater : Run (· = s) (Step env) log' s') {d : UInt8}
    (hd : s.denomination d ≠ none) (hquiet : history d log' = []) : Untouched env d s s' := by
  induction hlater with
  | start hs =>
      subst hs
      exact .refl _ _
  | @snoc log' s₁ s' a hlater hstep ih =>
      rw [history_snoc, List.append_eq_nil_iff] at hquiet
      obtain ⟨hbefore, hlast⟩ := hquiet
      have huntouched := ih hbefore
      refine huntouched.trans (untouched_of_step (poolInv_of_run (hrun.extend hlater)) hstep ?_ ?_)
      · rw [huntouched.denomination]
        exact hd
      · cases hentry : entry d a with
        | none => rfl
        | some e => rw [hentry] at hlast; cases hlast

/-- While the pause is on, nothing is appended. -/
theorem quiet_of_paused {log : List (Action env)} {s s' : PoolState}
    (hlater : Run (· = s) (Step env) log s')
    (hpaused : ∃ config, s.config = some config ∧ config.paused = true)
    (hon : ∀ a ∈ log, pause? a ≠ some false) :
    (∃ config, s'.config = some config ∧ config.paused = true) ∧ ∀ d, history d log = [] := by
  induction hlater with
  | start hs =>
      subst hs
      exact ⟨hpaused, fun _ => rfl⟩
  | @snoc log s₁ s' a _ hstep ih =>
      obtain ⟨⟨config, hc, hpaused₁⟩, hquiet⟩ :=
        ih fun b hb => hon b (List.mem_append_left _ hb)
      obtain ⟨hconfig, hallowed⟩ := config_of_step hstep
      rw [hc] at hconfig hallowed
      obtain ⟨config', heq, -, -, hpause, -⟩ := configAfter_some config a
      refine ⟨⟨config', hconfig.trans heq, ?_⟩, fun d => ?_⟩
      · have hlast := hon a (List.mem_append_right _ (List.mem_singleton_self a))
        rw [hpause, hpaused₁]
        cases hp : pause? a with
        | none => rfl
        | some paused =>
            cases paused with
            | true => rfl
            | false => exact absurd hp hlast
      · rw [history_snoc_none, hquiet d]
        by_contra hne
        obtain ⟨_, hsome, hoff⟩ := hallowed.unpaused ⟨d, hne⟩
        cases hsome
        rw [hpaused₁] at hoff
        cases hoff

/-- **A pause stops the pool.**  From a paused state, until an instruction ends the pause, which
only the admin can sign, no deposit and no withdraw succeeds, and every denomination is left
untouched. -/
theorem pause_freezes {log log' : List (Action env)} {s s' : PoolState} {config : PoolConfig}
    (hrun : PoolRun env log s) (hc : s.config = some config) (hpaused : config.paused = true)
    (hlater : Run (· = s) (Step env) log' s') (hon : ∀ a ∈ log', pause? a ≠ some false) :
    (∀ d, history d log' = []) ∧ ∀ d, s.denomination d ≠ none → Untouched env d s s' := by
  obtain ⟨-, hquiet⟩ := quiet_of_paused hlater ⟨config, hc, hpaused⟩ hon
  exact ⟨hquiet, fun d hd => untouched_of_run hrun hlater hd (hquiet d)⟩

/-- A key is queued in the meantime. -/
theorem pause_freezes_queued : ∃ (log' : List (Action (ideal circom))) (s s' : PoolState),
    Run (· = s) (Step (ideal circom)) log' s' ∧ (lockEvents log').length = 1 ∧
      s.denomination 0 ≠ none ∧ Untouched (ideal circom) 0 s s' := by
  obtain ⟨s, config, hrun, hc, hpaused, hbump, hadmin, hden⟩ := exists_paused circom
  have hqueue : exec (ideal circom) s 0 (.queueVkUpgrade (admin circom) (Bytes.ofNat 32 2)) =
      .ok { s with config := some (config.queued (Bytes.ofNat 32 2) PENDING_VK_LOCK_SLOTS) } :=
    queueVkUpgrade_eq_ok.mpr ⟨config, hc, ⟨hbump, hadmin⟩, PENDING_VK_LOCK_SLOTS, rfl, rfl⟩
  have hstart : Run (· = s) (Step (ideal circom)) [] s := .start rfl
  have hlater := hstart.snoc (Step.call hqueue)
  have hsome : s.denomination 0 ≠ none := by
    rw [hden]
    exact Option.some_ne_none _
  obtain ⟨-, hkept⟩ := pause_freezes hrun hc hpaused hlater fun a ha => by
    rw [List.mem_singleton.mp ha]
    exact (Option.some_ne_none false).symm
  exact ⟨_, s, _, hlater, rfl, hsome, hkept 0 hsome⟩

end Qietr.Pool
