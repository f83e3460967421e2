import Qietr.Pool.FeeVault
import Qietr.Pool.VkUpgrade

/-!
# Pool — authority

Who may change the pool's configuration, and what a pause stops.  The configuration is what the log
has made it: each administrative instruction sets its own fields, and only the first admin's
succeed.

* `configAfter`: what an action does to the configuration; `config_of_step`: it does that.
* `launch?`, `adminKey?`, `pause?`, `newFeeVault?`: what an action says about it.
* `config_authority`: the admin and the fee rate are for good; every change is signed by the admin;
  nothing is deposited or withdrawn while the last pause is on.
-/

namespace Qietr.Pool

open Outcome

variable {env : PoolEnv}

/-! ### The configuration of a log -/

/-- What an action does to the configuration. -/
def configAfter (env : PoolEnv) : Option PoolConfig → Action env → Option PoolConfig
  | none, .call _ (.initializePool admin feeBps) => some (newConfig env admin.key feeBps)
  | some config, .call _ (.setPaused _ paused) => some { config with paused }
  | some config, .call _ (.setFeeVault _ feeVault) => some { config with feeVault }
  | some config, .call slot (.queueVkUpgrade _ newVkHash) =>
      some (config.queued newVkHash (slot + PENDING_VK_LOCK_SLOTS))
  | some config, .call _ (.applyVkUpgrade _) => some config.applied
  | config, _ => config

/-- The admin and the fee rate a pool is started with. -/
def launch? : Action env → Option (Pubkey × UInt16)
  | .call _ (.initializePool admin feeBps) => some (admin.key, feeBps)
  | _ => none

/-- Who signed an administrative instruction other than the first. -/
def adminKey? : Action env → Option Pubkey
  | .call _ (.initializeDenomination admin ..) | .call _ (.setPaused admin _)
  | .call _ (.queueVkUpgrade admin _) | .call _ (.applyVkUpgrade admin)
  | .call _ (.setFeeVault admin _) => some admin.key
  | _ => none

def pause? : Action env → Option Bool
  | .call _ (.setPaused _ paused) => some paused
  | _ => none

def newFeeVault? : Action env → Option Pubkey
  | .call _ (.setFeeVault _ feeVault) => some feeVault
  | _ => none

/-- Whether a log ends paused. -/
def pausedAfter (log : List (Action env)) : Bool :=
  (log.filterMap pause?).getLastD false

/-- The fee vault that a log ends with. -/
def feeVaultAfter (log : List (Action env)) : Pubkey :=
  (log.filterMap newFeeVault?).getLastD Pubkey.default

/-- An action that appends a leaf: a deposit or a withdraw. -/
def Appends (a : Action env) : Prop :=
  ∃ d, entry d a ≠ none

/-- What an action needs of the configuration that it finds. -/
structure Allowed (before : Option PoolConfig) (a : Action env) : Prop where
  launch : launch? a ≠ none → before = none
  admin : ∀ k ∈ adminKey? a, ∃ config, before = some config ∧ config.admin = k
  unpaused : Appends a → ∃ config, before = some config ∧ config.paused = false

theorem setPaused_eq_ok {s s' : PoolState} {admin : PoolSigner env} {paused : Bool} :
    setPaused env s admin paused = .ok s' ↔
      ∃ config, s.config = some config ∧
        (config.bump = env.bump .config ∧ config.admin = admin.key) ∧
        { s with config := some { config with paused } } = s' := by
  unfold setPaused
  simp only [bind_eq_ok, initialized_eq_ok, checkAdmin_eq_ok, exists_and_left, exists_const,
    Except.ok.injEq]

/-- An action that appends nothing, launches nothing and is not the admin's. -/
theorem Allowed.admin_of {config : PoolConfig} {before : Option PoolConfig} {a : Action env}
    (hc : before = some config) (hlaunch : launch? a = none)
    (hadmin : adminKey? a = some config.admin) (hentry : ∀ d, entry d a = none) :
    Allowed before a where
  launch h := absurd hlaunch h
  admin _ hk := ⟨config, hc, Option.some.inj (hadmin.symm.trans hk)⟩
  unpaused := fun ⟨d, hd⟩ => absurd (hentry d) hd

theorem Allowed.appends_of {config : PoolConfig} {before : Option PoolConfig} {a : Action env}
    (hc : before = some config) (hpaused : config.paused = false) (hlaunch : launch? a = none)
    (hadmin : adminKey? a = none) : Allowed before a where
  launch h := absurd hlaunch h
  admin _ hk := by rw [hadmin] at hk; cases hk
  unpaused _ := ⟨config, hc, hpaused⟩

/-- **One step** does to the configuration what its instruction says, and was allowed to. -/
theorem config_of_step {s s' : PoolState} {a : Action env} (h : Step env s a s') :
    s'.config = configAfter env s.config a ∧ Allowed s.config a := by
  cases h with
  | external =>
      refine ⟨?_, fun h => absurd rfl h, nofun, fun ⟨d, hd⟩ => absurd rfl hd⟩
      cases s.config <;> rfl
  | @call _ slot c hexec =>
      cases c with
      | initializePool admin feeBps =>
          obtain ⟨hnone, -, rfl⟩ := initializePool_eq_ok.mp hexec
          exact ⟨by rw [hnone]; rfl, fun _ => hnone, nofun, fun ⟨d, hd⟩ => absurd rfl hd⟩
      | initializeDenomination admin mint d amount =>
          obtain ⟨config, _, hc, -, -, -, -, -, hadmin, -, rfl⟩ :=
            initializeDenomination_eq_ok.mp hexec
          refine ⟨?_, .admin_of hc rfl (congrArg some hadmin.symm) fun _ => rfl⟩
          show s.config = _
          rw [hc]
          rfl
      | deposit accounts d commitment =>
          obtain ⟨config, _, _, _, _, _, _, hok, rfl⟩ := deposit_eq_ok.mp hexec
          refine ⟨?_, .appends_of hok.config_eq hok.unpaused rfl rfl⟩
          show s.config = _
          rw [hok.config_eq]
          rfl
      | withdraw accounts d x proof signals =>
          obtain ⟨config, _, _, _, _, _, _, hok, -, -, rfl⟩ := withdraw_eq_ok.mp hexec
          refine ⟨?_, .appends_of hok.config_eq hok.unpaused rfl rfl⟩
          show s.config = _
          rw [hok.config_eq]
          rfl
      | setPaused admin paused =>
          obtain ⟨config, hc, ⟨-, hadmin⟩, rfl⟩ := setPaused_eq_ok.mp hexec
          exact ⟨by rw [hc]; rfl, .admin_of hc rfl (congrArg some hadmin.symm) fun _ => rfl⟩
      | queueVkUpgrade admin newVkHash =>
          obtain ⟨config, hc, ⟨-, hadmin⟩, applies, happlies, rfl⟩ :=
            queueVkUpgrade_eq_ok.mp hexec
          refine ⟨?_, .admin_of hc rfl (congrArg some hadmin.symm) fun _ => rfl⟩
          obtain rfl : applies = slot + PENDING_VK_LOCK_SLOTS := by
            have hlt := applies.toNat_lt
            rw [← UInt64.toNat_inj, UInt64.toNat_add, Nat.mod_eq_of_lt (happlies ▸ hlt), happlies]
          rw [hc]
          rfl
      | applyVkUpgrade admin =>
          obtain ⟨config, hc, ⟨-, hadmin⟩, -, -, rfl⟩ := applyVkUpgrade_eq_ok.mp hexec
          exact ⟨by rw [hc]; rfl, .admin_of hc rfl (congrArg some hadmin.symm) fun _ => rfl⟩
      | setFeeVault admin feeVault =>
          obtain ⟨config, hc, -, ⟨-, hadmin⟩, rfl⟩ := setFeeVault_eq_ok.mp hexec
          exact ⟨by rw [hc]; rfl, .admin_of hc rfl (congrArg some hadmin.symm) fun _ => rfl⟩

/-! ### Runs -/

/-- The configuration that the log `log` has made. -/
structure Configured (env : PoolEnv) (log : List (Action env)) (config : PoolConfig) : Prop where
  launched : log.filterMap launch? = [(config.admin, config.feeBps)]
  admin : ∀ k ∈ log.filterMap adminKey?, k = config.admin
  paused : config.paused = pausedAfter log
  feeVault : config.feeVault = feeVaultAfter log

/-- What holds of the configuration after a log. -/
def ConfigInv (env : PoolEnv) (log : List (Action env)) : Option PoolConfig → Prop
  | none => log.filterMap launch? = [] ∧ log.filterMap adminKey? = [] ∧
      log.filterMap pause? = [] ∧ log.filterMap newFeeVault? = []
  | some config => Configured env log config

theorem filterMap_snoc {α β : Type*} (f : α → Option β) (log : List α) (a : α) :
    (log ++ [a]).filterMap f = log.filterMap f ++ (f a).toList := by
  cases h : f a <;> simp [h]

theorem getLastD_append_toList {α : Type*} (xs : List α) (o : Option α) (x : α) :
    (xs ++ o.toList).getLastD x = o.getD (xs.getLastD x) := by
  cases o with
  | none => simp
  | some a => simp

theorem pausedAfter_snoc (log : List (Action env)) (a : Action env) :
    pausedAfter (log ++ [a]) = (pause? a).getD (pausedAfter log) := by
  rw [pausedAfter, filterMap_snoc, getLastD_append_toList, pausedAfter]

theorem feeVaultAfter_snoc (log : List (Action env)) (a : Action env) :
    feeVaultAfter (log ++ [a]) = (newFeeVault? a).getD (feeVaultAfter log) := by
  rw [feeVaultAfter, filterMap_snoc, getLastD_append_toList, feeVaultAfter]

/-- What an action does to the four fields. -/
theorem configAfter_some (config : PoolConfig) (a : Action env) :
    ∃ config', configAfter env (some config) a = some config' ∧
      config'.admin = config.admin ∧ config'.feeBps = config.feeBps ∧
      config'.paused = (pause? a).getD config.paused ∧
      config'.feeVault = (newFeeVault? a).getD config.feeVault := by
  cases a with
  | external ledger => exact ⟨_, rfl, rfl, rfl, rfl, rfl⟩
  | call slot c => cases c <;> exact ⟨_, rfl, rfl, rfl, rfl, rfl⟩

theorem Configured.step {log : List (Action env)} {config : PoolConfig} {a : Action env}
    (h : Configured env log config) (hallowed : Allowed (some config) a) :
    ConfigInv env (log ++ [a]) (configAfter env (some config) a) := by
  obtain ⟨config', heq, hadmin, hfee, hpaused, hvault⟩ := configAfter_some config a
  rw [heq]
  have hlaunch : launch? a = none := by
    by_contra hne
    cases hallowed.launch hne
  refine ⟨?_, fun k hk => ?_, ?_, ?_⟩
  · rw [filterMap_snoc, h.launched, hlaunch, hadmin, hfee]
    rfl
  · rw [filterMap_snoc, List.mem_append, Option.mem_toList] at hk
    rw [hadmin]
    rcases hk with hk | hk
    · exact h.admin k hk
    · obtain ⟨_, hsome, rfl⟩ := hallowed.admin k hk
      cases hsome
      rfl
  · rw [pausedAfter_snoc, hpaused, h.paused]
  · rw [feeVaultAfter_snoc, hvault, h.feeVault]

/-- **One step** keeps it. -/
theorem ConfigInv.step {log : List (Action env)} {o : Option PoolConfig} {a : Action env}
    (h : ConfigInv env log o) (hallowed : Allowed o a) :
    ConfigInv env (log ++ [a]) (configAfter env o a) := by
  cases o with
  | some config => exact Configured.step h hallowed
  | none =>
      obtain ⟨hlaunch, hadmin, hpause, hvault⟩ := h
      have hnone : adminKey? a = none := by
        by_contra hne
        obtain ⟨k, hk⟩ := Option.ne_none_iff_exists'.mp hne
        obtain ⟨_, hsome, -⟩ := hallowed.admin k hk
        cases hsome
      cases a with
      | external ledger =>
          refine ⟨?_, ?_, ?_, ?_⟩
          · rw [filterMap_snoc, hlaunch]
            rfl
          · rw [filterMap_snoc, hadmin]
            rfl
          · rw [filterMap_snoc, hpause]
            rfl
          · rw [filterMap_snoc, hvault]
            rfl
      | call slot c =>
          cases c with
          | initializePool admin feeBps =>
              refine ⟨?_, fun k hk => ?_, ?_, ?_⟩
              · rw [filterMap_snoc, hlaunch]
                rfl
              · rw [filterMap_snoc, hadmin] at hk
                cases hk
              · rw [pausedAfter, filterMap_snoc, hpause]
                rfl
              · rw [feeVaultAfter, filterMap_snoc, hvault]
                rfl
          | deposit accounts d commitment =>
              obtain ⟨_, hsome, -⟩ := hallowed.unpaused ⟨d, by rw [entry_deposit]; simp⟩
              cases hsome
          | withdraw accounts d x proof signals =>
              obtain ⟨_, hsome, -⟩ := hallowed.unpaused ⟨d, by rw [entry_withdraw]; simp⟩
              cases hsome
          | initializeDenomination | setPaused | queueVkUpgrade | applyVkUpgrade | setFeeVault =>
              cases hnone

/-- **Every run** has it. -/
theorem configInv_of_run {log : List (Action env)} {s : PoolState} (h : PoolRun env log s) :
    ConfigInv env log s.config := by
  refine h.invariant (fun log s => ConfigInv env log s.config) (fun s hs => ?_)
    fun log s a s' _ hinv hstep => ?_
  · rw [hs.config]
    exact ⟨rfl, rfl, rfl, rfl⟩
  · obtain ⟨hconfig, hallowed⟩ := config_of_step hstep
    rw [hconfig]
    exact hinv.step hallowed

/-- **Who is in charge.**  The pool was launched once, and its admin and fee rate are those it was
launched with; every administrative instruction that succeeded was signed by that admin; the pause
and the fee vault are the last that were set.  And nothing was deposited or withdrawn but where the
last pause before was off. -/
theorem config_authority {log : List (Action env)} {s : PoolState} {config : PoolConfig}
    (hrun : PoolRun env log s) (hc : s.config = some config) :
    Configured env log config ∧ config.feeBps ≤ 10000 ∧
      ∀ before a after, log = before ++ a :: after → Appends a → pausedAfter before = false := by
  have hinv := configInv_of_run hrun
  rw [hc] at hinv
  refine ⟨hinv, ((poolInv_of_run hrun).config config hc).2, fun before a after hlog happends => ?_⟩
  obtain ⟨s₁, s₂, hrun₁, hstep⟩ := (hlog ▸ hrun).step_of_log
  obtain ⟨config₁, hc₁, hpaused⟩ := (config_of_step hstep).2.unpaused happends
  have hinv₁ := configInv_of_run hrun₁
  rw [hc₁] at hinv₁
  exact hinv₁.paused.symm.trans hpaused

/-- A denomination is opened, and the admin pauses the pool. -/
theorem exists_paused (P : Poseidon) : ∃ s config,
    PoolRun (ideal P) (launchLog (admin P) 0 usdc 0 10 ++ [.call 0 (.setPaused (admin P) true)]) s ∧
      s.config = some config ∧ config.paused = true ∧ config.bump = (ideal P).bump .config ∧
      config.admin = (admin P).key ∧ s.denomination 0 =
        some (newDenomination (ideal P) usdc 0 10) := by
  obtain ⟨config, tree, s, hrun, ho, -, hadmin, -⟩ := exists_opened P
  have hpause : exec (ideal P) s 0 (.setPaused (admin P) true) =
      .ok { s with config := some { config with paused := true } } :=
    setPaused_eq_ok.mpr ⟨config, ho.config_eq, ⟨ho.configBump, hadmin⟩, rfl⟩
  exact ⟨_, _, hrun.snoc (.call hpause), rfl, rfl, ho.configBump, hadmin, ho.denomination_eq⟩

theorem config_authority_paused : ∃ (log : List (Action (ideal circom))) (s : PoolState)
    (config : PoolConfig), PoolRun (ideal circom) log s ∧ s.config = some config ∧
      config.paused = true ∧ Configured (ideal circom) log config ∧ config.feeBps ≤ 10000 := by
  obtain ⟨s, config, hrun, hc, hpaused, -⟩ := exists_paused circom
  obtain ⟨hconfigured, hfee, -⟩ := config_authority hrun hc
  exact ⟨_, s, config, hrun, hc, hpaused, hconfigured, hfee⟩

end Qietr.Pool
