import Qietr.Library.TimeLock
import Qietr.Pool.Deployment

/-!
# Pool — verifying-key upgrades

The hash of the verifying key is replaced under a time lock: `queue_vk_upgrade` announces a new one,
and `apply_vk_upgrade` installs it two days later.

* `lockEvents log`: what a log did to the lock.
* `VkInv`: the configuration is a state of the time lock that those events lead to.
* `verifying_key_time_lock`: where the installed hash comes from, and what a withdraw needs of it.
-/

namespace Qietr.Pool

open Outcome

/-! ### The events of a log -/

/-- What an action does to the time lock. -/
def lockEvent {env : PoolEnv} : Action env → Option (LockEvent Pubkey Bytes32)
  | .call slot (.queueVkUpgrade admin newVkHash) => some (.queue slot.toNat admin.key newVkHash)
  | .call slot (.applyVkUpgrade admin) => some (.apply slot.toNat admin.key)
  | _ => none

/-- What a log did to it. -/
def lockEvents {env : PoolEnv} (log : List (Action env)) : List (LockEvent Pubkey Bytes32) :=
  log.filterMap lockEvent

variable {env : PoolEnv}

theorem lockEvents_snoc (log : List (Action env)) (a : Action env) :
    lockEvents (log ++ [a]) = lockEvents log ++ (lockEvent a).toList := by
  cases h : lockEvent a <;> simp [lockEvents, h]

/-! ### The three instructions of the lock -/

/-- The configuration a pool starts with. -/
def newConfig (env : PoolEnv) (admin : Pubkey) (feeBps : UInt16) : PoolConfig where
  admin
  feeBps
  paused := false
  verifyingKeyHash := env.embeddedVkHash
  pendingVkHash := zero32
  pendingAppliesAtSlot := 0
  feeVault := Pubkey.default
  bump := env.bump .config

/-- What queueing leaves. -/
def PoolConfig.queued (config : PoolConfig) (newVkHash : Bytes32) (pendingAppliesAtSlot : UInt64) :
    PoolConfig :=
  { config with pendingVkHash := newVkHash, pendingAppliesAtSlot }

/-- What applying leaves. -/
def PoolConfig.applied (config : PoolConfig) : PoolConfig :=
  { config with
    verifyingKeyHash := config.pendingVkHash
    pendingVkHash := zero32
    pendingAppliesAtSlot := 0 }

theorem initializePool_eq_ok {s s' : PoolState} {admin : PoolSigner env} {feeBps : UInt16} :
    initializePool env s admin feeBps = .ok s' ↔ s.config = none ∧ feeBps ≤ 10000 ∧
      { s with config := some (newConfig env admin.key feeBps) } = s' := by
  unfold initializePool
  simp only [bind_eq_ok, vacant_eq_ok, require_eq_ok, exists_and_left, exists_const,
    Except.ok.injEq, newConfig]

theorem queueVkUpgrade_eq_ok {s s' : PoolState} {slot : UInt64} {admin : PoolSigner env}
    {newVkHash : Bytes32} :
    queueVkUpgrade env s slot admin newVkHash = .ok s' ↔
      ∃ config, s.config = some config ∧
        (config.bump = env.bump .config ∧ config.admin = admin.key) ∧
        ∃ applies : UInt64, applies.toNat = slot.toNat + PENDING_VK_LOCK_SLOTS.toNat ∧
          { s with config := some (config.queued newVkHash applies) } = s' := by
  unfold queueVkUpgrade
  simp only [bind_eq_ok, initialized_eq_ok, checkAdmin_eq_ok, okOr_eq_ok, checkedAdd_eq_some,
    exists_and_left, exists_const, Except.ok.injEq, PoolConfig.queued]

theorem applyVkUpgrade_eq_ok {s s' : PoolState} {slot : UInt64} {admin : PoolSigner env} :
    applyVkUpgrade env s slot admin = .ok s' ↔
      ∃ config, s.config = some config ∧
        (config.bump = env.bump .config ∧ config.admin = admin.key) ∧
        config.pendingAppliesAtSlot ≠ 0 ∧ config.pendingAppliesAtSlot ≤ slot ∧
        { s with config := some config.applied } = s' := by
  unfold applyVkUpgrade
  simp only [bind_eq_ok, initialized_eq_ok, checkAdmin_eq_ok, require_eq_ok, exists_and_left,
    exists_const, Except.ok.injEq, PoolConfig.applied]

/-! ### What a step leaves of the lock -/

/-- The fields that the lock is about. -/
structure SameLock (config config' : PoolConfig) : Prop where
  admin : config'.admin = config.admin
  verifyingKeyHash : config'.verifyingKeyHash = config.verifyingKeyHash
  pendingVkHash : config'.pendingVkHash = config.pendingVkHash
  pendingAppliesAtSlot : config'.pendingAppliesAtSlot = config.pendingAppliesAtSlot

/-- What a step does to the lock, by what it does to the configuration. -/
inductive LockStep (env : PoolEnv) :
    Option PoolConfig → Option (LockEvent Pubkey Bytes32) → Option PoolConfig → Prop
  | absent : LockStep env none none none
  | launch (admin : Pubkey) (feeBps : UInt16) :
      LockStep env none none (some (newConfig env admin feeBps))
  | same {config config' : PoolConfig} (h : SameLock config config') :
      LockStep env (some config) none (some config')
  | queue {config : PoolConfig} {slot : ℕ} {applies : UInt64} (newVkHash : Bytes32)
      (happlies : applies.toNat = slot + PENDING_VK_LOCK_SLOTS.toNat) :
      LockStep env (some config) (some (.queue slot config.admin newVkHash))
        (some (config.queued newVkHash applies))
  | apply {config : PoolConfig} {slot : ℕ} (hne : config.pendingAppliesAtSlot ≠ 0)
      (hle : config.pendingAppliesAtSlot.toNat ≤ slot) :
      LockStep env (some config) (some (.apply slot config.admin)) (some config.applied)

theorem LockStep.refl (o : Option PoolConfig) : LockStep env o none o := by
  cases o with
  | none => exact .absent
  | some config => exact .same ⟨rfl, rfl, rfl, rfl⟩

/-- **Every step** is one of those. -/
theorem lockStep_of_step {s s' : PoolState} {a : Action env} (h : Step env s a s') :
    LockStep env s.config (lockEvent a) s'.config := by
  cases h with
  | external => exact .refl _
  | @call _ slot c hexec =>
      cases c with
      | initializePool admin feeBps =>
          obtain ⟨hnone, -, rfl⟩ := initializePool_eq_ok.mp hexec
          rw [hnone]
          exact .launch admin.key feeBps
      | queueVkUpgrade admin newVkHash =>
          obtain ⟨config, hc, ⟨-, hadmin⟩, applies, happlies, rfl⟩ :=
            queueVkUpgrade_eq_ok.mp hexec
          rw [hc, lockEvent, ← hadmin]
          exact .queue newVkHash happlies
      | applyVkUpgrade admin =>
          obtain ⟨config, hc, ⟨-, hadmin⟩, hne, hle, rfl⟩ := applyVkUpgrade_eq_ok.mp hexec
          rw [hc, lockEvent, ← hadmin]
          exact .apply hne (UInt64.le_iff_toNat_le.mp hle)
      | setPaused admin paused =>
          simp only [exec, setPaused, bind_eq_ok, initialized_eq_ok, Except.ok.injEq] at hexec
          obtain ⟨config, hc, -, -, rfl⟩ := hexec
          rw [hc]
          exact .same ⟨rfl, rfl, rfl, rfl⟩
      | setFeeVault admin feeVault =>
          simp only [exec, setFeeVault, bind_eq_ok, initialized_eq_ok, Except.ok.injEq] at hexec
          obtain ⟨config, hc, -, -, -, -, rfl⟩ := hexec
          rw [hc]
          exact .same ⟨rfl, rfl, rfl, rfl⟩
      | initializeDenomination admin mint d amount =>
          obtain ⟨_, _, _, _, _, _, _, _, _, _, rfl⟩ := initializeDenomination_eq_ok.mp hexec
          exact .refl _
      | deposit accounts d commitment =>
          obtain ⟨_, _, _, _, _, _, _, _, rfl⟩ := deposit_eq_ok.mp hexec
          exact .refl _
      | withdraw accounts d nullifierHash proof signals =>
          obtain ⟨_, _, _, _, _, _, _, _, _, _, rfl⟩ := withdraw_eq_ok.mp hexec
          exact .refl _

/-! ### Runs -/

/-- The stored form of what is pending: a slot of zero stands for nothing. -/
def Pending (config : PoolConfig) : Option (ℕ × Bytes32) → Prop
  | none => config.pendingAppliesAtSlot = 0
  | some (slot, newVkHash) => config.pendingVkHash = newVkHash ∧
      config.pendingAppliesAtSlot.toNat = slot + PENDING_VK_LOCK_SLOTS.toNat

/-- The configuration is where the events have led the time lock. -/
structure Locked (env : PoolEnv) (events : List (LockEvent Pubkey Bytes32)) (config : PoolConfig)
    (pending : Option (ℕ × Bytes32)) : Prop where
  lock : TimeLock PENDING_VK_LOCK_SLOTS.toNat env.embeddedVkHash events config.verifyingKeyHash
    pending
  pending : Pending config pending
  admin : ∀ e ∈ events, e.key = config.admin

/-- What holds of the lock after a log. -/
def VkInv (env : PoolEnv) (events : List (LockEvent Pubkey Bytes32)) : Option PoolConfig → Prop
  | none => events = []
  | some config => ∃ pending, Locked env events config pending

theorem Locked.same {events : List (LockEvent Pubkey Bytes32)} {config config' : PoolConfig}
    {pending : Option (ℕ × Bytes32)} (h : Locked env events config pending)
    (hsame : SameLock config config') : Locked env events config' pending where
  lock := hsame.verifyingKeyHash ▸ h.lock
  pending := by
    have hp := h.pending
    cases pending with
    | none => exact hsame.pendingAppliesAtSlot.trans hp
    | some p => exact ⟨hsame.pendingVkHash.trans hp.1, hsame.pendingAppliesAtSlot ▸ hp.2⟩
  admin e he := (h.admin e he).trans hsame.admin.symm

/-- Applying is only possible while something is pending. -/
theorem Locked.pending_of_ne {events : List (LockEvent Pubkey Bytes32)} {config : PoolConfig}
    {pending : Option (ℕ × Bytes32)} (h : Locked env events config pending)
    (hne : config.pendingAppliesAtSlot ≠ 0) : ∃ slot, pending = some (slot, config.pendingVkHash) ∧
      config.pendingAppliesAtSlot.toNat = slot + PENDING_VK_LOCK_SLOTS.toNat := by
  have hp := h.pending
  rcases pending with _ | ⟨slot, newVkHash⟩
  · exact absurd hp hne
  · obtain ⟨rfl, happlies⟩ := hp
    exact ⟨slot, rfl, happlies⟩

/-- **One step** keeps the lock. -/
theorem VkInv.step {events : List (LockEvent Pubkey Bytes32)} {o o' : Option PoolConfig}
    {e : Option (LockEvent Pubkey Bytes32)} (hinv : VkInv env events o)
    (hstep : LockStep env o e o') : VkInv env (events ++ e.toList) o' := by
  cases hstep with
  | absent => simpa using hinv
  | launch admin feeBps =>
      obtain rfl : events = [] := hinv
      exact ⟨none, .start, rfl, nofun⟩
  | same hsame =>
      obtain ⟨pending, h⟩ := hinv
      rw [Option.toList_none, List.append_nil]
      exact ⟨pending, h.same hsame⟩
  | @queue config slot applies newVkHash happlies =>
      obtain ⟨pending, h⟩ := hinv
      refine ⟨some (slot, newVkHash), h.lock.queue slot config.admin newVkHash, ⟨rfl, happlies⟩,
        fun e he => ?_⟩
      rcases List.mem_append.mp he with he | he
      · exact h.admin e he
      · cases List.mem_singleton.mp he
        rfl
  | @apply config slot hne hle =>
      obtain ⟨pending, h⟩ := hinv
      obtain ⟨queued, rfl, happlies⟩ := h.pending_of_ne hne
      refine ⟨none, h.lock.apply slot config.admin (happlies ▸ hle), rfl, fun e he => ?_⟩
      rcases List.mem_append.mp he with he | he
      · exact h.admin e he
      · cases List.mem_singleton.mp he
        rfl

/-- **Every run** keeps it. -/
theorem vkInv_of_run {log : List (Action env)} {s : PoolState} (h : PoolRun env log s) :
    VkInv env (lockEvents log) s.config := by
  refine h.invariant (fun log s => VkInv env (lockEvents log) s.config) (fun s hs => ?_)
    fun log s a s' _ hinv hstep => ?_
  · rw [hs.config]
    exact rfl
  · rw [lockEvents_snoc]
    exact hinv.step (lockStep_of_step hstep)

/-- The admin can put any hash in place of the first. -/
theorem exists_upgraded (P : Poseidon) (newVkHash : Bytes32) : ∃ log s config,
    PoolRun (ideal P) log s ∧ s.config = some config ∧ config.verifyingKeyHash = newVkHash := by
  let config := newConfig (ideal P) (admin P).key 0
  let queued := config.queued newVkHash PENDING_VK_LOCK_SLOTS
  have hinitial : Initial (genesis P) := ⟨rfl, fun _ => rfl, fun _ => rfl, fun _ _ => rfl⟩
  have h₁ : exec (ideal P) (genesis P) 0 (.initializePool (admin P) 0) =
      .ok { genesis P with config := some config } :=
    initializePool_eq_ok.mpr ⟨rfl, by decide, rfl⟩
  have h₂ : exec (ideal P) { genesis P with config := some config } 0
      (.queueVkUpgrade (admin P) newVkHash) = .ok { genesis P with config := some queued } :=
    queueVkUpgrade_eq_ok.mpr ⟨config, rfl, ⟨rfl, rfl⟩, PENDING_VK_LOCK_SLOTS, rfl, rfl⟩
  have h₃ : exec (ideal P) { genesis P with config := some queued } PENDING_VK_LOCK_SLOTS
      (.applyVkUpgrade (admin P)) = .ok { genesis P with config := some queued.applied } :=
    applyVkUpgrade_eq_ok.mpr
      ⟨queued, rfl, ⟨rfl, rfl⟩, show PENDING_VK_LOCK_SLOTS ≠ 0 by decide,
        UInt64.le_refl _, rfl⟩
  exact ⟨_, _, queued.applied, (((Run.start hinitial).snoc (.call h₁)).snoc (.call h₂)).snoc
    (.call h₃), rfl, rfl⟩

/-- **The time lock.**  The installed hash is the one the pool was initialised with, or one that the
admin queued, and applied in the next event of the lock, no sooner than the delay.  Every
application comes right after a queueing, so that none is applied twice.  And a withdraw, of this
program or of any that replaces it, succeeds only under the installed hash. -/
theorem verifying_key_time_lock {log : List (Action env)} {s : PoolState} {config : PoolConfig}
    (hrun : PoolRun env log s) (hc : s.config = some config) :
    ((config.verifyingKeyHash = env.embeddedVkHash ∧ ∀ e ∈ lockEvents log, ¬ e.IsApply) ∨
      ∃ before slot slot' after,
        lockEvents log = before ++ [.queue slot config.admin config.verifyingKeyHash,
          .apply slot' config.admin] ++ after ∧
        slot + PENDING_VK_LOCK_SLOTS.toNat ≤ slot' ∧ ∀ e ∈ after, ¬ e.IsApply) ∧
    (∀ before slot' key after, lockEvents log = before ++ .apply slot' key :: after →
      key = config.admin ∧ ∃ before' slot newVkHash,
        before = before' ++ [.queue slot config.admin newVkHash] ∧
        slot + PENDING_VK_LOCK_SLOTS.toNat ≤ slot') ∧
    ∀ (env' : PoolEnv) (slot : UInt64) (accounts : WithdrawAccounts env') (d : UInt8)
      (nullifierHash : Bytes32) (proof : Bytes PROOF_BYTES)
      (signals : Vector Bytes32 PUBLIC_SIGNAL_COUNT) (s' : PoolState),
      withdraw env' s slot accounts d nullifierHash proof signals = .ok s' →
        env'.embeddedVkHash = config.verifyingKeyHash := by
  have hinv := vkInv_of_run hrun
  rw [hc] at hinv
  obtain ⟨pending, h⟩ := hinv
  refine ⟨?_, fun before slot' key after hlog => ?_, ?_⟩
  · rcases h.lock.installed with hinitial |
      ⟨before, slot, key, slot', key', after, hlog, hle, hlast⟩
    · exact .inl hinitial
    · have hkey : key = config.admin := h.admin (.queue slot key config.verifyingKeyHash) (by
        rw [hlog]
        simp)
      have hkey' : key' = config.admin := h.admin (.apply slot' key') (by
        rw [hlog]
        simp)
      subst hkey hkey'
      exact .inr ⟨before, slot, slot', after, hlog, hle, hlast⟩
  · have hkey : key = config.admin := h.admin (.apply slot' key) (by
      rw [hlog]
      simp)
    obtain ⟨before', slot, key', newVkHash, rfl, hle⟩ := h.lock.applied hlog
    have hkey' : key' = config.admin := h.admin (.queue slot key' newVkHash) (by
      rw [hlog]
      simp)
    subst hkey'
    exact ⟨hkey, before', slot, newVkHash, rfl, hle⟩
  · intro env' slot accounts d nullifierHash proof signals s' hok
    obtain ⟨config', _, _, _, _, _, _, hchecked, -⟩ := withdraw_eq_ok.mp hok
    obtain rfl : config = config' := Option.some.inj (hc.symm.trans hchecked.config_eq)
    exact hchecked.signals.vkHash

/-- And of a run that has replaced it. -/
theorem verifying_key_time_lock_upgraded : ∃ log s config before slot slot' after,
    PoolRun (ideal circom) log s ∧ s.config = some config ∧
      config.verifyingKeyHash = Bytes.ofNat 32 2 ∧
      lockEvents log = before ++ [.queue slot config.admin (Bytes.ofNat 32 2),
        .apply slot' config.admin] ++ after ∧
      slot + PENDING_VK_LOCK_SLOTS.toNat ≤ slot' := by
  obtain ⟨log, s, config, hrun, hc, hnew⟩ := exists_upgraded circom (Bytes.ofNat 32 2)
  rcases (verifying_key_time_lock hrun hc).1 with ⟨hinitial, -⟩ |
    ⟨before, slot, slot', after, hlog, hle, -⟩
  · have hne : Bytes.ofNat 32 2 ≠ Bytes.ofNat 32 1 := by decide
    exact absurd (hnew.symm.trans hinitial) hne
  · exact ⟨log, s, config, before, slot, slot', after, hrun, hc, hnew, hnew ▸ hlog, hle⟩

end Qietr.Pool
