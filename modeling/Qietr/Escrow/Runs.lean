import Qietr.Escrow.Program
import Qietr.Library.Runs
import Qietr.Pool.Deployment

/-!
# Escrow — runs

Any interleaving of the escrow's instructions, by any signers on any accounts, with whatever the
rest of the chain does to the token accounts in between.

* `Event`, `Step`, `EscrowRun`: a run, and the log of the jobs it created and settled.
* `Effect`: everything a step can do; `Step.effect`.
* `EscrowInv`: what holds of every reachable state.
* `escrow_conservation`: a job's price stays in its vault until it leaves, once, for a party of the
  job.
-/

namespace Qietr.Escrow

open Outcome

variable {env : EscrowEnv}

/-! ### Events -/

/-- A job, by its client and its nonce. -/
abbrev JobKey := Pubkey × Bytes 8

def Job.key (job : Job) : JobKey :=
  (job.client, job.nonce)

/-- The vault of a job. -/
def EscrowEnv.vaultOf (env : EscrowEnv) (k : JobKey) : Pubkey :=
  env.vault k.1 k.2

namespace JobState

/-- The price has left the vault. -/
def settled : JobState → Bool
  | released | refunded => true
  | _ => false

/-- The agent has signed. -/
def agentSigned : JobState → Bool
  | created | refunded => false
  | _ => true

end JobState

/-- What a step does to the jobs. -/
inductive Event where
  | created (k : JobKey)
  | released (k : JobKey)
  | refunded (k : JobKey)
  | other
  deriving DecidableEq

namespace Event

def created? : Event → Option JobKey
  | created k => some k
  | _ => none

def settled? : Event → Option JobKey
  | released k | refunded k => some k
  | _ => none

end Event

/-- The jobs that were created. -/
def created (log : List Event) : List JobKey :=
  log.filterMap Event.created?

/-- The jobs that were settled, each as often as it was. -/
def settled (log : List Event) : List JobKey :=
  log.filterMap Event.settled?

/-- The event of an instruction. -/
def event (s : EscrowState) : Call env → Event
  | .createJob accounts _ nonce _ => .created (accounts.client.key, nonce)
  | .releasePayment accounts => ((s.job accounts.job).map fun job => .released job.key).getD .other
  | .cancelJob accounts | .resolveDispute accounts =>
      ((s.job accounts.job).map fun job => .refunded job.key).getD .other
  | _ => .other

/-- One step.  Others cannot spend from the accounts the program's addresses own. -/
inductive Step (env : EscrowEnv) : EscrowState → Event → EscrowState → Prop
  | call {s s' : EscrowState} {now : ℤ} {c : Call env} (h : exec env s now c = .ok s') :
      Step env s (event s c) s'
  | external {s : EscrowState} {ledger : Ledger}
      (h : s.ledger.KeepsOwnedBy (fun owner => ∃ seed, env.address seed = owner) ledger) :
      Step env s .other { s with ledger }

/-- Before the program's first instruction there are no jobs. -/
def Initial (s : EscrowState) : Prop :=
  ∀ key, s.job key = none

abbrev EscrowRun (env : EscrowEnv) := Run Initial (Step env)

@[simp] theorem created_snoc (log : List Event) (e : Event) :
    created (log ++ [e]) = created log ++ e.created?.toList := by
  cases h : e.created? <;> simp [created, h]

@[simp] theorem settled_snoc (log : List Event) (e : Event) :
    settled (log ++ [e]) = settled log ++ e.settled?.toList := by
  cases h : e.settled? <;> simp [settled, h]

/-! ### What a step does -/

/-- The accounts of a new job. -/
structure Creates (env : EscrowEnv) (s : EscrowState) (client : EscrowSigner env) (job : Job)
    (source mint : Pubkey) : Prop where
  client_eq : job.client = client.key
  state : job.state = .created
  bump : job.bump = env.bump (.job job.client job.nonce)
  escrowBump : job.escrowBump = env.bump (.escrow job.client job.nonce)
  vacant : s.job (env.pda (.job job.client job.nonce)) = none
  vaultVacant : s.ledger.account (env.vaultOf job.key) = none
  transfer : (s.ledger.openAccount (env.vaultOf job.key) mint (env.vaultOf job.key)).Transferable
    source (env.vaultOf job.key) client.key job.priceMicro

/-- `job'` is `job` later on. -/
structure Later (env : EscrowEnv) (job job' : Job) : Prop where
  client : job'.client = job.client
  agent : job'.agent = job.agent
  nonce : job'.nonce = job.nonce
  price : job'.priceMicro = job.priceMicro
  bump : job'.bump = job.bump
  escrowBump : job'.escrowBump = job.escrowBump
  unsettled : job.state.settled = false
  signed : job'.state.agentSigned = true → job.state.agentSigned = true ∨
    ∀ seed, env.address seed ≠ job.agent

/-- The accounts of a settlement in favour of `party`. -/
structure Settles (env : EscrowEnv) (s : EscrowState) (key vault ata : Pubkey) (job : Job)
    (party : Pubkey) : Prop where
  job_eq : s.job key = some job
  seeds : env.address (.job job.client job.nonce, job.bump) = key
  vaultSeeds : env.address (.escrow job.client job.nonce, job.escrowBump) = vault
  transfer : s.ledger.Transferable vault ata vault job.priceMicro
  owner : ∃ b, s.ledger.account ata = some b ∧ b.owner = party

/-- Everything a step can do. -/
inductive Effect (env : EscrowEnv) (s : EscrowState) : Event → EscrowState → Prop
  | create (client : EscrowSigner env) (job : Job) (source mint : Pubkey)
      (h : Creates env s client job source mint) :
      Effect env s (.created job.key)
        { s.setJob (env.pda (.job job.client job.nonce)) job with
          ledger := (s.ledger.openAccount (env.vaultOf job.key) mint (env.vaultOf job.key)).move
            source (env.vaultOf job.key) job.priceMicro }
  | advance (key : Pubkey) (job job' : Job) (hjob : s.job key = some job)
      (h : Later env job job') (hstate : job'.state.settled = false) :
      Effect env s .other (s.setJob key job')
  | release (key vault ata : Pubkey) (job job' : Job)
      (h : Settles env s key vault ata job job.agent) (hlater : Later env job job')
      (hsigned : job.state.agentSigned = true) (hstate : job'.state = .released) :
      Effect env s (.released job.key)
        { s.setJob key job' with ledger := s.ledger.move vault ata job.priceMicro }
  | refund (key vault ata : Pubkey) (job job' : Job)
      (h : Settles env s key vault ata job job.client) (hlater : Later env job job')
      (hstate : job'.state = .refunded) :
      Effect env s (.refunded job.key)
        { s.setJob key job' with ledger := s.ledger.move vault ata job.priceMicro }
  | close (key : Pubkey) (job : Job) (hjob : s.job key = some job)
      (hstate : job.state.settled = true) :
      Effect env s .other { s with job := Function.update s.job key none }
  | external (ledger : Ledger)
      (h : s.ledger.KeepsOwnedBy (fun owner => ∃ seed, env.address seed = owner) ledger) :
      Effect env s .other { s with ledger }

@[simp] theorem checkSeeds_eq_ok {key : Pubkey} {seed : EscrowSeed} {bump : UInt8} {u : Unit} :
    checkSeeds env key seed bump = .ok u ↔ env.address (seed, bump) = key :=
  require_eq_ok

theorem loadJob_eq_ok {s : EscrowState} {key : Pubkey} {job : Job} :
    loadJob env s key = .ok job ↔
      s.job key = some job ∧ env.address (.job job.client job.nonce, job.bump) = key := by
  simp only [loadJob, bind_eq_ok, initialized_eq_ok, checkSeeds_eq_ok, exists_and_left,
    exists_const, Except.ok.injEq]
  refine ⟨?_, ?_⟩
  · rintro ⟨job, hjob, hseeds, rfl⟩
    exact ⟨hjob, hseeds⟩
  · rintro ⟨hjob, hseeds⟩
    exact ⟨job, hjob, hseeds, rfl⟩

theorem createJob_eq_ok {s s' : EscrowState} {now : ℤ} {accounts : CreateJob env}
    {agent : Pubkey} {nonce : Bytes 8} {price : UInt64} :
    createJob env s now accounts agent nonce price = .ok s' ↔
      (∃ source, s.ledger.account accounts.clientAta = some source ∧
        source.owner = accounts.client.key ∧ source.mint = accounts.mint) ∧
      (∃ n, s.ledger.supply accounts.mint = some n) ∧ 0 < price ∧
      Creates env s accounts.client (newJob env now accounts.client.key agent nonce price)
        accounts.clientAta accounts.mint ∧
      s' = { s.setJob (env.pda (.job accounts.client.key nonce))
            (newJob env now accounts.client.key agent nonce price) with
          ledger := (s.ledger.openAccount (env.vault accounts.client.key nonce) accounts.mint
            (env.vault accounts.client.key nonce)).move accounts.clientAta
              (env.vault accounts.client.key nonce) price } := by
  simp only [createJob, bind_eq_ok, initialized_eq_ok, vacant_eq_ok, require_eq_ok, cpi_eq_ok,
    exists_and_left, exists_const, Except.ok.injEq]
  refine ⟨?_, ?_⟩
  · rintro ⟨source, hsource, n, hn, hjob, hvault, howner, hmint, hpos, ledger, htransfer, rfl⟩
    obtain ⟨ht, rfl⟩ := Ledger.transfer_eq_ok.mp htransfer
    exact ⟨⟨source, hsource, howner, hmint⟩, ⟨n, hn⟩, hpos,
      ⟨rfl, rfl, rfl, rfl, hjob, hvault, ht⟩, rfl⟩
  · rintro ⟨⟨source, hsource, howner, hmint⟩, ⟨n, hn⟩, hpos, hc, rfl⟩
    exact ⟨source, hsource, n, hn, hc.vacant, hc.vaultVacant, howner, hmint, hpos, _,
      Ledger.transfer_eq_ok.mpr ⟨hc.transfer, rfl⟩, rfl⟩

theorem advance_eq_ok {s s' : EscrowState} {accounts : JobCall env}
    {check : Job → Except Error Unit} {next : Job → Job}
    (h : advance env s accounts check next = .ok s') :
    ∃ job, s.job accounts.job = some job ∧ check job = .ok () ∧
      s' = s.setJob accounts.job (next job) := by
  simp only [advance, bind_eq_ok, loadJob_eq_ok, Except.ok.injEq] at h
  obtain ⟨job, ⟨hjob, -⟩, _, hcheck, rfl⟩ := h
  exact ⟨job, hjob, hcheck, rfl⟩

theorem settle_eq_ok {s s' : EscrowState} {accounts : SettleCall env} {party : Job → Pubkey}
    {mismatch : EscrowError} {check : Job → TokenAccount → Except Error Unit} {next : Job → Job} :
    settle env s accounts party mismatch check next = .ok s' ↔
      ∃ job ata, s.ledger.account accounts.ata = some ata ∧
        Settles env s accounts.job accounts.escrowVault accounts.ata job (party job) ∧
        check job ata = .ok () ∧
        s' = { s.setJob accounts.job (next job) with
          ledger := s.ledger.move accounts.escrowVault accounts.ata job.priceMicro } := by
  simp only [settle, bind_eq_ok, initialized_eq_ok, checkSeeds_eq_ok, require_eq_ok, cpi_eq_ok,
    exists_and_left, exists_const, Except.ok.injEq]
  refine ⟨?_, ?_⟩
  · rintro ⟨job, hjob, vault, -, ata, hata, hseeds, hvault, howner, -, _, hcheck, ledger, htransfer,
      rfl⟩
    obtain ⟨ht, rfl⟩ := Ledger.transfer_eq_ok.mp htransfer
    rw [hvault] at ht
    exact ⟨job, ata, hata, ⟨hjob, hseeds, hvault, ht, ata, hata, howner⟩, hcheck, rfl⟩
  · rintro ⟨job, ata, hata, hs, hcheck, rfl⟩
    obtain ⟨b, hb, howner⟩ := hs.owner
    obtain rfl := Option.some.inj (hata.symm.trans hb)
    obtain ⟨v, ata', hv, hata', -, hmint, -⟩ := id hs.transfer
    obtain rfl := Option.some.inj (hata.symm.trans hata')
    refine ⟨job, hs.job_eq, v, hv, ata, hata, hs.seeds, hs.vaultSeeds, howner, hmint.symm, (),
      hcheck, _, ?_, rfl⟩
    rw [hs.vaultSeeds]
    exact Ledger.transfer_eq_ok.mpr ⟨hs.transfer, rfl⟩

theorem checkRelease_ok {caller : Pubkey} {job : Job} {ata : TokenAccount}
    (h : checkRelease caller job ata = .ok ()) : job.state = .completed :=
  (require_bind_eq_ok.mp h).1

theorem checkCancel_ok {now : ℤ} {caller : Pubkey} {job : Job}
    (h : checkCancel now caller job = .ok ()) : job.state = .created ∨ job.state = .accepted := by
  obtain ⟨-, h⟩ := require_bind_eq_ok.mp h
  cases e : job.state with
  | created => exact .inl rfl
  | accepted => exact .inr rfl
  | completed | released | disputed | refunded =>
      rw [e] at h
      cases h

theorem checkResolve_ok {now : ℤ} {job : Job} (h : checkResolve now job = .ok ()) :
    job.state = .disputed :=
  (require_bind_eq_ok.mp h).1

theorem Later.of_state {job job' : Job} (hkey : job' = { job with
      acceptedAt := job'.acceptedAt, completedAt := job'.completedAt
      resolvedAt := job'.resolvedAt, state := job'.state })
    (unsettled : job.state.settled = false)
    (signed : job'.state.agentSigned = true → job.state.agentSigned = true ∨
      ∀ seed, env.address seed ≠ job.agent) : Later env job job' := by
  rw [hkey]
  exact ⟨rfl, rfl, rfl, rfl, rfl, rfl, unsettled, signed⟩

/-- **Every step** has one of the effects. -/
theorem Step.effect {s s' : EscrowState} {e : Event} (h : Step env s e s') : Effect env s e s' := by
  cases h with
  | external hkeeps => exact .external _ hkeeps
  | @call _ now c hexec =>
      cases c with
      | createJob accounts agent nonce price =>
          obtain ⟨-, -, -, hc, rfl⟩ := createJob_eq_ok.mp hexec
          exact .create _ _ _ _ hc
      | acceptJob accounts =>
          obtain ⟨job, hjob, hcheck, rfl⟩ := advance_eq_ok hexec
          obtain ⟨hstate, hagent⟩ := require_bind_eq_ok.mp hcheck
          refine .advance _ job _ hjob (.of_state rfl (by rw [hstate]; rfl) fun _ => .inr ?_) rfl
          rw [← require_eq_ok.mp hagent]
          exact accounts.caller.not_derived
      | completeJob accounts =>
          obtain ⟨job, hjob, hcheck, rfl⟩ := advance_eq_ok hexec
          obtain ⟨-, hcheck⟩ := require_bind_eq_ok.mp hcheck
          obtain ⟨hstate, -⟩ := require_bind_eq_ok.mp hcheck
          exact .advance _ job _ hjob (.of_state rfl (by rw [hstate]; rfl)
            fun _ => .inl (by rw [hstate]; rfl)) rfl
      | disputeJob accounts =>
          obtain ⟨job, hjob, hcheck, rfl⟩ := advance_eq_ok hexec
          obtain ⟨hstate, -⟩ := require_bind_eq_ok.mp hcheck
          exact .advance _ job _ hjob (.of_state rfl (by rw [hstate]; rfl)
            fun _ => .inl (by rw [hstate]; rfl)) rfl
      | closeJob accounts =>
          simp only [exec, closeJob, bind_eq_ok, loadJob_eq_ok, require_eq_ok, exists_and_left,
            exists_const, Except.ok.injEq] at hexec
          obtain ⟨job, ⟨hjob, -⟩, hstate, rfl⟩ := hexec
          refine .close _ job hjob ?_
          rcases hstate with e | e
          · rw [e]; rfl
          · rw [e]; rfl
      | releasePayment accounts =>
          obtain ⟨job, ata, -, hs, hcheck, rfl⟩ := settle_eq_ok.mp hexec
          have hstate := checkRelease_ok hcheck
          have hsigned : job.state.agentSigned = true := by rw [hstate]; rfl
          have hevent : event s (.releasePayment accounts) = .released job.key := by
            rw [event, hs.job_eq]; rfl
          rw [hevent]
          exact .release _ _ _ job _ hs (.of_state rfl (by rw [hstate]; rfl) fun _ => .inl hsigned)
            hsigned rfl
      | cancelJob accounts =>
          obtain ⟨job, ata, -, hs, hcheck, rfl⟩ := settle_eq_ok.mp hexec
          have hstate : job.state.settled = false := by
            rcases checkCancel_ok hcheck with e | e
            · rw [e]; rfl
            · rw [e]; rfl
          have hevent : event s (.cancelJob accounts) = .refunded job.key := by
            rw [event, hs.job_eq]; rfl
          rw [hevent]
          exact .refund _ _ _ job _ hs (.of_state rfl hstate nofun) rfl
      | resolveDispute accounts =>
          obtain ⟨job, ata, -, hs, hcheck, rfl⟩ := settle_eq_ok.mp hexec
          have hstate := checkResolve_ok hcheck
          have hevent : event s (.resolveDispute accounts) = .refunded job.key := by
            rw [event, hs.job_eq]; rfl
          rw [hevent]
          exact .refund _ _ _ job _ hs (.of_state rfl (by rw [hstate]; rfl) nofun) rfl

/-! ### What holds of every state -/

/-- What holds of the job at `key`. -/
structure JobHeld (env : EscrowEnv) (log : List Event) (l : Ledger) (key : Pubkey) (job : Job) :
    Prop where
  address : env.pda (.job job.client job.nonce) = key
  escrowBump : job.escrowBump = env.bump (.escrow job.client job.nonce)
  known : job.key ∈ created log
  client : ∀ seed, env.address seed ≠ job.client
  agent : job.state.agentSigned = true → ∀ seed, env.address seed ≠ job.agent
  unsettled : job.state.settled = false → job.key ∉ settled log
  funds : job.state.settled = false → job.priceMicro.toNat ≤ l.balance (env.vaultOf job.key)

/-- What holds of the state a log leads to. -/
structure EscrowInv (env : EscrowEnv) (log : List Event) (s : EscrowState) : Prop where
  jobs : ∀ key job, s.job key = some job → JobHeld env log s.ledger key job
  vaults : ∀ k ∈ created log, ∃ v, s.ledger.account (env.vaultOf k) = some v ∧
    v.owner = env.vaultOf k
  createdNodup : ((created log).map env.vaultOf).Nodup
  settledNodup : (settled log).Nodup
  settledCreated : ∀ k ∈ settled log, k ∈ created log

/-- Two jobs that were created have two vaults. -/
theorem EscrowInv.vaultOf_inj {log : List Event} {s : EscrowState} (h : EscrowInv env log s)
    {j k : JobKey} (hj : j ∈ created log) (hk : k ∈ created log)
    (e : env.vaultOf j = env.vaultOf k) : j = k :=
  List.inj_on_of_nodup_map h.createdNodup hj hk e

/-- A vault is derived. -/
theorem vaultOf_derived (k : JobKey) : ∃ seed, env.address seed = env.vaultOf k :=
  ⟨_, rfl⟩

/-- The vault that a settlement names is the job's. -/
theorem JobHeld.vault_eq {log : List Event} {s : EscrowState} {key vault ata : Pubkey} {job : Job}
    {party : Pubkey} (h : JobHeld env log s.ledger key job)
    (hs : Settles env s key vault ata job party) : vault = env.vaultOf job.key := by
  rw [← hs.vaultSeeds, h.escrowBump]
  rfl

/-- **A step takes from a vault** only to settle its job. -/
theorem EscrowInv.keeps {log : List Event} {s s' : EscrowState} {e : Event}
    (hinv : EscrowInv env log s) (h : Effect env s e s') {k : JobKey} (hk : k ∈ created log)
    (hne : e.settled? ≠ some k) :
    s.ledger.KeepsOwnedBy (fun owner => owner = env.vaultOf k) s'.ledger := by
  cases h with
  | create client job source mint hc =>
      have hclient : ¬ client.key = env.vaultOf k := fun e =>
        client.not_derived _ ((vaultOf_derived k).choose_spec.trans e.symm)
      exact (Ledger.KeepsOwnedBy.of_openAccount hc.vaultVacant).trans
        (.of_transferable hc.transfer hclient)
  | advance => exact .refl _
  | close => exact .refl _
  | external ledger hkeeps =>
      intro j a ha ho
      exact hkeeps j a ha (ho ▸ vaultOf_derived k)
  | release key vault ata job job' hs =>
      have hj := hinv.jobs key job hs.job_eq
      refine .of_transferable hs.transfer fun e => hne ?_
      exact congrArg some (hinv.vaultOf_inj hj.known hk ((hj.vault_eq hs).symm.trans e))
  | refund key vault ata job job' hs =>
      have hj := hinv.jobs key job hs.job_eq
      refine .of_transferable hs.transfer fun e => hne ?_
      exact congrArg some (hinv.vaultOf_inj hj.known hk ((hj.vault_eq hs).symm.trans e))

/-- Its balance does not fall. -/
theorem EscrowInv.balance_le {log : List Event} {s s' : EscrowState} {e : Event}
    (hinv : EscrowInv env log s) (h : Effect env s e s') {k : JobKey} (hk : k ∈ created log)
    (hne : e.settled? ≠ some k) :
    s.ledger.balance (env.vaultOf k) ≤ s'.ledger.balance (env.vaultOf k) := by
  obtain ⟨v, hv, ho⟩ := hinv.vaults k hk
  obtain ⟨v', hv', -, -, hle⟩ := hinv.keeps h hk hne _ v hv ho
  rwa [Ledger.balance_eq hv, Ledger.balance_eq hv']

/-- And it stays the vault's. -/
theorem EscrowInv.vault_step {log : List Event} {s s' : EscrowState} {e : Event}
    (hinv : EscrowInv env log s) (h : Effect env s e s') {k : JobKey} (hk : k ∈ created log) :
    ∃ v, s'.ledger.account (env.vaultOf k) = some v ∧ v.owner = env.vaultOf k := by
  obtain ⟨v, hv, ho⟩ := hinv.vaults k hk
  by_cases hne : e.settled? = some k
  · cases h with
    | release _ _ _ _ _ hs | refund _ _ _ _ _ hs =>
        obtain ⟨v', hv', -, ho'⟩ := hs.transfer.moved.account_some hv
        exact ⟨v', hv', ho'.trans ho⟩
    | create | advance | close | external => cases hne
  · obtain ⟨v', hv', -, ho', -⟩ := hinv.keeps h hk hne _ v hv ho
    exact ⟨v', hv', ho'.trans ho⟩

theorem Later.key_eq {job job' : Job} (h : Later env job job') : job'.key = job.key := by
  rw [Job.key, Job.key, h.client, h.nonce]

/-- A job that a step does not settle. -/
theorem EscrowInv.frame {log : List Event} {s s' : EscrowState} {e : Event}
    (hinv : EscrowInv env log s) (h : Effect env s e s') {key : Pubkey} {job : Job}
    (hjob : s.job key = some job) (hne : e.settled? ≠ some job.key) :
    JobHeld env (log ++ [e]) s'.ledger key job := by
  have hj := hinv.jobs key job hjob
  refine { hj with
    known := ?_
    unsettled := fun hstate => ?_
    funds := fun hstate => (hj.funds hstate).trans (hinv.balance_le h hj.known hne) }
  · rw [created_snoc]
    exact List.mem_append_left _ hj.known
  · rw [settled_snoc, List.mem_append, Option.mem_toList]
    exact not_or.mpr ⟨hj.unsettled hstate, hne⟩

/-- A job that goes on. -/
theorem JobHeld.later {log : List Event} {l : Ledger} {key : Pubkey} {job job' : Job}
    (hj : JobHeld env log l key job) (h : Later env job job') : JobHeld env log l key job' where
  address := by rw [h.client, h.nonce]; exact hj.address
  escrowBump := by rw [h.escrowBump, h.client, h.nonce]; exact hj.escrowBump
  known := h.key_eq ▸ hj.known
  client := h.client ▸ hj.client
  agent hsigned := h.agent ▸ (h.signed hsigned).elim hj.agent id
  unsettled _ := h.key_eq ▸ hj.unsettled h.unsettled
  funds _ := by rw [h.price, h.key_eq]; exact hj.funds h.unsettled

/-- A job that has been settled. -/
theorem JobHeld.settle {log : List Event} {l l' : Ledger} {key : Pubkey} {job job' : Job}
    (hj : JobHeld env log l key job) (h : Later env job job') (hstate : job'.state.settled = true)
    (e : Event) : JobHeld env (log ++ [e]) l' key job' where
  address := (hj.later h).address
  escrowBump := (hj.later h).escrowBump
  known := by
    rw [created_snoc]
    exact List.mem_append_left _ (hj.later h).known
  client := (hj.later h).client
  agent := (hj.later h).agent
  unsettled hlive := by rw [hstate] at hlive; cases hlive
  funds hlive := by rw [hstate] at hlive; cases hlive

/-- A new job has a vault of its own. -/
theorem EscrowInv.fresh {log : List Event} {s : EscrowState} (hinv : EscrowInv env log s)
    {k : JobKey} (hvacant : s.ledger.account (env.vaultOf k) = none) :
    env.vaultOf k ∉ (created log).map env.vaultOf := by
  intro hmem
  obtain ⟨j, hj, e⟩ := List.mem_map.mp hmem
  obtain ⟨v, hv, -⟩ := hinv.vaults j hj
  rw [e, hvacant] at hv
  cases hv

/-- A new job has its price in the vault. -/
theorem Creates.vault {s : EscrowState} {client : EscrowSigner env} {job : Job}
    {source mint : Pubkey} (h : Creates env s client job source mint) :
    ∃ v, ((s.ledger.openAccount (env.vaultOf job.key) mint (env.vaultOf job.key)).move source
        (env.vaultOf job.key) job.priceMicro).account (env.vaultOf job.key) = some v ∧
      v.owner = env.vaultOf job.key ∧ job.priceMicro.toNat ≤ v.amount.toNat := by
  have hopen : (s.ledger.openAccount (env.vaultOf job.key) mint (env.vaultOf job.key)).account
      (env.vaultOf job.key) = some { mint, owner := env.vaultOf job.key, amount := 0 } := by
    rw [Ledger.openAccount_account h.vaultVacant, Function.update_self]
  have hne : source ≠ env.vaultOf job.key := by
    rintro rfl
    obtain ⟨a, -, ha, -, -, -, ho⟩ := h.transfer
    rw [hopen] at ha
    cases ha
    obtain ⟨seed, hseed⟩ : ∃ seed, env.address seed = env.vaultOf job.key := vaultOf_derived job.key
    exact client.not_derived seed (hseed.trans ho)
  obtain ⟨v, hv, -, ho⟩ := h.transfer.moved.account_some hopen
  have hbal := h.transfer.moved.destination hne
  rw [Ledger.balance_eq hv] at hbal
  exact ⟨v, hv, ho, by omega⟩

/-- A step that creates no job. -/
theorem EscrowInv.update {log : List Event} {s s' : EscrowState} {e : Event}
    (hinv : EscrowInv env log s) (h : Effect env s e s') (hcreated : e.created? = none)
    (hsettled : ∀ k, e.settled? = some k → k ∈ created log ∧ k ∉ settled log)
    (hjobs : ∀ key job, s'.job key = some job → JobHeld env (log ++ [e]) s'.ledger key job) :
    EscrowInv env (log ++ [e]) s' := by
  have hlog : created (log ++ [e]) = created log := by
    rw [created_snoc, hcreated]
    exact List.append_nil _
  refine ⟨hjobs, ?_, ?_, ?_, ?_⟩
  · rw [hlog]
    exact fun k hk => hinv.vault_step h hk
  · rw [hlog]
    exact hinv.createdNodup
  · rw [settled_snoc]
    refine List.nodup_append'.mpr ⟨hinv.settledNodup, by cases e.settled? <;> simp, ?_⟩
    intro k hk hk'
    exact (hsettled k (Option.mem_toList.mp hk')).2 hk
  · intro k hk
    rw [hlog]
    rw [settled_snoc, List.mem_append, Option.mem_toList] at hk
    rcases hk with hk | hk
    · exact hinv.settledCreated k hk
    · exact (hsettled k hk).1

/-- A step that writes the job account `key`, and settles no job at another. -/
theorem EscrowInv.jobs_update {log : List Event} {s s' : EscrowState} {e : Event}
    (hinv : EscrowInv env log s) (h : Effect env s e s') {key : Pubkey} {o : Option Job}
    (hset : s'.job = Function.update s.job key o)
    (hkey : ∀ k, e.settled? = some k → env.pda (.job k.1 k.2) = key)
    (hnew : ∀ job', o = some job' → JobHeld env (log ++ [e]) s'.ledger key job') :
    ∀ key' other, s'.job key' = some other → JobHeld env (log ++ [e]) s'.ledger key' other := by
  intro key' other hother
  rw [hset] at hother
  by_cases ekey : key' = key
  · subst ekey
    rw [Function.update_self] at hother
    exact hnew other hother
  · rw [Function.update_of_ne ekey] at hother
    refine hinv.frame h hother fun hsettled => ekey ?_
    -- the address comes from the client and the nonce
    exact (hinv.jobs key' other hother).address.symm.trans (hkey _ hsettled)

/-- A step that settles `job`. -/
theorem EscrowInv.settle {log : List Event} {s s' : EscrowState} {e : Event}
    (hinv : EscrowInv env log s) (h : Effect env s e s') {key vault ata party : Pubkey}
    {job job' : Job} (hs : Settles env s key vault ata job party) (hlater : Later env job job')
    (hstate : job'.state.settled = true) (hcreated : e.created? = none)
    (hsettled : e.settled? = some job.key) (hset : s'.job = Function.update s.job key (some job')) :
    EscrowInv env (log ++ [e]) s' := by
  have hj := hinv.jobs key job hs.job_eq
  refine hinv.update h hcreated (fun k hk => ?_) (hinv.jobs_update h hset (fun k hk => ?_) ?_)
  · obtain rfl := Option.some.inj (hsettled.symm.trans hk)
    exact ⟨hj.known, hj.unsettled hlater.unsettled⟩
  · obtain rfl := Option.some.inj (hsettled.symm.trans hk)
    exact hj.address
  · rintro _ ⟨⟩
    exact hj.settle hlater hstate e

/-- A step that creates `job`. -/
theorem EscrowInv.create {log : List Event} {s : EscrowState} {client : EscrowSigner env}
    {job : Job} {source mint : Pubkey} (hinv : EscrowInv env log s)
    (hc : Creates env s client job source mint) :
    EscrowInv env (log ++ [.created job.key])
      { s.setJob (env.pda (.job job.client job.nonce)) job with
        ledger := (s.ledger.openAccount (env.vaultOf job.key) mint (env.vaultOf job.key)).move
          source (env.vaultOf job.key) job.priceMicro } := by
  have heffect := Effect.create client job source mint hc
  have hfresh := hinv.fresh hc.vaultVacant
  have hunknown : job.key ∉ created log := fun hmem => hfresh (List.mem_map_of_mem hmem)
  have hcreated : created (log ++ [.created job.key]) = created log ++ [job.key] :=
    created_snoc log _
  have hsettled : settled (log ++ [.created job.key]) = settled log :=
    (settled_snoc log _).trans (List.append_nil _)
  obtain ⟨v, hv, hvo, hle⟩ := hc.vault
  refine ⟨hinv.jobs_update heffect rfl nofun ?_, fun k hk => ?_, ?_, ?_, fun k hk => ?_⟩
  · rintro _ ⟨⟩
    exact
      { address := rfl
        escrowBump := hc.escrowBump
        known := by
          rw [hcreated]
          exact List.mem_append_right _ (List.mem_singleton_self _)
        client := hc.client_eq ▸ client.not_derived
        agent := by rw [hc.state]; exact nofun
        unsettled := fun _ hmem => hunknown (hinv.settledCreated _ (hsettled ▸ hmem))
        funds := fun _ => by
          show _ ≤ Ledger.balance _ _
          rw [Ledger.balance_eq hv]
          exact hle }
  · rw [hcreated, List.mem_append, List.mem_singleton] at hk
    rcases hk with hk | rfl
    · exact hinv.vault_step heffect hk
    · exact ⟨v, hv, hvo⟩
  · rw [hcreated, List.map_append, List.map_singleton]
    exact List.nodup_append'.mpr ⟨hinv.createdNodup, List.nodup_singleton _,
      List.disjoint_singleton.mpr hfresh⟩
  · rw [hsettled]
    exact hinv.settledNodup
  · rw [hcreated]
    exact List.mem_append_left _ (hinv.settledCreated k (hsettled ▸ hk))

/-- **One step** keeps the invariant. -/
theorem EscrowInv.step {log : List Event} {s s' : EscrowState} {e : Event}
    (hinv : EscrowInv env log s) (h : Effect env s e s') : EscrowInv env (log ++ [e]) s' := by
  have heffect := h
  cases h with
  | create client job source mint hc => exact hinv.create hc
  | advance key job job' hjob hlater hstate =>
      refine hinv.update heffect rfl nofun (hinv.jobs_update heffect rfl nofun ?_)
      rintro _ ⟨⟩
      exact (hinv.frame heffect hjob nofun).later hlater
  | release key vault ata job job' hs hlater hsigned hstate =>
      exact hinv.settle heffect hs hlater (by rw [hstate]; rfl) rfl rfl rfl
  | refund key vault ata job job' hs hlater hstate =>
      exact hinv.settle heffect hs hlater (by rw [hstate]; rfl) rfl rfl rfl
  | close key job hjob hstate =>
      exact hinv.update heffect rfl nofun (hinv.jobs_update heffect rfl nofun nofun)
  | external ledger hkeeps =>
      exact hinv.update heffect rfl nofun fun key job hjob => hinv.frame heffect hjob nofun

/-- **Every run** has the invariant. -/
theorem escrowInv_of_run {log : List Event} {s : EscrowState} (h : EscrowRun env log s) :
    EscrowInv env log s := by
  refine h.invariant (EscrowInv env) (fun s hs => ?_)
    fun log s e s' _ hinv hstep => hinv.step hstep.effect
  refine ⟨fun key job hjob => ?_, nofun, List.nodup_nil, List.nodup_nil, nofun⟩
  rw [hs key] at hjob
  cases hjob

/-! ### The funds of a settlement -/

/-- A call that settles a job. -/
def Call.IsSettlement : Call env → Prop
  | .releasePayment _ | .cancelJob _ | .resolveDispute _ => True
  | _ => False

/-- A settlement that lacks the funds has passed its other checks. -/
theorem settle_insufficientFunds {s : EscrowState} {accounts : SettleCall env}
    {party : Job → Pubkey} {mismatch : EscrowError}
    {check : Job → TokenAccount → Except Error Unit} {next : Job → Job}
    (hcheck : ∀ job ata e, check job ata ≠ .error (.token e))
    (h : settle env s accounts party mismatch check next = .error (.token .insufficientFunds)) :
    ∃ job ata, s.job accounts.job = some job ∧ check job ata = .ok () ∧
      env.address (.escrow job.client job.nonce, job.escrowBump) = accounts.escrowVault ∧
      s.ledger.transfer accounts.escrowVault accounts.ata accounts.escrowVault job.priceMicro =
        .error .insufficientFunds := by
  simp only [settle, checkSeeds, bind_eq_error, initialized_eq_error, require_eq_error,
    cpi_eq_error, initialized_eq_ok, require_eq_ok, reduceCtorEq, and_false, false_or, or_false,
    exists_false, exists_and_left, exists_const, hcheck, ProgramError.token.injEq,
      exists_eq_right] at h
  obtain ⟨job, hjob, vault, -, ata, -, -, hseeds, -, -, _, hok, htransfer⟩ := h
  rw [hseeds] at htransfer
  exact ⟨job, ata, hjob, hok, hseeds, htransfer⟩

theorem JobHeld.funded {log : List Event} {s : EscrowState} {key : Pubkey} {job : Job}
    (hinv : EscrowInv env log s) (hjob : s.job key = some job)
    (hstate : job.state.settled = false) :
    ∃ v, s.ledger.account (env.vaultOf job.key) = some v ∧ v.owner = env.vaultOf job.key ∧
      job.priceMicro.toNat ≤ v.amount.toNat := by
  have hj := hinv.jobs key job hjob
  obtain ⟨v, hv, ho⟩ := hinv.vaults job.key hj.known
  have hfunds := hj.funds hstate
  rw [Ledger.balance_eq hv] at hfunds
  exact ⟨v, hv, ho, hfunds⟩

/-- **The vault of an unsettled job** covers its settlement. -/
theorem EscrowInv.ne_insufficientFunds {log : List Event} {s : EscrowState}
    (hinv : EscrowInv env log s) {now : ℤ} {c : Call env} (hc : c.IsSettlement) :
    exec env s now c ≠ .error (.token .insufficientFunds) := by
  intro h
  have hcovered : ∀ (accounts : SettleCall env) (job : Job), s.job accounts.job = some job →
      job.state.settled = false →
      env.address (.escrow job.client job.nonce, job.escrowBump) = accounts.escrowVault →
      s.ledger.transfer accounts.escrowVault accounts.ata accounts.escrowVault job.priceMicro ≠
        .error .insufficientFunds := by
    intro accounts job hjob hstate hvault
    have hj := hinv.jobs _ job hjob
    have hfunds := hj.funds hstate
    rw [← hvault, hj.escrowBump]
    exact Ledger.transfer_ne_insufficientFunds hfunds
  cases c with
  | releasePayment accounts =>
      obtain ⟨job, ata, hjob, hcheck, hvault, herr⟩ := settle_insufficientFunds
        (fun job ata e => by
          simp [checkRelease, bind_eq_error]) h
      exact hcovered accounts job hjob (by rw [checkRelease_ok hcheck]; rfl) hvault herr
  | cancelJob accounts =>
      obtain ⟨job, ata, hjob, hcheck, hvault, herr⟩ := settle_insufficientFunds
        (fun job ata e => by
          cases hstate : job.state <;> simp [checkCancel, bind_eq_error, hstate]) h
      refine hcovered accounts job hjob ?_ hvault herr
      rcases checkCancel_ok hcheck with e | e
      · rw [e]; rfl
      · rw [e]; rfl
  | resolveDispute accounts =>
      obtain ⟨job, ata, hjob, hcheck, hvault, herr⟩ := settle_insufficientFunds
        (fun job ata e => by
          simp [checkResolve, bind_eq_error]) h
      exact hcovered accounts job hjob (by rw [checkResolve_ok hcheck]; rfl) hvault herr
  | createJob | acceptJob | completeJob | disputeJob | closeJob => exact hc.elim

/-- The price of the job `k` has gone from its vault to an account of the same mint that `party`
owns. -/
def PaidTo (env : EscrowEnv) (s s' : EscrowState) (k : JobKey) (party : Job → Pubkey) : Prop :=
  ∃ key job ata v b, s.job key = some job ∧ job.key = k ∧
    s.ledger.account (env.vaultOf k) = some v ∧ s.ledger.account ata = some b ∧
    ata ≠ env.vaultOf k ∧ b.mint = v.mint ∧ b.owner = party job ∧
    Ledger.Moved s.ledger s'.ledger (env.vaultOf k) ata job.priceMicro

theorem Settles.paidTo {log : List Event} {s s' : EscrowState} {key vault ata : Pubkey} {job : Job}
    {party : Job → Pubkey} (hinv : EscrowInv env log s)
    (hs : Settles env s key vault ata job (party job))
    (hparty : ∀ seed, env.address seed ≠ party job)
    (hl : s'.ledger = s.ledger.move vault ata job.priceMicro) :
    PaidTo env s s' job.key party := by
  have hvault := (hinv.jobs key job hs.job_eq).vault_eq hs
  obtain ⟨v, b, hv, hb, -, hmint, hvo⟩ := id hs.transfer
  obtain ⟨b', hb', howner⟩ := hs.owner
  obtain rfl := Option.some.inj (hb.symm.trans hb')
  have hmoved := hs.transfer.moved
  rw [← hl] at hmoved
  refine ⟨key, job, ata, v, b, hs.job_eq, rfl, hvault ▸ hv, hb, ?_, hmint.symm, howner,
    hvault ▸ hmoved⟩
  -- the vault owns itself, and no party is one of the program's addresses
  rintro rfl
  rw [← hvault] at hb
  obtain rfl := Option.some.inj (hb.symm.trans hv)
  exact hparty _ ((vaultOf_derived job.key).choose_spec.trans
    (hvault.symm.trans (hvo.symm.trans howner)))

/-- **Conservation, settled exactly once.**  In every reachable state the vault of an unsettled job
holds its price, so that no settlement lacks the funds; no client uses a nonce twice, and no job is
settled twice.  A step takes from a job's vault only to settle the job: then the price goes to a
token account of the same mint, of the agent when it is released and of the client when it is
refunded. -/
theorem escrow_conservation {log : List Event} {s : EscrowState} (hrun : EscrowRun env log s) :
    (∀ key job, s.job key = some job → job.state.settled = false →
      ∃ v, s.ledger.account (env.vaultOf job.key) = some v ∧ v.owner = env.vaultOf job.key ∧
        job.priceMicro.toNat ≤ v.amount.toNat) ∧
    (∀ now (c : Call env), c.IsSettlement → exec env s now c ≠ .error (.token .insufficientFunds)) ∧
    (created log).Nodup ∧ (settled log).Nodup ∧
    ∀ e s', Step env s e s' →
      (∀ k, e = .released k → PaidTo env s s' k Job.agent) ∧
      (∀ k, e = .refunded k → PaidTo env s s' k Job.client) ∧
      ∀ k ∈ created log, e.settled? ≠ some k →
        s.ledger.balance (env.vaultOf k) ≤ s'.ledger.balance (env.vaultOf k) := by
  have hinv := escrowInv_of_run hrun
  refine ⟨fun key job hjob hstate => JobHeld.funded hinv hjob hstate,
    fun now c hc => hinv.ne_insufficientFunds hc, hinv.createdNodup.of_map _, hinv.settledNodup,
    fun e s' hstep => ⟨?_, ?_, fun k hk hne => hinv.balance_le hstep.effect hk hne⟩⟩
  · rintro k rfl
    cases hstep.effect with
    | release key vault ata job job' hs hlater hsigned hstate =>
        exact hs.paidTo hinv ((hinv.jobs key job hs.job_eq).agent hsigned) rfl
  · rintro k rfl
    cases hstep.effect with
    | refund key vault ata job job' hs hlater hstate =>
        exact hs.paidTo hinv (hinv.jobs key job hs.job_eq).client rfl

/-! ### A job that is cancelled -/

/-- What a client needs to create a job for `price`. -/
structure CanCreate (env : EscrowEnv) (s : EscrowState) (accounts : CreateJob env)
    (nonce : Bytes 8) (price : UInt64) : Prop where
  source : ∃ source, s.ledger.account accounts.clientAta = some source ∧
    source.owner = accounts.client.key ∧ source.mint = accounts.mint ∧
    price.toNat ≤ source.amount.toNat
  supply : ∃ n, s.ledger.supply accounts.mint = some n
  vacant : s.job (env.pda (.job accounts.client.key nonce)) = none
  vaultVacant : s.ledger.account (env.vault accounts.client.key nonce) = none
  positive : 0 < price

/-- The state that creating a job leaves. -/
def EscrowState.afterCreate (s : EscrowState) (now : ℤ) (accounts : CreateJob env)
    (agent : Pubkey) (nonce : Bytes 8) (price : UInt64) : EscrowState :=
  let vault := env.vault accounts.client.key nonce
  { s.setJob (env.pda (.job accounts.client.key nonce))
      (newJob env now accounts.client.key agent nonce price) with
    ledger := (s.ledger.openAccount vault accounts.mint vault).move accounts.clientAta vault price }

/-- A client who has the funds can create a job. -/
theorem CanCreate.createJob {s : EscrowState} {accounts : CreateJob env} {nonce : Bytes 8}
    {price : UInt64} (h : CanCreate env s accounts nonce price) (now : ℤ) (agent : Pubkey) :
    Creates env s accounts.client (newJob env now accounts.client.key agent nonce price)
        accounts.clientAta accounts.mint ∧
      createJob env s now accounts agent nonce price =
        .ok (s.afterCreate now accounts agent nonce price) := by
  obtain ⟨source, hsource, howner, hmint, hfunds⟩ := h.source
  let vault := env.vault accounts.client.key nonce
  let opened := s.ledger.openAccount vault accounts.mint vault
  have hne : accounts.clientAta ≠ vault := by
    intro e
    rw [e, h.vaultVacant] at hsource
    cases hsource
  have hsource₁ : opened.account accounts.clientAta = some source := by
    rw [Ledger.openAccount_account h.vaultVacant, Function.update_of_ne hne, hsource]
  have hvault₁ : opened.account vault =
    some { mint := accounts.mint, owner := vault, amount := 0 } := by
    rw [Ledger.openAccount_account h.vaultVacant, Function.update_self]
  have hc : Creates env s accounts.client (newJob env now accounts.client.key agent nonce price)
      accounts.clientAta accounts.mint :=
    ⟨rfl, rfl, rfl, rfl, h.vacant, h.vaultVacant, source, _, hsource₁, hvault₁, hfunds, hmint,
      howner⟩
  exact ⟨hc, createJob_eq_ok.mpr
    ⟨⟨source, hsource, howner, hmint⟩, h.supply, h.positive, hc, rfl⟩⟩

/-- And then cancel it. -/
theorem CanCreate.cancelled {s : EscrowState} {accounts : CreateJob env} {nonce : Bytes 8}
    {price : UInt64} (h : CanCreate env s accounts nonce price) (now : ℤ) (agent : Pubkey) :
    ∃ s₁ s₂, Step env s (.created (accounts.client.key, nonce)) s₁ ∧
      Step env s₁ (.refunded (accounts.client.key, nonce)) s₂ := by
  obtain ⟨hc, hcreate⟩ := h.createJob now agent
  -- the refund goes back to where the price came from
  obtain ⟨v, hv, hvo, hle⟩ := hc.vault
  obtain ⟨a₀, v₀, ha₀, hv₀, -, hmint, howner⟩ := id hc.transfer
  obtain ⟨a, ha, ham, hao⟩ := hc.transfer.moved.account_some ha₀
  obtain ⟨v', hv', hvm, -⟩ := hc.transfer.moved.account_some hv₀
  obtain rfl := Option.some.inj (hv.symm.trans hv')
  let s₁ := s.afterCreate now accounts agent nonce price
  let job := newJob env now accounts.client.key agent nonce price
  let call : SettleCall env :=
    { job := env.pda (.job accounts.client.key nonce)
      escrowVault := env.vault accounts.client.key nonce
      ata := accounts.clientAta
      caller := accounts.client }
  have hs : Settles env s₁ call.job call.escrowVault call.ata job job.client :=
    ⟨Function.update_self .., rfl, rfl,
      ⟨v, a, hv, ha, hle, hvm.trans (hmint.symm.trans ham.symm), hvo⟩, a, ha, hao.trans howner⟩
  obtain ⟨s₂, hcancel⟩ : ∃ s₂, cancelJob env s₁ now call = .ok s₂ :=
    ⟨_, settle_eq_ok.mpr ⟨job, a, ha, hs, require_bind_eq_ok.mpr ⟨rfl, rfl⟩, rfl⟩⟩
  have hstep₁ : Step env s (event s (.createJob accounts agent nonce price)) s₁ := .call hcreate
  have hstep₂ : Step env s₁ (event s₁ (.cancelJob call)) s₂ := .call hcancel
  have hevent : event s₁ (.cancelJob call) = .refunded (accounts.client.key, nonce) := by
    rw [event, hs.job_eq]
    rfl
  rw [hevent] at hstep₂
  exact ⟨s₁, s₂, hstep₁, hstep₂⟩

/-- A deployment of one job. -/
def sample : EscrowEnv where
  address
    | (.job _ _, _) => Pool.key (2 ^ 128)
    | (.escrow _ _, _) => Pool.key (2 ^ 128 + 1)
  bump _ := 255

/-- Its addresses are large. -/
theorem sample_underived {n : ℕ} (hn : n < 2 ^ 128) :
    ∀ seed : EscrowSeed × UInt8, sample.address seed ≠ Pool.key n := by
  rintro ⟨_ | _, _⟩
  · exact Pool.key_ne (by norm_num) (by omega) (by omega)
  · exact Pool.key_ne (by norm_num) (by omega) (by omega)

/-- Its client. -/
def sampleClient : EscrowSigner sample where
  key := Pool.key 4
  not_derived := sample_underived (by norm_num)

/-- And the state it starts in: the client has 100, and no job. -/
def sampleStart : EscrowState where
  job _ := none
  ledger := Pool.Ledger.funded (Pool.key 2) (Pool.key 1) sampleClient.key 100

/-- The accounts the client creates its job with. -/
def sampleAccounts : CreateJob sample where
  clientAta := Pool.key 2
  client := sampleClient
  mint := Pool.key 1

theorem sample_canCreate : CanCreate sample sampleStart sampleAccounts (Bytes.zero 8) 10 where
  source := by
    refine ⟨{ mint := Pool.key 1, owner := sampleClient.key, amount := 100 }, ?_, rfl, rfl,
      by decide⟩
    show (Pool.Ledger.funded _ _ _ _).account (Pool.key 2) = _
    rw [Pool.funded_account, Function.update_self]
  supply := by
    refine ⟨100, ?_⟩
    show (Pool.Ledger.funded _ _ _ _).supply (Pool.key 1) = _
    rw [Pool.funded_supply, Function.update_self]
  vacant := rfl
  vaultVacant := by
    have hne : Pool.key (2 ^ 128 + 1) ≠ Pool.key 2 :=
      Pool.key_ne (by norm_num) (by norm_num) (by norm_num)
    show (Pool.Ledger.funded _ _ _ _).account (Pool.key (2 ^ 128 + 1)) = none
    rw [Pool.funded_account, Function.update_of_ne hne]
  positive := by decide

theorem escrow_conservation_cancelled : ∃ (log : List Event) (s : EscrowState),
    EscrowRun sample log s ∧ settled log = [(sampleClient.key, Bytes.zero 8)] ∧
    (settled log).Nodup := by
  have hinitial : Initial sampleStart := fun _ => rfl
  obtain ⟨s₁, s₂, h₁, h₂⟩ := sample_canCreate.cancelled 0 (Pool.key 5)
  have hrun : EscrowRun sample _ s₂ := ((Run.start hinitial).snoc h₁).snoc h₂
  exact ⟨_, s₂, hrun, rfl, (escrow_conservation hrun).2.2.2.1⟩

end Qietr.Escrow
