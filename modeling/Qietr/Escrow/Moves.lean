import Qietr.Escrow.History

/-!
# Escrow — the moves of a job

What the parties of a job can do from any state that a run reaches: each move as a longer run, with
the job it leaves.

* `Deal`: a job of a run.
* `Deal.done`: what a step does to it.
* `CanCreate.deal`, `Deal.accept`, `Deal.complete`, `Deal.dispute`: the moves that leave the price
  where it is.
* `Deal.openAccount`: a third party opens the token account that a settlement needs.
* `Deal.release`, `Deal.cancel`, `Deal.resolve`: the moves that pay it out.
-/

namespace Qietr.Escrow

open Outcome

variable {env : EscrowEnv}

/-- A job of a run. -/
structure Deal (env : EscrowEnv) (log : List (Option Deed)) (c : Clocked) (key : Pubkey)
    (job : Job) : Prop where
  run : ClockedRun env log c
  job_eq : c.escrow.job key = some job

namespace Deal

variable {log : List (Option Deed)} {c : Clocked} {key : Pubkey} {job : Job}

theorem inv (h : Deal env log c key job) : StoryInv env log c :=
  storyInv_of_run h.run

theorem escrow (h : Deal env log c key job) : EscrowInv env (events log) c.escrow :=
  escrowInv_of_run (escrowRun_of_clocked h.run)

theorem held (h : Deal env log c key job) :
    JobHeld env (events log) c.escrow.ledger key job :=
  h.escrow.jobs key job h.job_eq

theorem seeds (h : Deal env log c key job) :
    env.address (.job job.client job.nonce, job.bump) = key := by
  rw [h.inv.bump key job h.job_eq]
  exact h.held.address

/-- A deed of the story was done, at a time that has passed. -/
theorem time (h : Deal env log c key job) {d : Deed} (hd : d ∈ deeds job.key log) :
    -2 ^ 63 ≤ d.time ∧ d.time ≤ c.now :=
  h.inv.time d (mem_log_of_deeds hd)

theorem opened_mem (h : Deal env log c key job) : job.opened ∈ deeds job.key log := by
  have hstory := h.inv.story key job h.job_eq
  cases e : job.state with
  | created | accepted | completed =>
      simp only [Job.Story, e] at hstory
      rw [hstory]
      exact List.mem_cons_self
  | released | disputed =>
      simp only [Job.Story, e] at hstory
      obtain ⟨t, hstory⟩ := hstory
      rw [hstory]
      exact List.mem_cons_self
  | refunded =>
      simp only [Job.Story, e] at hstory
      rcases hstory with ⟨t, hstory⟩ | ⟨t, -, hstory⟩ | ⟨t, caller, -, hstory⟩ <;>
      · rw [hstory]
        exact List.mem_cons_self

theorem accepted_time (h : Deal env log c key job) (hstate : job.state = .accepted) :
    -2 ^ 63 ≤ job.acceptedAt ∧ job.acceptedAt ≤ c.now := by
  have hstory := h.inv.story key job h.job_eq
  simp only [Job.Story, hstate] at hstory
  exact h.time (d := job.acceptance) (by rw [hstory]; simp)

theorem completed_time (h : Deal env log c key job)
    (hstate : job.state = .completed ∨ job.state = .disputed) :
    -2 ^ 63 ≤ job.completedAt ∧ job.completedAt ≤ c.now := by
  have hstory := h.inv.story key job h.job_eq
  refine h.time (d := job.completion) ?_
  rcases hstate with e | e
  · simp only [Job.Story, e] at hstory
    rw [hstory]
    simp
  · simp only [Job.Story, e] at hstory
    obtain ⟨t, hstory⟩ := hstory
    rw [hstory]
    simp

/-- The clock of a run with a job reads an `i64`. -/
theorem lower (h : Deal env log c key job) : -2 ^ 63 ≤ c.now :=
  (h.time h.opened_mem).1.trans (h.time h.opened_mem).2

/-- **Every step** leaves the job of a run, or is a turn of it. -/
theorem done (h : Deal env log c key job) {a : Option Deed} {c' : Clocked}
    (hstep : ClockedStep env c a c') :
    (c'.escrow.job key = some job ∧ ∀ d, a = some d → d.job ≠ job.key) ∨
      ∃ op signer, a = some ⟨c'.now, job.key, op, signer⟩ ∧
        Turn job c'.now op signer (c'.escrow.job key) := by
  have hdone := hstep.done
  generalize c'.escrow.job = jobs at hdone
  cases hdone with
  | nothing => exact .inl ⟨h.job_eq, nofun⟩
  | create job' hstate htime hprice hbump hvacant hvault =>
      have hne : key ≠ env.pda (.job job'.client job'.nonce) := by
        rintro rfl
        rw [h.job_eq] at hvacant
        cases hvacant
      refine .inl ⟨by rw [Function.update_of_ne hne, h.job_eq], ?_⟩
      rintro _ ⟨⟩ e
      obtain ⟨hclient, hnonce⟩ := Prod.mk.inj e
      refine hne (h.held.address.symm.trans ?_)
      rw [← hclient, ← hnonce]
  | turn key' job' op signer o hjob hturn =>
      by_cases ekey : key = key'
      · subst ekey
        obtain rfl := Option.some.inj (h.job_eq.symm.trans hjob)
        exact .inr ⟨op, signer, rfl, by rwa [Function.update_self]⟩
      · refine .inl ⟨by rw [Function.update_of_ne ekey, h.job_eq], ?_⟩
        rintro _ ⟨⟩ e
        obtain ⟨hclient, hnonce⟩ := Prod.mk.inj e
        refine ekey (h.held.address.symm.trans ?_)
        rw [← hclient, ← hnonce]
        exact (h.escrow.jobs key' job' hjob).address

/-! ### Moves that leave the price in the vault -/

/-- A call that takes the job on. -/
theorem advance (h : Deal env log c key job) {now : ℤ} (ht : c.Ticks now)
    (caller : EscrowSigner env) (op : Op) {i : Call env} {check : Job → Except Error Unit}
    {next : Job → Job}
    (hexec : exec env c.escrow now i = Escrow.advance env c.escrow ⟨key, caller⟩ check next)
    (hdeed : deed c.escrow now i = deedOn c.escrow now key op caller.key)
    (hcheck : check job = .ok ()) :
    Deal env (log ++ [some ⟨now, job.key, op, caller.key⟩])
      ⟨now, c.escrow.setJob key (next job)⟩ key (next job) := by
  have hok : exec env c.escrow now i = .ok (c.escrow.setJob key (next job)) := by
    rw [hexec, Escrow.advance]
    exact bind_eq_ok.mpr ⟨job, loadJob_eq_ok.mpr ⟨h.job_eq, h.seeds⟩,
      bind_eq_ok.mpr ⟨(), hcheck, rfl⟩⟩
  have hstep := ClockedStep.call ht hok
  rw [hdeed, deedOn_eq h.job_eq] at hstep
  exact ⟨h.run.snoc hstep, Function.update_self ..⟩

theorem accept (h : Deal env log c key job) (hstate : job.state = .created)
    (agent : EscrowSigner env) (hagent : agent.key = job.agent) {now : ℤ} (ht : c.Ticks now) :
    Deal env (log ++ [some ⟨now, job.key, .accept, agent.key⟩])
      ⟨now, c.escrow.setJob key { job with acceptedAt := now, state := .accepted }⟩ key
      { job with acceptedAt := now, state := .accepted } :=
  h.advance (i := .acceptJob ⟨key, agent⟩) ht agent .accept rfl rfl
    (require_bind_eq_ok.mpr ⟨hstate, require_eq_ok.mpr hagent⟩)

theorem complete (h : Deal env log c key job) (hstate : job.state = .accepted)
    (agent : EscrowSigner env) (hagent : agent.key = job.agent) {now : ℤ} (ht : c.Ticks now) :
    Deal env (log ++ [some ⟨now, job.key, .complete, agent.key⟩])
      ⟨now, c.escrow.setJob key { job with completedAt := now, state := .completed }⟩ key
      { job with completedAt := now, state := .completed } :=
  h.advance (i := .completeJob ⟨key, agent⟩) ht agent .complete rfl rfl
    (require_bind_eq_ok.mpr ⟨hagent, require_bind_eq_ok.mpr ⟨hstate, require_eq_ok.mpr hagent⟩⟩)

theorem dispute (h : Deal env log c key job) (hstate : job.state = .completed)
    (client : EscrowSigner env) (hclient : client.key = job.client) {now : ℤ} (ht : c.Ticks now) :
    Deal env (log ++ [some ⟨now, job.key, .dispute, client.key⟩])
      ⟨now, c.escrow.setJob key { job with state := .disputed }⟩ key
      { job with state := .disputed } :=
  h.advance (i := .disputeJob ⟨key, client⟩) ht client .dispute rfl rfl
    (require_bind_eq_ok.mpr ⟨hstate, require_eq_ok.mpr hclient⟩)

end Deal

/-! ### Moves that pay it out -/

/-- `ata` is a token account of `party`, of the mint of the vault. -/
def Receives (l : Ledger) (vault ata party : Pubkey) : Prop :=
  ∃ v b, l.account vault = some v ∧ l.account ata = some b ∧ b.mint = v.mint ∧ b.owner = party

/-- Somebody else than `p`: a signer, and an address to open a token account at. -/
structure ThirdParty (env : EscrowEnv) (c : Clocked) (p : Pubkey) where
  signer : EscrowSigner env
  ne : signer.key ≠ p
  ata : Pubkey
  underived : ∀ seed, env.address seed ≠ ata
  vacant : c.escrow.ledger.account ata = none

namespace Deal

variable {log : List (Option Deed)} {c : Clocked} {key : Pubkey} {job : Job}

/-- A third party opens a token account for `party`. -/
theorem openAccount (h : Deal env log c key job) (hlive : job.state.settled = false) {ata : Pubkey}
    (hvacant : c.escrow.ledger.account ata = none) (ht : c.Ticks c.now) (party : Pubkey) :
    ∃ l, ClockedStep env c none ⟨c.now, { c.escrow with ledger := l }⟩ ∧
      (∀ P, c.escrow.ledger.KeepsOwnedBy P l) ∧ Receives l (env.vaultOf job.key) ata party ∧
      Deal env (log ++ [none]) ⟨c.now, { c.escrow with ledger := l }⟩ key job := by
  obtain ⟨v, hv, -, -⟩ := JobHeld.funded h.escrow h.job_eq hlive
  let l := c.escrow.ledger.openAccount ata v.mint party
  have hstep : ClockedStep env c none ⟨c.now, { c.escrow with ledger := l }⟩ :=
    .external ht (.of_openAccount hvacant)
  have hne : env.vaultOf job.key ≠ ata := by
    rintro rfl
    rw [hvacant] at hv
    cases hv
  have hopened : l.account = Function.update c.escrow.ledger.account ata
      (some { mint := v.mint, owner := party, amount := 0 }) :=
    Ledger.openAccount_account hvacant v.mint party
  refine ⟨l, hstep, fun P => .of_openAccount hvacant,
    ⟨v, { mint := v.mint, owner := party, amount := 0 }, ?_, ?_, rfl, rfl⟩, h.run.snoc hstep,
    h.job_eq⟩
  · rw [hopened, Function.update_of_ne hne, hv]
  · rw [hopened, Function.update_self]

/-- A settlement that its check allows pays the price out. -/
theorem paid (h : Deal env log c key job) (hlive : job.state.settled = false) {ata : Pubkey}
    {party : Job → Pubkey} (hr : Receives c.escrow.ledger (env.vaultOf job.key) ata (party job))
    (hparty : ∀ seed, env.address seed ≠ party job) (caller : EscrowSigner env)
    (mismatch : EscrowError) (check : Job → TokenAccount → Except Error Unit) (next : Job → Job)
    (hcheck : ∀ b, b.owner = party job → check job b = .ok ()) :
    ∃ s', settle env c.escrow ⟨key, env.vaultOf job.key, ata, caller⟩ party mismatch check next =
        .ok s' ∧ s'.job key = some (next job) ∧ PaidTo env c.escrow s' job.key party := by
  obtain ⟨v, b, hv, hb, hmint, howner⟩ := hr
  obtain ⟨v', hv', hvo, hle⟩ := JobHeld.funded h.escrow h.job_eq hlive
  obtain rfl := Option.some.inj (hv.symm.trans hv')
  have hs : Settles env c.escrow key (env.vaultOf job.key) ata job (party job) :=
    ⟨h.job_eq, h.seeds, congrArg (fun n => env.address (_, n)) h.held.escrowBump,
      ⟨v, b, hv, hb, hle, hmint.symm, hvo⟩, b, hb, howner⟩
  exact ⟨_, settle_eq_ok.mpr ⟨job, b, hb, hs, hcheck b howner, rfl⟩, Function.update_self ..,
    hs.paidTo h.escrow hparty rfl⟩

/-- The client can pay the agent of a completed job. -/
theorem release (h : Deal env log c key job) (hstate : job.state = .completed) {ata : Pubkey}
    (hr : Receives c.escrow.ledger (env.vaultOf job.key) ata job.agent) (client : EscrowSigner env)
    (hclient : client.key = job.client) {now : ℤ} (ht : c.Ticks now) :
    ∃ s', ClockedStep env c (some ⟨now, job.key, .release, client.key⟩) ⟨now, s'⟩ ∧
      s'.job key = some { job with state := .released } ∧
      PaidTo env c.escrow s' job.key Job.agent := by
  obtain ⟨s', hok, hjob, hpaid⟩ := h.paid (by rw [hstate]; rfl) hr
    (h.held.agent (by rw [hstate]; rfl)) client .agentAtaMismatch
    (checkRelease client.key) (fun job => { job with state := .released })
    fun b hb => require_bind_eq_ok.mpr ⟨hstate, require_bind_eq_ok.mpr
      ⟨hclient, require_eq_ok.mpr hb⟩⟩
  refine ⟨s', ?_, hjob, hpaid⟩
  have hstep := ClockedStep.call (i := .releasePayment ⟨key, _, ata, client⟩) ht hok
  rw [deed, deedOn_eq h.job_eq] at hstep
  exact hstep

/-- The client can take back the price of a job that was not accepted, or not completed in time. -/
theorem cancel (h : Deal env log c key job) {now : ℤ} (ht : c.Ticks now)
    (hstate : job.state = .created ∨ job.state = .accepted ∧
      job.acceptedAt + ACCEPT_TIMEOUT_SECONDS ≤ now) {ata : Pubkey}
    (hr : Receives c.escrow.ledger (env.vaultOf job.key) ata job.client)
    (client : EscrowSigner env) (hclient : client.key = job.client) :
    ∃ s', ClockedStep env c (some ⟨now, job.key, .cancel, client.key⟩) ⟨now, s'⟩ ∧
      s'.job key = some { job with state := .refunded } ∧
      PaidTo env c.escrow s' job.key Job.client := by
  have hlive : job.state.settled = false := by
    rcases hstate with e | ⟨e, -⟩
    · rw [e]; rfl
    · rw [e]; rfl
  have hcheck : checkCancel now client.key job = .ok () := by
    refine require_bind_eq_ok.mpr ⟨hclient, ?_⟩
    rcases hstate with e | ⟨e, hle⟩
    · rw [e]
    · have htime := h.accepted_time e
      have hupper := ht.upper
      have hadd : checkedAddI64 job.acceptedAt ACCEPT_TIMEOUT_SECONDS =
          some (job.acceptedAt + ACCEPT_TIMEOUT_SECONDS) :=
        checkedAddI64_eq_some.mpr ⟨⟨by unfold ACCEPT_TIMEOUT_SECONDS; omega, by omega⟩, rfl⟩
      rw [e]
      exact okOr_bind_eq_ok.mpr ⟨_, hadd, require_eq_ok.mpr hle⟩
  obtain ⟨s', hok, hjob, hpaid⟩ := h.paid hlive hr h.held.client client .clientAtaMismatch
    (fun job _ => checkCancel now client.key job)
    (fun job => { job with state := .refunded }) fun _ _ => hcheck
  refine ⟨s', ?_, hjob, hpaid⟩
  have hstep := ClockedStep.call (i := .cancelJob ⟨key, _, ata, client⟩) ht hok
  rw [deed, deedOn_eq h.job_eq] at hstep
  exact hstep

/-- Anyone can refund the client of a disputed job, seven days after its completion. -/
theorem resolve (h : Deal env log c key job) (hstate : job.state = .disputed) {now : ℤ}
    (ht : c.Ticks now) (hle : job.completedAt + DISPUTE_TIMEOUT_SECONDS ≤ now) {ata : Pubkey}
    (hr : Receives c.escrow.ledger (env.vaultOf job.key) ata job.client)
    (caller : EscrowSigner env) :
    ∃ s', ClockedStep env c (some ⟨now, job.key, .resolve, caller.key⟩) ⟨now, s'⟩ ∧
      s'.job key = some { job with resolvedAt := now, state := .refunded } ∧
      PaidTo env c.escrow s' job.key Job.client := by
  have hcheck : checkResolve now job = .ok () := by
    have htime := h.completed_time (.inr hstate)
    have hupper := ht.upper
    have hadd : checkedAddI64 job.completedAt DISPUTE_TIMEOUT_SECONDS =
        some (job.completedAt + DISPUTE_TIMEOUT_SECONDS) :=
      checkedAddI64_eq_some.mpr ⟨⟨by unfold DISPUTE_TIMEOUT_SECONDS; omega, by omega⟩, rfl⟩
    exact require_bind_eq_ok.mpr ⟨hstate, okOr_bind_eq_ok.mpr ⟨_, hadd, require_eq_ok.mpr hle⟩⟩
  obtain ⟨s', hok, hjob, hpaid⟩ := h.paid (by rw [hstate]; rfl) hr h.held.client caller
    .clientAtaMismatch (fun job _ => checkResolve now job)
    (fun job => { job with resolvedAt := now, state := .refunded }) fun _ _ => hcheck
  refine ⟨s', ?_, hjob, hpaid⟩
  have hstep := ClockedStep.call (i := .resolveDispute ⟨key, _, ata, caller⟩) ht hok
  rw [deed, deedOn_eq h.job_eq] at hstep
  exact hstep

/-- A dispute can be resolved as soon as seven days have passed since the completion. -/
theorem dispute_resolve (h : Deal env log c key job) (hstate : job.state = .completed)
    (client : EscrowSigner env) (hclient : client.key = job.client) (now : ℤ) (ht : c.Ticks now)
    (hroom : job.completedAt + DISPUTE_TIMEOUT_SECONDS < 2 ^ 63) {ata : Pubkey}
    (hvacant : c.escrow.ledger.account ata = none) (caller : EscrowSigner env) :
    ∃ c', Deal env (log ++ some ⟨now, job.key, .dispute, client.key⟩ :: [none] ++
      [some ⟨max now (job.completedAt + DISPUTE_TIMEOUT_SECONDS), job.key, .resolve,
        caller.key⟩]) c' key
      { job with
        resolvedAt := max now (job.completedAt + DISPUTE_TIMEOUT_SECONDS)
        state := .refunded } := by
  have hdisputed := h.dispute hstate client hclient ht
  obtain ⟨l, -, -, hr, hopened⟩ := hdisputed.openAccount rfl hvacant
    ⟨le_refl _, ht.lower, ht.upper⟩ job.client
  obtain ⟨s', hstep, hjob, -⟩ := hopened.resolve rfl
    ⟨le_max_left now _, ht.lower.trans (le_max_left _ _), max_lt ht.upper hroom⟩
    (le_max_right _ _) hr caller
  refine ⟨⟨max now (job.completedAt + DISPUTE_TIMEOUT_SECONDS), s'⟩, ?_, hjob⟩
  rw [List.append_cons log]
  exact hopened.run.snoc hstep

end Deal

/-! ### The first move -/

theorem CanCreate.deal {s : EscrowState} {accounts : CreateJob env} {nonce : Bytes 8}
    {price : UInt64} (h : CanCreate env s accounts nonce price) (hs : Initial s) (now : ℤ)
    (hlower : -2 ^ 63 ≤ now) (hupper : now < 2 ^ 63) (agent : Pubkey) :
    Deal env [some ⟨now, (accounts.client.key, nonce), .create agent price, accounts.client.key⟩]
      ⟨now, s.afterCreate now accounts agent nonce price⟩
      (env.pda (.job accounts.client.key nonce))
      (newJob env now accounts.client.key agent nonce price) := by
  have hstart : ClockedRun env [] ⟨now, s⟩ := .start hs
  have hstep := ClockedStep.call (c := ⟨now, s⟩) (i := .createJob accounts agent nonce price)
    ⟨le_refl now, hlower, hupper⟩ (h.createJob now agent).2
  exact ⟨hstart.snoc hstep, Function.update_self ..⟩

/-- An address without an account keeps none. -/
theorem CanCreate.account_none {s : EscrowState} {accounts : CreateJob env} {nonce : Bytes 8}
    {price : UInt64} (h : CanCreate env s accounts nonce price) {a : Pubkey}
    (ha : s.ledger.account a = none) (hne : a ≠ env.vault accounts.client.key nonce) (now : ℤ)
    (agent : Pubkey) :
    (s.afterCreate now accounts agent nonce price).ledger.account a = none := by
  obtain ⟨hc, -⟩ := h.createJob now agent
  refine hc.transfer.moved.account_none ?_
  rw [Ledger.openAccount_account hc.vaultVacant]
  exact (Function.update_of_ne hne _ _).trans ha

/-! ### A completed job -/

/-- The agent of the client's job. -/
def sampleAgent : EscrowSigner sample where
  key := Pool.key 5
  not_derived := sample_underived (by norm_num)

/-- Somebody else. -/
def sampleOther : EscrowSigner sample where
  key := Pool.key 6
  not_derived := sample_underived (by norm_num)

def sampleKey : JobKey := (sampleClient.key, Bytes.zero 8)

/-- The job is created, accepted and completed at once. -/
def sampleLog : List (Option Deed) :=
  [some ⟨0, sampleKey, .create sampleAgent.key 10, sampleClient.key⟩,
    some ⟨0, sampleKey, .accept, sampleAgent.key⟩,
    some ⟨0, sampleKey, .complete, sampleAgent.key⟩]

theorem sample_completed : ∃ (c : Clocked) (key : Pubkey) (job : Job),
    Deal sample sampleLog c key job ∧ job.state = .completed ∧ job.key = sampleKey ∧
      job.agent = sampleAgent.key ∧ job.completedAt = 0 ∧ c.now = 0 ∧
      c.escrow.ledger.account (Pool.key 7) = none := by
  have hticks : ∀ s : EscrowState, (Clocked.mk 0 s).Ticks 0 := fun s =>
    ⟨le_refl _, by norm_num, by norm_num⟩
  have hcreated := sample_canCreate.deal (fun _ => rfl) 0 (by norm_num) (by norm_num)
    sampleAgent.key
  have haccepted := hcreated.accept rfl sampleAgent rfl (hticks _)
  have hcompleted := haccepted.complete rfl sampleAgent rfl (hticks _)
  have hvacant : sampleStart.ledger.account (Pool.key 7) = none := by
    show (Pool.Ledger.funded _ _ _ _).account (Pool.key 7) = none
    rw [Pool.funded_account,
      Function.update_of_ne (Pool.key_ne (by norm_num) (by norm_num) (by norm_num))]
  exact ⟨_, _, _, hcompleted, rfl, rfl, rfl, rfl, rfl, sample_canCreate.account_none hvacant
    (Pool.key_ne (by norm_num) (by norm_num) (by norm_num)) 0 sampleAgent.key⟩

end Qietr.Escrow
