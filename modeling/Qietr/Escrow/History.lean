import Qietr.Escrow.Runs
import Mathlib.Data.List.ReduceOption

/-!
# Escrow — histories

Runs under a clock that does not go back, and what each state of a job says about the operations
that led to it: which they were, who signed them and when.

* `Deed`, `deeds k log`: an operation on a job, and those a log has for one job.
* `ClockedStep`, `ClockedRun`: any interleaving, each call at the clock's reading.
* `Turn`: what a deed makes of a job; `ClockedStep.done`: every step of the clock by its turns.
* `Job.Story`: the deeds behind each state.
* `escrow_authorisation_timing`: in every run each job has its story.
-/

namespace Qietr.Escrow

open Outcome

variable {env : EscrowEnv}

/-! ### Deeds -/

/-- An instruction on a job, without its accounts. -/
inductive Op where
  | create (agent : Pubkey) (priceMicro : UInt64)
  | accept
  | complete
  | release
  | dispute
  | cancel
  | resolve
  | close
  deriving DecidableEq

/-- An operation that succeeded: when, on which job, and who signed it. -/
structure Deed where
  time : ℤ
  job : JobKey
  op : Op
  signer : Pubkey
  deriving DecidableEq

/-- `op` on the job at `key`. -/
def deedOn (s : EscrowState) (now : ℤ) (key : Pubkey) (op : Op) (signer : Pubkey) : Option Deed :=
  (s.job key).map fun job => ⟨now, job.key, op, signer⟩

/-- The deed of an instruction. -/
def deed (s : EscrowState) (now : ℤ) : Call env → Option Deed
  | .createJob accounts agent nonce priceMicro =>
      let client := accounts.client.key
      some ⟨now, (client, nonce), .create agent priceMicro, client⟩
  | .acceptJob accounts => deedOn s now accounts.job .accept accounts.caller.key
  | .completeJob accounts => deedOn s now accounts.job .complete accounts.caller.key
  | .releasePayment accounts => deedOn s now accounts.job .release accounts.caller.key
  | .disputeJob accounts => deedOn s now accounts.job .dispute accounts.caller.key
  | .cancelJob accounts => deedOn s now accounts.job .cancel accounts.caller.key
  | .resolveDispute accounts => deedOn s now accounts.job .resolve accounts.caller.key
  | .closeJob accounts => deedOn s now accounts.job .close accounts.caller.key

/-- What a deed is in a log without the clock. -/
def Deed.event (d : Deed) : Event :=
  match d.op with
  | .create _ _ => .created d.job
  | .release => .released d.job
  | .cancel | .resolve => .refunded d.job
  | .accept | .complete | .dispute | .close => .other

/-- The deeds done to the job `k`, the latest last. -/
def deeds (k : JobKey) (log : List (Option Deed)) : List Deed :=
  log.reduceOption.filter (·.job = k)

theorem deeds_snoc_none (k : JobKey) (log : List (Option Deed)) :
    deeds k (log ++ [none]) = deeds k log := by
  simp [deeds, List.reduceOption_append, List.reduceOption_singleton]

theorem deeds_snoc_some (k : JobKey) (log : List (Option Deed)) (d : Deed) :
    deeds k (log ++ [some d]) = if d.job = k then deeds k log ++ [d] else deeds k log := by
  by_cases h : d.job = k <;>
    simp [deeds, List.reduceOption_append, List.reduceOption_singleton, List.filter_append, h]

theorem deeds_snoc_same {k : JobKey} (log : List (Option Deed)) {d : Deed} (h : d.job = k) :
    deeds k (log ++ [some d]) = deeds k log ++ [d] := by
  rw [deeds_snoc_some, if_pos h]

theorem deeds_snoc_other {k : JobKey} (log : List (Option Deed)) {d : Deed} (h : d.job ≠ k) :
    deeds k (log ++ [some d]) = deeds k log := by
  rw [deeds_snoc_some, if_neg h]

theorem mem_log_of_deeds {k : JobKey} {log : List (Option Deed)} {d : Deed} (h : d ∈ deeds k log) :
    some d ∈ log :=
  List.reduceOption_mem_iff.mp (List.mem_filter.mp h).1

/-! ### Runs with a clock -/

/-- A state, and the latest reading of the clock. -/
structure Clocked where
  now : ℤ
  escrow : EscrowState

/-- The clock may read `now` next: an `i64`, not before its last reading. -/
structure Clocked.Ticks (c : Clocked) (now : ℤ) : Prop where
  le : c.now ≤ now
  lower : -2 ^ 63 ≤ now
  upper : now < 2 ^ 63

/-- One step, with the deed it is. -/
inductive ClockedStep (env : EscrowEnv) : Clocked → Option Deed → Clocked → Prop
  | call {c : Clocked} {now : ℤ} {i : Call env} {s' : EscrowState} (ht : c.Ticks now)
      (h : exec env c.escrow now i = .ok s') :
      ClockedStep env c (deed c.escrow now i) ⟨now, s'⟩
  | external {c : Clocked} {now : ℤ} {ledger : Ledger} (ht : c.Ticks now)
      (h : c.escrow.ledger.KeepsOwnedBy (fun owner => ∃ seed, env.address seed = owner) ledger) :
      ClockedStep env c none ⟨now, { c.escrow with ledger }⟩

abbrev ClockedRun (env : EscrowEnv) := Run (fun c : Clocked => Initial c.escrow) (ClockedStep env)

/-- The log of a run without the clock. -/
def events (log : List (Option Deed)) : List Event :=
  log.map fun a => (a.map Deed.event).getD .other

theorem event_eq_deed (s : EscrowState) (now : ℤ) (i : Call env) :
    event s i = ((deed s now i).map Deed.event).getD .other := by
  cases i with
  | createJob => rfl
  | acceptJob accounts | completeJob accounts | disputeJob accounts | closeJob accounts =>
      cases h : s.job accounts.job <;> simp [event, deed, deedOn, h, Deed.event]
  | releasePayment accounts | cancelJob accounts | resolveDispute accounts =>
      cases h : s.job accounts.job <;> simp [event, deed, deedOn, h, Deed.event]

theorem ClockedStep.step {c c' : Clocked} {a : Option Deed} (h : ClockedStep env c a c') :
    Step env c.escrow ((a.map Deed.event).getD .other) c'.escrow := by
  cases h with
  | call ht h =>
      rw [← event_eq_deed]
      exact .call h
  | external ht h => exact .external h

theorem ClockedStep.ticks {c c' : Clocked} {a : Option Deed} (h : ClockedStep env c a c') :
    c.Ticks c'.now := by
  cases h with
  | call ht | external ht => exact ht

/-- **Without its clock** a run is one of the escrow's runs. -/
theorem escrowRun_of_clocked {log : List (Option Deed)} {c : Clocked}
    (h : ClockedRun env log c) : EscrowRun env (events log) c.escrow := by
  induction h with
  | start h => exact .start h
  | snoc h hs ih =>
      rw [events, List.map_append]
      exact ih.snoc hs.step

/-! ### What a step does to a job -/

/-- What a deed makes of the job it is done to. -/
inductive Turn (job : Job) (now : ℤ) : Op → Pubkey → Option Job → Prop
  | accept (h : job.state = .created) :
      Turn job now .accept job.agent (some { job with acceptedAt := now, state := .accepted })
  | complete (h : job.state = .accepted) :
      Turn job now .complete job.agent (some { job with completedAt := now, state := .completed })
  | release (h : job.state = .completed) :
      Turn job now .release job.client (some { job with state := .released })
  | dispute (h : job.state = .completed) :
      Turn job now .dispute job.client (some { job with state := .disputed })
  | cancelCreated (h : job.state = .created) :
      Turn job now .cancel job.client (some { job with state := .refunded })
  | cancelAccepted (h : job.state = .accepted)
      (hle : job.acceptedAt + ACCEPT_TIMEOUT_SECONDS ≤ now) :
      Turn job now .cancel job.client (some { job with state := .refunded })
  | resolve (h : job.state = .disputed) (hle : job.completedAt + DISPUTE_TIMEOUT_SECONDS ≤ now)
      (caller : Pubkey) :
      Turn job now .resolve caller (some { job with resolvedAt := now, state := .refunded })
  | close (h : job.state.settled = true) (claimant : Pubkey) : Turn job now .close claimant none

/-- The deed that created `job`. -/
def Job.opened (job : Job) : Deed :=
  ⟨job.createdAt, job.key, .create job.agent job.priceMicro, job.client⟩

/-- Everything a step of the clock can do to the job accounts. -/
inductive Done (env : EscrowEnv) (c : Clocked) (now : ℤ) :
    Option Deed → (Pubkey → Option Job) → Prop
  | nothing : Done env c now none c.escrow.job
  | create (job : Job) (hstate : job.state = .created) (htime : job.createdAt = now)
      (hprice : 0 < job.priceMicro)
      (hbump : job.bump = env.bump (.job job.client job.nonce))
      (hvacant : c.escrow.job (env.pda (.job job.client job.nonce)) = none)
      (hvault : c.escrow.ledger.account (env.vaultOf job.key) = none) :
      Done env c now (some job.opened)
        (Function.update c.escrow.job (env.pda (.job job.client job.nonce)) (some job))
  | turn (key : Pubkey) (job : Job) (op : Op) (signer : Pubkey) (o : Option Job)
      (hjob : c.escrow.job key = some job) (h : Turn job now op signer o) :
      Done env c now (some ⟨now, job.key, op, signer⟩) (Function.update c.escrow.job key o)

theorem checkedAddI64_eq_some {a b c : ℤ} :
    checkedAddI64 a b = some c ↔ (-2 ^ 63 ≤ a + b ∧ a + b < 2 ^ 63) ∧ a + b = c := by
  by_cases h : -2 ^ 63 ≤ a + b ∧ a + b < 2 ^ 63
  · rw [checkedAddI64, if_pos h, Option.some.injEq, and_iff_right h]
  · rw [checkedAddI64, if_neg h]
    exact ⟨nofun, fun hc => absurd hc.1 h⟩

theorem deedOn_eq {s : EscrowState} {now : ℤ} {key : Pubkey} {op : Op} {signer : Pubkey} {job : Job}
    (h : s.job key = some job) : deedOn s now key op signer = some ⟨now, job.key, op, signer⟩ := by
  rw [deedOn, h]
  rfl

theorem checkCancel_turn {now : ℤ} {caller : Pubkey} {job : Job}
    (h : checkCancel now caller job = .ok ()) :
    Turn job now .cancel caller (some { job with state := .refunded }) := by
  obtain ⟨rfl, hstate⟩ := require_bind_eq_ok.mp h
  cases e : job.state with
  | created => exact .cancelCreated e
  | accepted =>
      rw [e] at hstate
      obtain ⟨deadline, hadd, hle⟩ := okOr_bind_eq_ok.mp hstate
      obtain ⟨-, rfl⟩ := checkedAddI64_eq_some.mp hadd
      exact .cancelAccepted e (require_eq_ok.mp hle)
  | completed | released | disputed | refunded =>
      rw [e] at hstate
      cases hstate

theorem checkResolve_turn {now : ℤ} {job : Job} (h : checkResolve now job = .ok ())
    (caller : Pubkey) :
    Turn job now .resolve caller (some { job with resolvedAt := now, state := .refunded }) := by
  obtain ⟨hstate, h⟩ := require_bind_eq_ok.mp h
  obtain ⟨deadline, hadd, hle⟩ := okOr_bind_eq_ok.mp h
  obtain ⟨-, rfl⟩ := checkedAddI64_eq_some.mp hadd
  exact .resolve hstate (require_eq_ok.mp hle) caller

/-- **Every step** of the clock is one of those. -/
theorem ClockedStep.done {c c' : Clocked} {a : Option Deed} (h : ClockedStep env c a c') :
    Done env c c'.now a c'.escrow.job := by
  cases h with
  | external ht h => exact .nothing
  | @call now i s' ht h =>
      cases i with
      | createJob accounts agent nonce price =>
          obtain ⟨-, -, hprice, hc, rfl⟩ := createJob_eq_ok.mp h
          exact .create _ hc.state rfl hprice hc.bump hc.vacant hc.vaultVacant
      | acceptJob accounts =>
          obtain ⟨job, hjob, hcheck, rfl⟩ := advance_eq_ok h
          obtain ⟨hstate, hagent⟩ := require_bind_eq_ok.mp hcheck
          rw [deed, deedOn_eq hjob, require_eq_ok.mp hagent]
          exact .turn _ job _ _ _ hjob (.accept hstate)
      | completeJob accounts =>
          obtain ⟨job, hjob, hcheck, rfl⟩ := advance_eq_ok h
          obtain ⟨hagent, hcheck⟩ := require_bind_eq_ok.mp hcheck
          obtain ⟨hstate, -⟩ := require_bind_eq_ok.mp hcheck
          rw [deed, deedOn_eq hjob, hagent]
          exact .turn _ job _ _ _ hjob (.complete hstate)
      | disputeJob accounts =>
          obtain ⟨job, hjob, hcheck, rfl⟩ := advance_eq_ok h
          obtain ⟨hstate, hclient⟩ := require_bind_eq_ok.mp hcheck
          rw [deed, deedOn_eq hjob, require_eq_ok.mp hclient]
          exact .turn _ job _ _ _ hjob (.dispute hstate)
      | closeJob accounts =>
          simp only [exec, closeJob, bind_eq_ok, loadJob_eq_ok, require_eq_ok, exists_and_left,
            exists_const, Except.ok.injEq] at h
          obtain ⟨job, ⟨hjob, -⟩, hstate, rfl⟩ := h
          rw [deed, deedOn_eq hjob]
          refine .turn _ job _ _ _ hjob (.close ?_ _)
          rcases hstate with e | e
          · rw [e]; rfl
          · rw [e]; rfl
      | releasePayment accounts =>
          obtain ⟨job, ata, -, hs, hcheck, rfl⟩ := settle_eq_ok.mp h
          have hstate := checkRelease_ok hcheck
          obtain ⟨-, hcheck⟩ := require_bind_eq_ok.mp hcheck
          obtain ⟨hclient, -⟩ := require_bind_eq_ok.mp hcheck
          rw [deed, deedOn_eq hs.job_eq, hclient]
          exact .turn _ job _ _ _ hs.job_eq (.release hstate)
      | cancelJob accounts =>
          obtain ⟨job, ata, -, hs, hcheck, rfl⟩ := settle_eq_ok.mp h
          rw [deed, deedOn_eq hs.job_eq]
          exact .turn _ job _ _ _ hs.job_eq (checkCancel_turn hcheck)
      | resolveDispute accounts =>
          obtain ⟨job, ata, -, hs, hcheck, rfl⟩ := settle_eq_ok.mp h
          rw [deed, deedOn_eq hs.job_eq]
          exact .turn _ job _ _ _ hs.job_eq (checkResolve_turn hcheck _)

/-! ### The story of a job -/

namespace Job

/-- The deed that accepted `job`, and the one that completed it. -/
def acceptance (job : Job) : Deed :=
  ⟨job.acceptedAt, job.key, .accept, job.agent⟩

def completion (job : Job) : Deed :=
  ⟨job.completedAt, job.key, .complete, job.agent⟩

/-- What the client did to `job` at `time`. -/
def byClient (job : Job) (time : ℤ) (op : Op) : Deed :=
  ⟨time, job.key, op, job.client⟩

/-- `h` is what led to `job`: every deed, in order, by its signer and at its time. -/
def Story (job : Job) (h : List Deed) : Prop :=
  match job.state with
  | .created => h = [job.opened]
  | .accepted => h = [job.opened, job.acceptance]
  | .completed => h = [job.opened, job.acceptance, job.completion]
  | .released => ∃ t, h = [job.opened, job.acceptance, job.completion, job.byClient t .release]
  | .disputed => ∃ t, h = [job.opened, job.acceptance, job.completion, job.byClient t .dispute]
  | .refunded =>
      (∃ t, h = [job.opened, job.byClient t .cancel]) ∨
      (∃ t, job.acceptedAt + ACCEPT_TIMEOUT_SECONDS ≤ t ∧
        h = [job.opened, job.acceptance, job.byClient t .cancel]) ∨
      (∃ t caller, job.completedAt + DISPUTE_TIMEOUT_SECONDS ≤ job.resolvedAt ∧
        h = [job.opened, job.acceptance, job.completion, job.byClient t .dispute,
          ⟨job.resolvedAt, job.key, .resolve, caller⟩])

end Job

/-- The parts of a job that no deed changes. -/
structure SameDeal (job job' : Job) : Prop where
  client : job'.client = job.client
  agent : job'.agent = job.agent
  nonce : job'.nonce = job.nonce
  priceMicro : job'.priceMicro = job.priceMicro
  bump : job'.bump = job.bump

namespace SameDeal

variable {job job' job'' : Job}

theorem refl (job : Job) : SameDeal job job := ⟨rfl, rfl, rfl, rfl, rfl⟩

theorem trans (h : SameDeal job job') (h' : SameDeal job' job'') : SameDeal job job'' :=
  ⟨h'.client.trans h.client, h'.agent.trans h.agent, h'.nonce.trans h.nonce,
    h'.priceMicro.trans h.priceMicro, h'.bump.trans h.bump⟩

theorem key_eq (h : SameDeal job job') : job'.key = job.key := by
  rw [Job.key, Job.key, h.client, h.nonce]

end SameDeal

theorem Turn.same {job job' : Job} {now : ℤ} {op : Op} {signer : Pubkey}
    (h : Turn job now op signer (some job')) : SameDeal job job' := by
  cases h <;> exact ⟨rfl, rfl, rfl, rfl, rfl⟩

/-- **A deed** continues the story of its job. -/
theorem Job.Story.turn {job job' : Job} {h : List Deed} (hs : job.Story h) {now : ℤ} {op : Op}
    {signer : Pubkey} (ht : Turn job now op signer (some job')) :
    job'.Story (h ++ [⟨now, job.key, op, signer⟩]) := by
  cases ht with
  | accept e | complete e =>
      simp only [Job.Story, e] at hs
      subst hs
      rfl
  | release e | dispute e =>
      simp only [Job.Story, e] at hs
      subst hs
      exact ⟨now, rfl⟩
  | cancelCreated e =>
      simp only [Job.Story, e] at hs
      subst hs
      exact .inl ⟨now, rfl⟩
  | cancelAccepted e hle =>
      simp only [Job.Story, e] at hs
      subst hs
      exact .inr (.inl ⟨now, hle, rfl⟩)
  | resolve e hle =>
      simp only [Job.Story, e] at hs
      obtain ⟨t, rfl⟩ := hs
      exact .inr (.inr ⟨t, signer, hle, rfl⟩)

/-- What holds of the log and the state of a run with a clock. -/
structure StoryInv (env : EscrowEnv) (log : List (Option Deed)) (c : Clocked) : Prop where
  story : ∀ key job, c.escrow.job key = some job → job.Story (deeds job.key log)
  bump : ∀ key job, c.escrow.job key = some job →
    job.bump = env.bump (.job job.client job.nonce)
  price : ∀ key job, c.escrow.job key = some job → 0 < job.priceMicro
  known : ∀ d, some d ∈ log → d.job ∈ created (events log)
  sorted : (log.reduceOption.map Deed.time).Pairwise (· ≤ ·)
  time : ∀ d, some d ∈ log → -2 ^ 63 ≤ d.time ∧ d.time ≤ c.now

theorem StoryInv.start {c : Clocked} (h : Initial c.escrow) : StoryInv env [] c where
  story key job hjob := by
    rw [h key] at hjob
    cases hjob
  bump key job hjob := by
    rw [h key] at hjob
    cases hjob
  price key job hjob := by
    rw [h key] at hjob
    cases hjob
  known _ hd := by cases hd
  sorted := List.Pairwise.nil
  time _ hd := by cases hd

theorem events_snoc (log : List (Option Deed)) (a : Option Deed) :
    events (log ++ [a]) = events log ++ [(a.map Deed.event).getD .other] := by
  rw [events, List.map_append]
  rfl

/-- The clock of the log goes on. -/
theorem StoryInv.sorted_step {log : List (Option Deed)} {c c' : Clocked} {a : Option Deed}
    (hinv : StoryInv env log c) (ht : c.Ticks c'.now) (ha : ∀ d, a = some d → d.time = c'.now) :
    ((log ++ [a]).reduceOption.map Deed.time).Pairwise (· ≤ ·) ∧
      ∀ d, some d ∈ log ++ [a] → -2 ^ 63 ≤ d.time ∧ d.time ≤ c'.now := by
  have hold : ∀ d, some d ∈ log → -2 ^ 63 ≤ d.time ∧ d.time ≤ c'.now := fun d hd =>
    ⟨(hinv.time d hd).1, (hinv.time d hd).2.trans ht.le⟩
  cases a with
  | none =>
      refine ⟨?_, fun d hd => ?_⟩
      · rw [List.reduceOption_append, List.reduceOption_singleton]
        simpa using hinv.sorted
      · rcases List.mem_append.mp hd with hd | hd
        · exact hold d hd
        · cases List.mem_singleton.mp hd
  | some d₀ =>
      have htime := ha d₀ rfl
      refine ⟨?_, fun d hd => ?_⟩
      · rw [List.reduceOption_append, List.reduceOption_singleton, List.map_append]
        refine List.pairwise_append.mpr ⟨hinv.sorted, List.pairwise_singleton .., ?_⟩
        intro t ht' u hu
        obtain ⟨d, hd, rfl⟩ := List.mem_map.mp ht'
        obtain rfl : u = d₀.time := by simpa using hu
        rw [htime]
        exact (hold d (List.reduceOption_mem_iff.mp hd)).2
      · rcases List.mem_append.mp hd with hd | hd
        · exact hold d hd
        · obtain rfl := Option.some.inj (List.mem_singleton.mp hd)
          exact ⟨htime ▸ ht.lower, htime.le⟩

theorem Done.time {c : Clocked} {now : ℤ} {a : Option Deed} {jobs : Pubkey → Option Job}
    (h : Done env c now a jobs) {d : Deed} (hd : a = some d) : d.time = now := by
  cases h with
  | nothing => cases hd
  | create job _ htime => cases hd; exact htime
  | turn => cases hd; rfl

/-- A deed that writes the job account `key`. -/
theorem StoryInv.update {log : List (Option Deed)} {c c' : Clocked} {d : Deed}
    (hinv : StoryInv env log c) (hescrow : EscrowInv env (events log) c.escrow)
    (hstep : ClockedStep env c (some d) c') {key : Pubkey} {o : Option Job}
    (hkey : env.pda (.job d.job.1 d.job.2) = key)
    (hjobs : c'.escrow.job = Function.update c.escrow.job key o)
    (hknown : d.job ∈ created (events (log ++ [some d])))
    (hnew : ∀ job', o = some job' → job'.Story (deeds job'.key (log ++ [some d])) ∧
      job'.bump = env.bump (.job job'.client job'.nonce) ∧ 0 < job'.priceMicro) :
    StoryInv env (log ++ [some d]) c' := by
  obtain ⟨hsorted, htime⟩ := hinv.sorted_step hstep.ticks fun d hd => hstep.done.time hd
  -- the address comes from the client and the nonce
  have hother : ∀ key' other, c'.escrow.job key' = some other →
      o = some other ∨ c.escrow.job key' = some other ∧ d.job ≠ other.key := by
    intro key' other hother
    rw [hjobs] at hother
    by_cases ekey : key' = key
    · rw [ekey, Function.update_self] at hother
      exact .inl hother
    · rw [Function.update_of_ne ekey] at hother
      refine .inr ⟨hother, fun e => ekey ?_⟩
      rw [← hkey, e]
      exact (hescrow.jobs key' other hother).address.symm
  refine ⟨fun key' other h => ?_, fun key' other h => ?_, fun key' other h => ?_,
    fun d' hd => ?_, hsorted, htime⟩
  · rcases hother key' other h with e | ⟨h, hne⟩
    · exact (hnew other e).1
    · rw [deeds_snoc_other log hne]
      exact hinv.story key' other h
  · rcases hother key' other h with e | ⟨h, -⟩
    · exact (hnew other e).2.1
    · exact hinv.bump key' other h
  · rcases hother key' other h with e | ⟨h, -⟩
    · exact (hnew other e).2.2
    · exact hinv.price key' other h
  · rcases List.mem_append.mp hd with hd | hd
    · rw [events_snoc, created_snoc]
      exact List.mem_append_left _ (hinv.known d' hd)
    · obtain rfl := Option.some.inj (List.mem_singleton.mp hd)
      exact hknown

/-- A job whose vault does not exist has no story yet. -/
theorem StoryInv.fresh {log : List (Option Deed)} {c : Clocked} (hinv : StoryInv env log c)
    (hescrow : EscrowInv env (events log) c.escrow) {k : JobKey}
    (hvacant : c.escrow.ledger.account (env.vaultOf k) = none) : deeds k log = [] := by
  refine List.filter_eq_nil_iff.mpr fun d hd hkey => ?_
  obtain ⟨v, hv, -⟩ := hescrow.vaults _ (hinv.known d (List.reduceOption_mem_iff.mp hd))
  rw [of_decide_eq_true hkey, hvacant] at hv
  cases hv

/-- **Every step** keeps the invariant. -/
theorem StoryInv.step {log : List (Option Deed)} {c c' : Clocked} {a : Option Deed}
    (hinv : StoryInv env log c) (hescrow : EscrowInv env (events log) c.escrow)
    (hstep : ClockedStep env c a c') : StoryInv env (log ++ [a]) c' := by
  have hdone := hstep.done
  generalize hjobs : c'.escrow.job = jobs at hdone
  cases hdone with
  | nothing =>
      obtain ⟨hsorted, htime⟩ := hinv.sorted_step (a := none) hstep.ticks nofun
      refine ⟨fun key job hjob => ?_, hjobs ▸ hinv.bump, hjobs ▸ hinv.price, fun d hd => ?_,
        hsorted, htime⟩
      · rw [hjobs] at hjob
        rw [deeds_snoc_none]
        exact hinv.story key job hjob
      · rw [events_snoc, created_snoc]
        refine List.mem_append_left _ (hinv.known d ?_)
        simpa using hd
  | create job hstate htime hprice hbump hvacant hvault =>
      refine hinv.update hescrow hstep rfl hjobs ?_ ?_
      · rw [events_snoc, created_snoc]
        exact List.mem_append_right _ (by simp [Event.created?, Deed.event, Job.opened])
      · rintro _ ⟨⟩
        refine ⟨?_, hbump, hprice⟩
        rw [deeds_snoc_same log (k := job.key) rfl, hinv.fresh hescrow hvault, Job.Story, hstate]
        rfl
  | turn key job op signer o hjob hturn =>
      have hj := hescrow.jobs key job hjob
      refine hinv.update hescrow hstep hj.address hjobs ?_ ?_
      · rw [events_snoc, created_snoc]
        exact List.mem_append_left _ hj.known
      · rintro job' rfl
        have hsame := hturn.same
        refine ⟨?_, ?_, ?_⟩
        · rw [hsame.key_eq, deeds_snoc_same log (k := job.key) rfl]
          exact (hinv.story key job hjob).turn hturn
        · rw [hsame.bump, hsame.client, hsame.nonce]
          exact hinv.bump key job hjob
        · rw [hsame.priceMicro]
          exact hinv.price key job hjob

/-- **Every run** has the invariant. -/
theorem storyInv_of_run {log : List (Option Deed)} {c : Clocked} (h : ClockedRun env log c) :
    StoryInv env log c :=
  h.invariant (StoryInv env) (fun _ hc => .start hc) fun _ _ _ _ hrun hinv hstep =>
    hinv.step (escrowInv_of_run (escrowRun_of_clocked hrun)) hstep

end Qietr.Escrow
