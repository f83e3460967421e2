import Qietr.Escrow.Moves

/-!
# Escrow — who, in which order, and when

* `escrow_authorisation_timing`: a job is released or refunded only along its story, and nothing but
  closing is done to it then.
* `dispute_window`: the agent has seven days from a dispute where the dispute is made at the time of
  the completion, since the seven days of `resolve_dispute` run from there.
* `Deal.window_iff`: and only there.
-/

namespace Qietr.Escrow

open Outcome

variable {env : EscrowEnv}

/-! ### Authorisation -/

/-- **Authorisation and timing.**  In every run the deeds are in the order of their times, and each
job's state tells which deeds led to it, by whom and how long apart.  A step never changes what the
parties agreed on.  It releases a job only as the client's release of a completed one; it refunds
one only as the client's cancellation before the acceptance, or seven days after it and before a
completion, or as anybody's resolution of a dispute seven days after the completion; and nothing but
closing is done to a job that is released or refunded. -/
theorem escrow_authorisation_timing {log : List (Option Deed)} {c : Clocked}
    (hrun : ClockedRun env log c) :
    (log.reduceOption.map Deed.time).Pairwise (· ≤ ·) ∧
    (∀ key job, c.escrow.job key = some job → job.Story (deeds job.key log)) ∧
    ∀ a c', ClockedStep env c a c' → ∀ key job, c.escrow.job key = some job →
      (∀ job', c'.escrow.job key = some job' → SameDeal job job' ∧
        (job'.state = .released → job.state ≠ .released →
          job.state = .completed ∧ a = some (job.byClient c'.now .release)) ∧
        (job'.state = .refunded → job.state ≠ .refunded →
          (job.state = .created ∧ a = some (job.byClient c'.now .cancel)) ∨
          (job.state = .accepted ∧ job.acceptedAt + ACCEPT_TIMEOUT_SECONDS ≤ c'.now ∧
            a = some (job.byClient c'.now .cancel)) ∨
          (job.state = .disputed ∧ job.completedAt + DISPUTE_TIMEOUT_SECONDS ≤ c'.now ∧
            ∃ caller, a = some ⟨c'.now, job.key, .resolve, caller⟩))) ∧
      (job.state.settled = true → ∀ d, a = some d → d.job = job.key → d.op = .close) := by
  have hinv := storyInv_of_run hrun
  refine ⟨hinv.sorted, hinv.story, fun a c' hstep key job hjob => ?_⟩
  have hdeal : Deal env log c key job := ⟨hrun, hjob⟩
  rcases hdeal.done hstep with ⟨hsame, hother⟩ | ⟨op, signer, rfl, hturn⟩
  · refine ⟨fun job' hjob' => ?_, fun _ d hd e => absurd e (hother d hd)⟩
    obtain rfl := Option.some.inj (hsame.symm.trans hjob')
    exact ⟨.refl _, fun e hne => absurd e hne, fun e hne => absurd e hne⟩
  · generalize c'.escrow.job key = o at hturn
    refine ⟨?_, ?_⟩
    · rintro job' rfl
      refine ⟨hturn.same, ?_, ?_⟩
      · intro hreleased _
        cases hturn with
        | release hstate => exact ⟨hstate, rfl⟩
        | accept | complete | dispute | cancelCreated | cancelAccepted | resolve => cases hreleased
      · intro hrefunded _
        cases hturn with
        | cancelCreated hstate => exact .inl ⟨hstate, rfl⟩
        | cancelAccepted hstate hle => exact .inr (.inl ⟨hstate, hle, rfl⟩)
        | resolve hstate hle caller => exact .inr (.inr ⟨hstate, hle, _, rfl⟩)
        | accept | complete | dispute | release => cases hrefunded
    · rintro hsettled _ ⟨⟩ -
      cases hturn with
      | close => rfl
      | accept hstate | complete hstate | release hstate | dispute hstate | cancelCreated hstate
      | cancelAccepted hstate | resolve hstate =>
          rw [hstate] at hsettled
          cases hsettled

/-- A job that is created, accepted, completed and disputed, and refunded seven days later. -/
theorem escrow_authorisation_timing_refunded : ∃ (log : List (Option Deed)) (c : Clocked)
    (key : Pubkey) (job : Job), ClockedRun sample log c ∧ c.escrow.job key = some job ∧
      job.state = .refunded ∧ job.Story (deeds sampleKey log) ∧
      some ⟨DISPUTE_TIMEOUT_SECONDS, sampleKey, .resolve, sampleOther.key⟩ ∈ log ∧
      ∀ d c', ClockedStep sample c (some d) c' → d.job = sampleKey → d.op = .close := by
  obtain ⟨c, key, job, hdeal, hstate, hkey, -, hcompleted, hnow, hvacant⟩ := sample_completed
  have hclient : sampleClient.key = job.client := congrArg Prod.fst hkey.symm
  obtain ⟨c', hrefunded⟩ := hdeal.dispute_resolve hstate sampleClient hclient 0
    ⟨hnow.le, by norm_num, by norm_num⟩ (by rw [hcompleted]; decide) hvacant sampleOther
  obtain ⟨-, hstory, hnext⟩ := escrow_authorisation_timing hrefunded.run
  refine ⟨_, c', key, _, hrefunded.run, hrefunded.job_eq, rfl, hkey ▸ hstory key _ hrefunded.job_eq,
    ?_, fun d c'' hstep hjob => ?_⟩
  · rw [hcompleted, hkey]
    exact List.mem_append_right _ (List.mem_singleton_self _)
  · exact (hnext _ c'' hstep key _ hrefunded.job_eq).2 rfl d rfl (hjob.trans hkey.symm)

/-! ### The window of a dispute -/

/-- Each dispute of a log is made at the time of the completion before it. -/
def PromptDisputes (log : List (Option Deed)) : Prop :=
  ∀ before after d, log = before ++ some d :: after → d.op = .dispute →
    ∃ d₀, some d₀ ∈ before ∧ d₀.job = d.job ∧ d₀.op = .complete ∧ d₀.time = d.time

/-- A resolution comes no sooner than seven days after each dispute of its job before it. -/
def WindowKept (log : List (Option Deed)) : Prop :=
  ∀ before between after d d', log = before ++ some d :: between ++ some d' :: after →
    d.op = .dispute → d'.op = .resolve → d'.job = d.job →
    d.time + DISPUTE_TIMEOUT_SECONDS ≤ d'.time

/-- A resolution ends the story of a disputed job. -/
theorem resolved_story {log : List (Option Deed)} {c c' : Clocked} {d : Deed}
    (hrun : ClockedRun env log c) (hstep : ClockedStep env c (some d) c') (hop : d.op = .resolve) :
    ∃ job : Job, job.key = d.job ∧ job.completedAt + DISPUTE_TIMEOUT_SECONDS ≤ d.time ∧
      ∃ t, deeds d.job log =
        [job.opened, job.acceptance, job.completion, job.byClient t .dispute] := by
  have hdone := hstep.done
  generalize c'.escrow.job = jobs at hdone
  cases hdone with
  | create => cases hop
  | turn key job op signer o hjob hturn =>
      cases hturn with
      | resolve hstate hle =>
          have hstory := (storyInv_of_run hrun).story key job hjob
          rw [Job.Story, hstate] at hstory
          exact ⟨job, rfl, hle, hstory⟩
      | accept | complete | release | dispute | cancelCreated | cancelAccepted | close => cases hop

/-- **A dispute at the time of the completion** opens a window of seven days: in every run whose
disputes are all such, no job is resolved sooner than seven days after its dispute. -/
theorem dispute_window {log : List (Option Deed)} {c : Clocked} (hrun : ClockedRun env log c)
    (hprompt : PromptDisputes log) : WindowKept log := by
  intro before between after d d' hlog hop hop' hjob
  rw [hlog] at hrun
  obtain ⟨c₁, c₂, hrun₁, hstep⟩ := hrun.step_of_log
  obtain ⟨job, hkey, hle, t, hdeeds⟩ := resolved_story hrun₁ hstep hop'
  obtain ⟨d₀, hmem, hjob₀, hop₀, htime⟩ := hprompt before (between ++ some d' :: after) d
    (by rw [hlog]; simp) hop
  -- the completion is in the story, and the story has only one
  have hmem₀ : d₀ ∈ deeds d'.job (before ++ some d :: between) :=
    List.mem_filter.mpr ⟨List.reduceOption_mem_iff.mpr (List.mem_append_left _ hmem),
      decide_eq_true (hjob₀.trans hjob.symm)⟩
  rw [hdeeds] at hmem₀
  have hcompleted : d₀ = job.completion := by
    simp only [List.mem_cons, List.not_mem_nil, or_false] at hmem₀
    rcases hmem₀ with rfl | rfl | rfl | rfl
    · cases hop₀
    · cases hop₀
    · rfl
    · cases hop₀
  rw [← htime, hcompleted]
  exact hle

theorem dispute_window_prompt : ∃ (log : List (Option Deed)) (c : Clocked),
    ClockedRun sample log c ∧ (∃ d, some d ∈ log ∧ d.op = .resolve) ∧ PromptDisputes log ∧
      WindowKept log := by
  obtain ⟨c, key, job, hdeal, hstate, hkey, -, hcompleted, hnow, hvacant⟩ := sample_completed
  have hclient : sampleClient.key = job.client := congrArg Prod.fst hkey.symm
  obtain ⟨c', ⟨hrun, -⟩⟩ := hdeal.dispute_resolve hstate sampleClient hclient 0
    ⟨hnow.le, by norm_num, by norm_num⟩ (by rw [hcompleted]; decide) hvacant sampleOther
  have hprompt : PromptDisputes (sampleLog ++ some ⟨0, job.key, .dispute, sampleClient.key⟩ ::
      [none] ++ [some ⟨max 0 (job.completedAt + DISPUTE_TIMEOUT_SECONDS), job.key, .resolve,
        sampleOther.key⟩]) := by
    intro before after d hlog hop
    simp only [sampleLog, List.cons_append, List.nil_append] at hlog
    -- the first three deeds are no disputes
    rcases before with _ | ⟨a₁, _ | ⟨a₂, _ | ⟨a₃, before⟩⟩⟩
    · rw [List.nil_append, List.cons.injEq, Option.some.injEq] at hlog
      rw [← hlog.1] at hop
      cases hop
    · simp only [List.cons_append, List.nil_append, List.cons.injEq, Option.some.injEq] at hlog
      rw [← hlog.2.1] at hop
      cases hop
    · simp only [List.cons_append, List.nil_append, List.cons.injEq, Option.some.injEq] at hlog
      rw [← hlog.2.2.1] at hop
      cases hop
    · simp only [List.cons_append, List.cons.injEq] at hlog
      obtain ⟨-, -, rfl, hrest⟩ := hlog
      have hmem : some d ∈ before ++ some d :: after :=
        List.mem_append_right _ List.mem_cons_self
      rw [← hrest] at hmem
      simp only [List.mem_cons, Option.some.injEq, reduceCtorEq, List.not_mem_nil, or_false,
        false_or] at hmem
      rcases hmem with rfl | rfl
      · exact ⟨_, List.mem_cons_of_mem _ (List.mem_cons_of_mem _ List.mem_cons_self), hkey.symm,
          rfl, rfl⟩
      · cases hop
  exact ⟨_, c', hrun, ⟨_, List.mem_append_right _ List.mem_cons_self, rfl⟩, hprompt,
    dispute_window hrun hprompt⟩

/-- A dispute seven days after the completion is resolved at once. -/
theorem dispute_window_late : ∃ (log : List (Option Deed)) (c : Clocked),
    ClockedRun sample log c ∧ ¬ WindowKept log := by
  obtain ⟨c, key, job, hdeal, hstate, hkey, -, hcompleted, hnow, hvacant⟩ := sample_completed
  have hclient : sampleClient.key = job.client := congrArg Prod.fst hkey.symm
  obtain ⟨c', ⟨hrun, -⟩⟩ := hdeal.dispute_resolve hstate sampleClient hclient
    DISPUTE_TIMEOUT_SECONDS ⟨by rw [hnow]; decide, by decide, by decide⟩
    (by rw [hcompleted]; decide) hvacant sampleOther
  refine ⟨_, c', hrun, fun hkept => ?_⟩
  have hle := hkept sampleLog [none] [] _ _ rfl rfl rfl rfl
  have hlt : max DISPUTE_TIMEOUT_SECONDS (0 + DISPUTE_TIMEOUT_SECONDS) <
      DISPUTE_TIMEOUT_SECONDS + DISPUTE_TIMEOUT_SECONDS := by decide
  rw [hcompleted] at hle
  exact absurd hle hlt.not_ge

/-- **And only there.**  The agent of a job that is disputed at `now` has seven days whatever
happens next exactly when the job was completed at `now`. -/
theorem Deal.window_iff {log : List (Option Deed)} {c : Clocked} {key : Pubkey} {job : Job}
    (h : Deal env log c key job) (hstate : job.state = .completed) (client : EscrowSigner env)
    (hclient : client.key = job.client) {now : ℤ} (ht : c.Ticks now)
    (hroom : now + DISPUTE_TIMEOUT_SECONDS < 2 ^ 63) {ata : Pubkey}
    (hvacant : c.escrow.ledger.account ata = none) :
    (∀ between t caller c', ClockedRun env (log ++
        some ⟨now, job.key, .dispute, client.key⟩ :: between ++
        [some ⟨t, job.key, .resolve, caller⟩]) c' → now + DISPUTE_TIMEOUT_SECONDS ≤ t) ↔
      job.completedAt = now := by
  have hle : job.completedAt ≤ now := (h.completed_time (.inl hstate)).2.trans ht.le
  refine ⟨fun hall => ?_, ?_⟩
  · obtain ⟨c', ⟨hrun, -⟩⟩ := h.dispute_resolve hstate client hclient now ht (by omega) hvacant
      client
    have hmax := hall _ _ _ c' hrun
    have hdelay : 0 < DISPUTE_TIMEOUT_SECONDS := by decide
    rcases le_max_iff.mp hmax with hmax | hmax
    · omega
    · omega
  · rintro hnow between t caller c' hrun
    obtain ⟨c₁, hrun₁, hstep⟩ := hrun.last
    obtain ⟨job', hkey, hwait, t', hdeeds⟩ := resolved_story hrun₁ hstep rfl
    -- the story goes on from the one before the dispute, with the same completion
    have hstory := h.inv.story key job h.job_eq
    rw [Job.Story, hstate] at hstory
    have hprefix : deeds job.key log <+: deeds job.key
        (log ++ some ⟨now, job.key, .dispute, client.key⟩ :: between) := by
      rw [deeds, deeds, List.reduceOption_append, List.filter_append]
      exact List.prefix_append _ _
    rw [hstory, hdeeds] at hprefix
    have hcompletion : job.completion = job'.completion := by
      obtain ⟨rest, hrest⟩ := hprefix
      simp only [List.cons_append, List.nil_append, List.cons.injEq] at hrest
      exact hrest.2.2.1
    rw [← hnow, show job.completedAt = job'.completedAt from congrArg Deed.time hcompletion]
    exact hwait

end Qietr.Escrow
