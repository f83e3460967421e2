import Qietr.Escrow.Moves

/-!
# Escrow — a party that never signs again

Which jobs can still pay out their price when one key stays silent.

* `Quiet`: a step that a key does not sign; `Exit`: a run of such steps that ends in a payment to a
  party of the job.
* `Deal.exit_of_client`, `Deal.exit_of_disputed`: the ways out.
* `Waiting.no_exit`: a job that is not disputed waits for its client.
* `silence_iff`: the price is locked by the client's silence alone, and only before a dispute.
-/

namespace Qietr.Escrow

open Outcome Relation

variable {env : EscrowEnv}

/-! ### Silence -/

/-- A step that `p` does not sign: not as a call, and not to spend from its own accounts. -/
structure Quiet (env : EscrowEnv) (p : Pubkey) (c : Clocked) (a : Option Deed) (c' : Clocked) :
    Prop where
  step : ClockedStep env c a c'
  unsigned : ∀ d, a = some d → d.signer ≠ p
  keeps : a = none → c.escrow.ledger.KeepsOwnedBy (fun owner => owner = p) c'.escrow.ledger

/-- Time passes, and others act. -/
abbrev Continues (env : EscrowEnv) (p : Pubkey) : Clocked → Clocked → Prop :=
  ReflTransGen fun c c' => ∃ a, Quiet env p c a c'

/-- A continuation without `p` pays the price of the job `k` to its client or its agent. -/
def Exit (env : EscrowEnv) (p : Pubkey) (c : Clocked) (k : JobKey) : Prop :=
  ∃ c₁ a c₂, Continues env p c c₁ ∧ Quiet env p c₁ a c₂ ∧
    (PaidTo env c₁.escrow c₂.escrow k Job.client ∨ PaidTo env c₁.escrow c₂.escrow k Job.agent)

/-- Seven days before the clock runs out. -/
def Clocked.HasRoom (c : Clocked) : Prop :=
  c.now + 7 * 24 * 3600 < 2 ^ 63

/-! ### The ways out -/

namespace Deal

variable {log : List (Option Deed)} {c : Clocked} {key : Pubkey} {job : Job} {p : Pubkey}

theorem ticks_now (h : Deal env log c key job) (hroom : c.HasRoom) : c.Ticks c.now where
  le := le_refl _
  lower := h.lower
  upper := by
    unfold Clocked.HasRoom at hroom
    omega

/-- A settlement by another key than `p`, to a token account that a third party opens first. -/
theorem exit_of_settlement (h : Deal env log c key job) (hlive : job.state.settled = false)
    (third : ThirdParty env c p) (hroom : c.HasRoom) (party : Pubkey)
    (hpays : ∀ l, Receives l (env.vaultOf job.key) third.ata party →
      Deal env (log ++ [none]) ⟨c.now, { c.escrow with ledger := l }⟩ key job →
      ∃ d c₂, ClockedStep env ⟨c.now, { c.escrow with ledger := l }⟩ (some d) c₂ ∧
        d.signer ≠ p ∧ (PaidTo env { c.escrow with ledger := l } c₂.escrow job.key Job.client ∨
          PaidTo env { c.escrow with ledger := l } c₂.escrow job.key Job.agent)) :
    Exit env p c job.key := by
  obtain ⟨l, hopen, hkeeps, hr, hdeal⟩ :=
    h.openAccount hlive third.vacant (h.ticks_now hroom) party
  obtain ⟨d, c₂, hstep, hne, hpaid⟩ := hpays l hr hdeal
  have hquiet : Quiet env p c none ⟨c.now, { c.escrow with ledger := l }⟩ :=
    ⟨hopen, nofun, fun _ => hkeeps _⟩
  refine ⟨_, some d, c₂, .single ⟨none, hquiet⟩, ⟨hstep, ?_, nofun⟩, hpaid⟩
  rintro _ ⟨⟩
  exact hne

/-- Anyone resolves a dispute, when it is time. -/
theorem exit_of_disputed (h : Deal env log c key job) (hstate : job.state = .disputed)
    (third : ThirdParty env c p) (hroom : c.HasRoom) : Exit env p c job.key := by
  refine h.exit_of_settlement (by rw [hstate]; rfl) third hroom job.client fun l hr hdeal => ?_
  have htime := h.completed_time (.inr hstate)
  have hdelay : DISPUTE_TIMEOUT_SECONDS = 7 * 24 * 3600 := rfl
  unfold Clocked.HasRoom at hroom
  obtain ⟨s', hstep, -, hpaid⟩ := hdeal.resolve hstate
    ⟨le_max_left c.now (job.completedAt + DISPUTE_TIMEOUT_SECONDS),
      h.lower.trans (le_max_left _ _), max_lt (by omega) (by omega)⟩ (le_max_right _ _) hr
    third.signer
  exact ⟨_, _, hstep, third.ne, .inl hpaid⟩

/-- The client settles a job of any state. -/
theorem exit_of_client (h : Deal env log c key job) (hlive : job.state.settled = false)
    (hp : p ≠ job.client) (third : ThirdParty env c p) (hroom : c.HasRoom) :
    Exit env p c job.key := by
  let client : EscrowSigner env := ⟨job.client, h.held.client⟩
  have hnow := h.ticks_now hroom
  cases e : job.state with
  | created =>
      refine h.exit_of_settlement hlive third hroom job.client fun l hr hdeal => ?_
      obtain ⟨s', hstep, -, hpaid⟩ := hdeal.cancel ⟨le_refl c.now, hnow.lower, hnow.upper⟩ (.inl e)
        hr client rfl
      exact ⟨_, _, hstep, hp.symm, .inl hpaid⟩
  | accepted =>
      refine h.exit_of_settlement hlive third hroom job.client fun l hr hdeal => ?_
      have htime := h.accepted_time e
      have hdelay : ACCEPT_TIMEOUT_SECONDS = 7 * 24 * 3600 := rfl
      unfold Clocked.HasRoom at hroom
      obtain ⟨s', hstep, -, hpaid⟩ := hdeal.cancel
        ⟨le_max_left c.now (job.acceptedAt + ACCEPT_TIMEOUT_SECONDS),
          h.lower.trans (le_max_left _ _), max_lt (by omega) (by omega)⟩
        (.inr ⟨e, le_max_right _ _⟩) hr client rfl
      exact ⟨_, _, hstep, hp.symm, .inl hpaid⟩
  | completed =>
      refine h.exit_of_settlement hlive third hroom job.agent fun l hr hdeal => ?_
      obtain ⟨s', hstep, -, hpaid⟩ := hdeal.release e hr client rfl
        ⟨le_refl c.now, hnow.lower, hnow.upper⟩
      exact ⟨_, _, hstep, hp.symm, .inr hpaid⟩
  | disputed => exact h.exit_of_disputed e third hroom
  | released | refunded =>
      rw [e] at hlive
      cases hlive

end Deal

/-! ### Waiting for the client -/

/-- The next move that pays is the client's. -/
def JobState.awaitsClient : JobState → Bool
  | .created | .accepted | .completed => true
  | _ => false

theorem JobState.settled_of_awaitsClient {state : JobState} (h : state.awaitsClient = true) :
    state.settled = false := by
  cases state with
  | created | accepted | completed => rfl
  | disputed | released | refunded => cases h

/-- The job of `k` has come to no dispute yet. -/
def Waiting (env : EscrowEnv) (k : JobKey) (c : Clocked) : Prop :=
  ∃ log key job, Deal env log c key job ∧ job.key = k ∧ job.state.awaitsClient = true

/-- Without its client the job goes on waiting, and the price stays. -/
theorem Waiting.quiet {k : JobKey} {c c' : Clocked} {a : Option Deed} (h : Waiting env k c)
    (hq : Quiet env k.1 c a c') :
    Waiting env k c' ∧ ((a.map Deed.event).getD .other).settled? ≠ some k := by
  obtain ⟨log, key, job, hdeal, rfl, hstate⟩ := h
  have hrun' := hdeal.run.snoc hq.step
  rcases hdeal.done hq.step with ⟨hsame, hother⟩ | ⟨op, signer, rfl, hturn⟩
  · refine ⟨⟨_, key, job, ⟨hrun', hsame⟩, rfl, hstate⟩, fun hsettled => ?_⟩
    cases a with
    | none => cases hsettled
    | some d =>
        have hne := hother d rfl
        rw [Option.map_some, Option.getD_some, Deed.event] at hsettled
        cases e : d.op with
        | release | cancel | resolve =>
            rw [e] at hsettled
            exact hne (Option.some.inj hsettled)
        | create | accept | complete | dispute | close =>
            rw [e] at hsettled
            cases hsettled
  · have hunsigned := hq.unsigned _ rfl
    generalize hjob' : c'.escrow.job key = o at hturn
    cases hturn with
    | accept | complete =>
        refine ⟨⟨_, key, _, ⟨hrun', hjob'⟩, rfl, rfl⟩, fun hsettled => ?_⟩
        cases hsettled
    | release | dispute | cancelCreated | cancelAccepted => exact absurd rfl hunsigned
    | resolve e =>
        rw [e] at hstate
        cases hstate
    | close e =>
        rw [JobState.settled_of_awaitsClient hstate] at e
        cases e

theorem Waiting.continues {k : JobKey} {c c' : Clocked} (h : Waiting env k c)
    (hcont : Continues env k.1 c c') : Waiting env k c' := by
  induction hcont with
  | refl => exact h
  | tail _ hq ih =>
      obtain ⟨a, hq⟩ := hq
      exact (ih.quiet hq).1

/-- A payment takes the price from the vault. -/
theorem PaidTo.balance_lt {log : List (Option Deed)} {c c' : Clocked} {k : JobKey}
    {party : Job → Pubkey} (hinv : StoryInv env log c)
    (h : PaidTo env c.escrow c'.escrow k party) :
    c'.escrow.ledger.balance (env.vaultOf k) < c.escrow.ledger.balance (env.vaultOf k) := by
  obtain ⟨key, job, ata, v, b, hjob, -, -, -, hne, -, -, hmoved⟩ := h
  have hsource := hmoved.source hne.symm
  have hprice : 0 < job.priceMicro.toNat := hinv.price key job hjob
  omega

/-- **No way out** without the client. -/
theorem Waiting.no_exit {k : JobKey} {c : Clocked} (h : Waiting env k c) :
    ¬ Exit env k.1 c k := by
  rintro ⟨c₁, a, c₂, hcont, hq, hpaid⟩
  have hwait := h.continues hcont
  obtain ⟨log, key, job, hdeal, hkey, -⟩ := id hwait
  have hle := hdeal.escrow.balance_le hq.step.step.effect (hkey ▸ hdeal.held.known)
    (hwait.quiet hq).2
  rcases hpaid with hpaid | hpaid
  · exact (hpaid.balance_lt hdeal.inv).not_ge hle
  · exact (hpaid.balance_lt hdeal.inv).not_ge hle

/-! ### Whose silence locks the price -/

/-- **The client's silence alone** locks the price of a job, and only before it is disputed.  While
the clock is seven days from its end and somebody else can open a token account, the price of an
unsettled job can be paid out to a party of the job without `p` exactly when `p` is not the client
or the job is disputed. -/
theorem silence_iff {log : List (Option Deed)} {c : Clocked} (hrun : ClockedRun env log c)
    {key : Pubkey} {job : Job} (hjob : c.escrow.job key = some job)
    (hlive : job.state.settled = false) (hroom : c.HasRoom) (p : Pubkey)
    (third : ThirdParty env c p) :
    Exit env p c job.key ↔ p ≠ job.client ∨ job.state = .disputed := by
  have hdeal : Deal env log c key job := ⟨hrun, hjob⟩
  refine ⟨fun hexit => ?_, ?_⟩
  · by_contra hnot
    obtain ⟨hclient, hstate⟩ := not_or.mp hnot
    have hwait : Waiting env job.key c := by
      refine ⟨log, key, job, hdeal, rfl, ?_⟩
      cases e : job.state with
      | created | accepted | completed => rfl
      | disputed => exact absurd e hstate
      | released | refunded =>
          rw [e] at hlive
          cases hlive
    rw [not_ne_iff.mp hclient] at hexit
    exact hwait.no_exit hexit
  · rintro (hp | hstate)
    · exact hdeal.exit_of_client hlive hp third hroom
    · exact hdeal.exit_of_disputed hstate third hroom

theorem silence_iff_agent : ∃ (c : Clocked) (job : Job),
    job.agent = sampleAgent.key ∧ Exit sample sampleAgent.key c job.key := by
  obtain ⟨c, key, job, hdeal, hstate, hkey, hagent, -, hnow, hvacant⟩ := sample_completed
  have hclient : sampleClient.key = job.client := congrArg Prod.fst hkey.symm
  have hne : sampleAgent.key ≠ job.client := by
    rw [← hclient]
    exact Pool.key_ne (by norm_num) (by norm_num) (by norm_num)
  have hroom : c.HasRoom := by
    rw [Clocked.HasRoom, hnow]
    norm_num
  refine ⟨c, job, hagent, (silence_iff hdeal.run hdeal.job_eq (by rw [hstate]; rfl) hroom
    sampleAgent.key ⟨sampleOther, ?_, Pool.key 7, ?_, hvacant⟩).mpr (.inl hne)⟩
  · exact Pool.key_ne (by norm_num) (by norm_num) (by norm_num)
  · exact sample_underived (by norm_num)

/-- A client who does not answer leaves a completed job, and its agent, without a way out. -/
theorem silence_iff_client : ∃ (c : Clocked) (key : Pubkey) (job : Job),
    ClockedRun sample sampleLog c ∧ c.escrow.job key = some job ∧ job.state = .completed ∧
      c.HasRoom ∧ Nonempty (ThirdParty sample c job.client) ∧
      ¬ Exit sample job.client c job.key := by
  obtain ⟨c, key, job, hdeal, hstate, hkey, -, -, hnow, hvacant⟩ := sample_completed
  have hclient : sampleClient.key = job.client := congrArg Prod.fst hkey.symm
  refine ⟨c, key, job, hdeal.run, hdeal.job_eq, hstate, ?_,
    ⟨sampleOther, ?_, Pool.key 7, ?_, hvacant⟩,
    Waiting.no_exit ⟨_, key, job, hdeal, rfl, by rw [hstate]; rfl⟩⟩
  · rw [Clocked.HasRoom, hnow]
    norm_num
  · rw [← hclient]
    exact Pool.key_ne (by norm_num) (by norm_num) (by norm_num)
  · exact sample_underived (by norm_num)

end Qietr.Escrow
