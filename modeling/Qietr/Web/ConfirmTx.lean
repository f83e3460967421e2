import Qietr.Library.Runs

/-!
# Web — sending a transaction until it is confirmed

`confirm-tx.ts`: a transaction is sent again and again while a node is asked for its status and for
the height of the chain, which both go on in the meantime.

* `TxStatus`, `Answers`: the history of a transaction, and what a node answers of it.
* `isOnChain`: what is made of an answer.
* `Sending`, `SendStep`, `SendRun`: the loop, one call after the other, with the chain between them.
* `Sound`: what a run has come to is true; `sound_of_run`.
* `Past`: the last check is made past the height; `past_of_run`.
* `Truthful`: and it is expired only if it was not there at the last check; `truthful_iff`.
* `failed_reported_expired`, `processed_reported_expired`: two runs that are not.
-/

namespace Qietr.Web

/-! ### Transactions -/

inductive ConfirmationStatus where
  | processed
  | confirmed
  | finalized
  deriving DecidableEq

/-- How far a transaction has come; what it has failed with is a text. -/
inductive TxStatus where
  | absent
  | processed
  | confirmed
  | finalized
  | failed (err : String)
  deriving DecidableEq

namespace TxStatus

/-- One status may be followed by another. -/
inductive Before : TxStatus → TxStatus → Prop
  | absent (status : TxStatus) : Before absent status
  | processed {status : TxStatus} (h : status ≠ absent) : Before processed status
  | confirmed : Before confirmed confirmed
  | confirmed_finalized : Before confirmed finalized
  | finalized : Before finalized finalized
  | failed (err : String) : Before (failed err) (failed err)

/-- It has been confirmed, without an error. -/
def Landed (status : TxStatus) : Prop :=
  status = confirmed ∨ status = finalized

def Failed (status : TxStatus) : Prop :=
  ∃ err, status = failed err

variable {status status' : TxStatus}

theorem Landed.before (h : Landed status) (hb : Before status status') : Landed status' := by
  rcases h with rfl | rfl
  · cases hb with
    | confirmed => exact .inl rfl
    | confirmed_finalized => exact .inr rfl
  · cases hb
    exact .inr rfl

theorem Failed.before (h : Failed status) (hb : Before status status') : Failed status' := by
  obtain ⟨err, rfl⟩ := h
  cases hb
  exact ⟨err, rfl⟩

/-- What a check takes a transaction for that has not come so far, or has failed. -/
theorem landed_or_absent_iff :
    Landed status ∨ status = absent ↔ ¬ Failed status ∧ status ≠ processed := by
  cases status with
  | absent | processed | confirmed | finalized | failed => simp [Landed, Failed]

end TxStatus

/-- An entry of `getSignatureStatuses`. -/
structure SignatureStatus where
  err : Option String
  confirmationStatus : Option ConfirmationStatus
  deriving DecidableEq

/-- What a node answers of a transaction.  One that has failed may have been confirmed or not. -/
inductive Answers : TxStatus → Option SignatureStatus → Prop
  | absent : Answers .absent none
  | processed : Answers .processed (some ⟨none, some .processed⟩)
  | confirmed : Answers .confirmed (some ⟨none, some .confirmed⟩)
  | finalized : Answers .finalized (some ⟨none, some .finalized⟩)
  | failed (err : String) (level : Option ConfirmationStatus) :
      Answers (.failed err) (some ⟨some err, level⟩)

inductive OnChain where
  | confirmed
  | failed
  | pending
  deriving DecidableEq

def isOnChain : Option SignatureStatus → OnChain
  | none => .pending
  | some status =>
      if status.err.isSome then .failed
      else if status.confirmationStatus = some .confirmed ∨
          status.confirmationStatus = some .finalized then .confirmed
      else .pending

theorem isOnChain_confirmed {status : TxStatus} {answer : Option SignatureStatus}
    (h : Answers status answer) : isOnChain answer = .confirmed ↔ status.Landed := by
  have hfailed : OnChain.failed ≠ .confirmed := by decide
  have hpending : OnChain.pending ≠ .confirmed := by decide
  cases h with
  | absent | processed => exact iff_of_false hpending (by rintro (h | h) <;> cases h)
  | failed err level => exact iff_of_false hfailed (by rintro (h | h) <;> cases h)
  | confirmed => exact iff_of_true rfl (.inl rfl)
  | finalized => exact iff_of_true rfl (.inr rfl)

theorem isOnChain_failed {status : TxStatus} {answer : Option SignatureStatus}
    (h : Answers status answer) (hf : isOnChain answer = .failed) : status.Failed := by
  cases h with
  | absent | processed | confirmed | finalized => exact absurd hf (by decide)
  | failed err level => exact ⟨err, rfl⟩

/-! ### The loop -/

/-- What `sendAndConfirm` comes to: it returns, or throws one of its two errors, or what a call has
thrown. -/
inductive Outcome where
  | confirmed
  | txFailed (err : Option String)
  | txExpired
  | rpcError
  deriving DecidableEq

/-- What is waited for. -/
inductive Phase where
  | send
  | check
  | readError
  | blockHeight
  | lastCheck
  | rebroadcast
  | sleep
  | settled (outcome : Outcome)
  deriving DecidableEq

/-- The call, and the chain. -/
structure Sending where
  phase : Phase
  status : TxStatus
  height : ℕ
  deriving DecidableEq

inductive SendEvent where
  /-- The chain, or any call but the last check. -/
  | went
  /-- The last check, with the status and the height at that moment. -/
  | lastChecked (status : TxStatus) (height : ℕ)
  deriving DecidableEq

/-- After the check that each round begins with. -/
def afterCheck : OnChain → Phase
  | .confirmed => .settled .confirmed
  | .failed => .readError
  | .pending => .blockHeight

/-- After the last check. -/
def afterLastCheck (onChain : OnChain) : Phase :=
  if onChain = .confirmed then .settled .confirmed else .settled .txExpired

/-- The calls that the loop does not catch. -/
def Phase.Throws : Phase → Prop
  | .send | .check | .readError | .blockHeight | .lastCheck => True
  | .rebroadcast | .sleep | .settled _ => False

/-- **One step**: the chain goes on, or what is waited for has come. -/
inductive SendStep (lastValidBlockHeight : ℕ) : Sending → SendEvent → Sending → Prop
  | chain {s : Sending} {status : TxStatus} {height : ℕ} (hs : s.status.Before status)
      (hh : s.height ≤ height) : SendStep lastValidBlockHeight s .went { s with status, height }
  | throws {s : Sending} (hp : s.phase.Throws) :
      SendStep lastValidBlockHeight s .went { s with phase := .settled .rpcError }
  | sent {s : Sending} (hp : s.phase = .send) :
      SendStep lastValidBlockHeight s .went { s with phase := .check }
  | checked {s : Sending} {answer : Option SignatureStatus} (hp : s.phase = .check)
      (ha : Answers s.status answer) :
      SendStep lastValidBlockHeight s .went { s with phase := afterCheck (isOnChain answer) }
  /-- The history is not searched here: there may be no entry. -/
  | readError {s : Sending} {answer : Option SignatureStatus} (hp : s.phase = .readError)
      (ha : Answers s.status answer ∨ answer = none) :
      SendStep lastValidBlockHeight s .went
        { s with phase := .settled (.txFailed (answer.bind SignatureStatus.err)) }
  | measured {s : Sending} (hp : s.phase = .blockHeight) :
      SendStep lastValidBlockHeight s .went
        { s with phase := if lastValidBlockHeight < s.height then .lastCheck else .rebroadcast }
  | lastChecked {s : Sending} {answer : Option SignatureStatus} (hp : s.phase = .lastCheck)
      (ha : Answers s.status answer) :
      SendStep lastValidBlockHeight s (.lastChecked s.status s.height)
        { s with phase := afterLastCheck (isOnChain answer) }
  /-- Whether this fails or not. -/
  | rebroadcast {s : Sending} (hp : s.phase = .rebroadcast) :
      SendStep lastValidBlockHeight s .went { s with phase := .sleep }
  | woke {s : Sending} (hp : s.phase = .sleep) :
      SendStep lastValidBlockHeight s .went { s with phase := .check }

/-- **The runs**, from the first send on, with the chain anywhere. -/
def SendRun (lastValidBlockHeight : ℕ) : List SendEvent → Sending → Prop :=
  Run (fun s => s.phase = .send) (SendStep lastValidBlockHeight)

/-! ### What is true of every run -/

/-- Something is still waited for. -/
def Phase.Open : Phase → Prop
  | .settled _ => False
  | _ => True

/-- What a phase means for the transaction. -/
def Phase.Means (status : TxStatus) : Phase → Prop
  | .settled .confirmed => status.Landed
  | .readError | .settled (.txFailed _) => status.Failed
  | _ => True

/-- What has been come to, and what the last check has seen, which there is one of at most. -/
structure Sound (log : List SendEvent) (s : Sending) : Prop where
  means : s.phase.Means s.status
  checked : ∀ status height, SendEvent.lastChecked status height ∈ log →
    status.Landed ∧ s.phase = .settled .confirmed ∨ ¬ status.Landed ∧ s.phase = .settled .txExpired
  expired : s.phase = .settled .txExpired →
    ∃ status height, SendEvent.lastChecked status height ∈ log
  once : ∀ status status' height height', SendEvent.lastChecked status height ∈ log →
    SendEvent.lastChecked status' height' ∈ log → status = status'

/-- The last check is made once the chain is past the height. -/
structure Past (lastValidBlockHeight : ℕ) (log : List SendEvent) (s : Sending) : Prop where
  checks : s.phase = .lastCheck → lastValidBlockHeight < s.height
  checked : ∀ status height, SendEvent.lastChecked status height ∈ log →
    lastValidBlockHeight < height

variable {lastValidBlockHeight : ℕ} {log : List SendEvent} {s s' : Sending}

theorem Phase.Throws.open {phase : Phase} (h : phase.Throws) : phase.Open := by
  cases phase with
  | settled outcome => exact h
  | send | check | readError | blockHeight | lastCheck | rebroadcast | sleep => trivial

/-- What it means stays true. -/
theorem Phase.Means.before {phase : Phase} {status status' : TxStatus} (h : phase.Means status)
    (hb : status.Before status') : phase.Means status' := by
  cases phase with
  | settled outcome =>
      cases outcome with
      | confirmed => exact TxStatus.Landed.before h hb
      | txFailed err => exact TxStatus.Failed.before h hb
      | txExpired | rpcError => trivial
  | readError => exact TxStatus.Failed.before h hb
  | send | check | blockHeight | lastCheck | rebroadcast | sleep => trivial

/-- Before the end there was no last check. -/
theorem Sound.unchecked (h : Sound log s) (hopen : s.phase.Open) (status : TxStatus) (height : ℕ) :
    SendEvent.lastChecked status height ∉ log := by
  intro hmem
  rcases h.checked status height hmem with ⟨-, hp⟩ | ⟨-, hp⟩
  · rw [hp] at hopen
    exact hopen
  · rw [hp] at hopen
    exact hopen

theorem lastChecked_snoc {status : TxStatus} {height : ℕ} :
    SendEvent.lastChecked status height ∈ log ++ [.went] ↔
      SendEvent.lastChecked status height ∈ log := by
  simp

/-- A call but the last check. -/
theorem Sound.move (h : Sound log s) (hopen : s.phase.Open) {phase : Phase}
    (hmeans : phase.Means s.status) (hexpired : phase ≠ .settled .txExpired) :
    Sound (log ++ [.went]) { s with phase } where
  means := hmeans
  checked status height hmem := absurd (lastChecked_snoc.mp hmem) (h.unchecked hopen status height)
  expired hp := absurd hp hexpired
  once status _ height _ hmem _ :=
    absurd (lastChecked_snoc.mp hmem) (h.unchecked hopen status height)

/-- The chain goes on. -/
theorem Sound.chain (h : Sound log s) {status : TxStatus} (hs : s.status.Before status)
    (height : ℕ) : Sound (log ++ [.went]) { s with status, height } where
  means := h.means.before hs
  checked status' height' hmem := h.checked status' height' (lastChecked_snoc.mp hmem)
  expired hp := (h.expired hp).imp fun _ => Exists.imp fun _ => lastChecked_snoc.mpr
  once _ _ _ _ hmem hmem' :=
    h.once _ _ _ _ (lastChecked_snoc.mp hmem) (lastChecked_snoc.mp hmem')

/-- The last check. -/
theorem Sound.lastCheck (h : Sound log s) (hp : s.phase = .lastCheck)
    {answer : Option SignatureStatus} (ha : Answers s.status answer) :
    Sound (log ++ [.lastChecked s.status s.height])
      { s with phase := afterLastCheck (isOnChain answer) } := by
  have hopen : s.phase.Open := hp ▸ trivial
  have honly : ∀ status height,
      SendEvent.lastChecked status height ∈ log ++ [.lastChecked s.status s.height] →
        status = s.status := by
    intro status height hmem
    rcases List.mem_append.mp hmem with hmem | hmem
    · exact absurd hmem (h.unchecked hopen status height)
    · cases List.mem_singleton.mp hmem
      rfl
  have once : ∀ status status' height height',
      SendEvent.lastChecked status height ∈ log ++ [.lastChecked s.status s.height] →
      SendEvent.lastChecked status' height' ∈ log ++ [.lastChecked s.status s.height] →
        status = status' :=
    fun status status' height height' hmem hmem' =>
      (honly status height hmem).trans (honly status' height' hmem').symm
  rw [afterLastCheck]
  split
  case isTrue hcheck =>
    have hlanded := (isOnChain_confirmed ha).mp hcheck
    exact
      { means := hlanded
        checked := fun status height hmem => .inl ⟨honly status height hmem ▸ hlanded, rfl⟩
        expired := fun hp => by cases hp
        once }
  case isFalse hcheck =>
    have hnot : ¬ s.status.Landed := fun hlanded => hcheck ((isOnChain_confirmed ha).mpr hlanded)
    exact
      { means := trivial
        checked := fun status height hmem => .inr ⟨honly status height hmem ▸ hnot, rfl⟩
        expired := fun _ => ⟨_, _, List.mem_append_right _ (List.mem_singleton_self _)⟩
        once }

/-- **One step.** -/
theorem Sound.step {e : SendEvent} (h : Sound log s) (hs : SendStep lastValidBlockHeight s e s') :
    Sound (log ++ [e]) s' := by
  cases hs with
  | chain hs hh => exact h.chain hs _
  | throws hp => exact h.move hp.open trivial (by decide)
  | sent hp | rebroadcast hp | woke hp => exact h.move (hp ▸ trivial) trivial (by decide)
  | @checked answer hp ha =>
      have hopen : s.phase.Open := hp ▸ trivial
      cases hcheck : isOnChain answer with
      | confirmed => exact h.move hopen ((isOnChain_confirmed ha).mp hcheck) (by decide)
      | failed => exact h.move hopen (isOnChain_failed ha hcheck) (by decide)
      | pending => exact h.move hopen trivial (by decide)
  | readError hp ha =>
      have hmeans := h.means
      rw [hp] at hmeans
      exact h.move (hp ▸ trivial) hmeans fun heq => by cases heq
  | measured hp =>
      split
      · exact h.move (hp ▸ trivial) trivial (by decide)
      · exact h.move (hp ▸ trivial) trivial (by decide)
  | lastChecked hp ha => exact h.lastCheck hp ha

theorem sound_of_run (h : SendRun lastValidBlockHeight log s) : Sound log s := by
  refine h.invariant Sound ?_ fun log s e s' _ hok hs => hok.step hs
  intro s hs
  exact
    { means := by rw [hs]; trivial
      checked := fun _ _ hmem => absurd hmem List.not_mem_nil
      expired := fun hp => by rw [hs] at hp; cases hp
      once := fun _ _ _ _ hmem => absurd hmem List.not_mem_nil }

/-- A call but the last check, unless it begins it. -/
theorem Past.move (h : Past lastValidBlockHeight log s) {phase : Phase}
    (hphase : phase = .lastCheck → lastValidBlockHeight < s.height) :
    Past lastValidBlockHeight (log ++ [.went]) { s with phase } where
  checks := hphase
  checked status height hmem := h.checked status height (lastChecked_snoc.mp hmem)

theorem afterCheck_ne_lastCheck (onChain : OnChain) : afterCheck onChain ≠ .lastCheck := by
  cases onChain with
  | confirmed | failed | pending => exact nofun

/-- **One step**: only a height that is past leads to the last check, and the chain does not go
back. -/
theorem Past.step {e : SendEvent} (h : Past lastValidBlockHeight log s)
    (hs : SendStep lastValidBlockHeight s e s') : Past lastValidBlockHeight (log ++ [e]) s' := by
  cases hs with
  | chain hs hh =>
      exact
        { checks := fun hp => (h.checks hp).trans_le hh
          checked := fun status height hmem => h.checked status height (lastChecked_snoc.mp hmem) }
  | throws | sent | readError | rebroadcast | woke => exact h.move nofun
  | @checked answer => exact h.move fun hp => (afterCheck_ne_lastCheck _ hp).elim
  | measured =>
      refine h.move fun hp => ?_
      split at hp
      case isTrue hpast => exact hpast
      case isFalse => cases hp
  | @lastChecked answer hp =>
      -- it is over after that, and this check is made where `measured` has led
      refine ⟨fun hcheck => ?_, fun status height hmem => ?_⟩
      · simp only [afterLastCheck] at hcheck
        split at hcheck
        · cases hcheck
        · cases hcheck
      · rcases List.mem_append.mp hmem with hmem | hmem
        · exact h.checked status height hmem
        · cases List.mem_singleton.mp hmem
          exact h.checks hp

theorem past_of_run (h : SendRun lastValidBlockHeight log s) : Past lastValidBlockHeight log s := by
  refine h.invariant (Past lastValidBlockHeight) ?_ fun log s e s' _ hok hs => hok.step hs
  intro s hs
  exact
    { checks := fun hp => by rw [hs] at hp; cases hp
      checked := fun _ _ hmem => absurd hmem List.not_mem_nil }

/-! ### The truth -/

/-- **What `sendAndConfirm` reports is true**: confirmed, failed, or not there at the last check,
with the chain past the height. -/
structure Truthful (lastValidBlockHeight : ℕ) (log : List SendEvent) (s : Sending) : Prop where
  confirmed : s.phase = .settled .confirmed → s.status.Landed
  txFailed : ∀ err, s.phase = .settled (.txFailed err) → s.status.Failed
  txExpired : s.phase = .settled .txExpired →
    ∃ height, lastValidBlockHeight < height ∧ SendEvent.lastChecked .absent height ∈ log

/-- **It is true just when** the last check finds the transaction neither failed nor processed only;
what is confirmed or failed is always so. -/
theorem truthful_iff (h : SendRun lastValidBlockHeight log s) :
    (s.phase = .settled .confirmed → s.status.Landed) ∧
    (∀ err, s.phase = .settled (.txFailed err) → s.status.Failed) ∧
    (Truthful lastValidBlockHeight log s ↔
      ∀ status height, SendEvent.lastChecked status height ∈ log →
        ¬ status.Failed ∧ status ≠ .processed) := by
  have hok := sound_of_run h
  have hpast := past_of_run h
  have hconfirmed : s.phase = .settled .confirmed → s.status.Landed := by
    intro hp
    have hmeans := hok.means
    rwa [hp] at hmeans
  have hfailed : ∀ err, s.phase = .settled (.txFailed err) → s.status.Failed := by
    intro err hp
    have hmeans := hok.means
    rwa [hp] at hmeans
  refine ⟨hconfirmed, hfailed, fun htrue status height hmem => ?_,
    fun hcond => ⟨hconfirmed, hfailed, ?_⟩⟩
  · refine TxStatus.landed_or_absent_iff.mp ?_
    rcases hok.checked status height hmem with ⟨hlanded, -⟩ | ⟨-, hp⟩
    · exact .inl hlanded
    · obtain ⟨_, -, habsent⟩ := htrue.txExpired hp
      exact .inr (hok.once _ _ _ _ hmem habsent)
  · intro hp
    obtain ⟨status, height, hmem⟩ := hok.expired hp
    rcases TxStatus.landed_or_absent_iff.mpr (hcond status height hmem) with hlanded | rfl
    · rcases hok.checked status height hmem with ⟨-, hp'⟩ | ⟨hnot, -⟩
      · rw [hp] at hp'
        cases hp'
      · exact absurd hlanded hnot
    · exact ⟨height, hpast.checked _ _ hmem, hmem⟩

/-! ### Two runs that are not -/

/-- A round, up to the last check: the transaction comes to `status` after the first check, and the
chain past the height. -/
theorem run_lastCheck (status : TxStatus) :
    SendRun 10 ([] ++ [.went] ++ [.went] ++ [.went] ++ [.went]) ⟨.lastCheck, status, 11⟩ := by
  have hstart : SendRun 10 [] ⟨.send, .absent, 10⟩ := .start rfl
  have hchecked := (hstart.snoc (.sent rfl)).snoc (.checked rfl .absent)
  have hpast : (10 : ℕ) ≤ 11 := by decide
  exact (hchecked.snoc (.chain (.absent status) hpast)).snoc (.measured rfl)

/-- Confirmed at the last check of one run, and not there at that of another. -/
theorem truthful_iff_confirmed :
    (∃ log s, SendRun 10 log s ∧ s.phase = .settled .confirmed ∧
      SendEvent.lastChecked .confirmed 11 ∈ log ∧ Truthful 10 log s) ∧
    ∃ log s, SendRun 10 log s ∧ s.phase = .settled .txExpired ∧ Truthful 10 log s := by
  have hrun := (run_lastCheck .confirmed).snoc (.lastChecked rfl .confirmed)
  have hrun' := (run_lastCheck .absent).snoc (.lastChecked rfl .absent)
  refine ⟨⟨_, _, hrun, rfl, by simp, (truthful_iff hrun).2.2.mpr fun status height hmem => ?_⟩,
    _, _, hrun', rfl, (truthful_iff hrun').2.2.mpr fun status height hmem => ?_⟩
  · obtain ⟨rfl, -⟩ : status = .confirmed ∧ height = 11 := by simpa using hmem
    exact TxStatus.landed_or_absent_iff.mp (.inl (.inl rfl))
  · obtain ⟨rfl, -⟩ : status = .absent ∧ height = 11 := by simpa using hmem
    exact TxStatus.landed_or_absent_iff.mp (.inr rfl)

/-- **Failed** at the last check, and reported as expired. -/
theorem failed_reported_expired : ∃ log s, SendRun 10 log s ∧ s.phase = .settled .txExpired ∧
    s.status = .failed "InvalidState" ∧ ¬ Truthful 10 log s := by
  have hrun := (run_lastCheck (.failed "InvalidState")).snoc
    (.lastChecked rfl (.failed "InvalidState" (some .confirmed)))
  refine ⟨_, _, hrun, rfl, rfl, fun htrue => ?_⟩
  obtain ⟨_, -, hmem⟩ := htrue.txExpired rfl
  simp at hmem

/-- **Processed** at the last check, and reported as expired. -/
theorem processed_reported_expired : ∃ log s, SendRun 10 log s ∧ s.phase = .settled .txExpired ∧
    s.status = .processed ∧ ¬ Truthful 10 log s := by
  have hrun := (run_lastCheck .processed).snoc (.lastChecked rfl .processed)
  refine ⟨_, _, hrun, rfl, rfl, fun htrue => ?_⟩
  obtain ⟨_, -, hmem⟩ := htrue.txExpired rfl
  simp at hmem

end Qietr.Web
