import Qietr.Relayer.Deposit
import Qietr.Sdk.Pay

/-!
# SDK — a deposit and its note

`sdk.ts`'s two deposits: one that the depositor sends, and one that a relayer sends.  The secrets
are drawn before the first network step, and the note has them when the last one has returned.

* `prepareDeposit`: the commitment and its instruction; `opened_of_prepareDeposit`.
* `deposit`, `depositGasless`: what they leave of the SDK, by the outcome of the network steps.
* `deposit_spendable_iff`: the note has the secrets of the leaf, and of no other, just when the
  answer to the submission tells the fate of the transaction.
-/

namespace Qietr.Sdk

open Outcome Pool
open Relayer (poolDeposit poolDeposit_eq_ok)

/-! ### The commitment -/

/-- A number of USDC: in micro-USDC, as `Math.round` gives it, and in print. -/
structure UsdcAmount where
  micro : ℤ
  text : String

/-- A number of micro-USDC in USDC, in print. -/
def usdcText (micro : ℤ) : String :=
  let fraction := (toString (10 ^ 6 + micro % 10 ^ 6)).toList.tail.reverse.dropWhile (· = '0')
  toString (micro / 10 ^ 6) ++
    if fraction = [] then "" else "." ++ String.ofList fraction.reverse

def pickTier (amount : UsdcAmount) (tiers : List TierDefinition) : Except String TierDefinition :=
  okOr (tiers.find? fun t => t.amountMicroUsdc = amount.micro)
    (s!"unsupported deposit amount {amount.text} USDC; valid tiers: [" ++
      ", ".intercalate (tiers.map fun t => usdcText t.amountMicroUsdc) ++ "]")

/-- The two numbers drawn for a deposit. -/
structure DepositDraws where
  secret : ℕ
  nullifier : ℕ

/-- A deposit that can be sent. -/
structure PreparedDeposit where
  commitment : NoteCommitment
  leaf : F
  ix : Instruction

/-- Either deposit, up to its instruction. -/
def prepareDeposit (env : PoolEnv) (config : QietrSDKConfig) (amount : UsdcAmount)
    (draws : DepositDraws) (depositor : Pubkey) : Except String PreparedDeposit := do
  let tier ← pickTier amount config.tiers
  let secret := toString draws.secret
  let nullifier := toString draws.nullifier
  let leaf ← commitmentHashOf env.poseidon secret nullifier tier.amountMicroUsdc
  .ok
    { commitment := { secret, nullifier, amount := tier.amountMicroUsdc, denomId := tier.denomId }
      leaf
      ix := buildDepositIx env config.programId (UInt8.ofNat tier.denomId) (encode leaf)
        (env.associatedTokenAddress depositor config.usdcMint) depositor }

/-! ### The note -/

/-- The note with one more commitment. -/
def addTo (note : Option Note) (c : NoteCommitment) : Note :=
  let current := note.getD emptyNote
  { version := current.version, commitments := current.commitments ++ [c] }

/-- The note's update, and the deposit's signature, once the sending has returned. -/
def finishDeposit (sdk : QietrSDK) (d : PreparedDeposit) (signature : String) :
    Except String Note × QietrSDK :=
  let next := addTo sdk.note d.commitment
  (.ok next, { sdk.store next with lastDepositSignature := some signature })

/-- **The deposit** that the depositor sends. -/
def deposit (env : PoolEnv) (config : QietrSDKConfig) (sdk : QietrSDK) (amount : UsdcAmount)
    (draws : DepositDraws) (depositor : Pubkey) (submission : Submission) :
    Except String Note × QietrSDK :=
  match prepareDeposit env config amount draws depositor with
  | .error e => (.error e, sdk)
  | .ok d =>
      match sendIxs submission with
      | .error e => (.error e, sdk)
      | .ok signature => finishDeposit sdk d signature

/-! ### Through a relayer -/

structure RelayerQuote where
  feePayer : String
  feeAta : String
  feeAmountMicro : ℤ
  blockhash : String
  lastValidBlockHeight : ℕ

/-- How a request to the relayer ends: no response, one that is not ok, one whose body is not JSON,
or a value. -/
inductive Answer (α : Type) where
  | failed (message : String)
  | returned (status : ℕ) (body : String)
  | unreadable (message : String)
  | value (a : α)

/-- `RelayerClient.get`. -/
def relayerGet {α : Type} (path : String) : Answer α → Except String α
  | .failed message => .error s!"network error: relayer GET {path} failed: {message}"
  | .returned status body => .error s!"network error: relayer GET {path} returned {status}: {body}"
  | .unreadable message => .error message
  | .value a => .ok a

/-- `RelayerClient.post`. -/
def relayerPost {α : Type} (path : String) : Answer α → Except String α
  | .failed message => .error s!"network error: relayer POST {path} failed: {message}"
  | .returned status body => .error s!"relayer error: relayer POST {path} returned {status}: {body}"
  | .unreadable message => .error message
  | .value a => .ok a

/-- How the network steps of a deposit through a relayer go. -/
inductive GaslessSubmission where
  /-- The answer to the request for a quote is none. -/
  | noQuote (answer : Answer Empty)
  /-- One of the quote's keys is none. -/
  | badQuote (quote : RelayerQuote) (message : String)
  /-- The depositor does not sign, or the transaction cannot be written out. -/
  | notSigned (quote : RelayerQuote) (message : String)
  /-- The transaction was handed over: the relayer's answer to that, and its fate. -/
  | posted (quote : RelayerQuote) (answer : Answer String) (fate : Fate)

/-- What the relayer's client and the wallet answer. -/
def submitGasless : GaslessSubmission → Except String String
  | .noQuote answer => (relayerGet "/deposit-quote" answer).map Empty.elim
  | .badQuote _ message => .error message
  | .notSigned _ message => .error message
  | .posted _ answer _ => relayerPost "/submit-deposit" answer

/-- The relayer's URL without the slashes at its end. -/
def trimUrl (url : String) : String :=
  String.ofList (url.toList.reverse.dropWhile (· = '/')).reverse

/-- The URL asked for, or the SDK's. -/
def relayerUrl? (config : QietrSDKConfig) (relayerUrl : Option String) : Option String :=
  ((relayerUrl.or config.relayerUrl).map trimUrl).filter (· ≠ "")

/-- The note's update, once the relayer has answered. -/
def finishDepositGasless (sdk : QietrSDK) (d : PreparedDeposit) (signature : String) :
    Except String (Note × String) × QietrSDK :=
  let next := addTo sdk.note d.commitment
  (.ok (next, signature), sdk.store next)

/-- **The deposit** that a relayer sends. -/
def depositGasless (env : PoolEnv) (config : QietrSDKConfig) (sdk : QietrSDK)
    (relayerUrl : Option String) (amount : UsdcAmount) (draws : DepositDraws) (depositor : Pubkey)
    (submission : GaslessSubmission) : Except String (Note × String) × QietrSDK :=
  match relayerUrl? config relayerUrl with
  | none => (.error ("relayer error: relayer URL not configured; set relayerUrl in " ++
      "QietrSDKConfig or pass it in depositGasless args"), sdk)
  | some _ =>
      match prepareDeposit env config amount draws depositor with
      | .error e => (.error e, sdk)
      | .ok d =>
          match submitGasless submission with
          | .error e => (.error e, sdk)
          | .ok signature => finishDepositGasless sdk d signature

/-! ### The leaf and its opening -/

variable {env : PoolEnv} {config : QietrSDKConfig} {sdk sdk' : QietrSDK} {amount : UsdcAmount}
  {draws : DepositDraws} {depositor : Pubkey} {d : PreparedDeposit}

/-- The commitment opens the leaf, and a deposit that the pool makes of the instruction is of that
leaf. -/
structure Opened (env : PoolEnv) (d : PreparedDeposit) : Prop where
  opens : commitmentHashOf env.poseidon d.commitment.secret d.commitment.nullifier
    d.commitment.amount = .ok d.leaf
  deposited : ∀ {s s' : PoolState} {tx : Transaction env.address},
    poolDeposit env s tx d.ix = .ok s' → ∃ accounts, Pool.deposit env s accounts
      (UInt8.ofNat d.commitment.denomId) (encode d.leaf) = .ok s'

theorem prepareDeposit_eq_ok :
    prepareDeposit env config amount draws depositor = .ok d ↔ ∃ tier leaf,
      pickTier amount config.tiers = .ok tier ∧
      commitmentHashOf env.poseidon (toString draws.secret) (toString draws.nullifier)
        tier.amountMicroUsdc = .ok leaf ∧
      { commitment :=
          { secret := toString draws.secret
            nullifier := toString draws.nullifier
            amount := tier.amountMicroUsdc
            denomId := tier.denomId }
        leaf
        ix := buildDepositIx env config.programId (UInt8.ofNat tier.denomId) (encode leaf)
          (env.associatedTokenAddress depositor config.usdcMint) depositor } = d := by
  simp only [prepareDeposit, bind_eq_ok, exists_and_left, Except.ok.injEq]

theorem opened_of_prepareDeposit (h : prepareDeposit env config amount draws depositor = .ok d) :
    Opened env d := by
  obtain ⟨tier, leaf, -, hleaf, rfl⟩ := prepareDeposit_eq_ok.mp h
  refine ⟨hleaf, fun hok => ?_⟩
  obtain ⟨-, -, -, -, -, -, ata, _, key, -, -, -, -, hdeposit⟩ := poolDeposit_eq_ok.mp hok
  have hcommitment : Bytes.ofNat 32 (beNat ((encode leaf).toList.take 32)) = encode leaf := by
    rw [List.take_of_length_le (by simp)]
    exact Bytes.ofNat_toNat _
  refine ⟨⟨ata, key⟩, ?_⟩
  rw [← hcommitment]
  exact hdeposit

/-! ### The note and the chain -/

/-- The note has the two secrets of a commitment. -/
def QietrSDK.Has (sdk : QietrSDK) (c : NoteCommitment) : Prop :=
  ∃ note ∈ sdk.note, ∃ c' ∈ note.commitments, c'.secret = c.secret ∧ c'.nullifier = c.nullifier

/-- The transaction was executed. -/
def GaslessSubmission.Executed : GaslessSubmission → Prop
  | .posted _ _ fate => fate = .executed
  | _ => False

/-- Once the transaction is handed over, the relayer answers with a signature just when it is
executed. -/
def GaslessSubmission.Tells : GaslessSubmission → Prop
  | .posted _ answer fate => (∃ signature, answer = .value signature) ↔ fate = .executed
  | _ => True

theorem GaslessSubmission.tells_iff {submission : GaslessSubmission} : submission.Tells ↔
    ((∃ signature, submitGasless submission = .ok signature) ↔ submission.Executed) := by
  cases submission with
  | noQuote answer =>
      refine ⟨fun _ => ⟨?_, False.elim⟩, fun _ => trivial⟩
      rintro ⟨signature, h⟩
      cases answer with
      | value a => exact a.elim
      | failed _ | returned _ _ | unreadable _ => cases h
  | badQuote quote message | notSigned quote message =>
      exact ⟨fun _ => ⟨nofun, False.elim⟩, fun _ => trivial⟩
  | posted quote answer fate =>
      cases answer with
      | value signature => exact iff_congr ⟨fun _ => ⟨_, rfl⟩, fun _ => ⟨_, rfl⟩⟩ Iff.rfl
      | failed _ | returned _ _ | unreadable _ => exact iff_congr ⟨nofun, nofun⟩ Iff.rfl

/-- The note has the secrets afterwards if the submission has returned, or if it had them. -/
theorem has_addTo {returned : Prop} {c : NoteCommitment}
    (hstored : returned → sdk'.note = some (addTo sdk.note c))
    (hkept : ¬ returned → sdk'.note = sdk.note) : sdk'.Has c ↔ returned ∨ sdk.Has c := by
  by_cases h : returned
  · refine iff_of_true ?_ (Or.inl h)
    exact ⟨_, hstored h, c, List.mem_append_right _ (List.mem_singleton_self c), rfl, rfl⟩
  · rw [or_iff_right h, QietrSDK.Has, QietrSDK.Has, hkept h]

/-- A pair that is new comes to be known when the submission returns; one that is not was known. -/
theorem has_iff_executed {returned executed : Prop} {c : NoteCommitment}
    (h : sdk'.Has c ↔ returned ∨ sdk.Has c) :
    (sdk'.Has c ↔ executed) ↔
      (¬ sdk.Has c ∧ (returned ↔ executed)) ∨ (sdk.Has c ∧ executed) := by
  by_cases hold : sdk.Has c
  · simp [h, hold]
  · simp [h, hold]

theorem deposit_has (submission : Submission)
    (h : prepareDeposit env config amount draws depositor = .ok d) :
    (deposit env config sdk amount draws depositor submission).2.Has d.commitment ↔
      (∃ signature, sendIxs submission = .ok signature) ∨ sdk.Has d.commitment := by
  refine has_addTo ?_ fun hnot => ?_
  · rintro ⟨signature, hsent⟩
    rw [deposit, h]
    simp only [hsent]
    rfl
  · rw [deposit, h]
    cases hsent : sendIxs submission with
    | error e => rfl
    | ok signature => exact (hnot ⟨signature, hsent⟩).elim

theorem depositGasless_has {relayerUrl : Option String} {url : String}
    (hurl : relayerUrl? config relayerUrl = some url) (submission : GaslessSubmission)
    (h : prepareDeposit env config amount draws depositor = .ok d) :
    (depositGasless env config sdk relayerUrl amount draws depositor submission).2.Has
        d.commitment ↔
      (∃ signature, submitGasless submission = .ok signature) ∨ sdk.Has d.commitment := by
  refine has_addTo ?_ fun hnot => ?_
  · rintro ⟨signature, hsent⟩
    rw [depositGasless, hurl, h]
    simp only [hsent]
    rfl
  · rw [depositGasless, hurl, h]
    cases hsent : submitGasless submission with
    | error e => rfl
    | ok signature => exact (hnot ⟨signature, hsent⟩).elim

/-- **A deposit that lands can be spent**, and one that does not is not in the note, just when the
answer to its submission tells which (and the secrets drawn are new). -/
theorem deposit_spendable_iff (env : PoolEnv) (config : QietrSDKConfig) (sdk : QietrSDK)
    (amount : UsdcAmount) (draws : DepositDraws) (depositor : Pubkey) :
    (∀ e, prepareDeposit env config amount draws depositor = .error e →
      (∀ submission, (deposit env config sdk amount draws depositor submission).2 = sdk) ∧
      ∀ relayerUrl submission,
        (depositGasless env config sdk relayerUrl amount draws depositor submission).2 = sdk) ∧
    (∀ relayerUrl submission, relayerUrl? config relayerUrl = none →
      (depositGasless env config sdk relayerUrl amount draws depositor submission).2 = sdk) ∧
    ∀ d, prepareDeposit env config amount draws depositor = .ok d →
      Opened env d ∧
      (∀ submission,
        ((deposit env config sdk amount draws depositor submission).2.Has d.commitment ↔
          submission.Executed) ↔
        (¬ sdk.Has d.commitment ∧ submission.Tells) ∨
          (sdk.Has d.commitment ∧ submission.Executed)) ∧
      ∀ relayerUrl url submission, relayerUrl? config relayerUrl = some url →
        (((depositGasless env config sdk relayerUrl amount draws depositor submission).2.Has
            d.commitment ↔ submission.Executed) ↔
        (¬ sdk.Has d.commitment ∧ submission.Tells) ∨
          (sdk.Has d.commitment ∧ submission.Executed)) := by
  refine ⟨fun e he => ⟨fun submission => ?_, fun relayerUrl submission => ?_⟩,
    fun relayerUrl submission hurl => ?_, fun d hd => ⟨opened_of_prepareDeposit hd,
      fun submission => ?_, fun relayerUrl url submission hurl => ?_⟩⟩
  · rw [deposit, he]
  · rw [depositGasless, he]
    split <;> rfl
  · rw [depositGasless, hurl]
  · rw [Submission.tells_iff]
    exact has_iff_executed (deposit_has submission hd)
  · rw [GaslessSubmission.tells_iff]
    exact has_iff_executed (depositGasless_has hurl submission hd)

/-! ### Ten micro-USDC -/

variable {P : Poseidon}

def tenAmount : UsdcAmount where
  micro := 10
  text := "0.00001"

def tenDraws : DepositDraws where
  secret := 7
  nullifier := 8

/-- The commitment of a deposit of ten with these draws. -/
def tenDeposit : NoteCommitment where
  secret := "7"
  nullifier := "8"
  amount := 10
  denomId := 0

/-- An SDK without a note. -/
def newSdk : QietrSDK where
  note := none
  lastUpdatedNote := none
  lastDepositSignature := none

theorem newSdk_has (c : NoteCommitment) : ¬ newSdk.Has c := by
  rintro ⟨note, hnote, -⟩
  cases hnote

theorem exists_preparedDeposit (P : Poseidon) : ∃ d,
    prepareDeposit (ideal P) tenConfig tenAmount tenDraws (admin P).key = .ok d ∧
      d.commitment = tenDeposit := by
  have hleaf : commitmentHashOf P (toString tenDraws.secret) (toString tenDraws.nullifier) 10 =
      .ok (P.three (7 : ℤ) (8 : ℤ) (10 : ℤ)) :=
    commitmentHashOf_eq_ok.mpr ⟨7, 8, by decide +kernel, by decide +kernel, rfl⟩
  exact ⟨_, prepareDeposit_eq_ok.mpr ⟨⟨0, 10⟩, _, rfl, hleaf, rfl⟩, by
    show ({ secret := toString 7, nullifier := toString 8, amount := 10, denomId := 0 } :
      NoteCommitment) = tenDeposit
    decide +kernel⟩

/-- A deposit that is executed when its submission has returned: it can be spent. -/
theorem deposit_spendable_iff_ten : ∃ d,
    prepareDeposit (ideal circom) tenConfig tenAmount tenDraws (admin circom).key = .ok d ∧
    (deposit (ideal circom) tenConfig newSdk tenAmount tenDraws (admin circom).key
      (.sent (.ok "") (.ok none) .executed)).2.Has d.commitment := by
  obtain ⟨d, hd, -⟩ := exists_preparedDeposit circom
  have hnew := newSdk_has d.commitment
  obtain ⟨-, hiff, -⟩ := (deposit_spendable_iff (ideal circom) tenConfig newSdk tenAmount tenDraws
    (admin circom).key).2.2 d hd
  exact ⟨d, hd, ((hiff (.sent (.ok "") (.ok none) .executed)).mpr
    (Or.inl ⟨hnew, fun _ => rfl, fun _ => ⟨_, rfl⟩⟩)).mpr rfl⟩

/-- A deposit that is executed though its submission threw, by the depositor and through a relayer:
the note does not have its secrets.  And one that fails after its submission has returned: the note
has them. -/
theorem deposit_not_in_note : ∃ d,
    prepareDeposit (ideal circom) tenConfig tenAmount tenDraws (admin circom).key = .ok d ∧
    ¬ (deposit (ideal circom) tenConfig newSdk tenAmount tenDraws (admin circom).key
      (.sent (.error "timeout") (.ok none) .executed)).2.Has d.commitment ∧
    (∀ quote, ¬ (depositGasless (ideal circom) tenConfig newSdk (some "https://relayer") tenAmount
      tenDraws (admin circom).key (.posted quote (.failed "timeout") .executed)).2.Has
        d.commitment) ∧
    (deposit (ideal circom) tenConfig newSdk tenAmount tenDraws (admin circom).key
      (.sent (.ok "") (.ok (some "InstructionError")) .failed)).2.Has d.commitment := by
  obtain ⟨d, hd, -⟩ := exists_preparedDeposit circom
  have hnew := newSdk_has d.commitment
  refine ⟨d, hd, fun h => ?_, fun quote h => ?_, (deposit_has _ hd).mpr (Or.inl ⟨_, rfl⟩)⟩
  · rcases (deposit_has _ hd).mp h with ⟨_, hsent⟩ | hold
    · cases hsent
    · exact hnew hold
  · have hurl : relayerUrl? tenConfig (some "https://relayer") = some "https://relayer" := by
      decide +kernel
    rcases (depositGasless_has hurl _ hd).mp h with ⟨_, hsent⟩ | hold
    · cases hsent
    · exact hnew hold

end Qietr.Sdk
