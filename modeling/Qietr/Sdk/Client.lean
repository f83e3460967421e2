import Qietr.Library.BigIntText
import Qietr.Sdk.Payment
import Qietr.Sdk.Program

/-!
# SDK — the client

`sdk.ts`: what the SDK keeps of a user's funds, and its payment.

* `Note`, `QietrSDK`: the note, and the fields of an SDK that change.
* `preparePayment`: what a payment does before it is sent, up to its instruction.
* `Submission`, `sendIxs`: the network steps of sending it, with what becomes of it.
* `finishPayment`, `payMicroExact`: the note's update, and the payment as a whole.
-/

namespace Qietr.Sdk

open Outcome Pool BigIntText

/-! ### Notes -/

/-- A `Commitment` as a note keeps it: its secrets are texts, its amount a whole number of
micro-USDC. -/
structure NoteCommitment where
  secret : String
  nullifier : String
  amount : ℤ
  denomId : ℕ
  deriving DecidableEq

structure Note where
  version : String
  commitments : List NoteCommitment
  deriving DecidableEq

def NOTE_VERSION : String := "qietr.v1"

def emptyNote : Note where
  version := NOTE_VERSION
  commitments := []

/-- The fields of an SDK that its calls change. -/
structure QietrSDK where
  note : Option Note
  lastUpdatedNote : Option Note
  lastDepositSignature : Option String
  deriving DecidableEq

/-- A new note in place of the old one. -/
def QietrSDK.store (sdk : QietrSDK) (next : Note) : QietrSDK :=
  { sdk with note := some next, lastUpdatedNote := some next }

structure TierDefinition where
  denomId : ℕ
  amountMicroUsdc : ℤ
  deriving DecidableEq

/-- What an SDK is set up with. -/
structure QietrSDKConfig where
  programId : Pubkey
  usdcMint : Pubkey
  tiers : List TierDefinition
  relayerUrl : Option String

/-! ### Hashes -/

/-- `BigInt(s)`, or its `SyntaxError`. -/
def bigInt (s : String) : Except String ℤ :=
  okOr (bigIntOfString s) s!"Cannot convert {s} to a BigInt"

/-- The leaf of a commitment, from its texts. -/
def commitmentHashOf (P : Poseidon) (secretDec nullifierDec : String) (amountMicroUsdc : ℤ) :
    Except String F := do
  let secret ← bigInt secretDec
  let nullifier ← bigInt nullifierDec
  .ok (P.three secret nullifier amountMicroUsdc)

/-- What marks a commitment as spent, from its text. -/
def nullifierHashDec (P : Poseidon) (nullifierDec : String) : Except String F := do
  let nullifier ← bigInt nullifierDec
  .ok (P.one nullifier)

/-! ### A payment's witness -/

structure MerkleProof where
  pathElements : List ℤ
  pathIndices : List ℕ
  root : ℤ

structure WitnessInputs where
  secret : ℤ
  nullifier : ℤ
  amount : ℤ
  newSecret : ℕ
  newNullifier : ℕ
  pathElements : List ℤ
  pathIndices : List ℕ
  root : ℤ
  nullifierHash : F
  recipient : ℕ
  paymentAmount : ℤ
  changeCommitment : F

/-- `buildWitness`, from a note's commitment and the two secrets drawn for the change. -/
def buildWitnessInputs (P : Poseidon) (commitment : NoteCommitment) (merkleProof : MerkleProof)
    (recipient : ℕ) (paymentAmount : ℤ) (newSecret newNullifier : ℕ) :
    Except String WitnessInputs := do
  let secret ← bigInt commitment.secret
  let nullifier ← bigInt commitment.nullifier
  let change := commitment.amount - paymentAmount
  .ok
    { secret, nullifier
      amount := commitment.amount
      newSecret, newNullifier
      pathElements := merkleProof.pathElements
      pathIndices := merkleProof.pathIndices
      root := merkleProof.root
      nullifierHash := P.one nullifier
      recipient, paymentAmount
      changeCommitment := P.three newSecret newNullifier change }

/-- Its public inputs, which the circuit reads as field elements. -/
def WitnessInputs.pub (w : WitnessInputs) : Circuit.PublicSignals where
  amount := w.amount
  root := w.root
  nullifierHash := w.nullifierHash
  recipient := w.recipient
  paymentAmount := w.paymentAmount
  changeCommitment := w.changeCommitment

structure Groth16Proof where
  proofBytes : Bytes PROOF_BYTES
  publicSignals : List Bytes32

structure NullifierStatus where
  spent : Bool
  spentAtSlot : Option String

/-- What a payment asks of the indexer, of the prover, and of its source of randomness. -/
structure PayNetwork where
  merkleProof : ℕ → Bytes32 → Except String MerkleProof
  newSecret : ℕ
  newNullifier : ℕ
  nullifierStatus : ℕ → Bytes32 → Except String NullifierStatus
  fullProve : WitnessInputs → Except String Groth16Proof

/-! ### Before it is sent -/

/-- The smallest commitment that covers the payment. -/
def pickCommitment (note : Note) (paymentMicro : ℤ) : Option NoteCommitment :=
  (note.commitments.mergeSort fun a b => a.amount ≤ b.amount).find? fun c => paymentMicro ≤ c.amount

/-- The indexer's word on a nullifier; when it has none the payment goes on. -/
def checkUnspent : Except String NullifierStatus → Except String Unit
  | .ok status => require (status.spent = false)
    ("commitment already spent (nullifier seen at slot " ++
      status.spentAtSlot.getD "undefined" ++ ")")
  | .error _ => .ok ()

/-- A payment that can be sent. -/
structure PreparedPayment where
  commitment : NoteCommitment
  witness : WitnessInputs
  ix : Instruction

/-- `payMicroExact`, up to the sending of its instruction. -/
def preparePayment (env : PoolEnv) (config : QietrSDKConfig) (note : Option Note)
    (recipient : Pubkey)
    (paymentMicro : ℤ) (feePayer : Option Pubkey) (net : PayNetwork) :
    Except String PreparedPayment := do
  let note ← okOr (note.filter fun note => note.commitments ≠ [])
    "no note loaded; call setNote() or deposit() first"
  require (0 < paymentMicro) "payment amount must be positive"
  let commitment ← okOr (pickCommitment note paymentMicro)
    s!"no single commitment large enough for {paymentMicro} micro-USDC payment"
  let leaf ← commitmentHashOf env.poseidon commitment.secret commitment.nullifier commitment.amount
  let merkleProof ← net.merkleProof commitment.denomId (encode leaf)
  let witness ← buildWitnessInputs env.poseidon commitment merkleProof
    (pubkeyToFieldString recipient) paymentMicro net.newSecret net.newNullifier
  let nullHash ← nullifierHashDec env.poseidon commitment.nullifier
  let nullHashBe := encode nullHash
  checkUnspent (net.nullifierStatus commitment.denomId nullHashBe)
  let groth ← net.fullProve witness
  let psNullifier ← okOr groth.publicSignals[2]? "prover returned malformed public signals"
  let psRecipient ← okOr groth.publicSignals[3]? "prover returned malformed public signals"
  require (psNullifier = nullHashBe) "prover nullifier mismatch; check witness construction"
  require (psRecipient = pubkeyToField recipient) "prover recipient mismatch; check pubkey masking"
  let recipientAta := env.associatedTokenAddress recipient config.usdcMint
  let feePayer ← okOr feePayer
    "QietrSDK.pay requires `feePayer` until the relayer client is wired (task #8)"
  -- no fee vault is passed
  let ix ← buildWithdrawIx commitment.denomId nullHashBe groth.proofBytes groth.publicSignals
    (withdrawIxAccounts env commitment.denomId nullHashBe recipientAta feePayer none)
    config.programId
  .ok { commitment, witness, ix }

/-! ### Sending it -/

/-- What becomes of a transaction that was handed to the network. -/
inductive Fate where
  | executed
  | failed
  | dropped
  deriving DecidableEq

/-- How the network steps of `sendIxs` go. -/
inductive Submission where
  | noBlockhash (message : String)
  | notSigned (message : String)
  | notSerialized (message : String)
  /-- The transaction was handed over: the answer to that, the confirmation's, and its fate. -/
  | sent (send : Except String String) (confirm : Except String (Option String)) (fate : Fate)

/-- The transaction was executed. -/
def Submission.Executed : Submission → Prop
  | .sent _ _ fate => fate = .executed
  | _ => False

/-- `sendIxs`: the confirmation's answer is not looked at. -/
def sendIxs : Submission → Except String String
  | .noBlockhash message => .error s!"failed to get blockhash: {message}"
  | .notSigned message => .error s!"transaction signing failed: {message}"
  | .notSerialized message => .error message
  | .sent (.error message) _ _ => .error s!"transaction submission failed: {message}"
  | .sent (.ok signature) _ _ => .ok signature

/-! ### After it was sent -/

structure PaymentResult where
  updatedNote : Note
  withdrawSignature : String

/-- What is left of the commitment, when anything is. -/
def PreparedPayment.change? (p : PreparedPayment) (paymentMicro : ℤ) : Option NoteCommitment :=
  if 0 < p.commitment.amount - paymentMicro then some
    { secret := toString p.witness.newSecret
      nullifier := toString p.witness.newNullifier
      amount := p.commitment.amount - paymentMicro
      denomId := p.commitment.denomId }
  else none

/-- The note without the commitment, and with what is left of it. -/
def spendFrom (note : Note) (p : PreparedPayment) (paymentMicro : ℤ) : Note where
  version := note.version
  commitments := note.commitments.filter (fun c =>
      ¬ (c.secret = p.commitment.secret ∧ c.nullifier = p.commitment.nullifier)) ++
    (p.change? paymentMicro).toList

/-- The update of the note as it is once the sending has returned. -/
def finishPayment (sdk : QietrSDK) (p : PreparedPayment) (paymentMicro : ℤ) (signature : String) :
    Except String PaymentResult × QietrSDK :=
  match sdk.note with
  | none => (.error "Cannot read properties of null (reading 'commitments')", sdk)
  | some note =>
      let updatedNote := spendFrom note p paymentMicro
      (.ok { updatedNote, withdrawSignature := signature }, sdk.store updatedNote)

/-- **The payment**, and the SDK it leaves. -/
def payMicroExact (env : PoolEnv) (config : QietrSDKConfig) (sdk : QietrSDK) (recipient : Pubkey)
    (paymentMicro : ℤ) (feePayer : Option Pubkey) (net : PayNetwork) (submission : Submission) :
    Except String PaymentResult × QietrSDK :=
  match preparePayment env config sdk.note recipient paymentMicro feePayer net with
  | .error e => (.error e, sdk)
  | .ok p =>
      match sendIxs submission with
      | .error e => (.error e, sdk)
      | .ok signature => finishPayment sdk p paymentMicro signature

end Qietr.Sdk
