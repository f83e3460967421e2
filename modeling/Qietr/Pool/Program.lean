import Qietr.Pool.Merkle

/-!
# Pool — the program

`lib.rs`: the eight instructions of `qietr_pool`.  Each is the function from the accounts it
is given, as they are, to the accounts it leaves; in Anchor's order: the accounts that must exist
are read, those to be created are created, the constraints are checked, and then the handler runs.

* `PoolEnv`: what the program is deployed with: the hash, the verifier of the embedded key, and its
  derived addresses.
* `PoolState`: the accounts.  A derived account is named by its seeds; a token account by its
  address.
* `deposit`, `withdraw` and the six others; `Call` and `exec`: any of them.
-/

namespace Qietr.Pool

open Outcome

abbrev PROOF_BYTES : ℕ := 256
abbrev PUBLIC_SIGNAL_COUNT : ℕ := 6
def PENDING_VK_LOCK_SLOTS : UInt64 := 432000

namespace Signal

/-! The places of the public signals that other modules name. -/

theorem amount_lt : 0 < PUBLIC_SIGNAL_COUNT := by decide
theorem root_lt : 1 < PUBLIC_SIGNAL_COUNT := by decide
theorem nullifierHash_lt : 2 < PUBLIC_SIGNAL_COUNT := by decide
theorem recipient_lt : 3 < PUBLIC_SIGNAL_COUNT := by decide
theorem payment_lt : 4 < PUBLIC_SIGNAL_COUNT := by decide
theorem change_lt : 5 < PUBLIC_SIGNAL_COUNT := by decide

end Signal

/-- The place of a key's first byte. -/
theorem firstByte_lt : 0 < 32 := by decide

/-- What the program is deployed with. -/
structure PoolEnv where
  poseidon : Poseidon
  /-- The Groth16 check against the embedded verifying key. -/
  groth16 : Bytes PROOF_BYTES → Vector Bytes32 PUBLIC_SIGNAL_COUNT → Bool
  embeddedVkHash : Bytes32
  address : PoolSeed → Pubkey
  bump : PoolSeed → UInt8
  /-- `get_associated_token_address(owner, mint)`. -/
  associatedTokenAddress : Pubkey → Pubkey → Pubkey

/-- The accounts of the program, and the token program's. -/
structure PoolState where
  config : Option PoolConfig
  denomination : UInt8 → Option Denomination
  tree : UInt8 → Option MerkleTree
  nullifier : UInt8 → Bytes32 → Option NullifierRecord
  ledger : Ledger

abbrev PoolError := ProgramError QietrError

variable (env : PoolEnv)

/-- The token account of a denomination. -/
def PoolEnv.vault (denomId : UInt8) : Pubkey :=
  env.address (.vault denomId)

/-- A key that signed a call into the pool. -/
abbrev PoolSigner := Signer env.address

/-! ### Helpers -/

/-- The program's own error. -/
def custom {α : Type} (x : Except QietrError α) : Except PoolError α :=
  x.mapError .custom

/-- `seeds = …, bump = stored`: the stored bump is the one that derives the account's address. -/
def checkSeeds (seed : PoolSeed) (stored : UInt8) : Except PoolError Unit :=
  require (stored = env.bump seed) (.anchor .constraintSeeds)

/-- A `u64` as a field element: the high 24 bytes are zero. -/
def fieldFromU64 (v : UInt64) : Bytes32 :=
  (Bytes.zero 24 ++ Bytes.ofNat 8 v.toNat : Bytes (24 + 8))

/-- A public key as a field element: its top three bits are cleared. -/
def pubkeyToField (pk : Pubkey) : Bytes32 :=
  pk.set 0 (getElem pk 0 firstByte_lt &&& 0x1f) firstByte_lt

/-- `verifier::verify`. -/
def verify (proof : Bytes PROOF_BYTES) (publicSignals : Vector Bytes32 PUBLIC_SIGNAL_COUNT) :
    Except QietrError Unit :=
  require (env.groth16 proof publicSignals = true) .invalidProof

/-- The payment, from the low eight bytes of its public signal. -/
def decodePayment (paymentAmountField : Bytes32) : Except QietrError UInt64 := do
  require (∀ i : Fin 24, paymentAmountField[i] = 0) .paymentAmountOverflow
  .ok (UInt64.ofNat (beNat (paymentAmountField.toList.drop 24)))

/-- The protocol's fee and what is left of the payment. -/
def feeSplit (paymentAmount : UInt64) (feeBps : UInt16) : Except QietrError (UInt64 × UInt64) := do
  let product ← okOr (checkedMul paymentAmount feeBps.toUInt64) .overflow
  let feeAmount ← okOr (checkedDiv product 10000) .overflow
  let amountAfterFee ← okOr (checkedSub paymentAmount feeAmount) .overflow
  .ok (feeAmount, amountAfterFee)

/-- `MerkleAppend::append` on the tree account; the root it returns is not used. -/
def appendTo (tree : MerkleTree) (leaf : Bytes32) : Except PoolError MerkleTree :=
  custom (finalState ((append env.poseidon leaf).run tree))

/-! ### Setting up -/

def initializePool (s : PoolState) (admin : PoolSigner env) (feeBps : UInt16) :
    Except PoolError PoolState := do
  vacant s.config
  require (feeBps ≤ 10000) (.custom .feeBpsTooHigh)
  .ok { s with
    config := some
      { admin := admin.key
        feeBps
        paused := false
        verifyingKeyHash := env.embeddedVkHash
        pendingVkHash := zero32
        pendingAppliesAtSlot := 0
        feeVault := Pubkey.default
        bump := env.bump .config } }

/-- `has_one = admin`. -/
def checkAdmin (config : PoolConfig) (admin : PoolSigner env) : Except PoolError Unit := do
  checkSeeds env .config config.bump
  require (config.admin = admin.key) (.custom .notAdmin)

def initializeDenomination (s : PoolState) (admin : PoolSigner env) (mint : Pubkey)
    (denomId : UInt8) (amountMicroUsdc : UInt64) : Except PoolError PoolState := do
  let config ← initialized s.config
  let _ ← initialized (s.ledger.supply mint)
  vacant (s.denomination denomId)
  vacant (s.tree denomId)
  vacant (s.ledger.account (env.vault denomId))
  checkAdmin env config admin
  let tree ← custom (initializeTree env.poseidon denomId (env.bump (.tree denomId)))
  .ok { s with
    denomination := Function.update s.denomination denomId <| some
      { denomId
        amountMicroUsdc
        depositCount := 0
        vault := env.vault denomId
        mint
        vaultBump := env.bump (.vault denomId)
        bump := env.bump (.denomination denomId) }
    tree := Function.update s.tree denomId (some tree)
    ledger := s.ledger.openAccount (env.vault denomId) mint (env.vault denomId) }

/-! ### Deposit -/

structure DepositAccounts where
  depositorAta : Pubkey
  depositor : PoolSigner env

def deposit (s : PoolState) (accounts : DepositAccounts env) (denomId : UInt8)
    (commitment : Bytes32) : Except PoolError PoolState := do
  let config ← initialized s.config
  let denomination ← initialized (s.denomination denomId)
  let tree ← initialized (s.tree denomId)
  let _ ← initialized (s.ledger.account (env.vault denomId))
  let depositorAta ← initialized (s.ledger.account accounts.depositorAta)
  checkSeeds env .config config.bump
  checkSeeds env (.denomination denomId) denomination.bump
  checkSeeds env (.tree denomId) tree.bump
  checkSeeds env (.vault denomId) denomination.vaultBump
  require (env.vault denomId = denomination.vault) (.custom .unknownDenomination)
  require (depositorAta.mint = denomination.mint) (.custom .unknownDenomination)
  require (depositorAta.owner = accounts.depositor.key) (.custom .unknownDenomination)
  require (config.paused = false) (.custom .paused)
  let ledger ← cpi (s.ledger.transfer accounts.depositorAta (env.vault denomId)
    accounts.depositor.key denomination.amountMicroUsdc)
  let tree ← appendTo env tree commitment
  let depositCount ← okOr (checkedAdd denomination.depositCount 1) (.custom .overflow)
  .ok { s with
    denomination := Function.update s.denomination denomId
      (some { denomination with depositCount })
    tree := Function.update s.tree denomId (some tree)
    ledger }

/-! ### Withdraw -/

structure WithdrawAccounts where
  recipientAta : Pubkey
  feeVault : Option Pubkey
  feePayer : PoolSigner env

/-- What a withdraw checks of its public signals: steps 1 to 6. -/
def checkSignals (config : PoolConfig) (denomination : Denomination) (tree : MerkleTree)
    (recipientKey : Pubkey) (recipientAta : TokenAccount) (nullifierHashArg : Bytes32)
    (proof : Bytes PROOF_BYTES) (publicSignals : Vector Bytes32 PUBLIC_SIGNAL_COUNT) :
    Except QietrError Unit := do
  require (nullifierHashArg = publicSignals[2]) .nullifierMismatch
  require (publicSignals[3] = pubkeyToField recipientAta.owner) .recipientMismatch
  require (env.associatedTokenAddress recipientAta.owner denomination.mint = recipientKey)
    .nonCanonicalAta
  require (tree.isKnownRoot publicSignals[1] = true) .staleRoot
  require (publicSignals[0] = fieldFromU64 denomination.amountMicroUsdc) .amountMismatch
  require (env.embeddedVkHash = config.verifyingKeyHash) .vkHashMismatch
  verify env proof publicSignals

/-- The payment leaves the vault: step 9. -/
def payOut (config : PoolConfig) (ledger : Ledger) (vault recipientAta : Pubkey)
    (feeVault : Option Pubkey) (paymentAmount : UInt64) : Except PoolError Ledger :=
  if config.feeVault ≠ Pubkey.default then do
    let (feeAmount, amountAfterFee) ← custom (feeSplit paymentAmount config.feeBps)
    let feeVault ← okOr feeVault (.custom .feeVaultNotSet)
    require (feeVault = config.feeVault) (.custom .feeVaultMismatch)
    let ledger ← cpi (ledger.transfer vault recipientAta vault amountAfterFee)
    cpi (ledger.transfer vault feeVault vault feeAmount)
  else cpi (ledger.transfer vault recipientAta vault paymentAmount)

/-- The optional fee vault account. -/
def loadFeeVault (s : PoolState) (feeVault : Option Pubkey) :
    Except PoolError (Option TokenAccount) :=
  match feeVault with
  | none => .ok none
  | some key => some <$> initialized (s.ledger.account key)

def withdraw (s : PoolState) (slot : UInt64) (accounts : WithdrawAccounts env) (denomId : UInt8)
    (nullifierHashArg : Bytes32) (proof : Bytes PROOF_BYTES)
    (publicSignals : Vector Bytes32 PUBLIC_SIGNAL_COUNT) : Except PoolError PoolState := do
  let config ← initialized s.config
  let denomination ← initialized (s.denomination denomId)
  let tree ← initialized (s.tree denomId)
  let _ ← initialized (s.ledger.account (env.vault denomId))
  let recipientAta ← initialized (s.ledger.account accounts.recipientAta)
  let feeVault ← loadFeeVault s accounts.feeVault
  vacant (s.nullifier denomId nullifierHashArg)
  checkSeeds env .config config.bump
  checkSeeds env (.denomination denomId) denomination.bump
  checkSeeds env (.tree denomId) tree.bump
  checkSeeds env (.vault denomId) denomination.vaultBump
  require (env.vault denomId = denomination.vault) (.custom .unknownDenomination)
  require (recipientAta.mint = denomination.mint) (.custom .unknownDenomination)
  require (∀ account ∈ feeVault, account.mint = denomination.mint) (.custom .feeVaultMismatch)
  require (config.paused = false) (.custom .paused)
  custom (checkSignals env config denomination tree accounts.recipientAta recipientAta
    nullifierHashArg proof publicSignals)
  let paymentAmount ← custom (decodePayment publicSignals[4])
  let ledger ← payOut config s.ledger (env.vault denomId) accounts.recipientAta accounts.feeVault
    paymentAmount
  let tree ← appendTo env tree publicSignals[5]
  .ok { s with
    tree := Function.update s.tree denomId (some tree)
    nullifier := Function.update s.nullifier denomId <|
      Function.update (s.nullifier denomId) nullifierHashArg <| some
        { denomId
          nullifierHash := publicSignals[2]
          spentAtSlot := slot
          bump := env.bump (.nullifier denomId nullifierHashArg) }
    ledger }

/-! ### Administration -/

def setPaused (s : PoolState) (admin : PoolSigner env) (paused : Bool) :
    Except PoolError PoolState := do
  let config ← initialized s.config
  checkAdmin env config admin
  .ok { s with config := some { config with paused } }

def queueVkUpgrade (s : PoolState) (slot : UInt64) (admin : PoolSigner env)
    (newVkHash : Bytes32) : Except PoolError PoolState := do
  let config ← initialized s.config
  checkAdmin env config admin
  let pendingAppliesAtSlot ← okOr (checkedAdd slot PENDING_VK_LOCK_SLOTS) (.custom .overflow)
  .ok { s with config := some { config with pendingVkHash := newVkHash, pendingAppliesAtSlot } }

def applyVkUpgrade (s : PoolState) (slot : UInt64) (admin : PoolSigner env) :
    Except PoolError PoolState := do
  let config ← initialized s.config
  checkAdmin env config admin
  require (config.pendingAppliesAtSlot ≠ 0) (.custom .noPendingUpgrade)
  require (config.pendingAppliesAtSlot ≤ slot) (.custom .vkUpgradeLocked)
  .ok { s with
    config := some { config with
      verifyingKeyHash := config.pendingVkHash
      pendingVkHash := zero32
      pendingAppliesAtSlot := 0 } }

def setFeeVault (s : PoolState) (admin : PoolSigner env) (feeVault : Pubkey) :
    Except PoolError PoolState := do
  let config ← initialized s.config
  let _ ← initialized (s.ledger.account feeVault)
  checkAdmin env config admin
  .ok { s with config := some { config with feeVault } }

/-! ### Any instruction -/

/-- An instruction with its accounts and arguments. -/
inductive Call where
  | initializePool (admin : PoolSigner env) (feeBps : UInt16)
  | initializeDenomination (admin : PoolSigner env) (mint : Pubkey) (denomId : UInt8)
      (amountMicroUsdc : UInt64)
  | deposit (accounts : DepositAccounts env) (denomId : UInt8) (commitment : Bytes32)
  | withdraw (accounts : WithdrawAccounts env) (denomId : UInt8) (nullifierHash : Bytes32)
      (proof : Bytes PROOF_BYTES) (publicSignals : Vector Bytes32 PUBLIC_SIGNAL_COUNT)
  | setPaused (admin : PoolSigner env) (paused : Bool)
  | queueVkUpgrade (admin : PoolSigner env) (newVkHash : Bytes32)
  | applyVkUpgrade (admin : PoolSigner env)
  | setFeeVault (admin : PoolSigner env) (feeVault : Pubkey)

/-- The instruction `c`, in the slot `slot`. -/
def exec (s : PoolState) (slot : UInt64) : Call env → Except PoolError PoolState
  | .initializePool admin feeBps => initializePool env s admin feeBps
  | .initializeDenomination admin mint denomId amount =>
      initializeDenomination env s admin mint denomId amount
  | .deposit accounts denomId commitment => deposit env s accounts denomId commitment
  | .withdraw accounts denomId nullifierHash proof publicSignals =>
      withdraw env s slot accounts denomId nullifierHash proof publicSignals
  | .setPaused admin paused => setPaused env s admin paused
  | .queueVkUpgrade admin newVkHash => queueVkUpgrade env s slot admin newVkHash
  | .applyVkUpgrade admin => applyVkUpgrade env s slot admin
  | .setFeeVault admin feeVault => setFeeVault env s admin feeVault

end Qietr.Pool
