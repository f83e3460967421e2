import Qietr.Solana.Token

/-!
# Escrow — the program

`qietr_escrow`: a client's payment to an agent, held in a vault of its own until it is released or
refunded.  The accounts of an instruction are any addresses; the constraints decide.

* `Job`, `JobState`: the account of a job.
* `createJob` to `closeJob`: the eight instructions.
* `Call`, `exec`: any of them, at a clock.
-/

namespace Qietr.Escrow

open Outcome

/-! ### Accounts -/

inductive JobState where
  | created
  | accepted
  | completed
  | released
  | disputed
  | refunded
  deriving DecidableEq, Repr

structure Job where
  client : Pubkey
  agent : Pubkey
  nonce : Bytes 8
  priceMicro : UInt64
  createdAt : ℤ
  acceptedAt : ℤ
  completedAt : ℤ
  resolvedAt : ℤ
  state : JobState
  bump : UInt8
  escrowBump : UInt8
  deriving DecidableEq

inductive EscrowError where
  | invalidState
  | notAgent
  | notClient
  | priceMustBePositive
  | agentAtaMismatch
  | clientAtaMismatch
  | mintMismatch
  | acceptTimeoutNotElapsed
  | disputeTimeoutNotElapsed
  | overflow
  deriving DecidableEq, Repr

abbrev Error := ProgramError EscrowError

/-- `[b"job", client, nonce]` and `[b"escrow", client, nonce]`. -/
inductive EscrowSeed where
  | job (client : Pubkey) (nonce : Bytes 8)
  | escrow (client : Pubkey) (nonce : Bytes 8)
  deriving DecidableEq

/-- Seven days in seconds. -/
def DISPUTE_TIMEOUT_SECONDS : ℤ := 7 * 24 * 3600
def ACCEPT_TIMEOUT_SECONDS : ℤ := 7 * 24 * 3600

/-- Where the program is deployed. -/
structure EscrowEnv where
  /-- The address of the seeds with a bump. -/
  address : EscrowSeed × UInt8 → Pubkey
  /-- The bump that is found for the seeds. -/
  bump : EscrowSeed → UInt8

namespace EscrowEnv

variable (env : EscrowEnv)

/-- The address that is found for the seeds. -/
def pda (seed : EscrowSeed) : Pubkey :=
  env.address (seed, env.bump seed)

/-- The vault of a client's job. -/
def vault (client : Pubkey) (nonce : Bytes 8) : Pubkey :=
  env.pda (.escrow client nonce)

end EscrowEnv

/-- A key that signed, which is none of the program's addresses. -/
abbrev EscrowSigner (env : EscrowEnv) := Signer env.address

structure EscrowState where
  /-- The job accounts, by their address. -/
  job : Pubkey → Option Job
  ledger : Ledger

variable (env : EscrowEnv)

/-- `seeds = [..], bump = bump`. -/
def checkSeeds (key : Pubkey) (seed : EscrowSeed) (bump : UInt8) : Except Error Unit :=
  require (env.address (seed, bump) = key) (.anchor .constraintSeeds)

/-- The job at `key`, whose address has to come from its own client and nonce. -/
def loadJob (s : EscrowState) (key : Pubkey) : Except Error Job := do
  let job ← initialized (s.job key)
  checkSeeds env key (.job job.client job.nonce) job.bump
  .ok job

/-- The state with `job` at `key`. -/
def EscrowState.setJob (s : EscrowState) (key : Pubkey) (job : Job) : EscrowState :=
  { s with job := Function.update s.job key (some job) }

/-! ### Instructions -/

structure CreateJob where
  clientAta : Pubkey
  client : EscrowSigner env
  mint : Pubkey

/-- The account of a new job. -/
def newJob (now : ℤ) (client agent : Pubkey) (nonce : Bytes 8) (priceMicro : UInt64) : Job where
  client
  agent
  nonce
  priceMicro
  createdAt := now
  acceptedAt := 0
  completedAt := 0
  resolvedAt := 0
  state := .created
  bump := env.bump (.job client nonce)
  escrowBump := env.bump (.escrow client nonce)

def createJob (s : EscrowState) (now : ℤ) (accounts : CreateJob env) (agent : Pubkey)
    (nonce : Bytes 8) (priceMicro : UInt64) : Except Error EscrowState := do
  let client := accounts.client.key
  let key := env.pda (.job client nonce)
  let vault := env.vault client nonce
  let clientAta ← initialized (s.ledger.account accounts.clientAta)
  let _ ← initialized (s.ledger.supply accounts.mint)
  vacant (s.job key)
  vacant (s.ledger.account vault)
  require (clientAta.owner = client) (.custom .clientAtaMismatch)
  require (clientAta.mint = accounts.mint) (.custom .mintMismatch)
  require (0 < priceMicro) (.custom .priceMustBePositive)
  let ledger ← cpi ((s.ledger.openAccount vault accounts.mint vault).transfer accounts.clientAta
    vault client priceMicro)
  .ok { s.setJob key (newJob env now client agent nonce priceMicro) with ledger }

/-- The accounts of an instruction that its signer makes on a job. -/
structure JobCall where
  job : Pubkey
  caller : EscrowSigner env

/-- The job goes on to `next`, when it passes `check`. -/
def advance (s : EscrowState) (accounts : JobCall env) (check : Job → Except Error Unit)
    (next : Job → Job) : Except Error EscrowState := do
  let job ← loadJob env s accounts.job
  check job
  .ok (s.setJob accounts.job (next job))

def acceptJob (s : EscrowState) (now : ℤ) (accounts : JobCall env) : Except Error EscrowState :=
  advance env s accounts
    (fun job => do
      require (job.state = .created) (.custom .invalidState)
      require (accounts.caller.key = job.agent) (.custom .notAgent))
    fun job => { job with acceptedAt := now, state := .accepted }

def completeJob (s : EscrowState) (now : ℤ) (accounts : JobCall env) :
    Except Error EscrowState :=
  advance env s accounts
    (fun job => do
      require (accounts.caller.key = job.agent) (.anchor .constraintAddress)
      require (job.state = .accepted) (.custom .invalidState)
      require (accounts.caller.key = job.agent) (.custom .notAgent))
    fun job => { job with completedAt := now, state := .completed }

def disputeJob (s : EscrowState) (accounts : JobCall env) : Except Error EscrowState :=
  advance env s accounts
    (fun job => do
      require (job.state = .completed) (.custom .invalidState)
      require (accounts.caller.key = job.client) (.custom .notClient))
    fun job => { job with state := .disputed }

def closeJob (s : EscrowState) (accounts : JobCall env) : Except Error EscrowState := do
  let job ← loadJob env s accounts.job
  require (job.state = .released ∨ job.state = .refunded) (.custom .invalidState)
  .ok { s with job := Function.update s.job accounts.job none }

/-- The accounts of an instruction that settles a job. -/
structure SettleCall where
  job : Pubkey
  escrowVault : Pubkey
  /-- The agent's token account, or the client's. -/
  ata : Pubkey
  caller : EscrowSigner env

/-- The price goes to a token account of `party`, when the job passes `check`. -/
def settle (s : EscrowState) (accounts : SettleCall env) (party : Job → Pubkey)
    (mismatch : EscrowError) (check : Job → TokenAccount → Except Error Unit)
    (next : Job → Job) : Except Error EscrowState := do
  let job ← initialized (s.job accounts.job)
  let vault ← initialized (s.ledger.account accounts.escrowVault)
  let ata ← initialized (s.ledger.account accounts.ata)
  checkSeeds env accounts.job (.job job.client job.nonce) job.bump
  checkSeeds env accounts.escrowVault (.escrow job.client job.nonce) job.escrowBump
  require (ata.owner = party job) (.custom mismatch)
  require (ata.mint = vault.mint) (.custom .mintMismatch)
  check job ata
  -- the vault signs with its seeds
  let ledger ← cpi (s.ledger.transfer accounts.escrowVault accounts.ata
    (env.address (.escrow job.client job.nonce, job.escrowBump)) job.priceMicro)
  .ok { s.setJob accounts.job (next job) with ledger }

def checkRelease (caller : Pubkey) (job : Job) (agentAta : TokenAccount) : Except Error Unit := do
  require (job.state = .completed) (.custom .invalidState)
  require (caller = job.client) (.custom .notClient)
  require (agentAta.owner = job.agent) (.custom .agentAtaMismatch)

def releasePayment (s : EscrowState) (accounts : SettleCall env) : Except Error EscrowState :=
  settle env s accounts Job.agent .agentAtaMismatch (checkRelease accounts.caller.key)
    fun job => { job with state := .released }

def checkCancel (now : ℤ) (caller : Pubkey) (job : Job) : Except Error Unit := do
  require (caller = job.client) (.custom .notClient)
  match job.state with
  | .created => .ok ()
  | .accepted => do
      let deadline ← okOr (checkedAddI64 job.acceptedAt ACCEPT_TIMEOUT_SECONDS) (.custom .overflow)
      require (deadline ≤ now) (.custom .acceptTimeoutNotElapsed)
  | _ => .error (.custom .invalidState)

def cancelJob (s : EscrowState) (now : ℤ) (accounts : SettleCall env) :
    Except Error EscrowState :=
  settle env s accounts Job.client .clientAtaMismatch
    (fun job _ => checkCancel now accounts.caller.key job)
    fun job => { job with state := .refunded }

def checkResolve (now : ℤ) (job : Job) : Except Error Unit := do
  require (job.state = .disputed) (.custom .invalidState)
  let deadline ← okOr (checkedAddI64 job.completedAt DISPUTE_TIMEOUT_SECONDS) (.custom .overflow)
  require (deadline ≤ now) (.custom .disputeTimeoutNotElapsed)

def resolveDispute (s : EscrowState) (now : ℤ) (accounts : SettleCall env) :
    Except Error EscrowState :=
  settle env s accounts Job.client .clientAtaMismatch (fun job _ => checkResolve now job)
    fun job => { job with resolvedAt := now, state := .refunded }

/-! ### Any instruction -/

inductive Call where
  | createJob (accounts : CreateJob env) (agent : Pubkey) (nonce : Bytes 8) (priceMicro : UInt64)
  | acceptJob (accounts : JobCall env)
  | completeJob (accounts : JobCall env)
  | releasePayment (accounts : SettleCall env)
  | disputeJob (accounts : JobCall env)
  | cancelJob (accounts : SettleCall env)
  | resolveDispute (accounts : SettleCall env)
  | closeJob (accounts : JobCall env)

/-- The instruction, at the clock `now`. -/
def exec (s : EscrowState) (now : ℤ) : Call env → Except Error EscrowState
  | .createJob accounts agent nonce priceMicro =>
      createJob env s now accounts agent nonce priceMicro
  | .acceptJob accounts => acceptJob env s now accounts
  | .completeJob accounts => completeJob env s now accounts
  | .releasePayment accounts => releasePayment env s accounts
  | .disputeJob accounts => disputeJob env s accounts
  | .cancelJob accounts => cancelJob env s now accounts
  | .resolveDispute accounts => resolveDispute env s now accounts
  | .closeJob accounts => closeJob env s accounts

end Qietr.Escrow
