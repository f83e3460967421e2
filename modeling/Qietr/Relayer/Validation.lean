import Qietr.Solana.Transaction

/-!
# Relayer — gasless deposits

`tx-validation.ts`, `routes/submit-deposit.ts` and `kora.ts`: what the relayer checks of a deposit
transaction before it adds its fee payer's signature and forwards it.

* `decodeAndValidateDeposit`: the checks, in order, with their errors.
* `submitDepositRoute`: the policy layer around them, and the transaction it forwards.
* `Validated`, `Forwarded`: what has then been checked of it; `exists_forwarded`.
-/

namespace Qietr.Relayer

open Outcome

/-- The first eight bytes of the SHA-256 of `global:deposit`. -/
def DEPOSIT_DISC : List UInt8 := [242, 35, 198, 137, 82, 225, 242, 182]

def SPL_TRANSFER_TAG : UInt8 := 3

structure ValidationError where
  code : String
  message : String
  deriving DecidableEq

/-- Its text has the code in front. -/
def ValidationError.new (code message : String) : ValidationError where
  code
  message := code ++ ": " ++ message

/-- What the relayer enforces on a gasless deposit. -/
structure DepositFeeExpectation where
  feeAta : Pubkey
  minFeeMicro : ℤ

structure ValidatedDepositTx {Seed : Type} (address : Seed → Pubkey) where
  tx : Transaction address
  denomId : UInt8
  depositor : Pubkey
  feeAmountMicro : ℕ
  feeDestination : Pubkey

/-- What of `@solana/web3.js` the relayer uses. -/
structure Web3 {Seed : Type} (address : Seed → Pubkey) where
  /-- `Transaction.from(Buffer.from(txBase64, "base64"))`. -/
  transactionFrom : String → Except String (Transaction address)
  toBase58 : Pubkey → String
  toHex : List UInt8 → String

variable {Seed : Type} {address : Seed → Pubkey}

def decodeSplTransferAmount (data : List UInt8) : Except ValidationError ℕ := do
  require (9 ≤ data.length)
    (.new "transfer_data_too_short" s!"expected >=9 bytes, got {data.length}")
  .ok (leNat ((data.drop 1).take 8))

/-- The economic check, when a fee is expected. -/
def checkFee (web3 : Web3 address) (fee : Option DepositFeeExpectation) (feeDestination : Pubkey)
    (feeAmountMicro : ℕ) : Except ValidationError Unit :=
  match fee with
  | none => .ok ()
  | some fee => do
      require (feeDestination = fee.feeAta)
        (.new "fee_to_wrong_destination" ("fee transfer destination " ++
          web3.toBase58 feeDestination ++ " is not the relayer fee ATA " ++
            web3.toBase58 fee.feeAta))
      require (fee.minFeeMicro ≤ feeAmountMicro)
        (.new "fee_too_low" s!"fee {feeAmountMicro} < minimum {fee.minFeeMicro}")

/-- The transfer and the deposit. -/
def twoInstructions (tx : Transaction address) :
    Except ValidationError (Instruction × Instruction) :=
  match tx.instructions with
  | [transferIx, depositIx] => .ok (transferIx, depositIx)
  | ixs => .error (.new "wrong_ix_count"
      s!"expected 2 instructions (transfer + deposit), got {ixs.length}")

def decodeAndValidateDeposit (web3 : Web3 address) (txBase64 : String) (programId : Pubkey)
    (expectedFeePayer : Pubkey) (fee : Option DepositFeeExpectation) :
    Except ValidationError (ValidatedDepositTx address) := do
  let tx ← (web3.transactionFrom txBase64).mapError (.new "invalid_tx")
  require (tx.feePayer = some expectedFeePayer)
    (.new "wrong_fee_payer" ("expected fee-payer " ++ web3.toBase58 expectedFeePayer ++ ", got " ++
      (tx.feePayer.map web3.toBase58).getD "none"))
  let (transferIx, depositIx) ← twoInstructions tx
  require (transferIx.programId = TOKEN_PROGRAM_ID)
    (.new "ix0_not_transfer" ("expected SPL Token program, got " ++
      web3.toBase58 transferIx.programId))
  require (transferIx.data.head? = some SPL_TRANSFER_TAG)
    (.new "ix0_not_transfer" ("expected Transfer tag (3), got " ++
      (transferIx.data.head?.map (toString ·.toNat)).getD "undefined"))
  let feeDestination ← okOr (transferIx.keys[1]?.map AccountMeta.pubkey)
    (.new "missing_fee_destination" "transfer account index 1 not present")
  let feeAmountMicro ← decodeSplTransferAmount transferIx.data
  checkFee web3 fee feeDestination feeAmountMicro
  require (depositIx.programId = programId)
    (.new "ix1_not_deposit" ("expected pool program " ++ web3.toBase58 programId ++ ", got " ++
      web3.toBase58 depositIx.programId))
  require (9 ≤ depositIx.data.length)
    (.new "deposit_data_too_short" s!"got {depositIx.data.length} bytes")
  require (depositIx.data.take 8 = DEPOSIT_DISC)
    (.new "wrong_deposit_discriminator" ("expected deposit (" ++ web3.toHex DEPOSIT_DISC ++
      "), got " ++ web3.toHex (depositIx.data.take 8)))
  let denomId := depositIx.data.getD 8 0
  -- config(0), denom(1), tree(2), vault(3), depositorAta(4), depositor(5), tokenProgram(6)
  let depositor ← okOr (depositIx.keys[5]?.map AccountMeta.pubkey)
    (.new "missing_depositor" "account index 5 not present")
  .ok { tx, denomId, depositor, feeAmountMicro, feeDestination }

/-! ### The route -/

structure RelayerConfig {Seed : Type} (address : Seed → Pubkey) where
  programId : Pubkey
  feePayer : Signer address
  feeAta : Option Pubkey
  feeAmountMicro : ℤ

/-- What a limiter or a guard decides. -/
structure Decision where
  allowed : Bool
  reason : Option String

structure SubmitDepositDeps {Seed : Type} (address : Seed → Pubkey) where
  config : RelayerConfig address
  web3 : Web3 address
  ipDecision : Decision
  replayGuard : String → Bool
  isBlocked : String → Bool
  spend : Decision

structure ErrorReply where
  code : ℕ
  error : String
  message : Option String

/-- `createDirectRpcClient.sendTransaction`: the transaction it submits. -/
def sendTransaction (web3 : Web3 address) (feePayer : Signer address) (txBase64 : String) :
    Except String (Transaction address) := do
  let tx ← web3.transactionFrom txBase64
  let tx := { tx with feePayer := some (tx.feePayer.getD feePayer.key) }
  .ok (tx.partialSign feePayer)

/-- `POST /submit-deposit`: the transaction that is forwarded. -/
def submitDepositRoute (deps : SubmitDepositDeps address) (body : Option String) :
    Except ErrorReply (Transaction address) := do
  require (deps.ipDecision.allowed = true)
    ⟨429, deps.ipDecision.reason.getD "rate_limited", none⟩
  let txBase64 := body.getD ""
  require (txBase64 ≠ "") ⟨400, "missing_param", none⟩
  require (deps.replayGuard txBase64 = true) ⟨409, "replayed_tx", none⟩
  let fee := deps.config.feeAta.map fun feeAta =>
    { feeAta, minFeeMicro := deps.config.feeAmountMicro : DepositFeeExpectation }
  let validated ← (decodeAndValidateDeposit deps.web3 txBase64 deps.config.programId
    deps.config.feePayer.key fee).mapError fun e => ⟨400, e.code, some e.message⟩
  require (deps.isBlocked (deps.web3.toBase58 validated.depositor) = false)
    ⟨403, "sanctioned_depositor", none⟩
  require (deps.spend.allowed = true) ⟨503, deps.spend.reason.getD "relayer_unavailable", none⟩
  (sendTransaction deps.web3 deps.config.feePayer txBase64).mapError fun message =>
    if 1 < (message.toLower.splitOn "rpc").length then ⟨502, "rpc_error", some message⟩
    else ⟨400, "submit_failed", some message⟩

/-! ### What has been checked -/

/-- What the route has checked of the transaction it forwards. -/
structure Forwarded (config : RelayerConfig address) (tx : Transaction address)
    (transferIx depositIx : Instruction) (destination : Pubkey) : Prop where
  instructions : tx.instructions = [transferIx, depositIx]
  transferProgram : transferIx.programId = TOKEN_PROGRAM_ID
  length : 9 ≤ transferIx.data.length
  destination_eq : transferIx.keys[1]?.map AccountMeta.pubkey = some destination
  fee : ∀ feeAta ∈ config.feeAta, destination = feeAta ∧
    config.feeAmountMicro ≤ leNat ((transferIx.data.drop 1).take 8)
  depositProgram : depositIx.programId = config.programId
  discriminator : depositIx.data.take 8 = DEPOSIT_DISC
  signed : config.feePayer ∈ tx.signatures

theorem mapError_eq_ok {ε ε' α : Type} {x : Except ε α} {f : ε → ε'} {a : α} :
    x.mapError f = .ok a ↔ x = .ok a := by
  cases x <;> simp [Except.mapError]

theorem checkFee_eq_ok {web3 : Web3 address} {fee : Option DepositFeeExpectation}
    {feeDestination : Pubkey} {feeAmountMicro : ℕ} {u : Unit} :
    checkFee web3 fee feeDestination feeAmountMicro = .ok u ↔
      ∀ f ∈ fee, feeDestination = f.feeAta ∧ f.minFeeMicro ≤ feeAmountMicro := by
  cases fee with
  | none => simp [checkFee]
  | some f => simp [checkFee, require_bind_eq_ok]

theorem twoInstructions_eq_ok {tx : Transaction address} {transferIx depositIx : Instruction} :
    twoInstructions tx = .ok (transferIx, depositIx) ↔
      tx.instructions = [transferIx, depositIx] := by
  unfold twoInstructions
  split <;> simp_all

/-- What the validator checks of a transaction, and what it reads from it. -/
structure Validated (programId expectedFeePayer : Pubkey) (fee : Option DepositFeeExpectation)
    (v : ValidatedDepositTx address) (transferIx depositIx : Instruction) : Prop where
  feePayer : v.tx.feePayer = some expectedFeePayer
  instructions : v.tx.instructions = [transferIx, depositIx]
  transferProgram : transferIx.programId = TOKEN_PROGRAM_ID
  tag : transferIx.data.head? = some SPL_TRANSFER_TAG
  feeDestination : transferIx.keys[1]?.map AccountMeta.pubkey = some v.feeDestination
  length : 9 ≤ transferIx.data.length
  feeAmountMicro : leNat ((transferIx.data.drop 1).take 8) = v.feeAmountMicro
  fee : ∀ f ∈ fee, v.feeDestination = f.feeAta ∧ f.minFeeMicro ≤ v.feeAmountMicro
  depositProgram : depositIx.programId = programId
  depositLength : 9 ≤ depositIx.data.length
  discriminator : depositIx.data.take 8 = DEPOSIT_DISC
  denomId : depositIx.data.getD 8 0 = v.denomId
  depositor : depositIx.keys[5]?.map AccountMeta.pubkey = some v.depositor

/-- **The validator accepts** exactly what passes its checks. -/
theorem decodeAndValidateDeposit_eq_ok {web3 : Web3 address} {txBase64 : String}
    {programId expectedFeePayer : Pubkey} {fee : Option DepositFeeExpectation}
    {v : ValidatedDepositTx address} :
    decodeAndValidateDeposit web3 txBase64 programId expectedFeePayer fee = .ok v ↔
      web3.transactionFrom txBase64 = .ok v.tx ∧ ∃ transferIx depositIx,
        Validated programId expectedFeePayer fee v transferIx depositIx := by
  simp only [decodeAndValidateDeposit, decodeSplTransferAmount, bind_eq_ok, require_eq_ok,
    okOr_eq_ok, checkFee_eq_ok, mapError_eq_ok, exists_and_left, exists_const, Except.ok.injEq,
    Prod.exists, twoInstructions_eq_ok]
  refine ⟨?_, ?_⟩
  · rintro ⟨tx, htx, hpayer, transferIx, depositIx, hixs, htoken, htag, destination, hdest, _,
      ⟨hlen, rfl⟩, hfee, hprogram, hlen', hdisc, depositor, hdepositor, rfl⟩
    exact ⟨htx, transferIx, depositIx,
      ⟨hpayer, hixs, htoken, htag, hdest, hlen, rfl, hfee, hprogram,
      hlen', hdisc, rfl, hdepositor⟩⟩
  · obtain ⟨tx, denomId, depositor, feeAmountMicro, feeDestination⟩ := v
    rintro ⟨htx, transferIx, depositIx, ⟨hpayer, hixs, htoken, htag, hdest, hlen, rfl, hfee,
      hprogram, hlen', hdisc, rfl, hdepositor⟩⟩
    exact ⟨tx, htx, hpayer, transferIx, depositIx, hixs, htoken, htag, feeDestination, hdest, _,
      ⟨hlen, rfl⟩, hfee, hprogram, hlen', hdisc, depositor, hdepositor, rfl⟩

/-- The fee the route expects. -/
def RelayerConfig.expectation (config : RelayerConfig address) : Option DepositFeeExpectation :=
  config.feeAta.map fun feeAta => { feeAta, minFeeMicro := config.feeAmountMicro }

/-- **The route forwards** exactly what the validator and the policy layer accept. -/
theorem submitDepositRoute_eq_ok {deps : SubmitDepositDeps address} {body : Option String}
    {tx : Transaction address} :
    submitDepositRoute deps body = .ok tx ↔
      deps.ipDecision.allowed = true ∧ body.getD "" ≠ "" ∧ deps.replayGuard (body.getD "") = true ∧
      deps.spend.allowed = true ∧ ∃ v : ValidatedDepositTx address,
        decodeAndValidateDeposit deps.web3 (body.getD "") deps.config.programId
          deps.config.feePayer.key deps.config.expectation = .ok v ∧
        deps.isBlocked (deps.web3.toBase58 v.depositor) = false ∧
        sendTransaction deps.web3 deps.config.feePayer (body.getD "") = .ok tx := by
  simp only [submitDepositRoute, bind_eq_ok, require_eq_ok, mapError_eq_ok,
    exists_and_left, exists_const]
  refine ⟨?_, ?_⟩
  · rintro ⟨hip, hbody, hadmit, v, hv, hblocked, hspend, hsend⟩
    exact ⟨hip, hbody, hadmit, hspend, v, hv, hblocked, hsend⟩
  · rintro ⟨hip, hbody, hadmit, hspend, v, hv, hblocked, hsend⟩
    exact ⟨hip, hbody, hadmit, v, hv, hblocked, hspend, hsend⟩

/-- **What has been checked of a forwarded transaction.** -/
theorem exists_forwarded {deps : SubmitDepositDeps address} {body : Option String}
    {tx : Transaction address} (h : submitDepositRoute deps body = .ok tx) :
    ∃ transferIx depositIx destination,
      Forwarded deps.config tx transferIx depositIx destination := by
  obtain ⟨-, -, -, -, v, hv, -, hsend⟩ := submitDepositRoute_eq_ok.mp h
  obtain ⟨htx, transferIx, depositIx, hv⟩ := decodeAndValidateDeposit_eq_ok.mp hv
  simp only [sendTransaction, htx, ok_bind, Except.ok.injEq] at hsend
  subst hsend
  refine ⟨transferIx, depositIx, v.feeDestination, hv.instructions, hv.transferProgram, hv.length,
    hv.feeDestination, fun feeAta hfeeAta => ?_, hv.depositProgram, hv.discriminator, ?_⟩
  · rw [hv.feeAmountMicro]
    exact hv.fee ⟨feeAta, deps.config.feeAmountMicro⟩ (Option.mem_map.mpr ⟨feeAta, hfeeAta, rfl⟩)
  · exact List.mem_append_right _ (List.mem_singleton_self _)

end Qietr.Relayer
