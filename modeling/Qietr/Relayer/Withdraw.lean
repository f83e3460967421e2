import Qietr.Relayer.Validation

/-!
# Relayer — withdraws

`tx-validation.ts` and `routes/submit.ts`: what the relayer checks of a withdraw transaction, and of
the owner of the account it pays, before it forwards it.

* `decodeAndValidateWithdraw`: the checks of the transaction, in order, with their errors.
* `decodeAtaOwner`: the owner, from the account's data.
* `submitRoute`: the policy layer, and the transaction it forwards; `submitRoute_eq_ok`.
-/

namespace Qietr.Relayer

open Outcome

/-- The first eight bytes of the SHA-256 of `global:withdraw`. -/
def WITHDRAW_DISC : List UInt8 := [183, 18, 70, 156, 148, 109, 161, 34]

def WITHDRAW_RECIPIENT_ATA_INDEX : ℕ := 5

structure ValidatedWithdrawTx {Seed : Type} (address : Seed → Pubkey) where
  tx : Transaction address
  recipientAta : Pubkey
  denomId : UInt8

variable {Seed : Type} {address : Seed → Pubkey}

/-- The only instruction. -/
def oneInstruction (tx : Transaction address) : Except ValidationError Instruction :=
  match tx.instructions with
  | [ix] => .ok ix
  | ixs => .error (.new "wrong_ix_count" s!"expected 1 instruction, got {ixs.length}")

def decodeAndValidateWithdraw (web3 : Web3 address) (txBase64 : String) (programId : Pubkey)
    (expectedFeePayer : Pubkey) : Except ValidationError (ValidatedWithdrawTx address) := do
  let tx ← (web3.transactionFrom txBase64).mapError (.new "invalid_tx")
  require (tx.feePayer = some expectedFeePayer)
    (.new "wrong_fee_payer" ("expected fee-payer " ++ web3.toBase58 expectedFeePayer ++ ", got " ++
      (tx.feePayer.map web3.toBase58).getD "none"))
  let ix ← oneInstruction tx
  require (ix.programId = programId)
    (.new "wrong_program_id" ("expected " ++ web3.toBase58 programId ++ ", got " ++
      web3.toBase58 ix.programId))
  require (9 ≤ ix.data.length) (.new "ix_data_too_short" s!"got {ix.data.length} bytes")
  require (ix.data.take 8 = WITHDRAW_DISC)
    (.new "wrong_discriminator" ("expected withdraw (" ++ web3.toHex WITHDRAW_DISC ++ "), got " ++
      web3.toHex (ix.data.take 8)))
  let denomId := ix.data.getD 8 0
  let recipientAta ← okOr (ix.account? WITHDRAW_RECIPIENT_ATA_INDEX)
    (.new "missing_recipient_ata" s!"account index {WITHDRAW_RECIPIENT_ATA_INDEX} not present")
  .ok { tx, recipientAta, denomId }

/-- SPL token layout: mint, owner, amount. -/
def decodeAtaOwner (accountData : List UInt8) : Except ValidationError Pubkey := do
  require (64 ≤ accountData.length)
    (.new "ata_data_too_short" s!"expected >=64 bytes, got {accountData.length}")
  .ok (Bytes.ofNat 32 (beNat ((accountData.drop 32).take 32)))

/-! ### The route -/

structure SubmitDeps {Seed : Type} (address : Seed → Pubkey) where
  config : RelayerConfig address
  /-- The denominations of `config.denomTiers`. -/
  denomTiers : List UInt8
  web3 : Web3 address
  ipDecision : Decision
  replayGuard : String → Bool
  /-- `connection.getAccountInfo`: the data of an account. -/
  getAccountInfo : Pubkey → Option (List UInt8)
  isBlocked : String → Bool
  /-- What the recipient's limiter decides, of each owner. -/
  recipientDecision : String → Decision
  spend : Decision

/-- `POST /submit`: the transaction that is forwarded. -/
def submitRoute (deps : SubmitDeps address) (body : Option String) :
    Except ErrorReply (Transaction address) := do
  require (deps.ipDecision.allowed = true)
    ⟨429, deps.ipDecision.reason.getD "rate_limited", none⟩
  let txBase64 := body.getD ""
  require (txBase64 ≠ "") ⟨400, "missing_param", none⟩
  require (deps.replayGuard txBase64 = true) ⟨409, "replayed_tx", none⟩
  let validated ← (decodeAndValidateWithdraw deps.web3 txBase64 deps.config.programId
    deps.config.feePayer.key).mapError fun e => ⟨400, e.code, some e.message⟩
  require (validated.denomId ∈ deps.denomTiers) ⟨400, "unknown_denom_id", none⟩
  let ataInfo ← okOr (deps.getAccountInfo validated.recipientAta)
    ⟨400, "recipient_ata_not_found", none⟩
  let ownerPubkey ← (decodeAtaOwner ataInfo).mapError fun e => ⟨400, e.code, some e.message⟩
  let ownerBase58 := deps.web3.toBase58 ownerPubkey
  require (deps.isBlocked ownerBase58 = false) ⟨403, "sanctioned_recipient", none⟩
  let recipientDecision := deps.recipientDecision ownerBase58
  require (recipientDecision.allowed = true)
    ⟨429, recipientDecision.reason.getD "rate_limited_recipient", none⟩
  require (deps.spend.allowed = true) ⟨503, deps.spend.reason.getD "relayer_unavailable", none⟩
  (sendTransaction deps.web3 deps.config.feePayer txBase64).mapError fun message =>
    if 1 < (message.toLower.splitOn "rpc").length then ⟨502, "rpc_error", some message⟩
    else ⟨400, "submit_failed", some message⟩

/-! ### What has been checked -/

theorem oneInstruction_eq_ok {tx : Transaction address} {ix : Instruction} :
    oneInstruction tx = .ok ix ↔ tx.instructions = [ix] := by
  unfold oneInstruction
  split <;> simp_all

/-- What the validator checks of a withdraw transaction, and what it reads from it. -/
structure ValidWithdraw (programId expectedFeePayer : Pubkey) (v : ValidatedWithdrawTx address)
    (ix : Instruction) : Prop where
  feePayer : v.tx.feePayer = some expectedFeePayer
  instructions : v.tx.instructions = [ix]
  program : ix.programId = programId
  length : 9 ≤ ix.data.length
  discriminator : ix.data.take 8 = WITHDRAW_DISC
  denomId : ix.data.getD 8 0 = v.denomId
  recipientAta : ix.account? WITHDRAW_RECIPIENT_ATA_INDEX = some v.recipientAta

/-- **The validator accepts** exactly what passes its checks. -/
theorem decodeAndValidateWithdraw_eq_ok {web3 : Web3 address} {txBase64 : String}
    {programId expectedFeePayer : Pubkey} {v : ValidatedWithdrawTx address} :
    decodeAndValidateWithdraw web3 txBase64 programId expectedFeePayer = .ok v ↔
      web3.transactionFrom txBase64 = .ok v.tx ∧
        ∃ ix, ValidWithdraw programId expectedFeePayer v ix := by
  simp only [decodeAndValidateWithdraw, bind_eq_ok, require_eq_ok, okOr_eq_ok, mapError_eq_ok,
    exists_and_left, exists_const, Except.ok.injEq, oneInstruction_eq_ok]
  refine ⟨?_, ?_⟩
  · rintro ⟨tx, htx, hpayer, ix, hixs, hprogram, hlen, hdisc, recipientAta, hata, rfl⟩
    exact ⟨htx, ix, hpayer, hixs, hprogram, hlen, hdisc, rfl, hata⟩
  · obtain ⟨tx, recipientAta, denomId⟩ := v
    rintro ⟨htx, ix, hpayer, hixs, hprogram, hlen, hdisc, rfl, hata⟩
    exact ⟨tx, htx, hpayer, ix, hixs, hprogram, hlen, hdisc, recipientAta, hata, rfl⟩

theorem decodeAtaOwner_eq_ok {accountData : List UInt8} {owner : Pubkey} :
    decodeAtaOwner accountData = .ok owner ↔ 64 ≤ accountData.length ∧
      Bytes.ofNat 32 (beNat ((accountData.drop 32).take 32)) = owner := by
  simp only [decodeAtaOwner, bind_eq_ok, require_eq_ok, exists_const, Except.ok.injEq]

/-- **The route forwards** exactly what the validator and the policy layer accept. -/
theorem submitRoute_eq_ok {deps : SubmitDeps address} {body : Option String}
    {tx : Transaction address} :
    submitRoute deps body = .ok tx ↔
      deps.ipDecision.allowed = true ∧ body.getD "" ≠ "" ∧ deps.replayGuard (body.getD "") = true ∧
      deps.spend.allowed = true ∧
      sendTransaction deps.web3 deps.config.feePayer (body.getD "") = .ok tx ∧
      ∃ (v : ValidatedWithdrawTx address) (data : List UInt8) (owner : Pubkey),
        decodeAndValidateWithdraw deps.web3 (body.getD "") deps.config.programId
          deps.config.feePayer.key = .ok v ∧
        v.denomId ∈ deps.denomTiers ∧ deps.getAccountInfo v.recipientAta = some data ∧
        decodeAtaOwner data = .ok owner ∧ deps.isBlocked (deps.web3.toBase58 owner) = false ∧
        (deps.recipientDecision (deps.web3.toBase58 owner)).allowed = true := by
  simp only [submitRoute, bind_eq_ok, require_eq_ok, mapError_eq_ok, okOr_eq_ok, exists_and_left,
    exists_const]
  refine ⟨?_, ?_⟩
  · rintro ⟨hip, hbody, hadmit, v, hv, htier, data, hdata, owner, howner, hblocked, hrate, hspend,
      hsend⟩
    exact ⟨hip, hbody, hadmit, hspend, hsend, v, hv, htier, data, hdata, owner, howner, hblocked,
      hrate⟩
  · rintro ⟨hip, hbody, hadmit, hspend, hsend, v, hv, htier, data, hdata, owner, howner, hblocked,
      hrate⟩
    exact ⟨hip, hbody, hadmit, v, hv, htier, data, hdata, owner, howner, hblocked, hrate, hspend,
      hsend⟩

end Qietr.Relayer
