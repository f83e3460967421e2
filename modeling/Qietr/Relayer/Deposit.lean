import Qietr.Pool.Deployment
import Qietr.Relayer.Validation
import Qietr.Sdk.Program

/-!
# Relayer — what a forwarded deposit costs it

The relayer's signature is good for every account of the transaction that names its key.  It looks
at the destination and the amount of the transfer, and at none of the accounts the tokens come from.

* `execute`: the transaction on chain.
* `depositTx?`: its accounts; `Executed`: what a successful one has done.
* `Safe`: what the relayer is promised; `Harmless`: the transactions that keep it.
* `relayer_safe_iff`: no others do.
* `relayer_drained`: one that passes every check and takes the relayer's tokens.
-/

namespace Qietr.Relayer

open Outcome Pool
open Sdk (buildDepositIx QIETR_POOL_PROGRAM_ID)

variable {env : PoolEnv}

/-! ### On chain -/

/-- The pool's `deposit`, from the accounts and the data of an instruction. -/
def poolDeposit (env : PoolEnv) (s : PoolState) (tx : Transaction env.address) (ix : Instruction) :
    Except PoolError PoolState := do
  require (ix.data.take 8 = DEPOSIT_DISC) (.anchor .instructionFallbackNotFound)
  require (41 ≤ ix.data.length) (.anchor .instructionDidNotDeserialize)
  let denomId := ix.data.getD 8 0
  let commitment := Bytes.ofNat 32 (beNat ((ix.data.drop 9).take 32))
  let config ← accountKey ix 0
  require (config = env.address .config) (.anchor .constraintSeeds)
  let denomination ← accountKey ix 1
  require (denomination = env.address (.denomination denomId)) (.anchor .constraintSeeds)
  let tree ← accountKey ix 2
  require (tree = env.address (.tree denomId)) (.anchor .constraintSeeds)
  let vault ← accountKey ix 3
  require (vault = env.vault denomId) (.anchor .constraintSeeds)
  let depositorAta ← accountKey ix 4
  let key ← accountKey ix 5
  let depositor ← okOr (tx.signer? key) (.anchor .accountNotSigner)
  let tokenProgram ← accountKey ix 6
  require (tokenProgram = TOKEN_PROGRAM_ID) (.anchor .invalidProgramId)
  deposit env s { depositorAta, depositor } denomId commitment

/-- One instruction: the token program's or the pool's. -/
def execInstruction (env : PoolEnv) (programId : Pubkey) (tx : Transaction env.address)
    (s : PoolState) (ix : Instruction) : Except PoolError PoolState :=
  if ix.programId = TOKEN_PROGRAM_ID then do
    let ledger ← cpi (splTransfer s.ledger tx ix)
    .ok { s with ledger }
  else if ix.programId = programId then poolDeposit env s tx ix
  else .error (.anchor .invalidProgramId)

/-- The transaction: all of its instructions, or none. -/
def execute (env : PoolEnv) (programId : Pubkey) (s : PoolState) (tx : Transaction env.address) :
    Except PoolError PoolState := do
  require tx.Signed (.anchor .accountNotSigner)
  tx.instructions.foldlM (execInstruction env programId tx) s

/-- The state a transaction leaves: one that fails is rolled back. -/
def settle (s : PoolState) : Except PoolError PoolState → PoolState
  | .ok s' => s'
  | .error _ => s

/-! ### The accounts of a deposit transaction -/

/-- What the two instructions name. -/
structure DepositTx where
  source : Pubkey
  destination : Pubkey
  authority : Pubkey
  amount : UInt64
  denomId : UInt8
  depositorAta : Pubkey
  depositor : Pubkey

/-- The accounts and the amount of a transfer and a deposit. -/
def depositTx? (tx : Transaction env.address) : Option DepositTx :=
  match tx.instructions with
  | [transferIx, depositIx] => do
      let source ← transferIx.account? 0
      let destination ← transferIx.account? 1
      let authority ← transferIx.account? 2
      let depositorAta ← depositIx.account? 4
      let depositor ← depositIx.account? 5
      some
        { source, destination, authority
          amount := UInt64.ofNat (leNat ((transferIx.data.drop 1).take 8))
          denomId := depositIx.data.getD 8 0
          depositorAta, depositor }
  | _ => none

/-- What a successful deposit transaction has done: two transfers. -/
structure Executed (env : PoolEnv) (p : DepositTx) (denomination : Denomination)
    (l l₁ l' : Ledger) : Prop where
  transfer : l.Transferable p.source p.destination p.authority p.amount
  moved : Ledger.Moved l l₁ p.source p.destination p.amount
  deposit : l₁.Transferable p.depositorAta (env.vault p.denomId) p.depositor
    denomination.amountMicroUsdc
  moved' : Ledger.Moved l₁ l' p.depositorAta (env.vault p.denomId) denomination.amountMicroUsdc
  not_derived : ∀ seed, env.address seed ≠ p.depositor

theorem splTransfer_eq_ok {l l' : Ledger} {tx : Transaction env.address} {ix : Instruction} :
    splTransfer l tx ix = .ok l' ↔
      ix.data.head? = some 3 ∧ 9 ≤ ix.data.length ∧ ∃ source destination authority,
        ix.account? 0 = some source ∧ ix.account? 1 = some destination ∧
        ix.account? 2 = some authority ∧ (tx.signer? authority).isSome = true ∧
        l.transfer source destination authority
          (UInt64.ofNat (leNat ((ix.data.drop 1).take 8))) = .ok l' := by
  simp only [splTransfer, bind_eq_ok, require_eq_ok, okOr_eq_ok, exists_and_left, exists_const,
    Except.ok.injEq, and_assoc]
  refine ⟨?_, ?_⟩
  · rintro ⟨htag, hlen, source, hs, destination, hd, authority, ha, l₁, hl, hsig, rfl⟩
    exact ⟨htag, hlen, source, hs, destination, hd, authority, ha, hsig, hl⟩
  · rintro ⟨htag, hlen, source, hs, destination, hd, authority, ha, hsig, hl⟩
    exact ⟨htag, hlen, source, hs, destination, hd, authority, ha, l', hl, hsig, rfl⟩

theorem poolDeposit_eq_ok {s s' : PoolState} {tx : Transaction env.address} {ix : Instruction} :
    poolDeposit env s tx ix = .ok s' ↔
      ix.data.take 8 = DEPOSIT_DISC ∧ 41 ≤ ix.data.length ∧
      ix.account? 0 = some (env.address .config) ∧
      ix.account? 1 = some (env.address (.denomination (ix.data.getD 8 0))) ∧
      ix.account? 2 = some (env.address (.tree (ix.data.getD 8 0))) ∧
      ix.account? 3 = some (env.vault (ix.data.getD 8 0)) ∧
      ∃ depositorAta key depositor, ix.account? 4 = some depositorAta ∧
        ix.account? 5 = some key ∧ tx.signer? key = some depositor ∧
        ix.account? 6 = some TOKEN_PROGRAM_ID ∧
        deposit env s { depositorAta, depositor } (ix.data.getD 8 0)
          (Bytes.ofNat 32 (beNat ((ix.data.drop 9).take 32))) = .ok s' := by
  simp only [poolDeposit, bind_eq_ok, require_eq_ok, okOr_eq_ok, accountKey_eq_ok, exists_and_left,
    exists_const]
  refine ⟨?_, ?_⟩
  · rintro ⟨hdisc, hlen, _, h₀, rfl, _, h₁, rfl, _, h₂, rfl, _, h₃, rfl, ata, h₄, key, h₅,
      depositor, hsigned, _, h₆, rfl, h⟩
    exact ⟨hdisc, hlen, h₀, h₁, h₂, h₃, ata, h₄, key, h₅, depositor, hsigned, h₆, h⟩
  · rintro ⟨hdisc, hlen, h₀, h₁, h₂, h₃, ata, h₄, key, h₅, depositor, hsigned, h₆, h⟩
    exact ⟨hdisc, hlen, _, h₀, rfl, _, h₁, rfl, _, h₂, rfl, _, h₃, rfl, ata, h₄, key, h₅,
      depositor, hsigned, _, h₆, rfl, h⟩

theorem execInstruction_transfer {programId : Pubkey} {s : PoolState} {l : Ledger}
    {tx : Transaction env.address} {ix : Instruction} (hprogram : ix.programId = TOKEN_PROGRAM_ID)
    (h : splTransfer s.ledger tx ix = .ok l) :
    execInstruction env programId tx s ix = .ok { s with ledger := l } := by
  rw [execInstruction, if_pos hprogram, h]
  rfl

theorem execInstruction_deposit {programId : Pubkey} {s s' : PoolState}
    {tx : Transaction env.address} {ix : Instruction} (hne : ix.programId ≠ TOKEN_PROGRAM_ID)
    (hprogram : ix.programId = programId) (h : poolDeposit env s tx ix = .ok s') :
    execInstruction env programId tx s ix = .ok s' := by
  rw [execInstruction, if_neg hne, if_pos hprogram, h]

/-- **A forwarded transaction that succeeds** has made its two transfers. -/
theorem executed_of_forwarded {config : RelayerConfig env.address} {tx : Transaction env.address}
    {transferIx depositIx : Instruction} {destination : Pubkey}
    (hf : Forwarded config tx transferIx depositIx destination) {s s' : PoolState}
    (h : execute env config.programId s tx = .ok s') :
    ∃ p denomination l₁, depositTx? tx = some p ∧ p.destination = destination ∧
      s.denomination p.denomId = some denomination ∧
      Executed env p denomination s.ledger l₁ s'.ledger := by
  simp only [execute, hf.instructions, List.foldlM_cons, List.foldlM_nil, bind_eq_ok, require_eq_ok,
    exists_and_left, exists_const] at h
  obtain ⟨-, s₁, h₁, s₂, h₂, h₃⟩ := h
  obtain rfl : s₂ = s' := Except.ok.inj h₃
  rw [execInstruction, if_pos hf.transferProgram] at h₁
  simp only [bind_eq_ok, cpi_eq_ok, Except.ok.injEq] at h₁
  obtain ⟨l₁, hl₁, rfl⟩ := h₁
  obtain ⟨-, -, source, destination', authority, hsrc, hdst, hauth, -, htransfer⟩ :=
    splTransfer_eq_ok.mp hl₁
  -- the second instruction is no transfer: it starts with the discriminator
  have hpool : ¬ depositIx.programId = TOKEN_PROGRAM_ID := by
    intro e
    rw [execInstruction, if_pos e] at h₂
    simp only [bind_eq_ok, cpi_eq_ok] at h₂
    obtain ⟨l₂, hl₂, -⟩ := h₂
    have htag := (splTransfer_eq_ok.mp hl₂).1
    have hhead := congrArg List.head? hf.discriminator
    rw [List.head?_take, if_neg (by decide), htag] at hhead
    cases hhead
  rw [execInstruction, if_neg hpool, if_pos hf.depositProgram] at h₂
  obtain ⟨-, -, -, -, -, -, depositorAta, key, depositor, hata, hkey, hsigned, -, hdep⟩ :=
    poolDeposit_eq_ok.mp h₂
  rw [← Transaction.signer?_key hsigned] at hkey
  obtain ⟨_, denomination, _, _, ledger, _, _, hok, rfl⟩ := deposit_eq_ok.mp hdep
  obtain ⟨ht, rfl⟩ := Ledger.transfer_eq_ok.mp htransfer
  obtain ⟨ht', rfl⟩ := Ledger.transfer_eq_ok.mp hok.transfer
  have hdest : destination' = destination := Option.some.inj (hdst.symm.trans hf.destination_eq)
  let p : DepositTx :=
    { source, destination := destination', authority
      amount := UInt64.ofNat (leNat ((transferIx.data.drop 1).take 8))
      denomId := depositIx.data.getD 8 0
      depositorAta
      depositor := depositor.key }
  have hp : depositTx? tx = some p := by
    simp only [depositTx?, hf.instructions, hsrc, hdst, hauth, hata, hkey]
    rfl
  exact ⟨p, denomination, _, hp, hdest, hok.denomination_eq,
    ht, ht.moved, ht', ht'.moved, depositor.not_derived⟩

/-! ### What the relayer is promised -/

/-- No account that `owner` owns loses tokens. -/
def NeverPays (owner : Pubkey) (l l' : Ledger) : Prop :=
  ∀ k a, l.account k = some a → a.owner = owner → l.balance k ≤ l'.balance k

/-- The fee account, where there is one, has its fee. -/
def FeePaid (config : RelayerConfig env.address) (l l' : Ledger) : Prop :=
  ∀ feeAta ∈ config.feeAta, (l.balance feeAta : ℤ) + config.feeAmountMicro ≤ l'.balance feeAta

/-- The promise, of a transaction with the result `r`. -/
structure Safe (config : RelayerConfig env.address) (s : PoolState)
    (r : Except PoolError PoolState) : Prop where
  neverPays : NeverPays config.feePayer.key s.ledger (settle s r).ledger
  feePaid : ∀ s', r = .ok s' → FeePaid config s.ledger s'.ledger

/-- The transaction takes nothing from the relayer: not as the authority of the transfer, not as the
depositor, and not by letting the fee be the deposit. -/
structure Harmless (config : RelayerConfig env.address) (p : DepositTx) (vault : Pubkey)
    (amountMicroUsdc : UInt64) : Prop where
  authority : p.authority = config.feePayer.key → p.source = p.destination ∨ p.amount = 0
  depositor : p.depositor = config.feePayer.key → amountMicroUsdc.toNat ≤
    if p.depositorAta = p.destination ∧ p.source ≠ p.destination then p.amount.toNat else 0
  fee : config.feeAta.isSome = true → config.feeAmountMicro +
      (if p.destination = p.depositorAta then amountMicroUsdc.toNat else 0 : ℕ) ≤
    (if p.source ≠ p.destination then p.amount.toNat else 0 : ℕ) +
      (if p.destination = vault then amountMicroUsdc.toNat else 0 : ℕ)

section Executed

variable {p : DepositTx} {denomination : Denomination} {l l₁ l' : Ledger}

/-- The owner of the source is the authority of the transfer. -/
theorem Executed.source_owner (h : Executed env p denomination l l₁ l') :
    ∃ a, l.account p.source = some a ∧ a.owner = p.authority := by
  obtain ⟨a, -, ha, -, -, -, ho⟩ := h.transfer
  exact ⟨a, ha, ho⟩

/-- The owner of the depositor's account is the depositor. -/
theorem Executed.ata_owner (h : Executed env p denomination l l₁ l') :
    ∃ a, l.account p.depositorAta = some a ∧ a.owner = p.depositor := by
  obtain ⟨a, -, ha, -, -, -, ho⟩ := h.deposit
  have hkeeps := h.moved.keeps p.depositorAta
  rw [ha] at hkeeps
  obtain ⟨a', ha', e⟩ := Option.map_eq_some_iff.mp hkeeps.symm
  exact ⟨a', ha', (Prod.mk.inj e).2.trans ho⟩

/-- A deposit does not come out of the vault, which the program owns. -/
theorem Executed.ata_ne (h : Executed env p denomination l l₁ l')
    (hv : ∃ v, l.account (env.vault p.denomId) = some v ∧ v.owner = env.vault p.denomId) :
    p.depositorAta ≠ env.vault p.denomId := by
  intro e
  obtain ⟨v, hv, hvo⟩ := hv
  obtain ⟨a, ha, ho⟩ := h.ata_owner
  rw [e, hv] at ha
  cases ha
  exact h.not_derived (.vault p.denomId) (hvo.symm.trans ho)

/-- **The balance of every account** after both transfers. -/
theorem Executed.balance_add (h : Executed env p denomination l l₁ l')
    (hne : p.depositorAta ≠ env.vault p.denomId) (k : Pubkey) :
    l'.balance k + (if k = p.source ∧ p.source ≠ p.destination then p.amount.toNat else 0) +
        (if k = p.depositorAta then denomination.amountMicroUsdc.toNat else 0) =
      l.balance k + (if k = p.destination ∧ p.source ≠ p.destination then p.amount.toNat else 0) +
        (if k = env.vault p.denomId then denomination.amountMicroUsdc.toNat else 0) := by
  have h₁ := h.moved.balance_add k
  have h₂ := h.moved'.balance_add k
  simp only [hne, ne_eq, not_false_eq_true, and_true] at h₂
  omega

/-- **The relayer is safe** exactly from the harmless transactions. -/
theorem Executed.safe_iff (h : Executed env p denomination l l₁ l')
    (config : RelayerConfig env.address)
    (hv : ∃ v, l.account (env.vault p.denomId) = some v ∧ v.owner = env.vault p.denomId)
    (hfee : ∀ feeAta ∈ config.feeAta, p.destination = feeAta) :
    NeverPays config.feePayer.key l l' ∧ FeePaid config l l' ↔
      Harmless config p (env.vault p.denomId) denomination.amountMicroUsdc := by
  have hne := h.ata_ne hv
  have hbal := h.balance_add hne
  obtain ⟨a, ha, hao⟩ := h.source_owner
  obtain ⟨b, hb, hbo⟩ := h.ata_owner
  -- the vault is not the relayer's
  have hvault : ∀ k c, l.account k = some c → c.owner = config.feePayer.key →
      k ≠ env.vault p.denomId := by
    rintro _ c hc hco rfl
    obtain ⟨v, hv, hvo⟩ := hv
    rw [hv] at hc
    cases hc
    exact config.feePayer.not_derived (.vault p.denomId) (hvo.symm.trans hco)
  have hdest := hbal p.destination
  rw [if_neg fun hc => hc.2 hc.1.symm] at hdest
  simp only [true_and, Nat.add_zero] at hdest
  refine ⟨?_, ?_⟩
  · rintro ⟨hpays, hpaid⟩
    refine ⟨fun e => ?_, fun e => ?_, fun hsome => ?_⟩
    · have hk := hpays _ a ha (hao.trans e)
      have hsrc := hbal p.source
      by_contra hcon
      obtain ⟨hsd, hamount⟩ := not_or.mp hcon
      have hpos : p.amount.toNat ≠ 0 := fun h0 => hamount (UInt64.toNat_inj.mp h0)
      rw [if_pos ⟨rfl, hsd⟩, if_neg fun hc : _ ∧ _ => hsd hc.1,
        if_neg (hvault _ a ha (hao.trans e))] at hsrc
      omega
    · have hk := hpays _ b hb (hbo.trans e)
      have hata := hbal p.depositorAta
      rw [if_pos rfl, if_neg (hvault _ b hb (hbo.trans e))] at hata
      omega
    · obtain ⟨feeAta, hfeeAta⟩ := Option.isSome_iff_exists.mp hsome
      have hk := hpaid feeAta hfeeAta
      rw [← hfee feeAta hfeeAta] at hk
      omega
  · intro hh
    refine ⟨fun k c hc hco => ?_, fun feeAta hfeeAta => ?_⟩
    · have hk := hbal k
      rw [if_neg (hvault k c hc hco)] at hk
      -- what the transfer takes from an account of the relayer is nothing
      have hsrc : (if k = p.source ∧ p.source ≠ p.destination then p.amount.toNat else 0) = 0 := by
        refine ite_eq_right_iff.mpr fun ⟨e, hsd⟩ => ?_
        subst e
        rw [ha] at hc
        cases hc
        rw [(hh.authority (hao.symm.trans hco)).resolve_left hsd]
        rfl
      by_cases e : k = p.depositorAta
      · subst e
        rw [hb] at hc
        cases hc
        have hdep := hh.depositor (hbo.symm.trans hco)
        rw [if_pos rfl] at hk
        omega
      · rw [if_neg e] at hk
        omega
    · have hle := hh.fee (Option.isSome_iff_exists.mpr ⟨feeAta, hfeeAta⟩)
      rw [← hfee feeAta hfeeAta]
      omega

end Executed

variable {log : List (Action env)} {s : PoolState}

/-- **The relayer cannot be made to pay** by the harmless transactions, and can by all others.  In
every reachable state of the pool, a transaction that the route forwards and that fails on chain
leaves the relayer what it has, and one that succeeds keeps the promise exactly when the relayer
neither sends the transfer nor makes the deposit from tokens that do not come back in the same
transaction, and the fee account does not pay the deposit out of the fee. -/
theorem relayer_safe_iff {deps : SubmitDepositDeps env.address} {body : Option String}
    {tx : Transaction env.address} (hrun : PoolRun env log s)
    (hforward : submitDepositRoute deps body = .ok tx) :
    (∀ e, execute env deps.config.programId s tx = .error e →
      Safe deps.config s (execute env deps.config.programId s tx)) ∧
    ∀ s', execute env deps.config.programId s tx = .ok s' →
      ∃ p denomination, depositTx? tx = some p ∧ s.denomination p.denomId = some denomination ∧
        (Safe deps.config s (execute env deps.config.programId s tx) ↔
          Harmless deps.config p (env.vault p.denomId) denomination.amountMicroUsdc) := by
  obtain ⟨transferIx, depositIx, destination, hf⟩ := exists_forwarded hforward
  refine ⟨fun e he => ?_, fun s' hs' => ?_⟩
  · rw [he]
    exact ⟨fun _ _ _ _ => le_refl _, fun s' h => nomatch h⟩
  · obtain ⟨p, denomination, l₁, hp, hdest, hden, hexec⟩ := executed_of_forwarded hf hs'
    refine ⟨p, denomination, hp, hden, ?_⟩
    obtain ⟨tree, hh⟩ := (poolInv_of_run hrun).held hden
    have hiff := hexec.safe_iff deps.config
      (hh.vaultAccount.imp fun _ hv => ⟨hv.1, hv.2.2⟩)
      (fun feeAta hfeeAta => hdest.trans (hf.fee feeAta hfeeAta).1)
    rw [hs', ← hiff]
    refine ⟨fun hsafe => ⟨hsafe.neverPays, hsafe.feePaid s' rfl⟩, fun h => ⟨h.1, fun s'' h'' => ?_⟩⟩
    cases h''
    exact h.2

/-! ### One that does not -/

/-- The token library's transfer instruction. -/
def transferInstruction (source destination authority : Pubkey) (amount : UInt64) :
    Instruction where
  programId := TOKEN_PROGRAM_ID
  keys := [⟨source, false, true⟩, ⟨destination, false, true⟩, ⟨authority, true, false⟩]
  data := SPL_TRANSFER_TAG :: (beBytes 8 amount.toNat).reverse

/-- The program makes the deposit of the SDK's instruction. -/
theorem poolDeposit_buildDepositIx {s' : PoolState} {tx : Transaction env.address}
    {programId : Pubkey} {denomId : UInt8} {commitment : Bytes32} {depositorAta : Pubkey}
    {depositor : PoolSigner env} (hsigned : tx.signer? depositor.key = some depositor)
    (h : deposit env s { depositorAta, depositor } denomId commitment = .ok s') :
    poolDeposit env s tx (buildDepositIx env programId denomId commitment depositorAta
      depositor.key) = .ok s' := by
  have hcommitment : Bytes.ofNat 32 (beNat (commitment.toList.take 32)) = commitment := by
    rw [List.take_of_length_le (by simp)]
    exact Bytes.ofNat_toNat commitment
  refine poolDeposit_eq_ok.mpr
    ⟨rfl, by simp [buildDepositIx, Pool.DEPOSIT_DISC], rfl, rfl, rfl, rfl,
    depositorAta, depositor.key, depositor, rfl, rfl, hsigned, rfl, ?_⟩
  show deposit env s _ denomId (Bytes.ofNat 32 (beNat (commitment.toList.take 32))) = .ok s'
  rw [hcommitment]
  exact h

/-- What the token program reads of the library's. -/
theorem splTransfer_transferInstruction {l l' : Ledger} {tx : Transaction env.address}
    {source destination : Pubkey} {authority : PoolSigner env} {amount : UInt64}
    (hsigned : tx.signer? authority.key = some authority)
    (h : l.transfer source destination authority.key amount = .ok l') :
    splTransfer l tx (transferInstruction source destination authority.key amount) = .ok l' := by
  have hamount : leNat ((beBytes 8 amount.toNat).reverse.take 8) = amount.toNat := by
    rw [List.take_of_length_le (by simp), leNat, List.reverse_reverse, beNat_beBytes]
    exact Nat.mod_eq_of_lt amount.toNat_lt
  refine splTransfer_eq_ok.mpr ⟨rfl, by simp [transferInstruction], source, destination,
    authority.key, rfl, rfl, rfl, by rw [hsigned]; rfl, ?_⟩
  show l.transfer _ _ _ (UInt64.ofNat (leNat ((beBytes 8 amount.toNat).reverse.take 8))) = _
  rw [hamount, UInt64.ofNat_toNat]
  exact h

/-- The digits of base 58. -/
def base58Digits : List Char :=
  "123456789ABCDEFGHJKLMNPQRSTUVWXYZabcdefghijkmnopqrstuvwxyz".toList

def toBase58 (key : Pubkey) : String :=
  String.ofList ((key.toList.takeWhile (· = 0)).map (fun _ => '1') ++
    (Nat.digits 58 key.toNat).reverse.map (base58Digits.getD · '1'))

def toHex (bs : List UInt8) : String :=
  String.ofList (bs.flatMap fun b => [Nat.digitChar (b.toNat / 16), Nat.digitChar (b.toNat % 16)])

variable (P : Poseidon)

/-- A transaction whose transfer pays the fee account from itself, and whose deposit is the fee
payer's. -/
noncomputable def drainTx : Transaction (ideal P).address where
  feePayer := some (admin P).key
  instructions :=
    [transferInstruction depositorAta depositorAta (admin P).key 5,
      buildDepositIx (ideal P) QIETR_POOL_PROGRAM_ID 0 (encode 1) depositorAta (admin P).key]
  signatures := []

/-- Its wire form, without a signature. -/
def drainBase64 : String :=
  "AQAAAAAAAAAAAAAAAAAAAAAAAAAAAAAAAAAAAAAAAAAAAAAAAAAAAAAAAAAAAAAAAAAAAAAAAAAAAAAAAAAAAAAB" ++
  "AAMIAAAAAAAAAAAAAAAAAAAAAAAAAAAAAAAAAAAAAAAAAAQAAAAAAAAAAAAAAAAAAAAAAAAAAAAAAAAAAAAAAAAA" ++
  "AgAAAAAAAAAAAAAAAAAAAAEAAAAAAAAAAAAAAAAAAAEAAAAAAAAAAAAAAAAAAAAAAQAAAAAAAAAAAAAAAAAAAgAA" ++
  "AAAAAAAAAAAAAAAAAAABAAAAAAAAAAAAAAAAAAADAAAAAAAAAAAAAAAAAAAAAAEAAAAAAAAAAAAAAAAAAAAABt32" ++
  "4ddloZPZy+FGzut5rBy0he1fWzeROoz1hX7/AKk0VK/EbpesIMBDqV6w/S6g2IRFqle0e8jXSclpCEYzAAAAAAAA" ++
  "AAAAAAAAAAAAAAAAAAAAAAAAAAAAAAAAAAAAAgYDAQEACQMFAAAAAAAAAAcHBQIDBAEABinyI8aJUuHytgAAAAAA" ++
  "AAAAAAAAAAAAAAAAAAAAAAAAAAAAAAAAAAAAAQ=="

/-- A relayer whose fee account is its own, and that decodes this one transaction. -/
noncomputable def drainDeps : SubmitDepositDeps (ideal P).address where
  config :=
    { programId := QIETR_POOL_PROGRAM_ID
      feePayer := admin P
      feeAta := some depositorAta
      feeAmountMicro := 5 }
  web3 :=
    { transactionFrom := fun txBase64 =>
        if txBase64 = drainBase64 then .ok (drainTx P) else
          .error "Reached end of buffer unexpectedly"
      toBase58
      toHex }
  ipDecision := { allowed := true, reason := none }
  replayGuard _ := true
  isBlocked _ := false
  spend := { allowed := true, reason := none }

/-- The route forwards it. -/
theorem drain_forwarded : submitDepositRoute (drainDeps P) (some drainBase64) =
    .ok ((drainTx P).partialSign (admin P)) := by
  have hvalid : Validated QIETR_POOL_PROGRAM_ID (admin P).key (drainDeps P).config.expectation
      { tx := drainTx P
        denomId := 0
        depositor := (admin P).key
        feeAmountMicro := 5
        feeDestination := depositorAta }
      (transferInstruction depositorAta depositorAta (admin P).key 5)
      (buildDepositIx (ideal P) QIETR_POOL_PROGRAM_ID 0 (encode 1) depositorAta (admin P).key) :=
    { feePayer := rfl
      instructions := rfl
      transferProgram := rfl
      tag := rfl
      feeDestination := rfl
      length := by simp [transferInstruction]
      feeAmountMicro := (by decide : leNat ((beBytes 8 (5 : UInt64).toNat).reverse.take 8) = 5)
      fee := by
        rintro f ⟨⟩
        exact ⟨rfl, le_refl _⟩
      depositProgram := rfl
      depositLength := by simp [buildDepositIx, Pool.DEPOSIT_DISC]
      discriminator := rfl
      denomId := rfl
      depositor := rfl }
  have hdecode : (drainDeps P).web3.transactionFrom drainBase64 = .ok (drainTx P) := by
    simp only [drainDeps, if_true]
  rw [submitDepositRoute_eq_ok, Option.getD_some]
  refine ⟨rfl, by decide +kernel, rfl, rfl, _,
    decodeAndValidateDeposit_eq_ok.mpr ⟨hdecode, _, _, hvalid⟩, rfl, ?_⟩
  rw [sendTransaction, hdecode]
  rfl

/-- It succeeds on chain, and its deposit is paid by the relayer. -/
theorem drain_executed : ∃ log s s', PoolRun (ideal P) log s ∧
    execute (ideal P) QIETR_POOL_PROGRAM_ID s ((drainTx P).partialSign (admin P)) = .ok s' ∧
    (∃ a, s.ledger.account depositorAta = some a ∧ a.owner = (admin P).key) ∧
    s'.ledger.balance depositorAta + 10 = s.ledger.balance depositorAta := by
  have hg := genesis_ledger P
  obtain ⟨config, tree, s, hrun, ho, -, -, -, hkept, -⟩ := exists_opened P
  have hata := hkept _ _ hg.depositor
  have hfunds : (10 : UInt64).toNat ≤ (2 ^ 24 : UInt64).toNat := by decide
  let accounts : DepositAccounts (ideal P) := { depositorAta, depositor := admin P }
  have hataKey : s.ledger.account accounts.depositorAta = _ := hata
  obtain ⟨denomination', tree', s', hdep, -, -, -, -, hmoved⟩ :=
    ho.deposit_ok hataKey rfl rfl hfunds (by decide) 1
  let tx := (drainTx P).partialSign (admin P)
  have hsigned : tx.signer? (admin P).key = some (admin P) :=
    List.find?_cons_of_pos (by simp)
  have hall : tx.Signed := by
    have hsome : (tx.signer? (admin P).key).isSome = true := by rw [hsigned]; rfl
    simp only [Transaction.Signed, tx, drainTx, Transaction.partialSign, transferInstruction,
      buildDepositIx, List.forall_mem_cons, Bool.false_eq_true, false_implies, true_and]
    exact ⟨⟨fun _ => hsome, nofun⟩, ⟨fun _ => hsome, nofun⟩, nofun⟩
  -- the transfer to the same account leaves the ledger
  have hself : s.ledger.transfer depositorAta depositorAta (admin P).key 5 = .ok s.ledger := by
    have ht : s.ledger.Transferable depositorAta depositorAta (admin P).key 5 :=
      ⟨_, _, hata, hata, (by decide : (5 : UInt64).toNat ≤ (2 ^ 24 : UInt64).toNat), rfl, rfl⟩
    rw [Ledger.transfer_eq_ok.mpr ⟨ht, rfl⟩, ht.moved.self rfl]
  have h₁ := splTransfer_transferInstruction hsigned hself
  have hstep : execInstruction (ideal P) QIETR_POOL_PROGRAM_ID tx s (buildDepositIx (ideal P)
      QIETR_POOL_PROGRAM_ID 0 (encode 1) depositorAta (admin P).key) = .ok s' :=
    execInstruction_deposit (by decide : QIETR_POOL_PROGRAM_ID ≠ TOKEN_PROGRAM_ID) rfl
      (poolDeposit_buildDepositIx hsigned hdep)
  have hne : depositorAta ≠ (ideal P).vault 0 :=
    key_ne (by norm_num) (by norm_num [addressCode]) (by norm_num [addressCode])
  refine ⟨_, s, s', hrun, ?_, ⟨_, hata, rfl⟩, hmoved.source hne⟩
  rw [execute, require_of _ hall, ok_bind]
  show (execInstruction _ _ _ s _ >>= fun s₁ => execInstruction _ _ _ s₁ _ >>= pure) = _
  rw [execInstruction_transfer rfl h₁, ok_bind, hstep]
  rfl

variable {P}

/-- **A forwarded transaction drains the relayer.**  Its fee account has not been paid, but pays the
deposit. -/
theorem relayer_drained : ∃ (log : List (Action (ideal circom))) (s s' : PoolState)
    (tx : Transaction (ideal circom).address),
    PoolRun (ideal circom) log s ∧
    submitDepositRoute (drainDeps circom) (some drainBase64) = .ok tx ∧
    execute (ideal circom) (drainDeps circom).config.programId s tx = .ok s' ∧
    (∃ a, s.ledger.account depositorAta = some a ∧
      a.owner = (drainDeps circom).config.feePayer.key) ∧
    (drainDeps circom).config.feeAta = some depositorAta ∧
    s'.ledger.balance depositorAta + 10 = s.ledger.balance depositorAta ∧
    ¬ Safe (drainDeps circom).config s (.ok s') := by
  obtain ⟨log, s, s', hrun, hexec, ⟨a, ha, ho⟩, hbal⟩ := drain_executed circom
  refine ⟨log, s, s', _, hrun, drain_forwarded circom, hexec, ⟨a, ha, ho⟩, rfl, hbal, fun hsafe =>
    ?_⟩
  have hle : s.ledger.balance depositorAta ≤ s'.ledger.balance depositorAta :=
    hsafe.neverPays depositorAta a ha ho
  omega

theorem relayer_safe_iff_drained : ∃ (s s' : PoolState) (tx : Transaction (ideal circom).address)
    (p : DepositTx), depositTx? tx = some p ∧
    ∃ denomination : Denomination, s.denomination p.denomId = some denomination ∧
    (Safe (drainDeps circom).config s (.ok s') ↔
      Harmless (drainDeps circom).config p ((ideal circom).vault p.denomId)
        denomination.amountMicroUsdc) := by
  obtain ⟨log, s, s', hrun, hexec, -, -⟩ := drain_executed circom
  obtain ⟨p, denomination, hp, hden, hiff⟩ :=
    (relayer_safe_iff hrun (drain_forwarded circom)).2 s' hexec
  rw [show execute (ideal circom) (drainDeps circom).config.programId s _ = _ from hexec] at hiff
  exact ⟨s, s', _, p, hp, denomination, hden, hiff⟩

end Qietr.Relayer
