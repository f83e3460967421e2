import Qietr.Pool.Deployment
import Qietr.Relayer.Withdraw
import Qietr.Wire.Agreement

/-!
# Relayer — screening and execution

The relayer screens the owner that the recipient account has when it asks; the program pays the
account of the owner that it has when the withdraw runs.  In between, anybody's accounts may change
hands.

* `executeWithdraw`: the forwarded transaction on chain.
* `Relayed`: a withdraw that is screened, forwarded and later executed.
* `screening_iff`: when the key it pays is not on the blocklist.
* `Ledger.setOwner`: an account changes hands; `blocked_paid`: a key on the blocklist is paid.
-/

namespace Qietr.Relayer

open Outcome Pool Wire

variable {env : PoolEnv}

/-! ### On chain -/

/-- One instruction of it: the pool's. -/
def execWithdraw (env : PoolEnv) (programId : Pubkey) (slot : UInt64)
    (tx : Transaction env.address) (s : PoolState) (ix : Instruction) :
    Except PoolError PoolState :=
  if ix.programId = programId then poolWithdraw env programId s slot tx ix
  else .error (.anchor .invalidProgramId)

/-- A withdraw transaction: all of its instructions, or none. -/
def executeWithdraw (env : PoolEnv) (programId : Pubkey) (s : PoolState) (slot : UInt64)
    (tx : Transaction env.address) : Except PoolError PoolState := do
  require tx.Signed (.anchor .accountNotSigner)
  tx.instructions.foldlM (execWithdraw env programId slot tx) s

/-- The data that a node shows of the token accounts: mint and owner come first. -/
def ShowsTokens (l : Ledger) (info : Pubkey → Option (List UInt8)) : Prop :=
  ∀ k a, l.account k = some a →
    ∃ rest, info k = some (a.mint.toList ++ (a.owner.toList ++ rest))

/-- The transaction that is forwarded in the state `s`, after whatever else has happened on chain,
succeeds in the state `s'`. -/
structure Relayed (deps : SubmitDeps env.address) (body : Option String)
    (tx : Transaction env.address) (log log' : List (Action env)) (s s' s'' : PoolState)
    (slot : UInt64) : Prop where
  run : PoolRun env log s
  shows : ShowsTokens s.ledger deps.getAccountInfo
  forward : submitRoute deps body = .ok tx
  later : Run (· = s) (Step env) log' s'
  executed : executeWithdraw env deps.config.programId s' slot tx = .ok s''

/-- The account that a withdraw transaction credits. -/
def recipientAta? (tx : Transaction env.address) : Option Pubkey :=
  match tx.instructions with
  | [ix] => ix.account? WITHDRAW_RECIPIENT_ATA_INDEX
  | _ => none

/-! ### The screened owner and the owner that is paid -/

section Relayed

variable {deps : SubmitDeps env.address} {body : Option String} {tx : Transaction env.address}
  {log log' : List (Action env)} {s s' s'' : PoolState} {slot : UInt64}

/-- What has been screened of a forwarded withdraw. -/
theorem exists_screened (h : submitRoute deps body = .ok tx) :
    ∃ ix ata data owner, tx.instructions = [ix] ∧ ix.programId = deps.config.programId ∧
      ix.account? WITHDRAW_RECIPIENT_ATA_INDEX = some ata ∧ deps.getAccountInfo ata = some data ∧
      decodeAtaOwner data = .ok owner ∧ deps.isBlocked (deps.web3.toBase58 owner) = false := by
  obtain ⟨-, -, -, -, hsend, v, data, owner, hv, -, hdata, howner, hblocked, -⟩ :=
    submitRoute_eq_ok.mp h
  obtain ⟨htx, ix, hix⟩ := decodeAndValidateWithdraw_eq_ok.mp hv
  simp only [sendTransaction, htx, ok_bind, Except.ok.injEq] at hsend
  subst hsend
  exact ⟨ix, v.recipientAta, data, owner, hix.instructions, hix.program, hix.recipientAta, hdata,
    howner, hblocked⟩

/-- What an executed withdraw has credited. -/
theorem exists_credited {programId : Pubkey} {ix : Instruction} {ata : Pubkey}
    (hix : tx.instructions = [ix]) (hata : ix.account? WITHDRAW_RECIPIENT_ATA_INDEX = some ata)
    (h : executeWithdraw env programId s' slot tx = .ok s'') :
    ∃ a, s'.ledger.account ata = some a ∧ env.associatedTokenAddress a.owner a.mint = ata := by
  obtain ⟨-, h⟩ := require_bind_eq_ok.mp h
  rw [hix] at h
  obtain ⟨s₁, h, hs₁⟩ := bind_eq_ok.mp h
  rw [execWithdraw] at h
  split_ifs at h with hprogram
  obtain ⟨args, keys, feePayer, -, hkeys, -, hw⟩ := poolWithdraw_args h
  have hkey := recipientAta_of_withdrawKeys hkeys
  obtain rfl : ata = keys.recipientAta := Option.some.inj (hata.symm.trans hkey)
  obtain ⟨config, denomination, tree, a, payment, ledger, tree', hok, -⟩ := withdraw_eq_ok.mp hw
  refine ⟨a, hok.ata, ?_⟩
  rw [hok.mint]
  exact hok.signals.canonicalAta

/-- **Whom a screened withdraw pays.**  The owner of the account that is credited is not on the
blocklist if and only if no key is whose associated token account it is; and it is the owner that
was screened, if that is such a key. -/
theorem screening_iff
    (hata : ∀ mint, Function.Injective fun owner => env.associatedTokenAddress owner mint)
    (h : Relayed deps body tx log log' s s' s'' slot) :
    ∃ ata data owner a, recipientAta? tx = some ata ∧ deps.getAccountInfo ata = some data ∧
      decodeAtaOwner data = .ok owner ∧ s'.ledger.account ata = some a ∧
      (deps.isBlocked (deps.web3.toBase58 a.owner) = false ↔
        ∀ key, env.associatedTokenAddress key a.mint = ata →
          deps.isBlocked (deps.web3.toBase58 key) = false) ∧
      (env.associatedTokenAddress owner a.mint = ata →
        a.owner = owner ∧ deps.isBlocked (deps.web3.toBase58 a.owner) = false) := by
  obtain ⟨ix, ata, data, owner, hix, -, hkey, hdata, howner, hblocked⟩ := exists_screened h.forward
  obtain ⟨a, ha, hcanonical⟩ := exists_credited hix hkey h.executed
  have hsame : ∀ key, env.associatedTokenAddress key a.mint = ata → a.owner = key := fun key hk =>
    hata a.mint (hcanonical.trans hk.symm)
  refine ⟨ata, data, owner, a, by rw [recipientAta?, hix]; exact hkey, hdata, howner, ha,
    ⟨fun hfree key hk => hsame key hk ▸ hfree, fun hfree => hfree _ hcanonical⟩, fun hk => ?_⟩
  rw [hsame owner hk]
  exact ⟨rfl, hblocked⟩

end Relayed

/-! ### An account changes hands -/

/-- SPL `SetAuthority`: the account at `k` gets another owner. -/
def setOwner (l : Ledger) (k owner : Pubkey) : Ledger where
  account := Function.update l.account k ((l.account k).map fun a => { a with owner })
  supply := l.supply
  backed m S := by
    refine le_of_eq_of_le (Finset.sum_congr rfl fun j _ => ?_) (l.backed m S)
    by_cases hj : j = k
    · subst hj
      rw [holding, holding, Function.update_self]
      cases l.account j with
      | none => rfl
      | some a => rfl
    · rw [holding, holding, Function.update_of_ne hj]

theorem setOwner_account (l : Ledger) (k owner : Pubkey) :
    (setOwner l k owner).account k = (l.account k).map fun a => { a with owner } :=
  Function.update_self ..

/-- Whoever the account belonged to, it has to be theirs to give. -/
theorem keepsOwnedBy_setOwner {P : Pubkey → Prop} {l : Ledger} {k : Pubkey} (owner : Pubkey)
    (h : ∀ a, l.account k = some a → ¬ P a.owner) : l.KeepsOwnedBy P (setOwner l k owner) := by
  intro j a ha hP
  by_cases hj : j = k
  · subst hj
    exact absurd hP (h a ha)
  · exact ⟨a, (Function.update_of_ne hj ..).trans ha, rfl, rfl, le_rfl⟩

theorem setOwner_setOwner (l : Ledger) (k owner : Pubkey) {a : TokenAccount}
    (ha : l.account k = some a) : setOwner (setOwner l k owner) k a.owner = l := by
  obtain ⟨account, supply, backed⟩ := l
  have hback : Function.update (Function.update account k
      ((account k).map fun a => { a with owner })) k
      ((Function.update account k ((account k).map fun a => { a with owner }) k).map
        fun b => { b with owner := a.owner }) = account := by
    have ha : account k = some a := ha
    rw [Function.update_self, Function.update_idem, ha, Option.map_some, Option.map_some, ← ha,
      Function.update_eq_self]
  simp only [setOwner, hback]

/-- The data of a token account that is not delegated, frozen or native. -/
def tokenAccountData (a : TokenAccount) : List UInt8 :=
  a.mint.toList ++ (a.owner.toList ++ ((beBytes 8 a.amount.toNat).reverse ++
    (List.replicate 36 0 ++ 1 :: List.replicate 56 0)))

theorem decodeAtaOwner_tokenAccountData (a : TokenAccount) :
    decodeAtaOwner (tokenAccountData a) = .ok a.owner := by
  refine decodeAtaOwner_eq_ok.mpr ⟨?_, ?_⟩
  · simp [tokenAccountData]
  · exact dataBytes_append a.mint.toList a.owner _ Vector.length_toList

/-! ### A relayed withdraw -/

variable {P : Poseidon}

theorem ideal_ata_injective (mint : Pubkey) :
    Function.Injective fun owner => (ideal P).associatedTokenAddress owner mint := by
  intro x y h
  have hnat : (Bytes.ofNat 32 (x.toNat + 2 ^ 64)).toNat =
      (Bytes.ofNat 32 (y.toNat + 2 ^ 64)).toNat :=
    congrArg Bytes.toNat h
  rw [Bytes.toNat_ofNat, Bytes.toNat_ofNat] at hnat
  have hmod : x.toNat ≡ y.toNat [MOD 256 ^ 32] := Nat.ModEq.add_right_cancel' _ hnat
  exact Bytes.toNat_inj.mp (hmod.eq_of_lt_of_lt x.toNat_lt y.toNat_lt)

/-- The withdraw of a note of ten that pays four to the merchant, signed by the admin alone. -/
noncomputable def screenTx (P : Poseidon) (ix : Instruction) : Transaction (ideal P).address where
  feePayer := some (admin P).key
  instructions := [ix]
  signatures := []

/-- The wire form of it, with the hash of the circuit. -/
def screenBase64 : String :=
  "AQAAAAAAAAAAAAAAAAAAAAAAAAAAAAAAAAAAAAAAAAAAAAAAAAAAAAAAAAAAAAAAAAAAAAAAAAAAAAAAAAAAAAABAAUK" ++
  "AAAAAAAAAAAAAAAAAAAAAAAAAAAAAAAAAAAAAAAAAAQAAAAAAAAAAAAAAAAAAAAAAAAAAAAAAAEAAAAAAAAAAwAAAAAA" ++
  "AAAAAAAAAAAAAAEAAAAAAAAAAAAAAAAAAAMAAAAAAAAAAAAAAAAAAAAAAQAAAAAAAAAAAAAAAAAABAAAAAAAAAAAAAAA" ++
  "AAAAAAABAAAAAAAAAAAAAAAAAAACAAAAAAAAAAAAAAAAAAAAAAAAAAAAAAAAAAAAAAAAAAAAAAAAAAAAAAAAAAAAAAAA" ++
  "AQAAAAAAAAAAAAAAAAAAAAAAAAAAAAAAAAAAAAAAAAABAAAAAAAAAAAAAAAAAAABADRUr8Rul6wgwEOpXrD9LqDYhEWq" ++
  "V7R7yNdJyWkIRjMABt324ddloZPZy+FGzut5rBy0he1fWzeROoz1hX7/AKkAAAAAAAAAAAAAAAAAAAAAAAAAAAAAAAAA" ++
  "AAAAAAAAAAEICgYHBAIDAQgACQXpA7cSRpyUbaEiABMdc89rMAeayg3/alYc0O5QtUCHmr43miWgayS94r69AAAAAAAA" ++
  "AAAAAAAAAAAAAAAAAAAAAAAAAAAAAAAAAAAAAAAAAAAAAAAAAAAAAAAAAAAAAAAAAAAAAAAAAAAAAAAAAAAAAAAAAAAA" ++
  "AAAAAAAAAAAAAAAAAAAAAAAAAAAAAAAAAAAAAAAAAAAAAAAAAAAAAAAAAAAAAAAAAAAAAAAAAAAAAAAAAAAAAAAAAAAA" ++
  "AAAAAAAAAAAAAAAAAAAAAAAAAAAAAAAAAAAAAAAAAAAAAAAAAAAAAAAAAAAAAAAAAAAAAAAAAAAAAAAAAAAAAAAAAAAA" ++
  "AAAAAAAAAAAAAAAAAAAAAAAAAAAAAAAAAAAAAAAAAAAAAAAAAAAAAAAAAAAAAAAAAAAAAAAAAAAAAAAAAAAAAAAAAAAA" ++
  "AAAAAAAKHtnWsaEv6rr6VVzIvLZwij55OzNQfEOfdbgbtbwiHRMTHXPPazAHmsoN/2pWHNDuULVAh5q+N5oloGskveK+" ++
  "vQAAAAAAAAAAAAAAAAAAAAAAAAAAAAAAAAAAAAAAAAADAAAAAAAAAAAAAAAAAAAAAAAAAAAAAAAAAAAAAAAAAAQujVbW" ++
  "ft7nXmxLAIYZY0TYddu0Glc8epItmsdfMp5ZYQ=="

/-- A relayer that asks a node of the ledger `l`, with one key on its blocklist. -/
noncomputable def screenDeps (P : Poseidon) (l : Ledger) (blocked : Pubkey) (ix : Instruction) :
    SubmitDeps (ideal P).address where
  config :=
    { programId := Sdk.QIETR_POOL_PROGRAM_ID
      feePayer := admin P
      feeAta := none
      feeAmountMicro := 0 }
  denomTiers := [0]
  web3 :=
    { transactionFrom := fun txBase64 =>
        if txBase64 = screenBase64 then .ok (screenTx P ix)
        else .error "Reached end of buffer unexpectedly"
      toBase58
      toHex }
  ipDecision := { allowed := true, reason := none }
  replayGuard _ := true
  getAccountInfo k := (l.account k).map tokenAccountData
  isBlocked text := text = toBase58 blocked
  recipientDecision _ := { allowed := true, reason := none }
  spend := { allowed := true, reason := none }

/-- The route forwards it while the account is not a blocked key's. -/
theorem screen_forwarded {l : Ledger} {blocked ata : Pubkey} {a : TokenAccount} {ix : Instruction}
    (hprogram : ix.programId = Sdk.QIETR_POOL_PROGRAM_ID) (hlen : 9 ≤ ix.data.length)
    (hdisc : ix.data.take 8 = WITHDRAW_DISC) (hdenom : ix.data.getD 8 0 = 0)
    (hkey : ix.account? 5 = some ata) (ha : l.account ata = some a)
    (hfree : toBase58 a.owner ≠ toBase58 blocked) :
    submitRoute (screenDeps P l blocked ix) (some screenBase64) =
      .ok ((screenTx P ix).partialSign (admin P)) := by
  have hdecode : (screenDeps P l blocked ix).web3.transactionFrom screenBase64 =
      .ok (screenTx P ix) := by
    simp only [screenDeps, if_true]
  have hvalid : ValidWithdraw Sdk.QIETR_POOL_PROGRAM_ID (admin P).key
      { tx := screenTx P ix, recipientAta := ata, denomId := 0 } ix :=
    { feePayer := rfl
      instructions := rfl
      program := hprogram
      length := hlen
      discriminator := hdisc
      denomId := hdenom
      recipientAta := hkey }
  rw [submitRoute_eq_ok, Option.getD_some]
  refine ⟨rfl, by decide, rfl, rfl, ?_, _, tokenAccountData a, a.owner,
    decodeAndValidateWithdraw_eq_ok.mpr ⟨hdecode, ix, hvalid⟩, List.mem_singleton_self _, ?_,
    decodeAtaOwner_tokenAccountData a, decide_eq_false hfree, rfl⟩
  · rw [sendTransaction, hdecode]
    rfl
  · show (l.account ata).map tokenAccountData = _
    rw [ha]
    rfl

/-- The merchant's account is handed over, and given back. -/
theorem changes_hands {s : PoolState} {a : TokenAccount} (owner : Pubkey)
    (howner : ∀ seed, (ideal P).address seed ≠ owner)
    (ha : s.ledger.account (ata P merchant) = some a) (hao : a.owner = merchant) :
    ∃ l, l.account (ata P merchant) = some { a with owner } ∧
      Step (ideal P) s (.external l) { s with ledger := l } ∧
      Step (ideal P) { s with ledger := l } (.external s.ledger) s := by
  have hderived : ∀ b : TokenAccount, b.owner = owner ∨ b.owner = merchant →
      ¬ ∃ seed, (ideal P).address seed = b.owner := by
    rintro b hb ⟨seed, hseed⟩
    rcases hb with hb | hb
    · exact howner seed (hseed.trans hb)
    · exact (signer P 3 (by norm_num)).not_derived seed (hseed.trans hb)
  have hgiven : (setOwner s.ledger (ata P merchant) owner).account (ata P merchant) =
      some { a with owner } := by
    rw [setOwner_account, ha]
    rfl
  have hback := setOwner_setOwner s.ledger (ata P merchant) owner ha
  refine ⟨setOwner s.ledger (ata P merchant) owner, hgiven, .external ?_, ?_⟩
  · refine keepsOwnedBy_setOwner owner fun b hb => ?_
    obtain rfl := Option.some.inj (ha.symm.trans hb)
    exact hderived _ (.inr hao)
  · have hkept := keepsOwnedBy_setOwner (P := fun k => ∃ seed, (ideal P).address seed = k)
      (l := setOwner s.ledger (ata P merchant) owner) (k := ata P merchant) a.owner fun b hb => by
        obtain rfl := Option.some.inj (hgiven.symm.trans hb)
        exact hderived _ (.inl rfl)
    rw [hback] at hkept
    exact .external hkept

/-- The SDK's instruction of a withdraw, signed by the admin, does what the withdraw does. -/
theorem executeWithdraw_screenTx {s s' : PoolState} {nullifierHash : Bytes32}
    {proof : Bytes PROOF_BYTES} {signals : Vector Bytes32 PUBLIC_SIGNAL_COUNT} {ix : Instruction}
    (hix : Sdk.buildWithdrawIx 0 nullifierHash proof signals.toList
      (Sdk.withdrawIxAccounts (ideal P) 0 nullifierHash (ata P merchant) (admin P).key none)
      Sdk.QIETR_POOL_PROGRAM_ID = .ok ix)
    (hok : withdraw (ideal P) s 0 ⟨ata P merchant, none, admin P⟩ 0 nullifierHash proof signals =
      .ok s') :
    executeWithdraw (ideal P) Sdk.QIETR_POOL_PROGRAM_ID s 0
      ((screenTx P ix).partialSign (admin P)) = .ok s' := by
  obtain ⟨-, hbuilt⟩ := require_bind_eq_ok.mp hix
  have hkeys := congrArg Instruction.keys (Except.ok.inj hbuilt)
  have hprogram : ix.programId = Sdk.QIETR_POOL_PROGRAM_ID :=
    (congrArg Instruction.programId (Except.ok.inj hbuilt)).symm
  have hsigned : ((screenTx P ix).partialSign (admin P)).signer? (admin P).key = some (admin P) :=
    List.find?_cons_of_pos (decide_eq_true rfl)
  have hall : ((screenTx P ix).partialSign (admin P)).Signed := by
    have hsome : (((screenTx P ix).partialSign (admin P)).signer? (admin P).key).isSome = true := by
      rw [hsigned]
      rfl
    refine List.forall_mem_singleton.mpr ?_
    rw [← hkeys]
    simp only [Sdk.withdrawIxAccounts, List.forall_mem_cons, Bool.false_eq_true, false_implies,
      true_and]
    exact ⟨fun _ => hsome, List.forall_mem_nil _⟩
  have hnone : (none : Option Pubkey) ≠ some Sdk.QIETR_POOL_PROGRAM_ID :=
    (Option.some_ne_none _).symm
  rw [executeWithdraw, require_of _ hall, ok_bind]
  show (execWithdraw _ _ _ _ s ix >>= pure) = _
  rw [execWithdraw, if_pos hprogram, Sdk.poolWithdraw_buildWithdrawIx hix hnone hsigned]
  show (withdraw _ _ _ _ _ _ _ _ >>= pure) = _
  rw [show UInt8.ofNat 0 = 0 from rfl, hok]
  rfl

/-- The route forwards the SDK's instruction. -/
theorem submitRoute_screenTx {l : Ledger} {blocked : Pubkey} {a : TokenAccount}
    {nullifierHash : Bytes32} {proof : Bytes PROOF_BYTES}
    {signals : Vector Bytes32 PUBLIC_SIGNAL_COUNT} {ix : Instruction}
    (hix : Sdk.buildWithdrawIx 0 nullifierHash proof signals.toList
      (Sdk.withdrawIxAccounts (ideal P) 0 nullifierHash (ata P merchant) (admin P).key none)
      Sdk.QIETR_POOL_PROGRAM_ID = .ok ix)
    (ha : l.account (ata P merchant) = some a) (hfree : toBase58 a.owner ≠ toBase58 blocked) :
    ix.account? 5 = some (ata P merchant) ∧
      submitRoute (screenDeps P l blocked ix) (some screenBase64) =
        .ok ((screenTx P ix).partialSign (admin P)) := by
  obtain ⟨-, hbuilt⟩ := require_bind_eq_ok.mp hix
  have hkeys := congrArg Instruction.keys (Except.ok.inj hbuilt)
  have hdata := congrArg Instruction.data (Except.ok.inj hbuilt)
  have hprogram : ix.programId = Sdk.QIETR_POOL_PROGRAM_ID :=
    (congrArg Instruction.programId (Except.ok.inj hbuilt)).symm
  have hkey : ix.account? 5 = some (ata P merchant) := by
    rw [Instruction.account?, ← hkeys]
    rfl
  refine ⟨hkey, screen_forwarded hprogram ?_ ?_ ?_ hkey ha hfree⟩
  · rw [← hdata]
    simp [Pool.WITHDRAW_DISC]
  · rw [← hdata]
    rfl
  · rw [← hdata]
    rfl

/-- A withdraw to the merchant that is screened while the account is another's. -/
theorem exists_relayed (hroots : ∀ ls, fullRoot P ls ≠ 0) (owner blocked : Pubkey)
    (howner : ∀ seed, (ideal P).address seed ≠ owner) (hfree : toBase58 owner ≠ toBase58 blocked) :
    ∃ l ix log log' s s' s'', Relayed (screenDeps P l blocked ix) (some screenBase64)
        ((screenTx P ix).partialSign (admin P)) log log' s s' s'' 0 ∧
      recipientAta? ((screenTx P ix).partialSign (admin P)) = some (ata P merchant) ∧
      ∃ a, s'.ledger.account (ata P merchant) = some a ∧ a.owner = merchant := by
  -- a note is deposited, and its holder pays from it
  let leaf := Sdk.commitmentHash P someNote
  have hlen : [leaf].length < 2 ^ MERKLE_DEPTH := Nat.one_lt_two_pow (by decide)
  have hleaf : [leaf][0]? = some leaf := rfl
  obtain ⟨log, s, config, denomination, tree, hl⟩ := exists_launched P [leaf] hlen.le
  obtain ⟨a, ha, hmint, hao⟩ := hl.recipient
  have hpay := hl.payable someNote rfl hleaf somePayment (by decide) (by decide) (.inl rfl)
  obtain ⟨proof, hproof⟩ : ∃ proof, (ideal P).groth16 proof
      (honestSignals P someNote (fullRoot P [leaf]) somePayment) = true :=
    exists_honest_proof ideal_complete hleaf hlen.le (by decide) (by decide)
  have hproof₀ : (ideal P).groth16 (Bytes.zero _)
      (honestSignals P someNote (fullRoot P [leaf]) somePayment) = true :=
    ideal_accepts.mpr (ideal_accepts.mp hproof)
  obtain ⟨s'', hok⟩ := hl.withdraw_ok hpay (hroots _) hlen hproof₀
  have hnoArg : feeVaultArg config = none := if_pos hl.noFee
  rw [honestAccounts, hnoArg, hl.mint] at hok
  obtain ⟨ix, hix⟩ : ∃ ix, Sdk.buildWithdrawIx 0 (nullifierHashOf P someNote) (Bytes.zero _)
      (honestSignals P someNote (fullRoot P [leaf]) somePayment).toList
      (Sdk.withdrawIxAccounts (ideal P) 0 (nullifierHashOf P someNote) (ata P merchant)
        (admin P).key none) Sdk.QIETR_POOL_PROGRAM_ID = .ok ix :=
    ⟨_, by rw [Sdk.buildWithdrawIx, require_of _ (Vector.length_toList), ok_bind]⟩
  -- the relayer looks at the account while it is another's
  obtain ⟨l, hgiven, hgive, hback⟩ := changes_hands owner howner ha hao
  obtain ⟨hkey, hforward⟩ := submitRoute_screenTx (a := { a with owner }) hix hgiven hfree
  have hrelayed : Relayed (screenDeps P l blocked ix) (some screenBase64)
      ((screenTx P ix).partialSign (admin P)) _ _ { s with ledger := l } s s'' 0 :=
    { run := hl.run.snoc hgive
      shows := fun k b hb => ⟨_, by
        show (l.account k).map tokenAccountData = _
        rw [hb]
        rfl⟩
      forward := hforward
      later := .snoc (.start rfl) hback
      executed := executeWithdraw_screenTx hix hok }
  exact ⟨l, ix, _, _, _, s, s'', hrelayed, hkey, a, ha, hao⟩

/-- A key of small number is derived from no seed. -/
theorem not_derived_key {n : ℕ} (hn : n < 2 ^ 128) (seed : PoolSeed) :
    (ideal P).address seed ≠ key n :=
  (signer P n hn).not_derived seed

theorem screening_iff_merchant : ∃ (deps : SubmitDeps (ideal (offZero circom)).address)
    (s' : PoolState) (k : Pubkey) (a : TokenAccount), s'.ledger.account k = some a ∧
    deps.isBlocked (deps.web3.toBase58 (key 7)) = true ∧
    deps.isBlocked (deps.web3.toBase58 a.owner) = false := by
  have hfree : toBase58 merchant ≠ toBase58 (key 7) := by decide +kernel
  obtain ⟨l, ix, log, log', s, s', s'', hrelayed, hk, -⟩ :=
    exists_relayed (fullRoot_offZero circom) merchant (key 7) (not_derived_key (by norm_num)) hfree
  obtain ⟨k, data, owner, a, hk', -, -, ha, hiff, -⟩ := screening_iff ideal_ata_injective hrelayed
  obtain rfl := Option.some.inj (hk.symm.trans hk')
  refine ⟨_, s', _, a, ha, decide_eq_true (p := toBase58 (key 7) = toBase58 (key 7)) rfl,
    hiff.mpr fun key hkey => ?_⟩
  obtain rfl : key = merchant := ideal_ata_injective usdc hkey
  exact decide_eq_false hfree

/-- A key on the blocklist is paid: its account was another's when it was screened. -/
theorem blocked_paid : ¬ ∀ (env : PoolEnv) (deps : SubmitDeps env.address) (body : Option String)
    (tx : Transaction env.address) (log log' : List (Action env)) (s s' s'' : PoolState)
    (slot : UInt64) (k : Pubkey) (a : TokenAccount),
    Relayed deps body tx log log' s s' s'' slot → recipientAta? tx = some k →
    s'.ledger.account k = some a → deps.isBlocked (deps.web3.toBase58 a.owner) = false := by
  intro h
  have hfree : toBase58 (key 7) ≠ toBase58 merchant := by decide +kernel
  obtain ⟨l, ix, log, log', s, s', s'', hrelayed, hk, a, ha, hao⟩ :=
    exists_relayed (fullRoot_offZero circom) (key 7) merchant (not_derived_key (by norm_num)) hfree
  have hblocked := h _ _ _ _ _ _ _ _ _ _ _ _ hrelayed hk ha
  rw [hao] at hblocked
  exact of_decide_eq_false (p := toBase58 merchant = toBase58 merchant) hblocked rfl

end Qietr.Relayer
