import Qietr.Library.Runs
import Qietr.Pool.Spec

/-!
# Pool — runs

Any interleaving of the pool's instructions, by any callers on any denominations, with whatever the
rest of the chain does to the token accounts in between.

* `Action`, `Step`, `PoolRun`: a run and the log of what succeeded in it.
* `Entry`, `history d log`: what the log did to the tree of one denomination, in order.
* `Held`: what holds of an initialised denomination with a given history.
* `PoolInv`: what holds of the whole state; `poolInv_of_run`: every run has it.
-/

namespace Qietr.Pool

open Outcome

/-! ### Steps -/

/-- A successful instruction, or what the others on the chain do to the token accounts. -/
inductive Action (env : PoolEnv) where
  | call (slot : UInt64) (c : Call env)
  | external (ledger : Ledger)

/-- One step.  Others cannot spend from the accounts the program's derived addresses own. -/
inductive Step (env : PoolEnv) : PoolState → Action env → PoolState → Prop
  | call {s s' : PoolState} {slot : UInt64} {c : Call env} (h : exec env s slot c = .ok s') :
      Step env s (.call slot c) s'
  | external {s : PoolState} {ledger : Ledger}
      (h : s.ledger.KeepsOwnedBy (fun owner => ∃ seed, env.address seed = owner) ledger) :
      Step env s (.external ledger) { s with ledger }

/-- Before the program's first instruction it has no accounts. -/
structure Initial (s : PoolState) : Prop where
  config : s.config = none
  denomination : ∀ d, s.denomination d = none
  tree : ∀ d, s.tree d = none
  nullifier : ∀ d x, s.nullifier d x = none

abbrev PoolRun (env : PoolEnv) := Run Initial (Step env)

/-! ### The history of a denomination -/

/-- What a withdraw was called with. -/
structure Spend where
  nullifierHash : Bytes32
  proof : Bytes PROOF_BYTES
  signals : Vector Bytes32 PUBLIC_SIGNAL_COUNT
  deriving DecidableEq

/-- The payment of a withdraw. -/
def Spend.payment (w : Spend) : ℕ :=
  (getElem w.signals 4 Signal.payment_lt).toNat

/-- A leaf of the tree, by what appended it. -/
inductive Entry where
  | deposit (commitment : Bytes32)
  | spend (w : Spend)
  deriving DecidableEq

namespace Entry

/-- The leaf appended. -/
def leaf : Entry → Bytes32
  | deposit commitment => commitment
  | spend w => getElem w.signals 5 Signal.change_lt

def isDeposit : Entry → Bool
  | deposit _ => true
  | spend _ => false

/-- The withdraw, if it is one. -/
def spend? : Entry → Option Spend
  | deposit _ => none
  | spend w => some w

end Entry

/-- What an action appends to the tree of `denomId`. -/
def entry {env : PoolEnv} (denomId : UInt8) : Action env → Option Entry
  | .call _ (.deposit _ d commitment) => if d = denomId then some (.deposit commitment) else none
  | .call _ (.withdraw _ d nullifierHash proof signals) =>
      if d = denomId then some (.spend { nullifierHash, proof, signals }) else none
  | _ => none

/-- What the log appended to the tree of `denomId`. -/
def history {env : PoolEnv} (denomId : UInt8) (log : List (Action env)) : List Entry :=
  log.filterMap (entry denomId)

/-- The leaves of a history, as field elements. -/
def leaves (h : List Entry) : List F :=
  h.map fun e => decode e.leaf

/-- The withdraws of a history. -/
def spends (h : List Entry) : List Spend :=
  h.filterMap Entry.spend?

/-- The number of deposits of a history. -/
def deposits (h : List Entry) : ℕ :=
  h.countP Entry.isDeposit

/-- The sum of the payments of a history. -/
def payments (h : List Entry) : ℕ :=
  ((spends h).map Spend.payment).sum

@[simp] theorem leaves_length (h : List Entry) : (leaves h).length = h.length := by
  simp [leaves]

@[simp] theorem leaves_snoc (h : List Entry) (e : Entry) :
    leaves (h ++ [e]) = leaves h ++ [decode e.leaf] := by
  simp [leaves]

@[simp] theorem spends_snoc_deposit (h : List Entry) (c : Bytes32) :
    spends (h ++ [.deposit c]) = spends h := by
  simp [spends, Entry.spend?]

@[simp] theorem spends_snoc_spend (h : List Entry) (w : Spend) :
    spends (h ++ [.spend w]) = spends h ++ [w] := by
  simp [spends, Entry.spend?]

@[simp] theorem deposits_snoc_deposit (h : List Entry) (c : Bytes32) :
    deposits (h ++ [.deposit c]) = deposits h + 1 := by
  simp [deposits, List.countP_append, Entry.isDeposit]

@[simp] theorem deposits_snoc_spend (h : List Entry) (w : Spend) :
    deposits (h ++ [.spend w]) = deposits h := by
  simp [deposits, List.countP_append, Entry.isDeposit]

@[simp] theorem payments_snoc_deposit (h : List Entry) (c : Bytes32) :
    payments (h ++ [.deposit c]) = payments h := by
  simp [payments]

@[simp] theorem payments_snoc_spend (h : List Entry) (w : Spend) :
    payments (h ++ [.spend w]) = payments h + w.payment := by
  simp [payments]

variable {env : PoolEnv}

theorem history_append (d : UInt8) (log log' : List (Action env)) :
    history d (log ++ log') = history d log ++ history d log' :=
  List.filterMap_append

theorem history_snoc (d : UInt8) (log : List (Action env)) (a : Action env) :
    history d (log ++ [a]) = history d log ++ (entry d a).toList := by
  cases h : entry d a <;> simp [history, h]

/-- An action that appends nothing to a tree leaves its history. -/
theorem history_snoc_none {d : UInt8} {log : List (Action env)} {a : Action env}
    (h : entry d a = none) : history d (log ++ [a]) = history d log := by
  rw [history_snoc, h]
  simp

theorem history_snoc_some {d : UInt8} {log : List (Action env)} {a : Action env} {e : Entry}
    (h : entry d a = some e) : history d (log ++ [a]) = history d log ++ [e] := by
  rw [history_snoc, h]
  rfl

theorem entry_deposit {slot : UInt64} {accounts : DepositAccounts env} {d : UInt8}
    {commitment : Bytes32} : entry d (.call slot (.deposit accounts d commitment)) =
      some (.deposit commitment) :=
  if_pos rfl

theorem entry_withdraw {slot : UInt64} {accounts : WithdrawAccounts env} {d : UInt8}
    {nullifierHash : Bytes32} {proof : Bytes PROOF_BYTES}
    {signals : Vector Bytes32 PUBLIC_SIGNAL_COUNT} :
    entry d (.call slot (.withdraw accounts d nullifierHash proof signals)) =
      some (.spend { nullifierHash, proof, signals }) :=
  if_pos rfl

theorem entry_config {slot : UInt64} {c : Call env} (hc : c.IsConfig) (d : UInt8) :
    entry d (.call slot c) = none := by
  cases c with
  | deposit | withdraw => exact hc.elim
  | _ => rfl

/-! ### What holds of a denomination -/

/-- What was checked of a withdraw when it followed `before`. -/
structure SpendOk (env : PoolEnv) (amountMicroUsdc : UInt64) (before : List Entry) (w : Spend) :
    Prop where
  nullifierHash : w.nullifierHash = w.signals[2]
  root : w.signals[1] ∈ (roots env.poseidon (leaves before)).drop (before.length - ROOT_HISTORY_LEN)
  amount : w.signals[0] = fieldFromU64 amountMicroUsdc
  payment : w.payment < 2 ^ 64
  proof : env.groth16 w.proof w.signals = true

/-- The accounts of the denomination `d` with the history `h`. -/
structure Held (env : PoolEnv) (s : PoolState) (d : UInt8) (h : List Entry)
    (denomination : Denomination) (tree : MerkleTree) : Prop where
  denomination_eq : s.denomination d = some denomination
  tree_eq : s.tree d = some tree
  bump : denomination.bump = env.bump (.denomination d)
  treeBump : tree.bump = env.bump (.tree d)
  vaultBump : denomination.vaultBump = env.bump (.vault d)
  vault : denomination.vault = env.vault d
  tracks : Tracks env.poseidon tree (leaves h)
  canonical : ∀ e ∈ h, Canonical e.leaf
  count : denomination.depositCount.toNat = deposits h
  vaultAccount : ∃ a, s.ledger.account (env.vault d) = some a ∧ a.mint = denomination.mint ∧
    a.owner = env.vault d
  funds : denomination.amountMicroUsdc.toNat * deposits h ≤
    s.ledger.balance (env.vault d) + payments h
  spent : ∀ x, s.nullifier d x = none ↔ x ∉ (spends h).map Spend.nullifierHash
  nodup : ((spends h).map Spend.nullifierHash).Nodup
  checked : ∀ i w, h[i]? = some (.spend w) →
    SpendOk env denomination.amountMicroUsdc (h.take i) w

/-- Nothing was taken from the account at `k`. -/
def Kept (l l' : Ledger) (k : Pubkey) : Prop :=
  ∀ a, l.account k = some a → ∃ a', l'.account k = some a' ∧ a'.mint = a.mint ∧
    a'.owner = a.owner ∧ a.amount.toNat ≤ a'.amount.toNat

/-- A denomination does not see what happens to the accounts of others. -/
theorem Held.frame {s s' : PoolState} {d : UInt8} {h : List Entry} {denomination : Denomination}
    {tree : MerkleTree} (hh : Held env s d h denomination tree)
    (hd : s'.denomination d = s.denomination d) (ht : s'.tree d = s.tree d)
    (hn : s'.nullifier d = s.nullifier d) (hl : Kept s.ledger s'.ledger (env.vault d)) :
    Held env s' d h denomination tree := by
  obtain ⟨a, ha, hm, ho⟩ := hh.vaultAccount
  obtain ⟨a', ha', hm', ho', hle⟩ := hl a ha
  refine { hh with
    denomination_eq := hd.trans hh.denomination_eq
    tree_eq := ht.trans hh.tree_eq
    vaultAccount := ⟨a', ha', hm'.trans hm, ho'.trans ho⟩
    funds := ?_
    spent := fun x => by rw [hn]; exact hh.spent x }
  have hfunds := hh.funds
  rw [Ledger.balance_eq ha] at hfunds
  rw [Ledger.balance_eq ha']
  omega

/-- The denomination `d` before it is initialised. -/
structure Absent (s : PoolState) (d : UInt8) (h : List Entry) : Prop where
  denomination : s.denomination d = none
  tree : s.tree d = none
  history : h = []
  nullifier : ∀ x, s.nullifier d x = none

/-- What holds of the state a log leads to. -/
structure PoolInv (env : PoolEnv) (log : List (Action env)) (s : PoolState) : Prop where
  config : ∀ config, s.config = some config →
    config.bump = env.bump .config ∧ config.feeBps ≤ 10000
  denominations : ∀ d, Absent s d (history d log) ∨
    ∃ denomination tree, Held env s d (history d log) denomination tree
  vaults : ∀ d d', s.denomination d ≠ none → s.denomination d' ≠ none →
    env.vault d = env.vault d' → d = d'

/-- An initialised denomination is held. -/
theorem PoolInv.held {log : List (Action env)} {s : PoolState} (h : PoolInv env log s) {d : UInt8}
    {denomination : Denomination} (hd : s.denomination d = some denomination) :
    ∃ tree, Held env s d (history d log) denomination tree := by
  rcases h.denominations d with habs | ⟨denomination', tree, hh⟩
  · rw [habs.denomination] at hd; cases hd
  · rw [hh.denomination_eq] at hd
    cases hd
    exact ⟨tree, hh⟩

/-! ### One step -/

theorem Kept.of_balance {l l' : Ledger} {k : Pubkey}
    (h : ∀ a, l.account k = some a → ∃ a', l'.account k = some a' ∧ a'.mint = a.mint ∧
      a'.owner = a.owner) (hle : l.balance k ≤ l'.balance k) : Kept l l' k := by
  intro a ha
  obtain ⟨a', ha', hm, ho⟩ := h a ha
  rw [Ledger.balance_eq ha, Ledger.balance_eq ha'] at hle
  exact ⟨a', ha', hm, ho, hle⟩

theorem Kept.of_moved {l l' : Ledger} {src dst k : Pubkey} {amount : UInt64}
    (h : Ledger.Moved l l' src dst amount) (hk : k ≠ src) : Kept l l' k :=
  .of_balance (fun _ ha => h.account_some ha) (h.balance_le hk)

theorem Kept.of_paidOut {l l' : Ledger} {vault k : Pubkey} {n : ℕ} (h : PaidOut l l' vault n)
    (hk : k ≠ vault) : Kept l l' k :=
  .of_balance (fun a ha => h.keeps k a ha) (h.others k hk)

theorem Kept.of_openAccount {l : Ledger} {j k mint owner : Pubkey} (hj : l.account j = none) :
    Kept l (l.openAccount j mint owner) k := by
  intro a ha
  have hjk : k ≠ j := by
    rintro rfl
    rw [hj] at ha; cases ha
  refine ⟨a, ?_, rfl, rfl, le_refl _⟩
  rw [Ledger.openAccount_account hj, Function.update_of_ne hjk]
  exact ha

/-- A step that touches the accounts of one denomination. -/
theorem PoolInv.update {log : List (Action env)} {s s' : PoolState} {a : Action env}
    (hinv : PoolInv env log s) (d₀ : UInt8) (hconfig : s'.config = s.config)
    (hnew : ∃ denomination tree, Held env s' d₀ (history d₀ (log ++ [a])) denomination tree)
    (hother : ∀ d, d ≠ d₀ → entry d a = none ∧ s'.denomination d = s.denomination d ∧
      s'.tree d = s.tree d ∧ s'.nullifier d = s.nullifier d)
    (hvault : ∀ d, d ≠ d₀ → s.denomination d ≠ none →
      env.vault d ≠ env.vault d₀ ∧ Kept s.ledger s'.ledger (env.vault d)) :
    PoolInv env (log ++ [a]) s' where
  config c hc := hinv.config c (hconfig ▸ hc)
  denominations d := by
    by_cases e : d = d₀
    · subst e
      exact .inr hnew
    · obtain ⟨hentry, hd, ht, hn⟩ := hother d e
      rw [history_snoc_none hentry]
      rcases hinv.denominations d with habs | ⟨denomination, tree, hh⟩
      · exact .inl ⟨hd.trans habs.denomination, ht.trans habs.tree, habs.history,
          fun x => by rw [hn]; exact habs.nullifier x⟩
      · have hsome : s.denomination d ≠ none := by
          rw [hh.denomination_eq]; exact Option.some_ne_none _
        exact .inr ⟨denomination, tree, hh.frame hd ht hn (hvault d e hsome).2⟩
  vaults d d' hd hd' heq := by
    by_cases e : d = d₀
    · subst e
      by_contra e'
      obtain ⟨-, hds', -⟩ := hother d' (Ne.symm e')
      exact (hvault d' (Ne.symm e') (hds' ▸ hd')).1 heq.symm
    · obtain ⟨-, hds, -⟩ := hother d e
      by_cases e' : d' = d₀
      · subst e'
        exact absurd heq (hvault d e (hds ▸ hd)).1
      · obtain ⟨-, hds', -⟩ := hother d' e'
        exact hinv.vaults d d' (hds ▸ hd) (hds' ▸ hd') heq

/-- A step that touches no account of a denomination but to add to its vault. -/
theorem PoolInv.quiet {log : List (Action env)} {s s' : PoolState} {a : Action env}
    (hinv : PoolInv env log s)
    (hconfig : ∀ config, s'.config = some config →
      config.bump = env.bump .config ∧ config.feeBps ≤ 10000)
    (hentry : ∀ d, entry d a = none) (hd : s'.denomination = s.denomination)
    (ht : s'.tree = s.tree) (hn : s'.nullifier = s.nullifier)
    (hl : ∀ d, s.denomination d ≠ none → Kept s.ledger s'.ledger (env.vault d)) :
    PoolInv env (log ++ [a]) s' where
  config := hconfig
  denominations d := by
    rw [history_snoc_none (hentry d)]
    rcases hinv.denominations d with habs | ⟨denomination, tree, hh⟩
    · exact .inl ⟨hd ▸ habs.denomination, ht ▸ habs.tree, habs.history, hn ▸ habs.nullifier⟩
    · have hsome : s.denomination d ≠ none := by
        rw [hh.denomination_eq]
        exact Option.some_ne_none _
      exact .inr ⟨denomination, tree, hh.frame (by rw [hd]) (by rw [ht]) (by rw [hn]) (hl d hsome)⟩
  vaults := hd ▸ hinv.vaults

/-- A new denomination has an empty tree and an empty vault. -/
theorem held_of_initializeDenomination {s : PoolState} (mint : Pubkey) {d : UInt8}
    (amount : UInt64) {tree : MerkleTree} (hnull : ∀ x, s.nullifier d x = none)
    (hvault : s.ledger.account (env.vault d) = none)
    (htree : initializeTree env.poseidon d (env.bump (.tree d)) = .ok tree) :
    Held env (s.deposited d (newDenomination env mint d amount) tree
      (s.ledger.openAccount (env.vault d) mint (env.vault d))) d []
      (newDenomination env mint d amount) tree := by
  obtain ⟨t, ht, htracks, -, hbump⟩ := initializeTree_ok env.poseidon d (env.bump (.tree d))
  obtain rfl : tree = t := by rw [htree] at ht; exact Except.ok.inj ht
  exact
    { denomination_eq := Function.update_self ..
      tree_eq := Function.update_self ..
      bump := rfl
      treeBump := hbump
      vaultBump := rfl
      vault := rfl
      tracks := htracks
      canonical := fun e he => by cases he
      count := rfl
      vaultAccount := ⟨_, by
        show (s.ledger.openAccount _ _ _).account _ = _
        rw [Ledger.openAccount_account hvault, Function.update_self], rfl, rfl⟩
      funds := by simp [deposits]
      spent := fun x => by
        show s.nullifier d x = none ↔ _
        simpa [spends] using hnull x
      nodup := List.nodup_nil
      checked := fun i w h => by simp at h }

theorem getElem?_snoc {α : Type} {xs : List α} {x y : α} {i : ℕ}
    (h : (xs ++ [x])[i]? = some y) : xs[i]? = some y ∨ (i = xs.length ∧ x = y) := by
  rcases lt_trichotomy i xs.length with hi | rfl | hi
  · rw [List.getElem?_append_left hi] at h
    exact .inl h
  · rw [List.getElem?_concat_length] at h
    exact .inr ⟨rfl, Option.some.inj h⟩
  · rw [List.getElem?_append_right (by omega)] at h
    rw [List.getElem?_eq_none (by simp only [List.length_singleton]; omega)] at h
    cases h

/-- What was checked of the earlier withdraws is about the same history. -/
theorem checked_snoc {amount : UInt64} {h : List Entry} {e : Entry}
    (hold : ∀ i w, h[i]? = some (.spend w) → SpendOk env amount (h.take i) w)
    (hnew : ∀ w, e = .spend w → SpendOk env amount h w) :
    ∀ i w, (h ++ [e])[i]? = some (.spend w) → SpendOk env amount ((h ++ [e]).take i) w := by
  intro i w hi
  rcases getElem?_snoc hi with hi | ⟨rfl, he⟩
  · obtain ⟨hlt, -⟩ := List.getElem?_eq_some_iff.mp hi
    rw [List.take_append_of_le_length hlt.le]
    exact hold i w hi
  · rw [List.take_left']
    · exact hnew w he
    · rfl

/-- A deposit appends its commitment and puts the tier amount in the vault. -/
theorem Held.deposit {s : PoolState} {d : UInt8} {h : List Entry} {denomination : Denomination}
    {tree : MerkleTree} (hh : Held env s d h denomination tree) {accounts : DepositAccounts env}
    {commitment : Bytes32} {config : PoolConfig} {ata : TokenAccount} {ledger : Ledger}
    {tree' : MerkleTree} {depositCount : UInt64}
    (hok : DepositOk env s accounts d commitment config denomination tree ata ledger tree'
      depositCount) :
    Held env (s.deposited d { denomination with depositCount } tree' ledger) d
      (h ++ [.deposit commitment]) { denomination with depositCount } tree' := by
  obtain ⟨root, hroot⟩ := hok.append
  obtain ⟨hcan, -, -, htracks, -, hbump⟩ := append_eq_ok hh.tracks hroot
  obtain ⟨ht, rfl⟩ := Ledger.transfer_eq_ok.mp hok.transfer
  obtain ⟨a, ha, hm, ho⟩ := hh.vaultAccount
  obtain ⟨a', ha', hm', ho'⟩ := ht.moved.account_some ha
  -- the depositor signed, and so does not own the vault
  have hne : accounts.depositorAta ≠ env.vault d := by
    intro e
    have hsame : ata = a := Option.some.inj (hok.ata.symm.trans (e ▸ ha))
    exact accounts.depositor.not_derived (.vault d)
      (ho.symm.trans (hsame ▸ hok.owner))
  have hbal := ht.moved.destination hne
  exact
    { denomination_eq := Function.update_self ..
      tree_eq := Function.update_self ..
      bump := hh.bump
      treeBump := hbump.trans hh.treeBump
      vaultBump := hh.vaultBump
      vault := hh.vault
      tracks := by rw [leaves_snoc]; exact htracks
      canonical := by
        intro e he
        rcases List.mem_append.mp he with he | he
        · exact hh.canonical e he
        · rw [List.mem_singleton.mp he]; exact hcan
      count := by
        rw [deposits_snoc_deposit, ← hh.count]
        exact hok.count
      vaultAccount := ⟨a', ha', hm'.trans hm, ho'.trans ho⟩
      funds := by
        have hfunds := hh.funds
        rw [deposits_snoc_deposit, payments_snoc_deposit, Nat.mul_succ]
        show _ ≤ (s.ledger.move _ _ _).balance _ + _
        rw [hbal]
        show denomination.amountMicroUsdc.toNat * _ + denomination.amountMicroUsdc.toNat ≤ _
        omega
      spent := by rw [spends_snoc_deposit]; exact hh.spent
      nodup := by rw [spends_snoc_deposit]; exact hh.nodup
      checked := checked_snoc hh.checked fun w hw => by cases hw }

/-- What a withdraw has checked, against the history it follows. -/
theorem Held.spendOk {s : PoolState} {d : UInt8} {h : List Entry} {denomination : Denomination}
    {tree : MerkleTree} (hh : Held env s d h denomination tree) {accounts : WithdrawAccounts env}
    {nullifierHash : Bytes32} {proof : Bytes PROOF_BYTES}
    {signals : Vector Bytes32 PUBLIC_SIGNAL_COUNT} {config : PoolConfig} {ata : TokenAccount}
    {payment : UInt64}
    (hok : WithdrawChecked env s accounts d nullifierHash proof signals config denomination tree ata
      payment) :
    SpendOk env denomination.amountMicroUsdc h { nullifierHash, proof, signals } where
  nullifierHash := hok.signals.nullifierHash
  root := by
    have hroot := ((hh.tracks.isKnownRoot_iff _).mp hok.signals.root).2
    rwa [roots_length, leaves_length] at hroot
  amount := hok.signals.amount
  payment := by
    show signals[4].toNat < _
    rw [hok.payment_eq]
    exact payment.toNat_lt
  proof := hok.signals.proof

/-- A withdraw records its nullifier, appends its change and takes its payment from the vault. -/
theorem Held.withdraw {s : PoolState} {d : UInt8} {h : List Entry} {denomination : Denomination}
    {tree : MerkleTree} (hh : Held env s d h denomination tree) {accounts : WithdrawAccounts env}
    {nullifierHash : Bytes32} {proof : Bytes PROOF_BYTES}
    {signals : Vector Bytes32 PUBLIC_SIGNAL_COUNT} {config : PoolConfig} {ata : TokenAccount}
    {payment : UInt64} {ledger : Ledger} {root : Bytes32} {tree' : MerkleTree}
    (record : NullifierRecord)
    (hok : WithdrawChecked env s accounts d nullifierHash proof signals config denomination tree ata
      payment)
    (hpaid : PaidOut s.ledger ledger (env.vault d) payment.toNat)
    (happend : (append env.poseidon signals[5]).run tree = .ok root tree') :
    Held env (s.withdrawn d nullifierHash record tree' ledger) d
      (h ++ [.spend { nullifierHash, proof, signals }]) denomination tree' := by
  obtain ⟨hcan, -, -, htracks, -, hbump⟩ := append_eq_ok hh.tracks happend
  obtain ⟨a, ha, hm, ho⟩ := hh.vaultAccount
  obtain ⟨a', ha', hm', ho'⟩ := hpaid.keeps _ a ha
  have hfresh : nullifierHash ∉ (spends h).map Spend.nullifierHash :=
    (hh.spent nullifierHash).mp hok.unspent
  exact
    { denomination_eq := hh.denomination_eq
      tree_eq := Function.update_self ..
      bump := hh.bump
      treeBump := hbump.trans hh.treeBump
      vaultBump := hh.vaultBump
      vault := hh.vault
      tracks := by rw [leaves_snoc]; exact htracks
      canonical := by
        intro e he
        rcases List.mem_append.mp he with he | he
        · exact hh.canonical e he
        · rw [List.mem_singleton.mp he]; exact hcan
      count := by rw [deposits_snoc_spend]; exact hh.count
      vaultAccount := ⟨a', ha', hm'.trans hm, ho'.trans ho⟩
      funds := by
        have hfunds := hh.funds
        have hvault := hpaid.vault
        have hpay : Spend.payment { nullifierHash, proof, signals } = payment.toNat :=
          hok.payment_eq
        rw [deposits_snoc_spend, payments_snoc_spend, hpay]
        show _ ≤ ledger.balance _ + _
        omega
      spent := by
        intro x
        show Function.update s.nullifier d _ d x = none ↔ _
        rw [Function.update_self, spends_snoc_spend, List.map_append, List.map_singleton,
          List.mem_append, List.mem_singleton]
        by_cases e : x = nullifierHash
        · subst e
          simp
        · rw [Function.update_of_ne e, hh.spent x]
          simp [e]
      nodup := by
        rw [spends_snoc_spend, List.map_append, List.map_singleton]
        exact hh.nodup.append (List.nodup_singleton _)
          (List.disjoint_singleton.mpr hfresh)
      checked := checked_snoc hh.checked fun w hw => by cases hw; exact hh.spendOk hok }

theorem PoolInv.external {log : List (Action env)} {s : PoolState} {ledger : Ledger}
    (hinv : PoolInv env log s)
    (hkeeps : s.ledger.KeepsOwnedBy (fun owner => ∃ seed, env.address seed = owner) ledger) :
    PoolInv env (log ++ [.external ledger]) { s with ledger } := by
  refine hinv.quiet hinv.config (fun _ => rfl) rfl rfl rfl fun d hd => ?_
  obtain ⟨denomination, hd'⟩ := Option.ne_none_iff_exists'.mp hd
  obtain ⟨tree, hh⟩ := hinv.held hd'
  obtain ⟨v, hv, -, ho⟩ := hh.vaultAccount
  intro b hb
  rw [hv] at hb
  cases hb
  exact hkeeps _ _ hv ⟨_, ho.symm⟩

theorem PoolInv.initializeDenomination {log : List (Action env)} {s s' : PoolState}
    {slot : UInt64} {admin : PoolSigner env} {mint : Pubkey} {d : UInt8} {amount : UInt64}
    (hinv : PoolInv env log s)
    (h : Pool.initializeDenomination env s admin mint d amount = .ok s') :
    PoolInv env (log ++ [.call slot (.initializeDenomination admin mint d amount)]) s' := by
  obtain ⟨config, tree, hc, -, hd, ht, hv, -, -, htree, rfl⟩ := initializeDenomination_eq_ok.mp h
  have habs : Absent s d (history d log) := by
    rcases hinv.denominations d with habs | ⟨denomination, tree, hh⟩
    · exact habs
    · rw [hh.denomination_eq] at hd; cases hd
  have hnew := held_of_initializeDenomination mint amount habs.nullifier hv htree
  have hhist : history d (log ++ [.call slot (.initializeDenomination admin mint d amount)]) = [] :=
    (history_snoc_none rfl).trans habs.history
  rw [← hhist] at hnew
  refine hinv.update d rfl ⟨_, tree, hnew⟩ (fun d' hd' => ⟨rfl, ?_, ?_, rfl⟩) ?_
  · exact Function.update_of_ne hd' ..
  · exact Function.update_of_ne hd' ..
  · intro d' hd' hsome
    refine ⟨fun e => ?_, Kept.of_openAccount hv⟩
    -- the vault of `d'` exists, and that of `d` did not
    obtain ⟨denomination, hden⟩ := Option.ne_none_iff_exists'.mp hsome
    obtain ⟨tree, hh⟩ := hinv.held hden
    obtain ⟨v, hv', -⟩ := hh.vaultAccount
    rw [e, hv] at hv'
    cases hv'

theorem PoolInv.deposit {log : List (Action env)} {s s' : PoolState} {slot : UInt64}
    {accounts : DepositAccounts env} {d : UInt8} {commitment : Bytes32}
    (hinv : PoolInv env log s) (h : Pool.deposit env s accounts d commitment = .ok s') :
    PoolInv env (log ++ [.call slot (.deposit accounts d commitment)]) s' := by
  obtain ⟨config, denomination, tree, ata, ledger, tree', count, hok, rfl⟩ := deposit_eq_ok.mp h
  obtain ⟨tree₀, hh⟩ := hinv.held hok.denomination_eq
  obtain rfl : tree₀ = tree := Option.some.inj (hh.tree_eq.symm.trans hok.tree_eq)
  have hsome : s.denomination d ≠ none := by rw [hok.denomination_eq]; exact Option.some_ne_none _
  have hnew := hh.deposit hok
  rw [← history_snoc_some entry_deposit] at hnew
  refine hinv.update d rfl ⟨_, tree', hnew⟩
    (fun d' hd' => ⟨if_neg (Ne.symm hd'), ?_, ?_, rfl⟩) ?_
  · exact Function.update_of_ne hd' ..
  · exact Function.update_of_ne hd' ..
  · intro d' hd' hsome'
    refine ⟨fun e => hd' (hinv.vaults d' d hsome' hsome e), ?_⟩
    obtain ⟨denomination', hden'⟩ := Option.ne_none_iff_exists'.mp hsome'
    obtain ⟨tree'', hh'⟩ := hinv.held hden'
    obtain ⟨v, hv, -, ho⟩ := hh'.vaultAccount
    obtain ⟨ht, rfl⟩ := Ledger.transfer_eq_ok.mp hok.transfer
    refine Kept.of_moved ht.moved fun e => ?_
    have hsame : ata = v := Option.some.inj (hok.ata.symm.trans (e ▸ hv))
    exact accounts.depositor.not_derived (.vault d') (ho.symm.trans (hsame ▸ hok.owner))

theorem PoolInv.withdraw {log : List (Action env)} {s s' : PoolState} {slot : UInt64}
    {accounts : WithdrawAccounts env} {d : UInt8} {nullifierHash : Bytes32}
    {proof : Bytes PROOF_BYTES} {signals : Vector Bytes32 PUBLIC_SIGNAL_COUNT}
    (hinv : PoolInv env log s)
    (h : Pool.withdraw env s slot accounts d nullifierHash proof signals = .ok s') :
    PoolInv env (log ++ [.call slot (.withdraw accounts d nullifierHash proof signals)]) s' := by
  obtain ⟨config, denomination, tree, ata, payment, ledger, tree', hok, hpay, ⟨root, happ⟩, rfl⟩ :=
    withdraw_eq_ok.mp h
  obtain ⟨tree₀, hh⟩ := hinv.held hok.denomination_eq
  obtain rfl : tree₀ = tree := Option.some.inj (hh.tree_eq.symm.trans hok.tree_eq)
  have hsome : s.denomination d ≠ none := by rw [hok.denomination_eq]; exact Option.some_ne_none _
  have hpaid := paidOut_of_payOut hpay
  have hnew := hh.withdraw (nullifierRecord env d nullifierHash slot) hok hpaid happ
  rw [← history_snoc_some entry_withdraw] at hnew
  refine hinv.update d rfl ⟨_, tree', hnew⟩
    (fun d' hd' => ⟨if_neg (Ne.symm hd'), rfl, ?_, ?_⟩) ?_
  · exact Function.update_of_ne hd' ..
  · exact Function.update_of_ne hd' ..
  · intro d' hd' hsome'
    have hne : env.vault d' ≠ env.vault d := fun e => hd' (hinv.vaults d' d hsome' hsome e)
    exact ⟨hne, Kept.of_paidOut hpaid hne⟩

/-- **One step** keeps the invariant. -/
theorem PoolInv.step {log : List (Action env)} {s s' : PoolState} {a : Action env}
    (hinv : PoolInv env log s) (hstep : Step env s a s') : PoolInv env (log ++ [a]) s' := by
  cases hstep with
  | external hkeeps => exact hinv.external hkeeps
  | @call _ slot c hexec =>
      cases c with
      | initializeDenomination admin mint d amount => exact hinv.initializeDenomination hexec
      | deposit accounts d commitment => exact hinv.deposit hexec
      | withdraw accounts d nullifierHash proof signals => exact hinv.withdraw hexec
      | initializePool | setPaused | queueVkUpgrade | applyVkUpgrade | setFeeVault =>
          obtain ⟨config, hb, hfee, rfl⟩ := exec_config hexec trivial
          refine hinv.quiet ?_ (entry_config trivial) rfl rfl rfl fun d _ b hb' =>
            ⟨b, hb', rfl, rfl, le_refl _⟩
          rintro config' hc
          cases hc
          exact ⟨hb, hfee fun old hold => (hinv.config old hold).2⟩

/-- **Every run** has the invariant. -/
theorem poolInv_of_run {log : List (Action env)} {s : PoolState} (h : PoolRun env log s) :
    PoolInv env log s := by
  refine h.invariant (PoolInv env) (fun s hs => ?_) fun log s a s' _ hinv hstep => hinv.step hstep
  refine ⟨fun config hc => ?_, fun d => .inl ?_, fun d d' hd => absurd (hs.denomination d) hd⟩
  · rw [hs.config] at hc; cases hc
  · exact ⟨hs.denomination d, hs.tree d, rfl, hs.nullifier d⟩

/-- A tree that there is has the leaves of its history. -/
theorem tracks_tree {log : List (Action env)} {s : PoolState} (h : PoolRun env log s) {d : UInt8}
    {tree : MerkleTree} (htree : s.tree d = some tree) :
    Tracks env.poseidon tree (leaves (history d log)) := by
  rcases (poolInv_of_run h).denominations d with habs | ⟨_, tree', hheld⟩
  · rw [habs.tree] at htree
    cases htree
  · rw [hheld.tree_eq] at htree
    exact Option.some.inj htree ▸ hheld.tracks

/-- Each tree names its denomination. -/
def PoolState.TreesNamed (s : PoolState) : Prop :=
  ∀ d tree, s.tree d = some tree → tree.denomId = d

theorem PoolState.TreesNamed.update {s s' : PoolState} (hs : s.TreesNamed) {d : UInt8}
    {tree : MerkleTree} (htree : tree.denomId = d)
    (h : s'.tree = Function.update s.tree d (some tree)) : s'.TreesNamed := by
  intro d' tree' htree'
  rw [h] at htree'
  by_cases hd : d' = d
  · subst hd
    rw [Function.update_self] at htree'
    exact Option.some.inj htree' ▸ htree
  · rw [Function.update_of_ne hd] at htree'
    exact hs d' tree' htree'

theorem treesNamed_of_run {log : List (Action env)} {s : PoolState} (h : PoolRun env log s) :
    s.TreesNamed := by
  refine h.invariant (fun _ s => s.TreesNamed) (fun s hs d tree htree => ?_)
    fun log s a s' hrun hs hstep => ?_
  · rw [hs.tree] at htree
    cases htree
  · cases hstep with
    | external hkeeps => exact hs
    | @call _ slot c hexec =>
        cases c with
        | initializeDenomination admin mint d amount =>
            obtain ⟨_, tree, -, -, -, -, -, -, -, htree, rfl⟩ :=
              initializeDenomination_eq_ok.mp hexec
            obtain ⟨tree', htree', -, hname, -⟩ :=
              initializeTree_ok env.poseidon d (env.bump (.tree d))
            rw [htree'] at htree
            cases htree
            exact hs.update hname rfl
        | deposit accounts d commitment =>
            obtain ⟨_, _, tree, _, _, tree', _, hok, rfl⟩ := deposit_eq_ok.mp hexec
            obtain ⟨root, happend⟩ := hok.append
            have hname := (append_eq_ok (tracks_tree hrun hok.tree_eq) happend).2.2.2.2.1
            exact hs.update (hname.trans (hs d tree hok.tree_eq)) rfl
        | withdraw accounts d nullifierHash proof signals =>
            obtain ⟨_, _, tree, _, _, _, tree', hok, -, ⟨root, happend⟩, rfl⟩ :=
              withdraw_eq_ok.mp hexec
            have hname := (append_eq_ok (tracks_tree hrun hok.tree_eq) happend).2.2.2.2.1
            exact hs.update (hname.trans (hs d tree hok.tree_eq)) rfl
        | initializePool | setPaused | queueVkUpgrade | applyVkUpgrade | setFeeVault =>
            obtain ⟨_, -, -, rfl⟩ := exec_config hexec trivial
            exact hs

end Qietr.Pool
