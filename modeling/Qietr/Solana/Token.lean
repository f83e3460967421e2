import Qietr.Solana.Runtime
import Mathlib.Algebra.BigOperators.Group.Finset.Basic
import Mathlib.Algebra.Order.BigOperators.Group.Finset

/-!
# Solana — SPL token accounts

The token program's accounts and its `Transfer`, as the programs call it: the authority is the
account's owner, and no account is frozen or delegated.

* `Ledger`: token accounts and mints.  The supply of a mint bounds what its accounts hold together,
  which is why a transfer cannot overflow its destination.
* `Ledger.transfer`: the transfer, in the order the token program makes its checks.
* `Ledger.transfer_eq_ok`: when it succeeds; `Ledger.Moved`: what it then leaves.
* `Ledger.KeepsOwnedBy`: what anybody else may do to the accounts of owners who did not sign.
-/

namespace Qietr

open Outcome

/-- A token account. -/
structure TokenAccount where
  mint : Pubkey
  /-- The authority over the account's tokens. -/
  owner : Pubkey
  amount : UInt64
  deriving DecidableEq

/-- What the account at `k` holds of the mint `m`. -/
def holding (account : Pubkey → Option TokenAccount) (m k : Pubkey) : ℕ :=
  match account k with
  | some a => if a.mint = m then a.amount.toNat else 0
  | none => 0

/-- The token program's state. -/
structure Ledger where
  account : Pubkey → Option TokenAccount
  /-- The mints, each with its supply. -/
  supply : Pubkey → Option UInt64
  /-- The accounts of a mint hold no more than its supply. -/
  backed : ∀ (m : Pubkey) (S : Finset Pubkey),
    ∑ k ∈ S, holding account m k ≤ ((supply m).getD 0).toNat

namespace Ledger

/-- What the account at `k` holds, of whichever mint it is. -/
def balance (l : Ledger) (k : Pubkey) : ℕ :=
  match l.account k with
  | some a => a.amount.toNat
  | none => 0

theorem balance_eq {l : Ledger} {k : Pubkey} {a : TokenAccount} (h : l.account k = some a) :
    l.balance k = a.amount.toNat := by
  simp [balance, h]

theorem holding_eq {account : Pubkey → Option TokenAccount} {k : Pubkey} {a : TokenAccount}
    (h : account k = some a) (m : Pubkey) :
    holding account m k = if a.mint = m then a.amount.toNat else 0 := by
  simp [holding, h]

/-- Two accounts of one mint together hold less than `2 ^ 64`. -/
theorem add_lt (l : Ledger) {j k : Pubkey} {a b : TokenAccount} (hjk : j ≠ k)
    (ha : l.account j = some a) (hb : l.account k = some b) (hm : a.mint = b.mint) :
    a.amount.toNat + b.amount.toNat < 2 ^ 64 := by
  have h := l.backed b.mint {j, k}
  rw [Finset.sum_pair hjk, holding_eq ha, holding_eq hb, if_pos hm, if_pos rfl] at h
  exact lt_of_le_of_lt h (UInt64.toNat_lt _)

/-! ### Moving tokens -/

/-- The accounts after `amount` went from `src` to `dst`. -/
def moved (account : Pubkey → Option TokenAccount) (src dst : Pubkey) (amount : UInt64) :
    Pubkey → Option TokenAccount := fun k =>
  if k = src then (account src).map fun a => { a with amount := a.amount - amount }
  else if k = dst then (account dst).map fun b => { b with amount := b.amount + amount }
  else account k

/-- `amount` can go from `src` to `dst`. -/
def Movable (l : Ledger) (src dst : Pubkey) (amount : UInt64) : Prop :=
  src ≠ dst ∧ ∃ a ∈ l.account src, ∃ b ∈ l.account dst,
    a.mint = b.mint ∧ amount.toNat ≤ a.amount.toNat

instance (l : Ledger) (src dst : Pubkey) (amount : UInt64) :
    Decidable (l.Movable src dst amount) :=
  inferInstanceAs (Decidable (_ ∧ _))

theorem moved_src {account : Pubkey → Option TokenAccount} {src dst : Pubkey} {amount : UInt64}
    {a : TokenAccount} (ha : account src = some a) :
    moved account src dst amount src = some { a with amount := a.amount - amount } := by
  simp [moved, ha]

theorem moved_dst {account : Pubkey → Option TokenAccount} {src dst : Pubkey} {amount : UInt64}
    {b : TokenAccount} (hne : src ≠ dst) (hb : account dst = some b) :
    moved account src dst amount dst = some { b with amount := b.amount + amount } := by
  simp [moved, hne.symm, hb]

theorem moved_other {account : Pubkey → Option TokenAccount} {src dst k : Pubkey}
    {amount : UInt64} (hs : k ≠ src) (hd : k ≠ dst) :
    moved account src dst amount k = account k := by
  simp [moved, hs, hd]

/-- A move within a mint leaves the holdings of every set of accounts that has both ends. -/
theorem sum_holding_moved (l : Ledger) {src dst : Pubkey} {amount : UInt64}
    (h : l.Movable src dst amount) (m : Pubkey) {S : Finset Pubkey} (hs : src ∈ S) (hd : dst ∈ S) :
    ∑ k ∈ S, holding (moved l.account src dst amount) m k = ∑ k ∈ S, holding l.account m k := by
  obtain ⟨hne, a, ha, b, hb, hm, hle⟩ := h
  have hlt := l.add_lt hne ha hb hm
  have hsub : (a.amount - amount).toNat = a.amount.toNat - amount.toNat :=
    UInt64.toNat_sub_of_le _ _ hle
  have hadd : (b.amount + amount).toNat = b.amount.toNat + amount.toNat := by
    rw [UInt64.toNat_add, Nat.mod_eq_of_lt (by omega)]
  have hd' : dst ∈ S.erase src := Finset.mem_erase.mpr ⟨hne.symm, hd⟩
  rw [← Finset.add_sum_erase S _ hs, ← Finset.add_sum_erase _ _ hd',
    ← Finset.add_sum_erase S (holding l.account m) hs,
    ← Finset.add_sum_erase _ (holding l.account m) hd']
  rw [holding_eq (moved_src ha), holding_eq (moved_dst hne hb), holding_eq ha, holding_eq hb]
  have hrest : ∑ k ∈ (S.erase src).erase dst, holding (moved l.account src dst amount) m k =
      ∑ k ∈ (S.erase src).erase dst, holding l.account m k := by
    refine Finset.sum_congr rfl fun k hk => ?_
    rw [Finset.mem_erase, Finset.mem_erase] at hk
    rw [holding, holding, moved_other hk.2.1 hk.1]
  rw [hrest]
  simp only [hm, hsub, hadd]
  split <;> omega

/-- A move keeps every mint backed. -/
theorem moved_backed (l : Ledger) {src dst : Pubkey} {amount : UInt64}
    (h : l.Movable src dst amount) (m : Pubkey) (S : Finset Pubkey) :
    ∑ k ∈ S, holding (moved l.account src dst amount) m k ≤ ((l.supply m).getD 0).toNat := by
  have hsub : S ⊆ insert src (insert dst S) := fun k hk =>
    Finset.mem_insert_of_mem (Finset.mem_insert_of_mem hk)
  calc ∑ k ∈ S, holding (moved l.account src dst amount) m k
      ≤ ∑ k ∈ insert src (insert dst S), holding (moved l.account src dst amount) m k :=
        Finset.sum_le_sum_of_subset hsub
    _ = ∑ k ∈ insert src (insert dst S), holding l.account m k :=
        l.sum_holding_moved h m (by simp) (by simp)
    _ ≤ _ := l.backed m _

/-- `amount` goes from `src` to `dst`, when it can. -/
def move (l : Ledger) (src dst : Pubkey) (amount : UInt64) : Ledger :=
  if h : l.Movable src dst amount then
    { account := moved l.account src dst amount, supply := l.supply, backed := l.moved_backed h }
  else l

/-- SPL `Transfer`, signed by `authority`. -/
def transfer (l : Ledger) (src dst authority : Pubkey) (amount : UInt64) :
    Except TokenError Ledger := do
  let source ← okOr (l.account src) .uninitializedAccount
  let destination ← okOr (l.account dst) .uninitializedAccount
  require (amount.toNat ≤ source.amount.toNat) .insufficientFunds
  require (source.mint = destination.mint) .mintMismatch
  require (source.owner = authority) .ownerMismatch
  -- a self-transfer moves nothing
  if src = dst then .ok l
  else do
    let _ ← okOr (checkedAdd destination.amount amount) .overflow
    .ok (l.move src dst amount)

/-! ### What a transfer does -/

theorem transfer_ne_insufficientFunds {l : Ledger} {src dst authority : Pubkey} {amount : UInt64}
    (h : amount.toNat ≤ l.balance src) :
    l.transfer src dst authority amount ≠ .error .insufficientFunds := by
  intro herr
  unfold transfer at herr
  simp only [bind_eq_error, okOr_eq_error, require_eq_error, okOr_eq_ok, require_eq_ok,
    reduceCtorEq, and_false, false_or, and_true, exists_and_left, exists_const] at herr
  obtain ⟨a, ha, b, -, hlt | ⟨-, -, -, hmove⟩⟩ := herr
  · rw [balance_eq ha] at h
    exact hlt h
  · split at hmove
    · cases hmove
    · simp [bind_eq_error] at hmove

/-- The ledger after `amount` went from `src` to `dst`. -/
structure Moved (l l' : Ledger) (src dst : Pubkey) (amount : UInt64) : Prop where
  supply : l'.supply = l.supply
  /-- Mints and owners stay. -/
  keeps : ∀ k, (l'.account k).map (fun a => (a.mint, a.owner)) =
    (l.account k).map (fun a => (a.mint, a.owner))
  other : ∀ k, k ≠ src → k ≠ dst → l'.account k = l.account k
  self : src = dst → l' = l
  source : src ≠ dst → l'.balance src + amount.toNat = l.balance src
  destination : src ≠ dst → l'.balance dst = l.balance dst + amount.toNat

/-- The accounts and the balance a transfer of `amount` needs. -/
def Transferable (l : Ledger) (src dst authority : Pubkey) (amount : UInt64) : Prop :=
  ∃ a b, l.account src = some a ∧ l.account dst = some b ∧ amount.toNat ≤ a.amount.toNat ∧
    a.mint = b.mint ∧ a.owner = authority

/-- **A transfer succeeds** exactly when it has its accounts, its authority and the funds. -/
theorem transfer_eq_ok {l l' : Ledger} {src dst authority : Pubkey} {amount : UInt64} :
    l.transfer src dst authority amount = .ok l' ↔
      l.Transferable src dst authority amount ∧ l' = l.move src dst amount := by
  unfold transfer Transferable
  simp only [okOr_bind_eq_ok, require_bind_eq_ok]
  refine ⟨?_, ?_⟩
  · rintro ⟨a, ha, b, hb, hle, hm, ho, h⟩
    refine ⟨⟨a, b, ha, hb, hle, hm, ho⟩, ?_⟩
    by_cases e : src = dst
    · rw [if_pos e] at h
      cases h
      rw [move, dif_neg fun hmv => hmv.1 e]
    · rw [if_neg e] at h
      obtain ⟨c, -, h⟩ := okOr_bind_eq_ok.mp h
      cases h
      rfl
  · rintro ⟨⟨a, b, ha, hb, hle, hm, ho⟩, rfl⟩
    refine ⟨a, ha, b, hb, hle, hm, ho, ?_⟩
    by_cases e : src = dst
    · rw [if_pos e, move, dif_neg fun hmv => hmv.1 e]
    · rw [if_neg e]
      have hlt := l.add_lt e ha hb hm
      exact okOr_bind_eq_ok.mpr ⟨_, checkedAdd_of_lt (by omega), rfl⟩

/-- **What a transfer leaves.** -/
theorem Transferable.moved {l : Ledger} {src dst authority : Pubkey} {amount : UInt64}
    (h : l.Transferable src dst authority amount) :
    Moved l (l.move src dst amount) src dst amount := by
  obtain ⟨a, b, ha, hb, hle, hm, -⟩ := h
  by_cases e : src = dst
  · have hself : l.move src dst amount = l := dif_neg fun hmv => hmv.1 e
    rw [hself]
    exact ⟨rfl, fun _ => rfl, fun _ _ _ => rfl, fun _ => rfl, (absurd e ·), (absurd e ·)⟩
  · have hmov : l.Movable src dst amount := ⟨e, a, ha, b, hb, hm, hle⟩
    have hmv : (l.move src dst amount).account = Ledger.moved l.account src dst amount := by
      rw [move, dif_pos hmov]
    have hsrc := (congrFun hmv src).trans (moved_src ha)
    have hdst := (congrFun hmv dst).trans (moved_dst e hb)
    have hlt := l.add_lt e ha hb hm
    refine ⟨by rw [move, dif_pos hmov], fun k => ?_, fun k hs hd => ?_, (absurd · e), ?_, ?_⟩
    · by_cases hs : k = src
      · rw [hs, hsrc, ha]; rfl
      · by_cases hd : k = dst
        · rw [hd, hdst, hb]; rfl
        · rw [hmv, moved_other hs hd]
    · rw [hmv, moved_other hs hd]
    · intro _
      rw [balance_eq hsrc, balance_eq ha]
      show (a.amount - amount).toNat + _ = _
      rw [UInt64.toNat_sub_of_le _ _ hle]
      omega
    · intro _
      rw [balance_eq hdst, balance_eq hb]
      show (b.amount + amount).toNat = _
      rw [UInt64.toNat_add, Nat.mod_eq_of_lt (by omega)]

theorem Moved.account_some {l l' : Ledger} {src dst : Pubkey} {amount : UInt64}
    (h : Moved l l' src dst amount) {k : Pubkey} {a : TokenAccount} (ha : l.account k = some a) :
    ∃ a', l'.account k = some a' ∧ a'.mint = a.mint ∧ a'.owner = a.owner := by
  have hk := h.keeps k
  rw [ha] at hk
  cases e : l'.account k with
  | none => rw [e] at hk; cases hk
  | some a' =>
      rw [e] at hk
      simp only [Option.map_some, Option.some.injEq, Prod.mk.injEq] at hk
      exact ⟨a', rfl, hk⟩

theorem Moved.account_none {l l' : Ledger} {src dst : Pubkey} {amount : UInt64}
    (h : Moved l l' src dst amount) {k : Pubkey} (hk : l.account k = none) :
    l'.account k = none := by
  have hkeep := h.keeps k
  rw [hk] at hkeep
  exact Option.map_eq_none_iff.mp hkeep

/-- Only the source of a transfer loses tokens, and it loses at most the amount. -/
theorem Moved.balance_le {l l' : Ledger} {src dst : Pubkey} {amount : UInt64}
    (h : Moved l l' src dst amount) {k : Pubkey} (hk : k ≠ src) : l.balance k ≤ l'.balance k := by
  by_cases e : src = dst
  · rw [h.self e]
  · by_cases hd : k = dst
    · rw [hd, h.destination e]; omega
    · rw [balance, balance, h.other k hk hd]

/-- **The balance of every account** after a transfer; one to itself leaves it. -/
theorem Moved.balance_add {l l' : Ledger} {src dst : Pubkey} {amount : UInt64}
    (h : Moved l l' src dst amount) (k : Pubkey) :
    l'.balance k + (if k = src ∧ src ≠ dst then amount.toNat else 0) =
      l.balance k + (if k = dst ∧ src ≠ dst then amount.toNat else 0) := by
  by_cases e : src = dst
  · rw [h.self e, if_neg fun hk => hk.2 e, if_neg fun hk => hk.2 e]
  · by_cases hs : k = src
    · have hd : k ≠ dst := fun hd => e (hs.symm.trans hd)
      rw [if_pos ⟨hs, e⟩, if_neg fun hk => hd hk.1, hs, h.source e, Nat.add_zero]
    · rw [if_neg fun hk => hs hk.1]
      by_cases hd : k = dst
      · rw [if_pos ⟨hd, e⟩, hd, h.destination e, Nat.add_zero]
      · rw [if_neg fun hk => hd hk.1, balance, balance, h.other k hs hd]

/-! ### Opening an account -/

/-- A new, empty account at `k`. -/
def openAccount (l : Ledger) (k mint owner : Pubkey) : Ledger :=
  if h : l.account k = none then
    { account := Function.update l.account k (some { mint, owner, amount := 0 })
      supply := l.supply
      backed := fun m S => by
        refine le_trans (le_of_eq (Finset.sum_congr rfl fun j _ => ?_)) (l.backed m S)
        by_cases e : j = k
        · subst e; simp [holding, h]
        · rw [holding, holding, Function.update_of_ne e] }
  else l

theorem openAccount_account {l : Ledger} {k : Pubkey} (h : l.account k = none)
    (mint owner : Pubkey) :
    (l.openAccount k mint owner).account =
      Function.update l.account k (some { mint, owner, amount := 0 }) := by
  rw [openAccount, dif_pos h]

theorem openAccount_supply (l : Ledger) (k mint owner : Pubkey) :
    (l.openAccount k mint owner).supply = l.supply := by
  rw [openAccount]
  split <;> rfl

/-! ### What others do -/

/-- Anything may happen to the ledger but that an account whose owner satisfies `P`, and did not
sign, is spent from, given away or closed. -/
def KeepsOwnedBy (P : Pubkey → Prop) (l l' : Ledger) : Prop :=
  ∀ k a, l.account k = some a → P a.owner →
    ∃ a', l'.account k = some a' ∧ a'.mint = a.mint ∧ a'.owner = a.owner ∧
      a.amount.toNat ≤ a'.amount.toNat

namespace KeepsOwnedBy

variable {P : Pubkey → Prop} {l l₁ l₂ : Ledger}

theorem refl (l : Ledger) : KeepsOwnedBy P l l := fun _ a ha _ => ⟨a, ha, rfl, rfl, le_refl _⟩

theorem trans (h₁ : KeepsOwnedBy P l l₁) (h₂ : KeepsOwnedBy P l₁ l₂) : KeepsOwnedBy P l l₂ := by
  intro k a ha hP
  obtain ⟨a₁, ha₁, hm₁, ho₁, hle₁⟩ := h₁ k a ha hP
  obtain ⟨a₂, ha₂, hm₂, ho₂, hle₂⟩ := h₂ k a₁ ha₁ (ho₁ ▸ hP)
  exact ⟨a₂, ha₂, hm₂.trans hm₁, ho₂.trans ho₁, hle₁.trans hle₂⟩

/-- A transfer takes only from its authority. -/
theorem of_transferable {src dst authority : Pubkey} {amount : UInt64}
    (h : l.Transferable src dst authority amount) (hP : ¬ P authority) :
    KeepsOwnedBy P l (l.move src dst amount) := by
  intro k a ha hPa
  have hk : k ≠ src := by
    rintro rfl
    obtain ⟨a', -, ha', -, -, -, ho⟩ := h
    rw [ha] at ha'
    cases ha'
    exact hP (ho ▸ hPa)
  obtain ⟨a', ha', hm, ho⟩ := h.moved.account_some ha
  have hle := h.moved.balance_le hk
  rw [balance_eq ha, balance_eq ha'] at hle
  exact ⟨a', ha', hm, ho, hle⟩

theorem of_openAccount {k mint owner : Pubkey} (h : l.account k = none) :
    KeepsOwnedBy P l (l.openAccount k mint owner) := by
  intro j a ha _
  have hj : j ≠ k := by
    rintro rfl
    rw [h] at ha
    cases ha
  refine ⟨a, ?_, rfl, rfl, le_refl _⟩
  rw [openAccount_account h, Function.update_of_ne hj, ha]

end KeepsOwnedBy

end Ledger

end Qietr
