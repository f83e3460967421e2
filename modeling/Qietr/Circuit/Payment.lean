import Qietr.Circuit.Templates

/-!
# Circuit — `QietrPayment`

The main template of `qietr_payment.circom`, and what its constraints say of the public signals.

* `PublicSignals`: the six, in the order the verifier takes them.
* `Witness depth`: the private signals, inputs and intermediates.
* `QietrPayment P pub w`: the constraints.
* `Opens P pub …`: the statement the circuit is meant for: a note in the tree, its nullifier,
  and what is left of it.
* `QietrPayment.opens`: soundness, about the witness's own inputs.
* `qietrPayment_iff`: there is a witness exactly when the statement holds.
-/

namespace Qietr.Circuit

open FieldBits HashTree

/-- The public signals. -/
structure PublicSignals where
  amount : F
  root : F
  nullifierHash : F
  recipient : F
  paymentAmount : F
  changeCommitment : F
  deriving DecidableEq

/-- The private signals of `QietrPayment(depth)`. -/
structure Witness (depth : ℕ) where
  secret : F
  nullifier : F
  newSecret : F
  newNullifier : F
  pathElements : Fin depth → F
  pathIndices : Fin depth → F
  commitment : F
  tree : MerkleSignals depth
  amountBits : Fin 64 → F
  paymentIsZeroInv : F
  paymentIsZeroOut : F
  paymentBits : Fin 64 → F
  paymentLEBits : Fin 65 → F
  paymentLEOut : F
  change : F
  recipientBound : F

/-- The path of a witness. -/
def Witness.path {depth : ℕ} (w : Witness depth) : List (F × Bool) :=
  pathOf w.pathElements fun i => decide (w.pathIndices i = 1)

/-- The constraints of `QietrPayment(depth)`. -/
structure QietrPayment (P : Poseidon) {depth : ℕ} (pub : PublicSignals) (w : Witness depth) :
    Prop where
  commitmentHasher : w.commitment = P.three w.secret w.nullifier pub.amount
  tree : MerkleTreeChecker P w.commitment pub.root w.pathElements w.pathIndices w.tree
  nullifierHasher : pub.nullifierHash = P.one w.nullifier
  amountBits : Num2Bits pub.amount w.amountBits
  paymentIsZero : IsZero pub.paymentAmount w.paymentIsZeroInv w.paymentIsZeroOut
  paymentIsZero_out : w.paymentIsZeroOut = 0
  paymentBits : Num2Bits pub.paymentAmount w.paymentBits
  paymentLE : LessEqThan 64 pub.paymentAmount pub.amount w.paymentLEBits w.paymentLEOut
  paymentLE_out : w.paymentLEOut = 1
  change_def : w.change = pub.amount - pub.paymentAmount
  changeHasher : pub.changeCommitment = P.three w.newSecret w.newNullifier w.change
  recipientBound_def : w.recipientBound = pub.recipient * pub.recipient

/-- The amounts a proof is about: `payment` out of `amount`, both in `u64`. -/
structure Amounts (pub : PublicSignals) (amount payment : ℕ) : Prop where
  amount_eq : pub.amount = (amount : F)
  payment_eq : pub.paymentAmount = (payment : F)
  pos : 1 ≤ payment
  le : payment ≤ amount
  lt : amount < 2 ^ 64

/-- `pub` opens the note `(secret, nullifier)` of `amount` at the end of `path`, pays `payment`
out of it and commits to the rest under `(newSecret, newNullifier)`. -/
structure Opens (P : Poseidon) (pub : PublicSignals) (secret nullifier newSecret newNullifier : F)
    (path : List (F × Bool)) (amount payment : ℕ) : Prop extends Amounts pub amount payment where
  root_eq : pub.root = fold P.two (P.three secret nullifier (amount : F)) path
  nullifier_eq : pub.nullifierHash = P.one nullifier
  change_eq : pub.changeCommitment = P.three newSecret newNullifier ((amount - payment : ℕ) : F)

/-- The statement of `QietrPayment(depth)`. -/
def PaymentStatement (P : Poseidon) (depth : ℕ) (pub : PublicSignals) : Prop :=
  ∃ (secret nullifier newSecret newNullifier : F) (siblings : Fin depth → F)
    (bits : Fin depth → Bool) (amount payment : ℕ),
    Opens P pub secret nullifier newSecret newNullifier (pathOf siblings bits) amount payment

variable {P : Poseidon} {depth : ℕ} {pub : PublicSignals}

/-- The range and comparison constraints say that the amounts are. -/
theorem QietrPayment.amounts {w : Witness depth} (h : QietrPayment P pub w) :
    ∃ amount payment, Amounts pub amount payment := by
  obtain ⟨a, ha, hamount⟩ := num2Bits_iff.mp ⟨_, h.amountBits⟩
  obtain ⟨p, hp, hpayment⟩ := num2Bits_iff.mp ⟨_, h.paymentBits⟩
  have hnonzero : pub.paymentAmount ≠ 0 :=
    isZero_iff.mp ⟨_, _, h.paymentIsZero, h.paymentIsZero_out⟩
  have hle := h.paymentLE
  rw [hamount, hpayment] at hle
  refine ⟨a, p, hamount, hpayment, Nat.one_le_iff_ne_zero.mpr ?_, ?_, ha⟩
  · rintro rfl
    exact hnonzero (by rw [hpayment, Nat.cast_zero])
  · exact (lessEqThan_iff (by decide) hp ha).mp ⟨_, _, hle, h.paymentLE_out⟩

/-- **Soundness**: a witness's own inputs open the public signals. -/
theorem QietrPayment.opens {w : Witness depth} (h : QietrPayment P pub w) :
    ∃ amount payment, Opens P pub w.secret w.nullifier w.newSecret w.newNullifier w.path amount
      payment := by
  obtain ⟨a, p, hap⟩ := h.amounts
  obtain ⟨bits, hbits, hroot⟩ := merkleTreeChecker_iff.mp ⟨_, h.tree⟩
  have hpath : w.path = pathOf w.pathElements bits := by
    rw [Witness.path]
    congr 1
    funext i
    rw [hbits i]
    cases bits i <;> simp [ofBool]
  refine ⟨a, p, hap, ?_, h.nullifierHasher, ?_⟩
  · rw [hroot, h.commitmentHasher, hap.amount_eq, hpath]
  · rw [h.changeHasher, h.change_def, hap.amount_eq, hap.payment_eq, Nat.cast_sub hap.le]

/-- **Completeness**: what opens the public signals extends to a witness, with these inputs. -/
theorem Opens.exists_witness_inputs {secret nullifier newSecret newNullifier : F}
    {siblings : Fin depth → F} {bits : Fin depth → Bool} {amount payment : ℕ}
    (h : Opens P pub secret nullifier newSecret newNullifier (pathOf siblings bits) amount
      payment) : ∃ w : Witness depth, QietrPayment P pub w ∧ w.secret = secret ∧
        w.nullifier = nullifier ∧ w.newSecret = newSecret ∧ w.newNullifier = newNullifier ∧
        w.pathElements = siblings ∧ w.pathIndices = fun i => ofBool (bits i) := by
  have hp : payment < 2 ^ 64 := lt_of_le_of_lt h.le h.lt
  obtain ⟨tree, htree⟩ := merkleTreeChecker_iff.mpr ⟨bits, fun _ => rfl, h.root_eq⟩
  obtain ⟨amountBits, hamountBits⟩ := num2Bits_iff.mpr ⟨amount, h.lt, h.amount_eq⟩
  obtain ⟨paymentBits, hpaymentBits⟩ := num2Bits_iff.mpr ⟨payment, hp, h.payment_eq⟩
  have hnonzero : pub.paymentAmount ≠ 0 := by
    rw [h.payment_eq, ← Nat.cast_zero]
    intro e
    have hr : 2 ^ 64 < r := two_pow_lt_r (by decide)
    have := natCast_inj (hp.trans hr) prime_r.pos e
    have := h.pos
    omega
  obtain ⟨inv, out, hzero, hout⟩ := isZero_iff.mpr hnonzero
  obtain ⟨leBits, leOut, hle, hleOut⟩ := (lessEqThan_iff (by decide) hp h.lt).mpr h.le
  rw [← h.payment_eq, ← h.amount_eq] at hle
  exact ⟨{ secret, nullifier, newSecret, newNullifier
           pathElements := siblings
           pathIndices := fun i => ofBool (bits i)
           commitment := P.three secret nullifier (amount : F)
           tree, amountBits
           paymentIsZeroInv := inv
           paymentIsZeroOut := out
           paymentBits
           paymentLEBits := leBits
           paymentLEOut := leOut
           change := pub.amount - pub.paymentAmount
           recipientBound := pub.recipient * pub.recipient },
    { commitmentHasher := by rw [h.amount_eq]
      tree := htree
      nullifierHasher := h.nullifier_eq
      amountBits := hamountBits
      paymentIsZero := hzero
      paymentIsZero_out := hout
      paymentBits := hpaymentBits
      paymentLE := hle
      paymentLE_out := hleOut
      change_def := rfl
      changeHasher := by rw [h.change_eq, h.amount_eq, h.payment_eq, Nat.cast_sub h.le]
      recipientBound_def := rfl }, rfl, rfl, rfl, rfl, rfl, rfl⟩

theorem Opens.exists_witness {secret nullifier newSecret newNullifier : F}
    {siblings : Fin depth → F} {bits : Fin depth → Bool} {amount payment : ℕ}
    (h : Opens P pub secret nullifier newSecret newNullifier (pathOf siblings bits) amount
      payment) : ∃ w : Witness depth, QietrPayment P pub w := by
  obtain ⟨w, hw, -⟩ := h.exists_witness_inputs
  exact ⟨w, hw⟩

/-- The circuit admits exactly the assignments of its statement. -/
theorem exists_witness_iff :
    (∃ w : Witness depth, QietrPayment P pub w) ↔ PaymentStatement P depth pub := by
  refine ⟨?_, ?_⟩
  · rintro ⟨w, h⟩
    obtain ⟨a, p, ho⟩ := h.opens
    exact ⟨w.secret, w.nullifier, w.newSecret, w.newNullifier, w.pathElements, _, a, p, ho⟩
  · rintro ⟨secret, nullifier, newSecret, newNullifier, siblings, bits, a, p, ho⟩
    exact ho.exists_witness

/-- **`QietrPayment(20)` is sound and complete**, with the statement written out: there is a
private witness exactly when a note of `amount` in the tree pays `payment`, at least one and at most
`amount`, and the change is their difference in the naturals. -/
theorem qietrPayment_iff (P : Poseidon) (pub : PublicSignals) :
    (∃ w : Witness 20, QietrPayment P pub w) ↔
      ∃ (secret nullifier newSecret newNullifier : F) (siblings : Fin 20 → F)
        (bits : Fin 20 → Bool) (amount payment : ℕ),
        pub.amount = (amount : F) ∧ pub.paymentAmount = (payment : F) ∧
        1 ≤ payment ∧ payment ≤ amount ∧ amount < 2 ^ 64 ∧
        fold P.two (P.three secret nullifier pub.amount)
          (List.ofFn fun i => (siblings i, bits i)) = pub.root ∧
        pub.nullifierHash = P.one nullifier ∧
        pub.changeCommitment = P.three newSecret newNullifier ((amount - payment : ℕ) : F) := by
  rw [exists_witness_iff]
  refine ⟨?_, ?_⟩
  · rintro ⟨s, n, s', n', siblings, bits, a, p, h⟩
    exact ⟨s, n, s', n', siblings, bits, a, p, h.amount_eq, h.payment_eq, h.pos, h.le, h.lt,
      by rw [h.root_eq, h.amount_eq]; rfl, h.nullifier_eq, h.change_eq⟩
  · rintro ⟨s, n, s', n', siblings, bits, a, p, ha, hp, hpos, hle, hlt, hroot, hn, hc⟩
    exact ⟨s, n, s', n', siblings, bits, a, p,
      ⟨⟨ha, hp, hpos, hle, hlt⟩, by rw [← hroot, ha]; rfl, hn, hc⟩⟩

end Qietr.Circuit
