import Qietr.Field.Poseidon
import Qietr.Library.Paths

/-!
# Circuit — the templates

The templates `qietr_payment.circom` is made of, each as the constraints on its signals: those of
circomlib as published, and the circuit's own.

* `Num2Bits`, `IsZero`, `LessThan`, `LessEqThan`: circomlib.
* `HashLeftRight`, `DualMux`, `MerkleTreeChecker`: the circuit's own.
* `lessEqThan_iff`, `merkleTreeChecker_iff`: what they say of their inputs.
-/

namespace Qietr.Circuit

open FieldBits HashTree

/-! ### circomlib -/

/-- `Num2Bits(n)`. -/
def Num2Bits {n : ℕ} (x : F) (out : Fin n → F) : Prop :=
  IsBits out x

/-- `IsZero`: `inv` is its unchecked hint. -/
structure IsZero (x inv out : F) : Prop where
  out_def : out = -x * inv + 1
  mul_out : x * out = 0

/-- `LessThan(n)`, `bits` those of its `Num2Bits(n + 1)`. -/
structure LessThan (n : ℕ) (x y : F) (bits : Fin (n + 1) → F) (out : F) : Prop where
  n2b : Num2Bits (x + 2 ^ n - y) bits
  out_def : out = 1 - bits (Fin.last n)

/-- `LessEqThan(n)`. -/
def LessEqThan (n : ℕ) (x y : F) (bits : Fin (n + 1) → F) (out : F) : Prop :=
  LessThan n x (y + 1) bits out

/-! ### The circuit's own -/

/-- `HashLeftRight`. -/
def HashLeftRight (P : Poseidon) (left right hash : F) : Prop :=
  hash = P.two left right

/-- `DualMux`. -/
structure DualMux (in₀ in₁ s out₀ out₁ : F) : Prop where
  bit : s * (1 - s) = 0
  out₀_def : out₀ = (in₁ - in₀) * s + in₀
  out₁_def : out₁ = (in₀ - in₁) * s + in₁

/-- The signals of `MerkleTreeChecker(depth)` that are not inputs. -/
structure MerkleSignals (depth : ℕ) where
  currentHash : Fin (depth + 1) → F
  left : Fin depth → F
  right : Fin depth → F

/-- `MerkleTreeChecker(depth)`. -/
structure MerkleTreeChecker (P : Poseidon) {depth : ℕ} (leaf root : F)
    (pathElements pathIndices : Fin depth → F) (sig : MerkleSignals depth) : Prop where
  start : sig.currentHash 0 = leaf
  selectors : ∀ i : Fin depth, DualMux (sig.currentHash i.castSucc) (pathElements i)
    (pathIndices i) (sig.left i) (sig.right i)
  hashers : ∀ i : Fin depth, HashLeftRight P (sig.left i) (sig.right i) (sig.currentHash i.succ)
  root_eq : root = sig.currentHash (Fin.last depth)

/-! ### Range and comparison -/

/-- A value has an `n`-bit decomposition exactly when it is a number below `2 ^ n`. -/
theorem num2Bits_iff {n : ℕ} {x : F} :
    (∃ out : Fin n → F, Num2Bits x out) ↔ ∃ a : ℕ, a < 2 ^ n ∧ x = a := by
  refine ⟨?_, ?_⟩
  · rintro ⟨out, h⟩
    obtain ⟨a, ha, hx, -⟩ := h.exists_nat
    exact ⟨a, ha, hx⟩
  · rintro ⟨a, ha, rfl⟩
    exact ⟨_, isBits_testBit ha⟩

/-- `IsZero` answers zero exactly at what is not zero. -/
theorem isZero_iff {x : F} : (∃ inv out, IsZero x inv out ∧ out = 0) ↔ x ≠ 0 := by
  refine ⟨?_, ?_⟩
  · rintro ⟨inv, out, h, rfl⟩ rfl
    exact zero_ne_one (α := F) (by simpa using h.out_def)
  · intro hx
    exact ⟨x⁻¹, 0, ⟨by rw [neg_mul, mul_inv_cancel₀ hx]; ring, mul_zero x⟩, rfl⟩

/-- The bit a comparison reads: whether the shifted difference reaches `2 ^ n`. -/
theorem testBit_top {n m : ℕ} (hm : m < 2 ^ (n + 1)) : m.testBit n = decide (2 ^ n ≤ m) := by
  by_cases h : 2 ^ n ≤ m
  · rw [decide_eq_true h]
    exact Nat.testBit_of_two_pow_le_and_two_pow_add_one_gt h hm
  · rw [decide_eq_false h]
    exact Nat.testBit_lt_two_pow (not_le.mp h)

/-- **`LessEqThan`**, on numbers of `n` bits: it answers one exactly when the first is at most
the second, at every edge of the range. -/
theorem lessEqThan_iff {n a b : ℕ} (hn : n < 253) (ha : a < 2 ^ n) (hb : b < 2 ^ n) :
    (∃ bits out, LessEqThan n (a : F) (b : F) bits out ∧ out = 1) ↔ a ≤ b := by
  -- the number decomposed, with the subtraction in the naturals
  obtain ⟨m, hm⟩ : ∃ m, m + (b + 1) = a + 2 ^ n := ⟨a + 2 ^ n - (b + 1), by omega⟩
  have hmlt : m < 2 ^ (n + 1) := by rw [pow_succ]; omega
  have hx : (a : F) + 2 ^ n - ((b : F) + 1) = (m : F) := by
    have hcast : ((m + (b + 1) : ℕ) : F) = ((a + 2 ^ n : ℕ) : F) := congrArg _ hm
    push_cast at hcast
    rw [sub_eq_iff_eq_add, ← hcast]
  refine ⟨?_, ?_⟩
  · rintro ⟨bits, out, h, hout⟩
    obtain ⟨m', hm', hx', hbits⟩ := h.n2b.exists_nat
    have hr : 2 ^ (n + 1) < r := two_pow_lt_r (by omega)
    have hmm : m = m' := natCast_inj (hmlt.trans hr) (hm'.trans hr) (hx ▸ hx')
    have hlast : bits (Fin.last n) = 0 := by
      have hdef := h.out_def
      rw [hout, eq_comm, sub_eq_self] at hdef
      exact hdef
    have hbit : m.testBit n = false := by
      rw [hbits, ← hmm] at hlast
      cases e : m.testBit (Fin.last n).val with
      | false => exact e
      | true => rw [e] at hlast; exact absurd hlast one_ne_zero
    rw [testBit_top hmlt, decide_eq_false_iff_not] at hbit
    omega
  · intro hab
    refine ⟨_, 1, ⟨hx ▸ isBits_testBit hmlt, ?_⟩, rfl⟩
    have hlt : ¬ 2 ^ n ≤ m := by omega
    have hbit : m.testBit (Fin.last n).val = false := by
      rw [Fin.val_last, testBit_top hmlt, decide_eq_false hlt]
    rw [hbit]
    simp [ofBool]

/-! ### The tree -/

/-- The path the checker's inputs stand for. -/
def pathOf {depth : ℕ} (pathElements : Fin depth → F) (bits : Fin depth → Bool) :
    List (F × Bool) :=
  List.ofFn fun i => (pathElements i, bits i)

@[simp] theorem pathOf_length {depth : ℕ} (pathElements : Fin depth → F)
    (bits : Fin depth → Bool) : (pathOf pathElements bits).length = depth := by
  simp [pathOf]

theorem pathOf_take_succ {depth : ℕ} (pathElements : Fin depth → F) (bits : Fin depth → Bool)
    (i : Fin depth) : (pathOf pathElements bits).take (i + 1) =
      (pathOf pathElements bits).take i ++ [(pathElements i, bits i)] := by
  have hi : i.val < (pathOf pathElements bits).length := by rw [pathOf_length]; exact i.isLt
  rw [← List.take_append_getElem hi]
  simp [pathOf]

/-- A mux with a bit for its selector outputs the pair a path step hashes. -/
theorem dualMux_iff {x e out₀ out₁ : F} {b : Bool} :
    DualMux x e (ofBool b) out₀ out₁ ↔ (out₀, out₁) = stepInput x (e, b) := by
  refine ⟨?_, ?_⟩
  · intro h
    have h₀ := h.out₀_def
    have h₁ := h.out₁_def
    cases b with
    | false =>
        rw [ofBool, if_neg Bool.false_ne_true, mul_zero, zero_add] at h₀ h₁
        exact Prod.ext h₀ h₁
    | true =>
        rw [ofBool, if_pos rfl, mul_one, sub_add_cancel] at h₀ h₁
        exact Prod.ext h₀ h₁
  · intro h
    obtain ⟨h₀, h₁⟩ := Prod.ext_iff.mp h
    simp only at h₀ h₁
    cases b with
    | false => subst h₀ h₁; constructor <;> simp [ofBool]
    | true => subst h₀ h₁; constructor <;> simp [ofBool]

/-- The selector of a mux is a bit. -/
theorem DualMux.exists_bool {in₀ in₁ s out₀ out₁ : F} (h : DualMux in₀ in₁ s out₀ out₁) :
    ∃ b, s = ofBool b := by
  refine eq_ofBool ?_
  have hb := h.bit
  linear_combination -hb

/-- The checker's chain of hashes is the fold of its path. -/
theorem MerkleTreeChecker.currentHash_eq {P : Poseidon} {depth : ℕ} {leaf root : F}
    {pathElements : Fin depth → F} {bits : Fin depth → Bool} {sig : MerkleSignals depth}
    (h : MerkleTreeChecker P leaf root pathElements (fun i => ofBool (bits i)) sig) :
    ∀ k (hk : k < depth + 1), sig.currentHash ⟨k, hk⟩ =
      fold P.two leaf ((pathOf pathElements bits).take k) := by
  intro k
  induction k with
  | zero => intro _; exact h.start
  | succ k ih =>
      intro hk
      have hmux := dualMux_iff.mp (h.selectors ⟨k, by omega⟩)
      rw [show (⟨k, _⟩ : Fin depth).castSucc = ⟨k, by omega⟩ from rfl, ih (by omega)] at hmux
      obtain ⟨hl, hr⟩ := Prod.ext_iff.mp hmux
      simp only at hl hr
      have hhash : _ = P.two _ _ := h.hashers ⟨k, by omega⟩
      rw [hl, hr] at hhash
      rw [pathOf_take_succ _ _ ⟨k, by omega⟩, fold_snoc]
      exact hhash

/-- **`MerkleTreeChecker`** holds of a leaf and a root exactly when its selectors are bits and
the path folds the leaf to the root. -/
theorem merkleTreeChecker_iff {P : Poseidon} {depth : ℕ} {leaf root : F}
    {pathElements pathIndices : Fin depth → F} :
    (∃ sig, MerkleTreeChecker P leaf root pathElements pathIndices sig) ↔
      ∃ bits : Fin depth → Bool, (∀ i, pathIndices i = ofBool (bits i)) ∧
        root = fold P.two leaf (pathOf pathElements bits) := by
  refine ⟨?_, ?_⟩
  · rintro ⟨sig, h⟩
    choose bits hbits using fun i => (h.selectors i).exists_bool
    obtain rfl : pathIndices = fun i => ofBool (bits i) := funext hbits
    refine ⟨bits, hbits, ?_⟩
    rw [h.root_eq, Fin.last, h.currentHash_eq, List.take_of_length_le (by rw [pathOf_length])]
  · rintro ⟨bits, hbits, hroot⟩
    obtain rfl : pathIndices = fun i => ofBool (bits i) := funext hbits
    -- the honest signals: the fold of each prefix, and the pair hashed after it
    let cur (k : ℕ) : F := fold P.two leaf ((pathOf pathElements bits).take k)
    refine ⟨⟨fun k => cur k, fun i => (stepInput (cur i) (pathElements i, bits i)).1,
      fun i => (stepInput (cur i) (pathElements i, bits i)).2⟩, rfl, ?_, ?_, ?_⟩
    · exact fun i => dualMux_iff.mpr rfl
    · intro i
      show fold P.two leaf ((pathOf pathElements bits).take (i + 1)) = _
      rw [pathOf_take_succ, fold_snoc]
      rfl
    · show root = fold P.two leaf ((pathOf pathElements bits).take (Fin.last depth).val)
      rw [hroot, List.take_of_length_le (by rw [pathOf_length, Fin.val_last])]

end Qietr.Circuit
