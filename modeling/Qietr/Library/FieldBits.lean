import Mathlib.Algebra.BigOperators.Fin
import Mathlib.Algebra.CharP.Basic
import Mathlib.Tactic

/-!
# Library — bits over a field

The binary decomposition an arithmetic circuit writes: `n` values that are zero or one and sum,
weighted by the powers of two, to the value decomposed.

* `IsBits out x`: the constraints.
* `IsBits.exists_nat`: over a domain they only hold of a number below `2 ^ n`, and the bits are
  its bits.
* `isBits_testBit`: and of every such number they do hold.
* `natCast_inj_of_lt`: numbers below the characteristic are told apart by their casts.
-/

namespace FieldBits

variable {F : Type*} [CommRing F]

/-- The constraints of an `n`-bit decomposition of `x` into `out`. -/
def IsBits {n : ℕ} (out : Fin n → F) (x : F) : Prop :=
  (∀ i, out i * (out i - 1) = 0) ∧ ∑ i, out i * 2 ^ i.val = x

/-- A bit as a field element. -/
def ofBool (b : Bool) : F :=
  if b then 1 else 0

theorem ofBool_eq_natCast (b : Bool) : (ofBool b : F) = (b.toNat : F) := by
  cases b <;> simp [ofBool]

theorem ofBool_mul_sub_one (b : Bool) : (ofBool b : F) * (ofBool b - 1) = 0 := by
  cases b <;> simp [ofBool]

/-- Over a domain, a value with `b * (b - 1) = 0` is a bit. -/
theorem eq_ofBool [NoZeroDivisors F] {x : F} (h : x * (x - 1) = 0) : ∃ b, x = ofBool b := by
  rcases mul_eq_zero.mp h with h | h
  · exact ⟨false, h⟩
  · exact ⟨true, sub_eq_zero.mp h⟩

/-- The bits of `m`, below `2 ^ n`, decompose it. -/
theorem isBits_testBit {n m : ℕ} (hm : m < 2 ^ n) :
    IsBits (fun i : Fin n => (ofBool (m.testBit i) : F)) (m : F) := by
  refine ⟨fun i => ofBool_mul_sub_one _, ?_⟩
  induction n generalizing m with
  | zero =>
      have h0 : m = 0 := by simpa using hm
      simp [h0]
  | succ n ih =>
      rw [Fin.sum_univ_succ]
      have hhalf : m / 2 < 2 ^ n := by rw [pow_succ] at hm; omega
      have htail : ∑ i : Fin n, (ofBool (m.testBit i.succ.val) : F) * 2 ^ i.succ.val =
          2 * ((m / 2 : ℕ) : F) := by
        rw [← ih hhalf, Finset.mul_sum]
        refine Finset.sum_congr rfl fun i _ => ?_
        rw [Fin.val_succ, Nat.testBit_succ, pow_succ]
        ring
      rw [htail]
      show ofBool (m.testBit 0) * 2 ^ 0 + 2 * ((m / 2 : ℕ) : F) = m
      rw [ofBool_eq_natCast]
      have hm2 : m = (m.testBit 0).toNat + 2 * (m / 2) := by
        rw [Nat.testBit_zero]
        rcases Nat.mod_two_eq_zero_or_one m with e | e <;> simp [e] <;> omega
      conv_rhs => rw [hm2]
      push_cast
      simp

/-- A decomposition is that of a number below `2 ^ n`. -/
theorem IsBits.exists_nat [NoZeroDivisors F] {n : ℕ} {out : Fin n → F} {x : F}
    (h : IsBits out x) :
    ∃ m : ℕ, m < 2 ^ n ∧ x = (m : F) ∧ ∀ i, out i = ofBool (m.testBit i.val) := by
  obtain ⟨hbit, hsum⟩ := h
  choose b hb using fun i => eq_ofBool (hbit i)
  have hm := Nat.ofBits_lt_two_pow b
  have hbits : ∀ i : Fin n, (Nat.ofBits b).testBit i = b i := fun i => by
    rw [Nat.testBit_ofBits_lt _ _ i.isLt]
  have hout : ∀ i : Fin n, out i = ofBool ((Nat.ofBits b).testBit i.val) := fun i => by
    rw [hbits, hb]
  refine ⟨Nat.ofBits b, hm, ?_, hout⟩
  rw [← hsum, ← (isBits_testBit (F := F) hm).2]
  exact Finset.sum_congr rfl fun i _ => by rw [hout]

/-- Below the characteristic, a number is its cast. -/
theorem natCast_inj_of_lt {p : ℕ} [CharP F p] {a b : ℕ} (ha : a < p) (hb : b < p)
    (h : (a : F) = (b : F)) : a = b := by
  rw [CharP.natCast_eq_natCast F p] at h
  exact Nat.ModEq.eq_of_lt_of_lt h ha hb

end FieldBits
