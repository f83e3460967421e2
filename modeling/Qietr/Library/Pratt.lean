import Mathlib.NumberTheory.LucasPrimality
import Mathlib.Tactic

/-!
# Library — primality certificates

* `prime_of_factors`: Lucas's test from a list of the primes of `p - 1`, whatever their exponents.
-/

namespace Pratt

/-- A prime that divides a product of primes is one of them. -/
theorem mem_of_prime_dvd_prod {fs : List ℕ} (hfs : ∀ q ∈ fs, q.Prime) {q : ℕ} (hq : q.Prime)
    (h : q ∣ fs.prod) : q ∈ fs := by
  obtain ⟨f, hf, hqf⟩ := (Nat.Prime.prime hq).dvd_prod_iff.mp h
  rwa [(Nat.prime_dvd_prime_iff_eq hq (hfs f hf)).mp hqf]

/-- **Lucas's test**, over the primes `fs` of `p - 1`. -/
theorem prime_of_factors {p : ℕ} (a : ZMod p) (fs : List ℕ) (k : ℕ)
    (hfs : ∀ q ∈ fs, q.Prime) (hdvd : p - 1 ∣ fs.prod ^ k) (hone : a ^ (p - 1) = 1)
    (hne : ∀ q ∈ fs, a ^ ((p - 1) / q) ≠ 1) : p.Prime := by
  refine lucas_primality p a hone fun q hq hqp => hne q ?_
  exact mem_of_prime_dvd_prod hfs hq (hq.dvd_of_dvd_pow (hqp.trans hdvd))

end Pratt
