import Mathlib.Algebra.BigOperators.Group.List.Basic
import Mathlib.Algebra.Order.Ring.Int
import Mathlib.Algebra.Order.BigOperators.Group.List
import Mathlib.Algebra.Ring.Divisibility.Basic
import Mathlib.Algebra.Order.Ring.Abs
import Mathlib.Data.Nat.Log
import Mathlib.Data.Rat.Floor
import Mathlib.Tactic.FieldSimp
import Mathlib.Tactic.Linarith
import Mathlib.Tactic.Ring

/-!
# Library — numbers as doubles

A double keeps 53 bits of a number, and rounds to nearest with ties to even.  Its range is left out:
there is no overflow.

* `IsDouble`: the whole numbers that are doubles.
* `double`: the rounding; it stays on its side of every double (`le_double`, `double_le`).
* `sum`: numbers added up one by one, rounded at each step.
* `le_sum_of_mem`, `sum_eq`: such a sum is no less than any of its terms, and exact up to `2 ^ 53`.
* `IsDoubleRat`, `doubleRat`: the same of fractions, of which `2 ^ (-1074)` is the last bit;
  `le_doubleRat`, `doubleRat_le`.
-/

namespace Doubles

variable {d n : ℤ} {l : List ℤ}

/-! ### Rounding -/

/-- 53 bits, and zeros. -/
def IsDouble (d : ℤ) : Prop :=
  ∃ (m : ℤ) (k : ℕ), |m| ≤ 2 ^ 53 ∧ d = m * 2 ^ k

theorem isDouble_of_le (h : |n| ≤ 2 ^ 53) : IsDouble n :=
  ⟨n, 0, h, by ring⟩

/-- How many bits of `n` a double has no room for. -/
def dropped (n : ℤ) : ℕ :=
  n.natAbs.log2 - 52

/-- The multiple of `step` nearest to `n`, the even one of two. -/
def nearest (step n : ℤ) : ℤ :=
  if 2 * (n % step) < step ∨ (2 * (n % step) = step ∧ n / step % 2 = 0) then n / step * step
  else (n / step + 1) * step

/-- `Number(n)`. -/
def double (n : ℤ) : ℤ :=
  nearest (2 ^ dropped n) n

theorem le_nearest {step : ℤ} (hstep : 0 < step) (hd : step ∣ d) (h : d ≤ n) :
    d ≤ nearest step n := by
  obtain ⟨j, rfl⟩ := hd
  have hj : j ≤ n / step := (Int.le_ediv_iff_mul_le hstep).mpr (by rwa [mul_comm])
  have hle : step * j ≤ n / step * step := by
    rw [mul_comm]
    exact mul_le_mul_of_nonneg_right hj hstep.le
  unfold nearest
  split
  · exact hle
  · rw [add_mul, one_mul]
    omega

theorem nearest_le {step : ℤ} (hstep : 0 < step) (hd : step ∣ d) (h : n ≤ d) :
    nearest step n ≤ d := by
  obtain ⟨j, rfl⟩ := hd
  have hdiv := Int.ediv_mul_le n hstep.ne'
  unfold nearest
  split
  · exact hdiv.trans h
  next hno =>
    have hmod : n % step ≠ 0 := fun h0 => hno (.inl (by rw [h0]; omega))
    have hsplit := Int.ediv_mul_add_emod n step
    have hpos := Int.emod_nonneg n hstep.ne'
    have hlt : n / step < j := by
      by_contra hge
      have hmul := mul_le_mul_of_nonneg_right (not_lt.mp hge) hstep.le
      rw [mul_comm] at hmul
      omega
    have hmul := mul_le_mul_of_nonneg_right (Int.add_one_le_of_lt hlt) hstep.le
    rwa [mul_comm j] at hmul

theorem pow_le_abs (h : 0 < dropped n) : 2 ^ (52 + dropped n) ≤ |n| := by
  have hlog : 52 + dropped n = n.natAbs.log2 := by
    unfold dropped at h ⊢
    omega
  have hne : n.natAbs ≠ 0 := fun h0 => by simp [dropped, h0] at h
  rw [hlog, Int.abs_eq_natAbs]
  exact_mod_cast Nat.log2_self_le hne

theorem abs_lt_pow (n : ℤ) : |n| < 2 ^ (53 + dropped n) := by
  have hlt := Nat.lt_log2_self (n := n.natAbs)
  have hle : 2 ^ (n.natAbs.log2 + 1) ≤ 2 ^ (53 + dropped n) :=
    Nat.pow_le_pow_right (by decide) (by unfold dropped; omega)
  rw [Int.abs_eq_natAbs]
  exact_mod_cast hlt.trans_le hle

/-- A double is a multiple of the last bit that `n` keeps, or it is small. -/
theorem IsDouble.cases (hd : IsDouble d) (n : ℤ) :
    2 ^ dropped n ∣ d ∨ 0 < dropped n ∧ |d| ≤ 2 ^ (52 + dropped n) := by
  obtain ⟨m, k, hm, rfl⟩ := hd
  rcases le_or_gt (dropped n) k with h | h
  · exact .inl (Dvd.dvd.mul_left (pow_dvd_pow 2 h) m)
  · refine .inr ⟨by omega, ?_⟩
    calc |m * 2 ^ k| = |m| * 2 ^ k := by rw [abs_mul, abs_of_pos (by positivity : (0 : ℤ) < 2 ^ k)]
      _ ≤ 2 ^ 53 * 2 ^ k := mul_le_mul_of_nonneg_right hm (by positivity)
      _ = 2 ^ (53 + k) := (pow_add 2 53 k).symm
      _ ≤ 2 ^ (52 + dropped n) := pow_le_pow_right₀ (by norm_num) (by omega)

/-- **Rounding stays above** a double that was below. -/
theorem le_double (hd : IsDouble d) (h : d ≤ n) : d ≤ double n := by
  have hstep : (0 : ℤ) < 2 ^ dropped n := by positivity
  have hdvd : (2 : ℤ) ^ dropped n ∣ 2 ^ (52 + dropped n) := pow_dvd_pow 2 (by omega)
  rcases hd.cases n with hd | ⟨hpos, hsmall⟩
  · exact le_nearest hstep hd h
  · have hlarge := pow_le_abs hpos
    rcases le_abs'.mp hlarge with hn | hn
    · have hge := neg_le_of_abs_le hsmall
      obtain rfl : d = -2 ^ (52 + dropped n) := by omega
      exact le_nearest hstep (dvd_neg.mpr hdvd) h
    · exact (le_of_abs_le hsmall).trans (le_nearest hstep hdvd hn)

/-- And below a double that was above. -/
theorem double_le (hd : IsDouble d) (h : n ≤ d) : double n ≤ d := by
  have hstep : (0 : ℤ) < 2 ^ dropped n := by positivity
  have hdvd : (2 : ℤ) ^ dropped n ∣ 2 ^ (52 + dropped n) := pow_dvd_pow 2 (by omega)
  rcases hd.cases n with hd | ⟨hpos, hsmall⟩
  · exact nearest_le hstep hd h
  · have hlarge := pow_le_abs hpos
    rcases le_abs'.mp hlarge with hn | hn
    · exact (nearest_le hstep (dvd_neg.mpr hdvd) hn).trans (neg_le_of_abs_le hsmall)
    · have hle := le_of_abs_le hsmall
      obtain rfl : d = 2 ^ (52 + dropped n) := by omega
      exact nearest_le hstep hdvd h

theorem double_of_isDouble (hd : IsDouble d) : double d = d :=
  le_antisymm (double_le hd le_rfl) (le_double hd le_rfl)

theorem isDouble_double (n : ℤ) : IsDouble (double n) := by
  have hstep : (0 : ℤ) < 2 ^ dropped n := by positivity
  obtain ⟨hge, hlt⟩ := abs_lt.mp (abs_lt_pow n)
  rw [pow_add] at hge hlt
  have hq : n / 2 ^ dropped n < 2 ^ 53 := (Int.ediv_lt_iff_lt_mul hstep).mpr hlt
  have hq' : -2 ^ 53 ≤ n / 2 ^ dropped n := (Int.le_ediv_iff_mul_le hstep).mpr (by linarith)
  unfold double nearest
  split
  · exact ⟨_, _, abs_le.mpr ⟨hq', by omega⟩, rfl⟩
  · exact ⟨_, _, abs_le.mpr ⟨by omega, by omega⟩, rfl⟩

/-! ### Adding up -/

/-- `l.reduce((sum, a) => sum + a, start)`. -/
def sumFrom (start : ℤ) (l : List ℤ) : ℤ :=
  l.foldl (fun sum a => double (sum + a)) start

def sum (l : List ℤ) : ℤ :=
  sumFrom 0 l

theorem le_sumFrom {start : ℤ} (hstart : IsDouble start) (hl : ∀ a ∈ l, 0 ≤ a) :
    start ≤ sumFrom start l := by
  induction l generalizing start with
  | nil => exact le_rfl
  | cons a l ih =>
      have ha := hl a List.mem_cons_self
      calc start ≤ double (start + a) := le_double hstart (by omega)
        _ ≤ sumFrom start (a :: l) :=
          ih (isDouble_double _) fun b hb => hl b (List.mem_cons_of_mem _ hb)

/-- A sum of doubles that are not negative is no less than any of them. -/
theorem le_sumFrom_of_mem {start : ℤ} (hstart : 0 ≤ start) (hl : ∀ a ∈ l, 0 ≤ a ∧ IsDouble a)
    {a : ℤ} (ha : a ∈ l) : a ≤ sumFrom start l := by
  induction l generalizing start with
  | nil => cases ha
  | cons b l ih =>
      obtain ⟨hb, hbd⟩ := hl b List.mem_cons_self
      have hl' : ∀ c ∈ l, 0 ≤ c ∧ IsDouble c := fun c hc => hl c (List.mem_cons_of_mem _ hc)
      have hle : b ≤ double (start + b) := le_double hbd (by omega)
      rcases List.mem_cons.mp ha with rfl | ha
      · exact hle.trans (le_sumFrom (isDouble_double _) fun c hc => (hl' c hc).1)
      · exact ih (hb.trans hle) hl' ha

theorem le_sum_of_mem (hl : ∀ a ∈ l, 0 ≤ a ∧ IsDouble a) {a : ℤ} (ha : a ∈ l) : a ≤ sum l :=
  le_sumFrom_of_mem le_rfl hl ha

theorem sumFrom_eq {start : ℤ} (hstart : 0 ≤ start) (hl : ∀ a ∈ l, 0 ≤ a)
    (hsmall : start + l.sum ≤ 2 ^ 53) : sumFrom start l = start + l.sum := by
  induction l generalizing start with
  | nil => simp [sumFrom]
  | cons a l ih =>
      have ha := hl a List.mem_cons_self
      have hl' : ∀ b ∈ l, 0 ≤ b := fun b hb => hl b (List.mem_cons_of_mem _ hb)
      have hsum := List.sum_nonneg hl'
      rw [List.sum_cons] at hsmall ⊢
      have hexact : double (start + a) = start + a :=
        double_of_isDouble (isDouble_of_le (by rw [abs_of_nonneg] <;> omega))
      show sumFrom (double (start + a)) l = _
      rw [hexact, ih (by omega) hl' (by omega), add_assoc]

/-- Up to `2 ^ 53` such a sum is exact. -/
theorem sum_eq (hl : ∀ a ∈ l, 0 ≤ a) (hsmall : l.sum ≤ 2 ^ 53) : sum l = l.sum := by
  have h := sumFrom_eq le_rfl hl (by rwa [zero_add])
  rwa [zero_add] at h

example : double (2 ^ 53 + 1) = 2 ^ 53 := by decide

/-! ### Fractions -/

/-- 53 bits, the last of which is no lower than `2 ^ (-1074)`. -/
def IsDoubleRat (q : ℚ) : Prop :=
  ∃ d : ℤ, IsDouble d ∧ q * 2 ^ 1074 = d

theorem isDoubleRat_div {k : ℕ} (h : |n| ≤ 2 ^ 53) (hk : k ≤ 1074) :
    IsDoubleRat (n / 2 ^ k) := by
  refine ⟨n * 2 ^ (1074 - k), ⟨n, 1074 - k, h, rfl⟩, ?_⟩
  have hpow : (2 : ℚ) ^ 1074 = 2 ^ k * 2 ^ (1074 - k) := by rw [← pow_add, Nat.add_sub_cancel' hk]
  rw [hpow, Int.cast_mul, Int.cast_pow, Int.cast_ofNat]
  field_simp

theorem isDoubleRat_of_le (h : |n| ≤ 2 ^ 53) : IsDoubleRat n := by
  have hdiv := isDoubleRat_div h (Nat.zero_le 1074)
  rwa [pow_zero, div_one] at hdiv

/-- The multiple of `step` nearest to `x`, the even one of two. -/
def nearestRat (step : ℤ) (x : ℚ) : ℤ :=
  let m := ⌊x / step⌋
  if 2 * (x - m * step) < step ∨ (2 * (x - m * step) = step ∧ m % 2 = 0) then m * step
  else (m + 1) * step

/-- The double next to `q`. -/
def doubleRat (q : ℚ) : ℚ :=
  let x := q * 2 ^ 1074
  nearestRat (2 ^ dropped ⌊|x|⌋) x / 2 ^ 1074

variable {q x : ℚ} {step : ℤ}

theorem le_nearestRat (hstep : 0 < step) (hd : step ∣ d) (h : (d : ℚ) ≤ x) :
    d ≤ nearestRat step x := by
  obtain ⟨j, rfl⟩ := hd
  have hpos : (0 : ℚ) < step := by exact_mod_cast hstep
  have hj : j ≤ ⌊x / step⌋ := by
    rw [Int.le_floor, le_div_iff₀ hpos, mul_comm]
    exact_mod_cast h
  have hle : step * j ≤ ⌊x / step⌋ * step := by
    rw [mul_comm]
    exact mul_le_mul_of_nonneg_right hj hstep.le
  unfold nearestRat
  dsimp only
  split
  · exact hle
  · rw [add_mul, one_mul]
    omega

theorem nearestRat_le (hstep : 0 < step) (hd : step ∣ d) (h : x ≤ d) : nearestRat step x ≤ d := by
  obtain ⟨j, rfl⟩ := hd
  have hpos : (0 : ℚ) < step := by exact_mod_cast hstep
  have hfloor : (⌊x / step⌋ : ℚ) * step ≤ x := by
    rw [← le_div_iff₀ hpos]
    exact Int.floor_le _
  unfold nearestRat
  dsimp only
  split
  · exact_mod_cast hfloor.trans h
  next hno =>
    -- `x` is above the multiple that it is rounded up from
    have hne : (⌊x / step⌋ : ℚ) * step ≠ x := fun heq => hno (.inl (by rw [heq]; linarith))
    have hlt : (⌊x / step⌋ : ℚ) * step < step * j := by
      have hj := lt_of_le_of_ne hfloor hne |>.trans_le h
      exact_mod_cast hj
    have hj : ⌊x / step⌋ < j := by
      rw [mul_comm, mul_lt_mul_iff_right₀ hpos] at hlt
      exact_mod_cast hlt
    have hmul := mul_le_mul_of_nonneg_right (Int.add_one_le_of_lt hj) hstep.le
    rwa [mul_comm j] at hmul

/-- A double is a multiple of the last bit that `x` keeps, or it is nearer to zero. -/
theorem IsDouble.side (hd : IsDouble d) (x : ℚ) :
    2 ^ dropped ⌊|x|⌋ ∣ d ∨ ∃ top : ℤ, 2 ^ dropped ⌊|x|⌋ ∣ top ∧ |d| ≤ top ∧ (top : ℚ) ≤ |x| := by
  rcases hd.cases ⌊|x|⌋ with hdvd | ⟨hpos, hsmall⟩
  · exact .inl hdvd
  · have hlarge := pow_le_abs hpos
    rw [abs_of_nonneg (Int.floor_nonneg.mpr (abs_nonneg x))] at hlarge
    exact .inr ⟨2 ^ (52 + dropped ⌊|x|⌋), pow_dvd_pow 2 (by omega), hsmall, Int.le_floor.mp hlarge⟩

theorem le_nearestRat_dropped (hd : IsDouble d) (h : (d : ℚ) ≤ x) :
    d ≤ nearestRat (2 ^ dropped ⌊|x|⌋) x := by
  have hstep : (0 : ℤ) < 2 ^ dropped ⌊|x|⌋ := by positivity
  rcases hd.side x with hdvd | ⟨top, htop, hsmall, hle⟩
  · exact le_nearestRat hstep hdvd h
  · rcases le_total 0 x with hx | hx
    · rw [abs_of_nonneg hx] at hle
      exact (le_of_abs_le hsmall).trans (le_nearestRat hstep htop hle)
    · -- below zero there is no room between `x` and the top
      rw [abs_of_nonpos hx] at hle
      have hge : (-top : ℤ) ≤ d := neg_le_of_abs_le hsmall
      have heq : d = -top := by
        refine le_antisymm ?_ hge
        have hd' : (d : ℚ) ≤ ((-top : ℤ) : ℚ) := by
          push_cast
          linarith
        exact_mod_cast hd'
      rw [heq] at h ⊢
      exact le_nearestRat hstep (dvd_neg.mpr htop) h

theorem nearestRat_dropped_le (hd : IsDouble d) (h : x ≤ d) :
    nearestRat (2 ^ dropped ⌊|x|⌋) x ≤ d := by
  have hstep : (0 : ℤ) < 2 ^ dropped ⌊|x|⌋ := by positivity
  rcases hd.side x with hdvd | ⟨top, htop, hsmall, hle⟩
  · exact nearestRat_le hstep hdvd h
  · rcases le_total 0 x with hx | hx
    · rw [abs_of_nonneg hx] at hle
      have heq : d = top := by
        refine le_antisymm (le_of_abs_le hsmall) ?_
        exact_mod_cast hle.trans h
      rw [heq] at h ⊢
      exact nearestRat_le hstep htop h
    · rw [abs_of_nonpos hx] at hle
      have hx' : x ≤ ((-top : ℤ) : ℚ) := by
        push_cast
        linarith
      exact (nearestRat_le hstep (dvd_neg.mpr htop) hx').trans (neg_le_of_abs_le hsmall)

/-- **Rounding stays above** a double that was below. -/
theorem le_doubleRat (hr : IsDoubleRat q) (h : q ≤ x) : q ≤ doubleRat x := by
  obtain ⟨d, hd, hq⟩ := hr
  have hscale : (0 : ℚ) < 2 ^ 1074 := by positivity
  rw [doubleRat, le_div_iff₀ hscale, hq]
  have hle : (d : ℚ) ≤ x * 2 ^ 1074 := hq ▸ mul_le_mul_of_nonneg_right h hscale.le
  exact_mod_cast le_nearestRat_dropped hd hle

/-- And below a double that was above. -/
theorem doubleRat_le (hr : IsDoubleRat q) (h : x ≤ q) : doubleRat x ≤ q := by
  obtain ⟨d, hd, hq⟩ := hr
  have hscale : (0 : ℚ) < 2 ^ 1074 := by positivity
  rw [doubleRat, div_le_iff₀ hscale, hq]
  have hle : x * 2 ^ 1074 ≤ d := hq ▸ mul_le_mul_of_nonneg_right h hscale.le
  exact_mod_cast nearestRat_dropped_le hd hle

/-- A fraction with a bit that there is no room for. -/
example : doubleRat (2 ^ 53 + 1) = 2 ^ 53 ∧ doubleRat (2 ^ 52 + 1 / 4) = 2 ^ 52 := by decide +kernel

end Doubles
