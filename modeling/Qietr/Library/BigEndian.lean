import Mathlib.Tactic

/-!
# Library — big-endian bytes

* `beNat bs`: the number a list of bytes spells, most significant first.
* `beBytes k n`: the last `k` bytes of `n`.
* `beNat_beBytes`, `beBytes_beNat`: the two round trips, the first modulo `256 ^ k`.
* `Bytes.toNat`, `Bytes.ofNat`: the same on vectors of a fixed width, with `Bytes.toNat_inj`.
-/

/-! ### Lists -/

/-- The number the bytes spell, most significant first. -/
def beNat (bs : List UInt8) : ℕ :=
  bs.foldl (fun n b => n * 256 + b.toNat) 0

/-- The last `k` bytes of `n`. -/
def beBytes : ℕ → ℕ → List UInt8
  | 0, _ => []
  | k + 1, n => beBytes k (n / 256) ++ [UInt8.ofNat (n % 256)]

@[simp] theorem beNat_nil : beNat [] = 0 := rfl

theorem beNat_snoc (bs : List UInt8) (b : UInt8) :
    beNat (bs ++ [b]) = beNat bs * 256 + b.toNat := by
  simp [beNat]

/-- The bytes shifted in, one after the other. -/
theorem foldl_shiftLeft_or (bs : List UInt8) :
    bs.foldl (fun n b => n <<< 8 ||| b.toNat) 0 = beNat bs := by
  have hbyte : ∀ (n : ℕ) (b : UInt8), n <<< 8 ||| b.toNat = n * 256 + b.toNat := fun n b => by
    rw [← Nat.shiftLeft_add_eq_or_of_lt b.toNat_lt, Nat.shiftLeft_eq]
  simp only [beNat, hbyte]

theorem beNat_append (as bs : List UInt8) :
    beNat (as ++ bs) = beNat as * 256 ^ bs.length + beNat bs := by
  induction bs using List.reverseRecOn with
  | nil => simp
  | append_singleton bs b ih =>
      rw [← List.append_assoc, beNat_snoc, ih, beNat_snoc, List.length_append,
        List.length_singleton, pow_succ]
      ring

theorem beNat_lt (bs : List UInt8) : beNat bs < 256 ^ bs.length := by
  induction bs using List.reverseRecOn with
  | nil => simp
  | append_singleton bs b ih =>
      have hb := b.toNat_lt
      rw [beNat_snoc, List.length_append, List.length_singleton, pow_succ]
      omega

@[simp] theorem beBytes_length (k n : ℕ) : (beBytes k n).length = k := by
  induction k generalizing n with
  | zero => rfl
  | succ k ih => simp [beBytes, ih]

theorem beNat_beBytes (k n : ℕ) : beNat (beBytes k n) = n % 256 ^ k := by
  induction k generalizing n with
  | zero => simp [beBytes, Nat.mod_one]
  | succ k ih =>
      have hb : (UInt8.ofNat (n % 256)).toNat = n % 256 := by
        rw [UInt8.toNat_ofNat']; omega
      rw [beBytes, beNat_snoc, ih, hb, pow_succ', Nat.mod_mul, Nat.mul_comm 256, Nat.add_comm]

theorem beBytes_beNat (bs : List UInt8) : beBytes bs.length (beNat bs) = bs := by
  induction bs using List.reverseRecOn with
  | nil => rfl
  | append_singleton bs b ih =>
      have hb : b.toNat < 256 := b.toNat_lt
      have hdiv : (beNat bs * 256 + b.toNat) / 256 = beNat bs := by omega
      have hmod : (beNat bs * 256 + b.toNat) % 256 = b.toNat := by omega
      rw [List.length_append, List.length_singleton, beBytes, beNat_snoc, hdiv, hmod, ih,
        UInt8.ofNat_toNat]

theorem beNat_inj {as bs : List UInt8} (hlen : as.length = bs.length)
    (h : beNat as = beNat bs) : as = bs := by
  rw [← beBytes_beNat as, ← beBytes_beNat bs, hlen, h]

theorem beNat_replicate_zero (k : ℕ) : beNat (List.replicate k 0) = 0 := by
  induction k with
  | zero => rfl
  | succ k ih => rw [List.replicate_succ', beNat_snoc, ih]; rfl

theorem beNat_eq_zero {bs : List UInt8} : beNat bs = 0 ↔ ∀ b ∈ bs, b = 0 := by
  refine ⟨?_, ?_⟩
  · intro h
    have hz : bs = List.replicate bs.length 0 :=
      beNat_inj (by simp) (h.trans (beNat_replicate_zero _).symm)
    exact (List.eq_replicate_iff.mp hz).2
  · intro h
    rw [List.eq_replicate_iff.mpr ⟨rfl, h⟩, beNat_replicate_zero]

/-- A run of zero bytes in front is not read. -/
theorem beNat_zeros_append (k : ℕ) (bs : List UInt8) :
    beNat (List.replicate k 0 ++ bs) = beNat bs := by
  rw [beNat_append, beNat_replicate_zero, Nat.zero_mul, Nat.zero_add]

/-! ### Fixed widths -/

/-- A value of `k` bytes. -/
abbrev Bytes (k : ℕ) := Vector UInt8 k

namespace Bytes

variable {k : ℕ}

/-- The number the bytes spell. -/
def toNat (v : Bytes k) : ℕ :=
  beNat v.toList

/-- The last `k` bytes of `n`. -/
def ofNat (k n : ℕ) : Bytes k :=
  ⟨(beBytes k n).toArray, by simp⟩

/-- All bytes zero. -/
def zero (k : ℕ) : Bytes k :=
  Vector.replicate k 0

theorem toNat_lt (v : Bytes k) : toNat v < 256 ^ k := by
  have h := beNat_lt v.toList
  rwa [Vector.length_toList] at h

theorem toNat_inj {v w : Bytes k} : toNat v = toNat w ↔ v = w := by
  refine ⟨fun h => ?_, fun h => h ▸ rfl⟩
  exact Vector.toList_inj.mp (beNat_inj (by simp) h)

@[simp] theorem toList_ofNat (k n : ℕ) : (ofNat k n).toList = beBytes k n := rfl

theorem toNat_ofNat (k n : ℕ) : toNat (ofNat k n) = n % 256 ^ k := by
  rw [toNat, toList_ofNat, beNat_beBytes]

theorem toNat_ofNat_of_lt {n : ℕ} (h : n < 256 ^ k) : toNat (ofNat k n) = n := by
  rw [toNat_ofNat, Nat.mod_eq_of_lt h]

theorem ofNat_toNat (v : Bytes k) : ofNat k (toNat v) = v :=
  toNat_inj.mp (toNat_ofNat_of_lt (toNat_lt v))

@[simp] theorem toNat_zero (k : ℕ) : toNat (zero k) = 0 := by
  rw [toNat, zero, Vector.toList_replicate, beNat_replicate_zero]

end Bytes
