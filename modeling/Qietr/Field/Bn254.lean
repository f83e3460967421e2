import Qietr.Library.BigEndian
import Qietr.Library.FieldBits
import Qietr.Library.Pratt
import Mathlib.Tactic

/-!
# Field — the BN254 scalar field

The field the circuit's signals live in, and the 32-byte big-endian form its elements have on
chain.

* `r`: the order of the field, prime by a Pratt certificate.
* `decode`, `encode`: bytes to field element and back; `Canonical` bytes are those below `r`.
-/

namespace Qietr

/-- The order of the BN254 scalar field. -/
def r : ℕ :=
  21888242871839275222246405745257275088548364400416034343698204186575808495617

/-- A field element, a signal of the circuit. -/
abbrev F := ZMod r

/-- 32 bytes: a hash, a commitment, a public signal. -/
abbrev Bytes32 := Bytes 32

/-! ### `r` is prime -/

theorem prime_405928799 : Nat.Prime 405928799 := by
  refine Pratt.prime_of_factors 22 [2, 11, 3691, 4999] 1 ?_ (by norm_num) ?_ ?_
  · intro q hq; fin_cases hq <;> norm_num
  · reduce_mod_char
  · intro q hq; fin_cases hq <;> · norm_num; reduce_mod_char; decide

theorem prime_639533339 : Nat.Prime 639533339 := by
  refine Pratt.prime_of_factors 2 [2, 229, 853, 1637] 1 ?_ (by norm_num) ?_ ?_
  · intro q hq; fin_cases hq <;> norm_num
  · reduce_mod_char
  · intro q hq; fin_cases hq <;> · norm_num; reduce_mod_char; decide

theorem prime_12048837557 : Nat.Prime 12048837557 := by
  refine Pratt.prime_of_factors 2 [2, 7, 661, 93001] 2 ?_ (by norm_num) ?_ ?_
  · intro q hq; fin_cases hq <;> norm_num
  · reduce_mod_char
  · intro q hq; fin_cases hq <;> · norm_num; reduce_mod_char; decide

theorem prime_5156902474397 : Nat.Prime 5156902474397 := by
  refine Pratt.prime_of_factors 2 [2, 107, 12048837557] 2 ?_ (by norm_num) ?_ ?_
  · intro q hq; fin_cases hq
    · norm_num
    · norm_num
    · exact prime_12048837557
  · reduce_mod_char
  · intro q hq; fin_cases hq <;> · norm_num; reduce_mod_char; decide

theorem prime_1670836401704629 : Nat.Prime 1670836401704629 := by
  refine Pratt.prime_of_factors 2 [2, 3, 5156902474397] 4 ?_ (by norm_num) ?_ ?_
  · intro q hq; fin_cases hq
    · norm_num
    · norm_num
    · exact prime_5156902474397
  · reduce_mod_char
  · intro q hq; fin_cases hq <;> · norm_num; reduce_mod_char; decide

theorem prime_65865678001877903 : Nat.Prime 65865678001877903 := by
  refine Pratt.prime_of_factors 5 [2, 83, 379, 1637, 639533339] 1 ?_ (by norm_num) ?_ ?_
  · intro q hq; fin_cases hq
    · norm_num
    · norm_num
    · norm_num
    · norm_num
    · exact prime_639533339
  · reduce_mod_char
  · intro q hq; fin_cases hq <;> · norm_num; reduce_mod_char; decide

theorem prime_13818364434197438864469338081 : Nat.Prime 13818364434197438864469338081 := by
  refine Pratt.prime_of_factors 3 [2, 5, 823, 1593227, 65865678001877903] 5 ?_ (by norm_num) ?_ ?_
  · intro q hq; fin_cases hq
    · norm_num
    · norm_num
    · norm_num
    · norm_num
    · exact prime_65865678001877903
  · reduce_mod_char
  · intro q hq; fin_cases hq <;> · norm_num; reduce_mod_char; decide

theorem prime_r : Nat.Prime r := by
  rw [r]
  refine Pratt.prime_of_factors 5 [2, 3, 13, 29, 983, 11003, 237073, 405928799, 1670836401704629,
    13818364434197438864469338081] 28 ?_ (by norm_num) ?_ ?_
  · intro q hq; fin_cases hq
    · norm_num
    · norm_num
    · norm_num
    · norm_num
    · norm_num
    · norm_num
    · norm_num
    · exact prime_405928799
    · exact prime_1670836401704629
    · exact prime_13818364434197438864469338081
  · reduce_mod_char
  · intro q hq; fin_cases hq <;> · norm_num; reduce_mod_char; decide

instance : Fact r.Prime := ⟨prime_r⟩

theorem r_lt : r < 256 ^ 32 := by norm_num [r]

theorem two_pow_lt_r {n : ℕ} (hn : n < 254) : 2 ^ n < r :=
  lt_of_le_of_lt (Nat.pow_le_pow_right (by omega) (by omega : n ≤ 253)) (by norm_num [r])

/-- Naturals below `r` are told apart in the field. -/
theorem natCast_inj {a b : ℕ} (ha : a < r) (hb : b < r) (h : (a : F) = b) : a = b :=
  FieldBits.natCast_inj_of_lt ha hb h

theorem val_natCast {a : ℕ} (ha : a < r) : (a : F).val = a :=
  ZMod.val_natCast_of_lt ha

/-! ### Bytes and field elements -/

/-- The bytes of a number below `r`: what a prover or a hash writes for a field element. -/
def Canonical (b : Bytes32) : Prop :=
  b.toNat < r

instance (b : Bytes32) : Decidable (Canonical b) :=
  inferInstanceAs (Decidable (b.toNat < r))

/-- The field element the bytes stand for. -/
def decode (b : Bytes32) : F :=
  (b.toNat : F)

/-- The 32-byte big-endian form of a field element. -/
def encode (x : F) : Bytes32 :=
  Bytes.ofNat 32 x.val

theorem toNat_encode (x : F) : (encode x).toNat = x.val :=
  Bytes.toNat_ofNat_of_lt ((ZMod.val_lt x).trans r_lt)

@[simp] theorem canonical_encode (x : F) : Canonical (encode x) := by
  rw [Canonical, toNat_encode]
  exact ZMod.val_lt x

@[simp] theorem decode_encode (x : F) : decode (encode x) = x := by
  rw [decode, toNat_encode, ZMod.natCast_zmod_val]

theorem encode_decode {b : Bytes32} (hb : Canonical b) : encode (decode b) = b := by
  rw [encode, decode, val_natCast hb, Bytes.ofNat_toNat]

theorem encode_inj {x y : F} : encode x = encode y ↔ x = y :=
  ⟨fun h => by rw [← decode_encode x, h, decode_encode], fun h => h ▸ rfl⟩

theorem decode_inj {b c : Bytes32} (hb : Canonical b) (hc : Canonical c) :
    decode b = decode c ↔ b = c :=
  ⟨fun h => by rw [← encode_decode hb, h, encode_decode hc], fun h => h ▸ rfl⟩

/-- The all-zero string, the empty leaf. -/
abbrev zero32 : Bytes32 :=
  Bytes.zero 32

@[simp] theorem canonical_zero : Canonical zero32 := by
  rw [Canonical, Bytes.toNat_zero]
  exact prime_r.pos

@[simp] theorem decode_zero : decode zero32 = 0 := by
  rw [decode, Bytes.toNat_zero, Nat.cast_zero]

theorem encode_zero : encode 0 = zero32 := by
  rw [← decode_zero, encode_decode canonical_zero]

end Qietr
