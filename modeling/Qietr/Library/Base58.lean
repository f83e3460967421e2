import Mathlib.Data.List.TakeWhile
import Mathlib.Data.Nat.Digits.Lemmas
import Qietr.Library.BigEndian

/-!
# Library — base 58

Bytes as text: each zero in front is a `1`, and the rest is a number in base 58.

* `encode`, `decode`: the text of the bytes, and the bytes of a text, none when a character is no
  digit.
* `decode_encode`: the round trip.
-/

namespace Base58

/-- The digits. -/
def alphabet : List Char :=
  "123456789ABCDEFGHJKLMNPQRSTUVWXYZabcdefghijkmnopqrstuvwxyz".toList

def digitChar (d : ℕ) : Char :=
  alphabet.getD d '1'

def digitValue (c : Char) : Option ℕ :=
  alphabet.findIdx? (· = c)

/-- The zeros in front, and the digits of the number that is left. -/
def digitsOf (bs : List UInt8) : List ℕ :=
  List.replicate (bs.takeWhile (· = 0)).length 0 ++ (Nat.digits 58 (beNat bs)).reverse

/-- The other way round. -/
def bytesOf (ds : List ℕ) : List UInt8 :=
  List.replicate (ds.takeWhile (· = 0)).length 0 ++
    (Nat.digits 256 (Nat.ofDigits 58 ds.reverse)).reverse.map UInt8.ofNat

def encode (bs : List UInt8) : String :=
  String.ofList ((digitsOf bs).map digitChar)

def decode (s : String) : Option (List UInt8) :=
  (s.toList.mapM digitValue).map bytesOf

/-! ### Digits -/

theorem digitValue_digitChar {d : ℕ} (hd : d < 58) : digitValue (digitChar d) = some d := by
  revert d
  decide +kernel

theorem mapM_digitValue {ds : List ℕ} (h : ∀ d ∈ ds, d < 58) :
    (ds.map digitChar).mapM digitValue = some ds := by
  induction ds with
  | nil => rfl
  | cons d ds ih =>
      rw [List.map_cons, List.mapM_cons, digitValue_digitChar (h d List.mem_cons_self),
        ih fun x hx => h x (List.mem_cons_of_mem d hx)]
      rfl

theorem digitsOf_lt {bs : List UInt8} : ∀ d ∈ digitsOf bs, d < 58 := by
  intro d hd
  rcases List.mem_append.mp hd with hd | hd
  · rw [List.eq_of_mem_replicate hd]
    norm_num
  · exact Nat.digits_lt_base (by norm_num) (List.mem_reverse.mp hd)

/-! ### The number -/

/-- The leading digit is not zero. -/
theorem takeWhile_digits (b n : ℕ) (k : ℕ) :
    (List.replicate k 0 ++ (Nat.digits b n).reverse).takeWhile (· = 0) = List.replicate k 0 := by
  have hdigits : (Nat.digits b n).reverse.takeWhile (· = 0) = [] := by
    by_cases hn : n = 0
    · rw [hn, Nat.digits_zero]
      rfl
    · have hne : Nat.digits b n ≠ [] := Nat.digits_ne_nil_iff_ne_zero.mpr hn
      have hlast := Nat.getLast_digit_ne_zero b hn
      obtain ⟨ds, d, hds⟩ := (List.eq_nil_or_concat' (Nat.digits b n)).resolve_left hne
      simp only [hds, List.getLast_append_singleton] at hlast
      rw [hds, List.reverse_append, List.reverse_singleton, List.singleton_append,
        List.takeWhile_cons_of_neg (by simpa using hlast)]
  induction k with
  | zero => exact hdigits
  | succ k ih =>
      rw [List.replicate_succ, List.cons_append, List.takeWhile_cons_of_pos (by simp), ih]

theorem ofDigits_digitsOf (bs : List UInt8) : Nat.ofDigits 58 (digitsOf bs).reverse = beNat bs := by
  have hzeros : ∀ k, Nat.ofDigits 58 (List.replicate k 0) = 0 := by
    intro k
    induction k with
    | zero => rfl
    | succ k ih => rw [List.replicate_succ, Nat.ofDigits_cons, ih]
  rw [digitsOf, List.reverse_append, List.reverse_reverse, List.reverse_replicate,
    Nat.ofDigits_append, Nat.ofDigits_digits, hzeros, Nat.mul_zero, Nat.add_zero]

theorem beNat_eq_ofDigits (bs : List UInt8) :
    beNat bs = Nat.ofDigits 256 (bs.reverse.map UInt8.toNat) := by
  induction bs using List.reverseRecOn with
  | nil => rfl
  | append_singleton bs b ih =>
      rw [beNat_snoc, List.reverse_append, List.reverse_singleton, List.singleton_append,
        List.map_cons, Nat.ofDigits_cons, ← ih]
      ring

/-- The zeros in front, and what comes after them. -/
theorem replicate_append_dropWhile (bs : List UInt8) :
    List.replicate (bs.takeWhile (· = 0)).length 0 ++ bs.dropWhile (· = 0) = bs := by
  rw [← List.eq_replicate_of_mem (a := (0 : UInt8)) (l := bs.takeWhile (· = 0)) fun b hb => by
    simpa using List.mem_takeWhile_imp hb, List.takeWhile_append_dropWhile]

/-- The bytes of the number are those after the zeros in front. -/
theorem digits_beNat (bs : List UInt8) :
    (Nat.digits 256 (beNat bs)).reverse.map UInt8.ofNat = bs.dropWhile (· = 0) := by
  have hnat : beNat bs = beNat (bs.dropWhile (· = 0)) := by
    conv_lhs => rw [← replicate_append_dropWhile bs]
    exact beNat_zeros_append ..
  rw [hnat, beNat_eq_ofDigits, Nat.digits_ofDigits 256 (by norm_num), ← List.map_reverse,
    List.reverse_reverse, List.map_map]
  · exact List.map_id'' (fun b => UInt8.ofNat_toNat) _
  · intro d hd
    obtain ⟨b, -, rfl⟩ := List.mem_map.mp hd
    exact b.toNat_lt
  · intro hne
    have hne' : bs.dropWhile (· = 0) ≠ [] := by simpa using hne
    have hhead := List.head_dropWhile_not (fun b : UInt8 => decide (b = 0)) hne'
    rw [List.getLast_map, List.getLast_reverse]
    simpa [← UInt8.toNat_inj] using hhead

/-! ### The round trip -/

/-- **The round trip.** -/
theorem decode_encode (bs : List UInt8) : decode (encode bs) = some bs := by
  rw [decode, encode, String.toList_ofList, mapM_digitValue digitsOf_lt, Option.map_some, bytesOf,
    ofDigits_digitsOf, digits_beNat, digitsOf, takeWhile_digits, List.length_replicate,
    replicate_append_dropWhile]

end Base58
