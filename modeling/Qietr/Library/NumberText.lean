import Mathlib.Data.List.TakeWhile
import Qietr.Library.BigEndian
import Qietr.Library.BigIntText

/-!
# Library — numbers as texts

How JavaScript writes an integer, cuts the text up, and reads a piece of it.

* `toRadix`, `padStart`, `sliceEnd`, `slice`, `parseInt`, `toUint8`: the operations.
* `fixed k n`: the last `k` hexadecimal digits; `padStart_toDigits`: a padded text is that.
* `hexOf bs`: two digits a byte; `fixed_eq_hexOf`: of the bytes of a number, its digits.
* `toUint8_parseInt`: reading them two at a time gives the bytes back.
* `digits_fixed`, `hexOf_injective`: a number, and bytes, from their digits.
* `bufferOfHex_hexOf`: the bytes of a buffer are read back.
* `parseInt_toString`: so are decimals.
-/

namespace NumberText

open BigIntText

/-- `n.toString(radix)`. -/
def toRadix (radix : ℕ) (n : ℤ) : List Char :=
  if n < 0 then '-' :: Nat.toDigits radix n.natAbs else Nat.toDigits radix n.natAbs

/-- `s.padStart(width, c)`. -/
def padStart (width : ℕ) (c : Char) (cs : List Char) : List Char :=
  List.replicate (width - cs.length) c ++ cs

/-- `s.slice(-k)`. -/
def sliceEnd (k : ℕ) (cs : List Char) : List Char :=
  cs.drop (cs.length - k)

/-- `s.slice(i, j)`. -/
def slice (i j : ℕ) (cs : List Char) : List Char :=
  (cs.drop i).take (j - i)

/-- A text without its sign, and whether that was a minus. -/
def signOf : List Char → Bool × List Char
  | '-' :: cs => (true, cs)
  | '+' :: cs => (false, cs)
  | cs => (false, cs)

/-- A hexadecimal number may have a prefix. -/
def afterPrefix (radix : ℕ) : List Char → List Char
  | '0' :: 'x' :: cs => if radix = 16 then cs else '0' :: 'x' :: cs
  | '0' :: 'X' :: cs => if radix = 16 then cs else '0' :: 'X' :: cs
  | cs => cs

/-- `parseInt(s, radix)`: the number that the text begins with, and nothing for `NaN`. -/
def parseInt (radix : ℕ) (cs : List Char) : Option ℤ :=
  let (negative, cs) := signOf (cs.dropWhile isBlank)
  let leading := (afterPrefix radix cs).takeWhile fun c => (digitValue c).any (· < radix)
  (digits radix leading).map fun n => if negative then -(n : ℤ) else n

/-- A number that is stored in a byte, `NaN` as zero. -/
def toUint8 (n : Option ℤ) : UInt8 :=
  UInt8.ofNat (n.getD 0 % 256).toNat

example : (parseInt 16 " -0x1fz".toList, toUint8 (parseInt 16 "-1".toList)) =
  (some (-31), 255) := by
  decide +kernel

/-! ### A fixed number of digits -/

/-- The last `k` hexadecimal digits. -/
def fixed : ℕ → ℕ → List Char
  | 0, _ => []
  | k + 1, n => fixed k (n / 16) ++ [(n % 16).digitChar]

@[simp] theorem fixed_length (k n : ℕ) : (fixed k n).length = k := by
  induction k generalizing n with
  | zero => rfl
  | succ k ih => simp [fixed, ih]

theorem fixed_zero (k : ℕ) : fixed k 0 = List.replicate k '0' := by
  induction k with
  | zero => rfl
  | succ k ih =>
      rw [fixed, Nat.zero_div, ih, List.replicate_succ']
      rfl

/-- **A padded text** has the digits that are asked for. -/
theorem padStart_toDigits {k n : ℕ} (hk : 0 < k) (hn : n < 16 ^ k) :
    padStart k '0' (Nat.toDigits 16 n) = fixed k n := by
  induction k generalizing n with
  | zero => exact absurd hk (lt_irrefl 0)
  | succ k ih =>
      rw [fixed, Nat.toDigits_eq_if (by norm_num)]
      split
      · rw [Nat.div_eq_of_lt ‹_›, Nat.mod_eq_of_lt ‹_›, fixed_zero]
        rfl
      · have hpow : 16 ^ (k + 1) = 16 ^ k * 16 := pow_succ 16 k
        have hpos : 0 < k := by
          rcases Nat.eq_zero_or_pos k with rfl | hpos
          · omega
          · exact hpos
        have hrest := ih hpos (Nat.div_lt_of_lt_mul (by omega) : n / 16 < 16 ^ k)
        rw [padStart] at hrest
        rw [padStart, List.length_append, List.length_singleton, Nat.add_sub_add_right,
          ← List.append_assoc, hrest]

/-! ### The digits of bytes -/

/-- The two digits of a byte. -/
def hexPair (b : UInt8) : List Char :=
  [(b.toNat / 16).digitChar, (b.toNat % 16).digitChar]

def hexOf (bs : List UInt8) : List Char :=
  bs.flatMap hexPair

theorem fixed_eq_hexOf (k n : ℕ) : fixed (2 * k) n = hexOf (beBytes k n) := by
  induction k generalizing n with
  | zero => rfl
  | succ k ih =>
      have hbyte : (UInt8.ofNat (n % 256)).toNat = n % 256 := by
        rw [UInt8.toNat_ofNat']; omega
      have hhigh : n % 256 / 16 = n / 16 % 16 := by omega
      have hlow : n % 256 % 16 = n % 16 := by omega
      rw [Nat.mul_succ, fixed, fixed, Nat.div_div_eq_div_mul, ih, beBytes, hexOf, hexOf,
        List.flatMap_append, List.flatMap_singleton, hexPair, hbyte, hhigh, hlow, List.append_assoc]
      rfl

theorem pow_256 (k : ℕ) : 256 ^ k = 16 ^ (2 * k) := by
  rw [pow_mul]
  norm_num

/-- A number in hexadecimal, padded to its bytes. -/
theorem padStart_toRadix {k n : ℕ} (hk : 0 < k) (hn : n < 256 ^ k) :
    padStart (2 * k) '0' (toRadix 16 n) = hexOf (beBytes k n) := by
  have hnonneg : ¬ ((n : ℤ) < 0) := by omega
  rw [toRadix, if_neg hnonneg, Int.natAbs_natCast, padStart_toDigits (by omega) (pow_256 k ▸ hn),
    fixed_eq_hexOf]

/-- The text of a number is not longer than its bytes. -/
theorem toRadix_length_le {k n : ℕ} (hk : 0 < k) (hn : n < 256 ^ k) :
    (toRadix 16 n).length ≤ 2 * k := by
  have hnonneg : ¬ ((n : ℤ) < 0) := by omega
  rw [toRadix, if_neg hnonneg, Int.natAbs_natCast,
    Nat.length_toDigits_le_iff (by norm_num) (by omega), ← pow_256]
  exact hn

@[simp] theorem hexOf_length (bs : List UInt8) : (hexOf bs).length = 2 * bs.length := by
  induction bs with
  | nil => rfl
  | cons b bs ih =>
      rw [hexOf, List.flatMap_cons, List.length_append, ← hexOf, ih, List.length_cons]
      show 2 + _ = _
      ring

theorem slice_hexOf {bs : List UInt8} {i : ℕ} (hi : i < bs.length) :
    slice (i * 2) (i * 2 + 2) (hexOf bs) = hexPair bs[i] := by
  have hdrop : ∀ (i : ℕ) (bs : List UInt8), (hexOf bs).drop (i * 2) = hexOf (bs.drop i) := by
    intro i
    induction i with
    | zero => exact fun bs => rfl
    | succ i ih =>
        intro bs
        cases bs with
        | nil => simp [hexOf]
        | cons b bs => simpa [hexOf, hexPair, Nat.succ_mul] using ih bs
  rw [slice, hdrop, Nat.add_sub_cancel_left, List.drop_eq_getElem_cons hi]
  rfl

/-- **Two digits** are read as their byte. -/
theorem toUint8_parseInt (b : UInt8) : toUint8 (parseInt 16 (hexPair b)) = b := by
  have hpairs : ∀ h < 16, ∀ l < 16,
      parseInt 16 [Nat.digitChar h, Nat.digitChar l] = some ((h * 16 + l : ℕ) : ℤ) := by
    decide +kernel
  have hb := b.toNat_lt
  have hdiv : b.toNat / 16 * 16 + b.toNat % 16 = b.toNat := Nat.div_add_mod' _ _
  rw [hexPair, hpairs _ (by omega) _ (by omega), hdiv, toUint8, Option.getD_some,
    Int.emod_eq_of_lt (by omega) (by omega), Int.toNat_natCast, UInt8.ofNat_toNat]

/-- The bytes of `2 * k` digits. -/
def bytesOfHex (k : ℕ) (cs : List Char) : Bytes k :=
  Vector.ofFn fun i => toUint8 (parseInt 16 (slice (i * 2) (i * 2 + 2) cs))

/-- **The bytes are read back** from their digits. -/
theorem bytesOfHex_hexOf (v : Bytes k) : bytesOfHex k (hexOf v.toList) = v := by
  refine Vector.ext fun i hi => ?_
  have hlen : i < v.toList.length := by rwa [Vector.length_toList]
  rw [bytesOfHex, Vector.getElem_ofFn, slice_hexOf hlen, toUint8_parseInt, Vector.getElem_toList]

/-! ### Reading digits -/

theorem isBlank_of_mem_fixed {k n : ℕ} {c : Char} (h : c ∈ fixed k n) : isBlank c = false := by
  induction k generalizing n with
  | zero => exact absurd h List.not_mem_nil
  | succ k ih =>
      rcases List.mem_append.mp h with h | h
      · exact ih h
      · rw [List.mem_singleton.mp h]
        exact isBlank_digitChar (Nat.mod_lt n (by norm_num))

/-- **A number** is read back from enough digits. -/
theorem digits_fixed {k n : ℕ} (hk : 0 < k) (hn : n < 16 ^ k) :
    digits 16 (fixed k n) = some n := by
  have hne : fixed k n ≠ [] := List.ne_nil_of_length_pos (by rwa [fixed_length])
  rw [digits_eq_digitsFrom hne, ← padStart_toDigits hk hn, padStart, digitsFrom_zeros (by norm_num),
    digitsFrom_toDigits (by norm_num) (by norm_num)]

theorem hexPair_injective : Function.Injective hexPair := by
  intro a b h
  rw [← toUint8_parseInt a, h, toUint8_parseInt]

theorem hexOf_injective : Function.Injective hexOf := by
  intro as
  induction as with
  | nil =>
      intro bs h
      cases bs with
      | nil => rfl
      | cons b bs => exact absurd h (List.cons_ne_nil _ _).symm
  | cons a as ih =>
      intro bs h
      cases bs with
      | nil => exact absurd h (List.cons_ne_nil _ _)
      | cons b bs =>
          obtain ⟨hpair, hrest⟩ := List.append_inj h rfl
          rw [hexPair_injective hpair, ih hrest]

/-- `Buffer.from(s, "hex")`: two digits at a time, up to what is no digit. -/
def bufferOfHex : List Char → List UInt8
  | a :: b :: cs =>
      match (digitValue a).filter (· < 16), (digitValue b).filter (· < 16) with
      | some high, some low => UInt8.ofNat (16 * high + low) :: bufferOfHex cs
      | _, _ => []
  | _ => []

theorem bufferOfHex_hexOf (bs : List UInt8) : bufferOfHex (hexOf bs) = bs := by
  induction bs with
  | nil => rfl
  | cons b bs ih =>
      have hb := b.toNat_lt
      have hhigh : b.toNat / 16 < 16 := by omega
      have hlow : b.toNat % 16 < 16 := by omega
      have hbyte : 16 * (b.toNat / 16) + b.toNat % 16 = b.toNat := Nat.div_add_mod _ _
      show bufferOfHex (_ :: _ :: hexOf bs) = _
      rw [bufferOfHex, digitValue_digitChar hhigh, digitValue_digitChar hlow, ih,
        Option.filter_some,
        if_pos (decide_eq_true hhigh), Option.filter_some, if_pos (decide_eq_true hlow)]
      show UInt8.ofNat _ :: bs = _
      rw [hbyte, UInt8.ofNat_toNat]

/-! ### Decimals -/

/-- A text that begins with a digit is read from there on. -/
theorem parseInt_of_digits {cs : List Char} (h : ∀ c ∈ cs, c.isDigit = true) (hne : cs ≠ []) :
    parseInt 10 cs = (digits 10 cs).map fun n : ℕ => (n : ℤ) := by
  obtain ⟨c, cs, rfl⟩ := List.exists_cons_of_ne_nil hne
  have hc := h c List.mem_cons_self
  have hblank : (c :: cs).dropWhile isBlank = c :: cs := by
    rw [List.dropWhile_cons_of_neg (by simp [isBlank_of_isDigit hc])]
  have hsign : signOf (c :: cs) = (false, c :: cs) := by
    rw [signOf]
    · rintro ds ⟨rfl, -⟩
      exact absurd hc (by decide)
    · rintro ds ⟨rfl, -⟩
      exact absurd hc (by decide)
  have hafter : afterPrefix 10 (c :: cs) = c :: cs := by
    rw [afterPrefix.eq_def]
    split <;> simp_all
  have hleading : (c :: cs).takeWhile (fun c => (digitValue c).any (· < 10)) = c :: cs := by
    rw [List.takeWhile_eq_self_iff]
    intro d hd
    obtain ⟨v, hv, hvalue⟩ := isDigit_iff.mp (h d hd)
    rw [hvalue, Option.any_some]
    exact decide_eq_true hv
  rw [parseInt, hblank, hsign]
  simp only [hafter, hleading]
  cases digits 10 (c :: cs) <;> rfl

/-- **Decimals** are read back. -/
theorem parseInt_toString (n : ℕ) : parseInt 10 (toString n).toList = some (n : ℤ) := by
  rw [Nat.toString_eq_ofList_toDigits, String.toList_ofList,
    parseInt_of_digits (fun c hc => Nat.isDigit_of_mem_toDigits (by norm_num) (by norm_num) hc)
      Nat.toDigits_ne_nil, digits_toDigits (by norm_num) (by norm_num)]
  rfl
end NumberText
