import Qietr.Library.Utf8

/-!
# Library — UTF-16

The texts of JavaScript: any 16-bit units in a row, in which a surrogate may stand alone.

* `Text`, `ofString`: such a text, and the one of a well-formed text.
* `toChars`, `utf8`: what an encoder to UTF-8 makes of it, which takes a lone surrogate for U+FFFD.
* `toChars_ofString`, `utf8_ofString`: a well-formed text is read as it is.
-/

namespace Utf16

abbrev Text : Type :=
  List UInt16

/-- One unit, or two surrogates. -/
def unitsOf (c : Char) : Text :=
  let n := c.toNat
  if n < 0x10000 then [.ofNat n]
  else [.ofNat (0xD800 + (n - 0x10000) / 0x400), .ofNat (0xDC00 + (n - 0x10000) % 0x400)]

def ofString (s : String) : Text :=
  s.toList.flatMap unitsOf

def IsHigh (u : UInt16) : Prop :=
  0xD800 ≤ u.toNat ∧ u.toNat < 0xDC00

def IsLow (u : UInt16) : Prop :=
  0xDC00 ≤ u.toNat ∧ u.toNat < 0xE000

instance (u : UInt16) : Decidable (IsHigh u) :=
  inferInstanceAs (Decidable (_ ∧ _))

instance (u : UInt16) : Decidable (IsLow u) :=
  inferInstanceAs (Decidable (_ ∧ _))

/-- A unit that is half of no pair. -/
def single (u : UInt16) : Char :=
  if IsHigh u ∨ IsLow u then Utf8.replacement else Char.ofNat u.toNat

def pair (high low : UInt16) : Char :=
  Char.ofNat (0x10000 + (high.toNat - 0xD800) * 0x400 + (low.toNat - 0xDC00))

def toChars : Text → List Char
  | [] => []
  | [u] => [single u]
  | u :: v :: us =>
      if IsHigh u ∧ IsLow v then pair u v :: toChars us else single u :: toChars (v :: us)

/-- `TextEncoder`, and `Buffer.from` of a text. -/
def utf8 (us : Text) : List UInt8 :=
  (toChars us).flatMap Utf8.encodeChar

/-! ### Well-formed texts -/

/-- A unit that is no high surrogate stands for itself, whatever follows. -/
theorem toChars_cons {u : UInt16} (h : ¬ IsHigh u) (us : Text) :
    toChars (u :: us) = single u :: toChars us := by
  cases us with
  | nil => rfl
  | cons v us => rw [toChars, if_neg fun hpair => h hpair.1]

/-- The code of a character is no surrogate. -/
theorem toNat_valid (c : Char) : c.toNat < 0xD800 ∨ 0xE000 ≤ c.toNat ∧ c.toNat < 0x110000 := by
  have h : UInt32.isValidChar c.val := c.valid
  rcases h with h | ⟨h, h'⟩
  · exact Or.inl h
  · exact Or.inr ⟨h, h'⟩

theorem toChars_unitsOf (c : Char) (us : Text) :
    toChars (unitsOf c ++ us) = c :: toChars us := by
  have hvalid := toNat_valid c
  rw [unitsOf]
  by_cases hsmall : c.toNat < 0x10000
  · rw [if_pos hsmall, List.singleton_append]
    have hunit : (UInt16.ofNat c.toNat).toNat = c.toNat := UInt16.toNat_ofNat_of_lt' hsmall
    have hhigh : ¬ IsHigh (UInt16.ofNat c.toNat) := by
      rw [IsHigh, hunit]
      omega
    have hlow : ¬ IsLow (UInt16.ofNat c.toNat) := by
      rw [IsLow, hunit]
      omega
    rw [toChars_cons hhigh, single, if_neg (not_or.mpr ⟨hhigh, hlow⟩), hunit, Char.ofNat_toNat]
  · rw [if_neg hsmall]
    have hhigh : (UInt16.ofNat (0xD800 + (c.toNat - 0x10000) / 0x400)).toNat =
        0xD800 + (c.toNat - 0x10000) / 0x400 :=
      UInt16.toNat_ofNat_of_lt' (show _ < 65536 by omega)
    have hlow : (UInt16.ofNat (0xDC00 + (c.toNat - 0x10000) % 0x400)).toNat =
        0xDC00 + (c.toNat - 0x10000) % 0x400 :=
      UInt16.toNat_ofNat_of_lt' (show _ < 65536 by omega)
    have hpoint : 0x10000 + (0xD800 + (c.toNat - 0x10000) / 0x400 - 0xD800) * 0x400 +
        (0xDC00 + (c.toNat - 0x10000) % 0x400 - 0xDC00) = c.toNat := by
      omega
    show toChars (_ :: _ :: us) = _
    rw [toChars, if_pos (by rw [IsHigh, IsLow, hhigh, hlow]; omega), pair, hhigh, hlow, hpoint,
      Char.ofNat_toNat]

/-- **A well-formed text** is read as it is. -/
theorem toChars_ofString (s : String) : toChars (ofString s) = s.toList := by
  rw [ofString]
  induction s.toList with
  | nil => rfl
  | cons c cs ih => rw [List.flatMap_cons, toChars_unitsOf, ih]

theorem utf8_ofString (s : String) : utf8 (ofString s) = Utf8.encode s := by
  rw [utf8, toChars_ofString, Utf8.encode]

/-- A lone surrogate, of either kind. -/
example : toChars [0xD83D, 0xDE00, 0xDE00, 0x41, 0xD83D] =
    [Char.ofNat 0x1F600, '\uFFFD', 'A', '\uFFFD'] := by decide +kernel

end Utf16
