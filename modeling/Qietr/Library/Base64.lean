import Qietr.Library.Utf16

/-!
# Library — base 64

Text as bytes, in the way of a decoder that refuses nothing (either alphabet, and what is no digit
is skipped), and of `atob`, which does refuse.

* `decodeUnits`: the bytes of a text of JavaScript, up to the first `=`; of each of its units the
  low byte is read.
* `decodeUnits_append`: a skipped unit at the end changes nothing.
* `decode`: the bytes of a well-formed text; `decode_of_ascii`: of one in ASCII.
* `atob`: the bytes of a text, blanks skipped; nothing where it throws.
-/

namespace Base64

/-- The value of a digit, of the standard alphabet or of the URL one. -/
def digitValue (c : Char) : Option ℕ :=
  if 'A' ≤ c ∧ c ≤ 'Z' then some (c.toNat - 'A'.toNat)
  else if 'a' ≤ c ∧ c ≤ 'z' then some (c.toNat - 'a'.toNat + 26)
  else if '0' ≤ c ∧ c ≤ '9' then some (c.toNat - '0'.toNat + 52)
  else if c = '+' ∨ c = '-' then some 62
  else if c = '/' ∨ c = '_' then some 63
  else none

/-- Four digits are three bytes; the bits left over at the end are dropped. -/
def bytesOf : List ℕ → List UInt8
  | a :: b :: c :: d :: ds =>
      .ofNat (a * 4 + b / 16) :: .ofNat (b % 16 * 16 + c / 4) :: .ofNat (c % 4 * 64 + d) ::
        bytesOf ds
  | [a, b, c] => [.ofNat (a * 4 + b / 16), .ofNat (b % 16 * 16 + c / 4)]
  | [a, b] => [.ofNat (a * 4 + b / 16)]
  | _ => []

/-- Of characters, up to the first `=`. -/
def decodeChars (cs : List Char) : List UInt8 :=
  bytesOf ((cs.takeWhile (· ≠ '=')).filterMap digitValue)

/-- A unit is cut off to its low byte. -/
def lowChar (u : UInt16) : Char :=
  Char.ofNat (u.toNat % 0x100)

/-- `Buffer.from(s, 'base64')`. -/
def decodeUnits (us : Utf16.Text) : List UInt8 :=
  decodeChars (us.map lowChar)

/-- Of a well-formed text. -/
def decode (s : String) : List UInt8 :=
  decodeUnits (Utf16.ofString s)

theorem decodeChars_append {cs ds : List Char} (h : ∀ c ∈ ds, digitValue c = none) :
    decodeChars (cs ++ ds) = decodeChars cs := by
  have hnone : (ds.takeWhile (· ≠ '=')).filterMap digitValue = [] :=
    List.filterMap_eq_nil_iff.mpr fun c hc => h c (List.takeWhile_subset _ hc)
  rw [decodeChars, decodeChars, List.takeWhile_append]
  split_ifs with hall
  · rw [List.filterMap_append, hnone, List.append_nil,
      (List.takeWhile_sublist _).eq_of_length hall]
  · rfl

/-- What is no digit is not read at the end of a text. -/
theorem decodeUnits_append {us vs : Utf16.Text} (h : ∀ v ∈ vs, digitValue (lowChar v) = none) :
    decodeUnits (us ++ vs) = decodeUnits us := by
  rw [decodeUnits, decodeUnits, List.map_append]
  refine decodeChars_append fun c hc => ?_
  obtain ⟨v, hv, rfl⟩ := List.mem_map.mp hc
  exact h v hv

/-- A text in ASCII is read character by character. -/
theorem decode_of_ascii {s : String} (h : ∀ c ∈ s.toList, c.toNat < 0x80) :
    decode s = decodeChars s.toList := by
  rw [decode, decodeUnits, Utf16.ofString]
  refine congrArg decodeChars ?_
  generalize s.toList = cs at h ⊢
  induction cs with
  | nil => rfl
  | cons c cs ih =>
      rw [List.forall_mem_cons] at h
      have hunits : Utf16.unitsOf c = [.ofNat c.toNat] := if_pos (by omega)
      have hlow : lowChar (.ofNat c.toNat) = c := by
        rw [lowChar, UInt16.toNat_ofNat_of_lt' (show c.toNat < 65536 by omega),
          Nat.mod_eq_of_lt (by omega), Char.ofNat_toNat]
      rw [List.flatMap_cons, List.map_append, ih h.2, hunits, List.map_singleton, hlow]
      rfl

/-- Known texts: what is no digit is skipped, and of `Ł` the low byte is `A`. -/
example : decode "cXVpZXQ=" = decode "cXVp\nZXQ" ∧
  decode "AQA=" = decodeUnits [0x41, 0x51, 0x141] := by
  decide +kernel

/-! ### `atob` -/

/-- The digits of the standard alphabet. -/
def standardDigit (c : Char) : Option ℕ :=
  if c = '-' ∨ c = '_' then none else digitValue c

/-- Up to two `=` that fill the last four characters are dropped. -/
def unpad (cs : List Char) : List Char :=
  if cs.length % 4 = 0 then
    if cs.drop (cs.length - 2) = ['=', '='] then cs.take (cs.length - 2)
    else if cs.drop (cs.length - 1) = ['='] then cs.take (cs.length - 1)
    else cs
  else cs

def atob (s : String) : Option (List UInt8) :=
  let cs := unpad (s.toList.filter (· ∉ ['\t', '\n', '\x0c', '\r', ' ']))
  if cs.length % 4 = 1 then none else (cs.mapM standardDigit).map bytesOf

/-- What fills up the last characters is dropped. -/
theorem unpad_append {cs : List Char} {k : ℕ} (hk : k ≤ 2) (hlen : (cs.length + k) % 4 = 0)
    (hcs : '=' ∉ cs) : unpad (cs ++ List.replicate k '=') = cs := by
  rw [unpad, List.length_append, List.length_replicate, if_pos hlen]
  interval_cases k
  · have hmem : ∀ n, '=' ∉ cs.drop n := fun n h => hcs (List.mem_of_mem_drop h)
    rw [List.replicate_zero, List.append_nil, if_neg, if_neg]
    · exact fun h => hmem _ (h ▸ List.mem_singleton_self _)
    · exact fun h => hmem _ (h ▸ List.mem_cons_self)
  · -- the character before it is another one
    rcases List.eq_nil_or_concat cs with rfl | ⟨cs, c, rfl⟩
    · simp at hlen
    · rw [List.concat_eq_append] at hcs ⊢
      have hc : c ≠ '=' := fun h => hcs (h ▸ by simp)
      have hdrop : (cs ++ [c] ++ ['=']).drop ((cs ++ [c]).length + 1 - 2) = [c, '='] := by
        rw [List.append_assoc]
        exact List.drop_left' (by simp)
      rw [List.replicate_one, hdrop, if_neg (by simpa using hc)]
      rw [if_pos (List.drop_left' (by omega)), List.take_left' (by omega)]
  · show (if (cs ++ ['=', '=']).drop (cs.length + 2 - 2) = ['=', '='] then _ else _) = _
    rw [if_pos (List.drop_left' (by omega))]
    exact List.take_left' (by omega)

example : (atob "cXVp ZXQ=", atob "cXVpZXQ==", atob "cXVp-XQ=") =
    (some (decode "cXVpZXQ"), none, none) := by
  decide +kernel

end Base64
