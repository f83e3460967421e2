import Qietr.Library.Json
import Qietr.Library.NumberText

/-!
# Library — JSON texts

`JSON.parse`, as a machine that takes one character after the other.  What lies around the place
that is read is a stack of arrays and objects that have begun.

* `Frame`, `Mode`, `State`: where the machine is.
* `step`, `result`: what a character does, and what a text is in the end.
* `parse`: the value of a text; `other` reads the numerals that are no safe integers.
* `result_stringify`, `parse_stringify`: a value is read back from its text.
-/

/-- An integer, as it is shown. -/
def JsonNumber.ofInt (n : ℤ) : JsonNumber :=
  ⟨some n, toString n⟩

namespace Json

open BigIntText NumberText

/-! ### Numerals -/

/-- `e`, a sign, and digits; or nothing. -/
def isExponent : List Char → Bool
  | [] => true
  | e :: cs =>
      let ds := (signOf cs).2
      (e = 'e' ∨ e = 'E') && ds ≠ [] && ds.all Char.isDigit

/-- A point and digits, or nothing, and then an exponent. -/
def isFraction : List Char → Bool
  | '.' :: cs =>
      let ds := cs.takeWhile Char.isDigit
      ds ≠ [] && isExponent (cs.drop ds.length)
  | cs => isExponent cs

/-- A numeral: no zero in front of other digits. -/
def isNumeral (cs : List Char) : Bool :=
  let cs := if cs.head? = some '-' then cs.tail else cs
  let ds := cs.takeWhile Char.isDigit
  ds ≠ [] && (ds.length = 1 || ds.head? ≠ some '0') && isFraction (cs.drop ds.length)

/-- The integer of a numeral that has digits only. -/
def integerOf (cs : List Char) : Option ℤ :=
  if cs.head? = some '-' then (digits 10 cs.tail).map fun n : ℕ => -(n : ℤ)
  else (digits 10 cs).map fun n : ℕ => (n : ℤ)

/-- The number of a numeral.  Up to `2 ^ 53` an integer is itself. -/
def numberOf (other : List Char → JsonNumber) (cs : List Char) : JsonNumber :=
  match (integerOf cs).filter fun n => |n| ≤ 2 ^ 53 with
  | some n => .ofInt n
  | none => other cs

def numeral? (other : List Char → JsonNumber) (cs : List Char) : Option JsonNumber :=
  if isNumeral cs then some (numberOf other cs) else none

/-! ### Code units -/

/-- The character in UTF-16. -/
def units (c : Char) : List ℕ :=
  if c.toNat < 0x10000 then [c.toNat]
  else [0xD800 + (c.toNat - 0x10000) / 0x400, 0xDC00 + (c.toNat - 0x10000) % 0x400]

def IsSurrogate (u : ℕ) : Prop :=
  0xD800 ≤ u ∧ u ≤ 0xDFFF

instance : DecidablePred IsSurrogate := fun u =>
  inferInstanceAs (Decidable (0xD800 ≤ u ∧ u ≤ 0xDFFF))

/-- The characters, if each surrogate has its partner. -/
def charsOf : List ℕ → Option (List Char)
  | [] => some []
  | [u] => if IsSurrogate u then none else some [Char.ofNat u]
  | u :: v :: us =>
      if IsSurrogate u then
        if u < 0xDC00 ∧ 0xDC00 ≤ v ∧ v ≤ 0xDFFF then
          (charsOf us).map (Char.ofNat (0x10000 + (u - 0xD800) * 0x400 + (v - 0xDC00)) :: ·)
        else none
      else (charsOf (v :: us)).map (Char.ofNat u :: ·)

/-! ### The machine -/

/-- An array that has begun, or an object up to the value of `key`. -/
inductive Frame
  | elements (before : List Json)
  | members (before : List (String × Json)) (key : String)

inductive Escape
  | plain
  | backslash
  | hex (count value : ℕ)

/-- What is read: a value, or the end of an array that is empty; a key, of an object that has these
members, or its end; the colon after it; the inside of a string, which may be such a key; the rest
of a word; a numeral; or what comes after a value. -/
inductive Mode
  | value (closes : Bool)
  | key (before : List (String × Json)) (closes : Bool)
  | colon (before : List (String × Json)) (key : String)
  | literal (us : List ℕ) (esc : Escape) (owner : Option (List (String × Json)))
  | word (rest : List Char) (v : Json)
  | number (cs : List Char)
  | after (v : Json)

abbrev State := Mode × List Frame

/-- A member of an object takes the place of one with the same key. -/
def put (fields : List (String × Json)) (key : String) (v : Json) : List (String × Json) :=
  if fields.any (·.1 = key) then fields.map fun field => if field.1 = key then (key, v) else field
  else fields ++ [(key, v)]

def isSpace (c : Char) : Bool :=
  c ∈ [' ', '\t', '\n', '\r']

def isNumberChar (c : Char) : Bool :=
  c.isDigit || c ∈ ['-', '+', '.', 'e', 'E']

/-- After a value. -/
def stepAfter (v : Json) (st : List Frame) (c : Char) : Option State :=
  if isSpace c then some (.after v, st)
  else
    match st with
    | [] => none
    | .elements before :: st =>
        if c = ',' then some (.value false, .elements (before ++ [v]) :: st)
        else if c = ']' then some (.after (arr (before ++ [v])), st)
        else none
    | .members before key :: st =>
        if c = ',' then some (.key (put before key v) false, st)
        else if c = '\x7d' then some (.after (obj (put before key v)), st)
        else none

/-- Where a value begins. -/
def stepValue (closes : Bool) (st : List Frame) (c : Char) : Option State :=
  if isSpace c then some (.value closes, st)
  else if c = '[' then some (.value true, .elements [] :: st)
  else if c = '\x7b' then some (.key [] true, st)
  else if c = '"' then some (.literal [] .plain none, st)
  else if c = 'n' then some (.word "ull".toList null, st)
  else if c = 't' then some (.word "rue".toList (bool true), st)
  else if c = 'f' then some (.word "alse".toList (bool false), st)
  else if c = '-' ∨ c.isDigit then some (.number [c], st)
  else if c = ']' ∧ closes then some (.after (arr []), st.tail)
  else none

/-- A string that has ended: a value, or the key of a member. -/
def ended (s : String) : Option (List (String × Json)) → Mode
  | none => .after (str s)
  | some before => .colon before s

/-- Within a string. -/
def stepLiteral (us : List ℕ) (esc : Escape) (owner : Option (List (String × Json)))
    (st : List Frame) (c : Char) : Option State :=
  match esc with
  | .plain =>
      if c = '"' then (charsOf us).map fun cs => (ended (String.ofList cs) owner, st)
      else if c = '\\' then some (.literal us .backslash owner, st)
      else if c.toNat < 0x20 then none
      else some (.literal (us ++ units c) .plain owner, st)
  | .backslash =>
      if c = 'u' then some (.literal us (.hex 0 0) owner, st)
      else
        (([('"', '"'), ('\\', '\\'), ('/', '/'), ('b', '\x08'), ('f', '\x0c'), ('n', '\n'),
          ('r', '\r'), ('t', '\t')].find? fun p => p.1 = c).map fun p =>
            (.literal (us ++ units p.2) .plain owner, st))
  | .hex count value =>
      ((digitValue c).filter (· < 16)).map fun d =>
        if count = 3 then (.literal (us ++ [value * 16 + d]) .plain owner, st)
        else (.literal us (.hex (count + 1) (value * 16 + d)) owner, st)

/-- **A character.** -/
def step (other : List Char → JsonNumber) : State → Char → Option State
  | (.value closes, st), c => stepValue closes st c
  | (.key before closes, st), c =>
      if isSpace c then some (.key before closes, st)
      else if c = '"' then some (.literal [] .plain (some before), st)
      else if c = '\x7d' ∧ closes then some (.after (obj []), st)
      else none
  | (.colon before key, st), c =>
      if isSpace c then some (.colon before key, st)
      else if c = ':' then some (.value false, .members before key :: st)
      else none
  | (.literal us esc owner, st), c => stepLiteral us esc owner st c
  | (.word rest v, st), c =>
      match rest with
      | [] => none
      | d :: rest =>
          if c = d then some (if rest = [] then .after v else .word rest v, st) else none
  | (.number cs, st), c =>
      if isNumberChar c then some (.number (cs ++ [c]), st)
      else (numeral? other cs).bind fun n => stepAfter (num n) st c
  | (.after v, st), c => stepAfter v st c

/-- At the end of the text. -/
def finish (other : List Char → JsonNumber) : State → Option Json
  | (.after v, []) => some v
  | (.number cs, []) => (numeral? other cs).map num
  | _ => none

/-- What is read from here on. -/
def result (other : List Char → JsonNumber) (q : State) : List Char → Option Json
  | [] => finish other q
  | c :: cs => (step other q c).bind fun q => result other q cs

/-- `JSON.parse`; nothing for its `SyntaxError`. -/
def parse (other : List Char → JsonNumber) (s : String) : Option Json :=
  result other (.value false, []) s.toList

/-! ### Numerals are read back -/

theorem digitChar_ne_zero {d : ℕ} (hd : d < 10) (hpos : 0 < d) : d.digitChar ≠ '0' := by
  revert hpos
  revert d
  decide

/-- The first digit of a number is no zero. -/
theorem head?_toDigits {n : ℕ} (hn : 0 < n) : (Nat.toDigits 10 n).head? ≠ some '0' := by
  induction n using Nat.strongRecOn with
  | _ n ih =>
      rw [Nat.toDigits_eq_if (by norm_num)]
      split_ifs with hlt
      · rw [List.head?_cons, Ne, Option.some.injEq]
        exact digitChar_ne_zero hlt hn
      · rw [List.head?_append_of_ne_nil _ Nat.toDigits_ne_nil]
        exact ih (n / 10) (by omega) (by omega)

theorem isDigit_toDigits {n : ℕ} : ∀ c ∈ Nat.toDigits 10 n, c.isDigit = true :=
  fun _ hc => Nat.isDigit_of_mem_toDigits (by norm_num) (by norm_num) hc

theorem isNumeral_toDigits (n : ℕ) :
    Nat.toDigits 10 n ≠ [] ∧ ((Nat.toDigits 10 n).takeWhile Char.isDigit = Nat.toDigits 10 n) ∧
      ((Nat.toDigits 10 n).length = 1 ∨ (Nat.toDigits 10 n).head? ≠ some '0') := by
  refine ⟨Nat.toDigits_ne_nil, List.takeWhile_eq_self_iff.mpr isDigit_toDigits, ?_⟩
  rcases Nat.eq_zero_or_pos n with rfl | hn
  · exact .inl rfl
  · exact .inr (head?_toDigits hn)

/-- The text of an integer: a sign if it is negative, and its digits. -/
theorem toList_toString (n : ℤ) : (toString n).toList = toRadix 10 n := by
  cases n with
  | ofNat n =>
      show (toString n).toList = _
      rw [Nat.toString_eq_ofList_toDigits, String.toList_ofList]
      rfl
  | negSucc n =>
      show ("-" ++ toString (n + 1)).toList = _
      rw [String.toList_append, Nat.toString_eq_ofList_toDigits, String.toList_ofList, toRadix,
        if_pos (Int.negSucc_lt_zero n), Int.natAbs_negSucc, String.toList_ofList]
      rfl

variable {other : List Char → JsonNumber}

/-- **An integer is read back.** -/
theorem numeral?_toString {n : ℤ} (hn : |n| ≤ 2 ^ 53) :
    numeral? other (toString n).toList = some (.ofInt n) := by
  obtain ⟨hne, htake, hlead⟩ := isNumeral_toDigits n.natAbs
  have hdigits : digits 10 (Nat.toDigits 10 n.natAbs) = some n.natAbs :=
    digits_toDigits (by norm_num) (by norm_num) _
  have hhead : (Nat.toDigits 10 n.natAbs).head? ≠ some '-' := by
    intro h
    obtain ⟨cs, hcs⟩ := List.head?_eq_some_iff.mp h
    have hdigit := isDigit_toDigits (n := n.natAbs) '-' (by rw [hcs]; exact List.mem_cons_self)
    exact absurd hdigit (by decide)
  rw [toList_toString, toRadix, numeral?, numberOf]
  split_ifs with hneg hnumeral hnumeral
  · have hvalue : -(n.natAbs : ℤ) = n := by omega
    simp only [integerOf, List.head?_cons, List.tail_cons, if_true, hdigits, Option.map_some,
      hvalue, Option.filter_some, decide_eq_true hn]
  · refine absurd ?_ hnumeral
    simpa [isNumeral, htake, hne, isFraction, isExponent] using hlead
  · have hvalue : (n.natAbs : ℤ) = n := by omega
    simp only [integerOf, if_neg hhead, hdigits, Option.map_some, hvalue, Option.filter_some,
      decide_eq_true hn, if_true]
  · refine absurd ?_ hnumeral
    simpa [isNumeral, if_neg hhead, htake, hne, isFraction, isExponent] using hlead

theorem isNumberChar_toString {n : ℤ} : ∀ c ∈ (toString n).toList, isNumberChar c = true := by
  intro c hc
  rw [toList_toString, toRadix] at hc
  have hdigit : ∀ c ∈ Nat.toDigits 10 n.natAbs, isNumberChar c = true := fun c hc => by
    rw [isNumberChar, isDigit_toDigits c hc, Bool.true_or]
  split_ifs at hc
  · rcases List.mem_cons.mp hc with rfl | hc
    · decide
    · exact hdigit c hc
  · exact hdigit c hc

/-! ### Strings are read back -/

theorem charsOf_cons {u : ℕ} (hu : ¬ IsSurrogate u) (us : List ℕ) :
    charsOf (u :: us) = (charsOf us).map (Char.ofNat u :: ·) := by
  cases us with
  | nil =>
      have hone : charsOf [u] = some [Char.ofNat u] := if_neg hu
      rw [hone]
      rfl
  | cons v us => rw [charsOf, if_neg hu]

/-- A text is read back from its code units. -/
theorem charsOf_units (cs : List Char) : charsOf (cs.flatMap units) = some cs := by
  induction cs with
  | nil => rfl
  | cons c cs ih =>
      have hvalid : c.toNat < 0xD800 ∨ 0xDFFF < c.toNat ∧ c.toNat < 0x110000 := c.valid
      rw [List.flatMap_cons, units]
      split_ifs with hlt
      · have hplain : ¬ IsSurrogate c.toNat := fun h => by
          rcases hvalid with hlow | ⟨hhigh, -⟩
          · exact absurd h.1 (not_le.mpr hlow)
          · exact absurd h.2 (not_le.mpr hhigh)
        rw [List.singleton_append, charsOf_cons hplain, ih, Option.map_some, Char.ofNat_toNat]
      · have hpoint : 0x10000 + (0xD800 + (c.toNat - 0x10000) / 0x400 - 0xD800) * 0x400 +
            (0xDC00 + (c.toNat - 0x10000) % 0x400 - 0xDC00) = c.toNat := by omega
        have hhigh : IsSurrogate (0xD800 + (c.toNat - 0x10000) / 0x400) := ⟨by omega, by omega⟩
        rw [List.cons_append, List.singleton_append, charsOf, if_pos hhigh, if_pos (by omega), ih,
          Option.map_some, hpoint, Char.ofNat_toNat]

variable {st : List Frame} {us : List ℕ} {owner : Option (List (String × Json))} {rest : List Char}

theorem result_cons {q r : State} {c : Char} {cs : List Char} (h : step other q c = some r) :
    result other q (c :: cs) = result other r cs := by
  rw [result, h, Option.bind_some]

theorem digitValue_hexDigit {d : ℕ} (hd : d < 16) :
    (digitValue (hexDigit d)).filter (· < 16) = some d := by
  revert d
  decide

/-- A hexadecimal digit of an escape. -/
theorem step_hex {count value d : ℕ} (hd : d < 16) :
    step other (.literal us (.hex count value) owner, st) (hexDigit d) =
      some (if count = 3 then (.literal (us ++ [value * 16 + d]) .plain owner, st)
        else (.literal us (.hex (count + 1) (value * 16 + d)) owner, st)) := by
  rw [step, stepLiteral]
  simp only [digitValue_hexDigit hd, Option.map_some]

/-- **A character of a string.** -/
theorem result_escaped (c : Char) :
    result other (.literal us .plain owner, st) (escaped c ++ rest) =
      result other (.literal (us ++ units c) .plain owner, st) rest := by
  rw [escaped.eq_def]
  split
  · rfl
  · rfl
  · rfl
  · rfl
  · rfl
  · rfl
  · rfl
  · split_ifs with hlt
    · have hunits : units c = [((0 * 16 + 0) * 16 + c.toNat / 16) * 16 + c.toNat % 16] := by
        rw [units, if_pos (by omega)]
        congr 1
        omega
      have hzero : '0' = hexDigit 0 := rfl
      simp only [List.cons_append, List.nil_append]
      rw [result_cons (r := (.literal us .backslash owner, st)) rfl,
        result_cons (r := (.literal us (.hex 0 0) owner, st)) rfl, hzero,
        result_cons (step_hex (by norm_num)), if_neg (by norm_num),
        result_cons (step_hex (by norm_num)), if_neg (by norm_num),
        result_cons (step_hex (by omega)), if_neg (by norm_num),
        result_cons (step_hex (by omega)), if_pos rfl, hunits]
    · rename_i hquote hback _ _ _ _ _
      refine result_cons ?_
      rw [step, stepLiteral, if_neg hquote, if_neg hback, if_neg hlt]

theorem result_string (cs : List Char) :
    result other (.literal us .plain owner, st) (cs.flatMap escaped ++ rest) =
      result other (.literal (us ++ cs.flatMap units) .plain owner, st) rest := by
  induction cs generalizing us with
  | nil => rw [List.flatMap_nil, List.flatMap_nil, List.nil_append, List.append_nil]
  | cons c cs ih =>
      rw [List.flatMap_cons, List.append_assoc, result_escaped, ih, List.flatMap_cons,
        List.append_assoc]

/-- **A string is read back.** -/
theorem result_quoted (s : String) :
    result other (.literal [] .plain owner, st) (s.toList.flatMap escaped ++ '"' :: rest) =
      result other (ended s owner, st) rest := by
  have hclose : step other (.literal ([] ++ s.toList.flatMap units) .plain owner, st) '"' =
      some (ended s owner, st) := by
    rw [step, stepLiteral, if_pos rfl, List.nil_append, charsOf_units, Option.map_some,
      String.ofList_toList]
  rw [result_string, result_cons hclose]

theorem toList_quoted (s : String) (rest : List Char) :
    (quoted s).toList ++ rest = '"' :: (s.toList.flatMap escaped ++ '"' :: rest) := by
  rw [quoted, String.toList_ofList, List.cons_append, List.cons_append, List.append_assoc,
    List.singleton_append]

/-- A key, and the colon after it. -/
theorem result_key (before : List (String × Json)) (key : String) (closes : Bool) :
    result other (.key before closes, st) ((quoted key).toList ++ ':' :: rest) =
      result other (.value false, .members before key :: st) rest := by
  rw [toList_quoted, result_cons (r := (.literal [] .plain (some before), st)) rfl, result_quoted]
  exact result_cons rfl

/-! ### Values are read back -/

mutual

/-- The numbers are safe integers, and no key occurs twice in an object. -/
def Regular : Json → Prop
  | num n => ∃ z : ℤ, |z| ≤ 2 ^ 53 ∧ n = .ofInt z
  | arr xs => RegularAll xs
  | obj fields => (fields.map Prod.fst).Nodup ∧ RegularFields fields
  | _ => True

def RegularAll : List Json → Prop
  | [] => True
  | x :: xs => x.Regular ∧ RegularAll xs

def RegularFields : List (String × Json) → Prop
  | [] => True
  | field :: fields => field.2.Regular ∧ RegularFields fields

end

/-- A numeral does not go on. -/
def Ends (rest : List Char) : Prop :=
  ∀ c ∈ rest.head?, isNumberChar c = false

theorem ends_cons {c : Char} (h : isNumberChar c = false) : Ends (c :: rest) := by
  rintro _ ⟨⟩
  exact h

theorem result_number {cs ds : List Char} (hds : ∀ c ∈ ds, isNumberChar c = true) :
    result other (.number cs, st) (ds ++ rest) = result other (.number (cs ++ ds), st) rest := by
  induction ds generalizing cs with
  | nil => rw [List.nil_append, List.append_nil]
  | cons d ds ih =>
      have hstep : step other (.number cs, st) d = some (.number (cs ++ [d]), st) := by
        rw [step, if_pos (hds d List.mem_cons_self)]
      rw [List.cons_append, result_cons hstep, ih fun c hc => hds c (List.mem_cons_of_mem _ hc),
        List.append_assoc, List.singleton_append]

/-- What comes after a numeral comes after its number. -/
theorem result_numeral {cs : List Char} {n : JsonNumber} (hcs : numeral? other cs = some n)
    (hrest : Ends rest) :
    result other (.number cs, st) rest = result other (.after (num n), st) rest := by
  cases rest with
  | nil =>
      cases st with
      | nil =>
          simp only [result, finish, hcs, Option.map_some]
      | cons => rfl
  | cons c rest =>
      have hc : ¬ isNumberChar c = true := by
        rw [hrest c rfl]
        decide
      rw [result, result, step, step, if_neg hc, hcs, Option.bind_some]

theorem put_of_notMem {fields : List (String × Json)} {key : String} {v : Json}
    (h : key ∉ fields.map Prod.fst) : put fields key v = fields ++ [(key, v)] := by
  have hany : ¬ fields.any (·.1 = key) = true := by
    simpa using h
  rw [put, if_neg hany]

theorem stepValue_digit {c : Char} {closes : Bool} (h : c = '-' ∨ c.isDigit = true) :
    stepValue closes st c = some (.number [c], st) := by
  have hne : ∀ d, d ≠ '-' → d.isDigit = false → c ≠ d := by
    rintro d hminus hdigit rfl
    rcases h with h | h
    · exact hminus h
    · rw [hdigit] at h
      cases h
  have hspace : ¬ isSpace c = true := by
    simp [isSpace, hne ' ' (by decide) (by decide), hne '\t' (by decide) (by decide),
      hne '\n' (by decide) (by decide), hne '\r' (by decide) (by decide)]
  rw [stepValue, if_neg hspace, if_neg (hne _ (by decide) (by decide)),
    if_neg (hne _ (by decide) (by decide)), if_neg (hne _ (by decide) (by decide)),
    if_neg (hne _ (by decide) (by decide)), if_neg (hne _ (by decide) (by decide)),
    if_neg (hne _ (by decide) (by decide)), if_pos h]

theorem exists_first (z : ℤ) :
    ∃ c cs, (toString z).toList = c :: cs ∧ (c = '-' ∨ c.isDigit = true) := by
  rw [toList_toString, toRadix]
  split_ifs
  · exact ⟨_, _, rfl, .inl rfl⟩
  · obtain ⟨c, cs, hcs⟩ := List.exists_cons_of_ne_nil
      (Nat.toDigits_ne_nil (b := 10) (n := z.natAbs))
    exact ⟨c, cs, hcs, .inr (isDigit_toDigits c (by rw [hcs]; exact List.mem_cons_self))⟩

/-- An integer is not infinite. -/
theorem numeral_ofInt (z : ℤ) : (JsonNumber.ofInt z).numeral = toString z := by
  have hchars := isNumberChar_toString (n := z)
  refine if_neg ?_
  rintro (h | h)
  · exact absurd (hchars 'I' (by rw [show toString z = "Infinity" from h]; decide)) (by decide)
  · exact absurd (hchars 'I' (by rw [show toString z = "-Infinity" from h]; decide)) (by decide)

/-- An integer is read back. -/
theorem result_integer {z : ℤ} {closes : Bool} (hz : |z| ≤ 2 ^ 53) (hrest : Ends rest) :
    result other (.value closes, st) ((toString z).toList ++ rest) =
      result other (.after (num (.ofInt z)), st) rest := by
  obtain ⟨c, cs, hcs, hc⟩ := exists_first z
  have hchars := isNumberChar_toString (n := z)
  have hnumeral : numeral? other (toString z).toList = some (.ofInt z) := numeral?_toString hz
  rw [hcs] at hchars hnumeral ⊢
  have hfirst : step other (.value closes, st) c = some (.number [c], st) := stepValue_digit hc
  have hrestChars : ∀ d ∈ cs, isNumberChar d = true := fun d hd =>
    hchars d (List.mem_cons_of_mem _ hd)
  rw [List.cons_append, result_cons hfirst, result_number hrestChars, List.singleton_append,
    result_numeral hnumeral hrest]

theorem stringifyAll_cons (x y : Json) (ys : List Json) :
    ",".intercalate (stringifyAll (x :: y :: ys)) =
      x.stringify ++ "," ++ ",".intercalate (stringifyAll (y :: ys)) := by
  rw [stringifyAll, stringifyAll, String.intercalate_cons_cons]

theorem stringifyFields_cons (key : String) (v : Json) (field : String × Json)
    (fields : List (String × Json)) :
    ",".intercalate (stringifyFields ((key, v) :: field :: fields)) =
      quoted key ++ ":" ++ v.stringify ++ "," ++
        ",".intercalate (stringifyFields (field :: fields)) := by
  obtain ⟨key', v'⟩ := field
  rw [stringifyFields, stringifyFields, String.intercalate_cons_cons]

theorem notMem_of_nodup {before fields : List (String × Json)} {key : String} {v : Json}
    (h : ((before ++ (key, v) :: fields).map Prod.fst).Nodup) : key ∉ before.map Prod.fst := by
  rw [List.map_append, List.map_cons, List.nodup_append] at h
  exact fun hmem => h.2.2 key hmem key List.mem_cons_self rfl

mutual

/-- **A value is read back** from its text, whatever follows. -/
theorem result_stringify {closes : Bool} {st : List Frame} {rest : List Char} :
    ∀ {j : Json}, j.Regular → Ends rest →
      result other (.value closes, st) (j.stringify.toList ++ rest) =
        result other (.after j, st) rest
  | null, _, _ => rfl
  | bool true, _, _ => rfl
  | bool false, _, _ => rfl
  | num n, h, hrest => by
      obtain ⟨z, hz, rfl⟩ := h
      rw [stringify, numeral_ofInt]
      exact result_integer hz hrest
  | str s, _, _ => by
      rw [stringify, toList_quoted, result_cons (r := (.literal [] .plain none, st)) rfl,
        result_quoted]
      rfl
  | arr [], _, _ => by
      rw [stringify, stringifyAll, String.intercalate_nil]
      rfl
  | arr (x :: xs), h, _ => by
      rw [stringify, String.toList_append, String.toList_append, List.append_assoc,
        List.append_assoc]
      exact (result_cons rfl).trans (result_elements [] true (List.cons_ne_nil x xs) h)
  | obj [], _, _ => by
      rw [stringify, stringifyFields, String.intercalate_nil]
      rfl
  | obj (field :: fields), h, _ => by
      rw [stringify, String.toList_append, String.toList_append, List.append_assoc,
        List.append_assoc]
      exact (result_cons rfl).trans
        (result_members [] true (List.cons_ne_nil field fields) h.1 h.2)

/-- The elements of an array that has begun. -/
theorem result_elements {st : List Frame} {rest : List Char} (before : List Json) (closes : Bool) :
    ∀ {xs : List Json}, xs ≠ [] → RegularAll xs →
      result other (.value closes, .elements before :: st)
        ((",".intercalate (stringifyAll xs)).toList ++ (']' :: rest)) =
        result other (.after (arr (before ++ xs)), st) rest
  | [], hne, _ => absurd rfl hne
  | [x], _, h => by
      rw [stringifyAll, stringifyAll, String.intercalate_singleton,
        result_stringify h.1 (ends_cons (by decide))]
      exact result_cons rfl
  | x :: y :: ys, _, h => by
      rw [stringifyAll_cons, String.toList_append, String.toList_append, List.append_assoc,
        List.append_assoc]
      refine (result_stringify h.1 (ends_cons (by decide))).trans ?_
      refine (result_cons rfl).trans
        ((result_elements (before ++ [x]) false (List.cons_ne_nil _ _) h.2).trans ?_)
      rw [List.append_assoc, List.singleton_append]

/-- The members of an object that has begun. -/
theorem result_members {st : List Frame} {rest : List Char} (before : List (String × Json))
    (closes : Bool) :
    ∀ {fields : List (String × Json)}, fields ≠ [] →
      ((before ++ fields).map Prod.fst).Nodup → RegularFields fields →
      result other (.key before closes, st)
        ((",".intercalate (stringifyFields fields)).toList ++ ('\x7d' :: rest)) =
        result other (.after (obj (before ++ fields)), st) rest
  | [], hne, _, _ => absurd rfl hne
  | [(key, v)], _, hkeys, h => by
      have hclose : step other (.after v, .members before key :: st) '\x7d' =
          some (.after (obj (before ++ [(key, v)])), st) := by
        rw [← put_of_notMem (notMem_of_nodup hkeys)]
        rfl
      rw [stringifyFields, stringifyFields, String.intercalate_singleton, String.toList_append,
        String.toList_append, List.append_assoc, List.append_assoc]
      exact (result_key before key closes).trans
        ((result_stringify h.1 (ends_cons (by decide))).trans (result_cons hclose))
  | (key, v) :: field :: fields, _, hkeys, h => by
      have hnext : step other (.after v, .members before key :: st) ',' =
          some (.key (before ++ [(key, v)]) false, st) := by
        rw [← put_of_notMem (notMem_of_nodup hkeys)]
        rfl
      have hmembers := @result_members st rest (before ++ [(key, v)]) false _
        (List.cons_ne_nil _ _) (by rwa [List.append_assoc, List.singleton_append]) h.2
      rw [List.append_assoc, List.singleton_append] at hmembers
      rw [stringifyFields_cons, String.toList_append, String.toList_append, String.toList_append,
        String.toList_append, List.append_assoc, List.append_assoc, List.append_assoc,
        List.append_assoc]
      exact (result_key before key closes).trans
        ((result_stringify h.1 (ends_cons (by decide))).trans ((result_cons hnext).trans hmembers))

end

/-- **`JSON.parse` inverts `JSON.stringify`.** -/
theorem parse_stringify {j : Json} (h : j.Regular) : parse other j.stringify = some j := by
  have hresult : result other (.value false, []) (j.stringify.toList ++ []) =
      result other (.after j, []) [] := result_stringify h fun _ hc => by cases hc
  rw [List.append_nil] at hresult
  rw [parse, hresult]
  rfl

example :
    (parse (fun _ => .ofInt 0) " [1, -20 ,\"a\\u0041\\n\", \x7b\x7d ] ").map stringify =
      some "[1,-20,\"aA\\n\",\x7b\x7d]" := by
  decide +kernel

end Json
