import Mathlib.Tactic

/-!
# Library — `BigInt` of a string

The integer that JavaScript reads from a text: blanks around it are dropped, nothing is zero, a sign
goes with decimal digits only, and `0x`, `0o` and `0b` set another base.

* `bigIntOfString`: the integer, or nothing for a `SyntaxError`.
* `bigIntOfString_toString`, `bigIntOfString_hex`: it reads back what was written.
* `Spells`: the number that digits stand for; `digits_eq_some`: it is the one that is read.
* `trim_eq_iff`: what is left without blanks.
-/

namespace BigIntText

/-- White space and line ends. -/
def isBlank (c : Char) : Bool :=
  c ∈ ['\t', '\n', '\x0b', '\x0c', '\r', ' ', '\u00a0', '\u1680', '\u2028', '\u2029', '\u202f',
    '\u205f', '\u3000', '\ufeff'] || (0x2000 ≤ c.toNat && c.toNat ≤ 0x200a)

/-- A text without the blanks around it. -/
def trim (cs : List Char) : List Char :=
  ((cs.dropWhile isBlank).reverse.dropWhile isBlank).reverse

/-- The value of a digit. -/
def digitValue (c : Char) : Option ℕ :=
  if '0' ≤ c ∧ c ≤ '9' then some (c.toNat - '0'.toNat)
  else if 'a' ≤ c ∧ c ≤ 'z' then some (c.toNat - 'a'.toNat + 10)
  else if 'A' ≤ c ∧ c ≤ 'Z' then some (c.toNat - 'A'.toNat + 10)
  else none

/-- The digits of `base` read so far make `n`. -/
def digitsFrom (base n : ℕ) : List Char → Option ℕ
  | [] => some n
  | c :: cs =>
      match digitValue c with
      | some v => if v < base then digitsFrom base (n * base + v) cs else none
      | none => none

/-- One digit or more. -/
def digits (base : ℕ) : List Char → Option ℕ
  | [] => none
  | c :: cs => digitsFrom base 0 (c :: cs)

/-- `BigInt(s)`. -/
def bigIntOfString (s : String) : Option ℤ :=
  match trim s.toList with
  | [] => some 0
  | '0' :: 'x' :: cs | '0' :: 'X' :: cs => (digits 16 cs).map fun n => (n : ℤ)
  | '0' :: 'o' :: cs | '0' :: 'O' :: cs => (digits 8 cs).map fun n => (n : ℤ)
  | '0' :: 'b' :: cs | '0' :: 'B' :: cs => (digits 2 cs).map fun n => (n : ℤ)
  | '-' :: cs => (digits 10 cs).map fun n => -(n : ℤ)
  | '+' :: cs => (digits 10 cs).map fun n => (n : ℤ)
  | cs => (digits 10 cs).map fun n => (n : ℤ)

example : bigIntOfString " 0x1F " = some 31 := by decide +kernel

/-! ### Reading back -/

variable {base : ℕ} {cs cs' : List Char}

theorem digitValue_digitChar {d : ℕ} (hd : d < 16) : digitValue d.digitChar = some d := by
  revert d
  decide +kernel

theorem isBlank_digitChar {d : ℕ} (hd : d < 16) : isBlank d.digitChar = false := by
  revert d
  decide +kernel

theorem digitsFrom_append (base n : ℕ) (cs cs' : List Char) :
    digitsFrom base n (cs ++ cs') = (digitsFrom base n cs).bind fun m => digitsFrom base m cs' := by
  induction cs generalizing n with
  | nil => rfl
  | cons c cs ih =>
      rw [List.cons_append, digitsFrom, digitsFrom]
      cases digitValue c with
      | none => rfl
      | some v =>
          by_cases hv : v < base
          · simp only [if_pos hv]
            exact ih _
          · simp only [if_neg hv]
            rfl

/-- Zeros in front are not read. -/
theorem digitsFrom_zeros (hb : 0 < base) (k : ℕ) (cs : List Char) :
    digitsFrom base 0 (List.replicate k '0' ++ cs) = digitsFrom base 0 cs := by
  have hzero : digitValue '0' = some 0 := rfl
  induction k with
  | zero => rfl
  | succ k ih =>
      rw [List.replicate_succ, List.cons_append, digitsFrom, hzero]
      simpa [hb] using ih

/-- The digits of a number are read as the number. -/
theorem digitsFrom_toDigits (hb : 1 < base) (hb' : base ≤ 16) (n : ℕ) :
    digitsFrom base 0 (Nat.toDigits base n) = some n := by
  induction n using Nat.strong_induction_on with
  | h n ih =>
      have hlast : ∀ m : ℕ, digitsFrom base m [(n % base).digitChar] =
        some (m * base + n % base) := by
        intro m
        have hlt : n % base < base := Nat.mod_lt n (by omega)
        rw [digitsFrom, digitValue_digitChar (by omega)]
        simp [hlt, digitsFrom]
      rw [Nat.toDigits_eq_if hb]
      split
      · have h := hlast 0
        rwa [Nat.mod_eq_of_lt ‹_›, Nat.zero_mul, Nat.zero_add] at h
      · rw [digitsFrom_append, ih (n / base) (Nat.div_lt_self (by omega) hb), Option.bind_some,
          hlast, Nat.div_add_mod']

theorem digits_eq_digitsFrom (hne : cs ≠ []) : digits base cs = digitsFrom base 0 cs := by
  cases cs with
  | nil => exact absurd rfl hne
  | cons c cs => rfl

theorem digits_toDigits (hb : 1 < base) (hb' : base ≤ 16) (n : ℕ) :
    digits base (Nat.toDigits base n) = some n := by
  rw [digits_eq_digitsFrom Nat.toDigits_ne_nil, digitsFrom_toDigits hb hb']

/-- A text without blanks. -/
theorem trim_eq_self (h : ∀ c ∈ cs, isBlank c = false) : trim cs = cs := by
  have hdrop : ∀ ds : List Char, (∀ c ∈ ds, isBlank c = false) → ds.dropWhile isBlank = ds := by
    intro ds hds
    cases ds with
    | nil => rfl
    | cons d ds =>
        exact List.dropWhile_cons_of_neg
          (by rw [hds d List.mem_cons_self]; exact Bool.false_ne_true)
  rw [trim, hdrop cs h, hdrop _ fun c hc => h c (List.mem_reverse.mp hc), List.reverse_reverse]

theorem char_le_iff (a b : Char) : a ≤ b ↔ a.toNat ≤ b.toNat := UInt32.le_iff_toNat_le

/-- A digit, of any base, is no blank. -/
theorem isBlank_of_digitValue {c : Char} {v : ℕ} (hc : digitValue c = some v) :
    isBlank c = false := by
  have hrange : 48 ≤ c.toNat ∧ c.toNat ≤ 122 := by
    simp only [digitValue, char_le_iff, Char.reduceToNat] at hc
    split at hc
    · omega
    · split at hc
      · omega
      · split at hc
        · omega
        · cases hc
  have hne : ∀ d : Char, d.toNat < 48 ∨ 122 < d.toNat → c ≠ d := by
    rintro d hd rfl
    omega
  simp only [isBlank, Bool.or_eq_false_iff, decide_eq_false_iff_not, List.mem_cons,
    List.not_mem_nil,
    or_false, not_or, Bool.and_eq_false_iff]
  exact ⟨⟨hne _ (by decide), hne _ (by decide), hne _ (by decide), hne _ (by decide),
    hne _ (by decide), hne _ (by decide), hne _ (by decide), hne _ (by decide), hne _ (by decide),
    hne _ (by decide), hne _ (by decide), hne _ (by decide), hne _ (by decide), hne _ (by decide)⟩,
    .inl (by omega)⟩

theorem isDigit_iff {c : Char} : c.isDigit = true ↔ ∃ v < 10, digitValue c = some v := by
  have hdigit : c.isDigit = true ↔ 48 ≤ c.toNat ∧ c.toNat ≤ 57 := by
    simp [Char.isDigit, UInt32.le_iff_toNat_le]
  simp only [hdigit, digitValue, char_le_iff, Char.reduceToNat]
  constructor
  · intro h
    exact ⟨c.toNat - 48, by omega, if_pos h⟩
  · rintro ⟨v, hv, h⟩
    split at h
    · assumption
    · split at h
      · obtain rfl := Option.some.inj h
        omega
      · split at h
        · obtain rfl := Option.some.inj h
          omega
        · cases h

theorem isBlank_of_isDigit {c : Char} (hc : c.isDigit = true) : isBlank c = false := by
  obtain ⟨v, -, hv⟩ := isDigit_iff.mp hc
  exact isBlank_of_digitValue hv

/-- A text of decimal digits. -/
theorem bigIntOfString_decimal (hne : cs ≠ []) (h : ∀ c ∈ cs, c.isDigit = true) :
    bigIntOfString (String.ofList cs) = (digits 10 cs).map fun n => (n : ℤ) := by
  have htrim : trim (String.ofList cs).toList = cs := by
    rw [String.toList_ofList]
    exact trim_eq_self fun c hc => isBlank_of_isDigit (h c hc)
  rw [bigIntOfString, htrim]
  -- a digit is no sign and no letter of a prefix
  split
  case h_1 => exact absurd rfl hne
  case h_8 | h_9 => exact absurd (h _ List.mem_cons_self) (by decide)
  case h_10 => rfl
  all_goals exact absurd (h _ (List.mem_cons_of_mem _ List.mem_cons_self)) (by decide)

/-- **Decimals** are read back. -/
@[simp] theorem bigIntOfString_toString (n : ℕ) : bigIntOfString (toString n) = some (n : ℤ) := by
  have hdigit : ∀ c ∈ Nat.toDigits 10 n, c.isDigit = true := fun c hc =>
    Nat.isDigit_of_mem_toDigits (by norm_num) (by norm_num) hc
  rw [Nat.toString_eq_ofList_toDigits, bigIntOfString_decimal Nat.toDigits_ne_nil hdigit,
    digits_toDigits (by norm_num) (by norm_num)]
  rfl

theorem toString_injective : Function.Injective (toString : ℕ → String) := by
  intro m n h
  have hm := bigIntOfString_toString m
  rw [h, bigIntOfString_toString, Option.some.injEq, Nat.cast_inj] at hm
  exact hm.symm

theorem isDigit_of_mem_toString {c : Char} {n : ℕ} (h : c ∈ (toString n).toList) :
    c.isDigit = true := by
  rw [Nat.toString_eq_ofList_toDigits, String.toList_ofList] at h
  exact Nat.isDigit_of_mem_toDigits (by norm_num) (by norm_num) h

/-- And so are the digits after a `0x`. -/
theorem bigIntOfString_hex (h : ∀ c ∈ cs, isBlank c = false) :
    bigIntOfString (String.ofList ('0' :: 'x' :: cs)) = (digits 16 cs).map fun n => (n : ℤ) := by
  have htrim : trim (String.ofList ('0' :: 'x' :: cs)).toList = '0' :: 'x' :: cs := by
    rw [String.toList_ofList]
    refine trim_eq_self fun c hc => ?_
    rcases List.mem_cons.mp hc with rfl | hc
    · decide
    · rcases List.mem_cons.mp hc with rfl | hc
      · decide
      · exact h c hc
  rw [bigIntOfString, htrim]
  rfl

/-! ### The number of a text -/

/-- The digits of `cs` in `base`, of which there is one at least, make `n`. -/
def Spells (base : ℕ) (cs : List Char) (n : ℕ) : Prop :=
  ∃ ds : List ℕ, ds ≠ [] ∧ (∀ d ∈ ds, d < base) ∧ cs.map digitValue = ds.map some ∧
    n = Nat.ofDigits base ds.reverse

theorem digitsFrom_eq_some {n m : ℕ} :
    digitsFrom base n cs = some m ↔
      ∃ ds : List ℕ, (∀ d ∈ ds, d < base) ∧ cs.map digitValue = ds.map some ∧
        m = ds.foldl (fun n d => n * base + d) n := by
  induction cs generalizing n with
  | nil =>
      constructor
      · intro h
        obtain rfl := Option.some.inj h
        exact ⟨[], List.forall_mem_nil _, rfl, rfl⟩
      · rintro ⟨ds, -, hds, rfl⟩
        obtain rfl := List.map_eq_nil_iff.mp hds.symm
        rfl
  | cons c cs ih =>
      rw [digitsFrom]
      constructor
      · intro h
        cases hc : digitValue c with
        | none =>
            rw [hc] at h
            cases h
        | some v =>
            simp only [hc] at h
            split at h
            · obtain ⟨ds, hlt, hds, rfl⟩ := ih.mp h
              exact ⟨v :: ds, List.forall_mem_cons.mpr ⟨‹_›, hlt⟩,
                by rw [List.map_cons, hc, hds]; rfl, rfl⟩
            · cases h
      · rintro ⟨ds, hlt, hds, rfl⟩
        cases ds with
        | nil => cases hds
        | cons d ds =>
            obtain ⟨hd, hds⟩ := List.cons.inj hds
            obtain ⟨hdlt, hlt⟩ := List.forall_mem_cons.mp hlt
            simp only [hd, if_pos hdlt]
            exact ih.mpr ⟨ds, hlt, hds, rfl⟩

/-- **The number that is read** is the one that the digits stand for. -/
theorem digits_eq_some {n : ℕ} : digits base cs = some n ↔ Spells base cs n := by
  have hfold : ∀ ds : List ℕ,
      ds.foldl (fun n d => n * base + d) 0 = Nat.ofDigits base ds.reverse := by
    intro ds
    rw [Nat.ofDigits_eq_foldr, List.foldr_reverse]
    simp only [Nat.cast_id, Nat.add_comm, Nat.mul_comm]
  cases cs with
  | nil =>
      refine ⟨fun h => (Option.some_ne_none n h.symm).elim, ?_⟩
      rintro ⟨ds, hne, -, hds, -⟩
      exact absurd (List.map_eq_nil_iff.mp hds.symm) hne
  | cons c cs =>
      rw [digits, digitsFrom_eq_some]
      constructor
      · rintro ⟨ds, hlt, hds, rfl⟩
        refine ⟨ds, ?_, hlt, hds, hfold ds⟩
        rintro rfl
        cases hds
      · rintro ⟨ds, -, hlt, hds, rfl⟩
        exact ⟨ds, hlt, hds, (hfold ds).symm⟩

theorem Spells.unique {m n : ℕ} (hm : Spells base cs m) (hn : Spells base cs n) : m = n :=
  Option.some.inj ((digits_eq_some.mpr hm).symm.trans (digits_eq_some.mpr hn))

theorem Spells.ne_nil {n : ℕ} (h : Spells base cs n) : cs ≠ [] := by
  obtain ⟨ds, hne, -, hds, -⟩ := h
  rintro rfl
  exact hne (List.map_eq_nil_iff.mp hds.symm)

/-- Every character is a digit. -/
theorem Spells.exists_digitValue {n : ℕ} (h : Spells base cs n) {c : Char} (hc : c ∈ cs) :
    ∃ v < base, digitValue c = some v := by
  obtain ⟨ds, -, hlt, hds, -⟩ := h
  have hmem : digitValue c ∈ ds.map some := hds ▸ List.mem_map_of_mem hc
  obtain ⟨v, hv, hcv⟩ := List.mem_map.mp hmem
  exact ⟨v, hlt v hv, hcv.symm⟩

/-- Digits, one at least, stand for a number. -/
theorem exists_spells (hne : cs ≠ []) (h : ∀ c ∈ cs, ∃ v < base, digitValue c = some v) :
    ∃ n, Spells base cs n := by
  have hds : ∃ ds : List ℕ, (∀ d ∈ ds, d < base) ∧ cs.map digitValue = ds.map some := by
    clear hne
    induction cs with
    | nil => exact ⟨[], List.forall_mem_nil _, rfl⟩
    | cons c cs ih =>
        obtain ⟨⟨v, hv, hc⟩, hcs⟩ := List.forall_mem_cons.mp h
        obtain ⟨ds, hlt, hds⟩ := ih hcs
        exact ⟨v :: ds, List.forall_mem_cons.mpr ⟨hv, hlt⟩, by rw [List.map_cons, hc, hds]; rfl⟩
  obtain ⟨ds, hlt, hds⟩ := hds
  refine ⟨_, ds, ?_, hlt, hds, rfl⟩
  rintro rfl
  exact hne (List.map_eq_nil_iff.mp hds)

/-! ### Blanks -/

/-- A text without blanks at its ends, in between blanks. -/
theorem trim_eq_iff {text : List Char} (hne : text ≠ []) (h : ∀ c ∈ text, isBlank c = false) :
    trim cs = text ↔
      ∃ before after, (∀ c ∈ before, isBlank c = true) ∧ (∀ c ∈ after, isBlank c = true) ∧
        cs = before ++ text ++ after := by
  have hdrop : ∀ before cs : List Char, (∀ c ∈ before, isBlank c = true) →
      (before ++ cs).dropWhile isBlank = cs.dropWhile isBlank :=
    fun before cs hbefore => List.dropWhile_append_of_pos hbefore
  have hkeep : ∀ text cs : List Char, text ≠ [] → (∀ c ∈ text, isBlank c = false) →
      (text ++ cs).dropWhile isBlank = text ++ cs := by
    intro text cs hne h
    cases text with
    | nil => exact absurd rfl hne
    | cons t text =>
        exact List.dropWhile_cons_of_neg (by rw [h t List.mem_cons_self]; exact Bool.false_ne_true)
  constructor
  · rintro rfl
    refine ⟨cs.takeWhile isBlank, ((cs.dropWhile isBlank).reverse.takeWhile isBlank).reverse,
      List.all_eq_true.mp List.all_takeWhile,
      fun c hc => List.all_eq_true.mp List.all_takeWhile c (List.mem_reverse.mp hc), ?_⟩
    rw [trim, List.append_assoc, ← List.reverse_append, List.takeWhile_append_dropWhile,
      List.reverse_reverse, List.takeWhile_append_dropWhile]
  · rintro ⟨before, after, hbefore, hafter, rfl⟩
    rw [trim, List.append_assoc, hdrop _ _ hbefore, hkeep _ _ hne h, List.reverse_append,
      hdrop _ _ fun c hc => hafter c (List.mem_reverse.mp hc)]
    have hkept := hkeep text.reverse [] (by rwa [ne_eq, List.reverse_eq_nil_iff])
      fun c hc => h c (List.mem_reverse.mp hc)
    rw [List.append_nil] at hkept
    rw [hkept, List.reverse_reverse]

end BigIntText
