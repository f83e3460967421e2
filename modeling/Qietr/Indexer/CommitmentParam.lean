import Qietr.Indexer.ProofRoute

/-!
# Indexer — commitments as texts

What `parseCommitmentParam` accepts, and the bytes that it gives.

* `Denotes`, `Written`: the texts of a number, without and with blanks around them.
* `matchesCommitment_iff`: the pattern is that of the texts of a number.
* `parseCommitmentParam_ok`: a number below the modulus, as its 32 bytes; `beToBigInt_beBytes`: they
  are read back.
* `commitment_param`: the parser as a whole.
-/

namespace Qietr.Indexer

open Outcome BigIntText NumberText

/-- A text of a number: decimal digits, or hexadecimal ones after `0x`. -/
inductive Denotes : List Char → ℕ → Prop where
  | hex {x : Char} {cs : List Char} {n : ℕ} (hx : x = 'x' ∨ x = 'X') (h : Spells 16 cs n) :
      Denotes ('0' :: x :: cs) n
  | decimal {cs : List Char} {n : ℕ} (h : Spells 10 cs n) : Denotes cs n

/-- `s` is a text of `n` with blanks around it. -/
def Written (s : String) (n : ℕ) : Prop :=
  ∃ before text after, (∀ c ∈ before, isBlank c = true) ∧ (∀ c ∈ after, isBlank c = true) ∧
    s.toList = before ++ text ++ after ∧ Denotes text n

variable {cs : List Char} {s : String} {b : List UInt8} {m n : ℕ}

/-! ### The texts of a number -/

theorem Denotes.ne_nil (h : Denotes cs n) : cs ≠ [] := by
  cases h with
  | hex hx h => exact List.cons_ne_nil _ _
  | decimal h => exact h.ne_nil

theorem isBlank_of_spells {base : ℕ} (h : Spells base cs n) {c : Char} (hc : c ∈ cs) :
    isBlank c = false := by
  obtain ⟨v, -, hv⟩ := h.exists_digitValue hc
  exact isBlank_of_digitValue hv

theorem Denotes.isBlank (h : Denotes cs n) {c : Char} (hc : c ∈ cs) : isBlank c = false := by
  cases h with
  | decimal h => exact isBlank_of_spells h hc
  | hex hx h =>
      rcases List.mem_cons.mp hc with rfl | hc
      · decide
      · rcases List.mem_cons.mp hc with rfl | hc
        · rcases hx with rfl | rfl
          · decide
          · decide
        · exact isBlank_of_spells h hc

/-- The digits of a decimal. -/
theorem isDigit_of_spells (h : Spells 10 cs n) {c : Char} (hc : c ∈ cs) : c.isDigit = true :=
  isDigit_iff.mpr (h.exists_digitValue hc)

/-- **The number is read.** -/
theorem Denotes.bigIntOfString (h : Denotes cs n) :
    bigIntOfString (String.ofList cs) = some (n : ℤ) := by
  have htrim : trim cs = cs := trim_eq_self fun c hc => h.isBlank hc
  cases h with
  | @hex x cs n hx h =>
      rw [BigIntText.bigIntOfString, String.toList_ofList, htrim]
      have hread : ((digits 16 cs).map fun n => (n : ℤ)) = some (n : ℤ) := by
        rw [digits_eq_some.mpr h]
        rfl
      rcases hx with rfl | rfl
      · exact hread
      · exact hread
  | decimal h =>
      rw [bigIntOfString_decimal h.ne_nil fun c hc => isDigit_of_spells h hc,
        digits_eq_some.mpr h]
      rfl

theorem Denotes.unique (hm : Denotes cs m) (hn : Denotes cs n) : m = n := by
  have h := hm.bigIntOfString
  rw [hn.bigIntOfString, Option.some.injEq, Nat.cast_inj] at h
  exact h.symm

/-- **The pattern** is that of the texts of a number. -/
theorem matchesCommitment_iff : matchesCommitment cs = true ↔ ∃ n, Denotes cs n := by
  have hhex : ∀ cs : List Char, (cs ≠ [] && cs.all fun c => (digitValue c).any (· < 16)) = true ↔
      ∃ n, Spells 16 cs n := by
    intro cs
    rw [Bool.and_eq_true, decide_eq_true_iff, List.all_eq_true]
    constructor
    · rintro ⟨hne, h⟩
      refine exists_spells hne fun c hc => ?_
      obtain ⟨v, hv, hlt⟩ := (Option.any_eq_true _ _).mp (h c hc)
      exact ⟨v, of_decide_eq_true hlt, hv⟩
    · rintro ⟨n, h⟩
      refine ⟨h.ne_nil, fun c hc => ?_⟩
      obtain ⟨v, hlt, hv⟩ := h.exists_digitValue hc
      exact (Option.any_eq_true _ _).mpr ⟨v, hv, decide_eq_true hlt⟩
  have hletter : ∀ {x : Char} {cs : List Char} {n : ℕ}, x = 'x' ∨ x = 'X' →
      Denotes ('0' :: x :: cs) n → Spells 16 cs n := by
    intro x cs n hx h
    cases h with
    | hex _ h => exact h
    | decimal h =>
        have hdigit := isDigit_of_spells h (List.mem_cons_of_mem _ List.mem_cons_self)
        rcases hx with rfl | rfl
        · exact absurd hdigit (by decide)
        · exact absurd hdigit (by decide)
  rw [matchesCommitment.eq_def]
  split
  · rename_i cs
    exact (hhex cs).trans ⟨fun ⟨n, h⟩ => ⟨n, .hex (.inl rfl) h⟩, fun ⟨n, h⟩ =>
      ⟨n, hletter (.inl rfl) h⟩⟩
  · rename_i cs
    exact (hhex cs).trans ⟨fun ⟨n, h⟩ => ⟨n, .hex (.inr rfl) h⟩, fun ⟨n, h⟩ =>
      ⟨n, hletter (.inr rfl) h⟩⟩
  · rename_i cs hx hX
    rw [Bool.and_eq_true, decide_eq_true_iff, List.all_eq_true]
    constructor
    · rintro ⟨hne, h⟩
      obtain ⟨n, hn⟩ := exists_spells hne fun c hc => isDigit_iff.mp (h c hc)
      exact ⟨n, .decimal hn⟩
    · rintro ⟨n, h⟩
      cases h with
      | decimal h => exact ⟨h.ne_nil, fun c hc => isDigit_of_spells h hc⟩
      | hex hletter h =>
          rcases hletter with rfl | rfl
          · exact absurd rfl (hx _)
          · exact absurd rfl (hX _)

/-- The text without the blanks around it. -/
theorem written_iff : Written s n ↔ Denotes (trim s.toList) n := by
  constructor
  · rintro ⟨before, text, after, hbefore, hafter, hs, h⟩
    have htrim := (trim_eq_iff h.ne_nil fun c hc => h.isBlank hc).mpr
      ⟨before, after, hbefore, hafter, hs⟩
    rwa [htrim]
  · intro h
    obtain ⟨before, after, hbefore, hafter, hs⟩ :=
      (trim_eq_iff h.ne_nil fun c hc => h.isBlank hc).mp rfl
    exact ⟨before, _, after, hbefore, hafter, hs, h⟩

/-! ### The bytes of it -/

theorem beToBigInt_beBytes (hn : n < 256 ^ 32) : beToBigInt (beBytes 32 n) = n := by
  rw [beToBigInt, foldl_shiftLeft_or, beNat_beBytes, Nat.mod_eq_of_lt hn]

/-- **What is accepted**, and what is made of it. -/
theorem parseCommitmentParam_ok :
    parseCommitmentParam s = .ok b ↔ ∃ n, Written s n ∧ n < r ∧ b = beBytes 32 n := by
  have hbuffer : ∀ n < r, bufferOfHex (padStart 64 '0' (toRadix 16 n)) = beBytes 32 n := by
    intro n hn
    rw [padStart_toRadix (by norm_num) (hn.trans r_lt), bufferOfHex_hexOf]
  simp only [written_iff, parseCommitmentParam, require_bind_eq_ok, okOr_bind_eq_ok]
  constructor
  · rintro ⟨hmatch, v, hv, -, hlt, -, h⟩
    obtain ⟨n, hn⟩ := matchesCommitment_iff.mp hmatch
    rw [hn.bigIntOfString] at hv
    obtain rfl := Option.some.inj hv
    have hlt : n < r := Nat.cast_lt.mp hlt
    rw [hbuffer n hlt] at h
    exact ⟨n, hn, hlt, (Except.ok.inj h).symm⟩
  · rintro ⟨n, hn, hlt, hb⟩
    exact ⟨matchesCommitment_iff.mpr ⟨n, hn⟩, n, hn.bigIntOfString, Int.natCast_nonneg n,
      Nat.cast_lt.mpr hlt, toRadix_length_le (by norm_num) (hlt.trans r_lt),
      congrArg Except.ok ((hbuffer n hlt).trans hb.symm)⟩

/-- A text without blanks. -/
theorem Denotes.written (h : Denotes cs n) : Written (String.ofList cs) n :=
  ⟨[], cs, [], List.forall_mem_nil _, List.forall_mem_nil _,
    by rw [String.toList_ofList, List.nil_append, List.append_nil], h⟩

theorem Written.unique (hm : Written s m) (hn : Written s n) : m = n :=
  (written_iff.mp hm).unique (written_iff.mp hn)

/-- A number that is written in decimal. -/
theorem written_toString (n : ℕ) : Written (toString n) n := by
  rw [Nat.toString_eq_ofList_toDigits]
  exact (Denotes.decimal (digits_eq_some.mp
    (digits_toDigits (by norm_num) (by norm_num) n))).written

/-- And one that is written as 32 bytes. -/
theorem written_hexBE32 (hn : n < 256 ^ 32) :
    ∃ text, bigIntToHexBE32 n = .ok text ∧ Written text n := by
  have hn' : n < 16 ^ 64 := by rwa [pow_256] at hn
  have hhex : padStart 64 '0' (toRadix 16 n) = fixed 64 n :=
    (padStart_toRadix (by norm_num) hn).trans (fixed_eq_hexOf 32 n).symm
  refine ⟨_, require_bind_eq_ok.mpr ⟨toRadix_length_le (by norm_num) hn, rfl⟩, ?_⟩
  rw [hhex]
  exact (Denotes.hex (.inl rfl) (digits_eq_some.mp (digits_fixed (by norm_num) hn'))).written

/-- **The parser** accepts the texts of the field elements, and gives the 32 bytes of the number:
those of what is written, the same for two texts of one number only, and read back as the number. -/
theorem commitment_param :
    (∀ s b, parseCommitmentParam s = .ok b ↔ ∃ n, Written s n ∧ n < r ∧ b = beBytes 32 n) ∧
    (∀ n < r, (∃ text, bigIntToHexBE32 n = .ok text ∧
        parseCommitmentParam text = .ok (beBytes 32 n)) ∧
      parseCommitmentParam (toString n) = .ok (beBytes 32 n)) ∧
    (∀ s s' b, parseCommitmentParam s = .ok b → parseCommitmentParam s' = .ok b →
      ∀ n, Written s n ↔ Written s' n) ∧
    (∀ s b, parseCommitmentParam s = .ok b → ∀ n, Written s n ↔ n = beToBigInt b) := by
  have hread : ∀ s b, parseCommitmentParam s = .ok b → ∀ n, Written s n ↔ n = beToBigInt b := by
    intro s b h n
    obtain ⟨m, hm, hlt, hb⟩ := parseCommitmentParam_ok.mp h
    rw [hb, beToBigInt_beBytes (hlt.trans r_lt)]
    constructor
    · intro hn
      exact hn.unique hm
    · rintro rfl
      exact hm
  refine ⟨fun s b => parseCommitmentParam_ok, ?_, ?_, hread⟩
  · intro n hn
    obtain ⟨text, htext, hwritten⟩ := written_hexBE32 (hn.trans r_lt)
    exact ⟨⟨text, htext, parseCommitmentParam_ok.mpr ⟨n, hwritten, hn, rfl⟩⟩,
      parseCommitmentParam_ok.mpr ⟨n, written_toString n, hn, rfl⟩⟩
  · intro s s' b h h' n
    rw [hread s b h n, hread s' b h' n]

end Qietr.Indexer
