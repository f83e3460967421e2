import Qietr.Library.Doubles
import Qietr.Library.StableSort
import Qietr.Sdk.Prepare

/-!
# SDK — what a note can pay

A payment takes the smallest commitment that covers it.  The program looks at something else, the
tier, and `hasBalance` at something else again, the sum.

* `AtTier`: the commitments whose amount the program takes.
* `picks_at_tier_iff`: for which notes a payment picks such a one, given that there is one.
* `getNoteBalance`, `hasBalance`: `helpers.ts` and `sdk.ts`, on JavaScript's numbers.
* `hasBalance_agrees_iff`: for which notes and amounts it says what a payment can do.
-/

namespace Qietr.Sdk

open Outcome Pool Doubles StableSort

variable {note : Note} {c : NoteCommitment} {s : PoolState} {amountMicroUsdc paymentMicro : ℤ}

/-! ### The commitment that is picked -/

theorem exists_pickCommitment_iff :
    (∃ c, pickCommitment note paymentMicro = some c) ↔
      ∃ c ∈ note.commitments, paymentMicro ≤ c.amount := by
  rw [← Option.isSome_iff_exists, pickCommitment, List.find?_isSome]
  simp only [List.mem_mergeSort, decide_eq_true_eq]

/-- No commitment that covers the payment is smaller, and of those as small none is further up. -/
theorem exists_firstLeast_of_pick (h : pickCommitment note paymentMicro = some c) :
    ∃ i, FirstLeast (fun a b => a.amount ≤ b.amount) (fun c => paymentMicro ≤ c.amount)
      note.commitments i c :=
  exists_firstLeast (fun _ _ _ hab hbc => by simp only [decide_eq_true_eq] at *; omega)
    (fun a b => by simp only [Bool.or_eq_true, decide_eq_true_eq]; omega) h

/-! ### And its tier -/

/-- Its amount is the one that its denomination pays in and out. -/
def AtTier (s : PoolState) (c : NoteCommitment) : Prop :=
  ∃ denomination, s.denomination (UInt8.ofNat c.denomId) = some denomination ∧
    c.amount = denomination.amountMicroUsdc.toNat

/-- This is what the program's check of the first public signal comes to. -/
theorem encode_amount_eq_iff {denomination : Denomination} (h₀ : 0 ≤ c.amount)
    (hr : c.amount < r) :
    encode (c.amount : F) = fieldFromU64 denomination.amountMicroUsdc ↔
      c.amount = denomination.amountMicroUsdc.toNat := by
  have hlt := denomination.amountMicroUsdc.toNat_lt.trans two_pow_64_lt_r
  obtain ⟨n, hn⟩ := Int.eq_ofNat_of_zero_le h₀
  rw [fieldFromU64_eq_encode, encode_inj, hn, Int.cast_natCast, ZMod.natCast_eq_natCast_iff',
    Nat.mod_eq_of_lt (by omega), Nat.mod_eq_of_lt hlt, Nat.cast_inj]

/-- Some commitment at its tier covers the payment, and each covering one that is not at its tier is
larger, or as large and further down the note. -/
def TierFirst (s : PoolState) (note : Note) (paymentMicro : ℤ) : Prop :=
  ∃ (i : ℕ) (c : NoteCommitment), note.commitments[i]? = some c ∧ AtTier s c ∧
    paymentMicro ≤ c.amount ∧ ∀ (j : ℕ) (c' : NoteCommitment),
      note.commitments[j]? = some c' → ¬ AtTier s c' → paymentMicro ≤ c'.amount →
        c.amount < c'.amount ∨ c.amount = c'.amount ∧ i < j

/-- **A payment picks a commitment that the program takes**, where the note has one that covers it,
just when no smaller change does. -/
theorem picks_at_tier_iff
    (hcover : ∃ c ∈ note.commitments, AtTier s c ∧ paymentMicro ≤ c.amount) :
    (∃ c, pickCommitment note paymentMicro = some c ∧ AtTier s c) ↔
      TierFirst s note paymentMicro := by
  refine ⟨?_, ?_⟩
  · rintro ⟨c, hpick, htier⟩
    obtain ⟨i, h⟩ := exists_firstLeast_of_pick hpick
    refine ⟨i, c, h.place, htier, of_decide_eq_true h.passes, fun j c' hj hoff hle => ?_⟩
    obtain ⟨hleast, htie⟩ := h.least j c' hj (decide_eq_true hle)
    simp only [decide_eq_true_eq] at hleast htie
    rcases hleast.lt_or_eq with hlt | heq
    · exact .inl hlt
    · -- of two that are as large the sort keeps the order, and the search takes the first
      have hij : i ≠ j := by
        rintro rfl
        obtain rfl := Option.some.inj (h.place.symm.trans hj)
        exact hoff htier
      exact .inr ⟨heq, lt_of_le_of_ne (htie heq.ge) hij⟩
  · rintro ⟨j, c, hj, htier, hle, hfirst⟩
    obtain ⟨x, hpick⟩ := exists_pickCommitment_iff.mpr ⟨c, List.mem_of_getElem? hj, hle⟩
    refine ⟨x, hpick, ?_⟩
    by_contra hoff
    obtain ⟨i, h⟩ := exists_firstLeast_of_pick hpick
    obtain ⟨hleast, htie⟩ := h.least j c hj (decide_eq_true hle)
    simp only [decide_eq_true_eq] at hleast htie
    rcases hfirst i x h.place hoff (of_decide_eq_true h.passes) with hlt | ⟨heq, hlt⟩
    · omega
    · have := htie heq.le
      omega

theorem atTier_tenNote {P : Poseidon} {log : List (Action (ideal P))} {xs : List F}
    {config : PoolConfig} {denomination : Denomination} {tree : MerkleTree}
    (h : Launched P log s xs config denomination tree) : AtTier s tenNote :=
  ⟨denomination, h.denomination_eq, by rw [h.amount]; rfl⟩

/-- What a payment of four leaves of a commitment of ten, before another of ten. -/
def changeAndTen : Note where
  version := NOTE_VERSION
  commitments := [{ secret := "3", nullifier := "4", amount := 6, denomId := 0 }, tenNote]

/-- A payment of seven passes the change by. -/
theorem picks_at_tier_iff_ten : ∃ (log : List (Action (ideal circom))) (s : PoolState),
    PoolRun (ideal circom) log s ∧
    ∃ c, pickCommitment changeAndTen 7 = some c ∧ AtTier s c := by
  obtain ⟨log, s, config, denomination, tree, hl⟩ := exists_launched circom [] (by decide)
  have htier := atTier_tenNote hl
  refine ⟨log, s, hl.run, (picks_at_tier_iff ⟨tenNote, by decide, htier, by decide⟩).mpr
    ⟨1, tenNote, rfl, htier, by decide, ?_⟩⟩
  intro j c' hj hoff hle
  have hmem := List.mem_of_getElem? hj
  simp only [changeAndTen, List.mem_cons, List.not_mem_nil, or_false] at hmem
  rcases hmem with rfl | rfl
  · exact absurd hle (by decide)
  · exact absurd htier hoff

/-- The change covers a payment of five and is picked for it, though the program wants a ten. -/
theorem picks_change : ∃ (log : List (Action (ideal circom))) (s : PoolState),
    PoolRun (ideal circom) log s ∧
    (∃ c ∈ changeAndTen.commitments, AtTier s c ∧ 5 ≤ c.amount) ∧
    ∃ c, pickCommitment changeAndTen 5 = some c ∧ ¬ AtTier s c := by
  obtain ⟨log, s, config, denomination, tree, hl⟩ := exists_launched circom [] (by decide)
  refine ⟨log, s, hl.run, ⟨tenNote, by decide, atTier_tenNote hl, by decide⟩,
    { secret := "3", nullifier := "4", amount := 6, denomId := 0 }, ?_, ?_⟩
  · -- they are in order as they are, so the search begins with the change
    rw [pickCommitment, List.mergeSort_of_pairwise]
    · rfl
    · decide
  · rintro ⟨denomination', hdenomination, hamount⟩
    obtain rfl := Option.some.inj (hl.denomination_eq.symm.trans hdenomination)
    rw [hl.amount] at hamount
    exact absurd hamount (by decide)

/-! ### The balance -/

/-- The amounts added up, as JavaScript adds numbers. -/
def getNoteBalance : Option Note → ℤ
  | none => 0
  | some note => sum (note.commitments.map NoteCommitment.amount)

def hasEnoughBalance (note : Option Note) (amountMicroUsdc : ℤ) : Bool :=
  double amountMicroUsdc ≤ getNoteBalance note

/-- `amountMicroUsdc` is a number or a `bigint`; a number is its own double. -/
def hasBalance (sdk : QietrSDK) (amountMicroUsdc : ℤ) : Bool :=
  match sdk.note with
  | none => false
  | some note => hasEnoughBalance (some note) amountMicroUsdc

/-- No commitment covers the amount, and together they do. -/
def OnlyTogether (note : Note) (amountMicroUsdc : ℤ) : Prop :=
  (∀ c ∈ note.commitments, c.amount < amountMicroUsdc) ∧
    double amountMicroUsdc ≤ sum (note.commitments.map NoteCommitment.amount)

/-- Some commitment covers the amount, and together they do not. -/
def OnlyAlone (note : Note) (amountMicroUsdc : ℤ) : Prop :=
  (∃ c ∈ note.commitments, amountMicroUsdc ≤ c.amount) ∧
    sum (note.commitments.map NoteCommitment.amount) < double amountMicroUsdc

/-- The second takes a negative amount. -/
theorem not_onlyAlone (h : ∀ c ∈ note.commitments, 0 ≤ c.amount ∧ IsDouble c.amount) :
    ¬ OnlyAlone note amountMicroUsdc := by
  rintro ⟨⟨c, hc, hle⟩, hlt⟩
  have hdouble := double_le (h c hc).2 hle
  have hsum : c.amount ≤ sum (note.commitments.map NoteCommitment.amount) :=
    le_sum_of_mem (List.forall_mem_map.mpr h) (List.mem_map_of_mem hc)
  omega

/-- Where no number is rounded the first is a matter of the largest amount and the total. -/
theorem onlyTogether_iff (h : ∀ c ∈ note.commitments, 0 ≤ c.amount)
    (hsum : (note.commitments.map NoteCommitment.amount).sum ≤ 2 ^ 53) (hpos : 0 < amountMicroUsdc)
    (hsmall : amountMicroUsdc ≤ 2 ^ 53) :
    OnlyTogether note amountMicroUsdc ↔ (∀ c ∈ note.commitments, c.amount < amountMicroUsdc) ∧
      amountMicroUsdc ≤ (note.commitments.map NoteCommitment.amount).sum := by
  rw [OnlyTogether, sum_eq (List.forall_mem_map.mpr h) hsum,
    double_of_isDouble (isDouble_of_le (by rwa [abs_of_pos hpos]))]

/-- **`hasBalance` and a payment agree** on all amounts but those that the commitments cover only
together, or only alone.  Amounts that are not negative always cover together what one of them
does; and up to `2 ^ 53` nothing is rounded. -/
theorem hasBalance_agrees_iff {sdk : QietrSDK} (hnote : sdk.note = some note)
    (hpos : 0 < amountMicroUsdc) :
    ((hasBalance sdk amountMicroUsdc = true ↔ ∃ c, pickCommitment note amountMicroUsdc = some c) ↔
      ¬ OnlyTogether note amountMicroUsdc ∧ ¬ OnlyAlone note amountMicroUsdc) ∧
    ((∀ c ∈ note.commitments, 0 ≤ c.amount ∧ IsDouble c.amount) →
      ¬ OnlyAlone note amountMicroUsdc) ∧
    ((∀ c ∈ note.commitments, 0 ≤ c.amount) →
      (note.commitments.map NoteCommitment.amount).sum ≤ 2 ^ 53 → amountMicroUsdc ≤ 2 ^ 53 →
      (OnlyTogether note amountMicroUsdc ↔ (∀ c ∈ note.commitments, c.amount < amountMicroUsdc) ∧
        amountMicroUsdc ≤ (note.commitments.map NoteCommitment.amount).sum)) := by
  refine ⟨?_, not_onlyAlone, fun h hsum hsmall => onlyTogether_iff h hsum hpos hsmall⟩
  have hbalance : hasBalance sdk amountMicroUsdc = true ↔
      double amountMicroUsdc ≤ sum (note.commitments.map NoteCommitment.amount) := by
    rw [hasBalance, hnote]
    exact decide_eq_true_iff
  have hcovered : (∀ c ∈ note.commitments, c.amount < amountMicroUsdc) ↔
      ¬ ∃ c ∈ note.commitments, amountMicroUsdc ≤ c.amount := by
    simp only [not_exists, not_and, not_le]
  rw [hbalance, exists_pickCommitment_iff, OnlyTogether, OnlyAlone, hcovered, ← not_le]
  -- with a commitment that covers the amount only the sum can fail, without one only succeed
  by_cases h : ∃ c ∈ note.commitments, amountMicroUsdc ≤ c.amount
  · simp only [h, true_and, iff_true, not_true, false_and, not_false_eq_true, not_not]
  · simp only [h, false_and, iff_false, not_false_eq_true, true_and, and_true]

/-- An SDK with this note. -/
def holding (note : Note) : QietrSDK where
  note := some note
  lastUpdatedNote := none
  lastDepositSignature := none

/-- The change and the ten are a balance for seven, of which the ten alone can pay it. -/
theorem hasBalance_agrees_iff_ten :
    (hasBalance (holding changeAndTen) 7 = true ↔ ∃ c, pickCommitment changeAndTen 7 = some c) := by
  have hnote : (holding changeAndTen).note = some changeAndTen := rfl
  refine (hasBalance_agrees_iff hnote (by decide)).1.mpr ⟨?_, ?_⟩
  · rintro ⟨hall, -⟩
    exact absurd (hall tenNote (by decide)) (by decide)
  · rintro ⟨-, hlt⟩
    exact absurd hlt (by decide)

def twoTens : Note where
  version := NOTE_VERSION
  commitments := [tenNote, { secret := "3", nullifier := "4", amount := 10, denomId := 0 }]

/-- Two tens are a balance of twenty, of which fifteen cannot be paid. -/
theorem balance_not_payable : hasBalance (holding twoTens) 15 = true ∧
    ¬ ∃ c, pickCommitment twoTens 15 = some c := by
  refine ⟨by decide, fun h => ?_⟩
  obtain ⟨c, hc, hle⟩ := exists_pickCommitment_iff.mp h
  simp only [twoTens, List.mem_cons, List.not_mem_nil, or_false] at hc
  rcases hc with rfl | rfl
  · exact absurd hle (by decide)
  · exact absurd hle (by decide)

end Qietr.Sdk
