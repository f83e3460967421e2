import Mathlib.Data.List.Basic

/-!
# Library — what a stable sort puts first

* `FirstLeast`: a place of a list whose value is least among those a test passes, and the first
  such.
* `exists_firstLeast`: the first value that passes, once the list is sorted, comes from such a
  place.
-/

namespace StableSort

variable {α : Type*} {le : α → α → Bool} {q : α → Bool} {l : List α} {a : α}

/-- The value `a` at the place `i` passes; any other that does is no less, and if no greater then
further on. -/
structure FirstLeast (le : α → α → Bool) (q : α → Bool) (l : List α) (i : ℕ) (a : α) : Prop where
  place : l[i]? = some a
  passes : q a
  least : ∀ j b, l[j]? = some b → q b → le a b ∧ (le b a → i ≤ j)

/-- In a sorted list, what a search finds first is below all that it could have found. -/
theorem le_of_find? {l : List α} (hl : l.Pairwise fun a b => le a b) (hrefl : ∀ a, le a a)
    (h : l.find? q = some a) {b : α} (hb : b ∈ l) (hq : q b) : le a b := by
  obtain ⟨-, before, after, rfl, hbefore⟩ := List.find?_eq_some_iff_append.mp h
  rcases List.mem_append.mp hb with hb | hb
  · exact absurd hq (by simpa using hbefore b hb)
  · rcases List.mem_cons.mp hb with rfl | hb
    · exact hrefl b
    · exact (List.pairwise_cons.mp (List.pairwise_append.mp hl).2.1).1 b hb

theorem zipIdxLE_iff {a b : α} {i j : ℕ} :
    List.zipIdxLE le (a, i) (b, j) = true ↔ le a b = true ∧ (le b a = true → i ≤ j) := by
  cases h : le a b <;> cases h' : le b a <;> simp [List.zipIdxLE, h, h']

/-- **The first that passes**, of a sorted list. -/
theorem exists_firstLeast (htrans : ∀ a b c, le a b → le b c → le a c)
    (htotal : ∀ a b, le a b || le b a) (h : (l.mergeSort le).find? q = some a) :
    ∃ i, FirstLeast le q l i a := by
  rw [← List.mergeSort_zipIdx, List.find?_map, Option.map_eq_some_iff] at h
  obtain ⟨⟨a, i⟩, hfind, rfl⟩ := h
  have hsorted := List.pairwise_mergeSort (List.zipIdxLE_trans htrans)
    (List.zipIdxLE_total htotal) l.zipIdx
  have hrefl : ∀ x : α × ℕ, List.zipIdxLE le x x := fun ⟨b, j⟩ => by
    have hb : le b b = true := by simpa using htotal b b
    exact zipIdxLE_iff.mpr ⟨hb, fun _ => Nat.le_refl j⟩
  have hmem : ∀ {j b}, l[j]? = some b → (b, j) ∈ (l.zipIdx).mergeSort (List.zipIdxLE le) :=
    fun hj => List.mem_mergeSort.mpr (List.mk_mem_zipIdx_iff_getElem?.mpr hj)
  refine ⟨i, ?_, ?_, fun j b hj hb => ?_⟩
  · exact List.mk_mem_zipIdx_iff_getElem?.mp
      (List.mem_mergeSort.mp (List.mem_of_find?_eq_some hfind))
  · have hq := List.find?_some hfind
    exact hq
  · exact zipIdxLE_iff.mp (le_of_find? hsorted hrefl hfind (hmem hj) hb)

end StableSort
