import Mathlib.Data.List.GetD
import Mathlib.Tactic

/-!
# Library — a ring of recent values

`N` slots written in turn behind a cursor that is advanced before each write.  The slots start
with a filler `z`, so that the ring holds the last `N` values of `z, …, z` followed by what was
pushed.

* `Holds z xs slots cursor`: the ring after the pushes `xs`, oldest slot first after the cursor.
* `Holds.push`: one push.
* `Holds.mem_iff`: what is not the filler is in the ring exactly when it is among the last `N`
  pushes.
-/

namespace RingBuffer

variable {α : Type*} {N : ℕ}

/-- Where the next push goes. -/
def advance (N cursor : ℕ) : ℕ :=
  (cursor + 1) % N

/-- The `k`-th oldest of the last `N` values, of `N` fillers and then the pushes `xs`. -/
def recent (N : ℕ) (z : α) (xs : List α) (k : ℕ) : α :=
  (List.replicate N z ++ xs).getD (xs.length + k) z

/-- The ring after the pushes `xs`. -/
def Holds (z : α) (xs : List α) (slots : Fin N → α) (cursor : ℕ) : Prop :=
  cursor < N ∧ ∀ k < N, ∀ i : Fin N, i.val = (cursor + 1 + k) % N → slots i = recent N z xs k

theorem recent_nil {z : α} {k : ℕ} (hk : k < N) : recent N z [] k = z := by
  simp [recent, hk]

/-- The newest value. -/
theorem recent_snoc_last {z : α} {xs : List α} {x : α} (hN : 0 < N) :
    recent N z (xs ++ [x]) (N - 1) = x := by
  have hi : (xs ++ [x]).length + (N - 1) = (List.replicate N z ++ xs).length := by
    simp only [List.length_append, List.length_singleton, List.length_replicate]
    omega
  rw [recent, hi, ← List.append_assoc]
  simp

/-- Every other value is one place older. -/
theorem recent_snoc {z : α} {xs : List α} {x : α} {k : ℕ} (hk : k + 1 < N) :
    recent N z (xs ++ [x]) k = recent N z xs (k + 1) := by
  have hi : (xs ++ [x]).length + k = xs.length + (k + 1) := by
    rw [List.length_append, List.length_singleton]; omega
  have hlt : xs.length + (k + 1) < (List.replicate N z ++ xs).length := by
    rw [List.length_append, List.length_replicate]; omega
  rw [recent, recent, hi, ← List.append_assoc, List.getD_append _ _ _ _ hlt]

/-- The ring as it is allocated. -/
theorem Holds.initial {z : α} {slots : Fin N → α} (hN : 0 < N) (hz : ∀ i, slots i = z) :
    Holds z [] slots 0 :=
  ⟨hN, fun _ hk i _ => (hz i).trans (recent_nil hk).symm⟩

/-- **A push** writes the slot after the cursor and moves there. -/
theorem Holds.push {z : α} {xs : List α} {slots slots' : Fin N → α} {cursor : ℕ} {x : α}
    (hs : Holds z xs slots cursor)
    (hself : ∀ i : Fin N, i.val = advance N cursor → slots' i = x)
    (hother : ∀ i : Fin N, i.val ≠ advance N cursor → slots' i = slots i) :
    Holds z (xs ++ [x]) slots' (advance N cursor) := by
  obtain ⟨hc, hslots⟩ := hs
  have hN : 0 < N := by omega
  refine ⟨Nat.mod_lt _ hN, fun k hk i hi => ?_⟩
  have hpos : (advance N cursor + 1 + k) % N = (cursor + 1 + (k + 1)) % N := by
    rw [advance, Nat.add_assoc, Nat.mod_add_mod]
    congr 1
    omega
  rw [hpos] at hi
  by_cases hlast : k + 1 = N
  · -- the slot under the cursor, once around
    have hi' : i.val = advance N cursor := by rw [hi, hlast, Nat.add_mod_right, advance]
    rw [hself i hi']
    have hk' : k = N - 1 := by omega
    rw [hk', recent_snoc_last hN]
  · have hlt : k + 1 < N := by omega
    have hi' : i.val ≠ advance N cursor := by
      rw [hi, advance]
      intro heq
      have hmod : cursor + 1 + (k + 1) ≡ cursor + 1 + 0 [MOD N] := heq
      have := Nat.ModEq.add_left_cancel' _ hmod
      rw [Nat.ModEq, Nat.mod_eq_of_lt hlt, Nat.zero_mod] at this
      omega
    rw [hother i hi', recent_snoc hlt]
    exact hslots (k + 1) hlt i hi

/-- Every slot holds one of the last `N` values, and each of them is held. -/
theorem Holds.exists_iff {z : α} {xs : List α} {slots : Fin N → α} {cursor : ℕ}
    (hs : Holds z xs slots cursor) (r : α) :
    (∃ i, slots i = r) ↔ ∃ k < N, recent N z xs k = r := by
  obtain ⟨hc, hslots⟩ := hs
  have hN : 0 < N := by omega
  refine ⟨?_, ?_⟩
  · rintro ⟨i, hi⟩
    -- the age of the slot `i`
    refine ⟨(i.val + (N - (cursor + 1))) % N, Nat.mod_lt _ hN, ?_⟩
    rw [← hslots _ (Nat.mod_lt _ hN) i ?_, hi]
    rw [Nat.add_mod_mod]
    have : cursor + 1 + (i.val + (N - (cursor + 1))) = i.val + N := by omega
    rw [this, Nat.add_mod_right, Nat.mod_eq_of_lt i.isLt]
  · rintro ⟨k, hk, hr⟩
    exact ⟨⟨(cursor + 1 + k) % N, Nat.mod_lt _ hN⟩, (hslots k hk _ rfl).trans hr⟩

/-- The last `N` values are fillers and the last `N` pushes. -/
theorem exists_recent_iff {z : α} {xs : List α} {r : α} (hr : r ≠ z) :
    (∃ k < N, recent N z xs k = r) ↔ r ∈ xs.drop (xs.length - N) := by
  rw [List.mem_iff_getElem]
  refine ⟨?_, ?_⟩
  · rintro ⟨k, hk, rfl⟩
    have hN : N ≤ xs.length + k := by
      by_contra hlt
      refine hr ?_
      rw [recent, List.getD_append _ _ _ _ (by rw [List.length_replicate]; omega)]
      simp
    refine ⟨xs.length + k - N - (xs.length - N), ?_, ?_⟩
    · rw [List.length_drop]; omega
    · rw [recent, List.getD_append_right _ _ _ _ (by rwa [List.length_replicate]),
        List.length_replicate, List.getElem_drop, List.getD_eq_getElem _ _ (by omega)]
      congr 1
      omega
  · rintro ⟨k, hk, rfl⟩
    rw [List.length_drop] at hk
    refine ⟨k + (xs.length - N) + N - xs.length, by omega, ?_⟩
    rw [recent, List.getD_append_right _ _ _ _ (by rw [List.length_replicate]; omega),
      List.length_replicate, List.getElem_drop, List.getD_eq_getElem _ _ (by omega)]
    congr 1
    omega

/-- **The window.**  A value that is not the filler is in the ring exactly when it is among the
last `N` pushes. -/
theorem Holds.mem_iff {z : α} {xs : List α} {slots : Fin N → α} {cursor : ℕ}
    (hs : Holds z xs slots cursor) {r : α} (hr : r ≠ z) :
    (∃ i, slots i = r) ↔ r ∈ xs.drop (xs.length - N) :=
  (hs.exists_iff r).trans (exists_recent_iff hr)

end RingBuffer
