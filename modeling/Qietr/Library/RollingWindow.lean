import Mathlib.Tactic

/-!
# Library — rolling windows

Times in the order they were recorded, and how many of them fall into a window.

* `after cut l`: the times later than `cut`; `dropWhile_eq_after`: what trimming the front leaves.
* `inWindow start width l`: the times in a half-open window.
* `inWindow_length_le`: a bound on the window that ends at each time is one on every window.
* `Capped`: such a bound, as a property of the times; `Capped.snoc`: one more where there is room.
-/

namespace RollingWindow

variable {l : List ℤ} {cut cut' start width : ℤ}

/-- The times later than `cut`. -/
def after (cut : ℤ) (l : List ℤ) : List ℤ :=
  l.filter fun t => cut < t

/-- The times from `start` on and before `start + width`. -/
def inWindow (start width : ℤ) (l : List ℤ) : List ℤ :=
  l.filter fun t => start ≤ t ∧ t < start + width

theorem after_append (cut : ℤ) (l l' : List ℤ) : after cut (l ++ l') = after cut l ++
    after cut l' :=
  List.filter_append ..

/-- Trimming the front of a list in order is a filter. -/
theorem dropWhile_eq_after (h : l.Pairwise (· ≤ ·)) :
    l.dropWhile (fun t => t ≤ cut) = after cut l := by
  induction l with
  | nil => rfl
  | cons t l ih =>
      obtain ⟨hle, hl⟩ := List.pairwise_cons.mp h
      by_cases ht : t ≤ cut
      · rw [List.dropWhile_cons_of_pos (by simpa using ht), ih hl, after, after,
          List.filter_cons_of_neg (by simpa using ht)]
      · rw [List.dropWhile_cons_of_neg (by simpa using ht), after, List.filter_eq_self.mpr]
        intro u hu
        rcases List.mem_cons.mp hu with rfl | hu
        · exact decide_eq_true (lt_of_not_ge ht)
        · exact decide_eq_true ((lt_of_not_ge ht).trans_le (hle u hu))

/-- What is trimmed is no later than the cut. -/
theorem exists_trimmed (h : l.Pairwise (· ≤ ·)) (cut : ℤ) :
    ∃ out, (∀ t ∈ out, t ≤ cut) ∧ l = out ++ after cut l := by
  refine ⟨l.takeWhile fun t => t ≤ cut, fun t ht => ?_, ?_⟩
  · exact of_decide_eq_true (List.all_eq_true.mp List.all_takeWhile t ht)
  · rw [← dropWhile_eq_after h, List.takeWhile_append_dropWhile]

theorem after_eq_nil (h : ∀ t ∈ l, t ≤ cut) : after cut l = [] :=
  List.filter_eq_nil_iff.mpr fun t ht => by simpa using h t ht

/-- A later cut leaves less. -/
theorem after_length_le (h : cut ≤ cut') : (after cut' l).length ≤ (after cut l).length := by
  refine (List.monotone_filter_right _ fun t ht => ?_).length_le
  exact decide_eq_true (h.trans_lt (of_decide_eq_true ht))

/-- The window that ends with the latest time. -/
theorem inWindow_eq_after {now : ℤ} (h : ∀ t ∈ l, t ≤ now) :
    inWindow (now - width + 1) width l = after (now - width) l := by
  refine List.filter_congr fun t ht => ?_
  have hle := h t ht
  simp only [decide_eq_decide]
  omega

/-- **From the windows that end at a time to every window.** -/
theorem inWindow_length_le {n : ℕ} (hl : l.Pairwise (· ≤ ·))
    (hcap : ∀ before t rest, l = before ++ t :: rest →
      (after (t - width) (before ++ [t])).length ≤ n) (start : ℤ) :
    (inWindow start width l).length ≤ n := by
  induction l using List.reverseRecOn with
  | nil => exact Nat.zero_le _
  | append_singleton l t ih =>
      obtain ⟨hl', -, hle⟩ := List.pairwise_append.mp hl
      by_cases ht : start ≤ t ∧ t < start + width
      · refine le_trans ?_ (hcap l t [] rfl)
        -- a window that `t` is in starts after the one that ends at `t`
        refine (List.monotone_filter_right _ fun u hu => ?_).length_le
        have hu' := of_decide_eq_true hu
        exact decide_eq_true (by omega)
      · have hnone : [t].filter (fun t => decide (start ≤ t ∧ t < start + width)) = [] :=
          List.filter_cons_of_neg (by simpa using ht)
        rw [inWindow, List.filter_append, hnone, List.append_nil]
        refine ih hl' fun before u rest e => hcap before u (rest ++ [t]) ?_
        rw [e, List.append_assoc, List.cons_append]

/-! ### A cap -/

/-- The window that ends at each time has `n` times at most. -/
def Capped (width : ℤ) (n : ℕ) (l : List ℤ) : Prop :=
  ∀ before t rest, l = before ++ t :: rest → (after (t - width) (before ++ [t])).length ≤ n

theorem Capped.nil (width : ℤ) (n : ℕ) : Capped width n [] :=
  fun _ _ _ h => absurd h (by simp)

/-- One more, where its window has room. -/
theorem Capped.snoc {n : ℕ} {now : ℤ} (h : Capped width n l)
    (hroom : (after (now - width) l).length < n) : Capped width n (l ++ [now]) := by
  intro before t rest hl
  rcases List.eq_nil_or_concat rest with rfl | ⟨rest, u, rfl⟩
  · obtain ⟨rfl, hlast⟩ := List.append_inj' hl rfl
    cases hlast
    rw [after_append, List.length_append]
    have hone : (after (now - width) [now]).length ≤ 1 := List.length_filter_le ..
    omega
  · rw [List.concat_eq_append, ← List.cons_append, ← List.append_assoc] at hl
    exact h before t rest (List.append_inj' hl rfl).1

/-- The window that ends now. -/
theorem Capped.after_length_le {n : ℕ} {now : ℤ} (h : Capped width n l)
    (hl : l.Pairwise (· ≤ ·)) (hnow : ∀ t ∈ l, t ≤ now) : (after (now - width) l).length ≤ n := by
  rw [← inWindow_eq_after hnow]
  exact inWindow_length_le hl h _

end RollingWindow
