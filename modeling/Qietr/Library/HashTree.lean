import Mathlib.Tactic

/-!
# Library — binary hash trees

A perfect binary tree over a two-input hash `h`, its leaves a function of their index, and the
frontier that appends a leaf with one hash a level.

* `node h f d j`: the `j`-th subtree of height `d` over the leaves `f`.
* `empty h z d`: the subtree of height `d` all of whose leaves are `z`.
* `root h z d ls`: the tree of height `d` over the list `ls`, padded with `z`.
* `Live h f n filled`: what a frontier holds after `n` leaves: at a level where `n` has a one, the
  complete subtree to the left of the next leaf.  The other slots are stale, and nothing is said
  of them.
* `climb_even`, `climb_odd`: one level of an append; `Live.next`: the frontier it leaves behind.
-/

namespace HashTree

variable {α β : Type*} (h : α → α → α)

/-! ### Subtrees -/

/-- The `j`-th subtree of height `d` over the leaves `f`. -/
def node (f : ℕ → α) : ℕ → ℕ → α
  | 0, j => f j
  | d + 1, j => h (node f d (2 * j)) (node f d (2 * j + 1))

/-- The subtree of height `d` over the leaf `z` everywhere. -/
def empty (z : α) : ℕ → α
  | 0 => z
  | d + 1 => h (empty z d) (empty z d)

/-- The list `ls` as leaves, `z` past its end. -/
def leavesOf (z : α) (ls : List α) (i : ℕ) : α :=
  ls.getD i z

/-- The root of the tree of height `d` whose first leaves are `ls` and whose others are `z`. -/
def root (z : α) (d : ℕ) (ls : List α) : α :=
  node h (leavesOf z ls) d 0

@[simp] theorem node_zero (f : ℕ → α) (j : ℕ) : node h f 0 j = f j := rfl

theorem node_succ (f : ℕ → α) (d j : ℕ) :
    node h f (d + 1) j = h (node h f d (2 * j)) (node h f d (2 * j + 1)) := rfl

@[simp] theorem empty_zero (z : α) : empty h z 0 = z := rfl

theorem empty_succ (z : α) (d : ℕ) : empty h z (d + 1) = h (empty h z d) (empty h z d) := rfl

/-- A subtree only depends on the leaves under it. -/
theorem node_congr {f g : ℕ → α} {d j : ℕ} (hfg : ∀ i, i / 2 ^ d = j → f i = g i) :
    node h f d j = node h g d j := by
  induction d generalizing j with
  | zero => exact hfg j (by simp)
  | succ d ih =>
      rw [node_succ, node_succ]
      have child : ∀ i, i / 2 ^ d / 2 = j → f i = g i := by
        intro i hi
        refine hfg i ?_
        rw [pow_succ, ← Nat.div_div_eq_div_mul, hi]
      rw [ih fun i hi => child i (by rw [hi]; omega), ih fun i hi => child i (by rw [hi]; omega)]

/-- A subtree with nothing but `z` under it is the empty one. -/
theorem node_eq_empty {f : ℕ → α} {z : α} {d j : ℕ} (hf : ∀ i, i / 2 ^ d = j → f i = z) :
    node h f d j = empty h z d := by
  have hc : ∀ d j, node h (fun _ => z) d j = empty h z d := by
    intro d
    induction d with
    | zero => intro j; rfl
    | succ d ih => intro j; rw [node_succ, empty_succ, ih, ih]
  rw [← hc d j]
  exact node_congr h hf

/-! ### Leaves from a list -/

theorem leavesOf_eq {z : α} {ls : List α} {i : ℕ} (hi : i < ls.length) :
    leavesOf z ls i = ls[i] := by
  simp [leavesOf, hi]

theorem leavesOf_ge {z : α} {ls : List α} {i : ℕ} (hi : ls.length ≤ i) :
    leavesOf z ls i = z := by
  simp [leavesOf, hi]

theorem leavesOf_append_lt {z : α} {ls ms : List α} {i : ℕ} (hi : i < ls.length) :
    leavesOf z (ls ++ ms) i = leavesOf z ls i := by
  have hi' : i < (ls ++ ms).length := by simp only [List.length_append]; omega
  rw [leavesOf_eq hi, leavesOf_eq hi', List.getElem_append_left hi]

theorem leavesOf_append_self {z : α} {ls : List α} {x : α} :
    leavesOf z (ls ++ [x]) ls.length = x := by
  simp [leavesOf]

/-! ### The frontier -/

/-- What the frontier of `n` leaves holds at height `i`, where `n` has a one there. -/
def Live (f : ℕ → α) {d : ℕ} (n : ℕ) (filled : Fin d → α) : Prop :=
  ∀ i : Fin d, n / 2 ^ i.val % 2 = 1 → filled i = node h f i (n / 2 ^ i.val - 1)

/-- The empty tree puts no condition on its frontier. -/
theorem Live.zero (f : ℕ → α) {d : ℕ} (filled : Fin d → α) : Live h f 0 filled := by
  intro i hi
  simp at hi

private theorem div_pow_succ (n i : ℕ) : n / 2 ^ (i + 1) = n / 2 ^ i / 2 := by
  rw [pow_succ, Nat.div_div_eq_div_mul]

/-- One level of an append, at a left child: its sibling is empty. -/
theorem climb_even {f : ℕ → α} {z : α} {n i : ℕ} (hz : ∀ j, n < j → f j = z)
    (hn : n / 2 ^ i % 2 = 0) :
    h (node h f i (n / 2 ^ i)) (empty h z i) = node h f (i + 1) (n / 2 ^ (i + 1)) := by
  have hd : 2 * (n / 2 ^ (i + 1)) = n / 2 ^ i := by rw [div_pow_succ]; omega
  rw [node_succ, hd]
  congr 1
  refine (node_eq_empty h fun j hj => hz j ?_).symm
  by_contra hjn
  have hle : j / 2 ^ i ≤ n / 2 ^ i := Nat.div_le_div_right (Nat.le_of_not_lt hjn)
  rw [hj] at hle
  exact absurd hle (Nat.not_succ_le_self _)

/-- One level of an append, at a right child: its sibling is the complete subtree before it. -/
theorem climb_odd {f : ℕ → α} {n i : ℕ} (hn : n / 2 ^ i % 2 = 1) :
    h (node h f i (n / 2 ^ i - 1)) (node h f i (n / 2 ^ i)) =
      node h f (i + 1) (n / 2 ^ (i + 1)) := by
  have hl : 2 * (n / 2 ^ (i + 1)) = n / 2 ^ i - 1 := by rw [div_pow_succ]; omega
  have hr : 2 * (n / 2 ^ (i + 1)) + 1 = n / 2 ^ i := by rw [div_pow_succ]; omega
  rw [node_succ, hr, hl]

/-- The subtree the frontier stores at height `i` has only leaves before the `n`-th under it. -/
theorem node_left_congr {f g : ℕ → α} {n i : ℕ} (hfg : ∀ j, j < n → f j = g j)
    (hn : n / 2 ^ i % 2 = 1) : node h f i (n / 2 ^ i - 1) = node h g i (n / 2 ^ i - 1) := by
  refine node_congr h fun j hj => hfg j ?_
  by_contra hjn
  have hle : n / 2 ^ i ≤ j / 2 ^ i := Nat.div_le_div_right (Nat.le_of_not_lt hjn)
  rw [hj] at hle
  generalize n / 2 ^ i = m at hn hle
  omega

/-- **The frontier after an append.**  Where `n` is even at height `i`, the new slot is the
subtree that holds the `n`-th leaf; where it is odd, the slot is the one before. -/
theorem Live.next {f g : ℕ → α} {d n : ℕ} {filled filled' : Fin d → α}
    (hlive : Live h f n filled) (hfg : ∀ j, j < n → f j = g j)
    (heven : ∀ i : Fin d, n / 2 ^ i.val % 2 = 0 → filled' i = node h g i (n / 2 ^ i.val))
    (hodd : ∀ i : Fin d, n / 2 ^ i.val % 2 = 1 → filled' i = filled i) :
    Live h g (n + 1) filled' := by
  intro i hi
  have hcarry : (n + 1) / 2 ^ i.val = n / 2 ^ i.val ∨
      (n + 1) / 2 ^ i.val = n / 2 ^ i.val + 1 := by
    rw [Nat.succ_div]; split
    · exact .inr rfl
    · exact .inl rfl
  rcases Nat.mod_two_eq_zero_or_one (n / 2 ^ i.val) with e | e
  · rcases hcarry with hc | hc
    · rw [hc, e] at hi; cases hi
    · rw [heven i e, hc, Nat.add_sub_cancel]
  · rcases hcarry with hc | hc
    · rw [hodd i e, hlive i e, hc]
      exact node_left_congr h hfg e
    · rw [hc, Nat.add_mod, e] at hi; cases hi

end HashTree
