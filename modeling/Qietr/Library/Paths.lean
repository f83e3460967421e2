import Qietr.Library.HashTree

/-!
# Library — inclusion paths

A path is the list of siblings from a leaf to the root, each with the side it is on: `true` where
the current node is the right child.

* `fold h x p`: the root the path `p` gives to the leaf `x`.
* `siblings h f d i`: the path of the `i`-th leaf in the tree of height `d` over `f`.
* `fold_siblings`: it folds to the root.
* `position p`: the index a path is about.
* `binding`: a path that folds to a subtree's root starts at that subtree's leaf, unless a pair
  hashed on the way up and the pair hashed at the same node of the tree collide.
-/

namespace HashTree

variable {α β : Type*} (h : α → α → α)

/-! ### Folding -/

/-- The pair hashed at one step of a path. -/
def stepInput (x : α) (e : α × Bool) : α × α :=
  if e.2 then (e.1, x) else (x, e.1)

/-- One step of a path. -/
def step (x : α) (e : α × Bool) : α :=
  h (stepInput x e).1 (stepInput x e).2

/-- The root a path gives to the leaf `x`. -/
def fold (x : α) (p : List (α × Bool)) : α :=
  p.foldl (step h) x

/-- The pairs hashed along a path. -/
def foldInputs (x : α) : List (α × Bool) → List (α × α)
  | [] => []
  | e :: p => stepInput x e :: foldInputs (step h x e) p

/-- The index a path is about: its sides, the lowest bit first. -/
def position : List (α × Bool) → ℕ
  | [] => 0
  | e :: p => e.2.toNat + 2 * position p

@[simp] theorem fold_nil (x : α) : fold h x [] = x := rfl

@[simp] theorem fold_cons (x : α) (e : α × Bool) (p : List (α × Bool)) :
    fold h x (e :: p) = fold h (step h x e) p := rfl

theorem fold_snoc (x : α) (p : List (α × Bool)) (e : α × Bool) :
    fold h x (p ++ [e]) = step h (fold h x p) e := by
  simp [fold]

theorem foldInputs_snoc (x : α) (p : List (α × Bool)) (e : α × Bool) :
    foldInputs h x (p ++ [e]) = foldInputs h x p ++ [stepInput (fold h x p) e] := by
  induction p generalizing x with
  | nil => rfl
  | cons a p ih => simp [foldInputs, ih]

theorem position_snoc (p : List (α × Bool)) (e : α × Bool) :
    position (p ++ [e]) = position p + 2 ^ p.length * e.2.toNat := by
  induction p with
  | nil => simp [position]
  | cons a p ih => simp only [List.cons_append, position, ih, List.length_cons]; ring

/-! ### The path of a leaf -/

/-- The other child of a node's parent. -/
def sibling (j : ℕ) : ℕ :=
  if j % 2 = 0 then j + 1 else j - 1

/-- The path of the `i`-th leaf, `d` levels up. -/
def siblings (f : ℕ → α) (d i : ℕ) : List (α × Bool) :=
  (List.range d).map fun k => (node h f k (sibling (i / 2 ^ k)), decide (i / 2 ^ k % 2 = 1))

@[simp] theorem siblings_length (f : ℕ → α) (d i : ℕ) : (siblings h f d i).length = d := by
  simp [siblings]

theorem siblings_succ (f : ℕ → α) (d i : ℕ) :
    siblings h f (d + 1) i = siblings h f d i ++
      [(node h f d (sibling (i / 2 ^ d)), decide (i / 2 ^ d % 2 = 1))] := by
  simp [siblings, List.range_succ]

/-- One step up the tree, from either child. -/
theorem step_sibling (f : ℕ → α) (d j : ℕ) :
    step h (node h f d j) (node h f d (sibling j), decide (j % 2 = 1)) =
      node h f (d + 1) (j / 2) := by
  rw [node_succ]
  rcases Nat.mod_two_eq_zero_or_one j with e | e
  · have h₀ : 2 * (j / 2) = j := by omega
    simp [step, stepInput, sibling, e, h₀]
  · have h₀ : 2 * (j / 2) = j - 1 := by omega
    have h₁ : 2 * (j / 2) + 1 = j := by omega
    rw [h₁, h₀]
    simp [step, stepInput, sibling, e]

/-- **The path of a leaf folds to the root.** -/
theorem fold_siblings (f : ℕ → α) (d i : ℕ) :
    fold h (f i) (siblings h f d i) = node h f d (i / 2 ^ d) := by
  induction d with
  | zero => simp [siblings]
  | succ d ih =>
      rw [siblings_succ, fold_snoc, ih, step_sibling, Nat.div_div_eq_div_mul, ← pow_succ]

/-! ### Binding -/

/-- The pair hashed at the `j`-th node of height `d + 1`. -/
def nodeInput (f : ℕ → α) (d j : ℕ) : α × α :=
  (node h f d (2 * j), node h f d (2 * j + 1))

/-- Two different pairs with one hash. -/
def Collide (u v : α × α) : Prop :=
  u ≠ v ∧ h u.1 u.2 = h v.1 v.2

/-- **Binding.**  A path that folds to the `j`-th subtree of height `d` starts at the leaf it is
about, unless it and the tree exhibit a collision. -/
theorem binding {f : ℕ → α} {x : α} {p : List (α × Bool)} {j : ℕ}
    (hfold : fold h x p = node h f p.length j) :
    x = f (2 ^ p.length * j + position p) ∨
      ∃ u ∈ foldInputs h x p, ∃ k j', k < p.length ∧ j' / 2 ^ (p.length - 1 - k) = j ∧
        Collide h u (nodeInput h f k j') := by
  induction p using List.reverseRecOn generalizing j with
  | nil => left; simpa [position] using hfold
  | append_singleton p e ih =>
      rw [fold_snoc, List.length_append, List.length_singleton, node_succ] at hfold
      by_cases hin : stepInput (fold h x p) e = nodeInput h f p.length j
      · -- the two pairs agree, so the path so far folds to the child on the side of `e`
        have hchild : fold h x p = node h f p.length (2 * j + e.2.toNat) := by
          obtain ⟨s, b⟩ := e
          cases b with
          | false => exact (Prod.ext_iff.mp hin).1
          | true => exact (Prod.ext_iff.mp hin).2
        rcases ih hchild with hx | ⟨u, hu, k, j', hk, hj', hc⟩
        · left
          rw [hx, position_snoc, List.length_append, List.length_singleton, pow_succ]
          congr 1
          ring
        · right
          refine ⟨u, ?_, k, j', ?_, ?_, hc⟩
          · rw [foldInputs_snoc]; exact List.mem_append_left _ hu
          · rw [List.length_append, List.length_singleton]; omega
          · have hlen : (p ++ [e]).length - 1 - k = p.length - 1 - k + 1 := by
              rw [List.length_append, List.length_singleton]; omega
            have hb : e.2.toNat ≤ 1 := Bool.toNat_le e.2
            rw [hlen, pow_succ, ← Nat.div_div_eq_div_mul, hj']
            omega
      · right
        refine ⟨stepInput (fold h x p) e, ?_, p.length, j, ?_, ?_, hin, hfold⟩
        · rw [foldInputs_snoc]; exact List.mem_append_right _ (List.mem_singleton_self _)
        · simp
        · simp

end HashTree
