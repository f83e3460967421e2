import Mathlib.Tactic

/-!
# Library — fallible programs

The error monad a checked program is written in, and the inversion of each of its forms.

* `require`: a guard that fails with its own error; `okOr`: an optional value with the error its
  absence raises.
* `bind_eq_ok`, `require_bind_eq_ok`, `okOr_bind_eq_ok`: what a successful computation went
  through, one step at a time; `bind_eq_error`: where a failed one stopped.
* `checkedAdd`, `checkedSub`, `checkedMul`, `checkedDiv`: `u64` arithmetic that fails in place of
  wrapping; `checkedAddI64` for signed seconds.
* `lift`: a computation without state inside one with; `finalState`: the state one with leaves.
* `finRange_foldlM_ok`: the invariant rule of a counted loop whose state survives an error.
-/

namespace Outcome

variable {ε α β σ : Type}

/-! ### Guards -/

/-- A guard: nothing when `p` holds, the error `e` otherwise. -/
def require (p : Prop) [Decidable p] (e : ε) : Except ε Unit :=
  if p then .ok () else .error e

/-- The value of an option, or the error `e`. -/
def okOr (o : Option α) (e : ε) : Except ε α :=
  match o with
  | some a => .ok a
  | none => .error e

/-! ### Inversion -/

theorem bind_eq_ok {x : Except ε α} {f : α → Except ε β} {b : β} :
    (x >>= f) = .ok b ↔ ∃ a, x = .ok a ∧ f a = .ok b := by
  cases x with
  | error e => simp [bind, Except.bind]
  | ok a => simp [bind, Except.bind]

theorem ok_bind (a : α) (f : α → Except ε β) : (Except.ok a >>= f) = f a := rfl

theorem error_bind (e : ε) (f : α → Except ε β) :
    ((Except.error e : Except ε α) >>= f) = .error e := rfl

@[simp] theorem require_eq_ok {p : Prop} [Decidable p] {e : ε} {u : Unit} :
    require p e = .ok u ↔ p := by
  by_cases h : p <;> simp [require, h]

theorem require_of {p : Prop} [Decidable p] (e : ε) (h : p) : require p e = .ok () := if_pos h

theorem require_of_not {p : Prop} [Decidable p] (e : ε) (h : ¬ p) : require p e = .error e :=
  if_neg h

@[simp] theorem okOr_eq_ok {o : Option α} {e : ε} {a : α} : okOr o e = .ok a ↔ o = some a := by
  cases o <;> simp [okOr]

@[simp] theorem okOr_some (a : α) (e : ε) : okOr (some a) e = .ok a := rfl

@[simp] theorem okOr_none (e : ε) : okOr (none : Option α) e = .error e := rfl

/-- A guard that was passed. -/
theorem require_bind_eq_ok {p : Prop} [Decidable p] {e : ε} {f : Unit → Except ε β} {b : β} :
    (require p e >>= f) = .ok b ↔ p ∧ f () = .ok b := by
  by_cases h : p <;> simp [require, h, ok_bind, error_bind]

/-- An optional value that was there. -/
theorem okOr_bind_eq_ok {o : Option α} {e : ε} {f : α → Except ε β} {b : β} :
    (okOr o e >>= f) = .ok b ↔ ∃ a, o = some a ∧ f a = .ok b := by
  cases o <;> simp [okOr, ok_bind, error_bind]

theorem bind_eq_error {x : Except ε α} {f : α → Except ε β} {e : ε} :
    (x >>= f) = .error e ↔ x = .error e ∨ ∃ a, x = .ok a ∧ f a = .error e := by
  cases x with
  | error e' => simp [bind, Except.bind]
  | ok a => simp [bind, Except.bind]

@[simp] theorem require_eq_error {p : Prop} [Decidable p] {e e' : ε} :
    require p e = .error e' ↔ ¬ p ∧ e = e' := by
  by_cases h : p <;> simp [require, h]

@[simp] theorem okOr_eq_error {o : Option α} {e e' : ε} :
    okOr o e = .error e' ↔ o = none ∧ e = e' := by
  cases o <;> simp [okOr]

/-! ### Checked arithmetic -/

/-- `a + b`, unless it leaves `u64`. -/
def checkedAdd (a b : UInt64) : Option UInt64 :=
  if a.toNat + b.toNat < 2 ^ 64 then some (a + b) else none

/-- `a - b`, unless it leaves `u64`. -/
def checkedSub (a b : UInt64) : Option UInt64 :=
  if b.toNat ≤ a.toNat then some (a - b) else none

/-- `a * b`, unless it leaves `u64`. -/
def checkedMul (a b : UInt64) : Option UInt64 :=
  if a.toNat * b.toNat < 2 ^ 64 then some (a * b) else none

/-- `a / b`, unless `b` is zero. -/
def checkedDiv (a b : UInt64) : Option UInt64 :=
  if b = 0 then none else some (a / b)

/-- `a + b`, unless it leaves `i64`; the operands are the `i64` values themselves. -/
def checkedAddI64 (a b : Int) : Option Int :=
  if -2 ^ 63 ≤ a + b ∧ a + b < 2 ^ 63 then some (a + b) else none

theorem checkedAdd_eq_some {a b c : UInt64} :
    checkedAdd a b = some c ↔ c.toNat = a.toNat + b.toNat := by
  unfold checkedAdd
  have hc := c.toNat_lt
  split
  case isTrue h =>
    have hab : (a + b).toNat = a.toNat + b.toNat := by
      rw [UInt64.toNat_add, Nat.mod_eq_of_lt h]
    rw [Option.some.injEq, ← UInt64.toNat_inj, hab, eq_comm]
  case isFalse h =>
    refine ⟨?_, ?_⟩
    · intro e; cases e
    · intro e; omega

theorem checkedSub_eq_some {a b c : UInt64} :
    checkedSub a b = some c ↔ a.toNat = c.toNat + b.toNat := by
  unfold checkedSub
  split
  case isTrue h =>
    have hab : (a - b).toNat = a.toNat - b.toNat := UInt64.toNat_sub_of_le _ _ h
    rw [Option.some.injEq, ← UInt64.toNat_inj, hab]
    omega
  case isFalse h =>
    refine ⟨?_, ?_⟩
    · intro e; cases e
    · intro e; omega

theorem checkedMul_eq_some {a b c : UInt64} :
    checkedMul a b = some c ↔ c.toNat = a.toNat * b.toNat := by
  unfold checkedMul
  have hc := c.toNat_lt
  split
  case isTrue h =>
    have hab : (a * b).toNat = a.toNat * b.toNat := by
      rw [UInt64.toNat_mul, Nat.mod_eq_of_lt h]
    rw [Option.some.injEq, ← UInt64.toNat_inj, hab, eq_comm]
  case isFalse h =>
    refine ⟨?_, ?_⟩
    · intro e; cases e
    · intro e; omega

theorem checkedDiv_eq_some {a b c : UInt64} :
    checkedDiv a b = some c ↔ b ≠ 0 ∧ c.toNat = a.toNat / b.toNat := by
  unfold checkedDiv
  split
  case isTrue h => simp [h]
  case isFalse h =>
    rw [Option.some.injEq, ← UInt64.toNat_inj, UInt64.toNat_div, eq_comm]
    simp [h]

theorem checkedAdd_of_lt {a b : UInt64} (h : a.toNat + b.toNat < 2 ^ 64) :
    checkedAdd a b = some (a + b) := if_pos h

/-! ### Counted loops -/

/-- A computation without state, in a monad that keeps its state on an error. -/
def lift (x : Except ε α) : EStateM ε σ α := fun s =>
  match x with
  | .ok a => .ok a s
  | .error e => .error e s

@[simp] theorem run_lift_ok (a : α) (s : σ) :
    (lift (.ok a : Except ε α) : EStateM ε σ α).run s = .ok a s := rfl

@[simp] theorem run_lift_error (e : ε) (s : σ) :
    (lift (.error e : Except ε α) : EStateM ε σ α).run s = .error e s := rfl

/-- The state a run leaves, when it succeeds. -/
def finalState : EStateM.Result ε σ α → Except ε σ
  | .ok _ s => .ok s
  | .error e _ => .error e

/-- The invariant rule of `for i in 0..n` in a monad that keeps its state on an error: what each
iteration establishes for the next, the whole loop establishes at `n`. -/
theorem finRange_foldlM_ok {n : ℕ} {f : β → Fin n → EStateM ε σ β} (I : ℕ → β → σ → Prop)
    (step : ∀ (i : Fin n) (b : β) (s : σ), I i b s →
      ∃ b' s', (f b i).run s = .ok b' s' ∧ I (i + 1) b' s')
    {b : β} {s : σ} (h : I 0 b s) :
    ∃ b' s', ((List.finRange n).foldlM f b).run s = .ok b' s' ∧ I n b' s' := by
  induction n generalizing I b s with
  | zero => exact ⟨b, s, rfl, h⟩
  | succ n ih =>
      obtain ⟨b₁, s₁, h₁, hI₁⟩ := step 0 b s h
      obtain ⟨b', s', h', hI'⟩ := ih (f := fun b i => f b i.succ) (fun i => I (i + 1))
        (fun i b s hI => step i.succ b s hI) hI₁
      refine ⟨b', s', ?_, hI'⟩
      rw [List.finRange_succ, List.foldlM_cons, EStateM.run_bind, h₁]
      show ((List.map Fin.succ (List.finRange n)).foldlM f b₁).run s₁ = _
      rw [List.foldlM_map]
      exact h'

end Outcome
