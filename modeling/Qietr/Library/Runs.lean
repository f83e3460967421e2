import Mathlib.Tactic

/-!
# Library — labelled runs

The runs of a labelled transition system from a set of initial states, each with the log of the
labels it took, the latest last.

* `Run init step log s`: `s` is reached from an initial state through `log`.
* `Run.invariant`: what the initial states have and every step keeps, about the log and the state.
* `Run.step_of_log`: each label of a log is that of a step, after a run with the log before it.
* `Run.extend`: a run goes on from where another has come to.
-/

variable {σ ℓ : Type*}

/-- `s` is reached from an initial state by steps labelled `log`. -/
inductive Run (init : σ → Prop) (step : σ → ℓ → σ → Prop) : List ℓ → σ → Prop
  | start {s : σ} (h : init s) : Run init step [] s
  | snoc {log : List ℓ} {s s' : σ} {a : ℓ} (h : Run init step log s) (hs : step s a s') :
      Run init step (log ++ [a]) s'

namespace Run

variable {init : σ → Prop} {step : σ → ℓ → σ → Prop}

/-- **The invariant rule.**  `I` may speak of the whole log: the history is part of it. -/
theorem invariant (I : List ℓ → σ → Prop) (hstart : ∀ s, init s → I [] s)
    (hstep : ∀ log s a s', Run init step log s → I log s → step s a s' → I (log ++ [a]) s')
    {log : List ℓ} {s : σ} (h : Run init step log s) : I log s := by
  induction h with
  | start h => exact hstart _ h
  | snoc h hs ih => exact hstep _ _ _ _ h ih hs

/-- The last step of a run. -/
theorem last {log : List ℓ} {a : ℓ} {s' : σ} (h : Run init step (log ++ [a]) s') :
    ∃ s, Run init step log s ∧ step s a s' := by
  generalize hlog : log ++ [a] = log' at h
  cases h with
  | start h => simp at hlog
  | snoc h hs =>
      obtain ⟨rfl, hlast⟩ := List.append_inj' hlog rfl
      cases hlast
      exact ⟨_, h, hs⟩

/-- A run may be cut at any point of its log. -/
theorem prefix_run {log₁ log₂ : List ℓ} {s : σ} (h : Run init step (log₁ ++ log₂) s) :
    ∃ s₁, Run init step log₁ s₁ := by
  induction log₂ using List.reverseRecOn generalizing s with
  | nil => exact ⟨s, by simpa using h⟩
  | append_singleton log₂ a ih =>
      rw [← List.append_assoc] at h
      obtain ⟨s₁, h₁, -⟩ := h.last
      exact ih h₁

/-- Each label of a log is that of a step. -/
theorem step_of_log {log₁ log₂ : List ℓ} {a : ℓ} {s : σ}
    (h : Run init step (log₁ ++ a :: log₂) s) : ∃ s₁ s₂, Run init step log₁ s₁ ∧ step s₁ a s₂ := by
  rw [← List.singleton_append, ← List.append_assoc] at h
  obtain ⟨s₂, h₂⟩ := h.prefix_run
  obtain ⟨s₁, h₁, hs⟩ := h₂.last
  exact ⟨s₁, s₂, h₁, hs⟩

/-- A run goes on. -/
theorem extend {log log' : List ℓ} {s s' : σ} (h : Run init step log s)
    (h' : Run (· = s) step log' s') : Run init step (log ++ log') s' := by
  induction h' with
  | start hs =>
      subst hs
      rwa [List.append_nil]
  | snoc _ hs ih =>
      rw [← List.append_assoc]
      exact ih.snoc hs

end Run
