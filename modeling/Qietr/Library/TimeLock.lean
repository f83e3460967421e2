import Mathlib.Tactic

/-!
# Library — time locks

A value that is replaced in two steps: a new one is queued, and it is installed by a later step, no
sooner than a delay after.  Only the last one queued can be installed, and only once.

* `LockEvent`: who queues what and when, and who applies it.
* `TimeLock delay initial log v p`: after `log`, `v` is installed and `p` is pending.
* `TimeLock.applied`: what is applied was queued just before, and early enough.
* `TimeLock.installed`: where the installed value comes from.
-/

variable {κ ν : Type*}

/-- A step of a time lock, at a time, by a key. -/
inductive LockEvent (κ ν : Type*) where
  | queue (time : ℕ) (key : κ) (value : ν)
  | apply (time : ℕ) (key : κ)

namespace LockEvent

/-- Who signed it. -/
def key : LockEvent κ ν → κ
  | queue _ key _ | apply _ key => key

def IsApply : LockEvent κ ν → Prop
  | queue _ _ _ => False
  | apply _ _ => True

end LockEvent

/-- `v` is installed and `p` is pending, with the time it was queued at. -/
inductive TimeLock (delay : ℕ) (initial : ν) : List (LockEvent κ ν) → ν → Option (ℕ × ν) → Prop
  | start : TimeLock delay initial [] initial none
  | queue {log : List (LockEvent κ ν)} {v : ν} {p : Option (ℕ × ν)}
      (h : TimeLock delay initial log v p) (time : ℕ) (key : κ) (w : ν) :
      TimeLock delay initial (log ++ [.queue time key w]) v (some (time, w))
  | apply {log : List (LockEvent κ ν)} {v w : ν} {queued : ℕ}
      (h : TimeLock delay initial log v (some (queued, w))) (time : ℕ) (key : κ)
      (hle : queued + delay ≤ time) :
      TimeLock delay initial (log ++ [.apply time key]) w none

namespace TimeLock

variable {delay : ℕ} {initial v : ν} {p : Option (ℕ × ν)} {log : List (LockEvent κ ν)}

/-- What is pending was queued last. -/
theorem pending {time : ℕ} {w : ν} (h : TimeLock delay initial log v (some (time, w))) :
    ∃ before key, log = before ++ [.queue time key w] := by
  cases h with
  | queue _ _ key _ => exact ⟨_, key, rfl⟩

/-- **An application** comes right after the queueing of what it installs, and late enough. -/
theorem applied (h : TimeLock delay initial log v p) {before after : List (LockEvent κ ν)}
    {time : ℕ} {key : κ} (hlog : log = before ++ .apply time key :: after) :
    ∃ before' queued key' w, before = before' ++ [.queue queued key' w] ∧
      queued + delay ≤ time := by
  induction h generalizing after with
  | start => simp at hlog
  | @queue log v p h t k w ih =>
      rcases List.eq_nil_or_concat' after with rfl | ⟨after', e, rfl⟩
      · cases (List.append_inj' hlog rfl).2
      · rw [← List.cons_append, ← List.append_assoc] at hlog
        exact ih (List.append_inj' hlog rfl).1
  | @apply log v w queued h t k hle ih =>
      rcases List.eq_nil_or_concat' after with rfl | ⟨after', e, rfl⟩
      · obtain ⟨rfl, hlast⟩ := List.append_inj' hlog rfl
        cases hlast
        obtain ⟨before', key', rfl⟩ := h.pending
        exact ⟨before', queued, key', w, rfl, hle⟩
      · rw [← List.cons_append, ← List.append_assoc] at hlog
        exact ih (List.append_inj' hlog rfl).1

/-- **The installed value** is the initial one, before any application, or the one that the last
application has installed. -/
theorem installed (h : TimeLock delay initial log v p) :
    (v = initial ∧ ∀ e ∈ log, ¬ e.IsApply) ∨
      ∃ before queued key time key' after,
        log = before ++ [.queue queued key v, .apply time key'] ++ after ∧
        queued + delay ≤ time ∧ ∀ e ∈ after, ¬ e.IsApply := by
  induction h with
  | start => exact .inl ⟨rfl, nofun⟩
  | @queue log v p h t k w ih =>
      rcases ih with ⟨rfl, hnone⟩ | ⟨before, queued, key, time, key', after, rfl, hle, hnone⟩
      · refine .inl ⟨rfl, fun e he => ?_⟩
        rcases List.mem_append.mp he with he | he
        · exact hnone e he
        · cases List.mem_singleton.mp he
          exact id
      · refine .inr ⟨before, queued, key, time, key', after ++ [.queue t k w],
          List.append_assoc .., hle, fun e he => ?_⟩
        rcases List.mem_append.mp he with he | he
        · exact hnone e he
        · cases List.mem_singleton.mp he
          exact id
  | @apply log v w queued h t k hle ih =>
      obtain ⟨before, key, rfl⟩ := h.pending
      exact .inr ⟨before, queued, key, t, k, [], by simp, hle, nofun⟩

end TimeLock
