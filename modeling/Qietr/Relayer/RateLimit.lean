import Qietr.Library.Doubles
import Qietr.Library.RollingWindow

/-!
# Relayer — the rate limiter

`policy/rate-limit.ts`: a limiter in memory, one queue of admission times for each key.  `check` has
no `await`, so calls are answered one after the other.  Its arithmetic is that of doubles.

* `RateLimiter`, `check`: the limiter and one call; `answers`: calls in turn, with what each is
  told.
* `ideal`: a limiter that forgets nothing; it looks at the window that ends with the call.
* `Usage`: how it is used: with windows of whole milliseconds, by a clock of whole milliseconds.
* `Tracks`: the queues are what is left of its times; `Tracks.serve_eq`: the answers are the same.
* `sliding_window`: the cap, when a call is denied, what it depends on, and the retry hint.
* `window_rounded_down`: a window with a fraction of a millisecond, which the clock has no room for.
-/

namespace Qietr.Relayer.RateLimit

open Doubles RollingWindow

/-! ### The limiter -/

structure RateLimitDecision where
  allowed : Bool
  /-- Nothing also stands for `NaN`, of a limit of zero. -/
  retryAfterSeconds : Option ℤ
  reason : Option String
  remaining : Option ℤ
  limit : Option ℕ
  deriving DecidableEq

structure BucketEntry where
  /-- Unix milliseconds, in order. -/
  hits : List ℤ

structure RateLimiter where
  buckets : String → Option BucketEntry

def createInMemoryRateLimiter : RateLimiter where
  buckets := fun _ => none

/-- The arguments of `check`, and the clock. -/
structure Call where
  key : String
  windowSeconds : ℚ
  limit : ℕ
  now : ℤ
  deriving DecidableEq

def Call.windowMs (c : Call) : ℚ :=
  doubleRat (c.windowSeconds * 1000)

/-- The hits of a key. -/
def RateLimiter.hits (limiter : RateLimiter) (key : String) : List ℤ :=
  ((limiter.buckets key).map BucketEntry.hits).getD []

/-- How long it takes until the oldest hit is out of the window, in seconds, rounded up. -/
def Call.retryAfter (c : Call) (oldest : ℤ) : ℤ :=
  let retryAfterMs := doubleRat (doubleRat (oldest + c.windowMs) - c.now)
  ⌈doubleRat (retryAfterMs / 1000)⌉

/-- The decision on hits that are within the window, and the hits that are then kept. -/
def Call.decideOn (c : Call) (hits : List ℤ) : RateLimitDecision × List ℤ :=
  if c.limit ≤ hits.length then
    ({ allowed := false
       retryAfterSeconds := hits.head?.map c.retryAfter
       reason := some "rate_limited"
       remaining := some 0
       limit := some c.limit }, hits)
  else
    ({ allowed := true
       retryAfterSeconds := none
       reason := none
       remaining := some (c.limit - (hits ++ [c.now]).length)
       limit := some c.limit }, hits ++ [c.now])

def RateLimiter.check (limiter : RateLimiter) (c : Call) : RateLimitDecision × RateLimiter :=
  let cutoff := doubleRat (c.now - c.windowMs)
  let (decision, hits) := c.decideOn ((limiter.hits c.key).dropWhile fun t : ℤ => t ≤ cutoff)
  (decision, { buckets := Function.update limiter.buckets c.key (some { hits }) })

/-- A call with what it is told. -/
abbrev Answer := Call × RateLimitDecision

/-- The calls in turn. -/
def RateLimiter.serve (limiter : RateLimiter) : List Call → List Answer
  | [] => []
  | c :: cs =>
      let (decision, limiter) := limiter.check c
      (c, decision) :: limiter.serve cs

/-- Of a new limiter. -/
def answers (calls : List Call) : List Answer :=
  createInMemoryRateLimiter.serve calls

/-- When calls of the key were admitted. -/
def admissions (key : String) (log : List Answer) : List ℤ :=
  log.filterMap fun (c, decision) => if c.key = key ∧ decision.allowed = true then some c.now else
    none

/-! ### A limiter that forgets nothing -/

/-- A window of whole milliseconds. -/
def Call.width (c : Call) : ℤ :=
  ⌈c.windowMs⌉

/-- What `Date.now` returns, from 1970 on. -/
def IsTime (t : ℤ) : Prop :=
  0 ≤ t ∧ t ≤ 8640000000000000

/-- What a call is told, from every admission of its key. -/
def Call.verdict (c : Call) (times : List ℤ) : RateLimitDecision :=
  (c.decideOn (after (c.now - c.width) times)).1

/-- The calls in turn, from the admissions of each key. -/
def ideal (times : String → List ℤ) : List Call → List Answer
  | [] => []
  | c :: cs =>
      let answer := (c, c.verdict (times c.key))
      answer :: ideal (fun key => times key ++ admissions key [answer]) cs

variable {c : Call} {cs : List Call} {key : String} {t now : ℤ} {l times : List ℤ} {w : String → ℤ}
  {limiter : RateLimiter} {log : String → List ℤ}

theorem IsTime.abs_le (h : IsTime t) : |t| ≤ 2 ^ 53 := by
  rw [IsTime] at h
  rw [abs_of_nonneg h.1]
  omega

/-- **The cutoff** is exact for times. -/
theorem le_cutoff_iff {width : ℤ} (ht : IsTime t) :
    (t : ℚ) ≤ doubleRat (now - width) ↔ t ≤ now - width := by
  refine ⟨fun h => ?_, fun h => le_doubleRat (isDoubleRat_of_le ht.abs_le) (by exact_mod_cast h)⟩
  -- else `t - 1`, which is exact, is not below the cutoff
  by_contra hlt
  have hprev : |t - 1| ≤ 2 ^ 53 := by
    obtain ⟨h0, hmax⟩ := ht
    rw [abs_le]
    omega
  have hle : (now - width : ℚ) ≤ ((t - 1 : ℤ) : ℚ) := by
    exact_mod_cast (by omega : now - width ≤ t - 1)
  have hround := doubleRat_le (isDoubleRat_of_le hprev) hle
  have hcast : (t : ℚ) ≤ ((t - 1 : ℤ) : ℚ) := h.trans hround
  have hint : t ≤ t - 1 := by exact_mod_cast hcast
  omega

theorem decideOn_allowed : (c.decideOn l).1.allowed = true ↔ l.length < c.limit := by
  rw [Call.decideOn]
  split
  · simpa
  · simpa using ‹¬ c.limit ≤ l.length›

theorem decideOn_hits :
    (c.decideOn l).2 = if (c.decideOn l).1.allowed = true then l ++ [c.now] else l := by
  rw [Call.decideOn]
  split <;> rfl

theorem verdict_allowed :
    (c.verdict times).allowed = true ↔ (after (c.now - c.width) times).length < c.limit :=
  decideOn_allowed

theorem admissions_append (key : String) (log log' : List Answer) :
    admissions key (log ++ log') = admissions key log ++ admissions key log' :=
  List.filterMap_append ..

theorem admissions_cons (key : String) (answer : Answer) (log : List Answer) :
    admissions key (answer :: log) = admissions key [answer] ++ admissions key log :=
  admissions_append key [answer] log

theorem admissions_singleton (key : String) (c : Call) (d : RateLimitDecision) :
    admissions key [(c, d)] = if c.key = key ∧ d.allowed = true then [c.now] else [] := by
  by_cases h : c.key = key ∧ d.allowed = true
  · rw [if_pos h]
    exact List.filterMap_cons_some (if_pos h)
  · rw [if_neg h]
    exact List.filterMap_cons_none (if_neg h)

theorem Call.width_eq (hw : c.windowMs = w c.key) : c.width = w c.key := by
  rw [Call.width, hw, Int.ceil_intCast]

/-! ### The limiter is as good -/

/-- At the time `now`, what the limiter has forgotten of the admissions is out of the window. -/
structure Tracks (w : String → ℤ) (now : ℤ) (limiter : RateLimiter) (log : String → List ℤ) :
    Prop where
  sorted : ∀ key, (log key).Pairwise (· ≤ ·)
  le_now : ∀ key, ∀ t ∈ log key, t ≤ now
  times : ∀ key, ∀ t ∈ log key, IsTime t
  trimmed : ∀ key, ∃ out, (∀ t ∈ out, t ≤ now - w key) ∧ log key = out ++ limiter.hits key

theorem Tracks.start (w : String → ℤ) (now : ℤ) :
    Tracks w now createInMemoryRateLimiter fun _ => [] where
  sorted _ := List.Pairwise.nil
  le_now _ _ ht := absurd ht List.not_mem_nil
  times _ _ ht := absurd ht List.not_mem_nil
  trimmed _ := ⟨[], fun _ ht => absurd ht List.not_mem_nil, rfl⟩

/-- What a call sees is the window. -/
theorem Tracks.dropWhile_hits (h : Tracks w now limiter log) (hnow : now ≤ c.now)
    (hw : c.windowMs = w c.key) :
    (limiter.hits c.key).dropWhile (fun t : ℤ => t ≤ doubleRat (c.now - c.windowMs)) =
      after (c.now - c.width) (log c.key) := by
  obtain ⟨out, hout, hlog⟩ := h.trimmed c.key
  have hsorted : (limiter.hits c.key).Pairwise (· ≤ ·) :=
    (List.pairwise_append.mp (hlog ▸ h.sorted c.key)).2.1
  have hwidth := Call.width_eq hw
  have hnil : after (c.now - c.width) out = [] :=
    after_eq_nil fun t ht => by
      have := hout t ht
      omega
  -- the cutoff may be rounded, but not across a time
  have hcut : (fun t : ℤ => decide ((t : ℚ) ≤ doubleRat (c.now - c.windowMs))) =
      fun t => decide (t ≤ ⌊doubleRat (c.now - c.windowMs)⌋) :=
    funext fun t => decide_eq_decide.mpr Int.le_floor.symm
  have hsame : after ⌊doubleRat (c.now - c.windowMs)⌋ (limiter.hits c.key) =
      after (c.now - c.width) (limiter.hits c.key) := by
    refine List.filter_congr fun t ht => decide_eq_decide.mpr ?_
    have htime := h.times c.key t (hlog ▸ List.mem_append_right _ ht)
    rw [← not_le, ← not_le, Int.le_floor, hw, hwidth, le_cutoff_iff htime]
  rw [hcut, dropWhile_eq_after hsorted, hsame, hlog, after_append, hnil, List.nil_append]

theorem Tracks.decision_eq (h : Tracks w now limiter log) (hnow : now ≤ c.now)
    (hw : c.windowMs = w c.key) : (limiter.check c).1 = c.verdict (log c.key) := by
  rw [RateLimiter.check, h.dropWhile_hits hnow hw]
  rfl

/-- **One call.** -/
theorem Tracks.check (h : Tracks w now limiter log) (hnow : now ≤ c.now)
    (hw : c.windowMs = w c.key) (htime : IsTime c.now) :
    Tracks w c.now (limiter.check c).2
      (fun key => log key ++ admissions key [(c, c.verdict (log c.key))]) := by
  have hnew : ∀ key, ∀ t ∈ admissions key [(c, c.verdict (log c.key))], t = c.now := by
    intro key t ht
    rw [admissions_singleton] at ht
    split at ht
    · exact List.mem_singleton.mp ht
    · exact absurd ht List.not_mem_nil
  refine ⟨fun key => ?_, fun key t ht => ?_, fun key t ht => ?_, fun key => ?_⟩
  · refine List.pairwise_append.mpr ⟨h.sorted key, ?_, fun t ht u hu => ?_⟩
    · exact List.pairwise_of_forall_mem_list fun t ht u hu =>
        (hnew key t ht).le.trans (hnew key u hu).ge
    · exact (h.le_now key t ht).trans (hnow.trans (hnew key u hu).ge)
  · rcases List.mem_append.mp ht with ht | ht
    · exact (h.le_now key t ht).trans hnow
    · exact (hnew key t ht).le
  · rcases List.mem_append.mp ht with ht | ht
    · exact h.times key t ht
    · rwa [hnew key t ht]
  · -- only the queue of the key is trimmed and written back
    by_cases hkey : c.key = key
    · subst hkey
      obtain ⟨out, hout, hlog⟩ := exists_trimmed (h.sorted c.key) (c.now - c.width)
      have hhits : (limiter.check c).2.hits c.key =
          (c.decideOn (after (c.now - c.width) (log c.key))).2 := by
        rw [RateLimiter.check, h.dropWhile_hits hnow hw]
        simp [RateLimiter.hits]
      refine ⟨out, fun t ht => Call.width_eq hw ▸ hout t ht, ?_⟩
      rw [hhits, decideOn_hits, admissions_singleton, ← Call.verdict]
      by_cases hallowed : (c.verdict (log c.key)).allowed = true
      · rw [if_pos ⟨rfl, hallowed⟩, if_pos hallowed, ← List.append_assoc, ← hlog]
      · rw [if_neg fun h => hallowed h.2, if_neg hallowed, List.append_nil, ← hlog]
    · obtain ⟨out, hout, hlog⟩ := h.trimmed key
      have hnone : admissions key [(c, c.verdict (log c.key))] = [] := by
        rw [admissions_singleton, if_neg fun h => hkey h.1]
      have hhits : (limiter.check c).2.hits key = limiter.hits key := by
        rw [RateLimiter.check, RateLimiter.hits]
        simp [Function.update_of_ne (Ne.symm hkey), RateLimiter.hits]
      refine ⟨out, fun t ht => ?_, by rw [hnone, List.append_nil, hhits, hlog]⟩
      have := hout t ht
      omega

/-- **The limiter answers as the ideal one.** -/
theorem Tracks.serve_eq (h : Tracks w now limiter log) (hnow : ∀ c ∈ cs, now ≤ c.now)
    (hclock : cs.Pairwise fun c c' => c.now ≤ c'.now) (hw : ∀ c ∈ cs, c.windowMs = w c.key)
    (htime : ∀ c ∈ cs, IsTime c.now) : limiter.serve cs = ideal log cs := by
  induction cs generalizing now limiter log with
  | nil => rfl
  | cons c cs ih =>
      obtain ⟨hlater, hclock⟩ := List.pairwise_cons.mp hclock
      have hc := hnow c List.mem_cons_self
      have hwc := hw c List.mem_cons_self
      have hrest := ih (h.check hc hwc (htime c List.mem_cons_self)) hlater hclock
        (fun c hc => hw c (List.mem_cons_of_mem _ hc)) fun c hc =>
          htime c (List.mem_cons_of_mem _ hc)
      show (c, (limiter.check c).1) :: (limiter.check c).2.serve cs = _
      rw [ideal, h.decision_eq hc hwc, hrest]

theorem answers_eq_ideal (hclock : cs.Pairwise fun c c' => c.now ≤ c'.now)
    (hw : ∀ c ∈ cs, c.windowMs = w c.key) (htime : ∀ c ∈ cs, IsTime c.now) :
    answers cs = ideal (fun _ => []) cs := by
  cases cs with
  | nil => rfl
  | cons c cs =>
      refine (Tracks.start w c.now).serve_eq (fun c' hc' => ?_) hclock hw htime
      rcases List.mem_cons.mp hc' with rfl | hc'
      · exact le_rfl
      · exact List.rel_of_pairwise_cons hclock hc'

/-! ### The ideal limiter -/

/-- The admissions of each key after calls that were answered with `answered`. -/
def afterwards (log : String → List ℤ) (answered : List Answer) : String → List ℤ :=
  fun key => log key ++ admissions key answered

theorem ideal_append (log : String → List ℤ) (cs cs' : List Call) :
    ideal log (cs ++ cs') = ideal log cs ++ ideal (afterwards log (ideal log cs)) cs' := by
  induction cs generalizing log with
  | nil =>
      have hnone : afterwards log (ideal log []) = log := funext fun key => List.append_nil _
      rw [hnone]
      rfl
  | cons c cs ih =>
      rw [List.cons_append, ideal, ih, ideal, List.cons_append]
      congr 3
      funext key
      rw [afterwards, afterwards, List.append_assoc, ← admissions_cons]

theorem map_fst_ideal (log : String → List ℤ) (cs : List Call) :
    (ideal log cs).map Prod.fst = cs := by
  induction cs generalizing log with
  | nil => rfl
  | cons c cs ih => rw [ideal, List.map_cons, ih]

/-- **The answer to a call** is from the admissions before it, and so are those after it. -/
theorem ideal_eq_append {before rest : List Answer} {d : RateLimitDecision}
    (h : ideal log cs = before ++ (c, d) :: rest) :
    ∃ cs₁ cs₂, cs = cs₁ ++ c :: cs₂ ∧ before = ideal log cs₁ ∧
      d = c.verdict (afterwards log before c.key) ∧
      rest = ideal (afterwards log (before ++ [(c, d)])) cs₂ := by
  have hcs := map_fst_ideal log cs
  rw [h, List.map_append, List.map_cons] at hcs
  subst hcs
  rw [ideal_append, ideal] at h
  have hlen : (ideal log (before.map Prod.fst)).length = before.length := by
    rw [← List.length_map Prod.fst, map_fst_ideal, List.length_map]
  obtain ⟨hbefore, hrest⟩ := List.append_inj h hlen
  rw [hbefore] at hrest
  obtain ⟨hd, hrest⟩ := List.cons_eq_cons.mp hrest
  have hverdict : c.verdict (afterwards log before c.key) = d := congrArg Prod.snd hd
  refine ⟨_, _, rfl, hbefore.symm, hverdict.symm, ?_⟩
  have hafter : afterwards log (before ++ [(c, d)]) =
      fun key => afterwards log before key ++ admissions key [(c, d)] := by
    funext key
    rw [afterwards, afterwards, admissions_append, List.append_assoc]
  simpa only [hafter, hverdict] using hrest.symm

/-- A denied call leaves no trace. -/
theorem afterwards_denied {d : RateLimitDecision} (h : d.allowed = false) (before : List Answer) :
    afterwards log (before ++ [(c, d)]) = afterwards log before := by
  funext key
  have hdenied : ¬ (c.key = key ∧ d.allowed = true) := fun hallowed =>
    Bool.false_ne_true (h.symm.trans hallowed.2)
  rw [afterwards, afterwards, admissions_append, admissions_singleton, if_neg hdenied,
    List.append_nil]

/-- The calls of one key alone. -/
theorem ideal_filter {log' : String → List ℤ} (hlog : log key = log' key) :
    ideal log (cs.filter fun c => c.key = key) =
      (ideal log' cs).filter fun answer => answer.1.key = key := by
  induction cs generalizing log log' with
  | nil => rfl
  | cons c cs ih =>
      by_cases hkey : c.key = key
      · subst hkey
        rw [List.filter_cons_of_pos (by simp), ideal, ideal, List.filter_cons_of_pos (by simp),
          hlog]
        congr 1
        exact ih (congrArg (· ++ _) hlog)
      · rw [List.filter_cons_of_neg (by simpa using hkey), ideal,
          List.filter_cons_of_neg (by simpa using hkey)]
        refine ih ?_
        rw [admissions_singleton, if_neg fun h => hkey h.1, List.append_nil, hlog]

/-! ### The window -/

/-- The admissions of each key, in order, with never more than the limit within a window. -/
structure Windowed (w : String → ℤ) (limit : String → ℕ) (now : ℤ) (log : String → List ℤ) :
    Prop where
  sorted : ∀ key, (log key).Pairwise (· ≤ ·)
  le_now : ∀ key, ∀ t ∈ log key, t ≤ now
  capped : ∀ key, Capped (w key) (limit key) (log key)

/-- How calls use the limiter: the clock does not go back, and a key keeps its limit and its window,
which is a whole number of milliseconds. -/
structure Usage (w : String → ℤ) (limit : String → ℕ) (calls : List Call) : Prop where
  clock : calls.Pairwise fun c c' => c.now ≤ c'.now
  times : ∀ c ∈ calls, IsTime c.now
  window : ∀ c ∈ calls, c.windowMs = w c.key
  limit : ∀ c ∈ calls, c.limit = limit c.key
  positive : ∀ c ∈ calls, 1 ≤ c.limit

variable {limit : String → ℕ}

/-- Fewer calls. -/
theorem Usage.sublist {cs' : List Call} (h : Usage w limit cs) (hcs : cs'.Sublist cs) :
    Usage w limit cs' where
  clock := h.clock.sublist hcs
  times c hc := h.times c (hcs.subset hc)
  window c hc := h.window c (hcs.subset hc)
  limit c hc := h.limit c (hcs.subset hc)
  positive c hc := h.positive c (hcs.subset hc)

theorem Windowed.call (h : Windowed w limit now log) (hnow : now ≤ c.now)
    (hw : c.windowMs = w c.key) (hlimit : c.limit = limit c.key) :
    Windowed w limit c.now
      (fun key => log key ++ admissions key [(c, c.verdict (log c.key))]) := by
  have hle : ∀ key, ∀ t ∈ log key, t ≤ c.now := fun key t ht => (h.le_now key t ht).trans hnow
  have hcases : ∀ key, admissions key [(c, c.verdict (log c.key))] = [] ∨
      admissions key [(c, c.verdict (log c.key))] = [c.now] ∧ c.key = key ∧
        (c.verdict (log c.key)).allowed = true := by
    intro key
    rw [admissions_singleton]
    split
    · exact .inr ⟨rfl, ‹_›⟩
    · exact .inl rfl
  refine ⟨fun key => ?_, fun key t ht => ?_, fun key => ?_⟩
  · rcases hcases key with hnone | ⟨hone, -⟩
    · simpa only [hnone, List.append_nil] using h.sorted key
    · rw [hone]
      refine List.pairwise_append.mpr
        ⟨h.sorted key, List.pairwise_singleton .., fun t ht u hu => ?_⟩
      rw [List.mem_singleton.mp hu]
      exact hle key t ht
  · rcases hcases key with hnone | ⟨hone, -⟩
    · rw [hnone, List.append_nil] at ht
      exact hle key t ht
    · rw [hone] at ht
      rcases List.mem_append.mp ht with ht | ht
      · exact hle key t ht
      · exact (List.mem_singleton.mp ht).le
  · rcases hcases key with hnone | ⟨hone, rfl, hallowed⟩
    · simpa only [hnone, List.append_nil] using h.capped key
    · have hroom := verdict_allowed.mp hallowed
      rw [Call.width_eq hw, hlimit] at hroom
      rw [hone]
      exact (h.capped c.key).snoc hroom

theorem Windowed.later (h : Windowed w limit now log) {later : ℤ} (hle : now ≤ later) :
    Windowed w limit later log where
  sorted := h.sorted
  le_now key t ht := (h.le_now key t ht).trans hle
  capped := h.capped

/-- Before the first call. -/
abbrev noAdmissions : String → List ℤ :=
  fun _ => []

/-- **The window of every key is capped**, by the induction on the calls. -/
theorem windowed_ideal (hu : Usage w limit cs) (later : ℤ) (hlater : ∀ c ∈ cs, c.now ≤ later) :
    Windowed w limit later fun key => admissions key (ideal noAdmissions cs) := by
  induction cs using List.reverseRecOn generalizing later with
  | nil => exact ⟨fun _ => .nil, fun _ _ ht => absurd ht List.not_mem_nil, fun _ => .nil _ _⟩
  | append_singleton cs c ih =>
      have hmem : c ∈ cs ++ [c] := List.mem_append_right _ (List.mem_singleton_self c)
      have hbefore : ∀ c' ∈ cs, c'.now ≤ c.now := fun c' hc' =>
        (List.pairwise_append.mp hu.clock).2.2 c' hc' c (List.mem_singleton_self c)
      have hfirst := ih (hu.sublist (List.sublist_append_left ..)) c.now hbefore
      have hcall := hfirst.call le_rfl (hu.window c hmem) (hu.limit c hmem)
      have happend : (fun key => admissions key (ideal noAdmissions (cs ++ [c]))) =
          fun key => admissions key (ideal noAdmissions cs) ++
            admissions key [(c, c.verdict (admissions c.key (ideal noAdmissions cs)))] := by
        funext key
        rw [ideal_append, admissions_append]
        rfl
      rw [happend]
      exact hcall.later (hlater c hmem)

/-- The window that ends with the call, as the limiter's clock has it. -/
theorem filter_window_eq (hle : ∀ t ∈ times, t ≤ c.now) :
    (times.filter fun t => c.now - c.width < t ∧ t ≤ c.now) = after (c.now - c.width) times := by
  refine List.filter_congr fun t ht => decide_eq_decide.mpr ?_
  rw [and_iff_left (hle t ht)]

/-- A half-open interval lies in one of whole milliseconds. -/
theorem filter_interval_length_le (start : ℚ) (width : ℤ) (times : List ℤ) :
    (times.filter fun t : ℤ => start ≤ t ∧ t < start + width).length ≤
      (inWindow ⌈start⌉ width times).length := by
  refine (List.monotone_filter_right _ fun t ht => decide_eq_true ?_).length_le
  obtain ⟨hstart, hend⟩ := of_decide_eq_true ht
  have hstart' : start ≤ ⌈start⌉ := Int.le_ceil start
  refine ⟨Int.ceil_le.mpr hstart, ?_⟩
  have hlt : (t : ℚ) < ((⌈start⌉ + width : ℤ) : ℚ) := by
    push_cast
    linarith
  exact_mod_cast hlt

/-- **By the hint** the oldest hit is out of the window: no rounding is early, as long as the clock
goes that far. -/
theorem add_width_le_retryAfter {oldest width : ℤ} (hw : c.windowMs = width) (hnow : IsTime c.now)
    (hlater : IsTime (c.now + 1000 * c.retryAfter oldest)) :
    oldest + width ≤ c.now + 1000 * c.retryAfter oldest := by
  set r := c.retryAfter oldest with hr
  by_contra hlt
  obtain ⟨hnow0, hnowmax⟩ := hnow
  obtain ⟨hlater0, hlatermax⟩ := hlater
  -- a millisecond more than the hint is left, at each of the three roundings
  have hend : ((c.now + 1000 * r + 1 : ℤ) : ℚ) ≤ doubleRat (oldest + c.windowMs) := by
    refine le_doubleRat (isDoubleRat_of_le (by rw [abs_le]; omega)) ?_
    rw [hw]
    exact_mod_cast (by omega : c.now + 1000 * r + 1 ≤ oldest + width)
  have hleft : ((1000 * r + 1 : ℤ) : ℚ) ≤
      doubleRat (doubleRat (oldest + c.windowMs) - c.now) := by
    refine le_doubleRat (isDoubleRat_of_le (by rw [abs_le]; omega)) ?_
    push_cast at hend ⊢
    linarith
  have hseconds : ((r * 1024 + 1 : ℤ) / 2 ^ 10 : ℚ) ≤
      doubleRat (doubleRat (doubleRat (oldest + c.windowMs) - c.now) / 1000) := by
    refine le_doubleRat (isDoubleRat_div (by rw [abs_le]; omega) (by decide)) ?_
    push_cast at hleft ⊢
    linarith
  have hceil : doubleRat (doubleRat (doubleRat (oldest + c.windowMs) - c.now) / 1000) ≤ (r : ℚ) :=
    Int.le_ceil _
  push_cast at hseconds
  linarith

/-- **The retry hint is not early**: by then the oldest admission is out of the window. -/
theorem length_after_retry {c' : Call} {r : ℤ} (hsorted : times.Pairwise (· ≤ ·))
    (hdenied : (c.verdict times).allowed = false)
    (hr : (c.verdict times).retryAfterSeconds = some r) {width : ℤ} (hw : c.windowMs = width)
    (hw' : c'.width = c.width) (hnow : c'.now = c.now + 1000 * r) (htime : IsTime c.now)
    (htime' : IsTime c'.now) :
    (after (c'.now - c'.width) times).length < (after (c.now - c.width) times).length := by
  have hlimit : c.limit ≤ (after (c.now - c.width) times).length := by
    rw [← not_lt, ← verdict_allowed, hdenied]
    exact Bool.false_ne_true
  rw [Call.verdict, Call.decideOn, if_pos hlimit] at hr
  obtain ⟨oldest, hhead, rfl⟩ := Option.map_eq_some_iff.mp hr
  obtain ⟨out, -, htimes⟩ := exists_trimmed hsorted (c.now - c.width)
  obtain ⟨recent, hrecent⟩ : ∃ recent, after (c.now - c.width) times = oldest :: recent :=
    List.head?_eq_some_iff.mp hhead
  rw [hrecent] at htimes ⊢
  have hout : oldest ≤ c'.now - c'.width := by
    have hwidth : c.width = width := by rw [Call.width, hw, Int.ceil_intCast]
    have hhint : oldest + width ≤ c.now + 1000 * c.retryAfter oldest :=
      add_width_le_retryAfter hw htime (hnow ▸ htime')
    rw [hw', hwidth, hnow]
    omega
  rw [htimes] at hsorted
  obtain ⟨-, -, hle⟩ := List.pairwise_append.mp hsorted
  have hnil : after (c'.now - c'.width) out = [] :=
    after_eq_nil fun t ht => (hle t ht oldest List.mem_cons_self).trans hout
  have hskip : after (c'.now - c'.width) (oldest :: recent) = after (c'.now - c'.width) recent :=
    List.filter_cons_of_neg (by simpa using hout)
  rw [htimes, after_append, hnil, List.nil_append, hskip, List.length_cons]
  exact Nat.lt_succ_of_le (List.length_filter_le ..)

/-- What a call of a run finds. -/
theorem Usage.answer {before rest : List Call} (hu : Usage w limit (before ++ c :: rest)) :
    c.windowMs = w c.key ∧ c.limit = limit c.key ∧ 1 ≤ c.limit ∧
      Windowed w limit c.now fun key => admissions key (ideal noAdmissions before) := by
  have hmem : c ∈ before ++ c :: rest := List.mem_append_right _ List.mem_cons_self
  refine ⟨hu.window c hmem, hu.limit c hmem, hu.positive c hmem, ?_⟩
  refine windowed_ideal (hu.sublist (List.sublist_append_left ..)) c.now fun c' hc' => ?_
  exact (List.pairwise_append.mp hu.clock).2.2 c' hc' c List.mem_cons_self

/-- A call is denied when its window is full. -/
theorem Windowed.denied_iff (h : Windowed w limit c.now log) (hw : c.windowMs = w c.key)
    (hlimit : c.limit = limit c.key) :
    (c.verdict (log c.key)).allowed = false ↔
      (after (c.now - c.width) (log c.key)).length = limit c.key := by
  have hle : (after (c.now - c.width) (log c.key)).length ≤ limit c.key := by
    rw [Call.width_eq hw]
    exact (h.capped c.key).after_length_le (h.sorted c.key) (h.le_now c.key)
  rw [← Bool.not_eq_true, verdict_allowed, hlimit]
  omega

/-- A denied call has a retry hint. -/
theorem exists_retry (hdenied : (c.verdict times).allowed = false) (hpositive : 1 ≤ c.limit) :
    ∃ r, (c.verdict times).retryAfterSeconds = some r := by
  have hlimit : c.limit ≤ (after (c.now - c.width) times).length := by
    rw [← not_lt, ← verdict_allowed, hdenied]
    exact Bool.false_ne_true
  obtain ⟨oldest, recent, hrecent⟩ :=
    List.exists_cons_of_length_pos
      (hpositive.trans hlimit : 0 < (after (c.now - c.width) times).length)
  rw [Call.verdict, Call.decideOn, if_pos hlimit, hrecent]
  exact ⟨_, rfl⟩

/-- **The sliding window**, of `w key` milliseconds. -/
theorem sliding_window {calls : List Call} (hu : Usage w limit calls) :
    (∀ (key : String) (start : ℚ), ((admissions key (answers calls)).filter fun t : ℤ =>
      start ≤ t ∧ t < start + w key).length ≤ limit key) ∧
    (∀ before c d rest, answers calls = before ++ (c, d) :: rest →
      (d.allowed = false ↔ ((admissions c.key before).filter fun t =>
        c.now - w c.key < t ∧ t ≤ c.now).length = limit c.key) ∧
      (d.allowed = false → answers ((before ++ rest).map Prod.fst) = before ++ rest) ∧
      (d.allowed = false → ∃ r, d.retryAfterSeconds = some r ∧
        ∀ between c' d' rest', rest = between ++ (c', d') :: rest' → c'.key = c.key →
          c'.now = c.now + 1000 * r → admissions c.key between = [] → d'.allowed = true)) ∧
    ∀ key, answers (calls.filter fun c => c.key = key) =
      (answers calls).filter fun answer => answer.1.key = key := by
  have hanswers : ∀ {cs : List Call}, cs.Sublist calls → answers cs = ideal noAdmissions cs :=
    fun hcs => answers_eq_ideal (hu.sublist hcs).clock (hu.sublist hcs).window
      (hu.sublist hcs).times
  refine ⟨fun key start => ?_, fun before c d rest hsplit => ?_, fun key => ?_⟩
  · obtain ⟨later, hlater⟩ := (calls.map Call.now).toFinset.bddAbove
    have hwindowed := windowed_ideal hu later fun c hc =>
      hlater (List.mem_toFinset.mpr (List.mem_map_of_mem hc))
    rw [hanswers (List.Sublist.refl calls)]
    exact (filter_interval_length_le ..).trans
      (inWindow_length_le (hwindowed.sorted key) (hwindowed.capped key) _)
  · rw [hanswers (List.Sublist.refl calls)] at hsplit
    obtain ⟨cs₁, cs₂, rfl, hbefore, hd, hrest⟩ := ideal_eq_append hsplit
    obtain ⟨hw, hlimit, hpositive, hwindowed⟩ := hu.answer
    rw [← hbefore] at hwindowed
    have hdenied_iff := hwindowed.denied_iff hw hlimit
    rw [show c.verdict (admissions c.key before) = d from hd.symm] at hdenied_iff
    refine ⟨?_, fun hdenied => ?_, fun hdenied => ?_⟩
    · have hfilter := filter_window_eq (hwindowed.le_now c.key)
      rw [Call.width_eq hw] at hfilter
      rw [hfilter, ← Call.width_eq hw]
      exact hdenied_iff
    · -- without the call the calls after it start from the same admissions
      rw [afterwards_denied hdenied] at hrest
      have hcalls : (before ++ rest).map Prod.fst = cs₁ ++ cs₂ := by
        rw [List.map_append, hbefore, map_fst_ideal, hrest, map_fst_ideal]
      have hsub : (cs₁ ++ cs₂).Sublist (cs₁ ++ c :: cs₂) :=
        (List.Sublist.refl cs₁).append (List.sublist_cons_self c cs₂)
      rw [hcalls, hanswers hsub, ideal_append, ← hbefore, ← hrest]
    · rw [afterwards_denied hdenied] at hrest
      have hdenied' := hdenied
      rw [hd] at hdenied'
      obtain ⟨r, hr⟩ := exists_retry hdenied' hpositive
      refine ⟨r, by rw [hd]; exact hr, fun between c' d' rest' hbetween hkey hnow hnone => ?_⟩
      obtain ⟨cs₃, cs₄, rfl, -, hd', -⟩ := ideal_eq_append (hrest.symm.trans hbetween)
      have hmem : c' ∈ cs₁ ++ c :: (cs₃ ++ c' :: cs₄) := by simp
      have htimes : afterwards (afterwards noAdmissions before) between c'.key =
          admissions c.key before := by
        rw [afterwards, hkey, hnone, List.append_nil]
        rfl
      have hw' : c'.width = c.width := by
        rw [Call.width_eq (hu.window c' hmem), Call.width_eq hw, hkey]
      rw [hd', htimes, verdict_allowed, hu.limit c' hmem, hkey, ← hdenied_iff.mp hdenied]
      exact length_after_retry (hwindowed.sorted c.key) hdenied' hr hw hw' hnow
        (hu.times c (List.mem_append_right _ List.mem_cons_self)) (hu.times c' hmem)
  · rw [hanswers List.filter_sublist, hanswers (List.Sublist.refl calls)]
    exact ideal_filter rfl

/-! ### The route -/

/-- How often a client may call. -/
structure RateLimits where
  rateIpLimit : ℕ
  rateIpWindowSeconds : ℚ

/-- The first step of `submitRoute`. -/
def RateLimits.ipCall (config : RateLimits) (ip : Option String) (now : ℤ) : Call where
  key := "ip:" ++ ip.getD "unknown"
  windowSeconds := config.rateIpWindowSeconds
  limit := config.rateIpLimit
  now

/-- A limiter that is always asked with one window and one limit. -/
theorem usage_of_forall {window : ℤ} {n : ℕ} (hn : 1 ≤ n)
    (hclock : cs.Pairwise fun c c' => c.now ≤ c'.now) (htimes : ∀ c ∈ cs, IsTime c.now)
    (hcs : ∀ c ∈ cs, c.windowMs = window ∧ c.limit = n) :
    Usage (fun _ => window) (fun _ => n) cs where
  clock := hclock
  times := htimes
  window c hc := (hcs c hc).1
  limit c hc := (hcs c hc).2
  positive c hc := hn.trans (hcs c hc).2.ge

/-- One call a minute. -/
def onceAMinute : RateLimits where
  rateIpLimit := 1
  rateIpWindowSeconds := 60

/-- Two clients. -/
def sampleCalls : List Call :=
  [onceAMinute.ipCall (some "10.0.0.1") 0, onceAMinute.ipCall (some "10.0.0.1") 500,
    onceAMinute.ipCall (some "10.0.0.2") 800, onceAMinute.ipCall (some "10.0.0.1") 60500]

/-- The second call is told to come back after sixty seconds. -/
theorem sliding_window_sample :
    (answers sampleCalls).map (fun answer => (answer.2.allowed, answer.2.retryAfterSeconds)) =
      [(true, none), (false, some 60), (true, none), (true, none)] ∧
    ∀ (key : String) (start : ℚ), ((admissions key (answers sampleCalls)).filter fun t : ℤ =>
      start ≤ t ∧ t < start + (60000 : ℤ)).length ≤ 1 := by
  have hu : Usage (fun _ => 60000) (fun _ => 1) sampleCalls :=
    usage_of_forall le_rfl (by decide) (by simp [sampleCalls, IsTime, RateLimits.ipCall])
      (by decide +kernel)
  exact ⟨by decide +kernel, (sliding_window hu).1⟩

/-- A second and a fraction that is a double. -/
def fractionalWindow : RateLimits where
  rateIpLimit := 1
  rateIpWindowSeconds := 1 + 1 / 2 ^ 23

/-- Two calls a second apart. -/
def secondApart : List Call :=
  [fractionalWindow.ipCall (some "10.0.0.1") 1763560000000,
    fractionalWindow.ipCall (some "10.0.0.1") 1763560001000]

/-- **A window with a fraction of a millisecond** is rounded off by the cutoff: two calls within it
are admitted where the limit is one. -/
theorem window_rounded_down :
    (∀ c ∈ secondApart, c.limit = 1 ∧ c.windowSeconds = 1 + 1 / 2 ^ 23 ∧ IsTime c.now) ∧
    (answers secondApart).map (fun answer => answer.2.allowed) = [true, true] ∧
    ∃ start : ℚ, ∀ c ∈ secondApart, start ≤ c.now ∧ c.now < start + (1 + 1 / 2 ^ 23) * 1000 := by
  refine ⟨?_, by decide +kernel, 1763560000000, ?_⟩
  · simp [secondApart, fractionalWindow, RateLimits.ipCall, IsTime]
  · norm_num [secondApart, RateLimits.ipCall]

end Qietr.Relayer.RateLimit
