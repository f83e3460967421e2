import Qietr.Library.RollingWindow
import Qietr.Library.Runs
import Qietr.Relayer.Validation

/-!
# Relayer — the spend guard

`policy/spend-guard.ts` and the last two steps of both routes: a request is checked against the
guard, forwarded, and counted once it has been sent.  A request runs alone from one `await` to the
next, and others run in between.

* `SpendGuard`: the guard; `checkCap` to `commit`: its parts between two `await`s.
* `Flight`, `Step`: the requests past the cap, and what each does next.
* `CapKept`: the cap on every window.
* `Crowded.exceeds`: a request let past the cap without room for those before it may break it.
* `spend_cap`: it holds where every request past the cap has had that room.
-/

namespace Qietr.Relayer.Spend

open RollingWindow

/-! ### The guard -/

structure SpendGuardConfig where
  /-- It refuses to forward when the fee payer's balance is below this. -/
  minBalanceLamports : ℕ
  maxPerWindow : ℕ
  windowSeconds : ℕ
  balanceCacheMs : Option ℕ

namespace SpendGuardConfig

variable (cfg : SpendGuardConfig)

def windowMs : ℤ :=
  cfg.windowSeconds * 1000

def cacheMs : ℤ :=
  cfg.balanceCacheMs.getD 5000

end SpendGuardConfig

structure SpendGuard where
  hits : List ℤ
  cachedBalance : ℤ
  cachedAt : ℤ

/-- `createSpendGuard`. -/
def createSpendGuard : SpendGuard where
  hits := []
  cachedBalance := 0
  cachedAt := 0

namespace SpendGuard

variable (cfg : SpendGuardConfig) (guard : SpendGuard)

/-- The window is trimmed. -/
def trim (now : ℤ) : SpendGuard :=
  { guard with hits := guard.hits.dropWhile fun t => t ≤ now - cfg.windowMs }

/-- The cached balance, while it is fresh. -/
def freshBalance (now : ℤ) : Option ℤ :=
  if now - guard.cachedAt < cfg.cacheMs then some guard.cachedBalance else none

/-- `check`, up to the `await` of the balance: a refusal, or the balance if it need not be
fetched. -/
def checkCap (now : ℤ) : SpendGuard × Except Decision (Option ℤ) :=
  let guard := guard.trim cfg now
  (guard,
    if cfg.maxPerWindow ≤ guard.hits.length then .error ⟨false, some "relayer_spend_cap"⟩
    else .ok (guard.freshBalance cfg now))

/-- `balance`, when `getBalance` has answered. -/
def gotBalance (now bal : ℤ) : SpendGuard :=
  { guard with cachedBalance := bal, cachedAt := now }

/-- `check`, after it. -/
def checkBalance (bal : ℤ) : Decision :=
  if bal < cfg.minBalanceLamports then ⟨false, some "relayer_balance_low"⟩ else ⟨true, none⟩

/-- What it decides when `getBalance` throws. -/
def balanceCheckFailed : Decision :=
  ⟨false, some "balance_check_failed"⟩

def commit (now : ℤ) : SpendGuard :=
  { guard with hits := guard.hits ++ [now] }

end SpendGuard

/-! ### Requests -/

/-- The route of a request. -/
inductive Route where
  | submit
  | submitDeposit
  deriving DecidableEq

/-- A request past the cap. -/
inductive Flight where
  /-- It waits for `getBalance`, since `now`. -/
  | fetching (route : Route) (now : ℤ)
  /-- It has the balance. -/
  | affording (route : Route) (bal : ℤ)
  /-- It waits for `sendTransaction`. -/
  | sending (route : Route)

/-- It can still be forwarded. -/
def Flight.Viable (cfg : SpendGuardConfig) : Flight → Prop
  | .fetching _ _ | .sending _ => True
  | .affording _ bal => cfg.minBalanceLamports ≤ bal

instance (cfg : SpendGuardConfig) : DecidablePred (Flight.Viable cfg)
  | .fetching _ _ | .sending _ => inferInstanceAs (Decidable True)
  | .affording _ bal => inferInstanceAs (Decidable ((cfg.minBalanceLamports : ℤ) ≤ bal))

/-- What a step of a request does. -/
inductive Event where
  /-- It passes the cap. -/
  | admitted (f : Flight)
  /-- It is answered with an error. -/
  | refused (code : ℕ) (error : String)
  /-- Its transaction has been forwarded. -/
  | forwarded (route : Route) (time : ℤ)
  | goesOn

/-- The clock, the guard and the requests past the cap. -/
structure Desk where
  now : ℤ
  guard : SpendGuard
  flights : Multiset Flight

/-- `reply.code(503)`. -/
def unavailable (decision : Decision) : Event :=
  .refused 503 (decision.reason.getD "relayer_unavailable")

/-- A request that has come to the spend guard is checked, or one goes on after its `await`. -/
inductive Step (cfg : SpendGuardConfig) : Desk → Event → Desk → Prop
  | capped {c : Desk} {now : ℤ} {guard : SpendGuard} {decision : Decision} (hle : c.now ≤ now)
      (h : c.guard.checkCap cfg now = (guard, .error decision)) :
      Step cfg c (unavailable decision) ⟨now, guard, c.flights⟩
  | admitted {c : Desk} {now : ℤ} {guard : SpendGuard} (route : Route) {bal : ℤ} (hle : c.now ≤ now)
      (h : c.guard.checkCap cfg now = (guard, .ok (some bal))) :
      Step cfg c (.admitted (.affording route bal)) ⟨now, guard, .affording route bal ::ₘ c.flights⟩
  | admittedFetch {c : Desk} {now : ℤ} {guard : SpendGuard} (route : Route) (hle : c.now ≤ now)
      (h : c.guard.checkCap cfg now = (guard, .ok none)) :
      Step cfg c (.admitted (.fetching route now)) ⟨now, guard, .fetching route now ::ₘ c.flights⟩
  | gotBalance {t now bal : ℤ} {guard : SpendGuard} {route : Route} {asked : ℤ}
      {flights : Multiset Flight} (hle : t ≤ now) :
      Step cfg ⟨t, guard, .fetching route asked ::ₘ flights⟩ .goesOn
        ⟨now, guard.gotBalance asked bal, .affording route bal ::ₘ flights⟩
  | balanceCheckFailed {t now : ℤ} {guard : SpendGuard} {route : Route} {asked : ℤ}
      {flights : Multiset Flight} (hle : t ≤ now) :
      Step cfg ⟨t, guard, .fetching route asked ::ₘ flights⟩
        (unavailable SpendGuard.balanceCheckFailed) ⟨now, guard, flights⟩
  | poor {t now bal : ℤ} {guard : SpendGuard} {route : Route} {flights : Multiset Flight}
      (hle : t ≤ now) (h : (SpendGuard.checkBalance cfg bal).allowed = false) :
      Step cfg ⟨t, guard, .affording route bal ::ₘ flights⟩
        (unavailable (SpendGuard.checkBalance cfg bal)) ⟨now, guard, flights⟩
  | sends {t now bal : ℤ} {guard : SpendGuard} {route : Route} {flights : Multiset Flight}
      (hle : t ≤ now) (h : (SpendGuard.checkBalance cfg bal).allowed = true) :
      Step cfg ⟨t, guard, .affording route bal ::ₘ flights⟩ .goesOn
        ⟨now, guard, .sending route ::ₘ flights⟩
  | sent {t now : ℤ} {guard : SpendGuard} {route : Route} {flights : Multiset Flight}
      (hle : t ≤ now) :
      Step cfg ⟨t, guard, .sending route ::ₘ flights⟩ (.forwarded route now)
        ⟨now, guard.commit now, flights⟩
  | sendFailed {t now : ℤ} {guard : SpendGuard} {route : Route} {flights : Multiset Flight}
      (hle : t ≤ now) (code : ℕ) (error : String) :
      Step cfg ⟨t, guard, .sending route ::ₘ flights⟩ (.refused code error) ⟨now, guard, flights⟩

/-- A new guard, and no requests. -/
def Opening (c : Desk) : Prop :=
  c.guard = createSpendGuard ∧ c.flights = 0

/-- When a transaction was forwarded. -/
def Event.forwarded? : Event → Option ℤ
  | .forwarded _ time => some time
  | _ => none

/-- When the relayer forwarded its transactions, in order. -/
def forwards (log : List Event) : List ℤ :=
  log.filterMap Event.forwarded?

/-- No window of the guard's length has more forwarded transactions than the cap. -/
def CapKept (cfg : SpendGuardConfig) (log : List Event) : Prop :=
  ∀ start, (inWindow start cfg.windowMs (forwards log)).length ≤ cfg.maxPerWindow

theorem forwards_append (log log' : List Event) :
    forwards (log ++ log') = forwards log ++ forwards log' :=
  List.filterMap_append ..

/-! ### The guard's window -/

/-- What the guard keeps of the log. -/
structure GuardInv (cfg : SpendGuardConfig) (log : List Event) (c : Desk) : Prop where
  sorted : (forwards log).Pairwise (· ≤ ·)
  le_now : ∀ t ∈ forwards log, t ≤ c.now
  /-- What has been trimmed is out of the window. -/
  trimmed : ∃ out, (∀ t ∈ out, t ≤ c.now - cfg.windowMs) ∧ forwards log = out ++ c.guard.hits

/-- The requests past the cap that can still be forwarded. -/
def Desk.viable (cfg : SpendGuardConfig) (c : Desk) : ℕ :=
  c.flights.countP (Flight.Viable cfg)

/-- It lets a request past the cap that can be forwarded. -/
def Event.Admits (cfg : SpendGuardConfig) : Event → Prop
  | .admitted f => f.Viable cfg
  | _ => False

instance (cfg : SpendGuardConfig) : DecidablePred (Event.Admits cfg)
  | .admitted f => inferInstanceAs (Decidable (f.Viable cfg))
  | .refused .. | .forwarded .. | .goesOn => inferInstanceAs (Decidable False)

section Steps

variable {cfg : SpendGuardConfig} {c c' : Desk} {e : Event} {log : List Event}

theorem checkBalance_allowed {bal : ℤ} :
    (SpendGuard.checkBalance cfg bal).allowed = true ↔ cfg.minBalanceLamports ≤ bal := by
  rw [SpendGuard.checkBalance]
  split_ifs with h
  · simpa using h
  · simpa using h

theorem checkCap_eq {guard guard' : SpendGuard} {now : ℤ} {d : Except Decision (Option ℤ)}
    (h : guard.checkCap cfg now = (guard', d)) : guard' = guard.trim cfg now :=
  (congrArg Prod.fst h).symm

theorem Step.time_le (h : Step cfg c e c') : c.now ≤ c'.now := by
  cases h <;> assumption

/-- The guard's window is kept, trimmed or, by a forwarded transaction, added to. -/
theorem Step.hits (h : Step cfg c e c') :
    (forwards [e] = [] ∧ (c'.guard.hits = c.guard.hits ∨
      c'.guard.hits = (c.guard.trim cfg c'.now).hits)) ∨
    (forwards [e] = [c'.now] ∧ c'.guard.hits = c.guard.hits ++ [c'.now]) := by
  cases h with
  | capped hle h => exact .inl ⟨rfl, .inr (by rw [checkCap_eq h])⟩
  | admitted route hle h => exact .inl ⟨rfl, .inr (by rw [checkCap_eq h])⟩
  | admittedFetch route hle h => exact .inl ⟨rfl, .inr (by rw [checkCap_eq h])⟩
  | gotBalance hle => exact .inl ⟨rfl, .inl rfl⟩
  | balanceCheckFailed hle => exact .inl ⟨rfl, .inl rfl⟩
  | poor hle h => exact .inl ⟨rfl, .inl rfl⟩
  | sends hle h => exact .inl ⟨rfl, .inl rfl⟩
  | sent hle => exact .inr ⟨rfl, rfl⟩
  | sendFailed hle code error => exact .inl ⟨rfl, .inl rfl⟩

/-- Only an admission lets one more request be forwarded, and to forward one uses it up. -/
theorem Step.viable (h : Step cfg c e c') :
    c'.viable cfg + (forwards [e]).length ≤ c.viable cfg + if e.Admits cfg then 1 else 0 := by
  cases h with
  | capped hle h => exact Nat.le_add_right ..
  | admitted route hle h => exact (Multiset.countP_cons ..).le
  | admittedFetch route hle h => exact (Multiset.countP_cons ..).le
  | @gotBalance t now bal guard route asked flights hle =>
      show (Flight.affording route bal ::ₘ flights).countP (Flight.Viable cfg) ≤
        (Flight.fetching route asked ::ₘ flights).countP (Flight.Viable cfg)
      have hcan : (Flight.fetching route asked).Viable cfg := trivial
      rw [Multiset.countP_cons, Multiset.countP_cons_of_pos _ hcan]
      refine Nat.add_le_add_left ?_ _
      split_ifs <;> simp
  | balanceCheckFailed hle => exact Multiset.countP_le_of_le _ (Multiset.le_cons_self ..)
  | poor hle h => exact Multiset.countP_le_of_le _ (Multiset.le_cons_self ..)
  | @sends t now bal guard route flights hle h =>
      have hrich : (Flight.affording route bal).Viable cfg := checkBalance_allowed.mp h
      show (Flight.sending route ::ₘ flights).countP (Flight.Viable cfg) ≤
        (Flight.affording route bal ::ₘ flights).countP (Flight.Viable cfg)
      have hcan : (Flight.sending route).Viable cfg := trivial
      rw [Multiset.countP_cons_of_pos _ hrich, Multiset.countP_cons_of_pos _ hcan]
  | sent hle => exact (Multiset.countP_cons_of_pos _ trivial).ge
  | sendFailed hle code error => exact Multiset.countP_le_of_le _ (Multiset.le_cons_self ..)

/-! ### The invariant -/

/-- The guard's window is that of the log. -/
theorem GuardInv.after_hits (h : GuardInv cfg log c) {now : ℤ} (hle : c.now ≤ now) :
    after (now - cfg.windowMs) c.guard.hits = after (now - cfg.windowMs) (forwards log) := by
  obtain ⟨out, hout, hlog⟩ := h.trimmed
  have hnil : after (now - cfg.windowMs) out = [] :=
    after_eq_nil fun t ht => by
      have := hout t ht
      omega
  rw [hlog, after_append, hnil, List.nil_append]

theorem GuardInv.opening (h : Opening c) : GuardInv cfg [] c where
  sorted := List.Pairwise.nil
  le_now := fun _ ht => absurd ht List.not_mem_nil
  trimmed := ⟨[], fun _ ht => absurd ht List.not_mem_nil, by rw [h.1]; rfl⟩

theorem GuardInv.step (h : GuardInv cfg log c) (hs : Step cfg c e c') :
    GuardInv cfg (log ++ [e]) c' := by
  obtain ⟨out, hout, hlog⟩ := h.trimmed
  have htime := hs.time_le
  have hout' : ∀ t ∈ out, t ≤ c'.now - cfg.windowMs := fun t ht => by
    have := hout t ht
    omega
  have hbefore : ∀ t ∈ forwards log, t ≤ c'.now := fun t ht => (h.le_now t ht).trans htime
  rcases hs.hits with ⟨hf, hh⟩ | ⟨hf, hh⟩
  · have hkept : forwards (log ++ [e]) = forwards log := by
      rw [forwards_append, hf, List.append_nil]
    refine ⟨hkept ▸ h.sorted, hkept ▸ hbefore, ?_⟩
    rw [hkept]
    rcases hh with hh | hh
    · exact ⟨out, hout', by rw [hh, hlog]⟩
    · refine ⟨out ++ c.guard.hits.takeWhile fun t => t ≤ c'.now - cfg.windowMs, ?_, ?_⟩
      · intro t ht
        rcases List.mem_append.mp ht with ht | ht
        · exact hout' t ht
        · exact of_decide_eq_true (List.all_eq_true.mp List.all_takeWhile t ht)
      · rw [hh, hlog, List.append_assoc, SpendGuard.trim, List.takeWhile_append_dropWhile]
  · have hmore : forwards (log ++ [e]) = forwards log ++ [c'.now] := by
      rw [forwards_append, hf]
    refine ⟨?_, ?_, out, hout', ?_⟩
    · rw [hmore]
      refine List.pairwise_append.mpr ⟨h.sorted, List.pairwise_singleton .., ?_⟩
      intro t ht u hu
      rw [List.mem_singleton.mp hu]
      exact hbefore t ht
    · rw [hmore]
      intro t ht
      rcases List.mem_append.mp ht with ht | ht
      · exact hbefore t ht
      · exact (List.mem_singleton.mp ht).le
    · rw [hmore, hh, hlog, List.append_assoc]

theorem GuardInv.of_run (h : Run Opening (Step cfg) log c) : GuardInv cfg log c :=
  h.invariant (GuardInv cfg) (fun _ => .opening) fun _ _ _ _ _ hi hs => hi.step hs

/-- What the guard sees as the window is the window. -/
theorem GuardInv.trim (h : GuardInv cfg log c) {now : ℤ} (hle : c.now ≤ now) :
    (c.guard.trim cfg now).hits = after (now - cfg.windowMs) (forwards log) := by
  obtain ⟨out, -, hlog⟩ := h.trimmed
  have hsorted : c.guard.hits.Pairwise (· ≤ ·) :=
    (List.pairwise_append.mp (hlog ▸ h.sorted)).2.1
  rw [← h.after_hits hle, ← dropWhile_eq_after hsorted]
  rfl

/-! ### The cap -/

/-- A request passes the cap only where the window has room for it and for every request past the
cap that can still be forwarded. -/
def Uncrowded (cfg : SpendGuardConfig) (c : Desk) (e : Event) (c' : Desk) : Prop :=
  e.Admits cfg → (c.guard.trim cfg c'.now).hits.length + c.viable cfg < cfg.maxPerWindow

/-- The cap, kept by the requests past it as well. -/
structure CapInv (cfg : SpendGuardConfig) (log : List Event) (c : Desk) : Prop where
  room : (after (c.now - cfg.windowMs) (forwards log)).length + c.viable cfg ≤ cfg.maxPerWindow
  capped : ∀ before t rest, forwards log = before ++ t :: rest →
    (after (t - cfg.windowMs) (before ++ [t])).length ≤ cfg.maxPerWindow

theorem CapInv.opening (h : Opening c) : CapInv cfg [] c where
  room := by
    rw [Desk.viable, h.2]
    exact Nat.zero_le _
  capped := fun _ _ _ h => absurd h (by simp [forwards])

theorem CapInv.step (hg : GuardInv cfg log c) (h : CapInv cfg log c) (hs : Step cfg c e c')
    (hcalm : Uncrowded cfg c e c') : CapInv cfg (log ++ [e]) c' := by
  have htime := hs.time_le
  have hmono : (after (c'.now - cfg.windowMs) (forwards log)).length ≤
      (after (c.now - cfg.windowMs) (forwards log)).length := after_length_le (by omega)
  -- room for the requests of `c'` and for the one that `e` may have forwarded
  have hroom : (after (c'.now - cfg.windowMs) (forwards log)).length + c'.viable cfg +
      (forwards [e]).length ≤ cfg.maxPerWindow := by
    have hviable := hs.viable
    have hold := h.room
    by_cases ha : e.Admits cfg
    · rw [if_pos ha] at hviable
      have hnew := hcalm ha
      rw [hg.trim htime] at hnew
      omega
    · rw [if_neg ha] at hviable
      omega
  have hafter : (after (c'.now - cfg.windowMs) (forwards (log ++ [e]))).length ≤
      (after (c'.now - cfg.windowMs) (forwards log)).length + (forwards [e]).length := by
    rw [forwards_append, after_append, List.length_append]
    exact Nat.add_le_add_left (List.length_filter_le ..) _
  refine ⟨by omega, fun before t rest hlog => ?_⟩
  rw [forwards_append] at hlog
  rcases hs.hits with ⟨hf, -⟩ | ⟨hf, -⟩
  · rw [hf, List.append_nil] at hlog
    exact h.capped before t rest hlog
  · rcases List.eq_nil_or_concat rest with rfl | ⟨rest, u, rfl⟩
    · rw [hf] at hlog
      obtain ⟨rfl, hlast⟩ := List.append_inj' hlog rfl
      cases hlast
      rw [hf] at hroom
      rw [forwards_append, hf] at hafter
      omega
    · rw [hf, List.concat_eq_append, ← List.cons_append, ← List.append_assoc] at hlog
      exact h.capped before t rest (List.append_inj' hlog rfl).1

end Steps

/-! ### Crowds -/

section Crowds

variable {cfg : SpendGuardConfig} {c c' : Desk} {e : Event} {log : List Event}

theorem Step.viable_admitted (h : Step cfg c e c') (ha : e.Admits cfg) :
    c'.viable cfg = c.viable cfg + 1 := by
  cases h with
  | admitted route hle h => exact Multiset.countP_cons_of_pos _ ha
  | admittedFetch route hle h => exact Multiset.countP_cons_of_pos _ ha
  | capped hle h => exact ha.elim
  | gotBalance hle => exact ha.elim
  | balanceCheckFailed hle => exact ha.elim
  | poor hle h => exact ha.elim
  | sends hle h => exact ha.elim
  | sent hle => exact ha.elim
  | sendFailed hle code error => exact ha.elim

/-- A request past the cap is forwarded if it can be, at once. -/
theorem sends_one {now : ℤ} {f : Flight} {flights : Multiset Flight} {guard : SpendGuard}
    (h : Run Opening (Step cfg) log ⟨now, guard, f ::ₘ flights⟩) :
    ∃ log' guard', Run Opening (Step cfg) (log ++ log') ⟨now, guard', flights⟩ ∧
      forwards log' = if f.Viable cfg then [now] else [] := by
  have hsends : ∀ {log : List Event} {route : Route} {bal : ℤ} {guard : SpendGuard},
      cfg.minBalanceLamports ≤ bal →
      Run Opening (Step cfg) log ⟨now, guard, .affording route bal ::ₘ flights⟩ →
      Run Opening (Step cfg) (log ++ [.goesOn] ++ [.forwarded route now])
        ⟨now, guard.commit now, flights⟩ := fun hbal h =>
    .snoc (.snoc h (.sends le_rfl (checkBalance_allowed.mpr hbal))) (.sent le_rfl)
  cases f with
  | fetching route asked =>
      have hgot : Step cfg ⟨now, guard, .fetching route asked ::ₘ flights⟩ .goesOn ⟨now,
          guard.gotBalance asked cfg.minBalanceLamports,
          .affording route cfg.minBalanceLamports ::ₘ flights⟩ := .gotBalance le_rfl
      have hrun := hsends le_rfl (h.snoc hgot)
      exact ⟨[.goesOn, .goesOn, .forwarded route now], _, by simpa using hrun, rfl⟩
  | affording route bal =>
      by_cases hbal : (Flight.affording route bal).Viable cfg
      · rw [if_pos hbal]
        have hrun := hsends hbal h
        exact ⟨[.goesOn, .forwarded route now], _, by simpa using hrun, rfl⟩
      · rw [if_neg hbal]
        have hpoor := mt checkBalance_allowed.mp hbal
        exact ⟨[unavailable (SpendGuard.checkBalance cfg bal)], _,
          h.snoc (.poor le_rfl (Bool.eq_false_iff.mpr hpoor)), rfl⟩
  | sending route => exact ⟨[.forwarded route now], _, h.snoc (.sent le_rfl), rfl⟩

theorem sends_all {now : ℤ} (flights : Multiset Flight) {guard : SpendGuard} {log : List Event}
    (h : Run Opening (Step cfg) log ⟨now, guard, flights⟩) :
    ∃ log' c', Run Opening (Step cfg) (log ++ log') c' ∧
      forwards log' = List.replicate (flights.countP (Flight.Viable cfg)) now := by
  induction flights using Multiset.induction generalizing guard log with
  | empty => exact ⟨[], _, by rwa [List.append_nil], rfl⟩
  | cons f flights ih =>
      obtain ⟨log', guard', hrun, hf⟩ := sends_one h
      obtain ⟨log'', c', hrun', hf'⟩ := ih hrun
      refine ⟨log' ++ log'', c', by rwa [← List.append_assoc], ?_⟩
      rw [forwards_append, hf, hf', Multiset.countP_cons]
      split_ifs
      · rw [List.replicate_succ, List.singleton_append]
      · rfl

/-- **A crowd can exceed the cap**: once a request passes it where the window has no room for it
and for those before it, it and they may all be forwarded in one window. -/
theorem Crowded.exceeds (hwindow : 0 < cfg.windowSeconds) (h : Run Opening (Step cfg) log c)
    (hs : Step cfg c e c') (hcrowd : ¬ Uncrowded cfg c e c') :
    ∃ log' c'', Run Opening (Step cfg) (log ++ [e] ++ log') c'' ∧
      ¬ CapKept cfg (log ++ [e] ++ log') := by
  obtain ⟨hadmits, hfull⟩ := Classical.not_imp.mp hcrowd
  have hguard := GuardInv.of_run h
  have hguard' := hguard.step hs
  obtain ⟨log', c'', hrun, hf⟩ := sends_all _ (h.snoc hs)
  have hf : forwards log' = List.replicate (c.viable cfg + 1) c'.now := by
    rw [hf, ← hs.viable_admitted hadmits, Desk.viable]
  refine ⟨log', c'', hrun, fun hkept => ?_⟩
  have hnow : ∀ t ∈ forwards (log ++ [e] ++ log'), t ≤ c'.now := by
    intro t ht
    rw [forwards_append, hf] at ht
    rcases List.mem_append.mp ht with ht | ht
    · exact hguard'.le_now t ht
    · exact (List.eq_of_mem_replicate ht).le
  -- the window that ends now has those of the window before, and every request past the cap
  have hcount := hkept (c'.now - cfg.windowMs + 1)
  have hnew : after (c'.now - cfg.windowMs) (List.replicate (c.viable cfg + 1) c'.now) =
      List.replicate (c.viable cfg + 1) c'.now := by
    refine List.filter_eq_self.mpr fun t ht => ?_
    rw [List.eq_of_mem_replicate ht, SpendGuardConfig.windowMs]
    exact decide_eq_true (by omega)
  rw [inWindow_eq_after hnow, forwards_append, forwards_append, hf, after_append, after_append,
    hnew, List.length_append, List.length_append, List.length_replicate] at hcount
  rw [hguard.trim hs.time_le] at hfull
  omega

end Crowds

/-! ### The theorem -/

/-- **The spend cap.**  It holds in every run in which requests pass the cap where the window has
room for them. -/
theorem spend_cap (cfg : SpendGuardConfig) {log : List Event} {c : Desk}
    (h : Run Opening (fun c e c' => Step cfg c e c' ∧ Uncrowded cfg c e c') log c) :
    CapKept cfg log := by
  have hinv : GuardInv cfg log c ∧ CapInv cfg log c := by
    refine h.invariant (fun log c => GuardInv cfg log c ∧ CapInv cfg log c) ?_ ?_
    · intro c hc
      exact ⟨.opening hc, .opening hc⟩
    · rintro log c e c' - ⟨hg, hc⟩ ⟨hs, hcalm⟩
      exact ⟨hg.step hs, hc.step hg hs hcalm⟩
  exact inWindow_length_le hinv.1.sorted hinv.2.capped

/-- The guard of the samples: one transaction a minute. -/
def sampleSpendConfig : SpendGuardConfig where
  minBalanceLamports := 100
  maxPerWindow := 1
  windowSeconds := 60
  balanceCacheMs := none

/-- A request that comes when the guard is new. -/
theorem sample_admitted : Step sampleSpendConfig ⟨0, createSpendGuard, 0⟩
    (.admitted (.fetching .submit 10000))
    ⟨10000, createSpendGuard, .fetching .submit 10000 ::ₘ 0⟩ :=
  .admittedFetch .submit (by decide) rfl

theorem sample_opening : Opening ⟨0, createSpendGuard, 0⟩ :=
  ⟨rfl, rfl⟩

/-- One request at a time, and the second is refused. -/
theorem spend_cap_one_by_one :
    CapKept sampleSpendConfig [.admitted (.fetching .submit 10000), .goesOn, .goesOn,
      .forwarded .submit 10400, .refused 503 "relayer_spend_cap"] := by
  have hgot : Step sampleSpendConfig ⟨10000, createSpendGuard, .fetching .submit 10000 ::ₘ 0⟩
      .goesOn ⟨10200, ⟨[], 500, 10000⟩, .affording .submit 500 ::ₘ 0⟩ := .gotBalance (by decide)
  have hsends : Step sampleSpendConfig ⟨10200, ⟨[], 500, 10000⟩, .affording .submit 500 ::ₘ 0⟩
      .goesOn ⟨10300, ⟨[], 500, 10000⟩, .sending .submit ::ₘ 0⟩ := .sends (by decide) rfl
  have hsent : Step sampleSpendConfig ⟨10300, ⟨[], 500, 10000⟩, .sending .submit ::ₘ 0⟩
      (.forwarded .submit 10400) ⟨10400, ⟨[10400], 500, 10000⟩, 0⟩ := .sent (by decide)
  have hfull : SpendGuard.checkCap sampleSpendConfig ⟨[10400], 500, 10000⟩ 20000 =
      (⟨[10400], 500, 10000⟩, .error ⟨false, some "relayer_spend_cap"⟩) := by
    norm_num [SpendGuard.checkCap, SpendGuard.trim, sampleSpendConfig, SpendGuardConfig.windowMs]
  have hcapped := Step.capped (c := ⟨10400, ⟨[10400], 500, 10000⟩, 0⟩) (by decide) hfull
  exact spend_cap sampleSpendConfig <|
    .snoc (.snoc (.snoc (.snoc (.snoc (.start sample_opening)
      ⟨sample_admitted, fun _ => Nat.zero_lt_one⟩) ⟨hgot, False.elim⟩) ⟨hsends, False.elim⟩)
      ⟨hsent, False.elim⟩) ⟨hcapped, False.elim⟩

/-- Two requests at a time, and both may be forwarded. -/
theorem spend_cap_exceeded :
    ¬ ∀ (cfg : SpendGuardConfig) (log : List Event) (c : Desk),
      Run Opening (Step cfg) log c → CapKept cfg log := by
  intro h
  have hsecond : Step sampleSpendConfig
      ⟨10000, createSpendGuard, .fetching .submit 10000 ::ₘ 0⟩
      (.admitted (.fetching .submitDeposit 10000))
      ⟨10000, createSpendGuard, .fetching .submitDeposit 10000 ::ₘ .fetching .submit 10000 ::ₘ 0⟩ :=
    .admittedFetch .submitDeposit le_rfl rfl
  obtain ⟨log, c, hrun, hexceeds⟩ := Crowded.exceeds (by decide)
    (.snoc (.start sample_opening) sample_admitted) hsecond
    (fun h => absurd (h trivial) (by decide))
  exact hexceeds (h _ _ _ hrun)

end Qietr.Relayer.Spend
