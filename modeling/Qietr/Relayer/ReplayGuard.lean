import Mathlib.Data.List.AList
import Qietr.Library.Base64
import Qietr.Library.Runs

/-!
# Relayer — the replay guard

`policy/replay-guard.ts`, and the steps of both routes up to it.  The guard knows a transaction by
the hash of its text in UTF-8; the validator and the sender read the bytes that the text decodes to.
A text is any text of JavaScript: in one that came as JSON a surrogate may stand alone.

* `admits`: the guard; `admits_passes`, `mem_lookup_admits`: what it says and what it remembers.
* `receive`, `Step`: a submission, and the guard over many.
* `GuardInv`: the hashes it knows are those that have passed.
* `Guards`: what the guard is for; `replay_guard_iff`: when it does that.
* `replay_guard_passed_twice`: a transaction that passes twice, and one that is taken for another.
-/

namespace Qietr.Relayer.Replay

/-! ### The guard -/

/-- When a hash was last let pass. -/
abbrev Seen :=
  AList fun _ : String => ℤ

def createReplayGuard : Seen :=
  ∅

variable (sha256 : List UInt8 → String) (ttlSeconds : ℤ)

def ttlMs : ℤ :=
  ttlSeconds * 1000

def sweep (seen : Seen) (now : ℤ) : Seen where
  entries := seen.entries.filter fun e => now < e.2 + ttlMs ttlSeconds
  nodupKeys := seen.nodupKeys.sublist List.filter_sublist

/-- Amortized cleanup. -/
def cleanup (seen : Seen) (now : ℤ) : Seen :=
  if 0 < seen.entries.length ∧ seen.entries.length % 64 = 0 then sweep ttlSeconds seen now else seen

/-- `createHash("sha256").update(txBase64)`. -/
def hashOf (txBase64 : Utf16.Text) : String :=
  sha256 (Utf16.utf8 txBase64)

def admits (seen : Seen) (now : ℤ) (txBase64 : Utf16.Text) : Bool × Seen :=
  let seen := cleanup ttlSeconds seen now
  let hash := hashOf sha256 txBase64
  if ∃ prev ∈ seen.lookup hash, now < prev + ttlMs ttlSeconds then (false, seen)
  else (true, seen.insert hash now)

section Admit

variable {sha256 : List UInt8 → String} {ttlSeconds : ℤ} {seen : Seen} {now t : ℤ} {hash : String}
  {text : Utf16.Text}

/-- A cleanup takes only what is no longer needed. -/
theorem mem_lookup_cleanup (ht : now < t + ttlMs ttlSeconds) :
    t ∈ (cleanup ttlSeconds seen now).lookup hash ↔ t ∈ seen.lookup hash := by
  rw [cleanup]
  split_ifs
  · rw [AList.mem_lookup_iff, AList.mem_lookup_iff, sweep, List.mem_filter]
    exact and_iff_left (decide_eq_true ht)
  · exact Iff.rfl

theorem admits_passes :
    (admits sha256 ttlSeconds seen now text).1 = true ↔
      ∀ prev ∈ seen.lookup (hashOf sha256 text), prev + ttlMs ttlSeconds ≤ now := by
  rw [admits]
  by_cases h : ∃ prev ∈ (cleanup ttlSeconds seen now).lookup (hashOf sha256 text),
      now < prev + ttlMs ttlSeconds
  · rw [if_pos h]
    obtain ⟨prev, hprev, hlt⟩ := h
    refine ⟨fun h => absurd h Bool.false_ne_true, fun h => ?_⟩
    exact absurd (h prev ((mem_lookup_cleanup hlt).mp hprev)) (not_le.mpr hlt)
  · rw [if_neg h]
    refine ⟨fun _ prev hprev => ?_, fun _ => rfl⟩
    by_contra hlt
    have hlt' := not_le.mp hlt
    exact h ⟨prev, (mem_lookup_cleanup hlt').mpr hprev, hlt'⟩

/-- What it remembers, of what is still needed. -/
theorem mem_lookup_admits (ht : now < t + ttlMs ttlSeconds) :
    t ∈ (admits sha256 ttlSeconds seen now text).2.lookup hash ↔
      if (admits sha256 ttlSeconds seen now text).1 = true ∧ hash = hashOf sha256 text then t = now
      else t ∈ seen.lookup hash := by
  rw [admits]
  by_cases h : ∃ prev ∈ (cleanup ttlSeconds seen now).lookup (hashOf sha256 text),
      now < prev + ttlMs ttlSeconds
  · rw [if_pos h, if_neg fun hpass => Bool.false_ne_true hpass.1]
    exact mem_lookup_cleanup ht
  · rw [if_neg h]
    by_cases hhash : hash = hashOf sha256 text
    · rw [if_pos ⟨rfl, hhash⟩, hhash, AList.lookup_insert, Option.mem_some_iff, eq_comm]
    · rw [if_neg fun hpass => hhash hpass.2, AList.lookup_insert_ne hhash]
      exact mem_lookup_cleanup ht

end Admit

/-! ### Submissions -/

/-- How far a submission comes. -/
inductive Verdict where
  | rateLimited
  | missingParam
  | replayedTx
  | passed
  deriving DecidableEq

structure Submission where
  time : ℤ
  ipAllowed : Bool
  txBase64 : Utf16.Text

/-- The first steps of `submitRoute` and `submitDepositRoute`. -/
def receive (seen : Seen) (s : Submission) : Verdict × Seen :=
  if s.ipAllowed = false then (.rateLimited, seen)
  else if s.txBase64 = [] then (.missingParam, seen)
  else
    let (admitted, seen) := admits sha256 ttlSeconds seen s.time s.txBase64
    (if admitted then .passed else .replayedTx, seen)

/-- The clock and the guard. -/
structure Desk where
  now : ℤ
  seen : Seen

/-- A submission and its verdict. -/
structure Attempt extends Submission where
  verdict : Verdict

def Opening (c : Desk) : Prop :=
  c.seen = createReplayGuard

inductive Step : Desk → Attempt → Desk → Prop
  | submit {c : Desk} {s : Submission} {verdict : Verdict} {seen : Seen} (hle : c.now ≤ s.time)
      (h : receive sha256 ttlSeconds c.seen s = (verdict, seen)) :
      Step c { s with verdict } ⟨s.time, seen⟩

/-- What the guard is for.  `bytes` are what the validator and the sender read. -/
structure Guards {β : Type} (bytes : Utf16.Text → β) (ttlMs : ℤ) (log : List Attempt) : Prop where
  /-- A transaction passes once within the window. -/
  once : ∀ before b rest, log = before ++ b :: rest → ∀ a ∈ before,
    bytes a.txBase64 = bytes b.txBase64 → b.time < a.time + ttlMs →
      ¬ (a.verdict = .passed ∧ b.verdict = .passed)
  /-- What is rejected has passed within the window. -/
  only : ∀ before b rest, log = before ++ b :: rest → b.verdict = .replayedTx →
    ∃ a ∈ before, a.verdict = .passed ∧ bytes a.txBase64 = bytes b.txBase64 ∧
      b.time < a.time + ttlMs

/-! ### What the guard knows -/

section Invariant

variable {sha256 : List UInt8 → String} {ttlSeconds : ℤ} {c c' : Desk} {a : Attempt}
  {log : List Attempt}

/-- What a submission does to the guard. -/
structure Received (sha256 : List UInt8 → String) (ttlSeconds : ℤ) (c : Desk) (a : Attempt)
    (c' : Desk) : Prop where
  le : c.now ≤ a.time
  now_eq : c'.now = a.time
  param : a.verdict = .passed ∨ a.verdict = .replayedTx → a.txBase64 ≠ []
  passed : a.verdict = .passed →
    ∀ t ∈ c.seen.lookup (hashOf sha256 a.txBase64), t + ttlMs ttlSeconds ≤ a.time
  replayed : a.verdict = .replayedTx →
    ∃ t ∈ c.seen.lookup (hashOf sha256 a.txBase64), a.time < t + ttlMs ttlSeconds
  mem_lookup : ∀ hash t, a.time < t + ttlMs ttlSeconds → (t ∈ c'.seen.lookup hash ↔
    if a.verdict = .passed ∧ hash = hashOf sha256 a.txBase64 then t = a.time
    else t ∈ c.seen.lookup hash)

theorem Step.received (h : Step sha256 ttlSeconds c a c') : Received sha256 ttlSeconds c a c' := by
  obtain @⟨s, verdict, seen, hle, h⟩ := h
  have hstays : verdict = .rateLimited ∨ verdict = .missingParam → seen = c.seen →
      Received sha256 ttlSeconds c { s with verdict } ⟨s.time, seen⟩ := by
    rintro (rfl | rfl) rfl
    · exact ⟨hle, rfl, nofun, nofun, nofun, fun _ _ _ => by rw [if_neg fun h => nomatch h.1]⟩
    · exact ⟨hle, rfl, nofun, nofun, nofun, fun _ _ _ => by rw [if_neg fun h => nomatch h.1]⟩
  rw [receive] at h
  by_cases hip : s.ipAllowed = false
  · rw [if_pos hip] at h
    cases h
    exact hstays (.inl rfl) rfl
  · by_cases hparam : s.txBase64 = []
    · rw [if_neg hip, if_pos hparam] at h
      cases h
      exact hstays (.inr rfl) rfl
    · rw [if_neg hip, if_neg hparam] at h
      obtain ⟨hverdict, rfl⟩ := Prod.mk.inj h
      have hpass : verdict = .passed ↔
          (admits sha256 ttlSeconds c.seen s.time s.txBase64).1 = true := by
        rw [← hverdict]
        split_ifs with h
        · exact iff_of_true rfl h
        · exact iff_of_false nofun h
      refine ⟨hle, rfl, fun _ => hparam, fun h => admits_passes.mp (hpass.mp h), fun h => ?_,
        fun hash t ht => ?_⟩
      · have hfail : ¬ (admits sha256 ttlSeconds c.seen s.time s.txBase64).1 = true := by
          rw [← hpass, show verdict = .replayedTx from h]
          exact nofun
        rw [admits_passes] at hfail
        push Not at hfail
        exact hfail
      · simp only [hpass]
        exact mem_lookup_admits ht

/-- The hashes that the guard knows are those that have passed in the window. -/
structure GuardInv (sha256 : List UInt8 → String) (ttlSeconds : ℤ) (log : List Attempt) (c : Desk) :
    Prop where
  le_now : ∀ a ∈ log, a.time ≤ c.now
  mem_lookup : ∀ hash t, c.now < t + ttlMs ttlSeconds → (t ∈ c.seen.lookup hash ↔
    ∃ a ∈ log, a.verdict = .passed ∧ hashOf sha256 a.txBase64 = hash ∧ a.time = t)

theorem GuardInv.opening (h : Opening c) : GuardInv sha256 ttlSeconds [] c where
  le_now := fun _ ha => absurd ha List.not_mem_nil
  mem_lookup := fun hash t _ => by
    rw [h, createReplayGuard, AList.lookup_empty]
    refine ⟨nofun, ?_⟩
    rintro ⟨a, ha, -⟩
    exact absurd ha List.not_mem_nil

theorem GuardInv.step (h : GuardInv sha256 ttlSeconds log c) (hs : Step sha256 ttlSeconds c a c') :
    GuardInv sha256 ttlSeconds (log ++ [a]) c' := by
  obtain ⟨hle, hnow, -, hpassed, -, hlookup⟩ := hs.received
  refine ⟨fun b hb => ?_, fun hash t ht => ?_⟩
  · rw [hnow]
    rcases List.mem_append.mp hb with hb | hb
    · exact (h.le_now b hb).trans hle
    · rw [List.mem_singleton.mp hb]
  rw [hnow] at ht
  have hold := h.mem_lookup hash t (hle.trans_lt ht)
  rw [hlookup hash t ht]
  split_ifs with hnew
  · refine ⟨fun heq => ⟨a, by simp, hnew.1, hnew.2.symm, heq.symm⟩, ?_⟩
    rintro ⟨b, hb, hbp, hbh, hbt⟩
    rcases List.mem_append.mp hb with hb | hb
    · -- `b` would have kept `a` from passing
      have hknown := hold.mpr ⟨b, hb, hbp, hbh, hbt⟩
      exact absurd (hpassed hnew.1 t (hnew.2 ▸ hknown)) (not_le.mpr ht)
    · rw [← hbt, List.mem_singleton.mp hb]
  · rw [hold]
    refine ⟨?_, ?_⟩
    · rintro ⟨b, hb, hbs⟩
      exact ⟨b, List.mem_append_left _ hb, hbs⟩
    · rintro ⟨b, hb, hbp, hbh, hbt⟩
      rcases List.mem_append.mp hb with hb | hb
      · exact ⟨b, hb, hbp, hbh, hbt⟩
      · rw [List.mem_singleton.mp hb] at hbp hbh
        exact absurd ⟨hbp, hbh.symm⟩ hnew

theorem GuardInv.of_run (h : Run Opening (Step sha256 ttlSeconds) log c) :
    GuardInv sha256 ttlSeconds log c :=
  h.invariant (GuardInv sha256 ttlSeconds) (fun _ => .opening) fun _ _ _ _ _ hi hs => hi.step hs

theorem ne_empty_of_passed (h : Run Opening (Step sha256 ttlSeconds) log c) (ha : a ∈ log)
    (hp : a.verdict = .passed) : a.txBase64 ≠ [] := by
  obtain ⟨before, rest, rfl⟩ := List.append_of_mem ha
  obtain ⟨c₁, c₂, -, hs⟩ := h.step_of_log
  exact hs.received.param (Or.inl hp)

theorem ne_empty_of_replayed (h : Run Opening (Step sha256 ttlSeconds) log c) (ha : a ∈ log)
    (hr : a.verdict = .replayedTx) : a.txBase64 ≠ [] := by
  obtain ⟨before, rest, rfl⟩ := List.append_of_mem ha
  obtain ⟨c₁, c₂, -, hs⟩ := h.step_of_log
  exact hs.received.param (Or.inr hr)

/-- **By the hash**, the guard does what it is for. -/
theorem guards_hash (h : Run Opening (Step sha256 ttlSeconds) log c) :
    Guards (hashOf sha256) (ttlMs ttlSeconds) log := by
  refine ⟨fun before b rest hlog a ha hbytes hlt hpassed => ?_, fun before b rest hlog hb => ?_⟩
  · obtain ⟨c₁, c₂, hrun, hs⟩ := (hlog ▸ h).step_of_log
    have hinv := GuardInv.of_run hrun
    have hs := hs.received
    have hknown := (hinv.mem_lookup _ a.time (hs.le.trans_lt hlt)).mpr
      ⟨a, ha, hpassed.1, hbytes, rfl⟩
    exact absurd (hs.passed hpassed.2 a.time hknown) (not_le.mpr hlt)
  · obtain ⟨c₁, c₂, hrun, hs⟩ := (hlog ▸ h).step_of_log
    have hinv := GuardInv.of_run hrun
    have hs := hs.received
    obtain ⟨t, ht, hlt⟩ := hs.replayed hb
    obtain ⟨a, ha, hap, hah, rfl⟩ := (hinv.mem_lookup _ t (hs.le.trans_lt hlt)).mp ht
    exact ⟨a, ha, hap, hah, hlt⟩

end Invariant

/-! ### By the bytes -/

/-- The verdict on a text at the time `now`. -/
theorem receive_eq {sha256 : List UInt8 → String} {ttlSeconds now : ℤ} {seen : Seen}
    {z : Utf16.Text} (hz : z ≠ []) :
    receive sha256 ttlSeconds seen ⟨now, true, z⟩ =
      (if (admits sha256 ttlSeconds seen now z).1 then .passed else .replayedTx,
        (admits sha256 ttlSeconds seen now z).2) := by
  rw [receive, if_neg (show ¬ true = false from nofun), if_neg hz]

theorem not_mem_lookup_createReplayGuard {hash : String} {t : ℤ} :
    t ∉ createReplayGuard.lookup hash := by
  rw [createReplayGuard, AList.lookup_empty]
  exact nofun

/-- **Two texts at once**: both pass, if their hashes differ, and else the second is a replay of the
first. -/
theorem exists_two (sha256 : List UInt8 → String) {ttlSeconds : ℤ} (httl : 0 < ttlSeconds)
    {x y : Utf16.Text} (hx : x ≠ []) (hy : y ≠ []) (now : ℤ) :
    ∃ c, Run Opening (Step sha256 ttlSeconds)
      [⟨⟨now, true, x⟩, .passed⟩,
        ⟨⟨now, true, y⟩, if hashOf sha256 y = hashOf sha256 x then .replayedTx else .passed⟩]
          c := by
  have hwindow : now < now + ttlMs ttlSeconds := by
    rw [ttlMs]
    omega
  have hfirst : (admits sha256 ttlSeconds createReplayGuard now x).1 = true :=
    admits_passes.mpr fun t ht => (not_mem_lookup_createReplayGuard ht).elim
  have hsecond : (admits sha256 ttlSeconds
      (admits sha256 ttlSeconds createReplayGuard now x).2 now y).1 = true ↔
        ¬ hashOf sha256 y = hashOf sha256 x := by
    rw [admits_passes]
    refine ⟨fun h heq => ?_, fun h t ht => ?_⟩
    · -- the first is remembered
      have hknown : now ∈ (admits sha256 ttlSeconds createReplayGuard now x).2.lookup
          (hashOf sha256 y) :=
        (mem_lookup_admits hwindow).mpr ((if_pos ⟨hfirst, heq⟩).mpr rfl)
      exact absurd (h now hknown) (not_le.mpr hwindow)
    · by_contra hlt
      rw [mem_lookup_admits (not_le.mp hlt), if_neg fun hand => h hand.2] at ht
      exact not_mem_lookup_createReplayGuard ht
  have hopen : Opening ⟨now, createReplayGuard⟩ := rfl
  have hx' : receive sha256 ttlSeconds createReplayGuard ⟨now, true, x⟩ =
      (.passed, (admits sha256 ttlSeconds createReplayGuard now x).2) := by
    rw [receive_eq hx, hfirst, if_pos rfl]
  have hy' : receive sha256 ttlSeconds (admits sha256 ttlSeconds createReplayGuard now x).2
      ⟨now, true, y⟩ = (if hashOf sha256 y = hashOf sha256 x then .replayedTx else .passed,
        (admits sha256 ttlSeconds (admits sha256 ttlSeconds createReplayGuard now x).2 now
          y).2) := by
    rw [receive_eq hy]
    by_cases heq : hashOf sha256 y = hashOf sha256 x
    · rw [if_pos heq, if_neg fun h => hsecond.mp h heq]
    · rw [if_neg heq, if_pos (hsecond.mpr heq)]
  exact ⟨_, .snoc (.snoc (.start hopen) (.submit le_rfl hx')) (.submit le_rfl hy')⟩

/-- The texts of a set are told apart just as their bytes are: no two of them have the same bytes,
and no two the same UTF-8. -/
def SameTexts (texts : Set Utf16.Text) : Prop :=
  ∀ x ∈ texts, ∀ y ∈ texts, x ≠ [] → y ≠ [] →
    (Base64.decodeUnits x = Base64.decodeUnits y ↔ Utf16.utf8 x = Utf16.utf8 y)

/-- **The replay guard.**  Where SHA-256 does not confuse the texts that are submitted, it does
what it is for in every run over them if and only if those of the same bytes are those of the same
UTF-8. -/
theorem replay_guard_iff (sha256 : List UInt8 → String) (ttlSeconds : ℤ) (texts : Set Utf16.Text)
    (hsha : Set.InjOn sha256 (Utf16.utf8 '' texts)) :
    (∀ log c, Run Opening (Step sha256 ttlSeconds) log c → (∀ a ∈ log, a.txBase64 ∈ texts) →
      Guards Base64.decodeUnits (ttlMs ttlSeconds) log) ↔
    ttlSeconds ≤ 0 ∨ SameTexts texts := by
  have hhash : ∀ {x y : Utf16.Text}, x ∈ texts → y ∈ texts →
      (hashOf sha256 x = hashOf sha256 y ↔ Utf16.utf8 x = Utf16.utf8 y) := fun hx hy =>
    hsha.eq_iff (Set.mem_image_of_mem _ hx) (Set.mem_image_of_mem _ hy)
  refine ⟨fun h => ?_, fun h log c hrun htexts => ?_⟩
  · refine or_iff_not_imp_left.mpr fun httl x hx y hy hx' hy' => ?_
    obtain ⟨c, hrun⟩ := exists_two sha256 (not_le.mp httl) hx' hy' 0
    have hguards := h _ c hrun (by
      intro a ha
      rcases List.mem_pair.mp ha with rfl | rfl
      · exact hx
      · exact hy)
    rw [← hhash hx hy, eq_comm (a := hashOf sha256 x)]
    by_cases heq : hashOf sha256 y = hashOf sha256 x
    · -- the second is rejected, so its bytes have passed
      refine iff_of_true ?_ heq
      obtain ⟨a, ha, -, hbytes, -⟩ := hguards.only [_] _ [] rfl (if_pos heq)
      rwa [List.mem_singleton.mp ha] at hbytes
    · refine iff_of_false (fun hbytes => ?_) heq
      refine hguards.once [_] _ [] rfl _ (List.mem_singleton_self _) hbytes ?_ ⟨rfl, if_neg heq⟩
      show (0 : ℤ) < 0 + ttlSeconds * 1000
      omega
  · have hguards := guards_hash hrun
    rcases h with httl | hsame
    · -- nothing is within the window
      have hnone : ∀ before (b : Attempt) rest, log = before ++ b :: rest → ∀ a ∈ before,
          ¬ b.time < a.time + ttlMs ttlSeconds := by
        intro before b rest hlog a ha hlt
        obtain ⟨c₁, c₂, hrun₁, hs⟩ := (hlog ▸ hrun).step_of_log
        have hle := ((GuardInv.of_run hrun₁).le_now a ha).trans hs.received.le
        rw [ttlMs] at hlt
        omega
      refine ⟨fun before b rest hlog a ha _ hlt => (hnone before b rest hlog a ha hlt).elim,
        fun before b rest hlog hb => ?_⟩
      obtain ⟨a, ha, -, -, hlt⟩ := hguards.only before b rest hlog hb
      exact (hnone before b rest hlog a ha hlt).elim
    · have htext : ∀ a ∈ log, ∀ b ∈ log, a.txBase64 ≠ [] → b.txBase64 ≠ [] →
          (Base64.decodeUnits a.txBase64 = Base64.decodeUnits b.txBase64 ↔
            hashOf sha256 a.txBase64 = hashOf sha256 b.txBase64) := fun a ha b hb ha' hb' =>
        (hsame _ (htexts a ha) _ (htexts b hb) ha' hb').trans
        (hhash (htexts a ha) (htexts b hb)).symm
      refine ⟨fun before b rest hlog a ha hbytes hlt hpassed => ?_,
        fun before b rest hlog hb => ?_⟩
      · have ha' : a ∈ log := hlog ▸ List.mem_append_left _ ha
        have hb' : b ∈ log := hlog ▸ List.mem_append_right _ List.mem_cons_self
        have hsame' := (htext a ha' b hb' (ne_empty_of_passed hrun ha' hpassed.1)
          (ne_empty_of_passed hrun hb' hpassed.2)).mp hbytes
        exact hguards.once before b rest hlog a ha hsame' hlt hpassed
      · obtain ⟨a, ha, hap, hah, hlt⟩ := hguards.only before b rest hlog hb
        have ha' : a ∈ log := hlog ▸ List.mem_append_left _ ha
        have hb' : b ∈ log := hlog ▸ List.mem_append_right _ List.mem_cons_self
        exact ⟨a, ha, hap, (htext a ha' b hb' (ne_empty_of_passed hrun ha' hap)
          (ne_empty_of_replayed hrun hb' hb)).mpr hah, hlt⟩

/-- The same text with and without a newline at its end, and two that are one in UTF-8. -/
def plainText : Utf16.Text :=
  Utf16.ofString "AQ=="

def brokenText : Utf16.Text :=
  Utf16.ofString "AQ==\n"

def highText : Utf16.Text :=
  [0xD841, 0x51, 0x3D, 0x3D]

def otherHighText : Utf16.Text :=
  [0xD842, 0x51, 0x3D, 0x3D]

/-- The SHA-256 of the first two. -/
def sampleSha256 (bytes : List UInt8) : String :=
  if bytes = Utf8.encode "AQ==" then
    "5d4dc0ce1ab5d104c7c4955c96c58ec59e96b53fba686c1f4a45a008022366cf"
  else if bytes = Utf8.encode "AQ==\n" then
    "ae4386067610dff133673becb2eb2dc137a55a612bff09b5782bc5ad0a026267"
  else ""

theorem sampleSha256_ne :
    sampleSha256 (Utf16.utf8 plainText) ≠ sampleSha256 (Utf16.utf8 brokenText) := by
  rw [plainText, brokenText, Utf16.utf8_ofString, Utf16.utf8_ofString]
  decide +kernel

theorem sampleSha256_injOn : Set.InjOn sampleSha256 (Utf16.utf8 '' {plainText, brokenText}) := by
  rintro _ ⟨x, rfl | rfl, rfl⟩ _ ⟨y, rfl | rfl, rfl⟩ h
  · rfl
  · exact absurd h sampleSha256_ne
  · exact absurd h.symm sampleSha256_ne
  · rfl

theorem replay_guard_iff_sample :
    (∀ log c, Run Opening (Step sampleSha256 120) log c →
      (∀ a ∈ log, a.txBase64 ∈ ({plainText, brokenText} : Set Utf16.Text)) →
      Guards Base64.decodeUnits (ttlMs 120) log) ↔
    (120 : ℤ) ≤ 0 ∨ SameTexts {plainText, brokenText} :=
  replay_guard_iff sampleSha256 120 _ sampleSha256_injOn

/-- **A transaction passes twice**, with and without a newline at the end of its text; and one is
rejected that has not passed, since its text and another one's are the same in UTF-8. -/
theorem replay_guard_passed_twice :
    (∃ log c, Run Opening (Step sampleSha256 120) log c ∧
      Set.InjOn sampleSha256 {x | ∃ a ∈ log, Utf16.utf8 a.txBase64 = x} ∧
      ¬ Guards Base64.decodeUnits (ttlMs 120) log) ∧
    ∀ sha256 : List UInt8 → String, ∃ log c, Run Opening (Step sha256 120) log c ∧
      Set.InjOn sha256 {x | ∃ a ∈ log, Utf16.utf8 a.txBase64 = x} ∧
      ∃ a b, log = [a, b] ∧ b.verdict = .replayedTx ∧
        Base64.decodeUnits a.txBase64 = [1] ∧ Base64.decodeUnits b.txBase64 = [5] := by
  refine ⟨?_, fun sha256 => ?_⟩
  · obtain ⟨c, hrun⟩ := exists_two sampleSha256 (show (0 : ℤ) < 120 by decide)
      (show plainText ≠ [] by decide +kernel) (show brokenText ≠ [] by decide +kernel) 0
    rw [if_neg (show ¬ hashOf sampleSha256 brokenText = hashOf sampleSha256 plainText from
      fun h => sampleSha256_ne h.symm)] at hrun
    refine ⟨_, c, hrun, sampleSha256_injOn.mono ?_, fun hguards => ?_⟩
    · rintro _ ⟨a, ha, rfl⟩
      rcases List.mem_pair.mp ha with rfl | rfl
      · exact Set.mem_image_of_mem _ (Or.inl rfl)
      · exact Set.mem_image_of_mem _ (Or.inr rfl)
    · have hskipped : Base64.decodeUnits brokenText = Base64.decodeUnits plainText := by
        rw [show brokenText = plainText ++ [0x0A] from rfl]
        refine Base64.decodeUnits_append fun v hv => ?_
        rw [List.mem_singleton.mp hv]
        rfl
      exact hguards.once [_] _ [] rfl _ (List.mem_singleton_self _) hskipped.symm (by decide)
        ⟨rfl, rfl⟩
  · have hutf8 : Utf16.utf8 otherHighText = Utf16.utf8 highText := by decide +kernel
    obtain ⟨c, hrun⟩ := exists_two sha256 (show (0 : ℤ) < 120 by decide)
      (show highText ≠ [] from List.cons_ne_nil _ _)
      (show otherHighText ≠ [] from List.cons_ne_nil _ _) 0
    have hhash : hashOf sha256 otherHighText = hashOf sha256 highText := congrArg sha256 hutf8
    rw [if_pos hhash] at hrun
    refine ⟨_, c, hrun, ?_, _, _, rfl, rfl, by decide +kernel, by decide +kernel⟩
    -- in UTF-8 there is one text
    rintro _ ⟨a, ha, rfl⟩ _ ⟨b, hb, rfl⟩ -
    rcases List.mem_pair.mp ha with rfl | rfl <;> rcases List.mem_pair.mp hb with rfl | rfl
    · rfl
    · exact hutf8.symm
    · exact hutf8
    · rfl

end Qietr.Relayer.Replay
