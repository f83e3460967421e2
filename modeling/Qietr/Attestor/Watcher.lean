import Qietr.Library.Base64
import Qietr.Library.Doubles
import Qietr.Library.NumberText

/-!
# Attestor — watching for nullifiers

`watcher.ts`: the attestor polls a node for the pool's nullifier records, and tells its listeners
of those whose slot is above the last one it has told them of.

* `decodeEvent`: what a listener is told of an account; nothing where decoding throws.
* `pollLoop`: the accounts of one poll, up to what throws; `NullifierWatcher.step`, `watch`.
* `Complete`: whoever was registered when an account was returned has been told of it.
* `Tells`: a poll that tells everybody of everything; `mem_pollLoop`, `complete_step_iff`.
* `nullifiers_delivered_iff`: the runs that lose no nullifier; `tie_lost`: one that does, for good.
-/

namespace Qietr.Attestor

open Base64 Doubles NumberText

/-! ### Accounts and events -/

inductive ChainId where
  | solana
  | base
  | polygon
  | ethereum
  deriving DecidableEq

/-- An account that a node returns, its data in base 64. -/
structure Account where
  pubkey : String
  data : String
  slot : ℕ
  deriving DecidableEq

structure NullifierEvent where
  chain : ChainId
  denomId : UInt8
  nullifierHash : String
  spentAtSlot : ℤ
  signature : String
  deriving DecidableEq

/-- Too few bytes leave no slot to be read. -/
def decodeEvent (chain : ChainId) (acct : Account) : Option NullifierEvent := do
  let decoded ← atob acct.data
  let denomId ← decoded[8]?
  let nullifierHashBytes := (decoded.drop 9).take 32
  let spentAtSlotBytes := (decoded.drop 41).take 8
  if spentAtSlotBytes.length < 8 then none
  else
    some
      { chain
        denomId
        nullifierHash := String.ofList (hexOf nullifierHashBytes)
        spentAtSlot := double (beNat spentAtSlotBytes.reverse)
        signature := acct.pubkey }

theorem signature_of_decodeEvent {chain : ChainId} {acct : Account} {event : NullifierEvent}
    (h : decodeEvent chain acct = some event) : event.signature = acct.pubkey := by
  simp only [decodeEvent, Option.bind_eq_bind, Option.bind_eq_some_iff] at h
  obtain ⟨decoded, -, denomId, -, h⟩ := h
  split at h
  · cases h
  · cases h
    rfl

/-! ### A poll -/

variable {ℓ : Type}

/-- The accounts that a node returns, each once. -/
structure PollResult where
  accounts : List Account
  distinct : (accounts.map Account.pubkey).Nodup

/-- The listeners that are called, up to the first whose call throws. -/
def called (throws : ℕ → Bool) (listeners : List ℓ) : List ℓ :=
  match (List.range listeners.length).find? throws with
  | none => listeners
  | some k => listeners.take (k + 1)

/-- **The loop over the accounts**: the last slot after it, and who is told what.  What is thrown
ends it, the last slot already set when a listener throws. -/
def pollLoop (chain : ChainId) (throws : Account → ℕ → Bool) (listeners : List ℓ) :
    ℕ → List Account → ℕ × List (ℓ × NullifierEvent)
  | lastSlot, [] => (lastSlot, [])
  | lastSlot, acct :: rest =>
      if acct.slot ≤ lastSlot then pollLoop chain throws listeners lastSlot rest
      else
        match decodeEvent chain acct with
        | none => (lastSlot, [])
        | some event =>
            let told := (called (throws acct) listeners).map fun cb => (cb, event)
            if (List.range listeners.length).any (throws acct) then (acct.slot, told)
            else
              let (last, more) := pollLoop chain throws listeners acct.slot rest
              (last, told ++ more)

/-! ### The watcher -/

/-- A watcher.  What has been returned to whom, and told to whom, nothing reads. -/
structure NullifierWatcher (ℓ : Type) where
  lastSlot : ℕ
  listeners : List ℓ
  returned : List (ℓ × String)
  told : List (ℓ × NullifierEvent)

/-- What happens to a watcher: a listener comes or goes, a poll is answered (and the `k`-th listener
may throw when it is told of an account), or a poll fails. -/
inductive Action (ℓ : Type) where
  | onNullifier (cb : ℓ)
  | remove (cb : ℓ)
  | poll (result : PollResult) (throws : Account → ℕ → Bool)
  | failedPoll

def NullifierWatcher.create : NullifierWatcher ℓ where
  lastSlot := 0
  listeners := []
  returned := []
  told := []

variable [DecidableEq ℓ]

def NullifierWatcher.step (chain : ChainId) (w : NullifierWatcher ℓ) :
    Action ℓ → NullifierWatcher ℓ
  | .onNullifier cb => { w with listeners := w.listeners ++ [cb] }
  | .remove cb => { w with listeners := w.listeners.filter (· ≠ cb) }
  | .poll result throws =>
      let (lastSlot, told) := pollLoop chain throws w.listeners w.lastSlot result.accounts
      { w with
        lastSlot
        returned := w.returned ++
          result.accounts.flatMap fun acct => w.listeners.map fun cb => (cb, acct.pubkey)
        told := w.told ++ told }
  | .failedPoll => w

/-- **The watcher after these actions**, from its start on. -/
def watch (chain : ChainId) (actions : List (Action ℓ)) : NullifierWatcher ℓ :=
  actions.foldl (NullifierWatcher.step chain) .create

/-! ### Who is told of what -/

omit [DecidableEq ℓ] in
theorem mem_called {throws : ℕ → Bool} {listeners : List ℓ} {cb : ℓ} :
    cb ∈ called throws listeners ↔ ∃ k, listeners[k]? = some cb ∧ ∀ j < k, throws j = false := by
  rw [called]
  cases hfind : (List.range listeners.length).find? throws with
  | none =>
      have hcalm : ∀ j < listeners.length, throws j = false := fun j hj =>
        Bool.eq_false_iff.mpr (List.find?_eq_none.mp hfind j (List.mem_range.mpr hj))
      constructor
      · intro h
        obtain ⟨k, hk⟩ := List.getElem?_of_mem h
        exact ⟨k, hk, fun j hj => hcalm j (hj.trans (List.getElem?_eq_some_iff.mp hk).1)⟩
      · rintro ⟨k, hk, -⟩
        exact List.mem_of_getElem? hk
  | some n =>
      obtain ⟨hthrows, -, hcalm⟩ := List.find?_range_eq_some.mp hfind
      constructor
      · intro h
        obtain ⟨k, hk⟩ := List.getElem?_of_mem h
        obtain ⟨hlt, -⟩ := List.getElem?_eq_some_iff.mp hk
        rw [List.length_take] at hlt
        rw [List.getElem?_take_of_lt (by omega)] at hk
        exact ⟨k, hk, fun j hj => by simpa using hcalm j (by omega)⟩
      · rintro ⟨k, hk, hbefore⟩
        have hle : k ≤ n := by
          by_contra! hlt
          rw [hbefore n hlt] at hthrows
          cases hthrows
        refine List.mem_of_getElem? (i := k) ?_
        rw [List.getElem?_take_of_lt (by omega), hk]

/-- The highest slot so far. -/
def highest (lastSlot : ℕ) (accounts : List Account) : ℕ :=
  accounts.foldl (fun slot acct => max slot acct.slot) lastSlot

/-- **Nothing throws** of these accounts: whatever is above the last slot is decoded, and no
listener throws at it. -/
def Calm (chain : ChainId) (throws : Account → ℕ → Bool) (count : ℕ) : ℕ → List Account → Prop
  | _, [] => True
  | lastSlot, acct :: rest =>
      (lastSlot < acct.slot → (decodeEvent chain acct).isSome ∧ ∀ k < count,
        throws acct k = false) ∧
        Calm chain throws count (max lastSlot acct.slot) rest

/-- **A listener is told of an account** that comes after others: its slot is above the last one and
above theirs, nothing throws of them, it is decoded, and no listener before this one throws. -/
structure Heard (chain : ChainId) (throws : Account → ℕ → Bool) (listeners : List ℓ) (lastSlot : ℕ)
    (before : List Account) (acct : Account) (cb : ℓ) : Prop where
  above : highest lastSlot before < acct.slot
  calm : Calm chain throws listeners.length lastSlot before
  decodes : (decodeEvent chain acct).isSome
  reached : ∃ k, listeners[k]? = some cb ∧ ∀ j < k, throws acct j = false

variable {chain : ChainId} {throws : Account → ℕ → Bool} {listeners : List ℓ} {lastSlot : ℕ}
  {before rest : List Account} {acct x : Account} {cb : ℓ} {event : NullifierEvent}

omit [DecidableEq ℓ] in
theorem heard_cons : Heard chain throws listeners lastSlot (x :: before) acct cb ↔
    (lastSlot < x.slot → (decodeEvent chain x).isSome ∧ ∀ k < listeners.length,
      throws x k = false) ∧
      Heard chain throws listeners (max lastSlot x.slot) before acct cb := by
  constructor
  · rintro ⟨habove, ⟨hx, hcalm⟩, hdecodes, hreached⟩
    exact ⟨hx, habove, hcalm, hdecodes, hreached⟩
  · rintro ⟨hx, habove, hcalm, hdecodes, hreached⟩
    exact ⟨habove, ⟨hx, hcalm⟩, hdecodes, hreached⟩

omit [DecidableEq ℓ] in
theorem heard_nil : Heard chain throws listeners lastSlot [] acct cb ↔
    lastSlot < acct.slot ∧ (decodeEvent chain acct).isSome ∧
      cb ∈ called (throws acct) listeners := by
  rw [mem_called]
  exact ⟨fun h => ⟨h.above, h.decodes, h.reached⟩, fun h => ⟨h.1, trivial, h.2.1, h.2.2⟩⟩

/-- An account of a list is the first one, or after it. -/
theorem exists_split_cons {Q : List Account → Account → Prop} :
    (∃ before acct after, x :: rest = before ++ acct :: after ∧ Q before acct) ↔
      Q [] x ∨ ∃ before acct after, rest = before ++ acct :: after ∧ Q (x :: before) acct := by
  constructor
  · rintro ⟨before, acct, after, hsplit, hQ⟩
    cases before with
    | nil =>
        obtain ⟨rfl, -⟩ := List.cons_eq_cons.mp hsplit
        exact .inl hQ
    | cons y before =>
        obtain ⟨rfl, hrest⟩ := List.cons_eq_cons.mp hsplit
        exact .inr ⟨before, acct, after, hrest, hQ⟩
  · rintro (hQ | ⟨before, acct, after, rfl, hQ⟩)
    · exact ⟨[], x, rest, rfl, hQ⟩
    · exact ⟨x :: before, acct, after, rfl, hQ⟩

omit [DecidableEq ℓ] in
/-- An account above the last slot that is decoded. -/
theorem pollLoop_cons (hlt : lastSlot < acct.slot) (hdecode : decodeEvent chain acct = some event) :
    (pollLoop chain throws listeners lastSlot (acct :: rest)).2 =
      (called (throws acct) listeners).map (fun cb => (cb, event)) ++
        if (List.range listeners.length).any (throws acct) then []
        else (pollLoop chain throws listeners acct.slot rest).2 := by
  rw [pollLoop, if_neg (not_le.mpr hlt), hdecode]
  dsimp only
  split
  · rw [List.append_nil]
  · rfl

omit [DecidableEq ℓ] in
theorem any_throws_eq_false {throws : ℕ → Bool} :
    (List.range listeners.length).any throws = false ↔ ∀ k < listeners.length,
      throws k = false := by
  simp only [List.any_eq_false, List.mem_range, Bool.not_eq_true]

omit [DecidableEq ℓ] in
/-- **What the loop tells.** -/
theorem mem_pollLoop {accounts : List Account} :
    (cb, event) ∈ (pollLoop chain throws listeners lastSlot accounts).2 ↔
      ∃ before acct after, accounts = before ++ acct :: after ∧
        (decodeEvent chain acct = some event ∧
          Heard chain throws listeners lastSlot before acct cb) := by
  induction accounts generalizing lastSlot with
  | nil => simp [pollLoop]
  | cons x rest ih =>
      rw [exists_split_cons, heard_nil]
      simp only [heard_cons]
      by_cases hskip : x.slot ≤ lastSlot
      · -- passed over: nothing is told of it, and the last slot stays
        have hnot : ¬ lastSlot < x.slot := not_lt.mpr hskip
        rw [pollLoop, if_pos hskip, ih, max_eq_left hskip]
        simp [hnot]
      · have hlt : lastSlot < x.slot := not_le.mp hskip
        rw [max_eq_right hlt.le]
        cases hdecode : decodeEvent chain x with
        | none =>
            -- what is thrown leaves the loop, and the rest of the accounts with it
            rw [pollLoop, if_neg hskip, hdecode]
            simp [hlt]
        | some event' =>
            have htold : (cb, event) ∈ (called (throws x) listeners).map (fun cb => (cb, event')) ↔
                some event' = some event ∧ lastSlot < x.slot ∧ (some event').isSome = true ∧
                  cb ∈ called (throws x) listeners := by
              simp [hlt, and_comm]
            rw [pollLoop_cons hlt hdecode, List.mem_append, htold]
            cases hany : (List.range listeners.length).any (throws x) with
            | true =>
                have hthrown : ¬ ∀ k < listeners.length, throws x k = false := fun hcalm =>
                  Bool.noConfusion (hany.symm.trans (any_throws_eq_false.mpr hcalm))
                simp [hlt, hthrown]
            | false =>
                have hcalm := any_throws_eq_false.mp hany
                rw [if_neg Bool.false_ne_true, ih]
                simp [hlt, iff_true_intro hcalm]

/-! ### Nothing is lost -/

/-- A listener has been told of an account. -/
def NullifierWatcher.HasTold (w : NullifierWatcher ℓ) (cb : ℓ) (pubkey : String) : Prop :=
  ∃ event, (cb, event) ∈ w.told ∧ event.signature = pubkey

/-- **No nullifier is lost**: whoever was registered when an account was returned has been told. -/
def NullifierWatcher.Complete (w : NullifierWatcher ℓ) : Prop :=
  ∀ cb pubkey, (cb, pubkey) ∈ w.returned → w.HasTold cb pubkey

/-- **A poll that loses nothing**: of each account that it returns, each listener has been told
before or is told now. -/
def Tells (chain : ChainId) (w : NullifierWatcher ℓ) : Action ℓ → Prop
  | .poll result throws =>
      ∀ before acct after, result.accounts = before ++ acct :: after → ∀ cb ∈ w.listeners,
        w.HasTold cb acct.pubkey ∨ Heard chain throws w.listeners w.lastSlot before acct cb
  | _ => True

variable {w : NullifierWatcher ℓ} {actions : List (Action ℓ)} {action : Action ℓ}

omit [DecidableEq ℓ] in
/-- An account is found at one place of a result only. -/
theorem PollResult.split_unique (result : PollResult) {before before' after after' : List Account}
    {acct acct' : Account} (h : result.accounts = before ++ acct :: after)
    (h' : result.accounts = before' ++ acct' :: after') (hkey : acct.pubkey = acct'.pubkey) :
    before = before' ∧ acct = acct' := by
  have hkeys := congrArg (List.map Account.pubkey) (h.symm.trans h')
  have hnodup := result.distinct
  rw [List.map_append, List.map_cons, List.map_append, List.map_cons] at hkeys
  rw [h, List.map_append, List.map_cons, hkey] at hnodup
  obtain ⟨-, hafter, hdisjoint⟩ := List.nodup_append.mp hnodup
  have hbefore : acct'.pubkey ∉ before.map Account.pubkey := fun hmem =>
    hdisjoint _ hmem _ List.mem_cons_self rfl
  have hlength := congrArg List.length
    ((List.append_cons_inj_of_notMem hbefore (List.nodup_cons.mp hafter).1).mp hkeys).1
  rw [List.length_map, List.length_map] at hlength
  obtain ⟨hsame, hrest⟩ := List.append_inj (h.symm.trans h') hlength
  exact ⟨hsame, (List.cons_eq_cons.mp hrest).1⟩

theorem complete_step_iff (h : w.Complete) :
    (w.step chain action).Complete ↔ Tells chain w action := by
  cases action with
  | onNullifier cb => exact iff_of_true h trivial
  | remove cb => exact iff_of_true h trivial
  | failedPoll => exact iff_of_true h trivial
  | poll result throws =>
      constructor
      · intro hcomplete before acct after hsplit cb hcb
        obtain ⟨event, htold, hsignature⟩ := hcomplete cb acct.pubkey (List.mem_append_right _
          (List.mem_flatMap.mpr ⟨acct, hsplit ▸ List.mem_append_right _ List.mem_cons_self,
            List.mem_map_of_mem hcb⟩))
        rcases List.mem_append.mp htold with htold | htold
        · exact .inl ⟨event, htold, hsignature⟩
        · -- it was told in this poll, and of the same account, as a key is found there once
          obtain ⟨before', acct', after', hsplit', hdecode, hheard⟩ := mem_pollLoop.mp htold
          have hkey : acct.pubkey = acct'.pubkey :=
            hsignature.symm.trans (signature_of_decodeEvent hdecode)
          obtain ⟨rfl, rfl⟩ := result.split_unique hsplit hsplit' hkey
          exact .inr hheard
      · intro htells cb pubkey hmem
        have hmono : ∀ key, w.HasTold cb key →
          (w.step chain (.poll result throws)).HasTold cb key :=
          fun key ⟨event, hevent, hkey⟩ => ⟨event, List.mem_append_left _ hevent, hkey⟩
        rcases List.mem_append.mp hmem with hmem | hmem
        · exact hmono pubkey (h cb pubkey hmem)
        · obtain ⟨acct, hacct, hmem⟩ := List.mem_flatMap.mp hmem
          obtain ⟨cb', hcb, heq⟩ := List.mem_map.mp hmem
          obtain ⟨rfl, rfl⟩ := Prod.mk.inj heq
          obtain ⟨before, after, hsplit⟩ := List.append_of_mem hacct
          rcases htells before acct after hsplit cb' hcb with htold | hheard
          · exact hmono _ htold
          · obtain ⟨event, hdecode⟩ := Option.isSome_iff_exists.mp hheard.decodes
            exact ⟨event, List.mem_append_right _
              (mem_pollLoop.mpr ⟨before, acct, after, hsplit, hdecode, hheard⟩),
              signature_of_decodeEvent hdecode⟩

theorem watch_snoc : watch chain (actions ++ [action]) =
    (watch chain actions).step chain action := by
  rw [watch, List.foldl_append]
  rfl

/-- **The runs that lose no nullifier.**  Whoever was registered when an account was returned has
been told of it, in every state on the way, if and only if every poll on the way told everybody of
everything that they had not been told of before. -/
theorem nullifiers_delivered_iff (chain : ChainId) (actions : List (Action ℓ)) :
    (∀ before, before <+: actions → (watch chain before).Complete) ↔
      ∀ before action, before ++ [action] <+: actions →
        Tells chain (watch chain before) action := by
  constructor
  · intro hcomplete before action hpre
    have hbefore := hcomplete before ((List.prefix_append _ _).trans hpre)
    refine (complete_step_iff hbefore).mp ?_
    rw [← watch_snoc]
    exact hcomplete _ hpre
  · intro htells before hpre
    induction before using List.reverseRecOn with
    | nil => exact fun cb pubkey hmem => absurd hmem List.not_mem_nil
    | append_singleton before action ih =>
        rw [watch_snoc]
        exact (complete_step_iff (ih ((List.prefix_append _ _).trans hpre))).mpr
          (htells before action hpre)

/-! ### Two records of one slot -/

/-- A record of 50 bytes, in base 64. -/
def recordData : String :=
  String.ofList (List.replicate 67 'A' ++ ['='])

/-- Two records that were made in the same slot. -/
def tie : PollResult where
  accounts := [⟨"first", recordData, 5⟩, ⟨"second", recordData, 5⟩]
  distinct := by decide

/-- The poll that returns them, at which nothing throws. -/
def tiePoll : Action Unit :=
  .poll tie fun _ _ => false

theorem step_tiePoll {w : NullifierWatcher Unit} (h : w.lastSlot = 5) :
    w.step .solana tiePoll = { w with
      returned := w.returned ++
        tie.accounts.flatMap fun acct => w.listeners.map fun cb => (cb, acct.pubkey) } := by
  have hloop : pollLoop .solana (fun _ _ => false) w.listeners w.lastSlot tie.accounts =
      (w.lastSlot, []) := by
    simp [tie, pollLoop, h]
  simp only [NullifierWatcher.step, tiePoll, hloop, List.append_nil]

/-- **The second of them is lost**, however often it is returned. -/
theorem tie_lost : ¬ ∃ n, (watch .solana
    ([.onNullifier (), tiePoll] ++ List.replicate n tiePoll)).Complete := by
  have hstays : ∀ n, (watch .solana ([.onNullifier (), tiePoll] ++ List.replicate n tiePoll)).told =
        (watch .solana [.onNullifier (), tiePoll]).told ∧
      (watch .solana ([.onNullifier (), tiePoll] ++ List.replicate n tiePoll)).lastSlot = 5 ∧
      ((), "second") ∈
        (watch .solana ([.onNullifier (), tiePoll] ++ List.replicate n tiePoll)).returned := by
    intro n
    -- from the first poll on the last slot is that of both records
    induction n with
    | zero => decide +kernel
    | succ n ih =>
        obtain ⟨htold, hslot, hreturned⟩ := ih
        rw [List.replicate_succ', ← List.append_assoc, watch_snoc, step_tiePoll hslot]
        exact ⟨htold, hslot, List.mem_append_left _ hreturned⟩
  rintro ⟨n, hcomplete⟩
  obtain ⟨htold, -, hreturned⟩ := hstays n
  obtain ⟨event, hevent, hsignature⟩ := hcomplete () "second" hreturned
  rw [htold] at hevent
  have hfirst : ∀ told ∈ (watch .solana [.onNullifier (), tiePoll]).told,
      told.2.signature ≠ "second" := by
    decide +kernel
  exact hfirst _ hevent hsignature

end Qietr.Attestor
