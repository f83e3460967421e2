import Qietr.Attestor.Watcher
import Qietr.Library.Runs

/-!
# Attestor — relaying what it is told of

`attestor.ts`: each event is relayed by a handler of its own, which waits for `relayNullifier`.  Any
number of them wait at once.

* `AttestorState`, `handleNullifier`: the accounts that are marked, and a handler up to where it
  waits.
* `AttestorStep`, `AttestorRun`: deliveries, and calls that succeed or fail, in any order.
* `Accounted`: what is marked has succeeded, or failed, or is waited for; `accounted_of_run`.
* `relayed_succeeded_iff`: nothing succeeds twice, and a failure is not forgotten only if there is
  none.
* `failure_forgotten`: one that is.
-/

namespace Qietr.Attestor

/-! ### Handlers -/

/-- The accounts in `relayed`, in the order in which they were added, and the events whose handlers
wait. -/
structure AttestorState where
  relayed : List String
  flights : Multiset NullifierEvent

def AttestorState.create : AttestorState where
  relayed := []
  flights := 0

/-- **A handler**, up to where it waits: the account is marked before its event is relayed. -/
def AttestorState.handleNullifier (a : AttestorState) (event : NullifierEvent) : AttestorState :=
  if event.signature ∈ a.relayed then a
  else { relayed := a.relayed ++ [event.signature], flights := event ::ₘ a.flights }

inductive AttestorEvent where
  | delivered (event : NullifierEvent)
  /-- What `relayNullifier` has come to: a digest, or what it has thrown. -/
  | settled (event : NullifierEvent) (result : Except String String)

/-- **One step.**  What a call has thrown is logged, and nothing else. -/
inductive AttestorStep : AttestorState → AttestorEvent → AttestorState → Prop
  | deliver (a : AttestorState) (event : NullifierEvent) :
      AttestorStep a (.delivered event) (a.handleNullifier event)
  | settle {a : AttestorState} {event : NullifierEvent} {flights : Multiset NullifierEvent}
      (hf : a.flights = event ::ₘ flights) (result : Except String String) :
      AttestorStep a (.settled event result) { a with flights }

def AttestorRun : List AttestorEvent → AttestorState → Prop :=
  Run (· = AttestorState.create) AttestorStep

/-- The accounts whose events have been relayed. -/
def succeeded (log : List AttestorEvent) : List String :=
  log.filterMap fun e => match e with
    | .settled event (.ok _) => some event.signature
    | _ => none

/-- The accounts of the calls that have failed. -/
def failed (log : List AttestorEvent) : List String :=
  log.filterMap fun e => match e with
    | .settled event (.error _) => some event.signature
    | _ => none

/-! ### Every run -/

theorem succeeded_append (log log' : List AttestorEvent) :
    succeeded (log ++ log') = succeeded log ++ succeeded log' :=
  List.filterMap_append

theorem failed_append (log log' : List AttestorEvent) :
    failed (log ++ log') = failed log ++ failed log' :=
  List.filterMap_append

/-- Each account that is marked has been relayed, or has failed, or its handler waits; and it is
marked once. -/
structure Accounted (log : List AttestorEvent) (a : AttestorState) : Prop where
  sum : (a.relayed : Multiset String) =
    succeeded log + failed log + a.flights.map NullifierEvent.signature
  nodup : a.relayed.Nodup

theorem Accounted.step {log : List AttestorEvent} {a a' : AttestorState} {e : AttestorEvent}
    (h : Accounted log a) (hs : AttestorStep a e a') : Accounted (log ++ [e]) a' := by
  cases hs with
  | deliver event =>
      have hsucceeded : succeeded (log ++ [.delivered event]) = succeeded log :=
        (succeeded_append log _).trans (List.append_nil _)
      have hfailed : failed (log ++ [.delivered event]) = failed log :=
        (failed_append log _).trans (List.append_nil _)
      rw [AttestorState.handleNullifier]
      split
      case isTrue => exact ⟨by rw [hsucceeded, hfailed]; exact h.sum, h.nodup⟩
      case isFalse hnew =>
        refine ⟨?_, h.nodup.append (List.nodup_singleton _) (List.disjoint_singleton.mpr hnew)⟩
        rw [hsucceeded, hfailed, Multiset.map_cons, Multiset.add_cons, ← h.sum, Multiset.cons_coe,
          Multiset.coe_eq_coe]
        exact List.perm_append_singleton _ _
  | @settle event flights hf result =>
      have hsum := h.sum
      rw [hf, Multiset.map_cons, Multiset.add_cons] at hsum
      refine ⟨?_, h.nodup⟩
      cases result with
      | ok digest =>
          have hsucceeded : succeeded (log ++ [.settled event (.ok digest)]) =
              succeeded log ++ [event.signature] := succeeded_append log _
          have hfailed : failed (log ++ [.settled event (.ok digest)]) = failed log :=
            (failed_append log _).trans (List.append_nil _)
          rw [hsucceeded, hfailed, ← Multiset.coe_add, Multiset.coe_singleton]
          show (a.relayed : Multiset String) = _
          rw [hsum, ← Multiset.singleton_add]
          abel
      | error message =>
          have hsucceeded : succeeded (log ++ [.settled event (.error message)]) = succeeded log :=
            (succeeded_append log _).trans (List.append_nil _)
          have hfailed : failed (log ++ [.settled event (.error message)]) =
              failed log ++ [event.signature] := failed_append log _
          rw [hsucceeded, hfailed, ← Multiset.coe_add, Multiset.coe_singleton]
          show (a.relayed : Multiset String) = _
          rw [hsum, ← Multiset.singleton_add]
          abel

theorem accounted_of_run {log : List AttestorEvent} {a : AttestorState} (h : AttestorRun log a) :
    Accounted log a := by
  refine h.invariant Accounted ?_ fun log a e a' _ hok hs => hok.step hs
  rintro a rfl
  exact ⟨rfl, List.nodup_nil⟩

theorem mem_relayed_of_failed {log : List AttestorEvent} {a : AttestorState} (h : Accounted log a)
    {account : String} (hfailed : account ∈ failed log) : account ∈ a.relayed := by
  rw [← Multiset.mem_coe, h.sum]
  exact Multiset.mem_add.mpr (.inl (Multiset.mem_add.mpr (.inr hfailed)))

/-- What is marked once has not both succeeded and failed. -/
theorem Accounted.disjoint {log : List AttestorEvent} {a : AttestorState} (h : Accounted log a) :
    (succeeded log).Nodup ∧ ∀ account ∈ failed log, account ∉ succeeded log := by
  have hnodup : ((succeeded log : Multiset String) + failed log).Nodup := by
    have hall : (a.relayed : Multiset String).Nodup := h.nodup
    rw [h.sum] at hall
    exact (Multiset.nodup_add.mp hall).1
  obtain ⟨hsucceeded, -, hdisjoint⟩ := Multiset.nodup_add.mp hnodup
  exact ⟨hsucceeded, fun account hf hs => Multiset.disjoint_left.mp hdisjoint hs hf⟩

/-- **Nothing is relayed twice; and a failure is forgotten.**  When no handler waits, what is marked
has been relayed just when no call has failed: an account whose call has failed stays marked, and
its next event is not relayed. -/
theorem relayed_succeeded_iff {log : List AttestorEvent} {a : AttestorState}
    (h : AttestorRun log a) :
    (succeeded log).Nodup ∧
    (a.flights = 0 → ((∀ account ∈ a.relayed, account ∈ succeeded log) ↔ failed log = [])) ∧
    ∀ event, event.signature ∈ failed log → a.handleNullifier event = a := by
  have hok := accounted_of_run h
  obtain ⟨hnodup, hdisjoint⟩ := hok.disjoint
  refine ⟨hnodup, fun hnone => ⟨fun hall => ?_, fun hfailed account hmem => ?_⟩, fun event hf => ?_⟩
  · refine List.eq_nil_iff_forall_not_mem.mpr fun account hf => ?_
    exact hdisjoint account hf (hall account (mem_relayed_of_failed hok hf))
  · have hsum := hok.sum
    rw [hnone, hfailed, Multiset.map_zero, add_zero, Multiset.coe_nil, add_zero] at hsum
    exact Multiset.mem_coe.mp (hsum ▸ Multiset.mem_coe.mpr hmem)
  · exact if_pos (mem_relayed_of_failed hok hf)

/-! ### Two runs -/

/-- An event of this account. -/
def eventAt (pubkey : String) : NullifierEvent where
  chain := .solana
  denomId := 1
  nullifierHash := "00"
  spentAtSlot := 7
  signature := pubkey

/-- The handler of an account that is not marked. -/
theorem handleNullifier_of_new {a : AttestorState} {event : NullifierEvent}
    (h : event.signature ∉ a.relayed) : a.handleNullifier event =
      { relayed := a.relayed ++ [event.signature], flights := event ::ₘ a.flights } :=
  if_neg h

/-- One delivery. -/
theorem run_one : AttestorRun ([] ++ [.delivered (eventAt "a")]) ⟨["a"], {eventAt "a"}⟩ := by
  have hstart : AttestorRun [] AttestorState.create := .start rfl
  have hrun := hstart.snoc (.deliver _ (eventAt "a"))
  rwa [handleNullifier_of_new List.not_mem_nil] at hrun

/-- Two handlers at once, that both succeed. -/
theorem relayed_succeeded_iff_two : ∃ log a, AttestorRun log a ∧ a.flights = 0 ∧
    a.relayed = ["a", "b"] ∧ ∀ account ∈ a.relayed, account ∈ succeeded log := by
  have hboth := run_one.snoc (.deliver _ (eventAt "b"))
  rw [handleNullifier_of_new (by decide)] at hboth
  have hsecond : AttestorStep ⟨["a", "b"], {eventAt "b", eventAt "a"}⟩
      (.settled (eventAt "b") (.ok "x")) ⟨["a", "b"], {eventAt "a"}⟩ := .settle rfl _
  have hfirst : AttestorStep ⟨["a", "b"], {eventAt "a"}⟩
      (.settled (eventAt "a") (.ok "y")) ⟨["a", "b"], 0⟩ := .settle rfl _
  have hrun := (hboth.snoc hsecond).snoc hfirst
  exact ⟨_, _, hrun, rfl, rfl, ((relayed_succeeded_iff hrun).2.1 rfl).mpr rfl⟩

/-- **One call, that fails**: its account is marked, and its next event is not relayed. -/
theorem failure_forgotten : ∃ log a, AttestorRun log a ∧ a.flights = 0 ∧ a.relayed = ["a"] ∧
    succeeded log = [] ∧ a.handleNullifier (eventAt "a") = a := by
  have hfail : AttestorStep ⟨["a"], {eventAt "a"}⟩
      (.settled (eventAt "a") (.error "VAA relay failed (503): ")) ⟨["a"], 0⟩ := .settle rfl _
  exact ⟨_, _, run_one.snoc hfail, rfl, rfl, rfl, if_pos (List.mem_singleton_self _)⟩

end Qietr.Attestor
