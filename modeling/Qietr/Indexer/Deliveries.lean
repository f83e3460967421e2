import Qietr.Indexer.Db
import Qietr.Pool.State

/-!
# Indexer — the order of what is delivered

What a validator hands over of one denomination is its account, its tree with the number of leaves,
and deposits, in some order.  A deposit comes after the tree that was delivered last and the
deposits that were delivered since.

* `NextIndex`, `ComesAt`, `FirstAt`: where a deposit comes, and which is the first there.
* `Rebuilds`: the first deposit that comes at each index is its leaf, and there are no others.
* `arrivals`: the deposits with their indices, in a list; `mem_arrivals`, `find?_arrivals`.
* `Prompt`, `Prompt.rebuilds`: each deposit before the tree that it has written.
-/

namespace Qietr.Indexer

open Pool

/-! ### Where a deposit comes -/

/-- What concerns a denomination: its account, its tree with the number of leaves, a deposit. -/
inductive Delivery where
  | denomination
  | tree (nextLeafIndex : UInt64)
  | deposit (commitment : Bytes32)
  deriving DecidableEq

def Delivery.isDeposit : Delivery → Bool
  | deposit _ => true
  | denomination | tree _ => false

/-- They end with a tree of `n` leaves, or there is nothing yet and `n` is zero. -/
inductive EndsWithTree : List Delivery → ℕ → Prop
  | nothing : EndsWithTree [] 0
  | tree (es : List Delivery) (n : UInt64) : EndsWithTree (es ++ [.tree n]) n.toNat

/-- **Where the next deposit comes**: at the number of leaves of the tree that was delivered last,
and one further for each deposit that was delivered since. -/
def NextIndex (es : List Delivery) (i : ℕ) : Prop :=
  ∃ earlier since n, es = earlier ++ since ∧ EndsWithTree earlier n ∧ (∀ m, .tree m ∉ since) ∧
    i = n + since.countP Delivery.isDeposit

/-- A deposit of `c` is delivered after deliveries for which `P` holds. -/
def DeliveredAfter (P : List Delivery → Prop) (es : List Delivery) (c : Bytes32) : Prop :=
  ∃ before after, es = before ++ .deposit c :: after ∧ P before

/-- A deposit of `c` comes at `i`, and the account of the denomination has been delivered. -/
def ComesAt (es : List Delivery) (i : ℕ) (c : Bytes32) : Prop :=
  DeliveredAfter (fun before => .denomination ∈ before ∧ NextIndex before i) es c

/-- It is the first that comes there. -/
def FirstAt (es : List Delivery) (i : ℕ) (c : Bytes32) : Prop :=
  DeliveredAfter (fun before => (.denomination ∈ before ∧ NextIndex before i) ∧
    ∀ c', ¬ ComesAt before i c') es c

/-- **The condition on the order**: of each leaf a deposit comes first at its index, and none comes
where there is no leaf. -/
structure Rebuilds (es : List Delivery) (xs : List Bytes32) : Prop where
  leaves : ∀ i c, xs[i]? = some c → FirstAt es i c
  others : ∀ i c, ComesAt es i c → i < xs.length

/-! ### Indices -/

variable {es : List Delivery} {e : Delivery} {i : ℕ} {c : Bytes32} {xs : List Bytes32}
  {P : List Delivery → Prop}

/-- The index after a delivery. -/
def Delivery.next (i : ℕ) : Delivery → ℕ
  | denomination => i
  | tree n => n.toNat
  | deposit _ => i + 1

def nextIndex (es : List Delivery) : ℕ :=
  es.foldl Delivery.next 0

@[simp] theorem nextIndex_snoc (es : List Delivery) (e : Delivery) :
    nextIndex (es ++ [e]) = e.next (nextIndex es) :=
  List.foldl_append

theorem foldl_next_of_no_tree {since : List Delivery} (h : ∀ m, .tree m ∉ since) (i : ℕ) :
    since.foldl Delivery.next i = i + since.countP Delivery.isDeposit := by
  induction since generalizing i with
  | nil => rfl
  | cons e since ih =>
      have hrest : ∀ m, .tree m ∉ since := fun m hm => h m (List.mem_cons_of_mem e hm)
      cases e with
      | denomination => exact ih hrest i
      | tree n => exact (h n List.mem_cons_self).elim
      | deposit c =>
          rw [List.foldl_cons, ih hrest, List.countP_cons_of_pos rfl, Delivery.next]
          ring

theorem exists_nextIndex (es : List Delivery) : ∃ i, NextIndex es i := by
  induction es using List.reverseRecOn with
  | nil => exact ⟨0, [], [], 0, rfl, .nothing, nofun, rfl⟩
  | append_singleton es e ih =>
      obtain ⟨i, earlier, since, n, rfl, hearlier, hsince, hi⟩ := ih
      -- a tree begins a new count, and what is no tree is one more since the last
      cases e with
      | tree m => exact ⟨m.toNat, _, [], _, (List.append_nil _).symm, .tree _ m, nofun, rfl⟩
      | denomination | deposit =>
          refine ⟨_, earlier, since ++ [_], n, List.append_assoc .., hearlier, fun m hm => ?_, rfl⟩
          rcases List.mem_append.mp hm with hm | hm
          · exact hsince m hm
          · cases List.mem_singleton.mp hm

theorem nextIndex_iff : NextIndex es i ↔ nextIndex es = i := by
  have hunique : ∀ i, NextIndex es i → nextIndex es = i := by
    rintro i ⟨earlier, since, n, rfl, hearlier, hsince, rfl⟩
    have hshown : nextIndex earlier = n := by
      cases hearlier with
      | nothing => rfl
      | tree es n => exact nextIndex_snoc es (.tree n)
    rw [nextIndex, List.foldl_append, foldl_next_of_no_tree hsince]
    exact congrArg (· + _) hshown
  refine ⟨hunique i, ?_⟩
  rintro rfl
  obtain ⟨i, hi⟩ := exists_nextIndex es
  rwa [hunique i hi]

/-- The last delivery, or one before it. -/
theorem deliveredAfter_snoc : DeliveredAfter P (es ++ [e]) c ↔
    DeliveredAfter P es c ∨ e = .deposit c ∧ P es := by
  refine ⟨?_, ?_⟩
  · rintro ⟨before, after, heq, hbefore⟩
    rcases List.eq_nil_or_concat' after with rfl | ⟨after, e', rfl⟩
    · obtain ⟨rfl, he⟩ := List.append_inj' heq rfl
      exact .inr ⟨List.singleton_inj.mp he, hbefore⟩
    · rw [← List.cons_append, ← List.append_assoc] at heq
      exact .inl ⟨before, after, (List.append_inj' heq rfl).1, hbefore⟩
  · rintro (⟨before, after, rfl, hbefore⟩ | ⟨rfl, hes⟩)
    · exact ⟨before, after ++ [e], by simp, hbefore⟩
    · exact ⟨es, [], rfl, hes⟩

theorem comesAt_snoc : ComesAt (es ++ [e]) i c ↔
    ComesAt es i c ∨ e = .deposit c ∧ .denomination ∈ es ∧ NextIndex es i :=
  deliveredAfter_snoc

theorem firstAt_snoc : FirstAt (es ++ [e]) i c ↔ FirstAt es i c ∨
    e = .deposit c ∧ (.denomination ∈ es ∧ NextIndex es i) ∧ ∀ c', ¬ ComesAt es i c' :=
  deliveredAfter_snoc

/-- The deposits that are written, with their indices. -/
def arrival (before : List Delivery) : Delivery → List (ℕ × Bytes32)
  | .deposit c => if .denomination ∈ before then [(nextIndex before, c)] else []
  | .denomination | .tree _ => []

def arrivalsAfter (before : List Delivery) : List Delivery → List (ℕ × Bytes32)
  | [] => []
  | e :: es => arrival before e ++ arrivalsAfter (before ++ [e]) es

def arrivals (es : List Delivery) : List (ℕ × Bytes32) :=
  arrivalsAfter [] es

theorem arrivals_snoc (es : List Delivery) (e : Delivery) :
    arrivals (es ++ [e]) = arrivals es ++ arrival es e := by
  have happend : ∀ before es, arrivalsAfter before (es ++ [e]) =
      arrivalsAfter before es ++ arrival (before ++ es) e := by
    intro before es
    induction es generalizing before with
    | nil => simp [arrivalsAfter]
    | cons e' es ih =>
        rw [List.cons_append, arrivalsAfter, ih, arrivalsAfter, List.append_assoc before,
          List.append_assoc]
        rfl
  exact happend [] es

theorem arrival_eq (es : List Delivery) (e : Delivery) :
    arrival es e = [] ∨ ∃ x, arrival es e = [x] := by
  cases e with
  | denomination | tree => exact .inl rfl
  | deposit c =>
      rw [arrival]
      split
      · exact .inr ⟨_, rfl⟩
      · exact .inl rfl

theorem mem_arrival : (i, c) ∈ arrival es e ↔
    e = .deposit c ∧ .denomination ∈ es ∧ NextIndex es i := by
  rw [nextIndex_iff]
  cases e with
  | denomination | tree => simp [arrival]
  | deposit c' =>
      by_cases hshown : Delivery.denomination ∈ es
      · simp [arrival, hshown, eq_comm, and_comm]
      · simp [arrival, hshown]

theorem mem_arrivals : (i, c) ∈ arrivals es ↔ ComesAt es i c := by
  induction es using List.reverseRecOn with
  | nil => simp [arrivals, arrivalsAfter, ComesAt, DeliveredAfter]
  | append_singleton es e ih =>
      rw [arrivals_snoc, List.mem_append, ih, mem_arrival, comesAt_snoc]

/-- **The first** of an index is found. -/
theorem find?_arrivals :
    (arrivals es).find? (fun x => x.1 = i) = some (i, c) ↔ FirstAt es i c := by
  induction es using List.reverseRecOn with
  | nil => simp [arrivals, arrivalsAfter, FirstAt, DeliveredAfter]
  | append_singleton es e ih =>
      have hnone : (arrivals es).find? (fun x => x.1 = i) = none ↔ ∀ c', ¬ ComesAt es i c' := by
        rw [List.find?_eq_none]
        refine ⟨fun h c' hc' => h _ (mem_arrivals.mpr hc') (decide_eq_true rfl), ?_⟩
        rintro h ⟨j, c'⟩ hmem hj
        obtain rfl : j = i := of_decide_eq_true hj
        exact h c' (mem_arrivals.mp hmem)
      have hlast : (arrival es e).find? (fun x => x.1 = i) = some (i, c) ↔
          (i, c) ∈ arrival es e := by
        refine ⟨List.mem_of_find?_eq_some, fun hmem => ?_⟩
        rcases arrival_eq es e with hnil | ⟨x, hx⟩
        · rw [hnil] at hmem
          cases hmem
        · rw [hx] at hmem ⊢
          obtain rfl := List.mem_singleton.mp hmem
          exact List.find?_cons_of_pos (decide_eq_true rfl)
      -- either it came before, or nothing did and it is the last
      rw [arrivals_snoc, List.find?_append, Option.or_eq_some_iff, ih, hnone, hlast, mem_arrival,
        firstAt_snoc]
      refine or_congr_right ⟨?_, ?_⟩
      · rintro ⟨hfirst, he, hwritten⟩
        exact ⟨he, hwritten, hfirst⟩
      · rintro ⟨he, hwritten, hfirst⟩
        exact ⟨hfirst, he, hwritten⟩

/-! ### In order -/

/-- The deliveries of a tree with leaves `xs`: the account of the denomination first, and each
deposit before the tree that it has written. -/
inductive Prompt : List Delivery → List Bytes32 → Prop
  | shown : Prompt [.denomination] []
  | denomination {es : List Delivery} {xs : List Bytes32} (h : Prompt es xs) :
      Prompt (es ++ [.denomination]) xs
  | deposit {es : List Delivery} {xs : List Bytes32} (h : Prompt es xs) (c : Bytes32) :
      Prompt (es ++ [.deposit c]) (xs ++ [c])
  | tree {es : List Delivery} {xs : List Bytes32} {n : UInt64} (h : Prompt es xs)
      (hn : n.toNat = xs.length) : Prompt (es ++ [.tree n]) xs

/-- What is no deposit changes nothing of the condition. -/
theorem Rebuilds.snoc (h : Rebuilds es xs) (he : ∀ c, e ≠ .deposit c) :
    Rebuilds (es ++ [e]) xs where
  leaves i c hc := firstAt_snoc.mpr (.inl (h.leaves i c hc))
  others i c hc := h.others i c ((comesAt_snoc.mp hc).resolve_right fun hlast => he c hlast.1)

/-- **In order** the condition holds. -/
theorem Prompt.rebuilds (h : Prompt es xs) :
    .denomination ∈ es ∧ nextIndex es = xs.length ∧ Rebuilds es xs := by
  induction h with
  | shown =>
      refine ⟨List.mem_singleton_self _, rfl, nofun, fun i c hc => ?_⟩
      rcases comesAt_snoc.mp (show ComesAt ([] ++ [.denomination]) i c from hc) with hc | ⟨hc, -⟩
      · obtain ⟨before, after, hnil, -⟩ := hc
        simp at hnil
      · cases hc
  | denomination h ih =>
      exact ⟨List.mem_append_left _ ih.1, (nextIndex_snoc ..).trans ih.2.1, ih.2.2.snoc nofun⟩
  | tree h hn ih =>
      exact ⟨List.mem_append_left _ ih.1, (nextIndex_snoc ..).trans hn, ih.2.2.snoc nofun⟩
  | @deposit es xs h c ih =>
      obtain ⟨hshown, hnext, hrebuilds⟩ := ih
      refine ⟨List.mem_append_left _ hshown, ?_, fun i c' hc' => ?_, fun i c' hc' => ?_⟩
      · rw [nextIndex_snoc, List.length_append, ← hnext]
        rfl
      · rw [firstAt_snoc]
        rcases Nat.lt_or_ge i xs.length with hi | hi
        · rw [List.getElem?_append_left hi] at hc'
          exact .inl (hrebuilds.leaves i c' hc')
        · rw [List.getElem?_append_right hi] at hc'
          obtain ⟨hlt, hget⟩ := List.getElem?_eq_some_iff.mp hc'
          rw [List.length_singleton, Nat.lt_one_iff, Nat.sub_eq_zero_iff_le] at hlt
          obtain rfl : i = xs.length := le_antisymm hlt hi
          refine .inr ⟨?_, ⟨hshown, nextIndex_iff.mpr hnext⟩, fun c'' hc'' => ?_⟩
          · rw [← hget]
            simp
          · exact (hrebuilds.others _ c'' hc'').false
      · rw [List.length_append, List.length_singleton]
        rcases comesAt_snoc.mp hc' with hc' | ⟨-, -, hi⟩
        · exact Nat.lt_succ_of_lt (hrebuilds.others i c' hc')
        · rw [← nextIndex_iff.mp hi, hnext]
          exact Nat.lt_succ_self _

end Qietr.Indexer
