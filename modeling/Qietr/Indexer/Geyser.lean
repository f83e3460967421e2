import Qietr.Indexer.Poller

/-!
# Indexer — the plugin's indices

`lib.rs`: the plugin numbers the deposits of a denomination by a cache, which the updates of the
tree set.

* `TreeEvent`, `nextAfter`: what sets the cache of a denomination, and where that leaves it.
* `positions`: the place of each deposit that is called: the tree's number of leaves, as last seen,
  and the deposits called since.
* `InOrder`, `InOrder.positions_eq`: each deposit before the account that it has written.
-/

namespace Qietr.Indexer

open Pool

def saturatingSucc (n : UInt64) : UInt64 :=
  UInt64.ofNat (min (n.toNat + 1) (2 ^ 64 - 1))

/-- What concerns one denomination. -/
inductive TreeEvent where
  | update (nextLeafIndex : UInt64)
  | deposit (commitment : Bytes32)

/-- The next index after these. -/
def nextAfter (next : UInt64) (es : List TreeEvent) : UInt64 :=
  es.foldl (fun next e =>
    match e with
    | .update n => n
    | .deposit _ => saturatingSucc next) next

/-- The deposits with their positions. -/
def positions (next : UInt64) : List TreeEvent → List (ℤ × Bytes32)
  | [] => []
  | .update n :: es => positions n es
  | .deposit c :: es => (next.toInt64.toInt, c) :: positions (saturatingSucc next) es

theorem positions_append (next : UInt64) (es es' : List TreeEvent) :
    positions next (es ++ es') = positions next es ++ positions (nextAfter next es) es' := by
  induction es generalizing next with
  | nil => rfl
  | cons e es ih =>
      cases e with
      | update n => exact ih n
      | deposit c => exact congrArg (_ :: ·) (ih (saturatingSucc next))

/-- An index below `2 ^ 63` is stored as it is. -/
theorem toInt_toInt64 {n : UInt64} (h : n.toNat < 2 ^ 63) : n.toInt64.toInt = n.toNat := by
  have hofNat : n.toInt64 = Int64.ofNat n.toNat := by
    rw [← UInt64.toInt64_ofNat', UInt64.ofNat_toNat]
  rw [hofNat, Int64.toInt_ofNat_of_lt h]

/-- The events of a tree with leaves `xs`, each deposit before the account that it has written. -/
inductive InOrder : List TreeEvent → List Bytes32 → Prop
  | nil : InOrder [] []
  | deposit {es : List TreeEvent} {xs : List Bytes32} (h : InOrder es xs) (c : Bytes32) :
      InOrder (es ++ [.deposit c]) (xs ++ [c])
  | update {es : List TreeEvent} {xs : List Bytes32} {n : UInt64} (h : InOrder es xs)
      (hn : n.toNat = xs.length) : InOrder (es ++ [.update n]) xs

theorem InOrder.positions_eq {es : List TreeEvent} {xs : List Bytes32} (h : InOrder es xs)
    (hlen : xs.length ≤ 2 ^ MERKLE_DEPTH) :
    positions 0 es = numbered xs ∧ (nextAfter 0 es).toNat = xs.length := by
  induction h with
  | nil => exact ⟨rfl, rfl⟩
  | @deposit es xs h c ih =>
      rw [List.length_append, List.length_singleton] at hlen
      obtain ⟨hpositions, hnext⟩ := ih (by omega)
      have hsmall : (nextAfter 0 es).toNat < 2 ^ 20 := by
        rw [hnext]
        exact hlen
      have hindex : (nextAfter 0 es).toInt64.toInt = xs.length := by
        rw [← hnext]
        exact toInt_toInt64 (by omega)
      refine ⟨?_, ?_⟩
      · rw [positions_append, hpositions, numbered_snoc, ← hindex]
        rfl
      · rw [nextAfter, List.foldl_append, List.length_append, List.length_singleton, ← hnext]
        show (saturatingSucc (nextAfter 0 es)).toNat = _
        rw [saturatingSucc, UInt64.toNat_ofNat', Nat.min_eq_left (by omega),
          Nat.mod_eq_of_lt (by omega)]
  | @update es xs n h hn ih =>
      refine ⟨?_, ?_⟩
      · rw [positions_append, (ih hlen).1]
        exact List.append_nil _
      · rw [nextAfter, List.foldl_append]
        exact hn

/-- The indices of a tree are distinct. -/
theorem nodup_numbered (xs : List Bytes32) : ((numbered xs).map Prod.fst).Nodup := by
  rw [List.Nodup, List.pairwise_map]
  exact (pairwise_numbered xs).imp ne_of_lt

end Qietr.Indexer
