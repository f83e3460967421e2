import Qietr.Indexer.Decode
import Qietr.Library.Base58

/-!
# Indexer — transactions over RPC

`rpc.ts`: what the indexer asks a node, and what it makes of the answers.

* `getNewSignatures`: the pages of signatures, oldest first.
* `getPoolIxs`: the program's top-level instructions of a transaction that has not failed.
* `ChainTransaction`: a transaction with the instructions of the program that it has executed, at
  top level or from within another program's; `parsed`: what a node answers about it.
* `leafOfIx_getPoolIxs`: at top level, the leaves are those appended.
-/

namespace Qietr.Indexer

open Pool

/-! ### Answers of a node -/

/-- `ConfirmedSignatureInfo`. -/
structure SignatureInfo where
  signature : String
  slot : ℕ
  deriving DecidableEq

/-- A top-level instruction: the data is absent when the node has parsed it. -/
structure RpcInstruction where
  programId : Pubkey
  data : Option String

/-- Whether a transaction has failed. -/
structure TransactionMeta where
  err : Option String

structure ParsedTransaction where
  slot : ℕ
  txMeta : Option TransactionMeta
  instructions : List RpcInstruction

structure PoolIxRecord where
  signature : String
  slot : ℕ
  ixData : List UInt8

/-- The pages up to the first that is not full, newest first. -/
def collectPages : List (List SignatureInfo) → List SignatureInfo
  | [] => []
  | page :: pages => if page.length < 1000 then page else page ++ collectPages pages

def getNewSignatures (pages : List (List SignatureInfo)) : List SignatureInfo :=
  (collectPages pages).reverse

/-- One instruction of a transaction. -/
def poolIx (programId : Pubkey) (sig : SignatureInfo) (slot : ℕ) (ix : RpcInstruction) :
    Option PoolIxRecord := do
  if ix.programId ≠ programId then none
  else
    let data ← ix.data
    let raw ← Base58.decode data
    some { signature := sig.signature, slot, ixData := raw }

def getPoolIxs (programId : Pubkey) (sig : SignatureInfo) :
    Option ParsedTransaction → List PoolIxRecord
  | none => []
  | some tx =>
      if (tx.txMeta.bind TransactionMeta.err).isSome then []
      else tx.instructions.filterMap (poolIx programId sig tx.slot)

/-! ### The chain's transactions -/

/-- A top-level instruction: the program's own, with bytes that it does not read, or another
program's, with the instructions of the program that it has made. -/
inductive TopInstruction (env : PoolEnv) (programId : Pubkey) where
  | pool (c : Call env) (trailing : List UInt8)
  | other (ix : RpcInstruction) (hne : ix.programId ≠ programId) (inner : List (Call env))

structure ChainTransaction (env : PoolEnv) (programId : Pubkey) where
  signature : String
  slot : ℕ
  err : Option String
  instructions : List (TopInstruction env programId)

variable {env : PoolEnv} {programId : Pubkey}

namespace TopInstruction

/-- The instructions of the program that it makes. -/
def calls : TopInstruction env programId → List (Call env)
  | pool c _ => [c]
  | other _ _ inner => inner

/-- The node knows of no parser for the program. -/
def parsed : TopInstruction env programId → RpcInstruction
  | pool c trailing => { programId, data := some (Base58.encode (c.data ++ trailing)) }
  | other ix _ _ => ix

/-- It makes none from within another program. -/
def IsTop : TopInstruction env programId → Prop
  | pool _ _ => True
  | other _ _ inner => inner = []

end TopInstruction

namespace ChainTransaction

def info (tx : ChainTransaction env programId) : SignatureInfo where
  signature := tx.signature
  slot := tx.slot

/-- The instructions of the program that were executed, in order: none when it failed. -/
def calls (tx : ChainTransaction env programId) : List (Call env) :=
  if tx.err.isSome then [] else tx.instructions.flatMap TopInstruction.calls

/-- What a node answers about it. -/
def parsed (tx : ChainTransaction env programId) : ParsedTransaction where
  slot := tx.slot
  txMeta := some { err := tx.err }
  instructions := tx.instructions.map TopInstruction.parsed

/-- The program is called at top level only. -/
def TopLevel (tx : ChainTransaction env programId) : Prop :=
  ∀ ix ∈ tx.instructions, ix.IsTop

end ChainTransaction

/-! ### Reading them -/

theorem poolIx_pool (sig : SignatureInfo) (slot : ℕ) (c : Call env) (trailing : List UInt8) :
    poolIx programId sig slot (TopInstruction.pool c trailing :
      TopInstruction env programId).parsed =
      some { signature := sig.signature, slot, ixData := c.data ++ trailing } := by
  rw [TopInstruction.parsed, poolIx, if_neg (not_not.mpr rfl)]
  simp only [Option.bind_eq_bind, Option.bind_some, Base58.decode_encode]

theorem poolIx_other (sig : SignatureInfo) (slot : ℕ) {ix : RpcInstruction}
    (hne : ix.programId ≠ programId) (inner : List (Call env)) :
    poolIx programId sig slot (TopInstruction.other ix hne inner).parsed = none :=
  if_pos hne

/-- The leaves of the instructions read are those that the top-level instructions append. -/
theorem leafOfIx_poolIxs (sig : SignatureInfo) (slot : ℕ)
    (ixs : List (TopInstruction env programId))
    (h : ∀ ix ∈ ixs, ix.IsTop) :
    (((ixs.map TopInstruction.parsed).filterMap (poolIx programId sig slot)).filterMap
      fun r => leafOfIx r.ixData) = (ixs.flatMap TopInstruction.calls).filterMap appended := by
  induction ixs with
  | nil => rfl
  | cons ix ixs ih =>
      rw [List.forall_mem_cons] at h
      rw [List.flatMap_cons, List.filterMap_append, ← ih h.2, List.map_cons]
      cases ix with
      | pool c trailing =>
          rw [List.filterMap_cons_some (poolIx_pool sig slot c trailing)]
          show List.filterMap _ ([_] ++ _) = _
          rw [List.filterMap_append]
          congr 1
          simp only [List.filterMap_cons, List.filterMap_nil, leafOfIx_data, TopInstruction.calls]
      | other ix hne inner =>
          obtain rfl : inner = [] := h.1
          rw [List.filterMap_cons_none (poolIx_other sig slot hne [])]
          rfl

/-- **At top level** the indexer is handed the leaves that a transaction has appended. -/
theorem leafOfIx_getPoolIxs (tx : ChainTransaction env programId) (h : tx.TopLevel) :
    (getPoolIxs programId tx.info (some tx.parsed)).filterMap (fun r => leafOfIx r.ixData) =
      tx.calls.filterMap appended := by
  rw [getPoolIxs, ChainTransaction.calls]
  show List.filterMap _ (if tx.err.isSome = true then _ else _) = _
  split
  · rfl
  · exact leafOfIx_poolIxs tx.info tx.slot tx.instructions h

/-- Of other programs' instructions nothing is read, whatever they make of the program's. -/
theorem getPoolIxs_of_other (tx : ChainTransaction env programId)
    (h : ∀ ix ∈ tx.instructions, ix.parsed.programId ≠ programId) :
    getPoolIxs programId tx.info (some tx.parsed) = [] := by
  rw [getPoolIxs]
  split
  · rfl
  · refine List.filterMap_eq_nil_iff.mpr fun ix hix => ?_
    obtain ⟨top, htop, rfl⟩ := List.mem_map.mp hix
    exact if_pos (h top htop)

theorem slot_getPoolIxs (tx : ChainTransaction env programId) :
    ∀ r ∈ getPoolIxs programId tx.info (some tx.parsed), r.slot = tx.slot := by
  intro r hr
  rw [getPoolIxs] at hr
  split at hr
  · cases hr
  · obtain ⟨ix, -, hix⟩ := List.mem_filterMap.mp hr
    rw [poolIx] at hix
    split at hix
    · cases hix
    · simp only [Option.bind_eq_bind, Option.bind_eq_some_iff, Option.some.injEq] at hix
      obtain ⟨data, -, raw, -, rfl⟩ := hix
      rfl

end Qietr.Indexer
