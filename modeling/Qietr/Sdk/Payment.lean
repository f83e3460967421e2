import Qietr.Circuit.Payment

/-!
# SDK — a payment's public signals

`pubkey.ts` and `prover.ts`: what the SDK proves to pay from a note.

* `pubkeyToField`, `pubkeyToFieldString`: the recipient as a signal.
* `Commitment`: a note; `buildWitness`: the public inputs of a payment from it.
* `proveGroth16`: the six public signals, in the verifier's order, as it packs them.
* `buildWitness_statement`: with the leaf's path, they are the circuit's statement.
-/

namespace Qietr.Sdk

open Circuit HashTree

/-! ### The recipient -/

/-- The key with the top three bits of its first byte cleared. -/
def pubkeyToField (pubkey : Bytes32) : Bytes32 :=
  pubkey.set 0 (pubkey[0] &&& 0x1f)

/-- The number whose decimal form the SDK passes to the circuit. -/
def pubkeyToFieldString (pubkey : Bytes32) : ℕ :=
  (pubkeyToField pubkey).toList.foldl (fun n b => n <<< 8 ||| b.toNat) 0

/-- The loop reads the bytes, most significant first. -/
theorem pubkeyToFieldString_eq (pubkey : Bytes32) :
    pubkeyToFieldString pubkey = (pubkeyToField pubkey).toNat :=
  foldl_shiftLeft_or _

/-! ### A payment -/

/-- A note, as its holder keeps it. -/
structure Commitment where
  secret : F
  nullifier : F
  amount : UInt64

/-- The leaf of a note. -/
def commitmentHash (P : Poseidon) (c : Commitment) : F :=
  P.three c.secret c.nullifier (c.amount.toNat : F)

/-- What marks a note as spent. -/
def poseidonNullifierHash (P : Poseidon) (nullifier : F) : F :=
  P.one nullifier

/-- A payment: to whom, how much, and the secrets drawn for the change. -/
structure Payment where
  recipient : Bytes32
  paymentAmount : UInt64
  newSecret : F
  newNullifier : F

/-- What a payment leaves of a note. -/
def changeOf (P : Poseidon) (c : Commitment) (pay : Payment) : F :=
  P.three pay.newSecret pay.newNullifier ((c.amount.toNat - pay.paymentAmount.toNat : ℕ) : F)

/-- The public inputs of a payment from `c` against `root`. -/
def buildWitness (P : Poseidon) (c : Commitment) (root : F) (pay : Payment) : PublicSignals where
  amount := (c.amount.toNat : F)
  root
  nullifierHash := poseidonNullifierHash P c.nullifier
  recipient := (pubkeyToFieldString pay.recipient : F)
  paymentAmount := (pay.paymentAmount.toNat : F)
  changeCommitment := changeOf P c pay

/-- The public signals in the verifier's order, each as 32 bytes. -/
def proveGroth16 (pub : PublicSignals) : Vector Bytes32 6 :=
  #v[encode pub.amount, encode pub.root, encode pub.nullifierHash, encode pub.recipient,
    encode pub.paymentAmount, encode pub.changeCommitment]

/-- **The honest statement.**  A note whose leaf is the `i`-th of the tree under `root` opens the
public inputs of any payment it covers. -/
theorem buildWitness_statement {P : Poseidon} {c : Commitment} {pay : Payment} {ls : List F}
    {i d : ℕ} (hleaf : ls[i]? = some (commitmentHash P c)) (hi : i < 2 ^ d)
    (hpos : 1 ≤ pay.paymentAmount.toNat) (hle : pay.paymentAmount.toNat ≤ c.amount.toNat) :
    PaymentStatement P d (buildWitness P c (root P.two 0 d ls) pay) := by
  obtain ⟨hlt, hget⟩ := List.getElem?_eq_some_iff.mp hleaf
  have hfold := fold_siblings P.two (leavesOf 0 ls) d i
  rw [Nat.div_eq_of_lt hi, leavesOf_eq hlt, hget] at hfold
  -- the siblings as the circuit takes them
  have hpath : siblings P.two (leavesOf 0 ls) d i =
      pathOf (fun k : Fin d => node P.two (leavesOf 0 ls) k (sibling (i / 2 ^ k.val)))
        fun k : Fin d => decide (i / 2 ^ k.val % 2 = 1) := by
    rw [siblings, pathOf, List.ofFn_eq_map, ← List.map_coe_finRange_eq_range, List.map_map]
    rfl
  rw [hpath] at hfold
  exact ⟨c.secret, c.nullifier, pay.newSecret, pay.newNullifier, _, _, c.amount.toNat,
    pay.paymentAmount.toNat, ⟨⟨rfl, rfl, hpos, hle, c.amount.toNat_lt⟩, hfold.symm, rfl, rfl⟩⟩

end Qietr.Sdk
