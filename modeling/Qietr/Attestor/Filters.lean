import Qietr.Attestor.Watcher
import Qietr.Library.Base58
import Qietr.Pool.Accounts

/-!
# Attestor — which accounts a poll asks for

`watcher.ts`: a poll asks a node for the accounts that pass two filters, the size of the data and
the bytes it begins with.

* `Filter.Matches`: what a node takes a filter for; the bytes to compare are a text.
* `pollFilters`: the two of a poll.
* `decodeEvent_record`: what a listener would be told of a nullifier's account.
* `never_recognised`: no nullifier's account passes either of them.
-/

namespace Qietr.Attestor

open Base64 Borsh Doubles NumberText Pool

/-! ### Filters -/

/-- How the bytes to compare are written. -/
inductive Encoding where
  | base58
  | base64
  deriving DecidableEq

def Encoding.decode : Encoding → String → Option (List UInt8)
  | .base58 => Base58.decode
  | .base64 => atob

/-- A filter of `getProgramAccounts`. -/
inductive Filter where
  | dataSize (size : ℕ)
  | memcmp (offset : ℕ) (bytes : String) (encoding : Encoding)

/-- Whether an account of this data passes.  None passes a text that is not of the encoding: the
node answers the request with an error. -/
def Filter.Matches (data : List UInt8) : Filter → Prop
  | .dataSize size => data.length = size
  | .memcmp offset bytes encoding =>
      ∃ bs, encoding.decode bytes = some bs ∧ (data.drop offset).take bs.length = bs

/-- The filters of a poll.  It does not say how its bytes are written; a node takes them for base
58. -/
def pollFilters (encoding : Encoding) : List Filter :=
  [.dataSize 42, .memcmp 0 "2w==" encoding]

/-! ### A nullifier's account -/

/-- What is to be told of it. -/
def eventOf (chain : ChainId) (pubkey : String) (n : NullifierRecord) : NullifierEvent where
  chain
  denomId := n.denomId
  nullifierHash := String.ofList (hexOf n.nullifierHash.toList)
  spentAtSlot := n.spentAtSlot.toNat
  signature := pubkey

/-- The account passes the filters, and its event has the fields of the record. -/
def Recognised (encoding : Encoding) (chain : ChainId) (n : NullifierRecord) : Prop :=
  (∀ f ∈ pollFilters encoding, f.Matches (PoolAccount.nullifier n).data) ∧
    ∀ acct : Account, atob acct.data = some (PoolAccount.nullifier n).data →
      decodeEvent chain acct = some (eventOf chain acct.pubkey n)

/-- The fields of the record at their offsets, and a slot as a double. -/
theorem decodeEvent_record (chain : ChainId) (n : NullifierRecord) {acct : Account}
    (h : atob acct.data = some (PoolAccount.nullifier n).data) :
    decodeEvent chain acct =
      some { eventOf chain acct.pubkey n with spentAtSlot := double n.spentAtSlot.toNat } := by
  have hdenom : (PoolAccount.nullifier n).data[8]? = some n.denomId := rfl
  have hhash : ((PoolAccount.nullifier n).data.drop 9).take 32 = n.nullifierHash.toList :=
    List.take_left' Vector.length_toList
  have hslot : ((PoolAccount.nullifier n).data.drop 41).take 8 = leBytes 8 n.spentAtSlot.toNat := by
    show ((n.nullifierHash.toList ++ (writeU64 n.spentAtSlot ++ writeU8 n.bump)).drop 32).take 8 = _
    rw [List.drop_left' Vector.length_toList]
    exact List.take_left' (leBytes_length 8 n.spentAtSlot.toNat)
  have hlt : n.spentAtSlot.toNat < 256 ^ 8 := n.spentAtSlot.toNat_lt
  have hread : beNat (leBytes 8 n.spentAtSlot.toNat).reverse = n.spentAtSlot.toNat := by
    rw [leBytes, List.reverse_reverse, beNat_beBytes, Nat.mod_eq_of_lt hlt]
  have hlen : ¬ (leBytes 8 n.spentAtSlot.toNat).length < 8 := by rw [leBytes_length]; omega
  simp only [decodeEvent, h, hdenom, hhash, hslot, Option.bind_eq_bind, Option.bind_some,
    if_neg hlen, hread, eventOf]

theorem length_data (n : NullifierRecord) : (PoolAccount.nullifier n).data.length = 50 := by
  rw [PoolAccount.data, List.length_append, NullifierRecord.length_write]
  rfl

/-- The text of the second filter is none of the one alphabet, and one other byte in the other. -/
theorem decode_filter (encoding : Encoding) {bs : List UInt8}
    (h : encoding.decode "2w==" = some bs) : bs = [0xdb] := by
  cases encoding with
  | base58 =>
      have hnone : Encoding.base58.decode "2w==" = none := by decide +kernel
      rw [hnone] at h
      cases h
  | base64 =>
      have hbyte : Encoding.base64.decode "2w==" = some [0xdb] := by decide +kernel
      exact Option.some.inj (h.symm.trans hbyte)

/-- The data is eight bytes longer, and begins with another byte. -/
theorem not_matches (encoding : Encoding) (n : NullifierRecord) :
    ∀ f ∈ pollFilters encoding, ¬ f.Matches (PoolAccount.nullifier n).data := by
  have hsize : ¬ (Filter.dataSize 42).Matches (PoolAccount.nullifier n).data := by
    rw [Filter.Matches, length_data]
    omega
  have hbytes : ¬ (Filter.memcmp 0 "2w==" encoding).Matches (PoolAccount.nullifier n).data := by
    rintro ⟨bs, hdecode, hbs⟩
    obtain rfl := decode_filter encoding hdecode
    have hhead : (0x38 : UInt8) = 0xdb := (List.cons.inj hbs).1
    exact absurd hhead (by decide)
  exact List.forall_mem_cons.mpr ⟨hsize, List.forall_mem_singleton.mpr hbytes⟩

/-- **No nullifier's account passes a filter of a poll.**  If it were returned, it would be told of
as it is, up to slot `2 ^ 53`. -/
theorem never_recognised (encoding : Encoding) (chain : ChainId) (n : NullifierRecord) :
    ¬ Recognised encoding chain n ∧
    (∀ f ∈ pollFilters encoding, ¬ f.Matches (PoolAccount.nullifier n).data) ∧
    ∀ acct : Account, atob acct.data = some (PoolAccount.nullifier n).data →
      n.spentAtSlot.toNat ≤ 2 ^ 53 → decodeEvent chain acct =
        some (eventOf chain acct.pubkey n) := by
  have hnone := not_matches encoding n
  refine ⟨fun h => hnone _ List.mem_cons_self (h.1 _ List.mem_cons_self), hnone, ?_⟩
  intro acct hacct hslot
  have hdouble : double (n.spentAtSlot.toNat : ℤ) = n.spentAtSlot.toNat :=
    double_of_isDouble (isDouble_of_le (by rw [Nat.abs_cast]; exact_mod_cast hslot))
  rw [decodeEvent_record chain n hacct, hdouble]
  rfl

/-- The record of slot 7: 50 bytes, and a text that is not in base 58. -/
theorem record_not_returned :
    let n : NullifierRecord := ⟨1, zero32, 7, 255⟩
    (PoolAccount.nullifier n).data.length = 50 ∧ Base58.decode "2w==" = none ∧
      ¬ Recognised .base58 .solana n :=
  ⟨by decide +kernel, by decide +kernel,
    fun h => not_matches .base58 _ _ List.mem_cons_self (h.1 _ List.mem_cons_self)⟩

end Qietr.Attestor
