import Qietr.Pool.Accounts
import Qietr.Pool.Wire

/-!
# Indexer — the accounts of the program

`decode.ts` of the poller and `decode.rs` of the geyser plugin: the fields of an account, of its
bytes.  The one reads them at their offsets, if there are bytes enough; the other reads the struct,
and leaves no byte.

* `accountKind`: which account it is.
* `decodeDenomination`, `decodeMerkleTree`, `decodeNullifierRecord`: the poller's.
* `Plugin.decodeDenomination` and so on: the plugin's; `agree_iff`: when two decoders agree.
* `decoders_agree_iff`: they agree on what is not longer than the account, and on its bytes both
  give its fields.
-/

namespace Qietr.Indexer

open Borsh Pool

inductive AccountKind where
  | poolConfig
  | denomination
  | merkleTree
  | nullifierRecord
  deriving DecidableEq

def accountKind (data : List UInt8) : Option AccountKind :=
  if data.length < 8 then none
  else
    let head := data.take 8
    if head = POOL_CONFIG_DISC then some .poolConfig
    else if head = DENOMINATION_DISC then some .denomination
    else if head = MERKLE_TREE_DISC then some .merkleTree
    else if head = NULLIFIER_RECORD_DISC then some .nullifierRecord
    else none

/-! ### The poller -/

def readUInt8 (data : List UInt8) (o : ℕ) : UInt8 :=
  data.getD o 0

def readBigUInt64LE (data : List UInt8) (o : ℕ) : ℕ :=
  leNat ((data.drop o).take 8)

structure DenominationFields where
  denomId : UInt8
  amountMicroUsdc : ℕ
  depositCount : ℕ
  vault : Bytes32
  deriving DecidableEq

def decodeDenomination (data : List UInt8) : Option DenominationFields :=
  if data.length < 8 + 1 + 8 + 8 + 32 + 32 + 1 + 1 then none
  else
    some
      { denomId := readUInt8 data 8
        amountMicroUsdc := readBigUInt64LE data 9
        depositCount := readBigUInt64LE data 17
        vault := dataBytes 32 data 25 }

structure MerkleTreeState where
  denomId : UInt8
  nextLeafIndex : ℕ
  rootCursor : UInt8
  /-- None where the cursor is out of range. -/
  latestRoot : Option Bytes32
  deriving DecidableEq

def decodeMerkleTree (data : List UInt8) : Option MerkleTreeState :=
  let filledLen := 32 * MERKLE_DEPTH
  let historyLen := 32 * ROOT_HISTORY_LEN
  let minLen := 8 + 1 + 8 + filledLen + historyLen + 1 + 1 + 32 * MERKLE_DEPTH
  if data.length < minLen then none
  else
    let historyStart := 8 + 1 + 8 + filledLen
    let rootCursor := readUInt8 data (historyStart + historyLen)
    let latestRoot :=
      if rootCursor.toNat < ROOT_HISTORY_LEN then
        some (dataBytes 32 data (historyStart + rootCursor.toNat * 32))
      else none
    some
      { denomId := readUInt8 data 8
        nextLeafIndex := readBigUInt64LE data 9
        rootCursor
        latestRoot }

structure NullifierFields where
  denomId : UInt8
  nullifierHash : Bytes32
  spentAtSlot : ℕ
  deriving DecidableEq

def decodeNullifierRecord (data : List UInt8) : Option NullifierFields :=
  if data.length < 8 + 1 + 32 + 8 + 1 then none
  else
    some
      { denomId := readUInt8 data 8
        nullifierHash := dataBytes 32 data 9
        spentAtSlot := readBigUInt64LE data 41 }

/-! ### The plugin -/

namespace Plugin

/-- A struct after the discriminator. -/
def decodeAccount {α : Type} (read : Reader α) (data : List UInt8) : Option α :=
  if data.length < 8 then none else tryFromSlice read (data.drop 8)

def decodeDenomination : List UInt8 → Option Denomination :=
  decodeAccount Denomination.read

def decodeMerkleTree : List UInt8 → Option MerkleTree :=
  decodeAccount MerkleTree.read

def decodeNullifierRecord : List UInt8 → Option NullifierRecord :=
  decodeAccount NullifierRecord.read

def latestRoot (t : MerkleTree) : Option Bytes32 :=
  t.rootHistory[t.rootCursor.toNat]?

end Plugin

/-! ### The fields of an account -/

def fieldsOfDenomination (d : Denomination) : DenominationFields where
  denomId := d.denomId
  amountMicroUsdc := d.amountMicroUsdc.toNat
  depositCount := d.depositCount.toNat
  vault := d.vault

def stateOfTree (t : MerkleTree) : MerkleTreeState where
  denomId := t.denomId
  nextLeafIndex := t.nextLeafIndex.toNat
  rootCursor := t.rootCursor
  latestRoot := Plugin.latestRoot t

def fieldsOfNullifier (n : NullifierRecord) : NullifierFields where
  denomId := n.denomId
  nullifierHash := n.nullifierHash
  spentAtSlot := n.spentAtSlot.toNat

/-! ### When two decoders agree -/

section

variable {α β : Type} {n : ℕ} {read : Reader α} {enc : α → List UInt8} {get : List UInt8 → α}
  {view : α → β} {decode : List UInt8 → Option β}

theorem decodeAccount_eq (h : Sized n read get) (data : List UInt8) :
    Plugin.decodeAccount read data =
      if data.length = 8 + n then some (get (data.drop 8)) else none := by
  rw [Plugin.decodeAccount]
  by_cases hshort : data.length < 8
  · rw [if_pos hshort, if_neg (by omega)]
  · have hlen : (data.drop 8).length = n ↔ data.length = 8 + n := by
      rw [List.length_drop]
      omega
    rw [if_neg hshort, h.tryFromSlice, if_congr hlen rfl rfl]

/-- **They agree** on what is not longer than the account. -/
theorem agree_iff (h : Sized n read get) (hdecode : ∀ data, decode data =
      if data.length < 8 + n then none else some (view (get (data.drop 8)))) (data : List UInt8) :
    decode data = (Plugin.decodeAccount read data).map view ↔ data.length ≤ 8 + n := by
  rw [hdecode, decodeAccount_eq h]
  rcases Nat.lt_trichotomy data.length (8 + n) with hlt | heq | hgt
  · rw [if_pos hlt, if_neg hlt.ne]
    exact iff_of_true rfl hlt.le
  · rw [if_neg heq.not_lt, if_pos heq]
    exact iff_of_true rfl heq.le
  · rw [if_neg hgt.not_gt, if_neg hgt.ne']
    exact iff_of_false (Option.some_ne_none _) (by omega)

/-- And on the bytes of an account both give its fields. -/
theorem decode_account (h : Sized n read get) (hr : Inverts read enc) (hdecode : ∀ data,
      decode data = if data.length < 8 + n then none else some (view (get (data.drop 8))))
    {disc : List UInt8} (hdisc : disc.length = 8) (a : α) :
    Plugin.decodeAccount read (disc ++ enc a) = some a ∧
      decode (disc ++ enc a) = some (view a) := by
  have hlen : (disc ++ enc a).length = 8 + n := by rw [List.length_append, hdisc, hr.length_eq h]
  have hget : get (enc a) = a := by
    have hget := hr.get_eq h a []
    rwa [List.append_nil] at hget
  have hread : Plugin.decodeAccount read (disc ++ enc a) = some a := by
    rw [decodeAccount_eq h, if_pos hlen, List.drop_left' hdisc, hget]
  refine ⟨hread, ?_⟩
  rw [(agree_iff h hdecode _).mpr hlen.le, hread, Option.map_some]

end

/-! ### The three accounts -/

theorem toNat_natAt (bs : List UInt8) : (UInt64.ofNat (natAt 8 bs)).toNat = natAt 8 bs := by
  have hlen : (bs.take 8).reverse.length ≤ 8 := by
    rw [List.length_reverse]
    exact List.length_take_le 8 bs
  rw [UInt64.toNat_ofNat', Nat.mod_eq_of_lt]
  exact (beNat_lt _).trans_le (Nat.pow_le_pow_right (by norm_num) hlen)

theorem readUInt8_drop (data : List UInt8) (m o : ℕ) :
    (data.drop m).getD o 0 = readUInt8 data (m + o) := by
  rw [readUInt8, List.getD_eq_getElem?_getD, List.getElem?_drop, List.getD_eq_getElem?_getD]

theorem decodeDenomination_eq (data : List UInt8) :
    decodeDenomination data = if data.length < 8 + 83 then none
      else some (fieldsOfDenomination (Denomination.ofBytes (data.drop 8))) := by
  simp only [fieldsOfDenomination, Denomination.ofBytes, toNat_natAt, List.drop_drop,
    readUInt8_drop]
  rfl

theorem decodeNullifierRecord_eq (data : List UInt8) :
    decodeNullifierRecord data = if data.length < 8 + 42 then none
      else some (fieldsOfNullifier (NullifierRecord.ofBytes (data.drop 8))) := by
  simp only [fieldsOfNullifier, NullifierRecord.ofBytes, toNat_natAt, List.drop_drop,
    readUInt8_drop]
  rfl

theorem decodeMerkleTree_eq (data : List UInt8) :
    decodeMerkleTree data = if data.length < 8 + 2251 then none
      else some (stateOfTree (MerkleTree.ofBytes (data.drop 8))) := by
  have hroot : ∀ (bs : List UInt8) (i : ℕ), (MerkleTree.hashesAt ROOT_HISTORY_LEN bs)[i]? =
      if i < ROOT_HISTORY_LEN then some (dataBytes 32 bs (i * 32)) else none := by
    intro bs i
    by_cases hi : i < ROOT_HISTORY_LEN
    · rw [if_pos hi, Vector.getElem?_eq_getElem hi, MerkleTree.hashesAt, Vector.getElem_ofFn]
      rfl
    · rw [if_neg hi, Vector.getElem?_eq_none (by omega)]
  have hdata : ∀ m o : ℕ, dataBytes 32 (data.drop m) o = dataBytes 32 data (m + o) := by
    intro m o
    rw [dataBytes, List.drop_drop, dataBytes]
  simp only [stateOfTree, Plugin.latestRoot, MerkleTree.ofBytes, hroot, hdata, toNat_natAt,
    List.drop_drop, readUInt8_drop]
  rfl

/-- **The decoders agree** on the bytes that are not longer than the account: the poller does not
look at what follows it, and the plugin takes that for an error.  Both read what the program
writes. -/
theorem decoders_agree_iff (data : List UInt8) :
    (decodeDenomination data = (Plugin.decodeDenomination data).map fieldsOfDenomination ↔
      data.length ≤ 91) ∧
    (decodeMerkleTree data = (Plugin.decodeMerkleTree data).map stateOfTree ↔
      data.length ≤ 2259) ∧
    (decodeNullifierRecord data = (Plugin.decodeNullifierRecord data).map fieldsOfNullifier ↔
      data.length ≤ 50) ∧
    (∀ d, Plugin.decodeDenomination (PoolAccount.denomination d).data = some d ∧
      decodeDenomination (PoolAccount.denomination d).data = some (fieldsOfDenomination d)) ∧
    (∀ t, Plugin.decodeMerkleTree (PoolAccount.tree t).data = some t ∧
      decodeMerkleTree (PoolAccount.tree t).data = some (stateOfTree t)) ∧
    (∀ n, Plugin.decodeNullifierRecord (PoolAccount.nullifier n).data = some n ∧
      decodeNullifierRecord (PoolAccount.nullifier n).data = some (fieldsOfNullifier n)) :=
  ⟨agree_iff Denomination.sized decodeDenomination_eq data,
    agree_iff MerkleTree.sized decodeMerkleTree_eq data,
    agree_iff NullifierRecord.sized decodeNullifierRecord_eq data,
    decode_account Denomination.sized Denomination.inverts decodeDenomination_eq rfl,
    decode_account MerkleTree.sized MerkleTree.inverts decodeMerkleTree_eq rfl,
    decode_account NullifierRecord.sized NullifierRecord.inverts decodeNullifierRecord_eq rfl⟩

/-- A byte after the account of a nullifier. -/
theorem trailing_byte_disagrees :
    let data := (PoolAccount.nullifier ⟨0, zero32, 1, 255⟩).data ++ [0]
    decodeNullifierRecord data = some ⟨0, zero32, 1⟩ ∧ Plugin.decodeNullifierRecord data = none ∧
      ¬ (decodeNullifierRecord data =
        (Plugin.decodeNullifierRecord data).map fieldsOfNullifier) := by
  decide +kernel

end Qietr.Indexer
