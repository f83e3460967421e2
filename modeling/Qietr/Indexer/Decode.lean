import Qietr.Pool.Runs
import Qietr.Pool.Wire

/-!
# Indexer — the leaves of the program's instructions

`decode.ts`: the leaf an instruction appends, from its data.

* `parseDepositIx`, `parseWithdrawIx`: the denomination and the leaf; `leafOfIx`: either.
* `Call.appended`: what an instruction of the program appends; `map_leaf_history`: a history is the
  leaves its instructions append.
* `leafOfIx_data`: the indexer reads it of the data, whatever bytes follow.
-/

namespace Qietr.Indexer

open Pool

variable {env : PoolEnv}

/-! ### Parsing -/

def parseDepositIx (data : List UInt8) : Option (UInt8 × Bytes32) :=
  if data.length < 8 + 1 + 32 then none
  else if data.take 8 ≠ DEPOSIT_DISC then none
  else some (data.getD 8 0, dataBytes 32 data 9)

def WITHDRAW_PROOF_BYTES : ℕ := 256
def WITHDRAW_PUBLIC_SIGNAL_COUNT : ℕ := 6
def WITHDRAW_CHANGE_OFFSET : ℕ := 8 + 1 + 32 + WITHDRAW_PROOF_BYTES + 5 * 32
def WITHDRAW_MIN_LEN : ℕ := 8 + 1 + 32 + WITHDRAW_PROOF_BYTES + WITHDRAW_PUBLIC_SIGNAL_COUNT * 32

/-- The change commitment of a withdraw, which is a leaf as well. -/
def parseWithdrawIx (data : List UInt8) : Option (UInt8 × Bytes32) :=
  if data.length < WITHDRAW_MIN_LEN then none
  else if data.take 8 ≠ WITHDRAW_DISC then none
  else some (data.getD 8 0, dataBytes 32 data WITHDRAW_CHANGE_OFFSET)

/-- The leaf that an instruction appends: a deposit's commitment, else a withdraw's change. -/
def leafOfIx (data : List UInt8) : Option (UInt8 × Bytes32) :=
  match parseDepositIx data with
  | some deposit => some deposit
  | none => parseWithdrawIx data

/-! ### What the program appends -/

/-- The denomination and the leaf. -/
def appended : Call env → Option (UInt8 × Bytes32)
  | .deposit _ denomId commitment => some (denomId, commitment)
  | .withdraw _ denomId _ _ signals => some (denomId, getElem signals 5 Signal.change_lt)
  | _ => none

/-- The leaves of one denomination. -/
def leavesOf (d : UInt8) (xs : List (UInt8 × Bytes32)) : List Bytes32 :=
  xs.filterMap fun x => if x.1 = d then some x.2 else none

theorem leavesOf_append (d : UInt8) (xs ys : List (UInt8 × Bytes32)) :
    leavesOf d (xs ++ ys) = leavesOf d xs ++ leavesOf d ys :=
  List.filterMap_append

/-- The instructions of a log. -/
def callOf : Action env → Option (Call env)
  | .call _ c => some c
  | .external _ => none

/-- **The leaves of a history** are what its instructions append. -/
theorem map_leaf_history (d : UInt8) (log : List (Action env)) :
    (history d log).map Entry.leaf = leavesOf d ((log.filterMap callOf).filterMap appended) := by
  rw [history, leavesOf, List.map_filterMap, List.filterMap_filterMap, List.filterMap_filterMap]
  refine List.filterMap_congr fun a _ => ?_
  rcases a with ⟨slot, c⟩ | ledger
  · cases c with
    | deposit accounts denomId commitment | withdraw accounts denomId nullifierHash proof signals =>
        simp only [entry, callOf, appended, Option.bind_some]
        split <;> rfl
    | initializePool | initializeDenomination | setPaused | queueVkUpgrade | applyVkUpgrade
    | setFeeVault => rfl
  · rfl

/-! ### Reading it -/

/-- Bytes after a field are not read. -/
theorem dataBytes_append_right {n offset : ℕ} {data : List UInt8} (trailing : List UInt8)
    (h : offset + n ≤ data.length) :
    dataBytes n (data ++ trailing) offset = dataBytes n data offset := by
  rw [dataBytes, dataBytes, List.drop_append_of_le_length (by omega),
    List.take_append_of_le_length (by rw [List.length_drop]; omega)]

theorem take_data (c : Call env) (trailing : List UInt8) :
    (c.data ++ trailing).take 8 = c.discriminator := by
  rw [Call.data, List.append_assoc, List.take_left' c.length_discriminator]

theorem parseDepositIx_of_ne {c : Call env} (h : c.discriminator ≠ DEPOSIT_DISC)
    (trailing : List UInt8) : parseDepositIx (c.data ++ trailing) = none := by
  rw [parseDepositIx, take_data, if_pos h, ite_self]

theorem parseWithdrawIx_of_ne {c : Call env} (h : c.discriminator ≠ WITHDRAW_DISC)
    (trailing : List UInt8) : parseWithdrawIx (c.data ++ trailing) = none := by
  rw [parseWithdrawIx, take_data, if_pos h, ite_self]

theorem parseDepositIx_deposit (accounts : DepositAccounts env) (denomId : UInt8)
    (commitment : Bytes32) (trailing : List UInt8) :
    parseDepositIx ((Call.deposit accounts denomId commitment).data ++ trailing) =
      some (denomId, commitment) := by
  have hbytes := dataBytes_append (DEPOSIT_DISC ++ [denomId]) commitment trailing
    (show (DEPOSIT_DISC ++ [denomId]).length = 9 from rfl)
  have hdata : (Call.deposit accounts denomId commitment).data ++ trailing =
      DEPOSIT_DISC ++ [denomId] ++ (commitment.toList ++ trailing) := by
    simp [Call.data, Call.discriminator, Call.args]
  have hlength : ¬ (DEPOSIT_DISC ++ [denomId] ++ (commitment.toList ++ trailing)).length <
      8 + 1 + 32 := by
    simp [DEPOSIT_DISC]
  have hdisc : (Call.deposit accounts denomId commitment).discriminator = DEPOSIT_DISC := rfl
  rw [parseDepositIx, take_data, hdata, if_neg hlength, if_neg (not_not.mpr hdisc), hbytes]
  rfl

theorem parseWithdrawIx_withdraw (accounts : WithdrawAccounts env) (denomId : UInt8)
    (nullifierHash : Bytes32) (proof : Bytes PROOF_BYTES)
    (signals : Vector Bytes32 PUBLIC_SIGNAL_COUNT) (trailing : List UInt8) :
    parseWithdrawIx ((Call.withdraw accounts denomId nullifierHash proof signals).data ++
      trailing) = some (denomId, signals[5]) := by
  have hlength : (Call.withdraw accounts denomId nullifierHash proof signals).data.length =
      WITHDRAW_MIN_LEN := by
    simp [Call.data, Call.args, signalBytes, WITHDRAW_MIN_LEN, WITHDRAW_PROOF_BYTES,
      WITHDRAW_PUBLIC_SIGNAL_COUNT, PROOF_BYTES, PUBLIC_SIGNAL_COUNT]
  have hsignals := (dataBytes_withdraw denomId nullifierHash proof signals).2.2
  have hchange : dataBytes 32 (Call.withdraw accounts denomId nullifierHash proof signals).data
      WITHDRAW_CHANGE_OFFSET = signals[5] := by
    conv_rhs => rw [← hsignals]
    rw [Vector.getElem_ofFn]
    rfl
  have hdisc : (Call.withdraw accounts denomId nullifierHash proof signals).discriminator =
      WITHDRAW_DISC := rfl
  rw [parseWithdrawIx, take_data, if_neg (by rw [List.length_append, hlength]; omega),
    if_neg (not_not.mpr hdisc), dataBytes_append_right trailing (by rw [hlength]; decide), hchange]
  rfl

/-- **The indexer reads** of an instruction what the program appends. -/
theorem leafOfIx_data (c : Call env) (trailing : List UInt8) :
    leafOfIx (c.data ++ trailing) = appended c := by
  cases c with
  | deposit accounts denomId commitment => rw [leafOfIx, parseDepositIx_deposit]; rfl
  | withdraw accounts denomId nullifierHash proof signals =>
      rw [leafOfIx, parseDepositIx_of_ne (by rw [Call.discriminator]; decide),
        parseWithdrawIx_withdraw]
      rfl
  | initializePool | initializeDenomination | setPaused | queueVkUpgrade | applyVkUpgrade
  | setFeeVault =>
      rw [leafOfIx, parseDepositIx_of_ne (by rw [Call.discriminator]; decide),
        parseWithdrawIx_of_ne (by rw [Call.discriminator]; decide)]
      rfl

end Qietr.Indexer
