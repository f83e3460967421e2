import Qietr.Escrow.Accounts
import Qietr.Library.Base58
import Qietr.Library.Base64
import Qietr.Library.Doubles
import Qietr.Library.NumberText
import Qietr.Msg.Program
import Qietr.Sdk.X402

/-!
# SDK — the accounts of the programs

`parseJobAccount` and `parseMessageAccount`: the fields of an account, each at its offset of the
bytes.

* `ParsedJob`, `EncryptedMessage`: what they return.
* `parseJobAccount_data`, `parseMessageAccount_data`: of the bytes of an account, its fields.
* `decode_b64encode`: a body is read back from its text.
* `parsers_invert`: jobs, and in every run of the program its messages; a time is the double next
  to it.
-/

namespace Qietr.Sdk

open Borsh Doubles NumberText

/-! ### Buffers -/

def pubkeyFromSlice (data : List UInt8) (off : ℕ) : String :=
  Base58.encode (bytesAt 32 (data.drop off)).toList

/-- `Number(buf.readBigInt64LE(off))`. -/
def readTime (data : List UInt8) (off : ℕ) : ℤ :=
  double (int64At (data.drop off)).toInt

/-- `Number.isSafeInteger`. -/
def IsSafe (n : ℤ) : Prop :=
  |n| ≤ 2 ^ 53 - 1

theorem double_of_isSafe {n : ℤ} (h : IsSafe n) : double n = n :=
  double_of_isDouble (isDouble_of_le (h.trans (by norm_num)))

/-! ### Jobs -/

/-- A number, which the parser does not check. -/
abbrev JobState := UInt8

namespace JobState

def Created : JobState := 0
def Accepted : JobState := 1
def Completed : JobState := 2
def Released : JobState := 3
def Disputed : JobState := 4
def Refunded : JobState := 5

end JobState

structure ParsedJob where
  client : String
  agent : String
  nonce : String
  priceMicro : ℕ
  createdAt : ℤ
  acceptedAt : ℤ
  completedAt : ℤ
  resolvedAt : ℤ
  state : JobState
  bump : UInt8
  escrowBump : UInt8

def parseJobAccount (data : List UInt8) : Option ParsedJob :=
  let MIN_SIZE := 8 + 32 + 32 + 8 + 8 + 8 + 8 + 8 + 8 + 1 + 1 + 1
  if data.length < MIN_SIZE then none
  else if data.take 8 ≠ Escrow.JOB_DISC then none
  else
    some
      { client := pubkeyFromSlice data 8
        agent := pubkeyFromSlice data 40
        nonce := String.ofList (hexOf ((data.drop 72).take 8))
        priceMicro := natAt 8 (data.drop 80)
        createdAt := readTime data 88
        acceptedAt := readTime data 96
        completedAt := readTime data 104
        resolvedAt := readTime data 112
        state := data.getD 120 0
        bump := data.getD 121 0
        escrowBump := data.getD 122 0 }

/-- The SDK's name for a state of the program. -/
def stateOf : Escrow.JobState → JobState
  | .created => JobState.Created
  | .accepted => JobState.Accepted
  | .completed => JobState.Completed
  | .released => JobState.Released
  | .disputed => JobState.Disputed
  | .refunded => JobState.Refunded

theorem variant_eq (state : Escrow.JobState) : state.variant = stateOf state := by
  cases state with
  | created => rfl
  | accepted => rfl
  | completed => rfl
  | released => rfl
  | disputed => rfl
  | refunded => rfl

/-- The fields of a job, as they are shown. -/
def fieldsOfJob (job : Escrow.Job) : ParsedJob where
  client := Base58.encode job.client.toList
  agent := Base58.encode job.agent.toList
  nonce := String.ofList (hexOf job.nonce.toList)
  priceMicro := job.priceMicro.toNat
  createdAt := job.createdAt
  acceptedAt := job.acceptedAt
  completedAt := job.completedAt
  resolvedAt := job.resolvedAt
  state := stateOf job.state
  bump := job.bump
  escrowBump := job.escrowBump

/-! ### A field at its place -/

section

variable {data rest : List UInt8} {off : ℕ}

theorem pubkeyFromSlice_of {key : Pubkey} (h : data.drop off = key.toList ++ rest) :
    pubkeyFromSlice data off = Base58.encode key.toList := by
  rw [pubkeyFromSlice, h, bytesAt_toList]

theorem readTime_of {time : Int64} (h : data.drop off = writeI64 time ++ rest) :
    readTime data off = double time.toInt := by
  rw [readTime, h, int64At_writeI64]

/-- A safe time is what was written. -/
theorem readTime_of_isSafe {time : ℤ} (hsafe : IsSafe time)
    (h : data.drop off = writeI64 (.ofInt time) ++ rest) : readTime data off = time := by
  obtain ⟨hge, hle⟩ := abs_le.mp hsafe
  have htime : (Int64.ofInt time).toInt = time :=
    Int64.toInt_ofInt_of_le (by omega) (by omega)
  rw [readTime_of h, htime, double_of_isSafe hsafe]

theorem byte_of {b : UInt8} (h : data.drop off = writeU8 b ++ rest) : data.getD off 0 = b := by
  have hget : data[off]? = some b := by
    rw [← Nat.add_zero off, ← List.getElem?_drop, h]
    rfl
  rw [List.getD_eq_getElem?_getD, hget, Option.getD_some]

end

/-- **A job** is read back. -/
theorem parseJobAccount_data {job : Escrow.Job} (hcreated : IsSafe job.createdAt)
    (haccepted : IsSafe job.acceptedAt) (hcompleted : IsSafe job.completedAt)
    (hresolved : IsSafe job.resolvedAt) :
    parseJobAccount job.data = some (fieldsOfJob job) := by
  have hclient : job.data.drop 8 = job.client.toList ++ _ := rfl
  have hagent := drop_next hclient (n := 32) (Vector.length_toList)
  have hnonce := drop_next hagent (n := 32) (Vector.length_toList)
  have hprice := drop_next hnonce (n := 8) (Vector.length_toList)
  have hcreatedAt := drop_next hprice (writeU64_length _)
  have hacceptedAt := drop_next hcreatedAt (writeI64_length _)
  have hcompletedAt := drop_next hacceptedAt (writeI64_length _)
  have hresolvedAt := drop_next hcompletedAt (writeI64_length _)
  have hstate := drop_next hresolvedAt (writeI64_length _)
  have hbump := drop_next hstate (writeU8_length _)
  have hescrowBump : job.data.drop 122 = writeU8 job.escrowBump ++ [] :=
    drop_next hbump (writeU8_length _)
  have nonce : (job.data.drop 72).take 8 = job.nonce.toList := by
    rw [hnonce, List.take_left' (Vector.length_toList)]
  have priceMicro : natAt 8 (job.data.drop 80) = job.priceMicro.toNat := by
    rw [hprice, natAt_writeU64]
  have client : pubkeyFromSlice job.data 8 = _ := pubkeyFromSlice_of hclient
  have agent : pubkeyFromSlice job.data 40 = _ := pubkeyFromSlice_of hagent
  have createdAt : readTime job.data 88 = _ := readTime_of_isSafe hcreated hcreatedAt
  have acceptedAt : readTime job.data 96 = _ := readTime_of_isSafe haccepted hacceptedAt
  have completedAt : readTime job.data 104 = _ := readTime_of_isSafe hcompleted hcompletedAt
  have resolvedAt : readTime job.data 112 = _ := readTime_of_isSafe hresolved hresolvedAt
  have state : job.data.getD 120 0 = stateOf job.state :=
    (byte_of hstate).trans (variant_eq job.state)
  have bump : job.data.getD 121 0 = job.bump := byte_of hbump
  have escrowBump : job.data.getD 122 0 = job.escrowBump := byte_of hescrowBump
  have hdisc : job.data.take 8 = Escrow.JOB_DISC := rfl
  rw [parseJobAccount, if_neg (by rw [job.length_data]; decide), if_neg (not_not_intro hdisc),
    client, agent, nonce, priceMicro, createdAt, acceptedAt, completedAt, resolvedAt, state, bump,
    escrowBump]
  rfl

/-! ### Messages -/

def b64encode (bytes : List UInt8) : String :=
  String.ofList (base64Chars bytes)

structure EncryptedMessage where
  pda : String
  /-- `from`. -/
  sender : String
  /-- `to`. -/
  recipient : String
  timestamp : ℤ
  bodyBase64 : String

variable (env : Msg.MsgEnv)

def parseMessageAccount (data : List UInt8) : Option EncryptedMessage :=
  if data.length < 1115 then none
  else if data.take 8 ≠ Msg.MESSAGE_DISC then none
  else
    let bodyLen := natAt 2 (data.drop 88)
    let body := (data.drop 91).take bodyLen
    let pda := env.pda
      { sender := bytesAt 32 (data.drop 8)
        recipient := bytesAt 32 (data.drop 40)
        nonce := bytesAt 8 (data.drop 72) }
    some
      { pda := Base58.encode pda.toList
        sender := pubkeyFromSlice data 8
        recipient := pubkeyFromSlice data 40
        timestamp := readTime data 80
        bodyBase64 := b64encode body }

/-- A letter as it is shown; a time is the double next to it. -/
def shown (key : Pubkey) (letter : Msg.Letter) : EncryptedMessage where
  pda := Base58.encode key.toList
  sender := Base58.encode letter.sender.toList
  recipient := Base58.encode letter.recipient.toList
  timestamp := double letter.timestamp.toInt
  bodyBase64 := b64encode letter.body

/-- **A message** is shown as its letter, and nothing of the buffer that comes after the body. -/
theorem parseMessageAccount_data (msg : Msg.Message) :
    parseMessageAccount env msg.data = some (shown (env.pda msg.seed) msg.letter) := by
  have hsender : msg.data.drop 8 = msg.sender.toList ++ _ := rfl
  have hrecipient := drop_next hsender (n := 32) (Vector.length_toList)
  have hnonce := drop_next hrecipient (n := 32) (Vector.length_toList)
  have htimestamp := drop_next hnonce (n := 8) (Vector.length_toList)
  have hbodyLen := drop_next htimestamp (writeI64_length _)
  have hbump := drop_next hbodyLen (writeU16_length _)
  have hbody := drop_next hbump (writeU8_length _)
  have sender : pubkeyFromSlice msg.data 8 = _ := pubkeyFromSlice_of hsender
  have recipient : pubkeyFromSlice msg.data 40 = _ := pubkeyFromSlice_of hrecipient
  have timestamp : readTime msg.data 80 = _ := readTime_of htimestamp
  have bodyLen : natAt 2 (msg.data.drop 88) = msg.bodyLen.toNat := by
    rw [hbodyLen, natAt_writeU16]
  have body : msg.data.drop 91 = msg.body.toList := hbody
  have seed : Msg.MsgSeed.mk (bytesAt 32 (msg.data.drop 8)) (bytesAt 32 (msg.data.drop 40))
      (bytesAt 8 (msg.data.drop 72)) = msg.seed := by
    rw [hsender, bytesAt_toList, hrecipient, bytesAt_toList, hnonce, bytesAt_toList]
    rfl
  have hdisc : msg.data.take 8 = Msg.MESSAGE_DISC := rfl
  rw [parseMessageAccount, if_neg (by rw [msg.length_data]; decide), if_neg (not_not_intro hdisc),
    seed, sender, recipient, timestamp, bodyLen, body]
  rfl

/-! ### The text of a body -/

theorem digit_of_base64Digit {n : ℕ} (hn : n < 64) :
    base64Digit n ≠ '=' ∧ Base64.digitValue (base64Digit n) = some n := by
  revert n
  decide +kernel

/-- A digit is read. -/
theorem filterMap_base64Digit {n : ℕ} (hn : n < 64) (cs : List Char) :
    ((base64Digit n :: cs).takeWhile (· ≠ '=')).filterMap Base64.digitValue =
      n :: (cs.takeWhile (· ≠ '=')).filterMap Base64.digitValue := by
  obtain ⟨hne, hvalue⟩ := digit_of_base64Digit hn
  rw [List.takeWhile_cons_of_pos (by simpa using hne), List.filterMap_cons_some hvalue]

/-- And nothing after the padding. -/
theorem filterMap_padding (cs : List Char) :
    (('=' :: cs).takeWhile (· ≠ '=')).filterMap Base64.digitValue = [] := rfl

theorem ofNat_of_eq {n : ℕ} {b : UInt8} (h : n = b.toNat) : UInt8.ofNat n = b := by
  rw [h, UInt8.ofNat_toNat]

theorem base64Digit_ascii (n : ℕ) : (base64Digit n).toNat < 0x80 := by
  by_cases hn : n < 64
  · revert n
    decide +kernel
  · have hlen :
        "ABCDEFGHIJKLMNOPQRSTUVWXYZabcdefghijklmnopqrstuvwxyz0123456789+/".toList.length = 64 := by
      decide +kernel
    have hdigit : base64Digit n = '=' := List.getD_eq_default _ _ (by
      rw [hlen]
      omega)
    rw [hdigit]
    decide

/-- A text of digits and padding is in ASCII. -/
theorem base64Chars_ascii (bs : List UInt8) : ∀ c ∈ base64Chars bs, c.toNat < 0x80 := by
  induction bs using base64Chars.induct with
  | case1 => exact List.forall_mem_nil _
  | case2 a | case3 a b => simp [base64Chars, base64Digit_ascii]
  | case4 a b c rest ih => simpa [base64Chars, base64Digit_ascii] using ih

/-- **A body** is read back from its text. -/
theorem decode_b64encode (bs : List UInt8) : Base64.decode (b64encode bs) = bs := by
  have hascii : ∀ c ∈ (b64encode bs).toList, c.toNat < 0x80 := by
    rw [b64encode, String.toList_ofList]
    exact base64Chars_ascii bs
  rw [Base64.decode_of_ascii hascii, b64encode, String.toList_ofList]
  clear hascii
  unfold Base64.decodeChars
  induction bs using base64Chars.induct with
  | case1 => rfl
  | case2 a =>
      have ha := a.toNat_lt
      rw [base64Chars, filterMap_base64Digit (by omega), filterMap_base64Digit (by omega),
        filterMap_padding, Base64.bytesOf, ofNat_of_eq (b := a) (by omega)]
  | case3 a b =>
      have ha := a.toNat_lt
      have hb := b.toNat_lt
      rw [base64Chars, filterMap_base64Digit (by omega), filterMap_base64Digit (by omega),
        filterMap_base64Digit (by omega), filterMap_padding, Base64.bytesOf,
        ofNat_of_eq (b := a) (by omega), ofNat_of_eq (b := b) (by omega)]
  | case4 a b c rest ih =>
      have ha := a.toNat_lt
      have hb := b.toNat_lt
      have hc := c.toNat_lt
      rw [base64Chars, filterMap_base64Digit (by omega), filterMap_base64Digit (by omega),
        filterMap_base64Digit (by omega), filterMap_base64Digit (by omega), Base64.bytesOf,
        ofNat_of_eq (b := a) (by omega), ofNat_of_eq (b := b) (by omega),
        ofNat_of_eq (b := c) (by omega), ih]

/-! ### The parsers -/

/-- **The parsers invert the programs' accounts.**  A job is read back, if its times are safe.  A
message that has been sent is shown with its address and its body; in every run each account is
shown as the letter that lies there, which is without a body once it was deleted, and its time is
the double next to the clock, the clock itself if that is safe.  Bytes that are too few, or of
another account, are not shown at all. -/
theorem parsers_invert :
    (∀ job : Escrow.Job, IsSafe job.createdAt → IsSafe job.acceptedAt → IsSafe job.completedAt →
      IsSafe job.resolvedAt → parseJobAccount job.data = some (fieldsOfJob job)) ∧
    (∀ (s s' : Msg.MsgState) (now : Int64) (sender recipient : Pubkey) (nonce : Bytes 8)
      (body : List UInt8), Msg.send env s now sender recipient nonce body = .ok s' →
        ∃ msg, s' (env.pda ⟨sender, recipient, nonce⟩) = some msg ∧
          parseMessageAccount env msg.data = some
            { pda := Base58.encode (env.pda ⟨sender, recipient, nonce⟩).toList
              sender := Base58.encode sender.toList
              recipient := Base58.encode recipient.toList
              timestamp := double now.toInt
              bodyBase64 := b64encode body }) ∧
    (∀ (log : List (Int64 × Msg.Call)) (s : Msg.MsgState), Msg.MsgRun env log s → ∀ key,
      (s key).map (fun msg => parseMessageAccount env msg.data) =
        (Msg.mailbox env log key).map fun letter => some (shown key letter)) ∧
    (∀ (log : List (Int64 × Msg.Call)) (s s' : Msg.MsgState) (key recipient : Pubkey),
      Msg.MsgRun env log s → Msg.delete env s key recipient = .ok s' →
        ∃ letter, Msg.mailbox env log key = some letter ∧
          (s' key).map (fun msg => parseMessageAccount env msg.data) =
            some (some { shown key letter with bodyBase64 := "" })) ∧
    (∀ bs, Base64.decode (b64encode bs) = bs) ∧
    (∀ n, IsSafe n → double n = n) ∧
    (∀ data : List UInt8, data.length < 123 ∨ data.take 8 ≠ Escrow.JOB_DISC →
      parseJobAccount data = none) ∧
    ∀ data : List UInt8, data.length < 1115 ∨ data.take 8 ≠ Msg.MESSAGE_DISC →
      parseMessageAccount env data = none := by
  refine ⟨fun _ => parseJobAccount_data, ?_, ?_, ?_, decode_b64encode, fun _ => double_of_isSafe,
    ?_, ?_⟩
  · intro s s' now sender recipient nonce body hsend
    obtain ⟨-, hlen, rfl⟩ := Msg.send_eq_ok.mp hsend
    refine ⟨_, Function.update_self .., ?_⟩
    rw [parseMessageAccount_data, Msg.letter_newMessage _ hlen]
    rfl
  · intro log s hrun key
    obtain ⟨hletter, hkey⟩ := hrun.mailbox key
    rw [← hletter, Option.map_map]
    refine Option.map_congr fun msg hmsg => ?_
    rw [parseMessageAccount_data, hkey msg hmsg]
    rfl
  · intro log s s' key recipient hrun hdelete
    obtain ⟨msg, hload, rfl⟩ := Msg.delete_eq_ok.mp hdelete
    obtain ⟨hmsg, -, -⟩ := Msg.loadMessage_eq_ok.mp hload
    obtain ⟨hletter, hkey⟩ := hrun.mailbox key
    refine ⟨msg.letter, by rw [← hletter, hmsg, Option.map_some], ?_⟩
    rw [Function.update_self, Option.map_some, parseMessageAccount_data, ← hkey msg hmsg]
    rfl
  · intro data hdata
    rw [parseJobAccount]
    split_ifs with hlen hdisc
    · rfl
    · rfl
    · exact (hdata.elim hlen hdisc).elim
  · intro data hdata
    rw [parseMessageAccount]
    split_ifs with hlen hdisc
    · rfl
    · rfl
    · exact (hdata.elim hlen hdisc).elim

/-- A clock that is no double. -/
theorem late_time_rounded :
    let env : Msg.MsgEnv := ⟨fun _ => zero32, fun _ => 255⟩
    ∃ s' msg, Msg.send env (fun _ => none) (2 ^ 53 + 1) zero32 zero32 (Bytes.zero 8) [] = .ok s' ∧
      s' zero32 = some msg ∧ (parseMessageAccount env msg.data).map EncryptedMessage.timestamp ≠
        some (2 ^ 53 + 1) := by
  intro env
  refine ⟨_, _, Msg.send_eq_ok.mpr ⟨rfl, by decide, rfl⟩, Function.update_self .., ?_⟩
  rw [parseMessageAccount_data]
  decide +kernel

end Qietr.Sdk
