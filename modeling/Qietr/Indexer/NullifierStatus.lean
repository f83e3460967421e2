import Qietr.Indexer.Feed
import Qietr.Indexer.CommitmentParam
import Qietr.Library.Json
import Qietr.Sdk.Client

/-!
# Indexer — whether a note is spent

`nullifier-status.ts`, and the question that a payment asks of it before it pays for a proof.

* `nullifierStatus`: the answer of the route, from the rows that are there.
* `askStatus`: what the SDK is told.
* `nullifierRow_of_run`: a row is that of a record of the chain.
* `refusal_sound`: a payment that is refused for it could not have been made.
-/

namespace Qietr.Indexer

open BigIntText NumberText Outcome Pool Upsert

/-! ### The route -/

structure NullifierStatusQuery where
  denomId : Option String
  nullifierHash : Option String

/-- An answer, but for the time at which the row was written. -/
inductive StatusReply where
  | missingParam
  | invalidDenomId
  | invalidNullifierHash (message : String)
  | unspent
  | spent (spentAtSlot : String)
  deriving DecidableEq

namespace StatusReply

def code : StatusReply → ℕ
  | missingParam | invalidDenomId | invalidNullifierHash _ => 400
  | unspent | spent _ => 200

def body : StatusReply → Json
  | missingParam => .obj [("error", .str "missing_param"),
      ("required", .arr [.str "denomId", .str "nullifierHash"])]
  | invalidDenomId => .obj [("error", .str "invalid_denom_id")]
  | invalidNullifierHash message =>
      .obj [("error", .str "invalid_nullifier_hash"), ("message", .str message)]
  | unspent => .obj [("spent", .bool false)]
  | spent spentAtSlot => .obj [("spent", .bool true), ("spentAtSlot", .str spentAtSlot)]

end StatusReply

/-- The denomination and the nullifier that are asked for. -/
def readStatusQuery (query : NullifierStatusQuery) : Except StatusReply (UInt8 × List UInt8) := do
  let denomId ← okOr (query.denomId.filter (· ≠ "")) .missingParam
  let nullifierHash ← okOr (query.nullifierHash.filter (· ≠ "")) .missingParam
  let denomIdNum ← okOr (parseInt 10 denomId.toList) .invalidDenomId
  require (0 ≤ denomIdNum ∧ denomIdNum ≤ 255) .invalidDenomId
  let nullifierBuf ← (parseCommitmentParam nullifierHash).mapError .invalidNullifierHash
  .ok (UInt8.ofNat denomIdNum.toNat, nullifierBuf)

/-- **The route.** -/
def nullifierStatus (nullifiers : List NullifierRow) (query : NullifierStatusQuery) : StatusReply :=
  match readStatusQuery query with
  | .error reply => reply
  | .ok (denomId, nullifierBuf) =>
      match nullifiers.find? fun row =>
          row.denomId = denomId ∧ row.nullifierHashBe.toList = nullifierBuf with
      | none => .unspent
      | some row => .spent (toString row.spentAtSlot)

/-! ### The SDK's question -/

/-- `"0x" + Buffer.from (…).toString ("hex")`. -/
def hexText (bs : List UInt8) : String :=
  String.ofList ('0' :: 'x' :: hexOf bs)

/-- The parameters of the client. -/
def statusQuery (denomId : ℕ) (nullifierHash : Bytes32) : NullifierStatusQuery where
  denomId := some (toString denomId)
  nullifierHash := some (hexText nullifierHash.toList)

/-- An answer as the client passes it on: `getJson`, and what is read of the body. -/
def StatusReply.received (reply : StatusReply) : Except String Sdk.NullifierStatus :=
  if reply.code = 200 then
    .ok
      { spent := (reply.body.get "spent").any Json.truthy
        spentAtSlot := (reply.body.get "spentAtSlot").bind Json.string? }
  else .error ("indexer " ++ toString reply.code ++ ": " ++ reply.body.stringify)

/-- What a payment is told. -/
def askStatus (nullifiers : List NullifierRow) (denomId : ℕ) (nullifierHash : Bytes32) :
    Except String Sdk.NullifierStatus :=
  (nullifierStatus nullifiers (statusQuery denomId nullifierHash)).received

variable {env : PoolEnv} {d : UInt8} {x : Bytes32}

theorem hexText_ne (bs : List UInt8) : hexText bs ≠ "" := by
  intro h
  have hlist := congrArg String.toList h
  rw [hexText, String.toList_ofList] at hlist
  cases hlist

theorem toString_ne (n : ℕ) : toString n ≠ "" := by
  intro h
  have hlist := congrArg String.toList h
  rw [Nat.toString_eq_ofList_toDigits, String.toList_ofList] at hlist
  exact Nat.toDigits_ne_nil hlist

/-- The bytes of a field element are read from their text. -/
theorem parseCommitmentParam_hexText (hx : x.toNat < r) :
    parseCommitmentParam (hexText x.toList) = .ok x.toList := by
  have hbytes : x.toList = beBytes 32 x.toNat := by
    have hb := beBytes_beNat x.toList
    rw [Vector.length_toList] at hb
    exact hb.symm
  have hlt : x.toNat < 16 ^ (2 * 32) := x.toNat_lt.trans_eq (pow_256 32)
  have hdenotes : Denotes ('0' :: 'x' :: hexOf x.toList) x.toNat := by
    rw [hbytes, ← fixed_eq_hexOf]
    exact .hex (.inl rfl) (digits_eq_some.mp (digits_fixed (by norm_num) hlt))
  exact parseCommitmentParam_ok.mpr ⟨x.toNat, hdenotes.written, hx, hbytes⟩

/-- **The question is read**, of a hash that is a field element. -/
theorem readStatusQuery_statusQuery (d : UInt8) (hx : x.toNat < r) :
    readStatusQuery (statusQuery d.toNat x) = .ok (d, x.toList) := by
  have hid : (some (toString d.toNat)).filter (· ≠ "") = some (toString d.toNat) :=
    Option.filter_some_pos (decide_eq_true (toString_ne _))
  have hhash : (some (hexText x.toList)).filter (· ≠ "") = some (hexText x.toList) :=
    Option.filter_some_pos (decide_eq_true (hexText_ne _))
  have hd := d.toNat_lt
  rw [readStatusQuery, statusQuery, hid, hhash, okOr_some, ok_bind, okOr_some, ok_bind,
    parseInt_toString, okOr_some, ok_bind, require_of _ (by omega), ok_bind,
    parseCommitmentParam_hexText hx]
  show Except.ok (UInt8.ofNat (d.toNat : ℤ).toNat, x.toList) = _
  rw [Int.toNat_natCast, UInt8.ofNat_toNat]

/-- What a payment is told, of the row that is there. -/
theorem askStatus_eq (nullifiers : List NullifierRow) (d : UInt8) (hx : x.toNat < r) :
    askStatus nullifiers d.toNat x = .ok
      (match lookup NullifierRow.key nullifiers (d, x) with
      | none => { spent := false, spentAtSlot := none }
      | some row => { spent := true, spentAtSlot := some (toString row.spentAtSlot) }) := by
  have hfind : (nullifiers.find? fun row =>
      row.denomId = d ∧ row.nullifierHashBe.toList = x.toList) =
        lookup NullifierRow.key nullifiers (d, x) := by
    rw [lookup]
    congr 1
    funext row
    rw [decide_eq_decide, NullifierRow.key, Prod.mk.injEq, Vector.toList_inj]
  rw [askStatus, nullifierStatus, readStatusQuery_statusQuery d hx]
  simp only [hfind]
  cases lookup NullifierRow.key nullifiers (d, x) with
  | none => rfl
  | some row => rfl

/-! ### Over a feed -/

/-- The row of a nullifier, as a writer writes it. -/
def nullifierRowOf (w : Writer) (n : NullifierRecord) : NullifierRow where
  denomId := n.denomId
  nullifierHashBe := n.nullifierHash
  spentAtSlot := w.spent n.spentAtSlot

/-- A record that was written is one of the chain, with the slot of the only spend. -/
theorem FedOk.record {log : List (FeedEvent env)} {st : Fed} (h : FedOk log st) {w : Writer}
    {n : NullifierRecord} {slot : ℕ} (hmem : .wrote w (.nullifier n) slot ∈ log) :
    ∃ d x t, n = nullifierRecord env d x t ∧ spendSlots d x (chainOf log) = [t] := by
  obtain ⟨log₁, log₂, s, hlog, hrun, d, x, hn⟩ := h.wrote w _ slot hmem
  rcases recorded_of_run hrun d x with ⟨-, hnone⟩ | ⟨t, hspent, hsome⟩
  · rw [hnone] at hn
    cases hn
  · rw [hsome] at hn
    refine ⟨d, x, t, (Option.some.inj hn).symm, ?_⟩
    rcases recorded_of_run h.run d x with ⟨hnone, -⟩ | ⟨t', hspent', -⟩
    · rw [hlog, spendSlots, List.filterMap_append, ← spendSlots, hspent] at hnone
      cases hnone
    · rw [hspent']
      rw [hlog, spendSlots, List.filterMap_append, ← spendSlots, hspent] at hspent'
      obtain ⟨rfl, -⟩ := List.cons.inj hspent'
      rfl

/-- The row of a nullifier is the first that was written. -/
theorem FedOk.lookup_nullifiers {log : List (FeedEvent env)} {st : Fed} (h : FedOk log st)
    (d : UInt8) (x : Bytes32) : lookup NullifierRow.key st.store.nullifiers (d, x) =
      ((writesOf log).filterMap nullifierOf).find? fun row => row.key = (d, x) := by
  rw [h.store, (tables_foldl _ _).2.2]
  exact lookup_foldl_first (fun _ _ => rfl) _ _

/-- **A row is that of a record**: it is there just when a writer has written the record, with the
slot of the spend as one of them has written it. -/
theorem nullifierRow_of_run {log : List (FeedEvent env)} {st : Fed} (h : FeedRun env log st)
    (d : UInt8) (x : Bytes32) :
    (lookup NullifierRow.key st.store.nullifiers (d, x) = none ∧
      ∀ w n slot, .wrote w (.nullifier n) slot ∈ log → (n.denomId, n.nullifierHash) ≠ (d, x)) ∨
    ∃ w slot t, lookup NullifierRow.key st.store.nullifiers (d, x) =
        some (nullifierRowOf w (nullifierRecord env d x t)) ∧
      .wrote w (.nullifier (nullifierRecord env d x t)) slot ∈ log ∧
      spendSlots d x (chainOf log) = [t] := by
  have hok := fedOk_of_run h
  rw [hok.lookup_nullifiers]
  cases hfind : ((writesOf log).filterMap nullifierOf).find? fun row => row.key = (d, x) with
  | none =>
      refine .inl ⟨rfl, fun w n slot hmem hkey => ?_⟩
      have hwritten : .insertNullifier (nullifierRowOf w n) ∈ writesOf log :=
        List.mem_filterMap.mpr ⟨_, hmem, rfl⟩
      have hrow := (mem_filterMap_iff nullifierOf_eq_some).mpr hwritten
      exact List.find?_eq_none.mp hfind _ hrow (decide_eq_true hkey)
  | some row =>
      have hkey : row.key = (d, x) := by simpa using List.find?_some hfind
      have hwritten :=
        (mem_filterMap_iff nullifierOf_eq_some).mp (List.mem_of_find?_eq_some hfind)
      obtain ⟨c, hmem, hc⟩ := List.mem_filterMap.mp hwritten
      cases c with
      | chain a => cases hc
      | wrote w a slot =>
          cases a with
          | config | denomination => cases hc
          | tree t =>
              obtain ⟨_, -, heq⟩ := Option.map_eq_some_iff.mp hc
              cases heq
          | nullifier n =>
              cases hc
              obtain ⟨d', x', t, rfl, hspent⟩ := hok.record hmem
              cases hkey
              exact .inr ⟨w, slot, t, rfl, hmem, hspent⟩

/-- A row that is there stays as it is. -/
theorem lookup_nullifiers_stays {log log' : List (FeedEvent env)} {st st' : Fed}
    (h : FeedRun env log st) (hlater : Run (· = st) (FeedStep env) log' st') {row : NullifierRow}
    (hrow : lookup NullifierRow.key st.store.nullifiers (d, x) = some row) :
    lookup NullifierRow.key st'.store.nullifiers (d, x) = some row := by
  rw [(fedOk_of_run h).lookup_nullifiers] at hrow
  rw [(fedOk_of_run (h.extend hlater)).lookup_nullifiers, writesOf_append, List.filterMap_append,
    List.find?_append, hrow, Option.some_or]

/-- A record of the nullifier was written. -/
def Shown (log : List (FeedEvent env)) (d : UInt8) (x : Bytes32) : Prop :=
  ∃ w n slot, .wrote w (.nullifier n) slot ∈ log ∧ n.denomId = d ∧ n.nullifierHash = x

/-- What the SDK makes of the answer to its question about `x`. -/
def Refused (st : Fed) (d : UInt8) (x : Bytes32) : Prop :=
  Sdk.checkUnspent (askStatus st.store.nullifiers d.toNat x) ≠ .ok ()

theorem refused_iff (st : Fed) (d : UInt8) (hx : x.toNat < r) :
    Refused st d x ↔ (lookup NullifierRow.key st.store.nullifiers (d, x)).isSome := by
  rw [Refused, askStatus_eq _ d hx]
  cases lookup NullifierRow.key st.store.nullifiers (d, x) with
  | none => simp [Sdk.checkUnspent, require]
  | some row => simp [Sdk.checkUnspent, require]

theorem refused_iff_shown {log : List (FeedEvent env)} {st : Fed} (h : FeedRun env log st)
    (d : UInt8) (hx : x.toNat < r) : Refused st d x ↔ Shown log d x := by
  rw [refused_iff st d hx]
  rcases nullifierRow_of_run h d x with ⟨hnone, hno⟩ | ⟨w, slot, t, hsome, hmem, -⟩
  · rw [hnone]
    refine iff_of_false (by simp) ?_
    rintro ⟨w, n, slot, hmem, rfl, rfl⟩
    exact hno w n slot hmem rfl
  · rw [hsome]
    exact iff_of_true rfl ⟨w, _, slot, hmem, rfl, rfl⟩

/-- **No payment is refused that could be made.**  The SDK refuses a note, before it pays for the
proof, just when some writer has stored the record of its nullifier.  Then the program has spent it,
once; no withdraw with it succeeds from there on; and the SDK refuses it for ever, with the same
words. -/
theorem refusal_sound {log : List (FeedEvent env)} {st : Fed} (h : FeedRun env log st) (d : UInt8)
    (z : F) :
    (Refused st d (encode z) ↔ Shown log d (encode z)) ∧
    (Refused st d (encode z) →
      (∃ t, spendSlots d (encode z) (chainOf log) = [t]) ∧
      (∀ log' s', Run (· = st.chain) (Step env) log' s' → ∀ slot accounts proof signals s'',
        withdraw env s' slot accounts d (encode z) proof signals ≠ .ok s'') ∧
      ∀ log' st', Run (· = st) (FeedStep env) log' st' →
        askStatus st'.store.nullifiers d.toNat (encode z) =
          askStatus st.store.nullifiers d.toNat (encode z)) := by
  have hz : (encode z).toNat < r := by
    rw [toNat_encode]
    exact z.val_lt
  refine ⟨refused_iff_shown h d hz, fun hrefused => ?_⟩
  rcases nullifierRow_of_run h d (encode z) with ⟨hnone, -⟩ | ⟨w, slot, t, hsome, -, hspent⟩
  · rw [refused_iff st d hz, hnone] at hrefused
    cases hrefused
  · refine ⟨⟨t, hspent⟩, fun log' s' hlater => ?_, fun log' st' hlater => ?_⟩
    · rcases recorded_of_run (fedOk_of_run h).run d (encode z) with ⟨hquiet, -⟩ | ⟨_, -, hrecord⟩
      · rw [hspent] at hquiet
        cases hquiet
      · exact withdraw_ne_ok hlater hrecord
    · rw [askStatus_eq _ d hz, askStatus_eq _ d hz, hsome, lookup_nullifiers_stays h hlater hsome]

/-- The plugin can write the record of a nullifier, after the denomination of it. -/
theorem exists_shown {log : List (Action env)} {s : PoolState} (h : PoolRun env log s)
    {denomination : Denomination} {n : NullifierRecord} (hd : s.denomination d = some denomination)
    (hn : s.nullifier d x = some n) :
    ∃ log' st, FeedRun env log' st ∧ Shown log' d x := by
  obtain ⟨st, hrun, -, hpast, hstore⟩ := exists_fed h
  have hid : denomination.denomId = d := by
    rcases denomination_of_run h d with ⟨-, hnone⟩ | ⟨_, _, -, hsome, hid, -⟩
    · rw [hd] at hnone
      cases hnone
    · rw [hd] at hsome
      cases hsome
      exact hid
  obtain ⟨t, rfl⟩ : ∃ t, n = nullifierRecord env d x t := by
    rcases recorded_of_run h d x with ⟨-, hnone⟩ | ⟨t, -, hsome⟩
    · rw [hn] at hnone
      cases hnone
    · exact ⟨t, Option.some.inj (hn.symm.trans hsome)⟩
  have hfirst : FeedStep env st (.wrote .plugin (.denomination denomination) 1) _ :=
    .accepted hpast ⟨d, hd⟩ rfl ⟨fits_asI64 _, fits_asI64 _⟩
  rw [hstore] at hfirst
  have hrun₁ := hrun.snoc hfirst
  generalize hst : Fed.mk st.chain st.past _ = st₁ at hrun₁
  have hthere : st₁.store.hasDenomination d := by
    rw [← hst]
    exact List.mem_singleton.mpr hid.symm
  have hpast₁ : s ∈ st₁.past := by rwa [← hst]
  have hsecond : FeedStep env st₁ (.wrote .plugin (.nullifier (nullifierRecord env d x t)) 1) _ :=
    .accepted hpast₁ ⟨d, x, hn⟩ rfl ⟨fits_asI64 _, hthere⟩
  exact ⟨_, _, hrun₁.snoc hsecond,
    ⟨_, _, _, List.mem_append_right _ (List.mem_singleton_self _), rfl, rfl⟩⟩

/-- A note that was spent, and whose record the plugin has written. -/
theorem refusal_sound_spent : ∃ (log : List (FeedEvent (ideal (offZero circom)))) (st : Fed)
    (z : F), FeedRun (ideal (offZero circom)) log st ∧ Refused st 0 (encode z) ∧
      ∃ t, spendSlots 0 (encode z) (chainOf log) = [t] := by
  obtain ⟨log, s, _, denomination, _, proof, s', hl, -, hw⟩ := exists_paid (P := offZero circom)
    (fullRoot_offZero circom) someNote rfl somePayment (by decide) (by decide) (.inl rfl)
  obtain ⟨_, _, _, _, _, _, _, -, -, -, hs'⟩ := withdraw_eq_ok.mp hw
  have hden : s'.denomination 0 = some denomination := by
    rw [hs']
    exact hl.denomination_eq
  have hrecord : s'.nullifier 0 (nullifierHashOf (offZero circom) someNote) ≠ none := by
    rw [hs']
    simp [PoolState.withdrawn]
  obtain ⟨n, hn⟩ := Option.ne_none_iff_exists'.mp hrecord
  obtain ⟨log', st, hrun, hshown⟩ :=
    exists_shown (hl.run.snoc (Step.call (c := .withdraw _ _ _ _ _) hw)) hden hn
  have hsound := refusal_sound hrun 0
    (Sdk.poseidonNullifierHash (offZero circom) someNote.nullifier)
  exact ⟨log', st, _, hrun, hsound.1.mpr hshown, (hsound.2 (hsound.1.mpr hshown)).1⟩

end Qietr.Indexer
