import Qietr.Sdk.Matching

/-!
# SDK — errors that nobody is told of

A wrapped `fetch` raises its own errors, after it has told `onError`.  What it reads of an answer
unguarded, and what it asks outside its two `try` blocks, throws past both.

* `QuoteEscapes`, `TurnEscapes`: every place where a turn throws an error that is not its own.
* `TypedObserved`: a rejection of its own, of which the observer has been told.
* `rejects_typed_iff`: which calls are rejected so, over every run.
* `null_entry_escapes`: one that is not.
-/

namespace Qietr.Sdk

open Outcome Pool BigIntText

variable {p : Platform} {w : Wrapped} {networkId : String} {r : Json} {rs : List Json}

/-! ### The checks of an answer -/

@[simp] theorem uncaught_eq_other {α : Type} {x : Except String α} {message : String} :
    uncaught x = .error (.other message) ↔ x = .error message := by
  cases x <;> simp [uncaught, Except.mapError]

/-- To look at its scheme, or at its network, throws. -/
def Unreadable (r : Json) : Prop :=
  r.isNull = true ∨ (∃ s ∈ SUPPORTED_SCHEMES, r.get "scheme" = some (.str s)) ∧
    ∀ label, r.get "network" ≠ some (.str label)

theorem networkOf_eq_error {x : Option Json} :
    (∃ message, networkOf p x = .error message) ↔ ∀ label, x ≠ some (.str label) := by
  rcases x with _ | j
  · simp [networkOf]
  · cases j <;> simp [networkOf]

theorem matchesRequirement_eq_error :
    (∃ message, matchesRequirement p networkId r = .error message) ↔ Unreadable r := by
  rw [matchesRequirement, Unreadable]
  by_cases hnull : r.isNull = true
  · simp [hnull]
  · rw [if_neg hnull]
    by_cases hscheme : ((r.get "scheme").bind Json.string?).any SUPPORTED_SCHEMES.contains = true
    · rw [if_pos hscheme]
      simp only [bind_eq_error, reduceCtorEq, and_false, exists_false, or_false, hnull,
        any_contains_eq_true.mp hscheme, false_or, true_and, Bool.false_eq_true]
      exact networkOf_eq_error
    · rw [if_neg hscheme]
      simp only [reduceCtorEq, exists_false, hnull, false_iff, not_or, not_and]
      refine ⟨fun h => ?_, fun h => absurd (any_contains_eq_true.mpr h) hscheme⟩
      cases h

theorem findRequirement_eq_error :
    (∃ message, findRequirement p networkId rs = .error message) ↔
      ∃ before r after, rs = before ++ r :: after ∧ (∀ r' ∈ before, PassedOver p networkId r') ∧
        Unreadable r := by
  refine ⟨?_, ?_⟩
  · rintro ⟨message, h⟩
    induction rs with
    | nil => cases h
    | cons r' rs ih =>
        rw [findRequirement, bind_eq_error] at h
        rcases h with h | ⟨found, hfound, h⟩
        · exact ⟨[], r', rs, rfl, List.forall_mem_nil _,
            matchesRequirement_eq_error.mp ⟨message, h⟩⟩
        · cases found with
          | true => cases h
          | false =>
              obtain ⟨before, r, after, rfl, hbefore, hunreadable⟩ := ih h
              refine ⟨r' :: before, r, after, rfl, fun x hx => ?_, hunreadable⟩
              rcases List.mem_cons.mp hx with rfl | hx
              · exact matchesRequirement_eq_false.mp hfound
              · exact hbefore x hx
  · rintro ⟨before, r, after, rfl, hbefore, hunreadable⟩
    obtain ⟨message, herror⟩ := (matchesRequirement_eq_error (p := p)).mpr hunreadable
    refine ⟨message, ?_⟩
    induction before with
    | nil => rw [List.nil_append, findRequirement, herror]; rfl
    | cons r' before ih =>
        have hpassed := matchesRequirement_eq_false.mpr (hbefore r' List.mem_cons_self)
        rw [List.cons_append, findRequirement, hpassed, ok_bind]
        exact ih (fun x hx => hbefore x (List.mem_cons_of_mem r' hx)) herror

/-- The asset is one the wrapper refuses. -/
def OtherAsset (w : Wrapped) (asset : Option Json) : Prop :=
  asset.any Json.truthy ∧ asset ≠ some (.str w.usdcMint)

theorem checkAsset_eq_other {asset : Option Json} {message : String} :
    checkAsset p w asset = .error (.other message) ↔
      OtherAsset w asset ∧ textOf p asset = .error message := by
  rw [checkAsset, OtherAsset]
  split
  · rename_i h
    rw [ne_eq, Json.bind_string?_eq_some] at h
    simp [h, bind_eq_error]
  · rename_i h
    rw [ne_eq, Json.bind_string?_eq_some] at h
    simp only [reduceCtorEq, ne_eq, h, false_and]

theorem readAmount_eq_other {message : String} :
    readAmount p r = .error (.other message) ↔
      ∃ amount, amountOf r = some amount ∧ p.toBigInt amount = none ∧
        p.text amount = .error message := by
  rw [readAmount, bind_eq_error]
  simp only [okOr_eq_error, reduceCtorEq, and_false, false_or, okOr_eq_ok]
  refine exists_congr fun amount => and_congr_right fun _ => ?_
  cases p.toBigInt amount <;> simp [bind_eq_error]

theorem checkAllowlist_eq_other {payTo : Option Json} {message : String} :
    checkAllowlist p w payTo = .error (.other message) ↔
      ¬ w.Allows payTo ∧ textOf p payTo = .error message := by
  rw [checkAllowlist]
  split
  · rename_i h
    simp [h]
  · rename_i h
    simp [h, bind_eq_error]

/-- The requirement where the search stops has a price, and it is within the ceiling. -/
structure Priced (p : Platform) (w : Wrapped) (accepts : List Json) (r : Json) (micro : ℤ) :
    Prop where
  selected : Selected p (w.network p) accepts r
  asset : ¬ OtherAsset w (r.get "asset")
  amount : (amountOf r).bind p.toBigInt = some micro
  positive : 0 < micro
  ceiling : micro ≤ w.maxAmountMicro

/-- A check of an answer throws. -/
inductive QuoteEscapes (p : Platform) (w : Wrapped) (accepts : List Json) : Prop
  | entry (before after : List Json) (r : Json) (split : accepts = before ++ r :: after)
      (passed : ∀ r' ∈ before, PassedOver p (w.network p) r') (unreadable : Unreadable r)
  | asset (r : Json) (selected : Selected p (w.network p) accepts r)
      (other : OtherAsset w (r.get "asset"))
      (text : ∃ message, textOf p (r.get "asset") = .error message)
  | amount (r amount : Json) (selected : Selected p (w.network p) accepts r)
      (asset : ¬ OtherAsset w (r.get "asset")) (found : amountOf r = some amount)
      (noInteger : p.toBigInt amount = none) (text : ∃ message, p.text amount = .error message)
  | payTo (r : Json) (micro : ℤ) (priced : Priced p w accepts r micro)
      (notAllowed : ¬ w.Allows (r.get "payTo"))
      (text : ∃ message, textOf p (r.get "payTo") = .error message)
  | key (r : Json) (micro : ℤ) (priced : Priced p w accepts r micro)
      (allowed : w.Allows (r.get "payTo"))
      (text : ∃ message, dedupeKeyOf p r micro = .error message)

theorem checkAsset_eq_ok' {asset : Option Json} {u : Unit} :
    checkAsset p w asset = .ok u ↔ ¬ OtherAsset w asset := by
  rw [checkAsset_eq_ok, OtherAsset, not_and_or, not_not, Bool.not_eq_true]

theorem quote_eq_other_iff {settled : List String} {json : Option Json} {message : String} :
    quote p w settled json = .error (.other message) ↔
      ∃ body accepts, acceptsOf json = some (body, accepts) ∧
        (findRequirement p (w.network p) accepts = .error message ∨
          ∃ r, Selected p (w.network p) accepts r ∧
            (OtherAsset w (r.get "asset") ∧ textOf p (r.get "asset") = .error message ∨
              ¬ OtherAsset w (r.get "asset") ∧
                ((∃ amount, amountOf r = some amount ∧ p.toBigInt amount = none ∧
                    p.text amount = .error message) ∨
                  ∃ micro, (amountOf r).bind p.toBigInt = some micro ∧ 0 < micro ∧
                    micro ≤ w.maxAmountMicro ∧
                    (¬ w.Allows (r.get "payTo") ∧ textOf p (r.get "payTo") = .error message ∨
                      w.Allows (r.get "payTo") ∧ dedupeKeyOf p r micro = .error message)))) := by
  rw [quote]
  -- of the checks in turn: each may throw, once those before it have passed
  simp only [bind_eq_error, okOr_eq_error, require_eq_error, okOr_eq_ok, require_eq_ok,
    uncaught_eq_other, uncaught_eq_ok, checkAsset_eq_other, checkAsset_eq_ok', readAmount_eq_other,
    readAmount_eq_ok, checkAllowlist_eq_other, checkAllowlist_eq_ok, reduceCtorEq, and_false,
    false_or, or_false, exists_false, exists_and_left, exists_const, Prod.exists,
    ← findRequirement_eq_some]
  refine exists_congr fun body => exists_congr fun accepts => and_congr_right fun _ =>
    or_congr_right ?_
  constructor
  · rintro ⟨_, hfound, r, rfl, h⟩
    exact ⟨r, hfound, h⟩
  · rintro ⟨r, hfound, h⟩
    exact ⟨_, hfound, r, rfl, h⟩

/-- **A quote throws** an error that is not the wrapper's own just where a check does. -/
theorem quote_eq_other {settled : List String} {json : Option Json} :
    (∃ message, quote p w settled json = .error (.other message)) ↔
      ∃ body accepts, acceptsOf json = some (body, accepts) ∧ QuoteEscapes p w accepts := by
  simp only [quote_eq_other_iff]
  refine ⟨?_, ?_⟩
  · rintro ⟨message, body, accepts, haccepts, herror | ⟨r, hsel, ⟨hother, htext⟩ | ⟨hasset,
      ⟨amount, hamount, hnone, htext⟩ | ⟨micro, hmicro, hpos, hle, ⟨hallows, htext⟩ | ⟨hallows,
      htext⟩⟩⟩⟩⟩
    · obtain ⟨before, r, after, hsplit, hpassed, hunreadable⟩ :=
        findRequirement_eq_error.mp ⟨message, herror⟩
      exact ⟨body, accepts, haccepts, .entry before after r hsplit hpassed hunreadable⟩
    · exact ⟨body, accepts, haccepts, .asset r hsel hother ⟨message, htext⟩⟩
    · exact ⟨body, accepts, haccepts, .amount r amount hsel hasset hamount hnone ⟨message, htext⟩⟩
    · exact ⟨body, accepts, haccepts, .payTo r micro ⟨hsel, hasset, hmicro, hpos, hle⟩ hallows
        ⟨message, htext⟩⟩
    · exact ⟨body, accepts, haccepts, .key r micro ⟨hsel, hasset, hmicro, hpos, hle⟩ hallows
        ⟨message, htext⟩⟩
  · rintro ⟨body, accepts, haccepts, hescapes⟩
    cases hescapes with
    | entry before after r split passed unreadable =>
        obtain ⟨message, herror⟩ :=
          findRequirement_eq_error.mpr ⟨before, r, after, split, passed, unreadable⟩
        exact ⟨message, body, accepts, haccepts, .inl herror⟩
    | asset r selected other text =>
        obtain ⟨message, htext⟩ := text
        exact ⟨message, body, accepts, haccepts, .inr ⟨r, selected, .inl ⟨other, htext⟩⟩⟩
    | amount r amount selected asset found noInteger text =>
        obtain ⟨message, htext⟩ := text
        exact ⟨message, body, accepts, haccepts, .inr ⟨r, selected, .inr ⟨asset,
          .inl ⟨amount, found, noInteger, htext⟩⟩⟩⟩
    | payTo r micro priced notAllowed text =>
        obtain ⟨message, htext⟩ := text
        exact ⟨message, body, accepts, haccepts, .inr ⟨r, priced.selected, .inr ⟨priced.asset,
          .inr ⟨micro, priced.amount, priced.positive, priced.ceiling, .inl ⟨notAllowed, htext⟩⟩⟩⟩⟩
    | key r micro priced allowed text =>
        obtain ⟨message, htext⟩ := text
        exact ⟨message, body, accepts, haccepts, .inr ⟨r, priced.selected, .inr ⟨priced.asset,
          .inr ⟨micro, priced.amount, priced.positive, priced.ceiling, .inr ⟨allowed, htext⟩⟩⟩⟩⟩

/-! ### A turn -/

/-- A turn throws an error that is not the wrapper's own: where its answer is cloned, in a check of
that, in a callback outside the `try` blocks, in the recipient's key, or in what it does between the
payment and the next request; or `getFeePayer` or `pay` throws `null` or `undefined`. -/
inductive TurnEscapes (p : Platform) (w : Wrapped) (settled : List String) (res : Response)
    (answers : Answers) : Prop
  | clone (used : res.body = .used)
  | quote (body : Json) (accepts : List Json) (answer : acceptsOf res.json = some (body, accepts))
      (escapes : QuoteEscapes p w accepts)
  | getNote (q : Quote) (quoted : Quoted p w settled res.json q)
      (throws : ∃ message, answers.getNote = .error message)
  | recipient (q : Quote) (quoted : Quoted p w settled res.json q)
      (note : ∃ note : Note, answers.getNote = .ok (some note) ∧ note.commitments ≠ [])
      (throws : ∃ message, p.publicKey (q.requirement.get "payTo") = .error message)
  | getFeePayer (q : Quote) (quoted : Quoted p w settled res.json q)
      (note : ∃ note : Note, answers.getNote = .ok (some note) ∧ note.commitments ≠ [])
      (recipient : ∃ recipient, p.publicKey (q.requirement.get "payTo") = .ok recipient)
      (throws : answers.getFeePayer = .error none)
  | pay (q : Quote) (req : PayRequest) (quoted : Quoted p w settled res.json q)
      (opened : Opened402 p q answers req) (throws : answers.pay = .error none)
  | setNote (q : Quote) (req : PayRequest) (result : PaymentResult)
      (quoted : Quoted p w settled res.json q) (opened : Opened402 p q answers req)
      (paid : answers.pay = .ok result) (throws : ∃ message, answers.setNote = .error message)
  | timeout (q : Quote) (req : PayRequest) (result : PaymentResult)
      (quoted : Quoted p w settled res.json q) (opened : Opened402 p q answers req)
      (paid : answers.pay = .ok result) (stored : answers.setNote = .ok ())
      (throws : ∃ message, readTimeout p q.requirement = .error message)
  | envelope (q : Quote) (req : PayRequest) (result : PaymentResult)
      (quoted : Quoted p w settled res.json q) (opened : Opened402 p q answers req)
      (paid : answers.pay = .ok result) (stored : answers.setNote = .ok ())
      (timeout : readTimeout p q.requirement = .ok ())
      (nested : ∃ v ∈ merchantValues q, p.tooNested v = true)

variable {input : RequestInfo} {init : RequestInit} {attempts : ℕ} {settled : List String}
  {res : Response} {answers : Answers} {q : Quote} {req : PayRequest}

theorem exists_paymentFailure_eq_other {α : Type} {x : Except (Option String) α} :
    (∃ message, x.mapError paymentFailure = .error (.other message)) ↔ x = .error none := by
  rcases x with (_ | message) | a
  · simp [Except.mapError, paymentFailure]
  · simp [Except.mapError, paymentFailure]
  · simp [Except.mapError]

theorem openPayment_eq_other :
    (∃ message, openPayment p q answers = .error (.other message)) ↔
      (∃ message, answers.getNote = .error message) ∨
      (∃ note : Note, answers.getNote = .ok (some note) ∧ note.commitments ≠ []) ∧
        ((∃ message, p.publicKey (q.requirement.get "payTo") = .error message) ∨
          (∃ recipient, p.publicKey (q.requirement.get "payTo") = .ok recipient) ∧
            answers.getFeePayer = .error none) := by
  have hloaded : ∀ note : Option Note,
      note.any (fun note => note.commitments ≠ []) = true ↔
        ∃ n : Note, note = some n ∧ n.commitments ≠ [] := fun note => by
    simp only [Option.any_eq_true, ne_eq, decide_not, Bool.not_eq_true', decide_eq_false_iff_not]
  simp only [openPayment, bind_eq_error, require_eq_error, require_eq_ok, uncaught_eq_other,
    uncaught_eq_ok, hloaded, reduceCtorEq, and_false, false_or, or_false, exists_false,
    exists_const, ← exists_paymentFailure_eq_other]
  refine ⟨?_, ?_⟩
  · rintro ⟨message, hnote | ⟨_, hnote, ⟨note, rfl, hne⟩, hkey | ⟨recipient, hkey, hfee⟩⟩⟩
    · exact .inl ⟨message, hnote⟩
    · exact .inr ⟨⟨note, hnote, hne⟩, .inl ⟨message, hkey⟩⟩
    · exact .inr ⟨⟨note, hnote, hne⟩, .inr ⟨⟨recipient, hkey⟩, message, hfee⟩⟩
  · rintro (⟨message, hnote⟩ | ⟨⟨note, hnote, hne⟩, ⟨message, hkey⟩ | ⟨⟨recipient, hkey⟩, message,
      hfee⟩⟩)
    · exact ⟨message, .inl hnote⟩
    · exact ⟨message, .inr ⟨_, hnote, ⟨note, rfl, hne⟩, .inl hkey⟩⟩
    · exact ⟨message, .inr ⟨_, hnote, ⟨note, rfl, hne⟩, .inr ⟨recipient, hkey, hfee⟩⟩⟩

theorem stringifyEnvelope_eq_error {result : PaymentResult} :
    (∃ message, stringifyEnvelope p input q result = .error message) ↔
      ∃ v ∈ merchantValues q, p.tooNested v = true := by
  rw [stringifyEnvelope, ← List.any_eq_true]
  split
  · rename_i h
    simp [h]
  · rename_i h
    simp [h]

theorem prepareRetry_eq_error {result : PaymentResult} :
    (∃ message, prepareRetry p input q result answers = .error message) ↔
      (∃ message, answers.setNote = .error message) ∨ answers.setNote = .ok () ∧
        ((∃ message, readTimeout p q.requirement = .error message) ∨
          readTimeout p q.requirement = .ok () ∧ ∃ v ∈ merchantValues q, p.tooNested v = true) := by
  have hstringify : (∃ message, stringifyEnvelope p input q result = .error message) ↔ _ :=
    stringifyEnvelope_eq_error
  rw [← hstringify]
  simp only [prepareRetry, bind_eq_error, exists_or]
  refine or_congr_right ⟨?_, ?_⟩
  · rintro ⟨message, _, hset, htimeout | ⟨_, htimeout, hstringify⟩⟩
    · exact ⟨hset, .inl ⟨message, htimeout⟩⟩
    · exact ⟨hset, .inr ⟨htimeout, message, hstringify⟩⟩
  · rintro ⟨hset, ⟨message, htimeout⟩ | ⟨htimeout, message, hstringify⟩⟩
    · exact ⟨message, (), hset, .inl htimeout⟩
    · exact ⟨message, (), hset, .inr ⟨(), htimeout, hstringify⟩⟩

theorem settle_threw_other :
    (∃ effects message, settle p input init attempts settled q req answers =
      (effects, .threw (.other message))) ↔
      answers.pay = .error none ∨ ∃ result, answers.pay = .ok result ∧
        ∃ message, prepareRetry p input q result answers = .error message := by
  rw [settle]
  rcases answers.pay with (_ | message) | result
  · simp [paymentFailure]
  · simp [paymentFailure]
  · rcases hprepare : prepareRetry p input q result answers with message | envelope
    · simp [hprepare]
    · rcases answers.retry with message | res
      · simp [hprepare]
      · simp [hprepare]

theorem turn_of_open_error (hstatus : res.status = 402) (hlt : (attempts : ℕ∞) < w.retries)
    (hquoted : Quoted p w settled res.json q) {err : Thrown}
    (h : openPayment p q answers = .error err) :
    turn p w input init attempts settled res answers = ([], .threw err) := by
  rw [turn, if_pos ⟨hstatus, hlt⟩, quote_response_eq_ok.mpr hquoted]
  simp only [h]

theorem quote_response_eq_other :
    (∃ message, res.quote p w settled = .error (.other message)) ↔
      res.body = .used ∨
        ∃ body accepts, acceptsOf res.json = some (body, accepts) ∧ QuoteEscapes p w accepts := by
  by_cases hused : res.body = .used
  · refine iff_of_true ⟨"Response.clone: Body has already been consumed.", ?_⟩ (.inl hused)
    rw [Response.quote, Response.cloneJson, hused]
    rfl
  · rw [quote_response hused, quote_eq_other]
    simp [hused]

/-- **Where a turn escapes.** -/
theorem turn_threw_other (hstatus : res.status = 402) (hlt : (attempts : ℕ∞) < w.retries) :
    (∃ effects message, turn p w input init attempts settled res answers =
      (effects, .threw (.other message))) ↔ TurnEscapes p w settled res answers := by
  refine ⟨?_, fun h => ?_⟩
  · rintro ⟨effects, message, h⟩
    rw [turn, if_pos ⟨hstatus, hlt⟩] at h
    cases hq : res.quote p w settled with
    | error err =>
        rw [hq] at h
        cases h
        rcases quote_response_eq_other.mp ⟨message, hq⟩ with hused | ⟨body, accepts, haccepts,
          hescapes⟩
        · exact .clone hused
        · exact .quote body accepts haccepts hescapes
    | ok q =>
        have hquoted := quote_response_eq_ok.mp hq
        rw [hq] at h
        cases hreq : openPayment p q answers with
        | error err =>
            simp only [hreq] at h
            cases h
            rcases openPayment_eq_other.mp ⟨message, hreq⟩ with hnote | ⟨hnote, hkey | ⟨hkey, hfee⟩⟩
            · exact .getNote q hquoted hnote
            · exact .recipient q hquoted hnote hkey
            · exact .getFeePayer q hquoted hnote hkey hfee
        | ok req =>
            simp only [hreq] at h
            have hopened := openPayment_eq_ok.mp hreq
            rcases settle_threw_other.mp ⟨effects, message, h⟩ with hpay | ⟨result, hpaid, hprepare⟩
            · exact .pay q req hquoted hopened hpay
            · rcases prepareRetry_eq_error.mp hprepare with hset | ⟨hstored, htimeout |
                ⟨htimeout, hnested⟩⟩
              · exact .setNote q req result hquoted hopened hpaid hset
              · exact .timeout q req result hquoted hopened hpaid hstored htimeout
              · exact .envelope q req result hquoted hopened hpaid hstored htimeout hnested
  · -- the answer, the callbacks before the payment, and what comes after it, in this order
    have hquotes : (∃ message, res.quote p w settled = .error (.other message)) →
        ∃ effects message, turn p w input init attempts settled res answers =
          (effects, .threw (.other message)) := by
      rintro ⟨message, herror⟩
      exact ⟨[], message, turn_of_quote_error hstatus hlt herror⟩
    have hopens : ∀ q, Quoted p w settled res.json q → (∃ message,
        openPayment p q answers = .error (.other message)) → ∃ effects message,
          turn p w input init attempts settled res answers =
            (effects, .threw (.other message)) := by
      rintro q hquoted ⟨message, herror⟩
      exact ⟨[], message, turn_of_open_error hstatus hlt hquoted herror⟩
    have hsettles : ∀ q req, Quoted p w settled res.json q → Opened402 p q answers req →
        (∃ effects message, settle p input init (attempts + 1) settled q req answers =
          (effects, .threw (.other message))) → ∃ effects message,
          turn p w input init attempts settled res answers =
            (effects, .threw (.other message)) := by
      rintro q req hquoted hopened hsettle
      rwa [turn_eq hstatus hlt hquoted hopened]
    cases h with
    | clone used => exact hquotes (quote_response_eq_other.mpr (.inl used))
    | quote body accepts answer escapes =>
        exact hquotes (quote_response_eq_other.mpr (.inr ⟨body, accepts, answer, escapes⟩))
    | getNote q quoted throws => exact hopens q quoted (openPayment_eq_other.mpr (.inl throws))
    | recipient q quoted note throws =>
        exact hopens q quoted (openPayment_eq_other.mpr (.inr ⟨note, .inl throws⟩))
    | getFeePayer q quoted note recipient throws =>
        exact hopens q quoted (openPayment_eq_other.mpr (.inr ⟨note, .inr ⟨recipient, throws⟩⟩))
    | pay q req quoted opened throws =>
        exact hsettles q req quoted opened (settle_threw_other.mpr (.inl throws))
    | setNote q req result quoted opened paid throws =>
        exact hsettles q req quoted opened (settle_threw_other.mpr
          (.inr ⟨result, paid, prepareRetry_eq_error.mpr (.inl throws)⟩))
    | timeout q req result quoted opened paid stored throws =>
        exact hsettles q req quoted opened (settle_threw_other.mpr
          (.inr ⟨result, paid, prepareRetry_eq_error.mpr (.inr ⟨stored, .inl throws⟩)⟩))
    | envelope q req result quoted opened paid stored timeout nested =>
        exact hsettles q req quoted opened (settle_threw_other.mpr
          (.inr ⟨result, paid, prepareRetry_eq_error.mpr (.inr ⟨stored, .inr ⟨timeout, nested⟩⟩)⟩))

/-- A turn that does not pay does nothing at all. -/
theorem CallStep.effects_eq_nil {lap : Lap} {c c' : WrappedCall}
    (h : CallStep p w input init c lap c') (hnone : lap.payments = []) : lap.effects = [] := by
  obtain ⟨attempts, settled, -, hturn⟩ := h
  rcases turn_cases hturn with ⟨heffects, -⟩ | ⟨q, req, -, -, -, -, hsettle⟩
  · exact heffects
  · obtain ⟨⟨rest, heffects, -, -⟩, -⟩ := settle_cases hsettle
    rw [Lap.payments, heffects,
      List.filterMap_cons_some (show (Effect.pay req).payment? = some req from rfl)] at hnone
    cases hnone

/-! ### A call -/

/-- `raise`: what the observer is told, and what the call is rejected with. -/
def raise (onError : Option (X402Error → Except String Unit)) : Thrown → List X402Error × Thrown
  | .other message => ([], .other message)
  | .raised err =>
      match onError with
      | none => ([], .raised err)
      | some observe =>
          match observe err with
          | .ok () => ([err], .raised err)
          | .error message => ([err], .other message)

/-- The call is rejected with an error of its own, and the observer, when there is one, was told of
that and of no other. -/
def TypedObserved (onError : Option (X402Error → Except String Unit)) (thrown : Thrown) : Prop :=
  ∃ err, (raise onError thrown).2 = .raised err ∧
    (onError.isSome → (raise onError thrown).1 = [err])

theorem typedObserved_iff {onError : Option (X402Error → Except String Unit)} {thrown : Thrown} :
    TypedObserved onError thrown ↔ ∃ err, thrown = .raised err ∧
      ∀ observe, onError = some observe → observe err = .ok () := by
  rw [TypedObserved]
  rcases thrown with err | message
  · rcases onError with _ | observe
    · simp [raise]
    · cases hobserve : observe err with
      | ok u => simp [raise, hobserve]
      | error message => simp [raise, hobserve]
  · simp [raise]

variable {log : List Lap} {thrown : Thrown}

/-- A turn that has thrown was about an answer it might have paid for. -/
theorem status_of_threw {effects : List Effect}
    (h : turn p w input init attempts settled res answers = (effects, .threw thrown)) :
    res.status = 402 ∧ (attempts : ℕ∞) < w.retries := by
  by_contra hno
  rw [turn, if_neg hno] at h
  cases h

/-- **Typed and observed.**  When a call is rejected once its first answer is there, its last turn
has thrown; the rejection is an error of its own of which the observer was told, just when that turn
did not escape and the observer did not throw.  And if it never paid, it did nothing to the note. -/
theorem rejects_typed_iff (onError : Option (X402Error → Except String Unit))
    (hrun : CallRun p w input init (.ok res) log (.threw thrown)) :
    (∃ before lap attempts settled, log = before ++ [lap] ∧
      CallRun p w input init (.ok res) before (.looping attempts settled lap.res) ∧
      (TypedObserved onError thrown ↔ ¬ TurnEscapes p w settled lap.res lap.answers ∧
        ∀ observe err, onError = some observe → thrown = .raised err → observe err = .ok ())) ∧
    ((∀ lap ∈ log, lap.payments = []) → ∀ lap ∈ log, lap.effects = []) := by
  refine ⟨?_, fun hnone lap hlap => ?_⟩
  · -- a call that has its first answer is rejected by a turn, and that is the last one
    have hne : log ≠ [] := by
      rintro rfl
      have hbegin := hrun.invariant (fun log c => log = [] → c = begin (.ok res)) (fun c hc _ => hc)
        (fun _ _ _ _ _ _ _ hnil => absurd hnil (List.append_ne_nil_of_right_ne_nil _ (by simp))) rfl
      cases hbegin
    obtain ⟨before, lap, rfl⟩ := (List.eq_nil_or_concat' log).resolve_left hne
    obtain ⟨c, hbefore, attempts, settled, rfl, hturn⟩ := hrun.last
    refine ⟨before, lap, attempts, settled, rfl, hbefore, ?_⟩
    obtain ⟨hstatus, hlt⟩ := status_of_threw hturn
    have hescapes : TurnEscapes p w settled lap.res lap.answers ↔
        ∃ message, thrown = .other message := by
      rw [← turn_threw_other hstatus hlt, hturn]
      simp
    rw [typedObserved_iff, hescapes]
    rcases thrown with err | message
    · simp
    · simp
  · obtain ⟨before, after, rfl⟩ := List.append_of_mem hlap
    obtain ⟨_, _, -, hstep⟩ := hrun.step_of_log
    exact hstep.effects_eq_nil (hnone lap hlap)

/-! ### Two calls that are rejected -/

/-- A call of one turn. -/
theorem callRun_single {lap : Lap} {c : WrappedCall}
    (h : CallStep p w input init (begin (.ok res)) lap c) :
    CallRun p w input init (.ok res) [lap] c := by
  have hstart : CallRun p w input init (.ok res) [] (begin (.ok res)) := .start rfl
  exact hstart.snoc h

/-- An answer that is no JSON. -/
def noJson : Response where
  status := 402
  body := .noJson

theorem noJson_run : CallRun asciiPlatform threeRetries (.text "/data") ⟨[]⟩ (.ok noJson)
    [⟨noJson, payingAnswers noJson, []⟩]
    (.threw (.raised (.malformedRequirements "missing or empty `accepts`"))) :=
  callRun_single ⟨0, [], rfl, rfl⟩

theorem rejects_typed_iff_noJson : TypedObserved (some fun _ => .ok ())
    (.raised (.malformedRequirements "missing or empty `accepts`")) := by
  obtain ⟨⟨before, lap, attempts, settled, hlog, -, hiff⟩, -⟩ :=
    rejects_typed_iff (some fun _ => .ok ()) noJson_run
  obtain ⟨-, hlap⟩ := List.append_inj' (show [] ++ [_] = before ++ [lap] from hlog) rfl
  obtain rfl := List.singleton_inj.mp hlap
  refine hiff.mpr ⟨fun hescapes => ?_, fun observe err hobserve _ => ?_⟩
  · have hnothing : acceptsOf noJson.json = none := rfl
    cases hescapes with
    | clone used => cases used
    | quote body accepts answer escapes =>
        rw [hnothing] at answer
        cases answer
    | getNote q quoted | recipient q quoted | getFeePayer q quoted | pay q req quoted
    | setNote q req result quoted | timeout q req result quoted | envelope q req result quoted =>
        obtain ⟨accepts, answer, -⟩ := quoted.found
        rw [hnothing] at answer
        cases answer
  · cases hobserve
    rfl

/-- An answer that accepts `null`. -/
theorem null_entry_escapes : ∃ (res : Response) (lap : Lap) (thrown : Thrown),
    CallRun asciiPlatform threeRetries (.text "/data") ⟨[]⟩ (.ok res) [lap] (.threw thrown) ∧
    (∃ body, res.json = some body ∧ body.get "accepts" = some (.arr [.null])) ∧
    ∀ onError, ¬ TypedObserved onError thrown := by
  refine ⟨accepting [.null], ⟨accepting [.null], payingAnswers noJson, []⟩,
    .other "Cannot read properties of null (reading 'scheme')", ?_, ⟨_, rfl, get_accepting _⟩,
    fun onError h => ?_⟩
  · exact callRun_single ⟨0, [], rfl, rfl⟩
  · obtain ⟨err, herr, -⟩ := typedObserved_iff.mp h
    cases herr

end Qietr.Sdk
