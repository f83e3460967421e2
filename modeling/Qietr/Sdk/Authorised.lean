import Mathlib.Data.List.ReduceOption
import Qietr.Library.Base58
import Qietr.Sdk.X402

/-!
# SDK — every payment is authorised

What a wrapped `fetch` has checked when it pays, whatever the merchant has answered.

* `Quoted`, `quote_eq_ok`: the checks of a quote that was accepted.
* `turn_cases`: what one turn does: nothing, or one payment and what follows it.
* `Authorised`, `Carries`: what is checked of a payment, and what the merchant is then told of it.
* `payment_authorised`: every payment of every call is; `asset_not_checked`: one for no asset.
-/

namespace Qietr.Sdk

open Outcome Pool BigIntText

variable {p : Platform} {w : Wrapped}

/-! ### The checks of a quote -/

theorem acceptsOf_eq_some {json : Option Json} {body : Json} {accepts : List Json} :
    acceptsOf json = some (body, accepts) ↔
      json = some body ∧ body.get "accepts" = some (.arr accepts) ∧ accepts ≠ [] := by
  simp only [acceptsOf, Option.bind_eq_bind, Option.bind_eq_some_iff]
  refine ⟨?_, ?_⟩
  · rintro ⟨body', rfl, h⟩
    split at h
    · rename_i r rs haccepts
      cases h
      exact ⟨rfl, haccepts, List.cons_ne_nil r rs⟩
    · cases h
  · rintro ⟨rfl, haccepts, hne⟩
    obtain ⟨r, rs, rfl⟩ := List.exists_cons_of_ne_nil hne
    exact ⟨body, rfl, by rw [haccepts]⟩

theorem any_contains_eq_true {x : Option Json} {xs : List String} :
    (x.bind Json.string?).any xs.contains = true ↔ ∃ s ∈ xs, x = some (.str s) := by
  rw [Option.any_eq_true]
  simp only [Json.bind_string?_eq_some, List.contains_iff_mem, and_comm]

/-- The requirement has a scheme that can be settled, on the network. -/
structure Matches (p : Platform) (networkId : String) (r : Json) : Prop where
  scheme : ∃ s ∈ SUPPORTED_SCHEMES, r.get "scheme" = some (.str s)
  network : ∃ label, r.get "network" = some (.str label) ∧ normalizeNetwork p label = networkId

theorem networkOf_eq_ok {x : Option Json} {network : String} :
    networkOf p x = .ok network ↔
      ∃ label, x = some (.str label) ∧ normalizeNetwork p label = network := by
  rcases x with _ | j
  · simp [networkOf]
  · cases j <;> simp [networkOf]

theorem matchesRequirement_eq_true {networkId : String} {r : Json} :
    matchesRequirement p networkId r = .ok true ↔ Matches p networkId r := by
  rw [matchesRequirement]
  by_cases hnull : r.isNull = true
  · rw [if_pos hnull]
    refine ⟨nofun, fun h => ?_⟩
    obtain ⟨s, -, hs⟩ := h.scheme
    cases r with
    | null => cases hs
    | bool | num | str | arr | obj => cases hnull
  · rw [if_neg hnull]
    by_cases hscheme : ((r.get "scheme").bind Json.string?).any SUPPORTED_SCHEMES.contains = true
    · rw [if_pos hscheme, bind_eq_ok]
      simp only [networkOf_eq_ok, Except.ok.injEq, decide_eq_true_eq]
      refine ⟨?_, ?_⟩
      · rintro ⟨network, hnetwork, rfl⟩
        exact ⟨any_contains_eq_true.mp hscheme, hnetwork⟩
      · intro h
        exact ⟨networkId, h.network, rfl⟩
    · rw [if_neg hscheme]
      refine ⟨fun h => ?_, fun h => (hscheme (any_contains_eq_true.mpr h.scheme)).elim⟩
      cases h

/-- What has been found, and what was passed over before it. -/
theorem findRequirement_split {networkId : String} {rs : List Json} {r : Json}
    (h : findRequirement p networkId rs = .ok (some r)) :
    ∃ before after, rs = before ++ r :: after ∧
      (∀ r' ∈ before, matchesRequirement p networkId r' = .ok false) ∧ Matches p networkId r := by
  induction rs with
  | nil => cases h
  | cons r' rs ih =>
      rw [findRequirement, bind_eq_ok] at h
      obtain ⟨found, hfound, h⟩ := h
      cases found with
      | true =>
          cases h
          exact ⟨[], rs, rfl, List.forall_mem_nil _, matchesRequirement_eq_true.mp hfound⟩
      | false =>
          obtain ⟨before, after, rfl, hbefore, hmatches⟩ := ih h
          exact ⟨r' :: before, after, rfl, List.forall_mem_cons.mpr ⟨hfound, hbefore⟩, hmatches⟩

theorem findRequirement_mem {networkId : String} {rs : List Json} {r : Json}
    (h : findRequirement p networkId rs = .ok (some r)) : r ∈ rs ∧ Matches p networkId r := by
  obtain ⟨before, after, rfl, -, hmatches⟩ := findRequirement_split h
  exact ⟨List.mem_append_right before List.mem_cons_self, hmatches⟩

theorem findRequirement_cons {networkId : String} {r : Json} (h : Matches p networkId r)
    (rs : List Json) : findRequirement p networkId (r :: rs) = .ok (some r) := by
  rw [findRequirement, matchesRequirement_eq_true.mpr h]
  rfl

theorem checkAsset_eq_ok {asset : Option Json} {u : Unit} :
    checkAsset p w asset = .ok u ↔
      asset.any Json.truthy = false ∨ asset = some (.str w.usdcMint) := by
  rw [checkAsset, ← Json.bind_string?_eq_some]
  split
  · rename_i h
    refine ⟨fun hok => ?_, fun hor => ?_⟩
    · obtain ⟨got, -, herror⟩ := bind_eq_ok.mp hok
      cases herror
    · rcases hor with htruthy | hmint
      · rw [h.1] at htruthy
        cases htruthy
      · exact (h.2 hmint).elim
  · rename_i h
    refine ⟨fun _ => ?_, fun _ => rfl⟩
    rw [not_and_or, not_not, Bool.not_eq_true] at h
    exact h

theorem readAmount_eq_ok {r : Json} {micro : ℤ} :
    readAmount p r = .ok micro ↔ (amountOf r).bind p.toBigInt = some micro := by
  rw [readAmount, okOr_bind_eq_ok, Option.bind_eq_some_iff]
  refine exists_congr fun amountStr => and_congr_right fun _ => ?_
  cases p.toBigInt amountStr with
  | some n => simp
  | none =>
      refine ⟨fun h => ?_, nofun⟩
      obtain ⟨got, -, herror⟩ := bind_eq_ok.mp h
      cases herror

theorem checkAllowlist_eq_ok {payTo : Option Json} {u : Unit} :
    checkAllowlist p w payTo = .ok u ↔ w.Allows payTo := by
  rw [checkAllowlist]
  split
  · simpa
  · rename_i h
    refine ⟨fun hok => ?_, fun hallows => (h hallows).elim⟩
    obtain ⟨got, -, herror⟩ := bind_eq_ok.mp hok
    cases herror

/-- What has been checked of a quote. -/
structure Quoted (p : Platform) (w : Wrapped) (settled : List String) (json : Option Json)
    (q : Quote) : Prop where
  found : ∃ accepts, acceptsOf json = some (q.body, accepts) ∧
    findRequirement p (w.network p) accepts = .ok (some q.requirement)
  asset : (q.requirement.get "asset").any Json.truthy = false ∨
    q.requirement.get "asset" = some (.str w.usdcMint)
  amount : (amountOf q.requirement).bind p.toBigInt = some q.micro
  positive : 0 < q.micro
  ceiling : q.micro ≤ w.maxAmountMicro
  allows : w.Allows (q.requirement.get "payTo")
  dedupeKey : dedupeKeyOf p q.requirement q.micro = .ok q.dedupeKey
  unsettled : q.dedupeKey ∉ settled

theorem quote_eq_ok {settled : List String} {json : Option Json} {q : Quote} :
    quote p w settled json = .ok q ↔ Quoted p w settled json q := by
  rw [quote]
  simp only [bind_eq_ok, okOr_eq_ok, require_eq_ok, uncaught_eq_ok, checkAsset_eq_ok,
    checkAllowlist_eq_ok, readAmount_eq_ok, exists_and_left, exists_const, Except.ok.injEq,
    Prod.exists]
  refine ⟨?_, ?_⟩
  · rintro ⟨body, accepts, haccepts, _, hfound, r, rfl, hasset, micro, hamount, hpos, hle, hallows,
      key, hkey, hnew, rfl⟩
    exact ⟨⟨accepts, haccepts, hfound⟩, hasset, hamount, hpos, hle, hallows, hkey, hnew⟩
  · intro h
    obtain ⟨accepts, haccepts, hfound⟩ := h.found
    exact ⟨q.body, accepts, haccepts, _, hfound, q.requirement, rfl, h.asset, q.micro, h.amount,
      h.positive, h.ceiling, h.allows, q.dedupeKey, h.dedupeKey, h.unsettled, rfl⟩

/-- An answer whose body is used is not quoted. -/
theorem quote_response_eq_ok {settled : List String} {res : Response} {q : Quote} :
    res.quote p w settled = .ok q ↔ Quoted p w settled res.json q := by
  rw [Response.quote, ← quote_eq_ok, bind_eq_ok, Response.cloneJson, Response.json]
  cases res.body with
  | used =>
      refine ⟨?_, fun h => ?_⟩
      · rintro ⟨json, hjson, -⟩
        cases hjson
      · obtain ⟨accepts, haccepts, -⟩ := (quote_eq_ok.mp h).found
        cases haccepts
  | noJson | json v => simp [uncaught, Except.mapError]

theorem quote_response {settled : List String} {res : Response} (h : res.body ≠ .used) :
    res.quote p w settled = quote p w settled res.json := by
  rw [Response.quote, Response.cloneJson, Response.json]
  cases hbody : res.body with
  | used => exact (h hbody).elim
  | noJson | json v => rfl

/-- Where a stack does not give out, an integer is what it is. -/
theorem toBigInt_eq_some {v : Json} {n : ℤ} (h : p.toBigInt v = some n) : v.toBigInt = some n := by
  cases v with
  | null | bool | num | str | obj => exact h
  | arr xs =>
      rw [Platform.toBigInt] at h
      split at h
      · cases h
      · exact h

theorem bind_toBigInt {x : Option Json} {n : ℤ} (h : x.bind p.toBigInt = some n) :
    x.bind Json.toBigInt = some n := by
  obtain ⟨v, rfl, hv⟩ := Option.bind_eq_some_iff.mp h
  exact toBigInt_eq_some hv

theorem stringifyEnvelope_eq_ok {input : RequestInfo} {q : Quote} {result : PaymentResult}
    {envelope : String} : stringifyEnvelope p input q result = .ok envelope ↔
      (∀ v ∈ merchantValues q, p.tooNested v = false) ∧
        (settlementEnvelope input q result).stringify = envelope := by
  rw [stringifyEnvelope]
  split
  · rename_i h
    refine ⟨nofun, fun ⟨hflat, _⟩ => ?_⟩
    obtain ⟨v, hv, hnested⟩ := List.any_eq_true.mp h
    rw [hflat v hv] at hnested
    cases hnested
  · rename_i h
    rw [List.any_eq_true, not_exists] at h
    have hflat : ∀ v ∈ merchantValues q, p.tooNested v = false := fun v hv =>
      Bool.eq_false_iff.mpr fun hnested => h v ⟨hv, hnested⟩
    rw [Except.ok.injEq]
    exact ⟨fun henvelope => ⟨hflat, henvelope⟩, And.right⟩

/-! ### One turn -/

/-- What the caller has answered when a payment is made. -/
structure Opened402 (p : Platform) (q : Quote) (answers : Answers) (req : PayRequest) : Prop where
  note : ∃ note : Note, answers.getNote = .ok (some note) ∧ note.commitments ≠ []
  recipient : p.publicKey (q.requirement.get "payTo") = .ok req.recipient
  micro : req.micro = q.micro
  feePayer : answers.getFeePayer = .ok req.feePayer

theorem openPayment_eq_ok {q : Quote} {answers : Answers} {req : PayRequest} :
    openPayment p q answers = .ok req ↔ Opened402 p q answers req := by
  have hfee : ∀ feePayer, answers.getFeePayer.mapError paymentFailure = .ok feePayer ↔
      answers.getFeePayer = .ok feePayer := by
    intro feePayer
    cases answers.getFeePayer <;> simp [Except.mapError]
  rw [openPayment]
  simp only [bind_eq_ok, require_eq_ok, uncaught_eq_ok, hfee, exists_const, Except.ok.injEq]
  refine ⟨?_, ?_⟩
  · rintro ⟨note, hnote, hloaded, recipient, hrecipient, feePayer, hfeePayer, rfl⟩
    obtain ⟨note, rfl, hne⟩ := (Option.any_eq_true _ _).mp hloaded
    exact ⟨⟨note, hnote, of_decide_eq_true hne⟩, hrecipient, rfl, hfeePayer⟩
  · rintro ⟨⟨note, hnote, hne⟩, hrecipient, hmicro, hfeePayer⟩
    refine ⟨some note, hnote, decide_eq_true hne, req.recipient, hrecipient, req.feePayer,
      hfeePayer, ?_⟩
    rw [← hmicro]

variable {input : RequestInfo} {init : RequestInit} {attempts : ℕ} {settled : List String}
  {res : Response} {answers : Answers} {effects : List Effect} {c : WrappedCall}

/-- **A turn** does nothing, or it makes one payment. -/
theorem turn_cases (h : turn p w input init attempts settled res answers = (effects, c)) :
    (effects = [] ∧ ∀ n keys r, c ≠ .looping n keys r) ∨
      ∃ q req, res.status = 402 ∧ (attempts : ℕ∞) < w.retries ∧ Quoted p w settled res.json q ∧
        Opened402 p q answers req ∧
        settle p input init (attempts + 1) settled q req answers = (effects, c) := by
  rw [turn] at h
  split at h
  · rename_i hloop
    cases hq : res.quote p w settled with
    | error err =>
        rw [hq] at h
        cases h
        exact .inl ⟨rfl, nofun⟩
    | ok q =>
        rw [hq] at h
        cases hreq : openPayment p q answers with
        | error err =>
            simp only [hreq] at h
            cases h
            exact .inl ⟨rfl, nofun⟩
        | ok req =>
            simp only [hreq] at h
            exact .inr ⟨q, req, hloop.1, hloop.2, quote_response_eq_ok.mp hq,
              openPayment_eq_ok.mp hreq, h⟩
  · cases h
    exact .inl ⟨rfl, nofun⟩

theorem turn_eq {q : Quote} {req : PayRequest} (hstatus : res.status = 402)
    (hlt : (attempts : ℕ∞) < w.retries) (hq : Quoted p w settled res.json q)
    (hreq : Opened402 p q answers req) :
    turn p w input init attempts settled res answers =
      settle p input init (attempts + 1) settled q req answers := by
  rw [turn, if_pos ⟨hstatus, hlt⟩, quote_response_eq_ok.mpr hq]
  simp only [openPayment_eq_ok.mpr hreq]

theorem prepareRetry_eq_ok {q : Quote} {result : PaymentResult} {envelope : String}
    (h : prepareRetry p input q result answers = .ok envelope) :
    (∀ v ∈ merchantValues q, p.tooNested v = false) ∧
      (settlementEnvelope input q result).stringify = envelope := by
  simp only [prepareRetry, bind_eq_ok] at h
  obtain ⟨_, -, _, -, hstringify⟩ := h
  exact stringifyEnvelope_eq_ok.mp hstringify

/-- What follows a payment. -/
theorem settle_cases {q : Quote} {req : PayRequest}
    (h : settle p input init attempts settled q req answers = (effects, c)) :
    (∃ rest, effects = .pay req :: rest ∧ (∀ req', .pay req' ∉ rest) ∧
      ∀ retry, .fetch retry ∈ rest → ∃ result, answers.pay = .ok result ∧
        retry = retryInit init (settlementEnvelope input q result).stringify) ∧
    ∀ n keys r, c = .looping n keys r → (∀ v ∈ merchantValues q, p.tooNested v = false) ∧
      n = attempts ∧ keys = settled ++ [q.dedupeKey] ∧ answers.retry = .ok r := by
  rw [settle] at h
  cases hpay : answers.pay with
  | error message =>
      rw [hpay] at h
      cases h
      exact ⟨⟨[], rfl, nofun, nofun⟩, nofun⟩
  | ok result =>
      rw [hpay] at h
      cases hset : prepareRetry p input q result answers with
      | error message =>
          simp only [hset] at h
          cases h
          exact ⟨⟨[.setNote result.updatedNote], rfl, by simp, by simp⟩, nofun⟩
      | ok envelope =>
          simp only [hset] at h
          obtain ⟨hflat, rfl⟩ := prepareRetry_eq_ok hset
          have hrest : ∃ rest, [.pay req, .setNote result.updatedNote,
              .fetch (retryInit init (settlementEnvelope input q result).stringify)] =
                .pay req :: rest ∧
              (∀ req', .pay req' ∉ rest) ∧ ∀ retry, Effect.fetch retry ∈ rest →
                ∃ result', answers.pay = .ok result' ∧
                  retry = retryInit init (settlementEnvelope input q result').stringify := by
            refine ⟨_, rfl, by simp, fun retry hretry => ⟨result, hpay, ?_⟩⟩
            simpa using hretry
          rw [hpay] at hrest
          cases hretry : answers.retry with
          | error message =>
              simp only [hretry] at h
              cases h
              exact ⟨hrest, nofun⟩
          | ok r =>
              simp only [hretry] at h
              cases h
              refine ⟨hrest, ?_⟩
              rintro n keys r' ⟨⟩
              exact ⟨hflat, rfl, rfl, rfl⟩

/-- A turn that has paid. -/
structure PaidTurn (p : Platform) (w : Wrapped) (input : RequestInfo) (init : RequestInit)
    (attempts : ℕ) (settled : List String) (lap : Lap) (c' : WrappedCall) (q : Quote)
    (req : PayRequest) : Prop where
  status : lap.res.status = 402
  attempt : (attempts : ℕ∞) < w.retries
  quoted : Quoted p w settled lap.res.json q
  opened : Opened402 p q lap.answers req
  payments : lap.payments = [req]
  retry : ∀ retry, .fetch retry ∈ lap.effects → ∃ result, lap.answers.pay = .ok result ∧
    retry = retryInit init (settlementEnvelope input q result).stringify
  next : ∀ n keys r, c' = .looping n keys r → (∀ v ∈ merchantValues q, p.tooNested v = false) ∧
    n = attempts + 1 ∧ keys = settled ++ [q.dedupeKey] ∧ lap.answers.retry = .ok r

/-- **A step** is the last of the call, or it has paid. -/
theorem CallStep.cases {c' : WrappedCall} {lap : Lap} (h : CallStep p w input init c lap c') :
    ∃ attempts settled, c = .looping attempts settled lap.res ∧
      ((lap.payments = [] ∧ ∀ n keys r, c' ≠ .looping n keys r) ∨
        ∃ q req, PaidTurn p w input init attempts settled lap c' q req) := by
  obtain ⟨attempts, settled, hc, hturn⟩ := h
  refine ⟨attempts, settled, hc, ?_⟩
  rcases turn_cases hturn with ⟨hnone, hstop⟩ | ⟨q, req, hstatus, hlt, hq, hopened, hsettle⟩
  · refine .inl ⟨?_, hstop⟩
    rw [Lap.payments, hnone]
    rfl
  · obtain ⟨⟨rest, heffects, hrest, hfetch⟩, hnext⟩ := settle_cases hsettle
    refine .inr ⟨q, req, hstatus, hlt, hq, hopened, ?_, fun retry hretry => ?_, hnext⟩
    · have hnone : rest.filterMap Effect.payment? = [] := by
        refine List.filterMap_eq_nil_iff.mpr fun effect heffect => ?_
        cases effect with
        | pay req' => exact (hrest req' heffect).elim
        | setNote | fetch => rfl
      rw [Lap.payments, heffects,
        List.filterMap_cons_some (show (Effect.pay req).payment? = some req from rfl), hnone]
    · rw [heffects] at hretry
      exact hfetch retry (by simpa using hretry)

/-! ### A merchant that is paid -/

/-- Somebody whom the options let be paid. -/
structure Payee (p : Platform) (w : Wrapped) (payTo : Option Json) (recipient : Pubkey) : Prop where
  recipient : p.publicKey payTo = .ok recipient
  text : ∃ name, textOf p payTo = .ok name
  written : ∀ v ∈ payTo, p.tooNested v = false
  allows : w.Allows payTo

def demandFields (w : Wrapped) (payTo asset : Option Json) (resource : String) :
    List (String × Option Json) :=
  [("scheme", some (.str "exact")),
    ("network", some (.str (w.networkId.getD DEFAULT_NETWORK_ID))),
    ("asset", asset),
    ("payTo", payTo),
    ("maxAmountRequired", some (.str "1")),
    ("resource", some (.str resource))]

/-- It asks for one micro-USDC. -/
def demand (w : Wrapped) (payTo asset : Option Json) (resource : String) : Json :=
  .ofFields (demandFields w payTo asset resource)

def paymentRequired (r : Json) : Response where
  status := 402
  body := .json (.ofFields [("accepts", some (.arr [r]))])

def demandKey (name resource : String) : String :=
  s!"{name}:{(1 : ℤ)}:{resource}"

theorem get_demand (w : Wrapped) (payTo asset : Option Json) (resource : String)
    (key : String) : (demand w payTo asset resource).get key =
      ((demandFields w payTo asset resource).find? fun field => field.1 = key).bind Prod.snd :=
  Json.get_ofFields (by simp [demandFields]) key

/-- What is read of a demand. -/
def demanded (w : Wrapped) (payTo asset : Option Json) (name resource : String) : Quote where
  body := .ofFields [("accepts", some (.arr [demand w payTo asset resource]))]
  requirement := demand w payTo asset resource
  micro := 1
  dedupeKey := demandKey name resource

@[simp] theorem requirement_demanded (w : Wrapped) (payTo asset : Option Json)
    (name resource : String) :
    (demanded w payTo asset name resource).requirement = demand w payTo asset resource :=
  rfl

/-- **It is quoted**, unless it is settled already. -/
theorem quoted_demand {payTo asset : Option Json} {recipient : Pubkey} {name resource : String}
    (h : Payee p w payTo recipient) (hname : textOf p payTo = .ok name)
    (hasset : asset.any Json.truthy = false ∨ asset = some (.str w.usdcMint))
    (hnew : demandKey name resource ∉ settled) :
    Quoted p w settled (paymentRequired (demand w payTo asset resource)).json
      (demanded w payTo asset name resource) where
  found := by
    refine ⟨[demand w payTo asset resource], acceptsOf_eq_some.mpr ⟨rfl, ?_, by simp⟩,
      findRequirement_cons ⟨⟨"exact", by simp [SUPPORTED_SCHEMES], ?_⟩, _, ?_, rfl⟩ []⟩
    · rw [demanded, Json.get_ofFields (by simp)]
      simp
    · rw [get_demand]
      simp [demandFields]
    · rw [get_demand]
      simp [demandFields]
  asset := by
    rw [requirement_demanded, get_demand]
    simpa [demandFields] using hasset
  amount := by
    have hone : bigIntOfString "1" = some 1 := by decide +kernel
    rw [amountOf, requirement_demanded, get_demand, get_demand]
    exact hone
  positive := one_pos
  ceiling := w.positive
  allows := by
    rw [requirement_demanded, get_demand]
    exact h.allows
  dedupeKey := by
    have hpayTo : (demanded w payTo asset name resource).requirement.get "payTo" = payTo := by
      rw [requirement_demanded, get_demand]
      rfl
    have hresource : (demanded w payTo asset name resource).requirement.get "resource" =
        some (.str resource) := by
      rw [requirement_demanded, get_demand]
      rfl
    rw [dedupeKeyOf, hpayTo, hresource, hname]
    rfl
  unsettled := hnew

/-- **Its envelope is written**: all it has of its own is somebody who can be paid. -/
theorem stringifyEnvelope_demanded {payTo asset : Option Json} {recipient : Pubkey}
    {name resource : String} (h : Payee p w payTo recipient)
    (hasset : asset.any Json.truthy = false ∨ asset = some (.str w.usdcMint))
    (result : PaymentResult) :
    stringifyEnvelope p input (demanded w payTo asset name resource) result =
      .ok (settlementEnvelope input (demanded w payTo asset name resource) result).stringify := by
  have hflat : ∀ v ∈ asset, p.tooNested v = false := by
    rintro v rfl
    rcases hasset with hfalsy | hmint
    · cases v with
      | null | bool | num | str => rfl
      | arr | obj => cases hfalsy
    · cases hmint
      rfl
  have hinvoiceId : (demanded w payTo asset name resource).body.get "invoiceId" = none := by
    rw [demanded, Json.get_ofFields (by simp)]
    simp
  have hvalues : merchantValues (demanded w payTo asset name resource) =
      [some (.str "exact"), some (.str (w.networkId.getD DEFAULT_NETWORK_ID)), asset, payTo,
        some (.str resource), none].reduceOption := by
    simp only [merchantValues, requirement_demanded, get_demand, hinvoiceId]
    rfl
  refine stringifyEnvelope_eq_ok.mpr ⟨fun v hv => ?_, rfl⟩
  rw [hvalues, List.reduceOption_mem_iff] at hv
  simp only [List.mem_cons, Option.some.injEq, List.not_mem_nil, or_false, reduceCtorEq] at hv
  rcases hv with rfl | rfl | hv | hv | rfl
  · rfl
  · rfl
  · exact hflat v hv.symm
  · exact h.written v hv.symm
  · rfl

/-- A note with one commitment. -/
def loadedNote : Note where
  version := NOTE_VERSION
  commitments := [{ secret := "1", nullifier := "2", amount := 10, denomId := 0 }]

/-- The payment is made, and the merchant answers with `res`. -/
def payingAnswers (res : Response) : Answers where
  getNote := .ok (some loadedNote)
  getFeePayer := .ok Pubkey.default
  pay := .ok { updatedNote := loadedNote, withdrawSignature := "5" }
  setNote := .ok ()
  retry := .ok res

/-- A turn that pays for a demand. -/
def payingLap (init : RequestInit) (input : RequestInfo) (w : Wrapped)
    (payTo asset : Option Json) (recipient : Pubkey) (name resource : String) (res : Response) :
      Lap where
  res := paymentRequired (demand w payTo asset resource)
  answers := payingAnswers res
  effects :=
    [.pay { recipient, micro := 1, feePayer := Pubkey.default }, .setNote loadedNote,
      .fetch (retryInit init (settlementEnvelope input (demanded w payTo asset name resource)
        { updatedNote := loadedNote, withdrawSignature := "5" }).stringify)]

/-- **A demand is paid** when there is an attempt left and it is not settled. -/
theorem step_payingLap {payTo asset : Option Json} {recipient : Pubkey} {name resource : String}
    (h : Payee p w payTo recipient) (hname : textOf p payTo = .ok name)
    (hasset : asset.any Json.truthy = false ∨ asset = some (.str w.usdcMint))
    (hlt : (attempts : ℕ∞) < w.retries) (hnew : demandKey name resource ∉ settled)
    (res : Response) :
    CallStep p w input init
      (.looping attempts settled (paymentRequired (demand w payTo asset resource)))
      (payingLap init input w payTo asset recipient name resource res)
      (.looping (attempts + 1) (settled ++ [demandKey name resource]) res) := by
  have htimeout : readTimeout p (demanded w payTo asset name resource).requirement = .ok () := by
    rw [readTimeout, requirement_demanded, get_demand]
    rfl
  have hopened : Opened402 p (demanded w payTo asset name resource) (payingAnswers res)
      { recipient, micro := 1, feePayer := Pubkey.default } := by
    refine ⟨⟨loadedNote, rfl, by simp [loadedNote]⟩, ?_, rfl, rfl⟩
    rw [requirement_demanded, get_demand]
    exact h.recipient
  have henvelope : stringifyEnvelope p input (demanded w payTo asset name resource)
      { updatedNote := loadedNote, withdrawSignature := "5" } = .ok _ :=
    stringifyEnvelope_demanded h hasset _
  refine ⟨attempts, settled, rfl, ?_⟩
  show turn p w input init attempts settled (paymentRequired _) (payingAnswers res) = _
  rw [turn_eq rfl hlt (quoted_demand h hname hasset hnew) hopened, settle]
  simp only [payingAnswers, prepareRetry, ok_bind, htimeout, henvelope]
  rfl

/-- `new PublicKey` of a text. -/
def pubkeyOfText (s : String) : Except String Pubkey :=
  match Base58.decode s with
  | none => .error "Non-base58 character"
  | some bytes =>
      if h : bytes.length = 32 then .ok ⟨bytes.toArray, h⟩ else .error "Invalid public key input"

/-- On texts in ASCII. -/
def asciiPlatform : Platform where
  toLowerCase := String.toLower
  publicKey x := okOr (x.bind Json.string?) "Invalid public key input" >>= pubkeyOfText
  textOverflows _ := false
  stringifyOverflows _ := false

/-- Three retries, up to one micro-USDC, to anybody. -/
def threeRetries : Wrapped where
  maxRetries := some 3
  maxAmountMicro := 1
  payToAllowlist := none
  usdcMint := "EPjFWdd5AufqSSqeM2qN1xzybapC8G4wEGGkZwyTDt1v"
  networkId := none
  positive := by decide

def merchantText : String := "11111111111111111111111111111111"

theorem payee_merchantText :
    Payee asciiPlatform threeRetries (some (.str merchantText)) Pubkey.default where
  recipient := by
    show pubkeyOfText merchantText = _
    decide +kernel
  text := ⟨merchantText, rfl⟩
  written := by simp [Platform.tooNested]
  allows := nofun

/-- One payment, of a merchant that then answers with 200. -/
theorem exists_paid {asset : Option Json}
    (hasset : asset.any Json.truthy = false ∨ asset = some (.str threeRetries.usdcMint)) :
    ∃ first lap c req, CallRun asciiPlatform threeRetries (.text "/data") ⟨[]⟩ first [lap] c ∧
      req ∈ lap.payments ∧
      lap.res = paymentRequired (demand threeRetries (some (.str merchantText)) asset "/data") := by
  have hstep : CallStep asciiPlatform threeRetries (.text "/data") ⟨[]⟩
      (.looping 0 [] (paymentRequired
      (demand threeRetries (some (.str merchantText)) asset "/data"))) _ _ :=
    step_payingLap payee_merchantText rfl hasset (by decide) List.not_mem_nil
      { status := 200, body := .noJson }
  have hstart : CallRun asciiPlatform threeRetries (.text "/data") ⟨[]⟩
      (.ok (paymentRequired (demand threeRetries (some (.str merchantText)) asset "/data"))) []
      (.looping 0 [] (paymentRequired
      (demand threeRetries (some (.str merchantText)) asset "/data"))) :=
    .start rfl
  exact ⟨_, _, _, _, .snoc hstart hstep, List.mem_cons_self, rfl⟩

/-! ### A whole call -/

/-- What is checked of a payment for the requirement `r`. -/
structure Authorised (p : Platform) (w : Wrapped) (r : Json) (req : PayRequest) : Prop
    extends Matches p (w.network p) r where
  asset : (r.get "asset").any Json.truthy = false ∨ r.get "asset" = some (.str w.usdcMint)
  payTo : ∀ allowlist, w.payToAllowlist = some allowlist →
    ∃ s ∈ allowlist, r.get "payTo" = some (.str s)
  recipient : p.publicKey (r.get "payTo") = .ok req.recipient
  amount : (amountOf r).bind Json.toBigInt = some req.micro
  positive : 1 ≤ req.micro
  ceiling : req.micro ≤ w.maxAmountMicro

/-- What the envelope tells the merchant. -/
structure Carries (envelope r : Json) (req : PayRequest) (result : PaymentResult) : Prop where
  network : envelope.get "network" = r.get "network"
  payload : ∃ payload, envelope.get "payload" = some payload ∧
    payload.get "network" = r.get "network" ∧ payload.get "asset" = r.get "asset" ∧
    payload.get "payTo" = r.get "payTo" ∧
    payload.get "amount" = some (.str (toString req.micro)) ∧
    payload.get "signature" = some (.str result.withdrawSignature)

theorem carries_settlementEnvelope {q : Quote} {req : PayRequest} (hmicro : req.micro = q.micro)
    (result : PaymentResult) :
    Carries (settlementEnvelope input q result) q.requirement req result := by
  have hpayload : ∀ key, (settlementPayload input q result).get key = _ :=
    Json.get_ofFields (by simp)
  have henvelope : ∀ key, (settlementEnvelope input q result).get key = _ :=
    Json.get_ofFields (by simp)
  refine ⟨?_, settlementPayload input q result, ?_, ?_, ?_, ?_, ?_, ?_⟩
  · simp [henvelope]
  · simp [henvelope]
  · simp [hpayload]
  · simp [hpayload]
  · simp [hpayload]
  · simp [hpayload, hmicro]
  · simp [hpayload]

/-- The header of a retry. -/
theorem header_retryInit (init : RequestInit) (envelope : String) :
    (retryInit init envelope).headers.find? (fun header => header.1 = "X-PAYMENT") =
      some ("X-PAYMENT", base64Encode envelope) := by
  have hnone : (init.headers.filter fun header => header.1 ≠ "X-PAYMENT").find?
      (fun header => header.1 = "X-PAYMENT") = none := by
    refine List.find?_eq_none.mpr fun header hheader hkey => ?_
    exact of_decide_eq_true (List.mem_filter.mp hheader).2 (of_decide_eq_true hkey)
  rw [retryInit, List.find?_append, hnone, Option.none_or]
  rfl

/-- The most recent answer. -/
def latest (first : Except String Response) (laps : List Lap) : Except String Response :=
  (laps.getLast?.map fun lap => lap.answers.retry).getD first

variable {first : Except String Response} {log : List Lap}

/-- **The loop** looks at the most recent answer. -/
theorem latest_of_run (hrun : CallRun p w input init first log c) :
    ∀ n keys r, c = .looping n keys r → latest first log = .ok r := by
  refine hrun.invariant (fun log c => ∀ n keys r, c = .looping n keys r → latest first log = .ok r)
    (fun c hc n keys r hloop => ?_) fun log c lap c' _ _ hstep n keys r hloop => ?_
  · subst hc
    rcases first with message | res
    · cases hloop
    · cases hloop
      rfl
  · obtain ⟨attempts, settled, -, ⟨-, hstop⟩ | ⟨q, req, hpaid⟩⟩ := hstep.cases
    · exact (hstop n keys r hloop).elim
    · obtain ⟨-, -, -, hretry⟩ := hpaid.next n keys r hloop
      rw [latest, List.getLast?_concat]
      exact hretry

/-- **Every payment** of a call is for a requirement of the most recent answer, and is what that
asks for, as is the merchant told. -/
theorem payment_authorised (hrun : CallRun p w input init first log c) {before after : List Lap}
    {lap : Lap} (hlog : log = before ++ lap :: after) {req : PayRequest}
    (hreq : req ∈ lap.payments) :
    latest first before = .ok lap.res ∧ lap.res.status = 402 ∧
      ∃ body accepts r, lap.res.json = some body ∧ body.get "accepts" = some (.arr accepts) ∧
        r ∈ accepts ∧ Authorised p w r req ∧
        ∀ retry, .fetch retry ∈ lap.effects → ∃ envelope result, lap.answers.pay = .ok result ∧
          retry.headers.find? (fun header => header.1 = "X-PAYMENT") =
            some ("X-PAYMENT", base64Encode envelope.stringify) ∧
          Carries envelope r req result := by
  subst hlog
  obtain ⟨_, _, hbefore, hstep⟩ := hrun.step_of_log
  obtain ⟨attempts, settled, rfl, ⟨hnone, -⟩ | ⟨q, req', hpaid⟩⟩ := hstep.cases
  · rw [hnone] at hreq
    cases hreq
  · rw [hpaid.payments] at hreq
    obtain rfl := List.mem_singleton.mp hreq
    obtain ⟨accepts, haccepts, hfound⟩ := hpaid.quoted.found
    obtain ⟨hjson, hbody, -⟩ := acceptsOf_eq_some.mp haccepts
    obtain ⟨hmem, hmatches⟩ := findRequirement_mem hfound
    have hmicro : req.micro = q.micro := hpaid.opened.micro
    refine ⟨latest_of_run hbefore _ _ _ rfl, hpaid.status, q.body, accepts, q.requirement, hjson,
      hbody, hmem, ?_, fun retry hretry => ?_⟩
    · exact
        { hmatches with
          asset := hpaid.quoted.asset
          payTo := fun allowlist h => any_contains_eq_true.mp (hpaid.quoted.allows allowlist h)
          recipient := hpaid.opened.recipient
          amount := hmicro ▸ bind_toBigInt hpaid.quoted.amount
          positive := hmicro ▸ hpaid.quoted.positive
          ceiling := hmicro ▸ hpaid.quoted.ceiling }
    · obtain ⟨result, hresult, rfl⟩ := hpaid.retry retry hretry
      exact ⟨_, result, hresult, header_retryInit init _, carries_settlementEnvelope hmicro result⟩

/-- One payment for the configured asset. -/
theorem payment_authorised_paid : ∃ (lap : Lap) (req : PayRequest) (accepts : List Json) (r : Json),
    req ∈ lap.payments ∧ lap.res.status = 402 ∧ r ∈ accepts ∧
      Authorised asciiPlatform threeRetries r req := by
  obtain ⟨first, lap, c, req, hrun, hreq, -⟩ :=
    exists_paid (.inr rfl : (some (Json.str threeRetries.usdcMint)).any Json.truthy = false ∨ _)
  have hlog : [lap] = [] ++ lap :: [] := rfl
  obtain ⟨-, hstatus, _, accepts, r, -, -, hr, hauthorised, -⟩ := payment_authorised hrun hlog hreq
  exact ⟨lap, req, accepts, r, hreq, hstatus, hr, hauthorised⟩

/-- One payment for a requirement without an asset. -/
theorem asset_not_checked : ∃ (first : Except String Response) (lap : Lap) (c : WrappedCall)
    (req : PayRequest) (r : Json),
    CallRun asciiPlatform threeRetries (.text "/data") ⟨[]⟩ first [lap] c ∧ req ∈ lap.payments ∧
      lap.res = paymentRequired r ∧ r.get "asset" ≠ some (.str threeRetries.usdcMint) := by
  obtain ⟨first, lap, c, req, hrun, hreq, hres⟩ :=
    exists_paid (.inl rfl : (none : Option Json).any Json.truthy = false ∨ _)
  refine ⟨first, lap, c, req, _, hrun, hreq, hres, ?_⟩
  simp [get_demand, demandFields]

end Qietr.Sdk
