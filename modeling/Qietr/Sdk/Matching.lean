import Qietr.Sdk.Authorised

/-!
# SDK — which requirement is paid

A requirement is found by its scheme and its network; the asset, the amount and the recipient are
looked at afterwards, of that one alone.

* `PassedOver`, `Selected`: what the search goes past, and where it stops.
* `Settleable`: a requirement that a wrapped `fetch` is ready to pay.
* `selected_is_paid_iff`: the one where the search stops is paid if it is such, and refused if not.
* `settleable_not_reached`: one after a requirement above the ceiling is not paid.
-/

namespace Qietr.Sdk

open Outcome Pool BigIntText

variable {p : Platform} {w : Wrapped} {networkId : String} {r : Json} {rs : List Json}

/-! ### The search -/

/-- The requirement can be read, and its scheme or its network is another. -/
structure PassedOver (p : Platform) (networkId : String) (r : Json) : Prop where
  notNull : r.isNull = false
  other : (¬ ∃ s ∈ SUPPORTED_SCHEMES, r.get "scheme" = some (.str s)) ∨
    ∃ label, r.get "network" = some (.str label) ∧ normalizeNetwork p label ≠ networkId

theorem matchesRequirement_eq_false :
    matchesRequirement p networkId r = .ok false ↔ PassedOver p networkId r := by
  rw [matchesRequirement]
  by_cases hnull : r.isNull = true
  · rw [if_pos hnull]
    refine ⟨fun h => ?_, fun h => ?_⟩
    · cases h
    · rw [h.notNull] at hnull
      cases hnull
  · rw [if_neg hnull]
    have hreadable : r.isNull = false := Bool.not_eq_true _ ▸ hnull
    by_cases hscheme : ((r.get "scheme").bind Json.string?).any SUPPORTED_SCHEMES.contains = true
    · rw [if_pos hscheme, bind_eq_ok]
      simp only [networkOf_eq_ok, Except.ok.injEq, decide_eq_false_iff_not]
      refine ⟨?_, fun h => ?_⟩
      · rintro ⟨network, ⟨label, hlabel, rfl⟩, hne⟩
        exact ⟨hreadable, .inr ⟨label, hlabel, hne⟩⟩
      · obtain ⟨label, hlabel, hne⟩ := h.other.resolve_left
          (not_not.mpr (any_contains_eq_true.mp hscheme))
        exact ⟨_, ⟨label, hlabel, rfl⟩, hne⟩
    · rw [if_neg hscheme]
      exact ⟨fun _ => ⟨hreadable, .inl fun h => hscheme (any_contains_eq_true.mpr h)⟩, fun _ => rfl⟩

/-- The first requirement that is not passed over, and it matches. -/
def Selected (p : Platform) (networkId : String) (accepts : List Json) (r : Json) : Prop :=
  ∃ before after, accepts = before ++ r :: after ∧ (∀ r' ∈ before, PassedOver p networkId r') ∧
    Matches p networkId r

/-- **The search stops** there. -/
theorem findRequirement_eq_some :
    findRequirement p networkId rs = .ok (some r) ↔ Selected p networkId rs r := by
  refine ⟨fun h => ?_, ?_⟩
  · obtain ⟨before, after, heq, hbefore, hmatches⟩ := findRequirement_split h
    exact ⟨before, after, heq, fun x hx => matchesRequirement_eq_false.mp (hbefore x hx), hmatches⟩
  · rintro ⟨before, after, rfl, hbefore, hmatches⟩
    induction before with
    | nil => exact findRequirement_cons hmatches after
    | cons r' before ih =>
        have hpassed := matchesRequirement_eq_false.mpr (hbefore r' List.mem_cons_self)
        rw [List.cons_append, findRequirement, hpassed, ok_bind]
        exact ih fun x hx => hbefore x (List.mem_cons_of_mem r' hx)

/-! ### What can be paid -/

/-- The requirement matches, in the configured asset, and what it asks for is within the ceiling and
for somebody on the allowlist. -/
structure Settleable (p : Platform) (w : Wrapped) (r : Json) : Prop
    extends Matches p (w.network p) r where
  asset : r.get "asset" = some (.str w.usdcMint)
  amount : ∃ micro, (amountOf r).bind p.toBigInt = some micro ∧ 0 < micro ∧
    micro ≤ w.maxAmountMicro
  allows : w.Allows (r.get "payTo")

/-- Its recipient is a key, and it has not been settled before. -/
structure Unhindered (p : Platform) (settled : List String) (r : Json) : Prop where
  recipient : ∃ recipient, p.publicKey (r.get "payTo") = .ok recipient
  unsettled : ∀ micro, (amountOf r).bind p.toBigInt = some micro →
    ∃ key, dedupeKeyOf p r micro = .ok key ∧ key ∉ settled

variable {input : RequestInfo} {init : RequestInit} {attempts : ℕ} {settled : List String}
  {res : Response} {answers : Answers}

theorem pay_mem_settle (q : Quote) (req : PayRequest) :
    .pay req ∈ (settle p input init attempts settled q req answers).1 := by
  rw [settle]
  cases answers.pay with
  | error message => exact List.mem_cons_self
  | ok result =>
      simp only
      split
      · exact List.mem_cons_self
      · split <;> exact List.mem_cons_self

/-- The turn pays for the requirement `r` of its answer. -/
def PaysFor (p : Platform) (w : Wrapped) (input : RequestInfo) (init : RequestInit) (attempts : ℕ)
    (settled : List String) (res : Response) (answers : Answers) (r : Json) : Prop :=
  ∃ q req, quote p w settled res.json = .ok q ∧ q.requirement = r ∧
    p.publicKey (r.get "payTo") = .ok req.recipient ∧
    (amountOf r).bind p.toBigInt = some req.micro ∧
    .pay req ∈ (turn p w input init attempts settled res answers).1

/-- What is left to check of the requirement where the search stops, once its asset and its amount
have been read. -/
theorem quote_selected {json : Option Json} {body : Json} {accepts : List Json} {micro : ℤ}
    (haccepts : acceptsOf json = some (body, accepts))
    (hfound : findRequirement p (w.network p) accepts = .ok (some r))
    (hasset : r.get "asset" = some (.str w.usdcMint))
    (hmicro : (amountOf r).bind p.toBigInt = some micro) :
    quote p w settled json = (do
      require (0 < micro)
        (.raised (.malformedRequirements s!"amount must be positive, got {micro}"))
      require (micro ≤ w.maxAmountMicro) (.raised (.amountExceeded micro w.maxAmountMicro))
      checkAllowlist p w (r.get "payTo")
      let dedupeKey ← uncaught (dedupeKeyOf p r micro)
      require (dedupeKey ∉ settled) (.raised (.paymentFailed
        "merchant re-requested payment for an already-settled requirement"))
      .ok { body, requirement := r, micro, dedupeKey }) := by
  have hcheck : checkAsset p w (r.get "asset") = .ok () := checkAsset_eq_ok.mpr (.inr hasset)
  rw [quote, haccepts]
  simp only [okOr, ok_bind, hfound, uncaught, Except.mapError, hcheck, readAmount_eq_ok.mpr hmicro]

/-- A body that is read as a value is not used. -/
theorem body_ne_used {v : Json} (h : res.json = some v) : res.body ≠ .used := by
  intro hused
  rw [Response.json, hused] at h
  cases h

/-- A quote that fails ends the call. -/
theorem turn_of_quote_error (hstatus : res.status = 402) (hlt : (attempts : ℕ∞) < w.retries)
    {err : Thrown} (h : res.quote p w settled = .error err) :
    turn p w input init attempts settled res answers = ([], .threw err) := by
  rw [turn, if_pos ⟨hstatus, hlt⟩, h]

/-- A quote that is paid for. -/
theorem paysFor_of_quoted (hstatus : res.status = 402) (hlt : (attempts : ℕ∞) < w.retries)
    {q : Quote} {req : PayRequest} (hquoted : Quoted p w settled res.json q)
    (hopened : Opened402 p q answers req) :
    PaysFor p w input init attempts settled res answers q.requirement := by
  refine ⟨q, req, quote_eq_ok.mpr hquoted, rfl, hopened.recipient, ?_, ?_⟩
  · rw [hopened.micro]
    exact hquoted.amount
  · rw [turn_eq hstatus hlt hquoted hopened]
    exact pay_mem_settle q req

/-- **The requirement where the search stops is the one that counts.**  If it is in the configured
asset then, with a note and a fee payer there, it is paid just when it can be; and if its amount is
not positive, or above the ceiling, or its recipient not on the allowlist, the call is refused for
that, whatever the list goes on with. -/
theorem selected_is_paid_iff (hstatus : res.status = 402) (hlt : (attempts : ℕ∞) < w.retries)
    (hnote : ∃ note : Note, answers.getNote = .ok (some note) ∧ note.commitments ≠ [])
    (hfeePayer : ∃ key, answers.getFeePayer = .ok key) {body : Json} {before after : List Json}
    (hjson : res.json = some body)
    (haccepts : body.get "accepts" = some (.arr (before ++ r :: after)))
    (hbefore : ∀ r' ∈ before, PassedOver p (w.network p) r') (hmatches : Matches p (w.network p) r)
    (hasset : r.get "asset" = some (.str w.usdcMint)) :
    (PaysFor p w input init attempts settled res answers r ↔
      Settleable p w r ∧ Unhindered p settled r) ∧
    ∀ micro, (amountOf r).bind p.toBigInt = some micro →
      (micro ≤ 0 → turn p w input init attempts settled res answers = ([], .threw (.raised
        (.malformedRequirements s!"amount must be positive, got {micro}")))) ∧
      (w.maxAmountMicro < micro → turn p w input init attempts settled res answers =
        ([], .threw (.raised (.amountExceeded micro w.maxAmountMicro)))) ∧
      ∀ got, 0 < micro → micro ≤ w.maxAmountMicro → ¬ w.Allows (r.get "payTo") →
        textOf p (r.get "payTo") = .ok got →
        turn p w input init attempts settled res answers =
          ([], .threw (.raised (.payToNotAllowed got))) := by
  have haccepts' : acceptsOf res.json = some (body, before ++ r :: after) :=
    acceptsOf_eq_some.mpr ⟨hjson, haccepts, by simp⟩
  have hfound : findRequirement p (w.network p) (before ++ r :: after) = .ok (some r) :=
    findRequirement_eq_some.mpr ⟨before, after, rfl, hbefore, hmatches⟩
  refine ⟨⟨?_, ?_⟩, fun micro hmicro => ?_⟩
  · rintro ⟨q, req, hquote, rfl, hrecipient, -, -⟩
    have hquoted := quote_eq_ok.mp hquote
    refine ⟨⟨hmatches, hasset, ⟨q.micro, hquoted.amount, hquoted.positive, hquoted.ceiling⟩,
      hquoted.allows⟩, ⟨_, hrecipient⟩, fun micro hmicro => ?_⟩
    obtain rfl := Option.some.inj (hmicro.symm.trans hquoted.amount)
    exact ⟨q.dedupeKey, hquoted.dedupeKey, hquoted.unsettled⟩
  · rintro ⟨hsettleable, hunhindered⟩
    obtain ⟨micro, hmicro, hpos, hle⟩ := hsettleable.amount
    obtain ⟨key, hkey, hnew⟩ := hunhindered.unsettled micro hmicro
    obtain ⟨recipient, hrecipient⟩ := hunhindered.recipient
    obtain ⟨feePayer, hfee⟩ := hfeePayer
    have hquoted : Quoted p w settled res.json
        { body, requirement := r, micro, dedupeKey := key } :=
      { found := ⟨_, haccepts', hfound⟩
        asset := .inr hasset
        amount := hmicro
        positive := hpos
        ceiling := hle
        allows := hsettleable.allows
        dedupeKey := hkey
        unsettled := hnew }
    have hopened : Opened402 p { body, requirement := r, micro, dedupeKey := key } answers
        { recipient, micro, feePayer } := ⟨hnote, hrecipient, rfl, hfee⟩
    exact paysFor_of_quoted hstatus hlt hquoted hopened
  · -- the checks come in this order, and each that fails ends the call with its own error
    have hquote : res.quote p w settled = _ :=
      (quote_response (body_ne_used hjson)).trans (quote_selected haccepts' hfound hasset hmicro)
    refine ⟨fun hle => ?_, fun hlarge => ?_, fun got hpos hle hallows hgot => ?_⟩
    · rw [require_of_not _ (not_lt.mpr hle)] at hquote
      exact turn_of_quote_error hstatus hlt hquote
    · have hpos : 0 < micro := w.positive.trans hlarge
      rw [require_of _ hpos, ok_bind, require_of_not _ (not_le.mpr hlarge)] at hquote
      exact turn_of_quote_error hstatus hlt hquote
    · have hcheck : checkAllowlist p w (r.get "payTo") =
        .error (.raised (.payToNotAllowed got)) := by
        rw [checkAllowlist, if_neg hallows, hgot]
        rfl
      rw [require_of _ hpos, ok_bind, require_of _ hle, ok_bind, hcheck] at hquote
      exact turn_of_quote_error hstatus hlt hquote

/-! ### A list of two -/

/-- A demand in the configured asset can be paid. -/
theorem settleable_demand {payTo : Option Json} {resource : String} (hallows : w.Allows payTo) :
    Settleable p w (demand w payTo (some (.str w.usdcMint)) resource) where
  scheme := ⟨"exact", by simp [SUPPORTED_SCHEMES], by simp [get_demand, demandFields]⟩
  network := ⟨_, by simp [get_demand, demandFields], rfl⟩
  asset := by simp [get_demand, demandFields]
  amount := by
    have hget : (demand w payTo (some (.str w.usdcMint)) resource).get "maxAmountRequired" =
        some (.str "1") := by simp [get_demand, demandFields]
    have hone : bigIntOfString "1" = some 1 := by decide +kernel
    refine ⟨1, ?_, one_pos, w.positive⟩
    rw [amountOf, hget]
    exact hone
  allows := by
    have hget : (demand w payTo (some (.str w.usdcMint)) resource).get "payTo" = payTo := by
      simp [get_demand, demandFields]
    rw [hget]
    exact hallows

/-- The answer that accepts these. -/
def accepting (accepts : List Json) : Response where
  status := 402
  body := .json (.ofFields [("accepts", some (.arr accepts))])

theorem get_accepting (accepts : List Json) :
    (Json.ofFields [("accepts", some (.arr accepts))]).get "accepts" = some (.arr accepts) := by
  rw [Json.get_ofFields (by simp)]
  simp

/-- One that can be paid, and one that is too dear. -/
def inUsdc : Json :=
  demand threeRetries (some (.str merchantText)) (some (.str threeRetries.usdcMint)) "/data"

def tooDear : Json :=
  .ofFields
    [("scheme", some (.str "exact")),
      ("network", some (.str DEFAULT_NETWORK_ID)),
      ("asset", some (.str threeRetries.usdcMint)),
      ("payTo", some (.str merchantText)),
      ("maxAmountRequired", some (.str "2"))]

theorem settleable_inUsdc : Settleable asciiPlatform threeRetries inUsdc :=
  settleable_demand payee_merchantText.allows

theorem unhindered_inUsdc : Unhindered asciiPlatform [] inUsdc := by
  have hpayTo : inUsdc.get "payTo" = some (.str merchantText) := by
    simp [inUsdc, get_demand, demandFields]
  have hresource : inUsdc.get "resource" = some (.str "/data") := by
    simp [inUsdc, get_demand, demandFields]
  exact
    { recipient := ⟨Pubkey.default, by rw [hpayTo]; exact payee_merchantText.recipient⟩
      unsettled := fun micro _ =>
        ⟨_, by rw [dedupeKeyOf, hpayTo, hresource]; rfl, List.not_mem_nil⟩ }

/-- Where it comes first it is paid. -/
theorem selected_is_paid_iff_first : PaysFor asciiPlatform threeRetries (.text "/data") ⟨[]⟩ 0 []
    (accepting [inUsdc, tooDear]) (payingAnswers { status := 200, body := .noJson }) inUsdc := by
  have haccepts : (Json.ofFields [("accepts", some (.arr [inUsdc, tooDear]))]).get "accepts" =
      some (.arr ([] ++ inUsdc :: [tooDear])) := get_accepting _
  exact Iff.mpr (selected_is_paid_iff rfl (by decide) ⟨loadedNote, rfl, by simp [loadedNote]⟩
    ⟨_, rfl⟩ rfl haccepts (List.forall_mem_nil _) settleable_inUsdc.toMatches
    settleable_inUsdc.asset).1 ⟨settleable_inUsdc, unhindered_inUsdc⟩

/-- The other way about the call fails for the amount of the first. -/
theorem settleable_not_reached :
    inUsdc ∈ [tooDear, inUsdc] ∧ Settleable asciiPlatform threeRetries inUsdc ∧
    Unhindered asciiPlatform [] inUsdc ∧
    turn asciiPlatform threeRetries (.text "/data") ⟨[]⟩ 0 [] (accepting [tooDear, inUsdc])
        (payingAnswers { status := 200, body := .noJson }) =
      ([], .threw (.raised (.amountExceeded 2 threeRetries.maxAmountMicro))) := by
  refine ⟨by simp, settleable_inUsdc, unhindered_inUsdc, ?_⟩
  have hget : ∀ key, tooDear.get key = _ := Json.get_ofFields (by simp)
  have hmatches : Matches asciiPlatform (threeRetries.network asciiPlatform) tooDear :=
    { scheme := ⟨"exact", by simp [SUPPORTED_SCHEMES], by simp [hget]⟩
      network := ⟨DEFAULT_NETWORK_ID, by simp [hget], rfl⟩ }
  have hmicro : (amountOf tooDear).bind asciiPlatform.toBigInt = some 2 := by
    have hamount : tooDear.get "maxAmountRequired" = some (.str "2") := by simp [hget]
    have htwo : bigIntOfString "2" = some 2 := by decide +kernel
    rw [amountOf, hamount]
    exact htwo
  have hquote : (accepting [tooDear, inUsdc]).quote asciiPlatform threeRetries [] = _ :=
    quote_selected (acceptsOf_eq_some.mpr ⟨rfl, get_accepting [tooDear, inUsdc], by simp⟩)
      (findRequirement_cons hmatches [inUsdc]) (by simp [hget]) hmicro
  rw [require_of _ (by decide), ok_bind, require_of_not _ (by decide)] at hquote
  exact turn_of_quote_error rfl (by decide) hquote

end Qietr.Sdk
