import Qietr.Library.Json
import Qietr.Library.Runs
import Qietr.Sdk.Client

/-!
# SDK — paying a merchant over HTTP

`x402.ts`: a wrapped `fetch` that pays what an answer with status 402 asks for, and asks again.

* `wrapFetch`: the options of a wrapped `fetch`, checked.
* `quote`: what of an answer is to be paid; every check on what the merchant says is there.
* `openPayment`, `settle`: what the caller is asked for, and the payment with what follows it.
* `Lap`, `CallRun`: one turn of the loop, and the turns of a call, over every answer that its
  callbacks and the merchant may give.

How long an answer is waited for is left out: a request that takes too long is one that fails.
-/

namespace Qietr.Sdk

open Outcome BigIntText

/-! ### Errors -/

inductive X402Error where
  | x402Error (message : String)
  | malformedRequirements (reason : String)
  | noMatchingRequirement (reason : String)
  | amountExceeded (requested cap : ℤ)
  | payToNotAllowed (payTo : String)
  | assetMismatch (got expected : String)
  | paymentFailed (reason : String)

def X402Error.message : X402Error → String
  | x402Error message => message
  | malformedRequirements reason => s!"x402 requirements malformed: {reason}"
  | noMatchingRequirement reason => s!"no payable x402 requirement: {reason}"
  | amountExceeded requested cap =>
      s!"x402 amount {requested} micro-USDC exceeds maxAmountMicro cap {cap}"
  | payToNotAllowed payTo => s!"x402 payTo {payTo} is not on the configured allowlist"
  | assetMismatch got expected => s!"x402 asset {got} is not the configured USDC mint {expected}"
  | paymentFailed reason => s!"x402 payment failed: {reason}"

/-- What a call is rejected with: an error of its own, of which `onError` is told, or another. -/
inductive Thrown where
  | raised (err : X402Error)
  | other (message : String)

/-- An exception that the wrapper does not catch. -/
def uncaught {α : Type} : Except String α → Except Thrown α :=
  Except.mapError Thrown.other

@[simp] theorem uncaught_eq_ok {α : Type} {x : Except String α} {a : α} :
    uncaught x = .ok a ↔ x = .ok a := by
  cases x <;> simp [uncaught, Except.mapError]

/-! ### Options -/

def X402_VERSION : JsonNumber where
  integer := some 1
  text := "1"

def SUPPORTED_SCHEMES : List String := ["exact", "qietr-private"]

def DEFAULT_NETWORK_ID : String := "solana"

/-- `String.prototype.toLowerCase`, by the tables of Unicode, `new PublicKey`, and what is nested
too deep for the stack: of the lists that are made a text of, and of the values in an envelope. -/
structure Platform where
  toLowerCase : String → String
  publicKey : Option Json → Except String Pubkey
  textOverflows : List Json → Bool
  stringifyOverflows : Json → Bool

/-- A call goes on while its attempts are fewer than `maxRetries`: of a number that is its ceiling,
of a negative one zero, and of `Infinity` the top. -/
structure WrapFetchOptions where
  maxRetries : Option ℕ∞
  maxAmountMicro : ℤ
  payToAllowlist : Option (List String)
  usdcMint : String
  networkId : Option String

/-- Options with a spend ceiling. -/
structure Wrapped extends WrapFetchOptions where
  positive : 0 < maxAmountMicro

def wrapFetch (opts : WrapFetchOptions) : Except X402Error Wrapped :=
  if h : 0 < opts.maxAmountMicro then .ok { opts with positive := h }
  else .error (.x402Error "wrapFetch requires a positive `maxAmountMicro` spend ceiling (bigint)")

def Wrapped.retries (w : Wrapped) : ℕ∞ :=
  w.maxRetries.getD 1

variable (p : Platform)

def normalizeNetwork (label : String) : String :=
  let l := p.toLowerCase (String.ofList (trim label.toList))
  if l ∈ ["solana", "solana-mainnet", "mainnet-beta", "solana:mainnet", "solana-mainnet-beta"] then
    "solana"
  else if l ∈ ["solana-devnet", "devnet", "solana:devnet"] then "solana-devnet"
  else if l ∈ ["solana-testnet", "testnet", "solana:testnet"] then "solana-testnet"
  else if l ∈ ["localnet", "solana-localnet"] then "solana-localnet"
  else l

def Wrapped.network (w : Wrapped) : String :=
  normalizeNetwork p (w.networkId.getD DEFAULT_NETWORK_ID)

/-! ### What an answer asks for -/

/-- A body: one that somebody has read already, or is reading; one that is no JSON; or a value. -/
inductive ResponseBody where
  | used
  | noJson
  | json (v : Json)

structure Response where
  status : ℕ
  body : ResponseBody

/-- What a body is read as, or nothing when that is no JSON. -/
def ResponseBody.value : ResponseBody → Option Json
  | json v => some v
  | used | noJson => none

def Response.json (res : Response) : Option Json :=
  res.body.value

/-- `res.clone().json()`, caught: to clone an answer that is used throws, which is not caught. -/
def Response.cloneJson (res : Response) : Except String (Option Json) :=
  match res.body with
  | .used => .error "Response.clone: Body has already been consumed."
  | body => .ok body.value

/-- `x ?? y`. -/
def nullish (x : Option Json) : Option Json :=
  x.filter fun v => ¬ v.isNull

def STACK_OVERFLOW : String := "Maximum call stack size exceeded"

/-- `Json.text`, unless the stack gives out. -/
def Platform.text : Json → Except String String
  | .arr xs => if p.textOverflows xs then .error STACK_OVERFLOW else (Json.arr xs).text
  | v => v.text

/-- `BigInt` of a value, or nothing where that throws. -/
def Platform.toBigInt : Json → Option ℤ
  | .arr xs => if p.textOverflows xs then none else (Json.arr xs).toBigInt
  | v => v.toBigInt

/-- It cannot be written as JSON. -/
def Platform.tooNested : Json → Bool
  | .arr xs => p.stringifyOverflows (.arr xs)
  | .obj fields => p.stringifyOverflows (.obj fields)
  | _ => false

/-- Within a template. -/
def textOf (x : Option Json) : Except String String :=
  x.elim (.ok "undefined") p.text

/-- The body and its `accepts`, of which there is one at least. -/
def acceptsOf (json : Option Json) : Option (Json × List Json) := do
  let body ← json
  match body.get "accepts" with
  | some (.arr (r :: rs)) => some (body, r :: rs)
  | _ => none

/-- `normalizeNetwork` of anything. -/
def networkOf : Option Json → Except String String
  | some (.str label) => .ok (normalizeNetwork p label)
  | none => .error "Cannot read properties of undefined (reading 'trim')"
  | some .null => .error "Cannot read properties of null (reading 'trim')"
  | some _ => .error "label.trim is not a function"

/-- It has a scheme and a network that can be settled. -/
def matchesRequirement (networkId : String) (r : Json) : Except String Bool :=
  if r.isNull then .error "Cannot read properties of null (reading 'scheme')"
  else if ((r.get "scheme").bind Json.string?).any SUPPORTED_SCHEMES.contains then do
    let network ← networkOf p (r.get "network")
    .ok (network = networkId)
  else .ok false

def findRequirement (networkId : String) : List Json → Except String (Option Json)
  | [] => .ok none
  | r :: rs => do
      let found ← matchesRequirement p networkId r
      if found then .ok (some r) else findRequirement networkId rs

/-- An absent or empty asset is let through. -/
def checkAsset (w : Wrapped) (asset : Option Json) : Except Thrown Unit :=
  if asset.any Json.truthy ∧ asset.bind Json.string? ≠ some w.usdcMint then do
    let got ← uncaught (textOf p asset)
    .error (.raised (.assetMismatch got w.usdcMint))
  else .ok ()

def amountOf (r : Json) : Option Json :=
  (nullish (r.get "maxAmountRequired")).or (r.get "amount")

/-- `BigInt` of the amount. -/
def readAmount (r : Json) : Except Thrown ℤ := do
  let amountStr ← okOr (amountOf r)
    (.raised (.malformedRequirements "requirement has neither `maxAmountRequired` nor `amount`"))
  match p.toBigInt amountStr with
  | some micro => .ok micro
  | none => do
      let got ← uncaught (p.text amountStr)
      .error (.raised (.malformedRequirements s!"amount \"{got}\" is not an integer string"))

/-- The allowlist is of texts. -/
def Wrapped.Allows (w : Wrapped) (payTo : Option Json) : Prop :=
  ∀ allowlist, w.payToAllowlist = some allowlist →
    (payTo.bind Json.string?).any allowlist.contains = true

instance (w : Wrapped) (payTo : Option Json) : Decidable (w.Allows payTo) :=
  inferInstanceAs (Decidable (∀ allowlist, w.payToAllowlist = some allowlist → _))

def checkAllowlist (w : Wrapped) (payTo : Option Json) : Except Thrown Unit :=
  if w.Allows payTo then .ok ()
  else do
    let got ← uncaught (textOf p payTo)
    .error (.raised (.payToNotAllowed got))

def dedupeKeyOf (r : Json) (micro : ℤ) : Except String String := do
  let payTo ← textOf p (r.get "payTo")
  let resource ← (nullish (r.get "resource")).elim (.ok "") p.text
  .ok s!"{payTo}:{micro}:{resource}"

structure Quote where
  body : Json
  requirement : Json
  micro : ℤ
  dedupeKey : String

/-- **The checks** on an answer, up to what is asked of the caller. -/
def quote (w : Wrapped) (settled : List String) (json : Option Json) : Except Thrown Quote := do
  let (body, accepts) ← okOr (acceptsOf json)
    (.raised (.malformedRequirements "missing or empty `accepts`"))
  let found ← uncaught (findRequirement p (w.network p) accepts)
  let requirement ← okOr found (.raised (.noMatchingRequirement
    ("none of " ++ toString accepts.length ++ " requirement(s) matched scheme∈\x7b" ++
      ",".intercalate SUPPORTED_SCHEMES ++ "\x7d network=" ++ w.network p)))
  checkAsset p w (requirement.get "asset")
  let micro ← readAmount p requirement
  require (0 < micro)
    (.raised (.malformedRequirements s!"amount must be positive, got {micro}"))
  require (micro ≤ w.maxAmountMicro) (.raised (.amountExceeded micro w.maxAmountMicro))
  checkAllowlist p w (requirement.get "payTo")
  let dedupeKey ← uncaught (dedupeKeyOf p requirement micro)
  require (dedupeKey ∉ settled) (.raised (.paymentFailed
    "merchant re-requested payment for an already-settled requirement"))
  .ok { body, requirement, micro, dedupeKey }

/-- Of an answer whose body is to be read. -/
def Response.quote (res : Response) (w : Wrapped) (settled : List String) :
    Except Thrown Quote := do
  let json ← uncaught res.cloneJson
  Sdk.quote p w settled json

/-! ### The payment -/

/-- The arguments of `pay`, with the key of the fee payer. -/
structure PayRequest where
  recipient : Pubkey
  micro : ℤ
  feePayer : Pubkey
  deriving DecidableEq

/-- How the caller's callbacks and the request after the payment answer in one turn.  What is thrown
has a message, unless it is `null` or `undefined`; where it is not caught nobody looks. -/
structure Answers where
  getNote : Except String (Option Note)
  getFeePayer : Except (Option String) Pubkey
  pay : Except (Option String) PaymentResult
  setNote : Except String Unit
  retry : Except String Response

/-- To read the message of `null` or `undefined` throws again. -/
def paymentFailure : Option String → Thrown
  | some message => .raised (.paymentFailed message)
  | none => .other "Cannot read properties of undefined (reading 'message')"

def openPayment (q : Quote) (answers : Answers) : Except Thrown PayRequest := do
  let note ← uncaught answers.getNote
  require (note.any fun note => note.commitments ≠ [])
    (.raised (.paymentFailed "no shielded note loaded to pay from"))
  let recipient ← uncaught (p.publicKey (q.requirement.get "payTo"))
  let feePayer ← answers.getFeePayer.mapError paymentFailure
  .ok { recipient, micro := q.micro, feePayer }

/-- What is fetched: a text, a `URL`, or a `Request`. -/
inductive RequestInfo where
  | text (url : String)
  | url (href : String)
  | request (url : Option String) (asText : String)

def canonicalResource : RequestInfo → String
  | .text url => url
  | .url href => href
  | .request url asText => url.getD asText

structure RequestInit where
  headers : List (String × String)

def settlementPayload (input : RequestInfo) (q : Quote) (result : PaymentResult) : Json :=
  .ofFields
    [("scheme", q.requirement.get "scheme"),
      ("network", q.requirement.get "network"),
      ("asset", q.requirement.get "asset"),
      ("payTo", q.requirement.get "payTo"),
      ("amount", some (.str (toString q.micro))),
      ("resource", some ((nullish (q.requirement.get "resource")).getD
        (.str (canonicalResource input)))),
      ("signature", some (.str result.withdrawSignature)),
      ("nonce", some (.str result.withdrawSignature)),
      ("invoiceId", q.body.get "invoiceId")]

def settlementEnvelope (input : RequestInfo) (q : Quote) (result : PaymentResult) : Json :=
  .ofFields
    [("x402Version", some (.num X402_VERSION)),
      ("scheme", q.requirement.get "scheme"),
      ("network", q.requirement.get "network"),
      ("payload", some (settlementPayload input q result))]

/-- What the merchant has put in the envelope. -/
def merchantValues (q : Quote) : List Json :=
  [q.requirement.get "scheme", q.requirement.get "network", q.requirement.get "asset",
    q.requirement.get "payTo", nullish (q.requirement.get "resource"),
    q.body.get "invoiceId"].reduceOption

/-- `JSON.stringify` of the envelope, unless the stack gives out. -/
def stringifyEnvelope (input : RequestInfo) (q : Quote) (result : PaymentResult) :
    Except String String :=
  if (merchantValues q).any p.tooNested then .error STACK_OVERFLOW
  else .ok (settlementEnvelope input q result).stringify

def base64Digit (n : ℕ) : Char :=
  "ABCDEFGHIJKLMNOPQRSTUVWXYZabcdefghijklmnopqrstuvwxyz0123456789+/".toList.getD n '='

/-- Three bytes at a time. -/
def base64Chars : List UInt8 → List Char
  | [] => []
  | [a] => [base64Digit (a.toNat / 4), base64Digit (a.toNat % 4 * 16), '=', '=']
  | [a, b] =>
      [base64Digit (a.toNat / 4), base64Digit (a.toNat % 4 * 16 + b.toNat / 16),
        base64Digit (b.toNat % 16 * 4), '=']
  | a :: b :: c :: rest =>
      base64Digit (a.toNat / 4) :: base64Digit (a.toNat % 4 * 16 + b.toNat / 16) ::
        base64Digit (b.toNat % 16 * 4 + c.toNat / 64) :: base64Digit (c.toNat % 64) ::
        base64Chars rest

/-- Of the text's bytes in UTF-8. -/
def base64Encode (s : String) : String :=
  String.ofList (base64Chars s.toUTF8.data.toList)

/-- The headers of the first request, with the envelope's text. -/
def retryInit (init : RequestInit) (envelope : String) : RequestInit where
  headers := init.headers.filter (fun header => header.1 ≠ "X-PAYMENT") ++
    [("X-PAYMENT", base64Encode envelope)]

/-- To multiply the merchant's timeout may throw. -/
def readTimeout (r : Json) : Except String Unit :=
  let timeout := r.get "maxTimeoutSeconds"
  if timeout.any Json.truthy then (textOf p timeout).map fun _ => () else .ok ()

/-- What a turn does. -/
inductive Effect where
  | pay (req : PayRequest)
  | setNote (note : Note)
  | fetch (init : RequestInit)

/-- A call within its loop, or at its end. -/
inductive WrappedCall where
  | looping (attempts : ℕ) (settled : List String) (lastRes : Response)
  | returned (res : Response)
  | threw (err : Thrown)

/-- What is done after a payment, up to the text of the envelope. -/
def prepareRetry (input : RequestInfo) (q : Quote) (result : PaymentResult) (answers : Answers) :
    Except String String := do
  answers.setNote
  readTimeout p q.requirement
  stringifyEnvelope p input q result

/-- **A turn that pays**, from the quote on. -/
def settle (input : RequestInfo) (init : RequestInit) (attempts : ℕ) (settled : List String)
    (q : Quote) (req : PayRequest) (answers : Answers) : List Effect × WrappedCall :=
  match answers.pay with
  | .error e => ([.pay req], .threw (paymentFailure e))
  | .ok result =>
      match prepareRetry p input q result answers with
      | .error message => ([.pay req, .setNote result.updatedNote], .threw (.other message))
      | .ok envelope =>
          let effects :=
            [.pay req, .setNote result.updatedNote, .fetch (retryInit init envelope)]
          match answers.retry with
          | .error message =>
              (effects, .threw (.raised (.paymentFailed ("settled (sig " ++
                result.withdrawSignature ++ ") but retry fetch failed: " ++ message))))
          | .ok res => (effects, .looping attempts (settled ++ [q.dedupeKey]) res)

/-- One turn of the loop. -/
def turn (w : Wrapped) (input : RequestInfo) (init : RequestInit) (attempts : ℕ)
    (settled : List String) (lastRes : Response) (answers : Answers) : List Effect × WrappedCall :=
  if lastRes.status = 402 ∧ (attempts : ℕ∞) < w.retries then
    match lastRes.quote p w settled with
    | .error err => ([], .threw err)
    | .ok q =>
        match openPayment p q answers with
        | .error err => ([], .threw err)
        | .ok req => settle p input init (attempts + 1) settled q req answers
  else ([], .returned lastRes)

/-! ### A call -/

/-- A turn: the answer it is about, how its callbacks answer, and what it does. -/
structure Lap where
  res : Response
  answers : Answers
  effects : List Effect

/-- From one turn to the next. -/
def CallStep (w : Wrapped) (input : RequestInfo) (init : RequestInit) (c : WrappedCall) (lap : Lap)
    (c' : WrappedCall) : Prop :=
  ∃ attempts settled, c = .looping attempts settled lap.res ∧
    turn p w input init attempts settled lap.res lap.answers = (lap.effects, c')

/-- A call after its first request. -/
def begin : Except String Response → WrappedCall
  | .ok res => .looping 0 [] res
  | .error message => .threw (.other message)

/-- **The turns of a call** whose first request is answered with `first`. -/
def CallRun (w : Wrapped) (input : RequestInfo) (init : RequestInit)
    (first : Except String Response) : List Lap → WrappedCall → Prop :=
  Run (fun c => c = begin first) (CallStep p w input init)

def Effect.payment? : Effect → Option PayRequest
  | pay req => some req
  | _ => none

/-- The arguments of each call of `pay`. -/
def Lap.payments (lap : Lap) : List PayRequest :=
  lap.effects.filterMap Effect.payment?

end Qietr.Sdk
