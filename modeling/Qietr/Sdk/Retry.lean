import Qietr.Library.Headers
import Qietr.Sdk.X402

/-!
# SDK — the request after the payment

`x402.ts`: a merchant that has been paid is sent the first request again, with one header more.

* `Request`, `Input`, `Init`: what is fetched and how, with the headers in any of their forms.
* `construct`: the request that `fetch` sends for them.  A body that can be read once is read then.
* `HeadersInit.spread`, `retryInit`: the headers of the retry are those of an object.
* `retry_framed_iff`: when the retry is the first request with the envelope and nothing else
  changed.
-/

namespace Qietr.Sdk.Fetch

open Headers

/-! ### What is fetched -/

/-- What is sent of a body: its bytes, or a form with the text that parts its entries. -/
inductive Content where
  | bytes (bytes : List UInt8)
  | multipart (entries : List (String × String)) (boundary : String)
  deriving DecidableEq

/-- A request.  Its headers are those of a `Headers` object. -/
structure Request where
  url : String
  method : String
  headers : List (String × String)
  body : Option Content
  deriving DecidableEq

inductive Input where
  | text (url : String)
  | url (href : String)
  | request (r : Request)

/-- The fields of an object. -/
structure Record where
  fields : List (String × String)
  distinct : (fields.map Prod.fst).Nodup

/-- The headers of an init: an object, an array of pairs, or a `Headers` object. -/
inductive HeadersInit where
  | record (r : Record)
  | pairs (entries : List (String × String))
  | headers (list : List (String × String))

/-- The body of an init: a value with its type, a form, or a stream that can be read once. -/
inductive BodyInit where
  | content (bytes : List UInt8) (type : Option String)
  | form (entries : List (String × String))
  | stream (chunks : List UInt8)

/-- An init, of the properties that say what is sent. -/
structure Init where
  method : Option String
  headers : Option HeadersInit
  body : Option BodyInit

/-! ### `fetch` -/

def Input.url? (parseUrl : String → Option String) : Input → Option String
  | text href | url href => parseUrl href
  | request r => some r.url

def Input.method : Input → String
  | request r => r.method
  | _ => "GET"

def Input.headers : Input → List (String × String)
  | request r => r.headers
  | _ => []

def Input.body : Input → Option Content
  | request r => r.body
  | _ => none

def HeadersInit.list : HeadersInit → List (String × String)
  | record r => r.fields
  | pairs entries => entries
  | headers list => list

/-- The type that a body gives. -/
def BodyInit.type (boundary : String) : BodyInit → Option String
  | content _ type => type
  | form _ => some ("multipart/form-data; boundary=" ++ boundary)
  | stream _ => none

/-- Six methods may be spelled in any case; three are refused. -/
def normalizeMethod (method : String) : Option String :=
  let upper := String.ofList (method.toList.map Char.toUpper)
  if method = "" ∨ ¬ method.toList.all isTokenChar ∨ upper ∈ ["CONNECT", "TRACE", "TRACK"] then none
  else if upper ∈ ["DELETE", "GET", "HEAD", "OPTIONS", "POST", "PUT"] then some upper
  else some method

/-- The headers that are asked for: those of the init, or else the request's own. -/
def carried (input : Input) (init : Init) : List (String × String) :=
  (init.headers.map HeadersInit.list).getD input.headers

def typeOf (init : Init) (boundary : String) : Option String :=
  init.body.bind (BodyInit.type boundary)

/-- Streams, and the body of a request, are gone once they are `used`. -/
def bodyOf (input : Input) (init : Init) (used : Bool) (boundary : String) :
    Option (Option Content) :=
  match init.body with
  | some (.content bytes _) => some (some (.bytes bytes))
  | some (.form entries) => some (some (.multipart entries boundary))
  | some (.stream chunks) => if used then none else some (some (.bytes chunks))
  | none =>
      match input.body with
      | some content => if used then none else some (some content)
      | none => some none

/-- **The request that is sent**, `new Request(input, init)`; nothing where that throws.  A form
is parted by `boundary`. -/
def construct (parseUrl : String → Option String) (input : Input) (init : Init) (used : Bool)
    (boundary : String) : Option Request := do
  let url ← input.url? parseUrl
  let method ← init.method.elim (some input.method) normalizeMethod
  let headers ← fill (carried input init)
  let body ← bodyOf input init used boundary
  if body.isSome ∧ method ∈ ["GET", "HEAD"] then none
  else some { url, method, headers := withType (typeOf init boundary) headers, body }

/-! ### The retry -/

/-- `{ ...headers }`: a `Headers` object has no properties of its own. -/
def HeadersInit.spread : HeadersInit → Record
  | record r => r
  | pairs entries => ⟨indexFields entries, indexFields_keys_nodup entries⟩
  | headers _ => ⟨[], List.nodup_nil⟩

def Record.assign (r : Record) (key value : String) : Record where
  fields := Headers.assign r.fields key value
  distinct := assign_keys_nodup r.distinct

/-- `{ ...(init.headers ?? {}) }`. -/
def Init.spread (init : Init) : Record :=
  init.headers.elim ⟨[], List.nodup_nil⟩ HeadersInit.spread

/-- **The init of the retry.** -/
def retryInit (init : Init) (envelope : Json) : Init :=
  { init with
    headers := some (.record (init.spread.assign "X-PAYMENT" (base64Encode envelope.stringify))) }

/-- The headers of an object are those that the model of a call has. -/
theorem retryInit_record (r : Record) (envelope : Json) :
    (r.assign "X-PAYMENT" (base64Encode envelope.stringify)).fields.Perm
      (Sdk.retryInit { headers := r.fields } envelope.stringify).headers :=
  assign_perm r.distinct

/-! ### What stays as it was -/

/-- **The retry is the first request plus one header**, name by name. -/
structure Framed (sent sent' : Request) (envelope : Json) : Prop where
  url : sent'.url = sent.url
  method : sent'.method = sent.method
  body : sent'.body = sent.body
  headers : ∀ name, values sent'.headers name =
    if name = "x-payment" then [base64Encode envelope.stringify] else values sent.headers name

/-- Of other headers there is none, or only the type that the body gives anyway. -/
def OnlyTyped (type : Option String) (headers : List (String × String)) : Prop :=
  (∀ header ∈ headers, lower header.1 = "x-payment" ∨ lower header.1 = "content-type") ∧
    (values headers "content-type" = [] ∨
      values headers "content-type" = type.toList.map strip)

/-- **The headers come through**: of an object, unless it spells `X-PAYMENT` otherwise; of any other
form, when there is nothing to lose. -/
def HeadersKept (input : Input) (init : Init) (boundary : String) : Prop :=
  match init.headers with
  | some (.record r) => ∀ field ∈ r.fields, lower field.1 = "x-payment" → field.1 = "X-PAYMENT"
  | some (.pairs entries) => entries = []
  | some (.headers list) => OnlyTyped (typeOf init boundary) list
  | none => OnlyTyped (typeOf init boundary) input.headers

/-- **The body can be sent again**, and as the same bytes. -/
def BodyRepeats (input : Input) (init : Init) (boundary boundary' : String) : Prop :=
  match init.body with
  | some (.content _ _) => True
  | some (.form _) => boundary = boundary'
  | some (.stream _) => False
  | none => input.body = none

variable {parseUrl : String → Option String} {input : Input} {init : Init} {used : Bool}
  {boundary boundary' : String} {sent sent' : Request} {envelope : Json}

theorem construct_eq_some :
    construct parseUrl input init used boundary = some sent ↔
      input.url? parseUrl = some sent.url ∧
      init.method.elim (some input.method) normalizeMethod = some sent.method ∧
      (∀ header ∈ carried input init, Valid header) ∧
      bodyOf input init used boundary = some sent.body ∧
      ¬ (sent.body.isSome ∧ sent.method ∈ ["GET", "HEAD"]) ∧
      sent.headers = withType (typeOf init boundary) (carried input init) := by
  obtain ⟨url, method, headers, body⟩ := sent
  simp only [construct, Option.bind_eq_bind, Option.bind_eq_some_iff, fill_eq_some]
  constructor
  · rintro ⟨u, hu, m, hm, hs, ⟨hvalid, rfl⟩, b, hb, hsent⟩
    split at hsent
    · exact absurd hsent (Option.some_ne_none _).symm
    · obtain ⟨rfl, rfl, rfl, rfl⟩ := Request.mk.injEq .. ▸ Option.some.inj hsent
      exact ⟨hu, hm, hvalid, hb, ‹_›, rfl⟩
  · rintro ⟨hu, hm, hvalid, hb, hget, rfl⟩
    exact ⟨url, hu, method, hm, _, ⟨hvalid, rfl⟩, body, hb, if_neg hget⟩

/-! ### The envelope -/

def base64Alphabet : List Char :=
  "ABCDEFGHIJKLMNOPQRSTUVWXYZabcdefghijklmnopqrstuvwxyz0123456789+/".toList ++ ['=']

theorem base64Digit_mem (n : ℕ) : base64Digit n ∈ base64Alphabet := by
  rw [base64Digit, List.getD_eq_getElem?_getD]
  cases h : "ABCDEFGHIJKLMNOPQRSTUVWXYZabcdefghijklmnopqrstuvwxyz0123456789+/".toList[n]? with
  | none => exact List.mem_append_right _ (List.mem_singleton_self '=')
  | some c => exact List.mem_append_left _ (List.mem_of_getElem? h)

theorem mem_base64Alphabet {bs : List UInt8} {c : Char} (h : c ∈ base64Chars bs) :
    c ∈ base64Alphabet := by
  have hpad : '=' ∈ base64Alphabet := List.mem_append_right _ (List.mem_singleton_self '=')
  induction bs using base64Chars.induct with
  | case1 => exact absurd h List.not_mem_nil
  | case2 a =>
      simp only [base64Chars, List.mem_cons, List.not_mem_nil, or_false] at h
      rcases h with rfl | rfl | rfl | rfl <;> first | exact base64Digit_mem _ | exact hpad
  | case3 a b =>
      simp only [base64Chars, List.mem_cons, List.not_mem_nil, or_false] at h
      rcases h with rfl | rfl | rfl | rfl <;> first | exact base64Digit_mem _ | exact hpad
  | case4 a b d rest ih =>
      simp only [base64Chars, List.mem_cons] at h
      rcases h with rfl | rfl | rfl | rfl | h
      case inr.inr.inr.inr => exact ih h
      all_goals exact base64Digit_mem _

theorem base64Alphabet_plain : ∀ c ∈ base64Alphabet, isHttpBlank c = false ∧
    c ∉ ['\x00', '\n', '\r'] ∧ c.toNat < 256 := by
  have hall : base64Alphabet.all (fun c => isHttpBlank c = false ∧
      c ∉ ['\x00', '\n', '\r'] ∧ c.toNat < 256) = true := by
    decide +kernel
  exact fun c hc => of_decide_eq_true (List.all_eq_true.mp hall c hc)

theorem mem_base64Encode {s : String} {c : Char} (h : c ∈ (base64Encode s).toList) :
    c ∈ base64Alphabet := by
  rw [base64Encode, String.toList_ofList] at h
  exact mem_base64Alphabet h

@[simp] theorem strip_base64Encode (s : String) : strip (base64Encode s) = base64Encode s :=
  strip_eq_self fun c hc => (base64Alphabet_plain c (mem_base64Encode hc)).1

/-- It can be sent as a header. -/
theorem valid_envelope (envelope : Json) :
    Valid ("X-PAYMENT", base64Encode envelope.stringify) := by
  have htoken : "X-PAYMENT" ≠ "" ∧ ∀ c ∈ "X-PAYMENT".toList, isTokenChar c = true :=
    ⟨by decide, List.all_eq_true.mp (by decide)⟩
  refine ⟨htoken, fun c hc => ?_⟩
  rw [strip_base64Encode] at hc
  exact (base64Alphabet_plain c (mem_base64Encode hc)).2

/-! ### Its body -/

/-- It is sent again just when it repeats. -/
theorem bodyOf_repeats_iff {body : Option Content}
    (h : bodyOf input init false boundary = some body) :
    bodyOf input init true boundary' = some body ↔ BodyRepeats input init boundary boundary' := by
  unfold bodyOf at h ⊢
  unfold BodyRepeats
  cases hbody : init.body with
  | none =>
      -- then the request's own body counts, which the first fetch has read
      cases hown : input.body with
      | none => simpa [hbody, hown] using h
      | some content => simp
  | some b =>
      cases b with
      | content bytes type => simpa [hbody] using h
      | form entries =>
          obtain rfl : some (.multipart entries boundary) = body := by simpa [hbody] using h
          simp [eq_comm]
      | stream chunks => simp

theorem typeOf_eq (h : BodyRepeats input init boundary boundary') :
    typeOf init boundary' = typeOf init boundary := by
  unfold BodyRepeats at h
  unfold typeOf
  cases hbody : init.body with
  | none => rfl
  | some b =>
      cases b with
      | content bytes type => rfl
      | form entries =>
          rw [hbody] at h
          rw [show boundary = boundary' from h]
      | stream chunks => rfl

/-! ### Its headers -/

/-- One spelling of `X-PAYMENT`, and for every other name what was carried. -/
def Carries (r : Record) (type : Option String) (headers : List (String × String)) : Prop :=
  (∀ field ∈ r.fields, lower field.1 = "x-payment" → field.1 = "X-PAYMENT") ∧
    ∀ name, name ≠ "x-payment" →
      values (withType type r.fields) name = values (withType type headers) name

theorem headers_framed_iff {r : Record} {type : Option String} {headers : List (String × String)}
    {value : String} (hvalue : strip value = value) :
    (∀ name, values (withType type (r.assign "X-PAYMENT" value).fields) name =
        if name = "x-payment" then [value] else values (withType type headers) name) ↔
      Carries r type headers := by
  have hlower : lower "X-PAYMENT" = "x-payment" := by decide
  have hself : values (withType type (r.assign "X-PAYMENT" value).fields) "x-payment" = [value] ↔
      ∀ field ∈ r.fields, lower field.1 = "x-payment" → field.1 = "X-PAYMENT" := by
    have hsame : values (Headers.assign r.fields "X-PAYMENT" value) (lower "X-PAYMENT") =
        [strip value] ↔ ∀ field ∈ r.fields, lower field.1 = lower "X-PAYMENT" →
          field.1 = "X-PAYMENT" := values_assign_self_iff r.distinct
    rw [hlower, hvalue] at hsame
    rw [values_withType, if_neg fun h => absurd h.1 (by decide)]
    exact hsame
  have hother : ∀ name, name ≠ "x-payment" →
      values (withType type (r.assign "X-PAYMENT" value).fields) name =
        values (withType type r.fields) name := by
    intro name hname
    exact values_withType_congr type (values_assign_of_ne (hlower ▸ hname.symm))
  constructor
  · intro h
    refine ⟨hself.mp (by simpa using h "x-payment"), fun name hname => ?_⟩
    rw [← hother name hname, h name, if_neg hname]
  · rintro ⟨hspelt, hrest⟩ name
    by_cases hname : name = "x-payment"
    · rw [hname, if_pos rfl]
      exact hself.mpr hspelt
    · rw [if_neg hname, hother name hname, hrest name hname]

/-- What an object without fields carries. -/
theorem onlyTyped_iff {type : Option String} {headers : List (String × String)} :
    Carries ⟨[], List.nodup_nil⟩ type headers ↔ OnlyTyped type headers := by
  have hbare : ∀ name, values (withType type []) name =
      if name = "content-type" then type.toList.map strip else [] := by
    intro name
    rw [values_withType]
    simp
  constructor
  · rintro ⟨-, hsame⟩
    refine ⟨fun header hmem => ?_, ?_⟩
    · -- another header is dropped with the object that it is on
      by_contra! hname
      have h := hsame _ hname.1
      rw [hbare, if_neg hname.2, values_withType, if_neg fun h => hname.2 h.1] at h
      exact values_eq_nil_iff.mp h.symm header hmem rfl
    · have h := hsame "content-type" (by decide)
      rw [hbare, if_pos rfl, values_withType] at h
      by_cases hnil : values headers "content-type" = []
      · exact .inl hnil
      · rw [if_neg fun h => hnil h.2] at h
        exact .inr h.symm
  · rintro ⟨hnames, htyped⟩
    refine ⟨fun field h => absurd h List.not_mem_nil, fun name hname => ?_⟩
    rw [hbare, values_withType]
    by_cases htype : name = "content-type"
    · subst htype
      rw [if_pos rfl]
      rcases htyped with h | h
      · rw [if_pos ⟨rfl, h⟩]
      · split
        · rfl
        · exact h.symm
    · rw [if_neg htype, if_neg fun h => htype h.1, eq_comm, values_eq_nil_iff]
      rintro header hmem rfl
      exact (hnames header hmem).elim hname htype

/-- **An array of pairs** loses one of them. -/
theorem carries_indexFields_iff {type : Option String} {entries : List (String × String)} :
    Carries ⟨indexFields entries, indexFields_keys_nodup entries⟩ type entries ↔ entries = [] := by
  constructor
  · rintro ⟨-, hsame⟩
    by_contra hne
    obtain ⟨i, text, hmem, hlost⟩ := exists_lost hne
    have hname : toString i ≠ "x-payment" :=
      toString_ne_of_mem (c := '-') (by decide) (by decide)
    have htype : toString i ≠ "content-type" :=
      toString_ne_of_mem (c := '-') (by decide) (by decide)
    have h := hsame _ hname
    rw [values_withType, if_neg fun h => htype h.1, values_withType, if_neg fun h => htype h.1] at h
    -- its text would be a value of the array, under the name of its index
    have htext : strip text ∈ values entries (toString i) :=
      h ▸ mem_values.mpr ⟨_, hmem, lower_toString i, rfl⟩
    obtain ⟨entry, hentry, -, heq⟩ := mem_values.mp htext
    exact hlost entry hentry heq
  · rintro rfl
    exact ⟨fun field h => absurd h List.not_mem_nil, fun name _ => rfl⟩

theorem carries_iff :
    Carries init.spread (typeOf init boundary) (carried input init) ↔
      HeadersKept input init boundary := by
  unfold HeadersKept carried Init.spread
  cases init.headers with
  | none => exact onlyTyped_iff
  | some headers =>
      cases headers with
      | record r => exact ⟨And.left, fun h => ⟨h, fun name _ => rfl⟩⟩
      | pairs entries => exact carries_indexFields_iff
      | headers list => exact onlyTyped_iff

/-- What is kept can be sent. -/
theorem valid_spread (hkept : HeadersKept input init boundary)
    (hvalid : ∀ header ∈ carried input init, Valid header) :
    ∀ field ∈ init.spread.fields, Valid field := by
  unfold HeadersKept at hkept
  unfold carried at hvalid
  unfold Init.spread
  cases hheaders : init.headers with
  | none => exact fun field h => absurd h List.not_mem_nil
  | some headers =>
      rw [hheaders] at hkept hvalid
      cases headers with
      | record r => exact hvalid
      | pairs entries =>
          obtain rfl : entries = [] := hkept
          exact fun field h => absurd h List.not_mem_nil
      | headers list => exact fun field h => absurd h List.not_mem_nil

/-! ### The retry -/

/-- **The retry is the first request plus one header** if and only if its headers come through and
its body can be sent again: of every input and init that `fetch` accepts. -/
theorem retry_framed_iff (parseUrl : String → Option String) (input : Input) (init : Init)
    (envelope : Json) (boundary boundary' : String) (sent : Request)
    (h : construct parseUrl input init false boundary = some sent) :
    (∃ sent', construct parseUrl input (retryInit init envelope) true boundary' = some sent' ∧
        Framed sent sent' envelope) ↔
      HeadersKept input init boundary ∧ BodyRepeats input init boundary boundary' := by
  obtain ⟨hurl, hmethod, hvalid, hbody, hget, hheaders⟩ := construct_eq_some.mp h
  constructor
  · rintro ⟨sent', h', hframed⟩
    obtain ⟨-, -, -, hbody', -, hheaders'⟩ := construct_eq_some.mp h'
    have hrepeats : BodyRepeats input init boundary boundary' :=
      (bodyOf_repeats_iff hbody).mp (hframed.body ▸ hbody')
    refine ⟨carries_iff.mp ((headers_framed_iff (strip_base64Encode envelope.stringify)).mp ?_),
      hrepeats⟩
    intro name
    have hname := hframed.headers name
    rw [hheaders, hheaders', show typeOf (retryInit init envelope) boundary' = _ from
      typeOf_eq hrepeats] at hname
    exact hname
  · rintro ⟨hkept, hrepeats⟩
    -- the method and the body are those of the first request, so that `fetch` takes them again
    let sent' : Request := { sent with
      headers := withType (typeOf init boundary)
        (init.spread.assign "X-PAYMENT" (base64Encode envelope.stringify)).fields }
    have hheaders' : ∀ name, values sent'.headers name =
        if name = "x-payment" then [base64Encode envelope.stringify]
        else values sent.headers name := by
      rw [hheaders]
      exact (headers_framed_iff (strip_base64Encode envelope.stringify)).mpr (carries_iff.mpr hkept)
    refine ⟨sent', construct_eq_some.mpr ⟨hurl, hmethod, fun header hmem => ?_,
      (bodyOf_repeats_iff hbody).mpr hrepeats, hget, ?_⟩, ⟨rfl, rfl, rfl, hheaders'⟩⟩
    · rcases mem_of_mem_assign hmem with hmem | rfl
      · exact valid_spread hkept hvalid header hmem
      · exact valid_envelope envelope
    · exact congrArg (fun type => withType type _) (typeOf_eq hrepeats).symm

/-- Headers of an object, and a body that is a text. -/
theorem retry_framed_iff_object :
    ∃ sent', construct some (.text "https://merchant.example/")
        (retryInit
          { method := some "POST"
            headers := some (.record ⟨[("Authorization", "Bearer t")], List.nodup_singleton _⟩)
            body := some (.content [104, 105] (some "text/plain;charset=UTF-8")) } .null)
        true "" = some sent' ∧
      Framed
        { url := "https://merchant.example/"
          method := "POST"
          headers := [("Authorization", "Bearer t"), ("Content-Type", "text/plain;charset=UTF-8")]
          body := some (.bytes [104, 105]) } sent' .null := by
  refine (retry_framed_iff some (.text "https://merchant.example/") _ .null "" "" _ ?_).mpr ⟨?_, ?_⟩
  · decide +kernel
  · exact (by decide : ∀ field ∈ [("Authorization", "Bearer t")],
      lower field.1 = "x-payment" → field.1 = "X-PAYMENT")
  · exact trivial

/-- **An authorisation is lost** that is given in an array of pairs. -/
theorem authorization_lost :
    ¬ ∀ (parseUrl : String → Option String) (input : Input) (init : Init) (envelope : Json)
      (boundary boundary' : String) (sent : Request),
      construct parseUrl input init false boundary = some sent →
      ∃ sent', construct parseUrl input (retryInit init envelope) true boundary' = some sent' ∧
        Framed sent sent' envelope := by
  intro h
  obtain ⟨sent', h', hframed⟩ := h some (.text "https://merchant.example/")
    { method := none, headers := some (.pairs [("Authorization", "Bearer t")]), body := none }
    .null "" "" { url := "https://merchant.example/", method := "GET"
                  headers := [("Authorization", "Bearer t")], body := none } (by decide +kernel)
  obtain ⟨-, -, -, -, -, hheaders⟩ := construct_eq_some.mp h'
  have hlost := hframed.headers "authorization"
  rw [hheaders] at hlost
  exact absurd hlost (by decide +kernel)

end Qietr.Sdk.Fetch
