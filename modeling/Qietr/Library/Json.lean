import Qietr.Library.BigIntText

/-!
# Library — JSON values

The values of `JSON.parse`, and how JavaScript reads one of which nothing is known.

* `Json.get`, `Json.truthy`: a property, and what counts as true; `none` is `undefined`.
* `Json.text`, `Json.toBigInt`: within a template, and `BigInt` of it.
* `Json.stringify`: `JSON.stringify`.
-/

/-- A number, as far as it is read: the integer that it is, if it is one, and its text. -/
structure JsonNumber where
  integer : Option ℤ
  text : String

/-- In a JSON text; an infinite one has no numeral. -/
def JsonNumber.numeral (n : JsonNumber) : String :=
  if n.text = "Infinity" ∨ n.text = "-Infinity" then "null" else n.text

inductive Json where
  | null
  | bool (b : Bool)
  | num (n : JsonNumber)
  | str (s : String)
  | arr (xs : List Json)
  | obj (fields : List (String × Json))

namespace Json

/-- A property: only objects have any of their own, and to read one of `null` throws, which is left
to the reader. -/
def get (key : String) : Json → Option Json
  | obj fields => (fields.find? fun field => field.1 = key).map Prod.snd
  | _ => none

def truthy : Json → Bool
  | null => false
  | bool b => b
  | num n => n.integer ≠ some 0
  | str s => s ≠ ""
  | arr _ | obj _ => true

def isNull : Json → Bool
  | null => true
  | _ => false

def string? : Json → Option String
  | str s => some s
  | _ => none

@[simp] theorem string?_eq_some {j : Json} {s : String} : j.string? = some s ↔ j = str s := by
  cases j <;> simp [string?]

theorem bind_string?_eq_some {x : Option Json} {s : String} :
    x.bind string? = some s ↔ x = some (str s) := by
  rw [Option.bind_eq_some_iff]
  simp only [string?_eq_some, exists_eq_right]

/-- An object whose properties are those that are defined. -/
def ofFields (fields : List (String × Option Json)) : Json :=
  obj (fields.filterMap fun field => field.2.map fun v => (field.1, v))

/-- Of distinct properties each is the one given. -/
theorem get_ofFields {fields : List (String × Option Json)} (h : (fields.map Prod.fst).Nodup)
    (key : String) :
    (ofFields fields).get key = (fields.find? fun field => field.1 = key).bind Prod.snd := by
  rw [ofFields, get]
  induction fields with
  | nil => rfl
  | cons field fields ih =>
      rw [List.map_cons, List.nodup_cons] at h
      replace ih := ih h.2
      rcases field with ⟨name, v⟩
      by_cases hname : name = key
      · subst hname
        have hnone : fields.find? (fun field => field.1 = name) = none :=
          List.find?_eq_none.mpr fun field hfield hkey =>
            h.1 (List.mem_map.mpr ⟨field, hfield, of_decide_eq_true hkey⟩)
        rw [hnone] at ih
        cases v with
        | none => simpa using ih
        | some v => simp
      · cases v with
        | none => simpa [hname] using ih
        | some v => simpa [hname] using ih

/-! ### As a text -/

mutual

/-- Within a template: an object's own `toString` is never a function. -/
def text : Json → Except String String
  | null => .ok "null"
  | bool b => .ok (toString b)
  | num n => .ok n.text
  | str s => .ok s
  | arr xs => (texts xs).map fun ts => ",".intercalate ts
  | obj fields =>
      if fields.any fun field => field.1 = "toString" then
        .error "Cannot convert object to primitive value"
      else .ok "[object Object]"

/-- The elements of an array that is joined. -/
def texts : List Json → Except String (List String)
  | [] => .ok []
  | x :: xs => do
      let t ← if x.isNull then .ok "" else text x
      let ts ← texts xs
      .ok (t :: ts)

end

/-- `BigInt` of it, or nothing where that throws. -/
def toBigInt : Json → Option ℤ
  | null => none
  | bool b => some (if b then 1 else 0)
  | num n => n.integer
  | str s => BigIntText.bigIntOfString s
  | arr xs => (text (arr xs)).toOption.bind BigIntText.bigIntOfString
  | obj fields => (text (obj fields)).toOption.bind BigIntText.bigIntOfString

/-! ### `JSON.stringify` -/

def hexDigit (n : ℕ) : Char :=
  "0123456789abcdef".toList.getD n '0'

/-- A character of a string literal. -/
def escaped (c : Char) : List Char :=
  match c with
  | '"' => ['\\', '"']
  | '\\' => ['\\', '\\']
  | '\x08' => ['\\', 'b']
  | '\x0c' => ['\\', 'f']
  | '\n' => ['\\', 'n']
  | '\r' => ['\\', 'r']
  | '\t' => ['\\', 't']
  | c =>
      if c.toNat < 0x20 then
        ['\\', 'u', '0', '0', hexDigit (c.toNat / 16), hexDigit (c.toNat % 16)]
      else [c]

def quoted (s : String) : String :=
  String.ofList ('"' :: s.toList.flatMap escaped ++ ['"'])

mutual

def stringify : Json → String
  | null => "null"
  | bool b => toString b
  | num n => n.numeral
  | str s => quoted s
  | arr xs => "[" ++ ",".intercalate (stringifyAll xs) ++ "]"
  | obj fields => "\x7b" ++ ",".intercalate (stringifyFields fields) ++ "\x7d"

def stringifyAll : List Json → List String
  | [] => []
  | x :: xs => stringify x :: stringifyAll xs

def stringifyFields : List (String × Json) → List String
  | [] => []
  | (key, v) :: fields => (quoted key ++ ":" ++ stringify v) :: stringifyFields fields

end

example : stringify (ofFields [("a", some (arr [null, bool true])), ("b", none),
  ("c", some (str "x\n"))]) =
    "\x7b\"a\":[null,true],\"c\":\"x\\n\"\x7d" := by decide +kernel

end Json
