import Mathlib.Tactic

/-!
# Library — UTF-8

A text as bytes, in the way of `TextEncoder`, and back, in the way of a `TextDecoder` that refuses
nothing: each sequence that is none of UTF-8 is read as U+FFFD, and a byte order mark in front is
skipped.

* `encodeChar`, `encode`: the bytes of a text.
* `Pending`, `step`: a character that has begun, and what the next byte does.
* `decodeFrom`, `decode`: the characters of any bytes.
* `decode_encode`: a text is read back, but for a byte order mark in front.
-/

namespace Utf8

/-! ### To bytes -/

def encodeChar (c : Char) : List UInt8 :=
  let n := c.toNat
  if n < 0x80 then [.ofNat n]
  else if n < 0x800 then [.ofNat (0xC0 + n / 64), .ofNat (0x80 + n % 64)]
  else if n < 0x10000 then
    [.ofNat (0xE0 + n / 4096), .ofNat (0x80 + n / 64 % 64), .ofNat (0x80 + n % 64)]
  else
    [.ofNat (0xF0 + n / 262144), .ofNat (0x80 + n / 4096 % 64), .ofNat (0x80 + n / 64 % 64),
      .ofNat (0x80 + n % 64)]

def encode (s : String) : List UInt8 :=
  s.toList.flatMap encodeChar

/-- A text in ASCII, character by character. -/
theorem encode_of_ascii {cs : List Char} (h : ∀ c ∈ cs, c.toNat < 0x80) :
    encode (String.ofList cs) = cs.map fun c => .ofNat c.toNat := by
  rw [encode, String.toList_ofList]
  induction cs with
  | nil => rfl
  | cons c cs ih =>
      have hc : encodeChar c = [.ofNat c.toNat] := if_pos (h c List.mem_cons_self)
      rw [List.flatMap_cons, hc, ih fun d hd => h d (List.mem_cons_of_mem _ hd)]
      rfl

/-! ### And back -/

/-- A character that has begun: how many more bytes it needs, between which bounds the next has to
lie, and the bits so far. -/
structure Pending where
  needed : ℕ
  lower : ℕ
  upper : ℕ
  point : ℕ

def replacement : Char := '\uFFFD'

/-- A first byte. -/
def begin_ (b : UInt8) : List Char × Option Pending :=
  let n := b.toNat
  if n < 0x80 then ([Char.ofNat n], none)
  else if 0xC2 ≤ n ∧ n ≤ 0xDF then ([], some ⟨1, 0x80, 0xBF, n % 32⟩)
  else if 0xE0 ≤ n ∧ n ≤ 0xEF then
    ([], some ⟨2, if n = 0xE0 then 0xA0 else 0x80, if n = 0xED then 0x9F else 0xBF, n % 16⟩)
  else if 0xF0 ≤ n ∧ n ≤ 0xF4 then
    ([], some ⟨3, if n = 0xF0 then 0x90 else 0x80, if n = 0xF4 then 0x8F else 0xBF, n % 8⟩)
  else ([replacement], none)

/-- **A byte.**  One that the character cannot go on with is a first byte. -/
def step : Option Pending → UInt8 → List Char × Option Pending
  | none, b => begin_ b
  | some p, b =>
      if p.lower ≤ b.toNat ∧ b.toNat ≤ p.upper then
        let point := p.point * 64 + b.toNat % 64
        if p.needed = 1 then ([Char.ofNat point], none)
        else ([], some ⟨p.needed - 1, 0x80, 0xBF, point⟩)
      else (replacement :: (begin_ b).1, (begin_ b).2)

def decodeFrom (q : Option Pending) : List UInt8 → List Char
  | [] => if q.isSome then [replacement] else []
  | b :: bs => (step q b).1 ++ decodeFrom (step q b).2 bs

/-- The byte order mark. -/
def BOM : List UInt8 := [0xEF, 0xBB, 0xBF]

def decode (bs : List UInt8) : String :=
  String.ofList (decodeFrom none (if bs.take 3 = BOM then bs.drop 3 else bs))

/-! ### Round trip -/

variable {q : Option Pending} {b : UInt8} {bs : List UInt8} {n : ℕ}

theorem toNat_ofNat (h : n < 256) : (UInt8.ofNat n).toNat = n :=
  UInt8.toNat_ofNat_of_lt' h

/-- A byte that goes on. -/
theorem decodeFrom_more {k lower upper point : ℕ} (hlower : lower ≤ n) (hupper : n ≤ upper)
    (hn : n < 256) :
    decodeFrom (some ⟨k + 2, lower, upper, point⟩) (.ofNat n :: bs) =
      decodeFrom (some ⟨k + 1, 0x80, 0xBF, point * 64 + n % 64⟩) bs := by
  have hmore : k + 2 ≠ 1 := by omega
  simp only [decodeFrom, step, toNat_ofNat hn, if_pos (And.intro hlower hupper), if_neg hmore,
    List.nil_append]
  rfl

/-- And the last one. -/
theorem decodeFrom_last {lower upper point : ℕ} (hlower : lower ≤ n) (hupper : n ≤ upper)
    (hn : n < 256) :
    decodeFrom (some ⟨1, lower, upper, point⟩) (.ofNat n :: bs) =
      Char.ofNat (point * 64 + n % 64) :: decodeFrom none bs := by
  simp only [decodeFrom, step, toNat_ofNat hn, if_pos (And.intro hlower hupper), if_true,
    List.singleton_append]

/-- A byte that begins a character. -/
theorem decodeFrom_begin {p : Pending} (h : begin_ b = ([], some p)) :
    decodeFrom none (b :: bs) = decodeFrom (some p) bs := by
  simp only [decodeFrom, step, h, List.nil_append]

theorem begin_one (h : n < 0x80) : begin_ (.ofNat n) = ([Char.ofNat n], none) := by
  simp only [begin_, toNat_ofNat (show n < 256 by omega), if_pos h]

theorem begin_two (h : 2 ≤ n) (hn : n < 32) :
    begin_ (.ofNat (0xC0 + n)) = ([], some ⟨1, 0x80, 0xBF, n⟩) := by
  have hmod : (0xC0 + n) % 32 = n := by omega
  simp only [begin_, toNat_ofNat (show 0xC0 + n < 256 by omega), hmod]
  rw [if_neg (by omega), if_pos (by omega)]

theorem begin_three (hn : n < 16) :
    begin_ (.ofNat (0xE0 + n)) =
      ([], some ⟨2, if n = 0 then 0xA0 else 0x80, if n = 0xD then 0x9F else 0xBF, n⟩) := by
  have hmod : (0xE0 + n) % 16 = n := by omega
  have hlower : 0xE0 + n = 0xE0 ↔ n = 0 := by omega
  have hupper : 0xE0 + n = 0xED ↔ n = 0xD := by omega
  simp only [begin_, toNat_ofNat (show 0xE0 + n < 256 by omega), hmod, hlower, hupper]
  rw [if_neg (by omega), if_neg (by omega), if_pos (by omega)]

theorem begin_four (hn : n ≤ 4) :
    begin_ (.ofNat (0xF0 + n)) =
      ([], some ⟨3, if n = 0 then 0x90 else 0x80, if n = 4 then 0x8F else 0xBF, n⟩) := by
  have hmod : (0xF0 + n) % 8 = n := by omega
  have hlower : 0xF0 + n = 0xF0 ↔ n = 0 := by omega
  have hupper : 0xF0 + n = 0xF4 ↔ n = 4 := by omega
  simp only [begin_, toNat_ofNat (show 0xF0 + n < 256 by omega), hmod, hlower, hupper]
  rw [if_neg (by omega), if_neg (by omega), if_neg (by omega), if_pos (by omega)]

/-- **A character is read back**, whatever follows. -/
theorem decodeFrom_encodeChar (c : Char) (bs : List UInt8) :
    decodeFrom none (encodeChar c ++ bs) = c :: decodeFrom none bs := by
  have hvalid : c.toNat < 0xD800 ∨ 0xDFFF < c.toNat ∧ c.toNat < 0x110000 := c.valid
  have hread : ∀ m, m = c.toNat → Char.ofNat m = c := by
    rintro m rfl
    exact Char.ofNat_toNat c
  simp only [encodeChar]
  generalize c.toNat = n at hvalid hread
  split_ifs with hone htwo hthree
  · simp only [List.singleton_append, decodeFrom, step, begin_one hone, hread n rfl]
  · rw [List.cons_append, decodeFrom_begin (begin_two (by omega) (by omega)), List.singleton_append,
      decodeFrom_last (by omega) (by omega) (by omega), hread _ (by omega)]
  · -- the second byte is bounded after the first and the last of the sixteen
    have hlower : (if n / 4096 = 0 then 0xA0 else 0x80) ≤ 0x80 + n / 64 % 64 := by
      split_ifs <;> omega
    have hupper : 0x80 + n / 64 % 64 ≤ if n / 4096 = 0xD then 0x9F else 0xBF := by
      split_ifs <;> omega
    rw [List.cons_append, decodeFrom_begin (begin_three (by omega)), List.cons_append,
      decodeFrom_more hlower hupper (by omega), List.singleton_append,
      decodeFrom_last (by omega) (by omega) (by omega), hread _ (by omega)]
  · have hlower : (if n / 262144 = 0 then 0x90 else 0x80) ≤ 0x80 + n / 4096 % 64 := by
      split_ifs <;> omega
    have hupper : 0x80 + n / 4096 % 64 ≤ if n / 262144 = 4 then 0x8F else 0xBF := by
      split_ifs <;> omega
    rw [List.cons_append, decodeFrom_begin (begin_four (by omega)), List.cons_append,
      decodeFrom_more hlower hupper (by omega), List.cons_append,
      decodeFrom_more (by omega) (by omega) (by omega), List.singleton_append,
      decodeFrom_last (by omega) (by omega) (by omega), hread _ (by omega)]

theorem decodeFrom_encode (s : String) : decodeFrom none (encode s) = s.toList := by
  rw [encode]
  induction s.toList with
  | nil => rfl
  | cons c cs ih => rw [List.flatMap_cons, decodeFrom_encodeChar, ih]

/-- The text without a mark in front. -/
def unmark (s : String) : String :=
  String.ofList (if s.toList.head? = some '\uFEFF' then s.toList.tail else s.toList)

theorem take_BOM_iff (s : String) : (encode s).take 3 = BOM ↔ s.toList.head? = some '\uFEFF' := by
  have hmark : BOM = encodeChar '\uFEFF' := by decide
  constructor
  · intro h
    rw [← decodeFrom_encode s, ← List.take_append_drop 3 (encode s), h, hmark,
      decodeFrom_encodeChar, List.head?_cons]
  · intro h
    obtain ⟨cs, hs⟩ := List.head?_eq_some_iff.mp h
    rw [encode, hs, List.flatMap_cons, ← hmark, List.take_left' (by decide)]

/-- **A text is read back**, but for a byte order mark in front. -/
theorem decode_encode (s : String) : decode (encode s) = unmark s := by
  have hmark : BOM = encodeChar '\uFEFF' := by decide
  rw [decode, unmark]
  by_cases h : (encode s).take 3 = BOM
  · have hs := decodeFrom_encode s
    rw [← List.take_append_drop 3 (encode s), h, hmark, decodeFrom_encodeChar] at hs
    rw [if_pos h, if_pos ((take_BOM_iff s).mp h), ← hs, List.tail_cons]
  · rw [if_neg h, if_neg (mt (take_BOM_iff s).mpr h), decodeFrom_encode]

end Utf8
