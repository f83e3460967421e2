import Qietr.Library.BigEndian

/-!
# Library — readers of fixed size

Borsh writes numbers, arrays and structs of them one after the other, without lengths; numbers are
little-endian.  A reader takes what it reads off the front of the bytes.

* `Reader`, `readU8`, `readU64`, `readArray`, `readVector`: the readers; a struct is read field by
  field.
* `Sized n r get`: `r` takes `n` bytes, or fails where there are fewer, and reads `get`.
* `Sized.bind`: and so do two readers in a row.
* `tryFromSlice`: a value of all the bytes; `Sized.tryFromSlice`: there is one of `n` bytes only.
* `Inverts r enc`: `r` reads what `enc` has written, whatever follows; `Inverts.bind`, the next one
  goes on behind it.
* `drop_next`: the place of what is written next, for a reader that goes by offsets.
-/

namespace Borsh

abbrev Reader (α : Type) :=
  StateT (List UInt8) Option α

def readU8 : Reader UInt8
  | [] => none
  | b :: bs => some (b, bs)

/-- The `n` bytes in front. -/
def bytesAt (n : ℕ) (bs : List UInt8) : Bytes n :=
  Bytes.ofNat n (beNat (bs.take n))

def readArray (n : ℕ) : Reader (Bytes n) := fun bs =>
  if n ≤ bs.length then some (bytesAt n bs, bs.drop n) else none

/-- The last `k` bytes of `n`, least significant first. -/
def leBytes (k n : ℕ) : List UInt8 :=
  (beBytes k n).reverse

/-- The number that the `k` bytes in front spell, least significant first. -/
def natAt (k : ℕ) (bs : List UInt8) : ℕ :=
  beNat (bs.take k).reverse

def readNat (k : ℕ) : Reader ℕ := fun bs =>
  if k ≤ bs.length then some (natAt k bs, bs.drop k) else none

def readU64 : Reader UInt64 := do
  let n ← readNat 8
  pure (UInt64.ofNat n)

/-- An array of what `r` reads. -/
def readVector {α : Type} (r : Reader α) : (k : ℕ) → Reader (Vector α k)
  | 0 => pure #v[]
  | k + 1 => do
      let xs ← readVector r k
      let x ← r
      pure (xs.push x)

/-- A sequence of bytes, behind its length. -/
def readBytes : Reader (List UInt8) := do
  let n ← readNat 4
  fun bs => if n ≤ bs.length then some (bs.take n, bs.drop n) else none

/-! ### Sizes -/

/-- `r` reads `get` of the bytes and takes `n` of them, if there are so many. -/
def Sized {α : Type} (n : ℕ) (r : Reader α) (get : List UInt8 → α) : Prop :=
  ∀ bs, r bs = if n ≤ bs.length then some (get bs, bs.drop n) else none

namespace Sized

variable {α β : Type} {m n : ℕ} {r : Reader α} {f : α → Reader β} {get : List UInt8 → α}
  {get' : α → List UInt8 → β}

theorem pure (a : α) : Sized 0 (pure a : Reader α) fun _ => a := by
  intro bs
  rw [if_pos (Nat.zero_le _)]
  rfl

theorem readU8 : Sized 1 readU8 fun bs => bs.getD 0 0 := by
  intro bs
  cases bs with
  | nil => rfl
  | cons b bs =>
      rw [if_pos (by simp)]
      rfl

theorem readArray (n : ℕ) : Sized n (readArray n) (bytesAt n) := fun _ => rfl

/-- **Two in a row.** -/
theorem bind (hr : Sized m r get) (hf : ∀ a, Sized n (f a) (get' a)) :
    Sized (m + n) (r >>= f) fun bs => get' (get bs) (bs.drop m) := by
  intro bs
  have hrun : (r >>= f) bs = (r bs).bind fun p => f p.1 p.2 := rfl
  rw [hrun, hr bs]
  by_cases hm : m ≤ bs.length
  · rw [if_pos hm, Option.bind_some, hf, List.length_drop, List.drop_drop]
    by_cases hn : n ≤ bs.length - m
    · rw [if_pos hn, if_pos (by omega)]
    · rw [if_neg hn, if_neg (by omega)]
  · rw [if_neg hm, if_neg (by omega), Option.bind_none]

/-- **As many as wanted.** -/
theorem readVector (hr : Sized n r get) (k : ℕ) :
    Sized (k * n) (readVector r k) fun bs => Vector.ofFn fun i : Fin k =>
      get (bs.drop (i * n)) := by
  induction k with
  | zero =>
      intro bs
      rw [if_pos (by simp), Nat.zero_mul, List.drop_zero]
      rfl
  | succ k ih =>
      intro bs
      have hsum : (k + 1) * n = k * n + (n + 0) := by ring
      rw [Borsh.readVector, hsum, bind ih (fun xs => bind hr fun x => pure (xs.push x)) bs]
      have hpush : (Vector.ofFn fun i : Fin k => get (bs.drop (i * n))).push
        (get (bs.drop (k * n))) =
          Vector.ofFn fun i : Fin (k + 1) => get (bs.drop (i * n)) :=
        (Vector.ofFn_succ (f := fun i : Fin (k + 1) => get (bs.drop (i * n)))).symm
      beta_reduce
      rw [hpush]

theorem readNat (k : ℕ) : Sized k (readNat k) (natAt k) := fun _ => rfl

theorem readU64 : Sized 8 readU64 fun bs => UInt64.ofNat (natAt 8 bs) :=
  (readNat 8).bind fun n => pure (UInt64.ofNat n)

end Sized

/-! ### All of the bytes -/

/-- A value of all the bytes: what is left over is an error. -/
def tryFromSlice {α : Type} (r : Reader α) (bs : List UInt8) : Option α :=
  match r bs with
  | some (a, []) => some a
  | _ => none

/-- **There is one of `n` bytes only.** -/
theorem Sized.tryFromSlice {α : Type} {n : ℕ} {r : Reader α} {get : List UInt8 → α}
    (h : Sized n r get) (bs : List UInt8) :
    tryFromSlice r bs = if bs.length = n then some (get bs) else none := by
  rw [Borsh.tryFromSlice, h bs]
  rcases Nat.lt_trichotomy bs.length n with hlt | heq | hgt
  · rw [if_neg (by omega), if_neg (by omega)]
  · rw [if_pos heq.ge, if_pos heq, List.drop_eq_nil_of_le heq.le]
  · rw [if_pos hgt.le, if_neg hgt.ne']
    cases hrest : bs.drop n with
    | nil =>
        have hlen := congrArg List.length hrest
        rw [List.length_drop, List.length_nil] at hlen
        omega
    | cons b rest => rfl

/-! ### What is written -/

@[simp] theorem leBytes_length (k n : ℕ) : (leBytes k n).length = k := by
  rw [leBytes, List.length_reverse, beBytes_length]

theorem natAt_leBytes (k n : ℕ) (rest : List UInt8) :
    natAt k (leBytes k n ++ rest) = n % 256 ^ k := by
  rw [natAt, List.take_left' (leBytes_length k n), leBytes, List.reverse_reverse, beNat_beBytes]

theorem bytesAt_toList {n : ℕ} (v : Bytes n) (rest : List UInt8) :
    bytesAt n (v.toList ++ rest) = v := by
  rw [bytesAt, List.take_left' (Vector.length_toList)]
  exact Bytes.ofNat_toNat v

def writeU8 (b : UInt8) : List UInt8 :=
  [b]

def writeU16 (n : UInt16) : List UInt8 :=
  leBytes 2 n.toNat

def writeU64 (n : UInt64) : List UInt8 :=
  leBytes 8 n.toNat

/-- In two's complement. -/
def writeI64 (n : Int64) : List UInt8 :=
  writeU64 n.toUInt64

def writeBytes (bs : List UInt8) : List UInt8 :=
  leBytes 4 bs.length ++ bs

def writeVector {α : Type} {k : ℕ} (enc : α → List UInt8) (v : Vector α k) : List UInt8 :=
  v.toList.flatMap enc

@[simp] theorem writeU8_length (b : UInt8) : (writeU8 b).length = 1 := rfl

@[simp] theorem writeU16_length (n : UInt16) : (writeU16 n).length = 2 := leBytes_length 2 n.toNat

@[simp] theorem writeU64_length (n : UInt64) : (writeU64 n).length = 8 := leBytes_length 8 n.toNat

@[simp] theorem writeI64_length (n : Int64) : (writeI64 n).length = 8 := writeU64_length n.toUInt64

theorem natAt_writeU16 (n : UInt16) (rest : List UInt8) :
    natAt 2 (writeU16 n ++ rest) = n.toNat := by
  rw [writeU16, natAt_leBytes]
  exact Nat.mod_eq_of_lt n.toNat_lt

theorem natAt_writeU64 (n : UInt64) (rest : List UInt8) :
    natAt 8 (writeU64 n ++ rest) = n.toNat := by
  rw [writeU64, natAt_leBytes]
  exact Nat.mod_eq_of_lt n.toNat_lt

/-- The signed number in front. -/
def int64At (bs : List UInt8) : Int64 :=
  (UInt64.ofNat (natAt 8 bs)).toInt64

theorem int64At_writeI64 (n : Int64) (rest : List UInt8) : int64At (writeI64 n ++ rest) = n := by
  rw [int64At, writeI64, natAt_writeU64, UInt64.ofNat_toNat, Int64.toInt64_toUInt64]

/-- The place of what is written next. -/
theorem drop_next {data part rest : List UInt8} {o n : ℕ} (h : data.drop o = part ++ rest)
    (hn : part.length = n) : data.drop (o + n) = rest := by
  rw [← List.drop_drop, h, List.drop_left' hn]

/-- `r` reads what `enc` has written. -/
def Inverts {α : Type} (r : Reader α) (enc : α → List UInt8) : Prop :=
  ∀ a rest, r (enc a ++ rest) = some (a, rest)

namespace Inverts

variable {α β : Type} {r : Reader α} {enc : α → List UInt8}

/-- **The next reader goes on behind it.** -/
theorem bind (hr : Inverts r enc) (f : α → Reader β) (a : α) (rest : List UInt8) :
    (r >>= f) (enc a ++ rest) = f a rest := by
  have hrun : (r >>= f) (enc a ++ rest) = (r (enc a ++ rest)).bind fun p => f p.1 p.2 := rfl
  rw [hrun, hr a rest, Option.bind_some]

theorem readU8 : Inverts readU8 writeU8 := fun _ _ => rfl

theorem readArray (n : ℕ) : Inverts (readArray n) Vector.toList := by
  intro v rest
  rw [Borsh.readArray, if_pos (by simp), bytesAt_toList, List.drop_left' (Vector.length_toList)]

theorem readU64 : Inverts readU64 writeU64 := by
  intro n rest
  rw [Sized.readU64, if_pos (by simp), List.drop_left' (writeU64_length n)]
  beta_reduce
  rw [natAt_writeU64, UInt64.ofNat_toNat]

theorem readVector (hr : Inverts r enc) (k : ℕ) :
    Inverts (readVector r k) (writeVector enc) := by
  induction k with
  | zero =>
      intro v rest
      obtain rfl : v = #v[] := Vector.eq_empty
      rfl
  | succ k ih =>
      intro v rest
      have hv : v.toList = v.pop.toList ++ [v.back] := by
        rw [← Vector.toList_push, Vector.push_pop_back]
      have hwrite : writeVector enc v = writeVector enc v.pop ++ enc v.back := by
        rw [writeVector, hv, List.flatMap_append, List.flatMap_singleton]
        rfl
      rw [hwrite, List.append_assoc, Borsh.readVector, ih.bind, hr.bind]
      show some (v.pop.push v.back, rest) = _
      rw [Vector.push_pop_back]

/-- As many bytes are written as are read. -/
theorem length_eq {n : ℕ} {get : List UInt8 → α} (hr : Inverts r enc) (hs : Sized n r get) (a : α) :
    (enc a).length = n := by
  have h := hr a []
  rw [List.append_nil, hs] at h
  by_cases hle : n ≤ (enc a).length
  · rw [if_pos hle] at h
    have hrest := congrArg List.length (congrArg Prod.snd (Option.some.inj h))
    rw [List.length_drop, List.length_nil] at hrest
    omega
  · rw [if_neg hle] at h
    cases h

/-- What is read is what was written. -/
theorem get_eq {n : ℕ} {get : List UInt8 → α} (hr : Inverts r enc) (hs : Sized n r get) (a : α)
    (rest : List UInt8) : get (enc a ++ rest) = a := by
  have h := hr a rest
  have hle : n ≤ (enc a ++ rest).length := by
    rw [List.length_append, hr.length_eq hs]
    exact Nat.le_add_right n rest.length
  rw [hs, if_pos hle] at h
  exact congrArg Prod.fst (Option.some.inj h)

end Inverts

/-- **A sequence** is read back if its length can be written. -/
theorem readBytes_writeBytes {bs : List UInt8} (h : bs.length < 256 ^ 4) (rest : List UInt8) :
    readBytes (writeBytes bs ++ rest) = some (bs, rest) := by
  have hlength : readNat 4 (writeBytes bs ++ rest) = some (bs.length, bs ++ rest) := by
    rw [readNat, if_pos (by simp [writeBytes]), writeBytes, List.append_assoc, natAt_leBytes,
      Nat.mod_eq_of_lt h, List.drop_left' (leBytes_length 4 bs.length)]
  have hrun : readBytes (writeBytes bs ++ rest) = (readNat 4 (writeBytes bs ++ rest)).bind fun p =>
      if p.1 ≤ p.2.length then some (p.2.take p.1, p.2.drop p.1) else none := rfl
  rw [hrun, hlength, Option.bind_some, if_pos (by simp), List.take_left, List.drop_left]

end Borsh
