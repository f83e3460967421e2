import Qietr.Field.Bn254

/-!
# Field — Poseidon

The hash of the circuit, the pool, the SDK and the indexer at the three arities they use.

* `Poseidon`: the three functions.  What is proved of the protocol holds for any of them.
* `HashInput`, `Collision`: two different inputs of one arity with one output.
* `circom`: circomlib's Poseidon, its constants drawn from the Grain generator.
-/

namespace Qietr

/-- Poseidon over the scalar field, at one, two and three inputs. -/
structure Poseidon where
  /-- `Poseidon(1)`: the nullifier hash. -/
  one : F → F
  /-- `Poseidon(2)`: an inner node of the tree. -/
  two : F → F → F
  /-- `Poseidon(3)`: a commitment. -/
  three : F → F → F → F

/-! ### Collisions -/

/-- What is hashed, at each arity. -/
inductive HashInput where
  | one (a : F)
  | two (a b : F)
  | three (a b c : F)
  deriving DecidableEq

namespace HashInput

/-- The number of inputs. -/
def arity : HashInput → ℕ
  | one _ => 1
  | two _ _ => 2
  | three _ _ _ => 3

/-- The hash of an input. -/
def eval (P : Poseidon) : HashInput → F
  | one a => P.one a
  | two a b => P.two a b
  | three a b c => P.three a b c

end HashInput

/-- Two different inputs of the same arity with equal output. -/
def Collision (P : Poseidon) (u v : HashInput) : Prop :=
  u ≠ v ∧ u.arity = v.arity ∧ u.eval P = v.eval P

/-! ### circomlib's Poseidon -/

/-- The Grain generator's 80 bits, the oldest first. -/
abbrev Grain := BitVec 80

namespace Grain

/-- One step: the feedback bit, shifted in. -/
def step (s : Grain) : Bool × Grain :=
  let b := s.getMsbD 62 ^^ s.getMsbD 51 ^^ s.getMsbD 38 ^^ s.getMsbD 23 ^^ s.getMsbD 13 ^^
    s.getMsbD 0
  (b, s.shiftConcat b)

/-- `n` steps whose bits are thrown away. -/
def skip : ℕ → Grain → Grain
  | 0, s => s
  | n + 1, s => skip n (step s).2

/-- The next bit of the output: the second of the next pair of bits that starts with a one. -/
def nextBit : ℕ → Grain → Bool × Grain
  | 0, s => (false, s)
  | fuel + 1, s =>
      let (keep, s) := step s
      let (b, s) := step s
      if keep then (b, s) else nextBit fuel s

/-- A number of `n` bits, most significant first, after the bits read so far. -/
def nextNumber : ℕ → ℕ → Grain → ℕ × Grain
  | 0, acc, s => (acc, s)
  | n + 1, acc, s =>
      let (b, s) := nextBit 256 s
      nextNumber n (2 * acc + b.toNat) s

/-- A number below `r`; others are thrown away. -/
def nextElement : ℕ → Grain → F × Grain
  | 0, s => (0, s)
  | fuel + 1, s =>
      let (n, s) := nextNumber 254 0 s
      if n < r then (n, s) else nextElement fuel s

/-- `n` round constants. -/
def constants : ℕ → Grain → List F × Grain
  | 0, s => ([], s)
  | n + 1, s =>
      let (x, s) := nextElement 256 s
      let (xs, s) := constants n s
      (x :: xs, s)

/-- `n` numbers for the mixing matrix, reduced modulo `r`. -/
def cauchy : ℕ → Grain → List F
  | 0, _ => []
  | n + 1, s =>
      let (x, s) := nextNumber 254 0 s
      (x : F) :: cauchy n s

/-- The generator for width `t`: a prime field of 254 bits, the power S-box, 8 full rounds and
`partialRounds` partial ones. -/
def init (t partialRounds : ℕ) : Grain :=
  skip 160 <|
    (1 : BitVec 2) ++ (0 : BitVec 4) ++ (254 : BitVec 12) ++ BitVec.ofNat 12 t ++ (8 : BitVec 10) ++
      BitVec.ofNat 10 partialRounds ++ BitVec.allOnes 30

end Grain

/-- The instance of one width. -/
structure PoseidonParams where
  /-- The constants added at each round. -/
  rounds : List (List F)
  /-- The mixing matrix, by rows. -/
  mds : List (List F)

/-- The published parameters for `t` values of state. -/
def PoseidonParams.generate (t partialRounds : ℕ) : PoseidonParams :=
  let (cs, s) := Grain.constants (t * (8 + partialRounds)) (Grain.init t partialRounds)
  let xs := Grain.cauchy (2 * t) s
  { rounds := cs.toChunks t
    mds := (xs.take t).map fun x => (xs.drop t).map fun y => (x + y)⁻¹ }

/-- One round: constants, `x ^ 5` on all the state in a full round and on its first value in a
partial one, and the mixing matrix. -/
def PoseidonParams.round (p : PoseidonParams) (full : Bool) (cs state : List F) : List F :=
  let added := List.zipWith (· + ·) state cs
  let sboxed := if full then added.map (· ^ 5) else added.modifyHead (· ^ 5)
  p.mds.map fun row => (List.zipWith (· * ·) row sboxed).sum

/-- The hash of `inputs`: the first value of the state after four full rounds, the partial ones
and four more full ones. -/
def PoseidonParams.hash (p : PoseidonParams) (inputs : List F) : F :=
  let full (i : ℕ) : Bool := i < 4 ∨ p.rounds.length ≤ i + 4
  let out := p.rounds.zipIdx.foldl (fun state c => p.round (full c.2) c.1 state) (0 :: inputs)
  out.headD 0

/-- circomlib's Poseidon. -/
def circom : Poseidon where
  one a := (PoseidonParams.generate 2 56).hash [a]
  two a b := (PoseidonParams.generate 3 57).hash [a, b]
  three a b c := (PoseidonParams.generate 4 56).hash [a, b, c]

end Qietr
