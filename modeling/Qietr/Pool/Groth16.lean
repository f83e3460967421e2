import Qietr.Circuit.Payment
import Qietr.Pool.Program

/-!
# Pool — the verifier

The verifier checks a pairing equation, which the development does not open.  What it is relied on
for is stated of it, and nothing else.

* `publicOf`: the public signals as the circuit's.
* `Groth16Sound env E`: it accepts canonical signals only, and `E` finds their witness.
* `Groth16Complete env`: what the circuit's statement holds of has a proof it accepts.
-/

namespace Qietr.Pool

open Circuit

/-- The public signals as the circuit's. -/
def publicOf (signals : Vector Bytes32 PUBLIC_SIGNAL_COUNT) : PublicSignals where
  amount := decode (getElem signals 0 Signal.amount_lt)
  root := decode (getElem signals 1 Signal.root_lt)
  nullifierHash := decode (getElem signals 2 Signal.nullifierHash_lt)
  recipient := decode (getElem signals 3 Signal.recipient_lt)
  paymentAmount := decode (getElem signals 4 Signal.payment_lt)
  changeCommitment := decode (getElem signals 5 Signal.change_lt)

/-- A choice of a witness for each proof and its public signals. -/
abbrev Extractor := Bytes PROOF_BYTES → Vector Bytes32 PUBLIC_SIGNAL_COUNT → Witness MERKLE_DEPTH

/-- The verifier accepts only canonical public signals for which there is a witness, and `E`
finds it. -/
structure Groth16Sound (env : PoolEnv) (E : Extractor) : Prop where
  canonical : ∀ proof signals, env.groth16 proof signals = true →
    ∀ i : Fin PUBLIC_SIGNAL_COUNT, Canonical signals[i]
  witness : ∀ proof signals, env.groth16 proof signals = true →
    QietrPayment env.poseidon (publicOf signals) (E proof signals)

/-- Canonical public signals with a witness have a proof the verifier accepts. -/
def Groth16Complete (env : PoolEnv) : Prop :=
  ∀ signals, (∀ i : Fin PUBLIC_SIGNAL_COUNT, Canonical signals[i]) →
    (∃ w : Witness MERKLE_DEPTH, QietrPayment env.poseidon (publicOf signals) w) →
    ∃ proof, env.groth16 proof signals = true

end Qietr.Pool
