import Qietr.Sdk.Authorised

/-!
# SDK — what one call spends

The ceiling of a wrapped `fetch` is checked of each requirement, and which one it is the merchant
says.

* `Spending`: the payments of a call against its attempts.
* `total_le`: they are no more than the ceiling for each retry.
* `spending_within_iff`: for which options one call keeps within the ceiling, and pays nobody twice.
* `paid_twice`: two payments for what differs in its resource.
-/

namespace Qietr.Sdk

variable {p : Platform} {w : Wrapped} {input : RequestInfo} {init : RequestInit}
  {first : Except String Response} {log : List Lap} {c c' : WrappedCall}

/-! ### The payments of a call -/

/-- The payments of a call, in order. -/
def paymentsOf (log : List Lap) : List PayRequest :=
  log.flatMap Lap.payments

theorem paymentsOf_append (log log' : List Lap) :
    paymentsOf (log ++ log') = paymentsOf log ++ paymentsOf log' :=
  List.flatMap_append

theorem paymentsOf_singleton (lap : Lap) : paymentsOf [lap] = lap.payments :=
  List.flatMap_singleton ..

/-- What the call has paid so far. -/
structure Spending (p : Platform) (w : Wrapped) (log : List Lap) (c : WrappedCall) : Prop where
  attempts : ∃ n : ℕ, (paymentsOf log).length ≤ n ∧ (n : ℕ∞) ≤ w.retries ∧
    ∀ k keys r, c = .looping k keys r → k = n
  ceiling : ∀ req ∈ paymentsOf log, req.micro ≤ w.maxAmountMicro
  payable : ∀ k keys r, c = .looping k keys r →
    ∀ req ∈ paymentsOf log, ∃ payTo, Payee p w payTo req.recipient

/-- A payment after which the call goes on is to somebody who can be paid. -/
theorem PaidTurn.payable {attempts : ℕ} {settled : List String} {lap : Lap} {q : Quote}
    {req : PayRequest} (h : PaidTurn p w input init attempts settled lap c' q req) {k : ℕ}
    {keys : List String} {r : Response} (hloop : c' = .looping k keys r) :
    Payee p w (q.requirement.get "payTo") req.recipient where
  recipient := h.opened.recipient
  text := by
    obtain ⟨name, hname, -⟩ := Outcome.bind_eq_ok.mp h.quoted.dedupeKey
    exact ⟨name, hname⟩
  written v hv := by
    refine (h.next k keys r hloop).1 v ?_
    rw [merchantValues, List.reduceOption_mem_iff, ← Option.mem_def.mp hv]
    simp only [List.mem_cons, true_or, or_true]
  allows := h.quoted.allows

/-- **One step** keeps it. -/
theorem Spending.step (h : Spending p w log c) {lap : Lap}
    (hstep : CallStep p w input init c lap c') : Spending p w (log ++ [lap]) c' := by
  obtain ⟨n, hlength, hle, hn⟩ := h.attempts
  obtain ⟨attempts, settled, hc, ⟨hnone, hstop⟩ | ⟨q, req, hpaid⟩⟩ := hstep.cases
  · have hsame : paymentsOf (log ++ [lap]) = paymentsOf log := by
      rw [paymentsOf_append, paymentsOf_singleton, hnone, List.append_nil]
    refine ⟨⟨n, hsame ▸ hlength, hle, fun k keys r hloop => (hstop k keys r hloop).elim⟩, ?_, ?_⟩
    · exact hsame ▸ h.ceiling
    · exact fun k keys r hloop => (hstop k keys r hloop).elim
  · have hmore : paymentsOf (log ++ [lap]) = paymentsOf log ++ [req] := by
      rw [paymentsOf_append, paymentsOf_singleton, hpaid.payments]
    have hattempts : attempts = n := hn _ _ _ hc
    rw [← hattempts] at hlength
    refine ⟨⟨attempts + 1, ?_, ?_, fun k keys r hloop => (hpaid.next k keys r hloop).2.1⟩, ?_, ?_⟩
    · rw [hmore, List.length_append, List.length_singleton]
      exact Nat.succ_le_succ hlength
    · exact_mod_cast Order.add_one_le_of_lt hpaid.attempt
    · rw [hmore, List.forall_mem_append, List.forall_mem_singleton]
      exact ⟨h.ceiling, hpaid.opened.micro ▸ hpaid.quoted.ceiling⟩
    · intro k keys r hloop
      rw [hmore, List.forall_mem_append, List.forall_mem_singleton]
      exact ⟨h.payable _ _ _ hc, _, hpaid.payable hloop⟩

theorem spending_of_run (hrun : CallRun p w input init first log c) : Spending p w log c := by
  refine hrun.invariant (fun log c => Spending p w log c) (fun c hc => ?_)
    fun log c lap c' _ h hstep => h.step hstep
  refine ⟨⟨0, le_rfl, zero_le, fun k keys r hloop => ?_⟩, nofun, fun _ _ _ _ => nofun⟩
  subst hc
  rcases first with message | res
  · cases hloop
  · cases hloop
    rfl

/-- **In all** a call pays no more than the ceiling for each of its payments, of which there are no
more than retries. -/
theorem total_le (hrun : CallRun p w input init first log c) :
    ((paymentsOf log).length : ℕ∞) ≤ w.retries ∧
      ((paymentsOf log).map PayRequest.micro).sum ≤
        (paymentsOf log).length * w.maxAmountMicro := by
  have hspending := spending_of_run hrun
  obtain ⟨n, hlength, hle, -⟩ := hspending.attempts
  refine ⟨?_, ?_⟩
  · exact (Nat.cast_le.mpr hlength).trans hle
  · have hsum := List.sum_le_card_nsmul ((paymentsOf log).map PayRequest.micro) w.maxAmountMicro
      (List.forall_mem_map.mpr hspending.ceiling)
    rwa [List.length_map, nsmul_eq_mul] at hsum

/-! ### The ceiling of a call -/

/-- The payments are within the ceiling, and nobody is paid twice. -/
structure Within (w : Wrapped) (payments : List PayRequest) : Prop where
  total : (payments.map PayRequest.micro).sum ≤ w.maxAmountMicro
  once : (payments.map PayRequest.recipient).Nodup

theorem within_of_length_le_one (hrun : CallRun p w input init first log c)
    (h : (paymentsOf log).length ≤ 1) : Within w (paymentsOf log) := by
  refine ⟨?_, ?_⟩
  · have hlength : ((paymentsOf log).length : ℤ) ≤ 1 := by exact_mod_cast h
    calc ((paymentsOf log).map PayRequest.micro).sum
        ≤ (paymentsOf log).length * w.maxAmountMicro := (total_le hrun).2
      _ ≤ 1 * w.maxAmountMicro := mul_le_mul_of_nonneg_right hlength w.positive.le
      _ = w.maxAmountMicro := one_mul _
  · exact List.nodup_iff_count_le_one.mpr fun a =>
      List.count_le_length.trans (by rwa [List.length_map])

/-- **With nobody to be paid** the first payment ends the call. -/
theorem length_le_one_of_nobody (h : ∀ payTo recipient, ¬ Payee p w payTo recipient)
    (hrun : CallRun p w input init first log c) : (paymentsOf log).length ≤ 1 := by
  rcases List.eq_nil_or_concat' log with rfl | ⟨before, lap, rfl⟩
  · exact Nat.zero_le 1
  · obtain ⟨c', hbefore, hstep⟩ := hrun.last
    obtain ⟨attempts, settled, rfl, hcases⟩ := hstep.cases
    have hnone : paymentsOf before = [] := by
      refine List.eq_nil_iff_forall_not_mem.mpr fun req hreq => ?_
      obtain ⟨payTo, hpayable⟩ := (spending_of_run hbefore).payable _ _ _ rfl req hreq
      exact h payTo _ hpayable
    rw [paymentsOf_append, hnone, List.nil_append, paymentsOf_singleton]
    rcases hcases with ⟨hpayments, -⟩ | ⟨q, req, hpaid⟩
    · rw [hpayments]
      exact Nat.zero_le 1
    · rw [hpaid.payments, List.length_singleton]

/-- Another resource makes it another requirement. -/
theorem demandKey_inj {name r r' : String} : demandKey name r = demandKey name r' ↔ r = r' := by
  simp [demandKey, show ∀ s : String, toString s = s from fun _ => rfl]

/-- **With two attempts** somebody who can be paid is paid twice. -/
theorem exists_paid_twice {payTo : Option Json} {recipient : Pubkey}
    (h : Payee p w payTo recipient) (htwo : 2 ≤ w.retries) (input : RequestInfo)
    (init : RequestInit) : ∃ first log c, CallRun p w input init first log c ∧
      paymentsOf log = List.replicate 2 { recipient, micro := 1, feePayer := Pubkey.default } := by
  obtain ⟨name, hname⟩ := h.text
  have hlt : ∀ n : ℕ, n < 2 → (n : ℕ∞) < w.retries := fun n hn =>
    (Nat.cast_lt.mpr hn).trans_le htwo
  have hnew : demandKey name "/other" ∉ [] ++ [demandKey name "/data"] := by
    rw [List.nil_append, List.mem_singleton, demandKey_inj]
    decide
  have hstart : CallRun p w input init (.ok (paymentRequired (demand w payTo none "/data"))) []
      (.looping 0 [] (paymentRequired (demand w payTo none "/data"))) := .start rfl
  have hfirst := hstart.snoc (step_payingLap h hname (.inl rfl) (hlt 0 (by decide))
    List.not_mem_nil (paymentRequired (demand w payTo none "/other")))
  have hsecond := hfirst.snoc (step_payingLap h hname (.inl rfl) (hlt 1 (by decide)) hnew
    { status := 200, body := .noJson })
  exact ⟨_, _, _, hsecond, rfl⟩

/-- **A call keeps within the ceiling**, whatever the merchant answers, just when it has one retry
or none, or there is nobody to be paid. -/
theorem spending_within_iff (p : Platform) (w : Wrapped) :
    (∀ input init first log c, CallRun p w input init first log c → Within w (paymentsOf log)) ↔
      w.retries ≤ 1 ∨ ∀ payTo recipient, ¬ Payee p w payTo recipient := by
  refine ⟨?_, ?_⟩
  · intro hwithin
    by_contra hnot
    push Not at hnot
    obtain ⟨hretries, payTo, recipient, hpayable⟩ := hnot
    obtain ⟨first, log, c, hrun, hpayments⟩ := exists_paid_twice hpayable
      (Order.add_one_le_of_lt hretries) (.text "/data") ⟨[]⟩
    have honce := (hwithin _ _ _ _ _ hrun).once
    rw [hpayments, List.map_replicate] at honce
    exact absurd (List.nodup_replicate.mp honce) (by decide)
  · rintro (hretries | hnobody) input init first log c hrun
    · exact within_of_length_le_one hrun (by exact_mod_cast (total_le hrun).1.trans hretries)
    · exact within_of_length_le_one hrun (length_le_one_of_nobody hnobody hrun)

/-- With three retries and a ceiling of one, the same merchant is paid two. -/
theorem paid_twice : ∃ first log c req,
    CallRun asciiPlatform threeRetries (.text "/data") ⟨[]⟩ first log c ∧
      paymentsOf log = [req, req] ∧
      threeRetries.maxAmountMicro < ((paymentsOf log).map PayRequest.micro).sum := by
  obtain ⟨first, log, c, hrun, hpayments⟩ := exists_paid_twice payee_merchantText
    (show 2 ≤ threeRetries.retries by decide) (.text "/data") ⟨[]⟩
  refine ⟨first, log, c, _, hrun, hpayments, ?_⟩
  rw [hpayments]
  decide

end Qietr.Sdk
