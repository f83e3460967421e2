import Qietr.Library.Runs
import Qietr.Sdk.Deposit

/-!
# SDK — concurrent calls

Any number of deposits, payments and wrapped fetches on one SDK.  A call runs alone from one `await`
to the next, and others run in between.

* `Flight`: a call that is waiting, at the `await` after which it changes the note.
* `Step`, `ClientRun`: a call begins, or goes on; the log of what was drawn, created and spent.
* `Clean`: what is drawn is new, and a wrapped fetch that writes a note back finds that very note.
* `no_lost_update`: then the note has what was created and not spent, once, and nothing else.
* `lost_deposit`: a deposit that a wrapped fetch writes over.
-/

namespace Qietr.Sdk

open Outcome Pool

/-! ### Calls and what they wait for -/

/-- A call that is waiting. -/
inductive Flight where
  | deposit (d : PreparedDeposit)
  | depositGasless (d : PreparedDeposit)
  | pay (p : PreparedPayment) (paymentMicro : ℤ)
  /-- A wrapped fetch, for its payment. -/
  | wrapped (p : PreparedPayment) (paymentMicro : ℤ)
  /-- A wrapped fetch whose payment has returned this note, which it is about to write back. -/
  | setNote (updatedNote : Note)

/-- The two secrets of a commitment. -/
def secretsOf (c : NoteCommitment) : String × String :=
  (c.secret, c.nullifier)

/-- The two secrets drawn for the change of a payment. -/
def changeSecrets (p : PreparedPayment) : String × String :=
  (toString p.witness.newSecret, toString p.witness.newNullifier)

/-- What a step of a call does to the user's funds. -/
inductive Event where
  | drawn (secrets : String × String)
  | deposited (c : NoteCommitment)
  | paid (c : NoteCommitment) (change : Option NoteCommitment)
  /-- A note is written back, in place of the one that is found. -/
  | wroteBack (found : Option Note) (note : Note)

namespace Event

def drawnSecrets : Event → List (String × String)
  | drawn secrets => [secrets]
  | _ => []

def created : Event → List NoteCommitment
  | deposited c => [c]
  | paid _ change => change.toList
  | _ => []

def spent : Event → List NoteCommitment
  | paid c _ => [c]
  | _ => []

end Event

/-- An SDK and the calls on it. -/
structure Client where
  sdk : QietrSDK
  flights : Multiset Flight

/-- A call begins, or goes on after its `await`.  A wrapped fetch whose retry is answered with
another 402 pays as one that begins. -/
inductive Step (env : PoolEnv) (config : QietrSDKConfig) : Client → Event → Client → Prop
  | beginDeposit {sdk : QietrSDK} {flights : Multiset Flight} {amount : UsdcAmount}
      {draws : DepositDraws} {depositor : Pubkey} {d : PreparedDeposit}
      (h : prepareDeposit env config amount draws depositor = .ok d) :
      Step env config ⟨sdk, flights⟩ (.drawn (secretsOf d.commitment)) ⟨sdk, .deposit d ::ₘ flights⟩
  | endDeposit {sdk : QietrSDK} {flights : Multiset Flight} {d : PreparedDeposit}
      (signature : String) :
      Step env config ⟨sdk, .deposit d ::ₘ flights⟩ (.deposited d.commitment)
        ⟨(finishDeposit sdk d signature).2, flights⟩
  | beginDepositGasless {sdk : QietrSDK} {flights : Multiset Flight} {amount : UsdcAmount}
      {draws : DepositDraws} {depositor : Pubkey} {d : PreparedDeposit}
      (h : prepareDeposit env config amount draws depositor = .ok d) :
      Step env config ⟨sdk, flights⟩ (.drawn (secretsOf d.commitment))
        ⟨sdk, .depositGasless d ::ₘ flights⟩
  | endDepositGasless {sdk : QietrSDK} {flights : Multiset Flight} {d : PreparedDeposit}
      (signature : String) :
      Step env config ⟨sdk, .depositGasless d ::ₘ flights⟩ (.deposited d.commitment)
        ⟨(finishDepositGasless sdk d signature).2, flights⟩
  | beginPay {sdk : QietrSDK} {flights : Multiset Flight} {recipient : Pubkey} {paymentMicro : ℤ}
      {feePayer : Option Pubkey} {net : PayNetwork} {p : PreparedPayment}
      (h : preparePayment env config sdk.note recipient paymentMicro feePayer net = .ok p) :
      Step env config ⟨sdk, flights⟩ (.drawn (changeSecrets p))
        ⟨sdk, .pay p paymentMicro ::ₘ flights⟩
  | endPay {sdk sdk' : QietrSDK} {flights : Multiset Flight} {p : PreparedPayment}
      {paymentMicro : ℤ} {signature : String} {result : PaymentResult}
      (h : finishPayment sdk p paymentMicro signature = (.ok result, sdk')) :
      Step env config ⟨sdk, .pay p paymentMicro ::ₘ flights⟩
        (.paid p.commitment (p.change? paymentMicro)) ⟨sdk', flights⟩
  | beginWrapped {sdk : QietrSDK} {flights : Multiset Flight} {recipient : Pubkey}
      {paymentMicro : ℤ} {feePayer : Option Pubkey} {net : PayNetwork} {p : PreparedPayment}
      (h : preparePayment env config sdk.note recipient paymentMicro feePayer net = .ok p) :
      Step env config ⟨sdk, flights⟩ (.drawn (changeSecrets p))
        ⟨sdk, .wrapped p paymentMicro ::ₘ flights⟩
  | endWrapped {sdk sdk' : QietrSDK} {flights : Multiset Flight} {p : PreparedPayment}
      {paymentMicro : ℤ} {signature : String} {result : PaymentResult}
      (h : finishPayment sdk p paymentMicro signature = (.ok result, sdk')) :
      Step env config ⟨sdk, .wrapped p paymentMicro ::ₘ flights⟩
        (.paid p.commitment (p.change? paymentMicro))
          ⟨sdk', .setNote result.updatedNote ::ₘ flights⟩
  | setNote {sdk : QietrSDK} {flights : Multiset Flight} {updatedNote : Note} :
      Step env config ⟨sdk, .setNote updatedNote ::ₘ flights⟩ (.wroteBack sdk.note updatedNote)
        ⟨sdk.store updatedNote, flights⟩

/-- The runs of calls on an SDK that starts as `sdk₀`. -/
abbrev ClientRun (env : PoolEnv) (config : QietrSDKConfig) (sdk₀ : QietrSDK) :=
  Run (fun c : Client => c = ⟨sdk₀, 0⟩) (Step env config)

theorem clientRun_start (env : PoolEnv) (config : QietrSDKConfig) (sdk₀ : QietrSDK) :
    ClientRun env config sdk₀ [] ⟨sdk₀, 0⟩ :=
  .start rfl

/-! ### The log -/

def drawnBy (log : List Event) : List (String × String) :=
  log.flatMap Event.drawnSecrets

def createdBy (log : List Event) : List NoteCommitment :=
  log.flatMap Event.created

def spentBy (log : List Event) : List NoteCommitment :=
  log.flatMap Event.spent

theorem drawnBy_snoc (log : List Event) (e : Event) :
    drawnBy (log ++ [e]) = drawnBy log ++ e.drawnSecrets := by
  simp [drawnBy]

theorem createdBy_snoc (log : List Event) (e : Event) :
    createdBy (log ++ [e]) = createdBy log ++ e.created := by
  simp [createdBy]

theorem spentBy_snoc (log : List Event) (e : Event) :
    spentBy (log ++ [e]) = spentBy log ++ e.spent := by
  simp [spentBy]

/-- The commitments of a note, none when there is no note. -/
def commitmentsOf (note : Option Note) : List NoteCommitment :=
  (note.getD emptyNote).commitments

/-- What the note has had at any time. -/
def known (initial : List NoteCommitment) (log : List Event) : List NoteCommitment :=
  initial ++ createdBy log

/-- Nothing is drawn twice, and a note that is written back is the one that is found. -/
structure Clean (initial : List NoteCommitment) (log : List Event) : Prop where
  fresh : (initial.map secretsOf ++ drawnBy log).Nodup
  found : ∀ found note, Event.wroteBack found note ∈ log → found = some note

theorem Clean.of_snoc {initial : List NoteCommitment} {log : List Event} {e : Event}
    (h : Clean initial (log ++ [e])) : Clean initial log where
  fresh := by
    have hfresh := h.fresh
    rw [drawnBy_snoc, ← List.append_assoc] at hfresh
    exact hfresh.of_append_left
  found found note hmem := h.found found note (List.mem_append_left _ hmem)

/-! ### What every step keeps -/

/-- The secrets drawn for what a call is about to create. -/
def Flight.secrets : Flight → Option (String × String)
  | deposit d | depositGasless d => some (secretsOf d.commitment)
  | pay p _ | wrapped p _ => some (changeSecrets p)
  | setNote _ => none

/-- What a call is about to spend. -/
def Flight.spends : Flight → Option NoteCommitment
  | pay p _ | wrapped p _ => some p.commitment
  | deposit _ | depositGasless _ | setNote _ => none

/-- The note has, once, what was known and is not spent; what is created has secrets of its own. -/
structure Tracks (initial : List NoteCommitment) (log : List Event) (c : Client) : Prop where
  nodup : (commitmentsOf c.sdk.note).Nodup
  mem_iff : ∀ x, x ∈ commitmentsOf c.sdk.note ↔ x ∈ known initial log ∧ x ∉ spentBy log
  secrets : Multiset.ofList ((known initial log).map secretsOf) +
    c.flights.filterMap Flight.secrets ≤ Multiset.ofList (initial.map secretsOf ++ drawnBy log)
  spends : ∀ f ∈ c.flights, ∀ x ∈ f.spends, x ∈ known initial log
  spent : ∀ x ∈ spentBy log, x ∈ known initial log

variable {env : PoolEnv} {config : QietrSDKConfig} {initial : List NoteCommitment}
  {log : List Event} {sdk sdk' : QietrSDK} {f : Flight} {flights : Multiset Flight} {e : Event}

theorem known_snoc : known initial (log ++ [e]) = known initial log ++ e.created := by
  rw [known, createdBy_snoc, ← List.append_assoc, known]

/-- What is known has secrets of its own, and so has what is about to be created. -/
theorem Tracks.nodup_secrets {c : Client} (h : Tracks initial log c) (hclean : Clean initial log) :
    (Multiset.ofList ((known initial log).map secretsOf) +
      c.flights.filterMap Flight.secrets).Nodup :=
  Multiset.nodup_of_le h.secrets (Multiset.coe_nodup.mpr hclean.fresh)

theorem Tracks.eq_of_secrets {c : Client} (h : Tracks initial log c) (hclean : Clean initial log)
    {x y : NoteCommitment} (hx : x ∈ known initial log) (hy : y ∈ known initial log)
    (hxy : secretsOf x = secretsOf y) : x = y := by
  have hnodup := (Multiset.nodup_add.mp (h.nodup_secrets hclean)).1
  exact List.inj_on_of_nodup_map (Multiset.coe_nodup.mp hnodup) hx hy hxy

theorem Tracks.secrets_new (h : Tracks initial log ⟨sdk, f ::ₘ flights⟩)
    (hclean : Clean initial log) {x : NoteCommitment} (hx : f.secrets = some (secretsOf x)) :
    x ∉ known initial log := by
  intro hknown
  have hdisjoint := (Multiset.nodup_add.mp (h.nodup_secrets hclean)).2.2
  have hmem : secretsOf x ∈ (f ::ₘ flights).filterMap Flight.secrets :=
    (Multiset.mem_filterMap ..).mpr ⟨f, Multiset.mem_cons_self f flights, hx⟩
  exact Multiset.disjoint_left.mp hdisjoint (List.mem_map_of_mem hknown) hmem

/-- A call begins: what it is about to spend is in the note. -/
theorem Tracks.begin {secrets : String × String} (h : Tracks initial log ⟨sdk, flights⟩)
    (hsecrets : f.secrets = some secrets) (hspends : ∀ x ∈ f.spends, x ∈ commitmentsOf sdk.note) :
    Tracks initial (log ++ [.drawn secrets]) ⟨sdk, f ::ₘ flights⟩ := by
  have hknown : known initial (log ++ [.drawn secrets]) = known initial log :=
    known_snoc.trans (List.append_nil _)
  have hspent : spentBy (log ++ [.drawn secrets]) = spentBy log :=
    (spentBy_snoc log _).trans (List.append_nil _)
  refine ⟨h.nodup, ?_, ?_, ?_, ?_⟩
  · rw [hknown, hspent]
    exact h.mem_iff
  · rw [hknown, drawnBy_snoc, Event.drawnSecrets, ← List.append_assoc, ← Multiset.coe_add,
      Multiset.filterMap_cons_some _ _ _ hsecrets, ← Multiset.singleton_add, add_left_comm,
      add_comm, Multiset.coe_singleton]
    exact Multiset.add_le_add_right h.secrets
  · intro g hg x hx
    rw [hknown]
    rcases Multiset.mem_cons.mp hg with rfl | hg
    · exact ((h.mem_iff x).mp (hspends x hx)).1
    · exact h.spends g hg x hx
  · rw [hknown, hspent]
    exact h.spent

/-- A call goes on: the note loses what is spent, and gains what is created. -/
theorem Tracks.update {flights' : Multiset Flight} (created : Option NoteCommitment)
    (h : Tracks initial log ⟨sdk, f ::ₘ flights⟩) (hclean : Clean initial log)
    (hdrawn : e.drawnSecrets = []) (hcreated : e.created = created.toList)
    (hsecrets : ∀ x ∈ created, f.secrets = some (secretsOf x)) (hspent : e.spent = f.spends.toList)
    (hnote : commitmentsOf sdk'.note = (commitmentsOf sdk.note).filter (fun c =>
      ∀ x ∈ f.spends, secretsOf c ≠ secretsOf x) ++ created.toList)
    (hrest : flights'.filterMap Flight.secrets = flights.filterMap Flight.secrets)
    (hspends : ∀ g ∈ flights', g ∈ flights ∨ g.spends = none) :
    Tracks initial (log ++ [e]) ⟨sdk', flights'⟩ := by
  have hnew : ∀ x ∈ created, x ∉ known initial log := fun x hx =>
    h.secrets_new hclean (hsecrets x hx)
  have hmem : ∀ x, x ∈ known initial (log ++ [e]) ↔ x ∈ known initial log ∨ x ∈ created := by
    intro x
    rw [known_snoc, hcreated, List.mem_append, Option.mem_toList, Option.mem_def]
  have hmemSpent : ∀ x, x ∈ spentBy (log ++ [e]) ↔ x ∈ spentBy log ∨ x ∈ f.spends := by
    intro x
    rw [spentBy_snoc, hspent, List.mem_append, Option.mem_toList, Option.mem_def]
  have hspendsKnown : ∀ x ∈ f.spends, x ∈ known initial log :=
    h.spends f (Multiset.mem_cons_self f flights)
  -- among what is known, the secrets tell what is spent
  have hkept : ∀ x ∈ known initial log,
      (∀ y ∈ f.spends, secretsOf x ≠ secretsOf y) ↔ x ∉ f.spends := by
    intro x hx
    refine ⟨?_, ?_⟩
    · exact fun hne hxs => hne x hxs rfl
    · exact fun hx' y hy e => hx' (h.eq_of_secrets hclean hx (hspendsKnown y hy) e ▸ hy)
  refine ⟨?_, fun x => ?_, ?_, fun g hg x hx => ?_, fun x hx => ?_⟩
  · rw [hnote]
    refine List.Nodup.append (h.nodup.filter _) (by cases created <;> simp) ?_
    intro x hx hx'
    have hxnote := (List.mem_filter.mp hx).1
    exact hnew x (Option.mem_toList.mp hx') ((h.mem_iff x).mp hxnote).1
  · rw [hnote, List.mem_append, List.mem_filter, Option.mem_toList, hmem, hmemSpent, h.mem_iff,
      decide_eq_true_eq]
    refine ⟨?_, ?_⟩
    · rintro (⟨⟨hknown, hunspent⟩, hne⟩ | hx)
      · exact ⟨.inl hknown, fun hor => hor.elim hunspent ((hkept x hknown).mp hne)⟩
      · refine ⟨.inr hx, fun hor => hnew x hx ?_⟩
        exact hor.elim (h.spent x) (hspendsKnown x)
    · rintro ⟨hknown | hx, hnot⟩
      · exact .inl ⟨⟨hknown, fun hs => hnot (.inl hs)⟩,
          (hkept x hknown).mpr fun hs => hnot (.inr hs)⟩
      · exact .inr hx
  · rw [drawnBy_snoc, hdrawn, List.append_nil, known_snoc, hcreated, List.map_append,
      ← Multiset.coe_add, add_assoc]
    refine le_trans (Multiset.add_le_add_left ?_) h.secrets
    show _ + flights'.filterMap _ ≤ _
    rw [hrest]
    cases created with
    | none =>
        rw [Option.toList_none, List.map_nil, Multiset.coe_nil, zero_add]
        exact Multiset.filterMap_le_filterMap _ (Multiset.le_cons_self ..)
    | some x => rw [Multiset.filterMap_cons_some _ _ _ (hsecrets x rfl)]; exact le_refl _
  · rw [hmem]
    rcases hspends g hg with hg | hnone
    · exact .inl (h.spends g (Multiset.mem_cons_of_mem hg) x hx)
    · rw [hnone] at hx
      cases hx
  · rw [hmem]
    exact .inl (((hmemSpent x).mp hx).elim (h.spent x) (hspendsKnown x))

/-- Nothing of a call is in the note that a wrapped fetch writes back but what it finds. -/
theorem Tracks.writeBack {note : Note} (h : Tracks initial log ⟨sdk, .setNote note ::ₘ flights⟩)
    (hfound : sdk.note = some note) :
    Tracks initial (log ++ [.wroteBack sdk.note note]) ⟨sdk.store note, flights⟩ := by
  have hknown : known initial (log ++ [.wroteBack sdk.note note]) = known initial log :=
    known_snoc.trans (List.append_nil _)
  have hspent : spentBy (log ++ [.wroteBack sdk.note note]) = spentBy log :=
    (spentBy_snoc log _).trans (List.append_nil _)
  have hdrawn : drawnBy (log ++ [.wroteBack sdk.note note]) = drawnBy log :=
    (drawnBy_snoc log _).trans (List.append_nil _)
  have hnote : (sdk.store note).note = sdk.note := hfound.symm
  refine ⟨?_, ?_, ?_, fun g hg => ?_, ?_⟩
  · show (commitmentsOf (sdk.store note).note).Nodup
    rw [hnote]
    exact h.nodup
  · show ∀ x, x ∈ commitmentsOf (sdk.store note).note ↔ _
    rw [hnote, hknown, hspent]
    exact h.mem_iff
  · rw [hknown, hdrawn]
    simpa only [Multiset.filterMap_cons_none _ _ (rfl : (Flight.setNote note).secrets = none)]
      using h.secrets
  · rw [hknown]
    exact h.spends g (Multiset.mem_cons_of_mem hg)
  · rw [hknown, hspent]
    exact h.spent

/-- What the end of a payment leaves. -/
theorem finishPayment_eq_ok {p : PreparedPayment} {paymentMicro : ℤ} {signature : String}
    {result : PaymentResult} (h : finishPayment sdk p paymentMicro signature = (.ok result, sdk')) :
    ∃ note, sdk.note = some note ∧ result.updatedNote = spendFrom note p paymentMicro ∧
      sdk' = sdk.store result.updatedNote := by
  rw [finishPayment] at h
  split at h
  · cases h
  · rename_i note hnote
    cases h
    exact ⟨note, hnote, rfl, rfl⟩

theorem commitmentsOf_spendFrom {p : PreparedPayment} {paymentMicro : ℤ} {note : Note}
    (hnote : sdk.note = some note) :
    commitmentsOf (some (spendFrom note p paymentMicro)) =
      (commitmentsOf sdk.note).filter (fun c =>
        ∀ x ∈ some p.commitment, secretsOf c ≠ secretsOf x) ++ (p.change? paymentMicro).toList := by
  rw [hnote]
  show (spendFrom note p paymentMicro).commitments = _
  simp [spendFrom, commitmentsOf, secretsOf]

theorem secretsOf_change {p : PreparedPayment} {paymentMicro : ℤ} {x : NoteCommitment}
    (h : x ∈ p.change? paymentMicro) : changeSecrets p = secretsOf x := by
  rw [PreparedPayment.change?] at h
  split at h
  · cases Option.some.inj h
    rfl
  · cases h

theorem Tracks.endDeposit {d : PreparedDeposit} (h : Tracks initial log ⟨sdk, f ::ₘ flights⟩)
    (hclean : Clean initial log) (hsecrets : f.secrets = some (secretsOf d.commitment))
    (hspends : f.spends = none) (hnote : sdk'.note = some (addTo sdk.note d.commitment)) :
    Tracks initial (log ++ [.deposited d.commitment]) ⟨sdk', flights⟩ := by
  refine h.update (some d.commitment) hclean rfl rfl ?_ ?_ ?_ rfl
    fun g hg => .inl hg
  · rintro x ⟨⟩
    exact hsecrets
  · rw [hspends]
    rfl
  · rw [hnote, hspends]
    simp [commitmentsOf, addTo]

theorem Tracks.endPayment {flights' : Multiset Flight} {p : PreparedPayment} {paymentMicro : ℤ}
    {signature : String} {result : PaymentResult}
    (h : Tracks initial log ⟨sdk, f ::ₘ flights⟩) (hclean : Clean initial log)
    (hsecrets : f.secrets = some (changeSecrets p)) (hspends : f.spends = some p.commitment)
    (hpaid : finishPayment sdk p paymentMicro signature = (.ok result, sdk'))
    (hrest : flights'.filterMap Flight.secrets = flights.filterMap Flight.secrets)
    (hflights : ∀ g ∈ flights', g ∈ flights ∨ g.spends = none) :
    Tracks initial (log ++ [.paid p.commitment (p.change? paymentMicro)]) ⟨sdk', flights'⟩ := by
  obtain ⟨note, hnote, hresult, rfl⟩ := finishPayment_eq_ok hpaid
  refine h.update _ hclean rfl rfl (fun x hx => ?_) ?_ ?_ hrest hflights
  · rw [hsecrets, secretsOf_change hx]
  · rw [hspends]
    rfl
  · rw [hspends, ← commitmentsOf_spendFrom hnote, ← hresult]
    rfl

/-- **One step** keeps it. -/
theorem Tracks.step {c c' : Client} (h : Tracks initial log c) (hclean : Clean initial (log ++ [e]))
    (hs : Step env config c e c') : Tracks initial (log ++ [e]) c' := by
  have hspendable : ∀ {sdk : QietrSDK} {recipient : Pubkey} {paymentMicro : ℤ}
      {feePayer : Option Pubkey} {net : PayNetwork} {p : PreparedPayment},
      preparePayment env config sdk.note recipient paymentMicro feePayer net = .ok p →
      ∀ x ∈ some p.commitment, x ∈ commitmentsOf sdk.note := by
    rintro sdk recipient paymentMicro feePayer net p hp x ⟨⟩
    obtain ⟨note, _, _, _, _, _, hnote, -, hprepared⟩ := preparePayment_eq_ok.mp hp
    rw [hnote]
    exact (mem_of_pickCommitment hprepared.pick).1
  cases hs with
  | beginDeposit hd | beginDepositGasless hd => exact h.begin rfl nofun
  | endDeposit signature | endDepositGasless signature =>
      exact h.endDeposit hclean.of_snoc rfl rfl rfl
  | beginPay hp | beginWrapped hp => exact h.begin rfl (hspendable hp)
  | endPay hpaid => exact h.endPayment hclean.of_snoc rfl rfl hpaid rfl fun g hg => .inl hg
  | endWrapped hpaid =>
      refine h.endPayment hclean.of_snoc rfl rfl hpaid
        (Multiset.filterMap_cons_none _ _ rfl) fun g hg => ?_
      rcases Multiset.mem_cons.mp hg with rfl | hg
      · exact .inr rfl
      · exact .inl hg
  | setNote =>
      exact h.writeBack (hclean.found _ _ (List.mem_append_right _ (List.mem_singleton_self _)))

/-- **A run** keeps it. -/
theorem tracks_of_run {sdk₀ : QietrSDK} {c : Client} (h : ClientRun env config sdk₀ log c)
    (hclean : Clean (commitmentsOf sdk₀.note) log) : Tracks (commitmentsOf sdk₀.note) log c := by
  revert hclean
  refine Run.invariant (fun log c => Clean (commitmentsOf sdk₀.note) log →
    Tracks (commitmentsOf sdk₀.note) log c) ?_ ?_ h
  · rintro c rfl hclean
    have hfresh := hclean.fresh
    exact
      { nodup := List.Nodup.of_map _ hfresh.of_append_left
        mem_iff := fun x => by simp [known, createdBy, spentBy]
        secrets := by simp [known, createdBy, drawnBy]
        spends := fun f hf => (Multiset.notMem_zero f hf).elim
        spent := fun x hx => (List.not_mem_nil hx).elim }
  · intro log c e c' _ ih hs hclean
    exact (ih hclean.of_snoc).step hclean hs

/-- **No update of the note is lost** in a clean run: at every point it has, exactly once, every
commitment that it started with or that a call has created, and that none has spent. -/
theorem no_lost_update {sdk₀ : QietrSDK} {c : Client} (h : ClientRun env config sdk₀ log c)
    (hclean : Clean (commitmentsOf sdk₀.note) log) (x : NoteCommitment) :
    (commitmentsOf c.sdk.note).count x =
      if (x ∈ commitmentsOf sdk₀.note ∨ x ∈ createdBy log) ∧ x ∉ spentBy log then 1 else 0 := by
  have ht := tracks_of_run h hclean
  have hiff : x ∈ commitmentsOf c.sdk.note ↔
      (x ∈ commitmentsOf sdk₀.note ∨ x ∈ createdBy log) ∧ x ∉ spentBy log := by
    rw [ht.mem_iff, known, List.mem_append]
  split
  · rename_i hx
    exact List.count_eq_one_of_mem ht.nodup (hiff.mpr hx)
  · rename_i hx
    exact List.count_eq_zero.mpr fun hmem => hx (hiff.mp hmem)

/-! ### A wrapped fetch and a deposit -/

/-- A wrapped fetch pays from the note of ten. -/
theorem exists_wrapped (P : Poseidon) : ∃ p n' sdk', p.commitment = tenNote ∧
    changeSecrets p = ("5", "6") ∧ tenNote ∉ n'.commitments ∧ tenDeposit ∉ n'.commitments ∧
    sdk'.note = some n' ∧
    (∀ flights, Step (ideal P) tenConfig ⟨tenSdk, flights⟩ (.drawn (changeSecrets p))
      ⟨tenSdk, .wrapped p 4 ::ₘ flights⟩) ∧
    ∀ flights, Step (ideal P) tenConfig ⟨tenSdk, .wrapped p 4 ::ₘ flights⟩
      (.paid p.commitment (p.change? 4)) ⟨sdk', .setNote n' ::ₘ flights⟩ := by
  obtain ⟨p, -, hp, -, -⟩ := exists_prepared_ten (P := P) (newDenomination (ideal P) usdc 0 10)
    rfl rfl
  obtain ⟨_, _, _, _, _, _, hnote, -, hprepared⟩ := preparePayment_eq_ok.mp hp
  obtain rfl := Option.some.inj hnote
  have hcommitment : p.commitment = tenNote :=
    (Option.some.inj (hprepared.pick.symm.trans pickCommitment_tenNote))
  have hchange : changeSecrets p = ("5", "6") := by
    rw [changeSecrets, hprepared.newSecrets.1, hprepared.newSecrets.2]
    show (toString 5, toString 6) = ("5", "6")
    decide +kernel
  have hpaid := paid_spendFrom hprepared tenNoteOnly
  have hfinish : finishPayment tenSdk p 4 "" = (.ok ⟨spendFrom tenNoteOnly p 4, ""⟩,
      tenSdk.store (spendFrom tenNoteOnly p 4)) := rfl
  refine ⟨p, spendFrom tenNoteOnly p 4, _, hcommitment, hchange, hcommitment ▸ hpaid.lacks,
    fun hmem => ?_, rfl, fun flights => .beginWrapped hp, fun flights => .endWrapped hfinish⟩
  rcases List.mem_append.mp hmem with hmem | hmem
  · have := List.mem_singleton.mp (List.mem_filter.mp hmem).1
    revert this
    decide +kernel
  · have hsecrets := secretsOf_change (Option.mem_toList.mp hmem)
    rw [hchange] at hsecrets
    revert hsecrets
    decide +kernel

/-- Within a deposit it writes back what it finds: the note that it has paid from is gone, and the
one that the deposit makes afterwards is there. -/
theorem no_lost_update_wrapped : ∃ log c,
    ClientRun (ideal circom) tenConfig tenSdk log c ∧ c.flights = 0 ∧ tenNote ∈ spentBy log ∧
    (commitmentsOf c.sdk.note).count tenNote = 0 ∧
    (commitmentsOf c.sdk.note).count tenDeposit = 1 := by
  obtain ⟨p, n', sdk', hcommitment, hchange, -, -, hnote, hbegin, hend⟩ := exists_wrapped circom
  obtain ⟨d, hd, hdeposit⟩ := exists_preparedDeposit circom
  have hrun := (clientRun_start (ideal circom) tenConfig tenSdk).snoc (.beginDeposit hd)
  have hrun := ((hrun.snoc (hbegin _)).snoc (hend _)).snoc .setNote
  have hrun := hrun.snoc (.endDeposit "")
  have hspent : spentBy ([] ++ [.drawn (secretsOf d.commitment)] ++ [.drawn (changeSecrets p)] ++
      [.paid p.commitment (p.change? 4)] ++ [.wroteBack sdk'.note n'] ++
      [.deposited d.commitment]) =
      [tenNote] := by
    rw [← hcommitment]
    rfl
  have hcreated : tenDeposit ∈ createdBy ([] ++ [.drawn (secretsOf d.commitment)] ++
      [.drawn (changeSecrets p)] ++ [.paid p.commitment (p.change? 4)] ++
      [.wroteBack sdk'.note n'] ++ [.deposited d.commitment]) := by
    rw [createdBy_snoc, ← hdeposit]
    exact List.mem_append_right _ (List.mem_singleton_self _)
  have hupdate := no_lost_update hrun
    { fresh := by
        show [("1", "2"), secretsOf d.commitment, changeSecrets p].Nodup
        rw [hchange, hdeposit]
        decide
      found := by
        intro found note hmem
        simp only [List.nil_append, List.cons_append, List.mem_cons, reduceCtorEq, false_or,
          Event.wroteBack.injEq, List.not_mem_nil, or_false] at hmem
        rw [hmem.1, hmem.2]
        exact hnote }
  refine ⟨_, _, hrun, rfl, ?_, ?_, ?_⟩
  · rw [hspent]
    exact List.mem_singleton_self _
  · rw [hupdate, if_neg]
    intro h
    exact h.2 (by rw [hspent]; exact List.mem_singleton_self _)
  · rw [hupdate, if_pos]
    exact ⟨Or.inr hcreated, by rw [hspent]; decide⟩

/-- A deposit ends between the payment of a wrapped fetch and its writing back: it is lost, though
every transaction has succeeded and every secret is new. -/
theorem lost_deposit : ∃ log c,
    ClientRun (ideal circom) tenConfig tenSdk log c ∧ c.flights = 0 ∧
    ((commitmentsOf tenSdk.note).map secretsOf ++ drawnBy log).Nodup ∧
    tenDeposit ∈ createdBy log ∧ tenDeposit ∉ spentBy log ∧
    tenDeposit ∉ commitmentsOf c.sdk.note := by
  obtain ⟨p, n', sdk', hcommitment, hchange, -, hlacks, hnote, hbegin, hend⟩ :=
    exists_wrapped circom
  obtain ⟨d, hd, hdeposit⟩ := exists_preparedDeposit circom
  have hrun := (clientRun_start (ideal circom) tenConfig tenSdk).snoc (.beginDeposit hd)
  have hrun := (hrun.snoc (hbegin _)).snoc (hend _)
  rw [Multiset.cons_swap] at hrun
  have hrun := (hrun.snoc (.endDeposit "")).snoc .setNote
  refine ⟨_, _, hrun, rfl, ?_, ?_, ?_, hlacks⟩
  · show [("1", "2"), secretsOf d.commitment, changeSecrets p].Nodup
    rw [hchange, hdeposit]
    decide
  · rw [createdBy_snoc, createdBy_snoc]
    refine List.mem_append_left _ (List.mem_append_right _ ?_)
    rw [← hdeposit]
    exact List.mem_singleton_self _
  · show tenDeposit ∉ [p.commitment]
    rw [hcommitment]
    decide

end Qietr.Sdk
