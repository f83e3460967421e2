import Qietr.Library.Runs
import Qietr.Sdk.Notes
import Qietr.Sdk.Prepare

/-!
# Web — the note on the device

`NoteManager.tsx`, and the two forms of `PayForms.tsx`: what is kept of a note in the browser, over
any number of tabs, with payments that wait for the network while others go on.

* `Browser`: the sealed note, the notes that are open in the tabs, and the forms that wait.
* `createNote` to `handleFetch`: what a user can do; `Action`, `act`: any of it.
* `Effect`, `lastStored`: what was stored, under which passphrase.
* `note_kept`: the note that was stored last is opened, and a payment spends the note that was kept
  when it began; that is the last one where nothing else was stored meanwhile.
-/

open Outcome

namespace Qietr.Web

open Pool Sdk

/-! ### The browser -/

/-- A form for payments, with an SDK of its own. -/
inductive Form
  | direct (n : ℕ)
  | x402 (n : ℕ)
  deriving DecidableEq

/-- What a form that waits for the network was given, and the note that it has opened. -/
structure Waiting where
  passphrase : String
  note : Note

/-- `localStorage`, the note that the manager shows in each tab, and the forms. -/
structure Browser where
  blob : Option String
  notes : ℕ → Option Note
  waiting : Form → Option Waiting
  lastUpdatedNote : ℕ → Option Note

def Browser.fresh : Browser :=
  ⟨none, fun _ => none, fun _ => none, fun _ => none⟩

/-- What an action opens for a payment, or stores. -/
inductive Effect
  | nothing
  | opened (note : Note)
  | stored (passphrase : String) (note : Note)
  | cleared

namespace Browser

variable (b : Browser)

/-- An empty text counts as none. -/
def loadEncryptedNote : Option String :=
  b.blob.filter (· ≠ "")

def saveEncryptedNote (blob : String) : Browser :=
  { b with blob := some blob }

def clearEncryptedNote : Browser :=
  { b with blob := none }

def setNote (tab : ℕ) (note : Option Note) : Browser :=
  { b with notes := Function.update b.notes tab note }

def setWaiting (form : Form) (w : Option Waiting) : Browser :=
  { b with waiting := Function.update b.waiting form w }

def setUpdatedNote (n : ℕ) (note : Option Note) : Browser :=
  { b with lastUpdatedNote := Function.update b.lastUpdatedNote n note }

end Browser

variable (other : List Char → JsonNumber) (K : Crypto) (b : Browser)

/-- `decryptNote`, of a value that is used as a note. -/
def openNote (blob passphrase : String) : Except String Note := do
  let j ← decryptNote other K blob passphrase
  okOr (readNote j) "Cannot read properties of undefined"

/-- What is drawn at random to seal a note. -/
structure Salts where
  salt : Bytes 16
  nonce : Bytes 12

/-! ### The manager -/

/-- A handler changes the store at its end. -/
def createNote (tab : ℕ) (passphrase : String) (draws : Salts) :
    Except String (Browser × Effect) := do
  let blob ← encryptNote K draws.salt draws.nonce emptyNote passphrase
  .ok ((b.saveEncryptedNote blob).setNote tab (some emptyNote), .stored passphrase emptyNote)

def unlockNote (tab : ℕ) (passphrase : String) : Except String (Browser × Effect) := do
  let blob ← okOr b.loadEncryptedNote "no encrypted note on this device"
  let dec ← openNote other K blob passphrase
  .ok (b.setNote tab (some dec), .nothing)

/-- The panel is there for a note that is open. -/
def backupNote (tab : ℕ) (passphrase : String) (draws : Salts) :
    Except String (Browser × Effect) :=
  match b.notes tab with
  | none => .ok (b, .nothing)
  | some note => do
      let blob ← encryptNote K draws.salt draws.nonce note passphrase
      .ok (b.saveEncryptedNote blob, .stored passphrase note)

def trimmed (text : String) : String :=
  String.ofList (BigIntText.trim text.toList)

def restoreNote (tab : ℕ) (text passphrase : String) : Except String (Browser × Effect) := do
  let dec ← openNote other K (trimmed text) passphrase
  .ok ((b.saveEncryptedNote (trimmed text)).setNote tab (some dec), .stored passphrase dec)

def clearNote (tab : ℕ) : Browser × Effect :=
  (b.clearEncryptedNote.setNote tab none, .cleared)

/-! ### The forms -/

/-- Up to the SDK's call, for which the form waits: then its button is off. -/
def unlockAndSetNote (form : Form) (passphrase : String) : Except String (Browser × Effect) :=
  match b.waiting form with
  | some _ => .ok (b, .nothing)
  | none => do
      let blob ← okOr b.loadEncryptedNote
        "No encrypted note found. Restore or create one in /app/note first."
      let note ← openNote other K blob passphrase
      .ok (b.setWaiting form (some ⟨passphrase, note⟩), .opened note)

/-- The note is sealed again. -/
def sealAgain (passphrase : String) (draws : Salts) (updated : Note) :
    Except String (Browser × Effect) := do
  let blob ← encryptNote K draws.salt draws.nonce updated passphrase
  .ok (b.saveEncryptedNote blob, .stored passphrase updated)

/-- What fails only says so. -/
def caught : Except String (Browser × Effect) → Browser × Effect
  | .ok r => r
  | .error _ => (b, .nothing)

/-- From the SDK's payment on, which `pay` makes of the note that was opened. -/
def handlePay (n : ℕ) (pay : Note → Except String Note) (draws : Salts) : Browser × Effect :=
  match b.waiting (.direct n) with
  | none => (b, .nothing)
  | some w =>
      let b := b.setWaiting (.direct n) none
      caught b (pay w.note >>= sealAgain K b w.passphrase draws)

/-- From the wrapped fetch on: whether it throws, and the note that its payments leave in the SDK,
if it makes any.  What is stored is the SDK's last updated note, which may be from an earlier
call. -/
def handleFetch (n : ℕ) (fetch : Note → Except String Unit × Option Note) (draws : Salts) :
    Browser × Effect :=
  match b.waiting (.x402 n) with
  | none => (b, .nothing)
  | some w =>
      let last := (fetch w.note).2.or (b.lastUpdatedNote n)
      let b := (b.setWaiting (.x402 n) none).setUpdatedNote n last
      caught b (do
        let _ ← (fetch w.note).1
        match last with
        | none => .ok (b, .nothing)
        | some updated => sealAgain K b w.passphrase draws updated)

/-! ### What a user does -/

inductive Action
  | create (tab : ℕ) (passphrase : String) (draws : Salts)
  | unlock (tab : ℕ) (passphrase : String)
  | backup (tab : ℕ) (passphrase : String) (draws : Salts)
  | restore (tab : ℕ) (text passphrase : String)
  | clear (tab : ℕ)
  | submit (form : Form) (passphrase : String)
  | pay (n : ℕ) (pay : Note → Except String Note) (draws : Salts)
  | fetch (n : ℕ) (fetch : Note → Except String Unit × Option Note) (draws : Salts)

def act : Action → Browser × Effect
  | .create tab passphrase draws => caught b (createNote K b tab passphrase draws)
  | .unlock tab passphrase => caught b (unlockNote other K b tab passphrase)
  | .backup tab passphrase draws => caught b (backupNote K b tab passphrase draws)
  | .restore tab text passphrase => caught b (restoreNote other K b tab text passphrase)
  | .clear tab => clearNote b tab
  | .submit form passphrase => caught b (unlockAndSetNote other K b form passphrase)
  | .pay n pay draws => handlePay K b n pay draws
  | .fetch n fetch draws => handleFetch K b n fetch draws

/-- If the passphrase opens it, then a note that the app has written. -/
def Written (blob passphrase : String) : Prop :=
  ∀ j, decryptNote other K blob passphrase = .ok j → ∃ note : Note, note.Safe ∧ j = note.json

/-- What is opened has been written by the app, and payments keep the amounts safe. -/
def Allowed : Action → Prop
  | .unlock _ passphrase | .submit _ passphrase =>
      ∀ blob, b.loadEncryptedNote = some blob → Written other K blob passphrase
  | .restore _ text passphrase => Written other K (trimmed text) passphrase
  | .pay _ pay _ => ∀ note updated, note.Safe → pay note = .ok updated → updated.Safe
  | .fetch _ fetch _ => ∀ note updated, note.Safe → (fetch note).2 = some updated → updated.Safe
  | _ => True

inductive BrowserStep : Browser → Action × Effect → Browser → Prop
  | act {b : Browser} {a : Action} (h : Allowed other K b a) :
      BrowserStep b (a, (act other K b a).2) (act other K b a).1

/-- The runs of a browser that keeps no note at first. -/
abbrev BrowserRun :=
  Run (· = Browser.fresh) (BrowserStep other K)

/-- What was stored, and not cleared. -/
def Effect.after (v : Option (String × Note)) : Effect → Option (String × Note)
  | .nothing | .opened _ => v
  | .stored passphrase note => some (passphrase, note)
  | .cleared => none

def lastStored (log : List (Action × Effect)) : Option (String × Note) :=
  (log.map Prod.snd).foldl Effect.after none

/-- Nothing is stored or cleared. -/
def Effect.Quiet : Effect → Prop
  | .nothing | .opened _ => True
  | _ => False

/-! ### What an action does -/

variable {other K b}

/-- An action fails, or does the one thing that it is for. -/
inductive Acts (other : List Char → JsonNumber) (K : Crypto) (b : Browser) :
    Action → Browser → Effect → Prop
  | failed (a : Action) : Acts other K b a b .nothing
  | created {tab : ℕ} {passphrase blob : String} {draws : Salts}
      (h : encryptNote K draws.salt draws.nonce emptyNote passphrase = .ok blob) :
      Acts other K b (.create tab passphrase draws)
        ((b.saveEncryptedNote blob).setNote tab (some emptyNote)) (.stored passphrase emptyNote)
  | unlocked {tab : ℕ} {passphrase blob : String} {note : Note}
      (hblob : b.loadEncryptedNote = some blob) (h : openNote other K blob passphrase = .ok note) :
      Acts other K b (.unlock tab passphrase) (b.setNote tab (some note)) .nothing
  | backedUp {tab : ℕ} {passphrase blob : String} {draws : Salts} {note : Note}
      (hnote : b.notes tab = some note)
      (h : encryptNote K draws.salt draws.nonce note passphrase = .ok blob) :
      Acts other K b (.backup tab passphrase draws) (b.saveEncryptedNote blob)
        (.stored passphrase note)
  | restored {tab : ℕ} {text passphrase : String} {note : Note}
      (h : openNote other K (trimmed text) passphrase = .ok note) :
      Acts other K b (.restore tab text passphrase)
        ((b.saveEncryptedNote (trimmed text)).setNote tab (some note)) (.stored passphrase note)
  | cleared {tab : ℕ} :
      Acts other K b (.clear tab) (b.clearEncryptedNote.setNote tab none) .cleared
  | submitted {form : Form} {passphrase blob : String} {note : Note}
      (hblob : b.loadEncryptedNote = some blob) (h : openNote other K blob passphrase = .ok note) :
      Acts other K b (.submit form passphrase) (b.setWaiting form (some ⟨passphrase, note⟩))
        (.opened note)
  | notPaid {n : ℕ} {pay : Note → Except String Note} {draws : Salts} :
      Acts other K b (.pay n pay draws) (b.setWaiting (.direct n) none) .nothing
  | paid {n : ℕ} {pay : Note → Except String Note} {draws : Salts} {w : Waiting} {updated : Note}
      {blob : String} (hw : b.waiting (.direct n) = some w) (hpay : pay w.note = .ok updated)
      (h : encryptNote K draws.salt draws.nonce updated w.passphrase = .ok blob) :
      Acts other K b (.pay n pay draws) ((b.setWaiting (.direct n) none).saveEncryptedNote blob)
        (.stored w.passphrase updated)
  | notFetched {n : ℕ} {fetch : Note → Except String Unit × Option Note} {draws : Salts}
      {w : Waiting} (hw : b.waiting (.x402 n) = some w) :
      Acts other K b (.fetch n fetch draws)
        ((b.setWaiting (.x402 n) none).setUpdatedNote n
          ((fetch w.note).2.or (b.lastUpdatedNote n))) .nothing
  | fetched {n : ℕ} {fetch : Note → Except String Unit × Option Note} {draws : Salts}
      {w : Waiting} {updated : Note} {blob : String} (hw : b.waiting (.x402 n) = some w)
      (hlast : (fetch w.note).2.or (b.lastUpdatedNote n) = some updated)
      (h : encryptNote K draws.salt draws.nonce updated w.passphrase = .ok blob) :
      Acts other K b (.fetch n fetch draws)
        (((b.setWaiting (.x402 n) none).setUpdatedNote n
          ((fetch w.note).2.or (b.lastUpdatedNote n))).saveEncryptedNote blob)
        (.stored w.passphrase updated)

theorem acts_caught {b' : Browser} {a : Action} {x : Except String (Browser × Effect)}
    (hfail : Acts other K b a b' .nothing) (hok : ∀ r e, x = .ok (r, e) → Acts other K b a r e) :
    Acts other K b a (caught b' x).1 (caught b' x).2 := by
  cases x with
  | error e => exact hfail
  | ok r => exact hok r.1 r.2 rfl

theorem sealAgain_eq_ok {passphrase : String} {draws : Salts} {updated : Note} {b' : Browser}
    {e : Effect} : sealAgain K b passphrase draws updated = .ok (b', e) ↔
      ∃ blob, encryptNote K draws.salt draws.nonce updated passphrase = .ok blob ∧
        b.saveEncryptedNote blob = b' ∧ .stored passphrase updated = e := by
  simp only [sealAgain, bind_eq_ok, Except.ok.injEq, Prod.mk.injEq]

theorem acts_pay (n : ℕ) (pay : Note → Except String Note) (draws : Salts) :
    Acts other K b (.pay n pay draws) (handlePay K b n pay draws).1
      (handlePay K b n pay draws).2 := by
  unfold handlePay
  split
  · exact .failed _
  · rename_i w hw
    refine acts_caught .notPaid fun b' e hok => ?_
    obtain ⟨updated, hpay, hseal⟩ := bind_eq_ok.mp hok
    obtain ⟨blob, hblob, rfl, rfl⟩ := sealAgain_eq_ok.mp hseal
    exact .paid hw hpay hblob

theorem acts_fetch (n : ℕ) (fetch : Note → Except String Unit × Option Note) (draws : Salts) :
    Acts other K b (.fetch n fetch draws) (handleFetch K b n fetch draws).1
      (handleFetch K b n fetch draws).2 := by
  unfold handleFetch
  split
  · exact .failed _
  · rename_i w hw
    refine acts_caught (.notFetched hw) fun b' e hok => ?_
    obtain ⟨-, -, hstore⟩ := bind_eq_ok.mp hok
    split at hstore
    · obtain ⟨rfl, rfl⟩ := Prod.mk.inj (Except.ok.inj hstore)
      exact .notFetched hw
    · rename_i updated hlast
      obtain ⟨blob, hblob, rfl, rfl⟩ := sealAgain_eq_ok.mp hstore
      exact .fetched hw hlast hblob

/-- **What an action does.** -/
theorem acts (a : Action) : Acts other K b a (act other K b a).1 (act other K b a).2 := by
  cases a with
  | create tab passphrase draws =>
      rw [act]
      refine acts_caught (.failed _) fun b' e hok => ?_
      obtain ⟨blob, hblob, hok⟩ := bind_eq_ok.mp hok
      obtain ⟨rfl, rfl⟩ := Prod.mk.inj (Except.ok.inj hok)
      exact .created hblob
  | unlock tab passphrase =>
      rw [act]
      refine acts_caught (.failed _) fun b' e hok => ?_
      obtain ⟨blob, hblob, hok⟩ := bind_eq_ok.mp hok
      obtain ⟨note, hopen, hok⟩ := bind_eq_ok.mp hok
      obtain ⟨rfl, rfl⟩ := Prod.mk.inj (Except.ok.inj hok)
      exact .unlocked (okOr_eq_ok.mp hblob) hopen
  | backup tab passphrase draws =>
      rw [act]
      refine acts_caught (.failed _) fun b' e hok => ?_
      unfold backupNote at hok
      split at hok
      · obtain ⟨rfl, rfl⟩ := Prod.mk.inj (Except.ok.inj hok)
        exact .failed _
      · rename_i note hnote
        obtain ⟨blob, hblob, hok⟩ := bind_eq_ok.mp hok
        obtain ⟨rfl, rfl⟩ := Prod.mk.inj (Except.ok.inj hok)
        exact .backedUp hnote hblob
  | restore tab text passphrase =>
      rw [act]
      refine acts_caught (.failed _) fun b' e hok => ?_
      obtain ⟨note, hopen, hok⟩ := bind_eq_ok.mp hok
      obtain ⟨rfl, rfl⟩ := Prod.mk.inj (Except.ok.inj hok)
      exact .restored hopen
  | clear tab => exact .cleared
  | submit form passphrase =>
      rw [act]
      refine acts_caught (.failed _) fun b' e hok => ?_
      unfold unlockAndSetNote at hok
      split at hok
      · obtain ⟨rfl, rfl⟩ := Prod.mk.inj (Except.ok.inj hok)
        exact .failed _
      · obtain ⟨blob, hblob, hok⟩ := bind_eq_ok.mp hok
        obtain ⟨note, hopen, hok⟩ := bind_eq_ok.mp hok
        obtain ⟨rfl, rfl⟩ := Prod.mk.inj (Except.ok.inj hok)
        exact .submitted (okOr_eq_ok.mp hblob) hopen
  | pay n pay draws => exact acts_pay n pay draws
  | fetch n fetch draws => exact acts_fetch n fetch draws

/-! ### The note that is kept -/

/-- What is kept on the device is what was stored; each note that is open, or that a form has, is
one to be stored again. -/
structure Keeps (other : List Char → JsonNumber) (K : Crypto) (v : Option (String × Note))
    (b : Browser) : Prop where
  blob_none : v = none → b.blob = none
  opens : ∀ passphrase note, v = some (passphrase, note) → note.Safe ∧
    ∃ blob, b.loadEncryptedNote = some blob ∧ decryptNote other K blob passphrase = .ok note.json
  notes : ∀ tab note, b.notes tab = some note → note.Safe
  waiting : ∀ form w, b.waiting form = some w → w.note.Safe
  updated : ∀ n note, b.lastUpdatedNote n = some note → note.Safe

theorem openNote_json {blob passphrase : String} {note : Note}
    (h : decryptNote other K blob passphrase = .ok note.json) :
    openNote other K blob passphrase = .ok note := by
  rw [openNote, h, ok_bind, readNote_json, okOr_some]

theorem safe_emptyNote : emptyNote.Safe :=
  ⟨rfl, fun _ hc => absurd hc List.not_mem_nil⟩

theorem opened_ne_empty {blob passphrase : String} {j : Json}
    (h : decryptNote other K blob passphrase = .ok j) : blob ≠ "" := by
  rintro rfl
  obtain ⟨_, _, _, hmagic, -⟩ := decryptNote_eq_ok.mp h
  cases hmagic

/-- What holds of a new value, and of the others, holds at every point of the new function. -/
theorem update_some {ι α : Type} [DecidableEq ι] {f : ι → Option α} {p : ι → α → Prop}
    (h : ∀ i a, f i = some a → p i a) {j : ι} {o : Option α} (ho : ∀ a, o = some a → p j a) (i : ι)
    (a : α) (hi : Function.update f j o i = some a) : p i a := by
  by_cases hij : i = j
  · subst hij
    exact ho a ((Function.update_self i o f).symm.trans hi)
  · exact h i a ((Function.update_of_ne hij o f).symm.trans hi)

section Keeps

variable {v : Option (String × Note)}

/-- A note that is stored is kept. -/
theorem Keeps.save (h : Keeps other K v b) {blob passphrase : String} {note : Note}
    (hsafe : note.Safe) (hopen : decryptNote other K blob passphrase = .ok note.json) :
    Keeps other K (some (passphrase, note)) (b.saveEncryptedNote blob) where
  blob_none hv := by cases hv
  opens p n hv := by
    cases hv
    refine ⟨hsafe, blob, ?_, hopen⟩
    rw [Browser.loadEncryptedNote, Browser.saveEncryptedNote, Option.filter_some,
      if_pos (decide_eq_true (opened_ne_empty hopen))]
  notes := h.notes
  waiting := h.waiting
  updated := h.updated

theorem Keeps.seal (h : Keeps other K v b) {blob passphrase : String} {note : Note} {draws : Salts}
    (hsafe : note.Safe)
    (hblob : encryptNote K draws.salt draws.nonce note passphrase = .ok blob) :
    Keeps other K (some (passphrase, note)) (b.saveEncryptedNote blob) :=
  h.save hsafe (decryptNote_encryptNote hsafe hblob)

theorem Keeps.setNote (h : Keeps other K v b) {tab : ℕ} {note : Option Note}
    (hnote : ∀ n, note = some n → n.Safe) : Keeps other K v (b.setNote tab note) :=
  { h with notes := update_some (p := fun _ (n : Note) => n.Safe) h.notes hnote }

theorem Keeps.setWaiting (h : Keeps other K v b) {form : Form} {w : Option Waiting}
    (hw : ∀ u, w = some u → u.note.Safe) : Keeps other K v (b.setWaiting form w) :=
  { h with waiting := update_some (p := fun _ (u : Waiting) => u.note.Safe) h.waiting hw }

theorem Keeps.setUpdatedNote (h : Keeps other K v b) {n : ℕ} {note : Option Note}
    (hnote : ∀ u, note = some u → u.Safe) : Keeps other K v (b.setUpdatedNote n note) :=
  { h with updated := update_some (p := fun _ (u : Note) => u.Safe) h.updated hnote }

theorem Keeps.clear (h : Keeps other K v b) : Keeps other K none b.clearEncryptedNote :=
  ⟨fun _ => rfl, fun _ _ hv => (by cases hv), h.notes, h.waiting, h.updated⟩

theorem Written.openNote {blob passphrase : String} {note : Note}
    (h : Written other K blob passphrase) (hopen : openNote other K blob passphrase = .ok note) :
    note.Safe ∧ decryptNote other K blob passphrase = .ok note.json := by
  obtain ⟨j, hj, hread⟩ := bind_eq_ok.mp hopen
  obtain ⟨n, hsafe, rfl⟩ := h j hj
  rw [readNote_json, okOr_some] at hread
  obtain rfl := Except.ok.inj hread
  exact ⟨hsafe, hj⟩

/-- What a fetch leaves in its SDK. -/
theorem Keeps.last (h : Keeps other K v b) {n : ℕ} {w : Waiting}
    (hw : b.waiting (.x402 n) = some w) {fetch : Note → Except String Unit × Option Note}
    (hfetch : ∀ note updated, note.Safe → (fetch note).2 = some updated → updated.Safe)
    (note : Note) (hnote : (fetch w.note).2.or (b.lastUpdatedNote n) = some note) :
    note.Safe := by
  rcases Option.or_eq_some_iff.mp hnote with hpaid | ⟨-, hlast⟩
  · exact hfetch w.note note (h.waiting _ w hw) hpaid
  · exact h.updated n note hlast

theorem Keeps.fetched (h : Keeps other K v b) {n : ℕ} {w : Waiting}
    (hw : b.waiting (.x402 n) = some w) {fetch : Note → Except String Unit × Option Note}
    (hfetch : ∀ note updated, note.Safe → (fetch note).2 = some updated → updated.Safe) :
    Keeps other K v ((b.setWaiting (.x402 n) none).setUpdatedNote n
      ((fetch w.note).2.or (b.lastUpdatedNote n))) :=
  (h.setWaiting fun _ hu => (by cases hu)).setUpdatedNote (h.last hw hfetch)

/-- **A step**: what is stored is kept, and what is not touched stays. -/
theorem Keeps.act (h : Keeps other K v b) {a : Action} {b' : Browser} {e : Effect}
    (hallowed : Allowed other K b a) (hact : Acts other K b a b' e) :
    Keeps other K (e.after v) b' := by
  cases hact with
  | failed => exact h
  | created hblob =>
      exact (h.seal safe_emptyNote hblob).setNote fun n hn => by
        cases hn
        exact safe_emptyNote
  | unlocked hblob hopen =>
      exact h.setNote fun n hn => by
        cases hn
        exact ((hallowed _ hblob).openNote hopen).1
  | backedUp hnote hblob => exact h.seal (h.notes _ _ hnote) hblob
  | restored hopen =>
      obtain ⟨hsafe, hdecrypt⟩ := Written.openNote hallowed hopen
      exact (h.save hsafe hdecrypt).setNote fun n hn => by
        cases hn
        exact hsafe
  | cleared => exact h.clear.setNote fun _ hn => (by cases hn)
  | submitted hblob hopen =>
      exact h.setWaiting fun u hu => by
        cases hu
        exact ((hallowed _ hblob).openNote hopen).1
  | notPaid => exact h.setWaiting fun _ hu => (by cases hu)
  | paid hw hpay hblob =>
      have hsafe := hallowed _ _ (h.waiting _ _ hw) hpay
      exact (h.setWaiting fun _ hu => (by cases hu)).seal hsafe hblob
  | notFetched hw => exact h.fetched hw hallowed
  | fetched hw hlast hblob =>
      exact (h.fetched hw hallowed).seal (h.last hw hallowed _ hlast) hblob

/-- Under the passphrase it was stored with, nothing else is opened. -/
theorem Keeps.written {passphrase blob : String} {note : Note}
    (h : Keeps other K (some (passphrase, note)) b) (hblob : b.loadEncryptedNote = some blob) :
    Written other K blob passphrase := by
  obtain ⟨hsafe, kept, hkept, hopen⟩ := h.opens passphrase note rfl
  obtain rfl := Option.some.inj (hkept.symm.trans hblob)
  intro j hj
  exact ⟨note, hsafe, Except.ok.inj (hj.symm.trans hopen)⟩

/-- And that is what a form opens. -/
theorem Keeps.opened {passphrase : String} {kept note : Note} {form : Form} {b' : Browser}
    (h : Keeps other K (some (passphrase, kept)) b)
    (hact : Acts other K b (.submit form passphrase) b' (.opened note)) : note = kept := by
  obtain ⟨-, blob, hblob, hkept⟩ := h.opens passphrase kept rfl
  cases hact with
  | submitted hload hopen =>
      obtain rfl := Option.some.inj (hblob.symm.trans hload)
      exact Except.ok.inj (hopen.symm.trans (openNote_json hkept))

theorem Keeps.submits {passphrase : String} {kept : Note} {form : Form}
    (h : Keeps other K (some (passphrase, kept)) b) (hidle : b.waiting form = none) :
    Web.act other K b (.submit form passphrase) =
      (b.setWaiting form (some ⟨passphrase, kept⟩), .opened kept) := by
  obtain ⟨-, blob, hblob, hkept⟩ := h.opens passphrase kept rfl
  rw [Web.act, unlockAndSetNote, hidle]
  simp only
  rw [hblob, okOr_some, ok_bind, openNote_json hkept, ok_bind, caught]

end Keeps

/-- A payment that is made is stored. -/
theorem act_pay {n : ℕ} {w : Waiting} {pay : Note → Except String Note} {draws : Salts}
    {updated : Note} (hw : b.waiting (.direct n) = some w) (hpay : pay w.note = .ok updated)
    (hsafe : updated.Safe) : ∃ blob, act other K b (.pay n pay draws) =
      ((b.setWaiting (.direct n) none).saveEncryptedNote blob, .stored w.passphrase updated) := by
  obtain ⟨blob, hblob⟩ : ∃ blob, encryptNote K draws.salt draws.nonce updated w.passphrase =
      .ok blob := ⟨_, encryptNote_eq_ok.mpr ⟨hsafe.1, rfl⟩⟩
  refine ⟨blob, ?_⟩
  rw [act, handlePay, hw]
  simp only
  rw [hpay, ok_bind, sealAgain, hblob, ok_bind, caught]

/-! ### Over a run -/

section Runs

variable {log : List (Action × Effect)}

theorem lastStored_append (log : List (Action × Effect)) (l : Action × Effect) :
    lastStored (log ++ [l]) = l.2.after (lastStored log) := by
  rw [lastStored, List.map_append, List.foldl_append]
  rfl

/-- While all is quiet the same note is kept. -/
theorem lastStored_quiet {since : List (Action × Effect)} (h : ∀ l ∈ since, l.2.Quiet) :
    lastStored (log ++ since) = lastStored log := by
  induction since using List.reverseRecOn with
  | nil => rw [List.append_nil]
  | append_singleton since l ih =>
      rw [← List.append_assoc, lastStored_append,
        ih fun l' hl' => h l' (List.mem_append_left _ hl')]
      have hquiet := h l (List.mem_append_right _ (List.mem_singleton_self l))
      cases hl : l.2 with
      | nothing => rfl
      | opened note => rfl
      | stored passphrase note =>
          rw [hl] at hquiet
          exact hquiet.elim
      | cleared =>
          rw [hl] at hquiet
          exact hquiet.elim

/-- **In every run** what is kept is what was stored last. -/
theorem keeps_of_run (h : BrowserRun other K log b) : Keeps other K (lastStored log) b := by
  refine h.invariant (fun log b => Keeps other K (lastStored log) b) ?_ ?_
  · rintro b rfl
    exact ⟨fun _ => rfl, fun _ _ hv => (by cases hv), fun _ _ hn => (by cases hn),
      fun _ _ hw => (by cases hw), fun _ _ hn => by cases hn⟩
  · intro log b l b' _ hkeeps hs
    rw [lastStored_append]
    obtain ⟨hallowed⟩ := hs
    exact hkeeps.act hallowed (acts _)

/-- Where the notes come from that the forms have. -/
structure Traced (log : List (Action × Effect)) (b : Browser) : Prop where
  waiting : ∀ form w, b.waiting form = some w →
    ∃ earlier since, log = earlier ++ (.submit form w.passphrase, .opened w.note) :: since
  updated : ∀ n note, b.lastUpdatedNote n = some note →
    ∃ fetch draws e opened, (.fetch n fetch draws, e) ∈ log ∧ (fetch opened).2 = some note

theorem Traced.later (h : Traced log b) (l : Action × Effect) : Traced (log ++ [l]) b := by
  refine ⟨fun form w hw => ?_, fun n note hn => ?_⟩
  · obtain ⟨earlier, since, rfl⟩ := h.waiting form w hw
    exact ⟨earlier, since ++ [l], by rw [List.append_assoc, List.cons_append]⟩
  · obtain ⟨fetch, draws, e, opened, hmem, hpaid⟩ := h.updated n note hn
    exact ⟨fetch, draws, e, opened, List.mem_append_left _ hmem, hpaid⟩

theorem Traced.idle (h : Traced log b) (form : Form) : Traced log (b.setWaiting form none) :=
  { h with waiting := update_some h.waiting fun _ hu => (by cases hu) }

theorem Traced.save (h : Traced log b) (blob : String) : Traced log (b.saveEncryptedNote blob) :=
  ⟨h.waiting, h.updated⟩

theorem Traced.fetched {n : ℕ} {w : Waiting} {fetch : Note → Except String Unit × Option Note}
    {draws : Salts} {e : Effect} (h : Traced log b) :
    Traced (log ++ [(.fetch n fetch draws, e)]) ((b.setWaiting (.x402 n) none).setUpdatedNote n
      ((fetch w.note).2.or (b.lastUpdatedNote n))) := by
  have hlater := (h.later (.fetch n fetch draws, e)).idle (.x402 n)
  refine { hlater with updated := update_some hlater.updated fun note hnote => ?_ }
  rcases Option.or_eq_some_iff.mp hnote with hpaid | ⟨-, hlast⟩
  · exact ⟨fetch, draws, e, w.note, List.mem_append_right _ (List.mem_singleton_self _), hpaid⟩
  · exact hlater.updated n note hlast

/-- A step adds to the log what a form opens, and what a fetch leaves. -/
theorem Traced.act (h : Traced log b) {a : Action} {b' : Browser} {e : Effect}
    (hact : Acts other K b a b' e) : Traced (log ++ [(a, e)]) b' := by
  have hlater := h.later (a, e)
  cases hact with
  | failed | unlocked _ _ | created _ | backedUp _ _ | restored _ | cleared =>
      exact ⟨hlater.waiting, hlater.updated⟩
  | submitted _ _ =>
      refine { hlater with waiting := update_some hlater.waiting fun u hu => ?_ }
      cases hu
      exact ⟨log, [], rfl⟩
  | notPaid => exact hlater.idle _
  | paid _ _ _ => exact (hlater.idle _).save _
  | notFetched _ => exact h.fetched
  | fetched _ _ _ => exact h.fetched.save _

theorem traced_of_run (h : BrowserRun other K log b) : Traced log b := by
  refine h.invariant Traced ?_ ?_
  · rintro b rfl
    exact ⟨fun _ _ hw => (by cases hw), fun _ _ hn => by cases hn⟩
  · intro log b l b' _ htraced hs
    obtain ⟨-⟩ := hs
    exact htraced.act (acts _)

/-- Each entry of a log is what an action does after a run. -/
theorem BrowserRun.acted {before later : List (Action × Effect)} {a : Action} {e : Effect}
    (h : BrowserRun other K (before ++ (a, e) :: later) b) :
    ∃ b₁ b₂, BrowserRun other K before b₁ ∧ Acts other K b₁ a b₂ e := by
  obtain ⟨b₁, b₂, hrun, hstep⟩ := h.step_of_log
  generalize hl : (a, e) = l at hstep
  obtain ⟨-⟩ := hstep
  obtain ⟨rfl, rfl⟩ := Prod.mk.inj hl
  exact ⟨b₁, _, hrun, acts _⟩

/-- A run goes on with an action. -/
theorem BrowserRun.acts (h : BrowserRun other K log b) {a : Action} {b' : Browser} {e : Effect}
    (hallowed : Allowed other K b a) (hact : act other K b a = (b', e)) :
    BrowserRun other K (log ++ [(a, e)]) b' := by
  have hstep := BrowserStep.act hallowed
  rw [hact] at hstep
  exact Run.snoc h hstep

/-- A form has opened what it has when it was submitted; where all has been quiet since then, that
is still the note that is kept. -/
theorem opened_of_waiting (h : BrowserRun other K log b) {form : Form} {w : Waiting}
    (hw : b.waiting form = some w) :
    ∃ earlier since, log = earlier ++ (.submit form w.passphrase, .opened w.note) :: since ∧
      ((∀ l ∈ since, l.2.Quiet) → ∀ kept, lastStored log = some (w.passphrase, kept) →
        w.note = kept) := by
  obtain ⟨earlier, since, rfl⟩ := (traced_of_run h).waiting form w hw
  refine ⟨earlier, since, rfl, fun hquiet kept hkept => ?_⟩
  obtain ⟨b₁, b₂, hrun, hact⟩ := BrowserRun.acted h
  rw [List.append_cons, lastStored_quiet hquiet, lastStored_append] at hkept
  have hkeeps := keeps_of_run hrun
  rw [show lastStored earlier = some (w.passphrase, kept) from hkept] at hkeeps
  exact hkeeps.opened hact

end Runs

/-! ### Payments -/

/-- The SDK's direct payment, of the note it is given. -/
def payDirectly (env : PoolEnv) (config : QietrSDKConfig) (recipient : Pubkey) (paymentMicro : ℤ)
    (feePayer : Option Pubkey) (net : PayNetwork) (submission : Submission) (note : Note) :
    Except String Note :=
  (payMicroExact env config ⟨some note, none, none⟩ recipient paymentMicro feePayer net
    submission).1.map PaymentResult.updatedNote

/-- It keeps the amounts safe. -/
theorem safe_payDirectly {env : PoolEnv} {config : QietrSDKConfig} {recipient : Pubkey}
    {paymentMicro : ℤ} {feePayer : Option Pubkey} {net : PayNetwork} {submission : Submission}
    {note updated : Note} (hsafe : note.Safe)
    (h : payDirectly env config recipient paymentMicro feePayer net submission note = .ok updated) :
    updated.Safe := by
  rw [payDirectly, payMicroExact] at h
  split at h
  · cases h
  · rename_i p hprepare
    split at h
    · cases h
    · obtain rfl := Except.ok.inj h
      obtain ⟨n, _, _, _, _, _, hn, -, hprepared⟩ := preparePayment_eq_ok.mp hprepare
      obtain rfl := Option.some.inj hn
      refine ⟨hsafe.1, fun c hc => ?_⟩
      rcases List.mem_append.mp hc with hc | hc
      · exact hsafe.2 c (List.mem_filter.mp hc).1
      · -- the change is less than the commitment
        have hmem := (mem_of_pickCommitment hprepared.pick).1
        obtain ⟨hamount, hdenom⟩ := hsafe.2 p.commitment hmem
        have hpos := hprepared.pos
        rw [Option.mem_toList, PreparedPayment.change?] at hc
        split_ifs at hc with hleft
        · cases hc
          refine ⟨?_, hdenom⟩
          rw [abs_of_pos hleft]
          have := (abs_le.mp hamount).2
          omega


/-- **The note on the device is kept.**  In every run of a browser, over all its tabs:

* what was stored last is opened under the passphrase it was stored with; nothing is there just when
  nothing was stored, or it was cleared;
* a form that is submitted under that passphrase opens that note, and a payment that is made is
  stored;
* what a direct payment stores is what the payment makes of the note that its form opened when it
  was submitted; where nothing was stored or cleared since then, that is the note that is kept, and
  no payment is lost;
* what an x402 payment stores is what it makes of the note that its form opened, or, where it pays
  nothing, a note that an earlier fetch has left;
* a direct payment of the SDK keeps the note's amounts safe, so that it is one of these. -/
theorem note_kept (other : List Char → JsonNumber) (K : Crypto) {log : List (Action × Effect)}
    {b : Browser} (h : BrowserRun other K log b) :
    (lastStored log = none ↔ b.loadEncryptedNote = none) ∧
    (∀ passphrase note, lastStored log = some (passphrase, note) → note.Safe ∧
      ∃ blob, b.loadEncryptedNote = some blob ∧
        decryptNote other K blob passphrase = .ok note.json ∧
        openNote other K blob passphrase = .ok note ∧
        ∀ form, b.waiting form = none → act other K b (.submit form passphrase) =
          (b.setWaiting form (some ⟨passphrase, note⟩), .opened note)) ∧
    (∀ n w pay draws updated, b.waiting (.direct n) = some w → pay w.note = .ok updated →
      Allowed other K b (.pay n pay draws) → ∃ blob, act other K b (.pay n pay draws) =
        ((b.setWaiting (.direct n) none).saveEncryptedNote blob, .stored w.passphrase updated)) ∧
    (∀ before later n pay draws passphrase updated,
      log = before ++ (.pay n pay draws, .stored passphrase updated) :: later →
      ∃ earlier since opened,
        before = earlier ++ (.submit (.direct n) passphrase, .opened opened) :: since ∧
        pay opened = .ok updated ∧
        ((∀ l ∈ since, l.2.Quiet) → ∀ kept, lastStored before = some (passphrase, kept) →
          pay kept = .ok updated)) ∧
    (∀ before later n fetch draws passphrase updated,
      log = before ++ (.fetch n fetch draws, .stored passphrase updated) :: later →
      ∃ earlier since opened,
        before = earlier ++ (.submit (.x402 n) passphrase, .opened opened) :: since ∧
        ((fetch opened).2 = some updated ∨ (fetch opened).2 = none ∧
          ∃ fetch' draws' e opened', (.fetch n fetch' draws', e) ∈ before ∧
            (fetch' opened').2 = some updated)) ∧
    ∀ env config recipient paymentMicro feePayer net submission (note updated : Note), note.Safe →
      payDirectly env config recipient paymentMicro feePayer net submission note = .ok updated →
        updated.Safe := by
  have hkeeps := keeps_of_run h
  refine ⟨⟨fun hv => ?_, fun hnone => ?_⟩, ?_, ?_, ?_, ?_, ?_⟩
  · rw [Browser.loadEncryptedNote, hkeeps.blob_none hv]
    rfl
  · cases hv : lastStored log with
    | none => rfl
    | some stored =>
        obtain ⟨-, blob, hblob, -⟩ := hkeeps.opens stored.1 stored.2 hv
        rw [hnone] at hblob
        cases hblob
  · intro passphrase note hv
    obtain ⟨hsafe, blob, hblob, hopen⟩ := hkeeps.opens passphrase note hv
    rw [hv] at hkeeps
    exact ⟨hsafe, blob, hblob, hopen, openNote_json hopen, fun form => hkeeps.submits⟩
  · intro n w pay draws updated hw hpay hallowed
    exact act_pay hw hpay (hallowed w.note updated (hkeeps.waiting _ w hw) hpay)
  · rintro before later n pay draws passphrase updated rfl
    obtain ⟨b₁, b₂, hrun, hact⟩ := BrowserRun.acted h
    cases hact with
    | @paid _ _ _ w _ _ hw hpay _ =>
        obtain ⟨earlier, since, hbefore, hkept⟩ := opened_of_waiting hrun hw
        refine ⟨earlier, since, w.note, hbefore, hpay, fun hquiet kept hlast => ?_⟩
        rw [← hkept hquiet kept hlast]
        exact hpay
  · rintro before later n fetch draws passphrase updated rfl
    obtain ⟨b₁, b₂, hrun, hact⟩ := BrowserRun.acted h
    cases hact with
    | @fetched _ _ _ w _ _ hw hlast _ =>
        obtain ⟨earlier, since, hbefore, -⟩ := opened_of_waiting hrun hw
        refine ⟨earlier, since, w.note, hbefore, ?_⟩
        rcases Option.or_eq_some_iff.mp hlast with hpaid | ⟨hnone, hstale⟩
        · exact .inl hpaid
        · exact .inr ⟨hnone, (traced_of_run hrun).updated n updated hstale⟩
  · intro env config recipient paymentMicro feePayer net submission note updated hsafe hpay
    exact safe_payDirectly hsafe hpay

/-- Two payments overlap: each is stored, and the second writes over what the first has left. -/
theorem note_kept_overlapping :
    ∃ (other : List Char → JsonNumber) (log : List (Action × Effect)) (b : Browser)
      (first second : Note), BrowserRun other tagged log b ∧
        .stored "pw" first ∈ log.map Prod.snd ∧ lastStored log = some ("pw", second) ∧
        first.commitments = [⟨"1", "2", 3, 0⟩] ∧ second.commitments = [⟨"4", "5", 6, 0⟩] ∧
        ∃ blob, b.loadEncryptedNote = some blob ∧ openNote other tagged blob "pw" = .ok second := by
  let other : List Char → JsonNumber := fun _ => .ofInt 0
  let draws : Salts := ⟨Bytes.zero 16, Bytes.zero 12⟩
  let first : Note := ⟨NOTE_VERSION, [⟨"1", "2", 3, 0⟩]⟩
  let second : Note := ⟨NOTE_VERSION, [⟨"4", "5", 6, 0⟩]⟩
  have hfirst : first.Safe := ⟨rfl, by simp [first]⟩
  have hsecond : second.Safe := ⟨rfl, by simp [second]⟩
  obtain ⟨blob, hblob⟩ : ∃ blob, encryptNote tagged draws.salt draws.nonce emptyNote "pw" =
      .ok blob := ⟨_, encryptNote_eq_ok.mpr ⟨rfl, rfl⟩⟩
  have hstart : BrowserRun other tagged [] Browser.fresh := .start rfl
  have hrun := hstart.acts (a := .create 0 "pw" draws) trivial
    (by rw [act, createNote, hblob, ok_bind, caught])
  have hkeeps : Keeps other tagged (some ("pw", emptyNote)) _ := keeps_of_run hrun
  have hrun := hrun.acts (a := .submit (.direct 0) "pw") (fun _ => hkeeps.written)
    (hkeeps.submits rfl)
  have hkeeps : Keeps other tagged (some ("pw", emptyNote)) _ := keeps_of_run hrun
  have hrun := hrun.acts (a := .submit (.direct 1) "pw") (fun _ => hkeeps.written)
    (hkeeps.submits rfl)
  have hallowed (paid : Note) (hpaid : paid.Safe) (note updated : Note) (_ : note.Safe)
      (h : Except.ok (ε := String) paid = .ok updated) : updated.Safe := Except.ok.inj h ▸ hpaid
  obtain ⟨blob₁, hpaid⟩ := (note_kept other tagged hrun).2.2.1 0 ⟨"pw", emptyNote⟩
    (fun _ => .ok first) draws first rfl rfl (hallowed first hfirst)
  have hrun := hrun.acts (a := .pay 0 (fun _ => .ok first) draws) (hallowed first hfirst) hpaid
  obtain ⟨blob₂, hpaid⟩ := (note_kept other tagged hrun).2.2.1 1 ⟨"pw", emptyNote⟩
    (fun _ => .ok second) draws second rfl rfl (hallowed second hsecond)
  have hrun := hrun.acts (a := .pay 1 (fun _ => .ok second) draws) (hallowed second hsecond) hpaid
  obtain ⟨-, sealed, hsealed, -, hopen, -⟩ := (note_kept other tagged hrun).2.1 "pw" second rfl
  exact ⟨other, _, _, first, second, hrun, by simp, rfl, rfl, rfl, sealed, hsealed, hopen⟩

end Qietr.Web
