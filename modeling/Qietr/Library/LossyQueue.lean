import Qietr.Library.Runs

/-!
# Library — a bounded queue that drops

Threads put events into a queue without waiting: one that finds it full drops the event.  A worker
takes them out in order and handles each at most once: one that fails is not tried again.

* `State`, `Label`, `Step`: what the threads still have to put, the queue, and the handler's state.
* `emitted`, `handled`, `lost`: what a log has put, handled, and dropped or failed.
* `accounted`: of every event that was put, each copy is still to come, in the queue, handled or
  lost.
* `state_of_run`: the handler's state is what the handled events have made of it, in that order.
* `handled_perm`: once all is quiet, and if nothing was lost, all was handled.
-/

namespace LossyQueue

variable {ε σ : Type*} {cap : ℕ} {serve : σ → ε → Option σ} {init : σ → Prop}

structure State (ε σ : Type*) where
  /-- What each thread still has to put. -/
  pending : List (List ε)
  queue : List ε
  handler : σ

inductive Label (ε : Type*) where
  | emit (es : List ε)
  | send (e : ε)
  | drop (e : ε)
  | handle (e : ε)
  | fail (e : ε)

/-- **One step.**  A handler may fail for reasons of its own. -/
inductive Step (cap : ℕ) (serve : σ → ε → Option σ) : State ε σ → Label ε → State ε σ → Prop
  | emit {st : State ε σ} (es : List ε) :
      Step cap serve st (.emit es) { st with pending := es :: st.pending }
  | send {st : State ε σ} {before after : List (List ε)} {e : ε} {es : List ε}
      (h : st.pending = before ++ (e :: es) :: after) (hroom : st.queue.length < cap) :
      Step cap serve st (.send e)
        { st with pending := before ++ es :: after, queue := st.queue ++ [e] }
  | drop {st : State ε σ} {before after : List (List ε)} {e : ε} {es : List ε}
      (h : st.pending = before ++ (e :: es) :: after) (hfull : cap ≤ st.queue.length) :
      Step cap serve st (.drop e) { st with pending := before ++ es :: after }
  | handle {st : State ε σ} {e : ε} {rest : List ε} {s' : σ} (h : st.queue = e :: rest)
      (hok : serve st.handler e = some s') :
      Step cap serve st (.handle e) { st with queue := rest, handler := s' }
  | fail {st : State ε σ} {e : ε} {rest : List ε} (h : st.queue = e :: rest) :
      Step cap serve st (.fail e) { st with queue := rest }

/-- Nothing to put, nothing in the queue. -/
def Start (init : σ → Prop) (st : State ε σ) : Prop :=
  st.pending = [] ∧ st.queue = [] ∧ init st.handler

/-! ### What a log has done -/

namespace Label

/-- What it puts, handles and loses. -/
def puts : Label ε → List ε
  | emit es => es
  | _ => []

def handles : Label ε → List ε
  | handle e => [e]
  | _ => []

def loses : Label ε → List ε
  | drop e | fail e => [e]
  | _ => []

end Label

def emitted (log : List (Label ε)) : List ε :=
  log.flatMap Label.puts

def handled (log : List (Label ε)) : List ε :=
  log.flatMap Label.handles

def lost (log : List (Label ε)) : List ε :=
  log.flatMap Label.loses

theorem emitted_snoc (log : List (Label ε)) (l : Label ε) :
    emitted (log ++ [l]) = emitted log ++ l.puts := by
  rw [emitted, List.flatMap_append, List.flatMap_singleton, emitted]

theorem handled_snoc (log : List (Label ε)) (l : Label ε) :
    handled (log ++ [l]) = handled log ++ l.handles := by
  rw [handled, List.flatMap_append, List.flatMap_singleton, handled]

theorem lost_snoc (log : List (Label ε)) (l : Label ε) :
    lost (log ++ [l]) = lost log ++ l.loses := by
  rw [lost, List.flatMap_append, List.flatMap_singleton, lost]

variable {log : List (Label ε)} {st : State ε σ}

/-- The first thread puts into an empty queue. -/
theorem Step.send_first {rest : List (List ε)} {e : ε} {es : List ε} {s : σ} (hcap : 0 < cap) :
    Step cap serve ⟨(e :: es) :: rest, [], s⟩ (.send e) ⟨es :: rest, [e], s⟩ :=
  @Step.send ε σ cap serve ⟨(e :: es) :: rest, [], s⟩ [] rest e es rfl hcap

/-- The queue is never longer than its bound. -/
theorem length_queue_le (h : Run (Start init) (Step cap serve) log st) : st.queue.length ≤ cap := by
  refine h.invariant (fun _ st => st.queue.length ≤ cap) (fun st hst => ?_)
    fun log st l st' _ hle hstep => ?_
  · rw [hst.2.1]
    exact Nat.zero_le cap
  · cases hstep with
    | emit => exact hle
    | send _ hroom =>
        rw [List.length_append]
        exact hroom
    | drop => exact hle
    | handle hqueue | fail hqueue =>
        rw [hqueue, List.length_cons] at hle
        exact (Nat.le_succ _).trans hle

/-- **Each copy is accounted for.** -/
theorem accounted (h : Run (Start init) (Step cap serve) log st) :
    (emitted log).Perm (st.pending.flatten ++ (st.queue ++ (handled log ++ lost log))) := by
  classical
  rw [List.perm_iff_count]
  intro a
  refine h.invariant (fun log st => (emitted log).count a =
    (st.pending.flatten ++ (st.queue ++ (handled log ++ lost log))).count a) (fun st hst => ?_)
    fun log st l st' _ heq hstep => ?_
  · rw [hst.1, hst.2.1]
    rfl
  · rw [emitted_snoc, handled_snoc, lost_snoc]
    simp only [List.count_append] at heq ⊢
    cases hstep with
    | emit es =>
        simp only [Label.puts, Label.handles, Label.loses, List.flatten_cons, List.count_append,
          List.count_nil]
        omega
    | send hpending _ | drop hpending _ =>
        rw [hpending] at heq
        simp only [Label.puts, Label.handles, Label.loses, List.flatten_append, List.flatten_cons,
          List.count_append, List.count_cons, List.count_nil] at heq ⊢
        omega
    | handle hqueue _ | fail hqueue =>
        rw [hqueue] at heq
        simp only [Label.puts, Label.handles, Label.loses, List.count_cons, List.count_nil] at heq ⊢
        omega

/-- **The handler's state** is what the handled events have made of it. -/
theorem state_of_run (h : Run (Start init) (Step cap serve) log st) :
    ∃ s, init s ∧ (handled log).foldlM serve s = some st.handler := by
  refine h.invariant (fun log st => ∃ s, init s ∧ (handled log).foldlM serve s = some st.handler)
    (fun st hst => ⟨st.handler, hst.2.2, rfl⟩) fun log st l st' _ hinv hstep => ?_
  obtain ⟨s, hs, hfold⟩ := hinv
  refine ⟨s, hs, ?_⟩
  rw [handled_snoc, List.foldlM_append, hfold]
  cases hstep with
  | handle hqueue hok => simpa [Label.handles] using hok
  | emit | send | drop | fail => simp [Label.handles]

/-- What is handled was put. -/
theorem mem_emitted_of_handled (h : Run (Start init) (Step cap serve) log st) {e : ε}
    (he : e ∈ handled log) : e ∈ emitted log := by
  rw [(accounted h).mem_iff]
  exact List.mem_append_right _ (List.mem_append_right _ (List.mem_append_left _ he))

/-- **Once all is quiet**, and if nothing was lost, all was handled. -/
theorem handled_perm (h : Run (Start init) (Step cap serve) log st)
    (hpending : st.pending.flatten = []) (hqueue : st.queue = []) (hlost : lost log = []) :
    (emitted log).Perm (handled log) := by
  have haccounted := accounted h
  rwa [hpending, hqueue, hlost, List.append_nil, List.nil_append, List.nil_append] at haccounted

end LossyQueue
