import MiniVisa.Server.Reversal
import Mathlib.Algebra.GroupWithZero.Nat
import Mathlib.Data.List.Nodup
import Mathlib.Logic.Unique

/-! # What becomes of a reversal

The history of a task is read off the run by its address: the answers to its aborts, the
counters it moved and how often it was taken. The invariant ties the history of every task
that is queued, held or gone to its own fields. It holds of all runs and shows the weakness:
an attempt counts as a success whatever clearing answered.
-/

namespace MiniVisa.Reversal

set_option autoImplicit false

open Interaction Transition Text ClearingParticipant

inductive Note
  | answered (txnId : Bytes) (ok : Bool)
  | succeeded
  | failed
  deriving DecidableEq

def note : SysEvent → List Note
  | ⟨.clearing p, r⟩ =>
    if p.action = .abort then [.answered p.transactionId (r.result == 0 && r.statusOk)] else []
  | ⟨.metric .reversalSucceeded, _⟩ => [.succeeded]
  | ⟨.metric .reversalFailed, _⟩ => [.failed]
  | _ => []

abbrev observe : Observer Sys.Ans (List Note) := .collect (fun _ => True) note

def Ends (env : Env) (task : ReversalTask) : Outcome → List Note → Prop
  | .succeeded, seen => ∃ ok, seen = [.answered task.txnId.val ok, .succeeded]
  | .failed, seen => seen = [.failed] ∧ maxAttempts env ≤ task.attempts + 1
  | .retry t, seen => seen = [] ∧ t.address = task.address ∧ t.txnId = task.txnId ∧
      t.attempts = task.attempts + 1 ∧ t.attempts < maxAttempts env

section Steps

variable {s : List Note}

@[simp] theorem wp_clearingLog (level : Level) (txnId : Bytes) (status : String)
    (Q : Unit → List Note → Prop) :
    (ClearingParticipant.log level txnId status).wp observe Q s ↔ Q () s := by
  simp [ClearingParticipant.log, Observer.collect, note, Unique.forall_iff]

@[simp] theorem wp_log (level : Level) (txnId : Bytes) (status : String)
    (Q : Unit → List Note → Prop) : (log level txnId status).wp observe Q s ↔ Q () s := by
  simp [log, Observer.collect, note, Unique.forall_iff]

/-- The abort callback sends one request and returns 0 whatever the answer is. -/
theorem wp_clearingParticipantAbort (ctx : ClearingParticipantContext) (txnId : Bytes) :
    (clearingParticipantAbort ctx txnId).wp observe (fun r seen =>
      r.1 = 0 ∧ r.2.hasHold = false ∧ ∃ ok, seen = s ++ [.answered txnId ok]) s := by
  have hSend : ∀ Q : ClearingAnswer → List Note → Prop,
      (request (payload ctx .abort txnId)).wp observe Q s ↔
        ∀ answer, Q answer (s ++ [.answered txnId (answer.result == 0 && answer.statusOk)]) := by
    simp [request, payload, Observer.collect, note]
  unfold clearingParticipantAbort
  split <;> simp only [Prog.wp_bind, wp_clearingLog, hSend]
  all_goals
    intro answer
    split <;> simp only [Prog.wp_bind, wp_clearingLog, Prog.wp_pure]
    · exact ⟨trivial, trivial, _, rfl⟩
    · exact ⟨trivial, trivial, _, rfl⟩

theorem wp_sendAbort (task : ReversalTask) :
    (sendAbort task).wp observe (fun rc seen =>
      (rc = none ∧ seen = s) ∨
      (rc = some 0 ∧ ∃ ok, seen = s ++ [.answered task.txnId.val ok])) s := by
  simp only [sendAbort, clearingParticipantInit, Prog.wp_bind, Prog.wp_perform]
  intro allocated _
  cases allocated with
  | false => simp [Observer.collect, note]
  | true =>
    simp only [if_true, Prog.wp_bind, Prog.wp_perform]
    intro now _
    have hQuiet : observe.next (observe.next s ⟨.malloc, true⟩) ⟨.time, now⟩ = s := by
      simp [Observer.collect, note]
    rw [hQuiet]
    simp only [Prog.wp_pure, clearingParticipantSetTransaction, Prog.wp_bind, wp_clearingLog]
    refine Prog.wp_mono _ ?_ (wp_clearingParticipantAbort _ _)
    rintro ⟨rc, ctx⟩ seen ⟨hRc, hHold, ok, rfl⟩
    -- the hold flag is clear, so destroying the context sends nothing more
    have hDestroy : clearingParticipantDestroy ctx = pure ctx := if_neg (by simpa using hHold)
    simp only [hDestroy, Prog.wp_pure]
    exact .inr ⟨congrArg some hRc, ok, rfl⟩

end Steps

theorem wp_attempt (env : Env) (task : ReversalTask) :
    (attempt env task).wp observe (Ends env task) [] := by
  simp only [attempt, Prog.wp_bind]
  refine Prog.wp_mono _ ?_ (wp_sendAbort task)
  rintro rc seen (⟨rfl, rfl⟩ | ⟨rfl, ok, rfl⟩)
  · rw [if_neg (by simp)]
    split
    · rename_i hMax
      simp only [Prog.wp_bind, wp_log, Prog.wp_perform, Prog.wp_pure]
      intro _ _
      exact ⟨rfl, hMax⟩
    · rename_i hMax
      simp only [Prog.wp_bind, Prog.wp_perform, Prog.wp_pure]
      intro now _
      exact ⟨rfl, rfl, rfl, rfl, Nat.lt_of_not_le hMax⟩
  · rw [if_pos rfl]
    simp only [Prog.wp_bind, wp_log, Prog.wp_perform, Prog.wp_pure]
    intro _ _
    exact ⟨ok, rfl⟩

def noteOf (a : Nat) : Label → List Note
  | .worked b event => if b = a then note event else []
  | _ => []

def takesOf (a : Nat) : Label → Nat
  | .taken b => if b = a then 1 else 0
  | _ => 0

def notes (a : Nat) (tr : List Label) : List Note := tr.flatMap (noteOf a)

def takes (a : Nat) (tr : List Label) : Nat := (tr.map (takesOf a)).sum

@[simp] theorem notes_snoc (a : Nat) (tr : List Label) (l : Label) :
    notes a (tr ++ [l]) = notes a tr ++ noteOf a l := by
  simp [notes]

@[simp] theorem takes_snoc (a : Nat) (tr : List Label) (l : Label) :
    takes a (tr ++ [l]) = takes a tr + takesOf a l := by
  simp [takes]

def Machine.held (m : Machine) : List ReversalTask :=
  match m.worker with
  | .busy task _ => [task]
  | _ => []

def Machine.live (m : Machine) : List ReversalTask := m.held ++ m.head

theorem queuePopReady_perm {now : Int} {queue rest : List ReversalTask} {task : ReversalTask}
    (h : queuePopReady now queue = some (task, rest)) : (task :: rest).Perm queue := by
  induction queue generalizing rest with
  | nil => cases h
  | cons t queue ih =>
    unfold queuePopReady at h
    split at h
    · cases h
      exact .refl _
    · obtain ⟨⟨t', rest'⟩, hPop, hEq⟩ := Option.map_eq_some_iff.mp h
      cases hEq
      exact (List.Perm.swap _ _ _).trans ((ih hPop).cons _)

def Enqueued (tr : List Label) (a : Nat) (txnId : TxnId) : Prop :=
  ∃ t, .enqueued t ∈ tr ∧ t.address = a ∧ t.txnId = txnId

/-- A task that is not live any more: released, or dropped by the shutdown. -/
def Gone (env : Env) (tr : List Label) (a : Nat) : Prop :=
  notes a tr = [] ∨
  (∃ txnId ok, Enqueued tr a txnId ∧ notes a tr = [.answered txnId.val ok, .succeeded]) ∨
  (notes a tr = [.failed] ∧ takes a tr = maxAttempts env)

structure Tracked (env : Env) (tr : List Label) (m : Machine) : Prop where
  nodup : (m.live.map (·.address)).Nodup
  bounded : ∀ t ∈ m.live, t.address < m.allocated
  limit : ∀ t ∈ m.live, t.attempts < maxAttempts env
  origin : ∀ t ∈ m.live, Enqueued tr t.address t.txnId
  queued : ∀ t ∈ m.head, notes t.address tr = [] ∧ takes t.address tr = t.attempts
  busy : ∀ t p, m.worker = .busy t p → takes t.address tr = t.attempts + 1 ∧
    p.wp observe (Ends env t) (notes t.address tr)
  gone : ∀ a, a ∉ m.live.map (·.address) → Gone env tr a
  fresh : ∀ a, m.allocated ≤ a → notes a tr = [] ∧ takes a tr = 0

theorem Enqueued.snoc {tr : List Label} {a : Nat} {txnId : TxnId} (h : Enqueued tr a txnId)
    (l : Label) : Enqueued (tr ++ [l]) a txnId := by
  obtain ⟨t, ht, hEq⟩ := h
  exact ⟨t, List.mem_append_left _ ht, hEq⟩

theorem Gone.snoc {env : Env} {tr : List Label} {a : Nat} (h : Gone env tr a) {l : Label}
    (hNote : noteOf a l = []) (hTake : takesOf a l = 0) : Gone env (tr ++ [l]) a := by
  rcases h with h | ⟨txnId, ok, hEnq, h⟩ | ⟨h, hTakes⟩
  · exact .inl (by simp [h, hNote])
  · exact .inr (.inl ⟨txnId, ok, hEnq.snoc l, by simp [h, hNote]⟩)
  · exact .inr (.inr ⟨by simp [h, hNote], by simp [hTakes, hTake]⟩)

theorem tracked_initial (env : Env) : Tracked env [] .initial where
  nodup := List.nodup_nil
  bounded t ht := by cases ht
  limit t ht := by cases ht
  origin t ht := by cases ht
  queued t ht := by cases ht
  busy t p h := by cases h
  gone a _ := .inl rfl
  fresh a _ := ⟨rfl, rfl⟩

section Preserved

variable {env : Env} {tr : List Label} {m : Machine}

theorem address_ne {task t : ReversalTask} {ts : List ReversalTask}
    (hNodup : ((task :: ts).map (·.address)).Nodup) (ht : t ∈ ts) : task.address ≠ t.address := by
  rw [List.map_cons, List.nodup_cons] at hNodup
  exact fun hEq => hNodup.1 (hEq ▸ List.mem_map_of_mem ht)

theorem Tracked.address_ne_fresh (h : Tracked env tr m) {t : ReversalTask} (ht : t ∈ m.live) {a : Nat}
    (ha : m.allocated ≤ a) : t.address ≠ a := ((h.bounded t ht).trans_le ha).ne

theorem Tracked.enqueue (h : Tracked env tr m) (request : ReversalRequest) (now : Int) :
    Tracked env (tr ++ [.enqueued (newTask m.allocated request now)]) (m.push request now) := by
  have hLive : (m.push request now).live = m.live ++ [newTask m.allocated request now] := by
    simp [Machine.live, Machine.held, Machine.push, queuePush]
  have hNew : m.allocated ∉ m.live.map (·.address) := by
    intro hMem
    obtain ⟨t, ht, hEq⟩ := List.mem_map.mp hMem
    exact h.address_ne_fresh ht le_rfl hEq
  refine ⟨?_, ?_, ?_, ?_, ?_, ?_, ?_, ?_⟩
  · rw [hLive, List.map_append, List.map_singleton]
    exact List.nodup_append_comm.mp (List.nodup_cons.mpr ⟨hNew, h.nodup⟩)
  · intro t ht
    rw [hLive, List.mem_append, List.mem_singleton] at ht
    rcases ht with ht | rfl
    · exact Nat.lt_succ_of_lt (h.bounded t ht)
    · exact Nat.lt_succ_self _
  · intro t ht
    rw [hLive, List.mem_append, List.mem_singleton] at ht
    rcases ht with ht | rfl
    · exact h.limit t ht
    · exact maxAttempts_pos env
  · intro t ht
    rw [hLive, List.mem_append, List.mem_singleton] at ht
    rcases ht with ht | rfl
    · exact (h.origin t ht).snoc _
    · exact ⟨_, List.mem_append_right _ List.mem_cons_self, rfl, rfl⟩
  · intro t ht
    rcases List.mem_append.mp ht with ht | ht
    · simpa [noteOf, takesOf] using h.queued t ht
    · cases List.mem_singleton.mp ht
      simpa [noteOf, takesOf, newTask] using h.fresh m.allocated (Nat.le_refl _)
  · intro t p hWorker
    simpa [noteOf, takesOf] using h.busy t p hWorker
  · intro a ha
    refine (h.gone a fun hMem => ha ?_).snoc rfl rfl
    rw [hLive, List.map_append]
    exact List.mem_append_left _ hMem
  · intro a ha
    simpa [noteOf, takesOf] using h.fresh a (Nat.le_of_succ_le ha)

theorem Tracked.take (h : Tracked env tr m) (hIdle : m.worker = .idle) {now : Int}
    {task : ReversalTask} {rest : List ReversalTask}
    (hPop : queuePopReady now m.head = some (task, rest)) :
    Tracked env (tr ++ [.taken task.address])
      { m with head := rest, worker := .busy task (attempt env task) } := by
  have hPerm := queuePopReady_perm hPop
  have hHead : m.live = m.head := by simp [Machine.live, Machine.held, hIdle]
  have hLive : ({ m with head := rest, worker := .busy task (attempt env task) } : Machine).live =
      task :: rest := rfl
  have hMem : ∀ {t}, t ∈ task :: rest ↔ t ∈ m.head := hPerm.mem_iff
  have hNodup : ((task :: rest).map (·.address)).Nodup :=
    (hPerm.map _).nodup_iff.mpr (hHead ▸ h.nodup)
  obtain ⟨hNotes, hTakes⟩ := h.queued task (hMem.mp List.mem_cons_self)
  refine ⟨hLive ▸ hNodup, ?_, ?_, ?_, ?_, ?_, ?_, ?_⟩
  · intro t ht
    exact h.bounded t (hHead ▸ hMem.mp ht)
  · intro t ht
    exact h.limit t (hHead ▸ hMem.mp ht)
  · intro t ht
    exact (h.origin t (hHead ▸ hMem.mp ht)).snoc _
  · intro t ht
    have hne := address_ne hNodup ht
    simpa [noteOf, takesOf, hne] using h.queued t (hMem.mp (List.mem_cons_of_mem _ ht))
  · intro t p hWorker
    cases hWorker
    refine ⟨by simp [takesOf, hTakes], ?_⟩
    simpa [noteOf, hNotes] using wp_attempt env task
  · intro a ha
    have hne : task.address ≠ a := fun hEq => ha (by rw [hLive]; exact hEq ▸ List.mem_cons_self)
    refine (h.gone a fun hMem' => ha ?_).snoc rfl (by simp [takesOf, hne])
    rw [hHead] at hMem'
    exact (hPerm.map _).mem_iff.mpr hMem'
  · intro a ha
    have hne := h.address_ne_fresh (hHead ▸ hMem.mp List.mem_cons_self) ha
    simpa [noteOf, takesOf, hne] using h.fresh a ha

theorem Tracked.work (h : Tracked env tr m) {task : ReversalTask} {e : Sys}
    {k : e.Ans → SysProg Outcome} (hBusy : m.worker = .busy task (.call e k)) (r : e.Ans) :
    Tracked env (tr ++ [.worked task.address ⟨e, r⟩]) { m with worker := .busy task (k r) } := by
  have hLive : ({ m with worker := .busy task (k r) } : Machine).live = m.live := by
    simp [Machine.live, Machine.held, hBusy]
  have hCons : m.live = task :: m.head := by simp [Machine.live, Machine.held, hBusy]
  obtain ⟨hTakes, hWp⟩ := h.busy task _ hBusy
  refine ⟨hLive ▸ h.nodup, hLive ▸ h.bounded, hLive ▸ h.limit, ?_, ?_, ?_, ?_, ?_⟩
  · intro t ht
    exact (h.origin t (hLive ▸ ht)).snoc _
  · intro t ht
    have hne := address_ne (hCons ▸ h.nodup) ht
    simpa [noteOf, takesOf, hne] using h.queued t ht
  · intro t p hWorker
    cases hWorker
    exact ⟨by simpa [takesOf] using hTakes, by simpa [noteOf, Observer.collect] using hWp r trivial⟩
  · intro a ha
    rw [hLive] at ha
    have hne : task.address ≠ a := fun hEq => ha (by rw [hCons]; exact hEq ▸ List.mem_cons_self)
    exact (h.gone a ha).snoc (by simp [noteOf, hne]) rfl
  · intro a ha
    have hne := h.address_ne_fresh (hCons ▸ List.mem_cons_self) ha
    simpa [noteOf, takesOf, hne] using h.fresh a ha

/-- What a task put back inherits. -/
theorem Tracked.requeued (h : Tracked env tr m) {task : ReversalTask} {outcome : Outcome}
    (hBusy : m.worker = .busy task (.ret outcome)) {t : ReversalTask} (ht : t ∈ outcome.requeued) :
    t.address = task.address ∧ t.txnId = task.txnId ∧ t.attempts < maxAttempts env ∧
      notes t.address tr = [] ∧ takes t.address tr = t.attempts := by
  obtain ⟨hTakes, hEnds⟩ := h.busy task _ hBusy
  cases outcome with
  | succeeded => cases ht
  | failed => cases ht
  | retry t' =>
    cases List.mem_singleton.mp ht
    obtain ⟨hNil, hAddress, hId, hAttempts, hLimit⟩ := hEnds
    refine ⟨hAddress, hId, hLimit, ?_, ?_⟩
    · rw [hAddress]
      exact hNil
    · rw [hAddress, hTakes, hAttempts]

/-- What is on record of the task of an attempt that is over. -/
theorem Tracked.attempted (h : Tracked env tr m) {task : ReversalTask} {outcome : Outcome}
    (hBusy : m.worker = .busy task (.ret outcome)) (hTask : task ∈ m.live) :
    Gone env tr task.address := by
  obtain ⟨hTakes, hEnds⟩ := h.busy task _ hBusy
  cases outcome with
  | succeeded =>
    obtain ⟨ok, hNotes⟩ := hEnds
    exact .inr (.inl ⟨task.txnId, ok, h.origin task hTask, hNotes⟩)
  | failed =>
    have hLimit := h.limit task hTask
    obtain ⟨hNotes, hMax⟩ := hEnds
    exact .inr (.inr ⟨hNotes, by omega⟩)
  | retry t' => exact .inl hEnds.1

theorem Tracked.finish (h : Tracked env tr m) {task : ReversalTask} {outcome : Outcome}
    (hBusy : m.worker = .busy task (.ret outcome)) :
    Tracked env (tr ++ [.ended task.address outcome])
      { m with head := m.head ++ outcome.requeued, worker := .idle } := by
  have hCons : m.live = task :: m.head := by simp [Machine.live, Machine.held, hBusy]
  have hLive : ({ m with head := m.head ++ outcome.requeued, worker := .idle } : Machine).live =
      m.head ++ outcome.requeued := rfl
  have hTask : task ∈ m.live := hCons ▸ List.mem_cons_self
  have hOld : ∀ t ∈ m.head, t ∈ m.live := fun t ht => hCons ▸ List.mem_cons_of_mem _ ht
  have hBack := fun t ht => h.requeued hBusy (t := t) ht
  constructor
  case nodup =>
    have hNodup := h.nodup
    rw [hCons, List.map_cons] at hNodup
    rw [hLive, List.map_append]
    cases outcome with
    | succeeded => simpa [Outcome.requeued] using hNodup.of_cons
    | failed => simpa [Outcome.requeued] using hNodup.of_cons
    | retry t' =>
      rw [Outcome.requeued, List.map_singleton, (hBack t' List.mem_cons_self).1]
      exact List.nodup_append_comm.mp hNodup
  case bounded =>
    intro t ht
    rcases List.mem_append.mp (hLive ▸ ht) with ht | ht
    · exact h.bounded t (hOld t ht)
    · rw [(hBack t ht).1]
      exact h.bounded task hTask
  case limit =>
    intro t ht
    rcases List.mem_append.mp (hLive ▸ ht) with ht | ht
    · exact h.limit t (hOld t ht)
    · exact (hBack t ht).2.2.1
  case origin =>
    intro t ht
    rcases List.mem_append.mp (hLive ▸ ht) with ht | ht
    · exact (h.origin t (hOld t ht)).snoc _
    · rw [(hBack t ht).1, (hBack t ht).2.1]
      exact (h.origin task hTask).snoc _
  case queued =>
    intro t ht
    rcases List.mem_append.mp ht with ht | ht
    · simpa [noteOf, takesOf] using h.queued t ht
    · simpa [noteOf, takesOf] using (hBack t ht).2.2.2
  case busy =>
    intro t p hWorker
    cases hWorker
  case gone =>
    intro a ha
    rw [hLive, List.map_append, List.mem_append, not_or] at ha
    by_cases hEq : a = task.address
    · subst hEq
      exact (h.attempted hBusy hTask).snoc rfl rfl
    · refine (h.gone a ?_).snoc rfl rfl
      rw [hCons, List.map_cons, List.mem_cons, not_or]
      exact ⟨hEq, ha.1⟩
  case fresh =>
    intro a ha
    simpa [noteOf, takesOf] using h.fresh a ha

theorem Tracked.drain (h : Tracked env tr m) (hExited : m.worker = .exited) :
    Tracked env (tr ++ [.drained]) { m with head := [] } := by
  have hHead : m.live = m.head := by simp [Machine.live, Machine.held, hExited]
  have hLive : ({ m with head := [] } : Machine).live = [] := by
    simp [Machine.live, Machine.held, hExited]
  refine ⟨by simp [hLive], by simp [hLive], by simp [hLive], by simp [hLive], ?_, ?_, ?_, ?_⟩
  · intro t ht
    cases ht
  · intro t p hWorker
    rw [hExited] at hWorker
    cases hWorker
  · intro a _
    refine Gone.snoc ?_ rfl rfl
    by_cases ha : a ∈ m.live.map (·.address)
    · rw [hHead] at ha
      obtain ⟨t, ht, rfl⟩ := List.mem_map.mp ha
      exact .inl (h.queued t ht).1
    · exact h.gone a ha
  · intro a ha
    simpa [noteOf, takesOf] using h.fresh a ha

theorem Tracked.idle (h : Tracked env tr m) {m' : Machine} {l : Label}
    (hLive : m'.live = m.live) (hHead : m'.head = m.head) (hAllocated : m'.allocated = m.allocated)
    (hBusy : ∀ t p, m'.worker = .busy t p → m.worker = .busy t p)
    (hNote : ∀ a, noteOf a l = []) (hTake : ∀ a, takesOf a l = 0) :
    Tracked env (tr ++ [l]) m' where
  nodup := hLive ▸ h.nodup
  bounded := by rw [hLive, hAllocated]; exact h.bounded
  limit := hLive ▸ h.limit
  origin t ht := (h.origin t (hLive ▸ ht)).snoc l
  queued t ht := by simpa [hNote, hTake] using h.queued t (hHead ▸ ht)
  busy t p hWorker := by simpa [hNote, hTake] using h.busy t p (hBusy t p hWorker)
  gone a ha := (h.gone a (hLive ▸ ha)).snoc (hNote a) (hTake a)
  fresh a ha := by simpa [hNote, hTake] using h.fresh a (hAllocated ▸ ha)

theorem Tracked.step (h : Tracked env tr m) {l : Label} {m' : Machine} (hStep : Step env m l m') :
    Tracked env (tr ++ [l]) m' := by
  cases hStep with
  | enqueue request now => exact h.enqueue request now
  | take now hIdle hPop => exact h.take hIdle hPop
  | work r hBusy => exact h.work hBusy r
  | finish hBusy => exact h.finish hBusy
  | shutdown => exact h.idle rfl rfl rfl (fun _ _ hw => hw) (fun _ => rfl) (fun _ => rfl)
  | exit hIdle _ _ =>
    refine h.idle ?_ rfl rfl (fun _ _ hw => ?_) (fun _ => rfl) (fun _ => rfl)
    · simp [Machine.live, Machine.held, hIdle]
    · cases hw
  | drain hExited => exact h.drain hExited

end Preserved

theorem run_tracked {env : Env} {tr : List Label} {m : Machine}
    (hRun : Run (Step env) .initial tr m) : Tracked env tr m :=
  hRun.invariant (tracked_initial env) fun h hStep => h.step hStep

def Acknowledged (tr : List Label) (a : Nat) : Prop :=
  ∃ txnId p r, Enqueued tr a txnId ∧ .worked a ⟨.clearing p, r⟩ ∈ tr ∧ p.action = .abort ∧
    p.transactionId = txnId.val ∧ r.result = 0 ∧ r.statusOk = true

/-- No reversal is dropped unacknowledged. -/
structure Accounted (env : Env) (tr : List Label) (m : Machine) : Prop where
  succeeded : ∀ a, .worked a ⟨.metric .reversalSucceeded, ()⟩ ∈ tr ∨ .ended a .succeeded ∈ tr →
    Acknowledged tr a
  failed : ∀ a, .worked a ⟨.metric .reversalFailed, ()⟩ ∈ tr ∨ .ended a .failed ∈ tr →
    takes a tr = maxAttempts env ∧ ¬Acknowledged tr a
  requeued : ∀ before a outcome, tr = before ++ [.ended a outcome] → ¬Acknowledged tr a →
    takes a tr < maxAttempts env → a ∈ m.head.map (·.address)

theorem Tracked.history {env : Env} {tr : List Label} {m : Machine} (h : Tracked env tr m)
    (a : Nat) : ∃ rest, notes a tr ++ rest = [] ∨
      (∃ txnId ok, Enqueued tr a txnId ∧
        notes a tr ++ rest = [.answered txnId.val ok, .succeeded]) ∨
      (notes a tr ++ rest = [.failed] ∧ takes a tr = maxAttempts env) := by
  by_cases hLive : a ∈ m.live.map (·.address)
  · obtain ⟨t, ht, rfl⟩ := List.mem_map.mp hLive
    rcases List.mem_append.mp ht with hHeld | hQueued
    · have hBusy : ∃ p, m.worker = .busy t p := by
        unfold Machine.held at hHeld
        split at hHeld
        · rename_i task p hw
          cases List.mem_singleton.mp hHeld
          exact ⟨p, hw⟩
        · cases hHeld
      obtain ⟨p, hBusy⟩ := hBusy
      obtain ⟨hTakes, hWp⟩ := h.busy t p hBusy
      have hLimit := h.limit t ht
      obtain ⟨outcome, rest, hEnds⟩ := hWp.exists_final fun e => ⟨e.calm, trivial⟩
      refine ⟨rest, ?_⟩
      cases outcome with
      | succeeded =>
        obtain ⟨ok, hEq⟩ := hEnds
        exact .inr (.inl ⟨t.txnId, ok, h.origin t ht, hEq⟩)
      | failed => exact .inr (.inr ⟨hEnds.1, by have := hEnds.2; omega⟩)
      | retry t' => exact .inl hEnds.1
    · exact ⟨[], .inl (by simp [(h.queued t hQueued).1])⟩
  · refine ⟨[], ?_⟩
    rw [List.append_nil]
    exact h.gone a hLive

theorem mem_notes_of_worked {tr : List Label} {a : Nat} {event : SysEvent} {n : Note}
    (h : .worked a event ∈ tr) (hn : n ∈ note event) : n ∈ notes a tr :=
  List.mem_flatMap.mpr ⟨_, h, by simpa [noteOf] using hn⟩

theorem answered_mem_notes {tr : List Label} {a : Nat} {txnId : Bytes} {ok : Bool}
    (h : .answered txnId ok ∈ notes a tr) :
    ∃ p r, .worked a ⟨.clearing p, r⟩ ∈ tr ∧ p.action = .abort ∧ p.transactionId = txnId ∧
      ok = (r.result == 0 && r.statusOk) := by
  obtain ⟨l, hl, hn⟩ := List.mem_flatMap.mp h
  cases l with
  | worked b event =>
    simp only [noteOf] at hn
    split at hn
    · rename_i hEq
      subst hEq
      obtain ⟨op, r⟩ := event
      cases op with
      | clearing p =>
        simp only [note] at hn
        split at hn
        · rename_i hAbort
          obtain ⟨hId, hOk⟩ := Note.answered.inj (List.mem_singleton.mp hn)
          exact ⟨p, r, hl, hAbort, hId.symm, hOk⟩
        · cases hn
      | metric c => cases c <;> simp [note] at hn
      | _ => simp [note] at hn
    · cases hn
  | _ => cases hn

theorem ended_mem_notes {env : Env} {tr : List Label} {m : Machine}
    (hRun : Run (Step env) .initial tr m) (a : Nat) :
    (.ended a .succeeded ∈ tr → .succeeded ∈ notes a tr) ∧
    (.ended a .failed ∈ tr → .failed ∈ notes a tr) := by
  induction hRun with
  | nil => simp
  | @snoc tr m m' l hPrev hStep ih =>
    have hTracked := run_tracked hPrev
    rw [notes_snoc]
    constructor
    · intro h
      rcases List.mem_append.mp h with h | h
      · exact List.mem_append_left _ (ih.1 h)
      · cases List.mem_singleton.mp h
        cases hStep with
        | finish hBusy =>
          obtain ⟨ok, hEq⟩ := (hTracked.busy _ _ hBusy).2
          simp [hEq]
    · intro h
      rcases List.mem_append.mp h with h | h
      · exact List.mem_append_left _ (ih.2 h)
      · cases List.mem_singleton.mp h
        cases hStep with
        | finish hBusy =>
          obtain ⟨hEq, -⟩ := (hTracked.busy _ _ hBusy).2
          simp [hEq]

section Verdicts

variable {env : Env} {tr : List Label} {m : Machine}

theorem Tracked.succeeded_answered (h : Tracked env tr m) {a : Nat}
    (hCounted : .succeeded ∈ notes a tr) :
    ∃ txnId ok, Enqueued tr a txnId ∧ .answered txnId.val ok ∈ notes a tr := by
  obtain ⟨rest, hNil | ⟨txnId, ok, hEnq, hEq⟩ | ⟨hEq, -⟩⟩ := h.history a
  · rw [List.append_eq_nil_iff.mp hNil |>.1] at hCounted
    cases hCounted
  · refine ⟨txnId, ok, hEnq, ?_⟩
    cases hNotes : notes a tr with
    | nil => rw [hNotes] at hCounted; cases hCounted
    | cons n ns =>
      rw [hNotes, List.cons_append] at hEq
      rw [(List.cons.inj hEq).1]
      exact List.mem_cons_self
  · have hMem := List.mem_append_left rest hCounted
    rw [hEq] at hMem
    cases List.mem_singleton.mp hMem

theorem Tracked.failed_exhausted (h : Tracked env tr m) {a : Nat}
    (hCounted : .failed ∈ notes a tr) :
    takes a tr = maxAttempts env ∧ ∀ txnId ok, .answered txnId ok ∉ notes a tr := by
  obtain ⟨rest, hNil | ⟨txnId, ok, hEnq, hEq⟩ | ⟨hEq, hTakes⟩⟩ := h.history a
  · rw [List.append_eq_nil_iff.mp hNil |>.1] at hCounted
    cases hCounted
  · have hMem := List.mem_append_left rest hCounted
    rw [hEq] at hMem
    simp at hMem
  · refine ⟨hTakes, fun txnId ok hAnswered => ?_⟩
    have hMem := List.mem_append_left rest hAnswered
    rw [hEq] at hMem
    cases List.mem_singleton.mp hMem

/-- An abort of the worker carries the id its task was enqueued with. -/
theorem abort_enqueued (hRun : Run (Step env) .initial tr m) {a : Nat} {p : ClearingPayload}
    {r : ClearingAnswer} (h : .worked a ⟨.clearing p, r⟩ ∈ tr) (hAbort : p.action = .abort) :
    ∃ t, .enqueued t ∈ tr ∧ t.address = a ∧ p.transactionId = t.txnId.val := by
  have hNote : .answered p.transactionId (r.result == 0 && r.statusOk) ∈ notes a tr :=
    mem_notes_of_worked h (by simp [note, hAbort])
  obtain ⟨rest, hNil | ⟨txnId, ok, ⟨t, ht, hAddress, hId⟩, hEq⟩ | ⟨hEq, -⟩⟩ :=
    (run_tracked hRun).history a
  · rw [(List.append_eq_nil_iff.mp hNil).1] at hNote
    cases hNote
  · have hMem := List.mem_append_left rest hNote
    rw [hEq] at hMem
    simp only [List.mem_cons, Note.answered.injEq, reduceCtorEq, List.not_mem_nil, or_false] at hMem
    exact ⟨t, ht, hAddress, hMem.1.trans (congrArg Field.val hId.symm)⟩
  · have hMem := List.mem_append_left rest hNote
    rw [hEq] at hMem
    cases List.mem_singleton.mp hMem

def AllOk (tr : List Label) : Prop :=
  ∀ a p (r : ClearingAnswer), .worked a ⟨.clearing p, r⟩ ∈ tr → r.result = 0 ∧ r.statusOk = true

theorem acknowledged_of_answered (hOk : AllOk tr) {a : Nat} {txnId : TxnId} {ok : Bool}
    (hEnq : Enqueued tr a txnId) (h : .answered txnId.val ok ∈ notes a tr) : Acknowledged tr a := by
  obtain ⟨p, r, hMem, hAbort, hId, -⟩ := answered_mem_notes h
  obtain ⟨hResult, hStatus⟩ := hOk a p r hMem
  exact ⟨txnId, p, r, hEnq, hMem, hAbort, hId, hResult, hStatus⟩

theorem not_acknowledged {a : Nat} (h : ∀ txnId ok, .answered txnId ok ∉ notes a tr) :
    ¬Acknowledged tr a := by
  rintro ⟨txnId, p, r, -, hMem, hAbort, -⟩
  refine h p.transactionId (r.result == 0 && r.statusOk) (mem_notes_of_worked hMem ?_)
  simp [note, hAbort]

/-- While every clearing request of the worker is answered OK no reversal is dropped
unacknowledged: attempts that cannot be made for lack of memory are the only ones that fail,
and they are retried up to the limit. -/
theorem run_accounted (hRun : Run (Step env) .initial tr m) (hOk : AllOk tr) :
    Accounted env tr m := by
  have hTracked := run_tracked hRun
  refine ⟨?_, ?_, ?_⟩
  · intro a h
    have hCounted : .succeeded ∈ notes a tr := by
      rcases h with h | h
      · exact mem_notes_of_worked h (by simp [note])
      · exact (ended_mem_notes hRun a).1 h
    obtain ⟨txnId, ok, hEnq, hAnswered⟩ := hTracked.succeeded_answered hCounted
    exact acknowledged_of_answered hOk hEnq hAnswered
  · intro a h
    have hCounted : .failed ∈ notes a tr := by
      rcases h with h | h
      · exact mem_notes_of_worked h (by simp [note])
      · exact (ended_mem_notes hRun a).2 h
    obtain ⟨hTakes, hNone⟩ := hTracked.failed_exhausted hCounted
    exact ⟨hTakes, not_acknowledged hNone⟩
  · rintro before a outcome rfl hNot hBelow
    obtain ⟨m₀, hPrev, hStep⟩ := hRun.snoc_inv
    cases hStep with
    | @finish task _ hBusy =>
      have hEnds := ((run_tracked hPrev).busy _ _ hBusy).2
      cases outcome with
      | succeeded =>
        have hCounted := (ended_mem_notes hRun task.address).1 (by simp)
        obtain ⟨txnId, ok, hEnq, hAnswered⟩ := hTracked.succeeded_answered hCounted
        exact absurd (acknowledged_of_answered hOk hEnq hAnswered) hNot
      | failed =>
        have hCounted := (ended_mem_notes hRun task.address).2 (by simp)
        have hTakes := (hTracked.failed_exhausted hCounted).1
        omega
      | retry t =>
        obtain ⟨-, hAddress, -⟩ := hEnds
        simp [Outcome.requeued, hAddress]

end Verdicts

section Samples

theorem run_attempt {env : Env} {tr : List Label} {m : Machine}
    (hRun : Run (Step env) .initial tr m) {task : ReversalTask} {p : SysProg Outcome}
    (hBusy : m.worker = .busy task p) {events : List SysEvent} {outcome : Outcome}
    (hp : p.Runs events outcome) :
    Run (Step env) .initial
      (tr ++ events.map (.worked task.address) ++ [.ended task.address outcome])
      { m with head := m.head ++ outcome.requeued, worker := .idle } := by
  induction hp generalizing tr m with
  | ret outcome =>
    rw [List.map_nil, List.append_nil]
    exact hRun.snoc (.finish hBusy)
  | call r _ ih =>
    have hNext := ih (hRun.snoc (.work r hBusy)) rfl
    rwa [List.append_assoc tr] at hNext

def sampleRequest : ReversalRequest := ⟨lit "visa_r_0", lit "4", lit "1", lit "M"⟩

def sampleTask : ReversalTask := newTask 0 sampleRequest 0

def sampleEnv : Env := ⟨none, none⟩

def sampleEvents (answer : (op : Sys) → op.Ans) : List SysEvent × Outcome :=
  (attempt sampleEnv sampleTask).runWith answer

def sampleTrace (answer : (op : Sys) → op.Ans) : List Label :=
  [.enqueued sampleTask, .taken 0] ++ (sampleEvents answer).1.map (.worked 0) ++
    [.ended 0 (sampleEvents answer).2]

theorem sampleTrace_run (answer : (op : Sys) → op.Ans) :
    ∃ m, Run (Step sampleEnv) .initial (sampleTrace answer) m := by
  have hEnqueue : Run (Step sampleEnv) .initial [.enqueued sampleTask] _ :=
    Run.snoc .nil (.enqueue sampleRequest 0)
  have hTake : Run (Step sampleEnv) .initial [.enqueued sampleTask, .taken sampleTask.address] _ :=
    hEnqueue.snoc (@Step.take _ _ 0 sampleTask [] rfl rfl)
  exact ⟨_, run_attempt hTake rfl (Prog.runs_runWith answer _)⟩

theorem sampleTrace_answers (answer : (op : Sys) → op.Ans) {a : Nat} {p : ClearingPayload}
    {r : ClearingAnswer} (h : .worked a ⟨.clearing p, r⟩ ∈ sampleTrace answer) :
    r = answer (.clearing p) := by
  simp only [sampleTrace, List.mem_append, List.mem_cons, List.mem_map, reduceCtorEq, false_or,
    or_false, List.not_mem_nil] at h
  obtain ⟨event, hMem, hEq⟩ := h
  cases hEq
  exact Prog.runWith_answers answer _ _ hMem

theorem run_accounted_calm : ∃ m, Run (Step sampleEnv) .initial (sampleTrace Sys.calm) m ∧
    Accounted sampleEnv (sampleTrace Sys.calm) m := by
  obtain ⟨m, hRun⟩ := sampleTrace_run Sys.calm
  refine ⟨m, hRun, run_accounted hRun fun a p r h => ?_⟩
  rw [sampleTrace_answers _ h]
  exact ⟨rfl, rfl⟩

def clearingDown : (op : Sys) → op.Ans
  | .clearing _ => (⟨-1, false⟩ : ClearingAnswer)
  | op => op.calm

/-- With clearing out of reach the task is counted as reversed after its first attempt. -/
theorem run_not_accounted : ¬∀ (env : Env) (tr : List Label) (m : Machine),
    Run (Step env) .initial tr m → Accounted env tr m := by
  intro h
  obtain ⟨m, hRun⟩ := sampleTrace_run clearingDown
  have hEnded : Label.ended 0 .succeeded ∈ sampleTrace clearingDown :=
    List.mem_append_right _ List.mem_cons_self
  obtain ⟨txnId, p, r, -, hMem, -, -, hResult, -⟩ := (h _ _ _ hRun).succeeded 0 (.inr hEnded)
  rw [sampleTrace_answers _ hMem] at hResult
  cases hResult

end Samples

end MiniVisa.Reversal
