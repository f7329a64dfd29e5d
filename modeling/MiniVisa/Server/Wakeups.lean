import MiniVisa.Library.Slots
import MiniVisa.Server.ThreadPool

/-! # Sleeping and waking workers

`pthread_cond_wait` puts a worker into the wait set of the condition variable, `pthread_cond_signal`
takes one out and `pthread_cond_broadcast` takes all out; besides, a worker may wake up for no
reason. The pool seen with its wait set has the same runs as the pool seen without. No wakeup is
lost in them: a worker sleeps only while enough others are on their way to the queue, so nothing
has to be hoped of the wakeups that come for no reason.
-/

namespace MiniVisa.Wakeups

set_option autoImplicit false

open Transition LinkedQueue ThreadPool

/-- A worker that waits is either still in the wait set or has been taken out of it. -/
inductive Thread
  | ready | asleep | woken
  | running (job : Nat)
  | exited
  deriving DecidableEq, Repr

def Thread.worker : Thread → Worker
  | .ready => .ready
  | .asleep | .woken => .waiting
  | .running a => .running a
  | .exited => .exited

def Thread.rouse : Thread → Thread
  | .asleep => .woken
  | t => t

/-- On its way to the queue. -/
def Thread.coming : Thread → Bool
  | .ready | .woken => true
  | _ => false

@[simp] theorem coming_ready : Thread.coming .ready = true := rfl

@[simp] theorem coming_asleep : Thread.coming .asleep = false := rfl

@[simp] theorem coming_woken : Thread.coming .woken = true := rfl

@[simp] theorem coming_running (a : Nat) : Thread.coming (.running a) = false := rfl

variable {α : Type}

structure Monitor (α : Type) where
  pool : State α
  threads : List Thread
  view : pool.workers = threads.map Thread.worker

def Monitor.create (numThreads queueCap : Int) : Monitor α where
  pool := threadpoolCreate numThreads queueCap
  threads := List.replicate (if numThreads ≤ 0 then 4 else numThreads.toNat) .ready
  view := by
    rw [List.map_replicate]
    rfl

/-- What the steps of the pool do to the wait set and to the worker that makes them. -/
inductive Condition (ts : List Thread) : Label α → List Thread → Prop
  | wait (i : Nat) : Condition ts (.waited i) (ts.set i .asleep)
  | wake (i : Nat) : Condition ts (.woke i) (ts.set i .ready)
  | signal {i : Nat} (a : Nat) (job : α) : ts[i]? = some .asleep →
      Condition ts (.accepted a job) (ts.set i .woken)
  | unheard (a : Nat) (job : α) : .asleep ∉ ts → Condition ts (.accepted a job) ts
  | broadcast : Condition ts .shutdown (ts.map Thread.rouse)
  | take (i a : Nat) (job : α) : Condition ts (.took i job) (ts.set i (.running a))
  | run (i : Nat) (job : α) : Condition ts (.ran i job) (ts.set i .ready)
  | exit (i : Nat) : Condition ts (.exited i) (ts.set i .exited)
  | noMemory (job : α) : Condition ts (.noMemory job) ts
  | allocate (a : Nat) (job : α) : Condition ts (.allocated a job) ts
  | refuse (a : Nat) (job : α) : Condition ts (.refused a job) ts
  | miss (i : Nat) : Condition ts (.missed i) ts

def Move (m : Monitor α) (l : Label α) (m' : Monitor α) : Prop :=
  Step m.pool l m'.pool ∧ Condition m.threads l m'.threads

abbrev MonitorRun (numThreads queueCap : Int) (tr : List (Label α)) (m : Monitor α) : Prop :=
  Run Move (.create numThreads queueCap) tr m

section Refinement

variable {m m' : Monitor α} {l : Label α}

theorem Monitor.thread_of_worker (m : Monitor α) {i : Nat} {w : Worker}
    (h : m.pool.workers[i]? = some w) : ∃ t, m.threads[i]? = some t ∧ t.worker = w := by
  rw [m.view, List.getElem?_map, Option.map_eq_some_iff] at h
  exact h

theorem Monitor.worker_of_thread (m : Monitor α) {i : Nat} {t : Thread}
    (h : m.threads[i]? = some t) : m.pool.workers[i]? = some t.worker := by
  rw [m.view, List.getElem?_map, h, Option.map_some]

theorem Monitor.ready_of_worker (m : Monitor α) {i : Nat}
    (h : m.pool.workers[i]? = some .ready) : m.threads[i]? = some .ready := by
  obtain ⟨t, ht, hw⟩ := m.thread_of_worker h
  cases t <;> first | exact ht | cases hw

theorem rouse_worker (t : Thread) : t.rouse.worker = t.worker := by
  cases t <;> rfl

/-- Exchanging a worker that waits for one that waits is not seen by the pool. -/
theorem Monitor.view_woken (m : Monitor α) {i : Nat} (h : m.threads[i]? = some .asleep) :
    (m.threads.set i .woken).map Thread.worker = m.threads.map Thread.worker := by
  obtain ⟨before, after, hEq, hSet⟩ := Slots.exists_split h
  rw [hSet, hEq]
  simp [Thread.worker]

theorem Monitor.view_set {p : State α} {i : Nat} (t : Thread)
    (hp : p.workers = m.pool.workers.set i t.worker) :
    p.workers = (m.threads.set i t).map Thread.worker := by
  rw [hp, m.view, List.map_set]

/-- Whatever the pool can do it can do with its wait set. -/
theorem Monitor.lift (m : Monitor α) {p : State α} (h : Step m.pool l p) :
    ∃ m', m'.pool = p ∧ Move m l m' := by
  have hMade : ∀ ts (hView : p.workers = ts.map Thread.worker), Condition m.threads l ts →
      ∃ m', m'.pool = p ∧ Move m l m' := fun ts hView hTs => ⟨⟨p, ts, hView⟩, rfl, h, hTs⟩
  cases id h with
  | noMemory job => exact hMade _ m.view (.noMemory job)
  | allocate job _ _ => exact hMade _ m.view (.allocate _ job)
  | refuse _ _ _ => exact hMade _ m.view (.refuse _ _)
  | accept _ _ _ =>
    by_cases hAsleep : .asleep ∈ m.threads
    · obtain ⟨i, hi⟩ := List.mem_iff_getElem?.mp hAsleep
      exact hMade _ (m.view.trans (m.view_woken hi).symm) (.signal _ _ hi)
    · exact hMade _ m.view (.unheard _ _ hAsleep)
  | @wait i _ _ _ => exact hMade _ (Monitor.view_set .asleep rfl) (.wait i)
  | @wake i _ => exact hMade _ (Monitor.view_set .ready rfl) (.wake i)
  | @exit i _ _ _ => exact hMade _ (Monitor.view_set .exited rfl) (.exit i)
  | @take i a cell _ _ _ _ _ =>
    exact hMade _ (Monitor.view_set (.running a) rfl) (.take i a cell.value)
  | @miss i _ _ _ _ => exact hMade _ m.view (.miss i)
  | @run i a cell _ _ => exact hMade _ (Monitor.view_set .ready rfl) (.run i cell.value)
  | shutdown _ _ =>
    refine hMade (m.threads.map Thread.rouse) ?_ .broadcast
    rw [List.map_map]
    exact m.view.trans (List.map_congr_left fun t _ => (rouse_worker t).symm)

variable {numThreads queueCap : Int} {tr : List (Label α)}

theorem run_pool (hRun : MonitorRun numThreads queueCap tr m) :
    PoolRun numThreads queueCap tr m.pool := by
  induction hRun with
  | nil => exact .nil
  | snoc _ hMove ih => exact ih.snoc hMove.1

/-- The pool has no run that the condition variable rules out. -/
theorem exists_monitorRun {p : State α} (hRun : PoolRun numThreads queueCap tr p) :
    ∃ m, m.pool = p ∧ MonitorRun numThreads queueCap tr m := by
  induction hRun with
  | nil => exact ⟨.create numThreads queueCap, rfl, .nil⟩
  | snoc _ hStep ih =>
    obtain ⟨m, rfl, hRun⟩ := ih
    obtain ⟨m', hPool, hMove⟩ := m.lift hStep
    exact ⟨m', hPool, hRun.snoc hMove⟩

/-- A run that goes on by a step of the pool and what it does to the wait set. -/
theorem run_move (hRun : MonitorRun numThreads queueCap tr m) {p : State α} {ts : List Thread}
    (hStep : Step m.pool l p) (hCondition : Condition m.threads l ts)
    (hView : p.workers = ts.map Thread.worker) :
    MonitorRun numThreads queueCap (tr ++ [l]) ⟨p, ts, hView⟩ :=
  hRun.snoc ⟨hStep, hCondition⟩

end Refinement

section Wakeups

variable {m m' : Monitor α} {l : Label α}

theorem link_size (h : Heap α) (q : Queue) (a : Nat) : (link h q a).2.size = q.size + 1 := by
  unfold link
  split <;> rfl

theorem unlink_size {h : Heap α} {q q' : Queue} {a : Nat} (hUnlink : unlink h q = (some a, q')) :
    q'.size = q.size - 1 := by
  unfold unlink at hUnlink
  split at hUnlink
  · cases hUnlink
  · split at hUnlink <;> cases hUnlink <;> rfl

theorem unlink_none {h : Heap α} {q q' : Queue} (hUnlink : unlink h q = (none, q')) : q' = q := by
  unfold unlink at hUnlink
  split at hUnlink
  · cases hUnlink
    rfl
  · split at hUnlink <;> cases hUnlink

theorem mem_of_mem_set {ts : List Thread} {i : Nat} {t t' : Thread} (h : t ∈ ts.set i t')
    (hNe : t ≠ t') : t ∈ ts :=
  (List.mem_or_eq_of_mem_set h).resolve_right hNe

theorem not_asleep_rouse (ts : List Thread) : .asleep ∉ ts.map Thread.rouse := by
  intro hMem
  obtain ⟨t, -, ht⟩ := List.mem_map.mp hMem
  cases t <;> cases ht

/-- While a worker sleeps, the others on their way are enough for the queue; after the shutdown
no worker sleeps. -/
structure Rested (m : Monitor α) : Prop where
  enough : .asleep ∈ m.threads → m.pool.queue.size ≤ m.threads.countP Thread.coming
  roused : m.pool.shuttingDown = true → .asleep ∉ m.threads

theorem rested_create (numThreads queueCap : Int) :
    Rested (.create numThreads queueCap : Monitor α) := by
  constructor
  · exact fun _ => Nat.zero_le _
  · intro hDown
    cases hDown

/-- Where no worker goes to sleep, only the counts matter. -/
theorem Rested.of_counts (h : Rested m) (hAsleep : .asleep ∈ m'.threads → .asleep ∈ m.threads)
    (hDown : m'.pool.shuttingDown = m.pool.shuttingDown)
    (hCounts : .asleep ∈ m.threads → m.pool.queue.size ≤ m.threads.countP Thread.coming →
      m'.pool.queue.size ≤ m'.threads.countP Thread.coming) : Rested m' where
  enough hMem := hCounts (hAsleep hMem) (h.enough (hAsleep hMem))
  roused hDown' hMem := h.roused (hDown ▸ hDown') (hAsleep hMem)

theorem Rested.step (h : Rested m) (hMove : Move m l m') : Rested m' := by
  obtain ⟨hStep, hCondition⟩ := hMove
  obtain ⟨p', ts', hView'⟩ := m'
  cases hStep with
  | noMemory | allocate | refuse =>
    cases hCondition
    exact ⟨h.enough, h.roused⟩
  | miss _ _ hUnlink =>
    cases hCondition
    cases unlink_none hUnlink
    exact ⟨h.enough, h.roused⟩
  | accept _ _ _ =>
    have hSize := link_size m.pool.heap m.pool.queue
    cases hCondition with
    | signal _ _ hi =>
      have hCount := Slots.countP_set Thread.coming hi .woken
      apply h.of_counts
      · exact fun hMem => mem_of_mem_set hMem (by decide)
      · rfl
      · intro _ hLe
        simp only [coming_asleep, coming_woken, Bool.toNat_true, Bool.toNat_false, hSize] at hCount ⊢
        omega
    | unheard _ _ hNone => exact ⟨fun hMem => absurd hMem hNone, h.roused⟩
  | wait _ hOpen hSize =>
    cases hCondition
    constructor
    · intro _
      rw [hSize]
      exact Nat.zero_le _
    · intro hDown
      rw [hOpen] at hDown
      cases hDown
  | wake hWorker =>
    cases hCondition
    obtain ⟨t, ht, hWaiting⟩ := m.thread_of_worker hWorker
    have hCount := Slots.countP_set Thread.coming ht .ready
    apply h.of_counts
    · exact fun hMem => mem_of_mem_set hMem (by decide)
    · rfl
    · intro _ hLe
      have hOld := Bool.toNat_le t.coming
      simp only [coming_ready, Bool.toNat_true] at hCount ⊢
      omega
  | exit _ hDown _ =>
    cases hCondition
    have hNone : .asleep ∉ m.threads := h.roused hDown
    constructor
    · exact fun hMem => absurd (mem_of_mem_set hMem (by decide)) hNone
    · exact fun _ hMem => hNone (mem_of_mem_set hMem (by decide))
  | take hWorker hFull hUnlink _ =>
    cases hCondition with
    | take _ a _ =>
      have hSize := unlink_size hUnlink
      have hCount := Slots.countP_set Thread.coming (m.ready_of_worker hWorker) (.running a)
      apply h.of_counts
      · exact fun hMem => mem_of_mem_set hMem (by simp)
      · rfl
      · intro _ hLe
        simp only [coming_ready, coming_running, Bool.toNat_true, Bool.toNat_false] at hCount ⊢
        omega
  | run hWorker _ =>
    cases hCondition
    obtain ⟨t, ht, hRunning⟩ := m.thread_of_worker hWorker
    have hCount := Slots.countP_set Thread.coming ht .ready
    apply h.of_counts
    · exact fun hMem => mem_of_mem_set hMem (by decide)
    · rfl
    · intro _ hLe
      have hOld := Bool.toNat_le t.coming
      simp only [coming_ready, Bool.toNat_true] at hCount ⊢
      omega
  | shutdown _ _ =>
    cases hCondition
    have hNone := not_asleep_rouse m.threads
    exact ⟨fun hMem => absurd hMem hNone, fun _ => hNone⟩

end Wakeups

section Progress

variable {numThreads queueCap : Int} {tr : List (Label α)} {m m' : Monitor α} {l : Label α}
  {cells hands : List (Nat × α)} {i : Nat}

theorem run_rested (hRun : MonitorRun numThreads queueCap tr m) : Rested m :=
  hRun.invariant (P := fun _ m => Rested m) (rested_create _ _) fun h hMove => h.step hMove

def OfWorker : Label α → Prop
  | .waited _ | .woke _ | .missed _ | .took _ _ | .ran _ _ | .exited _ => True
  | _ => False

/-- A wakeup that no signal and no broadcast has caused. -/
def Spurious (m : Monitor α) (l : Label α) : Prop := ∃ i, l = .woke i ∧ m.threads[i]? = some .asleep

/-- Some worker can go on by itself. -/
def Stirs (m : Monitor α) : Prop := ∃ l m', OfWorker l ∧ ¬Spurious m l ∧ Move m l m'

theorem stirs_of_step {p : State α} (hStep : Step m.pool l p) (hWorker : OfWorker l)
    (hWoke : ∀ i, l ≠ .woke i) : Stirs m := by
  obtain ⟨m', -, hMove⟩ := m.lift hStep
  refine ⟨l, m', hWorker, ?_, hMove⟩
  rintro ⟨i, hl, -⟩
  exact hWoke i hl

theorem stirs_woken (h : m.threads[i]? = some .woken) : Stirs m := by
  obtain ⟨m', -, hMove⟩ := m.lift (.wake (m.worker_of_thread h))
  refine ⟨.woke i, m', trivial, ?_, hMove⟩
  rintro ⟨j, hl, hAsleep⟩
  cases hl
  rw [h] at hAsleep
  cases hAsleep

theorem stirs_running (hInv : Inv tr m.pool cells hands) {a : Nat}
    (h : m.threads[i]? = some (.running a)) : Stirs m := by
  have hWorker := m.worker_of_thread h
  have hHeld : a ∈ held m.pool.workers :=
    List.mem_filterMap.mpr ⟨.running a, List.mem_of_getElem? hWorker, rfl⟩
  obtain ⟨c, hc, rfl⟩ := List.mem_map.mp (hInv.holding.mem_iff.mpr hHeld)
  obtain ⟨next, hCell⟩ := hInv.handCells c hc
  exact stirs_of_step (.run hWorker hCell) trivial (by simp)

theorem exists_take {p : State α} (hInv : Inv tr p cells hands) (h : p.workers[i]? = some .ready)
    (hSize : p.queue.size ≠ 0) : ∃ job p', Step p (.took i job) p' := by
  obtain ⟨⟨a, x⟩, rest, rfl⟩ : ∃ c rest, cells = c :: rest := by
    apply List.exists_cons_of_ne_nil
    rintro rfl
    exact hSize hInv.queue.size
  obtain ⟨-, next, hCell, -⟩ := hInv.queue.chain
  have hUnlink : unlink p.heap p.queue = (some a, (unlink p.heap p.queue).2) :=
    Prod.ext hInv.queue.unlink.1 rfl
  exact ⟨_, _, .take h hSize hUnlink hCell⟩

theorem stirs_ready (hInv : Inv tr m.pool cells hands) (h : m.threads[i]? = some .ready)
    (hWork : m.pool.queue.size ≠ 0 ∨ m.pool.shuttingDown = true) : Stirs m := by
  have hWorker := m.worker_of_thread h
  by_cases hSize : m.pool.queue.size = 0
  · have hDown := hWork.resolve_left fun hFull => hFull hSize
    exact stirs_of_step (.exit hWorker hDown hSize) trivial (by simp)
  · obtain ⟨job, p, hTake⟩ := exists_take hInv hWorker hSize
    exact stirs_of_step hTake trivial (by simp)

theorem stirs_of_up (hInv : Inv tr m.pool cells hands) {t : Thread} (ht : t ∈ m.threads)
    (hAsleep : t ≠ .asleep) (hExited : t ≠ .exited)
    (hWork : m.pool.queue.size ≠ 0 ∨ m.pool.shuttingDown = true) : Stirs m := by
  obtain ⟨i, hi⟩ := List.mem_iff_getElem?.mp ht
  cases t with
  | ready => exact stirs_ready hInv hi hWork
  | asleep => exact absurd rfl hAsleep
  | woken => exact stirs_woken hi
  | running a => exact stirs_running hInv hi
  | exited => exact absurd rfl hExited

theorem not_exited (hInv : Inv tr m.pool cells hands) (hSize : m.pool.queue.size ≠ 0) :
    .exited ∉ m.threads := by
  intro hMem
  have hWorker : .exited ∈ m.pool.workers := by
    rw [m.view]
    exact List.mem_map_of_mem hMem
  have hSizeEq := hInv.queue.size
  rw [(hInv.gone hWorker).2] at hSizeEq
  exact hSize hSizeEq

theorem exists_up (hInv : Inv tr m.pool cells hands) (hRested : Rested m) (hSome : m.threads ≠ [])
    (hSize : m.pool.queue.size ≠ 0) : ∃ t ∈ m.threads, t ≠ .asleep ∧ t ≠ .exited := by
  by_cases hAsleep : .asleep ∈ m.threads
  · have hEnough := hRested.enough hAsleep
    have hPos : 0 < m.threads.countP Thread.coming := by omega
    obtain ⟨t, ht, hComing⟩ := List.countP_pos_iff.mp hPos
    refine ⟨t, ht, ?_, ?_⟩ <;> rintro rfl <;> cases hComing
  · obtain ⟨t, ts, hEq⟩ := List.exists_cons_of_ne_nil hSome
    have ht : t ∈ m.threads := hEq ▸ List.mem_cons_self
    refine ⟨t, ht, ?_, ?_⟩
    · rintro rfl
      exact hAsleep ht
    · rintro rfl
      exact not_exited hInv hSize ht

/-- A worker takes the head of the queue in its next step, or in the one after it has left
`pthread_cond_wait`. -/
def Takes (m : Monitor α) : Prop :=
  ∃ i job m', Move m (.took i job) m' ∨
    m.threads[i]? = some .woken ∧ ∃ m₁, Move m (.woke i) m₁ ∧ Move m₁ (.took i job) m'

/-- A job waits only while all workers have one. -/
theorem exists_coming (hInv : Inv tr m.pool cells hands) (hRested : Rested m)
    (hSize : m.pool.queue.size ≠ 0) (hFree : ∃ t ∈ m.threads, ∀ a, t ≠ .running a) :
    ∃ t ∈ m.threads, t.coming = true := by
  obtain ⟨t, ht, hIdle⟩ := hFree
  cases t with
  | ready => exact ⟨_, ht, rfl⟩
  | woken => exact ⟨_, ht, rfl⟩
  | asleep =>
    have hEnough := hRested.enough ht
    have hPos : 0 < m.threads.countP Thread.coming := by omega
    exact List.countP_pos_iff.mp hPos
  | running a => exact absurd rfl (hIdle a)
  | exited => exact absurd ht (not_exited hInv hSize)

theorem takes_of_coming (hRun : MonitorRun numThreads queueCap tr m) (hSize : m.pool.queue.size ≠ 0)
    {t : Thread} (ht : t ∈ m.threads) (hComing : t.coming = true) : Takes m := by
  obtain ⟨i, hi⟩ := List.mem_iff_getElem?.mp ht
  have hWorker := m.worker_of_thread hi
  cases t with
  | ready =>
    obtain ⟨cells, hands, hInv⟩ := run_inv (run_pool hRun)
    obtain ⟨job, p, hTake⟩ := exists_take hInv hWorker hSize
    obtain ⟨m', -, hMove⟩ := m.lift hTake
    exact ⟨i, job, m', .inl hMove⟩
  | woken =>
    obtain ⟨m₁, hPool, hWoke⟩ := m.lift (.wake hWorker)
    obtain ⟨cells, hands, hInv⟩ := run_inv (run_pool (hRun.snoc hWoke))
    have hReady : m₁.pool.workers[i]? = some .ready := by
      rw [hPool]
      exact List.getElem?_set_self (List.getElem?_eq_some_iff.mp hWorker).1
    have hSize₁ : m₁.pool.queue.size ≠ 0 := by
      rw [hPool]
      exact hSize
    obtain ⟨job, p, hTake⟩ := exists_take hInv hReady hSize₁
    obtain ⟨m', -, hMove⟩ := m₁.lift hTake
    exact ⟨i, job, m', .inr ⟨hi, m₁, hWoke, hMove⟩⟩
  | asleep => cases hComing
  | running a => cases hComing
  | exited => cases hComing

/-- What holds of the sleepers in every state, and that work to be done never waits for a wakeup
without a cause: a job is taken unless every worker has one. -/
structure Attended (m : Monitor α) : Prop where
  enough : .asleep ∈ m.threads → m.pool.queue.size ≤ m.threads.countP Thread.coming
  roused : m.pool.shuttingDown = true → .asleep ∉ m.threads
  taken : m.pool.queue.size ≠ 0 → (∃ t ∈ m.threads, ∀ a, t ≠ .running a) → Takes m
  queued : m.pool.queue.size ≠ 0 → Stirs m
  closing : m.pool.shuttingDown = true → (∃ t ∈ m.threads, t ≠ .exited) → Stirs m

theorem run_threads (hRun : MonitorRun numThreads queueCap tr m) : m.threads ≠ [] := by
  have hWorkers := run_workers (run_pool hRun)
  rw [m.view] at hWorkers
  exact fun hNil => hWorkers (by rw [hNil, List.map_nil])

theorem run_attended (hRun : MonitorRun numThreads queueCap tr m) : Attended m := by
  obtain ⟨cells, hands, hInv⟩ := run_inv (run_pool hRun)
  have hRested := run_rested hRun
  constructor
  case enough => exact hRested.enough
  case roused => exact hRested.roused
  case taken =>
    intro hSize hFree
    obtain ⟨t, ht, hComing⟩ := exists_coming hInv hRested hSize hFree
    exact takes_of_coming hRun hSize ht hComing
  case queued =>
    intro hSize
    obtain ⟨t, ht, hAsleep, hExited⟩ := exists_up hInv hRested (run_threads hRun) hSize
    exact stirs_of_up hInv ht hAsleep hExited (.inl hSize)
  case closing =>
    rintro hDown ⟨t, ht, hExited⟩
    apply stirs_of_up hInv ht _ hExited (.inr hDown)
    rintro rfl
    exact hRested.roused hDown ht

/-- The only worker sleeps, and is signalled when a job comes. -/
def sampleLabels : List (Label String) := [.waited 0, .allocated 7 "a", .accepted 7 "a"]

theorem exists_sampleRun : ∃ m : Monitor String, MonitorRun 1 1 sampleLabels m ∧
    m.threads = [.woken] ∧ m.pool.queue.size = 1 ∧
    ∃ m' : Monitor String, m'.threads = [.exited] ∧ MonitorRun 1 1
      (sampleLabels ++ .shutdown :: [.woke 0, .took 0 "a", .ran 0 "a", .exited 0]) m' := by
  have hWaited := run_move (.nil : MonitorRun 1 1 ([] : List (Label String)) _)
    (.wait (i := 0) rfl rfl rfl) (.wait 0) rfl
  have hAllocated := run_move hWaited (.allocate (a := 7) "a" rfl rfl) (.allocate 7 "a") rfl
  have hAccepted := run_move hAllocated (.accept (a := 7) List.mem_cons_self rfl (by decide))
    (.signal (i := 0) 7 "a" rfl) rfl
  have hDown := run_move hAccepted (.shutdown rfl rfl) .broadcast rfl
  have hWoke := run_move hDown (.wake (i := 0) rfl) (.wake 0) rfl
  have hTook := run_move hWoke (.take (i := 0) rfl (by decide) rfl rfl) (.take 0 7 "a") rfl
  have hRan := run_move hTook (.run (i := 0) rfl rfl) (.run 0 "a") rfl
  have hExited := run_move hRan (.exit (i := 0) rfl rfl rfl) (.exit 0) rfl
  exact ⟨_, hAccepted, rfl, rfl, _, rfl, hExited⟩

theorem run_attended_sample : ∃ m : Monitor String, MonitorRun 1 1 sampleLabels m ∧
    m.pool.queue.size = 1 ∧ Attended m := by
  obtain ⟨m, hRun, -, hSize, -⟩ := exists_sampleRun
  exact ⟨m, hRun, hSize, run_attended hRun⟩

end Progress

section Drain

variable {numThreads queueCap : Int} {tr rest : List (Label α)} {m m' : Monitor α} {l : Label α}
  {cells hands : List (Nat × α)}

/-- How many steps a worker has before it at most, once the queue is empty. -/
def Thread.weight : Thread → Nat
  | .ready => 1
  | .asleep | .woken | .running _ => 2
  | .exited => 0

@[simp] theorem weight_ready : Thread.weight .ready = 1 := rfl

@[simp] theorem weight_exited : Thread.weight .exited = 0 := rfl

@[simp] theorem weight_running (a : Nat) : Thread.weight (.running a) = 2 := rfl

theorem weight_of_waiting {t : Thread} (h : t.worker = .waiting) : t.weight = 2 := by
  cases t <;> first | rfl | cases h

theorem weight_of_running {t : Thread} {a : Nat} (h : t.worker = .running a) : t.weight = 2 := by
  cases t <;> first | rfl | cases h

def Monitor.remaining (m : Monitor α) : Nat :=
  2 * m.pool.queue.size + (m.threads.map Thread.weight).sum

theorem weights_le (ts : List Thread) : (ts.map Thread.weight).sum ≤ 2 * ts.length := by
  induction ts with
  | nil => exact Nat.zero_le _
  | cons t ts ih =>
    have hWeight : t.weight ≤ 2 := by cases t <;> simp [Thread.weight]
    rw [List.map_cons, List.sum_cons, List.length_cons]
    omega

/-- After the shutdown every step brings the end nearer. -/
theorem Move.less (hInv : Inv tr m.pool cells hands) (hDown : m.pool.shuttingDown = true)
    (hMove : Move m l m') :
    m'.remaining < m.remaining ∧ m'.pool.shuttingDown = true := by
  obtain ⟨hStep, hCondition⟩ := hMove
  obtain ⟨p', ts', hView'⟩ := m'
  have hNoPending : ∀ a, a ∉ m.pool.pending := by
    intro a ha
    rw [hInv.closed hDown] at ha
    cases ha
  simp only [Monitor.remaining]
  cases hStep with
  | noMemory _ hOpen => simp [hDown] at hOpen
  | allocate _ hOpen _ => simp [hDown] at hOpen
  | refuse ha _ _ => exact absurd ha (hNoPending _)
  | accept ha _ _ => exact absurd ha (hNoPending _)
  | wait _ hOpen _ => simp [hDown] at hOpen
  | wake hWorker =>
    cases hCondition
    obtain ⟨t, ht, hWaiting⟩ := m.thread_of_worker hWorker
    have hSum := Slots.sum_set Thread.weight ht .ready
    rw [weight_of_waiting hWaiting, weight_ready] at hSum
    refine ⟨?_, hDown⟩
    dsimp only
    omega
  | exit hWorker _ _ =>
    cases hCondition
    have hSum := Slots.sum_set Thread.weight (m.ready_of_worker hWorker) .exited
    rw [weight_ready, weight_exited] at hSum
    refine ⟨?_, hDown⟩
    dsimp only
    omega
  | take hWorker hFull hUnlink _ =>
    cases hCondition with
    | take _ a _ =>
      have hSize := unlink_size hUnlink
      have hSum := Slots.sum_set Thread.weight (m.ready_of_worker hWorker) (.running a)
      rw [weight_ready, weight_running] at hSum
      refine ⟨?_, hDown⟩
      dsimp only
      omega
  | miss _ hFull hUnlink =>
    -- the counter says there is a job, so there is a first one
    cases cells with
    | nil => exact absurd hInv.queue.size hFull
    | cons first rest =>
      have hHead := hInv.queue.unlink.1
      rw [hUnlink] at hHead
      cases hHead
  | run hWorker _ =>
    cases hCondition
    obtain ⟨t, ht, hRunning⟩ := m.thread_of_worker hWorker
    have hSum := Slots.sum_set Thread.weight ht .ready
    rw [weight_of_running hRunning, weight_ready] at hSum
    refine ⟨?_, hDown⟩
    dsimp only
    omega
  | shutdown hOpen _ => simp [hDown] at hOpen

theorem move_sizes (hMove : Move m l m') :
    m'.pool.cap = m.pool.cap ∧ m'.threads.length = m.threads.length := by
  obtain ⟨hStep, hCondition⟩ := hMove
  constructor
  · generalize m'.pool = p at hStep
    cases hStep <;> rfl
  · generalize m'.threads = ts at hCondition
    cases hCondition <;> simp

theorem run_sizes (hRun : MonitorRun numThreads queueCap tr m) :
    m.pool.cap = (Monitor.create numThreads queueCap : Monitor α).pool.cap ∧
      m.threads.length = (Monitor.create numThreads queueCap : Monitor α).threads.length := by
  induction hRun with
  | nil => exact ⟨rfl, rfl⟩
  | snoc _ hMove ih => exact ⟨(move_sizes hMove).1.trans ih.1, (move_sizes hMove).2.trans ih.2⟩

theorem ran_of_exited (hInv : Inv tr m.pool cells hands) (hSome : m.threads ≠ [])
    (hAll : ∀ t ∈ m.threads, t = .exited) : (ran tr).Perm (accepted tr) := by
  apply hInv.ran_of_gone
  · rw [m.view]
    simpa using hSome
  · intro w hw
    rw [m.view] at hw
    obtain ⟨t, ht, rfl⟩ := List.mem_map.mp hw
    rw [hAll t ht]
    rfl

theorem size_of_exited (hInv : Inv tr m.pool cells hands) (hSome : m.threads ≠ [])
    (hAll : ∀ t ∈ m.threads, t = .exited) : m.pool.queue.size = 0 := by
  obtain ⟨t, ts, hEq⟩ := List.exists_cons_of_ne_nil hSome
  have ht : t ∈ m.threads := hEq ▸ List.mem_cons_self
  by_contra hFull
  exact not_exited hInv hFull (hAll t ht ▸ ht)

theorem not_move_of_exited (hInv : Inv tr m.pool cells hands) (hDown : m.pool.shuttingDown = true)
    (hSome : m.threads ≠ []) (hAll : ∀ t ∈ m.threads, t = .exited) : ¬Move m l m' := by
  intro hMove
  have hLess := (hMove.less hInv hDown).1
  have hZero : (m.threads.map Thread.weight).sum = 0 := by
    apply List.sum_eq_zero
    intro n hn
    obtain ⟨t, ht, rfl⟩ := List.mem_map.mp hn
    rw [hAll t ht]
    rfl
  rw [Monitor.remaining, Monitor.remaining, hZero, size_of_exited hInv hSome hAll] at hLess
  omega

/-- The joins of `threadpool_destroy` come to an end: `rest` is what happens after the shutdown. -/
structure Drains (numThreads queueCap : Int) (tr rest : List (Label α)) (m : Monitor α) : Prop where
  bounded : rest.length ≤ 2 * ((Monitor.create numThreads queueCap : Monitor α).pool.cap +
    (Monitor.create numThreads queueCap : Monitor α).threads.length)
  stops : (∀ l m', ¬Move m l m') ↔ ∀ t ∈ m.threads, t = .exited
  emptied : (∀ t ∈ m.threads, t = .exited) → m.pool.queue.size = 0
  done : (∀ t ∈ m.threads, t = .exited) →
    (ran (tr ++ .shutdown :: rest)).Perm (accepted (tr ++ .shutdown :: rest))

theorem run_drains (hRun : MonitorRun numThreads queueCap (tr ++ .shutdown :: rest) m) :
    Drains numThreads queueCap tr rest m := by
  rw [List.append_cons] at hRun
  obtain ⟨m₂, hBefore, hAfter⟩ := hRun.split
  obtain ⟨m₁, -, hShutdown⟩ := hBefore.snoc_inv
  have hDown₂ : m₂.pool.shuttingDown = true := by
    obtain ⟨hStep, -⟩ := hShutdown
    generalize m₂.pool = p at hStep
    cases hStep
    rfl
  -- what holds of the states after the shutdown
  have hClosing := hAfter.length_add_le
    (P := fun m => (∃ tr, MonitorRun numThreads queueCap tr m) ∧ m.pool.shuttingDown = true)
    (μ := Monitor.remaining) ⟨⟨_, hBefore⟩, hDown₂⟩
    (fun ⟨⟨tr, hRun⟩, hDown⟩ hMove => by
      obtain ⟨cells, hands, hInv⟩ := run_inv (run_pool hRun)
      exact ⟨⟨_, hRun.snoc hMove⟩, (hMove.less hInv hDown).2⟩)
    (fun ⟨⟨tr, hRun⟩, hDown⟩ hMove => by
      obtain ⟨cells, hands, hInv⟩ := run_inv (run_pool hRun)
      exact (hMove.less hInv hDown).1)
  obtain ⟨⟨-, hDown⟩, hLength⟩ := hClosing
  obtain ⟨cells, hands, hInv⟩ := run_inv (run_pool hRun)
  constructor
  case bounded =>
    obtain ⟨cells₂, hands₂, hInv₂⟩ := run_inv (run_pool hBefore)
    have hSizes := run_sizes hBefore
    have hQueue := hInv₂.bounded
    have hWeights := weights_le m₂.threads
    simp only [Monitor.remaining] at hLength
    omega
  case stops =>
    constructor
    · intro hStuck t ht
      by_contra hExited
      obtain ⟨l, m', -, -, hMove⟩ := (run_attended hRun).closing hDown ⟨t, ht, hExited⟩
      exact hStuck l m' hMove
    · exact fun hAll l m' => not_move_of_exited hInv hDown (run_threads hRun) hAll
  case emptied => exact size_of_exited hInv (run_threads hRun)
  case done =>
    intro hAll
    rw [List.append_cons]
    exact ran_of_exited hInv (run_threads hRun) hAll

theorem run_drains_sample : ∃ m : Monitor String, m.threads = [.exited] ∧
    Drains 1 1 sampleLabels [.woke 0, .took 0 "a", .ran 0 "a", .exited 0] m := by
  obtain ⟨-, -, -, -, m, hExited, hRun⟩ := exists_sampleRun
  exact ⟨m, hExited, run_drains hRun⟩

end Drain

end MiniVisa.Wakeups
