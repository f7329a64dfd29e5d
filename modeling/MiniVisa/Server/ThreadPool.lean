import MiniVisa.Library.LinkedQueue
import MiniVisa.Library.Transition

/-! # The thread pool

Submitters and workers share a bounded queue under one mutex, so a critical section is one
step of the pool. A worker that finds nothing to do waits on the condition variable, which
may wake it at any time, and tests again. Jobs are run outside the lock, by the worker
that took them. `threadpool_destroy` is called once, after the last submit has returned.
-/

namespace MiniVisa.ThreadPool

set_option autoImplicit false

open Transition LinkedQueue

/-- Where a worker is: before its critical section, in `pthread_cond_wait`, with a job in its
hands, or gone. -/
inductive Worker
  | ready | waiting
  | running (job : Nat)
  | exited
  deriving DecidableEq, Repr

/-- `pending` are the jobs that submitters have allocated and not yet brought to the queue. -/
structure State (α : Type) where
  heap : Heap α
  queue : Queue
  cap : Nat
  shuttingDown : Bool
  workers : List Worker
  pending : List Nat

variable {α : Type}

def threadpoolCreate (numThreads queueCap : Int) : State α where
  heap _ := none
  queue := .empty
  cap := if 0 < queueCap then queueCap.toNat else 1024
  shuttingDown := false
  workers := List.replicate (if numThreads ≤ 0 then 4 else numThreads.toNat) .ready
  pending := []

inductive Label (α : Type)
  | noMemory (job : α)
  | allocated (a : Nat) (job : α)
  | refused (a : Nat) (job : α)
  | accepted (a : Nat) (job : α)
  | waited (i : Nat)
  | woke (i : Nat)
  | missed (i : Nat)
  | took (i : Nat) (job : α)
  | ran (i : Nat) (job : α)
  | exited (i : Nat)
  | shutdown

/-- The steps of the pool: of a submitter, of worker `i`, and the first part of
`threadpool_destroy`. -/
inductive Step (s : State α) : Label α → State α → Prop
  | noMemory (job : α) : s.shuttingDown = false → Step s (.noMemory job) s
  | allocate {a : Nat} (job : α) : s.shuttingDown = false → s.heap a = none →
      Step s (.allocated a job)
        { s with heap := Function.update s.heap a (some ⟨job, none⟩), pending := a :: s.pending }
  | refuse {a : Nat} {cell : Cell α} : a ∈ s.pending → s.heap a = some cell →
      s.cap ≤ s.queue.size →
      Step s (.refused a cell.value) { s with heap := s.heap.free a, pending := s.pending.erase a }
  | accept {a : Nat} {cell : Cell α} : a ∈ s.pending → s.heap a = some cell →
      ¬s.cap ≤ s.queue.size →
      Step s (.accepted a cell.value)
        { s with
          heap := (link s.heap s.queue a).1
          queue := (link s.heap s.queue a).2
          pending := s.pending.erase a }
  | wait {i : Nat} : s.workers[i]? = some .ready → s.shuttingDown = false → s.queue.size = 0 →
      Step s (.waited i) { s with workers := s.workers.set i .waiting }
  | wake {i : Nat} : s.workers[i]? = some .waiting →
      Step s (.woke i) { s with workers := s.workers.set i .ready }
  | exit {i : Nat} : s.workers[i]? = some .ready → s.shuttingDown = true → s.queue.size = 0 →
      Step s (.exited i) { s with workers := s.workers.set i .exited }
  | take {i a : Nat} {cell : Cell α} {queue : Queue} : s.workers[i]? = some .ready →
      s.queue.size ≠ 0 → unlink s.heap s.queue = (some a, queue) → s.heap a = some cell →
      Step s (.took i cell.value)
        { s with queue := queue, workers := s.workers.set i (.running a) }
  | miss {i : Nat} {queue : Queue} : s.workers[i]? = some .ready → s.queue.size ≠ 0 →
      unlink s.heap s.queue = (none, queue) → Step s (.missed i) { s with queue := queue }
  | run {i a : Nat} {cell : Cell α} : s.workers[i]? = some (.running a) → s.heap a = some cell →
      Step s (.ran i cell.value)
        { s with heap := s.heap.free a, workers := s.workers.set i .ready }
  | shutdown : s.shuttingDown = false → s.pending = [] →
      Step s .shutdown { s with shuttingDown := true }

section Views

def acceptedOf : Label α → List α
  | .accepted _ job => [job]
  | _ => []

def takenOf : Label α → List α
  | .took _ job => [job]
  | _ => []

def ranOf : Label α → List α
  | .ran _ job => [job]
  | _ => []

def accepted (tr : List (Label α)) : List α := tr.flatMap acceptedOf

def dequeued (tr : List (Label α)) : List α := tr.flatMap takenOf

def ran (tr : List (Label α)) : List α := tr.flatMap ranOf

@[simp] theorem accepted_snoc (tr : List (Label α)) (l : Label α) :
    accepted (tr ++ [l]) = accepted tr ++ acceptedOf l := by
  simp [accepted]

@[simp] theorem dequeued_snoc (tr : List (Label α)) (l : Label α) :
    dequeued (tr ++ [l]) = dequeued tr ++ takenOf l := by
  simp [dequeued]

@[simp] theorem ran_snoc (tr : List (Label α)) (l : Label α) :
    ran (tr ++ [l]) = ran tr ++ ranOf l := by
  simp [ran]

end Views

section Invariant

def Worker.holds : Worker → Option Nat
  | .running a => some a
  | _ => none

/-- The cells that workers have in their hands. -/
def held (workers : List Worker) : List Nat := workers.filterMap Worker.holds

theorem held_set {workers : List Worker} {i : Nat} {w : Worker} (h : workers[i]? = some w)
    (w' : Worker) :
    (w.holds.toList ++ held (workers.set i w')).Perm (w'.holds.toList ++ held workers) := by
  induction workers generalizing i with
  | nil => cases h
  | cons v workers ih =>
    have hCons : ∀ v (ws : List Worker), held (v :: ws) = v.holds.toList ++ held ws := by
      intro v ws
      cases v <;> rfl
    cases i with
    | zero =>
      cases h
      simp only [List.set_cons_zero, hCons]
      exact List.perm_append_comm_assoc _ _ _
    | succ i =>
      simp only [List.set_cons_succ, hCons]
      refine (List.perm_append_comm_assoc _ _ _).trans ?_
      refine ((ih h).append_left _).trans ?_
      exact List.perm_append_comm_assoc _ _ _

/-- The queue stands for `cells` and the workers hold `hands`. -/
structure Inv (tr : List (Label α)) (s : State α) (cells hands : List (Nat × α)) : Prop where
  queue : Represents s.heap s.queue cells
  fifo : dequeued tr ++ values cells = accepted tr
  bounded : s.queue.size ≤ s.cap
  owners : (addresses cells ++ s.pending ++ addresses hands).Nodup
  pendingCells : ∀ a ∈ s.pending, ∃ x, s.heap a = some ⟨x, none⟩
  handCells : ∀ c ∈ hands, ∃ next, s.heap c.1 = some ⟨c.2, next⟩
  holding : (addresses hands).Perm (held s.workers)
  running : (ran tr ++ values hands).Perm (dequeued tr)
  closed : s.shuttingDown = true → s.pending = []
  gone : .exited ∈ s.workers → s.shuttingDown = true ∧ cells = []

variable {tr : List (Label α)} {s s' : State α} {cells hands : List (Nat × α)}

theorem Inv.allocated (h : Inv tr s cells hands) {a : Nat}
    (ha : a ∈ addresses cells ++ s.pending ++ addresses hands) : s.heap a ≠ none := by
  rcases List.mem_append.mp ha with ha | ha
  · rcases List.mem_append.mp ha with ha | ha
    · exact h.queue.chain.allocated ha
    · obtain ⟨x, hx⟩ := h.pendingCells a ha
      rw [hx]
      exact Option.some_ne_none _
  · obtain ⟨c, hc, rfl⟩ := List.mem_map.mp ha
    obtain ⟨next, hNext⟩ := h.handCells c hc
    rw [hNext]
    exact Option.some_ne_none _

theorem Inv.move (h : Inv tr s cells hands) {l : Label α} (hAccepted : acceptedOf l = [])
    (hTaken : takenOf l = []) (hRan : ranOf l = []) {i : Nat} {w w' : Worker}
    (hw : s.workers[i]? = some w) (hHolds : w.holds = none) (hHolds' : w'.holds = none)
    (hGone : w' = .exited → s.shuttingDown = true ∧ cells = []) :
    Inv (tr ++ [l]) { s with workers := s.workers.set i w' } cells hands where
  queue := h.queue
  fifo := by simpa [hAccepted, hTaken] using h.fifo
  bounded := h.bounded
  owners := h.owners
  pendingCells := h.pendingCells
  handCells := h.handCells
  holding := by
    have hSet := held_set hw w'
    rw [hHolds, hHolds'] at hSet
    exact h.holding.trans hSet.symm
  running := by simpa [hTaken, hRan] using h.running
  closed := h.closed
  gone hMem := by
    rcases List.mem_or_eq_of_mem_set hMem with hMem | hEq
    · exact h.gone hMem
    · exact hGone hEq.symm

theorem Inv.allocate (h : Inv tr s cells hands) {a : Nat} (job : α)
    (hOpen : s.shuttingDown = false) (hFree : s.heap a = none) :
    Inv (tr ++ [.allocated a job])
      { s with heap := Function.update s.heap a (some ⟨job, none⟩), pending := a :: s.pending }
      cells hands where
  queue := by
    refine h.queue.frame fun b hb => Function.update_of_ne ?_ _ _
    rintro rfl
    exact h.queue.chain.allocated hb hFree
  fifo := by simpa [acceptedOf, takenOf] using h.fifo
  bounded := h.bounded
  owners := by
    have hNew : a ∉ addresses cells ++ s.pending ++ addresses hands := fun ha => h.allocated ha hFree
    have hPerm : (addresses cells ++ a :: s.pending ++ addresses hands).Perm
        (a :: (addresses cells ++ s.pending ++ addresses hands)) := List.perm_middle.append_right _
    exact hPerm.nodup_iff.mpr (List.nodup_cons.mpr ⟨hNew, h.owners⟩)
  pendingCells := by
    intro b hb
    by_cases hEq : b = a
    · subst hEq
      exact ⟨job, Function.update_self _ _ _⟩
    · obtain ⟨x, hx⟩ := h.pendingCells b ((List.mem_cons.mp hb).resolve_left hEq)
      exact ⟨x, (Function.update_of_ne hEq _ _).trans hx⟩
  handCells := by
    intro c hc
    obtain ⟨next, hNext⟩ := h.handCells c hc
    have hNe : c.1 ≠ a := by
      rintro rfl
      rw [hFree] at hNext
      cases hNext
    exact ⟨next, (Function.update_of_ne hNe _ _).trans hNext⟩
  holding := h.holding
  running := by simpa [takenOf, ranOf] using h.running
  closed hDown := by
    rw [hOpen] at hDown
    cases hDown
  gone := h.gone

theorem Inv.refuse (h : Inv tr s cells hands) {a : Nat} {job : α} (ha : a ∈ s.pending) :
    Inv (tr ++ [.refused a job]) { s with heap := s.heap.free a, pending := s.pending.erase a }
      cells hands := by
  have hPerm : (addresses cells ++ s.pending ++ addresses hands).Perm
      (a :: (addresses cells ++ s.pending.erase a ++ addresses hands)) :=
    (((List.perm_cons_erase ha).append_left _).trans List.perm_middle).append_right _
  obtain ⟨hOther, hNodup⟩ := List.nodup_cons.mp (hPerm.nodup_iff.mp h.owners)
  have hKept : ∀ b ∈ addresses cells ++ s.pending.erase a ++ addresses hands,
      s.heap.free a b = s.heap b := by
    intro b hb
    refine Function.update_of_ne ?_ _ _
    rintro rfl
    exact hOther hb
  constructor
  case queue => exact h.queue.frame fun b hb => hKept b (by simp [hb])
  case fifo => simpa [acceptedOf, takenOf] using h.fifo
  case bounded => exact h.bounded
  case owners => exact hNodup
  case pendingCells =>
    intro b hb
    obtain ⟨x, hx⟩ := h.pendingCells b (List.mem_of_mem_erase hb)
    have hMem : b ∈ addresses cells ++ s.pending.erase a := List.mem_append_right _ hb
    exact ⟨x, (hKept b (List.mem_append_left _ hMem)).trans hx⟩
  case handCells =>
    intro c hc
    obtain ⟨next, hNext⟩ := h.handCells c hc
    exact ⟨next, (hKept c.1 (List.mem_append_right _ (List.mem_map_of_mem hc))).trans hNext⟩
  case holding => exact h.holding
  case running => simpa [takenOf, ranOf] using h.running
  case closed =>
    intro hDown
    rw [h.closed hDown] at ha
    cases ha
  case gone => exact h.gone

theorem link_heap {h : Heap α} {q : Queue} {cells : List (Nat × α)} (hq : Represents h q cells)
    (a : Nat) {b : Nat} (hb : b ∉ addresses cells) : (link h q a).1 b = h b := by
  unfold link
  split
  · rename_i t hTail
    refine Function.update_of_ne ?_ _ _
    rintro rfl
    rw [hq.tail] at hTail
    exact hb (List.mem_of_getLast? hTail)
  · rfl

theorem Inv.accept (h : Inv tr s cells hands) {a : Nat} {cell : Cell α} (ha : a ∈ s.pending)
    (hCell : s.heap a = some cell) (hRoom : ¬s.cap ≤ s.queue.size) :
    Inv (tr ++ [.accepted a cell.value])
      { s with
        heap := (link s.heap s.queue a).1
        queue := (link s.heap s.queue a).2
        pending := s.pending.erase a }
      (cells ++ [(a, cell.value)]) hands := by
  have hPerm : (addresses cells ++ s.pending ++ addresses hands).Perm
      (addresses (cells ++ [(a, cell.value)]) ++ s.pending.erase a ++ addresses hands) := by
    rw [addresses_append, List.append_assoc (addresses cells) _ (s.pending.erase a)]
    exact ((List.perm_cons_erase ha).append_left _).append_right _
  have hOwners := h.owners
  rw [List.append_assoc, List.nodup_append] at hOwners
  have hApart : ∀ b ∈ s.pending ++ addresses hands, b ∉ addresses cells :=
    fun b hb hMem => hOwners.2.2 b hMem b hb rfl
  obtain ⟨x, hx⟩ := h.pendingCells a ha
  obtain rfl : cell = ⟨x, none⟩ := by
    rw [hCell] at hx
    exact Option.some.inj hx
  have hLinked := h.queue.link hx (hApart a (List.mem_append_left _ ha))
  constructor
  case queue => exact hLinked
  case fifo => simp [acceptedOf, takenOf, ← h.fifo, values]
  case bounded =>
    rw [hLinked.size, List.length_append, List.length_singleton, ← h.queue.size]
    change s.queue.size + 1 ≤ s.cap
    omega
  case owners => exact hPerm.nodup_iff.mp h.owners
  case pendingCells =>
    intro b hb
    have hMem := List.mem_of_mem_erase hb
    obtain ⟨y, hy⟩ := h.pendingCells b hMem
    exact ⟨y, (link_heap h.queue a (hApart b (List.mem_append_left _ hMem))).trans hy⟩
  case handCells =>
    intro c hc
    have hMem : c.1 ∈ addresses hands := List.mem_map_of_mem hc
    obtain ⟨next, hNext⟩ := h.handCells c hc
    exact ⟨next, (link_heap h.queue a (hApart c.1 (List.mem_append_right _ hMem))).trans hNext⟩
  case holding => exact h.holding
  case running => simpa [takenOf, ranOf] using h.running
  case closed =>
    intro hDown
    rw [h.closed hDown] at ha
    cases ha
  case gone =>
    intro hExited
    rw [h.closed (h.gone hExited).1] at ha
    cases ha

theorem Inv.take (h : Inv tr s cells hands) {i a : Nat} {cell : Cell α} {queue : Queue}
    (hWorker : s.workers[i]? = some .ready) (hSize : s.queue.size ≠ 0)
    (hUnlink : unlink s.heap s.queue = (some a, queue)) (hCell : s.heap a = some cell) :
    ∃ rest, Inv (tr ++ [.took i cell.value])
      { s with queue := queue, workers := s.workers.set i (.running a) } rest
      ((a, cell.value) :: hands) := by
  cases cells with
  | nil => exact absurd h.queue.size hSize
  | cons first rest =>
    obtain ⟨b, x⟩ := first
    obtain ⟨hHead, hRest⟩ := h.queue.unlink
    rw [hUnlink] at hHead hRest
    cases hHead
    obtain ⟨-, next, hb, -⟩ := h.queue.chain
    obtain rfl : cell = ⟨x, next⟩ := Option.some.inj (hCell.symm.trans hb)
    refine ⟨rest, ?_⟩
    constructor
    case queue => exact hRest
    case fifo =>
      rw [dequeued_snoc, accepted_snoc, ← h.fifo]
      simp [takenOf, acceptedOf, values]
    case bounded =>
      have hLe := h.bounded
      rw [h.queue.size, List.length_cons] at hLe
      change queue.size ≤ s.cap
      rw [hRest.size]
      omega
    case owners =>
      have hPerm : (addresses rest ++ s.pending ++ addresses ((a, x) :: hands)).Perm
          (addresses ((a, x) :: rest) ++ s.pending ++ addresses hands) := List.perm_middle
      exact hPerm.nodup_iff.mpr h.owners
    case pendingCells => exact h.pendingCells
    case handCells =>
      intro c hc
      rcases List.mem_cons.mp hc with rfl | hc
      · exact ⟨next, hCell⟩
      · exact h.handCells c hc
    case holding =>
      have hSet := held_set hWorker (.running a)
      exact (h.holding.cons a).trans hSet.symm
    case running =>
      rw [ran_snoc, dequeued_snoc]
      simp only [ranOf, takenOf, List.append_nil]
      exact List.perm_middle.trans ((h.running.cons x).trans (List.perm_append_singleton x _).symm)
    case closed => exact h.closed
    case gone =>
      intro hMem
      rcases List.mem_or_eq_of_mem_set hMem with hMem | hEq
      · cases (h.gone hMem).2
      · cases hEq

theorem Inv.run (h : Inv tr s cells hands) {i a : Nat} {cell : Cell α}
    (hWorker : s.workers[i]? = some (.running a)) (hCell : s.heap a = some cell) :
    ∃ rest, Inv (tr ++ [.ran i cell.value])
      { s with heap := s.heap.free a, workers := s.workers.set i .ready } cells rest := by
  have hSet : (a :: held (s.workers.set i .ready)).Perm (held s.workers) := held_set hWorker .ready
  have hMem : a ∈ addresses hands := h.holding.mem_iff.mpr (hSet.mem_iff.mp List.mem_cons_self)
  obtain ⟨⟨b, x⟩, hc, rfl⟩ := List.mem_map.mp hMem
  obtain ⟨before, after, rfl⟩ := List.append_of_mem hc
  obtain ⟨next, hNext⟩ := h.handCells _ hc
  obtain rfl : cell = ⟨x, next⟩ := Option.some.inj (hCell.symm.trans hNext)
  have hHands : (addresses (before ++ (b, x) :: after)).Perm (b :: addresses (before ++ after)) := by
    simp only [addresses, List.map_append, List.map_cons]
    exact List.perm_middle
  have hPerm : (addresses cells ++ s.pending ++ addresses (before ++ (b, x) :: after)).Perm
      (b :: (addresses cells ++ s.pending ++ addresses (before ++ after))) :=
    (hHands.append_left _).trans List.perm_middle
  obtain ⟨hOther, hNodup⟩ := List.nodup_cons.mp (hPerm.nodup_iff.mp h.owners)
  have hKept : ∀ d ∈ addresses cells ++ s.pending ++ addresses (before ++ after),
      s.heap.free b d = s.heap d := by
    intro d hd
    refine Function.update_of_ne ?_ _ _
    rintro rfl
    exact hOther hd
  refine ⟨before ++ after, ?_⟩
  constructor
  case queue => exact h.queue.frame fun d hd => hKept d (by simp [hd])
  case fifo => simpa [acceptedOf, takenOf] using h.fifo
  case bounded => exact h.bounded
  case owners => exact hNodup
  case pendingCells =>
    intro d hd
    obtain ⟨y, hy⟩ := h.pendingCells d hd
    have hMem : d ∈ addresses cells ++ s.pending := List.mem_append_right _ hd
    exact ⟨y, (hKept d (List.mem_append_left _ hMem)).trans hy⟩
  case handCells =>
    intro c hc
    have hOld : c ∈ before ++ (b, x) :: after := by
      rcases List.mem_append.mp hc with hc | hc
      · exact List.mem_append_left _ hc
      · exact List.mem_append_right _ (List.mem_cons_of_mem _ hc)
    obtain ⟨n, hn⟩ := h.handCells c hOld
    exact ⟨n, (hKept c.1 (List.mem_append_right _ (List.mem_map_of_mem hc))).trans hn⟩
  case holding =>
    exact ((hHands.symm.trans h.holding).trans hSet.symm).cons_inv
  case running =>
    rw [ran_snoc, dequeued_snoc]
    simp only [ranOf, takenOf, List.append_nil, List.append_assoc, List.singleton_append]
    have hValues : (values (before ++ (b, x) :: after)).Perm (x :: values (before ++ after)) := by
      simp only [values, List.map_append, List.map_cons]
      exact List.perm_middle
    exact (hValues.symm.append_left _).trans h.running
  case closed => exact h.closed
  case gone =>
    intro hMem
    rcases List.mem_or_eq_of_mem_set hMem with hMem | hEq
    · exact h.gone hMem
    · cases hEq

theorem Inv.step {l : Label α} (h : Inv tr s cells hands) (hStep : Step s l s') :
    ∃ cells' hands', Inv (tr ++ [l]) s' cells' hands' := by
  have hEmpty : s.queue.size = 0 → cells = [] := fun hSize =>
    List.eq_nil_of_length_eq_zero (h.queue.size.symm.trans hSize)
  cases hStep with
  | noMemory job =>
    refine ⟨cells, hands, h.queue, ?_, h.bounded, h.owners, h.pendingCells, h.handCells, h.holding,
      ?_, h.closed, h.gone⟩
    · simpa [acceptedOf, takenOf] using h.fifo
    · simpa [takenOf, ranOf] using h.running
  | allocate job hOpen hFree => exact ⟨cells, hands, h.allocate job hOpen hFree⟩
  | refuse ha hCell hFull => exact ⟨cells, hands, h.refuse ha⟩
  | accept ha hCell hRoom => exact ⟨_, hands, h.accept ha hCell hRoom⟩
  | wait hWorker hOpen hSize =>
    exact ⟨cells, hands, h.move rfl rfl rfl hWorker rfl rfl fun hEq => by cases hEq⟩
  | wake hWorker =>
    exact ⟨cells, hands, h.move rfl rfl rfl hWorker rfl rfl fun hEq => by cases hEq⟩
  | exit hWorker hDown hSize =>
    exact ⟨cells, hands, h.move rfl rfl rfl hWorker rfl rfl fun _ => ⟨hDown, hEmpty hSize⟩⟩
  | take hWorker hSize hUnlink hCell =>
    obtain ⟨rest, hRest⟩ := h.take hWorker hSize hUnlink hCell
    exact ⟨rest, _, hRest⟩
  | miss hWorker hSize hUnlink =>
    -- the counter says there is a job, so there is a first one
    cases cells with
    | nil => exact absurd h.queue.size hSize
    | cons first rest =>
      have hHead := h.queue.unlink.1
      rw [hUnlink] at hHead
      cases hHead
  | run hWorker hCell =>
    obtain ⟨rest, hRest⟩ := h.run hWorker hCell
    exact ⟨cells, rest, hRest⟩
  | shutdown hOpen hPending =>
    refine ⟨cells, hands, h.queue, ?_, h.bounded, h.owners, h.pendingCells, h.handCells, h.holding,
      ?_, fun _ => hPending, fun hMem => ⟨rfl, (h.gone hMem).2⟩⟩
    · simpa [acceptedOf, takenOf] using h.fifo
    · simpa [takenOf, ranOf] using h.running

end Invariant

section Delivery

variable {numThreads queueCap : Int} {tr : List (Label α)} {s : State α}

abbrev PoolRun (numThreads queueCap : Int) (tr : List (Label α)) (s : State α) : Prop :=
  Run Step (threadpoolCreate numThreads queueCap) tr s

theorem run_inv (hRun : PoolRun numThreads queueCap tr s) : ∃ cells hands, Inv tr s cells hands := by
  refine hRun.invariant (P := fun tr s => ∃ cells hands, Inv tr s cells hands) ?_
    fun ⟨cells, hands, h⟩ hStep => h.step hStep
  refine ⟨[], [], represents_empty _, rfl, Nat.zero_le _, List.nodup_nil, ?_, ?_, ?_, .refl _, ?_, ?_⟩
  · exact List.forall_mem_nil _
  · exact List.forall_mem_nil _
  · have hNone : held (threadpoolCreate numThreads queueCap : State α).workers = [] := by
      refine List.filterMap_eq_nil_iff.mpr fun w hw => ?_
      rw [List.eq_of_mem_replicate hw]
      rfl
    rw [hNone]
    exact .refl _
  · exact fun _ => rfl
  · intro hMem
    cases List.eq_of_mem_replicate hMem

/-- The workers are never more or fewer, and there is at least one. -/
theorem run_workers (hRun : PoolRun numThreads queueCap tr s) : s.workers ≠ [] := by
  refine hRun.invariant (P := fun _ s => s.workers ≠ []) ?_ fun h hStep => ?_
  · simp only [threadpoolCreate, ne_eq, List.replicate_eq_nil_iff]
    split <;> omega
  · cases hStep <;> first | exact h | simpa using h

/-- When all workers are gone nothing is queued and nothing is held. -/
theorem Inv.ran_of_gone {cells hands : List (Nat × α)} (h : Inv tr s cells hands)
    (hSome : s.workers ≠ []) (hGone : ∀ w ∈ s.workers, w = .exited) :
    (ran tr).Perm (accepted tr) := by
  obtain ⟨w, ws, hEq⟩ := List.exists_cons_of_ne_nil hSome
  have hExited : .exited ∈ s.workers := by
    rw [hEq, hGone w (hEq ▸ List.mem_cons_self)]
    exact List.mem_cons_self
  have hHeld : held s.workers = [] := by
    apply List.filterMap_eq_nil_iff.mpr
    intro w hw
    rw [hGone w hw]
    rfl
  have hHands : hands = [] := by
    have hHolding := h.holding
    rw [hHeld, List.perm_nil] at hHolding
    exact List.map_eq_nil_iff.mp hHolding
  have hFifo := h.fifo
  have hRunning := h.running
  rw [(h.gone hExited).2, values, List.map_nil, List.append_nil] at hFifo
  rw [hHands, values, List.map_nil, List.append_nil, hFifo] at hRunning
  exact hRunning

/-- What the pool promises of a state and of the submits that end there. -/
structure Delivers (tr : List (Label α)) (s : State α) : Prop where
  queue : ∃ cells, Represents s.heap s.queue cells ∧ values cells = (accepted tr).drop (dequeued tr).length
  head_tail : s.queue.head = none ↔ s.queue.tail = none
  tail_size : s.queue.tail = none ↔ s.queue.size = 0
  bounded : s.queue.size ≤ s.cap
  returns : ∀ a ∈ s.pending, ∃ job s',
    Step s (if s.queue.size = s.cap then .refused a job else .accepted a job) s'
  accepts : ∀ a job s', Step s (.accepted a job) s' → s.queue.size ≠ s.cap
  refuses : ∀ a job s', Step s (.refused a job) s' → s.queue.size = s.cap ∧
    s'.queue = s.queue ∧ s'.cap = s.cap ∧ s'.shuttingDown = s.shuttingDown ∧
    s'.workers = s.workers ∧ s'.pending = s.pending.erase a ∧
    s'.heap a = none ∧ ∀ b, b ≠ a → s'.heap b = s.heap b
  fifo : dequeued tr <+: accepted tr
  done : (∀ w ∈ s.workers, w = .exited) →
    (ran tr).Perm (accepted tr) ∧ dequeued tr = accepted tr ∧ s.queue = .empty

theorem run_delivers (hRun : PoolRun numThreads queueCap tr s) : Delivers tr s := by
  obtain ⟨cells, hands, h⟩ := run_inv hRun
  constructor
  case queue =>
    refine ⟨cells, h.queue, ?_⟩
    rw [← h.fifo, List.drop_left]
  case head_tail => exact h.queue.head_isNone_iff.trans h.queue.tail_isNone_iff.symm
  case tail_size => exact h.queue.tail_isNone_iff
  case bounded => exact h.bounded
  case returns =>
    intro a ha
    obtain ⟨x, hx⟩ := h.pendingCells a ha
    have hLe := h.bounded
    split
    · exact ⟨x, _, .refuse ha hx (by omega)⟩
    · exact ⟨x, _, .accept ha hx (by omega)⟩
  case accepts =>
    intro a job s' hStep
    cases hStep with
    | accept ha hCell hRoom => omega
  case refuses =>
    intro a job s' hStep
    cases hStep with
    | refuse ha hCell hFull =>
      refine ⟨Nat.le_antisymm h.bounded hFull, rfl, rfl, rfl, rfl, rfl, Function.update_self _ _ _, ?_⟩
      exact fun b hb => Function.update_of_ne hb _ _
  case fifo => exact ⟨_, h.fifo⟩
  case done =>
    intro hAll
    obtain ⟨w, workers, hWorkers⟩ := List.exists_cons_of_ne_nil (run_workers hRun)
    have hExited : .exited ∈ s.workers := by
      rw [hWorkers, hAll w (by simp [hWorkers])]
      exact List.mem_cons_self
    obtain ⟨-, rfl⟩ := h.gone hExited
    have hHands : hands = [] := by
      have hNone : held s.workers = [] := by
        refine List.filterMap_eq_nil_iff.mpr fun w hw => ?_
        rw [hAll w hw]
        rfl
      have hHolding := h.holding
      rw [hNone, List.perm_nil] at hHolding
      exact List.map_eq_nil_iff.mp hHolding
    subst hHands
    have hTaken : dequeued tr = accepted tr := by simpa [values] using h.fifo
    refine ⟨?_, hTaken, h.queue.eq_empty⟩
    rw [← hTaken]
    simpa [values] using h.running

/-- The only worker waits, is woken for the one job there is room for, runs it and exits. -/
def sampleLabels : List (Label String) :=
  [.waited 0, .allocated 7 "a", .allocated 8 "b", .accepted 7 "a", .refused 8 "b", .woke 0,
    .took 0 "a", .shutdown, .ran 0 "a", .exited 0]

theorem sample_delivers :
    ∃ s : State String, PoolRun 1 1 sampleLabels s ∧ s.workers = [.exited] ∧
      (ran sampleLabels).Perm (accepted sampleLabels) ∧ Delivers sampleLabels s := by
  have hWaited : PoolRun 1 1 [(.waited 0 : Label String)] _ := .snoc .nil (.wait rfl rfl rfl)
  have hFirst := hWaited.snoc (.allocate (a := 7) "a" rfl rfl)
  have hSecond := hFirst.snoc (.allocate (a := 8) "b" rfl rfl)
  have hAccepted := hSecond.snoc (.accept (a := 7) (by decide) rfl (by decide))
  have hRefused := hAccepted.snoc (.refuse (a := 8) (by decide) rfl (by decide))
  have hWoke := hRefused.snoc (.wake (i := 0) rfl)
  have hTook := hWoke.snoc (.take (i := 0) rfl (by decide) rfl rfl)
  have hDown := hTook.snoc (.shutdown rfl rfl)
  have hRan := hDown.snoc (.run (i := 0) rfl rfl)
  have hExited := hRan.snoc (.exit (i := 0) rfl rfl rfl)
  refine ⟨_, hExited, rfl, ?_, run_delivers hExited⟩
  exact ((run_delivers hExited).done (by decide)).1

end Delivery

end MiniVisa.ThreadPool
