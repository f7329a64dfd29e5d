import MiniVisa.Library.LinkedList
import MiniVisa.Server.ReversalRuns
import Mathlib.Data.List.Pairwise

/-! # The reversal queue in memory

The tasks are cells that point to their successors, `g_head` points to the first of them, and the
worker holds a cell that it has unlinked. A cell may be allocated again after it was freed, so a task
keeps the number it was enqueued with. Each step in memory is a step of the machine over lists, and
no task gets lost there or is there twice.
-/

namespace MiniVisa.ReversalQueue

set_option autoImplicit false

open Interaction Transition LinkedQueue
open Reversal (Env ReversalTask Outcome Label Machine newTask attempt maxAttempts)

def store (h : Heap ReversalTask) (a : Nat) (t : ReversalTask) : Heap ReversalTask :=
  Function.update h a (some ⟨t, none⟩)

def due (now : Int) (t : ReversalTask) : Bool := t.nextAt ≤ now

def queuePush (h : Heap ReversalTask) (head : Option Nat) (t fuel : Nat) :
    Option (Heap ReversalTask × Option Nat) := LinkedList.append h head t fuel

def queuePopReady (now : Int) (h : Heap ReversalTask) (head : Option Nat) (fuel : Nat) :
    Option (Option Nat × Heap ReversalTask × Option Nat) :=
  LinkedList.unlinkFirst (due now) h head fuel

inductive Worker
  | idle
  | busy (cell : Nat) (task : ReversalTask) (rest : SysProg Outcome)
  | exited

structure Globals where
  heap : Heap ReversalTask
  head : Option Nat
  worker : Worker
  shutdown : Bool
  allocated : Nat

def Globals.initial : Globals := ⟨fun _ => none, none, .idle, false, 0⟩

/-- The critical sections of the producers, of the worker and of `reversal_shutdown`. Each walk
has the fuel that it needs. -/
inductive Step (env : Env) (m : Globals) : Label → Globals → Prop
  | enqueue (request : ReversalRequest) (now : Int) {a fuel : Nat} {h : Heap ReversalTask}
      {head : Option Nat} : m.heap a = none →
      queuePush (store m.heap a (newTask m.allocated request now)) m.head a fuel = some (h, head) →
      Step env m (.enqueued (newTask m.allocated request now))
        { m with heap := h, head := head, allocated := m.allocated + 1 }
  | take (now : Int) {a fuel : Nat} {h : Heap ReversalTask} {head : Option Nat}
      {cell : Cell ReversalTask} : m.worker = .idle →
      queuePopReady now m.heap m.head fuel = some (some a, h, head) → h a = some cell →
      Step env m (.taken cell.value.address)
        { m with heap := h, head := head, worker := .busy a cell.value (attempt env cell.value) }
  | work {a : Nat} {task : ReversalTask} {e : Sys} {k : e.Ans → SysProg Outcome} (r : e.Ans) :
      m.worker = .busy a task (.call e k) →
      Step env m (.worked task.address ⟨e, r⟩) { m with worker := .busy a task (k r) }
  | release {a : Nat} {task : ReversalTask} {outcome : Outcome} :
      m.worker = .busy a task (.ret outcome) → (∀ t, outcome ≠ .retry t) →
      Step env m (.ended task.address outcome)
        { m with heap := m.heap.free a, worker := .idle }
  | retry {a fuel : Nat} {task t : ReversalTask} {h : Heap ReversalTask} {head : Option Nat} :
      m.worker = .busy a task (.ret (.retry t)) →
      queuePush (store m.heap a t) m.head a fuel = some (h, head) →
      Step env m (.ended task.address (.retry t))
        { m with heap := h, head := head, worker := .idle }
  | shutdown : Step env m .shutdown { m with shutdown := true }
  | exit : m.worker = .idle → m.shutdown = true → m.head = none →
      Step env m .exited { m with worker := .exited }
  | drain {fuel : Nat} {h : Heap ReversalTask} : m.worker = .exited →
      LinkedList.freeFrom m.heap fuel m.head = some h →
      Step env m .drained { m with heap := h, head := none }

section Refinement

def Worker.view : Worker → Reversal.Worker
  | .idle => .idle
  | .busy _ task rest => .busy task rest
  | .exited => .exited

/-- The machine over lists that `m` stands for when its queue is made of `cells`. -/
def Globals.machine (m : Globals) (cells : List (Nat × ReversalTask)) : Machine where
  head := values cells
  worker := m.worker.view
  shutdown := m.shutdown
  allocated := m.allocated

structure Sound (m : Globals) (cells : List (Nat × ReversalTask)) : Prop where
  queue : LinkedList.Represents m.heap m.head cells
  held : ∀ a task rest, m.worker = .busy a task rest →
    m.heap a = some ⟨task, none⟩ ∧ a ∉ addresses cells

theorem sound_initial : Sound .initial [] where
  queue := LinkedList.represents_empty _
  held a task rest h := by cases h

variable {env : Env} {m m' : Globals} {l : Label} {cells : List (Nat × ReversalTask)}

theorem store_self (h : Heap ReversalTask) (a : Nat) (t : ReversalTask) :
    store h a t a = some ⟨t, none⟩ := Function.update_self _ _ _

theorem store_of_ne {h : Heap ReversalTask} {a b : Nat} {t : ReversalTask} (hNe : b ≠ a) :
    store h a t b = h b := Function.update_of_ne hNe _ _

theorem represents_store {h : Heap ReversalTask} {head : Option Nat} {a : Nat}
    (hr : LinkedList.Represents h head cells) (hNew : a ∉ addresses cells) (t : ReversalTask) :
    LinkedList.Represents (store h a t) head cells := by
  apply hr.frame
  intro b hb
  exact store_of_ne fun hEq => hNew (hEq ▸ hb)

/-- Pushing a cell that is not in the queue puts its task behind the others. -/
theorem queuePush_spec {h h' : Heap ReversalTask} {head head' : Option Nat} {a fuel : Nat}
    {t : ReversalTask} (hr : LinkedList.Represents h head cells) (hNew : a ∉ addresses cells)
    (hPush : queuePush (store h a t) head a fuel = some (h', head')) :
    LinkedList.Represents h' head' (cells ++ [(a, t)]) ∧
      ∀ b, b ≠ a → b ∉ addresses cells → h' b = h b := by
  obtain ⟨hPushed, hFrame⟩ :=
    (represents_store hr hNew t).append_of_some (store_self h a t) hNew hPush
  refine ⟨hPushed, fun b hNe hb => ?_⟩
  rw [hFrame b, store_of_ne hNe]
  simpa [addresses, hNe] using hb

theorem queuePopReady_append {now : Int} {before after : List ReversalTask} {t : ReversalTask}
    (hBefore : ∀ s ∈ before, due now s = false) (hDue : due now t = true) :
    Reversal.queuePopReady now (before ++ t :: after) = some (t, before ++ after) := by
  induction before with
  | nil =>
    rw [List.nil_append, Reversal.queuePopReady, if_pos (of_decide_eq_true hDue)]
    rfl
  | cons s before ih =>
    have hLater : ¬s.nextAt ≤ now := of_decide_eq_false (hBefore s List.mem_cons_self)
    rw [List.cons_append, Reversal.queuePopReady, if_neg hLater,
      ih fun s hs => hBefore s (List.mem_cons_of_mem _ hs)]
    rfl

theorem values_append (cells cells' : List (Nat × ReversalTask)) :
    values (cells ++ cells') = values cells ++ values cells' := List.map_append

theorem Sound.enqueue (hs : Sound m cells) {request : ReversalRequest} {now : Int} {a fuel : Nat}
    {h : Heap ReversalTask} {head : Option Nat} (hFree : m.heap a = none)
    (hPush : queuePush (store m.heap a (newTask m.allocated request now)) m.head a fuel =
      some (h, head)) :
    ∃ cells', Sound { m with heap := h, head := head, allocated := m.allocated + 1 } cells' ∧
      values cells' = values cells ++ [newTask m.allocated request now] := by
  have hNew : a ∉ addresses cells := fun hMem => hs.queue.chain.allocated hMem hFree
  obtain ⟨hQueue, hFrame⟩ := queuePush_spec hs.queue hNew hPush
  refine ⟨_, ⟨hQueue, fun b task rest hWorker => ?_⟩, values_append _ _⟩
  obtain ⟨hCell, hOut⟩ := hs.held b task rest hWorker
  have hNe : b ≠ a := by
    rintro rfl
    cases hFree.symm.trans hCell
  constructor
  · exact (hFrame b hNe hOut).trans hCell
  · simpa [addresses, hNe] using hOut

theorem Sound.take (hs : Sound m cells) {now : Int} {a fuel : Nat} {h : Heap ReversalTask}
    {head : Option Nat} {cell : Cell ReversalTask} {rest : SysProg Outcome}
    (hPop : queuePopReady now m.heap m.head fuel = some (some a, h, head)) (hCell : h a = some cell) :
    ∃ cells', Sound { m with heap := h, head := head, worker := .busy a cell.value rest } cells' ∧
      Reversal.queuePopReady now (values cells) = some (cell.value, values cells') := by
  have hUnlinked := hs.queue.unlinkFirst_of_some hPop
  generalize hResult : some (some a, h, head) = result at hUnlinked
  cases hUnlinked with
  | absent _ => cases hResult
  | @found before after b x h' head' hEq hBefore hDue hQueue hOut hFrame =>
    cases hResult
    cases hCell.symm.trans hOut
    have hNew : a ∉ addresses (before ++ after) := by
      have hNodup := hs.queue.nodup
      rw [hEq] at hNodup
      exact (LinkedList.nodup_addresses_middle.mp hNodup).1
    refine ⟨before ++ after, ⟨hQueue, ?_⟩, ?_⟩
    · rintro _ _ _ ⟨⟩
      exact ⟨hOut, hNew⟩
    · rw [hEq, values_append, values_append]
      refine queuePopReady_append ?_ hDue
      intro s hMem
      obtain ⟨c, hc, rfl⟩ := List.mem_map.mp hMem
      exact hBefore c hc

theorem Sound.retry (hs : Sound m cells) {a fuel : Nat} {task t : ReversalTask}
    {rest : SysProg Outcome} {h : Heap ReversalTask} {head : Option Nat}
    (hBusy : m.worker = .busy a task rest)
    (hPush : queuePush (store m.heap a t) m.head a fuel = some (h, head)) :
    ∃ cells', Sound { m with heap := h, head := head, worker := .idle } cells' ∧
      values cells' = values cells ++ [t] := by
  obtain ⟨-, hNew⟩ := hs.held a task rest hBusy
  obtain ⟨hQueue, -⟩ := queuePush_spec hs.queue hNew hPush
  refine ⟨_, ⟨hQueue, ?_⟩, values_append _ _⟩
  rintro _ _ _ ⟨⟩

theorem Sound.free (hs : Sound m cells) {a : Nat} {task : ReversalTask} {rest : SysProg Outcome}
    (hBusy : m.worker = .busy a task rest) :
    Sound { m with heap := m.heap.free a, worker := .idle } cells where
  queue := by
    obtain ⟨-, hNew⟩ := hs.held a task rest hBusy
    apply hs.queue.frame
    intro b hb
    refine Function.update_of_ne ?_ _ _
    rintro rfl
    exact hNew hb
  held b task' rest' hWorker := by cases hWorker

/-- A step in memory is the step of that label over the lists. -/
theorem Sound.step (hs : Sound m cells) (hStep : Step env m l m') :
    ∃ cells', Sound m' cells' ∧ Reversal.Step env (m.machine cells) l (m'.machine cells') := by
  cases hStep with
  | enqueue request now hFree hPush =>
    obtain ⟨cells', hs', hValues⟩ := hs.enqueue hFree hPush
    have hPushed : Reversal.Step env (m.machine cells)
        (.enqueued (newTask m.allocated request now))
        ⟨values cells ++ [newTask m.allocated request now], m.worker.view, m.shutdown,
          m.allocated + 1⟩ := .enqueue request now
    rw [← hValues] at hPushed
    exact ⟨cells', hs', hPushed⟩
  | take now hIdle hPop hCell =>
    obtain ⟨cells', hs', hReady⟩ := hs.take hPop hCell
    exact ⟨cells', hs', .take now (congrArg Worker.view hIdle) hReady⟩
  | @work a task e k r hBusy =>
    refine ⟨cells, ⟨hs.queue, ?_⟩, .work r (congrArg Worker.view hBusy)⟩
    rintro _ _ _ ⟨⟩
    exact hs.held a task _ hBusy
  | @release a task outcome hBusy hOver =>
    have hNone : outcome.requeued = [] := by
      cases outcome with
      | succeeded => rfl
      | failed => rfl
      | retry t => exact absurd rfl (hOver t)
    have hFinish : Reversal.Step env (m.machine cells) (.ended task.address outcome)
        ⟨values cells ++ outcome.requeued, .idle, m.shutdown, m.allocated⟩ :=
      .finish (congrArg Worker.view hBusy)
    rw [hNone, List.append_nil] at hFinish
    exact ⟨cells, hs.free hBusy, hFinish⟩
  | @retry a fuel task t h head hBusy hPush =>
    obtain ⟨cells', hs', hValues⟩ := hs.retry hBusy hPush
    have hFinish : Reversal.Step env (m.machine cells) (.ended task.address (.retry t))
        ⟨values cells ++ [t], .idle, m.shutdown, m.allocated⟩ :=
      .finish (congrArg Worker.view hBusy)
    rw [← hValues] at hFinish
    exact ⟨cells', hs', hFinish⟩
  | shutdown => exact ⟨cells, ⟨hs.queue, hs.held⟩, .shutdown⟩
  | exit hIdle hShutdown hHead =>
    have hEmpty : values cells = [] := by rw [hs.queue.chain.eq_none_iff.mp hHead]; rfl
    refine ⟨cells, ⟨hs.queue, ?_⟩, .exit (congrArg Worker.view hIdle) hShutdown hEmpty⟩
    rintro _ _ _ ⟨⟩
  | drain hExited hFree =>
    refine ⟨[], ⟨LinkedList.represents_empty _, ?_⟩, .drain (congrArg Worker.view hExited)⟩
    intro a task rest hBusy
    cases hExited.symm.trans hBusy

theorem run_refines {tr : List Label} (hRun : Run (Step env) .initial tr m) :
    ∃ cells, Sound m cells ∧ Run (Reversal.Step env) .initial tr (m.machine cells) := by
  induction hRun with
  | nil => exact ⟨[], sound_initial, .nil⟩
  | snoc _ hStep ih =>
    obtain ⟨cells, hs, hRun⟩ := ih
    obtain ⟨cells', hs', hNext⟩ := hs.step hStep
    exact ⟨cells', hs', hRun.snoc hNext⟩

end Refinement

section Places

inductive Place
  | queue | held | succeeded | failed

def places : List Place := [.queue, .held, .succeeded, .failed]

theorem mem_places (p : Place) : p ∈ places := by
  cases p <;> simp [places]

def enqueuedOf : Label → List Nat
  | .enqueued t => [t.address]
  | _ => []

def succeededOf : Label → List Nat
  | .ended a .succeeded => [a]
  | _ => []

def failedOf : Label → List Nat
  | .ended a .failed => [a]
  | _ => []

def enqueued (tr : List Label) : List Nat := tr.flatMap enqueuedOf

def succeeded (tr : List Label) : List Nat := tr.flatMap succeededOf

def failed (tr : List Label) : List Nat := tr.flatMap failedOf

@[simp] theorem enqueued_snoc (tr : List Label) (l : Label) :
    enqueued (tr ++ [l]) = enqueued tr ++ enqueuedOf l := by
  simp [enqueued]

@[simp] theorem succeeded_snoc (tr : List Label) (l : Label) :
    succeeded (tr ++ [l]) = succeeded tr ++ succeededOf l := by
  simp [succeeded]

@[simp] theorem failed_snoc (tr : List Label) (l : Label) :
    failed (tr ++ [l]) = failed tr ++ failedOf l := by
  simp [failed]

/-- The numbers of the tasks at a place. -/
def tasksAt (m : Machine) (tr : List Label) : Place → List Nat
  | .queue => m.head.map (·.address)
  | .held => m.held.map (·.address)
  | .succeeded => succeeded tr
  | .failed => failed tr

def countedAt (m : Machine) (tr : List Label) (a : Nat) : Nat :=
  (m.live.map (·.address)).count a + (succeeded tr ++ failed tr).count a

/-- No task is enqueued once the shutdown has begun. -/
def ShutdownLast (tr : List Label) : Prop :=
  tr.Pairwise fun l l' => ∀ t, ¬(l = .shutdown ∧ l' = .enqueued t)

theorem ShutdownLast.of_snoc {tr : List Label} {l : Label} (h : ShutdownLast (tr ++ [l])) :
    ShutdownLast tr := (List.pairwise_append.mp h).1

theorem ShutdownLast.not_enqueued {tr : List Label} {t : ReversalTask}
    (h : ShutdownLast (tr ++ [.enqueued t])) : .shutdown ∉ tr := fun hMem =>
  (List.pairwise_append.mp h).2.2 _ hMem _ List.mem_cons_self t ⟨rfl, rfl⟩

/-- What the steps keep while the shutdown comes last. -/
structure Kept (tr : List Label) (m : Machine) : Prop where
  numbered : enqueued tr = List.range m.allocated
  counted : ∀ a, countedAt m tr a = (enqueued tr).count a
  flag : m.shutdown = true → .shutdown ∈ tr
  exited : m.worker = .exited → m.shutdown = true ∧ m.head = []
  drained : .drained ∈ tr → m.worker = .exited

theorem kept_initial : Kept [] .initial where
  numbered := rfl
  counted a := rfl
  flag h := by cases h
  exited h := by cases h
  drained h := by cases h

variable {env : Env} {tr : List Label} {m m' : Machine} {l : Label}

/-- What a step adds to the queue and the worker's hands and to what is over, it takes from there
or has just been enqueued. -/
theorem step_balanced (hTracked : Reversal.Tracked env tr m)
    (hEmpty : m.worker = .exited → m.head = []) (hStep : Reversal.Step env m l m') (a : Nat) :
    (m'.live.map (·.address)).count a + (succeededOf l ++ failedOf l).count a =
      (m.live.map (·.address)).count a + (enqueuedOf l).count a := by
  cases hStep with
  | enqueue request now =>
    have hLive : (m.push request now).live = m.live ++ [newTask m.allocated request now] := by
      simp [Machine.live, Machine.held, Machine.push, Reversal.queuePush]
    rw [hLive, List.map_append, List.count_append]
    rfl
  | @take now task rest hIdle hPop =>
    have hLive : m.live = m.head := by simp [Machine.live, Machine.held, hIdle]
    have hPerm := (Reversal.queuePopReady_perm hPop).map (·.address)
    rw [hLive, ← hPerm.count_eq a]
    rfl
  | work r hBusy =>
    simp [Machine.live, Machine.held, hBusy, succeededOf, failedOf, enqueuedOf]
  | @finish task outcome hBusy =>
    have hLive : m.live = task :: m.head := by simp [Machine.live, Machine.held, hBusy]
    have hLive' : ({ m with head := m.head ++ outcome.requeued, worker := .idle } : Machine).live =
        m.head ++ outcome.requeued := rfl
    have hSame : (outcome.requeued.map (·.address)).count a +
        (succeededOf (.ended task.address outcome) ++
          failedOf (.ended task.address outcome)).count a = [task.address].count a := by
      cases outcome with
      | succeeded => simp [Outcome.requeued, succeededOf, failedOf]
      | failed => simp [Outcome.requeued, succeededOf, failedOf]
      | retry t =>
        have hAddress := (hTracked.requeued hBusy List.mem_cons_self).1
        simp [Outcome.requeued, succeededOf, failedOf, hAddress]
    have hFront : ((task :: m.head).map (·.address)).count a =
        [task.address].count a + (m.head.map (·.address)).count a := by
      rw [← List.count_append]
      rfl
    have hQuiet : enqueuedOf (.ended task.address outcome) = [] := rfl
    rw [hLive, hLive', hFront, List.map_append, List.count_append, Nat.add_assoc, hSame, hQuiet,
      List.count_nil]
    omega
  | shutdown => rfl
  | exit hIdle _ _ => simp [Machine.live, Machine.held, hIdle, succeededOf, failedOf, enqueuedOf]
  | drain hExited =>
    simp [Machine.live, Machine.held, hExited, hEmpty hExited, succeededOf, failedOf, enqueuedOf]

/-- A step of the worker at its work. -/
theorem Kept.attempting (h : Kept tr m)
    (hCounted : ∀ a, countedAt m' (tr ++ [l]) a = (enqueued (tr ++ [l])).count a)
    (hQuiet : enqueuedOf l = []) (hAllocated : m'.allocated = m.allocated)
    (hShutdown : m'.shutdown = m.shutdown) (hThere : m.worker ≠ .exited)
    (hStays : m'.worker ≠ .exited) (hNot : l ≠ .drained) : Kept (tr ++ [l]) m' where
  numbered := by rw [enqueued_snoc, hQuiet, List.append_nil, h.numbered, hAllocated]
  counted := hCounted
  flag hFlag := List.mem_append_left _ (h.flag (hShutdown ▸ hFlag))
  exited hExited := absurd hExited hStays
  drained hDrained := by
    rcases List.mem_append.mp hDrained with hOld | hNew
    · exact absurd (h.drained hOld) hThere
    · exact absurd (List.mem_singleton.mp hNew).symm hNot

theorem Kept.step (h : Kept tr m) (hTracked : Reversal.Tracked env tr m)
    (hLast : ShutdownLast (tr ++ [l])) (hStep : Reversal.Step env m l m') :
    Kept (tr ++ [l]) m' := by
  have hCounted : ∀ a, countedAt m' (tr ++ [l]) a = (enqueued (tr ++ [l])).count a := by
    intro a
    have hOld := h.counted a
    have hBalanced := step_balanced hTracked (fun hExited => (h.exited hExited).2) hStep a
    simp only [countedAt, succeeded_snoc, failed_snoc, enqueued_snoc, List.count_append] at *
    omega
  have hKeptFlag : m.shutdown = true → .shutdown ∈ tr ++ [l] := fun hFlag =>
    List.mem_append_left _ (h.flag hFlag)
  cases hStep with
  | enqueue request now =>
    have hOpen : m.worker ≠ .exited := fun hExited =>
      hLast.not_enqueued (h.flag (h.exited hExited).1)
    refine ⟨?_, hCounted, hKeptFlag, fun hExited => absurd hExited hOpen, ?_⟩
    · rw [enqueued_snoc, h.numbered]
      exact List.range_succ.symm
    · exact fun hDrained => h.drained (by simpa using hDrained)
  | take now hIdle _ =>
    apply h.attempting hCounted rfl rfl rfl
    · simp [hIdle]
    · simp
    · simp
  | work r hBusy =>
    apply h.attempting hCounted rfl rfl rfl
    · simp [hBusy]
    · simp
    · simp
  | finish hBusy =>
    apply h.attempting hCounted rfl rfl rfl
    · simp [hBusy]
    · simp
    · simp
  | shutdown =>
    constructor
    · simpa [enqueuedOf] using h.numbered
    · exact hCounted
    · exact fun _ => List.mem_append_right _ List.mem_cons_self
    · exact fun hExited => ⟨rfl, (h.exited hExited).2⟩
    · exact fun hDrained => h.drained (by simpa using hDrained)
  | exit _ hShutdown hHead =>
    constructor
    · simpa [enqueuedOf] using h.numbered
    · exact hCounted
    · exact hKeptFlag
    · exact fun _ => ⟨hShutdown, hHead⟩
    · exact fun _ => rfl
  | drain hExited =>
    constructor
    · simpa [enqueuedOf] using h.numbered
    · exact hCounted
    · exact hKeptFlag
    · exact fun _ => ⟨(h.exited hExited).1, rfl⟩
    · exact fun _ => hExited

theorem run_kept (hRun : Run (Reversal.Step env) .initial tr m) (hLast : ShutdownLast tr) :
    Kept tr m := by
  induction hRun with
  | nil => exact kept_initial
  | snoc hPrev hStep ih =>
    exact (ih hLast.of_snoc).step (Reversal.run_tracked hPrev) hLast hStep

/-- Together the places hold each task once. -/
theorem Kept.perm (h : Kept tr m) : (places.flatMap (tasksAt m tr)).Perm (List.range m.allocated) := by
  rw [List.perm_iff_count, ← h.numbered]
  intro a
  have hCounted := h.counted a
  simp only [countedAt, Machine.live, List.map_append, List.count_append] at hCounted
  simp only [places, List.flatMap_cons, List.flatMap_nil, tasksAt, List.count_append,
    List.count_nil]
  omega

theorem Kept.nodup (h : Kept tr m) : (places.flatMap (tasksAt m tr)).Nodup :=
  h.perm.nodup_iff.mpr List.nodup_range

theorem Kept.mem_iff (h : Kept tr m) {a : Nat} : a ∈ enqueued tr ↔ ∃ p, a ∈ tasksAt m tr p := by
  rw [h.numbered, ← h.perm.mem_iff, List.mem_flatMap]
  constructor
  · rintro ⟨p, -, ha⟩
    exact ⟨p, ha⟩
  · rintro ⟨p, ha⟩
    exact ⟨p, mem_places p, ha⟩

theorem Kept.place_unique (h : Kept tr m) {a : Nat} {p q : Place} (hp : a ∈ tasksAt m tr p)
    (hq : a ∈ tasksAt m tr q) : p = q := by
  have hApart := (List.nodup_flatMap.mp h.nodup).2
  by_contra hNe
  have hSymm : Std.Symm (Function.onFun List.Disjoint (tasksAt m tr)) :=
    ⟨fun _ _ hDisjoint => List.disjoint_symm hDisjoint⟩
  exact hApart.forall (mem_places p) (mem_places q) hNe hp hq

end Places

section Conservation

variable {env : Env} {tr : List Label} {m : Globals} {cells : List (Nat × ReversalTask)}

/-- The queue of `cells` neither loses nor duplicates tasks. -/
structure Conserved (env : Env) (tr : List Label) (m : Globals)
    (cells : List (Nat × ReversalTask)) : Prop where
  distinct : (enqueued tr).Nodup
  place : ∀ a ∈ enqueued tr, ∃! p, a ∈ tasksAt (m.machine cells) tr p
  once : ∀ p, (tasksAt (m.machine cells) tr p).Nodup
  known : ∀ p, ∀ a ∈ tasksAt (m.machine cells) tr p, a ∈ enqueued tr
  origin : ∀ c ∈ cells, Reversal.Enqueued tr c.2.address c.2.txnId
  limit : ∀ c ∈ cells, c.2.attempts < maxAttempts env
  push : ∀ a t fuel, a ∉ addresses cells → cells.length ≤ fuel →
    ∃ h head, queuePush (store m.heap a t) m.head a fuel = some (h, head) ∧
      LinkedList.Represents h head (cells ++ [(a, t)])
  popReady : ∀ now fuel, cells.length ≤ fuel →
    LinkedList.Unlinked (due now) m.heap m.head cells (queuePopReady now m.heap m.head fuel)
  released : m.worker = .exited → m.head = none
  drained : .drained ∈ tr → ∀ a ∈ enqueued tr, a ∈ succeeded tr ∨ a ∈ failed tr

theorem view_eq_exited {w : Worker} : w.view = .exited ↔ w = .exited := by
  cases w <;> simp [Worker.view]

theorem mem_live_of_mem {c : Nat × ReversalTask} (hc : c ∈ cells) : c.2 ∈ (m.machine cells).live := by
  apply List.mem_append_right
  exact List.mem_map_of_mem hc

theorem Sound.conserved (hs : Sound m cells) (hKept : Kept tr (m.machine cells))
    (hTracked : Reversal.Tracked env tr (m.machine cells)) : Conserved env tr m cells where
  distinct := hKept.numbered ▸ List.nodup_range
  place a ha := by
    obtain ⟨p, hp⟩ := hKept.mem_iff.mp ha
    exact ⟨p, hp, fun q hq => hKept.place_unique hq hp⟩
  once p := (List.nodup_flatMap.mp hKept.nodup).1 p (mem_places p)
  known p a ha := hKept.mem_iff.mpr ⟨p, ha⟩
  origin c hc := hTracked.origin c.2 (mem_live_of_mem hc)
  limit c hc := hTracked.limit c.2 (mem_live_of_mem hc)
  push a t fuel hNew hFuel := by
    obtain ⟨h, head, hPush, hPushed, -⟩ :=
      (represents_store hs.queue hNew t).append (store_self m.heap a t) hNew hFuel
    exact ⟨h, head, hPush, hPushed⟩
  popReady now fuel hFuel := hs.queue.unlinkFirst hFuel
  released hExited := by
    have hNone := (hKept.exited (view_eq_exited.mpr hExited)).2
    exact hs.queue.chain.eq_none_iff.mpr (List.map_eq_nil_iff.mp hNone)
  drained hDrained a ha := by
    have hExited := hKept.drained hDrained
    obtain ⟨p, hp⟩ := hKept.mem_iff.mp ha
    -- nothing is queued or held when the worker is gone
    cases p with
    | queue =>
      rw [tasksAt, (hKept.exited hExited).2] at hp
      cases hp
    | held =>
      rw [tasksAt, Machine.held, hExited] at hp
      cases hp
    | succeeded => exact .inl hp
    | failed => exact .inr hp

theorem run_conserved (hRun : Run (Step env) .initial tr m) (hLast : ShutdownLast tr) :
    ∃ cells, LinkedList.Represents m.heap m.head cells ∧ Conserved env tr m cells := by
  obtain ⟨cells, hs, hLists⟩ := run_refines hRun
  exact ⟨cells, hs.queue, hs.conserved (run_kept hLists hLast) (Reversal.run_tracked hLists)⟩

theorem run_attempt (hRun : Run (Step env) .initial tr m) {a : Nat} {task : ReversalTask}
    {p : SysProg Outcome} (hBusy : m.worker = .busy a task p) {events : List SysEvent}
    {outcome : Outcome} (hp : p.Runs events outcome) (hOver : ∀ t, outcome ≠ .retry t) :
    Run (Step env) .initial
      (tr ++ events.map (.worked task.address) ++ [.ended task.address outcome])
      { m with heap := m.heap.free a, worker := .idle } := by
  induction hp generalizing tr m with
  | ret outcome =>
    rw [List.map_nil, List.append_nil]
    exact hRun.snoc (.release hBusy hOver)
  | call r _ ih =>
    have hNext := ih (hRun.snoc (.work r hBusy)) rfl hOver
    rwa [List.append_assoc tr] at hNext

def sampleEvents : List SysEvent × Outcome :=
  (attempt Reversal.sampleEnv Reversal.sampleTask).runWith Sys.calm

/-- The shutdown finds a task in the queue and waits for its end. -/
def sampleTrace : List Label :=
  [.enqueued Reversal.sampleTask, .shutdown, .taken 0] ++ sampleEvents.1.map (.worked 0) ++
    [.ended 0 .succeeded] ++ [.exited] ++ [.drained]

theorem sampleTrace_run : ∃ m, Run (Step Reversal.sampleEnv) .initial sampleTrace m := by
  have hEnqueue : Run (Step Reversal.sampleEnv) .initial [.enqueued Reversal.sampleTask] _ :=
    Run.snoc .nil (@Step.enqueue _ _ Reversal.sampleRequest 0 7 0 _ _ rfl rfl)
  have hTake := (hEnqueue.snoc .shutdown).snoc
    (@Step.take _ _ 0 7 1 _ _ ⟨Reversal.sampleTask, none⟩ rfl rfl rfl)
  have hOver : sampleEvents.2 = .succeeded := rfl
  have hEnded := run_attempt hTake rfl (Prog.runs_runWith Sys.calm _) (by
    intro t
    exact hOver ▸ Outcome.noConfusion)
  exact ⟨_, (hEnded.snoc (.exit rfl rfl rfl)).snoc (@Step.drain _ _ 0 _ rfl rfl)⟩

theorem sampleTrace_shutdownLast : ShutdownLast sampleTrace := by
  apply List.pairwise_cons.mpr
  constructor
  · rintro l - t ⟨hShutdown, -⟩
    cases hShutdown
  · apply List.pairwise_of_forall_mem_list
    rintro l - _ hMem t ⟨-, rfl⟩
    simp at hMem

theorem run_conserved_sample : ∃ m cells, Run (Step Reversal.sampleEnv) .initial sampleTrace m ∧
    Conserved Reversal.sampleEnv sampleTrace m cells := by
  obtain ⟨m, hRun⟩ := sampleTrace_run
  obtain ⟨cells, -, hConserved⟩ := run_conserved hRun sampleTrace_shutdownLast
  exact ⟨m, cells, hRun, hConserved⟩

end Conservation

end MiniVisa.ReversalQueue
