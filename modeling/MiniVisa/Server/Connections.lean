import MiniVisa.Library.Slots
import MiniVisa.Server.ThreadPool

/-! # The connections of the server

The accept loop gets a descriptor from the kernel, allocates a context for it and submits the
context to the thread pool, or answers that the server is busy; the worker that takes the context
serves the descriptor, closes it and frees the context. The kernel never hands out a number that is
open, but it hands out a closed one again, so a second close would hit somebody else's connection.
-/

namespace MiniVisa.Connections

set_option autoImplicit false

open Transition ThreadPool

/-- Where `net_server_run` is, with its local variables `fd` and `ctx`; `cell` is the job that
`threadpool_submit` has allocated. -/
inductive Acceptor
  | idle
  | opened (fd : Nat)
  | built (fd ctx : Nat)
  | submitting (fd ctx cell : Nat)
  | refused (fd ctx : Nat)
  | told (fd ctx : Nat)
  | closed (ctx : Nat)
  | left
  deriving DecidableEq

inductive Stage
  | serving | closed | freed
  deriving DecidableEq

/-- A call of `handler_job`. `fd` is what it read from `ctx->client_fd`; there is nothing to read in
a context that is not allocated. -/
structure Service where
  ctx : Nat
  fd : Option Nat
  stage : Stage
  deriving DecidableEq

/-- `contexts` maps the allocated contexts to their `client_fd`, `services` has an entry for each
worker. -/
structure Server where
  pool : State Nat
  acceptor : Acceptor
  services : List (Option Service)
  descriptors : List Nat
  contexts : Nat → Option Nat
  serverBusy : Nat

def Server.start (numThreads queueCap : Int) : Server where
  pool := threadpoolCreate numThreads queueCap
  acceptor := .idle
  services := List.replicate (if numThreads ≤ 0 then 4 else numThreads.toNat) none
  descriptors := []
  contexts _ := none
  serverBusy := 0

inductive Event
  | accepted (fd : Nat)
  | noContext (fd : Nat)
  | built (ctx : Nat)
  | pool (l : Label Nat)
  | busyTold (fd : Nat)
  | busyClosed (fd : Nat)
  | busyFreed (ctx : Nat)
  | left
  | used (worker fd : Nat)
  | closed (worker fd : Nat)
  | freed (worker ctx : Nat)

/-- What a step of the pool that is not a worker's taking or finishing of a job means to the accept
loop; `none` where it cannot be. -/
def Acceptor.submit : Acceptor → Label Nat → Option Acceptor
  | .built fd ctx, .noMemory job => if job = ctx then some (.refused fd ctx) else none
  | .built fd ctx, .allocated a job => if job = ctx then some (.submitting fd ctx a) else none
  | .submitting fd ctx a, .refused b _ => if b = a then some (.refused fd ctx) else none
  | .submitting _ _ a, .accepted b _ => if b = a then some .idle else none
  | .left, .shutdown => some .left
  | s, .waited _ => some s
  | s, .woke _ => some s
  | s, .missed _ => some s
  | s, .exited _ => some s
  | _, _ => none

inductive Step (s : Server) : Event → Server → Prop
  | accept {fd : Nat} : s.acceptor = .idle → fd ∉ s.descriptors →
      Step s (.accepted fd)
        { s with acceptor := .opened fd, descriptors := fd :: s.descriptors }
  | noContext {fd : Nat} : s.acceptor = .opened fd →
      Step s (.noContext fd) { s with acceptor := .idle, descriptors := s.descriptors.erase fd }
  | build {fd ctx : Nat} : s.acceptor = .opened fd → s.contexts ctx = none →
      Step s (.built ctx)
        { s with
          acceptor := .built fd ctx
          contexts := Function.update s.contexts ctx (some fd) }
  | submit {l : Label Nat} {p : State Nat} {acceptor : Acceptor} : ThreadPool.Step s.pool l p →
      s.acceptor.submit l = some acceptor →
      Step s (.pool l) { s with pool := p, acceptor := acceptor }
  | take {i ctx : Nat} {p : State Nat} : ThreadPool.Step s.pool (.took i ctx) p →
      Step s (.pool (.took i ctx))
        { s with
          pool := p
          services := s.services.set i (some ⟨ctx, s.contexts ctx, .serving⟩) }
  | run {i ctx : Nat} {p : State Nat} {job : Service} : ThreadPool.Step s.pool (.ran i ctx) p →
      s.services[i]? = some (some job) → job.stage = .freed →
      Step s (.pool (.ran i ctx)) { s with pool := p, services := s.services.set i none }
  | tellBusy {fd ctx : Nat} : s.acceptor = .refused fd ctx →
      Step s (.busyTold fd) { s with acceptor := .told fd ctx, serverBusy := s.serverBusy + 1 }
  | closeBusy {fd ctx : Nat} : s.acceptor = .told fd ctx →
      Step s (.busyClosed fd)
        { s with acceptor := .closed ctx, descriptors := s.descriptors.erase fd }
  | freeBusy {ctx : Nat} : s.acceptor = .closed ctx →
      Step s (.busyFreed ctx)
        { s with acceptor := .idle, contexts := Function.update s.contexts ctx none }
  | leave : s.acceptor = .idle → Step s .left { s with acceptor := .left }
  | use {i fd ctx : Nat} : s.services[i]? = some (some ⟨ctx, some fd, .serving⟩) →
      Step s (.used i fd) s
  | close {i fd ctx : Nat} : s.services[i]? = some (some ⟨ctx, some fd, .serving⟩) →
      Step s (.closed i fd)
        { s with
          services := s.services.set i (some ⟨ctx, some fd, .closed⟩)
          descriptors := s.descriptors.erase fd }
  | free {i ctx : Nat} {fd : Option Nat} : s.services[i]? = some (some ⟨ctx, fd, .closed⟩) →
      Step s (.freed i ctx)
        { s with
          services := s.services.set i (some ⟨ctx, fd, .freed⟩)
          contexts := Function.update s.contexts ctx none }

abbrev ServerRun (numThreads queueCap : Int) (tr : List Event) (s : Server) : Prop :=
  Run Step (.start numThreads queueCap) tr s

section Views

def poolLabel : Event → Option (Label Nat)
  | .pool l => some l
  | _ => none

def poolLabels (tr : List Event) : List (Label Nat) := tr.filterMap poolLabel

/-- Its steps on the pool are steps of the pool. -/
theorem run_pool {numThreads queueCap : Int} {tr : List Event} {s : Server}
    (hRun : ServerRun numThreads queueCap tr s) :
    PoolRun numThreads queueCap (poolLabels tr) s.pool := by
  apply hRun.project Server.pool poolLabel
  · intro s l s' k hStep hView
    cases hStep <;> cases hView <;> assumption
  · intro s l s' hStep hView
    cases hStep <;> first | rfl | cases hView

def openedOf : Event → List Nat
  | .accepted fd => [fd]
  | _ => []

def closedOf : Event → List Nat
  | .noContext fd | .busyClosed fd | .closed _ fd => [fd]
  | _ => []

/-- The descriptors an event reads, writes or closes. -/
def descriptorsOf : Event → List Nat
  | .noContext fd | .busyTold fd | .busyClosed fd | .used _ fd | .closed _ fd => [fd]
  | _ => []

/-- The contexts an event reads or frees. -/
def contextsOf : Event → List Nat
  | .pool (.took _ ctx) | .busyFreed ctx | .freed _ ctx => [ctx]
  | _ => []

def builtOf : Event → List Nat
  | .built ctx => [ctx]
  | _ => []

def freedOf : Event → List Nat
  | .busyFreed ctx | .freed _ ctx => [ctx]
  | _ => []

def refusedOf : Event → List Nat
  | .pool (.noMemory job) => [job]
  | .pool (.refused _ job) => [job]
  | _ => []

end Views

section Custody

def Acceptor.context : Acceptor → Option Nat
  | .built _ ctx | .submitting _ ctx _ | .refused _ ctx | .told _ ctx | .closed ctx => some ctx
  | .idle | .opened _ | .left => none

def Acceptor.descriptor : Acceptor → Option Nat
  | .opened fd | .built fd _ | .submitting fd _ _ | .refused fd _ | .told fd _ => some fd
  | .idle | .closed _ | .left => none

def Service.context (job : Service) : Option Nat :=
  if job.stage = .freed then none else some job.ctx

def Service.descriptor (job : Service) : Option Nat :=
  if job.stage = .serving then job.fd else none

def heldContext (slot : Option Service) : Option Nat := slot.bind Service.context

def heldDescriptor (slot : Option Service) : Option Nat := slot.bind Service.descriptor

/-- Who answers for a context: the accept loop, the queue, a worker. -/
def Server.contextOwners (s : Server) (queue : List Nat) : List Nat :=
  s.acceptor.context.toList ++ queue ++ s.services.filterMap heldContext

def Server.descriptorOwners (s : Server) (queue : List Nat) : List Nat :=
  s.acceptor.descriptor.toList ++ queue.filterMap s.contexts ++ s.services.filterMap heldDescriptor

theorem count_contextOwners (s : Server) (queue : List Nat) (c : Nat) :
    (s.contextOwners queue).count c =
      s.acceptor.context.toList.count c + queue.count c +
        (s.services.filterMap heldContext).count c := by
  simp only [Server.contextOwners, List.count_append]

theorem count_descriptorOwners (s : Server) (queue : List Nat) (fd : Nat) :
    (s.descriptorOwners queue).count fd =
      s.acceptor.descriptor.toList.count fd + (queue.filterMap s.contexts).count fd +
        (s.services.filterMap heldDescriptor).count fd := by
  rw [Server.descriptorOwners, List.count_append, List.count_append]

def busyWorker : Worker → Bool
  | .running _ => true
  | _ => false

/-- Every allocated context and every open descriptor has one owner. -/
structure Owned (tr : List Event) (s : Server) (queue : List Nat) : Prop where
  fifo : dequeued (poolLabels tr) ++ queue = accepted (poolLabels tr)
  contexts : ∀ c, (s.contextOwners queue).count c = (s.contexts c).toList.length
  descriptors : ∀ fd, (s.descriptorOwners queue).count fd = s.descriptors.count fd
  nodup : s.descriptors.Nodup
  filled : ∀ fd ctx, s.acceptor.descriptor = some fd → s.acceptor.context = some ctx →
    s.contexts ctx = some fd
  read : ∀ job, some job ∈ s.services → job.stage ≠ .freed →
    ∃ fd, job.fd = some fd ∧ s.contexts job.ctx = some fd
  cell : ∀ fd ctx a, s.acceptor = .submitting fd ctx a →
    a ∈ s.pool.pending ∧ s.pool.heap a = some ⟨ctx, none⟩
  matched : s.services.map Option.isSome = s.pool.workers.map busyWorker

variable {numThreads queueCap : Int} {tr : List Event} {s s' : Server} {e : Event}
  {queue : List Nat}

theorem owned_start (numThreads queueCap : Int) : Owned [] (.start numThreads queueCap) [] := by
  have hServices : (Server.start numThreads queueCap).services.filterMap heldContext = [] ∧
      (Server.start numThreads queueCap).services.filterMap heldDescriptor = [] := by
    constructor <;>
    · apply List.filterMap_eq_nil_iff.mpr
      intro slot hSlot
      rw [List.eq_of_mem_replicate hSlot]
      rfl
  constructor
  case fifo => rfl
  case contexts =>
    intro c
    rw [Server.contextOwners, hServices.1]
    rfl
  case descriptors =>
    intro fd
    rw [Server.descriptorOwners, hServices.2]
    rfl
  case nodup => exact List.nodup_nil
  case filled =>
    intro fd ctx hfd
    cases hfd
  case read =>
    intro job hJob
    cases List.eq_of_mem_replicate hJob
  case cell =>
    intro fd ctx a hAcceptor
    cases hAcceptor
  case matched => simp [Server.start, threadpoolCreate, busyWorker]

/-- A context that is not allocated is nobody's. -/
theorem Owned.not_owned (h : Owned tr s queue) {c : Nat} (hc : s.contexts c = none) :
    c ∉ s.contextOwners queue := by
  intro hMem
  have hCount := h.contexts c
  rw [hc, Option.toList_none, List.length_nil] at hCount
  exact List.count_eq_zero.mp hCount hMem

theorem Owned.allocated (h : Owned tr s queue) {c : Nat} (hc : c ∈ s.contextOwners queue) :
    s.contexts c ≠ none := fun hNone => h.not_owned hNone hc

/-- The owner of a context is not met a second time in the queue. -/
theorem Owned.count_le (h : Owned tr s queue) (c : Nat) : (s.contextOwners queue).count c ≤ 1 := by
  rw [h.contexts]
  cases s.contexts c <;> simp

theorem Owned.open_of_owner (h : Owned tr s queue) {fd : Nat} (hfd : fd ∈ s.descriptorOwners queue) :
    fd ∈ s.descriptors := by
  rw [← List.count_pos_iff] at hfd ⊢
  rwa [← h.descriptors]

theorem filterMap_update {queue : List Nat} {contexts : Nat → Option Nat} {c : Nat} (hc : c ∉ queue)
    (v : Option Nat) : queue.filterMap (Function.update contexts c v) = queue.filterMap contexts := by
  apply List.filterMap_congr
  intro d hd
  apply Function.update_of_ne
  rintro rfl
  exact hc hd

theorem poolLabels_snoc (tr : List Event) (e : Event) :
    poolLabels (tr ++ [e]) = poolLabels tr ++ (poolLabel e).toList := by
  rw [poolLabels, List.filterMap_append]
  cases hView : poolLabel e with
  | none => rw [List.filterMap_cons_none hView]; rfl
  | some l => rw [List.filterMap_cons_some hView]; rfl

/-- A step of the accept loop by itself leaves the queue and the services alone. -/
theorem Owned.accept (h : Owned tr s queue) {fd : Nat} (hIdle : s.acceptor = .idle)
    (hNew : fd ∉ s.descriptors) :
    Owned (tr ++ [.accepted fd])
      { s with acceptor := .opened fd, descriptors := fd :: s.descriptors } queue := by
  constructor
  case fifo => simpa [poolLabels_snoc, poolLabel] using h.fifo
  case contexts =>
    intro c
    simpa [Server.contextOwners, Acceptor.context, hIdle] using h.contexts c
  case descriptors =>
    intro d
    have hOld := h.descriptors d
    rw [count_descriptorOwners, hIdle] at hOld
    rw [count_descriptorOwners]
    change [fd].count d + (queue.filterMap s.contexts).count d +
      (s.services.filterMap heldDescriptor).count d = (fd :: s.descriptors).count d
    change 0 + _ + _ = _ at hOld
    rw [List.count_cons, List.count_nil, List.count_cons]
    omega
  case nodup => exact List.nodup_cons.mpr ⟨hNew, h.nodup⟩
  case filled => simp [Acceptor.context]
  case read => exact h.read
  case cell => simp
  case matched => exact h.matched

/-- An owner that closes its descriptor. -/
theorem count_erase_owner {l l' : List Nat} {fd : Nat} (hMem : fd ∈ l) (hNodup : l.Nodup)
    (hCounts : ∀ d, l'.count d + [fd].count d = l.count d) (d : Nat) :
    l'.count d = (l.erase fd).count d := by
  have hd := hCounts d
  by_cases hEq : d = fd
  · subst hEq
    rw [List.count_erase_self]
    have hOne := List.count_eq_one_of_mem hNodup hMem
    simp at hd
    omega
  · rw [List.count_erase_of_ne hEq]
    simp [Ne.symm hEq] at hd
    exact hd

theorem Owned.noContext (h : Owned tr s queue) {fd : Nat} (hOpened : s.acceptor = .opened fd) :
    fd ∈ s.descriptors ∧ Owned (tr ++ [.noContext fd])
      { s with acceptor := .idle, descriptors := s.descriptors.erase fd } queue := by
  have hOpen : fd ∈ s.descriptors := h.open_of_owner (by
    simp [Server.descriptorOwners, hOpened, Acceptor.descriptor])
  refine ⟨hOpen, ?_⟩
  constructor
  case fifo => simpa [poolLabels_snoc, poolLabel] using h.fifo
  case contexts =>
    intro c
    simpa [Server.contextOwners, Acceptor.context, hOpened] using h.contexts c
  case descriptors =>
    apply count_erase_owner hOpen h.nodup
    intro d
    have hOld := h.descriptors d
    rw [count_descriptorOwners, hOpened] at hOld
    rw [count_descriptorOwners]
    change 0 + (queue.filterMap s.contexts).count d +
      (s.services.filterMap heldDescriptor).count d + [fd].count d = s.descriptors.count d
    change [fd].count d + _ + _ = _ at hOld
    omega
  case nodup => exact h.nodup.erase _
  case filled => simp [Acceptor.context]
  case read => exact h.read
  case cell => simp
  case matched => exact h.matched

theorem Owned.build (h : Owned tr s queue) {fd ctx : Nat} (hOpened : s.acceptor = .opened fd)
    (hFree : s.contexts ctx = none) :
    Owned (tr ++ [.built ctx])
      { s with
        acceptor := .built fd ctx
        contexts := Function.update s.contexts ctx (some fd) } queue := by
  have hNobody := h.not_owned hFree
  have hQueue : ctx ∉ queue := fun hMem => hNobody (by simp [Server.contextOwners, hMem])
  constructor
  case fifo => simpa [poolLabels_snoc, poolLabel] using h.fifo
  case contexts =>
    intro c
    have hOld := h.contexts c
    simp only [Server.contextOwners, hOpened, Acceptor.context, Option.toList, List.count_append,
      List.count_cons, List.count_nil] at hOld ⊢
    by_cases hc : c = ctx
    · subst hc
      rw [hFree] at hOld
      simp only [Function.update_self, beq_self_eq_true, if_true, List.length_nil,
        List.length_singleton] at hOld ⊢
      omega
    · rw [Function.update_of_ne hc]
      have hNe : (ctx == c) = false := by simpa using Ne.symm hc
      simp only [hNe, Bool.false_eq_true, if_false] at hOld ⊢
      omega
  case descriptors =>
    intro d
    have hOld := h.descriptors d
    simpa [Server.descriptorOwners, hOpened, Acceptor.descriptor, filterMap_update hQueue] using hOld
  case nodup => exact h.nodup
  case filled =>
    rintro _ _ ⟨⟩ ⟨⟩
    exact Function.update_self _ _ _
  case read =>
    intro job hJob hStage
    obtain ⟨n, hfd, hRead⟩ := h.read job hJob hStage
    refine ⟨n, hfd, (Function.update_of_ne ?_ _ _).trans hRead⟩
    intro hEq
    rw [hEq, hFree] at hRead
    cases hRead
  case cell => simp
  case matched => exact h.matched

/-- Freeing a context that no one but the accept loop or one worker answers for. -/
theorem Owned.unread (h : Owned tr s queue) {ctx : Nat} (hQueue : ctx ∉ queue)
    (hServices : ctx ∉ s.services.filterMap heldContext) :
    (queue.filterMap (Function.update s.contexts ctx none) = queue.filterMap s.contexts) ∧
    ∀ job, some job ∈ s.services → job.stage ≠ .freed →
      ∃ fd, job.fd = some fd ∧ Function.update s.contexts ctx none job.ctx = some fd := by
  refine ⟨filterMap_update hQueue none, ?_⟩
  intro job hJob hStage
  obtain ⟨n, hfd, hRead⟩ := h.read job hJob hStage
  refine ⟨n, hfd, (Function.update_of_ne ?_ _ _).trans hRead⟩
  rintro rfl
  apply hServices
  exact List.mem_filterMap.mpr ⟨_, hJob, by simp [heldContext, Service.context, hStage]⟩

theorem update_none_toList (contexts : Nat → Option Nat) (ctx c : Nat) :
    (Function.update contexts ctx none c).toList.length =
      if c = ctx then 0 else (contexts c).toList.length := by
  by_cases hc : c = ctx
  · subst hc
    simp
  · rw [Function.update_of_ne hc, if_neg hc]

theorem Owned.freeBusy (h : Owned tr s queue) {ctx : Nat} (hClosed : s.acceptor = .closed ctx) :
    s.contexts ctx ≠ none ∧ Owned (tr ++ [.busyFreed ctx])
      { s with acceptor := .idle, contexts := Function.update s.contexts ctx none } queue := by
  have hAllocated : s.contexts ctx ≠ none := h.allocated (by
    simp [Server.contextOwners, hClosed, Acceptor.context])
  have hLe := h.count_le ctx
  simp only [Server.contextOwners, hClosed, Acceptor.context, Option.toList, List.count_append,
    List.count_singleton_self] at hLe
  have hQueue : ctx ∉ queue := List.count_eq_zero.mp (by omega)
  have hServices : ctx ∉ s.services.filterMap heldContext := List.count_eq_zero.mp (by omega)
  obtain ⟨hFilter, hRead⟩ := h.unread hQueue hServices
  refine ⟨hAllocated, ?_⟩
  constructor
  case fifo => simpa [poolLabels_snoc, poolLabel] using h.fifo
  case contexts =>
    intro c
    have hOld := h.contexts c
    rw [update_none_toList]
    simp only [Server.contextOwners, hClosed, Acceptor.context, Option.toList, List.count_append,
      List.count_cons, List.count_nil] at hOld ⊢
    split
    · rename_i hc
      subst hc
      rw [List.count_eq_zero.mpr hQueue, List.count_eq_zero.mpr hServices]
    · rename_i hc
      have hNe : (ctx == c) = false := by simpa using Ne.symm hc
      simp only [hNe, Bool.false_eq_true, if_false] at hOld
      omega
  case descriptors =>
    intro d
    simpa [Server.descriptorOwners, hClosed, Acceptor.descriptor, hFilter] using h.descriptors d
  case nodup => exact h.nodup
  case filled => simp [Acceptor.context]
  case read => exact hRead
  case cell => simp
  case matched => exact h.matched

theorem Owned.tellBusy (h : Owned tr s queue) {fd ctx : Nat} (hRefused : s.acceptor = .refused fd ctx) :
    Owned (tr ++ [.busyTold fd])
      { s with acceptor := .told fd ctx, serverBusy := s.serverBusy + 1 } queue := by
  have hFilled := h.filled fd ctx
  constructor
  case fifo => simpa [poolLabels_snoc, poolLabel] using h.fifo
  case contexts =>
    intro c
    simpa [Server.contextOwners, Acceptor.context, hRefused] using h.contexts c
  case descriptors =>
    intro d
    simpa [Server.descriptorOwners, Acceptor.descriptor, hRefused] using h.descriptors d
  case nodup => exact h.nodup
  case filled =>
    rintro _ _ ⟨⟩ ⟨⟩
    exact hFilled (by rw [hRefused]; rfl) (by rw [hRefused]; rfl)
  case read => exact h.read
  case cell => simp
  case matched => exact h.matched

theorem Owned.closeBusy (h : Owned tr s queue) {fd ctx : Nat} (hTold : s.acceptor = .told fd ctx) :
    fd ∈ s.descriptors ∧ Owned (tr ++ [.busyClosed fd])
      { s with acceptor := .closed ctx, descriptors := s.descriptors.erase fd } queue := by
  have hOpen : fd ∈ s.descriptors := h.open_of_owner (by
    simp [Server.descriptorOwners, hTold, Acceptor.descriptor])
  refine ⟨hOpen, ?_⟩
  constructor
  case fifo => simpa [poolLabels_snoc, poolLabel] using h.fifo
  case contexts =>
    intro c
    simpa [Server.contextOwners, Acceptor.context, hTold] using h.contexts c
  case descriptors =>
    apply count_erase_owner hOpen h.nodup
    intro d
    have hOld := h.descriptors d
    rw [count_descriptorOwners, hTold] at hOld
    rw [count_descriptorOwners]
    change 0 + (queue.filterMap s.contexts).count d +
      (s.services.filterMap heldDescriptor).count d + [fd].count d = s.descriptors.count d
    change [fd].count d + _ + _ = _ at hOld
    omega
  case nodup => exact h.nodup.erase _
  case filled => simp [Acceptor.descriptor]
  case read => exact h.read
  case cell => simp
  case matched => exact h.matched

theorem Owned.leave (h : Owned tr s queue) (hIdle : s.acceptor = .idle) :
    Owned (tr ++ [.left]) { s with acceptor := .left } queue := by
  constructor
  case fifo => simpa [poolLabels_snoc, poolLabel] using h.fifo
  case contexts =>
    intro c
    simpa [Server.contextOwners, Acceptor.context, hIdle] using h.contexts c
  case descriptors =>
    intro d
    simpa [Server.descriptorOwners, Acceptor.descriptor, hIdle] using h.descriptors d
  case nodup => exact h.nodup
  case filled => simp [Acceptor.context]
  case read => exact h.read
  case cell => simp
  case matched => exact h.matched

theorem map_set_same {γ δ : Type} {slots : List γ} {i : Nat} {x y : γ} (f : γ → δ)
    (h : slots[i]? = some x) (hSame : f y = f x) : (slots.set i y).map f = slots.map f := by
  obtain ⟨before, after, hEq, hSet⟩ := Slots.exists_split h
  rw [hSet, hEq, List.map_append, List.map_append, List.map_cons, List.map_cons, hSame]

theorem some_mem_set {slots : List (Option Service)} {i : Nat} {job : Service} {slot : Option Service}
    (h : some job ∈ slots.set i slot) : some job ∈ slots ∨ slot = some job := by
  rcases List.mem_or_eq_of_mem_set h with h | h
  · exact .inl h
  · exact .inr h.symm

theorem Owned.close (h : Owned tr s queue) {i fd ctx : Nat}
    (hJob : s.services[i]? = some (some ⟨ctx, some fd, .serving⟩)) :
    fd ∈ s.descriptors ∧ Owned (tr ++ [.closed i fd])
      { s with
        services := s.services.set i (some ⟨ctx, some fd, .closed⟩)
        descriptors := s.descriptors.erase fd } queue := by
  have hMem : some ⟨ctx, some fd, .serving⟩ ∈ s.services := List.mem_of_getElem? hJob
  have hOpen : fd ∈ s.descriptors := by
    apply h.open_of_owner
    apply List.mem_append_right
    exact List.mem_filterMap.mpr ⟨_, hMem, rfl⟩
  refine ⟨hOpen, ?_⟩
  constructor
  case fifo => simpa [poolLabels_snoc, poolLabel] using h.fifo
  case contexts =>
    intro c
    have hOld := h.contexts c
    have hSet := Slots.count_filterMap_set heldContext hJob (some ⟨ctx, some fd, .closed⟩) c
    change _ + [ctx].count c = _ + [ctx].count c at hSet
    rw [count_contextOwners] at hOld ⊢
    dsimp only
    omega
  case descriptors =>
    apply count_erase_owner hOpen h.nodup
    intro d
    have hOld := h.descriptors d
    have hSet := Slots.count_filterMap_set heldDescriptor hJob (some ⟨ctx, some fd, .closed⟩) d
    change _ + [fd].count d = _ + 0 at hSet
    rw [count_descriptorOwners] at hOld ⊢
    dsimp only
    omega
  case nodup => exact h.nodup.erase _
  case filled => exact h.filled
  case read =>
    intro job hMem' hStage
    rcases some_mem_set hMem' with hOld | hNew
    · exact h.read job hOld hStage
    · cases hNew
      exact h.read ⟨ctx, some fd, .serving⟩ hMem (by simp)
  case cell => exact h.cell
  case matched => exact (map_set_same Option.isSome hJob (y := some ⟨ctx, some fd, .closed⟩) rfl).trans h.matched

theorem Owned.free (h : Owned tr s queue) {i ctx : Nat} {fd : Option Nat}
    (hJob : s.services[i]? = some (some ⟨ctx, fd, .closed⟩)) :
    s.contexts ctx ≠ none ∧ Owned (tr ++ [.freed i ctx])
      { s with
        services := s.services.set i (some ⟨ctx, fd, .freed⟩)
        contexts := Function.update s.contexts ctx none } queue := by
  have hMem : some ⟨ctx, fd, .closed⟩ ∈ s.services := List.mem_of_getElem? hJob
  have hOwner : ctx ∈ s.services.filterMap heldContext := List.mem_filterMap.mpr ⟨_, hMem, rfl⟩
  have hAllocated : s.contexts ctx ≠ none := h.allocated (List.mem_append_right _ hOwner)
  have hLe := h.count_le ctx
  have hSet := fun c => Slots.count_filterMap_set heldContext hJob (some ⟨ctx, fd, .freed⟩) c
  change ∀ c, _ + [ctx].count c = _ + 0 at hSet
  have hOne := hSet ctx
  rw [count_contextOwners] at hLe
  rw [List.count_singleton_self] at hOne
  have hAcceptor : s.acceptor.context ≠ some ctx := by
    intro hEq
    rw [hEq, Option.toList_some, List.count_singleton_self] at hLe
    omega
  have hQueue : ctx ∉ queue := List.count_eq_zero.mp (by omega)
  have hServices : ctx ∉ (s.services.set i (some ⟨ctx, fd, .freed⟩)).filterMap heldContext :=
    List.count_eq_zero.mp (by omega)
  refine ⟨hAllocated, ?_⟩
  constructor
  case fifo => simpa [poolLabels_snoc, poolLabel] using h.fifo
  case contexts =>
    intro c
    have hOld := h.contexts c
    have hNew := hSet c
    rw [update_none_toList]
    rw [count_contextOwners] at hOld ⊢
    dsimp only
    split
    · rename_i hc
      subst hc
      have hZero : s.acceptor.context.toList.count c = 0 := by
        apply List.count_eq_zero.mpr
        rwa [Option.mem_toList]
      rw [hZero, List.count_eq_zero.mpr hQueue, List.count_eq_zero.mpr hServices]
    · rename_i hc
      rw [List.count_singleton, if_neg (by simpa using Ne.symm hc)] at hNew
      omega
  case descriptors =>
    intro d
    have hOld := h.descriptors d
    have hNew := Slots.count_filterMap_set heldDescriptor hJob (some ⟨ctx, fd, .freed⟩) d
    change _ + 0 = _ + 0 at hNew
    rw [count_descriptorOwners] at hOld ⊢
    dsimp only
    rw [filterMap_update hQueue]
    omega
  case nodup => exact h.nodup
  case filled =>
    intro n c hfd hc
    refine (Function.update_of_ne ?_ _ _).trans (h.filled n c hfd hc)
    rintro rfl
    exact hAcceptor hc
  case read =>
    intro job hMem' hStage
    have hOther : some job ∈ s.services := by
      rcases some_mem_set hMem' with hOld | hNew
      · exact hOld
      · cases hNew
        exact absurd rfl hStage
    obtain ⟨n, hfd, hRead⟩ := h.read job hOther hStage
    refine ⟨n, hfd, (Function.update_of_ne ?_ _ _).trans hRead⟩
    rintro rfl
    apply hServices
    exact List.mem_filterMap.mpr ⟨_, hMem', by simp [heldContext, Service.context, hStage]⟩
  case cell => exact h.cell
  case matched => exact (map_set_same Option.isSome hJob (y := some ⟨ctx, fd, .freed⟩) rfl).trans h.matched

section Submit

variable {acceptor acceptor' : Acceptor} {a job : Nat}

theorem submit_noMemory (h : acceptor.submit (.noMemory job) = some acceptor') :
    ∃ fd, acceptor = .built fd job ∧ acceptor' = .refused fd job := by
  cases acceptor with
  | built fd ctx =>
    rw [Acceptor.submit] at h
    split at h
    · rename_i hJob
      subst hJob
      cases h
      exact ⟨fd, rfl, rfl⟩
    · cases h
  | _ => cases h

theorem submit_allocated (h : acceptor.submit (.allocated a job) = some acceptor') :
    ∃ fd, acceptor = .built fd job ∧ acceptor' = .submitting fd job a := by
  cases acceptor with
  | built fd ctx =>
    rw [Acceptor.submit] at h
    split at h
    · rename_i hJob
      subst hJob
      cases h
      exact ⟨fd, rfl, rfl⟩
    · cases h
  | _ => cases h

theorem submit_refused (h : acceptor.submit (.refused a job) = some acceptor') :
    ∃ fd ctx, acceptor = .submitting fd ctx a ∧ acceptor' = .refused fd ctx := by
  cases acceptor with
  | submitting fd ctx b =>
    rw [Acceptor.submit] at h
    split at h
    · rename_i hCell
      subst hCell
      cases h
      exact ⟨fd, ctx, rfl, rfl⟩
    · cases h
  | _ => cases h

theorem submit_accepted (h : acceptor.submit (.accepted a job) = some acceptor') :
    ∃ fd ctx, acceptor = .submitting fd ctx a ∧ acceptor' = .idle := by
  cases acceptor with
  | submitting fd ctx b =>
    rw [Acceptor.submit] at h
    split at h
    · rename_i hCell
      subst hCell
      cases h
      exact ⟨fd, ctx, rfl, rfl⟩
    · cases h
  | _ => cases h

theorem submit_shutdown (h : acceptor.submit .shutdown = some acceptor') :
    acceptor = .left ∧ acceptor' = .left := by
  cases acceptor with
  | left =>
    cases h
    exact ⟨rfl, rfl⟩
  | _ => cases h

theorem submit_worker {i : Nat} {l : Label Nat}
    (hl : l = .waited i ∨ l = .woke i ∨ l = .missed i ∨ l = .exited i)
    (h : acceptor.submit l = some acceptor') : acceptor' = acceptor := by
  rcases hl with rfl | rfl | rfl | rfl <;> cases acceptor <;> cases h <;> rfl

end Submit

/-- A step of the pool that moves no job and lets the accept loop keep what it has. -/
theorem Owned.still (h : Owned tr s queue) {l : Label Nat} {p : State Nat} {acceptor : Acceptor}
    (hJobs : acceptedOf l = [] ∧ takenOf l = [])
    (hOwner : acceptor.context = s.acceptor.context ∧ acceptor.descriptor = s.acceptor.descriptor)
    (hCell : ∀ fd ctx a, acceptor = .submitting fd ctx a →
      a ∈ p.pending ∧ p.heap a = some ⟨ctx, none⟩)
    (hMatched : p.workers.map busyWorker = s.pool.workers.map busyWorker) :
    Owned (tr ++ [.pool l]) { s with pool := p, acceptor := acceptor } queue := by
  constructor
  case fifo => simpa [poolLabels_snoc, poolLabel, hJobs.1, hJobs.2] using h.fifo
  case contexts =>
    intro c
    simpa [Server.contextOwners, hOwner.1] using h.contexts c
  case descriptors =>
    intro d
    simpa [Server.descriptorOwners, hOwner.2] using h.descriptors d
  case nodup => exact h.nodup
  case filled =>
    intro fd ctx hfd hctx
    exact h.filled fd ctx (hOwner.2 ▸ hfd) (hOwner.1 ▸ hctx)
  case read => exact h.read
  case cell => exact hCell
  case matched => exact h.matched.trans hMatched.symm

theorem Owned.accepted (h : Owned tr s queue) {fd ctx a : Nat} {p : State Nat}
    (hSubmitting : s.acceptor = .submitting fd ctx a) (hWorkers : p.workers = s.pool.workers) :
    Owned (tr ++ [.pool (.accepted a ctx)]) { s with pool := p, acceptor := .idle }
      (queue ++ [ctx]) := by
  have hFilled : s.contexts ctx = some fd :=
    h.filled fd ctx (by rw [hSubmitting]; rfl) (by rw [hSubmitting]; rfl)
  constructor
  case fifo =>
    rw [poolLabels_snoc, poolLabel, Option.toList_some, dequeued_snoc, accepted_snoc, ← h.fifo]
    simp [acceptedOf, takenOf]
  case contexts =>
    intro c
    have hOld := h.contexts c
    rw [count_contextOwners, hSubmitting] at hOld
    rw [count_contextOwners, List.count_append]
    change [ctx].count c + _ + _ = _ at hOld
    change 0 + _ + _ = _
    dsimp only
    omega
  case descriptors =>
    intro d
    have hOld := h.descriptors d
    rw [count_descriptorOwners, hSubmitting] at hOld
    rw [count_descriptorOwners, List.filterMap_append, List.count_append,
      List.filterMap_cons_some hFilled, List.filterMap_nil]
    change [fd].count d + _ + _ = _ at hOld
    change 0 + _ + _ = _
    dsimp only
    omega
  case nodup => exact h.nodup
  case filled => simp [Acceptor.context]
  case read => exact h.read
  case cell => simp
  case matched => exact h.matched.trans (by rw [hWorkers])

theorem Owned.idle_slot (h : Owned tr s queue) {i : Nat} {w : Worker}
    (hWorker : s.pool.workers[i]? = some w) (hIdle : busyWorker w = false) :
    s.services[i]? = some none := by
  have hSlot : (s.services.map Option.isSome)[i]? = some false := by
    rw [h.matched, List.getElem?_map, hWorker, Option.map_some, hIdle]
  rw [List.getElem?_map, Option.map_eq_some_iff] at hSlot
  obtain ⟨slot, hGet, hNone⟩ := hSlot
  cases slot with
  | none => exact hGet
  | some job => cases hNone

theorem Owned.take {ctx i a : Nat} (h : Owned tr s (ctx :: queue)) {p : State Nat}
    (hWorker : s.pool.workers[i]? = some .ready)
    (hWorkers : p.workers = s.pool.workers.set i (.running a))
    (hKept : p.pending = s.pool.pending ∧ p.heap = s.pool.heap) :
    s.contexts ctx ≠ none ∧ Owned (tr ++ [.pool (.took i ctx)])
      { s with
        pool := p
        services := s.services.set i (some ⟨ctx, s.contexts ctx, .serving⟩) } queue := by
  have hSlot := h.idle_slot hWorker rfl
  have hAllocated : s.contexts ctx ≠ none :=
    h.allocated (by simp [Server.contextOwners])
  obtain ⟨fd, hFd⟩ := Option.ne_none_iff_exists'.mp hAllocated
  refine ⟨hAllocated, ?_⟩
  rw [hFd]
  constructor
  case fifo =>
    rw [poolLabels_snoc, poolLabel, Option.toList_some, dequeued_snoc, accepted_snoc, ← h.fifo]
    simp [acceptedOf, takenOf]
  case contexts =>
    intro c
    have hOld := h.contexts c
    have hSet := Slots.count_filterMap_set heldContext hSlot (some ⟨ctx, some fd, .serving⟩) c
    change _ + 0 = _ + [ctx].count c at hSet
    rw [count_contextOwners, List.count_cons] at hOld
    rw [count_contextOwners]
    rw [List.count_singleton] at hSet
    dsimp only
    omega
  case descriptors =>
    intro d
    have hOld := h.descriptors d
    have hSet := Slots.count_filterMap_set heldDescriptor hSlot (some ⟨ctx, some fd, .serving⟩) d
    change _ + 0 = _ + [fd].count d at hSet
    rw [count_descriptorOwners, List.filterMap_cons_some hFd, List.count_cons] at hOld
    rw [count_descriptorOwners]
    rw [List.count_singleton] at hSet
    dsimp only
    omega
  case nodup => exact h.nodup
  case filled => exact h.filled
  case read =>
    intro job hMem hStage
    rcases some_mem_set hMem with hOld | hNew
    · exact h.read job hOld hStage
    · cases hNew
      exact ⟨fd, rfl, hFd⟩
  case cell =>
    rw [hKept.1, hKept.2]
    exact h.cell
  case matched =>
    rw [hWorkers, List.map_set, List.map_set, h.matched]
    rfl

theorem Owned.run (h : Owned tr s queue) {ctx i : Nat} {p : State Nat} {job : Service}
    (hJob : s.services[i]? = some (some job)) (hFreed : job.stage = .freed)
    (hWorkers : p.workers = s.pool.workers.set i .ready)
    (hKept : ∀ b ∈ s.pool.pending, b ∈ p.pending ∧ p.heap b = s.pool.heap b) :
    Owned (tr ++ [.pool (.ran i ctx)]) { s with pool := p, services := s.services.set i none }
      queue := by
  have hNothing : heldContext (some job) = none ∧ heldDescriptor (some job) = none := by
    simp [heldContext, heldDescriptor, Service.context, Service.descriptor, hFreed]
  constructor
  case fifo => simpa [poolLabels_snoc, poolLabel, acceptedOf, takenOf] using h.fifo
  case contexts =>
    intro c
    have hOld := h.contexts c
    have hSet := Slots.count_filterMap_set heldContext hJob none c
    rw [hNothing.1] at hSet
    rw [count_contextOwners] at hOld ⊢
    dsimp only
    change _ + 0 = _ + 0 at hSet
    omega
  case descriptors =>
    intro d
    have hOld := h.descriptors d
    have hSet := Slots.count_filterMap_set heldDescriptor hJob none d
    rw [hNothing.2] at hSet
    rw [count_descriptorOwners] at hOld ⊢
    dsimp only
    change _ + 0 = _ + 0 at hSet
    omega
  case nodup => exact h.nodup
  case filled => exact h.filled
  case read =>
    intro job' hMem hStage
    rcases some_mem_set hMem with hOld | hNew
    · exact h.read job' hOld hStage
    · cases hNew
  case cell =>
    intro fd c b hSubmitting
    obtain ⟨hPending, hHeap⟩ := h.cell fd c b hSubmitting
    obtain ⟨hPending', hHeap'⟩ := hKept b hPending
    exact ⟨hPending', hHeap'.trans hHeap⟩
  case matched =>
    rw [hWorkers, List.map_set, List.map_set, h.matched]
    rfl

/-- A worker that frees its job leaves the job alone that is being submitted. -/
theorem pending_kept {tr : List (Label Nat)} {p : State Nat} {cells hands : List (Nat × Nat)}
    (hInv : Inv tr p cells hands) {i a : Nat} (hWorker : p.workers[i]? = some (.running a)) :
    ∀ b ∈ p.pending, p.heap.free a b = p.heap b := by
  intro b hb
  have hHeld : a ∈ held p.workers :=
    List.mem_filterMap.mpr ⟨.running a, List.mem_of_getElem? hWorker, rfl⟩
  have hHands := hInv.holding.mem_iff.mpr hHeld
  have hApart := (List.nodup_append.mp hInv.owners).2.2 b (List.mem_append_right _ hb) a hHands
  exact Function.update_of_ne hApart _ _

/-- What an event touches is there. -/
def Sound (s : Server) (e : Event) : Prop :=
  (∀ fd ∈ descriptorsOf e, fd ∈ s.descriptors) ∧ ∀ c ∈ contextsOf e, s.contexts c ≠ none

theorem Owned.submit (h : Owned tr s queue) {l : Label Nat} {p : State Nat} {acceptor : Acceptor}
    (hStep : ThreadPool.Step s.pool l p) (hSubmit : s.acceptor.submit l = some acceptor) :
    ∃ queue', Owned (tr ++ [.pool l]) { s with pool := p, acceptor := acceptor } queue' := by
  cases hStep with
  | noMemory job hOpen =>
    obtain ⟨fd, hBuilt, rfl⟩ := submit_noMemory hSubmit
    refine ⟨queue, h.still ⟨rfl, rfl⟩ ⟨?_, ?_⟩ (by simp) rfl⟩ <;> rw [hBuilt] <;> rfl
  | @allocate a job hOpen hFree =>
    obtain ⟨fd, hBuilt, rfl⟩ := submit_allocated hSubmit
    refine ⟨queue, h.still ⟨rfl, rfl⟩ ⟨?_, ?_⟩ ?_ rfl⟩
    · rw [hBuilt]
      rfl
    · rw [hBuilt]
      rfl
    · rintro _ _ _ ⟨⟩
      exact ⟨List.mem_cons_self, Function.update_self _ _ _⟩
  | refuse hPending hCell hFull =>
    obtain ⟨fd, ctx, hSubmitting, rfl⟩ := submit_refused hSubmit
    refine ⟨queue, h.still ⟨rfl, rfl⟩ ⟨?_, ?_⟩ (by simp) rfl⟩ <;> rw [hSubmitting] <;> rfl
  | accept hPending hCell hRoom =>
    obtain ⟨fd, ctx, hSubmitting, rfl⟩ := submit_accepted hSubmit
    obtain ⟨-, hHeap⟩ := h.cell fd ctx _ hSubmitting
    cases hCell.symm.trans hHeap
    exact ⟨_, h.accepted hSubmitting rfl⟩
  | @wait i hWorker hOpen hSize =>
    obtain rfl := submit_worker (i := i) (.inl rfl) hSubmit
    exact ⟨queue, h.still ⟨rfl, rfl⟩ ⟨rfl, rfl⟩ h.cell (map_set_same busyWorker hWorker rfl)⟩
  | @wake i hWorker =>
    obtain rfl := submit_worker (i := i) (.inr (.inl rfl)) hSubmit
    exact ⟨queue, h.still ⟨rfl, rfl⟩ ⟨rfl, rfl⟩ h.cell (map_set_same busyWorker hWorker rfl)⟩
  | @miss i _ hWorker hSize hUnlink =>
    obtain rfl := submit_worker (i := i) (.inr (.inr (.inl rfl))) hSubmit
    exact ⟨queue, h.still ⟨rfl, rfl⟩ ⟨rfl, rfl⟩ h.cell rfl⟩
  | @exit i hWorker hDown hSize =>
    obtain rfl := submit_worker (i := i) (.inr (.inr (.inr rfl))) hSubmit
    exact ⟨queue, h.still ⟨rfl, rfl⟩ ⟨rfl, rfl⟩ h.cell (map_set_same busyWorker hWorker rfl)⟩
  | take _ _ _ _ => cases hAcceptor : s.acceptor <;> rw [hAcceptor] at hSubmit <;> cases hSubmit
  | run _ _ => cases hAcceptor : s.acceptor <;> rw [hAcceptor] at hSubmit <;> cases hSubmit
  | shutdown hOpen hPending =>
    obtain ⟨hLeft, rfl⟩ := submit_shutdown hSubmit
    refine ⟨queue, h.still ⟨rfl, rfl⟩ ⟨?_, ?_⟩ (by simp) rfl⟩ <;> rw [hLeft]

theorem Owned.step (hRun : ServerRun numThreads queueCap tr s) (h : Owned tr s queue)
    (hStep : Step s e s') : Sound s e ∧ ∃ queue', Owned (tr ++ [e]) s' queue' := by
  have hNone : ∀ {P : Nat → Prop}, ∀ x ∈ ([] : List Nat), P x := fun x hx => by cases hx
  have hInv := run_inv (run_pool hRun)
  cases hStep with
  | accept hIdle hNew => exact ⟨⟨hNone, hNone⟩, queue, h.accept hIdle hNew⟩
  | noContext hOpened =>
    obtain ⟨hOpen, h'⟩ := h.noContext hOpened
    exact ⟨⟨by simpa [descriptorsOf] using hOpen, hNone⟩, queue, h'⟩
  | build hOpened hFree => exact ⟨⟨hNone, hNone⟩, queue, h.build hOpened hFree⟩
  | @submit l p acceptor hPool hSubmit =>
    refine ⟨⟨hNone, ?_⟩, h.submit hPool hSubmit⟩
    cases l with
    | took i ctx => cases hAcceptor : s.acceptor <;> rw [hAcceptor] at hSubmit <;> cases hSubmit
    | _ => exact hNone
  | @take i ctx p hPool =>
    have hPoolRun := (run_pool hRun).snoc hPool
    obtain ⟨cells, hands, hInv'⟩ := run_inv hPoolRun
    have hFifo := hInv'.fifo
    rw [dequeued_snoc, accepted_snoc, ← h.fifo, List.append_assoc] at hFifo
    simp only [acceptedOf, takenOf, List.append_nil, List.singleton_append] at hFifo
    obtain rfl := List.append_cancel_left hFifo
    generalize hLabel : (Label.took i ctx : Label Nat) = l at hPool
    cases hPool with
    | @take _ a _ q hWorker hSize hUnlink hCell =>
      cases hLabel
      obtain ⟨hAllocated, h'⟩ := h.take
        (p := { s.pool with queue := q, workers := s.pool.workers.set i (.running a) }) hWorker rfl
        ⟨rfl, rfl⟩
      exact ⟨⟨hNone, by simpa [contextsOf] using hAllocated⟩, _, h'⟩
    | _ => cases hLabel
  | @run i ctx p job hPool hJob hFreed =>
    obtain ⟨cells, hands, hInv⟩ := hInv
    generalize hLabel : (Label.ran i ctx : Label Nat) = l at hPool
    cases hPool with
    | run hWorker hCell =>
      cases hLabel
      have hKept := pending_kept hInv hWorker
      exact ⟨⟨hNone, hNone⟩, queue, h.run hJob hFreed rfl fun b hb => ⟨hb, hKept b hb⟩⟩
    | _ => cases hLabel
  | tellBusy hRefused =>
    have hOpen := h.open_of_owner (by
      rw [Server.descriptorOwners, hRefused]
      exact List.mem_append_left _ (List.mem_append_left _ List.mem_cons_self))
    exact ⟨⟨by simpa [descriptorsOf] using hOpen, hNone⟩, queue, h.tellBusy hRefused⟩
  | closeBusy hTold =>
    obtain ⟨hOpen, h'⟩ := h.closeBusy hTold
    exact ⟨⟨by simpa [descriptorsOf] using hOpen, hNone⟩, queue, h'⟩
  | freeBusy hClosed =>
    obtain ⟨hAllocated, h'⟩ := h.freeBusy hClosed
    exact ⟨⟨hNone, by simpa [contextsOf] using hAllocated⟩, queue, h'⟩
  | leave hIdle => exact ⟨⟨hNone, hNone⟩, queue, h.leave hIdle⟩
  | use hJob =>
    have hOpen := (h.close hJob).1
    refine ⟨⟨by simpa [descriptorsOf] using hOpen, hNone⟩, queue, ?_⟩
    exact { h with fifo := by simpa [poolLabels_snoc, poolLabel] using h.fifo }
  | close hJob =>
    obtain ⟨hOpen, h'⟩ := h.close hJob
    exact ⟨⟨by simpa [descriptorsOf] using hOpen, hNone⟩, queue, h'⟩
  | free hJob =>
    obtain ⟨hAllocated, h'⟩ := h.free hJob
    exact ⟨⟨hNone, by simpa [contextsOf] using hAllocated⟩, queue, h'⟩

theorem run_owned (hRun : ServerRun numThreads queueCap tr s) : ∃ queue, Owned tr s queue := by
  induction hRun with
  | nil => exact ⟨[], owned_start numThreads queueCap⟩
  | snoc hPrev hStep ih =>
    obtain ⟨queue, h⟩ := ih
    exact (h.step hPrev hStep).2

theorem run_sound (hRun : ServerRun numThreads queueCap tr s) (hStep : Step s e s') : Sound s e := by
  obtain ⟨queue, h⟩ := run_owned hRun
  exact (h.step hRun hStep).1

end Custody

section Accounts

variable {numThreads queueCap : Int} {tr : List Event} {s s' : Server} {e : Event}

def Acceptor.refusing : Acceptor → Nat
  | .refused _ _ => 1
  | _ => 0

/-- What the events opened, closed, allocated, freed and refused against what there is. -/
structure Accounts (tr : List Event) (s : Server) : Prop where
  closed : (tr.flatMap closedOf ++ s.descriptors).Perm (tr.flatMap openedOf)
  freed : ∀ c, (tr.flatMap freedOf).count c + (s.contexts c).toList.length =
    (tr.flatMap builtOf).count c
  busy : s.serverBusy + s.acceptor.refusing = (tr.flatMap refusedOf).length

theorem closed_snoc {closed opened descriptors : List Nat} {fd : Nat} (hOpen : fd ∈ descriptors)
    (h : (closed ++ descriptors).Perm opened) :
    ((closed ++ [fd]) ++ descriptors.erase fd).Perm opened := by
  rw [List.append_assoc]
  exact ((List.perm_cons_erase hOpen).symm.append_left closed).trans h

theorem freed_snoc {freed built : List Nat} {contexts : Nat → Option Nat} {ctx : Nat}
    (hAllocated : contexts ctx ≠ none)
    (h : ∀ c, freed.count c + (contexts c).toList.length = built.count c) (c : Nat) :
    (freed ++ [ctx]).count c + (Function.update contexts ctx none c).toList.length =
      built.count c := by
  have hc := h c
  rw [update_none_toList, List.count_append]
  by_cases hEq : c = ctx
  · subst hEq
    obtain ⟨fd, hFd⟩ := Option.ne_none_iff_exists'.mp hAllocated
    rw [hFd, Option.toList_some, List.length_singleton] at hc
    rw [if_pos rfl, List.count_singleton_self]
    omega
  · rw [if_neg hEq, List.count_singleton, if_neg (by simpa using Ne.symm hEq)]
    omega

theorem submit_refusing {acceptor acceptor' : Acceptor} {l : Label Nat}
    (h : acceptor.submit l = some acceptor') :
    acceptor'.refusing = acceptor.refusing + (refusedOf (.pool l)).length ∧
      closedOf (.pool l) = [] ∧ freedOf (.pool l) = [] := by
  refine ⟨?_, rfl, rfl⟩
  cases l with
  | noMemory job =>
    obtain ⟨fd, rfl, rfl⟩ := submit_noMemory h
    rfl
  | allocated a job =>
    obtain ⟨fd, rfl, rfl⟩ := submit_allocated h
    rfl
  | refused a job =>
    obtain ⟨fd, ctx, rfl, rfl⟩ := submit_refused h
    rfl
  | accepted a job =>
    obtain ⟨fd, ctx, rfl, rfl⟩ := submit_accepted h
    rfl
  | waited i =>
    obtain rfl := submit_worker (i := i) (.inl rfl) h
    rfl
  | woke i =>
    obtain rfl := submit_worker (i := i) (.inr (.inl rfl)) h
    rfl
  | missed i =>
    obtain rfl := submit_worker (i := i) (.inr (.inr (.inl rfl))) h
    rfl
  | exited i =>
    obtain rfl := submit_worker (i := i) (.inr (.inr (.inr rfl))) h
    rfl
  | took i job => cases acceptor <;> cases h
  | ran i job => cases acceptor <;> cases h
  | shutdown =>
    obtain ⟨rfl, rfl⟩ := submit_shutdown h
    rfl

theorem Accounts.step (h : Accounts tr s) (hSound : Sound s e) (hStep : Step s e s') :
    Accounts (tr ++ [e]) s' := by
  obtain ⟨hOpen, hAllocated⟩ := hSound
  have hBusy := h.busy
  constructor
  case closed =>
    simp only [List.flatMap_append, List.flatMap_singleton]
    cases hStep with
    | accept hIdle hNew =>
      simp only [closedOf, openedOf, List.append_nil]
      exact List.perm_middle.trans ((h.closed.cons _).trans (List.perm_append_singleton _ _).symm)
    | noContext _ => simpa [openedOf, closedOf] using closed_snoc (hOpen _ List.mem_cons_self) h.closed
    | closeBusy _ => simpa [openedOf, closedOf] using closed_snoc (hOpen _ List.mem_cons_self) h.closed
    | close _ => simpa [openedOf, closedOf] using closed_snoc (hOpen _ List.mem_cons_self) h.closed
    | _ => simpa [closedOf, openedOf] using h.closed
  case freed =>
    intro c
    have hFreed := h.freed c
    simp only [List.flatMap_append, List.flatMap_singleton]
    cases hStep with
    | @build fd ctx hOpened hFree =>
      simp only [freedOf, builtOf, List.append_nil, List.count_append]
      by_cases hEq : c = ctx
      · subst hEq
        rw [hFree, Option.toList_none, List.length_nil] at hFreed
        rw [Function.update_self, List.count_singleton_self, Option.toList_some,
          List.length_singleton]
        omega
      · rw [Function.update_of_ne hEq, List.count_singleton, if_neg (by simpa using Ne.symm hEq)]
        omega
    | freeBusy _ => simpa [builtOf, freedOf] using freed_snoc (hAllocated _ List.mem_cons_self) h.freed c
    | free _ => simpa [builtOf, freedOf] using freed_snoc (hAllocated _ List.mem_cons_self) h.freed c
    | _ => simpa [freedOf, builtOf] using hFreed
  case busy =>
    simp only [List.flatMap_append, List.flatMap_singleton, List.length_append]
    cases hStep with
    | accept hIdle _ =>
      rw [hIdle] at hBusy
      exact hBusy
    | noContext hOpened =>
      rw [hOpened] at hBusy
      exact hBusy
    | build hOpened _ =>
      rw [hOpened] at hBusy
      exact hBusy
    | submit _ hSubmit =>
      have hRefusing := (submit_refusing hSubmit).1
      dsimp only
      omega
    | tellBusy hRefused =>
      rw [hRefused] at hBusy
      exact hBusy
    | closeBusy hTold =>
      rw [hTold] at hBusy
      exact hBusy
    | freeBusy hClosed =>
      rw [hClosed] at hBusy
      exact hBusy
    | leave hIdle =>
      rw [hIdle] at hBusy
      exact hBusy
    | _ => exact hBusy

theorem run_accounts (hRun : ServerRun numThreads queueCap tr s) : Accounts tr s := by
  induction hRun with
  | nil => exact ⟨.refl _, fun _ => rfl, rfl⟩
  | snoc hPrev hStep ih => exact ih.step (run_sound hPrev hStep) hStep

end Accounts

section Leaks

variable {numThreads queueCap : Int} {tr : List Event} {s : Server}

/-- When the accept loop is left and the workers are gone nobody owns anything. -/
theorem nothing_left (hRun : ServerRun numThreads queueCap tr s) (hLeft : s.acceptor = .left)
    (hExited : ∀ w ∈ s.pool.workers, w = .exited) :
    s.descriptors = [] ∧ ∀ c, s.contexts c = none := by
  obtain ⟨queue, h⟩ := run_owned hRun
  obtain ⟨cells, hands, hInv⟩ := run_inv (run_pool hRun)
  obtain ⟨w, ws, hWorkers⟩ := List.exists_cons_of_ne_nil (run_workers (run_pool hRun))
  have hGone : .exited ∈ s.pool.workers := by
    rw [← hExited w (hWorkers ▸ List.mem_cons_self), hWorkers]
    exact List.mem_cons_self
  obtain ⟨-, rfl⟩ := hInv.gone hGone
  have hQueue : queue = [] := by
    have hFifo := hInv.fifo
    rw [LinkedQueue.values, List.map_nil, ← h.fifo] at hFifo
    exact (List.append_cancel_left hFifo).symm
  have hIdle : ∀ slot ∈ s.services, slot = none := by
    intro slot hSlot
    have hBusy : slot.isSome ∈ s.pool.workers.map busyWorker := h.matched ▸ List.mem_map_of_mem hSlot
    obtain ⟨w, hw, hEq⟩ := List.mem_map.mp hBusy
    rw [hExited w hw] at hEq
    exact Option.isSome_eq_false_iff.mp hEq.symm |> Option.isNone_iff_eq_none.mp
  have hNone : ∀ f : Option Service → Option Nat, f none = none → s.services.filterMap f = [] := by
    intro f hf
    apply List.filterMap_eq_nil_iff.mpr
    intro slot hSlot
    rw [hIdle slot hSlot, hf]
  constructor
  · apply List.eq_nil_iff_forall_not_mem.mpr
    intro fd hfd
    have hCount := h.descriptors fd
    rw [count_descriptorOwners, hLeft, hQueue, hNone heldDescriptor rfl] at hCount
    exact List.count_eq_zero.mp hCount.symm hfd
  · intro c
    have hCount := h.contexts c
    rw [count_contextOwners, hLeft, hQueue, hNone heldContext rfl] at hCount
    cases hContext : s.contexts c with
    | none => rfl
    | some fd =>
      rw [hContext] at hCount
      cases hCount

/-- Descriptors and contexts in a state and the events that lead there. -/
structure Custody (tr : List Event) (s : Server) : Prop where
  safe : ∀ e s', Step s e s' → (∀ fd ∈ descriptorsOf e, fd ∈ s.descriptors) ∧
    ∀ c ∈ contextsOf e, s.contexts c ≠ none
  owners : ∃ queue, dequeued (poolLabels tr) ++ queue = accepted (poolLabels tr) ∧
    s.descriptors.Nodup ∧ (s.descriptorOwners queue).Perm s.descriptors ∧
    (s.contextOwners queue).Nodup ∧ ∀ c, s.contexts c ≠ none ↔ c ∈ s.contextOwners queue
  closedOnce : (tr.flatMap closedOf ++ s.descriptors).Perm (tr.flatMap openedOf)
  freedOnce : ∀ c, (tr.flatMap freedOf).count c + (s.contexts c).toList.length =
    (tr.flatMap builtOf).count c
  busy : s.serverBusy + s.acceptor.refusing = (tr.flatMap refusedOf).length
  noLeak : s.acceptor = .left → (∀ w ∈ s.pool.workers, w = .exited) →
    (tr.flatMap closedOf).Perm (tr.flatMap openedOf) ∧
      (tr.flatMap freedOf).Perm (tr.flatMap builtOf)

theorem run_custody (hRun : ServerRun numThreads queueCap tr s) : Custody tr s := by
  obtain ⟨queue, h⟩ := run_owned hRun
  have hAccounts := run_accounts hRun
  constructor
  case safe => exact fun e s' hStep => run_sound hRun hStep
  case owners =>
    refine ⟨queue, h.fifo, h.nodup, ?_, ?_, fun c => ⟨fun hc => ?_, h.allocated⟩⟩
    · exact List.perm_iff_count.mpr h.descriptors
    · exact List.nodup_iff_count_le_one.mpr h.count_le
    · by_contra hNot
      have hCount := h.contexts c
      rw [List.count_eq_zero.mpr hNot] at hCount
      obtain ⟨fd, hFd⟩ := Option.ne_none_iff_exists'.mp hc
      rw [hFd] at hCount
      cases hCount
  case closedOnce => exact hAccounts.closed
  case freedOnce => exact hAccounts.freed
  case busy => exact hAccounts.busy
  case noLeak =>
    intro hLeft hExited
    obtain ⟨hDescriptors, hContexts⟩ := nothing_left hRun hLeft hExited
    constructor
    · have hClosed := hAccounts.closed
      rwa [hDescriptors, List.append_nil] at hClosed
    · apply List.perm_iff_count.mpr
      intro c
      have hFreed := hAccounts.freed c
      rwa [hContexts c, Option.toList_none, List.length_nil, Nat.add_zero] at hFreed

/-- Two connections, a queue for one: the first is served, the second is told that the server is
busy. -/
def sampleEvents : List Event :=
  [.accepted 5, .built 100, .pool (.allocated 7 100), .pool (.accepted 7 100), .accepted 6,
    .built 101, .pool (.allocated 8 101), .pool (.refused 8 101), .pool (.took 0 100), .busyTold 6,
    .used 0 5, .busyClosed 6, .closed 0 5, .freed 0 100]

theorem run_custody_sample : ∃ s, ServerRun 1 1 sampleEvents s ∧ s.serverBusy = 1 ∧
    Custody sampleEvents s := by
  have h₁ : ServerRun 1 1 [.accepted 5] _ := .snoc .nil (.accept rfl (by decide))
  have h₂ : ServerRun 1 1 (_ ++ [.built 100]) _ := h₁.snoc (.build rfl rfl)
  have h₃ := h₂.snoc (.submit (.allocate (a := 7) 100 rfl rfl) rfl)
  have h₄ := h₃.snoc (.submit (.accept (a := 7) List.mem_cons_self rfl (by decide)) rfl)
  have h₅ : ServerRun 1 1 (_ ++ [.accepted 6]) _ := h₄.snoc (.accept rfl (by decide))
  have h₆ : ServerRun 1 1 (_ ++ [.built 101]) _ := h₅.snoc (.build rfl rfl)
  have h₇ := h₆.snoc (.submit (.allocate (a := 8) 101 rfl rfl) rfl)
  have h₈ := h₇.snoc (.submit (.refuse (a := 8) List.mem_cons_self rfl (by decide)) rfl)
  have h₉ := h₈.snoc (.take (.take (i := 0) rfl (by decide) rfl rfl))
  have h₁₀ := h₉.snoc (.tellBusy rfl)
  have h₁₁ := h₁₀.snoc (.use (i := 0) rfl)
  have h₁₂ := h₁₁.snoc (.closeBusy rfl)
  have h₁₃ := h₁₂.snoc (.close (i := 0) rfl)
  have h₁₄ : ServerRun 1 1 _ _ := h₁₃.snoc (.free (i := 0) rfl)
  exact ⟨_, h₁₄, rfl, run_custody h₁₄⟩

end Leaks

end MiniVisa.Connections
