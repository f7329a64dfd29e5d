import MiniVisa.Server.Connections
import MiniVisa.Server.ReversalQueue

/-! # The process and its teardown

`main` opens a database connection, runs the accept loop, joins the workers, closes that connection,
flushes the log and stops the reversal worker, in this order. A worker gets a connection of its own
when it first asks for one, or shares the one of `main`; the destructor of the thread-local key
closes its own when the thread ends. The order is what makes the shared connection, the thread pool
and the reversal queue safe to take down.
-/

namespace MiniVisa.Teardown

set_option autoImplicit false

open Transition
open ThreadPool (Worker threadpoolCreate dequeued accepted ran)
open Connections (Server ServerRun poolLabels)
open ReversalQueue (Globals ShutdownLast)
open Reversal (Env ReversalTask)

inductive Phase
  | serving | joined | disconnected | flushed | stopping | drained | returned
  deriving DecidableEq

/-- The bootstrap connection is still there. -/
def Phase.connected : Phase → Bool
  | .serving | .joined => true
  | _ => false

/-- `reversal_shutdown` has been called. -/
def Phase.stopped : Phase → Bool
  | .stopping | .drained | .returned => true
  | _ => false

/-- `reversal_shutdown` has joined the worker and freed the queue. -/
def Phase.over : Phase → Bool
  | .drained | .returned => true
  | _ => false

/-- A worker's thread: `connection` is the value of `db_tls_key`, `dbc` what `db_thread_get` last
returned. -/
structure Session where
  connection : Option Nat
  dbc : Option Nat
  ended : Bool

def Session.fresh : Session := ⟨none, none, false⟩

/-- `connections` are the database connections that are open, `bootstrap` is the one of `main`. -/
structure Process where
  phase : Phase
  server : Server
  reversal : Globals
  sessions : List Session
  connections : List Nat
  bootstrap : Nat

/-- `main` when it enters `net_server_run`. -/
def Process.start (numThreads queueCap : Int) (bootstrap : Nat) : Process where
  phase := .serving
  server := .start numThreads queueCap
  reversal := .initial
  sessions := List.replicate (if numThreads ≤ 0 then 4 else numThreads.toNat) .fresh
  connections := [bootstrap]
  bootstrap := bootstrap

inductive Event
  | server (e : Connections.Event)
  | connected (i id : Nat)
  | reused (i id : Nat)
  | fellBack (i : Nat)
  | queried (i id : Nat)
  | enqueued (i : Nat) (task : ReversalTask)
  | reversal (l : Reversal.Label)
  | ended (i : Nat) (connection : Option Nat)
  | joined
  | disconnected (id : Nat)
  | flushed | returned

/-- The steps of the accept loop and of `threadpool_destroy`, which `main` takes. -/
def byMain : Connections.Event → Bool
  | .pool (.waited _) | .pool (.woke _) | .pool (.missed _) | .pool (.took _ _)
  | .pool (.ran _ _) | .pool (.exited _) | .used _ _ | .closed _ _ | .freed _ _ => false
  | _ => true

def byWorker : Reversal.Label → Bool
  | .enqueued _ | .shutdown | .drained => false
  | _ => true

/-- Worker `i` is inside `handler_job`. -/
def Serving (s : Server) (i : Nat) : Prop :=
  ∃ job, s.services[i]? = some (some job) ∧ job.stage = .serving

inductive Step (env : Env) (s : Process) : Event → Process → Prop
  | serve {e : Connections.Event} {server : Server} : Connections.Step s.server e server →
      (byMain e = true → s.phase = .serving) → Step env s (.server e) { s with server := server }
  | connect {i id : Nat} {session : Session} : Serving s.server i →
      s.sessions[i]? = some session → session.connection = none → id ∉ s.connections →
      Step env s (.connected i id)
        { s with
          sessions := s.sessions.set i ⟨some id, some id, session.ended⟩
          connections := id :: s.connections }
  | reuse {i id : Nat} {session : Session} : Serving s.server i →
      s.sessions[i]? = some session → session.connection = some id →
      Step env s (.reused i id)
        { s with sessions := s.sessions.set i { session with dbc := some id } }
  | fallBack {i : Nat} {session : Session} : Serving s.server i →
      s.sessions[i]? = some session → session.connection = none →
      Step env s (.fellBack i)
        { s with sessions := s.sessions.set i { session with dbc := some s.bootstrap } }
  | query {i id : Nat} {session : Session} : Serving s.server i →
      s.sessions[i]? = some session → session.dbc = some id → Step env s (.queried i id) s
  | enqueue {i : Nat} {task : ReversalTask} {reversal : Globals} : Serving s.server i →
      ReversalQueue.Step env s.reversal (.enqueued task) reversal →
      Step env s (.enqueued i task) { s with reversal := reversal }
  | compensate {l : Reversal.Label} {reversal : Globals} : byWorker l = true →
      ReversalQueue.Step env s.reversal l reversal →
      Step env s (.reversal l) { s with reversal := reversal }
  | endThread {i : Nat} {session : Session} : s.server.pool.workers[i]? = some .exited →
      s.sessions[i]? = some session → session.ended = false →
      Step env s (.ended i session.connection)
        { s with
          sessions := s.sessions.set i ⟨none, none, true⟩
          connections := s.connections.diff session.connection.toList }
  | join : s.phase = .serving → s.server.pool.shuttingDown = true →
      (∀ session ∈ s.sessions, session.ended = true) → Step env s .joined { s with phase := .joined }
  | disconnect : s.phase = .joined →
      Step env s (.disconnected s.bootstrap)
        { s with phase := .disconnected, connections := s.connections.erase s.bootstrap }
  | flush : s.phase = .disconnected → Step env s .flushed { s with phase := .flushed }
  | stop {reversal : Globals} : s.phase = .flushed →
      ReversalQueue.Step env s.reversal .shutdown reversal →
      Step env s (.reversal .shutdown) { s with phase := .stopping, reversal := reversal }
  | drain {reversal : Globals} : s.phase = .stopping →
      ReversalQueue.Step env s.reversal .drained reversal →
      Step env s (.reversal .drained) { s with phase := .drained, reversal := reversal }
  | leave : s.phase = .drained → Step env s .returned { s with phase := .returned }

abbrev ProcessRun (env : Env) (numThreads queueCap : Int) (bootstrap : Nat) (tr : List Event)
    (s : Process) : Prop :=
  Run (Step env) (.start numThreads queueCap bootstrap) tr s

section Views

def serverEvent : Event → Option Connections.Event
  | .server e => some e
  | _ => none

def serverEvents (tr : List Event) : List Connections.Event := tr.filterMap serverEvent

def reversalLabel : Event → Option Reversal.Label
  | .enqueued _ task => some (.enqueued task)
  | .reversal l => some l
  | _ => none

def reversalLabels (tr : List Event) : List Reversal.Label := tr.filterMap reversalLabel

/-- The connections that an event opens, and those that it closes. -/
def openedOf : Event → List Nat
  | .connected _ id => [id]
  | _ => []

def closedOf : Event → List Nat
  | .ended _ connection => connection.toList
  | .disconnected id => [id]
  | _ => []

def queriedOf : Event → List Nat
  | .queried _ id => [id]
  | _ => []

variable {env : Env} {numThreads queueCap : Int} {bootstrap : Nat} {tr : List Event} {s : Process}

theorem run_server (hRun : ProcessRun env numThreads queueCap bootstrap tr s) :
    ServerRun numThreads queueCap (serverEvents tr) s.server := by
  apply hRun.project Process.server serverEvent
  · intro s l s' k hStep hView
    cases hStep <;> cases hView
    assumption
  · intro s l s' hStep hView
    cases hStep <;> first | rfl | cases hView

theorem run_reversal (hRun : ProcessRun env numThreads queueCap bootstrap tr s) :
    Run (ReversalQueue.Step env) .initial (reversalLabels tr) s.reversal := by
  apply hRun.project Process.reversal reversalLabel
  · intro s l s' k hStep hView
    cases hStep <;> cases hView <;> assumption
  · intro s l s' hStep hView
    cases hStep <;> first | rfl | cases hView

theorem reversalLabels_snoc (tr : List Event) (e : Event) :
    reversalLabels (tr ++ [e]) = reversalLabels tr ++ (reversalLabel e).toList := by
  rw [reversalLabels, List.filterMap_append]
  cases hView : reversalLabel e with
  | none => rw [List.filterMap_cons_none hView]; rfl
  | some l => rw [List.filterMap_cons_some hView]; rfl

end Views

section Threads

/-- A step of the pool changes at most one worker, and none that has exited. -/
theorem pool_workers {α : Type} {p p' : ThreadPool.State α} {l : ThreadPool.Label α}
    (hStep : ThreadPool.Step p l p') : p'.workers = p.workers ∨
      ∃ i w w', p.workers[i]? = some w ∧ w ≠ .exited ∧ p'.workers = p.workers.set i w' := by
  cases hStep with
  | noMemory | allocate | refuse | accept | miss | shutdown => exact .inl rfl
  | wait hWorker => exact .inr ⟨_, _, _, hWorker, by simp, rfl⟩
  | wake hWorker => exact .inr ⟨_, _, _, hWorker, by simp, rfl⟩
  | exit hWorker => exact .inr ⟨_, _, _, hWorker, by simp, rfl⟩
  | take hWorker => exact .inr ⟨_, _, _, hWorker, by simp, rfl⟩
  | run hWorker => exact .inr ⟨_, _, _, hWorker, by simp, rfl⟩

variable {server server' : Server} {e : Connections.Event}

theorem server_workers (hStep : Connections.Step server e server') :
    server'.pool.workers = server.pool.workers ∨
      ∃ i w w', server.pool.workers[i]? = some w ∧ w ≠ .exited ∧
        server'.pool.workers = server.pool.workers.set i w' := by
  cases hStep with
  | submit hPool | take hPool | run hPool => exact pool_workers hPool
  | _ => exact .inl rfl

theorem workers_length (hStep : Connections.Step server e server') :
    server'.pool.workers.length = server.pool.workers.length := by
  obtain hSame | ⟨i, w, w', -, -, hSet⟩ := server_workers hStep
  · rw [hSame]
  · rw [hSet, List.length_set]

theorem exited_stays (hStep : Connections.Step server e server') {i : Nat}
    (hExited : server.pool.workers[i]? = some .exited) :
    server'.pool.workers[i]? = some .exited := by
  obtain hSame | ⟨j, w, w', hWorker, hThere, hSet⟩ := server_workers hStep
  · rwa [hSame]
  · have hNe : j ≠ i := by
      rintro rfl
      exact hThere (Option.some.inj (hWorker.symm.trans hExited))
    rwa [hSet, List.getElem?_set_ne hNe]

theorem serving_running {numThreads queueCap : Int} {tr : List Connections.Event}
    (hRun : ServerRun numThreads queueCap tr server) {i : Nat} (hServing : Serving server i) :
    server.pool.workers[i]? ≠ some .exited := by
  obtain ⟨job, hJob, -⟩ := hServing
  obtain ⟨queue, hOwned⟩ := Connections.run_owned hRun
  intro hExited
  have hMatched := congrArg (·[i]?) hOwned.matched
  simp [hJob, hExited, Connections.busyWorker] at hMatched

theorem submit_left {acceptor : Connections.Acceptor} {l : ThreadPool.Label Nat}
    (h : Connections.Acceptor.submit .left l = some acceptor) : acceptor = .left := by
  cases l <;> cases h <;> rfl

theorem pool_down {α : Type} {p p' : ThreadPool.State α} {l : ThreadPool.Label α}
    (hStep : ThreadPool.Step p l p') (hDown : p'.shuttingDown = true) :
    p.shuttingDown = true ∨ l = .shutdown := by
  cases hStep with
  | shutdown => exact .inr rfl
  | _ => exact .inl hDown

theorem stays_down (hStep : Connections.Step server e server')
    (hDown : server.pool.shuttingDown = true) : server'.pool.shuttingDown = true := by
  have hPool : ∀ {p : ThreadPool.State Nat} {l : ThreadPool.Label Nat},
      ThreadPool.Step server.pool l p → p.shuttingDown = true := by
    intro p l hPool
    cases hPool with
    | shutdown => rfl
    | _ => exact hDown
  cases hStep with
  | submit hStep | take hStep | run hStep => exact hPool hStep
  | _ => exact hDown

/-- `threadpool_destroy` is called when the accept loop has been left. -/
theorem left_of_down {numThreads queueCap : Int} {tr : List Connections.Event}
    (hRun : ServerRun numThreads queueCap tr server) (hDown : server.pool.shuttingDown = true) :
    server.acceptor = .left := by
  induction hRun with
  | nil => cases hDown
  | snoc _ hStep ih =>
    cases hStep with
    | submit hPool hSubmit =>
      obtain hBefore | rfl := pool_down hPool hDown
      · rw [ih hBefore] at hSubmit
        exact submit_left hSubmit
      · exact (Connections.submit_shutdown hSubmit).2
    | take hPool =>
      obtain hBefore | hNot := pool_down hPool hDown
      · exact ih hBefore
      · cases hNot
    | run hPool =>
      obtain hBefore | hNot := pool_down hPool hDown
      · exact ih hBefore
      · cases hNot
    | use | close | free => exact ih hDown
    | leave => rfl
    | accept hAt | noContext hAt | build hAt | tellBusy hAt | closeBusy hAt | freeBusy hAt =>
      cases (ih hDown).symm.trans hAt

theorem services_idle {numThreads queueCap : Int} {tr : List Connections.Event}
    (hRun : ServerRun numThreads queueCap tr server)
    (hGone : ∀ w ∈ server.pool.workers, w = .exited) : ∀ slot ∈ server.services, slot = none := by
  obtain ⟨queue, hOwned⟩ := Connections.run_owned hRun
  intro slot hSlot
  have hMatched : slot.isSome ∈ server.pool.workers.map Connections.busyWorker :=
    hOwned.matched ▸ List.mem_map_of_mem hSlot
  obtain ⟨w, hw, hEq⟩ := List.mem_map.mp hMatched
  rw [hGone w hw] at hEq
  exact Option.isNone_iff_eq_none.mp (Option.isSome_eq_false_iff.mp hEq.symm)

/-- When the workers have left their loops only `main` can take a step. -/
theorem byMain_of_gone {numThreads queueCap : Int} {tr : List Connections.Event}
    (hRun : ServerRun numThreads queueCap tr server)
    (hGone : ∀ w ∈ server.pool.workers, w = .exited)
    (hStep : Connections.Step server e server') : byMain e = true := by
  have hWorker : ∀ (i : Nat) (w : Worker), server.pool.workers[i]? = some w → w = .exited :=
    fun i w h => hGone w (List.mem_of_getElem? h)
  have hIdle := services_idle hRun hGone
  have hNone : ∀ (i : Nat) (job : Connections.Service), server.services[i]? ≠ some (some job) := by
    intro i job h
    cases hIdle _ (List.mem_of_getElem? h)
  cases hStep with
  | accept | noContext | build | tellBusy | closeBusy | freeBusy | leave => rfl
  | use hJob | close hJob | free hJob => exact absurd hJob (hNone _ _)
  | run _ hJob => exact absurd hJob (hNone _ _)
  | take hPool =>
    generalize hLabel : (ThreadPool.Label.took _ _ : ThreadPool.Label Nat) = l at hPool
    cases hPool with
    | take hReady => cases hWorker _ _ hReady
    | _ => cases hLabel
  | submit hPool =>
    cases hPool with
    | noMemory | allocate | refuse | accept | shutdown => rfl
    | wait hAt | wake hAt | exit hAt | take hAt | miss hAt | run hAt => cases hWorker _ _ hAt

end Threads

section Sessions

/-- A session is over only when its worker has left the loop, and `main` goes on after the join only
when all sessions are over. -/
structure Threads (s : Process) : Prop where
  length : s.sessions.length = s.server.pool.workers.length
  ended : ∀ (i : Nat) (session : Session), s.sessions[i]? = some session → session.ended = true →
    s.server.pool.workers[i]? = some .exited
  joined : s.phase ≠ .serving → s.server.pool.shuttingDown = true ∧
    ∀ session ∈ s.sessions, session.ended = true

variable {env : Env} {numThreads queueCap : Int} {bootstrap : Nat} {tr : List Event}
  {s s' : Process} {e : Event}

theorem threads_start (numThreads queueCap : Int) (bootstrap : Nat) :
    Threads (.start numThreads queueCap bootstrap) where
  length := by simp [Process.start, Server.start, threadpoolCreate]
  ended i session hAt hEnded := by
    cases List.eq_of_mem_replicate (List.mem_of_getElem? hAt)
    cases hEnded
  joined hNot := absurd rfl hNot

theorem Threads.set (h : Threads s) {i : Nat} {session next : Session} {connections : List Nat}
    (hAt : s.sessions[i]? = some session) (hSame : next.ended = session.ended) :
    Threads { s with sessions := s.sessions.set i next, connections := connections } where
  length := List.length_set.trans h.length
  ended j other hOther hEnded := by
    obtain ⟨rfl, rfl⟩ | ⟨-, hOther⟩ := Slots.getElem?_set_cases hOther
    · exact h.ended j session hAt (hSame ▸ hEnded)
    · exact h.ended j other hOther hEnded
  joined hNot := by
    obtain ⟨hDown, hEnded⟩ := h.joined hNot
    refine ⟨hDown, fun other hOther => ?_⟩
    obtain hOther | rfl := List.mem_or_eq_of_mem_set hOther
    · exact hEnded other hOther
    · exact hSame.trans (hEnded session (List.mem_of_getElem? hAt))

theorem Threads.endThread (h : Threads s) {i : Nat} {connections : List Nat}
    (hExited : s.server.pool.workers[i]? = some .exited) :
    Threads { s with sessions := s.sessions.set i ⟨none, none, true⟩, connections := connections } where
  length := List.length_set.trans h.length
  ended j other hOther hEnded := by
    obtain ⟨rfl, -⟩ | ⟨-, hOther⟩ := Slots.getElem?_set_cases hOther
    · exact hExited
    · exact h.ended j other hOther hEnded
  joined hNot := by
    obtain ⟨hDown, hEnded⟩ := h.joined hNot
    refine ⟨hDown, fun other hOther => ?_⟩
    obtain hOther | rfl := List.mem_or_eq_of_mem_set hOther
    · exact hEnded other hOther
    · rfl

theorem Threads.serve (h : Threads s) {e : Connections.Event} {server : Server}
    (hStep : Connections.Step s.server e server) : Threads { s with server := server } where
  length := h.length.trans (workers_length hStep).symm
  ended i session hAt hEnded := exited_stays hStep (h.ended i session hAt hEnded)
  joined hNot := by
    obtain ⟨hDown, hEnded⟩ := h.joined hNot
    exact ⟨stays_down hStep hDown, hEnded⟩

theorem Threads.step (h : Threads s) (hStep : Step env s e s') : Threads s' := by
  cases hStep with
  | serve hServer _ => exact h.serve hServer
  | connect _ hAt _ _ => exact h.set hAt rfl
  | reuse _ hAt _ => exact h.set hAt rfl
  | fallBack _ hAt _ => exact h.set hAt rfl
  | query | enqueue | compensate => exact ⟨h.length, h.ended, h.joined⟩
  | endThread hExited _ _ => exact h.endThread hExited
  | join _ hDown hEnded => exact ⟨h.length, h.ended, fun _ => ⟨hDown, hEnded⟩⟩
  | disconnect hAt | flush hAt | stop hAt | drain hAt | leave hAt =>
    refine ⟨h.length, h.ended, fun _ => h.joined ?_⟩
    rw [hAt]
    simp

theorem run_threads (hRun : ProcessRun env numThreads queueCap bootstrap tr s) : Threads s :=
  hRun.invariant (P := fun _ s => Threads s) (threads_start numThreads queueCap bootstrap)
    fun h hStep => h.step hStep

theorem phase_of_serving (hRun : ProcessRun env numThreads queueCap bootstrap tr s) {i : Nat}
    (hServing : Serving s.server i) : s.phase = .serving := by
  have hThreads := run_threads hRun
  have hThere := serving_running (run_server hRun) hServing
  by_contra hNot
  obtain ⟨job, hJob, -⟩ := hServing
  obtain ⟨queue, hOwned⟩ := Connections.run_owned (run_server hRun)
  have hLength : i < s.sessions.length := by
    have hServices := congrArg List.length hOwned.matched
    rw [List.length_map, List.length_map] at hServices
    rw [hThreads.length, ← hServices]
    exact (List.getElem?_eq_some_iff.mp hJob).1
  have hAt := List.getElem?_eq_getElem hLength
  apply hThere
  exact hThreads.ended i _ hAt ((hThreads.joined hNot).2 _ (List.getElem_mem hLength))

/-- After the join all workers have left their loops. -/
theorem gone_of_joined (hRun : ProcessRun env numThreads queueCap bootstrap tr s)
    (hJoined : s.phase ≠ .serving) : ∀ w ∈ s.server.pool.workers, w = .exited := by
  have hThreads := run_threads hRun
  intro w hw
  obtain ⟨i, hLt, rfl⟩ := List.getElem_of_mem hw
  have hLength : i < s.sessions.length := hThreads.length ▸ hLt
  have hExited := hThreads.ended i _ (List.getElem?_eq_getElem hLength)
    ((hThreads.joined hJoined).2 _ (List.getElem_mem hLength))
  rw [List.getElem?_eq_getElem hLt] at hExited
  exact Option.some.inj hExited

end Sessions

section Connections

/-- Who has a connection to close: `main` and the sessions. -/
def Process.owners (s : Process) : List Nat :=
  (if s.phase.connected then [s.bootstrap] else []) ++ s.sessions.filterMap Session.connection

/-- Every open connection has one owner, and a session asks its own or that of `main`. -/
structure Held (s : Process) : Prop where
  owners : ∀ id, s.owners.count id = s.connections.count id
  nodup : s.connections.Nodup
  dbc : ∀ session ∈ s.sessions, ∀ id, session.dbc = some id →
    id = s.bootstrap ∨ session.connection = some id

variable {env : Env} {numThreads queueCap : Int} {bootstrap : Nat} {tr : List Event}
  {s s' : Process} {e : Event}

theorem count_owners (s : Process) (id : Nat) : s.owners.count id =
    (if s.phase.connected then [s.bootstrap] else []).count id +
      (s.sessions.filterMap Session.connection).count id := List.count_append

theorem held_start (numThreads queueCap : Int) (bootstrap : Nat) :
    Held (.start numThreads queueCap bootstrap) where
  owners id := by
    have hNone : (Process.start numThreads queueCap bootstrap).sessions.filterMap
        Session.connection = [] := by
      apply List.filterMap_eq_nil_iff.mpr
      intro session hSession
      rw [List.eq_of_mem_replicate hSession]
      rfl
    rw [Process.owners, hNone]
    rfl
  nodup := List.nodup_singleton bootstrap
  dbc session hSession id hDbc := by
    cases List.eq_of_mem_replicate hSession
    cases hDbc

theorem Held.mem_iff (h : Held s) {id : Nat} : id ∈ s.connections ↔ id ∈ s.owners := by
  rw [← List.count_pos_iff, ← List.count_pos_iff, h.owners]

theorem Held.own (h : Held s) {i id : Nat} {session : Session}
    (hAt : s.sessions[i]? = some session) (hOwn : session.connection = some id) :
    id ∈ s.connections := by
  apply h.mem_iff.mpr
  apply List.mem_append_right
  exact List.mem_filterMap.mpr ⟨session, List.mem_of_getElem? hAt, hOwn⟩

theorem Held.shared (h : Held s) (hConnected : s.phase.connected = true) :
    s.bootstrap ∈ s.connections := by
  apply h.mem_iff.mpr
  apply List.mem_append_left
  rw [if_pos hConnected]
  exact List.mem_cons_self

theorem Held.ask (h : Held s) {i id : Nat} {session : Session}
    (hAt : s.sessions[i]? = some session)
    (hId : id = s.bootstrap ∨ session.connection = some id) :
    Held { s with sessions := s.sessions.set i { session with dbc := some id } } where
  owners d := by
    have hOld := h.owners d
    have hSet := Slots.count_filterMap_set Session.connection hAt { session with dbc := some id } d
    rw [count_owners] at hOld ⊢
    dsimp only at hSet ⊢
    omega
  nodup := h.nodup
  dbc other hOther d hDbc := by
    obtain hOther | rfl := List.mem_or_eq_of_mem_set hOther
    · exact h.dbc other hOther d hDbc
    · cases hDbc
      exact hId

theorem Held.connect (h : Held s) {i id : Nat} {session : Session}
    (hAt : s.sessions[i]? = some session) (hNone : session.connection = none)
    (hNew : id ∉ s.connections) :
    Held { s with
      sessions := s.sessions.set i ⟨some id, some id, session.ended⟩
      connections := id :: s.connections } where
  owners d := by
    have hOld := h.owners d
    have hSet := Slots.count_filterMap_set Session.connection hAt ⟨some id, some id, session.ended⟩ d
    rw [count_owners] at hOld ⊢
    rw [hNone, Option.toList_none, List.count_nil] at hSet
    dsimp only [Option.toList_some] at hSet ⊢
    rw [List.count_cons, List.count_nil] at hSet
    rw [List.count_cons]
    omega
  nodup := List.nodup_cons.mpr ⟨hNew, h.nodup⟩
  dbc other hOther d hDbc := by
    obtain hOther | rfl := List.mem_or_eq_of_mem_set hOther
    · exact h.dbc other hOther d hDbc
    · exact .inr hDbc

theorem count_diff_toList (ids : List Nat) (connection : Option Nat) (d : Nat) :
    (ids.diff connection.toList).count d = ids.count d - connection.toList.count d := by
  cases connection with
  | none => rfl
  | some id =>
    rw [Option.toList_some, List.diff_cons, List.diff_nil, List.count_erase, List.count_cons,
      List.count_nil, Nat.zero_add]

theorem Held.endThread (h : Held s) {i : Nat} {session : Session}
    (hAt : s.sessions[i]? = some session) :
    Held { s with
      sessions := s.sessions.set i ⟨none, none, true⟩
      connections := s.connections.diff session.connection.toList } where
  owners d := by
    have hOld := h.owners d
    have hSet := Slots.count_filterMap_set Session.connection hAt ⟨none, none, true⟩ d
    rw [count_owners] at hOld ⊢
    dsimp only [Option.toList_none] at hSet ⊢
    rw [List.count_nil] at hSet
    rw [count_diff_toList]
    omega
  nodup := h.nodup.diff
  dbc other hOther d hDbc := by
    obtain hOther | rfl := List.mem_or_eq_of_mem_set hOther
    · exact h.dbc other hOther d hDbc
    · cases hDbc

theorem Held.disconnect (h : Held s) (hJoined : s.phase = .joined) :
    Held { s with phase := .disconnected, connections := s.connections.erase s.bootstrap } where
  owners d := by
    have hOld := h.owners d
    rw [count_owners, hJoined] at hOld
    rw [count_owners]
    change [s.bootstrap].count d + _ = _ at hOld
    change 0 + (s.sessions.filterMap Session.connection).count d =
      (s.connections.erase s.bootstrap).count d
    rw [List.count_cons, List.count_nil] at hOld
    rw [List.count_erase]
    omega
  nodup := h.nodup.erase _
  dbc := h.dbc

theorem Held.advance (h : Held s) {phase : Phase} {reversal : Globals}
    (hSame : phase.connected = s.phase.connected) :
    Held { s with phase := phase, reversal := reversal } where
  owners d := by
    rw [count_owners, hSame, ← count_owners]
    exact h.owners d
  nodup := h.nodup
  dbc := h.dbc

theorem Held.step (h : Held s) (hStep : Step env s e s') : Held s' := by
  cases hStep with
  | serve | query | enqueue | compensate => exact ⟨h.owners, h.nodup, h.dbc⟩
  | connect _ hAt hNone hNew => exact h.connect hAt hNone hNew
  | reuse _ hAt hOwn => exact h.ask hAt (.inr hOwn)
  | fallBack _ hAt _ => exact h.ask hAt (.inl rfl)
  | endThread _ hAt _ => exact h.endThread hAt
  | join hAt => exact h.advance (by rw [hAt]; rfl)
  | disconnect hAt => exact h.disconnect hAt
  | flush hAt => exact h.advance (by rw [hAt]; rfl)
  | stop hAt => exact h.advance (by rw [hAt]; rfl)
  | drain hAt => exact h.advance (by rw [hAt]; rfl)
  | leave hAt => exact h.advance (by rw [hAt]; rfl)

theorem run_held (hRun : ProcessRun env numThreads queueCap bootstrap tr s) : Held s :=
  hRun.invariant (P := fun _ s => Held s) (held_start numThreads queueCap bootstrap)
    fun h hStep => h.step hStep

theorem run_bootstrap (hRun : ProcessRun env numThreads queueCap bootstrap tr s) :
    s.bootstrap = bootstrap := by
  induction hRun with
  | nil => rfl
  | snoc _ hStep ih => cases hStep <;> exact ih

theorem run_open (hRun : ProcessRun env numThreads queueCap bootstrap tr s)
    (hStep : Step env s e s') : ∀ id ∈ queriedOf e ++ closedOf e, id ∈ s.connections := by
  have hHeld := run_held hRun
  intro id hMem
  cases hStep with
  | query hServing hAt hDbc =>
    cases List.mem_singleton.mp hMem
    have hPhase := phase_of_serving hRun hServing
    obtain rfl | hOwn := hHeld.dbc _ (List.mem_of_getElem? hAt) _ hDbc
    · exact hHeld.shared (by rw [hPhase]; rfl)
    · exact hHeld.own hAt hOwn
  | endThread _ hAt _ => exact hHeld.own hAt (Option.mem_toList.mp hMem)
  | disconnect hAt =>
    cases List.mem_singleton.mp hMem
    exact hHeld.shared (by rw [hAt]; rfl)
  | _ => cases hMem

/-- The connection is the worker's own, and no other session has it or asks it. -/
def Process.OwnedBy (s : Process) (i id : Nat) : Prop :=
  (∃ session, s.sessions[i]? = some session ∧ session.connection = some id) ∧
    ∀ (j : Nat) (session : Session), s.sessions[j]? = some session →
      session.connection = some id ∨ session.dbc = some id → j = i

/-- Only its owner asks or closes a connection. The one of `main` is asked by the workers that have
none of their own, while `main` has not joined them. -/
structure OwnUse (env : Env) (bootstrap : Nat) (s : Process) : Prop where
  queried : ∀ i id s', Step env s (.queried i id) s' → Serving s.server i ∧
    (id = bootstrap ∧ s.phase = .serving ∨ id ≠ bootstrap ∧ s.OwnedBy i id)
  ended : ∀ i id s', Step env s (.ended i (some id)) s' → id ≠ bootstrap ∧ s.OwnedBy i id
  disconnected : ∀ id s', Step env s (.disconnected id) s' →
    id = bootstrap ∧ ∀ w ∈ s.server.pool.workers, w = .exited

theorem Held.owners_nodup (h : Held s) : s.owners.Nodup :=
  (List.perm_iff_count.mpr h.owners).nodup_iff.mpr h.nodup

theorem Held.ownedBy (h : Held s) (hConnected : s.phase.connected = true) {i id : Nat}
    {session : Session} (hAt : s.sessions[i]? = some session)
    (hOwn : session.connection = some id) : id ≠ s.bootstrap ∧ s.OwnedBy i id := by
  have hNodup := h.owners_nodup
  rw [Process.owners, if_pos hConnected, List.singleton_append, List.nodup_cons] at hNodup
  obtain ⟨hApart, hNodup⟩ := hNodup
  have hNe : id ≠ s.bootstrap := by
    rintro rfl
    exact hApart (List.mem_filterMap.mpr ⟨session, List.mem_of_getElem? hAt, hOwn⟩)
  refine ⟨hNe, ⟨session, hAt, hOwn⟩, ?_⟩
  intro j other hOther hHas
  have hOwns : other.connection = some id := by
    obtain hOwns | hDbc := hHas
    · exact hOwns
    · exact (h.dbc other (List.mem_of_getElem? hOther) id hDbc).resolve_left hNe
  exact Slots.eq_of_nodup_filterMap hNodup hOther hAt hOwns hOwn

theorem run_ownUse (hRun : ProcessRun env numThreads queueCap bootstrap tr s) :
    OwnUse env bootstrap s := by
  have hHeld := run_held hRun
  have hBootstrap := run_bootstrap hRun
  have hConnected : s.phase = .serving → s.phase.connected = true := by
    intro hPhase
    rw [hPhase]
    rfl
  constructor
  case queried =>
    intro i id s' hStep
    cases hStep with
    | query hServing hAt hDbc =>
      have hPhase := phase_of_serving hRun hServing
      refine ⟨hServing, ?_⟩
      obtain rfl | hOwn := hHeld.dbc _ (List.mem_of_getElem? hAt) _ hDbc
      · exact .inl ⟨hBootstrap, hPhase⟩
      · exact .inr (hBootstrap ▸ hHeld.ownedBy (hConnected hPhase) hAt hOwn)
  case ended =>
    intro i id s' hStep
    generalize hEvent : Event.ended i (some id) = e at hStep
    cases hStep with
    | endThread _ hAt hGoing =>
      injection hEvent with hWorker hOwn
      subst hWorker
      have hPhase : s.phase = .serving := by
        by_contra hJoined
        have hEnded := ((run_threads hRun).joined hJoined).2 _ (List.mem_of_getElem? hAt)
        cases hGoing.symm.trans hEnded
      exact hBootstrap ▸ hHeld.ownedBy (hConnected hPhase) hAt hOwn.symm
    | _ => cases hEvent
  case disconnected =>
    intro id s' hStep
    cases hStep with
    | disconnect hJoined =>
      refine ⟨hBootstrap, gone_of_joined hRun ?_⟩
      rw [hJoined]
      simp

/-- What was opened is open or was closed, once. -/
theorem run_closed (hRun : ProcessRun env numThreads queueCap bootstrap tr s) :
    (tr.flatMap closedOf ++ s.connections).Perm (bootstrap :: tr.flatMap openedOf) := by
  induction hRun with
  | nil => exact .refl _
  | @snoc tr s s' e hPrev hStep ih =>
    have hOpen := run_open hPrev hStep
    simp only [List.flatMap_append, List.flatMap_singleton]
    cases hStep with
    | connect =>
      simp only [closedOf, openedOf, List.append_nil]
      apply List.perm_middle.trans
      exact (ih.cons _).trans (List.perm_append_singleton _ _).symm
    | @endThread i session _ hAt _ =>
      cases hConnection : session.connection with
      | none => simpa [closedOf, openedOf, hConnection] using ih
      | some id =>
        have hMem : id ∈ s.connections := hOpen id (by simp [closedOf, queriedOf, hConnection])
        simpa [closedOf, openedOf, hConnection] using Connections.closed_snoc hMem ih
    | disconnect =>
      have hMem : s.bootstrap ∈ s.connections := hOpen _ (by simp [closedOf, queriedOf])
      simpa [closedOf, openedOf] using Connections.closed_snoc hMem ih
    | _ => simpa [closedOf, openedOf] using ih

end Connections

section Reversals

variable {env : Env} {numThreads queueCap : Int} {bootstrap : Nat} {tr : List Event}
  {s s' : Process} {e : Event}

/-- What `main` has done to the reversal queue. -/
structure Stopped (tr : List Event) (s : Process) : Prop where
  order : ShutdownLast (reversalLabels tr)
  shutdown : .shutdown ∈ reversalLabels tr → s.phase.stopped = true
  drained : s.phase.over = true → .drained ∈ reversalLabels tr ∧ s.reversal.worker = .exited

theorem order_snoc {labels : List Reversal.Label} {l : Reversal.Label} (h : ShutdownLast labels)
    (hNew : ∀ t, l = .enqueued t → .shutdown ∉ labels) : ShutdownLast (labels ++ [l]) := by
  apply List.pairwise_append.mpr
  refine ⟨h, List.pairwise_singleton _ _, ?_⟩
  intro l' hl' k hk t hEq
  obtain ⟨rfl, rfl⟩ := hEq
  exact hNew t (List.mem_singleton.mp hk).symm hl'

theorem Stopped.other (h : Stopped tr s) (hView : reversalLabel e = none)
    (hReversal : s'.reversal = s.reversal) (hStopped : s'.phase.stopped = s.phase.stopped)
    (hOver : s'.phase.over = s.phase.over) : Stopped (tr ++ [e]) s' := by
  have hLabels : reversalLabels (tr ++ [e]) = reversalLabels tr := by
    rw [reversalLabels_snoc, hView, Option.toList_none, List.append_nil]
  constructor
  · rw [hLabels]
    exact h.order
  · rw [hLabels, hStopped]
    exact h.shutdown
  · rw [hLabels, hReversal, hOver]
    exact h.drained

theorem Stopped.label (h : Stopped tr s) {l : Reversal.Label} (hView : reversalLabel e = some l)
    (hNew : ∀ t, l = .enqueued t → s.phase = .serving)
    (hStopped : s.phase.stopped = true ∨ l = .shutdown → s'.phase.stopped = true)
    (hOver : s'.phase.over = true → (.drained ∈ reversalLabels tr ∨ l = .drained) ∧
      s'.reversal.worker = .exited) : Stopped (tr ++ [e]) s' := by
  have hLabels : reversalLabels (tr ++ [e]) = reversalLabels tr ++ [l] := by
    rw [reversalLabels_snoc, hView, Option.toList_some]
  constructor
  · rw [hLabels]
    apply order_snoc h.order
    intro t hl hMem
    have hPhase := h.shutdown hMem
    rw [hNew t hl] at hPhase
    cases hPhase
  · rw [hLabels]
    intro hMem
    obtain hOld | hNow := List.mem_append.mp hMem
    · exact hStopped (.inl (h.shutdown hOld))
    · exact hStopped (.inr (List.mem_singleton.mp hNow).symm)
  · rw [hLabels]
    intro hNow
    obtain ⟨hMem, hExited⟩ := hOver hNow
    refine ⟨?_, hExited⟩
    obtain hOld | rfl := hMem
    · exact List.mem_append_left _ hOld
    · exact List.mem_append_right _ List.mem_cons_self

theorem not_byWorker_of_exited {m m' : Globals} {l : Reversal.Label} (hExited : m.worker = .exited)
    (hStep : ReversalQueue.Step env m l m') : byWorker l = false := by
  cases hStep with
  | enqueue | shutdown | drain => rfl
  | take _ hAt | work _ hAt | release hAt | retry hAt | exit hAt => cases hExited.symm.trans hAt

theorem Stopped.step (hRun : ProcessRun env numThreads queueCap bootstrap tr s)
    (h : Stopped tr s) (hStep : Step env s e s') : Stopped (tr ++ [e]) s' := by
  cases hStep with
  | serve | connect | reuse | fallBack | query | endThread => exact h.other rfl rfl rfl rfl
  | @enqueue i task reversal hServing hReversal =>
    have hPhase := phase_of_serving hRun hServing
    apply h.label rfl (fun _ _ => hPhase)
    · rintro (hOld | hNot)
      · exact hOld
      · cases hNot
    · intro hOver
      rw [hPhase] at hOver
      cases hOver
  | @compensate l reversal hWorker hReversal =>
    apply h.label rfl
    · rintro t rfl
      cases hWorker
    · rintro (hOld | rfl)
      · exact hOld
      · cases hWorker
    · intro hOver
      obtain ⟨hDrained, hExited⟩ := h.drained hOver
      rw [not_byWorker_of_exited hExited hReversal] at hWorker
      cases hWorker
  | join hAt => exact h.other rfl rfl (by rw [hAt]; rfl) (by rw [hAt]; rfl)
  | disconnect hAt => exact h.other rfl rfl (by rw [hAt]; rfl) (by rw [hAt]; rfl)
  | flush hAt => exact h.other rfl rfl (by rw [hAt]; rfl) (by rw [hAt]; rfl)
  | leave hAt => exact h.other rfl rfl (by rw [hAt]; rfl) (by rw [hAt]; rfl)
  | stop hAt hReversal =>
    apply h.label rfl
    · rintro t hNot
      cases hNot
    · exact fun _ => rfl
    · intro hOver
      cases hOver
  | drain hAt hReversal =>
    apply h.label rfl
    · rintro t hNot
      cases hNot
    · exact fun _ => rfl
    · intro _
      refine ⟨.inr rfl, ?_⟩
      cases hReversal with
      | drain hExited => exact hExited

theorem run_stopped (hRun : ProcessRun env numThreads queueCap bootstrap tr s) : Stopped tr s := by
  induction hRun with
  | nil =>
    constructor
    · exact List.Pairwise.nil
    · intro hNot
      cases hNot
    · intro hNot
      cases hNot
  | snoc hPrev hStep ih => exact ih.step hPrev hStep

theorem run_reversals (hRun : ProcessRun env numThreads queueCap bootstrap tr s) :
    ∃ cells, ReversalQueue.Conserved env (reversalLabels tr) s.reversal cells := by
  obtain ⟨cells, hs, hLists⟩ := ReversalQueue.run_refines (run_reversal hRun)
  have hKept := ReversalQueue.run_kept hLists (run_stopped hRun).order
  exact ⟨cells, hs.conserved hKept (Reversal.run_tracked hLists)⟩

end Reversals

section Return

variable {env : Env} {numThreads queueCap : Int} {bootstrap : Nat} {tr : List Event}
  {s s' : Process} {e : Event}

theorem not_serving_of_joined (hRun : ProcessRun env numThreads queueCap bootstrap tr s)
    (hJoined : s.phase ≠ .serving) (i : Nat) : ¬Serving s.server i := fun hServing =>
  hJoined (phase_of_serving hRun hServing)

/-- When `main` has returned no thread of the process is left. -/
theorem not_step_of_returned (hRun : ProcessRun env numThreads queueCap bootstrap tr s)
    (hReturned : s.phase = .returned) : ¬Step env s e s' := by
  have hJoined : s.phase ≠ .serving := by
    rw [hReturned]
    simp
  have hIdle := not_serving_of_joined hRun hJoined
  intro hStep
  cases hStep with
  | serve hServer hMain =>
    exact hJoined (hMain (byMain_of_gone (run_server hRun) (gone_of_joined hRun hJoined) hServer))
  | connect hServing | reuse hServing | fallBack hServing | query hServing | enqueue hServing =>
    exact hIdle _ hServing
  | compensate hWorker hReversal =>
    have hExited := ((run_stopped hRun).drained (by rw [hReturned]; rfl)).2
    rw [not_byWorker_of_exited hExited hReversal] at hWorker
    cases hWorker
  | endThread _ hAt hGoing =>
    have hEnded := ((run_threads hRun).joined hJoined).2 _ (List.mem_of_getElem? hAt)
    rw [hGoing] at hEnded
    cases hEnded
  | join hAt | disconnect hAt | flush hAt | stop hAt | drain hAt | leave hAt =>
    cases hReturned.symm.trans hAt

structure Cleared (env : Env) (tr : List Event) (s : Process) : Prop where
  quiet : ∀ e s', ¬Step env s e s'
  descriptors : s.server.descriptors = []
  contexts : ∀ c, s.server.contexts c = none
  connections : s.connections = []
  jobs : (ran (poolLabels (serverEvents tr))).Perm (accepted (poolLabels (serverEvents tr)))
  reversals : ∀ a ∈ ReversalQueue.enqueued (reversalLabels tr),
    a ∈ ReversalQueue.succeeded (reversalLabels tr) ∨ a ∈ ReversalQueue.failed (reversalLabels tr)

theorem no_connection (hHeld : Held s) (hThreads : Threads s) (hReturned : s.phase = .returned)
    (hOver : ∀ session ∈ s.sessions, session.ended = true → session.connection = none) :
    s.connections = [] := by
  have hEnded := (hThreads.joined (by rw [hReturned]; simp)).2
  have hNone : s.sessions.filterMap Session.connection = [] := by
    apply List.filterMap_eq_nil_iff.mpr
    exact fun session hSession => hOver session hSession (hEnded session hSession)
  apply List.eq_nil_iff_forall_not_mem.mpr
  intro id hMem
  have hOwners := hHeld.mem_iff.mp hMem
  rw [Process.owners, hReturned, hNone] at hOwners
  cases hOwners

theorem run_over (hRun : ProcessRun env numThreads queueCap bootstrap tr s) :
    ∀ session ∈ s.sessions, session.ended = true → session.connection = none := by
  induction hRun with
  | nil =>
    intro session hSession hEnded
    cases List.eq_of_mem_replicate hSession
    cases hEnded
  | @snoc tr s s' e hPrev hStep ih =>
    have hThreads := run_threads hPrev
    have hGoing : ∀ {i : Nat} {session : Session}, Serving s.server i →
        s.sessions[i]? = some session → session.ended = false := by
      intro i session hServing hAt
      by_contra hEnded
      rw [Bool.not_eq_false] at hEnded
      exact serving_running (run_server hPrev) hServing (hThreads.ended _ _ hAt hEnded)
    have hSet : ∀ {i : Nat} {next : Session}, (next.ended = true → next.connection = none) →
        ∀ session ∈ s.sessions.set i next, session.ended = true → session.connection = none := by
      intro i next hNext session hSession hEnded
      obtain hOld | rfl := List.mem_or_eq_of_mem_set hSession
      · exact ih session hOld hEnded
      · exact hNext hEnded
    cases hStep with
    | serve | query | enqueue | compensate | join | disconnect | flush | stop | drain | leave =>
      exact ih
    | endThread => exact hSet fun _ => rfl
    | connect hServing hAt _ _ | reuse hServing hAt _ | fallBack hServing hAt _ =>
      apply hSet
      intro hEnded
      cases (hGoing hServing hAt).symm.trans hEnded

theorem run_cleared (hRun : ProcessRun env numThreads queueCap bootstrap tr s)
    (hReturned : s.phase = .returned) : Cleared env tr s := by
  have hJoined : s.phase ≠ .serving := by
    rw [hReturned]
    simp
  have hServer := run_server hRun
  have hGone := gone_of_joined hRun hJoined
  have hLeft := left_of_down hServer ((run_threads hRun).joined hJoined).1
  obtain ⟨hDescriptors, hContexts⟩ := Connections.nothing_left hServer hLeft hGone
  obtain ⟨cells, hands, hInv⟩ := ThreadPool.run_inv (Connections.run_pool hServer)
  obtain ⟨_, hConserved⟩ := run_reversals hRun
  constructor
  case quiet => exact fun e s' => not_step_of_returned hRun hReturned
  case descriptors => exact hDescriptors
  case contexts => exact hContexts
  case connections => exact no_connection (run_held hRun) (run_threads hRun) hReturned (run_over hRun)
  case jobs => exact hInv.ran_of_gone (ThreadPool.run_workers (Connections.run_pool hServer)) hGone
  case reversals => exact hConserved.drained ((run_stopped hRun).drained (by rw [hReturned]; rfl)).1

/-- The order of the teardown is safe in every state and complete when `main` returns. -/
structure TornDown (env : Env) (bootstrap : Nat) (tr : List Event) (s : Process) : Prop where
  order : ShutdownLast (reversalLabels tr)
  reversals : ∃ cells, ReversalQueue.Conserved env (reversalLabels tr) s.reversal cells
  safe : ∀ e s', Step env s e s' → ∀ id ∈ queriedOf e ++ closedOf e, id ∈ s.connections
  used : OwnUse env bootstrap s
  owners : s.owners.Perm s.connections ∧ s.connections.Nodup
  closedOnce : (tr.flatMap closedOf ++ s.connections).Perm (bootstrap :: tr.flatMap openedOf)
  returned : s.phase = .returned → Cleared env tr s

theorem run_tornDown (hRun : ProcessRun env numThreads queueCap bootstrap tr s) :
    TornDown env bootstrap tr s where
  order := (run_stopped hRun).order
  reversals := run_reversals hRun
  safe _ _ hStep := run_open hRun hStep
  used := run_ownUse hRun
  owners := ⟨List.perm_iff_count.mpr (run_held hRun).owners, (run_held hRun).nodup⟩
  closedOnce := run_closed hRun
  returned := run_cleared hRun

/-- One connection, served with a database connection of its own, and the end of the process. -/
def sampleServed : List Event :=
  [.server (.accepted 5), .server (.built 100), .server (.pool (.allocated 7 100)),
    .server (.pool (.accepted 7 100)), .server (.pool (.took 0 100)), .connected 0 2, .queried 0 2,
    .server (.closed 0 5), .server (.freed 0 100), .server (.pool (.ran 0 100))]

def sampleEnded : List Event :=
  [.server .left, .server (.pool .shutdown), .server (.pool (.exited 0)), .ended 0 (some 2), .joined,
    .disconnected 1, .flushed, .reversal .shutdown, .reversal .exited, .reversal .drained, .returned]

theorem run_tornDown_sample : ∃ s, ProcessRun Reversal.sampleEnv 1 1 1 (sampleServed ++ sampleEnded) s ∧
    s.phase = .returned ∧ TornDown Reversal.sampleEnv 1 (sampleServed ++ sampleEnded) s := by
  have h₁ : ProcessRun Reversal.sampleEnv 1 1 1 [.server (.accepted 5)] _ :=
    .snoc .nil (.serve (.accept rfl (by decide)) fun _ => rfl)
  have h₂ : ProcessRun Reversal.sampleEnv 1 1 1 (_ ++ [.server (.built 100)]) _ :=
    h₁.snoc (.serve (.build rfl rfl) fun _ => rfl)
  have h₃ := h₂.snoc (.serve (.submit (.allocate (a := 7) 100 rfl rfl) rfl) fun _ => rfl)
  have h₄ := h₃.snoc
    (.serve (.submit (.accept (a := 7) List.mem_cons_self rfl (by decide)) rfl) fun _ => rfl)
  have h₅ := h₄.snoc (.serve (.take (.take (i := 0) rfl (by decide) rfl rfl)) fun _ => rfl)
  have h₆ : ProcessRun Reversal.sampleEnv 1 1 1 (_ ++ [.connected 0 2]) _ :=
    h₅.snoc (.connect ⟨_, rfl, rfl⟩ rfl rfl (by decide))
  have h₇ := h₆.snoc (.query (i := 0) ⟨_, rfl, rfl⟩ rfl rfl)
  have h₈ := h₇.snoc (.serve (.close (i := 0) rfl) fun _ => rfl)
  have h₉ := h₈.snoc (.serve (.free (i := 0) rfl) fun _ => rfl)
  have h₁₀ := h₉.snoc (.serve (.run (i := 0) (.run rfl rfl) rfl rfl) fun _ => rfl)
  have h₁₁ := h₁₀.snoc (.serve (.leave rfl) fun _ => rfl)
  have h₁₂ := h₁₁.snoc (.serve (.submit (.shutdown rfl rfl) rfl) fun _ => rfl)
  have h₁₃ := h₁₂.snoc (.serve (.submit (.exit (i := 0) rfl rfl rfl) rfl) fun _ => rfl)
  have h₁₄ := h₁₃.snoc (.endThread (i := 0) rfl rfl rfl)
  have h₁₅ := h₁₄.snoc (.join rfl rfl (by decide))
  have h₁₆ := h₁₅.snoc (.disconnect rfl)
  have h₁₇ := h₁₆.snoc (.flush rfl)
  have h₁₈ := h₁₇.snoc (.stop rfl .shutdown)
  have h₁₉ := h₁₈.snoc (.compensate rfl (.exit rfl rfl rfl))
  have h₂₀ := h₁₉.snoc (.drain rfl (@ReversalQueue.Step.drain _ _ 0 _ rfl rfl))
  have h₂₁ : ProcessRun Reversal.sampleEnv 1 1 1 (sampleServed ++ sampleEnded) _ := h₂₀.snoc (.leave rfl)
  exact ⟨_, h₂₁, rfl, run_tornDown h₂₁⟩

end Return

end MiniVisa.Teardown
