import MiniVisa.Library.Transition
import MiniVisa.Server.ClearingParticipant

/-! # The reversal queue and its worker

Producers push tasks, one worker takes the first one that is due, sends an abort to clearing
and releases the task or puts it back. The queue is touched under the lock only, so an
attempt is a program whose operations interleave with the pushes of the producers.
-/

namespace MiniVisa.Reversal

set_option autoImplicit false

open Interaction Transition Text ClearingParticipant

/-- `address` is the pointer that identifies the task. -/
structure ReversalTask where
  address : Nat
  txnId : TxnId
  panMasked : Field 32
  amount : Field 16
  merchantId : Field 32
  attempts : Nat
  nextAt : Int
  deriving DecidableEq

/-- `REVERSAL_MAX_ATTEMPTS` and `REVERSAL_BASE_DELAY_MS`, as `atoi` reads them. -/
structure Env where
  maxAttempts : Option Int
  baseDelayMs : Option Int

def maxAttempts (env : Env) : Nat :=
  let v := env.maxAttempts.getD 6
  if 0 < v then v.toNat else 6

def baseDelayMs (env : Env) : Int :=
  let v := env.baseDelayMs.getD 250
  if 0 < v then v else 250

theorem maxAttempts_pos (env : Env) : 0 < maxAttempts env := by
  simp only [maxAttempts]
  split <;> omega

/-- `base_delay_ms() * (1 << (attempts - 1))` in a 32-bit `int`. -/
def delayMs (env : Env) (attempts : Nat) : Int :=
  Int.bmod (baseDelayMs env * Int.bmod (2 ^ (attempts - 1)) (2 ^ 32)) (2 ^ 32)

def queuePush (queue : List ReversalTask) (t : ReversalTask) : List ReversalTask := queue ++ [t]

def queuePopReady (now : Int) : List ReversalTask → Option (ReversalTask × List ReversalTask)
  | [] => none
  | t :: queue =>
    if t.nextAt ≤ now then some (t, queue)
    else (queuePopReady now queue).map fun x => (x.1, t :: x.2)

def newTask (address : Nat) (request : ReversalRequest) (now : Int) : ReversalTask where
  address := address
  txnId := .copy Field.pos64 request.txnId
  panMasked := .copy Field.pos32 request.panMasked
  amount := .copy Field.pos16 request.amount
  merchantId := .copy Field.pos32 request.merchantId
  attempts := 0
  nextAt := now

def log (level : Level) (txnId : Bytes) (status : String) : SysProg Unit :=
  .call (.logJson ⟨level, "reversal", some txnId, status, -1⟩) .ret

def reversalEnqueue (request : ReversalRequest) : SysProg Int :=
  if request.txnId = [] then pure (-1)
  else do
    let allocated : Bool ← Prog.perform Sys.malloc
    if allocated then
      let now : Int ← Prog.perform Sys.time
      let _ ← Prog.perform (Sys.reversalPush request now)
      let _ ← Prog.perform (Sys.metric .reversalEnqueued)
      log .warn request.txnId "Reversal enqueued"
      pure 0
    else pure (-1)

inductive Outcome
  | succeeded
  | failed
  | retry (task : ReversalTask)
  deriving DecidableEq

def sendAbort (task : ReversalTask) : SysProg (Option Int) := do
  let ctx ← clearingParticipantInit
  match ctx with
  | none => pure none
  | some ctx =>
    let set ← clearingParticipantSetTransaction ctx task.txnId.val task.panMasked.val
      task.amount.val task.merchantId.val
    let aborted ← clearingParticipantAbort set.2 task.txnId.val
    let _ ← clearingParticipantDestroy aborted.2
    pure (some aborted.1)

/-- What the worker does with a task it has taken, up to the release or the new push. -/
def attempt (env : Env) (task : ReversalTask) : SysProg Outcome := do
  let rc ← sendAbort task
  if rc = some 0 then
    log .info task.txnId.val "Reversal success"
    let _ ← Prog.perform (Sys.metric .reversalSucceeded)
    pure .succeeded
  else
    let attempts := task.attempts + 1
    if maxAttempts env ≤ attempts then
      log .error task.txnId.val "Reversal failed permanently"
      let _ ← Prog.perform (Sys.metric .reversalFailed)
      pure .failed
    else
      let now : Int ← Prog.perform Sys.time
      let nextAt := now + Int.tdiv (delayMs env attempts) 1000
      pure (.retry { task with attempts := attempts, nextAt := nextAt })

inductive Worker
  | idle
  | busy (task : ReversalTask) (rest : SysProg Outcome)
  | exited

/-- `allocated` counts the tasks pushed so far and supplies their addresses. -/
structure Machine where
  head : List ReversalTask
  worker : Worker
  shutdown : Bool
  allocated : Nat

def Machine.initial : Machine := ⟨[], .idle, false, 0⟩

def Machine.push (m : Machine) (request : ReversalRequest) (now : Int) : Machine :=
  { m with
    head := queuePush m.head (newTask m.allocated request now)
    allocated := m.allocated + 1 }

inductive Label
  | enqueued (task : ReversalTask)
  | taken (address : Nat)
  | worked (address : Nat) (event : SysEvent)
  | ended (address : Nat) (outcome : Outcome)
  | shutdown
  | exited
  | drained

def Outcome.requeued : Outcome → List ReversalTask
  | .retry t => [t]
  | _ => []

/-- One push by a producer, or one step of the worker or of `reversal_shutdown`. -/
inductive Step (env : Env) (m : Machine) : Label → Machine → Prop
  | enqueue (request : ReversalRequest) (now : Int) :
      Step env m (.enqueued (newTask m.allocated request now)) (m.push request now)
  | take (now : Int) {task : ReversalTask} {rest : List ReversalTask} :
      m.worker = .idle → queuePopReady now m.head = some (task, rest) →
      Step env m (.taken task.address)
        { m with head := rest, worker := .busy task (attempt env task) }
  | work {task : ReversalTask} {e : Sys} {k : e.Ans → SysProg Outcome} (r : e.Ans) :
      m.worker = .busy task (.call e k) →
      Step env m (.worked task.address ⟨e, r⟩) { m with worker := .busy task (k r) }
  | finish {task : ReversalTask} {outcome : Outcome} : m.worker = .busy task (.ret outcome) →
      Step env m (.ended task.address outcome)
        { m with head := m.head ++ outcome.requeued, worker := .idle }
  | shutdown : Step env m .shutdown { m with shutdown := true }
  | exit : m.worker = .idle → m.shutdown = true → m.head = [] →
      Step env m .exited { m with worker := .exited }
  | drain : m.worker = .exited → Step env m .drained { m with head := [] }

end MiniVisa.Reversal
