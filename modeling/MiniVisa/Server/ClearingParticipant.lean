import MiniVisa.Server.Operations

/-! # The clearing participant

A clearing request is answered by a return code and a response text, of which the code only
asks whether it contains the OK status. The breaker is shared by all workers, so its two
functions are operations that take the time they were called at.
-/

namespace MiniVisa.ClearingParticipant

set_option autoImplicit false

open Interaction Text

structure ClearingParticipantContext where
  currentTxnId : Bytes
  hasHold : Bool
  panMasked : Bytes
  amount : Bytes
  merchantId : Bytes
  deriving DecidableEq

structure Details where
  panMasked : Bytes
  amount : Bytes
  merchantId : Bytes
  deriving DecidableEq

def ClearingParticipantContext.details (ctx : ClearingParticipantContext) : Details :=
  ⟨ctx.panMasked, ctx.amount, ctx.merchantId⟩

def log (level : Level) (txnId : Bytes) (status : String) : SysProg Unit :=
  .call (.logJson ⟨level, "clearing_participant", some txnId, status, -1⟩) .ret

def emptyContext : ClearingParticipantContext := ⟨[], false, [], [], []⟩

def clearingParticipantInit : SysProg (Option ClearingParticipantContext) := do
  let allocated : Bool ← Prog.perform Sys.malloc
  if allocated then
    -- the seed of the simulated network
    let _ ← Prog.perform Sys.time
    pure (some emptyContext)
  else pure none

def clearingParticipantSetTransaction (ctx : ClearingParticipantContext)
    (txnId panMasked amount merchantId : Bytes) : SysProg (Int × ClearingParticipantContext) := do
  log .info txnId "Transaction details set"
  pure (0, { ctx with
    currentTxnId := fit 64 txnId
    panMasked := fit 32 panMasked
    amount := fit 16 amount
    merchantId := fit 32 merchantId })

def payload (ctx : ClearingParticipantContext) (action : ClearingAction) (txnId : Bytes) :
    ClearingPayload :=
  ⟨action, txnId, ctx.panMasked, ctx.amount, ctx.merchantId⟩

def request (p : ClearingPayload) : SysProg ClearingAnswer := .call (.clearing p) .ret

/-- `100 * (1 << attempt)` in a 32-bit `int`. -/
def backoffMs (attempt : Nat) : Int := Int.bmod (100 * 2 ^ attempt) (2 ^ 32)

/-- `(useconds_t)backoff_ms * 1000` in a 32-bit unsigned type. -/
def backoffMicros (attempt : Nat) : Nat := (backoffMs attempt * 1000 % 2 ^ 32).toNat

/-- The retry loop from `attempt` on, with `left` further attempts after this one. -/
def requestLoop (p : ClearingPayload) : Nat → Nat → SysProg ClearingAnswer
  | attempt, left => do
    let answer ← request p
    if answer.result = 0 then pure answer
    else
      let _ ← Prog.perform (.usleep (backoffMicros attempt))
      match left with
      | 0 => pure answer
      | left + 1 => requestLoop p (attempt + 1) left

/-- One turn of the retry loop, with what follows a failed attempt. -/
theorem wp_turn {σ : Type} {m : Observer Sys.Ans σ} {s : σ} {Q : ClearingAnswer → σ → Prop}
    (p : ClearingPayload) (attempt : Nat) (next : ClearingAnswer → SysProg ClearingAnswer)
    (hAnswered : ∀ answer, answer.result = 0 → Q answer (m.next s ⟨.clearing p, answer⟩))
    (hFailed : ∀ answer, answer.result ≠ 0 → (next answer).wp m Q
      (m.next (m.next s ⟨.clearing p, answer⟩) ⟨.usleep (backoffMicros attempt), ()⟩)) :
    (do
      let answer ← request p
      if answer.result = 0 then pure answer
      else
        let _ ← Prog.perform (.usleep (backoffMicros attempt))
        next answer : SysProg ClearingAnswer).wp m Q s := by
  intro answer _
  change Prog.wp m (if answer.result = 0 then _ else _) _ _
  split
  · rename_i hAnswer
    exact hAnswered answer hAnswer
  · rename_i hAnswer
    exact fun _ _ => hFailed answer hAnswer

def cbShouldShortCircuit : SysProg Bool := do
  let now : Int ← Prog.perform Sys.time
  .call (.cbShouldShortCircuit now) .ret

def cbOnResult (ok : Bool) : SysProg Unit := do
  let now : Int ← Prog.perform Sys.time
  .call (.cbOnResult now ok) .ret

/-- The breaker, the retry loop and the breaker's feedback, shared by prepare and commit:
`none` when the breaker is open. -/
def guardedRequest (maxRetries : Nat) (p : ClearingPayload) (txnId : Bytes) (open_ : String) :
    SysProg (Option ClearingAnswer) := do
  let short ← cbShouldShortCircuit
  if short then
    log .warn txnId open_
    let _ ← Prog.perform (.metric .cbShortCircuit)
    pure none
  else
    let answer ← requestLoop p 0 maxRetries
    cbOnResult (answer.result = 0)
    pure (some answer)

def clearingParticipantPrepare (maxRetries : Nat) (ctx : ClearingParticipantContext)
    (txnId : Bytes) : SysProg (Int × ClearingParticipantContext) :=
  if ctx.currentTxnId = txnId then do
    let answer ← guardedRequest maxRetries (payload ctx .prepare txnId) txnId
      "Circuit open: short-circuit PREPARE"
    match answer with
    | none => pure (-1, ctx)
    | some answer =>
      if answer.result = 0 then
        if answer.statusOk then do
          log .info txnId "Authorization hold placed"
          pure (0, { ctx with hasHold := true })
        else do
          log .error txnId "Clearing service declined"
          pure (-1, ctx)
      else do
        log .error txnId "Clearing PREPARE failed"
        pure (-1, ctx)
  else do
    log .error txnId "Transaction ID mismatch"
    pure (-1, ctx)

def clearingParticipantCommit (maxRetries : Nat) (ctx : ClearingParticipantContext)
    (txnId : Bytes) : SysProg (Int × ClearingParticipantContext) :=
  if ctx.currentTxnId = txnId ∧ ctx.hasHold then do
    let answer ← guardedRequest maxRetries (payload ctx .commit txnId) txnId
      "Circuit open: short-circuit COMMIT"
    match answer with
    | none => pure (-1, ctx)
    | some answer =>
      if answer.result = 0 then
        if answer.statusOk then do
          log .info txnId "Transaction settled"
          pure (0, { ctx with hasHold := false, currentTxnId := [] })
        else do
          log .error txnId "Clearing service commit failed"
          pure (-1, ctx)
      else do
        log .error txnId "Clearing COMMIT failed"
        pure (-1, ctx)
  else do
    log .error txnId "No prepared transaction to commit"
    pure (-1, ctx)

def clearingParticipantAbort (ctx : ClearingParticipantContext) (txnId : Bytes) :
    SysProg (Int × ClearingParticipantContext) := do
  if !ctx.hasHold || ctx.currentTxnId != txnId then
    log .info txnId "No local hold; sending idempotent abort"
  let answer ← request (payload ctx .abort txnId)
  -- best effort: the answer decides only which message is logged
  if answer.result = 0 ∧ answer.statusOk then log .info txnId "Authorization hold released"
  else log .warn txnId "Hold release failed (may timeout naturally)"
  pure (0, { ctx with hasHold := false, currentTxnId := [] })

def clearingParticipantDestroy (ctx : ClearingParticipantContext) :
    SysProg ClearingParticipantContext :=
  if ctx.hasHold then do
    let aborted ← clearingParticipantAbort ctx ctx.currentTxnId
    pure aborted.2
  else pure ctx

end MiniVisa.ClearingParticipant
