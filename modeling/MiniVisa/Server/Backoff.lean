import MiniVisa.Library.Views
import MiniVisa.Server.ReversalRuns
import Mathlib.Algebra.Order.Ring.Int
import Mathlib.Tactic.Positivity

/-! # How long a failed request waits

The retry loops of the clearing participant sleep `100 * (1 << attempt)` milliseconds, given to
`usleep` in microseconds, and the reversal worker puts a task off by `1 << (attempts - 1)` times the
base delay. The settings have no upper bound, the types in which this is computed have 32 bits.
-/

namespace MiniVisa.Backoff

set_option autoImplicit false

open Interaction Transition Text Reversal
open ClearingParticipant (ClearingParticipantContext backoffMicros clearingParticipantCommit
  clearingParticipantPrepare emptyContext guardedRequest request requestLoop)

/-- The values of `CLEARING_RETRY_MAX`, as `atoi` reads it, and of the two reversal settings. -/
structure Settings where
  clearingRetryMax : Option Int
  reversal : Env

/-- `env_get_int` with the default of the breaker. -/
def Settings.maxRetries (settings : Settings) : Nat :=
  let v := settings.clearingRetryMax.getD 2
  if 0 < v then v.toNat else 2

section Sleeps

def sleepOf : SysEvent → List Nat
  | ⟨.usleep micros, _⟩ => [micros]
  | _ => []

/-- What a run passes to `usleep`, in order. -/
def sleeps (tr : List SysEvent) : List Nat := tr.flatMap sleepOf

abbrev observe : Observer Sys.Ans (List Nat) := .collect (fun _ => True) sleepOf

variable {s : List Nat}

@[simp] theorem wp_log (level : Level) (txnId : Bytes) (status : String)
    (Q : Unit → List Nat → Prop) : (ClearingParticipant.log level txnId status).wp observe Q s ↔ Q () s := by
  simp [ClearingParticipant.log, Observer.collect, sleepOf, Unique.forall_iff]

theorem wp_turn (p : ClearingPayload) (attempt : Nat) (next : ClearingAnswer → SysProg ClearingAnswer)
    (Q : ClearingAnswer → List Nat → Prop) (hOk : ∀ answer, Q answer s)
    (hNext : ∀ answer, (next answer).wp observe Q (s ++ [backoffMicros attempt])) :
    (do
      let answer ← request p
      if answer.result = 0 then pure answer
      else
        let _ ← Prog.perform (.usleep (backoffMicros attempt))
        next answer : SysProg ClearingAnswer).wp observe Q s := by
  have hSilent : ∀ answer, observe.next s ⟨.clearing p, answer⟩ = s := fun _ => List.append_nil s
  apply ClearingParticipant.wp_turn p attempt next
  · intro answer _
    rw [hSilent]
    exact hOk answer
  · intro answer _
    rw [hSilent]
    exact hNext answer

theorem wp_requestLoop (p : ClearingPayload) (attempt left : Nat) :
    (requestLoop p attempt left).wp observe (fun _ seen =>
      ∃ n ≤ left + 1, seen = s ++ (List.range' attempt n).map backoffMicros) s := by
  have hOk : ∀ left, ∃ n ≤ left + 1, s = s ++ (List.range' attempt n).map backoffMicros :=
    fun left => ⟨0, Nat.zero_le _, by simp⟩
  induction left generalizing attempt s with
  | zero =>
    rw [requestLoop]
    apply wp_turn p attempt _ _ (fun _ => hOk 0)
    intro answer
    exact ⟨1, Nat.le_refl 1, rfl⟩
  | succ left ih =>
    rw [requestLoop]
    apply wp_turn p attempt _ _ (fun _ => hOk (left + 1))
    intro answer
    refine Prog.wp_mono _ ?_ (ih (attempt + 1) fun left => ⟨0, Nat.zero_le _, by simp⟩)
    rintro _ seen ⟨n, hn, rfl⟩
    refine ⟨n + 1, Nat.succ_le_succ hn, ?_⟩
    rw [List.range'_succ, List.map_cons, List.append_assoc]
    rfl

/-- The waits of one phase: as many as attempts failed, one after the other. -/
def Waits (maxRetries : Nat) (seen : List Nat) : Prop :=
  ∃ n ≤ maxRetries + 1, seen = (List.range' 0 n).map backoffMicros

theorem wp_guardedRequest (maxRetries : Nat) (p : ClearingPayload) (txnId : Bytes) (status : String) :
    (guardedRequest maxRetries p txnId status).wp observe (fun _ => Waits maxRetries) [] := by
  have hNone : Waits maxRetries [] := ⟨0, Nat.zero_le _, rfl⟩
  intro now _ short _
  cases short with
  | true => exact fun _ _ _ _ => hNone
  | false =>
    change Prog.wp _ (requestLoop p 0 maxRetries >>= _) _ []
    rw [Prog.wp_bind]
    refine Prog.wp_mono _ ?_ (wp_requestLoop p 0 maxRetries)
    rintro answer seen ⟨n, hn, rfl⟩ now _ ok _
    change Waits maxRetries ((List.range' 0 n).map backoffMicros ++ [] ++ [])
    rw [List.append_nil, List.append_nil]
    exact ⟨n, hn, rfl⟩

variable {maxRetries : Nat} {ctx : ClearingParticipantContext} {txnId : Bytes}

/-- What a phase does with the answer of clearing: it logs. -/
theorem wp_concluded {α : Type} {Q : List Nat → Prop} (hQ : Q s) (answer : Option ClearingAnswer)
    (ok refused failed : String) (idle done undone : α) :
    (match answer with
      | none => pure idle
      | some answer =>
        if answer.result = 0 then
          if answer.statusOk then do
            ClearingParticipant.log .info txnId ok
            pure done
          else do
            ClearingParticipant.log .error txnId refused
            pure undone
        else do
          ClearingParticipant.log .error txnId failed
          pure undone : SysProg α).wp observe (fun _ => Q) s := by
  cases answer with
  | none => exact hQ
  | some answer =>
    dsimp only
    split
    · split
      · simpa using hQ
      · simpa using hQ
    · simpa using hQ

theorem wp_clearingParticipantPrepare :
    (clearingParticipantPrepare maxRetries ctx txnId).wp observe (fun _ => Waits maxRetries) [] := by
  unfold clearingParticipantPrepare
  split
  · rw [Prog.wp_bind]
    refine Prog.wp_mono _ ?_ (wp_guardedRequest maxRetries _ txnId _)
    exact fun answer seen hSeen => wp_concluded hSeen answer _ _ _ _ _ _
  · simp [Waits]

theorem wp_clearingParticipantCommit :
    (clearingParticipantCommit maxRetries ctx txnId).wp observe (fun _ => Waits maxRetries) [] := by
  unfold clearingParticipantCommit
  split
  · rw [Prog.wp_bind]
    refine Prog.wp_mono _ ?_ (wp_guardedRequest maxRetries _ txnId _)
    exact fun answer seen hSeen => wp_concluded hSeen answer _ _ _ _ _ _
  · simp [Waits]

def failing : (op : Sys) → op.Ans
  | .clearing _ => ⟨-1, false⟩
  | op => op.calm

theorem sleeps_requestLoop (p : ClearingPayload) (attempt left : Nat) :
    sleeps ((requestLoop p attempt left).runWith failing).1 =
      (List.range' attempt (left + 1)).map backoffMicros := by
  induction left generalizing attempt with
  | zero => rfl
  | succ left ih =>
    rw [List.range'_succ, List.map_cons, ← ih]
    rfl

theorem sleeps_bind {α β : Type} (p : SysProg α) (f : α → SysProg β) :
    sleeps ((p >>= f).runWith failing).1 =
      sleeps (p.runWith failing).1 ++ sleeps ((f (p.runWith failing).2).runWith failing).1 := by
  rw [Prog.runWith_bind]
  exact List.flatMap_append

theorem sleeps_of_wp {α : Type} {p : SysProg α} (h : p.wp observe (fun _ seen => seen = []) []) :
    sleeps (p.runWith failing).1 = [] :=
  h.collected (Prog.runs_runWith failing p) fun _ _ => trivial

theorem sleeps_guardedRequest (maxRetries : Nat) (p : ClearingPayload) (txnId : Bytes)
    (status : String) :
    sleeps ((guardedRequest maxRetries p txnId status).runWith failing).1 =
      (List.range' 0 (maxRetries + 1)).map backoffMicros := by
  change sleeps ((requestLoop p 0 maxRetries >>= _).runWith failing).1 = _
  rw [sleeps_bind, sleeps_requestLoop]
  exact List.append_nil _

theorem sleeps_failing (maxRetries : Nat) :
    sleeps ((clearingParticipantPrepare maxRetries emptyContext []).runWith failing).1 =
      (List.range' 0 (maxRetries + 1)).map backoffMicros := by
  have hId : emptyContext.currentTxnId = [] := rfl
  rw [clearingParticipantPrepare, if_pos hId, sleeps_bind, sleeps_guardedRequest, sleeps_of_wp,
    List.append_nil]
  exact wp_concluded (Q := fun seen => seen = []) rfl _ _ _ _ _ _ _

end Sleeps

section Clearing

/-- The wait after a failed attempt leaves no type and is the right one. -/
structure WaitExact (attempt micros : Nat) : Prop where
  shift : 2 ^ attempt < 2 ^ 31
  millis : 100 * 2 ^ attempt < 2 ^ 31
  micros_lt : 100 * 2 ^ attempt * 1000 < 2 ^ 32
  value : micros = 100000 * 2 ^ attempt

def WaitsExact (tr : List SysEvent) : Prop :=
  ∀ attempt micros, (sleeps tr)[attempt]? = some micros → WaitExact attempt micros

def PhasesExact (maxRetries : Nat) : Prop :=
  ∀ ctx txnId tr r, (clearingParticipantPrepare maxRetries ctx txnId).Runs tr r ∨
    (clearingParticipantCommit maxRetries ctx txnId).Runs tr r → WaitsExact tr

theorem backoffMicros_lt (attempt : Nat) : backoffMicros attempt < 2 ^ 32 := by
  unfold backoffMicros
  omega

theorem waitExact_of_le {attempt : Nat} (h : attempt ≤ 15) :
    WaitExact attempt (backoffMicros attempt) := by
  have hAll : ∀ attempt ≤ 15, 2 ^ attempt < 2 ^ 31 ∧ 100 * 2 ^ attempt < 2 ^ 31 ∧
      100 * 2 ^ attempt * 1000 < 2 ^ 32 ∧ backoffMicros attempt = 100000 * 2 ^ attempt := by decide
  obtain ⟨hShift, hMillis, hMicros, hValue⟩ := hAll attempt h
  exact ⟨hShift, hMillis, hMicros, hValue⟩

theorem WaitExact.le {attempt : Nat} (h : WaitExact attempt (backoffMicros attempt)) :
    attempt ≤ 15 := by
  by_contra hMore
  have hPow : 2 ^ 16 ≤ 2 ^ attempt := Nat.pow_le_pow_right (by decide) (by omega)
  have hFits := backoffMicros_lt attempt
  have hValue := h.value
  omega

theorem phasesExact_iff (maxRetries : Nat) : PhasesExact maxRetries ↔ maxRetries ≤ 15 := by
  constructor
  · intro h
    have hRuns := Prog.runs_runWith failing (clearingParticipantPrepare maxRetries emptyContext [])
    have hLast := h emptyContext [] _ _ (.inl hRuns) maxRetries (backoffMicros maxRetries)
    apply WaitExact.le
    apply hLast
    rw [sleeps_failing]
    simp
  · intro hMax ctx txnId tr r hRuns attempt micros hSleep
    have hWaits : Waits maxRetries (sleeps tr) := by
      rcases hRuns with hRuns | hRuns
      · exact wp_clearingParticipantPrepare.collected hRuns fun _ _ => trivial
      · exact wp_clearingParticipantCommit.collected hRuns fun _ _ => trivial
    obtain ⟨n, hn, hEq⟩ := hWaits
    have hLt : attempt < n := by
      have hIndex := (List.getElem?_eq_some_iff.mp hSleep).1
      simpa [hEq] using hIndex
    rw [hEq, List.getElem?_map, List.getElem?_range' hLt] at hSleep
    simp only [Nat.zero_add, Nat.one_mul, Option.map_some, Option.some.injEq] at hSleep
    subst hSleep
    apply waitExact_of_le
    omega

end Clearing

section Reversal

/-- The delay before the next attempt leaves no type, is the right one and not a step back. -/
structure DelayExact (env : Env) (attempts : Nat) : Prop where
  shift : (2 : Int) ^ (attempts - 1) < 2 ^ 31
  product : baseDelayMs env * 2 ^ (attempts - 1) < 2 ^ 31
  value : delayMs env attempts = baseDelayMs env * 2 ^ (attempts - 1)
  nonneg : 0 ≤ delayMs env attempts
  monotone : ∀ earlier, 1 ≤ earlier → earlier ≤ attempts → delayMs env earlier ≤ delayMs env attempts

def RetriesExact (env : Env) : Prop :=
  ∀ tr m, Run (Step env) .initial tr m → ∀ a task, .ended a (.retry task) ∈ tr →
    DelayExact env task.attempts ∧
      ∃ now, task.nextAt = now + Int.tdiv (delayMs env task.attempts) 1000

theorem baseDelayMs_pos (env : Env) : 0 < baseDelayMs env := by
  simp only [baseDelayMs]
  split <;> omega

theorem bmod_of_lt {x : Int} (hNonneg : 0 ≤ x) (hLt : x < 2 ^ 31) : Int.bmod x (2 ^ 32) = x := by
  apply Int.bmod_eq_of_le
  · omega
  · omega

theorem delayMs_of_lt {env : Env} {attempts : Nat}
    (h : baseDelayMs env * 2 ^ (attempts - 1) < 2 ^ 31) :
    (2 : Int) ^ (attempts - 1) < 2 ^ 31 ∧
      delayMs env attempts = baseDelayMs env * 2 ^ (attempts - 1) := by
  have hBase := baseDelayMs_pos env
  have hPow : (0 : Int) < 2 ^ (attempts - 1) := Int.pow_pos (by decide)
  have hShift : (2 : Int) ^ (attempts - 1) ≤ baseDelayMs env * 2 ^ (attempts - 1) :=
    le_mul_of_one_le_left hPow.le hBase
  have hLt : (2 : Int) ^ (attempts - 1) < 2 ^ 31 := by omega
  refine ⟨hLt, ?_⟩
  rw [delayMs, bmod_of_lt hPow.le hLt, bmod_of_lt (Int.mul_nonneg hBase.le hPow.le) h]

/-- A product that fits makes the products before it fit. -/
theorem delayExact_of_lt {env : Env} {attempts : Nat}
    (h : baseDelayMs env * 2 ^ (attempts - 1) < 2 ^ 31) : DelayExact env attempts := by
  have hBase := baseDelayMs_pos env
  obtain ⟨hShift, hValue⟩ := delayMs_of_lt h
  refine ⟨hShift, h, hValue, ?_, fun earlier _ hLe => ?_⟩
  · rw [hValue]
    positivity
  · have hPow : (2 : Int) ^ (earlier - 1) ≤ 2 ^ (attempts - 1) :=
      pow_le_pow_right₀ (by decide) (by omega)
    have hLe := Int.mul_le_mul_of_nonneg_left hPow hBase.le
    rw [hValue, (delayMs_of_lt (by omega)).2]
    exact hLe

variable {env : Env}

/-- What a task that is put back has as its time. -/
def Scheduled (env : Env) (outcome : Outcome) : Prop :=
  ∀ task, outcome = .retry task → ∃ now, task.nextAt = now + Int.tdiv (delayMs env task.attempts) 1000

theorem attempt_scheduled (task : ReversalTask) :
    (attempt env task).All (fun _ => True) (Scheduled env) := by
  rw [attempt, Prog.all_bind]
  apply Prog.all_of_forall
  intro rc
  split
  · refine ⟨trivial, fun _ => ⟨trivial, fun _ => ?_⟩⟩
    rintro _ ⟨⟩
  · dsimp only
    split
    · refine ⟨trivial, fun _ => ⟨trivial, fun _ => ?_⟩⟩
      rintro _ ⟨⟩
    · refine ⟨trivial, fun now => ?_⟩
      rintro _ ⟨⟩
      exact ⟨now, rfl⟩

theorem worker_scheduled {tr : List Label} {m : Machine} (hRun : Run (Step env) .initial tr m) :
    ∀ task p, m.worker = .busy task p → p.All (fun _ => True) (Scheduled env) := by
  induction hRun with
  | nil =>
    intro task p hBusy
    cases hBusy
  | snoc _ hStep h =>
  intro task p hBusy
  cases hStep with
  | enqueue request now => exact h task p hBusy
  | take now hIdle hPop =>
    cases hBusy
    exact attempt_scheduled task
  | work r hWorker =>
    cases hBusy
    exact (h _ _ hWorker).2 r
  | finish hWorker => cases hBusy
  | shutdown => exact h task p hBusy
  | exit hIdle hShutdown hEmpty => cases hBusy
  | drain hExited => exact h task p hBusy

theorem run_retries {tr : List Label} {m : Machine} (hRun : Run (Step env) .initial tr m) {a : Nat}
    {task : ReversalTask} (hEnded : .ended a (.retry task) ∈ tr) :
    (1 ≤ task.attempts ∧ task.attempts < maxAttempts env) ∧
      ∃ now, task.nextAt = now + Int.tdiv (delayMs env task.attempts) 1000 := by
  obtain ⟨before, after, rfl⟩ := List.append_of_mem hEnded
  obtain ⟨m₁, m₂, hBefore, hStep⟩ := hRun.at_label
  cases hStep with
  | finish hWorker =>
    obtain ⟨-, hEnds⟩ := (run_tracked hBefore).busy _ _ hWorker
    obtain ⟨-, -, -, hAttempts, hLimit⟩ := hEnds
    exact ⟨⟨by omega, hLimit⟩, worker_scheduled hBefore _ _ hWorker task rfl⟩

/-- Without memory for a context the attempt only sets the time of the next one. -/
theorem attempt_unallocated {task : ReversalTask} (h : task.attempts + 1 < maxAttempts env) :
    ∃ k, attempt env task = .call .malloc k ∧ k false = .call .time fun now =>
      .ret (.retry { task with
        attempts := task.attempts + 1
        nextAt := now + Int.tdiv (delayMs env (task.attempts + 1)) 1000 }) := by
  refine ⟨_, rfl, ?_⟩
  have hLimit : ¬maxAttempts env ≤ task.attempts + 1 := by omega
  exact if_neg hLimit

/-- A task whose attempts find no memory comes back until the limit is reached. -/
theorem exists_retry {k : Nat} (h : k < maxAttempts env) :
    ∃ tr m task, Run (Step env) .initial tr m ∧ m.worker = .idle ∧ m.head = [task] ∧
      task.attempts = k ∧ (0 < k → .ended task.address (.retry task) ∈ tr) := by
  induction k with
  | zero =>
    let request : ReversalRequest := ⟨lit "visa_a_0", [], [], []⟩
    refine ⟨_, _, newTask 0 request 0, .snoc .nil (.enqueue request 0), rfl, rfl, rfl, ?_⟩
    exact fun hPos => absurd hPos (Nat.lt_irrefl 0)
  | succ k ih =>
    obtain ⟨tr, m, task, hRun, hIdle, hHead, rfl, -⟩ := ih (by omega)
    have hPop : queuePopReady task.nextAt m.head = some (task, []) := by
      rw [hHead]
      exact if_pos (Int.le_refl _)
    obtain ⟨answered, hAttempt, hRest⟩ := attempt_unallocated h
    have hTaken := hRun.snoc (.take task.nextAt hIdle hPop)
    rw [hAttempt] at hTaken
    have hDenied := hTaken.snoc (.work false rfl)
    rw [hRest] at hDenied
    have hTimed := hDenied.snoc (.work (0 : Int) rfl)
    have hEnded := hTimed.snoc (.finish rfl)
    refine ⟨_, _, _, hEnded, rfl, rfl, rfl, fun _ => ?_⟩
    exact List.mem_append_right _ List.mem_cons_self

theorem retriesExact_iff (env : Env) :
    RetriesExact env ↔
      maxAttempts env = 1 ∨ baseDelayMs env * 2 ^ (maxAttempts env - 2) < 2 ^ 31 := by
  constructor
  · intro h
    rcases Nat.lt_or_ge 1 (maxAttempts env) with hMore | hOne
    · have hLast : maxAttempts env - 1 < maxAttempts env := by omega
      obtain ⟨tr, m, task, hRun, -, -, hAttempts, hEnded⟩ := exists_retry hLast
      have hExact := (h tr m hRun _ task (hEnded (by omega))).1
      have hProduct := hExact.product
      rw [hAttempts] at hProduct
      exact .inr hProduct
    · have hPos := maxAttempts_pos env
      exact .inl (by omega)
  · intro hFits tr m hRun a task hEnded
    obtain ⟨⟨hFirst, hLimit⟩, hNext⟩ := run_retries hRun hEnded
    refine ⟨delayExact_of_lt ?_, hNext⟩
    rcases hFits with hOne | hFits
    · omega
    · have hPow : (2 : Int) ^ (task.attempts - 1) ≤ 2 ^ (maxAttempts env - 2) :=
        pow_le_pow_right₀ (by decide) (by omega)
      have hLe := Int.mul_le_mul_of_nonneg_left hPow (baseDelayMs_pos env).le
      omega

end Reversal

/-- The waits of both loops are exact just when their last ones are. -/
theorem backoff_exact_iff (settings : Settings) :
    PhasesExact settings.maxRetries ∧ RetriesExact settings.reversal ↔
      settings.maxRetries ≤ 15 ∧ (maxAttempts settings.reversal = 1 ∨
        baseDelayMs settings.reversal * 2 ^ (maxAttempts settings.reversal - 2) < 2 ^ 31) := by
  rw [phasesExact_iff, retriesExact_iff]

/-- The seventeenth attempt of a phase waits for 2258632704 microseconds. -/
theorem not_backoff_exact :
    ¬∀ settings : Settings, (∃ n, settings.clearingRetryMax = some n ∧ 0 < n) →
      PhasesExact settings.maxRetries ∧ RetriesExact settings.reversal := by
  intro h
  have hPhases := (h ⟨some 16, ⟨some 6, some 250⟩⟩ ⟨16, rfl, by decide⟩).1
  exact absurd ((phasesExact_iff 16).mp hPhases) (by decide)

end MiniVisa.Backoff
