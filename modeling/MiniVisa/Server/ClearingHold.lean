import MiniVisa.Library.Transition
import MiniVisa.Library.Views
import MiniVisa.Server.ClearingParticipant

/-! # What a clearing context may commit

A context is used for one transaction after the other, by any sequence of its four calls. The
hold flag and the details are written independently: a new transaction is set without looking
at the flag, so that the hold of one transaction can be committed under the name of another.
-/

namespace MiniVisa.ClearingParticipant

set_option autoImplicit false

open Interaction Transition Text

/-- A call on a context with its return code; prepare and commit with the details that their
payload carries. -/
inductive Label
  | setTransaction (txnId panMasked amount merchantId : Bytes)
  | prepare (txnId : Bytes) (details : Details) (rc : Int)
  | commit (txnId : Bytes) (details : Details) (rc : Int)
  | abort (txnId : Bytes)
  deriving DecidableEq

/-- One call, with any answers of clearing and of the breaker. -/
inductive Step (maxRetries : Nat) (ctx : ClearingParticipantContext) :
    Label → ClearingParticipantContext → Prop
  | setTransaction {txnId panMasked amount merchantId : Bytes} {tr : List SysEvent} {rc : Int}
      {ctx' : ClearingParticipantContext}
      (h : (clearingParticipantSetTransaction ctx txnId panMasked amount merchantId).Runs tr (rc, ctx')) :
      Step maxRetries ctx (.setTransaction txnId panMasked amount merchantId) ctx'
  | prepare {txnId : Bytes} {tr : List SysEvent} {rc : Int} {ctx' : ClearingParticipantContext}
      (h : (clearingParticipantPrepare maxRetries ctx txnId).Runs tr (rc, ctx')) :
      Step maxRetries ctx (.prepare txnId ctx.details rc) ctx'
  | commit {txnId : Bytes} {tr : List SysEvent} {rc : Int} {ctx' : ClearingParticipantContext}
      (h : (clearingParticipantCommit maxRetries ctx txnId).Runs tr (rc, ctx')) :
      Step maxRetries ctx (.commit txnId ctx.details rc) ctx'
  | abort {txnId : Bytes} {tr : List SysEvent} {rc : Int} {ctx' : ClearingParticipantContext}
      (h : (clearingParticipantAbort ctx txnId).Runs tr (rc, ctx')) :
      Step maxRetries ctx (.abort txnId) ctx'

section Calls

variable {maxRetries : Nat} {ctx ctx' : ClearingParticipantContext} {txnId : Bytes}
  {tr : List SysEvent} {rc : Int}

theorem all_log_pure {α : Type} {Q : α → Prop} {a : α} (level : Level) (txnId : Bytes)
    (status : String) (h : Q a) :
    (do log level txnId status; pure a : SysProg α).All (fun _ => True) Q :=
  ⟨trivial, fun _ => h⟩

theorem prepare_cases (h : (clearingParticipantPrepare maxRetries ctx txnId).Runs tr (rc, ctx')) :
    (rc = 0 ∧ ctx.currentTxnId = txnId ∧ ctx' = { ctx with hasHold := true }) ∨
      (rc = -1 ∧ ctx' = ctx) := by
  have hAll : (clearingParticipantPrepare maxRetries ctx txnId).All (fun _ => True) fun r =>
      (r.1 = 0 ∧ ctx.currentTxnId = txnId ∧ r.2 = { ctx with hasHold := true }) ∨
        (r.1 = -1 ∧ r.2 = ctx) := by
    unfold clearingParticipantPrepare
    split
    · rename_i hId
      rw [Prog.all_bind]
      apply Prog.all_of_forall
      intro answer
      split
      · exact .inr ⟨rfl, rfl⟩
      · split
        · split
          · exact all_log_pure _ _ _ (.inl ⟨rfl, hId, rfl⟩)
          · exact all_log_pure _ _ _ (.inr ⟨rfl, rfl⟩)
        · exact all_log_pure _ _ _ (.inr ⟨rfl, rfl⟩)
    · exact all_log_pure _ _ _ (.inr ⟨rfl, rfl⟩)
  exact hAll.result h

theorem commit_cases (h : (clearingParticipantCommit maxRetries ctx txnId).Runs tr (rc, ctx')) :
    (rc = 0 ∧ ctx.currentTxnId = txnId ∧ ctx.hasHold = true ∧
      ctx' = { ctx with hasHold := false, currentTxnId := [] }) ∨ (rc = -1 ∧ ctx' = ctx) := by
  have hAll : (clearingParticipantCommit maxRetries ctx txnId).All (fun _ => True) fun r =>
      (r.1 = 0 ∧ ctx.currentTxnId = txnId ∧ ctx.hasHold = true ∧
        r.2 = { ctx with hasHold := false, currentTxnId := [] }) ∨ (r.1 = -1 ∧ r.2 = ctx) := by
    unfold clearingParticipantCommit
    split
    · rename_i hReady
      rw [Prog.all_bind]
      apply Prog.all_of_forall
      intro answer
      split
      · exact .inr ⟨rfl, rfl⟩
      · split
        · split
          · exact all_log_pure _ _ _ (.inl ⟨rfl, hReady.1, hReady.2, rfl⟩)
          · exact all_log_pure _ _ _ (.inr ⟨rfl, rfl⟩)
        · exact all_log_pure _ _ _ (.inr ⟨rfl, rfl⟩)
    · exact all_log_pure _ _ _ (.inr ⟨rfl, rfl⟩)
  exact hAll.result h

theorem abort_eq (h : (clearingParticipantAbort ctx txnId).Runs tr (rc, ctx')) :
    ctx' = { ctx with hasHold := false, currentTxnId := [] } := by
  have hSent : ∀ answer : ClearingAnswer, (do
      if answer.result = 0 ∧ answer.statusOk then log .info txnId "Authorization hold released"
      else log .warn txnId "Hold release failed (may timeout naturally)"
      pure (0, { ctx with hasHold := false, currentTxnId := [] }) :
        SysProg (Int × ClearingParticipantContext)).All (fun _ => True) fun r =>
          r.2 = { ctx with hasHold := false, currentTxnId := [] } := by
    intro answer
    split
    · exact all_log_pure _ _ _ rfl
    · exact all_log_pure _ _ _ rfl
  have hAll : (clearingParticipantAbort ctx txnId).All (fun _ => True) fun r =>
      r.2 = { ctx with hasHold := false, currentTxnId := [] } := by
    unfold clearingParticipantAbort
    split
    · exact ⟨trivial, fun _ => ⟨trivial, hSent⟩⟩
    · exact ⟨trivial, hSent⟩
  exact hAll.result h

theorem set_eq {panMasked amount merchantId : Bytes}
    (h : (clearingParticipantSetTransaction ctx txnId panMasked amount merchantId).Runs tr (rc, ctx')) :
    ctx' = { ctx with
      currentTxnId := fit 64 txnId
      panMasked := fit 32 panMasked
      amount := fit 16 amount
      merchantId := fit 32 merchantId } := by
  cases h with
  | call _ h =>
    cases h
    rfl

end Calls

section Holds

variable {maxRetries : Nat} {ctx ctx' : ClearingParticipantContext} {tr : List Label} {l : Label}

def Keeps (txnId : Bytes) : Label → Prop
  | .setTransaction id _ _ _ => id = txnId
  | .prepare _ _ _ => True
  | .commit _ _ rc => rc ≠ 0
  | .abort _ => False

/-- The transaction was prepared with these details, and its hold has been kept since. -/
def Prepared (tr : List Label) (txnId : Bytes) (details : Details) : Prop :=
  ∃ before after, tr = before ++ .prepare txnId details 0 :: after ∧ ∀ l ∈ after, Keeps txnId l

def CommitsPrepared (tr : List Label) : Prop :=
  ∀ before txnId details after, tr = before ++ .commit txnId details 0 :: after →
    Prepared before txnId details

/-- Where a hold is in place, a new transaction may only repeat what the context has. -/
def Steady (ctx : ClearingParticipantContext) : Label → Prop
  | .setTransaction txnId panMasked amount merchantId => ctx.hasHold = true →
    txnId = ctx.currentTxnId ∧ fit 32 panMasked = ctx.panMasked ∧ fit 16 amount = ctx.amount ∧
      fit 32 merchantId = ctx.merchantId
  | _ => True

def SteadyStep (maxRetries : Nat) (ctx : ClearingParticipantContext) (l : Label)
    (ctx' : ClearingParticipantContext) : Prop :=
  Step maxRetries ctx l ctx' ∧ Steady ctx l

theorem Prepared.snoc {txnId : Bytes} {details : Details} (h : Prepared tr txnId details)
    (hKeeps : Keeps txnId l) : Prepared (tr ++ [l]) txnId details := by
  obtain ⟨before, after, rfl, hAfter⟩ := h
  refine ⟨before, after ++ [l], by simp, ?_⟩
  intro l' hl'
  rcases List.mem_append.mp hl' with hl' | hl'
  · exact hAfter l' hl'
  · obtain rfl := List.mem_singleton.mp hl'
    exact hKeeps

/-- A hold belongs to the transaction that the context names. -/
structure Held (tr : List Label) (ctx : ClearingParticipantContext) : Prop where
  stored : ctx.currentTxnId.length ≤ 63
  prepared : ctx.hasHold = true → Prepared tr ctx.currentTxnId ctx.details

theorem Held.empty : Held [] emptyContext := ⟨Nat.zero_le _, fun h => nomatch h⟩

theorem Held.kept (h : Held tr ctx) (hKeeps : Keeps ctx.currentTxnId l) : Held (tr ++ [l]) ctx :=
  ⟨h.stored, fun hHold => (h.prepared hHold).snoc hKeeps⟩

theorem Held.released (hStored : ctx.currentTxnId.length ≤ 63) (hHold : ctx.hasHold = false) :
    Held (tr ++ [l]) ctx where
  stored := hStored
  prepared h := by
    rw [hHold] at h
    cases h

theorem Held.step (h : Held tr ctx) (hStep : SteadyStep maxRetries ctx l ctx') :
    Held (tr ++ [l]) ctx' := by
  obtain ⟨hStep, hSteady⟩ := hStep
  cases hStep with
  | @setTransaction txnId panMasked amount merchantId _ _ _ hRuns =>
    obtain rfl := set_eq hRuns
    constructor
    case stored => exact fit_length_le 64 txnId
    case prepared =>
      intro hHold
      obtain ⟨rfl, hPan, hAmount, hMerchant⟩ := hSteady hHold
      have hPrepared := (h.prepared hHold).snoc
        (l := .setTransaction ctx.currentTxnId panMasked amount merchantId) rfl
      have hSame : fit 64 ctx.currentTxnId = ctx.currentTxnId := fit_eq_self h.stored
      simpa [ClearingParticipantContext.details, hSame, hPan, hAmount, hMerchant] using hPrepared
  | prepare hRuns =>
    rcases prepare_cases hRuns with ⟨rfl, rfl, rfl⟩ | ⟨rfl, rfl⟩
    · exact ⟨h.stored, fun _ => ⟨tr, [], rfl, by simp⟩⟩
    · exact h.kept trivial
  | commit hRuns =>
    rcases commit_cases hRuns with ⟨-, -, -, rfl⟩ | ⟨rfl, rfl⟩
    · exact .released (Nat.zero_le _) rfl
    · exact h.kept (show (-1 : Int) ≠ 0 by decide)
  | abort hRuns =>
    obtain rfl := abort_eq hRuns
    exact .released (Nat.zero_le _) rfl

theorem held_of_run (hRun : Run (SteadyStep maxRetries) emptyContext tr ctx) : Held tr ctx :=
  hRun.invariant .empty fun h hStep => h.step hStep

/-- In every run of a context in which a hold is never given another transaction, a commit that
succeeds commits what was prepared. -/
theorem commits_prepared (hRun : Run (SteadyStep maxRetries) emptyContext tr ctx) :
    CommitsPrepared tr := by
  rintro before txnId details after rfl
  obtain ⟨ctx₁, ctx₂, hBefore, hStep, -⟩ := hRun.at_label
  have hHeld := held_of_run hBefore
  generalize hLabel : Label.commit txnId details 0 = l at hStep
  cases hStep with
  | commit hRuns =>
    obtain ⟨rfl, rfl, rfl⟩ := Label.commit.inj hLabel
    rcases commit_cases hRuns with ⟨-, rfl, hHold, -⟩ | ⟨hFailed, -⟩
    · exact hHeld.prepared hHold
    · exact absurd hFailed (by decide)
  | _ => cases hLabel

theorem sample_run : Run (SteadyStep 0) emptyContext
    [.setTransaction (lit "A") [] [] [], .prepare (lit "A") ⟨[], [], []⟩ 0]
    ⟨lit "A", true, [], [], []⟩ := by
  have hSet : SteadyStep 0 emptyContext (.setTransaction (lit "A") [] [] [])
      ⟨lit "A", false, [], [], []⟩ :=
    ⟨.setTransaction (Prog.runs_runWith Sys.calm _), fun h => nomatch h⟩
  have hPrepare : SteadyStep 0 ⟨lit "A", false, [], [], []⟩
      (.prepare (lit "A") ⟨[], [], []⟩ 0) ⟨lit "A", true, [], [], []⟩ :=
    ⟨.prepare (Prog.runs_runWith Sys.calm _), trivial⟩
  exact .snoc (.snoc .nil hSet) hPrepare

theorem commits_prepared_sample :
    Prepared [.setTransaction (lit "A") [] [] [], .prepare (lit "A") ⟨[], [], []⟩ 0] (lit "A")
      ⟨[], [], []⟩ := by
  have hCommit : SteadyStep 0 ⟨lit "A", true, [], [], []⟩
      (.commit (lit "A") ⟨[], [], []⟩ 0) emptyContext :=
    ⟨.commit (Prog.runs_runWith Sys.calm _), trivial⟩
  exact commits_prepared (.snoc sample_run hCommit) _ _ _ [] rfl

/-- `A` is prepared, then `B` is set and committed. -/
theorem commits_unprepared : ¬∀ (maxRetries : Nat) (tr : List Label)
    (ctx : ClearingParticipantContext), Run (Step maxRetries) emptyContext tr ctx →
      CommitsPrepared tr := by
  intro h
  have hSet : Step 0 ⟨lit "A", true, [], [], []⟩ (.setTransaction (lit "B") [] [] [])
      ⟨lit "B", true, [], [], []⟩ := .setTransaction (Prog.runs_runWith Sys.calm _)
  have hCommit : Step 0 ⟨lit "B", true, [], [], []⟩ (.commit (lit "B") ⟨[], [], []⟩ 0)
      emptyContext := .commit (Prog.runs_runWith Sys.calm _)
  have hRun := (sample_run.mono fun _ _ _ hStep => hStep.1).snoc hSet |>.snoc hCommit
  obtain ⟨before, after, hEq, -⟩ := h 0 _ _ hRun _ (lit "B") ⟨[], [], []⟩ [] rfl
  have hMem : Label.prepare (lit "B") ⟨[], [], []⟩ 0 ∈
      [.setTransaction (lit "A") [] [] [], .prepare (lit "A") ⟨[], [], []⟩ 0,
        Label.setTransaction (lit "B") [] [] []] := by
    have hEq : [Label.setTransaction (lit "A") [] [] [], .prepare (lit "A") ⟨[], [], []⟩ 0,
        .setTransaction (lit "B") [] [] []] = _ := hEq
    rw [hEq]
    simp
  exact absurd hMem (by decide)

end Holds

end MiniVisa.ClearingParticipant
