import MiniVisa.Server.Postgres

/-! # No prepared transaction is left behind

Between its BEGIN and the end of `txn_commit` a payment is in one of four phases at the
database: its block is open, the server has cancelled the block, the transaction is prepared,
or nothing is left of it. The local flag of the context tells the first two from the others, and
each callback moves from phase to phase with the one command that fits.
-/

namespace MiniVisa.PreparedTransactions

set_option autoImplicit false

open Interaction Text Sessions Handler TransactionCoordinator Postgres

variable {κ : Type}

inductive DbPhase
  | open_ | cancelled | prepared | gone
  deriving DecidableEq, Repr

/-- The context's flag and the server's state in each phase. -/
def InPhase (X : TxnId) (dbc : DbHandle) :
    DbPhase → Memory → Server DbHandle Bytes κ → Prop
  | .open_, mem, w =>
    mem.db = some ⟨dbc, X.val, true⟩ ∧ (∃ opener rows, w.block dbc = .active opener rows) ∧
      X.val ∉ w.names
  | .cancelled, mem, w =>
    mem.db = some ⟨dbc, X.val, true⟩ ∧ w.block dbc = .idle ∧ X.val ∉ w.names
  | .prepared, mem, w =>
    (∃ current, mem.db = some ⟨dbc, current, false⟩) ∧ w.block dbc = .idle ∧ X.val ∈ w.names
  | .gone, mem, w =>
    (∃ current, mem.db = some ⟨dbc, current, false⟩) ∧ w.block dbc = .idle ∧ X.val ∉ w.names

theorem InPhase.of_db_eq {X : TxnId} {dbc : DbHandle} {phase : DbPhase} {mem mem' : Memory}
    {w : Server DbHandle Bytes κ} (h : InPhase X dbc phase mem w) (hDb : mem'.db = mem.db) :
    InPhase X dbc phase mem' w := by
  cases phase <;> simpa only [InPhase, hDb] using h

/-- A payment from BEGIN over the insert to the end of `txn_commit`; `none` where one of the
first two fails. -/
def beginInsertCommit (c : Coordinator) (txn : Transaction Who) (requestId masked amount : Bytes) :
    CallProg Who (Option (Int × Coordinator)) := do
  let begun ← dbParticipantBegin txn.transactionId
  if begun ≠ 0 then pure none
  else
    let inserted ← dbParticipantInsertTransaction requestId masked amount
    if inserted.rc ≠ 0 then pure none
    else
      let r ← txnCommit c txn
      pure (some r)

section Callbacks

variable {X : TxnId} {dbc : DbHandle} {who : κ} {mem : Memory} {w : Server DbHandle Bytes κ}
  {maxRetries : Nat}

theorem wp_prepare_database (h : InPhase X dbc .open_ mem w) (i : Nat) :
    (implement maxRetries (.callback .prepare i .database X.val) mem).wp (observe (issue wrapped who))
      (fun x w' => (x.1 = 0 ∧ InPhase X dbc .prepared x.2 w') ∨
        (x.1 = -1 ∧ InPhase X dbc .cancelled x.2 w')) w := by
  obtain ⟨hMem, ⟨opener, rows, hBlock⟩, hName⟩ := h
  simp only [implement, callbackBody, onDb, hMem, Prog.wp_bind]
  rw [wp_dbParticipantPrepare _ _ _ _ _ rfl rfl]
  intro ok w' hReact
  cases ok with
  | true =>
    simp only [react, command, issue, wrapped, Server.step, hBlock, if_neg hName, Option.some.injEq]
      at hReact
    subst hReact
    exact .inl ⟨rfl, ⟨_, rfl⟩, by simp, by simp⟩
  | false =>
    simp only [react, command, issue, wrapped, Server.step, Option.some.injEq] at hReact
    subst hReact
    exact .inr ⟨rfl, rfl, by simp, by simpa using hName⟩

theorem wp_commit_database (h : InPhase X dbc .prepared mem w) (i : Nat) :
    (implement maxRetries (.callback .commit i .database X.val) mem).wp (observe (issue wrapped who))
      (fun x w' => (x.1 = 0 ∧ InPhase X dbc .gone x.2 w') ∨
        (x.1 = -1 ∧ InPhase X dbc .prepared x.2 w')) w := by
  obtain ⟨⟨current, hMem⟩, hBlock, hName⟩ := h
  simp only [implement, callbackBody, onDb, hMem, Prog.wp_bind]
  rw [wp_dbParticipantCommit]
  intro ok w' hReact
  cases ok with
  | true =>
    simp only [react, command, issue, wrapped, Server.step, Server.outside, hBlock, if_true, if_pos hName,
      Option.some.injEq] at hReact
    subst hReact
    exact .inl ⟨rfl, ⟨_, rfl⟩, by simpa using hBlock, by simp⟩
  | false =>
    simp only [react, command, issue, wrapped, Server.step, Server.outside, hBlock, Bool.false_eq_true,
      if_false, Option.some.injEq] at hReact
    subst hReact
    exact .inr ⟨rfl, ⟨_, rfl⟩, hBlock, hName⟩

theorem rollback_idle {w' : Server DbHandle Bytes κ} {ok : Bool}
    (hReact : react (issue wrapped who) w ⟨.pgExec (.cast dbc) .rollback, ok⟩ = some w') :
    w'.block dbc = .idle ∧ w'.names = w.names := by
  have hStep : w.step dbc who .rollback ok = some w' := hReact
  obtain ⟨hIdle, hPrepared⟩ := Server.step_rollback hStep
  exact ⟨hIdle, by rw [Server.names, Server.names, hPrepared]⟩

theorem rollbackPrepared_gone {w' : Server DbHandle Bytes κ} {ok : Bool} (hBlock : w.block dbc = .idle)
    (hReact : react (issue wrapped who) w ⟨.pgExec (.cast dbc) (.rollbackPrepared X.val), ok⟩ = some w') :
    w'.block dbc = .idle ∧ X.val ∉ w'.names := by
  simp only [react, command, issue, wrapped, Server.step, Server.outside, hBlock] at hReact
  split at hReact
  · cases hReact
    exact ⟨hBlock, by simp⟩
  · cases hReact

/-- In every phase the command that abort sends is the one that fits. -/
theorem wp_abort_database {phase : DbPhase} (h : InPhase X dbc phase mem w) (i : Nat) :
    (implement maxRetries (.callback .abort i .database X.val) mem).wp (observe (issue wrapped who))
      (fun x w' => InPhase X dbc .gone x.2 w') w := by
  have hIn : ∀ {w : Server DbHandle Bytes κ}, mem.db = some ⟨dbc, X.val, true⟩ → X.val ∉ w.names →
      (implement maxRetries (.callback .abort i .database X.val) mem).wp (observe (issue wrapped who))
        (fun x w' => InPhase X dbc .gone x.2 w') w := by
    intro w hMem hName
    simp only [implement, callbackBody, onDb, hMem, Prog.wp_bind]
    rw [wp_dbParticipantAbort _ _ _ _ _ fun _ => rfl]
    intro ok w' hReact
    obtain ⟨hIdle, hNames⟩ := rollback_idle hReact
    exact ⟨⟨_, rfl⟩, hIdle, hNames ▸ hName⟩
  have hOut : ∀ {w : Server DbHandle Bytes κ} {current : Bytes},
      mem.db = some ⟨dbc, current, false⟩ → w.block dbc = .idle →
      (implement maxRetries (.callback .abort i .database X.val) mem).wp (observe (issue wrapped who))
        (fun x w' => InPhase X dbc .gone x.2 w') w := by
    intro w current hMem hBlock
    simp only [implement, callbackBody, onDb, hMem, Prog.wp_bind]
    rw [wp_dbParticipantAbort _ _ _ _ _ fun h => by cases h]
    intro ok w' hReact
    exact ⟨⟨_, rfl⟩, rollbackPrepared_gone hBlock hReact⟩
  cases phase with
  | open_ => exact hIn h.1 h.2.2
  | cancelled => exact hIn h.1 h.2.2
  | prepared =>
    obtain ⟨⟨current, hMem⟩, hBlock, -⟩ := h
    exact hOut hMem hBlock
  | gone =>
    obtain ⟨⟨current, hMem⟩, hBlock, -⟩ := h
    exact hOut hMem hBlock

theorem wp_begin_database {current : Bytes} (hMem : mem.db = some ⟨dbc, current, false⟩)
    (hBlock : w.block dbc = .idle) (hName : X.val ∉ w.names) :
    (implement maxRetries (.dbParticipantBegin X.val) mem).wp (observe (issue wrapped who))
      (fun x w' => x.1 = 0 → InPhase X dbc .open_ x.2 w') w := by
  simp only [implement, onDb, hMem, Prog.wp_bind]
  rw [wp_dbParticipantBegin _ _ _ _ _ rfl]
  intro ok w' hReact
  cases ok with
  | false =>
    intro h
    cases h
  | true =>
    simp only [react, command, issue, wrapped, Server.step, hBlock, Option.some.injEq] at hReact
    subst hReact
    have hFit : fit 64 X.val = X.val := fit_eq_self (by have := X.length_lt; omega)
    exact fun _ => ⟨by simp [hFit], ⟨who, [], by simp⟩, by simpa using hName⟩

theorem wp_insert_database (h : InPhase X dbc .open_ mem w) (requestId masked amount status : Bytes) :
    (implement maxRetries (.dbParticipantInsertTransaction requestId masked amount status) mem).wp
      (observe (issue wrapped who)) (fun x w' => x.1.rc = 0 → InPhase X dbc .open_ x.2 w') w := by
  obtain ⟨hMem, ⟨opener, rows, hBlock⟩, hName⟩ := h
  simp only [implement, hMem, DbParticipant.dbParticipantInsertTransaction, if_true, Prog.wp_bind,
    Prog.wp_pure]
  refine wp_dbInsertOrGetByReqid _ _ _ _ _ _ _ _ ?_ ?_
  · intro ok w' hStep r hr hZero
    cases ok with
    | false =>
      rw [hr] at hZero
      cases hZero
    | true =>
      simp only [issue, Server.step, wrapped, hBlock, Option.some.injEq] at hStep
      subst hStep
      exact ⟨hMem, ⟨opener, rows ++ [who], by simp⟩, by simpa using hName⟩
  · exact fun r _ => ⟨hMem, ⟨opener, rows, hBlock⟩, hName⟩

end Callbacks

section OtherParticipants

/-- The participants after the database are none of the server's business. -/
def Outside (ps : List (Participant Who)) : Prop := ∀ p ∈ ps, p.context = .clearing

theorem Outside.of_map {ps qs : List (Participant Who)} (h : Outside ps)
    (hMap : qs.map (·.context) = ps.map (·.context)) : Outside qs := by
  intro q hq
  have hMem := List.mem_map_of_mem (f := fun p : Participant Who => p.context) hq
  rw [hMap] at hMem
  obtain ⟨p, hp, hEq⟩ := List.mem_map.mp hMem
  exact hEq ▸ h p hp

theorem offDb_readTxn : (readTxn : CallProg Who Unit).All OffDb fun _ => True :=
  offDb_clerical.all_readTxn trivial

theorem offDb_logTxn (level : Level) (txnId : TxnId) (status : String) :
    (logTxn level txnId status : CallProg Who Unit).All OffDb fun _ => True :=
  offDb_clerical.all_logTxn _ _ _ trivial

theorem offDb_logTransactionState (c : Coordinator) (txn : Transaction Who) (action : LogAction) :
    (logTransactionState c txn action).All OffDb fun _ => True :=
  offDb_clerical.all_logTransactionState _ _ _ trivial

theorem offDb_prepareLoop (X : TxnId) (i : Nat) {ps : List (Participant Who)} (h : Outside ps) :
    (prepareLoop X i ps).All OffDb fun r => Outside r.2 :=
  (offDb_clerical.all_prepareLoop (fun _ _ hWho => hWho) i h).mono fun _ hr => h.of_map hr.1

theorem offDb_commitLoop (X : TxnId) (i : Nat) {ps : List (Participant Who)} (h : Outside ps) :
    (commitLoop X i ps).All OffDb fun r => Outside r.2 :=
  (offDb_clerical.all_commitLoop (fun _ _ hWho => hWho) i h).mono fun _ hr => h.of_map hr

theorem offDb_abortLoop (X : TxnId) (i : Nat) {ps : List (Participant Who)} (h : Outside ps) :
    (abortLoop X i ps).All OffDb fun _ => True :=
  offDb_clerical.all_abortLoop (fun _ _ hWho => hWho) i h

end OtherParticipants

section Coordinator

variable {X : TxnId} {dbc : DbHandle} {who : κ} {mem : Memory} {w : Server DbHandle Bytes κ}
  {maxRetries : Nat}

/-- What is known of the database between the loops of the coordinator: the abort loop will
call it, unless it has committed and nothing is left. -/
def Pending (X : TxnId) (dbc : DbHandle) (ps : List (Participant Who)) (mem : Memory)
    (w : Server DbHandle Bytes κ) : Prop :=
  ∃ p qs, ps = p :: qs ∧ p.context = .database ∧ Outside qs ∧
    (((p.state = .prepared ∨ p.state = .failed) ∧ ∃ phase, InPhase X dbc phase mem w) ∨
      (p.state = .committed ∧ InPhase X dbc .gone mem w))

theorem wp_prepareLoop_db {p : Participant Who} {qs : List (Participant Who)}
    (hp : p.context = .database) (hqs : Outside qs) (h : InPhase X dbc .open_ mem w) :
    ((prepareLoop X 0 (p :: qs)).interp (implement maxRetries) mem).wp (observe (issue wrapped who))
      (fun x w' => Pending X dbc x.1.2 x.2 w' ∧ (x.1.1 = true → ∃ p' qs', x.1.2 = p' :: qs' ∧
        p'.context = .database ∧ p'.state = .prepared ∧ Outside qs' ∧
        InPhase X dbc .prepared x.2 w')) w := by
  rw [prepareLoop]
  refine offDb_bind offDb_readTxn fun _ mem₁ _ hMem₁ => ?_
  refine offDb_bind (offDb_logTxn _ _ _) fun _ mem₂ _ hMem₂ => ?_
  rw [hp, callback, Prog.wp_interp_call_bind]
  refine Prog.wp_mono _ ?_ (wp_prepare_database (h.of_db_eq (hMem₂.trans hMem₁)) 0)
  rintro ⟨r, mem₃⟩ w₁ (⟨hr, hPrepared⟩ | ⟨hr, hCancelled⟩)
  · obtain rfl : r = 0 := hr
    simp only [if_true]
    refine offDb_bind (offDb_logTxn _ _ _) fun _ mem₄ _ hMem₄ => ?_
    refine offDb_bind (offDb_prepareLoop X 1 hqs) fun rest mem₅ hRest hMem₅ => ?_
    have hPhase := hPrepared.of_db_eq (hMem₅.trans hMem₄)
    exact ⟨⟨_, _, rfl, rfl, hRest, .inl ⟨.inl rfl, _, hPhase⟩⟩,
      fun _ => ⟨_, _, rfl, rfl, rfl, hRest, hPhase⟩⟩
  · obtain rfl : r = -1 := hr
    simp only [Int.reduceNeg, Int.reduceEq, if_false]
    refine offDb_bind (offDb_logTxn _ _ _) fun _ mem₄ _ hMem₄ => ?_
    refine ⟨⟨_, _, rfl, rfl, hqs, .inl ⟨.inr rfl, _, hCancelled.of_db_eq hMem₄⟩⟩, ?_⟩
    intro hTrue
    cases hTrue

theorem wp_commitLoop_db {p : Participant Who} {qs : List (Participant Who)}
    (hp : p.context = .database) (hState : p.state = .prepared) (hqs : Outside qs)
    (h : InPhase X dbc .prepared mem w) :
    ((commitLoop X 0 (p :: qs)).interp (implement maxRetries) mem).wp (observe (issue wrapped who))
      (fun x w' => Pending X dbc x.1.2 x.2 w' ∧
        (x.1.1 = true → InPhase X dbc .gone x.2 w')) w := by
  rw [commitLoop]
  refine offDb_bind offDb_readTxn fun _ mem₁ _ hMem₁ => ?_
  rw [if_pos hState, hp, callback, Prog.wp_interp_call_bind]
  refine Prog.wp_mono _ ?_ (wp_commit_database (h.of_db_eq hMem₁) 0)
  rintro ⟨r, mem₂⟩ w₁ (⟨hr, hGone⟩ | ⟨hr, hPrepared⟩)
  · obtain rfl : r = 0 := hr
    simp only [if_true]
    refine offDb_bind (offDb_logTxn _ _ _) fun _ mem₃ _ hMem₃ => ?_
    refine offDb_bind (offDb_commitLoop X 1 hqs) fun rest mem₄ hRest hMem₄ => ?_
    have hPhase := hGone.of_db_eq (hMem₄.trans hMem₃)
    exact ⟨⟨_, _, rfl, rfl, hRest, .inr ⟨rfl, hPhase⟩⟩, fun _ => hPhase⟩
  · obtain rfl : r = -1 := hr
    simp only [Int.reduceNeg, Int.reduceEq, if_false]
    refine offDb_bind (offDb_logTxn _ _ _) fun _ mem₃ _ hMem₃ => ?_
    refine offDb_bind (offDb_commitLoop X 1 hqs) fun rest mem₄ hRest hMem₄ => ?_
    have hPhase := hPrepared.of_db_eq (hMem₄.trans hMem₃)
    refine ⟨⟨_, _, rfl, rfl, hRest, .inl ⟨.inr rfl, _, hPhase⟩⟩, ?_⟩
    intro hTrue
    cases hTrue

theorem wp_abortLoop_db {ps : List (Participant Who)} (h : Pending X dbc ps mem w) :
    ((abortLoop X 0 ps).interp (implement maxRetries) mem).wp (observe (issue wrapped who))
      (fun x w' => InPhase X dbc .gone x.2 w') w := by
  obtain ⟨p, qs, rfl, hp, hqs, ⟨hState, phase, hPhase⟩ | ⟨hState, hGone⟩⟩ := h
  · rw [abortLoop]
    refine offDb_bind offDb_readTxn fun _ mem₁ _ hMem₁ => ?_
    rw [if_pos hState, hp, callback, Prog.wp_interp_call_bind]
    refine Prog.wp_mono _ ?_ (wp_abort_database (hPhase.of_db_eq hMem₁) 0)
    rintro ⟨r, mem₂⟩ w₁ hGone
    refine offDb_bind (offDb_logTxn _ _ _) fun _ mem₃ _ hMem₃ => ?_
    refine offDb_bind (offDb_abortLoop X 1 hqs) fun rest mem₄ _ hMem₄ => ?_
    exact hGone.of_db_eq (hMem₄.trans hMem₃)
  · rw [abortLoop]
    refine offDb_bind offDb_readTxn fun _ mem₁ _ hMem₁ => ?_
    rw [if_neg (by simp [hState])]
    refine offDb_bind (offDb_abortLoop X 1 hqs) fun rest mem₂ _ hMem₂ => ?_
    exact hGone.of_db_eq (hMem₂.trans hMem₁)

theorem wp_abortPath_db (c : Coordinator) {txn : Transaction Who} (hId : txn.transactionId = X)
    (h : Pending X dbc txn.participants mem w) :
    ((abortPath c txn).interp (implement maxRetries) mem).wp (observe (issue wrapped who))
      (fun x w' => InPhase X dbc .gone x.2 w') w := by
  subst hId
  have hPending : ∀ {mem' : Memory}, mem'.db = mem.db →
      Pending txn.transactionId dbc txn.participants mem' w := by
    rintro mem' hMem
    obtain ⟨p, qs, hps, hp, hqs, ⟨hState, phase, hPhase⟩ | ⟨hState, hGone⟩⟩ := h
    · exact ⟨p, qs, hps, hp, hqs, .inl ⟨hState, phase, hPhase.of_db_eq hMem⟩⟩
    · exact ⟨p, qs, hps, hp, hqs, .inr ⟨hState, hGone.of_db_eq hMem⟩⟩
  rw [abortPath]
  refine offDb_bind (offDb_logTransactionState _ _ _) fun _ mem₁ _ hMem₁ => ?_
  refine offDb_bind (offDb_logTxn _ _ _) fun _ mem₂ _ hMem₂ => ?_
  rw [Prog.wp_interp_bind]
  refine Prog.wp_mono _ ?_ (wp_abortLoop_db (hPending (hMem₂.trans hMem₁)))
  rintro ⟨ps, mem₃⟩ w₁ hGone
  -- what is left is logging and the coordinator's own table
  refine Prog.wp_mono _ ?_ (wp_offDb (Q := fun _ => True) ?_ mem₃)
  · rintro x w' ⟨rfl, -, hMem⟩
    exact hGone.of_db_eq hMem
  · simp only [Prog.all_bind]
    refine (offDb_logTransactionState _ _ _).mono fun _ _ => ?_
    refine (offDb_clerical.all_removeTransaction _ _).mono fun _ _ => ?_
    simp only [metricsInc, Prog.all_call, Prog.all_ret]
    exact ⟨trivial, fun _ => (offDb_logTxn _ _ _).mono fun _ _ => trivial⟩

theorem wp_txnCommit_db (c : Coordinator) {txn : Transaction Who} {p : Participant Who}
    {qs : List (Participant Who)} (hps : txn.participants = p :: qs) (hp : p.context = .database)
    (hqs : Outside qs) (h : InPhase txn.transactionId dbc .open_ mem w) :
    ((txnCommit c txn).interp (implement maxRetries) mem).wp (observe (issue wrapped who))
      (fun x w' => InPhase txn.transactionId dbc .gone x.2 w') w := by
  rw [txnCommit]
  refine offDb_bind (offDb_logTransactionState _ _ _) fun _ mem₁ _ hMem₁ => ?_
  refine offDb_bind (offDb_logTxn _ _ _) fun _ mem₂ _ hMem₂ => ?_
  rw [Prog.wp_interp_bind]
  simp only [hps]
  refine Prog.wp_mono _ ?_ (wp_prepareLoop_db hp hqs (h.of_db_eq (hMem₂.trans hMem₁)))
  rintro ⟨⟨ok, ps⟩, mem₃⟩ w₁ ⟨hPending, hAll⟩
  cases ok with
  | false =>
    simp only [Bool.false_eq_true, if_false]
    exact wp_abortPath_db c rfl hPending
  | true =>
    obtain ⟨p', qs', hps', hp', hState, hqs', hPrepared⟩ := hAll rfl
    simp only [if_true]
    refine offDb_bind (offDb_logTransactionState _ _ _) fun _ mem₄ _ hMem₄ => ?_
    refine offDb_bind (offDb_logTransactionState _ _ _) fun _ mem₅ _ hMem₅ => ?_
    refine offDb_bind (offDb_logTxn _ _ _) fun _ mem₆ _ hMem₆ => ?_
    rw [Prog.wp_interp_bind]
    obtain rfl : ps = p' :: qs' := hps'
    refine Prog.wp_mono _ ?_ (wp_commitLoop_db hp' hState hqs'
      (hPrepared.of_db_eq (hMem₆.trans (hMem₅.trans hMem₄))))
    rintro ⟨⟨ok, ps⟩, mem₇⟩ w₂ ⟨hPending, hGone⟩
    cases ok with
    | false =>
      simp only [Bool.false_eq_true, if_false]
      exact wp_abortPath_db c rfl hPending
    | true =>
      simp only [if_true]
      refine Prog.wp_mono _ ?_ (wp_offDb (Q := fun _ => True) ?_ mem₇)
      · rintro x w' ⟨rfl, -, hMem⟩
        exact (hGone rfl).of_db_eq hMem
      · simp only [Prog.all_bind]
        refine (offDb_logTransactionState _ _ _).mono fun _ _ => (offDb_logTxn _ _ _).mono
          fun _ _ => (offDb_clerical.all_removeTransaction _ _).mono fun _ _ => ?_
        simp [metricsInc, OffDb, NotPg]

end Coordinator

section Runs

variable {maxRetries : Nat} {who : κ}

/-- The server along a run of a request: every answer is one it can give. -/
def Serves (who : κ) (w : Server DbHandle Bytes κ) (tr : List SysEvent)
    (w' : Server DbHandle Bytes κ) : Prop :=
  (observe (issue wrapped who)).Admits w tr ∧ (observe (issue wrapped who)).after w tr = w'

/-- However the two phases end, the session is outside a block and nothing is prepared under
the transaction's id. -/
theorem txnCommit_leaves_nothing (c : Coordinator) (txn : Transaction Who) (dbc : DbHandle)
    (current : Bytes) (mem : Memory) (w w' : Server DbHandle Bytes κ)
    (requestId masked amount : Bytes) (tr : List SysEvent) (r : Int × Coordinator) (mem' : Memory)
    (hWho : txn.participants.map (·.context) = [.database, .clearing])
    (hMem : mem.db = some ⟨dbc, current, false⟩)
    (hIdle : w.block dbc = .idle) (hUnused : txn.transactionId.val ∉ w.names)
    (hRun : ((beginInsertCommit c txn requestId masked amount).interp (implement maxRetries) mem).Runs
      tr (some r, mem'))
    (hServes : Serves who w tr w') :
    w'.block dbc = .idle ∧ txn.transactionId.val ∉ w'.names := by
  obtain ⟨p, qs, hps, hp, hqs⟩ := List.map_eq_cons_iff.mp hWho
  have hOutside : Outside qs := by
    intro q hq
    have hMem := List.mem_map_of_mem (f := fun p : Participant Who => p.context) hq
    rw [hqs] at hMem
    exact List.mem_singleton.mp hMem
  have hWp : ((beginInsertCommit c txn requestId masked amount).interp (implement maxRetries) mem).wp
      (observe (issue wrapped who))
      (fun x w' => x.1.isSome = true → InPhase txn.transactionId dbc .gone x.2 w') w := by
    rw [beginInsertCommit, dbParticipantBegin, Prog.wp_interp_call_bind]
    refine Prog.wp_mono _ ?_ (wp_begin_database hMem hIdle hUnused)
    rintro ⟨begun, mem₁⟩ w₁ hOpen
    split
    · intro h
      cases h
    · rename_i hBegun
      have hPhase := hOpen (by simpa using hBegun)
      rw [dbParticipantInsertTransaction, Prog.wp_interp_call_bind]
      refine Prog.wp_mono _ ?_ (wp_insert_database hPhase _ _ _ _)
      rintro ⟨inserted, mem₂⟩ w₂ hInserted
      split
      · intro h
        cases h
      · rename_i hRc
        rw [Prog.wp_interp_bind]
        refine Prog.wp_mono _ ?_ (wp_txnCommit_db c hps hp hOutside (hInserted (by simpa using hRc)))
        exact fun x w₃ hGone _ => hGone
  obtain ⟨hAdmits, rfl⟩ := hServes
  exact (hWp.runs hRun hAdmits rfl).2

end Runs

section Samples

def sampleId : TxnId := .copy Field.pos64 (lit "t1")

def sampleTransaction : Transaction Who :=
  { transactionId := sampleId
    state := .init
    participants := [⟨lit "database", .init, .database⟩, ⟨lit "clearing", .init, .clearing⟩]
    startTime := 0
    prepareTimeout := 30
    commitTimeout := 30 }

def sampleContexts : Memory := ⟨some ⟨⟨0⟩, [], false⟩, some ClearingParticipant.emptyContext⟩

def sampleServer : Server DbHandle Bytes Unit := ⟨fun _ => .idle, [], []⟩

def sampleRun : List SysEvent × Option (Int × Coordinator) × Memory :=
  ((beginInsertCommit (txnCoordinatorInit none none true) sampleTransaction (lit "r") (lit "p")
    (lit "5")).interp (implement 0) sampleContexts).runWith clearingDeclines

def sampleAfter : Server DbHandle Bytes Unit :=
  (observe (issue wrapped ())).after sampleServer sampleRun.1

/-- The prepared row is rolled back once clearing has declined. -/
theorem sample_leaves_nothing :
    .pgExec (.cast ⟨0⟩) (.rollbackPrepared sampleId.val) ∈ sampleRun.1.map (·.1) ∧
      sampleAfter.block ⟨0⟩ = .idle ∧ sampleId.val ∉ sampleAfter.names := by
  refine ⟨by decide, ?_⟩
  have hRun := Prog.runs_runWith clearingDeclines ((beginInsertCommit
    (txnCoordinatorInit none none true) sampleTransaction (lit "r") (lit "p") (lit "5")).interp
    (implement 0) sampleContexts)
  have hServes : Serves () sampleServer sampleRun.1 sampleAfter := ⟨by decide, rfl⟩
  exact txnCommit_leaves_nothing (txnCoordinatorInit none none true) sampleTransaction ⟨0⟩ []
    sampleContexts sampleServer sampleAfter (lit "r") (lit "p") (lit "5") sampleRun.1 _ _ rfl rfl rfl
    (by decide) hRun hServes

end Samples

end MiniVisa.PreparedTransactions
