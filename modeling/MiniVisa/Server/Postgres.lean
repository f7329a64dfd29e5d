import MiniVisa.Library.Pool
import MiniVisa.Library.Sessions
import MiniVisa.Server.Handler.Calls
import MiniVisa.Server.Handler.Work
import Mathlib.Logic.Unique

/-! # The PostgreSQL server behind the pipelines

A primitive operation of a request is a command on the session that its connection handle
stands for. Which session a handle stands for is left open: the participant passes the
wrapper itself, cast to a connection, and the inserts pass the connection inside the wrapper.
-/

namespace MiniVisa.Postgres

set_option autoImplicit false

open Interaction Transition Text Sessions Handler TransactionCoordinator

/-- The command an operation sends, with its answer. An insert that meets a row with its
`request_id` writes nothing; transaction ids name prepared transactions. -/
def command : SysEvent → Option (PgHandle × Command Bytes × Bool)
  | ⟨.pgExec h .begin, ok⟩ => some (h, .begin, ok)
  | ⟨.pgExec h (.prepareTransaction id), ok⟩ => some (h, .prepare id, ok)
  | ⟨.pgExec h (.commitPrepared id), ok⟩ => some (h, .commitPrepared id, ok)
  | ⟨.pgExec h .rollback, ok⟩ => some (h, .rollback, ok)
  | ⟨.pgExec h (.rollbackPrepared id), ok⟩ => some (h, .rollbackPrepared id, ok)
  | ⟨.pgInsert h _ _ _, ok⟩ => some (h, .insert, ok)
  | ⟨.pgInsertReqid h _ _ _ _, .failed⟩ => some (h, .insert, false)
  | ⟨.pgInsertReqid h _ _ _ _, .rows count _⟩ => if count = 1 then some (h, .insert, true) else none
  | _ => none

/-- An insert that wrote a row. -/
def writesRow (x : SysEvent) : Bool :=
  match command x with
  | some (_, .insert, true) => true
  | _ => false

section Observer

variable {T : Type} (act : T → PgHandle → Command Bytes → Bool → Option T)

/-- What an operation does to whoever follows the commands by `act`. -/
def react (t : T) (x : SysEvent) : Option T :=
  match command x with
  | none => some t
  | some (h, cmd, ok) => act t h cmd ok

def observe : Observer Sys.Ans T where
  admits t x := (react act t x).isSome = true
  next t x := (react act t x).getD t

instance (t : T) (x : SysEvent) : Decidable ((observe act).admits t x) :=
  inferInstanceAs (Decidable (_ = true))

/-- Whoever has an answer to every command has one to every operation. -/
theorem admits_some (hAct : ∀ t h cmd, ∃ ok, (act t h cmd ok).isSome = true) (t : T) (op : Sys) :
    ∃ r, (observe act).admits t ⟨op, r⟩ := by
  cases op with
  | pgExec h cmd =>
    cases cmd with
    | begin => exact hAct t h .begin
    | prepareTransaction txnId => exact hAct t h (.prepare txnId)
    | commitPrepared txnId => exact hAct t h (.commitPrepared txnId)
    | rollback => exact hAct t h .rollback
    | rollbackPrepared txnId => exact hAct t h (.rollbackPrepared txnId)
  | pgInsert h masked amount status => exact hAct t h .insert
  | pgInsertReqid h requestId masked amount status =>
    obtain ⟨ok, hOk⟩ := hAct t h .insert
    cases ok with
    | true => exact ⟨.rows 1 [], hOk⟩
    | false => exact ⟨.failed, hOk⟩
  | _ => exact ⟨Sys.calm _, rfl⟩

end Observer

variable {S κ : Type} [DecidableEq S]

/-- `session` says which session a handle stands for, `who` is the request that acts. -/
def issue (session : PgHandle → S) (who : κ) (w : Server S Bytes κ) (h : PgHandle)
    (cmd : Command Bytes) (ok : Bool) : Option (Server S Bytes κ) :=
  w.step (session h) who cmd ok

/-- The participant's connection taken as the one that its wrapper holds. -/
def wrapped : PgHandle → DbHandle
  | .cast dbc => dbc
  | .conn dbc => dbc

/-- Any number of requests at one database server. -/
def setting (session : PgHandle → S) (cfg : Config) :
    Pool.Setting Sys.Ans ((Response × Coordinator) × Memory) (Server S Bytes Nat) Arrival Empty where
  program := serve cfg
  reacts w i event w' := react (issue session i) w event = some w'
  moves _ a _ := a.elim

abbrev Label := Pool.Label Sys.Ans Arrival Empty

abbrev State (S : Type) := Pool.State Sys.Ans ((Response × Coordinator) × Memory) (Server S Bytes Nat)

abbrev PgRun (session : PgHandle → S) (cfg : Config) (tr : List Label) (s : State S) : Prop :=
  Run (Pool.Step (setting session cfg)) ⟨[], .initial⟩ tr s

theorem step_functional {session : PgHandle → S} {cfg : Config} {s s₁ s₂ : State S} {l : Label}
    (h₁ : Pool.Step (setting session cfg) s l s₁) (h₂ : Pool.Step (setting session cfg) s l s₂) :
    s₁ = s₂ := by
  refine Pool.Step.functional ?_ ?_ h₁ h₂
  · intro w i x w₁ w₂ h h'
    exact Option.some.inj (Eq.trans (Eq.symm h) h')
  · intro w a
    exact a.elim

theorem run_functional {session : PgHandle → S} {cfg : Config} {tr : List Label} {s s' : State S}
    (h : PgRun session cfg tr s) (h' : PgRun session cfg tr s') : s = s' := by
  refine Run.functional ?_ h h'
  intro s l s₁ s₂ h₁ h₂
  exact step_functional h₁ h₂

section Commands

variable {T : Type} (act : T → PgHandle → Command Bytes → Bool → Option T) (w : T)

theorem wp_command (op : Sys) (Q : op.Ans → T → Prop) :
    (Prog.call op .ret : SysProg op.Ans).wp (observe act) Q w ↔
      ∀ r w', react act w ⟨op, r⟩ = some w' → Q r w' := by
  simp only [Prog.wp_call, Prog.wp_ret]
  refine forall_congr' fun r => ?_
  constructor
  · intro h w' hReact
    have hNext := h (by simp [observe, hReact])
    simpa [observe, hReact] using hNext
  · intro h hAdmits
    obtain ⟨w', hReact⟩ := Option.isSome_iff_exists.mp hAdmits
    simpa [observe, hReact] using h w' hReact

@[simp] theorem wp_log (level : Level) (txnId : Bytes) (status : String) (Q : Unit → T → Prop) :
    (DbParticipant.log level txnId status).wp (observe act) Q w ↔ Q () w := by
  rw [DbParticipant.log, wp_command]
  simp [react, command, Unique.forall_iff]

variable (ctx : DbParticipant.DBParticipantContext) (txnId : Bytes)
  (Q : Int × DbParticipant.DBParticipantContext → T → Prop)

theorem wp_pgExec (cmd : SqlCommand) (Q : Bool → T → Prop) :
    (DbParticipant.pgExec ctx cmd).wp (observe act) Q w ↔
      ∀ ok w', react act w ⟨.pgExec (.cast ctx.dbc) cmd, ok⟩ = some w' → Q ok w' :=
  wp_command act w (.pgExec (.cast ctx.dbc) cmd) Q

theorem wp_dbParticipantBegin (hFree : ctx.inTransaction = false) :
    (DbParticipant.dbParticipantBegin ctx txnId).wp (observe act) Q w ↔
      ∀ ok w', react act w ⟨.pgExec (.cast ctx.dbc) .begin, ok⟩ = some w' →
        Q (if ok then (0, { ctx with currentTxnId := fit 64 txnId, inTransaction := true })
          else (-1, ctx)) w' := by
  simp only [DbParticipant.dbParticipantBegin, hFree, Bool.false_eq_true, if_false,
    Prog.wp_bind, wp_pgExec]
  refine forall_congr' fun ok => forall₂_congr fun w' _ => ?_
  cases ok <;> simp

theorem wp_dbParticipantPrepare (hIn : ctx.inTransaction = true) (hId : ctx.currentTxnId = txnId) :
    (DbParticipant.dbParticipantPrepare ctx txnId).wp (observe act) Q w ↔
      ∀ ok w', react act w ⟨.pgExec (.cast ctx.dbc) (.prepareTransaction txnId), ok⟩ = some w' →
        Q (if ok then (0, { ctx with inTransaction := false }) else (-1, ctx)) w' := by
  simp only [DbParticipant.dbParticipantPrepare, hIn, hId, and_self, if_true, Prog.wp_bind,
    wp_pgExec]
  refine forall_congr' fun ok => forall₂_congr fun w' _ => ?_
  cases ok <;> simp

theorem wp_dbParticipantCommit :
    (DbParticipant.dbParticipantCommit ctx txnId).wp (observe act) Q w ↔
      ∀ ok w', react act w ⟨.pgExec (.cast ctx.dbc) (.commitPrepared txnId), ok⟩ = some w' →
        Q (if ok then (0, { ctx with currentTxnId := [] }) else (-1, ctx)) w' := by
  simp only [DbParticipant.dbParticipantCommit, Prog.wp_bind, wp_pgExec]
  refine forall_congr' fun ok => forall₂_congr fun w' _ => ?_
  cases ok <;> simp

/-- Which of the two rollbacks is sent depends on the flag alone. -/
theorem wp_dbParticipantAbort (hId : ctx.inTransaction = true → ctx.currentTxnId = txnId) :
    (DbParticipant.dbParticipantAbort ctx txnId).wp (observe act) Q w ↔
      ∀ ok w', react act w ⟨.pgExec (.cast ctx.dbc)
          (if ctx.inTransaction then .rollback else .rollbackPrepared txnId), ok⟩ = some w' →
        Q (0, ⟨ctx.dbc, [], false⟩) w' := by
  have hActive : (ctx.inTransaction = true ∧ ctx.currentTxnId = txnId) ↔
      ctx.inTransaction = true := ⟨And.left, fun h => ⟨h, hId h⟩⟩
  simp only [DbParticipant.dbParticipantAbort, Prog.wp_bind, wp_pgExec, hActive]
  refine forall_congr' fun ok => forall₂_congr fun w' _ => ?_
  cases ok <;> cases ctx.inTransaction <;> simp

/-- An insert either sends one insert command, whose success it reports, or writes nothing. -/
theorem wp_dbInsertOrGetByReqid (dbc : DbHandle) (requestId masked amount status : Bytes)
    (size : Nat) {Q : InsertResult → T → Prop}
    (hInsert : ∀ ok w', act w (.conn dbc) .insert ok = some w' →
      ∀ r : InsertResult, r.rc = (if ok then 0 else -1) → Q r w')
    (hNone : ∀ r, Q r w) :
    (DbParticipant.dbInsertOrGetByReqid dbc requestId masked amount status size).wp
      (observe act) Q w := by
  unfold DbParticipant.dbInsertOrGetByReqid
  split
  · simp only [DbParticipant.dbInsertTransaction, Prog.perform, Prog.wp_bind, Prog.wp_pure]
    refine (wp_command act w (.pgInsert (.conn dbc) masked amount status) _).mpr ?_
    intro ok w' hReact
    apply hInsert ok w' hReact _
    cases ok <;> rfl
  · simp only [Prog.perform, Prog.wp_bind]
    refine (wp_command act w (.pgInsertReqid (.conn dbc) requestId masked amount status) _).mpr ?_
    intro answer w' hReact
    cases answer with
    | failed => exact hInsert false w' hReact _ rfl
    | rows count returned =>
      by_cases hOne : count = 1
      · subst hOne
        exact hInsert true w' hReact _ rfl
      · have hSame : w = w' := by simpa [react, command, hOne] using hReact
        subst hSame
        simp only [if_neg hOne, Prog.wp_bind]
        refine (wp_command act w (.pgSelectStatus (.conn dbc) requestId) _).mpr ?_
        intro existing w' hSelect
        have hSame : w = w' := by simpa [react, command] using hSelect
        subst hSame
        cases existing with
        | none => exact hNone _
        | some st => exact hNone _

end Commands

section OffDb

/-- Operations that send no command to the server. -/
def NotPg : Sys → Prop
  | .pgExec _ _ => False
  | .pgInsert _ _ _ _ => False
  | .pgInsertReqid _ _ _ _ _ => False
  | _ => True

theorem notPg_of_direct {op : Sys} (h : Direct op) : NotPg op := by
  cases op <;> trivial

theorem NotPg.command {op : Sys} (h : NotPg op) (r : op.Ans) : command ⟨op, r⟩ = none := by
  cases op <;> first | rfl | exact h.elim

theorem NotPg.next {T : Type} {op : Sys} (h : NotPg op)
    (act : T → PgHandle → Command Bytes → Bool → Option T) (w : T) (r : op.Ans) :
    (observe act).next w ⟨op, r⟩ = w := by
  simp [observe, react, h.command r]

/-- Calls that neither reach the server nor touch the database context. -/
def OffDb : Call Who → Prop
  | .sys op => NotPg op
  | .callback _ _ who _ => who = .clearing
  | .dbParticipantInit _ => False
  | .dbParticipantDestroy => False
  | .dbParticipantBegin _ => False
  | .dbParticipantInsertTransaction _ _ _ _ => False
  | _ => True

theorem offDb_clerical : Clerical OffDb :=
  ⟨trivial, fun _ => trivial, fun _ => trivial, trivial, trivial⟩

theorem offDb_sys (op : Sys) (h : NotPg op) : (sys op : CallProg Who op.Ans).All OffDb fun _ => True :=
  ⟨h, fun _ => trivial⟩

theorem notPg_clearingWork : ClearingWork NotPg :=
  ⟨trivial, trivial, fun _ => trivial, fun _ => trivial, trivial, fun _ => trivial,
    fun _ => trivial, fun _ _ => trivial⟩

theorem offDb_implement (maxRetries : Nat) (e : Call Who) (mem : Memory) (he : OffDb e) :
    (implement maxRetries e mem).All NotPg fun x => x.2.db = mem.db := by
  have hClearing := fun e => notPg_clearingWork.all_implement maxRetries e mem
  cases e with
  | sys op => exact ⟨he, fun _ => rfl⟩
  | callback phase i who txnId => exact hClearing _ he
  | readTxn => rfl
  | releaseTxn => rfl
  | txnRegisterParticipant who count txnId => exact ⟨trivial, fun _ => rfl⟩
  | dbParticipantInit dbc => exact he.elim
  | clearingParticipantInit => exact hClearing _ trivial
  | dbParticipantDestroy => exact he.elim
  | clearingParticipantDestroy => exact hClearing _ trivial
  | dbParticipantBegin txnId => exact he.elim
  | clearingParticipantSetTransaction txnId masked amount merchantId => exact hClearing _ trivial
  | dbParticipantInsertTransaction => exact he.elim
  | reversalEnqueue q =>
    simp only [implement, Prog.all_bind]
    have hEnqueue := notPg_clearingWork.all_reversalEnqueue (fun _ _ => trivial) trivial q
    exact hEnqueue.mono fun _ _ => rfl

variable {T : Type} {act : T → PgHandle → Command Bytes → Bool → Option T} {w : T} {maxRetries : Nat}

theorem wp_offDb {α : Type} {p : CallProg Who α} {Q : α → Prop} (hp : p.All OffDb Q)
    (mem : Memory) :
    (p.interp (implement maxRetries) mem).wp (observe act)
      (fun x w' => w' = w ∧ Q x.1 ∧ x.2.db = mem.db) w :=
  (hp.interp _ (fun e t he ht => (offDb_implement maxRetries e t he).mono fun _ hx => hx.trans ht)
    (rfl : mem.db = mem.db)).wp _ fun _ hOp r => NotPg.next hOp act _ r

theorem offDb_bind {α β : Type} {p : CallProg Who α} {f : α → CallProg Who β} {Q : α → Prop}
    (hp : p.All OffDb Q) {mem : Memory} {Post : β × Memory → T → Prop}
    (hf : ∀ a mem', Q a → mem'.db = mem.db →
      ((f a).interp (implement maxRetries) mem').wp (observe act) Post w) :
    ((p >>= f).interp (implement maxRetries) mem).wp (observe act) Post w := by
  rw [Prog.wp_interp_bind]
  refine Prog.wp_mono _ ?_ (wp_offDb hp mem)
  rintro ⟨a, mem'⟩ w' ⟨rfl, ha, hMem⟩
  exact hf a mem' ha hMem

end OffDb

section Samples

theorem answered_of_admits {T : Type} {act : T → PgHandle → Command Bytes → Bool → Option T}
    {evs : List SysEvent} {w : T} (h : (observe act).Admits w evs) :
    Pool.Answered (fun w x w' => react act w x = some w') w evs ((observe act).after w evs) := by
  induction evs generalizing w with
  | nil => exact .nil _
  | cons x evs ih =>
    obtain ⟨w', hReact⟩ := Option.isSome_iff_exists.mp h.1
    have hNext : (observe act).next w x = w' := by simp [observe, hReact]
    rw [Observer.after_cons, hNext]
    exact .cons hReact (ih (hNext ▸ h.2))

def oneRequest (cfg : Config) (a : Arrival) (answer : (op : Sys) → op.Ans) : List Label :=
  .started a :: ((serve cfg a).runWith answer).1.map (.acted 0)

theorem oneRequest_events (cfg : Config) (a : Arrival) (answer : (op : Sys) → op.Ans) :
    Pool.events 0 (oneRequest cfg a answer) = ((serve cfg a).runWith answer).1 :=
  Pool.events_acted 0 _

theorem oneRequest_run (session : PgHandle → S) (cfg : Config) (a : Arrival)
    (answer : (op : Sys) → op.Ans)
    (h : (observe (issue session 0)).Admits .initial ((serve cfg a).runWith answer).1) :
    ∃ s, PgRun session cfg (oneRequest cfg a answer) s ∧
      s.world = (observe (issue session 0)).after .initial ((serve cfg a).runWith answer).1 := by
  have hStart : PgRun session cfg [.started a] ⟨[serve cfg a], .initial⟩ :=
    Run.snoc .nil (.start a)
  exact ⟨_, Pool.run_through (fun hp hReact => .act hp hReact) hStart rfl
    (Prog.runs_runWith answer _) (answered_of_admits h), rfl⟩

section Schedules

variable (session : PgHandle → S) (cfg : Config) (guard : Server S Bytes Nat → Label → Prop)
  [∀ w l, Decidable (guard w l)] (answer : (op : Sys) → op.Ans)

/-- Let the requests perform their next operations in the order of `turns`. -/
def schedule : List Nat → State S → Option (List Label × State S)
  | [], s => some ([], s)
  | i :: turns, s =>
    match s.procs[i]? with
    | some (.call e k) =>
      if guard s.world (.acted i ⟨e, answer e⟩) then do
        let w ← react (issue session i) s.world ⟨e, answer e⟩
        let rest ← schedule turns ⟨s.procs.set i (k (answer e)), w⟩
        pure (.acted i ⟨e, answer e⟩ :: rest.1, rest.2)
      else none
    | _ => none

theorem schedule_run {turns : List Nat} {tr rest : List Label} {s s' : State S}
    (hRun : Run (Pool.GuardedStep (setting session cfg) guard) ⟨[], .initial⟩ tr s)
    (h : schedule session guard answer turns s = some (rest, s')) :
    Run (Pool.GuardedStep (setting session cfg) guard) ⟨[], .initial⟩ (tr ++ rest) s' ∧
      ∀ i, i ∉ turns → Pool.events i rest = [] := by
  induction turns generalizing tr rest s with
  | nil =>
    cases h
    exact ⟨by simpa using hRun, fun _ _ => rfl⟩
  | cons i turns ih =>
    unfold schedule at h
    split at h
    · rename_i e k hProc
      split at h
      · rename_i hGuard
        obtain ⟨w, hReact, h⟩ := Option.bind_eq_some_iff.mp h
        obtain ⟨⟨rest', s₁⟩, hRest, h⟩ := Option.bind_eq_some_iff.mp h
        cases h
        obtain ⟨hRun', hNone⟩ := ih (hRun.snoc ⟨.act hProc hReact, hGuard⟩) hRest
        refine ⟨by simpa using hRun', fun j hj => ?_⟩
        simp only [List.mem_cons, not_or] at hj
        obtain ⟨hji, hj⟩ := hj
        have hLater := hNone j hj
        simpa [Pool.events, Pool.eventOf, Ne.symm hji] using hLater
      · cases h
    · cases h

end Schedules

def sampleConfig : Config := ⟨fun _ => .finite 1, 0⟩

def sampleArrival (requestId : String) : Arrival :=
  { route := .line
    text := lit "\x7b\"pan\":\"0\",\"amount\":1,\"request_id\":\"" ++ lit requestId ++ lit "\"\x7d"
    coordinator := txnCoordinatorInit none none true }

/-- The database prepares, clearing declines. -/
def clearingDeclines : (op : Sys) → op.Ans
  | .clearing _ => ⟨0, false⟩
  | op => op.calm

end Samples

end MiniVisa.Postgres
