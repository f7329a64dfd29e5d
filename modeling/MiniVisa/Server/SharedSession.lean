import MiniVisa.Library.Isolation
import MiniVisa.Server.Postgres

/-! # Workers that share a database session

Where `db_thread_get` finds no connection for a worker it hands out the bootstrap connection,
and two workers may then send their commands on one session. The mutex of the connection
orders single commands; it does not keep one transaction out of the block of another.
-/

namespace MiniVisa.SharedSession

set_option autoImplicit false

open Interaction Transition Text Sessions Handler TransactionCoordinator Postgres

section Ledger

/-- The server as one request alone would see it, with the rows the request has written; `wrong`
once a prepared transaction did not hold just these. -/
structure Ledger where
  server : Server DbHandle Bytes Nat
  written : Nat
  wrong : Bool

def Ledger.start : Ledger := ⟨.initial, 0, false⟩

def rowsWritten : Command Bytes → Bool → Nat
  | .insert, true => 1
  | _, _ => 0

def Ledger.act (i : Nat) (l : Ledger) (h : PgHandle) (cmd : Command Bytes) (ok : Bool) :
    Option Ledger :=
  (issue wrapped i l.server h cmd ok).map fun w =>
    let written := l.written + rowsWritten cmd ok
    ⟨w, written, l.wrong || w.prepared.any fun e => e.2.length != written⟩

variable {i : Nat} {l l' : Ledger} {handle : PgHandle} {cmd : Command Bytes} {ok : Bool}

theorem Ledger.act_eq (hAct : l.act i handle cmd ok = some l') :
    l.server.step (wrapped handle) i cmd ok = some l'.server ∧
      l'.written = l.written + rowsWritten cmd ok ∧
      (l.wrong = false → (∀ e ∈ l'.server.prepared, e.2.length = l'.written) → l'.wrong = false) := by
  obtain ⟨w, hStep, rfl⟩ := Option.map_eq_some_iff.mp hAct
  refine ⟨hStep, rfl, fun hRight hAll => ?_⟩
  simp only [hRight, Bool.false_or, List.any_eq_false]
  intro e he
  simpa using hAll e he

/-- The participant's memory and the ledger: while the participant takes itself to be in a
transaction, nothing is prepared and its block holds all that was written. -/
structure Sound (mem : Memory) (l : Ledger) : Prop where
  right : l.wrong = false
  prepared : ∀ e ∈ l.server.prepared, e.2.length = l.written
  unprepared : ∀ ctx, mem.db = some ctx → ctx.inTransaction = true → l.server.prepared = []
  block : ∀ ctx, mem.db = some ctx → ctx.inTransaction = true →
    ∀ opener rows, l.server.block ctx.dbc = .active opener rows → rows.length = l.written

theorem Sound.of_db_eq {mem mem' : Memory} (hSound : Sound mem l) (hDb : mem'.db = mem.db) :
    Sound mem' l :=
  ⟨hSound.right, hSound.prepared, fun ctx hCtx => hSound.unprepared ctx (hDb ▸ hCtx),
    fun ctx hCtx => hSound.block ctx (hDb ▸ hCtx)⟩

theorem Sound.withDb {ctx : DbParticipant.DBParticipantContext} (mem : Memory)
    (hRight : l.wrong = false) (hPrepared : ∀ e ∈ l.server.prepared, e.2.length = l.written)
    (hIn : ctx.inTransaction = true → l.server.prepared = [] ∧
      ∀ opener rows, l.server.block ctx.dbc = .active opener rows → rows.length = l.written) :
    Sound { mem with db := some ctx } l := by
  refine ⟨hRight, hPrepared, ?_, ?_⟩
  · intro ctx' hCtx hTrue
    cases hCtx
    exact (hIn hTrue).1
  · intro ctx' hCtx hTrue
    cases hCtx
    exact (hIn hTrue).2

section Commands

variable {mem : Memory} {ctx : DbParticipant.DBParticipantContext} (hSound : Sound mem l)
  (hCtx : mem.db = some ctx)
include hSound hCtx

omit hCtx in
theorem Sound.rollback (hAct : l.act i (.cast ctx.dbc) .rollback ok = some l') (current : Bytes) :
    Sound { mem with db := some ⟨ctx.dbc, current, false⟩ } l' := by
  obtain ⟨hStep, hWritten, hRight⟩ := Ledger.act_eq hAct
  obtain ⟨-, hSame⟩ := Server.step_rollback hStep
  have hPrepared : ∀ e ∈ l'.server.prepared, e.2.length = l'.written := by
    rw [hSame, hWritten]
    exact hSound.prepared
  exact .withDb mem (hRight hSound.right hPrepared) hPrepared nofun

theorem Sound.finish {name : Bytes}
    (hCmd : cmd = .commitPrepared name ∨ cmd = .rollbackPrepared name)
    (hAct : l.act i (.cast ctx.dbc) cmd ok = some l') (current : Bytes) :
    Sound { mem with db := some { ctx with currentTxnId := current } } l' := by
  obtain ⟨hStep, hWritten, hRight⟩ := Ledger.act_eq hAct
  obtain ⟨hSub, hBlock⟩ := Server.step_finish hCmd hStep
  have hSame : l'.written = l.written := by
    rcases hCmd with rfl | rfl <;> simpa [rowsWritten] using hWritten
  have hPrepared : ∀ e ∈ l'.server.prepared, e.2.length = l'.written :=
    fun e he => hSame ▸ hSound.prepared e (hSub e he)
  refine .withDb mem (hRight hSound.right hPrepared) hPrepared fun hIn => ⟨?_, ?_⟩
  · refine List.eq_nil_iff_forall_not_mem.mpr fun e he => ?_
    have hMem := hSub e he
    rw [hSound.unprepared ctx hCtx hIn] at hMem
    cases hMem
  · intro opener rows hActive
    rw [hSame]
    exact hSound.block ctx hCtx hIn opener rows (hBlock _ opener rows hActive)

theorem Sound.prepare {name : Bytes} (hIn : ctx.inTransaction = true)
    (hAct : l.act i (.cast ctx.dbc) (.prepare name) ok = some l') :
    Sound { mem with db := some { ctx with inTransaction := !ok } } l' := by
  obtain ⟨hStep, hWritten, hRight⟩ := Ledger.act_eq hAct
  obtain ⟨hIdle, hCases⟩ := Server.step_prepare hStep
  have hEmpty := hSound.unprepared ctx hCtx hIn
  have hPrepared : ∀ e ∈ l'.server.prepared, e.2.length = l'.written := by
    rcases hCases with hSame | ⟨opener, rows, -, hBlock, hStored⟩
    · rw [hSame, hEmpty]
      exact nofun
    · rw [hStored, hEmpty, hWritten]
      intro e he
      cases List.mem_singleton.mp he
      exact hSound.block ctx hCtx hIn opener rows hBlock
  refine .withDb mem (hRight hSound.right hPrepared) hPrepared fun hStill => ⟨?_, ?_⟩
  · rcases hCases with hSame | ⟨opener, rows, hOk, -, -⟩
    · rw [hSame, hEmpty]
    · rw [hOk] at hStill
      cases hStill
  · intro opener rows hActive
    rw [wrapped] at hIdle
    rw [hIdle] at hActive
    cases hActive

theorem Sound.insert (hIn : ctx.inTransaction = true)
    (hAct : l.act i (.conn ctx.dbc) .insert ok = some l') : Sound mem l' := by
  obtain ⟨hStep, hWritten, hRight⟩ := Ledger.act_eq hAct
  obtain ⟨hSame, hBlock⟩ := Server.step_insert hStep
  have hEmpty : l'.server.prepared = [] := hSame.trans (hSound.unprepared ctx hCtx hIn)
  have hPrepared : ∀ e ∈ l'.server.prepared, e.2.length = l'.written := by
    rw [hEmpty]
    exact nofun
  refine ⟨hRight hSound.right hPrepared, hPrepared, fun _ _ _ => hEmpty, ?_⟩
  intro ctx' hCtx' _ opener rows hActive
  rw [hCtx] at hCtx'
  cases hCtx'
  obtain ⟨rfl, before, hBefore, rfl⟩ := hBlock opener rows hActive
  rw [List.length_append, hSound.block ctx hCtx hIn opener before hBefore, hWritten]
  rfl

end Commands

section Callbacks

variable {mem : Memory} {maxRetries : Nat}

theorem Sound.wp_onDb (hSound : Sound mem l)
    {f : DbParticipant.DBParticipantContext → SysProg (Int × DbParticipant.DBParticipantContext)}
    (hf : ∀ ctx, mem.db = some ctx → (f ctx).wp (observe (Ledger.act i))
      (fun r l' => Sound { mem with db := some r.2 } l') l) :
    (onDb mem f).wp (observe (Ledger.act i)) (fun x l' => Sound x.2 l') l := by
  unfold onDb
  split
  · exact hSound
  · rename_i ctx hCtx
    rw [Prog.wp_bind]
    exact hf ctx hCtx

theorem Sound.wp_dbParticipantAbort (hSound : Sound mem l)
    {ctx : DbParticipant.DBParticipantContext} (hCtx : mem.db = some ctx) (txnId : Bytes) :
    (DbParticipant.dbParticipantAbort ctx txnId).wp (observe (Ledger.act i))
      (fun r l' => Sound { mem with db := some r.2 } l') l := by
  simp only [DbParticipant.dbParticipantAbort, Prog.wp_bind, wp_pgExec]
  intro ok l' hReact
  by_cases hActive : ctx.inTransaction = true ∧ ctx.currentTxnId = txnId
  · rw [if_pos hActive] at hReact
    have hDone := hSound.rollback hReact []
    cases ok <;> simpa [hActive] using hDone
  · rw [if_neg hActive] at hReact
    have hDone := hSound.finish hCtx (.inr rfl) hReact []
    cases ok <;> simpa [hActive] using hDone

theorem sound_implement (hSound : Sound mem l) (e : Call Who) (he : Ordinary e) :
    (implement maxRetries e mem).wp (observe (Ledger.act i)) (fun x l' => Sound x.2 l') l := by
  have hOff : OffDb e →
      (implement maxRetries e mem).wp (observe (Ledger.act i)) (fun x l' => Sound x.2 l') l := by
    intro hOffDb
    refine Prog.wp_mono _ ?_ ((offDb_implement maxRetries e mem hOffDb).wp _
      fun _ hOp r => NotPg.next hOp _ _ r)
    rintro x l' ⟨rfl, hDb⟩
    exact hSound.of_db_eq hDb
  cases e with
  | sys op => exact hOff (notPg_of_direct he)
  | callback phase index who txnId =>
    cases who with
    | clearing => exact hOff rfl
    | database =>
      cases phase with
      | prepare =>
        refine hSound.wp_onDb fun ctx hCtx => ?_
        by_cases hActive : ctx.inTransaction = true ∧ ctx.currentTxnId = txnId
        · rw [wp_dbParticipantPrepare _ _ _ _ _ hActive.1 hActive.2]
          intro ok l' hReact
          have hDone := hSound.prepare hCtx hActive.1 hReact
          cases ok with
          | true => exact hDone
          | false =>
            obtain ⟨dbc, current, inTx⟩ := ctx
            obtain rfl : inTx = true := hActive.1
            exact hDone
        · simpa [DbParticipant.dbParticipantPrepare, hActive, hCtx] using hSound.of_db_eq hCtx.symm
      | commit =>
        refine hSound.wp_onDb fun ctx hCtx => ?_
        rw [wp_dbParticipantCommit]
        intro ok l' hReact
        have hDone := hSound.finish hCtx (.inl rfl) hReact
        cases ok
        · simpa using hDone ctx.currentTxnId
        · simpa using hDone []
      | abort => exact hSound.wp_onDb fun ctx hCtx => hSound.wp_dbParticipantAbort hCtx txnId
  | dbParticipantInit dbc => exact he.elim
  | dbParticipantBegin txnId => exact he.elim
  | dbParticipantDestroy =>
    simp only [implement]
    split
    · exact hSound
    · rename_i ctx hCtx
      simp only [DbParticipant.dbParticipantDestroy]
      split
      · simp only [Prog.wp_bind, Prog.wp_pure]
        exact hSound.wp_dbParticipantAbort hCtx _
      · exact hSound.of_db_eq hCtx.symm
  | dbParticipantInsertTransaction requestId masked amount status =>
    simp only [implement]
    split
    · exact hSound
    · rename_i ctx hCtx
      simp only [DbParticipant.dbParticipantInsertTransaction, Prog.wp_bind, Prog.wp_pure]
      split
      · rename_i hIn
        refine wp_dbInsertOrGetByReqid _ _ _ _ _ _ _ _ ?_ fun _ => hSound
        exact fun ok l' hAct r _ => hSound.insert hCtx hIn hAct
      · simpa using hSound
  | _ => exact hOff trivial

theorem wp_ordinary {α : Type} {p : CallProg Who α} {Q : α → Prop} (hp : p.All Ordinary Q)
    (hSound : Sound mem l) :
    (p.interp (implement maxRetries) mem).wp (observe (Ledger.act i)) (fun _ l' => l'.wrong = false)
      l := by
  refine Prog.wp_mono _ (fun _ _ h => h.2.right) (hp.wp_interp _ _ ?_ hSound)
  exact fun e _ _ he hSound => sound_implement hSound e he

/-- Before BEGIN: no command has been sent. -/
def Fresh (mem : Memory) : Prop := ∀ ctx, mem.db = some ctx → ctx.inTransaction = false

theorem Fresh.sound (h : Fresh mem) : Sound mem .start := by
  refine ⟨rfl, nofun, fun ctx hCtx hIn => ?_, fun ctx hCtx hIn => ?_⟩
  all_goals
    rw [h ctx hCtx] at hIn
    cases hIn

theorem Fresh.of_db_eq {mem' : Memory} (h : Fresh mem) (hDb : mem'.db = mem.db) : Fresh mem' :=
  fun ctx hCtx => h ctx (hDb ▸ hCtx)

theorem Fresh.wp_begin (h : Fresh mem) (txnId : Bytes) :
    (implement maxRetries (.dbParticipantBegin txnId) mem).wp (observe (Ledger.act i))
      (fun x l' => Sound x.2 l') .start := by
  refine h.sound.wp_onDb fun ctx hCtx => ?_
  rw [wp_dbParticipantBegin _ _ _ _ _ (h ctx hCtx)]
  intro ok l' hReact
  obtain ⟨hStep, hWritten, hRight⟩ := Ledger.act_eq hReact
  obtain ⟨hSame, hBlock⟩ := Server.step_begin hStep
  have hEmpty : l'.server.prepared = [] := hSame
  have hPrepared : ∀ e ∈ l'.server.prepared, e.2.length = l'.written := by
    rw [hEmpty]
    exact nofun
  refine .withDb mem (hRight rfl hPrepared) hPrepared fun _ => ⟨hEmpty, ?_⟩
  intro opener rows hActive
  have hDbc : l'.server.block ctx.dbc = .active opener rows := by
    cases ok <;> exact hActive
  rcases hBlock opener rows hDbc with rfl | hBefore
  · exact hWritten.symm
  · cases hBefore

variable {exits : Exits} (hExits : exits.Ordinary) (h : Fresh mem)
include hExits h

theorem wp_enlist (t0 : Int) (req : Iso8583.IsoRequest) (masked : Bytes) (c : Coordinator)
    (txn : Transaction Who) :
    ((enlist exits t0 req masked c txn).interp (implement maxRetries) mem).wp
      (observe (Ledger.act i)) (fun _ l' => l'.wrong = false) .start := by
  have hRegister : ∀ txn who, (txnRegisterParticipant txn who).All OffDb fun _ => True :=
    fun _ _ => ⟨trivial, fun _ => trivial⟩
  rw [enlist]
  refine offDb_bind (hRegister _ _) fun first mem₁ _ hMem₁ => ?_
  have h₁ := h.of_db_eq hMem₁
  split
  · exact wp_ordinary (hExits.all_cleanup _ _ _ _) h₁.sound
  · refine offDb_bind (hRegister _ _) fun second mem₂ _ hMem₂ => ?_
    have h₂ := h₁.of_db_eq hMem₂
    split
    · exact wp_ordinary (hExits.all_cleanup _ _ _ _) h₂.sound
    · rw [dbParticipantBegin, Prog.wp_interp_call_bind]
      refine Prog.wp_mono _ ?_ (h₂.wp_begin _)
      rintro ⟨begun, mem₃⟩ l' hSound
      split
      · exact wp_ordinary (hExits.all_cleanup _ _ _ _) hSound
      · refine wp_ordinary (Q := fun _ => True) ?_ hSound
        simp only [clearingParticipantSetTransaction, Prog.all_bind, Prog.all_call, Prog.all_ret]
        refine ⟨trivial, fun set => ?_⟩
        split
        · exact (hExits.all_cleanup _ _ _ _).mono fun _ _ => trivial
        · exact hExits.all_settle _ _ _ _ _

theorem wp_transact (t0 : Int) (req : Iso8583.IsoRequest) (c : Coordinator) :
    ((transact exits t0 req c).interp (implement maxRetries) mem).wp
      (observe (Ledger.act i)) (fun _ l' => l'.wrong = false) .start := by
  rw [transact]
  refine offDb_bind (offDb_sys .time trivial) fun now mem₁ _ hMem₁ => ?_
  refine offDb_bind (offDb_clerical.all_txnBegin trivial c _) fun begun mem₂ _ hMem₂ => ?_
  have h₂ := (h.of_db_eq hMem₁).of_db_eq hMem₂
  split
  · exact wp_ordinary (hExits.all_decline _ _ _) h₂.sound
  · refine offDb_bind (offDb_sys .dbThreadGet trivial) fun dbc mem₃ _ _ => ?_
    rw [dbParticipantInit, Prog.wp_interp_call_bind]
    have hInit : (implement maxRetries (.dbParticipantInit dbc) mem₃).All NotPg fun x => Fresh x.2 := by
      cases dbc with
      | none => rintro _ ⟨⟩
      | some dbc =>
        simp only [implement, DbParticipant.dbParticipantInit, Prog.perform, Prog.all_bind,
          Prog.all_call, Prog.all_ret, Prog.all_pure]
        refine ⟨trivial, fun allocated ctx hCtx => ?_⟩
        cases allocated <;> cases hCtx
        rfl
    refine Prog.wp_mono _ ?_ (hInit.wp _ fun _ hOp r => NotPg.next hOp _ _ r)
    rintro ⟨dbCtx, mem₄⟩ l' ⟨rfl, h₄⟩
    have hClearing : clearingParticipantInit.All OffDb fun _ => True := ⟨trivial, fun _ => trivial⟩
    refine offDb_bind hClearing fun clearingCtx mem₅ _ hMem₅ => ?_
    have h₅ := h₄.of_db_eq hMem₅
    split
    · exact wp_ordinary (hExits.all_initFailed req dbCtx clearingCtx _ _) h₅.sound
    · exact wp_enlist hExits h₅ _ _ _ _ _

theorem wp_pipeline (atof : Bytes → Double) (c : Coordinator) (text : Bytes) :
    ((pipeline exits atof c text).interp (implement maxRetries) mem).wp
      (observe (Ledger.act i)) (fun _ l' => l'.wrong = false) .start := by
  rw [pipeline]
  refine offDb_bind (offDb_sys .gettimeofday trivial) fun t0 mem₁ _ hMem₁ => ?_
  refine offDb_bind (offDb_sys (.metric .total) trivial) fun _ mem₂ _ hMem₂ => ?_
  have h₂ := (h.of_db_eq hMem₁).of_db_eq hMem₂
  have hDecline : ∀ requestId reason, ((decline exits requestId reason c).interp
      (implement maxRetries) mem₂).wp (observe (Ledger.act i)) (fun _ l' => l'.wrong = false) .start :=
    fun requestId reason => wp_ordinary (hExits.all_decline requestId reason c) h₂.sound
  split
  · exact hDecline _ _
  · split
    · exact hDecline _ _
    · split
      · exact hDecline _ _
      · refine offDb_bind (offDb_sys (.riskEvaluate _) trivial) fun rdec mem₃ _ hMem₃ => ?_
        have h₃ := h₂.of_db_eq hMem₃
        split
        · exact wp_ordinary (hExits.all_decline _ _ _) h₃.sound
        · exact wp_transact hExits h₃ _ _ _

end Callbacks

theorem Fresh.empty : Fresh .empty := nofun

/-- On a session of its own, a request prepares just what it has written. -/
theorem wp_serve_ledger (cfg : Config) (a : Arrival) (i : Nat) :
    (serve cfg a).wp (observe (Ledger.act i)) (fun _ l => l.wrong = false) .start := by
  unfold serve
  cases a.route with
  | line => exact wp_pipeline lineExits_ordinary .empty _ _ _
  | body =>
    rw [request, httpBodyRequest, Prog.wp_interp_bind]
    refine Prog.wp_mono _ ?_ (wp_pipeline httpExits_ordinary .empty _ _ _)
    rintro ⟨r, mem⟩ l hRight
    exact fun _ _ => hRight

end Ledger

section Replay

variable {i : Nat}

def Ledger.Checked (l : Ledger) : Prop :=
  l.wrong = false → ∀ e ∈ l.server.prepared, e.2.length = l.written

theorem rowsWritten_command {x : SysEvent} {c : PgHandle × Command Bytes × Bool}
    (h : command x = some c) : rowsWritten c.2.1 c.2.2 = if writesRow x then 1 else 0 := by
  obtain ⟨handle, cmd, ok⟩ := c
  cases cmd <;> cases ok <;> simp [rowsWritten, writesRow, h]

theorem Ledger.react_of {l : Ledger} {x : SysEvent} {w : Server DbHandle Bytes Nat}
    (h : react (issue wrapped i) l.server x = some w) (hChecked : l.Checked) :
    ∃ l', react (Ledger.act i) l x = some l' ∧ l'.server = w ∧
      l'.written = l.written + (if writesRow x then 1 else 0) ∧ l'.Checked := by
  unfold react at h ⊢
  cases hCommand : command x with
  | none =>
    rw [hCommand] at h
    cases h
    exact ⟨l, rfl, rfl, by simp [writesRow, hCommand], hChecked⟩
  | some c =>
    rw [hCommand] at h
    obtain ⟨handle, cmd, ok⟩ := c
    refine ⟨_, Option.map_eq_some_iff.mpr ⟨w, h, rfl⟩, rfl, ?_, ?_⟩
    · rw [← rowsWritten_command hCommand]
    · intro hRight e he
      simp only [Bool.or_eq_false_iff, List.any_eq_false] at hRight
      simpa using hRight.2 e he

theorem Ledger.wrong_react {l l' : Ledger} {x : SysEvent} (h : react (Ledger.act i) l x = some l')
    (hWrong : l.wrong = true) : l'.wrong = true := by
  unfold react at h
  split at h
  · cases h
    exact hWrong
  · obtain ⟨w, -, rfl⟩ := Option.map_eq_some_iff.mp h
    simp [hWrong]

theorem Ledger.replay {evs : List SysEvent} {l : Ledger}
    (hAdmits : (observe (issue wrapped i)).Admits l.server evs) (hChecked : l.Checked) :
    (observe (Ledger.act i)).Admits l evs ∧
      ((observe (Ledger.act i)).after l evs).server = (observe (issue wrapped i)).after l.server evs ∧
      ((observe (Ledger.act i)).after l evs).written = l.written + evs.countP writesRow ∧
      ((observe (Ledger.act i)).after l evs).Checked := by
  induction evs generalizing l with
  | nil => exact ⟨trivial, rfl, rfl, hChecked⟩
  | cons x evs ih =>
    obtain ⟨w, hReact⟩ := Option.isSome_iff_exists.mp hAdmits.1
    obtain ⟨l', hAct, hServer, hWritten, hChecked'⟩ := Ledger.react_of hReact hChecked
    have hNext : (observe (Ledger.act i)).next l x = l' := by simp [observe, hAct]
    have hNextServer : (observe (issue wrapped i)).next l.server x = l'.server := by
      simp [observe, hReact, hServer]
    have hRest := hAdmits.2
    rw [hNextServer] at hRest
    obtain ⟨hAdm, hEq, hCount, hEnd⟩ := ih hRest hChecked'
    simp only [Observer.after_cons, hNext, hNextServer]
    refine ⟨⟨by simp [observe, hAct], hNext ▸ hAdm⟩, hEq, ?_, hEnd⟩
    rw [hCount, hWritten, List.countP_cons]
    omega

end Replay

section Runs

variable {cfg : Config} {tr : List Label} {s : State DbHandle}

/-- The prepared transaction that a command names. -/
def named (x : SysEvent) : Option Bytes := (command x).bind fun c => c.2.1.name?

/-- A request sends a command only where no other request has a block open. -/
def KeepsOut (w : Server DbHandle Bytes Nat) : Label → Prop
  | .acted i x => ∀ c, command x = some c → (w.block (wrapped c.1)).FreeFor i
  | _ => True

instance (w : Server DbHandle Bytes Nat) : (l : Label) → Decidable (KeepsOut w l)
  | .acted i x =>
    match h : command x with
    | none => isTrue fun c hc => by simp [h] at hc
    | some c => decidable_of_iff ((w.block (wrapped c.1)).FreeFor i)
        ⟨fun hFree c' hc => by rwa [← Option.some.inj (h.symm.trans hc)], fun hKeeps => hKeeps c h⟩
  | .started _ => isTrue trivial
  | .moved _ => isTrue trivial

abbrev ApartRun (cfg : Config) (tr : List Label) (s : State DbHandle) : Prop :=
  Run (Pool.GuardedStep (setting wrapped cfg) KeepsOut) ⟨[], .initial⟩ tr s

def namesOf (i : Nat) (tr : List Label) : List Bytes := (Pool.events i tr).filterMap named

/-- Different transactions have different names. -/
def NamesApart (tr : List Label) : Prop :=
  ∀ i j, i ≠ j → ∀ name ∈ namesOf i tr, name ∉ namesOf j tr

/-- The server as request `i` alone would see it. -/
def own (tr : List Label) (i : Nat) : Server DbHandle Bytes Nat :=
  (observe (issue wrapped i)).after .initial (Pool.events i tr)

theorem namesOf_snoc (i : Nat) (tr : List Label) (l : Label) :
    namesOf i (tr ++ [l]) = namesOf i tr ++ (Pool.eventOf i l).filterMap named := by
  simp [namesOf]

theorem NamesApart.of_append {rest : List Label} (h : NamesApart (tr ++ rest)) : NamesApart tr := by
  have hSub : ∀ i, ∀ name ∈ namesOf i tr, name ∈ namesOf i (tr ++ rest) := by
    intro i name hName
    simp only [namesOf, Pool.events, List.flatMap_append, List.filterMap_append]
    exact List.mem_append_left _ hName
  exact fun i j hij name hi hj => h i j hij name (hSub i name hi) (hSub j name hj)

theorem own_snoc_other {l : Label} {i : Nat} (h : Pool.eventOf i l = []) :
    own (tr ++ [l]) i = own tr i := by
  simp [own, h]

theorem own_snoc_acted (i : Nat) (x : SysEvent) :
    own (tr ++ [.acted i x]) i = (observe (issue wrapped i)).next (own tr i) x := by
  rw [own, Pool.events_snoc, Observer.after_append]
  simp [Pool.eventOf, own]

structure Together (tr : List Label) (w : Server DbHandle Bytes Nat) : Prop where
  composed : Server.Composed (own tr) w
  admits : ∀ i, (observe (issue wrapped i)).Admits .initial (Pool.events i tr)
  names : ∀ i, ∀ name ∈ (own tr i).names, name ∈ namesOf i tr

theorem namesOf_acted {i : Nat} {x : SysEvent} {c : PgHandle × Command Bytes × Bool} {name : Bytes}
    (hCommand : command x = some c) (hName : c.2.1.name? = some name) :
    name ∈ namesOf i (tr ++ [.acted i x]) := by
  rw [namesOf_snoc]
  refine List.mem_append_right _ (List.mem_filterMap.mpr ⟨x, by simp [Pool.eventOf], ?_⟩)
  simp [named, hCommand, hName]

theorem mem_namesOf_snoc {i : Nat} {l : Label} {name : Bytes} (h : name ∈ namesOf i tr) :
    name ∈ namesOf i (tr ++ [l]) := by
  rw [namesOf_snoc]
  exact List.mem_append_left _ h

variable {w w' : Server DbHandle Bytes Nat}

theorem Together.other (h : Together tr w) {l : Label} (hNone : ∀ i, Pool.eventOf i l = []) :
    Together (tr ++ [l]) w := by
  have hOwn : own (tr ++ [l]) = own tr := funext fun i => own_snoc_other (hNone i)
  refine ⟨hOwn ▸ h.composed, fun i => ?_, fun i name hName => ?_⟩
  · simpa [hNone i] using h.admits i
  · rw [hOwn] at hName
    exact mem_namesOf_snoc (h.names i name hName)

/-- The private server of the request that acts takes the same step. -/
theorem Together.private_step (h : Together tr w) {i : Nat} {x : SysEvent}
    (hKeeps : KeepsOut w (.acted i x)) (hApart : NamesApart (tr ++ [.acted i x]))
    (hReact : react (issue wrapped i) w x = some w') :
    ∃ q, react (issue wrapped i) (own tr i) x = some q ∧
      Server.Composed (Function.update (own tr) i q) w' ∧
      ∀ name ∈ q.names, name ∈ namesOf i (tr ++ [.acted i x]) := by
  unfold react at hReact ⊢
  cases hCommand : command x with
  | none =>
    rw [hCommand] at hReact
    cases hReact
    exact ⟨_, rfl, h.composed.same, fun name hName => mem_namesOf_snoc (h.names i name hName)⟩
  | some c =>
    rw [hCommand] at hReact
    have hOthers : ∀ name, c.2.1.name? = some name → ∀ j, j ≠ i → name ∉ (own tr j).names :=
      fun name hName j hji hj => hApart i j hji.symm name (namesOf_acted hCommand hName)
        (mem_namesOf_snoc (h.names j name hj))
    obtain ⟨q, hStep, hComposed⟩ := h.composed.step (hKeeps c hCommand) hOthers hReact
    refine ⟨q, hStep, hComposed, fun name hName => ?_⟩
    rcases Server.names_step hStep name hName with hOld | hNew
    · exact mem_namesOf_snoc (h.names i name hOld)
    · exact namesOf_acted hCommand hNew

theorem Together.act (h : Together tr w) {i : Nat} {x : SysEvent}
    (hKeeps : KeepsOut w (.acted i x)) (hApart : NamesApart (tr ++ [.acted i x]))
    (hReact : react (issue wrapped i) w x = some w') : Together (tr ++ [.acted i x]) w' := by
  obtain ⟨q, hPrivate, hComposed, hNames⟩ := h.private_step hKeeps hApart hReact
  have hSelf : own (tr ++ [.acted i x]) i = q := by
    rw [own_snoc_acted]
    simp [observe, hPrivate]
  have hOther : ∀ j, j ≠ i → Pool.eventOf j (.acted i x : Label) = [] := fun j hji => by
    simp [Pool.eventOf, Ne.symm hji]
  have hOwn : own (tr ++ [.acted i x]) = Function.update (own tr) i q := by
    funext j
    by_cases hji : j = i
    · subst hji
      rw [hSelf, Function.update_self]
    · rw [own_snoc_other (hOther j hji), Function.update_of_ne hji]
  refine ⟨hOwn ▸ hComposed, fun j => ?_, fun j name hName => ?_⟩
  · by_cases hji : j = i
    · subst hji
      rw [Pool.events_snoc, Observer.admits_append]
      refine ⟨h.admits j, ?_⟩
      have hSome : (react (issue wrapped j) (own tr j) x).isSome = true := by simp [hPrivate]
      have hSingle : Pool.eventOf j (.acted j x : Label) = [x] := by simp [Pool.eventOf]
      rw [hSingle]
      exact ⟨hSome, trivial⟩
    · rw [Pool.events_snoc, hOther j hji, List.append_nil]
      exact h.admits j
  · by_cases hji : j = i
    · subst hji
      rw [hSelf] at hName
      exact hNames name hName
    · rw [own_snoc_other (hOther j hji)] at hName
      exact mem_namesOf_snoc (h.names j name hName)

theorem run_together (hRun : ApartRun cfg tr s) (hApart : NamesApart tr) : Together tr s.world := by
  induction hRun with
  | nil => exact ⟨.initial, fun _ => trivial, fun _ => nofun⟩
  | snoc _ hStep ih =>
    have hPrev := ih hApart.of_append
    obtain ⟨hStep, hKeeps⟩ := hStep
    cases hStep with
    | start x => exact hPrev.other fun _ => rfl
    | act hProc hReact => exact hPrev.act hKeeps hApart hReact
    | @move a w hMoves => exact a.elim

/-- Each prepared transaction holds just the rows that its own request has written, and a
command of one request leaves the rows of the others where they are. -/
structure SharingSafe (cfg : Config) (tr : List Label) (s : State DbHandle) : Prop where
  own : ∀ e ∈ s.world.prepared, ∃ i, e.1 ∈ namesOf i tr ∧
    e.2 = List.replicate ((Pool.events i tr).countP writesRow) i
  others : ∀ before i x after (s₁ s₂ : State DbHandle), tr = before ++ .acted i x :: after →
    PgRun wrapped cfg before s₁ → Pool.Step (setting wrapped cfg) s₁ (.acted i x) s₂ →
    ∀ j, j ≠ i → Server.Untouched j s₁.world s₂.world

theorem own_prepared_length (hRun : PgRun wrapped cfg tr s) (h : Together tr s.world) {i : Nat}
    {e : Bytes × List Nat} (he : e ∈ (own tr i).prepared) :
    e.2.length = (Pool.events i tr).countP writesRow := by
  have hThreaded := Pool.run_threaded hRun
  obtain ⟨x, hx⟩ : ∃ x, (Pool.starts tr)[i]? = some x := by
    by_contra hNone
    have hUnborn : Pool.events i tr = [] := by
      apply hThreaded.unborn i
      by_contra hlt
      exact hNone ⟨_, List.getElem?_eq_getElem (by omega)⟩
    rw [own, hUnborn] at he
    cases he
  obtain ⟨q, -, hSteps⟩ := hThreaded.steps i x hx
  obtain ⟨hAdmits, hServer, hWritten, hChecked⟩ :=
    Ledger.replay (l := .start) (h.admits i) fun _ => nofun
  have hRest := (wp_serve_ledger cfg x i).steps hSteps hAdmits
  have hRight := hRest.not_of_final (fun l => l.wrong = true) ?_ ?_ fun _ l hl => by simp [hl]
  · rw [Bool.not_eq_true] at hRight
    rw [own] at he
    have hLength := hChecked hRight e (hServer ▸ he)
    rw [hLength, hWritten]
    exact Nat.zero_add _
  · intro l x hWrong
    simp only [observe]
    cases hReact : react (Ledger.act i) l x with
    | none => exact hWrong
    | some l' => exact Ledger.wrong_react hReact hWrong
  · refine admits_some _ fun l h cmd => ?_
    obtain ⟨ok, hOk⟩ := Server.step_answered l.server (wrapped h) i cmd
    exact ⟨ok, by simpa [Ledger.act, issue] using hOk⟩

theorem sharing_safe (hRun : ApartRun cfg tr s) (hApart : NamesApart tr) : SharingSafe cfg tr s := by
  refine ⟨fun e he => ?_, ?_⟩
  · have hTogether := run_together hRun hApart
    obtain ⟨i, hi⟩ := hTogether.composed.prepared.exists_mem he
    refine ⟨i, hTogether.names i e.1 (List.mem_map_of_mem hi), List.eq_replicate_iff.mpr ⟨?_, ?_⟩⟩
    · exact own_prepared_length (Pool.guarded_run hRun) hTogether hi
    · exact hTogether.composed.prepared.rows i e hi
  · rintro before i x after s₁ s₂ rfl hBefore hStep j hji
    obtain ⟨s₁', s₂', hBefore', hStep'⟩ := hRun.at_label
    obtain rfl := run_functional hBefore (Pool.guarded_run hBefore')
    obtain rfl := step_functional hStep hStep'.1
    have hApart' : NamesApart (before ++ [.acted i x]) := by
      rw [List.append_cons] at hApart
      exact hApart.of_append
    have h₁ := run_together hBefore' hApart'.of_append
    have h₂ := run_together (hBefore'.snoc hStep') hApart'
    refine h₁.composed.untouched h₂.composed (own_snoc_other ?_)
    simp [Pool.eventOf, Ne.symm hji]

end Runs

section Samples

def started : List Label := [.started (sampleArrival "a"), .started (sampleArrival "b")]

def startedState : State DbHandle :=
  ⟨[serve sampleConfig (sampleArrival "a"), serve sampleConfig (sampleArrival "b")], .initial⟩

theorem started_run {guard : Server DbHandle Bytes Nat → Label → Prop}
    (hGuard : ∀ w a, guard w (.started a)) :
    Run (Pool.GuardedStep (setting wrapped sampleConfig) guard) ⟨[], .initial⟩ started startedState :=
  (Run.snoc .nil ⟨.start _, hGuard _ _⟩).snoc ⟨.start _, hGuard _ _⟩

theorem namesApart_started {rest : List Label}
    (hNone : ∀ i, i ≠ 0 → i ≠ 1 → Pool.events i rest = [])
    (h : ∀ name ∈ namesOf 0 rest, name ∉ namesOf 1 rest) : NamesApart (started ++ rest) := by
  have hSame : ∀ i, namesOf i (started ++ rest) = namesOf i rest := fun i => rfl
  have hEmpty : ∀ i, i ≠ 0 → i ≠ 1 → namesOf i rest = [] := fun i h₀ h₁ => by
    simp [namesOf, hNone i h₀ h₁]
  intro i j hij name hi hj
  rw [hSame] at hi hj
  by_cases hi₀ : i = 0
  · subst hi₀
    by_cases hj₁ : j = 1
    · subst hj₁
      exact h name hi hj
    · rw [hEmpty j (Ne.symm hij) hj₁] at hj
      cases hj
  · by_cases hi₁ : i = 1
    · subst hi₁
      by_cases hj₀ : j = 0
      · subst hj₀
        exact h name hj hi
      · rw [hEmpty j hj₀ (Ne.symm hij)] at hj
        cases hj
    · rw [hEmpty i hi₀ hi₁] at hi
      cases hi

/-- BEGIN, BEGIN, INSERT, INSERT, PREPARE. -/
def crossed : List Nat :=
  List.replicate 16 0 ++ List.replicate 16 1 ++ List.replicate 3 0 ++ List.replicate 3 1 ++
    List.replicate 5 0

/-- The first request up to its PREPARE, and nothing of the second. -/
def alone : List Nat := List.replicate 24 0

theorem crossed_turns : ∀ i, i ≠ 0 → i ≠ 1 → i ∉ crossed := by
  intro i h₀ h₁ hi
  simp [crossed, h₀, h₁] at hi

/-- The first request prepares the rows of both. -/
theorem not_sharing_safe :
    ¬∀ (cfg : Config) (tr : List Label) (s : State DbHandle), PgRun wrapped cfg tr s →
      NamesApart tr → SharingSafe cfg tr s := by
  intro h
  have hEval : (schedule wrapped (fun _ _ => True) Sys.calm crossed startedState).map
      (fun r => (namesOf 1 r.1, r.2.world.prepared.map (·.2))) = some ([], [[0, 1]]) := by
    decide +kernel
  obtain ⟨⟨rest, s⟩, hSchedule, hFacts⟩ := Option.map_eq_some_iff.mp hEval
  obtain ⟨hNames, hRows⟩ := Prod.mk.inj hFacts
  obtain ⟨hRun, hNone⟩ := schedule_run wrapped sampleConfig _ _
    (started_run fun _ _ => trivial) hSchedule
  have hApart : NamesApart (started ++ rest) := by
    refine namesApart_started (fun i h₀ h₁ => hNone i (crossed_turns i h₀ h₁)) ?_
    simp only at hNames
    simp [hNames]
  obtain ⟨e, he, hBoth⟩ := List.mem_map.mp (hRows ▸ List.mem_singleton.mpr rfl)
  obtain ⟨i, -, hOwn⟩ := (h sampleConfig _ s (Pool.guarded_run hRun) hApart).own e he
  rw [hBoth] at hOwn
  have hAll := (List.eq_replicate_iff.mp hOwn).2
  have h₀ : 0 = i := hAll 0 (by simp)
  have h₁ : 1 = i := hAll 1 (by simp)
  omega

theorem alone_sharing_safe :
    ∃ tr s, ApartRun sampleConfig tr s ∧ s.world.prepared.map (·.2) = [[0]] ∧
      SharingSafe sampleConfig tr s := by
  have hEval : (schedule wrapped KeepsOut Sys.calm alone startedState).map
      (fun r => r.2.world.prepared.map (·.2)) = some [[0]] := by
    decide +kernel
  obtain ⟨⟨rest, s⟩, hSchedule, hRows⟩ := Option.map_eq_some_iff.mp hEval
  obtain ⟨hRun, hNone⟩ := schedule_run wrapped sampleConfig _ _
    (started_run fun _ _ => trivial) hSchedule
  have hOnly : ∀ i, i ≠ 0 → Pool.events i rest = [] := fun i hi =>
    hNone i (by simpa [alone] using hi)
  refine ⟨_, s, hRun, hRows, sharing_safe hRun (namesApart_started (fun i h₀ _ => hOnly i h₀) ?_)⟩
  simp [namesOf, hOnly 1 (by decide)]

end Samples

end MiniVisa.SharedSession
