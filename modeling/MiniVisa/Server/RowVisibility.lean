import MiniVisa.Server.Postgres

/-! # When the inserted row becomes visible

The participant sends its transaction commands to the wrapper, cast to a connection, and the
insert goes to the connection inside. Taken as the two handles they are, these are two
sessions: the block that BEGIN opens never holds the row, and the insert commits by itself.
-/

namespace MiniVisa.RowVisibility

set_option autoImplicit false

open Interaction Transition Text Sessions Handler TransactionCoordinator Postgres

def commits (x : SysEvent) : Bool :=
  match command x with
  | some (_, .commitPrepared _, true) => true
  | _ => false

theorem not_commits_of_writesRow {x : SysEvent} (h : writesRow x = true) : commits x = false := by
  unfold writesRow at h
  split at h
  · rename_i hCommand
    simp [commits, hCommand]
  · cases h

section Handles

/-- Transaction commands and inserts go to handles of different kinds. -/
def Apart : Sys → Prop
  | .pgExec h _ => ∃ dbc, h = .cast dbc
  | .pgInsert h _ _ _ => ∃ dbc, h = .conn dbc
  | .pgInsertReqid h _ _ _ _ => ∃ dbc, h = .conn dbc
  | _ => True

theorem NotPg.apart {op : Sys} (h : NotPg op) : Apart op := by
  cases op <;> trivial

theorem apart_clearingWork : ClearingWork Apart :=
  ⟨trivial, trivial, fun _ => trivial, fun _ => trivial, trivial, fun _ => trivial,
    fun _ => trivial, fun _ _ => trivial⟩

theorem apart_dbWork : DbWork Apart :=
  ⟨trivial, fun _ => trivial, fun dbc _ => ⟨dbc, rfl⟩, fun dbc _ _ _ => ⟨dbc, rfl⟩,
    fun dbc _ _ _ _ => ⟨dbc, rfl⟩, fun _ _ => trivial⟩

theorem apart_serve (cfg : Config) (a : Arrival) : (serve cfg a).All Apart fun _ => True := by
  have hImpl : ∀ e (mem : Memory), Made e → True →
      (implement cfg.maxRetries e mem).All Apart fun _ => True := by
    intro e mem he _
    refine all_implement apart_clearingWork apart_dbWork _ e mem ?_ fun q _ => ?_
    · rintro op rfl
      exact NotPg.apart (notPg_of_direct he)
    · exact apart_clearingWork.all_reversalEnqueue (fun _ _ => trivial) trivial q
  exact ((made_request _ _ _ _).interp _ hImpl trivial).mono fun _ _ => trivial

theorem Apart.command {x : SysEvent} (h : Apart x.1) {handle : PgHandle} {cmd : Command Bytes}
    {ok : Bool} (hCommand : Postgres.command x = some (handle, cmd, ok)) :
    (cmd = .insert ∧ ∃ dbc, handle = .conn dbc) ∨ (cmd ≠ .insert ∧ ∃ dbc, handle = .cast dbc) := by
  unfold Postgres.command at hCommand
  split at hCommand
  case h_6 | h_7 =>
    cases hCommand
    exact .inl ⟨rfl, h⟩
  case h_8 =>
    split at hCommand
    · cases hCommand
      exact .inl ⟨rfl, h⟩
    · cases hCommand
  case h_9 => cases hCommand
  all_goals
    cases hCommand
    exact .inr ⟨nofun, h⟩

def insertHandle : Sys → Option PgHandle
  | .pgInsert h _ _ _ => some h
  | .pgInsertReqid h _ _ _ _ => some h
  | _ => none

def blockHandle : Sys → Option PgHandle
  | .pgExec h .begin => some h
  | .pgExec h (.prepareTransaction _) => some h
  | _ => none

theorem Apart.handle_ne {op op' : Sys} (h : Apart op) (h' : Apart op') {g g' : PgHandle}
    (hInsert : insertHandle op = some g) (hBlock : blockHandle op' = some g') : g ≠ g' := by
  obtain ⟨dbc, rfl⟩ : ∃ dbc, g = .conn dbc := by
    cases op <;> cases hInsert <;> exact h
  obtain ⟨dbc', rfl⟩ : ∃ dbc, g' = .cast dbc := by
    cases op' with
    | pgExec conn cmd => cases cmd <;> cases hBlock <;> exact h'
    | _ => cases hBlock
  simp

end Handles

section World

/-- No block holds a row, and no block is ever open where the inserts go. -/
structure Loose (w : Server PgHandle Bytes Nat) : Prop where
  conn : ∀ dbc, w.block (.conn dbc) = .idle
  rows : ∀ session opener rows, w.block session = .active opener rows → rows = []
  prepared : ∀ e ∈ w.prepared, e.2 = []

theorem Loose.initial : Loose .initial :=
  ⟨fun _ => rfl, nofun, nofun⟩

variable {w w' : Server PgHandle Bytes Nat} {i : Nat} {dbc : DbHandle}

theorem Loose.setCast (h : Loose w) {b : Block Nat}
    (hb : ∀ opener rows, b = .active opener rows → rows = []) :
    Loose (w.setBlock (.cast dbc) b) := by
  refine ⟨fun dbc' => ?_, fun session opener rows hBlock => ?_, h.prepared⟩
  · simpa using h.conn dbc'
  · simp only [Server.setBlock_block] at hBlock
    split at hBlock
    · exact hb opener rows hBlock
    · exact h.rows session opener rows hBlock

theorem Loose.forget (h : Loose w) (name : Bytes) : Loose (w.forget name) :=
  ⟨h.conn, h.rows, fun e he => h.prepared e (List.mem_of_mem_filter he)⟩

theorem Loose.rowsOf (h : Loose w) (name : Bytes) : w.rowsOf name = [] := by
  refine List.flatMap_eq_nil_iff.mpr fun e he => ?_
  exact h.prepared e (List.mem_of_mem_filter he)

theorem Loose.step_cast (h : Loose w) {cmd : Command Bytes} (hCmd : cmd ≠ .insert) {ok : Bool}
    (hStep : w.step (.cast dbc) i cmd ok = some w') : Loose w' ∧ w'.visible = w.visible := by
  have hIdle : Loose (w.setBlock (.cast dbc) .idle) := h.setCast nofun
  cases Server.effect_of_step hStep with
  | opened =>
    refine ⟨h.setCast ?_, rfl⟩
    intro opener rows hb
    cases hb
    rfl
  | nested => exact ⟨h, rfl⟩
  | notOpened => exact ⟨h, rfl⟩
  | committed => exact absurd rfl hCmd
  | added => exact absurd rfl hCmd
  | spoiled => exact absurd rfl hCmd
  | notAdded => exact absurd rfl hCmd
  | warned => exact ⟨h, rfl⟩
  | prepared hBlock =>
    refine ⟨⟨hIdle.conn, hIdle.rows, ?_⟩, rfl⟩
    intro e he
    rcases List.mem_append.mp he with he | he
    · exact h.prepared e he
    · cases List.mem_singleton.mp he
      exact h.rows _ _ _ hBlock
  | dissolved => exact ⟨hIdle, rfl⟩
  | cancelled => exact ⟨hIdle, rfl⟩
  | rolledBack => exact ⟨hIdle, rfl⟩
  | notRolledBack => exact ⟨h, rfl⟩
  | barred => exact ⟨h.setCast nofun, rfl⟩
  | published =>
    rw [h.rowsOf]
    have hPublish : Loose (w.publish []) := ⟨h.conn, h.rows, h.prepared⟩
    exact ⟨hPublish.forget _, List.append_nil _⟩
  | notPublished => exact ⟨h, rfl⟩
  | forgotten => exact ⟨h.forget _, rfl⟩

theorem Loose.step_conn (h : Loose w) {ok : Bool}
    (hStep : w.step (.conn dbc) i .insert ok = some w') :
    Loose w' ∧ w'.visible = w.visible ++ if ok then [i] else [] := by
  have hConn := h.conn dbc
  cases Server.effect_of_step hStep with
  | committed => exact ⟨⟨h.conn, h.rows, h.prepared⟩, rfl⟩
  | added hBlock => simp [hConn] at hBlock
  | spoiled hBlock => simp [hConn] at hBlock
  | notAdded => exact ⟨h, (List.append_nil _).symm⟩
  | barred hCmd => simp at hCmd

/-- An inserted row is visible at once; nothing else becomes visible. -/
theorem Loose.react (h : Loose w) {x : SysEvent} (hx : Apart x.1)
    (hReact : Postgres.react (issue id i) w x = some w') :
    Loose w' ∧ w'.visible = w.visible ++ if writesRow x then [i] else [] := by
  unfold Postgres.react at hReact
  unfold writesRow
  split at hReact
  · rename_i hCommand
    cases hReact
    exact ⟨h, by simp [hCommand]⟩
  · rename_i handle cmd ok hCommand
    rw [hCommand]
    rcases hx.command hCommand with ⟨rfl, dbc, rfl⟩ | ⟨hNot, dbc, rfl⟩
    · obtain ⟨hLoose, hVisible⟩ := h.step_conn hReact
      refine ⟨hLoose, ?_⟩
      cases ok <;> exact hVisible
    · obtain ⟨hLoose, hVisible⟩ := h.step_cast hNot hReact
      refine ⟨hLoose, ?_⟩
      cases cmd <;> first | exact absurd rfl hNot | simpa using hVisible

end World

section Runs

variable {cfg : Config} {tr : List Label} {s : State PgHandle}

theorem run_visible (hRun : PgRun id cfg tr s) :
    Loose s.world ∧ ∀ i, s.world.visible.count i = (Pool.events i tr).countP writesRow := by
  induction hRun with
  | nil => exact ⟨.initial, fun _ => rfl⟩
  | @snoc tr s s' l hPrev hStep ih =>
    have hNext := hPrev.snoc hStep
    obtain ⟨hLoose, hCount⟩ := ih
    cases hStep with
    | start x => exact ⟨hLoose, fun i => by simpa [Pool.eventOf] using hCount i⟩
    | @act j e k r w hProc hReact =>
      have hApart : Apart e := by
        have hMem : ⟨e, r⟩ ∈ Pool.events j (tr ++ [.acted j ⟨e, r⟩]) :=
          Pool.mem_events.mpr (List.mem_append_right _ List.mem_cons_self)
        exact Pool.run_all (apart_serve cfg) hNext hMem
      obtain ⟨hLoose', hVisible⟩ := hLoose.react hApart hReact
      refine ⟨hLoose', fun i => ?_⟩
      rw [hVisible, List.count_append, hCount, Pool.events_snoc, List.countP_append]
      by_cases hij : j = i
      · subst hij
        cases hWrites : writesRow ⟨e, r⟩ <;> simp [Pool.eventOf, hWrites]
      · cases hWrites : writesRow ⟨e, r⟩ <;> simp [Pool.eventOf, hij]
    | @move a w hMoves => exact a.elim

/-- The row of request `i` belongs to its distributed transaction: it becomes visible only by a
commit of that transaction, and never without one. -/
structure Belongs (cfg : Config) (i : Nat) (tr : List Label) : Prop where
  only_commit : ∀ before l after (s s' : State PgHandle), tr = before ++ l :: after →
    PgRun id cfg before s → Pool.Step (setting id cfg) s l s' →
    s.world.visible.count i < s'.world.visible.count i → ∃ x, l = .acted i x ∧ commits x = true
  aborted : ∀ before after (s : State PgHandle), tr = before ++ after → PgRun id cfg before s →
    (∀ x ∈ Pool.events i before, commits x = false) → i ∉ s.world.visible

/-- The row belongs to the transaction in the runs that write none, and in no other; the insert
of a run never shares a handle with its BEGIN or its PREPARE TRANSACTION. -/
theorem row_belongs_iff (hRun : PgRun id cfg tr s) (i : Nat) :
    (Belongs cfg i tr ↔ ∀ x ∈ Pool.events i tr, writesRow x = false) ∧
      ∀ x ∈ Pool.events i tr, ∀ y ∈ Pool.events i tr, ∀ g h, insertHandle x.1 = some g →
        blockHandle y.1 = some h → g ≠ h := by
  refine ⟨⟨fun hBelongs x hx => ?_, fun hNone => ?_⟩, fun x hx y hy g h hg hh => ?_⟩
  · by_contra hWrites
    rw [Bool.not_eq_false] at hWrites
    obtain ⟨before, after, rfl⟩ := List.append_of_mem (Pool.mem_events.mp hx)
    obtain ⟨s₁, s₂, hBefore, hStep⟩ := hRun.at_label
    have hGrows : s₁.world.visible.count i < s₂.world.visible.count i := by
      rw [(run_visible hBefore).2, (run_visible (hBefore.snoc hStep)).2, Pool.events_snoc,
        List.countP_append]
      simp [Pool.eventOf, hWrites]
    obtain ⟨y, hLabel, hCommits⟩ := hBelongs.only_commit before _ after s₁ s₂ rfl hBefore hStep hGrows
    cases hLabel
    rw [not_commits_of_writesRow hWrites] at hCommits
    cases hCommits
  · have hZero : ∀ before after s, tr = before ++ after → PgRun id cfg before s →
        s.world.visible.count i = 0 := by
      rintro before after s rfl hBefore
      rw [(run_visible hBefore).2]
      refine List.countP_eq_zero.mpr fun x hx => ?_
      have hMem : x ∈ Pool.events i (before ++ after) :=
        Pool.mem_events.mpr (List.mem_append_left _ (Pool.mem_events.mp hx))
      simp [hNone x hMem]
    refine ⟨fun before l after s s' hTr hBefore hStep hGrows => ?_, fun before after s hTr hBefore _ => ?_⟩
    · have hAfter := hZero (before ++ [l]) after s' (by simpa using hTr) (hBefore.snoc hStep)
      omega
    · exact List.count_eq_zero.mp (hZero before after s hTr hBefore)
  · exact (Pool.run_all (apart_serve cfg) hRun hx).handle_ne (Pool.run_all (apart_serve cfg) hRun hy)
      hg hh

/-- Clearing declines, the transaction is rolled back, and its row stays visible. -/
theorem row_not_belongs :
    ¬∀ (cfg : Config) (tr : List Label) (s : State PgHandle), PgRun id cfg tr s →
      ∀ i, Belongs cfg i tr := by
  intro h
  obtain ⟨s, hRun, hWorld⟩ := oneRequest_run id sampleConfig (sampleArrival "r") clearingDeclines
    (by decide +kernel)
  have hVisible : 0 ∈ s.world.visible := by
    rw [hWorld]
    decide +kernel
  have hNone : ((serve sampleConfig (sampleArrival "r")).runWith clearingDeclines).1.all
      (fun x => !commits x) = true := by
    decide +kernel
  refine (h _ _ s hRun 0).aborted _ [] s (List.append_nil _).symm hRun ?_ hVisible
  rw [oneRequest_events]
  simpa using hNone

def insertFails : (op : Sys) → op.Ans
  | .pgInsertReqid _ _ _ _ _ => .failed
  | .pgExec _ (.rollbackPrepared _) => false
  | op => op.calm

theorem row_belongs_insertFails :
    ∃ s, PgRun id sampleConfig (oneRequest sampleConfig (sampleArrival "r") insertFails) s ∧
      Belongs sampleConfig 0 (oneRequest sampleConfig (sampleArrival "r") insertFails) := by
  obtain ⟨s, hRun, -⟩ := oneRequest_run id sampleConfig (sampleArrival "r") insertFails
    (by decide +kernel)
  refine ⟨s, hRun, (row_belongs_iff hRun 0).1.mpr ?_⟩
  have hNone : ((serve sampleConfig (sampleArrival "r")).runWith insertFails).1.all
      (fun x => !writesRow x) = true := by
    decide +kernel
  rw [oneRequest_events]
  simpa using hNone

end Runs

end MiniVisa.RowVisibility
