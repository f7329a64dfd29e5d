import Mathlib.Data.List.Basic

/-! # Sessions of a transactional server with prepared transactions

A session is outside a transaction block, inside one, or inside one that an error has spoiled.
What a client inserts inside a block stays there until the block is prepared under a name; a
prepared transaction belongs to the server, and committing it makes its rows visible. A
statement outside a block commits by itself. Rows bear the client that inserted them, and a
block the client whose BEGIN opened it. For every command the server's answer is an input;
some answers are impossible in some states.
-/

namespace Sessions

set_option autoImplicit false

inductive Block (κ : Type)
  | idle
  | active (opener : κ) (rows : List κ)
  | failed (opener : κ)

structure Server (S N κ : Type) where
  block : S → Block κ
  prepared : List (N × List κ)
  visible : List κ

inductive Command (N : Type)
  | begin
  | insert
  | prepare (name : N)
  | rollback
  | commitPrepared (name : N)
  | rollbackPrepared (name : N)

namespace Server

variable {S N κ : Type}

def initial : Server S N κ := ⟨fun _ => .idle, [], []⟩

section Parts

def names (w : Server S N κ) : List N := w.prepared.map (·.1)

def store (w : Server S N κ) (name : N) (rows : List κ) : Server S N κ :=
  { w with prepared := w.prepared ++ [(name, rows)] }

def publish (w : Server S N κ) (rows : List κ) : Server S N κ :=
  { w with visible := w.visible ++ rows }

@[simp] theorem store_block (w : Server S N κ) (name : N) (rows : List κ) :
    (w.store name rows).block = w.block := rfl

@[simp] theorem publish_block (w : Server S N κ) (rows : List κ) :
    (w.publish rows).block = w.block := rfl

@[simp] theorem mem_names_store (w : Server S N κ) (name : N) (rows : List κ) :
    name ∈ (w.store name rows).names := by
  simp [names, store]

def setBlock [DecidableEq S] (w : Server S N κ) (s : S) (b : Block κ) : Server S N κ :=
  { w with block := fun t => if t = s then b else w.block t }

@[simp] theorem setBlock_block [DecidableEq S] (w : Server S N κ) (s t : S) (b : Block κ) :
    (w.setBlock s b).block t = if t = s then b else w.block t := rfl

@[simp] theorem setBlock_names [DecidableEq S] (w : Server S N κ) (s : S) (b : Block κ) :
    (w.setBlock s b).names = w.names := rfl

def rowsOf [DecidableEq N] (w : Server S N κ) (name : N) : List κ :=
  (w.prepared.filter fun e => e.1 = name).flatMap (·.2)

def forget [DecidableEq N] (w : Server S N κ) (name : N) : Server S N κ :=
  { w with prepared := w.prepared.filter fun e => e.1 ≠ name }

@[simp] theorem forget_block [DecidableEq N] (w : Server S N κ) (name : N) :
    (w.forget name).block = w.block := rfl

@[simp] theorem not_mem_names_forget [DecidableEq N] (w : Server S N κ) (name : N) :
    name ∉ (w.forget name).names := by
  simp [names, forget]

end Parts

variable [DecidableEq S] [DecidableEq N]

/-- The commands that name a prepared transaction are refused inside a block and spoil it. -/
def outside (w : Server S N κ) (s : S) (ok : Bool) (next : Option (Server S N κ)) :
    Option (Server S N κ) :=
  match w.block s with
  | .idle => next
  | .active opener _ => if ok then none else some (w.setBlock s (.failed opener))
  | .failed opener => if ok then none else some (w.setBlock s (.failed opener))

/-- The command of a client on a session, with the server's answer. -/
def step (w : Server S N κ) (s : S) (who : κ) : Command N → Bool → Option (Server S N κ)
  | .begin, true =>
    match w.block s with
    | .idle => some (w.setBlock s (.active who []))
    | .active _ _ => some w
    | .failed _ => none
  | .begin, false => some w
  | .insert, true =>
    match w.block s with
    | .idle => some (w.publish [who])
    | .active opener rows => some (w.setBlock s (.active opener (rows ++ [who])))
    | .failed _ => none
  | .insert, false =>
    match w.block s with
    | .idle => some w
    | .active opener _ => some (w.setBlock s (.failed opener))
    | .failed _ => some w
  | .prepare name, true =>
    match w.block s with
    -- accepted with a warning; nothing is prepared
    | .idle => some w
    | .active _ rows =>
      if name ∈ w.names then none else some ((w.setBlock s .idle).store name rows)
    -- the server answers with the tag of a rollback
    | .failed _ => some (w.setBlock s .idle)
  | .prepare _, false => some (w.setBlock s .idle)
  | .rollback, true => some (w.setBlock s .idle)
  | .rollback, false =>
    match w.block s with
    | .idle => some w
    | _ => none
  | .commitPrepared name, ok =>
    w.outside s ok <|
      if ok then if name ∈ w.names then some ((w.publish (w.rowsOf name)).forget name) else none
      else some w
  | .rollbackPrepared name, ok =>
    w.outside s ok <|
      if ok = decide (name ∈ w.names) then some (w.forget name) else none

section Steps

/-- What a command can do, case by case, with the answer it does it with. -/
inductive Effect (w : Server S N κ) (s : S) (who : κ) : Command N → Bool → Server S N κ → Prop
  | opened (h : w.block s = .idle) : Effect w s who .begin true (w.setBlock s (.active who []))
  | nested {opener : κ} {rows : List κ} (h : w.block s = .active opener rows) :
      Effect w s who .begin true w
  | notOpened : Effect w s who .begin false w
  | committed (h : w.block s = .idle) : Effect w s who .insert true (w.publish [who])
  | added {opener : κ} {rows : List κ} (h : w.block s = .active opener rows) :
      Effect w s who .insert true (w.setBlock s (.active opener (rows ++ [who])))
  | spoiled {opener : κ} {rows : List κ} (h : w.block s = .active opener rows) :
      Effect w s who .insert false (w.setBlock s (.failed opener))
  | notAdded (h : ∀ opener rows, w.block s ≠ .active opener rows) :
      Effect w s who .insert false w
  | warned {name : N} (h : w.block s = .idle) : Effect w s who (.prepare name) true w
  | prepared {name : N} {opener : κ} {rows : List κ} (h : w.block s = .active opener rows)
      (hNew : name ∉ w.names) :
      Effect w s who (.prepare name) true ((w.setBlock s .idle).store name rows)
  | dissolved {name : N} {opener : κ} (h : w.block s = .failed opener) :
      Effect w s who (.prepare name) true (w.setBlock s .idle)
  | cancelled {name : N} : Effect w s who (.prepare name) false (w.setBlock s .idle)
  | rolledBack : Effect w s who .rollback true (w.setBlock s .idle)
  | notRolledBack (h : w.block s = .idle) : Effect w s who .rollback false w
  | barred {name : N} {cmd : Command N} {opener : κ}
      (hCmd : cmd = .commitPrepared name ∨ cmd = .rollbackPrepared name)
      (h : (∃ rows, w.block s = .active opener rows) ∨ w.block s = .failed opener) :
      Effect w s who cmd false (w.setBlock s (.failed opener))
  | published {name : N} (h : w.block s = .idle) (hName : name ∈ w.names) :
      Effect w s who (.commitPrepared name) true ((w.publish (w.rowsOf name)).forget name)
  | notPublished {name : N} (h : w.block s = .idle) : Effect w s who (.commitPrepared name) false w
  | forgotten {name : N} (h : w.block s = .idle) :
      Effect w s who (.rollbackPrepared name) (decide (name ∈ w.names)) (w.forget name)

variable {w w' : Server S N κ} {s : S} {who : κ} {ok : Bool}

theorem Effect.step {cmd : Command N} (h : Effect w s who cmd ok w') :
    w.step s who cmd ok = some w' := by
  cases h with
  | opened h => simp [Server.step, h]
  | nested h => simp [Server.step, h]
  | notOpened => rfl
  | committed h => simp [Server.step, h]
  | added h => simp [Server.step, h]
  | spoiled h => simp [Server.step, h]
  | notAdded h =>
    cases hBlock : w.block s with
    | idle => simp [Server.step, hBlock]
    | active opener rows => exact absurd hBlock (h opener rows)
    | failed opener => simp [Server.step, hBlock]
  | warned h => simp [Server.step, h]
  | prepared h hNew => simp [Server.step, h, hNew]
  | dissolved h => simp [Server.step, h]
  | cancelled => rfl
  | rolledBack => rfl
  | notRolledBack h => simp [Server.step, h]
  | barred hCmd h =>
    rcases hCmd with rfl | rfl
    all_goals rcases h with ⟨rows, h⟩ | h <;> simp [Server.step, Server.outside, h]
  | published h hName => simp [Server.step, Server.outside, h, hName]
  | notPublished h => simp [Server.step, Server.outside, h]
  | forgotten h => simp [Server.step, Server.outside, h]

theorem effect_outside {name : N} {cmd : Command N} {next : Option (Server S N κ)}
    (hCmd : cmd = .commitPrepared name ∨ cmd = .rollbackPrepared name)
    (hNext : w.block s = .idle → next = some w' → Effect w s who cmd ok w')
    (h : w.outside s ok next = some w') : Effect w s who cmd ok w' := by
  unfold outside at h
  split at h
  · rename_i hBlock
    exact hNext hBlock h
  · rename_i opener rows hBlock
    cases ok with
    | true => cases h
    | false =>
      cases h
      exact .barred hCmd (.inl ⟨rows, hBlock⟩)
  · rename_i opener hBlock
    cases ok with
    | true => cases h
    | false =>
      cases h
      exact .barred hCmd (.inr hBlock)

theorem effect_of_begin (h : w.step s who .begin ok = some w') : Effect w s who .begin ok w' := by
  cases ok with
  | false =>
    cases h
    exact .notOpened
  | true =>
    cases hBlock : w.block s with
    | idle =>
      simp only [step, hBlock, Option.some.injEq] at h
      exact h ▸ .opened hBlock
    | active opener rows =>
      simp only [step, hBlock, Option.some.injEq] at h
      exact h ▸ .nested hBlock
    | failed opener => simp [step, hBlock] at h

theorem effect_of_insert (h : w.step s who .insert ok = some w') :
    Effect w s who .insert ok w' := by
  cases ok with
  | false =>
    cases hBlock : w.block s with
    | idle =>
      simp only [step, hBlock, Option.some.injEq] at h
      exact h ▸ .notAdded (by simp [hBlock])
    | active opener rows =>
      simp only [step, hBlock, Option.some.injEq] at h
      exact h ▸ .spoiled hBlock
    | failed opener =>
      simp only [step, hBlock, Option.some.injEq] at h
      exact h ▸ .notAdded (by simp [hBlock])
  | true =>
    cases hBlock : w.block s with
    | idle =>
      simp only [step, hBlock, Option.some.injEq] at h
      exact h ▸ .committed hBlock
    | active opener rows =>
      simp only [step, hBlock, Option.some.injEq] at h
      exact h ▸ .added hBlock
    | failed opener => simp [step, hBlock] at h

theorem effect_of_prepare {name : N} (h : w.step s who (.prepare name) ok = some w') :
    Effect w s who (.prepare name) ok w' := by
  cases ok with
  | false =>
    cases h
    exact .cancelled
  | true =>
    cases hBlock : w.block s with
    | idle =>
      simp only [step, hBlock, Option.some.injEq] at h
      exact h ▸ .warned hBlock
    | active opener rows =>
      simp only [step, hBlock] at h
      split at h
      · cases h
      · rename_i hNew
        cases h
        exact .prepared hBlock hNew
    | failed opener =>
      simp only [step, hBlock, Option.some.injEq] at h
      exact h ▸ .dissolved hBlock

theorem effect_of_rollback (h : w.step s who .rollback ok = some w') :
    Effect w s who .rollback ok w' := by
  cases ok with
  | true =>
    cases h
    exact .rolledBack
  | false =>
    cases hBlock : w.block s with
    | idle =>
      simp only [step, hBlock, Option.some.injEq] at h
      exact h ▸ .notRolledBack hBlock
    | _ => simp [step, hBlock] at h

/-- There is no other effect. -/
theorem effect_of_step {cmd : Command N} (h : w.step s who cmd ok = some w') :
    Effect w s who cmd ok w' := by
  cases cmd with
  | begin => exact effect_of_begin h
  | insert => exact effect_of_insert h
  | prepare name => exact effect_of_prepare h
  | rollback => exact effect_of_rollback h
  | commitPrepared name =>
    refine effect_outside (.inl rfl) (fun hBlock hNext => ?_) h
    cases ok with
    | false =>
      cases hNext
      exact .notPublished hBlock
    | true =>
      simp only [if_true] at hNext
      split at hNext
      · rename_i hName
        cases hNext
        exact .published hBlock hName
      · cases hNext
  | rollbackPrepared name =>
    refine effect_outside (.inr rfl) (fun hBlock hNext => ?_) h
    split at hNext
    · rename_i hOk
      cases hNext
      exact hOk ▸ .forgotten hBlock
    · cases hNext

/-- The commands that name a prepared transaction take it away, or fail. -/
theorem step_finish {name : N} {cmd : Command N}
    (hCmd : cmd = .commitPrepared name ∨ cmd = .rollbackPrepared name)
    (h : w.step s who cmd ok = some w') :
    (∀ e ∈ w'.prepared, e ∈ w.prepared) ∧
      ∀ t opener rows, w'.block t = .active opener rows → w.block t = .active opener rows := by
  cases effect_of_step h with
  | barred =>
    refine ⟨fun e he => he, fun t opener rows hBlock => ?_⟩
    rw [setBlock_block] at hBlock
    split at hBlock
    · cases hBlock
    · exact hBlock
  | published => exact ⟨fun e he => List.mem_of_mem_filter he, fun _ _ _ hBlock => hBlock⟩
  | notPublished => exact ⟨fun _ he => he, fun _ _ _ hBlock => hBlock⟩
  | forgotten => exact ⟨fun e he => List.mem_of_mem_filter he, fun _ _ _ hBlock => hBlock⟩
  | _ => simp at hCmd

theorem step_rollback (h : w.step s who .rollback ok = some w') :
    w'.block s = .idle ∧ w'.prepared = w.prepared := by
  cases effect_of_step h with
  | rolledBack => exact ⟨by simp, rfl⟩
  | notRolledBack hBlock => exact ⟨hBlock, rfl⟩
  | barred hCmd => simp at hCmd

/-- What PREPARE stores is the block it ends. -/
theorem step_prepare {name : N} (h : w.step s who (.prepare name) ok = some w') :
    w'.block s = .idle ∧ (w'.prepared = w.prepared ∨ ∃ opener rows, ok = true ∧
      w.block s = .active opener rows ∧ w'.prepared = w.prepared ++ [(name, rows)]) := by
  cases effect_of_step h with
  | warned hBlock => exact ⟨hBlock, .inl rfl⟩
  | @prepared _ opener rows hBlock => exact ⟨by simp, .inr ⟨opener, rows, rfl, hBlock, rfl⟩⟩
  | dissolved => exact ⟨by simp, .inl rfl⟩
  | cancelled => exact ⟨by simp, .inl rfl⟩
  | barred hCmd => simp at hCmd

theorem step_insert (h : w.step s who .insert ok = some w') :
    w'.prepared = w.prepared ∧ ∀ opener rows, w'.block s = .active opener rows →
      ok = true ∧ ∃ before, w.block s = .active opener before ∧ rows = before ++ [who] := by
  cases effect_of_step h with
  | committed hBlock => exact ⟨rfl, by simp [hBlock]⟩
  | @added opener before hBlock =>
    refine ⟨rfl, fun opener' rows hActive => ?_⟩
    rw [setBlock_block, if_pos rfl] at hActive
    cases hActive
    exact ⟨rfl, before, hBlock, rfl⟩
  | spoiled => exact ⟨rfl, by simp⟩
  | notAdded hBlock => exact ⟨rfl, fun opener rows hActive => absurd hActive (hBlock opener rows)⟩
  | barred hCmd => simp at hCmd

theorem step_begin (h : w.step s who .begin ok = some w') :
    w'.prepared = w.prepared ∧ ∀ opener rows, w'.block s = .active opener rows →
      rows = [] ∨ w.block s = .active opener rows := by
  cases effect_of_step h with
  | opened =>
    refine ⟨rfl, fun opener rows hActive => .inl ?_⟩
    rw [setBlock_block, if_pos rfl] at hActive
    cases hActive
    rfl
  | nested => exact ⟨rfl, fun _ _ hActive => .inr hActive⟩
  | notOpened => exact ⟨rfl, fun _ _ hActive => .inr hActive⟩
  | barred hCmd => simp at hCmd

/-- Every command has an answer. -/
theorem step_answered (w : Server S N κ) (s : S) (who : κ) (cmd : Command N) :
    ∃ ok, (w.step s who cmd ok).isSome = true := by
  cases cmd with
  | begin => exact ⟨false, rfl⟩
  | insert =>
    refine ⟨false, ?_⟩
    simp only [step]
    split <;> rfl
  | prepare name => exact ⟨false, rfl⟩
  | rollback => exact ⟨true, rfl⟩
  | commitPrepared name =>
    refine ⟨false, ?_⟩
    simp only [step, outside]
    split <;> rfl
  | rollbackPrepared name =>
    cases hBlock : w.block s with
    | idle => exact ⟨decide (name ∈ w.names), by simp [step, outside, hBlock]⟩
    | _ => exact ⟨false, by simp [step, outside, hBlock]⟩

end Steps

end Server

end Sessions
