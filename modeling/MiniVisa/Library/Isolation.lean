import MiniVisa.Library.Sessions
import Mathlib.Logic.Function.Basic

/-! # Clients that keep out of each other's blocks

Every client is given a server of its own, which sees only the commands of that client. As long
as no client sends a command into a block that another has opened, and no two use the same name
for a prepared transaction, the shared server is put together from these private ones: it
answers as they do, and what one client does leaves the rows of the others where they are.
-/

namespace Sessions

set_option autoImplicit false

variable {S N κ : Type}

namespace Block

def rows : Block κ → List κ
  | .active _ rows => rows
  | _ => []

/-- The block, if one is open, was opened by `i` and holds rows of `i` only. -/
def OwnedBy (i : κ) : Block κ → Prop
  | .idle => True
  | .active opener rows => opener = i ∧ ∀ r ∈ rows, r = i
  | .failed opener => opener = i

/-- No other client has a block open here. -/
def FreeFor (i : κ) : Block κ → Prop
  | .idle => True
  | .active opener _ => opener = i
  | .failed opener => opener = i

instance [DecidableEq κ] (i : κ) : (b : Block κ) → Decidable (b.FreeFor i)
  | .idle => inferInstanceAs (Decidable True)
  | .active opener _ => inferInstanceAs (Decidable (opener = i))
  | .failed opener => inferInstanceAs (Decidable (opener = i))

theorem OwnedBy.rows_eq {i : κ} {b : Block κ} (h : b.OwnedBy i) : ∀ r ∈ b.rows, r = i := by
  cases b with
  | active opener rows => exact h.2
  | _ => exact nofun

theorem OwnedBy.eq_of_freeFor {i j : κ} {b : Block κ} (h : b.OwnedBy j) (hOpen : b ≠ .idle)
    (hFree : b.FreeFor i) : j = i := by
  cases b with
  | idle => exact absurd rfl hOpen
  | active opener rows => exact h.1.symm.trans hFree
  | failed opener => exact h.symm.trans hFree

end Block

open Function

section Blocks

variable {p : κ → S → Block κ} {b : S → Block κ} {i j : κ} {s : S}

/-- Every open block is one client's block. -/
structure SplitBlocks (p : κ → S → Block κ) (b : S → Block κ) : Prop where
  owned : ∀ i s, (p i s).OwnedBy i
  eq : ∀ i s, p i s ≠ .idle → b s = p i s
  of : ∀ s, b s ≠ .idle → ∃ i, b s = p i s

theorem SplitBlocks.same (h : SplitBlocks p b) (hFree : (b s).FreeFor i) : b s = p i s := by
  by_cases hOpen : b s = .idle
  · by_contra hNe
    have hOwn : p i s ≠ .idle := fun hIdle => hNe (hOpen.trans hIdle.symm)
    exact hNe (h.eq i s hOwn)
  · obtain ⟨j, hj⟩ := h.of s hOpen
    have hOwned : (b s).OwnedBy j := hj ▸ h.owned j s
    obtain rfl := hOwned.eq_of_freeFor hOpen hFree
    exact hj

/-- The rows of a client are those of its own blocks. -/
theorem SplitBlocks.filter_rows [DecidableEq κ] (h : SplitBlocks p b) (j : κ) (s : S) :
    (b s).rows.filter (· = j) = (p j s).rows := by
  by_cases hOpen : p j s = .idle
  · rw [hOpen]
    refine List.filter_eq_nil_iff.mpr fun r hr hrj => ?_
    have hNe : b s ≠ .idle := by
      intro hIdle
      rw [hIdle] at hr
      cases hr
    obtain ⟨k, hk⟩ := h.of s hNe
    have hrk : r = k := (h.owned k s).rows_eq r (hk ▸ hr)
    have hkj : k = j := hrk.symm.trans (by simpa using hrj)
    rw [hk, hkj] at hNe
    exact hNe hOpen
  · rw [h.eq j s hOpen]
    exact List.filter_eq_self.mpr fun r hr => by simpa using (h.owned j s).rows_eq r hr

theorem SplitBlocks.set [DecidableEq κ] [DecidableEq S] (h : SplitBlocks p b)
    (hFree : (b s).FreeFor i) {c : Block κ} (hc : c.OwnedBy i) :
    SplitBlocks (update p i fun t => if t = s then c else p i t)
      (fun t => if t = s then c else b t) := by
  refine ⟨fun j t => ?_, fun j t hOpen => ?_, fun t hOpen => ?_⟩
  · by_cases hji : j = i
    · subst hji
      rw [update_self]
      split
      · exact hc
      · exact h.owned j t
    · rw [update_of_ne hji]
      exact h.owned j t
  · by_cases hji : j = i
    · subst hji
      rw [update_self] at hOpen ⊢
      split
      · rfl
      · rename_i hts
        rw [if_neg hts] at hOpen
        exact h.eq j t hOpen
    · rw [update_of_ne hji] at hOpen ⊢
      rw [if_neg, h.eq j t hOpen]
      rintro rfl
      -- a block of `j` here would have kept `i` out
      rw [h.eq j t hOpen] at hFree
      exact hji ((h.owned j t).eq_of_freeFor hOpen hFree)
  · split at hOpen
    · rename_i hts
      exact ⟨i, by simp [hts]⟩
    · rename_i hts
      obtain ⟨j, hj⟩ := h.of t hOpen
      refine ⟨j, ?_⟩
      by_cases hji : j = i
      · subst hji
        simpa [hts] using hj
      · simpa [hts, hji] using hj

end Blocks

section Prepared

variable [DecidableEq N] {p : κ → List (N × List κ)} {l : List (N × List κ)} {i j : κ} {name : N}

def names (l : List (N × List κ)) : List N := l.map (·.1)

/-- Every prepared transaction is one client's, and no two clients use the same name. -/
structure SplitPrepared (p : κ → List (N × List κ)) (l : List (N × List κ)) : Prop where
  rows : ∀ i, ∀ e ∈ p i, ∀ r ∈ e.2, r = i
  eq : ∀ i, p i = l.filter fun e => e.1 ∈ names (p i)
  of : ∀ name ∈ names l, ∃ i, name ∈ names (p i)
  apart : ∀ i j name, name ∈ names (p i) → name ∈ names (p j) → i = j

theorem SplitPrepared.mem_names (h : SplitPrepared p l) (hName : name ∈ names (p i)) :
    name ∈ names l := by
  obtain ⟨e, he, rfl⟩ := List.mem_map.mp hName
  rw [h.eq i] at he
  exact List.mem_map_of_mem (List.mem_of_mem_filter he)

theorem SplitPrepared.mem_names_iff (h : SplitPrepared p l)
    (hApart : ∀ j, j ≠ i → name ∉ names (p j)) : name ∈ names l ↔ name ∈ names (p i) := by
  refine ⟨fun hName => ?_, h.mem_names⟩
  obtain ⟨j, hj⟩ := h.of name hName
  by_cases hij : j = i
  · exact hij ▸ hj
  · exact absurd hj (hApart j hij)

theorem SplitPrepared.exists_mem (h : SplitPrepared p l) {e : N × List κ} (he : e ∈ l) :
    ∃ i, e ∈ p i := by
  obtain ⟨i, hi⟩ := h.of e.1 (List.mem_map_of_mem he)
  refine ⟨i, ?_⟩
  rw [h.eq i]
  exact List.mem_filter.mpr ⟨he, by simpa using hi⟩

theorem SplitPrepared.filter_name (h : SplitPrepared p l) (hName : name ∈ names (p i)) :
    (p i).filter (fun e => e.1 = name) = l.filter fun e => e.1 = name := by
  rw [h.eq i, List.filter_filter]
  refine List.filter_congr fun e _ => ?_
  by_cases he : e.1 = name <;> simp [he, hName]

theorem SplitPrepared.filter_rows [DecidableEq κ] (h : SplitPrepared p l) (j : κ) :
    l.filter (fun e => j ∈ e.2) = (p j).filter fun e => j ∈ e.2 := by
  rw [h.eq j, List.filter_filter]
  refine List.filter_congr fun e he => ?_
  by_cases hj : j ∈ e.2
  · obtain ⟨k, hk⟩ := h.exists_mem he
    obtain rfl := h.rows k e hk j hj
    have hName : e.1 ∈ names (p j) := List.mem_map_of_mem hk
    simp [hj, hName]
  · simp [hj]

variable [DecidableEq κ]

theorem SplitPrepared.store (h : SplitPrepared p l) {rows : List κ} (hRows : ∀ r ∈ rows, r = i)
    (hNew : name ∉ names l) :
    SplitPrepared (update p i (p i ++ [(name, rows)])) (l ++ [(name, rows)]) := by
  have hSelf : ∀ n, n ∈ names (p i ++ [(name, rows)]) ↔ n ∈ names (p i) ∨ n = name := by
    simp [names]
  have hNot : ∀ j, name ∉ names (p j) := fun j hj => hNew (h.mem_names hj)
  refine ⟨fun j e he => ?_, fun j => ?_, fun n hn => ?_, fun j k n hj hk => ?_⟩
  · by_cases hji : j = i
    · subst hji
      rw [update_self] at he
      rcases List.mem_append.mp he with he | he
      · exact h.rows j e he
      · cases List.mem_singleton.mp he
        exact hRows
    · rw [update_of_ne hji] at he
      exact h.rows j e he
  · by_cases hji : j = i
    · subst hji
      rw [update_self, List.filter_append]
      congr 1
      · conv_lhs => rw [h.eq j]
        refine List.filter_congr fun e he => ?_
        have hNe : e.1 ≠ name := fun hEq => hNew (hEq ▸ List.mem_map_of_mem he)
        simp [hSelf, hNe]
      · simp [hSelf]
    · rw [update_of_ne hji, List.filter_append]
      simpa [hNot j] using h.eq j
  · simp only [names, List.map_append, List.mem_append, List.map_singleton,
      List.mem_singleton] at hn
    rcases hn with hn | rfl
    · obtain ⟨j, hj⟩ := h.of n hn
      refine ⟨j, ?_⟩
      by_cases hji : j = i
      · subst hji
        simp [hSelf, hj]
      · simpa [hji] using hj
    · exact ⟨i, by simp [hSelf]⟩
  · have hCase : ∀ k, n ∈ names (update p i (p i ++ [(name, rows)]) k) →
        n ∈ names (p k) ∨ k = i ∧ n = name := by
      intro k hk
      by_cases hki : k = i
      · subst hki
        rw [update_self, hSelf] at hk
        exact hk.imp_right fun hn => ⟨rfl, hn⟩
      · exact .inl (by simpa [hki] using hk)
    rcases hCase j hj, hCase k hk with ⟨hj | ⟨hji, hn⟩, hk | ⟨hki, hm⟩⟩
    · exact h.apart j k n hj hk
    · exact absurd (hm ▸ hj) (hNot j)
    · exact absurd (hn ▸ hk) (hNot k)
    · exact hji.trans hki.symm

theorem SplitPrepared.forget (h : SplitPrepared p l) (hApart : ∀ j, j ≠ i → name ∉ names (p j)) :
    SplitPrepared (update p i ((p i).filter fun e => e.1 ≠ name)) (l.filter fun e => e.1 ≠ name) := by
  have hMem : ∀ (l : List (N × List κ)) n,
      n ∈ names (l.filter fun e => e.1 ≠ name) ↔ n ∈ names l ∧ n ≠ name := by
    intro l n
    simp only [names, List.mem_map, List.mem_filter, decide_eq_true_eq]
    constructor
    · rintro ⟨e, ⟨he, hne⟩, rfl⟩
      exact ⟨⟨e, he, rfl⟩, hne⟩
    · rintro ⟨⟨e, he, rfl⟩, hne⟩
      exact ⟨e, ⟨he, hne⟩, rfl⟩
  have hNames : ∀ j n, n ∈ names (update p i ((p i).filter fun e => e.1 ≠ name) j) ↔
      n ∈ names (p j) ∧ n ≠ name := by
    intro j n
    by_cases hji : j = i
    · subst hji
      rw [update_self, hMem]
    · rw [update_of_ne hji]
      refine ⟨fun hn => ⟨hn, ?_⟩, And.left⟩
      rintro rfl
      exact hApart j hji hn
  refine ⟨fun j e he => ?_, fun j => ?_, fun n hn => ?_, fun j k n hj hk => ?_⟩
  · by_cases hji : j = i
    · subst hji
      rw [update_self] at he
      exact h.rows j e (List.mem_of_mem_filter he)
    · rw [update_of_ne hji] at he
      exact h.rows j e he
  · have hFilter : (p j).filter (fun e => e.1 ≠ name) = update p i ((p i).filter fun e => e.1 ≠ name) j := by
      by_cases hji : j = i
      · subst hji
        rw [update_self]
      · rw [update_of_ne hji]
        refine List.filter_eq_self.mpr fun e he => ?_
        have hNe : e.1 ≠ name := fun hEq => hApart j hji (hEq ▸ List.mem_map_of_mem he)
        simpa using hNe
    conv_lhs => rw [← hFilter, h.eq j]
    rw [List.filter_filter, List.filter_filter]
    refine List.filter_congr fun e _ => ?_
    rw [Bool.eq_iff_iff]
    simp only [Bool.and_eq_true, decide_eq_true_eq, hNames]
    exact ⟨fun ⟨hNe, hIn⟩ => ⟨⟨hIn, hNe⟩, hNe⟩, fun ⟨⟨hIn, hNe⟩, _⟩ => ⟨hNe, hIn⟩⟩
  · rw [hMem] at hn
    obtain ⟨j, hj⟩ := h.of n hn.1
    exact ⟨j, (hNames j n).mpr ⟨hj, hn.2⟩⟩
  · exact h.apart j k n ((hNames j n).mp hj).1 ((hNames k n).mp hk).1

end Prepared

/-- The name of a prepared transaction in a command. -/
def Command.name? : Command N → Option N
  | .prepare name => some name
  | .commitPrepared name => some name
  | .rollbackPrepared name => some name
  | _ => none

namespace Server

/-- The rows that a client has anywhere on the server stay where they are. -/
structure Untouched [DecidableEq κ] (j : κ) (w w' : Server S N κ) : Prop where
  blocks : ∀ s, (w'.block s).rows.filter (· = j) = (w.block s).rows.filter (· = j)
  prepared : w'.prepared.filter (fun e => j ∈ e.2) = w.prepared.filter fun e => j ∈ e.2
  visible : w'.visible.filter (· = j) = w.visible.filter (· = j)

variable [DecidableEq N] [DecidableEq κ]

/-- The shared server is put together from private ones. -/
structure Composed (p : κ → Server S N κ) (w : Server S N κ) : Prop where
  blocks : SplitBlocks (fun i => (p i).block) w.block
  prepared : SplitPrepared (fun i => (p i).prepared) w.prepared
  visible : ∀ i, (p i).visible = w.visible.filter (· = i)

variable {p p' : κ → Server S N κ} {w w' q : Server S N κ} {i j : κ} {s : S} {name : N}

theorem Composed.initial : Composed (fun _ : κ => (.initial : Server S N κ)) .initial where
  blocks := ⟨fun _ _ => trivial, fun _ _ h => absurd rfl h, fun _ h => absurd rfl h⟩
  prepared := ⟨fun _ => nofun, fun _ => rfl, nofun, fun _ _ _ => nofun⟩
  visible _ := rfl

theorem Composed.untouched (h : Composed p w) (h' : Composed p' w') (hSame : p' j = p j) :
    Untouched j w w' := by
  refine ⟨fun s => ?_, ?_, ?_⟩
  · rw [h.blocks.filter_rows, h'.blocks.filter_rows, hSame]
  · rw [h.prepared.filter_rows, h'.prepared.filter_rows, hSame]
  · rw [← h.visible, ← h'.visible, hSame]

theorem Composed.of_update
    (hBlocks : SplitBlocks (update (fun j => (p j).block) i q.block) w'.block)
    (hPrepared : SplitPrepared (update (fun j => (p j).prepared) i q.prepared) w'.prepared)
    (hVisible : ∀ j, update (fun j => (p j).visible) i q.visible j = w'.visible.filter (· = j)) :
    Composed (update p i q) w' := by
  have hEq : ∀ {β : Type} (f : Server S N κ → β), (fun j => f (update p i q j)) =
      update (fun j => f (p j)) i (f q) := by
    intro β f
    funext j
    exact apply_update (fun _ => f) p i q j
  refine ⟨?_, ?_, fun j => ?_⟩
  · rw [hEq fun v => v.block]
    exact hBlocks
  · rw [hEq fun v => v.prepared]
    exact hPrepared
  · rw [← hVisible j]
    exact congrFun (hEq fun v => v.visible) j

theorem Composed.visible_publish (h : Composed p w) {rows : List κ} (hRows : ∀ r ∈ rows, r = i)
    (j : κ) : update (fun j => (p j).visible) i ((p i).visible ++ rows) j =
      (w.visible ++ rows).filter (· = j) := by
  rw [List.filter_append, ← h.visible]
  by_cases hji : j = i
  · subst hji
    have hAll : rows.filter (· = j) = rows :=
      List.filter_eq_self.mpr fun r hr => by simpa using hRows r hr
    rw [update_self, hAll]
  · have hNone : rows.filter (· = j) = [] :=
      List.filter_eq_nil_iff.mpr fun r hr => by simpa [hRows r hr] using Ne.symm hji
    rw [update_of_ne hji, hNone, List.append_nil]

section Changes

variable (h : Composed p w)
include h

theorem Composed.same : Composed (update p i (p i)) w := by
  rwa [update_eq_self]

theorem Composed.setBlock [DecidableEq S] (hFree : (w.block s).FreeFor i) {c : Block κ}
    (hc : c.OwnedBy i) : Composed (update p i ((p i).setBlock s c)) (w.setBlock s c) :=
  .of_update (h.blocks.set hFree hc) (by rw [Server.setBlock, update_eq_self]; exact h.prepared)
    fun j => by rw [Server.setBlock, update_eq_self]; exact h.visible j

theorem Composed.publish {rows : List κ} (hRows : ∀ r ∈ rows, r = i) :
    Composed (update p i ((p i).publish rows)) (w.publish rows) :=
  .of_update (by rw [Server.publish, update_eq_self]; exact h.blocks)
    (by rw [Server.publish, update_eq_self]; exact h.prepared) (h.visible_publish hRows)

theorem Composed.store {rows : List κ} (hRows : ∀ r ∈ rows, r = i) (hNew : name ∉ w.names) :
    Composed (update p i ((p i).store name rows)) (w.store name rows) :=
  .of_update (by rw [Server.store, update_eq_self]; exact h.blocks) (h.prepared.store hRows hNew)
    fun j => by rw [Server.store, update_eq_self]; exact h.visible j

theorem Composed.forget (hApart : ∀ j, j ≠ i → name ∉ (p j).names) :
    Composed (update p i ((p i).forget name)) (w.forget name) :=
  .of_update (by rw [Server.forget, update_eq_self]; exact h.blocks) (h.prepared.forget hApart)
    fun j => by rw [Server.forget, update_eq_self]; exact h.visible j

end Changes

variable [DecidableEq S]

omit [DecidableEq κ] in
theorem names_step {who : κ} {cmd : Command N} {ok : Bool} (h : w.step s who cmd ok = some w') :
    ∀ n ∈ w'.names, n ∈ w.names ∨ cmd.name? = some n := by
  have hOf : (∀ e ∈ w'.prepared, e ∈ w.prepared) → ∀ n ∈ w'.names, n ∈ w.names ∨ cmd.name? = some n := by
    intro hSub n hn
    obtain ⟨e, he, rfl⟩ := List.mem_map.mp hn
    exact .inl (List.mem_map_of_mem (hSub e he))
  cases cmd with
  | begin => exact hOf fun e he => (step_begin h).1 ▸ he
  | insert => exact hOf fun e he => (step_insert h).1 ▸ he
  | rollback => exact hOf fun e he => (step_rollback h).2 ▸ he
  | commitPrepared name => exact hOf (step_finish (.inl rfl) h).1
  | rollbackPrepared name => exact hOf (step_finish (.inr rfl) h).1
  | prepare name =>
    rcases (step_prepare h).2 with hEq | ⟨opener, rows, -, -, hEq⟩
    · exact hOf fun e he => hEq ▸ he
    · intro n hn
      obtain ⟨e, he, rfl⟩ := List.mem_map.mp hn
      rw [hEq] at he
      rcases List.mem_append.mp he with he | he
      · exact .inl (List.mem_map_of_mem he)
      · cases List.mem_singleton.mp he
        exact .inr rfl

/-- A command into a block of one's own, or into none, is answered as on the private server. -/
theorem Composed.step (h : Composed p w) {cmd : Command N} {ok : Bool}
    (hFree : (w.block s).FreeFor i)
    (hApart : ∀ name, cmd.name? = some name → ∀ j, j ≠ i → name ∉ (p j).names)
    (hStep : w.step s i cmd ok = some w') :
    ∃ q, (p i).step s i cmd ok = some q ∧ Composed (update p i q) w' := by
  have hSame := h.blocks.same hFree
  have hOwned := h.blocks.owned i s
  rw [← hSame] at hOwned
  have hIdle : Composed (update p i ((p i).setBlock s .idle)) (w.setBlock s .idle) :=
    h.setBlock hFree trivial
  -- the private server has the same block, so each effect is an effect there too
  cases effect_of_step hStep with
  | opened hBlock => exact ⟨_, (Effect.opened (hSame ▸ hBlock)).step, h.setBlock hFree ⟨rfl, nofun⟩⟩
  | nested hBlock => exact ⟨_, (Effect.nested (hSame ▸ hBlock)).step, h.same⟩
  | notOpened => exact ⟨_, Effect.notOpened.step, h.same⟩
  | committed hBlock =>
    exact ⟨_, (Effect.committed (hSame ▸ hBlock)).step, h.publish (by simp)⟩
  | added hBlock =>
    rw [hBlock] at hOwned
    obtain ⟨rfl, hRows⟩ := hOwned
    refine ⟨_, (Effect.added (hSame ▸ hBlock)).step, h.setBlock hFree ⟨rfl, fun r hr => ?_⟩⟩
    rcases List.mem_append.mp hr with hr | hr
    · exact hRows r hr
    · exact List.mem_singleton.mp hr
  | spoiled hBlock =>
    rw [hBlock] at hOwned
    exact ⟨_, (Effect.spoiled (hSame ▸ hBlock)).step, h.setBlock hFree hOwned.1⟩
  | notAdded hBlock => exact ⟨_, (Effect.notAdded (hSame ▸ hBlock)).step, h.same⟩
  | warned hBlock => exact ⟨_, (Effect.warned (hSame ▸ hBlock)).step, h.same⟩
  | @prepared name opener rows hBlock hNew =>
    rw [hBlock] at hOwned
    have hNames := h.prepared.mem_names_iff (hApart name rfl)
    refine ⟨_, (Effect.prepared (hSame ▸ hBlock) fun hIn => hNew (hNames.mpr hIn)).step, ?_⟩
    simpa using hIdle.store hOwned.2 hNew
  | dissolved hBlock => exact ⟨_, (Effect.dissolved (hSame ▸ hBlock)).step, hIdle⟩
  | cancelled => exact ⟨_, Effect.cancelled.step, hIdle⟩
  | rolledBack => exact ⟨_, Effect.rolledBack.step, hIdle⟩
  | notRolledBack hBlock => exact ⟨_, (Effect.notRolledBack (hSame ▸ hBlock)).step, h.same⟩
  | @barred _ _ opener hCmd hBlock =>
    have hOpener : opener = i := by
      rcases hBlock with ⟨rows, hBlock⟩ | hBlock
      · rw [hBlock] at hOwned
        exact hOwned.1
      · rw [hBlock] at hOwned
        exact hOwned
    exact ⟨_, (Effect.barred hCmd (hSame ▸ hBlock)).step, h.setBlock hFree hOpener⟩
  | @published name hBlock hName =>
    have hOwn := (h.prepared.mem_names_iff (hApart name rfl)).mp hName
    have hRows : w.rowsOf name = (p i).rowsOf name := by
      rw [rowsOf, rowsOf, h.prepared.filter_name hOwn]
    have hMine : ∀ r ∈ (p i).rowsOf name, r = i := by
      intro r hr
      obtain ⟨e, he, hre⟩ := List.mem_flatMap.mp hr
      exact h.prepared.rows i e (List.mem_of_mem_filter he) r hre
    refine ⟨_, (Effect.published (hSame ▸ hBlock) hOwn).step, ?_⟩
    rw [hRows]
    have hForget := (h.publish hMine).forget (i := i) (fun j hj => by
      rw [update_of_ne hj]
      exact hApart name rfl j hj)
    simpa using hForget
  | notPublished hBlock => exact ⟨_, (Effect.notPublished (hSame ▸ hBlock)).step, h.same⟩
  | @forgotten name hBlock =>
    have hNames : name ∈ w.names ↔ name ∈ (p i).names :=
      h.prepared.mem_names_iff (hApart name rfl)
    refine ⟨_, ?_, h.forget (hApart name rfl)⟩
    rw [decide_eq_decide.mpr hNames]
    exact (Effect.forgotten (hSame ▸ hBlock)).step

end Server

end Sessions
