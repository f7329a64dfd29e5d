import MiniVisa.Library.LinkedQueue

/-! # A list of linked cells with a pointer to its head only

A cell is appended behind the last one, which a walk from the head finds, and the first cell of a
kind is unlinked from wherever it stands. A walk takes fuel, since nothing but the shape of the heap
makes it end; a pointer to no cell ends it without a result.
-/

namespace LinkedList

set_option autoImplicit false

open LinkedQueue

variable {α : Type}

/-- `while (p->next) p = p->next;` -/
def lastFrom (h : Heap α) : Nat → Nat → Option Nat
  | 0, _ => none
  | fuel + 1, p => (h p).bind fun cell =>
    match cell.next with
    | none => some p
    | some q => lastFrom h fuel q

def append (h : Heap α) (head : Option Nat) (a fuel : Nat) : Option (Heap α × Option Nat) :=
  let h := h.setNext a none
  match head with
  | none => some (h, some a)
  | some p => (lastFrom h fuel p).map fun t => (h.setNext t (some a), some p)

/-- The walk of `unlinkFirst`, with the cell before the present one. -/
def unlinkFrom (ready : α → Bool) (h : Heap α) (head : Option Nat) :
    Nat → Option Nat → Option Nat → Option (Option Nat × Heap α × Option Nat)
  | _, _, none => some (none, h, head)
  | 0, _, some _ => none
  | fuel + 1, prev, some cur => (h cur).bind fun cell =>
    if ready cell.value then
      match prev with
      | some p => some (some cur, (h.setNext p cell.next).setNext cur none, head)
      | none => some (some cur, h.setNext cur none, cell.next)
    else unlinkFrom ready h head fuel (some cur) cell.next

def unlinkFirst (ready : α → Bool) (h : Heap α) (head : Option Nat) (fuel : Nat) :
    Option (Option Nat × Heap α × Option Nat) := unlinkFrom ready h head fuel none head

/-- `while (cur) { n = cur->next; free(cur); cur = n; }` -/
def freeFrom (h : Heap α) : Nat → Option Nat → Option (Heap α)
  | _, none => some h
  | 0, some _ => none
  | fuel + 1, some cur => (h cur).bind fun cell => freeFrom (h.free cur) fuel cell.next

structure Represents (h : Heap α) (head : Option Nat) (cells : List (Nat × α)) : Prop where
  chain : Chain h head cells
  nodup : (addresses cells).Nodup

theorem represents_empty (h : Heap α) : Represents h none [] := ⟨rfl, List.nodup_nil⟩

theorem Represents.frame {h h' : Heap α} {head : Option Nat} {cells : List (Nat × α)}
    (hr : Represents h head cells) (hEq : ∀ a ∈ addresses cells, h' a = h a) :
    Represents h' head cells := ⟨hr.chain.frame hEq, hr.nodup⟩

theorem setNext_of_ne {h : Heap α} {a b : Nat} {next : Option Nat} (hNe : b ≠ a) :
    h.setNext a next b = h b := Function.update_of_ne hNe _ _

theorem setNext_self {h : Heap α} {a : Nat} {x : α} {next next' : Option Nat}
    (ha : h a = some ⟨x, next⟩) : h.setNext a next' a = some ⟨x, next'⟩ := by
  rw [Heap.setNext, Function.update_self, ha]
  rfl

theorem setNext_of_not_mem {h : Heap α} {cells : List (Nat × α)} {a b : Nat} {next : Option Nat}
    (ha : a ∈ addresses cells) (hb : b ∉ addresses cells) : h.setNext a next b = h b :=
  setNext_of_ne fun hEq => hb (hEq ▸ ha)

theorem nodup_addresses_middle {before rest : List (Nat × α)} {a : Nat} {x : α} :
    (addresses (before ++ (a, x) :: rest)).Nodup ↔
      a ∉ addresses (before ++ rest) ∧ (addresses (before ++ rest)).Nodup := by
  rw [addresses, List.map_append, List.map_cons, List.nodup_middle, List.nodup_cons,
    ← List.map_append, addresses]

/-- A pointer in the middle of a chain may be turned to another chain. -/
theorem Chain.redirect {h : Heap α} {q next : Option Nat} {before rest rest' : List (Nat × α)}
    {p : Nat} {y : α} (hc : Chain h q (before ++ (p, y) :: rest)) (hBefore : p ∉ addresses before)
    (hNext : Chain h next rest') (hRest : p ∉ addresses rest') :
    Chain (h.setNext p next) q (before ++ (p, y) :: rest') := by
  induction before generalizing q with
  | nil =>
    obtain ⟨hq, old, hCell, -⟩ := hc
    refine ⟨hq, next, setNext_self hCell, hNext.frame fun b hb => setNext_of_ne ?_⟩
    rintro rfl
    exact hRest hb
  | cons cell before ih =>
    obtain ⟨hq, after, hCell, hTail⟩ := hc
    have hNe : cell.1 ≠ p := fun hEq => hBefore (hEq ▸ List.mem_cons_self)
    refine ⟨hq, after, ?_, ih hTail fun hMem => hBefore (List.mem_cons_of_mem _ hMem)⟩
    rw [setNext_of_ne hNe, hCell]

theorem Chain.exists_head {h : Heap α} {q : Option Nat} {cells : List (Nat × α)}
    (hc : Chain h q cells) (hNe : cells ≠ []) : ∃ p, q = some p :=
  Option.ne_none_iff_exists'.mp (mt hc.eq_none_iff.mp hNe)

theorem lastFrom_chain {h : Heap α} {cells : List (Nat × α)} {p t fuel : Nat} {y : α}
    (hc : Chain h (some p) (cells ++ [(t, y)])) (hFuel : cells.length < fuel) :
    lastFrom h fuel p = some t := by
  obtain ⟨fuel, rfl⟩ : ∃ k, fuel = k + 1 := ⟨fuel - 1, by omega⟩
  induction cells generalizing p fuel with
  | nil =>
    obtain ⟨⟨⟩, next, hCell, rfl⟩ := hc
    simp [lastFrom, hCell]
  | cons cell cells ih =>
    obtain ⟨⟨⟩, next, hCell, hRest⟩ := hc
    obtain ⟨q, rfl⟩ := Chain.exists_head hRest (by simp)
    rw [List.length_cons] at hFuel
    obtain ⟨fuel, rfl⟩ : ∃ k, fuel = k + 1 := ⟨fuel - 1, by omega⟩
    have hStep : lastFrom h (fuel + 1 + 1) cell.1 = lastFrom h (fuel + 1) q := by
      rw [lastFrom, hCell]
      rfl
    rw [hStep]
    exact ih hRest fuel (by omega)

/-- Appending a cell of its own makes the list longer and leaves other cells alone. -/
theorem Represents.append {h : Heap α} {head : Option Nat} {cells : List (Nat × α)} {a fuel : Nat}
    {x : α} {next : Option Nat} (hr : Represents h head cells) (ha : h a = some ⟨x, next⟩)
    (hNew : a ∉ addresses cells) (hFuel : cells.length ≤ fuel) :
    ∃ h' head', append h head a fuel = some (h', head') ∧
      Represents h' head' (cells ++ [(a, x)]) ∧
      ∀ b, b ∉ addresses (cells ++ [(a, x)]) → h' b = h b := by
  have hSelf : h.setNext a none a = some ⟨x, none⟩ := setNext_self ha
  have hKept : Represents (h.setNext a none) head cells := by
    apply hr.frame
    intro b hb
    exact setNext_of_ne fun hEq => hNew (hEq ▸ hb)
  have hNodup : (addresses (cells ++ [(a, x)])).Nodup := by
    rw [addresses_append]
    exact List.nodup_append_comm.mp (List.nodup_cons.mpr ⟨hNew, hr.nodup⟩)
  rcases List.eq_nil_or_concat cells with rfl | ⟨before, ⟨t, y⟩, rfl⟩
  · cases hr.chain
    refine ⟨_, _, rfl, ⟨⟨rfl, none, hSelf, rfl⟩, hNodup⟩, ?_⟩
    exact fun b hb => setNext_of_not_mem (by simp [addresses]) hb
  · rw [List.concat_eq_append] at hKept hNodup hNew hFuel ⊢
    obtain ⟨p, rfl⟩ := Chain.exists_head hKept.chain (by simp)
    have hLast : lastFrom (h.setNext a none) fuel p = some t := by
      apply lastFrom_chain hKept.chain
      simpa [Nat.succ_le_iff] using hFuel
    have hBefore : t ∉ addresses before := by
      have hOld := hKept.nodup
      rw [addresses_append, List.nodup_append] at hOld
      exact fun hMem => hOld.2.2 t hMem t (by simp [addresses]) rfl
    have hOther : t ≠ a := by
      rintro rfl
      exact hNew (by simp [addresses])
    refine ⟨(h.setNext a none).setNext t (some a), some p, ?_, ⟨?_, hNodup⟩, ?_⟩
    · simp only [LinkedList.append, hLast, Option.map_some]
    · rw [List.append_assoc]
      apply Chain.redirect hKept.chain hBefore
      · exact ⟨rfl, none, hSelf, rfl⟩
      · simpa [addresses] using hOther
    · intro b hb
      rw [setNext_of_not_mem _ hb, setNext_of_not_mem _ hb]
      · simp [addresses]
      · simp [addresses]

/-- Where the walk of `unlinkFirst` is: `before` lies behind it, `rest` before it. -/
structure Walked (ready : α → Bool) (h : Heap α) (head prev cur : Option Nat)
    (before rest : List (Nat × α)) : Prop where
  whole : Represents h head (before ++ rest)
  chain : Chain h cur rest
  prev_eq : prev = (addresses before).getLast?
  passed : ∀ c ∈ before, ready c.2 = false

/-- What taking the first cell of a kind does: none is found, or one after cells that are not of
the kind, and the others stay in their order. -/
inductive Unlinked (ready : α → Bool) (h : Heap α) (head : Option Nat) (cells : List (Nat × α)) :
    Option (Option Nat × Heap α × Option Nat) → Prop
  | absent : (∀ c ∈ cells, ready c.2 = false) → Unlinked ready h head cells (some (none, h, head))
  | found {before after : List (Nat × α)} {a : Nat} {x : α} {h' : Heap α} {head' : Option Nat} :
      cells = before ++ (a, x) :: after → (∀ c ∈ before, ready c.2 = false) → ready x = true →
      Represents h' head' (before ++ after) → h' a = some ⟨x, none⟩ →
      (∀ b, b ∉ addresses cells → h' b = h b) →
      Unlinked ready h head cells (some (some a, h', head'))

variable {ready : α → Bool} {h : Heap α} {head prev cur : Option Nat} {before rest : List (Nat × α)}

theorem Walked.unlink {a : Nat} {x : α} {next : Option Nat}
    (hw : Walked ready h head prev cur before ((a, x) :: rest)) (hCell : h a = some ⟨x, next⟩)
    (hRest : Chain h next rest) :
    ∃ h' head', (match prev with
        | some p => some (some a, (h.setNext p next).setNext a none, head)
        | none => some (some a, h.setNext a none, next)) = some (some a, h', head') ∧
      Represents h' head' (before ++ rest) ∧ h' a = some ⟨x, none⟩ ∧
      ∀ b, b ∉ addresses (before ++ (a, x) :: rest) → h' b = h b := by
  obtain ⟨hOut, hNodup⟩ := nodup_addresses_middle.mp hw.whole.nodup
  have hFrame : ∀ {h' : Heap α} b, b ∈ addresses (before ++ rest) → h'.setNext a none b = h' b :=
    fun b hb => setNext_of_ne fun hEq => hOut (hEq ▸ hb)
  have hPrev := hw.prev_eq
  rcases List.eq_nil_or_concat before with rfl | ⟨init, ⟨p, y⟩, rfl⟩
  · cases hPrev
    refine ⟨_, _, rfl, ⟨hRest.frame hFrame, hNodup⟩, setNext_self hCell, fun b hb => ?_⟩
    exact setNext_of_not_mem (by simp [addresses]) hb
  · rw [List.concat_eq_append] at hw hNodup hOut hFrame hPrev ⊢
    have hLast : prev = some p := by simpa [addresses] using hPrev
    have hNe : a ≠ p := by
      rintro rfl
      exact hOut (by simp [addresses])
    rw [List.append_assoc] at hFrame hNodup
    have hApart : p ∉ addresses init ∧ p ∉ addresses rest := by
      have hOnce := (nodup_addresses_middle.mp hNodup).1
      rwa [addresses_append, List.mem_append, not_or] at hOnce
    have hChain : Chain (h.setNext p next) head (init ++ (p, y) :: rest) := by
      have hWhole := hw.whole.chain
      rw [List.append_assoc] at hWhole
      exact Chain.redirect hWhole hApart.1 hRest hApart.2
    rw [hLast]
    refine ⟨_, _, rfl, ?_, ?_, fun b hb => ?_⟩
    · rw [List.append_assoc]
      exact ⟨hChain.frame hFrame, hNodup⟩
    · apply setNext_self
      rw [setNext_of_ne hNe, hCell]
    · rw [setNext_of_not_mem _ hb, setNext_of_not_mem _ hb]
      · simp [addresses]
      · simp [addresses]

theorem Walked.unlinkFrom {fuel : Nat} (hw : Walked ready h head prev cur before rest)
    (hFuel : rest.length ≤ fuel) :
    Unlinked ready h head (before ++ rest) (unlinkFrom ready h head fuel prev cur) := by
  induction rest generalizing before prev cur fuel with
  | nil =>
    cases hw.chain
    simp only [LinkedList.unlinkFrom]
    exact .absent (by simpa using hw.passed)
  | cons cell rest ih =>
    obtain ⟨a, x⟩ := cell
    obtain ⟨rfl, next, hCell, hRest⟩ := id hw.chain
    obtain ⟨fuel, rfl⟩ : ∃ k, fuel = k + 1 := ⟨fuel - 1, by rw [List.length_cons] at hFuel; omega⟩
    rw [LinkedList.unlinkFrom, hCell]
    dsimp only [Option.bind_some]
    split
    · rename_i hReady
      obtain ⟨h', head', hEq, hRepresents, hOut, hFrame⟩ := hw.unlink hCell hRest
      rw [hEq]
      exact .found rfl hw.passed hReady hRepresents hOut hFrame
    · rename_i hReady
      have hNext : Walked ready h head (some a) next (before ++ [(a, x)]) rest := by
        refine ⟨?_, hRest, by simp [addresses], ?_⟩
        · rw [List.append_assoc]
          exact hw.whole
        · intro c hc
          rcases List.mem_append.mp hc with hc | hc
          · exact hw.passed c hc
          · rw [List.mem_singleton.mp hc]
            exact Bool.not_eq_true _ ▸ hReady
      have hUnlinked := ih hNext (Nat.le_of_succ_le_succ hFuel)
      rwa [List.append_assoc] at hUnlinked

/-- With as much fuel as there are cells, the walk comes to an end and does what it should. -/
theorem Represents.unlinkFirst {cells : List (Nat × α)} {fuel : Nat} (hr : Represents h head cells)
    (hFuel : cells.length ≤ fuel) :
    Unlinked ready h head cells (unlinkFirst ready h head fuel) := by
  have hStart : Walked ready h head none head [] cells :=
    ⟨hr, hr.chain, rfl, List.forall_mem_nil _⟩
  exact hStart.unlinkFrom hFuel

section Fuel

variable {p t : Nat} {fuel fuel' : Nat}

theorem lastFrom_mono (hLe : fuel ≤ fuel') (hSome : lastFrom h fuel p = some t) :
    lastFrom h fuel' p = some t := by
  induction fuel generalizing p fuel' with
  | zero => cases hSome
  | succ fuel ih =>
    obtain ⟨fuel', rfl⟩ : ∃ k, fuel' = k + 1 := ⟨fuel' - 1, by omega⟩
    obtain ⟨⟨x, next⟩, hCell, hRest⟩ := Option.bind_eq_some_iff.mp hSome
    rw [lastFrom, hCell, Option.bind_some]
    cases next with
    | none => exact hRest
    | some q => exact ih (Nat.le_of_succ_le_succ hLe) hRest

theorem unlinkFrom_mono {r : Option Nat × Heap α × Option Nat} (hLe : fuel ≤ fuel')
    (hSome : unlinkFrom ready h head fuel prev cur = some r) :
    unlinkFrom ready h head fuel' prev cur = some r := by
  induction fuel generalizing prev cur fuel' with
  | zero =>
    cases cur with
    | none => simpa [LinkedList.unlinkFrom] using hSome
    | some c => cases hSome
  | succ fuel ih =>
    cases cur with
    | none => simpa [LinkedList.unlinkFrom] using hSome
    | some c =>
      obtain ⟨fuel', rfl⟩ : ∃ k, fuel' = k + 1 := ⟨fuel' - 1, by omega⟩
      obtain ⟨⟨x, next⟩, hCell, hRest⟩ := Option.bind_eq_some_iff.mp hSome
      rw [LinkedList.unlinkFrom, hCell, Option.bind_some]
      split at hRest
      · rename_i hReady
        rwa [if_pos hReady]
      · rename_i hReady
        rw [if_neg hReady]
        exact ih (Nat.le_of_succ_le_succ hLe) hRest

end Fuel

/-- No fuel makes the walk do anything else. -/
theorem Represents.unlinkFirst_of_some {cells : List (Nat × α)} {fuel : Nat}
    (hr : Represents h head cells) {r : Option Nat × Heap α × Option Nat}
    (hSome : LinkedList.unlinkFirst ready h head fuel = some r) :
    Unlinked ready h head cells (some r) := by
  have hEnough : Unlinked ready h head cells
      (LinkedList.unlinkFirst ready h head (fuel + cells.length)) :=
    hr.unlinkFirst (Nat.le_add_left _ _)
  have hSame := unlinkFrom_mono (Nat.le_add_right fuel cells.length) hSome
  rwa [LinkedList.unlinkFirst, hSame] at hEnough

theorem Represents.append_of_some {cells : List (Nat × α)} {a fuel : Nat} {x : α}
    {next : Option Nat} (hr : Represents h head cells) (ha : h a = some ⟨x, next⟩)
    (hNew : a ∉ addresses cells) {h' : Heap α} {head' : Option Nat}
    (hSome : LinkedList.append h head a fuel = some (h', head')) :
    Represents h' head' (cells ++ [(a, x)]) ∧
      ∀ b, b ∉ addresses (cells ++ [(a, x)]) → h' b = h b := by
  obtain ⟨h₁, head₁, hEnough, hAppended⟩ := hr.append ha hNew (Nat.le_add_left cells.length fuel)
  have hSame : LinkedList.append h head a (fuel + cells.length) = some (h', head') := by
    cases head with
    | none => exact hSome
    | some p =>
      obtain ⟨t, hLast, hEq⟩ := Option.map_eq_some_iff.mp hSome
      rw [LinkedList.append, lastFrom_mono (Nat.le_add_right fuel cells.length) hLast]
      exact congrArg some hEq
  cases hEnough.symm.trans hSame
  exact hAppended

end LinkedList
