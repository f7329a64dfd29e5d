import Mathlib.Data.List.Nodup
import Mathlib.Logic.Function.Basic

/-! # A queue of linked cells

Cells live in a heap and point to their successors; the queue has pointers to its first and its
last cell and a counter. Such a queue stands for the list of cells met from the head on.
-/

namespace LinkedQueue

set_option autoImplicit false

variable {α : Type}

structure Cell (α : Type) where
  value : α
  next : Option Nat

abbrev Heap (α : Type) := Nat → Option (Cell α)

structure Queue where
  head : Option Nat
  tail : Option Nat
  size : Nat

def Queue.empty : Queue := ⟨none, none, 0⟩

/-- `a->next = next`. -/
def Heap.setNext (h : Heap α) (a : Nat) (next : Option Nat) : Heap α :=
  Function.update h a ((h a).map fun cell => { cell with next := next })

def Heap.free (h : Heap α) (a : Nat) : Heap α := Function.update h a none

/-- Append the cell at `a`. -/
def link (h : Heap α) (q : Queue) (a : Nat) : Heap α × Queue :=
  match q.tail with
  | some t => (h.setNext t (some a), ⟨q.head, some a, q.size + 1⟩)
  | none => (h, ⟨some a, some a, q.size + 1⟩)

/-- Take the first cell off, if there is one. -/
def unlink (h : Heap α) (q : Queue) : Option Nat × Queue :=
  match q.head with
  | none => (none, q)
  | some a =>
    match (h a).bind (·.next) with
    | none => (some a, ⟨none, none, q.size - 1⟩)
    | some next => (some a, ⟨some next, q.tail, q.size - 1⟩)

/-- The cells from a pointer on, with their values. -/
def Chain (h : Heap α) : Option Nat → List (Nat × α) → Prop
  | p, [] => p = none
  | p, (a, x) :: cells => p = some a ∧ ∃ next, h a = some ⟨x, next⟩ ∧ Chain h next cells

def addresses (cells : List (Nat × α)) : List Nat := cells.map (·.1)

def values (cells : List (Nat × α)) : List α := cells.map (·.2)

@[simp] theorem addresses_append (cells cells' : List (Nat × α)) :
    addresses (cells ++ cells') = addresses cells ++ addresses cells' := List.map_append

/-- The queue stands for the list of cells. -/
structure Represents (h : Heap α) (q : Queue) (cells : List (Nat × α)) : Prop where
  chain : Chain h q.head cells
  tail : q.tail = (addresses cells).getLast?
  size : q.size = cells.length
  nodup : (addresses cells).Nodup

theorem represents_empty (h : Heap α) : Represents h .empty [] :=
  ⟨rfl, rfl, rfl, List.nodup_nil⟩

theorem Represents.eq_empty {h : Heap α} {q : Queue} (hq : Represents h q []) : q = .empty := by
  obtain ⟨head, tail, size⟩ := q
  obtain ⟨hChain, hTail, hSize, -⟩ := hq
  cases hChain
  cases hTail
  cases hSize
  rfl

/-- A chain does not see what happens elsewhere in the heap. -/
theorem Chain.frame {h h' : Heap α} {cells : List (Nat × α)} {p : Option Nat} (hc : Chain h p cells)
    (hEq : ∀ a ∈ addresses cells, h' a = h a) : Chain h' p cells := by
  induction cells generalizing p with
  | nil => exact hc
  | cons cell cells ih =>
    obtain ⟨hp, next, hCell, hRest⟩ := hc
    refine ⟨hp, next, ?_, ih hRest fun a ha => hEq a (List.mem_cons_of_mem _ ha)⟩
    rw [hEq cell.1 List.mem_cons_self, hCell]

theorem Chain.eq_none_iff {h : Heap α} {cells : List (Nat × α)} {p : Option Nat}
    (hc : Chain h p cells) : p = none ↔ cells = [] := by
  cases cells with
  | nil => exact iff_of_true hc rfl
  | cons cell cells =>
    have hSome : p ≠ none := by
      rw [hc.1]
      exact Option.some_ne_none _
    exact iff_of_false hSome (List.cons_ne_nil _ _)

theorem Chain.allocated {h : Heap α} {cells : List (Nat × α)} {p : Option Nat} (hc : Chain h p cells)
    {a : Nat} (ha : a ∈ addresses cells) : h a ≠ none := by
  induction cells generalizing p with
  | nil => cases ha
  | cons cell cells ih =>
    obtain ⟨-, next, hCell, hRest⟩ := hc
    rcases List.mem_cons.mp ha with rfl | ha
    · rw [hCell]
      exact Option.some_ne_none _
    · exact ih hRest ha

/-- A cell behind the last one makes the chain longer. -/
theorem Chain.snoc {h : Heap α} {cells : List (Nat × α)} {p : Option Nat} {t a : Nat} {y x : α}
    (hc : Chain h p (cells ++ [(t, y)])) (hNodup : (addresses (cells ++ [(t, y)])).Nodup)
    (ha : h a = some ⟨x, none⟩) (hNew : a ∉ addresses (cells ++ [(t, y)])) :
    Chain (h.setNext t (some a)) p (cells ++ [(t, y)] ++ [(a, x)]) := by
  have hNe : a ≠ t := by
    rintro rfl
    exact hNew (by simp [addresses])
  induction cells generalizing p with
  | nil =>
    obtain ⟨hp, next, hCell, hRest⟩ := hc
    refine ⟨hp, some a, ?_, rfl, none, ?_, rfl⟩
    · simp [Heap.setNext, hCell]
    · rw [Heap.setNext, Function.update_of_ne hNe, ha]
  | cons cell cells ih =>
    obtain ⟨hp, next, hCell, hRest⟩ := hc
    rw [List.cons_append, addresses, List.map_cons, List.nodup_cons] at hNodup
    have hHead : cell.1 ≠ t := by
      rintro hEq
      exact hNodup.1 (by simp [hEq])
    refine ⟨hp, next, ?_, ih hRest hNodup.2 fun hMem => hNew (List.mem_cons_of_mem _ hMem)⟩
    rw [Heap.setNext, Function.update_of_ne hHead, hCell]

theorem Represents.link {h : Heap α} {q : Queue} {cells : List (Nat × α)} {a : Nat} {x : α}
    (hq : Represents h q cells) (ha : h a = some ⟨x, none⟩) (hNew : a ∉ addresses cells) :
    Represents (link h q a).1 (link h q a).2 (cells ++ [(a, x)]) := by
  have hNodup : (addresses (cells ++ [(a, x)])).Nodup := by
    rw [addresses_append, List.nodup_append]
    refine ⟨hq.nodup, List.nodup_singleton _, ?_⟩
    rintro b hb c hc rfl
    rw [List.mem_singleton.mp hc] at hb
    exact hNew hb
  have hTail := hq.tail
  rcases List.eq_nil_or_concat cells with rfl | ⟨before, ⟨t, y⟩, rfl⟩
  · simp only [addresses, List.map_nil, List.getLast?_nil] at hTail
    simp only [LinkedQueue.link, hTail]
    exact ⟨⟨rfl, none, ha, rfl⟩, rfl, by simp [hq.size], hNodup⟩
  · rw [List.concat_eq_append] at hq hNew hNodup hTail ⊢
    have hLast : q.tail = some t := by simp [hTail, addresses]
    simp only [LinkedQueue.link, hLast]
    refine ⟨hq.chain.snoc hq.nodup ha hNew, ?_, by simp [hq.size], hNodup⟩
    simp [addresses]

theorem Represents.unlink {h : Heap α} {q : Queue} {a : Nat} {x : α} {cells : List (Nat × α)}
    (hq : Represents h q ((a, x) :: cells)) :
    (unlink h q).1 = some a ∧ Represents h (unlink h q).2 cells := by
  obtain ⟨hHead, next, hCell, hRest⟩ := hq.chain
  have hSize := hq.size
  have hTail := hq.tail
  have hNodup := (List.nodup_cons.mp hq.nodup).2
  simp only [LinkedQueue.unlink, hHead, hCell, Option.bind_some]
  cases cells with
  | nil =>
    cases hRest
    exact ⟨rfl, rfl, rfl, by simp [hSize], hNodup⟩
  | cons cell cells =>
    obtain ⟨rfl, -⟩ := id hRest
    refine ⟨rfl, hRest, ?_, by simp [hSize], hNodup⟩
    rw [hTail]
    simp [addresses]

theorem Represents.frame {h h' : Heap α} {q : Queue} {cells : List (Nat × α)}
    (hq : Represents h q cells) (hEq : ∀ a ∈ addresses cells, h' a = h a) :
    Represents h' q cells :=
  ⟨hq.chain.frame hEq, hq.tail, hq.size, hq.nodup⟩

theorem Represents.head_isNone_iff {h : Heap α} {q : Queue} {cells : List (Nat × α)}
    (hq : Represents h q cells) : q.head = none ↔ q.size = 0 := by
  rw [hq.size, hq.chain.eq_none_iff, List.length_eq_zero_iff]

theorem Represents.tail_isNone_iff {h : Heap α} {q : Queue} {cells : List (Nat × α)}
    (hq : Represents h q cells) : q.tail = none ↔ q.size = 0 := by
  rw [hq.tail, hq.size]
  simp [addresses]

end LinkedQueue
