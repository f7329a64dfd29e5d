import MiniVisa.Library.Pool
import Mathlib.Algebra.BigOperators.Group.Finset.Basic
import Mathlib.Algebra.BigOperators.Group.Finset.Piecewise

/-! # Counting over the programs of a pool

What all programs together have done is the sum of what each of them has done.
-/

namespace Interaction.Pool

set_option autoImplicit false

open Transition

variable {E : Type} {R : E → Type} {α W S A δ : Type} [DecidableEq δ]

def viewOf (view : Sigma R → List δ) : Label R S A → List δ
  | .acted _ event => view event
  | _ => []

theorem count_events {c : Setting R α W S A} {w₀ : W} {tr : List (Label R S A)} {s : State R α W}
    (hRun : Run (Step c) ⟨[], w₀⟩ tr s) (view : Sigma R → List δ) (d : δ) :
    (tr.flatMap (viewOf view)).count d =
      ∑ i ∈ Finset.range (starts tr).length, ((events i tr).flatMap view).count d := by
  induction hRun with
  | nil => rfl
  | @snoc tr s s' l hRun hStep ih =>
    have hThreaded := run_threaded hRun
    rw [List.flatMap_append, List.count_append, ih]
    cases hStep with
    | start x =>
      have hNew : events (starts tr).length tr = [] := hThreaded.unborn _ le_rfl
      have hOld : ∀ i, events i (tr ++ [.started x]) = events i tr := fun i => by
        simp [eventOf]
      simp only [starts_snoc, startOf, List.length_append, List.length_singleton,
        Finset.sum_range_succ, hOld, hNew]
      simp [viewOf]
    | @act j e k r w hProc hReact =>
      have hj : j < (starts tr).length := by
        rw [← hThreaded.length_eq]
        exact (List.getElem?_eq_some_iff.mp hProc).1
      have hEach : ∀ i, ((events i (tr ++ [.acted j ⟨e, r⟩])).flatMap view).count d =
          ((events i tr).flatMap view).count d + if j = i then (view ⟨e, r⟩).count d else 0 := by
        intro i
        simp only [events_snoc, eventOf, List.flatMap_append, List.count_append]
        split <;> simp
      simp only [starts_snoc, startOf, List.append_nil, hEach, Finset.sum_add_distrib,
        Finset.sum_ite_eq, Finset.mem_range, if_pos hj]
      simp [viewOf]
    | move _ => simp [viewOf, startOf, eventOf]

end Interaction.Pool
