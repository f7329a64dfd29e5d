import Mathlib.Algebra.BigOperators.Group.List.Basic
import Mathlib.Algebra.GroupWithZero.Nat

/-! # Exchanging one entry of a list

Threads, connections and the like stand at fixed positions of a list, and a step of one of them
exchanges its entry. What is counted, added up or collected over the list changes by that entry.
-/

namespace Slots

set_option autoImplicit false

variable {α β : Type} {slots : List α} {i : Nat} {x : α}

/-- The entry at a position, with what stands before and behind it. -/
theorem exists_split (h : slots[i]? = some x) :
    ∃ before after, slots = before ++ x :: after ∧ ∀ y, slots.set i y = before ++ y :: after := by
  induction slots generalizing i with
  | nil => cases h
  | cons z slots ih =>
    cases i with
    | zero =>
      cases h
      exact ⟨[], slots, rfl, fun _ => rfl⟩
    | succ i =>
      obtain ⟨before, after, hEq, hSet⟩ := ih h
      refine ⟨z :: before, after, ?_, fun y => ?_⟩
      · rw [hEq, List.cons_append]
      · rw [List.set_cons_succ, hSet, List.cons_append]

theorem sum_set (weight : α → Nat) (h : slots[i]? = some x) (y : α) :
    ((slots.set i y).map weight).sum + weight x = (slots.map weight).sum + weight y := by
  obtain ⟨before, after, hEq, hSet⟩ := exists_split h
  rw [hSet, hEq]
  simp only [List.map_append, List.map_cons, List.sum_append, List.sum_cons]
  omega

theorem countP_set (p : α → Bool) (h : slots[i]? = some x) (y : α) :
    (slots.set i y).countP p + (p x).toNat = slots.countP p + (p y).toNat := by
  obtain ⟨before, after, hEq, hSet⟩ := exists_split h
  rw [hSet, hEq]
  simp only [List.countP_append, List.countP_cons]
  cases p x <;> cases p y <;> simp <;> omega

theorem filterMap_set (f : α → Option β) (h : slots[i]? = some x) (y : α) :
    ((f x).toList ++ (slots.set i y).filterMap f).Perm ((f y).toList ++ slots.filterMap f) := by
  obtain ⟨before, after, hEq, hSet⟩ := exists_split h
  have hCons : ∀ z, (z :: after).filterMap f = (f z).toList ++ after.filterMap f := by
    intro z
    rw [List.filterMap_cons]
    cases f z <;> rfl
  have hFront : ∀ z, (before.filterMap f ++ ((f z).toList ++ after.filterMap f)).Perm
      ((f z).toList ++ (before.filterMap f ++ after.filterMap f)) :=
    fun z => List.perm_append_comm_assoc _ _ _
  rw [hSet, hEq, List.filterMap_append, List.filterMap_append, hCons, hCons]
  exact ((hFront y).append_left _).trans
    ((List.perm_append_comm_assoc _ _ _).trans ((hFront x).symm.append_left _))

theorem count_filterMap_set [BEq β] (f : α → Option β) (h : slots[i]? = some x) (y : α) (b : β) :
    ((slots.set i y).filterMap f).count b + (f x).toList.count b =
      (slots.filterMap f).count b + (f y).toList.count b := by
  have hCount := (filterMap_set f h y).countP_eq (· == b)
  simp only [List.countP_append] at hCount
  simp only [List.count]
  omega

theorem getElem?_set_cases {j : Nat} {y z : α} (hz : (slots.set i y)[j]? = some z) :
    j = i ∧ z = y ∨ j ≠ i ∧ slots[j]? = some z := by
  by_cases hEq : j = i
  · subst hEq
    have hLt : j < (slots.set j y).length := (List.getElem?_eq_some_iff.mp hz).1
    rw [List.length_set] at hLt
    rw [List.getElem?_set_self hLt] at hz
    exact .inl ⟨rfl, (Option.some.inj hz).symm⟩
  · rw [List.getElem?_set_ne (Ne.symm hEq)] at hz
    exact .inr ⟨hEq, hz⟩

/-- Where no value is there twice, one position has it. -/
theorem eq_of_nodup_filterMap {f : α → Option β} (hNodup : (slots.filterMap f).Nodup) {j : Nat}
    {y : α} {b : β} (hx : slots[i]? = some x) (hy : slots[j]? = some y) (hxb : f x = some b)
    (hyb : f y = some b) : i = j := by
  have hApart := List.pairwise_iff_getElem.mp (List.pairwise_filterMap.mp hNodup)
  obtain ⟨hi, rfl⟩ := List.getElem?_eq_some_iff.mp hx
  obtain ⟨hj, rfl⟩ := List.getElem?_eq_some_iff.mp hy
  obtain hLt | hEq | hLt := Nat.lt_trichotomy i j
  · exact absurd rfl (hApart i j hi hj hLt b hxb b hyb)
  · exact hEq
  · exact absurd rfl (hApart j i hj hi hLt b hyb b hxb)

end Slots
