import Mathlib.Data.List.Induction

/-! # Calls counted in windows of time

A fixed window is opened by a call and lasts a given time; the calls in it are counted. A sliding
window is any stretch of time of that length.
-/

namespace TimeWindow

set_option autoImplicit false

section Fixed

variable {α : Type} (window : Int) (time : α → Int)

def enter (calls : List α) (c : α) : List α :=
  match calls with
  | [] => [c]
  | first :: rest => if window ≤ time c - time first then [c] else first :: rest ++ [c]

def latest (calls : List α) : List α := calls.foldl (enter window time) []

def allows (limit : Int) (before : List α) (c : α) : Bool :=
  decide ((latest window time (before ++ [c])).length ≤ limit)

theorem enter_eq (calls : List α) (c : α) :
    enter window time calls c = [c] ∨ enter window time calls c = calls ++ [c] := by
  cases calls with
  | nil => exact .inl rfl
  | cons first rest =>
    unfold enter
    split
    · rename_i hNil
      cases hNil
    · rename_i hCons
      cases hCons
      split
      · exact .inl rfl
      · exact .inr rfl

variable {window time}

theorem latest_snoc (calls : List α) (c : α) :
    latest window time (calls ++ [c]) = enter window time (latest window time calls) c := by
  simp [latest]

variable (window time) in
theorem latest_length_le (calls : List α) : (latest window time calls).length ≤ calls.length := by
  induction calls using List.reverseRecOn with
  | nil => exact Nat.le_refl _
  | append_singleton calls c ih =>
    rw [latest_snoc]
    rcases enter_eq window time (latest window time calls) c with h | h
    · simp [h]
    · simpa [h] using ih

/-- Where each decision on the calls of a kind is that of their own windows, such a window has no
more allowed calls than the limit says. -/
theorem allowed_le {limit : Int} (hLimit : 0 ≤ limit) {kind allowed : α → Bool} {calls : List α}
    (h : ∀ before c, before ++ [c] <+: calls → kind c = true →
      allowed c = allows window time limit (before.filter kind) c) :
    (((latest window time (calls.filter kind)).filter allowed).length : Int) ≤ limit := by
  induction calls using List.reverseRecOn with
  | nil => simpa [latest] using hLimit
  | append_singleton calls c ih =>
    have hBefore := ih fun before d hPrefix => h before d (hPrefix.trans (List.prefix_append _ _))
    rw [List.filter_append]
    cases hKind : kind c with
    | false => simpa [hKind] using hBefore
    | true =>
      have hLast := h calls c List.prefix_rfl hKind
      unfold allows at hLast
      rw [List.filter_cons_of_pos hKind, List.filter_nil, latest_snoc]
      rw [latest_snoc] at hLast
      generalize latest window time (calls.filter kind) = opened at hBefore hLast ⊢
      have hCount : (opened.filter allowed).length ≤ opened.length := List.length_filter_le _ _
      rcases enter_eq window time opened c with hNew | hJoins
      · rw [hNew] at hLast ⊢
        cases hAllowed : allowed c with
        | false => simpa [hAllowed] using hLimit
        | true =>
          rw [hAllowed] at hLast
          have hOne := of_decide_eq_true hLast.symm
          simpa [hAllowed] using hOne
      · rw [hJoins] at hLast ⊢
        cases hAllowed : allowed c with
        | false => simpa [hAllowed] using hBefore
        | true =>
          rw [hAllowed] at hLast
          have hNumber := of_decide_eq_true hLast.symm
          simp only [List.length_append, List.length_singleton, List.filter_append, hAllowed,
            List.filter_cons_of_pos, List.filter_nil] at hNumber ⊢
          omega

end Fixed

section Sliding

def within (window t : Int) (times : List Int) : List Int :=
  times.filter fun time => t ≤ time && time < t + window

def Bounded (window limit : Int) (times : List Int) : Prop :=
  ∀ t, ((within window t times).length : Int) ≤ limit

variable {window limit : Int} {before since : List Int}

/-- Times that lie a whole window after all the earlier ones share no stretch with these. -/
theorem Bounded.append (hBefore : Bounded window limit before)
    (hSince : (since.length : Int) ≤ limit) (hApart : ∀ a ∈ before, ∀ b ∈ since, a + window ≤ b) :
    Bounded window limit (before ++ since) := by
  intro t
  have hSplit : within window t (before ++ since) = within window t before ++ within window t since :=
    List.filter_append _ _
  have hCount : (within window t since).length ≤ since.length := List.length_filter_le _ _
  rw [hSplit]
  cases hOld : within window t before with
  | nil =>
    rw [List.nil_append]
    omega
  | cons a rest =>
    have ha : a ∈ within window t before := by simp [hOld]
    have hNone : within window t since = [] := by
      apply List.filter_eq_nil_iff.mpr
      intro b hb hIn
      obtain ⟨hMem, hFrom⟩ := List.mem_filter.mp ha
      have hFar := hApart a hMem b hb
      simp only [Bool.and_eq_true, decide_eq_true_eq] at hFrom hIn
      omega
    rw [hNone, List.append_nil, ← hOld]
    exact hBefore t

end Sliding

end TimeWindow
