import Mathlib.Data.List.Basic

/-! # Cutting a stream at a separator

The finished frames of a stream, and what has arrived of the unfinished one. A stream that
arrives in pieces has the frames of the whole stream if the unfinished frame is carried over.
-/

namespace Framing

set_option autoImplicit false

variable {α β τ : Type} [DecidableEq α] {sep : α}

def cut (sep : α) : List α → List (List α) × List α
  | [] => ([], [])
  | a :: xs =>
    if a = sep then ([] :: (cut sep xs).1, (cut sep xs).2)
    else
      match (cut sep xs).1 with
      | [] => ([], a :: (cut sep xs).2)
      | f :: fs => ((a :: f) :: fs, (cut sep xs).2)

def frames (sep : α) (xs : List α) : List (List α) := (cut sep xs).1

def remainder (sep : α) (xs : List α) : List α := (cut sep xs).2

@[simp] theorem frames_nil : frames sep ([] : List α) = [] := rfl

@[simp] theorem remainder_nil : remainder sep ([] : List α) = [] := rfl

theorem frames_cons_sep (xs : List α) : frames sep (sep :: xs) = [] :: frames sep xs := by
  simp [frames, cut]

theorem remainder_cons_sep (xs : List α) : remainder sep (sep :: xs) = remainder sep xs := by
  simp [remainder, cut]

theorem frames_cons {a : α} (ha : a ≠ sep) (xs : List α) :
    frames sep (a :: xs) = match frames sep xs with
      | [] => []
      | f :: fs => (a :: f) :: fs := by
  simp only [frames, cut, if_neg ha]
  split <;> rfl

theorem remainder_cons {a : α} (ha : a ≠ sep) (xs : List α) :
    remainder sep (a :: xs) = match frames sep xs with
      | [] => a :: remainder sep xs
      | _ :: _ => remainder sep xs := by
  simp only [frames, remainder, cut, if_neg ha]
  split <;> rfl

theorem frames_eq_nil_iff {xs : List α} : frames sep xs = [] ↔ sep ∉ xs := by
  induction xs with
  | nil => simp
  | cons a xs ih =>
    by_cases ha : a = sep
    · subst ha
      simp [frames_cons_sep]
    · rw [frames_cons ha]
      cases hFrames : frames sep xs with
      | nil => simp [ih.mp hFrames, Ne.symm ha]
      | cons f fs =>
        have hMem : sep ∈ xs := by
          by_contra hNot
          rw [ih.mpr hNot] at hFrames
          cases hFrames
        simp [hMem]

theorem remainder_of_not_mem {xs : List α} (h : sep ∉ xs) : remainder sep xs = xs := by
  induction xs with
  | nil => rfl
  | cons a xs ih =>
    simp only [List.mem_cons, not_or] at h
    rw [remainder_cons (Ne.symm h.1), frames_eq_nil_iff.mpr h.2, ih h.2]

theorem eq_append_of_frames {xs f : List α} {fs : List (List α)} (h : frames sep xs = f :: fs) :
    ∃ rest, xs = f ++ sep :: rest ∧ sep ∉ f := by
  induction xs generalizing f fs with
  | nil => cases h
  | cons a xs ih =>
    by_cases ha : a = sep
    · subst ha
      rw [frames_cons_sep] at h
      cases h
      exact ⟨xs, rfl, List.not_mem_nil⟩
    · rw [frames_cons ha] at h
      split at h
      · cases h
      · rename_i f' fs' hFrames
        cases h
        obtain ⟨rest, hxs, hNot⟩ := ih hFrames
        exact ⟨rest, by rw [hxs]; rfl, by simp [hNot, Ne.symm ha]⟩

/-- The frames with their separators, and the unfinished frame, are the whole stream. -/
theorem frames_flatMap (xs : List α) :
    ((frames sep xs).flatMap fun f => f ++ [sep]) ++ remainder sep xs = xs := by
  induction xs with
  | nil => rfl
  | cons a xs ih =>
    by_cases ha : a = sep
    · subst ha
      rw [frames_cons_sep, remainder_cons_sep, List.flatMap_cons, List.append_assoc, ih]
      rfl
    · rw [frames_cons ha, remainder_cons ha]
      cases hFrames : frames sep xs with
      | nil =>
        rw [hFrames] at ih
        simpa using ih
      | cons f fs =>
        rw [hFrames] at ih
        simpa using ih

theorem remainder_suffix (xs : List α) : remainder sep xs <:+ xs := ⟨_, frames_flatMap xs⟩

theorem not_mem_remainder (xs : List α) : sep ∉ remainder sep xs := by
  induction xs with
  | nil => exact List.not_mem_nil
  | cons a xs ih =>
    by_cases ha : a = sep
    · subst ha
      rwa [remainder_cons_sep]
    · rw [remainder_cons ha]
      split
      · simp [ih, Ne.symm ha]
      · exact ih

/-- The piece `ys` finishes the frame that `xs` left unfinished, if it finishes any. -/
theorem frames_append (xs ys : List α) :
    frames sep (xs ++ ys) = match frames sep ys with
      | [] => frames sep xs
      | f :: fs => frames sep xs ++ (remainder sep xs ++ f) :: fs := by
  induction xs with
  | nil =>
    rw [List.nil_append]
    split <;> simp_all
  | cons a xs ih =>
    rw [List.cons_append]
    by_cases ha : a = sep
    · subst ha
      rw [frames_cons_sep, frames_cons_sep, remainder_cons_sep, ih]
      split <;> rfl
    · rw [frames_cons ha, frames_cons ha, remainder_cons ha, ih]
      cases frames sep ys <;> cases frames sep xs <;> rfl

theorem mem_frames_append {xs ys f : List α} (h : f ∈ frames sep xs) :
    f ∈ frames sep (xs ++ ys) := by
  rw [frames_append]
  split
  · exact h
  · exact List.mem_append_left _ h

theorem frames_append_cons (xs : List α) {ys f : List α} {fs : List (List α)}
    (h : frames sep ys = f :: fs) :
    frames sep (xs ++ ys) = frames sep xs ++ (remainder sep xs ++ f) :: fs := by
  rw [frames_append, h]

theorem frames_prefix {xs ys : List α} (h : xs <+: ys) : frames sep xs <+: frames sep ys := by
  obtain ⟨t, rfl⟩ := h
  rw [frames_append]
  split
  · exact List.prefix_rfl
  · exact List.prefix_append _ _

/-- Behind a separator the frames begin anew. -/
theorem frames_append_of_remainder {xs : List α} (h : remainder sep xs = []) (ys : List α) :
    frames sep (xs ++ ys) = frames sep xs ++ frames sep ys := by
  rw [frames_append, h]
  cases frames sep ys with
  | nil => exact (List.append_nil _).symm
  | cons f fs => rfl

theorem not_mem_frame {xs f : List α} (h : f ∈ frames sep xs) : sep ∉ f := by
  induction xs generalizing f with
  | nil => cases h
  | cons a xs ih =>
    by_cases ha : a = sep
    · subst ha
      rw [frames_cons_sep] at h
      cases h with
      | head => exact List.not_mem_nil
      | tail _ hMem => exact ih hMem
    · rw [frames_cons ha] at h
      cases hFrames : frames sep xs with
      | nil =>
        rw [hFrames] at h
        cases h
      | cons g gs =>
        rw [hFrames] at h ih
        cases h with
        | head =>
          have hFirst := ih List.mem_cons_self
          exact List.not_mem_cons_of_ne_of_not_mem (Ne.symm ha) hFirst
        | tail _ hMem => exact ih (List.mem_cons_of_mem _ hMem)

theorem frame_subset {xs f : List α} (h : f ∈ frames sep xs) : f ⊆ xs := by
  induction xs generalizing f with
  | nil => cases h
  | cons a xs ih =>
    by_cases ha : a = sep
    · subst ha
      rw [frames_cons_sep] at h
      rcases List.mem_cons.mp h with rfl | h
      · exact List.nil_subset _
      · exact List.subset_cons_of_subset a (ih h)
    · rw [frames_cons ha] at h
      split at h
      · cases h
      · rename_i f' fs' hFrames
        rcases List.mem_cons.mp h with rfl | h
        · exact List.cons_subset_cons a (ih (by simp [hFrames]))
        · exact List.subset_cons_of_subset a (ih (by simp [hFrames, h]))

theorem frames_append_sep {f : List α} (hf : sep ∉ f) (rest : List α) :
    frames sep (f ++ sep :: rest) = f :: frames sep rest := by
  induction f with
  | nil => exact frames_cons_sep rest
  | cons a f ih =>
    simp only [List.mem_cons, not_or] at hf
    rw [List.cons_append, frames_cons (Ne.symm hf.1), ih hf.2]

theorem frames_of_lines {fs : List (List α)} (h : ∀ f ∈ fs, sep ∉ f) (rest : List α) :
    frames sep ((fs.flatMap fun f => f ++ [sep]) ++ rest) = fs ++ frames sep rest := by
  induction fs with
  | nil => rfl
  | cons f fs ih =>
    obtain ⟨hf, hfs⟩ := List.forall_mem_cons.mp h
    simp only [List.flatMap_cons, List.append_assoc, List.cons_append, List.nil_append]
    rw [frames_append_sep hf, ih hfs]

theorem remainder_append_sep (xs : List α) {rest : List α} (h : sep ∉ rest) :
    remainder sep (xs ++ sep :: rest) = rest := by
  induction xs with
  | nil => rw [List.nil_append, remainder_cons_sep, remainder_of_not_mem h]
  | cons a xs ih =>
    rw [List.cons_append]
    by_cases ha : a = sep
    · rw [ha, remainder_cons_sep, ih]
    · have hFrames : frames sep (xs ++ sep :: rest) ≠ [] := by simp [frames_eq_nil_iff]
      rw [remainder_cons ha]
      split
      · contradiction
      · exact ih

/-- A text is cut at its last separator in one way only. -/
theorem append_sep_inj {xs ys tail tail' : List α} (hTail : sep ∉ tail) (hTail' : sep ∉ tail')
    (h : xs ++ sep :: tail = ys ++ sep :: tail') : xs = ys ∧ tail = tail' := by
  have hLast : remainder sep (xs ++ sep :: tail) = remainder sep (ys ++ sep :: tail') := by rw [h]
  rw [remainder_append_sep xs hTail, remainder_append_sep ys hTail'] at hLast
  subst hLast
  exact ⟨List.append_cancel_right h, rfl⟩

section Blocks

variable {got want rest : τ → List β}

theorem length_flatMap_le (rest : τ → List β) {items : List τ}
    (h : ∀ x ∈ items, (got x).length ≤ (want x).length) :
    (items.flatMap fun x => got x ++ rest x).length ≤
      (items.flatMap fun x => want x ++ rest x).length := by
  induction items with
  | nil => simp
  | cons x items ih =>
    have hHead := h x List.mem_cons_self
    have hTail := ih fun y hy => h y (List.mem_cons_of_mem _ hy)
    simp only [List.flatMap_cons, List.length_append]
    omega

/-- Two sequences that agree but for the beginnings of their blocks, none of which is longer in
the first, are equal only block by block. -/
theorem flatMap_eq_of_le {items : List τ} (h : ∀ x ∈ items, (got x).length ≤ (want x).length)
    (hEq : (items.flatMap fun x => got x ++ rest x) = items.flatMap fun x => want x ++ rest x) :
    ∀ x ∈ items, got x = want x := by
  induction items with
  | nil => simp
  | cons x items ih =>
    have hHead := h x List.mem_cons_self
    have hTail : ∀ y ∈ items, (got y).length ≤ (want y).length :=
      fun y hy => h y (List.mem_cons_of_mem _ hy)
    have hLe := length_flatMap_le rest hTail
    have hLength := congrArg List.length hEq
    simp only [List.flatMap_cons, List.length_append, List.append_assoc] at hLength hEq
    obtain ⟨hBlock, hRest⟩ := List.append_inj hEq (by omega)
    have hItems := ih hTail (List.append_cancel_left hRest)
    intro y hy
    rcases List.mem_cons.mp hy with rfl | hy
    · exact hBlock
    · exact hItems y hy

end Blocks

end Framing
