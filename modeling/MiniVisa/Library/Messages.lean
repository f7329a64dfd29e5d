import Mathlib.Data.List.Infix

/-! # Streams of messages that delimit themselves

A sender writes messages one after the other, and a reader takes a message off the front of what it
has got as soon as all of it is there. When the stream is cut somewhere the reader has the messages
before the cut, and keeps the rest.
-/

namespace Messages

set_option autoImplicit false

variable {β M V : Type}

/-- `value` is what the reader gets of a message; what comes later does not change what it has
got. -/
structure Format (β M V : Type) where
  frame : M → List β
  value : M → V
  parse : List β → Option (V × List β)
  parse_frame : ∀ m, parse (frame m) = some (value m, [])
  parse_append : ∀ s t v rest, parse s = some (v, rest) → parse (s ++ t) = some (v, rest ++ t)
  parse_nil : parse [] = none

namespace Format

variable (F : Format β M V)

def frames (ms : List M) : List β := ms.flatMap F.frame

def decodeFrom : Nat → List β → List V × List β
  | 0, s => ([], s)
  | n + 1, s =>
    match F.parse s with
    | none => ([], s)
    | some (v, rest) =>
      let (vs, left) := decodeFrom n rest
      (v :: vs, left)

/-- What the reader has got of the stream `s`, and what it keeps. -/
def decode (s : List β) : List V × List β := F.decodeFrom s.length s

variable {F}

theorem frame_ne_nil (m : M) : F.frame m ≠ [] := by
  intro hNil
  have hFrame := F.parse_frame m
  rw [hNil, F.parse_nil] at hFrame
  cases hFrame

theorem parse_frame_append (m : M) (rest : List β) :
    F.parse (F.frame m ++ rest) = some (F.value m, rest) :=
  F.parse_append _ rest _ _ (F.parse_frame m)

/-- A message whose end is missing is not taken. -/
theorem parse_short {m : M} {p : List β} (hPrefix : p <+: F.frame m) (hNe : p ≠ F.frame m) :
    F.parse p = none := by
  obtain ⟨q, hq⟩ := hPrefix
  cases hParse : F.parse p with
  | none => rfl
  | some taken =>
    have hWhole := F.parse_append p q taken.1 taken.2 hParse
    rw [hq, F.parse_frame, Option.some.injEq, Prod.mk.injEq] at hWhole
    have hEnd : q = [] := (List.append_eq_nil_iff.mp hWhole.2.symm).2
    rw [hEnd, List.append_nil] at hq
    exact absurd hq hNe

@[simp] theorem frames_cons (m : M) (ms : List M) : F.frames (m :: ms) = F.frame m ++ F.frames ms :=
  List.flatMap_cons

theorem decodeFrom_none {p : List β} (hp : F.parse p = none) (n : Nat) :
    F.decodeFrom n p = ([], p) := by
  cases n with
  | zero => rfl
  | succ n => rw [decodeFrom, hp]

theorem decodeFrom_frames (ms : List M) {p : List β} (hp : F.parse p = none) {n : Nat}
    (hn : ms.length ≤ n) : F.decodeFrom n (F.frames ms ++ p) = (ms.map F.value, p) := by
  induction ms generalizing n with
  | nil => exact decodeFrom_none hp n
  | cons m ms ih =>
    cases n with
    | zero => cases hn
    | succ n =>
      have hRest := ih (Nat.le_of_succ_le_succ hn)
      rw [frames_cons, List.append_assoc, decodeFrom, parse_frame_append]
      simp only [hRest, List.map_cons]

theorem length_le_frames (ms : List M) : ms.length ≤ (F.frames ms).length := by
  induction ms with
  | nil => exact Nat.zero_le _
  | cons m ms ih =>
    have hFrame := List.length_pos_iff.mpr (frame_ne_nil (F := F) m)
    rw [frames_cons, List.length_append, List.length_cons]
    omega

theorem decode_frames (ms : List M) {p : List β} (hp : F.parse p = none) :
    F.decode (F.frames ms ++ p) = (ms.map F.value, p) := by
  apply decodeFrom_frames ms hp
  have hLength := length_le_frames (F := F) ms
  rw [List.length_append]
  omega

/-- A cut stream is made of whole messages and the beginning of the next. -/
theorem exists_of_prefix {ms : List M} {s : List β} (h : s <+: F.frames ms) :
    ∃ k p, k ≤ ms.length ∧ s = F.frames (ms.take k) ++ p ∧ F.parse p = none ∧
      (k = ms.length → p = []) := by
  induction ms generalizing s with
  | nil =>
    obtain rfl := List.prefix_nil.mp h
    exact ⟨0, [], Nat.le_refl 0, rfl, F.parse_nil, fun _ => rfl⟩
  | cons m ms ih =>
    rw [frames_cons] at h
    by_cases hWhole : F.frame m <+: s
    · obtain ⟨s', rfl⟩ := hWhole
      obtain ⟨k, p, hk, rfl, hp, hEnd⟩ := ih ((List.prefix_append_right_inj _).mp h)
      refine ⟨k + 1, p, Nat.succ_le_succ hk, ?_, hp, fun hEq => hEnd (Nat.succ.inj hEq)⟩
      rw [List.take_succ_cons, frames_cons, List.append_assoc]
    · have hPart : s <+: F.frame m :=
        (List.prefix_or_prefix_of_prefix h (List.prefix_append _ _)).resolve_right hWhole
      have hNe : s ≠ F.frame m := by
        rintro rfl
        exact hWhole List.prefix_rfl
      exact ⟨0, s, Nat.zero_le _, rfl, parse_short hPart hNe, fun hEq => by cases hEq⟩

/-- Of a cut stream the reader has the messages before the cut, and all of them if there is none. -/
theorem decode_prefix {ms : List M} {s : List β} (h : s <+: F.frames ms) :
    ∃ k p, F.decode s = ((ms.take k).map F.value, p) ∧ s = F.frames (ms.take k) ++ p ∧
      (s = F.frames ms → k = ms.length ∧ p = []) := by
  obtain ⟨k, p, hk, rfl, hp, hEnd⟩ := exists_of_prefix h
  refine ⟨k, p, decode_frames _ hp, rfl, fun hAll => ?_⟩
  have hWhole := decode_frames (F := F) (ms.take k) hp
  have hAllFrames := decode_frames (F := F) ms F.parse_nil
  rw [List.append_nil] at hAllFrames
  rw [hAll, hAllFrames, Prod.mk.injEq] at hWhole
  have hLength := congrArg List.length hWhole.1
  rw [List.length_map, List.length_map, List.length_take] at hLength
  exact ⟨by omega, hWhole.2.symm⟩

end Format

end Messages
