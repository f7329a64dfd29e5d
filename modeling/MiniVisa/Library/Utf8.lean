import Mathlib.Data.List.Basic

/-! # UTF-8

A machine that reads one byte after the other and stands between characters, behind the first
byte of one, or before the last bytes of one. Overlong forms, surrogates and code points above
U+10FFFF are refused at the second byte.
-/

namespace Utf8

set_option autoImplicit false

inductive State
  | start
  | lead (b : UInt8)
  | tail (left : Nat)
  deriving DecidableEq

def isTail (b : UInt8) : Bool := 0x80 ≤ b && b ≤ 0xBF

/-- May the second byte follow the first? -/
def follows (a b : UInt8) : Bool :=
  isTail b && (a != 0xE0 || 0xA0 ≤ b) && (a != 0xED || b ≤ 0x9F) && (a != 0xF0 || 0x90 ≤ b) &&
    (a != 0xF4 || b ≤ 0x8F)

def step : State → UInt8 → Option State
  | .start, b =>
    if b < 0x80 then some .start else if 0xC2 ≤ b ∧ b ≤ 0xF4 then some (.lead b) else none
  | .lead a, b =>
    if follows a b then
      some (if a < 0xE0 then .start else if a < 0xF0 then .tail 0 else .tail 1)
    else none
  | .tail left, b =>
    if isTail b then
      some (match left with
        | 0 => .start
        | left + 1 => .tail left)
    else none

def run : State → List UInt8 → Option State
  | q, [] => some q
  | q, b :: s => (step q b).bind fun q => run q s

/-- The text is made of complete characters. -/
def Valid (s : List UInt8) : Prop := run .start s = some .start

instance (s : List UInt8) : Decidable (Valid s) := inferInstanceAs (Decidable (_ = _))

example : Valid [0xE2, 0x82, 0xAC] ∧ ¬Valid [0xE2, 0x82] ∧ ¬Valid [0xC0, 0xAF] := by decide

theorem run_append (q : State) (s t : List UInt8) :
    run q (s ++ t) = (run q s).bind fun q => run q t := by
  induction s generalizing q with
  | nil => rfl
  | cons b s ih =>
    rw [List.cons_append, run, run]
    cases step q b with
    | none => rfl
    | some q' => exact ih q'

theorem run_ascii {s : List UInt8} (h : ∀ b ∈ s, b < 0x80) : run .start s = some .start := by
  induction s with
  | nil => rfl
  | cons b s ih =>
    rw [run, step, if_pos (h b List.mem_cons_self)]
    exact ih fun c hc => h c (List.mem_cons_of_mem b hc)

/-- Inside a character no other one starts. -/
theorem step_ascii {q : State} {b : UInt8} (hb : b < 0x80) (hq : q ≠ .start) : step q b = none := by
  have hTail : isTail b = false := by
    have hNot : ¬(0x80 : UInt8) ≤ b := by simpa using hb
    simp [isTail, hNot]
  cases q with
  | start => exact absurd rfl hq
  | lead a => simp [step, follows, hTail]
  | tail left => simp [step, hTail]

theorem valid_ascii_append {s t : List UInt8} (h : ∀ b ∈ s, b < 0x80) : Valid (s ++ t) ↔ Valid t := by
  rw [Valid, run_append, run_ascii h]
  rfl

theorem valid_append_ascii {s t : List UInt8} (h : ∀ b ∈ t, b < 0x80) (hNe : t ≠ []) :
    Valid (s ++ t) ↔ Valid s := by
  rw [Valid, Valid, run_append]
  cases run .start s with
  | none => simp
  | some q =>
    cases t with
    | nil => exact absurd rfl hNe
    | cons b t =>
      by_cases hq : q = .start
      · subst hq
        simp [run_ascii h]
      · have hStep := step_ascii (h b List.mem_cons_self) hq
        simp [run, hStep, hq]

/-- Characters of one byte may be taken off the end. -/
theorem Valid.append_ascii {s t : List UInt8} (hs : Valid s) (h : ∀ b ∈ t, b < 0x80) :
    Valid (s ++ t) := by
  rw [Valid, run_append, hs]
  exact run_ascii h

end Utf8
