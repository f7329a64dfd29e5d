import Mathlib.Data.List.Basic

/-! # The tokens of an SQL command

Words, single-quoted literals in which two quotes stand for one, and comments from two dashes to
the end of the line, as PostgreSQL reads them with `standard_conforming_strings` on. Every other
byte is a token of its own. A command that ends inside a literal has no tokens.
-/

namespace SqlLexer

set_option autoImplicit false

def quote : UInt8 := 39

def dash : UInt8 := 45

inductive Token
  | word (text : List UInt8)
  | literal (value : List UInt8)
  | symbol (byte : UInt8)
  deriving DecidableEq

/-- `closing` stands behind a quote that ends the literal unless another one follows. -/
inductive State
  | between
  | word (text : List UInt8)
  | literal (value : List UInt8)
  | closing (value : List UInt8)
  | dash
  | comment
  deriving DecidableEq

def isBlank (b : UInt8) : Bool := b == 32 || (9 ≤ b && b ≤ 13)

def isWordByte (b : UInt8) : Bool :=
  (65 ≤ b && b ≤ 90) || (97 ≤ b && b ≤ 122) || (48 ≤ b && b ≤ 57) || b == 95 || 128 ≤ b

def start (b : UInt8) : List Token × State :=
  if isBlank b then ([], .between)
  else if b = quote then ([], .literal [])
  else if b = SqlLexer.dash then ([], .dash)
  else if isWordByte b then ([], .word [b])
  else ([.symbol b], .between)

/-- The tokens that a byte finishes, and the state behind it. -/
def step : State → UInt8 → List Token × State
  | .between, b => start b
  | .word text, b =>
    if isWordByte b then ([], .word (text ++ [b])) else (.word text :: (start b).1, (start b).2)
  | .literal value, b => if b = quote then ([], .closing value) else ([], .literal (value ++ [b]))
  | .closing value, b =>
    if b = quote then ([], .literal (value ++ [quote]))
    else (.literal value :: (start b).1, (start b).2)
  | .dash, b =>
    if b = SqlLexer.dash then ([], .comment) else (.symbol SqlLexer.dash :: (start b).1, (start b).2)
  | .comment, b => if b = 10 then ([], .between) else ([], .comment)

def finish : State → Option (List Token)
  | .between => some []
  | .word text => some [.word text]
  | .literal _ => none
  | .closing value => some [.literal value]
  | .dash => some [.symbol SqlLexer.dash]
  | .comment => some []

def scan : State → List UInt8 → Option (List Token)
  | s, [] => finish s
  | s, b :: bytes => (scan (step s b).2 bytes).map ((step s b).1 ++ ·)

def tokens (command : List UInt8) : Option (List Token) := scan .between command

example : tokens [66, 69, 71, 73, 78, 32, 39, 97, 39, 39, 98, 39] =
    some [.word [66, 69, 71, 73, 78], .literal [97, 39, 98]] := by decide

/-- The tokens finished by the end of a piece of the command, and the state there. -/
def reach (s : State) (bytes : List UInt8) : List Token × State :=
  bytes.foldl (fun r b => (r.1 ++ (step r.2 b).1, (step r.2 b).2)) ([], s)

theorem scan_append (bytes rest : List UInt8) (s : State) :
    scan s (bytes ++ rest) = (scan (reach s bytes).2 rest).map ((reach s bytes).1 ++ ·) := by
  have hFold : ∀ (bytes : List UInt8) (found : List Token) (s : State),
      (scan s (bytes ++ rest)).map (found ++ ·) =
        (scan (bytes.foldl (fun r b => (r.1 ++ (step r.2 b).1, (step r.2 b).2)) (found, s)).2
          rest).map ((bytes.foldl (fun r b => (r.1 ++ (step r.2 b).1, (step r.2 b).2))
            (found, s)).1 ++ ·) := by
    intro bytes
    induction bytes with
    | nil => simp
    | cons b bytes ih =>
      intro found s
      rw [List.foldl_cons, ← ih, List.cons_append, scan, Option.map_map]
      simp [Function.comp_def]
  simpa [reach] using hFold bytes [] s

theorem scan_literal {text : List UInt8} (h : quote ∉ text) (value : List UInt8) :
    scan (.literal value) (text ++ [quote]) = some [.literal (value ++ text)] := by
  induction text generalizing value with
  | nil => simp [scan, step, finish]
  | cons b text ih =>
    simp only [List.mem_cons, not_or] at h
    rw [List.cons_append, scan, step, if_neg (Ne.symm h.1), ih h.2]
    simp

/-- A literal of which `value` has been read: every quote in it takes two from the text, and the
end takes one more. -/
theorem count_quote_le {bytes value w : List UInt8} {more : List Token} :
    (scan (.literal value) bytes = some (.literal w :: more) →
      2 * w.count quote + 1 ≤ 2 * value.count quote + bytes.count quote) ∧
    (scan (.closing value) bytes = some (.literal w :: more) →
      2 * w.count quote ≤ 2 * value.count quote + bytes.count quote) := by
  induction bytes generalizing value with
  | nil =>
    constructor
    · intro h
      cases h
    · intro h
      cases h
      omega
  | cons b bytes ih =>
    constructor
    · intro h
      rw [scan, step] at h
      split at h
      · rename_i hb
        have hLe := ih.2 (by simpa using h)
        rw [hb, List.count_cons_self]
        omega
      · rename_i hb
        have hLe := ih.1 (by simpa using h)
        rw [List.count_append, List.count_singleton, if_neg (by simpa using hb)] at hLe
        rw [List.count_cons_of_ne hb]
        omega
    · intro h
      rw [scan, step] at h
      split at h
      · rename_i hb
        have hLe := ih.1 (by simpa using h)
        rw [List.count_append, List.count_singleton_self] at hLe
        rw [hb, List.count_cons_self]
        omega
      · -- the literal is over, and it is the one that was being closed
        obtain ⟨found, -, hFound⟩ := Option.map_eq_some_iff.mp h
        obtain ⟨hHead, -⟩ := List.cons.inj hFound
        cases hHead
        omega

/-- Behind some finished tokens and an opening quote, a text and a closing quote are one literal
with this text exactly when no quote stands in it. -/
theorem tokens_quoted_iff {front text : List UInt8} {found : List Token}
    (h : reach .between front = (found, .literal [])) :
    tokens (front ++ (text ++ [quote])) = some (found ++ [.literal text]) ↔ quote ∉ text := by
  rw [tokens, scan_append, h]
  constructor
  · intro hScan
    obtain ⟨more, hMore, hEq⟩ := Option.map_eq_some_iff.mp hScan
    obtain rfl := List.append_cancel_left hEq
    have hLe := count_quote_le.1 hMore
    rw [List.count_append, List.count_singleton_self, List.count_nil] at hLe
    exact List.count_eq_zero.mp (by omega)
  · intro hNot
    rw [scan_literal hNot]
    rfl

end SqlLexer
