import MiniVisa.Server.Atof
import MiniVisa.Server.Handler.Refusal

/-! # Which payments enter two-phase commit

Parser, Luhn check and `atof` are lenient: the parser takes the value behind the next colon,
whether or not it is the one of the quoted name, a field keeps the first 63 bytes of it, the empty
string has a correct Luhn sum, and `atof` reads a prefix and rounds. A text is well formed when it
has members whose complete values are right; it is said here when the checks ensure that.
-/

namespace MiniVisa.Entry

set_option autoImplicit false

open Text Iso8583 Handler TransactionCoordinator Refusal Strtod

/-- The value of the member that starts at the head of a text: the quoted name, a colon with or
without blanks around it, and the complete value. -/
def memberAt (key : String) (s : Bytes) : Option Bytes :=
  let quoted := lit "\"" ++ lit key ++ lit "\""
  if quoted.isPrefixOf s then
    match skipSpaces (s.drop quoted.length) with
    | 58 :: rest => valueAt (skipSpaces rest)
    | _ => none
  else none

def members (key : String) (text : Bytes) : List Bytes := text.tails.filterMap (memberAt key)

def RightPan (v : Bytes) : Prop := v ≠ [] ∧ LuhnValid v

def RightAmount (w : Bytes) : Prop := ∃ n : Numeral, n.text = w ∧ 0 < n.value ∧ n.value ≤ 10000

def WellFormed (text : Bytes) : Prop :=
  (∃ v ∈ members "pan" text, RightPan v) ∧ ∃ w ∈ members "amount" text, RightAmount w

/-- The value that is read is a member's, is not empty, and is right as a whole where the field
has room for a part of it only. -/
def PanRead (text : Bytes) : Prop :=
  ∀ v, fullValue text "pan" = some v →
    v ∈ members "pan" text ∧ v ≠ [] ∧ (63 < v.length → LuhnValid v)

def AmountRead (text : Bytes) : Prop :=
  ∀ w, fullValue text "amount" = some w →
    w ∈ members "amount" text ∧
      ∃ n : Numeral, n.text = w ∧ n.value ≤ 10000 ∧ (63 < w.length → 0 < n.value)

def OtherRight (key : String) (Right : Bytes → Prop) (text : Bytes) : Prop :=
  ∃ v ∈ members key text, fullValue text key ≠ some v ∧ Right v

section Checks

variable {text : Bytes}

theorem passesChecks_iff :
    passesChecks atof text = true ↔
      ∃ v w, fullValue text "pan" = some v ∧ fullValue text "amount" = some w ∧
        LuhnValid (fit 64 v) ∧ amountInvalid (atof (fit 64 w)) = false := by
  unfold passesChecks isoParseRequestLine
  rw [jget_eq, jget_eq]
  cases fullValue text "pan" with
  | none => simp
  | some v =>
    cases fullValue text "amount" with
    | none => simp
    | some w => simp [← luhnCheck_iff]

theorem exists_right_iff {key : String} {Right : Bytes → Prop} {v : Bytes}
    (hRead : fullValue text key = some v) :
    (∃ v ∈ members key text, Right v) ↔
      (v ∈ members key text ∧ Right v) ∨ OtherRight key Right text := by
  constructor
  · rintro ⟨u, hMem, hRight⟩
    by_cases hSame : u = v
    · subst hSame
      exact .inl ⟨hMem, hRight⟩
    · refine .inr ⟨u, hMem, ?_, hRight⟩
      rw [hRead]
      exact fun hEq => hSame (Option.some.inj hEq).symm
  · rintro (⟨hMem, hRight⟩ | ⟨u, hMem, -, hRight⟩)
    · exact ⟨v, hMem, hRight⟩
    · exact ⟨u, hMem, hRight⟩

theorem panRead_iff {v : Bytes} (hRead : fullValue text "pan" = some v)
    (hLuhn : LuhnValid (fit 64 v)) :
    PanRead text ↔ v ∈ members "pan" text ∧ RightPan v := by
  constructor
  · intro h
    obtain ⟨hMem, hNe, hLong⟩ := h v hRead
    refine ⟨hMem, hNe, ?_⟩
    rcases Nat.lt_or_ge 63 v.length with hOver | hFits
    · exact hLong hOver
    · rwa [fit_eq_self hFits] at hLuhn
  · rintro ⟨hMem, hNe, hValid⟩ u hu
    rw [hRead] at hu
    cases hu
    exact ⟨hMem, hNe, fun _ => hValid⟩

theorem amountRead_iff {w : Bytes} (hRead : fullValue text "amount" = some w)
    (hAmount : amountInvalid (atof (fit 64 w)) = false) :
    AmountRead text ↔ w ∈ members "amount" text ∧ RightAmount w := by
  constructor
  · intro h
    obtain ⟨hMem, n, hText, hMost, hLong⟩ := h w hRead
    refine ⟨hMem, n, hText, ?_, hMost⟩
    rcases Nat.lt_or_ge 63 w.length with hOver | hFits
    · exact hLong hOver
    · rw [fit_eq_self hFits, ← hText, amountInvalid_atof_text] at hAmount
      have hSmall : (0 : ℚ) < 2 ^ (-1075 : ℤ) := zpow_pos (by norm_num) _
      exact hSmall.trans hAmount.1
  · rintro ⟨hMem, n, hText, hPos, hMost⟩ u hu
    rw [hRead] at hu
    cases hu
    exact ⟨hMem, n, hText, hMost, fun _ => hPos⟩

/-- The payments that enter two-phase commit are well formed just when the checks of each text
that passes them were made on the values of its members, and on all of these. -/
theorem wellFormed_of_reaches_iff (route : Route) (c : Coordinator) (text : Bytes) :
    (ReachesTxnBegin atof c route text → WellFormed text) ↔
      (passesChecks atof text = true →
        (PanRead text ∨ OtherRight "pan" RightPan text) ∧
          (AmountRead text ∨ OtherRight "amount" RightAmount text)) := by
  rw [reachesTxnBegin_iff]
  apply imp_congr_right
  intro hPasses
  obtain ⟨v, w, hPan, hAmount, hLuhn, hValid⟩ := passesChecks_iff.mp hPasses
  rw [WellFormed, exists_right_iff hPan, exists_right_iff hAmount, panRead_iff hPan hLuhn,
    amountRead_iff hAmount hValid]

theorem not_wellFormed_of_reaches :
    ¬∀ (route : Route) (c : Coordinator) (text : Bytes),
      ReachesTxnBegin atof c route text → WellFormed text := by
  intro h
  have hReaches : ReachesTxnBegin atof (txnCoordinatorInit none none true) .line
      (lit "\x7b\"pan\":\"\",\"amount\":5\x7d") := by
    rw [reachesTxnBegin_iff]
    decide +kernel
  obtain ⟨⟨v, hMem, hNe, -⟩, -⟩ := h _ _ _ hReaches
  have hEmpty : members "pan" (lit "\x7b\"pan\":\"\",\"amount\":5\x7d") = [[]] := by decide +kernel
  rw [hEmpty] at hMem
  exact hNe (List.mem_singleton.mp hMem)

example : members "pan" (lit "\x7b\"pan\" : \"4111\", \"amount\": 5\x7d") = [lit "4111"] := by
  decide +kernel

end Checks

end MiniVisa.Entry
