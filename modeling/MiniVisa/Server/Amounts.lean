import MiniVisa.Server.PaymentDetails

/-! # The amount that database, clearing and reversal are told

The pipeline gives the same text to all three. The insert takes it as it is; the clearing context
and the reversal task have sixteen bytes for it, and cut what does not fit.
-/

namespace MiniVisa.Handler

set_option autoImplicit false

open Interaction Text Iso8583 TransactionCoordinator

/-- The amount in an insert, in a clearing payload, and in the task that is put into the
reversal queue. -/
def amountOf : Sys → Option Bytes
  | .pgInsert _ _ amount _ => some amount
  | .pgInsertReqid _ _ _ amount _ => some amount
  | .clearing p => some p.amount
  | .reversalPush q now => some (Reversal.newTask 0 q now).amount.val
  | _ => none

def SameAmount {α : Type} (value : Bytes → α) (tr : List SysEvent) : Prop :=
  ∀ x ∈ tr, ∀ y ∈ tr, ∀ a b, amountOf x.1 = some a → amountOf y.1 = some b → value a = value b

/-- What clearing context and reversal task keep of an amount. -/
def clearingAmount (amount : Bytes) : Bytes := fit 16 amount

def Expected (amount : Bytes) (op : Sys) : Prop :=
  ∀ a, amountOf op = some a → if isInsert op then a = amount else a = clearingAmount amount

theorem expected_tellable (masked amount : Bytes) : Tellable (Expected amount) masked amount where
  silent op hSilent a ha := by
    cases op <;> first | exact hSilent.elim | cases ha
  pgInsert conn status a ha := by
    cases ha
    rfl
  pgInsertReqid conn requestId status a ha := by
    cases ha
    rfl
  clearing p _ hAmount a ha := by
    cases ha
    exact hAmount
  reversalPush q now _ hAmount a ha := by
    cases ha
    rw [← hAmount]
    rfl

/-- A run that inserts says nothing but the amount and what is kept of it, and where there is
one there is also one that says the latter. -/
structure Tells {α : Type} (maxRetries : Nat) (amount : Bytes) (p : CallProg Who α) (mem : Memory) :
    Prop where
  expected : ∀ tr r, (p.interp (implement maxRetries) mem).Runs tr r → Inserts tr →
    ∀ x ∈ tr, Expected amount x.1
  kept : (∃ tr r, (p.interp (implement maxRetries) mem).Runs tr r ∧ Inserts tr) →
    ∃ tr r, (p.interp (implement maxRetries) mem).Runs tr r ∧ Inserts tr ∧
      ∃ x ∈ tr, amountOf x.1 = some (clearingAmount amount)

section Theorem

variable {cfg : Config} {a : Arrival} {req : IsoRequest}

theorem tells_serve (hParse : isoParseRequestLine a.text = .ok req) :
    Tells cfg.maxRetries req.amountText (request a.route cfg.atof a.coordinator a.text) .empty := by
  have hTold : Told (Expected req.amountText) cfg.maxRetries _ _ :=
    told_serve (expected_tellable _ _) hParse
  constructor
  case expected => exact hTold.all
  case kept =>
    intro hReaches
    obtain ⟨tr, r, hRuns, hInserts, ⟨op, answer⟩, hx, hSent⟩ := hTold.sent hReaches
    refine ⟨tr, r, hRuns, hInserts, _, hx, ?_⟩
    have hExpected := hTold.all tr r hRuns hInserts _ hx
    cases op with
    | clearing payload => exact congrArg some (hExpected _ rfl)
    | _ => exact absurd trivial hSent

theorem Tells.agree_iff {α β : Type} {amount : Bytes} {maxRetries : Nat} {p : CallProg Who α}
    {mem : Memory} (hTells : Tells maxRetries amount p mem) (value : Bytes → β)
    (hReaches : ∃ tr r, (p.interp (implement maxRetries) mem).Runs tr r ∧ Inserts tr) :
    (∀ tr r, (p.interp (implement maxRetries) mem).Runs tr r → Inserts tr → SameAmount value tr) ↔
      value (clearingAmount amount) = value amount := by
  constructor
  · intro hSame
    obtain ⟨tr, r, hRuns, hInserts, z, hz, hKept⟩ := hTells.kept hReaches
    obtain ⟨y, hy, hInsert⟩ := hInserts
    have hExpected := hTells.expected tr r hRuns ⟨y, hy, hInsert⟩ y hy
    have hWhole : amountOf y.1 = some amount := by
      obtain ⟨op, answer⟩ := y
      cases op with
      | pgInsert conn masked amount status => exact congrArg some (hExpected _ rfl)
      | pgInsertReqid conn requestId masked amount status => exact congrArg some (hExpected _ rfl)
      | _ => cases hInsert
    exact hSame tr r hRuns ⟨y, hy, hInsert⟩ z hz y hy _ _ hKept hWhole
  · intro hValue tr r hRuns hInserts
    have hOne : ∀ x ∈ tr, ∀ b, amountOf x.1 = some b → value b = value amount := by
      intro x hx b hb
      have hExpected := hTells.expected tr r hRuns hInserts x hx b hb
      split at hExpected
      · rw [hExpected]
      · rw [hExpected]
        exact hValue
    intro x hx y hy b b' hb hb'
    rw [hOne x hx b hb, hOne y hy b' hb']

/-- For a text that reaches the insert, and whatever an amount is taken to denote: database,
clearing and reversal are told the same exactly when the first fifteen bytes of the amount
denote what the whole amount denotes. -/
theorem same_amount_iff {β : Type} (value : Bytes → β) (hParse : isoParseRequestLine a.text = .ok req)
    (hReaches : ∃ tr r, (serve cfg a).Runs tr r ∧ Inserts tr) :
    (∀ tr r, (serve cfg a).Runs tr r → Inserts tr → SameAmount value tr) ↔
      value (req.amountText.take 15) = value req.amountText :=
  (tells_serve hParse).agree_iff value hReaches

def decimalValue (s : Bytes) : Rat :=
  match s.dropWhile isdigit with
  | 46 :: fraction =>
    digitsValue s + digitsValue fraction / 10 ^ (fraction.takeWhile isdigit).length
  | _ => digitsValue s

def decimalConfig : Config := ⟨fun s => .finite (decimalValue s), 0⟩

def pricedArrival (amount : String) : Arrival where
  route := .line
  text := lit "\x7b\"pan\":\"0\",\"amount\":" ++ lit amount ++ lit "\x7d"
  coordinator := txnCoordinatorInit none none false

theorem sample_reaches {amount : String} (h : ((serve decimalConfig (pricedArrival amount)).runWith
    Sys.calm).1.any (fun x => isInsert x.1) = true) :
    ∃ tr r, (serve decimalConfig (pricedArrival amount)).Runs tr r ∧ Inserts tr :=
  ⟨_, _, Prog.runs_runWith Sys.calm _, List.any_eq_true.mp h⟩

theorem same_amount_short :
    (∃ tr r, (serve decimalConfig (pricedArrival "12.50")).Runs tr r ∧ Inserts tr) ∧
      ∀ tr r, (serve decimalConfig (pricedArrival "12.50")).Runs tr r →
        Inserts tr → SameAmount decimalValue tr := by
  have hParse : isoParseRequestLine (pricedArrival "12.50").text =
      .ok ⟨lit "0", lit "12.50", [], [], .auth⟩ := by decide +kernel
  have hReaches : ∃ tr r, (serve decimalConfig (pricedArrival "12.50")).Runs tr r ∧ Inserts tr :=
    sample_reaches (by decide +kernel)
  exact ⟨hReaches, (same_amount_iff decimalValue hParse hReaches).mpr (by decide +kernel)⟩

/-- Twelve and a half with leading zeros: the database is told 12.50, clearing 1. -/
theorem not_same_amount : ¬∀ (cfg : Config) (a : Arrival) (req : IsoRequest),
    isoParseRequestLine a.text = .ok req → (∃ tr r, (serve cfg a).Runs tr r ∧ Inserts tr) →
    ∀ tr r, (serve cfg a).Runs tr r → Inserts tr → SameAmount decimalValue tr := by
  intro h
  have hParse : isoParseRequestLine (pricedArrival "0000000000000012.50").text =
      .ok ⟨lit "0", lit "0000000000000012.50", [], [], .auth⟩ := by decide +kernel
  have hReaches : ∃ tr r, (serve decimalConfig (pricedArrival "0000000000000012.50")).Runs tr r ∧
      Inserts tr := sample_reaches (by decide +kernel)
  have hSame := ((tells_serve hParse).agree_iff decimalValue hReaches).mp (h _ _ _ hParse hReaches)
  exact absurd hSame (by decide +kernel)

end Theorem

end MiniVisa.Handler
