import MiniVisa.Server.Text

/-! # The request parser

`jget` finds a quoted key anywhere in the text and takes the value after the next colon;
it is not a JSON parser. Values are cut to the fields of `IsoRequest`.
-/

namespace MiniVisa.Iso8583

set_option autoImplicit false

open Text

inductive IsoMsgType
  | auth | capture | refund | reversal
  deriving DecidableEq, Repr

structure IsoRequest where
  pan : Bytes
  amountText : Bytes
  currency : Bytes
  requestId : Bytes
  type : IsoMsgType
  deriving DecidableEq

inductive ParseError
  | missingPan | missingAmount
  deriving DecidableEq, Repr

def jget (buf : Bytes) (key : String) (outsz : Nat) : Option Bytes :=
  let pattern := fit 64 (lit "\"" ++ lit key ++ lit "\"")
  match strstr pattern buf with
  | none => none
  | some found =>
    match strchr 58 (found.drop pattern.length) with
    | none => none
    | some colon =>
      match skipSpaces (colon.drop 1) with
      | 34 :: p =>
        match strchr 34 p with
        | none => none
        | some _ => some (fit outsz (p.takeWhile (· != 34)))
      | p =>
        let value := p.takeWhile fun b => b != 44 && b != 125 && !isspace b
        if value = [] then none else some (fit outsz value)

def typeOf (text : Bytes) : IsoMsgType :=
  if text = lit "CAPTURE" then .capture
  else if text = lit "REFUND" then .refund
  else if text = lit "REVERSAL" then .reversal
  else .auth

def isoParseRequestLine (line : Bytes) : Except ParseError IsoRequest :=
  match jget line "pan" 64 with
  | none => .error .missingPan
  | some pan =>
    match jget line "amount" 64 with
    | none => .error .missingAmount
    | some amountText =>
      .ok
        { pan := pan
          amountText := amountText
          currency := (jget line "currency" 8).getD []
          requestId := (jget line "request_id" 128).getD []
          type := ((jget line "type" 32).map typeOf).getD .auth }

section Values

/-- The text from the value on: behind the first colon after the first quoted key. -/
def behindColon (buf : Bytes) (key : String) : Option Bytes :=
  let pattern := fit 64 (lit "\"" ++ lit key ++ lit "\"")
  (strstr pattern buf).bind fun found =>
    (strchr 58 (found.drop pattern.length)).map fun colon => skipSpaces (colon.drop 1)

/-- The complete value at the start of a text. -/
def valueAt : Bytes → Option Bytes
  | 34 :: p => (strchr 34 p).map fun _ => p.takeWhile (· != 34)
  | p =>
    let value := p.takeWhile fun b => b != 44 && b != 125 && !isspace b
    if value = [] then none else some value

/-- What `jget` reads before it is cut to the field. -/
def fullValue (buf : Bytes) (key : String) : Option Bytes := (behindColon buf key).bind valueAt

theorem jget_eq (buf : Bytes) (key : String) (outsz : Nat) :
    jget buf key outsz = (fullValue buf key).map (fit outsz) := by
  unfold jget fullValue behindColon
  dsimp only
  generalize fit 64 (lit "\"" ++ lit key ++ lit "\"") = pattern
  cases strstr pattern buf with
  | none => rfl
  | some found =>
    simp only [Option.bind_some]
    cases strchr 58 (found.drop pattern.length) with
    | none => rfl
    | some colon =>
      simp only [Option.map_some, Option.bind_some]
      unfold valueAt
      split
      · rename_i p hQuoted
        cases strchr 34 p with
        | none => rfl
        | some _ => rfl
      · dsimp only
        split
        · rfl
        · rfl

theorem jget_length_le {buf out : Bytes} {key : String} {outsz : Nat}
    (h : jget buf key outsz = some out) : out.length ≤ outsz - 1 := by
  rw [jget_eq] at h
  obtain ⟨value, -, rfl⟩ := Option.map_eq_some_iff.mp h
  exact fit_length_le outsz value

/-- What a text that is parsed has, and what becomes of it. -/
theorem isoParseRequestLine_ok {line : Bytes} {req : IsoRequest} :
    isoParseRequestLine line = .ok req ↔
      jget line "pan" 64 = some req.pan ∧ jget line "amount" 64 = some req.amountText ∧
      (jget line "currency" 8).getD [] = req.currency ∧
      (jget line "request_id" 128).getD [] = req.requestId ∧
      ((jget line "type" 32).map typeOf).getD .auth = req.type := by
  unfold isoParseRequestLine
  cases jget line "pan" 64 with
  | none => simp
  | some pan =>
    cases jget line "amount" 64 with
    | none => simp
    | some amount =>
      obtain ⟨pan', amount', currency, requestId, type⟩ := req
      simp

end Values

example : (isoParseRequestLine (lit "\x7b\"pan\":\"4111\", \"amount\": 5\x7d")).toOption =
    some ⟨lit "4111", lit "5", [], [], .auth⟩ := by decide

end MiniVisa.Iso8583
