import MiniVisa.Microservices.PaymentService
import MiniVisa.Server.Atof
import MiniVisa.Server.Handler.Refusal

/-! # Which payments the handler and the payment service admit

Both check the card number by its Luhn sum and the amount by what `atof` makes of it. The two
Luhn loops compute one sum. The handler takes an amount that is above zero, the payment service
refuses one that is not, and a NaN is neither.
-/

namespace MiniVisa.Admission

set_option autoImplicit false

open Text Iso8583 Interaction

def serverAccepts (atof : Bytes → Handler.Double) (pan amount : Bytes) : Bool :=
  Handler.luhnCheck pan && !Handler.amountInvalid (atof amount)

def paymentAccepts (atof : Bytes → Handler.Double) (pan amount : Bytes) : Bool :=
  PaymentService.validateLuhn pan && !PaymentService.amountRefused (atof amount)

section Checks

variable {atof : Bytes → Handler.Double}

theorem passesChecks_eq {text : Bytes} {req : IsoRequest} (h : isoParseRequestLine text = .ok req) :
    Refusal.passesChecks atof text = serverAccepts atof req.pan req.amountText := by
  simp only [Refusal.passesChecks, h, serverAccepts]

/-- An environment in which a request to the risk service is not even printed. -/
def outOfMemory : (op : PaymentService.Op) → op.Ans
  | .time => (0 : Int)
  | .print _ => false
  | .post _ _ => .lost

/-- A payment that is not accepted is declined at once; one that is goes to the risk service. -/
theorem paymentAccepts_iff_asks (req : PaymentService.PaymentRequest) :
    paymentAccepts atof req.pan.val req.amount.val = true ↔
      ∃ tr response, (PaymentService.processAuthorization atof req).Runs tr response ∧
        ∃ x ∈ tr, x.1 = .print (PaymentService.riskRequest req) := by
  unfold paymentAccepts PaymentService.processAuthorization
  cases hLuhn : PaymentService.validateLuhn req.pan.val with
  | false =>
    simp only [Bool.false_and, Bool.false_eq_true, Bool.not_false, if_true, false_iff]
    rintro ⟨tr, response, hRuns, x, hx, hPrint⟩
    cases hRuns with
    | call now hRuns =>
      cases hRuns
      obtain rfl := List.mem_singleton.mp hx
      cases hPrint
  | true =>
    cases hAmount : PaymentService.amountRefused (atof req.amount.val) with
    | true =>
      simp only [Bool.not_true, Bool.and_false, Bool.false_eq_true, if_true, if_false, false_iff]
      rintro ⟨tr, response, hRuns, x, hx, hPrint⟩
      cases hRuns with
      | call now hRuns =>
        cases hRuns
        obtain rfl := List.mem_singleton.mp hx
        cases hPrint
    | false =>
      simp only [Bool.not_false, Bool.and_true, Bool.not_true, Bool.false_eq_true, if_false,
        true_iff]
      refine ⟨_, _, Prog.runs_runWith outOfMemory _,
        ⟨.print (PaymentService.riskRequest req), false⟩, ?_, rfl⟩
      exact List.mem_cons_of_mem _ List.mem_cons_self

theorem validateLuhnLoop_eq (pan : Bytes) (i sum : Nat) (alt : Bool) (h : i ≤ pan.length) :
    PaymentService.validateLuhnLoop pan i sum alt =
      match Handler.luhnLoop (pan.take i).reverse sum alt with
      | none => false
      | some sum => sum % 10 == 0 := by
  induction i generalizing sum alt with
  | zero => rfl
  | succ i ih =>
    have hLt : i < pan.length := h
    have hDigit : (pan[i] < 48 || 57 < pan[i]) = !isdigit pan[i] := by
      simp only [isdigit, Bool.not_and, ← decide_not, UInt8.not_le]
    rw [PaymentService.validateLuhnLoop, List.take_succ_eq_append_getElem hLt, List.reverse_append,
      List.reverse_singleton, List.singleton_append, Handler.luhnLoop, List.getD_eq_getElem?_getD,
      List.getElem?_eq_getElem hLt, Option.getD_some, hDigit]
    cases hIs : isdigit pan[i] with
    | false => simp
    | true =>
      simp only [Bool.not_true, Bool.false_eq_true, if_false, if_true]
      exact ih _ _ (Nat.le_of_succ_le h)

theorem validateLuhn_eq (pan : Bytes) : PaymentService.validateLuhn pan = Handler.luhnCheck pan := by
  unfold PaymentService.validateLuhn Handler.luhnCheck
  have hLoop := validateLuhnLoop_eq pan pan.length 0 false le_rfl
  rw [List.take_length] at hLoop
  exact hLoop

/-- The two tests of the amount differ on a NaN, which is neither above zero nor at most zero. -/
theorem amountRefused_eq_iff (amount : Handler.Double) :
    Handler.amountInvalid amount = PaymentService.amountRefused amount ↔ amount ≠ .nan := by
  cases amount with
  | nan => simp [Handler.amountInvalid, PaymentService.amountRefused, Handler.Double.gt,
      Handler.Double.le]
  | infinite negative => simp [Handler.amountInvalid, PaymentService.amountRefused,
      Handler.Double.gt, Handler.Double.le]
  | finite v =>
    have hNot : (!decide (0 < v)) = decide (v ≤ 0) := by
      rw [← decide_not, decide_eq_decide]
      exact not_lt
    simp [Handler.amountInvalid, PaymentService.amountRefused, Handler.Double.gt,
      Handler.Double.le, hNot]

theorem serverAccepts_eq_paymentAccepts_iff (atof : Bytes → Handler.Double) (pan : Field 20)
    (amount : Field 16) :
    (serverAccepts atof pan.val amount.val = true ↔
        paymentAccepts atof pan.val amount.val = true) ↔
      ¬(PaymentService.validateLuhn pan.val = true ∧ atof amount.val = .nan) := by
  rw [← Bool.eq_iff_iff, serverAccepts, paymentAccepts, ← validateLuhn_eq]
  cases PaymentService.validateLuhn pan.val with
  | false => simp
  | true =>
    simp only [Bool.true_and, Bool.not_inj_iff, true_and]
    exact amountRefused_eq_iff _

theorem not_serverAccepts_iff_paymentAccepts :
    ¬∀ (pan : Field 20) (amount : Field 16),
      (serverAccepts Strtod.atof pan.val amount.val = true ↔
        paymentAccepts Strtod.atof pan.val amount.val = true) := by
  intro h
  have hAgree := h ⟨lit "4111111111111111", by decide⟩ ⟨lit "nan", by decide⟩
  have hPayment : paymentAccepts Strtod.atof (lit "4111111111111111") (lit "nan") = true := by decide
  have hServer : serverAccepts Strtod.atof (lit "4111111111111111") (lit "nan") = false := by decide
  rw [hAgree.mpr hPayment] at hServer
  cases hServer

end Checks

end MiniVisa.Admission
