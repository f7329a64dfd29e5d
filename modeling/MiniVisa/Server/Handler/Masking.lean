import MiniVisa.Library.TwoRuns
import MiniVisa.Server.Handler.Process

/-! # What can be seen of a card number

Of the card number a pipeline uses the Luhn check, the decision of the risk table, and the
masked form. Two cards that agree in these leave the same traces: the processes are the same
but for the question to the risk table, which is asked inside the server.
-/

namespace MiniVisa.Handler

set_option autoImplicit false

open Interaction Text Iso8583 TransactionCoordinator

section Cards

/-- Two card numbers that differ at most between their first six and their last four digits. -/
structure SameCard (pan pan' : Bytes) : Prop where
  digits : ∀ b ∈ pan ++ pan', isdigit b = true
  length_eq : pan'.length = pan.length
  length_le : pan.length ≤ 63
  front : pan'.take 6 = pan.take 6
  back : pan'.drop (pan'.length - 4) = pan.drop (pan.length - 4)
  luhn : luhnCheck pan' = luhnCheck pan

variable {pan pan' : Bytes}

theorem SameCard.eq_of_length_le (h : SameCard pan pan') (hShort : pan.length ≤ 10) : pan' = pan := by
  have hBack : pan'.drop 6 = pan.drop 6 := by
    have hSplit : 6 = pan.length - 4 + (6 - (pan.length - 4)) := by omega
    have hLast := h.back
    rw [h.length_eq] at hLast
    rw [hSplit, ← List.drop_drop, ← List.drop_drop, hLast]
  rw [← List.take_append_drop 6 pan', ← List.take_append_drop 6 pan, h.front, hBack]

/-- The masked forms are the same, whichever branch of `mask_pan` makes them: the raw copies are
for numbers of ten digits or fewer only, as 63 digits fit the buffer. -/
theorem SameCard.maskPan_eq (h : SameCard pan pan') : maskPan pan' 64 = maskPan pan 64 := by
  have hLe := h.length_le
  unfold maskPan
  simp only [h.length_eq]
  split
  · rename_i hShort
    rw [h.eq_of_length_le hShort]
  · split
    · omega
    · have hBack := h.back
      rw [h.length_eq] at hBack
      rw [h.front, hBack]

end Cards

def parsedRequest (route : Route) (atof : Bytes → Double) (c : Coordinator) (req : IsoRequest) :
    CallProg Who (Response × Coordinator) :=
  match route with
  | .line => parsedPipeline lineExits atof c req
  | .body => do
    let r ← parsedPipeline httpExits atof c req
    let _ ← sys (.respondHttp (httpStatus r.1).1 (httpStatus r.1).2 r.1)
    pure r

def serveParsed (cfg : Config) (route : Route) (c : Coordinator) (req : IsoRequest) :
    SysProg ((Response × Coordinator) × Memory) :=
  (parsedRequest route cfg.atof c req).interp (implement cfg.maxRetries) .empty

theorem serve_parsed {cfg : Config} {a : Arrival} {req : IsoRequest}
    (h : isoParseRequestLine a.text = .ok req) :
    serve cfg a = serveParsed cfg a.route a.coordinator req := by
  obtain ⟨route, text, coordinator⟩ := a
  unfold serve serveParsed
  cases route with
  | line =>
    simp only [request, lineRequest, parsedRequest]
    rw [pipeline_parsed lineExits h]
  | body =>
    simp only [request, httpBodyRequest, parsedRequest]
    rw [pipeline_parsed httpExits h]

section Traces

/-- Everything that leaves the process: responses, log lines, transaction log records, commands
and parameters for the database, clearing payloads, reversal requests, counters. The question
to the risk table stays inside. -/
def outputs (tr : List SysEvent) : List Sys :=
  tr.filterMap fun x =>
    match x.1 with
    | .riskEvaluate _ => none
    | op => some op

/-- The same event, or the question about one card for that about the other, answered alike. -/
inductive SameBut (pan pan' : Bytes) : SysEvent → SysEvent → Prop
  | same (x : SysEvent) : SameBut pan pan' x x
  | risk (decision : RiskDecision) :
      SameBut pan pan' ⟨.riskEvaluate pan, decision⟩ ⟨.riskEvaluate pan', decision⟩

variable {pan pan' : Bytes} {tr tr' : List SysEvent}

theorem outputs_eq (h : List.Forall₂ (SameBut pan pan') tr tr') : outputs tr' = outputs tr := by
  induction h with
  | nil => rfl
  | cons hSame _ ih =>
    cases hSame with
    | same x =>
      unfold outputs at ih ⊢
      rw [List.filterMap_cons, List.filterMap_cons, ih]
    | risk decision => exact ih

theorem sameAnswers (h : List.Forall₂ (SameBut pan pan') tr tr') : Prog.SameAnswers tr tr' := by
  apply h.imp
  intro x y hSame
  cases hSame with
  | same x => exact HEq.rfl
  | risk decision => exact HEq.rfl

end Traces

section Theorem

variable {req : IsoRequest} {pan' : Bytes}

theorem transact_sameCard (h : SameCard req.pan pan') (exits : Exits) (t0 : Int) (c : Coordinator) :
    transact exits t0 { req with pan := pan' } c = transact exits t0 req c := by
  unfold transact
  rw [h.maskPan_eq]
  rfl

theorem processRequest_follows (h : SameCard req.pan pan') (exits : Exits) (maxRetries : Nat)
    (atof : Bytes → Double) (t0 : Int) (c : Coordinator) (mem : Memory) :
    Prog.Follows (SameBut req.pan pan')
      ((processRequest exits atof t0 req c).interp (implement maxRetries) mem)
      ((processRequest exits atof t0 { req with pan := pan' } c).interp
        (implement maxRetries) mem) := by
  have hRefl : ∀ p : SysProg ((Response × Coordinator) × Memory),
      Prog.Follows (SameBut req.pan pan') p p := .refl .same
  unfold processRequest
  simp only [h.luhn]
  split
  · exact hRefl _
  · split
    · exact hRefl _
    · apply Prog.Follows.call
      intro decision
      refine ⟨decision, .risk decision, ?_⟩
      change Prog.Follows _ (Prog.interp _ (if _ then _ else _) mem)
        (Prog.interp _ (if _ then _ else _) mem)
      split
      · exact hRefl _
      · rw [transact_sameCard h]
        exact hRefl _

theorem parsedPipeline_follows (h : SameCard req.pan pan') (exits : Exits) (maxRetries : Nat)
    (atof : Bytes → Double) (c : Coordinator) (mem : Memory) :
    Prog.Follows (SameBut req.pan pan')
      ((parsedPipeline exits atof c req).interp (implement maxRetries) mem)
      ((parsedPipeline exits atof c { req with pan := pan' }).interp (implement maxRetries) mem) := by
  apply Prog.Follows.call
  intro t0
  refine ⟨t0, .same _, ?_⟩
  apply Prog.Follows.call
  intro _
  exact ⟨(), .same _, processRequest_follows h exits maxRetries atof t0 c mem⟩

theorem serveParsed_follows (h : SameCard req.pan pan') (cfg : Config) (route : Route)
    (c : Coordinator) :
    Prog.Follows (SameBut req.pan pan') (serveParsed cfg route c req)
      (serveParsed cfg route c { req with pan := pan' }) := by
  unfold serveParsed
  cases route with
  | line => exact parsedPipeline_follows h lineExits _ _ c .empty
  | body =>
    simp only [parsedRequest, Prog.interp_bind]
    apply Prog.Follows.bind (parsedPipeline_follows h httpExits _ _ c .empty)
    exact fun _ => .refl .same _

/-- Two requests that differ in the middle digits of the card only, on the same route, in equal
states: whatever run the first has, the second has one with the same answers, and any two runs
with the same answers have the same outputs and the same result. -/
theorem middle_digits_hidden (req : IsoRequest) {pan' : Bytes} (h : SameCard req.pan pan')
    (cfg : Config) (route : Route) (c : Coordinator) :
    (∀ tr r, (serveParsed cfg route c req).Runs tr r →
      ∃ tr', (serveParsed cfg route c { req with pan := pan' }).Runs tr' r ∧
        Prog.SameAnswers tr tr') ∧
    ∀ tr r tr' r', (serveParsed cfg route c req).Runs tr r →
      (serveParsed cfg route c { req with pan := pan' }).Runs tr' r' → Prog.SameAnswers tr tr' →
      outputs tr' = outputs tr ∧ r' = r := by
  have hFollows := serveParsed_follows h cfg route c
  constructor
  · intro tr r hRuns
    obtain ⟨tr', hRuns', hSame⟩ := hFollows tr r hRuns
    exact ⟨tr', hRuns', sameAnswers hSame⟩
  · intro tr r tr' r' hRuns hRuns' hAnswers
    obtain ⟨tr₀, hRuns₀, hSame⟩ := hFollows tr r hRuns
    obtain ⟨rfl, rfl⟩ := hRuns'.unique hRuns₀ (hAnswers.symm.trans (sameAnswers hSame))
    exact ⟨outputs_eq hSame, rfl⟩

theorem middle_digits_hidden_sample :
    ∃ tr', (serveParsed ⟨fun _ => .finite 1, 0⟩ .line (txnCoordinatorInit none none false)
      ⟨lit "4111111111111111", lit "1", [], [], .auth⟩).Runs tr'
        ((serveParsed ⟨fun _ => .finite 1, 0⟩ .line (txnCoordinatorInit none none false)
          ⟨lit "4111110000091111", lit "1", [], [], .auth⟩).runWith Sys.calm).2 := by
  have hCard : SameCard (lit "4111110000091111") (lit "4111111111111111") :=
    ⟨by decide +kernel, by decide, by decide, by decide, by decide, by decide⟩
  obtain ⟨tr', hRuns, -⟩ := (middle_digits_hidden ⟨lit "4111110000091111", lit "1", [], [], .auth⟩
    hCard ⟨fun _ => .finite 1, 0⟩ .line (txnCoordinatorInit none none false)).1 _ _
    (Prog.runs_runWith Sys.calm _)
  exact ⟨tr', hRuns⟩

end Theorem

end MiniVisa.Handler
