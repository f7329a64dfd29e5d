import MiniVisa.Server.Atof
import MiniVisa.Server.Risk
import MiniVisa.Server.Templates
import MiniVisa.Server.Handler.Refusal

/-! # What is emitted for a payment

The ids in the responses and log lines of a payment are its request id, which is the value that
`jget` finds, cut to 127 bytes, and its transaction id, which begins with `visa_` and the first 58
bytes of that value. Neither is escaped on its way from the text of the request into a template.
-/

namespace MiniVisa.Emitted

set_option autoImplicit false

open Interaction Text Iso8583 Handler TransactionCoordinator

section Ids

variable {s t : Bytes}

theorem clean_printed_append (h : s.all printed = true) : Clean (s ++ t) ↔ Clean t := by
  have hValid := Utf8.valid_ascii_append (t := t) fun b hb => (ordinary_of_printed h b hb).1
  have hPlain := plain_of_printed h
  simp only [Clean, List.forall_mem_append, hValid]
  exact and_congr_left fun _ => and_iff_right hPlain

theorem clean_append_printed (h : t.all printed = true) : Clean (s ++ t) ↔ Clean s := by
  cases t with
  | nil => rw [List.append_nil]
  | cons b t =>
    have hValid := Utf8.valid_append_ascii (s := s) (fun c hc => (ordinary_of_printed h c hc).1)
      (List.cons_ne_nil b t)
    have hPlain := plain_of_printed h
    rw [Clean, List.forall_mem_append, hValid]
    exact and_congr_left fun _ => and_iff_left hPlain

/-- Of a transaction id, only the first bytes of the request id can be unclean. -/
theorem clean_makeTxnId_iff (requestId : Bytes) (now : Int) :
    Clean (makeTxnId requestId now).val ↔ Clean (requestId.take idRoom) := by
  rw [makeTxnId_val, clean_printed_append rfl]
  rcases Nat.lt_or_ge requestId.length idRoom with hShort | hLong
  · rw [idTail_short hShort, List.take_of_length_le hShort.le]
    apply clean_append_printed
    rw [List.all_cons, Bool.and_eq_true]
    refine ⟨rfl, ?_⟩
    rw [List.all_eq_true]
    intro b hb
    exact List.all_eq_true.mp (printed_decimal now) b (List.mem_of_mem_take hb)
  · rw [idTail_long hLong]

theorem fit_makeTxnId (requestId : Bytes) (now : Int) :
    fit 64 (makeTxnId requestId now).val = (makeTxnId requestId now).val := by
  have hLength := (makeTxnId requestId now).length_lt
  exact fit_eq_self (by omega)

end Ids

section Performed

/-- Every decision of the risk engine in the run is one that `risk_evaluate` can make. -/
def RiskGiven (tr : List SysEvent) : Prop :=
  ∀ pan (d : RiskDecision), ⟨.riskEvaluate pan, d⟩ ∈ tr →
    ∃ (cfg : Risk.RiskConfig) (now inner : Int) (table : Risk.VelTable),
      (Risk.riskEvaluate cfg now inner table (.copy Field.pos64 pan)).1 = d

/-- An operation that is performed for a request: by the request itself, or by the worker in an
attempt at a reversal that the request has pushed. -/
inductive Performed (cfg : Config) (a : Arrival) : Sys → Prop
  | request {tr : List SysEvent} {r : (Response × Coordinator) × Memory} {x : SysEvent}
      (hRuns : (serve cfg a).Runs tr r) (hRisk : RiskGiven tr) (hx : x ∈ tr) : Performed cfg a x.1
  | reversal {tr events : List SysEvent} {r : (Response × Coordinator) × Memory} {x : SysEvent}
      {q : ReversalRequest} {now : Int} {env : Reversal.Env} {task : Reversal.ReversalTask}
      {outcome : Reversal.Outcome} (hRuns : (serve cfg a).Runs tr r) (hRisk : RiskGiven tr)
      (hPush : ⟨.reversalPush q now, ()⟩ ∈ tr) (hTask : task.txnId = .copy Field.pos64 q.txnId)
      (hAttempt : (Reversal.attempt env task).Runs events outcome) (hx : x ∈ events) :
      Performed cfg a x.1

def EmitsWellFormed (cfg : Config) (a : Arrival) : Prop :=
  ∀ op, Performed cfg a op → ∀ t e, emitted t op = some e → e.WellFormed

/-- The value of `request_id` that is found in a text with card number and amount is clean in the
127 bytes that a line shows, and in the 58 bytes that a transaction id shows. -/
def IdsClean (atof : Bytes → Double) (route : Route) (text : Bytes) : Prop :=
  ∀ v, fullValue text "request_id" = some v →
    fullValue text "pan" ≠ none → fullValue text "amount" ≠ none →
      (route = .line → Clean (v.take 127)) ∧
      (Refusal.passesChecks atof text = true → Clean (v.take 58))

theorem idsClean_iff {atof : Bytes → Double} {route : Route} {text : Bytes} :
    IdsClean atof route text ↔ ∀ req, isoParseRequestLine text = .ok req →
      (route = .line → Clean req.requestId) ∧
      (Refusal.passesChecks atof text = true → Clean (req.requestId.take idRoom)) := by
  have hEmpty : Clean [] := ⟨List.forall_mem_nil _, rfl⟩
  unfold IdsClean isoParseRequestLine
  simp only [jget_eq]
  cases fullValue text "pan" with
  | none => simp
  | some pan =>
    cases fullValue text "amount" with
    | none => simp
    | some amount =>
      cases fullValue text "request_id" with
      | none => simp [hEmpty]
      | some v => simp [fit, idRoom, List.take_take]

end Performed

section Sufficient

theorem Utters.wellFormed {op : Sys} (h : Utters Clean op) {t : Clock} {e : Emission}
    (hEmitted : emitted t op = some e) : e.WellFormed := by
  have hResponse : ∀ r, Response.Shows Clean r → (ofResponse r).WellFormed := by
    intro r hr
    cases r with
    | declined reason => exact declined_wellFormed hr
    | approved idempotent id => exact (approved_wellFormed_iff idempotent id).mpr hr
  cases op <;> cases hEmitted
  · rename_i line
    rw [ofLine_wellFormed_iff t h.1]
    cases hId : line.requestId with
    | none => exact ⟨List.forall_mem_nil _, rfl⟩
    | some id =>
      rcases h.2 id hId with rfl | hClean
      · exact ⟨List.forall_mem_nil _, rfl⟩
      · exact hClean
  · exact hResponse _ h
  · exact hResponse _ h

theorem printed_risk {cfg : Risk.RiskConfig} {now inner : Int} {table : Risk.VelTable} {p : Field 64}
    {d : RiskDecision} (h : (Risk.riskEvaluate cfg now inner table p).1 = d) :
    (Reason.risk d.reason).text.all printed = true := by
  have hAllowed : (Reason.risk []).text.all printed = true := rfl
  have hOver : (Reason.risk (lit "risk_velocity")).text.all printed = true := rfl
  have hDecided : ∀ (P : Prop) [Decidable P], (Reason.risk (if P then ⟨false, lit "risk_velocity"⟩
      else ⟨true, []⟩ : RiskDecision).reason).text.all printed = true := by
    intro P _
    split
    · exact hOver
    · exact hAllowed
  subst h
  unfold Risk.riskEvaluate
  split
  · exact hAllowed
  · generalize Risk.velGet inner table p = found
    exact hDecided _

def IdOf (requestId id : Bytes) : Prop := ∃ now, id = (makeTxnId requestId now).val

theorem fitting_idOf {requestId : Bytes} (h : Clean (requestId.take idRoom)) :
    Fitting Clean (IdOf requestId) where
  shown := by
    rintro id ⟨now, rfl⟩
    exact (clean_makeTxnId_iff requestId now).mpr h
  fits := by
    rintro id ⟨now, rfl⟩
    exact fit_makeTxnId requestId now

variable {cfg : Config} {c : Coordinator} {text : Bytes} {exits : Exits}

theorem all_interp_speaks {α : Type} {txn : Bytes → Prop} (hTxn : Fitting Clean txn) {Q : α → Prop}
    {p : CallProg Who α} (h : p.All (Speaks Clean txn) Q) :
    (p.interp (implement cfg.maxRetries) .empty).All (Utters Clean) fun x => Q x.1 := by
  have hImpl : ∀ e mem, Speaks Clean txn e → Memory.Knows txn mem →
      (implement cfg.maxRetries e mem).All (Utters Clean) fun x => Memory.Knows txn x.2 :=
    fun e mem he hMem => hTxn.all_implement hMem cfg.maxRetries e he
  exact (h.interp (implement cfg.maxRetries) hImpl knows_empty).mono fun x hx => hx.1

theorem all_interp_decline {requestId : Option Bytes} {reason : Reason}
    (h : (exits.declined requestId reason).All (Speaks Clean fun _ => False) fun _ => True)
    (hReason : reason.text.all printed = true) :
    ((decline exits requestId reason c).interp (implement cfg.maxRetries) .empty).All (Utters Clean)
      fun x => Response.Shows Clean x.1.1 := by
  have hNoTxn : Fitting Clean fun _ => False := ⟨fun _ => False.elim, fun _ => False.elim⟩
  have hDecline : (decline exits requestId reason c).All (Speaks Clean fun _ => False) fun r =>
      Response.Shows Clean r.1 := by
    rw [decline, Prog.all_bind]
    exact h.mono fun _ _ => hReason
  exact all_interp_speaks hNoTxn hDecline

/-- What an exit of the pipeline writes for the text is clean. -/
structure ExitsClean (exits : Exits) (text : Bytes) : Prop where
  unread : ∀ txn, (exits.declined none .badRequest).All (Speaks Clean txn) fun _ => True
  read : ∀ req, isoParseRequestLine text = .ok req → ∀ txn, exits.Speaks Clean txn req.requestId

variable (hExits : ExitsClean exits text)
include hExits

theorem ExitsClean.assess_utters {req : IsoRequest} (hParse : isoParseRequestLine text = .ok req)
    (hId : Clean (req.requestId.take idRoom)) {t0 : Int} {tr : List SysEvent}
    {r : (Response × Coordinator) × Memory}
    (hRuns : (Prog.interp (implement cfg.maxRetries) (do
      let rdec : RiskDecision ← sys (.riskEvaluate req.pan)
      if !rdec.allow then decline exits (some req.requestId) (.risk rdec.reason) c
      else transact exits t0 req c) Memory.empty).Runs tr r)
    (hRisk : RiskGiven tr) : (∀ x ∈ tr, Utters Clean x.1) ∧ Response.Shows Clean r.1.1 := by
  cases hRuns with
  | @call _ _ rdec tr _ hRuns =>
  have hSome := hExits.read req hParse
  have hAll : (Prog.interp (implement cfg.maxRetries)
      (if !rdec.allow then decline exits (some req.requestId) (.risk rdec.reason) c
        else transact exits t0 req c) Memory.empty).All (Utters Clean) fun x =>
          Response.Shows Clean x.1.1 := by
    split
    · obtain ⟨risk, now, inner, table, hDecision⟩ := hRisk req.pan rdec List.mem_cons_self
      have hReason := printed_risk hDecision
      exact all_interp_decline ((hSome _).declined _ hReason) hReason
    · exact all_interp_speaks (fitting_idOf hId)
        ((hSome _).all_transact (fitting_idOf hId) (fun now => ⟨now, rfl⟩) t0 c)
  exact ⟨List.forall_mem_cons.mpr ⟨trivial, hAll.runs hRuns⟩, hAll.result hRuns⟩

theorem ExitsClean.pipeline_utters
    (hId : ∀ req, isoParseRequestLine text = .ok req → Refusal.passesChecks cfg.atof text = true →
      Clean (req.requestId.take idRoom))
    {tr : List SysEvent} {r : (Response × Coordinator) × Memory}
    (hRuns : ((pipeline exits cfg.atof c text).interp (implement cfg.maxRetries) .empty).Runs tr r)
    (hRisk : RiskGiven tr) : (∀ x ∈ tr, Utters Clean x.1) ∧ Response.Shows Clean r.1.1 := by
  have hStarted : ∀ {p : Int → CallProg Who (Response × Coordinator)},
      (Prog.interp (implement cfg.maxRetries) (do
        let t0 : Int ← sys .gettimeofday
        metricsInc .total
        p t0) Memory.empty).Runs tr r →
      (∀ t0 tr', tr' ⊆ tr → ((p t0).interp (implement cfg.maxRetries) .empty).Runs tr' r →
        (∀ x ∈ tr', Utters Clean x.1) ∧ Response.Shows Clean r.1.1) →
      (∀ x ∈ tr, Utters Clean x.1) ∧ Response.Shows Clean r.1.1 := by
    intro p hRuns hRest
    cases hRuns with
    | call t0 hRuns =>
    cases hRuns with
    | @call _ _ _ tr' _ hRuns =>
    have hLater := hRest t0 tr' (fun x hx => List.mem_cons_of_mem _ (List.mem_cons_of_mem _ hx)) hRuns
    refine ⟨?_, hLater.2⟩
    exact List.forall_mem_cons.mpr ⟨trivial, List.forall_mem_cons.mpr ⟨trivial, hLater.1⟩⟩
  have hDeclined : ∀ {requestId : Option Bytes} {reason : Reason} {tr' : List SysEvent},
      (exits.declined requestId reason).All (Speaks Clean fun _ => False) (fun _ => True) →
      reason.text.all printed = true →
      ((decline exits requestId reason c).interp (implement cfg.maxRetries) .empty).Runs tr' r →
        (∀ x ∈ tr', Utters Clean x.1) ∧ Response.Shows Clean r.1.1 :=
    fun h hReason hRuns => ⟨(all_interp_decline h hReason).runs hRuns,
      (all_interp_decline h hReason).result hRuns⟩
  cases hParse : isoParseRequestLine text with
  | error e =>
    rw [pipeline_unread exits hParse] at hRuns
    apply hStarted hRuns
    exact fun _ _ _ hRuns => hDeclined (hExits.unread _) rfl hRuns
  | ok req =>
    have hSome := hExits.read req hParse
    rw [pipeline_parsed exits hParse] at hRuns
    apply hStarted hRuns
    intro t0 tr' hSub hRuns
    unfold processRequest at hRuns
    split at hRuns
    · exact hDeclined ((hSome _).declined _ rfl) rfl hRuns
    · rename_i hLuhn
      split at hRuns
      · exact hDeclined ((hSome _).declined _ rfl) rfl hRuns
      · rename_i hAmount
        have hPasses : Refusal.passesChecks cfg.atof text = true := by
          simpa [Refusal.passesChecks, hParse] using And.intro hLuhn hAmount
        apply hExits.assess_utters hParse (hId req hParse hPasses) hRuns
        intro pan d hMem
        exact hRisk pan d (hSub hMem)

omit hExits

theorem serve_utters {a : Arrival} (h : IdsClean cfg.atof a.route a.text) {tr : List SysEvent}
    {r : (Response × Coordinator) × Memory} (hRuns : (serve cfg a).Runs tr r)
    (hRisk : RiskGiven tr) : ∀ x ∈ tr, Utters Clean x.1 := by
  rw [idsClean_iff] at h
  obtain ⟨route, text, c⟩ := a
  have hId := fun req hParse => (h req hParse).2
  cases route with
  | line =>
    have hExits : ExitsClean lineExits text := by
      constructor
      · intro txn
        apply all_lineExits_declined rfl
        rintro id ⟨⟩
      · intro req hParse txn
        exact lineExits_speaks (.inr ((h req hParse).1 rfl))
    exact (hExits.pipeline_utters hId hRuns hRisk).1
  | body =>
    have hExits : ExitsClean httpExits text :=
      ⟨fun _ => all_countDeclined _, fun req _ _ => httpExits_speaks req.requestId⟩
    rw [serve, request, httpBodyRequest, Prog.interp_bind] at hRuns
    obtain ⟨r', tr₁, tr₂, rfl, hPipeline, hRuns⟩ := Prog.runs_bind.mp hRuns
    have hRisk' : RiskGiven tr₁ := fun pan d hMem => hRisk pan d (List.mem_append_left _ hMem)
    obtain ⟨hUtters, hShows⟩ := hExits.pipeline_utters hId hPipeline hRisk'
    cases hRuns with
    | call _ hRuns =>
      cases hRuns
      exact List.forall_mem_append.mpr ⟨hUtters, List.forall_mem_singleton.mpr hShows⟩

theorem attempt_utters {q : ReversalRequest} (hClean : Clean q.txnId) (hFits : fit 64 q.txnId = q.txnId)
    {env : Reversal.Env} {task : Reversal.ReversalTask} (hTask : task.txnId = .copy Field.pos64 q.txnId)
    {events : List SysEvent} {outcome : Reversal.Outcome}
    (hRuns : (Reversal.attempt env task).Runs events outcome) : ∀ x ∈ events, Utters Clean x.1 := by
  have hTxn : Fitting Clean (· = q.txnId) := by
    constructor
    · rintro id rfl
      exact hClean
    · rintro id rfl
      exact hFits
  have hVal : task.txnId.val = q.txnId := by
    rw [hTask]
    exact hFits
  exact (hTxn.all_attempt env hVal).runs hRuns

theorem emitsWellFormed_of_idsClean {a : Arrival} (h : IdsClean cfg.atof a.route a.text) :
    EmitsWellFormed cfg a := by
  intro op hOp t e hEmitted
  cases hOp with
  | request hRuns hRisk hx => exact Utters.wellFormed (serve_utters h hRuns hRisk _ hx) hEmitted
  | reversal hRuns hRisk hPush hTask hAttempt hx =>
    obtain ⟨hClean, hFits⟩ := serve_utters h hRuns hRisk _ hPush
    exact Utters.wellFormed (attempt_utters hClean hFits hTask hAttempt _ hx) hEmitted

end Sufficient

section Necessary

/-- Answers with which no card is declined. -/
def answering (allocated : Bool) : (op : Sys) → op.Ans
  | .malloc => allocated
  | op => op.calm

theorem riskGiven_answering (allocated : Bool) {α : Type} (p : SysProg α) :
    RiskGiven (p.runWith (answering allocated)).1 := by
  intro pan d hMem
  have hAnswer := Prog.runWith_answers (answering allocated) p _ hMem
  refine ⟨⟨false, 1, 1, by decide, by decide⟩, 0, 0, fun _ => .zero, ?_⟩
  exact hAnswer.symm

theorem performed_of_performs {cfg : Config} {a : Arrival} (allocated : Bool) {op : Sys}
    (h : (serve cfg a).Performs (answering allocated) (· = op)) : Performed cfg a op := by
  obtain ⟨x, hx, rfl⟩ := h
  exact .request (Prog.runs_runWith (answering allocated) _) (riskGiven_answering allocated _) hx

variable {cfg : Config} {c : Coordinator}

theorem lineExits_performs (mem : Memory) (allocated : Bool) (id : Bytes) (reason : Reason) :
    ((lineExits.declined (some id) reason).interp (implement cfg.maxRetries) mem).Performs
      (answering allocated) (· = .logJson ⟨declineLevel reason, "tx", some id, "DECLINED", -1⟩) := by
  simp only [lineExits, Prog.interp_bind, Prog.performs_bind]
  refine .inr (.inr ?_)
  exact Prog.performs_call.mpr (.inl rfl)

theorem decline_performs (mem : Memory) (allocated : Bool) (id : Bytes) (reason : Reason) :
    ((decline lineExits (some id) reason c).interp (implement cfg.maxRetries) mem).Performs
      (answering allocated) (· = .logJson ⟨declineLevel reason, "tx", some id, "DECLINED", -1⟩) := by
  rw [decline, Prog.interp_bind, Prog.performs_bind]
  exact .inl (lineExits_performs mem allocated id reason)

theorem txnBegin_answering (id : TxnId) (mem : Memory) :
    (((txnBegin c id : CallProg Who _).interp (implement cfg.maxRetries) mem).runWith
      (answering false)).2 = ((none, c), mem) := by
  unfold txnBegin
  split
  · rfl
  · split
    · rfl
    · rfl

theorem transact_performs_tx (t0 : Int) (req : IsoRequest) :
    ((transact lineExits t0 req c).interp (implement cfg.maxRetries) .empty).Performs
      (answering false) (· = .logJson ⟨.error, "tx", some req.requestId, "DECLINED", -1⟩) := by
  simp only [transact, Prog.interp_bind, Prog.performs_bind]
  refine .inr (.inr ?_)
  rw [txnBegin_answering]
  exact decline_performs _ false req.requestId .txnInitFailed

variable (cfg c) in
theorem txnBegin_performs (id : TxnId) (mem : Memory) :
    ∃ level status, (lit status).all printed = true ∧
      ((txnBegin c id : CallProg Who _).interp (implement cfg.maxRetries) mem).Performs
        (answering true) (· = .logJson ⟨level, "txn_coordinator", some id.val, status, -1⟩) := by
  unfold txnBegin
  split
  · exact ⟨.error, _, rfl, Prog.performs_call.mpr (.inl rfl)⟩
  · split
    · exact ⟨.error, _, rfl, Prog.performs_call.mpr (.inl rfl)⟩
    · refine ⟨.info, "Transaction started", rfl, ?_⟩
      have hStarted : ∀ (c' : Coordinator) (txn : Transaction Who), ((do
          logTransactionState c' txn .begin
          MiniVisa.logMessageJson .info "txn_coordinator" (some id.val) "Transaction started" (-1)
          pure (some txn, c') : CallProg Who (Option (Transaction Who) × Coordinator)).interp
            (implement cfg.maxRetries) mem).Performs (answering true)
            (· = .logJson ⟨.info, "txn_coordinator", some id.val, "Transaction started", -1⟩) := by
        intro c' txn
        simp only [Prog.interp_bind, Prog.performs_bind]
        exact .inr (.inl (Prog.performs_call.mpr (.inl rfl)))
      exact Prog.performs_call.mpr (.inr (Prog.performs_call.mpr (.inr (hStarted _ _))))

variable (cfg c) in
theorem transact_performs_txn (exits : Exits) (t0 : Int) (req : IsoRequest) :
    ∃ now level status, (lit status).all printed = true ∧
      ((transact exits t0 req c).interp (implement cfg.maxRetries) .empty).Performs (answering true)
        (· = .logJson ⟨level, "txn_coordinator", some (makeTxnId req.requestId now).val, status, -1⟩) := by
  obtain ⟨level, status, hStatus, hBegin⟩ :=
    txnBegin_performs cfg c (makeTxnId req.requestId 0) .empty
  refine ⟨0, level, status, hStatus, ?_⟩
  simp only [transact, Prog.interp_bind, Prog.performs_bind]
  exact .inr (.inl hBegin)

variable {text : Bytes} {req : IsoRequest} (hParse : isoParseRequestLine text = .ok req)
include hParse

variable (cfg c) in
/-- Some line of the line pipeline shows the request id. -/
theorem pipeline_performs_tx :
    ∃ level, ((pipeline lineExits cfg.atof c text).interp (implement cfg.maxRetries) .empty).Performs
      (answering false) (· = .logJson ⟨level, "tx", some req.requestId, "DECLINED", -1⟩) := by
  suffices hRest : ∃ level, (Prog.interp (implement cfg.maxRetries) (do
      if !luhnCheck req.pan then decline lineExits (some req.requestId) .luhnFailed c
      else if amountInvalid (cfg.atof req.amountText) then
        decline lineExits (some req.requestId) .amountInvalid c
      else
        let rdec : RiskDecision ← sys (.riskEvaluate req.pan)
        if !rdec.allow then decline lineExits (some req.requestId) (.risk rdec.reason) c
        else transact lineExits 0 req c) Memory.empty).Performs (answering false)
          (· = .logJson ⟨level, "tx", some req.requestId, "DECLINED", -1⟩) by
    obtain ⟨level, hLevel⟩ := hRest
    rw [pipeline_parsed lineExits hParse]
    exact ⟨level, Prog.performs_call.mpr (.inr (Prog.performs_call.mpr (.inr hLevel)))⟩
  split
  · exact ⟨_, decline_performs _ false req.requestId .luhnFailed⟩
  · split
    · exact ⟨_, decline_performs _ false req.requestId .amountInvalid⟩
    · exact ⟨.error, Prog.performs_call.mpr (.inr (transact_performs_tx 0 req))⟩

/-- A line of both pipelines shows the transaction id of a payment that passes the checks. -/
theorem pipeline_performs_txn (exits : Exits) (hPasses : Refusal.passesChecks cfg.atof text = true) :
    ∃ now level status, (lit status).all printed = true ∧
      ((pipeline exits cfg.atof c text).interp (implement cfg.maxRetries) .empty).Performs
        (answering true)
        (· = .logJson ⟨level, "txn_coordinator", some (makeTxnId req.requestId now).val, status, -1⟩) := by
  obtain ⟨now, level, status, hStatus, hTransact⟩ := transact_performs_txn cfg c exits 0 req
  rw [pipeline_parsed exits hParse]
  refine ⟨now, level, status, hStatus, Prog.performs_call.mpr (.inr (Prog.performs_call.mpr (.inr ?_)))⟩
  change Prog.Performs _ _
    ((processRequest exits cfg.atof 0 req c).interp (implement cfg.maxRetries) Memory.empty)
  have hChecks : luhnCheck req.pan = true ∧ amountInvalid (cfg.atof req.amountText) = false := by
    simpa [Refusal.passesChecks, hParse] using hPasses
  simp only [processRequest, hChecks.1, hChecks.2, Bool.not_true, Bool.false_eq_true, if_false]
  exact Prog.performs_call.mpr (.inr hTransact)

omit hParse

theorem clean_of_performed {a : Arrival} (h : EmitsWellFormed cfg a) {line : LogLine} {id : Bytes}
    (hOp : Performed cfg a (.logJson line)) (hLine : Written line) (hId : line.requestId = some id) :
    Clean id := by
  let t : Clock := ⟨1970, 1, 1, 0, 0, 0, 0⟩
  have hWellFormed := (ofLine_wellFormed_iff t hLine).mp (h _ hOp t _ rfl)
  rwa [hId] at hWellFormed

theorem idsClean_of_emitsWellFormed {a : Arrival} (h : EmitsWellFormed cfg a) :
    IdsClean cfg.atof a.route a.text := by
  rw [idsClean_iff]
  intro req hParse
  obtain ⟨route, text, c⟩ := a
  constructor
  · rintro ⟨⟩
    obtain ⟨level, hPerforms⟩ := pipeline_performs_tx cfg c hParse
    have hWritten : (lit "tx").all printed = true ∧ (lit "DECLINED").all printed = true := by
      decide +kernel
    exact clean_of_performed h (performed_of_performs false hPerforms) hWritten rfl
  · intro hPasses
    obtain ⟨now, level, status, hStatus, hPerforms⟩ :
        ∃ now level status, (lit status).all printed = true ∧ (serve cfg ⟨route, text, c⟩).Performs
          (answering true) (· = .logJson
            ⟨level, "txn_coordinator", some (makeTxnId req.requestId now).val, status, -1⟩) := by
      cases route with
      | line => exact pipeline_performs_txn hParse lineExits hPasses
      | body =>
        obtain ⟨now, level, status, hStatus, hPerforms⟩ := pipeline_performs_txn hParse httpExits hPasses
        refine ⟨now, level, status, hStatus, ?_⟩
        rw [serve, request, httpBodyRequest, Prog.interp_bind, Prog.performs_bind]
        exact .inl hPerforms
    have hEvent : (lit "txn_coordinator").all printed = true := rfl
    have hClean := clean_of_performed h (performed_of_performs true hPerforms) ⟨hEvent, hStatus⟩ rfl
    exact (clean_makeTxnId_iff req.requestId now).mp hClean

end Necessary

/-- All that is emitted for a request is well formed just when its ids are clean. -/
theorem emitsWellFormed_iff (cfg : Config) (a : Arrival) :
    EmitsWellFormed cfg a ↔ IdsClean cfg.atof a.route a.text :=
  ⟨idsClean_of_emitsWellFormed, emitsWellFormed_of_idsClean⟩

/-- `jget` ends a value at an escaped quote, and leaves the backslash at its end. -/
theorem not_emitsWellFormed :
    ¬∀ (cfg : Config) (a : Arrival), nul ∉ a.text → newline ∉ a.text → EmitsWellFormed cfg a := by
  intro h
  let text := lit "\x7b\"pan\":\"4111111111111111\",\"amount\":5,\"request_id\":\"a\\\"b\"\x7d"
  have hEmits := h ⟨Strtod.atof, 3⟩ ⟨.line, text, txnCoordinatorInit none none true⟩ (by decide)
    (by decide)
  have hClean := idsClean_of_emitsWellFormed hEmits [97, 92] (by decide) (by decide)
    (by decide)
  exact absurd ((hClean.1 rfl).1 92 (by decide)) (by decide)

end MiniVisa.Emitted
