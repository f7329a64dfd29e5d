import MiniVisa.Library.Views
import MiniVisa.Server.Handler.Calls

/-! # The two copies of the pipeline

The source writes the pipeline out twice. The copy for a line answers at each of its exits and
continues with the next line; the copy for a body is one nest of `else` branches that fills
in the response and its status, which are sent at the end. Here they stand as they are
written, and each is shown to be the common pipeline with its own exits.
-/

namespace MiniVisa.Handler

set_option autoImplicit false

open Interaction Text Iso8583 TransactionCoordinator

def linePipeline (atof : Bytes → Double) (coordinator : Coordinator) (line : Bytes) :
    CallProg Who (Response × Coordinator) := do
  let t0 : Int ← sys .gettimeofday
  metricsInc .total
  match isoParseRequestLine line with
  | .error _ =>
    respond (.declined .badRequest)
    metricsInc .declined
    logMessageJson .warn "tx" none "DECLINED" (-1)
    pure (.declined .badRequest, coordinator)
  | .ok req =>
    let requestId := req.requestId
    if !luhnCheck req.pan then
      respond (.declined .luhnFailed)
      metricsInc .declined
      metricsInc .riskDeclined
      logMessageJson .warn "tx" (some requestId) "DECLINED" (-1)
      pure (.declined .luhnFailed, coordinator)
    else if amountInvalid (atof req.amountText) then
      respond (.declined .amountInvalid)
      metricsInc .declined
      logMessageJson .warn "tx" (some requestId) "DECLINED" (-1)
      pure (.declined .amountInvalid, coordinator)
    else
      let rdec : RiskDecision ← sys (.riskEvaluate req.pan)
      if !rdec.allow then
        respond (.declined (.risk rdec.reason))
        metricsInc .declined
        logMessageJson .warn "tx" (some requestId) "DECLINED" (-1)
        pure (.declined (.risk rdec.reason), coordinator)
      else
        let masked := maskPan req.pan 64
        let now : Int ← sys .time
        let txnId := makeTxnId requestId now
        let begun ← txnBegin coordinator txnId
        let coordinator := begun.2
        match begun.1 with
        | none =>
          respond (.declined .txnInitFailed)
          metricsInc .declined
          logMessageJson .error "tx" (some requestId) "DECLINED" (-1)
          pure (.declined .txnInitFailed, coordinator)
        | some txn =>
          let dbc : Option DbHandle ← sys .dbThreadGet
          let dbCtx ← dbParticipantInit dbc
          let clearingCtx ← clearingParticipantInit
          if !dbCtx || !clearingCtx then
            respond (.declined .participantInitFailed)
            metricsInc .declined
            logMessageJson .error "tx" (some requestId) "DECLINED" (-1)
            if dbCtx then dbParticipantDestroy
            if clearingCtx then clearingParticipantDestroy
            let coordinator ← txnAbort coordinator txn
            pure (.declined .participantInitFailed, coordinator)
          else
            -- the two registrations stand in one condition, joined by `||`
            let registrationFailed := fun (txn : Transaction Who) => do
              respond (.declined .participantRegistrationFailed)
              metricsInc .declined
              logMessageJson .error "tx" (some requestId) "DECLINED" (-1)
              dbParticipantDestroy
              clearingParticipantDestroy
              let coordinator ← txnAbort coordinator txn
              pure (.declined .participantRegistrationFailed, coordinator)
            let first ← txnRegisterParticipant txn .database
            if first ≠ 0 then registrationFailed txn
            else
              let txn := txn.register (lit "database") .database
              let second ← txnRegisterParticipant txn .clearing
              if second ≠ 0 then registrationFailed txn
              else
                let txn := txn.register (lit "clearing") .clearing
                let began ← dbParticipantBegin txnId
                if began ≠ 0 then
                  respond (.declined .dbBeginFailed)
                  metricsInc .declined
                  logMessageJson .error "tx" (some requestId) "DECLINED" (-1)
                  dbParticipantDestroy
                  clearingParticipantDestroy
                  let coordinator ← txnAbort coordinator txn
                  pure (.declined .dbBeginFailed, coordinator)
                else
                  let set ← clearingParticipantSetTransaction txnId masked req.amountText
                  if set ≠ 0 then
                    respond (.declined .clearingSetupFailed)
                    metricsInc .declined
                    logMessageJson .error "tx" (some requestId) "DECLINED" (-1)
                    dbParticipantDestroy
                    clearingParticipantDestroy
                    let coordinator ← txnAbort coordinator txn
                    pure (.declined .clearingSetupFailed, coordinator)
                  else
                    let inserted ← dbParticipantInsertTransaction requestId masked req.amountText
                    if inserted.rc ≠ 0 then
                      respond (.declined .dbError)
                      metricsInc .declined
                      logMessageJson .error "tx" (some requestId) "DECLINED" (-1)
                      dbParticipantDestroy
                      clearingParticipantDestroy
                      let coordinator ← txnAbort coordinator txn
                      pure (.declined .dbError, coordinator)
                    else
                      let committed ← txnCommit coordinator txn
                      let coordinator := committed.2
                      dbParticipantDestroy
                      clearingParticipantDestroy
                      if committed.1 = 0 then
                        respond (.approved inserted.isDup txnId.val)
                        metricsInc .approved
                        let t1 : Int ← sys .gettimeofday
                        logMessageJson .info "tx" (some requestId) "APPROVED" (t1 - t0)
                        pure (.approved inserted.isDup txnId.val, coordinator)
                      else
                        let _ ← reversalEnqueue txnId masked req.amountText
                        respond (.declined .commitFailed)
                        metricsInc .declined
                        logMessageJson .error "tx" (some requestId) "DECLINED" (-1)
                        pure (.declined .commitFailed, coordinator)

/-- `body_json`, `http_code` and `http_reason`. -/
structure HttpReply where
  bodyJson : Response
  httpCode : Nat
  httpReason : String

def HttpReply.ok (response : Response) : HttpReply := ⟨response, 200, "OK"⟩

def HttpReply.badRequest (reason : Reason) : HttpReply := ⟨.declined reason, 400, "Bad Request"⟩

def HttpReply.internalServerError (reason : Reason) : HttpReply :=
  ⟨.declined reason, 500, "Internal Server Error"⟩

/-- The nest of branches in the copy for a body. -/
def bodyBranches (atof : Bytes → Double) (coordinator : Coordinator) (body : Bytes) :
    CallProg Who (HttpReply × Coordinator) := do
  let _ : Int ← sys .gettimeofday
  metricsInc .total
  match isoParseRequestLine body with
  | .error _ =>
    metricsInc .declined
    pure (.badRequest .badRequest, coordinator)
  | .ok req =>
    if !luhnCheck req.pan then
      metricsInc .declined
      metricsInc .riskDeclined
      pure (.badRequest .luhnFailed, coordinator)
    else if amountInvalid (atof req.amountText) then
      metricsInc .declined
      pure (.badRequest .amountInvalid, coordinator)
    else
      let rdec : RiskDecision ← sys (.riskEvaluate req.pan)
      if !rdec.allow then
        metricsInc .declined
        pure (⟨.declined (.risk rdec.reason), 402, "Payment Required"⟩, coordinator)
      else
        let masked := maskPan req.pan 64
        let now : Int ← sys .time
        let txnId := makeTxnId req.requestId now
        let begun ← txnBegin coordinator txnId
        let coordinator := begun.2
        match begun.1 with
        | none =>
          metricsInc .declined
          pure (.internalServerError .txnInitFailed, coordinator)
        | some txn =>
          let dbc : Option DbHandle ← sys .dbThreadGet
          let dbCtx ← dbParticipantInit dbc
          let clearingCtx ← clearingParticipantInit
          if !dbCtx || !clearingCtx then
            metricsInc .declined
            if dbCtx then dbParticipantDestroy
            if clearingCtx then clearingParticipantDestroy
            let coordinator ← txnAbort coordinator txn
            pure (.internalServerError .participantInitFailed, coordinator)
          else
            let registrationFailed := fun (txn : Transaction Who) => do
              metricsInc .declined
              dbParticipantDestroy
              clearingParticipantDestroy
              let coordinator ← txnAbort coordinator txn
              pure (.internalServerError .participantRegistrationFailed, coordinator)
            let first ← txnRegisterParticipant txn .database
            if first ≠ 0 then registrationFailed txn
            else
              let txn := txn.register (lit "database") .database
              let second ← txnRegisterParticipant txn .clearing
              if second ≠ 0 then registrationFailed txn
              else
                let txn := txn.register (lit "clearing") .clearing
                let began ← dbParticipantBegin txnId
                if began ≠ 0 then
                  metricsInc .declined
                  dbParticipantDestroy
                  clearingParticipantDestroy
                  let coordinator ← txnAbort coordinator txn
                  pure (.internalServerError .dbBeginFailed, coordinator)
                else
                  let set ← clearingParticipantSetTransaction txnId masked req.amountText
                  if set ≠ 0 then
                    metricsInc .declined
                    dbParticipantDestroy
                    clearingParticipantDestroy
                    let coordinator ← txnAbort coordinator txn
                    pure (⟨.declined .clearingSetupFailed, 502, "Bad Gateway"⟩, coordinator)
                  else
                    let inserted ← dbParticipantInsertTransaction req.requestId masked req.amountText
                    if inserted.rc ≠ 0 then
                      metricsInc .declined
                      dbParticipantDestroy
                      clearingParticipantDestroy
                      let coordinator ← txnAbort coordinator txn
                      pure (.internalServerError .dbError, coordinator)
                    else
                      let committed ← txnCommit coordinator txn
                      let coordinator := committed.2
                      dbParticipantDestroy
                      clearingParticipantDestroy
                      if committed.1 = 0 then
                        metricsInc .approved
                        pure (.ok (.approved inserted.isDup txnId.val), coordinator)
                      else
                        let _ ← reversalEnqueue txnId masked req.amountText
                        metricsInc .declined
                        pure (.internalServerError .commitFailed, coordinator)

def bodyPipeline (atof : Bytes → Double) (coordinator : Coordinator) (body : Bytes) :
    CallProg Who (Response × Coordinator) := do
  let r ← bodyBranches atof coordinator body
  let _ ← sys (.respondHttp r.1.httpCode r.1.httpReason r.1.bodyJson)
  pure (r.1.bodyJson, r.2)

section Equations

theorem txnBegin_congr {α : Type} {c : Coordinator} {txnId : TxnId}
    {f g : Option (Transaction Who) × Coordinator → CallProg Who α}
    (h : ∀ r, (∀ txn, r.1 = some txn → txn.transactionId = txnId) → f r = g r) :
    (txnBegin c txnId >>= f) = (txnBegin c txnId >>= g) := by
  have hClerical : Clerical fun _ : Call Who => True :=
    ⟨trivial, fun _ => trivial, fun _ => trivial, trivial, trivial⟩
  refine (hClerical.all_txnBegin trivial c txnId).bind_congr fun r hr => h r fun txn hTxn => ?_
  exact (hr txn hTxn).1

theorem linePipeline_eq (atof : Bytes → Double) (c : Coordinator) (line : Bytes) :
    linePipeline atof c line = lineRequest atof c line := by
  unfold linePipeline lineRequest pipeline
  refine bind_congr fun t0 => bind_congr fun _ => ?_
  cases isoParseRequestLine line with
  | error e => rfl
  | ok req =>
    refine ite_congr rfl (fun _ => rfl) fun _ => ite_congr rfl (fun _ => rfl) fun _ => ?_
    refine bind_congr fun rdec => ite_congr rfl (fun _ => rfl) fun _ => ?_
    refine bind_congr fun now => ?_
    generalize makeTxnId req.requestId now = txnId
    refine txnBegin_congr fun begun hBegun => ?_
    obtain ⟨_ | txn, c⟩ := begun
    · rfl
    · obtain rfl := hBegun txn rfl
      refine bind_congr fun dbc => bind_congr fun dbCtx => bind_congr fun clearingCtx => ?_
      refine ite_congr rfl (fun _ => rfl) fun _ => ?_
      refine bind_congr fun first => ite_congr rfl (fun _ => rfl) fun _ => ?_
      refine bind_congr fun second => ite_congr rfl (fun _ => rfl) fun _ => ?_
      refine bind_congr fun began => ite_congr rfl (fun _ => rfl) fun _ => ?_
      exact bind_congr fun set => ite_congr rfl (fun _ => rfl) fun _ => rfl

/-- A result of the common pipeline with the status that its response gets. -/
def replied (p : CallProg Who (Response × Coordinator)) : CallProg Who (HttpReply × Coordinator) :=
  p >>= fun r => pure (⟨r.1, (httpStatus r.1).1, (httpStatus r.1).2⟩, r.2)

theorem replied_bind {α : Type} (p : CallProg Who α)
    (f : α → CallProg Who (Response × Coordinator)) :
    replied (p >>= f) = p >>= fun a => replied (f a) := Prog.bind_assoc _ _ _

theorem replied_ite {b : Prop} [Decidable b] (p q : CallProg Who (Response × Coordinator)) :
    replied (if b then p else q) = if b then replied p else replied q := by
  split <;> rfl

/-- The exits after the registration, each with the status of its reason. -/
theorem replied_cleanup (requestId : Bytes) (reason : Reason) (hReason : reason ≠ .luhnFailed)
    (c : Coordinator) (txn : Transaction Who) :
    replied (cleanup httpExits requestId reason c txn) = (do
      metricsInc .declined
      dbParticipantDestroy
      clearingParticipantDestroy
      let c ← txnAbort c txn
      pure (⟨.declined reason, (httpStatus (.declined reason)).1,
        (httpStatus (.declined reason)).2⟩, c)) := by
  simp only [cleanup, httpExits, countDeclined, hReason, if_false, replied_bind]
  rfl

theorem replied_settle (t0 : Int) (req : IsoRequest) (masked : Bytes) (c : Coordinator)
    (txn : Transaction Who) :
    replied (settle httpExits t0 req masked c txn) = (do
      let inserted ← dbParticipantInsertTransaction req.requestId masked req.amountText
      if inserted.rc ≠ 0 then
        metricsInc .declined
        dbParticipantDestroy
        clearingParticipantDestroy
        let coordinator ← txnAbort c txn
        pure (.internalServerError .dbError, coordinator)
      else
        let committed ← txnCommit c txn
        dbParticipantDestroy
        clearingParticipantDestroy
        if committed.1 = 0 then
          metricsInc .approved
          pure (.ok (.approved inserted.isDup txn.transactionId.val), committed.2)
        else
          let _ ← reversalEnqueue txn.transactionId masked req.amountText
          metricsInc .declined
          pure (.internalServerError .commitFailed, committed.2)) := by
  simp only [settle, replied_bind, replied_ite]
  refine bind_congr fun inserted => ite_congr rfl (fun _ => ?_) fun _ => rfl
  exact replied_cleanup _ .dbError (by decide) c txn

theorem bodyBranches_eq (atof : Bytes → Double) (c : Coordinator) (body : Bytes) :
    bodyBranches atof c body = replied (pipeline httpExits atof c body) := by
  unfold bodyBranches pipeline
  simp only [replied_bind]
  refine bind_congr fun t0 => bind_congr fun _ => ?_
  cases isoParseRequestLine body with
  | error e => rfl
  | ok req =>
    simp only [replied_bind, replied_ite]
    refine ite_congr rfl (fun _ => rfl) fun _ => ite_congr rfl (fun _ => rfl) fun _ => ?_
    refine bind_congr fun rdec => ite_congr rfl (fun _ => rfl) fun _ => ?_
    simp only [transact, replied_bind]
    refine bind_congr fun now => ?_
    generalize makeTxnId req.requestId now = txnId
    refine txnBegin_congr fun begun hBegun => ?_
    obtain ⟨_ | txn, c⟩ := begun
    · rfl
    · obtain rfl := hBegun txn rfl
      simp only [replied_bind, replied_ite, enlist]
      refine bind_congr fun dbc => bind_congr fun dbCtx => bind_congr fun clearingCtx => ?_
      refine ite_congr rfl (fun _ => ?_) fun _ => ?_
      · cases dbCtx <;> cases clearingCtx <;> rfl
      refine bind_congr fun first => ite_congr rfl (fun _ => ?_) fun _ => ?_
      · exact (replied_cleanup _ .participantRegistrationFailed (by decide) c _).symm
      refine bind_congr fun second => ite_congr rfl (fun _ => ?_) fun _ => ?_
      · exact (replied_cleanup _ .participantRegistrationFailed (by decide) c _).symm
      refine bind_congr fun began => ite_congr rfl (fun _ => ?_) fun _ => ?_
      · exact (replied_cleanup _ .dbBeginFailed (by decide) c _).symm
      refine bind_congr fun set => ite_congr rfl (fun _ => ?_) fun _ => ?_
      · exact (replied_cleanup _ .clearingSetupFailed (by decide) c _).symm
      · exact (replied_settle _ _ _ c _).symm

theorem bodyPipeline_eq (atof : Bytes → Double) (c : Coordinator) (body : Bytes) :
    bodyPipeline atof c body = httpBodyRequest atof c body := by
  simp only [bodyPipeline, bodyBranches_eq, replied, Prog.bind_assoc]
  rfl

end Equations

end MiniVisa.Handler
