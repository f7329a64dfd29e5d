import MiniVisa.Server.Handler.Calls
import MiniVisa.Server.Handler.Copies
import MiniVisa.Server.Handler.ReadLoop
import MiniVisa.Server.Handler.Work

/-! # The two copies do the same

Seen without the sending of the response, the latency clock and the handler's own log lines,
a line and a body with the same text lead to the same operations with the same answers, the
same result and the same response text.
-/

namespace MiniVisa.Equivalence

set_option autoImplicit false

open Interaction Text Framing Iso8583 Handler TransactionCoordinator

/-- The operations of coordinator, participants, reversal queue and metrics, with their
answers: all but the sending of the response, the latency clock and the `tx` log lines. -/
def shown : SysEvent → List SysEvent
  | ⟨.respond _, _⟩ => []
  | ⟨.respondHttp _ _ _, _⟩ => []
  | ⟨.gettimeofday, _⟩ => []
  | ⟨.logJson line, r⟩ => if line.event = "tx" then [] else [⟨.logJson line, r⟩]
  | x => [x]

/-- The JSON text that is sent. -/
def said : SysEvent → List Bytes
  | ⟨.respond r, _⟩ => [r.text]
  | ⟨.respondHttp _ _ r, _⟩ => [r.text]
  | _ => []

section Silence

def Silent : Call Who → Prop
  | .sys (.respond _) => False
  | .sys (.respondHttp _ _ _) => False
  | _ => True

theorem silent_clerical : Clerical Silent :=
  ⟨trivial, fun _ => trivial, fun _ => trivial, trivial, trivial⟩

theorem silent_txnAbort (c : Coordinator) (txn : Transaction Who) :
    (txnAbort c txn).All Silent fun _ => True := by
  exact silent_clerical.all_txnAbort (fun _ => True) (fun _ _ => trivial) (fun _ _ _ => trivial) c

theorem silent_aborted (c : Coordinator) (txn : Transaction Who) (response : Response) :
    (txnAbort c txn >>= fun c => (pure (response, c) : CallProg Who (Response × Coordinator))).All
      Silent fun r => r.1 = response := by
  rw [Prog.all_bind]
  exact (silent_txnAbort c txn).mono fun _ _ => rfl

theorem silent_txnCommit (c : Coordinator) (txn : Transaction Who) :
    (txnCommit c txn).All Silent fun _ => True := by
  exact silent_clerical.all_txnCommit (fun _ => True) (fun _ _ => trivial)
    (fun _ _ _ _ => trivial) (fun _ => trivial) c

theorem silent_countDeclined (reason : Reason) :
    (countDeclined reason).All Silent fun _ => True := by
  refine ⟨trivial, fun _ => ?_⟩
  split
  · exact ⟨trivial, fun _ => trivial⟩
  · trivial

theorem mute_implement (maxRetries : Nat) (e : Call Who) (mem : Memory) (he : Silent e) :
    (implement maxRetries e mem).All (Prog.Mute said) fun _ => True := by
  have hClearing : ClearingWork (Prog.Mute said) :=
    ⟨fun _ => rfl, fun _ => rfl, fun _ _ => rfl, fun _ _ => rfl, fun _ => rfl, fun _ _ => rfl,
      fun _ _ => rfl, fun _ _ _ => rfl⟩
  have hDb : DbWork (Prog.Mute said) :=
    ⟨fun _ => rfl, fun _ _ => rfl, fun _ _ _ => rfl, fun _ _ _ _ _ => rfl,
      fun _ _ _ _ _ _ => rfl, fun _ _ _ => rfl⟩
  refine all_implement hClearing hDb maxRetries e mem ?_ fun q _ => ?_
  · rintro op rfl
    cases op <;> first | exact he.elim | exact fun _ => rfl
  · exact hClearing.all_reversalEnqueue (fun _ _ _ => rfl) (fun _ => rfl) q

variable {maxRetries : Nat} {α β : Type}

theorem mute_interp (maxRetries : Nat) {p : CallProg Who α} {Q : α → Prop} (hp : p.All Silent Q)
    (mem : Memory) : (p.interp (implement maxRetries) mem).All (Prog.Mute said) fun x => Q x.1 := by
  refine (hp.interp _ (I := fun _ => True) ?_ trivial).mono fun x hx => hx.1
  exact fun e t he _ => mute_implement maxRetries e t he

/-- `q` sends nothing; `p` behaves like `q` and sends the text of the response besides. -/
structure Answers (maxRetries : Nat) (p q : CallProg Who (Response × Coordinator)) : Prop where
  silent : q.All Silent fun _ => True
  views : ∀ mem, Prog.AnswersFor shown said (fun x : (Response × Coordinator) × Memory => x.1.1.text)
    (p.interp (implement maxRetries) mem) (q.interp (implement maxRetries) mem)

theorem Answers.bind {p : CallProg Who α} {Q : α → Prop} (hp : p.All Silent Q)
    {f g : α → CallProg Who (Response × Coordinator)}
    (h : ∀ a, Q a → Answers maxRetries (f a) (g a)) :
    Answers maxRetries (p >>= f) (p >>= g) where
  silent := (Prog.all_bind _ _ _).mpr (hp.mono fun a ha => (h a ha).silent)
  views mem := by
    rw [Prog.interp_bind, Prog.interp_bind]
    exact Prog.AnswersFor.bind (mute_interp maxRetries hp mem) fun x hx => (h x.1 hx).views x.2

theorem Answers.call {e : Call Who} (he : Silent e)
    {f g : e.Ans → CallProg Who (Response × Coordinator)}
    (h : ∀ r, Answers maxRetries (f r) (g r)) :
    Answers maxRetries (Prog.call e .ret >>= f) (Prog.call e .ret >>= g) :=
  Answers.bind (p := .call e .ret) (Q := fun _ => True) ⟨he, fun _ => trivial⟩ fun r _ => h r

theorem Answers.ite {b : Prop} [Decidable b] {p q p' q' : CallProg Who (Response × Coordinator)}
    (h : Answers maxRetries p q) (h' : Answers maxRetries p' q') :
    Answers maxRetries (if b then p else p') (if b then q else q') := by
  split
  · exact h
  · exact h'

/-- Two programs that differ in what is hidden. -/
def Alike (maxRetries : Nat) (p q : CallProg Who α) : Prop :=
  ∀ mem, Prog.Similar shown said (p.interp (implement maxRetries) mem)
    (q.interp (implement maxRetries) mem)

theorem Alike.bind {p : CallProg Who α} {f g : α → CallProg Who β}
    (h : ∀ a, Alike maxRetries (f a) (g a)) : Alike maxRetries (p >>= f) (p >>= g) := by
  intro mem
  rw [Prog.interp_bind, Prog.interp_bind]
  exact Prog.Similar.bind fun x => h x.1 x.2

theorem Alike.logged {level : Level} {requestId : Option Bytes} {status : String} {latencyUs : Int}
    {p q : CallProg Who α} (h : Alike maxRetries p q) :
    Alike maxRetries (logMessageJson level "tx" requestId status latencyUs >>= fun _ => p) q :=
  fun mem => Prog.Similar.hidden ⟨()⟩ (fun _ => rfl) (fun _ => rfl) fun _ => h mem

theorem Alike.timed {f : Int → CallProg Who α} {q : CallProg Who α}
    (h : ∀ t, Alike maxRetries (f t) q) : Alike maxRetries (sys .gettimeofday >>= f) q :=
  fun mem => Prog.Similar.hidden ⟨(0 : Int)⟩ (fun _ => rfl) (fun _ => rfl) fun r => h r mem

theorem Alike.refl (p : CallProg Who α) : Alike maxRetries p p := fun _ => Prog.Similar.refl _

/-- The response is sent first; the rest is as before and ends in that response. -/
theorem Answers.respond {p q : CallProg Who (Response × Coordinator)} {response : Response}
    (h : Alike maxRetries p q) (hq : q.All Silent fun r => r.1 = response) :
    Answers maxRetries (Handler.respond response >>= fun _ => p) q where
  silent := hq.mono fun _ _ => trivial
  views mem := by
    refine Prog.AnswersFor.first ⟨()⟩ (fun _ => rfl) (fun _ => rfl) (fun _ => h mem) ?_
    exact (mute_interp maxRetries hq mem).mono fun x hx => congrArg Response.text hx

theorem Answers.respondHttp {p : CallProg Who (Response × Coordinator)}
    (hp : p.All Silent fun _ => True) (status : Response → Nat × String) :
    Answers maxRetries (p >>= fun r =>
      sys (.respondHttp (status r.1).1 (status r.1).2 r.1) >>= fun _ => pure r) p := by
  have hAnswers : Answers maxRetries (p >>= fun r =>
      sys (.respondHttp (status r.1).1 (status r.1).2 r.1) >>= fun _ => pure r) (p >>= pure) := by
    refine .bind hp fun r _ => ⟨trivial, fun mem => ?_⟩
    exact Prog.AnswersFor.first ⟨()⟩ (fun _ => rfl) (fun _ => rfl) (fun _ => .refl _) rfl
  rwa [Prog.bind_pure] at hAnswers

end Silence

section Pipeline

variable {maxRetries : Nat}

/-- A declining exit of the line copy against that of the body copy, whatever follows. -/
theorem answers_declined (requestId : Option Bytes) (reason : Reason)
    {p : CallProg Who (Response × Coordinator)}
    (hp : p.All Silent fun r => r.1 = .declined reason) :
    Answers maxRetries (lineExits.declined requestId reason >>= fun _ => p)
      (httpExits.declined requestId reason >>= fun _ => p) := by
  simp only [lineExits, httpExits, Prog.bind_assoc]
  refine Answers.respond (Alike.bind fun _ => (Alike.refl p).logged) ?_
  rw [Prog.all_bind]
  exact (silent_countDeclined reason).mono fun _ _ => hp

theorem answers_decline (requestId : Option Bytes) (reason : Reason) (c : Coordinator) :
    Answers maxRetries (decline lineExits requestId reason c)
      (decline httpExits requestId reason c) :=
  answers_declined requestId reason rfl

theorem answers_cleanup (requestId : Bytes) (reason : Reason) (c : Coordinator)
    (txn : Transaction Who) :
    Answers maxRetries (cleanup lineExits requestId reason c txn)
      (cleanup httpExits requestId reason c txn) := by
  refine answers_declined _ reason ⟨trivial, fun _ => ⟨trivial, fun _ => ?_⟩⟩
  exact silent_aborted c txn _

theorem answers_approved (t0 : Int) (requestId : Bytes) (isDup : Bool) (txnId : Bytes)
    (c : Coordinator) :
    Answers maxRetries
      (lineExits.approved t0 requestId isDup txnId >>= fun _ => pure (.approved isDup txnId, c))
      (httpExits.approved t0 requestId isDup txnId >>= fun _ => pure (.approved isDup txnId, c)) := by
  simp only [lineExits, httpExits, Prog.bind_assoc]
  refine Answers.respond (Alike.bind fun _ => ?_) ⟨trivial, fun _ => rfl⟩
  exact Alike.timed fun _ => (Alike.refl _).logged

theorem answers_settle (t0 : Int) (req : IsoRequest) (masked : Bytes) (c : Coordinator)
    (txn : Transaction Who) :
    Answers maxRetries (settle lineExits t0 req masked c txn)
      (settle httpExits t0 req masked c txn) := by
  unfold settle
  refine Answers.call (by trivial) fun inserted => ?_
  refine .ite (answers_cleanup _ _ c txn) ?_
  refine Answers.bind (silent_txnCommit c txn) fun committed _ => ?_
  refine Answers.call (by trivial) fun _ => ?_
  refine Answers.call (by trivial) fun _ => ?_
  refine .ite (answers_approved _ _ _ _ _) ?_
  refine Answers.call (by trivial) fun _ => ?_
  exact answers_declined _ _ rfl

theorem answers_enlist (t0 : Int) (req : IsoRequest) (masked : Bytes) (c : Coordinator)
    (txn : Transaction Who) :
    Answers maxRetries (enlist lineExits t0 req masked c txn)
      (enlist httpExits t0 req masked c txn) := by
  unfold enlist
  refine Answers.call (by trivial) fun first => ?_
  refine .ite (answers_cleanup _ _ c _) ?_
  refine Answers.call (by trivial) fun second => ?_
  refine .ite (answers_cleanup _ _ c _) ?_
  refine Answers.call (by trivial) fun begun => ?_
  refine .ite (answers_cleanup _ _ c _) ?_
  refine Answers.call (by trivial) fun set => ?_
  exact .ite (answers_cleanup _ _ c _) (answers_settle t0 req masked c _)

theorem answers_transact (t0 : Int) (req : IsoRequest) (c : Coordinator) :
    Answers maxRetries (transact lineExits t0 req c) (transact httpExits t0 req c) := by
  unfold transact
  refine Answers.call (by trivial) fun now => ?_
  refine Answers.bind (silent_clerical.all_txnBegin trivial c _) fun begun _ => ?_
  obtain ⟨_ | txn, c⟩ := begun
  · exact answers_decline _ _ c
  refine Answers.call (by trivial) fun dbc => ?_
  refine Answers.call (by trivial) fun dbCtx => ?_
  refine Answers.call (by trivial) fun clearingCtx => ?_
  refine .ite (answers_declined _ _ ?_) (answers_enlist t0 req _ c txn)
  have hAbort := silent_aborted c txn (.declined .participantInitFailed)
  exact all_released trivial trivial hAbort dbCtx clearingCtx

theorem answers_pipeline (atof : Bytes → Double) (c : Coordinator) (text : Bytes) :
    Answers maxRetries (pipeline lineExits atof c text) (pipeline httpExits atof c text) := by
  unfold pipeline
  refine Answers.call (by trivial) fun t0 => ?_
  refine Answers.call (by trivial) fun _ => ?_
  cases isoParseRequestLine text with
  | error e => exact answers_decline _ _ c
  | ok req =>
    refine .ite (answers_decline _ _ c) (.ite (answers_decline _ _ c) ?_)
    refine Answers.call (by trivial) fun rdec => ?_
    exact .ite (answers_decline _ _ c) (answers_transact t0 req c)

theorem alike_requests (atof : Bytes → Double) (c : Coordinator) {line body : Bytes}
    (hParse : isoParseRequestLine line = isoParseRequestLine body) :
    Alike maxRetries (lineRequest atof c line) (httpBodyRequest atof c body) := by
  have hText : pipeline lineExits atof c line = pipeline lineExits atof c body := by
    unfold pipeline
    rw [hParse]
  have hLine : Answers maxRetries _ _ := answers_pipeline atof c body
  have hBody : Answers maxRetries _ _ := .respondHttp hLine.silent httpStatus
  intro mem shown spoken a
  rw [lineRequest, hText, hLine.views mem shown spoken a]
  exact (hBody.views mem shown spoken a).symm

end Pipeline

section Parsing

theorem strstr_skipSpaces {q : UInt8} (hq : isspace q = false) (pattern s : Bytes) :
    strstr (q :: pattern) (skipSpaces s) = strstr (q :: pattern) s := by
  induction s with
  | nil => rfl
  | cons b s ih =>
    by_cases hb : isspace b = true
    · have hNot : q ≠ b := by
        rintro rfl
        rw [hb] at hq
        cases hq
      have hSkip : skipSpaces (b :: s) = skipSpaces s := by simp [skipSpaces, hb]
      rw [hSkip, ih]
      simp [strstr, List.isPrefixOf, hNot]
    · simp [skipSpaces, hb]

theorem jget_skipSpaces (s : Bytes) (key : String) (outsz : Nat) :
    jget (skipSpaces s) key outsz = jget s key outsz := by
  have hPattern : fit 64 (lit "\"" ++ lit key ++ lit "\"") =
      34 :: fit 63 (lit key ++ lit "\"") := rfl
  simp only [jget, hPattern, strstr_skipSpaces (q := 34) rfl]

theorem isoParseRequestLine_skipSpaces (s : Bytes) :
    isoParseRequestLine (skipSpaces s) = isoParseRequestLine s := by
  simp only [isoParseRequestLine, jget_skipSpaces]

end Parsing

section Requests

/-- What the handler does with the payments among its actions. -/
def process (cfg : Config) : Coordinator → List Action →
    SysProg (List ((Response × Coordinator) × Memory))
  | _, [] => pure []
  | c, .dispatch .payment line :: actions => do
    let r ← (linePipeline cfg.atof c line).interp (implement cfg.maxRetries) .empty
    let rest ← process cfg r.1.2 actions
    pure (r :: rest)
  | c, .body text :: actions => do
    let r ← (bodyPipeline cfg.atof c text).interp (implement cfg.maxRetries) .empty
    let rest ← process cfg r.1.2 actions
    pure (r :: rest)
  | c, _ :: actions => process cfg c actions

/-- The texts that both pipelines can be given: no terminator, no newline, no longer than a buffer,
and none of the routes. The read loop has no room for the newline of a line of 8191 bytes. -/
structure RequestText (s : Bytes) : Prop where
  noNul : nul ∉ s
  noNewline : newline ∉ s
  length_le : s.length ≤ bufCapacity
  payment : target (skipSpaces s) = .payment
  noPing : opensPing (skipSpaces s) = false
  noTx : opensTx (skipSpaces s) = false

/-- An authorised POST with the body `s`, of which `rest` has not been collected yet. -/
structure Awaiting (http : Http) (rest s : Bytes) : Prop where
  isSecureTx : http.isSecureTx = true
  collected : http.body ++ rest = s
  bodyRemaining : http.bodyRemaining = rest.length
  more : rest ≠ []

def replies : SysEvent → List (Nat × Bytes)
  | ⟨.respondHttp code _ r, _⟩ => [(code, r.text)]
  | _ => []

def saysApproved (text : Bytes) : Bool := (lit "\x7b\"status\":\"APPROVED\"").isPrefixOf text

/-- `s` as a line and `s` as a body: the same operations with the same answers, the same results
and the same texts, and one HTTP response, which has status 200 if its text says so. -/
def Equivalent (cfg : Config) (apiToken : Option Bytes) (c : Coordinator) (s : Bytes) : Prop :=
  ∀ lineHttp bodyHttp buf rest start, lineHttp.collecting = false → Awaiting bodyHttp rest s →
    ∃ conn actions, takeBody bodyHttp buf rest start = some (conn, actions) ∧
      Prog.Similar shown said
        (process cfg c (handleLines apiToken lineHttp (frames newline (s ++ [newline]))).2)
        (process cfg c actions) ∧
      ∀ tr results, (process cfg c actions).Runs tr results →
        ∃ response c' mem code, results = [((response, c'), mem)] ∧
          tr.flatMap said = [response.text] ∧ tr.flatMap replies = [(code, response.text)] ∧
          (code = 200 ↔ saysApproved response.text = true)

theorem takeBody_awaiting {http : Http} {rest s : Bytes} (h : Awaiting http rest s)
    (hText : RequestText s) (buf : Bytes) (start : Nat) :
    ∃ conn, takeBody http buf rest start = some (conn, [.body s]) := by
  have hLength : http.body.length + rest.length = s.length := by
    rw [← h.collected, List.length_append]
  have hLe := hText.length_le
  simp only [bufCapacity] at hLe
  have hFits : http.body.length + rest.length ≤ bodyCapacity := by
    simp only [bodyCapacity]
    omega
  have hTake : min rest.length http.bodyRemaining.toNat = rest.length := by
    rw [h.bodyRemaining]
    simp
  have hBody : cstr (s.take (bodyCapacity - 1)) = s := by
    rw [List.take_of_length_le (by simp only [bodyCapacity]; omega), cstr_of_not_mem hText.noNul]
  have hDone : http.bodyRemaining - rest.length = 0 := by
    rw [h.bodyRemaining, Int.sub_self]
  unfold takeBody
  rw [if_neg h.more]
  simp only [hTake, if_pos hFits, List.take_length, hDone, h.isSecureTx, and_self, if_true,
    h.collected, hBody]
  exact ⟨_, rfl⟩

theorem handleLines_text {s : Bytes} (hText : RequestText s) (apiToken : Option Bytes) {http : Http}
    (hHttp : http.collecting = false) :
    (handleLines apiToken http (frames newline (s ++ [newline]))).2 =
      if skipSpaces s = [] then [] else [.dispatch .payment (skipSpaces s)] := by
  have hFrames : frames newline (s ++ [newline]) = [s] := by
    rw [frames_append, frames_cons_sep, frames_nil, frames_eq_nil_iff.mpr hText.noNewline,
      remainder_of_not_mem hText.noNewline]
    simp
  simp only [hFrames, handleLines, cstr_of_not_mem hText.noNul, handleLine, hHttp, hText.noPing, hText.noTx,
    hText.payment, Bool.false_eq_true, if_false, List.append_nil]
  split <;> rfl

theorem status_ok_iff (r : Response) : (httpStatus r).1 = 200 ↔ saysApproved r.text = true := by
  cases r with
  | approved isDup id =>
    apply iff_of_true rfl
    cases isDup <;> rfl
  | declined reason =>
    refine iff_of_false ?_ ?_
    · cases reason <;> simp [httpStatus]
    · exact Bool.false_ne_true

theorem alike_pipelines (maxRetries : Nat) (atof : Bytes → Double) (c : Coordinator) (s : Bytes) :
    Alike maxRetries (linePipeline atof c (skipSpaces s)) (bodyPipeline atof c s) := by
  rw [linePipeline_eq, bodyPipeline_eq]
  exact alike_requests atof c (isoParseRequestLine_skipSpaces s)

/-- One HTTP response, with the status of its text. -/
theorem bodyPipeline_replies {maxRetries : Nat} {atof : Bytes → Double} {c : Coordinator}
    {text : Bytes} {mem : Memory} {tr : List SysEvent} {r : (Response × Coordinator) × Memory}
    (h : ((bodyPipeline atof c text).interp (implement maxRetries) mem).Runs tr r) :
    tr.flatMap said = [r.1.1.text] ∧
      tr.flatMap replies = [((httpStatus r.1.1).1, r.1.1.text)] := by
  have hAnswers : Answers maxRetries _ _ := answers_pipeline atof c text
  have hMute := mute_interp maxRetries hAnswers.silent mem
  have hReplies : ∀ e, Prog.Mute said e → Prog.Mute replies e := by
    intro e he
    cases e <;> first | exact fun _ => rfl | exact absurd (he ()) (by simp [said])
  rw [bodyPipeline_eq, httpBodyRequest, Prog.interp_bind] at h
  obtain ⟨x, tr₁, tr₂, rfl, h₁, h₂⟩ := Prog.runs_bind.mp h
  cases h₂ with
  | call _ h₂ =>
    cases h₂
    have hSaid := hMute.mute h₁
    have hReply := (hMute.imp hReplies).mute h₁
    simp [List.flatMap_append, hSaid, hReply, said, replies]

theorem pipelines_equivalent (cfg : Config) (apiToken : Option Bytes) (c : Coordinator) {s : Bytes}
    (hText : RequestText s) (hVisible : ∃ b ∈ s, isspace b = false) :
    Equivalent cfg apiToken c s := by
  intro lineHttp bodyHttp buf rest start hLine hBody
  obtain ⟨conn, hTake⟩ := takeBody_awaiting hBody hText buf start
  refine ⟨conn, [.body s], hTake, ?_, ?_⟩
  · have hNotBlank : skipSpaces s ≠ [] := by
      obtain ⟨b, hb, hSpace⟩ := hVisible
      intro hNil
      have hAll := List.dropWhile_eq_nil_iff.mp hNil b hb
      rw [hSpace] at hAll
      cases hAll
    rw [handleLines_text hText apiToken hLine, if_neg hNotBlank]
    simp only [process]
    intro shown spoken results
    simp only [Prog.shows_bind, alike_pipelines cfg.maxRetries cfg.atof c s .empty _ _ _]
  · intro tr results hRuns
    simp only [process] at hRuns
    obtain ⟨r, tr₁, tr₂, rfl, h₁, h₂⟩ := Prog.runs_bind.mp hRuns
    cases h₂
    obtain ⟨hSaid, hReplies⟩ := bodyPipeline_replies h₁
    refine ⟨r.1.1, r.1.2, r.2, _, rfl, ?_, ?_, status_ok_iff r.1.1⟩
    · rw [List.append_nil, hSaid]
    · rw [List.append_nil, hReplies]

def sampleConfig : Config := ⟨fun _ => .finite 1, 0⟩

def sampleText : Bytes := lit "\x7b\"pan\":\"0\",\"amount\":1\x7d"

theorem sampleText_equivalent :
    RequestText sampleText ∧
      Equivalent sampleConfig none (txnCoordinatorInit none none true) sampleText := by
  have hText : RequestText sampleText := by constructor <;> decide
  exact ⟨hText, pipelines_equivalent _ _ _ hText ⟨123, by decide, by decide⟩⟩

/-- A line of blanks is skipped, a body of blanks is a bad request. -/
theorem not_equivalent_blank :
    RequestText (lit " ") ∧
      ¬Equivalent sampleConfig none (txnCoordinatorInit none none true) (lit " ") := by
  have hText : RequestText (lit " ") := by constructor <;> decide
  refine ⟨hText, fun h => ?_⟩
  obtain ⟨conn, actions, hTake, hSimilar, hReplies⟩ :=
    h .initial { Http.initial with isSecureTx := true, bodyRemaining := 1 } [] (lit " ") 0 rfl
      ⟨rfl, rfl, rfl, by decide⟩
  rw [handleLines_text hText none rfl, if_pos (by decide)] at hSimilar
  -- as a line it shows nothing, so as a body it would have a run without a result
  obtain ⟨tr, hRuns, -, -⟩ := (hSimilar [] [] []).mp ⟨[], .ret _, rfl, rfl⟩
  obtain ⟨response, c, mem, code, hResults, -⟩ := hReplies tr [] hRuns
  cases hResults

end Requests

end MiniVisa.Equivalence
