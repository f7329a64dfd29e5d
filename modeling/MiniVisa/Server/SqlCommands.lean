import MiniVisa.Library.SqlLexer
import MiniVisa.Server.DbParticipant
import MiniVisa.Server.TransactionIds

/-! # The commands that name a prepared transaction

Prepare, commit and abort of the database participant write the transaction id between two
quotes. The id holds the client's request id as the parser took it, quotes included, while the
inserts pass client data as parameters.
-/

namespace MiniVisa.DbParticipant

set_option autoImplicit false

open Interaction Text Iso8583 Handler SqlLexer

/-- In some run the program sends this command. -/
def Sends {α : Type} (p : SysProg α) (cmd : SqlCommand) : Prop :=
  ∃ tr r conn, ∃ ok : Bool, p.Runs tr r ∧ ⟨.pgExec conn cmd, ok⟩ ∈ tr

/-- The words of the command and then one literal, which denotes `visa_` and the whole id. -/
def naming (words : List String) (txnId : Bytes) : List Token :=
  words.map (fun w => .word (lit w)) ++ [.literal (lit "visa_" ++ txnId)]

/-- Whatever the context, the commands sent for this id are the intended ones; a transaction that
is not prepared yet is rolled back without its name. -/
structure Unaltered (txnId : Bytes) : Prop where
  prepare : ∀ ctx cmd, Sends (dbParticipantPrepare ctx txnId) cmd →
    tokens cmd.text = some (naming ["PREPARE", "TRANSACTION"] txnId)
  commit : ∀ ctx cmd, Sends (dbParticipantCommit ctx txnId) cmd →
    tokens cmd.text = some (naming ["COMMIT", "PREPARED"] txnId)
  abort : ∀ ctx cmd, Sends (dbParticipantAbort ctx txnId) cmd →
    tokens cmd.text = some (if ctx.inTransaction ∧ ctx.currentTxnId = txnId
      then [.word (lit "ROLLBACK")] else naming ["ROLLBACK", "PREPARED"] txnId)

section Sending

variable {α : Type} {cmd : SqlCommand} {ctx : DBParticipantContext} {txnId : Bytes}

/-- The program sends no other command than this one. -/
def Only (cmd : SqlCommand) : Sys → Prop
  | .pgExec _ sent => sent = cmd
  | _ => True

theorem eq_of_sends {sent : SqlCommand} {p : SysProg α} (h : p.All (Only sent) fun _ => True)
    (hSends : Sends p cmd) : cmd = sent := by
  obtain ⟨tr, r, conn, ok, hRuns, hMem⟩ := hSends
  exact h.runs hRuns _ hMem

theorem only_log (level : Level) (txnId : Bytes) (status : String) :
    (log level txnId status).All (Only cmd) fun _ => True := ⟨trivial, fun _ => trivial⟩

theorem only_pgExec (ctx : DBParticipantContext) (cmd : SqlCommand) :
    (pgExec ctx cmd).All (Only cmd) fun _ => True := ⟨rfl, fun _ => trivial⟩

theorem only_dbParticipantPrepare :
    (dbParticipantPrepare ctx txnId).All (Only (.prepareTransaction txnId)) fun _ => True := by
  unfold dbParticipantPrepare
  split
  · simp only [Prog.all_bind]
    apply (only_pgExec ctx _).mono
    intro ok _
    split
    · exact (only_log _ _ _).mono fun _ _ => trivial
    · exact (only_log _ _ _).mono fun _ _ => trivial
  · rw [Prog.all_bind]
    exact (only_log _ _ _).mono fun _ _ => trivial

theorem only_dbParticipantCommit :
    (dbParticipantCommit ctx txnId).All (Only (.commitPrepared txnId)) fun _ => True := by
  simp only [dbParticipantCommit, Prog.all_bind]
  apply (only_pgExec ctx _).mono
  intro ok _
  split
  · exact (only_log _ _ _).mono fun _ _ => trivial
  · exact (only_log _ _ _).mono fun _ _ => trivial

theorem only_dbParticipantAbort :
    (dbParticipantAbort ctx txnId).All
      (Only (if ctx.inTransaction ∧ ctx.currentTxnId = txnId then .rollback
        else .rollbackPrepared txnId)) fun _ => True := by
  simp only [dbParticipantAbort, Prog.all_bind]
  apply (only_pgExec ctx _).mono
  intro ok _
  cases ok with
  | false => exact (only_log _ _ _).mono fun _ _ => trivial
  | true => exact (only_log _ _ _).mono fun _ _ => trivial

theorem sends_commit (ctx : DBParticipantContext) (txnId : Bytes) :
    Sends (dbParticipantCommit ctx txnId) (.commitPrepared txnId) :=
  ⟨_, _, .cast ctx.dbc, true, Prog.runs_runWith Sys.calm _, List.mem_cons_self⟩

end Sending

section Names

/-- A command with the id between quotes fits its buffer, and it is the intended one exactly when
the id has no quote. -/
theorem tokens_naming_iff (front : String) {words : List String} (txnId : TxnId)
    (hFront : reach .between (lit front ++ [quote]) =
      (words.map fun w => .word (lit w), .literal []))
    (hLength : (lit front).length ≤ 100) :
    tokens (fit 256 (lit front ++ lit "'visa_" ++ txnId.val ++ lit "'")) =
      some (naming words txnId.val) ↔ quote ∉ txnId.val := by
  have hId := txnId.length_lt
  have hFits : fit 256 (lit front ++ lit "'visa_" ++ txnId.val ++ lit "'") =
      (lit front ++ [quote]) ++ ((lit "visa_" ++ txnId.val) ++ [quote]) := by
    rw [fit_eq_self]
    · simp only [List.append_assoc]
      rfl
    · have hName : (lit "'visa_").length = 6 := rfl
      have hQuote : (lit "'").length = 1 := rfl
      simp only [List.length_append, hName, hQuote]
      omega
  have hVisa : quote ∉ lit "visa_" := by decide
  rw [hFits, naming, tokens_quoted_iff hFront]
  simp [hVisa]

variable {txnId : TxnId}

theorem tokens_prepareTransaction_iff :
    tokens (SqlCommand.prepareTransaction txnId.val).text =
      some (naming ["PREPARE", "TRANSACTION"] txnId.val) ↔ quote ∉ txnId.val :=
  tokens_naming_iff "PREPARE TRANSACTION " txnId (by decide) (by decide)

theorem tokens_commitPrepared_iff :
    tokens (SqlCommand.commitPrepared txnId.val).text =
      some (naming ["COMMIT", "PREPARED"] txnId.val) ↔ quote ∉ txnId.val :=
  tokens_naming_iff "COMMIT PREPARED " txnId (by decide) (by decide)

theorem tokens_rollbackPrepared_iff :
    tokens (SqlCommand.rollbackPrepared txnId.val).text =
      some (naming ["ROLLBACK", "PREPARED"] txnId.val) ↔ quote ∉ txnId.val :=
  tokens_naming_iff "ROLLBACK PREPARED " txnId (by decide) (by decide)

theorem unaltered_iff : Unaltered txnId.val ↔ quote ∉ txnId.val := by
  constructor
  · intro h
    exact tokens_commitPrepared_iff.mp (h.commit ⟨⟨0⟩, [], false⟩ _ (sends_commit _ _))
  · intro hQuote
    constructor
    case prepare =>
      intro ctx cmd hSends
      rw [eq_of_sends only_dbParticipantPrepare hSends]
      exact tokens_prepareTransaction_iff.mpr hQuote
    case commit =>
      intro ctx cmd hSends
      rw [eq_of_sends only_dbParticipantCommit hSends]
      exact tokens_commitPrepared_iff.mpr hQuote
    case abort =>
      intro ctx cmd hSends
      rw [eq_of_sends only_dbParticipantAbort hSends]
      split
      · rfl
      · exact tokens_rollbackPrepared_iff.mpr hQuote

theorem quote_mem_makeTxnId_iff {requestId : Bytes} {now : Int} :
    quote ∈ (makeTxnId requestId now).val ↔ quote ∈ requestId.take idRoom := by
  have hVisa : quote ∉ lit "visa_" := by decide
  have hTime : quote ∉ underscore :: decimal now := by
    intro h
    rcases List.mem_cons.mp h with h | h
    · exact absurd h (by decide)
    · rcases mem_decimal h with h | h
      · exact absurd h (by decide)
      · exact absurd h (by decide)
  rw [makeTxnId_val, idTail, List.take_append, List.mem_append, List.mem_append]
  constructor
  · rintro (h | h | h)
    · exact absurd h hVisa
    · exact h
    · exact absurd (List.mem_of_mem_take h) hTime
  · intro h
    exact .inr (.inl h)

end Names

/-- The commands for a request are the intended ones exactly when the client put no quote among
the bytes of its request id that the transaction id keeps. -/
theorem commands_unaltered_iff (req : IsoRequest) (now : Int) :
    Unaltered (makeTxnId req.requestId now).val ↔ quote ∉ req.requestId.take idRoom := by
  rw [unaltered_iff, quote_mem_makeTxnId_iff]

/-- A request whose id closes the literal and adds a statement of its own. -/
theorem commands_altered : ¬∀ (text : Bytes) (req : IsoRequest) (now : Int),
    isoParseRequestLine text = .ok req → Unaltered (makeTxnId req.requestId now).val := by
  intro h
  have hParse : isoParseRequestLine (lit
      "\x7b\"pan\":\"0\",\"amount\":1,\"request_id\":\"x'; DROP TABLE transactions; --\"\x7d") =
      .ok ⟨lit "0", lit "1", [], lit "x'; DROP TABLE transactions; --", .auth⟩ := by decide +kernel
  have hUnaltered := h _ _ 1700000000 hParse
  rw [unaltered_iff, quote_mem_makeTxnId_iff] at hUnaltered
  exact hUnaltered (by decide)

end MiniVisa.DbParticipant
