import MiniVisa.Server.Postgres
import MiniVisa.Server.Handler.Refusal
import MiniVisa.Server.Handler.Replies
import MiniVisa.Server.Handler.WriteAhead

/-! # The log file that a crash leaves

Every record is one line that is written and flushed at once to a file opened for appending, so the
workers' lines stand in the order of their writes and only the last can be torn. The ids come from
the clients: a bar in one does no harm to a reader that takes state and action from the end, a newline
does. A line has none, and the body of a POST can have one.
-/

namespace MiniVisa.LogFile

set_option autoImplicit false

open Interaction Transition Text Iso8583 TransactionCoordinator Handler WriteAhead

section Lines

def bar : UInt8 := 124

def txnStateToString : TransactionState → String
  | .init => "INIT"
  | .preparing => "PREPARING"
  | .prepared => "PREPARED"
  | .committing => "COMMITTING"
  | .committed => "COMMITTED"
  | .aborting => "ABORTING"
  | .aborted => "ABORTED"

def actionString : LogAction → String
  | .begin => "BEGIN"
  | .prepareStart => "PREPARE_START"
  | .prepared => "PREPARED"
  | .commitStart => "COMMIT_START"
  | .committed => "COMMITTED"
  | .abortStart => "ABORT_START"
  | .abortExplicit => "ABORT_EXPLICIT"
  | .aborted => "ABORTED"

/-- `"%ld|%s|%s|%s"`, which the source ends with a newline. -/
def line (r : LogRecord) : Bytes :=
  decimal r.now ++ bar :: (r.transactionId ++ bar ::
    (lit (txnStateToString r.state) ++ bar :: lit (actionString r.action)))

end Lines

section Runs

variable {W A : Type}

def written : SysEvent → List LogRecord
  | ⟨.txnLog r, _⟩ => [r]
  | _ => []

def writtenBy : Pool.Label Sys.Ans Arrival A → List LogRecord
  | .acted _ x => written x
  | _ => []

/-- The records of all workers in the order in which they were written. -/
def records (tr : List (Pool.Label Sys.Ans Arrival A)) : List LogRecord := tr.flatMap writtenBy

/-- The read loop of a connection hands the text on to the pipeline. -/
def HandedOn (route : Route) (text : Bytes) : Prop :=
  ∃ apiToken chunks, ∃ action ∈ actionsOf apiToken .initial chunks,
    Refusal.paymentOf action = some (route, text)

/-- A request of a worker whose log is open. The id in a body has no newline; in a line it cannot
have one. -/
structure Plain (a : Arrival) : Prop where
  logOpen : a.coordinator.logOpen = true
  handedOn : HandedOn a.route a.text
  oneLine : a.route = .body → ∀ req, isoParseRequestLine a.text = .ok req → newline ∉ req.requestId

variable {c : Pool.Setting Sys.Ans ((Response × Coordinator) × Memory) W Arrival A} {cfg : Config}
  {w₀ : W} {tr : List (Pool.Label Sys.Ans Arrival A)}
  {s : Pool.State Sys.Ans ((Response × Coordinator) × Memory) W}

/-- The records account for what the requests do to prepared transactions and tell of them. -/
structure Accounted (tr : List (Pool.Label Sys.Ans Arrival A))
    (s : Pool.State Sys.Ans ((Response × Coordinator) × Memory) W) (rs : List LogRecord) : Prop where
  announced : ∀ i op id actions, Underway tr s i op → announcedBy op = some (id, actions) →
    ∃ r ∈ rs, r.transactionId = id ∧ r.action ∈ actions
  told : ∀ i op id phase, Underway tr s i op → tellsOf op = some (id, phase) →
    ∀ who, Agreed id who phase (Pool.events i tr)
  agreed : ∀ r ∈ rs, ∀ id phase, tellsOf (.txnLog r) = some (id, phase) →
    ∃ i, ∀ who, Agreed id who phase (Pool.events i tr)

theorem HandedOn.newline_not_mem {text : Bytes} (h : HandedOn .line text) : newline ∉ text := by
  obtain ⟨apiToken, chunks, action, hAction, hPays⟩ := h
  cases action with
  | dispatch target line =>
    cases target with
    | payment =>
      cases hPays
      exact Replies.clean_actionsOf _ hAction _ _ rfl
    | _ => cases hPays
  | _ => cases hPays

/-- In the body of a POST it can have one. -/
example : (isoParseRequestLine (lit "\x7b\"pan\":\"0\",\"amount\":1,\"request_id\":\"a\nb\"\x7d")).toOption.map
    (·.requestId) = some (lit "a\nb") := by decide +kernel

theorem Plain.newline_not_mem {a : Arrival} (h : Plain a) {req : IsoRequest}
    (hParsed : isoParseRequestLine a.text = .ok req) : newline ∉ req.requestId := by
  cases hRoute : a.route with
  | line =>
    have hHanded := h.handedOn
    rw [hRoute] at hHanded
    exact Replies.newline_not_mem_requestId hHanded.newline_not_mem hParsed
  | body => exact h.oneLine hRoute req hParsed

end Runs

end MiniVisa.LogFile
