import MiniVisa.Library.Framing
import MiniVisa.Server.Text

/-! # The read loop of a connection

`handler_job` reads into one buffer, cuts it at newlines and acts on every line. Two HTTP
requests are recognised, `GET /secure/ping` and `POST /secure/tx`; the body of the second is
taken from the buffer as it comes. The unfinished rest of the buffer is moved to its
front only in the block that takes a body. Every other read leaves the lines it has
acted on where they are, with their newlines overwritten by terminators, and the next read
begins again at the front.
-/

namespace MiniVisa.Handler

set_option autoImplicit false

open Text Framing

/-- `sizeof(buf) - 1`. -/
def bufCapacity : Nat := 8191

/-- `sizeof(http_body)`. -/
def bodyCapacity : Nat := 8192

structure Http where
  collecting : Bool
  isSecurePing : Bool
  isSecureTx : Bool
  authz : Field 256
  contentLength : Int
  bodyRemaining : Int
  body : Bytes

def Http.initial : Http := ⟨false, false, false, .copy Field.pos256 [], -1, 0, []⟩

/-- The first `used` bytes of the buffer, and the state of the HTTP request. -/
structure Connection where
  buf : Bytes
  http : Http

def Connection.initial : Connection := ⟨[], .initial⟩

inductive Target
  | healthz | readyz | metrics | tx | version | payment
  deriving DecidableEq, Repr

inductive Action
  | dispatch (target : Target) (line : Bytes)
  | pingOk
  | unauthorized
  | badContentLength
  | body (text : Bytes)
  deriving DecidableEq

def target (line : Bytes) : Target :=
  if (lit "GET /healthz").isPrefixOf line then .healthz
  else if (lit "GET /readyz").isPrefixOf line then .readyz
  else if (lit "GET /metrics").isPrefixOf line then .metrics
  else if (lit "GET /tx?").isPrefixOf line then .tx
  else if (lit "GET /version").isPrefixOf line then .version
  else .payment

def opens (method path : String) (line : Bytes) : Bool :=
  (lit method).isPrefixOf line && (strstr (lit "HTTP/1.1") line).isSome &&
    ((line.drop (lit method).length).takeWhile (· != blank)).take 127 == lit path

def opensPing (line : Bytes) : Bool := opens "GET " "/secure/ping" line

def opensTx (line : Bytes) : Bool := opens "POST " "/secure/tx" line

def authorized (apiToken : Option Bytes) (authz : Bytes) : Bool :=
  match apiToken with
  | none => false
  | some token =>
    token != [] && authz != [] &&
      match strstr (lit "Bearer ") authz with
      | none => false
      | some p => (p.drop 7).dropWhile (· == blank) == token

def endOfHeaders (apiToken : Option Bytes) (http : Http) : Http × List Action :=
  let ok := authorized apiToken http.authz.val
  let (http, actions) :=
    if ok && http.isSecurePing then (http, [Action.pingOk])
    else if !ok && (http.isSecurePing || http.isSecureTx) then (http, [Action.unauthorized])
    else if ok && http.isSecureTx then
      if 0 ≤ http.contentLength ∧ http.contentLength ≤ bodyCapacity then
        ({ http with bodyRemaining := http.contentLength }, [])
      else ({ http with isSecureTx := false }, [Action.badContentLength])
    else (http, [])
  ({ http with collecting := false, isSecurePing := false, authz := .copy Field.pos256 [] }, actions)

def headerLine (http : Http) (line : Bytes) : Http :=
  if startsWithNoCase (lit "Authorization:") line then
    { http with authz := .copy Field.pos256 ((line.drop 14).dropWhile fun b => b == blank || b == tab) }
  else if startsWithNoCase (lit "Content-Length:") line then
    { http with contentLength := strtol ((line.drop 15).dropWhile fun b => b == blank || b == tab) }
  else http

def handleLine (apiToken : Option Bytes) (http : Http) (line : Bytes) : Http × List Action :=
  if line = [] then
    if http.collecting then endOfHeaders apiToken http else (http, [])
  else if opensPing line then
    ({ http with
      collecting := true, isSecurePing := true, isSecureTx := false
      authz := .copy Field.pos256 [], contentLength := -1 }, [])
  else if opensTx line then
    ({ http with
      collecting := true, isSecurePing := false, isSecureTx := true
      authz := .copy Field.pos256 [], contentLength := -1, bodyRemaining := 0, body := [] }, [])
  else if http.collecting then (headerLine http line, [])
  else (http, [.dispatch (target line) line])

/-- The C string at the start of each piece of the buffer, one after the other. -/
def handleLines (apiToken : Option Bytes) : Http → List Bytes → Http × List Action
  | http, [] => (http, [])
  | http, piece :: pieces =>
    let (http, actions) := handleLine apiToken http (skipSpaces (cstr piece))
    let (http, more) := handleLines apiToken http pieces
    (http, actions ++ more)

/-- Every newline that was found has been overwritten. -/
def terminate (buf : Bytes) : Bytes := buf.map fun b => if b = newline then nul else b

/-- Move what stands from `start` on to the front; `none` where `(buf + used) - start` wraps
around and the move runs out of the buffer. -/
def moveRemainder (buf : Bytes) (start : Nat) : Option Bytes :=
  if buf.length < start then none
  else if (buf.drop start).length = bufCapacity then some []
  else some (buf.drop start)

/-- The block that takes the body, `rest` being what follows the last line. -/
def takeBody (http : Http) (buf rest : Bytes) (start : Nat) : Option (Connection × List Action) :=
  if rest = [] then (moveRemainder buf start).map fun buf => (⟨buf, http⟩, [])
  else
    let taken := min rest.length http.bodyRemaining.toNat
    let http :=
      if http.body.length + taken ≤ bodyCapacity then
        { http with
          body := http.body ++ rest.take taken
          bodyRemaining := http.bodyRemaining - taken }
      else { http with bodyRemaining := 0 }
    let buf := rest.drop taken
    if http.bodyRemaining = 0 ∧ http.isSecureTx = true then
      some (⟨buf, { http with isSecureTx := false, body := [], contentLength := -1 }⟩,
        [.body (cstr (http.body.take (bodyCapacity - 1)))])
    else (moveRemainder buf start).map fun buf => (⟨buf, http⟩, [])

/-- One turn of the loop, after `read` has returned `chunk`. -/
def Connection.read (apiToken : Option Bytes) (c : Connection) (chunk : Bytes) :
    Option (Connection × List Action) :=
  let whole := c.buf ++ chunk
  let rest := remainder newline whole
  let (http, actions) := handleLines apiToken c.http (frames newline whole)
  if 0 < http.bodyRemaining then
    (takeBody http (terminate whole) rest (whole.length - rest.length)).map fun (c, more) =>
      (c, actions ++ more)
  else some (⟨terminate whole, http⟩, actions)

/-- The space that the next `read` offers; a `read` of no bytes ends the loop. -/
def Connection.free (c : Connection) : Nat := bufCapacity - c.buf.length

def serveReads (apiToken : Option Bytes) : Connection → List Bytes →
    Option (Connection × List Action)
  | c, [] => some (c, [])
  | c, chunk :: chunks => do
    let (c, actions) ← c.read apiToken chunk
    let (c, more) ← serveReads apiToken c chunks
    pure (c, actions ++ more)

/-- What a connection acts on, up to the move that leaves the buffer. -/
def actionsOf (apiToken : Option Bytes) : Connection → List Bytes → List Action
  | _, [] => []
  | c, chunk :: chunks =>
    match c.read apiToken chunk with
    | none => (handleLines apiToken c.http (frames newline (c.buf ++ chunk))).2
    | some (c, actions) => actions ++ actionsOf apiToken c chunks

/-- Where no move leaves the buffer, that is all. -/
theorem actionsOf_of_serveReads {apiToken : Option Bytes} {c c' : Connection} {chunks : List Bytes}
    {actions : List Action} (h : serveReads apiToken c chunks = some (c', actions)) :
    actionsOf apiToken c chunks = actions := by
  induction chunks generalizing c actions with
  | nil =>
    cases h
    rfl
  | cons chunk chunks ih =>
    obtain ⟨⟨d, now⟩, hRead, h⟩ := Option.bind_eq_some_iff.mp h
    obtain ⟨⟨d', later⟩, hServe, hPair⟩ := Option.bind_eq_some_iff.mp h
    cases hPair
    rw [actionsOf, hRead]
    simp only [ih hServe]

/-- Each `read` returns something, and no more than it had space for. -/
def Offered (apiToken : Option Bytes) : Connection → List Bytes → Prop
  | _, [] => True
  | c, chunk :: chunks =>
    chunk ≠ [] ∧ chunk.length ≤ c.free ∧
      ∀ c' actions, c.read apiToken chunk = some (c', actions) → Offered apiToken c' chunks

end MiniVisa.Handler
