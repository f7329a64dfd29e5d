import MiniVisa.Library.Views
import MiniVisa.Server.Handler.Calls
import MiniVisa.Server.Handler.Process
import MiniVisa.Server.Handler.Segmentation

/-! # What becomes of the body of a refused POST

A POST without a valid token is answered with 401 at the end of its header block. The loop
then leaves header mode and goes on with the next byte, which is the first byte of the body:
the lines of the body are lines like any other. Here every turn of the loop carries the place
of its line in the stream, so that it can be said which bytes a request is made of.
-/

namespace MiniVisa.Refusal

set_option autoImplicit false

open Interaction Text Framing Iso8583 Handler TransactionCoordinator

section Begin

/-- The calls a pipeline makes up to its call of `txn_begin`. -/
def Early : Call Who → Prop
  | .sys .gettimeofday => True
  | .sys .time => True
  | .sys (.metric _) => True
  | .sys (.respond _) => True
  | .sys (.respondHttp _ _ _) => True
  | .sys (.riskEvaluate _) => True
  | .sys (.logJson line) => line.event = "tx"
  | _ => False

theorem txnBegin_late {c : Coordinator} {txnId : TxnId} {tr : List (CallEvent Who)}
    {r : Option (Transaction Who) × Coordinator} (h : (txnBegin c txnId).Runs tr r) :
    ∃ x ∈ tr, ¬Early x.1 := by
  have hLog : ∀ status : String,
      ¬Early (.sys (.logJson ⟨.error, "txn_coordinator", some txnId.val, status, -1⟩)) := by
    intro status
    simp [Early]
  unfold txnBegin at h
  split at h
  · cases h with
    | call r h => exact ⟨_, List.mem_cons_self, hLog _⟩
  · split at h
    · cases h with
      | call r h => exact ⟨_, List.mem_cons_self, hLog _⟩
    · cases h with
      | call r h => exact ⟨_, List.mem_cons_self, fun hEarly => hEarly⟩

/-- Some run on this text reaches `txn_begin`, and so makes a call that is not an early one. -/
def ReachesTxnBegin (atof : Bytes → Double) (c : Coordinator) (route : Route) (text : Bytes) : Prop :=
  ∃ tr r, (request route atof c text).Runs tr r ∧ ∃ x ∈ tr, ¬Early x.1

/-- Parser, Luhn check and amount check, in the order of the pipeline. -/
def passesChecks (atof : Bytes → Double) (text : Bytes) : Bool :=
  match isoParseRequestLine text with
  | .error _ => false
  | .ok req => luhnCheck req.pan && !amountInvalid (atof req.amountText)

variable {atof : Bytes → Double} {c : Coordinator} {text : Bytes}

theorem early_decline {exits : Exits}
    (hExits : ∀ requestId reason, (exits.declined requestId reason).All Early fun _ => True)
    (requestId : Option Bytes) (reason : Reason) :
    (decline exits requestId reason c).All Early fun _ => True := by
  rw [decline, Prog.all_bind]
  exact (hExits requestId reason).mono fun _ _ => trivial

theorem early_countDeclined (reason : Reason) :
    (countDeclined reason).All Early fun _ => True := by
  refine ⟨trivial, fun _ => ?_⟩
  split
  · exact ⟨trivial, fun _ => trivial⟩
  · trivial

theorem early_lineExits (requestId : Option Bytes) (reason : Reason) :
    (lineExits.declined requestId reason).All Early fun _ => True := by
  simp only [lineExits, Prog.all_bind]
  refine ⟨trivial, fun _ => (early_countDeclined reason).mono fun _ _ => ⟨rfl, fun _ => trivial⟩⟩

theorem early_pipeline {exits : Exits}
    (hExits : ∀ requestId reason, (exits.declined requestId reason).All Early fun _ => True)
    (h : passesChecks atof text = false) :
    (pipeline exits atof c text).All Early fun _ => True := by
  unfold passesChecks at h
  cases hParse : isoParseRequestLine text with
  | error e =>
    rw [pipeline_unread exits hParse]
    exact ⟨trivial, fun t0 => ⟨trivial, fun _ => early_decline hExits _ _⟩⟩
  | ok req =>
    rw [hParse] at h
    rw [pipeline_parsed exits hParse]
    refine ⟨trivial, fun t0 => ⟨trivial, fun _ => ?_⟩⟩
    change (processRequest exits atof t0 req c).All Early fun _ => True
    unfold processRequest
    cases hLuhn : luhnCheck req.pan with
    | false => simpa [hLuhn] using early_decline hExits (some req.requestId) .luhnFailed
    | true =>
      have hAmount : amountInvalid (atof req.amountText) = true := by simpa [hLuhn] using h
      simpa [hLuhn, hAmount] using early_decline hExits (some req.requestId) .amountInvalid

theorem pipeline_reaches (exits : Exits) (h : passesChecks atof text = true) :
    ∃ tr r, (pipeline exits atof c text).Runs tr r ∧ ∃ x ∈ tr, ¬Early x.1 := by
  unfold passesChecks at h
  cases hParse : isoParseRequestLine text with
  | error e =>
    rw [hParse] at h
    cases h
  | ok req =>
    simp only [hParse, Bool.and_eq_true, Bool.not_eq_true'] at h
    have hTransact := Prog.runs_runWith (Call.calm fun _ _ => 0) (transact exits 0 req c)
    obtain ⟨tr, r, hRuns⟩ : ∃ tr r, (transact exits 0 req c).Runs tr r := ⟨_, _, hTransact⟩
    have hLate : ∃ x ∈ tr, ¬Early x.1 := by
      unfold transact at hRuns
      obtain ⟨now, tr₀, rest, rfl, -, hRuns⟩ := Prog.runs_bind.mp hRuns
      obtain ⟨begun, tr₁, tr₂, rfl, hBegin, -⟩ := Prog.runs_bind.mp hRuns
      obtain ⟨x, hx, hNot⟩ := txnBegin_late hBegin
      exact ⟨x, List.mem_append_right _ (List.mem_append_left _ hx), hNot⟩
    obtain ⟨x, hx, hNot⟩ := hLate
    refine ⟨⟨.sys .gettimeofday, (0 : Int)⟩ :: ⟨.sys (.metric .total), ()⟩ ::
      ⟨.sys (.riskEvaluate req.pan), ⟨true, []⟩⟩ :: tr, r, ?_, x, ?_, hNot⟩
    · rw [pipeline_parsed exits hParse]
      refine .call _ (.call _ ?_)
      change (processRequest exits atof 0 req c).Runs _ _
      simp only [processRequest, h.1, h.2, Bool.not_true, Bool.false_eq_true, if_false]
      exact .call _ hRuns
    · simp [hx]

theorem reachesTxnBegin_iff (route : Route) :
    ReachesTxnBegin atof c route text ↔ passesChecks atof text = true := by
  constructor
  · rintro ⟨tr, r, hRuns, x, hx, hNot⟩
    by_contra hFails
    have hFails := Bool.eq_false_iff.mpr hFails
    have hEarly : (request route atof c text).All Early fun _ => True := by
      cases route with
      | line => exact early_pipeline early_lineExits hFails
      | body =>
        rw [request, httpBodyRequest, Prog.all_bind]
        refine (early_pipeline (fun _ => early_countDeclined) hFails).mono fun r _ => ?_
        exact ⟨trivial, fun _ => trivial⟩
    exact hNot (hEarly.runs hRuns x hx)
  · intro hPasses
    cases route with
    | line => exact pipeline_reaches lineExits hPasses
    | body =>
      obtain ⟨tr, r, hRuns, x, hx, hNot⟩ := pipeline_reaches httpExits hPasses
      refine ⟨_, r, Prog.runs_bind.mpr ⟨r, tr, _, rfl, hRuns, .call () (.ret r)⟩, x, ?_, hNot⟩
      exact List.mem_append_left _ hx

end Begin

section Places

/-- A turn of the line loop: the state before it, the bytes up to the newline, and where in
the stream they begin. -/
structure Turn where
  http : Http
  piece : Bytes
  pos : Nat

def Turn.line (t : Turn) : Bytes := skipSpaces (cstr t.piece)

def Turn.first (t : Turn) : Nat := t.pos + ((cstr t.piece).takeWhile isspace).length

def Turn.next (t : Turn) : Nat := t.pos + t.piece.length + 1

def lineTurns (apiToken : Option Bytes) : Http → Nat → List Bytes → List Turn
  | _, _, [] => []
  | http, pos, piece :: pieces =>
    ⟨http, piece, pos⟩ :: lineTurns apiToken
      (handleLine apiToken http (skipSpaces (cstr piece))).1 (pos + piece.length + 1) pieces

/-- A turn of the line loop, or a body that has been collected, with the places of its bytes. -/
inductive Event
  | line (t : Turn)
  | body (text : Bytes) (places : List Nat)

/-- The places of the bytes that an event takes as a text. -/
def Event.bytes : Event → List Nat
  | .line t => (List.range t.line.length).map (t.first + ·)
  | .body _ places => places

def Event.actions (apiToken : Option Bytes) : Event → List Action
  | .line t => (handleLine apiToken t.http t.line).2
  | .body text _ => [.body text]

def paymentOf : Action → Option (Route × Bytes)
  | .dispatch .payment line => some (.line, line)
  | .body text => some (.body, text)
  | _ => none

def Event.requests (apiToken : Option Bytes) (e : Event) : List (Route × Bytes) :=
  (e.actions apiToken).filterMap paymentOf

/-- The connection, the number of bytes read and the places of the body collected so far. -/
structure Tracked where
  conn : Connection
  total : Nat
  collected : List Nat

def Tracked.initial : Tracked := ⟨.initial, 0, []⟩

/-- The places of what `takeBody` takes. -/
def takenPlaces (http : Http) (rest : Bytes) (total : Nat) : List Nat :=
  let taken := min rest.length http.bodyRemaining.toNat
  if http.body.length + taken ≤ bodyCapacity then
    (List.range taken).map (total - rest.length + ·)
  else []

def bodyEvent (places : List Nat) : Action → Option Event
  | .body text => some (.body text places)
  | _ => none

/-- `Connection.read` with places; a new request has nothing collected yet. -/
def Tracked.read (apiToken : Option Bytes) (c : Tracked) (chunk : Bytes) :
    Option (Tracked × List Event) :=
  let whole := c.conn.buf ++ chunk
  let rest := remainder newline whole
  let total := c.total + chunk.length
  let turns := lineTurns apiToken c.conn.http (total - whole.length) (frames newline whole)
  let http := (handleLines apiToken c.conn.http (frames newline whole)).1
  let kept := c.collected.take http.body.length
  if 0 < http.bodyRemaining then
    let places := kept ++ takenPlaces http rest total
    (takeBody http (terminate whole) rest (whole.length - rest.length)).map fun (conn, more) =>
      (⟨conn, total, places⟩, turns.map .line ++ more.filterMap (bodyEvent places))
  else some (⟨⟨terminate whole, http⟩, total, kept⟩, turns.map .line)

def turnsOf (apiToken : Option Bytes) (c : Tracked) (chunk : Bytes) : List Turn :=
  lineTurns apiToken c.conn.http (c.total + chunk.length - (c.conn.buf ++ chunk).length)
    (frames newline (c.conn.buf ++ chunk))

/-- The events of a run, up to the turn that leaves the buffer. -/
def seen (apiToken : Option Bytes) : Tracked → List Bytes → List Event
  | _, [] => []
  | c, chunk :: chunks =>
    match c.read apiToken chunk with
    | none => (turnsOf apiToken c chunk).map .line
    | some (c, events) => events ++ seen apiToken c chunks

variable {apiToken : Option Bytes}

theorem handleLines_turns (http : Http) (pos : Nat) (pieces : List Bytes) :
    (handleLines apiToken http pieces).2 = ((lineTurns apiToken http pos pieces).map Event.line).flatMap
      (Event.actions apiToken) := by
  induction pieces generalizing http pos with
  | nil => rfl
  | cons piece pieces ih =>
    simp only [handleLines, lineTurns, List.map_cons, List.flatMap_cons, ih _ (pos + piece.length + 1)]
    rfl

theorem read_actions (c : Tracked) (chunk : Bytes) :
    (c.read apiToken chunk).map (fun r => (r.1.conn, r.2.flatMap (Event.actions apiToken))) =
      c.conn.read apiToken chunk := by
  simp only [Tracked.read, Connection.read]
  split
  · rw [Option.map_map]
    refine Option.map_congr fun r hr => ?_
    obtain ⟨-, hMore⟩ := takeBody_cases (Option.mem_def.mp hr) (remainder_suffix_terminate _)
    simp only [Function.comp_apply, List.flatMap_append, ← handleLines_turns]
    rcases hMore with hMore | ⟨text, hMore⟩
    · simp [hMore]
    · simp [hMore, bodyEvent, Event.actions]
  · simp [← handleLines_turns]

/-- The places change nothing: without them the events are the actions of the loop. -/
theorem seen_actions (c : Tracked) (chunks : List Bytes) :
    (seen apiToken c chunks).flatMap (Event.actions apiToken) = actionsOf apiToken c.conn chunks := by
  induction chunks generalizing c with
  | nil => rfl
  | cons chunk chunks ih =>
    rw [seen, actionsOf, ← read_actions]
    cases c.read apiToken chunk with
    | none => exact (handleLines_turns _ _ _).symm
    | some r =>
      rw [Option.map_some]
      simp only [List.flatMap_append, ih]

end Places

section Boundaries

variable {apiToken : Option Bytes}

/-- The newline before `b` is behind the loop: where the buffer still holds it, it has been
overwritten. -/
structure Sealed (c : Tracked) (b : Nat) : Prop where
  pos : 0 < b
  le : b ≤ c.total
  terminated : c.total - c.conn.buf.length < b →
    c.conn.buf[b - 1 - (c.total - c.conn.buf.length)]? = some nul

/-- A text that has bytes from `b` on begins there. -/
def NotAcross (b : Nat) : Event → Prop
  | .line u => ∀ p ∈ Event.bytes (.line u), b ≤ p → b ≤ u.first
  | .body _ _ => True

theorem lineTurns_place {http : Http} {pos : Nat} {pieces : List Bytes} {u : Turn}
    (hu : u ∈ lineTurns apiToken http pos pieces) (rest : Bytes) :
    ∃ before after, (pieces.flatMap fun f => f ++ [newline]) ++ rest =
      before ++ (u.piece ++ newline :: after) ∧ u.pos = pos + before.length := by
  induction pieces generalizing http pos with
  | nil => cases hu
  | cons piece pieces ih =>
    rcases List.mem_cons.mp hu with rfl | hu
    · exact ⟨[], (pieces.flatMap fun f => f ++ [newline]) ++ rest, by simp, rfl⟩
    · obtain ⟨before, after, hEq, hPos⟩ := ih hu
      refine ⟨piece ++ newline :: before, after, ?_, ?_⟩
      · simp only [List.flatMap_cons, List.append_assoc, List.cons_append, List.nil_append] at hEq ⊢
        rw [hEq]
      · rw [hPos]
        simp only [List.length_append, List.length_cons]
        omega

theorem le_of_mem_lineTurns {http : Http} {pos : Nat} {pieces : List Bytes} {u : Turn}
    (hu : u ∈ lineTurns apiToken http pos pieces) : pos ≤ u.pos := by
  obtain ⟨before, -, -, hPos⟩ := lineTurns_place hu []
  omega

theorem Turn.pos_le_first (u : Turn) : u.pos ≤ u.first := Nat.le_add_right _ _

theorem Turn.first_add_length (u : Turn) : u.first + u.line.length = u.pos + (cstr u.piece).length := by
  have hSplit := congrArg List.length (List.takeWhile_append_dropWhile (p := isspace) (l := cstr u.piece))
  rw [List.length_append] at hSplit
  simp only [Turn.first, Turn.line, skipSpaces]
  omega

theorem lineTurns_pairwise (http : Http) (pos : Nat) (pieces : List Bytes) :
    (lineTurns apiToken http pos pieces).Pairwise fun t u => t.next ≤ u.pos := by
  induction pieces generalizing http pos with
  | nil => exact .nil
  | cons piece pieces ih => exact .cons (fun u hu => le_of_mem_lineTurns hu) (ih _ _)

theorem cstr_getElem {piece : Bytes} {j : Nat} (hj : j < (cstr piece).length) :
    ∃ b, piece[j]? = some b ∧ b ≠ nul := by
  obtain ⟨t, ht⟩ : cstr piece <+: piece := List.takeWhile_prefix _
  refine ⟨(cstr piece)[j], ?_, ?_⟩
  · conv_lhs => rw [← ht]
    rw [List.getElem?_append_left hj, List.getElem?_eq_getElem hj]
  · have hMem := List.mem_takeWhile_imp (List.getElem_mem hj)
    simpa using hMem

/-- The buffer is the end of what has been read. -/
def Window (c : Tracked) : Prop := c.conn.buf.length ≤ c.total

theorem read_cases {c c' : Tracked} {chunk : Bytes} {events : List Event}
    (h : c.read apiToken chunk = some (c', events)) :
    c'.total = c.total + chunk.length ∧ c'.conn.buf <:+ terminate (c.conn.buf ++ chunk) ∧
      ∃ bodies, events = (turnsOf apiToken c chunk).map .line ++ bodies ∧
        ∀ e ∈ bodies, ∃ text places, e = .body text places := by
  simp only [Tracked.read] at h
  split at h
  · obtain ⟨⟨conn, more⟩, hTake, hPair⟩ := Option.map_eq_some_iff.mp h
    obtain ⟨hBuf, hMore⟩ := takeBody_cases hTake (remainder_suffix_terminate _)
    cases hPair
    refine ⟨rfl, hBuf, _, rfl, ?_⟩
    rcases hMore with rfl | ⟨text, rfl⟩
    · simp
    · simp [bodyEvent]
  · cases h
    exact ⟨rfl, List.suffix_rfl, [], (List.append_nil _).symm, List.forall_mem_nil _⟩

variable {c c' : Tracked} {chunk : Bytes} {events : List Event} {b : Nat}

theorem Window.read (hWindow : Window c) (h : c.read apiToken chunk = some (c', events)) :
    Window c' := by
  obtain ⟨hTotal, hBuf, -⟩ := read_cases h
  have hLength := hBuf.length_le
  unfold Window at hWindow ⊢
  simp only [terminate, List.length_map, List.length_append] at hLength
  omega

/-- Where the front of the buffer stands in the stream does not change while a chunk is added. -/
theorem Window.base (hWindow : Window c) :
    c.total + chunk.length - (c.conn.buf ++ chunk).length = c.total - c.conn.buf.length := by
  unfold Window at hWindow
  rw [List.length_append]
  omega

/-- A terminator in the buffer is still there in what is kept of the buffer. -/
theorem Sealed.of_suffix {window : Bytes} (base : Nat) (hPos : 0 < b) (hLe : b ≤ c.total)
    (hTotal : c.total = base + window.length) (hBuf : c.conn.buf <:+ window)
    (hNul : base < b → window[b - 1 - base]? = some nul) : Sealed c b := by
  obtain ⟨gone, rfl⟩ := hBuf
  rw [List.length_append] at hTotal
  refine ⟨hPos, hLe, fun hIn => ?_⟩
  have hAt := hNul (by omega)
  rw [List.getElem?_append_right (by omega)] at hAt
  rw [← hAt]
  congr 1
  omega

theorem terminate_getElem {buf : Bytes} {i : Nat} {x : UInt8} (h : buf[i]? = some x)
    (hx : x = newline ∨ x = nul) : (terminate buf)[i]? = some nul := by
  rw [terminate, List.getElem?_map, h]
  rcases hx with rfl | rfl <;> rfl

theorem Sealed.getElem (hSealed : Sealed c b) (hWindow : Window c)
    (hIn : c.total - c.conn.buf.length < b) (chunk : Bytes) :
    (c.conn.buf ++ chunk)[b - 1 - (c.total - c.conn.buf.length)]? = some nul := by
  have hLe := hSealed.le
  unfold Window at hWindow
  rw [List.getElem?_append_left (by omega)]
  exact hSealed.terminated hIn

theorem Sealed.read (hSealed : Sealed c b) (hWindow : Window c)
    (h : c.read apiToken chunk = some (c', events)) : Sealed c' b := by
  obtain ⟨hTotal, hBuf, -⟩ := read_cases h
  have hLe := hSealed.le
  have hBase := hWindow
  unfold Window at hBase
  refine .of_suffix (c.total - c.conn.buf.length) hSealed.pos (by omega) ?_ hBuf ?_
  · simp only [terminate, List.length_map, List.length_append]
    omega
  · intro hIn
    exact terminate_getElem (hSealed.getElem hWindow hIn chunk) (.inr rfl)

theorem turn_place (hWindow : Window c) {u : Turn} (hu : u ∈ turnsOf apiToken c chunk) :
    ∃ before after, c.conn.buf ++ chunk = before ++ (u.piece ++ newline :: after) ∧
      u.pos = c.total - c.conn.buf.length + before.length := by
  rw [turnsOf, hWindow.base] at hu
  obtain ⟨before, after, hEq, hPos⟩ := lineTurns_place hu (remainder newline (c.conn.buf ++ chunk))
  rw [frames_flatMap] at hEq
  exact ⟨before, after, hEq, hPos⟩

/-- A line does not run over a newline that has been overwritten. -/
theorem Sealed.notAcross (hSealed : Sealed c b) (hWindow : Window c) {u : Turn}
    (hu : u ∈ turnsOf apiToken c chunk) : NotAcross b (.line u) := by
  obtain ⟨before, after, hEq, hPos⟩ := turn_place hWindow hu
  intro p hp hbp
  by_contra hFirst
  obtain ⟨i, hi, rfl⟩ := List.mem_map.mp hp
  have hi := List.mem_range.mp hi
  have hLength := u.first_add_length
  have hPosFirst := u.pos_le_first
  have hbPos := hSealed.pos
  have hShort : b - 1 - u.pos < (cstr u.piece).length := by omega
  obtain ⟨x, hx, hNotNul⟩ := cstr_getElem hShort
  have hAt := hSealed.getElem hWindow (by omega) chunk
  have hIndex : b - 1 - (c.total - c.conn.buf.length) = before.length + (b - 1 - u.pos) := by omega
  rw [hEq, hIndex, List.getElem?_append_right (by omega), Nat.add_sub_cancel_left,
    List.getElem?_append_left (List.getElem?_eq_some_iff.mp hx).1, hx] at hAt
  exact hNotNul (Option.some.inj hAt)

theorem Sealed.next (hWindow : Window c) (h : c.read apiToken chunk = some (c', events))
    {u : Turn} (hu : Event.line u ∈ events) : Sealed c' u.next := by
  obtain ⟨hTotal, hBuf, bodies, rfl, hBodies⟩ := read_cases h
  have hu : u ∈ turnsOf apiToken c chunk := by
    rcases List.mem_append.mp hu with hu | hu
    · obtain ⟨u', hu', hEq⟩ := List.mem_map.mp hu
      cases hEq
      exact hu'
    · obtain ⟨text, places, hEq⟩ := hBodies _ hu
      cases hEq
  obtain ⟨before, after, hEq, hPos⟩ := turn_place hWindow hu
  have hLength := congrArg List.length hEq
  simp only [List.length_append, List.length_cons] at hLength
  have hBase := hWindow
  unfold Window at hBase
  have hNext : u.next = u.pos + u.piece.length + 1 := rfl
  refine .of_suffix (c.total - c.conn.buf.length) (by omega) (by omega) ?_ hBuf ?_
  · simp only [terminate, List.length_map, List.length_append]
    omega
  · intro _
    refine terminate_getElem ?_ (.inl rfl)
    have hIndex : u.next - 1 - (c.total - c.conn.buf.length) = before.length + u.piece.length := by
      omega
    rw [hEq, hIndex, List.getElem?_append_right (by omega), Nat.add_sub_cancel_left,
      List.getElem?_append_right (by omega), Nat.sub_self]
    rfl

/-- A later text does not run over the newline of an earlier line. -/
def Apart (e e' : Event) : Prop := ∀ t, e = .line t → NotAcross t.next e'

theorem turns_apart (apiToken : Option Bytes) (c : Tracked) (chunk : Bytes) :
    ((turnsOf apiToken c chunk).map Event.line).Pairwise Apart := by
  refine List.pairwise_map.mpr ((lineTurns_pairwise _ _ _).imp ?_)
  rintro t u hNext t' ⟨⟩ p - -
  exact hNext.trans u.pos_le_first

theorem read_apart (h : c.read apiToken chunk = some (c', events)) : events.Pairwise Apart := by
  obtain ⟨-, -, bodies, rfl, hBodies⟩ := read_cases h
  refine List.pairwise_append.mpr ⟨turns_apart apiToken c chunk, ?_, ?_⟩
  · apply List.pairwise_of_forall_mem_list
    rintro e he e' - t rfl
    obtain ⟨text, places, hEq⟩ := hBodies _ he
    cases hEq
  · rintro e - e' he' t -
    obtain ⟨text, places, rfl⟩ := hBodies e' he'
    trivial

/-- No line that the loop looks at runs over a newline it has passed before. -/
theorem seen_apart (hWindow : Window c) (chunks : List Bytes) :
    (seen apiToken c chunks).Pairwise Apart ∧
      ∀ b, Sealed c b → ∀ e ∈ seen apiToken c chunks, NotAcross b e := by
  induction chunks generalizing c with
  | nil => exact ⟨.nil, fun _ _ => List.forall_mem_nil _⟩
  | cons chunk chunks ih =>
    have hTurns : ∀ b, Sealed c b → ∀ e ∈ (turnsOf apiToken c chunk).map Event.line, NotAcross b e := by
      intro b hb e he
      obtain ⟨u, hu, rfl⟩ := List.mem_map.mp he
      exact hb.notAcross hWindow hu
    rw [seen]
    cases hRead : c.read apiToken chunk with
    | none => exact ⟨turns_apart apiToken c chunk, hTurns⟩
    | some r =>
      obtain ⟨hLater, hSealed⟩ := ih (hWindow.read hRead)
      constructor
      · refine List.pairwise_append.mpr ⟨read_apart hRead, hLater, ?_⟩
        rintro e he e' he' t rfl
        exact hSealed t.next (.next hWindow hRead he) e' he'
      · intro b hb e he
        obtain he | he := List.mem_append.mp he
        · obtain ⟨-, -, bodies, hEvents, hBodies⟩ := read_cases hRead
          rw [hEvents] at he
          obtain he | he := List.mem_append.mp he
          · exact hTurns b hb e he
          · obtain ⟨text, places, rfl⟩ := hBodies e he
            trivial
        · exact hSealed b (hb.read hWindow hRead) e he

end Boundaries

section Body

variable {apiToken : Option Bytes} {atof : Bytes → Double}

/-- The turn ends the header block of a POST and is answered with 401. -/
structure Refused (apiToken : Option Bytes) (t : Turn) : Prop where
  isSecureTx : t.http.isSecureTx = true
  unauthorized : .unauthorized ∈ (handleLine apiToken t.http t.line).2

/-- One of the `Content-Length` bytes after the header block. -/
def InBody (t : Turn) (p : Nat) : Prop := t.next ≤ p ∧ p < t.next + t.http.contentLength.toNat

/-- Whatever the coordinator of the worker, no text that has a byte of the body reaches
`txn_begin`. -/
def BodyUnused (atof : Bytes → Double) (apiToken : Option Bytes) (t : Turn) (e : Event) : Prop :=
  (∃ p ∈ e.bytes, InBody t p) → ∀ coordinator, ∀ req ∈ e.requests apiToken,
    ¬ReachesTxnBegin atof coordinator req.1 req.2

def RefusalsHold (atof : Bytes → Double) (apiToken : Option Bytes) (chunks : List Bytes) : Prop :=
  ∀ before t after, seen apiToken .initial chunks = before ++ .line t :: after →
    Refused apiToken t → ∀ e ∈ after, BodyUnused atof apiToken t e

def Turn.pays (u : Turn) : Bool :=
  u.line != [] && !opensPing u.line && !opensTx u.line && !u.http.collecting &&
    target u.line == .payment

/-- A turn that is about to take a line of the body for a payment that passes the checks, or
a body of another POST, collected from these bytes, that does. -/
def Slips (atof : Bytes → Double) (t : Turn) : Event → Prop
  | .line u => u.pays = true ∧ InBody t u.first ∧ passesChecks atof u.line = true
  | .body text places => (∃ p ∈ places, InBody t p) ∧ passesChecks atof text = true

def NothingSlips (atof : Bytes → Double) (apiToken : Option Bytes) (chunks : List Bytes) : Prop :=
  ∀ before t after, seen apiToken .initial chunks = before ++ .line t :: after →
    Refused apiToken t → ∀ e ∈ after, ¬Slips atof t e

theorem endOfHeaders_requests (http : Http) :
    (endOfHeaders apiToken http).2.filterMap paymentOf = [] := by
  simp only [endOfHeaders]
  split_ifs <;> rfl

theorem paymentOf_dispatch {target : Target} {line : Bytes} (h : target ≠ .payment) :
    paymentOf (.dispatch target line) = none := by
  cases target <;> first | rfl | exact absurd rfl h

theorem requests_line (u : Turn) :
    (Event.line u).requests apiToken = if u.pays then [(.line, u.line)] else [] := by
  simp only [Event.requests, Event.actions, Turn.pays, handleLine]
  by_cases hNil : u.line = []
  · rw [if_pos hNil]
    by_cases hCollecting : u.http.collecting = true
    · simp [hNil, hCollecting, endOfHeaders_requests]
    · simp [hNil, hCollecting]
  · rw [if_neg hNil]
    by_cases hPing : opensPing u.line = true
    · simp [hPing]
    · by_cases hTx : opensTx u.line = true
      · simp [hPing, hTx]
      · by_cases hCollecting : u.http.collecting = true
        · simp [hPing, hTx, hCollecting]
        · by_cases hTarget : target u.line = .payment
          · simp [hNil, hPing, hTx, hCollecting, hTarget, paymentOf]
          · simp [hPing, hTx, hCollecting, hTarget, paymentOf_dispatch hTarget]

theorem mem_bytes_line {u : Turn} {p : Nat} :
    p ∈ (Event.line u).bytes ↔ u.first ≤ p ∧ p < u.first + u.line.length := by
  simp only [Event.bytes, List.mem_map, List.mem_range]
  constructor
  · rintro ⟨i, hi, rfl⟩
    omega
  · rintro ⟨hLe, hLt⟩
    exact ⟨p - u.first, by omega, by omega⟩

/-- A line with a byte of the body begins in the body, so that the condition speaks of all of
them. -/
theorem bodyUnused_iff {t : Turn} {e : Event} (hApart : Apart (.line t) e) :
    BodyUnused atof apiToken t e ↔ ¬Slips atof t e := by
  have hNotAcross := hApart t rfl
  cases e with
  | line u =>
    simp only [BodyUnused, requests_line, Slips]
    constructor
    · rintro hUnused ⟨hPays, hFirst, hPasses⟩
      have hNonempty : 0 < u.line.length := by
        rw [List.length_pos_iff]
        rintro hNil
        simp [Turn.pays, hNil] at hPays
      refine hUnused ⟨u.first, mem_bytes_line.mpr (by omega), hFirst⟩
        (txnCoordinatorInit none none true) (.line, u.line) (by simp [hPays]) ?_
      exact (reachesTxnBegin_iff _).mpr hPasses
    · rintro hNot ⟨p, hp, hLe, hLt⟩ coordinator req hReq hReaches
      split at hReq
      · rename_i hPays
        obtain rfl := List.mem_singleton.mp hReq
        have hFirst := hNotAcross p hp hLe
        have hFirstLe := (mem_bytes_line.mp hp).1
        exact hNot ⟨hPays, ⟨hFirst, by omega⟩, (reachesTxnBegin_iff _).mp hReaches⟩
      · cases hReq
  | body text places =>
    simp only [BodyUnused, Slips, not_and]
    refine forall_congr' fun _ => ?_
    have hRequests : (Event.body text places).requests apiToken = [(.body, text)] := rfl
    simp only [hRequests, List.mem_singleton, forall_eq, reachesTxnBegin_iff]
    exact ⟨fun h => h (txnCoordinatorInit none none true), fun h _ => h⟩

/-- For every stream and every way the reads cut it: what is refused stays unused exactly where
the loop meets no line of a refused body, and collects no body out of one, that is a payment. -/
theorem refusalsHold_iff (atof : Bytes → Double) (apiToken : Option Bytes) (chunks : List Bytes) :
    RefusalsHold atof apiToken chunks ↔ NothingSlips atof apiToken chunks := by
  refine forall_congr' fun before => forall_congr' fun t => forall_congr' fun after =>
    forall_congr' fun hSeen => forall_congr' fun _ => forall_congr' fun e => forall_congr' fun he => ?_
  have hWindow : Window .initial := Nat.le_refl 0
  obtain ⟨hApart, -⟩ := @seen_apart apiToken _ hWindow chunks
  rw [hSeen] at hApart
  obtain ⟨-, hTail, -⟩ := List.pairwise_append.mp hApart
  exact bodyUnused_iff ((List.pairwise_cons.mp hTail).1 e he)

theorem seen_single {chunk : Bytes}
    (h : (handleLines apiToken .initial (frames newline chunk)).1.bodyRemaining = 0) :
    seen apiToken .initial [chunk] =
      (lineTurns apiToken .initial 0 (frames newline chunk)).map .line := by
  have hRead : ∃ c, Tracked.initial.read apiToken chunk =
      some (c, (lineTurns apiToken .initial 0 (frames newline chunk)).map .line) := by
    simp only [Tracked.read, Tracked.initial, Connection.initial, List.nil_append, Nat.zero_add, h,
      Nat.sub_self]
    exact ⟨_, rfl⟩
  obtain ⟨c, hRead⟩ := hRead
  rw [seen, hRead]
  exact List.append_nil _

def sampleToken : Option Bytes := some (lit "secret")

def samplePost : Bytes :=
  lit "POST /secure/tx HTTP/1.1\r\nContent-Length: 23\r\n\r\n\x7b\"pan\":\"0\",\"amount\":1\x7d\n"

def sampleEnd : Turn :=
  ⟨{ Http.initial with collecting := true, isSecureTx := true, contentLength := 23 }, lit "\r", 46⟩

def samplePayment : Turn :=
  ⟨{ Http.initial with isSecureTx := true, contentLength := 23 },
    lit "\x7b\"pan\":\"0\",\"amount\":1\x7d", 48⟩

theorem samplePost_turns : ∃ before, lineTurns sampleToken .initial 0 (frames newline samplePost) =
    before ++ [sampleEnd, samplePayment] := ⟨[_, _], rfl⟩

theorem not_refusalsHold : ¬RefusalsHold (fun _ => .finite 1) sampleToken [samplePost] := by
  intro hHold
  have hSeen := @seen_single sampleToken samplePost (by decide +kernel)
  obtain ⟨before, hTurns⟩ := samplePost_turns
  rw [hTurns, List.map_append] at hSeen
  have hRefused : Refused sampleToken sampleEnd := ⟨rfl, by decide +kernel⟩
  have hUnused := hHold _ sampleEnd _ hSeen hRefused _ List.mem_cons_self
  have hPays : samplePayment.pays = true := by decide +kernel
  have hPlace : 48 ∈ (Event.line samplePayment).bytes := by decide +kernel
  have hBody : InBody sampleEnd 48 := ⟨by decide +kernel, by decide +kernel⟩
  refine hUnused ⟨48, hPlace, hBody⟩ (txnCoordinatorInit none none true)
    (.line, samplePayment.line) ?_ ?_
  · simp [requests_line, hPays]
  · exact (reachesTxnBegin_iff _).mpr (by decide +kernel)

end Body

end MiniVisa.Refusal
