import MiniVisa.Library.Pool
import MiniVisa.Server.Handler.Warrants

/-! # The pipeline only does what the log announces

The coordinator writes a record before the callbacks of a phase and the record of an outcome after
them, so a request that begins with nothing in its history ends with a history in which every
operation had its warrant. Beside any number of other requests it does not do otherwise.
-/

namespace MiniVisa.WriteAhead

set_option autoImplicit false

open Interaction Transition Text Iso8583 TransactionCoordinator Handler

section Coordinator

variable {T : Terms} {maxRetries : Nat} {h : List SysEvent} {X : TxnId} {mem : Memory} {α β : Type}

/-- The program only does what is warranted, and leaves memory and history as stated. -/
def Reaches (T : Terms) (maxRetries : Nat) (p : CallProg Who α) (mem : Memory) (h : List SysEvent)
    (R : α → Memory → List SysEvent → Prop) : Prop :=
  (p.interp (implement maxRetries) mem).wp history (fun x h' => Onward T h h' ∧ R x.1 x.2 h') h

theorem Reaches.mono {p : CallProg Who α} {R R' : α → Memory → List SysEvent → Prop}
    (hp : Reaches T maxRetries p mem h R) (hMono : ∀ a mem' h', Onward T h h' → R a mem' h' → R' a mem' h') :
    Reaches T maxRetries p mem h R' :=
  Prog.wp_mono _ (fun x h' hx => ⟨hx.1, hMono x.1 x.2 h' hx.1 hx.2⟩) hp

theorem Reaches.bind {p : CallProg Who α} {f : α → CallProg Who β}
    {R : α → Memory → List SysEvent → Prop} {R' : β → Memory → List SysEvent → Prop}
    (hp : Reaches T maxRetries p mem h R)
    (hf : ∀ a mem' h', Onward T h h' → R a mem' h' → Reaches T maxRetries (f a) mem' h' R') :
    Reaches T maxRetries (p >>= f) mem h R' := by
  rw [Reaches, Prog.wp_interp_bind]
  apply Prog.wp_mono _ _ hp
  rintro x h' ⟨hOn, hx⟩
  apply Prog.wp_mono _ _ (hf x.1 x.2 h' hOn hx)
  rintro y h'' ⟨hOn', hy⟩
  exact ⟨hOn.trans hOn', hy⟩

theorem reaches_pure {a : α} {R : α → Memory → List SysEvent → Prop} (ha : R a mem h) :
    Reaches T maxRetries (pure a) mem h R := ⟨.refl h, ha⟩

theorem reaches_call {e : Call Who} {R : e.Ans → Memory → List SysEvent → Prop}
    (he : (implement maxRetries e mem).wp history (fun x h' => Onward T h h' ∧ R x.1 x.2 h') h) :
    Reaches T maxRetries (.call e .ret) mem h R := (Prog.wp_interp_call _ _ _ _ _ _ _).mpr he

/-- A call that touches neither the participants' contexts nor a prepared transaction. -/
def Clerk : Call Who → Prop
  | .sys op => Free op
  | .readTxn => True
  | .releaseTxn => True
  | .txnRegisterParticipant _ _ _ => True
  | _ => False

theorem reaches_clerk {p : CallProg Who α} {Q : α → Prop} (hp : p.All Clerk Q) :
    Reaches T maxRetries p mem h fun a mem' _ => Q a ∧ mem' = mem := by
  have hImpl : ∀ (e : Call Who) (t : Memory), Clerk e → t = mem →
      (implement maxRetries e t).All (Warranted T h) fun x => x.2 = mem := by
    intro e t he ht
    cases e with
    | sys op => exact ⟨Free.warranted he h, fun _ => ht⟩
    | readTxn => exact ht
    | releaseTxn => exact ht
    | txnRegisterParticipant who count txnId => exact ⟨warranted_logJson h _, fun _ => ht⟩
    | _ => cases he
  exact wp_onward (hp.interp _ hImpl rfl) List.prefix_rfl

theorem clerk_bind {p : CallProg Who α} {Q : α → Prop} (hp : p.All Clerk Q) {f : α → CallProg Who β}
    {R : β → Memory → List SysEvent → Prop}
    (hf : ∀ a h', Onward T h h' → Q a → Reaches T maxRetries (f a) mem h' R) :
    Reaches T maxRetries (p >>= f) mem h R := by
  apply (reaches_clerk hp).bind
  rintro a mem' h' hOn ⟨ha, rfl⟩
  exact hf a h' hOn ha

theorem clerk_sys {op : Sys} (hOp : Free op) :
    (sys op : CallProg Who op.Ans).All Clerk fun _ => True := ⟨hOp, fun _ => trivial⟩

theorem clerk_readTxn : (readTxn : CallProg Who Unit).All Clerk fun _ => True :=
  ⟨trivial, fun _ => trivial⟩

theorem clerk_logMessageJson (level : Level) (event : String) (requestId : Option Bytes)
    (status : String) (latencyUs : Int) :
    (logMessageJson level event requestId status latencyUs : CallProg Who Unit).All Clerk
      fun _ => True := ⟨⟨rfl, rfl, rfl⟩, fun _ => trivial⟩

theorem clerk_logTxn (level : Level) (txnId : TxnId) (status : String) :
    (logTxn level txnId status : CallProg Who Unit).All Clerk fun _ => True :=
  ⟨trivial, fun _ => clerk_logMessageJson _ _ _ _ _⟩

theorem clerk_removeTransaction (c : Coordinator) (txnId : TxnId) :
    (removeTransaction c txnId : CallProg Who Coordinator).All Clerk fun _ => True := by
  refine ⟨trivial, fun _ => ?_⟩
  change Prog.All _ _ (if _ then _ else _)
  split
  · exact ⟨trivial, fun _ => trivial⟩
  · trivial

theorem clerk_metricsInc (m : Metric) : (metricsInc m : CallProg Who Unit).All Clerk fun _ => True :=
  ⟨⟨rfl, rfl, rfl⟩, fun _ => trivial⟩

variable {c : Coordinator}

/-- The record is written once it is warranted, and then it is there; without a log nothing is
written. -/
theorem reaches_record (hOpen : c.logOpen = T.logOpen) {txn : Transaction Who} {action : LogAction}
    (hRecord : ∀ h' now, h <+: h' →
      Warranted T h' (.txnLog ⟨now, txn.transactionId.val, txn.state, action⟩)) :
    Reaches T maxRetries (logTransactionState c txn action) mem h fun _ mem' h' =>
      Noted T txn.transactionId.val action h' ∧ mem' = mem := by
  rw [logTransactionState]
  split
  · apply clerk_bind (clerk_sys ⟨rfl, rfl, rfl⟩)
    intro now h₁ hOn₁ _
    apply clerk_bind clerk_readTxn
    intro _ h₂ hOn₂ _
    apply reaches_call
    intro r _
    refine ⟨.of_warranted (hRecord h₂ now (hOn₁.later.trans hOn₂.later)), ?_, rfl⟩
    exact fun _ => ⟨_, List.mem_append_right _ List.mem_cons_self, _, rfl, rfl, rfl⟩
  · rename_i hClosed
    apply reaches_pure
    constructor
    · intro hLog
      exact absurd (hOpen.trans hLog) hClosed
    · rfl

/-- A record of a phase in which both participants have consented. -/
theorem reaches_toldRecord (hOpen : c.logOpen = T.logOpen) {txn : Transaction Who}
    (hOk : T.subjects (.record txn.transactionId.val)) {action : LogAction}
    (hTells : ∀ now id phase,
      tellsOf (.txnLog ⟨now, txn.transactionId.val, txn.state, action⟩) = some (id, phase) →
      ∀ who, Agreed id who phase h) :
    Reaches T maxRetries (logTransactionState c txn action) mem h fun _ mem' h' =>
      Noted T txn.transactionId.val action h' ∧ mem' = mem := by
  apply reaches_record hOpen
  intro h' now hLater
  constructor
  · intro id hOf
    cases hOf
    exact hOk
  · intro id actions hBy
    cases hBy
  · intro id phase hOf who
    exact (hTells now id phase hOf who).later hLater

theorem reaches_plainRecord (hOpen : c.logOpen = T.logOpen) {txn : Transaction Who}
    (hOk : T.subjects (.record txn.transactionId.val)) {action : LogAction}
    (hAction : ∀ now, tellsOf (.txnLog ⟨now, txn.transactionId.val, txn.state, action⟩) = none) :
    Reaches T maxRetries (logTransactionState c txn action) mem h fun _ mem' h' =>
      Noted T txn.transactionId.val action h' ∧ mem' = mem := by
  apply reaches_toldRecord hOpen hOk
  intro now id phase hOf
  rw [hAction now] at hOf
  cases hOf

theorem reaches_callback {phase : Phase} (hPhase : Announced T X.val phase h) (i : Nat) (who : Who)
    (hHeld : Held X mem) :
    Reaches T maxRetries (callback phase i who X) mem h fun r mem' h' =>
      Held X mem' ∧ (phase ≠ .abort → r = 0 → Agreed X.val who phase h') := by
  have hOnward : (callbackBody maxRetries phase who X.val mem).wp history
      (fun x h' => Onward T h h' ∧ Held X x.2) h :=
    wp_onward (all_callback hPhase who hHeld) List.prefix_rfl
  apply reaches_call
  by_cases hAbort : phase = .abort
  · apply Prog.wp_mono _ _ hOnward
    rintro x h' ⟨hOn, hx⟩
    exact ⟨hOn, hx, fun hNot => absurd hAbort hNot⟩
  · apply Prog.wp_mono _ _ (wp_and hOnward (wp_callback_consent hAbort who mem h))
    rintro x h' ⟨⟨hOn, hx⟩, hAgreed⟩
    exact ⟨hOn, hx, fun _ => hAgreed⟩

theorem reaches_callback_commit (hPhase : Announced T X.val .commit h) (i : Nat) (who : Who)
    (hHeld : Held X mem) :
    Reaches T maxRetries (callback .commit i who X) mem h fun r mem' h' =>
      Held X mem' ∧ (r = 0 → Agreed X.val who .commit h') ∧
        (Loose mem → Loose mem') ∧ (who = .clearing → r = 0 → Loose mem') := by
  have hReaches : Reaches T maxRetries (callback .commit i who X) mem h fun r mem' h' =>
      Held X mem' ∧ (Phase.commit ≠ .abort → r = 0 → Agreed X.val who .commit h') :=
    reaches_callback hPhase i who hHeld
  have hCall := (Prog.wp_interp_call (implement maxRetries) history _ _ _ _ _).mp hReaches
  apply reaches_call
  apply Prog.wp_mono _ _ (wp_and_all hCall (all_callback_commit who hHeld))
  rintro x h' ⟨⟨hOn, hHeld', hAgreed⟩, hKept, hDone⟩
  exact ⟨hOn, hHeld', hAgreed (by decide), hKept, hDone⟩

theorem reaches_prepareLoop (i : Nat) (ps : List (Participant Who))
    (hPhase : Announced T X.val .prepare h) (hHeld : Held X mem) :
    Reaches T maxRetries (prepareLoop X i ps) mem h fun r mem' h' =>
      Held X mem' ∧ r.2.map (·.context) = ps.map (·.context) ∧
        (r.1 = true → (∀ p ∈ r.2, p.state = .prepared) ∧
          ∀ p ∈ ps, Agreed X.val p.context .prepare h') := by
  induction ps generalizing i h mem with
  | nil =>
    exact reaches_pure ⟨hHeld, rfl, fun _ => ⟨List.forall_mem_nil _, List.forall_mem_nil _⟩⟩
  | cons p ps ih =>
    rw [prepareLoop]
    apply clerk_bind clerk_readTxn
    intro _ h₁ hOn₁ _
    apply clerk_bind (clerk_logTxn _ _ _)
    intro _ h₂ hOn₂ _
    have hPhase₂ := (hPhase.later hOn₁.later).later hOn₂.later
    apply (reaches_callback hPhase₂ i p.context hHeld).bind
    rintro r mem₁ h₃ hOn₃ ⟨hHeld₁, hAgreed⟩
    split
    · rename_i hZero
      have hYes := hAgreed (by decide) hZero
      apply clerk_bind (clerk_logTxn _ _ _)
      intro _ h₄ hOn₄ _
      apply (ih (i + 1) ((hPhase₂.later hOn₃.later).later hOn₄.later) hHeld₁).bind
      rintro rest mem₂ h₅ hOn₅ ⟨hHeld₂, hContexts, hRest⟩
      apply reaches_pure
      refine ⟨hHeld₂, congrArg (List.cons p.context) hContexts, fun hAll => ?_⟩
      obtain ⟨hPrepared, hAgreed'⟩ := hRest hAll
      have hYes' := (hYes.later hOn₄.later).later hOn₅.later
      exact ⟨List.forall_mem_cons.mpr ⟨rfl, hPrepared⟩, List.forall_mem_cons.mpr ⟨hYes', hAgreed'⟩⟩
    · apply clerk_bind (clerk_logTxn _ _ _)
      intro _ h₄ hOn₄ _
      exact reaches_pure ⟨hHeld₁, rfl, fun hAll => by cases hAll⟩

theorem reaches_commitLoop (i : Nat) {ps : List (Participant Who)}
    (hPrepared : ∀ p ∈ ps, p.state = .prepared) (hPhase : Announced T X.val .commit h)
    (hHeld : Held X mem) :
    Reaches T maxRetries (commitLoop X i ps) mem h fun r mem' h' =>
      Held X mem' ∧ (r.1 = true → (∀ p ∈ ps, Agreed X.val p.context .commit h') ∧
        (Loose mem ∨ .clearing ∈ ps.map (·.context) → Loose mem')) := by
  induction ps generalizing i h mem with
  | nil =>
    refine reaches_pure ⟨hHeld, fun _ => ⟨List.forall_mem_nil _, ?_⟩⟩
    rintro (hLoose | hMem)
    · exact hLoose
    · cases hMem
  | cons p ps ih =>
    obtain ⟨hFirst, hLast⟩ := List.forall_mem_cons.mp hPrepared
    rw [commitLoop]
    apply clerk_bind clerk_readTxn
    intro _ h₁ hOn₁ _
    rw [if_pos hFirst]
    have hPhase₁ := hPhase.later hOn₁.later
    apply (reaches_callback_commit hPhase₁ i p.context hHeld).bind
    rintro r mem₁ h₂ hOn₂ ⟨hHeld₁, hAgreed, hKept, hDone⟩
    split
    · rename_i hZero
      apply clerk_bind (clerk_logTxn _ _ _)
      intro _ h₃ hOn₃ _
      apply (ih (i + 1) hLast ((hPhase₁.later hOn₂.later).later hOn₃.later) hHeld₁).bind
      rintro rest mem₂ h₄ hOn₄ ⟨hHeld₂, hRest⟩
      refine reaches_pure ⟨hHeld₂, fun hAll => ?_⟩
      obtain ⟨hAgreed', hLoose'⟩ := hRest hAll
      have hYes := ((hAgreed hZero).later hOn₃.later).later hOn₄.later
      refine ⟨List.forall_mem_cons.mpr ⟨hYes, hAgreed'⟩, ?_⟩
      rintro (hLoose | hMem)
      · exact hLoose' (.inl (hKept hLoose))
      · obtain hEq | hMem := List.mem_cons.mp hMem
        · exact hLoose' (.inl (hDone hEq.symm hZero))
        · exact hLoose' (.inr hMem)
    · apply clerk_bind (clerk_logTxn _ _ _)
      intro _ h₃ hOn₃ _
      apply (ih (i + 1) hLast ((hPhase₁.later hOn₂.later).later hOn₃.later) hHeld₁).bind
      rintro rest mem₂ h₄ hOn₄ ⟨hHeld₂, -⟩
      exact reaches_pure ⟨hHeld₂, fun hAll => by cases hAll⟩

theorem reaches_abortLoop (i : Nat) (ps : List (Participant Who))
    (hPhase : Announced T X.val .abort h) (hHeld : Held X mem) :
    Reaches T maxRetries (abortLoop X i ps) mem h fun _ mem' _ => Held X mem' := by
  induction ps generalizing i h mem with
  | nil => exact reaches_pure hHeld
  | cons p ps ih =>
    rw [abortLoop]
    apply clerk_bind clerk_readTxn
    intro _ h₁ hOn₁ _
    have hPhase₁ := hPhase.later hOn₁.later
    split
    · apply (reaches_callback hPhase₁ i p.context hHeld).bind
      rintro _ mem₁ h₂ hOn₂ ⟨hHeld₁, -⟩
      apply clerk_bind (clerk_logTxn _ _ _)
      intro _ h₃ hOn₃ _
      apply (ih (i + 1) ((hPhase₁.later hOn₂.later).later hOn₃.later) hHeld₁).bind
      exact fun _ _ _ _ hHeld₂ => reaches_pure hHeld₂
    · apply (ih (i + 1) hPhase₁ hHeld).bind
      exact fun _ _ _ _ hHeld₂ => reaches_pure hHeld₂

theorem reaches_abortAllLoop (i : Nat) (ps : List (Participant Who))
    (hPhase : Announced T X.val .abort h) (hHeld : Held X mem) :
    Reaches T maxRetries (abortAllLoop X i ps) mem h fun _ mem' _ => Held X mem' := by
  induction ps generalizing i h mem with
  | nil => exact reaches_pure hHeld
  | cons p ps ih =>
    rw [abortAllLoop]
    apply clerk_bind clerk_readTxn
    intro _ h₁ hOn₁ _
    have hPhase₁ := hPhase.later hOn₁.later
    apply (reaches_callback hPhase₁ i p.context hHeld).bind
    rintro _ mem₁ h₂ hOn₂ ⟨hHeld₁, -⟩
    apply (ih (i + 1) (hPhase₁.later hOn₂.later) hHeld₁).bind
    exact fun _ _ _ _ hHeld₂ => reaches_pure hHeld₂

/-- The payment has been committed, on the record. -/
structure Paid (T : Terms) (id : Bytes) (h : List SysEvent) : Prop where
  noted : Noted T id .committed h
  agreed : ∀ who, Agreed id who .commit h

theorem Paid.later {id : Bytes} {h' : List SysEvent} (hPaid : Paid T id h) (hLater : h <+: h') :
    Paid T id h' :=
  ⟨hPaid.noted.later hLater, fun who => (hPaid.agreed who).later hLater⟩

variable (hOpen : c.logOpen = T.logOpen) (hOk : T.subjects (.record X.val))
include hOpen hOk

theorem reaches_abortPath {txn : Transaction Who} (hId : txn.transactionId = X)
    (hHeld : Held X mem) :
    Reaches T maxRetries (abortPath c txn) mem h fun r mem' h' =>
      r.1 = -1 ∧ Held X mem' ∧ Announced T X.val .abort h' ∧ Noted T X.val .aborted h' := by
  subst hId
  rw [abortPath]
  apply (reaches_plainRecord hOpen (by exact hOk) fun _ => rfl).bind
  rintro _ _ h₁ hOn₁ ⟨hStart, rfl⟩
  apply clerk_bind (clerk_logTxn _ _ _)
  intro _ h₂ hOn₂ _
  have hPhase : Announced T txn.transactionId.val .abort h₂ := .inl (hStart.later hOn₂.later)
  apply (reaches_abortLoop 0 _ hPhase hHeld).bind
  intro ps mem₁ h₃ hOn₃ hHeld₁
  apply (reaches_plainRecord hOpen (by exact hOk) fun _ => rfl).bind
  rintro _ _ h₄ hOn₄ ⟨hAborted, rfl⟩
  apply clerk_bind (clerk_removeTransaction c _)
  intro c' h₅ hOn₅ _
  apply clerk_bind (clerk_metricsInc _)
  intro _ h₆ hOn₆ _
  apply clerk_bind (clerk_logTxn _ _ _)
  intro _ h₇ hOn₇ _
  apply reaches_pure
  have hRest := (hOn₅.trans hOn₆).trans hOn₇
  exact ⟨rfl, hHeld₁, ((hPhase.later hOn₃.later).later hOn₄.later).later hRest.later,
    hAborted.later hRest.later⟩

theorem reaches_txnAbort {txn : Transaction Who} (hId : txn.transactionId = X)
    (hHeld : Held X mem) :
    Reaches T maxRetries (txnAbort c txn) mem h fun _ _ _ => True := by
  subst hId
  rw [txnAbort]
  apply (reaches_plainRecord hOpen (by exact hOk) fun _ => rfl).bind
  rintro _ _ h₁ hOn₁ ⟨hExplicit, rfl⟩
  apply clerk_bind (clerk_logTxn _ _ _)
  intro _ h₂ hOn₂ _
  apply (reaches_abortAllLoop 0 _ (.inr (hExplicit.later hOn₂.later)) hHeld).bind
  intro ps mem₁ h₃ hOn₃ hHeld₁
  apply (reaches_plainRecord hOpen (by exact hOk) fun _ => rfl).bind
  rintro _ _ h₄ hOn₄ ⟨-, rfl⟩
  exact (reaches_clerk (clerk_removeTransaction c _)).mono fun _ _ _ _ _ => trivial

/-- What `txn_commit` leaves: it is on record that all is settled, or that all is undone. -/
structure Concluded (T : Terms) (X : TxnId) (rc : Int) (mem : Memory) (h : List SysEvent) : Prop where
  held : Held X mem
  settled : rc = 0 → Loose mem ∧ Paid T X.val h
  undone : rc ≠ 0 → Announced T X.val .abort h ∧ Noted T X.val .aborted h

theorem reaches_txnCommit {txn : Transaction Who} (hId : txn.transactionId = X)
    (hWho : ∀ who, who ∈ txn.participants.map (·.context)) (hHeld : Held X mem) :
    Reaches T maxRetries (txnCommit c txn) mem h fun r mem' h' => Concluded T X r.1 mem' h' := by
  subst hId
  have hAbort : ∀ {t : Transaction Who} {mem' : Memory} {h' : List SysEvent},
      t.transactionId = txn.transactionId → Held txn.transactionId mem' →
      Reaches T maxRetries (abortPath c t) mem' h' fun r mem'' h'' =>
        Concluded T txn.transactionId r.1 mem'' h'' := by
    intro t mem' h' hId hHeld'
    apply (reaches_abortPath hOpen hOk hId hHeld').mono
    rintro r mem'' h'' - ⟨hCode, hHeld'', hUndone⟩
    refine ⟨hHeld'', fun hZero => ?_, fun _ => hUndone⟩
    rw [hCode] at hZero
    cases hZero
  -- a record that tells of both participants
  have hTelling : ∀ {ps : List (Participant Who)} {phase : Phase} {h' h'' : List SysEvent},
      (∀ who, who ∈ ps.map (·.context)) →
      (∀ p ∈ ps, Agreed txn.transactionId.val p.context phase h') → h' <+: h'' →
      ∀ who, Agreed txn.transactionId.val who phase h'' := by
    intro ps phase h' h'' hAll hAgreed hLater who
    obtain ⟨p, hp, rfl⟩ := List.mem_map.mp (hAll who)
    exact (hAgreed p hp).later hLater
  rw [txnCommit]
  apply (reaches_plainRecord hOpen (by exact hOk) fun _ => rfl).bind
  rintro _ _ h₁ hOn₁ ⟨hStart, rfl⟩
  apply clerk_bind (clerk_logTxn _ _ _)
  intro _ h₂ hOn₂ _
  apply (reaches_prepareLoop 0 txn.participants (hStart.later hOn₂.later) hHeld).bind
  rintro ⟨ok, ps⟩ mem₁ h₃ hOn₃ ⟨hHeld₁, hContexts, hVoted⟩
  cases ok with
  | false => exact hAbort rfl hHeld₁
  | true =>
    obtain ⟨hPrepared, hAgreed⟩ := hVoted rfl
    have hWho' : ∀ who, who ∈ ps.map (·.context) := fun who => by
      rw [hContexts]
      exact hWho who
    rw [if_pos (by rfl)]
    apply (reaches_plainRecord hOpen (by exact hOk) fun _ => rfl).bind
    rintro _ _ h₄ hOn₄ ⟨-, rfl⟩
    have hAllPrepared : ∀ now id phase,
        tellsOf (.txnLog ⟨now, txn.transactionId.val, .committing, .commitStart⟩) = some (id, phase) →
        ∀ who, Agreed id who phase h₄ := by
      intro now id phase hOf
      cases hOf
      exact hTelling hWho hAgreed hOn₄.later
    apply (reaches_toldRecord hOpen (by exact hOk) hAllPrepared).bind
    rintro _ _ h₅ hOn₅ ⟨hNoted, rfl⟩
    apply clerk_bind (clerk_logTxn _ _ _)
    intro _ h₆ hOn₆ _
    apply (reaches_commitLoop 0 hPrepared (hNoted.later hOn₆.later) hHeld₁).bind
    rintro ⟨ok, ps'⟩ mem₂ h₇ hOn₇ ⟨hHeld₂, hSettled⟩
    cases ok with
    | false => exact hAbort rfl hHeld₂
    | true =>
      obtain ⟨hDone, hLoose⟩ := hSettled rfl
      rw [if_pos (by rfl)]
      have hAllCommitted : ∀ now id phase,
          tellsOf (.txnLog ⟨now, txn.transactionId.val, .committed, .committed⟩) = some (id, phase) →
          ∀ who, Agreed id who phase h₇ := by
        intro now id phase hOf
        cases hOf
        exact hTelling hWho' hDone List.prefix_rfl
      apply (reaches_toldRecord hOpen (by exact hOk) hAllCommitted).bind
      rintro _ _ h₈ hOn₈ ⟨hRecorded, rfl⟩
      apply clerk_bind (clerk_logTxn _ _ _)
      intro _ h₉ hOn₉ _
      apply clerk_bind (clerk_removeTransaction c _)
      intro c' h₁₀ hOn₁₀ _
      apply clerk_bind (clerk_metricsInc _)
      intro _ h₁₁ hOn₁₁ _
      have hRest := (hOn₉.trans hOn₁₀).trans hOn₁₁
      apply reaches_pure
      have hLater := hOn₈.later.trans hRest.later
      refine ⟨hHeld₂, fun _ => ⟨hLoose (.inr (hWho' .clearing)), hRecorded.later hRest.later, ?_⟩,
        fun hNe => absurd rfl hNe⟩
      exact hTelling hWho' hDone hLater

end Coordinator

section Pipeline

variable {T : Terms} {maxRetries : Nat} {h : List SysEvent} {X : TxnId} {mem : Memory} {α β : Type}

/-- The calls of a pipeline that leave the prepared transaction alone. -/
def Idle : Call Who → Prop
  | .sys op => Free op
  | .callback _ _ _ _ => False
  | .dbParticipantInsertTransaction _ _ _ _ => False
  | .reversalEnqueue _ => False
  | _ => True

theorem idle_onDb (hLoose : Loose mem)
    {f : DbParticipant.DBParticipantContext → SysProg (Int × DbParticipant.DBParticipantContext)}
    (hf : ∀ ctx, (f ctx).All (Warranted T h) fun _ => True) :
    (onDb mem f).All (Warranted T h) fun x => Loose x.2 := by
  apply (all_onDb mem hf).mono
  intro x hSame ctx hSome
  rw [hSame] at hSome
  exact hLoose ctx hSome

theorem all_dbParticipantBegin (ctx : DbParticipant.DBParticipantContext) (txnId : Bytes) :
    (DbParticipant.dbParticipantBegin ctx txnId).All (Warranted T h) fun _ => True := by
  unfold DbParticipant.dbParticipantBegin
  split
  · exact ⟨warranted_logJson h _, fun _ => trivial⟩
  · refine ⟨Free.warranted ⟨rfl, rfl, rfl⟩ h, fun ok => ?_⟩
    cases ok with
    | true => exact ⟨warranted_logJson h _, fun _ => trivial⟩
    | false => exact ⟨warranted_logJson h _, fun _ => trivial⟩

/-- What is rolled back on destruction is not prepared. -/
theorem all_dbParticipantDestroy (ctx : DbParticipant.DBParticipantContext) :
    (DbParticipant.dbParticipantDestroy ctx).All (Warranted T h) fun _ => True := by
  unfold DbParticipant.dbParticipantDestroy
  split
  · rename_i hActive
    rw [DbParticipant.dbParticipantAbort, if_pos ⟨hActive, rfl⟩]
    refine ⟨Free.warranted ⟨rfl, rfl, rfl⟩ h, fun ok => ?_⟩
    cases ok with
    | true => exact ⟨warranted_logJson h _, fun _ => trivial⟩
    | false => exact ⟨warranted_logJson h _, fun _ => trivial⟩
  · trivial

theorem all_implement_dbDestroy (mem : Memory) :
    (implement maxRetries .dbParticipantDestroy mem).All (Warranted T h) fun x =>
      x.2.clearing = mem.clearing := by
  simp only [implement]
  split
  · rfl
  · rename_i ctx _
    exact (Prog.all_bind _ _ _).mpr ((all_dbParticipantDestroy ctx).mono fun _ _ => rfl)

theorem idle_implement (e : Call Who) (mem : Memory) (he : Idle e) (hLoose : Loose mem) :
    (implement maxRetries e mem).All (Warranted T h) fun x => Loose x.2 := by
  have hFree : ∀ {op : Sys}, Free op → Warranted T h op := fun hOp => hOp.warranted h
  cases e with
  | sys op => exact ⟨hFree he, fun _ => hLoose⟩
  | callback phase i who txnId => exact he.elim
  | readTxn => exact hLoose
  | releaseTxn => exact hLoose
  | txnRegisterParticipant who count txnId => exact ⟨warranted_logJson h _, fun _ => hLoose⟩
  | dbParticipantInit dbc =>
    cases dbc with
    | none => exact hLoose
    | some dbc => exact ⟨hFree ⟨rfl, rfl, rfl⟩, fun _ => hLoose⟩
  | clearingParticipantInit =>
    refine ⟨hFree ⟨rfl, rfl, rfl⟩, fun allocated => ?_⟩
    cases allocated with
    | false =>
      intro ctx hSome
      cases hSome
    | true =>
      refine ⟨hFree ⟨rfl, rfl, rfl⟩, fun _ ctx hSome => ?_⟩
      cases hSome
      rfl
  | dbParticipantDestroy =>
    apply (all_implement_dbDestroy mem).mono
    intro x hSame ctx hSome
    rw [hSame] at hSome
    exact hLoose ctx hSome
  | clearingParticipantDestroy =>
    simp only [implement]
    split
    · exact hLoose
    · rename_i ctx hSome
      rw [ClearingParticipant.clearingParticipantDestroy, if_neg (by simp [hLoose ctx hSome])]
      intro ctx' hSome'
      cases hSome'
      exact hLoose ctx hSome
  | dbParticipantBegin txnId => exact idle_onDb hLoose fun ctx => all_dbParticipantBegin ctx txnId
  | clearingParticipantSetTransaction txnId masked amount merchantId =>
    simp only [implement, onClearing]
    split
    · exact hLoose
    · rename_i ctx hSome
      refine ⟨warranted_logJson h _, fun _ ctx' hSome' => ?_⟩
      cases hSome'
      exact hLoose ctx hSome
  | dbParticipantInsertTransaction => exact he.elim
  | reversalEnqueue q => exact he.elim

theorem reaches_idle {p : CallProg Who α} {Q : α → Prop} (hp : p.All Idle Q) (hLoose : Loose mem) :
    Reaches T maxRetries p mem h fun a mem' _ => Q a ∧ Loose mem' :=
  wp_onward (hp.interp _ idle_implement hLoose) List.prefix_rfl

theorem idle_bind {p : CallProg Who α} {Q : α → Prop} (hp : p.All Idle Q) (hLoose : Loose mem)
    {f : α → CallProg Who β} {R : β → Memory → List SysEvent → Prop}
    (hf : ∀ a mem' h', Loose mem' → Q a → Reaches T maxRetries (f a) mem' h' R) :
    Reaches T maxRetries (p >>= f) mem h R := by
  apply (reaches_idle hp hLoose).bind
  rintro a mem' h' - ⟨ha, hLoose'⟩
  exact hf a mem' h' hLoose' ha

theorem Clerk.idle {e : Call Who} (he : Clerk e) : Idle e := by
  cases e with
  | sys op => exact he
  | callback phase i who txnId => cases he
  | dbParticipantInsertTransaction => cases he
  | reversalEnqueue q => cases he
  | _ => trivial

/-- A payment is approved on the record only. -/
structure QuietExits (exits : Exits) : Prop where
  declined : ∀ requestId reason, (exits.declined requestId reason).All Clerk fun _ => True
  approved : ∀ {T maxRetries mem h} t0 requestId isDup txnId, Paid T txnId h →
    Reaches T maxRetries (exits.approved t0 requestId isDup txnId) mem h fun _ _ _ => True

def Told (T : Terms) (r : Response × Coordinator) (h : List SysEvent) : Prop :=
  ∀ isDup id, r.1 = .approved isDup id → Paid T id h

theorem told_declined (reason : Reason) (c : Coordinator) (h : List SysEvent) :
    Told T (.declined reason, c) h := by
  intro isDup id hEq
  cases hEq

theorem reaches_approved {op : Sys} {id : Bytes} (hBy : announcedBy op = some (id, [.committed]))
    (hTells : tellsOf op = some (id, .commit)) (hNone : subjectOf op = none) (hPaid : Paid T id h) :
    Reaches T maxRetries (.call (.sys op) .ret) mem h fun _ _ _ => True := by
  have hOp : Warranted T h op := by
    constructor
    · intro subject hOf
      rw [hNone] at hOf
      cases hOf
    · intro id' actions hBy'
      rw [hBy] at hBy'
      cases hBy'
      exact ⟨_, List.mem_cons_self, hPaid.noted⟩
    · intro id' phase hOf
      rw [hTells] at hOf
      cases hOf
      exact hPaid.agreed
  have hAll : (implement maxRetries (.sys op) mem).All (Warranted T h) fun _ => True :=
    ⟨hOp, fun _ => trivial⟩
  exact reaches_call (wp_onward hAll List.prefix_rfl)

theorem clerk_countDeclined (reason : Reason) :
    (countDeclined reason).All Clerk fun _ => True := by
  refine ⟨⟨rfl, rfl, rfl⟩, fun _ => ?_⟩
  change Prog.All _ _ (if _ then _ else _)
  split
  · exact clerk_metricsInc _
  · trivial

theorem lineExits_quiet : QuietExits lineExits where
  declined requestId reason := by
    simp only [lineExits, Prog.all_bind]
    refine ⟨⟨rfl, rfl, rfl⟩, fun _ => ?_⟩
    exact (clerk_countDeclined reason).mono fun _ _ => clerk_logMessageJson _ _ _ _ _
  approved t0 requestId isDup txnId hPaid := by
    rw [lineExits]
    apply (reaches_approved rfl rfl rfl hPaid).bind
    intro _ _ _ _ _
    apply clerk_bind (clerk_metricsInc _)
    intro _ _ _ _
    apply clerk_bind (clerk_sys ⟨rfl, rfl, rfl⟩)
    intro t1 _ _ _
    exact (reaches_clerk (clerk_logMessageJson _ _ _ _ _)).mono fun _ _ _ _ _ => trivial

theorem httpExits_quiet : QuietExits httpExits where
  declined _ reason := clerk_countDeclined reason
  approved _ _ _ _ _ := (reaches_clerk (clerk_metricsInc _)).mono fun _ _ _ _ _ => trivial

variable {exits : Exits} {c : Coordinator} {req : IsoRequest}

theorem reaches_cleanup (hExits : QuietExits exits) (hOpen : c.logOpen = T.logOpen) (hLoose : Loose mem)
    (requestId : Bytes) (reason : Reason) {txn : Transaction Who} (hOk : T.subjects (.record txn.transactionId.val)) :
    Reaches T maxRetries (cleanup exits requestId reason c txn) mem h fun r _ h' => Told T r h' := by
  rw [cleanup]
  apply clerk_bind (hExits.declined _ _)
  intro _ h₁ _ _
  apply idle_bind (Q := fun _ => True) (p := dbParticipantDestroy) ⟨trivial, fun _ => trivial⟩ hLoose
  intro _ mem₁ h₂ hLoose₁ _
  apply idle_bind (Q := fun _ => True) (p := clearingParticipantDestroy) ⟨trivial, fun _ => trivial⟩
    hLoose₁
  intro _ mem₂ h₃ hLoose₂ _
  apply (reaches_txnAbort hOpen hOk rfl (hLoose₂.held _)).bind
  exact fun _ _ _ _ _ => reaches_pure (told_declined _ _ _)

theorem reaches_dbDestroy (mem : Memory) :
    Reaches T maxRetries dbParticipantDestroy mem h fun _ mem' _ => mem'.clearing = mem.clearing :=
  reaches_call (wp_onward (all_implement_dbDestroy mem) List.prefix_rfl)

theorem reaches_clearingDestroy {rc : Int} (hDone : Concluded T X rc mem h) :
    Reaches T maxRetries clearingParticipantDestroy mem h fun _ _ _ => True := by
  have hWork : BreakerWork (Warranted T h) := warranted_breakerWork h
  have hAll : (implement maxRetries .clearingParticipantDestroy mem).All (Warranted T h)
      fun _ => True := by
    simp only [implement]
    split
    · trivial
    · rename_i ctx hSome
      apply (Prog.all_bind _ _ _).mpr
      by_cases hHold : ctx.hasHold = true
      · have hUndone : rc ≠ 0 := by
          intro hZero
          have hNone := (hDone.settled hZero).1 ctx hSome
          rw [hHold] at hNone
          cases hNone
        rw [ClearingParticipant.clearingParticipantDestroy, if_pos hHold]
        apply (Prog.all_bind _ _ _).mpr
        have hSend : Warranted T h
            (.clearing (ClearingParticipant.payload ctx .abort ctx.currentTxnId)) := by
          rw [hDone.held ctx hSome hHold]
          exact (hDone.undone hUndone).1.rollback rfl rfl
        exact (hWork.all_clearingParticipantAbort ctx _ hSend).mono fun _ _ => trivial
      · rw [ClearingParticipant.clearingParticipantDestroy, if_neg hHold]
        trivial
  exact reaches_call ((wp_onward hAll List.prefix_rfl))

theorem reaches_reversalEnqueue {txnId : TxnId} (hAborted : Noted T txnId.val .aborted h)
    (masked amount : Bytes) :
    Reaches T maxRetries (reversalEnqueue txnId masked amount) mem h fun _ _ _ => True := by
  have hAll : (Reversal.reversalEnqueue ⟨txnId.val, masked, amount, merchant⟩).All (Warranted T h)
      fun _ => True := by
    unfold Reversal.reversalEnqueue
    split
    · trivial
    · refine ⟨Free.warranted ⟨rfl, rfl, rfl⟩ h, fun allocated => ?_⟩
      cases allocated with
      | false => trivial
      | true =>
        refine ⟨Free.warranted ⟨rfl, rfl, rfl⟩ h, fun now => ?_⟩
        refine ⟨warranted_of_noted rfl rfl List.mem_cons_self hAborted, fun _ => ?_⟩
        exact ⟨Free.warranted ⟨rfl, rfl, rfl⟩ h, fun _ => ⟨warranted_logJson h _, fun _ => trivial⟩⟩
  apply reaches_call
  apply wp_onward _ List.prefix_rfl
  exact (Prog.all_bind _ _ _).mpr (hAll.mono fun _ _ => trivial)

theorem reaches_insert (hLoose : Loose mem) {requestId amount : Bytes} (masked : Bytes)
    (hRow : T.subjects (.row requestId amount (lit "APPROVED"))) :
    Reaches T maxRetries (dbParticipantInsertTransaction requestId masked amount) mem h
      fun _ mem' _ => Loose mem' := by
  have hFree : ∀ {op : Sys}, Free op → Warranted T h op := fun hOp => hOp.warranted h
  have hInsert : ∀ dbc, Warranted T h
      (.pgInsertReqid (.conn dbc) requestId masked amount (lit "APPROVED")) := by
    intro dbc
    constructor
    · intro subject hOf
      cases hOf
      exact hRow
    · intro id actions hBy
      cases hBy
    · intro id phase hOf
      cases hOf
  apply reaches_call
  apply wp_onward _ List.prefix_rfl
  apply (all_implement_insert (warranted_logJson h) (fun _ => hFree ⟨rfl, rfl, rfl⟩) hInsert
    (fun _ => hFree ⟨rfl, rfl, rfl⟩) maxRetries mem).mono
  intro x hSame
  rw [hSame]
  exact hLoose

/-- What a request may write of. -/
structure Permitted (T : Terms) (req : IsoRequest) : Prop where
  record : ∀ now, T.subjects (.record (makeTxnId req.requestId now).val)
  row : T.subjects (.row req.requestId req.amountText (lit "APPROVED"))

theorem reaches_settle (hExits : QuietExits exits) (hOpen : c.logOpen = T.logOpen) (hLoose : Loose mem)
    (t0 : Int) (masked : Bytes) {txn : Transaction Who} (hOk : T.subjects (.record txn.transactionId.val))
    (hRow : T.subjects (.row req.requestId req.amountText (lit "APPROVED")))
    (hWho : ∀ who, who ∈ txn.participants.map (·.context)) :
    Reaches T maxRetries (settle exits t0 req masked c txn) mem h fun r _ h' => Told T r h' := by
  rw [settle]
  apply (reaches_insert hLoose masked hRow).bind
  intro inserted mem₁ h₁ _ hLoose₁
  split
  · exact reaches_cleanup hExits hOpen hLoose₁ _ _ hOk
  · apply (reaches_txnCommit hOpen hOk rfl hWho (hLoose₁.held _)).bind
    rintro ⟨rc, c'⟩ mem₂ h₂ - hDone
    apply (reaches_dbDestroy mem₂).bind
    intro _ mem₃ h₃ hOn₃ hSame
    have hHeld : Held txn.transactionId mem₃ := by
      intro ctx hSome
      rw [hSame] at hSome
      exact hDone.held ctx hSome
    have hDone' : Concluded T txn.transactionId rc mem₃ h₃ := by
      constructor
      · exact hHeld
      · intro hZero
        obtain ⟨hLoose₂, hPaid⟩ := hDone.settled hZero
        refine ⟨fun ctx hSome => ?_, hPaid.later hOn₃.later⟩
        rw [hSame] at hSome
        exact hLoose₂ ctx hSome
      · intro hNe
        obtain ⟨hAbort, hAborted⟩ := hDone.undone hNe
        exact ⟨hAbort.later hOn₃.later, hAborted.later hOn₃.later⟩
    apply (reaches_clearingDestroy hDone').bind
    intro _ mem₄ h₄ hOn₄ _
    split
    · rename_i hZero
      have hPaid := (hDone'.settled hZero).2.later hOn₄.later
      apply (hExits.approved _ _ _ _ hPaid).bind
      intro _ mem₅ h₅ hOn₅ _
      apply reaches_pure
      intro isDup id hEq
      cases hEq
      exact hPaid.later hOn₅.later
    · rename_i hNe
      have hAborted := (hDone'.undone hNe).2.later hOn₄.later
      apply (reaches_reversalEnqueue hAborted masked req.amountText).bind
      intro _ mem₅ h₅ _ _
      apply clerk_bind (hExits.declined _ _)
      exact fun _ _ _ _ => reaches_pure (told_declined _ _ _)

theorem reaches_enlist (hExits : QuietExits exits) (hOpen : c.logOpen = T.logOpen) (hLoose : Loose mem)
    (t0 : Int) (masked : Bytes) {txn : Transaction Who} (hOk : T.subjects (.record txn.transactionId.val))
    (hRow : T.subjects (.row req.requestId req.amountText (lit "APPROVED"))) :
    Reaches T maxRetries (enlist exits t0 req masked c txn) mem h fun r _ h' => Told T r h' := by
  have hRegister : ∀ (t : Transaction Who) (who : Who),
      (txnRegisterParticipant t who).All Idle fun _ => True := fun t who => ⟨trivial, fun _ => trivial⟩
  rw [enlist]
  apply idle_bind (hRegister _ _) hLoose
  intro first mem₁ h₁ hLoose₁ _
  split
  · exact reaches_cleanup hExits hOpen hLoose₁ _ _ hOk
  apply idle_bind (hRegister _ _) hLoose₁
  intro second mem₂ h₂ hLoose₂ _
  split
  · exact reaches_cleanup hExits hOpen hLoose₂ _ _ hOk
  apply idle_bind (Q := fun _ => True) (p := dbParticipantBegin _) ⟨trivial, fun _ => trivial⟩ hLoose₂
  intro begun mem₃ h₃ hLoose₃ _
  split
  · exact reaches_cleanup hExits hOpen hLoose₃ _ _ hOk
  apply idle_bind (Q := fun _ => True) (p := clearingParticipantSetTransaction _ _ _)
    ⟨trivial, fun _ => trivial⟩ hLoose₃
  intro set mem₄ h₄ hLoose₄ _
  split
  · exact reaches_cleanup hExits hOpen hLoose₄ _ _ hOk
  apply reaches_settle hExits hOpen hLoose₄ t0 masked (by exact hOk) hRow
  intro who
  simp only [Transaction.register, List.map_append, List.mem_append]
  cases who with
  | database => exact .inl (.inr List.mem_cons_self)
  | clearing => exact .inr List.mem_cons_self

theorem reaches_txnBegin (hOpen : c.logOpen = T.logOpen) {txnId : TxnId} (hOk : T.subjects (.record txnId.val)) :
    Reaches T maxRetries (txnBegin c txnId) mem h fun r mem' _ =>
      mem' = mem ∧ r.2.logOpen = T.logOpen ∧ ∀ txn, r.1 = some txn → txn.transactionId = txnId := by
  have hNone : ∀ status, Reaches T maxRetries (logMessageJson .error "txn_coordinator"
      (some txnId.val) status (-1) >>= fun _ => pure (none, c)) mem h fun r mem' _ =>
      mem' = mem ∧ r.2.logOpen = T.logOpen ∧
        ∀ txn : Transaction Who, r.1 = some txn → txn.transactionId = txnId := by
    intro status
    apply clerk_bind (clerk_logMessageJson _ _ _ _ _)
    exact fun _ _ _ _ => reaches_pure ⟨rfl, hOpen, fun txn hSome => by cases hSome⟩
  unfold txnBegin
  split
  · exact hNone _
  split
  · exact hNone _
  · apply clerk_bind (clerk_sys ⟨rfl, rfl, rfl⟩)
    intro allocated h₁ _ _
    split
    · apply clerk_bind (clerk_sys ⟨rfl, rfl, rfl⟩)
      intro now h₂ _ _
      apply (reaches_plainRecord (by exact hOpen) (by exact hOk) fun _ => rfl).bind
      rintro _ _ h₃ - ⟨-, rfl⟩
      apply clerk_bind (clerk_logMessageJson _ _ _ _ _)
      refine fun _ _ _ _ => reaches_pure ⟨rfl, hOpen, fun txn hSome => ?_⟩
      cases hSome
      rfl
    · exact reaches_pure ⟨rfl, hOpen, fun txn hSome => by cases hSome⟩

/-- Contexts that could be created are destroyed before the rest. -/
theorem reaches_released (hLoose : Loose mem) {rest : CallProg Who α}
    {R : α → Memory → List SysEvent → Prop}
    (hRest : ∀ mem' h', Loose mem' → Reaches T maxRetries rest mem' h' R) (dbCtx clearingCtx : Bool) :
    Reaches T maxRetries (do
      if dbCtx then dbParticipantDestroy
      if clearingCtx then clearingParticipantDestroy
      rest) mem h R := by
  have hClearing : ∀ mem' h', Loose mem' → Reaches T maxRetries (do
      if clearingCtx then clearingParticipantDestroy
      rest) mem' h' R := by
    intro mem' h' hLoose'
    cases clearingCtx with
    | false => exact hRest mem' h' hLoose'
    | true =>
      apply idle_bind (Q := fun _ => True) (p := clearingParticipantDestroy)
        ⟨trivial, fun _ => trivial⟩ hLoose'
      exact fun _ mem'' h'' hLoose'' _ => hRest mem'' h'' hLoose''
  cases dbCtx with
  | false => exact hClearing mem h hLoose
  | true =>
    apply idle_bind (Q := fun _ => True) (p := dbParticipantDestroy) ⟨trivial, fun _ => trivial⟩ hLoose
    exact fun _ mem' h' hLoose' _ => hClearing mem' h' hLoose'

theorem reaches_decline (hExits : QuietExits exits) (requestId : Option Bytes) (reason : Reason) :
    Reaches T maxRetries (decline exits requestId reason c) mem h fun r _ h' => Told T r h' := by
  rw [decline]
  apply clerk_bind (hExits.declined _ _)
  exact fun _ _ _ _ => reaches_pure (told_declined _ _ _)

theorem reaches_transact (hExits : QuietExits exits) (hOpen : c.logOpen = T.logOpen) (hLoose : Loose mem)
    (hPermitted : Permitted T req) (t0 : Int) :
    Reaches T maxRetries (transact exits t0 req c) mem h fun r _ h' => Told T r h' := by
  rw [transact]
  apply clerk_bind (clerk_sys ⟨rfl, rfl, rfl⟩)
  intro now h₁ _ _
  apply (reaches_txnBegin hOpen (hPermitted.record now)).bind
  rintro ⟨begun, c'⟩ _ h₂ - ⟨rfl, hOpen', hId⟩
  cases begun with
  | none => exact reaches_decline hExits _ _
  | some txn =>
    have hOk' : T.subjects (.record txn.transactionId.val) := by
      rw [hId txn rfl]
      exact hPermitted.record now
    apply clerk_bind (clerk_sys ⟨rfl, rfl, rfl⟩)
    intro dbc h₃ _ _
    apply idle_bind (Q := fun _ => True) (p := dbParticipantInit _) ⟨trivial, fun _ => trivial⟩ hLoose
    intro dbCtx mem₂ h₄ hLoose₂ _
    apply idle_bind (Q := fun _ => True) (p := clearingParticipantInit) ⟨trivial, fun _ => trivial⟩
      hLoose₂
    intro clearingCtx mem₃ h₅ hLoose₃ _
    split
    · apply clerk_bind (hExits.declined _ _)
      intro _ h₆ _ _
      apply reaches_released hLoose₃
      intro mem₄ h₇ hLoose₄
      apply (reaches_txnAbort hOpen' hOk' rfl (hLoose₄.held _)).bind
      exact fun _ _ _ _ _ => reaches_pure (told_declined _ _ _)
    · exact reaches_enlist hExits hOpen' hLoose₃ _ _ hOk' hPermitted.row

theorem reaches_pipeline (hExits : QuietExits exits) (hOpen : c.logOpen = T.logOpen) (hLoose : Loose mem)
    {text : Bytes}
    (hPermitted : ∀ req, isoParseRequestLine text = .ok req → Permitted T req)
    (atof : Bytes → Double) :
    Reaches T maxRetries (pipeline exits atof c text) mem h fun r _ h' => Told T r h' := by
  rw [pipeline]
  apply clerk_bind (clerk_sys ⟨rfl, rfl, rfl⟩)
  intro t0 h₁ _ _
  apply clerk_bind (clerk_metricsInc _)
  intro _ h₂ _ _
  split
  · exact reaches_decline hExits _ _
  rename_i req hParsed
  split
  · exact reaches_decline hExits _ _
  split
  · exact reaches_decline hExits _ _
  apply clerk_bind (clerk_sys ⟨rfl, rfl, rfl⟩)
  intro rdec h₃ _ _
  split
  · exact reaches_decline hExits _ _
  · exact reaches_transact hExits hOpen hLoose (hPermitted req hParsed) _

/-- Whatever the answers, a request does what the log says it may do. -/
theorem wp_serve {cfg : Config} {a : Arrival} (hOpen : a.coordinator.logOpen = T.logOpen)
    (hPermitted : ∀ req, isoParseRequestLine a.text = .ok req → Permitted T req) :
    (Handler.serve cfg a).wp history (fun _ h => Proper T h) [] := by
  have hEmpty : Loose Memory.empty := fun ctx hSome => by cases hSome
  have hRequest : Reaches T cfg.maxRetries (request a.route cfg.atof a.coordinator a.text)
      Memory.empty [] fun _ _ _ => True := by
    cases a.route with
    | line => exact (reaches_pipeline lineExits_quiet hOpen hEmpty hPermitted _).mono fun _ _ _ _ _ => trivial
    | body =>
      apply (reaches_pipeline httpExits_quiet hOpen hEmpty hPermitted _).bind
      rintro ⟨r, c⟩ mem h - hTold
      cases r with
      | declined reason =>
        apply clerk_bind (clerk_sys ⟨rfl, rfl, rfl⟩)
        exact fun _ _ _ _ => reaches_pure trivial
      | approved isDup id =>
        apply (reaches_approved rfl rfl rfl (hTold isDup id rfl)).bind
        exact fun _ _ _ _ _ => reaches_pure trivial
  exact Prog.wp_mono _ (fun _ h hx => hx.1.proper proper_nil) hRequest

end Pipeline

section Runs

variable {W A : Type} {c : Pool.Setting Sys.Ans ((Response × Coordinator) × Memory) W Arrival A}
  {cfg : Config} {w₀ : W} {tr : List (Pool.Label Sys.Ans Arrival A)}
  {s : Pool.State Sys.Ans ((Response × Coordinator) × Memory) W}

/-- Request `i` has performed the operation, or is about to. -/
def Underway (tr : List (Pool.Label Sys.Ans Arrival A))
    (s : Pool.State Sys.Ans ((Response × Coordinator) × Memory) W) (i : Nat) (op : Sys) : Prop :=
  (∃ answer, .acted i ⟨op, answer⟩ ∈ tr) ∨ ∃ k, s.procs[i]? = some (.call op k)

theorem Underway.started (hRun : Run (Pool.Step c) ⟨[], w₀⟩ tr s) {i : Nat} {op : Sys}
    (hOp : Underway tr s i op) : ∃ a, (Pool.starts tr)[i]? = some a := by
  obtain ⟨answer, hMem⟩ | ⟨k, hProc⟩ := hOp
  · exact Pool.exists_start hRun hMem
  · have hLength := (Pool.run_threaded hRun).length_eq
    have hi := (List.getElem?_eq_some_iff.mp hProc).1
    exact ⟨_, List.getElem?_eq_getElem (hLength ▸ hi)⟩

theorem proper_of_wp {T : Terms} {α : Type} {p : SysProg α} {h : List SysEvent}
    (hp : p.wp history (fun _ h => Proper T h) h) : Proper T h := by
  by_contra hNot
  apply hp.not_of_final (fun h => ¬Proper T h) _ _ _ hNot
  · intro h x hFault hNext
    exact hFault (hNext.of_prefix (List.prefix_append h [x]))
  · intro h op
    exact ⟨op.calm, trivial⟩
  · intro a h hProper hFault
    exact hFault hProper

/-- What a request does or is about to do is warranted by what it has seen. -/
theorem Underway.warranted {T : Terms} (hServes : ∀ a, c.program a = serve cfg a)
    (hRun : Run (Pool.Step c) ⟨[], w₀⟩ tr s) {i : Nat} {a : Arrival}
    (ha : (Pool.starts tr)[i]? = some a) (hOpen : a.coordinator.logOpen = T.logOpen)
    (hPermitted : ∀ req, isoParseRequestLine a.text = .ok req → Permitted T req) {op : Sys}
    (hOp : Underway tr s i op) : Warranted T (Pool.events i tr) op := by
  have hServe : (c.program a).wp history (fun _ h => Proper T h) [] := by
    rw [hServes a]
    exact wp_serve hOpen hPermitted
  obtain ⟨q, hq, hWp⟩ := Pool.run_wp hRun ha (fun _ _ _ => trivial) hServe
  rw [history_after, List.nil_append] at hWp
  obtain ⟨answer, hMem⟩ | ⟨k, hProc⟩ := hOp
  · obtain ⟨before, after, hEvents⟩ := List.append_of_mem (Pool.mem_events.mpr hMem)
    have hWarranted := proper_of_wp hWp before ⟨op, answer⟩ after hEvents
    exact hWarranted.later (hEvents ▸ List.prefix_append _ _)
  · rw [hProc] at hq
    cases hq
    have hNext : Proper T (Pool.events i tr ++ [⟨op, op.calm⟩]) := proper_of_wp (hWp op.calm trivial)
    exact hNext (Pool.events i tr) ⟨op, op.calm⟩ [] rfl

end Runs

end MiniVisa.WriteAhead
