import Mathlib.Logic.Basic
import Mathlib.Tactic.Cases

/-! # Programs that call their environment

A program either returns or performs one operation and goes on with the answer.
Its runs are the sequences of answered operations it can produce. An observer folds
a run into a state of its own and says which answers it admits; the weakest
precondition of a program for an observer turns a statement about all runs into a
symbolic execution. Programs over an interface are refined by implementing every
operation of the interface as a program of a lower one.
-/

namespace Interaction

set_option autoImplicit false

inductive Prog (E : Type) (R : E → Type) (α : Type) : Type
  | ret (a : α)
  | call (e : E) (k : R e → Prog E R α)

namespace Prog

variable {E : Type} {R : E → Type} {α β γ : Type}

def bind : Prog E R α → (α → Prog E R β) → Prog E R β
  | .ret a, f => f a
  | .call e k, f => .call e fun r => (k r).bind f

instance : Monad (Prog E R) where
  pure := .ret
  bind := .bind

def perform (e : E) : Prog E R (R e) := .call e .ret

/-- Complete runs: the answered operations in order, and the result. -/
inductive Runs : Prog E R α → List (Sigma R) → α → Prop
  | ret (a : α) : Runs (.ret a) [] a
  | call {e : E} {k : R e → Prog E R α} (r : R e) {tr : List (Sigma R)} {a : α} :
      Runs (k r) tr a → Runs (.call e k) (⟨e, r⟩ :: tr) a

inductive Steps : Prog E R α → List (Sigma R) → Prog E R α → Prop
  | refl (p : Prog E R α) : Steps p [] p
  | call {e : E} {k : R e → Prog E R α} (r : R e) {tr : List (Sigma R)} {q : Prog E R α} :
      Steps (k r) tr q → Steps (.call e k) (⟨e, r⟩ :: tr) q

theorem Steps.snoc {p : Prog E R α} {tr : List (Sigma R)} {e : E} {k : R e → Prog E R α}
    (h : Steps p tr (.call e k)) (r : R e) : Steps p (tr ++ [⟨e, r⟩]) (k r) := by
  generalize hq : Prog.call e k = q at h
  induction h with
  | refl p =>
    subst hq
    exact .call r (.refl _)
  | call r' _ ih => exact .call r' (ih hq)

def runWith (answer : (e : E) → R e) : Prog E R α → List (Sigma R) × α
  | .ret a => ([], a)
  | .call e k =>
    let rest := (k (answer e)).runWith answer
    (⟨e, answer e⟩ :: rest.1, rest.2)

theorem runs_runWith (answer : (e : E) → R e) (p : Prog E R α) :
    Runs p (p.runWith answer).1 (p.runWith answer).2 := by
  induction p with
  | ret a => exact .ret a
  | call e k ih => exact .call (answer e) (ih (answer e))

theorem runWith_answers (answer : (e : E) → R e) (p : Prog E R α) :
    ∀ x ∈ (p.runWith answer).1, x.2 = answer x.1 := by
  induction p with
  | ret a => intro x hx; cases hx
  | call e k ih =>
    intro x hx
    rcases List.mem_cons.mp hx with rfl | hx
    · rfl
    · exact ih (answer e) x hx

end Prog

/-- A fold over runs, with the answers it admits in each of its states. -/
structure Observer {E : Type} (R : E → Type) (σ : Type) where
  admits : σ → Sigma R → Prop
  next : σ → Sigma R → σ

namespace Observer

variable {E : Type} {R : E → Type} {σ : Type}

def after (m : Observer R σ) (s : σ) (tr : List (Sigma R)) : σ := tr.foldl m.next s

def Admits (m : Observer R σ) : σ → List (Sigma R) → Prop
  | _, [] => True
  | s, x :: tr => m.admits s x ∧ m.Admits (m.next s x) tr

instance Admits.decidable (m : Observer R σ) [∀ s x, Decidable (m.admits s x)] :
    ∀ s tr, Decidable (m.Admits s tr)
  | _, [] => inferInstanceAs (Decidable True)
  | s, x :: tr =>
    have := Admits.decidable m (m.next s x) tr
    inferInstanceAs (Decidable (_ ∧ _))

@[simp] theorem after_nil (m : Observer R σ) (s : σ) : m.after s [] = s := rfl

@[simp] theorem after_cons (m : Observer R σ) (s : σ) (x : Sigma R) (tr : List (Sigma R)) :
    m.after s (x :: tr) = m.after (m.next s x) tr := rfl

theorem admits_of_forall {m : Observer R σ} {tr : List (Sigma R)}
    (h : ∀ x ∈ tr, ∀ s, m.admits s x) (s : σ) : m.Admits s tr := by
  induction tr generalizing s with
  | nil => trivial
  | cons x tr ih =>
    exact ⟨h x List.mem_cons_self s, ih (fun y hy => h y (List.mem_cons_of_mem _ hy)) _⟩

theorem admits_append (m : Observer R σ) (s : σ) (tr rest : List (Sigma R)) :
    m.Admits s (tr ++ rest) ↔ m.Admits s tr ∧ m.Admits (m.after s tr) rest := by
  induction tr generalizing s with
  | nil => simp [Admits]
  | cons x tr ih => simp [Admits, ih, and_assoc]

theorem after_append (m : Observer R σ) (s : σ) (tr rest : List (Sigma R)) :
    m.after s (tr ++ rest) = m.after (m.after s tr) rest := List.foldl_append

def collect {δ : Type} (ok : Sigma R → Prop) (view : Sigma R → List δ) : Observer R (List δ) where
  admits _ x := ok x
  next s x := s ++ view x

theorem collect_after {δ : Type} (ok : Sigma R → Prop) (view : Sigma R → List δ) (s : List δ)
    (tr : List (Sigma R)) : (collect ok view).after s tr = s ++ tr.flatMap view := by
  induction tr generalizing s with
  | nil => simp
  | cons x tr ih =>
    rw [after_cons, ih]
    simp [collect]

theorem collect_admits {δ : Type} {ok : Sigma R → Prop} {view : Sigma R → List δ} {s : List δ}
    {tr : List (Sigma R)} (h : ∀ x ∈ tr, ok x) : (collect ok view).Admits s tr :=
  admits_of_forall (fun x hx _ => h x hx) s

end Observer

namespace Prog

variable {E : Type} {R : E → Type} {α β σ : Type}

/-- What must hold of the observer's state for `Q` to hold at the end of every admitted run. -/
def wp (m : Observer R σ) : Prog E R α → (α → σ → Prop) → σ → Prop
  | .ret a, Q, s => Q a s
  | .call e k, Q, s => ∀ r, m.admits s ⟨e, r⟩ → wp m (k r) Q (m.next s ⟨e, r⟩)

variable (m : Observer R σ)

@[simp] theorem wp_ret (a : α) (Q : α → σ → Prop) (s : σ) : wp m (.ret a) Q s ↔ Q a s := Iff.rfl

@[simp] theorem wp_pure (a : α) (Q : α → σ → Prop) (s : σ) :
    wp m (pure a : Prog E R α) Q s ↔ Q a s := Iff.rfl

@[simp] theorem wp_call (e : E) (k : R e → Prog E R α) (Q : α → σ → Prop) (s : σ) :
    wp m (.call e k) Q s ↔ ∀ r, m.admits s ⟨e, r⟩ → wp m (k r) Q (m.next s ⟨e, r⟩) := Iff.rfl

@[simp] theorem wp_perform (e : E) (Q : R e → σ → Prop) (s : σ) :
    wp m (perform e) Q s ↔ ∀ r, m.admits s ⟨e, r⟩ → Q r (m.next s ⟨e, r⟩) := Iff.rfl

theorem wp_bind' (p : Prog E R α) (f : α → Prog E R β) (Q : β → σ → Prop) (s : σ) :
    wp m (p.bind f) Q s ↔ wp m p (fun a s' => wp m (f a) Q s') s := by
  induction p generalizing s with
  | ret a => rfl
  | call e k ih =>
    simp only [bind, wp_call]
    exact forall_congr' fun r => imp_congr_right fun _ => ih r _

@[simp] theorem wp_bind (p : Prog E R α) (f : α → Prog E R β) (Q : β → σ → Prop) (s : σ) :
    wp m (p >>= f) Q s ↔ wp m p (fun a s' => wp m (f a) Q s') s := wp_bind' m p f Q s

theorem wp_mono {p : Prog E R α} {P Q : α → σ → Prop} (h : ∀ a s, P a s → Q a s) {s : σ}
    (hp : wp m p P s) : wp m p Q s := by
  induction p generalizing s with
  | ret a => exact h a s hp
  | call e k ih => exact fun r hr => ih r (hp r hr)

theorem wp_of_forall (p : Prog E R α) {Q : α → σ → Prop} (s : σ) (h : ∀ a s, Q a s) :
    wp m p Q s := by
  induction p generalizing s with
  | ret a => exact h a s
  | call e k ih => exact fun r _ => ih r _

theorem wp_iff_runs (p : Prog E R α) (Q : α → σ → Prop) (s : σ) :
    wp m p Q s ↔ ∀ tr a, Runs p tr a → m.Admits s tr → Q a (m.after s tr) := by
  induction p generalizing s with
  | ret a =>
    constructor
    · intro h tr b hr _
      cases hr
      exact h
    · intro h
      exact h [] a (.ret a) trivial
  | call e k ih =>
    constructor
    · intro h tr a hr ha
      cases hr with
      | call r hr => exact (ih r _).mp (h r ha.1) _ _ hr ha.2
    · intro h r hr
      refine (ih r _).mpr fun tr a htr ha => ?_
      exact h _ _ (.call r htr) ⟨hr, ha⟩

theorem wp.runs {m : Observer R σ} {p : Prog E R α} {Q : α → σ → Prop} {s : σ}
    (h : wp m p Q s) {tr : List (Sigma R)} {a : α} (hr : Runs p tr a) (ha : m.Admits s tr) :
    Q a (m.after s tr) := (wp_iff_runs m p Q s).mp h tr a hr ha

theorem wp.steps {m : Observer R σ} {p q : Prog E R α} {Q : α → σ → Prop} {s : σ}
    (h : wp m p Q s) {tr : List (Sigma R)} (hs : Steps p tr q) (ha : m.Admits s tr) :
    wp m q Q (m.after s tr) := by
  induction hs generalizing s with
  | refl p => exact h
  | call r _ ih => exact ih (h r ha.1) ha.2

/-- A fault the observer never forgets is absent all along a run if it is absent at the end. -/
theorem wp.not_of_final {m : Observer R σ} (fault : σ → Prop)
    (hKeep : ∀ s x, fault s → fault (m.next s x)) (hAns : ∀ s e, ∃ r, m.admits s ⟨e, r⟩)
    {p : Prog E R α} {Q : α → σ → Prop} (hQ : ∀ a s, Q a s → ¬fault s) {s : σ}
    (h : wp m p Q s) : ¬fault s := by
  induction p generalizing s with
  | ret a => exact hQ a s h
  | call e k ih =>
    obtain ⟨r, hr⟩ := hAns s e
    exact fun hFault => ih r (h r hr) (hKeep _ _ hFault)

theorem wp.collected {δ : Type} {ok : Sigma R → Prop} {view : Sigma R → List δ} {p : Prog E R α}
    {Q : α → List δ → Prop} (h : wp (.collect ok view) p Q []) {tr : List (Sigma R)} {a : α}
    (hr : Runs p tr a) (ha : ∀ x ∈ tr, ok x) : Q a (tr.flatMap view) := by
  have hq := h.runs hr (Observer.collect_admits ha)
  rwa [Observer.collect_after, List.nil_append] at hq

theorem wp.exists_final {δ : Type} {ok : Sigma R → Prop} {view : Sigma R → List δ}
    (hOk : ∀ e, ∃ r, ok ⟨e, r⟩) {p : Prog E R α} {Q : α → List δ → Prop} {s : List δ}
    (h : wp (.collect ok view) p Q s) : ∃ a rest, Q a (s ++ rest) := by
  induction p generalizing s with
  | ret a => exact ⟨a, [], by simpa using h⟩
  | call e k ih =>
    obtain ⟨r, hr⟩ := hOk e
    obtain ⟨a, rest, hq⟩ := ih r (h r hr)
    exact ⟨a, view ⟨e, r⟩ ++ rest, by simpa [Observer.collect] using hq⟩

/-- Every operation a program can perform satisfies `P` and every result satisfies `Q`. -/
def All (P : E → Prop) (Q : α → Prop) : Prog E R α → Prop
  | .ret a => Q a
  | .call e k => P e ∧ ∀ r, All P Q (k r)

variable {P : E → Prop}

@[simp] theorem all_ret (Q : α → Prop) (a : α) : (.ret a : Prog E R α).All P Q ↔ Q a := Iff.rfl

@[simp] theorem all_pure (Q : α → Prop) (a : α) : (pure a : Prog E R α).All P Q ↔ Q a := Iff.rfl

@[simp] theorem all_call (Q : α → Prop) (e : E) (k : R e → Prog E R α) :
    (Prog.call e k).All P Q ↔ P e ∧ ∀ r, (k r).All P Q := Iff.rfl

theorem all_bind' (Q : β → Prop) (p : Prog E R α) (f : α → Prog E R β) :
    (p.bind f).All P Q ↔ p.All P fun a => (f a).All P Q := by
  induction p with
  | ret a => rfl
  | call e k ih => exact and_congr_right fun _ => forall_congr' ih

@[simp] theorem all_bind (Q : β → Prop) (p : Prog E R α) (f : α → Prog E R β) :
    (p >>= f).All P Q ↔ p.All P fun a => (f a).All P Q := all_bind' Q p f

theorem All.mono {Q Q' : α → Prop} (h : ∀ a, Q a → Q' a) {p : Prog E R α} (hp : p.All P Q) :
    p.All P Q' := by
  induction p with
  | ret a => exact h a hp
  | call e k ih => exact ⟨hp.1, fun r => ih r (hp.2 r)⟩

theorem All.imp {P' : E → Prop} (h : ∀ e, P e → P' e) {Q : α → Prop} {p : Prog E R α}
    (hp : p.All P Q) : p.All P' Q := by
  induction p with
  | ret a => exact hp
  | call e k ih => exact ⟨h e hp.1, fun r => ih r (hp.2 r)⟩

theorem All.steps {Q : α → Prop} {p q : Prog E R α} (hp : p.All P Q) {tr : List (Sigma R)}
    (hSteps : Steps p tr q) : (∀ x ∈ tr, P x.1) ∧ q.All P Q := by
  induction hSteps with
  | refl p => exact ⟨List.forall_mem_nil _, hp⟩
  | call r _ ih =>
    obtain ⟨hEvents, hRest⟩ := ih (hp.2 r)
    exact ⟨List.forall_mem_cons.mpr ⟨hp.1, hEvents⟩, hRest⟩

theorem all_of_forall {Q : α → Prop} (p : Prog E R α) (h : ∀ a, Q a) :
    p.All (fun _ => True) Q := by
  induction p with
  | ret a => exact h a
  | call e k ih => exact ⟨trivial, ih⟩

theorem All.result {Q : α → Prop} {p : Prog E R α} (hp : p.All P Q) {tr : List (Sigma R)} {a : α}
    (hRuns : Runs p tr a) : Q a := by
  induction hRuns with
  | ret a => exact hp
  | call r _ ih => exact ih (hp.2 r)

theorem All.runs {Q : α → Prop} {p : Prog E R α} (hp : p.All P Q) {tr : List (Sigma R)} {a : α}
    (hRuns : Runs p tr a) : ∀ x ∈ tr, P x.1 := by
  induction hRuns with
  | ret a => exact List.forall_mem_nil _
  | call r _ ih => exact List.forall_mem_cons.mpr ⟨hp.1, ih (hp.2 r)⟩

/-- What can be performed is performed in some run. -/
theorem exists_runs_of_not_all (answer : (e : E) → R e) {p : Prog E R α}
    (h : ¬p.All P fun _ => True) : ∃ tr a, Runs p tr a ∧ ∃ x ∈ tr, ¬P x.1 := by
  induction p with
  | ret a => exact absurd trivial h
  | call e k ih =>
    by_cases he : P e
    · obtain ⟨r, hr⟩ : ∃ r, ¬(k r).All P fun _ => True := not_forall.mp fun hAll => h ⟨he, hAll⟩
      obtain ⟨tr, a, hRuns, x, hx, hP⟩ := ih r hr
      exact ⟨_, a, .call r hRuns, x, List.mem_cons_of_mem _ hx, hP⟩
    · have hRest := runs_runWith answer (k (answer e))
      exact ⟨_, _, .call _ hRest, _, List.mem_cons_self, he⟩

/-- Operations the observer takes no notice of make a program it takes no notice of. -/
theorem All.wp {s : σ} (hQuiet : ∀ e, P e → ∀ r, m.next s ⟨e, r⟩ = s) {Q : α → Prop}
    {p : Prog E R α} (hp : p.All P Q) : p.wp m (fun a s' => s' = s ∧ Q a) s := by
  induction p with
  | ret a => exact ⟨rfl, hp⟩
  | call e k ih =>
    intro r _
    rw [hQuiet e hp.1 r]
    exact ih r (hp.2 r)

section Refinement

variable {E' : Type} {R' : E' → Type} {τ : Type}

/-- Implement every operation of the interface over a lower interface, with memory `τ`. -/
def interp (impl : (e : E) → τ → Prog E' R' (R e × τ)) : Prog E R α → τ → Prog E' R' (α × τ)
  | .ret a, t => .ret (a, t)
  | .call e k, t => (impl e t).bind fun x => interp impl (k x.1) x.2

variable (impl : (e : E) → τ → Prog E' R' (R e × τ)) (n : Observer R' σ)

@[simp] theorem wp_interp_pure (a : α) (t : τ) (Q : α × τ → σ → Prop) (s : σ) :
    wp n (interp impl (pure a) t) Q s ↔ Q (a, t) s := Iff.rfl

@[simp] theorem wp_interp_call (e : E) (k : R e → Prog E R α) (t : τ) (Q : α × τ → σ → Prop)
    (s : σ) : wp n (interp impl (.call e k) t) Q s ↔
      wp n (impl e t) (fun x s' => wp n (interp impl (k x.1) x.2) Q s') s :=
  wp_bind' n _ _ Q s

theorem wp_interp_call_bind (e : E) (f : R e → Prog E R β) (t : τ) (Q : β × τ → σ → Prop)
    (s : σ) : wp n (interp impl (.call e .ret >>= f) t) Q s ↔
      wp n (impl e t) (fun x s' => wp n (interp impl (f x.1) x.2) Q s') s :=
  wp_interp_call impl n e f t Q s

@[simp] theorem wp_interp_bind (p : Prog E R α) (f : α → Prog E R β) (t : τ)
    (Q : β × τ → σ → Prop) (s : σ) : wp n (interp impl (p >>= f) t) Q s ↔
      wp n (interp impl p t) (fun x s' => wp n (interp impl (f x.1) x.2) Q s') s := by
  change wp n (interp impl (p.bind f) t) Q s ↔ _
  induction p generalizing t s with
  | ret a => rfl
  | call e k ih =>
    simp only [bind, wp_interp_call]
    constructor
    · exact wp_mono n fun x s' h => (ih x.1 x.2 s').mp h
    · exact wp_mono n fun x s' h => (ih x.1 x.2 s').mpr h

theorem All.interp {P' : E' → Prop} {I : τ → Prop}
    (hImpl : ∀ e t, P e → I t → (impl e t).All P' fun x => I x.2) {Q : α → Prop} {p : Prog E R α}
    (hp : p.All P Q) {t : τ} (ht : I t) : (p.interp impl t).All P' fun x => Q x.1 ∧ I x.2 := by
  induction p generalizing t with
  | ret a => exact ⟨hp, ht⟩
  | call e k ih =>
    refine (all_bind' _ _ _).mpr ((hImpl e t hp.1 ht).mono fun x hx => ?_)
    exact ih x.1 (hp.2 x.1) hx

/-- An invariant of memory and observer that every call keeps is kept by the program. -/
theorem All.wp_interp {I : τ → σ → Prop}
    (hImpl : ∀ e t s, P e → I t s → (impl e t).wp n (fun x s' => I x.2 s') s) {Q : α → Prop}
    {p : Prog E R α} (hp : p.All P Q) {t : τ} {s : σ} (h : I t s) :
    (p.interp impl t).wp n (fun x s' => Q x.1 ∧ I x.2 s') s := by
  induction p generalizing t s with
  | ret a => exact ⟨hp, h⟩
  | call e k ih =>
    rw [wp_interp_call]
    exact wp_mono n (fun x s' hx => ih x.1 (hp.2 x.1) hx) (hImpl e t s hp.1 h)

end Refinement

end Prog

end Interaction
