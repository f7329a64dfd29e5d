import MiniVisa.Library.Program

/-! # What a program shows and what it says

A run is seen through two views of its events: what the program shows, in order, and what it
says, in order; an event in neither is hidden. Two programs are similar when they have the same
results with the same views. A program answers for another when it behaves like it and besides
says one word, which depends on the result.
-/

namespace Interaction.Prog

set_option autoImplicit false

variable {E : Type} {R : E → Type} {α β δ ε : Type}

theorem runs_bind {p : Prog E R α} {f : α → Prog E R β} {tr : List (Sigma R)} {b : β} :
    (p >>= f).Runs tr b ↔ ∃ a tr₁ tr₂, tr = tr₁ ++ tr₂ ∧ p.Runs tr₁ a ∧ (f a).Runs tr₂ b := by
  change (p.bind f).Runs tr b ↔ _
  induction p generalizing tr with
  | ret a =>
    constructor
    · intro h
      exact ⟨a, [], tr, rfl, .ret a, h⟩
    · rintro ⟨a', tr₁, tr₂, rfl, hRet, h⟩
      cases hRet
      exact h
  | call e k ih =>
    constructor
    · intro h
      cases h with
      | call r h =>
        obtain ⟨a, tr₁, tr₂, rfl, h₁, h₂⟩ := (ih r).mp h
        exact ⟨a, _ :: tr₁, tr₂, rfl, .call r h₁, h₂⟩
    · rintro ⟨a, tr₁, tr₂, rfl, h₁, h₂⟩
      cases h₁ with
      | call r h₁ => exact .call r ((ih r).mpr ⟨a, _, tr₂, rfl, h₁, h₂⟩)

theorem bind_assoc {γ : Type} (p : Prog E R α) (f : α → Prog E R β) (g : β → Prog E R γ) :
    (p >>= f) >>= g = p >>= fun a => f a >>= g := by
  change (p.bind f).bind g = p.bind fun a => (f a).bind g
  induction p with
  | ret a => rfl
  | call e k ih => exact congrArg (Prog.call e) (funext fun r => ih r)

theorem bind_pure (p : Prog E R α) : p >>= pure = p := by
  change p.bind .ret = p
  induction p with
  | ret a => rfl
  | call e k ih => exact congrArg (Prog.call e) (funext ih)

theorem All.and {P P' : E → Prop} {Q Q' : α → Prop} {p : Prog E R α} (hp : p.All P Q)
    (hp' : p.All P' Q') : p.All (fun e => P e ∧ P' e) fun a => Q a ∧ Q' a := by
  induction p with
  | ret a => exact ⟨hp, hp'⟩
  | call e k ih => exact ⟨⟨hp.1, hp'.1⟩, fun r => ih r (hp.2 r) (hp'.2 r)⟩

theorem All.bind_congr {P : E → Prop} {Q : α → Prop} {p : Prog E R α} (hp : p.All P Q)
    {f g : α → Prog E R β} (h : ∀ a, Q a → f a = g a) : (p >>= f) = (p >>= g) := by
  change p.bind f = p.bind g
  induction p with
  | ret a => exact h a hp
  | call e k ih => exact congrArg (Prog.call e) (funext fun r => ih r (hp.2 r))

section Answers

variable {answer : (e : E) → R e} {P : E → Prop}

/-- With these answers, an operation of the kind is performed. -/
def Performs (answer : (e : E) → R e) (P : E → Prop) (p : Prog E R α) : Prop :=
  ∃ x ∈ (p.runWith answer).1, P x.1

theorem performs_call {e : E} {k : R e → Prog E R α} :
    (Prog.call e k).Performs answer P ↔ P e ∨ (k (answer e)).Performs answer P := by
  simp [Performs, runWith]

theorem runWith_bind (p : Prog E R α) (f : α → Prog E R β) :
    (p >>= f).runWith answer = ((p.runWith answer).1 ++ ((f (p.runWith answer).2).runWith answer).1,
      ((f (p.runWith answer).2).runWith answer).2) := by
  change (p.bind f).runWith answer = _
  induction p with
  | ret a => rfl
  | call e k ih => simp [Prog.bind, runWith, ih]

theorem performs_bind {p : Prog E R α} {f : α → Prog E R β} :
    (p >>= f).Performs answer P ↔
      p.Performs answer P ∨ (f (p.runWith answer).2).Performs answer P := by
  simp [Performs, runWith_bind, or_and_right, exists_or]

end Answers

section Views

variable (view : Sigma R → List δ) (said : Sigma R → List ε)

/-- Some run has this result, shows this and says that. -/
def Shows (p : Prog E R α) (shown : List δ) (spoken : List ε) (a : α) : Prop :=
  ∃ tr, p.Runs tr a ∧ tr.flatMap view = shown ∧ tr.flatMap said = spoken

def Similar (p q : Prog E R α) : Prop :=
  ∀ shown spoken a, p.Shows view said shown spoken a ↔ q.Shows view said shown spoken a

def AnswersFor (say : α → ε) (p q : Prog E R α) : Prop :=
  ∀ shown spoken a, p.Shows view said shown spoken a ↔
    spoken = [say a] ∧ q.Shows view said shown [] a

def Mute (e : E) : Prop := ∀ r, said ⟨e, r⟩ = []

variable {view said}

theorem shows_bind {p : Prog E R α} {f : α → Prog E R β} {shown : List δ} {spoken : List ε} {b : β} :
    (p >>= f).Shows view said shown spoken b ↔
      ∃ a shown₁ shown₂ spoken₁ spoken₂, shown = shown₁ ++ shown₂ ∧ spoken = spoken₁ ++ spoken₂ ∧
        p.Shows view said shown₁ spoken₁ a ∧ (f a).Shows view said shown₂ spoken₂ b := by
  constructor
  · rintro ⟨tr, hRuns, rfl, rfl⟩
    obtain ⟨a, tr₁, tr₂, rfl, h₁, h₂⟩ := runs_bind.mp hRuns
    exact ⟨a, _, _, _, _, List.flatMap_append, List.flatMap_append, ⟨tr₁, h₁, rfl, rfl⟩,
      ⟨tr₂, h₂, rfl, rfl⟩⟩
  · rintro ⟨a, _, _, _, _, rfl, rfl, ⟨tr₁, h₁, rfl, rfl⟩, ⟨tr₂, h₂, rfl, rfl⟩⟩
    exact ⟨tr₁ ++ tr₂, runs_bind.mpr ⟨a, tr₁, tr₂, rfl, h₁, h₂⟩, List.flatMap_append,
      List.flatMap_append⟩

theorem shows_call {e : E} {k : R e → Prog E R α} {shown : List δ} {spoken : List ε} {a : α} :
    (Prog.call e k).Shows view said shown spoken a ↔
      ∃ r shown' spoken', shown = view ⟨e, r⟩ ++ shown' ∧ spoken = said ⟨e, r⟩ ++ spoken' ∧
        (k r).Shows view said shown' spoken' a := by
  constructor
  · rintro ⟨tr, hRuns, rfl, rfl⟩
    cases hRuns with
    | @call _ _ r tr _ h => exact ⟨r, _, _, List.flatMap_cons, List.flatMap_cons, tr, h, rfl, rfl⟩
  · rintro ⟨r, _, _, rfl, rfl, tr, h, rfl, rfl⟩
    exact ⟨⟨e, r⟩ :: tr, .call r h, List.flatMap_cons, List.flatMap_cons⟩

theorem All.mute {Q : α → Prop} {p : Prog E R α} (hp : p.All (Mute said) Q) {tr : List (Sigma R)}
    {a : α} (hRuns : p.Runs tr a) : tr.flatMap said = [] := by
  induction hRuns with
  | ret a => rfl
  | call r _ ih => rw [List.flatMap_cons, hp.1 r, ih (hp.2 r), List.append_nil]

theorem All.shows {Q : α → Prop} {p : Prog E R α} (hp : p.All (Mute said) Q) {shown : List δ}
    {spoken : List ε} {a : α} (h : p.Shows view said shown spoken a) : spoken = [] ∧ Q a := by
  obtain ⟨tr, hRuns, rfl, rfl⟩ := h
  exact ⟨hp.mute hRuns, hp.result hRuns⟩

theorem Similar.refl (p : Prog E R α) : Similar view said p p := fun _ _ _ => Iff.rfl

theorem Similar.bind {p : Prog E R α} {f g : α → Prog E R β}
    (h : ∀ a, Similar view said (f a) (g a)) : Similar view said (p >>= f) (p >>= g) := by
  intro shown spoken b
  simp only [shows_bind, h _ _ _ _]

theorem Similar.hidden {e : E} {k : R e → Prog E R α} {q : Prog E R α} (hSome : Nonempty (R e))
    (hView : ∀ r, view ⟨e, r⟩ = []) (hMute : Mute said e) (h : ∀ r, Similar view said (k r) q) :
    Similar view said (.call e k) q := by
  intro shown spoken a
  simp only [shows_call, hView, hMute _, List.nil_append, h _ _ _ _]
  constructor
  · rintro ⟨r, _, _, rfl, rfl, hq⟩
    exact hq
  · intro hq
    obtain ⟨r⟩ := hSome
    exact ⟨r, shown, spoken, rfl, rfl, hq⟩

theorem AnswersFor.bind {say : β → ε} {p : Prog E R α} {Q : α → Prop} (hp : p.All (Mute said) Q)
    {f g : α → Prog E R β} (h : ∀ a, Q a → AnswersFor view said say (f a) (g a)) :
    AnswersFor view said say (p >>= f) (p >>= g) := by
  intro shown spoken b
  simp only [shows_bind]
  constructor
  · rintro ⟨a, shown₁, shown₂, spoken₁, spoken₂, rfl, rfl, hp', hf⟩
    obtain ⟨rfl, ha⟩ := hp.shows hp'
    obtain ⟨rfl, hg⟩ := (h a ha _ _ _).mp hf
    exact ⟨rfl, a, _, _, [], [], rfl, rfl, hp', hg⟩
  · rintro ⟨rfl, a, shown₁, shown₂, spoken₁, spoken₂, rfl, hNil, hp', hg⟩
    obtain ⟨rfl, rfl⟩ := List.append_eq_nil_iff.mp hNil.symm
    exact ⟨a, _, _, [], _, rfl, rfl, hp', (h a (hp.shows hp').2 _ _ _).mpr ⟨rfl, hg⟩⟩

/-- First the word, then what is similar to the other program. -/
theorem AnswersFor.first {say : α → ε} {e : E} {k : R e → Prog E R α} {q : Prog E R α} {word : ε}
    (hSome : Nonempty (R e)) (hView : ∀ r, view ⟨e, r⟩ = []) (hSaid : ∀ r, said ⟨e, r⟩ = [word])
    (h : ∀ r, Similar view said (k r) q) (hq : q.All (Mute said) fun a => say a = word) :
    AnswersFor view said say (.call e k) q := by
  intro shown spoken a
  simp only [shows_call, hView, hSaid, List.nil_append, h _ _ _ _]
  constructor
  · rintro ⟨r, _, spoken', rfl, rfl, hShows⟩
    obtain ⟨rfl, rfl⟩ := hq.shows hShows
    exact ⟨rfl, hShows⟩
  · rintro ⟨rfl, hShows⟩
    obtain ⟨r⟩ := hSome
    exact ⟨r, shown, [], rfl, by rw [(hq.shows hShows).2]; rfl, hShows⟩

end Views

section Refinement

variable {E' : Type} {R' : E' → Type} {τ : Type}

theorem interp_bind (impl : (e : E) → τ → Prog E' R' (R e × τ)) (p : Prog E R α)
    (f : α → Prog E R β) (t : τ) :
    (p >>= f).interp impl t = (p.interp impl t) >>= fun x => (f x.1).interp impl x.2 := by
  change (p.bind f).interp impl t = (p.interp impl t).bind _
  induction p generalizing t with
  | ret a => rfl
  | call e k ih =>
    simp only [Prog.bind, interp, ih]
    exact (bind_assoc _ _ _).symm

end Refinement

end Interaction.Prog
