import Mathlib

/-!
# Runs of a labelled transition function

`Reached step ok init s`: `s` is the state after some run from `init` all of whose steps meet the
condition `ok`, a predicate of the state before the step and its label. `NeverAfter` is about two
steps of one run.
-/

namespace UniDb

variable {σ α : Type}

lemma eq_of_update {ι : Type} [DecidableEq ι] {f : ι → α} {i j : ι} {a b : α}
    (h : Function.update f i a j = b) : j = i ∧ a = b ∨ j ≠ i ∧ f j = b := by
  by_cases hj : j = i
  · subst hj
    exact .inl ⟨rfl, (Function.update_self ..).symm.trans h⟩
  · exact .inr ⟨hj, (Function.update_of_ne hj ..).symm.trans h⟩

inductive Reached (step : σ → α → Option σ) (ok : σ → α → Prop) (init : σ) : σ → Prop
  | init : Reached step ok init init
  | step {s s' : σ} {a : α} : Reached step ok init s → ok s a → step s a = some s' →
      Reached step ok init s'

variable {step : σ → α → Option σ} {ok : σ → α → Prop} {init s : σ} {as : List α}

/-- A property that holds initially and that allowed steps keep holds in every reached state. -/
lemma Reached.invariant (inv : σ → Prop) (h : Reached step ok init s) (hinit : inv init)
    (hstep : ∀ s a s', inv s → ok s a → step s a = some s' → inv s') : inv s := by
  induction h with
  | init => exact hinit
  | step _ hok hs ih => exact hstep _ _ _ ih hok hs

/-- After a step with `event`, no later step of the run is one with `accepts`. -/
def NeverAfter (step : σ → α → Option σ) (ok : σ → α → Prop) (init : σ)
    (event accepts : σ → α → Prop) :
    Prop :=
  ∀ s a s', Reached step ok init s → ok s a → step s a = some s' → event s a →
    ∀ s'' b, Reached step ok s' s'' → ok s'' b → ¬accepts s'' b

/-- An event that leads to a state in which nothing is accepted, and that lasts. -/
lemma NeverAfter.of_spent {event accepts : σ → α → Prop} (inv spent : σ → Prop)
    (hinit : inv init) (hinv : ∀ s a s', inv s → ok s a → step s a = some s' → inv s')
    (hspends : ∀ s a s', inv s → ok s a → step s a = some s' → event s a → spent s')
    (hkeeps : ∀ s a s', inv s → spent s → ok s a → step s a = some s' → spent s')
    (hrefused : ∀ s a, inv s → spent s → ¬accepts s a) : NeverAfter step ok init event accepts := by
  intro s a s' hreached hok hstep hevent s'' b hreached' _
  have hs : inv s := hreached.invariant inv hinit hinv
  have hlast : inv s'' ∧ spent s'' :=
    hreached'.invariant (fun s => inv s ∧ spent s)
      ⟨hinv s a s' hs hok hstep, hspends s a s' hs hok hstep hevent⟩
      fun s1 c s2 h hok hstep => ⟨hinv s1 c s2 h.1 hok hstep, hkeeps s1 c s2 h.1 h.2 hok hstep⟩
  exact hrefused s'' b hlast.1 hlast.2

def runSteps (step : σ → α → Option σ) : σ → List α → Option σ
  | s, [] => some s
  | s, a :: as => (step s a).bind fun s' => runSteps step s' as

/-- The state a run ends in; the initial state if the run is not possible. -/
def runState (step : σ → α → Option σ) (init : σ) (as : List α) : σ :=
  (runSteps step init as).getD init

/-- Every label of a run is allowed in the state it is taken in. -/
def RunAllowed (step : σ → α → Option σ) (ok : σ → α → Prop) : σ → List α → Prop
  | _, [] => True
  | s, a :: as => ok s a ∧ ∀ s' ∈ step s a, RunAllowed step ok s' as

instance RunAllowed.decidable {step : σ → α → Option σ} {ok : σ → α → Prop}
    [∀ s a, Decidable (ok s a)] : ∀ (s : σ) (as : List α), Decidable (RunAllowed step ok s as)
  | _, [] => .isTrue trivial
  | s, a :: as =>
    have : DecidablePred fun s' => RunAllowed step ok s' as := fun s' => decidable s' as
    inferInstanceAs (Decidable (ok s a ∧ ∀ s' ∈ step s a, RunAllowed step ok s' as))

lemma RunAllowed.reached {s' : σ} (h : Reached step ok init s) (hok : RunAllowed step ok s as)
    (hrun : runSteps step s as = some s') : Reached step ok init s' := by
  induction as generalizing s with
  | nil =>
    cases hrun
    exact h
  | cons a as ih =>
    obtain ⟨s1, hs, hrun⟩ := Option.bind_eq_some_iff.1 hrun
    exact ih (h.step hok.1 hs) (hok.2 s1 hs) hrun

lemma RunAllowed.reached_runState (hok : RunAllowed step ok init as)
    (hrun : (runSteps step init as).isSome = true) :
    Reached step ok init (runState step init as) := by
  obtain ⟨s, hs⟩ := Option.isSome_iff_exists.1 hrun
  rw [runState, hs]
  exact hok.reached .init hs

lemma runSteps_append (bs : List α) : runSteps step s (as ++ bs) =
      (runSteps step s as).bind fun s' => runSteps step s' bs := by
  induction as generalizing s with
  | nil => rfl
  | cons a as ih =>
    rw [List.cons_append, runSteps, runSteps, Option.bind_assoc]
    exact congrArg _ (funext fun _ => ih)

/-- One more step of a run. -/
lemma Reached.snoc {a : α} (h : Reached step ok init (runState step init as))
    (hok : ok (runState step init as) a) (hrun : (runSteps step init (as ++ [a])).isSome = true) :
    Reached step ok init (runState step init (as ++ [a])) := by
  obtain ⟨s', hs'⟩ := Option.isSome_iff_exists.1 hrun
  have happend := hs'
  rw [runSteps_append] at happend
  obtain ⟨s, hs, hlast⟩ := Option.bind_eq_some_iff.1 happend
  obtain ⟨s1, hstep, h1⟩ := Option.bind_eq_some_iff.1 hlast
  cases h1
  rw [runState, hs] at h hok
  rw [runState, hs']
  exact h.step hok hstep

lemma RunAllowed.of_forall (hok : ∀ a ∈ as, ∀ s, ok s a) : RunAllowed step ok s as := by
  induction as generalizing s with
  | nil => trivial
  | cons a as ih => exact ⟨hok a (.head _) s, fun _ _ => ih fun b hb => hok b (.tail _ hb)⟩

lemma reached_runState (hok : ∀ a ∈ as, ∀ s, ok s a)
    (hrun : (runSteps step init as).isSome = true) :
    Reached step ok init (runState step init as) :=
  (RunAllowed.of_forall hok).reached_runState hrun

end UniDb
