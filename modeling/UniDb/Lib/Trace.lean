import UniDb.Lib.Run

/-!
# Infinite runs of a labelled transition function

A `Trace` takes a step at every time. Two rules:

* `Trace.invariant`: what allowed steps keep holds at every time;
* `Trace.rank_leads_to`: a rank that never grows, and that drops at steps that come again and again,
  leads to the goal.

`Trace.lasso` is the run that takes the steps of a list and then repeats one step that changes
nothing.
-/

namespace UniDb

open List

variable {σ α : Type}

structure Trace (step : σ → α → Option σ) (init : σ) where
  state : Nat → σ
  label : Nat → α
  start : state 0 = init
  next : ∀ n, step (state n) (label n) = some (state (n + 1))

variable {step : σ → α → Option σ} {init : σ}

lemma Trace.invariant (ρ : Trace step init) {ok : σ → α → Prop} (inv : σ → Prop)
    (hok : ∀ n, ok (ρ.state n) (ρ.label n)) (hinit : inv init)
    (hstep : ∀ s a s', inv s → ok s a → step s a = some s' → inv s') (n : Nat) : inv
        (ρ.state n) := by
  induction n with
  | zero =>
    rw [ρ.start]
    exact hinit
  | succ n ih => exact hstep _ _ _ ih (hok n) (ρ.next n)

variable {n : Nat} {as : List α}

/-- **Progress by rank.** While the goal `Q` is not reached `P` stays and the rank does not grow;
the steps of `progress`, of which there is always a later one, make it drop. -/
theorem Trace.rank_leads_to (ρ : Trace step init) (P Q : σ → Prop) (progress : α → Prop)
    (rank : σ → Nat) (hfair : ∀ n, ∃ m, n ≤ m ∧ progress (ρ.label m))
    (hkeep : ∀ n, P (ρ.state n) → Q (ρ.state (n + 1)) ∨
      (P (ρ.state (n + 1)) ∧ rank (ρ.state (n + 1)) ≤ rank (ρ.state n) ∧
        (progress (ρ.label n) → rank (ρ.state (n + 1)) < rank (ρ.state n)))) (hn : P (ρ.state n)) :
    ∃ m, Q (ρ.state m) := by
  by_contra hnever
  have hstays : ∀ n, P (ρ.state n) →
      ∀ k, P (ρ.state (n + k)) ∧ rank (ρ.state (n + k)) ≤ rank (ρ.state n) := by
    intro n hn k
    induction k with
    | zero => exact ⟨hn, Nat.le_refl _⟩
    | succ k ih =>
      obtain hq | ⟨hp, hle, -⟩ := hkeep _ ih.1
      · exact absurd ⟨_, hq⟩ hnever
      · exact ⟨hp, Nat.le_trans hle ih.2⟩
  -- the rank at time `n` bounds how many progress steps can follow
  induction hr : rank (ρ.state n) using Nat.strongRecOn generalizing n with
  | _ r ih =>
    obtain ⟨m, hm, hprogress⟩ := hfair n
    obtain ⟨k, rfl⟩ := Nat.exists_eq_add_of_le hm
    obtain ⟨hp, hle⟩ := hstays n hn k
    obtain hq | ⟨hp', -, hlt⟩ := hkeep _ hp
    · exact hnever ⟨_, hq⟩
    · have hdrops := hlt hprogress
      exact ih _ (by omega) hp' rfl

/-! ## Lassos -/

section
variable (hrun : (runSteps step init as).isSome = true)

include hrun

lemma runSteps_take_succ (hn : n < as.length) :
    step (runState step init (as.take n)) as[n] = some (runState step init (as.take (n + 1))) := by
  have hsplit : as = as.take n ++ [as[n]] ++ as.drop (n + 1) := by simp
  have hupto : (runSteps step init (as.take n ++ [as[n]])).isSome = true := by
    rw [hsplit, runSteps_append] at hrun
    exact Option.isSome_of_isSome_bind hrun
  rw [runSteps_append] at hupto
  obtain ⟨s, hs⟩ := Option.isSome_iff_exists.1 (Option.isSome_of_isSome_bind hupto)
  have htake : as.take (n + 1) = as.take n ++ [as[n]] := by simp
  rw [hs] at hupto
  obtain ⟨s', hs'⟩ := Option.isSome_iff_exists.1 hupto
  have hstep : step s as[n] = some s' := by simpa [runSteps] using hs'
  rw [htake, runState, runState, runSteps_append, hs]
  simp [runSteps, hstep]

lemma runSteps_take_or_loop {a : α}
    (hloop : step (runState step init as) a = some (runState step init as)) (n : Nat) :
    step (runState step init (as.take n)) (as.getD n a) =
      some (runState step init (as.take (n + 1))) := by
  by_cases hn : n < as.length
  · rw [getD_eq_getElem _ _ hn]
    exact runSteps_take_succ hrun hn
  · rw [getD_eq_default _ _ (by omega), take_of_length_le (by omega),
      take_of_length_le (by omega)]
    exact hloop

/-- Take the steps of `as`, then `a` forever. -/
def Trace.lasso (as : List α) (a : α) (hrun : (runSteps step init as).isSome = true)
    (hloop : step (runState step init as) a = some (runState step init as)) : Trace step init where
  state n := runState step init (as.take n)
  label n := as.getD n a
  start := rfl
  next := runSteps_take_or_loop hrun hloop

lemma Trace.lasso_label {a : α} (hloop : step (runState step init as) a =
    some (runState step init as)) (hn : as.length ≤ n) :
    (lasso as a hrun hloop).label n = a :=
  getD_eq_default _ _ hn

lemma Trace.lasso_forall {a : α} (hloop : step (runState step init as) a =
    some (runState step init as)) (P : σ → α → Prop)
    (h : ∀ n ≤ as.length, P (runState step init (as.take n)) (as.getD n a)) (n : Nat) :
    P ((lasso as a hrun hloop).state n) ((lasso as a hrun hloop).label n) := by
  by_cases hn : n ≤ as.length
  · exact h n hn
  · have hlast := h as.length (Nat.le_refl _)
    rw [take_of_length_le (Nat.le_refl _), getD_eq_default _ _ (Nat.le_refl _)] at hlast
    simp only [lasso]
    rw [take_of_length_le (by omega), getD_eq_default _ _ (by omega)]
    exact hlast

end

end UniDb
