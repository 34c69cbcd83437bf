import Mathlib

/-!
# Computations that log

`Logged ε ω σ α` runs over a state `σ`, may fail with an `ε`, and logs `ω`s on the way; a failure
keeps the state and what was logged before it. `LogAll P m` says that `m` logs only what satisfies
`P`; the rules below derive it from the parts of `m`.
-/

namespace UniDb

def Logged (ε ω σ α : Type) : Type := σ → List ω × σ × Except ε α

namespace Logged

variable {ε ω σ α β : Type}

protected def bind (m : Logged ε ω σ α) (f : α → Logged ε ω σ β) : Logged ε ω σ β := fun s =>
  match m s with
  | (log, s', .ok a) => (log ++ (f a s').1, (f a s').2)
  | (log, s', .error e) => (log, s', .error e)

instance : Monad (Logged ε ω σ) where
  pure a := fun s => ([], s, .ok a)
  bind := Logged.bind

def lift (f : σ → σ × Except ε α) : Logged ε ω σ α := fun s => ([], f s)

def ofExcept (x : Except ε α) : Logged ε ω σ α := fun s => ([], s, x)

def emit (w : ω) : Logged ε ω σ Unit := fun s => ([w], s, .ok ())

/-- `m`, with a failure that `accept` accepts turned into a normal return. -/
def absorb (accept : ε → Bool) (m : Logged ε ω σ Unit) : Logged ε ω σ Unit := fun s =>
  match m s with
  | (log, s', .error e) => (log, s', if accept e then .ok () else .error e)
  | r => r

/-- Everything `m` logs, from any state, satisfies `P`. -/
def LogAll (P : ω → Prop) (m : Logged ε ω σ α) : Prop := ∀ s, ∀ w ∈ (m s).1, P w

variable {P : ω → Prop}

lemma logAll_pure (a : α) : LogAll P (pure a : Logged ε ω σ α) := by
  intro s w hw
  cases hw

lemma logAll_lift (f : σ → σ × Except ε α) : LogAll P (lift f : Logged ε ω σ α) := by
  intro s w hw
  cases hw

lemma logAll_emit {w : ω} (h : P w) : LogAll P (emit w : Logged ε ω σ Unit) := by
  intro s v hv
  rw [List.mem_singleton.1 hv]
  exact h

variable {f : α → Logged ε ω σ β}

lemma logAll_bind {m : Logged ε ω σ α} (hm : LogAll P m) (hf : ∀ a, LogAll P (f a)) :
    LogAll P (m >>= f) := by
  intro s w hw
  change w ∈ (Logged.bind m f s).1 at hw
  unfold Logged.bind at hw
  split at hw
  · rename_i log s' a heq
    rcases List.mem_append.1 hw with hw | hw
    · exact hm s w (by rw [heq]; exact hw)
    · exact hf a s' w hw
  · rename_i log s' e heq
    exact hm s w (by rw [heq]; exact hw)

lemma logAll_ofExcept_bind {x : Except ε α} (hf : ∀ a, x = .ok a → LogAll P (f a)) :
    LogAll P (ofExcept x >>= f) := by
  intro s w hw
  cases x with
  | error e => cases hw
  | ok a => exact hf a rfl s w hw

lemma logAll_absorb {accept : ε → Bool} {m : Logged ε ω σ Unit} (hm : LogAll P m) :
    LogAll P (absorb accept m) := by
  intro s w hw
  refine hm s w ?_
  unfold absorb at hw
  split at hw
  · rename_i log s' e heq
    rw [heq]
    exact hw
  · exact hw

lemma logAll_forM {l : List α} {f : α → Logged ε ω σ PUnit} (h : ∀ a ∈ l, LogAll P (f a)) :
    LogAll P (l.forM f) := by
  induction l with
  | nil => exact logAll_pure _
  | cons a l ih =>
    exact logAll_bind (h a List.mem_cons_self) fun _ =>
      ih fun b hb => h b (List.mem_cons_of_mem _ hb)

end Logged

end UniDb
