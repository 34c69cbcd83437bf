import Mathlib

/-!
# Computations that may fail

The inversion rules of `Except`'s operations, and list traversals: `filterE` keeps the elements a
fallible test accepts and stops at the first failure. The lemmas say what is known about the
elements a successful traversal returns.
-/

namespace UniDb

open List

variable {ε α β : Type}

variable {x : Except ε α} {f : α → Except ε β} {l : List α} {r : List β}

lemma bind_eq_ok {b : β} : (x >>= f) = .ok b ↔ ∃ a, x = .ok a ∧ f a = .ok b := by
  cases x with
  | error e | ok a => simp [bind, Except.bind]

lemma map_eq_ok {f : α → β} {b : β} : x.map f = .ok b ↔ ∃ a, x = .ok a ∧ f a = b := by
  cases x with
  | error e | ok a => simp [Except.map]

section
variable {c : Prop} [Decidable c] {e : ε} {a : α}

lemma ite_error_left_eq_ok : (if c then .error e else x) = .ok a ↔ ¬c ∧ x = .ok a := by
  split <;> simp [*]

lemma ite_error_right_eq_ok : (if c then x else .error e) = .ok a ↔ c ∧ x = .ok a := by
  split <;> simp [*]

end

lemma toOption_eq_some {a : α} : x.toOption = some a ↔ x = .ok a := by
  cases x <;> simp [Except.toOption]

lemma toOption_bind_congr {y : Except ε α} (f : α → Except ε β) (h : x.toOption = y.toOption) :
    (x.bind f).toOption = (y.bind f).toOption := by
  cases x <;> cases y <;> simp_all [Except.toOption, Except.bind]

/-! ## Errors that are not raised -/

def Avoids (e : ε) (x : Except ε α) : Prop := x ≠ .error e

section
variable {e : ε}

lemma avoids_ok (a : α) : Avoids e (.ok a : Except ε α) := by
  intro h
  cases h

lemma avoids_error {e' : ε} (h : e' ≠ e) : Avoids e (.error e' : Except ε α) := by
  rintro ⟨⟩
  exact h rfl

lemma avoids_bind (hx : Avoids e x) (hf : ∀ a, x = .ok a → Avoids e (f a)) :
    Avoids e (x >>= f) := by
  cases x with
  | error e' =>
    intro h
    exact hx (by simpa [bind, Except.bind] using h)
  | ok a => exact hf a rfl

lemma avoids_map {f : α → β} (hx : Avoids e x) : Avoids e (x.map f) := by
  cases x with
  | error e' =>
    intro h
    exact hx (by simpa [Except.map] using h)
  | ok a => exact avoids_ok _

end

/-! ## Traversals -/

def filterE (p : α → Except ε Bool) : List α → Except ε (List α)
  | [] => .ok []
  | a :: l => do
    let keep ← p a
    let rest ← filterE p l
    pure (if keep then a :: rest else rest)

lemma filterE_true (l : List α) : filterE (ε := ε) (fun _ => .ok true) l = .ok l := by
  induction l with
  | nil => rfl
  | cons a l ih => rw [filterE, ih]; rfl

lemma mem_filterE {p : α → Except ε Bool} :
    ∀ {l r : List α}, filterE p l = .ok r → ∀ a ∈ r, a ∈ l ∧ p a = .ok true
  | [], r, h, a, ha => by
    cases h
    cases ha
  | x :: l, r, h, a, ha => by
    obtain ⟨keep, hx, h⟩ := bind_eq_ok.1 h
    obtain ⟨rest, hl, h⟩ := bind_eq_ok.1 h
    have ih : ∀ b ∈ rest, b ∈ l ∧ p b = .ok true := mem_filterE hl
    cases h
    cases keep with
    | false => exact ⟨mem_cons_of_mem _ (ih a ha).1, (ih a ha).2⟩
    | true =>
      rcases mem_cons.1 ha with rfl | ha
      · exact ⟨mem_cons_self, hx⟩
      · exact ⟨mem_cons_of_mem _ (ih a ha).1, (ih a ha).2⟩

lemma seq_eq_ok {x : Except ε Unit} {y : Except ε β} {b : β} :
    (x >>= fun _ => y) = .ok b ↔ x = .ok () ∧ y = .ok b := by
  rw [bind_eq_ok]
  exact ⟨fun ⟨_, hx, hy⟩ => ⟨hx, hy⟩, fun ⟨hx, hy⟩ => ⟨(), hx, hy⟩⟩

lemma forM_eq_ok {f : α → Except ε Unit} : forM l f = .ok () ↔ ∀ a ∈ l, f a = .ok () := by
  induction l with
  | nil => exact iff_of_true rfl (fun _ h => nomatch h)
  | cons a l ih => rw [forM_cons, seq_eq_ok, forall_mem_cons, ih]

lemma forall₂_of_mapM :
    ∀ {l : List α} {r : List β}, l.mapM f = .ok r → List.Forall₂ (fun a b => f a = .ok b) l r
  | [], r, h => by
    cases h
    exact .nil
  | a :: l, r, h => by
    rw [mapM_cons] at h
    obtain ⟨b, hb, h⟩ := bind_eq_ok.1 h
    obtain ⟨bs, hbs, h⟩ := bind_eq_ok.1 h
    cases h
    exact .cons hb (forall₂_of_mapM hbs)

lemma exists_of_forall₂ {R : α → β → Prop} (h : List.Forall₂ R l r) :
    ∀ a ∈ l, ∃ b ∈ r, R a b := by
  induction h with
  | nil => nofun
  | cons hab _ ih =>
    rw [forall_mem_cons]
    refine ⟨⟨_, mem_cons_self, hab⟩, fun a ha => ?_⟩
    obtain ⟨b, hb, hR⟩ := ih a ha
    exact ⟨b, mem_cons_of_mem _ hb, hR⟩

lemma exists_of_mem_mapM (h : l.mapM f = .ok r) : ∀ b ∈ r, ∃ a ∈ l, f a = .ok b :=
  exists_of_forall₂ (R := fun b a => f a = .ok b) (forall₂_of_mapM h).flip

def filterMapE (f : α → Except ε (Option β)) : List α → Except ε (List β)
  | [] => .ok []
  | a :: l => do
    let b ← f a
    let rest ← filterMapE f l
    pure (b.toList ++ rest)

/-- What a fallible selection selects, nothing where it fails. -/
def okPart (x : Except ε (Option β)) : Option β :=
  match x with
  | .ok b => b
  | .error _ => none

/-- A fallible selection succeeds when it succeeds on every element, and then selects what the
successful parts select. -/
lemma filterMapE_eq_ok {f : α → Except ε (Option β)} :
    ∀ {l : List α} {r : List β}, filterMapE f l = .ok r ↔
      (∀ a ∈ l, ∃ b, f a = .ok b) ∧ r = l.filterMap fun a => okPart (f a)
  | [], r => by simp [filterMapE, eq_comm]
  | x :: l, r => by
    simp only [filterMapE, bind_eq_ok, forall_mem_cons]
    constructor
    · rintro ⟨b, hx, rest, hl, h⟩
      obtain ⟨hall, rfl⟩ := filterMapE_eq_ok.1 hl
      cases h
      refine ⟨⟨⟨b, hx⟩, hall⟩, ?_⟩
      cases b <;> simp [hx, okPart]
    · rintro ⟨⟨⟨b, hx⟩, hall⟩, rfl⟩
      refine ⟨b, hx, _, filterMapE_eq_ok.2 ⟨hall, rfl⟩, ?_⟩
      cases b <;> simp [hx, okPart, pure, Except.pure]

end UniDb
