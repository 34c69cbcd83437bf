import Mathlib

/-!
# Counting the elements with a key

Elements are told apart by a key. `multiplicity` counts the elements with a key; the list operations
of set operators are characterised by what they do to it.

* `multiplicity_filterSeen`: a filter that keeps the first element of each key.
* `multiplicity_removeAll_fst`, `multiplicity_removeAll_snd`: removing one element per element of
  another list splits the list in two, the smaller of both counts and the rest.
-/

namespace UniDb

open List

variable {α κ : Type} [DecidableEq κ] (key : α → κ)

def multiplicity (k : κ) (l : List α) : Nat := l.countP fun a => key a = k

variable {key}

@[simp]
lemma multiplicity_nil (k : κ) : multiplicity key k [] = 0 := rfl

lemma multiplicity_cons (k : κ) (a : α) (l : List α) :
    multiplicity key k (a :: l) = multiplicity key k l + if key a = k then 1 else 0 := by
  simp only [multiplicity, countP_cons, decide_eq_true_eq]

lemma multiplicity_append (k : κ) (l m : List α) :
    multiplicity key k (l ++ m) = multiplicity key k l + multiplicity key k m :=
  countP_append

variable {k : κ} {l : List α}

lemma multiplicity_pos : 0 < multiplicity key k l ↔ k ∈ l.map key := by
  simp [multiplicity]

lemma multiplicity_perm (key : α → κ) (k : κ) {m : List α} (h : l.Perm m) :
    multiplicity key k l = multiplicity key k m := h.countP_eq _

variable (key)

/-! ## The first element of each key -/

/-- The elements whose key passes the test and was not seen before. -/
def filterSeen (p : κ → Bool) : List κ → List α → List α
  | _, [] => []
  | seen, a :: l =>
    if p (key a) && !decide (key a ∈ seen) then a :: filterSeen p (key a :: seen) l
    else filterSeen p seen l

variable {key}

lemma filterSeen_sublist (p : κ → Bool) (seen : List κ) (l : List α) :
    (filterSeen key p seen l).Sublist l := by
  induction l generalizing seen with
  | nil => exact .slnil
  | cons a l ih =>
    rw [filterSeen]
    split
    · exact (ih _).cons_cons a
    · exact (ih _).cons a

theorem multiplicity_filterSeen (p : κ → Bool) (seen : List κ) (l : List α) (k : κ) :
    multiplicity key k (filterSeen key p seen l) =
      if p k = true ∧ k ∉ seen ∧ 0 < multiplicity key k l then 1 else 0 := by
  induction l generalizing seen with
  | nil => simp [filterSeen]
  | cons a l ih =>
    rw [filterSeen, multiplicity_cons]
    by_cases hkeep : (p (key a) && !decide (key a ∈ seen)) = true
    · rw [if_pos hkeep, multiplicity_cons, ih]
      simp only [Bool.and_eq_true, Bool.not_eq_true', decide_eq_false_iff_not] at hkeep
      by_cases hk : key a = k
      · subst hk
        simp [hkeep]
      · have hk' : k ≠ key a := fun h => hk h.symm
        simp [hk, hk']
    · rw [if_neg hkeep, ih]
      simp only [Bool.and_eq_true, Bool.not_eq_true', decide_eq_false_iff_not, not_and, not_not]
        at hkeep
      by_cases hk : key a = k
      · subst hk
        have hnone : ¬(p (key a) = true ∧ key a ∉ seen) := fun h => h.2 (hkeep h.1)
        rw [if_neg fun h => hnone ⟨h.1, h.2.1⟩, if_neg fun h => hnone ⟨h.1, h.2.1⟩]
      · simp [hk]

/-! ## Removing elements one by one -/

variable (key)

/-- The first element with the key, and the list without it. -/
def removeFirst (k : κ) : List α → Option (α × List α)
  | [] => none
  | a :: l => if key a = k then some (a, l) else (removeFirst k l).map fun (b, rest) =>
      (b, a :: rest)

/-- One element is removed for each element of `keys` that has a partner: the removed ones, and the
rest. -/
def removeAll : List κ → List α → List α × List α
  | [], l => ([], l)
  | k :: keys, l =>
    match removeFirst key k l with
    | some (a, rest) => (a :: (removeAll keys rest).1, (removeAll keys rest).2)
    | none => removeAll keys l

variable {key}

lemma removeFirst_eq_some {rest : List α} {a : α} (h : removeFirst key k l = some (a, rest)) :
    key a = k ∧ l.Perm (a :: rest) := by
  induction l generalizing rest with
  | nil => cases h
  | cons b l ih =>
    rw [removeFirst] at h
    split at h
    · next hk =>
      cases h
      exact ⟨hk, .refl _⟩
    · obtain ⟨⟨a', rest'⟩, hrec, heq⟩ := Option.map_eq_some_iff.1 h
      cases heq
      obtain ⟨hk, hperm⟩ := ih hrec
      exact ⟨hk, (hperm.cons b).trans (.swap _ _ _)⟩

lemma removeFirst_eq_none (h : removeFirst key k l = none) : multiplicity key k l = 0 := by
  induction l with
  | nil => rfl
  | cons b l ih =>
    rw [removeFirst] at h
    split at h
    · cases h
    · next hk => rw [multiplicity_cons, ih (Option.map_eq_none_iff.1 h), if_neg hk]

lemma removeAll_perm (key : α → κ) (keys : List κ) (l : List α) :
    ((removeAll key keys l).1 ++ (removeAll key keys l).2).Perm l := by
  induction keys generalizing l with
  | nil => exact .refl _
  | cons k keys ih =>
    rw [removeAll]
    split
    · next a rest h => exact ((ih rest).cons a).trans (removeFirst_eq_some h).2.symm
    · exact ih l

theorem multiplicity_removeAll_snd (keys : List κ) (l : List α) (k : κ) :
    multiplicity key k (removeAll key keys l).2 = multiplicity key k l - keys.count k := by
  induction keys generalizing l with
  | nil => rfl
  | cons j keys ih =>
    rw [removeAll, count_cons]
    cases h : removeFirst key j l with
    | some e =>
      obtain ⟨a, rest⟩ := e
      obtain ⟨hkey, hperm⟩ := removeFirst_eq_some h
      have hcount := multiplicity_perm key k hperm
      rw [multiplicity_cons, hkey] at hcount
      rw [ih, hcount]
      simp only [beq_iff_eq]
      split <;> omega
    | none =>
      rw [ih]
      by_cases hjk : j = k
      · subst hjk
        rw [removeFirst_eq_none h]
        omega
      · simp [hjk]

theorem multiplicity_removeAll_fst (keys : List κ) (l : List α) (k : κ) :
    multiplicity key k (removeAll key keys l).1 = min (multiplicity key k l) (keys.count k) := by
  have hsplit := multiplicity_perm key k (removeAll_perm key keys l)
  rw [multiplicity_append, multiplicity_removeAll_snd] at hsplit
  omega

lemma count_map_key (k : κ) (l : List α) : (l.map key).count k = multiplicity key k l := by
  rw [count, countP_map]
  refine countP_congr fun a _ => ?_
  simp

end UniDb
