import Mathlib

/-!
# Binary search

`slice::binary_search_by` of the Rust standard library, as the loop it is. On a slice that the
comparison does not order, the answer is whatever the loop ends at. What holds there all the same
(`binarySearchBy_error`): if the slice is ordered by something coarser than the comparison, the
position for a new element is right for the coarser order.
-/

namespace UniDb

open List Option

variable {α : Type}

/-- The loop: `size` elements from `base` on are left. -/
def binarySearchLoop (f : α → Ordering) (l : List α) (base size : Nat) : Nat :=
  if 1 < size then
    if (l[base + size / 2]?).map f = some .gt then binarySearchLoop f l base (size - size / 2)
    else binarySearchLoop f l (base + size / 2) (size - size / 2)
  else base
termination_by size
decreasing_by all_goals omega

/-- `binary_search_by`: the position of an equal element, or the one to insert at. -/
def binarySearchBy (f : α → Ordering) (l : List α) : Except Nat Nat :=
  match (l[binarySearchLoop f l 0 l.length]?).map f with
  | some .eq => .ok (binarySearchLoop f l 0 l.length)
  | some .lt => .error (binarySearchLoop f l 0 l.length + 1)
  | some .gt => .error (binarySearchLoop f l 0 l.length)
  | none => .error 0

variable {f : α → Ordering} {l : List α}

lemma binarySearchBy_ok {i : Nat} (h : binarySearchBy f l = .ok i) : ∃ a ∈ l, f a = .eq := by
  unfold binarySearchBy at h
  split at h
  · next heq =>
    obtain ⟨a, ha, hfa⟩ := map_eq_some_iff.1 heq
    exact ⟨a, mem_of_getElem? ha, hfa⟩
  all_goals cases h

/-- Where the loop ends: before it nothing is greater, after what it has left nothing is less. -/
lemma binarySearchLoop_spec {base size : Nat} (hsize : 0 < size) (hlen : base + size ≤ l.length)
    (hlo : base = 0 ∨ ∃ a, l[base]? = some a ∧ f a ≠ .gt) (hhi : base + size = l.length ∨
      ∃ (j : Nat) (a : α), j ≤ base + size ∧ l[j]? = some a ∧ f a = .gt) :
    ∃ b, binarySearchLoop f l base size = b ∧ b < l.length ∧
      (b = 0 ∨ ∃ a, l[b]? = some a ∧ f a ≠ .gt) ∧
      (b + 1 = l.length ∨ ∃ (j : Nat) (a : α), j ≤ b + 1 ∧ l[j]? = some a ∧ f a = .gt) := by
  induction size using Nat.strongRecOn generalizing base with
  | ind size ih =>
    unfold binarySearchLoop
    by_cases h1 : 1 < size
    · rw [if_pos h1]
      have hmid : base + size / 2 < l.length := by omega
      split
      · next hgt =>
        obtain ⟨a, ha, hfa⟩ := map_eq_some_iff.1 hgt
        refine ih _ (by omega) (by omega) (by omega) hlo (.inr ⟨base + size / 2, a, ?_, ha, hfa⟩)
        omega
      · next hngt =>
        have hat : l[base + size / 2]? = some (l[base + size / 2]) := getElem?_eq_getElem hmid
        refine ih _ (by omega) (by omega) (by omega) (.inr ⟨_, hat, fun hgt => hngt ?_⟩) ?_
        · rw [hat, map_some, hgt]
        · rcases hhi with hend | ⟨j, a, hj, ha, hfa⟩
          · left; omega
          · exact .inr ⟨j, a, by omega, ha, hfa⟩
    · obtain rfl : size = 1 := by omega
      exact ⟨base, rfl, by omega, hlo, hhi⟩

variable {pos : Nat}

/-- **The insert position** is right for every order that the comparison refines. -/
theorem binarySearchBy_error {le ge : α → Prop} (hle : ∀ a, f a ≠ .gt → le a)
    (hge : ∀ a, f a ≠ .lt → ge a) (hsorted : l.Pairwise fun a b => (le b → le a) ∧ (ge a → ge b))
    (h : binarySearchBy f l = .error pos) :
    pos ≤ l.length ∧ (∀ a ∈ l.take pos, le a) ∧ ∀ a ∈ l.drop pos, ge a := by
  rcases Nat.eq_zero_or_pos l.length with hnil | hpos
  · obtain rfl := eq_nil_of_length_eq_zero hnil
    simp only [binarySearchBy, getElem?_nil, map_none, Except.error.injEq] at h
    subst h
    simp
  obtain ⟨b, hb, hlt, hlo, hhi⟩ :=
    binarySearchLoop_spec (f := f) (l := l) hpos (by omega) (.inl rfl) (.inl (by omega))
  have hat : l[b]? = some l[b] := getElem?_eq_getElem hlt
  have hmono := pairwise_iff_getElem.1 hsorted
  simp only [binarySearchBy, hb, hat] at h
  split at h
  · cases h
  · next hfb =>
    obtain rfl : b + 1 = pos := by simpa using h
    have hfb : f l[b] = .lt := by simpa using hfb
    refine ⟨by omega, fun a ha => ?_, fun a ha => ?_⟩
    · obtain ⟨i, hi, rfl⟩ := mem_take_iff_getElem.1 ha
      have hleb : le l[b] := hle _ (by rw [hfb]; simp)
      rcases Nat.lt_or_ge i b with hib | hib
      · exact (hmono i b _ hlt hib).1 hleb
      · obtain rfl : i = b := by omega
        exact hleb
    · obtain ⟨i, hi, rfl⟩ := mem_drop_iff_getElem.1 ha
      rcases hhi with hend | ⟨j, a, hj, ha, hfa⟩
      · omega
      · obtain ⟨hjlt, rfl⟩ := List.getElem?_eq_some_iff.1 ha
        have hgej : ge l[j] := hge _ (by rw [hfa]; simp)
        rcases Nat.lt_or_ge j (b + 1 + i) with hji | hji
        · exact (hmono j (b + 1 + i) hjlt (by omega) hji).2 hgej
        · obtain rfl : j = b + 1 + i := by omega
          exact hgej
  · next hfb =>
    obtain rfl : b = pos := by simpa using h
    have hfb : f l[b] = .gt := by simpa using hfb
    rcases hlo with rfl | ⟨a, ha, hfa⟩
    · refine ⟨by omega, by simp, fun a ha => ?_⟩
      obtain ⟨i, hi, rfl⟩ := mem_drop_iff_getElem.1 ha
      have hge0 : ge l[0] := hge _ (by rw [hfb]; simp)
      rcases Nat.eq_zero_or_pos i with rfl | hi'
      · exact hge0
      · exact (hmono 0 (0 + i) hlt (by omega) (by omega)).2 hge0
    · rw [hat, some.injEq] at ha
      subst ha
      exact absurd hfb hfa
  · next hnone => cases hnone

lemma insertIdx_eq_append {a : α} (h : pos ≤ l.length) :
    l.insertIdx pos a = l.take pos ++ a :: l.drop pos := by
  induction pos generalizing l with
  | zero => simp
  | succ pos ih =>
    cases l with
    | nil => simp at h
    | cons b l => simpa using ih (by simpa using h)

lemma binarySearchBy_error_le_length (h : binarySearchBy f l = .error pos) : pos ≤ l.length := by
  have htrivial : l.Pairwise fun _ _ => (True → True) ∧ (True → True) :=
    pairwise_of_forall fun _ _ => ⟨id, id⟩
  obtain ⟨hle, -⟩ := binarySearchBy_error (fun _ _ => trivial) (fun _ _ => trivial) htrivial h
  exact hle

end UniDb
