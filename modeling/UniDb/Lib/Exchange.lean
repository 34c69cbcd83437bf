import Mathlib

/-!
# Lists that exchange elements

`Exchanged olds news xs ys`: the list `ys` is `xs` with the elements `olds` given away for `news`,
in any order. Exchanges compose if the second gives away nothing that the first brought in
(`Exchanged.trans`), and an exchange for new elements keeps a list free of duplicates.
-/

namespace UniDb

open List

variable {α : Type} {olds news xs ys : List α}

def Exchanged (olds news xs ys : List α) : Prop :=
  ∃ rest, xs.Perm (olds ++ rest) ∧ ys.Perm (news ++ rest)

namespace Exchanged

lemma refl (xs : List α) : Exchanged [] [] xs xs := ⟨xs, .refl _, .refl _⟩

lemma of_added (h : ys.Perm (news ++ xs)) : Exchanged [] news xs ys := ⟨xs, .refl _, h⟩

lemma of_middle (pre olds news post : List α) :
    Exchanged olds news (pre ++ (olds ++ post)) (pre ++ (news ++ post)) :=
  ⟨pre ++ post, perm_append_comm_assoc .., perm_append_comm_assoc ..⟩

section
variable (h : Exchanged olds news xs ys)

include h

lemma context (pre post : List α) :
    Exchanged olds news (pre ++ (xs ++ post)) (pre ++ (ys ++ post)) := by
  obtain ⟨rest, hxs, hys⟩ := h
  have haround : ∀ zs, (pre ++ (zs ++ rest ++ post)).Perm (zs ++ (pre ++ (rest ++ post))) := by
    intro zs
    rw [append_assoc]
    exact perm_append_comm_assoc ..
  exact ⟨pre ++ (rest ++ post), ((hxs.append_right post).append_left pre).trans (haround olds),
    ((hys.append_right post).append_left pre).trans (haround news)⟩

lemma mem_of_mem {x : α} (hx : x ∈ xs) (hold : x ∉ olds) : x ∈ ys := by
  obtain ⟨rest, hxs, hys⟩ := h
  rcases mem_append.1 (hxs.mem_iff.1 hx) with hmem | hmem
  · exact absurd hmem hold
  · exact hys.mem_iff.2 (mem_append_right _ hmem)

/-- **One exchange after the other**, the second one of elements that were there before both. -/
theorem trans [DecidableEq α] {olds' news' zs : List α} (h' : Exchanged olds' news' ys zs)
    (hdisj : ∀ x ∈ news, x ∉ olds') :
    Exchanged (olds ++ olds') (news ++ news') xs zs := by
  obtain ⟨rest, hxs, hys⟩ := h
  obtain ⟨rest', hys', hzs⟩ := h'
  have hcount : ∀ a, news.count a + rest.count a = olds'.count a + rest'.count a := fun a => by
    simpa using (hys.symm.trans hys').count_eq a
  have hzero : ∀ a, news.count a = 0 ∨ olds'.count a = 0 := fun a => by
    by_cases ha : a ∈ news
    · exact .inr (count_eq_zero.2 (hdisj a ha))
    · exact .inl (count_eq_zero.2 ha)
  have hle : ∀ a ∈ olds', olds'.count a ≤ rest.count a := fun a _ => by
    have h1 := hcount a
    have h2 := hzero a
    omega
  have hrest : rest.Perm (olds' ++ rest.diff olds') :=
    (subperm_append_diff_self_of_count_le hle).symm
  have hrest' : rest'.Perm (news ++ rest.diff olds') := by
    refine (perm_append_left_iff olds').1 ?_
    refine (hys'.symm.trans hys).trans ((hrest.append_left news).trans ?_)
    exact perm_append_comm_assoc ..
  refine ⟨rest.diff olds', ?_, ?_⟩
  · rw [append_assoc]
    exact hxs.trans (hrest.append_left olds)
  · rw [append_assoc]
    exact hzs.trans ((hrest'.append_left news').trans (perm_append_comm_assoc ..))

/-- **What the list has after an exchange** for elements that were not there, or were given away. -/
theorem nodup_and_mem (hxs : xs.Nodup) (hnews : news.Nodup)
    (habsent : ∀ x ∈ news, x ∈ xs → x ∈ olds) :
    ys.Nodup ∧ ∀ x, x ∈ ys ↔ x ∈ news ∨ x ∈ xs ∧ x ∉ olds := by
  obtain ⟨rest, hperm, hys⟩ := h
  obtain ⟨-, hrest, hacross⟩ := nodup_append.1 (hperm.nodup hxs)
  have hmem : ∀ x, x ∈ xs ∧ x ∉ olds ↔ x ∈ rest := by
    intro x
    rw [hperm.mem_iff, mem_append]
    constructor
    · rintro ⟨hold | hin, hnot⟩
      · exact absurd hold hnot
      · exact hin
    · exact fun hin => ⟨.inr hin, fun hold => hacross x hold x hin rfl⟩
  constructor
  · refine hys.symm.nodup (nodup_append.2 ⟨hnews, hrest, ?_⟩)
    rintro x hx y hy rfl
    obtain ⟨hin, hnot⟩ := (hmem x).2 hy
    exact hnot (habsent x hx hin)
  · intro x
    rw [hys.mem_iff, mem_append, hmem]

end

end Exchanged

end UniDb
