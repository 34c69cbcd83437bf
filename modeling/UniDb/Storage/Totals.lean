import UniDb.Storage.Resolve

/-!
# Sums over the versions of some pages

`Pool.total P pages f` adds up `f` over the tuple versions on `pages`. A write changes it by the
difference at the written slot (`total_update`); what a scan returns is such a sum
(`length_scan`).
-/

namespace UniDb

open List

variable {ρ : Type} {P P' : Pool ρ} {f g : Tuple ρ → Int} {pages : List Nat}

def Pool.weight (P : Pool ρ) (f : Tuple ρ → Int) (r : RowId) : Int := (P.tuple? r).elim 0 f

def Pool.pageTotal (P : Pool ρ) (f : Tuple ρ → Int) (p : Nat) : Int :=
  ∑ i ∈ Finset.range (P p).length, P.weight f ⟨p, i⟩

def Pool.total (P : Pool ρ) (pages : List Nat) (f : Tuple ρ → Int) : Int :=
  (pages.map (P.pageTotal f)).sum

namespace Pool

variable {p : Nat} {r : RowId}

lemma weight_of_length_le {i : Nat} (h : (P p).length ≤ i) : P.weight f ⟨p, i⟩ = 0 := by
  simp [weight, tuple?, getElem?_eq_none h]

lemma pageTotal_eq_sum {n : Nat} (h : (P p).length ≤ n) :
    P.pageTotal f p = ∑ i ∈ Finset.range n, P.weight f ⟨p, i⟩ := by
  refine Finset.sum_subset (Finset.range_subset_range.2 h) fun i _ hi => ?_
  exact weight_of_length_le (by simpa using hi)

lemma pageTotal_congr (h : ∀ i, P'.weight g ⟨p, i⟩ = P.weight f ⟨p, i⟩) :
    P'.pageTotal g p = P.pageTotal f p := by
  rw [pageTotal_eq_sum (le_max_left (P' p).length (P p).length),
    pageTotal_eq_sum (le_max_right (P' p).length (P p).length)]
  exact Finset.sum_congr rfl fun i _ => h i

lemma total_congr (h : ∀ r, r.pageId ∈ pages → P'.weight g r = P.weight f r) :
    P'.total pages g = P.total pages f := by
  unfold total
  congr 1
  exact map_congr_left fun p hp => pageTotal_congr fun i => h ⟨p, i⟩ hp

lemma pageTotal_update (h : ∀ s, s ≠ r → P'.weight f s = P.weight f s) :
    P'.pageTotal f r.pageId = P.pageTotal f r.pageId + (P'.weight f r - P.weight f r) := by
  have hn : (P' r.pageId).length ≤ max (P' r.pageId).length (P r.pageId).length + r.slot + 1 := by
    omega
  have hm : (P r.pageId).length ≤ max (P' r.pageId).length (P r.pageId).length + r.slot + 1 := by
    omega
  rw [pageTotal_eq_sum hn, pageTotal_eq_sum hm, ← sub_eq_iff_eq_add', ← Finset.sum_sub_distrib]
  refine Finset.sum_eq_single_of_mem r.slot (Finset.mem_range.2 (by omega)) fun i _ hi => ?_
  rw [h ⟨r.pageId, i⟩ fun he => hi (congrArg RowId.slot he), sub_self]

/-- **A write to one slot of the pages changes the total by the difference there.** -/
theorem total_update (hnodup : pages.Nodup) (hr : r.pageId ∈ pages)
    (h : ∀ s, s ≠ r → P'.tuple? s = P.tuple? s) :
    P'.total pages f = P.total pages f + (P'.weight f r - P.weight f r) := by
  have hw : ∀ s, s ≠ r → P'.weight f s = P.weight f s := fun s hs => by rw [weight, weight, h s hs]
  have hother : ∀ p, p ≠ r.pageId → P'.pageTotal f p = P.pageTotal f p := fun p hp =>
    pageTotal_congr fun i => hw ⟨p, i⟩ fun he => hp (congrArg RowId.pageId he)
  unfold total
  induction pages with
  | nil => cases hr
  | cons p pages ih =>
    rw [map_cons, map_cons, sum_cons, sum_cons]
    obtain ⟨hp, hnodup⟩ := nodup_cons.1 hnodup
    by_cases he : p = r.pageId
    · subst he
      have hrest : pages.map (P'.pageTotal f) = pages.map (P.pageTotal f) :=
        map_congr_left fun q hq => hother q fun hqr => hp (hqr ▸ hq)
      rw [hrest, pageTotal_update hw]
      omega
    · have hmem := (mem_cons.1 hr).resolve_left (Ne.symm he)
      rw [hother p he, ih hnodup hmem]
      omega

lemma total_append_empty {page : Nat} (h : P page = []) :
    P.total (pages ++ [page]) f = P.total pages f := by
  simp [total, pageTotal, h]

lemma total_add : P.total pages (fun t => f t + g t) = P.total pages f + P.total pages g := by
  have hpage : ∀ p, P.pageTotal (fun t => f t + g t) p = P.pageTotal f p + P.pageTotal g p := by
    intro p
    unfold pageTotal
    rw [← Finset.sum_add_distrib]
    refine Finset.sum_congr rfl fun i _ => ?_
    unfold weight
    cases P.tuple? ⟨p, i⟩ <;> simp
  unfold total
  induction pages with
  | nil => rfl
  | cons p pages ih =>
    rw [map_cons, map_cons, map_cons, sum_cons, sum_cons, sum_cons, hpage]
    omega

lemma total_zero : P.total pages (fun _ => 0) = 0 := by
  have hw : ∀ r, P.weight (fun _ => 0) r = 0 := fun r => by
    unfold weight
    cases P.tuple? r <;> rfl
  have hpage : P.pageTotal (fun _ => 0) = fun _ => 0 := funext fun p => by simp [pageTotal, hw]
  simp [total, hpage]

lemma weight_congr (h : ∀ t, P.tuple? r = some t → g t = f t) : P.weight g r = P.weight f r := by
  unfold weight
  cases ht : P.tuple? r with
  | none => rfl
  | some t => exact h t ht

lemma length_scan (S : Snapshot) (x : Nat) : ((P.scan pages S x).length : Int) =
      P.total pages fun t => if t.visible S x then 1 else 0 := by
  have hpage : ∀ p, ((P.scanPage S x p).length : Int) =
      P.pageTotal (fun t => if t.visible S x then 1 else 0) p := by
    intro p
    unfold scanPage pageTotal weight
    induction (P p).length with
    | zero => rfl
    | succ n ih =>
      rw [range_succ, filterMap_append, length_append, Nat.cast_add, ih,
        Finset.sum_range_succ]
      cases ht : P.tuple? ⟨p, n⟩ with
      | none => simp [ht]
      | some t => by_cases hv : t.visible S x <;> simp [ht, hv]
  unfold scan total
  induction pages with
  | nil => rfl
  | cons p pages ih =>
    rw [flatMap_cons, length_append, Nat.cast_add, ih, hpage, map_cons, sum_cons]

end Pool

end UniDb
