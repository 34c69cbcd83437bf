import UniDb.Index.Writes

/-!
# What searches of a B+tree return (`btree_index.rs`)

In an ordered tree the entries of the leaf chain are sorted by key, and none that a search looks for
lies before the leaf it starts at. So `search_eq` and `search_range` return what a filter of all
entries returns (`searchEq_eq`, `searchRange_eq`), duplicates of a key over any number of leaves
included.
-/

namespace UniDb

open List NodeEntry

namespace BPlusTree

variable {t : BPlusTree}

/-! ## Scans of one leaf -/

variable {k v : OrderedValue} {l : Leaf} {op : RangeOp}

lemma scanEq_fst (hl : KeySorted l) : (scanEq k l).1 = (l.filter fun e => e.key = k).map rid := by
  induction l with
  | nil => rfl
  | cons e l ih =>
    obtain ⟨he, hl⟩ := pairwise_cons.1 hl
    have hcmp := OrderedValue.cmp_compares e.key k
    unfold scanEq
    cases hc : e.key.cmp k with
    | lt =>
      have hlt : e.key < k := by rwa [hc] at hcmp
      simp [ih hl, ne_of_lt hlt]
    | eq =>
      have heq : e.key = k := by rwa [hc] at hcmp
      simp [ih hl, heq]
    | gt =>
      have hgt : k < e.key := by rwa [hc] at hcmp
      have hnone : ∀ a ∈ e :: l, ¬ a.key = k := by
        intro a ha heq
        rcases mem_cons.1 ha with rfl | ha
        · exact absurd heq (ne_of_gt hgt)
        · exact absurd (heq ▸ he a ha) (not_le_of_gt hgt)
      rw [filter_eq_nil_iff.2 (by simpa using hnone)]
      rfl

lemma scanEq_snd (h : (scanEq k l).2 = true) : ∃ e ∈ l, k < e.key := by
  induction l with
  | nil => cases h
  | cons e l ih =>
    have hcmp := OrderedValue.cmp_compares e.key k
    unfold scanEq at h
    cases hc : e.key.cmp k with
    | gt =>
      have hgt : k < e.key := by rwa [hc] at hcmp
      exact ⟨e, .head _, hgt⟩
    | _ =>
      rw [hc] at h
      obtain ⟨a, ha, hlt⟩ := ih h
      exact ⟨a, .tail _ ha, hlt⟩

lemma not_admits_of_past {k' : OrderedValue} (hop : op = .lt ∨ op = .le)
    (hk : op.admits v k = false) (hkk' : k ≤ k') : op.admits v k' = false := by
  rcases hop with rfl | rfl
  · simp only [RangeOp.admits, decide_eq_false_iff_not, not_lt] at hk ⊢
    exact hk.trans hkk'
  · simp only [RangeOp.admits, decide_eq_false_iff_not, not_le] at hk ⊢
    exact lt_of_lt_of_le hk hkk'

lemma scanRange_fst (hl : KeySorted l) :
    (scanRange op v l).1 = (l.filter fun e => op.admits v e.key).map rid := by
  induction l with
  | nil => rfl
  | cons e l ih =>
    obtain ⟨he, hl⟩ := pairwise_cons.1 hl
    unfold scanRange
    split
    · next hadmits => simp [ih hl, hadmits]
    · next hadmits =>
      have hadmits : op.admits v e.key = false := by simpa using hadmits
      split
      · next hpast =>
        have hnone : ∀ a ∈ e :: l, ¬ op.admits v a.key = true := by
          intro a ha
          rcases mem_cons.1 ha with rfl | ha
          · simp [hadmits]
          · simp [not_admits_of_past hpast.1 hadmits (he a ha)]
        rw [filter_eq_nil_iff.2 hnone]
        rfl
      · simp [ih hl, hadmits]

lemma scanRange_snd (h : (scanRange op v l).2 = true) :
    (op = .lt ∨ op = .le) ∧ ∃ e ∈ l, op.admits v e.key = false := by
  induction l with
  | nil => cases h
  | cons e l ih =>
    unfold scanRange at h
    split at h
    · obtain ⟨hop, a, ha, hadmits⟩ := ih h
      exact ⟨hop, a, .tail _ ha, hadmits⟩
    · next hadmits =>
      split at h
      · next hpast => exact ⟨hpast.1, e, .head _, by simpa using hadmits⟩
      · obtain ⟨hop, a, ha, hadmits⟩ := ih h
        exact ⟨hop, a, .tail _ ha, hadmits⟩

/-! ## Walks along the leaf chain -/

lemma walkEq_eq {ls : List Leaf} (hls : KeySorted ls.flatten) :
    walkEq k ls = (ls.flatten.filter fun e => e.key = k).map rid := by
  induction ls with
  | nil => rfl
  | cons l ls ih =>
    rw [KeySorted, flatten_cons, pairwise_append] at hls
    obtain ⟨hl, hrest, hacross⟩ := hls
    rw [walkEq, scanEq_fst hl, flatten_cons, filter_append, map_append]
    congr 1
    split
    · next hpast =>
      obtain ⟨e, he, hlt⟩ := scanEq_snd hpast
      rw [filter_eq_nil_iff.2, map_nil]
      intro a ha
      simpa using ne_of_gt (lt_of_lt_of_le hlt (hacross e he a ha))
    · exact ih hrest

lemma walkRange_eq {ls : List Leaf} (hls : KeySorted ls.flatten) :
    walkRange op v ls = (ls.flatten.filter fun e => op.admits v e.key).map rid := by
  induction ls with
  | nil => rfl
  | cons l ls ih =>
    rw [KeySorted, flatten_cons, pairwise_append] at hls
    obtain ⟨hl, hrest, hacross⟩ := hls
    rw [walkRange, scanRange_fst hl, flatten_cons, filter_append, map_append]
    congr 1
    split
    · next hpast =>
      obtain ⟨hop, e, he, hadmits⟩ := scanRange_snd hpast
      rw [filter_eq_nil_iff.2, map_nil]
      intro a ha
      simp [not_admits_of_past hop hadmits (hacross e he a ha)]
    · exact ih hrest

/-! ## Searches -/

lemma sorted_entries (ht : t.Ordered) : KeySorted t.entries :=
  Sep.Ordered.sorted_entries ht

lemma entries_split (ht : t.Ordered) (k : OrderedValue) :
    ∃ front, t.entries = front ++ (t.root.itemsFrom (readRoute k)).flatten ∧
      ∀ e ∈ front, e.key < k := by
  have hsorted := Sep.Ordered.sorted_seps ht
  refine ⟨(t.flat.before (readRoute k)).flatten, ?_, fun e he => ?_⟩
  · rw [SepTree.itemsFrom_eq_flat (readRoute_closed k) _ hsorted, entries,
      Sep.items_eq t.flat (readRoute k), flatten_append]
    rfl
  · obtain ⟨sep, hsep, hle⟩ := Sep.Ordered.before ht e he
    exact lt_of_le_of_lt hle (by simpa [readRoute] using hsep)

theorem searchEq_eq (ht : t.Ordered) (k : OrderedValue) :
    t.searchEq k = (t.entries.filter fun e => e.key = k).map rid := by
  obtain ⟨front, hsplit, hfront⟩ := entries_split ht k
  have hsorted := sorted_entries ht
  rw [hsplit] at hsorted
  have hnone : ∀ e ∈ front, ¬ decide (e.key = k) = true := fun e he => by
    simpa using ne_of_lt (hfront e he)
  rw [searchEq, walkEq_eq (pairwise_append.1 hsorted).2.1, hsplit, filter_append,
    filter_eq_nil_iff.2 hnone, nil_append]

theorem searchRange_eq (ht : t.Ordered) (op : RangeOp) (v : OrderedValue) :
    t.searchRange op v = (t.entries.filter fun e => op.admits v e.key).map rid := by
  have hall : ∀ op, walkRange op v t.flat.items =
      (t.entries.filter fun e => RangeOp.admits op v e.key).map rid := fun op =>
    walkRange_eq (sorted_entries ht)
  have hfrom : ∀ op, op = .gt ∨ op = .ge → walkRange op v (t.root.itemsFrom (readRoute v)) =
      (t.entries.filter fun e => RangeOp.admits op v e.key).map rid := by
    intro op hop
    obtain ⟨front, hsplit, hfront⟩ := entries_split ht v
    have hsorted := sorted_entries ht
    rw [hsplit] at hsorted
    have hnone : ∀ e ∈ front, ¬ op.admits v e.key = true := by
      intro e he
      have hlt := hfront e he
      rcases hop with rfl | rfl
      · simpa [RangeOp.admits] using le_of_lt hlt
      · simpa [RangeOp.admits] using hlt
    rw [walkRange_eq (pairwise_append.1 hsorted).2.1, hsplit, filter_append,
      filter_eq_nil_iff.2 hnone, nil_append]
  cases op with
  | lt => exact hall .lt
  | le => exact hall .le
  | gt => exact hfrom .gt (.inl rfl)
  | ge => exact hfrom .ge (.inr rfl)

/-! ## Searches of a set of pairs -/

/-- The pairs of the tree are those of a set, each once. -/
structure Denotes (t : BPlusTree) (A : Set Pair) : Prop where
  nodup : t.pairs.Nodup
  mem : ∀ x, x ∈ t.pairs ↔ x ∈ A

/-- Searches return each pair of the set with a matching key exactly once, in key order. -/
structure SearchesExact (t : BPlusTree) (A : Set Pair) : Prop where
  eq : ∀ k, (t.searchEq k).Nodup ∧ ∀ r, r ∈ t.searchEq k ↔ (k, r) ∈ A
  range : ∀ op v, ∃ xs : List Pair, t.searchRange op v = xs.map Prod.snd ∧ xs.Nodup ∧
    (xs.Pairwise fun x y => x.1 ≤ y.1) ∧ ∀ x, x ∈ xs ↔ x ∈ A ∧ op.admits v x.1 = true

lemma Denotes.searchesExact {A : Set Pair} (h : t.Denotes A) (ht : t.Ordered) :
    t.SearchesExact A := by
  constructor
  · intro k
    have hrids : t.searchEq k = (t.pairs.filter fun x => x.1 = k).map Prod.snd := by
      rw [searchEq_eq ht, pairs, filter_map, map_map]
      rfl
    rw [hrids]
    constructor
    · refine (h.nodup.filter _).map_on fun x hx y hy hxy => ?_
      simp only [mem_filter, decide_eq_true_eq] at hx hy
      exact Prod.ext (hx.2.trans hy.2.symm) hxy
    · intro r
      simp only [mem_map, mem_filter, decide_eq_true_eq]
      constructor
      · rintro ⟨⟨k', r'⟩, ⟨hmem, rfl⟩, rfl⟩
        exact (h.mem _).1 hmem
      · exact fun hmem => ⟨(k, r), ⟨(h.mem _).2 hmem, rfl⟩, rfl⟩
  · intro op v
    refine ⟨t.pairs.filter fun x => op.admits v x.1, ?_, h.nodup.filter _, ?_, fun x => ?_⟩
    · rw [searchRange_eq ht, pairs, filter_map, map_map]
      rfl
    · exact (keySorted_iff_pairs.1 (sorted_entries ht)).sublist filter_sublist
    · rw [mem_filter, h.mem]

end BPlusTree

end UniDb
