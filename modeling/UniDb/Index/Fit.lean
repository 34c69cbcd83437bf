import UniDb.Index.Progress

/-!
# Whether nodes fit their pages (`btree_index.rs`)

Splits divide a node by the number of its entries, the capacity of a page is in bytes. `Roomy` says
for which sizes that is good enough: keys from `km` to `kM` bytes, payloads up to `P` bytes, and
batches of up to `b` entries.

`inserts_fit`: on every tree that such inserts lead to, all nodes fit their pages, and every further
such insert returns with its entries in the tree. Without the condition a batch insert of equal
integer keys panics (`batch_of_equal_keys_panics`): it makes a leaf of more than two pages minus the
space that the last entry of each half would need.
-/

set_option maxRecDepth 100000

namespace UniDb

open List NodeEntry Leaf Nat

/-! ## Sizes -/

/-- Sizes for which halves by number fit a page of capacity `cap`. The quotients are the largest
number of entries that a page can hold at all, and the number of entries that it holds whatever
their sizes. -/
structure Roomy (cap km kM P b : Nat) : Prop where
  insert : ((cap - 7) / (km + 10) + 2) / 2 ≤ (cap - 7) / (kM + 10 + P)
  batch : ((cap - 7) / (km + 10) + b + 1) / 2 ≤ (cap - 7) / (kM + 10) ∨
    2 * cap < 7 + (2 * ((cap - 7) / (kM + 10)) + 1) * (km + 10)
  row : ((cap - 7) / (km + 4) + 1) / 2 ≤ (cap - 7) / (kM + 4)

instance (cap km kM P b : Nat) : Decidable (Roomy cap km kM P b) :=
  decidable_of_iff (_ ∧ _ ∧ _) ⟨fun h => ⟨h.1, h.2.1, h.2.2⟩, fun h => ⟨h.1, h.2, h.3⟩⟩

def KeyFits (km kM : Nat) (k : OrderedValue) : Prop :=
  km ≤ encodedKeyLen k ∧ encodedKeyLen k ≤ kM

structure EntryFits (km kM P : Nat) (e : NodeEntry) : Prop where
  key : KeyFits km kM e.key
  payload : e.payload.length ≤ P

structure LeafFits (cap km kM P : Nat) (l : Leaf) : Prop where
  body : bodyLen l ≤ cap
  entries : ∀ e ∈ l, EntryFits km kM P e

structure RowFits (cap km kM : Nat) (ks : List OrderedValue) : Prop where
  body : 7 + (ks.map fun k => encodedKeyLen k + 4).sum ≤ cap
  keys : ∀ k ∈ ks, KeyFits km kM k

variable {l : Leaf} {e : NodeEntry} {n : Nat}

section
variable {cap km kM P b : Nat}

section
variable {α : Type} {f : α → Nat} {m : Nat} {l : List α}

lemma length_mul_le_sum (h : ∀ a ∈ l, m ≤ f a) : l.length * m ≤ (l.map f).sum := by
  simpa using card_nsmul_le_sum (l.map f) m (by simpa using h)

lemma sum_le_length_mul (h : ∀ a ∈ l, f a ≤ m) : (l.map f).sum ≤ l.length * m := by
  simpa using sum_le_card_nsmul (l.map f) m (by simpa using h)

end

lemma EntryFits.len (h : EntryFits km kM P e) : km + 10 ≤ e.len ∧ e.len ≤ kM + 10 + P := by
  have hkey := h.key
  have hpayload := h.payload
  simp only [KeyFits] at hkey
  simp only [NodeEntry.len, rowidLen]
  omega

lemma LeafFits.length_le (h : LeafFits cap km kM P l) : l.length ≤ (cap - 7) / (km + 10) := by
  have hsum := length_mul_le_sum fun e he => (h.entries e he).len.1
  have hbody := h.body
  rw [bodyLen] at hbody
  exact (le_div_iff_mul_le (by omega)).2 (by omega)

lemma cap_pos (hroom : Roomy cap km kM P b) : kM + 10 + P ≤ cap - 7 := by
  have hhalf : ∀ n : Nat, 1 ≤ (n + 2) / 2 := fun n => by omega
  have hone : 1 ≤ (cap - 7) / (kM + 10 + P) := le_trans (hhalf _) hroom.insert
  simpa using (le_div_iff_mul_le (by omega)).1 hone

lemma leafFits_of_length (hcap : 7 ≤ cap) (hentries : ∀ e ∈ l, EntryFits km kM P e)
    (hlen : l.length ≤ (cap - 7) / (kM + 10 + P)) : LeafFits cap km kM P l := by
  refine ⟨?_, hentries⟩
  have hsum := sum_le_length_mul fun e he => (hentries e he).len.2
  have hmul := (le_div_iff_mul_le (by omega)).1 hlen
  rw [bodyLen]
  omega

variable {ks : List OrderedValue}

lemma RowFits.length_le (h : RowFits cap km kM ks) : ks.length ≤ (cap - 7) / (km + 4) := by
  have hsum : ks.length * (km + 4) ≤ (ks.map fun k => encodedKeyLen k + 4).sum :=
    length_mul_le_sum fun k hk => Nat.add_le_add_right (h.keys k hk).1 4
  have hbody := h.body
  exact (le_div_iff_mul_le (by omega)).2 (by omega)

lemma rowFits_of_length (hcap : 7 ≤ cap) (hkeys : ∀ k ∈ ks, KeyFits km kM k)
    (hlen : ks.length ≤ (cap - 7) / (kM + 4)) : RowFits cap km kM ks := by
  refine ⟨?_, hkeys⟩
  have hsum : (ks.map fun k => encodedKeyLen k + 4).sum ≤ ks.length * (kM + 4) :=
    sum_le_length_mul fun k hk => Nat.add_le_add_right (hkeys k hk).2 4
  have hmul := (le_div_iff_mul_le (by omega)).1 hlen
  omega

end

/-! ## Writes that succeed -/

section
variable {pageSize km kM P b : Nat}

def PlacedFits (pageSize km kM P : Nat) (r : Leaf × Option (OrderedValue × Leaf)) : Prop :=
  LeafFits (bodyCapacity pageSize) km kM P r.1 ∧
    ∀ x ∈ r.2, KeyFits km kM x.1 ∧ LeafFits (bodyCapacity pageSize) km kM P x.2

lemma writeLeaf_ok (h : LeafFits (bodyCapacity pageSize) km kM P l) :
    writeLeaf pageSize l = .ok l :=
  writeLeaf_eq_ok.2 ⟨h.body, rfl⟩

/-- **Halves by number** fit if half of the entries do, whatever their sizes. -/
theorem splitLeaf_ok (hcap : 7 ≤ bodyCapacity pageSize) (hne : l ≠ [])
    (hentries : ∀ e ∈ l, EntryFits km kM P e)
    (hlen : (l.length + 1) / 2 ≤ (bodyCapacity pageSize - 7) / (kM + 10 + P)) :
    ∃ r, splitLeaf pageSize l = .ok r ∧ PlacedFits pageSize km kM P r := by
  have hpos : 0 < l.length := length_pos_iff.2 hne
  have hleft : LeafFits (bodyCapacity pageSize) km kM P (l.take (l.length / 2)) := by
    refine leafFits_of_length hcap (fun e he => hentries e (mem_of_mem_take he)) ?_
    rw [length_take]
    omega
  have hright : LeafFits (bodyCapacity pageSize) km kM P (l.drop (l.length / 2)) := by
    refine leafFits_of_length hcap (fun e he => hentries e (mem_of_mem_drop he)) ?_
    rw [length_drop]
    omega
  obtain ⟨e, right, heq⟩ : ∃ e right, l.drop (l.length / 2) = e :: right := by
    refine exists_cons_of_length_pos ?_
    rw [length_drop]
    omega
  rw [heq] at hright
  refine ⟨(l.take (l.length / 2), some (e.key, e :: right)), ?_, hleft, ?_⟩
  · unfold splitLeaf
    rw [heq]
    simp only [writeLeaf_ok hright, writeLeaf_ok hleft, bind, Except.bind, pure, Except.pure]
  · intro x hx
    cases hx
    exact ⟨(hright.entries e (.head _)).key, hright⟩

lemma writeRow_ok {s : Sep OrderedValue (SepTree OrderedValue Leaf n)}
    (h : RowFits (bodyCapacity pageSize) km kM s.seps) : writeRow pageSize s = .ok (.node s) :=
  BPlusTree.writeRow_eq_ok.2 ⟨h.body, rfl⟩

variable (hroom : Roomy (bodyCapacity pageSize) km kM P b)

include hroom

lemma insertLeaf_ok (he : EntryFits km kM P e) (hl : LeafFits (bodyCapacity pageSize) km kM P l) :
    ∃ r, insertLeaf pageSize e l = .ok r ∧ PlacedFits pageSize km kM P r := by
  have hcap := cap_pos hroom
  unfold insertLeaf
  split
  · exact ⟨_, rfl, hl, by simp⟩
  · next pos _ =>
    have hentries : ∀ a ∈ l.insertIdx pos e, EntryFits km kM P a := by
      intro a ha
      rcases eq_or_mem_of_mem_insertIdx ha with rfl | ha
      · exact he
      · exact hl.entries a ha
    unfold placeLeaf
    split
    · next hfit => exact ⟨_, rfl, ⟨hfit, hentries⟩, by simp⟩
    · next hbig =>
      have hne : l.insertIdx pos e ≠ [] := by
        intro hnil
        rw [hnil] at hbig
        simp only [bodyLen, map_nil, sum_nil] at hbig
        omega
      have hlen := hl.length_le
      have hins : (l.insertIdx pos e).length ≤ l.length + 1 := length_insertIdx_le_succ
      exact splitLeaf_ok (by omega) hne hentries (le_trans (by omega) hroom.insert)

abbrev TreeFits (pageSize km kM P : Nat) {n : Nat} (t : SepTree OrderedValue Leaf n) : Prop :=
  t.Every (LeafFits (bodyCapacity pageSize) km kM P) (RowFits (bodyCapacity pageSize) km kM)

abbrev GrownFits (pageSize km kM P : Nat) {n : Nat} (r : SepTree.Grown OrderedValue Leaf n) :
    Prop :=
  SepTree.EveryGrown (LeafFits (bodyCapacity pageSize) km kM P)
    (RowFits (bodyCapacity pageSize) km kM) (KeyFits km kM) r

/-- **A row takes one more separator**: it still fits, or its halves do. -/
theorem absorbRow_ok (s : Sep OrderedValue (SepTree OrderedValue Leaf n)) (k : OrderedValue)
    (ks : List OrderedValue) (hk : KeyFits km kM k)
    (hks : RowFits (bodyCapacity pageSize) km kM ks) (hperm : s.seps.Perm (k :: ks))
    (hitems : ∀ c ∈ s.items, TreeFits pageSize km kM P c) :
    ∃ r, absorbRow pageSize s = .ok r ∧ GrownFits pageSize km kM P r := by
  have hcap := cap_pos hroom
  have hkeys : ∀ k ∈ s.seps, KeyFits km kM k := by
    intro k' hk'
    rcases mem_cons.1 (hperm.mem_iff.1 hk') with rfl | hmem
    · exact hk
    · exact hks.keys k' hmem
  unfold absorbRow
  split
  · next hfit => exact ⟨_, rfl, ⟨⟨hfit, hkeys⟩, hitems⟩, by simp⟩
  · have hlen : s.rest.length ≤ (bodyCapacity pageSize - 7) / (km + 4) + 1 := by
      have hseps : s.seps.length = s.rest.length := by simp [Sep.seps]
      have hcount := hperm.length_eq
      have hold := hks.length_le
      rw [length_cons] at hcount
      omega
    have hhalf : s.rest.length / 2 ≤ (bodyCapacity pageSize - 7) / (kM + 4) :=
      le_trans (by omega) hroom.row
    have hpos : 0 < s.rest.length := by
      have hcount := hperm.length_eq
      simp only [Sep.seps, length_map, length_cons] at hcount
      omega
    obtain ⟨x, right, heq⟩ : ∃ x right, s.rest.drop (s.rest.length / 2) = x :: right := by
      refine exists_cons_of_length_pos ?_
      rw [length_drop]
      omega
    obtain ⟨up, c⟩ := x
    have hrest : s.rest = s.rest.take (s.rest.length / 2) ++ (up, c) :: right := by
      rw [← heq, take_append_drop]
    have hmem : ∀ x ∈ s.rest, KeyFits km kM x.1 ∧ TreeFits pageSize km kM P x.2 := fun x hx =>
      ⟨hkeys x.1 (mem_map_of_mem hx), hitems x.2 (.tail _ (mem_map_of_mem hx))⟩
    have hmemr : ∀ x ∈ (up, c) :: right, KeyFits km kM x.1 ∧ TreeFits pageSize km kM P x.2 :=
      fun x hx => hmem x (by rw [hrest]; exact mem_append_right _ hx)
    have hleft : RowFits (bodyCapacity pageSize) km kM
        (⟨s.first, s.rest.take (s.rest.length / 2)⟩ :
            Sep OrderedValue (SepTree _ Leaf n)).seps := by
      refine rowFits_of_length (by omega) ?_ ?_
      · intro k' hk'
        obtain ⟨x, hx, rfl⟩ := mem_map.1 hk'
        exact (hmem x (mem_of_mem_take hx)).1
      · simp only [Sep.seps, length_map, length_take]
        omega
    have hright : RowFits (bodyCapacity pageSize) km kM
        (⟨c, right⟩ : Sep OrderedValue (SepTree _ Leaf n)).seps := by
      refine rowFits_of_length (by omega) ?_ ?_
      · intro k' hk'
        obtain ⟨x, hx, rfl⟩ := mem_map.1 hk'
        exact (hmemr x (.tail _ hx)).1
      · have hcount := congrArg List.length heq
        simp only [length_drop, length_cons] at hcount
        simp only [Sep.seps, length_map]
        omega
    refine ⟨(.node ⟨s.first, s.rest.take (s.rest.length / 2)⟩, some (up, .node ⟨c, right⟩)), ?_,
      ⟨hleft, ?_⟩, ?_⟩
    · unfold splitInternal
      rw [heq]
      simp only [writeRow_ok hright, writeRow_ok hleft, bind, Except.bind, pure, Except.pure]
    · exact forall_mem_cons.2 ⟨hitems _ (.head _),
        forall_mem_map.2 fun x hx => (hmem x (mem_of_mem_take hx)).2⟩
    · intro x hx
      cases hx
      refine ⟨(hmemr _ (.head _)).1, hright, fun d hd => ?_⟩
      rcases mem_cons.1 hd with rfl | hd
      · exact (hmemr _ (.head _)).2
      · obtain ⟨x, hx, rfl⟩ := mem_map.1 hd
        exact (hmemr x (.tail _ hx)).2

end

namespace BPlusTree

variable {pageSize km kM P b : Nat} {t t' : BPlusTree}

/-! ## Trees that only grew -/

/-- A leaf right of a separator starts with it. -/
structure TightAt (lo : WithBot OrderedValue) (hi : WithTop OrderedValue) (l : Leaf) : Prop where
  within : Sep.Within key lo hi l
  head : ∀ k : OrderedValue, lo = k → headKey l = some k

/-- A tree from which nothing was removed, with all nodes in bounds. -/
structure Grown (pageSize km kM P : Nat) (t : BPlusTree) : Prop where
  tight : t.flat.Chain TightAt
  fits : TreeFits pageSize km kM P t.root

lemma Grown.ordered (h : Grown pageSize km kM P t) : t.Ordered :=
  Sep.ChainFrom.imp (fun _ _ _ hl => hl.within) h.tight

variable {x : Pair} {done new run combined batch sorted : List Pair} {lo : WithBot OrderedValue}
  {hi : WithTop OrderedValue} {r : Except DbError BPlusTree} {fuel fuel' : Nat}

lemma tight_takes {c : Leaf} (htakes : Takes x done new l c) (hl : TightAt lo hi l)
    (hlo : lo ≤ x.1) (hhi : (x.1 : WithTop OrderedValue) ≤ hi) : TightAt lo hi c := by
  have hwithin := htakes.within hl.within hlo hhi
  refine ⟨hwithin, fun k hk => ?_⟩
  obtain ⟨e, he, rfl⟩ := exists_of_headKey (hl.head k hk)
  obtain ⟨a, ha, heq⟩ := htakes.keys_kept he
  obtain ⟨h, hh⟩ := exists_headKey ha
  obtain ⟨e', he', rfl⟩ := exists_of_headKey hh
  have hge : e.key ≤ e'.key := WithBot.coe_le_coe.1 (hk ▸ hwithin.ge e' he')
  rw [hh, le_antisymm (heq ▸ headKey_le htakes.sorted hh ha) hge]

lemma tight_divided {c : Leaf} {r : Leaf × Option (OrderedValue × Leaf)} (h : TightAt lo hi c)
    (hd : Divided c r) : Sep.Fits TightAt lo hi r.1 r.2 := by
  have hfits := within_divided h.within hd
  rcases hd with rfl | ⟨m, e, hm, he, rfl⟩
  · exact h
  · refine ⟨⟨hfits.1, fun k hk => ?_⟩, hfits.2, fun k hk => ?_⟩
    · rw [headKey_take hm, h.head k hk]
    · rw [headKey_drop he, WithBot.coe_inj.1 hk]

lemma Consumed.tight (h : Consumed x done new t t') (ht : t.flat.Chain TightAt) :
    t'.flat.Chain TightAt := by
  obtain ⟨p, hp, c, r, htakes, hd, hflat⟩ := h.putAt
  rw [hflat]
  refine Sep.Chain.replace ht fun lo hi hlo hhi hl => ?_
  exact tight_divided (tight_takes htakes hl (hp.below hlo) (hp.above hhi)) hd

lemma not_gap (ht : t.flat.Chain TightAt) (q : OrderedValue) : ¬ t.Gap q := by
  have hord : t.Ordered := Sep.ChainFrom.imp (fun _ _ _ hl => hl.within) ht
  rintro ⟨hlast, h, hhead, hlt⟩
  rw [insertionLeaf_eq hord] at hhead
  obtain ⟨pre, post, hs, hpre, hpost, -⟩ := t.flat.exists_place (insertRoute q)
  obtain ⟨lo, hchain, rfl | ⟨y, hy, rfl⟩⟩ := Sep.Chain.of_consAll hs ht
  · -- The insert descent ends at the first leaf, and so does the read descent.
    have hstop : ∀ y ∈ post.head?, readRoute q y.1 = false := by
      intro y hy
      have hb := hpost y hy
      simp only [insertRoute, readRoute, decide_eq_false_iff_not, not_le, not_lt] at hb ⊢
      exact le_of_lt hb
    have hfind : t.findLeaf q = t.flat.pick (insertRoute q) := by
      rw [findLeaf_eq hord, Sep.pick_consAll hs (by simp), Sep.pick_of_stop hstop]
    rw [hfind] at hlast
    obtain ⟨e, he, rfl⟩ := exists_of_lastKey hlast
    exact absurd hlt (not_lt_of_ge (headKey_le (keySorted_pick hord _) hhead he))
  · obtain ⟨hi, htight⟩ : ∃ hi, TightAt y.2 hi (t.flat.pick (insertRoute q)) := by
      cases post with
      | nil => exact ⟨_, hchain⟩
      | cons z post => exact ⟨_, hchain.1⟩
    have hh := htight.head y.2 rfl
    rw [hhead] at hh
    have hyq : y.2 ≤ q := by simpa [insertRoute] using hpre y hy
    rw [Option.some.injEq] at hh
    exact absurd hlt (not_lt_of_ge (hh ▸ hyq))

/-! ## Leaves that take up a batch -/

lemma placedFits_of_plain {r : Leaf × Option (OrderedValue × Leaf)}
    (h : PlacedFits pageSize km kM 0 r) : PlacedFits pageSize km kM P r := by
  have hentry : ∀ e, EntryFits km kM 0 e → EntryFits km kM P e := fun e he =>
    ⟨he.key, he.payload.trans (zero_le P)⟩
  refine ⟨⟨h.1.body, fun e he => hentry e (h.1.entries e he)⟩, fun x hx => ?_⟩
  obtain ⟨hkey, hleaf⟩ := h.2 x hx
  exact ⟨hkey, hleaf.body, fun e he => hentry e (hleaf.entries e he)⟩

lemma length_mergeBatch_le (old new : List Pair) :
    (mergeBatch old new).length ≤ old.length + new.length := by
  obtain ⟨added, hsub, hperm, -⟩ := mergeBatch_spec old new
  have hlen := hperm.length_eq
  have hle := hsub.length_le
  rw [length_append] at hlen
  omega

lemma bodyLen_eq (l : Leaf) : Leaf.bodyLen l =
      7 + ((Leaf.pairs l).map pairLen).sum + ((l.map payload).map List.length).sum := by
  induction l with
  | nil => rfl
  | cons e l ih =>
    simp only [Leaf.bodyLen, Leaf.pairs, map_cons, sum_cons] at ih ⊢
    simp only [len, pairLen, NodeEntry.pair] at ih ⊢
    omega

lemma payloads_attach (ps : List (List UInt8)) (xs : List Pair) (h : ps.length ≤ xs.length) :
    (((attach ps xs).map payload).map List.length).sum = (ps.map List.length).sum := by
  induction xs generalizing ps with
  | nil =>
    obtain rfl := eq_nil_of_length_eq_zero (le_zero.1 h)
    rfl
  | cons x xs ih =>
    cases ps with
    | nil =>
      have hrest := ih [] (zero_le _)
      simpa [Leaf.attach] using hrest
    | cons p ps =>
      have hrest := ih ps (by simpa using h)
      simpa [Leaf.attach] using hrest

lemma attach_fits {cap : Nat} {xs added : List Pair} (hl : LeafFits cap km kM P l)
    (hperm : xs.Perm (added ++ Leaf.pairs l)) (hadded : ∀ y ∈ added, KeyFits km kM y.1)
    (hbody : added = [] ∨ Leaf.bodyLen l + (added.map pairLen).sum ≤ cap) :
    LeafFits cap km kM P (Leaf.attach (l.map payload) xs) := by
  have hlen : (l.map payload).length ≤ xs.length := by
    have h := hperm.length_eq
    simp only [length_append, Leaf.pairs, length_map] at h ⊢
    omega
  constructor
  · have hsum := (hperm.map pairLen).sum_nat
    have hold := hl.body
    rw [map_append, List.sum_append] at hsum
    rw [bodyLen_eq, pairs_attach, payloads_attach _ _ hlen, hsum]
    rw [bodyLen_eq] at hold hbody
    rcases hbody with rfl | hbody
    · simp only [map_nil, sum_nil]
      omega
    · omega
  · intro e he
    obtain ⟨i, hi, rfl⟩ := mem_mapIdx.1 he
    constructor
    · rcases mem_append.1 (hperm.mem_iff.1 (getElem_mem hi)) with hnew | hold
      · exact hadded _ hnew
      · obtain ⟨a, ha, heq⟩ := mem_pairs.1 hold
        exact (congrArg Prod.fst heq : a.key = _) ▸ (hl.entries a ha).key
    · cases hp : (l.map payload)[i]? with
      | none => exact zero_le P
      | some p =>
        obtain ⟨a, ha, rfl⟩ := mem_map.1 (mem_of_getElem? hp)
        exact (hl.entries a ha).payload

/-! ## Passes of a batch insert -/

/-- One pass after the other, until the whole batch is consumed. -/
inductive Passes : BPlusTree → List Pair → BPlusTree → Prop
  | nil (t : BPlusTree) : Passes t [] t
  | cons {t t₁ t₂ : BPlusTree} {x : Pair} {done new rest : List Pair} :
      Consumed x done new t t₁ → Passes t₁ rest t₂ → Passes t (done ++ rest) t₂

lemma Passes.ordered (h : Passes t batch t') (ht : t.Ordered) : t'.Ordered := by
  induction h with
  | nil => exact ht
  | cons hconsumed _ ih => exact ih (hconsumed.ordered ht)

lemma Passes.tight (h : Passes t batch t') (ht : t.flat.Chain TightAt) :
    t'.flat.Chain TightAt := by
  induction h with
  | nil => exact ht
  | cons hconsumed _ ih => exact ih (hconsumed.tight ht)

lemma Passes.mem (h : Passes t batch t') :
    (∀ x ∈ t.pairs, x ∈ t'.pairs) ∧ ∀ x ∈ batch, x ∈ t'.pairs := by
  induction h with
  | nil => exact ⟨fun _ hx => hx, by simp⟩
  | cons hconsumed _ ih =>
    obtain ⟨p, -, hput⟩ := hconsumed.putAt
    obtain ⟨hperm, hdone⟩ := hput.pairs
    exact ⟨fun x hx => ih.1 x (hperm.mem_iff.2 (mem_append_right _ hx)),
      forall_mem_append.2 ⟨fun x hx => ih.1 x (hdone x hx), ih.2⟩⟩

/-- The call left everything in bounds, with the entries `done` and all that was there before. -/
structure Returned (pageSize km kM P : Nat) (done : List Pair) (t t' : BPlusTree) : Prop where
  grown : Grown pageSize km kM P t'
  kept : ∀ x ∈ t.pairs, x ∈ t'.pairs
  mem : ∀ x ∈ done, x ∈ t'.pairs

lemma Passes.returned (h : Passes t done t') (ht : Grown pageSize km kM P t)
    (hfits : TreeFits pageSize km kM P t'.root) : Returned pageSize km kM P done t t' :=
  ⟨⟨h.tight ht.tight, hfits⟩, h.mem.1, h.mem.2⟩

lemma insertAll_one : t.insertAll pageSize [e] = t.insertWithInclude pageSize e := by
  cases h : t.insertWithInclude pageSize e <;> rw [insertAll, h] <;> rfl

/-! ## Calls -/

def Call.Sized (km kM P b : Nat) : Call → Prop
  | .insert x => KeyFits km kM x.1
  | .insertWithInclude e => EntryFits km kM P e
  | .insertMany batch => batch.length ≤ b ∧ ∀ x ∈ batch, KeyFits km kM x.1
  | .insertManyWithInclude batch => ∀ e ∈ batch, EntryFits km kM P e
  | _ => False

def Call.newPairs : Call → List Pair
  | .insert x => [x]
  | .insertWithInclude e => [e.pair]
  | .insertMany batch => batch
  | .insertManyWithInclude batch => batch.map pair
  | _ => []

lemma insertManyLoop_mono (hle : fuel ≤ fuel')
    (h : insertManyLoop pageSize fuel t sorted = some r) :
    insertManyLoop pageSize fuel' t sorted = some r := by
  fun_induction insertManyLoop pageSize fuel t sorted generalizing fuel' with
  | case1 =>
    rw [← h]
    cases fuel' <;> rfl
  | case2 => cases h
  | case3 fuel t x rest e hpass =>
    obtain ⟨fuel', rfl⟩ : ∃ n, fuel' = n + 1 := ⟨fuel' - 1, by omega⟩
    simpa only [insertManyLoop, hpass] using h
  | case4 fuel t x rest t₁ n hpass ih =>
    obtain ⟨fuel', rfl⟩ : ∃ n, fuel' = n + 1 := ⟨fuel' - 1, by omega⟩
    simpa only [insertManyLoop, hpass] using ih (by omega) h

lemma patchManyLoop_mono {sorted : List Patch} (hle : fuel ≤ fuel')
    (h : patchManyLoop pageSize fuel t sorted = some r) :
    patchManyLoop pageSize fuel' t sorted = some r := by
  fun_induction patchManyLoop pageSize fuel t sorted generalizing fuel' with
  | case1 =>
    rw [← h]
    cases fuel' <;> rfl
  | case2 => cases h
  | case3 fuel t x rest e hpass =>
    obtain ⟨fuel', rfl⟩ : ∃ n, fuel' = n + 1 := ⟨fuel' - 1, by omega⟩
    simpa only [patchManyLoop, hpass] using h
  | case4 fuel t x rest t₁ n hpass ih =>
    obtain ⟨fuel', rfl⟩ : ∃ n, fuel' = n + 1 := ⟨fuel' - 1, by omega⟩
    simpa only [patchManyLoop, hpass] using ih (by omega) h

lemma Call.run_mono {c : Call} (hle : fuel ≤ fuel') (h : c.run pageSize fuel t = some r) :
    c.run pageSize fuel' t = some r := by
  cases c with
  | insertMany batch => exact insertManyLoop_mono hle h
  | patchMany patches => exact patchManyLoop_mono hle h
  | _ => exact h

/-! ## Calls that return -/

section
variable (hroom : Roomy (bodyCapacity pageSize) km kM P b)

include hroom

theorem insertAt_ok {key : OrderedValue}
    {op : Leaf → Except DbError (Leaf × Option (OrderedValue × Leaf))}
    (ht : TreeFits pageSize km kM P t.root)
    (hop : ∃ r, op (t.insertionLeaf key) = .ok r ∧ PlacedFits pageSize km kM P r) :
    ∃ t', t.insertAt pageSize key op = .ok t' ∧ TreeFits pageSize km kM P t'.root := by
  have hupdate : ∃ r, t.root.update (insertRoute key) (absorbRow pageSize) op = .ok r ∧
      GrownFits pageSize km kM P r :=
    SepTree.update_every (fun s k ks => absorbRow_ok hroom s k ks) t.root ht hop
  obtain ⟨r, hr, hevery, hnew⟩ := hupdate
  obtain ⟨c, _ | ⟨k, c'⟩⟩ := r
  · exact ⟨⟨t.height, c⟩, by rw [insertAt, hr]; rfl, hevery⟩
  · have hk : KeyFits km kM k := (hnew _ rfl).1
    have hrow : RowFits (bodyCapacity pageSize) km kM
        (⟨c, [(k, c')]⟩ : Sep OrderedValue (SepTree OrderedValue Leaf t.height)).seps := by
      have hcap := cap_pos hroom
      have hlen := hk.2
      refine ⟨?_, by simpa [Sep.seps] using hk⟩
      simp only [Sep.seps, map_cons, map_nil, sum_cons, sum_nil]
      omega
    refine ⟨⟨t.height + 1, .node ⟨c, [(k, c')]⟩⟩, ?_, hrow, ?_⟩
    · rw [insertAt, hr]
      show rootOf pageSize (c, some (k, c')) = _
      rw [rootOf, writeRow_ok hrow]
      rfl
    · exact forall_mem_cons.2 ⟨hevery, forall_mem_singleton.2 (hnew _ rfl).2⟩

lemma insertWithInclude_ok (ht : TreeFits pageSize km kM P t.root) (he : EntryFits km kM P e) :
    ∃ t', t.insertWithInclude pageSize e = .ok t' ∧ TreeFits pageSize km kM P t'.root :=
  insertAt_ok hroom ht (insertLeaf_ok hroom he (SepTree.every_pick _ ht))

lemma insert_ok (ht : TreeFits pageSize km kM P t.root) (hx : KeyFits km kM x.1) :
    ∃ t', t.insert pageSize x = .ok t' ∧ TreeFits pageSize km kM P t'.root :=
  insertWithInclude_ok hroom ht ⟨hx, zero_le P⟩

lemma insertAll_passes {es : List NodeEntry} (hord : t.Ordered)
    (ht : TreeFits pageSize km kM P t.root) (hes : ∀ e ∈ es, EntryFits km kM P e) :
    ∃ t', t.insertAll pageSize es = .ok t' ∧ Passes t (es.map pair) t' ∧
      TreeFits pageSize km kM P t'.root := by
  induction es generalizing t with
  | nil => exact ⟨t, rfl, .nil t, ht⟩
  | cons e es ih =>
    obtain ⟨t₁, h1, hfits⟩ := insertWithInclude_ok hroom ht (hes e (.head _))
    obtain ⟨new, hput, -⟩ := insertWithInclude_spec hord h1
    have hconsumed : Consumed e.pair [e.pair] new t t₁ := .inl hput
    obtain ⟨t₂, h2, hpasses, hfits2⟩ := ih (hconsumed.ordered hord) hfits
      fun a ha => hes a (.tail _ ha)
    exact ⟨t₂, by rw [insertAll, h1]; exact h2, .cons hconsumed hpasses, hfits2⟩

/-- **The halves of a merged leaf fit**, if the batch is not too long or two pages cannot hold an
odd entry too many. -/
theorem half_merged_le (hl : LeafFits (bodyCapacity pageSize) km kM P l) (hrun : run.length ≤ b)
    (hlen : combined.length ≤ l.length + run.length) (hkeys : ∀ x ∈ combined, KeyFits km kM x.1)
    (hbody : bodyLen (combined.map .plain) ≤ 2 * bodyCapacity pageSize) :
    (combined.length + 1) / 2 ≤ (bodyCapacity pageSize - 7) / (kM + 10) := by
  rcases hroom.batch with hshort | hodd
  · have hle := hl.length_le
    exact le_trans (by omega) hshort
  · have hsum : combined.length * (km + 10) ≤ ((combined.map plain).map len).sum := by
      have h := length_mul_le_sum (f := len) (m := km + 10) (l := combined.map .plain)
        fun e he => by
          obtain ⟨x, hx, rfl⟩ := mem_map.1 he
          have hk := (hkeys x hx).1
          simp only [len, plain, rowidLen]
          omega
      rwa [length_map] at h
    rw [bodyLen] at hbody
    have hlt : combined.length * (km + 10) <
        (2 * ((bodyCapacity pageSize - 7) / (kM + 10)) + 1) * (km + 10) := by omega
    have hcount := Nat.lt_of_mul_lt_mul_right hlt
    omega

lemma mergeInto_ok (ht : TreeFits pageSize km kM P t.root) (hx : KeyFits km kM x.1)
    (hrun : run.length ≤ b) (hlen : combined.length ≤ (t.insertionLeaf x.1).length + run.length)
    (hkeys : ∀ y ∈ combined, KeyFits km kM y.1) :
    ∃ t' m, insertBatch.mergeInto pageSize t x.1 combined x n = .ok (t', m) ∧
      TreeFits pageSize km kM P t'.root := by
  have hcap := cap_pos hroom
  have hplain : ∀ e ∈ combined.map plain, EntryFits km kM 0 e := by
    intro e he
    obtain ⟨y, hy, rfl⟩ := mem_map.1 he
    exact ⟨hkeys y hy, le_refl 0⟩
  unfold insertBatch.mergeInto
  split
  · next hfit =>
    obtain ⟨t', hok, hfits⟩ : ∃ t', t.insertAt pageSize x.1
        (fun _ => .ok (combined.map .plain, none)) = .ok t' ∧ TreeFits pageSize km kM P t'.root :=
      insertAt_ok hroom ht ⟨_, rfl, placedFits_of_plain ⟨⟨hfit, hplain⟩, by simp⟩⟩
    exact ⟨t', n, by rw [hok]; rfl, hfits⟩
  · next hbig =>
    split
    · next hbody =>
      have hhalf := half_merged_le hroom (SepTree.every_pick _ ht) hrun hlen hkeys hbody
      have hne : combined.map plain ≠ [] := by
        intro hnil
        rw [hnil] at hbig
        simp only [bodyLen, map_nil, sum_nil] at hbig
        omega
      have hseven : 7 ≤ bodyCapacity pageSize := by omega
      obtain ⟨r, hr, hplaced⟩ := splitLeaf_ok hseven hne hplain (by rw [length_map]; exact hhalf)
      obtain ⟨t', hok, hfits⟩ : ∃ t', t.insertAt pageSize x.1
          (fun _ => splitLeaf pageSize (combined.map .plain)) = .ok t' ∧
          TreeFits pageSize km kM P t'.root :=
        insertAt_ok hroom ht ⟨r, hr, placedFits_of_plain hplaced⟩
      exact ⟨t', n, by rw [hok]; rfl, hfits⟩
    · obtain ⟨t', hok, hfits⟩ := insert_ok hroom ht hx
      exact ⟨t', 1, by rw [hok]; rfl, hfits⟩

lemma insertBatch_ok (ht : TreeFits pageSize km kM P t.root) (hlen : (x :: batch).length ≤ b)
    (hkeys : ∀ y ∈ x :: batch, KeyFits km kM y.1) :
    ∃ t' n, t.insertBatch pageSize (x :: batch) = .ok (t', n) ∧
      TreeFits pageSize km kM P t'.root := by
  dsimp only [insertBatch]
  split
  · next lo hi hlo hhi =>
    split
    · exact ⟨t, 0, rfl, ht⟩
    · have hsub : (runOf lo hi (x :: batch)).Sublist (x :: batch) := takeWhile_sublist _
      refine mergeInto_ok hroom ht (hkeys x (.head _)) (hsub.length_le.trans hlen) ?_ fun y hy => ?_
      · have hmerge := length_mergeBatch_le (Leaf.pairs (t.insertionLeaf x.1))
          (runOf lo hi (x :: batch))
        rwa [Leaf.pairs, length_map] at hmerge
      · rcases mem_mergeBatch hy with hold | hnew
        · obtain ⟨e, he, rfl⟩ := mem_pairs.1 hold
          have hleaf : LeafFits (bodyCapacity pageSize) km kM P (t.insertionLeaf x.1) :=
            SepTree.every_pick _ ht
          exact (hleaf.entries e he).key
        · exact hkeys y (hsub.subset hnew)
  · obtain ⟨t', hok, hfits⟩ := insert_ok hroom ht (hkeys x (.head _))
    exact ⟨t', 1, by rw [hok]; rfl, hfits⟩

section

variable (hord : t.Ordered) (ht : TreeFits pageSize km kM P t.root)
include hord ht

lemma insertManyPass_ok {rest : List Pair} (hlen : (x :: rest).length ≤ b)
    (hkeys : ∀ y ∈ x :: rest, KeyFits km kM y.1) :
    ∃ t' n, t.insertManyPass pageSize (x :: rest) = .ok (t', n) ∧
      TreeFits pageSize km kM P t'.root := by
  have hsingle : ∃ t' n, (do
      let t' ← t.insert pageSize x
      pure (t', 1) : Except DbError (BPlusTree × Nat)) = .ok (t', n) ∧
      TreeFits pageSize km kM P t'.root := by
    obtain ⟨t', hok, hfits⟩ := insert_ok hroom ht (hkeys x (.head _))
    exact ⟨t', 1, by rw [hok]; rfl, hfits⟩
  dsimp only [insertManyPass]
  split
  · next lo hi hlo hhi =>
    have hbatch : 2 ≤ (runOf lo hi (x :: rest)).length →
        ∃ t' n, t.insertBatch pageSize (runOf lo hi (x :: rest)) = .ok (t', n) ∧
          TreeFits pageSize km kM P t'.root := by
      intro htwo
      have hsub : (runOf lo hi (x :: rest)).Sublist (x :: rest) := takeWhile_sublist _
      obtain ⟨-, hrun⟩ := runOf_cons (by omega : 0 < (runOf lo hi (x :: rest)).length)
      rw [hrun] at hsub ⊢
      exact insertBatch_ok hroom ht (hsub.length_le.trans hlen) fun y hy => hkeys y (hsub.subset hy)
    unfold insertManyPass.absorb
    split
    · next hover => exact hbatch hover.1
    · split
      · split
        · next htwo => exact hbatch htwo
        · exact hsingle
      · next xs m habs =>
        have hl : LeafFits (bodyCapacity pageSize) km kM P (t.findLeaf x.1) :=
          SepTree.every_pick _ ht
        have hsorted : KeySorted (t.findLeaf x.1) := by
          rw [findLeaf_eq hord]
          exact keySorted_pick hord _
        obtain ⟨k, added, -, -, hsub, hperm, -, -, hbody⟩ :=
          absorbRun_spec (keySorted_iff_pairs.1 hsorted) habs
        have hadded : ∀ y ∈ added, KeyFits km kM y.1 := fun y hy =>
          hkeys y ((takeWhile_sublist _).subset (mem_of_mem_take (hsub.subset hy)))
        have hfits := attach_fits hl hperm hadded hbody
        refine ⟨_, _, by rw [writeFound, writeLeaf_ok hfits]; rfl, ?_⟩
        exact SepTree.every_set hfits _ ht
  · exact hsingle

/-- **A batch insert returns** if all sizes are in bounds and there is no gap from its first key
on. -/
theorem insertManyLoop_passes (hsorted : sorted.Pairwise fun y z => y.1 ≤ z.1)
    (hlen : sorted.length ≤ b) (hkeys : ∀ y ∈ sorted, KeyFits km kM y.1)
    (hgap : ∀ q, (∃ x ∈ sorted, x.1 ≤ q) → ¬ t.Gap q) (hfuel : sorted.length ≤ fuel) :
    ∃ t', insertManyLoop pageSize fuel t sorted = some (.ok t') ∧ Passes t sorted t' ∧
      TreeFits pageSize km kM P t'.root := by
  fun_induction insertManyLoop pageSize fuel t sorted with
  | case1 fuel t => exact ⟨t, rfl, .nil t, ht⟩
  | case2 => simp at hfuel
  | case3 fuel t x rest e hpass =>
    obtain ⟨t₁, n, hok, -⟩ := insertManyPass_ok hroom hord ht hlen hkeys
    cases hpass.symm.trans hok
  | case4 fuel t x rest t₁ n hpass ih =>
    obtain ⟨_, _, hok, hfits⟩ := insertManyPass_ok hroom hord ht hlen hkeys
    cases hpass.symm.trans hok
    rcases insertManyPass_spec hord hsorted hpass with
      ⟨-, -, hfound, hout⟩ | ⟨hpos, -, new, hconsumed⟩
    · exact absurd ((gap_iff hord _).2 ⟨hfound, hout⟩) (hgap x.1 ⟨x, .head _, le_rfl⟩)
    · have hdrop : ((x :: rest).drop n).Sublist (x :: rest) := drop_sublist ..
      have hfirst : ∀ y ∈ x :: rest, x.1 ≤ y.1 :=
        forall_mem_cons.2 ⟨le_rfl, (pairwise_cons.1 hsorted).1⟩
      have hlater : ∀ q, (∃ y ∈ (x :: rest).drop n, y.1 ≤ q) → ¬ t₁.Gap q := by
        rintro q ⟨y, hy, hyq⟩ hg
        have hxq := (hfirst y (hdrop.subset hy)).trans hyq
        exact hgap q ⟨x, .head _, hxq⟩ (gap_of_consumed hord hconsumed hxq hg)
      have hdroplen : ((x :: rest).drop n).length ≤ fuel := by
        rw [length_drop]
        omega
      obtain ⟨t₂, hloop, hpasses, hfits2⟩ := ih (hconsumed.ordered hord) hfits
        (hsorted.sublist hdrop) (hdrop.length_le.trans hlen)
        (fun y hy => hkeys y (hdrop.subset hy)) hlater hdroplen
      refine ⟨t₂, hloop, ?_, hfits2⟩
      rw [← take_append_drop n (x :: rest)]
      exact .cons hconsumed hpasses

lemma insertMany_passes (hlen : batch.length ≤ b) (hkeys : ∀ y ∈ batch, KeyFits km kM y.1)
    (hgap : ∀ q, (∃ x ∈ batch, x.1 ≤ q) → ¬ t.Gap q) (hfuel : batch.length ≤ fuel) :
    ∃ t' sorted, insertMany pageSize fuel t batch = some (.ok t') ∧ sorted.Perm batch ∧
      Passes t sorted t' ∧ TreeFits pageSize km kM P t'.root := by
  have hperm := perm_insertionSort (fun x y => Pair.cmp x y ≠ .gt) batch
  obtain ⟨t', hok, hpasses⟩ := insertManyLoop_passes hroom hord ht (sorted_batch batch)
    (hperm.length_eq ▸ hlen) (fun y hy => hkeys y (hperm.mem_iff.1 hy))
    (fun q ⟨x, hx, hxq⟩ => hgap q ⟨x, hperm.mem_iff.1 hx, hxq⟩) (hperm.length_eq ▸ hfuel)
  exact ⟨t', _, hok, hperm, hpasses⟩

end

lemma call_returns {c : Call} (ht : Grown pageSize km kM P t) (hc : c.Sized km kM P b)
    (fuel : Nat) : ∃ fuel' t', fuel ≤ fuel' ∧ c.run pageSize fuel' t = some (.ok t') ∧
      Returned pageSize km kM P c.newPairs t t' := by
  have hall : ∀ es : List NodeEntry, (∀ e ∈ es, EntryFits km kM P e) →
      ∃ t', t.insertAll pageSize es = .ok t' ∧
        Returned pageSize km kM P (es.map pair) t t' := fun es hes => by
    obtain ⟨t', hok, hpasses, hfits⟩ := insertAll_passes hroom ht.ordered ht.fits hes
    exact ⟨t', hok, hpasses.returned ht hfits⟩
  cases c with
  | insert x =>
    obtain ⟨t', hok, hr⟩ := hall [.plain x] (by simpa using ⟨hc, zero_le P⟩)
    exact ⟨fuel, t', le_rfl, congrArg some (insertAll_one.symm.trans hok), hr⟩
  | insertWithInclude e =>
    obtain ⟨t', hok, hr⟩ := hall [e] (by simpa [Call.Sized] using hc)
    exact ⟨fuel, t', le_rfl, congrArg some (insertAll_one.symm.trans hok), hr⟩
  | insertMany batch =>
    obtain ⟨t', sorted, hok, hperm, hpasses, hfits⟩ := insertMany_passes hroom ht.ordered ht.fits
      hc.1 hc.2 (fun q _ => not_gap ht.tight q) (le_add_left _ fuel)
    have hr := hpasses.returned ht hfits
    exact ⟨fuel + batch.length, t', Nat.le_add_right .., hok, hr.grown, hr.kept,
      fun x hx => hr.mem x (hperm.mem_iff.2 hx)⟩
  | insertManyWithInclude batch =>
    obtain ⟨t', hok, hr⟩ := hall batch hc
    exact ⟨fuel, t', le_rfl, congrArg some hok, hr⟩
  | _ => exact hc.elim

lemma grown_create : Grown pageSize km kM P create := by
  have hcap := cap_pos hroom
  have htight : TightAt ⊥ ⊤ [] := ⟨⟨by simp, .nil, by simp, by simp⟩, by simp⟩
  have hleaf : LeafFits (bodyCapacity pageSize) km kM P [] := by
    refine ⟨?_, by simp⟩
    simp only [bodyLen, map_nil, sum_nil]
    omega
  exact ⟨htight, hleaf⟩

lemma grown_of_reached
    (h : Reached (callStep pageSize) (fun _ c => c.1.Sized km kM P b) create t) :
    Grown pageSize km kM P t := by
  refine h.invariant _ (grown_create hroom) fun t c t' ht hc hstep => ?_
  unfold callStep at hstep
  split at hstep
  · next t₁ hrun =>
    cases hstep
    obtain ⟨fuel', t'', hle, hok, hr⟩ := call_returns hroom ht hc c.2
    rw [Call.run_mono hle hrun, Option.some.injEq, Except.ok.injEq] at hok
    exact hok ▸ hr.grown
  · cases hstep

end

/-- Every node is within the capacity of its page. -/
def NodesFit (pageSize : Nat) (t : BPlusTree) : Prop :=
  t.root.Every (fun l => bodyLen l ≤ bodyCapacity pageSize)
    fun ks => 7 + (ks.map fun k => encodedKeyLen k + 4).sum ≤ bodyCapacity pageSize

lemma Grown.nodesFit (h : Grown pageSize km kM P t) : NodesFit pageSize t :=
  SepTree.every_imp (fun _ hl => hl.body) (fun _ hks => hks.body) t.root h.fits

/-- **Inserts fit**: on every tree that inserts of such sizes lead to, all nodes fit their pages,
and a further such insert returns, with its entries in a tree of nodes that fit. -/
theorem inserts_fit (hroom : Roomy (bodyCapacity pageSize) km kM P b)
    (h : Reached (callStep pageSize) (fun _ c => c.1.Sized km kM P b) create t) :
    NodesFit pageSize t ∧ ∀ c : Call, c.Sized km kM P b →
      ∃ fuel t', c.run pageSize fuel t = some (.ok t') ∧ NodesFit pageSize t' ∧
        (∀ x ∈ t.pairs, x ∈ t'.pairs) ∧ ∀ x ∈ c.newPairs, x ∈ t'.pairs := by
  have ht := grown_of_reached hroom h
  refine ⟨ht.nodesFit, fun c hc => ?_⟩
  obtain ⟨fuel, t', -, hok, hr⟩ := call_returns hroom ht hc 0
  exact ⟨fuel, t', hok, hr.grown.nodesFit, hr.kept, hr.mem⟩

/-- Integer keys on pages of 4096 bytes, with batches of up to 213 entries. -/
theorem inserts_fit_ints : Roomy (bodyCapacity 4096) 9 9 0 213 ∧ NodesFit 4096 create ∧
      ∀ c : Call, c.Sized 9 9 0 213 →
        ∃ fuel t', c.run 4096 fuel create = some (.ok t') ∧ NodesFit 4096 t' ∧
          (∀ x ∈ create.pairs, x ∈ t'.pairs) ∧ ∀ x ∈ c.newPairs, x ∈ t'.pairs :=
  ⟨by decide, inserts_fit (by decide) .init⟩

def errorOf : Option (Except DbError BPlusTree) → Option DbError
  | some (.error e) => some e
  | _ => none

lemma eq_of_errorOf {r : Option (Except DbError BPlusTree)} {e : DbError}
    (h : errorOf r = some e) : r = some (.error e) := by
  match r, h with
  | some (.error _), h => rw [errorOf, Option.some.injEq] at h; rw [h]

/-- **A batch insert that panics**: 427 rows with one integer key, inserted into an empty tree of
pages of 4096 bytes. The leaf of 427 entries is within two pages, but its right half of 214 entries
is not within one. -/
theorem batch_of_equal_keys_panics : (Call.insertMany (copies 5 0 427)).Sized 9 9 0 427 ∧
      (Call.insertMany (copies 5 0 427)).run 4096 2 create = some (.error .panicked) := by
  refine ⟨⟨by decide +kernel, fun x hx => ?_⟩, eq_of_errorOf (by decide +kernel)⟩
  obtain ⟨i, -, rfl⟩ := mem_map.1 hx
  exact ⟨le_refl 9, le_refl 9⟩

end BPlusTree

end UniDb
