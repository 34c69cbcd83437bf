import UniDb.Index.Writes

/-!
# Whether batch calls return (`btree_index.rs`)

`insert_many_in_txn` finds a leaf with the read descent, counts the entries of the batch in its
span, and hands them to `insert_batch_in_txn`, which finds its leaf with the insert descent. A
separator equal to the key lies between the two. If the leaf on its left ends with the key and the
one on its right has lost its entries with that key (`Gap`), the batch is handed over and given back
untouched, again and again.

`batches_end_iff`: on a tree that calls lead to, every batch call ends exactly if there is no gap.
-/

set_option maxRecDepth 100000

namespace UniDb

open BPlusTree List UniDb.Sep Option

/-! ## The ends of a leaf -/

def headKey (l : Leaf) : Option OrderedValue := l.head?.map NodeEntry.key

def lastKey (l : Leaf) : Option OrderedValue := l.getLast?.map NodeEntry.key

variable {l : Leaf} {e : NodeEntry} {h q : OrderedValue}

lemma headKey_le (hl : KeySorted l) (hh : headKey l = some h) (he : e ∈ l) : h ≤ e.key := by
  cases l with
  | nil => cases he
  | cons a l =>
    obtain rfl : a.key = h := by simpa [headKey] using hh
    rcases mem_cons.1 he with rfl | he
    · exact le_rfl
    · exact (pairwise_cons.1 hl).1 e he

lemma le_lastKey (hl : KeySorted l) (hh : lastKey l = some h) (he : e ∈ l) : e.key ≤ h := by
  obtain ⟨a, ha, rfl⟩ := map_eq_some_iff.1 hh
  obtain ⟨l, rfl⟩ := getLast?_eq_some_iff.1 ha
  rcases mem_append.1 he with he | he
  · exact (pairwise_append.1 hl).2.2 e he a (.head _)
  · rw [mem_singleton.1 he]

lemma exists_of_headKey (hh : headKey l = some h) : ∃ e ∈ l, e.key = h := by
  obtain ⟨e, he, hk⟩ := map_eq_some_iff.1 hh
  exact ⟨e, mem_of_head? he, hk⟩

lemma exists_of_lastKey (hh : lastKey l = some h) : ∃ e ∈ l, e.key = h := by
  obtain ⟨e, he, hk⟩ := map_eq_some_iff.1 hh
  exact ⟨e, mem_of_getLast? he, hk⟩

lemma exists_headKey (he : e ∈ l) : ∃ h, headKey l = some h := by
  cases l with
  | nil => cases he
  | cons a l => exact ⟨a.key, rfl⟩

lemma exists_lastKey (he : e ∈ l) : ∃ h, lastKey l = some h := by
  cases hlast : l.getLast? with
  | none =>
    rw [getLast?_eq_none_iff.1 hlast] at he
    cases he
  | some a => exact ⟨a.key, by simp [lastKey, hlast]⟩

section
variable {x : Pair} {done new : List Pair} {l c : Leaf}

lemma Takes.key_mem (h : Takes x done new l c) : ∃ e ∈ c, e.key = x.1 := by
  obtain ⟨e, he, heq⟩ := mem_pairs.1 (h.mem x h.first)
  exact ⟨e, he, congrArg Prod.fst heq⟩

lemma Takes.keys_kept (h : Takes x done new l c) (he : e ∈ l) : ∃ a ∈ c, a.key = e.key := by
  have hmem := h.perm.mem_iff.2 (mem_append_right new (mem_pairs.2 ⟨e, he, rfl⟩))
  obtain ⟨a, ha, heq⟩ := mem_pairs.1 hmem
  exact ⟨a, ha, congrArg Prod.fst heq⟩

lemma Takes.key_cases (h : Takes x done new l c) (he : e ∈ c) :
    e.key = x.1 ∨ ∃ a ∈ l, ∃ b ∈ l, a.key ≤ e.key ∧ e.key ≤ b.key := by
  rcases mem_append.1 (h.perm.mem_iff.1 (mem_pairs.2 ⟨e, he, rfl⟩)) with hnew | hold
  · exact h.keys _ hnew
  · obtain ⟨a, ha, heq⟩ := mem_pairs.1 hold
    have hkey : a.key = e.key := congrArg Prod.fst heq
    exact .inr ⟨a, ha, a, ha, le_of_eq hkey, le_of_eq hkey.symm⟩

lemma Takes.lastKey_of_lt (h : Takes x done new l c) (hl : KeySorted l) (hq : x.1 < q)
    (hlast : lastKey c = some q) : lastKey l = some q := by
  obtain ⟨e, he, rfl⟩ := exists_of_lastKey hlast
  rcases h.key_cases he with heq | ⟨-, -, b, hb, -, hle⟩
  · exact absurd heq (ne_of_gt hq)
  · obtain ⟨h0, hh0⟩ := exists_lastKey hb
    obtain ⟨a, ha, rfl⟩ := exists_of_lastKey hh0
    obtain ⟨a', ha', heq⟩ := h.keys_kept ha
    have hup : a.key ≤ e.key := heq ▸ le_lastKey h.sorted hlast ha'
    rw [hh0, le_antisymm hup (hle.trans (le_lastKey hl hh0 hb))]

/-- Inside its span a leaf takes up entries without a change of its first or last key. -/
lemma Takes.ends_of_span (h : Takes x done new l c) (hl : KeySorted l) {lo hi : NodeEntry}
    (hlo : l.head? = some lo) (hhi : l.getLast? = some hi) (hin : inSpan lo hi x.1 = true) :
    headKey c = headKey l ∧ lastKey c = lastKey l := by
  have hspan : lo.key ≤ x.1 ∧ x.1 ≤ hi.key := by simpa [inSpan] using hin
  have hheadl : headKey l = some lo.key := by simp [headKey, hlo]
  have hlastl : lastKey l = some hi.key := by simp [lastKey, hhi]
  have hall : ∀ e ∈ c, lo.key ≤ e.key ∧ e.key ≤ hi.key := by
    intro e he
    rcases h.key_cases he with heq | ⟨a, ha, b, hb, hae, heb⟩
    · rw [heq]
      exact hspan
    · exact ⟨(headKey_le hl hheadl ha).trans hae, heb.trans (le_lastKey hl hlastl hb)⟩
  obtain ⟨a, ha, hak⟩ := h.keys_kept (mem_of_head? hlo)
  obtain ⟨b, hb, hbk⟩ := h.keys_kept (mem_of_getLast? hhi)
  obtain ⟨h1, hh1⟩ := exists_headKey ha
  obtain ⟨h2, hh2⟩ := exists_lastKey ha
  obtain ⟨e1, he1, rfl⟩ := exists_of_headKey hh1
  obtain ⟨e2, he2, rfl⟩ := exists_of_lastKey hh2
  have hle1 := hak ▸ headKey_le h.sorted hh1 ha
  have hle2 := hbk ▸ le_lastKey h.sorted hh2 hb
  rw [hheadl, hlastl, hh1, hh2, le_antisymm hle1 (hall e1 he1).1, le_antisymm (hall e2 he2).2 hle2]
  exact ⟨rfl, rfl⟩

end

namespace BPlusTree

variable {pageSize : Nat} {t t' : BPlusTree}

/-! ## Gaps -/

/-- The read descent of the key ends at a leaf whose last key it is, the insert descent at a leaf
that starts with a greater key. -/
def Gap (t : BPlusTree) (k : OrderedValue) : Prop :=
  lastKey (t.findLeaf k) = some k ∧ ∃ h ∈ headKey (t.insertionLeaf k), k < h

instance (t : BPlusTree) (k : OrderedValue) : Decidable (t.Gap k) :=
  inferInstanceAs (Decidable (_ ∧ _))

lemma Gap.exists_pair {k : OrderedValue} (h : t.Gap k) (ht : t.Ordered) : ∃ x ∈ t.pairs,
    x.1 = k := by
  obtain ⟨e, he, rfl⟩ := exists_of_lastKey h.1
  rw [findLeaf_eq ht] at he
  exact ⟨e.pair, mem_map_of_mem (mem_flatten.2 ⟨_, pick_mem _ _, he⟩), rfl⟩

/-- The two descents end at one leaf, or at two with the key between them. -/
lemma descents (ht : t.Ordered) (k : OrderedValue) : t.findLeaf k = t.insertionLeaf k ∨
      (∀ e ∈ t.findLeaf k, e.key ≤ k) ∧ ∀ e ∈ t.insertionLeaf k, k ≤ e.key := by
  rw [findLeaf_eq ht, insertionLeaf_eq ht]
  obtain ⟨pre, post, hs, hpre, hpost, -⟩ := t.flat.exists_place (readRoute k)
  have hle : ∀ x ∈ pre, insertRoute k x.2 = true := fun x hx => by
    have hx := hpre x hx
    simp only [readRoute, insertRoute, decide_eq_true_eq] at hx ⊢
    exact le_of_lt hx
  have hinsert : t.flat.pick (insertRoute k) =
      (⟨t.flat.pick (readRoute k), post⟩ : Sep OrderedValue Leaf).pick (insertRoute k) :=
    pick_consAll hs hle
  obtain ⟨lo, hchain, -⟩ := Sep.Chain.of_consAll hs ht
  rw [hinsert]
  cases post with
  | nil => exact .inl rfl
  | cons x post =>
    obtain ⟨b, c⟩ := x
    cases hb : insertRoute k b with
    | false =>
      left
      exact (pick_of_stop (by simpa using hb)).symm
    | true =>
      -- The separator after the first leaf is the key itself.
      have hge : k ≤ b := by
        have hstop := hpost (b, c) rfl
        simpa [readRoute] using hstop
      have hle : b ≤ k := by simpa [insertRoute] using hb
      obtain rfl : b = k := le_antisymm hle hge
      right
      refine ⟨fun e he => WithTop.coe_le_coe.1 (hchain.1.le e he), fun e he => ?_⟩
      rw [pick_cons_of_pass hb] at he
      have hentries := (Sep.OrderedFrom.entries hchain.2).1 e
      refine WithBot.coe_le_coe.1 (hentries ?_)
      exact mem_flatten.2 ⟨_, pick_mem ⟨c, post⟩ _, he⟩

/-- **A batch is given back untouched** exactly where there is a gap. -/
theorem gap_iff (ht : t.Ordered) (k : OrderedValue) :
    t.Gap k ↔ t.FoundInSpan k ∧ t.OutOfSpan k := by
  have hfl : KeySorted (t.findLeaf k) := by
    rw [findLeaf_eq ht]
    exact keySorted_pick ht _
  constructor
  · rintro ⟨hlast, h, hhead, hlt⟩
    obtain ⟨hi, hhi, hhik⟩ := map_eq_some_iff.1 hlast
    obtain ⟨lo, hlo, rfl⟩ := map_eq_some_iff.1 hhead
    have hhimem := mem_of_getLast? hhi
    refine ⟨?_, ?_⟩
    · obtain ⟨h0, hh0⟩ := exists_headKey hhimem
      obtain ⟨lo0, hlo0, rfl⟩ := map_eq_some_iff.1 hh0
      have hle := headKey_le hfl hh0 hhimem
      exact ⟨lo0, hi, hlo0, hhi, by simp [inSpan, ← hhik, hle]⟩
    · obtain ⟨h0, hh0⟩ := exists_lastKey (mem_of_head? hlo)
      obtain ⟨hi0, hhi0, -⟩ := map_eq_some_iff.1 hh0
      exact ⟨lo, hi0, hlo, hhi0, by simp [inSpan, not_le_of_gt hlt]⟩
  · rintro ⟨⟨lo, hi, hlo, hhi, hin⟩, lo', hi', hlo', hhi', hout⟩
    have hin : lo.key ≤ k ∧ k ≤ hi.key := by simpa [inSpan] using hin
    rcases descents ht k with heq | ⟨hle, hge⟩
    · rw [← heq, hlo, some.injEq] at hlo'
      rw [← heq, hhi, some.injEq] at hhi'
      subst hlo' hhi'
      simp [inSpan, hin] at hout
    · have hhik : hi.key = k := le_antisymm (hle hi (mem_of_getLast? hhi)) hin.2
      have hlast := hge hi' (mem_of_getLast? hhi')
      refine ⟨by simp [lastKey, hhi, hhik], lo'.key, by simp [headKey, hlo'], ?_⟩
      refine lt_of_not_ge fun hlok => ?_
      simp [inSpan, hlok, hlast] at hout

/-! ## Passes open no gap -/

section
variable {x : Pair} {done new : List Pair}

variable {c : Leaf} {m : Nat} {r : Leaf × Option (OrderedValue × Leaf)}

lemma headKey_take (hm : 0 < m) : headKey (c.take m) = headKey c := by
  cases c with
  | nil => simp
  | cons e c =>
    obtain ⟨m, rfl⟩ := Nat.exists_eq_succ_of_ne_zero (Nat.pos_iff_ne_zero.1 hm)
    rfl

lemma lastKey_drop {leaf : Leaf} (he : leaf[m]? = some e) :
    lastKey (leaf.drop m) = lastKey leaf := by
  obtain ⟨hm, -⟩ := List.getElem?_eq_some_iff.1 he
  rw [lastKey, getLast?_drop, if_neg (by omega)]
  rfl

lemma headKey_drop {leaf : Leaf} (he : leaf[m]? = some e) :
    headKey (leaf.drop m) = some e.key := by
  simp [headKey, he]

lemma pick_divided (p : OrderedValue → Bool) (l1 l2 : Leaf) (k : OrderedValue) :
    (⟨l1, (some (k, l2)).toList⟩ : Sep OrderedValue Leaf).pick p = if p k then l2 else l1 := by
  simp [pick, pickFrom]

lemma headKey_divided (htakes : Takes x done new l c) (hd : Divided c r) (hq : x.1 ≤ q)
    (hh : headKey ((⟨r.1, r.2.toList⟩ : Sep OrderedValue Leaf).pick (insertRoute q)) = some h) :
    h ≤ q := by
  obtain ⟨e, he, heq⟩ := htakes.key_mem
  rcases hd with rfl | ⟨m, a, hm, ha, rfl⟩
  · have hle := headKey_le htakes.sorted hh he
    exact hle.trans (heq ▸ hq)
  · cases hroute : insertRoute q a.key with
    | true =>
      rw [pick_divided, if_pos hroute, headKey_drop ha, some.injEq] at hh
      subst hh
      simpa [insertRoute] using hroute
    | false =>
      rw [pick_divided, if_neg (by simp [hroute]), headKey_take hm] at hh
      have hle := headKey_le htakes.sorted hh he
      exact hle.trans (heq ▸ hq)

lemma lastKey_divided {lo : WithBot OrderedValue} {d : Leaf} {post : List (OrderedValue × Leaf)}
    (htakes : Takes x done new l c) (hl : KeySorted l) (hd : Divided c r) (hq : x.1 < q)
    (hchain : Sep.ChainFrom (Sep.Within NodeEntry.key) lo r.1 (r.2.toList ++ (q, d) :: post))
    (hlast : lastKey ((⟨r.1, r.2.toList⟩ : Sep OrderedValue Leaf).pick (readRoute q)) = some q) :
    lastKey l = some q := by
  refine htakes.lastKey_of_lt hl hq ?_
  rcases hd with rfl | ⟨m, a, hm, ha, rfl⟩
  · exact hlast
  · cases hroute : readRoute q a.key with
    | true =>
      rw [pick_divided, if_pos hroute, lastKey_drop ha] at hlast
      exact hlast
    | false =>
      -- The right half has no key but `q`.
      have hge : q ≤ a.key := by simpa [readRoute] using hroute
      have hwithin : Sep.Within NodeEntry.key a.key q (c.drop m) := hchain.2.1
      have hmem : a ∈ c.drop m := by
        rw [← head?_drop] at ha
        exact mem_of_head? ha
      obtain ⟨h, hh⟩ := exists_lastKey hmem
      obtain ⟨e, he, rfl⟩ := exists_of_lastKey hh
      have hle : e.key ≤ q := WithTop.coe_le_coe.1 (hwithin.le e he)
      have hge' : a.key ≤ e.key := WithBot.coe_le_coe.1 (hwithin.ge e he)
      rw [← lastKey_drop ha, hh, le_antisymm hle (hge.trans hge')]

lemma seps_le_of_chain {lo : WithBot OrderedValue} {b : OrderedValue} {d : Leaf}
    {post : List (OrderedValue × Leaf)}
    (hchain : Sep.ChainFrom (Sep.Within NodeEntry.key) lo r.1 (r.2.toList ++ (b, d) :: post)) :
    ∀ y ∈ (⟨r.1, r.2.toList⟩ : Sep OrderedValue Leaf).seps, y ≤ b := by
  have hsorted := (Sep.OrderedFrom.seps hchain).2
  rw [map_append, pairwise_append] at hsorted
  exact fun y hy => hsorted.2.2 y hy b (.head _)

/-- The leaf where `q` is looked for ends with `q` already before the division. -/
lemma lastKey_of_append {lo : WithBot OrderedValue} {b : OrderedValue} {d : Leaf}
    {post : List (OrderedValue × Leaf)} (htakes : Takes x done new l c) (hl : KeySorted l)
    (hd : Divided c r) (hxq : x.1 < q) (hbq : b ≤ q)
    (hchain : Sep.ChainFrom (Sep.Within NodeEntry.key) lo r.1 (r.2.toList ++ (b, d) :: post))
    (hlast : lastKey ((append ⟨r.1, r.2.toList⟩ b ⟨d, post⟩ : Sep OrderedValue Leaf).pick
      (readRoute q)) = some q) :
    lastKey ((⟨l, (b, d) :: post⟩ : Sep OrderedValue Leaf).pick (readRoute q)) = some q := by
  have hseps := seps_le_of_chain hchain
  cases hbr : readRoute q b with
  | true =>
    rw [pick_append_of_pass (fun y hy => readRoute_closed q y b (hseps y hy) hbr) hbr] at hlast
    rw [pick_cons_of_pass hbr]
    exact hlast
  | false =>
    obtain rfl : b = q := le_antisymm hbq (by simpa [readRoute] using hbr)
    rw [pick_append_of_stop hbr] at hlast
    have hstop : ∀ y ∈ ((b, d) :: post).head?, readRoute b y.1 = false := by simpa using hbr
    rw [pick_of_stop hstop]
    exact lastKey_divided htakes hl hd hxq hchain hlast

lemma gap_of_putAt (ht : t.Ordered) (h : PutAt (insertRoute x.1) x done new t t') (hq : x.1 ≤ q)
    (hgap : t'.Gap q) : t.Gap q := by
  have ht' := h.ordered (insertRoute_routesTo _) ht
  have hl := keySorted_pick ht (insertRoute x.1)
  obtain ⟨c, r, htakes, hd, hflat⟩ := h
  obtain ⟨pre, post, hs, hpre, hpost, hrep⟩ := t.flat.exists_place (insertRoute x.1)
  rw [hrep] at hflat
  obtain ⟨hlast, h0, hhead, hlt⟩ := hgap
  rw [findLeaf_eq ht', hflat] at hlast
  rw [insertionLeaf_eq ht', hflat] at hhead
  have hpass : ∀ y ∈ pre, y.2 ≤ x.1 := fun y hy => by simpa [insertRoute] using hpre y hy
  have hinsert : ∀ y ∈ pre, insertRoute q y.2 = true := fun y hy => by
    simpa [insertRoute] using (hpass y hy).trans hq
  rw [pick_consAll rfl hinsert] at hhead
  cases post with
  | nil =>
    rw [append_nil] at hhead
    exact absurd hlt (not_lt_of_ge (headKey_divided htakes hd hq hhead))
  | cons y post =>
    obtain ⟨b, d⟩ := y
    have hrow : (⟨r.1, r.2.toList ++ (b, d) :: post⟩ : Sep OrderedValue Leaf) =
        append ⟨r.1, r.2.toList⟩ b ⟨d, post⟩ := rfl
    cases hb : insertRoute q b with
    | false =>
      rw [hrow, pick_append_of_stop hb] at hhead
      exact absurd hlt (not_lt_of_ge (headKey_divided htakes hd hq hhead))
    | true =>
      have hbq : b ≤ q := by simpa [insertRoute] using hb
      have hxb : x.1 < b := by simpa [insertRoute] using hpost (b, d) rfl
      have hxq : x.1 < q := lt_of_lt_of_le hxb hbq
      have hread : ∀ y ∈ pre, readRoute q y.2 = true := fun y hy => by
        simpa [readRoute] using lt_of_le_of_lt (hpass y hy) hxq
      obtain ⟨lo, hchain, -⟩ := Sep.Chain.of_consAll hflat ht'
      -- The separator of a split is not beyond the one after the leaf.
      have hseps := seps_le_of_chain hchain
      have hfind : t.findLeaf q = (⟨t.flat.pick (insertRoute x.1), (b, d) :: post⟩ :
          Sep OrderedValue Leaf).pick (readRoute q) :=
        (findLeaf_eq ht q).trans (pick_consAll hs hread)
      have hins : t.insertionLeaf q = (⟨d, post⟩ : Sep OrderedValue Leaf).pick (insertRoute q) := by
        rw [insertionLeaf_eq ht, pick_consAll hs hinsert, pick_cons_of_pass hb]
      rw [hrow, pick_append_of_pass (fun y hy => insertRoute_closed q y b (hseps y hy) hb) hb,
        ← hins] at hhead
      rw [pick_consAll rfl hread, hrow] at hlast
      refine ⟨?_, h0, hhead, hlt⟩
      rw [hfind]
      exact lastKey_of_append htakes hl hd hxq hbq hchain hlast

lemma gap_of_consumed (ht : t.Ordered) (h : Consumed x done new t t') (hq : x.1 ≤ q)
    (hgap : t'.Gap q) : t.Gap q := by
  have ht' := h.ordered ht
  rcases h with hput | ⟨⟨lo, hi, hlo, hhi, hin⟩, c, htakes, hflat⟩
  · exact gap_of_putAt ht hput hq hgap
  · rw [findLeaf_eq ht] at hlo hhi
    obtain ⟨hheadc, hlastc⟩ := htakes.ends_of_span (keySorted_pick ht _) hlo hhi hin
    obtain ⟨hlast, h0, hhead, hlt⟩ := hgap
    rw [findLeaf_eq ht', hflat] at hlast
    rw [insertionLeaf_eq ht', hflat] at hhead
    refine ⟨?_, h0, ?_, hlt⟩
    · rw [findLeaf_eq ht]
      rcases pick_replace t.flat (readRoute x.1) (readRoute q) c with heq | ⟨heq, hsame⟩
      · rwa [heq] at hlast
      · rwa [hsame, ← hlastc, ← heq]
    · rw [insertionLeaf_eq ht]
      rcases pick_replace t.flat (readRoute x.1) (insertRoute q) c with heq | ⟨heq, hsame⟩
      · rwa [heq] at hhead
      · rwa [hsame, ← hheadc, ← heq]

end

/-! ## Batch calls end -/

/-- The number of entries that each pass of `insert_many_in_txn` consumes. -/
def insertManyPasses (pageSize : Nat) : Nat → BPlusTree → List Pair → List Nat
  | _, _, [] => []
  | 0, _, _ :: _ => []
  | fuel + 1, t, x :: sorted =>
    match t.insertManyPass pageSize (x :: sorted) with
    | .error _ => []
    | .ok (t', n) => n :: insertManyPasses pageSize fuel t' ((x :: sorted).drop n)

/-- Without gaps from the first key on, there are at most as many passes as entries. -/
lemma insertManyLoop_ends {fuel : Nat} {sorted : List Pair} (ht : t.Ordered)
    (hsorted : sorted.Pairwise fun y z => y.1 ≤ z.1) (hfuel : sorted.length ≤ fuel)
    (hgap : ∀ q, (∃ x ∈ sorted.head?, x.1 ≤ q) → ¬ t.Gap q) :
    insertManyLoop pageSize fuel t sorted ≠ none ∧
      ∀ n ∈ insertManyPasses pageSize fuel t sorted, 0 < n := by
  fun_induction insertManyLoop pageSize fuel t sorted with
  | case1 => simp [insertManyPasses]
  | case2 => simp at hfuel
  | case3 fuel t x rest e hpass => simp [insertManyPasses, hpass]
  | case4 fuel t x rest t1 n hpass ih =>
    simp only [insertManyPasses, hpass]
    rcases insertManyPass_spec ht hsorted hpass with
      ⟨-, -, hfound, hout⟩ | ⟨hpos, hn, new, hconsumed⟩
    · exact absurd ((gap_iff ht _).2 ⟨hfound, hout⟩) (hgap x.1 ⟨x, rfl, le_rfl⟩)
    · have hlater : ∀ q, (∃ y ∈ ((x :: rest).drop n).head?, y.1 ≤ q) → ¬ t1.Gap q := by
        rintro q ⟨y, hy, hyq⟩ hg
        have hxy : x.1 ≤ y.1 := by
          rcases mem_cons.1 (mem_of_mem_drop (mem_of_head? hy)) with rfl | hmem
          · exact le_rfl
          · exact (pairwise_cons.1 hsorted).1 y hmem
        exact hgap q ⟨x, rfl, hxy.trans hyq⟩ (gap_of_consumed ht hconsumed (hxy.trans hyq) hg)
      have hlen : ((x :: rest).drop n).length ≤ fuel := by
        rw [length_drop]
        omega
      obtain ⟨hloop, hpasses⟩ :=
        ih (hconsumed.ordered ht) (hsorted.sublist (drop_sublist ..)) hlen hlater
      exact ⟨hloop, forall_mem_cons.2 ⟨hpos, hpasses⟩⟩

lemma patchManyLoop_ends {fuel : Nat} {sorted : List Patch} (hfuel : sorted.length ≤ fuel) :
    patchManyLoop pageSize fuel t sorted ≠ none := by
  fun_induction patchManyLoop pageSize fuel t sorted with
  | case1 | case3 => simp
  | case2 => simp at hfuel
  | case4 fuel t p rest t1 n hpass ih =>
    have hpos : 0 < n := by
      dsimp only [patchManyPass] at hpass
      split at hpass
      all_goals
        obtain ⟨t2, -, h⟩ := bind_eq_ok.1 hpass
        cases h
        omega
    refine ih ?_
    rw [length_drop]
    omega

/-! ## Gaps hang a batch -/

lemma pairLen_pos (x : Pair) : 1 ≤ pairLen x := by
  simp only [pairLen]
  omega

lemma sum_pairLen_replicate (n : Nat) (x : Pair) : n ≤ ((replicate n x).map pairLen).sum := by
  induction n with
  | zero => simp
  | succ n ih =>
    have hx := pairLen_pos x
    rw [replicate_succ, map_cons, sum_cons]
    omega

variable {k : OrderedValue}

/-- **A pass over copies of a key with a gap** consumes nothing and changes nothing. -/
theorem insertManyPass_of_gap (r : RowId) (ht : t.Ordered) (hgap : t.Gap k) :
    t.insertManyPass pageSize (replicate (bodyCapacity pageSize + 2) (k, r)) = .ok (t, 0) := by
  obtain ⟨⟨lo, hi, hlo, hhi, hin⟩, lo', hi', hlo', hhi', hout⟩ := (gap_iff ht k).1 hgap
  have hrun : (replicate (bodyCapacity pageSize + 2) (k, r)).takeWhile
      (fun y => inSpan lo hi y.1) = replicate (bodyCapacity pageSize + 2) (k, r) := by
    simp [hin]
  have hover : 2 ≤ (replicate (bodyCapacity pageSize + 2) (k, r)).length ∧
      bodyCapacity pageSize < Leaf.bodyLen (t.findLeaf k) +
        ((replicate (bodyCapacity pageSize + 2) (k, r)).map pairLen).sum := by
    have hsum := sum_pairLen_replicate (bodyCapacity pageSize + 2) (k, r)
    rw [length_replicate]
    omega
  rw [replicate_succ] at hrun hover ⊢
  dsimp only [insertManyPass]
  rw [hlo, hhi]
  dsimp only [insertManyPass.absorb]
  rw [hrun, if_pos hover]
  dsimp only [insertBatch]
  rw [hlo', hhi']
  dsimp only
  rw [if_pos (by simp [hout])]

lemma insertMany_of_gap (r : RowId) (ht : t.Ordered) (hgap : t.Gap k) (fuel : Nat) :
    insertMany pageSize fuel t (replicate (bodyCapacity pageSize + 2) (k, r)) = none := by
  have hsort : (replicate (bodyCapacity pageSize + 2) (k, r)).insertionSort
      (fun x y => Pair.cmp x y ≠ .gt) = replicate (bodyCapacity pageSize + 2) (k, r) := by
    refine List.Pairwise.insertionSort_eq (pairwise_replicate.2 (.inr ?_))
    rw [Pair.cmp_eq_iff.2 rfl]
    simp
  rw [insertMany, hsort]
  have hpass : t.insertManyPass pageSize (replicate (bodyCapacity pageSize + 2) (k, r)) =
      .ok (t, 0) := insertManyPass_of_gap r ht hgap
  induction fuel with
  | zero => rfl
  | succ fuel ih =>
    rw [replicate_succ] at hpass ih ⊢
    rw [insertManyLoop, hpass]
    exact ih

/-! ## When batch calls end -/

/-- Every batch call on the tree ends after finitely many passes, and each pass of a batch insert
consumes at least one entry. A panic is an end too. -/
def BatchesEnd (pageSize : Nat) (t : BPlusTree) : Prop :=
  (∀ batch, ∃ fuel, insertMany pageSize fuel t batch ≠ none ∧
    ∀ n ∈ insertManyPasses pageSize fuel t (batch.insertionSort fun x y => Pair.cmp x y ≠ .gt),
      0 < n) ∧
    ∀ patches, ∃ fuel, patchMany pageSize fuel t patches ≠ none

/-- **When batch calls end**: on a tree that any calls lead to, exactly if it has no gap. -/
theorem batches_end_iff (h : Reached (callStep pageSize) (fun _ _ => True) create t) :
    BatchesEnd pageSize t ↔ ∀ k, ¬ t.Gap k := by
  have ht := ordered_of_reached h
  constructor
  · intro hends k hgap
    obtain ⟨fuel, hfuel, -⟩ := hends.1 (replicate (bodyCapacity pageSize + 2) (k, ⟨0, 0⟩))
    exact hfuel (insertMany_of_gap ⟨0, 0⟩ ht hgap fuel)
  · intro hgap
    refine ⟨fun batch => ⟨_, insertManyLoop_ends ht (sorted_batch batch) le_rfl ?_⟩,
      fun patches => ⟨_, patchManyLoop_ends le_rfl⟩⟩
    exact fun q _ => hgap q

def copies (k : Int) (first n : Nat) : List Pair :=
  (range n).map fun i => (.int k, ⟨first + i, 0⟩)

/-- Entries of one key over two leaves; those of the right leaf are removed again, after an entry
with a greater key came in. -/
def removedDuplicates : List (Call × Nat) :=
  [(.insertMany (copies 5 0 214), 2), (.insert (.int 6, ⟨0, 0⟩), 0)] ++
    (copies 5 107 107).map fun x => (.remove x, 0)

/-- The same, with an entry of the key left in the right leaf. -/
def keptDuplicate : List (Call × Nat) := removedDuplicates.dropLast

theorem batches_end_iff_keptDuplicate :
    (runState (callStep 4096) create keptDuplicate).pairs.length = 109 ∧
      BatchesEnd 4096 (runState (callStep 4096) create keptDuplicate) := by
  have hreached : Reached (callStep 4096) (fun _ _ => True) create
      (runState (callStep 4096) create keptDuplicate) :=
    reached_runState (by simp) (by decide +kernel)
  have hgaps : ∀ x ∈ (runState (callStep 4096) create keptDuplicate).pairs,
      ¬ (runState (callStep 4096) create keptDuplicate).Gap x.1 := by
    decide +kernel
  refine ⟨by decide +kernel, (batches_end_iff hreached).2 fun k hgap => ?_⟩
  obtain ⟨x, hx, rfl⟩ := hgap.exists_pair (ordered_of_reached hreached)
  exact hgaps x hx hgap

/-- **A batch insert that never returns.** -/
theorem removed_duplicates_hang : Reached (callStep 4096) (fun _ _ => True) create
        (runState (callStep 4096) create removedDuplicates) ∧
      ¬ BatchesEnd 4096 (runState (callStep 4096) create removedDuplicates) := by
  have hreached : Reached (callStep 4096) (fun _ _ => True) create
      (runState (callStep 4096) create removedDuplicates) :=
    reached_runState (by simp) (by decide +kernel)
  have hgap : (runState (callStep 4096) create removedDuplicates).Gap (.int 5) := by
    decide +kernel
  refine ⟨hreached, fun hends => ?_⟩
  obtain ⟨fuel, hfuel, -⟩ := hends.1 (replicate (bodyCapacity 4096 + 2) (.int 5, ⟨0, 0⟩))
  exact hfuel (insertMany_of_gap ⟨0, 0⟩ (ordered_of_reached hreached) hgap fuel)

end BPlusTree

end UniDb
