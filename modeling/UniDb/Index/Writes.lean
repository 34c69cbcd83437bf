import UniDb.Index.BPlus
import UniDb.Lib.Lists
import UniDb.Lib.Run

/-!
# What the writes of a B+tree do to its leaf chain

A tree is `Ordered` if its leaves are sorted by key between the separators. Then every descent ends
where the leaf chain has the key's place, and a write changes one leaf of the chain:

* `PutAt`: one leaf takes up entries, at the place of a key or inside its own span, and is divided
  if need be. Single inserts, batches and absorption are sequences of such writes
  (`insertWithInclude_spec`, `insertBatch_spec`, `insertManyPass_spec`).
* `NoNewKeys`: one leaf is written with no key that it did not have. These are the patches of
  `patch_many` and `update_rowid_inplace` (`Redirected`), and `remove`.

Both keep a tree ordered, so every tree that calls lead to is (`ordered_of_reached`).
-/

namespace UniDb

open List NodeEntry SepTree Leaf Option

lemma readRoute_closed (k : OrderedValue) :
    ∀ a b, a ≤ b → readRoute k b = true → readRoute k a = true := by
  intro a b hab hb
  simp only [readRoute, decide_eq_true_eq] at hb ⊢
  exact lt_of_le_of_lt hab hb

lemma insertRoute_closed (k : OrderedValue) :
    ∀ a b, a ≤ b → insertRoute k b = true → insertRoute k a = true := by
  intro a b hab hb
  simp only [insertRoute, decide_eq_true_eq] at hb ⊢
  exact le_trans hab hb

/-- The place of a key: separators that are passed are not greater, the others not less. -/
structure RoutesTo (k : OrderedValue) (p : OrderedValue → Bool) : Prop where
  le : ∀ a, p a = true → a ≤ k
  ge : ∀ a, p a = false → k ≤ a

lemma readRoute_routesTo (k : OrderedValue) : RoutesTo k (readRoute k) where
  le a ha := le_of_lt (by simpa [readRoute] using ha)
  ge a ha := by simpa [readRoute] using ha

lemma insertRoute_routesTo (k : OrderedValue) : RoutesTo k (insertRoute k) where
  le a ha := by simpa [insertRoute] using ha
  ge a ha := le_of_lt (by simpa [insertRoute] using ha)

section
variable {k : OrderedValue} {p : OrderedValue → Bool}

lemma RoutesTo.below (hp : RoutesTo k p) {lo : WithBot OrderedValue} (h : Sep.Below p lo) :
    lo ≤ k := by
  cases lo with
  | bot => exact bot_le
  | coe a => exact WithBot.coe_le_coe.2 (hp.le a (h a rfl))

lemma RoutesTo.above (hp : RoutesTo k p) {hi : WithTop OrderedValue} (h : Sep.Above p hi) :
    (k : WithTop OrderedValue) ≤ hi := by
  cases hi with
  | top => exact le_top
  | coe a => exact WithTop.coe_le_coe.2 (hp.ge a (h a rfl))

end

/-! ## One leaf -/

abbrev KeySorted (l : Leaf) : Prop := l.Pairwise fun a b => a.key ≤ b.key

variable {x : Pair} {l c : Leaf} {e : NodeEntry} {r : Leaf × Option (OrderedValue × Leaf)}
  {done new : List Pair}

lemma mem_pairs : x ∈ pairs l ↔ ∃ e ∈ l, e.pair = x :=
  mem_map

lemma keySorted_iff_pairs : KeySorted l ↔ (pairs l).Pairwise fun x y => x.1 ≤ y.1 := by
  rw [pairs, pairwise_map]
  rfl

@[simp] lemma pairs_plain (xs : List Pair) : pairs (xs.map .plain) = xs := by
  simp [pairs, Function.comp_def]

@[simp] lemma pairs_attach (payloads : List (List UInt8)) (xs : List Pair) :
    Leaf.pairs (Leaf.attach payloads xs) = xs := by
  refine ext_getElem? fun i => ?_
  simp [Leaf.pairs, Leaf.attach, pair, Function.comp_def]

/-- The leaf `c` is `l` after taking up the entries `done`, `x` among them; `new` are those that
were added. -/
structure Takes (x : Pair) (done new : List Pair) (l c : Leaf) : Prop where
  sorted : KeySorted c
  perm : (pairs c).Perm (new ++ pairs l)
  first : x ∈ done
  sub : new.Sublist done
  mem : ∀ y ∈ done, y ∈ pairs c
  keys : ∀ y ∈ new, y.1 = x.1 ∨ ∃ a ∈ l, ∃ b ∈ l, a.key ≤ y.1 ∧ y.1 ≤ b.key

lemma KeySorted.split {leaf : Leaf} (h : KeySorted leaf) {m : Nat} (he : leaf[m]? = some e) :
    (∀ a ∈ leaf.take m, a.key ≤ e.key) ∧ ∀ a ∈ leaf.drop m, e.key ≤ a.key := by
  obtain ⟨hm, rfl⟩ := List.getElem?_eq_some_iff.1 he
  rw [KeySorted, ← take_append_drop m leaf, pairwise_append] at h
  have hmem : leaf[m] ∈ leaf.drop m := by
    rw [drop_eq_getElem_cons hm]
    exact .head _
  refine ⟨fun a ha => h.2.2 a ha _ hmem, ?_⟩
  rw [drop_eq_getElem_cons hm] at h ⊢
  exact forall_mem_cons.2 ⟨le_rfl, (pairwise_cons.1 h.2.1).1⟩

lemma within_divided {lo : WithBot OrderedValue} {hi : WithTop OrderedValue}
    (h : Sep.Within key lo hi c) (hd : Divided c r) : Sep.Fits (Sep.Within key) lo hi r.1 r.2 := by
  rcases hd with rfl | ⟨m, e, -, he, rfl⟩
  · exact h
  · have hsplit := KeySorted.split h.sorted he
    have hmem : e ∈ c := mem_of_getElem? he
    constructor
    · exact
        { bounds := by
            intro k hk
            rw [← WithTop.coe_inj.1 hk]
            exact h.ge e hmem
          sorted := h.sorted.sublist (take_sublist ..)
          ge := fun a ha => h.ge a (mem_of_mem_take ha)
          le := fun a ha => WithTop.coe_le_coe.2 (hsplit.1 a ha) }
    · exact
        { bounds := by
            rintro k rfl
            exact WithBot.coe_le_coe.2 (WithTop.coe_le_coe.1 (h.le e hmem))
          sorted := h.sorted.sublist (drop_sublist ..)
          ge := fun a ha => WithBot.coe_le_coe.2 (hsplit.2 a ha)
          le := fun a ha => h.le a (mem_of_mem_drop ha) }

lemma Takes.within {lo : WithBot OrderedValue} {hi : WithTop OrderedValue}
    (h : Takes x done new l c) (hl : Sep.Within key lo hi l) (hlo : lo ≤ x.1)
    (hhi : (x.1 : WithTop OrderedValue) ≤ hi) : Sep.Within key lo hi c := by
  have hkey : ∀ a ∈ c, a.pair ∈ new ∨ ∃ b ∈ l, b.pair = a.pair := by
    intro a ha
    have hmem := h.perm.mem_iff.1 (mem_pairs.2 ⟨a, ha, rfl⟩)
    exact (mem_append.1 hmem).imp id mem_pairs.1
  refine ⟨hl.bounds, h.sorted, fun a ha => ?_, fun a ha => ?_⟩
  · rcases hkey a ha with hnew | ⟨b, hb, heq⟩
    · rcases h.keys _ hnew with heq | ⟨b, hb, -, -, hle, -⟩
      · exact (show a.key = x.1 from heq) ▸ hlo
      · exact (hl.ge b hb).trans (WithBot.coe_le_coe.2 hle)
    · exact (show b.key = a.key from congrArg Prod.fst heq) ▸ hl.ge b hb
  · rcases hkey a ha with hnew | ⟨b, hb, heq⟩
    · rcases h.keys _ hnew with heq | ⟨-, -, b, hb, -, hle⟩
      · exact (show a.key = x.1 from heq) ▸ hhi
      · exact (WithTop.coe_le_coe.2 hle).trans (hl.le b hb)
    · exact (show b.key = a.key from congrArg Prod.fst heq) ▸ hl.le b hb

lemma Divided.flatten (h : Divided c r) : (r.1 :: r.2.toList.map Prod.snd).flatten = c := by
  rcases h with rfl | ⟨m, e, -, -, rfl⟩ <;> simp

lemma takes_self (hl : KeySorted l) (hx : x ∈ pairs l) : Takes x [x] [] l l :=
  ⟨hl, .refl _, by simp, by simp, by simpa using hx, by simp⟩

lemma InsertedAt.takes {pos : Nat} (h : InsertedAt key e l c pos) (hl : KeySorted l) :
    Takes e.pair [e.pair] [e.pair] l c := by
  refine ⟨h.sorted hl, h.perm.map pair, by simp, by simp, ?_, by simp⟩
  simpa using mem_pairs.2 ⟨e, h.perm.mem_iff.2 (.head _), rfl⟩

namespace BPlusTree

variable {pageSize : Nat} {t t' : BPlusTree}

/-! ## Descents in an ordered tree -/

/-- The leaves are sorted by key between the separators. -/
def Ordered (t : BPlusTree) : Prop := t.flat.Ordered key

lemma findLeaf_eq (h : t.Ordered) (k : OrderedValue) : t.findLeaf k = t.flat.pick (readRoute k) :=
  pick_eq_flat (readRoute_closed k) _ (Sep.Ordered.sorted_seps h)

lemma insertionLeaf_eq (h : t.Ordered) (k : OrderedValue) :
    t.insertionLeaf k = t.flat.pick (insertRoute k) :=
  pick_eq_flat (insertRoute_closed k) _ (Sep.Ordered.sorted_seps h)

variable {lo hi : NodeEntry} {n : Nat} {s : Sep OrderedValue (SepTree OrderedValue Leaf n)}
  {key : OrderedValue} {batch : List Pair} {l' : Leaf} {step : Leaf → Walk Leaf}
  {root : SepTree OrderedValue Leaf t.height}

lemma writeRow_eq_ok {r : SepTree OrderedValue Leaf (n + 1)} :
    writeRow pageSize s = .ok r ↔ rowBodyLen s ≤ bodyCapacity pageSize ∧ r = .node s := by
  unfold writeRow
  split
  · next h => simp [h, eq_comm]
  · next h => simp [h]

theorem splitInternal_eq_ok {r : SepTree.Grown OrderedValue Leaf (n + 1)}
    (h : splitInternal pageSize s = .ok r) :
    ∃ up c right, s.rest = s.rest.take (s.rest.length / 2) ++ (up, c) :: right ∧
      r = (.node ⟨s.first, s.rest.take (s.rest.length / 2)⟩, some (up, .node ⟨c, right⟩)) := by
  unfold splitInternal at h
  split at h
  · cases h
  · next up c right heq =>
    obtain ⟨r1, hr, h⟩ := bind_eq_ok.1 h
    obtain ⟨l1, hl, h⟩ := bind_eq_ok.1 h
    obtain ⟨-, rfl⟩ := writeRow_eq_ok.1 hr
    obtain ⟨-, rfl⟩ := writeRow_eq_ok.1 hl
    cases h
    exact ⟨up, c, right, by rw [← heq, take_append_drop], rfl⟩

/-- Splits of internal nodes do not show in the leaf chain. -/
lemma absorbRow_flat (s : Sep OrderedValue (SepTree OrderedValue Leaf n))
    (r : SepTree.Grown OrderedValue Leaf (n + 1)) (h : absorbRow pageSize s = .ok r) :
    SepTree.flatGrown r = SepTree.flat (.node s) := by
  unfold absorbRow at h
  split at h
  · cases h
    exact SepTree.flatGrown_none _
  · obtain ⟨up, c, right, hrest, rfl⟩ := splitInternal_eq_ok h
    rw [SepTree.flatGrown_some, ← SepTree.flat_cut, ← hrest]

lemma rootOf_flat {r : SepTree.Grown OrderedValue Leaf n} (h : rootOf pageSize r = .ok t') :
    t'.flat = flatGrown r := by
  obtain ⟨t, _ | ⟨k, c⟩⟩ := r
  · cases h
    exact (flatGrown_none _).symm
  · obtain ⟨root, hroot, h⟩ := bind_eq_ok.1 h
    obtain ⟨-, rfl⟩ := writeRow_eq_ok.1 hroot
    cases h
    rfl

/-- **A descent that changes a leaf** changes it in the leaf chain, and nothing else. -/
theorem insertAt_flat {op : Leaf → Except DbError (Leaf × Option (OrderedValue × Leaf))}
    (ht : t.Ordered) (h : t.insertAt pageSize key op = .ok t') :
    ∃ r, op (t.flat.pick (insertRoute key)) = .ok r ∧
      t'.flat = t.flat.replace (insertRoute key) r.1 r.2 := by
  obtain ⟨g, hg, h⟩ := bind_eq_ok.1 h
  have hsorted := Sep.Ordered.sorted_seps ht
  obtain ⟨r, hop, hflat⟩ := flat_update (insertRoute_closed key)
    (fun s r hs => absorbRow_flat s r hs) t.root g hsorted hg
  rw [pick_eq_flat (insertRoute_closed key) _ hsorted] at hop
  exact ⟨r, hop, by rw [rootOf_flat h, hflat]; rfl⟩

lemma writeFound_flat (ht : t.Ordered) (h : t.writeFound pageSize key l = .ok t') :
    bodyLen l ≤ bodyCapacity pageSize ∧ t'.flat = t.flat.replace (readRoute key) l none := by
  obtain ⟨l1, hl, hset⟩ := bind_eq_ok.1 h
  obtain ⟨hfit, rfl⟩ := writeLeaf_eq_ok.1 hl
  cases hset
  exact ⟨hfit, flat_set (readRoute_closed key) _ _ (Sep.Ordered.sorted_seps ht)⟩

/-! ## Entries taken up by one leaf -/

def pairs (t : BPlusTree) : List Pair := t.entries.map pair

/-- The leaf that `p` routes to takes up the entries `done`, of which `new` were not there. -/
def PutAt (p : OrderedValue → Bool) (x : Pair) (done new : List Pair) (t t' : BPlusTree) : Prop :=
  ∃ c r, Takes x done new (t.flat.pick p) c ∧ Divided c r ∧ t'.flat = t.flat.replace p r.1 r.2

section
variable {p : OrderedValue → Bool} {x : Pair} {done new : List Pair}

section
variable (h : PutAt p x done new t t')

include h

lemma PutAt.ordered (hp : RoutesTo x.1 p) (ht : t.Ordered) : t'.Ordered := by
  obtain ⟨c, r, htakes, hd, hflat⟩ := h
  rw [Ordered, hflat]
  refine Sep.Chain.replace ht fun lo hi hlo hhi hl => ?_
  exact within_divided (htakes.within hl (hp.below hlo) (hp.above hhi)) hd

lemma PutAt.entries : ∃ c, Takes x done new (t.flat.pick p) c ∧
      t.entries = (t.flat.before p).flatten ++ (t.flat.pick p ++ (t.flat.after p).flatten) ∧
      t'.entries = (t.flat.before p).flatten ++ (c ++ (t.flat.after p).flatten) := by
  obtain ⟨c, r, htakes, hd, hflat⟩ := h
  refine ⟨c, htakes, ?_, ?_⟩
  · rw [BPlusTree.entries, Sep.items_eq t.flat p, flatten_append, flatten_cons]
  · rw [BPlusTree.entries, hflat, Sep.items_replace, flatten_append, ← cons_append,
      flatten_append, hd.flatten]

lemma PutAt.pairs : t'.pairs.Perm (new ++ t.pairs) ∧ ∀ y ∈ done, y ∈ t'.pairs := by
  obtain ⟨c, htakes, hbefore, hafter⟩ := h.entries
  constructor
  · simp only [BPlusTree.pairs, hbefore, hafter, map_append]
    refine (List.Perm.append_left _ (htakes.perm.append_right _)).trans ?_
    rw [append_assoc]
    exact perm_append_comm_assoc ..
  · intro y hy
    simp only [BPlusTree.pairs, hafter, map_append, mem_append]
    exact .inr (.inl (htakes.mem y hy))

end

end

/-! ## Single inserts -/

lemma keySorted_pick (ht : t.Ordered) (p : OrderedValue → Bool) : KeySorted (t.flat.pick p) := by
  obtain ⟨lo, hi, -, -, hwithin⟩ := Sep.Chain.pick ht p
  exact hwithin.sorted

/-- **A single insert** adds the pair, unless the binary search finds it in the leaf. -/
theorem insertWithInclude_spec (ht : t.Ordered) (h : t.insertWithInclude pageSize e = .ok t') :
    ∃ new, PutAt (insertRoute e.key) e.pair [e.pair] new t t' ∧
      (new = [e.pair] ∨ new = [] ∧ e.pair ∈ t.pairs) := by
  obtain ⟨r, hop, hflat⟩ := insertAt_flat ht h
  have hl := keySorted_pick ht (insertRoute e.key)
  unfold insertLeaf at hop
  split at hop
  · next i hfound =>
    obtain ⟨a, ha, heq⟩ := binarySearchBy_ok hfound
    have hmem : e.pair ∈ Leaf.pairs (t.flat.pick (insertRoute e.key)) :=
      mem_pairs.2 ⟨a, ha, Pair.cmp_eq_iff.1 heq⟩
    cases hop
    have hput : PutAt (insertRoute e.key) e.pair [e.pair] [] t t' :=
      ⟨_, _, takes_self hl hmem, .inl rfl, hflat⟩
    refine ⟨[], hput, .inr ⟨rfl, ?_⟩⟩
    simpa using hput.pairs.1.mem_iff.1 (hput.pairs.2 _ (.head _))
  · next pos hpos =>
    exact ⟨[e.pair], ⟨_, _, InsertedAt.takes (insertedAt_of_search hl hpos) hl,
      placeLeaf_divided hop, hflat⟩, .inl rfl⟩

lemma insertWithInclude_ordered (ht : t.Ordered) (h : t.insertWithInclude pageSize e = .ok t') :
    t'.Ordered := by
  obtain ⟨new, hput, -⟩ := insertWithInclude_spec ht h
  exact hput.ordered (insertRoute_routesTo _) ht

lemma insertAll_ordered {es : List NodeEntry} (ht : t.Ordered)
    (h : t.insertAll pageSize es = .ok t') : t'.Ordered := by
  induction es generalizing t with
  | nil =>
    cases h
    exact ht
  | cons e es ih =>
    obtain ⟨t1, h1, h⟩ := bind_eq_ok.1 h
    exact ih (insertWithInclude_ordered ht h1) h

/-! ## Batches -/

/-- **The merge** keeps the old entries, and adds those of the new ones that it does not skip. -/
theorem mergeBatch_spec (old new : List Pair) :
    ∃ added, added.Sublist new ∧ (mergeBatch old new).Perm (added ++ old) ∧
      ∀ y ∈ new, y ∈ mergeBatch old new := by
  fun_induction mergeBatch old new with
  | case1 new => exact ⟨new, .refl _, by simp, fun y hy => hy⟩
  | case2 old _ => exact ⟨[], .refl _, by simp, by simp⟩
  | case3 o old b new hcmp ih =>
    obtain ⟨added, hsub, hperm, hmem⟩ := ih
    exact ⟨added, hsub, (hperm.cons o).trans perm_middle.symm, fun y hy => .tail _ (hmem y hy)⟩
  | case4 o old b new hcmp ih =>
    obtain ⟨added, hsub, hperm, hmem⟩ := ih
    refine ⟨added, hsub.cons b, (hperm.cons o).trans perm_middle.symm,
      forall_mem_cons.2 ⟨?_, fun y hy => .tail _ (hmem y hy)⟩⟩
    rw [Pair.cmp_eq_iff.1 hcmp]
    exact .head _
  | case5 o old b new hcmp ih =>
    obtain ⟨added, hsub, hperm, hmem⟩ := ih
    exact ⟨b :: added, hsub.cons_cons b, hperm.cons b,
      forall_mem_cons.2 ⟨.head _, fun y hy => .tail _ (hmem y hy)⟩⟩

lemma mem_mergeBatch {old : List Pair} {y : Pair} (h : y ∈ mergeBatch old new) :
    y ∈ old ∨ y ∈ new := by
  obtain ⟨added, hsub, hperm, -⟩ := mergeBatch_spec old new
  rcases mem_append.1 (hperm.mem_iff.1 h) with hy | hy
  · exact .inr (hsub.subset hy)
  · exact .inl hy

lemma mergeBatch_sorted {old : List Pair} (hold : old.Pairwise fun x y => x.1 ≤ y.1)
    (hnew : new.Pairwise fun x y => x.1 ≤ y.1) :
    (mergeBatch old new).Pairwise fun x y => x.1 ≤ y.1 := by
  fun_induction mergeBatch old new with
  | case1 new => exact hnew
  | case2 old _ => exact hold
  | case3 o old b new hcmp ih =>
    obtain ⟨ho, hold⟩ := pairwise_cons.1 hold
    refine pairwise_cons.2 ⟨fun y hy => ?_, ih hold hnew⟩
    have hob : o.1 ≤ b.1 := Pair.le_of_cmp_ne_gt (by rw [hcmp]; simp)
    rcases mem_mergeBatch hy with hy | hy
    · exact ho y hy
    · rcases mem_cons.1 hy with rfl | hy
      · exact hob
      · exact hob.trans ((pairwise_cons.1 hnew).1 y hy)
  | case4 o old b new hcmp ih =>
    obtain ⟨ho, hold1⟩ := pairwise_cons.1 hold
    obtain ⟨hb, hnew1⟩ := pairwise_cons.1 hnew
    obtain rfl := Pair.cmp_eq_iff.1 hcmp
    refine pairwise_cons.2 ⟨fun y hy => ?_, ih hold1 hnew1⟩
    exact (mem_mergeBatch hy).elim (ho y) (hb y)
  | case5 o old b new hcmp ih =>
    obtain ⟨hb, hnew⟩ := pairwise_cons.1 hnew
    refine pairwise_cons.2 ⟨fun y hy => ?_, ih hold hnew⟩
    have hob : b.1 ≤ o.1 := Pair.ge_of_cmp_ne_lt (by rw [hcmp]; simp)
    rcases mem_mergeBatch hy with hy | hy
    · rcases mem_cons.1 hy with rfl | hy
      · exact hob
      · exact hob.trans ((pairwise_cons.1 hold).1 y hy)
    · exact hb y hy

/-- **The absorption loop** consumes a leading part of the run; what it does not find it adds. -/
theorem absorbRun_spec {cap : Nat} {run xs xs' : List Pair} {body m : Nat}
    (hsorted : xs.Pairwise fun x y => x.1 ≤ y.1)
    (h : absorbRun cap lo hi body xs m run = (xs', n)) :
    ∃ k added, n = m + k ∧ k ≤ run.length ∧ added.Sublist (run.take k) ∧
      xs'.Perm (added ++ xs) ∧ (xs'.Pairwise fun x y => x.1 ≤ y.1) ∧
      (∀ y ∈ run.take k, y ∈ xs' ∧ inSpan lo hi y.1 = true) ∧
      (added = [] ∨ body + (added.map pairLen).sum ≤ cap) := by
  induction run generalizing xs body m with
  | nil =>
    obtain ⟨rfl, rfl⟩ := h
    exact ⟨0, [], by simp, by simp, by simp, by simp, hsorted, by simp, .inl rfl⟩
  | cons x run ih =>
    have hstop : (xs, m) = (xs', n) → ∃ k added, n = m + k ∧ k ≤ (x :: run).length ∧
        added.Sublist ((x :: run).take k) ∧ xs'.Perm (added ++ xs) ∧
        (xs'.Pairwise fun x y => x.1 ≤ y.1) ∧
        (∀ y ∈ (x :: run).take k, y ∈ xs' ∧ inSpan lo hi y.1 = true) ∧
        (added = [] ∨ body + (added.map pairLen).sum ≤ cap) := by
      intro heq
      obtain ⟨rfl, rfl⟩ := Prod.mk.inj heq
      exact ⟨0, [], by simp, by simp, by simp, by simp, hsorted, by simp, .inl rfl⟩
    unfold absorbRun at h
    split at h
    · exact hstop h
    · next hspan =>
      split at h
      · next i hfound =>
        obtain ⟨a, ha, heq⟩ := binarySearchBy_ok hfound
        obtain rfl := Pair.cmp_eq_iff.1 heq
        obtain ⟨k, added, hn, hk, hsub, hperm, hsorted', hmem, hbody⟩ := ih hsorted h
        refine ⟨k + 1, added, by omega, by simpa using hk, hsub.cons a, hperm, hsorted', ?_, hbody⟩
        exact forall_mem_cons.2
          ⟨⟨hperm.mem_iff.2 (mem_append_right _ ha), by simpa using hspan⟩, hmem⟩
      · next pos hpos =>
        split at h
        · exact hstop h
        · next hfit =>
          have hins : InsertedAt Prod.fst x xs (xs.insertIdx pos x) pos :=
            insertedAt_of_search hsorted hpos
          obtain ⟨k, added, hn, hk, hsub, hperm, hsorted', hmem, hbody⟩ :=
            ih (hins.sorted hsorted) h
          have hperm' : xs'.Perm (x :: added ++ xs) :=
            hperm.trans ((hins.perm.append_left added).trans perm_middle)
          refine ⟨k + 1, x :: added, by omega, by simpa using hk, hsub.cons_cons x, hperm',
            hsorted', ?_, ?_⟩
          · exact forall_mem_cons.2 ⟨⟨hperm'.mem_iff.2 (.head _), by simpa using hspan⟩, hmem⟩
          · rcases hbody with rfl | hbody
            · simpa using Nat.le_of_not_lt hfit
            · simp only [map_cons, sum_cons]
              omega

/-- The leaf that an insert of the key descends to does not span it. -/
def OutOfSpan (t : BPlusTree) (k : OrderedValue) : Prop :=
  ∃ lo hi, (t.insertionLeaf k).head? = some lo ∧ (t.insertionLeaf k).getLast? = some hi ∧
    inSpan lo hi k = false

/-- The leaf that a search of the key descends to spans it. -/
def FoundInSpan (t : BPlusTree) (k : OrderedValue) : Prop :=
  ∃ lo hi, (t.findLeaf k).head? = some lo ∧ (t.findLeaf k).getLast? = some hi ∧
    inSpan lo hi k = true

/-- A pass that consumes the entries `done`, of which `x` is the first: the leaf of the insert
descent takes them up, or that of the read descent, inside its span and without a split. -/
def Consumed (x : Pair) (done new : List Pair) (t t' : BPlusTree) : Prop :=
  PutAt (insertRoute x.1) x done new t t' ∨
    t.FoundInSpan x.1 ∧ ∃ c, Takes x done new (t.flat.pick (readRoute x.1)) c ∧
      t'.flat = t.flat.replace (readRoute x.1) c none

lemma Consumed.putAt (h : Consumed x done new t t') :
    ∃ p, RoutesTo x.1 p ∧ PutAt p x done new t t' := by
  rcases h with hput | ⟨-, c, htakes, hflat⟩
  · exact ⟨_, insertRoute_routesTo _, hput⟩
  · exact ⟨_, readRoute_routesTo _, c, (c, none), htakes, .inl rfl, hflat⟩

lemma consumed_insert (ht : t.Ordered) (h : t.insert pageSize x = .ok t') :
    0 < 1 ∧ 1 ≤ (x :: batch).length ∧ ∃ new, Consumed x ((x :: batch).take 1) new t t' := by
  obtain ⟨new, hput, -⟩ := insertWithInclude_spec ht h
  exact ⟨by omega, by simp, new, .inl hput⟩

lemma take_takeWhile_length {α : Type} (q : α → Bool) (l : List α) :
    l.take (l.takeWhile q).length = l.takeWhile q :=
  (prefix_iff_eq_take.1 ( takeWhile_prefix q)).symm

/-- The part of a batch that lies in the span of a leaf. -/
abbrev runOf (lo hi : NodeEntry) (batch : List Pair) : List Pair :=
  batch.takeWhile fun y => inSpan lo hi y.1

lemma inSpan_of_mem_runOf {y : Pair} (hy : y ∈ runOf lo hi batch) :
    lo.key ≤ y.1 ∧ y.1 ≤ hi.key := by
  have hall := all_takeWhile (p := fun y : Pair => inSpan lo hi y.1) (l := batch)
  have hspan := all_eq_true.1 hall y hy
  simpa [inSpan] using hspan

lemma takes_mergeBatch (hl : KeySorted l) (hlo : l.head? = some lo) (hhi : l.getLast? = some hi)
    (hin : inSpan lo hi x.1 = true) (hsorted : (x :: batch).Pairwise fun y z => y.1 ≤ z.1) :
    ∃ added, Takes x (runOf lo hi (x :: batch)) added l
      ((mergeBatch (Leaf.pairs l) (runOf lo hi (x :: batch))).map .plain) := by
  obtain ⟨added, hsub, hperm, hmem⟩ := mergeBatch_spec (Leaf.pairs l) (runOf lo hi (x :: batch))
  refine ⟨added, ⟨?_, by simpa using hperm, by simp [hin], hsub, by simpa using hmem,
    fun y hy => .inr ?_⟩⟩
  · rw [keySorted_iff_pairs, pairs_plain]
    exact mergeBatch_sorted (keySorted_iff_pairs.1 hl) (hsorted.sublist (takeWhile_sublist _))
  · have hspan := inSpan_of_mem_runOf (hsub.subset hy)
    exact ⟨lo, mem_of_head? hlo, hi, mem_of_getLast? hhi, hspan.1, hspan.2⟩

lemma mergeInto_spec {combined added : List Pair} {m : Nat} (ht : t.Ordered)
    (htakes : Takes x done added (t.flat.pick (insertRoute x.1)) (combined.map .plain))
    (h : insertBatch.mergeInto pageSize t x.1 combined x n = .ok (t', m)) :
    PutAt (insertRoute x.1) x done added t t' ∧ m = n ∨ t.insert pageSize x = .ok t' ∧ m = 1 := by
  unfold insertBatch.mergeInto at h
  split at h
  · obtain ⟨t1, h1, h⟩ := bind_eq_ok.1 h
    obtain ⟨r, hr, hflat⟩ := insertAt_flat ht h1
    cases h
    cases hr
    exact .inl ⟨⟨_, _, htakes, .inl rfl, hflat⟩, rfl⟩
  · next hbig =>
    split at h
    · obtain ⟨t1, h1, h⟩ := bind_eq_ok.1 h
      obtain ⟨r, hr, hflat⟩ := insertAt_flat ht h1
      cases h
      exact .inl ⟨⟨_, _, htakes, splitLeaf_divided (by omega) hr, hflat⟩, rfl⟩
    · obtain ⟨t1, h1, ⟨⟩⟩ := bind_eq_ok.1 h
      exact .inr ⟨h1, rfl⟩

/-- **`insert_batch_in_txn`** consumes nothing where the leaf does not span the first key, and at
least one entry otherwise. -/
theorem insertBatch_spec (ht : t.Ordered) (hsorted : (x :: batch).Pairwise fun y z => y.1 ≤ z.1)
    (h : t.insertBatch pageSize (x :: batch) = .ok (t', n)) : t' = t ∧ n = 0 ∧ t.OutOfSpan x.1 ∨
      0 < n ∧ n ≤ (x :: batch).length ∧ ∃ new, Consumed x ((x :: batch).take n) new t t' := by
  dsimp only [insertBatch] at h
  split at h
  · next lo hi hlo hhi =>
    split at h
    · next hout =>
      cases h
      exact .inl ⟨rfl, rfl, lo, hi, hlo, hhi, by simpa using hout⟩
    · next hin =>
      right
      have hin : inSpan lo hi x.1 = true := by simpa using hin
      rw [insertionLeaf_eq ht] at hlo hhi h
      obtain ⟨added, htakes⟩ := takes_mergeBatch (keySorted_pick ht _) hlo hhi hin hsorted
      rcases mergeInto_spec ht htakes h with ⟨hput, rfl⟩ | ⟨hins, rfl⟩
      · rw [take_takeWhile_length]
        exact ⟨by simp [hin], ( takeWhile_prefix _).length_le, _, .inl hput⟩
      · exact consumed_insert ht hins
  · obtain ⟨t1, h1, ⟨⟩⟩ := bind_eq_ok.1 h
    exact .inr (consumed_insert ht h1)

lemma runOf_cons {rest : List Pair} (h : 0 < (runOf lo hi (x :: rest)).length) :
    inSpan lo hi x.1 = true ∧ runOf lo hi (x :: rest) = x :: runOf lo hi rest := by
  cases hin : inSpan lo hi x.1 with
  | true => simp [hin]
  | false => simp [hin] at h

lemma take_runOf (hn : n ≤ (runOf lo hi batch).length) :
    (runOf lo hi batch).take n = batch.take n := by
  conv_lhs => rw [runOf, ← take_takeWhile_length, take_take, Nat.min_eq_left hn]

/-- **One pass of `insert_many_in_txn`** consumes at least one entry, unless the two descents end at
leaves of which the one spans the first key and the other does not. -/
theorem insertManyPass_spec {rest : List Pair} (ht : t.Ordered)
    (hsorted : (x :: rest).Pairwise fun y z => y.1 ≤ z.1)
    (h : t.insertManyPass pageSize (x :: rest) = .ok (t', n)) :
    t' = t ∧ n = 0 ∧ t.FoundInSpan x.1 ∧ t.OutOfSpan x.1 ∨
      0 < n ∧ n ≤ (x :: rest).length ∧ ∃ new, Consumed x ((x :: rest).take n) new t t' := by
  dsimp only [insertManyPass] at h
  split at h
  · next lo hi hlo hhi =>
    have hle : (runOf lo hi (x :: rest)).length ≤ (x :: rest).length :=
      ( takeWhile_prefix _).length_le
    have hbatch : 2 ≤ (runOf lo hi (x :: rest)).length →
        t.insertBatch pageSize (runOf lo hi (x :: rest)) = .ok (t', n) →
        t' = t ∧ n = 0 ∧ t.FoundInSpan x.1 ∧ t.OutOfSpan x.1 ∨
          0 < n ∧ n ≤ (x :: rest).length ∧ ∃ new, Consumed x ((x :: rest).take n) new t t' := by
      intro hlen hok
      obtain ⟨hin, hrun⟩ := runOf_cons (by omega : 0 < (runOf lo hi (x :: rest)).length)
      have hrunsorted : (runOf lo hi (x :: rest)).Pairwise fun y z => y.1 ≤ z.1 :=
        hsorted.sublist (takeWhile_sublist _)
      rw [hrun] at hok hrunsorted
      rcases insertBatch_spec ht hrunsorted hok with ⟨rfl, rfl, hout⟩ | ⟨hpos, hn, hconsumed⟩
      · exact .inl ⟨rfl, rfl, ⟨lo, hi, hlo, hhi, hin⟩, hout⟩
      · rw [← hrun] at hn hconsumed
        rw [take_runOf hn] at hconsumed
        exact .inr ⟨hpos, hn.trans hle, hconsumed⟩
    unfold insertManyPass.absorb at h
    split at h
    · next hover => exact hbatch hover.1 h
    · split at h
      · split at h
        · next hlen => exact hbatch hlen h
        · obtain ⟨t1, h1, ⟨⟩⟩ := bind_eq_ok.1 h
          exact .inr (consumed_insert ht h1)
      · next xs m habs =>
        obtain ⟨t1, h1, ⟨⟩⟩ := bind_eq_ok.1 h
        right
        have hl := keySorted_pick ht (readRoute x.1)
        have hfound := And.intro hlo hhi
        rw [findLeaf_eq ht] at hlo hhi habs h1
        obtain ⟨k, added, hk, hkle, hsub, hperm, hxs, hmem, -⟩ :=
          absorbRun_spec (keySorted_iff_pairs.1 hl) habs
        obtain rfl : m + 1 = k := by omega
        obtain ⟨hin, hrun⟩ := runOf_cons (Nat.lt_of_lt_of_le m.succ_pos hkle)
        have hspan : ∀ y ∈ added, lo.key ≤ y.1 ∧ y.1 ≤ hi.key := fun y hy =>
          inSpan_of_mem_runOf (mem_of_mem_take (hsub.subset hy))
        have hfirst : x ∈ (runOf lo hi (x :: rest)).take (m + 1) := by
          rw [hrun]
          exact .head _
        rw [take_runOf hkle] at hsub hmem hfirst
        refine ⟨by omega, hkle.trans hle, added, .inr ⟨⟨lo, hi, hfound.1, hfound.2, hin⟩,
          attach _ xs, ⟨?_, ?_, hfirst, hsub, ?_, ?_⟩, (writeFound_flat ht h1).2⟩⟩
        · rw [keySorted_iff_pairs, pairs_attach]
          exact hxs
        · rwa [pairs_attach]
        · rw [pairs_attach]
          exact fun y hy => (hmem y hy).1
        · exact fun y hy => .inr ⟨lo, mem_of_head? hlo, hi, mem_of_getLast? hhi,
            (hspan y hy).1, (hspan y hy).2⟩
  · obtain ⟨t1, h1, ⟨⟩⟩ := bind_eq_ok.1 h
    exact .inr (consumed_insert ht h1)

lemma Consumed.ordered (h : Consumed x done new t t') (ht : t.Ordered) : t'.Ordered := by
  obtain ⟨p, hp, hput⟩ := h.putAt
  exact hput.ordered hp ht

lemma insertManyLoop_ordered {fuel : Nat} {sorted : List Pair} (ht : t.Ordered)
    (hsorted : sorted.Pairwise fun y z => y.1 ≤ z.1)
    (h : insertManyLoop pageSize fuel t sorted = some (.ok t')) : t'.Ordered := by
  fun_induction insertManyLoop pageSize fuel t sorted with
  | case1 =>
    cases h
    exact ht
  | case2 | case3 => cases h
  | case4 fuel t x rest t1 n hpass ih =>
    refine ih ?_ (hsorted.sublist (drop_sublist ..)) h
    rcases insertManyPass_spec ht hsorted hpass with ⟨rfl, -⟩ | ⟨-, -, new, hconsumed⟩
    · exact ht
    · exact hconsumed.ordered ht

lemma sorted_batch (batch : List Pair) :
    (batch.insertionSort fun x y => Pair.cmp x y ≠ .gt).Pairwise fun x y => x.1 ≤ y.1 := by
  have hle : ∀ x y : Pair, Pair.cmp x y ≠ .gt → x.1 ≤ y.1 := fun _ _ => Pair.le_of_cmp_ne_gt
  have hge : ∀ x y : Pair, ¬ Pair.cmp x y ≠ .gt → y.1 ≤ x.1 := fun x y h =>
    Pair.ge_of_cmp_ne_lt (by rw [not_not.1 h]; simp)
  have htrans : ∀ x y z : Pair, x.1 ≤ y.1 → y.1 ≤ z.1 → x.1 ≤ z.1 := fun _ _ _ => le_trans
  exact pairwise_insertionSort_of_refines htrans hle hge batch

/-! ## Rewritten leaves -/

/-- A leaf with no key that it did not have. -/
def NoNewKeys (l l' : Leaf) : Prop := (l'.map NodeEntry.key).Sublist (l.map NodeEntry.key)

lemma NoNewKeys.within {lo : WithBot OrderedValue} {hi : WithTop OrderedValue}
    (h : NoNewKeys l l') (hl : Sep.Within NodeEntry.key lo hi l) :
    Sep.Within NodeEntry.key lo hi l' := by
  have hmem : ∀ e ∈ l', ∃ a ∈ l, a.key = e.key := fun e he =>
    mem_map.1 (h.subset (mem_map_of_mem he))
  refine ⟨hl.bounds, ?_, fun e he => ?_, fun e he => ?_⟩
  · have hkeys := (pairwise_map).2 hl.sorted
    exact pairwise_map.1 (hkeys.sublist h)
  · obtain ⟨a, ha, heq⟩ := hmem e he
    exact heq ▸ hl.ge a ha
  · obtain ⟨a, ha, heq⟩ := hmem e he
    exact heq ▸ hl.le a ha

lemma writeFound_ordered (ht : t.Ordered) (hkeys : NoNewKeys (t.findLeaf key) l)
    (h : t.writeFound pageSize key l = .ok t') : t'.Ordered := by
  rw [Ordered, (writeFound_flat ht h).2]
  rw [findLeaf_eq ht] at hkeys
  exact Sep.Chain.replace ht fun lo hi _ _ hl => hkeys.within hl

lemma walk_flat (ht : t.Ordered) (h : t.root.walk step (readRoute key) = .write root) :
    t.flat.walk (readRoute key) step step = .write root.flat := by
  have hflat : (t.root.walk step (readRoute key)).map SepTree.flat =
      t.root.flat.walk (readRoute key) step step :=
    flat_walk (readRoute_closed key) t.root (Sep.Ordered.sorted_seps ht)
  rw [h] at hflat
  exact hflat.symm

lemma walk_ordered (ht : t.Ordered) (hstep : ∀ l l', step l = .write l' → NoNewKeys l l')
    (h : t.root.walk step (readRoute key) = .write root) : (⟨t.height, root⟩ : BPlusTree).Ordered :=
  Sep.Chain.walk ht (fun _ _ l l' hl hw => (hstep l l' hw).within hl) (walk_flat ht h)

def Patch.oldPair (p : Patch) : Pair := (p.key, p.old)

def Patch.newPair (p : Patch) : Pair := (p.key, p.new)

def Redirected (p : Patch) (l l' : Leaf) : Prop :=
  ∃ pre e post, l = pre ++ e :: post ∧ e.pair = p.oldPair ∧
    l' = pre ++ { e with rid := p.new } :: post

lemma Redirected.cons {p : Patch} (h : Redirected p l l') (e : NodeEntry) :
    Redirected p (e :: l) (e :: l') := by
  obtain ⟨pre, a, post, rfl, ha, rfl⟩ := h
  exact ⟨e :: pre, a, post, rfl, ha, rfl⟩

lemma Redirected.keys {p : Patch} (h : Redirected p l l') :
    l'.map NodeEntry.key = l.map NodeEntry.key := by
  obtain ⟨pre, e, post, rfl, -, rfl⟩ := h
  simp

lemma patchLeaf_redirected {p : Patch} (h : patchLeaf p l = some l') : Redirected p l l' := by
  induction l generalizing l' with
  | nil => cases h
  | cons e l ih =>
    unfold patchLeaf at h
    split at h
    · next he =>
      cases h
      exact ⟨[], e, l, rfl, Prod.ext he.1 he.2, rfl⟩
    · obtain ⟨l1, h1, rfl⟩ := map_eq_some_iff.1 h
      exact (ih h1).cons e

lemma patchRun_keys {ps : List Patch} {m m' : Bool} {fs fs' : List Pair}
    (h : patchRun l m fs ps = (l', m', fs')) : l'.map NodeEntry.key = l.map NodeEntry.key := by
  induction ps generalizing l m fs with
  | nil =>
    cases h
    rfl
  | cons p ps ih =>
    unfold patchRun at h
    split at h
    · next l1 h1 => rw [ih h, (patchLeaf_redirected h1).keys]
    · exact ih h

lemma inplaceStep_redirected {old new : RowId} (h : inplaceStep key old new l = .write l') :
    Redirected ⟨key, old, new⟩ l l' := by
  induction l generalizing l' with
  | nil => cases h
  | cons e l ih =>
    unfold inplaceStep at h
    split at h
    · cases h
    · split at h
      · next he =>
        cases h
        exact ⟨[], e, l, rfl, Prod.ext he.1 he.2, rfl⟩
      · cases hw : inplaceStep key old new l with
        | write l1 =>
          rw [hw] at h
          cases h
          exact (ih hw).cons e
        | _ =>
          rw [hw] at h
          cases h

lemma removeStep_keys (h : removeStep x l = .write l') : NoNewKeys l l' := by
  unfold removeStep at h
  split at h
  · cases h
    exact (eraseP_sublist ..).map _
  · split at h <;> cases h

lemma insert_ordered (ht : t.Ordered) (h : t.insert pageSize x = .ok t') : t'.Ordered :=
  insertWithInclude_ordered ht h

lemma patchManyPass_ordered {sorted : List Patch} (ht : t.Ordered)
    (h : t.patchManyPass pageSize sorted = .ok (t', n)) : t'.Ordered := by
  cases sorted with
  | nil =>
    cases h
    exact ht
  | cons p sorted =>
    dsimp only [patchManyPass] at h
    split at h
    · obtain ⟨t1, h1, ⟨⟩⟩ := bind_eq_ok.1 h
      unfold patchManyPass.writePatched at h1
      split at h1
      · next l fallbacks hrun =>
        obtain ⟨t2, h2, h1⟩ := bind_eq_ok.1 h1
        refine insertAll_ordered (writeFound_ordered ht ?_ h2) h1
        rw [NoNewKeys, patchRun_keys hrun]
      · exact insertAll_ordered ht h1
    · obtain ⟨t1, h1, ⟨⟩⟩ := bind_eq_ok.1 h
      exact insert_ordered ht h1

lemma patchManyLoop_ordered {fuel : Nat} {sorted : List Patch} (ht : t.Ordered)
    (h : patchManyLoop pageSize fuel t sorted = some (.ok t')) : t'.Ordered := by
  fun_induction patchManyLoop pageSize fuel t sorted with
  | case1 =>
    cases h
    exact ht
  | case2 | case3 => cases h
  | case4 fuel t p rest t1 n hpass ih => exact ih (patchManyPass_ordered ht hpass) h

lemma updateRowidInplace_ordered {old new : RowId} (ht : t.Ordered)
    (h : t.updateRowidInplace pageSize key old new = .ok t') : t'.Ordered := by
  unfold updateRowidInplace at h
  split at h
  · next root hw =>
    cases h
    refine walk_ordered ht (fun l l' hl => ?_) hw
    rw [NoNewKeys, (inplaceStep_redirected hl).keys]
  · exact insert_ordered ht h

lemma remove_ordered (x : Pair) (ht : t.Ordered) : (t.remove x).Ordered := by
  unfold remove
  split
  · next root hw => exact walk_ordered ht (fun l l' hl => removeStep_keys hl) hw
  · exact ht

/-! ## Runs of calls -/

lemma create_ordered : create.Ordered := by
  have hnil : Sep.Within key ⊥ ⊤ [] := ⟨by simp, .nil, by simp, by simp⟩
  exact hnil

theorem callStep_ordered {c : Call × Nat} (ht : t.Ordered)
    (h : callStep pageSize t c = some t') : t'.Ordered := by
  obtain ⟨c, fuel⟩ := c
  unfold callStep at h
  split at h
  · next t1 hrun =>
    cases h
    cases c with
    | insert x => exact insert_ordered ht (some.inj hrun)
    | insertWithInclude e => exact insertWithInclude_ordered ht (some.inj hrun)
    | insertMany batch => exact insertManyLoop_ordered ht (sorted_batch batch) hrun
    | insertManyWithInclude batch => exact insertAll_ordered ht (some.inj hrun)
    | patchMany patches => exact patchManyLoop_ordered ht hrun
    | updateRowidInplace key old new =>
      exact updateRowidInplace_ordered ht (some.inj hrun)
    | remove x =>
      cases some.inj hrun
      exact remove_ordered x ht
  · cases h

lemma ordered_of_reached {ok : BPlusTree → Call × Nat → Prop}
    (h : Reached (callStep pageSize) ok create t) : t.Ordered :=
  h.invariant Ordered create_ordered fun _ _ _ ht _ hstep => callStep_ordered ht hstep

end BPlusTree

end UniDb
