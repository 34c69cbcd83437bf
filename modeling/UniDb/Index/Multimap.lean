import UniDb.Index.Fit
import UniDb.Index.Search
import UniDb.Lib.Exchange

/-!
# The tree as a set of pairs (`btree_index.rs`)

What calls do to a set of (key, row id) pairs (`Call.apply`), and for which calls the tree does the
same. A single insert looks for its pair in one leaf and by a binary search, a patch in one leaf, a
removal up to the first empty leaf; batches compare with the leaf they merge into. So a call is
`Safe` if the pairs it brings are not there or are found where it looks, and the pairs it takes away
are not there or are found.
-/

set_option maxRecDepth 100000

namespace UniDb

open List NodeEntry UniDb.Sep Prod

namespace BPlusTree

variable {pageSize km kM P b : Nat} {t t' : BPlusTree} {A : Set Pair}

/-! ## Calls on a set of pairs -/

/-- A patch replaces a present pair and otherwise inserts the new one. -/
def patchSet (A : Set Pair) (p : Patch) : Set Pair := A \ {p.oldPair} ∪ {p.newPair}

def Call.apply (A : Set Pair) : Call → Set Pair
  | .insert x => A ∪ {x}
  | .insertWithInclude e => A ∪ {e.pair}
  | .insertMany batch => A ∪ {x | x ∈ batch}
  | .insertManyWithInclude batch => A ∪ {x | x ∈ batch.map pair}
  | .patchMany patches => patches.foldl patchSet A
  | .updateRowidInplace key old new => patchSet A ⟨key, old, new⟩
  | .remove x => A \ {x}

def modelStep (pageSize : Nat) (s : BPlusTree × Set Pair) (c : Call × Nat) :
    Option (BPlusTree × Set Pair) :=
  (callStep pageSize s.1 c).map fun t => (t, c.1.apply s.2)

variable {ps sorted : List Patch} {olds news batch : List Pair} {e : NodeEntry} {p : Patch}
  {l l' : Leaf} {cap fuel : Nat} {key : OrderedValue} {step : Leaf → Walk Leaf} {x : Pair}
  {old new : RowId}

lemma mem_foldl_patchSet (h : ∀ p ∈ ps, ∀ q ∈ ps, p.newPair ≠ q.oldPair) (x : Pair) :
    x ∈ ps.foldl patchSet A ↔ x ∈ ps.map Patch.newPair ∨ x ∈ A ∧ x ∉ ps.map Patch.oldPair := by
  induction ps generalizing A with
  | nil => simp
  | cons p ps ih =>
    have hrest := ih (A := patchSet A p) fun q hq r hr => h q (.tail _ hq) r (.tail _ hr)
    have hnew : x = p.newPair → x ∉ ps.map Patch.oldPair := by
      rintro rfl hmem
      obtain ⟨q, hq, heq⟩ := mem_map.1 hmem
      exact h p (.head _) q (.tail _ hq) heq.symm
    rw [foldl_cons, hrest]
    simp only [patchSet, Set.mem_union, Set.mem_sdiff, map_cons,
      mem_cons, not_or]
    tauto

/-! ## Safe calls -/

section
variable (t : BPlusTree)

/-- The pair is not there, or the binary search in the leaf of the insert descent finds it. -/
def InsertSafe (x : Pair) : Prop :=
  x ∉ t.pairs ∨ (binarySearchBy (fun e => Pair.cmp e.pair x) (t.insertionLeaf x.1)).isOk = true

local instance : LawfulBEq Pair := inferInstance

/-- The new pair is not there; or it is the old one, or an insert takes the place of the redirection
and finds it. -/
def InplaceSafe (key : OrderedValue) (old new : RowId) : Prop :=
  if (key, old) ∈ t.pairs then new = old ∨ (key, new) ∉ t.pairs else t.InsertSafe (key, new)

/-- The pairs that `remove` can find: those of the leaves up to the first empty one. -/
def removable (k : OrderedValue) : List Pair :=
  Leaf.pairs ((t.root.itemsFrom (readRoute k)).takeWhile fun l => !l.isEmpty).flatten

/-- New pairs that are not there, each once. -/
structure Fresh (t : BPlusTree) (xs : List Pair) : Prop where
  nodup : xs.Nodup
  absent : ∀ x ∈ xs, x ∉ t.pairs

/-- Patches that bring fresh pairs: all find their old pair in the leaf of the read descent, or the
old pairs are not there at all. -/
structure PatchesSafe (t : BPlusTree) (ps : List Patch) : Prop where
  fresh : t.Fresh (ps.map Patch.newPair)
  distinct : ∀ p ∈ ps, ∀ q ∈ ps, p.newPair ≠ q.oldPair
  found : (ps.map Patch.oldPair).Nodup ∧ (∀ p ∈ ps, p.oldPair ∈ Leaf.pairs (t.findLeaf p.key)) ∨
    ∀ p ∈ ps, p.oldPair ∉ t.pairs

/-- **Calls that do to the tree what they do to the set.** A batch insert must also not run into a
gap. -/
def Call.Safe : Call → Prop
  | .insert x => t.InsertSafe x
  | .insertWithInclude e => t.InsertSafe e.pair
  | .insertMany batch => t.Fresh batch ∧ ∀ q, (∃ x ∈ batch, x.1 ≤ q) → ¬ t.Gap q
  | .insertManyWithInclude batch => t.Fresh (batch.map pair)
  | .patchMany patches => t.PatchesSafe patches
  | .updateRowidInplace key old new => t.InplaceSafe key old new
  | .remove x => x ∉ t.pairs ∨ x ∈ t.removable x.1

/-- Keys from `km` to `kM` bytes, payloads up to `P` bytes, batch inserts of up to `b` pairs. -/
def Call.InBounds (km kM P b : Nat) : Call → Prop
  | .insert x => KeyFits km kM x.1
  | .insertWithInclude e => EntryFits km kM P e
  | .insertMany batch => batch.length ≤ b ∧ ∀ x ∈ batch, KeyFits km kM x.1
  | .insertManyWithInclude batch => ∀ e ∈ batch, EntryFits km kM P e
  | .patchMany patches => ∀ p ∈ patches, KeyFits km kM p.key
  | .updateRowidInplace key _ _ => KeyFits km kM key
  | .remove _ => True

/-! ## Exchanges of pairs -/

/-- The tree exchanged pairs, and all is still in order. -/
structure Becomes (pageSize km kM P : Nat) (olds news : List Pair) (t t' : BPlusTree) : Prop where
  ordered : t'.Ordered
  fits : TreeFits pageSize km kM P t'.root
  pairs : Exchanged olds news t.pairs t'.pairs

end

lemma Becomes.trans {t1 t2 : BPlusTree} {olds' news' : List Pair}
    (h : Becomes pageSize km kM P olds news t t1)
    (h' : Becomes pageSize km kM P olds' news' t1 t2) (hdisj : ∀ x ∈ news, x ∉ olds') :
    Becomes pageSize km kM P (olds ++ olds') (news ++ news') t t2 :=
  ⟨h'.ordered, h'.fits, h.pairs.trans h'.pairs hdisj⟩

lemma Denotes.exchange (h : t.Denotes A) (hpairs : Exchanged olds news t.pairs t'.pairs)
    (hnews : news.Nodup) (habsent : ∀ x ∈ news, x ∈ t.pairs → x ∈ olds) :
    t'.Denotes {x | x ∈ news ∨ x ∈ A ∧ x ∉ olds} := by
  obtain ⟨hnodup, hmem⟩ := hpairs.nodup_and_mem h.nodup hnews habsent
  refine ⟨hnodup, fun x => ?_⟩
  rw [hmem, h.mem]
  rfl

/-! ## Inserts -/

lemma Fresh.left {xs ys : List Pair} (h : t.Fresh (xs ++ ys)) : t.Fresh xs :=
  ⟨(nodup_append.1 h.nodup).1, fun x hx => h.absent x (mem_append_left _ hx)⟩

lemma Fresh.right {xs ys : List Pair} (h : t.Fresh (xs ++ ys))
    (hpairs : ∀ x ∈ t'.pairs, x ∈ xs ∨ x ∈ t.pairs) : t'.Fresh ys := by
  obtain ⟨-, hnodup, hacross⟩ := nodup_append.1 h.nodup
  refine ⟨hnodup, fun x hx hmem => ?_⟩
  rcases hpairs x hmem with hold | hold
  · exact hacross x hold x hx rfl
  · exact h.absent x (mem_append_right _ hx) hold

lemma mem_pairs_of_pick {p : OrderedValue → Bool} (h : x ∈ Leaf.pairs (t.flat.pick p)) :
    x ∈ t.pairs := by
  obtain ⟨e, he, heq⟩ := mem_pairs.1 h
  exact mem_pairs.2 ⟨e, mem_flatten.2 ⟨_, pick_mem _ _, he⟩, heq⟩

lemma insert_found (hroom : Roomy (bodyCapacity pageSize) km kM P b) (hord : t.Ordered)
    (ht : TreeFits pageSize km kM P t.root) (he : EntryFits km kM P e)
    (hfound : (binarySearchBy (fun a => Pair.cmp a.pair e.pair) (t.insertionLeaf e.key)).isOk =
      true) : ∃ t', t.insertWithInclude pageSize e = .ok t' ∧ e.pair ∈ t.pairs ∧
      Becomes pageSize km kM P [] [] t t' := by
  obtain ⟨t', hok, hfits⟩ := insertWithInclude_ok hroom ht he
  obtain ⟨r, hop, hflat⟩ := insertAt_flat hord hok
  rw [insertionLeaf_eq hord] at hfound
  unfold insertLeaf at hop
  split at hop
  · next i hi =>
    cases hop
    rw [replace_pick] at hflat
    obtain ⟨a, ha, heq⟩ := binarySearchBy_ok hi
    refine ⟨t', hok, mem_pairs_of_pick (mem_pairs.2 ⟨a, ha, Pair.cmp_eq_iff.1 heq⟩),
      by rw [Ordered, hflat]; exact hord, hfits, ?_⟩
    rw [pairs, pairs, entries, entries, hflat]
    exact .refl _
  · next pos hpos =>
    rw [hpos] at hfound
    cases hfound

theorem Passes.pairs (h : Passes t batch t') (hfresh : t.Fresh batch) :
    t'.pairs.Perm (batch ++ t.pairs) := by
  induction h with
  | nil => exact .refl _
  | @cons t t1 t2 x done new rest hconsumed _ ih =>
    have hdone := hfresh.left.nodup
    obtain ⟨p, -, hput⟩ := hconsumed.putAt
    obtain ⟨hperm, hmem⟩ := hput.pairs
    obtain ⟨c, -, htakes, -, -⟩ := hput
    -- All of the consumed pairs are new.
    have hnew : new.Perm done := by
      refine (perm_ext_iff_of_nodup (htakes.sub.nodup hdone) hdone).2 fun y => ?_
      refine ⟨fun hy => htakes.sub.subset hy, fun hy => ?_⟩
      rcases mem_append.1 (hperm.mem_iff.1 (hmem y hy)) with hin | hin
      · exact hin
      · exact absurd hin (hfresh.absent y (mem_append_left _ hy))
    have hpairs1 : t1.pairs.Perm (done ++ t.pairs) := hperm.trans (hnew.append_right _)
    have hfresh1 := hfresh.right fun y hy => mem_append.1 (hpairs1.mem_iff.1 hy)
    refine (ih hfresh1).trans ((hpairs1.append_left rest).trans ?_)
    rw [append_assoc]
    exact perm_append_comm_assoc ..

lemma Passes.becomes (h : Passes t batch t') (hord : t.Ordered)
    (hfits : TreeFits pageSize km kM P t'.root) (hfresh : t.Fresh batch) :
    Becomes pageSize km kM P [] batch t t' :=
  ⟨h.ordered hord, hfits, .of_added (h.pairs hfresh)⟩

/-! ## Redirected entries -/

lemma Redirected.pairs (h : Redirected p l l') :
    Exchanged [p.oldPair] [p.newPair] (Leaf.pairs l) (Leaf.pairs l') := by
  obtain ⟨pre, e, post, rfl, he, rfl⟩ := h
  have hkey : e.key = p.key := congrArg fst he
  have hnew : ({ e with rid := p.new } : NodeEntry).pair = p.newPair := Prod.ext hkey rfl
  simp only [Leaf.pairs, map_append, map_cons, he, hnew]
  exact .of_middle ..

lemma Redirected.fits (h : Redirected p l l') (hl : LeafFits cap km kM P l) :
    LeafFits cap km kM P l' := by
  obtain ⟨pre, e, post, rfl, -, rfl⟩ := h
  have hbody := hl.body
  obtain ⟨hpre, hrest⟩ := forall_mem_append.1 hl.entries
  obtain ⟨he, hpost⟩ := forall_mem_cons.1 hrest
  refine ⟨?_, forall_mem_append.2 ⟨hpre, forall_mem_cons.2 ⟨⟨he.key, he.payload⟩, hpost⟩⟩⟩
  simpa [Leaf.bodyLen, len] using hbody

lemma patchLeaf_eq_none : patchLeaf p l = none ↔ p.oldPair ∉ Leaf.pairs l := by
  induction l with
  | nil => simp [patchLeaf, Leaf.pairs]
  | cons e l ih =>
    have hpair : e.pair = p.oldPair ↔ e.key = p.key ∧ e.rid = p.old := Prod.ext_iff
    unfold patchLeaf
    split
    · next he => simp [Leaf.pairs, hpair.2 he]
    · next he =>
      rw [Option.map_eq_none_iff, ih]
      simp only [Leaf.pairs, map_cons, mem_cons, not_or]
      exact ⟨fun h => ⟨fun heq => he (hpair.1 heq.symm), h⟩, fun h => h.2⟩

/-- **The inner loop of `patch_many`** where all patches find their pair in the leaf. -/
theorem patchRun_found (m : Bool) (fs : List Pair) (hl : LeafFits cap km kM P l)
    (hnodup : (ps.map Patch.oldPair).Nodup) (hdistinct : ∀ p ∈ ps, ∀ q ∈ ps, p.newPair ≠ q.oldPair)
    (hfound : ∀ p ∈ ps, p.oldPair ∈ Leaf.pairs l) :
    ∃ l', patchRun l m fs ps = (l', m || !ps.isEmpty, fs) ∧ LeafFits cap km kM P l' ∧
      Exchanged (ps.map Patch.oldPair) (ps.map Patch.newPair) (Leaf.pairs l) (Leaf.pairs l') := by
  induction ps generalizing l m with
  | nil => exact ⟨l, by simp [patchRun], hl, .refl _⟩
  | cons p ps ih =>
    obtain ⟨hp, hnodup⟩ := nodup_cons.1 hnodup
    cases hpatch : patchLeaf p l with
    | none => exact absurd (hfound p (.head _)) (patchLeaf_eq_none.1 hpatch)
    | some l1 =>
      have hred := patchLeaf_redirected hpatch
      have hfound1 : ∀ q ∈ ps, q.oldPair ∈ Leaf.pairs l1 := by
        intro q hq
        refine hred.pairs.mem_of_mem (hfound q (.tail _ hq)) fun hmem => hp ?_
        rw [← mem_singleton.1 hmem]
        exact mem_map_of_mem hq
      obtain ⟨l', hrun, hfits, hpairs⟩ := ih true (hred.fits hl) hnodup
        (fun q hq r hr => hdistinct q (.tail _ hq) r (.tail _ hr)) hfound1
      refine ⟨l', by simp [patchRun, hpatch, hrun], hfits, hred.pairs.trans hpairs fun x hx hmem =>
        ?_⟩
      obtain ⟨q, hq, heq⟩ := mem_map.1 hmem
      rw [mem_singleton.1 hx] at heq
      exact hdistinct p (.head _) q (.tail _ hq) heq.symm

lemma patchRun_absent (m : Bool) (fs : List Pair) (h : ∀ p ∈ ps, p.oldPair ∉ Leaf.pairs l) :
    patchRun l m fs ps = (l, m, fs ++ ps.map Patch.newPair) := by
  induction ps generalizing fs with
  | nil => simp [patchRun]
  | cons p ps ih =>
    have hrest := ih (fs ++ [p.newPair]) fun q hq => h q (.tail _ hq)
    simp only [patchRun, patchLeaf_eq_none.2 (h p (.head _))]
    rw [show (p.key, p.new) = p.newPair from rfl, hrest]
    simp

/-! ## Patches in one leaf -/

lemma findLeaf_of_span (ht : t.Ordered) {k q : OrderedValue} {hi : NodeEntry} (hkq : k ≤ q)
    (hhi : (t.findLeaf k).getLast? = some hi) (hq : q ≤ hi.key) : t.findLeaf q = t.findLeaf k := by
  rw [findLeaf_eq ht] at hhi
  rw [findLeaf_eq ht, findLeaf_eq ht]
  obtain ⟨pre, post, hs, hpre, -, -⟩ := t.flat.exists_place (readRoute k)
  have hpass : ∀ x ∈ pre, readRoute q x.2 = true := fun x hx => by
    have hlt : x.2 < k := by simpa [readRoute] using hpre x hx
    simpa [readRoute] using lt_of_lt_of_le hlt hkq
  obtain ⟨lo, hchain, -⟩ := Sep.Chain.of_consAll hs ht
  rw [pick_consAll hs hpass]
  refine pick_of_stop fun x hx => ?_
  cases post with
  | nil => cases hx
  | cons y post =>
    cases hx
    have hle : hi.key ≤ x.1 := WithTop.coe_le_coe.1 (hchain.1.le hi (mem_of_getLast? hhi))
    simpa [readRoute] using hq.trans hle

lemma entries_writeFound (hflat : t'.flat = t.flat.replace (readRoute key) l none) :
    t.entries = (t.flat.before (readRoute key)).flatten ++
        (t.flat.pick (readRoute key) ++ (t.flat.after (readRoute key)).flatten) ∧
      t'.entries = (t.flat.before (readRoute key)).flatten ++
        (l ++ (t.flat.after (readRoute key)).flatten) := by
  constructor
  · rw [entries, items_eq t.flat (readRoute key), flatten_append, flatten_cons]
  · rw [entries, hflat, items_replace, flatten_append]
    rfl

/-- Patches whose pairs are all in one leaf are one write of that leaf. -/
lemma writePatched_found (hord : t.Ordered) (ht : TreeFits pageSize km kM P t.root)
    (hne : ps ≠ []) (hnodup : (ps.map Patch.oldPair).Nodup)
    (hdistinct : ∀ p ∈ ps, ∀ q ∈ ps, p.newPair ≠ q.oldPair)
    (hfound : ∀ p ∈ ps, p.oldPair ∈ Leaf.pairs (t.findLeaf key)) :
    ∃ t', patchManyPass.writePatched pageSize t key (patchRun (t.findLeaf key) false [] ps) =
        .ok t' ∧ Becomes pageSize km kM P (ps.map Patch.oldPair) (ps.map Patch.newPair) t t' ∧
      ∀ q : Patch, q.oldPair ∈ Leaf.pairs (t.findLeaf q.key) → q.oldPair ∉ ps.map Patch.oldPair →
        q.oldPair ∈ Leaf.pairs (t'.findLeaf q.key) := by
  have hleaf : LeafFits (bodyCapacity pageSize) km kM P (t.findLeaf key) := SepTree.every_pick _ ht
  obtain ⟨l', hrun, hl', hpairs⟩ := patchRun_found false [] hleaf hnodup hdistinct hfound
  have hmodified : (false || !ps.isEmpty) = true := by simpa using hne
  rw [hmodified] at hrun
  have hwrite : t.writeFound pageSize key l' = .ok ⟨t.height, t.root.set (readRoute key) l'⟩ := by
    rw [writeFound, writeLeaf_ok hl']
    rfl
  have hkeys : NoNewKeys (t.findLeaf key) l' := by
    rw [NoNewKeys, patchRun_keys hrun]
  have hord' := writeFound_ordered hord hkeys hwrite
  obtain ⟨-, hflat⟩ := writeFound_flat hord hwrite
  refine ⟨_, ?_, ⟨hord', SepTree.every_set hl' _ ht, ?_⟩, fun q hold hnot => ?_⟩
  · rw [hrun, patchManyPass.writePatched, hwrite]
    rfl
  · obtain ⟨hbefore, hafter⟩ := entries_writeFound hflat
    rw [BPlusTree.pairs, BPlusTree.pairs, hbefore, hafter, ← findLeaf_eq hord]
    simp only [map_append]
    exact hpairs.context _ _
  · rw [findLeaf_eq hord', hflat]
    rw [findLeaf_eq hord] at hold hpairs
    rcases pick_replace t.flat (readRoute key) (readRoute q.key) l' with heq | ⟨heq, hsame⟩
    · rwa [heq]
    · rw [heq]
      rw [hsame] at hold
      exact hpairs.mem_of_mem hold hnot

/-- The patches that the first pass over a sorted list takes in one go. -/
abbrev patchRunOf (lo hi : NodeEntry) (p : Patch) (rest : List Patch) : List Patch :=
  p :: rest.takeWhile fun q => inSpan lo hi q.key

lemma patchRunOf_append (lo hi : NodeEntry) (p : Patch) (rest : List Patch) :
    patchRunOf lo hi p rest ++
      (p :: rest).drop ((rest.takeWhile fun q => inSpan lo hi q.key).length + 1) = p :: rest := by
  have htake : (p :: rest).take ((rest.takeWhile fun q => inSpan lo hi q.key).length + 1) =
      patchRunOf lo hi p rest := by
    rw [take_succ_cons, take_takeWhile_length]
  rw [← htake, take_append_drop]

lemma exists_ends (he : e ∈ l) : ∃ lo hi, l.head? = some lo ∧ l.getLast? = some hi := by
  obtain ⟨k, hk⟩ := exists_headKey he
  obtain ⟨k', hk'⟩ := exists_lastKey he
  obtain ⟨lo, hlo, -⟩ := Option.map_eq_some_iff.1 hk
  obtain ⟨hi, hhi, -⟩ := Option.map_eq_some_iff.1 hk'
  exact ⟨lo, hi, hlo, hhi⟩

/-- A pass of patches that find their pairs writes one leaf and leaves the other pairs where they
are found. -/
lemma patchManyPass_found {rest : List Patch} (hord : t.Ordered)
    (ht : TreeFits pageSize km kM P t.root)
    (hsorted : (p :: rest).Pairwise fun p q => p.key ≤ q.key)
    (hnodup : ((p :: rest).map Patch.oldPair).Nodup)
    (hdistinct : ∀ q ∈ p :: rest, ∀ r ∈ p :: rest, q.newPair ≠ r.oldPair)
    (hfound : ∀ q ∈ p :: rest, q.oldPair ∈ Leaf.pairs (t.findLeaf q.key)) :
    ∃ run later t1, p :: rest = run ++ later ∧ run ≠ [] ∧
      t.patchManyPass pageSize (p :: rest) = .ok (t1, run.length) ∧
      Becomes pageSize km kM P (run.map Patch.oldPair) (run.map Patch.newPair) t t1 ∧
      ∀ q ∈ later, q.oldPair ∈ Leaf.pairs (t1.findLeaf q.key) := by
  obtain ⟨e, he, -⟩ := mem_pairs.1 (hfound p (.head _))
  obtain ⟨lo, hi, hlo, hhi⟩ := exists_ends he
  have hsplit := patchRunOf_append lo hi p rest
  have hrun : (patchRunOf lo hi p rest).Sublist (p :: rest) := (takeWhile_sublist _).cons_cons p
  -- all patches of the run have their pair in the leaf that the first one is looked for in
  have hleaf : ∀ q ∈ patchRunOf lo hi p rest, q.oldPair ∈ Leaf.pairs (t.findLeaf p.key) := by
    intro q hq
    rcases mem_cons.1 hq with rfl | hq'
    · exact hfound _ (.head _)
    · have hall := all_takeWhile (p := fun q : Patch => inSpan lo hi q.key) (l := rest)
      have hspan : lo.key ≤ q.key ∧ q.key ≤ hi.key := by
        simpa [inSpan] using all_eq_true.1 hall q hq'
      have hle := (pairwise_cons.1 hsorted).1 q ((takeWhile_sublist _).subset hq')
      rw [← findLeaf_of_span hord hle hhi hspan.2]
      exact hfound q (hrun.subset hq)
  obtain ⟨t1, hwrite, hb1, hkept⟩ := writePatched_found hord ht (by simp)
    (hnodup.sublist (hrun.map _))
    (fun q hq r hr => hdistinct q (hrun.subset hq) r (hrun.subset hr)) hleaf
  refine ⟨_, _, t1, hsplit.symm, by simp, ?_, hb1, fun q hq => ?_⟩
  · dsimp only [patchManyPass]
    rw [hlo, hhi]
    dsimp only
    rw [hwrite]
    rfl
  · refine hkept q (hfound q (mem_of_mem_drop hq)) fun hmem => ?_
    rw [← hsplit, map_append] at hnodup
    exact (nodup_append.1 hnodup).2.2 _ hmem _ (mem_map_of_mem hq) rfl

lemma length_later {l run later : List Patch} (heq : l = run ++ later) (hne : run ≠ [])
    (hfuel : l.length ≤ fuel + 1) : later.length ≤ fuel := by
  have hpos := length_pos_iff.2 hne
  rw [heq, length_append] at hfuel
  omega

/-- **`patch_many`** where all patches find their pairs. -/
theorem patchManyLoop_found (hord : t.Ordered) (ht : TreeFits pageSize km kM P t.root)
    (hsorted : sorted.Pairwise fun p q => p.key ≤ q.key) (hnodup : (sorted.map Patch.oldPair).Nodup)
    (hdistinct : ∀ p ∈ sorted, ∀ q ∈ sorted, p.newPair ≠ q.oldPair)
    (hfound : ∀ p ∈ sorted, p.oldPair ∈ Leaf.pairs (t.findLeaf p.key))
    (hfuel : sorted.length ≤ fuel) : ∃ t', patchManyLoop pageSize fuel t sorted = some (.ok t') ∧
      Becomes pageSize km kM P (sorted.map Patch.oldPair) (sorted.map Patch.newPair) t t' := by
  induction fuel generalizing t sorted with
  | zero =>
    obtain rfl := eq_nil_of_length_eq_zero (Nat.le_zero.1 hfuel)
    exact ⟨t, rfl, hord, ht, .refl _⟩
  | succ fuel ih =>
    cases sorted with
    | nil => exact ⟨t, rfl, hord, ht, .refl _⟩
    | cons p rest =>
      obtain ⟨run, later, t1, heq, hne, hpass, hb1, hfound1⟩ :=
        patchManyPass_found hord ht hsorted hnodup hdistinct hfound
      have hlen := length_later heq hne hfuel
      rw [patchManyLoop, hpass]
      dsimp only
      rw [heq] at hsorted hnodup hdistinct ⊢
      rw [drop_left, map_append, map_append]
      obtain ⟨t2, hloop, hb2⟩ := ih hb1.ordered hb1.fits
        (hsorted.sublist (sublist_append_right _ _))
        (hnodup.sublist ((sublist_append_right _ _).map _))
        (fun q hq r hr => hdistinct q (mem_append_right _ hq) r (mem_append_right _ hr)) hfound1
        hlen
      refine ⟨t2, hloop, hb1.trans hb2 fun x hx hmem => ?_⟩
      obtain ⟨q, hq, rfl⟩ := mem_map.1 hx
      obtain ⟨r, hr, heq⟩ := mem_map.1 hmem
      exact hdistinct q (mem_append_left _ hq) r (mem_append_right _ hr) heq.symm

/-! ## Patches of absent pairs -/

section
variable (hroom : Roomy (bodyCapacity pageSize) km kM P b) (hord : t.Ordered)
  (ht : TreeFits pageSize km kM P t.root)
include hroom hord ht

/-- Single inserts of new pairs. -/
lemma insertAll_newPairs (hkeys : ∀ p ∈ ps, KeyFits km kM p.key)
    (hfresh : t.Fresh (ps.map Patch.newPair)) :
    ∃ t1, t.insertAll pageSize ((ps.map Patch.newPair).map .plain) = .ok t1 ∧
      Becomes pageSize km kM P [] (ps.map Patch.newPair) t t1 := by
  have hpairs : ((ps.map Patch.newPair).map plain).map pair = ps.map Patch.newPair :=
    pairs_plain _
  have hsizes : ∀ e ∈ (ps.map Patch.newPair).map plain, EntryFits km kM P e := by
    intro e he
    obtain ⟨x, hx, rfl⟩ := mem_map.1 he
    obtain ⟨q, hq, rfl⟩ := mem_map.1 hx
    exact ⟨hkeys q hq, Nat.zero_le P⟩
  obtain ⟨t1, h1, hpasses, hfits⟩ := insertAll_passes hroom hord ht hsizes
  rw [hpairs] at hpasses
  exact ⟨t1, h1, hpasses.becomes hord hfits hfresh⟩

/-- A pass of patches that find nothing inserts the new pairs of a leading part of them. -/
lemma patchManyPass_absent {rest : List Patch} (hkeys : ∀ q ∈ p :: rest, KeyFits km kM q.key)
    (hfresh : t.Fresh ((p :: rest).map Patch.newPair))
    (habsent : ∀ q ∈ p :: rest, q.oldPair ∉ t.pairs) :
    ∃ run later t1, p :: rest = run ++ later ∧ run ≠ [] ∧
      t.patchManyPass pageSize (p :: rest) = .ok (t1, run.length) ∧
      Becomes pageSize km kM P [] (run.map Patch.newPair) t t1 := by
  have hinsert : ∀ run later, p :: rest = run ++ later →
      ∃ t1, t.insertAll pageSize ((run.map Patch.newPair).map .plain) = .ok t1 ∧
        Becomes pageSize km kM P [] (run.map Patch.newPair) t t1 := by
    intro run later heq
    rw [heq, map_append] at hfresh
    exact insertAll_newPairs hroom hord ht
      (fun q hq => hkeys q (heq ▸ mem_append_left _ hq)) hfresh.left
  cases hends : (t.findLeaf p.key).head? with
  | none =>
    obtain ⟨t1, h1, hb1⟩ := hinsert [p] rest rfl
    obtain ⟨t2, h2, h1⟩ := bind_eq_ok.1 h1
    cases h1
    refine ⟨[p], rest, t1, rfl, by simp, ?_, hb1⟩
    have hone : t.insert pageSize (p.key, p.new) = .ok t1 := h2
    dsimp only [patchManyPass]
    rw [hends]
    rw [hone]
    rfl
  | some lo =>
    obtain ⟨lo', hi, -, hhi⟩ := exists_ends (mem_of_head? hends)
    have hsplit := patchRunOf_append lo hi p rest
    obtain ⟨t1, h1, hb1⟩ := hinsert _ _ hsplit.symm
    refine ⟨_, _, t1, hsplit.symm, by simp, ?_, hb1⟩
    have hleaf : ∀ q ∈ patchRunOf lo hi p rest,
        q.oldPair ∉ Leaf.pairs (t.findLeaf p.key) := by
      intro q hq hmem
      have hq' : q ∈ p :: rest := hsplit ▸ mem_append_left _ hq
      refine habsent q hq' ?_
      rw [findLeaf_eq hord] at hmem
      exact mem_pairs_of_pick hmem
    dsimp only [patchManyPass]
    rw [hends, hhi]
    dsimp only
    rw [patchRun_absent false [] hleaf, patchManyPass.writePatched, nil_append, h1]
    rfl

end

/-- **`patch_many`** where no old pair is in the tree: single inserts of the new ones. -/
theorem patchManyLoop_absent (hroom : Roomy (bodyCapacity pageSize) km kM P b) (hord : t.Ordered)
    (ht : TreeFits pageSize km kM P t.root) (hkeys : ∀ p ∈ sorted, KeyFits km kM p.key)
    (hfresh : t.Fresh (sorted.map Patch.newPair))
    (hdistinct : ∀ p ∈ sorted, ∀ q ∈ sorted, p.newPair ≠ q.oldPair)
    (habsent : ∀ p ∈ sorted, p.oldPair ∉ t.pairs) (hfuel : sorted.length ≤ fuel) :
    ∃ t', patchManyLoop pageSize fuel t sorted = some (.ok t') ∧
      Becomes pageSize km kM P [] (sorted.map Patch.newPair) t t' := by
  induction fuel generalizing t sorted with
  | zero =>
    obtain rfl := eq_nil_of_length_eq_zero (Nat.le_zero.1 hfuel)
    exact ⟨t, rfl, hord, ht, .refl _⟩
  | succ fuel ih =>
    cases sorted with
    | nil => exact ⟨t, rfl, hord, ht, .refl _⟩
    | cons p rest =>
      obtain ⟨run, later, t1, heq, hne, hpass, hb1⟩ :=
        patchManyPass_absent hroom hord ht hkeys hfresh habsent
      have hlen := length_later heq hne hfuel
      have hpairs1 : ∀ x ∈ t1.pairs, x ∈ run.map Patch.newPair ∨ x ∈ t.pairs := by
        obtain ⟨rest', hxs, hys⟩ := hb1.pairs
        exact fun x hx => (mem_append.1 (hys.mem_iff.1 hx)).imp id hxs.mem_iff.2
      rw [patchManyLoop, hpass]
      dsimp only
      rw [heq] at hkeys hfresh hdistinct habsent ⊢
      rw [drop_left, map_append]
      rw [map_append] at hfresh
      have habsent1 : ∀ q ∈ later, q.oldPair ∉ t1.pairs := by
        intro q hq hmem
        rcases hpairs1 _ hmem with hmem | hmem
        · obtain ⟨r, hr, heq⟩ := mem_map.1 hmem
          exact hdistinct r (mem_append_left _ hr) q (mem_append_right _ hq) heq
        · exact habsent q (mem_append_right _ hq) hmem
      obtain ⟨t2, hloop, hb2⟩ := ih hb1.ordered hb1.fits
        (fun q hq => hkeys q (mem_append_right _ hq)) (hfresh.right hpairs1)
        (fun q hq r hr => hdistinct q (mem_append_right _ hq) r (mem_append_right _ hr)) habsent1
        hlen
      exact ⟨t2, hloop, hb1.trans hb2 (by simp)⟩

/-! ## Walks along the leaf chain -/

lemma walk_items (step : Leaf → Walk Leaf) (ht : t.Ordered) (key : OrderedValue) :
    (t.root.walk step (readRoute key)).map (fun root => root.flat.items) =
      (walkList step (t.root.itemsFrom (readRoute key))).map
        (t.flat.before (readRoute key) ++ ·) := by
  have hsorted := Sep.Ordered.sorted_seps ht
  have hflat : (t.root.walk step (readRoute key)).map SepTree.flat =
      t.root.flat.walk (readRoute key) step step :=
    SepTree.flat_walk (readRoute_closed key) t.root hsorted
  rw [SepTree.itemsFrom_eq_flat (readRoute_closed key) _ hsorted, flat, ← items_walk, ← hflat,
    Walk.map_map]

lemma walk_entries {root : SepTree OrderedValue Leaf t.height} (ht : t.Ordered)
    (h : t.root.walk step (readRoute key) = .write root) :
    ∃ front l l' back, t.entries = front ++ (l ++ back) ∧ step l = .write l' ∧
      (⟨t.height, root⟩ : BPlusTree).entries = front ++ (l' ++ back) := by
  have hitems := walk_items step ht key
  rw [h] at hitems
  cases hw : walkList step (t.root.itemsFrom (readRoute key)) with
  | write ls' =>
    rw [hw] at hitems
    have hitems : root.flat.items = t.flat.before (readRoute key) ++ ls' := Walk.write.inj hitems
    obtain ⟨pre, l, l', post, hls, hstep, rfl⟩ := walkList_write hw
    rw [SepTree.itemsFrom_eq_flat (readRoute_closed key) _ (Sep.Ordered.sorted_seps ht)] at hls
    refine ⟨(t.flat.before (readRoute key) ++ pre).flatten, l, l', post.flatten, ?_, hstep, ?_⟩
    · rw [entries, items_eq t.flat (readRoute key)]
      change (_ ++ t.root.flat.pick _ :: t.root.flat.after _).flatten = _
      rw [hls]
      simp
    · rw [entries, flat, hitems]
      simp
  | _ =>
    rw [hw] at hitems
    cases hitems

/-- **A walk that writes nothing**: the pair is in none of the leading leaves in which the step
would write it, if it stops only beyond the key. -/
theorem absent_of_walkList {q : Leaf → Bool} {ls : List Leaf} (hls : KeySorted ls.flatten)
    (hw : ∀ ls', walkList step ls ≠ .write ls')
    (hwrite : ∀ l, KeySorted l → x ∈ Leaf.pairs l → ∃ l', step l = .write l')
    (hstop : ∀ l, q l = true → step l = .stop → ∃ e ∈ l, x.1 < e.key) :
    x ∉ Leaf.pairs (ls.takeWhile q).flatten := by
  induction ls with
  | nil => simp [Leaf.pairs]
  | cons l ls ih =>
    rw [KeySorted, flatten_cons, pairwise_append] at hls
    obtain ⟨hl, hrest, hacross⟩ := hls
    have hnot : ∀ l', step l ≠ .write l' := fun l' hl' =>
      hw (l' :: ls) (by rw [walkList, hl']; rfl)
    intro hmem
    obtain ⟨e, he, heq⟩ := mem_pairs.1 hmem
    rw [takeWhile_cons] at he
    split at he
    · next hq =>
      rcases mem_append.1 he with he | he
      · obtain ⟨l', hl'⟩ := hwrite l hl (mem_pairs.2 ⟨e, he, heq⟩)
        exact hnot l' hl'
      · cases hs : step l with
        | write l' => exact hnot l' hs
        | stop =>
          obtain ⟨a, ha, hlt⟩ := hstop l hq hs
          obtain ⟨l1, hl1, he1⟩ := mem_flatten.1 he
          have hle := hacross a ha e (mem_flatten.2 ⟨l1, (takeWhile_sublist q).subset hl1, he1⟩)
          have hkey : e.key = x.1 := congrArg fst heq
          exact absurd hlt (not_lt_of_ge (hkey ▸ hle))
        | next =>
          refine ih hrest (fun ls' hls' => hw (l :: ls') ?_) (mem_pairs.2 ⟨e, he, heq⟩)
          rw [walkList, hs, hls']
          rfl
    · cases he

lemma not_write_of_walk (step : Leaf → Walk Leaf) (ht : t.Ordered)
    (h : ∀ root, t.root.walk step (readRoute key) ≠ .write root) :
    ∀ ls, walkList step (t.root.itemsFrom (readRoute key)) ≠ .write ls := by
  intro ls hls
  have hitems := walk_items step ht key
  rw [hls] at hitems
  cases hw : t.root.walk step (readRoute key) with
  | write root => exact h root hw
  | _ =>
    rw [hw] at hitems
    cases hitems

/-! ## Redirection in place -/

lemma inplaceStep_write (new : RowId) (hl : KeySorted l) (h : (key, old) ∈ Leaf.pairs l) :
    ∃ l', inplaceStep key old new l = .write l' := by
  induction l with
  | nil => cases h
  | cons e l ih =>
    obtain ⟨he, hl⟩ := pairwise_cons.1 hl
    unfold inplaceStep
    rcases mem_cons.1 h with heq | hmem
    · have hkey : key = e.key := congrArg fst heq
      have hrid : old = e.rid := congrArg snd heq
      rw [if_neg (not_lt_of_ge (le_of_eq hkey.symm)), if_pos ⟨hkey.symm, hrid.symm⟩]
      exact ⟨_, rfl⟩
    · obtain ⟨a, ha, heq⟩ := mem_pairs.1 hmem
      have hkey : a.key = key := congrArg fst heq
      rw [if_neg (not_lt_of_ge (hkey ▸ he a ha))]
      split
      · exact ⟨_, rfl⟩
      · obtain ⟨l', hl'⟩ := ih hl hmem
        rw [hl']
        exact ⟨_, rfl⟩

lemma inplaceStep_stop (h : inplaceStep key old new l = .stop) : ∃ e ∈ l, key < e.key := by
  induction l with
  | nil => cases h
  | cons e l ih =>
    unfold inplaceStep at h
    split at h
    · next hlt => exact ⟨e, .head _, hlt⟩
    · split at h
      · cases h
      · cases hs : inplaceStep key old new l with
        | stop =>
          obtain ⟨a, ha, hlt⟩ := ih hs
          exact ⟨a, .tail _ ha, hlt⟩
        | _ =>
          rw [hs] at h
          cases h

lemma mem_itemsFrom (ht : t.Ordered) (hx : x ∈ t.pairs) :
    x ∈ Leaf.pairs (t.root.itemsFrom (readRoute x.1)).flatten := by
  obtain ⟨front, hsplit, hfront⟩ := entries_split ht x.1
  obtain ⟨e, he, heq⟩ := mem_pairs.1 hx
  rw [hsplit] at he
  rcases mem_append.1 he with he | he
  · exact absurd (congrArg fst heq) (ne_of_lt (hfront e he))
  · exact mem_pairs.2 ⟨e, he, heq⟩

lemma sorted_itemsFrom (ht : t.Ordered) (k : OrderedValue) :
    KeySorted (t.root.itemsFrom (readRoute k)).flatten := by
  obtain ⟨front, hsplit, -⟩ := entries_split ht k
  have hsorted := sorted_entries ht
  rw [hsplit] at hsorted
  exact (pairwise_append.1 hsorted).2.1

/-- **`update_rowid_inplace` of a pair that is there** redirects it. -/
theorem updateRowidInplace_found (hord : t.Ordered) (ht : TreeFits pageSize km kM P t.root)
    (h : (key, old) ∈ t.pairs) : ∃ t', t.updateRowidInplace pageSize key old new = .ok t' ∧
      Becomes pageSize km kM P [(key, old)] [(key, new)] t t' := by
  cases hw : t.root.walk (inplaceStep key old new) (readRoute key) with
  | write root =>
    refine ⟨⟨t.height, root⟩, by rw [updateRowidInplace, hw], ?_, ?_, ?_⟩
    · refine walk_ordered hord (fun l l' hl => ?_) hw
      rw [NoNewKeys, (inplaceStep_redirected hl).keys]
    · exact SepTree.every_walk (fun l l' hl hs => (inplaceStep_redirected hs).fits hl) _ _ _ ht hw
    · obtain ⟨front, l, l', back, hbefore, hstep, hafter⟩ := walk_entries hord hw
      rw [pairs, pairs, hbefore, hafter]
      simp only [map_append]
      exact (Redirected.pairs (inplaceStep_redirected hstep)).context _ _
  | _ =>
    have hnone := not_write_of_walk (inplaceStep key old new) hord
      (fun root hroot => by rw [hw] at hroot; cases hroot)
    have habsent := absent_of_walkList (q := fun _ => true)
      (sorted_itemsFrom hord key) hnone (fun l hl hmem => inplaceStep_write new hl hmem)
      fun l _ hs => inplaceStep_stop hs
    rw [takeWhile_eq_self_iff.2 fun _ _ => rfl] at habsent
    exact absurd (mem_itemsFrom hord h) habsent

/-- **`update_rowid_inplace` of a pair that is not there** inserts the new one. -/
theorem updateRowidInplace_absent (hord : t.Ordered) (h : (key, old) ∉ t.pairs) :
    t.updateRowidInplace pageSize key old new = t.insert pageSize (key, new) := by
  cases hw : t.root.walk (inplaceStep key old new) (readRoute key) with
  | write root =>
    obtain ⟨front, l, l', back, hbefore, hstep, -⟩ := walk_entries hord hw
    obtain ⟨pre, e, post, rfl, he, -⟩ := inplaceStep_redirected hstep
    refine absurd (mem_pairs.2 ⟨e, ?_, he⟩) h
    rw [hbefore]
    simp
  | _ => rw [updateRowidInplace, hw]

/-! ## Removal -/

lemma removeStep_write (h : removeStep x l = .write l') :
    x ∈ Leaf.pairs l ∧ l' = l.eraseP fun e => e.pair = x := by
  unfold removeStep at h
  split at h
  · next hmem =>
    cases h
    exact ⟨hmem, rfl⟩
  · split at h <;> cases h

lemma removeStep_stop (hne : l ≠ []) (h : removeStep x l = .stop) : ∃ e ∈ l, x.1 < e.key := by
  unfold removeStep at h
  split at h
  · cases h
  · split at h
    · next hlast =>
      obtain ⟨e, he⟩ : ∃ e, l.getLast? = some e := ⟨_, getLast?_eq_some_getLast hne⟩
      exact ⟨e, mem_of_getLast? he, hlast e he⟩
    · cases h

lemma eraseP_pairs (h : x ∈ Leaf.pairs l) :
    Exchanged [x] [] (Leaf.pairs l) (Leaf.pairs (l.eraseP fun e => e.pair = x)) := by
  obtain ⟨e, he, heq⟩ := mem_pairs.1 h
  obtain ⟨a, pre, post, -, ha, hl, herase⟩ := exists_of_eraseP (p := fun e => decide (e.pair = x))
    he (by simpa using heq)
  have ha : a.pair = x := by simpa using ha
  rw [herase, hl]
  simp only [Leaf.pairs, map_append, map_cons, ha]
  exact .of_middle _ [x] [] _

lemma eraseP_fits (q : NodeEntry → Bool) (hl : LeafFits cap km kM P l) :
    LeafFits cap km kM P (l.eraseP q) := by
  have hsub : (l.eraseP q).Sublist l := eraseP_sublist
  have hsum : ((l.eraseP q).map len).sum ≤ (l.map len).sum :=
    (hsub.map len).sum_le_sum fun _ _ => Nat.zero_le _
  have hbody := hl.body
  refine ⟨?_, fun e he => hl.entries e (hsub.subset he)⟩
  rw [Leaf.bodyLen] at hbody ⊢
  omega

lemma remove_found (hord : t.Ordered) (ht : TreeFits pageSize km kM P t.root)
    (h : x ∈ t.removable x.1) : Becomes pageSize km kM P [x] [] t (t.remove x) := by
  cases hw : t.root.walk (removeStep x) (readRoute x.1) with
  | write root =>
    have hroot : t.remove x = ⟨t.height, root⟩ := by rw [remove, hw]
    refine ⟨remove_ordered x hord, ?_, ?_⟩
    · rw [hroot]
      refine SepTree.every_walk (fun l l' hl hs => ?_) _ _ _ ht hw
      rw [(removeStep_write hs).2]
      exact eraseP_fits _ hl
    · obtain ⟨front, l, l', back, hbefore, hstep, hafter⟩ := walk_entries hord hw
      obtain ⟨hmem, rfl⟩ := removeStep_write hstep
      rw [hroot, pairs, pairs, hbefore, hafter]
      simp only [map_append]
      exact (eraseP_pairs hmem).context _ _
  | _ =>
    have hnone := not_write_of_walk (removeStep x) hord
      (fun root hroot => by rw [hw] at hroot; cases hroot)
    refine absurd h (absent_of_walkList (sorted_itemsFrom hord x.1) hnone (fun l _ hmem => ?_)
      fun l hq hs => removeStep_stop (by simpa using hq) hs)
    exact ⟨_, if_pos hmem⟩

lemma remove_absent (hord : t.Ordered) (h : x ∉ t.pairs) : t.remove x = t := by
  cases hw : t.root.walk (removeStep x) (readRoute x.1) with
  | write root =>
    obtain ⟨front, l, l', back, hbefore, hstep, -⟩ := walk_entries hord hw
    obtain ⟨e, he, heq⟩ := mem_pairs.1 (removeStep_write hstep).1
    refine absurd (mem_pairs.2 ⟨e, ?_, heq⟩) h
    rw [hbefore]
    simp [he]
  | _ => rw [remove, hw]

/-! ## Runs of calls -/

/-- The tree stands for the set, and all is in order. -/
structure Represents (pageSize km kM P : Nat) (t : BPlusTree) (A : Set Pair) : Prop where
  ordered : t.Ordered
  fits : TreeFits pageSize km kM P t.root
  denotes : t.Denotes A

lemma Becomes.represents {A' : Set Pair} (h : Becomes pageSize km kM P olds news t t')
    (hr : Represents pageSize km kM P t A) (hnews : news.Nodup)
    (habsent : ∀ x ∈ news, x ∈ t.pairs → x ∈ olds)
    (hA' : ∀ x, x ∈ A' ↔ x ∈ news ∨ x ∈ A ∧ x ∉ olds) : Represents pageSize km kM P t' A' := by
  have hset : A' = {x | x ∈ news ∨ x ∈ A ∧ x ∉ olds} := Set.ext hA'
  exact ⟨h.ordered, h.fits, hset ▸ hr.denotes.exchange h.pairs hnews habsent⟩

lemma Becomes.represents_fresh {A' : Set Pair} (h : Becomes pageSize km kM P olds news t t')
    (hr : Represents pageSize km kM P t A) (hfresh : t.Fresh news)
    (hA' : ∀ x, x ∈ A' ↔ x ∈ news ∨ x ∈ A ∧ x ∉ olds) : Represents pageSize km kM P t' A' :=
  h.represents hr hfresh.nodup (fun x hx hmem => absurd hmem (hfresh.absent x hx)) hA'

lemma sorted_patches (ps : List Patch) :
    (ps.insertionSort fun p q => Pair.cmp (p.key, p.old) (q.key, q.old) ≠ .gt).Pairwise
      fun p q => p.key ≤ q.key := by
  have hle : ∀ p q : Patch, Pair.cmp (p.key, p.old) (q.key, q.old) ≠ .gt → p.key ≤ q.key :=
    fun _ _ => Pair.le_of_cmp_ne_gt
  have hge : ∀ p q : Patch, ¬ Pair.cmp (p.key, p.old) (q.key, q.old) ≠ .gt → q.key ≤ p.key :=
    fun p q h => Pair.ge_of_cmp_ne_lt
      (by rw [not_not.1 h]; simp)
  have htrans : ∀ p q r : Patch, p.key ≤ q.key → q.key ≤ r.key → p.key ≤ r.key :=
    fun _ _ _ => le_trans
  exact pairwise_insertionSort_of_refines htrans hle hge ps

lemma remove_represents (hr : Represents pageSize km kM P t A)
    (hsafe : x ∉ t.pairs ∨ x ∈ t.removable x.1) :
    Represents pageSize km kM P (t.remove x) (A \ {x}) := by
  rcases hsafe with habsent | hfound
  · rw [remove_absent hr.ordered habsent,
      Set.sdiff_singleton_eq_self fun hx => habsent ((hr.denotes.mem _).2 hx)]
    exact hr
  · exact (remove_found hr.ordered hr.fits hfound).represents hr (by simp) (by simp) (by simp)

section
variable (hroom : Roomy (bodyCapacity pageSize) km kM P b)

include hroom

section

variable (hr : Represents pageSize km kM P t A)
include hr

lemma insertAll_represents {es : List NodeEntry} (hes : ∀ e ∈ es, EntryFits km kM P e)
    (hfresh : t.Fresh (es.map pair)) : ∃ t', t.insertAll pageSize es = .ok t' ∧
      Represents pageSize km kM P t' (A ∪ {x | x ∈ es.map pair}) := by
  obtain ⟨t', hok, hpasses, hfits⟩ := insertAll_passes hroom hr.ordered hr.fits hes
  refine ⟨t', hok, (hpasses.becomes hr.ordered hfits hfresh).represents_fresh hr hfresh fun x => ?_⟩
  simp [or_comm]

lemma insertWithInclude_represents (he : EntryFits km kM P e) (hsafe : t.InsertSafe e.pair) :
    ∃ t', t.insertWithInclude pageSize e = .ok t' ∧
      Represents pageSize km kM P t' (A ∪ {e.pair}) := by
  rcases hsafe with habsent | hfound
  · have hes : ∀ a ∈ [e], EntryFits km kM P a := by simpa using he
    obtain ⟨t', hok, hr'⟩ := insertAll_represents hroom hr hes
      ⟨nodup_singleton _, by simpa using habsent⟩
    have hone : {x | x ∈ [e].map pair} = {e.pair} := by
      simp
    exact ⟨t', insertAll_one.symm.trans hok, hone ▸ hr'⟩
  · obtain ⟨t', hok, hmem, hb⟩ := insert_found hroom hr.ordered hr.fits he hfound
    refine ⟨t', hok, hb.represents hr (by simp) (by simp) fun x => ?_⟩
    have hin := (hr.denotes.mem _).1 hmem
    rw [Set.union_eq_self_of_subset_right (Set.singleton_subset_iff.2 hin)]
    simp

lemma insertMany_represents (hlen : batch.length ≤ b)
    (hkeys : ∀ x ∈ batch, KeyFits km kM x.1) (hfresh : t.Fresh batch)
    (hgap : ∀ q, (∃ x ∈ batch, x.1 ≤ q) → ¬ t.Gap q) (hfuel : batch.length ≤ fuel) :
    ∃ t', insertMany pageSize fuel t batch = some (.ok t') ∧
      Represents pageSize km kM P t' (A ∪ {x | x ∈ batch}) := by
  obtain ⟨t', sorted, hok, hperm, hpasses, hfits⟩ := insertMany_passes hroom hr.ordered hr.fits
    hlen hkeys hgap hfuel
  have hsorted : t.Fresh sorted :=
    ⟨hperm.nodup_iff.2 hfresh.nodup, fun x hx => hfresh.absent x (hperm.mem_iff.1 hx)⟩
  refine ⟨t', hok, (hpasses.becomes hr.ordered hfits hsorted).represents_fresh hr hsorted
    fun x => ?_⟩
  simp [hperm.mem_iff, or_comm]

lemma patchMany_represents (hkeys : ∀ p ∈ ps, KeyFits km kM p.key)
    (hsafe : t.PatchesSafe ps) (hfuel : ps.length ≤ fuel) :
    ∃ t', patchMany pageSize fuel t ps = some (.ok t') ∧
      Represents pageSize km kM P t' (ps.foldl patchSet A) := by
  have hperm := perm_insertionSort
    (fun p q : Patch => Pair.cmp (p.key, p.old) (q.key, q.old) ≠ .gt) ps
  have hsorted := sorted_patches ps
  generalize hs : ps.insertionSort (fun p q => Pair.cmp (p.key, p.old) (q.key, q.old) ≠ .gt) =
    sorted at hperm hsorted
  have hmem := fun p => (hperm.mem_iff (a := p))
  have hnews := hperm.map Patch.newPair
  have holds := hperm.map Patch.oldPair
  have hdistinct : ∀ p ∈ sorted, ∀ q ∈ sorted, p.newPair ≠ q.oldPair := fun p hp q hq =>
    hsafe.distinct p ((hmem p).1 hp) q ((hmem q).1 hq)
  have hfresh : t.Fresh (sorted.map Patch.newPair) :=
    ⟨hnews.nodup_iff.2 hsafe.fresh.nodup, fun x hx => hsafe.fresh.absent x (hnews.mem_iff.1 hx)⟩
  have hfuel' : sorted.length ≤ fuel := hperm.length_eq ▸ hfuel
  rw [patchMany, hs]
  rcases hsafe.found with ⟨hnodup, hfound⟩ | habsent
  · obtain ⟨t', hok, hb⟩ := patchManyLoop_found hr.ordered hr.fits hsorted
      (holds.nodup_iff.2 hnodup) hdistinct (fun p hp => hfound p ((hmem p).1 hp)) hfuel'
    refine ⟨t', hok, hb.represents_fresh hr hfresh fun x => ?_⟩
    rw [mem_foldl_patchSet hsafe.distinct, hnews.mem_iff, holds.mem_iff]
  · obtain ⟨t', hok, hb⟩ := patchManyLoop_absent hroom hr.ordered hr.fits
      (fun p hp => hkeys p ((hmem p).1 hp)) hfresh hdistinct
      (fun p hp => habsent p ((hmem p).1 hp)) hfuel'
    refine ⟨t', hok, hb.represents_fresh hr hfresh fun x => ?_⟩
    have hold : x ∈ A → x ∉ ps.map Patch.oldPair := by
      intro hx hin
      obtain ⟨p, hp, rfl⟩ := mem_map.1 hin
      exact habsent p hp ((hr.denotes.mem _).2 hx)
    rw [mem_foldl_patchSet hsafe.distinct, hnews.mem_iff]
    tauto

lemma updateRowidInplace_represents (hkey : KeyFits km kM key)
    (hsafe : t.InplaceSafe key old new) : ∃ t', t.updateRowidInplace pageSize key old new = .ok t' ∧
      Represents pageSize km kM P t' (patchSet A ⟨key, old, new⟩) := by
  unfold InplaceSafe at hsafe
  split at hsafe
  · next hin =>
    obtain ⟨t', hok, hb⟩ := updateRowidInplace_found hr.ordered hr.fits hin
    refine ⟨t', hok, hb.represents hr (by simp) (fun x hx hmem => ?_) fun x => ?_⟩
    · obtain rfl := mem_singleton.1 hx
      rcases hsafe with rfl | habsent
      · exact hx
      · exact absurd hmem habsent
    · simp [patchSet, Patch.oldPair, Patch.newPair]
  · next hnot =>
    obtain ⟨t', hok, hr'⟩ := insertWithInclude_represents hroom hr
      (show EntryFits km kM P (.plain (key, new)) from ⟨hkey, Nat.zero_le P⟩) hsafe
    refine ⟨t', by rw [updateRowidInplace_absent hr.ordered hnot]; exact hok, ?_⟩
    have hold : (key, old) ∉ A := fun hx => hnot ((hr.denotes.mem _).2 hx)
    rwa [patchSet, show Patch.oldPair ⟨key, old, new⟩ = (key, old) from rfl,
      Set.sdiff_singleton_eq_self hold]

/-- **A safe call** returns, and does to the tree what it does to the set. -/
theorem call_represents {c : Call} (hc : c.InBounds km kM P b) (hsafe : c.Safe t) (fuel : Nat) :
    ∃ fuel' t', fuel ≤ fuel' ∧ c.run pageSize fuel' t = some (.ok t') ∧
      Represents pageSize km kM P t' (c.apply A) := by
  cases c with
  | insert x =>
    obtain ⟨t', hok, hr'⟩ := insertWithInclude_represents hroom hr
      (show EntryFits km kM P (.plain x) from ⟨hc, Nat.zero_le P⟩) hsafe
    exact ⟨fuel, t', le_rfl, congrArg some hok, hr'⟩
  | insertWithInclude e =>
    obtain ⟨t', hok, hr'⟩ := insertWithInclude_represents hroom hr hc hsafe
    exact ⟨fuel, t', le_rfl, congrArg some hok, hr'⟩
  | insertMany batch =>
    obtain ⟨t', hok, hr'⟩ := insertMany_represents hroom hr hc.1 hc.2 hsafe.1 hsafe.2
      (Nat.le_add_left _ fuel)
    exact ⟨fuel + batch.length, t', Nat.le_add_right .., hok, hr'⟩
  | insertManyWithInclude batch =>
    obtain ⟨t', hok, hr'⟩ := insertAll_represents hroom hr hc hsafe
    exact ⟨fuel, t', le_rfl, congrArg some hok, hr'⟩
  | patchMany ps =>
    obtain ⟨t', hok, hr'⟩ := patchMany_represents hroom hr hc hsafe (Nat.le_add_left _ fuel)
    exact ⟨fuel + ps.length, t', Nat.le_add_right .., hok, hr'⟩
  | updateRowidInplace key old new =>
    obtain ⟨t', hok, hr'⟩ := updateRowidInplace_represents hroom hr hc hsafe
    exact ⟨fuel, t', le_rfl, congrArg some hok, hr'⟩
  | remove x => exact ⟨fuel, t.remove x, le_rfl, rfl, remove_represents hr hsafe⟩

end

end

lemma modelStep_eq_some {s s' : BPlusTree × Set Pair} {c : Call × Nat}
    (h : modelStep pageSize s c = some s') :
    c.1.run pageSize c.2 s.1 = some (.ok s'.1) ∧ s'.2 = c.1.apply s.2 := by
  obtain ⟨t', hstep, rfl⟩ := Option.map_eq_some_iff.1 h
  unfold callStep at hstep
  split at hstep
  · next t1 hrun =>
    cases hstep
    exact ⟨hrun, rfl⟩
  · cases hstep

/-- **The tree is a sorted multimap** along every run of safe calls: searches return each pair of
the set with a matching key exactly once, in key order. Every further safe call returns, to a tree
for the set that it makes. -/
theorem exact_run (hroom : Roomy (bodyCapacity pageSize) km kM P b)
    (h : Reached (modelStep pageSize) (fun s c => c.1.InBounds km kM P b ∧ c.1.Safe s.1) (create, ∅)
      (t, A)) : t.SearchesExact A ∧ ∀ c : Call, c.InBounds km kM P b → c.Safe t →
      ∃ fuel t', c.run pageSize fuel t = some (.ok t') ∧ t'.SearchesExact (c.apply A) := by
  have hempty : create.pairs = [] := rfl
  have hinit : Represents pageSize km kM P create ∅ :=
    ⟨create_ordered, (grown_create hroom).fits, by rw [hempty]; exact .nil, by simp [hempty]⟩
  have hr : Represents pageSize km kM P t A := by
    refine h.invariant (fun s => Represents pageSize km kM P s.1 s.2) hinit ?_
    intro s c s' hs hc hstep
    obtain ⟨hrun, hset⟩ := modelStep_eq_some hstep
    obtain ⟨fuel', t'', hle, hok, hr'⟩ := call_represents hroom hs hc.1 hc.2 c.2
    rw [Call.run_mono hle hrun, Option.some.injEq, Except.ok.injEq] at hok
    rw [hset, hok]
    exact hr'
  refine ⟨hr.denotes.searchesExact hr.ordered, fun c hc hsafe => ?_⟩
  obtain ⟨fuel, t', -, hok, hr'⟩ := call_represents hroom hr hc hsafe 0
  exact ⟨fuel, t', hok, hr'.denotes.searchesExact hr'.ordered⟩

/-- On small pages: a full leaf of one key, a split of it, a greater key, a removal and a
redirection. -/
def busyCalls : List (Call × Nat) :=
  [(.insertMany (copies 5 0 4), 2), (.insert (.int 5, ⟨4, 0⟩), 0), (.insert (.int 6, ⟨4, 0⟩), 0),
    (.remove (.int 5, ⟨1, 0⟩), 0), (.patchMany [⟨.int 5, ⟨0, 0⟩, ⟨9, 0⟩⟩], 1)]

theorem exact_run_busyCalls :
    (runState (modelStep 128) (create, ∅) busyCalls).1.flat.items.map length = [1, 4] ∧
      (runState (modelStep 128) (create, ∅) busyCalls).1.SearchesExact
        (runState (modelStep 128) (create, ∅) busyCalls).2 := by
  have hkey : ∀ k, KeyFits 9 9 (.int k) := fun _ => ⟨le_refl 9, le_refl 9⟩
  have hbatch : (Call.insertMany (copies 5 0 4)).InBounds 9 9 0 4 :=
    ⟨le_refl 4, by simp [copies, hkey]⟩
  have hsafe : (Call.insertMany (copies 5 0 4)).Safe create := by
    refine ⟨⟨by decide, nofun⟩, fun q _ hgap => ?_⟩
    obtain ⟨x, hx, -⟩ := hgap.exists_pair create_ordered
    cases hx
  have hinit : Reached (modelStep 128) (fun s c => c.1.InBounds 9 9 0 4 ∧ c.1.Safe s.1)
      (create, ∅) (runState (modelStep 128) (create, ∅) []) := .init
  have hfull := hinit.snoc (a := (Call.insertMany _, 2)) ⟨hbatch, hsafe⟩ (by decide +kernel)
  have hsplit := hfull.snoc (a := (Call.insert (.int 5, ⟨4, 0⟩), 0))
    ⟨hkey 5, Or.inl (by decide +kernel)⟩ (by decide +kernel)
  have hgreater := hsplit.snoc (a := (Call.insert (.int 6, ⟨4, 0⟩), 0))
    ⟨hkey 6, Or.inl (by decide +kernel)⟩ (by decide +kernel)
  have hremoved := hgreater.snoc (a := (Call.remove (.int 5, ⟨1, 0⟩), 0))
    ⟨trivial, Or.inr (by decide +kernel)⟩ (by decide +kernel)
  have hpatched := hremoved.snoc (a := (Call.patchMany [⟨.int 5, ⟨0, 0⟩, ⟨9, 0⟩⟩], 1))
    ⟨forall_mem_singleton.2 (hkey 5), ⟨by decide, by decide +kernel⟩, by decide,
      .inl ⟨by decide, by decide +kernel⟩⟩ (by decide +kernel)
  exact ⟨by decide +kernel, (exact_run (by decide) hpatched).1⟩

lemma exists_modelStep (h : Reached (callStep pageSize) (fun _ _ => True) create t) :
    ∃ A, Reached (modelStep pageSize) (fun _ _ => True) (create, ∅) (t, A) := by
  induction h with
  | init => exact ⟨∅, .init⟩
  | @step t t' c _ hok hstep ih =>
    obtain ⟨A, hA⟩ := ih
    exact ⟨c.1.apply A, .step hA hok (by rw [modelStep, hstep]; rfl)⟩

/-- Entries of one key over two leaves, and once more the first of them. -/
def reinserted : List (Call × Nat) :=
  [(.insertMany (copies 5 0 214), 2), (.insert (.int 5, ⟨0, 0⟩), 0)]

/-- **An insert of a present pair that is not a no-op**: the pair is in the left leaf, the insert
descends to the right one and adds it again, and a search returns its row id twice. -/
theorem reinserted_pair_twice :
    ∃ t A, Reached (modelStep 4096) (fun _ _ => True) (create, ∅) (t, A) ∧ ¬ t.SearchesExact A := by
  have hreached : Reached (callStep 4096) (fun _ _ => True) create
      (runState (callStep 4096) create reinserted) :=
    reached_runState (by simp) (by decide +kernel)
  obtain ⟨A, hA⟩ := exists_modelStep hreached
  refine ⟨_, A, hA, fun hexact => ?_⟩
  have htwice : ¬ ((runState (callStep 4096) create reinserted).searchEq (.int 5)).Nodup := by
    decide +kernel
  exact htwice (hexact.eq (.int 5)).1

end BPlusTree

end UniDb
