import UniDb.Lib.Lists
import UniDb.Lib.Run
import UniDb.Side.AdjacencyCache
import UniDb.Side.Deletions

/-!
# When the adjacency cache is invisible

A list is stored under the snapshot of whoever read it and served to everybody. A reader that does
not yet see an edge stores a list without it, and the commit of the edge's transaction drops nothing
(`uncommitted_edge_missed`).

`Careful` says when a step does no harm. The main condition is on reads of a hub: the reader sees
exactly those of its edges that are not marked as deleted (`Clear`); then everybody who reads the
hub agrees on its edges. In runs of careful steps every read is right, whatever the size of the
cache (`cache_invisible`).
-/

namespace UniDb.Side

open List AdjacencyCache GraphState Side.Table

/-! ## Careful steps -/

namespace GraphState

variable (s : GraphState)

/-- The reader sees no edge of the hub that is marked as deleted; and it sees all others, unless
nothing is going to be stored. -/
structure Clear (r : Reader) (fromId : Int) : Prop where
  unmarked : ∀ row ∈ s.edges.rows, row.key = fromId → r.sees row = true → row.xmax = 0
  all : s.cache.maxHubs = 0 ∨ s.hasSelfWrite r fromId = true ∨
    ∀ row ∈ s.edges.rows, row.key = fromId → row.xmax = 0 → r.sees row = true

/-- `delete_edge` is given the `from_id` of the edge. -/
def Named : EdgeWrite → Prop
  | .create _ _ => True
  | .delete i fromId => ∀ row ∈ s.edges.rows[i]?, row.key = fromId

/-- A write of a hub does not start while a list of the hub waits to be stored, a miss does not read
the hub while it is written, and nobody rolls back the deletion of an edge. -/
def Careful : GraphAction → Prop
  | .startWrite _ w => s.Named w ∧ (s.cache.maxHubs = 0 ∨ ∀ f ∈ s.fills, f.1 ≠ w.hub)
  | .readHit x req => ∀ r ∈ readerIn s.txns x, ∀ fromId ∈ req.hub, s.Clear r fromId
  | .readCold x req => ∀ r ∈ readerIn s.txns x, ∀ fromId ∈ req.hub, s.Clear r fromId ∧
    (s.cache.maxHubs = 0 ∨ s.hasSelfWrite r fromId = true ∨ ∀ m ∈ s.mutating, m.2.hub ≠ fromId)
  | .abort x => ∀ row ∈ s.edges.rows, row.xmax = x → row.xmin = x
  | _ => True

instance (r : Reader) (fromId : Int) : Decidable (s.Clear r fromId) :=
  decidable_of_iff (_ ∧ _) ⟨fun h => ⟨h.1, h.2⟩, fun h => ⟨h.unmarked, h.all⟩⟩

instance (w : EdgeWrite) : Decidable (s.Named w) := by
  cases w <;> dsimp only [Named] <;> infer_instance

instance (a : GraphAction) : Decidable (s.Careful a) := by
  cases a <;> dsimp only [Careful] <;> infer_instance

end GraphState

/-! ## Selecting edges -/

variable {test : Found → Except DbError Bool} {fs gs : List Found} {rt : Runtime} {f : Found}
  {fromId : Int} {req : ReadRequest} {t : Tracked Edge} {refs : List EdgeRef} {i x : Nat}
  {row : Row Edge}

lemma selectEdges_eq_ok : selectEdges test fs = .ok gs ↔
      (∀ f ∈ fs, ∃ b, test f = .ok b) ∧ gs = fs.filter fun f => (test f).toOption = some true := by
  induction fs generalizing gs with
  | nil => simp [selectEdges]
  | cons f fs ih =>
    rw [selectEdges]
    cases hf : test f with
    | error e => simp [hf, bind, Except.bind]
    | ok b =>
      cases hfs : selectEdges test fs with
      | error e =>
        have hnone : ¬∀ f ∈ fs, ∃ b, test f = .ok b := by
          intro hall
          have hok := ih.2 ⟨hall, rfl⟩
          rw [hfs] at hok
          cases hok
        simp only [bind, Except.bind, reduceCtorEq, forall_mem_cons, false_iff]
        exact fun h => hnone h.1.2
      | ok kept =>
        obtain ⟨hall, rfl⟩ := ih.1 hfs
        rw [and_iff_right (forall_mem_cons.2 ⟨⟨b, hf⟩, hall⟩)]
        cases b <;> simp [hf, bind, Except.bind, pure, Except.pure, Except.toOption, eq_comm]

lemma Agrees.refl (result : Except DbError (List Found)) : Agrees result result := by
  cases result with
  | error e => trivial
  | ok fs => exact List.Perm.refl fs

lemma agrees_selectEdges (h : fs.Perm gs) :
    Agrees (selectEdges test fs) (selectEdges test gs) := by
  have hmem : ∀ f, f ∈ fs ↔ f ∈ gs := fun f => h.mem_iff
  cases hfs : selectEdges test fs with
  | error e =>
    cases hgs : selectEdges test gs with
    | error e' => trivial
    | ok kept =>
      have hok := selectEdges_eq_ok.2 ⟨fun f hf => (selectEdges_eq_ok.1 hgs).1 f ((hmem f).1 hf),
        rfl⟩
      rw [hfs] at hok
      cases hok
  | ok kept =>
    obtain ⟨hall, rfl⟩ := selectEdges_eq_ok.1 hfs
    rw [selectEdges_eq_ok.2 ⟨fun f hf => hall f ((hmem f).2 hf), rfl⟩]
    exact h.filter _

lemma eq_of_evalExpr_eq {a b : Int}
    (h : (.ok (.bool (applyCmp .eq (Ord.compare a b))) : Except DbError Literal) =
      .ok (.bool true)) :
    a = b := by
  refine Std.compare_eq_iff_eq.1 ?_
  cases hab : Ord.compare a b with
  | eq => rfl
  | lt | gt => simp [hab, applyCmp] at h

lemma fromId_of_findFromIdEq {e : Expr} (h : findFromIdEq e = some fromId)
    (htrue : evalExpr rt edgeColumns f.literals e = .ok (.bool true)) : f.fromId = fromId := by
  fun_induction findFromIdEq e with
  | case1 n =>
    cases h
    exact eq_of_evalExpr_eq htrue
  | case2 => cases h
  | case3 n =>
    cases h
    exact (eq_of_evalExpr_eq htrue).symm
  | case4 => cases h
  | case5 lhs rhs ihl ihr =>
    obtain ⟨hl, hr⟩ := evalExpr_and_true.1 htrue
    rcases Option.or_eq_some_iff.1 h with h | ⟨-, h⟩
    · exact ihl h hl
    · exact ihr h hr
  | case6 => cases h

lemma fromId_of_test (hhub : req.hub = some fromId)
    (htest : (req.test rt f).toOption = some true) : f.fromId = fromId := by
  cases req with
  | edgesFrom q =>
    cases hhub
    simpa [ReadRequest.test, Except.toOption] using htest
  | cypher query =>
    obtain ⟨e, he, hfind⟩ := Option.bind_eq_some_iff.1 hhub
    have htrue : predicateMatches rt query.fullPredicate edgeColumns f.literals = .ok true := by
      cases hmatch : predicateMatches rt query.fullPredicate edgeColumns f.literals with
      | error e => simp [ReadRequest.test, hmatch, Except.toOption] at htest
      | ok b => simpa [ReadRequest.test, hmatch, Except.toOption] using htest
    rw [he] at htrue
    exact fromId_of_findFromIdEq hfind ((predicateMatches_some e _ _).1 htrue)

lemma answer_of_perm (rt : Runtime) (hhub : req.hub = some fromId) {all : List Found}
    (hperm : fs.Perm gs) (hgs : gs.Perm (all.filter fun f => f.fromId = fromId)) :
    Agrees (req.answer rt fs) (req.answer rt gs) ∧ ∀ hs, req.answer rt fs = .ok hs →
      hs.Perm (all.filter fun f => (req.test rt f).toOption = some true) := by
  have hboth : (all.filter fun f => (req.test rt f).toOption = some true) =
      (all.filter fun f => f.fromId = fromId).filter fun f => (req.test rt f).toOption =
          some true := by
    rw [filter_filter]
    refine filter_congr fun f _ => ?_
    rw [← Bool.decide_and, decide_eq_decide]
    exact ⟨fun htest => ⟨htest, fromId_of_test hhub htest⟩, fun h => h.1⟩
  rw [hboth]
  cases req with
  | edgesFrom q =>
    refine ⟨hperm, fun hs heq => ?_⟩
    cases heq
    cases hhub
    have hall : (all.filter fun f => f.fromId = fromId).filter
        (fun f => (ReadRequest.test rt (.edgesFrom fromId) f).toOption = some true) =
          all.filter fun f => f.fromId = fromId := by
      refine filter_eq_self.2 fun f hf => ?_
      simpa [ReadRequest.test, Except.toOption] using (mem_filter.1 hf).2
    rw [hall]
    exact hperm.trans hgs
  | cypher query =>
    refine ⟨agrees_selectEdges hperm, fun hs heq => ?_⟩
    obtain ⟨-, rfl⟩ := selectEdges_eq_ok.1 heq
    exact (hperm.trans hgs).filter _

/-! ## The invariant -/

/-- Row `i` is an edge of the hub and is not marked as deleted. -/
def Unmarked (t : Tracked Edge) (fromId : Int) (i : Nat) (row : Row Edge) : Prop :=
  t.rows[i]? = some row ∧ row.key = fromId ∧ row.xmax = 0

/-- The list has the unmarked edges of the hub, and the transactions that created them are over. -/
def Holds (T : TxnInner) (t : Tracked Edge) (fromId : Int) (refs : List EdgeRef) : Prop :=
  (∃ fs : List Found, refs = fs.map edgeRef ∧ fs.Nodup ∧
    ∀ f, f ∈ fs ↔ ∃ i row, Unmarked t fromId i row ∧ f = found i row) ∧
  ∀ i row, Unmarked t fromId i row → T.active row.xmin = none

lemma Holds.mono {T T' : TxnInner} {t' : Tracked Edge} (h : Holds T t fromId refs)
    (hrows : ∀ i row, Unmarked t' fromId i row ↔ Unmarked t fromId i row)
    (hover : ∀ row ∈ t.rows, T.active row.xmin = none → T'.active row.xmin = none) :
    Holds T' t' fromId refs := by
  obtain ⟨⟨fs, hrefs, hnodup, hmem⟩, hdone⟩ := h
  refine ⟨⟨fs, hrefs, hnodup, fun f => ?_⟩, fun i row hrow => ?_⟩
  · simp only [hmem, hrows]
  · have hrow := (hrows i row).1 hrow
    exact hover row (mem_of_getElem? hrow.1) (hdone i row hrow)

structure GraphState.Inv (s : GraphState) : Prop where
  ok : s.edges.Ok
  positive : 0 < s.txns.nextXid
  active : ∀ x txn, s.txns.active x = some txn → 0 < x ∧ x < s.txns.nextXid ∧
    ∀ y, y ≠ x → txn.snapshot.isCommittedAtSnapshot y = true → s.txns.Finished y
  issued : ∀ row ∈ s.edges.rows, 0 < row.xmin ∧ row.xmin < s.txns.nextXid
  indexed : ∀ (i : Nat) (row : Row Edge), s.edges.rows[i]? = some row → row.xmax = 0 →
    (row.key, i) ∈ s.edges.index
  cached : ∀ fromId refs, s.cache.get fromId = some refs → Holds s.txns s.edges fromId refs
  fills : ∀ f ∈ s.fills, s.cache.maxHubs = 0 ∨ Holds s.txns s.edges f.1 f.2
  writing : ∀ m ∈ s.mutating, (∃ txn, s.txns.active m.1 = some txn) ∧ s.Named m.2 ∧
    s.cache.get m.2.hub = none ∧ (s.cache.maxHubs = 0 ∨ ∀ f ∈ s.fills, f.1 ≠ m.2.hub)

/-! ## Reads -/

section Reads

variable {s : GraphState} {r : Reader} {fromId : Int}

/-- If the reader sees no marked edge of the hub, index and heap give the edges of the hub that it
sees. -/
lemma GraphState.Inv.mem_resolved (h : s.Inv) (hclear : s.Clear r fromId) :
    (i, row) ∈ s.resolved r fromId ↔
      s.edges.rows[i]? = some row ∧ row.key = fromId ∧ r.sees row = true := by
  rw [resolved, mem_resolve, mem_searchEq]
  constructor
  · rintro ⟨hentry, hrow, hsees⟩
    obtain ⟨row', hrow', hkey⟩ := h.ok.mem_entries.1 (mem_append_left _ hentry)
    cases hrow.symm.trans hrow'
    exact ⟨hrow, hkey, hsees⟩
  · rintro ⟨hrow, rfl, hsees⟩
    exact ⟨h.indexed i row hrow (hclear.unmarked row (mem_of_getElem? hrow) rfl hsees), hrow, hsees⟩

lemma nodup_map_found {t : Table Edge} {candidates : List Nat} (h : candidates.Nodup) :
    ((t.resolve r candidates).map fun e => found e.1 e.2).Nodup := by
  have hresolve : (t.resolve r candidates).Nodup := by
    refine List.Nodup.filterMap (fun i j p hi hj => ?_) h
    exact (get_eq_some.1 hi).1.symm.trans (get_eq_some.1 hj).1
  refine List.Nodup.map_on (fun e he f hf heq => ?_) hresolve
  have hid : e.1 = f.1 := congrArg Found.rowId heq
  obtain ⟨-, hrow, -⟩ := mem_resolve.1 he
  obtain ⟨-, hrow', -⟩ := mem_resolve.1 hf
  rw [hid] at hrow
  exact Prod.ext hid (Option.some.inj (hrow.symm.trans hrow'))

lemma GraphState.Inv.mem_map_resolved (h : s.Inv) (hclear : s.Clear r fromId) :
    (f ∈ (s.resolved r fromId).map fun e => found e.1 e.2) ↔ ∃ i row, (s.edges.rows[i]? = some row ∧
      row.key = fromId ∧ r.sees row = true) ∧ f = found i row := by
  simp only [mem_map, Prod.exists, h.mem_resolved hclear, eq_comm]

lemma GraphState.Inv.resolved_perm (h : s.Inv) (hclear : s.Clear r fromId) :
    ((s.resolved r fromId).map fun e => found e.1 e.2).Perm
      ((s.visible r).filter fun f => f.fromId = fromId) := by
  refine (perm_ext_iff_of_nodup (nodup_map_found (h.ok.nodup_searchEq fromId))
    ((nodup_map_found nodup_range).filter _)).2 fun f => ?_
  refine (h.mem_map_resolved hclear).trans ?_
  simp only [mem_filter, mem_map, Prod.exists, decide_eq_true_iff]
  constructor
  · rintro ⟨i, row, ⟨hrow, hkey, hsees⟩, rfl⟩
    exact ⟨⟨i, row, mem_scan.2 ⟨hrow, hsees⟩, rfl⟩, hkey⟩
  · rintro ⟨⟨i, row, hscan, rfl⟩, hkey⟩
    obtain ⟨hrow, hsees⟩ := mem_scan.1 hscan
    exact ⟨i, row, ⟨hrow, hkey, hsees⟩, rfl⟩

lemma rebuild_edgeRef {t : Table Edge} (h : t.rows[i]? = some row) :
    rebuild t row.key (edgeRef (found i row)) = found i row := by
  by_cases hlimit : row.data.props.utf8ByteSize ≤ propsInlineLimit
  · simp [rebuild, edgeRef, found, hlimit]
  · simp [rebuild, edgeRef, found, hlimit, h]

/-- If the reader sees all unmarked edges of the hub, a list that holds is what it would read. -/
lemma GraphState.Inv.hit_perm (h : s.Inv) (hclear : s.Clear r fromId)
    (hall : ∀ row ∈ s.edges.rows, row.key = fromId → row.xmax = 0 → r.sees row = true)
    (hholds : Holds s.txns s.edges fromId refs) : (refs.map (rebuild s.edges.toTable fromId)).Perm
      ((s.resolved r fromId).map fun e => found e.1 e.2) := by
  obtain ⟨⟨fs, rfl, hnodup, hmem⟩, -⟩ := hholds
  have hself : (fs.map edgeRef).map (rebuild s.edges.toTable fromId) = fs := by
    rw [map_map]
    refine (map_congr_left fun f hf => ?_).trans (map_id fs)
    obtain ⟨i, row, ⟨hrow, rfl, -⟩, rfl⟩ := (hmem f).1 hf
    exact rebuild_edgeRef hrow
  rw [hself]
  refine (perm_ext_iff_of_nodup hnodup (nodup_map_found (h.ok.nodup_searchEq fromId))).2 fun f => ?_
  refine (hmem f).trans (Iff.trans ?_ (h.mem_map_resolved hclear).symm)
  constructor
  · rintro ⟨i, row, ⟨hrow, hkey, hmark⟩, rfl⟩
    exact ⟨i, row, ⟨hrow, hkey, hall row (mem_of_getElem? hrow) hkey hmark⟩, rfl⟩
  · rintro ⟨i, row, ⟨hrow, hkey, hsees⟩, rfl⟩
    exact ⟨i, row, ⟨hrow, hkey, hclear.unmarked row (mem_of_getElem? hrow) hkey hsees⟩, rfl⟩

lemma GraphState.Inv.not_hasSelfWrite (h : s.Inv) (hclear : s.Clear r fromId)
    (hactive : s.txns.active r.xid ≠ none) (hholds : Holds s.txns s.edges fromId refs) :
    s.hasSelfWrite r fromId = false := by
  rw [← Bool.not_eq_true]
  intro hself
  obtain ⟨⟨i, row⟩, hrow, hxmin⟩ := any_eq_true.1 hself
  obtain ⟨hrow, hkey, hsees⟩ := (h.mem_resolved hclear).1 hrow
  have hmark := hclear.unmarked row (mem_of_getElem? hrow) hkey hsees
  have hnone := hholds.2 i row ⟨hrow, hkey, hmark⟩
  rw [of_decide_eq_true hxmin] at hnone
  exact hactive hnone

lemma readerIn_active {T : TxnInner} (h : readerIn T x = some r) :
    r.xid = x ∧ T.active x ≠ none := by
  obtain ⟨txn, htxn, rfl⟩ := Option.map_eq_some_iff.1 h
  exact ⟨rfl, by simp [htxn]⟩

lemma GraphState.Inv.right_hit (h : s.Inv) (hr : readerIn s.txns x = some r)
    (hhub : req.hub = some fromId) (hget : s.cache.get fromId = some refs)
    (hclear : s.Clear r fromId) : s.RightAnswer rt r req (s.hitAnswer rt req fromId refs) := by
  obtain ⟨rfl, hactive⟩ := readerIn_active hr
  have hholds := h.cached fromId refs hget
  have hall : ∀ row ∈ s.edges.rows, row.key = fromId → row.xmax = 0 → r.sees row = true := by
    rcases hclear.all with hzero | hself | hall
    · simp [AdjacencyCache.get, hzero] at hget
    · rw [h.not_hasSelfWrite hclear hactive hholds] at hself
      cases hself
    · exact hall
  have hanswer := answer_of_perm rt hhub (h.hit_perm hclear hall hholds) (h.resolved_perm hclear)
  refine ⟨?_, hanswer.2⟩
  simp only [coldAnswer, hhub]
  exact hanswer.1

lemma GraphState.Inv.right_cold (h : s.Inv) (hclear : ∀ fromId ∈ req.hub, s.Clear r fromId) :
    s.RightAnswer rt r req (s.coldAnswer rt r req) := by
  refine ⟨Agrees.refl _, fun fs hfs => ?_⟩
  rw [coldAnswer] at hfs
  split at hfs
  next hhub =>
    cases req with
    | edgesFrom q => cases hhub
    | cypher query =>
      obtain ⟨-, rfl⟩ := selectEdges_eq_ok.1 hfs
      exact List.Perm.refl _
  next fromId hhub =>
    exact (answer_of_perm rt hhub (List.Perm.refl _) (h.resolved_perm (hclear fromId hhub))).2 fs
      hfs

end Reads

/-! ## Steps -/

section Steps

variable {s s' : GraphState}

lemma GraphState.Inv.txns (h : s.Inv) {T' : TxnInner} (hnext : s.txns.nextXid ≤ T'.nextXid)
    (hactive : ∀ x txn, T'.active x = some txn → 0 < x ∧ x < T'.nextXid ∧
      ∀ y, y ≠ x → txn.snapshot.isCommittedAtSnapshot y = true → T'.Finished y)
    (hover : ∀ y < s.txns.nextXid, s.txns.active y = none → T'.active y = none)
    (hwriting : ∀ m ∈ s.mutating, ∃ txn, T'.active m.1 = some txn) :
    GraphState.Inv { s with txns := T' } := by
  have hover' : ∀ row ∈ s.edges.rows, s.txns.active row.xmin = none → T'.active row.xmin = none :=
    fun row hrow => hover _ (h.issued row hrow).2
  refine ⟨h.ok, Nat.lt_of_lt_of_le h.positive hnext, hactive, fun row hrow => ?_, h.indexed,
    fun q refs hget => (h.cached q refs hget).mono (fun _ _ => Iff.rfl) hover',
    fun f hf => (h.fills f hf).imp_right fun hholds => hholds.mono (fun _ _ => Iff.rfl) hover',
    fun m hm => ⟨hwriting m hm, (h.writing m hm).2⟩⟩
  obtain ⟨hpos, hlt⟩ := h.issued row hrow
  exact ⟨hpos, Nat.lt_of_lt_of_le hlt hnext⟩

lemma GraphState.Inv.begin (h : s.Inv) (isolation : IsolationLevel) :
    GraphState.Inv { s with txns := s.txns.begin isolation } := by
  have hold : ∀ y, y ≠ s.txns.nextXid → (s.txns.begin isolation).active y = s.txns.active y :=
    fun y hy => s.txns.begin_active_ne hy isolation
  refine h.txns (Nat.le_succ _) (fun x txn hx => ?_) (fun y hy hnone => ?_) fun m hm => ?_
  · by_cases hnew : x = s.txns.nextXid
    · subst hnew
      obtain rfl := Option.some.inj ((TxnInner.set_active_self _ _ _).symm.trans hx)
      refine ⟨h.positive, Nat.lt_succ_self _, fun y hy hseen => ?_⟩
      obtain ⟨hpos, hlt, hnone⟩ := TxnInner.isCommittedAtSnapshot_computeSnapshot.1 hseen
      exact ⟨hpos, hlt, (hold y hy).trans hnone⟩
    · rw [hold x hnew] at hx
      obtain ⟨hpos, hlt, hseen⟩ := h.active x txn hx
      refine ⟨hpos, Nat.lt_succ_of_lt hlt, fun y hy hcommitted => ?_⟩
      obtain ⟨hpos, hlt, hnone⟩ := hseen y hy hcommitted
      exact ⟨hpos, Nat.lt_succ_of_lt hlt, (hold y hlt.ne).trans hnone⟩
  · exact (hold y hy.ne).trans hnone
  · obtain ⟨⟨txn, htxn⟩, -⟩ := h.writing m hm
    exact ⟨txn, (hold m.1 (h.active m.1 txn htxn).2.1.ne).trans htxn⟩

lemma GraphState.Inv.remove (h : s.Inv) (hx : s.betweenWrites x = true) :
    GraphState.Inv { s with txns := s.txns.remove x } := by
  have hnone : ∀ y, s.txns.active y = none → (s.txns.remove x).active y = none := fun y hy =>
    s.txns.remove_active_eq_none.2 (.inr hy)
  refine h.txns le_rfl (fun z txn hz => ?_) (fun y _ => hnone y) fun m hm => ?_
  · obtain ⟨hpos, hlt, hseen⟩ := h.active z txn (s.txns.remove_active_eq_some.1 hz).2
    refine ⟨hpos, hlt, fun y hy hcommitted => ?_⟩
    obtain ⟨hpos, hlt, hy⟩ := hseen y hy hcommitted
    exact ⟨hpos, hlt, hnone y hy⟩
  · obtain ⟨⟨txn, htxn⟩, -⟩ := h.writing m hm
    have hmx : m.1 ≠ x := by
      rw [betweenWrites, Option.mem_def.1 hm] at hx
      simpa using hx
    exact ⟨txn, (s.txns.remove_active_ne hmx).trans htxn⟩

variable {q : Int} {txn : Transaction} {m : Nat × EdgeWrite}

lemma unmarked_of_undo (hpos : ∀ row ∈ t.rows, 0 < row.xmin)
    (hdeleted : ∀ row ∈ t.rows, row.xmax = x → row.xmin = x)
    (h : Unmarked (t.undo fun y => y == x) q i row) : Unmarked t q i row ∧ row.xmin ≠ x := by
  obtain ⟨hrow, hkey, hmark⟩ := h
  have hmap : (t.rows.map (Row.undo fun y => y == x))[i]? = some row := hrow
  rw [getElem?_map, Option.map_eq_some_iff] at hmap
  obtain ⟨old, hold, rfl⟩ := hmap
  have hmem := mem_of_getElem? hold
  have hxmin : old.xmin ≠ x := by
    intro hxmin
    have hstamp : (old.undo fun y => y == x).xmax = old.xmin := by simp [Row.undo, hxmin]
    have := hpos old hmem
    omega
  have hxmax : old.xmax ≠ x := fun hxmax => hxmin (hdeleted old hmem hxmax)
  have hsame : (old.undo fun y => y == x) = old := by simp [Row.undo, hxmin, hxmax]
  rw [hsame] at hkey hmark ⊢
  exact ⟨⟨hold, hkey, hmark⟩, hxmin⟩

lemma unmarked_undo (hx : 0 < x) (h : Unmarked t q i row) (hxmin : row.xmin ≠ x) :
    Unmarked (t.undo fun y => y == x) q i row := by
  obtain ⟨hrow, hkey, hmark⟩ := h
  have hsame : (row.undo fun y => y == x) = row := by simp [Row.undo, hxmin, hmark, hx.ne]
  refine ⟨(getElem?_map ..).trans ?_, hkey, hmark⟩
  rw [hrow, Option.map_some, hsame]

lemma GraphState.Inv.undo (h : s.Inv) (hx : s.txns.active x = some txn)
    (hdeleted : ∀ row ∈ s.edges.rows, row.xmax = x → row.xmin = x) :
    GraphState.Inv { s with edges := s.edges.undo fun y => y == x } := by
  have hpos : ∀ row ∈ s.edges.rows, 0 < row.xmin := fun row hrow => (h.issued row hrow).1
  have hholds : ∀ q refs, Holds s.txns s.edges q refs →
      Holds s.txns (s.edges.undo fun y => y == x) q refs := by
    refine fun q refs hholds => hholds.mono (fun i row => ?_) fun _ _ hnone => hnone
    refine ⟨fun hrow => (unmarked_of_undo hpos hdeleted hrow).1, fun hrow => ?_⟩
    refine unmarked_undo (h.active x txn hx).1 hrow fun hxmin => ?_
    have hnone := hholds.2 i row hrow
    rw [hxmin, hx] at hnone
    cases hnone
  refine ⟨h.ok.undo _, h.positive, h.active, fun row hrow => ?_, fun i row hrow hmark => ?_,
    fun q refs hget => hholds q refs (h.cached q refs hget),
    fun f hf => (h.fills f hf).imp_right (hholds f.1 f.2), fun m hm => ?_⟩
  · obtain ⟨old, hold, rfl⟩ := mem_map.1 hrow
    rw [Row.undo_xmin]
    exact h.issued old hold
  · obtain ⟨⟨hold, -, -⟩, -⟩ := unmarked_of_undo hpos hdeleted ⟨hrow, rfl, hmark⟩
    exact h.indexed i row hold hmark
  · obtain ⟨hactive, hnamed, hrest⟩ := h.writing m hm
    refine ⟨hactive, ?_, hrest⟩
    rcases m with ⟨y, _ | ⟨i, q⟩⟩
    · trivial
    · intro row hrow
      have hmap : (s.edges.rows.map (Row.undo fun y => y == x))[i]? = some row := hrow
      rw [getElem?_map, Option.map_eq_some_iff] at hmap
      obtain ⟨old, hold, rfl⟩ := hmap
      rw [Row.undo_key]
      exact hnamed old hold

/-- A write changes only rows of its hub, and no list of the hub is held. -/
lemma GraphState.Inv.write (h : s.Inv) (hm : s.mutating = some m) (hok : t.Ok)
    (hissued : ∀ row ∈ t.rows, 0 < row.xmin ∧ row.xmin < s.txns.nextXid)
    (hindexed : ∀ (i : Nat) (row : Row Edge), t.rows[i]? = some row → row.xmax = 0 →
      (row.key, i) ∈ t.index)
    (hrows : ∀ q, q ≠ m.2.hub → ∀ i row, Unmarked t q i row ↔ Unmarked s.edges q i row) :
    GraphState.Inv { s with edges := t, mutating := none } := by
  obtain ⟨-, -, hget, hfills⟩ := h.writing m hm
  refine ⟨hok, h.positive, h.active, hissued, hindexed, fun q refs hq => ?_, fun f hf => ?_,
    fun m hm => nomatch hm⟩
  · have hne : q ≠ m.2.hub := by
      rintro rfl
      rw [hget] at hq
      cases hq
    exact (h.cached q refs hq).mono (hrows q hne) fun _ _ hnone => hnone
  · rcases hfills with hzero | hfills
    · exact .inl hzero
    · exact (h.fills f hf).imp_right fun hholds =>
        hholds.mono (hrows f.1 (hfills f hf)) fun _ _ hnone => hnone

lemma getElem?_insert {j : Nat} {edge : Edge} : (t.insert x q edge).rows[j]? = some row ↔
      t.rows[j]? = some row ∨ j = t.rows.length ∧ row = ⟨q, edge, x, 0⟩ := by
  simp only [Tracked.insert, Table.insert, getElem?_append]
  split
  case isTrue hlt => simp [hlt.ne]
  case isFalse hge =>
    rw [getElem?_eq_none (Nat.le_of_not_lt hge)]
    by_cases hj : j = t.rows.length
    · simp [hj, eq_comm]
    · have hsub : j - t.rows.length ≠ 0 := by omega
      simp [hj, hsub]

section
variable (h : s.Inv)

include h

lemma GraphState.Inv.create {edge : Edge} (hx : s.txns.active x = some txn)
    (hm : s.mutating = some (x, .create q edge)) :
    GraphState.Inv { s with edges := s.edges.insert x q edge, mutating := none } := by
  refine h.write hm (h.ok.insert x q edge) (fun row hrow => ?_) (fun j row hrow hmark => ?_)
    fun q' hq' j row => ?_
  · obtain ⟨j, hj⟩ := mem_iff_getElem?.1 hrow
    rcases getElem?_insert.1 hj with hold | ⟨-, rfl⟩
    · exact h.issued row (mem_of_getElem? hold)
    · exact ⟨(h.active x txn hx).1, (h.active x txn hx).2.1⟩
  · refine (mem_orderedInsert _).2 ?_
    rcases getElem?_insert.1 hrow with hold | ⟨rfl, rfl⟩
    · exact .inr (h.indexed j row hold hmark)
    · exact .inl rfl
  · refine ⟨fun ⟨hrow, hkey, hmark⟩ => ?_, fun ⟨hrow, hkey, hmark⟩ => ?_⟩
    · rcases getElem?_insert.1 hrow with hold | ⟨-, rfl⟩
      · exact ⟨hold, hkey, hmark⟩
      · exact absurd hkey.symm hq'
    · exact ⟨getElem?_insert.2 (.inl hrow), hkey, hmark⟩

lemma GraphState.Inv.delete (hx : s.txns.active x = some txn)
    (hm : s.mutating = some (x, .delete i q))
    (hkey : ∀ row, s.edges.rows[i]? = some row → row.key = q) :
    GraphState.Inv { s with edges := s.edges.delete x q i, mutating := none } := by
  have hpos := (h.active x txn hx).1
  have hunmarked : ∀ q' (j : Nat) (row : Row Edge), Unmarked (s.edges.delete x q i) q' j row →
      j ≠ i ∧ Unmarked s.edges q' j row := by
    rintro q' j row ⟨hrow, hkey', hmark⟩
    obtain ⟨old, hold, rfl⟩ := getElem?_delete.1 hrow
    by_cases hij : i = j
    · rw [if_pos hij] at hmark
      exact absurd hmark hpos.ne'
    · rw [if_neg hij] at hkey' hmark ⊢
      exact ⟨fun hji => hij hji.symm, hold, hkey', hmark⟩
  refine h.write hm (h.ok.delete x q i) (fun row hrow => ?_) (fun j row hrow hmark => ?_)
    fun q' hq' j row => ?_
  · obtain ⟨j, hj⟩ := mem_iff_getElem?.1 hrow
    obtain ⟨old, hold, rfl⟩ := getElem?_delete.1 hj
    have hissued := h.issued old (mem_of_getElem? hold)
    split <;> exact hissued
  · obtain ⟨hji, hold, -⟩ := hunmarked row.key j row ⟨hrow, rfl, hmark⟩
    refine mem_filter.2 ⟨h.indexed j row hold hmark, decide_eq_true fun heq => ?_⟩
    exact hji (Prod.mk.inj heq).2
  · refine ⟨fun hrow => (hunmarked q' j row hrow).2, fun ⟨hrow, hkey', hmark⟩ => ?_⟩
    have hij : i ≠ j := by
      rintro rfl
      exact hq' (hkey'.symm.trans (hkey row hrow))
    exact ⟨getElem?_delete.2 ⟨row, hrow, (if_neg hij).symm⟩, hkey', hmark⟩

lemma GraphState.Inv.finishWrite (hm : s.mutating = some m) :
    GraphState.Inv { s with edges := m.2.apply s.edges m.1, mutating := none } := by
  obtain ⟨⟨txn, htxn⟩, hnamed, -⟩ := h.writing m hm
  obtain ⟨x, ⟨q, edge⟩ | ⟨i, q⟩⟩ := m
  case create => exact h.create htxn hm
  case delete =>
    simp only [EdgeWrite.apply]
    split
    · exact h.delete htxn hm hnamed
    · exact h.write hm h.ok h.issued h.indexed fun _ _ _ _ => Iff.rfl

lemma GraphState.Inv.startWrite {w : EdgeWrite} (hx : s.txns.active x = some txn)
    (hok : s.Named w ∧ (s.cache.maxHubs = 0 ∨ ∀ f ∈ s.fills, f.1 ≠ w.hub)) :
    GraphState.Inv { s with cache := s.cache.invalidate w.hub, mutating := some (x, w) } := by
  refine ⟨h.ok, h.positive, h.active, h.issued, h.indexed,
    fun q refs hget => h.cached q refs (get_invalidate hget).2, fun f hf => ?_, fun m hm => ?_⟩
  · rw [invalidate_maxHubs]
    exact h.fills f hf
  · cases hm
    refine ⟨⟨txn, hx⟩, hok.1, ?_, ?_⟩
    · rw [Option.eq_none_iff_forall_ne_some]
      exact fun refs hget => (get_invalidate hget).1 rfl
    · rw [invalidate_maxHubs]
      exact hok.2

lemma GraphState.Inv.holds_resolved {r : Reader} (hr : readerIn s.txns x = some r)
    (hclear : s.Clear r q) (hself : s.hasSelfWrite r q = false)
    (hall : ∀ row ∈ s.edges.rows, row.key = q → row.xmax = 0 → r.sees row = true) :
    Holds s.txns s.edges q ((s.resolved r q).map fun e => edgeRef (found e.1 e.2)) := by
  have hrow : ∀ i row, Unmarked s.edges q i row ↔ (i, row) ∈ s.resolved r q := by
    intro i row
    rw [h.mem_resolved hclear]
    refine and_congr_right fun hrow => and_congr_right fun hkey => ?_
    have hmem := mem_of_getElem? hrow
    exact ⟨hall row hmem hkey, hclear.unmarked row hmem hkey⟩
  refine ⟨⟨(s.resolved r q).map fun e => found e.1 e.2, ?_, ?_, fun f => ?_⟩,
    fun i row hunmarked => ?_⟩
  · rw [map_map]
    rfl
  · exact nodup_map_found (h.ok.nodup_searchEq q)
  · simp only [mem_map, Prod.exists, hrow, eq_comm]
  · have hres := (hrow i row).1 hunmarked
    have hsees := ((h.mem_resolved hclear).1 hres).2.2
    have hother : row.xmin ≠ r.xid := by
      intro heq
      have : s.hasSelfWrite r q = true := any_eq_true.2 ⟨(i, row), hres, decide_eq_true heq⟩
      rw [hself] at this
      cases this
    obtain ⟨txn, htxn, rfl⟩ := Option.map_eq_some_iff.1 hr
    have hseen := (isVisible_iff.1 hsees).1
    simp only [Snapshot.sees, Bool.or_eq_true, beq_iff_eq, hother, false_or] at hseen
    split at hseen
    · exact (TxnInner.isCommittedAtSnapshot_computeSnapshot.1 hseen).2.2
    · exact ((h.active x txn htxn).2.2 _ hother hseen).2.2

lemma GraphState.Inv.addFill {r : Reader} (hr : readerIn s.txns x = some r)
    (hclear : s.Clear r q) (hself : s.hasSelfWrite r q = false)
    (hwriting : s.cache.maxHubs = 0 ∨ s.hasSelfWrite r q = true ∨ ∀ m ∈ s.mutating, m.2.hub ≠ q) :
    GraphState.Inv { s with fills := s.fills ++
      [(q, (s.resolved r q).map fun e => edgeRef (found e.1 e.2))] } := by
  refine ⟨h.ok, h.positive, h.active, h.issued, h.indexed, h.cached, fun f hf => ?_, fun m hm => ?_⟩
  · rcases mem_append.1 hf with hf | hf
    · exact h.fills f hf
    · obtain rfl := mem_singleton.1 hf
      refine hclear.all.imp_right fun hall => ?_
      exact h.holds_resolved hr hclear hself (hall.resolve_left (by simp [hself]))
  · obtain ⟨hactive, hnamed, hget, hfills⟩ := h.writing m hm
    refine ⟨hactive, hnamed, hget, ?_⟩
    rcases hwriting with hzero | hself' | hwriting
    · exact .inl hzero
    · rw [hself] at hself'
      cases hself'
    · refine hfills.imp_right fun hfills f hf => ?_
      rcases mem_append.1 hf with hf | hf
      · exact hfills f hf
      · obtain rfl := mem_singleton.1 hf
        exact (hwriting m hm).symm

lemma GraphState.Inv.fill {k : Nat} {victim : Int} {f : Int × List EdgeRef}
    (hf : s.fills[k]? = some f) : GraphState.Inv
      { s with cache := s.cache.insert victim f.1 f.2, fills := s.fills.eraseIdx k } := by
  have hmem := mem_of_getElem? hf
  refine ⟨h.ok, h.positive, h.active, h.issued, h.indexed, fun q refs hget => ?_, fun g hg => ?_,
    fun m hm => ?_⟩
  · rcases AdjacencyCache.get_insert hget with ⟨rfl, rfl⟩ | hget
    · refine (h.fills f hmem).resolve_left fun hzero => ?_
      simp [AdjacencyCache.get, hzero] at hget
    · exact h.cached q refs hget
  · rw [AdjacencyCache.insert_maxHubs]
    exact h.fills g (mem_of_mem_eraseIdx hg)
  · obtain ⟨hactive, hnamed, hget, hfills⟩ := h.writing m hm
    refine ⟨hactive, hnamed, ?_, ?_⟩
    · rw [Option.eq_none_iff_forall_ne_some]
      intro refs hinsert
      rcases AdjacencyCache.get_insert hinsert with ⟨hhub, -⟩ | hold
      · rcases hfills with hzero | hfills
        · simp [AdjacencyCache.get, hzero] at hinsert
        · exact hfills f hmem hhub.symm
      · rw [hget] at hold
        cases hold
    · rw [AdjacencyCache.insert_maxHubs]
      exact hfills.imp_right fun hfills g hg => hfills g (mem_of_mem_eraseIdx hg)

lemma GraphState.Inv.step {a : GraphAction} (hok : s.Careful a)
    (hstep : s.step a = some s') : s'.Inv := by
  cases a with
  | begin isolation =>
    cases hstep
    exact h.begin isolation
  | startWrite x w =>
    obtain ⟨-, hstep⟩ := Option.ite_none_right_eq_some.1 hstep
    obtain ⟨r, hr, rfl⟩ := Option.map_eq_some_iff.1 hstep
    obtain ⟨txn, htxn, -⟩ := Option.map_eq_some_iff.1 hr
    exact h.startWrite htxn hok
  | finishWrite =>
    obtain ⟨m, hm, rfl⟩ := Option.map_eq_some_iff.1 hstep
    exact h.finishWrite hm
  | readHit x req =>
    obtain ⟨r, -, hstep⟩ := Option.bind_eq_some_iff.1 hstep
    obtain ⟨refs, -, rfl⟩ := Option.map_eq_some_iff.1 hstep
    exact h
  | readCold x req =>
    obtain ⟨r, hr, rfl⟩ := Option.map_eq_some_iff.1 hstep
    split
    next => exact h
    next q hhub =>
      split
      next => exact h
      next hself =>
        obtain ⟨hclear, hwriting⟩ := hok r hr q hhub
        exact h.addFill hr hclear (by simpa using hself) hwriting
  | fill k victim =>
    obtain ⟨f, hf, rfl⟩ := Option.map_eq_some_iff.1 hstep
    exact h.fill hf
  | commit x =>
    obtain ⟨hx, hstep⟩ := Option.ite_none_right_eq_some.1 hstep
    obtain ⟨r, -, rfl⟩ := Option.map_eq_some_iff.1 hstep
    exact h.remove hx
  | abort x =>
    obtain ⟨hx, hstep⟩ := Option.ite_none_right_eq_some.1 hstep
    obtain ⟨r, hr, rfl⟩ := Option.map_eq_some_iff.1 hstep
    obtain ⟨txn, htxn, -⟩ := Option.map_eq_some_iff.1 hr
    exact (h.undo htxn hok).remove hx

end

end Steps

lemma GraphState.Inv.empty (maxHubs : Nat) : GraphState.Inv (.empty maxHubs) := by
  have hget : ∀ q, (GraphState.empty maxHubs).cache.get q = none := fun q => ite_self none
  refine ⟨.nil, Nat.one_pos, ?_, ?_, ?_, ?_, ?_, ?_⟩
  · exact fun _ _ hx => nomatch hx
  · exact fun _ hrow => nomatch hrow
  · exact fun _ _ hrow => nomatch hrow
  · intro q refs hq
    rw [hget q] at hq
    cases hq
  · exact fun _ hf => nomatch hf
  · exact fun _ hm => nomatch hm

/-- **The cache is invisible.** In runs of careful steps, for every size of the cache, every read
returns what it would return without a cache: the edges that the reader sees. -/
theorem cache_invisible (rt : Runtime) (maxHubs : Nat) {s : GraphState} {a : GraphAction}
    (hreached : Reached step GraphState.Careful (.empty maxHubs) s) (hok : s.Careful a) :
    s.Right rt a := by
  have h : s.Inv := hreached.invariant GraphState.Inv (.empty maxHubs) fun _ _ _ h hok hstep =>
    h.step hok hstep
  cases a with
  | readHit x req =>
    exact fun r q refs hr hhub hget => h.right_hit hr hhub hget (hok r hr q hhub)
  | readCold x req =>
    exact fun r hr => h.right_cold fun q hq => (hok r hr q hq).1
  | begin | startWrite | finishWrite | fill | commit | abort => trivial

/-- Transaction 1 creates two edges of a hub and reads them, transaction 2 stores a list, deletes
one edge and commits, transaction 3 stores the list again, transaction 4 begins. -/
def carefulRun : List GraphAction :=
  [.begin .readCommitted, .startWrite 1 (.create 7 ⟨8, "KNOWS", "{}"⟩), .finishWrite,
    .startWrite 1 (.create 7 ⟨9, "LIKES", "{}"⟩), .finishWrite, .readCold 1 (.edgesFrom 7),
      .commit 1,
    .begin .repeatableRead, .readCold 2 (.edgesFrom 7), .fill 0 0, .startWrite 2 (.delete 0 7),
    .finishWrite, .commit 2, .begin .readCommitted,
    .readCold 3 (.cypher ⟨some "LIKES", some (.binOp .eq (.column "from_id") (.literal (.int 7)))⟩),
    .fill 0 0, .begin .readCommitted]

/-- Transaction 4 reads from the cache. -/
theorem cache_invisible_carefulRun : let s := runState step (.empty 1) carefulRun
    s.cache.get 7 = some [⟨9, 1, "LIKES", some "{}"⟩] ∧
        s.Right default (.readHit 4 (.edgesFrom 7)) :=
  ⟨by decide +kernel, cache_invisible default 1
    (RunAllowed.reached_runState (by decide +kernel) (by decide +kernel)) (by decide +kernel)⟩

/-- Transaction 1 creates an edge. Transaction 2 reads the hub and stores the empty list,
transaction 1 commits and transaction 3 begins. -/
def storedBeforeCommit : List GraphAction :=
  [.begin .readCommitted, .startWrite 1 (.create 7 ⟨8, "KNOWS", "{}"⟩), .finishWrite,
    .begin .readCommitted, .readCold 2 (.edgesFrom 7), .fill 0 0, .commit 1, .begin .readCommitted]

/-- Transaction 3 is given the empty list. -/
theorem uncommitted_edge_missed :
    ¬∀ (rt : Runtime) (maxHubs : Nat) (s : GraphState) (a : GraphAction),
      Reached step (fun _ _ => True) (.empty maxHubs) s → s.Right rt a := by
  intro hall
  have hreached : Reached step (fun _ _ => True) (.empty 50000)
      (runState step (.empty 50000) storedBeforeCommit) :=
    reached_runState (by simp) (by decide +kernel)
  have hright := hall default 50000 _ (.readHit 3 (.edgesFrom 7)) hreached
    ⟨⟨2, 4, [2, 3]⟩, 3⟩ 7 [] (by decide +kernel) rfl (by decide +kernel)
  have hperm := hright.visible [] rfl
  revert hperm
  decide +kernel

end UniDb.Side
