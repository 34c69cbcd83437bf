import UniDb.Engine.Heap

/-!
# `DELETE` without a predicate

On its fast path the statement is `Catalog::truncate`: the page directory of the table is emptied,
at once and for everybody, and neither rows nor indexes are touched. `deleteRows` is the row path:
every row visible to the statement's snapshot is stamped.

* `deleteRows_spec`: what the row path does to the heap.
* `vacant_of_deletesRows`, `deletesRows_of_vacant`: no reader can tell the two paths apart exactly
  when nobody has a row of the table to lose.
-/

namespace UniDb

open List Engine UniDb.Tuple TxnInner Pool Prod Option

variable {txn : Transaction} {t : Table} {T : TxnInner} {S : Snapshot}

namespace Engine

variable {e e' : Engine} {x : Nat}

/-- The row path: stamp every row visible to the statement's snapshot. -/
def deleteRows (e : Engine) (x : Nat) (table : String) : Option Engine := do
  let e₁ ← e.step (.beginStmt x table true)
  let txn ← e₁.txns.active x
  let t ← e₁.tables table
  let e₂ ← (e₁.pool.scan t.pages txn.snapshot x).foldlM (fun e row => e.deleteRow x row.1) e₁
  e₂.endStmt x []

/-! ## What the row path does -/

/-- `e'` is `e` after the running statement of `x` has stamped `rows`. -/
structure Stamped (e : Engine) (x : Nat) (rows : List RowId) (e' : Engine) : Prop where
  tuple : ∀ s, e'.pool.tuple? s =
    if s ∈ rows then (e.pool.tuple? s).map (setXmax x) else e.pool.tuple? s
  txns : e'.txns = e.txns
  tables : e'.tables = e.tables
  trees : e'.trees = e.trees
  names : e'.names = e.names
  stmt : ∃ stmt stmt', e.stmts x = some stmt ∧ e'.stmts x = some stmt' ∧ stmt'.table = stmt.table ∧
    stmt'.batched = stmt.batched ∧ stmt'.patches = stmt.patches ∧ stmt'.entries = stmt.entries ∧
    ∃ new, stmt'.pendingUndo = stmt.pendingUndo ++ new ∧ ∀ a ∈ new, ∃ p i, a = .xmaxStamp p i

variable {stmt : Stmt} {r : RowId} {table : String}

lemma Stamped.nil (h : e.stmts x = some stmt) : Stamped e x [] e :=
  ⟨fun s => by simp, rfl, rfl, rfl, rfl, stmt, stmt, h, h, rfl, rfl, rfl, rfl, [], by simp, by simp⟩

lemma Stamped.cons {e₁ : Engine} {rows : List RowId} (h₁ : e.deleteRow x r = some e₁)
    (h₂ : Stamped e₁ x rows e') (hr : r ∉ rows) : Stamped e x (r :: rows) e' := by
  obtain ⟨txn, stmt, t, old, pool, actions, hrun, -, -, -, -, -, hw, rfl⟩ := deleteRow_spec h₁
  obtain ⟨-, hstmt, -⟩ := running_eq_some.1 hrun
  obtain ⟨t', ht', -, rfl, htuple⟩ := Pool.deleteRow_spec hw
  refine ⟨fun s => ?_, h₂.txns, h₂.tables, h₂.trees, h₂.names, ?_⟩
  · rw [h₂.tuple]
    by_cases hs : s = r
    · subst hs
      simp [hr, htuple, ht']
    · simp [hs, htuple]
  · obtain ⟨stmt1, stmt', hstmt1, hstmt', h1, h2, h3, h4, new, h5, h6⟩ := h₂.stmt
    cases (setStmt_self ..).symm.trans hstmt1
    refine ⟨stmt, stmt', hstmt, hstmt', h1, h2, h3, h4, .xmaxStamp r.pageId r.slot :: new, ?_, ?_⟩
    · simpa using h5
    · exact forall_mem_cons.2 ⟨⟨_, _, rfl⟩, h6⟩

lemma exists_deleteRow {old : Tuple Row} (hrun : e.running x = some (txn, stmt, t))
    (hb : stmt.batched = true) (hr : r.pageId ∈ t.pages)
    (hfk : tableHasFkChildren e.tableList t.name = false) (hold : e.pool.tuple? r = some old)
    (hvis : old.visible txn.snapshot x = true) (hmax : old.xmax = 0) :
    ∃ e', e.deleteRow x r = some e' := by
  have hw : e.pool.writable r = .ok old := writable_ok.2 ⟨hold, hmax⟩
  refine ⟨{ e with
    pool := e.pool.modify r (setXmax x)
    stmts := e.setStmt x (some { stmt with
      pendingUndo := stmt.pendingUndo ++ [.xmaxStamp r.pageId r.slot]
      delta := stmt.delta - 1 }) }, ?_⟩
  unfold deleteRow Pool.deleteRow
  rw [hrun, hold, hw]
  simp [hb, hr, hfk, hvis, bind, Except.bind, pure, Except.pure, Except.toOption]

lemma foldlM_deleteRow {rows : List (RowId × Tuple Row)} (hnodup : (rows.map fst).Nodup)
    (hstmt : e.stmts x = some stmt) (hrows : ∀ p ∈ rows, e.pool.tuple? p.1 = some p.2)
    (h : rows.foldlM (fun e row => e.deleteRow x row.1) e = some e') :
    (∀ p ∈ rows, p.2.xmax = 0) ∧ Stamped e x (rows.map fst) e' ∧ (e.HeapOk → e'.HeapOk) := by
  induction rows generalizing e stmt with
  | nil =>
    cases h
    exact ⟨(fun _ hp => by cases hp), .nil hstmt, id⟩
  | cons p rows ih =>
    obtain ⟨e₁, h₁, h⟩ := bind_eq_some_iff.1 h
    obtain ⟨hp, hnodup⟩ := nodup_cons.1 hnodup
    obtain ⟨txn, stmt1, t, old, pool, actions, -, -, -, -, hold, -, hw, rfl⟩ := deleteRow_spec h₁
    obtain ⟨t', ht', hmax, -, htuple⟩ := Pool.deleteRow_spec hw
    obtain ⟨hzero, hst, hk⟩ := ih hnodup (setStmt_self ..) (fun q hq => by
      have hne : q.1 ≠ p.1 := fun he => hp (he ▸ mem_map_of_mem hq)
      rw [htuple, if_neg hne]
      exact hrows q (.tail _ hq)) h
    refine ⟨forall_mem_cons.2 ⟨?_, hzero⟩, .cons h₁ hst hp,
      fun h => hk (h.step (a := .deleteRow x p.1) trivial h₁)⟩
    cases ht'.symm.trans (hrows p (.head _))
    exact hmax

lemma exists_foldlM_deleteRow {rows : List (RowId × Tuple Row)}
    (hnodup : (rows.map fst).Nodup) (hrun : e.running x = some (txn, stmt, t))
    (hb : stmt.batched = true) (hfk : tableHasFkChildren e.tableList t.name = false)
    (hrows : ∀ p ∈ rows, p.1.pageId ∈ t.pages ∧ e.pool.tuple? p.1 = some p.2 ∧
      p.2.visible txn.snapshot x = true ∧ p.2.xmax = 0) :
    ∃ e', rows.foldlM (fun e row => e.deleteRow x row.1) e = some e' := by
  induction rows generalizing e stmt with
  | nil => exact ⟨e, rfl⟩
  | cons p rows ih =>
    obtain ⟨hr, hold, hvis, hmax⟩ := hrows p (.head _)
    obtain ⟨hp, hnodup⟩ := nodup_cons.1 hnodup
    obtain ⟨e₁, h₁⟩ := exists_deleteRow hrun hb hr hfk hold hvis hmax
    obtain ⟨hx, hstmt, ht⟩ := running_eq_some.1 hrun
    obtain ⟨txn', stmt', t', old', pool, actions, hrun', -, -, -, -, -, hw, rfl⟩ :=
      deleteRow_spec h₁
    cases hrun'.symm.trans hrun
    obtain ⟨_, -, -, -, htuple⟩ := Pool.deleteRow_spec hw
    refine (ih (e := { e with
        pool
        stmts := e.setStmt x (some { stmt with
          pendingUndo := stmt.pendingUndo ++ actions
          delta := stmt.delta - 1 }) }) hnodup
      (running_eq_some.2 ⟨hx, setStmt_self .., ht⟩) hb hfk fun q hq => ?_).imp fun e₂ h₂ => ?_
    · obtain ⟨hr', hold', hvis', hmax'⟩ := hrows q (.tail _ hq)
      have hne : q.1 ≠ p.1 := fun he => hp (he ▸ mem_map_of_mem hq)
      refine ⟨hr', ?_, hvis', hmax'⟩
      rw [htuple, if_neg hne, hold']
    · rw [foldlM_cons, h₁]
      exact h₂

/-- What both paths start from: the snapshot of the statement. -/
structure Started (e : Engine) (x : Nat) (table : String) (t : Table) (T : TxnInner)
    (txn : Transaction) (S : Snapshot) : Prop where
  table : e.tables table = some t
  quiet : e.quiet = true
  snapshot : e.txns.snapshotForStatement x = some T
  refreshed : TxnInner.Refreshed e.txns T x txn S

lemma undoPatches_append_stamps {new : List UndoAction} (h : ∀ a ∈ new, ∃ p i, a = .xmaxStamp p i)
    (log : List UndoAction) (trees : Nat → DiskBTree) :
    undoPatches (log ++ new) trees = undoPatches log trees := by
  unfold undoPatches
  rw [reverse_append, foldl_append]
  congr 1
  have hrev : ∀ a ∈ new.reverse, ∃ p i, a = UndoAction.xmaxStamp p i := fun a ha =>
    h a (mem_reverse.1 ha)
  generalize new.reverse = l at hrev
  induction l generalizing trees with
  | nil => rfl
  | cons a l ih =>
    obtain ⟨p, i, rfl⟩ := hrev a (.head _)
    exact ih trees fun b hb => hrev b (.tail _ hb)

/-- What the row path leaves: the rows of the scan stamped, everything else as it was. -/
structure RowsDeleted (e : Engine) (x : Nat) (t : Table) (T : TxnInner) (S : Snapshot)
    (e' : Engine) :
    Prop where
  unstamped : ∀ r τ, (r, τ) ∈ e.pool.scan t.pages S x → τ.xmax = 0
  heapOk : e'.HeapOk
  tuple : ∀ s, e'.pool.tuple? s = if s ∈ (e.pool.scan t.pages S x).map fst then
    (e.pool.tuple? s).map (setXmax x) else e.pool.tuple? s
  tables : e'.tables = e.tables
  trees : e'.trees = e.trees
  steady : T.Steady e'.txns
  stmt : e'.stmts x = none
  undo : ∀ trees, undoPatches (txnLog e'.txns x) trees = undoPatches (txnLog T x) trees

section
variable (hk : e.HeapOk) (hst : e.Started x table t T txn S)
include hk hst

lemma Started.step : e.step (.beginStmt x table true) = some { e with
      txns := T, stmts := e.setStmt x (some ⟨table, true, [], [], [], [], 0⟩) } := by
  simp [Engine.step, stmts_of_quiet hk hst.quiet, hst.table, hst.snapshot]

variable (hp : PagesOk e.names e.tables)
include hp

lemma deleteRows_spec (h : e.deleteRows x table = some e') : RowsDeleted e x t T S e' := by
  have hbegin := hst.step hk
  have hk1 := hk.step (a := .beginStmt x table true) trivial hbegin
  unfold deleteRows at h
  rw [hbegin] at h
  simp only [bind_eq_bind, bind_some, hst.refreshed.new, hst.table] at h
  obtain ⟨e₂, hfold, hend⟩ := bind_eq_some_iff.1 h
  obtain ⟨hzero, hstamped, hk2⟩ := foldlM_deleteRow (nodup_scan (hp.nodup table t hst.table) S x)
    (setStmt_self ..) (fun p hp => (mem_scan.1 hp).2.1) hfold
  obtain ⟨stmt, stmt2, hstmt, hstmt2, -, -, hpatches, hentries, new, hpend, hnew⟩ := hstamped.stmt
  cases (setStmt_self ..).symm.trans hstmt
  have hk' := (hk2 hk1).step (a := .endStmt x []) trivial hend
  obtain ⟨stmt', hstmt', rfl⟩ := endStmt_spec hend
  cases hstmt'.symm.trans hstmt2
  have hT : T = e₂.txns := hstamped.txns.symm
  refine ⟨fun r τ hr => hzero (r, τ) hr, hk', hstamped.tuple, hstamped.tables, ?_, ?_,
    setStmt_self .., fun trees => ?_⟩
  · rw [hpatches, hentries]
    exact hstamped.trees
  · exact hT ▸ endTxns_steady ..
  · rw [← hT, txnLog_endTxns hst.refreshed.new, hpend, hpatches]
    simpa [patchUndo] using undoPatches_append_stamps hnew _ trees

lemma exists_deleteRows (hfk : tableHasFkChildren e.tableList t.name = false)
    (hzero : ∀ r τ, (r, τ) ∈ e.pool.scan t.pages S x → τ.xmax = 0) :
    ∃ e', e.deleteRows x table = some e' := by
  have hbegin := hst.step hk
  have hrun : running { e with
      txns := T, stmts := e.setStmt x (some ⟨table, true, [], [], [], [], 0⟩) } x =
      some ({ txn with snapshot := S }, ⟨table, true, [], [], [], [], 0⟩, t) :=
    running_eq_some.2 ⟨hst.refreshed.new, setStmt_self .., hst.table⟩
  obtain ⟨e₂, hfold⟩ := exists_foldlM_deleteRow (nodup_scan (hp.nodup table t hst.table) S x)
    hrun rfl hfk fun p hp => by
      obtain ⟨h1, h2, h3⟩ := mem_scan.1 hp
      exact ⟨h1, h2, h3, hzero p.1 p.2 hp⟩
  obtain ⟨-, hstamped, -⟩ := foldlM_deleteRow (nodup_scan (hp.nodup table t hst.table) S x)
    (setStmt_self ..) (fun p hp => (mem_scan.1 hp).2.1) hfold
  obtain ⟨stmt, stmt2, -, hstmt2, -⟩ := hstamped.stmt
  refine isSome_iff_exists.1 ?_
  unfold deleteRows
  rw [hbegin]
  simp only [bind_eq_bind, bind_some, hst.refreshed.new, hst.table]
  rw [show List.foldlM _ _ _ = some e₂ from hfold]
  simp [endStmt, hstmt2]

end

/-! ## Readers -/

def Finds (e : Engine) (table : String) (S : Snapshot) (y : Nat) (r : RowId) : Prop :=
  ∃ t τ, e.tables table = some t ∧ (r, τ) ∈ e.pool.scan t.pages S y

def LooksUp (e : Engine) (root : Nat) (key : OrderedValue) (S : Snapshot) (y : Nat) (r : RowId) :
    Prop :=
  ∃ r₀ τ, (e.trees root).Has key r₀ ∧ e.pool.getVisibleWithRid r₀ S y = some (r, τ)

/-- No reader can tell the states apart by the rows of the table. -/
structure SameReads (t : Table) (e₁ e₂ : Engine) : Prop where
  scan : ∀ S y, e₁.Reader S y → ∀ r, e₁.Finds t.name S y r ↔ e₂.Finds t.name S y r
  lookup : ∀ S y, e₁.Reader S y → ∀ root ∈ treeRoots t.toTableDef, ∀ key r,
    e₁.LooksUp root key S y r ↔ e₂.LooksUp root key S y r

/-- **The fast path deletes rows**: it reads like the row path at once, after the transaction is
aborted, after it is committed, and after a crash. -/
def DeletesRows (e : Engine) (x : Nat) (t : Table) : Prop :=
  ∃ e₁ e₂, e.truncate x t.name = some e₁ ∧ e.deleteRows x t.name = some e₂ ∧ SameReads t e₁ e₂ ∧
    (∃ a₁ a₂, e₁.abort x = some a₁ ∧ e₂.abort x = some a₂ ∧ SameReads t a₁ a₂) ∧
    (∃ c₁ c₂, e₁.commit x = some c₁ ∧ e₂.commit x = some c₂ ∧ SameReads t c₁ c₂) ∧
    SameReads t e₁.restart e₂.restart

/-- Nobody has a row of the table to lose: no version on its pages is visible to another running
transaction or to a new one, those visible to the statement are its own, and no entry of the table's
trees leads to one of them, for the statement or for a reader after the commit. -/
structure Vacant (e : Engine) (x : Nat) (t : Table) (T : TxnInner) (S : Snapshot) : Prop where
  others : ∀ r τ, e.pool.tuple? r = some τ → r.pageId ∈ t.pages → ∀ y S', y ≠ x →
    snapshotOf T y = some S' → τ.visible S' y = false
  fresh : ∀ r τ, e.pool.tuple? r = some τ → r.pageId ∈ t.pages →
    τ.visible e.txns.computeSnapshot e.txns.nextXid = false
  own : ∀ r τ, e.pool.tuple? r = some τ → r.pageId ∈ t.pages → τ.visible S x = true → τ.xmin = x
  index : ∀ root ∈ treeRoots t.toTableDef, ∀ key r₀ r τ, (e.trees root).Has key r₀ →
    r.pageId ∈ t.pages → τ.xmin = x → e.pool.getVisibleWithRid r₀ S x ≠ some (r, τ) ∧
      e.pool.getVisibleWithRid r₀ (e.txns.remove x).computeSnapshot e.txns.nextXid ≠ some (r, τ)

/-! ### What the readers see -/

section
variable {t : Table} {T : TxnInner} {txn : Transaction} {S : Snapshot} {table : String}

variable {y : Nat} {S' : Snapshot} {τ u : Tuple Row} {t1 : Table} {X : Nat → Prop}

lemma snapshotOf_eq_some :
    snapshotOf T y = some S' ↔ ∃ txn, T.active y = some txn ∧ txn.snapshot = S' :=
  map_eq_some_iff

section
variable (hk : e.HeapOk) (h : e.Started x table t T txn S)
include h

lemma Started.steady : e.txns.Steady T := snapshotForStatement_steady h.snapshot

lemma Started.active : T.active x ≠ none := by simp [h.refreshed.new]

lemma Started.computeSnapshot_remove :
    (e.txns.remove x).computeSnapshot = (T.remove x).computeSnapshot := by
  have hnext : (T.remove x).nextXid = (e.txns.remove x).nextXid := h.steady.nextXid
  refine (computeSnapshot_congr hnext fun y => ?_).symm
  rw [remove_active_eq_none, remove_active_eq_none, h.steady.domain y]

lemma Started.reader_after (hS' : S' = (T.remove x).computeSnapshot) (hy : y = T.nextXid) :
    S' = (e.txns.remove x).computeSnapshot ∧ y = e.txns.nextXid :=
  ⟨hS'.trans h.computeSnapshot_remove.symm, hy.trans h.steady.nextXid⟩

lemma Started.not_finished : ¬ e.txns.Finished x := fun hf =>
  h.active ((h.steady.domain x).2 hf.2.2)

include hk

lemma Started.heap : HeapInv e.pool T e.log := hk.heap.steady h.steady hk.heap.logged

lemma Started.xid_lt : 0 < x ∧ x < e.txns.nextXid := by
  rw [← h.steady.nextXid]
  exact (h.heap hk).active_lt x h.active

lemma Started.sees_after {z : Nat} (hz : z < e.txns.nextXid) :
    (e.txns.remove x).computeSnapshot.sees e.txns.nextXid z = true ↔ e.txns.Finished z ∨ z = x := by
  rw [Snapshot.sees_iff, or_iff_right (Nat.ne_of_lt hz)]
  exact isCommittedAtSnapshot_computeSnapshot.trans (finished_remove_iff (h.xid_lt hk))

lemma Started.unseen (hy : y ≠ x) (hS' : snapshotOf T y = some S') : S'.sees y x = false := by
  obtain ⟨txn', hy', rfl⟩ := snapshotOf_eq_some.1 hS'
  by_contra hs
  have hs' : txn'.snapshot.sees y x = true := by simpa using hs
  rcases (h.heap hk).sees_cases hy' hs' with he | hf
  · exact hy he.symm
  · exact h.active hf.2.2

lemma Started.unseen_fresh : e.txns.computeSnapshot.sees e.txns.nextXid x = false := by
  by_contra hs
  have hs' : e.txns.computeSnapshot.sees e.txns.nextXid x = true := by simpa using hs
  rcases Snapshot.sees_iff.1 hs' with he | hc
  · have := (h.xid_lt hk).2
    omega
  · exact h.not_finished (isCommittedAtSnapshot_computeSnapshot.1 hc)

lemma Started.own_xmax (hτ : e.pool.tuple? r = some τ) (hmin : τ.xmin = x) : τ.xmax = 0 ∨
    τ.xmax = x := by
  by_cases h0 : τ.xmax = 0
  · exact .inl h0
  · rcases hk.heap.saw r τ hτ h0 with he | hf
    · exact .inr (he.symm.trans hmin)
    · exact absurd (hmin ▸ hf) h.not_finished

end

lemma sees_self (S : Snapshot) (y : Nat) : S.sees y y = true := by simp [Snapshot.sees]

/-- What the fast path leaves. -/
def truncated (e : Engine) (t : Table) (T : TxnInner) : Engine :=
  { e with txns := T, tables := e.setTable { t with pages := [], rowCount := 0 } }

lemma truncate_of_started (hst : e.Started x t.name t T txn S) :
    e.truncate x t.name = some (e.truncated t T) := by
  simp [truncate, truncated, hst.quiet, hst.table, hst.snapshot]

lemma truncated_tables :
    (e.truncated t T).tables t.name = some { t with pages := [], rowCount := 0 } :=
  Function.update_self ..

lemma not_finds (ht : e.tables table = some t1) (hpages : t1.pages = []) (S' : Snapshot)
    (y : Nat) (r : RowId) : ¬ e.Finds table S' y r := by
  rintro ⟨t2, τ, ht2, hmem⟩
  cases ht.symm.trans ht2
  have := (mem_scan.1 hmem).1
  rw [hpages] at this
  cases this

lemma finds_iff (ht : e.tables table = some t1) : e.Finds table S' y r ↔
      ∃ τ, r.pageId ∈ t1.pages ∧ e.pool.tuple? r = some τ ∧ τ.visible S' y = true := by
  constructor
  · rintro ⟨t2, τ, ht2, hmem⟩
    cases ht.symm.trans ht2
    exact ⟨τ, mem_scan.1 hmem⟩
  · rintro ⟨τ, h⟩
    exact ⟨t1, τ, ht, mem_scan.2 h⟩

lemma mem_stamped : r ∈ (e.pool.scan t.pages S x).map fst ↔
      ∃ τ, r.pageId ∈ t.pages ∧ e.pool.tuple? r = some τ ∧ τ.visible S x = true := by
  constructor
  · intro h
    obtain ⟨⟨r', τ⟩, hmem, rfl⟩ := mem_map.1 h
    exact ⟨τ, mem_scan.1 hmem⟩
  · rintro ⟨τ, h⟩
    exact mem_map.2 ⟨(r, τ), mem_scan.2 h, rfl⟩

section
variable (h : RowsDeleted e x t T S e')

include h

/-- A version after the row path: the same, or unstamped before and stamped by `x`. -/
lemma RowsDeleted.cases (hτ : e.pool.tuple? r = some τ) :
    (¬ (r.pageId ∈ t.pages ∧ τ.visible S x = true) ∧ e'.pool.tuple? r = some τ) ∨
      (r.pageId ∈ t.pages ∧ τ.visible S x = true ∧ τ.xmax = 0 ∧
        e'.pool.tuple? r = some (τ.setXmax x)) := by
  by_cases hd : r.pageId ∈ t.pages ∧ τ.visible S x = true
  · refine .inr ⟨hd.1, hd.2, h.unstamped r τ (mem_scan.2 ⟨hd.1, hτ, hd.2⟩), ?_⟩
    rw [h.tuple, if_pos (mem_stamped.2 ⟨τ, hd.1, hτ, hd.2⟩), hτ]
    rfl
  · refine .inl ⟨hd, ?_⟩
    rw [h.tuple, if_neg, hτ]
    rintro hmem
    obtain ⟨τ', hp, hτ', hv⟩ := mem_stamped.1 hmem
    cases hτ.symm.trans hτ'
    exact hd ⟨hp, hv⟩

lemma RowsDeleted.tuple_none (hr : e.pool.tuple? r = none) : e'.pool.tuple? r = none := by
  rw [h.tuple, hr]
  split <;> rfl

/-- Whoever does not know of `x` still sees what the row path stamped. -/
lemma RowsDeleted.visible (hτ : e.pool.tuple? r = some τ)
    (hx : S'.sees y x = false) (hv : τ.visible S' y = true) :
    ∃ u, e'.pool.tuple? r = some u ∧ u.visible S' y = true := by
  rcases h.cases hτ with ⟨-, hu⟩ | ⟨-, -, -, hu⟩
  · exact ⟨τ, hu, hv⟩
  · exact ⟨_, hu, visible_iff.2 ⟨(visible_iff.1 hv).1, .inr hx⟩⟩

lemma RowsDeleted.not_visible (hx0 : x ≠ 0)
    (hτ : e.pool.tuple? r = some τ) (hp : r.pageId ∈ t.pages) (hv : τ.visible S x = true)
    (hx : S'.sees y x = true) (hu : e'.pool.tuple? r = some u) : u.visible S' y = false := by
  rcases h.cases hτ with ⟨hd, -⟩ | ⟨-, -, -, hu'⟩
  · exact absurd ⟨hp, hv⟩ hd
  · cases hu.symm.trans hu'
    exact not_visible hx0 fun _ => hx

end

section
variable (hst : e.Started x t.name t T txn S) (hrd : RowsDeleted e x t T S e')
include hst hrd

/-- Readers who do not know of `x` and agree on both states see no row of the table. -/
lemma RowsDeleted.unseen (hsame : SameReads t (e.truncated t T) e')
    (hreader : S' = e.txns.computeSnapshot ∧ y = e.txns.nextXid ∨ snapshotOf T y = some S')
    (hx : S'.sees y x = false) (hτ : e.pool.tuple? r = some τ) (hpage : r.pageId ∈ t.pages) :
    τ.visible S' y = false := by
  have hreads : (e.truncated t T).Reader S' y := by
    rcases hreader with ⟨rfl, rfl⟩ | hr
    · exact .inr ⟨hst.steady.nextXid.symm,
        (computeSnapshot_congr hst.steady.nextXid hst.steady.domain).symm⟩
    · exact .inl hr
  by_contra hv
  obtain ⟨u, hu, hvu⟩ := hrd.visible hτ hx (by simpa using hv)
  have hfinds : e'.Finds t.name S' y r :=
    (finds_iff (by rw [hrd.tables]; exact hst.table)).2 ⟨u, hpage, hu, hvu⟩
  rw [← hsame.scan S' y hreads] at hfinds
  exact not_finds truncated_tables rfl S' y r hfinds

variable (hk : e.HeapOk)
include hk

/-- Unless it is one of `x`, a row that the statement sees is there for new transactions. -/
lemma RowsDeleted.own (hfresh : ∀ r τ, e.pool.tuple? r = some τ → r.pageId ∈ t.pages →
      τ.visible e.txns.computeSnapshot e.txns.nextXid = false) (hτ : e.pool.tuple? r = some τ)
    (hpage : r.pageId ∈ t.pages) (hv : τ.visible S x = true) : τ.xmin = x := by
  by_contra hne
  have hmax := hrd.unstamped r τ (mem_scan.2 ⟨hpage, hτ, hv⟩)
  have hfin : e.txns.Finished τ.xmin := by
    have := ((hst.heap hk).sees_cases hst.refreshed.new (visible_iff.1 hv).1).resolve_left hne
    exact hst.steady.finished_iff.1 this
  have hvis : τ.visible e.txns.computeSnapshot e.txns.nextXid = true :=
    visible_iff.2 ⟨Snapshot.sees_iff.2
      (.inr (isCommittedAtSnapshot_computeSnapshot.2 hfin)), .inl hmax⟩
  rw [hfresh r τ hτ hpage] at hvis
  cases hvis

/-- Where reads agree, no entry leads a reader who knows of `x` to a row that the row path has
stamped. -/
lemma RowsDeleted.not_resolved {e₁ e₂ : Engine} {root : Nat} {key : OrderedValue} {r₀ : RowId}
    (hpool₁ : e₁.pool = e.pool) (htrees₁ : e₁.trees = e.trees) (hpool₂ : e₂.pool = e'.pool)
    (hlookup : e₁.LooksUp root key S' y r ↔ e₂.LooksUp root key S' y r)
    (hhas : (e.trees root).Has key r₀) (hpage : r.pageId ∈ t.pages) (hv : τ.visible S x = true)
    (hx : S'.sees y x = true) : e.pool.getVisibleWithRid r₀ S' y ≠ some (r, τ) := by
  intro hres
  obtain ⟨r1, u, -, hres'⟩ := hlookup.1 ⟨r₀, τ, htrees₁ ▸ hhas, hpool₁ ▸ hres⟩
  obtain ⟨hu, hvu⟩ := followHotChain_visible hres'
  rw [hrd.not_visible (Nat.ne_of_gt (hst.xid_lt hk).1) (followHotChain_visible hres).1 hpage hv hx
    (hpool₂ ▸ hu)] at hvu
  cases hvu

end

lemma vacant_of_deletesRows (hk : e.HeapOk) (hp : PagesOk e.names e.tables)
    (hst : e.Started x t.name t T txn S) (h : e.DeletesRows x t) : Vacant e x t T S := by
  obtain ⟨e₁, e₂, htrunc, hrows, hsame, -, ⟨c₁, c₂, hc1, hc2, hcommit⟩, -⟩ := h
  cases (truncate_of_started hst).symm.trans htrunc
  have hrd := deleteRows_spec hk hst hp hrows
  have hfresh : ∀ r τ, e.pool.tuple? r = some τ → r.pageId ∈ t.pages →
      τ.visible e.txns.computeSnapshot e.txns.nextXid = false := fun r τ hτ hpage =>
    hrd.unseen hst hsame (.inl ⟨rfl, rfl⟩) (hst.unseen_fresh hk) hτ hpage
  refine ⟨fun r τ hτ hpage y S' hy hS' => hrd.unseen hst hsame (.inr hS')
    (hst.unseen hk hy hS') hτ hpage, hfresh,
    fun r τ hτ hpage hv => hrd.own hst hk hfresh hτ hpage hv,
    fun root hroot key r₀ r τ hhas hpage hmin => ⟨fun hres => ?_, fun hres => ?_⟩⟩
  · have hreader : (e.truncated t T).Reader S x :=
      .inl (snapshotOf_eq_some.2 ⟨_, hst.refreshed.new, rfl⟩)
    exact hrd.not_resolved hst hk rfl rfl rfl (hsame.lookup S x hreader root hroot key r) hhas hpage
      (followHotChain_visible hres).2 (sees_self S x) hres
  · obtain ⟨hτ, hv⟩ := followHotChain_visible hres
    obtain ⟨txn1, -, -, rfl⟩ := commit_spec hc1
    obtain ⟨txn2, -, -, rfl⟩ := commit_spec hc2
    have hseesx : (e.txns.remove x).computeSnapshot.sees e.txns.nextXid x = true :=
      (hst.sees_after hk (hst.xid_lt hk).2).2 (.inr rfl)
    have hvx : τ.visible S x = true := by
      refine visible_iff.2 ⟨by rw [hmin]; exact sees_self S x, .inl ?_⟩
      refine (hst.own_xmax hk hτ hmin).resolve_right fun hmax => ?_
      rcases (visible_iff.1 hv).2 with h0 | hs
      · have := (hst.xid_lt hk).1
        omega
      · rw [hmax, hseesx] at hs
        cases hs
    refine hrd.not_resolved hst hk ?_ ?_ ?_ (hcommit.lookup _ _ (.inr ⟨hst.steady.nextXid.symm,
      hst.computeSnapshot_remove⟩) root hroot key r) hhas hpage hvx hseesx hres <;> rfl

/-! ### A vacant table -/

lemma looksUp_iff {e₁ e₂ : Engine} {root : Nat} {key : OrderedValue}
    (htrees : e₂.trees = e₁.trees) (hres : ∀ r₀, (e₁.trees root).Has key r₀ →
      (e₂.pool.getVisibleWithRid r₀ S' y).map fst =
        (e₁.pool.getVisibleWithRid r₀ S' y).map fst) (r : RowId) :
    e₁.LooksUp root key S' y r ↔ e₂.LooksUp root key S' y r := by
  have hone : ∀ (P : Pool Row) r₀, (∃ τ, P.getVisibleWithRid r₀ S' y = some (r, τ)) ↔
      (P.getVisibleWithRid r₀ S' y).map fst = some r := by
    intro P r₀
    rw [map_eq_some_iff]
    constructor
    · rintro ⟨τ, h⟩
      exact ⟨(r, τ), h, rfl⟩
    · rintro ⟨⟨r', τ⟩, h, rfl⟩
      exact ⟨τ, h⟩
  unfold LooksUp
  rw [htrees]
  refine exists_congr fun r₀ => ?_
  rw [exists_and_left, exists_and_left]
  refine and_congr_right fun hhas => ?_
  rw [hone, hone, hres r₀ hhas]

/-- Reads agree if the table is empty in the first state, nobody sees a row of it in the second, and
every entry resolves alike. -/
lemma sameReads_of {e₁ e₂ : Engine} {t2 : Table} (ht1 : e₁.tables t.name = some t1)
    (hpages1 : t1.pages = []) (ht2 : e₂.tables t.name = some t2) (hpages2 : t2.pages = t.pages)
    (htrees : e₂.trees = e₁.trees)
    (hscan : ∀ S' y, e₁.Reader S' y → ∀ r u, r.pageId ∈ t.pages → e₂.pool.tuple? r = some u →
      u.visible S' y = false)
    (hlookup : ∀ S' y, e₁.Reader S' y → ∀ root ∈ treeRoots t.toTableDef, ∀ key r₀,
      (e₁.trees root).Has key r₀ → (e₂.pool.getVisibleWithRid r₀ S' y).map fst =
        (e₁.pool.getVisibleWithRid r₀ S' y).map fst) : SameReads t e₁ e₂ where
  scan S' y hreader r := by
    refine iff_of_false (not_finds ht1 hpages1 S' y r) fun hfind => ?_
    obtain ⟨u, hp, hu, hv⟩ := (finds_iff ht2).1 hfind
    rw [hscan S' y hreader r u (hpages2 ▸ hp) hu] at hv
    cases hv
  lookup S' y hreader root hroot key := looksUp_iff htrees (hlookup S' y hreader root hroot key)

/-- Rolling back `x` leaves no difference between a version and the same version stamped by the
row path. -/
lemma undone_agree (hX : X x) {w1 w2 : Tuple Row} (hu : u = τ ∨ τ.xmin = x ∧ u = τ.setXmax x)
    (h₁ : Undone X τ w1) (h₂ : Undone X u w2) :
    w2.xmin = w1.xmin ∧ w2.xmax = w1.xmax ∧ w2.hotTarget r = w1.hotTarget r := by
  have hmin : u.xmin = τ.xmin := by
    rcases hu with rfl | ⟨-, rfl⟩ <;> rfl
  have hsame : ¬ X τ.xmin → u = τ := fun hn => hu.resolve_right fun hx => hn (hx.1 ▸ hX)
  refine ⟨by rw [h₂.xmin, hmin, h₁.xmin], ?_⟩
  rcases h₁.cases with ⟨hown, hmax, hnext⟩ | ⟨hown, hst, hmax, hnext⟩ | ⟨hown, hst, rfl⟩
  · obtain ⟨hmax2, hnext2⟩ := h₂.own (hmin ▸ hown)
    exact ⟨by rw [hmax2, hmin, hmax], by simp [hotTarget, hnext, hnext2]⟩
  · obtain rfl := hsame hown
    obtain ⟨hmax2, hnext2⟩ := h₂.stamped hown hst
    exact ⟨hmax2.trans hmax.symm, by simp [hotTarget, hnext, hnext2]⟩
  · obtain rfl := hsame hown
    rw [h₂.other hown hst]
    exact ⟨rfl, rfl⟩

lemma not_seen_remove (h : snapshotOf (T.remove x) y = some S') :
    y ≠ x ∧ snapshotOf T y = some S' := by
  have hy : y ≠ x := by
    rintro rfl
    simp [snapshotOf] at h
  exact ⟨hy, by rwa [snapshotOf, remove_active_ne T hy] at h⟩

section
variable (h : Vacant e x t T S) (hk : e.HeapOk)
include h hk

/-- What new transactions see now is what they see afterwards, as far as nobody is left who could
hide it. -/
lemma Vacant.fresh_absurd (hτ : e.pool.tuple? r = some τ) (hp : r.pageId ∈ t.pages)
    (hmin : e.txns.Finished τ.xmin) (hmax : τ.xmax = 0 ∨ ¬ e.txns.Finished τ.xmax) : False := by
  have hvis : τ.visible e.txns.computeSnapshot e.txns.nextXid = true := by
    refine visible_iff.2 ⟨Snapshot.sees_iff.2
      (.inr (isCommittedAtSnapshot_computeSnapshot.2 hmin)), hmax.imp_right fun hn => ?_⟩
    by_contra hs
    have hlt := hk.heap.xmax_lt r τ hτ
    exact hn (isCommittedAtSnapshot_computeSnapshot.1
      ((Snapshot.sees_iff.1 (by simpa using hs)).resolve_left (Nat.ne_of_lt hlt)))
  rw [h.fresh r τ hτ hp] at hvis
  cases hvis

variable (hst : e.Started x t.name t T txn S)
include hst

/-- In a vacant table the row path stamps only rows that `x` itself has inserted. -/
lemma Vacant.rows (hτ : e.pool.tuple? r = some τ) (hp : r.pageId ∈ t.pages)
    (hv : τ.visible S x = true) :
    τ.xmin = x ∧ τ.xmax = 0 := by
  have hmin := h.own r τ hτ hp hv
  refine ⟨hmin, (hst.own_xmax hk hτ hmin).resolve_right fun hmax => ?_⟩
  rcases (visible_iff.1 hv).2 with h0 | hs
  · have := (hst.xid_lt hk).1
    omega
  · rw [hmax, sees_self] at hs
    cases hs

variable (hrd : RowsDeleted e x t T S e')
include hrd

/-- Readers of the two states who do not know of `x`, and readers who do and to whom no entry shows
a row of `x`, resolve every entry alike. -/
lemma Vacant.resolve {r₀ : RowId}
    (hx : S'.sees y x = true → ∀ r τ, e.pool.getVisibleWithRid r₀ S' y = some (r, τ) →
      r.pageId ∈ t.pages → τ.xmin ≠ x) : (e'.pool.getVisibleWithRid r₀ S' y).map fst =
      (e.pool.getVisibleWithRid r₀ S' y).map fst := by
  refine followHotChain_map_eq (fun r hr => hrd.tuple_none hr) (fun r τ hτ => ?_)
    (fun r τ hres u hu => ?_)
  · rcases hrd.cases hτ with ⟨-, hu⟩ | ⟨-, -, hmax, hu⟩
    · exact ⟨τ, hu, rfl, id⟩
    · exact ⟨_, hu, rfl, fun hv => visible_iff.2 ⟨(visible_iff.1 hv).1, .inl hmax⟩⟩
  · obtain ⟨hτ, hv⟩ := followHotChain_visible hres
    rcases hrd.cases hτ with ⟨-, hu'⟩ | ⟨hp, hvx, -, -⟩
    · cases hu.symm.trans hu'
      exact hv
    · have hmin := (h.rows hk hst hτ hp hvx).1
      have hseen := (visible_iff.1 hv).1
      rw [hmin] at hseen
      exact absurd hmin (hx hseen r τ hres hp)

lemma Vacant.not_visible (hreader : ∀ r τ, e.pool.tuple? r = some τ → r.pageId ∈ t.pages →
      ¬ τ.visible S x = true → τ.visible S' y = false) (hu : e'.pool.tuple? r = some u)
    (hp : r.pageId ∈ t.pages) : u.visible S' y = false := by
  cases hτ : e.pool.tuple? r with
  | none =>
    rw [hrd.tuple_none hτ] at hu
    cases hu
  | some τ =>
    rcases hrd.cases hτ with ⟨hd, hu'⟩ | ⟨-, hvx, -, hu'⟩
    · cases hu.symm.trans hu'
      exact hreader r u hτ hp fun hv => hd ⟨hp, hv⟩
    · cases hu.symm.trans hu'
      -- a version created and deleted by the same transaction
      have hmin : (τ.setXmax x).xmin = x := (h.rows hk hst hτ hp hvx).1
      exact not_visible (Nat.ne_of_gt (hst.xid_lt hk).1) (by rw [hmin]; exact id)

lemma Vacant.sameReads_now : SameReads t (e.truncated t T) e' := by
  have hself : snapshotOf T x = some S := snapshotOf_eq_some.2 ⟨_, hst.refreshed.new, rfl⟩
  have hfresh : T.computeSnapshot = e.txns.computeSnapshot :=
    computeSnapshot_congr hst.steady.nextXid hst.steady.domain
  refine sameReads_of truncated_tables rfl (hrd.tables ▸ hst.table) rfl hrd.trees ?_ ?_
  · intro S' y hreader r u hp hu
    refine h.not_visible hk hst hrd (fun r τ hτ hp hnx => ?_) hu hp
    rcases hreader with hS' | ⟨hy, hS'⟩
    · by_cases hyx : y = x
      · subst hyx
        cases hself.symm.trans hS'
        simpa using hnx
      · exact h.others r τ hτ hp y S' hyx hS'
    · rw [hS', hy]
      show τ.visible T.computeSnapshot T.nextXid = false
      rw [hfresh, hst.steady.nextXid]
      exact h.fresh r τ hτ hp
  · intro S' y hreader root hroot key r₀ hhas
    refine h.resolve hk hst hrd fun hsees r τ hres hp hmin => ?_
    rcases hreader with hS' | ⟨hy, hS'⟩
    · by_cases hyx : y = x
      · subst hyx
        cases hself.symm.trans hS'
        exact (h.index root hroot key r₀ r τ hhas hp hmin).1 hres
      · rw [hst.unseen hk hyx hS'] at hsees
        cases hsees
    · have hno := hst.unseen_fresh hk
      rw [← hfresh, ← hst.steady.nextXid] at hno
      rw [hS', hy] at hsees
      exact absurd (hno.symm.trans hsees) (by decide)

lemma Vacant.sameReads_commit {c₁ c₂ : Engine}
    (hc1 : (e.truncated t T).commit x = some c₁) (hc2 : e'.commit x = some c₂) :
    SameReads t c₁ c₂ := by
  obtain ⟨txn1, -, -, rfl⟩ := commit_spec hc1
  obtain ⟨txn2, -, -, rfl⟩ := commit_spec hc2
  refine sameReads_of (truncated_tables (T := T)) rfl (hrd.tables ▸ hst.table) rfl hrd.trees ?_ ?_
  · intro S' y hreader r u hp hu
    refine h.not_visible hk hst hrd (fun r τ hτ hp hnx => ?_) hu hp
    rcases hreader with hS' | ⟨hy, hS'⟩
    · obtain ⟨hyx, hS'⟩ := not_seen_remove hS'
      exact h.others r τ hτ hp y S' hyx hS'
    · obtain ⟨rfl, rfl⟩ := hst.reader_after hS' hy
      by_contra hvis
      obtain ⟨h1, h2⟩ := visible_iff.1 (by simpa using hvis)
      have hmin := (hst.sees_after hk (hk.heap.xmin_lt r τ hτ).2).1 h1
      have hmax : τ.xmax = 0 ∨ ¬ (e.txns.Finished τ.xmax ∨ τ.xmax = x) := by
        refine h2.imp_right fun hs hc => ?_
        rw [(hst.sees_after hk (hk.heap.xmax_lt r τ hτ)).2 hc] at hs
        cases hs
      rcases hmin with hfin | hmin
      · exact h.fresh_absurd hk hτ hp hfin (hmax.imp_right fun hn hf => hn (.inl hf))
      · refine hnx (visible_iff.2 ⟨by rw [hmin]; exact sees_self S x, .inl ?_⟩)
        rcases hst.own_xmax hk hτ hmin with h0 | hx
        · exact h0
        · exact hmax.resolve_right fun hn => hn (.inr hx)
  · intro S' y hreader root hroot key r₀ hhas
    refine h.resolve hk hst hrd fun hsees r τ hres hp hmin => ?_
    rcases hreader with hS' | ⟨hy, hS'⟩
    · obtain ⟨hyx, hS'⟩ := not_seen_remove hS'
      rw [hst.unseen hk hyx hS'] at hsees
      cases hsees
    · obtain ⟨rfl, rfl⟩ := hst.reader_after hS' hy
      exact (h.index root hroot key r₀ r τ hhas hp hmin).2 hres

/-- Reads after `x`, and possibly others, have been rolled back in both states. -/
lemma Vacant.sameReads_undo (hX : X x) {a₁ a₂ : Engine} {t2 : Table}
    (hP1 : e.pool.Undone X a₁.pool) (hP2 : e'.pool.Undone X a₂.pool)
      (ht1 : a₁.tables t.name = some t1) (hpages1 : t1.pages = [])
    (ht2 : a₂.tables t.name = some t2) (hpages2 : t2.pages = t.pages) (htrees : a₂.trees = a₁.trees)
    (hreader : ∀ S' y, a₁.Reader S' y → ∀ r τ, e.pool.tuple? r = some τ → r.pageId ∈ t.pages →
      ¬ X τ.xmin → S'.sees y τ.xmin = true →
      (τ.xmax = 0 ∨ X τ.xmax ∨ S'.sees y τ.xmax = false) → False) : SameReads t a₁ a₂ := by
  -- the version in the second state, before it was rolled back
  have hcases : ∀ {r τ}, e.pool.tuple? r = some τ → ∃ u, e'.pool.tuple? r = some u ∧
      (u = τ ∨ τ.xmin = x ∧ u = τ.setXmax x) := by
    intro r τ hτ
    rcases hrd.cases hτ with ⟨-, hu⟩ | ⟨hp, hvx, -, hu⟩
    · exact ⟨τ, hu, .inl rfl⟩
    · exact ⟨_, hu, .inr ⟨(h.rows hk hst hτ hp hvx).1, rfl⟩⟩
  refine sameReads_of ht1 hpages1 ht2 hpages2 htrees ?_ ?_
  · intro S' y hy r w hp hw
    by_contra hv
    cases hτ : e.pool.tuple? r with
    | none =>
      rw [(hP2 r).1 (hrd.tuple_none hτ)] at hw
      cases hw
    | some τ =>
      obtain ⟨u, hu, huτ⟩ := hcases hτ
      obtain ⟨w', hw', hund⟩ := (hP2 r).2 u hu
      cases hw.symm.trans hw'
      have hmin : u.xmin = τ.xmin := by
        rcases huτ with rfl | ⟨-, rfl⟩ <;> rfl
      by_cases hXmin : X u.xmin
      · -- created and deleted by the same transaction
        have hmax := (hund.own hXmin).1
        have h0 := (hk.heap.xmin_lt r τ hτ).1
        exact hv (Tuple.not_visible (by omega) (by rw [hund.xmin, hmax]; exact id))
      · obtain ⟨h1, h2⟩ := visible_iff.1 (by simpa using hv)
        have hτu : u = τ := huτ.resolve_right fun hx => hXmin (by rw [hmin, hx.1]; exact hX)
        subst hτu
        rw [hund.xmin] at h1
        by_cases hXmax : X u.xmax
        · exact hreader S' y hy r u hτ hp hXmin h1 (.inr (.inl hXmax))
        · rw [hund.other hXmin hXmax] at h2
          exact hreader S' y hy r u hτ hp hXmin h1 (h2.imp_right .inr)
  · intro S' y hy root hroot key r₀ hhas
    have hagree : ∀ r τ, a₁.pool.tuple? r = some τ → ∃ w, a₂.pool.tuple? r = some w ∧
        w.hotTarget r = τ.hotTarget r ∧ w.visible S' y = τ.visible S' y := by
      intro r w1 hw1
      cases hτ : e.pool.tuple? r with
      | none =>
        rw [(hP1 r).1 hτ] at hw1
        cases hw1
      | some τ =>
        obtain ⟨u, hu, huτ⟩ := hcases hτ
        obtain ⟨w1', hw1', hund1⟩ := (hP1 r).2 τ hτ
        cases hw1.symm.trans hw1'
        obtain ⟨w2, hw2, hund2⟩ := (hP2 r).2 u hu
        obtain ⟨hmin, hmax, htarget⟩ := undone_agree hX huτ hund1 hund2
        exact ⟨w2, hw2, htarget, by rw [visible, visible, hmin, hmax]⟩
    have hnone : ∀ r, a₁.pool.tuple? r = none → a₂.pool.tuple? r = none := by
      intro r hr
      cases hτ : e.pool.tuple? r with
      | none => exact (hP2 r).1 (hrd.tuple_none hτ)
      | some τ =>
        obtain ⟨w, hw, -⟩ := (hP1 r).2 τ hτ
        cases hr.symm.trans hw
    refine followHotChain_map_eq hnone (fun r τ hτ => ?_) fun r τ hres u hu => ?_
    · obtain ⟨w, hw, htarget, hv⟩ := hagree r τ hτ
      exact ⟨w, hw, htarget, fun h => hv ▸ h⟩
    · obtain ⟨hτ, hvis⟩ := followHotChain_visible hres
      obtain ⟨w, hw, -, hv⟩ := hagree r τ hτ
      cases hu.symm.trans hw
      rw [hv, hvis]

/-- Reads after both paths have been rolled back. -/
lemma Vacant.sameReads_abort (hk1 : (e.truncated t T).HeapOk) : ∃ a₁ a₂,
    (e.truncated t T).abort x = some a₁ ∧ e'.abort x = some a₂ ∧ SameReads t a₁ a₂ := by
  have hactive2 : e'.txns.active x ≠ none := mt (hrd.steady.domain x).1 hst.active
  obtain ⟨a₁, ha1, hP1, htab1, htxns1, htrees1⟩ :=
    hk1.exists_abort hst.active (stmts_of_quiet hk hst.quiet x)
  obtain ⟨a₂, ha2, hP2, htab2, -, htrees2⟩ := hrd.heapOk.exists_abort hactive2 hrd.stmt
  have htrees : a₂.trees = a₁.trees := by
    rw [htrees1, htrees2, hrd.trees]
    exact hrd.undo e.trees
  refine ⟨a₁, a₂, ha1, ha2, h.sameReads_undo (X := (· = x)) hk hst hrd rfl hP1 hP2
    (htab1 ▸ truncated_tables) rfl (by rw [htab2, hrd.tables]; exact hst.table) rfl htrees ?_⟩
  intro S' y hreader r τ hτ hpage hmin hsees hmax
  rw [Reader, htxns1] at hreader
  rcases hreader with hS' | ⟨hy, hS'⟩
  · obtain ⟨hyx, hS'⟩ := not_seen_remove hS'
    have hvis : τ.visible S' y = true := by
      refine visible_iff.2 ⟨hsees, ?_⟩
      rcases hmax with h0 | hx | hs
      · exact .inl h0
      · exact .inr (hx ▸ hst.unseen hk hyx hS')
      · exact .inr hs
    rw [h.others r τ hτ hpage y S' hyx hS'] at hvis
    cases hvis
  · obtain ⟨rfl, rfl⟩ := hst.reader_after hS' hy
    refine h.fresh_absurd hk hτ hpage
      (((hst.sees_after hk (hk.heap.xmin_lt r τ hτ).2).1 hsees).resolve_right hmin) ?_
    rcases hmax with h0 | hx | hs
    · exact .inl h0
    · exact .inr (hx ▸ hst.not_finished)
    · refine .inr fun hf => ?_
      rw [(hst.sees_after hk (hk.heap.xmax_lt r τ hτ)).2 (.inl hf)] at hs
      cases hs

/-- Reads after a restart, which rolls back whoever was running. -/
lemma Vacant.sameReads_restart : SameReads t (e.truncated t T).restart e'.restart := by
  have hP2 : e'.pool.Undone (fun z => (T.active z).isSome = true) e'.restart.pool := by
    have hX : (fun z => (e'.txns.active z).isSome = true) = fun z => (T.active z).isSome =
        true := by
      funext z
      rw [eq_iff_iff, isSome_iff_ne_none, isSome_iff_ne_none]
      exact not_congr (hrd.steady.domain z)
    exact hX ▸ restart_undone e'
  have ht1 : (e.truncated t T).restart.tables t.name =
      some { t with pages := [], rowCount := rowCountUnknown } := by
    show ((e.truncated t T).tables t.name).map _ = _
    rw [truncated_tables]
    rfl
  have ht2 : e'.restart.tables t.name = some { t with rowCount := rowCountUnknown } := by
    show (e'.tables t.name).map _ = _
    rw [hrd.tables, hst.table]
    rfl
  refine h.sameReads_undo hk hst hrd (X := fun z => (T.active z).isSome = true)
    (Option.isSome_iff_ne_none.2 hst.active) (restart_undone (e.truncated t T)) hP2 ht1 rfl ht2 rfl
    hrd.trees ?_
  intro S' y hreader r τ hτ hpage hmin hsees hmax
  rcases hreader with hS' | ⟨hy, hS'⟩
  · cases hS'
  · -- after a restart everybody has finished
    have hnext : T.nextXid = e.txns.nextXid := hst.steady.nextXid
    have hlt1 := hk.heap.xmin_lt r τ hτ
    have hlt2 := hk.heap.xmax_lt r τ hτ
    have hmin' : e.txns.active τ.xmin = none := by
      rw [← hst.steady.domain]
      simpa using hmin
    refine h.fresh_absurd hk hτ hpage ⟨hlt1.1, hlt1.2, hmin'⟩ ?_
    rcases hmax with h0 | hx | hs
    · exact .inl h0
    · refine .inr fun hf => ?_
      rw [(hst.steady.domain _).2 hf.2.2] at hx
      cases hx
    · refine .inr fun hf => ?_
      have hseen : S'.sees y τ.xmax = true := by
        rw [hS']
        refine Snapshot.sees_iff.2 (.inr (isCommittedAtSnapshot_computeSnapshot.2
          ⟨hf.1, ?_, rfl⟩))
        show τ.xmax < T.nextXid
        omega
      rw [hseen] at hs
      cases hs

omit hrd in
lemma deletesRows_of_vacant (hp : PagesOk e.names e.tables)
    (hfk : tableHasFkChildren e.tableList t.name = false) : e.DeletesRows x t := by
  have htrunc := truncate_of_started hst
  obtain ⟨e₂, hrows⟩ := exists_deleteRows hk hst hp hfk fun r τ hr => by
    obtain ⟨hpage, hτ, hv⟩ := mem_scan.1 hr
    exact (h.rows hk hst hτ hpage hv).2
  have hrd := deleteRows_spec hk hst hp hrows
  have hk1 := hk.step (a := .truncate x t.name) trivial htrunc
  refine ⟨_, e₂, htrunc, hrows, h.sameReads_now hk hst hrd, h.sameReads_abort hk hst hrd hk1, ?_,
    h.sameReads_restart hk hst hrd⟩
  obtain ⟨txn1, htxn1⟩ := ne_none_iff_exists'.1 hst.active
  obtain ⟨txn2, htxn2⟩ := ne_none_iff_exists'.1 (mt (hrd.steady.domain x).1 hst.active)
  obtain ⟨c₁, hc1⟩ : ∃ c₁, (e.truncated t T).commit x = some c₁ := by
    simp [truncated, commit, htxn1, stmts_of_quiet hk hst.quiet x]
  obtain ⟨c₂, hc2⟩ : ∃ c₂, e₂.commit x = some c₂ := by
    simp [commit, htxn2, hrd.stmt]
  exact ⟨c₁, c₂, hc1, hc2, h.sameReads_commit hk hst hrd hc1 hc2⟩

end

end

end Engine

/-! ## Runs -/

variable {tables : List Table}

/-- What holds after every run that gives up no statement with undo records held back. -/
lemma Engine.heapOk_of_reached (hpages : ∀ t ∈ tables, t.pages = [])
    {e : Engine} (h : Reached step Engine.Lossless (initial tables) e) :
    e.HeapOk ∧ Engine.PagesOk e.names e.tables := by
  refine h.invariant (fun e => e.HeapOk ∧ Engine.PagesOk e.names e.tables) ?_ ?_
  · exact ⟨heapOk_initial tables, pagesOk_initial hpages⟩
  · rintro e a e' ⟨hk, hp⟩ hloss hs
    exact ⟨hk.step hloss hs, hp.step hs⟩

/-- **When `DELETE` without a predicate deletes rows.** In every state that a lossless run reaches,
the truncate fast path reads like stamping every visible row, at once and after an abort, a commit
or a crash, if and only if nobody has a row of the table to lose. -/
theorem delete_all_deletes_rows_iff (hpages : ∀ t ∈ tables, t.pages = [])
    {e : Engine} (h : Reached step Engine.Lossless (initial tables) e) {x : Nat}
    {t : Table} {T : TxnInner} {txn : Transaction} {S : Snapshot}
    (hst : e.Started x t.name t T txn S) (hfk : tableHasFkChildren e.tableList t.name = false) :
    e.DeletesRows x t ↔ Engine.Vacant e x t T S := by
  obtain ⟨hk, hp⟩ := heapOk_of_reached hpages h
  exact ⟨vacant_of_deletesRows hk hp hst, fun h => deletesRows_of_vacant h hk hst hp hfk⟩

def notes : Table := { name := "notes", columns := [{ name := "body", ty := .text }] }

lemma notes_pages : ∀ t ∈ [notes], t.pages = [] := by
  intro t ht
  rw [mem_singleton.1 ht]
  rfl

/-- `Vacant` for a table without trees, over the slots of its pages and the ids given out. -/
def Engine.VacantSlots (e : Engine) (x : Nat) (t : Table) (T : TxnInner) (S : Snapshot) : Prop :=
  treeRoots t.toTableDef = [] ∧ ∀ p ∈ t.pages, ∀ i < (e.pool p).length, ∀ τ ∈ e.pool.tuple? ⟨p, i⟩,
    (∀ y < T.nextXid, y ≠ x → ∀ S' ∈ snapshotOf T y, τ.visible S' y = false) ∧
      τ.visible e.txns.computeSnapshot e.txns.nextXid = false ∧ (τ.visible S x = true → τ.xmin = x)

instance (e : Engine) (x : Nat) (t : Table) (T : TxnInner) (S : Snapshot) :
    Decidable (e.VacantSlots x t T S) := inferInstanceAs (Decidable (_ ∧ ∀ p ∈ t.pages, _))

lemma Engine.VacantSlots.vacant {e : Engine} {x : Nat} {t : Table} {T : TxnInner}
    {txn : Transaction}
    {S : Snapshot} (h : e.VacantSlots x t T S) (hk : e.HeapOk)
      (hst : e.Started x t.name t T txn S) :
    Engine.Vacant e x t T S := by
  have hlt : ∀ r τ, e.pool.tuple? r = some τ → r.slot < (e.pool r.pageId).length := by
    intro r τ hτ
    obtain ⟨slot, hslot, -⟩ := bind_eq_some_iff.1 hτ
    exact (List.getElem?_eq_some_iff.1 hslot).1
  refine ⟨fun r τ hτ hp y S' hy hS' => (h.2 _ hp _ (hlt r τ hτ) τ hτ).1 y ?_ hy S' hS',
    fun r τ hτ hp => (h.2 _ hp _ (hlt r τ hτ) τ hτ).2.1,
    fun r τ hτ hp => (h.2 _ hp _ (hlt r τ hτ) τ hτ).2.2, ?_⟩
  · obtain ⟨txn', hactive, -⟩ := snapshotOf_eq_some.1 hS'
    exact ((hst.heap hk).active_lt y (by simp [hactive])).2
  · rw [h.1]
    nofun

/-- 1 has inserted and deleted a row and committed; next to the running 2, 3 has inserted one. -/
def ownDraft : List Action :=
  [.begin .readCommitted, .beginStmt 1 "notes" false, .insertRow 1 0 [.text "gone"], .endStmt 1 [],
    .beginStmt 1 "notes" true, .deleteRow 1 ⟨0, 0⟩, .endStmt 1 [], .commit 1,
    .begin .repeatableRead, .begin .readCommitted,
    .beginStmt 3 "notes" false, .insertRow 3 0 [.text "draft"], .endStmt 3 []]

theorem delete_all_deletes_rows_iff_ownDraft : ∃ t,
    (runState step (initial [notes]) ownDraft).tables "notes" = some t ∧ t.pages = [0] ∧
      ((runState step (initial [notes]) ownDraft).pool 0).length = 2 ∧
      (runState step (initial [notes]) ownDraft).DeletesRows 3 t := by
  have hreach : Reached step Engine.Lossless (initial [notes])
      (runState step (initial [notes]) ownDraft) :=
    reached_runState (by simp [ownDraft, Engine.Lossless]) (by decide +kernel)
  have heval : (do
      let e := runState step (initial [notes]) ownDraft
      let t ← e.tables "notes"
      let T ← e.txns.snapshotForStatement 3
      let txn ← T.active 3
      pure (t.name == "notes" && t.pages == [0] && e.quiet &&
        !tableHasFkChildren e.tableList t.name && e.VacantSlots 3 t T txn.snapshot) : Option Bool) =
      some true := by decide +kernel
  simp only [bind_eq_bind, Option.bind_eq_some_iff, Option.pure_def, Option.some.injEq,
    Bool.and_eq_true, Bool.not_eq_true', beq_iff_eq, decide_eq_true_eq] at heval
  obtain ⟨t, ht, T, hT, txn', hnew, ⟨⟨⟨hname, hpages⟩, hquiet⟩, hfk⟩, hslots⟩ := heval
  obtain ⟨txn, S, href, -, -⟩ := snapshotForStatement_spec hT
  cases href.new.symm.trans hnew
  have hst : Engine.Started (runState step (initial [notes]) ownDraft) 3 t.name t T txn S :=
    ⟨by rw [hname]; exact ht, hquiet, hT, href⟩
  have hk := (heapOk_of_reached notes_pages hreach).1
  exact ⟨t, ht, hpages, by decide +kernel,
    (delete_all_deletes_rows_iff notes_pages hreach hst hfk).2 (hslots.vacant hk hst)⟩

def noteKept : List Action :=
  [.begin .readCommitted, .beginStmt 1 "notes" false, .insertRow 1 0 [.text "keep"], .endStmt 1 [],
    .commit 1, .begin .readCommitted]

/-- `DELETE FROM notes` before a `ROLLBACK` takes the committed row away from everybody. -/
theorem delete_all_loses_committed_row :
    ¬ ∀ (tables : List Table) (e : Engine) (x : Nat) (t : Table) (T : TxnInner) (txn : Transaction)
      (S : Snapshot), (∀ t ∈ tables, t.pages = []) →
      Reached step (fun _ _ => True) (initial tables) e →
      e.Started x t.name t T txn S → tableHasFkChildren e.tableList t.name = false →
      e.DeletesRows x t := by
  intro h
  have hrun : (runSteps step (initial [notes]) noteKept).isSome = true := by
    decide +kernel
  obtain ⟨hk, hp⟩ := heapOk_of_reached notes_pages
    (reached_runState (by simp [noteKept, Engine.Lossless]) hrun)
  have heval : (do
      let e := runState step (initial [notes]) noteKept
      let t ← e.tables "notes"
      let _ ← e.txns.snapshotForStatement 2
      let τ ← e.pool.tuple? ⟨0, 0⟩
      pure (t.name == "notes" && e.quiet && t.pages.contains 0 && !tableHasFkChildren e.tableList
        t.name &&
        τ.visible e.txns.computeSnapshot e.txns.nextXid) : Option Bool) =
          some true := by decide +kernel
  simp only [bind_eq_bind, Option.bind_eq_some_iff, Option.pure_def, Option.some.injEq,
    Bool.and_eq_true, Bool.not_eq_true', beq_iff_eq, contains_eq_mem, decide_eq_true_eq] at heval
  obtain ⟨t, ht, T, hT, τ, hτ, ⟨⟨⟨hname, hquiet⟩, hpage⟩, hfk⟩, hvis⟩ := heval
  obtain ⟨txn, S, href, -, -⟩ := snapshotForStatement_spec hT
  have hst : Engine.Started (runState step (initial [notes]) noteKept) 2 t.name t T txn S :=
    ⟨by rw [hname]; exact ht, hquiet, hT, href⟩
  have hdel := h [notes] _ 2 t T txn S notes_pages (reached_runState (by simp) hrun) hst hfk
  have hvacant := vacant_of_deletesRows hk hp hst hdel
  rw [hvacant.fresh ⟨0, 0⟩ τ hτ hpage] at hvis
  cases hvis

end UniDb
