import UniDb.Engine.Step
import UniDb.Lib.Checked

/-!
# What each step does

One lemma per action: the checks it passed and the state it left. Later proofs never unfold a step.
-/

namespace UniDb

open TxnInner Option

lemma guard_eq_some {p : Prop} [Decidable p] {u : Unit} : (guard p : Option Unit) = some u ↔ p := by
  by_cases h : p <;> simp [h]

lemma bind_eq_some {α β : Type} {x : Option α} {f : α → Option β} {b : β} :
    x >>= f = some b ↔ ∃ a, x = some a ∧ f a = some b := bind_eq_some_iff

lemma pure_eq_some {α : Type} {a b : α} : (pure a : Option α) = some b ↔ a = b := some_inj

/-! ## The transaction manager -/

variable {T : TxnInner} {txn : Transaction}

namespace TxnInner

/-- `T'` is `T` with another snapshot in the record of `x`. -/
structure Refreshed (T T' : TxnInner) (x : Nat) (txn : Transaction) (S : Snapshot) : Prop where
  old : T.active x = some txn
  new : T'.active x = some { txn with snapshot := S }
  nextXid : T'.nextXid = T.nextXid
  frame : ∀ y, y ≠ x → T'.active y = T.active y

lemma snapshotForStatement_spec {T' : TxnInner} {x : Nat}
    (h : T.snapshotForStatement x = some T') : ∃ txn S, Refreshed T T' x txn S ∧
      (txn.isolation = .readCommitted → S = T.computeSnapshot) ∧
      (txn.isolation ≠ .readCommitted → S = txn.snapshot) := by
  unfold snapshotForStatement at h
  obtain ⟨txn, hx, h⟩ := map_eq_some_iff.1 h
  split at h
  · rename_i hiso
    subst h
    exact ⟨txn, T.computeSnapshot, ⟨hx, set_active_self .., rfl, fun y hy => set_active_ne T hy _⟩,
      fun _ => rfl, fun hne => absurd hiso hne⟩
  · rename_i hiso
    subst h
    exact ⟨txn, txn.snapshot, ⟨hx, hx, rfl, fun _ _ => rfl⟩, fun h => absurd h hiso, fun _ => rfl⟩

lemma recordUndo_eq {x : Nat} (hx : T.active x = some txn) (actions : List UndoAction) :
    T.recordUndo x actions = T.set x { txn with undoLog := txn.undoLog ++ actions } := by
  unfold recordUndo
  rw [hx]

end TxnInner

namespace Engine

variable {e e' : Engine} {x : Nat}

lemma running_eq_some {stmt : Stmt} {t : Table} : e.running x = some (txn, stmt, t) ↔
      e.txns.active x = some txn ∧ e.stmts x = some stmt ∧ e.tables stmt.table = some t := by
  unfold running
  cases e.txns.active x with
  | none => simp
  | some txn' =>
    cases e.stmts x with
    | none => simp
    | some stmt' =>
      cases ht : e.tables stmt'.table with
      | none =>
        simp only [bind_eq_bind, bind_some, ht, bind_none, reduceCtorEq,
          some.injEq, false_iff, not_and]
        rintro - rfl
        simp [ht]
      | some t' =>
        simp only [bind_eq_bind, bind_some, ht, pure_def, some.injEq,
          Prod.mk.injEq]
        constructor
        · rintro ⟨rfl, rfl, rfl⟩
          exact ⟨rfl, rfl, ht⟩
        · rintro ⟨rfl, rfl, ht'⟩
          exact ⟨rfl, rfl, some.inj (ht.symm.trans ht')⟩

lemma holds_iff {ids : List LockId} :
    e.holds x ids = true ↔ ∀ id ∈ ids, e.locks id = some x := by simp [holds]

variable {page : Nat} {r : RowId} {table : String}

/-- The page directories after a write differ at most by one page of the table. -/
lemma claimPage_spec {t : Table} {tables : String → Option Table}
    (h : e.claimPage t page = some tables) : page ∈ t.pages ∧ tables = e.tables ∨
      page ∉ t.pages ∧ (∀ t' ∈ e.tableList, page ∉ t'.pages) ∧ e.pool page = [] ∧
        tables = e.setTable { t with pages := t.pages ++ [page] } := by
  unfold claimPage at h
  split at h
  · rename_i hp
    exact .inl ⟨hp, (some.inj h).symm⟩
  · rename_i hp
    split at h
    · rename_i hfree
      obtain ⟨hall, hempty⟩ := hfree
      refine .inr ⟨hp, fun t' ht' hmem => ?_, by simpa using hempty, (some.inj h).symm⟩
      have := List.all_eq_true.1 hall t' ht'
      simp [hmem] at this
    · cases h

lemma insertRow_spec {row : Row} (h : e.insertRow x page row = some e') :
    ∃ txn stmt t T S tables, e.running x = some (txn, stmt, t) ∧ stmt.batched = false ∧
      row.length = t.columns.length ∧
      (∀ id ∈ uniqueKeyLocks t.toTableDef row ++ fkKeyLocks e.tables t.toTableDef row,
        e.locks id = some x) ∧
      e.txns.snapshotForStatement x = some T ∧ TxnInner.Refreshed e.txns T x txn S ∧
      enforceUnique e.pool e.trees S x t row none = .ok () ∧
      enforceFkRowsExist e.pool e.trees S x e.tables t row = .ok () ∧
      e.claimPage t page = some tables ∧ e' = { e with
        pool := (e.pool.insertRow x page row).1
        tables, txns := T.recordUndo x (e.pool.insertRow x page row).2.2
        trees := insertEntries t.toTableDef (e.pool.insertRow x page row).2.1 row e.trees
        stmts := e.setStmt x (some { stmt with delta := stmt.delta + 1 }) } := by
  unfold insertRow at h
  simp only [bind_eq_some, guard_eq_some, toOption_eq_some, pure_eq_some] at h
  obtain ⟨⟨txn, stmt, t⟩, hrun, -, ⟨hb, hlen⟩, -, hlocks, T, hT, txn', hx', _, hu, _, hf, tables,
    htables, rfl⟩ := h
  obtain ⟨txn0, S, href, -, -⟩ := snapshotForStatement_spec hT
  obtain ⟨hx, -, -⟩ := running_eq_some.1 hrun
  cases href.old.symm.trans hx
  cases href.new.symm.trans hx'
  exact ⟨txn, stmt, t, T, S, tables, hrun, hb, hlen, holds_iff.1 hlocks, hT, href, hu, hf, htables,
    rfl⟩

lemma gated_eq_some {gate : Bool} {check : Except DbError Unit} {u : Unit} :
    gated gate check = some u ↔ (gate = true → check = .ok ()) := by
  cases gate <;> simp [gated, toOption_eq_some]

lemma updateSnapshot_spec {gates : UpdateGates} (hx : e.txns.active x = some txn)
    (h : e.updateSnapshot x gates = some T) : ∃ S, TxnInner.Refreshed e.txns T x txn S := by
  unfold updateSnapshot at h
  split at h
  · obtain ⟨txn0, S, href, -, -⟩ := snapshotForStatement_spec h
    cases href.old.symm.trans hx
    exact ⟨S, href⟩
  · cases h
    exact ⟨txn.snapshot, hx, hx, rfl, fun _ _ => rfl⟩

lemma updateRow_spec {setCols : List String} {xpage : Bool} {row : Row}
    (h : e.updateRow x setCols r page xpage row = some e') :
    ∃ txn stmt t gates old T S tables pool new actions, e.running x = some (txn, stmt, t) ∧
      computeUpdateGates e.tableList t.toTableDef setCols = .ok gates ∧
      e.pool.tuple? r = some old ∧ r.pageId ∈ t.pages ∧
      agreeOutside t.columns setCols old.data row = true ∧
      (gates.checks = true → ∀ id ∈ updateLocks e.tables t.toTableDef gates old.data row,
        e.locks id = some x) ∧
      e.updateSnapshot x gates = some T ∧ TxnInner.Refreshed e.txns T x txn S ∧
      old.visible S x = true ∧ (gates.hasUniqueInSet = true →
        enforceUnique e.pool e.trees S x t row (some r) = .ok ()) ∧ (gates.hasFkRefsInSet = true →
        enforceFkRowsExist e.pool e.trees S x e.tables t row = .ok ()) ∧
      (gates.hasFkChildrenRefInSet = true →
        enforceFkRestrict e.pool e.trees S x e.tableList t old.data = .ok ()) ∧
      e.claimPage t (if updatePath gates xpage stmt.batched = .hot then r.pageId else page) =
        some tables ∧ e.pool.updateRow x (updatePath gates xpage stmt.batched) r page row =
        .ok (pool, new, actions) ∧ e' = { e with
        pool, tables
        txns := (recordUndo T stmt x actions).1
        trees := if updatePath gates xpage stmt.batched = .plain then
          inlineEntries t.toTableDef r new old.data row e.trees else e.trees
        stmts := e.setStmt x (some (stageWrites (updatePath gates xpage stmt.batched) t.toTableDef r
          new old.data row (recordUndo T stmt x actions).2)) } := by
  unfold updateRow at h
  simp only [bind_eq_some, guard_eq_some, toOption_eq_some, gated_eq_some, pure_eq_some] at h
  obtain ⟨⟨txn, stmt, t⟩, hrun, gates, hgates, old, hold, -, ⟨hpage, hagree⟩, -, hlocks, T, hT,
    txn', hx', -, hvis, -, hu, -, hf, -, hr, tables, htables, ⟨pool, new, actions⟩, hw, rfl⟩ := h
  obtain ⟨hx, -, -⟩ := running_eq_some.1 hrun
  obtain ⟨S, href⟩ := updateSnapshot_spec hx hT
  cases href.new.symm.trans hx'
  exact ⟨txn, stmt, t, gates, old, T, S, tables, pool, new, actions, hrun, hgates, hold, hpage,
    hagree, fun hc => holds_iff.1 (hlocks hc), hT, href, hvis, hu, hf, hr, htables, hw, rfl⟩

lemma checkDelete_spec (h : e.checkDelete x r = some e') :
    ∃ txn stmt t old T S, e.running x = some (txn, stmt, t) ∧ e.pool.tuple? r = some old ∧
      r.pageId ∈ t.pages ∧ (∀ id ∈ fkKeyLocksParent t.toTableDef old.data, e.locks id = some x) ∧
      e.txns.snapshotForStatement x = some T ∧ TxnInner.Refreshed e.txns T x txn S ∧
      enforceFkRestrict e.pool e.trees S x e.tableList t old.data = .ok () ∧ e' = { e with
        txns := T, stmts := e.setStmt x (some { stmt with checked := r :: stmt.checked }) } := by
  unfold checkDelete at h
  simp only [bind_eq_some, guard_eq_some, toOption_eq_some, pure_eq_some] at h
  obtain ⟨⟨txn, stmt, t⟩, hrun, old, hold, -, hpage, -, hlocks, T, hT, txn', hx', _, hr, rfl⟩ := h
  obtain ⟨txn0, S, href, -, -⟩ := snapshotForStatement_spec hT
  obtain ⟨hx, -, -⟩ := running_eq_some.1 hrun
  cases href.old.symm.trans hx
  cases href.new.symm.trans hx'
  exact ⟨txn, stmt, t, old, T, S, hrun, hold, hpage, holds_iff.1 hlocks, hT, href, hr, rfl⟩

lemma deleteRow_spec (h : e.deleteRow x r = some e') :
    ∃ txn stmt t old pool actions, e.running x = some (txn, stmt, t) ∧ stmt.batched = true ∧
      r.pageId ∈ t.pages ∧ (tableHasFkChildren e.tableList t.name = true → r ∈ stmt.checked) ∧
      e.pool.tuple? r = some old ∧ old.visible txn.snapshot x = true ∧
      e.pool.deleteRow x r = .ok (pool, actions) ∧ e' = { e with
        pool
        stmts := e.setStmt x (some { stmt with
          pendingUndo := stmt.pendingUndo ++ actions
          delta := stmt.delta - 1 }) } := by
  unfold deleteRow at h
  simp only [bind_eq_some, guard_eq_some, toOption_eq_some, pure_eq_some] at h
  obtain ⟨⟨txn, stmt, t⟩, hrun, -, ⟨hb, hpage⟩, -, hchecked, old, hold, -, hvis, ⟨pool, actions⟩,
    hw, rfl⟩ := h
  exact ⟨txn, stmt, t, old, pool, actions, hrun, hb, hpage, hchecked, hold, hvis, hw, rfl⟩

/-- The running transactions after the statement of `x`. -/
def endTxns (T : TxnInner) (x : Nat) (stmt : Stmt) : TxnInner :=
  if stmt.delta = 0 then T.recordUndo x (stmt.pendingUndo ++ patchUndo stmt.patches)
  else (T.recordUndo x (stmt.pendingUndo ++ patchUndo stmt.patches)).recordRowCountDelta
    x stmt.table stmt.delta

lemma endStmt_spec {misses : List Bool} (h : e.endStmt x misses = some e') :
    ∃ stmt, e.stmts x = some stmt ∧ e' = { e with
        txns := endTxns e.txns x stmt
        trees := flushEntries stmt.entries (flushPatches stmt.patches misses e.trees)
        stmts := e.setStmt x none } := by
  unfold endStmt at h
  simp only [bind_eq_some, pure_eq_some] at h
  obtain ⟨stmt, hstmt, rfl⟩ := h
  exact ⟨stmt, hstmt, rfl⟩

lemma commit_spec (h : e.commit x = some e') :
    ∃ txn, e.txns.active x = some txn ∧ e.stmts x = none ∧ e' = { e with
        txns := e.txns.remove x
        locks := e.releaseAll x, unapplied := e.unapplied ++ [txn.rowCountDeltas] } := by
  unfold commit at h
  simp only [bind_eq_some, guard_eq_some, pure_eq_some, isNone_iff_eq_none] at h
  obtain ⟨txn, hx, -, hstmt, rfl⟩ := h
  exact ⟨txn, hx, hstmt, rfl⟩

lemma applyDeltas_spec {i : Nat} (h : e.applyDeltas i = some e') :
    ∃ deltas, e.quiet = true ∧ e.unapplied[i]? = some deltas ∧ e' = { e with
        tables := fun name => (e.tables name).map fun t =>
          { t with rowCount := applyDelta t.rowCount (deltas name) }
        unapplied := e.unapplied.eraseIdx i } := by
  unfold applyDeltas at h
  simp only [bind_eq_some, guard_eq_some, pure_eq_some] at h
  obtain ⟨-, hq, deltas, hi, rfl⟩ := h
  exact ⟨deltas, hq, hi, rfl⟩

lemma abort_spec (h : e.abort x = some e') : ∃ txn pool, e.txns.active x = some txn ∧
      applyWrites (undoWrites x txn.undoLog) e.pool = .ok pool ∧ e' = { e with
        pool
        txns := e.txns.remove x, stmts := e.setStmt x none, trees := undoPatches txn.undoLog e.trees
        locks := e.releaseAll x } := by
  unfold abort at h
  simp only [bind_eq_some, toOption_eq_some, pure_eq_some] at h
  obtain ⟨txn, hx, pool, hw, rfl⟩ := h
  exact ⟨txn, pool, hx, hw, rfl⟩

lemma createIndex_spec {col root : Nat} (h : e.createIndex x table col root = some e') :
    ∃ t c txn T S, e.tables table = some t ∧ t.columns[col]? = some c ∧ e.quiet = true ∧
      c.dropped = false ∧ c.indexRoot = none ∧
      (∀ t' ∈ e.tableList, root ∉ treeRoots t'.toTableDef) ∧ e.trees root = [] ∧
      e.txns.snapshotForStatement x = some T ∧ TxnInner.Refreshed e.txns T x txn S ∧ e' = { e with
        txns := T, trees := Function.update e.trees root
          (backfill t.toTableDef col c (e.pool.scan t.pages S x)), tables := e.setTable { t with
          columns := t.columns.set col { c with index := some .btree, indexRoot := some root }
              } } := by
  unfold createIndex at h
  simp only [bind_eq_some, guard_eq_some, pure_eq_some] at h
  obtain ⟨t, ht, c, hc, -, ⟨hq, hd, hroot⟩, -, ⟨hfree, hempty⟩, T, hT, txn', hx', rfl⟩ := h
  obtain ⟨txn, S, href, -, -⟩ := snapshotForStatement_spec hT
  cases href.new.symm.trans hx'
  refine ⟨t, c, txn, T, S, ht, hc, hq, by simpa using hd, by simpa using hroot,
    fun t' ht' hmem => ?_, by simpa using hempty, hT, href, rfl⟩
  have := List.all_eq_true.1 hfree t' ht'
  simp [hmem] at this

lemma truncate_spec (h : e.truncate x table = some e') :
    ∃ t txn T S, e.tables table = some t ∧ e.quiet = true ∧
      e.txns.snapshotForStatement x = some T ∧ TxnInner.Refreshed e.txns T x txn S ∧
      e' = { e with txns := T, tables := e.setTable { t with pages := [], rowCount := 0 } } := by
  unfold truncate at h
  simp only [bind_eq_some, guard_eq_some, pure_eq_some] at h
  obtain ⟨-, hq, t, ht, T, hT, rfl⟩ := h
  obtain ⟨txn, S, href, -, -⟩ := snapshotForStatement_spec hT
  exact ⟨t, txn, T, S, ht, hq, hT, href, rfl⟩

lemma countStar_spec {exclusive : Bool} (h : e.countStar x table exclusive = some e') :
    ∃ t txn T S, e.tables table = some t ∧ (exclusive = true → e.quiet = true) ∧
      e.txns.snapshotForStatement x = some T ∧ TxnInner.Refreshed e.txns T x txn S ∧ e' = { e with
        txns := T, tables :=
          if exclusive = true ∧ t.rowCount = rowCountUnknown then
            e.setTable { t with rowCount := e.countVisible t S x }
          else e.tables } := by
  unfold countStar at h
  simp only [bind_eq_some, guard_eq_some, pure_eq_some] at h
  obtain ⟨-, hq, t, ht, -, -, T, hT, txn', hx', rfl⟩ := h
  obtain ⟨txn, S, href, -, -⟩ := snapshotForStatement_spec hT
  cases href.new.symm.trans hx'
  exact ⟨t, txn, T, S, ht, hq, hT, href, rfl⟩

lemma beginStmt_spec {batched : Bool} (h : e.step (.beginStmt x table batched) = some e') :
    ∃ txn T S, e.stmts x = none ∧ (∃ t, e.tables table = some t) ∧
      e.txns.snapshotForStatement x = some T ∧ TxnInner.Refreshed e.txns T x txn S ∧ e' = { e with
        txns := T, stmts := e.setStmt x (some ⟨table, batched, [], [], [], [], 0⟩) } := by
  simp only [step, bind_eq_some, guard_eq_some, pure_eq_some, isNone_iff_eq_none,
    isSome_iff_exists] at h
  obtain ⟨-, hstmt, -, htab, T, hT, rfl⟩ := h
  obtain ⟨txn, S, href, -, -⟩ := snapshotForStatement_spec hT
  exact ⟨txn, T, S, hstmt, htab, hT, href, rfl⟩

lemma acquire_spec {id : LockId} (h : e.step (.acquire x id) = some e') :
    (∃ txn, e.txns.active x = some txn) ∧ (e.locks id = none ∨ e.locks id = some x) ∧
      e' = { e with locks := Function.update e.locks id (some x) } := by
  simp only [step, bind_eq_some, guard_eq_some, pure_eq_some, isSome_iff_exists] at h
  obtain ⟨-, hx, -, hid, rfl⟩ := h
  exact ⟨hx, hid, rfl⟩

lemma failStmt_spec (h : e.step (.failStmt x) = some e') :
    ∃ stmt, e.stmts x = some stmt ∧ e' = { e with stmts := e.setStmt x none } := by
  simp only [step, bind_eq_some, guard_eq_some, pure_eq_some, isSome_iff_exists] at h
  obtain ⟨-, ⟨stmt, hstmt⟩, rfl⟩ := h
  exact ⟨stmt, hstmt, rfl⟩

end Engine

end UniDb
