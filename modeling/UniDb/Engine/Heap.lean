import UniDb.Engine.Spec
import UniDb.Txn.HeapInv

/-!
# The heap under the engine

Every step of the engine is one of the steps of `HeapStep`, provided that no statement is given up
while it holds undo records back (`Lossless`). So the discipline `HeapInv` holds in every state that
such runs reach.

* `HeapOk.heapStep`: what a step does to the shared heap.
* `HeapOk.step`: the invariant is kept.
* `PagesOk.step`: tables never share a page.
-/

namespace UniDb

open List TxnInner

namespace Engine

variable {e e' : Engine} {x : Nat}

/-- A statement ends early, and the transaction with it or not, only if it has recorded all its
undo actions. -/
def Lossless (e : Engine) : Action → Prop
  | .failStmt x | .abort x => ∀ stmt, e.stmts x = some stmt → stmt.pendingUndo = []
  | _ => True

/-- Only running transactions have statements, and only the batched ones hold undo back. -/
structure StmtsOk (T : TxnInner) (stmts : Nat → Option Stmt) : Prop where
  idle : ∀ x, T.active x = none → stmts x = none
  unbatched : ∀ x stmt, stmts x = some stmt → stmt.batched = false → stmt.pendingUndo = []

structure HeapOk (e : Engine) : Prop extends StmtsOk e.txns e.stmts where
  heap : HeapInv e.pool e.txns e.log
  pos : 0 < e.txns.nextXid

/-! ## Field lemmas -/

@[simp] lemma setStmt_self (e : Engine) (x : Nat) (stmt : Option Stmt) :
    e.setStmt x stmt x = stmt := Function.update_self ..

lemma setStmt_ne (e : Engine) {x y : Nat} (h : y ≠ x) (stmt : Option Stmt) :
    e.setStmt x stmt y = e.stmts y := Function.update_of_ne h ..

def txnLog (T : TxnInner) (x : Nat) : List UndoAction := ((T.active x).map (·.undoLog)).getD []

def stmtLog (stmt : Option Stmt) : List UndoAction := (stmt.map (·.pendingUndo)).getD []

lemma log_eq (e : Engine) (x : Nat) : e.log x = txnLog e.txns x ++ stmtLog (e.stmts x) := rfl

variable {T : TxnInner} {txn : Transaction} {a : Action} {page : Nat} {name : String} {t : Table}
  {tables : String → Option Table}

lemma txnLog_refreshed {T' : TxnInner} {S : Snapshot} (h : TxnInner.Refreshed T T' x txn S)
    (y : Nat) : txnLog T' y = txnLog T y := by
  unfold txnLog
  by_cases hy : y = x
  · subst hy
    rw [h.new, h.old]
    rfl
  · rw [h.frame y hy]

lemma txnLog_recordUndo (hx : T.active x = some txn) (actions : List UndoAction) (y : Nat) :
    txnLog (T.recordUndo x actions) y = if y = x then txnLog T x ++ actions else txnLog T y := by
  rw [recordUndo_eq hx, txnLog]
  split
  · rename_i hy
    subst hy
    simp [txnLog, hx]
  · rename_i hy
    rw [set_active_ne T hy]
    rfl

lemma txnLog_recordRowCountDelta (T : TxnInner) (x : Nat) (table : String) (delta : Int) (y : Nat) :
    txnLog (T.recordRowCountDelta x table delta) y = txnLog T y := by
  unfold recordRowCountDelta
  split
  · rfl
  · rename_i txn hx
    unfold txnLog
    by_cases hy : y = x
    · subst hy
      simp [hx]
    · rw [set_active_ne T hy]

lemma txnLog_endTxns (hx : T.active x = some txn) (stmt : Stmt) (y : Nat) :
    txnLog (endTxns T x stmt) y =
      if y = x then txnLog T x ++ (stmt.pendingUndo ++ patchUndo stmt.patches) else txnLog T y := by
  rw [← txnLog_recordUndo hx, endTxns]
  split
  · rfl
  · exact txnLog_recordRowCountDelta ..

lemma endTxns_steady (T : TxnInner) (x : Nat) (stmt : Stmt) : T.Steady (endTxns T x stmt) := by
  have h := (TxnInner.Steady.refl T).trans_recordUndo x (stmt.pendingUndo ++ patchUndo stmt.patches)
  unfold endTxns
  split
  · exact h
  · exact h.trans_recordRowCountDelta ..

lemma StmtsOk.active {stmt : Stmt} (h : StmtsOk e.txns e.stmts) (hstmt : e.stmts x = some stmt) :
    ∃ txn, e.txns.active x = some txn := by
  rw [← Option.ne_none_iff_exists']
  intro hx
  rw [h.idle x hx] at hstmt
  cases hstmt

lemma ne_of_remove {y : Nat} (hy : (T.remove x).active y ≠ none) : y ≠ x :=
  fun he => hy (T.remove_active_eq_none.2 (.inl he))

/-! ## Every step is a heap step -/

abbrev HeapStepTo (e e' : Engine) : Prop := HeapStep e.pool e.txns e.log e'.pool e'.txns e'.log

lemma HeapOk.steady_step (hpool : e'.pool = e.pool) (hT : e.txns.Steady e'.txns)
    (hlog : ∀ y, e'.log y = e.log y) : e.HeapStepTo e' :=
  .steady hpool hT fun y _ => ⟨[], by rw [hlog, append_nil], by simp⟩

lemma patchUndo_rows {ps : List Patch} {a : UndoAction} (h : a ∈ patchUndo ps) : a.rows = [] := by
  obtain ⟨p, -, rfl⟩ := mem_map.1 h
  rfl

lemma begin_heapStep (h : e.HeapOk) (iso : IsolationLevel) :
    HeapStep e.pool e.txns e.log e.pool (e.txns.begin iso)
        (log { e with txns := e.txns.begin iso }) := by
  have hfree := h.heap.active_nextXid
  refine .begin iso rfl rfl ?_ fun y hy => ?_
  · simp [log, begin, h.idle _ hfree]
  · have hne : y ≠ e.txns.nextXid := fun he => hy (he ▸ hfree)
    simp [log, e.txns.begin_active_ne hne]

/-- A step that at most takes a snapshot and starts, changes or drops a statement without pending
undo actions. -/
lemma refresh_heapStep {stmts : Nat → Option Stmt} (hpool : e'.pool = e.pool)
    (htxns : e'.txns = T) (hstmts : e'.stmts = stmts) (hT : e.txns.snapshotForStatement x = some T)
    (hlog : ∀ y, stmtLog (stmts y) = stmtLog (e.stmts y)) : e.HeapStepTo e' := by
  subst htxns hstmts
  obtain ⟨txn, S, href, -, -⟩ := snapshotForStatement_spec hT
  refine HeapOk.steady_step hpool (snapshotForStatement_steady hT) fun y => ?_
  rw [log_eq, log_eq, txnLog_refreshed href, hlog]

lemma stmtLog_setStmt {stmt : Option Stmt} (h : stmtLog stmt = stmtLog (e.stmts x)) (y : Nat) :
    stmtLog (e.setStmt x stmt y) = stmtLog (e.stmts y) := by
  by_cases hy : y = x
  · subst hy
    rw [setStmt_self, h]
  · rw [setStmt_ne e hy]

lemma insertRow_heapStep (h : e.HeapOk) {row : Row} (hs : e.insertRow x page row = some e') :
    e.HeapStepTo e' := by
  obtain ⟨txn, stmt, t, T, S, tables, hrun, hb, -, -, hT, href, -, -, -, rfl⟩ := insertRow_spec hs
  obtain ⟨-, hstmt, -⟩ := running_eq_some.1 hrun
  have hpend := h.unbatched x stmt hstmt hb
  have hsteady := snapshotForStatement_steady hT
  refine .write (hsteady.trans_recordUndo x _) (by rw [recordUndo_eq href.new, set_active_self])
    (Pool.insertRow_heapWrite ..) ?_ fun y hy _ => ?_
  · rw [log_eq, log_eq]
    simp [txnLog_recordUndo href.new, txnLog_refreshed href, stmtLog, hpend, hstmt]
  · rw [log_eq, log_eq]
    simp [txnLog_recordUndo href.new, txnLog_refreshed href, hy, setStmt_ne e hy]

lemma updateSnapshot_steady {gates : UpdateGates} (h : e.updateSnapshot x gates = some T) :
    e.txns.Steady T := by
  unfold updateSnapshot at h
  split at h
  · exact snapshotForStatement_steady h
  · cases h
    exact .refl _

lemma stageWrites_pendingUndo (path : UpdatePath) (t : TableDef) (old new : RowId)
    (before after : Row) (stmt : Stmt) :
    (stageWrites path t old new before after stmt).pendingUndo = stmt.pendingUndo := by
  unfold stageWrites
  split <;> rfl

lemma updateRow_heapStep (h : e.HeapOk) {setCols : List String} {r : RowId} {xpage : Bool}
    {row : Row} (hs : e.updateRow x setCols r page xpage row = some e') : e.HeapStepTo e' := by
  obtain ⟨txn, stmt, t, gates, old, T, S, tables, pool, new, actions, hrun, -, hold, -, -, -, hT,
    href, hvis, -, -, -, -, hw, rfl⟩ := updateRow_spec hs
  obtain ⟨-, hstmt, -⟩ := running_eq_some.1 hrun
  have hsteady := updateSnapshot_steady hT
  have hwrite : HeapWrite (S.sees x) x e.pool pool actions :=
    Pool.updateRow_heapWrite hw fun t' ht' => by
      cases hold.symm.trans ht'
      exact (isVisible_iff.1 hvis).1
  have hlog : ∀ y, txnLog (recordUndo T stmt x actions).1 y ++
      stmtLog (e.setStmt x (some (stageWrites (updatePath gates xpage stmt.batched) t.toTableDef r
        new old.data row (recordUndo T stmt x actions).2)) y) =
      if y = x then e.log x ++ actions else e.log y := by
    intro y
    rw [log_eq, log_eq]
    unfold recordUndo
    split
    · split
      · rename_i hy
        subst hy
        simp [stmtLog, stageWrites_pendingUndo, txnLog_refreshed href, hstmt]
      · rename_i hy
        rw [setStmt_ne e hy, txnLog_refreshed href]
    · rename_i hb
      have hpend := h.unbatched x stmt hstmt (by simpa using hb)
      split
      · rename_i hy
        subst hy
        simp [txnLog_recordUndo href.new, txnLog_refreshed href, stmtLog, stageWrites_pendingUndo,
          hpend, hstmt]
      · rename_i hy
        rw [setStmt_ne e hy, txnLog_recordUndo href.new, if_neg hy, txnLog_refreshed href]
  have hrec : e.txns.Steady (recordUndo T stmt x actions).1 ∧
      ∃ txn', (recordUndo T stmt x actions).1.active x = some txn' ∧ txn'.snapshot = S := by
    unfold recordUndo
    split
    · exact ⟨hsteady, _, href.new, rfl⟩
    · exact ⟨hsteady.trans_recordUndo x _, _, by rw [recordUndo_eq href.new, set_active_self], rfl⟩
  obtain ⟨hst, txn', hx', rfl⟩ := hrec
  refine .write hst hx' hwrite ?_ fun y hy _ => ?_
  · exact (hlog x).trans (if_pos rfl)
  · exact (hlog y).trans (if_neg hy)

lemma deleteRow_heapStep {r : RowId} (hs : e.deleteRow x r = some e') : e.HeapStepTo e' := by
  obtain ⟨txn, stmt, t, old, pool, actions, hrun, -, -, -, hold, hvis, hw, rfl⟩ := deleteRow_spec hs
  obtain ⟨hx, hstmt, -⟩ := running_eq_some.1 hrun
  refine .write (.refl _) hx (Pool.deleteRow_heapWrite hw fun t' ht' => ?_) ?_ fun y hy _ => ?_
  · cases hold.symm.trans ht'
    exact (isVisible_iff.1 hvis).1
  · rw [log_eq, log_eq]
    simp [stmtLog, hstmt]
  · rw [log_eq, log_eq]
    simp [setStmt_ne e hy]

lemma endStmt_heapStep (h : e.HeapOk) {misses : List Bool} (hs : e.endStmt x misses = some e') :
    e.HeapStepTo e' := by
  obtain ⟨stmt, hstmt, rfl⟩ := endStmt_spec hs
  obtain ⟨txn, hx⟩ := h.active hstmt
  refine .steady rfl (endTxns_steady ..) fun y _ => ?_
  rw [log_eq, log_eq, txnLog_endTxns hx]
  by_cases hy : y = x
  · subst hy
    refine ⟨patchUndo stmt.patches, ?_, fun a => patchUndo_rows⟩
    simp [stmtLog, hstmt]
  · refine ⟨[], ?_, by simp⟩
    simp [hy, setStmt_ne e hy]

lemma commit_heapStep (hs : e.commit x = some e') : e.HeapStepTo e' := by
  obtain ⟨txn, hx, -, rfl⟩ := commit_spec hs
  refine .commit rfl hx rfl fun y hy => ?_
  simp [log, remove_active_ne e.txns (ne_of_remove hy)]

lemma abort_undone (h : e.HeapOk) {pool : Pool Row}
    (hloss : ∀ stmt, e.stmts x = some stmt → stmt.pendingUndo = [])
    (hx : e.txns.active x = some txn) (hw : applyWrites (undoWrites x txn.undoLog) e.pool =
      .ok pool) :
    e.pool.Undone (· = x) pool := by
  have hlogx : e.log x = txn.undoLog := by
    rw [log_eq, txnLog, hx]
    cases hstmt : e.stmts x with
    | none => simp [stmtLog]
    | some stmt => simp [stmtLog, hloss stmt hstmt]
  obtain ⟨Q, hQ, hrow⟩ := h.heap.abort_spec (x := x) (by simp [hx])
  rw [hlogx] at hQ
  cases hw.symm.trans hQ
  exact hrow

lemma abort_heapStep (h : e.HeapOk)
    (hloss : ∀ stmt, e.stmts x = some stmt → stmt.pendingUndo = []) (hs : e.abort x = some e') :
    e.HeapStepTo e' := by
  obtain ⟨txn, pool, hx, hw, rfl⟩ := abort_spec hs
  refine .undo (fun y hy => by simp [hy, hx]) (abort_undone h hloss hx hw) rfl
    (fun y txn' => ?_) fun y hy => ?_
  · rw [remove_active_eq_some, and_comm]
  · have hne := ne_of_remove hy
    simp [log, remove_active_ne e.txns hne, setStmt_ne e hne]

lemma HeapOk.exists_abort (h : e.HeapOk) (hx : e.txns.active x ≠ none) (hstmt : e.stmts x = none) :
    ∃ a, e.abort x = some a ∧ e.pool.Undone (· = x) a.pool ∧ a.tables = e.tables ∧
      a.txns = e.txns.remove x ∧ a.trees = undoPatches (txnLog e.txns x) e.trees := by
  obtain ⟨txn, htxn⟩ := Option.ne_none_iff_exists'.1 hx
  obtain ⟨Q, hQ, hrow⟩ := h.heap.abort_spec hx
  have hlog : e.log x = txn.undoLog := by simp [log_eq, txnLog, htxn, hstmt, stmtLog]
  rw [hlog] at hQ
  refine ⟨{ e with
    pool := Q
    txns := e.txns.remove x
    stmts := e.setStmt x none
    trees := undoPatches txn.undoLog e.trees
    locks := e.releaseAll x }, by simp [abort, htxn, hQ, Except.toOption], hrow, rfl, rfl, ?_⟩
  simp [txnLog, htxn]

lemma tuple?_restart (e : Engine) (r : RowId) :
    e.restart.pool.tuple? r = (e.pool.tuple? r).map e.recoverTuple := by
  simp only [Pool.tuple?, restart, getElem?_map]
  cases (e.pool r.pageId)[r.slot]? <;> simp

lemma undone_recoverTuple (e : Engine) (t : Tuple Row) :
    Undone (fun x => (e.txns.active x).isSome) t (e.recoverTuple t) := by
  unfold recoverTuple
  split
  · rename_i h1
    exact ⟨rfl, rfl, fun _ => ⟨rfl, rfl⟩, fun h => absurd h1 h, fun h => absurd h1 h⟩
  · rename_i h1
    split
    · rename_i h2
      exact ⟨rfl, rfl, fun h => absurd h h1, fun _ _ => ⟨rfl, rfl⟩, fun _ h => absurd h2 h⟩
    · rename_i h2
      exact .refl h1 h2

lemma restart_undone (e : Engine) :
    e.pool.Undone (fun x => (e.txns.active x).isSome) e.restart.pool := by
  refine fun r => ⟨fun hr => ?_, fun t ht => ⟨e.recoverTuple t, ?_, undone_recoverTuple e t⟩⟩
  · rw [tuple?_restart, hr]
    rfl
  · rw [tuple?_restart, ht]
    rfl

lemma restart_heapStep (e : Engine) : e.HeapStepTo e.restart := by
  refine .undo (fun x hx => ?_) (restart_undone e) rfl (fun x txn => ?_) fun x hx => absurd rfl hx
  · rw [← Option.isSome_iff_ne_none]
    exact hx
  · constructor
    · rintro ⟨⟩
    · rintro ⟨h, hn⟩
      exact absurd (by rw [h]; rfl) hn

theorem HeapOk.heapStep (h : e.HeapOk) (hloss : e.Lossless a) (hs : e.step a = some e') :
    e.HeapStepTo e' := by
  cases a with
  | begin iso =>
    cases hs
    exact begin_heapStep h iso
  | beginStmt x table batched =>
    obtain ⟨txn, T, S, hstmt, -, hT, -, rfl⟩ := beginStmt_spec hs
    exact refresh_heapStep rfl rfl rfl hT (stmtLog_setStmt (by rw [hstmt]; rfl))
  | acquire x id =>
    obtain ⟨-, -, rfl⟩ := acquire_spec hs
    exact steady_step rfl (.refl _) fun _ => rfl
  | insertRow x page row => exact insertRow_heapStep h hs
  | updateRow x setCols r page xpage row => exact updateRow_heapStep h hs
  | checkDelete x r =>
    obtain ⟨txn, stmt, t, old, T, S, hrun, -, -, -, hT, -, -, rfl⟩ := checkDelete_spec hs
    obtain ⟨-, hstmt, -⟩ := running_eq_some.1 hrun
    exact refresh_heapStep rfl rfl rfl hT (stmtLog_setStmt (by rw [hstmt]; rfl))
  | deleteRow x r => exact deleteRow_heapStep hs
  | endStmt x misses => exact endStmt_heapStep h hs
  | failStmt x =>
    obtain ⟨stmt, hstmt, rfl⟩ := failStmt_spec hs
    refine steady_step rfl (.refl _) fun y => ?_
    exact congrArg _ (stmtLog_setStmt (by simp [stmtLog, hstmt, hloss stmt hstmt]) y)
  | commit x => exact commit_heapStep hs
  | applyDeltas i =>
    obtain ⟨deltas, -, -, rfl⟩ := applyDeltas_spec hs
    exact steady_step rfl (.refl _) fun _ => rfl
  | abort x => exact abort_heapStep h hloss hs
  | createIndex x table col root =>
    obtain ⟨t, c, txn, T, S, -, -, -, -, -, -, -, hT, -, rfl⟩ := createIndex_spec hs
    exact refresh_heapStep rfl rfl rfl hT fun _ => rfl
  | truncate x table =>
    obtain ⟨t, txn, T, S, -, -, hT, -, rfl⟩ := truncate_spec hs
    exact refresh_heapStep rfl rfl rfl hT fun _ => rfl
  | countStar x table exclusive =>
    obtain ⟨t, txn, T, S, -, -, hT, -, rfl⟩ := countStar_spec hs
    exact refresh_heapStep rfl rfl rfl hT fun _ => rfl
  | restart =>
    cases hs
    exact restart_heapStep e

/-! ## The invariant -/

lemma StmtsOk.steady (h : StmtsOk e.txns e.stmts) (hT : e.txns.Steady T) : StmtsOk T e.stmts :=
  ⟨fun y hy => h.idle y ((hT.domain y).1 hy), h.unbatched⟩

lemma StmtsOk.set {stmt : Stmt} (h : StmtsOk e.txns e.stmts) (hT : e.txns.Steady T)
    (hx : e.txns.active x ≠ none) (hb : stmt.batched = false → stmt.pendingUndo = []) :
    StmtsOk T (e.setStmt x (some stmt)) := by
  refine ⟨fun y hy => ?_, fun y stmt' hy => ?_⟩
  · have hne : y ≠ x := by
      rintro rfl
      exact hx ((hT.domain y).1 hy)
    rw [setStmt_ne e hne]
    exact h.idle y ((hT.domain y).1 hy)
  · by_cases he : y = x
    · subst he
      rw [setStmt_self] at hy
      cases hy
      exact hb
    · rw [setStmt_ne e he] at hy
      exact h.unbatched y stmt' hy

lemma StmtsOk.drop (h : StmtsOk e.txns e.stmts)
    (hT : ∀ y, y ≠ x → T.active y = none → e.txns.active y = none) :
    StmtsOk T (e.setStmt x none) := by
  refine ⟨fun y hy => ?_, fun y stmt' hy => ?_⟩
  · by_cases he : y = x
    · rw [he, setStmt_self]
    · rw [setStmt_ne e he]
      exact h.idle y (hT y he hy)
  · by_cases he : y = x
    · rw [he, setStmt_self] at hy
      cases hy
    · rw [setStmt_ne e he] at hy
      exact h.unbatched y stmt' hy

lemma recordUndo_steady (h : e.txns.Steady T) (stmt : Stmt) (x : Nat)
    (actions : List UndoAction) : e.txns.Steady (recordUndo T stmt x actions).1 := by
  unfold recordUndo
  split
  · exact h
  · exact h.trans_recordUndo x actions

lemma stageWrites_batched (path : UpdatePath) (t : TableDef) (old new : RowId)
    (before after : Row) (stmt : Stmt) :
    (stageWrites path t old new before after stmt).batched = stmt.batched := by
  unfold stageWrites
  split <;> rfl

lemma StmtsOk.step (h : StmtsOk e.txns e.stmts) (hs : e.step a = some e') :
    StmtsOk e'.txns e'.stmts := by
  have hne : ∀ {y txn}, e.txns.active y = some txn → e.txns.active y ≠ none :=
    fun hy => by simp [hy]
  cases a with
  | begin iso =>
    cases hs
    refine ⟨fun y hy => ?_, h.unbatched⟩
    by_cases he : y = e.txns.nextXid
    · subst he
      simp [begin] at hy
    · exact h.idle y (e.txns.begin_active_ne he iso ▸ hy)
  | beginStmt x table batched =>
    obtain ⟨txn, T, S, -, -, hT, href, rfl⟩ := beginStmt_spec hs
    exact h.set (snapshotForStatement_steady hT) (hne href.old) fun _ => rfl
  | acquire x id =>
    obtain ⟨-, -, rfl⟩ := acquire_spec hs
    exact h
  | insertRow x page row =>
    obtain ⟨txn, stmt, t, T, S, tables, hrun, -, -, -, hT, href, -, -, -, rfl⟩ := insertRow_spec hs
    obtain ⟨-, hstmt, -⟩ := running_eq_some.1 hrun
    exact h.set ((snapshotForStatement_steady hT).trans_recordUndo x _) (hne href.old)
      (h.unbatched x stmt hstmt)
  | updateRow x setCols r page xpage row =>
    obtain ⟨txn, stmt, t, gates, old, T, S, tables, pool, new, actions, hrun, -, -, -, -, -, hT,
      href, -, -, -, -, -, -, rfl⟩ := updateRow_spec hs
    obtain ⟨-, hstmt, -⟩ := running_eq_some.1 hrun
    refine h.set (recordUndo_steady (updateSnapshot_steady hT) ..) (hne href.old) ?_
    rw [stageWrites_batched, stageWrites_pendingUndo]
    unfold recordUndo
    split
    · rename_i hb
      intro hb'
      exact absurd (hb.symm.trans hb') (by decide)
    · exact h.unbatched x stmt hstmt
  | checkDelete x r =>
    obtain ⟨txn, stmt, t, old, T, S, hrun, -, -, -, hT, href, -, rfl⟩ := checkDelete_spec hs
    obtain ⟨-, hstmt, -⟩ := running_eq_some.1 hrun
    exact h.set (snapshotForStatement_steady hT) (hne href.old) (h.unbatched x stmt hstmt)
  | deleteRow x r =>
    obtain ⟨txn, stmt, t, old, pool, actions, hrun, hb, -, -, -, -, -, rfl⟩ := deleteRow_spec hs
    obtain ⟨hx, -, -⟩ := running_eq_some.1 hrun
    exact h.set (.refl _) (hne hx) fun hb' => absurd (hb.symm.trans hb') (by decide)
  | endStmt x misses =>
    obtain ⟨stmt, -, rfl⟩ := endStmt_spec hs
    exact h.drop fun y _ hy => ((endTxns_steady ..).domain y).1 hy
  | failStmt x =>
    obtain ⟨stmt, -, rfl⟩ := failStmt_spec hs
    exact h.drop fun _ _ hy => hy
  | commit x =>
    obtain ⟨txn, -, hstmt, rfl⟩ := commit_spec hs
    refine ⟨fun y hy => ?_, h.unbatched⟩
    by_cases he : y = x
    · exact he ▸ hstmt
    · exact h.idle y (by rw [← remove_active_ne e.txns he]; exact hy)
  | applyDeltas i =>
    obtain ⟨deltas, -, -, rfl⟩ := applyDeltas_spec hs
    exact h
  | abort x =>
    obtain ⟨txn, pool, -, -, rfl⟩ := abort_spec hs
    exact h.drop fun y hy hy' => by rw [← remove_active_ne e.txns hy]; exact hy'
  | createIndex x table col root =>
    obtain ⟨t, c, txn, T, S, -, -, -, -, -, -, -, hT, -, rfl⟩ := createIndex_spec hs
    exact h.steady (snapshotForStatement_steady hT)
  | truncate x table =>
    obtain ⟨t, txn, T, S, -, -, hT, -, rfl⟩ := truncate_spec hs
    exact h.steady (snapshotForStatement_steady hT)
  | countStar x table exclusive =>
    obtain ⟨t, txn, T, S, -, -, hT, -, rfl⟩ := countStar_spec hs
    exact h.steady (snapshotForStatement_steady hT)
  | restart =>
    cases hs
    exact ⟨fun _ _ => rfl, fun _ _ h => by cases h⟩

lemma HeapStep.nextXid_le {ρ : Type} {P P' : Pool ρ} {T' : TxnInner}
    {log log' : Nat → List UndoAction} (h : HeapStep P T log P' T' log') :
    T.nextXid ≤ T'.nextXid := by
  cases h with
  | steady _ hT _ => exact hT.nextXid.ge
  | begin iso _ hT _ _ =>
    subst hT
    exact Nat.le_succ _
  | write hT _ _ _ _ => exact hT.nextXid.ge
  | commit _ _ hT _ =>
    subst hT
    exact Nat.le_refl _
  | undo _ _ hnext _ _ => exact hnext.ge

theorem HeapOk.step (h : e.HeapOk) (hloss : e.Lossless a) (hs : e.step a = some e') :
    e'.HeapOk := by
  have hstep := h.heapStep hloss hs
  exact ⟨h.toStmtsOk.step hs, h.heap.step h.pos hstep,
    Nat.lt_of_lt_of_le h.pos (HeapStep.nextXid_le hstep)⟩

lemma stmts_of_quiet (hk : e.HeapOk) (hq : e.quiet = true) (y : Nat) : e.stmts y = none := by
  by_cases hy : e.txns.active y = none
  · exact hk.idle y hy
  · have hlt := (hk.heap.active_lt y hy).2
    have := all_eq_true.1 hq y (mem_range.2 hlt)
    simpa using this

lemma heapOk_initial (tables : List Table) : (Engine.initial tables).HeapOk := by
  have hnone : ∀ r : RowId, (Engine.initial tables).pool.tuple? r = none := fun r => rfl
  refine ⟨⟨fun _ _ => rfl, fun _ _ h => by cases h⟩, ?_, Nat.one_pos⟩
  have hno : ∀ {r : RowId} {t : Tuple Row}, (Engine.initial tables).pool.tuple? r = some t →
      False := by
    intro r t h
    cases h
  exact ⟨fun _ h => absurd rfl h, fun _ _ h => (hno h).elim, fun _ _ h => (hno h).elim,
    fun _ _ h => (hno h).elim, fun _ _ h => (hno h).elim, fun _ _ _ h => (hno h).elim,
    (fun _ _ h => by cases h), (fun _ _ h => by cases h), fun _ h => absurd rfl h⟩

/-! ## Readers -/

def snapshotOf (T : TxnInner) (y : Nat) : Option Snapshot := (T.active y).map (·.snapshot)

/-- A running transaction under the snapshot it holds, or a new one. -/
def Reader (e : Engine) (S : Snapshot) (y : Nat) : Prop :=
  snapshotOf e.txns y = some S ∨ y = e.txns.nextXid ∧ S = e.txns.computeSnapshot

/-! ## Page directories -/

/-- Tables are stored under their names, and no two of them share a page. -/
structure PagesOk (names : List String) (tables : String → Option Table) : Prop where
  named : ∀ name t, tables name = some t → t.name = name ∧ name ∈ names
  nodup : ∀ name t, tables name = some t → t.pages.Nodup
  disjoint : ∀ name t name' t' page, tables name = some t → tables name' = some t' →
    page ∈ t.pages → page ∈ t'.pages → name = name'

lemma PagesOk.mem_tableList (h : PagesOk e.names e.tables) (ht : e.tables name = some t) :
    t ∈ e.tableList :=
  mem_filterMap.2 ⟨name, (h.named name t ht).2, ht⟩

lemma PagesOk.mono {names : List String} {tables' : String → Option Table}
    (h : PagesOk names tables) (hsub : ∀ name t', tables' name = some t' →
      ∃ t, tables name = some t ∧ t'.name = t.name ∧ t'.pages.Sublist t.pages) :
    PagesOk names tables' := by
  refine ⟨fun name t' ht' => ?_, fun name t' ht' => ?_, fun name t' name' u' page ht' hu' hp hp' =>
    ?_⟩
  · obtain ⟨t, ht, hname, -⟩ := hsub name t' ht'
    rw [hname]
    exact h.named name t ht
  · obtain ⟨t, ht, -, hpages⟩ := hsub name t' ht'
    exact hpages.nodup (h.nodup name t ht)
  · obtain ⟨t, ht, -, hpages⟩ := hsub name t' ht'
    obtain ⟨u, hu, -, hpages'⟩ := hsub name' u' hu'
    exact h.disjoint name t name' u page ht hu (hpages.subset hp) (hpages'.subset hp')

lemma setTable_eq_some {t' : Table} (h : e.setTable t name = some t') :
    name = t.name ∧ t' = t ∨ name ≠ t.name ∧ e.tables name = some t' := by
  rcases eq_of_update h with ⟨hname, ht⟩ | hother
  · exact .inl ⟨hname, (Option.some.inj ht).symm⟩
  · exact .inr hother

section
variable (h : PagesOk e.names e.tables)

include h

lemma PagesOk.setTable {t' : Table} (ht : e.tables name = some t)
    (hname : t'.name = t.name) (hsub : t'.pages.Sublist t.pages) :
    PagesOk e.names (e.setTable t') := by
  refine h.mono fun name' u hu => ?_
  rcases setTable_eq_some hu with ⟨rfl, rfl⟩ | ⟨-, hu'⟩
  · have hn := (h.named name t ht).1
    refine ⟨t, ?_, hname, hsub⟩
    rw [hname, hn]
    exact ht
  · exact ⟨u, hu', rfl, List.Sublist.refl _⟩

lemma PagesOk.claimPage (ht : e.tables name = some t)
    (hclaim : e.claimPage t page = some tables) : PagesOk e.names tables := by
  obtain ⟨-, rfl⟩ | ⟨hp, hfree, -, rfl⟩ := claimPage_spec hclaim
  · exact h
  · have hn := (h.named name t ht).1
    have hother : ∀ name' u, e.tables name' = some u → page ∉ u.pages := fun name' u hu =>
      hfree u (h.mem_tableList hu)
    refine ⟨fun name' u hu => ?_, fun name' u hu => ?_, fun name1 u1 name2 u2 q h₁ h₂ hq1 hq2 => ?_⟩
    · rcases setTable_eq_some hu with ⟨rfl, rfl⟩ | ⟨-, hu'⟩
      · exact ⟨rfl, by rw [hn]; exact (h.named name t ht).2⟩
      · exact h.named name' u hu'
    · rcases setTable_eq_some hu with ⟨rfl, rfl⟩ | ⟨-, hu'⟩
      · exact nodup_append.2 ⟨h.nodup name t ht, by simp, by
          rintro q hq q' hq' rfl
          rw [mem_singleton] at hq'
          exact hp (hq' ▸ hq)⟩
      · exact h.nodup name' u hu'
    · have hapart : ∀ {name' u}, e.tables name' = some u → q ∈ t.pages ++ [page] → q ∈ u.pages →
          t.name = name' := by
        intro name' u hu hq hq'
        rcases mem_append.1 hq with hq | hq
        · exact hn.trans (h.disjoint name t name' u q ht hu hq hq')
        · rw [mem_singleton] at hq
          exact absurd (hq ▸ hq') (hother name' u hu)
      rcases setTable_eq_some h₁ with ⟨rfl, rfl⟩ | ⟨-, h₁'⟩
      · rcases setTable_eq_some h₂ with ⟨rfl, rfl⟩ | ⟨-, h₂'⟩
        · rfl
        · exact hapart h₂' hq1 hq2
      · rcases setTable_eq_some h₂ with ⟨rfl, rfl⟩ | ⟨-, h₂'⟩
        · exact (hapart h₁' hq2 hq1).symm
        · exact h.disjoint name1 u1 name2 u2 q h₁' h₂' hq1 hq2

theorem PagesOk.step (hs : e.step a = some e') : PagesOk e'.names e'.tables := by
  have hmap : ∀ f : String → Table → Table, (∀ name t, (f name t).name = t.name ∧
    (f name t).pages = t.pages) →
      PagesOk e.names fun name => (e.tables name).map (f name) := by
    intro f hf
    refine h.mono fun name t' ht' => ?_
    obtain ⟨t, ht, rfl⟩ := Option.map_eq_some_iff.1 ht'
    exact ⟨t, ht, (hf name t).1, by rw [(hf name t).2]⟩
  cases a with
  | begin iso =>
    cases hs
    exact h
  | beginStmt x table batched =>
    obtain ⟨txn, T, S, -, -, -, -, rfl⟩ := beginStmt_spec hs
    exact h
  | acquire x id =>
    obtain ⟨-, -, rfl⟩ := acquire_spec hs
    exact h
  | insertRow x page row =>
    obtain ⟨txn, stmt, t, T, S, tables, hrun, -, -, -, -, -, -, -, hclaim, rfl⟩ := insertRow_spec hs
    exact h.claimPage (running_eq_some.1 hrun).2.2 hclaim
  | updateRow x setCols r page xpage row =>
    obtain ⟨txn, stmt, t, gates, old, T, S, tables, pool, new, actions, hrun, -, -, -, -, -, -, -,
      -, -, -, -, hclaim, -, rfl⟩ := updateRow_spec hs
    exact h.claimPage (running_eq_some.1 hrun).2.2 hclaim
  | checkDelete x r =>
    obtain ⟨txn, stmt, t, old, T, S, -, -, -, -, -, -, -, rfl⟩ := checkDelete_spec hs
    exact h
  | deleteRow x r =>
    obtain ⟨txn, stmt, t, old, pool, actions, -, -, -, -, -, -, -, rfl⟩ := deleteRow_spec hs
    exact h
  | endStmt x misses =>
    obtain ⟨stmt, -, rfl⟩ := endStmt_spec hs
    exact h
  | failStmt x =>
    obtain ⟨stmt, -, rfl⟩ := failStmt_spec hs
    exact h
  | commit x =>
    obtain ⟨txn, -, -, rfl⟩ := commit_spec hs
    exact h
  | applyDeltas i =>
    obtain ⟨deltas, -, -, rfl⟩ := applyDeltas_spec hs
    exact hmap _ fun _ _ => ⟨rfl, rfl⟩
  | abort x =>
    obtain ⟨txn, pool, -, -, rfl⟩ := abort_spec hs
    exact h
  | createIndex x table col root =>
    obtain ⟨t, c, txn, T, S, ht, -, -, -, -, -, -, -, -, rfl⟩ := createIndex_spec hs
    exact h.setTable ht rfl (List.Sublist.refl _)
  | truncate x table =>
    obtain ⟨t, txn, T, S, ht, -, -, -, rfl⟩ := truncate_spec hs
    exact h.setTable ht rfl (nil_sublist _)
  | countStar x table exclusive =>
    obtain ⟨t, txn, T, S, ht, -, -, -, rfl⟩ := countStar_spec hs
    split
    · exact h.setTable ht rfl (List.Sublist.refl _)
    · exact h
  | restart =>
    cases hs
    exact hmap _ fun _ _ => ⟨rfl, rfl⟩

end

lemma pagesOk_initial {tables : List Table} (hpages : ∀ t ∈ tables, t.pages = []) :
    PagesOk (Engine.initial tables).names (Engine.initial tables).tables := by
  have hmem : ∀ {name t}, (Engine.initial tables).tables name = some t →
      t ∈ tables ∧ t.name = name := fun h =>
    ⟨mem_of_find?_eq_some h, by simpa using find?_some h⟩
  refine ⟨fun name t ht => ?_, fun name t ht => ?_, fun name t name' t' page ht ht' hp _ => ?_⟩
  · obtain ⟨hin, hname⟩ := hmem ht
    exact ⟨hname, mem_map.2 ⟨t, hin, hname⟩⟩
  · rw [hpages t (hmem ht).1]
    exact nodup_nil
  · rw [hpages t (hmem ht).1] at hp
    cases hp

end Engine

end UniDb
