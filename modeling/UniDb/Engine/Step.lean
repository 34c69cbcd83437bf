import UniDb.Engine.State
import UniDb.Lib.Run
import UniDb.Txn.UndoLog

/-!
# Steps of the engine

`Engine.step` runs one action: a row of a statement, the start or end of one, a lock, a snapshot,
the end of a transaction, a change of the catalog, a restart. It returns `none` where the action is
not possible, in particular where a check of the statement fails; what then happens to the
statement is a `failStmt` or an `abort`.
-/

namespace UniDb

/-- The page choices of the heap (`page`), the shape of the trees (`misses`) and the route of a
`COUNT(*)` to the catalog lock (`exclusive`) are arguments of the actions. -/
inductive Action where
  | begin (isolation : IsolationLevel)
  | beginStmt (x : Nat) (table : String) (batched : Bool)
  | acquire (x : Nat) (id : LockId)
  | insertRow (x page : Nat) (row : Row)
  | updateRow (x : Nat) (setCols : List String) (r : RowId) (page : Nat) (xpage : Bool) (row : Row)
  | checkDelete (x : Nat) (r : RowId)
  | deleteRow (x : Nat) (r : RowId)
  | endStmt (x : Nat) (misses : List Bool)
  | failStmt (x : Nat)
  | commit (x : Nat)
  | applyDeltas (i : Nat)
  | abort (x : Nat)
  | createIndex (x : Nat) (table : String) (col root : Nat)
  | truncate (x : Nat) (table : String)
  | countStar (x : Nat) (table : String) (exclusive : Bool)
  | restart
deriving DecidableEq, Repr

namespace Engine

variable (e : Engine) (x : Nat) (t : Table) (table : String) (gates : UpdateGates) (S : Snapshot)

def tableList : List Table := e.names.filterMap e.tables

/-- The undo actions of a running transaction, recorded or still pending in its statement. -/
def log : List UndoAction :=
  ((e.txns.active x).map (·.undoLog)).getD [] ++ ((e.stmts x).map (·.pendingUndo)).getD []

/-- The running transaction `x`, its statement and the table of the statement. -/
def running : Option (Transaction × Stmt × Table) := do
  let txn ← e.txns.active x
  let stmt ← e.stmts x
  let t ← e.tables stmt.table
  pure (txn, stmt, t)

def setStmt (stmt : Option Stmt) : Nat → Option Stmt := Function.update e.stmts x stmt

def setTable : String → Option Table := Function.update e.tables t.name (some t)

/-- No statement is running: the exclusive catalog lock can be had. -/
def quiet : Bool := (List.range e.txns.nextXid).all fun x => (e.stmts x).isNone

def holds (ids : List LockId) : Bool := ids.all fun id => e.locks id = some x

/-- The page directories after a version went to `page`: the table's own page, or a page that no
table owns yet. -/
def claimPage (page : Nat) : Option (String → Option Table) :=
  if page ∈ t.pages then some e.tables
  else if (e.tableList.all fun t' => !t'.pages.contains page) ∧ (e.pool page).isEmpty then
    some (e.setTable { t with pages := t.pages ++ [page] })
  else none

/-- Record undo actions: at once, or at the end of a batched statement. -/
def recordUndo (T : TxnInner) (stmt : Stmt) (x : Nat) (actions : List UndoAction) :
    TxnInner × Stmt :=
  if stmt.batched then (T, { stmt with pendingUndo := stmt.pendingUndo ++ actions })
  else (T.recordUndo x actions, stmt)

/-- One row of an `INSERT` (`try_insert_one_row`), its phantom locks already held. -/
def insertRow (page : Nat) (row : Row) : Option Engine := do
  let (_, stmt, t) ← e.running x
  guard (stmt.batched = false ∧ row.length = t.columns.length)
  guard (e.holds x (uniqueKeyLocks t.toTableDef row ++ fkKeyLocks e.tables t.toTableDef row))
  let T ← e.txns.snapshotForStatement x
  let txn ← T.active x
  (enforceUnique e.pool e.trees txn.snapshot x t row none).toOption
  (enforceFkRowsExist e.pool e.trees txn.snapshot x e.tables t row).toOption
  let tables ← e.claimPage t page
  let (pool, rid, actions) := e.pool.insertRow x page row
  pure { e with
    pool, tables
    txns := T.recordUndo x actions
    trees := insertEntries t.toTableDef rid row e.trees
    stmts := e.setStmt x (some { stmt with delta := stmt.delta + 1 }) }

/-- The rows differ only in the columns named. -/
def agreeOutside (columns : List ColumnDef) (setCols : List String) (before after : Row) : Bool :=
  after.length = columns.length ∧ columns.zipIdx.all fun (c, i) =>
    setCols.contains c.name || before[i]? == after[i]?

/-- The locks `apply_single_row_update` takes before its snapshot. -/
def updateLocks (tables : String → Option Table) (t : TableDef) (gates : UpdateGates)
    (before after : Row) : List LockId :=
  (if gates.hasUniqueInSet then uniqueKeyLocks t after else []) ++
    (if gates.hasFkRefsInSet then fkKeyLocks tables t after else []) ++
      (if gates.hasFkChildrenRefInSet then fkKeyLocksParent t before else [])

/-- A row that has to be checked takes its snapshot after its locks. -/
def updateSnapshot : Option TxnInner :=
  if gates.checks then e.txns.snapshotForStatement x else some e.txns

def gated (gate : Bool) (check : Except DbError Unit) : Option Unit :=
  if gate then check.toOption else some ()

/-- The write path of an update; the batched HOT arm always links across pages. -/
def updatePath (xpage batched : Bool) : UpdatePath :=
  if gates.hotEligible then if xpage || batched then .hotXpage else .hot else .plain

/-- The index writes of a row that moved: nothing on the HOT paths. -/
def stageWrites (path : UpdatePath) (t : TableDef) (old new : RowId) (before after : Row)
    (stmt : Stmt) : Stmt :=
  if path = .plain then
    { stmt with
      patches := stmt.patches ++ stagedPatches t old new before after
      entries := stmt.entries ++ stagedEntries t old new before after }
  else stmt

/-- One row of an `UPDATE` or of `ON CONFLICT DO UPDATE` (`apply_single_row_update`, and the rows of
the two batched arms). `row` is the new image. -/
def updateRow (setCols : List String) (r : RowId) (page : Nat) (xpage : Bool)
    (row : Row) : Option Engine := do
  let (_, stmt, t) ← e.running x
  let gates ← (computeUpdateGates e.tableList t.toTableDef setCols).toOption
  let old ← e.pool.tuple? r
  guard (r.pageId ∈ t.pages ∧ agreeOutside t.columns setCols old.data row)
  guard (gates.checks → e.holds x (updateLocks e.tables t.toTableDef gates old.data row))
  let T ← e.updateSnapshot x gates
  let txn ← T.active x
  guard (old.visible txn.snapshot x)
  gated gates.hasUniqueInSet (enforceUnique e.pool e.trees txn.snapshot x t row (some r))
  gated gates.hasFkRefsInSet (enforceFkRowsExist e.pool e.trees txn.snapshot x e.tables t row)
  gated gates.hasFkChildrenRefInSet
    (enforceFkRestrict e.pool e.trees txn.snapshot x e.tableList t old.data)
  let path := updatePath gates xpage stmt.batched
  let tables ← e.claimPage t (if path = .hot then r.pageId else page)
  let (pool, new, actions) ← (e.pool.updateRow x path r page row).toOption
  let recorded := recordUndo T stmt x actions
  pure { e with
    pool, tables
    txns := recorded.1
    trees := if path = .plain then inlineEntries t.toTableDef r new old.data row e.trees
      else e.trees
    stmts := e.setStmt x (some (stageWrites path t.toTableDef r new old.data row recorded.2)) }

/-- The RESTRICT check of one row of a `DELETE`. -/
def checkDelete (r : RowId) : Option Engine := do
  let (_, stmt, t) ← e.running x
  let old ← e.pool.tuple? r
  guard (r.pageId ∈ t.pages)
  guard (e.holds x (fkKeyLocksParent t.toTableDef old.data))
  let T ← e.txns.snapshotForStatement x
  let txn ← T.active x
  (enforceFkRestrict e.pool e.trees txn.snapshot x e.tableList t old.data).toOption
  pure { e with txns := T, stmts := e.setStmt x (some { stmt with checked := r :: stmt.checked }) }

/-- One row of `delete_many`. -/
def deleteRow (r : RowId) : Option Engine := do
  let (txn, stmt, t) ← e.running x
  guard (stmt.batched = true ∧ r.pageId ∈ t.pages)
  guard (tableHasFkChildren e.tableList t.name → r ∈ stmt.checked)
  let old ← e.pool.tuple? r
  guard (old.visible txn.snapshot x)
  let (pool, actions) ← (e.pool.deleteRow x r).toOption
  pure { e with
    pool
    stmts := e.setStmt x (some { stmt with
      pendingUndo := stmt.pendingUndo ++ actions
      delta := stmt.delta - 1 }) }

def patchUndo (patches : List Patch) : List UndoAction :=
  patches.map fun p => .btreePatch p.root p.key p.old p.new

/-- The end of a statement: flush what it staged, record what it deferred. -/
def endStmt (misses : List Bool) : Option Engine := do
  let stmt ← e.stmts x
  let txns := e.txns.recordUndo x (stmt.pendingUndo ++ patchUndo stmt.patches)
  pure { e with
    txns := if stmt.delta = 0 then txns else txns.recordRowCountDelta x stmt.table stmt.delta
    trees := flushEntries stmt.entries (flushPatches stmt.patches misses e.trees)
    stmts := e.setStmt x none }

def releaseAll : LockId → Option Nat := fun id =>
  if e.locks id = some x then none else e.locks id

/-- `commit` up to the removal of the id from `active` and the release of its locks. -/
def commit : Option Engine := do
  let txn ← e.txns.active x
  guard (e.stmts x).isNone
  pure { e with
    txns := e.txns.remove x
    locks := e.releaseAll x
    unapplied := e.unapplied ++ [txn.rowCountDeltas] }

def rowCountUnknown : Int := i64Min

def applyDelta (rowCount : Int) : Option Int → Int
  | none => rowCount
  | some delta =>
    if delta = TxnInner.truncateSentinel then 0
    else if delta = 0 ∨ rowCount = rowCountUnknown then rowCount
    else saturatingAdd rowCount delta

/-- The rest of `commit`: the deltas reach the catalog. -/
def applyDeltas (i : Nat) : Option Engine := do
  guard e.quiet
  let deltas ← e.unapplied[i]?
  pure { e with
    tables := fun name => (e.tables name).map fun t =>
      { t with rowCount := applyDelta t.rowCount (deltas name) }
    unapplied := e.unapplied.eraseIdx i }

/-- `abort`, of a transaction between statements or after a failed one. -/
def abort : Option Engine := do
  let txn ← e.txns.active x
  let pool ← (applyWrites (undoWrites x txn.undoLog) e.pool).toOption
  pure { e with
    pool
    txns := e.txns.remove x
    stmts := e.setStmt x none
    trees := undoPatches txn.undoLog e.trees
    locks := e.releaseAll x }

/-- The entries `CREATE INDEX` builds from a scan. -/
def backfill (t : TableDef) (col : Nat) (c : ColumnDef) (rows : List (RowId × Tuple Row)) :
    DiskBTree :=
  rows.foldl (fun tree (rid, tuple) =>
    match keyOf col tuple.data with
    | some key => tree.insert ⟨key, rid, payloadOf t c tuple.data⟩
    | none => tree) []

/-- `CREATE INDEX … USING BTREE` on a column without one; `root` is the new meta page. -/
def createIndex (col root : Nat) : Option Engine := do
  let t ← e.tables table
  let c ← t.columns[col]?
  guard (e.quiet ∧ !c.dropped ∧ c.indexRoot.isNone)
  guard ((e.tableList.all fun t' => !(treeRoots t'.toTableDef).contains root) ∧
    (e.trees root).isEmpty)
  let T ← e.txns.snapshotForStatement x
  let txn ← T.active x
  pure { e with
    txns := T
    trees := Function.update e.trees root
      (backfill t.toTableDef col c (e.pool.scan t.pages txn.snapshot x))
    tables := e.setTable { t with
      columns := t.columns.set col { c with index := some .btree, indexRoot := some root } } }

/-- `TRUNCATE`, and `DELETE` without a predicate on its fast path (`Catalog::truncate`). -/
def truncate : Option Engine := do
  guard e.quiet
  let t ← e.tables table
  let T ← e.txns.snapshotForStatement x
  pure { e with txns := T, tables := e.setTable { t with pages := [], rowCount := 0 } }

def countVisible (x : Nat) : Int := (e.pool.scan t.pages S x).length

/-- What `SELECT COUNT(*)` answers under a snapshot on a table without a SELECT policy. -/
def countAnswer (x : Nat) : Int :=
  if t.rowCount = rowCountUnknown then e.countVisible t S x else t.rowCount

/-- `SELECT COUNT(*)` on a table without a SELECT policy: an unknown counter is recalibrated under
the exclusive catalog lock. -/
def countStar (exclusive : Bool) : Option Engine := do
  guard (exclusive → e.quiet)
  let t ← e.tables table
  guard t.rlsPolicy.isNone
  let T ← e.txns.snapshotForStatement x
  let txn ← T.active x
  pure { e with
    txns := T
    tables :=
      if exclusive ∧ t.rowCount = rowCountUnknown then
        e.setTable { t with rowCount := e.countVisible t txn.snapshot x }
      else e.tables }

/-- What recovery leaves of a tuple: the effects of unfinished transactions are taken back. -/
def recoverTuple (t : Tuple Row) : Tuple Row :=
  if (e.txns.active t.xmin).isSome then { t with xmax := t.xmin, hotNext := .none }
  else if (e.txns.active t.xmax).isSome then { t with xmax := 0, hotNext := .none }
  else t

/-- A crash and the recovery after it. The counters are unknown afterwards. -/
def restart : Engine := { e with
  pool := fun page => (e.pool page).map (Slot.map e.recoverTuple)
  txns := { e.txns with active := fun _ => none }
  stmts := fun _ => none
  locks := fun _ => none
  tables := fun name => (e.tables name).map fun t => { t with rowCount := rowCountUnknown }
  unapplied := [] }

def step : Action → Option Engine
  | .begin isolation => some { e with txns := e.txns.begin isolation }
  | .beginStmt x table batched => do
    guard (e.stmts x).isNone
    guard (e.tables table).isSome
    let T ← e.txns.snapshotForStatement x
    pure { e with txns := T, stmts := e.setStmt x (some ⟨table, batched, [], [], [], [], 0⟩) }
  | .acquire x id => do
    guard (e.txns.active x).isSome
    guard (e.locks id = none ∨ e.locks id = some x)
    pure { e with locks := Function.update e.locks id (some x) }
  | .insertRow x page row => e.insertRow x page row
  | .updateRow x setCols r page xpage row => e.updateRow x setCols r page xpage row
  | .checkDelete x r => e.checkDelete x r
  | .deleteRow x r => e.deleteRow x r
  | .endStmt x misses => e.endStmt x misses
  | .failStmt x => do
    guard (e.stmts x).isSome
    pure { e with stmts := e.setStmt x none }
  | .commit x => e.commit x
  | .applyDeltas i => e.applyDeltas i
  | .abort x => e.abort x
  | .createIndex x table col root => e.createIndex x table col root
  | .truncate x table => e.truncate x table
  | .countStar x table exclusive => e.countStar x table exclusive
  | .restart => some e.restart

end Engine

def Engine.initial (tables : List Table) : Engine where
  pool := fun _ => []
  txns := ⟨1, fun _ => none⟩
  stmts := fun _ => none
  names := tables.map (·.name)
  tables := fun name => tables.find? (·.name == name)
  trees := fun _ => []
  locks := fun _ => none
  unapplied := []

end UniDb
