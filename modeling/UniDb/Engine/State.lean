import UniDb.Engine.Schema
import UniDb.Storage.RowWrites
import UniDb.Txn.Manager

/-!
# The engine (`sql/executor.rs`, `lib.rs`)

The state that concurrent SQL statements share, and what each of them does to it row by row.
Between two rows of one statement any other transaction may act; what a statement has staged for
its end (index patches and entries, the undo records of the batched writers, the row-count delta)
is part of the state (`Stmt`). A statement that fails drops it.

Stored rows are the coerced rows of a fixed list of columns. Triggers, events, full-text and vector
indexes are left out.
-/

namespace UniDb

/-- An unchanged key whose entry is to be redirected from the old version to the new one. -/
structure Patch where
  root : Nat
  key : OrderedValue
  old : RowId
  new : RowId
deriving DecidableEq, Repr

/-- A running statement. `batched` marks the writers that record undo only at their end. -/
structure Stmt where
  table : String
  batched : Bool
  pendingUndo : List UndoAction := []
  patches : List Patch := []
  entries : List (Nat × LeafEntry) := []
  /-- The rows of a `DELETE` that passed the RESTRICT check. -/
  checked : List RowId := []
  delta : Int := 0

/-- `unapplied` holds the row-count deltas of transactions that have left `active` and have not yet
reached the catalog. -/
structure Engine where
  pool : Pool Row
  txns : TxnInner
  stmts : Nat → Option Stmt
  names : List String
  tables : String → Option Table
  trees : Nat → DiskBTree
  locks : LockId → Option Nat
  unapplied : List (String → Option Int)

/-! ## Checks -/

section checks
variable (P : Pool Row) (trees : Nat → DiskBTree) (S : Snapshot) (x : Nat)
  (lookup : String → Option Table)

/-- Some candidate of the point lookup is visible. -/
def indexHit (root : Nat) (key : OrderedValue) (exclude : Option RowId) : Bool :=
  ((trees root).searchEq key).any fun rid =>
    some rid != exclude && (P.getVisibleWithRid rid S x).isSome

/-- Some visible row other than `exclude` agrees with `row` on the columns of a set. -/
def scanHit (pages : List Nat) (set : List Nat) (row : Row) (exclude : Option RowId) : Bool :=
  (P.scan pages S x).any fun (rid, t) =>
    some rid != exclude && set.all fun i => t.data[i]? == row[i]?

/-- The tree and key that decide a set, if it is checked by a point lookup. -/
def pointLookup (t : TableDef) (row : Row) : List Nat → Option (Nat × OrderedValue)
  | [i] => do
    let root ← (← t.columns[i]?).uniqueIndexRoot
    let key ← keyOf i row
    pure (root, key)
  | _ => none

variable (t : Table) (row : Row) (exclude : Option RowId)

/-- A unique set of the table that the new row violates. -/
def setConflict (set : List Nat) : Bool :=
  if set.any fun i => row[i]? == some .null then false
  else
    match pointLookup t.toTableDef row set with
    | some (root, key) => indexHit P trees S x root key exclude
    | none => scanHit P S x t.pages set row exclude

/-- `enforce_unique`: point lookups first, then the scans. -/
def enforceUnique : Except DbError Unit := do
  let sets ← uniqueColumnSets t.toTableDef
  let (points, scans) := sets.partition fun set => (pointLookup t.toTableDef row set).isSome
  match (points ++ scans).find? (setConflict P trees S x t row exclude) with
  | some set => .error (.uniqueViolation t.name
      (", ".intercalate (set.filterMap fun i => t.columns[i]?.map (·.name))))
  | none => pure ()

/-- `check_fk_parent_exists`. -/
def parentExists (fk : FkRef) (value : Literal) : Except DbError Bool :=
  match lookup fk.refTable with
  | none => .error (.tableNotFound fk.refTable)
  | some parent => do
    let pc ← resolveFkRefCol parent.toTableDef fk.refColumn
    match pc.uniqueIndexRoot, OrderedValue.tryFrom value with
    | some root, some key => pure (indexHit P trees S x root key none)
    | _, _ => do
      let j ← columnIndex parent.toTableDef pc.name
      pure ((P.scan parent.pages S x).any fun (_, t) => t.data[j]? == some value)

def enforceFkRowsExist : Except DbError Unit :=
  (columnFkRefs t.toTableDef ++ tableFkRefs t.toTableDef).forM fun fk =>
    match row[fk.pos]? with
    | none | some .null => pure ()
    | some value => do
      if ← parentExists P trees S x lookup fk value then pure ()
      else throw (.foreignKeyViolation t.name fk.refTable fk.column)

/-- `check_restrict_child`: is there a visible child row with this value? -/
def childExists (child : Table) (i : Nat) (value : Literal) : Bool :=
  let indexed : Option (Nat × OrderedValue) := do
    let c ← child.columns[i]?
    let root ← if c.index = some .btree then c.indexRoot else none
    let key ← OrderedValue.tryFrom value
    pure (root, key)
  match indexed with
  | some (root, key) => indexHit P trees S x root key none
  | none => (P.scan child.pages S x).any fun (_, t) => t.data[i]? == some value

def enforceFkRestrict (tables : List Table) (parent : Table) (row : Row) : Except DbError Unit :=
  (restrictRefs tables parent.toTableDef).forM fun (child, i, j) =>
    match row[j]? with
    | none | some .null => pure ()
    | some value =>
      if childExists P trees S x child i value then
        throw (.foreignKeyViolation child.name parent.name
          ((child.columns[i]?.map (·.name)).getD ""))
      else pure ()

end checks

/-! ## Index maintenance -/

inductive TreeKind where
  | secondary
  | unique
deriving DecidableEq, Repr

variable (t : TableDef)

/-- The B-tree of the table with this meta page: its column and what it is for. -/
def treeColumn (root : Nat) : Option (Nat × ColumnDef × TreeKind) :=
  t.columns.zipIdx.findSome? fun (c, i) =>
    if c.dropped then none
    else if c.index = some .btree ∧ c.indexRoot = some root then some (i, c, .secondary)
    else if c.uniqueIndexRoot = some root then some (i, c, .unique)
    else none

def payloadOf (c : ColumnDef) (row : Row) : Option Row :=
  if c.includeCols.isEmpty then none
  else some (c.includeCols.map fun name =>
    ((t.columns.findIdx? (·.name == name)).bind (row[·]?)).getD .null)

/-- The entry of a row in one of its trees. -/
def entryOf (rid : RowId) (row : Row) : Nat × ColumnDef × TreeKind → Option LeafEntry
  | (i, c, .secondary) => (keyOf i row).map fun k => ⟨k, rid, payloadOf t c row⟩
  | (i, _, .unique) => (keyOf i row).map fun k => ⟨k, rid, none⟩

/-- `apply_durable_index_writes`, tree by tree. -/
def insertEntries (rid : RowId) (row : Row) (trees : Nat → DiskBTree) :
    Nat → DiskBTree := fun root =>
  match (treeColumn t root).bind (entryOf t rid row) with
  | some entry => (trees root).insert entry
  | none => trees root

/-- What `stage_row_index_writes_update` does with one tree. -/
inductive TreeWrite where
  | keep
  | patch (p : Patch)
  | stage (root : Nat) (entry : LeafEntry)
  | inline (entry : LeafEntry)
deriving DecidableEq, Repr

variable (old new : RowId) (before after : Row)

def treeWrite (root : Nat) : TreeWrite :=
  match treeColumn t root with
  | none => .keep
  | some (i, c, kind) =>
    match keyOf i after with
    | none => .keep
    | some key =>
      match kind with
      | .secondary =>
        if before[i]? = after[i]? ∧ ¬ c.includeCols.any (fun name =>
            match t.columns.findIdx? (·.name == name) with
            | some j => before[j]? != after[j]?
            | none => false) then
          .patch ⟨root, key, old, new⟩
        else .stage root ⟨key, new, payloadOf t c after⟩
      | .unique =>
        if before[i]? = after[i]? then .patch ⟨root, key, old, new⟩
        else .inline ⟨key, new, none⟩

/-- The meta pages of the table's B-trees. -/
def treeRoots : List Nat :=
  t.columns.flatMap fun c =>
    if c.dropped then []
    else (if c.index = some .btree then c.indexRoot.toList else []) ++ c.uniqueIndexRoot.toList

def stagedPatches : List Patch :=
  (treeRoots t).filterMap fun root =>
    match treeWrite t old new before after root with
    | .patch p => some p
    | _ => none

def stagedEntries : List (Nat × LeafEntry) :=
  (treeRoots t).filterMap fun root =>
    match treeWrite t old new before after root with
    | .stage root entry => some (root, entry)
    | _ => none

/-- A changed unique key is inserted at once. -/
def inlineEntries (trees : Nat → DiskBTree) : Nat → DiskBTree := fun root =>
  match treeWrite t old new before after root with
  | .inline entry => (trees root).insert entry
  | _ => trees root

/-- `flush_patch_batches`; the `i`-th patch misses its leaf if the `i`-th flag is set. -/
def flushPatches : List Patch → List Bool → (Nat → DiskBTree) → Nat → DiskBTree
  | [], _, trees => trees
  | p :: ps, misses, trees =>
    flushPatches ps misses.tail (Function.update trees p.root
      ((trees p.root).patch p.key p.old p.new (misses.headD false)))

def flushEntries (entries : List (Nat × LeafEntry)) (trees : Nat → DiskBTree) : Nat → DiskBTree :=
  entries.foldl (fun trees (root, entry) =>
    Function.update trees root ((trees root).insert entry)) trees

/-- The index part of `abort`: redirected entries go back, in reverse order. -/
def undoPatches (log : List UndoAction) (trees : Nat → DiskBTree) : Nat → DiskBTree :=
  log.reverse.foldl (fun trees a =>
    match a with
    | .btreePatch root key old new =>
      Function.update trees root ((trees root).updateRowidInplace key new old)
    | _ => trees) trees

end UniDb
