import UniDb.Sql.Catalog
import UniDb.Index.BTree

/-!
# What the executor reads from the catalog (`sql/executor.rs`)

Key sets, foreign keys, phantom locks and the gates of an `UPDATE`: pure functions of the catalog
and of the columns an assignment names. Composite foreign keys are left out. A lock is named by
table, column and key; the source names it by a hash of the three, so that two names may also
coincide and block each other.
-/

namespace UniDb

/-- A catalog entry with its page directory and its row counter. -/
structure Table extends TableDef where
  pages : List Nat := []
  rowCount : Int := 0

/-- The key of a row in a tree on column `i`; NULL and unordered values have none. -/
def keyOf (i : Nat) (row : Row) : Option OrderedValue := row[i]?.bind OrderedValue.tryFrom

inductive LockId where
  | uniqueKey (table column : String) (key : OrderedValue)
  | fkKey (table column : String) (key : OrderedValue)
deriving DecidableEq, Repr

/-! ## Unique sets -/

variable (t : TableDef)

def uniqueColumnSets : Except DbError (List (List Nat)) := do
  let single := t.columns.zipIdx.filterMap fun (c, i) =>
    if !c.dropped && (c.constraints.unique || c.constraints.primaryKey) then some [i] else none
  let primary ←
    if t.constraints.primaryKey.isEmpty then pure []
    else do pure [← t.constraints.primaryKey.mapM (columnIndex t)]
  let unique ← t.constraints.unique.mapM fun cols => cols.mapM (columnIndex t)
  pure (single ++ primary ++ unique)

/-- The unique-key phantom locks of a new row. -/
def uniqueKeyLocks (row : Row) : List LockId :=
  t.columns.zipIdx.filterMap fun (c, i) =>
    if c.dropped || c.uniqueIndexRoot.isNone then none
    else (keyOf i row).map (LockId.uniqueKey t.name c.name)

/-! ## Foreign keys -/

/-- `column_index` followed by the column. -/
def liveColumn (name : String) : Except DbError ColumnDef :=
  match t.columns.find? fun c => c.name == name && !c.dropped with
  | some c => .ok c
  | none => .error (.columnNotFound t.name name)

def resolveFkRefCol (parent : TableDef) (refCol : Option String) : Except DbError ColumnDef :=
  match refCol with
  | some name => liveColumn parent name
  | none =>
    match parent.columns.filter fun c => !c.dropped && c.constraints.primaryKey with
    | [c] => .ok c
    | _ =>
      match parent.constraints.primaryKey with
      | [name] => liveColumn parent name
      | _ => .error (.sqlPlan s!"FOREIGN KEY to '{parent.name}' specifies no column and the table has no single-column PK")

/-- A single-column foreign key of a table: the child column, and the parent column if named. -/
structure FkRef where
  column : String
  pos : Nat
  refTable : String
  refColumn : Option String
deriving DecidableEq, Repr

/-- The column-level references. -/
def columnFkRefs : List FkRef :=
  t.columns.zipIdx.filterMap fun (c, i) =>
    if c.dropped then none
    else c.constraints.references.map fun fk => ⟨c.name, i, fk.table, fk.column⟩

/-- The single-column table-level references whose column exists. -/
def tableFkRefs : List FkRef :=
  t.constraints.foreignKeys.filterMap fun fk =>
    match fk.columns with
    | [name] => (columnPos t.columns name).map fun i => ⟨name, i, fk.refTable, fk.refColumns.head?⟩
    | _ => none

/-- `acquire_fk_key_locks`: a column-level reference without a column takes the parent's primary
key, a table-level one takes the empty name. -/
def fkKeyLocks (lookup : String → Option Table) (t : TableDef) (row : Row) : List LockId :=
  (columnFkRefs t).filterMap (fun fk =>
      (keyOf fk.pos row).map (LockId.fkKey fk.refTable (columnLevelName fk))) ++
    (tableFkRefs t).filterMap fun fk =>
      (keyOf fk.pos row).map (LockId.fkKey fk.refTable (fk.refColumn.getD ""))
where
  columnLevelName (fk : FkRef) : String :=
    match fk.refColumn with
    | some name => name
    | none =>
      match (lookup fk.refTable).map fun parent => resolveFkRefCol parent.toTableDef none with
      | some (.ok c) => c.name
      | _ => ""

/-- `acquire_fk_key_locks_parent`: the primary-key columns only. -/
def fkKeyLocksParent (row : Row) : List LockId :=
  (t.columns.zipIdx.filterMap fun (c, i) =>
      if c.dropped || !c.constraints.primaryKey then none
      else (keyOf i row).map (LockId.fkKey t.name c.name)) ++
    t.constraints.primaryKey.filterMap fun name =>
      (columnPos t.columns name).bind fun i =>
        if (t.columns[i]?.map fun c => c.constraints.primaryKey).getD false then none
        else (keyOf i row).map (LockId.fkKey t.name name)

variable (tables : List Table) (parent : TableDef)

def tableHasFkChildren (parent : String) : Bool :=
  tables.any fun t =>
    (t.columns.any fun c => c.constraints.references.any fun fk => fk.table == parent) ||
      t.constraints.foreignKeys.any fun fk => fk.refTable == parent

def fkReferencedParentColumns : List String :=
  tables.flatMap fun child =>
    (child.columns.flatMap fun c =>
      if c.dropped then []
      else
        match c.constraints.references with
        | some fk =>
          if fk.table == parent.name then
            match resolveFkRefCol parent fk.column with
            | .ok pc => [pc.name]
            | .error _ => []
          else []
        | none => []) ++
      (child.constraints.foreignKeys.filter fun fk => fk.refTable == parent.name).flatMap
        (·.refColumns)

/-- The child columns `enforce_fk_restrict` looks at, with the parent column each refers to. -/
def restrictRefs : List (Table × Nat × Nat) :=
  tables.flatMap fun child =>
    ((columnFkRefs child.toTableDef).filterMap fun fk =>
      if fk.refTable ≠ parent.name then none
      else
        match resolveFkRefCol parent fk.refColumn with
        | .ok pc => (columnPos parent.columns pc.name).map fun j => (child, fk.pos, j)
        | .error _ => none) ++
      child.constraints.foreignKeys.filterMap fun fk =>
        if fk.refTable ≠ parent.name then none
        else
          match fk.columns, fk.refColumns with
          | [c], [rc] => (columnPos child.columns c).bind fun i =>
              (columnPos parent.columns rc).map fun j => (child, i, j)
          | _, _ => none

/-! ## Gates of an update -/

structure UpdateGates where
  hotEligible : Bool
  hasUniqueInSet : Bool
  hasFkRefsInSet : Bool
  hasFkChildrenRefInSet : Bool
deriving DecidableEq, Repr

def UpdateGates.checks (g : UpdateGates) : Bool :=
  g.hasUniqueInSet || g.hasFkRefsInSet || g.hasFkChildrenRefInSet

def setTouchesIndexedCol (setCols : List String) (columns : List ColumnDef) : Bool :=
  (columns.any fun c =>
      !c.dropped && setCols.contains c.name && (c.indexRoot.isSome || c.uniqueIndexRoot.isSome)) ||
    columns.any fun c =>
      !c.dropped && c.indexRoot.isSome && c.index == some .btree &&
        c.includeCols.any setCols.contains

def computeUpdateGates (t : TableDef) (setCols : List String) : Except DbError UpdateGates := do
  let sets ← uniqueColumnSets t
  let hasUniqueInSet := sets.flatten.any fun i =>
    (t.columns[i]?.map fun c => setCols.contains c.name).getD false
  let hasFkRefsInSet :=
    (t.columns.any fun c =>
        !c.dropped && c.constraints.references.isSome && setCols.contains c.name) ||
      t.constraints.foreignKeys.any fun fk => fk.columns.any setCols.contains
  let hasFkChildren := tableHasFkChildren tables t.name
  let hasFkChildrenRefInSet :=
    hasFkChildren && (fkReferencedParentColumns tables t).any setCols.contains
  pure {
    hotEligible := !hasUniqueInSet && !hasFkRefsInSet && !hasFkChildren &&
      !setTouchesIndexedCol setCols t.columns
    hasUniqueInSet, hasFkRefsInSet, hasFkChildrenRefInSet }

end UniDb
