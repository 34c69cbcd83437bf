import UniDb.Sql.Catalog

/-!
# The catalog and its mutators (`catalog.rs`)

`Catalog` is the in-memory catalog; its maps are Mathlib's association lists without duplicate
keys. Every mutator of the source changes one or more of the maps and then persists the whole
catalog; here it is the change alone (`CatalogChange.apply`), persisting is part of the engine's
step. Page ids that a mutator mints are handed in. Statistics, row counts, fill factors and the
generation counter are left out.
-/

namespace UniDb

/-! ## The catalog -/

inductive NamedTypeKind where
  | enum (labels : List String)
  | domain (base : ColumnType) (check : Option String)
deriving DecidableEq, Repr

structure NamedTypeDef where
  name : String
  kind : NamedTypeKind
deriving DecidableEq, Repr

inductive TriggerTiming where
  | before | after
deriving DecidableEq, Repr

inductive TriggerEvent where
  | insert | update | delete
deriving DecidableEq, Repr

structure TriggerDef where
  name : String
  table : String
  timing : TriggerTiming
  event : TriggerEvent
  function : String
deriving DecidableEq, Repr

/-- A table with its page directory and its SERIAL counters. `birth` is not in the source: the page
its `CREATE TABLE` minted, which tells it from other tables that bore or will bear its name. -/
structure TableEntry extends TableDef where
  pages : List Nat := []
  fsmMeta : Option Nat := none
  serialNext : AList (fun _ : String => Int) := ∅
  birth : Nat := 0
deriving DecidableEq

structure Catalog where
  tables : AList (fun _ : String => TableEntry) := ∅
  types : AList (fun _ : String => NamedTypeDef) := ∅
  triggers : AList (fun _ : String => TriggerDef) := ∅
deriving DecidableEq

/-- The slot of the first column of that name, dropped columns included. -/
def firstColumnPos (columns : List ColumnDef) (name : String) : Option Nat :=
  columns.findIdx? fun c => c.name == name

def markColumn (columns : List ColumnDef) (name : String) (f : ColumnDef → ColumnDef) :
    Option (List ColumnDef) :=
  (firstColumnPos columns name).map fun i => columns.modify i f

namespace Catalog

variable (c : Catalog) (table column : String) (policy : Option Expr) (root : Option Nat)
  (name : String)

def lookup : Except DbError TableEntry :=
  match c.tables.lookup table with
  | some t => .ok t
  | none => .error (.tableNotFound table)

/-- What every mutator of one table does: `get_mut`, then the change or its error. -/
def updateTable (f : TableEntry → Except DbError TableEntry) : Except DbError Catalog := do
  let t ← c.lookup table
  let t' ← f t
  pure { c with tables := c.tables.insert table t' }

/-- The mutators of one column take the first one of that name, dropped columns included. -/
def updateColumn (f : ColumnDef → ColumnDef) : Except DbError Catalog :=
  c.updateTable table fun t =>
    match markColumn t.columns column f with
    | some columns => .ok { t with columns := columns }
    | none => .error (.columnNotFound table column)

/-! ## Named types and triggers -/

def createNamedType (d : NamedTypeDef) : Except DbError Catalog :=
  if (c.types.lookup d.name).isSome then .error (.typeAlreadyExists d.name)
  else .ok { c with types := c.types.insert d.name d }

/-- The first live column declared with the type, tables in name order. -/
def typeUser : Option (String × String) :=
  (c.tables.keys.insertionSort (· ≤ ·)).findSome? fun table =>
    (c.tables.lookup table).bind fun t =>
      (t.columns.find? fun col => !col.dropped && col.typeName == some name).map fun col =>
        (t.name, col.name)

def dropNamedType : Except DbError Catalog :=
  if (c.types.lookup name).isNone then .error (.unknownType name)
  else
    match c.typeUser name with
    | some (table, column) => .error (.typeInUse name table column)
    | none => .ok { c with types := c.types.erase name }

def createTrigger (d : TriggerDef) : Except DbError Catalog :=
  if (c.tables.lookup d.table).isNone then .error (.tableNotFound d.table)
  else if (c.triggers.lookup d.name).isSome then .error (.triggerAlreadyExists d.name)
  else .ok { c with triggers := c.triggers.insert d.name d }

def dropTrigger (table : String) : Except DbError Catalog :=
  if (c.triggers.lookup name).any fun d => d.table == table then
    .ok { c with triggers := c.triggers.erase name }
  else .error (.unknownTrigger name table)

/-! ## Tables -/

variable (fresh : Nat)

/-- `create_table`; `fresh` is the meta page of the free-space map it mints. -/
def createTable (d : TableEntry) : Except DbError Catalog :=
  if (c.tables.lookup d.name).isSome then .error (.tableAlreadyExists d.name)
  else
    .ok { c with
      tables := c.tables.insert d.name
        { d with fsmMeta := d.fsmMeta.or (some fresh), birth := fresh } }

def retainTriggers (keep : TriggerDef → Bool) (m : AList fun _ : String => TriggerDef) :
    AList fun _ : String => TriggerDef :=
  ⟨m.entries.filter fun d => keep d.2, m.nodupKeys.sublist List.filter_sublist⟩

def dropTable : Except DbError Catalog :=
  if (c.tables.lookup table).isNone then .error (.tableNotFound table)
  else
    .ok { c with
      tables := c.tables.erase table
      triggers := retainTriggers (fun d => d.table != table) c.triggers }

/-- `truncate`; `fresh` is the meta page of the new free-space map. -/
def truncate (table : String) : Except DbError Catalog :=
  c.updateTable table fun t =>
    .ok { t with pages := [], fsmMeta := t.fsmMeta.map fun _ => fresh }

def setPages (pages : List Nat) : Except DbError Catalog :=
  c.updateTable table fun t => .ok { t with pages := pages }

def setEventsEnabled (enabled : Bool) : Except DbError Catalog :=
  c.updateTable table fun t => .ok { t with eventsEnabled := enabled }

/-! ## Policies -/

def setRlsPolicy (policy : Expr) : Except DbError Catalog :=
  c.updateTable table fun t => .ok { t with rlsPolicy := some policy }

def setInsertPolicy : Except DbError Catalog :=
  c.updateTable table fun t => .ok { t with insertPolicy := policy }

def setUpdatePolicy : Except DbError Catalog :=
  c.updateTable table fun t => .ok { t with updatePolicy := policy }

def setUpdateWithCheck (expr : Option Expr) : Except DbError Catalog :=
  c.updateTable table fun t => .ok { t with updateWithCheck := expr }

def setDeletePolicy : Except DbError Catalog :=
  c.updateTable table fun t => .ok { t with deletePolicy := policy }

def addPolicy (policy : PolicyDef) : Except DbError Catalog :=
  c.updateTable table fun t =>
    if t.policies.any fun p => p.name == policy.name then
      .error (.authz s!"policy '{policy.name}' already exists on table '{table}'")
    else .ok { t with policies := t.policies ++ [policy] }

def removePolicy (table : String) : Except DbError Catalog :=
  c.updateTable table fun t =>
    if (t.policies.filter fun p => p.name != name).length = t.policies.length then
      .error (.authz s!"policy '{name}' not found on table '{table}'")
    else .ok { t with policies := t.policies.filter fun p => p.name != name }

/-- The last write of `drop_policy_inner`: all five merged predicates at once. -/
def setMergedPolicies (rls insert update updateCheck delete : Option Expr) :
    Except DbError Catalog :=
  c.updateTable table fun t =>
    .ok { t with
      rlsPolicy := rls, insertPolicy := insert, updatePolicy := update,
      updateWithCheck := updateCheck, deletePolicy := delete }

/-! ## Columns -/

def setColumnIndex (kind : Option IndexKind) : Except DbError Catalog :=
  c.updateColumn table column fun col => { col with index := kind }

def setColumnIndexRoot : Except DbError Catalog :=
  c.updateColumn table column fun col => { col with indexRoot := root }

def setColumnUniqueIndexRoot : Except DbError Catalog :=
  c.updateColumn table column fun col => { col with uniqueIndexRoot := root }

def setColumnIncludeCols (cols : List String) : Except DbError Catalog :=
  c.updateColumn table column fun col => { col with includeCols := cols }

end Catalog

def TableEntry.addColumn (t : TableEntry) (table : String) (col : ColumnDef) :
    Except DbError TableEntry :=
  if t.columns.any fun c => !c.dropped && c.name == col.name then
    .error (.sqlPlan s!"column '{col.name}' already exists on table '{table}'")
  else if (col.constraints.notNull || col.constraints.primaryKey) &&
      col.constraints.default.isNone then
    .error (.sqlPlan s!"ADD COLUMN '{col.name}' is NOT NULL but has no DEFAULT (existing rows would violate it)")
  else .ok { t with columns := t.columns ++ [col] }

/-- Does a table-level constraint name the column? CHECK expressions are not looked at. -/
def TableConstraints.references (tc : TableConstraints) (column : String) : Bool :=
  tc.primaryKey.any (· == column) || tc.unique.flatten.any (· == column) ||
    tc.foreignKeys.any fun fk => fk.columns.any (· == column)

/-- `drop_column` on the table: the slot and the name stay. -/
def TableEntry.dropColumn (t : TableEntry) (table column : String) : Except DbError TableEntry :=
  if t.constraints.references column then
    .error (.sqlPlan s!"cannot drop column '{column}': it participates in a table-level constraint")
  else if (t.columns.filter fun c => !c.dropped).length ≤ 1 then
    .error (.sqlPlan "cannot drop the table's only remaining column")
  else
    match columnPos t.columns column with
    | some i =>
      .ok { t with
        columns := t.columns.modify i fun c =>
          { c with dropped := true, index := none, constraints := {} } }
    | none => .error (.columnNotFound table column)

def TableEntry.nextSerial (t : TableEntry) (column : String) : Int :=
  (t.serialNext.lookup column).getD 1

namespace Catalog

variable (c : Catalog) (table column : String)

def addColumn (table : String) (col : ColumnDef) : Except DbError Catalog :=
  c.updateTable table fun t => t.addColumn table col

def dropColumn : Except DbError Catalog :=
  c.updateTable table fun t => t.dropColumn table column

/-- `alloc_serial`; the value handed out is `nextSerial` of the table before. -/
def allocSerial : Except DbError Catalog :=
  c.updateTable table fun t =>
    if t.nextSerial column + 1 ≤ i64Max then
      .ok { t with serialNext := t.serialNext.insert column (t.nextSerial column + 1) }
    else .error (.sqlPlan s!"sequence for '{table}.{column}' exhausted i64")

end Catalog

/-! ## Changes -/

/-- One call of a mutator. -/
inductive CatalogChange where
  | createNamedType (d : NamedTypeDef)
  | dropNamedType (name : String)
  | createTrigger (d : TriggerDef)
  | dropTrigger (name table : String)
  | createTable (d : TableEntry)
  | dropTable (table : String)
  | truncate (table : String)
  | setPages (table : String) (pages : List Nat)
  | setEventsEnabled (table : String) (enabled : Bool)
  | setRlsPolicy (table : String) (policy : Expr)
  | setInsertPolicy (table : String) (policy : Option Expr)
  | setUpdatePolicy (table : String) (policy : Option Expr)
  | setUpdateWithCheck (table : String) (expr : Option Expr)
  | setDeletePolicy (table : String) (policy : Option Expr)
  | addPolicy (table : String) (policy : PolicyDef)
  | removePolicy (name table : String)
  | setMergedPolicies (table : String) (rls insert update updateCheck delete : Option Expr)
  | setColumnIndex (table column : String) (kind : Option IndexKind)
  | setColumnIndexRoot (table column : String) (root : Option Nat)
  | setColumnUniqueIndexRoot (table column : String) (root : Option Nat)
  | setColumnIncludeCols (table column : String) (cols : List String)
  | addColumn (table : String) (col : ColumnDef)
  | dropColumn (table column : String)
  | allocSerial (table column : String)

namespace CatalogChange

/-- What the call does to the in-memory catalog; `fresh` is the next page id. -/
def apply (fresh : Nat) (c : Catalog) : CatalogChange → Except DbError Catalog
  | .createNamedType d => c.createNamedType d
  | .dropNamedType name => c.dropNamedType name
  | .createTrigger d => c.createTrigger d
  | .dropTrigger name table => c.dropTrigger name table
  | .createTable d => c.createTable fresh d
  | .dropTable table => c.dropTable table
  | .truncate table => c.truncate fresh table
  | .setPages table pages => c.setPages table pages
  | .setEventsEnabled table enabled => c.setEventsEnabled table enabled
  | .setRlsPolicy table policy => c.setRlsPolicy table policy
  | .setInsertPolicy table policy => c.setInsertPolicy table policy
  | .setUpdatePolicy table policy => c.setUpdatePolicy table policy
  | .setUpdateWithCheck table expr => c.setUpdateWithCheck table expr
  | .setDeletePolicy table policy => c.setDeletePolicy table policy
  | .addPolicy table policy => c.addPolicy table policy
  | .removePolicy name table => c.removePolicy name table
  | .setMergedPolicies table r i u uc d => c.setMergedPolicies table r i u uc d
  | .setColumnIndex table column kind => c.setColumnIndex table column kind
  | .setColumnIndexRoot table column root => c.setColumnIndexRoot table column root
  | .setColumnUniqueIndexRoot table column root => c.setColumnUniqueIndexRoot table column root
  | .setColumnIncludeCols table column cols => c.setColumnIncludeCols table column cols
  | .addColumn table col => c.addColumn table col
  | .dropColumn table column => c.dropColumn table column
  | .allocSerial table column => c.allocSerial table column

/-- The SERIAL value the call returns, with the table and the column it is for. -/
def handsOut (c : Catalog) : CatalogChange → Option (Nat × String × Int)
  | .allocSerial table column =>
    (c.tables.lookup table).map fun t => (t.birth, column, t.nextSerial column)
  | _ => none

end CatalogChange

/-! ## What a change keeps -/

/-- The same table, with counters that did not go back. -/
structure TableEntry.Kept (t t' : TableEntry) : Prop where
  birth : t'.birth = t.birth
  serials : ∀ column, t.nextSerial column ≤ t'.nextSerial column

variable {t t' : TableEntry} {fresh : Nat} {c c' : Catalog} {table column : String}
  {f : TableEntry → Except DbError TableEntry}

lemma TableEntry.Kept.of_eq (hb : t'.birth = t.birth) (hs : t'.serialNext = t.serialNext) :
    t.Kept t' :=
  ⟨hb, fun column => by simp [nextSerial, hs]⟩

/-- Every table of the new catalog is one of the old under the same name, but for one that may
have been born now. -/
def Catalog.Kept (fresh : Nat) (c c' : Catalog) : Prop :=
  ∃ born, ∀ name t', c'.tables.lookup name = some t' →
    (∃ t, c.tables.lookup name = some t ∧ t.Kept t') ∨ name = born ∧ t'.birth = fresh

lemma Catalog.Kept.of_lookup (h : ∀ name t', c'.tables.lookup name = some t' →
      ∃ t, c.tables.lookup name = some t ∧ t.Kept t') : Catalog.Kept fresh c c' :=
  ⟨"", fun name t' ht' => .inl (h name t' ht')⟩

lemma Catalog.Kept.of_tables (h : c'.tables = c.tables) : Catalog.Kept fresh c c' :=
  .of_lookup fun _ t' ht' => ⟨t', h ▸ ht', .of_eq rfl rfl⟩

lemma Catalog.lookup_eq_ok : c.lookup table = .ok t ↔ c.tables.lookup table = some t := by
  unfold Catalog.lookup
  cases c.tables.lookup table <;> simp

lemma Catalog.updateTable_eq_ok : c.updateTable table f = .ok c' ↔
      ∃ t t', c.tables.lookup table = some t ∧ f t = .ok t' ∧
        c' = { c with tables := c.tables.insert table t' } := by
  unfold Catalog.updateTable
  cases hl : c.lookup table with
  | error e =>
    have hnone : c.tables.lookup table = none := by
      unfold Catalog.lookup at hl
      cases h : c.tables.lookup table with
      | none => rfl
      | some t => rw [h] at hl; cases hl
    simp [hnone, bind, Except.bind]
  | ok t =>
    rw [Catalog.lookup_eq_ok] at hl
    cases hf : f t <;> simp [hl, hf, bind, Except.bind, pure, Except.pure, eq_comm]

lemma Catalog.updateTable_kept (h : c.updateTable table f = .ok c')
    (hf : ∀ t t', f t = .ok t' → t.Kept t') : Catalog.Kept fresh c c' := by
  obtain ⟨t, t', ht, hft, rfl⟩ := Catalog.updateTable_eq_ok.1 h
  refine .of_lookup fun name u hu => ?_
  by_cases hname : name = table
  · subst hname
    rw [AList.lookup_insert] at hu
    cases hu
    exact ⟨t, ht, hf t t' hft⟩
  · rw [AList.lookup_insert_ne hname] at hu
    exact ⟨u, hu, .of_eq rfl rfl⟩

lemma Catalog.updateColumn_kept {f : ColumnDef → ColumnDef}
    (h : c.updateColumn table column f = .ok c') : Catalog.Kept fresh c c' := by
  refine Catalog.updateTable_kept h fun t t' ht => ?_
  split at ht
  · cases ht
    exact .of_eq rfl rfl
  · cases ht

lemma TableEntry.addColumn_kept {col : ColumnDef} (h : t.addColumn table col = .ok t') :
    t.Kept t' := by
  obtain ⟨-, h⟩ := ite_error_left_eq_ok.1 h
  split at h
  · cases h
  · cases h
    exact .of_eq rfl rfl

lemma TableEntry.dropColumn_kept (h : t.dropColumn table column = .ok t') : t.Kept t' := by
  obtain ⟨-, h⟩ := ite_error_left_eq_ok.1 h
  split at h
  · cases h
  · split at h
    · cases h
      exact .of_eq rfl rfl
    · cases h

lemma TableEntry.nextSerial_insert (t : TableEntry) (column column' : String) (v : Int) :
    ({ t with serialNext := t.serialNext.insert column v } : TableEntry).nextSerial column' =
      if column' = column then v else t.nextSerial column' := by
  unfold TableEntry.nextSerial
  by_cases h : column' = column
  · subst h
    simp
  · simp [h]

/-- **SERIAL allocation** hands out the counter and moves it on. -/
theorem Catalog.allocSerial_eq_ok (h : c.allocSerial table column = .ok c') :
    ∃ t, c.tables.lookup table = some t ∧ c' = { c with
        tables := c.tables.insert table
          { t with serialNext := t.serialNext.insert column (t.nextSerial column + 1) } } := by
  obtain ⟨t, t', ht, hf, rfl⟩ := Catalog.updateTable_eq_ok.1 h
  split at hf
  · cases hf
    exact ⟨t, ht, rfl⟩
  · cases hf

lemma Catalog.allocSerial_kept (h : c.allocSerial table column = .ok c') :
    Catalog.Kept fresh c c' := by
  refine Catalog.updateTable_kept h fun t t' ht => ?_
  split at ht
  · cases ht
    refine ⟨rfl, fun column' => ?_⟩
    rw [TableEntry.nextSerial_insert]
    split
    · next heq => subst heq; omega
    · exact le_refl _
  · cases ht

/-- **No change takes a counter back**, and a table is born only with a fresh page. -/
theorem CatalogChange.apply_kept {ch : CatalogChange} (h : ch.apply fresh c = .ok c') :
    Catalog.Kept fresh c c' := by
  cases ch with
  | createNamedType | dropNamedType | createTrigger | dropTrigger =>
    simp only [apply, Catalog.createNamedType, Catalog.dropNamedType, Catalog.createTrigger,
      Catalog.dropTrigger] at h
    repeat' split at h
    all_goals cases h
    all_goals exact .of_tables rfl
  | createTable d =>
    obtain ⟨-, ⟨⟩⟩ := ite_error_left_eq_ok.1 h
    refine ⟨d.name, fun name t' ht' => ?_⟩
    by_cases hname : name = d.name
    · subst hname
      rw [AList.lookup_insert] at ht'
      cases ht'
      exact .inr ⟨rfl, rfl⟩
    · rw [AList.lookup_insert_ne hname] at ht'
      exact .inl ⟨t', ht', .of_eq rfl rfl⟩
  | dropTable table =>
    obtain ⟨-, ⟨⟩⟩ := ite_error_left_eq_ok.1 h
    refine .of_lookup fun name t' ht' => ?_
    by_cases hname : name = table
    · subst hname
      rw [AList.lookup_erase] at ht'
      cases ht'
    · rw [AList.lookup_erase_ne hname] at ht'
      exact ⟨t', ht', .of_eq rfl rfl⟩
  | setColumnIndex | setColumnIndexRoot | setColumnUniqueIndexRoot | setColumnIncludeCols =>
    exact Catalog.updateColumn_kept h
  | addPolicy | removePolicy =>
    refine Catalog.updateTable_kept h fun t t' ht => ?_
    split at ht
    · cases ht
    · cases ht
      exact .of_eq rfl rfl
  | addColumn => exact Catalog.updateTable_kept h fun t t' => TableEntry.addColumn_kept
  | dropColumn => exact Catalog.updateTable_kept h fun t t' => TableEntry.dropColumn_kept
  | allocSerial => exact Catalog.allocSerial_kept h
  | truncate | setPages | setEventsEnabled | setRlsPolicy | setInsertPolicy | setUpdatePolicy
  | setUpdateWithCheck | setDeletePolicy | setMergedPolicies =>
    refine Catalog.updateTable_kept h fun t t' ht => ?_
    cases ht
    exact .of_eq rfl rfl

end UniDb
