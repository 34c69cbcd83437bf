import UniDb.Sql.Runtime

/-!
# Expressions and table definitions (`sql/logical.rs`, `catalog.rs`, `authz/mod.rs`)

The syntax the executor evaluates and the catalog entries it reads.
-/

namespace UniDb

inductive Expr where
  | column (name : String)
  | columnSlot (idx : Nat)
  | literal (l : Literal)
  | binOp (op : CmpOp) (lhs rhs : Expr)
  | arith (op : ArithOp) (lhs rhs : Expr)
  | and (lhs rhs : Expr)
  | or (lhs rhs : Expr)
  | jsonExtract (expr : Expr) (path : String)
  | jsonExtractText (expr : Expr) (path : String)
  | near (column : String) (query : List UInt32) (k : Nat)
  | like (expr pattern : Expr) (negated caseInsensitive : Bool)
  | fullText (column : String) (query : Expr)
  | isNull (expr : Expr) (negated : Bool)
  | currentUser
  | authUid
  | authClaim (key : String)
  | excluded (name : String)
deriving DecidableEq, Repr

inductive ColumnType where
  | int64 | text | bool | json
  | vector (n : Nat)
  | decimal (precision scale : Nat)
  | timestamp | float | uuid | bytea | date | time
deriving DecidableEq, Repr

inductive IndexKind where
  | btree | hnsw | fullText | csr
deriving DecidableEq, Repr

/-- Column-level `REFERENCES table[(column)]`. -/
structure ForeignKeyRef where
  table : String
  column : Option String
deriving DecidableEq, Repr

structure ColumnConstraints where
  notNull : Bool := false
  unique : Bool := false
  primaryKey : Bool := false
  default : Option Literal := none
  check : Option Expr := none
  references : Option ForeignKeyRef := none
  identity : Bool := false
deriving DecidableEq, Repr

structure ColumnDef where
  name : String
  ty : ColumnType
  index : Option IndexKind := none
  indexRoot : Option Nat := none
  uniqueIndexRoot : Option Nat := none
  constraints : ColumnConstraints := {}
  dropped : Bool := false
  includeCols : List String := []
  typeName : Option String := none
deriving DecidableEq, Repr

structure ForeignKey where
  columns : List String
  refTable : String
  refColumns : List String
deriving DecidableEq, Repr

structure TableConstraints where
  primaryKey : List String := []
  unique : List (List String) := []
  checks : List Expr := []
  foreignKeys : List ForeignKey := []
deriving DecidableEq, Repr

inductive PolicyOp where
  | select | insert | update | delete | all
deriving DecidableEq, Repr

/-- A named policy. The source keeps the predicates as SQL text and parses them at each use; here
they are the results of that parse, `none` when it fails. -/
structure PolicyDef where
  name : String
  op : PolicyOp
  usingExpr : Option Expr
  withCheck : Option (Option Expr) := none
  targetRoles : List String := []
deriving DecidableEq, Repr

structure TableDef where
  name : String
  columns : List ColumnDef
  rlsPolicy : Option Expr := none
  insertPolicy : Option Expr := none
  updatePolicy : Option Expr := none
  deletePolicy : Option Expr := none
  updateWithCheck : Option Expr := none
  policies : List PolicyDef := []
  constraints : TableConstraints := {}
  eventsEnabled : Bool := false
deriving DecidableEq, Repr

/-- Position of a live column, as every by-name lookup of the executor finds it. -/
def columnPos (columns : List ColumnDef) (name : String) : Option Nat :=
  columns.findIdx? fun c => c.name == name && !c.dropped

def columnIndex (t : TableDef) (name : String) : Except DbError Nat :=
  match columnPos t.columns name with
  | some i => .ok i
  | none => .error (.columnNotFound t.name name)

end UniDb
