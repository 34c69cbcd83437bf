import UniDb.Index.BTree
import UniDb.Lib.Checked
import UniDb.Lib.Lists
import UniDb.Sql.Decode
import UniDb.Storage.Resolve

/-!
# Single-table `SELECT` (`sql/executor.rs`: `exec_select`, `try_exec_select_btree`)

`execSelect` either scans the heap or goes through a B-tree, on one of three branches: `plain`
resolves the candidate row ids and evaluates the whole predicate on each; `keyOnly` and `covering`
return the key (and the include payload) of every admitted entry whose row is visible, and never
look at the rest of the predicate. Statistics decide which conjunct drives the search and whether
the index is used at all; they enter as arbitrary functions. Statements with a top-level `NEAR` or
`MATCH` take other paths and are not modelled here.
-/

namespace UniDb

/-! ## Choosing the access path -/

/-- A conjunct `column op literal` on an indexed column. -/
structure Hit where
  column : String
  op : CmpOp
  literal : Literal
deriving DecidableEq, Repr

/-- What the planner takes from `ANALYZE`: which of two conjuncts it estimates as more selective,
and whether a non-equality lookup is worth it. -/
structure Statistics where
  prefers : Hit → Hit → Bool
  selective : Hit → Bool

def btreeHit (t : TableDef) (column : String) (op : CmpOp) (l : Literal) : Option Hit :=
  if t.columns.any fun c => c.name == column && c.index == some .btree then some ⟨column, op, l⟩
  else none

def findIndexableBtreePredicate (t : TableDef) : Expr → Option Hit
  | .binOp op (.column c) (.literal l) => btreeHit t c op l
  | .binOp op (.literal l) (.column c) => btreeHit t c (flipCmpOp op) l
  | .and lhs rhs => (findIndexableBtreePredicate t lhs).or (findIndexableBtreePredicate t rhs)
  | _ => none

def findBestIndexableBtreePredicate (t : TableDef) (st : Statistics) : Expr → Option Hit
  | .and lhs rhs =>
    match findBestIndexableBtreePredicate t st lhs, findBestIndexableBtreePredicate t st rhs with
    | none, r => r
    | some l, none => some l
    | some l, some r => if st.prefers r l then some r else some l
  | e => findIndexableBtreePredicate t e

def indexLookupIsSelective (st : Statistics) (hit : Hit) : Bool :=
  hit.op == .eq || st.selective hit

def eqIgnoreAsciiCase (a b : String) : Bool :=
  a.toList.map Char.toLower == b.toList.map Char.toLower

lemma eqIgnoreAsciiCase_self (a : String) : eqIgnoreAsciiCase a a = true := by
  simp [eqIgnoreAsciiCase]

/-- Every projected column is the key or an `INCLUDE` column, by names without case. -/
def indexOnly (t : TableDef) (projection : List String) (column : String) : Bool :=
  let includeCols :=
    ((t.columns.find? fun c => eqIgnoreAsciiCase c.name column).map (·.includeCols)).getD []
  !projection.isEmpty && projection.all fun p =>
    eqIgnoreAsciiCase p column || includeCols.any fun ic => eqIgnoreAsciiCase ic p

structure Probe where
  hit : Hit
  value : OrderedValue
  /-- The indexed column: the first of its name, dropped or not. -/
  pos : Nat
  root : Nat
  includeCols : List String
deriving DecidableEq, Repr

/-- The tree behind a hit, if its literal is a key and the index was built. -/
def probeOf (t : TableDef) (hit : Hit) : Option Probe := do
  let value ← OrderedValue.tryFrom hit.literal
  let pos ← t.columns.findIdx? (·.name == hit.column)
  let col ← t.columns[pos]?
  let root ← col.indexRoot
  pure ⟨hit, value, pos, root, col.includeCols⟩

inductive SelectPath where
  | heapScan
  | plain (p : Probe)
  | keyOnly (p : Probe)
  | covering (p : Probe)
deriving DecidableEq, Repr

/-- The branch `exec_select` ends up on. `search` has no answer for `Ne`, which sends the plain
branch back to the heap; the other two take the empty answer of their searches. -/
def selectPath (t : TableDef) (st : Statistics) (projection : List String)
    (predicate : Option Expr) : SelectPath :=
  match predicate.bind (findBestIndexableBtreePredicate t st) with
  | none => .heapScan
  | some hit =>
    if indexLookupIsSelective st hit then
      match probeOf t hit with
      | none => .heapScan
      | some p =>
        if indexOnly t projection hit.column then
          if p.includeCols.isEmpty then .keyOnly p else .covering p
        else if hit.op = .ne then .heapScan
        else .plain p
    else .heapScan

/-! ## Projection -/

/-- The loop of `project_row_drain`: a projected value is moved out, NULL stays behind. -/
def drainColumns (columns : List ColumnDef) : List String → Row → Except DbError Row
  | [], _ => .ok []
  | name :: rest, row =>
    match columnPos columns name with
    | none => .error (.columnNotFound "" name)
    | some i => do
      let v ← readSlot row i
      let out ← drainColumns columns rest (row.set i .null)
      pure (v :: out)

def projectRowDrain (columns : List ColumnDef) (projection : List String) (row : Row) :
    Except DbError Row :=
  if projection.isEmpty then
    .ok ((row.zip columns).filterMap fun (v, c) => if c.dropped then none else some v)
  else drainColumns columns projection row

/-- `projection_columns`; an unknown name widens to every live column. -/
def projectionColumns (columns : List ColumnDef) (projection : List String) : List Nat :=
  let all := (List.range columns.length).filter fun i =>
    (columns[i]?.map fun c => !c.dropped).getD false
  if projection.isEmpty then all else (projection.mapM (columnPos columns)).getD all

/-! ## The branches -/

section
variable (rt : Runtime) (t : TableDef) (projection : List String) (predicate : Option Expr)
  (data : Row)

def boundPredicate : Option Expr := predicate.map (bindPredicateColumns t.columns)

def predicateColumns : List Nat :=
  ((boundPredicate t predicate).map (exprColumns t.columns)).getD []

/-- Test the predicate on the columns it reads. -/
def testPredicate : Except DbError Bool :=
  predicateMatches rt (boundPredicate t predicate) t.columns
    (deformRow rt t.columns (predicateColumns t predicate).contains data)

/-- Decode the projected columns of a surviving row. -/
def projectData : Except DbError Row :=
  projectRowDrain t.columns projection
    (deformRow rt t.columns
      (projectionColumns t.columns projection ++ predicateColumns t predicate).contains data)

/-- The heap scan's test: the raw filter where it decides, else the predicate. -/
def scanTest : Except DbError Bool :=
  match ((boundPredicate t predicate).bind collectRawTerms).bind
      (RawFilter.passes t.columns data) with
  | some b => .ok b
  | none => testPredicate rt t predicate data

def perRow : Except DbError (Option Row) := do
  if ← scanTest rt t predicate data then
    (projectData rt t projection predicate data).map some
  else pure none

def perCandidate : Except DbError (Option Row) := do
  if ← testPredicate rt t predicate data then
    (projectData rt t projection predicate data).map some
  else pure none

/-- The projected row of the covering branch. -/
def coveringRow (p : Probe) (e : LeafEntry) : Row :=
  let defs := p.includeCols.filterMap fun name => t.columns.find? (·.name == name)
  let vals := e.payload.elim (defs.map fun _ => Literal.null) (decodeRow rt defs)
  projection.map fun name =>
    if eqIgnoreAsciiCase name p.hit.column then e.key.intoLiteral
    else (((defs.zip vals).find? fun (c, _) => eqIgnoreAsciiCase c.name name).map (·.2)).getD .null

end

/-- What a statement reads: the pages of the table, its trees by meta page, and under which
snapshot and transaction. -/
structure ReadState where
  pool : Pool Row
  pages : List Nat
  trees : Nat → DiskBTree
  snapshot : Snapshot
  xid : Nat

def ReadState.visible (s : ReadState) : List Row :=
  (s.pool.scan s.pages s.snapshot s.xid).map (·.2.data)

/-- `Heap::get`: the stored row an index entry resolves to. -/
def ReadState.resolve (s : ReadState) (r : RowId) : Option Row :=
  (s.pool.getVisibleWithRid r s.snapshot s.xid).map (·.2.data)

section
variable (rt : Runtime) (t : TableDef) (st : Statistics) (projection : List String)
  (predicate : Option Expr) (s : ReadState)

def heapScan : Except DbError (List Row) :=
  filterMapE (perRow rt t projection predicate) s.visible

def execSelect : Except DbError (List Row) :=
  match selectPath t st projection predicate with
  | .heapScan => heapScan rt t projection predicate s
  | .plain p =>
    filterMapE (perCandidate rt t projection predicate)
      ((((s.trees p.root).search p.hit.op p.value).getD []).filterMap s.resolve)
  | .keyOnly p =>
    .ok (((s.trees p.root).searchWithKeys p.hit.op p.value).filterMap fun e =>
      (s.resolve e.rid).map fun _ => [e.key.intoLiteral])
  | .covering p =>
    .ok (((s.trees p.root).searchWithKeys p.hit.op p.value).filterMap fun e =>
      (s.resolve e.rid).map fun _ => coveringRow rt t projection p e)

end

end UniDb
