import UniDb.Sql.Select

/-!
# Query trees and the columns they name (`sql/query.rs`, `sql/plan.rs`, `sql/query_exec.rs`)

`QuerySpec` is the whole query: CTEs, derived tables, joins, and subqueries in expressions. Only
names matter here: an operator of an expression is its tag and its operands, and a column of a
schema (`SchemaColumn`) remembers the base columns it holds. The planner looks a FROM name up among
the CTEs that have been run, then among the virtual relations, then in the catalog; a `WITH` inside
a derived table or a CTE is never run, so its names mean base tables (`Origin.shadowed`).

Left out: LIMIT, sort directions, and what the operators compute.
-/

namespace UniDb.Query.Tree

/-! ## Trees -/

/-- The operators: every `QExpr` but columns, literals and subqueries. -/
inductive Operator where
  | compare | and | or | not | isNull | aggregate | inList | like | fullText | arith | case
      | coalesce
  | nullif | cast | window
deriving DecidableEq, Repr

inductive JoinType where
  | inner | left | right | cross | fullOuter
deriving DecidableEq, Repr

mutual

inductive QExpr where
  | column (qualifier : Option String) (name : String)
  | literal (l : Literal)
  | exists (subquery : QuerySpec) (negated : Bool)
  | inSubquery (expr : QExpr) (subquery : QuerySpec) (negated : Bool)
  | scalarSubquery (subquery : QuerySpec)
  | apply (op : Operator) (args : List QExpr)

inductive Projection where
  | wildcard
  | qualifiedWildcard (q : String)
  | expr (expr : QExpr) (alias_ : Option String)

inductive FromNode where
  | table (table : String) (alias_ : Option String)
  | join (left right : FromNode) (joinType : JoinType) (on : Option QExpr) (using_ : List String)
      (natural : Bool)
  | dual
  | derived (subquery : QuerySpec) (alias_ : String)

structure QuerySpec where
  with_ : List (String × QuerySpec)
  from_ : FromNode
  selection : Option QExpr
  projection : List Projection
  groupBy : List QExpr
  having : Option QExpr
  distinct : Bool
  orderBy : List QExpr

end

section
variable {spec : QuerySpec}

lemma QuerySpec.sizeOf_from : sizeOf spec.from_ < sizeOf spec := by
  cases spec
  simp only [QuerySpec.mk.sizeOf_spec]
  omega

lemma QuerySpec.sizeOf_with {x : String × QuerySpec} (h : x ∈ spec.with_) :
    sizeOf x.2 < sizeOf spec := by
  have hx := List.sizeOf_lt_of_mem h
  obtain ⟨name, cte⟩ := x
  cases spec
  simp only [QuerySpec.mk.sizeOf_spec, Prod.mk.sizeOf_spec] at hx ⊢
  omega

variable {e : QExpr}

lemma QuerySpec.sizeOf_selection (h : e ∈ spec.selection.toList) : sizeOf e < sizeOf spec := by
  cases spec
  rw [Option.mem_toList] at h
  cases h
  simp only [QuerySpec.mk.sizeOf_spec, Option.some.sizeOf_spec]
  omega

lemma QuerySpec.sizeOf_having (h : e ∈ spec.having.toList) : sizeOf e < sizeOf spec := by
  cases spec
  rw [Option.mem_toList] at h
  cases h
  simp only [QuerySpec.mk.sizeOf_spec, Option.some.sizeOf_spec]
  omega

lemma QuerySpec.sizeOf_groupBy (h : e ∈ spec.groupBy) : sizeOf e < sizeOf spec := by
  have he := List.sizeOf_lt_of_mem h
  cases spec
  simp only [QuerySpec.mk.sizeOf_spec] at he ⊢
  omega

lemma QuerySpec.sizeOf_orderBy (h : e ∈ spec.orderBy) : sizeOf e < sizeOf spec := by
  have he := List.sizeOf_lt_of_mem h
  cases spec
  simp only [QuerySpec.mk.sizeOf_spec] at he ⊢
  omega

lemma QuerySpec.sizeOf_projection {p : Projection} (h : p ∈ spec.projection) :
    sizeOf p < sizeOf spec := by
  have hp := List.sizeOf_lt_of_mem h
  cases spec
  simp only [QuerySpec.mk.sizeOf_spec] at hp ⊢
  omega

end

/-- `has_aggregate`: of this query level. -/
def QExpr.hasAggregate : QExpr → Bool
  | .column _ _ | .literal _ | .exists _ _ | .scalarSubquery _ => false
  | .inSubquery e _ _ => e.hasAggregate
  | .apply .aggregate _ => true
  | .apply .window _ => false
  | .apply _ args => args.attach.any fun ⟨e, _⟩ => e.hasAggregate

def Projection.hasAggregate : Projection → Bool
  | .expr e _ => e.hasAggregate
  | _ => false

def QuerySpec.hasAgg (spec : QuerySpec) : Bool :=
  !spec.groupBy.isEmpty || spec.projection.any Projection.hasAggregate || spec.having.any
    QExpr.hasAggregate

/-! ## Schemas -/

/-- What the planner knows: the live columns of a base table, and the columns of a virtual
relation. -/
structure Relations where
  lookup : String → Option (List String)
  virtualSchema : String → Option (List String)

/-- A base column; `shadowed`: its table is named like an entry of a `WITH` that is never run. -/
structure Origin where
  table : String
  column : String
  shadowed : Bool
deriving DecidableEq, Repr

/-- A column of a schema and the base columns whose values it holds; the columns of CTEs and derived
tables hold none. -/
structure SchemaColumn where
  qualifier : String
  name : String
  origin : List Origin
deriving DecidableEq, Repr

/-- The CTEs that have been run, with the names of their columns; the latest first. -/
abbrev Ctes := List (String × List String)

def SchemaColumn.refersTo (qualifier : Option String) (name : String) (s : SchemaColumn) : Bool :=
  s.name == name && qualifier.all fun q => eqIgnoreAsciiCase q s.qualifier

/-- `resolve_column`: the only column that is named. -/
def resolveIn (schema : List SchemaColumn) (qualifier : Option String) (name : String) :
    Option SchemaColumn :=
  match schema.filter (SchemaColumn.refersTo qualifier name) with
  | [s] => some s
  | _ => none

/-- The columns of a `NATURAL` or `USING` join. -/
def joinNames (natural : Bool) (using_ : List String) (left right : List SchemaColumn) :
    List String :=
  if natural then (left.map SchemaColumn.name).filter fun n =>
    (right.map SchemaColumn.name).contains n else using_

/-- The output of `plan_using_join`: each shared column once. -/
def mergeColumns (joinType : JoinType) (cols : List String) (left right : List SchemaColumn) :
    List SchemaColumn :=
  match joinType with
  | .fullOuter =>
    (left.map fun s =>
      if cols.contains s.name then
        { s with
          origin := s.origin ++ (((right.find? fun r => r.name == s.name).map
            SchemaColumn.origin).getD []) }
      else s) ++
    right.filter fun r => !(cols.contains r.name && left.any fun s => s.name == r.name)
  | .right => left.filter (fun s => !cols.contains s.name) ++ right
  | _ => left ++ right.filter fun s => !cols.contains s.name

def Projection.names (schema : List SchemaColumn) : Projection → List String
  | .wildcard => schema.map SchemaColumn.name
  | .qualifiedWildcard q => (schema.filter fun s => eqIgnoreAsciiCase s.qualifier q).map
      SchemaColumn.name
  | .expr e alias_ =>
    [alias_.getD (match e with
      | .column _ name => name
      | _ => "?column?")]

section
variable (db : Relations)

def tableSchema (ctes : Ctes) (shadow : List String) (table : String) (alias_ : Option String) :
    List SchemaColumn :=
  let qualifier := alias_.getD table
  match ctes.lookup table with
  | some names => names.map fun n => ⟨qualifier, n, []⟩
  | none =>
    match db.virtualSchema table with
    | some names => names.map fun n => ⟨qualifier, n, []⟩
    | none => ((db.lookup table).getD []).map fun n =>
        ⟨qualifier, n, [⟨table, n, shadow.contains table⟩]⟩

mutual

/-- `plan_from_schema`; `shadow`: the names of a `WITH` that is not run. -/
def fromSchema (ctes : Ctes) (shadow : List String) : FromNode → List SchemaColumn
  | .table table alias_ => tableSchema db ctes shadow table alias_
  | .join left right joinType _ using_ natural =>
    let l := fromSchema ctes shadow left
    let r := fromSchema ctes shadow right
    mergeColumns joinType (joinNames natural using_ l r) l r
  | .dual => []
  | .derived subquery alias_ => (outputNames ctes subquery).map fun n => ⟨alias_, n, []⟩
termination_by node => sizeOf node

def outputNames (ctes : Ctes) (spec : QuerySpec) : List String :=
  spec.projection.flatMap (Projection.names (fromSchema ctes [] spec.from_))
termination_by sizeOf spec
decreasing_by exact QuerySpec.sizeOf_from

end

/-- The CTEs after those of a query have been run, one after the other. -/
def runCtes (ctes : Ctes) : List (String × QuerySpec) → Ctes
  | [] => ctes
  | (name, cte) :: rest => runCtes ((name, outputNames db ctes cte) :: ctes) rest

/-! ## Sorting before the projection -/

variable (schema : List SchemaColumn) (outputs : List String)

/-- `order_key_needs_pre_proj_sort`. -/
def needsPreProj : QExpr → Bool
  | .column _ name =>
    !outputs.any (eqIgnoreAsciiCase · name) && schema.any fun s => eqIgnoreAsciiCase s.name name
  | _ => false

/-- The column of the schema that `resolve_order_by_pre_proj` sorts by. -/
def sortColumn : QExpr → Option SchemaColumn
  | .literal (.int n) =>
    if 0 < n then
      (outputs[n.toNat - 1]?).bind fun name =>
        (schema.find? fun s => eqIgnoreAsciiCase s.name name).or schema[n.toNat - 1]?
    else none
  | .column qualifier name =>
    schema.find? fun s => eqIgnoreAsciiCase s.name name && qualifier.all
      (eqIgnoreAsciiCase s.qualifier ·)
  | _ => none

/-- The columns a query sorts by before it projects. -/
def QuerySpec.sortColumns (spec : QuerySpec) (schema : List SchemaColumn) : List SchemaColumn :=
  let outputs := spec.projection.flatMap (Projection.names schema)
  if !spec.hasAgg && !spec.distinct && spec.orderBy.any (needsPreProj schema outputs) then
    spec.orderBy.filterMap (sortColumn schema outputs)
  else []

end

end UniDb.Query.Tree
