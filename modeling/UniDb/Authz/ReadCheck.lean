import UniDb.Authz.Store
import UniDb.Lib.Checked
import UniDb.Query.Tree
import UniDb.Sql.Eval

/-!
# The privilege check of reading statements (`lib.rs`, `sql/query.rs`)

`checkPlanPrivileges` makes two passes over the plan. The first asks for `SELECT` on every table
that `queryBaseTables` finds in the FROM clauses, the derived tables and the CTEs. The second
(`collectScoped`) walks the expressions and subqueries too, and charges every column reference to
the tables it may belong to; it only narrows, so a table without any grant passes it.

A set operation is its branches; which operation it is plays no role. Where `is_information_schema`
would cut a name inside a character it panics, which is not an acceptance.
-/

namespace UniDb.Authz

open Query.Tree QuerySpec

/-! ## Tables -/

mutual

def walk (ctes : List String) : FromNode → List String
  | .table table _ => if ctes.contains table then [] else [table]
  | .join left right _ _ _ _ => walk ctes left ++ walk ctes right
  | .dual => []
  | .derived subquery _ => queryBaseTables subquery
termination_by node => sizeOf node

def queryBaseTables (spec : QuerySpec) : List String :=
  walk (spec.with_.map (·.1)) spec.from_ ++ spec.with_.attach.flatMap fun x => queryBaseTables x.1.2
termination_by sizeOf spec
decreasing_by
  · exact sizeOf_from
  · exact sizeOf_with x.2

end

/-! ## Columns -/

inductive ColRequirement where
  | column (table column : String)
  | allColumns (table : String)
deriving DecidableEq, Repr

structure ColScope where
  /-- The table an alias stands for, `none` for a CTE or derived table; the latest entry counts. -/
  qualifiers : List (String × Option String)
  candidates : List String
deriving DecidableEq, Repr

def ColScope.empty : ColScope := ⟨[], []⟩

/-- `collect_from_scope`: the relations of one FROM clause. -/
def collectFromScope (ctes : List String) : FromNode → ColScope
  | .table table alias_ =>
    if ctes.contains table then ⟨[(alias_.getD table, none)], []⟩
    else ⟨[(alias_.getD table, some table)], [table]⟩
  | .join left right _ _ _ _ =>
    let l := collectFromScope ctes left
    let r := collectFromScope ctes right
    ⟨r.qualifiers ++ l.qualifiers, l.candidates ++ r.candidates⟩
  | .dual => .empty
  | .derived _ alias_ => ⟨[(alias_, none)], []⟩

def ownScope (spec : QuerySpec) : ColScope := collectFromScope (spec.with_.map (·.1)) spec.from_

def ColScope.enter (parent : ColScope) (spec : QuerySpec) : ColScope where
  qualifiers := (ownScope spec).qualifiers ++ parent.qualifiers
  candidates := parent.candidates ++ (ownScope spec).candidates

def attributeColumn (qualifier : Option String) (name : String) (scope : ColScope) :
    List ColRequirement :=
  match qualifier with
  | some q =>
    match scope.qualifiers.lookup q with
    | some (some table) => [.column table name]
    | some none => []
    | none => scope.candidates.map (.column · name)
  | none => scope.candidates.map (.column · name)

def attributeWildcard (spec : QuerySpec) (scope : ColScope) : Projection → List ColRequirement
  | .wildcard => (ownScope spec).candidates.map .allColumns
  | .qualifiedWildcard q =>
    match scope.qualifiers.lookup q with
    | some (some table) => [.allColumns table]
    | some none => []
    | none => scope.candidates.map .allColumns
  | .expr _ _ => []

mutual

def collectFromExprs (scope : ColScope) : FromNode → List ColRequirement
  | .table _ _ | .dual => []
  | .join left right _ none _ _ => collectFromExprs scope left ++ collectFromExprs scope right
  | .join left right _ (some on) _ _ =>
    collectFromExprs scope left ++ collectFromExprs scope right ++ collectQexpr scope on
  | .derived subquery _ => collectScoped scope subquery
termination_by node => sizeOf node

def collectQexpr (scope : ColScope) : QExpr → List ColRequirement
  | .column qualifier name => attributeColumn qualifier name scope
  | .literal _ => []
  | .exists subquery _ => collectScoped scope subquery
  | .inSubquery expr subquery _ => collectQexpr scope expr ++ collectScoped scope subquery
  | .scalarSubquery subquery => collectScoped scope subquery
  | .apply _ args => args.attach.flatMap fun ⟨e, _⟩ => collectQexpr scope e
termination_by e => sizeOf e

def collectProjection (scope : ColScope) : Projection → List ColRequirement
  | .expr e _ => collectQexpr scope e
  | _ => []
termination_by p => sizeOf p

def collectScoped (parent : ColScope) (spec : QuerySpec) : List ColRequirement :=
  let scope := parent.enter spec
  (spec.with_.attach.flatMap fun x => collectScoped scope x.1.2) ++
  collectFromExprs scope spec.from_ ++
  (spec.selection.toList.attach.flatMap fun e => collectQexpr scope e.1) ++
  (spec.projection.attach.flatMap fun p => attributeWildcard spec scope p.1 ++
    collectProjection scope p.1) ++
  (spec.groupBy.attach.flatMap fun e => collectQexpr scope e.1) ++
  (spec.having.toList.attach.flatMap fun e => collectQexpr scope e.1) ++
  (spec.orderBy.attach.flatMap fun e => collectQexpr scope e.1)
termination_by sizeOf spec
decreasing_by
  · exact sizeOf_with x.2
  · exact sizeOf_from
  · exact sizeOf_selection e.2
  · exact sizeOf_projection p.2
  · exact sizeOf_groupBy e.2
  · exact sizeOf_having e.2
  · exact sizeOf_orderBy e.2

end

/-! ## Plans -/

/-- The plans that only read. -/
inductive ReadPlan where
  | select (table : String) (projection : List String) (predicate : Option Expr)
  | query (spec : QuerySpec)
  | explain (spec : QuerySpec) (analyze : Bool)
  | setOp (left right : ReadPlan)

def planBaseTables : ReadPlan → List String
  | .select table _ _ => [table]
  | .query spec | .explain spec _ => queryBaseTables spec
  | .setOp left right => planBaseTables left ++ planBaseTables right

def predicateColumns (predicate : Option Expr) : List String :=
  ((predicate.map collectExprColumns).getD []).dedup.mergeSort

inductive ReadError where
  | permissionDenied (message : String)
  | tableNotFound (table : String)
deriving DecidableEq, Repr

def isInformationSchema (name : String) : Bool :=
  eqIgnoreAsciiCase (String.ofList (name.toList.take 19)) "information_schema."

section
variable (db : Relations) (s : AuthState) (user : String) (table : String)

def checkTable : Except ReadError Unit :=
  if isInformationSchema table then .ok ()
  else if s.hasPrivilege user table .select then .ok ()
  else .error (.permissionDenied s!"Select on '{table}' for user '{user}'")

def checkOneColumn (column : String) : Except ReadError Unit :=
  if isInformationSchema table then .ok ()
  else
    match s.columnGrant user table .select with
    | .columns set =>
      if column ∈ set then .ok ()
      else .error (.permissionDenied s!"Select on column '{table}.{column}' for user '{user}'")
    | _ => .ok ()

def checkAllColumns : Except ReadError Unit :=
  if isInformationSchema table then .ok ()
  else
    match s.columnGrant user table .select with
    | .columns set =>
      match db.lookup table with
      | none => .error (.tableNotFound table)
      | some columns => columns.forM fun column =>
        if column ∈ set then .ok ()
        else .error (.permissionDenied s!"Select on column '{table}.{column}' for user '{user}'")
    | _ => .ok ()

def checkRequirement : ColRequirement → Except ReadError Unit
  | .column table column => checkOneColumn s user table column
  | .allColumns table => checkAllColumns db s user table

def checkColumnPrivileges : ReadPlan → Except ReadError Unit
  | .select table projection predicate => do
    if projection.isEmpty then checkAllColumns db s user table
    else projection.forM (checkOneColumn s user table)
    (predicateColumns predicate).forM (checkOneColumn s user table)
  | .query spec | .explain spec _ => (collectScoped .empty spec).forM (checkRequirement db s user)
  | .setOp left right => do
    checkColumnPrivileges left
    checkColumnPrivileges right

def checkPlanPrivileges (plan : ReadPlan) : Except ReadError Unit := do
  (planBaseTables plan).forM (checkTable s user)
  checkColumnPrivileges db s user plan

end

/-! ## What is charged -/

def planRequirements : ReadPlan → List ColRequirement
  | .select table projection predicate =>
    (if projection.isEmpty then [.allColumns table] else projection.map (.column table)) ++
      (predicateColumns predicate).map (.column table)
  | .query spec | .explain spec _ => collectScoped .empty spec
  | .setOp left right => planRequirements left ++ planRequirements right

section
variable {db : Relations} {s : AuthState} {user : String}

variable {table : String} {plan : ReadPlan}

lemma checkTable_eq_ok : checkTable s user table = .ok () ↔
      (isInformationSchema table = false → s.hasPrivilege user table .select = true) := by
  unfold checkTable
  cases isInformationSchema table <;> cases s.hasPrivilege user table .select <;> simp

lemma checkOneColumn_eq_ok {column : String} : checkOneColumn s user table column = .ok () ↔
      (isInformationSchema table = false →
        ∀ set, s.columnGrant user table .select = .columns set → column ∈ set) := by
  unfold checkOneColumn
  cases isInformationSchema table <;> cases s.columnGrant user table .select <;> simp

lemma checkAllColumns_eq_ok : checkAllColumns db s user table = .ok () ↔
      (isInformationSchema table = false → ∀ set, s.columnGrant user table .select = .columns set →
          ∃ columns, db.lookup table = some columns ∧ ∀ column ∈ columns, column ∈ set) := by
  unfold checkAllColumns
  cases isInformationSchema table <;> cases s.columnGrant user table .select <;>
    cases db.lookup table <;> simp [forM_eq_ok]

lemma checkColumnPrivileges_eq_ok : checkColumnPrivileges db s user plan = .ok () ↔
      ∀ r ∈ planRequirements plan, checkRequirement db s user r = .ok () := by
  induction plan with
  | select table projection predicate =>
    unfold checkColumnPrivileges planRequirements
    cases projection <;>
      simp [seq_eq_ok, forM_eq_ok, checkRequirement, or_imp, forall_and]
  | query spec | explain spec analyze => exact forM_eq_ok
  | setOp left right ihl ihr =>
    simp [checkColumnPrivileges, planRequirements, seq_eq_ok, ihl, ihr, or_imp, forall_and]

lemma checkPlanPrivileges_eq_ok : checkPlanPrivileges db s user plan = .ok () ↔
      (∀ t ∈ planBaseTables plan, checkTable s user t = .ok ()) ∧
        ∀ r ∈ planRequirements plan, checkRequirement db s user r = .ok () := by
  unfold checkPlanPrivileges
  rw [seq_eq_ok, checkColumnPrivileges_eq_ok]
  exact and_congr_left fun _ => forM_eq_ok

end

end UniDb.Authz
