import UniDb.Sql.Select

/-!
# Expressions of the query engine (`sql/query.rs`, `sql/plan.rs`)

`QExpr` is the scalar expression of joins, projections and multi-relation `WHERE` clauses, and
`evalQexpr` its evaluator. It shares `compare` and `evalArith` with the single-table evaluator and
adds `CASE`, `COALESCE`, `NULLIF` and `CAST`; its `AND` and `OR` stop at the first side that
decides. Aggregates, window functions and subqueries are computed by their operators before this
evaluator is reached and are not expressions here.
-/

namespace UniDb.Query

open Text

/-! ## Expressions -/

inductive CastTarget where
  | text | int | float | bool
deriving DecidableEq, Repr

inductive QExpr where
  | column (qualifier : Option String) (name : String)
  | literal (l : Literal)
  | compare (op : CmpOp) (lhs rhs : QExpr)
  | and (lhs rhs : QExpr)
  | or (lhs rhs : QExpr)
  | not (e : QExpr)
  | isNull (expr : QExpr) (negated : Bool)
  | inList (expr : QExpr) (list : List QExpr) (negated : Bool)
  | like (expr pattern : QExpr) (negated caseInsensitive : Bool)
  | fullText (column query : QExpr)
  | arith (op : ArithOp) (lhs rhs : QExpr)
  | case (operand : Option QExpr) (conditions : List (QExpr × QExpr)) (elseResult : Option QExpr)
  | coalesce (args : List QExpr)
  | nullif (lhs rhs : QExpr)
  | cast (expr : QExpr) (toType : CastTarget)
deriving Repr

/-- One output column of an operator. -/
structure ColumnRef where
  qualifier : String
  name : String
  ty : ColumnType
deriving DecidableEq, Repr

abbrev Schema := List ColumnRef

structure Batch where
  schema : Schema
  rows : List Row

/-- What the query engine calls beyond `Runtime`. -/
structure QueryRuntime extends Runtime where
  f64ToString : F64 → String
  /-- `f as i64`. -/
  f64ToI64 : F64 → Int
  /-- `fulltext::tokenize`. -/
  tokenize : String → List String
deriving Inhabited

/-! ## Columns -/

/-- Whether a column reference names a column of the schema. -/
def refersTo (qualifier : Option String) (name : String) (col : ColumnRef) : Bool :=
  col.name == name && qualifier.all fun q => eqIgnoreAsciiCase q col.qualifier

/-- `resolve_column`: the position of the only column that is named. -/
def resolveColumn (schema : Schema) (qualifier : Option String) (name : String) :
    Except DbError Nat :=
  match schema.findIdxs (refersTo qualifier name) with
  | [] => .error (.columnNotFound (qualifier.getD "") name)
  | [i] => .ok i
  | _ => .error (.sqlPlan ("column reference '" ++ name ++ "' is ambiguous"))

/-! ## Casts -/

section
variable (rt : QueryRuntime)

/-- `10_i128.pow(scale)`, wrapping past 38. -/
def i128Pow10 (scale : Nat) : Int := wrapSigned 128 (10 ^ scale)

/-- A quotient of `i128`s; there is none by zero. -/
def i128Div (m d : Int) : Except DbError Int :=
  if d = 0 then .error .panicked else .ok (m.tdiv d)

/-- `{text:0>width$}`. -/
def padLeft (width : Nat) (text : String) : String :=
  String.ofList (List.replicate (width - text.length) '0') ++ text

/-- The text of a decimal. -/
def decimalToText (m : Int) (scale : Nat) : Except DbError String :=
  if scale = 0 then .ok (toString m)
  else do
    let divisor := i128Pow10 scale
    let intPart ← i128Div m divisor
    let fracPart := (m.tmod divisor).natAbs
    pure (toString intPart ++ "." ++ padLeft scale (toString fracPart))

def literalToText : Literal → Except DbError String
  | .text s => .ok s
  | .int n => .ok (toString n)
  | .float f => .ok (rt.f64ToString f)
  | .bool b => .ok (toString b)
  | .decimal m s => decimalToText m s
  | .null => .ok ""
  | other => .ok (rt.debug other)

/-- `1.0` and `0.0`. -/
def f64OfBool (b : Bool) : F64 := if b then 0x3FF0000000000000 else 0

def castToInt : Literal → Except DbError Literal
  | .int n => .ok (.int n)
  | .float f => .ok (.int (rt.f64ToI64 f))
  | .decimal m s => do pure (.int (wrapSigned 64 (← i128Div m (i128Pow10 s))))
  | .bool b => .ok (.int (if b then 1 else 0))
  | .text s =>
    match parseI64 (trim s.toList) with
    | some n => .ok (.int n)
    | none => .error (.sqlPlan ("CAST: cannot convert text " ++ rt.debugStr s ++ " to INT"))
  | other => .error (.sqlPlan ("CAST: cannot convert " ++ rt.debug other ++ " to INT"))

def castToFloat : Literal → Except DbError Literal
  | .float f => .ok (.float f)
  | .int n => .ok (.float (rt.f64OfInt n))
  | .decimal m s => .ok (.float (rt.f64OfDecimal m s))
  | .bool b => .ok (.float (f64OfBool b))
  | .text s =>
    match rt.f64Parse (String.ofList (trim s.toList)) with
    | some f => .ok (.float f)
    | none => .error (.sqlPlan ("CAST: cannot convert text " ++ rt.debugStr s ++ " to FLOAT"))
  | other => .error (.sqlPlan ("CAST: cannot convert " ++ rt.debug other ++ " to FLOAT"))

def trueWords : List String := ["true", "t", "yes", "y", "on", "1"]

def falseWords : List String := ["false", "f", "no", "n", "off", "0"]

def castToBool : Literal → Except DbError Literal
  | .bool b => .ok (.bool b)
  | .int n => .ok (.bool (n != 0))
  | .float f => .ok (.bool !(rt.f64IsZero f))
  | .decimal m _ => .ok (.bool (m != 0))
  | .text s =>
    let word := rt.strLower (String.ofList (trim s.toList))
    if word ∈ trueWords then .ok (.bool true)
    else if word ∈ falseWords then .ok (.bool false)
    else .error (.sqlPlan ("CAST: cannot convert text " ++ rt.debugStr s ++ " to BOOL"))
  | other => .error (.sqlPlan ("CAST: cannot convert " ++ rt.debug other ++ " to BOOL"))

def evalCast (val : Literal) (toType : CastTarget) : Except DbError Literal :=
  if val = .null then .ok .null
  else
    match toType with
    | .text => do pure (.text (← literalToText rt val))
    | .int => castToInt rt val
    | .float => castToFloat rt val
    | .bool => castToBool rt val

/-! ## The evaluator -/

/-- `MATCH` without its index: every token of the query is one of the text. -/
def evalFullText (text query : Literal) : Literal :=
  match text, query with
  | .null, _ => .null
  | .text _, .null => .null
  | .text t, .text q =>
    let queryTokens := rt.tokenize q
    if queryTokens.isEmpty then .bool false
    else .bool (queryTokens.all (rt.tokenize t).contains)
  | _, _ => .bool false

mutual

def evalQexpr (schema : Schema) (row : Row) : QExpr → Except DbError Literal
  | .column qualifier name => do readSlot row (← resolveColumn schema qualifier name)
  | .literal l => .ok l
  | .compare op lhs rhs => do
    let l ← evalQexpr schema row lhs
    let r ← evalQexpr schema row rhs
    pure (.bool (← compare rt.toRuntime op l r))
  | .and lhs rhs => do
    if ← asBool rt.toRuntime (← evalQexpr schema row lhs) then
      pure (.bool (← asBool rt.toRuntime (← evalQexpr schema row rhs)))
    else pure (.bool false)
  | .or lhs rhs => do
    if ← asBool rt.toRuntime (← evalQexpr schema row lhs) then pure (.bool true)
    else pure (.bool (← asBool rt.toRuntime (← evalQexpr schema row rhs)))
  | .not e => do pure (.bool !(← asBool rt.toRuntime (← evalQexpr schema row e)))
  | .isNull expr negated => do pure (.bool (((← evalQexpr schema row expr) == .null) != negated))
  | .inList expr list negated => do
    let needle ← evalQexpr schema row expr
    if needle = .null then pure .null
    else pure (.bool ((← evalAny schema row needle list) != negated))
  | .like expr pattern negated caseInsensitive => do
    let val ← evalQexpr schema row expr
    let pat ← evalQexpr schema row pattern
    evalLike rt.toRuntime val pat negated caseInsensitive
  | .fullText column query => do
    let text ← evalQexpr schema row column
    pure (evalFullText rt text (← evalQexpr schema row query))
  | .arith op lhs rhs => do
    let l ← evalQexpr schema row lhs
    let r ← evalQexpr schema row rhs
    evalArith rt.toRuntime op l r
  | .case operand conditions elseResult => do
    let opVal ← evalOptional schema row operand
    match ← evalConditions schema row opVal conditions with
    | some v => pure v
    | none => pure ((← evalOptional schema row elseResult).getD .null)
  | .coalesce args => evalCoalesce schema row args
  | .nullif lhs rhs => do
    let a ← evalQexpr schema row lhs
    let b ← evalQexpr schema row rhs
    if ← compare rt.toRuntime .eq a b then pure .null else pure a
  | .cast expr toType => do evalCast rt (← evalQexpr schema row expr) toType

/-- The operand and the `ELSE` of a `CASE`. -/
def evalOptional (schema : Schema) (row : Row) : Option QExpr → Except DbError (Option Literal)
  | none => .ok none
  | some e => do pure (some (← evalQexpr schema row e))

/-- The branch of a `CASE` that is taken. -/
def evalConditions (schema : Schema) (row : Row) (opVal : Option Literal) :
    List (QExpr × QExpr) → Except DbError (Option Literal)
  | [] => .ok none
  | (cond, then') :: conditions => do
    let c ← evalQexpr schema row cond
    if ← opVal.elim (asBool rt.toRuntime c) fun v => compare rt.toRuntime .eq v c then
      pure (some (← evalQexpr schema row then'))
    else evalConditions schema row opVal conditions

/-- Whether an item of a list equals the needle. -/
def evalAny (schema : Schema) (row : Row) (needle : Literal) : List QExpr → Except DbError Bool
  | [] => .ok false
  | item :: list => do
    let v ← evalQexpr schema row item
    if ← compare rt.toRuntime .eq needle v then pure true else evalAny schema row needle list

def evalCoalesce (schema : Schema) (row : Row) : List QExpr → Except DbError Literal
  | [] => .ok .null
  | a :: args => do
    let v ← evalQexpr schema row a
    if v = .null then evalCoalesce schema row args else pure v

end

end

end UniDb.Query
