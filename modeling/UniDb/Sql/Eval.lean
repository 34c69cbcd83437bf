import UniDb.Sql.Catalog
import UniDb.Sql.Datetime

/-!
# Expression evaluation (`sql/executor.rs`)

`evalExpr` is the row evaluator of `WHERE`, `CHECK` and policy predicates, `compare` its comparison
of two literals. Booleans leave the evaluator through two doors: `asBool` (predicates: NULL is
false) and `checkPasses` (checks: NULL passes).

* `evalExpr_and_true`, `evalExpr_or_true`: when a conjunction and a disjunction are TRUE.
* `compare_intoLiteral`: on keys of one kind, the evaluator's comparison is the B-tree's order.
-/

namespace UniDb

open Text

/-! ## Comparing literals -/

def pow10 : Nat → Option Int
  | 0 => some 1
  | n + 1 => (pow10 n).bind fun acc => checkedSigned 128 (acc * 10)

/-- `decimal_cmp`: both sides brought to the larger scale. -/
def decimalCmp (a : Int) (sa : Nat) (b : Int) (sb : Nat) : Except DbError Ordering :=
  let scaleUp (v : Int) (by' : Nat) : Except DbError Int :=
    match (pow10 by').bind fun f => checkedSigned 128 (v * f) with
    | some n => .ok n
    | none => .error (.sqlUnsupported "decimal comparison overflowed i128")
  if sa = sb then .ok (Ord.compare a b)
  else if sa < sb then do
    let la ← scaleUp a (sb - sa)
    pure (Ord.compare la b)
  else do
    let lb ← scaleUp b (sa - sb)
    pure (Ord.compare a lb)

/-- The bytes of a hexadecimal text, dashes ignored, if there are sixteen (`parse_uuid`). -/
def parseUuid (rt : Runtime) (s : String) : Except DbError (List UInt8) :=
  let hex := s.toList.filter (· ≠ '-')
  match (if hex.length = 32 then hexBytes hex else none) with
  | some bytes => .ok bytes
  | none => .error (.sqlPlan ("invalid UUID literal: " ++ rt.debugStr s))

lemma noPanic_parseUuid {rt : Runtime} (s : String) : NoPanic (parseUuid rt s) := by
  unfold parseUuid
  dsimp only
  split
  · exact avoids_ok _
  · exact noPanic_sqlPlan _

/-- `parse_bytea`: a well-formed hexadecimal body after `\x`, else the bytes of the text. -/
def parseBytea (s : String) : List UInt8 :=
  let body :=
    match s.toList with
    | '\\' :: 'x' :: hex => hexBytes hex
    | '\\' :: 'X' :: hex => hexBytes hex
    | _ => none
  body.getD s.toUTF8.data.toList

variable (rt : Runtime)

def parseBoolText (s : String) : Except DbError Bool :=
  let folded := rt.strLower (String.ofList (trim s.toList))
  if folded = "true" ∨ folded = "1" ∨ folded = "t" then .ok true
  else if folded = "false" ∨ folded = "0" ∨ folded = "f" then .ok false
  else .error (.sqlPlan s!"cannot coerce text '{s}' to boolean for comparison")

def floatOf : Literal → Option F64
  | .float f => some f
  | .int n => some (rt.f64OfInt n)
  | .decimal v s => some (rt.f64OfDecimal v s)
  | _ => none

def cannotCompare (l r : Literal) : DbError :=
  .sqlUnsupported ("cannot compare " ++ rt.debug l ++ " with " ++ rt.debug r)

/-- Comparison in `f64`; a NaN operand makes every comparison false. -/
def compareFloat (op : CmpOp) (l r : Literal) : Except DbError Bool :=
  match floatOf rt l, floatOf rt r with
  | some a, some b => .ok ((rt.f64PartialCmp a b).elim false (applyCmp op))
  | _, _ => .error (cannotCompare rt l r)

def compareBool (op : CmpOp) (a b : Bool) : Except DbError Bool :=
  match op with
  | .eq => .ok (a == b)
  | .ne => .ok (a != b)
  | _ => .error (.sqlUnsupported "ordering comparisons are not supported on booleans")

def textToInt (s : String) : Except DbError Int :=
  match parseI64 s.toList with
  | some n => .ok n
  | none => .error (.sqlPlan s!"cannot coerce text '{s}' to integer for comparison")

def textToFloat (s : String) : Except DbError F64 :=
  match rt.f64Parse s with
  | some f => .ok f
  | none => .error (.sqlPlan s!"cannot coerce text '{s}' to float for comparison")

/-- `compare`. The arms are in the order of the source. -/
def compare (op : CmpOp) (l r : Literal) : Except DbError Bool :=
  match l, r with
  | .null, _ => .ok false
  | _, .null => .ok false
  | .int a, .int b => .ok (applyCmp op (Ord.compare a b))
  | .text a, .text b => .ok (applyCmp op (Ord.compare a b))
  | .bool a, .bool b => compareBool op a b
  | .decimal a sa, .decimal b sb => (decimalCmp a sa b sb).map (applyCmp op)
  | .decimal a sa, .int b => (decimalCmp a sa b 0).map (applyCmp op)
  | .int a, .decimal b sb => (decimalCmp a 0 b sb).map (applyCmp op)
  | .timestamp a, .timestamp b => .ok (applyCmp op (Ord.compare a b))
  | .timestamp a, .text b => (Datetime.parseTimestamp rt .release b).map
      fun b => applyCmp op (Ord.compare a b)
  | .text a, .timestamp b => (Datetime.parseTimestamp rt .release a).map
      fun a => applyCmp op (Ord.compare a b)
  | .text s, .int b => (textToInt s).map fun a => applyCmp op (Ord.compare a b)
  | .int a, .text s => (textToInt s).map fun b => applyCmp op (Ord.compare a b)
  | .text s, .bool b => do compareBool op (← parseBoolText rt s) b
  | .bool a, .text s => do compareBool op a (← parseBoolText rt s)
  | .text s, .float b => do compareFloat rt op (.float (← textToFloat rt s)) (.float b)
  | .text s, .decimal b sb => do compareFloat rt op (.float (← textToFloat rt s)) (.decimal b sb)
  | .float a, .text s => do compareFloat rt op (.float a) (.float (← textToFloat rt s))
  | .decimal a sa, .text s => do compareFloat rt op (.decimal a sa) (.float (← textToFloat rt s))
  | .float a, r => compareFloat rt op (.float a) r
  | l, .float b => compareFloat rt op l (.float b)
  | .uuid a, .uuid b => .ok (applyCmp op (cmpBytes a b))
  | .uuid a, .text b => (parseUuid rt b).map fun b => applyCmp op (cmpBytes a b)
  | .text a, .uuid b => (parseUuid rt a).map fun a => applyCmp op (cmpBytes a b)
  | .bytea a, .bytea b => .ok (applyCmp op (cmpBytes a b))
  | .bytea a, .text b => .ok (applyCmp op (cmpBytes a (parseBytea b)))
  | .text a, .bytea b => .ok (applyCmp op (cmpBytes (parseBytea a) b))
  | .date a, .date b => .ok (applyCmp op (Ord.compare a b))
  | .date a, .text b => (Datetime.parseDate rt .release b).map
      fun b => applyCmp op (Ord.compare a b)
  | .text a, .date b => (Datetime.parseDate rt .release a).map
      fun a => applyCmp op (Ord.compare a b)
  | .time a, .time b => .ok (applyCmp op (Ord.compare a b))
  | .time a, .text b => (Datetime.parseTime rt .release b).map
      fun b => applyCmp op (Ord.compare a b)
  | .text a, .time b => (Datetime.parseTime rt .release a).map
      fun a => applyCmp op (Ord.compare a b)
  | l, r => .error (cannotCompare rt l r)

/-! ## Arithmetic -/

def litToF64 (l : Literal) : Except DbError F64 :=
  match floatOf rt l with
  | some f => .ok f
  | none => .error (.sqlPlan ("arithmetic requires a numeric operand, got " ++ rt.debug l))

def evalIntArith (op : ArithOp) (a b : Int) : Except DbError Int :=
  let checked (sym : String) (n : Int) : Except DbError Int :=
    match checkedSigned 64 n with
    | some n => .ok n
    | none => .error (.sqlPlan s!"integer overflow: {a} {sym} {b}")
  match op with
  | .add => checked "+" (a + b)
  | .sub => checked "-" (a - b)
  | .mul => checked "*" (a * b)
  -- `i64::MIN / -1` and `i64::MIN % -1` are not in range: both panic
  | .div =>
    if b = 0 then .error (.sqlPlan "division by zero")
    else if (checkedSigned 64 (a.tdiv b)).isSome then .ok (a.tdiv b) else .error .panicked
  | .mod =>
    if b = 0 then .error (.sqlPlan "modulo by zero")
    else if (checkedSigned 64 (a.tdiv b)).isSome then .ok (a.tmod b) else .error .panicked

def evalArith (op : ArithOp) (l r : Literal) : Except DbError Literal :=
  match l, r with
  | .int a, .int b => (evalIntArith op a b).map .int
  | l, r => do
    let a ← litToF64 rt l
    let b ← litToF64 rt r
    match op with
    | .div =>
      if rt.f64IsZero b then .error (.sqlPlan "division by zero")
      else pure (.float (rt.f64Arith .div a b))
    | .mod =>
      if rt.f64IsZero b then .error (.sqlPlan "modulo by zero")
      else pure (.float (rt.f64Arith .mod a b))
    | op => pure (.float (rt.f64Arith op a b))

/-! ## Pattern matching -/

def likeMatchChars (text pattern : List Char) : Bool :=
  match pattern with
  | [] => text.isEmpty
  | c :: rest =>
    if c = '%' then
      likeMatchChars text rest ||
        match text with
        | [] => false
        | _ :: text' => likeMatchChars text' (c :: rest)
    else if c = '_' then
      match text with
      | [] => false
      | _ :: text' => likeMatchChars text' rest
    else
      match text with
      | [] => false
      | t :: text' => t == c && likeMatchChars text' rest
termination_by text.length + pattern.length

def likeMatch (text pattern : String) (caseInsensitive : Bool) : Bool :=
  if caseInsensitive then
    likeMatchChars (text.toList.flatMap rt.charLower) (pattern.toList.flatMap rt.charLower)
  else likeMatchChars text.toList pattern.toList

/-! ## The evaluator -/

/-- `as_bool`: a predicate's value, NULL counting as false. -/
def asBool : Literal → Except DbError Bool
  | .bool b => .ok b
  | .null => .ok false
  | l => .error (.sqlUnsupported ("expected a boolean expression, got " ++ rt.debug l))

/-- `json_of`: the text, once it is known to parse. -/
def jsonOf (l : Literal) : Except DbError String :=
  let parsed (s : String) : Except DbError String :=
    match rt.jsonError s with
    | none => .ok s
    | some e => .error (.sqlPlan s!"invalid JSON: {e}")
  match l with
  | .json s => parsed s
  | .text s => parsed s
  | l => .error (.sqlUnsupported ("->/->> requires a JSON or text value, got " ++ rt.debug l))

/-- The value in a column slot; reading past the end of the row panics. -/
def readSlot (row : Row) (i : Nat) : Except DbError Literal :=
  match row[i]? with
  | some v => .ok v
  | none => .error .panicked

def evalLike (val pat : Literal) (negated caseInsensitive : Bool) : Except DbError Literal :=
  match val, pat with
  | .null, _ => .ok .null
  | _, .null => .ok .null
  | .text t, .text p => .ok (.bool (likeMatch rt t p caseInsensitive != negated))
  | val, pat => .error (.sqlUnsupported
      ("LIKE requires TEXT operands, got " ++ rt.debug val ++ " LIKE " ++ rt.debug pat))

def evalExpr (rt : Runtime) (columns : List ColumnDef) (row : Row) : Expr → Except DbError Literal
  | .column name =>
    match columnPos columns name with
    | some i => readSlot row i
    | none => .error (.columnNotFound "" name)
  | .columnSlot i =>
    match row[i]? with
    | some v => .ok v
    | none => .error (.sqlPlan s!"ColumnSlot({i}) out of range")
  | .literal l => .ok l
  | .binOp op lhs rhs => do
    let l ← evalExpr rt columns row lhs
    let r ← evalExpr rt columns row rhs
    let b ← compare rt op l r
    pure (.bool b)
  | .arith op lhs rhs => do
    let l ← evalExpr rt columns row lhs
    let r ← evalExpr rt columns row rhs
    evalArith rt op l r
  | .and lhs rhs => do
    let l ← asBool rt (← evalExpr rt columns row lhs)
    let r ← asBool rt (← evalExpr rt columns row rhs)
    pure (.bool (l && r))
  | .or lhs rhs => do
    let l ← asBool rt (← evalExpr rt columns row lhs)
    let r ← asBool rt (← evalExpr rt columns row rhs)
    pure (.bool (l || r))
  | .jsonExtract expr path => do
    let s ← jsonOf rt (← evalExpr rt columns row expr)
    pure (.json ((rt.jsonGet s path).elim "null" JsonView.text))
  | .jsonExtractText expr path => do
    let s ← jsonOf rt (← evalExpr rt columns row expr)
    match rt.jsonGet s path with
    | some v => pure (.text (v.str.getD v.text))
    | none => pure .null
  -- the index lookup already chose the row
  | .near _ _ _ => .ok (.bool true)
  | .fullText _ _ => .ok (.bool true)
  | .like expr pattern negated caseInsensitive => do
    let val ← evalExpr rt columns row expr
    let pat ← evalExpr rt columns row pattern
    evalLike rt val pat negated caseInsensitive
  | .isNull expr negated => do
    let v ← evalExpr rt columns row expr
    pure (.bool ((v == .null) != negated))
  | .currentUser => .ok .null
  | .authUid => .ok .null
  | .authClaim _ => .ok .null
  | .excluded name =>
    .error (.sqlPlan s!"internal error: EXCLUDED.{name} was not substituted before evaluation")

def predicateMatches (predicate : Option Expr) (columns : List ColumnDef)
    (row : Row) : Except DbError Bool :=
  match predicate with
  | none => .ok true
  | some e => do asBool rt (← evalExpr rt columns row e)

/-- `check_passes`: a check's value, NULL counting as passed. -/
def checkPasses (e : Expr) (columns : List ColumnDef) (row : Row) : Except DbError Bool := do
  match ← evalExpr rt columns row e with
  | .bool b => pure b
  | .null => pure true
  | l => .error (.sqlPlan ("CHECK expression must be boolean, got " ++ rt.debug l))

def collectExprColumns : Expr → List String
  | .column name | .near name _ _ => [name]
  | .fullText column query => column :: collectExprColumns query
  | .binOp _ lhs rhs | .arith _ lhs rhs | .and lhs rhs | .or lhs rhs =>
    collectExprColumns lhs ++ collectExprColumns rhs
  | .jsonExtract expr _ | .jsonExtractText expr _ | .isNull expr _ => collectExprColumns expr
  | .like expr pattern _ _ => collectExprColumns expr ++ collectExprColumns pattern
  | .columnSlot _ | .literal _ | .currentUser | .authUid | .authClaim _ | .excluded _ => []

/-! ## When a predicate is TRUE -/

variable {rt}

lemma asBool_eq_true {l : Literal} : asBool rt l = .ok true ↔ l = .bool true := by
  cases l <;> simp [asBool]

lemma asBool_bind_eq_true {x : Except DbError Literal} :
    (x >>= asBool rt) = .ok true ↔ x = .ok (.bool true) := by
  cases x with
  | error e => simp [bind, Except.bind]
  | ok l => simpa [bind, Except.bind] using asBool_eq_true

lemma predicateMatches_some (e : Expr) (columns : List ColumnDef) (row : Row) :
    predicateMatches rt (some e) columns row = .ok true ↔
      evalExpr rt columns row e = .ok (.bool true) :=
  asBool_bind_eq_true

variable {columns : List ColumnDef}

lemma evalExpr_and_true {row : Row} {a b : Expr} :
    evalExpr rt columns row (.and a b) = .ok (.bool true) ↔
      evalExpr rt columns row a = .ok (.bool true) ∧ evalExpr rt columns row b =
          .ok (.bool true) := by
  have both : evalExpr rt columns row (.and a b) = .ok (.bool true) ↔
      (evalExpr rt columns row a >>= asBool rt) = .ok true ∧
        (evalExpr rt columns row b >>= asBool rt) = .ok true := by
    simp only [evalExpr]
    cases evalExpr rt columns row a with
    | error e => simp [bind, Except.bind]
    | ok x =>
      cases evalExpr rt columns row b with
      | error e => cases hx : asBool rt x <;> simp [bind, Except.bind, hx]
      | ok y =>
        cases hx : asBool rt x <;> cases hy : asBool rt y <;>
          simp [bind, Except.bind, pure, Except.pure, hx, hy]
  rw [both, asBool_bind_eq_true, asBool_bind_eq_true]

lemma evalExpr_or_true {row : Row} {a b : Expr} :
    evalExpr rt columns row (.or a b) = .ok (.bool true) ↔
      ∃ x y, (evalExpr rt columns row a >>= asBool rt) = .ok x ∧
        (evalExpr rt columns row b >>= asBool rt) = .ok y ∧ (x || y) = true := by
  simp only [evalExpr]
  cases evalExpr rt columns row a with
  | error e => simp [bind, Except.bind]
  | ok x =>
    cases evalExpr rt columns row b with
    | error e => cases hx : asBool rt x <;> simp [bind, Except.bind, hx]
    | ok y =>
      cases hx : asBool rt x <;> cases hy : asBool rt y <;>
        simp [bind, Except.bind, pure, Except.pure, hx, hy]

/-! ## Comparing keys -/

/-- On keys of one kind, a comparison that holds in the evaluator holds in the order of the tree. -/
lemma compare_intoLiteral {op : CmpOp} {a b : OrderedValue} (hkind : a.kind = b.kind)
    (h : compare rt op a.intoLiteral b.intoLiteral = .ok true) : applyCmp op (a.cmp b) = true := by
  cases a with
  | int a =>
    cases b with
    | int b => simpa [compare, OrderedValue.intoLiteral, OrderedValue.cmp] using h
    | _ => cases hkind
  | text a =>
    cases b with
    | text b => simpa [compare, OrderedValue.intoLiteral, OrderedValue.cmp] using h
    | _ => cases hkind
  | bool a =>
    cases b with
    | bool b => cases op <;> cases a <;> cases b <;> first | rfl | cases h
    | _ => cases hkind

lemma applyCmp_flip (op : CmpOp) (o : Ordering) :
    applyCmp (flipCmpOp op) o = applyCmp op o.swap := by
  cases op <;> cases o <;> rfl

lemma OrderedValue.cmp_swap (a b : OrderedValue) : (a.cmp b).swap = b.cmp a := by
  cases a <;> cases b <;> first | rfl | exact Std.OrientedOrd.eq_swap.symm

end UniDb
