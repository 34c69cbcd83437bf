import UniDb.Sql.Eval

/-!
# Building a row to write (`sql/executor.rs`)

From the values of an `INSERT` or the assignments of an `UPDATE` to the coerced and validated row.
-/

namespace UniDb

open Text

/-! ## Ordering, defaults, assignments -/

/-- Values of an `INSERT` without a column list, in the live columns; dropped ones hold NULL. -/
def fillVisible : List ColumnDef → List Literal → Row
  | [], _ => []
  | c :: cs, vals =>
    if c.dropped then .null :: fillVisible cs vals
    else
      match vals with
      | v :: vs => v :: fillVisible cs vs
      | [] => .null :: fillVisible cs []

def orderValuesByColumns (t : TableDef) (columns : Option (List String)) (values : List Literal) :
    Except DbError Row :=
  match columns with
  | none =>
    let visible := (t.columns.filter fun c => !c.dropped).length
    if values.length ≠ visible then
      .error (.sqlPlan ("table '" ++ t.name ++ "' has " ++ toString visible ++ " columns, but " ++
        toString values.length ++ " values were supplied"))
    else .ok (fillVisible t.columns values)
  | some cols =>
    if cols.length ≠ values.length then
      .error (.sqlPlan "INSERT column list and VALUES count don't match")
    else
      (cols.zip values).foldlM
        (fun row (name, v) => do pure (row.set (← columnIndex t name) v))
        (t.columns.map fun _ => Literal.null)

def applyDefaults (t : TableDef) (row : Row) : Row :=
  List.zipWith
    (fun c v => if c.dropped || v != .null then v else c.constraints.default.getD v) t.columns row

/-- `set_column`: the first column of that name, dropped ones included. -/
def setColumn (columns : List ColumnDef) (row : Row) (name : String) (v : Literal) :
    Except DbError Row :=
  match columns.findIdx? fun c => c.name == name with
  | some i => .ok (row.set i v)
  | none => .error (.columnNotFound "" name)

/-- The `SET` list, each right-hand side evaluated on the row the previous assignments left. -/
def applyAssignments (rt : Runtime) (columns : List ColumnDef) (row : Row)
    (assignments : List (String × Expr)) : Except DbError Row :=
  assignments.foldlM
    (fun row (name, e) => do setColumn columns row name (← evalExpr rt columns row e)) row

/-! ## Coercion -/

/-- `{:?}` of a column type. -/
def ColumnType.debug : ColumnType → String
  | .int64 => "Int64"
  | .text => "Text"
  | .bool => "Bool"
  | .json => "Json"
  | .vector n => s!"Vector({n})"
  | .decimal p s => s!"Decimal({p}, {s})"
  | .timestamp => "Timestamp"
  | .float => "Float"
  | .uuid => "Uuid"
  | .bytea => "Bytea"
  | .date => "Date"
  | .time => "Time"

/-- `digit_count`: decimal digits of the absolute value, one for zero. -/
def digitCount (v : Int) : Nat := (Nat.toDigits 10 v.natAbs).length

def rescaleDecimal (tableName : String) (col : ColumnDef) (value : Int)
    (fromScale precision scale : Nat) : Except DbError Literal := do
  let at' := "table '" ++ tableName ++ "' column '" ++ col.name ++ "': "
  let orOverflow (v : Option Int) : Except DbError Int :=
    match v with
    | some n => .ok n
    | none => .error (.sqlPlan (at' ++ "decimal value out of range"))
  let scaled ←
    if fromScale = scale then pure value
    else if fromScale < scale then do
      let factor ← orOverflow (pow10 (scale - fromScale))
      orOverflow (checkedSigned 128 (value * factor))
    else do
      let factor ← orOverflow (pow10 (fromScale - scale))
      if value.tmod factor ≠ 0 then
        .error (.sqlPlan (at' ++
          s!"value has more fractional digits than the column's scale {scale} allows"))
      else pure (value.tdiv factor)
  if digitCount scaled > precision then
    .error (.sqlPlan (at' ++ s!"value exceeds DECIMAL({precision}, {scale}) precision"))
  else pure (.decimal scaled scale)

def coerceValue (rt : Runtime) (profile : Profile) (tableName : String) (col : ColumnDef)
    (val : Literal) : Except DbError Literal :=
  match col.ty, val with
  | _, .null => .ok .null
  | .int64, .int n => .ok (.int n)
  | .text, .text s => .ok (.text s)
  | .bool, .bool b => .ok (.bool b)
  | .json, .text s | .json, .json s =>
    match rt.jsonError s with
    | none => .ok (.json s)
    | some e => .error (.sqlPlan ("invalid JSON for column '" ++ col.name ++ "': " ++ e))
  | .vector n, .vector v =>
    if v.length ≠ n then
      .error (.sqlPlan ("table '" ++ tableName ++ "' column '" ++ col.name ++
        s!"': expected a {n}-dimension vector, got " ++ toString v.length))
    else .ok (.vector v)
  | .decimal p s, .decimal v fromScale => rescaleDecimal tableName col v fromScale p s
  | .decimal p s, .int n => rescaleDecimal tableName col n 0 p s
  | .timestamp, .timestamp t => .ok (.timestamp t)
  | .timestamp, .text s => (Datetime.parseTimestamp rt profile s).map .timestamp
  | .float, .float f => .ok (.float f)
  | .float, .int n => .ok (.float (rt.f64OfInt n))
  | .float, .decimal v s => .ok (.float (rt.f64OfDecimal v s))
  | .uuid, .uuid b => .ok (.uuid b)
  | .uuid, .text s => (parseUuid rt s).map .uuid
  | .bytea, .bytea b => .ok (.bytea b)
  | .bytea, .text s => .ok (.bytea (parseBytea s))
  | .date, .date d => .ok (.date d)
  | .date, .text s => (Datetime.parseDate rt profile s).map .date
  | .time, .time t => .ok (.time t)
  | .time, .text s => (Datetime.parseTime rt profile s).map .time
  | ty, got => .error (.sqlPlan ("table '" ++ tableName ++ "' column '" ++ col.name ++
      "': expected " ++ ty.debug ++ ", got " ++ rt.debug got))

lemma noPanic_rescaleDecimal (tableName : String) (col : ColumnDef) (value : Int)
    (fromScale precision scale : Nat) :
    NoPanic (rescaleDecimal tableName col value fromScale precision scale) := by
  have orOverflow : ∀ (v : Option Int) (msg : String), NoPanic (match v with
      | some n => Except.ok n
      | none => Except.error (DbError.sqlPlan msg)) := by
    intro v msg
    cases v with
    | none => exact noPanic_sqlPlan _
    | some n => exact avoids_ok _
  have check : ∀ (scaled : Int) (msg : String), NoPanic (if digitCount scaled > precision then
      Except.error (DbError.sqlPlan msg) else Except.ok (Literal.decimal scaled scale)) := by
    intro scaled msg
    split
    · exact noPanic_sqlPlan _
    · exact avoids_ok _
  unfold rescaleDecimal
  dsimp only
  split
  · exact check _ _
  · split
    · exact avoids_bind (orOverflow _ _) fun _ _ => avoids_bind (orOverflow _ _) fun _ _ =>
        check _ _
    · refine avoids_bind (orOverflow _ _) fun _ _ => ?_
      split
      · exact noPanic_sqlPlan _
      · exact check _ _

lemma noPanic_map_iff {α β : Type} {x : Except DbError α} {f : α → β} :
    NoPanic (x.map f) ↔ NoPanic x := by
  refine ⟨fun h => ?_, avoids_map⟩
  rintro rfl
  exact h rfl

open Datetime in
/-- A temporal text, on the fields of which the arithmetic overflows. -/
def CoercionOverflows (rt : Runtime) (ty : ColumnType) (val : Literal) : Prop :=
  match ty, val with
  | .timestamp, .text s => Overflows (timestampFields rt s) timestampResults
  | .date, .text s => Overflows (civilFields rt s) fun (y, m, d) => civilResults y m d
  | .time, .text s => Overflows (clockFields rt s) (clockResults 0)
  | _, _ => False

/-- **Coercion and panics**: what does not fit is an error, arithmetic of a debug build apart. -/
theorem noPanic_coerceValue_iff (rt : Runtime) (profile : Profile) (tableName : String)
    (col : ColumnDef) (val : Literal) : NoPanic (coerceValue rt profile tableName col val) ↔
      (profile = .debug → ¬CoercionOverflows rt col.ty val) := by
  unfold coerceValue
  split
  case h_11 s hty =>
    rw [noPanic_map_iff, Datetime.noPanic_parseTimestamp_iff, hty]
    rfl
  case h_20 s hty =>
    rw [noPanic_map_iff, Datetime.noPanic_parseDate_iff, hty]
    rfl
  case h_22 s hty =>
    rw [noPanic_map_iff, Datetime.noPanic_parseTime_iff, hty]
    rfl
  -- No other pair is a temporal text, and none of them panics in either profile.
  all_goals refine iff_of_true ?_ fun _ => by grind [CoercionOverflows]
  case h_5 | h_6 =>
    split
    · exact avoids_ok _
    · exact noPanic_sqlPlan _
  case h_7 =>
    split
    · exact noPanic_sqlPlan _
    · exact avoids_ok _
  case h_8 | h_9 => exact noPanic_rescaleDecimal _ _ _ _ _ _
  case h_16 => exact avoids_map (noPanic_parseUuid _)
  case h_23 => exact noPanic_sqlPlan _
  all_goals exact avoids_ok _

variable (rt : Runtime) (t : TableDef) (values : Row)

def coerceAndValidateRow : Except DbError Row :=
  (t.columns.zip values).mapM fun (col, val) => coerceValue rt .release t.name col val

/-! ## Constraints of the row itself -/

def enforceNotNull (row : Row) : Except DbError Unit :=
  (t.columns.zip row).forM fun (col, v) =>
    if !col.dropped && (col.constraints.notNull || col.constraints.primaryKey) && v == .null then
      .error (.notNullViolation t.name col.name)
    else .ok ()

/-- `enforce_checks`: the column checks, then the table's. -/
def enforceChecks (row : Row) : Except DbError Unit :=
  let columnChecks := (t.columns.filter fun c => !c.dropped).filterMap fun c => c.constraints.check
  (columnChecks ++ t.constraints.checks).forM fun e => do
    if ← checkPasses rt e t.columns row then pure ()
    else .error (.checkViolation t.name)

/-- What every written row goes through before the policies: coercion, `NOT NULL`, `CHECK`. -/
def validateRow : Except DbError Row := do
  let coerced ← coerceAndValidateRow rt t values
  enforceNotNull t coerced
  enforceChecks rt t coerced
  pure coerced

end UniDb
