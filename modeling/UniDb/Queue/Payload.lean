import UniDb.Sql.Eval

/-!
# The row images of events (`queue/payload.rs`, `lib.rs`)

A captured event carries its rows as JSON. Numbers, booleans, texts and NULL are written as such;
the other types become texts, so what is read back (`realtimeJsonScalarToLiteral`) is not always the
literal that was written. The text is written and parsed again; here an image is the object it
parses to.
-/

namespace UniDb.Queue

open Text

/-! ## JSON -/

/-- A value of an image: arrays of numbers apart, arrays and objects are their compact text. -/
inductive Json where
  | null
  | bool (b : Bool)
  /-- A number that is an `i64`. -/
  | int (n : Int)
  | float (f : F64)
  | str (s : String)
  | numbers (v : List F64)
  | other (text : String)
deriving DecidableEq, Repr, Inhabited

abbrev Image := List (String × Json)

structure EventRuntime extends Runtime where
  jsonValue : String → Json
  f64IsFinite : F64 → Bool
  /-- The text of a finite float, as a number. -/
  floatNumber : F64 → Json
  f32IsFinite : UInt32 → Bool
  /-- The text of a finite `f32`, as an `f64`. -/
  f32Number : UInt32 → F64
  /-- `x as f32`. -/
  f64AsF32 : F64 → UInt32
  /-- The array of a vector, `null` for what is not finite. -/
  vectorText : List UInt32 → String
deriving Inhabited

/-! ## Texts -/

def formatDecimal (value : Int) (scale : Nat) : String :=
  if scale = 0 then toString value
  else
    let digits := (toString value.natAbs).toList
    let (intPart, fracPart) :=
      if digits.length > scale then digits.splitAt (digits.length - scale)
      else (['0'], List.replicate (scale - digits.length) '0' ++ digits)
    (if value < 0 then "-" else "") ++ String.ofList (intPart ++ '.' :: fracPart)

def civilFromDays (z : Int) : Int × Int × Int :=
  let z := z + 719468
  let era := (if z ≥ 0 then z else z - 146096).tdiv 146097
  let doe := z - era * 146097
  let yoe := (doe - doe.tdiv 1460 + doe.tdiv 36524 - doe.tdiv 146096).tdiv 365
  let y := yoe + era * 400
  let doy := doe - (365 * yoe + yoe.tdiv 4 - yoe.tdiv 100)
  let mp := (5 * doy + 2).tdiv 153
  let d := doy - (153 * mp + 2).tdiv 5 + 1
  let m := if mp < 10 then mp + 3 else mp - 9
  (if m ≤ 2 then y + 1 else y, m, d)

def formatDate (days : Int) : String :=
  let (y, mo, d) := civilFromDays days
  padInt 4 y ++ "-" ++ padInt 2 mo ++ "-" ++ padInt 2 d

/-- A fraction of a second without its trailing zeros. -/
def formatFraction (frac : Int) : String :=
  if frac = 0 then ""
  else "." ++ String.ofList (((padInt 6 frac).toList.reverse.dropWhile (· == '0')).reverse)

def formatSeconds (secs : Int) : String :=
  padInt 2 (secs.tdiv 3600) ++ ":" ++ padInt 2 ((secs.tmod 3600).tdiv 60) ++ ":" ++
    padInt 2 (secs.tmod 60)

def formatTime (micros : Int) : String :=
  formatSeconds (micros.tdiv 1000000) ++ formatFraction (micros.tmod 1000000)

def formatTimestamp (micros : Int) : String :=
  let secs := micros / 1000000
  formatDate (secs / 86400) ++ " " ++ formatSeconds (secs % 86400) ++
    formatFraction (micros % 1000000)

/-- `{byte:02x}`. -/
def hexByte (byte : UInt8) : List Char :=
  let digits := Nat.toDigits 16 byte.toNat
  List.replicate (2 - digits.length) '0' ++ digits

def formatUuid (bytes : List UInt8) : String :=
  let h := bytes.flatMap hexByte
  String.ofList (h.take 8 ++ '-' :: (h.drop 8).take 4 ++ '-' :: (h.drop 12).take 4 ++
    '-' :: (h.drop 16).take 4 ++ '-' :: (h.drop 20).take 12)

def formatBytea (bytes : List UInt8) : String :=
  String.ofList ('\\' :: 'x' :: bytes.flatMap hexByte)

/-! ## Images -/

section
variable (rt : EventRuntime)

/-- The value `write_row_json` writes. -/
def literalJson : Literal → Json
  | .null => .null
  | .int n => .int n
  | .bool b => .bool b
  | .text s => .str s
  | .json s => rt.jsonValue s
  | .vector v => if v.all rt.f32IsFinite then .numbers (v.map rt.f32Number) else .other
      (rt.vectorText v)
  | .decimal value scale => .str (formatDecimal value scale)
  | .timestamp micros => .str (formatTimestamp micros)
  | .float f => if rt.f64IsFinite f then rt.floatNumber f else .null
  | .uuid b => .str (formatUuid b)
  | .bytea b => .str (formatBytea b)
  | .date d => .str (formatDate d)
  | .time t => .str (formatTime t)
  | .param _ => .null

/-- `write_row_json`, parsed: of two columns of one name the later one counts. -/
def rowImage (columns : List ColumnDef) (row : Row) : Image :=
  ((columns.map ColumnDef.name).zip (row.map (literalJson rt))).reverse

def realtimeJsonScalarToLiteral : Json → Literal
  | .null => .null
  | .bool b => .bool b
  | .int n => .int n
  | .float f => .float f
  | .str s => .text s
  | .numbers v => .vector (v.map rt.f64AsF32)
  | .other text => .json text

def realtimeRowImageToLiterals (image : Image) (columns : List ColumnDef) : Row :=
  columns.map fun c => ((image.lookup c.name).map (realtimeJsonScalarToLiteral rt)).getD .null

end

def projectJsonColumns (columns : Finset String) (image : Image) : Image :=
  image.filter fun entry => entry.1 ∈ columns

/-! ## Events -/

inductive EventOp where
  | insert | update | delete
deriving DecidableEq, Repr

/-- `queue::Event`; the number, the transaction and the time of an event play no role for who gets
it. -/
structure Event where
  tableName : String
  op : EventOp
  payload : Option Image
  before : Option Image
  after : Option Image
deriving DecidableEq, Repr

inductive Change where
  | insert (after : Row)
  | update (before after : Row)
  | delete (before : Row)
deriving DecidableEq, Repr

namespace Change

def op : Change → EventOp
  | .insert _ => .insert
  | .update _ _ => .update
  | .delete _ => .delete

def before : Change → Option Row
  | .insert _ => none
  | .update row _ => some row
  | .delete row => some row

def after : Change → Option Row
  | .insert row => some row
  | .update _ row => some row
  | .delete _ => none

/-- The row that decides who may see the event: the new one, or the deleted one. -/
def decisive : Change → Row
  | .insert row => row
  | .update _ row => row
  | .delete row => row

end Change

/-- `build_event_envelope_str`, read back by `resolve_event_candidates`. -/
def captureEvent (rt : EventRuntime) (table : String) (columns : List ColumnDef) (change : Change) :
    Event where
  tableName := table
  op := change.op
  payload := (change.after.or change.before).map (rowImage rt columns)
  before := change.before.map (rowImage rt columns)
  after := change.after.map (rowImage rt columns)

end UniDb.Queue
