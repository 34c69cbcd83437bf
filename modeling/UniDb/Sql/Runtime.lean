import UniDb.Lib.Text
import UniDb.Sql.Literal

/-!
# What the SQL layer takes from outside

Floating-point arithmetic, JSON (`serde_json`), Unicode case folding and Rust's debug formatting
are not part of this program. `Runtime` is what the executor calls of them; every definition and
lemma of the SQL layer is over an arbitrary `Runtime`.
-/

namespace UniDb

inductive ArithOp where
  | add | sub | mul | div | mod
deriving DecidableEq, Repr

/-- A JSON value as the executor reads it: its contents if it is a string, and its compact text. -/
structure JsonView where
  str : Option String
  text : String
deriving DecidableEq, Repr

structure Runtime where
  /-- `n as f64`. -/
  f64OfInt : Int → F64
  /-- `v as f64 / 10f64.powi(s)`. -/
  f64OfDecimal : Int → Nat → F64
  /-- `str::parse::<f64>`. -/
  f64Parse : String → Option F64
  f64PartialCmp : F64 → F64 → Option Ordering
  f64Arith : ArithOp → F64 → F64 → F64
  /-- `x == 0.0`. -/
  f64IsZero : F64 → Bool
  /-- The error text of `serde_json::from_str`, if the text is not JSON. -/
  jsonError : String → Option String
  /-- `JsonValue::get` on the parsed text. -/
  jsonGet : String → String → Option JsonView
  charLower : Char → List Char
  strLower : String → String
  /-- `{:?}` of a literal. -/
  debug : Literal → String
  /-- `{:?}` of a string. -/
  debugStr : String → String
deriving Inhabited

/-! ## Machine integers -/

/-- The build profile: whether an operation out of range panics or wraps. -/
inductive Profile where
  | debug | release
deriving DecidableEq, Repr

/-- The result of a signed `w`-bit operation whose exact value is `n`. -/
def signedOp (profile : Profile) (w : Nat) (n : Int) : Except DbError Int :=
  match Text.checkedSigned w n, profile with
  | some n, _ => .ok n
  | none, .debug => .error .panicked
  | none, .release => .ok (Text.wrapSigned w n)

lemma noPanic_signedOp_release (w : Nat) (n : Int) : NoPanic (signedOp .release w n) := by
  unfold signedOp
  split
  · exact avoids_ok _
  · contradiction
  · exact avoids_ok _

end UniDb
