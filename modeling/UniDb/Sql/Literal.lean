import UniDb.Base

/-!
# Literals and index keys (`sql/logical.rs`, `btree_index.rs`)

`Literal` is the value type of the SQL layer, `OrderedValue` the part of it a B-tree can hold as a
key. Floating-point values are kept as their IEEE bit patterns.
-/

namespace UniDb

/-- An `f64`, by its bits. -/
abbrev F64 := UInt64

inductive Literal where
  | int (n : Int)
  | text (s : String)
  | bool (b : Bool)
  | json (s : String)
  | vector (v : List UInt32)
  | decimal (unscaled : Int) (scale : Nat)
  | timestamp (micros : Int)
  | float (f : F64)
  | uuid (bytes : List UInt8)
  | bytea (bytes : List UInt8)
  | date (days : Int)
  | time (micros : Int)
  | param (n : Nat)
  | null
deriving DecidableEq, Repr

abbrev Row := List Literal

inductive CmpOp where
  | eq | ne | lt | gt | le | ge
deriving DecidableEq, Repr

def applyCmp : CmpOp → Ordering → Bool
  | .eq, .eq => true
  | .ne, .lt => true
  | .ne, .gt => true
  | .lt, .lt => true
  | .gt, .gt => true
  | .le, .lt => true
  | .le, .eq => true
  | .ge, .gt => true
  | .ge, .eq => true
  | _, _ => false

/-- `flip_cmp_op`: the comparison with its sides exchanged. -/
def flipCmpOp : CmpOp → CmpOp
  | .lt => .gt
  | .le => .ge
  | .gt => .lt
  | .ge => .le
  | .eq => .eq
  | .ne => .ne

/-- Lexicographic order on byte strings (`[u8]::cmp`). -/
def cmpBytes : List UInt8 → List UInt8 → Ordering
  | [], [] => .eq
  | [], _ :: _ => .lt
  | _ :: _, [] => .gt
  | a :: as, b :: bs => (compare a b).then (cmpBytes as bs)

/-- The literals a B-tree can hold as keys. -/
inductive OrderedValue where
  | int (n : Int)
  | text (s : String)
  | bool (b : Bool)
deriving DecidableEq, Repr

def OrderedValue.tryFrom : Literal → Option OrderedValue
  | .int n => some (.int n)
  | .text s => some (.text s)
  | .bool b => some (.bool b)
  | _ => none

def OrderedValue.intoLiteral : OrderedValue → Literal
  | .int n => .int n
  | .text s => .text s
  | .bool b => .bool b

/-- The derived `Ord`: integers before texts before booleans, each kind by its own order. -/
def OrderedValue.cmp : OrderedValue → OrderedValue → Ordering
  | .int a, .int b => compare a b
  | .int _, _ => .lt
  | .text _, .int _ => .gt
  | .text a, .text b => compare a b
  | .text _, .bool _ => .lt
  | .bool a, .bool b => compare a b
  | .bool _, _ => .gt

def OrderedValue.kind : OrderedValue → Nat
  | .int _ => 0
  | .text _ => 1
  | .bool _ => 2

variable {a b : OrderedValue}

lemma OrderedValue.cmp_of_kind_ne (h : a.kind ≠ b.kind) : a.cmp b = compare a.kind b.kind := by
  cases a <;> cases b <;> first | rfl | exact absurd rfl h

lemma OrderedValue.tryFrom_eq_some {l : Literal} {v : OrderedValue} :
    OrderedValue.tryFrom l = some v ↔ l = v.intoLiteral := by
  cases l <;> cases v <;> simp [tryFrom, intoLiteral]

lemma OrderedValue.cmp_eq_iff : a.cmp b = .eq ↔ a = b := by
  cases a <;> cases b <;> simp [cmp]

end UniDb
