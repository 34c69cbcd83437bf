import UniDb.Lib.Checked

/-!
# Identifiers and errors

The identifiers every layer shares and the error type `DbError` of `error.rs`, restricted to the
variants the modelled functions return. Transaction ids (`Xid`, with `0` as `INVALID_XID`) and page
ids (`PageId`) are plain numbers.
-/

namespace UniDb

/-- The physical address of one tuple version. -/
structure RowId where
  pageId : Nat
  slot : Nat
deriving DecidableEq, Repr

/-- `INVALID_PAGE_ID`, the `prev_page` of a version without a predecessor. -/
def invalidPageId : Nat := 2 ^ 32 - 1

inductive DbError where
  | slotOutOfRange (pageId : Nat) (slot : Nat)
  | tupleDeleted (pageId : Nat) (slot : Nat)
  | noVisibleVersion (pageId : Nat) (slot : Nat)
  | writeConflict (holderXid : Nat)
  | sqlPlan (msg : String)
  | sqlUnsupported (msg : String)
  | columnNotFound (table column : String)
  | notNullViolation (table column : String)
  | checkViolation (table : String)
  | uniqueViolation (table columns : String)
  | foreignKeyViolation (table refTable column : String)
  | tableNotFound (table : String)
  | tableAlreadyExists (table : String)
  | typeAlreadyExists (name : String)
  | unknownType (name : String)
  | typeInUse (name table column : String)
  | triggerAlreadyExists (name : String)
  | unknownTrigger (name table : String)
  | authz (msg : String)
  | txnNotActive (xid : Nat)
  /-- Not an error value of the source: the Rust code panics here. -/
  | panicked
deriving DecidableEq, Repr

/-- The computation does not panic. -/
abbrev NoPanic {α : Type} (x : Except DbError α) : Prop := Avoids .panicked x

lemma noPanic_sqlPlan {α : Type} (msg : String) :
    NoPanic (.error (.sqlPlan msg) : Except DbError α) :=
  avoids_error (by simp)

/-! ## Allocations -/

/-- `isize::MAX`, the largest size of an allocation in bytes. -/
def isizeMax : Nat := 2 ^ 63 - 1

/-- `Vec::with_capacity(count)` for items of `size` bytes panics where the size overflows. -/
def withCapacity (count size : Nat) : Except DbError Unit :=
  if count * size ≤ isizeMax then .ok () else .error .panicked

/-- The bytes of a `RowId`, and of a `Vec`. -/
def rowIdSize : Nat := 8

def vecSize : Nat := 24

/-! ## 64-bit counters -/

def i64Min : Int := -9223372036854775808

def i64Max : Int := 9223372036854775807

def saturatingAdd (a b : Int) : Int := max i64Min (min i64Max (a + b))

lemma saturatingAdd_eq {a b : Int} (hlo : i64Min ≤ a + b) (hhi : a + b ≤ i64Max) :
    saturatingAdd a b = a + b := by
  rw [saturatingAdd, Int.min_eq_right hhi, Int.max_eq_right hlo]

end UniDb
