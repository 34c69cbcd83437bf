import UniDb.Sql.RowValues

/-!
# Reading a stored row (`sql/executor.rs`)

A stored row holds the values of the columns that existed when it was written. `decodeRow` fills
the later ones with their defaults; `deformRow` decodes only the columns a mask asks for and leaves
NULL elsewhere; `RawFilter` compares integer columns without decoding. Predicates are bound to
column slots once per statement (`bindPredicateColumns`).

* `evalExpr_bind`: binding does not change what an expression evaluates to.
* `evalExpr_deform`: nor does decoding only the columns it names.
-/

namespace UniDb

open List

/-! ## Decoding -/

def missingColumnDefault (rt : Runtime) (col : ColumnDef) : Literal :=
  match col.constraints.default with
  | some default =>
    match coerceValue rt .release "" col default with
    | .ok v => v
    | .error _ => .null
  | none => .null

def decodeRow (rt : Runtime) (columns : List ColumnDef) (data : Row) : Row :=
  columns.mapIdx fun i col => data[i]?.getD (missingColumnDefault rt col)

/-- `deform_row`, the mask as a predicate on column positions. -/
def deformRow (rt : Runtime) (columns : List ColumnDef) (needed : Nat → Bool) (data : Row) : Row :=
  (decodeRow rt columns data).mapIdx fun i v => if needed i then v else .null

/-! ## Binding -/

def bindPredicateColumns (columns : List ColumnDef) : Expr → Expr
  | .column name =>
    match columnPos columns name with
    | some i => .columnSlot i
    | none => .column name
  | .binOp op lhs rhs => .binOp op (bindPredicateColumns columns lhs)
      (bindPredicateColumns columns rhs)
  | .arith op lhs rhs => .arith op (bindPredicateColumns columns lhs)
      (bindPredicateColumns columns rhs)
  | .and lhs rhs => .and (bindPredicateColumns columns lhs) (bindPredicateColumns columns rhs)
  | .or lhs rhs => .or (bindPredicateColumns columns lhs) (bindPredicateColumns columns rhs)
  | .jsonExtract e path => .jsonExtract (bindPredicateColumns columns e) path
  | .jsonExtractText e path => .jsonExtractText (bindPredicateColumns columns e) path
  | .like e p negated ci =>
    .like (bindPredicateColumns columns e) (bindPredicateColumns columns p) negated ci
  | .fullText col query => .fullText col (bindPredicateColumns columns query)
  | .isNull e negated => .isNull (bindPredicateColumns columns e) negated
  | e => e

/-- `expr_columns`: the positions an expression names. -/
def exprColumns (columns : List ColumnDef) : Expr → List Nat
  | .column name => (columnPos columns name).toList
  | .columnSlot i => [i]
  | .literal _ => []
  | .binOp _ lhs rhs => exprColumns columns lhs ++ exprColumns columns rhs
  | .arith _ lhs rhs => exprColumns columns lhs ++ exprColumns columns rhs
  | .and lhs rhs => exprColumns columns lhs ++ exprColumns columns rhs
  | .or lhs rhs => exprColumns columns lhs ++ exprColumns columns rhs
  | .jsonExtract e _ => exprColumns columns e
  | .jsonExtractText e _ => exprColumns columns e
  | .near col _ _ => (columnPos columns col).toList
  | .fullText col _ => (columnPos columns col).toList
  | .like e p _ _ => exprColumns columns e ++ exprColumns columns p
  | .isNull e _ => exprColumns columns e
  | .currentUser => []
  | .authUid => []
  | .authClaim _ => []
  | .excluded _ => []

/-! ## The raw filter -/

/-- A value of fixed encoded width, NULL included. -/
def Literal.fixedWidth : Literal → Bool
  | .text _ | .json _ | .bytea _ | .vector _ => false
  | _ => true

/-- `try_raw_i64_at`: the integer in a stored slot, if every value before it has fixed width. -/
def tryRawI64At (columns : List ColumnDef) (data : Row) (i : Nat) : Option Int :=
  if i < columns.length && (data.take i).all Literal.fixedWidth then
    match data[i]? with
    | some (.int n) => some n
    | _ => none
  else none

/-- The terms `ColumnSlot(i) op n` of a raw filter. -/
abbrev RawFilter := List (Nat × CmpOp × Int)

def collectRawTerms : Expr → Option RawFilter
  | .binOp op (.columnSlot i) (.literal (.int n)) => some [(i, op, n)]
  | .binOp op (.literal (.int n)) (.columnSlot i) => some [(i, flipCmpOp op, n)]
  | .and lhs rhs => do pure ((← collectRawTerms lhs) ++ (← collectRawTerms rhs))
  | _ => none

/-- `RawFilter::passes`: stops at the first term that fails or cannot be read. -/
def RawFilter.passes (columns : List ColumnDef) (data : Row) : RawFilter → Option Bool
  | [] => some true
  | (i, op, n) :: terms =>
    match tryRawI64At columns data i with
    | none => none
    | some lhs =>
      if applyCmp op (Ord.compare lhs n) then RawFilter.passes columns data terms else some false

/-! ## Evaluation does not depend on how the row was read -/

variable {rt : Runtime} {columns : List ColumnDef}

@[simp] lemma length_decodeRow (data : Row) : (decodeRow rt columns data).length =
    columns.length := by
  simp [decodeRow]

variable {i : Nat} {data : Row}

lemma columnPos_lt {name : String} (h : columnPos columns name = some i) : i < columns.length :=
  (findIdx?_eq_some_iff_getElem.1 h).1

lemma evalExpr_congr {r r' : Row} : ∀ {e : Expr}, (∀ i ∈ exprColumns columns e, r[i]? = r'[i]?) →
      evalExpr rt columns r e = evalExpr rt columns r' e
  | .column name, h => by
    simp only [evalExpr]
    cases hpos : columnPos columns name with
    | none => rfl
    | some i => simp only [readSlot, h i (by simp [exprColumns, hpos])]
  | .columnSlot i, h => by simp only [evalExpr, h i (by simp [exprColumns])]
  | .binOp _ lhs rhs, h | .arith _ lhs rhs, h | .and lhs rhs, h | .or lhs rhs, h
  | .like lhs rhs _ _, h => by
    simp only [exprColumns, mem_append] at h
    simp only [evalExpr, evalExpr_congr (fun i hi => h i (.inl hi)),
      evalExpr_congr (fun i hi => h i (.inr hi))]
  | .jsonExtract e _, h | .jsonExtractText e _, h | .isNull e _, h => by
    simp only [evalExpr, evalExpr_congr (e := e) h]
  | .literal _, _ | .near _ _ _, _ | .fullText _ _, _ | .currentUser, _ | .authUid, _
  | .authClaim _, _ | .excluded _, _ => rfl

lemma evalExpr_deform {needed : Nat → Bool} {e : Expr} (data : Row)
    (h : ∀ i ∈ exprColumns columns e, needed i = true) :
    evalExpr rt columns (deformRow rt columns needed data) e =
      evalExpr rt columns (decodeRow rt columns data) e := by
  refine evalExpr_congr fun i hi => ?_
  rw [deformRow, getElem?_mapIdx, h i hi]
  simp

lemma evalExpr_bind {r : Row} (hr : r.length = columns.length) (e : Expr) :
    evalExpr rt columns r (bindPredicateColumns columns e) = evalExpr rt columns r e := by
  induction e with
  | column name =>
    simp only [bindPredicateColumns, evalExpr]
    cases hpos : columnPos columns name with
    | none => simp only [evalExpr, hpos]
    | some i =>
      have hi : i < r.length := hr ▸ columnPos_lt hpos
      simp [evalExpr, readSlot, hi]
  | binOp op lhs rhs ihl ihr | arith op lhs rhs ihl ihr | and lhs rhs ihl ihr
  | or lhs rhs ihl ihr => simp only [bindPredicateColumns, evalExpr, ihl, ihr]
  | jsonExtract e path ih | jsonExtractText e path ih =>
    simp only [bindPredicateColumns, evalExpr, ih]
  | like e p negated ci ihe ihp => simp only [bindPredicateColumns, evalExpr, ihe, ihp]
  | fullText col query ih => rfl
  | isNull e negated ih => simp only [bindPredicateColumns, evalExpr, ih]
  | _ => rfl

/-! ## The raw filter agrees with the evaluator -/

lemma tryRawI64At_eq_some {n : Int} (h : tryRawI64At columns data i = some n) :
    (decodeRow rt columns data)[i]? = some (.int n) := by
  obtain ⟨hcond, h⟩ := Option.ite_none_right_eq_some.1 h
  simp only [Bool.and_eq_true, decide_eq_true_eq] at hcond
  split at h
  · rename_i m hm
    cases h
    simp [decodeRow, hm, hcond.1]
  · cases h

lemma RawFilter.passes_append (xs ys : RawFilter) (data : Row) :
    RawFilter.passes columns data (xs ++ ys) = match RawFilter.passes columns data xs with
      | some true => RawFilter.passes columns data ys
      | r => r := by
  induction xs with
  | nil => rfl
  | cons x xs ih =>
    obtain ⟨i, op, n⟩ := x
    simp only [cons_append, RawFilter.passes]
    cases tryRawI64At columns data i with
    | none => rfl
    | some lhs => cases h : applyCmp op (Ord.compare lhs n) <;> simp [h, ih]

lemma RawFilter.passes_singleton {op : CmpOp} {n : Int} {b : Bool}
    (h : RawFilter.passes columns data [(i, op, n)] = some b) :
    ∃ m, tryRawI64At columns data i = some m ∧ b = applyCmp op (Ord.compare m n) := by
  simp only [RawFilter.passes] at h
  cases hraw : tryRawI64At columns data i with
  | none => rw [hraw] at h; cases h
  | some m =>
    cases hcmp : applyCmp op (Ord.compare m n) <;> simp_all

/-- **The raw filter against the evaluator.** A row on which it decides satisfies the predicate
exactly when it accepts; on a row it rejects, evaluating the predicate may also fail. -/
theorem RawFilter.passes_sound {e : Expr} {terms : RawFilter} {b : Bool}
    (hterms : collectRawTerms e = some terms)
    (hpass : RawFilter.passes columns data terms = some b) :
    evalExpr rt columns (decodeRow rt columns data) e = .ok (.bool true) ↔ b = true := by
  fun_induction collectRawTerms e generalizing terms b with
  | case1 op i n =>
    cases hterms
    obtain ⟨m, hm, rfl⟩ := RawFilter.passes_singleton hpass
    simp only [evalExpr, tryRawI64At_eq_some hm]
    simp [bind, Except.bind, pure, Except.pure, compare]
  | case2 op n i =>
    cases hterms
    obtain ⟨m, hm, rfl⟩ := RawFilter.passes_singleton hpass
    have hswap : (Ord.compare m n).swap = Ord.compare n m := Std.OrientedOrd.eq_swap.symm
    simp only [evalExpr, tryRawI64At_eq_some hm, applyCmp_flip, hswap]
    simp [bind, Except.bind, pure, Except.pure, compare]
  | case3 lhs rhs ihl ihr =>
    cases hl : collectRawTerms lhs with
    | none => rw [hl] at hterms; cases hterms
    | some tl =>
      cases hr : collectRawTerms rhs with
      | none => rw [hl, hr] at hterms; cases hterms
      | some tr =>
        rw [hl, hr] at hterms
        cases hterms
        rw [RawFilter.passes_append] at hpass
        rw [evalExpr_and_true]
        cases hpl : RawFilter.passes columns data tl with
        | none => rw [hpl] at hpass; cases hpass
        | some bl =>
          rw [hpl] at hpass
          rw [ihl hl hpl]
          cases bl with
          | true => simpa using ihr hr hpass
          | false => cases hpass; simp
  | case4 => cases hterms

end UniDb
