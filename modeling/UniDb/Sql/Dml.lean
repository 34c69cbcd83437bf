import UniDb.Lib.Checked
import UniDb.Lib.Logged
import UniDb.Sql.Policy

/-!
# `INSERT`, `UPDATE` and `ON CONFLICT` under row security (`sql/executor.rs`)

`execInsert` and `execUpdate` as sequences of row writes. Everything the policies do not decide
(triggers, locks, UNIQUE and FOREIGN KEY checks, the heap and the indexes) is one parameter, a
`TableOps` over an arbitrary state; the statements log each row at the point where it has passed
its checks and goes to the heap.

* `execStatement_letThrough`: whatever a statement writes has passed the checks of its path.
-/

namespace UniDb

open Logged

/-! ## Statements -/

inductive OnConflictAction where
  | doNothing
  | doUpdate (assignments : List (String × Expr)) (predicate : Option Expr)
deriving DecidableEq, Repr

structure OnConflict where
  target : Option String
  action : OnConflictAction
deriving DecidableEq, Repr

inductive WriteStmt where
  | insert (columns : Option (List String)) (values : List (List Literal))
      (onConflict : Option OnConflict)
  /-- `batched` is the outcome of the update gates: one of the two batch paths, or row by row. -/
  | update (assignments : List (String × Expr)) (predicate : Option Expr) (batched : Bool)

/-- What the statements do besides evaluating expressions and policies. A step returns the state it
leaves also when it fails. -/
structure TableOps (σ : Type) where
  /-- Referenced tables, triggers, snapshot. -/
  start : σ → σ × Except DbError Unit
  /-- The rows the access path of an `UPDATE` visits. -/
  candidates : σ → σ × Except DbError (List (RowId × Row))
  fillSerials : Row → σ → σ × Except DbError Row
  beforeInsert : Row → σ → σ × Except DbError Unit
  /-- Locks, UNIQUE and FOREIGN KEY checks, heap and index writes, `AFTER INSERT` triggers. -/
  insertRow : Row → σ → σ × Except DbError Unit
  probeConflictTarget : String → Row → σ → σ × Except DbError (Option (RowId × Row))
  /-- `apply_single_row_update` after `WITH CHECK`. -/
  updateRow : RowId → Row → Row → σ → σ × Except DbError Unit
  /-- The heap and index writes of a batch path. -/
  updateRows : List (RowId × Row × Row) → σ → σ × Except DbError Unit
  finish : σ → σ × Except DbError Unit

/-- A row that has passed its checks. -/
inductive RowWrite where
  | insert (new : Row)
  | update (old new : Row)
  | upsert (old new : Row)
deriving DecidableEq, Repr

abbrev Exec (σ α : Type) := Logged DbError RowWrite σ α

/-! ## Execution -/

section
variable {σ : Type} (rt : Runtime) (ops : TableOps σ) (t : TableDef) (c : Caller)
  (assignments : List (String × Expr))

def tryInsertOneRow (coerced : Row) : Exec σ Unit := do
  lift (ops.beforeInsert coerced)
  ofExcept (insertPolicyCheck rt t c coerced)
  emit (.insert coerced)
  lift (ops.insertRow coerced)

/-- `substitute_excluded_in_expr`: `EXCLUDED.col` becomes the proposed row's value. -/
def substituteExcludedInExpr (columns : List ColumnDef) (proposed : Row) : Expr →
    Except DbError Expr
  | .excluded name =>
    match columnPos columns name with
    | some i => (readSlot proposed i).map .literal
    | none => .error (.columnNotFound "" name)
  | .binOp op lhs rhs => do
    pure (.binOp op (← substituteExcludedInExpr columns proposed lhs)
      (← substituteExcludedInExpr columns proposed rhs))
  | .arith op lhs rhs => do
    pure (.arith op (← substituteExcludedInExpr columns proposed lhs)
      (← substituteExcludedInExpr columns proposed rhs))
  | .and lhs rhs => do
    pure (.and (← substituteExcludedInExpr columns proposed lhs)
      (← substituteExcludedInExpr columns proposed rhs))
  | .or lhs rhs => do
    pure (.or (← substituteExcludedInExpr columns proposed lhs)
      (← substituteExcludedInExpr columns proposed rhs))
  | .jsonExtract e path => do
    pure (.jsonExtract (← substituteExcludedInExpr columns proposed e) path)
  | .jsonExtractText e path => do
    pure (.jsonExtractText (← substituteExcludedInExpr columns proposed e) path)
  | .like e p negated ci => do
    pure (.like (← substituteExcludedInExpr columns proposed e)
      (← substituteExcludedInExpr columns proposed p) negated ci)
  | .fullText col query => do
    pure (.fullText col (← substituteExcludedInExpr columns proposed query))
  | .isNull e negated => do
    pure (.isNull (← substituteExcludedInExpr columns proposed e) negated)
  | e => .ok e

/-- The new row of an `UPDATE`, validated and past `WITH CHECK`. -/
def updatedRow (row : Row) : Except DbError Row := do
  let assigned ← applyAssignments rt t.columns row assignments
  let coerced ← validateRow rt t assigned
  execUpdateWithCheck rt t c coerced
  pure coerced

def applyConflictUpdate (rid : RowId) (before proposed : Row)
    (assignments : List (String × Expr)) (predicate : Option Expr) : Exec σ Unit := do
  ofExcept (execUpsertUpdateUsing rt t c before)
  let bound ← ofExcept (assignments.mapM fun (name, e) => do
    pure (name, ← substituteExcludedInExpr t.columns proposed e))
  let boundPredicate ← ofExcept (predicate.mapM (substituteExcludedInExpr t.columns proposed))
  if ← ofExcept (predicateMatches rt boundPredicate t.columns before) then
    let new ← ofExcept (updatedRow rt t c bound before)
    emit (.upsert before new)
    lift (ops.updateRow rid before new)

def isUniqueViolation : DbError → Bool
  | .uniqueViolation _ _ => true
  | _ => false

variable (columns : Option (List String))

def insertOneRow (onConflict : Option OnConflict) (values : List Literal) : Exec σ Unit := do
  let ordered ← ofExcept (orderValuesByColumns t columns values)
  let seeded ← lift (ops.fillSerials ordered)
  let coerced ← ofExcept (validateRow rt t (applyDefaults t seeded))
  match onConflict with
  | none => tryInsertOneRow rt ops t c coerced
  | some oc =>
    match oc.target with
    | none => absorb isUniqueViolation (tryInsertOneRow rt ops t c coerced)
    | some target =>
      match ← lift (ops.probeConflictTarget target coerced) with
      | none => tryInsertOneRow rt ops t c coerced
      | some (rid, before) =>
        match oc.action with
        | .doNothing => pure ()
        | .doUpdate assignments predicate =>
          applyConflictUpdate rt ops t c rid before coerced
            (assignments.map fun (name, e) => (name, c.substitute e)) (predicate.map c.substitute)

def execInsert (values : List (List Literal)) (onConflict : Option OnConflict) : Exec σ Unit := do
  lift ops.start
  values.forM (insertOneRow rt ops t c columns onConflict)
  lift ops.finish

/-- `exec_update` on the rewritten plan: every access path checks the predicate on the rows it
visits; the batch paths validate all rows before the first write. -/
def execUpdate (predicate : Option Expr) (batched : Bool) : Exec σ Unit := do
  lift ops.start
  let rows ← lift ops.candidates
  let planned := plannedUpdatePredicate c t predicate
  let found ← ofExcept (filterE (fun (_, row) => predicateMatches rt planned t.columns row) rows)
  if batched then
    let collected ← ofExcept (found.mapM fun (rid, row) => do
      pure (rid, row, ← updatedRow rt t c assignments row))
    collected.forM fun (_, old, new) => emit (.update old new)
    lift (ops.updateRows collected)
  else
    found.forM fun (rid, old) => do
      let new ← ofExcept (updatedRow rt t c assignments old)
      emit (.update old new)
      lift (ops.updateRow rid old new)
  lift ops.finish

def execStatement : WriteStmt → Exec σ Unit
  | .insert columns values onConflict => execInsert rt ops t c columns values onConflict
  | .update assignments predicate batched => execUpdate rt ops t c assignments predicate batched

end

/-! ## What the checks of a path require, and what the policies require -/

section
variable (rt : Runtime) (t : TableDef) (c : Caller)

/-- The checks a row write has passed on its path. -/
def LetThrough : RowWrite → Prop
  | .insert new => insertPolicyCheck rt t c new = .ok ()
  | .update old new =>
    predicateMatches rt (plannedUpdatePredicate c t none) t.columns old = .ok true ∧
      execUpdateWithCheck rt t c new = .ok ()
  | .upsert old new =>
    execUpsertUpdateUsing rt t c old = .ok () ∧ execUpdateWithCheck rt t c new = .ok ()

/-- The write is allowed: the merged write-side policy is TRUE on the new row and, where a row is
replaced, the policy of a plain `UPDATE` by this caller is TRUE on the old one. -/
def Permitted : RowWrite → Prop
  | .insert new => PolicyTrue rt t c t.insertPolicy new
  | .update old new | .upsert old new =>
    PolicyTrue rt t c (updateFor t c.authRoles) old ∧ PolicyTrue rt t c t.updateWithCheck new

/-- No check that the row write passes is passed by a NULL policy, and the upsert's check of the
old row agrees with the policy of a plain `UPDATE`. -/
def ChecksStrict : RowWrite → Prop
  | .insert new => ¬ PolicyNull rt t c t.insertPolicy new
  | .update old new =>
    predicateMatches rt (plannedUpdatePredicate c t none) t.columns old = .ok true →
      ¬ PolicyNull rt t c t.updateWithCheck new
  | .upsert old new =>
    execUpsertUpdateUsing rt t c old = .ok () → execUpdateWithCheck rt t c new = .ok () →
      UsingAgrees rt t c old ∧ ¬ PolicyNull rt t c t.updateWithCheck new

end

section
variable {σ : Type} {rt : Runtime} {ops : TableOps σ} {t : TableDef} {c : Caller}

lemma updatedRow_ok {assignments : List (String × Expr)} {row new : Row}
    (h : updatedRow rt t c assignments row = .ok new) :
    execUpdateWithCheck rt t c new = .ok () := by
  unfold updatedRow at h
  obtain ⟨assigned, -, h⟩ := bind_eq_ok.1 h
  obtain ⟨coerced, -, h⟩ := bind_eq_ok.1 h
  obtain ⟨u, hcheck, h⟩ := bind_eq_ok.1 h
  cases h
  exact hcheck

lemma tryInsertOneRow_letThrough (coerced : Row) :
    LogAll (LetThrough rt t c) (tryInsertOneRow rt ops t c coerced) :=
  logAll_bind (logAll_lift _) fun _ =>
    logAll_ofExcept_bind fun _ hcheck =>
      logAll_bind (logAll_emit hcheck) fun _ => logAll_lift _

lemma applyConflictUpdate_letThrough (rid : RowId) (before proposed : Row)
    (assignments : List (String × Expr)) (predicate : Option Expr) : LogAll (LetThrough rt t c)
      (applyConflictUpdate rt ops t c rid before proposed assignments predicate) := by
  refine logAll_ofExcept_bind fun _ husing => ?_
  refine logAll_ofExcept_bind fun bound _ => ?_
  refine logAll_ofExcept_bind fun boundPredicate _ => ?_
  refine logAll_ofExcept_bind fun keep _ => ?_
  cases keep with
  | false => exact logAll_pure _
  | true =>
    refine logAll_ofExcept_bind fun new hnew => ?_
    exact logAll_bind (logAll_emit ⟨husing, updatedRow_ok hnew⟩) fun _ => logAll_lift _

lemma insertOneRow_letThrough (columns : Option (List String)) (onConflict : Option OnConflict)
    (values : List Literal) :
    LogAll (LetThrough rt t c) (insertOneRow rt ops t c columns onConflict values) := by
  refine logAll_ofExcept_bind fun ordered _ => ?_
  refine logAll_bind (logAll_lift _) fun seeded => ?_
  refine logAll_ofExcept_bind fun coerced _ => ?_
  cases onConflict with
  | none => exact tryInsertOneRow_letThrough coerced
  | some oc =>
    obtain ⟨target, action⟩ := oc
    cases target with
    | none => exact logAll_absorb (tryInsertOneRow_letThrough coerced)
    | some target =>
      refine logAll_bind (logAll_lift _) fun hit => ?_
      cases hit with
      | none => exact tryInsertOneRow_letThrough coerced
      | some hit =>
        cases action with
        | doNothing => exact logAll_pure _
        | doUpdate assignments predicate =>
          exact applyConflictUpdate_letThrough hit.1 hit.2 coerced _ _

section
variable (hc : c.skipRls = false)

include hc

lemma planned_none_of_planned {predicate : Option Expr} {row : Row}
    (h : predicateMatches rt (plannedUpdatePredicate c t predicate) t.columns row = .ok true) :
    predicateMatches rt (plannedUpdatePredicate c t none) t.columns row = .ok true := by
  have htrue := policyTrue_of_planned hc h
  unfold plannedUpdatePredicate
  simp only [hc]
  cases he : updateFor t c.authRoles with
  | none => rfl
  | some e => exact (predicateMatches_some _ _ _).2 (htrue e he)

lemma execUpdate_letThrough (assignments : List (String × Expr))
    (predicate : Option Expr) (batched : Bool) :
    LogAll (LetThrough rt t c) (execUpdate rt ops t c assignments predicate batched) := by
  refine logAll_bind (logAll_lift _) fun _ => ?_
  refine logAll_bind (logAll_lift _) fun rows => ?_
  refine logAll_ofExcept_bind fun found hfound => ?_
  have hmatch : ∀ x ∈ found,
      predicateMatches rt (plannedUpdatePredicate c t none) t.columns x.2 = .ok true :=
    fun x hx => planned_none_of_planned hc (mem_filterE hfound x hx).2
  cases batched with
  | true =>
    refine logAll_ofExcept_bind fun collected hcollected => ?_
    refine logAll_bind (logAll_forM fun x hx => ?_) fun _ => logAll_bind (logAll_lift _) fun _ =>
      logAll_lift _
    obtain ⟨y, hy, hxy⟩ := exists_of_mem_mapM hcollected x hx
    obtain ⟨new, hnew, hx⟩ := bind_eq_ok.1 hxy
    cases hx
    exact logAll_emit ⟨hmatch y hy, updatedRow_ok hnew⟩
  | false =>
    refine logAll_bind (logAll_forM fun x hx => ?_) fun _ => logAll_lift _
    refine logAll_ofExcept_bind fun new hnew => ?_
    exact logAll_bind (logAll_emit ⟨hmatch x hx, updatedRow_ok hnew⟩) fun _ => logAll_lift _

theorem execStatement_letThrough (stmt : WriteStmt) :
    LogAll (LetThrough rt t c) (execStatement rt ops t c stmt) := by
  cases stmt with
  | insert columns values onConflict =>
    refine logAll_bind (logAll_lift _) fun _ => ?_
    refine logAll_bind (logAll_forM fun row _ => ?_) fun _ => logAll_lift _
    exact insertOneRow_letThrough columns onConflict row
  | update assignments predicate batched =>
    exact execUpdate_letThrough hc assignments predicate batched

/-- **Row writes fail closed exactly off NULL.** -/
theorem letThrough_permitted_iff (w : RowWrite) :
    (LetThrough rt t c w → Permitted rt t c w) ↔ ChecksStrict rt t c w := by
  cases w with
  | insert new =>
    simp only [LetThrough, insertPolicyCheck_eq hc]
    exact checkGate_strict_iff
  | update old new =>
    simp only [LetThrough, ChecksStrict, execUpdateWithCheck_eq hc]
    rw [← checkGate_strict_iff]
    exact ⟨fun h hold hnew => (h ⟨hold, hnew⟩).2,
      fun h hlet => ⟨policyTrue_of_planned hc hlet.1, h hlet.1 hlet.2⟩⟩
  | upsert old new =>
    simp only [ChecksStrict]
    rw [← upsertUsing_sound_iff hc, ← checkGate_strict_iff, ← execUpdateWithCheck_eq hc]
    refine ⟨fun h hu hn => ⟨fun _ => (h ⟨hu, hn⟩).1, fun _ => (h ⟨hu, hn⟩).2⟩, fun h hlet => ?_⟩
    have := h hlet.1 hlet.2
    exact ⟨this.1 hlet.1, this.2 hlet.2⟩

end

end

/-- **Write-side row security.** A statement of a caller under row security writes only what the
policies allow if and only if none of the checks its rows pass is passed by a NULL policy and the
check of an upsert's old row agrees with the policy of a plain `UPDATE`. -/
theorem write_permitted_iff (rt : Runtime) (t : TableDef) (c : Caller) (hc : c.skipRls = false) :
    (∀ w, (LetThrough rt t c w → Permitted rt t c w) ↔ ChecksStrict rt t c w) ∧
      ∀ {σ : Type} (ops : TableOps σ) (stmt : WriteStmt) (s : σ),
        (∀ w ∈ (execStatement rt ops t c stmt s).1, Permitted rt t c w) ↔
          ∀ w ∈ (execStatement rt ops t c stmt s).1, ChecksStrict rt t c w := by
  refine ⟨letThrough_permitted_iff hc, fun ops stmt s => ?_⟩
  have hlet : ∀ w ∈ (execStatement rt ops t c stmt s).1, LetThrough rt t c w :=
    execStatement_letThrough hc stmt s
  exact forall₂_congr fun w hw =>
    ⟨fun h => (letThrough_permitted_iff hc w).1 fun _ => h,
      fun h => (letThrough_permitted_iff hc w).2 h (hlet w hw)⟩

/-! ## Two writes the policies do not allow -/

/-- A table kept as the list of its rows; the conflict target is the first column. -/
def listOps : TableOps (List Row) where
  start s := (s, .ok ())
  candidates s := (s, .ok (s.map fun row => (⟨0, 0⟩, row)))
  fillSerials row s := (s, .ok row)
  beforeInsert _ s := (s, .ok ())
  insertRow row s := (s ++ [row], .ok ())
  probeConflictTarget _ row s :=
    (s, .ok ((s.find? fun r => r.head? == row.head?).map (⟨0, 0⟩, ·)))
  updateRow _ old new s := (s.map fun r => if r = old then new else r, .ok ())
  updateRows _ s := (s, .ok ())
  finish s := (s, .ok ())

/-- `FOR INSERT USING (owner LIKE 'a%')` and `FOR UPDATE TO editor USING (id > 0)`. -/
def notesTable : TableDef where
  name := "notes"
  columns := [
    { name := "id", ty := .int64, uniqueIndexRoot := some 1,
      constraints := { primaryKey := true } },
    { name := "owner", ty := .text }]
  insertPolicy := some (.like (.column "owner") (.literal (.text "a%")) false false)
  policies := [
    { name := "own", op := .insert,
      usingExpr := some (.like (.column "owner") (.literal (.text "a%")) false false) },
    { name := "edit", op := .update,
      usingExpr := some (.binOp .gt (.column "id") (.literal (.int 0))),
      targetRoles := ["editor"] }]
  updateWithCheck := some (.binOp .gt (.column "id") (.literal (.int 0)))

def plainUser : Caller where
  currentUser := some "bob"
  authClaims := []
  authRoles := ["authenticated"]
  superuser := false

/-- The row `(2, NULL)`: the policy `owner LIKE 'a%'` is NULL on it. -/
def insertNullOwner : WriteStmt := .insert none [[.int 2, .null]] none

/-- `INSERT … VALUES (1, 'bob') ON CONFLICT (id) DO UPDATE SET owner = EXCLUDED.owner`. -/
def upsertOwner : WriteStmt :=
  .insert none [[.int 1, .text "bob"]]
    (some ⟨some "id", .doUpdate [("owner", .excluded "owner")] none⟩)

/-- A NULL policy lets a row in, and an upsert changes a row that a plain `UPDATE` by the same
caller may not touch. -/
theorem insert_null_owner_and_upsert_written : plainUser.skipRls = false ∧
      (∃ w ∈ (execStatement default listOps notesTable plainUser insertNullOwner []).1,
        ¬ Permitted default notesTable plainUser w) ∧
      ∃ w ∈ (execStatement default listOps notesTable plainUser upsertOwner
          [[.int 1, .text "alice"]]).1, ¬ Permitted default notesTable plainUser w := by
  refine ⟨rfl, ⟨.insert [.int 2, .null], by decide, ?_⟩,
    ⟨.upsert [.int 1, .text "alice"] [.int 1, .text "bob"], by decide, ?_⟩⟩
  · intro h
    cases h _ rfl
  · intro h
    cases h.1 _ rfl

theorem write_permitted_iff_plainUser : plainUser.skipRls = false ∧
      ((∀ w ∈ (execStatement default listOps notesTable plainUser insertNullOwner []).1,
          Permitted default notesTable plainUser w) ↔
        ∀ w ∈ (execStatement default listOps notesTable plainUser insertNullOwner []).1,
          ChecksStrict default notesTable plainUser w) :=
  ⟨rfl, (write_permitted_iff default notesTable plainUser rfl).2 listOps insertNullOwner []⟩

end UniDb
