import UniDb.Sql.RowValues

/-!
# Row-level security of writes (`sql/logical.rs`, `sql/executor.rs`)

Identity substitution, the policy a plain `UPDATE` is filtered by (`updateFor`), and the three
per-row checks of the write paths: the `INSERT` policy, `WITH CHECK`, and the `USING` check of
`ON CONFLICT DO UPDATE`. The plan rewrite reads a policy through `predicateMatches` (NULL rejects),
the three checks through `checkPasses` (NULL passes).

* `checkGate_ok_iff`: a check lets a row through when the policy is TRUE or NULL on it.
* `upsertUsing_sound_iff`: when the `USING` check of an upsert implies the policy of a plain
  `UPDATE`.
-/

namespace UniDb

/-! ## Substituting the caller's identity -/

def Expr.mapLeaves (leaf : Expr → Expr) : Expr → Expr
  | .binOp op lhs rhs => .binOp op (lhs.mapLeaves leaf) (rhs.mapLeaves leaf)
  | .arith op lhs rhs => .arith op (lhs.mapLeaves leaf) (rhs.mapLeaves leaf)
  | .and lhs rhs => .and (lhs.mapLeaves leaf) (rhs.mapLeaves leaf)
  | .or lhs rhs => .or (lhs.mapLeaves leaf) (rhs.mapLeaves leaf)
  | .jsonExtract e path => .jsonExtract (e.mapLeaves leaf) path
  | .jsonExtractText e path => .jsonExtractText (e.mapLeaves leaf) path
  | .like e p negated ci => .like (e.mapLeaves leaf) (p.mapLeaves leaf) negated ci
  | .fullText col query => .fullText col (query.mapLeaves leaf)
  | .isNull e negated => .isNull (e.mapLeaves leaf) negated
  | e => leaf e

def Expr.anyLeaf (p : Expr → Bool) : Expr → Bool
  | .binOp _ lhs rhs => lhs.anyLeaf p || rhs.anyLeaf p
  | .arith _ lhs rhs => lhs.anyLeaf p || rhs.anyLeaf p
  | .and lhs rhs => lhs.anyLeaf p || rhs.anyLeaf p
  | .or lhs rhs => lhs.anyLeaf p || rhs.anyLeaf p
  | .jsonExtract e _ => e.anyLeaf p
  | .jsonExtractText e _ => e.anyLeaf p
  | .like e pat _ _ => e.anyLeaf p || pat.anyLeaf p
  | .fullText _ query => query.anyLeaf p
  | .isNull e _ => e.anyLeaf p
  | e => p e

def substituteCurrentUserInExpr (user : String) : Expr → Expr :=
  Expr.mapLeaves fun
    | .currentUser => .literal (.text user)
    | e => e

/-- A verified claim: a JSON string, or any other JSON value by its compact text. -/
inductive ClaimValue where
  | string (s : String)
  | other (text : String)
deriving DecidableEq, Repr

def claimValueAsText : ClaimValue → String
  | .string s => s
  | .other text => text

def substituteAuthContextInExpr (subject : Option String) (claims : List (String × ClaimValue)) :
    Expr → Expr :=
  Expr.mapLeaves fun
    | .authUid => .literal (subject.elim .null .text)
    | .authClaim key => .literal ((claims.lookup key).elim .null fun v =>
        .text (claimValueAsText v))
    | e => e

def exprHasCurrentUser : Expr → Bool :=
  Expr.anyLeaf fun
    | .currentUser => true
    | _ => false

def exprHasAuthUid : Expr → Bool :=
  Expr.anyLeaf fun
    | .authUid => true
    | _ => false

def exprHasAuthClaim : Expr → Bool :=
  Expr.anyLeaf fun
    | .authClaim _ => true
    | _ => false

/-- `expr_requires_auth_context_pub`. -/
def exprRequiresAuthContext (e : Expr) : Bool :=
  exprHasCurrentUser e || exprHasAuthUid e || exprHasAuthClaim e

/-- The identity a statement runs under: the `ExecCtx` fields of `AuthPrincipal` with its effective
roles, and whether the user counts as a superuser. -/
structure Caller where
  currentUser : Option String
  authClaims : List (String × ClaimValue)
  authRoles : List String
  superuser : Bool

def serviceRole : String := "service_role"

section
variable (c : Caller) (t : TableDef) (roles : List String)

def Caller.isServiceRole : Bool := c.authRoles.any (· == serviceRole)

/-- `skip_rls` of `execute_sql_inner_as_principal`. -/
def Caller.skipRls : Bool :=
  c.currentUser.elim true (fun _ => c.superuser) || c.isServiceRole

/-- Both substitutions, as every policy goes through them before it is evaluated. -/
def Caller.substitute (e : Expr) : Expr :=
  let e := c.currentUser.elim e fun u => substituteCurrentUserInExpr u e
  substituteAuthContextInExpr c.currentUser c.authClaims e

/-! ## The policy of a plain `UPDATE` -/

/-- `role_scoped_policy_for`: the OR of the `TO`-scoped policies that apply to one of `roles`, and
whether there is any `TO`-scoped policy for the operation at all. -/
def roleScopedPolicyFor (opMatches : PolicyOp → Bool) : Option Expr × Bool :=
  t.policies.foldl
    (fun (merged, anyDefined) p =>
      if p.targetRoles.isEmpty || !opMatches p.op then (merged, anyDefined)
      else if !p.targetRoles.any roles.contains then (merged, true)
      else
        match p.usingExpr with
        | none => (merged, true)
        | some e => (some (merged.elim e fun old => .or old e), true))
    (none, false)

def combineRoleGate (base : Option Expr) : Option Expr × Bool → Option Expr
  | (byRole, anyDefined) =>
    match base, byRole with
    | some x, some y => some (.or x y)
    | some x, none => some x
    | none, some y => some y
    | none, none => if anyDefined then some (.literal (.bool false)) else none

def updateOrAll : PolicyOp → Bool
  | .update | .all => true
  | _ => false

/-- `update_for` of `apply_rls_with_auth`. -/
def updateFor : Option Expr :=
  combineRoleGate t.updatePolicy (roleScopedPolicyFor t roles updateOrAll)

def andPolicy : Option Expr → Option Expr → Option Expr
  | some p, some pol => some (.and p pol)
  | some p, none => some p
  | none, some pol => some pol
  | none, none => none

/-- The predicate an `UPDATE` runs with: the user's, substituted, then the policy of `updateFor`
unless row security is skipped, then substituted again. -/
def plannedUpdatePredicate (predicate : Option Expr) : Option Expr :=
  let predicate := predicate.map c.substitute
  let predicate := if c.skipRls then predicate else andPolicy predicate (updateFor t c.authRoles)
  predicate.map c.substitute

end

/-! ## The per-row checks -/

section
variable (rt : Runtime) (t : TableDef) (c : Caller) (policy : Option Expr) (row : Row)

/-- A policy substituted and run through `checkPasses`; no policy lets every row through. -/
def checkGate (violation : DbError) : Except DbError Unit :=
  match policy with
  | none => .ok ()
  | some e => do
    if ← checkPasses rt (c.substitute e) t.columns row then pure () else .error violation

/-- The `INSERT` policy check of `try_insert_one_row`. -/
def insertPolicyCheck : Except DbError Unit :=
  match t.insertPolicy with
  | none => .ok ()
  | some p =>
    if exprRequiresAuthContext p && (c.currentUser.isNone || c.isServiceRole) then .ok ()
    else checkGate rt t c (some p) row
      (.sqlPlan ("new row violates policy for table \"" ++ t.name ++ "\""))

def execUpdateWithCheck (newRow : Row) : Except DbError Unit :=
  if c.currentUser.isNone || c.isServiceRole then .ok ()
  else checkGate rt t c t.updateWithCheck newRow
    (.sqlPlan ("new row violates WITH CHECK policy for table \"" ++ t.name ++ "\""))

def execUpsertUpdateUsing (existingRow : Row) : Except DbError Unit :=
  if c.currentUser.isNone || c.isServiceRole then .ok ()
  else checkGate rt t c t.updatePolicy existingRow
    (.sqlPlan ("ON CONFLICT DO UPDATE: target row on table \"" ++ t.name ++
      "\" does not satisfy the caller's UPDATE policy"))

/-! ## What a policy says about a row -/

def policyValue (e : Expr) (row : Row) : Except DbError Literal :=
  evalExpr rt t.columns row (c.substitute e)

/-- A policy, where there is one, is TRUE on the row. -/
def PolicyTrue : Prop :=
  ∀ e, policy = some e → policyValue rt t c e row = .ok (.bool true)

/-- There is a policy, and it is NULL on the row. -/
def PolicyNull : Prop :=
  ∃ e, policy = some e ∧ policyValue rt t c e row = .ok .null

/-- How the policies of the table have to stand on an existing row for the upsert's check, which
reads `update_policy` alone, to imply the policy of a plain `UPDATE`. -/
def UsingAgrees : Prop :=
  match t.updatePolicy, roleScopedPolicyFor t c.authRoles updateOrAll with
  | none, (none, anyDefined) => anyDefined = false
  | none, (some s, _) => policyValue rt t c s row = .ok (.bool true)
  | some p, (none, _) => policyValue rt t c p row ≠ .ok .null
  | some p, (some s, _) =>
    (policyValue rt t c p row = .ok .null → policyValue rt t c s row = .ok (.bool true)) ∧
      (policyValue rt t c p row = .ok (.bool true) →
        ∃ b, (policyValue rt t c s row >>= asBool rt) = .ok b)

end

/-! ## Lemmas -/

section
variable {rt : Runtime} {t : TableDef} {c : Caller}

lemma Caller.substitute_and (a b : Expr) :
    c.substitute (.and a b) = .and (c.substitute a) (c.substitute b) := by
  cases h : c.currentUser <;> simp only [substitute, h] <;> rfl

lemma Caller.substitute_or (a b : Expr) :
    c.substitute (.or a b) = .or (c.substitute a) (c.substitute b) := by
  cases h : c.currentUser <;> simp only [substitute, h] <;> rfl

@[simp] lemma Caller.substitute_literal (l : Literal) :
    c.substitute (.literal l) = .literal l := by
  cases h : c.currentUser <;> simp only [substitute, h] <;> rfl

variable {policy : Option Expr} {row : Row} {violation : DbError}

lemma checkGate_ok_iff : checkGate rt t c policy row violation = .ok () ↔
      PolicyTrue rt t c policy row ∨ PolicyNull rt t c policy row := by
  cases policy with
  | none => simp [checkGate, PolicyTrue]
  | some e =>
    have hv : policyValue rt t c e row = evalExpr rt t.columns row (c.substitute e) := rfl
    simp only [checkGate, checkPasses, PolicyTrue, PolicyNull, Option.some.injEq, forall_eq',
      exists_eq_left', ← hv]
    cases policyValue rt t c e row with
    | error err => simp [bind, Except.bind]
    | ok l =>
      cases l with
      | bool b => cases b <;> simp [bind, Except.bind, pure, Except.pure]
      | _ => simp [bind, Except.bind, pure, Except.pure]

lemma PolicyNull.not_true (h : PolicyNull rt t c policy row) :
    ¬ PolicyTrue rt t c policy row := by
  obtain ⟨e, rfl, hnull⟩ := h
  intro htrue
  rw [htrue e rfl] at hnull
  cases hnull

/-- **A check is strict exactly off NULL**: what it lets through satisfies the policy if and only
if the policy is not NULL. -/
theorem checkGate_strict_iff :
    (checkGate rt t c policy row violation = .ok () → PolicyTrue rt t c policy row) ↔
      ¬ PolicyNull rt t c policy row := by
  rw [checkGate_ok_iff]
  refine ⟨fun h hnull => hnull.not_true (h (.inr hnull)), fun h hok => ?_⟩
  exact hok.resolve_right h

section nonBypassing
variable (hc : c.skipRls = false)
include hc

lemma currentUser_isSome_of_not_skipRls : c.currentUser.isNone = false := by
  cases h : c.currentUser <;> simp_all [Caller.skipRls]

lemma not_serviceRole_of_not_skipRls : c.isServiceRole = false := by
  simp_all [Caller.skipRls]

lemma insertPolicyCheck_eq (row : Row) :
    insertPolicyCheck rt t c row = checkGate rt t c t.insertPolicy row
      (.sqlPlan ("new row violates policy for table \"" ++ t.name ++ "\"")) := by
  unfold insertPolicyCheck
  cases t.insertPolicy with
  | none => rfl
  | some p =>
    simp [currentUser_isSome_of_not_skipRls hc, not_serviceRole_of_not_skipRls hc]

lemma execUpdateWithCheck_eq (row : Row) :
    execUpdateWithCheck rt t c row = checkGate rt t c t.updateWithCheck row
      (.sqlPlan ("new row violates WITH CHECK policy for table \"" ++ t.name ++ "\"")) := by
  simp [execUpdateWithCheck, currentUser_isSome_of_not_skipRls hc,
    not_serviceRole_of_not_skipRls hc]

lemma execUpsertUpdateUsing_ok_iff (row : Row) : execUpsertUpdateUsing rt t c row = .ok () ↔
      PolicyTrue rt t c t.updatePolicy row ∨ PolicyNull rt t c t.updatePolicy row := by
  simp only [execUpsertUpdateUsing, currentUser_isSome_of_not_skipRls hc,
    not_serviceRole_of_not_skipRls hc]
  exact checkGate_ok_iff

/-- The rows a plain `UPDATE` finds satisfy the caller's `UPDATE` policy. -/
lemma policyTrue_of_planned {predicate : Option Expr}
    (h : predicateMatches rt (plannedUpdatePredicate c t predicate) t.columns row = .ok true) :
    PolicyTrue rt t c (updateFor t c.authRoles) row := by
  intro e he
  have hplan : plannedUpdatePredicate c t predicate =
      (andPolicy (predicate.map c.substitute) (some e)).map c.substitute := by
    simp [plannedUpdatePredicate, hc, he]
  rw [hplan] at h
  cases predicate with
  | none => exact (predicateMatches_some _ _ _).1 h
  | some p =>
    have hand := (predicateMatches_some _ _ _).1 h
    rw [Caller.substitute_and] at hand
    exact (evalExpr_and_true.1 hand).2

theorem upsertUsing_sound_iff (row : Row) : (execUpsertUpdateUsing rt t c row = .ok () →
        PolicyTrue rt t c (updateFor t c.authRoles) row) ↔ UsingAgrees rt t c row := by
  rw [execUpsertUpdateUsing_ok_iff hc]
  unfold updateFor UsingAgrees
  obtain ⟨byRole, anyDefined⟩ := roleScopedPolicyFor t c.authRoles updateOrAll
  cases t.updatePolicy with
  | none =>
    cases byRole with
    | none =>
      cases anyDefined <;> simp [PolicyTrue, combineRoleGate, policyValue, evalExpr]
    | some s => simp [PolicyTrue, combineRoleGate]
  | some p =>
    cases byRole with
    | none =>
      simp only [combineRoleGate, PolicyTrue, PolicyNull, Option.some.injEq, forall_eq',
        exists_eq_left']
      refine ⟨fun h hnull => ?_, fun h hok => hok.resolve_right h⟩
      rw [hnull] at h
      cases h (.inr rfl)
    | some s =>
      have hor : policyValue rt t c (.or p s) row = .ok (.bool true) ↔
          ∃ x y, (policyValue rt t c p row >>= asBool rt) = .ok x ∧
            (policyValue rt t c s row >>= asBool rt) = .ok y ∧ (x || y) = true := by
        unfold policyValue
        rw [Caller.substitute_or]
        exact evalExpr_or_true
      simp only [combineRoleGate, PolicyTrue, PolicyNull, Option.some.injEq, forall_eq',
        exists_eq_left', hor]
      -- the first disjunct decides `x`: TRUE leaves `s` only to evaluate, NULL leaves it the
      -- verdict
      constructor
      · intro h
        refine ⟨fun hnull => ?_, fun htrue => ?_⟩
        · obtain ⟨x, y, hx, hy, hxy⟩ := h (.inr hnull)
          rw [hnull] at hx
          cases hx
          rw [Bool.false_or] at hxy
          rw [hxy] at hy
          exact asBool_bind_eq_true.1 hy
        · obtain ⟨x, y, -, hy, -⟩ := h (.inl htrue)
          exact ⟨y, hy⟩
      · rintro ⟨hnull, htrue⟩ (hp | hp)
        · obtain ⟨y, hy⟩ := htrue hp
          exact ⟨true, y, asBool_bind_eq_true.2 hp, hy, rfl⟩
        · exact ⟨false, true, by rw [hp]; rfl, asBool_bind_eq_true.2 (hnull hp), rfl⟩

end nonBypassing

end

end UniDb
