import UniDb.Lib.Checked
import UniDb.Lib.Run
import UniDb.Sql.Catalog

/-!
# `CREATE POLICY` and `DROP POLICY` (`lib.rs`)

A table stores one merged predicate per operation. `CREATE POLICY` adds its predicate to what is
stored; `DROP POLICY` computes the five again from the named policies alone, so the predicate of an
earlier `set_rls_policy` is gone after the first drop (`drop_policy_opens_table`).
-/

namespace UniDb

open List

variable {t t' : TableDef} {p : PolicyDef} {ps : List PolicyDef} {initial : Option Expr}
  {name : String}

/-- The parsed text, or the error of `parse_policy_predicate`. -/
def parsePolicyPredicate : Option Expr → Except DbError Expr
  | some e => .ok e
  | none => .error (.sqlUnsupported
      "a policy USING predicate must be a single AND-only comparison predicate")

/-- `WITH CHECK`, or `USING` without one. -/
def PolicyDef.checkSql (p : PolicyDef) : Option Expr := p.withCheck.getD p.usingExpr

def orMerge (existing : Option Expr) (e : Expr) : Option Expr :=
  some (existing.elim e fun old => .or old e)

/-- Is the policy merged into the predicate of `cmd`? A `TO`-scoped one only if `anyRole`. -/
def PolicyDef.mergedInto (cmd : PolicyOp) (anyRole : Bool) (p : PolicyDef) : Bool :=
  (p.op == cmd || p.op == .all) && (anyRole || p.targetRoles.isEmpty)

section
variable (t : TableDef) (initial : Option Expr) (ps : List PolicyDef) (cmd : PolicyOp)
  (anyRole : Bool)

/-- `create_policy_inner` on the table. -/
def createPolicyInner (p : PolicyDef) : Except DbError TableDef := do
  let expr ← parsePolicyPredicate p.usingExpr
  let checkExpr ← parsePolicyPredicate p.checkSql
  if t.policies.any fun q => q.name == p.name then
    .error (.authz s!"policy '{p.name}' already exists on table '{t.name}'")
  else
    let merged (cmd : PolicyOp) (anyRole : Bool) (existing : Option Expr) (e : Expr) :=
      if p.mergedInto cmd anyRole then orMerge existing e else existing
    pure { t with
      policies := t.policies ++ [p]
      insertPolicy := merged .insert true t.insertPolicy expr
      rlsPolicy := merged .select false t.rlsPolicy expr
      updatePolicy := merged .update false t.updatePolicy expr
      updateWithCheck := merged .update true t.updateWithCheck checkExpr
      deletePolicy := merged .delete false t.deletePolicy expr }

variable (sql : PolicyDef → Option Expr)

/-- One of the `try_fold`s of `drop_policy_inner`. -/
def refold : Except DbError (Option Expr) :=
  (ps.filter (·.mergedInto cmd anyRole)).foldlM
    (fun acc p => do pure (orMerge acc (← parsePolicyPredicate (sql p)))) none

/-- `drop_policy_inner` on the table. -/
def dropPolicyInner (name : String) : Except DbError TableDef := do
  let ps := t.policies.filter fun p => p.name != name
  if ps.length = t.policies.length then
    .error (.authz s!"policy '{name}' not found on table '{t.name}'")
  else
    let rls ← refold ps .select false (·.usingExpr)
    let ins ← refold ps .insert true (·.usingExpr)
    let upd ← refold ps .update false (·.usingExpr)
    let updCheck ← refold ps .update true (·.checkSql)
    let del ← refold ps .delete false (·.usingExpr)
    pure { t with
      policies := ps, rlsPolicy := rls, insertPolicy := ins, updatePolicy := upd
      updateWithCheck := updCheck, deletePolicy := del }

inductive PolicyStmt where
  | create (p : PolicyDef)
  | drop (name : String)

def policyStep : PolicyStmt → Option TableDef
  | .create p => (createPolicyInner t p).toOption
  | .drop name => (dropPolicyInner t name).toOption

/-! ## What was declared -/

/-- The OR of `initial` and the predicates of the policies for `cmd`, oldest first. -/
def declaredSum : Option Expr :=
  ((ps.filter (·.mergedInto cmd anyRole)).filterMap sql).foldl orMerge initial

/-- The table with the policies `ps` and their sums; `initial` comes from `set_rls_policy`. -/
def TableDef.declare : TableDef :=
  { t with
    policies := ps
    rlsPolicy := declaredSum initial ps .select false (·.usingExpr)
    insertPolicy := declaredSum none ps .insert true (·.usingExpr)
    updatePolicy := declaredSum none ps .update false (·.usingExpr)
    updateWithCheck := declaredSum none ps .update true (·.checkSql)
    deletePolicy := declaredSum none ps .delete false (·.usingExpr) }

end

lemma parsePolicyPredicate_eq_ok {o : Option Expr} {e : Expr} :
    parsePolicyPredicate o = .ok e ↔ o = some e := by
  cases o <;> simp [parsePolicyPredicate]

lemma declaredSum_snoc {cmd : PolicyOp} {anyRole : Bool} {sql : PolicyDef → Option Expr} {e : Expr}
    (he : sql p = some e) : declaredSum initial (ps ++ [p]) cmd anyRole sql =
      if p.mergedInto cmd anyRole then orMerge (declaredSum initial ps cmd anyRole sql) e
      else declaredSum initial ps cmd anyRole sql := by
  unfold declaredSum
  split <;> simp_all

lemma refold_eq_ok {cmd : PolicyOp} {anyRole : Bool} {sql : PolicyDef → Option Expr}
    {r : Option Expr}
    (h : refold ps cmd anyRole sql = .ok r) : r = declaredSum none ps cmd anyRole sql := by
  unfold refold declaredSum at *
  generalize ps.filter (·.mergedInto cmd anyRole) = l at *
  generalize (none : Option Expr) = acc at *
  induction l generalizing acc with
  | nil =>
    cases h
    rfl
  | cons p l ih =>
    rw [foldlM_cons] at h
    obtain ⟨acc', hacc, h⟩ := bind_eq_ok.1 h
    obtain ⟨e, he, hacc⟩ := bind_eq_ok.1 hacc
    cases hacc
    rw [filterMap_cons_some (parsePolicyPredicate_eq_ok.1 he)]
    exact ih _ h

theorem createPolicyInner_eq_ok (h : createPolicyInner t p = .ok t')
    (ht : t = t.declare initial t.policies) :
    t' = t.declare initial (t.policies ++ [p]) ∧ ∀ q ∈ t.policies, q.name ≠ p.name := by
  obtain ⟨e, he, h⟩ := bind_eq_ok.1 h
  obtain ⟨c, hc, h⟩ := bind_eq_ok.1 h
  rw [parsePolicyPredicate_eq_ok] at he hc
  obtain ⟨hnew, ⟨⟩⟩ := ite_error_left_eq_ok.1 h
  refine ⟨?_, by simpa using hnew⟩
  simp only [TableDef.declare, declaredSum_snoc he, declaredSum_snoc hc]
  rw [ht]
  rfl

/-- **A drop leaves the sums of the named policies**, whatever was stored. -/
theorem dropPolicyInner_eq_ok (h : dropPolicyInner t name = .ok t') :
    t' = t.declare none (t.policies.filter fun p => p.name != name) := by
  unfold dropPolicyInner at h
  obtain ⟨-, h⟩ := ite_error_left_eq_ok.1 h
  obtain ⟨rls, hrls, h⟩ := bind_eq_ok.1 h
  obtain ⟨ins, hins, h⟩ := bind_eq_ok.1 h
  obtain ⟨upd, hupd, h⟩ := bind_eq_ok.1 h
  obtain ⟨chk, hchk, h⟩ := bind_eq_ok.1 h
  obtain ⟨del, hdel, h⟩ := bind_eq_ok.1 h
  cases h
  rw [refold_eq_ok hrls, refold_eq_ok hins, refold_eq_ok hupd, refold_eq_ok hchk, refold_eq_ok hdel]
  rfl

/-- **Policies are the sum of what was declared**, in every run in which no policy is dropped from a
table with a predicate of `set_rls_policy`; on other tables a drop undoes the `CREATE POLICY` right
before it. -/
theorem policies_sum (t₀ : TableDef) (initial : Option Expr)
    (h : Reached policyStep (fun _ a => initial = none ∨ ∀ name, a ≠ .drop name)
      (t₀.declare initial []) t) :
    t = t.declare initial t.policies ∧ (initial = none → ∀ p t₁ t₂,
      policyStep t (.create p) = some t₁ → policyStep t₁ (.drop p.name) = some t₂ → t₂ = t) := by
  have ht : t = t.declare initial t.policies := by
    refine h.invariant (fun t => t = t.declare initial t.policies) rfl fun t a t' ht hok hs => ?_
    cases a with
    | create p =>
      rw [(createPolicyInner_eq_ok (toOption_eq_some.1 hs) ht).1]
      rfl
    | drop name =>
      obtain rfl := hok.resolve_right fun h => h name rfl
      rw [dropPolicyInner_eq_ok (toOption_eq_some.1 hs)]
      rfl
  refine ⟨ht, ?_⟩
  rintro rfl p t₁ t₂ h1 h2
  obtain ⟨rfl, hnew⟩ := createPolicyInner_eq_ok (toOption_eq_some.1 h1) ht
  rw [dropPolicyInner_eq_ok (toOption_eq_some.1 h2)]
  have hps : (t.policies ++ [p]).filter (fun q => q.name != p.name) = t.policies := by
    rw [filter_append, filter_eq_self.2 fun q hq => by simpa using hnew q hq]
    simp
  exact (congrArg (t.declare none) hps).trans ht.symm

def ownRows : Expr := .binOp .eq (.column "owner") .currentUser

def memos : TableDef := { name := "memos", columns := [{ name := "owner", ty := .text }] }

def publicMemos : PolicyDef :=
  { name := "public", op := .select, usingExpr := some (.column "public") }

theorem policies_sum_created : (policyStep (memos.declare (some ownRows) [])
    (.create publicMemos)).map (·.rlsPolicy) = some (some (.or ownRows (.column "public"))) := by
  have h := policies_sum memos (some ownRows)
    (.step (a := .create publicMemos) .init (.inr nofun) rfl)
  exact congrArg (fun t : TableDef => some t.rlsPolicy) h.1

/-- A policy that is created and dropped takes the predicate of `set_rls_policy` with it: the table
is open. -/
theorem drop_policy_opens_table : ¬ ∀ (t₀ : TableDef) (initial : Option Expr) (t : TableDef),
    Reached policyStep (fun _ _ => True) (t₀.declare initial []) t →
      t = t.declare initial t.policies := by
  intro h
  have hreached : Reached policyStep (fun _ _ => True) (memos.declare (some ownRows) []) memos :=
    (Reached.init.step (a := .create publicMemos) trivial rfl).step
      (a := .drop "public") trivial rfl
  exact absurd (congrArg (·.rlsPolicy) (h memos (some ownRows) memos hreached)) (by decide)

end UniDb
