import UniDb.Authz.ReadCheck

/-!
# A read needs a grant on everything it reads

`Reads` is what the planner and the executor read when they run a plan, name by name. The two passes
of the check miss some of it: the table pass does not look into subqueries of expressions; a name
that a nested `WITH` declares counts as a CTE although that `WITH` is never run; the columns of
`USING` and `NATURAL` joins and of sort keys given by position are not charged; and a qualifier that
fits several relations is charged to one of them. Such a read is *blind*. Everything else is charged
(`covered_of_reads`), so a plan is safe for all users and grants exactly if its blind reads happen
to be charged too (`reads_granted_iff`).

`Reads` takes every expression to be evaluated and a predicate to be evaluated on the joined row; a
reference that does not resolve reads nothing, the statement fails there. The names of the CTEs of a
subquery that has been run stay visible in the source; they hide base tables and add none.
-/

namespace UniDb.Authz

open Query.Tree List

/-! ## Reads -/

/-- A base table or a column of one that is read. -/
inductive Ref where
  | table (table : String) (blind : Bool)
  | column (table column : String) (blind : Bool)
deriving DecidableEq, Repr

def Ref.isBlind : Ref → Bool
  | .table _ blind => blind
  | .column _ _ blind => blind

def Ref.tableName : Ref → String
  | .table t _ => t
  | .column t _ _ => t

/-- A read of a subquery of an expression: the table pass does not see it. -/
def Ref.below : Ref → Ref
  | .table t _ => .table t true
  | r => r

/-- A relation in scope that is not this table goes by the same name. -/
def ColScope.ambiguous (scope : ColScope) (qualifier : Option String) (table : String) : Bool :=
  match qualifier with
  | none => false
  | some q => scope.qualifiers.any fun x => eqIgnoreAsciiCase x.1 q && x.2 != some table

/-- Where a name of a query is looked up. -/
structure Level where
  ctes : Ctes
  withNames : List String
  shadow : List String
  /-- What `bind_correlated` takes for the columns of the query itself. -/
  inner : List SchemaColumn
  outer : List SchemaColumn
  schema : List SchemaColumn
  rows : List SchemaColumn
  scope : ColScope

/-- A reference that is not one of the query itself is bound to the enclosing row if that has it. -/
def Level.resolve (L : Level) (qualifier : Option String) (name : String) : Option SchemaColumn :=
  if (resolveIn L.inner qualifier name).isNone then
    (resolveIn L.outer qualifier name).or (resolveIn L.schema qualifier name)
  else resolveIn L.schema qualifier name

/-- A query to be planned; `materialized`: its CTEs have been run. -/
structure Planned where
  ctes : Ctes
  materialized : Bool
  inner : List SchemaColumn
  outer : List SchemaColumn
  parent : ColScope
  spec : QuerySpec

inductive Place where
  | ctes (ctes : Ctes) (scope : ColScope) (list : List (String × QuerySpec))
  | query (ctes : Ctes) (outer : List SchemaColumn) (parent : ColScope) (spec : QuerySpec)
  | plan (p : Planned)
  | source (L : Level) (node : FromNode)
  | expr (L : Level) (e : QExpr)

section
variable (db : Relations) (p : Planned)

def Planned.level : Level :=
  let withNames := p.spec.with_.map (·.1)
  let shadow := if p.materialized then [] else withNames
  let schema := fromSchema db p.ctes shadow p.spec.from_
  { ctes := p.ctes, withNames, shadow, inner := p.inner, outer := p.outer, schema, rows := schema,
    scope := p.parent.enter p.spec }

/-- After grouping, subqueries see the groups only. -/
def Planned.grouped : Level :=
  if p.spec.hasAgg then { p.level db with rows := [] } else p.level db

/-- The condition of a join sees the columns of its two sides. -/
def Level.joined (L : Level) (left right : FromNode) : Level :=
  let schema := fromSchema db L.ctes L.shadow left ++ fromSchema db L.ctes L.shadow right
  { L with
    schema := schema
    rows := schema }

inductive Reads : Place → Ref → Prop
  | cteHead {ctes scope name cte rest r} :
    Reads (.plan ⟨ctes, false, [], [], scope, cte⟩) r →
    Reads (.ctes ctes scope ((name, cte) :: rest)) r
  | cteTail {ctes scope name cte rest r} :
    Reads (.ctes ((name, outputNames db ctes cte) :: ctes) scope rest) r →
    Reads (.ctes ctes scope ((name, cte) :: rest)) r
  | queryCtes {ctes outer parent r} {spec : QuerySpec} :
    Reads (.ctes ctes (parent.enter spec) spec.with_) r → Reads (.query ctes outer parent spec) r
  | queryMain {ctes outer parent r} {spec : QuerySpec} :
    Reads (.plan
      ⟨runCtes db ctes spec.with_, true, fromSchema db ctes [] spec.from_, outer, parent, spec⟩) r →
    Reads (.query ctes outer parent spec) r
  -- the clauses of a query
  | source {p : Planned} {r} : Reads (.source (p.level db) p.spec.from_) r → Reads (.plan p) r
  | selection {p : Planned} {e r} :
    p.spec.selection = some e → Reads (.expr (p.level db) e) r → Reads (.plan p) r
  | groupBy {p : Planned} {e r} :
    e ∈ p.spec.groupBy → Reads (.expr (p.level db) e) r → Reads (.plan p) r
  | having {p : Planned} {e r} :
    p.spec.having = some e → p.spec.hasAgg = true → Reads (.expr (p.grouped db) e) r →
      Reads (.plan p) r
  | projected {p : Planned} {e alias_ r} :
    .expr e alias_ ∈ p.spec.projection → Reads (.expr (p.grouped db) e) r → Reads (.plan p) r
  | wildcard {p : Planned} {s : SchemaColumn} {o : Origin} :
    .wildcard ∈ p.spec.projection → p.spec.hasAgg = false → s ∈ (p.level db).schema → o ∈ s.origin →
    Reads (.plan p) (.column o.table o.column o.shadowed)
  | qualifiedWildcard {p : Planned} {q : String} {s : SchemaColumn} {o : Origin} :
    .qualifiedWildcard q ∈ p.spec.projection → p.spec.hasAgg = false → s ∈ (p.level db).schema →
    eqIgnoreAsciiCase s.qualifier q = true → o ∈ s.origin →
    Reads (.plan p)
      (.column o.table o.column (o.shadowed || (p.level db).scope.ambiguous (some q) o.table))
  | sorted {p : Planned} {s : SchemaColumn} {o : Origin} :
    s ∈ p.spec.sortColumns (p.level db).schema → o ∈ s.origin →
    Reads (.plan p) (.column o.table o.column true)
  -- FROM
  | table {L : Level} {t alias_} :
    L.ctes.lookup t = none → db.virtualSchema t = none → (db.lookup t).isSome = true →
    Reads (.source L (.table t alias_)) (.table t (L.shadow.contains t))
  | left {L l r ty on us nat ref} :
    Reads (.source L l) ref → Reads (.source L (.join l r ty on us nat)) ref
  | right {L l r ty on us nat ref} :
    Reads (.source L r) ref → Reads (.source L (.join l r ty on us nat)) ref
  | on {L : Level} {l r ty e ref} :
    Reads (.expr (L.joined db l r) e) ref → Reads (.source L (.join l r ty (some e) [] false)) ref
  | shared {L : Level} {l r ty on us nat c} {s : SchemaColumn} {o : Origin} :
    c ∈ joinNames nat us (fromSchema db L.ctes L.shadow l) (fromSchema db L.ctes L.shadow r) →
    (resolveIn (fromSchema db L.ctes L.shadow l) none c = some s ∨
      resolveIn (fromSchema db L.ctes L.shadow r) none c = some s) →
    o ∈ s.origin → Reads (.source L (.join l r ty on us nat)) (.column o.table o.column true)
  | derived {L : Level} {sub alias_ r} :
    Reads (.plan ⟨L.ctes, false, [], [], L.scope, sub⟩) r →
      Reads (.source L (.derived sub alias_)) r
  -- expressions
  | column {L : Level} {q n} {s : SchemaColumn} {o : Origin} :
    L.resolve q n = some s → o ∈ s.origin →
    Reads (.expr L (.column q n)) (.column o.table o.column
      (o.shadowed || L.scope.ambiguous q o.table))
  | arg {L op args e r} : e ∈ args → Reads (.expr L e) r → Reads (.expr L (.apply op args)) r
  | tested {L e sub neg r} : Reads (.expr L e) r → Reads (.expr L (.inSubquery e sub neg)) r
  | inSubquery {L : Level} {e sub neg r} :
    Reads (.query L.ctes L.rows L.scope sub) r → Reads (.expr L (.inSubquery e sub neg)) r.below
  | existsSubquery {L : Level} {sub neg r} :
    Reads (.query L.ctes L.rows L.scope sub) r → Reads (.expr L (.exists sub neg)) r.below
  | scalarSubquery {L : Level} {sub r} :
    Reads (.query L.ctes L.rows L.scope sub) r → Reads (.expr L (.scalarSubquery sub)) r.below

/-- What executing a plan reads. An index-only scan finds a projected column by its name up to case.
An `EXPLAIN` runs the CTEs even if it does not run the query. -/
inductive PlanReads : ReadPlan → Ref → Prop
  | selectTable {t projection predicate columns} :
    db.lookup t = some columns → PlanReads (.select t projection predicate) (.table t false)
  | selectAll {t predicate columns c} :
    db.lookup t = some columns → c ∈ columns →
      PlanReads (.select t [] predicate) (.column t c false)
  | selectColumn {t projection predicate columns n c} :
    db.lookup t = some columns → n ∈ projection → c ∈ columns → eqIgnoreAsciiCase c n = true →
    PlanReads (.select t projection predicate) (.column t c (c != n))
  | selectWhere {t projection predicate columns c} :
    db.lookup t = some columns → c ∈ predicateColumns predicate → c ∈ columns →
    PlanReads (.select t projection predicate) (.column t c false)
  | query {spec r} : Reads db (.query [] [] .empty spec) r → PlanReads (.query spec) r
  | explainCtes {spec : QuerySpec} {analyze r} :
    Reads db (.ctes [] (ColScope.empty.enter spec) spec.with_) r →
      PlanReads (.explain spec analyze) r
  | explainAnalyze {spec r} : Reads db (.query [] [] .empty spec) r →
      PlanReads (.explain spec true) r
  | left {l r ref} : PlanReads l ref → PlanReads (.setOp l r) ref
  | right {l r ref} : PlanReads r ref → PlanReads (.setOp l r) ref

end

/-! ## What the walks collect -/

variable {e : QExpr} {on : Option QExpr} {us tables' : List String} {t n : String}

section
variable {r : ColRequirement} {scope parent : ColScope} {spec : QuerySpec}

lemma mem_collectScoped : r ∈ collectScoped parent spec ↔
      (∃ x ∈ spec.with_, r ∈ collectScoped (parent.enter spec) x.2) ∨
      r ∈ collectFromExprs (parent.enter spec) spec.from_ ∨
      (∃ e, spec.selection = some e ∧ r ∈ collectQexpr (parent.enter spec) e) ∨
      (∃ p ∈ spec.projection, r ∈ attributeWildcard spec (parent.enter spec) p ∨
        r ∈ collectProjection (parent.enter spec) p) ∨
      (∃ e ∈ spec.groupBy, r ∈ collectQexpr (parent.enter spec) e) ∨
      (∃ e, spec.having = some e ∧ r ∈ collectQexpr (parent.enter spec) e) ∨
      ∃ e ∈ spec.orderBy, r ∈ collectQexpr (parent.enter spec) e := by
  rw [collectScoped]
  simp only [mem_append, mem_flatMap, mem_attach, true_and, Subtype.exists,
    Option.mem_toList, exists_prop, or_assoc]

variable {x : String × QuerySpec}

lemma collectScoped_with (hx : x ∈ spec.with_) (h : r ∈ collectScoped (parent.enter spec) x.2) :
    r ∈ collectScoped parent spec :=
  mem_collectScoped.2 (.inl ⟨x, hx, h⟩)

lemma collectScoped_from (h : r ∈ collectFromExprs (parent.enter spec) spec.from_) :
    r ∈ collectScoped parent spec :=
  mem_collectScoped.2 (.inr (.inl h))

lemma collectScoped_wildcard {p : Projection} (hp : p ∈ spec.projection)
    (h : r ∈ attributeWildcard spec (parent.enter spec) p) : r ∈ collectScoped parent spec :=
  mem_collectScoped.2 (.inr (.inr (.inr (.inl ⟨p, hp, .inl h⟩))))

lemma collectScoped_expr (he : spec.selection = some e ∨ e ∈ spec.groupBy ∨ spec.having = some e ∨
      ∃ alias_, Projection.expr e alias_ ∈ spec.projection)
    (h : r ∈ collectQexpr (parent.enter spec) e) : r ∈ collectScoped parent spec := by
  rw [mem_collectScoped]
  rcases he with he | he | he | ⟨alias_, he⟩
  · exact .inr (.inr (.inl ⟨e, he, h⟩))
  · exact .inr (.inr (.inr (.inr (.inl ⟨e, he, h⟩))))
  · exact .inr (.inr (.inr (.inr (.inr (.inl ⟨e, he, h⟩)))))
  · refine .inr (.inr (.inr (.inl ⟨_, he, .inr ?_⟩)))
    rwa [collectProjection]

lemma collectQexpr_arg {op : Operator} {args : List QExpr} (he : e ∈ args)
    (h : r ∈ collectQexpr scope e) : r ∈ collectQexpr scope (.apply op args) := by
  rw [collectQexpr]
  simp only [mem_flatMap, mem_attach, true_and, Subtype.exists]
  exact ⟨e, he, h⟩

lemma mem_collectFromExprs_join {l r : FromNode} {ty : JoinType} {nat : Bool}
    {q : ColRequirement} : q ∈ collectFromExprs scope (.join l r ty on us nat) ↔
      q ∈ collectFromExprs scope l ∨ q ∈ collectFromExprs scope r ∨ ∃ e ∈ on,
          q ∈ collectQexpr scope e := by
  cases on <;> simp [collectFromExprs]

lemma queryBaseTables_with (hx : x ∈ spec.with_) (h : t ∈ queryBaseTables x.2) :
    t ∈ queryBaseTables spec := by
  rw [queryBaseTables]
  simp only [mem_append, mem_flatMap, mem_attach, true_and, Subtype.exists]
  exact .inr ⟨x, hx, h⟩

lemma queryBaseTables_from (h : t ∈ walk (spec.with_.map (·.1)) spec.from_) :
    t ∈ queryBaseTables spec := by
  rw [queryBaseTables]
  exact mem_append_left _ h

end

/-! ## Tables and columns in scope -/

/-- A base column of a column in scope: it exists, has the same name, and unless it is shadowed its
table is one of those in scope. -/
structure InScope (db : Relations) (tables : List String) (name : String) (o : Origin) : Prop where
  live : o.column ∈ (db.lookup o.table).getD []
  named : o.column = name
  listed : o.shadowed = false → o.table ∈ tables

def Within (db : Relations) (columns : List SchemaColumn) (tables : List String) : Prop :=
  ∀ s ∈ columns, ∀ o ∈ s.origin, InScope db tables s.name o

section
variable {db : Relations} {tables : List String}

variable {columns : List SchemaColumn}

lemma Within.mono (h : Within db columns tables) (hsub : tables ⊆ tables') :
    Within db columns tables' := by
  intro s hs o ho
  have hin := h s hs o ho
  exact ⟨hin.live, hin.named, fun hshadow => hsub (hin.listed hshadow)⟩

lemma Within.append {c1 c2 : List SchemaColumn} (h1 : Within db c1 tables)
    (h2 : Within db c2 tables) :
    Within db (c1 ++ c2) tables :=
  fun s hs => (mem_append.1 hs).elim (h1 s) (h2 s)

lemma Within.filter (h : Within db columns tables) (f : SchemaColumn → Bool) :
    Within db (columns.filter f) tables :=
  fun s hs => h s (mem_of_mem_filter hs)

lemma within_nil : Within db [] tables :=
  fun _ h => nomatch h

lemma within_mergeColumns {l r : List SchemaColumn} (hl : Within db l tables)
    (hr : Within db r tables)
    (ty : JoinType) (cols : List String) : Within db (mergeColumns ty cols l r) tables := by
  cases ty with
  | fullOuter =>
    refine Within.append ?_ (hr.filter _)
    intro s hs o ho
    obtain ⟨s0, hs0, rfl⟩ := mem_map.1 hs
    split at ho
    · rw [if_pos ‹_›]
      rcases mem_append.1 ho with ho | ho
      · exact hl s0 hs0 o ho
      · cases hfind : r.find? fun x => x.name == s0.name with
        | none => rw [hfind] at ho; cases ho
        | some x =>
          rw [hfind] at ho
          have hname : x.name = s0.name := by simpa using find?_some hfind
          exact hname ▸ hr x (mem_of_find?_eq_some hfind) o ho
    · rw [if_neg ‹_›]
      exact hl s0 hs0 o ho
  | right => exact (hl.filter _).append hr
  | inner | left | cross => exact hl.append (hr.filter _)

variable {ctes : Ctes} {shadow names : List String}

lemma not_mem_names (hnames : ∀ n ∈ names, (ctes.lookup n).isSome = true ∨ n ∈ shadow)
    (hcte : ctes.lookup t = none) (hshadow : shadow.contains t = false) : t ∉ names := by
  intro hmem
  rcases hnames t hmem with h | h
  · rw [hcte] at h
    cases h
  · rw [contains_eq_mem, decide_eq_false_iff_not] at hshadow
    exact hshadow h

lemma within_fromSchema (hnames : ∀ n ∈ names, (ctes.lookup n).isSome = true ∨ n ∈ shadow) :
    ∀ node, Within db (fromSchema db ctes shadow node) (collectFromScope names node).candidates
  | .table t alias_ => by
    intro s hs o ho
    rw [fromSchema, tableSchema] at hs
    cases hcte : ctes.lookup t with
    | some cols =>
      rw [hcte] at hs
      obtain ⟨n, -, rfl⟩ := mem_map.1 hs
      cases ho
    | none =>
      rw [hcte] at hs
      cases hvirtual : db.virtualSchema t with
      | some cols =>
        rw [hvirtual] at hs
        obtain ⟨n, -, rfl⟩ := mem_map.1 hs
        cases ho
      | none =>
        rw [hvirtual] at hs
        obtain ⟨n, hn, rfl⟩ := mem_map.1 hs
        cases mem_singleton.1 ho
        refine ⟨hn, rfl, fun hshadow => ?_⟩
        simp [collectFromScope, not_mem_names hnames hcte hshadow]
  | .join l r ty on us nat => by
    have hl := within_fromSchema hnames l
    have hr := within_fromSchema hnames r
    rw [fromSchema]
    exact within_mergeColumns (hl.mono fun t ht => mem_append_left _ ht)
      (hr.mono fun t ht => mem_append_right _ ht) _ _
  | .dual => by
    rw [fromSchema]
    exact within_nil
  | .derived sub alias_ => by
    intro s hs o ho
    rw [fromSchema] at hs
    obtain ⟨n, -, rfl⟩ := mem_map.1 hs
    cases ho

lemma isSome_lookup_runCtes (hctes : (ctes.lookup n).isSome = true)
    (list : List (String × QuerySpec)) : ((runCtes db ctes list).lookup n).isSome = true := by
  induction list generalizing ctes with
  | nil => exact hctes
  | cons x list ih =>
    refine ih ?_
    rw [lookup_cons]
    split
    · rfl
    · exact hctes

/-- The CTEs of a query have been run when it is planned. -/
lemma isSome_lookup_of_mem {list : List (String × QuerySpec)} (hn : n ∈ list.map (·.1)) :
    ((runCtes db ctes list).lookup n).isSome = true := by
  induction list generalizing ctes with
  | nil => cases hn
  | cons x list ih =>
    rcases mem_cons.1 hn with rfl | hn
    · exact isSome_lookup_runCtes (by simp) list
    · exact ih hn

end

/-! ## Every read that is not blind is charged -/

section
variable {db : Relations}

structure Level.Sound (db : Relations) (L : Level) : Prop where
  schema : Within db L.schema L.scope.candidates
  outer : Within db L.outer L.scope.candidates
  rows : Within db L.rows L.scope.candidates
  names : ∀ n ∈ L.withNames, (L.ctes.lookup n).isSome = true ∨ n ∈ L.shadow

def Place.Sound (db : Relations) : Place → Prop
  | .ctes _ _ _ => True
  | .query _ outer parent _ => Within db outer parent.candidates
  | .plan p => Within db p.outer p.parent.candidates ∧
      (p.materialized = true → ∀ n ∈ p.spec.with_.map (·.1), (p.ctes.lookup n).isSome = true)
  | .source L node => L.Sound db ∧ (collectFromScope L.withNames node).candidates ⊆
      L.scope.candidates
  | .expr L _ => L.Sound db

def Place.tables : Place → List String
  | .ctes _ _ list => list.flatMap fun x => queryBaseTables x.2
  | .query _ _ _ spec => queryBaseTables spec
  | .plan p => queryBaseTables p.spec
  | .source L node => walk L.withNames node
  | .expr _ _ => []

def Place.requirements : Place → List ColRequirement
  | .ctes _ scope list => list.flatMap fun x => collectScoped scope x.2
  | .query _ _ parent spec => collectScoped parent spec
  | .plan p => collectScoped p.parent p.spec
  | .source L node => collectFromExprs L.scope node
  | .expr L e => collectQexpr L.scope e

def Ref.ChargedBy (tables : List String) (requirements : List ColRequirement) : Ref → Prop
  | .table t _ => t ∈ tables
  | .column t c _ => .column t c ∈ requirements ∨ .allColumns t ∈ requirements

def Ref.Live (db : Relations) : Ref → Prop
  | .table _ _ => True
  | .column t c _ => c ∈ (db.lookup t).getD []

variable {r : Ref} {q : Option String} {pl : Place} {scope : ColScope} {spec : QuerySpec}
  {schema : List SchemaColumn} {s : SchemaColumn}

lemma Ref.ChargedBy.mono {tables : List String} {reqs reqs' : List ColRequirement}
    (h : r.ChargedBy tables reqs) (ht : tables ⊆ tables') (hr : reqs ⊆ reqs') :
    r.ChargedBy tables' reqs' := by
  cases r with
  | table t b => exact ht h
  | column t c b => exact h.imp (@hr _) (@hr _)

/-- The read exists, and unless it is blind it is charged. -/
structure Covered (db : Relations) (pl : Place) (r : Ref) : Prop where
  live : r.Live db
  charged : r.isBlind = false → r.ChargedBy pl.tables pl.requirements

lemma Covered.mono {pl' : Place} (h : Covered db pl r) (ht : pl.tables ⊆ pl'.tables)
    (hr : pl.requirements ⊆ pl'.requirements) : Covered db pl' r :=
  ⟨h.live, fun hb => (h.charged hb).mono ht hr⟩

lemma Covered.below {pl' : Place} (h : Covered db pl r)
    (hr : pl.requirements ⊆ pl'.requirements) : Covered db pl' r.below := by
  cases r with
  | table t b => exact ⟨trivial, fun hb => nomatch hb⟩
  | column t c b => exact ⟨h.live, fun hb => (h.charged hb).imp (@hr _) (@hr _)⟩

lemma Covered.of_blind (hlive : r.Live db) (hb : r.isBlind = true) : Covered db pl r :=
  ⟨hlive, fun h => nomatch hb.symm.trans h⟩

lemma eq_of_not_ambiguous {q : String} {x : Option String}
    (hq : scope.ambiguous (some q) t = false) (hlookup : scope.qualifiers.lookup q = some x) :
    x = some t := by
  obtain ⟨l1, l2, heq, -⟩ := lookup_eq_some_iff.1 hlookup
  have hmem : (q, x) ∈ scope.qualifiers := by simp [heq]
  have hx := any_eq_false.1 hq _ hmem
  simpa [eqIgnoreAsciiCase_self] using hx

lemma mem_attributeColumn (ht : t ∈ scope.candidates) (hq : scope.ambiguous q t = false) :
    .column t n ∈ attributeColumn q n scope := by
  unfold attributeColumn
  cases q with
  | none => exact mem_map_of_mem ht
  | some q =>
    dsimp only
    cases hlookup : scope.qualifiers.lookup q with
    | none => exact mem_map_of_mem ht
    | some x =>
      cases eq_of_not_ambiguous hq hlookup
      exact mem_singleton_self _

lemma mem_attributeWildcard {q : String} (ht : t ∈ scope.candidates)
    (hq : scope.ambiguous (some q) t = false) :
    .allColumns t ∈ attributeWildcard spec scope (.qualifiedWildcard q) := by
  unfold attributeWildcard
  dsimp only
  cases hlookup : scope.qualifiers.lookup q with
  | none => exact mem_map_of_mem ht
  | some x =>
    cases eq_of_not_ambiguous hq hlookup
    exact mem_singleton_self _

lemma mem_of_resolveIn (h : resolveIn schema q n = some s) : s ∈ schema ∧ s.name = n := by
  unfold resolveIn at h
  split at h
  · next hfilter =>
    cases h
    have hs : s ∈ schema.filter (SchemaColumn.refersTo q n) := by simp [hfilter]
    rw [mem_filter] at hs
    refine ⟨hs.1, ?_⟩
    simp only [SchemaColumn.refersTo, Bool.and_eq_true, beq_iff_eq] at hs
    exact hs.2.1
  · cases h

lemma Level.Sound.resolve {L : Level} (hL : L.Sound db) (h : L.resolve q n = some s)
    {o : Origin} (ho : o ∈ s.origin) : InScope db L.scope.candidates n o := by
  have hown : ∀ s', resolveIn L.schema q n = some s' → o ∈ s'.origin →
      InScope db L.scope.candidates n o := by
    intro s' hs' ho'
    obtain ⟨hmem, rfl⟩ := mem_of_resolveIn hs'
    exact hL.schema s' hmem o ho'
  unfold Level.resolve at h
  split at h
  · rcases Option.or_eq_some_iff.1 h with h | ⟨-, h⟩
    · obtain ⟨hmem, rfl⟩ := mem_of_resolveIn h
      exact hL.outer s hmem o ho
    · exact hown s h ho
  · exact hown s h ho

lemma mem_of_sortColumn {outputs : List String} (h : sortColumn schema outputs e = some s) :
    s ∈ schema := by
  unfold sortColumn at h
  split at h
  · split at h
    · obtain ⟨name, -, h⟩ := Option.bind_eq_some_iff.1 h
      rcases Option.or_eq_some_iff.1 h with h | ⟨-, h⟩
      · exact mem_of_find?_eq_some h
      · exact mem_of_getElem? h
    · cases h
  · exact mem_of_find?_eq_some h
  · cases h

lemma mem_of_sortColumns (h : s ∈ spec.sortColumns schema) : s ∈ schema := by
  unfold QuerySpec.sortColumns at h
  dsimp only at h
  split at h
  · obtain ⟨e, -, he⟩ := mem_filterMap.1 h
    exact mem_of_sortColumn he
  · cases h

lemma mem_walk_table {ctes : Ctes} {names shadow : List String} {alias_ : Option String}
    (hnames : ∀ n ∈ names, (ctes.lookup n).isSome = true ∨ n ∈ shadow)
    (hcte : ctes.lookup t = none) (hshadow : shadow.contains t = false) :
    t ∈ walk names (.table t alias_) := by
  rw [walk]
  simp [not_mem_names hnames hcte hshadow]

lemma Planned.sound_level {p : Planned} (h : Place.Sound db (.plan p)) : (p.level db).Sound db := by
  have hnames : ∀ n ∈ p.spec.with_.map (·.1),
      (p.ctes.lookup n).isSome = true ∨ n ∈ (p.level db).shadow := by
    intro n hn
    cases hm : p.materialized with
    | true => exact .inl (h.2 hm n hn)
    | false => right; simpa [Planned.level, hm] using hn
  have hschema : Within db (p.level db).schema (p.level db).scope.candidates :=
    (within_fromSchema hnames p.spec.from_).mono fun t ht => mem_append_right _ ht
  exact ⟨hschema, h.1.mono fun t ht => mem_append_left _ ht, hschema, hnames⟩

lemma Planned.sound_grouped {p : Planned} (h : Place.Sound db (.plan p)) :
    (p.grouped db).Sound db := by
  have hL := Planned.sound_level h
  unfold Planned.grouped
  split
  · exact ⟨hL.schema, hL.outer, within_nil, hL.names⟩
  · exact hL

lemma Planned.grouped_scope (p : Planned) : (p.grouped db).scope = p.parent.enter p.spec := by
  unfold Planned.grouped
  split <;> rfl

lemma Level.sound_joined {L : Level} {l r : FromNode} {ty : JoinType} {nat : Bool}
    (h : Place.Sound db (.source L (.join l r ty on us nat))) : (L.joined db l r).Sound db := by
  obtain ⟨hL, hsub⟩ := h
  have hl : Within db (fromSchema db L.ctes L.shadow l) L.scope.candidates :=
    (within_fromSchema hL.names l).mono fun t ht => hsub (mem_append_left _ ht)
  have hr : Within db (fromSchema db L.ctes L.shadow r) L.scope.candidates :=
    (within_fromSchema hL.names r).mono fun t ht => hsub (mem_append_right _ ht)
  exact ⟨hl.append hr, hL.outer, hl.append hr, hL.names⟩

/-! The clauses of a query. -/

section
variable {p : Planned} {s : SchemaColumn} {o : Origin}

lemma Covered.queryCtes {ctes : Ctes} {outer : List SchemaColumn}
    (h : Covered db (.ctes ctes (parent.enter spec) spec.with_) r) :
    Covered db (.query ctes outer parent spec) r := by
  refine h.mono (fun t ht => ?_) fun q hq => ?_
  · obtain ⟨x, hx, ht⟩ := mem_flatMap.1 ht
    exact queryBaseTables_with hx ht
  · obtain ⟨x, hx, hq⟩ := mem_flatMap.1 hq
    exact collectScoped_with hx hq

lemma Covered.clause {L : Level} (hscope : L.scope = p.parent.enter p.spec)
    (he : p.spec.selection = some e ∨ e ∈ p.spec.groupBy ∨ p.spec.having = some e ∨
      ∃ alias_, Projection.expr e alias_ ∈ p.spec.projection)
    (h : Covered db (.expr L e) r) : Covered db (.plan p) r := by
  refine h.mono (nil_subset _) fun q hq => collectScoped_expr he ?_
  rwa [Place.requirements, hscope] at hq

lemma covered_wildcard (hs : Place.Sound db (.plan p)) (hp : .wildcard ∈ p.spec.projection)
    (hcol : s ∈ (p.level db).schema) (ho : o ∈ s.origin) :
    Covered db (.plan p) (.column o.table o.column o.shadowed) := by
  have hin := within_fromSchema (Planned.sound_level hs).names _ _ hcol _ ho
  refine ⟨hin.live, fun hb => .inr (collectScoped_wildcard hp ?_)⟩
  exact mem_map_of_mem (hin.listed hb)

lemma covered_qualifiedWildcard {qualifier : String} (hs : Place.Sound db (.plan p))
    (hp : .qualifiedWildcard qualifier ∈ p.spec.projection) (hcol : s ∈ (p.level db).schema)
    (ho : o ∈ s.origin) : Covered db (.plan p) (.column o.table o.column
      (o.shadowed || (p.level db).scope.ambiguous (some qualifier) o.table)) := by
  have hin := (Planned.sound_level hs).schema _ hcol _ ho
  refine ⟨hin.live, fun hb => .inr (collectScoped_wildcard hp ?_)⟩
  obtain ⟨hshadow, hq⟩ := Bool.or_eq_false_iff.1 hb
  exact mem_attributeWildcard (hin.listed hshadow) hq

/-! FROM. -/

variable {L : Level} {lhs rhs : FromNode} {ty : JoinType} {nat : Bool}

lemma Covered.left (h : Covered db (.source L lhs) r) :
    Covered db (.source L (.join lhs rhs ty on us nat)) r := by
  refine h.mono (fun t ht => ?_) fun q hq => mem_collectFromExprs_join.2 (.inl hq)
  rw [Place.tables, walk]
  exact mem_append_left _ ht

lemma Covered.right (h : Covered db (.source L rhs) r) :
    Covered db (.source L (.join lhs rhs ty on us nat)) r := by
  refine h.mono (fun t ht => ?_) fun q hq => mem_collectFromExprs_join.2 (.inr (.inl hq))
  rw [Place.tables, walk]
  exact mem_append_right _ ht

lemma covered_shared {c : String} (hs : Place.Sound db (.source L (.join lhs rhs ty on us nat)))
    (hcol : resolveIn (fromSchema db L.ctes L.shadow lhs) none c = some s ∨
      resolveIn (fromSchema db L.ctes L.shadow rhs) none c = some s) (ho : o ∈ s.origin) :
    Covered db (.source L (.join lhs rhs ty on us nat)) (.column o.table o.column true) := by
  have hL := Level.sound_joined hs
  refine .of_blind (hL.schema _ ?_ _ ho).live rfl
  rcases hcol with hcol | hcol
  · exact mem_append_left _ (mem_of_resolveIn hcol).1
  · exact mem_append_right _ (mem_of_resolveIn hcol).1

lemma Covered.derived {sub : QuerySpec} {alias_ : String}
    (h : Covered db (.plan ⟨L.ctes, false, [], [], L.scope, sub⟩) r) :
    Covered db (.source L (.derived sub alias_)) r := by
  refine h.mono (fun t ht => ?_) fun q hq => ?_
  · rwa [Place.tables, walk]
  · rwa [Place.requirements, collectFromExprs]

/-! Expressions. -/

lemma covered_column {qualifier : Option String} {name : String} (hs : L.Sound db)
    (hresolve : L.resolve qualifier name = some s) (ho : o ∈ s.origin) :
    Covered db (.expr L (.column qualifier name)) (.column o.table o.column
      (o.shadowed || L.scope.ambiguous qualifier o.table)) := by
  have hin := hs.resolve hresolve ho
  refine ⟨hin.live, fun hb => .inl ?_⟩
  obtain ⟨hshadow, hq⟩ := Bool.or_eq_false_iff.1 hb
  rw [Place.requirements, collectQexpr, hin.named]
  exact mem_attributeColumn (hin.listed hshadow) hq

end

/-- **Every read that is not blind is charged**, by induction on how it comes about. -/
theorem covered_of_reads (h : Reads db pl r) (hs : pl.Sound db) : Covered db pl r := by
  induction h with
  | cteHead h ih =>
    exact (ih ⟨within_nil, by simp⟩).mono (subset_append_left _ _) (subset_append_left _ _)
  | cteTail h ih =>
    exact (ih trivial).mono (subset_append_right _ _) (subset_append_right _ _)
  | queryCtes h ih => exact (ih trivial).queryCtes
  | queryMain h ih =>
    exact (ih ⟨hs, fun _ n hn => isSome_lookup_of_mem hn⟩).mono (fun _ h => h) fun _ h => h
  | source h ih =>
    have hL := Planned.sound_level hs
    exact (ih ⟨hL, fun t ht => mem_append_right _ ht⟩).mono (fun t ht => queryBaseTables_from ht)
      fun q hq => collectScoped_from hq
  | selection he h ih => exact .clause rfl (.inl he) (ih (Planned.sound_level hs))
  | groupBy he h ih => exact .clause rfl (.inr (.inl he)) (ih (Planned.sound_level hs))
  | having he _ h ih =>
    exact .clause (Planned.grouped_scope _) (.inr (.inr (.inl he))) (ih (Planned.sound_grouped hs))
  | projected he h ih =>
    exact .clause (Planned.grouped_scope _) (.inr (.inr (.inr ⟨_, he⟩)))
      (ih (Planned.sound_grouped hs))
  | wildcard hp _ hcol ho => exact covered_wildcard hs hp hcol ho
  | qualifiedWildcard hp _ hcol _ ho => exact covered_qualifiedWildcard hs hp hcol ho
  | sorted hcol ho =>
    exact .of_blind ((Planned.sound_level hs).schema _ (mem_of_sortColumns hcol) _ ho).live rfl
  | table hcte hvirtual hlookup =>
    exact ⟨trivial, fun hb => mem_walk_table hs.1.names hcte hb⟩
  | left h ih => exact (ih ⟨hs.1, fun t ht => hs.2 (mem_append_left _ ht)⟩).left
  | right h ih => exact (ih ⟨hs.1, fun t ht => hs.2 (mem_append_right _ ht)⟩).right
  | on h ih =>
    refine (ih (Level.sound_joined hs)).mono (nil_subset _) ?_
    exact fun q hq => mem_collectFromExprs_join.2 (.inr (.inr ⟨_, rfl, hq⟩))
  | shared hc hcol ho => exact covered_shared hs hcol ho
  | derived h ih => exact (ih ⟨within_nil, by simp⟩).derived
  | column hresolve ho => exact covered_column hs hresolve ho
  | arg he h ih =>
    exact (ih hs).mono (nil_subset _) fun q hq => collectQexpr_arg he hq
  | tested h ih =>
    refine (ih hs).mono (nil_subset _) fun q hq => ?_
    rw [Place.requirements, collectQexpr]
    exact mem_append_left _ hq
  | inSubquery h ih =>
    refine (ih hs.rows).below fun q hq => ?_
    rw [Place.requirements, collectQexpr]
    exact mem_append_right _ hq
  | existsSubquery h ih | scalarSubquery h ih =>
    refine (ih hs.rows).below fun q hq => ?_
    rwa [Place.requirements, collectQexpr]

end

/-! ## Main results -/

/-- The user may read it: `SELECT` on the table, and on the column if the grant is for columns. -/
def MayRead (s : AuthState) (user : String) : Ref → Prop
  | .table t _ => isInformationSchema t = false → s.hasPrivilege user t .select = true
  | .column t c _ => isInformationSchema t = false →
      ∀ set, s.columnGrant user t .select = .columns set → c ∈ set

/-- **A read needs a grant on everything it reads.** -/
def ReadsGranted (db : Relations) (plan : ReadPlan) : Prop :=
  ∀ s user, s.isSuperuser user = false → checkPlanPrivileges db s user plan = .ok () →
    ∀ r, PlanReads db plan r → MayRead s user r

/-- The condition on the plan: its blind reads are among what the passes ask for anyway. -/
def BlindReadsCharged (db : Relations) (plan : ReadPlan) : Prop :=
  ∀ r, PlanReads db plan r → r.isBlind = true → isInformationSchema r.tableName = false →
    r.ChargedBy (planBaseTables plan) (planRequirements plan)

section
variable {db : Relations} {plan : ReadPlan} {r : Ref}

lemma live_and_charged (h : PlanReads db plan r) :
    r.Live db ∧ (r.isBlind = false → r.ChargedBy (planBaseTables plan)
        (planRequirements plan)) := by
  have hquery : ∀ {spec r}, Reads db (.query [] [] .empty spec) r →
      Covered db (.query [] [] .empty spec) r := fun h => covered_of_reads h within_nil
  induction h with
  | selectTable hlookup => exact ⟨trivial, fun _ => mem_singleton_self _⟩
  | selectAll hlookup hc =>
    refine ⟨?_, fun _ => .inr (mem_append_left _ (mem_singleton_self _))⟩
    rwa [Ref.Live, hlookup]
  | @selectColumn t projection predicate columns n c hlookup hn hc heq =>
    refine ⟨by rwa [Ref.Live, hlookup], fun hb => .inl (mem_append_left _ ?_)⟩
    have hcn : c = n := by simpa [Ref.isBlind] using hb
    subst hcn
    cases projection with
    | nil => cases hn
    | cons p ps => exact mem_map_of_mem hn
  | selectWhere hlookup hc hcol =>
    refine ⟨by rwa [Ref.Live, hlookup], fun _ => .inl (mem_append_right _ ?_)⟩
    exact mem_map_of_mem hc
  | query h => exact ⟨(hquery h).live, (hquery h).charged⟩
  | explainCtes h =>
    have hcov := covered_of_reads (.queryCtes h)
      (within_nil : Within db [] ColScope.empty.candidates)
    exact ⟨hcov.live, hcov.charged⟩
  | explainAnalyze h => exact ⟨(hquery h).live, (hquery h).charged⟩
  | left h ih =>
    exact ⟨ih.1, fun hb => (ih.2 hb).mono (subset_append_left _ _) (subset_append_left _ _)⟩
  | right h ih =>
    exact ⟨ih.1, fun hb => (ih.2 hb).mono (subset_append_right _ _) (subset_append_right _ _)⟩

lemma mayRead_of_charged {s : AuthState} {user : String}
    (hok : checkPlanPrivileges db s user plan = .ok ())
    (hlive : r.Live db) (h : r.ChargedBy (planBaseTables plan) (planRequirements plan)) :
        MayRead s user r := by
  obtain ⟨htables, hreqs⟩ := checkPlanPrivileges_eq_ok.1 hok
  cases r with
  | table t b => exact checkTable_eq_ok.1 (htables t h)
  | column t c b =>
    rcases h with h | h
    · exact checkOneColumn_eq_ok.1 (hreqs _ h)
    · intro hinfo set hset
      obtain ⟨columns, hlookup, hall⟩ := checkAllColumns_eq_ok.1 (hreqs _ h) hinfo set hset
      rw [Ref.Live, hlookup] at hlive
      exact hall c hlive

lemma mayRead_of_information_schema {s : AuthState} {user : String}
    (hinfo : isInformationSchema r.tableName = true) : MayRead s user r := by
  cases r with
  | table t b | column t c b => exact fun h => nomatch hinfo.symm.trans h

/-- One user, with `SELECT` on every table but the given one, and there on some columns at most. -/
def grantsBut (user table : String) (columns : Option (Finset String)) : AuthState :=
  { AuthState.empty with
    users := AList.singleton user false
    tableGrants := fun g t p =>
      if g = user ∧ p = .select then if t = table then columns.map .columns else some .all
        else none }

section
variable {user table t : String} {columns : Option (Finset String)}

lemma isSuperuser_grantsBut : (grantsBut user table columns).isSuperuser user = false := by
  rw [AuthState.isSuperuser, grantsBut, AList.lookup]
  simp

lemma resolve_grantsBut : (grantsBut user table columns).resolveColumnGrant user t .select =
      if t = table then columns.elim .none .columns else .all := by
  have hreach : reach (grantsBut user table columns).memberships [] [user] = [user] := by
    rw [reach]
    change reach _ [user] [] = [user]
    rw [reach]
  rw [AuthState.resolveColumnGrant, hreach]
  by_cases ht : t = table
  · cases columns <;> simp [AuthState.resolveLoop, grantsBut, ht]
  · simp [AuthState.resolveLoop, grantsBut, ht]

lemma columnGrant_grantsBut : (grantsBut user table columns).columnGrant user t .select =
      if t = table then columns.elim .none .columns else .all := by
  rw [AuthState.columnGrant, isSuperuser_grantsBut, resolve_grantsBut]
  rfl

lemma hasPrivilege_grantsBut :
    (grantsBut user table columns).hasPrivilege user t .select = true ↔
        t ≠ table ∨ columns.isSome = true := by
  rw [AuthState.hasPrivilege, isSuperuser_grantsBut, resolve_grantsBut]
  by_cases ht : t = table <;> cases columns <;> simp [ht]

lemma check_grantsBut (db : Relations) (user : String)
    (htables : columns.isSome = false → table ∉ planBaseTables plan)
    (hcolumns : ∀ set ∈ columns, .allColumns table ∉ planRequirements plan ∧
      ∀ c, .column table c ∈ planRequirements plan → c ∈ set) :
    checkPlanPrivileges db (grantsBut user table columns) user plan = .ok () := by
  refine checkPlanPrivileges_eq_ok.2 ⟨fun t ht => checkTable_eq_ok.2 fun _ => ?_, fun q hq => ?_⟩
  · rw [hasPrivilege_grantsBut]
    by_cases htable : t = table
    · subst htable
      by_contra hnone
      exact htables (by simpa using hnone) ht
    · exact .inl htable
  · cases q with
    | column t c =>
      refine checkOneColumn_eq_ok.2 fun _ set hset => ?_
      rw [columnGrant_grantsBut] at hset
      by_cases htable : t = table
      · subst htable
        cases columns with
        | none => simp at hset
        | some set' =>
          have hset : set' = set := by simpa using hset
          exact hset ▸ (hcolumns set' rfl).2 c hq
      · simp [htable] at hset
    | allColumns t =>
      refine checkAllColumns_eq_ok.2 fun _ set hset => ?_
      rw [columnGrant_grantsBut] at hset
      by_cases htable : t = table
      · subst htable
        cases columns with
        | none => simp at hset
        | some set' => exact absurd hq (hcolumns set' rfl).1
      · simp [htable] at hset

end

def namedColumns (table : String) (requirements : List ColRequirement) : Finset String :=
  (requirements.filterMap fun q =>
    match q with
    | .column t c => if t = table then some c else none
    | .allColumns _ => none).toFinset

lemma mem_namedColumns {table c : String} {requirements : List ColRequirement} :
    c ∈ namedColumns table requirements ↔ .column table c ∈ requirements := by
  simp only [namedColumns, mem_toFinset, mem_filterMap]
  constructor
  · rintro ⟨q, hq, h⟩
    cases q with
    | column t c' =>
      simp only [Option.ite_none_right_eq_some, Option.some.injEq] at h
      obtain ⟨rfl, rfl⟩ := h
      exact hq
    | allColumns t => cases h
  · exact fun h => ⟨_, h, by simp⟩

/-- A read that is not charged can be made without a grant. -/
lemma charged_of_readsGranted (h : ReadsGranted db plan) (hr : PlanReads db plan r)
    (hinfo : isInformationSchema r.tableName = false) :
    r.ChargedBy (planBaseTables plan) (planRequirements plan) := by
  cases r with
  | table t b =>
    by_contra hnot
    have hok : checkPlanPrivileges db (grantsBut "reader" t none) "reader" plan = .ok () :=
      check_grantsBut db "reader" (fun _ => hnot) (fun _ h => nomatch h)
    have hgranted := h _ _ isSuperuser_grantsBut hok _ hr hinfo
    rw [hasPrivilege_grantsBut] at hgranted
    simp at hgranted
  | column t c b =>
    by_contra hnot
    rw [Ref.ChargedBy, not_or] at hnot
    let set := namedColumns t (planRequirements plan)
    have hok : checkPlanPrivileges db (grantsBut "reader" t (some set)) "reader" plan = .ok () := by
      refine check_grantsBut db "reader" (fun h => nomatch h) ?_
      rintro _ ⟨⟩
      exact ⟨hnot.2, fun c hc => mem_namedColumns.2 hc⟩
    have hset : (grantsBut "reader" t (some set)).columnGrant "reader" t .select =
        .columns set := by
      rw [columnGrant_grantsBut, if_pos rfl]
      rfl
    exact hnot.1 (mem_namedColumns.1 (h _ _ isSuperuser_grantsBut hok _ hr hinfo set hset))

/-- **Accepted reads are granted**, whoever the user and whatever the grants, exactly if the blind
reads of the plan are charged. -/
theorem reads_granted_iff (db : Relations) (plan : ReadPlan) :
    ReadsGranted db plan ↔ BlindReadsCharged db plan := by
  constructor
  · exact fun h r hr _ hinfo => charged_of_readsGranted h hr hinfo
  · intro h s user _ hok r hr
    obtain ⟨hlive, hcharged⟩ := live_and_charged hr
    cases hb : r.isBlind with
    | false => exact mayRead_of_charged hok hlive (hcharged hb)
    | true =>
      cases hinfo : isInformationSchema r.tableName with
      | false => exact mayRead_of_charged hok hlive (h r hr hb hinfo)
      | true => exact mayRead_of_information_schema hinfo

end

def twoTables : Relations where
  lookup t := if t = "accounts" then some ["id"] else if t = "secrets" then some ["code"] else none
  virtualSchema _ := none

def secretsQuery : QuerySpec where
  with_ := []
  from_ := .table "secrets" none
  selection := none
  projection := [.expr (.literal (.int 1)) none]
  groupBy := []
  having := none
  distinct := false
  orderBy := []

/-- `SELECT id FROM accounts WHERE EXISTS (SELECT 1 FROM secrets)`. -/
def existsQuery : QuerySpec where
  with_ := []
  from_ := .table "accounts" none
  selection := some (.exists secretsQuery false)
  projection := [.expr (.column none "id") none]
  groupBy := []
  having := none
  distinct := false
  orderBy := []

/-- **A table in a subquery is read without a grant.** -/
theorem subquery_table_unchecked : ¬∀ db plan, ReadsGranted db plan := by
  intro h
  have hsub (outer : List SchemaColumn) (scope : ColScope) :
      Reads twoTables (.query [] outer scope secretsQuery) (.table "secrets" false) :=
    .queryMain (.source (.table rfl rfl rfl))
  have hread : PlanReads twoTables (.query existsQuery) (.table "secrets" true) :=
    .query (.queryMain (.selection rfl (Reads.existsSubquery (r := .table "secrets" false)
      (hsub _ _))))
  have hcharged : "secrets" ∈ queryBaseTables existsQuery :=
    charged_of_readsGranted (h _ _) hread (by decide)
  rw [queryBaseTables] at hcharged
  simp [existsQuery, walk] at hcharged

end UniDb.Authz
