import UniDb.Authz.RolesFile
import UniDb.Lib.Lists
import UniDb.Queue.Payload
import UniDb.Sql.Policy
import UniDb.Sql.Pushdown

/-!
# Realtime delivery (`lib.rs`: `filter_realtime_events`)

A subscriber gets an event if the `SELECT` policy of the table, resolved for the subscriber, accepts
one row of it: the new row, or the deleted one. The row is rebuilt from its JSON image, and all
images of the event are delivered.

* `delivery_respects_iff`: an `UPDATE` may pair any two rows, so the policy is respected for every
  event only if it says nothing: it accepts every row, or no image.
* `respects_unless_update_iff`: the other events are right if no image is accepted in place of a
  rejected row; `reread_of_plain`: integers, booleans and texts are read back as they were stored.
-/

namespace UniDb.Queue

open Authz

/-! ## The subscriber -/

structure AuthPrincipal where
  subject : Option String
  claims : List (String × ClaimValue)

def transitiveRolesFor (s : AuthState) (grantee : String) : List String :=
  (reach s.memberships [] [grantee]).flatMap (successors s.memberships)

def effectiveRoles (s : AuthState) (p : AuthPrincipal) : List String :=
  match p.claims.lookup "role" with
  | some (.string "service_role") => ["service_role"]
  | some (.string "anon") => ["anon"]
  | _ =>
    match p.subject with
    | some u => "authenticated" :: transitiveRolesFor s u
    | none => ["anon"]

/-- The identity that policies see. -/
def AuthPrincipal.caller (p : AuthPrincipal) (s : AuthState) : Caller where
  currentUser := p.subject
  authClaims := p.claims
  authRoles := effectiveRoles s p
  superuser := s.isEffectiveSuperuser p.subject

def selectOrAll : PolicyOp → Bool
  | .select | .all => true
  | _ => false

def resolveSelectPolicyForSubscriber (t : TableDef) (c : Caller) : Option Expr :=
  (combineRoleGate t.rlsPolicy (roleScopedPolicyFor t c.authRoles selectOrAll)).map c.substitute

/-- The policy holds of the row; an error does not count. -/
def policyAccepts (rt : Runtime) (policy : Expr) (columns : List ColumnDef) (row : Row) : Bool :=
  match predicateMatches rt (some policy) columns row with
  | .ok b => b
  | .error _ => false

section
variable (rt : EventRuntime) (s : AuthState) (catalog : String → Option TableDef)

/-- The part of an event that a grant for columns lets through. -/
def Event.project (e : Event) : ColumnGrant → Event
  | .columns set =>
    { e with
      payload := e.payload.map (projectJsonColumns set)
      before := e.before.map (projectJsonColumns set)
      after := e.after.map (projectJsonColumns set) }
  | _ => e

def realtimeEventForSubscriber (user : String) (c : Caller) (e : Event) : Option Event :=
  if s.hasPrivilege user e.tableName .select then
    match catalog e.tableName with
    | none => none
    | some t =>
      let accepted : Bool :=
        match resolveSelectPolicyForSubscriber t c with
        | none => true
        | some policy =>
          match if e.op = .delete then e.before else e.after with
          | none => false
          | some image =>
            policyAccepts rt.toRuntime policy t.columns
              (realtimeRowImageToLiterals rt image t.columns)
      if accepted then some (e.project (s.columnGrant user e.tableName .select)) else none
  else none

def filterRealtimeEvents (p : AuthPrincipal) (events : List Event) : List Event :=
  let c := p.caller s
  if c.skipRls then events
  else
    match p.subject with
    | none => []
    | some user => events.filterMap (realtimeEventForSubscriber rt s catalog user c)

end

/-! ## The property -/

/-- An image of this row is part of the event. -/
def Change.Shows (change : Change) (e : Event) (row : Row) : Prop :=
  (e.before.isSome = true ∧ change.before = some row) ∨
    (e.after.isSome = true ∧ change.after = some row) ∨
    (e.payload.isSome = true ∧ change.after.or change.before = some row)

/-- A table with a `SELECT` policy and a subscriber that the policy applies to. The table has the
columns it had when events were captured, some of them dropped, and maybe more. -/
structure Subscription (rt : EventRuntime) where
  s : AuthState
  principal : AuthPrincipal
  user : String
  subject : principal.subject = some user
  restricted : (principal.caller s).skipRls = false
  catalog : String → Option TableDef
  table : String
  t : TableDef
  known : catalog table = some t
  policy : Expr
  resolved : resolveSelectPolicyForSubscriber t (principal.caller s) = some policy
  columns : List ColumnDef
  altered : columns.map ColumnDef.name <+: t.columns.map ColumnDef.name

namespace Subscription
variable {rt : EventRuntime} (d : Subscription rt)

/-- A row the table could hold when the event was captured. -/
structure Stores (row : Row) : Prop where
  length_eq : row.length = d.columns.length
  typed : ∀ p ∈ d.columns.zip row, Codec.Matches p.1.ty p.2

def Captures (change : Change) : Prop :=
  ∀ row, change.before = some row ∨ change.after = some row → d.Stores row

def event (change : Change) : Event := captureEvent rt d.table d.columns change

/-- The policy accepts the stored row, as it is read now. -/
def Accepts (row : Row) : Prop :=
  policyAccepts rt.toRuntime d.policy d.t.columns (decodeRow rt.toRuntime d.t.columns row) = true

def reread (row : Row) : Row :=
  realtimeRowImageToLiterals rt (rowImage rt d.columns row) d.t.columns

/-- The policy accepts what is read back from the image of the row. -/
def AcceptsImage (row : Row) : Prop :=
  policyAccepts rt.toRuntime d.policy d.t.columns (d.reread row) = true

/-- What is delivered of a change shows accepted rows only, and of them granted columns only. -/
def RespectsOf (change : Change) : Prop :=
  ∀ e ∈ filterRealtimeEvents rt d.s d.catalog d.principal [d.event change],
    (∀ row, change.Shows e row → d.Accepts row) ∧
    ∀ image, e.before = some image ∨ e.after = some image ∨ e.payload = some image →
      ∀ set, d.s.columnGrant d.user d.table .select = .columns set → ∀ entry ∈ image, entry.1 ∈ set

/-- **Delivery respects row-level security** for every captured event. -/
def Respects : Prop := ∀ change, d.Captures change → d.RespectsOf change

/-- The policy accepts every row the table can hold, or no image of one; or the subscriber has no
privilege. -/
def SaysNothing : Prop :=
  d.s.hasPrivilege d.user d.table .select = false ∨ (∀ row, d.Stores row → d.Accepts row) ∨
    ∀ row, d.Stores row → ¬d.AcceptsImage row

end Subscription

/-! ## Main results -/

namespace Subscription
variable {rt : EventRuntime} (d : Subscription rt) {change : Change}

lemma mem_filterRealtimeEvents {e : Event} :
    e ∈ filterRealtimeEvents rt d.s d.catalog d.principal [d.event change] ↔
      d.s.hasPrivilege d.user d.table .select = true ∧ d.AcceptsImage change.decisive ∧
      e = (d.event change).project (d.s.columnGrant d.user d.table .select) := by
  have himage : (if (d.event change).op = .delete then (d.event change).before
      else (d.event change).after) = some (rowImage rt d.columns change.decisive) := by
    unfold Subscription.event captureEvent
    cases change <;> rfl
  have hevent :
      realtimeEventForSubscriber rt d.s d.catalog d.user (d.principal.caller d.s) (d.event change) =
      if d.s.hasPrivilege d.user d.table .select then
        if policyAccepts rt.toRuntime d.policy d.t.columns (d.reread change.decisive) then
          some ((d.event change).project (d.s.columnGrant d.user d.table .select)) else none
      else none := by
    have hname : (d.event change).tableName = d.table := rfl
    simp only [realtimeEventForSubscriber, hname, d.known, d.resolved, himage]
    rfl
  simp only [filterRealtimeEvents, d.restricted, d.subject, Bool.false_eq_true, if_false,
    List.mem_filterMap, List.mem_singleton, exists_eq_left, hevent, Subscription.AcceptsImage]
  cases d.s.hasPrivilege d.user d.table .select <;>
    cases policyAccepts rt.toRuntime d.policy d.t.columns (d.reread change.decisive) <;>
    simp [eq_comm]

/-- An event shows its decisive row, and an `UPDATE` the old row too. -/
lemma shows_project {g : ColumnGrant} {row : Row} :
    change.Shows ((d.event change).project g) row ↔
      row = change.decisive ∨ ∃ before after, change = .update before after ∧ row = before := by
  unfold Change.Shows Subscription.event captureEvent
  cases change <;> cases g <;>
    simp [Event.project, Change.before, Change.after, Change.decisive] <;> grind

lemma granted_project {set : Finset String} {image : Image}
    (h : ((d.event change).project (.columns set)).before = some image ∨
      ((d.event change).project (.columns set)).after = some image ∨
      ((d.event change).project (.columns set)).payload = some image) :
    ∀ entry ∈ image, entry.1 ∈ set := by
  have hproject : ∀ x : Option Image, x.map (projectJsonColumns set) = some image →
      ∀ entry ∈ image, entry.1 ∈ set := by
    intro x hx entry hentry
    obtain ⟨y, -, rfl⟩ := Option.map_eq_some_iff.1 hx
    simpa using (List.mem_filter.1 hentry).2
  rcases h with h | h | h
  · exact hproject _ h
  · exact hproject _ h
  · exact hproject _ h

/-- The columns are granted whatever the policy says; so it is about the rows. -/
lemma respectsOf_iff : d.RespectsOf change ↔
    (d.s.hasPrivilege d.user d.table .select = true → d.AcceptsImage change.decisive →
      d.Accepts change.decisive ∧
        ∀ before after, change = .update before after → d.Accepts before) := by
  constructor
  · intro h hpriv hread
    have hrows := (h _ (d.mem_filterRealtimeEvents.2 ⟨hpriv, hread, rfl⟩)).1
    refine ⟨hrows _ (d.shows_project.2 (.inl rfl)), fun before after hchange => ?_⟩
    exact hrows _ (d.shows_project.2 (.inr ⟨before, after, hchange, rfl⟩))
  · intro h e he
    obtain ⟨hpriv, hread, rfl⟩ := d.mem_filterRealtimeEvents.1 he
    obtain ⟨hdecisive, hbefore⟩ := h hpriv hread
    refine ⟨fun row hrow => ?_, fun image himage set hset => ?_⟩
    · rcases d.shows_project.1 hrow with rfl | ⟨before, after, hchange, rfl⟩
      · exact hdecisive
      · exact hbefore _ _ hchange
    · rw [hset] at himage
      exact d.granted_project himage

lemma captures_decisive (h : d.Captures change) : d.Stores change.decisive := by
  refine h _ ?_
  cases change with
  | insert row | update _ row => exact .inr rfl
  | delete row => exact .inl rfl

/-- **Events other than updates** respect the policy exactly if it accepts no image of a row that it
rejects. -/
theorem respects_unless_update_iff :
    (∀ change, d.Captures change → change.op ≠ .update → d.RespectsOf change) ↔
      (d.s.hasPrivilege d.user d.table .select = true →
        ∀ row, d.Stores row → d.AcceptsImage row → d.Accepts row) := by
  constructor
  · intro h hpriv row hrow hread
    have hinsert : d.Captures (.insert row) := by
      rintro r (hr | hr) <;> cases hr
      exact hrow
    exact (d.respectsOf_iff.1 (h _ hinsert nofun) hpriv hread).1
  · intro h change hcapt hop
    refine d.respectsOf_iff.2 fun hpriv hread =>
      ⟨h hpriv _ (d.captures_decisive hcapt) hread, fun before after hchange => ?_⟩
    rw [hchange] at hop
    exact absurd rfl hop

end Subscription

/-- **Delivery respects row-level security** for every event exactly if the policy says nothing
about the rows, or the subscriber gets nothing. -/
theorem delivery_respects_iff {rt : EventRuntime} (d : Subscription rt) :
    d.Respects ↔ d.SaysNothing := by
  constructor
  · intro h
    by_contra hno
    obtain ⟨hpriv, hrejected, haccepted⟩ : d.s.hasPrivilege d.user d.table .select = true ∧
        (∃ row, d.Stores row ∧ ¬d.Accepts row) ∧ ∃ row, d.Stores row ∧ d.AcceptsImage row := by
      simpa [Subscription.SaysNothing] using hno
    obtain ⟨old, hold, hreject⟩ := hrejected
    obtain ⟨new, hnew, haccept⟩ := haccepted
    -- the update that turns the rejected row into the accepted one
    have hcapt : d.Captures (.update old new) := by
      rintro r (hr | hr) <;> cases hr
      · exact hold
      · exact hnew
    have hrows := (d.respectsOf_iff.1 (h _ hcapt) hpriv haccept).2
    exact hreject (hrows old new rfl)
  · intro h change hcapt
    refine d.respectsOf_iff.2 fun hpriv hread => ?_
    rcases h with hnone | hall | hblind
    · rw [hpriv] at hnone
      cases hnone
    · refine ⟨hall _ (d.captures_decisive hcapt), fun before after hchange => ?_⟩
      exact hall before (hcapt before (.inl (by rw [hchange]; rfl)))
    · exact absurd hread (hblind _ (d.captures_decisive hcapt))

/-! ## What survives the image -/

/-- Values of these columns are written to JSON as what they are. -/
def PlainType : ColumnType → Prop
  | .int64 | .bool | .text => True
  | _ => False

lemma policyAccepts_congr {rt : Runtime} {policy : Expr} {columns : List ColumnDef} {row row' : Row}
    (h : ∀ i ∈ exprColumns columns policy, row[i]? = row'[i]?) :
    policyAccepts rt policy columns row = policyAccepts rt policy columns row' := by
  simp only [policyAccepts, predicateMatches, evalExpr_congr h]

lemma literal_of_plain {rt : EventRuntime} {ty : ColumnType} {v : Literal} (hty : PlainType ty)
    (hv : Codec.Matches ty v) : realtimeJsonScalarToLiteral rt (literalJson rt v) = v := by
  cases v with
  | null | int _ | bool _ | text _ => rfl
  | _ => cases ty <;> simp_all [Codec.Matches, PlainType]

/-- Of distinct keys each leads to its own entry. -/
lemma lookup_of_nodup {k : String} {b : Json} {image : Image} (hkeys : (image.map Prod.fst).Nodup)
    (h : (k, b) ∈ image) : image.lookup k = some b := by
  induction image with
  | nil => cases h
  | cons e image ih =>
    rw [List.map_cons, List.nodup_cons] at hkeys
    rcases List.mem_cons.1 h with rfl | hmem
    · exact List.lookup_cons_self
    · have hne : k ≠ e.1 := fun heq => hkeys.1 (heq ▸ List.mem_map_of_mem hmem)
      rw [List.lookup_cons, beq_false_of_ne hne]
      exact ih hkeys.2 hmem

namespace Subscription
variable {rt : EventRuntime} {d : Subscription rt} {row : Row}

/-- **Plain columns survive**: if no two columns have one name and the policy reads columns of plain
types that were there at the capture, it accepts an image exactly if it accepts the row. -/
theorem reread_of_plain (hnames : (d.columns.map ColumnDef.name).Nodup) (hrow : d.Stores row)
    (hplain : ∀ i ∈ exprColumns d.t.columns d.policy, ∃ c, d.columns[i]? = some c ∧
      PlainType c.ty) :
    d.AcceptsImage row ↔ d.Accepts row := by
  have hsame : ∀ i ∈ exprColumns d.t.columns d.policy,
      (d.reread row)[i]? = (decodeRow rt.toRuntime d.t.columns row)[i]? := by
    intro i hi
    obtain ⟨c, hc, hty⟩ := hplain i hi
    obtain ⟨hlt, rfl⟩ := List.getElem?_eq_some_iff.1 hc
    have hrowlt : i < row.length := hrow.length_eq ▸ hlt
    have hcols : i < (d.columns.map ColumnDef.name).length := by simpa using hlt
    have htcols : i < d.t.columns.length := by simpa using hcols.trans_le d.altered.length_le
    have hname : d.columns[i].name = d.t.columns[i].name := by simpa using d.altered.getElem hcols
    have hmatch : Codec.Matches d.columns[i].ty row[i] := by
      refine hrow.typed (d.columns[i], row[i]) (List.mem_iff_getElem.2 ⟨i, by simp; omega, ?_⟩)
      exact List.getElem_zip
    have hentry : (d.t.columns[i].name, literalJson rt row[i]) ∈ rowImage rt d.columns row := by
      rw [rowImage, List.mem_reverse, List.mem_iff_getElem]
      refine ⟨i, by simp; omega, ?_⟩
      simp [List.getElem_zip, hname]
    have hkeys : ((rowImage rt d.columns row).map Prod.fst).Nodup := by
      rw [rowImage, List.map_reverse, List.nodup_reverse,
        List.map_fst_zip (by simp [hrow.length_eq])]
      exact hnames
    have hread : (d.reread row)[i]? = some row[i] := by
      simp [Subscription.reread, realtimeRowImageToLiterals, htcols, lookup_of_nodup hkeys hentry,
        literal_of_plain hty hmatch]
    rw [hread]
    simp [decodeRow, htcols, hrowlt]
  rw [Subscription.AcceptsImage, Subscription.Accepts, policyAccepts_congr hsame]

end Subscription

/-! ## An update that shows what it should not -/

/-- `alice` may see the rows she owns. -/
def documents : TableDef where
  name := "documents"
  columns := [{ name := "owner", ty := .text }, { name := "body", ty := .text }]
  rlsPolicy := some (.binOp .eq (.column "owner") .currentUser)

/-- `alice` listens to the documents. -/
def aliceListens : Subscription default where
  s := { AuthState.empty with
    users := AList.singleton "alice" false
    tableGrants := fun _ _ _ => some .all }
  principal := ⟨some "alice", []⟩
  user := "alice"
  subject := rfl
  restricted := by decide +kernel
  catalog t := if t = "documents" then some documents else none
  table := "documents"
  t := documents
  known := rfl
  policy := .binOp .eq (.column "owner") (.literal (.text "alice"))
  resolved := by decide +kernel
  columns := documents.columns
  altered := List.prefix_refl _

lemma stores_document (owner body : String) : aliceListens.Stores [.text owner, .text body] := by
  refine ⟨rfl, fun p hp => ?_⟩
  obtain rfl | rfl : p = ({ name := "owner", ty := .text }, .text owner) ∨
      p = ({ name := "body", ty := .text }, .text body) := by
    simpa [aliceListens, documents] using hp
  · rfl
  · rfl

/-- **An update shows the old row** to somebody who may see the new one only: `bob` gives a document
to `alice`. -/
theorem update_shows_old_row : ¬∀ (rt : EventRuntime) (d : Subscription rt), d.Respects := by
  intro h
  have hcapt : aliceListens.Captures
      (.update [.text "bob", .text "draft"] [.text "alice", .text "final"]) := by
    rintro r (hr | hr) <;> cases hr <;> exact stores_document _ _
  have haccept : aliceListens.AcceptsImage [.text "alice", .text "final"] := by
    unfold Subscription.AcceptsImage
    decide +kernel
  have hold := (aliceListens.respectsOf_iff.1 (h _ aliceListens _ hcapt) (by decide +kernel)
    haccept).2 _ _ rfl
  revert hold
  unfold Subscription.Accepts
  decide +kernel

end UniDb.Queue
