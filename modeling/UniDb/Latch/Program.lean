import UniDb.Base
import UniDb.Engine.Schema

/-!
# What statements lock and latch (`sql/executor.rs`, `heap.rs`)

The resource operations of `INSERT`, `UPDATE` and `DELETE`, in the order in which the code makes
them. What a statement finds (the keys of a row, the page with room, the path of an update) is data
of the statement here, so that all outcomes are covered.

* Row locks are taken without waiting (`try_acquire_write`), key locks with (`acquire_blocking`).
* `Heap` latches one page at a time and releases it before anything else, except for the page of an
  `InsertAccum`: a multi-row `INSERT` keeps it latched from one row to the next.
* A trigger body is a list of statements without triggers of their own (no cascading).

Latches of index pages and the locks of the free-space map and the catalog are left out.
-/

namespace UniDb

namespace Latch

/-! ## Operations -/

inductive Lock where
  | row (rid : RowId)
  | key (id : LockId)
deriving DecidableEq, Repr

inductive Op where
  | lock (id : Lock)
  | tryLock (id : Lock)
  | latch (page : Nat)
  | unlatch
  /-- The latch goes into the `InsertAccum` of the running `INSERT`. -/
  | accumulate (page : Nat)
  /-- The innermost `InsertAccum` is dropped. -/
  | dropAccum
deriving DecidableEq, Repr

def once (page : Nat) : List Op := [.latch page, .unlatch]

def lockKeys (ids : List LockId) : List Op := ids.map fun id => .lock (.key id)

/-- The page that `acquire_page_for_insert` or `acquire_page_for_update` returns, after pages that
turned out to be full under their latch. -/
structure Place where
  full : List Nat
  page : Nat
deriving DecidableEq, Repr

def Place.probe (p : Place) : List Op := p.full.flatMap once

/-- `insert`, and the last part of `update`. -/
def Place.insert (p : Place) : List Op := p.probe ++ once p.page

/-- `insert_accumulating`: the page of the open accumulator is used if there is one and it has
room. -/
def insertAccumulating (opened room : Bool) (p : Place) : List Op :=
  if opened && room then []
  else (if opened then [.dropAccum] else []) ++ p.probe ++ [.accumulate p.page]

/-- How `apply_single_row_update` writes the heap. -/
inductive UpdatePath where
  | update (p : Place)
  | hotSamePage
  /-- `tried`: the free-space map did not rule out the old page, so that it was latched first. -/
  | hotCrossPage (tried : Bool) (p : Place)
deriving DecidableEq, Repr

def UpdatePath.ops (rid : RowId) : UpdatePath → List Op
  | .update p => .tryLock (.row rid) :: once rid.pageId ++ p.insert
  | .hotSamePage => .tryLock (.row rid) :: once rid.pageId
  | .hotCrossPage tried p =>
    .tryLock (.row rid) :: (if tried then once rid.pageId else []) ++ p.insert ++ once rid.pageId

/-! ## Rows

`τ` are the statements of trigger bodies. -/

variable {τ : Type}

/-- `try_insert_one_row`. -/
structure NewRow (τ : Type) where
  before : List τ
  locks : List LockId
  room : Bool
  place : Place
  event : Option Place
  after : List τ

structure RowUpdate (τ : Type) where
  rid : RowId
  before : List τ
  locks : List LockId
  path : UpdatePath
  event : Option Place
  after : List τ

inductive Outcome (τ : Type) where
  /-- Left out by `ON CONFLICT`. -/
  | skip
  | insert (row : NewRow τ)
  | update (row : RowUpdate τ)
  /-- A unique violation that `ON CONFLICT DO NOTHING` absorbs. -/
  | violation (before : List τ) (locks : List LockId)

structure InsertRow (τ : Type) where
  /-- The key lock of `probe_conflict_target`. -/
  probe : Option LockId
  outcome : Outcome τ

/-- A row of a `DELETE`, before any row is deleted. -/
structure DeleteRow (τ : Type) where
  before : List τ
  locks : List LockId
  event : Option Place

def eventOps (event : Option Place) : List Op := event.toList.flatMap Place.insert

variable (trigger : τ → List Op)

def NewRow.ops (opened : Bool) (r : NewRow τ) : List Op :=
  r.before.flatMap trigger ++ lockKeys r.locks ++ insertAccumulating opened r.room r.place ++
    eventOps r.event ++ r.after.flatMap trigger

def RowUpdate.ops (r : RowUpdate τ) : List Op :=
  r.before.flatMap trigger ++ lockKeys r.locks ++ r.path.ops r.rid ++ eventOps r.event ++
    r.after.flatMap trigger

def Outcome.ops (opened : Bool) : Outcome τ → List Op
  | .skip => []
  | .insert r => r.ops trigger opened
  | .update r => r.ops trigger
  | .violation before locks => before.flatMap trigger ++ lockKeys locks

def InsertRow.ops (opened : Bool) (r : InsertRow τ) : List Op :=
  lockKeys r.probe.toList ++ r.outcome.ops trigger opened

def InsertRow.opens (r : InsertRow τ) : Bool :=
  match r.outcome with
  | .insert _ => true
  | _ => false

/-- The row loop of `exec_insert` and `flush_insert_accum`. -/
def insertRows (trigger : τ → List Op) : Bool → List (InsertRow τ) → List Op
  | opened, [] => if opened then [.dropAccum] else []
  | opened, r :: rows => r.ops trigger opened ++ insertRows trigger (opened || r.opens) rows

def DeleteRow.ops (r : DeleteRow τ) : List Op :=
  r.before.flatMap trigger ++ lockKeys r.locks ++ eventOps r.event

/-! ## Statements -/

inductive StmtOf (τ : Type) where
  | insert (rows : List (InsertRow τ))
  | update (rows : List (RowUpdate τ))
  /-- `update_many`: the pages of the old versions, then those of the new ones. -/
  | updateMany (pages : List Nat) (fill events : List Place)
  /-- `hot_update_many`: the old pages once more, for the forward pointers. -/
  | hotUpdateMany (pages : List Nat) (fill events : List Place)
  /-- Checks of every row, `delete_many`, the `AFTER` triggers. -/
  | delete (rows : List (DeleteRow τ)) (pages : List Nat) (after : List τ)

def StmtOf.ops : StmtOf τ → List Op
  | .insert rows => insertRows trigger false rows
  | .update rows => rows.flatMap (RowUpdate.ops trigger)
  | .updateMany pages fill events =>
    pages.flatMap once ++ fill.flatMap Place.insert ++ events.flatMap Place.insert
  | .hotUpdateMany pages fill events =>
    pages.flatMap once ++ fill.flatMap Place.insert ++ pages.flatMap once ++
      events.flatMap Place.insert
  | .delete rows pages after =>
    rows.flatMap (DeleteRow.ops trigger) ++ pages.flatMap once ++ after.flatMap trigger

variable {trigger}

abbrev TriggerStmt : Type := StmtOf Empty

def TriggerStmt.ops (s : TriggerStmt) : List Op := StmtOf.ops Empty.elim s

abbrev Stmt : Type := StmtOf TriggerStmt

def Stmt.ops (s : Stmt) : List Op := StmtOf.ops TriggerStmt.ops s

/-! ## Brackets -/

/-- Every latch outside an accumulator is released by the next operation. -/
def Brief : List Op → Prop
  | [] => True
  | .latch _ :: ops => ops.head? = some .unlatch ∧ Brief ops
  | _ :: ops => Brief ops

/-- The operations drop `depth` open accumulators and all that they open. -/
def Closes : Nat → List Op → Prop
  | depth, [] => depth = 0
  | depth, .accumulate _ :: ops => Closes (depth + 1) ops
  | 0, .dropAccum :: _ => False
  | depth + 1, .dropAccum :: ops => Closes depth ops
  | depth, _ :: ops => Closes depth ops

section

variable {depth : Nat} {ops : List Op}

@[simp] lemma closes_lock (id : Lock) : Closes depth (.lock id :: ops) = Closes depth ops := by
  cases depth <;> rfl

@[simp] lemma closes_tryLock (id : Lock) :
    Closes depth (.tryLock id :: ops) = Closes depth ops := by
  cases depth <;> rfl

@[simp] lemma closes_latch (page : Nat) : Closes depth (.latch page :: ops) = Closes depth ops := by
  cases depth <;> rfl

@[simp] lemma closes_unlatch : Closes depth (.unlatch :: ops) = Closes depth ops := by
  cases depth <;> rfl

@[simp] lemma closes_accumulate (page : Nat) :
    Closes depth (.accumulate page :: ops) = Closes (depth + 1) ops := by
  cases depth <;> rfl

end

/-- Operations that release all they latch, wherever they are made. -/
structure Bracketed (ops : List Op) : Prop where
  brief : ∀ {rest}, Brief rest → Brief (ops ++ rest)
  closes : ∀ {depth rest}, Closes depth rest → Closes depth (ops ++ rest)

namespace Bracketed

lemma nil : Bracketed [] := ⟨id, id⟩

lemma append {a b : List Op} (ha : Bracketed a) (hb : Bracketed b) : Bracketed (a ++ b) := by
  constructor
  · intro rest hrest
    rw [List.append_assoc]
    exact ha.brief (hb.brief hrest)
  · intro depth rest hrest
    rw [List.append_assoc]
    exact ha.closes (hb.closes hrest)

lemma flatMap {α : Type} {f : α → List Op} {l : List α} (h : ∀ a ∈ l, Bracketed (f a)) :
    Bracketed (l.flatMap f) := by
  induction l with
  | nil => exact nil
  | cons a l ih =>
    exact (h a (.head _)).append (ih fun b hb => h b (.tail _ hb))

lemma once (page : Nat) : Bracketed (once page) := ⟨fun h => ⟨rfl, h⟩, id⟩

lemma lockKeys (ids : List LockId) : Bracketed (lockKeys ids) := by
  induction ids with
  | nil => exact nil
  | cons id ids ih => exact ⟨fun h => ih.brief h, fun h => ih.closes h⟩

lemma probe (p : Place) : Bracketed p.probe := flatMap fun page _ => once page

lemma insert (p : Place) : Bracketed p.insert := (probe p).append (once p.page)

lemma eventOps (event : Option Place) : Bracketed (eventOps event) := flatMap fun p _ => insert p

lemma tryLock {ops : List Op} (id : Lock) (h : Bracketed ops) : Bracketed (.tryLock id :: ops) :=
  ⟨fun hrest => h.brief hrest, fun hrest => h.closes hrest⟩

lemma updatePath (rid : RowId) (path : UpdatePath) : Bracketed (path.ops rid) := by
  cases path with
  | update p => exact tryLock _ ((once _).append (insert p))
  | hotSamePage => exact tryLock _ (once _)
  | hotCrossPage tried p =>
    refine tryLock _ (.append (.append ?_ (insert p)) (once _))
    split
    · exact once _
    · exact nil

lemma rowUpdate (htrigger : ∀ s, Bracketed (trigger s)) (r : RowUpdate τ) :
    Bracketed (r.ops trigger) :=
  ((((flatMap fun s _ => htrigger s).append (lockKeys _)).append (updatePath _ _)).append
    (eventOps _)).append (flatMap fun s _ => htrigger s)

lemma deleteRow (htrigger : ∀ s, Bracketed (trigger s)) (r : DeleteRow τ) :
    Bracketed (r.ops trigger) :=
  ((flatMap fun s _ => htrigger s).append (lockKeys _)).append (eventOps _)

end Bracketed

/-- Operations that start with an accumulator if `opened` and end with one if `opens`. -/
structure Accumulates (opened opens : Bool) (ops : List Op) : Prop where
  brief : ∀ {rest}, Brief rest → Brief (ops ++ rest)
  closes : ∀ {depth rest}, Closes (depth + opens.toNat) rest →
    Closes (depth + opened.toNat) (ops ++ rest)

namespace Accumulates

variable {opened opens : Bool}

lemma of_bracketed {ops : List Op} (h : Bracketed ops) : Accumulates opened opened ops :=
  ⟨h.brief, h.closes⟩

lemma append {a b : List Op} {mid : Bool} (ha : Accumulates opened mid a)
    (hb : Accumulates mid opens b) : Accumulates opened opens (a ++ b) := by
  constructor
  · intro rest hrest
    rw [List.append_assoc]
    exact ha.brief (hb.brief hrest)
  · intro depth rest hrest
    rw [List.append_assoc]
    exact ha.closes (hb.closes hrest)

lemma drop : Accumulates true false [.dropAccum] := ⟨id, id⟩

lemma accumulate (page : Nat) : Accumulates false true [.accumulate page] := ⟨id, id⟩

lemma insertAccumulating (room : Bool) (p : Place) :
    Accumulates opened true (insertAccumulating opened room p) := by
  cases opened with
  | false =>
    exact ((of_bracketed .nil).append (of_bracketed (.probe p))).append (accumulate p.page)
  | true =>
    cases room with
    | false =>
      exact (drop.append (of_bracketed (.probe p))).append (accumulate p.page)
    | true => exact of_bracketed .nil

lemma insertRow (htrigger : ∀ s, Bracketed (trigger s)) (r : InsertRow τ) :
    Accumulates opened (opened || r.opens) (r.ops trigger opened) := by
  obtain ⟨probe, outcome⟩ := r
  have hprobe : Accumulates opened opened (lockKeys probe.toList) := of_bracketed (.lockKeys _)
  cases outcome with
  | skip =>
    rw [InsertRow.opens, Bool.or_false]
    exact hprobe.append (of_bracketed .nil)
  | insert row =>
    rw [InsertRow.opens, Bool.or_true]
    have hchecked : Accumulates opened opened (row.before.flatMap trigger ++ lockKeys row.locks) :=
      of_bracketed ((Bracketed.flatMap fun s _ => htrigger s).append (.lockKeys _))
    have hinserted := hchecked.append (insertAccumulating row.room row.place)
    have hevent : Accumulates true true (eventOps row.event) := of_bracketed (.eventOps _)
    have hafter : Accumulates true true (row.after.flatMap trigger) :=
      of_bracketed (.flatMap fun s _ => htrigger s)
    exact hprobe.append ((hinserted.append hevent).append hafter)
  | update row =>
    rw [InsertRow.opens, Bool.or_false]
    exact hprobe.append (of_bracketed (.rowUpdate htrigger row))
  | violation before locks =>
    rw [InsertRow.opens, Bool.or_false]
    exact hprobe.append (of_bracketed
      ((Bracketed.flatMap fun s _ => htrigger s).append (.lockKeys _)))

/-- The row loop by induction on the rows, with the accumulator as the state. -/
lemma insertRows (htrigger : ∀ s, Bracketed (trigger s)) (rows : List (InsertRow τ)) :
    Accumulates opened false (insertRows trigger opened rows) := by
  induction rows generalizing opened with
  | nil =>
    cases opened with
    | false => exact of_bracketed .nil
    | true => exact drop
  | cons r rows ih => exact (insertRow htrigger r).append ih

end Accumulates

lemma bracketed_stmtOf (htrigger : ∀ s, Bracketed (trigger s))
    (s : StmtOf τ) : Bracketed (s.ops trigger) := by
  have hinserts : ∀ ps : List Place, Bracketed (ps.flatMap Place.insert) := fun ps =>
    .flatMap fun p _ => .insert p
  have honces : ∀ pages : List Nat, Bracketed (pages.flatMap once) := fun pages =>
    .flatMap fun page _ => .once page
  cases s with
  | insert rows =>
    have hrows : Accumulates false false (insertRows trigger false rows) :=
      Accumulates.insertRows htrigger rows
    exact ⟨hrows.brief, hrows.closes⟩
  | update rows => exact .flatMap fun r _ => .rowUpdate htrigger r
  | updateMany pages fill events =>
    exact ((honces pages).append (hinserts fill)).append (hinserts _)
  | hotUpdateMany pages fill events =>
    exact (((honces pages).append (hinserts fill)).append (honces pages)).append (hinserts _)
  | delete rows pages after =>
    exact ((Bracketed.flatMap fun r _ => .deleteRow htrigger r).append (honces pages)).append
      (.flatMap fun s _ => htrigger s)

/-- **A statement keeps no latch but that of an accumulator** from one operation to the next, and
none behind its end. -/
theorem bracketed_stmt (s : Stmt) : Bracketed s.ops :=
  bracketed_stmtOf (fun t => bracketed_stmtOf (fun e => e.elim) t) s

end Latch

end UniDb
