import UniDb.Latch.Program
import UniDb.Lib.Graph
import UniDb.Lib.Run

/-!
# Waiting for latches and locks (`lockmgr.rs`, `bufferpool.rs`)

Transactions run statements operation by operation, in any interleaving. A page latch is exclusive
and not reentrant; a lock belongs to a transaction until its end. A refused lock request parks its
thread, unless the wait-for graph would get a cycle: then the statement fails. Grants and releases
wake all parked threads, which ask again.
-/

namespace UniDb

open Function

namespace Latch

open Relation

/-! ## The system -/

structure Thread where
  /-- What is left of the running statement. -/
  ops : List Op
  latches : List Nat
  /-- The pages of the open accumulators, the innermost first. -/
  accum : List Nat
  /-- The next operation was refused. -/
  waiting : Bool
deriving DecidableEq, Repr

def Thread.idle : Thread := { ops := [], latches := [], accum := [], waiting := false }

structure System where
  threads : Nat → Thread
  /-- The thread that holds the latch of a page. -/
  writer : Nat → Option Nat
  /-- The transaction that holds a lock; every caller asks for `Exclusive`. -/
  holder : Lock → Option Nat
  waitsFor : List (Nat × List Nat)
  /-- Threads that sleep in `acquire`. -/
  parked : List Nat
  active : List Nat

namespace System

def init : System :=
  { threads := fun _ => .idle, writer := fun _ => none, holder := fun _ => none, waitsFor := [],
    parked := [], active := [] }

variable (s : System) (t : Nat) (id : Lock) (rest : List Op)

def setThread (th : Thread) : System := { s with threads := update s.threads t th }

def proceed : System :=
  s.setThread t { s.threads t with ops := rest, waiting := false }

def block : System := s.setThread t { s.threads t with waiting := true }

/-- The statement returns an error: its guards are dropped, its locks stay. -/
def fail : System :=
  { s with
    threads := update s.threads t .idle
    writer := fun page => if s.writer page = some t then none else s.writer page }

/-! ### The lock manager -/

def canGrant : Bool := (s.holder id).all (· = t)

def blockers : List Nat := (s.holder id).toList.filter (· ≠ t)

def grant : System :=
  { s with
    holder := update s.holder id (some t)
    waitsFor := s.waitsFor.filter fun e => e.1 ≠ t
    parked := [] }

def hasCycle (waitsFor : List (Nat × List Nat)) (start : Nat) : Bool :=
  dfs waitsFor start [] (successors waitsFor start).reverse

/-- One round of the loop of `acquire` with `WaitPolicy::Wait`. -/
def acquireBlocking : System :=
  if s.canGrant t id then (s.grant t id).proceed t rest
  else
    let others := s.waitsFor.filter fun e => e.1 ≠ t
    let waitsFor := (t, s.blockers t id) :: others
    if hasCycle waitsFor t then { s with waitsFor := others, parked := [] }.fail t
    else { s with waitsFor := waitsFor, parked := t :: s.parked }.block t

def tryAcquireWrite : System :=
  if s.canGrant t id then (s.grant t id).proceed t rest else s.fail t

def releaseAll : System :=
  { s with
    holder := fun id => if s.holder id = some t then none else s.holder id
    waitsFor := (s.waitsFor.filter fun e => e.1 ≠ t).map fun e => (e.1, e.2.filter (· ≠ t))
    parked := [] }

/-! ### Latches -/

def latchExclusive (page : Nat) (rest : List Op) : System :=
  match s.writer page with
  | some _ => s.block t
  | none =>
    { s with writer := update s.writer page (some t) }.setThread t
      { s.threads t with ops := rest, latches := page :: (s.threads t).latches, waiting := false }

/-- `latch_exclusive` for an accumulator. -/
def latchAccum (page : Nat) (rest : List Op) : System :=
  match s.writer page with
  | some _ => s.block t
  | none =>
    { s with writer := update s.writer page (some t) }.setThread t
      { s.threads t with ops := rest, accum := page :: (s.threads t).accum, waiting := false }

def unlatch : System :=
  match (s.threads t).latches with
  | [] => s.proceed t rest
  | page :: latches =>
    { s with writer := update s.writer page none }.setThread t
      { s.threads t with ops := rest, latches := latches, waiting := false }

def dropAccum : System :=
  match (s.threads t).accum with
  | [] => s.proceed t rest
  | page :: accum =>
    { s with writer := update s.writer page none }.setThread t
      { s.threads t with ops := rest, accum := accum, waiting := false }

def run : Option System :=
  if t ∈ s.parked then none
  else
    match (s.threads t).ops with
    | [] => none
    | .lock id :: rest => some (s.acquireBlocking t id rest)
    | .tryLock id :: rest => some (s.tryAcquireWrite t id rest)
    | .latch page :: rest => some (s.latchExclusive t page rest)
    | .unlatch :: rest => some (s.unlatch t rest)
    | .accumulate page :: rest => some (s.latchAccum t page rest)
    | .dropAccum :: rest => some (s.dropAccum t rest)

end System

inductive Action where
  | begin (t : Nat)
  | exec (t : Nat) (stmt : Stmt)
  /-- The undo part of an abort: one page after the other. -/
  | undo (t : Nat) (pages : List Nat)
  /-- The end of a commit or an abort. -/
  | finish (t : Nat)
  | run (t : Nat)
  | fail (t : Nat)
  /-- A spurious wake-up. -/
  | wake (t : Nat)

variable (s : System) (t u : Nat) (page : Nat)

def System.start (ops : List Op) : Option System :=
  if t ∈ s.active ∧ (s.threads t).ops = [] then some (s.proceed t ops) else none

def step : Action → Option System
  | .begin t => if t ∈ s.active then none else some { s with active := t :: s.active }
  | .exec t stmt => s.start t stmt.ops
  | .undo t pages => s.start t (pages.flatMap once)
  | .finish t =>
    if t ∈ s.active ∧ (s.threads t).ops = [] then
      some { s.releaseAll t with active := s.active.filter (· ≠ t) }
    else none
  | .run t => s.run t
  | .fail t => if t ∈ s.parked ∨ (s.threads t).ops = [] then none else some (s.fail t)
  | .wake t => some { s with parked := s.parked.filter (· ≠ t) }

/-! ## Waiting -/

def Op.requests (op : Op) : Prop := op = .latch page ∨ op = .accumulate page

def WaitsForLatch : Prop :=
  (s.threads t).waiting = true ∧ (∃ op ∈ (s.threads t).ops.head?, op.requests page) ∧
    s.writer page = some u

def WaitsForLock : Prop :=
  (s.threads t).waiting = true ∧ ∃ id, (s.threads t).ops.head? = some (.lock id) ∧
    s.holder id = some u ∧ u ≠ t

def Waits : Prop := (∃ page, WaitsForLatch s t u page) ∨ WaitsForLock s t u

/-- `t` sleeps until `u` releases a lock. -/
def Parked : Prop := t ∈ s.parked ∧ WaitsForLock s t u

/-- **No thread hangs on a latch.** -/
structure LatchesFree (s : System) : Prop where
  own : ∀ t page, ¬ WaitsForLatch s t t page
  cycles : ∀ t u page, WaitsForLatch s t u page → ¬ TransGen (Waits s) u t
  /-- Deadlock detection leaves no cycle of sleeping threads. -/
  detected : ∀ t, ¬ TransGen (Parked s) t t

/-! ## Allowed steps -/

/-- An `INSERT` keeps the page latched. -/
def Kept : Prop := ∃ u ∈ s.active, page ∈ (s.threads u).accum

instance (s : System) (page : Nat) : Decidable (Kept s page) :=
  inferInstanceAs (Decidable (∃ u ∈ s.active, page ∈ (s.threads u).accum))

def Thread.WaitsAt (th : Thread) (page : Nat) : Prop :=
  th.waiting = true ∧ (th.ops.head? = some (.latch page) ∨ th.ops.head? = some (.accumulate page))

instance (th : Thread) (page : Nat) : Decidable (th.WaitsAt page) :=
  inferInstanceAs (Decidable (_ ∧ _))

/-- **Requests that let no latch into a cycle.** While an `INSERT` keeps a page latched from one row
to the next, the key locks it asks for are free or its own, and no `INSERT` keeps a page that it
asks for, neither when it asks nor while it waits. -/
def MayRequest : Option Op → Prop
  | some (.lock id) => (s.threads t).accum ≠ [] → s.canGrant t id = true
  | some (.latch page) => (s.threads t).accum ≠ [] → ¬ Kept s page
  | some (.accumulate page) =>
    ((s.threads t).accum ≠ [] → ¬ Kept s page) ∧
      ∀ u ∈ s.active, u ≠ t → (s.threads u).accum ≠ [] → ¬ (s.threads u).WaitsAt page
  | _ => True

instance MayRequest.decidable (op : Option Op) : Decidable (MayRequest s t op) := by
  unfold MayRequest
  split <;> infer_instance

def Allowed : Action → Prop
  | .run t => MayRequest s t (s.threads t).ops.head?
  | _ => True

instance Allowed.decidable (a : Action) : Decidable (Allowed s a) := by
  cases a <;> dsimp only [Allowed] <;> infer_instance

end Latch

end UniDb
