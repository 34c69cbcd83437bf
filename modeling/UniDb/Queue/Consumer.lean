import UniDb.Base
import UniDb.Lib.Lists
import UniDb.Lib.Trace

/-!
# Polling the event table

The event table, its sequence index and the consumers' offsets, as transactions, `vacuum_events`,
restarts and one consumer `me` that polls and acknowledges change them.

* an event takes its number from `nextEventSeq` when it is written, and its index entry is there
  from then on, whatever becomes of the transaction (`sendEventCapture`);
* `pollEvents` reads the first `limit` index entries above the offset and keeps those whose row is
  visible; it panics if there can be no vector for `limit` row ids;
* `vacuumEvents` takes the least offset that its snapshot shows; it removes the index entries at
  once, and the rows when its transaction commits;
* reopening derives `nextEventSeq` from the visible rows.

A row is named by its position in `rows`. `received` is the consumer's own memory: the highest
number it got and has not acknowledged yet. Every poll and every acknowledgement of `me` is a
transaction of its own.
-/

namespace UniDb.Queue

open List

inductive TxnStatus where
  | running | committed | aborted
deriving Repr, DecidableEq

structure EventRow where
  seq : Int
  xmin : Nat
  xmax : Option Nat
deriving Repr, DecidableEq

structure QueueState where
  nextEventSeq : Int
  txns : List TxnStatus
  rows : List EventRow
  seqIndex : List (Int × Nat)
  consumers : List (String × Int)
  /-- What the consumers table was before: an older snapshot may still show it. -/
  past : List (List (String × Int))
  received : Option Int
  /-- The events that some poll of `me` returned. -/
  delivered : List Nat
deriving Repr, DecidableEq

namespace QueueState

def empty : QueueState where
  nextEventSeq := 1
  txns := []
  rows := []
  seqIndex := []
  consumers := []
  past := []
  received := none
  delivered := []

variable (s : QueueState) (x : Nat) (me : String) (view : List (String × Int))

def status : TxnStatus := s.txns.getD x .aborted

def visible (row : EventRow) : Bool :=
  s.status row.xmin == .committed && row.xmax.all fun y => s.status y != .committed

/-- `find_consumer_offset`, an unregistered consumer being at 0. -/
def offset : Int := (s.consumers.lookup me).getD 0

/-- The highest number the consumer received, acknowledged or not. -/
def cursor : Int := s.received.getD (s.offset me)

def Registered : Prop := (s.consumers.lookup me).isSome = true

instance (me : String) : Decidable (s.Registered me) := inferInstanceAs (Decidable (_ = true))

/-! ## The operations -/

def begin : QueueState := { s with txns := s.txns ++ [.running] }

def sendEventCapture : QueueState :=
  { s with
    nextEventSeq := s.nextEventSeq + 1
    rows := s.rows ++ [⟨s.nextEventSeq, x, none⟩]
    seqIndex := s.seqIndex.orderedInsert (fun e f => e.1 ≤ f.1) (s.nextEventSeq, s.rows.length) }

def commit : QueueState := { s with txns := s.txns.set x .committed }

/-- Undo takes the deletion marks of transactions back. -/
def unmark (undone : Nat → Bool) (rows : List EventRow) : List EventRow :=
  rows.map fun row => if row.xmax.any undone then { row with xmax := none } else row

/-- Index entries are not undone. -/
def abort : QueueState :=
  { s with
    txns := s.txns.set x .aborted
    rows := unmark (fun y => y == x) s.rows }

/-- The first entries above the offset. -/
def entriesAbove (offset : Int) (limit : Nat) : List (Int × Nat) :=
  (s.seqIndex.filter fun e => offset < e.1).take limit

def searchRangeLimit (offset : Int) (limit : Nat) : Except DbError (List (Int × Nat)) := do
  withCapacity limit rowIdSize
  pure (s.entriesAbove offset limit)

def resolve (e : Int × Nat) : Option (Nat × EventRow) :=
  s.rows[e.2]?.bind fun row => if s.visible row then some (e.2, row) else none

/-- `poll_events`: the candidates of the index whose rows are visible. -/
def pollEvents (offset : Int) (limit : Nat) : Except DbError (List (Nat × EventRow)) := do
  pure ((← s.searchRangeLimit offset limit).filterMap s.resolve)

/-- The consumer remembers the highest number it received. -/
def receive (events : List (Nat × EventRow)) : QueueState :=
  { s with
    received := (events.map fun e => e.2.seq).max?
    delivered := s.delivered ++ events.map fun e => e.1 }

def poll (limit : Nat) : QueueState :=
  match s.pollEvents (s.offset me) limit with
  | .ok events => s.receive events
  | .error _ => s

def ackEvents (consumer : String) (upToSeq : Int) : QueueState :=
  { s with
    consumers := (consumer, upToSeq) :: s.consumers.filter fun c => c.1 ≠ consumer
    past := s.consumers :: s.past }

/-- The consumer acknowledges the highest number it received. -/
def ack : QueueState :=
  { s.ackEvents me (s.cursor me) with received := none }

def minOffset : Option Int := (view.map fun c => c.2).min?

/-- A row that a vacuum in transaction `x` can delete: it sees the row, which nobody has deleted. -/
def deletable (i : Nat) : Bool :=
  s.rows[i]?.any fun row =>
    (s.status row.xmin == .committed || row.xmin == x) && row.xmax == none

/-- `vacuum_events` in transaction `x`, its snapshot showing the offsets `view` and rows `seen`. -/
def vacuumEvents (seen : List Nat) : QueueState :=
  match minOffset view with
  | none => s
  | some least =>
    { s with
      rows := s.rows.mapIdx fun i row =>
        if i ∈ seen ∧ row.seq ≤ least then { row with xmax := some x } else row
      seqIndex := s.seqIndex.filter fun e => ¬(e.2 ∈ seen ∧ e.1 ≤ least) }

def recover : QueueState :=
  { s with
    txns := s.txns.map fun t => if t = .running then .aborted else t
    rows := unmark (fun y => s.status y == .running) s.rows }

def deriveNextEventSeq : Int :=
  ((s.rows.filter s.visible).map fun row => row.seq).foldl max 0 + 1

def reopen : QueueState := { s.recover with nextEventSeq := s.recover.deriveNextEventSeq }

end QueueState

/-! ## Interleavings -/

inductive QueueAction where
  | begin
  | capture (x : Nat)
  | commit (x : Nat)
  | abort (x : Nat)
  | poll (limit : Nat)
  | ack
  | ackOther (consumer : String) (upToSeq : Int)
  | vacuum (x : Nat) (view : List (String × Int)) (seen : List Nat)
  | restart
deriving Repr, DecidableEq

/-- A consumer that received something acknowledges it before it polls again. -/
def QueueState.step (me : String) (s : QueueState) : QueueAction → Option QueueState
  | .begin => some s.begin
  | .capture x => if s.status x = .running then some (s.sendEventCapture x) else none
  | .commit x => if s.status x = .running then some (s.commit x) else none
  | .abort x => if s.status x = .running then some (s.abort x) else none
  | .poll limit => if s.received = none then some (s.poll me limit) else none
  | .ack => some (s.ack me)
  | .ackOther consumer upToSeq => if consumer ≠ me then some (s.ackEvents consumer upToSeq)
      else none
  | .vacuum x view seen =>
    if s.status x = .running ∧ (view = s.consumers ∨ view ∈ s.past) ∧
        seen.all (s.deletable x) = true then
      some (s.vacuumEvents x view seen)
    else none
  | .restart => some s.reopen

namespace QueueState

/-- A row that is there or may still be: no abort of its writer, no committed vacuum took it. -/
structure Live (s : QueueState) (i : Nat) (row : EventRow) : Prop where
  there : s.rows[i]? = some row
  written : s.status row.xmin ≠ .aborted
  kept : ∀ y, row.xmax = some y → s.status y ≠ .committed

def Reclaimed (s : QueueState) (i : Nat) : Prop :=
  ∃ row y, s.rows[i]? = some row ∧ row.xmax = some y ∧ s.status y = .committed

/-- No open vacuum has rows. -/
def NoneHeld (s : QueueState) : Prop :=
  ∀ row ∈ s.rows, ∀ y ∈ row.xmax, s.status y ≠ .running

/-! ## What an operation does to a row and to a transaction -/

variable {s s' : QueueState} {me : String} {x y i : Nat} {row : EventRow}

lemma lt_length_of_status (h : s.status x ≠ .aborted) : x < s.txns.length := by
  by_contra hx
  exact h (getD_eq_default _ _ (by omega))

lemma status_begin (h : x < s.txns.length) : s.begin.status x = s.status x := by
  simp [status, begin, getElem?_append_left h]

lemma status_set {t : TxnStatus} (h : s.status x = .running) :
    ({ s with txns := s.txns.set x t } : QueueState).status y = if y = x then
        t else s.status y := by
  have hx : x < s.txns.length := lt_length_of_status (by simp [h])
  by_cases hy : y = x
  · subst hy
    simp [status, hx]
  · simp [status, hy, Ne.symm hy]

lemma status_commit (h : s.status x = .running) :
    (s.commit x).status y = if y = x then .committed else s.status y :=
  status_set h

lemma status_abort (h : s.status x = .running) :
    (s.abort x).status y = if y = x then .aborted else s.status y :=
  status_set h

lemma getElem?_unmark {undone : Nat → Bool} {rows : List EventRow} :
    (unmark undone rows)[i]? = some row ↔ ∃ old, rows[i]? = some old ∧
      row = { old with xmax := old.xmax.filter fun y => !undone y } := by
  simp only [unmark, getElem?_map, Option.map_eq_some_iff]
  refine exists_congr fun ⟨seq, xmin, xmax⟩ => and_congr_right fun _ => ?_
  rw [eq_comm]
  cases xmax with
  | none => rfl
  | some y => cases hy : undone y <;> simp [hy, Option.filter_some]

lemma status_recover :
    s.recover.status y = if s.status y = .running then .aborted else s.status y := by
  simp only [status, recover, getD_eq_getElem?_getD, getElem?_map]
  cases s.txns[y]? <;> simp

variable {view : List (String × Int)} {seen : List Nat}

@[simp] lemma status_vacuumEvents : (s.vacuumEvents x view seen).status y = s.status y := by
  unfold vacuumEvents
  split <;> rfl

lemma getElem?_sendEventCapture : (s.sendEventCapture x).rows[i]? = some row ↔
      s.rows[i]? = some row ∨ i = s.rows.length ∧ row = ⟨s.nextEventSeq, x, none⟩ := by
  simp only [sendEventCapture]
  rcases lt_trichotomy i s.rows.length with hi | hi | hi
  · simp [getElem?_append_left hi, hi.ne]
  · simp [hi, eq_comm]
  · have hlen : s.rows.length ≤ i := hi.le
    rw [getElem?_append_right hlen, getElem?_eq_none hlen,
      getElem?_eq_none (Nat.le_sub_of_add_le' hi)]
    simp [hi.ne']

lemma getElem?_vacuumEvents {least : Int} (hleast : minOffset view = some least) :
    (s.vacuumEvents x view seen).rows[i]? = some row ↔ ∃ old, s.rows[i]? = some old ∧
      row = if i ∈ seen ∧ old.seq ≤ least then { old with xmax := some x } else old := by
  simp [vacuumEvents, hleast, eq_comm]

lemma lookup_ackEvents {consumer : String} {upToSeq : Int} :
    (s.ackEvents consumer upToSeq).consumers.lookup me =
      if me = consumer then some upToSeq else s.consumers.lookup me := by
  simp only [ackEvents, lookup_cons]
  by_cases hme : me = consumer
  · simp [hme]
  · rw [if_neg hme, beq_false_of_ne hme]
    exact lookup_filter_ne hme _

lemma visible_iff : s.visible row = true ↔
    s.status row.xmin = .committed ∧ ∀ y, row.xmax = some y → s.status y ≠ .committed := by
  cases hx : row.xmax <;> simp [visible, hx]

/-- The visible events behind the first entries above the offset. -/
def eventsAbove (s : QueueState) (offset : Int) (limit : Nat) : List (Nat × EventRow) :=
  (s.entriesAbove offset limit).filterMap s.resolve

lemma mem_eventsAbove {offset : Int} {limit : Nat} : (i, row) ∈ s.eventsAbove offset limit ↔
      ∃ q, (q, i) ∈ s.entriesAbove offset limit ∧ s.rows[i]? = some row ∧
        s.visible row = true := by
  simp only [eventsAbove, mem_filterMap, resolve]
  grind

/-- A poll that returns. -/
def polled (s : QueueState) (me : String) (limit : Nat) : QueueState :=
  s.receive (s.eventsAbove (s.offset me) limit)

lemma poll_of_fits {limit : Nat} (h : limit * rowIdSize ≤ isizeMax) :
    s.poll me limit = s.polled me limit := by
  simp [poll, pollEvents, searchRangeLimit, withCapacity, h, polled, eventsAbove, bind, Except.bind,
    pure, Except.pure]

lemma poll_cases (s : QueueState) (me : String) (limit : Nat) :
    s.poll me limit = s ∨ s.poll me limit = s.polled me limit := by
  by_cases h : limit * rowIdSize ≤ isizeMax
  · exact .inr (poll_of_fits h)
  · simp [poll, pollEvents, searchRangeLimit, withCapacity, h, bind, Except.bind]

end QueueState

end UniDb.Queue
