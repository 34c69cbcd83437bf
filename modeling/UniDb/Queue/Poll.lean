import UniDb.Lib.Lists
import UniDb.Side.Table

/-!
# What one poll returns

`poll_events` and `poll_events_after` take the first `limit` index entries above an offset and then
drop those whose rows the snapshot does not see. `IsNext` is what a poll is for: the visible events
with the smallest numbers above the offset, as many as there are up to the limit, in ascending
order. `poll_isNext_iff`: the two agree exactly when a vector for `limit` row ids can be allocated,
and no entry without a visible event is among the candidates or no visible event is beyond them.
Entries of aborted, open or removed events use up the limit (`stale_entry_hides_event`).
-/

namespace UniDb.Queue

open Side List

variable {ρ : Type}

/-- `find_consumer_offset`: rows of `__consumers__` hold the offset as their key. -/
def findConsumerOffset (consumers : List (Side.Row String)) (r : Reader) (consumer : String) :
    Option Int :=
  (consumers.find? fun row => r.sees row && row.data == consumer).map fun row => row.key

section
variable (t : Side.Table ρ) (r : Reader) (afterSeq : Int) (limit : Nat)

/-- `poll_events_after`, with `resolve_event_candidates` stopping at the limit. -/
def pollEventsAfter : Except DbError (List (Nat × Side.Row ρ)) := do
  pure ((t.resolve r (← t.searchRangeLimit afterSeq limit)).take limit)

/-- The events of a poll that returns. -/
def eventsAfter : List (Nat × Side.Row ρ) :=
  (t.resolve r (t.firstAbove afterSeq limit)).take limit

def pollEvents (consumers : List (Side.Row String)) (r : Reader) (consumer : String)
    (limit : Nat) : Except DbError (List (Nat × Side.Row ρ)) :=
  pollEventsAfter t r ((findConsumerOffset consumers r consumer).getD 0) limit

def visibleAbove : List (Nat × Side.Row ρ) :=
  (t.scan r).filter fun e => afterSeq < e.2.key

/-- **The next events**: the `min limit k` of the `k` visible events above `afterSeq` with the
smallest numbers, ascending. -/
def IsNext (events : List (Nat × Side.Row ρ)) : Prop :=
  events.length = min limit (visibleAbove t r afterSeq).length ∧
    ∃ rest, ((events ++ rest).Pairwise fun e f => e.2.key ≤ f.2.key) ∧
      (events ++ rest).Perm (visibleAbove t r afterSeq)

/-- **A poll returns the next events.** -/
def ReturnsNext (result : Except DbError (List (Nat × Side.Row ρ))) : Prop :=
  ∃ events, result = .ok events ∧ IsNext t r afterSeq limit events

/-- A state of the event table and a snapshot that sees only events with an index entry. -/
structure Indexed (ρ : Type) where
  table : Side.Table ρ
  reader : Reader
  sorted : table.index.Pairwise fun e f => e.1 ≤ f.1
  nodup : table.index.Nodup
  keyed : ∀ e ∈ table.index, ∀ row, table.rows[e.2]? = some row → row.key = e.1
  covered : ∀ p ∈ table.scan reader, (p.2.key, p.1) ∈ table.index

end

namespace Indexed

variable (d : Indexed ρ) (afterSeq : Int) (limit : Nat)

def above : List (Int × Nat) := d.table.index.filter fun e => afterSeq < e.1

def event (e : Int × Nat) : Option (Nat × Side.Row ρ) := d.table.get d.reader e.2

/-- A vector for `limit` row ids is possible, and no entry without a visible event is among the
first `limit`, or no visible event beyond them. -/
def Unobstructed : Prop :=
  limit * rowIdSize ≤ isizeMax ∧ ((∀ e ∈ (d.above afterSeq).take limit, d.event e ≠ none) ∨
    ∀ e ∈ (d.above afterSeq).drop limit, d.event e = none)

lemma resolve_firstAbove : d.table.resolve d.reader (d.table.firstAbove afterSeq limit) =
      ((d.above afterSeq).take limit).filterMap d.event := by
  rw [Table.resolve, Table.firstAbove, filterMap_map]
  rfl

variable {d afterSeq limit}

lemma event_eq_some {e : Int × Nat} (he : e ∈ d.table.index) {p : Nat × Side.Row ρ}
    (hp : d.event e = some p) : e = (p.2.key, p.1) := by
  obtain ⟨hi, hrow, -⟩ := Table.get_eq_some.1 hp
  have hkey := d.keyed e he p.2 hrow
  exact Prod.ext hkey.symm hi.symm

lemma above_pairwise {R : Nat × Side.Row ρ → Nat × Side.Row ρ → Prop}
    {S : Int × Nat → Int × Nat → Prop} (h : d.table.index.Pairwise S)
    (hSR : ∀ p q : Nat × Side.Row ρ, S (p.2.key, p.1) (q.2.key, q.1) → R p q) :
    ((d.above afterSeq).filterMap d.event).Pairwise R := by
  refine pairwise_filterMap.2 ((h.filter _).imp_of_mem fun {e f} he hf hS p hp q hq => ?_)
  rw [event_eq_some (mem_filter.1 he).1 hp, event_eq_some (mem_filter.1 hf).1 hq] at hS
  exact hSR p q hS

lemma above_perm :
    ((d.above afterSeq).filterMap d.event).Perm (visibleAbove d.table d.reader afterSeq) := by
  refine (perm_ext_iff_of_nodup ?_ ?_).2 fun ⟨i, row⟩ => ?_
  · exact above_pairwise d.nodup fun p q hne hpq => hne (by rw [hpq])
  · refine List.Nodup.filter _ (List.Nodup.filterMap (fun i j p hi hj => ?_) nodup_range)
    exact (Table.get_eq_some.1 hi).1.symm.trans (Table.get_eq_some.1 hj).1
  · simp only [visibleAbove, mem_filterMap, mem_filter, Table.mem_scan]
    constructor
    · rintro ⟨e, he, hp⟩
      obtain ⟨he, habove⟩ := mem_filter.1 he
      obtain rfl := event_eq_some he hp
      exact ⟨(Table.get_eq_some.1 hp).2, by simpa using habove⟩
    · rintro ⟨⟨hrow, hsees⟩, habove⟩
      have hentry := d.covered (i, row) (Table.mem_scan.2 ⟨hrow, hsees⟩)
      refine ⟨(row.key, i), mem_filter.2 ⟨hentry, by simpa using habove⟩, ?_⟩
      exact Table.get_eq_some.2 ⟨rfl, hrow, hsees⟩

lemma isNext_eventsAfter_iff :
    IsNext d.table d.reader afterSeq limit (eventsAfter d.table d.reader afterSeq limit) ↔
      (∀ e ∈ (d.above afterSeq).take limit, d.event e ≠ none) ∨
        ∀ e ∈ (d.above afterSeq).drop limit, d.event e = none := by
  have hpoll : eventsAfter d.table d.reader afterSeq limit =
      ((d.above afterSeq).take limit).filterMap d.event := by
    rw [eventsAfter, resolve_firstAbove]
    refine take_of_length_le ((List.length_filterMap_le _ _).trans ?_)
    exact length_take_le _ _
  rw [IsNext, hpoll, ← above_perm.length_eq, length_filterMap_take]
  refine and_iff_left_of_imp fun _ => ⟨((d.above afterSeq).drop limit).filterMap d.event, ?_⟩
  rw [← filterMap_append, take_append_drop]
  exact ⟨above_pairwise d.sorted fun p q hle => hle, above_perm⟩

lemma returnsNext_pollEventsAfter_iff :
    ReturnsNext d.table d.reader afterSeq limit (pollEventsAfter d.table d.reader afterSeq limit) ↔
      d.Unobstructed afterSeq limit := by
  unfold ReturnsNext pollEventsAfter Table.searchRangeLimit withCapacity Unobstructed
  rw [← isNext_eventsAfter_iff]
  split
  · next hfits =>
    refine ⟨fun ⟨events, heq, hnext⟩ => ?_, fun h => ⟨_, rfl, h.2⟩⟩
    cases heq
    exact ⟨hfits, hnext⟩
  · next hfits =>
    refine ⟨fun ⟨events, heq, _⟩ => ?_, fun h => absurd h.1 hfits⟩
    cases heq

end Indexed

/-- **When a poll returns the next events**, for a consumer's offset and for a given number. -/
theorem poll_isNext_iff (d : Indexed ρ) (consumers : List (Side.Row String)) (consumer : String)
    (afterSeq : Int) (limit : Nat) :
    (ReturnsNext d.table d.reader afterSeq limit (pollEventsAfter d.table d.reader afterSeq limit) ↔
      d.Unobstructed afterSeq limit) ∧
    (ReturnsNext d.table d.reader ((findConsumerOffset consumers d.reader consumer).getD 0) limit
        (pollEvents d.table consumers d.reader consumer limit) ↔
      d.Unobstructed ((findConsumerOffset consumers d.reader consumer).getD 0) limit) :=
  ⟨Indexed.returnsNext_pollEventsAfter_iff, Indexed.returnsNext_pollEventsAfter_iff⟩

/-- The event 1 was rolled back, the event 2 committed; both have their entries. -/
def rolledBack : Indexed Unit where
  table := ⟨[⟨1, (), 1, 1⟩, ⟨2, (), 2, 0⟩], [(1, 0), (2, 1)]⟩
  reader := ⟨⟨3, 3, []⟩, 3⟩
  sorted := by decide
  nodup := by decide
  keyed := by decide
  covered := by decide

theorem stale_entry_hides_event :
    ¬∀ (d : Indexed Unit) (consumers : List (Side.Row String)) (consumer : String) (afterSeq : Int)
        (limit : Nat),
      ReturnsNext d.table d.reader afterSeq limit
        (pollEventsAfter d.table d.reader afterSeq limit) ∧
      ReturnsNext d.table d.reader ((findConsumerOffset consumers d.reader consumer).getD 0) limit
        (pollEvents d.table consumers d.reader consumer limit) := by
  intro hall
  obtain ⟨events, heq, hlength, -⟩ := (hall rolledBack [] "c" 0 1).2
  have hnone : pollEvents rolledBack.table [] rolledBack.reader "c" 1 = .ok [] := by decide
  cases hnone.symm.trans heq
  revert hlength
  decide

end UniDb.Queue
