import UniDb.Storage.Mvcc

/-!
# System tables with a key index

The tables `__edges__`, `__lobs__` and `__events__`: heap rows with a key (`from_id`, `lob_id`,
`seq`), and a durable index from keys to rows. The index fetches candidates; every candidate is
looked up in the heap under the reader's snapshot. A row is named by its position in `rows`.

An index entry is written and removed at once, in a mini-transaction of its own: nothing of it is
undone when the transaction aborts.
-/

namespace UniDb.Side

structure Row (ρ : Type) where
  key : Int
  data : ρ
  xmin : Nat
  xmax : Nat
deriving Repr, DecidableEq

/-- Who reads: the snapshot of the statement, and the transaction it belongs to. -/
structure Reader where
  snapshot : Snapshot
  xid : Nat
deriving Repr, DecidableEq

structure Table (ρ : Type) where
  rows : List (Row ρ)
  /-- The entries of the tree, in the order of its leaves. -/
  index : List (Int × Nat)
deriving Repr, DecidableEq

variable {ρ : Type}

def Reader.sees (r : Reader) (row : Row ρ) : Bool :=
  isVisible row.xmin row.xmax r.snapshot r.xid

/-- Undo of the transactions in `undone`: a row of theirs is marked as deleted by its own writer, a
deletion mark of theirs is taken back. -/
def Row.undo (undone : Nat → Bool) (row : Row ρ) : Row ρ :=
  if undone row.xmin then { row with xmax := row.xmin }
  else if undone row.xmax then { row with xmax := 0 } else row

variable (undone : Nat → Bool)

@[simp] lemma Row.undo_key (row : Row ρ) : (row.undo undone).key = row.key := by
  unfold Row.undo
  split
  · rfl
  · split <;> rfl

@[simp] lemma Row.undo_data (row : Row ρ) : (row.undo undone).data = row.data := by
  unfold Row.undo
  split
  · rfl
  · split <;> rfl

@[simp] lemma Row.undo_xmin (row : Row ρ) : (row.undo undone).xmin = row.xmin := by
  unfold Row.undo
  split
  · rfl
  · split <;> rfl

lemma Row.undo_eq (row : Row ρ) :
    row.undo undone = { row with xmax := (row.undo undone).xmax } := by
  unfold Row.undo
  split
  · rfl
  · split <;> rfl

namespace Table

variable (t : Table ρ) (r : Reader)

def empty : Table ρ := ⟨[], []⟩

/-- `Heap::get`: nothing if no version is visible. -/
def get (i : Nat) : Option (Nat × Row ρ) :=
  t.rows[i]?.bind fun row => if r.sees row then some (i, row) else none

def searchEq (key : Int) : List Nat := (t.index.filter fun e => e.1 = key).map fun e => e.2

/-- The rows of the first entries above the key. -/
def firstAbove (key : Int) (limit : Nat) : List Nat :=
  ((t.index.filter fun e => key < e.1).take limit).map fun e => e.2

def searchRangeLimit (key : Int) (limit : Nat) : Except DbError (List Nat) := do
  withCapacity limit rowIdSize
  pure (t.firstAbove key limit)

def resolve (candidates : List Nat) : List (Nat × Row ρ) := candidates.filterMap (t.get r)

def scan : List (Nat × Row ρ) := t.resolve r (List.range t.rows.length)

def insertEntry (key : Int) (i : Nat) (index : List (Int × Nat)) : List (Int × Nat) :=
  index.orderedInsert (fun e f => e.1 ≤ f.1) (key, i)

def insert (x : Nat) (key : Int) (data : ρ) : Table ρ where
  rows := t.rows ++ [⟨key, data, x, 0⟩]
  index := insertEntry key t.rows.length t.index

/-- `Heap::delete` refuses a row that somebody has deleted. -/
def deletable (i : Nat) : Bool := t.rows[i]?.any fun row => row.xmax == 0

/-- The deletion mark in the heap, and the index entry gone. -/
def delete (x : Nat) (key : Int) (i : Nat) : Table ρ where
  rows := t.rows.modify i fun row => { row with xmax := x }
  index := t.index.filter fun e => e ≠ (key, i)

/-- The index stays as it is. -/
def undo (undone : Nat → Bool) : Table ρ where
  rows := t.rows.map (Row.undo undone)
  index := t.index

variable {t r} {i : Nat} {row : Row ρ}

lemma get_eq_some {p : Nat × Row ρ} :
    t.get r i = some p ↔ p.1 = i ∧ t.rows[i]? = some p.2 ∧ r.sees p.2 = true := by
  simp only [get]
  grind

lemma getElem?_delete {x j : Nat} {key : Int} {row' : Row ρ} :
    (t.delete x key i).rows[j]? = some row' ↔
      ∃ row, t.rows[j]? = some row ∧ row' = if i = j then { row with xmax := x } else row := by
  by_cases hij : i = j
  · simp [delete, hij, eq_comm]
  · simp [delete, hij]

lemma mem_resolve {candidates : List Nat} : (i, row) ∈ t.resolve r candidates ↔
      i ∈ candidates ∧ t.rows[i]? = some row ∧ r.sees row = true := by
  simp only [resolve, List.mem_filterMap, get_eq_some]
  grind

lemma mem_scan : (i, row) ∈ t.scan r ↔ t.rows[i]? = some row ∧ r.sees row = true := by
  rw [scan, mem_resolve, List.mem_range]
  refine and_iff_right_of_imp fun h => ?_
  exact (List.getElem?_eq_some_iff.1 h.1).1

end Table

end UniDb.Side
