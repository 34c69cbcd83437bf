import UniDb.Lib.Lists
import UniDb.Side.Stream
import UniDb.Side.Table
import UniDb.Txn.Manager

/-!
# Edges, large objects and events under transactions

The three system tables and the transaction manager. An operation runs in a transaction `x` and
changes heap and index at once; `abort` and `restart` undo the heap only. Each table remembers the
entries that were removed from its index (`Tracked.removed`): the code does not keep this, the
statements about lost entries need it. Heap scans test the hint bits of a tuple first; here a row
has none, which is the same wherever they are right (`Snapshots.hinted_eq`).
-/

namespace UniDb.Side

structure Edge where
  toId : Int
  edgeType : String
  props : String
deriving Repr, DecidableEq

structure Chunk where
  chunkNo : Int
  bytes : List UInt8
deriving Repr, DecidableEq

/-! ## Tables that remember what left their index -/

structure Tracked (ρ : Type) extends Table ρ where
  removed : List (Int × Nat)
deriving Repr, DecidableEq

namespace Tracked

variable {ρ : Type} (t : Tracked ρ)

def empty : Tracked ρ := ⟨Table.empty, []⟩

def insert (x : Nat) (key : Int) (data : ρ) : Tracked ρ :=
  { t with toTable := t.toTable.insert x key data }

def delete (x : Nat) (key : Int) (i : Nat) : Tracked ρ where
  toTable := t.toTable.delete x key i
  removed := t.removed ++ t.index.filter fun e => e = (key, i)

/-- Delete rows one after the other, up to the first that cannot be deleted. -/
def deleteAll (x : Nat) : List (Nat × Row ρ) → Tracked ρ → Tracked ρ
  | [], t => t
  | (i, row) :: rest, t =>
    if t.deletable i then deleteAll x rest (t.delete x row.key i) else t

def undo (undone : Nat → Bool) : Tracked ρ := { t with toTable := t.toTable.undo undone }

def withEntries (entries : List (Int × Nat)) : List (Int × Nat) :=
  entries.foldr (fun e => Table.insertEntry e.1 e.2) t.index

/-- Removals that were not on disk when the system stopped. -/
def putBack (lost : List (Int × Nat)) : Tracked ρ where
  rows := t.rows
  index := t.withEntries (t.removed.filter fun e => e ∈ lost)
  removed := t.removed.filter fun e => e ∉ lost

/-- The table as the reader would have it if no row that the reader sees had left the index. -/
def restored (r : Reader) : Table ρ where
  rows := t.rows
  index := t.withEntries (t.removed.filter fun e => (t.get r e.2).isSome)

end Tracked

/-! ## Reading -/

/-- `edges_from` without the cache. The rows come page by page, so their order is not fixed. -/
def edgesFrom (t : Table Edge) (r : Reader) (fromId : Int) : List (Nat × Edge) :=
  (t.resolve r (t.searchEq fromId)).map fun e => (e.1, e.2.data)

/-- `ordered_chunk_rids` and `read_stream`: the bytes written to the sink and their number. -/
def readLargeObject (t : Table Chunk) (r : Reader) (lobId : Int) : List UInt8 × Nat :=
  let chunks := (t.resolve r (t.searchEq lobId)).insertionSort fun e f =>
    e.2.data.chunkNo ≤ f.2.data.chunkNo
  (chunks.flatMap fun e => e.2.data.bytes, (chunks.map fun e => e.2.data.bytes.length).sum)

/-- `snapshot_for_statement`: a fresh snapshot under READ COMMITTED. -/
def readerIn (T : TxnInner) (x : Nat) : Option Reader :=
  (T.active x).map fun txn =>
    ⟨if txn.isolation = .readCommitted then T.computeSnapshot else txn.snapshot, x⟩

/-! ## The system -/

structure Store where
  txns : TxnInner
  edges : Tracked Edge
  lobs : Tracked Chunk
  events : Tracked String
  nextLobId : Int
  nextEventSeq : Int

/-- Which removals of index entries were not on disk when the system stopped. -/
structure Lost where
  edges : List (Int × Nat)
  lobs : List (Int × Nat)
  events : List (Int × Nat)
deriving Repr, DecidableEq

namespace Store

def empty : Store where
  txns := ⟨1, fun _ => none⟩
  edges := .empty
  lobs := .empty
  events := .empty
  nextLobId := 1
  nextEventSeq := 1

variable (s : Store) (x : Nat) (lost : Lost)

def reader : Option Reader := readerIn s.txns x

def createEdge (fromId : Int) (edge : Edge) : Store :=
  { s with edges := s.edges.insert x fromId edge }

/-- The caller names the row and its `from_id`. -/
def deleteEdge (i : Nat) (fromId : Int) : Store :=
  { s with edges := s.edges.delete x fromId i }

def putChunks (x : Nat) (lobId : Int) : List (List UInt8) → Int → Tracked Chunk → Tracked Chunk
  | [], _, t => t
  | bytes :: rest, chunkNo, t =>
    putChunks x lobId rest (chunkNo + 1) (t.insert x lobId ⟨chunkNo, bytes⟩)

def putLargeObject (src : Source) : Store :=
  { s with
    nextLobId := s.nextLobId + 1
    lobs := putChunks x s.nextLobId (chunksOf src) 0 s.lobs }

def deleteLargeObject (r : Reader) (lobId : Int) : Store :=
  let chunks := (s.lobs.resolve r (s.lobs.searchEq lobId)).insertionSort fun e f =>
    e.2.data.chunkNo ≤ f.2.data.chunkNo
  { s with lobs := s.lobs.deleteAll x chunks }

def captureEvent (payload : String) : Store :=
  { s with
    nextEventSeq := s.nextEventSeq + 1
    events := s.events.insert x s.nextEventSeq payload }

/-- `vacuum_events` when `least` is the least offset it sees. -/
def vacuumEvents (r : Reader) (least : Int) : Store :=
  { s with events := s.events.deleteAll x ((s.events.scan r).filter fun e => e.2.key ≤ least) }

def undo (undone : Nat → Bool) : Store :=
  { s with
    edges := s.edges.undo undone
    lobs := s.lobs.undo undone
    events := s.events.undo undone }

def commit : Store := { s with txns := s.txns.remove x }

def abort : Store := { s.undo (fun y => y == x) with txns := s.txns.remove x }

/-- Recovery undoes what was running; the last index changes may not have been on disk. -/
def recover : Store :=
  let u := s.undo fun y => (s.txns.active y).isSome
  { u with
    txns := { s.txns with active := fun _ => none }
    edges := u.edges.putBack lost.edges
    lobs := u.lobs.putBack lost.lobs
    events := u.events.putBack lost.events }

/-- The next number after the greatest key that a fresh snapshot sees. -/
def deriveNext {ρ : Type} (t : Table ρ) (T : TxnInner) : Int :=
  ((t.scan ⟨T.computeSnapshot, T.nextXid⟩).map fun e => e.2.key).foldl max 0 + 1

def restart : Store :=
  let u := s.recover lost
  { u with
    nextLobId := deriveNext u.lobs.toTable u.txns
    nextEventSeq := deriveNext u.events.toTable u.txns }

end Store

inductive Action where
  | begin (isolation : IsolationLevel)
  | createEdge (x : Nat) (fromId : Int) (edge : Edge)
  | deleteEdge (x i : Nat) (fromId : Int)
  | putLargeObject (x : Nat) (src : Source)
  | deleteLargeObject (x : Nat) (lobId : Int)
  | captureEvent (x : Nat) (payload : String)
  | vacuumEvents (x : Nat) (least : Int)
  | commit (x : Nat)
  | abort (x : Nat)
  | restart (lost : Lost)

/-- A statement of an active transaction. -/
def Store.step (s : Store) : Action → Option Store
  | .begin isolation => some { s with txns := s.txns.begin isolation }
  | .createEdge x fromId edge => (s.reader x).map fun _ => s.createEdge x fromId edge
  | .deleteEdge x i fromId =>
    if s.edges.deletable i then (s.reader x).map fun _ => s.deleteEdge x i fromId else none
  | .putLargeObject x src => (s.reader x).map fun _ => s.putLargeObject x src
  | .deleteLargeObject x lobId => (s.reader x).map fun r => s.deleteLargeObject x r lobId
  | .captureEvent x payload => (s.reader x).map fun _ => s.captureEvent x payload
  | .vacuumEvents x least => (s.reader x).map fun r => s.vacuumEvents x r least
  | .commit x => (s.reader x).map fun _ => s.commit x
  | .abort x => (s.reader x).map fun _ => s.abort x
  | .restart lost => some (s.restart lost)

end UniDb.Side
