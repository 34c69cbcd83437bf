import UniDb.Index.Node
import UniDb.Lib.Run

/-!
# The log of index pages (`wal.rs`, `bufferpool.rs`, `checkpoint.rs`, `recovery.rs`)

Index pages with their log records, the buffer pool, checkpoints, and the redo pass of recovery. A
page write is one step, with its log record: the writers of `btree_index.rs` hold the page's latch
around both. Mini-transactions interleave, a checkpoint runs beside them step by step, and a page
may be evicted whenever its LSN is durable (D5).

A node is written in one of two ways:

* `write_raw` logs a full image (`WAL_INDEX`): splits, batches, patches, removals, the root pointer;
* an insert into a leaf with room logs the entry and its position (`WAL_INDEX_INSERT`), after a full
  image of the page as it was (`WAL_FPI`) if this is the first write since the last checkpoint.

The undo pass does not look at either, so recovery of index pages is the redo pass alone.
-/

namespace UniDb

open Function

namespace IndexLog

/-! ## Pages and records -/

/-- What an index page holds: a node of the tree, or the root pointer. -/
inductive Node where
  | leaf (entries : Leaf) (next : Option Nat)
  | internal (keys : List OrderedValue) (children : List Nat)
  | root (page : Nat)
deriving DecidableEq, Repr

structure Page where
  lsn : Nat
  node : Node
deriving DecidableEq, Repr

inductive Body where
  | begin
  | commit
  | checkpoint
  | fpi (page : Nat) (image : Page)
  | index (page : Nat) (image : Node)
  | indexInsert (page pos : Nat) (entry : NodeEntry)
deriving DecidableEq, Repr

structure WalRecord where
  lsn : Nat
  miniTxn : Nat
  body : Body
deriving DecidableEq, Repr

/-- The mini-transaction has a `WAL_COMMIT` record. -/
def committedIn (log : List WalRecord) (txn : Nat) : Bool :=
  log.any fun r => r.miniTxn = txn && r.body = .commit

/-! ## The store -/

/-- How far `checkpoint::run` is. -/
inductive Phase where
  | idle
  | synced
  | flushed
  | cleared
  | logged (lsn : Nat)
deriving DecidableEq, Repr

structure Store where
  mem : Nat → Option Page
  disk : Nat → Option Page
  log : List WalRecord
  durable : Nat
  nextMiniTxn : Nat
  fpiLogged : List Nat
  phase : Phase
  checkpointLsn : Nat

namespace Store

/-- A new database. LSNs and mini-transaction ids start with 1, 0 is `INVALID_LSN`. -/
def init : Store :=
  { mem := fun _ => none, disk := fun _ => none, log := [], durable := 0, nextMiniTxn := 1,
    fpiLogged := [], phase := .idle, checkpointLsn := 0 }

variable (s : Store) (txn page : Nat)

def append (txn : Nat) (body : Body) : Store :=
  { s with log := s.log ++ [⟨s.log.length + 1, txn, body⟩] }

def isOpen (txn : Nat) : Bool :=
  0 < txn && txn < s.nextMiniTxn && !committedIn s.log txn

/-- `write_raw`: log the image, write the page with its LSN, and remember that the page has an image
in this checkpoint interval. -/
def writeRaw (image : Node) : Store :=
  { s.append txn (.index page image) with
    mem := update s.mem page (some ⟨s.log.length + 1, image⟩)
    fpiLogged := page :: s.fpiLogged }

/-- `maybe_log_fpi` of a page that was just read. -/
def maybeLogFpi (image : Page) : Store :=
  if page ∈ s.fpiLogged then s
  else { s.append txn (.fpi page image) with fpiLogged := page :: s.fpiLogged }

/-- Log an entry and its position, and write the leaf with it. -/
def logIndexInsert (pos : Nat) (e : NodeEntry) (entries : Leaf) (next : Option Nat) : Store :=
  { s.append txn (.indexInsert page pos e) with
    mem := update s.mem page
      (some ⟨s.log.length + 1, .leaf (entries.insertIdx pos e) next⟩) }

/-- The leaf part of `insert_in_txn_with_include` without a split; a split writes images. -/
def insertEntry (pageSize : Nat) (s : Store) (txn page : Nat) (e : NodeEntry) : Option Store :=
  match s.mem page with
  | some ⟨lsn, .leaf entries next⟩ =>
    match binarySearchBy (fun x => Pair.cmp x.pair e.pair) entries with
    | .ok _ => some s
    | .error pos =>
      if Leaf.bodyLen (entries.insertIdx pos e) ≤ bodyCapacity pageSize then
        some ((s.maybeLogFpi txn page ⟨lsn, .leaf entries next⟩).logIndexInsert txn page pos e
          entries next)
      else none
  | _ => none

/-- `flush_page` of a page that is evicted: only if its LSN is durable. -/
def flush : Option Store :=
  match s.mem page with
  | some pg =>
    if pg.lsn ≤ s.durable then some { s with disk := update s.disk page (some pg) } else none
  | none => none

def writtenPages : List Nat :=
  s.log.filterMap fun r =>
    match r.body with
    | .index page _ | .indexInsert page _ _ => some page
    | _ => none

/-- `flush_all` of `checkpoint::run`: fails if a page is ahead of the durable log. -/
def flushAll : Store :=
  if s.writtenPages.all fun page => (s.mem page).all fun pg => pg.lsn ≤ s.durable then
    { s with disk := s.mem, phase := .flushed }
  else { s with phase := .idle }

/-- The next step of `checkpoint::run`: sync, flush, forget the page images, log the checkpoint,
write the control file. -/
def checkpoint : Store :=
  match s.phase with
  | .idle => { s with durable := s.log.length, phase := .synced }
  | .synced => s.flushAll
  | .flushed => { s with fpiLogged := [], phase := .cleared }
  | .cleared =>
    { s.append 0 .checkpoint with durable := s.log.length + 1, phase := .logged (s.log.length + 1) }
  | .logged lsn => { s with checkpointLsn := lsn, phase := .idle }

end Store

/-- What happens to the store. -/
inductive Action where
  | begin
  | writeRaw (txn page : Nat) (image : Node)
  | insertEntry (txn page : Nat) (e : NodeEntry)
  | commit (txn : Nat)
  | sync (upTo : Nat)
  | flush (page : Nat)
  | checkpoint
deriving DecidableEq, Repr

def step (pageSize : Nat) (s : Store) : Action → Option Store
  | .begin => some { s.append s.nextMiniTxn .begin with nextMiniTxn := s.nextMiniTxn + 1 }
  | .writeRaw txn page image => if s.isOpen txn then some (s.writeRaw txn page image) else none
  | .insertEntry txn page e => if s.isOpen txn then s.insertEntry pageSize txn page e else none
  | .commit txn => if s.isOpen txn then some (s.append txn .commit) else none
  | .sync upTo =>
    if s.durable ≤ upTo ∧ upTo ≤ s.log.length then some { s with durable := upTo } else none
  | .flush page => s.flush page
  | .checkpoint => some s.checkpoint

/-! ## Recovery -/

/-- `redo_index_insert_with_include` on a page, with the LSN gate of `redo_record`. A page that is
missing or not a leaf, or a position beyond its end, is skipped with a warning. -/
def redoIndexInsert (lsn pos : Nat) (e : NodeEntry) : Option Page → Option Page
  | some ⟨pageLsn, .leaf entries next⟩ =>
    if lsn ≤ pageLsn then some ⟨pageLsn, .leaf entries next⟩
    else if pos ≤ entries.length then some ⟨lsn, .leaf (entries.insertIdx pos e) next⟩
    else some ⟨pageLsn, .leaf entries next⟩
  | page => page

def redoRecord (pages : Nat → Option Page) (r : WalRecord) : Nat → Option Page :=
  match r.body with
  | .fpi page image => update pages page (some image)
  | .index page image => update pages page (some ⟨r.lsn, image⟩)
  | .indexInsert page pos e =>
    update pages page (redoIndexInsert r.lsn pos e (pages page))
  | _ => pages

/-- The pages after `recover`, if `n` records of the log survived the crash. -/
def recover (s : Store) (n : Nat) : Nat → Option Page :=
  ((relevant s n).filter fun r => committedIn (relevant s n) r.miniTxn).foldl redoRecord s.disk
where
  /-- The surviving records from the checkpoint on. -/
  relevant (s : Store) (n : Nat) : List WalRecord :=
    (s.log.take n).filter fun r => s.checkpointLsn ≤ r.lsn

/-! ## The contents of memory along the log -/

def writes (page : Nat) (r : WalRecord) : Bool :=
  match r.body with
  | .index q _ | .indexInsert q _ _ => q = page
  | _ => false

def applyRecord (page : Nat) (content : Option Page) (r : WalRecord) : Option Page :=
  match r.body with
  | .index q image => if q = page then some ⟨r.lsn, image⟩ else content
  | .indexInsert q pos e =>
    if q = page then
      match content with
      | some ⟨_, .leaf entries next⟩ => some ⟨r.lsn, .leaf (entries.insertIdx pos e) next⟩
      | other => other
    else content
  | _ => content

/-- The page in memory after the first `i` records. -/
def contentAt (log : List WalRecord) (page i : Nat) : Option Page :=
  (log.take i).foldl (applyRecord page) none

/-- **The page recovers atomically**: it is what it was in memory at a point of the log such that,
of the surviving writes to it, exactly those of committed mini-transactions come before. -/
def RecoversPage (s : Store) (n page : Nat) : Prop :=
  ∃ point ≤ n, recover s n page = contentAt s.log page point ∧
    ∀ i r, i < n → s.log[i]? = some r → writes page r = true →
      (committedIn (s.log.take n) r.miniTxn = true ↔ i < point)

/-- **Index pages recover atomically**, after a crash that left any number of records from the
durable ones on. -/
structure RecoversAtomically (s : Store) : Prop where
  mem : ∀ page, s.mem page = contentAt s.log page s.log.length
  recovers : ∀ n, s.durable ≤ n → n ≤ s.log.length → ∀ page, RecoversPage s n page

end IndexLog

end UniDb
