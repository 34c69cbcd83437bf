import UniDb.Index.Node

/-!
# The B+tree (`btree_index.rs`)

The durable tree with its shape: internal nodes, leaves, and the chain of `next` links through the
leaves, which is the order of the leaves in the tree. Page ids are not kept: a node stands where its
parent points to it. A call runs alone here, so what it reads is what the last write left.

Reads descend to the left of a separator equal to the key (`readRoute`), inserts to the right of it
(`insertRoute`). Loops whose end is not obvious carry a number of iterations: `none` is a call that
has not returned after that many.

The early release of latches in `insert_in_txn_with_include` does not change what one call writes,
and is left out.
-/

namespace UniDb

/-! ## Internal nodes -/

section
variable (pageSize : Nat) {n : Nat} (s : Sep OrderedValue (SepTree OrderedValue Leaf n))

/-- `write_node` of an internal node. -/
def writeRow : Except DbError (SepTree OrderedValue Leaf (n + 1)) :=
  if rowBodyLen s ≤ bodyCapacity pageSize then .ok (.node s) else .error .panicked

/-- `split_internal`: the middle key rises. The right half is written first. -/
def splitInternal : Except DbError (SepTree.Grown OrderedValue Leaf (n + 1)) :=
  match s.rest.drop (s.rest.length / 2) with
  | [] => .error .panicked
  | (up, c) :: right => do
    let r ← writeRow pageSize ⟨c, right⟩
    let l ← writeRow pageSize ⟨s.first, s.rest.take (s.rest.length / 2)⟩
    pure (l, some (up, r))

/-- An internal node that got a key and a child: written as it is, or split. -/
def absorbRow : Except DbError (SepTree.Grown OrderedValue Leaf (n + 1)) :=
  if rowBodyLen s ≤ bodyCapacity pageSize then .ok (.node s, none) else splitInternal pageSize s

end

/-! ## The tree -/

/-- A tree: the node that the meta page points to, with all nodes under it. -/
structure BPlusTree where
  height : Nat
  root : SepTree OrderedValue Leaf height

/-- The separators that `find_leaf` passes. -/
def readRoute (key : OrderedValue) : OrderedValue → Bool := fun sep => decide (sep < key)

/-- The separators that `route_insert_child` passes. -/
def insertRoute (key : OrderedValue) : OrderedValue → Bool := fun sep => decide (sep ≤ key)

namespace BPlusTree

def create : BPlusTree := ⟨0, .ofLeaf []⟩

variable (t : BPlusTree) (key : OrderedValue)

/-- The leaf chain with the separators between the leaves. -/
def flat : Sep OrderedValue Leaf := t.root.flat

/-- The entries in the order of the leaf chain. -/
def entries : List NodeEntry := t.flat.items.flatten

def findLeaf : Leaf := t.root.pick (readRoute key)

/-- The leaf an insert of `key` descends to. -/
def insertionLeaf : Leaf := t.root.pick (insertRoute key)

/-! ## Searches -/

/-- The inner loop of `search_eq` over one leaf; the flag is `past`. -/
def scanEq (key : OrderedValue) : Leaf → List RowId × Bool
  | [] => ([], false)
  | e :: l =>
    match e.key.cmp key with
    | .lt => scanEq key l
    | .eq => (scanEq key l).map (e.rid :: ·) id
    | .gt => ([], true)

/-- The walk of `search_eq` along the leaf chain. -/
def walkEq (key : OrderedValue) : List Leaf → List RowId
  | [] => []
  | l :: ls => (scanEq key l).1 ++ if (scanEq key l).2 then [] else walkEq key ls

def searchEq : List RowId :=
  walkEq key (t.root.itemsFrom (readRoute key))

end BPlusTree

inductive RangeOp where
  | lt
  | le
  | gt
  | ge
deriving DecidableEq, Repr

/-- `admit` in `search_range`. -/
def RangeOp.admits (op : RangeOp) (value key : OrderedValue) : Bool :=
  match op with
  | .lt => decide (key < value)
  | .le => decide (key ≤ value)
  | .gt => decide (value < key)
  | .ge => decide (value ≤ key)

namespace BPlusTree

/-- The inner loop of `search_range` over one leaf; the flag is `stop`. -/
def scanRange (op : RangeOp) (value : OrderedValue) : Leaf → List RowId × Bool
  | [] => ([], false)
  | e :: l =>
    if op.admits value e.key then (scanRange op value l).map (e.rid :: ·) id
    else if (op = .lt ∨ op = .le) ∧ value ≤ e.key then ([], true)
    else scanRange op value l

def walkRange (op : RangeOp) (value : OrderedValue) : List Leaf → List RowId
  | [] => []
  | l :: ls => (scanRange op value l).1 ++ if (scanRange op value l).2 then
      [] else walkRange op value ls

/-- `search_range`: `Lt` and `Le` from the leftmost leaf, `Gt` and `Ge` from `find_leaf`'s. -/
def searchRange (t : BPlusTree) (op : RangeOp) (value : OrderedValue) : List RowId :=
  walkRange op value (match op with
    | .lt | .le => t.flat.items
    | .gt | .ge => t.root.itemsFrom (readRoute value))

/-! ## Single writes -/

section
variable (pageSize : Nat) (t : BPlusTree) (key : OrderedValue)

def rootOf {n : Nat} : SepTree.Grown OrderedValue Leaf n → Except DbError BPlusTree
  | (t, none) => .ok ⟨n, t⟩
  | (t, some (k, t')) => do
    let root ← writeRow pageSize ⟨t, [(k, t')]⟩
    pure ⟨n + 1, root⟩

/-- Descend as an insert of `key` does and change the leaf there; splits propagate upwards. -/
def insertAt (op : Leaf → Except DbError (Leaf × Option (OrderedValue × Leaf))) :
    Except DbError BPlusTree := do
  let r ← t.root.update (insertRoute key) (absorbRow pageSize) op
  rootOf pageSize r

/-- `insert_in_txn_with_include`; `insert` is the case of the empty payload. -/
def insertWithInclude (e : NodeEntry) : Except DbError BPlusTree :=
  t.insertAt pageSize e.key (insertLeaf pageSize e)

def insert (x : Pair) : Except DbError BPlusTree :=
  t.insertWithInclude pageSize (.plain x)

def insertAll (t : BPlusTree) : List NodeEntry → Except DbError BPlusTree
  | [] => .ok t
  | e :: es => do
    let t' ← t.insertWithInclude pageSize e
    t'.insertAll es

def writeFound (l : Leaf) : Except DbError BPlusTree := do
  let l ← writeLeaf pageSize l
  pure ⟨t.height, t.root.set (readRoute key) l⟩

end

/-- `update_rowid_inplace` in one leaf: the first `(key, old)` is redirected. -/
def inplaceStep (key : OrderedValue) (old new : RowId) : Leaf → Walk Leaf
  | [] => .next
  | e :: l =>
    if key < e.key then .stop
    else if e.key = key ∧ e.rid = old then .write ({ e with rid := new } :: l)
    else (inplaceStep key old new l).map (e :: ·)

/-- `update_rowid_inplace`: along the leaf chain, and an insert if no leaf was written. The leaf
that is written takes the bytes it took before. -/
def updateRowidInplace (pageSize : Nat) (t : BPlusTree) (key : OrderedValue) (old new : RowId) :
    Except DbError BPlusTree :=
  match t.root.walk (inplaceStep key old new) (readRoute key) with
  | .write root => .ok ⟨t.height, root⟩
  | _ => t.insert pageSize (key, new)

/-- `remove` in one leaf: `past` holds of a leaf that ends with a greater key and of an empty
leaf. -/
def removeStep (x : Pair) (l : Leaf) : Walk Leaf :=
  if x ∈ Leaf.pairs l then .write (l.eraseP fun e => e.pair = x)
  else if ∀ e ∈ l.getLast?, x.1 < e.key then .stop
  else .next

def remove (t : BPlusTree) (x : Pair) : BPlusTree :=
  match t.root.walk (removeStep x) (readRoute x.1) with
  | .write root => ⟨t.height, root⟩
  | _ => t

/-! ## Batches -/

/-- The key lies between the first and the last key of a leaf. -/
def inSpan (lo hi : NodeEntry) (key : OrderedValue) : Bool := decide (lo.key ≤ key ∧ key ≤ hi.key)

/-- The merge of `insert_batch_in_txn`: of an entry in both lists the old one is kept. -/
def mergeBatch : List Pair → List Pair → List Pair
  | [], new => new
  | old, [] => old
  | o :: old, b :: new =>
    match Pair.cmp o b with
    | .lt => o :: mergeBatch old (b :: new)
    | .eq => o :: mergeBatch old new
    | .gt => b :: mergeBatch (o :: old) new
termination_by old new => old.length + new.length

/-- The absorption loop of `insert_many_in_txn` in a leaf with the span from `lo` to `hi`: the
entries of the leaf afterwards and the number of batch entries consumed. -/
def absorbRun (cap : Nat) (lo hi : NodeEntry) :
    Nat → List Pair → Nat → List Pair → List Pair × Nat
  | _, xs, absorbed, [] => (xs, absorbed)
  | body, xs, absorbed, x :: run =>
    if ¬ inSpan lo hi x.1 then (xs, absorbed)
    else
      match binarySearchBy (fun y => Pair.cmp y x) xs with
      | .ok _ => absorbRun cap lo hi body xs (absorbed + 1) run
      | .error pos =>
        if cap < body + pairLen x then (xs, absorbed)
        else absorbRun cap lo hi (body + pairLen x) (xs.insertIdx pos x) (absorbed + 1) run

section
variable (pageSize : Nat) (t : BPlusTree)

/-- `insert_batch_in_txn`: the tree and the number of entries consumed. Payloads of the leaf are
not carried over. -/
def insertBatch : List Pair → Except DbError (BPlusTree × Nat)
  | [] => .error .panicked
  | x :: batch =>
    match (t.insertionLeaf x.1).head?, (t.insertionLeaf x.1).getLast? with
    | some lo, some hi =>
      if ¬ inSpan lo hi x.1 then .ok (t, 0)
      else
        mergeInto t x.1 (mergeBatch (Leaf.pairs (t.insertionLeaf x.1))
          ((x :: batch).takeWhile fun y => inSpan lo hi y.1)) x
          ((x :: batch).takeWhile fun y => inSpan lo hi y.1).length
    | _, _ => do
      let t' ← t.insert pageSize x
      pure (t', 1)
where
  /-- One leaf, two leaves, or a single insert if two do not suffice. -/
  mergeInto (t : BPlusTree) (key : OrderedValue) (combined : List Pair) (x : Pair) (n : Nat) :
      Except DbError (BPlusTree × Nat) :=
    if Leaf.bodyLen (combined.map .plain) ≤ bodyCapacity pageSize then do
      let t' ← t.insertAt pageSize key fun _ => .ok (combined.map .plain, none)
      pure (t', n)
    else if Leaf.bodyLen (combined.map .plain) ≤ 2 * bodyCapacity pageSize then do
      let t' ← t.insertAt pageSize key fun _ => splitLeaf pageSize (combined.map .plain)
      pure (t', n)
    else do
      let t' ← t.insert pageSize x
      pure (t', 1)

/-- One pass of the outer loop of `insert_many_in_txn`: the tree and the number of entries
consumed. -/
def insertManyPass : List Pair → Except DbError (BPlusTree × Nat)
  | [] => .ok (t, 0)
  | x :: sorted =>
    match (t.findLeaf x.1).head?, (t.findLeaf x.1).getLast? with
    | some lo, some hi => absorb t (t.findLeaf x.1) lo hi x
        ((x :: sorted).takeWhile fun y => inSpan lo hi y.1)
    | _, _ => do
      let t' ← t.insert pageSize x
      pure (t', 1)
where
  /-- The entries `run` of the batch lie in the span of the leaf. -/
  absorb (t : BPlusTree) (l : Leaf) (lo hi : NodeEntry) (x : Pair) (run : List Pair) :
      Except DbError (BPlusTree × Nat) :=
    if 2 ≤ run.length ∧ bodyCapacity pageSize < Leaf.bodyLen l + (run.map pairLen).sum then
      t.insertBatch pageSize run
    else
      match absorbRun (bodyCapacity pageSize) lo hi (Leaf.bodyLen l) (Leaf.pairs l) 0 run with
      | (_, 0) =>
        if 2 ≤ run.length then t.insertBatch pageSize run
        else do
          let t' ← t.insert pageSize x
          pure (t', 1)
      | (xs, n + 1) => do
        let t' ← t.writeFound pageSize x.1 (Leaf.attach (l.map NodeEntry.payload) xs)
        pure (t', n + 1)

/-- The outer loop of `insert_many_in_txn`. -/
def insertManyLoop : Nat → BPlusTree → List Pair → Option (Except DbError BPlusTree)
  | _, t, [] => some (.ok t)
  | 0, _, _ :: _ => none
  | fuel + 1, t, x :: sorted =>
    match t.insertManyPass pageSize (x :: sorted) with
    | .error e => some (.error e)
    | .ok (t', n) => insertManyLoop fuel t' ((x :: sorted).drop n)

def insertMany (fuel : Nat) (t : BPlusTree) (batch : List Pair) :
    Option (Except DbError BPlusTree) :=
  insertManyLoop pageSize fuel t (batch.insertionSort fun x y => Pair.cmp x y ≠ .gt)

end

/-- A redirection: key, old and new row id. -/
structure Patch where
  key : OrderedValue
  old : RowId
  new : RowId
deriving DecidableEq, Repr

/-- The entries of a leaf with the first `(key, old)` redirected, if there is one. -/
def patchLeaf (p : Patch) : Leaf → Option Leaf
  | [] => none
  | e :: l =>
    if e.key = p.key ∧ e.rid = p.old then some ({ e with rid := p.new } :: l)
    else (patchLeaf p l).map (e :: ·)

/-- The inner loop of `patch_many`: the leaf, whether it was modified, and what is left for single
inserts. -/
def patchRun : Leaf → Bool → List Pair → List Patch → Leaf × Bool × List Pair
  | l, modified, fallbacks, [] => (l, modified, fallbacks)
  | l, modified, fallbacks, p :: ps =>
    match patchLeaf p l with
    | some l' => patchRun l' true fallbacks ps
    | none => patchRun l modified (fallbacks ++ [(p.key, p.new)]) ps

section
variable (pageSize : Nat)

/-- One pass of the outer loop of `patch_many`. The first patch is processed even if its key lies
outside the span of the leaf. -/
def patchManyPass (t : BPlusTree) : List Patch → Except DbError (BPlusTree × Nat)
  | [] => .ok (t, 0)
  | p :: sorted =>
    match (t.findLeaf p.key).head?, (t.findLeaf p.key).getLast? with
    | some lo, some hi => do
      let t' ← writePatched t p.key (patchRun (t.findLeaf p.key) false []
        (p :: sorted.takeWhile fun q => inSpan lo hi q.key))
      pure (t', (sorted.takeWhile fun q => inSpan lo hi q.key).length + 1)
    | _, _ => do
      let t' ← t.insert pageSize (p.key, p.new)
      pure (t', 1)
where
  /-- The leaf if it was modified, then the single inserts. -/
  writePatched (t : BPlusTree) (key : OrderedValue) : Leaf × Bool × List Pair →
    Except DbError BPlusTree
    | (l, true, fallbacks) => do
      let t' ← t.writeFound pageSize key l
      t'.insertAll pageSize (fallbacks.map .plain)
    | (_, false, fallbacks) => t.insertAll pageSize (fallbacks.map .plain)

/-- The outer loop of `patch_many`. -/
def patchManyLoop : Nat → BPlusTree → List Patch → Option (Except DbError BPlusTree)
  | _, t, [] => some (.ok t)
  | 0, _, _ :: _ => none
  | fuel + 1, t, p :: sorted =>
    match t.patchManyPass pageSize (p :: sorted) with
    | .error e => some (.error e)
    | .ok (t', n) => patchManyLoop fuel t' ((p :: sorted).drop n)

def patchMany (fuel : Nat) (t : BPlusTree) (patches : List Patch) :
    Option (Except DbError BPlusTree) :=
  patchManyLoop pageSize fuel t
    (patches.insertionSort fun p q => Pair.cmp (p.key, p.old) (q.key, q.old) ≠ .gt)

end

/-! ## Calls -/

inductive Call where
  | insert (x : Pair)
  | insertWithInclude (e : NodeEntry)
  | insertMany (batch : List Pair)
  | insertManyWithInclude (batch : List NodeEntry)
  | patchMany (patches : List Patch)
  | updateRowidInplace (key : OrderedValue) (old new : RowId)
  | remove (x : Pair)
deriving DecidableEq, Repr

/-- A call that is given `fuel` passes of its outer loop. -/
def Call.run (pageSize fuel : Nat) (t : BPlusTree) : Call → Option (Except DbError BPlusTree)
  | .insert x => some (t.insert pageSize x)
  | .insertWithInclude e => some (t.insertWithInclude pageSize e)
  | .insertMany batch => BPlusTree.insertMany pageSize fuel t batch
  | .insertManyWithInclude batch => some (t.insertAll pageSize batch)
  | .patchMany patches => BPlusTree.patchMany pageSize fuel t patches
  | .updateRowidInplace key old new => some (t.updateRowidInplace pageSize key old new)
  | .remove x => some (.ok (t.remove x))

def callStep (pageSize : Nat) (t : BPlusTree) (c : Call × Nat) : Option BPlusTree :=
  match c.1.run pageSize c.2 t with
  | some (.ok t') => some t'
  | _ => none

end BPlusTree

end UniDb
