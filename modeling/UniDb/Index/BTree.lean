import UniDb.Sql.Literal

/-!
# The B-tree as a multimap (`btree_index.rs`)

A durable B+tree seen as the list of its leaf entries: key, include payload and row id. `search`
and its two variants are the leaf walks; they return the entries whose key stands in the asked
relation to the given one. `insert` and `patch` are the writers.
-/

namespace UniDb

/-- A leaf entry. `payload` is the encoded values of the `INCLUDE` columns, `none` for the empty
payload. -/
structure LeafEntry where
  key : OrderedValue
  rid : RowId
  payload : Option Row
deriving DecidableEq, Repr

abbrev DiskBTree := List LeafEntry

/-- A key that `op` admits against `value` in the order of the tree. -/
def CmpOp.admits (op : CmpOp) (value key : OrderedValue) : Bool := applyCmp op (key.cmp value)

namespace DiskBTree

variable (tree : DiskBTree) (key : OrderedValue) (old new : RowId)

/-- `search`: `none` for `Ne`, which has no range. -/
def search (op : CmpOp) (value : OrderedValue) : Option (List RowId) :=
  if op = .ne then none
  else some ((tree.filter fun e => op.admits value e.key).map LeafEntry.rid)

/-- `search_with_keys` and `search_with_keys_and_include`: nothing for `Ne`. -/
def searchWithKeys (op : CmpOp) (value : OrderedValue) : List LeafEntry :=
  if op = .ne then [] else tree.filter fun e => op.admits value e.key

def searchEq : List RowId :=
  (tree.filter fun e => e.key = key).map LeafEntry.rid

/-- The tree holds an entry `(key, rid)`. -/
def Has (rid : RowId) : Prop :=
  ∃ e ∈ tree, e.key = key ∧ e.rid = rid

instance (rid : RowId) : Decidable (tree.Has key rid) :=
  inferInstanceAs (Decidable (∃ e ∈ tree, e.key = key ∧ e.rid = rid))

/-- `insert`: an entry that is already there is not added again. -/
def insert (e : LeafEntry) : DiskBTree :=
  if tree.Has e.key e.rid then tree else tree ++ [e]

/-- The first entry `(key, old)` with its row id replaced, if there is one. -/
def redirect (key : OrderedValue) (old new : RowId) : DiskBTree → Option DiskBTree
  | [] => none
  | e :: tree =>
    if e.key = key ∧ e.rid = old then some ({ e with rid := new } :: tree)
    else (redirect key old new tree).map (e :: ·)

/-- One entry of `patch_many`: redirect `(key, old)`, or insert `(key, new)` where the entry is not
found. `miss` is the choice of the tree's shape: the descent may end on a leaf that does not hold
the entry although another one does. -/
def patch (miss : Bool) : DiskBTree :=
  match if miss then none else redirect key old new tree with
  | some tree' => tree'
  | none => tree.insert ⟨key, new, none⟩

/-- `update_rowid_inplace`, which walks on to the next leaf. -/
def updateRowidInplace : DiskBTree :=
  tree.patch key old new false

end DiskBTree

end UniDb
