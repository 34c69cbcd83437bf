import UniDb.Base
import UniDb.Lib.BinarySearch
import UniDb.Lib.Checked
import UniDb.Lib.SepOrder
import UniDb.Sql.Literal

/-!
# Nodes of the B+tree (`btree_index.rs`)

The order of keys, what a node takes on its page, and how a leaf takes up an entry. A leaf is the
list of its entries; an internal node is a row of children with keys between them (`Sep`). A node
that does not fit its page cannot be written: `Node::serialize` copies past the end of the page and
panics.
-/

namespace UniDb

open List

/-! ## The order of keys -/

namespace OrderedValue

/-- Integers, then texts, then booleans. -/
def toSum : OrderedValue → Int ⊕ₗ (String ⊕ₗ Bool)
  | .int n => Sum.inlₗ n
  | .text s => Sum.inrₗ (Sum.inlₗ s)
  | .bool b => Sum.inrₗ (Sum.inrₗ b)

instance : Preorder OrderedValue where
  le a b := a.toSum ≤ b.toSum
  lt a b := a.toSum < b.toSum
  le_refl a := le_refl a.toSum
  le_trans _ _ _ := le_trans
  lt_iff_le_not_ge _ _ := lt_iff_le_not_ge

lemma lt_iff (a b : OrderedValue) : a < b ↔ a.toSum < b.toSum := Iff.rfl

lemma compares_of_compare {α : Type} [LinearOrder α] {a b : α} {x y : OrderedValue}
    (hlt : a < b → x < y) (heq : a = b → x = y) (hgt : b < a → y < x) :
    (compare a b).Compares x y := by
  rcases lt_trichotomy a b with h | h | h
  · rw [compare_lt_iff_lt.2 h]
    exact hlt h
  · rw [compare_eq_iff_eq.2 h]
    exact heq h
  · rw [compare_gt_iff_gt.2 h]
    exact hgt h

lemma cmp_compares (a b : OrderedValue) : (a.cmp b).Compares a b := by
  cases a <;> cases b <;>
    first
    | exact compares_of_compare (by simp [lt_iff, toSum]) (by simp) (by simp [lt_iff, toSum])
    | simp [cmp, lt_iff, toSum]

/-- The derived `Ord` is a linear order. -/
instance : LinearOrder OrderedValue := linearOrderOfCompares cmp cmp_compares

end OrderedValue

/-- `rowid_key`: row ids by page, then by slot. -/
def RowId.cmp (a b : RowId) : Ordering := (compare a.pageId b.pageId).then (compare a.slot b.slot)

lemma RowId.cmp_eq_iff {a b : RowId} : a.cmp b = .eq ↔ a = b := by
  obtain ⟨p, s⟩ := a
  obtain ⟨p', s'⟩ := b
  simp [RowId.cmp]

abbrev Pair : Type := OrderedValue × RowId

/-- The order of entries: by key, equal keys by row id. -/
def Pair.cmp (a b : Pair) : Ordering := (a.1.cmp b.1).then (a.2.cmp b.2)

variable {a b : Pair}

lemma Pair.cmp_eq_iff : Pair.cmp a b = .eq ↔ a = b := by
  obtain ⟨k, r⟩ := a
  obtain ⟨k', r'⟩ := b
  simp [Pair.cmp, OrderedValue.cmp_eq_iff, RowId.cmp_eq_iff]

lemma Pair.le_of_cmp_ne_gt (h : Pair.cmp a b ≠ .gt) : a.1 ≤ b.1 := by
  have hc := OrderedValue.cmp_compares a.1 b.1
  cases hcmp : a.1.cmp b.1 with
  | gt => simp [Pair.cmp, hcmp] at h
  | _ =>
    rw [hcmp] at hc
    exact hc.le

lemma Pair.ge_of_cmp_ne_lt (h : Pair.cmp a b ≠ .lt) : b.1 ≤ a.1 := by
  have hc := OrderedValue.cmp_compares a.1 b.1
  cases hcmp : a.1.cmp b.1 with
  | lt => simp [Pair.cmp, hcmp] at h
  | eq =>
    rw [hcmp] at hc
    exact le_of_eq (Eq.symm hc)
  | gt =>
    rw [hcmp] at hc
    exact le_of_lt hc

/-! ## Sizes -/

def pageHeaderSize : Nat := 28

def rowidLen : Nat := 6

def bodyCapacity (pageSize : Nat) : Nat := pageSize - pageHeaderSize

def encodedKeyLen : OrderedValue → Nat
  | .int _ => 1 + 8
  | .text s => 1 + 2 + s.utf8ByteSize
  | .bool _ => 1 + 1

def pairLen (x : Pair) : Nat := encodedKeyLen x.1 + 4 + rowidLen

/-- An entry of a leaf with the bytes of its `INCLUDE` columns (none for most indexes). -/
structure NodeEntry where
  key : OrderedValue
  rid : RowId
  payload : List UInt8
deriving DecidableEq, Repr

def NodeEntry.pair (e : NodeEntry) : Pair := (e.key, e.rid)

def NodeEntry.plain (x : Pair) : NodeEntry := ⟨x.1, x.2, []⟩

@[simp] lemma NodeEntry.pair_plain (x : Pair) : (NodeEntry.plain x).pair = x := rfl

abbrev Leaf : Type := List NodeEntry

def NodeEntry.len (e : NodeEntry) : Nat := encodedKeyLen e.key + 4 + e.payload.length + rowidLen

/-- `Node::body_len` of a leaf. -/
def Leaf.bodyLen (l : Leaf) : Nat := 7 + (l.map NodeEntry.len).sum

/-- `Node::body_len` of an internal node. -/
def rowBodyLen {T : Type} (s : Sep OrderedValue T) : Nat :=
  7 + (s.seps.map fun k => encodedKeyLen k + 4).sum

def Leaf.pairs (l : Leaf) : List Pair := l.map NodeEntry.pair

/-- Entries with the payload that stands at the same place of the payload list, if one does. -/
def Leaf.attach (payloads : List (List UInt8)) (xs : List Pair) : Leaf :=
  xs.mapIdx fun i x => ⟨x.1, x.2, (payloads[i]?).getD []⟩

/-! ## Writing leaves -/

section
variable (pageSize : Nat) (l : Leaf)

/-- `write_node` of a leaf. -/
def writeLeaf : Except DbError Leaf :=
  if Leaf.bodyLen l ≤ bodyCapacity pageSize then .ok l else .error .panicked

/-- `split_leaf`: by number of entries. The right half is written first; its first key is the
separator. -/
def splitLeaf : Except DbError (Leaf × Option (OrderedValue × Leaf)) :=
  match l.drop (l.length / 2) with
  | [] => .error .panicked
  | e :: right => do
    let r ← writeLeaf pageSize (e :: right)
    let l ← writeLeaf pageSize (l.take (l.length / 2))
    pure (l, some (e.key, r))

/-- A leaf that got an entry: written as it is, or split. -/
def placeLeaf : Except DbError (Leaf × Option (OrderedValue × Leaf)) :=
  if Leaf.bodyLen l ≤ bodyCapacity pageSize then .ok (l, none) else splitLeaf pageSize l

/-- The leaf part of `insert_in_txn_with_include`: an entry that the binary search finds is not
added again. -/
def insertLeaf (e : NodeEntry) (l : Leaf) : Except DbError (Leaf × Option (OrderedValue × Leaf)) :=
  match binarySearchBy (fun x => Pair.cmp x.pair e.pair) l with
  | .ok _ => .ok (l, none)
  | .error pos => placeLeaf pageSize (l.insertIdx pos e)

end

/-- What a leaf becomes when it is written with the entries `l`: one leaf, or two with the first
key of the second between them. -/
def Divided (l : Leaf) (r : Leaf × Option (OrderedValue × Leaf)) : Prop :=
  r = (l, none) ∨ ∃ m e, 0 < m ∧ l[m]? = some e ∧ r = (l.take m, some (e.key, l.drop m))

variable {pageSize : Nat}

variable {l : Leaf} {r : Leaf × Option (OrderedValue × Leaf)}

lemma writeLeaf_eq_ok {l' : Leaf} :
    writeLeaf pageSize l = .ok l' ↔ Leaf.bodyLen l ≤ bodyCapacity pageSize ∧ l' = l := by
  unfold writeLeaf
  split
  · next h => simp [h, eq_comm]
  · next h => simp [h]

theorem splitLeaf_eq_ok (hbig : bodyCapacity pageSize < Leaf.bodyLen l)
    (h : splitLeaf pageSize l = .ok r) : ∃ e, 0 < l.length / 2 ∧ l[l.length / 2]? = some e ∧
      r = (l.take (l.length / 2), some (e.key, l.drop (l.length / 2))) ∧
      Leaf.bodyLen (l.take (l.length / 2)) ≤ bodyCapacity pageSize ∧
      Leaf.bodyLen (l.drop (l.length / 2)) ≤ bodyCapacity pageSize := by
  unfold splitLeaf at h
  split at h
  · cases h
  · next e right heq =>
    obtain ⟨r1, hr, h⟩ := bind_eq_ok.1 h
    obtain ⟨l1, hl, h⟩ := bind_eq_ok.1 h
    obtain ⟨hfitr, rfl⟩ := writeLeaf_eq_ok.1 hr
    obtain ⟨hfitl, rfl⟩ := writeLeaf_eq_ok.1 hl
    cases h
    refine ⟨e, Nat.pos_of_ne_zero fun h0 => ?_, ?_, by rw [heq], hfitl, by rw [heq]; exact hfitr⟩
    · rw [h0, drop_zero] at heq
      rw [heq] at hbig
      omega
    · rw [← head?_drop, heq]
      rfl

lemma splitLeaf_divided (hbig : bodyCapacity pageSize < Leaf.bodyLen l)
    (h : splitLeaf pageSize l = .ok r) : Divided l r := by
  obtain ⟨e, hpos, hat, rfl, -⟩ := splitLeaf_eq_ok hbig h
  exact .inr ⟨_, e, hpos, hat, rfl⟩

lemma placeLeaf_divided (h : placeLeaf pageSize l = .ok r) : Divided l r := by
  unfold placeLeaf at h
  split at h
  · cases h
    exact .inl rfl
  · next hbig => exact splitLeaf_divided (by omega) h

/-! ## Where an entry goes -/

section
variable {α : Type} {key : α → OrderedValue} {e : α} {l l' : List α} {pos : Nat}

/-- The element `e` put in at `pos`, with no greater key before and no smaller key after it. -/
structure InsertedAt (key : α → OrderedValue) (e : α) (l l' : List α) (pos : Nat) : Prop where
  eq : l' = l.take pos ++ e :: l.drop pos
  le : ∀ a ∈ l.take pos, key a ≤ key e
  ge : ∀ a ∈ l.drop pos, key e ≤ key a

lemma InsertedAt.perm (h : InsertedAt key e l l' pos) : l'.Perm (e :: l) := by
  rw [h.eq]
  refine perm_middle.trans ?_
  rw [take_append_drop]

lemma InsertedAt.sorted (h : InsertedAt key e l l' pos)
    (hl : l.Pairwise fun a b => key a ≤ key b) : l'.Pairwise fun a b => key a ≤ key b := by
  rw [← take_append_drop pos l] at hl
  obtain ⟨hleft, hright, hacross⟩ := pairwise_append.1 hl
  rw [h.eq]
  refine pairwise_append.2 ⟨hleft, pairwise_cons.2 ⟨h.ge, hright⟩, fun a ha b hb => ?_⟩
  rcases mem_cons.1 hb with rfl | hb
  · exact h.le a ha
  · exact hacross a ha b hb

/-- **The binary search** finds a place that keeps the entries sorted by key, whatever the order of
the row ids in the leaf is. -/
theorem insertedAt_of_search {f : α → Pair} (hsorted : l.Pairwise fun a b => (f a).1 ≤ (f b).1)
    (h : binarySearchBy (fun a => Pair.cmp (f a) (f e)) l = .error pos) :
    InsertedAt (fun a => (f a).1) e l (l.insertIdx pos e) pos := by
  have hmono : l.Pairwise fun a b =>
      ((f b).1 ≤ (f e).1 → (f a).1 ≤ (f e).1) ∧ ((f e).1 ≤ (f a).1 → (f e).1 ≤ (f b).1) :=
    hsorted.imp fun hab => ⟨fun hb => hab.trans hb, fun ha => ha.trans hab⟩
  obtain ⟨hpos, hle, hge⟩ := binarySearchBy_error (fun a ha => Pair.le_of_cmp_ne_gt ha)
    (fun a ha => Pair.ge_of_cmp_ne_lt ha) hmono h
  exact ⟨insertIdx_eq_append hpos, hle, hge⟩

end

end UniDb
