import UniDb.Index.BPlus

/-!
# Limited and partitioned range searches (`btree_index.rs`)

The two other copies of the leaf walk of `search_range`: one stops at `limit` row ids, one keeps the
row ids of each leaf apart and deals them out to `n` lists. Both allocate for `limit` and `n` before
they know how much there is.
-/

namespace UniDb

open List

namespace BPlusTree

section
variable (t : BPlusTree) (op : RangeOp) (value : OrderedValue) (limit n perPart : Nat)

/-- The leaves that a range search walks. -/
def rangeLeaves : List Leaf :=
  match op with
  | .lt | .le => t.flat.items
  | .gt | .ge => t.root.itemsFrom (readRoute value)

/-- The inner loop of `search_range_limit` over one leaf; the flag is `break 'outer`. -/
def scanLimit : List RowId → Leaf → List RowId × Bool
  | out, [] => (out, false)
  | out, e :: l =>
    if op.admits value e.key then
      if limit ≤ (out ++ [e.rid]).length then (out ++ [e.rid], true) else scanLimit
        (out ++ [e.rid]) l
    else if (op = .lt ∨ op = .le) ∧ value ≤ e.key then (out, true)
    else scanLimit out l

def walkLimit : List RowId → List Leaf → List RowId
  | out, [] => out
  | out, l :: ls =>
    let (out, stop) := scanLimit op value limit out l
    if stop then out else walkLimit out ls

def searchRangeLimit : Except DbError (List RowId) :=
  if limit = 0 then .ok []
  else do
    withCapacity limit rowIdSize
    pure (walkLimit op value limit [] (t.rangeLeaves op value))

/-- `leaf_slices`: the row ids of each leaf that has some. -/
def leafSlices : List Leaf → List (List RowId)
  | [] => []
  | l :: ls =>
    let (rids, done) := scanRange op value l
    (if rids.isEmpty then [] else [rids]) ++ if done then [] else leafSlices ls

/-- One row id dealt out, to `partitions` and `current`. -/
def deal (s : List (List RowId) × List RowId) (rid : RowId) : List (List RowId) × List RowId :=
  let current := s.2 ++ [rid]
  if perPart ≤ current.length ∧ s.1.length + 1 < n then (s.1 ++ [current], []) else (s.1, current)

/-- `resize_with(n, Vec::new)`. -/
def resize (parts : List (List RowId)) : List (List RowId) :=
  parts.take n ++ replicate (n - parts.length) []

def searchRangePartition : Except DbError (List (List RowId)) :=
  if n ≤ 1 then .ok [t.searchRange op value]
  else do
    let slices := leafSlices op value (t.rangeLeaves op value)
    let total := (slices.map length).sum
    withCapacity n vecSize
    if total = 0 then pure (replicate n [])
    else
      let (parts, current) := slices.flatten.foldl (deal n ((total + n - 1) / n)) ([], [])
      pure (resize n (if current.isEmpty then parts else parts ++ [current]))

end

variable {op : RangeOp} {v : OrderedValue} {limit n perPart : Nat} {out rids : List RowId}
  {s : List (List RowId) × List RowId}

/-! ## The limit -/

lemma scanLimit_eq {l : Leaf} (h : out.length < limit) : scanLimit op v limit out l =
    (out ++ (scanRange op v l).1.take (limit - out.length),
      (scanRange op v l).2 || decide (limit ≤ out.length + (scanRange op v l).1.length)) := by
  induction l generalizing out with
  | nil => simp [scanLimit, scanRange, h]
  | cons e l ih =>
    unfold scanLimit scanRange
    rw [length_append, length_singleton]
    obtain ⟨k, hk⟩ : ∃ k, limit - out.length = k + 1 := ⟨limit - out.length - 1, by omega⟩
    split
    · split
      · obtain rfl : k = 0 := by omega
        simp [hk]
        omega
      · rw [ih (by simpa using by omega)]
        simp [hk, show limit - (out.length + 1) = k by omega, Nat.add_assoc, Nat.add_comm 1]
    · split
      · simp
      · exact ih h

lemma walkLimit_eq {ls : List Leaf} (h : out.length < limit) :
    walkLimit op v limit out ls = out ++ (walkRange op v ls).take (limit - out.length) := by
  induction ls generalizing out with
  | nil => simp [walkLimit, walkRange]
  | cons l ls ih =>
    rw [walkLimit, walkRange, scanLimit_eq h]
    generalize scanRange op v l = r
    obtain ⟨rids, stop⟩ := r
    dsimp only
    by_cases hfull : limit ≤ out.length + rids.length
    · rw [if_pos (by simp [hfull]), take_append_of_le_length (by omega)]
    · cases stop with
      | true => simp
      | false =>
        have hrids : rids.take (limit - out.length) = rids := take_of_length_le (by omega)
        rw [if_neg (by simp; omega), hrids, ih (by simp; omega), if_neg (by simp), take_append,
          hrids]
        simp [Nat.sub_add_eq]

/-! ## The partition -/

lemma flatten_leafSlices (ls : List Leaf) : (leafSlices op v ls).flatten = walkRange op v ls := by
  induction ls with
  | nil => rfl
  | cons l ls ih =>
    rw [leafSlices, walkRange, ← ih]
    obtain ⟨rids, done⟩ := scanRange op v l
    cases rids <;> cases done <;> simp

/-- The row ids dealt so far: fewer than `n` full lists, and the rest in `current`. -/
structure Dealt (n perPart : Nat) (rids : List RowId) (s : List (List RowId) × List RowId) :
    Prop where
  flatten_eq : s.1.flatten ++ s.2 = rids
  full : ∀ part ∈ s.1, part.length = perPart
  lt : s.1.length < n
  filling : s.1.length + 1 < n → s.2.length < perPart

lemma Dealt.deal (h : Dealt n perPart rids s) (hpos : 0 < perPart) (rid : RowId) :
    Dealt n perPart (rids ++ [rid]) (deal n perPart s rid) := by
  obtain ⟨rfl, hfull, hlt, hfilling⟩ := h
  unfold BPlusTree.deal
  dsimp only
  rw [length_append, length_singleton]
  split
  · next hcond =>
    have hlen := hfilling hcond.2
    refine ⟨by simp, forall_mem_append.2 ⟨hfull, forall_mem_singleton.2 ?_⟩, by simpa using hcond.2,
      fun _ => hpos⟩
    rw [length_append, length_singleton]
    omega
  · exact ⟨by simp, hfull, hlt, by simp; omega⟩

lemma dealt_foldl (hpos : 0 < perPart) (hn : 0 < n) (rids : List RowId) :
    Dealt n perPart rids (rids.foldl (BPlusTree.deal n perPart) ([], [])) := by
  induction rids using reverseRecOn with
  | nil => exact ⟨rfl, by simp, hn, fun _ => hpos⟩
  | append_singleton rids rid ih =>
    rw [foldl_append]
    exact ih.deal hpos rid

/-- `n` lists in the order of `rids`, all of one length up to the last that is not empty. -/
structure Parts (n : Nat) (rids : List RowId) (parts : List (List RowId)) : Prop where
  length_eq : parts.length = n
  flatten_eq : parts.flatten = rids
  same : ∃ len, parts.Pairwise fun part later => later ≠ [] → part.length = len

lemma Dealt.parts (h : Dealt n perPart rids s) :
    Parts n rids (resize n (if s.2.isEmpty then s.1 else s.1 ++ [s.2])) := by
  have hlt := h.lt
  have hsame : s.1.Pairwise fun part later => later ≠ [] → part.length = perPart :=
    pairwise_of_forall_mem_list fun part hpart _ _ _ => h.full part hpart
  -- Whichever lists there are, the padding after them is empty.
  have hpad : ∀ parts : List (List RowId), parts.length ≤ n → parts.flatten = rids →
      (parts.Pairwise fun part later => later ≠ [] → part.length = perPart) →
      Parts n rids (resize n parts) := by
    intro parts hle hflat hsame
    rw [resize, take_of_length_le hle]
    refine ⟨by simp [hle], by simp [hflat], perPart, pairwise_append.2 ⟨hsame, by simp, ?_⟩⟩
    intro part _ later hlater hne
    exact absurd (mem_replicate.1 hlater).2 hne
  split
  · next hcur =>
    have hflat := h.flatten_eq
    rw [isEmpty_iff.1 hcur, append_nil] at hflat
    exact hpad _ hlt.le hflat hsame
  · refine hpad _ (by simpa using hlt) (by simpa using h.flatten_eq) (pairwise_append.2
      ⟨hsame, pairwise_singleton _ _, fun part hpart _ _ _ => h.full part hpart⟩)

lemma searchRange_eq_walkRange (t : BPlusTree) :
    t.searchRange op v = walkRange op v (t.rangeLeaves op v) := by
  cases op <;> rfl

lemma parts_searchRangePartition (t : BPlusTree) (hn : 1 ≤ n) (hfits : n * vecSize ≤ isizeMax) :
    ∃ parts, t.searchRangePartition op v n = .ok parts ∧ Parts n (t.searchRange op v) parts := by
  unfold searchRangePartition
  split
  · exact ⟨_, rfl, by simpa using by omega, by simp, 0, pairwise_singleton _ _⟩
  · rw [searchRange_eq_walkRange, ← flatten_leafSlices, withCapacity, if_pos hfits]
    dsimp only [bind, Except.bind]
    rw [← length_flatten]
    generalize (leafSlices op v (t.rangeLeaves op v)).flatten = rids
    split
    · next h =>
      obtain rfl := eq_nil_of_length_eq_zero h
      exact ⟨_, rfl, length_replicate, by simp, 0, by simp⟩
    · exact ⟨_, rfl, (dealt_foldl (Nat.div_pos (by omega) hn) hn rids).parts⟩

/-- **The partitioned and the limited search** return what `search_range` does: `n` lists, all of
one length up to the last that is not empty, and the first `limit` row ids; provided that vectors
for `n` lists and `limit` row ids can be allocated. -/
theorem range_search_copies_agree (t : BPlusTree) (op : RangeOp) (v : OrderedValue) (n limit : Nat)
    (hn : 1 ≤ n) (hpartition : n * vecSize ≤ isizeMax) (hlimit : limit * rowIdSize ≤ isizeMax) :
    (∃ parts, t.searchRangePartition op v n = .ok parts ∧ Parts n (t.searchRange op v) parts) ∧
      t.searchRangeLimit op v limit =
        .ok ((t.searchRange op v).take (min limit (t.searchRange op v).length)) := by
  refine ⟨parts_searchRangePartition t hn hpartition, ?_⟩
  rw [← take_eq_take_min, searchRange_eq_walkRange, searchRangeLimit]
  split
  · next h => rw [h, take_zero]
  · next h =>
    rw [withCapacity, if_pos hlimit]
    exact congrArg Except.ok (walkLimit_eq (Nat.pos_of_ne_zero h))

/-- A leaf with two entries. -/
def twoEntries : BPlusTree := ⟨0, .ofLeaf [⟨.int 1, ⟨1, 0⟩, []⟩, ⟨.int 2, ⟨1, 1⟩, []⟩]⟩

theorem range_search_copies_agree_twoEntries :
    (∃ parts, twoEntries.searchRangePartition .ge (.int 1) 4 = .ok parts ∧
        Parts 4 [⟨1, 0⟩, ⟨1, 1⟩] parts) ∧
      twoEntries.searchRangeLimit .ge (.int 1) 1 = .ok [⟨1, 0⟩] :=
  range_search_copies_agree twoEntries .ge (.int 1) 4 1 (by decide) (by decide) (by decide)

/-- Two row ids in four lists: the first and the third list, neither of them the last that is not
empty, differ in their lengths. And a limit for which no vector can be allocated. -/
theorem range_partition_pads :
    twoEntries.searchRangePartition .ge (.int 1) 4 = .ok [[⟨1, 0⟩], [⟨1, 1⟩], [], []] ∧
      twoEntries.searchRangeLimit .ge (.int 1) (2 ^ 60) = .error .panicked := by
  decide +kernel

end BPlusTree

end UniDb
