import UniDb.Sql.Select

/-!
# Index-assisted `SELECT` against the heap scan

The reading of one statement through a complete index: when do the rows of the index branches form
the multiset of rows of the heap scan?

* `execSelect_perm_of_agrees`: whenever `IndexAgrees` holds, they do.
* `indexAgrees_of_perm`: on a live column of one key type, only then.

The condition on the index-only branches is in terms of the `WHERE` expression, the key comparison
of the search and the names of the projection: `drainColumns_ok` says what the scan puts at each
position of a row, `coveringRow_eq` what the branch puts there.
-/

namespace UniDb

open List OrderedValue Option

/-! ## Complete indexes -/

section
variable (rt : Runtime) (t : TableDef) (p : Probe) (s : ReadState) (data : Row)

def indexKey : Option OrderedValue :=
  ((decodeRow rt t.columns data)[p.pos]?).bind tryFrom

def includePayload : Option Row :=
  if p.includeCols.isEmpty then none
  else some (p.includeCols.map fun name =>
    ((t.columns.findIdx? (·.name == name)).bind ((decodeRow rt t.columns data)[·]?)).getD .null)

def indexedRow : Option (OrderedValue × Option Row × Row) :=
  (indexKey rt t p data).map fun k => (k, includePayload rt t p data, data)

def ReadState.resolveEntry (e : LeafEntry) : Option (OrderedValue × Option Row × Row) :=
  (s.resolve e.rid).map fun data => (e.key, e.payload, data)

/-- Each visible row with a non-NULL key is the resolution of exactly one entry, which carries its
key and include values; no other entry resolves. -/
def IndexComplete : Prop :=
  ((s.trees p.root).filterMap s.resolveEntry).Perm (s.visible.filterMap (indexedRow rt t p))

def admitted : Bool :=
  p.hit.op != .ne && (indexKey rt t p data).any (p.hit.op.admits p.value)

end

def SelectPath.probe : SelectPath → Option Probe
  | .heapScan => none
  | .plain p | .keyOnly p | .covering p => some p

/-! ## When the branches agree -/

section
variable (rt : Runtime) (t : TableDef) (st : Statistics) (projection : List String)
  (predicate : Option Expr) (s : ReadState)

/-- The `WHERE` expression is TRUE of a stored row. -/
def selected (data : Row) : Bool :=
  match predicateMatches rt predicate t.columns (decodeRow rt t.columns data) with
  | .ok b => b
  | .error _ => false

/-- The output row of the two index-only branches for a stored row. -/
def indexOutput (path : SelectPath) (data : Row) : Option Row :=
  match path with
  | .keyOnly p => (indexKey rt t p data).map fun k => [k.intoLiteral]
  | .covering p =>
    (indexKey rt t p data).map fun k =>
      coveringRow rt t projection p ⟨k, ⟨0, 0⟩, includePayload rt t p data⟩
  | _ => none

/-- The column whose value an index entry holds for a projected name. -/
def entryColumn (p : Probe) (name : String) : Option Nat :=
  if eqIgnoreAsciiCase name p.hit.column then some p.pos
  else (p.includeCols.find? (eqIgnoreAsciiCase · name)).bind fun ic =>
    t.columns.findIdx? (·.name == ic)

/-- The values of a stored row in the columns that the entry has for the projection. -/
def storedRow (p : Probe) (data : Row) : Row :=
  projection.map fun name =>
    ((entryColumn t p name).bind ((decodeRow rt t.columns data)[·]?)).getD .null

/-- A repeated name of the projection is NULL in every selected row: the scan moves a value out at
its first occurrence. -/
def RepeatsNull : Prop :=
  ∀ j name, projection[j]? = some name → name ∈ projection.take j → ∀ data ∈ s.visible,
    selected rt t predicate data = true →
      ∀ i, columnPos t.columns name = some i → (decodeRow rt t.columns data)[i]? = some .null

/-- The projection reads the columns the entries hold: the key alone, or the key and `INCLUDE`
columns that all exist. -/
def ReadsEntries : SelectPath → Prop
  | .keyOnly p => ∃ name, projection = [name] ∧ columnPos t.columns name = some p.pos
  | .covering p =>
    (∀ ic ∈ p.includeCols, (t.columns.findIdx? (·.name == ic)).isSome) ∧
      (∀ name ∈ projection, columnPos t.columns name = entryColumn t p name) ∧
      RepeatsNull rt t projection predicate s
  | _ => True

/-- The condition of an index-only branch: the search admits exactly the rows of which the `WHERE`
expression is TRUE, and if there are any, the projection reads what the entries hold. -/
def IndexOnlyAgrees (p : Probe) (path : SelectPath) : Prop :=
  (∀ data ∈ s.visible, selected rt t predicate data = admitted rt t p data) ∧
    ((∃ data ∈ s.visible, selected rt t predicate data = true) →
      ReadsEntries rt t projection predicate s path)

/-- **The condition.** On the plain branch: the search admits every row the predicate selects, and
the predicate evaluates on every row the search admits. -/
def IndexAgrees : Prop :=
  match selectPath t st projection predicate with
  | .heapScan => True
  | .plain p => ∀ data ∈ s.visible,
      (admitted rt t p data = true → ∃ b, testPredicate rt t predicate data = .ok b) ∧
        (selected rt t predicate data = true → admitted rt t p data = true)
  | .keyOnly p => IndexOnlyAgrees rt t projection predicate s p (.keyOnly p)
  | .covering p => IndexOnlyAgrees rt t projection predicate s p (.covering p)

end

/-! ## Reading the predicate -/

section
variable {rt : Runtime} {t : TableDef} {st : Statistics} {projection : List String}
  {predicate : Option Expr} {s : ReadState} {p : Probe}

lemma testPredicate_eq (data : Row) : testPredicate rt t predicate data =
      predicateMatches rt predicate t.columns (decodeRow rt t.columns data) := by
  cases predicate with
  | none => rfl
  | some e =>
    simp only [testPredicate, boundPredicate, predicateColumns, map_some, predicateMatches]
    rw [evalExpr_deform data (fun i hi => by simpa using hi), evalExpr_bind (by simp)]

lemma predicateMatches_bound (data : Row) (e : Expr) :
    predicateMatches rt (some (bindPredicateColumns t.columns e)) t.columns
        (decodeRow rt t.columns data) =
      predicateMatches rt (some e) t.columns (decodeRow rt t.columns data) := by
  simp only [predicateMatches]
  rw [evalExpr_bind (by simp)]

/-- The heap scan's test is the predicate, except that a raw rejection hides a failure. -/
lemma scanTest_cases (rt : Runtime) (t : TableDef) (predicate : Option Expr) (data : Row) :
    scanTest rt t predicate data = testPredicate rt t predicate data ∨
      ∃ b, scanTest rt t predicate data = .ok b ∧
        (predicateMatches rt predicate t.columns (decodeRow rt t.columns data) = .ok true ↔
          b = true) := by
  unfold scanTest
  cases hraw : ((boundPredicate t predicate).bind collectRawTerms).bind
      (RawFilter.passes t.columns data) with
  | none => exact .inl rfl
  | some b =>
    refine .inr ⟨b, rfl, ?_⟩
    obtain ⟨terms, hterms, hpass⟩ := bind_eq_some_iff.1 hraw
    obtain ⟨bound, hbound, hcollect⟩ := bind_eq_some_iff.1 hterms
    obtain ⟨e, rfl, rfl⟩ := map_eq_some_iff.1 hbound
    rw [← predicateMatches_bound, predicateMatches_some]
    exact RawFilter.passes_sound hcollect hpass

variable {data row : Row} {hit : Hit} {rows : List Row} {columns : List ColumnDef}

lemma scanTest_of_testPredicate {b : Bool} (h : testPredicate rt t predicate data = .ok b) :
    scanTest rt t predicate data = .ok b := by
  rcases scanTest_cases rt t predicate data with heq | ⟨b', heq, hiff⟩
  · rw [heq, h]
  · rw [← testPredicate_eq] at hiff
    cases b <;> cases b' <;> simp_all

lemma perCandidate_ok {o : Option Row} {b : Bool}
    (hrow : perRow rt t projection predicate data = .ok o)
    (htest : testPredicate rt t predicate data = .ok b) :
    perCandidate rt t projection predicate data = .ok o := by
  unfold perRow at hrow
  unfold perCandidate
  rw [scanTest_of_testPredicate htest] at hrow
  rw [htest]
  exact hrow

lemma selected_iff : selected rt t predicate data = true ↔
      predicateMatches rt predicate t.columns (decodeRow rt t.columns data) = .ok true := by
  unfold selected
  cases predicateMatches rt predicate t.columns (decodeRow rt t.columns data) <;> simp

lemma selected_of_scanTest {b : Bool} (h : scanTest rt t predicate data = .ok b) :
    selected rt t predicate data = b := by
  rcases scanTest_cases rt t predicate data with heq | ⟨b', heq, hiff⟩
  · rw [heq, testPredicate_eq] at h
    simp [selected, h]
  · cases heq.symm.trans h
    rw [← selected_iff] at hiff
    exact Bool.eq_iff_iff.2 hiff

/-- Where the scan does not fail, it outputs the projections of the selected rows. -/
lemma perRow_eq_ok {o : Option Row} (h : perRow rt t projection predicate data = .ok o) :
    o.isSome = selected rt t predicate data ∧
      ∀ row ∈ o, projectData rt t projection predicate data = .ok row := by
  unfold perRow at h
  obtain ⟨b, hb, h⟩ := bind_eq_ok.1 h
  rw [selected_of_scanTest hb]
  cases b with
  | false =>
    cases h
    simp
  | true =>
    cases hproj : projectData rt t projection predicate data with
    | error e => simp [hproj, Except.map] at h
    | ok row =>
      rw [if_pos rfl, hproj] at h
      cases h
      simp

lemma exists_row (h : ∃ o, perRow rt t projection predicate data = .ok o)
    (hsel : selected rt t predicate data = true) :
    ∃ row, perRow rt t projection predicate data = .ok (some row) ∧
      projectData rt t projection predicate data = .ok row := by
  obtain ⟨o, ho⟩ := h
  obtain ⟨hsome, hrow⟩ := perRow_eq_ok ho
  obtain ⟨row, rfl⟩ := isSome_iff_exists.1 (hsome.trans hsel)
  exact ⟨row, ho, hrow row rfl⟩

/-! ## What the searches return -/

lemma admitted_iff : admitted rt t p data = true ↔ p.hit.op ≠ .ne ∧
      ∃ k, indexKey rt t p data = some k ∧ p.hit.op.admits p.value k = true := by
  unfold admitted
  cases hk : indexKey rt t p data <;> simp

/-- Over a complete index, what a search yields is what the admitted visible rows yield. -/
lemma searchWithKeys_perm {β : Type} (hidx : IndexComplete rt t p s)
    (f : OrderedValue × Option Row × Row → Option β) :
    (((s.trees p.root).searchWithKeys p.hit.op p.value).filterMap
        fun e => (s.resolveEntry e).bind f).Perm (s.visible.filterMap fun data =>
        if admitted rt t p data then (indexedRow rt t p data).bind f else none) := by
  by_cases hne : p.hit.op = .ne
  · simp [DiskBTree.searchWithKeys, admitted, hne]
  · -- both sides are one selection over the two sides of `hidx`
    have hl : ((s.trees p.root).searchWithKeys p.hit.op p.value).filterMap
          (fun e => (s.resolveEntry e).bind f) =
        ((s.trees p.root).filterMap s.resolveEntry).filterMap
          (fun x => if p.hit.op.admits p.value x.1 then f x else none) := by
      simp only [DiskBTree.searchWithKeys, hne, ↓reduceIte, filterMap_filter,
        filterMap_filterMap, ReadState.resolveEntry]
      refine filterMap_congr fun e _ => ?_
      cases s.resolve e.rid <;> simp
    have hr : (s.visible.filterMap fun data =>
          if admitted rt t p data then (indexedRow rt t p data).bind f else none) =
        (s.visible.filterMap (indexedRow rt t p)).filterMap
          (fun x => if p.hit.op.admits p.value x.1 then f x else none) := by
      rw [filterMap_filterMap]
      refine filterMap_congr fun data _ => ?_
      rcases eq_none_or_eq_some (indexKey rt t p data) with hk | ⟨k, hk⟩
      · simp [indexedRow, hk]
      · simp [admitted, indexedRow, hk, hne]
    rw [hl, hr]
    exact hidx.filterMap _

lemma candidates_perm (hidx : IndexComplete rt t p s) (hne : p.hit.op ≠ .ne) :
    ((((s.trees p.root).search p.hit.op p.value).getD []).filterMap s.resolve).Perm
      (s.visible.filter (admitted rt t p)) := by
  have h := searchWithKeys_perm hidx fun x => some x.2.2
  have hl : (((s.trees p.root).search p.hit.op p.value).getD []).filterMap s.resolve =
      ((s.trees p.root).searchWithKeys p.hit.op p.value).filterMap
        (fun e => (s.resolveEntry e).bind fun x => some x.2.2) := by
    simp only [DiskBTree.search, DiskBTree.searchWithKeys, hne, ↓reduceIte, getD_some,
      filterMap_map, ReadState.resolveEntry]
    refine filterMap_congr fun e _ => ?_
    cases hres : s.resolve e.rid <;> simp [hres]
  have hr : s.visible.filter (admitted rt t p) = s.visible.filterMap (fun data =>
        if admitted rt t p data then (indexedRow rt t p data).bind fun x =>
            some x.2.2 else none) := by
    rw [← filterMap_eq_filter]
    refine filterMap_congr fun data _ => ?_
    cases hadm : admitted rt t p data with
    | false => simp [hadm]
    | true =>
      obtain ⟨-, k, hk, -⟩ := admitted_iff.1 hadm
      simp [hadm, indexedRow, hk]
  rw [hl, hr]
  exact h

lemma probeOf_eq_some (h : probeOf t hit = some p) :
    p.hit = hit ∧ tryFrom hit.literal = some p.value ∧
      t.columns.findIdx? (·.name == hit.column) = some p.pos ∧
      ∃ col, t.columns[p.pos]? = some col ∧ p.includeCols = col.includeCols := by
  unfold probeOf at h
  simp only [Option.bind_eq_bind, Option.bind_eq_some_iff, Option.pure_def, Option.some.injEq] at h
  obtain ⟨value, hvalue, pos, hpos, col, hcol, _, _, rfl⟩ := h
  exact ⟨rfl, hvalue, hpos, col, hcol, rfl⟩

/-- What the choice of a branch says: its probe searches for the literal of a conjunct the planner
found, the plain branch is never taken for `Ne`, and the index-only branches only if `indexOnly`
lets them. -/
lemma selectPath_spec (h : (selectPath t st projection predicate).probe = some p) :
    predicate.bind (findBestIndexableBtreePredicate t st) = some p.hit ∧
      probeOf t p.hit = some p ∧
      (selectPath t st projection predicate = .plain p → p.hit.op ≠ .ne) ∧
      (selectPath t st projection predicate ≠ .plain p →
        indexOnly t projection p.hit.column = true) ∧
      (selectPath t st projection predicate = .keyOnly p → p.includeCols = []) := by
  unfold selectPath at h ⊢
  cases hfind : predicate.bind (findBestIndexableBtreePredicate t st) with
  | none => simp [hfind, SelectPath.probe] at h
  | some hit =>
    cases hsel : indexLookupIsSelective st hit with
    | false => simp [hfind, hsel, SelectPath.probe] at h
    | true =>
      cases hprobe : probeOf t hit with
      | none => simp [hfind, hprobe, SelectPath.probe] at h
      | some q =>
        obtain ⟨rfl, -⟩ := probeOf_eq_some hprobe
        simp only [hfind, hsel, hprobe, ↓reduceIte] at h ⊢
        have hq : q = p := by
          split at h
          · split at h <;> exact some.inj h
          · split at h
            · cases h
            · exact some.inj h
        subst hq
        refine ⟨rfl, hprobe, ?_⟩
        cases hio : indexOnly t projection q.hit.column with
        | true => by_cases hinc : q.includeCols = [] <;> simp [hinc]
        | false => by_cases hne : q.hit.op = .ne <;> simp_all [SelectPath.probe]

/-! ## What the branches project -/

lemma columnPos_inj {name name' : String} {i : Nat} (h : columnPos columns name = some i)
    (h' : columnPos columns name' = some i) : name = name' := by
  obtain ⟨hi, hname, -⟩ := findIdx?_eq_some_iff_getElem.1 h
  obtain ⟨_, hname', -⟩ := findIdx?_eq_some_iff_getElem.1 h'
  simp only [Bool.and_eq_true, beq_iff_eq] at hname hname'
  exact hname.1.symm.trans hname'.1

/-- The scan puts the value of its column at the first occurrence of a name, NULL at the others. -/
theorem drainColumns_ok {names : List String} {out : Row}
    (h : drainColumns columns names row = .ok out) : out.length = names.length ∧
      ∀ j name, names[j]? = some name → ∃ i, columnPos columns name = some i ∧
        out[j]? = if name ∈ names.take j then some .null else row[i]? := by
  induction names generalizing row out with
  | nil =>
    cases h
    simp
  | cons name rest ih =>
    unfold drainColumns at h
    cases hpos : columnPos columns name with
    | none => simp [hpos] at h
    | some i =>
      simp only [hpos] at h
      obtain ⟨v, hv, h⟩ := bind_eq_ok.1 h
      obtain ⟨out, hout, h⟩ := bind_eq_ok.1 h
      cases h
      obtain ⟨hlen, heach⟩ := ih hout
      have hslot : row[i]? = some v := by
        unfold readSlot at hv
        split at hv
        · cases hv
          assumption
        · cases hv
      refine ⟨by simp [hlen], fun j name' hj => ?_⟩
      cases j with
      | zero =>
        cases hj
        exact ⟨i, hpos, by simp [hslot]⟩
      | succ j =>
        obtain ⟨i', hi', hval⟩ := heach j name' (by simpa using hj)
        refine ⟨i', hi', ?_⟩
        rw [getElem?_cons_succ, hval, take_succ_cons]
        by_cases hname : name' = name
        · -- the value of this column has been moved out
          subst hname
          cases hpos.symm.trans hi'
          have hlt : i < row.length := (List.getElem?_eq_some_iff.1 hslot).1
          simp [getElem?_set_self hlt]
        · have hne : i ≠ i' := fun heq => hname (columnPos_inj hi' (heq ▸ hpos))
          simp [hname, getElem?_set_ne hne]

lemma mem_projectionColumns {name : String} {i : Nat}
    (hall : ∀ name ∈ projection, ∃ i, columnPos columns name = some i) (hname : name ∈ projection)
    (hi : columnPos columns name = some i) : i ∈ projectionColumns columns projection := by
  have hmap : projection.mapM (columnPos columns) =
      some (projection.map fun name => (columnPos columns name).getD 0) := by
    clear hname
    induction projection with
    | nil => rfl
    | cons name' rest ih =>
      obtain ⟨i', hi'⟩ := hall name' mem_cons_self
      simp [mapM_cons, hi', ih fun n hn => hall n (mem_cons_of_mem _ hn)]
  rw [projectionColumns, if_neg (by simpa using ne_nil_of_mem hname), hmap]
  exact mem_map.2 ⟨name, hname, by simp [hi]⟩

lemma projectData_ok {out : Row} (hne : projection ≠ [])
    (h : projectData rt t projection predicate data = .ok out) :
    out.length = projection.length ∧ ∀ j name, projection[j]? = some name →
      ∃ i, columnPos t.columns name = some i ∧ out[j]? =
        if name ∈ projection.take j then some .null else (decodeRow rt t.columns data)[i]? := by
  unfold projectData projectRowDrain at h
  rw [if_neg (by simpa using hne)] at h
  obtain ⟨hlen, heach⟩ := drainColumns_ok h
  refine ⟨hlen, fun j name hj => ?_⟩
  obtain ⟨i, hi, hval⟩ := heach j name hj
  refine ⟨i, hi, ?_⟩
  have hmem : i ∈ projectionColumns t.columns projection := by
    refine mem_projectionColumns (fun name' hname' => ?_) (mem_of_getElem? hj) hi
    obtain ⟨j', hj'⟩ := getElem?_of_mem hname'
    obtain ⟨i', hi', -⟩ := heach j' name' hj'
    exact ⟨i', hi'⟩
  rw [hval, deformRow, getElem?_mapIdx]
  simp [hmem]

lemma decodeRow_of_length {payload : Row} (h : payload.length = columns.length) :
    decodeRow rt columns payload = payload := by
  refine ext_getElem (by simp [h]) fun i _ hi => ?_
  simp [decodeRow, hi]

/-- Looking a name up among the definitions of existing `INCLUDE` columns, each beside its value. -/
lemma find_include (name : String) (val : String → Literal) {cols : List String}
    (hcols : ∀ ic ∈ cols, (columns.findIdx? (·.name == ic)).isSome) :
    let defs := cols.filterMap fun name => columns.find? (·.name == name)
    defs.length = cols.length ∧
      ((defs.zip (cols.map val)).find? fun (c, _) => eqIgnoreAsciiCase c.name name).map (·.2) =
        (cols.find? (eqIgnoreAsciiCase · name)).map val := by
  induction cols with
  | nil => exact ⟨rfl, rfl⟩
  | cons ic cols ih =>
    obtain ⟨hlen, hfind⟩ := ih fun ic' h => hcols ic' (mem_cons_of_mem _ h)
    obtain ⟨c, hc⟩ : ∃ c, columns.find? (·.name == ic) = some c := by
      obtain ⟨i, hi⟩ := isSome_iff_exists.1 (hcols ic mem_cons_self)
      obtain ⟨hlt, hname, -⟩ := findIdx?_eq_some_iff_getElem.1 hi
      exact isSome_iff_exists.1 (find?_isSome.2 ⟨_, getElem_mem hlt, hname⟩)
    have hname : c.name = ic := by simpa using find?_some hc
    simp only [filterMap_cons, hc, map_cons, zip_cons_cons, find?_cons, hname, length_cons, hlen,
      true_and]
    cases eqIgnoreAsciiCase ic name with
    | true => rfl
    | false => exact hfind

lemma key_eq_slot {k : OrderedValue} (hk : indexKey rt t p data = some k) :
    (decodeRow rt t.columns data)[p.pos]? = some k.intoLiteral := by
  obtain ⟨v, hv, hk⟩ := bind_eq_some_iff.1 hk
  rw [hv, tryFrom_eq_some.1 hk]

/-- The covering branch puts the value of the entry's column at each name. -/
lemma coveringRow_eq {k : OrderedValue} {rid : RowId}
    (hinc : ∀ ic ∈ p.includeCols, (t.columns.findIdx? (·.name == ic)).isSome)
    (hk : indexKey rt t p data = some k) :
    coveringRow rt t projection p ⟨k, rid, includePayload rt t p data⟩ =
      storedRow rt t projection p data := by
  unfold coveringRow storedRow
  refine map_congr_left fun name _ => ?_
  by_cases hname : eqIgnoreAsciiCase name p.hit.column = true
  · simp [entryColumn, hname, key_eq_slot hk]
  · -- the payload decodes to itself, and each value stands beside its column
    obtain ⟨hlen, hfind⟩ := find_include name (fun name =>
      ((t.columns.findIdx? (·.name == name)).bind
        ((decodeRow rt t.columns data)[·]?)).getD .null) hinc
    rw [if_neg hname, entryColumn, if_neg hname]
    unfold includePayload
    by_cases hnil : p.includeCols = []
    · simp [hnil]
    · rw [if_neg (by simpa using hnil), elim_some, decodeRow_of_length (by simp [hlen]), hfind]
      cases p.includeCols.find? (eqIgnoreAsciiCase · name) <;> rfl

/-! ## The branches -/

lemma filterMapE_perm {α β : Type} {f : α → Except DbError (Option β)} {l l' : List α}
    (h : l.Perm l') {r : List β} : (∃ out, filterMapE f l = .ok out ∧ out.Perm r) ↔
      (∀ a ∈ l', ∃ b, f a = .ok b) ∧ (l'.filterMap fun a => okPart (f a)).Perm r := by
  constructor
  · rintro ⟨out, hout, hperm⟩
    obtain ⟨hall, rfl⟩ := filterMapE_eq_ok.1 hout
    exact ⟨fun a ha => hall a (h.mem_iff.2 ha), (h.filterMap _).symm.trans hperm⟩
  · rintro ⟨hall, hperm⟩
    exact ⟨_, filterMapE_eq_ok.2 ⟨fun a ha => hall a (h.mem_iff.1 ha), rfl⟩,
      (h.filterMap _).trans hperm⟩

theorem plain_perm_iff (hidx : IndexComplete rt t p s) (hne : p.hit.op ≠ .ne)
    (hscan : heapScan rt t projection predicate s = .ok rows) :
    (∃ out, filterMapE (perCandidate rt t projection predicate)
          ((((s.trees p.root).search p.hit.op p.value).getD []).filterMap s.resolve) = .ok out ∧
        out.Perm rows) ↔ ∀ data ∈ s.visible,
        (admitted rt t p data = true → ∃ b, testPredicate rt t predicate data = .ok b) ∧
          (selected rt t predicate data = true → admitted rt t p data = true) := by
  obtain ⟨hrows, rfl⟩ := filterMapE_eq_ok.1 hscan
  rw [filterMapE_perm (candidates_perm hidx hne)]
  have hcand : (∀ data ∈ s.visible.filter (admitted rt t p),
        ∃ o, perCandidate rt t projection predicate data = .ok o) ↔
      ∀ data ∈ s.visible, admitted rt t p data = true →
        ∃ b, testPredicate rt t predicate data = .ok b := by
    simp only [mem_filter, and_imp]
    refine forall₃_congr fun data hdata hadm => ⟨fun ⟨o, ho⟩ => ?_, fun ⟨b, hb⟩ => ?_⟩
    · unfold perCandidate at ho
      obtain ⟨b, hb, -⟩ := bind_eq_ok.1 ho
      exact ⟨b, hb⟩
    · obtain ⟨o, ho⟩ := hrows data hdata
      exact ⟨o, perCandidate_ok ho hb⟩
  rw [hcand, filterMap_filter, forall₂_and]
  refine and_congr_right fun htest => ?_
  -- at an admitted row both selections agree, elsewhere the first selects nothing
  have hadm : ∀ data ∈ s.visible, admitted rt t p data = true →
      perCandidate rt t projection predicate data = perRow rt t projection predicate data := by
    intro data hdata hadm
    obtain ⟨o, ho⟩ := hrows data hdata
    obtain ⟨b, hb⟩ := htest data hdata hadm
    rw [ho, perCandidate_ok ho hb]
  rw [filterMap_perm_iff_of_le]
  · refine forall₂_congr fun data hdata => ?_
    by_cases h : admitted rt t p data = true
    · simp [h, hadm data hdata h]
    · obtain ⟨o, ho⟩ := hrows data hdata
      cases o <;> simp [h, ho, okPart, ← (perRow_eq_ok ho).1]
  · intro data hdata
    by_cases h : admitted rt t p data = true
    · exact .inr (by simp [h, hadm data hdata h])
    · exact .inl (by simp [h])

section indexOnly
variable {path : SelectPath} {out : OrderedValue × Option Row × Row → Row}
  (hout : ∀ data, indexOutput rt t projection path data = (indexedRow rt t p data).map out)
include hout

lemma indexOnly_perm_admitted (hidx : IndexComplete rt t p s) :
    (((s.trees p.root).searchWithKeys p.hit.op p.value).filterMap
        fun e => (s.resolveEntry e).map out).Perm
      ((s.visible.filter (admitted rt t p)).filterMap (indexOutput rt t projection path)) := by
  rw [filterMap_filter]
  simp only [hout, map_eq_bind]
  exact searchWithKeys_perm hidx _

/-- If one of admission and selection implies the other at every visible row, equal multisets force
them to coincide. -/
lemma selected_eq_admitted (hidx : IndexComplete rt t p s)
    (hrows : ∀ data ∈ s.visible, ∃ o, perRow rt t projection predicate data = .ok o)
    (hcomp : (∀ data ∈ s.visible, selected rt t predicate data = true →
        admitted rt t p data = true) ∨ ∀ data ∈ s.visible, admitted rt t p data = true →
        selected rt t predicate data = true)
    (hperm : (((s.trees p.root).searchWithKeys p.hit.op p.value).filterMap
        fun e => (s.resolveEntry e).map out).Perm
      (s.visible.filterMap fun data => okPart (perRow rt t projection predicate data))) :
    ∀ data ∈ s.visible, selected rt t predicate data = admitted rt t p data := by
  have hcount : s.visible.countP (admitted rt t p) =
      s.visible.countP (selected rt t predicate) := by
    have hlen := ((indexOnly_perm_admitted hout hidx).symm.trans hperm).length_eq
    rw [length_filterMap_eq_countP, length_filterMap_eq_countP, countP_filter] at hlen
    refine (countP_congr fun data _ => ?_).trans (hlen.trans (countP_congr fun data hdata => ?_))
    · -- an admitted row has a key, hence an output
      refine ⟨fun hadm => ?_, fun h => (Bool.and_eq_true_iff.1 h).2⟩
      obtain ⟨-, k, hk, -⟩ := admitted_iff.1 hadm
      simp [hadm, hout, indexedRow, hk]
    · obtain ⟨o, ho⟩ := hrows data hdata
      simp [ho, okPart, (perRow_eq_ok ho).1]
  rcases hcomp with hcomp | hcomp
  · exact eq_of_countP_le hcomp (Nat.le_of_eq hcount)
  · exact fun data hdata => (eq_of_countP_le hcomp (Nat.le_of_eq hcount.symm) data hdata).symm

end indexOnly

/-! ## The conjunct that drives the search -/

/-- The hit's conjunct is TRUE of a row, in the order of operands it was written in. -/
def HitHolds (rt : Runtime) (columns : List ColumnDef) (row : Row) (hit : Hit) : Prop :=
  ∃ v, evalExpr rt columns row (.column hit.column) = .ok v ∧
    (compare rt hit.op v hit.literal = .ok true ∨
      compare rt (flipCmpOp hit.op) hit.literal v = .ok true)

lemma btreeHit_eq_some {column : String} {op : CmpOp} {l : Literal}
    (h : btreeHit t column op l = some hit) : hit = ⟨column, op, l⟩ := by
  unfold btreeHit at h
  split at h
  · exact (some.inj h).symm
  · cases h

lemma compare_of_binOp_true {op : CmpOp} {lhs rhs : Expr}
    (h : evalExpr rt columns row (.binOp op lhs rhs) = .ok (.bool true)) :
    ∃ l r, evalExpr rt columns row lhs = .ok l ∧ evalExpr rt columns row rhs = .ok r ∧
      compare rt op l r = .ok true := by
  obtain ⟨l, hl, h⟩ := bind_eq_ok.1 h
  obtain ⟨r, hr, h⟩ := bind_eq_ok.1 h
  obtain ⟨b, hb, h⟩ := bind_eq_ok.1 h
  cases h
  exact ⟨l, r, hl, hr, hb⟩

lemma hitHolds_of_findIndexable {e : Expr} (hfind : findIndexableBtreePredicate t e = some hit)
    (htrue : evalExpr rt columns row e = .ok (.bool true)) : HitHolds rt columns row hit := by
  fun_induction findIndexableBtreePredicate t e with
  | case1 op c l =>
    obtain rfl := btreeHit_eq_some hfind
    obtain ⟨v, l', hv, hl, hcmp⟩ := compare_of_binOp_true htrue
    cases hl
    exact ⟨v, hv, .inl hcmp⟩
  | case2 op l c =>
    obtain rfl := btreeHit_eq_some hfind
    obtain ⟨l', v, hl, hv, hcmp⟩ := compare_of_binOp_true htrue
    cases hl
    have hflip : flipCmpOp (flipCmpOp op) = op := by cases op <;> rfl
    exact ⟨v, hv, .inr (by rw [hflip]; exact hcmp)⟩
  | case3 lhs rhs ihl ihr =>
    obtain ⟨hl, hr⟩ := evalExpr_and_true.1 htrue
    rcases or_eq_some_iff.1 hfind with hfind | ⟨-, hfind⟩
    · exact ihl hfind hl
    · exact ihr hfind hr
  | case4 => cases hfind

/-- Whichever conjunct the statistics prefer, it is TRUE wherever the predicate is. -/
lemma hitHolds_of_findBest {e : Expr} (hfind : findBestIndexableBtreePredicate t st e = some hit)
    (htrue : evalExpr rt columns row e = .ok (.bool true)) : HitHolds rt columns row hit := by
  fun_induction findBestIndexableBtreePredicate t st e with
  | case1 lhs rhs hnone ihl ihr => exact ihr hfind (evalExpr_and_true.1 htrue).2
  | case2 lhs rhs l hnone hsome ihl ihr =>
    cases hfind
    exact ihl hsome (evalExpr_and_true.1 htrue).1
  | case3 lhs rhs l r hr hl hpref ihl ihr =>
    cases hfind
    exact ihr hr (evalExpr_and_true.1 htrue).2
  | case4 lhs rhs l r hr hl hpref ihl ihr =>
    cases hfind
    exact ihl hl (evalExpr_and_true.1 htrue).1
  | case5 e => exact hitHolds_of_findIndexable hfind htrue

/-- The indexed column is the live column of its name, and its stored values are NULL or keys of one
kind: what the typed writes of the engine leave in a column of an ordered type. Its `INCLUDE`
columns are live too, and no two columns of the table differ in the case of their names only. -/
structure KeyColumn (rt : Runtime) (t : TableDef) (s : ReadState) (p : Probe) : Prop where
  live : columnPos t.columns p.hit.column = some p.pos
  typed : ∃ kind, ∀ data ∈ s.visible, ∀ v, (decodeRow rt t.columns data)[p.pos]? = some v →
    v = .null ∨ ∃ k, tryFrom v = some k ∧ k.kind = kind
  included : ∀ ic ∈ p.includeCols, ∃ i, columnPos t.columns ic = some i ∧
    t.columns.findIdx? (·.name == ic) = some i
  caseless : ∀ c ∈ t.columns, ∀ c' ∈ t.columns, eqIgnoreAsciiCase c.name c'.name = true →
    c.name = c'.name

lemma compare_null_right (op : CmpOp) (l : Literal) : compare rt op l .null = .ok false := by
  cases l <;> rfl

lemma key_of_hitHolds {kind : Nat} (hvalue : tryFrom p.hit.literal = some p.value)
    (hlive : columnPos t.columns p.hit.column = some p.pos)
    (htyped : ∀ v, (decodeRow rt t.columns data)[p.pos]? = some v →
      v = .null ∨ ∃ k, tryFrom v = some k ∧ k.kind = kind)
    (hhit : HitHolds rt t.columns (decodeRow rt t.columns data) p.hit) :
    ∃ k, indexKey rt t p data = some k ∧ k.kind = kind ∧
      (kind = p.value.kind → p.hit.op.admits p.value k = true) := by
  obtain ⟨v, hv, hcmp⟩ := hhit
  have hslot : (decodeRow rt t.columns data)[p.pos]? = some v := by
    simp only [evalExpr, hlive, readSlot] at hv
    split at hv
    · cases hv
      assumption
    · cases hv
  obtain rfl | ⟨k, hk, hkind⟩ := htyped v hslot
  · rw [compare_null_right] at hcmp
    rcases hcmp with h | h <;> cases h
  · refine ⟨k, by simp [indexKey, hslot, hk], hkind, fun heq => ?_⟩
    have hlit := tryFrom_eq_some.1 hvalue
    obtain rfl := tryFrom_eq_some.1 hk
    rw [hlit] at hcmp
    rcases hcmp with h | h
    · exact compare_intoLiteral (hkind.trans heq) h
    · have happly := compare_intoLiteral (heq.symm.trans hkind.symm) h
      rwa [applyCmp_flip, cmp_swap] at happly

/-- On one key column, the search admits more than the predicate selects, or less: with a literal of
another kind than the keys it admits every key or none. -/
lemma admitted_comparable (hcol : KeyColumn rt t s p)
    (hvalue : tryFrom p.hit.literal = some p.value)
    (hfind : predicate.bind (findBestIndexableBtreePredicate t st) = some p.hit) :
    (∀ data ∈ s.visible, selected rt t predicate data = true →
        admitted rt t p data = true) ∨ ∀ data ∈ s.visible, admitted rt t p data = true →
        selected rt t predicate data = true := by
  obtain ⟨kind, htyped⟩ := hcol.typed
  obtain ⟨e, rfl, hfind⟩ := bind_eq_some_iff.1 hfind
  have hkey : ∀ data ∈ s.visible, selected rt t (some e) data = true →
      ∃ k, indexKey rt t p data = some k ∧ k.kind = kind ∧
        (kind = p.value.kind → p.hit.op.admits p.value k = true) := by
    intro data hdata hsel
    have htrue := selected_iff.1 hsel
    rw [predicateMatches_some] at htrue
    exact key_of_hitHolds hvalue hcol.live (htyped data hdata) (hitHolds_of_findBest hfind htrue)
  by_cases hne : p.hit.op = .ne
  · exact .inr fun data _ hadm => absurd hne (admitted_iff.1 hadm).1
  · by_cases hkind : kind = p.value.kind
    · refine .inl fun data hdata hsel => ?_
      obtain ⟨k, hk, -, hadm⟩ := hkey data hdata hsel
      exact admitted_iff.2 ⟨hne, k, hk, hadm hkind⟩
    · -- every key compares with the literal as its kind does
      have hconst : ∀ k : OrderedValue, k.kind = kind →
          p.hit.op.admits p.value k = applyCmp p.hit.op (Ord.compare kind p.value.kind) := by
        intro k hk
        rw [CmpOp.admits, cmp_of_kind_ne (by rwa [hk]), hk]
      cases hc : applyCmp p.hit.op (Ord.compare kind p.value.kind) with
      | true =>
        refine .inl fun data hdata hsel => ?_
        obtain ⟨k, hk, hkk, -⟩ := hkey data hdata hsel
        exact admitted_iff.2 ⟨hne, k, hk, (hconst k hkk).trans hc⟩
      | false =>
        refine .inr fun data hdata hadm => ?_
        obtain ⟨-, k, hk, hadm⟩ := admitted_iff.1 hadm
        obtain ⟨v, hv, hkv⟩ := bind_eq_some_iff.1 hk
        rcases htyped data hdata v hv with rfl | ⟨k', hk', hkk⟩
        · cases hkv
        · cases hkv.symm.trans hk'
          rw [hconst k hkk, hc] at hadm
          cases hadm

/-! ## The statement -/

def keyOnlyRow (x : OrderedValue × Option Row × Row) : Row := [x.1.intoLiteral]

/-- A covering row is made of the key and the payload, whichever row id the entry has. -/
def coveredRow (rt : Runtime) (t : TableDef) (projection : List String) (p : Probe)
    (x : OrderedValue × Option Row × Row) : Row :=
  coveringRow rt t projection p ⟨x.1, ⟨0, 0⟩, x.2.1⟩

lemma execSelect_indexOnly (h : selectPath t st projection predicate = .keyOnly p ∨
      selectPath t st projection predicate = .covering p) : ∃ out,
    (∀ data, indexOutput rt t projection (selectPath t st projection predicate) data =
      (indexedRow rt t p data).map out) ∧ execSelect rt t st projection predicate s =
      .ok (((s.trees p.root).searchWithKeys p.hit.op p.value).filterMap
        fun e => (s.resolveEntry e).map out) := by
  unfold execSelect
  rcases h with h | h <;> rw [h]
  · refine ⟨keyOnlyRow, fun data => ?_, ?_⟩ <;>
      simp [indexOutput, indexedRow, ReadState.resolveEntry, keyOnlyRow, Function.comp_def]
  · refine ⟨coveredRow rt t projection p, fun data => ?_, ?_⟩ <;>
      simp [indexOutput, indexedRow, ReadState.resolveEntry, coveredRow, coveringRow,
        Function.comp_def]

lemma getElem?_storedRow (hcols : ∀ name ∈ projection, columnPos t.columns name =
    entryColumn t p name) {j i : Nat} {name : String} (hj : projection[j]? = some name)
    (hi : columnPos t.columns name = some i) :
    (storedRow rt t projection p data)[j]? =
      some (((decodeRow rt t.columns data)[i]?).getD .null) := by
  simp [storedRow, hj, ← hcols name (mem_of_getElem? hj), hi]

/-- On a projection that reads what the entries hold, the branches output the scan's row. -/
lemma indexOutput_of_reads {path : SelectPath} (hpath : path = .keyOnly p ∨ path = .covering p)
    (hreads : ReadsEntries rt t projection predicate s path) (hne : projection ≠ [])
    (hdata : data ∈ s.visible) (hsel : selected rt t predicate data = true) {k : OrderedValue}
    (hk : indexKey rt t p data = some k)
    (hrow : projectData rt t projection predicate data = .ok row) :
    indexOutput rt t projection path data = some row := by
  obtain ⟨hlen, heach⟩ := projectData_ok hne hrow
  rcases hpath with rfl | rfl
  · obtain ⟨name, rfl, hpos⟩ := hreads
    obtain ⟨i, hi, hval⟩ := heach 0 name rfl
    cases hpos.symm.trans hi
    obtain ⟨v, rfl⟩ := length_eq_one_iff.1 hlen
    simp only [take_zero, not_mem_nil, ↓reduceIte, key_eq_slot hk] at hval
    simp_all [indexOutput]
  · obtain ⟨hinc, hcols, hnull⟩ := hreads
    simp only [indexOutput, hk, map_some, coveringRow_eq hinc hk, some.injEq]
    refine ext_getElem? fun j => ?_
    rcases eq_none_or_eq_some projection[j]? with hj | ⟨name, hj⟩
    · rw [getElem?_eq_none (by simpa [storedRow] using hj),
        getElem?_eq_none (by simpa [hlen] using hj)]
    · obtain ⟨i, hi, hval⟩ := heach j name hj
      have hlt : i < (decodeRow rt t.columns data).length := by simpa using columnPos_lt hi
      rw [getElem?_storedRow hcols hj hi, hval]
      by_cases hmem : name ∈ projection.take j
      · simp [hmem, hnull j name hj hmem data hdata hsel i hi]
      · simp [hmem, getElem?_eq_getElem hlt]

lemma repeatsNull_of_nodup (h : projection.Nodup) : RepeatsNull rt t projection predicate s := by
  intro j name hj hmem
  obtain ⟨i, hi, hname⟩ := mem_iff_getElem.1 hmem
  rw [length_take, lt_min_iff] at hi
  rw [getElem_take] at hname
  have heq : i = j := h.getElem_inj_iff.1 (hname.trans (List.getElem_of_getElem? hj).2.symm)
  exact absurd heq (Nat.ne_of_lt hi.1)

/-! ## What equal rows say about the projection -/

/-- Where the scan finds every projected name, the branch reads it from the same column. -/
lemma columnPos_eq_entryColumn (hcol : KeyColumn rt t s p) (hprobe : probeOf t p.hit = some p)
    (hio : indexOnly t projection p.hit.column = true) {name : String} {i : Nat}
    (hname : name ∈ projection) (hi : columnPos t.columns name = some i) :
    columnPos t.columns name = entryColumn t p name := by
  have hcolumn : ∀ {name i}, columnPos t.columns name = some i →
      ∃ c ∈ t.columns, c.name = name := by
    intro name i h
    obtain ⟨hlt, h, -⟩ := findIdx?_eq_some_iff_getElem.1 h
    exact ⟨_, getElem_mem hlt, by simpa using (Bool.and_eq_true_iff.1 h).1⟩
  have hsame : ∀ {a b i j}, columnPos t.columns a = some i → columnPos t.columns b = some j →
      eqIgnoreAsciiCase a b = true → a = b := by
    intro a b i j ha hb hab
    obtain ⟨c, hc, rfl⟩ := hcolumn ha
    obtain ⟨c', hc', rfl⟩ := hcolumn hb
    exact hcol.caseless c hc c' hc' hab
  unfold entryColumn
  by_cases hkey : eqIgnoreAsciiCase name p.hit.column = true
  · rw [if_pos hkey, hsame hi hcol.live hkey, hcol.live]
  · rw [if_neg hkey]
    obtain ⟨-, -, hpos, col, hget, hinc⟩ := probeOf_eq_some hprobe
    -- without ambiguous names, the column `index_only` looks at is the indexed one
    have hfirst : t.columns.find? (fun c => eqIgnoreAsciiCase c.name p.hit.column) = some col := by
      obtain ⟨c, hc, hlive⟩ := hcolumn hcol.live
      have hcong : ∀ c' ∈ t.columns,
          eqIgnoreAsciiCase c'.name p.hit.column = (c'.name == p.hit.column) := by
        intro c' hc'
        rw [Bool.eq_iff_iff, beq_iff_eq, ← hlive]
        exact ⟨hcol.caseless c' hc' c hc, fun heq => heq ▸ eqIgnoreAsciiCase_self _⟩
      rw [find?_congr hcong, find?_eq_bind_findIdx?_getElem?, hpos]
      exact hget
    unfold indexOnly at hio
    simp only [Bool.and_eq_true, List.all_eq_true, hfirst, map_some, getD_some, ← hinc] at hio
    have hany := (Bool.or_eq_true_iff.1 (hio.2 name hname)).resolve_left hkey
    obtain ⟨ic, hfind⟩ := isSome_iff_exists.1 (find?_isSome.2 (List.any_eq_true.1 hany))
    obtain ⟨j, hj, hidx⟩ := hcol.included ic (mem_of_find?_eq_some hfind)
    rw [hfind, ← hsame hj hi (find?_some (p := fun ic => eqIgnoreAsciiCase ic name) hfind), hj]
    exact hidx.symm

section
variable (hrows : ∀ data ∈ s.visible, ∃ o, perRow rt t projection predicate data = .ok o)
include hrows

/-- The rows of the scan and of the covering branch, one of each for a selected row. -/
lemma covering_perm_iff
    (hinc : ∀ ic ∈ p.includeCols, (t.columns.findIdx? (·.name == ic)).isSome)
    (hkeys : ∀ data ∈ s.visible, selected rt t predicate data = true →
      ∃ k, indexKey rt t p data = some k) :
    (s.visible.filterMap fun data => okPart (perRow rt t projection predicate data)).Perm
        ((s.visible.filter (selected rt t predicate)).filterMap
          (indexOutput rt t projection (.covering p))) ↔
      ((s.visible.filter (selected rt t predicate)).map fun data =>
          (okPart (perRow rt t projection predicate data)).getD []).Perm
        ((s.visible.filter (selected rt t predicate)).map (storedRow rt t projection p)) := by
  rw [← filterMap_eq_map, ← filterMap_eq_map]
  refine iff_of_eq (congrArg₂ List.Perm ?_ ?_)
  · rw [filterMap_filter]
    refine filterMap_congr fun data hdata => ?_
    obtain ⟨o, ho⟩ := hrows data hdata
    obtain ⟨hsome, -⟩ := perRow_eq_ok ho
    cases o <;> simp_all [okPart]
  · refine filterMap_congr fun data hdata => ?_
    obtain ⟨hdata, hsel⟩ := mem_filter.1 hdata
    obtain ⟨k, hk⟩ := hkeys data hdata hsel
    simp [indexOutput, hk, coveringRow_eq hinc hk]

variable (hne : projection ≠ [])
include hne

/-- The scan's rows have a NULL wherever the branch's rows have one, and at every repeated name. If
both are the same multiset, the branch has no value to show there either. -/
lemma repeatsNull_of_perm
    (hcols : ∀ name ∈ projection, columnPos t.columns name = entryColumn t p name)
    (hperm : ((s.visible.filter (selected rt t predicate)).map fun data =>
          (okPart (perRow rt t projection predicate data)).getD []).Perm
        ((s.visible.filter (selected rt t predicate)).map (storedRow rt t projection p))) :
    RepeatsNull rt t projection predicate s := by
  have hscan : ∀ data ∈ s.visible.filter (selected rt t predicate), ∃ row,
      okPart (perRow rt t projection predicate data) = some row ∧
        projectData rt t projection predicate data = .ok row := by
    intro data hdata
    obtain ⟨hdata, hsel⟩ := mem_filter.1 hdata
    obtain ⟨row, ho, hrow⟩ := exists_row (hrows data hdata) hsel
    exact ⟨row, by rw [ho, okPart], hrow⟩
  have hnulls := eq_of_map_perm (q := fun v => decide (v = Literal.null)) hperm
    (fun data hdata => ?_) (fun data hdata x hx hnull => ?_)
  · intro j name hj hmem data hdata hsel i hi
    have hfilter := mem_filter.2 ⟨hdata, hsel⟩
    obtain ⟨row, ho, hrow⟩ := hscan data hfilter
    obtain ⟨i', -, hval⟩ := (projectData_ok hne hrow).2 j name hj
    rw [if_pos hmem] at hval
    have hx := hnulls data hfilter (.null, ((decodeRow rt t.columns data)[i]?).getD .null)
      (mem_of_getElem? (getElem?_zip_eq_some.2
        ⟨by rw [ho]; exact hval, getElem?_storedRow hcols hj hi⟩))
    have hlt : i < (decodeRow rt t.columns data).length := by simpa using columnPos_lt hi
    rw [getElem?_eq_getElem hlt] at hx ⊢
    simpa using hx
  · obtain ⟨row, ho, hrow⟩ := hscan data hdata
    simp [ho, (projectData_ok hne hrow).1, storedRow]
  · obtain ⟨v, w⟩ := x
    obtain ⟨row, ho, hrow⟩ := hscan data hdata
    obtain ⟨j, hj⟩ := getElem?_of_mem hx
    obtain ⟨hv, hw⟩ := getElem?_zip_eq_some.1 hj
    obtain ⟨name, hname, -⟩ := map_eq_some_iff.1 (getElem?_map.symm.trans hw)
    obtain ⟨i, hi, hval⟩ := (projectData_ok hne hrow).2 j name hname
    rw [getElem?_storedRow hcols hname hi] at hw
    rw [ho, getD_some, hval] at hv
    by_cases hmem : name ∈ projection.take j
    · simp_all
    · rw [if_neg hmem] at hv
      rw [hv] at hw
      cases hw
      exact hnull

/-- A row that the scan returns says that the branch reads its columns from where the scan does. -/
lemma columns_of_selected (hcol : KeyColumn rt t s p) (hprobe : probeOf t p.hit = some p)
    (hio : indexOnly t projection p.hit.column = true) (hdata : data ∈ s.visible)
    (hsel : selected rt t predicate data = true) :
    ∀ name ∈ projection, columnPos t.columns name = entryColumn t p name := by
  intro name hname
  obtain ⟨row, -, hrow⟩ := exists_row (hrows data hdata) hsel
  obtain ⟨j, hj⟩ := getElem?_of_mem hname
  obtain ⟨i, hi, -⟩ := (projectData_ok hne hrow).2 j name hj
  exact columnPos_eq_entryColumn hcol hprobe hio hname hi

/-- The key-only branch returns rows of one value, so the scan does. -/
lemma reads_keyOnly_of_perm (hinc : p.includeCols = [])
    (hcols : ∀ name ∈ projection, columnPos t.columns name = entryColumn t p name)
    (hperm : (s.visible.filterMap fun data => okPart (perRow rt t projection predicate data)).Perm
      ((s.visible.filter (selected rt t predicate)).filterMap
        (indexOutput rt t projection (.keyOnly p)))) (hdata : data ∈ s.visible)
    (hsel : selected rt t predicate data = true) :
    ReadsEntries rt t projection predicate s (.keyOnly p) := by
  obtain ⟨row, ho, hrow⟩ := exists_row (hrows data hdata) hsel
  have hmem : row ∈ s.visible.filterMap fun data =>
      okPart (perRow rt t projection predicate data) :=
    mem_filterMap.2 ⟨data, hdata, by simp [ho, okPart]⟩
  obtain ⟨data', -, hout⟩ := mem_filterMap.1 (hperm.mem_iff.1 hmem)
  obtain ⟨k, -, rfl⟩ := map_eq_some_iff.1 hout
  obtain ⟨hlen, heach⟩ := projectData_ok hne hrow
  obtain ⟨name, rfl⟩ := length_eq_one_iff.1 hlen.symm
  obtain ⟨i, hi, -⟩ := heach 0 name rfl
  have hentry := hcols name mem_cons_self
  simp only [entryColumn, hinc, find?_nil, bind_none, hi] at hentry
  split at hentry
  · exact ⟨name, rfl, by rw [hi, hentry]⟩
  · cases hentry

end

section
variable (hidx : ∀ p, (selectPath t st projection predicate).probe = some p →
  IndexComplete rt t p s) (hscan : heapScan rt t projection predicate s = .ok rows)
include hidx hscan

/-- **The index-only branches**, where the condition is necessary on a key column. -/
theorem indexOnly_perm_iff (h : selectPath t st projection predicate = .keyOnly p ∨
      selectPath t st projection predicate = .covering p) :
    (IndexOnlyAgrees rt t projection predicate s p (selectPath t st projection predicate) →
      ∃ out, execSelect rt t st projection predicate s = .ok out ∧ out.Perm rows) ∧
    (KeyColumn rt t s p →
      (∃ out, execSelect rt t st projection predicate s = .ok out ∧ out.Perm rows) →
      IndexOnlyAgrees rt t projection predicate s p (selectPath t st projection predicate)) := by
  obtain ⟨hrows, rfl⟩ := filterMapE_eq_ok.1 hscan
  have hprobe : (selectPath t st projection predicate).probe = some p := by
    rcases h with h | h <;> rw [h] <;> rfl
  obtain ⟨hfind, hof, -, hio, hkeyOnly⟩ := selectPath_spec hprobe
  have hio := hio (by rcases h with h | h <;> simp [h])
  have hne : projection ≠ [] := by
    rintro rfl
    simp [indexOnly] at hio
  obtain ⟨out, hout, hexec⟩ := execSelect_indexOnly h
  have hadm := indexOnly_perm_admitted hout (hidx p hprobe)
  constructor
  · rintro ⟨hsel, hreads⟩
    refine ⟨_, hexec, hadm.trans (.of_eq ?_)⟩
    rw [filterMap_filter]
    refine filterMap_congr fun data hdata => ?_
    obtain ⟨o, ho⟩ := hrows data hdata
    obtain ⟨hsome, hrow⟩ := perRow_eq_ok ho
    rw [← hsel data hdata, ho, okPart, ← hsome]
    cases o with
    | none => rfl
    | some row =>
      obtain ⟨-, k, hk, -⟩ := admitted_iff.1 ((hsel data hdata).symm.trans hsome.symm)
      exact indexOutput_of_reads h (hreads ⟨data, hdata, hsome.symm⟩) hne hdata hsome.symm hk
        (hrow row rfl)
  · rintro hcol ⟨rows, hexec', hperm⟩
    cases hexec.symm.trans hexec'
    have hsel := selected_eq_admitted hout (hidx p hprobe) hrows
      (admitted_comparable hcol (probeOf_eq_some hof).2.1 hfind) hperm
    refine ⟨hsel, ?_⟩
    rintro ⟨data, hdata, htrue⟩
    rw [filter_congr fun data hdata => (hsel data hdata).symm] at hadm
    have hperm := hperm.symm.trans hadm
    have hcols := columns_of_selected hrows hne hcol hof hio hdata htrue
    rcases h with h | h <;> rw [h] at hperm hkeyOnly ⊢
    · exact reads_keyOnly_of_perm hrows hne (hkeyOnly rfl) hcols hperm hdata htrue
    · have hinc : ∀ ic ∈ p.includeCols, (t.columns.findIdx? (·.name == ic)).isSome := by
        intro ic hic
        obtain ⟨i, -, hi⟩ := hcol.included ic hic
        simp [hi]
      refine ⟨hinc, hcols, repeatsNull_of_perm hrows hne hcols
        ((covering_perm_iff hrows hinc fun data hdata hs => ?_).1 hperm)⟩
      obtain ⟨-, k, hk, -⟩ := admitted_iff.1 ((hsel data hdata).symm.trans hs)
      exact ⟨k, hk⟩

lemma plainSelect_perm_iff (hpath : selectPath t st projection predicate = .plain p) :
    (∃ out, execSelect rt t st projection predicate s = .ok out ∧ out.Perm rows) ↔
      IndexAgrees rt t st projection predicate s := by
  have hprobe : (selectPath t st projection predicate).probe = some p := by rw [hpath]; rfl
  unfold execSelect IndexAgrees
  simp only [hpath]
  exact plain_perm_iff (hidx p hprobe) ((selectPath_spec hprobe).2.2.1 hpath) hscan

lemma execSelect_perm_of_agrees (h : IndexAgrees rt t st projection predicate s) :
    ∃ out, execSelect rt t st projection predicate s = .ok out ∧ out.Perm rows := by
  cases hpath : selectPath t st projection predicate with
  | heapScan =>
    unfold execSelect
    rw [hpath]
    exact ⟨rows, hscan, .refl _⟩
  | plain p => exact (plainSelect_perm_iff hidx hscan hpath).2 h
  | _ p =>
    refine (indexOnly_perm_iff hidx hscan (p := p) (by simp [hpath])).1 ?_
    simpa only [IndexAgrees, hpath] using h

lemma indexAgrees_of_perm
    (hcol : ∀ p, (selectPath t st projection predicate).probe = some p → KeyColumn rt t s p)
    (h : ∃ out, execSelect rt t st projection predicate s = .ok out ∧ out.Perm rows) :
    IndexAgrees rt t st projection predicate s := by
  cases hpath : selectPath t st projection predicate with
  | heapScan => simp only [IndexAgrees, hpath]
  | plain p => exact (plainSelect_perm_iff hidx hscan hpath).1 h
  | _ p =>
    have hagrees := (indexOnly_perm_iff hidx hscan (by simp [hpath])).2
      (hcol p (by rw [hpath]; rfl)) h
    simpa only [IndexAgrees, hpath] using hagrees

end

/-- **Index-assisted `SELECT` equals the heap scan exactly where `IndexAgrees` holds**, for every
table, predicate, projection, statistics and reader whose index is complete: the condition is
sufficient, and on a live key column of one type also necessary. -/
theorem select_index_iff
    (hidx : ∀ p, (selectPath t st projection predicate).probe = some p → IndexComplete rt t p s)
    {rows : List Row} (hscan : heapScan rt t projection predicate s = .ok rows) :
    (IndexAgrees rt t st projection predicate s →
        ∃ out, execSelect rt t st projection predicate s = .ok out ∧ out.Perm rows) ∧
      ((∀ p, (selectPath t st projection predicate).probe = some p → KeyColumn rt t s p) →
        (∃ out, execSelect rt t st projection predicate s = .ok out ∧ out.Perm rows) →
          IndexAgrees rt t st projection predicate s) :=
  ⟨execSelect_perm_of_agrees hidx hscan, indexAgrees_of_perm hidx hscan⟩

end

/-! ## A conjunct the index does not carry -/

/-- `tasks(k INT, owner TEXT)` with a B-tree on `k`. -/
def tasksTable : TableDef where
  name := "tasks"
  columns := [
    { name := "k", ty := .int64, index := some .btree, indexRoot := some 7 },
    { name := "owner", ty := .text }]

/-- `k = 1 AND owner = …`, the second conjunct as row security adds it. -/
def ownedTask (owner : String) : Option Expr :=
  some (.and (.binOp .eq (.column "k") (.literal (.int 1)))
    (.binOp .eq (.column "owner") (.literal (.text owner))))

/-- One committed row `(1, 'alice')` and its index entry. -/
def aliceTask : ReadState where
  pool := fun page => if page = 3 then
    [.live ⟨⟨1, 0, invalidPageId, 0, .none⟩, [.int 1, .text "alice"]⟩] else []
  pages := [3]
  trees := fun root => if root = 7 then [⟨.int 1, ⟨3, 0⟩, none⟩] else []
  snapshot := ⟨2, 2, []⟩
  xid := 2

def taskProbe : Probe := ⟨⟨"k", .eq, .int 1⟩, .int 1, 0, 7, []⟩

def noStatistics : Statistics := ⟨fun _ _ => false, fun _ => false⟩

lemma aliceTask_indexComplete : IndexComplete default tasksTable taskProbe aliceTask := by
  unfold IndexComplete
  decide +kernel

/-- `SELECT k` by a caller who is not the owner: the scan returns nothing, the index-only branch
returns the key of the row. -/
theorem index_only_ignores_owner :
    (∀ p, (selectPath tasksTable noStatistics ["k"] (ownedTask "bob")).probe = some p →
        IndexComplete default tasksTable p aliceTask) ∧
      heapScan default tasksTable ["k"] (ownedTask "bob") aliceTask = .ok [] ∧
      ¬ ∃ out, execSelect default tasksTable noStatistics ["k"] (ownedTask "bob") aliceTask =
        .ok out ∧ out.Perm [] := by
  have hprobe : (selectPath tasksTable noStatistics ["k"] (ownedTask "bob")).probe =
      some taskProbe := by decide +kernel
  have hsel : execSelect default tasksTable noStatistics ["k"] (ownedTask "bob") aliceTask =
      .ok [[.int 1]] := rfl
  refine ⟨fun p hp => ?_, rfl, ?_⟩
  · cases hprobe.symm.trans hp
    exact aliceTask_indexComplete
  · rintro ⟨out, hout, hperm⟩
    cases hsel.symm.trans hout
    cases hperm.length_eq

/-! ## A covering index -/

/-- `tasks(k INT, owner TEXT, note TEXT)` with a B-tree on `k` that includes `owner`. -/
def coveredTable : TableDef where
  name := "tasks"
  columns := [
    { name := "k", ty := .int64, index := some .btree, indexRoot := some 7,
      includeCols := ["owner"] },
    { name := "owner", ty := .text }, { name := "note", ty := .text }]

/-- Three committed rows, two of them with the key 1, and a deleted one. -/
def coveredTasks : ReadState where
  pool := fun page => if page = 3 then
    [.live ⟨⟨1, 0, invalidPageId, 0, .none⟩, [.int 1, .text "alice", .text "a"]⟩,
      .live ⟨⟨1, 0, invalidPageId, 0, .none⟩, [.int 2, .text "bob", .null]⟩,
      .live ⟨⟨1, 2, invalidPageId, 0, .none⟩, [.int 1, .text "dave", .null]⟩,
      .live ⟨⟨1, 0, invalidPageId, 0, .none⟩, [.int 1, .text "carol", .null]⟩] else []
  pages := [3]
  trees := fun root => if root = 7 then
    [⟨.int 1, ⟨3, 2⟩, some [.text "dave"]⟩, ⟨.int 1, ⟨3, 3⟩, some [.text "carol"]⟩,
      ⟨.int 1, ⟨3, 0⟩, some [.text "alice"]⟩, ⟨.int 2, ⟨3, 1⟩, some [.text "bob"]⟩] else []
  snapshot := ⟨3, 3, []⟩
  xid := 3

def coveredProbe : Probe := ⟨⟨"k", .eq, .int 1⟩, .int 1, 0, 7, ["owner"]⟩

def keyIsOne : Option Expr := some (.binOp .eq (.column "k") (.literal (.int 1)))

/-- `SELECT owner, k FROM tasks WHERE k = 1` satisfies the condition, and the branches agree. -/
theorem select_index_iff_covered :
    heapScan default coveredTable ["owner", "k"] keyIsOne coveredTasks =
        .ok [[.text "alice", .int 1], [.text "carol", .int 1]] ∧
      ∃ out, execSelect default coveredTable noStatistics ["owner", "k"] keyIsOne coveredTasks =
        .ok out ∧ out.Perm [[.text "alice", .int 1], [.text "carol", .int 1]] := by
  have hpath : selectPath coveredTable noStatistics ["owner", "k"] keyIsOne =
      .covering coveredProbe := by decide +kernel
  have hcomplete : IndexComplete default coveredTable coveredProbe coveredTasks := by
    unfold IndexComplete
    decide +kernel
  have hagrees : IndexAgrees default coveredTable noStatistics ["owner", "k"] keyIsOne
      coveredTasks := by
    unfold IndexAgrees
    rw [hpath]
    exact ⟨by decide +kernel, fun _ => ⟨by decide +kernel, by decide +kernel,
      repeatsNull_of_nodup (by decide)⟩⟩
  refine ⟨rfl, (select_index_iff (fun p hp => ?_) rfl).1 hagrees⟩
  rw [hpath] at hp
  cases hp
  exact hcomplete

end UniDb
