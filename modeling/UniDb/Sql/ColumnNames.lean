import UniDb.Catalog.Store
import UniDb.Lib.Run
import UniDb.Sql.Assign
import UniDb.Sql.Select

/-!
# Column names after ADD and DROP COLUMN (`sql/executor.rs`, `catalog.rs`)

A dropped column keeps its slot and its name. The routes by which a statement names a column find
its slot in different ways: `INSERT`, `WHERE` and `SELECT` skip dropped columns, `UPDATE SET`,
`CREATE INDEX` and `INCLUDE` take the first column of the name, and `RETURNING` counts live columns
only but reads the physical row at that position.

* `alter_later`: what a history of ADD and DROP COLUMN does to the slots.
-/

namespace UniDb

open List

/-! ## The routes -/

/-- `project_returning`: names are looked for among the live columns, and the position found there
is read in the physical row. -/
def projectReturning (t : TableDef) (retCols : List String) (rows : List Row) :
    Except DbError (List String × List Row) := do
  let live := (t.columns.filter fun c => !c.dropped).zipIdx
  let resolved ←
    if retCols.isEmpty then pure live
    else retCols.mapM fun name =>
      match live.find? fun c => eqIgnoreAsciiCase c.1.name name with
      | some c => .ok c
      | none => .error (.columnNotFound t.name name)
  pure (resolved.map fun c => c.1.name,
    rows.map fun row => resolved.map fun c => row[c.2]?.getD .null)

section
variable (columns : List ColumnDef) (t : TableDef) (row : Row) (name : String)

/-- The slot `exec_create_index` checks, marks and takes the keys from. -/
def createIndexPos : Option Nat :=
  firstColumnPos columns name

/-- The value of an `INCLUDE` column in the payload of an entry. -/
def includeValue : Literal :=
  ((firstColumnPos columns name).bind fun i => row[i]?).getD .null

inductive WriteRoute where
  | insert
  | set
deriving DecidableEq, Repr

/-- The row before the write; an `INSERT` starts from NULLs. -/
def WriteRoute.before : WriteRoute → Row
  | .insert => t.columns.map fun _ => .null
  | .set => row

def WriteRoute.write (v : Literal) : WriteRoute → Except DbError Row
  | .insert => orderValuesByColumns t (some [name]) [v]
  | .set => setColumn t.columns row name v

inductive ReadRoute where
  | whereClause
  | select
  | returning
  | returningAll
  | createIndex
  | included
deriving DecidableEq, Repr

def ReadRoute.read (rt : Runtime) (t : TableDef) (row : Row) (name : String) :
    ReadRoute → Except DbError Literal
  | .whereClause => evalExpr rt t.columns row (.column name)
  | .select => do
    let out ← projectRowDrain t.columns [name] row
    pure (out.headD .null)
  | .returning => do
    let out ← projectReturning t [name] [row]
    pure ((out.2.headD []).headD .null)
  | .returningAll => do
    let out ← projectReturning t [] [row]
    match (out.1.zip (out.2.headD [])).find? fun x => x.1 == name with
    | some x => pure x.2
    | none => .error (.columnNotFound t.name name)
  | .createIndex =>
    match createIndexPos t.columns name with
    | some i => readSlot row i
    | none => .error (.columnNotFound t.name name)
  | .included => .ok (includeValue t.columns row name)

/-! ## What the names should mean -/

/-- **A name denotes its live column**: a value written under the name while the table was `t` is
found under it by every route once the table is `t'`, no other live column is written, and
`CREATE INDEX` marks this column and no other. -/
structure DenotesColumn (rt : Runtime) (t t' : TableDef) (name : String) : Prop where
  writes : ∀ (w : WriteRoute) row v, row.length = t.columns.length →
    ∃ row', w.write t row name v = .ok row' ∧
      (∀ r : ReadRoute, r.read rt t' (decodeRow rt t'.columns row') name = .ok v) ∧
      ∀ (j : Nat) (col : ColumnDef), t.columns[j]? = some col → col.dropped = false →
        col.name ≠ name → row'[j]? = (w.before t row)[j]?
  marks : ∀ f, ∃ columns, markColumn t'.columns name f = some columns ∧
    ∀ (j : Nat) (col : ColumnDef), t'.columns[j]? = some col → col.dropped = false →
      columns[j]? = some (if col.name = name then f col else col)

/-- Before slot `i` there is no dropped column, and none of the same name up to case. -/
def Foremost (i : Nat) : Prop :=
  ∀ (j : Nat) (col : ColumnDef), j < i → columns[j]? = some col →
    col.dropped = false ∧ eqIgnoreAsciiCase col.name name = false

/-! ## Histories -/

inductive Alter where
  | add (col : ColumnDef)
  | drop (name : String)

def alterTable (t : TableEntry) : Alter → Option TableEntry
  | .add col => (t.addColumn t.name col).toOption
  | .drop name => (t.dropColumn t.name name).toOption

def LiveUnique : Prop :=
  ∀ (i j : Nat) (c d : ColumnDef), columns[i]? = some c → columns[j]? = some d → c.dropped = false →
    d.dropped = false → c.name = d.name → i = j

/-- Slots keep their name, and a dropped column stays dropped. -/
def Later (columns' : List ColumnDef) : Prop :=
  ∀ (j : Nat) (col : ColumnDef), columns[j]? = some col →
    ∃ col' : ColumnDef, columns'[j]? = some col' ∧ col'.name = col.name ∧
    (col.dropped = true → col'.dropped = true)

end

lemma Later.refl (columns : List ColumnDef) : Later columns columns :=
  fun _ col h => ⟨col, h, rfl, id⟩

lemma Later.trans {c1 c2 c3 : List ColumnDef} (h : Later c1 c2) (h' : Later c2 c3) :
    Later c1 c3 := by
  intro j col hcol
  obtain ⟨col2, h2, hn2, hd2⟩ := h j col hcol
  obtain ⟨col3, h3, hn3, hd3⟩ := h' j col2 h2
  exact ⟨col3, h3, hn3.trans hn2, fun hd => hd3 (hd2 hd)⟩

variable {t t' : TableEntry} {col : ColumnDef} {columns : List ColumnDef}

lemma addColumn_eq_ok {table : String} (h : t.addColumn table col = .ok t') :
    t'.columns = t.columns ++ [col] ∧ ∀ c ∈ t.columns, c.dropped = false → c.name ≠ col.name := by
  obtain ⟨hdup, h⟩ := ite_error_left_eq_ok.1 h
  split at h
  · cases h
  · cases h
    refine ⟨rfl, fun c hc hd hname => hdup (any_eq_true.2 ⟨c, hc, ?_⟩)⟩
    simp [hd, hname]

lemma dropColumn_eq_ok {table name : String} (h : t.dropColumn table name = .ok t') :
    ∃ i, t'.columns = t.columns.modify i fun c =>
      { c with dropped := true, index := none, constraints := {} } := by
  obtain ⟨-, h⟩ := ite_error_left_eq_ok.1 h
  split at h
  · cases h
  · split at h
    · next i _ =>
      cases h
      exact ⟨i, rfl⟩
    · cases h

lemma getElem?_dropped {i j : Nat} {col' : ColumnDef} (h : (columns.modify i fun c =>
      { c with dropped := true, index := none, constraints := {} })[j]? = some col') :
    ∃ col, columns[j]? = some col ∧ col'.name = col.name ∧ (col' = col ∨ col'.dropped = true) := by
  rw [getElem?_modify] at h
  obtain ⟨col, hcol, rfl⟩ := Option.map_eq_some_iff.1 h
  refine ⟨col, hcol, ?_⟩
  split
  · exact ⟨rfl, .inr rfl⟩
  · exact ⟨rfl, .inl rfl⟩

lemma alter_later {a : Alter} (h : alterTable t a = some t') : Later t.columns t'.columns := by
  cases a with
  | add col =>
    rw [(addColumn_eq_ok (toOption_eq_some.1 h)).1]
    intro j c hc
    have hlt : j < t.columns.length := (List.getElem?_eq_some_iff.1 hc).1
    exact ⟨c, (getElem?_append_left hlt).trans hc, rfl, id⟩
  | drop name =>
    obtain ⟨i, hcols⟩ := dropColumn_eq_ok (toOption_eq_some.1 h)
    rw [hcols]
    intro j c hc
    rw [getElem?_modify, hc]
    refine ⟨_, rfl, ?_, ?_⟩
    · split <;> rfl
    · intro hd
      split
      · rfl
      · exact hd

lemma alter_liveUnique {a : Alter} (hu : LiveUnique t.columns) (h : alterTable t a = some t') :
    LiveUnique t'.columns := by
  cases a with
  | add col =>
    obtain ⟨hcols, hnew⟩ := addColumn_eq_ok (toOption_eq_some.1 h)
    rw [hcols]
    intro i j c d hc hd hcl hdl hname
    -- a live column of the old table, or the new one
    have hcase : ∀ k e, (t.columns ++ [col])[k]? = some e →
        t.columns[k]? = some e ∨ k = t.columns.length ∧ e = col := by
      intro k e he
      by_cases hk : k < t.columns.length
      · exact .inl ((getElem?_append_left hk).symm.trans he)
      · rw [getElem?_append_right (by omega), getElem?_singleton] at he
        split at he
        · cases he
          exact .inr ⟨by omega, rfl⟩
        · cases he
    rcases hcase i c hc with hc | ⟨hi, rfl⟩ <;> rcases hcase j d hd with hd | ⟨hj, hdc⟩
    · exact hu i j c d hc hd hcl hdl hname
    · exact absurd (hdc ▸ hname) (hnew c (mem_of_getElem? hc) hcl)
    · exact absurd hname.symm (hnew d (mem_of_getElem? hd) hdl)
    · omega
  | drop name =>
    obtain ⟨k, hcols⟩ := dropColumn_eq_ok (toOption_eq_some.1 h)
    rw [hcols]
    intro i j c d hc hd hcl hdl hname
    obtain ⟨c0, hc0, hcn, rfl | hcd⟩ := getElem?_dropped hc
    · obtain ⟨d0, hd0, hdn, rfl | hdd⟩ := getElem?_dropped hd
      · exact hu i j c d hc0 hd0 hcl hdl hname
      · rw [hdl] at hdd
        cases hdd
    · rw [hcl] at hcd
      cases hcd

lemma later_of_reached (h : Reached alterTable (fun _ _ => True) t t') :
    Later t.columns t'.columns :=
  h.invariant (fun u => Later t.columns u.columns) (.refl _)
    fun _ _ _ hl _ hs => hl.trans (alter_later hs)

lemma liveUnique_of_reached (hu : LiveUnique t.columns)
    (h : Reached alterTable (fun _ _ => True) t t') : LiveUnique t'.columns :=
  h.invariant (fun u => LiveUnique u.columns) hu fun _ _ _ hl _ hs => alter_liveUnique hl hs

/-! ## Slots -/

section
variable {columns : List ColumnDef} {name : String} {i : Nat}

lemma columnPos_eq_some (h : columnPos columns name = some i) :
    (∃ col, columns[i]? = some col ∧ col.name = name ∧ col.dropped = false) ∧
      ∀ (j : Nat) (col : ColumnDef), j < i → columns[j]? = some col → col.name = name →
        col.dropped = true := by
  obtain ⟨hlt, hcol, hbefore⟩ := findIdx?_eq_some_iff_getElem.1 h
  refine ⟨⟨columns[i], getElem?_eq_getElem hlt, ?_⟩, fun j col hj hcol' hname => ?_⟩
  · simpa using hcol
  · obtain ⟨hjlt, rfl⟩ := List.getElem?_eq_some_iff.1 hcol'
    have := hbefore j hj
    simpa [hname] using this

/-- Where nothing dropped stands before it, the first column of the name is the live one. -/
lemma Foremost.firstColumnPos (h : Foremost columns name i)
    (hpos : columnPos columns name = some i) : firstColumnPos columns name = some i := by
  obtain ⟨⟨col, hcol, hname, -⟩, -⟩ := columnPos_eq_some hpos
  obtain ⟨hlt, rfl⟩ := List.getElem?_eq_some_iff.1 hcol
  refine findIdx?_eq_some_iff_getElem.2 ⟨hlt, by simpa using hname, fun j hj => ?_⟩
  have hne := (h j columns[j] hj (getElem?_eq_getElem _)).2
  rw [Bool.not_eq_true, beq_eq_false_iff_ne]
  intro heq
  rw [heq, eqIgnoreAsciiCase_self] at hne
  cases hne

/-- The position of a slot among the live columns. -/
def livePos (columns : List ColumnDef) (i : Nat) : Nat :=
  ((columns.take i).filter fun c => !c.dropped).length

lemma livePos_le : livePos columns i ≤ i :=
  le_trans (length_filter_le ..) (length_take_le ..)

lemma getElem?_livePos (hcol : columns[i]? = some col) (hlive : col.dropped = false) :
    (columns.filter fun c => !c.dropped)[livePos columns i]? = some col := by
  obtain ⟨hlt, rfl⟩ := List.getElem?_eq_some_iff.1 hcol
  have hsplit : columns.filter (fun c => !c.dropped) =
      (columns.take i).filter (fun c => !c.dropped) ++
        columns[i] :: (columns.drop (i + 1)).filter fun c => !c.dropped := by
    conv_lhs => rw [← take_append_drop i columns, ← getElem_cons_drop hlt]
    rw [filter_append, filter_cons_of_pos (by simp [hlive])]
  rw [hsplit, livePos, getElem?_append_right (le_refl _), Nat.sub_self]
  rfl

lemma livePos_eq_iff (hi : i ≤ columns.length) : livePos columns i = i ↔
      ∀ (j : Nat) (col : ColumnDef), j < i → columns[j]? = some col → col.dropped = false := by
  have hlen : (columns.take i).length = i := length_take_of_le hi
  constructor
  · intro h j col hj hcol
    have hall := length_filter_eq_length_iff.1 (h.trans hlen.symm)
    have hmem : col ∈ columns.take i :=
      mem_of_getElem? ((getElem?_take_of_lt hj).trans hcol)
    simpa using hall col hmem
  · intro h
    rw [livePos, filter_eq_self.2, hlen]
    intro col hmem
    obtain ⟨j, hj⟩ := getElem?_of_mem hmem
    obtain ⟨hjlt, -⟩ := List.getElem?_eq_some_iff.1 hj
    rw [hlen] at hjlt
    simp [h j col hjlt ((getElem?_take_of_lt hjlt).symm.trans hj)]

lemma find_live {P : ColumnDef → Bool} (hcol : columns[i]? = some col)
    (hlive : col.dropped = false) (hP : P col = true)
    (hbefore : ∀ (j : Nat) (c : ColumnDef), j < i → columns[j]? = some c →
      c.dropped = false ∧ P c = false) :
    (columns.filter fun c => !c.dropped).zipIdx.find? (fun c => P c.1) = some (col, i) := by
  have hilt : i < columns.length := (List.getElem?_eq_some_iff.1 hcol).1
  have hat : ∀ (j : Nat) (c : ColumnDef), j ≤ i → columns[j]? = some c → c.dropped = false →
      (columns.filter fun c => !c.dropped)[j]? = some c := by
    intro j c hj hc hd
    have hpos : livePos columns j = j := (livePos_eq_iff (by omega)).2 fun k d hk hd =>
      (hbefore k d (by omega) hd).1
    rw [← getElem?_livePos hc hd, hpos]
  have hi := hat i col (le_refl _) hcol hlive
  obtain ⟨hlt, hget⟩ := List.getElem?_eq_some_iff.1 hi
  refine find?_eq_some_iff_getElem.2 ⟨hP, i, by simpa using hlt, by simp [hget], ?_⟩
  intro j hj
  have hjc : columns[j]? = some columns[j] := getElem?_eq_getElem _
  obtain ⟨hd, hPj⟩ := hbefore j _ hj hjc
  obtain ⟨hjlt, hjget⟩ := List.getElem?_eq_some_iff.1 (hat j _ (by omega) hjc hd)
  simp [hjget, hPj]

lemma getElem?_decodeRow {rt : Runtime} {data : Row} {v : Literal} (hi : i < columns.length)
    (hv : data[i]? = some v) : (decodeRow rt columns data)[i]? = some v := by
  rw [decodeRow, getElem?_mapIdx, getElem?_eq_getElem hi, hv]
  rfl

end

/-! ## Every route at the live slot -/

section
variable {rt : Runtime} {t : TableDef} {name : String} {i : Nat} {row : Row} {v : Literal}

lemma read_returning : ReadRoute.returning.read rt t row name =
    match (t.columns.filter fun c => !c.dropped).zipIdx.find?
      fun c => eqIgnoreAsciiCase c.1.name name with
    | some c => .ok (row[c.2]?.getD .null)
    | none => .error (.columnNotFound t.name name) := by
  cases h : (t.columns.filter fun c => !c.dropped).zipIdx.find?
    (fun c => eqIgnoreAsciiCase c.1.name name) with
  | some c => simp [ReadRoute.read, projectReturning, h, bind, Except.bind, pure, Except.pure]
  | none => simp [ReadRoute.read, projectReturning, h, bind, Except.bind]

lemma read_returningAll : ReadRoute.returningAll.read rt t row name =
    match (t.columns.filter fun c => !c.dropped).zipIdx.find? fun c => c.1.name == name with
    | some c => .ok (row[c.2]?.getD .null)
    | none => .error (.columnNotFound t.name name) := by
  have hzip : ∀ l : List (ColumnDef × Nat),
      ((l.map fun c => c.1.name).zip (l.map fun c => row[c.2]?.getD .null)).find?
        (fun x => x.1 == name) =
      (l.find? fun c => c.1.name == name).map fun c => (c.1.name, row[c.2]?.getD .null) := by
    intro l
    rw [zip_map', find?_map]
    rfl
  simp only [ReadRoute.read, projectReturning, isEmpty_nil, if_true, bind, Except.bind, pure,
    Except.pure, map_cons, headD_cons, hzip]
  cases (t.columns.filter fun c => !c.dropped).zipIdx.find? fun c => c.1.name == name <;> rfl

/-- **Reading**: with nothing in the way, every route finds the value of the live slot. -/
theorem Foremost.read (h : Foremost t.columns name i) (hpos : columnPos t.columns name = some i)
    (hv : row[i]? = some v) (r : ReadRoute) : r.read rt t row name = .ok v := by
  obtain ⟨⟨col, hcol, hname, hlive⟩, -⟩ := columnPos_eq_some hpos
  have hfirst := h.firstColumnPos hpos
  have hslot : readSlot row i = .ok v := by simp [readSlot, hv]
  cases r with
  | whereClause => simp [ReadRoute.read, evalExpr, hpos, hslot]
  | select =>
    simp [ReadRoute.read, projectRowDrain, drainColumns, hpos, hslot, bind, Except.bind, pure,
      Except.pure]
  | returning =>
    rw [read_returning, find_live hcol hlive (by rw [hname, eqIgnoreAsciiCase_self]) h]
    simp [hv]
  | returningAll =>
    have hbefore : ∀ (j : Nat) (c : ColumnDef), j < i → t.columns[j]? = some c →
        c.dropped = false ∧ (c.name == name) = false := by
      intro j c hj hc
      obtain ⟨hd, hne⟩ := h j c hj hc
      refine ⟨hd, beq_eq_false_iff_ne.2 fun heq => ?_⟩
      rw [heq, eqIgnoreAsciiCase_self] at hne
      cases hne
    rw [read_returningAll, find_live hcol hlive (by simp [hname])
      hbefore]
    simp [hv]
  | createIndex => simp [ReadRoute.read, createIndexPos, hfirst, hslot]
  | included => simp [ReadRoute.read, includeValue, hfirst, hv]

lemma insert_write (hpos : columnPos t.columns name = some i) :
    WriteRoute.insert.write t row name v = .ok ((t.columns.map fun _ => Literal.null).set i v) := by
  simp [WriteRoute.write, orderValuesByColumns, columnIndex, hpos, bind, Except.bind, pure,
    Except.pure]

/-- **Writing**: both routes set the live slot. -/
theorem Foremost.write (h : Foremost t.columns name i) (hpos : columnPos t.columns name = some i)
    (w : WriteRoute) : w.write t row name v = .ok ((w.before t row).set i v) := by
  cases w with
  | insert => exact insert_write hpos
  | set => exact setColumn_eq_ok.2 ⟨i, h.firstColumnPos hpos, rfl⟩

/-- What an `INSERT` gives to other slots is not what `RETURNING` should return: it must have read
the live one. -/
lemma foremost_of_returning {t' : TableDef}
    (hpos : columnPos t.columns name = some i) (hpos' : columnPos t'.columns name = some i)
    (h : ReadRoute.returning.read rt t'
      (decodeRow rt t'.columns ((t.columns.map fun _ => Literal.null).set i (.int 1))) name =
        .ok (.int 1)) : Foremost t'.columns name i := by
  obtain ⟨⟨col, hcol, hname, hlive⟩, -⟩ := columnPos_eq_some hpos'
  obtain ⟨⟨col0, hcol0, -⟩, -⟩ := columnPos_eq_some hpos
  have hlt : i < t'.columns.length := (List.getElem?_eq_some_iff.1 hcol).1
  have hlt0 : i < t.columns.length := (List.getElem?_eq_some_iff.1 hcol0).1
  rw [read_returning] at h
  split at h
  · next c hfind =>
    obtain ⟨-, k, hk, hget, hbefore⟩ := find?_eq_some_iff_getElem.1 hfind
    have hck : c.2 = k := by simp [← hget]
    have hno : ∀ (j : Nat) (d : ColumnDef), j < k →
        (t'.columns.filter fun c => !c.dropped)[j]? = some d →
        eqIgnoreAsciiCase d.name name = false := by
      intro j d hj hd
      obtain ⟨hjlt, rfl⟩ := List.getElem?_eq_some_iff.1 hd
      simpa using hbefore j hj
    -- the position found is at most that of the column itself among the live ones
    have hkpos : k ≤ livePos t'.columns i := by
      by_contra hlt
      have := hno _ col (by omega) (getElem?_livePos hcol hlive)
      rw [hname, eqIgnoreAsciiCase_self] at this
      cases this
    have hle : livePos t'.columns i ≤ i := livePos_le
    have hki : k = i := by
      by_contra hne
      have hnull : ((t.columns.map fun _ => Literal.null).set i (.int 1))[k]? = some .null := by
        rw [getElem?_set_ne (Ne.symm hne), getElem?_map,
          getElem?_eq_getElem (by omega)]
        rfl
      rw [hck, getElem?_decodeRow (by omega) hnull] at h
      cases h
    have hall := (livePos_eq_iff (le_of_lt hlt)).1 (by omega)
    intro j d hj hd
    have hdlive := hall j d hj hd
    have hjpos : livePos t'.columns j = j :=
      (livePos_eq_iff (by omega)).2 fun l e hl he => hall l e (by omega) he
    exact ⟨hdlive, hno j d (by omega) (hjpos ▸ getElem?_livePos hd hdlive)⟩
  · cases h

lemma Foremost.earlier {columns' : List ColumnDef} (h : Foremost columns' name i)
    (hlater : Later columns columns') : Foremost columns name i := by
  intro j col hj hcol
  obtain ⟨col', hcol', hname, hdropped⟩ := hlater j col hcol
  obtain ⟨hd, hne⟩ := h j col' hj hcol'
  rw [hname] at hne
  refine ⟨?_, hne⟩
  cases hcd : col.dropped with
  | false => rfl
  | true =>
    rw [hdropped hcd] at hd
    cases hd

lemma Foremost.marks (h : Foremost t.columns name i) (hpos : columnPos t.columns name = some i)
    (hunique : LiveUnique t.columns) (f : ColumnDef → ColumnDef) :
    ∃ columns, markColumn t.columns name f = some columns ∧
      ∀ (j : Nat) (col : ColumnDef), t.columns[j]? = some col → col.dropped = false →
        columns[j]? = some (if col.name = name then f col else col) := by
  obtain ⟨⟨col, hcol, hname, hlive⟩, -⟩ := columnPos_eq_some hpos
  refine ⟨t.columns.modify i f, by simp [markColumn, h.firstColumnPos hpos], ?_⟩
  intro j d hd hdlive
  rw [getElem?_modify, hd]
  by_cases hdname : d.name = name
  · have hij := hunique i j col d hcol hd hlive hdlive (hname.trans hdname.symm)
    simp [hij, hdname]
  · have hij : i ≠ j := by
      rintro rfl
      cases hcol.symm.trans hd
      exact hdname hname
    simp [hij, hdname]

end

/-- **When names denote their columns.** After any history of ADD and DROP COLUMN, and any further
one between the write and the read, all routes mean the live column of a name exactly when no
dropped column stands before it and none whose name differs only in case. -/
theorem denotes_column_iff (rt : Runtime) (t₀ t t' : TableEntry) (name : String) (i : Nat)
    (hcreated : LiveUnique t₀.columns) (hbefore : Reached alterTable (fun _ _ => True) t₀ t)
    (hafter : Reached alterTable (fun _ _ => True) t t')
    (hpos : columnPos t.columns name = some i) (hpos' : columnPos t'.columns name = some i) :
    DenotesColumn rt t.toTableDef t'.toTableDef name ↔ Foremost t'.columns name i := by
  have hlater := later_of_reached hafter
  constructor
  · intro h
    obtain ⟨row', hwrite, hreads, -⟩ := h.writes .insert (t.columns.map fun _ => .null) (.int 1)
      (length_map _)
    cases (insert_write hpos).symm.trans hwrite
    exact foremost_of_returning hpos hpos' (hreads .returning)
  · intro h
    have h0 := h.earlier hlater
    obtain ⟨⟨col, hcol, hname, hlive⟩, -⟩ := columnPos_eq_some hpos
    obtain ⟨⟨col', hcol', -⟩, -⟩ := columnPos_eq_some hpos'
    refine ⟨fun w row v hlen => ⟨_, h0.write hpos w, fun r => h.read hpos' ?_ r, ?_⟩,
      h.marks hpos' (liveUnique_of_reached (liveUnique_of_reached hcreated hbefore) hafter)⟩
    · refine getElem?_decodeRow (List.getElem?_eq_some_iff.1 hcol').1 (getElem?_set_self ?_)
      have hlt := (List.getElem?_eq_some_iff.1 hcol).1
      cases w with
      | insert => simpa [WriteRoute.before] using hlt
      | set => exact hlen ▸ hlt
    · intro j d hd hdlive hdname
      refine getElem?_set_ne ?_
      rintro rfl
      cases hcol.symm.trans hd
      exact hdname hname

/-! ## Two histories -/

/-- `people(name TEXT, age INT, city TEXT)`. -/
def peopleTable : TableEntry :=
  { name := "people"
    columns := [{ name := "name", ty := .text }, { name := "age", ty := .int64 },
      { name := "city", ty := .text }] }

def altered (t : TableEntry) (steps : List Alter) : TableEntry := runState alterTable t steps

lemma liveUnique_of_nodup (h : (columns.map fun c => c.name).Nodup) : LiveUnique columns := by
  intro i j c d hc hd _ _ hname
  have hi : (columns.map fun c => c.name)[i]? = some c.name := by simp [hc]
  have hj : (columns.map fun c => c.name)[j]? = some c.name := by simp [hd, hname]
  obtain ⟨hilt, hi⟩ := List.getElem?_eq_some_iff.1 hi
  obtain ⟨hjlt, hj⟩ := List.getElem?_eq_some_iff.1 hj
  exact (h.getElem_inj_iff).1 (hi.trans hj.symm)

/-- Dropping `city` and adding `mail` leaves `age` where it was. -/
theorem denotes_column_iff_age : DenotesColumn default peopleTable.toTableDef
      (altered peopleTable [.drop "city", .add { name := "mail", ty := .text }]).toTableDef
      "age" := by
  refine (denotes_column_iff default peopleTable peopleTable
    (altered peopleTable [.drop "city", .add { name := "mail", ty := .text }]) "age" 1
    (liveUnique_of_nodup (by decide)) .init
    (reached_runState (by simp) (by decide +kernel)) (by decide +kernel)
    (by decide +kernel)).2 ?_
  intro j col hj hcol
  obtain rfl : j = 0 := by omega
  have hname : (altered peopleTable
      [.drop "city", .add { name := "mail", ty := .text }]).columns[0]? =
        some { name := "name", ty := .text } := by decide +kernel
  cases hname.symm.trans hcol
  exact ⟨rfl, by decide⟩

/-- `DROP COLUMN age`, `ADD COLUMN age INT`. -/
def readdAge : List Alter := [.drop "age", .add { name := "age", ty := .int64 }]

def readded : TableEntry := altered peopleTable readdAge

/-- `UPDATE SET age = 2` writes the slot of the column dropped before. -/
theorem readded_column_lost :
    ¬ ∀ (rt : Runtime) (t₀ t t' : TableEntry) (name : String) (i : Nat), LiveUnique t₀.columns →
      Reached alterTable (fun _ _ => True) t₀ t → Reached alterTable (fun _ _ => True) t t' →
      columnPos t.columns name = some i → columnPos t'.columns name = some i →
      DenotesColumn rt t.toTableDef t'.toTableDef name := by
  intro h
  have hpos : columnPos readded.columns "age" = some 3 := by decide +kernel
  have hreached : Reached alterTable (fun _ _ => True) peopleTable
      (runState alterTable peopleTable readdAge) :=
    reached_runState (by simp) (by decide +kernel)
  have hdenotes := h default peopleTable readded readded "age" 3
    (liveUnique_of_nodup (by decide)) hreached .init hpos hpos
  obtain ⟨row', hwrite, hread, -⟩ := hdenotes.writes .set
    [.text "ann", .null, .text "bonn", .int 1] (.int 2) (by decide +kernel)
  have hslot : setColumn readded.columns [.text "ann", .null, .text "bonn", .int 1] "age" (.int 2) =
      .ok [.text "ann", .int 2, .text "bonn", .int 1] := by decide +kernel
  cases hslot.symm.trans hwrite
  have hold : ReadRoute.whereClause.read default readded.toTableDef
      (decodeRow default readded.columns [.text "ann", .int 2, .text "bonn", .int 1]) "age" =
        .ok (.int 1) := by decide +kernel
  exact absurd (hold.symm.trans (hread .whereClause)) (by decide)

end UniDb
