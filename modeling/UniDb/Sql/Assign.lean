import UniDb.Sql.Decode
import UniDb.Sql.Dml

/-!
# `SET` lists (`sql/executor.rs`: `apply_single_row_update`, `exec_update`)

All three writers of an `UPDATE` evaluate the `SET` list on the row they are modifying, one
assignment after the other (`applyAssignments`). What an `UPDATE` is for is `assignAtOnce`: every
right-hand side is taken on the row as it was.

* `applyAssignments_of_undisturbed`: the two agree when no right-hand side notices the assignments
  made before it.
-/

namespace UniDb

open List Prod

/-! ## The three writers -/

inductive SetPath where
  | singleRow
  | hotBatch
  | nonHotBatch
deriving DecidableEq, Repr

section
variable (rt : Runtime) (t : TableDef) (c : Caller) (assignments : List (String × Expr)) (row : Row)

/-- The row `apply_single_row_update` hands to `coerce_and_validate_row`. -/
def singleRowAssigned : Except DbError Row :=
  applyAssignments rt t.columns row assignments

def hotBatchAssigned : Except DbError Row :=
  applyAssignments rt t.columns row assignments

def nonHotBatchAssigned : Except DbError Row :=
  applyAssignments rt t.columns row assignments

def SetPath.assigned : SetPath → Except DbError Row
  | .singleRow => singleRowAssigned rt t assignments row
  | .hotBatch => hotBatchAssigned rt t assignments row
  | .nonHotBatch => nonHotBatchAssigned rt t assignments row

/-- What all three do with the assigned row before it goes to the heap. -/
def acceptRow (assigned : Row) : Except DbError Row := do
  let coerced ← validateRow rt t assigned
  execUpdateWithCheck rt t c coerced
  pure coerced

def SetPath.newRow (path : SetPath) (assignments : List (String × Expr)) (row : Row) :
    Except DbError Row := do
  acceptRow rt t c (← path.assigned rt t assignments row)

/-- The statement's semantics: every right-hand side on the row as it was. -/
def assignAtOnce (columns : List ColumnDef) (row : Row) (assignments : List (String × Expr)) :
    Except DbError Row :=
  assignments.foldlM
    (fun acc (name, e) => do setColumn columns acc name (← evalExpr rt columns row e)) row

/-- **`UPDATE` assigns simultaneously**: in whatever order the list is written, every path leaves
the row of `assignAtOnce` and writes what becomes of it, or writes nothing where there is no such
row. -/
def SetsSimultaneously : Prop :=
  ∀ order, order.Perm assignments → ∀ path : SetPath,
    (path.assigned rt t order row).toOption = (assignAtOnce rt t.columns row assignments).toOption ∧
      (path.newRow rt t c order row).toOption =
        ((assignAtOnce rt t.columns row assignments).bind (acceptRow rt t c)).toOption

end

def setPos (columns : List ColumnDef) (name : String) : Option Nat :=
  columns.findIdx? fun c => c.name == name

section
variable (rt : Runtime) (columns : List ColumnDef) (row : Row) (assignments : List (String × Expr))

/-- Every assigned column exists and every right-hand side has a value on the row. -/
def Evaluates : Prop :=
  ∀ a ∈ assignments, (∃ i, setPos columns a.1 = some i) ∧
    ∃ v, evalExpr rt columns row a.2 = .ok v

/-- No right-hand side changes its value when some of the other columns have been assigned. -/
def Undisturbed : Prop :=
  ∀ before a after row', (before ++ a :: after).Perm assignments →
    assignAtOnce rt columns row before = .ok row' →
      evalExpr rt columns row' a.2 = evalExpr rt columns row a.2

end

/-! ## Setting columns -/

section
variable {rt : Runtime} {columns : List ColumnDef} {row row' : Row}

lemma setColumn_eq_ok {name : String} {v : Literal} : setColumn columns row name v = .ok row' ↔
      ∃ i, setPos columns name = some i ∧ row' = row.set i v := by
  unfold setColumn setPos
  cases columns.findIdx? fun c => c.name == name with
  | none => simp
  | some i => simp [eq_comm]

lemma setPos_ne {name name' : String} {i j : Nat} (hne : name ≠ name')
    (hi : setPos columns name = some i) (hj : setPos columns name' = some j) : i ≠ j := by
  rintro rfl
  obtain ⟨hlt, hname, -⟩ := findIdx?_eq_some_iff_getElem.1 hi
  obtain ⟨hlt', hname', -⟩ := findIdx?_eq_some_iff_getElem.1 hj
  simp only [beq_iff_eq] at hname hname'
  exact hne (hname.symm.trans hname')

lemma applyAssignments_append (as bs : List (String × Expr)) :
    applyAssignments rt columns row (as ++ bs) =
      applyAssignments rt columns row as >>= fun r => applyAssignments rt columns r bs :=
  foldlM_append ..

variable {a : String × Expr} {as : List (String × Expr)}

lemma applyAssignments_cons_eq_ok : applyAssignments rt columns row (a :: as) = .ok row' ↔
      ∃ v i, evalExpr rt columns row a.2 = .ok v ∧ setPos columns a.1 = some i ∧
        applyAssignments rt columns (row.set i v) as = .ok row' := by
  unfold applyAssignments
  rw [foldlM_cons]
  simp only [bind_eq_ok, setColumn_eq_ok]
  constructor
  · rintro ⟨r, ⟨v, hv, i, hi, rfl⟩, h⟩
    exact ⟨v, i, hv, hi, h⟩
  · rintro ⟨v, i, hv, hi, h⟩
    exact ⟨_, ⟨v, hv, i, hi, rfl⟩, h⟩

lemma applyAssignments_snoc_eq_ok : applyAssignments rt columns row (as ++ [a]) = .ok row' ↔
      ∃ r v i, applyAssignments rt columns row as = .ok r ∧ evalExpr rt columns r a.2 = .ok v ∧
        setPos columns a.1 = some i ∧ row' = r.set i v := by
  rw [applyAssignments_append, bind_eq_ok]
  simp only [applyAssignments_cons_eq_ok]
  constructor
  · rintro ⟨r, hr, v, i, hv, hi, h⟩
    cases h
    exact ⟨r, v, i, hr, hv, hi, rfl⟩
  · rintro ⟨r, v, i, hr, hv, hi, rfl⟩
    exact ⟨r, hr, v, i, hv, hi, rfl⟩

lemma assignAtOnce_snoc_eq_ok : assignAtOnce rt columns row (as ++ [a]) = .ok row' ↔
      ∃ r v i, assignAtOnce rt columns row as = .ok r ∧ evalExpr rt columns row a.2 = .ok v ∧
        setPos columns a.1 = some i ∧ row' = r.set i v := by
  unfold assignAtOnce
  rw [foldlM_append]
  simp only [foldlM_cons, bind_eq_ok, setColumn_eq_ok]
  constructor
  · rintro ⟨r, hr, r', ⟨v, hv, i, hi, rfl⟩, h⟩
    cases h
    exact ⟨r, v, i, hr, hv, hi, rfl⟩
  · rintro ⟨r, v, i, hr, hv, hi, rfl⟩
    exact ⟨r, hr, _, ⟨v, hv, i, hi, rfl⟩, rfl⟩

lemma applyAssignments_frame (h : applyAssignments rt columns row as = .ok row') :
    row'.length = row.length ∧
      ∀ j, (∀ a ∈ as, setPos columns a.1 ≠ some j) → row'[j]? = row[j]? := by
  induction as generalizing row with
  | nil =>
    cases h
    exact ⟨rfl, fun _ _ => rfl⟩
  | cons a as ih =>
    obtain ⟨v, i, -, hi, h⟩ := applyAssignments_cons_eq_ok.1 h
    obtain ⟨hlen, hframe⟩ := ih h
    refine ⟨by rw [hlen, length_set], fun j hj => ?_⟩
    rw [forall_mem_cons] at hj
    have hij : i ≠ j := by
      rintro rfl
      exact hj.1 hi
    rw [hframe j hj.2, getElem?_set_ne hij]

lemma evaluates_of_assignAtOnce (h : assignAtOnce rt columns row as = .ok row') :
    Evaluates rt columns row as := by
  induction as using List.reverseRecOn generalizing row' with
  | nil => simp [Evaluates]
  | append_singleton as a ih =>
    obtain ⟨r, v, i, hr, hv, hi, rfl⟩ := assignAtOnce_snoc_eq_ok.1 h
    exact forall_mem_append.2 ⟨ih hr, forall_mem_singleton.2 ⟨⟨i, hi⟩, v, hv⟩⟩

lemma Evaluates.assignAtOnce (h : Evaluates rt columns row as) :
    ∃ r, assignAtOnce rt columns row as = .ok r := by
  induction as using List.reverseRecOn with
  | nil => exact ⟨row, rfl⟩
  | append_singleton as a ih =>
    obtain ⟨r, hr⟩ := ih fun b hb => h b (mem_append.2 (.inl hb))
    obtain ⟨⟨i, hi⟩, v, hv⟩ := h a (by simp)
    exact ⟨r.set i v, assignAtOnce_snoc_eq_ok.2 ⟨r, v, i, hr, hv, hi, rfl⟩⟩

lemma assignAtOnce_spec (hnd : (as.map fst).Nodup) (hlen : row.length = columns.length)
    (h : assignAtOnce rt columns row as = .ok row') : row'.length = row.length ∧
      (∀ j, (∀ a ∈ as, setPos columns a.1 ≠ some j) → row'[j]? = row[j]?) ∧
      ∀ a ∈ as, ∀ i v, setPos columns a.1 = some i → evalExpr rt columns row a.2 = .ok v →
        row'[i]? = some v := by
  induction as using List.reverseRecOn generalizing row' with
  | nil =>
    cases h
    exact ⟨rfl, fun _ _ => rfl, by simp⟩
  | append_singleton as a ih =>
    obtain ⟨r, v, i, hr, hv, hi, rfl⟩ := assignAtOnce_snoc_eq_ok.1 h
    rw [map_append, nodup_append] at hnd
    obtain ⟨hnd', -, hdis⟩ := hnd
    obtain ⟨hrlen, hframe, hset⟩ := ih hnd' hr
    have hne : ∀ b ∈ as, ∀ j, setPos columns b.1 = some j → i ≠ j := fun b hb j hj =>
      (setPos_ne (hdis b.1 (mem_map_of_mem hb) a.1 (by simp)) hj hi).symm
    refine ⟨by rw [length_set, hrlen], fun j hj => ?_, fun b hb j w hj hw => ?_⟩
    · have hij : i ≠ j := by
        rintro rfl
        exact hj a (by simp) hi
      rw [getElem?_set_ne hij]
      exact hframe j fun b hb => hj b (mem_append.2 (.inl hb))
    · rcases mem_append.1 hb with hb | hb
      · rw [getElem?_set_ne (hne b hb j hj)]
        exact hset b hb j w hj hw
      · rw [mem_singleton.1 hb] at hj hw
        cases hi.symm.trans hj
        cases hv.symm.trans hw
        have hlt : i < r.length := by
          rw [hrlen, hlen]
          exact (findIdx?_eq_some_iff_getElem.1 hi).1
        rw [getElem?_set_self hlt]

lemma assignAtOnce_perm {order : List (String × Expr)} (hperm : order.Perm as)
    (hnd : (as.map fst).Nodup) (hlen : row.length = columns.length) {r : Row}
    (h : assignAtOnce rt columns row as = .ok r) : assignAtOnce rt columns row order = .ok r := by
  have heval := evaluates_of_assignAtOnce h
  have heval' : Evaluates rt columns row order := fun a ha => heval a (hperm.mem_iff.1 ha)
  obtain ⟨r', h'⟩ := heval'.assignAtOnce
  obtain ⟨-, hframe, hset⟩ := assignAtOnce_spec hnd hlen h
  obtain ⟨-, hframe', hset'⟩ :=
    assignAtOnce_spec ((hperm.map fst).nodup_iff.2 hnd) hlen h'
  rw [h']
  refine congrArg _ (ext_getElem? fun j => ?_)
  by_cases hj : ∀ a ∈ as, setPos columns a.1 ≠ some j
  · rw [hframe j hj, hframe' j fun a ha => hj a (hperm.mem_iff.1 ha)]
  · push Not at hj
    obtain ⟨a, ha, haj⟩ := hj
    obtain ⟨-, v, hv⟩ := heval a ha
    rw [hset a ha j v haj hv, hset' a (hperm.mem_iff.2 ha) j v haj hv]

/-! ## One after the other, and at once -/

lemma applyAssignments_of_undisturbed (heval : Evaluates rt columns row as)
    (hund : Undisturbed rt columns row as) : ∀ before after, (before ++ after).Perm as →
      applyAssignments rt columns row before = assignAtOnce rt columns row before := by
  intro before
  induction before using List.reverseRecOn with
  | nil => exact fun _ _ => rfl
  | append_singleton before a ih =>
    intro after hperm
    rw [append_assoc] at hperm
    have hprefix := ih (a :: after) hperm
    have hbefore : Evaluates rt columns row before := fun b hb =>
      heval b (hperm.mem_iff.1 (mem_append.2 (.inl hb)))
    obtain ⟨r, hr⟩ := hbefore.assignAtOnce
    obtain ⟨⟨i, hi⟩, v, hv⟩ := heval a (hperm.mem_iff.1 (by simp))
    have hsame := hund before a after r hperm hr
    rw [assignAtOnce_snoc_eq_ok.2 ⟨r, v, i, hr, hv, hi, rfl⟩]
    exact applyAssignments_snoc_eq_ok.2 ⟨r, v, i, hprefix.trans hr, hsame.trans hv, hi, rfl⟩

section

variable (hnd : (as.map fst).Nodup) (hlen : row.length = columns.length)
include hnd hlen

/-- Conversely, a run that ends in the simultaneous row has taken every right-hand side as if on the
old row. -/
lemma applyAssignments_prefix {final : Row}
    (hseq : applyAssignments rt columns row as = .ok final)
    (honce : assignAtOnce rt columns row as = .ok final) :
    ∀ before a after, as = before ++ a :: after → ∃ r,
      applyAssignments rt columns row before = .ok r ∧ assignAtOnce rt columns row before = .ok r ∧
        evalExpr rt columns r a.2 = evalExpr rt columns row a.2 := by
  have hvalue := (assignAtOnce_spec hnd hlen honce).2.2
  have heval := evaluates_of_assignAtOnce honce
  -- the value of one step is still there at the end
  have hstep : ∀ before a after r, as = before ++ a :: after →
      applyAssignments rt columns row before = .ok r →
        evalExpr rt columns r a.2 = evalExpr rt columns row a.2 := by
    intro before a after r heq hr
    have hmem : a ∈ as := by simp [heq]
    obtain ⟨-, w, hw⟩ := heval a hmem
    rw [heq, applyAssignments_append, bind_eq_ok] at hseq
    obtain ⟨r', hr', hseq⟩ := hseq
    cases hr.symm.trans hr'
    obtain ⟨v, i, hv, hi, hrest⟩ := applyAssignments_cons_eq_ok.1 hseq
    have hafter : ∀ b ∈ after, setPos columns b.1 ≠ some i := by
      intro b hb hbi
      rw [heq, map_append, map_cons, nodup_append, nodup_cons] at hnd
      have hne : b.1 ≠ a.1 := fun he => hnd.2.1.1 (he ▸ mem_map_of_mem hb)
      exact setPos_ne hne hbi hi rfl
    have hkeep := (applyAssignments_frame hrest).2 i hafter
    have hlt : i < r.length := by
      rw [(applyAssignments_frame hr).1, hlen]
      exact (findIdx?_eq_some_iff_getElem.1 hi).1
    rw [getElem?_set_self hlt, hvalue a hmem i w hi hw] at hkeep
    rw [hv, hw, Option.some.inj hkeep]
  intro before
  induction before using List.reverseRecOn with
  | nil => exact fun a after heq => ⟨row, rfl, rfl, rfl⟩
  | append_singleton before b ih =>
    intro a after heq
    have heq' : as = before ++ b :: (a :: after) := by rw [heq, append_assoc]; rfl
    obtain ⟨r, hr, hr', hb⟩ := ih b (a :: after) heq'
    obtain ⟨⟨i, hi⟩, v, hv⟩ := heval b (by simp [heq])
    have hnext : applyAssignments rt columns row (before ++ [b]) = .ok (r.set i v) :=
      applyAssignments_snoc_eq_ok.2 ⟨r, v, i, hr, hb.trans hv, hi, rfl⟩
    exact ⟨r.set i v, hnext, assignAtOnce_snoc_eq_ok.2 ⟨r, v, i, hr', hv, hi, rfl⟩,
      hstep _ a after _ heq hnext⟩

lemma undisturbed_of_reads (hreads : ∀ a ∈ as, ∀ b ∈ as, a ≠ b → ∀ i ∈ exprColumns columns a.2,
      setPos columns b.1 ≠ some i) : Undisturbed rt columns row as := by
  intro before a after row' hperm hrow'
  have hnd' := (hperm.map fst).nodup_iff.2 hnd
  rw [map_append, nodup_append] at hnd'
  refine evalExpr_congr fun i hi => ?_
  refine (assignAtOnce_spec hnd'.1 hlen hrow').2.1 i fun b hb => ?_
  have hne : a ≠ b := by
    rintro rfl
    exact hnd'.2.2 a.1 (mem_map_of_mem hb) a.1 (by simp) rfl
  exact hreads a (hperm.mem_iff.1 (by simp)) b (hperm.mem_iff.1 (mem_append.2 (.inl hb))) hne i hi

lemma undisturbed_of_simultaneous {final : Row}
    (honce : assignAtOnce rt columns row as = .ok final)
    (hseq : ∀ order, order.Perm as → applyAssignments rt columns row order = .ok final) :
    Undisturbed rt columns row as := by
  intro before a after row' hperm hrow'
  have hnd' := (hperm.map fst).nodup_iff.2 hnd
  obtain ⟨r, -, hr, hsame⟩ := applyAssignments_prefix hnd' hlen (hseq _ hperm)
    (assignAtOnce_perm hperm hnd hlen honce) before a after rfl
  cases hr.symm.trans hrow'
  exact hsame

end

end

lemma SetPath.assigned_eq {rt : Runtime} {t : TableDef} (path : SetPath)
    (as : List (String × Expr)) (row : Row) :
    path.assigned rt t as row = applyAssignments rt t.columns row as := by
  cases path <;> rfl

/-- **When `UPDATE` assigns simultaneously.** If every right-hand side has a value on the old row:
exactly when none of them changes its value as other columns get theirs. Otherwise: exactly when no
order of the list gets through. -/
theorem set_simultaneous_iff (rt : Runtime) (t : TableDef) (c : Caller) (row : Row)
    (assignments : List (String × Expr)) (hlen : row.length = t.columns.length)
    (hdistinct : (assignments.map fst).Nodup) : SetsSimultaneously rt t c assignments row ↔
      Evaluates rt t.columns row assignments ∧ Undisturbed rt t.columns row assignments ∨
      ¬ Evaluates rt t.columns row assignments ∧
        ∀ order, order.Perm assignments → ∀ r, applyAssignments rt t.columns row order ≠ .ok r := by
  have hiff : SetsSimultaneously rt t c assignments row ↔ ∀ order, order.Perm assignments →
      (applyAssignments rt t.columns row order).toOption =
        (assignAtOnce rt t.columns row assignments).toOption := by
    constructor
    · intro h order hperm
      exact (h order hperm .singleRow).1
    · intro h order hperm path
      rw [SetPath.newRow, SetPath.assigned_eq]
      exact ⟨h order hperm, toOption_bind_congr _ (h order hperm)⟩
  rw [hiff]
  by_cases heval : Evaluates rt t.columns row assignments
  · obtain ⟨final, honce⟩ := heval.assignAtOnce
    simp only [heval, true_and, not_true_eq_false, false_and, or_false]
    constructor
    · intro h
      refine undisturbed_of_simultaneous hdistinct hlen honce fun order hperm => ?_
      have hsame := h order hperm
      rw [honce] at hsame
      exact toOption_eq_some.1 hsame
    · intro hund order hperm
      have hseq := applyAssignments_of_undisturbed heval hund order [] (by simpa using hperm)
      rw [hseq, honce, assignAtOnce_perm hperm hdistinct hlen honce]
  · have hnone : (assignAtOnce rt t.columns row assignments).toOption = none := by
      cases honce : assignAtOnce rt t.columns row assignments with
      | error _ => rfl
      | ok r => exact absurd (evaluates_of_assignAtOnce honce) heval
    simp only [heval, false_and, not_false_eq_true, true_and, false_or, hnone]
    refine forall_congr' fun order => forall_congr' fun _ => ?_
    cases applyAssignments rt t.columns row order <;> simp [Except.toOption]

/-! ## Two cases -/

/-- `pairs(a INT, b INT)`. -/
def pairs : TableDef :=
  { name := "pairs", columns := [{ name := "a", ty := .int64 }, { name := "b", ty := .int64 }] }

/-- `SET a = 7, b = b`: nothing reads what another assignment writes. -/
theorem set_simultaneous_iff_apart : SetsSimultaneously default pairs ⟨none, [], [], true⟩
      [("a", .literal (.int 7)), ("b", .column "b")] [.int 1, .int 2] := by
  have hnd : (([("a", .literal (.int 7)), ("b", .column "b")] : List (String × Expr)).map
      fst).Nodup := by decide
  refine (set_simultaneous_iff default pairs ⟨none, [], [], true⟩ _ _ rfl hnd).2 (.inl ⟨?_, ?_⟩)
  · intro a ha
    simp only [mem_cons, not_mem_nil, or_false] at ha
    rcases ha with rfl | rfl
    · exact ⟨⟨0, by decide⟩, .int 7, rfl⟩
    · exact ⟨⟨1, by decide⟩, .int 2, rfl⟩
  · exact undisturbed_of_reads hnd rfl (by decide)

/-- `SET a = b, b = a` does not swap. -/
theorem set_swap_copies :
    ¬ ∀ (rt : Runtime) (t : TableDef) (c : Caller) (row : Row) (assignments : List (String × Expr)),
      row.length = t.columns.length → (assignments.map fst).Nodup →
      SetsSimultaneously rt t c assignments row := by
  intro h
  have hswap := (h default pairs ⟨none, [], [], true⟩ [.int 1, .int 2]
    [("a", .column "b"), ("b", .column "a")] rfl (by decide) _ (List.Perm.refl _) .singleRow).1
  have hcopied : singleRowAssigned default pairs [("a", .column "b"), ("b", .column "a")]
      [.int 1, .int 2] = .ok [.int 2, .int 2] := rfl
  have hswapped : assignAtOnce default pairs.columns [.int 1, .int 2]
      [("a", .column "b"), ("b", .column "a")] = .ok [.int 2, .int 1] := rfl
  rw [hswapped] at hswap
  exact absurd hswap (by decide)

end UniDb
