import UniDb.Lib.Multiplicity
import UniDb.Query.Expr
import UniDb.Sql.Codec

/-!
# Set operations (`exec_set_op_batches`)

Rows are equal if their encodings are. `setOp_multiplicity`: the multiplicity of a row in the result
of `UNION`, `INTERSECT` and `EXCEPT`, with and without `ALL`, is the one of SQL, and every row of
the result is a row of one side.
-/

namespace UniDb.Query

open Codec

inductive SetOpKind where
  | union | intersect | except
deriving DecidableEq, Repr

def execSetOpBatches (op : SetOpKind) (all : Bool) (left right : Batch) (output : Schema) :
    Except DbError Batch :=
  let rows :=
    match op with
    | .union =>
      let combined := left.rows ++ right.rows
      if all then combined else filterSeen encodeRow (fun _ => true) [] combined
    | .intersect =>
      -- a left row is consumed for each right row
      if all then (removeAll encodeRow (right.rows.map encodeRow) left.rows).1
      else
        let rightKeys := right.rows.map encodeRow
        filterSeen encodeRow (fun key => key ∈ rightKeys) [] left.rows
    | .except =>
      if all then (removeAll encodeRow (right.rows.map encodeRow) left.rows).2
      else
        let rightKeys := right.rows.map encodeRow
        filterSeen encodeRow (fun key => !decide (key ∈ rightKeys)) [] left.rows
  .ok ⟨output, rows⟩

/-- How often a row is in the result if it is `m` times in the left side and `n` times in the right
one. -/
def SetOpKind.count (op : SetOpKind) (all : Bool) (m n : Nat) : Nat :=
  match op, all with
  | .union, true => m + n
  | .union, false => if m + n > 0 then 1 else 0
  | .intersect, true => min m n
  | .intersect, false => if m > 0 ∧ n > 0 then 1 else 0
  | .except, true => max (m - n) 0
  | .except, false => if m > 0 ∧ n = 0 then 1 else 0

abbrev occurrences (bytes : List UInt8) (rows : List Row) : Nat := multiplicity encodeRow bytes rows

lemma mem_rightKeys {bytes : List UInt8} {rows : List Row} :
    bytes ∈ rows.map encodeRow ↔ 0 < occurrences bytes rows := multiplicity_pos.symm

/-- **Set operations follow multiset semantics.** -/
theorem setOp_multiplicity (op : SetOpKind) (all : Bool) (left right : Batch) (output : Schema) :
    ∃ rows, execSetOpBatches op all left right output = .ok ⟨output, rows⟩ ∧
      (∀ row ∈ rows, row ∈ left.rows ∨ row ∈ right.rows) ∧ ∀ bytes, occurrences bytes rows =
        op.count all (occurrences bytes left.rows) (occurrences bytes right.rows) := by
  refine ⟨_, rfl, ?_, fun bytes => ?_⟩
  · intro row hrow
    cases op <;> cases all
    case union.false => exact List.mem_append.1 ((filterSeen_sublist _ _ _).subset hrow)
    case union.true => exact List.mem_append.1 hrow
    case intersect.false | except.false => exact .inl ((filterSeen_sublist _ _ _).subset hrow)
    case intersect.true =>
      exact .inl ((removeAll_perm _ _ _).subset (List.mem_append_left _ hrow))
    case except.true =>
      exact .inl ((removeAll_perm _ _ _).subset (List.mem_append_right _ hrow))
  · cases op <;> cases all
    case union.false =>
      show multiplicity encodeRow bytes (filterSeen _ _ _ _) = _
      rw [multiplicity_filterSeen, multiplicity_append]
      simp [SetOpKind.count]
    case union.true => exact multiplicity_append _ _ _
    case intersect.false =>
      show multiplicity encodeRow bytes (filterSeen _ _ _ _) = _
      rw [multiplicity_filterSeen]
      simp only [decide_eq_true_eq, mem_rightKeys, List.not_mem_nil, not_false_eq_true, true_and]
      exact if_congr and_comm rfl rfl
    case intersect.true =>
      show multiplicity encodeRow bytes (removeAll _ _ _).1 = _
      rw [multiplicity_removeAll_fst, count_map_key, SetOpKind.count]
    case except.false =>
      show multiplicity encodeRow bytes (filterSeen _ _ _ _) = _
      rw [multiplicity_filterSeen]
      simp only [Bool.not_eq_true', decide_eq_false_iff_not, mem_rightKeys, Nat.not_lt, Nat.le_zero,
        List.not_mem_nil, not_false_eq_true, true_and]
      exact if_congr and_comm rfl rfl
    case except.true =>
      show multiplicity encodeRow bytes (removeAll _ _ _).2 = _
      rw [multiplicity_removeAll_snd, count_map_key, SetOpKind.count, Nat.max_zero]

end UniDb.Query
