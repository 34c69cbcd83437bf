import UniDb.Storage.Undo

/-!
# Rolling back a multi-row statement (`executor.rs`: the batch arms of `exec_delete`, `exec_update`)

The executor hands the target rows of a multi-row statement to one batched writer and records the
undo actions only when the writer returns. A writer that fails part-way therefore leaves the page
groups it had completed stamped, with nothing in the undo log to take the stamps back.

* `KeepsLive`: no batched writer removes a tuple, so the undo log of a transaction stays valid
  whether its statements succeed or fail (`TxnHeap.exec`).
-/

namespace UniDb

open List

variable {ρ : Type}

/-! ## Writers keep tuples -/

def KeepsLive (P Q : Pool ρ) : Prop := ∀ r, (P.tuple? r).isSome → (Q.tuple? r).isSome

lemma KeepsLive.refl (P : Pool ρ) : KeepsLive P P := fun _ h => h

variable {P : Pool ρ} {rows : List RowId}

lemma KeepsLive.trans {Q R : Pool ρ} (h1 : KeepsLive P Q) (h2 : KeepsLive Q R) :
    KeepsLive P R := fun r h => h2 r (h1 r h)

lemma keepsLive_modify (P : Pool ρ) (r : RowId) (f : Tuple ρ → Tuple ρ) :
    KeepsLive P (P.modify r f) := by
  intro r' h
  rw [Pool.tuple?_modify]
  split
  · rename_i he; subst he; simpa using h
  · exact h

variable (xid : Nat)

lemma keepsLive_stampXmax (P : Pool ρ) (rows : List RowId) :
    KeepsLive P (stampXmax xid P rows) := by
  intro r h
  rw [tuple?_stampXmax]
  split
  · simpa using h
  · exact h

lemma keepsLive_stampGroups (gs : List (List RowId)) (P : Pool ρ) :
    KeepsLive P (stampGroups xid gs P).2 := by
  induction gs generalizing P with
  | nil => exact .refl P
  | cons g gs ih =>
    simp only [stampGroups]
    split
    · exact .refl P
    · exact (keepsLive_stampXmax xid P g).trans (ih _)

lemma keepsLive_insertVersioned (P : Pool ρ) (p : Nat) (t : Tuple ρ) :
    KeepsLive P (P.insertVersioned p t).1 := by
  intro r h
  rw [Pool.tuple?_insertVersioned]
  split
  · rfl
  · exact h

lemma keepsLive_insertVersions (fill : Nat → Nat) (i : Nat)
    (rows : List (RowId × ρ)) (P : Pool ρ) : KeepsLive P (insertVersions xid fill i rows P).2 ∧
      ∀ pr ∈ (insertVersions xid fill i rows P).1,
        ((insertVersions xid fill i rows P).2.tuple? pr.2).isSome := by
  induction rows generalizing i P with
  | nil => exact ⟨.refl P, by simp [insertVersions]⟩
  | cons row rows ih =>
    obtain ⟨old, data⟩ := row
    rw [insertVersions_cons]
    obtain ⟨hkeep, hnew⟩ :=
      ih (i + 1) (P.insertVersioned (fill i) (Tuple.fresh data xid (some old))).1
    refine ⟨(keepsLive_insertVersioned P _ _).trans hkeep, ?_⟩
    rw [forall_mem_cons]
    exact ⟨hkeep _ (by simp), hnew⟩

lemma insertVersions_fst (fill : Nat → Nat) (i : Nat) (rows : List (RowId × ρ))
    (P : Pool ρ) : (insertVersions xid fill i rows P).1.map (·.1) = rows.map (·.1) := by
  induction rows generalizing i P with
  | nil => rfl
  | cons row rows ih => simp [insertVersions, ih]

lemma keepsLive_linkHotXpage (P : Pool ρ) (pairs : List (RowId × RowId)) :
    KeepsLive P (linkHotXpage P pairs) := by
  induction pairs generalizing P with
  | nil => exact .refl P
  | cons pr pairs ih => exact (keepsLive_modify P _ _).trans (ih _)

lemma stampGroups_ok_live {xid : Nat} {gs : List (List RowId)}
    (h : (stampGroups xid gs P).1 = .ok ()) : ∀ g ∈ gs, ∀ r ∈ g,
      ((stampGroups xid gs P).2.tuple? r).isSome := by
  induction gs generalizing P with
  | nil => simp
  | cons g gs ih =>
    simp only [stampGroups] at h ⊢
    split at h
    · simp at h
    · rename_i hc
      rw [forall_mem_cons]
      refine ⟨fun r hr => ?_, ih h⟩
      obtain ⟨t, ht, -⟩ := checkUnstamped_ok.1 hc r hr
      exact keepsLive_stampGroups _ _ _ r (keepsLive_stampXmax _ _ _ r (by simp [ht]))

/-! ## Multi-row statements -/

/-- A multi-row statement: the target rows, sorted by page as `matching_rows` returns them, with
the new row images for the two updates. `fill` is the choice of pages for the new versions. -/
inductive BatchStmt (ρ : Type) where
  | delete (rowIds : List RowId) (sorted : PageSorted rowIds)
  | update (rows : List (RowId × ρ)) (fill : Nat → Nat) (sorted : PageSorted (rows.map (·.1)))
  | hotUpdate (rows : List (RowId × ρ)) (fill : Nat → Nat) (sorted : PageSorted (rows.map (·.1)))

def BatchStmt.targets : BatchStmt ρ → List RowId
  | .delete rowIds _ => rowIds
  | .update rows _ _ => rows.map (·.1)
  | .hotUpdate rows _ _ => rows.map (·.1)

lemma BatchStmt.sorted_targets : (b : BatchStmt ρ) → PageSorted b.targets
  | .delete _ h => h
  | .update _ _ h => h
  | .hotUpdate _ _ h => h

def xmaxStampBatches (rows : List RowId) : List UndoAction :=
  (pageGroups rows).map fun g => .xmaxStampBatch ((g.head?.map (·.pageId)).getD 0) (g.map (·.slot))

/-- The heap write of a statement and, when it succeeds, the undo actions the executor records. -/
def BatchStmt.run (xid : Nat) : BatchStmt ρ → Pool ρ → Except DbError (List UndoAction) × Pool ρ
  | .delete rowIds _, P =>
    let (res, P) := deleteMany xid rowIds P
    (res.map xmaxStampBatches, P)
  | .update rows fill _, P =>
    let (res, P) := updateMany xid fill rows P
    (res.map fun pairs => xmaxStampBatches (pairs.map (·.1)) ++
      pairs.map fun pr => .insert pr.2.pageId pr.2.slot, P)
  | .hotUpdate rows fill _, P =>
    let (res, P) := hotUpdateMany xid fill rows P
    (res.map fun results => results.map fun (old, new, prevPage, prevSlot) =>
      .hotXpageUpdate old.pageId old.slot new.pageId new.slot prevPage prevSlot, P)

lemma rows_xmaxStampBatches {a : UndoAction} {r : RowId} (ha : a ∈ xmaxStampBatches rows)
    (hr : r ∈ a.rows) : r ∈ rows := by
  obtain ⟨g, hg, rfl⟩ := mem_map.1 ha
  obtain ⟨s, hs, rfl⟩ := mem_map.1 hr
  obtain ⟨r, hrg, rfl⟩ := mem_map.1 hs
  -- the group's rows share the page of its first row
  rw [← pageId_eq_head hg r hrg]
  exact mem_of_mem_pageGroups hg hrg

lemma stampGroups_ok_rows {xid : Nat} (h : (stampGroups xid (pageGroups rows) P).1 = .ok ())
    {r : RowId} (hr : r ∈ rows) : ((stampGroups xid (pageGroups rows) P).2.tuple? r).isSome := by
  rw [← flatten_splitBy (fun a b : RowId => a.pageId == b.pageId) rows] at hr
  obtain ⟨g, hg, hrg⟩ := mem_flatten.1 hr
  exact stampGroups_ok_live h g hg r hrg

/-- What every batched writer leaves behind: no tuple is lost, and a failed writer did phase A's
completed page groups and nothing else. -/
structure RunSpec (xid : Nat) (b : BatchStmt ρ) (P : Pool ρ) : Prop where
  keeps : KeepsLive P (b.run xid P).2
  live : ∀ as, (b.run xid P).1 = .ok as → ∀ a ∈ as, ∀ r ∈ a.rows, ((b.run xid P).2.tuple? r).isSome
  failed : ∀ e, (b.run xid P).1 = .error e →
    (b.run xid P).2 = (stampGroups xid (pageGroups b.targets) P).2

lemma BatchStmt.run_spec (b : BatchStmt ρ) (P : Pool ρ) : RunSpec xid b P := by
  have hkeep := keepsLive_stampGroups xid (pageGroups b.targets) P
  rcases hs : stampGroups xid (pageGroups b.targets) P with ⟨res, Q⟩
  rw [hs] at hkeep
  cases res with
  | error e =>
    have hrun : b.run xid P = (.error e, Q) := by
      cases b <;> simp only [BatchStmt.targets] at hs <;>
        simp [BatchStmt.run, deleteMany, updateMany, hotUpdateMany, hs, Except.map]
    exact ⟨by rw [hrun]; exact hkeep, by simp [hrun], by simp [hrun, hs]⟩
  | ok u =>
    have hrows : ∀ r ∈ b.targets, (Q.tuple? r).isSome := by
      intro r hr
      have := stampGroups_ok_rows (by rw [hs]) hr
      rwa [hs] at this
    cases b with
    | delete rowIds sorted =>
      have hrun : (BatchStmt.delete rowIds sorted).run xid P =
          (.ok (xmaxStampBatches rowIds), Q) := by
        simp only [BatchStmt.targets] at hs
        simp [BatchStmt.run, deleteMany, hs, Except.map]
      refine ⟨by rw [hrun]; exact hkeep, ?_, by simp [hrun]⟩
      rw [hrun]
      rintro _ ⟨⟩ a ha r hr
      exact hrows r (rows_xmaxStampBatches ha hr)
    | update rows fill sorted =>
      obtain ⟨hins, hnew⟩ := keepsLive_insertVersions xid fill 0 rows Q
      have hfst := insertVersions_fst xid fill 0 rows Q
      rcases hv : insertVersions xid fill 0 rows Q with ⟨pairs, R⟩
      rw [hv] at hins hnew hfst
      have hrun : (BatchStmt.update rows fill sorted).run xid P =
          (.ok (xmaxStampBatches (rows.map (·.1)) ++
            pairs.map fun pr => .insert pr.2.pageId pr.2.slot), R) := by
        simp only [BatchStmt.targets] at hs
        simp only at hfst
        simp [BatchStmt.run, updateMany, hs, hv, Except.map, hfst]
      refine ⟨by rw [hrun]; exact hkeep.trans hins, ?_, by simp [hrun]⟩
      rw [hrun]
      rintro _ ⟨⟩ a ha r hr
      rcases mem_append.1 ha with ha | ha
      · exact hins r (hrows r (rows_xmaxStampBatches ha hr))
      · obtain ⟨pr, hpr, rfl⟩ := mem_map.1 ha
        rw [UndoAction.rows, mem_singleton] at hr
        subst hr
        exact hnew pr hpr
    | hotUpdate rows fill sorted =>
      obtain ⟨hins, hnew⟩ := keepsLive_insertVersions xid fill 0 rows Q
      have hfst := insertVersions_fst xid fill 0 rows Q
      rcases hv : insertVersions xid fill 0 rows Q with ⟨pairs, R⟩
      rw [hv] at hins hnew hfst
      have hlink := keepsLive_linkHotXpage R pairs
      have hrun : (BatchStmt.hotUpdate rows fill sorted).run xid P =
          (.ok (pairs.map fun pr => .hotXpageUpdate pr.1.pageId pr.1.slot pr.2.pageId pr.2.slot
            (savedPrev P pr.1).1 (savedPrev P pr.1).2), linkHotXpage R pairs) := by
        simp only [BatchStmt.targets] at hs
        simp [BatchStmt.run, hotUpdateMany, hs, hv, Except.map]
      refine ⟨by rw [hrun]; exact (hkeep.trans hins).trans hlink, ?_, by simp [hrun]⟩
      rw [hrun]
      rintro _ ⟨⟩ a ha r hr
      obtain ⟨pr, hpr, rfl⟩ := mem_map.1 ha
      rcases (by simpa [UndoAction.rows] using hr : r = pr.2 ∨ r = pr.1) with rfl | rfl
      · exact hlink _ (hnew pr hpr)
      · refine hlink _ (hins _ (hrows _ ?_))
        rw [BatchStmt.targets, ← hfst]
        exact mem_map_of_mem hpr

def recordedUndo : Except DbError (List UndoAction) → List UndoAction
  | .ok as => as
  | .error _ => []

def TxnHeap.exec (s : TxnHeap ρ) (b : BatchStmt ρ) : Except DbError Unit × TxnHeap ρ :=
  let out := b.run s.xid s.pool
  (out.1.map fun _ => (),
    { s with
      pool := out.2
      undo := s.undo ++ recordedUndo out.1
      undo_live := by
        have hspec := b.run_spec s.xid s.pool
        intro a ha r hr
        rcases mem_append.1 ha with ha | ha
        · exact hspec.keeps r (s.undo_live a ha r hr)
        · rcases hres : out.1 with e | as
          · simp [recordedUndo, hres] at ha
          · exact hspec.live as hres a (by simpa [recordedUndo, hres] using ha) r hr })

/-- Rolling back from `s'` leaves every row exactly as rolling back from `s` does. -/
def RollsBackLike (s s' : TxnHeap ρ) : Prop :=
  ∃ P P', s.abort = .ok P ∧ s'.abort = .ok P' ∧ ∀ r, P'.tuple? r = P.tuple? r

/-- **Rollback after a failed multi-row statement.** The page groups completed before the error
are restored exactly when the undo log names their rows anyway. -/
theorem abort_after_failed_batch_iff (b : BatchStmt ρ) (s : TxnHeap ρ) (e : DbError)
    (h : (s.exec b).1 = .error e) : RollsBackLike s (s.exec b).2 ↔
      ∀ r ∈ completedRows s.pool (pageGroups b.targets), r ∈ s.undoRows := by
  have hspec := b.run_spec s.xid s.pool
  obtain ⟨e', he'⟩ : ∃ e', (b.run s.xid s.pool).1 = .error e' := by
    rcases hres : (b.run s.xid s.pool).1 with e' | as
    · exact ⟨e', rfl⟩
    · simp [TxnHeap.exec, hres, Except.map] at h
  have hundo : (s.exec b).2.undo = s.undo := by simp [TxnHeap.exec, he', recordedUndo]
  have hpool : ∀ r, (s.exec b).2.pool.tuple? r =
      if r ∈ completedRows s.pool (pageGroups b.targets)
      then (s.pool.tuple? r).map (Tuple.setXmax s.xid) else s.pool.tuple? r := by
    intro r
    rw [← tuple?_stampGroups (pageGroups_pairwise b.sorted_targets) r, ← hspec.failed e' he']
    rfl
  obtain ⟨P, hP, hrowP⟩ := s.abort_ok
  obtain ⟨P', hP', hrowP'⟩ := (s.exec b).2.abort_ok
  have hxid : (s.exec b).2.xid = s.xid := rfl
  rw [hundo, hxid] at hrowP'
  -- rolling back acts row by row, so compare the two outcomes at each row
  have hlike : RollsBackLike s (s.exec b).2 ↔ ∀ r, P'.tuple? r = P.tuple? r := by
    constructor
    · rintro ⟨P1, P1', h1, h1', heq⟩
      rw [hP] at h1; rw [hP'] at h1'
      cases h1; cases h1'
      exact heq
    · exact fun heq => ⟨P, P', hP, hP', heq⟩
  rw [hlike]
  constructor
  · intro heq r hr
    obtain ⟨t, ht, hx⟩ := unstamped_of_mem_completedRows hr
    by_contra hno
    rw [← s.rewritesXmax_iff] at hno
    have hr' := heq r
    rw [hrowP', hrowP, hpool, if_pos hr, ht] at hr'
    simp only [Option.map_some, Option.some.injEq] at hr'
    have hxm := congrArg (fun t => t.xmax) hr'
    simp only [rowEffect_xmax hno, hx] at hxm
    exact s.xid_ne_zero hxm
  · intro hcov r
    rw [hrowP', hrowP, hpool]
    split
    · rename_i hr
      have hrw := (s.rewritesXmax_iff r).2 (hcov r hr)
      cases s.pool.tuple? r with
      | none => rfl
      | some t => simp [rowEffect_setXmax hrw]
    · rfl

/-! ## A statement over two pages

Transaction 9 deletes the committed rows `(0, 0)` and `(1, 0)`, the second of which transaction 7
has deleted meanwhile. -/

def conflictTxn : TxnHeap Nat where
  xid := 9
  pool := fun p =>
    if p = 0 then [.live (Tuple.fresh 10 1 none)]
    else if p = 1 then [.live ((Tuple.fresh 20 1 none).setXmax 7)]
    else []
  undo := []
  xid_ne_zero := by decide
  undo_live := by simp

theorem abort_after_failed_batch_at_first_page :
    (conflictTxn.exec (.delete [⟨1, 0⟩, ⟨2, 0⟩] (by simp [PageSorted]))).1 =
        .error (.writeConflict 7) ∧ RollsBackLike conflictTxn
        (conflictTxn.exec (.delete [⟨1, 0⟩, ⟨2, 0⟩] (by simp [PageSorted]))).2 :=
  have h : (conflictTxn.exec (.delete [⟨1, 0⟩, ⟨2, 0⟩] (by simp [PageSorted]))).1 =
      .error (.writeConflict 7) := rfl
  ⟨h, (abort_after_failed_batch_iff _ _ _ h).2 (by decide)⟩

/-- The row on the first page stays deleted although the transaction rolls back. -/
theorem failed_delete_many_leaves_stamp :
    ¬ ∀ (b : BatchStmt Nat) (s : TxnHeap Nat) (e : DbError), (s.exec b).1 = .error e →
      RollsBackLike s (s.exec b).2 := by
  intro h
  obtain ⟨P, P', hP, hP', heq⟩ :=
    h (.delete [⟨0, 0⟩, ⟨1, 0⟩] (by simp [PageSorted])) conflictTxn (.writeConflict 7) rfl
  have hrow := heq ⟨0, 0⟩
  -- neither undo log has an entry, so both rollbacks return the pool they are given
  cases hP
  cases hP'
  revert hrow
  decide

end UniDb
