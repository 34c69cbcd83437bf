import UniDb.Storage.Undo

/-!
# The transaction manager (`txn.rs`: `TxnInner`, `TransactionManager`)

A transaction id is *finished* once it was issued and is no longer active: visibility does not
tell a committed transaction from an aborted one. A snapshot taken now sees exactly the finished
ids (`isCommittedAtSnapshot_computeSnapshot`). The bookkeeping of `SERIALIZABLE` (`ssi`), which only
ever refuses a commit, is left out.
-/

namespace UniDb

open Function

inductive IsolationLevel where
  | readCommitted
  | repeatableRead
  | serializable
deriving DecidableEq, Repr

structure Transaction where
  isolation : IsolationLevel
  snapshot : Snapshot
  undoLog : List UndoAction
  rowCountDeltas : String → Option Int

structure TxnInner where
  nextXid : Nat
  active : Nat → Option Transaction

namespace TxnInner

variable (T : TxnInner)

def activeXids : List Nat := (List.range T.nextXid).filter fun x => (T.active x).isSome

def computeSnapshot : Snapshot :=
  ⟨T.activeXids.min?.getD T.nextXid, T.nextXid, T.activeXids⟩

section
variable (x : Nat)

def set (txn : Transaction) : TxnInner :=
  { T with active := update T.active x (some txn) }

/-- `begin`: the snapshot is taken after the id is issued and before it becomes active. -/
def begin (isolation : IsolationLevel) : TxnInner :=
  let issued : TxnInner := { T with nextXid := T.nextXid + 1 }
  issued.set T.nextXid ⟨isolation, issued.computeSnapshot, [], fun _ => none⟩

/-- `snapshot_for_statement`: fresh and remembered under READ COMMITTED, the one of `BEGIN`
otherwise. -/
def snapshotForStatement : Option TxnInner :=
  (T.active x).map fun txn =>
    if txn.isolation = .readCommitted then T.set x { txn with snapshot := T.computeSnapshot } else T

def recordUndo (actions : List UndoAction) : TxnInner :=
  match T.active x with
  | some txn => T.set x { txn with undoLog := txn.undoLog ++ actions }
  | none => T

/-- The `i64::MIN` delta: TRUNCATE. -/
def truncateSentinel : Int := i64Min

def recordRowCountDelta (table : String) (delta : Int) : TxnInner :=
  match T.active x with
  | none => T
  | some txn =>
    let entry := (txn.rowCountDeltas table).getD 0
    let entry' :=
      if delta = truncateSentinel then truncateSentinel
      else if entry = truncateSentinel then delta
      else saturatingAdd entry delta
    T.set x { txn with rowCountDeltas := update txn.rowCountDeltas table (some entry') }

/-- The last step of `commit` and of `abort`: the id leaves `active`. -/
def remove : TxnInner := { T with active := update T.active x none }

/-- Issued and no longer active. -/
def Finished : Prop := 0 < x ∧ x < T.nextXid ∧ T.active x = none

instance (x : Nat) : Decidable (T.Finished x) :=
  decidable_of_iff (0 < x ∧ x < T.nextXid ∧ (T.active x).isNone = true) (by
    simp [Finished])

/-! ## Field lemmas -/

@[simp] lemma set_active_self (x : Nat) (txn : Transaction) :
    (T.set x txn).active x = some txn := update_self ..

end

variable {x y : Nat} {txn txn' : Transaction}

lemma set_active_ne (h : y ≠ x) (txn : Transaction) :
    (T.set x txn).active y = T.active y := update_of_ne h ..

@[simp] lemma remove_nextXid (x : Nat) : (T.remove x).nextXid = T.nextXid := rfl

@[simp] lemma remove_active_self (x : Nat) : (T.remove x).active x = none :=
  update_self ..

lemma remove_active_ne (h : y ≠ x) : (T.remove x).active y = T.active y :=
  update_of_ne h ..

lemma remove_active_eq_some :
    (T.remove x).active y = some txn ↔ y ≠ x ∧ T.active y = some txn := by
  by_cases hy : y = x
  · simp [hy]
  · simp [hy, remove_active_ne T hy]

lemma remove_active_eq_none : (T.remove x).active y = none ↔ y = x ∨ T.active y = none := by
  by_cases hy : y = x
  · simp [hy]
  · simp [hy, remove_active_ne T hy]

lemma begin_active_ne (h : y ≠ T.nextXid) (isolation : IsolationLevel) :
    (T.begin isolation).active y = T.active y := update_of_ne h ..

variable {T}

lemma finished_remove_iff (hx : 0 < x ∧ x < T.nextXid) :
    (T.remove x).Finished y ↔ T.Finished y ∨ y = x := by
  by_cases hy : y = x
  · subst hy
    simp [Finished, hx]
  · simp [Finished, remove_active_ne T hy, hy]

/-! ## What snapshots see -/

lemma mem_activeXids : x ∈ T.activeXids ↔ x < T.nextXid ∧ (T.active x).isSome := by
  simp [activeXids]

lemma isCommittedAtSnapshot_computeSnapshot :
    T.computeSnapshot.isCommittedAtSnapshot x = true ↔ T.Finished x := by
  unfold Snapshot.isCommittedAtSnapshot computeSnapshot Finished
  by_cases h0 : x = 0
  · simp [h0]
  · by_cases hlt : T.nextXid ≤ x
    · simp [hlt]
    · have hlt' : x < T.nextXid := Nat.lt_of_not_le hlt
      have hmem : x ∈ T.activeXids ↔ T.active x ≠ none := by
        rw [mem_activeXids, Option.isSome_iff_ne_none]
        exact and_iff_right hlt'
      by_cases hmin : x < T.activeXids.min?.getD T.nextXid
      · -- below the least active id nothing is active
        have hnot : x ∉ T.activeXids := by
          intro hx
          obtain ⟨m, hm⟩ : ∃ m, T.activeXids.min? = some m := by
            cases hl : T.activeXids.min? with
            | none => rw [List.min?_eq_none_iff.1 hl] at hx; cases hx
            | some m => exact ⟨m, rfl⟩
          have := (List.min?_eq_some_iff.1 hm).2 x hx
          rw [hm, Option.getD_some] at hmin
          omega
        have hnone : T.active x = none := by
          by_contra h
          exact hnot (hmem.2 h)
        simp [h0, hmin, hnone, Nat.pos_of_ne_zero h0]
      · simp only [h0, hlt, hmin, ↓reduceIte, Bool.not_eq_true', List.contains_eq_mem,
          decide_eq_false_iff_not]
        rw [hmem, not_not]
        exact ⟨fun h => ⟨Nat.pos_of_ne_zero h0, hlt', h⟩, fun h => h.2.2⟩

/-! ## Steps that start and end no transaction -/

/-- The same transactions run in `T'`; some of them may have taken a snapshot. -/
structure Steady (T T' : TxnInner) : Prop where
  nextXid : T'.nextXid = T.nextXid
  domain : ∀ x, T'.active x = none ↔ T.active x = none
  record : ∀ x txn', T'.active x = some txn' → ∃ txn, T.active x = some txn ∧
    txn'.isolation = txn.isolation ∧
      (txn'.snapshot = txn.snapshot ∨ txn'.snapshot = T.computeSnapshot)

variable {T' : TxnInner}

lemma Steady.finished_iff (h : T.Steady T') : T'.Finished x ↔ T.Finished x := by
  rw [Finished, Finished, h.nextXid, h.domain]

lemma Steady.refl (T : TxnInner) : T.Steady T :=
  ⟨rfl, fun _ => Iff.rfl, fun _ txn hx => ⟨txn, hx, rfl, .inl rfl⟩⟩

lemma computeSnapshot_congr (hnext : T'.nextXid = T.nextXid)
    (hdomain : ∀ x, T'.active x = none ↔ T.active x = none) :
    T'.computeSnapshot = T.computeSnapshot := by
  have hxids : T'.activeXids = T.activeXids := by
    unfold activeXids
    rw [hnext]
    refine List.filter_congr fun x _ => ?_
    rw [Bool.eq_iff_iff, Option.isSome_iff_ne_none, Option.isSome_iff_ne_none]
    exact not_congr (hdomain x)
  rw [computeSnapshot, computeSnapshot, hxids, hnext]

lemma Steady.set (hx : T.active x = some txn) (hiso : txn'.isolation = txn.isolation)
    (hsnap : txn'.snapshot = txn.snapshot ∨ txn'.snapshot = T.computeSnapshot) :
    T.Steady (T.set x txn') := by
  refine ⟨rfl, fun y => ?_, fun y txn1 hy => ?_⟩
  · by_cases he : y = x
    · subst he
      simp [hx]
    · rw [set_active_ne T he]
  · by_cases he : y = x
    · subst he
      rw [set_active_self] at hy
      cases hy
      exact ⟨txn, hx, hiso, hsnap⟩
    · rw [set_active_ne T he] at hy
      exact ⟨txn1, hy, rfl, .inl rfl⟩

lemma Steady.trans_set (h : T.Steady T') (hx : T'.active x = some txn)
    (hiso : txn'.isolation = txn.isolation) (hsnap : txn'.snapshot = txn.snapshot) :
    T.Steady (T'.set x txn') := by
  have h' : T'.Steady (T'.set x txn') := .set hx hiso (.inl hsnap)
  refine ⟨h.nextXid, fun y => (h'.domain y).trans (h.domain y), fun y txn1 hy => ?_⟩
  by_cases he : y = x
  · subst he
    rw [set_active_self] at hy
    cases hy
    obtain ⟨txn0, hx0, hiso0, hs⟩ := h.record y txn hx
    exact ⟨txn0, hx0, hiso.trans hiso0, by rw [hsnap]; exact hs⟩
  · rw [set_active_ne T' he] at hy
    exact h.record y txn1 hy

lemma snapshotForStatement_steady (h : T.snapshotForStatement x = some T') : T.Steady T' := by
  obtain ⟨txn, hx, h⟩ := Option.map_eq_some_iff.1 h
  split at h
  · subst h
    exact .set hx rfl (.inr rfl)
  · subst h
    exact .refl T

lemma Steady.trans_recordUndo (h : T.Steady T') (x : Nat) (actions : List UndoAction) :
    T.Steady (T'.recordUndo x actions) := by
  unfold recordUndo
  split
  · rename_i txn hx
    exact h.trans_set hx rfl rfl
  · exact h

lemma Steady.trans_recordRowCountDelta (h : T.Steady T') (x : Nat) (table : String)
    (delta : Int) : T.Steady (T'.recordRowCountDelta x table delta) := by
  unfold recordRowCountDelta
  split
  · exact h
  · rename_i txn hx
    exact h.trans_set hx rfl rfl

end TxnInner

end UniDb
