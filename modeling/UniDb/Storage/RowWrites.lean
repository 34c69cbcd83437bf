import UniDb.Storage.Undo
import UniDb.Storage.Resolve

/-!
# The row writers (`heap.rs`: `insert`, `update`, `try_hot_insert`, `delete`)

Each of them comes with the undo actions the executor records for it. `HeapWrite` says once what
they can do to the tuples of a pool; everything later is proved from it.
-/

namespace UniDb

open Pool UniDb.Tuple

variable {ρ : Type}

/-- The conflict check of every writer: the version is there and nobody superseded it. -/
def Pool.writable (P : Pool ρ) (r : RowId) : Except DbError (Tuple ρ) :=
  match (P r.pageId)[r.slot]? with
  | none => .error (.slotOutOfRange r.pageId r.slot)
  | some (.live t) => if t.xmax ≠ 0 then .error (.writeConflict t.xmax) else .ok t
  | some _ => .error (.tupleDeleted r.pageId r.slot)

variable {P P' : Pool ρ} {r : RowId} {xid : Nat} {log : List UndoAction} {sees : Nat → Bool}

lemma Pool.writable_ok {t : Tuple ρ} :
    P.writable r = .ok t ↔ P.tuple? r = some t ∧ t.xmax = 0 := by
  unfold writable tuple?
  rcases (P r.pageId)[r.slot]? with _ | s
  · simp
  · cases s with
    | live u =>
      by_cases hx : u.xmax = 0
      · simp only [hx, ne_eq, not_true_eq_false, ↓reduceIte, Except.ok.injEq, Option.bind_some,
          Slot.tuple?_live, Option.some.injEq]
        exact ⟨fun h => ⟨h, h ▸ hx⟩, fun h => h.1⟩
      · simp only [ne_eq, hx, not_false_eq_true, ↓reduceIte, reduceCtorEq, Option.bind_some,
          Slot.tuple?_live, Option.some.injEq, false_iff, not_and]
        exact fun h => h ▸ hx
    | dead | unused => simp [Slot.tuple?]

/-- `insert`, on the page the free-space map offers. -/
def Pool.insertRow (P : Pool ρ) (xid page : Nat) (data : ρ) : Pool ρ × RowId × List UndoAction :=
  let (Q, r) := P.insertVersioned page (fresh data xid none)
  (Q, r, [.insert r.pageId r.slot])

/-- `delete`. -/
def Pool.deleteRow (P : Pool ρ) (xid : Nat) (r : RowId) :
    Except DbError (Pool ρ × List UndoAction) := do
  let _ ← P.writable r
  pure (P.modify r (setXmax xid), [.xmaxStamp r.pageId r.slot])

/-- Where the new version of an updated row goes and how readers of the old one find it. -/
inductive UpdatePath where
  | plain
  | hot
  | hotXpage
deriving DecidableEq, Repr

/-- The forward pointer an update leaves in the old version. -/
def UpdatePath.link : UpdatePath → RowId → Tuple ρ → Tuple ρ
  | .plain, _ => id
  | .hot, r => setHotNext (.slot r.slot)
  | .hotXpage, r => setHotXpage r

/-- The undo actions of an update of `old`, which was `t`, to `new`. -/
def UpdatePath.undo (old new : RowId) (t : Tuple ρ) : UpdatePath → List UndoAction
  | .plain => [.xmaxStamp old.pageId old.slot, .insert new.pageId new.slot]
  | .hot => [.hotUpdate old.pageId old.slot new.slot]
  | .hotXpage =>
    [.hotXpageUpdate old.pageId old.slot new.pageId new.slot t.prevPage t.prevSlot]

/-- `update` and the two arms of `try_hot_insert`. A HOT version on the same page ignores the page
the free-space map offers. -/
def Pool.updateRow (P : Pool ρ) (xid : Nat) (path : UpdatePath) (r : RowId) (page : Nat)
    (data : ρ) : Except DbError (Pool ρ × RowId × List UndoAction) := do
  let t ← P.writable r
  let target := if path = .hot then r.pageId else page
  let (Q, r') := P.insertVersioned target (fresh data xid (some r))
  pure (Q.modify r fun t => path.link r' (t.setXmax xid), r', path.undo r r' t)

/-! ## What the writers do -/

/-- `P'` is `P` after one write of `xid`, and `log` the undo actions recorded for it. The version
written over was created by a transaction that `xid` sees. -/
inductive HeapWrite (sees : Nat → Bool) (xid : Nat) (P P' : Pool ρ) : List UndoAction → Prop
  | insert {r : RowId} {data : ρ} : P.tuple? r = none →
      (∀ s, P'.tuple? s = if s = r then some (fresh data xid none) else P.tuple? s) →
      HeapWrite sees xid P P' [.insert r.pageId r.slot]
  | delete {r : RowId} {t : Tuple ρ} : P.tuple? r = some t → t.xmax = 0 → sees t.xmin = true →
      (∀ s, P'.tuple? s = if s = r then some (t.setXmax xid) else P.tuple? s) →
      HeapWrite sees xid P P' [.xmaxStamp r.pageId r.slot]
  | update {path : UpdatePath} {r r' : RowId} {t : Tuple ρ} {data : ρ} : P.tuple? r = some t →
      t.xmax = 0 → sees t.xmin = true → P.tuple? r' = none →
      (path = .hot → r'.pageId = r.pageId) →
      (∀ s, P'.tuple? s =
        if s = r' then some (fresh data xid (some r))
        else if s = r then some (path.link r' (t.setXmax xid)) else P.tuple? s) →
      HeapWrite sees xid P P' (path.undo r r' t)

lemma Pool.insertRow_spec (P : Pool ρ) (xid page : Nat) (data : ρ) :
    P.tuple? (P.insertRow xid page data).2.1 = none ∧
      (P.insertRow xid page data).2.1.pageId = page ∧ (∀ s, (P.insertRow xid page data).1.tuple? s =
        if s = (P.insertRow xid page data).2.1 then some (fresh data xid none)
        else P.tuple? s) ∧ (P.insertRow xid page data).2.2 =
        [.insert (P.insertRow xid page data).2.1.pageId (P.insertRow xid page data).2.1.slot] :=
  ⟨P.insertVersioned_fresh page _, rfl, P.tuple?_insertVersioned page _, rfl⟩

lemma Pool.insertRow_heapWrite (P : Pool ρ) (sees : Nat → Bool) (xid page : Nat) (data : ρ) :
    HeapWrite sees xid P (P.insertRow xid page data).1 (P.insertRow xid page data).2.2 := by
  obtain ⟨hfresh, -, htuple, hlog⟩ := P.insertRow_spec xid page data
  rw [hlog]
  exact .insert hfresh htuple

variable {path : UpdatePath}

lemma Pool.deleteRow_spec (h : P.deleteRow xid r = .ok (P', log)) :
    ∃ t, P.tuple? r = some t ∧ t.xmax = 0 ∧ log = [.xmaxStamp r.pageId r.slot] ∧
      ∀ s, P'.tuple? s = if s = r then some (t.setXmax xid) else P.tuple? s := by
  unfold deleteRow at h
  cases hw : P.writable r with
  | error e => rw [hw] at h; cases h
  | ok t =>
    rw [hw] at h
    cases h
    obtain ⟨ht, hx⟩ := writable_ok.1 hw
    refine ⟨t, ht, hx, rfl, fun s => ?_⟩
    rw [tuple?_modify, ht, Option.map_some]

lemma Pool.updateRow_spec {page : Nat} {r' : RowId} {data : ρ}
    (h : P.updateRow xid path r page data = .ok (P', r', log)) :
    ∃ t, P.tuple? r = some t ∧ t.xmax = 0 ∧ P.tuple? r' = none ∧
      r'.pageId = (if path = .hot then r.pageId else page) ∧ log = path.undo r r' t ∧
      ∀ s, P'.tuple? s = if s = r' then some (fresh data xid (some r))
        else if s = r then some (path.link r' (t.setXmax xid)) else P.tuple? s := by
  unfold updateRow at h
  cases hw : P.writable r with
  | error e => rw [hw] at h; cases h
  | ok t =>
    rw [hw] at h
    obtain ⟨ht, hx⟩ := writable_ok.1 hw
    have hfresh := P.insertVersioned_fresh (if path = .hot then r.pageId else page)
      (fresh data xid (some r))
    have htuple := P.tuple?_insertVersioned (if path = .hot then r.pageId else page)
      (fresh data xid (some r))
    have hpage : (P.insertVersioned (if path = .hot then r.pageId else page)
      (fresh data xid (some r))).2.pageId = if path = .hot then r.pageId else page := rfl
    simp only at h
    generalize P.insertVersioned (if path = .hot then r.pageId else page)
      (fresh data xid (some r)) = ins at h hfresh htuple hpage
    obtain ⟨rfl, rfl, rfl⟩ := h
    refine ⟨t, ht, hx, hfresh, hpage, rfl, fun s => ?_⟩
    -- the new version's slot was free, so it is not the old one's
    have hne : r ≠ ins.2 := by
      intro he
      rw [← he, ht] at hfresh
      cases hfresh
    rw [tuple?_modify]
    by_cases hs : s = r
    · subst hs
      rw [if_pos rfl, htuple, if_neg hne, ht, if_neg hne, if_pos rfl]
      rfl
    · rw [if_neg hs, htuple, if_neg hs]

lemma Pool.deleteRow_heapWrite (h : P.deleteRow xid r = .ok (P', log))
    (hsees : ∀ t, P.tuple? r = some t → sees t.xmin = true) : HeapWrite sees xid P P' log := by
  obtain ⟨t, ht, hx, rfl, htuple⟩ := deleteRow_spec h
  exact .delete ht hx (hsees t ht) htuple

lemma Pool.updateRow_heapWrite {page : Nat} {r' : RowId} {data : ρ}
    (h : P.updateRow xid path r page data = .ok (P', r', log))
    (hsees : ∀ t, P.tuple? r = some t → sees t.xmin = true) : HeapWrite sees xid P P' log := by
  obtain ⟨t, ht, hx, hfresh, hpage, rfl, htuple⟩ := updateRow_spec h
  refine .update ht hx (hsees t ht) hfresh (fun hhot => ?_) htuple
  rw [hpage, if_pos hhot]

end UniDb
