import UniDb.Storage.Batch
import UniDb.Sql.Literal

/-!
# Undo actions and rollback (`txn.rs`: `UndoAction`, `abort`; `heap.rs`: the `undo_*` functions)

Aborting a transaction replays its undo log backwards. Every undo function is a short list of
header writes (`UndoAction.writes`), so what an abort does to one row is the composition of the
writes that name it (`applyWrites_ok`).

`TxnHeap` is a running transaction with the heap it works on. It carries the fact that makes
rollback total: every tuple its undo log names is still there (`TxnHeap.abort_ok`).
-/

namespace UniDb

open List

variable {ρ : Type}

inductive UndoAction where
  | insert (pageId slot : Nat)
  | xmaxStamp (pageId slot : Nat)
  | xmaxStampBatch (pageId : Nat) (slots : List Nat)
  | btreePatch (metaPage : Nat) (key : OrderedValue) (oldRid newRid : RowId)
  | hotUpdate (pageId oldSlot newSlot : Nat)
  | hotXpageUpdate (oldPageId oldSlot newPageId newSlot savedPrevPage savedPrevSlot : Nat)
deriving DecidableEq, Repr

inductive HeaderWrite where
  | setXmax (xmax : Nat)
  | setHotNext (h : HotNext)
  | restorePrevAndHotNext (prevPage prevSlot : Nat)
deriving DecidableEq, Repr

def HeaderWrite.apply : HeaderWrite → Tuple ρ → Tuple ρ
  | .setXmax x => Tuple.setXmax x
  | .setHotNext h => Tuple.setHotNext h
  | .restorePrevAndHotNext p s => Tuple.restorePrevAndHotNext p s

/-- The header writes of one undo action, in order: an undone insert is stamped with its own
transaction, an undone stamp is cleared, and an undone HOT update does both and drops the forward
pointer. A redirected index entry touches no heap tuple. -/
def UndoAction.writes (xid : Nat) : UndoAction → List (RowId × HeaderWrite)
  | .insert p s => [(⟨p, s⟩, .setXmax xid)]
  | .xmaxStamp p s => [(⟨p, s⟩, .setXmax 0)]
  | .xmaxStampBatch p slots => slots.map fun s => (⟨p, s⟩, .setXmax 0)
  | .btreePatch .. => []
  | .hotUpdate p old new =>
    [(⟨p, new⟩, .setXmax xid), (⟨p, old⟩, .setHotNext .none), (⟨p, old⟩, .setXmax 0)]
  | .hotXpageUpdate op os np ns pp ps =>
    [(⟨np, ns⟩, .setXmax xid), (⟨op, os⟩, .restorePrevAndHotNext pp ps), (⟨op, os⟩, .setXmax 0)]

def UndoAction.rows : UndoAction → List RowId
  | .insert p s => [⟨p, s⟩]
  | .xmaxStamp p s => [⟨p, s⟩]
  | .xmaxStampBatch p slots => slots.map (RowId.mk p)
  | .btreePatch .. => []
  | .hotUpdate p old new => [⟨p, new⟩, ⟨p, old⟩]
  | .hotXpageUpdate op os np ns _ _ => [⟨np, ns⟩, ⟨op, os⟩]

lemma UndoAction.mem_rows_of_mem_writes {xid : Nat} {a : UndoAction} {w : RowId × HeaderWrite}
    (h : w ∈ a.writes xid) : w.1 ∈ a.rows := by
  cases a with
  | xmaxStampBatch p slots =>
    obtain ⟨s, hs, rfl⟩ := mem_map.1 h
    exact mem_map_of_mem hs
  | btreePatch m k o n => simp [writes] at h
  | insert p s | xmaxStamp p s => simp_all [writes, rows]
  | hotUpdate p old new => rcases (by simpa [writes] using h) with rfl | rfl | rfl <;> simp [rows]
  | hotXpageUpdate op os np ns pp ps =>
    rcases (by simpa [writes] using h) with rfl | rfl | rfl <;> simp [rows]

variable {r : RowId} {ws : List (RowId × HeaderWrite)}

lemma UndoAction.exists_setXmax (xid : Nat) {a : UndoAction} (h : r ∈ a.rows) :
    ∃ x, (r, HeaderWrite.setXmax x) ∈ a.writes xid := by
  cases a with
  | xmaxStampBatch p slots =>
    obtain ⟨s, hs, rfl⟩ := mem_map.1 h
    exact ⟨0, mem_map.2 ⟨s, hs, rfl⟩⟩
  | btreePatch m k o n => simp [rows] at h
  | insert p s => exact ⟨xid, by simpa [rows, writes] using h⟩
  | xmaxStamp p s => exact ⟨0, by simpa [rows, writes] using h⟩
  | hotUpdate p old new =>
    rcases (by simpa [rows] using h : r = ⟨p, new⟩ ∨ r = ⟨p, old⟩) with rfl | rfl
    · exact ⟨xid, by simp [writes]⟩
    · exact ⟨0, by simp [writes]⟩
  | hotXpageUpdate op os np ns pp ps =>
    rcases (by simpa [rows] using h : r = ⟨np, ns⟩ ∨ r = ⟨op, os⟩) with rfl | rfl
    · exact ⟨xid, by simp [writes]⟩
    · exact ⟨0, by simp [writes]⟩

/-! ## Header writes -/

def applyWrites (ws : List (RowId × HeaderWrite)) (P : Pool ρ) : Except DbError (Pool ρ) :=
  ws.foldlM (fun P w => P.update w.1 w.2.apply) P

/-- What a list of writes does to the tuple at `r`. -/
def rowEffect (ws : List (RowId × HeaderWrite)) (r : RowId) (t : Tuple ρ) : Tuple ρ :=
  ws.foldl (fun t w => if w.1 = r then w.2.apply t else t) t

lemma rowEffect_cons (w : RowId × HeaderWrite) (ws : List (RowId × HeaderWrite)) (r : RowId)
    (t : Tuple ρ) :
    rowEffect (w :: ws) r t = rowEffect ws r (if w.1 = r then w.2.apply t else t) := rfl

lemma applyWrites_ok {P : Pool ρ} (hlive : ∀ w ∈ ws, (P.tuple? w.1).isSome) :
    ∃ Q, applyWrites ws P = .ok Q ∧ ∀ r, Q.tuple? r = (P.tuple? r).map (rowEffect ws r) := by
  induction ws generalizing P with
  | nil => exact ⟨P, rfl, fun r => by cases P.tuple? r <;> rfl⟩
  | cons w ws ih =>
    obtain ⟨t, ht⟩ := Option.isSome_iff_exists.1 (hlive w (.head _))
    have hstep : ∀ v ∈ ws, ((P.modify w.1 w.2.apply).tuple? v.1).isSome := by
      intro v hv
      rw [Pool.tuple?_modify]
      split
      · simp [ht]
      · exact hlive v (.tail _ hv)
    obtain ⟨Q, hQ, hrow⟩ := ih hstep
    refine ⟨Q, ?_, fun r => ?_⟩
    · simp only [applyWrites, foldlM_cons, Pool.update_of_live _ ht]
      exact hQ
    · rw [hrow, Pool.tuple?_modify]
      by_cases hr : r = w.1
      · subst hr; cases P.tuple? w.1 <;> simp [rowEffect_cons]
      · cases P.tuple? r <;> simp [hr, rowEffect_cons, Ne.symm hr]

/-- The writes to `r` rewrite its `xmax`. -/
def RewritesXmax (ws : List (RowId × HeaderWrite)) (r : RowId) : Prop :=
  ∃ x, (r, HeaderWrite.setXmax x) ∈ ws

lemma rowEffect_xmax (h : ¬ RewritesXmax ws r) (t : Tuple ρ) :
    (rowEffect ws r t).xmax = t.xmax := by
  induction ws generalizing t with
  | nil => rfl
  | cons w ws ih =>
    have hws : ¬ RewritesXmax ws r := fun ⟨x, hx⟩ => h ⟨x, .tail _ hx⟩
    rw [rowEffect_cons, ih hws]
    split
    · rename_i hr
      obtain ⟨w1, w2⟩ := w
      cases w2 with
      | setXmax x => exact absurd ⟨x, hr ▸ mem_cons_self⟩ h
      | setHotNext n => rfl
      | restorePrevAndHotNext p s => rfl
    · rfl

lemma rowEffect_setXmax (h : RewritesXmax ws r) (x : Nat) (t : Tuple ρ) :
    rowEffect ws r (t.setXmax x) = rowEffect ws r t := by
  induction ws generalizing t with
  | nil => obtain ⟨y, hy⟩ := h; cases hy
  | cons w ws ih =>
    rw [rowEffect_cons, rowEffect_cons]
    by_cases hr : w.1 = r
    · obtain ⟨w1, w2⟩ := w
      subst hr
      simp only [↓reduceIte]
      -- a write to the `xmax` erases the difference, any other write commutes with it
      cases w2 with
      | setXmax y => rfl
      | setHotNext n =>
        obtain ⟨y, hy⟩ := h
        exact ih ⟨y, by simpa using hy⟩ (t.setHotNext n)
      | restorePrevAndHotNext p s =>
        obtain ⟨y, hy⟩ := h
        exact ih ⟨y, by simpa using hy⟩ (t.restorePrevAndHotNext p s)
    · have hws : RewritesXmax ws r := by
        obtain ⟨y, hy⟩ := h
        rcases mem_cons.1 hy with he | hm
        · exact absurd (congrArg Prod.fst he).symm hr
        · exact ⟨y, hm⟩
      simp only [hr]
      exact ih hws t

/-! ## A running transaction -/

/-- A running transaction and the heap under it. -/
structure TxnHeap (ρ : Type) where
  xid : Nat
  pool : Pool ρ
  undo : List UndoAction
  xid_ne_zero : xid ≠ 0
  undo_live : ∀ a ∈ undo, ∀ r ∈ a.rows, (pool.tuple? r).isSome

/-- The heap part of `abort`. -/
def TxnHeap.abort (s : TxnHeap ρ) : Except DbError (Pool ρ) :=
  applyWrites (s.undo.reverse.flatMap (UndoAction.writes s.xid)) s.pool

def TxnHeap.undoRows (s : TxnHeap ρ) : List RowId := s.undo.flatMap UndoAction.rows

lemma TxnHeap.abort_ok (s : TxnHeap ρ) : ∃ Q, s.abort = .ok Q ∧ ∀ r, Q.tuple? r =
      (s.pool.tuple? r).map (rowEffect (s.undo.reverse.flatMap (UndoAction.writes s.xid)) r) := by
  apply applyWrites_ok
  intro w hw
  obtain ⟨a, ha, hwa⟩ := mem_flatMap.1 hw
  exact s.undo_live a (mem_reverse.1 ha) _ (UndoAction.mem_rows_of_mem_writes hwa)

lemma TxnHeap.rewritesXmax_iff (s : TxnHeap ρ) (r : RowId) :
    RewritesXmax (s.undo.reverse.flatMap (UndoAction.writes s.xid)) r ↔ r ∈ s.undoRows := by
  constructor
  · rintro ⟨x, hx⟩
    obtain ⟨a, ha, hw⟩ := mem_flatMap.1 hx
    exact mem_flatMap.2 ⟨a, mem_reverse.1 ha, UndoAction.mem_rows_of_mem_writes hw⟩
  · intro hr
    obtain ⟨a, ha, hra⟩ := mem_flatMap.1 hr
    obtain ⟨x, hx⟩ := UndoAction.exists_setXmax s.xid hra
    exact ⟨x, mem_flatMap.2 ⟨a, mem_reverse.2 ha, hx⟩⟩

end UniDb
