import UniDb.Lib.Run
import UniDb.Txn.Manager
import UniDb.Txn.UndoLog

/-!
# Rolling back one of several writers (`txn.rs`: `record_undo`, `abort`)

Transactions write the heap in any order, each on rows that no other running one has written, and
record the undo actions of what they did. A batched writer is its steps: the stamps page group by
page group, the inserts, or the cross-page updates row by row. `before x` is the heap without `x`:
as it was when `x` began, and as the others have left it since.

* `abort_restores`: in every state, rolling `x` back returns, gives every row of `before x` back as
  it was, leaves no version of `x` to any snapshot, and all the while shows the rows of `before x`
  and nothing else to a reader who does not count `x`.
* `abort_active`: nobody who takes a snapshot during an `abort` counts `x`, which stays in `active`
  until the undo is done, and after it nobody finds anything of `x`.
-/

namespace UniDb

open List Function UndoAction UniDb.Tuple Option

variable {ρ : Type}

/-! ## Writers -/

inductive HeapOp (ρ : Type) where
  | insert (page : Nat) (data : ρ) (prev : Option RowId)
  | delete (r : RowId)
  | stampMany (page : Nat) (slots : List Nat)
  | update (path : UpdatePath) (r : RowId) (page : Nat) (data : ρ)

/-- The versions that are written over. -/
def HeapOp.targets : HeapOp ρ → List RowId
  | .insert .. => []
  | .delete r | .update _ r _ _ => [r]
  | .stampMany page slots => slots.map (RowId.mk page)

/-- The heap after a successful operation, and the undo actions recorded for it. -/
def HeapOp.run (x : Nat) (P : Pool ρ) : HeapOp ρ → Except DbError (Pool ρ × List UndoAction)
  | .insert page data prev =>
    let (Q, r) := P.insertVersioned page (fresh data x prev)
    .ok (Q, [.insert r.pageId r.slot])
  | .delete r => P.deleteRow x r
  | .stampMany page slots => do
    checkUnstamped P (slots.map (RowId.mk page))
    return (stampXmax x P (slots.map (RowId.mk page)), [.xmaxStampBatch page slots])
  | .update path r page data => do
    let (Q, _, log) ← P.updateRow x path r page data
    return (Q, log)

structure Writers (ρ : Type) where
  pool : Pool ρ
  undo : Nat → List UndoAction
  before : Nat → RowId → Option (Tuple ρ)

inductive WriterAction (ρ : Type) where
  | op (x : Nat) (o : HeapOp ρ)
  | commit (x : Nat)
  | abort (x : Nat)

namespace Writers

def init : Writers ρ := ⟨fun _ => [], fun _ => [], fun _ _ => none⟩

variable (s : Writers ρ)

/-- Where `x` has not written, the heap without it is the heap. -/
def without (P : Pool ρ) (x : Nat) (r : RowId) : Option (Tuple ρ) :=
  if r ∈ undoRows (s.undo x) then s.before x r else P.tuple? r

/-- The heap part of `abort`, as far as its first `k` header writes. -/
def undoing (x k : Nat) : Except DbError (Pool ρ) :=
  applyWrites ((undoWrites x (s.undo x)).take k) s.pool

def abort (x : Nat) : Except DbError (Pool ρ) :=
  applyWrites (undoWrites x (s.undo x)) s.pool

/-- `abort` after `k` steps: it reads the undo log and leaves `x` in `active`, writes the headers,
and takes `x` out of `active` at the end. -/
def aborting (T : TxnInner) (x k : Nat) : Except DbError (Pool ρ × TxnInner) :=
  if k ≤ (undoWrites x (s.undo x)).length then (s.undoing x k).map fun P => (P, T)
  else (s.abort x).map fun P => (P, T.remove x)

/-- The transaction has written the heap, and its undo log is `log`. -/
def settle (x : Nat) (P : Pool ρ) (log : List UndoAction)
    (before : RowId → Option (Tuple ρ)) : Writers ρ :=
  ⟨P, update s.undo x log, update (s.without P) x before⟩

def step : WriterAction ρ → Option (Writers ρ)
  | .op x o =>
    if x = 0 then none
    else (o.run x s.pool).toOption.map fun out => s.settle x out.1 (s.undo x ++ out.2) (s.before x)
  | .commit x => some (s.settle x s.pool [] s.pool.tuple?)
  | .abort x => (s.abort x).toOption.map fun P => s.settle x P [] P.tuple?

/-- No operation writes over a version of another running transaction. -/
def OwnRows : WriterAction ρ → Prop
  | .op x o => ∀ r ∈ o.targets, ∀ t ∈ s.pool.tuple? r, t.xmin = x ∨ s.undo t.xmin = []
  | _ => True

instance (a : WriterAction ρ) : Decidable (s.OwnRows a) := by
  cases a <;> dsimp only [OwnRows] <;> infer_instance

/-- Rolling `x` back: the heap at the end, and what readers see on the way. -/
structure RollsBack (x : Nat) : Prop where
  restores : ∃ P, s.abort x = .ok P ∧ ∀ r,
    (∀ t, s.before x r = some t → P.tuple? r = some t) ∧
    (s.before x r = none → ∀ t, P.tuple? r = some t → ∀ S self, t.visible S self = false)
  hides : ∀ k, ∃ P, s.undoing x k = .ok P ∧ ∀ S self, Snapshot.sees S self x = false → ∀ r,
    (P.tuple? r).any (·.visible S self) = (s.before x r).any (·.visible S self)

end Writers

/-! ## One operation -/

variable {x : Nat} {P P' : Pool ρ} {log new : List UndoAction} {r : RowId} {t : Tuple ρ}

/-- A version that can still be written has no forward pointer. -/
def Unlinked (t : Tuple ρ) : Prop := t.xmax = 0 → t.hotNext = .none

lemma rowEffect_stamps {p : Nat} {slots : List Nat} (hr : r ∈ slots.map (RowId.mk p)) (y : Nat)
    (v : Tuple ρ) : rowEffect (slots.map fun s => (⟨p, s⟩, .setXmax y)) r v = v.setXmax y := by
  induction slots generalizing v with
  | nil => cases hr
  | cons s slots ih =>
    rw [map_cons, rowEffect_cons]
    by_cases hslots : r ∈ slots.map (RowId.mk p)
    · rw [ih hslots]
      split <;> rfl
    · have hs : (⟨p, s⟩ : RowId) = r := ((mem_cons.1 hr).resolve_right hslots).symm
      rw [if_pos hs, rowEffect_of_not_mem fun w hw hwr => ?_]
      · rfl
      · obtain ⟨s', hs', rfl⟩ := mem_map.1 hw
        exact hslots (hwr ▸ mem_map_of_mem hs')

lemma HeapOp.run_undoable {o : HeapOp ρ} (hlink : ∀ r t, P.tuple? r = some t → Unlinked t)
    (h : o.run x P = .ok (P', log)) :
    Undoable x P.tuple? P' log ∧ ∀ r ∈ undoRows log, r ∈ o.targets ∨ P.tuple? r = none := by
  cases o with
  | insert page data prev =>
    have hfree := P.insertVersioned_fresh page (fresh data x prev)
    have htuple := P.tuple?_insertVersioned page (fresh data x prev)
    rw [run] at h
    cases h
    refine ⟨undoable_insert hfree htuple, fun r hr => .inr ?_⟩
    rwa [mem_singleton.1 hr]
  | delete r =>
    obtain ⟨t, ht, hmax, rfl, htuple⟩ := Pool.deleteRow_spec h
    have hw : HeapWrite (fun _ => true) x P P' _ := .delete ht hmax rfl htuple
    exact ⟨hw.undoable hlink, fun s hs => .inl hs⟩
  | update path r page data =>
    obtain ⟨⟨Q, r', log'⟩, hup, h⟩ := bind_eq_ok.1 h
    cases h
    obtain ⟨t, ht, hmax, hnone, hpage, rfl, htuple⟩ := Pool.updateRow_spec hup
    have hhot : path = .hot → r'.pageId = r.pageId := fun hp => by rw [hpage, if_pos hp]
    have hw : HeapWrite (fun _ => true) x P P' _ := .update ht hmax rfl hnone hhot htuple
    refine ⟨hw.undoable hlink, fun s hs => ?_⟩
    rcases (mem_undoRows_undo hhot).1 hs with rfl | rfl
    · exact .inl (.head _)
    · exact .inr hnone
  | stampMany page slots =>
    obtain ⟨⟨⟩, hcheck, h⟩ := bind_eq_ok.1 h
    cases h
    have hrows : undoRows [.xmaxStampBatch page slots] = slots.map (RowId.mk page) := by
      simp [undoRows, rows]
    refine ⟨⟨fun r hr => ?_, fun r hr => ?_⟩, fun r hr => .inl (by rwa [hrows] at hr)⟩
    · rw [tuple?_stampXmax, if_neg (hrows ▸ hr)]
    · rw [hrows] at hr
      obtain ⟨t, ht, hmax⟩ := checkUnstamped_ok.1 hcheck r hr
      refine ⟨t.setXmax x, by rw [tuple?_stampXmax, if_pos hr, ht]; rfl, ?_⟩
      have heff : rowEffect (undoWrites x [.xmaxStampBatch page slots]) r (t.setXmax x) = t := by
        rw [undoWrites, reverse_singleton, flatMap_singleton, writes, rowEffect_stamps hr,
          setXmax, setXmax, ← hmax]
      rw [ht, heff]
      exact ⟨hmax, rfl, rfl⟩

/-! ## Undo logs along a run -/

section
variable {before : RowId → Option (Tuple ρ)} (h : Undoable x before P log)
include h

lemma Undoable.trans (hx : x ≠ 0) (hnew : Undoable x P.tuple? P' new) :
    Undoable x before P' (log ++ new) := by
  refine ⟨fun r hr => ?_, fun r hr => ?_⟩
  · rw [undoRows_append, mem_append, not_or] at hr
    rw [hnew.other r hr.2, h.other r hr.1]
  rw [undoWrites_append]
  by_cases hmem : r ∈ undoRows new
  · obtain ⟨v, hv, hback⟩ := hnew.own r hmem
    refine ⟨v, hv, ?_⟩
    rw [rowEffect_append]
    by_cases hlog : r ∈ undoRows log
    · -- the row was written before, and is first given back as those writes left it
      obtain ⟨u, hu, hu'⟩ := h.own r hlog
      rw [hu] at hback
      obtain ⟨-, hmax, heq⟩ := hback
      have hmin := (rowEffect_keeps (undoWrites x new) r v).1
      rw [heq] at hmin ⊢
      cases hb : before r with
      | none =>
        rw [hb] at hu'
        exact ⟨hmin.symm.trans hu'.1, fun hzero => absurd (hmax.symm.trans hzero) hx, hu'.2.2⟩
      | some t =>
        rw [hb] at hu'
        exact ⟨hu'.1, hmax, hu'.2.2⟩
    · rwa [rowEffect_undoWrites hlog, ← h.other r hlog]
  · rw [undoRows_append, mem_append] at hr
    obtain ⟨u, hu, hback⟩ := h.own r (hr.resolve_right hmem)
    refine ⟨u, (hnew.other r hmem).trans hu, ?_⟩
    rwa [rowEffect_append, rowEffect_undoWrites hmem]

lemma Undoable.others (hsame : ∀ r ∈ undoRows log, P'.tuple? r = P.tuple? r) :
    Undoable x (fun r => if r ∈ undoRows log then before r else P'.tuple? r) P' log := by
  refine ⟨fun r hr => (if_neg hr).symm, fun r hr => ?_⟩
  simp only [if_pos hr, hsame r hr]
  exact h.own r hr

lemma Undoable.applyWrites_ok {ws : List (RowId × HeaderWrite)} (hws : ws ⊆ undoWrites x log) :
    ∃ Q, applyWrites ws P = .ok Q ∧ ∀ r, Q.tuple? r = (P.tuple? r).map (rowEffect ws r) := by
  refine UniDb.applyWrites_ok fun w hw => ?_
  obtain ⟨u, hu, -⟩ := h.own _ (mem_undoRows_of_mem_undoWrites (hws hw))
  rw [hu]
  rfl

end

namespace Writers

structure Inv (s : Writers ρ) : Prop where
  undoable : ∀ x, Undoable x (s.before x) s.pool (s.undo x)
  running : ∀ x, ∀ r ∈ undoRows (s.undo x), x ≠ 0
  apart : ∀ x y, x ≠ y → ∀ r ∈ undoRows (s.undo x), r ∉ undoRows (s.undo y)
  unlinked : ∀ r t, s.pool.tuple? r = some t → Unlinked t
  before : ∀ x r t, s.before x r = some t → Unlinked t

variable {s s' : Writers ρ}

/-- One transaction writes the heap, at no row of another one. -/
lemma Inv.settle {before : RowId → Option (Tuple ρ)} (h : Inv s) (hown : Undoable x before P log)
    (hrows : ∀ r ∈ undoRows log, x ≠ 0 ∧ ∀ y, y ≠ x → r ∉ undoRows (s.undo y))
    (hsame : ∀ y, y ≠ x → ∀ r ∈ undoRows (s.undo y), P.tuple? r = s.pool.tuple? r)
    (hlink : ∀ r t, P.tuple? r = some t → Unlinked t)
    (hbefore : ∀ r t, before r = some t → Unlinked t) : Inv (s.settle x P log before) := by
  refine ⟨fun y => ?_, fun y => ?_, fun y z hyz => ?_, hlink, fun y => ?_⟩ <;>
    by_cases hy : y = x <;> (try subst hy) <;> simp only [Writers.settle, update_self]
  · exact hown
  · rw [update_of_ne hy, update_of_ne hy]
    exact (h.undoable y).others (hsame y hy)
  · exact fun r hr => (hrows r hr).1
  · rw [update_of_ne hy]
    exact h.running y
  · rw [update_of_ne hyz.symm]
    exact fun r hr => (hrows r hr).2 z hyz.symm
  · rw [update_of_ne hy]
    by_cases hz : z = x
    · subst hz
      rw [update_self]
      exact fun r hr hmem => (hrows r hmem).2 y hy hr
    · rw [update_of_ne hz]
      exact h.apart y z hyz
  · exact hbefore
  · rw [update_of_ne hy]
    intro r t ht
    unfold without at ht
    split at ht
    · exact h.before y r t ht
    · exact hlink r t ht

lemma Inv.aborted (h : Inv s) (hP : s.abort x = .ok P) (r : RowId) :
    r ∉ undoRows (s.undo x) ∧ P.tuple? r = s.pool.tuple? r ∨
      r ∈ undoRows (s.undo x) ∧ ∃ u w, P.tuple? r = some w ∧ w.xmin = u.xmin ∧
        TakesBack x u w (s.before x r) := by
  obtain ⟨Q, hQ, hrow⟩ := (h.undoable x).applyWrites_ok (Subset.refl _)
  cases hP.symm.trans hQ
  by_cases hr : r ∈ undoRows (s.undo x)
  · obtain ⟨u, hu, hback⟩ := (h.undoable x).own r hr
    exact .inr ⟨hr, u, _, by rw [hrow, hu]; rfl, (rowEffect_keeps ..).1, hback⟩
  · refine .inl ⟨hr, ?_⟩
    rw [hrow]
    cases s.pool.tuple? r with
    | none => rfl
    | some t => rw [map_some, rowEffect_undoWrites hr]

lemma Inv.step (h : Inv s) {a : WriterAction ρ} (hok : s.OwnRows a) (hs : s.step a = some s') :
    Inv s' := by
  cases a with
  | op x o =>
    obtain ⟨hx, hs⟩ := ite_none_left_eq_some.1 hs
    obtain ⟨⟨P, log⟩, hrun, rfl⟩ := map_eq_some_iff.1 hs
    obtain ⟨hnew, htargets⟩ := HeapOp.run_undoable h.unlinked (toOption_eq_some.1 hrun)
    have hfree : ∀ r ∈ undoRows log, ∀ y, y ≠ x → r ∉ undoRows (s.undo y) := by
      intro r hr y hy hmem
      obtain ⟨t, ht, htaken⟩ := (h.undoable y).own r hmem
      obtain ⟨v, -, hback⟩ := hnew.own r hr
      rw [ht] at hback
      cases hb : s.before y r with
      | none =>
        -- the version is the other one's, so it is not written over
        rw [hb] at htaken
        rcases htargets r hr with htarget | hnone
        · rcases hok r htarget t ht with hmin | hidle
          · exact hy (htaken.1.symm.trans hmin)
          · rw [← htaken.1, hidle] at hmem
            cases hmem
        · rw [ht] at hnone
          cases hnone
      | some t' =>
        rw [hb] at htaken
        exact h.running y r hmem (htaken.2.1.symm.trans hback.1)
    refine h.settle ((h.undoable x).trans hx hnew) (fun r hr => ⟨hx, fun y hy => ?_⟩)
      (fun y hy r hr => hnew.other r fun hmem => hfree r hmem y hy hr) (fun r u hu => ?_)
        (h.before x)
    · rw [undoRows_append, mem_append] at hr
      exact hr.elim (fun hr => h.apart x y hy.symm r hr) fun hr => hfree r hr y hy
    · by_cases hr : r ∈ undoRows log
      · obtain ⟨v, hv, hback⟩ := hnew.own r hr
        cases hu.symm.trans hv
        cases ht : s.pool.tuple? r with
        | none =>
          rw [ht] at hback
          exact hback.2.1
        | some t =>
          rw [ht] at hback
          exact fun hzero => absurd (hback.2.1.symm.trans hzero) hx
      · exact h.unlinked r u (hnew.other r hr ▸ hu)
  | commit x =>
    cases hs
    exact h.settle ⟨fun _ _ => rfl, nofun⟩ nofun (fun _ _ _ _ => rfl) h.unlinked h.unlinked
  | abort x =>
    obtain ⟨P, hP, rfl⟩ := map_eq_some_iff.1 hs
    have hrow := h.aborted (toOption_eq_some.1 hP)
    have hlink : ∀ r t, P.tuple? r = some t → Unlinked t := by
      intro r t ht
      rcases hrow r with ⟨-, heq⟩ | ⟨hr, u, w, hw, -, hback⟩
      · exact h.unlinked r t (heq ▸ ht)
      · cases ht.symm.trans hw
        cases hb : s.before x r with
        | none =>
          rw [hb] at hback
          exact fun hzero => absurd (hback.2.2.1.symm.trans hzero) (h.running x r hr)
        | some t' =>
          rw [hb] at hback
          exact hback.2.2 ▸ h.before x r t' hb
    refine h.settle ⟨fun _ _ => rfl, nofun⟩ nofun (fun y hy r hr => ?_) hlink hlink
    rcases hrow r with ⟨-, heq⟩ | ⟨hr', -⟩
    · exact heq
    · exact absurd hr (h.apart x y hy.symm r hr')

end Writers

/-! ## Readers during a rollback -/

lemma setXmax_undoWrites {y : Nat} (h : (r, HeaderWrite.setXmax y) ∈ undoWrites x log) :
    y = 0 ∨ y = x := by
  obtain ⟨a, -, hw⟩ := mem_flatMap.1 h
  cases a <;> simp_all [writes] <;> tauto

/-- On the way, the undo pass leaves a version unstamped or stamped with `x`. -/
lemma rowEffect_xmax_cases {ws : List (RowId × HeaderWrite)} (hws : ws ⊆ undoWrites x log)
    (ht : t.xmax = 0 ∨ t.xmax = x) : (rowEffect ws r t).xmax = 0 ∨ (rowEffect ws r t).xmax = x := by
  induction ws generalizing t with
  | nil => exact ht
  | cons w ws ih =>
    obtain ⟨hw, hws⟩ := cons_subset.1 hws
    rw [rowEffect_cons]
    refine ih hws ?_
    obtain ⟨q, w⟩ := w
    split
    · cases w with
      | setXmax y => exact setXmax_undoWrites hw
      | _ => exact ht
    · exact ht

lemma Writers.Inv.rollsBack {s : Writers ρ} (h : s.Inv) (x : Nat) : s.RollsBack x := by
  have hx := h.undoable x
  constructor
  · obtain ⟨P, hP, -⟩ := hx.applyWrites_ok (Subset.refl _)
    refine ⟨P, hP, fun r => ?_⟩
    rcases h.aborted hP r with ⟨hr, heq⟩ | ⟨hr, u, w, hw, hmin, hback⟩
    · rw [heq, hx.other r hr]
      exact ⟨fun t ht => ht, fun hnone t ht => by rw [hnone] at ht; cases ht⟩
    · cases hb : s.before x r with
      | none =>
        rw [hb] at hback
        obtain ⟨hu, -, hmax, -⟩ := hback
        refine ⟨nofun, fun _ t ht S self => ?_⟩
        cases ht.symm.trans hw
        exact not_visible (hmax ▸ h.running x r hr) (by rw [hmin, hu, hmax]; exact id)
      | some t =>
        rw [hb] at hback
        exact ⟨fun t' ht' => by rw [hw, hback.2.2, ht'], nofun⟩
  · intro k
    have hsub := take_subset k (undoWrites x (s.undo x))
    obtain ⟨P, hP, hrow⟩ := hx.applyWrites_ok hsub
    refine ⟨P, hP, fun S self hnot r => ?_⟩
    rw [hrow]
    by_cases hr : r ∈ undoRows (s.undo x)
    · obtain ⟨u, hu, hback⟩ := hx.own r hr
      have hkeep := (rowEffect_keeps ((undoWrites x (s.undo x)).take k) r u).1
      rw [hu, map_some, any_some, Bool.eq_iff_iff, visible_iff, hkeep]
      cases hb : s.before x r with
      | none =>
        rw [hb] at hback
        simp [hback.1, hnot]
      | some t =>
        rw [hb] at hback
        obtain ⟨hzero, hmax, heq⟩ := hback
        have hmin := (rowEffect_keeps (undoWrites x (s.undo x)) r u).1
        rw [heq] at hmin
        rw [any_some, visible_iff, hmin]
        rcases rowEffect_xmax_cases (r := r) hsub (.inr hmax) with hv | hv <;>
          simp [hv, hzero, hnot]
    · rw [← hx.other r hr]
      cases s.pool.tuple? r with
      | none => rfl
      | some t =>
        rw [map_some, rowEffect_of_not_mem fun w hw hwr => hr ?_]
        rw [← hwr]
        exact mem_undoRows_of_mem_undoWrites (hsub hw)

lemma Writers.inv_of_reached {s : Writers ρ}
    (hs : Reached Writers.step Writers.OwnRows Writers.init s) : s.Inv :=
  hs.invariant Writers.Inv ⟨fun _ => ⟨fun _ _ => rfl, nofun⟩, nofun, nofun, nofun, nofun⟩
    fun _ _ _ h hok hstep => h.step hok hstep

theorem abort_restores {s : Writers ρ} (hs : Reached Writers.step Writers.OwnRows Writers.init s)
    (x : Nat) :
    s.RollsBack x :=
  (Writers.inv_of_reached hs).rollsBack x

/-- Transaction 1 inserts a row and commits; 2 updates it on the same page, and deletes its own
version. -/
def updateThenDelete : List (WriterAction Nat) :=
  [.op 1 (.insert 0 10 none), .commit 1, .op 2 (.update .hot ⟨0, 0⟩ 0 11), .op 2 (.delete ⟨0, 1⟩)]

theorem abort_restores_update :
    let s := runState Writers.step Writers.init updateThenDelete
    s.before 2 ⟨0, 0⟩ = some (fresh 10 1 none) ∧ s.RollsBack 2 :=
  ⟨rfl, abort_restores (RunAllowed.reached_runState (by decide) (by decide)) 2⟩

/-- **A row that is being rolled back is visible** to the snapshot of a `NEAR` query, which lists no
active transactions. -/
theorem aborting_row_visible : ∃ s : Writers Nat,
    Reached Writers.step Writers.OwnRows Writers.init s ∧
    s.before 1 ⟨0, 0⟩ = none ∧ ∃ P, s.undoing 1 0 = .ok P ∧
      (P.tuple? ⟨0, 0⟩).any (·.visible ⟨0, 2, []⟩ 2) = true :=
  ⟨_, .step .init (a := .op 1 (.insert 0 10 none)) nofun rfl, rfl, _, rfl, by decide⟩

/-! ## The manager during a rollback -/

/-- **At every moment of an `abort`**, a snapshot that another transaction takes then shows the rows
of the heap without `x`. -/
theorem abort_active {s : Writers ρ} (hs : Reached Writers.step Writers.OwnRows Writers.init s)
    {T : TxnInner} {x self : Nat} (hx : (T.active x).isSome = true) (hself : self ≠ x) (k : Nat) :
    ∃ P T', s.aborting T x k = .ok (P, T') ∧ ∀ r,
      (P.tuple? r).any (·.visible T'.computeSnapshot self) =
        (s.before x r).any (·.visible T'.computeSnapshot self) := by
  have hback := (Writers.inv_of_reached hs).rollsBack x
  unfold Writers.aborting
  split
  · obtain ⟨P, hP, hhides⟩ := hback.hides k
    refine ⟨P, T, by rw [hP]; rfl, hhides _ _ ?_⟩
    -- an active transaction is not committed at a snapshot that is taken now
    have hactive : ¬T.Finished x := fun hfin => by simp [hfin.2.2] at hx
    rw [Snapshot.sees, Bool.or_eq_false_iff]
    exact ⟨by simpa using hself.symm,
      Bool.eq_false_iff.2 (mt TxnInner.isCommittedAtSnapshot_computeSnapshot.1 hactive)⟩
  · obtain ⟨P, hP, hrows⟩ := hback.restores
    refine ⟨P, T.remove x, by rw [hP]; rfl, fun r => ?_⟩
    cases hb : s.before x r with
    | some t => rw [(hrows r).1 t hb]
    | none =>
      cases ht : P.tuple? r with
      | none => rfl
      | some t => exact (hrows r).2 hb t ht _ _

end UniDb
