import UniDb.Storage.RowWrites

/-!
# Undo logs that cover their transaction

`LogFor x log P`: rolling back `log` takes every effect of `x` out of the pool `P` and touches
nothing else. Writes of `x` extend the log and keep this (`LogFor.write`); so do the writes and
rollbacks of others, which never touch a row of the log (`LogFor.frame`).
-/

namespace UniDb

open List UndoAction UpdatePath HeaderWrite

variable {ρ : Type}

def undoWrites (x : Nat) (log : List UndoAction) : List (RowId × HeaderWrite) :=
  log.reverse.flatMap (writes x)

def undoRows (log : List UndoAction) : List RowId := log.flatMap rows

@[simp] lemma undoRows_append (log new : List UndoAction) :
    undoRows (log ++ new) = undoRows log ++ undoRows new := flatMap_append ..

lemma undoWrites_append (x : Nat) (log new : List UndoAction) :
    undoWrites x (log ++ new) = undoWrites x new ++ undoWrites x log := by
  simp [undoWrites]

lemma rowEffect_append (ws ws' : List (RowId × HeaderWrite)) (r : RowId) (t : Tuple ρ) :
    rowEffect (ws ++ ws') r t = rowEffect ws' r (rowEffect ws r t) := foldl_append ..

lemma rowEffect_of_not_mem {ws : List (RowId × HeaderWrite)} {r : RowId}
    (h : ∀ w ∈ ws, w.1 ≠ r) (t : Tuple ρ) : rowEffect ws r t = t := by
  induction ws generalizing t with
  | nil => rfl
  | cons w ws ih =>
    rw [rowEffect_cons, if_neg (h w (.head _))]
    exact ih (fun v hv => h v (.tail _ hv)) t

variable {x : Nat} {log new : List UndoAction} {P : Pool ρ}

lemma mem_undoRows_of_mem_undoWrites {w : RowId × HeaderWrite} (h : w ∈ undoWrites x log) :
    w.1 ∈ undoRows log := by
  obtain ⟨a, ha, hw⟩ := mem_flatMap.1 h
  exact mem_flatMap.2 ⟨a, mem_reverse.1 ha, mem_rows_of_mem_writes hw⟩

lemma rowEffect_undoWrites {r : RowId} (h : r ∉ undoRows log) (t : Tuple ρ) :
    rowEffect (undoWrites x log) r t = t :=
  rowEffect_of_not_mem (fun w hw hr => h (by
    rw [← hr]
    exact mem_undoRows_of_mem_undoWrites hw)) t

/-! ## What a rollback leaves of a tuple -/

/-- `u` is `t` after the effects of the transactions in `X` were taken back: their own versions are
stamped with themselves, their stamps are cleared. -/
structure Undone (X : Nat → Prop) (t u : Tuple ρ) : Prop where
  xmin : u.xmin = t.xmin
  data : u.data = t.data
  own : X t.xmin → u.xmax = t.xmin ∧ u.hotNext = .none
  stamped : ¬ X t.xmin → X t.xmax → u.xmax = 0 ∧ u.hotNext = .none
  other : ¬ X t.xmin → ¬ X t.xmax → u = t

lemma Undone.refl {X : Nat → Prop} {t : Tuple ρ} (hmin : ¬ X t.xmin) (hmax : ¬ X t.xmax) :
    Undone X t t :=
  ⟨rfl, rfl, fun h => absurd h hmin, fun _ h => absurd h hmax, fun _ _ => rfl⟩

lemma Undone.cases {X : Nat → Prop} {t u : Tuple ρ} (h : Undone X t u) :
    X t.xmin ∧ u.xmax = t.xmin ∧ u.hotNext = .none ∨
      ¬ X t.xmin ∧ X t.xmax ∧ u.xmax = 0 ∧ u.hotNext = .none ∨ ¬ X t.xmin ∧ ¬ X t.xmax ∧ u = t := by
  by_cases h1 : X t.xmin
  · exact .inl ⟨h1, h.own h1⟩
  · by_cases h2 : X t.xmax
    · exact .inr (.inl ⟨h1, h2, h.stamped h1 h2⟩)
    · exact .inr (.inr ⟨h1, h2, h.other h1 h2⟩)

/-- The pool `Q` is `P` after the effects of the transactions in `X` were taken back. -/
def Pool.Undone (X : Nat → Prop) (P Q : Pool ρ) : Prop :=
  ∀ r, (P.tuple? r = none → Q.tuple? r = none) ∧
    ∀ t, P.tuple? r = some t → ∃ u, Q.tuple? r = some u ∧ UniDb.Undone X t u

/-- The log of `x` rolls back exactly what `x` did to the pool. -/
structure LogFor (x : Nat) (log : List UndoAction) (P : Pool ρ) : Prop where
  live : ∀ r ∈ undoRows log, (P.tuple? r).isSome
  undone : ∀ r t, P.tuple? r = some t → Undone (· = x) t (rowEffect (undoWrites x log) r t)
  other : ∀ r t, P.tuple? r = some t → t.xmin ≠ x → t.xmax ≠ x → r ∉ undoRows log

lemma LogFor.nil (h : ∀ r t, P.tuple? r = some t → t.xmin ≠ x ∧ t.xmax ≠ x) : LogFor x [] P where
  live := by simp [undoRows]
  undone := fun r t ht => .refl (h r t ht).1 (h r t ht).2
  other := by simp [undoRows]

lemma LogFor.applyWrites_ok (h : LogFor x log P) : ∃ Q, applyWrites (undoWrites x log) P = .ok Q ∧
      ∀ r, Q.tuple? r = (P.tuple? r).map (rowEffect (undoWrites x log) r) :=
  UniDb.applyWrites_ok fun _ hw => h.live _ (mem_undoRows_of_mem_undoWrites hw)

lemma LogFor.frame {P' : Pool ρ} (h : LogFor x log P)
    (hlive : ∀ r ∈ undoRows log, (P'.tuple? r).isSome)
    (hrow : ∀ r t', P'.tuple? r = some t' → P.tuple? r = some t' ∨
      r ∉ undoRows log ∧ t'.xmin ≠ x ∧ t'.xmax ≠ x) : LogFor x log P' where
  live := hlive
  undone := by
    intro r t' ht'
    rcases hrow r t' ht' with ht | ⟨hr, hmin, hmax⟩
    · exact h.undone r t' ht
    · rw [rowEffect_undoWrites hr]
      exact .refl hmin hmax
  other := by
    intro r t' ht' hmin hmax
    rcases hrow r t' ht' with ht | ⟨hr, -, -⟩
    · exact h.other r t' ht hmin hmax
    · exact hr

lemma LogFor.append_of_rows (h : LogFor x log P) (hnew : ∀ a ∈ new, a.rows = []) :
    LogFor x (log ++ new) P := by
  have hrows : undoRows new = [] := flatMap_eq_nil_iff.2 hnew
  have hwrites : undoWrites x new = [] := by
    rw [eq_nil_iff_forall_not_mem]
    intro w hw
    have := mem_undoRows_of_mem_undoWrites hw
    rw [hrows] at this
    cases this
  refine ⟨?_, ?_, ?_⟩
  · rw [undoRows_append, hrows, append_nil]
    exact h.live
  · rw [undoWrites_append, hwrites]
    exact h.undone
  · rw [undoRows_append, hrows, append_nil]
    exact h.other

/-! ## Logs of writes -/

section
variable {x : Nat} {path : UpdatePath} {r r' : RowId} {t : Tuple ρ}

lemma mem_undoRows_undo (hhot : path = .hot → r'.pageId = r.pageId) {s : RowId} :
    s ∈ undoRows (path.undo r r' t) ↔ s = r ∨ s = r' := by
  cases path with
  | plain => simp [undoRows, undo, rows]
  | hot =>
    have hr' : (⟨r.pageId, r'.slot⟩ : RowId) = r' := by rw [← hhot rfl]
    show s ∈ [(⟨r.pageId, r'.slot⟩ : RowId), r] ↔ _
    rw [hr']
    simp [or_comm]
  | hotXpage =>
    show s ∈ [r', r] ↔ _
    simp [or_comm]

lemma rowEffect_undo_old (hmax : t.xmax = 0) (hnext : t.hotNext = .none) :
    rowEffect (undoWrites x (path.undo r r' t)) r (path.link r' (t.setXmax x)) = t := by
  obtain ⟨⟨xmin, xmax, pp, ps, hn⟩, data⟩ := t
  subst hmax hnext
  cases path with
  | plain => simp [undoWrites, undo, writes, rowEffect, apply, link, Tuple.setXmax]
  | hot => simp [undoWrites, undo, writes, rowEffect, apply, link, Tuple.setXmax, Tuple.setHotNext]
  | hotXpage =>
    simp [undoWrites, undo, writes, rowEffect, apply, link, Tuple.setXmax, Tuple.setHotXpage,
      Tuple.restorePrevAndHotNext]

lemma rowEffect_undo_new (hne : r ≠ r') (hhot : path = .hot → r'.pageId = r.pageId)
    (u : Tuple ρ) : rowEffect (undoWrites x (path.undo r r' t)) r' u = u.setXmax x := by
  cases path with
  | plain | hotXpage =>
    simp [undoWrites, undo, writes, rowEffect, hne, apply]
  | hot =>
    have hr' : (⟨r.pageId, r'.slot⟩ : RowId) = r' := by rw [← hhot rfl]
    simp [undoWrites, undo, writes, rowEffect, hr', hne, apply]

end

@[simp] lemma UpdatePath.link_xmin (path : UpdatePath) (r : RowId) (t : Tuple ρ) :
    (path.link r t).xmin = t.xmin := by cases path <;> rfl

@[simp] lemma UpdatePath.link_xmax (path : UpdatePath) (r : RowId) (t : Tuple ρ) :
    (path.link r t).xmax = t.xmax := by cases path <;> rfl

/-! ## Taking back the writes of one transaction -/

/-- What a rollback by `x` makes of a row that held `old` and now holds `u`: a version of `x` is
stamped with it, any other is as it was. -/
def TakesBack (x : Nat) (u w : Tuple ρ) : Option (Tuple ρ) → Prop
  | none => u.xmin = x ∧ (u.xmax = 0 → u.hotNext = .none) ∧ w.xmax = x ∧ w.hotNext = .none
  | some t => t.xmax = 0 ∧ u.xmax = x ∧ w = t

/-- The log takes back what `x` did to the rows it names, which held `before`. The others still
do. -/
structure Undoable (x : Nat) (before : RowId → Option (Tuple ρ)) (P : Pool ρ)
    (log : List UndoAction) : Prop where
  other : ∀ r, r ∉ undoRows log → P.tuple? r = before r
  own : ∀ r ∈ undoRows log, ∃ u, P.tuple? r = some u ∧
    TakesBack x u (rowEffect (undoWrites x log) r u) (before r)

lemma rowEffect_keeps (ws : List (RowId × HeaderWrite)) (r : RowId) (t : Tuple ρ) :
    (rowEffect ws r t).xmin = t.xmin ∧ (rowEffect ws r t).data = t.data := by
  induction ws generalizing t with
  | nil => exact ⟨rfl, rfl⟩
  | cons w ws ih =>
    obtain ⟨q, w⟩ := w
    rw [rowEffect_cons, (ih _).1, (ih _).2]
    split
    · cases w <;> exact ⟨rfl, rfl⟩
    · exact ⟨rfl, rfl⟩

lemma undoable_insert {P' : Pool ρ} {r : RowId} {data : ρ} {prev : Option RowId}
    (hr : P.tuple? r = none)
    (htuple : ∀ s, P'.tuple? s = if s = r then some (Tuple.fresh data x prev) else P.tuple? s) :
    Undoable x P.tuple? P' [.insert r.pageId r.slot] := by
  have hrows : ∀ s, s ∈ undoRows [insert r.pageId r.slot] ↔ s = r := by
    simp [undoRows, rows]
  refine ⟨fun s hs => (htuple s).trans (if_neg (mt (hrows s).2 hs)), fun s hs => ?_⟩
  obtain rfl := (hrows s).1 hs
  refine ⟨_, (htuple s).trans (if_pos rfl), ?_⟩
  rw [hr]
  refine ⟨rfl, fun _ => rfl, ?_⟩
  simp [undoWrites, writes, rowEffect, apply, Tuple.setXmax, Tuple.fresh]

lemma HeapWrite.undoable {sees : Nat → Bool} {P' : Pool ρ} (hw : HeapWrite sees x P P' new)
    (hunlinked : ∀ r t, P.tuple? r = some t → t.xmax = 0 → t.hotNext = .none) :
    Undoable x P.tuple? P' new := by
  cases hw with
  | insert hr htuple => exact undoable_insert hr htuple
  | @delete r t ht hmax0 hsees htuple =>
    have hrows : ∀ s, s ∈ undoRows [xmaxStamp r.pageId r.slot] ↔ s = r := by
      simp [undoRows, rows]
    refine ⟨fun s hs => (htuple s).trans (if_neg (mt (hrows s).2 hs)), fun s hs => ?_⟩
    obtain rfl := (hrows s).1 hs
    refine ⟨_, (htuple s).trans (if_pos rfl), ?_⟩
    rw [ht]
    refine ⟨hmax0, rfl, ?_⟩
    obtain ⟨⟨xmin, xmax, pp, ps, hn⟩, data⟩ := t
    subst hmax0
    simp [undoWrites, writes, rowEffect, apply, Tuple.setXmax]
  | @update path r r' t data ht hmax0 hsees hr' hhot htuple =>
    have hne : r ≠ r' := by
      intro he
      rw [he, hr'] at ht
      cases ht
    refine ⟨fun s hs => ?_, fun s hs => ?_⟩
    · obtain ⟨h1, h2⟩ := not_or.1 (mt (mem_undoRows_undo hhot).2 hs)
      rw [htuple, if_neg h2, if_neg h1]
    · rcases (mem_undoRows_undo hhot).1 hs with rfl | rfl
      · refine ⟨_, (htuple s).trans ((if_neg hne).trans (if_pos rfl)), ?_⟩
        rw [ht, rowEffect_undo_old hmax0 (hunlinked s t ht hmax0)]
        exact ⟨hmax0, by simp [Tuple.setXmax], rfl⟩
      · refine ⟨_, (htuple s).trans (if_pos rfl), ?_⟩
        rw [hr', rowEffect_undo_new hne hhot]
        exact ⟨rfl, fun _ => rfl, rfl, rfl⟩

/-- The rolled-back old version is also what rolling back the stamp on it gives. -/
lemma Undone.of_stamped {t t' u : Tuple ρ} (h : Undone (· = x) t u) (hmax : t.xmax ≠ x)
    (hzero : t.xmax = 0) (hnext : t.hotNext = .none) (hmin' : t'.xmin = t.xmin)
    (hdata' : t'.data = t.data) (hmax' : t'.xmax = x) : Undone (· = x) t' u where
  xmin := h.xmin.trans hmin'.symm
  data := h.data.trans hdata'.symm
  own := fun hx => by
    rw [hmin'] at hx ⊢
    exact h.own hx
  stamped := fun hx _ => by
    rw [hmin'] at hx
    rw [h.other hx hmax]
    exact ⟨hzero, hnext⟩
  other := fun _ hx => absurd hmax' hx

/-- Actions whose rows carry `x` and are rolled back by them, and a pool that differs at these
rows. -/
lemma LogFor.extend {P' : Pool ρ} (h : LogFor x log P)
    (hother : ∀ s, s ∉ undoRows new → P'.tuple? s = P.tuple? s)
    (hnew : ∀ s ∈ undoRows new, ∃ u, P'.tuple? s = some u ∧ (u.xmin = x ∨ u.xmax = x) ∧
      Undone (· = x) u (rowEffect (undoWrites x log) s (rowEffect (undoWrites x new) s u))) :
    LogFor x (log ++ new) P' := by
  refine ⟨fun s hs => ?_, fun s u hu => ?_, fun s u hu hmin hmax => ?_⟩
  · rw [undoRows_append, mem_append] at hs
    by_cases hmem : s ∈ undoRows new
    · obtain ⟨u, hu, -⟩ := hnew s hmem
      simp [hu]
    · rw [hother s hmem]
      exact h.live s (hs.resolve_right hmem)
  · rw [undoWrites_append, rowEffect_append]
    by_cases hmem : s ∈ undoRows new
    · obtain ⟨u', hu', -, hundone⟩ := hnew s hmem
      cases hu.symm.trans hu'
      exact hundone
    · rw [rowEffect_undoWrites hmem]
      exact h.undone s u (hother s hmem ▸ hu)
  · have hmem : s ∉ undoRows new := by
      intro hmem
      obtain ⟨u', hu', hx, -⟩ := hnew s hmem
      cases hu.symm.trans hu'
      exact hx.elim hmin hmax
    rw [undoRows_append, mem_append]
    exact not_or.2 ⟨h.other s u (hother s hmem ▸ hu) hmin hmax, hmem⟩

lemma LogFor.write {sees : Nat → Bool} {P' : Pool ρ} (h : LogFor x log P) (hx : x ≠ 0)
    (hunlinked : ∀ r t, P.tuple? r = some t → t.xmax = 0 → t.hotNext = .none)
    (hw : HeapWrite sees x P P' new) : LogFor x (log ++ new) P' := by
  have hnew := hw.undoable hunlinked
  refine h.extend hnew.other fun s hs => ?_
  obtain ⟨u, hu, hback⟩ := hnew.own s hs
  refine ⟨u, hu, ?_⟩
  have hkeep := rowEffect_keeps (undoWrites x new) s u
  cases ht : P.tuple? s with
  | none =>
    rw [ht] at hback
    obtain ⟨hmin, -, hmax, hnext⟩ := hback
    have hfree : s ∉ undoRows log := fun hmem => by simpa [ht] using h.live s hmem
    rw [rowEffect_undoWrites hfree]
    exact ⟨.inl hmin, hkeep.1, hkeep.2, fun _ => ⟨hmax.trans hmin.symm, hnext⟩,
      fun hn => absurd hmin hn, fun hn => absurd hmin hn⟩
  | some t =>
    rw [ht] at hback
    obtain ⟨hzero, hmax, heq⟩ := hback
    rw [heq] at hkeep ⊢
    exact ⟨.inr hmax, (h.undone s t ht).of_stamped (by omega) hzero (hunlinked s t ht hzero)
      hkeep.1.symm hkeep.2.symm hmax⟩

end UniDb
