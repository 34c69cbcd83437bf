import UniDb.Txn.Manager
import UniDb.Txn.UndoLog

/-!
# The heap under concurrent transactions

`HeapInv P T log`: the discipline that every transaction keeps on the shared pool `P`. `log x` is
the undo log of the running transaction `x`. One lemma per kind of step: `HeapInv.begin`,
`HeapInv.steady`, `HeapInv.write`, `HeapInv.shrink` (commit), `HeapInv.undo` (abort, and the undo
pass of recovery for all running transactions at once); `HeapInv.step` puts them together.
-/

namespace UniDb

variable {ρ : Type}

structure HeapInv (P : Pool ρ) (T : TxnInner) (log : Nat → List UndoAction) : Prop where
  active_lt : ∀ x, T.active x ≠ none → 0 < x ∧ x < T.nextXid
  xmin_lt : ∀ r t, P.tuple? r = some t → 0 < t.xmin ∧ t.xmin < T.nextXid
  xmax_lt : ∀ r t, P.tuple? r = some t → t.xmax < T.nextXid
  /-- Whoever superseded a version saw the transaction that made it. -/
  saw : ∀ r t, P.tuple? r = some t → t.xmax ≠ 0 → t.xmin = t.xmax ∨ T.Finished t.xmin
  unlinked : ∀ r t, P.tuple? r = some t → t.xmax = 0 → t.hotNext = .none
  /-- A HOT link leads to the version that superseded this one. -/
  linked : ∀ r t r', P.tuple? r = some t → t.hotTarget r = some r' →
    ∃ t', P.tuple? r' = some t' ∧ t'.xmin = t.xmax
  /-- What a snapshot sees has finished. -/
  held : ∀ x txn, T.active x = some txn → ∀ y, y ≠ x →
    txn.snapshot.isCommittedAtSnapshot y = true → T.Finished y
  /-- A snapshot that sees a version superseded sees it made. -/
  closed : ∀ x txn, T.active x = some txn → ∀ r t, P.tuple? r = some t → t.xmax ≠ 0 →
    txn.snapshot.sees x t.xmax = true → txn.snapshot.sees x t.xmin = true
  logged : ∀ x, T.active x ≠ none → LogFor x (log x) P

variable {x y : Nat}

lemma Snapshot.sees_iff {s : Snapshot} :
    s.sees x y = true ↔ y = x ∨ s.isCommittedAtSnapshot y = true := by
  simp [Snapshot.sees]

section
variable {P P' : Pool ρ} {T T' : TxnInner} {log log' : Nat → List UndoAction}

variable {txn : Transaction} {sees : Nat → Bool} {new : List UndoAction} {r : RowId}

section
variable (h : HeapInv P T log)

include h

/-- A transaction sees its own effects and those of finished transactions. -/
lemma HeapInv.sees_cases (hx : T.active x = some txn)
    (hsees : txn.snapshot.sees x y = true) : y = x ∨ T.Finished y := by
  by_cases hy : y = x
  · exact .inl hy
  · exact .inr (h.held x txn hx y hy ((Snapshot.sees_iff.1 hsees).resolve_left hy))

/-- Other running transactions over the same heap, each under a snapshot that one of the old ones
holds or that sees what has finished. -/
lemma HeapInv.of_txns (hlt : ∀ x, T'.active x ≠ none → 0 < x ∧ x < T'.nextXid)
    (hnext : T.nextXid ≤ T'.nextXid)
    (hfin : ∀ x, T.Finished x → T'.Finished x) (hsnap : ∀ x txn', T'.active x = some txn' →
      (∃ txn, T.active x = some txn ∧ txn'.snapshot = txn.snapshot) ∨
        ∀ y, y ≠ x → (txn'.snapshot.isCommittedAtSnapshot y = true ↔ T'.Finished y))
    (hlog : ∀ x, T'.active x ≠ none → LogFor x (log' x) P) : HeapInv P T' log' := by
  refine ⟨hlt, ?_, ?_, ?_, h.unlinked, h.linked, ?_, ?_, hlog⟩
  · intro r t ht
    have := h.xmin_lt r t ht
    omega
  · intro r t ht
    exact Nat.lt_of_lt_of_le (h.xmax_lt r t ht) hnext
  · intro r t ht hmax
    exact (h.saw r t ht hmax).imp_right (hfin _)
  · intro x txn' hx y hy hc
    rcases hsnap x txn' hx with ⟨txn, hx', hs⟩ | hs
    · exact hfin y (h.held x txn hx' y hy (hs ▸ hc))
    · exact (hs y hy).1 hc
  · intro x txn' hx r t ht hmax hsees
    rcases hsnap x txn' hx with ⟨txn, hx', hs⟩ | hs
    · rw [hs] at hsees ⊢
      exact h.closed x txn hx' r t ht hmax hsees
    · -- the writer of `xmax` is `x` or has finished, and saw the writer of `xmin`
      rcases h.saw r t ht hmax with heq | hf
      · rw [heq]
        exact hsees
      · exact Snapshot.sees_iff.2 ((em _).imp_right fun hne => (hs _ hne).2 (hfin _ hf))

lemma HeapInv.active_nextXid : T.active T.nextXid = none := by
  by_contra hx
  have := (h.active_lt _ hx).2
  omega

lemma HeapInv.begin (iso : IsolationLevel) (hpos : 0 < T.nextXid)
    (hnew : log' T.nextXid = []) (hlog : ∀ x, T.active x ≠ none → log' x = log x) :
    HeapInv P (T.begin iso) log' := by
  have hact : ∀ x, x ≠ T.nextXid → (T.begin iso).active x = T.active x := fun x hx =>
    T.begin_active_ne hx iso
  refine h.of_txns (fun x hx => ?_) (Nat.le_succ _) (fun x hf => ?_) (fun x txn' hx => ?_)
    fun x hx => ?_
  · show 0 < x ∧ x < T.nextXid + 1
    by_cases he : x = T.nextXid
    · omega
    · rw [hact x he] at hx
      have := h.active_lt x hx
      omega
  · obtain ⟨h0, hlt, hx⟩ := hf
    exact ⟨h0, Nat.lt_succ_of_lt hlt, by rw [hact x (Nat.ne_of_lt hlt), hx]⟩
  · by_cases he : x = T.nextXid
    · subst he
      cases (Function.update_self ..).symm.trans hx
      refine .inr fun y hy => TxnInner.isCommittedAtSnapshot_computeSnapshot.trans ?_
      rw [TxnInner.Finished, TxnInner.Finished, hact y hy]
      rfl
    · exact .inl ⟨txn', hact x he ▸ hx, rfl⟩
  · by_cases he : x = T.nextXid
    · subst he
      rw [hnew]
      refine .nil fun r t ht => ?_
      have h1 := h.xmin_lt r t ht
      have h2 := h.xmax_lt r t ht
      constructor <;> omega
    · rw [hact x he] at hx
      rw [hlog x hx]
      exact h.logged x hx

lemma HeapInv.steady (hT : T.Steady T')
    (hlog : ∀ x, T.active x ≠ none → LogFor x (log' x) P) : HeapInv P T' log' := by
  have hne : ∀ {x}, T'.active x ≠ none → T.active x ≠ none := fun hx => mt (hT.domain _).2 hx
  refine h.of_txns (fun x hx => ?_) hT.nextXid.ge (fun x => hT.finished_iff.2) (fun x txn' hx => ?_)
    fun x hx => hlog x (hne hx)
  · rw [hT.nextXid]
    exact h.active_lt x (hne hx)
  · obtain ⟨txn, hx', -, hs | hs⟩ := hT.record x txn' hx
    · exact .inl ⟨txn, hx', hs⟩
    · refine .inr fun y _ => ?_
      rw [hs, hT.finished_iff]
      exact TxnInner.isCommittedAtSnapshot_computeSnapshot

end

/-! ## Writes -/

lemma HeapInv.active_ne_of_finished (hx : T.active x ≠ none) (hy : T.Finished y) :
    y ≠ x := fun he => hx (he ▸ hy.2.2)

/-- What a write does to one row: it fills it, or stamps the version there and links it to a row
filled by the same write. -/
lemma HeapWrite.row_cases (hw : HeapWrite sees x P P' new) (r : RowId) :
    P'.tuple? r = P.tuple? r ∨
      (P.tuple? r = none ∧ ∃ data prev, P'.tuple? r = some (Tuple.fresh data x prev)) ∨
      ∃ t path r', P.tuple? r = some t ∧ t.xmax = 0 ∧ sees t.xmin = true ∧
        P'.tuple? r = some (UpdatePath.link path r' (t.setXmax x)) ∧ (path ≠ .plain →
          (path = .hot → r'.pageId = r.pageId) ∧
            ∃ data prev, P'.tuple? r' = some (Tuple.fresh data x prev)) := by
  cases hw with
  | insert hs htuple =>
    rw [htuple]
    split
    · rename_i he
      exact .inr (.inl ⟨he ▸ hs, _, _, rfl⟩)
    · exact .inl rfl
  | @delete s t ht hmax hsees htuple =>
    rw [htuple]
    split
    · rename_i he
      exact .inr (.inr ⟨t, .plain, s, he ▸ ht, hmax, hsees, rfl, fun h => absurd rfl h⟩)
    · exact .inl rfl
  | @update path s s' t data ht hmax hsees hs' hhot htuple =>
    rw [htuple r]
    split
    · rename_i he
      exact .inr (.inl ⟨he ▸ hs', _, _, rfl⟩)
    · split
      · rename_i he
        subst he
        exact .inr (.inr ⟨t, path, s', ht, hmax, hsees, rfl, fun _ =>
          ⟨hhot, _, _, (htuple s').trans (if_pos rfl)⟩⟩)
      · exact .inl rfl

lemma HeapWrite.tuple_cases (hw : HeapWrite sees x P P' new) {u : Tuple ρ}
    (hu : P'.tuple? r = some u) : P.tuple? r = some u ∨
      (P.tuple? r = none ∧ u.xmin = x ∧ u.xmax = 0 ∧ u.hotNext = .none) ∨
      ∃ t, P.tuple? r = some t ∧ t.xmax = 0 ∧ sees t.xmin = true ∧ u.xmin = t.xmin ∧
          u.xmax = x := by
  rcases hw.row_cases r with heq | ⟨hr, data, prev, hnew⟩ | ⟨t, path, r', ht, hmax, hsees, hnew, -⟩
  · exact .inl (heq ▸ hu)
  · cases hu.symm.trans hnew
    exact .inr (.inl ⟨hr, rfl, rfl, rfl⟩)
  · cases hu.symm.trans hnew
    exact .inr (.inr ⟨t, ht, hmax, hsees, by simp [Tuple.setXmax], by simp [Tuple.setXmax]⟩)

lemma HeapWrite.keeps (hw : HeapWrite sees x P P' new) {t : Tuple ρ} (ht : P.tuple? r = some t) :
    ∃ u, P'.tuple? r = some u ∧ u.xmin = t.xmin := by
  rcases hw.row_cases r with heq | ⟨hr, -⟩ | ⟨t', path, r', ht', -, -, hnew, -⟩
  · exact ⟨t, heq.trans ht, rfl⟩
  · cases hr.symm.trans ht
  · cases ht.symm.trans ht'
    exact ⟨_, hnew, by simp [Tuple.setXmax]⟩

section
variable (h : HeapInv P T log)

include h

lemma HeapWrite.linked (hw : HeapWrite sees x P P' new) {r' : RowId}
    {u : Tuple ρ} (hu : P'.tuple? r = some u) (hnext : u.hotTarget r = some r') :
    ∃ u', P'.tuple? r' = some u' ∧ u'.xmin = u.xmax := by
  rcases hw.row_cases r with heq | ⟨-, data, prev, hnew⟩ | ⟨t, path, s', ht, hmax, -, hnew, hlink⟩
  · obtain ⟨t', ht', hmin⟩ := h.linked r u r' (heq ▸ hu) hnext
    obtain ⟨u', hu', hmin'⟩ := hw.keeps ht'
    exact ⟨u', hu', hmin'.trans hmin⟩
  · cases hu.symm.trans hnew
    cases hnext
  · cases hu.symm.trans hnew
    cases path with
    | plain =>
      rw [Tuple.setXmax, h.unlinked r t ht hmax] at hnext
      cases hnext
    | hot =>
      obtain ⟨hpage, data, prev, hs'⟩ := hlink (by simp)
      cases hnext
      rw [← hpage rfl]
      exact ⟨_, hs', rfl⟩
    | hotXpage =>
      obtain ⟨-, data, prev, hs'⟩ := hlink (by simp)
      cases hnext
      exact ⟨_, hs', rfl⟩

lemma HeapInv.write (hx : T.active x = some txn)
    (hw : HeapWrite (txn.snapshot.sees x) x P P' new) (hlogx : log' x = log x ++ new)
    (hlog : ∀ y, y ≠ x → T.active y ≠ none → log' y = log y) : HeapInv P' T log' := by
  have hactive : T.active x ≠ none := by simp [hx]
  have hlt := h.active_lt x hactive
  refine ⟨h.active_lt, ?_, ?_, ?_, ?_, ?_, h.held, ?_, ?_⟩
  · intro r u hu
    rcases hw.tuple_cases hu with ht | ⟨-, hmin, -, -⟩ | ⟨t, ht, -, -, hmin, -⟩
    · exact h.xmin_lt r u ht
    · omega
    · rw [hmin]
      exact h.xmin_lt r t ht
  · intro r u hu
    rcases hw.tuple_cases hu with ht | ⟨-, -, hmax, -⟩ | ⟨t, ht, -, -, -, hmax⟩
    · exact h.xmax_lt r u ht
    · omega
    · omega
  · intro r u hu hne
    rcases hw.tuple_cases hu with ht | ⟨-, -, hmax, -⟩ | ⟨t, ht, -, hsees, hmin, hmax⟩
    · exact h.saw r u ht hne
    · exact absurd hmax hne
    · rw [hmin, hmax]
      exact h.sees_cases hx hsees
  · intro r u hu hmax
    rcases hw.tuple_cases hu with ht | ⟨-, -, -, hnext⟩ | ⟨t, ht, -, -, -, hmax'⟩
    · exact h.unlinked r u ht hmax
    · exact hnext
    · omega
  · intro r u r' hu hnext
    exact HeapWrite.linked h hw hu hnext
  · intro y txn' hy r u hu hne hsees
    rcases hw.tuple_cases hu with ht | ⟨-, -, hmax, -⟩ | ⟨t, ht, -, hseen, hmin, hmax⟩
    · exact h.closed y txn' hy r u ht hne hsees
    · exact absurd hmax hne
    · -- only `x` itself sees the stamp
      rw [hmax] at hsees
      rcases h.sees_cases hy hsees with rfl | hf
      · cases hx.symm.trans hy
        rw [hmin]
        exact hseen
      · exact absurd hf.2.2 hactive
  · intro y hy
    by_cases he : y = x
    · subst he
      rw [hlogx]
      exact (h.logged y hy).write (by omega) h.unlinked hw
    · rw [hlog y he hy]
      have hylt := h.active_lt y hy
      have hl := h.logged y hy
      refine hl.frame (fun r hr => ?_) (fun r u hu => ?_)
      · obtain ⟨t, ht⟩ := Option.isSome_iff_exists.1 (hl.live r hr)
        obtain ⟨u, hu, -⟩ := hw.keeps ht
        rw [hu]
        rfl
      · rcases hw.tuple_cases hu with ht | ⟨hr, hmin, hmax, -⟩ | ⟨t, ht, hmax0, hsees, hmin, hmax⟩
        · exact .inl ht
        · refine .inr ⟨fun hmem => ?_, by omega, by omega⟩
          have := hl.live r hmem
          rw [hr] at this
          cases this
        · have hne : t.xmin ≠ y := by
            rcases h.sees_cases hx hsees with he' | hf
            · omega
            · exact active_ne_of_finished hy hf
          exact .inr ⟨hl.other r t ht hne (by omega), by omega, by omega⟩

/-! ## Ends of transactions -/

/-- `commit`, or anything that only removes running transactions. -/
lemma HeapInv.shrink (hnext : T'.nextXid = T.nextXid)
    (hact : ∀ x txn, T'.active x = some txn → T.active x = some txn)
    (hlog : ∀ x, T'.active x ≠ none → log' x = log x) : HeapInv P T' log' := by
  have hne : ∀ x, T'.active x ≠ none → T.active x ≠ none := by
    intro x hx
    obtain ⟨txn, htxn⟩ := Option.ne_none_iff_exists'.1 hx
    simp [hact x txn htxn]
  refine h.of_txns (fun x hx => ?_) hnext.ge (fun x hf => ?_)
    (fun x txn hx => .inl ⟨txn, hact x txn hx, rfl⟩) fun x hx => ?_
  · rw [hnext]
    exact h.active_lt x (hne x hx)
  · obtain ⟨h0, hlt, hx⟩ := hf
    exact ⟨h0, hnext ▸ hlt, by_contra fun hx' => hne x hx' hx⟩
  · rw [hlog x hx]
    exact h.logged x (hne x hx)

/-- Taking back the effects of a set of running transactions, before they leave. -/
lemma HeapInv.undo {X : Nat → Prop} (hX : ∀ x, X x → T.active x ≠ none)
    (hP' : P.Undone X P') (hnext : T'.nextXid = T.nextXid)
    (hact : ∀ x txn, T'.active x = some txn ↔ T.active x = some txn ∧ ¬ X x)
    (hlog : ∀ x, T'.active x ≠ none → log' x = log x) : HeapInv P' T' log' := by
  have hs := h.shrink hnext (fun x txn hx => ((hact x txn).1 hx).1) hlog
  -- every tuple of `P'` is one of `P`, rolled back
  have hinv : ∀ r u, P'.tuple? r = some u → ∃ t, P.tuple? r = some t ∧ Undone X t u := by
    intro r u hu
    cases ht : P.tuple? r with
    | none => rw [(hP' r).1 ht] at hu; cases hu
    | some t =>
      obtain ⟨u', hu', hund⟩ := (hP' r).2 t ht
      cases hu.symm.trans hu'
      exact ⟨t, rfl, hund⟩
  refine ⟨hs.active_lt, ?_, ?_, ?_, ?_, ?_, hs.held, ?_, ?_⟩
  · intro r u hu
    obtain ⟨t, ht, hund⟩ := hinv r u hu
    rw [hund.xmin]
    exact hs.xmin_lt r t ht
  · intro r u hu
    obtain ⟨t, ht, hund⟩ := hinv r u hu
    have hmin := hs.xmin_lt r t ht
    rcases hund.cases with ⟨-, hmax, -⟩ | ⟨-, -, hmax, -⟩ | ⟨-, -, rfl⟩
    · omega
    · omega
    · exact hs.xmax_lt r u ht
  · intro r u hu hne
    obtain ⟨t, ht, hund⟩ := hinv r u hu
    rcases hund.cases with ⟨-, hmax, -⟩ | ⟨-, -, hmax, -⟩ | ⟨-, -, rfl⟩
    · exact .inl (hund.xmin.trans hmax.symm)
    · exact absurd hmax hne
    · exact hs.saw r u ht hne
  · intro r u hu hmax
    obtain ⟨t, ht, hund⟩ := hinv r u hu
    rcases hund.cases with ⟨-, -, hn⟩ | ⟨-, -, -, hn⟩ | ⟨-, -, rfl⟩
    · exact hn
    · exact hn
    · exact hs.unlinked r u ht hmax
  · intro r u r' hu hnext'
    obtain ⟨t, ht, hund⟩ := hinv r u hu
    have hnone : u.hotNext ≠ .none := by
      intro hn
      rw [Tuple.hotTarget, hn] at hnext'
      cases hnext'
    rcases hund.cases with ⟨-, -, hn⟩ | ⟨-, -, -, hn⟩ | ⟨-, -, rfl⟩
    · exact absurd hn hnone
    · exact absurd hn hnone
    · obtain ⟨t', ht', hmin⟩ := h.linked r u r' ht hnext'
      obtain ⟨u', hu', hund'⟩ := (hP' r').2 t' ht'
      exact ⟨u', hu', hund'.xmin.trans hmin⟩
  · intro x txn hx r u hu hne hsees
    obtain ⟨t, ht, hund⟩ := hinv r u hu
    rcases hund.cases with ⟨-, hmax, -⟩ | ⟨-, -, hmax, -⟩ | ⟨-, -, rfl⟩
    · rw [hund.xmin, ← hmax]
      exact hsees
    · exact absurd hmax hne
    · exact hs.closed x txn hx r u ht hne hsees
  · intro x hx
    rw [hlog x hx]
    obtain ⟨txn, htxn⟩ := Option.ne_none_iff_exists'.1 hx
    obtain ⟨hxT, hxX⟩ := (hact x txn).1 htxn
    have hxne : T.active x ≠ none := by simp [hxT]
    have hxlt := h.active_lt x hxne
    have hl := h.logged x hxne
    refine hl.frame (fun r hr => ?_) (fun r u hu => ?_)
    · obtain ⟨t, ht⟩ := Option.isSome_iff_exists.1 (hl.live r hr)
      obtain ⟨u, hu, -⟩ := (hP' r).2 t ht
      rw [hu]
      rfl
    · obtain ⟨t, ht, hund⟩ := hinv r u hu
      rcases hund.cases with ⟨h1, hmax', -⟩ | ⟨h1, h2, h0, -⟩ | ⟨-, -, rfl⟩
      · -- nobody else can have superseded a version of a running transaction
        have hmin : t.xmin ≠ x := fun he => hxX (he ▸ h1)
        have hmax : t.xmax ≠ x := by
          intro he
          rcases h.saw r t ht (by omega) with heq | hf
          · exact hmin (heq.trans he)
          · exact hX _ h1 hf.2.2
        exact .inr ⟨hl.other r t ht hmin hmax, by rw [hund.xmin]; exact hmin, by omega⟩
      · have hpos := h.active_lt _ (hX _ h2)
        have hmax : t.xmax ≠ x := fun he => hxX (he ▸ h2)
        have hmin : t.xmin ≠ x := by
          intro he
          rcases h.saw r t ht (by omega) with heq | hf
          · exact h1 (heq ▸ h2)
          · exact hxne (he ▸ hf.2.2)
        exact .inr ⟨hl.other r t ht hmin hmax, by rw [hund.xmin]; exact hmin, by omega⟩
      · exact .inl ht

lemma HeapInv.abort_spec (hx : T.active x ≠ none) :
    ∃ Q, applyWrites (undoWrites x (log x)) P = .ok Q ∧ P.Undone (· = x) Q := by
  obtain ⟨Q, hQ, hrow⟩ := (h.logged x hx).applyWrites_ok
  refine ⟨Q, hQ, fun r => ⟨fun hr => ?_, fun t ht => ?_⟩⟩
  · rw [hrow, hr]
    rfl
  · exact ⟨_, by rw [hrow, ht]; rfl, (h.logged x hx).undone r t ht⟩

/-! ## Steps -/

/-- What one step of the system does to the shared heap. -/
inductive HeapStep (P : Pool ρ) (T : TxnInner) (log : Nat → List UndoAction) (P' : Pool ρ)
    (T' : TxnInner) (log' : Nat → List UndoAction) : Prop
  | steady : P' = P → T.Steady T' →
      (∀ x, T.active x ≠ none → ∃ new, log' x = log x ++ new ∧ ∀ a ∈ new, a.rows = []) →
      HeapStep P T log P' T' log'
  | begin (iso : IsolationLevel) : P' = P → T' = T.begin iso → log' T.nextXid = [] →
      (∀ x, T.active x ≠ none → log' x = log x) → HeapStep P T log P' T' log'
  | write {x : Nat} {txn : Transaction} {new : List UndoAction} : T.Steady T' →
      T'.active x = some txn → HeapWrite (txn.snapshot.sees x) x P P' new →
      log' x = log x ++ new → (∀ y, y ≠ x → T.active y ≠ none → log' y = log y) →
      HeapStep P T log P' T' log'
  | commit {x : Nat} {txn : Transaction} : P' = P → T.active x = some txn → T' = T.remove x →
      (∀ y, T'.active y ≠ none → log' y = log y) → HeapStep P T log P' T' log'
  | undo {X : Nat → Prop} : (∀ x, X x → T.active x ≠ none) →
      (∀ r, (P.tuple? r = none → P'.tuple? r = none) ∧
        ∀ t, P.tuple? r = some t → ∃ u, P'.tuple? r = some u ∧ Undone X t u) →
      T'.nextXid = T.nextXid →
      (∀ x txn, T'.active x = some txn ↔ T.active x = some txn ∧ ¬ X x) →
      (∀ x, T'.active x ≠ none → log' x = log x) → HeapStep P T log P' T' log'

lemma HeapInv.step (hpos : 0 < T.nextXid)
    (hs : HeapStep P T log P' T' log') : HeapInv P' T' log' := by
  cases hs with
  | steady hP hT hlog =>
    subst hP
    refine h.steady hT fun x hx => ?_
    obtain ⟨new, hnew, hrows⟩ := hlog x hx
    rw [hnew]
    exact (h.logged x hx).append_of_rows hrows
  | begin iso hP hT hnew hlog =>
    subst hP hT
    exact h.begin iso hpos hnew hlog
  | @write x txn new hT hx hw hlogx hlog =>
    have h' : HeapInv P T' log := h.steady hT h.logged
    exact h'.write hx hw hlogx fun y hy hact => hlog y hy (mt (hT.domain y).2 hact)
  | @commit x txn hP hx hT hlog =>
    subst hP hT
    exact h.shrink rfl (fun y txn' hy => (T.remove_active_eq_some.1 hy).2) hlog
  | undo hX hP' hnext hact hlog => exact h.undo hX hP' hnext hact hlog

end

end

end UniDb
