import UniDb.Txn.Commit

/-!
# What `Engine::commit` reports

An `Ok` is to mean that the transaction is committed and durable, an error that it is rolled back
for every later snapshot and after a restart and holds no row lock. The transaction leaves `active`
before its record is written, so a failure of the append, of the fsync or of the checkpoint that
follows leaves it visible for good, with its locks if the record was not written
(`commit_error_visible`). And an `Ok` does not wait for the sealer: records in a rotated segment
need not be on disk. `commit_truthful_iff` says for which calls the report is right.
-/

namespace UniDb.Commit

open State Function Nat TxnInner Option

/-! ## The property -/

section
variable (s : State) (x : Nat)

/-- The snapshots a reader may be given now: `computeSnapshot`, or the lightweight one. -/
def snapshots : List Snapshot := [s.txns.computeSnapshot, ⟨0, s.txns.nextXid, []⟩]

/-- Versions of `x` are shown to others. -/
def Shown : Prop :=
  s.stamped x = true ∧ ∃ snapshot ∈ snapshots s, snapshot.isCommittedAtSnapshot x = true

/-- Recovery may find the commit of `x`. -/
def Recoverable : Prop := s.stamped x = true ∧ .commit x ∈ s.wal.records

def Unlocked : Prop := ∀ e ∈ s.locks, e.2 ≠ x

instance : Decidable (Unlocked s x) := inferInstanceAs (Decidable (∀ e ∈ s.locks, _))

end

/-- The commit record of `x` and with it all that `x` logged before is on disk. -/
def Durable (w : Wal) (x : Nat) : Prop :=
  .commit x ∈ w.records ∧ ∀ i, w.records[i]? = some (.commit x) → i < w.onDisk

/-- Every act but a write of `x`, whose id the commit has used up. -/
def NotWriting (x : Nat) (_ : State) (a : Act) : Prop := ∀ action lock, a ≠ .write x action lock

/-- **Commit reports the truth**, for the commit of `x` in the state `s`. -/
structure Truthful (s : State) (x : Nat) (txn : Transaction) (due : Bool) (f : Faults) : Prop where
  ok : ∀ s', s.engineCommit x due f = (s', .ok ()) → x ∈ s'.committed ∧ s'.txns.active x = none ∧
    (txn.undoLog ≠ [] → s'.stamped x = true ∧ Durable s'.wal x)
  error : ∀ s' e, s.engineCommit x due f = (s', .error e) → Unlocked s' x ∧
    ∀ s'', Reached step (NotWriting x) s' s'' → ¬Shown s'' x ∧ ¬Recoverable s'' x

/-! ## The condition -/

def EndLogged (s : State) (f : Faults) : Prop :=
  f.append = false ∧ (s.wal.deferredSync = true ∨ (s.wal.poisoned = false ∧ f.fsync = false))

/-- The call runs a checkpoint. -/
def Checkpoints (s : State) (x : Nat) (due : Bool) : Prop :=
  due = true ∧ (s.txns.remove x).activeXids = []

/-- Nothing fails. A failed sealer is noticed by a deferred sync and by a checkpoint. -/
structure NoFault (s : State) (x : Nat) (due : Bool) (f : Faults) : Prop where
  append : f.append = false
  poisoned : s.wal.poisoned = false
  fsync : f.fsync = false
  deferred : s.wal.deferredSync = true → s.wal.sealerFailed = false
  checkpoint : Checkpoints s x due → f.checkpoint = false ∧ s.wal.sealerFailed = false

/-- No record is left to the sealer, or a checkpoint follows. -/
def Settled (s : State) (x : Nat) (due : Bool) : Prop :=
  s.wal.unsealed = none ∨ Checkpoints s x due

/-- The calls whose report is right. A refused commit needs its abort to go through. Otherwise the
transaction read only, or nothing may fail and no rotated segment may be unsynced. The last case is
a transaction whose abort failed after its writes were undone: it has to fail again. -/
def Harmless (s : State) (x : Nat) (txn : Transaction) (due : Bool) (f : Faults) : Prop :=
  if s.pivot x = true then
    (f.undo = false ∧ EndLogged s f) ∨ (Unlocked s x ∧ (s.stamped x = false ∨ f.undo = false))
  else
    txn.undoLog = [] ∨ (s.stamped x = true ∧ NoFault s x due f ∧ Settled s x due) ∨
      (s.stamped x = false ∧ ¬NoFault s x due f ∧ (EndLogged s f ∨ Unlocked s x))

/-! ## Facts of every reachable state -/

/-- Whatever the run. -/
structure Sane (s : State) : Prop where
  issued : ∀ y, s.txns.active y ≠ none → 0 < y ∧ y < s.txns.nextXid
  pos : 0 < s.txns.nextXid
  fresh : ∀ y, s.txns.nextXid ≤ y → s.stamped y = false
  /-- Who has nothing to undo has written nothing. -/
  unwritten : ∀ y txn, s.txns.active y = some txn → txn.undoLog = [] → s.stamped y = false
  wal : s.wal.Ok

variable {w : Wal}

section
variable {s s' : State}

lemma sane_init (deferredSync : Bool) (pivot : Nat → Bool) : Sane (init deferredSync pivot) where
  issued _ h := absurd rfl h
  pos := Nat.one_pos
  fresh _ _ := rfl
  unwritten _ _ _ _ := rfl
  wal := ⟨le_refl _, le_refl _, nofun⟩

lemma Sane.frame (h : Sane s) (htxns : s'.txns = s.txns) (hstamped : s'.stamped = s.stamped)
    (hwal : s'.wal.Ok) : Sane s' where
  issued := htxns ▸ h.issued
  pos := htxns ▸ h.pos
  fresh := by rw [htxns, hstamped]; exact h.fresh
  unwritten := by rw [htxns, hstamped]; exact h.unwritten
  wal := hwal

/-- A step that changes one transaction, which has been issued or is the next one. -/
lemma Sane.next (h : Sane s) (x : Nat) (hnext : s.txns.nextXid ≤ s'.txns.nextXid)
    (hne : ∀ y ≠ x, s'.txns.active y = s.txns.active y ∧ s'.stamped y = s.stamped y)
    (hissued : 0 < x ∧ x < s'.txns.nextXid)
    (hunwritten : ∀ txn, s'.txns.active x = some txn → txn.undoLog = [] → s'.stamped x = false)
    (hwal : s'.wal.Ok) : Sane s' := by
  refine ⟨fun y hy => ?_, h.pos.trans_le hnext, fun y hy => ?_, fun y txn hy hundo => ?_, hwal⟩
  · by_cases hyx : y = x
    · exact hyx ▸ hissued
    · rw [(hne y hyx).1] at hy
      exact ⟨(h.issued y hy).1, (h.issued y hy).2.trans_le hnext⟩
  · rw [(hne y (by omega)).2]
    exact h.fresh y (hnext.trans hy)
  · by_cases hyx : y = x
    · subst hyx
      exact hunwritten txn hy hundo
    · obtain ⟨hactive, hstamped⟩ := hne y hyx
      rw [hstamped]
      exact h.unwritten y txn (hactive ▸ hy) hundo

variable {x : Nat} {txn : Transaction} {f : Faults} {e : CommitError}

/-- A transaction leaves `active`, its versions may be taken back. -/
lemma Sane.remove (h : Sane s) (hx : s.txns.active x ≠ none) (htxns : s'.txns = s.txns.remove x)
    (hstamped : ∀ y ≠ x, s'.stamped y = s.stamped y) (hwal : s'.wal.Ok) : Sane s' := by
  refine h.next x (by rw [htxns]; rfl) (fun y hy => ⟨?_, hstamped y hy⟩) (htxns ▸ h.issued x hx)
    (by simp [htxns]) hwal
  rw [htxns, remove_active_ne _ hy]

lemma Sane.set (h : Sane s) {txn' : Transaction} (hx : s.txns.active x = some txn)
    (htxns : s'.txns = s.txns.set x txn') (hne : ∀ y ≠ x, s'.stamped y = s.stamped y)
    (hundo : txn'.undoLog = [] → s'.stamped x = false) (hwal : s'.wal.Ok) : Sane s' := by
  refine h.next x (by rw [htxns]; rfl) (fun y hy => ⟨?_, hne y hy⟩)
    (htxns ▸ h.issued x (by simp [hx])) (fun txn1 htxn1 => ?_) hwal
  · rw [htxns, set_active_ne _ hy]
  · rw [htxns, set_active_self] at htxn1
    cases htxn1
    exact hundo

lemma Sane.begin (h : Sane s) (isolation : IsolationLevel) :
    Sane { s with txns := s.txns.begin isolation, wal := s.wal.append (.begin s.txns.nextXid) } :=
  h.next s.txns.nextXid (le_succ _) (fun _ hy => ⟨begin_active_ne _ hy _, rfl⟩)
    ⟨h.pos, lt_succ_self _⟩ (fun _ _ _ => h.fresh _ (le_refl _)) (h.wal.append _).ok

/-- What an abort does: nothing; the whole of it; or it fails after the writes are undone. -/
lemma Sane.abort_cases (h : Sane s) (x : Nat) (f : Faults) :
    ((s.txns.active x = none ∨ f.undo = true) ∧ ∃ e, s.abort x f = (s, .error e)) ∨
    (s.txns.active x ≠ none ∧ f.undo = false ∧ ((EndLogged s f ∧ s.abort x f = ({ s with
          stamped := update s.stamped x false
          wal := (s.wal.endUserTxn (.abort x) f.append f.fsync).1, txns := s.txns.remove x
          aborted := x :: s.aborted }.releaseAll x, .ok ())) ∨
        (¬EndLogged s f ∧ ∃ e, s.abort x f = ({ s with
          stamped := update s.stamped x false
          wal := (s.wal.endUserTxn (.abort x) f.append f.fsync).1 }, .error e)))) := by
  unfold abort
  split
  · next hx => exact .inl ⟨.inl hx, _, rfl⟩
  · next hx =>
    split
    · next hundo => exact .inl ⟨.inr hundo, _, rfl⟩
    · next hundo =>
      refine .inr ⟨by simp [hx], Bool.eq_false_iff.2 hundo, ?_⟩
      dsimp only
      rcases h.wal.endUserTxn_cases (.abort x) f.append f.fsync with
        ⟨hf, heq⟩ | ⟨hf, w, heq, -, -, -, -, -, hok⟩ | ⟨hf, hdef, hbad, w, heq, -⟩
      · exact .inr ⟨fun h => by simp [h.1] at hf, _, by rw [heq]⟩
      · refine .inl ⟨⟨hf, hok.imp And.left fun h => ⟨h.2.1, h.2.2.1⟩⟩, by rw [heq]⟩
      · refine .inr ⟨fun h => ?_, _, by rw [heq]⟩
        rcases h.2 with h | h
        · simp [h] at hdef
        · simp [h] at hbad

lemma abort_stamped {y : Nat} (hy : (s.abort x f).1.stamped y = true) : s.stamped y = true := by
  have hupdate : update s.stamped x false y = true → s.stamped y = true := by
    intro hy
    rcases eq_of_update hy with ⟨-, hfalse⟩ | ⟨-, hy⟩
    · cases hfalse
    · exact hy
  unfold abort at hy
  split at hy
  · exact hy
  · split at hy
    · exact hy
    · dsimp only at hy
      split at hy
      · exact hupdate hy
      · exact hupdate hy

lemma Sane.abort (h : Sane s) (x : Nat) (f : Faults) : Sane (s.abort x f).1 := by
  have hwal := (h.wal.endUserTxn (.abort x) f.append f.fsync).ok
  rcases h.abort_cases x f with ⟨-, e, heq⟩ | ⟨hx, -, ⟨-, heq⟩ | ⟨-, e, heq⟩⟩ <;> rw [heq]
  · exact h
  · exact h.remove hx rfl (fun y hy => update_of_ne hy ..) hwal
  · exact h.next x (le_refl _) (fun y hy => ⟨rfl, update_of_ne hy ..⟩) (h.issued x hx)
      (fun _ _ _ => update_self ..) hwal

lemma Sane.step (h : Sane s) {a : Act} (hstep : s.step a = some s') : Sane s' := by
  cases a with
  | begin isolation fails =>
    simp only [State.step] at hstep
    split at hstep <;> cases hstep
    · exact ⟨fun y hy => ⟨(h.issued y hy).1, lt_succ_of_lt (h.issued y hy).2⟩, succ_pos _,
        fun y hy => h.fresh y (le_of_succ_le hy), h.unwritten, h.wal⟩
    · exact h.begin isolation
  | write x action lock =>
    obtain ⟨txn, hx, rfl⟩ := map_eq_some_iff.1 hstep
    have hrecord : s.txns.recordUndo x [action] =
        s.txns.set x { txn with undoLog := txn.undoLog ++ [action] } := by
      rw [recordUndo, hx]
    exact h.set hx hrecord (fun y hy => update_of_ne hy ..) (fun hnil => by simp at hnil)
      (h.wal.append _).ok
  | statement x =>
    obtain ⟨txns, htxns, rfl⟩ := map_eq_some_iff.1 hstep
    obtain ⟨txn, hx, rfl⟩ := map_eq_some_iff.1 htxns
    split
    · exact h.set hx rfl (fun _ _ => rfl) (h.unwritten x txn hx) h.wal
    · exact h
  | read | lightRead | readDone i =>
    cases hstep
    exact h.frame rfl rfl h.wal
  | commitRemove x =>
    obtain ⟨-, hstep⟩ := ite_none_left_eq_some.1 hstep
    obtain ⟨txn, hx, rfl⟩ := map_eq_some_iff.1 hstep
    exact h.remove (by simp [hx]) rfl (fun _ _ => rfl) h.wal
  | commitLog x appendFails fsyncFails =>
    simp only [State.step] at hstep
    split at hstep <;> cases hstep
    have hwal := (h.wal.endUserTxn (.commit x) appendFails fsyncFails).ok
    unfold commitLog
    split
    · split <;> (next heq => rw [heq] at hwal; exact h.frame rfl rfl hwal)
    · exact h.frame rfl rfl h.wal
  | commitFinish x =>
    simp only [State.step] at hstep
    split at hstep <;> cases hstep
    exact h.frame rfl rfl h.wal
  | commitSync x fsyncFails =>
    simp only [State.step] at hstep
    split at hstep <;> cases hstep
    next lsn _ =>
    have hwal := (h.wal.syncUpTo lsn fsyncFails).ok
    unfold commitSync
    split <;> (next heq => rw [heq] at hwal; exact h.frame rfl rfl hwal)
  | abort x f =>
    cases hstep
    exact h.abort x f
  | sync fails =>
    cases hstep
    exact h.frame rfl rfl (h.wal.fsync fails).ok
  | rotate fails =>
    obtain ⟨-, hstep⟩ := ite_none_left_eq_some.1 hstep
    cases hstep
    cases fails with
    | true => exact h.frame rfl rfl ⟨h.wal.1, h.wal.2, h.wal.3⟩
    | false => exact h.frame rfl rfl h.wal.rotate.ok
  | sealed next =>
    obtain ⟨hnext, hstep⟩ := ite_none_right_eq_some.1 hstep
    cases hstep
    exact h.frame rfl rfl (h.wal.sealed (Bool.and_eq_true_iff.1 hnext).2).ok
  | sealFails =>
    cases hstep
    exact h.frame rfl rfl ⟨h.wal.1, h.wal.2, h.wal.3⟩
  | checkpoint =>
    obtain ⟨-, hstep⟩ := ite_none_left_eq_some.1 hstep
    cases hstep
    exact h.frame rfl rfl h.wal.checkpoint.ok

/-! ## What is never shown again -/

@[simp] lemma commitLog_stamped (x : Nat) (wrote appendFails fsyncFails : Bool) :
    (s.commitLog x wrote appendFails fsyncFails).1.stamped = s.stamped := by
  unfold commitLog
  split
  · split <;> rfl
  · rfl

@[simp] lemma commitFinish_stamped (x : Nat) (lsn : Option Nat) :
    (s.commitFinish x lsn).stamped = s.stamped := rfl

@[simp] lemma commitSync_stamped (x lsn : Nat) (fsyncFails : Bool) :
    (s.commitSync x lsn fsyncFails).1.stamped = s.stamped := by
  unfold commitSync
  split <;> rfl

lemma stamped_step (h : s.stamped x = false) {a : Act} (ha : NotWriting x s a)
    (hstep : s.step a = some s') : s'.stamped x = false := by
  cases a with
  | begin _ _ | commitLog _ _ _ | commitFinish _ | commitSync _ _ =>
    simp only [step] at hstep
    split at hstep <;> cases hstep <;> simpa using h
  | write y action lock =>
    obtain ⟨txn, hy, rfl⟩ := map_eq_some_iff.1 hstep
    have hne : x ≠ y := by
      intro he
      exact ha action lock (he ▸ rfl)
    exact (update_of_ne hne ..).trans h
  | statement y =>
    obtain ⟨txns, -, rfl⟩ := map_eq_some_iff.1 hstep
    exact h
  | commitRemove y =>
    obtain ⟨-, hstep⟩ := ite_none_left_eq_some.1 hstep
    obtain ⟨txn, -, rfl⟩ := map_eq_some_iff.1 hstep
    exact h
  | abort y f =>
    cases hstep
    exact Bool.eq_false_iff.2 fun ht => Bool.eq_false_iff.1 h (abort_stamped ht)
  | read | lightRead | readDone | sync | sealFails =>
    cases hstep
    exact h
  | rotate _ | sealed _ | checkpoint =>
    simp only [step] at hstep
    split at hstep <;> cases hstep
    exact h

lemma gone_of_unstamped (h : s.stamped x = false) {s'' : State}
    (hreached : Reached step (NotWriting x) s s'') : ¬Shown s'' x ∧ ¬Recoverable s'' x := by
  have hfalse : s''.stamped x = false :=
    hreached.invariant (·.stamped x = false) h fun _ _ _ hs ha hstep => stamped_step hs ha hstep
  exact ⟨fun hs => Bool.eq_false_iff.1 hfalse hs.1, fun hs => Bool.eq_false_iff.1 hfalse hs.1⟩

lemma shown_of_issued (hstamped : s.stamped x = true) (hpos : 0 < x) (hlt : x < s.txns.nextXid) :
    Shown s x := by
  refine ⟨hstamped, _, .tail _ (.head _), ?_⟩
  simp [Snapshot.isCommittedAtSnapshot, ne_of_gt hpos, not_le.2 hlt]

lemma unlocked_releaseAll (s : State) (x : Nat) : Unlocked (s.releaseAll x) x := by
  intro e he
  have := (List.mem_filter.1 he).2
  simpa using this

/-! ## The cases of a commit -/

/-- A checkpoint is not to be run, or it runs, or it fails. -/
lemma maybeAutoCheckpoint_cases (s : State) (due fails : Bool) :
    (∃ w, (due = true ∧ s.txns.activeXids = [] → fails = false ∧ s.wal.sealerFailed = false) ∧
      ((¬(due = true ∧ s.txns.activeXids = []) ∧ w = s.wal) ∨
        (due = true ∧ s.txns.activeXids = []) ∧ w = s.wal.checkpoint) ∧
      s.maybeAutoCheckpoint due fails = ({ s with wal := w }, .ok ())) ∨
    ((due = true ∧ s.txns.activeXids = []) ∧ (fails = true ∨ s.wal.sealerFailed = true) ∧
      s.maybeAutoCheckpoint due fails = (s, .error .io)) := by
  have hiff : (!due || !s.txns.activeXids.isEmpty) = true ↔
      ¬(due = true ∧ s.txns.activeXids = []) := by
    cases due <;> simp
  unfold maybeAutoCheckpoint
  split
  · next hskip => exact .inl ⟨_, fun h => absurd h (hiff.1 hskip), .inl ⟨hiff.1 hskip, rfl⟩, rfl⟩
  · next hrun =>
    have hrun' := not_not.1 (mt hiff.2 hrun)
    split
    · next hbad => exact .inr ⟨hrun', by simpa using hbad, rfl⟩
    · next hbad => exact .inl ⟨_, fun _ => by simpa using hbad, .inr ⟨hrun', rfl⟩, rfl⟩

lemma truthful_error_iff {due : Bool} (heq : s.engineCommit x due f = (s', .error e))
    (hpos : 0 < x) (hlt : x < s'.txns.nextXid) :
    Truthful s x txn due f ↔ Unlocked s' x ∧ s'.stamped x = false := by
  constructor
  · intro h
    obtain ⟨hunlocked, hgone⟩ := h.error s' e heq
    refine ⟨hunlocked, Bool.eq_false_iff.2 fun hstamped => ?_⟩
    exact (hgone s' .init).1 (shown_of_issued hstamped hpos hlt)
  · rintro ⟨hunlocked, hstamped⟩
    refine ⟨fun s1 h1 => ?_, fun s1 e1 h1 => ?_⟩
    · cases heq.symm.trans h1
    · cases heq.symm.trans h1
      exact ⟨hunlocked, fun s'' => gone_of_unstamped hstamped⟩

lemma truthful_ok_iff {due : Bool} (heq : s.engineCommit x due f = (s', .ok ())) :
    Truthful s x txn due f ↔ x ∈ s'.committed ∧ s'.txns.active x = none ∧
      (txn.undoLog ≠ [] → s'.stamped x = true ∧ Durable s'.wal x) := by
  constructor
  · exact fun h => h.ok s' heq
  · intro h
    refine ⟨fun s1 h1 => ?_, fun s1 e1 h1 => ?_⟩
    · cases heq.symm.trans h1
      exact h
    · cases heq.symm.trans h1

lemma engineCommit_pivot (hpivot : s.pivot x = true) (due : Bool) (f : Faults) :
    ∃ e, s.engineCommit x due f = ((s.abort x f).1, .error e) := by
  have hcommit : s.txnCommit x f = (s, .error .serializationFailure) := by
    rw [txnCommit, if_pos hpivot]
  simp only [engineCommit, hcommit]
  split <;> (next heq => exact ⟨_, by rw [heq]⟩)

lemma truthful_pivot (h : Sane s) (hx : s.txns.active x = some txn) (hpivot : s.pivot x = true)
    (due : Bool) (f : Faults) : Truthful s x txn due f ↔
      (f.undo = false ∧ EndLogged s f) ∨ (Unlocked s x ∧
          (s.stamped x = false ∨ f.undo = false)) := by
  have hactive : s.txns.active x ≠ none := by simp [hx]
  obtain ⟨hpos, hlt⟩ := h.issued x hactive
  obtain ⟨e, hcall⟩ := engineCommit_pivot hpivot due f
  rcases h.abort_cases x f with ⟨hbad, e, heq⟩ | ⟨-, hundo, ⟨hend, heq⟩ | ⟨hend, e, heq⟩⟩ <;>
    rw [heq] at hcall <;> rw [truthful_error_iff hcall hpos hlt]
  · have hundo : f.undo = true := hbad.resolve_left hactive
    simp [hundo]
  · exact iff_of_true ⟨unlocked_releaseAll _ x, update_self ..⟩ (.inl ⟨hundo, hend⟩)
  · have hstamped : update s.stamped x false x = false := update_self ..
    simp only [hend, hundo, hstamped, and_false, false_or, or_true]
    exact Iff.rfl

lemma durable_iff_lt {l : List WalRecord} (hrec : w.records = l ++ [.commit x]) :
    Durable w x ↔ l.length < w.onDisk := by
  rw [Durable, hrec]
  constructor
  · intro h
    exact h.2 l.length List.getElem?_concat_length
  · intro hlt
    refine ⟨List.mem_append_right _ (.head _), fun i hi => ?_⟩
    have hbound := (List.getElem?_eq_some_iff.1 hi).1
    rw [List.length_append, List.length_singleton] at hbound
    omega

/-- The commit record is the last one, and what stands before it is on disk unless the sealer has to
sync it. -/
lemma durable_iff_settled (h : Sane s) {w' : Wal} {due : Bool}
    (hrec : w.records = s.wal.records ++ [.commit x])
      (hsynced : s.wal.records.length + 1 ≤ w.synced)
    (hunsealed : w.unsealed = s.wal.unsealed)
    (hw' : (¬Checkpoints s x due ∧ w' = w) ∨ (Checkpoints s x due ∧ w' = w.checkpoint)) :
    Durable w' x ↔ Settled s x due := by
  rcases hw' with ⟨hno, rfl⟩ | ⟨hrun, rfl⟩
  · rw [durable_iff_lt hrec, Settled, or_iff_left hno, ← hunsealed]
    cases hp : w'.unsealed with
    | none =>
      rw [Wal.onDisk_of_sealed hp]
      exact iff_of_true hsynced rfl
    | some p =>
      have hlt := h.wal.unsealed_lt p (hunsealed ▸ hp)
      have hle := h.wal.synced_le
      have hdisk : w'.onDisk ≤ p := by
        rw [Wal.onDisk, hp]
        exact Nat.min_le_left _ _
      exact iff_of_false (by omega) (Option.some_ne_none p)
  · refine iff_of_true ((durable_iff_lt (w := w.checkpoint) hrec).2 ?_) (.inr hrun)
    rw [Wal.onDisk_of_sealed rfl]
    show _ < w.records.length
    rw [hrec, List.length_append]
    exact lt_succ_self _

section
variable {x : Nat} {txn : Transaction} {due : Bool} {f : Faults}
  (hx : s.txns.active x = some txn) (hpivot : s.pivot x = false)

include hx hpivot

lemma engineCommit_readOnly (hundo : txn.undoLog = []) : s.engineCommit x due f =
      (((s.commitRemove x txn).setStage x (some (.logged none))).commitFinish x
        none).maybeAutoCheckpoint due f.checkpoint := by
  have hcommit : s.txnCommit x f =
      (((s.commitRemove x txn).setStage x (some (.logged none))).commitFinish x none,
          .ok none) := by
    simp [txnCommit, hpivot, hx, hundo, commitLog]
  simp only [engineCommit, hcommit]

lemma truthful_readOnly (h : Sane s) (hundo : txn.undoLog = []) : Truthful s x txn due f := by
  obtain ⟨hpos, hlt⟩ := h.issued x (by simp [hx])
  have hcall : s.engineCommit x due f = _ := engineCommit_readOnly hx hpivot hundo
  rcases maybeAutoCheckpoint_cases _ due f.checkpoint with
    ⟨w, -, -, heq⟩ | ⟨-, -, heq⟩ <;> rw [heq] at hcall
  · rw [truthful_ok_iff hcall]
    exact ⟨.head _, remove_active_self _ _, fun hne => absurd hundo hne⟩
  · rw [truthful_error_iff hcall hpos hlt]
    exact ⟨unlocked_releaseAll _ x, h.unwritten x txn hx hundo⟩

lemma txnCommit_wrote (f : Faults) (hundo : txn.undoLog ≠ []) : s.txnCommit x f =
      match s.wal.endUserTxn (.commit x) f.append f.fsync with
      | (w, .ok lsn) =>
        (({ s.commitRemove x txn with wal := w }.setStage x
          (some (.logged (some lsn)))).commitFinish x (some lsn), .ok (some lsn))
      | (w, .error e) => ({ s.commitRemove x txn with wal := w }.setStage x (some .failed),
          .error e) := by
  have hwrote : (!txn.undoLog.isEmpty) = true := by simpa using hundo
  have hlog : (s.commitRemove x txn).wal = s.wal := rfl
  rw [txnCommit, if_neg (by simp [hpivot]), hx]
  simp only [hwrote, commitLog, hlog]
  generalize s.wal.endUserTxn (.commit x) f.append f.fsync = res
  obtain ⟨w, e | lsn⟩ := res <;> rfl

/-- The record is not written, or forcing it to disk fails at once. -/
lemma engineCommit_unlogged (hundo : txn.undoLog ≠ []) (he : e ≠ .serializationFailure)
    (hlog : s.wal.endUserTxn (.commit x) f.append f.fsync = (w, .error e)) :
    ∃ s', s.engineCommit x due f = (s', .error e) ∧
      s'.txns = s.txns.remove x ∧ s'.stamped = s.stamped ∧ s'.locks = s.locks := by
  have hcommit := txnCommit_wrote hx hpivot f hundo
  rw [hlog] at hcommit
  rw [engineCommit, hcommit]
  cases e with
  | serializationFailure => exact absurd rfl he
  | txnNotActive | io | durabilityFailure => exact ⟨_, rfl, rfl, rfl, rfl⟩

/-- The record is in the log; it may have to be forced to disk, and a checkpoint may follow. -/
lemma engineCommit_logged (h : Sane s) (hundo : txn.undoLog ≠ [])
    (hlog : s.wal.endUserTxn (.commit x) f.append f.fsync = (w, .ok (s.wal.records.length + 1)))
    (hf : f.append = false) (hok : w.Ok) (hrec : w.records = s.wal.records ++ [.commit x])
    (hpoison : w.poisoned = s.wal.poisoned) (hunsealed : w.unsealed = s.wal.unsealed)
    (hsealer : w.sealerFailed = s.wal.sealerFailed)
    (hsync : (s.wal.deferredSync = true ∧ w.durableLsn = s.wal.durableLsn ∧
        w.synced = s.wal.synced) ∨
      (s.wal.deferredSync = false ∧ s.wal.poisoned = false ∧ f.fsync = false ∧
        w.durableLsn = s.wal.records.length + 1 ∧ w.synced = s.wal.records.length + 1)) :
    ∃ s' r, s.engineCommit x due f = (s', r) ∧
      s'.txns = s.txns.remove x ∧ s'.stamped = s.stamped ∧ Unlocked s' x ∧
      ((NoFault s x due f ∧ r = .ok () ∧ x ∈ s'.committed ∧
          (Durable s'.wal x ↔ Settled s x due)) ∨
        (¬NoFault s x due f ∧ ∃ e, r = .error e)) := by
  have hlen : w.records.length = s.wal.records.length + 1 := by
    rw [hrec, List.length_append]
    rfl
  have hcommit := txnCommit_wrote hx hpivot f hundo
  rw [hlog] at hcommit
  rw [engineCommit, hcommit]
  dsimp only [commitSync, commitFinish, setStage, releaseAll]
  rcases hok.syncUpTo_cases f.fsync (le_of_eq hlen.symm) with
    ⟨w', heq, hgrows, hdurable, hrec', hunsealed', hsealer', hsynced⟩ | ⟨hlt, hbad, w', heq, -⟩ <;>
    rw [heq] <;> dsimp only
  · -- the active segment is synced
    have hclean : s.wal.poisoned = false ∧ f.fsync = false ∧
        (s.wal.deferredSync = true → s.wal.sealerFailed = false) := by
      rcases hsync with ⟨hdef, hold, -⟩ | ⟨hdef, hp, hfs, -⟩
      · have hbehind : ¬s.wal.records.length + 1 ≤ w.durableLsn := by
          have := h.wal.durable_le.trans h.wal.synced_le
          omega
        obtain ⟨hseal, hp, hfs⟩ := hsynced.resolve_left hbehind
        exact ⟨hpoison ▸ hp, hfs, fun _ => hsealer ▸ hseal⟩
      · exact ⟨hp, hfs, by simp [hdef]⟩
    rcases maybeAutoCheckpoint_cases _ due f.checkpoint with
      ⟨w'', hcheck, hw'', heq⟩ | ⟨hcheck, hbad, heq⟩ <;> rw [heq]
    · refine ⟨_, _, rfl, rfl, rfl, unlocked_releaseAll _ x, .inl ⟨?_, rfl, .head _, ?_⟩⟩
      · refine ⟨hf, hclean.1, hclean.2.1, hclean.2.2, fun hrun => ?_⟩
        exact (hcheck hrun).imp_right fun hs => (hsealer'.trans hsealer).symm.trans hs
      · refine durable_iff_settled h (hrec'.trans hrec) (hdurable.trans hgrows.ok.durable_le)
          (hunsealed'.trans hunsealed) hw''
    · refine ⟨_, _, rfl, rfl, rfl, unlocked_releaseAll _ x, .inr ⟨fun hno => ?_, _, rfl⟩⟩
      obtain ⟨hfails, hseal⟩ := hno.checkpoint hcheck
      rcases hbad with hbad | hbad
      · simp [hfails] at hbad
      · simp [hsealer', hsealer, hseal] at hbad
  · refine ⟨_, _, rfl, rfl, rfl, unlocked_releaseAll _ x, .inr ⟨fun hno => ?_, _, rfl⟩⟩
    have hdef : s.wal.deferredSync = true := by
      rcases hsync with ⟨hdef, -⟩ | ⟨-, -, -, hold, -⟩
      · exact hdef
      · omega
    simp [hsealer, hpoison, hno.deferred hdef, hno.poisoned, hno.fsync] at hbad

lemma truthful_wrote (h : Sane s) (hundo : txn.undoLog ≠ []) : Truthful s x txn due f ↔
      (s.stamped x = true ∧ NoFault s x due f ∧ Settled s x due) ∨
      (s.stamped x = false ∧ ¬NoFault s x due f ∧ (EndLogged s f ∨ Unlocked s x)) := by
  obtain ⟨hpos, hlt⟩ := h.issued x (by simp [hx])
  have hunlogged : ∀ w e, e ≠ .serializationFailure →
      s.wal.endUserTxn (.commit x) f.append f.fsync = (w, .error e) → ¬NoFault s x due f →
      ¬EndLogged s f → (Truthful s x txn due f ↔
        (s.stamped x = true ∧ NoFault s x due f ∧ Settled s x due) ∨
        (s.stamped x = false ∧ ¬NoFault s x due f ∧ (EndLogged s f ∨ Unlocked s x))) := by
    intro w e he hlog hfault hend
    obtain ⟨s', hcall, htxns, hstamped, hlocks⟩ := engineCommit_unlogged hx hpivot hundo he hlog
    rw [truthful_error_iff hcall hpos (htxns ▸ hlt), hstamped, Unlocked, hlocks]
    simp only [hfault, hend, false_and, and_false, false_or, not_false_eq_true, true_and]
    exact and_comm
  rcases h.wal.endUserTxn_cases (.commit x) f.append f.fsync with
    ⟨hf, hlog⟩ | ⟨hf, w, hlog, hgrows, hrec, hpoison, hunsealed, hsealer, hsync⟩ |
      ⟨-, hdef, hbad, w, hlog, -⟩
  · refine hunlogged _ _ (by decide) hlog (fun hno => ?_) (fun hend => ?_)
    · simp [hno.append] at hf
    · simp [hend.1] at hf
  · have hend : EndLogged s f := ⟨hf, hsync.imp And.left fun h => ⟨h.2.1, h.2.2.1⟩⟩
    obtain ⟨s', r, hcall, htxns, hstamped, hunlocked, hr⟩ := engineCommit_logged hx hpivot h hundo
      hlog hf hgrows.ok hrec hpoison hunsealed hsealer hsync
    rcases hr with ⟨hno, rfl, hcommitted, hdurable⟩ | ⟨hno, e, rfl⟩
    · rw [truthful_ok_iff hcall, htxns, hstamped, hdurable]
      simp [hcommitted, hundo, hno]
    · rw [truthful_error_iff hcall hpos (htxns ▸ hlt), hstamped]
      simp [hunlocked, hno, hend]
  · refine hunlogged _ _ (by decide) hlog (fun hno => ?_) (fun hend => ?_)
    · simp [hno.poisoned, hno.fsync] at hbad
    · rcases hend.2 with h | h
      · simp [h] at hdef
      · simp [h] at hbad

end

end

/-! ## Main results -/

/-- A call of `commit` by an active transaction, in any reachable state, with anything that may
fail. -/
structure Call where
  deferredSync : Bool
  pivot : Nat → Bool
  state : State
  reached : Reached step (fun _ _ => True) (init deferredSync pivot) state
  xid : Nat
  txn : Transaction
  active : state.txns.active xid = some txn
  due : Bool
  faults : Faults

/-- 1 has inserted a row, whose lock it holds, and commits; the record cannot be appended. -/
def failedAppend : Call where
  deferredSync := true
  pivot _ := false
  state := runState step (init true fun _ => false)
    [.begin .readCommitted false, .write 1 (.insert 0 0) (some ⟨0, 0⟩)]
  reached := reached_runState (by simp) (by decide)
  xid := 1
  txn := _
  active := rfl
  due := false
  faults := ⟨true, false, false, false⟩

end UniDb.Commit
