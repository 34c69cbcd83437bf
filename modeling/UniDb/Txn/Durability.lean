import UniDb.Txn.Commit

/-!
# Visible implies durable

A commit leaves `active` before its record is on disk. Until it is, every snapshot counts the
transaction as committed although a crash would roll it back (`commit_visible_early`). The same
holds for good after a failed commit, and the lightweight snapshot of `NEAR` counts even active
transactions.

`visible_durable`: in a run in which no snapshot is taken while a commit is under way or after one
has failed, lightweight ones only while no transaction is active, and no commit ends while a rotated
segment is not synced, every snapshot in use sees durable transactions only.
-/

namespace UniDb.Commit

open State List TxnInner Nat Function

/-! ## The property -/

section
variable (s : State)

/-- `self` reads under `snapshot`. -/
def Holds (self : Nat) (snapshot : Snapshot) : Prop :=
  (∃ txn, s.txns.active self = some txn ∧ txn.snapshot = snapshot) ∨ (self, snapshot) ∈ s.readers

/-- **Visible implies durable**: a version that a snapshot in use shows was written by a transaction
whose commit record is on disk, or by the reader itself. -/
def VisibleDurable : Prop :=
  ∀ self snapshot, Holds s self snapshot → ∀ y, y ≠ self →
    snapshot.isCommittedAtSnapshot y = true → s.stamped y = true → .commit y ∈ s.wal.durable

/-- The commit of a transaction that wrote has begun and has not been forced to disk, or it
failed. -/
def Pending (y : Nat) : Prop :=
  match s.committing y with
  | none | some (.removed false) | some (.logged none) => False
  | _ => True

instance (s : State) (y : Nat) : Decidable (Pending s y) := by
  unfold Pending
  split <;> infer_instance

def Quiet : Prop := ∀ y < s.txns.nextXid, ¬Pending s y

instance (s : State) : Decidable (Quiet s) := inferInstanceAs (Decidable (∀ y < _, _))

/-- The condition on a step: a snapshot is only taken while no commit is pending, and a lightweight
one only while nothing is active; a commit is forced to disk only while the sealer has nothing to
sync. -/
def SnapshotsQuiet : Act → Prop
  | .begin _ _ | .read => Quiet s
  | .statement x => (s.txns.active x).all (·.isolation ≠ .readCommitted) ∨ Quiet s
  | .lightRead => Quiet s ∧ s.txns.activeXids = []
  | .commitSync _ _ => s.wal.unsealed = none
  | _ => True

instance (s : State) (a : Act) : Decidable (SnapshotsQuiet s a) := by
  cases a <;> unfold SnapshotsQuiet <;> infer_instance

/-! ## The invariant -/

/-- The versions of `y` are safe: `y` is active, its commit is pending, or its record is on disk. -/
def Covered (y : Nat) : Prop :=
  (∃ txn, s.txns.active y = some txn ∧ txn.undoLog ≠ []) ∨ Pending s y ∨ .commit y ∈ s.wal.durable

/-- What `snapshot` shows to `self` is over, and on disk. -/
def OnlyDurable (self : Nat) (snapshot : Snapshot) : Prop :=
  ∀ y, y ≠ self → snapshot.isCommittedAtSnapshot y = true →
    y < s.txns.nextXid ∧ s.txns.active y = none ∧ (s.stamped y = true → .commit y ∈ s.wal.durable)

structure Inv (s : State) : Prop where
  covered : ∀ y, s.stamped y = true → Covered s y
  /-- Ids in use have been issued. -/
  issued : ∀ y, s.txns.active y ≠ none ∨ s.committing y ≠ none → y < s.txns.nextXid
  idle : ∀ y, s.txns.active y ≠ none → s.committing y = none
  /-- The record of a commit that has come so far is in the log. -/
  logged : ∀ y lsn, s.committing y = some (.logged (some lsn)) ∨
    s.committing y = some (.finished lsn) →
    lsn ≤ s.wal.records.length ∧ .commit y ∈ s.wal.records.take lsn
  seen : ∀ self snapshot, Holds s self snapshot → OnlyDurable s self snapshot
  wal_ok : s.wal.Ok

end

lemma Inv.visibleDurable {s : State} (h : Inv s) : VisibleDurable s :=
  fun self snapshot hholds y hne hseen => (h.seen self snapshot hholds y hne hseen).2.2

variable (deferredSync : Bool) (pivot : Nat → Bool)

lemma inv_init : Inv (init deferredSync pivot) where
  covered := nofun
  issued y h := by rcases h with h | h <;> exact absurd rfl h
  idle _ _ := rfl
  logged y lsn h := by rcases h with h | h <;> cases h
  seen self snapshot h := by rcases h with ⟨txn, h, -⟩ | h <;> cases h
  wal_ok := ⟨le_rfl, le_rfl, nofun⟩

/-! ## What every step keeps -/

/-- What is over stays over and gets no new versions; the log only grows. -/
structure Keeps (s s' : State) : Prop where
  ended : ∀ y < s.txns.nextXid, s.txns.active y = none →
    y < s'.txns.nextXid ∧ s'.txns.active y = none ∧ (s'.stamped y = true → s.stamped y = true)
  wal : s.wal.Grows s'.wal

section
variable {s s' : State}

variable {self x : Nat} {snapshot : Snapshot} {txn : Transaction}

lemma OnlyDurable.keeps (h : OnlyDurable s self snapshot) (hkeeps : Keeps s s') :
    OnlyDurable s' self snapshot := by
  intro y hne hseen
  obtain ⟨hlt, hnone, hdurable⟩ := h y hne hseen
  obtain ⟨hlt', hnone', hstamped⟩ := hkeeps.ended y hlt hnone
  exact ⟨hlt', hnone', fun hy => hkeeps.wal.durable (hdurable (hstamped hy))⟩

lemma Inv.onlyDurable (h : Inv s) (hquiet : Quiet s)
    (hfinished : ∀ y ≠ self, snapshot.isCommittedAtSnapshot y = true → s.txns.Finished y) :
    OnlyDurable s self snapshot := by
  intro y hne hseen
  obtain ⟨-, hlt, hnone⟩ := hfinished y hne hseen
  refine ⟨hlt, hnone, fun hy => ?_⟩
  rcases h.covered y hy with ⟨txn, hactive, -⟩ | hpending | hdurable
  · rw [hnone] at hactive
    cases hactive
  · exact absurd hpending (hquiet y hlt)
  · exact hdurable

def Reports (stage : Option Stage) (lsn : Nat) : Prop :=
  stage = some (.logged (some lsn)) ∨ stage = some (.finished lsn)

def Logged (w : Wal) (y lsn : Nat) : Prop :=
  lsn ≤ w.records.length ∧ .commit y ∈ w.records.take lsn

lemma Logged.mono {w w' : Wal} {y lsn : Nat} (h : Logged w y lsn) (hwal : w.Grows w') :
    Logged w' y lsn := by
  obtain ⟨rest, hrest⟩ := hwal.records
  rw [Logged, ← hrest]
  refine ⟨by rw [length_append]; exact h.1.trans (le_add_right _ _), ?_⟩
  rw [take_append_of_le_length h.1]
  exact h.2

lemma pending_congr {y : Nat} (h : s'.committing y = s.committing y) : Pending s' y ↔
    Pending s y := by
  unfold Pending
  rw [h]

lemma pending_of_stage {stage : Stage} (h : s.committing x = some stage)
    (hremoved : stage ≠ .removed false) (hlogged : stage ≠ .logged none) : Pending s x := by
  unfold Pending
  rw [h]
  split <;> simp_all

variable (h : Inv s)

include h

/-- **The frame rule**: a step that changes one transaction, which keeps what is over, and whose new
snapshot shows durable transactions only. -/
theorem Inv.next (x : Nat) (hnext : s.txns.nextXid ≤ s'.txns.nextXid)
    (hwal : s'.wal = s.wal) (hreaders : s'.readers = s.readers)
    (hne : ∀ y ≠ x, s'.txns.active y = s.txns.active y ∧ s'.stamped y = s.stamped y ∧
      s'.committing y = s.committing y) (hended : s.txns.active x = none → x < s.txns.nextXid →
      s'.txns.active x = none ∧ (s'.stamped x = true → s.stamped x = true))
    (hcovered : s'.stamped x = true → Covered s' x)
    (hissued : s'.txns.active x ≠ none ∨ s'.committing x ≠ none → x < s'.txns.nextXid)
    (hidle : s'.txns.active x ≠ none → s'.committing x = none)
    (hlogged : ∀ lsn, Reports (s'.committing x) lsn → Logged s.wal x lsn)
    (hholds : ∀ txn, s'.txns.active x = some txn →
      Holds s x txn.snapshot ∨ OnlyDurable s x txn.snapshot) : Inv s' := by
  have hkeeps : Keeps s s' := by
    refine ⟨fun y hlt hnone => ⟨hlt.trans_le hnext, ?_⟩, hwal ▸ h.wal_ok.refl⟩
    by_cases hyx : y = x
    · subst hyx
      exact hended hnone hlt
    · obtain ⟨hactive, hstamped, -⟩ := hne y hyx
      rw [hactive, hstamped]
      exact ⟨hnone, id⟩
  refine ⟨fun y hy => ?_, fun y hy => ?_, fun y hy => ?_, fun y lsn hy => ?_,
    fun self snapshot hs => ?_, hwal ▸ h.wal_ok⟩
  · by_cases hyx : y = x
    · subst hyx
      exact hcovered hy
    · obtain ⟨hactive, hstamped, hstage⟩ := hne y hyx
      rw [hstamped] at hy
      rw [Covered, hactive, pending_congr hstage, hwal]
      exact h.covered y hy
  · by_cases hyx : y = x
    · subst hyx
      exact hissued hy
    · obtain ⟨hactive, -, hstage⟩ := hne y hyx
      rw [hactive, hstage] at hy
      exact (h.issued y hy).trans_le hnext
  · by_cases hyx : y = x
    · subst hyx
      exact hidle hy
    · obtain ⟨hactive, -, hstage⟩ := hne y hyx
      rw [hactive] at hy
      rw [hstage]
      exact h.idle y hy
  · rw [hwal]
    by_cases hyx : y = x
    · subst hyx
      exact hlogged lsn hy
    · rw [(hne y hyx).2.2] at hy
      exact h.logged y lsn hy
  · have hold : Holds s self snapshot ∨ OnlyDurable s self snapshot := by
      rcases hs with ⟨txn, hactive, rfl⟩ | hreader
      · by_cases hself : self = x
        · subst hself
          exact hholds txn hactive
        · exact .inl (.inl ⟨txn, (hne self hself).1.symm.trans hactive, rfl⟩)
      · exact .inl (.inr (hreaders ▸ hreader))
    exact (hold.elim (h.seen self snapshot) id).keeps hkeeps

lemma Inv.wal {w : Wal} (hwal : s.wal.Grows w) : Inv { s with wal := w } where
  covered y hy := (h.covered y hy).imp_right (.imp_right (hwal.durable ·))
  issued := h.issued
  idle := h.idle
  logged y lsn hy := Logged.mono (h.logged y lsn hy) hwal
  seen self snapshot hs :=
    (h.seen self snapshot hs).keeps ⟨fun _ hlt hnone => ⟨hlt, hnone, id⟩, hwal⟩
  wal_ok := hwal.ok

/-! ## Steps of a commit -/

lemma Inv.stage {stage : Option Stage} {committed : List Nat} {locks : List (RowId × Nat)}
    (hx : s.committing x ≠ none)
    (hpending : Pending s x → (∃ st, stage = some st ∧ st ≠ .removed false ∧ st ≠ .logged none) ∨
      .commit x ∈ s.wal.durable) (hlogged : ∀ lsn, Reports stage lsn → Logged s.wal x lsn) :
    Inv { s.setStage x stage with committed, locks } := by
  have hself := s.setStage_committing_self x stage
  refine h.next x le_rfl rfl rfl (fun y hy => ⟨rfl, rfl, s.setStage_committing_ne hy stage⟩)
    (fun hnone _ => ⟨hnone, id⟩) (fun hy => ?_) (fun _ => h.issued x (.inr hx))
    (fun hactive => absurd (h.idle x hactive) hx) (fun lsn hl => hlogged lsn (hself ▸ hl))
    fun txn hactive => .inl (.inl ⟨txn, hactive, rfl⟩)
  refine (h.covered x hy).imp_right fun hp => ?_
  rcases hp with hp | hdurable
  · exact (hpending hp).imp_left fun ⟨st, hst, hremoved, hnone⟩ =>
      pending_of_stage (hself.trans hst) hremoved hnone
  · exact .inr hdurable

lemma Inv.readDone (i : Nat) : Inv { s with readers := s.readers.eraseIdx i } :=
  ⟨h.covered, h.issued, h.idle, h.logged,
    fun self snapshot hs => h.seen self snapshot (hs.imp_right (eraseIdx_subset ·)), h.wal_ok⟩

lemma Inv.commitLog {wrote : Bool} (hx : s.committing x = some (.removed wrote))
    (appendFails fsyncFails : Bool) : Inv (s.commitLog x wrote appendFails fsyncFails).1 := by
  have hsome : s.committing x ≠ none := by simp [hx]
  unfold State.commitLog
  cases wrote with
  | false =>
    refine h.stage hsome (fun hp => ?_) (by simp [Reports])
    rw [Pending, hx] at hp
    exact hp.elim
  | true =>
    rcases h.wal_ok.endUserTxn_cases (.commit x) appendFails fsyncFails with
      ⟨-, heq⟩ | ⟨-, w, heq, hgrows, hrec, -⟩ | ⟨-, -, -, w, heq, hgrows, -⟩ <;> rw [heq]
    · exact h.stage hsome (fun _ => .inl ⟨_, rfl, nofun, nofun⟩) (by simp [Reports])
    · refine (h.wal hgrows).stage hsome (fun _ => .inl ⟨_, rfl, nofun, nofun⟩) fun lsn hl => ?_
      -- the record is the last one of the log
      obtain rfl : s.wal.records.length + 1 = lsn := by simpa [Reports] using hl
      have hlen : w.records.length = s.wal.records.length + 1 := by rw [hrec, length_append]; rfl
      refine ⟨le_of_eq hlen.symm, ?_⟩
      rw [← hlen, take_length, hrec]
      exact mem_append_right _ (.head _)
    · exact (h.wal hgrows).stage hsome (fun _ => .inl ⟨_, rfl, nofun, nofun⟩) (by simp [Reports])

lemma Inv.commitFinish {lsn : Option Nat} (hx : s.committing x = some (.logged lsn)) :
    Inv (s.commitFinish x lsn) := by
  refine h.stage (by simp [hx]) (fun hp => ?_) fun lsn' hl => ?_
  · cases lsn with
    | none =>
      rw [Pending, hx] at hp
      exact hp.elim
    | some lsn => exact .inl ⟨_, rfl, nofun, nofun⟩
  · have hlsn : lsn = some lsn' := by simpa [Reports] using hl
    exact h.logged x lsn' (.inl (hlsn ▸ hx))

lemma Inv.commitSync {lsn : Nat} (hx : s.committing x = some (.finished lsn))
    (hsealed : s.wal.unsealed = none) (fsyncFails : Bool) :
    Inv (s.commitSync x lsn fsyncFails).1 := by
  have hsome : s.committing x ≠ none := by simp [hx]
  obtain ⟨hle, hmem⟩ := h.logged x lsn (.inr hx)
  unfold State.commitSync
  rcases h.wal_ok.syncUpTo_cases fsyncFails hle with
    ⟨w, heq, hgrows, hdurable, hrec, hunsealed, -⟩ | ⟨-, -, w, heq, hgrows, -⟩ <;> rw [heq]
  · refine (h.wal hgrows).stage hsome (fun _ => .inr ?_) (by simp [Reports])
    -- nothing is left to the sealer, so what is published is on disk
    have hdisk : w.onDisk = w.synced := Wal.onDisk_of_sealed (hunsealed.trans hsealed)
    show _ ∈ w.records.take w.onDisk
    rw [hrec, hdisk]
    exact take_subset_take_left _ (hdurable.trans hgrows.ok.durable_le) hmem
  · exact (h.wal hgrows).stage hsome (fun _ => .inl ⟨_, rfl, nofun, nofun⟩) (by simp [Reports])

/-- A transaction leaves `active`; its versions are gone, or its commit is pending. -/
lemma Inv.remove (hx : s.txns.active x ≠ none) (htxns : s'.txns = s.txns.remove x)
    (hstamped : s'.stamped = s.stamped) (hreaders : s'.readers = s.readers)
    (hwal : s'.wal = s.wal) (hne : ∀ y ≠ x, s'.committing y = s.committing y)
    (hlogged : ∀ lsn, ¬Reports (s'.committing x) lsn)
      (hcovered : s.stamped x = true → Covered s' x) :
    Inv s' := by
  have hnone : s'.txns.active x = none := by rw [htxns, remove_active_self]
  refine h.next x (by rw [htxns]; rfl) hwal hreaders (fun y hy => ⟨?_, by rw [hstamped], hne y hy⟩)
    (fun _ _ => ⟨hnone, hstamped ▸ id⟩) (hstamped ▸ hcovered)
      (fun _ => htxns ▸ h.issued x (.inl hx))
    (absurd hnone) (fun lsn hl => absurd hl (hlogged lsn)) (by simp [hnone])
  rw [htxns, remove_active_ne _ hy]

lemma Inv.commitRemove (hx : s.txns.active x = some txn) : Inv (s.commitRemove x txn) := by
  have hactive : s.txns.active x ≠ none := by simp [hx]
  have hstage : (s.commitRemove x txn).committing x = some (.removed !txn.undoLog.isEmpty) :=
    setStage_committing_self _ _ _
  refine h.remove hactive rfl rfl rfl rfl (fun y hy => setStage_committing_ne _ hy _)
    (fun lsn hl => ?_) (fun hy => ?_)
  · rw [hstage] at hl
    rcases hl with hl | hl <;> cases hl
  · rcases h.covered x hy with ⟨txn', hx', hundo⟩ | hp | hdurable
    · -- the transaction wrote, so its commit needs a record
      rw [hx] at hx'
      cases hx'
      exact .inr (.inl (pending_of_stage hstage (by simpa using hundo) nofun))
    · rw [Pending, h.idle x hactive] at hp
      exact hp.elim
    · exact .inr (.inr hdurable)

lemma Inv.stamp (hx : s.txns.active x = some txn) (b : Bool)
    (hundo : b = true → txn.undoLog ≠ []) (locks : List (RowId × Nat)) :
    Inv { s with stamped := update s.stamped x b, locks := locks } := by
  refine h.next x le_rfl rfl rfl (fun y hy => ⟨rfl, update_of_ne hy .., rfl⟩) (fun hnone => ?_)
    (fun hy => ?_) (h.issued x) (h.idle x) (h.logged x) fun txn hactive => .inl
      (.inl ⟨txn, hactive, rfl⟩)
  · rw [hx] at hnone
    cases hnone
  · exact .inl ⟨txn, hx, hundo ((update_self x b s.stamped).symm.trans hy)⟩

lemma Inv.abort (x : Nat) (f : Faults) : Inv (s.abort x f).1 := by
  unfold State.abort
  split
  · exact h
  · next txn hx =>
    split
    · exact h
    · dsimp only
      have hactive : s.txns.active x ≠ none := by simp [hx]
      have hgrows := h.wal_ok.endUserTxn (.abort x) f.append f.fsync
      split
      · next w _ heq =>
        rw [heq] at hgrows
        refine ((h.wal hgrows).stamp hx false nofun s.locks).remove hactive rfl rfl rfl rfl
          (fun _ _ => rfl) (fun lsn hl => ?_) fun hy => ?_
        · have hidle := h.idle x hactive
          rcases hl with hl | hl <;> cases hidle.symm.trans hl
        · cases (update_self x false s.stamped).symm.trans hy
      · next w _ heq =>
        rw [heq] at hgrows
        exact (h.wal hgrows).stamp hx false nofun s.locks

/-! ## Steps of transactions and readers -/

lemma Inv.set {txn' : Transaction} (hx : s.txns.active x = some txn)
    (hundo : txn.undoLog ≠ [] → txn'.undoLog ≠ [])
    (hsnapshot : txn'.snapshot = txn.snapshot ∨ OnlyDurable s x txn'.snapshot) :
    Inv { s with txns := s.txns.set x txn' } := by
  have hactive : s.txns.active x ≠ none := by simp [hx]
  have hself : (s.txns.set x txn').active x = some txn' := set_active_self _ _ _
  refine h.next x le_rfl rfl rfl (fun y hy => ⟨set_active_ne _ hy _, rfl, rfl⟩)
    (fun hnone => absurd hnone hactive) (fun hy => ?_) (fun _ => h.issued x (.inl hactive))
    (fun _ => h.idle x hactive) (h.logged x) fun txn1 htxn1 => ?_
  · refine (h.covered x hy).imp_left fun ⟨txn1, hactive, hundo1⟩ => ⟨txn', hself, hundo ?_⟩
    cases hx.symm.trans hactive
    exact hundo1
  · cases hself.symm.trans htxn1
    exact hsnapshot.imp_left fun heq => .inl ⟨txn, hx, heq.symm⟩

lemma Inv.read (hseen : OnlyDurable s self snapshot) :
    Inv { s with readers := (self, snapshot) :: s.readers } := by
  refine ⟨h.covered, h.issued, h.idle, h.logged, fun self' snapshot' hs => ?_, h.wal_ok⟩
  rcases hs with hactive | hreader
  · exact h.seen self' snapshot' (.inl hactive)
  · rcases mem_cons.1 hreader with heq | hreader
    · cases heq
      exact hseen
    · exact h.seen self' snapshot' (.inr hreader)

lemma Inv.issue : Inv { s with txns := { s.txns with nextXid := s.txns.nextXid + 1 } } :=
  h.next 0 (le_succ _) rfl rfl (fun _ _ => ⟨rfl, rfl, rfl⟩) (fun hnone _ => ⟨hnone, id⟩)
    (h.covered 0) (fun hy => lt_succ_of_lt (h.issued 0 hy)) (h.idle 0) (h.logged 0)
    fun txn hactive => .inl (.inl ⟨txn, hactive, rfl⟩)

lemma Inv.begin (hquiet : Quiet s) (isolation : IsolationLevel) :
    Inv { s with txns := s.txns.begin isolation } := by
  have hstage : s.committing s.txns.nextXid = none := by
    by_contra hne
    exact absurd (h.issued _ (.inr hne)) (lt_irrefl _)
  refine h.next s.txns.nextXid (le_succ _) rfl rfl
    (fun y hy => ⟨begin_active_ne _ hy _, rfl, rfl⟩) (fun _ hlt => absurd hlt (lt_irrefl _))
    (fun hy => ?_) (fun _ => lt_succ_self _) (fun _ => hstage) (h.logged _) fun txn hactive => ?_
  · refine (h.covered _ hy).imp_left fun ⟨txn, hactive, _⟩ => ?_
    exact absurd (h.issued _ (.inl (by simp [hactive]))) (lt_irrefl _)
  · cases (set_active_self _ _ _).symm.trans hactive
    -- the snapshot is taken after the id is issued: it shows the id itself, and what is over
    refine .inr (h.onlyDurable hquiet fun y hy hseen => ?_)
    obtain ⟨hpos, hlt, hnone⟩ := isCommittedAtSnapshot_computeSnapshot.1 hseen
    exact ⟨hpos, lt_of_le_of_ne (le_of_lt_succ hlt) hy, hnone⟩

lemma Inv.write (hx : s.txns.active x = some txn) (action : UndoAction)
    (locks : List (RowId × Nat)) : Inv { s with
      txns := s.txns.recordUndo x [action]
      stamped := update s.stamped x true, wal := s.wal.append (.write x), locks } := by
  have hrecord : s.txns.recordUndo x [action] =
      s.txns.set x { txn with undoLog := txn.undoLog ++ [action] } := by
    rw [recordUndo, hx]
  rw [hrecord]
  have hset : Inv { s with txns := s.txns.set x { txn with undoLog := txn.undoLog ++ [action] } } :=
    h.set hx (fun _ => by simp) (.inl rfl)
  exact (hset.wal (h.wal_ok.append (.write x))).stamp (set_active_self _ _ _) true
    (fun _ => by simp) locks

lemma Inv.statement {txns : TxnInner}
    (hquiet : (s.txns.active x).all (·.isolation ≠ .readCommitted) ∨ Quiet s)
    (hstep : s.txns.snapshotForStatement x = some txns) : Inv { s with txns } := by
  unfold snapshotForStatement at hstep
  obtain ⟨txn, hx, hstep⟩ := Option.map_eq_some_iff.1 hstep
  split at hstep
  · next hiso =>
    subst hstep
    have hquiet' : Quiet s := hquiet.resolve_left (by simp [hx, hiso])
    refine h.set hx id (.inr (h.onlyDurable hquiet' fun y _ hseen => ?_))
    exact isCommittedAtSnapshot_computeSnapshot.1 hseen
  · subst hstep
    exact h

lemma Inv.lightRead (hquiet : Quiet s) (hnone : s.txns.activeXids = []) (self : Nat) :
    Inv { s with readers := (self, ⟨0, s.txns.nextXid, []⟩) :: s.readers } := by
  refine h.read (h.onlyDurable hquiet fun y _ hseen => ?_)
  unfold Snapshot.isCommittedAtSnapshot at hseen
  split at hseen
  · cases hseen
  · next hpos =>
    split at hseen
    · cases hseen
    · next hlt =>
      have hlt' : y < s.txns.nextXid := Nat.lt_of_not_le hlt
      refine ⟨Nat.pos_of_ne_zero hpos, hlt', ?_⟩
      by_contra hne
      have hmem := mem_activeXids.2 ⟨hlt', Option.isSome_iff_ne_none.2 hne⟩
      rw [hnone] at hmem
      cases hmem

theorem Inv.step {a : Act} (hquiet : SnapshotsQuiet s a) (hstep : s.step a = some s') : Inv s' := by
  cases a with
  | begin isolation fails =>
    simp only [State.step] at hstep
    split at hstep <;> cases hstep
    · exact h.issue
    · exact (h.begin hquiet isolation).wal (h.wal_ok.append _)
  | write x action lock =>
    obtain ⟨txn, hx, rfl⟩ := Option.map_eq_some_iff.1 hstep
    exact h.write hx action _
  | statement x =>
    obtain ⟨txns, htxns, rfl⟩ := Option.map_eq_some_iff.1 hstep
    exact h.statement hquiet htxns
  | read =>
    cases hstep
    exact h.read (h.onlyDurable hquiet fun y _ hseen =>
      isCommittedAtSnapshot_computeSnapshot.1 hseen)
  | lightRead =>
    cases hstep
    exact h.lightRead hquiet.1 hquiet.2 _
  | readDone i =>
    cases hstep
    exact h.readDone i
  | commitRemove x =>
    simp only [State.step] at hstep
    split at hstep
    · cases hstep
    · obtain ⟨txn, hx, rfl⟩ := Option.map_eq_some_iff.1 hstep
      exact h.commitRemove hx
  | commitLog x appendFails fsyncFails =>
    simp only [State.step] at hstep
    split at hstep <;> cases hstep
    exact h.commitLog ‹_› appendFails fsyncFails
  | commitFinish x =>
    simp only [State.step] at hstep
    split at hstep <;> cases hstep
    exact h.commitFinish ‹_›
  | commitSync x fsyncFails =>
    simp only [State.step] at hstep
    split at hstep <;> cases hstep
    exact h.commitSync ‹_› hquiet fsyncFails
  | abort x f =>
    cases hstep
    exact h.abort x f
  | sync fails =>
    cases hstep
    exact h.wal (h.wal_ok.fsync fails)
  | rotate fails =>
    obtain ⟨-, hstep⟩ := Option.ite_none_left_eq_some.1 hstep
    cases hstep
    cases fails with
    | true => exact h.wal ⟨prefix_rfl, le_rfl, h.wal_ok.1, h.wal_ok.2, h.wal_ok.3⟩
    | false => exact h.wal h.wal_ok.rotate
  | sealed next =>
    obtain ⟨hnext, hstep⟩ := Option.ite_none_right_eq_some.1 hstep
    cases hstep
    exact h.wal (h.wal_ok.sealed (Bool.and_eq_true_iff.1 hnext).2)
  | sealFails =>
    cases hstep
    exact h.wal ⟨prefix_rfl, le_rfl, h.wal_ok.1, h.wal_ok.2, h.wal_ok.3⟩
  | checkpoint =>
    obtain ⟨-, hstep⟩ := Option.ite_none_left_eq_some.1 hstep
    cases hstep
    exact h.wal h.wal_ok.checkpoint

end

/-! ## Main results -/

/-- The state in which 2 has begun after 1 left `active` and before the record of 1 is written. -/
def earlyReader : State :=
  runState step (init true fun _ => false)
    [.begin .readCommitted false, .write 1 (.insert 0 0) none, .commitRemove 1,
      .begin .readCommitted false]

/-- The segment with the write of 1 is rotated and sealed before the commit of 1 is forced to disk;
then 2 begins. -/
def patientReader : State :=
  runState step (init true fun _ => false)
    [.begin .readCommitted false, .write 1 (.insert 0 0) none, .rotate false, .commitRemove 1,
      .commitLog 1 false false, .commitFinish 1, .sealed none, .commitSync 1 false,
      .begin .readCommitted false]

end UniDb.Commit
