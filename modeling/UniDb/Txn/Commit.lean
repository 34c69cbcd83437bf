import UniDb.Lib.Run
import UniDb.Txn.Manager

/-!
# The commit protocol (`TransactionManager::commit`, `Engine::commit`, `wal.rs`)

A commit leaves `active`, appends its record to the WAL, releases its locks and only then forces the
record to disk; each part may be interleaved with the calls of other threads, and each may fail.
`step` is one such part. `engineCommit` is the whole call, without other sessions in between.

* The WAL is the list of the records of transactions ever appended, in segments. A full segment is
  rotated: the sealer thread syncs it, an fsync syncs the active segment only. `durableLsn` is what
  the log has published, `onDisk` what a crash leaves.
* What the sealer does, and a rotation, are steps of their own. During a call of `engineCommit` they
  have the effect they have right before it.
* `stamped x`: versions that `x` wrote are in the heap. They are taken back by a completed abort.
* `pivot x`: the conflict flags of `SERIALIZABLE` refuse the commit of `x`. They are never cleared.
* `committing` and `Stage` are the program counters of the commits under way.
-/

namespace UniDb.Commit

open List Function

/-! ## The log -/

inductive WalRecord where
  | begin (xid : Nat)
  | write (xid : Nat)
  | commit (xid : Nat)
  | abort (xid : Nat)
deriving DecidableEq, Repr

structure Wal where
  records : List WalRecord
  /-- The active segment is on disk up to here. -/
  synced : Nat
  /-- The first record of the rotated segments that the sealer has not synced. -/
  unsealed : Option Nat
  durableLsn : Nat
  deferredSync : Bool
  poisoned : Bool
  sealerFailed : Bool
deriving DecidableEq, Repr

inductive CommitError where
  | txnNotActive
  | serializationFailure
  | io
  | durabilityFailure
deriving DecidableEq, Repr

namespace Wal

variable (w : Wal) (r : WalRecord)

/-- `append_locked`; the LSN of the record is its place. -/
def append : Wal := { w with records := w.records ++ [r] }

/-- `rotate_segment`: the active segment, as far as it is not on disk, is left to the sealer. -/
def rotate : Wal := { w with
  synced := w.records.length
  unsealed := if w.synced < w.records.length then some (w.unsealed.getD w.synced) else w.unsealed }

/-- `fsync_locked` and `group_fsync`: the active segment is synced, and everything is published. A
failure poisons the log for good. -/
def fsync (fails : Bool) : Wal × Bool :=
  if w.poisoned then (w, false)
  else if fails then ({ w with poisoned := true }, false)
  else ({ w with synced := w.records.length, durableLsn := w.records.length }, true)

/-- The checkpoint of a log without faults: the pages hold what the records say. -/
def checkpoint : Wal :=
  { w with synced := w.records.length, unsealed := none, durableLsn := w.records.length }

/-- `commit_user_txn` and `abort_user_txn`: the last record of a transaction. -/
def endUserTxn (appendFails fsyncFails : Bool) : Wal × Except CommitError Nat :=
  if appendFails then (w, .error .io)
  else
    let w' := w.append r
    if w'.deferredSync then (w', .ok w'.records.length)
    else
      match w'.fsync fsyncFails with
      | (w'', true) => (w'', .ok w'.records.length)
      | (w'', false) => (w'', .error .durabilityFailure)

/-- `sync_up_to`: `wait_until_durable` reports a failed sealer, but does not wait for a segment that
the sealer has taken. -/
def syncUpTo (target : Nat) (fails : Bool) : Wal × Bool :=
  if target ≤ w.durableLsn then (w, true)
  else if w.sealerFailed then (w, false)
  else w.fsync fails

def onDisk : Nat := min (w.unsealed.getD w.synced) w.synced

/-- The records a crash now is sure to leave. -/
def durable : List WalRecord := w.records.take w.onDisk

end Wal

/-! ## The state -/

inductive Stage where
  /-- The transaction has left `active`; `wrote`: its undo log is not empty. -/
  | removed (wrote : Bool)
  /-- The record, if one was needed, is in the log. -/
  | logged (lsn : Option Nat)
  /-- The locks are released, the record is not yet forced to disk. -/
  | finished (lsn : Nat)
  /-- The call returned an error after the transaction had left `active`. -/
  | failed
deriving DecidableEq, Repr

structure State where
  txns : TxnInner
  committed : List Nat
  aborted : List Nat
  pivot : Nat → Bool
  stamped : Nat → Bool
  locks : List (RowId × Nat)
  wal : Wal
  /-- The snapshots of readers without a transaction (`read_snapshot`,
  `read_snapshot_lightweight`), with the id they read under. -/
  readers : List (Nat × Snapshot)
  committing : Nat → Option Stage

structure Faults where
  append : Bool
  fsync : Bool
  undo : Bool
  checkpoint : Bool
deriving DecidableEq, Repr

namespace State
variable (s : State)

def setStage (x : Nat) (stage : Option Stage) : State :=
  { s with committing := update s.committing x stage }

@[simp] lemma setStage_committing_self (x : Nat) (stage : Option Stage) :
    (s.setStage x stage).committing x = stage := update_self ..

lemma setStage_committing_ne {x y : Nat} (h : y ≠ x) (stage : Option Stage) :
    (s.setStage x stage).committing y = s.committing y := update_of_ne h ..

variable (x : Nat)

def releaseAll : State := { s with locks := s.locks.filter fun e => e.2 ≠ x }

/-! ## Parts of a commit -/

def commitRemove (txn : Transaction) : State :=
  { s with txns := s.txns.remove x }.setStage x (some (.removed !txn.undoLog.isEmpty))

/-- The record is written; a read-only transaction has none. -/
def commitLog (wrote : Bool) (appendFails fsyncFails : Bool) :
    State × Except CommitError (Option Nat) :=
  if wrote then
    match s.wal.endUserTxn (.commit x) appendFails fsyncFails with
    | (w, .ok lsn) => ({ s with wal := w }.setStage x (some (.logged (some lsn))), .ok (some lsn))
    | (w, .error e) => ({ s with wal := w }.setStage x (some .failed), .error e)
  else (s.setStage x (some (.logged none)), .ok none)

/-- The transaction counts as committed and its locks are released. -/
def commitFinish (lsn : Option Nat) : State :=
  { s with committed := x :: s.committed }.releaseAll x |>.setStage x (lsn.map .finished)

def commitSync (lsn : Nat) (fsyncFails : Bool) : State × Bool :=
  match s.wal.syncUpTo lsn fsyncFails with
  | (w, true) => ({ s with wal := w }.setStage x none, true)
  | (w, false) => ({ s with wal := w }.setStage x (some .failed), false)

/-- `TransactionManager::abort`: the writes are undone while the transaction is active. -/
def abort (f : Faults) : State × Except CommitError Unit :=
  match s.txns.active x with
  | none => (s, .error .txnNotActive)
  | some _ =>
    if f.undo then (s, .error .io)
    else
      let undone := { s with stamped := update s.stamped x false }
      match undone.wal.endUserTxn (.abort x) f.append f.fsync with
      | (w, .ok _) =>
        ({ undone with wal := w, txns := s.txns.remove x, aborted := x :: s.aborted }.releaseAll x,
          .ok ())
      | (w, .error e) => ({ undone with wal := w }, .error e)

/-! ## Interleaved calls -/

inductive Act where
  | begin (isolation : IsolationLevel) (fails : Bool)
  | write (x : Nat) (action : UndoAction) (lock : Option RowId)
  | statement (x : Nat)
  | read
  | lightRead
  | readDone (i : Nat)
  | commitRemove (x : Nat)
  | commitLog (x : Nat) (appendFails fsyncFails : Bool)
  | commitFinish (x : Nat)
  | commitSync (x : Nat) (fsyncFails : Bool)
  | abort (x : Nat) (f : Faults)
  /-- The fsync of another thread. -/
  | sync (fails : Bool)
  | rotate (fails : Bool)
  /-- The sealer has synced the rotated segments, all of them or those before `next`. -/
  | sealed (next : Option Nat)
  | sealFails
  | checkpoint
deriving DecidableEq, Repr

def step : Act → Option State
  | .begin isolation fails =>
    -- the id is issued before the log is written
    if fails then some { s with txns := { s.txns with nextXid := s.txns.nextXid + 1 } }
    else some { s with
      txns := s.txns.begin isolation
      wal := s.wal.append (.begin s.txns.nextXid) }
  | .write x action lock =>
    (s.txns.active x).map fun _ => { s with
      txns := s.txns.recordUndo x [action]
      stamped := update s.stamped x true
      wal := s.wal.append (.write x)
      locks := (lock.map fun rid => (rid, x)).toList ++ s.locks }
  | .statement x => (s.txns.snapshotForStatement x).map fun txns => { s with txns }
  | .read => some { s with readers := (s.txns.nextXid, s.txns.computeSnapshot) :: s.readers }
  | .lightRead => some { s with
      readers := (s.txns.nextXid, ⟨0, s.txns.nextXid, []⟩) :: s.readers }
  | .readDone i => some { s with readers := s.readers.eraseIdx i }
  | .commitRemove x =>
    if s.pivot x then none else (s.txns.active x).map (s.commitRemove x)
  | .commitLog x appendFails fsyncFails =>
    match s.committing x with
    | some (.removed wrote) => some (s.commitLog x wrote appendFails fsyncFails).1
    | _ => none
  | .commitFinish x =>
    match s.committing x with
    | some (.logged lsn) => some (s.commitFinish x lsn)
    | _ => none
  | .commitSync x fsyncFails =>
    match s.committing x with
    | some (.finished lsn) => some (s.commitSync x lsn fsyncFails).1
    | _ => none
  | .abort x f => some (s.abort x f).1
  | .sync fails => some { s with wal := (s.wal.fsync fails).1 }
  | .rotate fails =>
    if s.wal.poisoned then none
    else some { s with wal := if fails then { s.wal with poisoned := true } else s.wal.rotate }
  | .sealed next =>
    if !s.wal.sealerFailed && next.all fun p => s.wal.onDisk ≤ p && p < s.wal.synced then
      some { s with wal := { s.wal with unsealed := next } }
    else none
  | .sealFails => some { s with wal := { s.wal with sealerFailed := true } }
  | .checkpoint =>
    if s.wal.poisoned || s.wal.sealerFailed then none
    else some { s with wal := s.wal.checkpoint }

def init (deferredSync : Bool) (pivot : Nat → Bool) : State where
  txns := ⟨1, fun _ => none⟩
  committed := []
  aborted := []
  pivot := pivot
  stamped _ := false
  locks := []
  wal := ⟨[], 0, none, 0, deferredSync, false, false⟩
  readers := []
  committing _ := none

/-! ## The whole call -/

def txnCommit (f : Faults) : State × Except CommitError (Option Nat) :=
  if s.pivot x then (s, .error .serializationFailure)
  else
    match s.txns.active x with
    | none => (s, .error .txnNotActive)
    | some txn =>
      match (s.commitRemove x txn).commitLog x (!txn.undoLog.isEmpty) f.append f.fsync with
      | (s', .ok lsn) => (s'.commitFinish x lsn, .ok lsn)
      | (s', .error e) => (s', .error e)

/-- `maybe_auto_checkpoint`: only at a quiescent point, if it is due. It syncs the log first, which
fails if the sealer has failed. -/
def maybeAutoCheckpoint (due fails : Bool) : State × Except CommitError Unit :=
  if !due || !s.txns.activeXids.isEmpty then (s, .ok ())
  else if fails || s.wal.sealerFailed then (s, .error .io)
  else ({ s with wal := s.wal.checkpoint }, .ok ())

def engineCommit (due : Bool) (f : Faults) : State × Except CommitError Unit :=
  match s.txnCommit x f with
  | (s', .error .serializationFailure) =>
    match s'.abort x f with
    | (s'', .ok ()) => (s'', .error .serializationFailure)
    | (s'', .error e) => (s'', .error e)
  | (s', .error e) => (s', .error e)
  | (s', .ok none) => s'.maybeAutoCheckpoint due f.checkpoint
  | (s', .ok (some lsn)) =>
    match s'.commitSync x lsn f.fsync with
    | (s'', true) => s''.maybeAutoCheckpoint due f.checkpoint
    | (s'', false) => (s'', .error .durabilityFailure)

end State

/-! ## The log only grows -/

/-- What holds of the log in every run. -/
structure Wal.Ok (w : Wal) : Prop where
  durable_le : w.durableLsn ≤ w.synced
  synced_le : w.synced ≤ w.records.length
  unsealed_lt : ∀ p ∈ w.unsealed, p < w.synced

/-- `w'` has all records of `w`, and at least as many on disk. -/
structure Wal.Grows (w w' : Wal) : Prop where
  records : w.records <+: w'.records
  onDisk : w.onDisk ≤ w'.onDisk
  ok : w'.Ok

namespace Wal
variable {w w' : Wal} {r : WalRecord}

lemma Ok.onDisk_le (h : w.Ok) : w.onDisk ≤ w.records.length :=
  (Nat.min_le_right _ _).trans h.synced_le

lemma onDisk_of_sealed (h : w.unsealed = none) : w.onDisk = w.synced := by
  rw [onDisk, h]
  exact Nat.min_self _

lemma Ok.onDisk_of_unsealed (h : w.Ok) {p : Nat} (hp : w.unsealed = some p) : w.onDisk = p := by
  rw [onDisk, hp]
  exact Nat.min_eq_left (h.unsealed_lt p hp).le

lemma Ok.refl (h : w.Ok) : w.Grows w := ⟨prefix_rfl, le_rfl, h⟩

lemma Grows.trans {w1 w2 w3 : Wal} (h : w1.Grows w2) (h' : w2.Grows w3) : w1.Grows w3 :=
  ⟨h.records.trans h'.records, h.onDisk.trans h'.onDisk, h'.ok⟩

lemma Grows.durable (h : w.Grows w') : w.durable ⊆ w'.durable := by
  obtain ⟨rest, hrest⟩ := h.records
  unfold Wal.durable
  rw [← hrest, take_append]
  exact List.Subset.trans (take_subset_take_left _ h.onDisk) (subset_append_left _ _)

lemma Ok.append (h : w.Ok) (r : WalRecord) : w.Grows (w.append r) where
  records := prefix_append _ _
  onDisk := le_rfl
  ok := ⟨h.durable_le, h.synced_le.trans (by simp [Wal.append]), h.unsealed_lt⟩

lemma Ok.rotate (h : w.Ok) : w.Grows w.rotate := by
  by_cases hlt : w.synced < w.records.length
  · have hun : w.rotate.unsealed = some (w.unsealed.getD w.synced) := if_pos hlt
    have hfirst : w.unsealed.getD w.synced ≤ w.synced := by
      cases hp : w.unsealed with
      | none => exact le_rfl
      | some p => exact (h.unsealed_lt p hp).le
    have hok : w.rotate.Ok := by
      refine ⟨h.durable_le.trans h.synced_le, le_rfl, ?_⟩
      rw [hun]
      rintro p ⟨⟩
      exact hfirst.trans_lt hlt
    refine ⟨prefix_rfl, ?_, hok⟩
    rw [hok.onDisk_of_unsealed hun]
    exact Nat.min_le_left _ _
  · -- everything in the segment is on disk
    have heq : w.rotate = w := by
      rw [Wal.rotate, if_neg hlt, ← le_antisymm h.synced_le (Nat.le_of_not_lt hlt)]
    rw [heq]
    exact h.refl

/-- After a sync of the active segment, which may have sealed the others. -/
lemma Ok.synced (h : w.Ok) (hrecords : w'.records = w.records)
    (hsynced : w'.synced = w.records.length) (hdurable : w'.durableLsn = w.records.length)
    (hunsealed : w'.unsealed = w.unsealed ∨ w'.unsealed = none) : w.Grows w' := by
  refine ⟨hrecords ▸ prefix_rfl, ?_, (hdurable.trans hsynced.symm).le, ?_, fun p hp => ?_⟩
  · rcases hunsealed with heq | heq
    · unfold Wal.onDisk
      rw [heq, hsynced]
      have := h.synced_le
      cases w.unsealed <;> simp <;> omega
    · rw [onDisk_of_sealed heq, hsynced]
      exact h.onDisk_le
  · rw [hsynced, hrecords]
  · rcases hunsealed with heq | heq <;> rw [heq] at hp
    · rw [hsynced]
      exact (h.unsealed_lt p hp).trans_le h.synced_le
    · cases hp

lemma Ok.checkpoint (h : w.Ok) : w.Grows w.checkpoint := h.synced rfl rfl rfl (.inr rfl)

lemma Ok.sealed (h : w.Ok) {next : Option Nat}
    (hnext : (next.all fun p => w.onDisk ≤ p && p < w.synced) = true) :
    w.Grows { w with unsealed := next } := by
  cases next with
  | none =>
    refine ⟨prefix_rfl, ?_, h.durable_le, h.synced_le, nofun⟩
    show w.onDisk ≤ min w.synced w.synced
    rw [Nat.min_self]
    exact Nat.min_le_right _ _
  | some p =>
    simp only [Option.all_some, Bool.and_eq_true, decide_eq_true_eq] at hnext
    refine ⟨prefix_rfl, ?_, h.durable_le, h.synced_le, ?_⟩
    · show w.onDisk ≤ min p w.synced
      omega
    · rintro q ⟨⟩
      exact hnext.2

lemma Ok.fsync_cases (h : w.Ok) (fails : Bool) :
    ((w.poisoned = true ∨ fails = true) ∧ ∃ w', w.fsync fails = (w', false) ∧ w.Grows w' ∧
      w'.records = w.records) ∨ (w.poisoned = false ∧ fails = false ∧
      w.fsync fails =
        ({ w with synced := w.records.length, durableLsn := w.records.length }, true) ∧
      w.Grows { w with synced := w.records.length, durableLsn := w.records.length }) := by
  unfold fsync
  split
  · next hp => exact .inl ⟨.inl hp, w, rfl, h.refl, rfl⟩
  · next hp =>
    split
    · next hf => exact .inl ⟨.inr hf, _, rfl, ⟨prefix_rfl, le_rfl, h.1, h.2, h.3⟩, rfl⟩
    · next hf =>
      exact .inr ⟨Bool.eq_false_iff.2 hp, Bool.eq_false_iff.2 hf, rfl,
        h.synced rfl rfl rfl (.inl rfl)⟩

lemma Ok.fsync (h : w.Ok) (fails : Bool) : w.Grows (w.fsync fails).1 := by
  rcases h.fsync_cases fails with ⟨-, w', heq, hgrows, -⟩ | ⟨-, -, heq, hgrows⟩ <;>
    (rw [heq]; exact hgrows)

/-- What writing the last record of a transaction does: nothing; the record is in the log; or it is
there and the call fails all the same. -/
lemma Ok.endUserTxn_cases (h : w.Ok) (r : WalRecord) (appendFails fsyncFails : Bool) :
    (appendFails = true ∧ w.endUserTxn r appendFails fsyncFails = (w, .error .io)) ∨
    (appendFails = false ∧ ∃ w',
      w.endUserTxn r appendFails fsyncFails = (w', .ok (w.records.length + 1)) ∧
      w.Grows w' ∧ w'.records = w.records ++ [r] ∧ w'.poisoned = w.poisoned ∧
      w'.unsealed = w.unsealed ∧ w'.sealerFailed = w.sealerFailed ∧
      ((w.deferredSync = true ∧ w'.durableLsn = w.durableLsn ∧ w'.synced = w.synced) ∨
        (w.deferredSync = false ∧ w.poisoned = false ∧ fsyncFails = false ∧
          w'.durableLsn = w.records.length + 1 ∧ w'.synced = w.records.length + 1))) ∨
    (appendFails = false ∧ w.deferredSync = false ∧ (w.poisoned = true ∨ fsyncFails = true) ∧
      ∃ w', w.endUserTxn r appendFails fsyncFails = (w', .error .durabilityFailure) ∧
        w.Grows w' ∧ w'.records = w.records ++ [r]) := by
  have hlen : (w.append r).records.length = w.records.length + 1 := length_append
  have happend := h.append r
  unfold endUserTxn
  cases appendFails with
  | true => exact .inl ⟨rfl, rfl⟩
  | false =>
    right
    simp only [hlen, true_and]
    by_cases hdef : (w.append r).deferredSync = true
    · rw [if_pos hdef]
      exact .inl ⟨w.append r, rfl, happend, rfl, rfl, rfl, rfl, .inl ⟨hdef, rfl, rfl⟩⟩
    · rw [if_neg hdef]
      rcases happend.ok.fsync_cases fsyncFails with
        ⟨hbad, w', heq, hgrows, hrec⟩ | ⟨hpoison, hf, heq, hgrows⟩
      · rw [heq]
        exact .inr ⟨Bool.eq_false_iff.2 hdef, hbad, w', rfl, happend.trans hgrows, hrec⟩
      · rw [heq]
        exact .inl ⟨_, rfl, happend.trans hgrows, rfl, rfl, rfl, rfl,
          .inr ⟨Bool.eq_false_iff.2 hdef, hpoison, hf, hlen, hlen⟩⟩

lemma Ok.endUserTxn (h : w.Ok) (r : WalRecord) (appendFails fsyncFails : Bool) :
    w.Grows (w.endUserTxn r appendFails fsyncFails).1 := by
  rcases h.endUserTxn_cases r appendFails fsyncFails with
    ⟨-, heq⟩ | ⟨-, w', heq, hgrows, -⟩ | ⟨-, -, -, w', heq, hgrows, -⟩ <;> rw [heq]
  · exact h.refl
  · exact hgrows
  · exact hgrows

lemma Ok.syncUpTo (h : w.Ok) (target : Nat) (fails : Bool) :
    w.Grows (w.syncUpTo target fails).1 := by
  unfold Wal.syncUpTo
  split
  · exact h.refl
  · split
    · exact h.refl
    · exact h.fsync fails

lemma Ok.syncUpTo_cases (h : w.Ok) {target : Nat} (fails : Bool)
    (htarget : target ≤ w.records.length) :
    (∃ w', w.syncUpTo target fails = (w', true) ∧ w.Grows w' ∧ target ≤ w'.durableLsn ∧
      w'.records = w.records ∧ w'.unsealed = w.unsealed ∧ w'.sealerFailed = w.sealerFailed ∧
      (target ≤ w.durableLsn ∨
        (w.sealerFailed = false ∧ w.poisoned = false ∧ fails = false))) ∨
    (w.durableLsn < target ∧ (w.sealerFailed = true ∨ w.poisoned = true ∨ fails = true) ∧
      ∃ w', w.syncUpTo target fails = (w', false) ∧ w.Grows w' ∧ w'.records = w.records) := by
  unfold Wal.syncUpTo
  split
  · next hle => exact .inl ⟨w, rfl, h.refl, hle, rfl, rfl, rfl, .inl hle⟩
  · next hle =>
    split
    · next hseal => exact .inr ⟨by omega, .inl hseal, w, rfl, h.refl, rfl⟩
    · next hseal =>
      rcases h.fsync_cases fails with ⟨hbad, w', heq, hgrows, hrec⟩ | ⟨hpoison, hf, heq, hgrows⟩
      · exact .inr ⟨by omega, .inr hbad, w', heq, hgrows, hrec⟩
      · exact .inl ⟨_, heq, hgrows, htarget, rfl, rfl, rfl,
          .inr ⟨Bool.eq_false_iff.2 hseal, hpoison, hf⟩⟩

end Wal

end UniDb.Commit
