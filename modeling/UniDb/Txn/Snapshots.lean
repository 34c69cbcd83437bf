import UniDb.Lib.Run
import UniDb.Txn.Manager

/-!
# Snapshots, readers and the vacuum horizon (`txn.rs`, `mvcc.rs`, `heap.rs`)

Transactions write tuple headers while other transactions and registered readers (`read_snapshot`)
hold snapshots. The results are about every state of every run:

* `reclaimable_dead`: what vacuum may reclaim is dead to everyone, now and later;
* `reader_clean`: a reader sees what had committed when it registered;
* `hinted_eq`: the hint-bit fast path of `is_visible_hinted` agrees with `is_visible`.

Each needs a condition on one kind of step; without it a short run refutes it.
-/

namespace UniDb.Snapshots

open List TxnInner Option

/-- A live tuple's header; `xminHint` is its `TUPLE_HINT_XMIN_COMMITTED` bit. -/
structure Version where
  xmin : Nat
  xmax : Nat
  xminHint : Bool
deriving DecidableEq, Repr

/-- A registration of `read_snapshot`, with the transactions that had committed by then. -/
structure Reader where
  snapshot : Snapshot
  selfXid : Nat
  committed : List Nat
deriving DecidableEq, Repr

structure State where
  txns : TxnInner
  committed : List Nat
  versions : List Version
  readers : List Reader

def init : State := ⟨⟨1, fun _ => none⟩, [], [], []⟩

/-- The header writes of the heap: `stamp` is that of an update, a HOT update and of the batch
paths; `delete` is `Heap::delete`; the other two revert an insert and a stamp. -/
inductive Write where
  | stamp
  | delete
  | undoInsert
  | undoStamp
deriving DecidableEq, Repr

def Write.apply (x : Nat) (v : Version) : Write → Option Version
  | .stamp => if v.xmax = 0 then some { v with xmax := x } else none
  | .delete => if v.xmax = 0 then some { v with xmax := x, xminHint := true } else none
  | .undoInsert => if v.xmin = x then some { v with xmax := x } else none
  | .undoStamp => if v.xmax = x then some { v with xmax := 0 } else none

inductive Action where
  | begin (isolation : IsolationLevel)
  | statement (x : Nat)
  | insert (x : Nat)
  | write (x i : Nat) (w : Write)
  | commit (x : Nat)
  | abort (x : Nat)
  | readSnapshot
  | dropReader (k : Nat)
deriving DecidableEq, Repr

namespace State

variable (s : State)

/-- Every snapshot in use, with the id it is used under. -/
def holders : List (Nat × Snapshot) :=
  s.txns.activeXids.filterMap (fun x => (s.txns.active x).map fun t => (x, t.snapshot)) ++
    s.readers.map fun r => (r.selfXid, r.snapshot)

def vacuumHorizon : Nat := (s.holders.map (·.2.xmin)).min?.getD s.txns.nextXid

/-- `abort` leaves the active set once the undo log is replayed: the transaction's own inserts are
deleted by itself, and no other version is. -/
def Undone (x : Nat) : Prop :=
  ∀ v ∈ s.versions, (v.xmin = x → v.xmax = x) ∧ (v.xmax = x → v.xmin = x)

instance (x : Nat) : Decidable (s.Undone x) := inferInstanceAs (Decidable (∀ v ∈ s.versions, _))

def step : Action → Option State
  | .begin isolation => some { s with txns := s.txns.begin isolation }
  | .statement x => (s.txns.snapshotForStatement x).map fun T => { s with txns := T }
  | .insert x =>
    if (s.txns.active x).isSome then some { s with versions := s.versions ++ [⟨x, 0, false⟩] }
    else none
  | .write x i w =>
    if (s.txns.active x).isSome then
      (s.versions[i]?.bind (w.apply x ·)).map fun v => { s with versions := s.versions.set i v }
    else none
  | .commit x =>
    if (s.txns.active x).isSome then
      some { s with txns := s.txns.remove x, committed := x :: s.committed }
    else none
  | .abort x =>
    if (s.txns.active x).isSome ∧ s.Undone x then some { s with txns := s.txns.remove x } else none
  | .readSnapshot =>
    some { s with readers := s.readers ++ [⟨s.txns.computeSnapshot, s.txns.nextXid, s.committed⟩] }
  | .dropReader k => some { s with readers := s.readers.eraseIdx k }

end State

variable {s s' : State} {a : Action} {v : Version} {r : Reader} {d x : Nat} {p : Nat × Snapshot}

/-! ## What a step changes -/

inductive TxnsStep (T : TxnInner) : TxnInner → Prop
  | steady {T' : TxnInner} : T.Steady T' → TxnsStep T T'
  | begin (isolation : IsolationLevel) : TxnsStep T (T.begin isolation)
  | remove (x : Nat) : T.active x ≠ none → TxnsStep T (T.remove x)

lemma step_txns (h : s.step a = some s') : TxnsStep s.txns s'.txns := by
  have hsame : TxnsStep s.txns s.txns := .steady (.refl _)
  cases a with
  | begin isolation => cases h; exact .begin isolation
  | statement x =>
    obtain ⟨T, hT, rfl⟩ := map_eq_some_iff.1 h
    exact .steady (snapshotForStatement_steady hT)
  | commit x =>
    obtain ⟨hx, ⟨⟩⟩ := ite_none_right_eq_some.1 h
    exact .remove x (isSome_iff_ne_none.1 hx)
  | abort x =>
    obtain ⟨hx, ⟨⟩⟩ := ite_none_right_eq_some.1 h
    exact .remove x (isSome_iff_ne_none.1 hx.1)
  | _ => grind [State.step, map_eq_some_iff]

/-- A version is an old one, or the one a running transaction just wrote. -/
lemma step_version (h : s.step a = some s') (hv : v ∈ s'.versions) :
    v ∈ s.versions ∨ ∃ x, s.txns.active x ≠ none ∧ s'.txns = s.txns ∧ s'.committed = s.committed ∧
      (v = ⟨x, 0, false⟩ ∨ ∃ i w u, a = .write x i w ∧ s.versions[i]? = some u ∧
        w.apply x u = some v) := by
  cases a with
  | insert x =>
    obtain ⟨hx, ⟨⟩⟩ := ite_none_right_eq_some.1 h
    rcases mem_append.1 hv with hv | hv
    · exact .inl hv
    · exact .inr ⟨x, isSome_iff_ne_none.1 hx, rfl, rfl, .inl (mem_singleton.1 hv)⟩
  | write x i w =>
    simp only [State.step, ite_none_right_eq_some, map_eq_some_iff,
      bind_eq_some_iff] at h
    obtain ⟨hx, v', ⟨u, hu, hw⟩, rfl⟩ := h
    rcases mem_or_eq_of_mem_set hv with hv | rfl
    · exact .inl hv
    · exact .inr ⟨x, isSome_iff_ne_none.1 hx, rfl, rfl, .inr ⟨i, w, u, rfl, hu, hw⟩⟩
  | _ => grind [State.step, map_eq_some_iff]

lemma step_reader (h : s.step a = some s') (hr : r ∈ s'.readers) :
    r ∈ s.readers ∨ r = ⟨s.txns.computeSnapshot, s.txns.nextXid, s.committed⟩ ∧
      s'.txns = s.txns ∧ s'.committed = s.committed := by
  cases a with
  | dropReader k => cases h; exact .inl (mem_of_mem_eraseIdx hr)
  | _ => grind [State.step, map_eq_some_iff]

variable {T T' : TxnInner}

lemma TxnsStep.nextXid_le (h : TxnsStep T T') : T.nextXid ≤ T'.nextXid := by
  cases h with
  | steady h => exact h.nextXid.ge
  | begin isolation => exact Nat.le_succ _
  | remove x hx => exact Nat.le_refl _

lemma TxnsStep.active_ne_none (h : TxnsStep T T') (hd : d < T.nextXid)
    (hd' : T'.active d ≠ none) : T.active d ≠ none := by
  cases h with
  | steady h => exact fun h0 => hd' ((h.domain d).2 h0)
  | begin isolation =>
    rwa [T.begin_active_ne hd.ne] at hd'
  | remove x hx => exact fun h0 => hd' (T.remove_active_eq_none.2 (.inr h0))

lemma TxnsStep.finished (h : TxnsStep T T') (hd : T.Finished d) : T'.Finished d :=
  ⟨hd.1, Nat.lt_of_lt_of_le hd.2.1 h.nextXid_le,
    not_ne_iff.1 fun hd' => h.active_ne_none hd.2.1 hd' hd.2.2⟩

/-- The snapshot was taken in `T`, by `p.1` if `p.1` is not the id it is issued. -/
def Fresh (T : TxnInner) (p : Nat × Snapshot) : Prop :=
  p.2.xmin ≤ p.2.xmax ∧ ∀ d, d ≠ p.1 → (p.2.isCommittedAtSnapshot d = true ↔ T.Finished d)

lemma computeSnapshot_xmin_le (T : TxnInner) : T.computeSnapshot.xmin ≤ T.computeSnapshot.xmax ∧
      ∀ x < T.nextXid, T.active x ≠ none → T.computeSnapshot.xmin ≤ x := by
  have hmin : ∀ x ∈ T.activeXids, T.computeSnapshot.xmin ≤ x := fun x hx => by
    cases hl : T.activeXids.min? with
    | none => rw [min?_eq_none_iff.1 hl] at hx; cases hx
    | some m =>
      rw [computeSnapshot, hl]
      exact (min?_eq_some_iff.1 hl).2 x hx
  refine ⟨?_, fun x hlt hx => hmin x (mem_activeXids.2 ⟨hlt, isSome_iff_ne_none.2 hx⟩)⟩
  cases hl : T.activeXids.min? with
  | none => simp [computeSnapshot, hl]
  | some m =>
    have hm := (min?_eq_some_iff.1 hl).1
    have := (mem_activeXids.1 hm).1
    exact (hmin m hm).trans this.le

lemma fresh_computeSnapshot (T : TxnInner) (x : Nat) : Fresh T (x, T.computeSnapshot) :=
  ⟨(computeSnapshot_xmin_le T).1, fun _ _ => isCommittedAtSnapshot_computeSnapshot⟩

lemma fresh_begin (T : TxnInner) :
    Fresh T (T.nextXid, { T with nextXid := T.nextXid + 1 }.computeSnapshot) := by
  refine ⟨(computeSnapshot_xmin_le _).1, fun d hd => ?_⟩
  rw [isCommittedAtSnapshot_computeSnapshot]
  simp only [TxnInner.Finished]
  have : d < T.nextXid + 1 ↔ d < T.nextXid := by simp only at hd; omega
  rw [this]

lemma TxnsStep.record (h : TxnsStep T T') {txn' : Transaction} (hx : T'.active x = some txn') :
    (∃ txn, T.active x = some txn ∧
      (txn'.snapshot = txn.snapshot ∨ txn'.snapshot = T.computeSnapshot)) ∨
      x = T.nextXid ∧ x < T'.nextXid ∧ Fresh T (x, txn'.snapshot) := by
  cases h with
  | steady h =>
    obtain ⟨txn, htxn, _, hs⟩ := h.record x txn' hx
    exact .inl ⟨txn, htxn, hs⟩
  | begin isolation =>
    by_cases he : x = T.nextXid
    · subst he
      cases (set_active_self ..).symm.trans hx
      exact .inr ⟨rfl, Nat.lt_succ_self _, fresh_begin T⟩
    · rw [T.begin_active_ne he] at hx
      exact .inl ⟨txn', hx, .inl rfl⟩
  | remove y hy => exact .inl ⟨txn', (T.remove_active_eq_some.1 hx).2, .inl rfl⟩

lemma mem_holders : p ∈ s.holders ↔
    (p.1 < s.txns.nextXid ∧ ∃ txn, s.txns.active p.1 = some txn ∧ txn.snapshot = p.2) ∨
      ∃ r ∈ s.readers, (r.selfXid, r.snapshot) = p := by
  rw [State.holders, mem_append, mem_filterMap, List.mem_map]
  refine or_congr ⟨?_, ?_⟩ Iff.rfl
  · rintro ⟨x, hx, h⟩
    obtain ⟨txn, htxn, rfl⟩ := map_eq_some_iff.1 h
    exact ⟨(mem_activeXids.1 hx).1, txn, htxn, rfl⟩
  · rintro ⟨hlt, txn, htxn, hs⟩
    exact ⟨p.1, mem_activeXids.2 ⟨hlt, by simp [htxn]⟩, by simp [htxn, hs]⟩

structure Issued (s : State) : Prop where
  pos : 0 < s.txns.nextXid
  active : ∀ x, s.txns.active x ≠ none → 0 < x ∧ x < s.txns.nextXid
  versions : ∀ v ∈ s.versions, v.xmin < s.txns.nextXid ∧ v.xmax < s.txns.nextXid

variable {w : Write} {u : Version}

lemma Write.apply_xids (h : w.apply x u = some v) :
    v.xmin = u.xmin ∧ (v.xmax = x ∨ v.xmax = 0) := by
  cases w <;> grind [Write.apply]

lemma Issued.init : Issued init := ⟨Nat.one_pos, fun _ h => (h rfl).elim, nofun⟩

lemma Issued.step (hI : Issued s) (h : s.step a = some s') : Issued s' := by
  have hT := step_txns h
  have hle := hT.nextXid_le
  refine ⟨Nat.lt_of_lt_of_le hI.pos hle, fun x hx => ?_, fun v hv => ?_⟩
  · obtain ⟨txn', hx⟩ := ne_none_iff_exists'.1 hx
    rcases hT.record hx with ⟨txn, htxn, _⟩ | ⟨he, hlt, _⟩
    · have := hI.active x (by simp [htxn])
      omega
    · exact ⟨he ▸ hI.pos, hlt⟩
  · rcases step_version h hv with hv | ⟨x, hx, hsame, _, rfl | ⟨i, w, u, rfl, hu, hw⟩⟩
    · have := hI.versions v hv
      omega
    · exact hsame ▸ ⟨(hI.active x hx).2, hI.pos⟩
    · have hx := hI.active x hx
      have hu := (hI.versions u (mem_of_getElem? hu)).1
      have := Write.apply_xids hw
      omega

lemma step_holder (hI : Issued s) (h : s.step a = some s') (hp : p ∈ s'.holders) :
    p ∈ s.holders ∨ Fresh s.txns p := by
  rcases mem_holders.1 hp with ⟨hlt, txn', hx, hs⟩ | ⟨r, hr, rfl⟩
  · obtain ⟨x, S⟩ := p
    subst hs
    rcases (step_txns h).record hx with ⟨txn, htxn, hs | hs⟩ | ⟨_, _, hf⟩
    · exact .inl (mem_holders.2 (.inl ⟨(hI.active x (by simp [htxn])).2, txn, htxn, hs.symm⟩))
    · rw [hs]
      exact .inr (fresh_computeSnapshot _ _)
    · exact .inr hf
  · rcases step_reader h hr with hr | ⟨rfl, _⟩
    · exact .inl (mem_holders.2 (.inr ⟨r, hr, rfl⟩))
    · exact .inr (fresh_computeSnapshot _ _)

/-- `d` has ended, and everyone counts it as having taken effect. -/
def State.Seen (s : State) (d : Nat) : Prop :=
  s.txns.Finished d ∧ ∀ p ∈ s.holders, p.2.sees p.1 d = true

lemma State.Seen.step (hd : s.Seen d) (hI : Issued s) (h : s.step a = some s') : s'.Seen d := by
  refine ⟨(step_txns h).finished hd.1, fun p hp => ?_⟩
  rcases step_holder hI h hp with hp | hf
  · exact hd.2 p hp
  · rw [Snapshot.sees, Bool.or_eq_true, beq_iff_eq]
    by_cases he : d = p.1
    · exact .inl he
    · exact .inr ((hf.2 d he).2 hd.1)

/-! ## Vacuum -/

lemma vacuumHorizon_le (hp : p ∈ s.holders) : s.vacuumHorizon ≤ p.2.xmin := by
  have hmem : p.2.xmin ∈ s.holders.map (·.2.xmin) := mem_map.2 ⟨p, hp, rfl⟩
  rw [State.vacuumHorizon]
  cases hl : (s.holders.map (·.2.xmin)).min? with
  | none => rw [min?_eq_none_iff.1 hl] at hmem; cases hmem
  | some m => exact (min?_eq_some_iff.1 hl).2 _ hmem

/-- A transaction stamps a header only under a snapshot that does not place it in the past. The
snapshot `begin` takes is such a one exactly if another transaction is running. -/
def Covered (s : State) : Action → Prop
  | .write x _ _ => ∀ txn ∈ s.txns.active x, txn.snapshot.xmin ≤ x
  | _ => True

instance (a : Action) : Decidable (Covered s a) := by
  cases a <;> dsimp only [Covered] <;> infer_instance

structure VacuumInv (s : State) : Prop where
  issued : Issued s
  holder : ∀ p ∈ s.holders, p.2.xmin ≤ p.2.xmax
  deleter : ∀ v ∈ s.versions, ∀ txn, s.txns.active v.xmax = some txn →
    v.xmax = 0 ∨ txn.snapshot.xmin ≤ v.xmax

lemma VacuumInv.init : VacuumInv init := ⟨.init, by decide, nofun⟩

lemma VacuumInv.step (hV : VacuumInv s) (hok : Covered s a) (h : s.step a = some s') :
    VacuumInv s' := by
  refine ⟨hV.issued.step h, fun p hp => ?_, fun v hv txn' htxn' => ?_⟩
  · exact (step_holder hV.issued h hp).elim (hV.holder p) (·.1)
  · rcases step_version h hv with hv | ⟨x, hx, hsame, _, rfl | ⟨i, w, u, rfl, hu, hw⟩⟩
    · rcases (step_txns h).record htxn' with ⟨txn, htxn, hs | hs⟩ | ⟨he, _⟩
      · exact hs ▸ hV.deleter v hv txn htxn
      · exact .inr (hs ▸ (computeSnapshot_xmin_le _).2 _ (hV.issued.versions v hv).2
          (by simp [htxn]))
      · exact absurd he (hV.issued.versions v hv).2.ne
    · exact .inl rfl
    · rcases (Write.apply_xids hw).2 with he | he
      · rw [hsame, he] at htxn'
        exact .inr (he ▸ hok txn' htxn')
      · exact .inl he

/-- A reclaimable version's deleter has ended, and everyone counts it. -/
lemma VacuumInv.seen (hV : VacuumInv s) (hv : v ∈ s.versions)
    (hr : isReclaimable v.xmax s.vacuumHorizon = true) : s.Seen v.xmax := by
  simp only [isReclaimable, Bool.and_eq_true, bne_iff_ne, decide_eq_true_eq] at hr
  have hlt := (hV.issued.versions v hv).2
  refine ⟨⟨Nat.pos_of_ne_zero hr.1, hlt, ?_⟩, fun p hp => ?_⟩
  · cases htxn : s.txns.active v.xmax with
    | none => rfl
    | some txn =>
      have hle := (hV.deleter v hv txn htxn).resolve_left hr.1
      have hhor : s.vacuumHorizon ≤ txn.snapshot.xmin :=
        vacuumHorizon_le (p := (v.xmax, txn.snapshot)) (mem_holders.2 (.inl ⟨hlt, txn, htxn, rfl⟩))
      omega
  · have hle := vacuumHorizon_le hp
    have := hV.holder p hp
    simp only [Snapshot.sees, Snapshot.isCommittedAtSnapshot, hr.1, if_neg, if_pos,
      show ¬p.2.xmax ≤ v.xmax by omega, show v.xmax < p.2.xmin by omega, not_false_eq_true,
      Bool.or_true]

/-- What vacuum may reclaim: its deleter is not running, and neither now nor later does a
transaction or a reader see it. -/
def DeadVersion (ok : State → Action → Prop) (s : State) (v : Version) : Prop :=
  s.txns.active v.xmax = none ∧ ∀ s', Reached State.step ok s s' → ∀ p ∈ s'.holders,
    isVisible v.xmin v.xmax p.2 p.1 = false

/-- **Vacuum reclaims nothing anyone still needs**, in every run whose header writes are covered. -/
theorem reclaimable_dead (hs : Reached State.step Covered init s) (hv : v ∈ s.versions)
    (hr : isReclaimable v.xmax s.vacuumHorizon = true) : DeadVersion Covered s v := by
  have hV : VacuumInv s := hs.invariant VacuumInv .init fun _ _ _ h hok => h.step hok
  have hseen := hV.seen hv hr
  refine ⟨hseen.1.2.2, fun s' hs' p hp => ?_⟩
  -- that everyone counts the deleter lasts to the end of the run
  have hlast : VacuumInv s' ∧ s'.Seen v.xmax :=
    hs'.invariant (fun s => VacuumInv s ∧ s.Seen v.xmax) ⟨hV, hseen⟩
      fun s1 a s2 h1 hok h => ⟨h1.1.step hok h, h1.2.step h1.1.issued h⟩
  rw [← Bool.not_eq_true, isVisible_iff, hlast.2.2 p hp]
  simp [hseen.1.1.ne']

/-- A run with a reclaimable version: a second transaction is running when it deletes. -/
def vacuumRun : List Action :=
  [.begin .readCommitted, .insert 1, .begin .repeatableRead, .commit 1, .begin .readCommitted,
    .statement 3, .write 3 0 .stamp, .commit 2, .commit 3]

theorem reclaimable_dead_vacuumRun :
    DeadVersion Covered (runState State.step init vacuumRun) ⟨1, 3, false⟩ :=
  reclaimable_dead (RunAllowed.reached_runState (by decide) (by decide)) (by decide) (by decide)

/-- A lone REPEATABLE READ transaction's own snapshot starts past its id: a row it deletes is
reclaimable while it still runs and may roll back. -/
theorem reclaimable_running : ¬∀ s, Reached State.step (fun _ _ => True) init s → ∀ v ∈ s.versions,
      isReclaimable v.xmax s.vacuumHorizon = true → DeadVersion (fun _ _ => True) s v := by
  intro h
  have := (h (runState State.step init [.begin .repeatableRead, .insert 1, .commit 1,
      .begin .repeatableRead, .write 2 0 .stamp])
    (RunAllowed.reached_runState (by decide) (by decide)) ⟨1, 2, false⟩ (by decide) (by decide)).1
  exact absurd this (by decide)

/-! ## Registered readers -/

/-- A transaction begins only when no registered reader uses the next id as its own. -/
def SentinelFree (s : State) : Action → Prop
  | .begin _ => ∀ r ∈ s.readers, r.selfXid ≠ s.txns.nextXid
  | _ => True

instance (a : Action) : Decidable (SentinelFree s a) := by
  cases a <;> dsimp only [SentinelFree] <;> infer_instance

/-- The reader's own id belongs to nobody, it sees a version only if its inserter had committed
when the reader registered, and honours a deletion only if the deleter had. -/
def CleanReader (s : State) (r : Reader) : Prop :=
  s.txns.active r.selfXid = none ∧ ∀ v ∈ s.versions,
    (isVisible v.xmin v.xmax r.snapshot r.selfXid = true → v.xmin ∈ r.committed) ∧
    (v.xmin ∈ r.committed → isVisible v.xmin v.xmax r.snapshot r.selfXid = false →
      v.xmax ∈ r.committed)

/-- An ended transaction committed, or it left the version inserted and deleted by itself. -/
def Settled (s : State) (v : Version) : Prop :=
  ∀ d, d = v.xmin ∨ d = v.xmax → s.txns.Finished d → d ∈ s.committed ∨ v.xmin = v.xmax

structure ReaderInv (s : State) : Prop where
  issued : Issued s
  committed : ∀ d ∈ s.committed, s.txns.Finished d
  sentinel : ∀ r ∈ s.readers, r.selfXid = s.txns.nextXid
  before : ∀ r ∈ s.readers, ∀ d, r.snapshot.isCommittedAtSnapshot d = true →
    s.txns.Finished d ∧ (d ∈ s.committed → d ∈ r.committed)
  counted : ∀ r ∈ s.readers, ∀ d ∈ r.committed, r.snapshot.isCommittedAtSnapshot d = true
  settled : ∀ v ∈ s.versions, Settled s v

lemma ReaderInv.init : ReaderInv init := ⟨.init, nofun, nofun, nofun, nofun, nofun⟩

/-- A transaction that ends commits, or has undone what it wrote. -/
lemma step_finished (hI : Issued s) (h : s.step a = some s') (hd : d < s.txns.nextXid)
    (hf : s'.txns.Finished d) : s.txns.Finished d ∨ d ∈ s'.committed ∨ s.Undone d := by
  cases a with
  | begin isolation =>
    cases h
    exact .inl ⟨hf.1, hd, s.txns.begin_active_ne hd.ne isolation ▸ hf.2.2⟩
  | statement x =>
    obtain ⟨T, hT, rfl⟩ := map_eq_some_iff.1 h
    exact .inl ((snapshotForStatement_steady hT).finished_iff.1 hf)
  | commit x =>
    obtain ⟨hx, ⟨⟩⟩ := ite_none_right_eq_some.1 h
    have hx := hI.active x (isSome_iff_ne_none.1 hx)
    rcases (finished_remove_iff hx).1 hf with hf | rfl
    · exact .inl hf
    · exact .inr (.inl (.head _))
  | abort x =>
    obtain ⟨⟨hx, hundone⟩, ⟨⟩⟩ := ite_none_right_eq_some.1 h
    have hx := hI.active x (isSome_iff_ne_none.1 hx)
    rcases (finished_remove_iff hx).1 hf with hf | rfl
    · exact .inl hf
    · exact .inr (.inr hundone)
  | _ => grind [State.step, map_eq_some_iff]

lemma step_committed (hI : Issued s) (h : s.step a = some s') :
    (∀ d ∈ s.committed, d ∈ s'.committed) ∧ ∀ d ∈ s'.committed,
      d ∈ s.committed ∨ s'.txns.Finished d ∧ ¬s.txns.Finished d := by
  cases a with
  | commit x =>
    obtain ⟨hx, ⟨⟩⟩ := ite_none_right_eq_some.1 h
    have hx := isSome_iff_ne_none.1 hx
    refine ⟨fun d => .tail _, fun d hd => (mem_cons.1 hd).symm.imp_right ?_⟩
    rintro rfl
    exact ⟨(finished_remove_iff (hI.active d hx)).2 (.inr rfl), fun hf => hx hf.2.2⟩
  | _ => grind [State.step, map_eq_some_iff]

lemma Settled.apply (hu : Settled s u) (hx : s.txns.active x ≠ none)
    (hw : w.apply x u = some v) : Settled s v := by
  intro d hd hf
  have hne : d ≠ x := fun he => hx (he ▸ hf.2.2)
  have hpos := hf.1
  have hmin := hu d
  cases w <;> grind [Write.apply]

lemma ReaderInv.step (hR : ReaderInv s) (hok : SentinelFree s a) (h : s.step a = some s') :
    ReaderInv s' := by
  have hT := step_txns h
  obtain ⟨hkept, hnew⟩ := step_committed hR.issued h
  refine ⟨hR.issued.step h, fun d hd => ?_, fun r hr => ?_, fun r hr d hd => ?_,
    fun r hr d hd => ?_, fun v hv d hd hf => ?_⟩
  · exact (hnew d hd).elim (fun hd => hT.finished (hR.committed d hd)) (·.1)
  · rcases step_reader h hr with hr | ⟨rfl, hsame, _⟩
    · have hself := hR.sentinel r hr
      rw [hself]
      cases a with
      | begin isolation => exact absurd hself (hok r hr)
      | statement x =>
        obtain ⟨T, hst, rfl⟩ := map_eq_some_iff.1 h
        exact (snapshotForStatement_steady hst).nextXid.symm
      | _ => grind [State.step, map_eq_some_iff, remove_nextXid]
    · rw [hsame]
  · rcases step_reader h hr with hr | ⟨rfl, hsame, hcom⟩
    · obtain ⟨hf, hc⟩ := hR.before r hr d hd
      exact ⟨hT.finished hf, fun hd => hc ((hnew d hd).resolve_right (·.2 hf))⟩
    · rw [hsame, hcom]
      exact ⟨isCommittedAtSnapshot_computeSnapshot.1 hd, id⟩
  · rcases step_reader h hr with hr | ⟨rfl, _, _⟩
    · exact hR.counted r hr d hd
    · exact isCommittedAtSnapshot_computeSnapshot.2 (hR.committed d hd)
  · rcases step_version h hv with hv | ⟨x, hx, hsame, hcom, rfl | ⟨i, w, u, rfl, hu, hw⟩⟩
    · have hlt := hR.issued.versions v hv
      rcases step_finished hR.issued h (by omega) hf with hf | hc | hundone
      · exact (hR.settled v hv d hd hf).imp_left (hkept d)
      · exact .inl hc
      · have := hundone v hv
        grind
    · rw [hsame] at hf
      rcases hd with rfl | rfl
      · exact absurd hf.2.2 hx
      · exact absurd hf.1 (lt_irrefl 0)
    · rw [hsame] at hf
      rw [hcom]
      exact (hR.settled u (mem_of_getElem? hu)).apply hx hw d hd hf

lemma ReaderInv.clean (hR : ReaderInv s) (hr : r ∈ s.readers) : CleanReader s r := by
  have hself := hR.sentinel r hr
  have hsees : ∀ d < s.txns.nextXid,
      r.snapshot.sees r.selfXid d = r.snapshot.isCommittedAtSnapshot d := fun d hd => by
    simp [Snapshot.sees, hself, hd.ne]
  refine ⟨?_, fun v hv => ?_⟩
  · by_contra hne
    exact absurd (hR.issued.active _ hne).2 (by omega)
  · obtain ⟨hmin, hmax⟩ := hR.issued.versions v hv
    have hset := hR.settled v hv
    refine ⟨fun hvis => ?_, fun hc hvis => ?_⟩
    · rw [isVisible_iff, hsees _ hmin, hsees _ hmax] at hvis
      obtain ⟨hfin, hcom⟩ := hR.before r hr _ hvis.1
      rcases hset _ (.inl rfl) hfin with hc | he
      · exact hcom hc
      · have := hfin.1
        rw [← he, hvis.1] at hvis
        simp only [Bool.true_eq_false, or_false] at hvis
        omega
    · rw [← Bool.not_eq_true, isVisible_iff, hsees _ hmin, hsees _ hmax,
        hR.counted r hr _ hc] at hvis
      simp only [true_and, not_or, Bool.not_eq_false] at hvis
      obtain ⟨hfin, hcom⟩ := hR.before r hr _ hvis.2
      rcases hset _ (.inr rfl) hfin with hc' | he
      · exact hcom hc'
      · exact he ▸ hc

/-- A reader registered while a writer runs, which then commits. -/
def readerRun : List Action :=
  [.begin .readCommitted, .insert 1, .readSnapshot, .commit 1]

/-- `is_visible_hinted`; no writer sets `TUPLE_HINT_XMAX_COMMITTED`. -/
def isVisibleHinted (v : Version) (snapshot : Snapshot) (selfXid : Nat) : Bool :=
  let inserterVisible :=
    if v.xminHint then true else v.xmin == selfXid || snapshot.isCommittedAtSnapshot v.xmin
  if !inserterVisible then false
  else if v.xmax = 0 then true
  else !(v.xmax == selfXid || snapshot.isCommittedAtSnapshot v.xmax)

/-- `Heap::delete` is called on a version whose inserter has ended and is counted by everyone. -/
def HintTrue (s : State) : Action → Prop
  | .write _ i .delete => ∀ v ∈ s.versions[i]?, s.Seen v.xmin
  | _ => True

instance (d : Nat) : Decidable (s.Seen d) :=
  inferInstanceAs (Decidable (s.txns.Finished d ∧ ∀ p ∈ s.holders, p.2.sees p.1 d = true))

instance (a : Action) : Decidable (HintTrue s a) := by
  unfold HintTrue
  split <;> infer_instance

def HintInv (s : State) : Prop := Issued s ∧ ∀ v ∈ s.versions, v.xminHint = true → s.Seen v.xmin

lemma Write.apply_hint (h : w.apply x u = some v)
    (hv : v.xminHint = true) : u.xminHint = true ∨ w = .delete := by
  cases w <;> grind [Write.apply]

lemma HintInv.step (hH : HintInv s) (hok : HintTrue s a) (h : s.step a = some s') :
    HintInv s' := by
  refine ⟨hH.1.step h, fun v hv hint => ?_⟩
  rcases step_version h hv with hv | ⟨x, hx, _, _, rfl | ⟨i, w, u, rfl, hu, hw⟩⟩
  · exact (hH.2 v hv hint).step hH.1 h
  · cases hint
  · rw [(Write.apply_xids hw).1]
    rcases Write.apply_hint hw hint with hint | rfl
    · exact (hH.2 u (mem_of_getElem? hu) hint).step hH.1 h
    · exact (hok u hu).step hH.1 h

lemma isVisibleHinted_eq (hint : v.xminHint = true → p.2.sees p.1 v.xmin = true) :
    isVisibleHinted v p.2 p.1 = isVisible v.xmin v.xmax p.2 p.1 := by
  rw [isVisibleHinted, isVisible]
  split
  · rename_i h
    have := hint h
    rw [Snapshot.sees] at this
    simp only [this]
  · rfl

/-- **The hint-bit fast path agrees with plain visibility**, in every run whose deletes find an
inserter everyone counts. -/
theorem hinted_eq (hs : Reached State.step HintTrue init s) (hv : v ∈ s.versions)
    (hp : p ∈ s.holders) : isVisibleHinted v p.2 p.1 = isVisible v.xmin v.xmax p.2 p.1 :=
  have hH := hs.invariant HintInv ⟨.init, nofun⟩ fun _ _ _ h hok => h.step hok
  isVisibleHinted_eq fun hint => (hH.2 v hv hint).2 p hp

def hintRun : List Action :=
  [.begin .readCommitted, .insert 1, .commit 1, .begin .readCommitted, .readSnapshot,
    .write 2 0 .delete]

theorem hinted_eq_hintRun :
    isVisibleHinted ⟨1, 2, true⟩ ⟨2, 3, [2]⟩ 3 = isVisible 1 2 ⟨2, 3, [2]⟩ 3 :=
  hinted_eq (s := runState State.step init hintRun) (p := (3, ⟨2, 3, [2]⟩))
    (RunAllowed.reached_runState (by decide) (by decide)) (by decide) (by decide)

/-- A row deleted by the transaction that inserted it shows up in everyone else's reads. -/
theorem hinted_ne :
    ¬∀ s, Reached State.step (fun _ _ => True) init s → ∀ v ∈ s.versions, ∀ p ∈ s.holders,
      isVisibleHinted v p.2 p.1 = isVisible v.xmin v.xmax p.2 p.1 := by
  intro h
  have := h (runState State.step init
      [.begin .readCommitted, .insert 1, .write 1 0 .delete, .readSnapshot])
    (RunAllowed.reached_runState (by decide) (by decide)) ⟨1, 1, true⟩ (by decide) (2, ⟨1, 2, [1]⟩)
    (by decide)
  exact absurd this (by decide)

end UniDb.Snapshots
