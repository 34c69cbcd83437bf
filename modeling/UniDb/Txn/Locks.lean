import UniDb.Base
import UniDb.Lib.Graph
import UniDb.Lib.Run

/-!
# The lock manager (`lockmgr.rs`)

Shared and exclusive locks, with waiting. A thread that sleeps in `acquire` is a `Waiter`; a
wake-up, spurious or not, is one more round of its loop. The table is a list of holds. In the source
it has an entry for each record, with a queue of waiters that only keeps `gc` from dropping the
entry (`Entries`).

* `entries_represent`: the list of holds is what the calls leave in the entries;
* `exclusive_alone`: an exclusive holder is the only one, and a batch takes all its locks or none;
* `deadlocks_detected`: waiters that are up to date do not wait in a circle, and only a request that
  closes a circle fails, if a transaction makes no call while one of its requests waits.
-/

namespace UniDb.Locks

open Relation List Option

inductive RecordKind where
  | row
  | uniqueKey
  | fkKey
deriving DecidableEq, Repr

structure RecordId where
  kind : RecordKind
  id : Nat
deriving DecidableEq, Repr

inductive LockMode where
  | shared
  | exclusive
deriving DecidableEq, Repr

inductive WaitPolicy where
  | noWait
  | wait
deriving DecidableEq, Repr

/-- A lock that a transaction holds, or asks for. -/
structure Hold where
  id : RecordId
  xid : Nat
  mode : LockMode
deriving DecidableEq, Repr

structure LockTable where
  holders : List Hold
  waitsFor : List (Nat × List Nat)
deriving DecidableEq, Repr

namespace LockTable

variable (t : LockTable) (r : Hold)

def canGrant : Bool :=
  t.holders.all fun h => h.id ≠ r.id ∨ h.xid = r.xid ∨ r.mode = .shared ∧ h.mode = .shared

def blockers : List Nat :=
  (t.holders.filter fun h =>
    h.id = r.id ∧ h.xid ≠ r.xid ∧ (r.mode = .exclusive ∨ h.mode = .exclusive)).map Hold.xid

/-- A hold is made or upgraded. -/
def grant : LockTable where
  holders :=
    if r ∈ t.holders ∨ { r with mode := .exclusive } ∈ t.holders then t.holders
    else r :: t.holders.filter fun h => ¬(h.id = r.id ∧ h.xid = r.xid)
  waitsFor := t.waitsFor.filter (·.1 ≠ r.xid)

def release (xid : Nat) : LockTable where
  holders := t.holders.filter (·.xid ≠ xid)
  waitsFor := (t.waitsFor.filter (·.1 ≠ xid)).map fun e => (e.1, e.2.filter (· ≠ xid))

end LockTable

/-- A sleeping thread; `seen` counts the changes of holders when it last looked. -/
structure Waiter where
  request : Hold
  seen : Nat
deriving DecidableEq, Repr

structure Manager where
  table : LockTable
  parked : List Waiter
  changes : Nat
deriving DecidableEq, Repr

inductive Outcome where
  | granted
  | parked
  | writeConflict (holder : Nat)
  | deadlock (xid : Nat)
deriving DecidableEq, Repr

inductive Action where
  | acquire (r : Hold) (policy : WaitPolicy)
  | wake (w : Waiter)
  | tryAcquireWriteMany (ids : List RecordId) (xid : Nat)
  | releaseAll (xid : Nat)
deriving DecidableEq, Repr

namespace Manager

def new : Manager := ⟨⟨[], []⟩, [], 0⟩

variable (s : Manager)

def setTable (t : LockTable) : Manager :=
  { s with
    table := t
    changes := if t.holders = s.table.holders then s.changes else s.changes + 1 }

def conflict (r : Hold) : Outcome := .writeConflict ((s.table.blockers r).head?.getD r.xid)

/-- One round of the loop of `acquire`. -/
def round (r : Hold) (policy : WaitPolicy) : Manager × Outcome :=
  if s.table.canGrant r then (s.setTable (s.table.grant r), .granted)
  else
    match policy with
    | .noWait => (s, s.conflict r)
    | .wait =>
      let others := s.table.waitsFor.filter (·.1 ≠ r.xid)
      let waitsFor := (r.xid, s.table.blockers r) :: others
      if hasCycle waitsFor r.xid then
        ({ s with table := { s.table with waitsFor := others } }, .deadlock r.xid)
      else
        ({ s with table := { s.table with waitsFor }, parked := ⟨r, s.changes⟩ :: s.parked },
          .parked)

def writeLock (xid : Nat) (id : RecordId) : Hold := ⟨id, xid, .exclusive⟩

def tryAcquireWriteMany (ids : List RecordId) (xid : Nat) : Manager × Outcome :=
  match ids.find? fun id => !s.table.canGrant (writeLock xid id) with
  | some id => (s, s.conflict (writeLock xid id))
  | none => (ids.foldl (fun s id => s.setTable (s.table.grant (writeLock xid id))) s, .granted)

def perform : Action → Option (Manager × Outcome)
  | .acquire r policy => some (s.round r policy)
  | .wake w =>
    if w ∈ s.parked then some ({ s with parked := s.parked.erase w }.round w.request .wait)
      else none
  | .tryAcquireWriteMany ids xid => some (s.tryAcquireWriteMany ids xid)
  | .releaseAll xid => some (s.setTable (s.table.release xid), .granted)

def step (a : Action) : Option Manager := (s.perform a).map (·.1)

end Manager

variable {t : LockTable} {r h : Hold} {s s' : Manager} {x y xid : Nat} {ids : List RecordId}

/-! ## Mutual exclusion -/

namespace LockTable

lemma canGrant_iff : t.canGrant r = true ↔ ∀ h ∈ t.holders, h.id = r.id →
    h.xid = r.xid ∨ r.mode = .shared ∧ h.mode = .shared := by
  simp [canGrant, imp_iff_not_or]

lemma mem_blockers : y ∈ t.blockers r ↔ ∃ h ∈ t.holders, h.id = r.id ∧ h.xid ≠ r.xid ∧
    (r.mode = .exclusive ∨ h.mode = .exclusive) ∧ h.xid = y := by
  simp [blockers, and_assoc]

lemma mem_grant (hh : h ∈ (t.grant r).holders) : h = r ∨ h ∈ t.holders := by
  rw [grant] at hh
  split at hh
  · exact .inr hh
  · exact (mem_cons.1 hh).imp_right fun hh => (mem_filter.1 hh).1

/-- A hold survives a grant, if only as a stronger one. -/
lemma exists_mem_grant (hh : h ∈ t.holders) : h ∈ (t.grant r).holders ∨
    h.mode = .shared ∧ h.id = r.id ∧ h.xid = r.xid ∧ r ∈ (t.grant r).holders := by
  rw [grant]
  split
  · exact .inl hh
  · next hkept =>
    by_cases hr : h.id = r.id ∧ h.xid = r.xid
    · have hmode : h.mode = .shared := by
        cases hm : h.mode with
        | shared => rfl
        | exclusive =>
          refine absurd (.inr ?_) hkept
          rw [← hr.1, ← hr.2, ← hm]
          exact hh
      exact .inr ⟨hmode, hr.1, hr.2, mem_cons_self⟩
    · exact .inl (mem_cons_of_mem _ (mem_filter.2 ⟨hh, by simpa [imp_iff_not_or] using hr⟩))

lemma mem_grant_self (hr : r.mode = .exclusive) : r ∈ (t.grant r).holders := by
  rw [grant]
  split
  · next hkept => exact hkept.elim id fun hr' => by rwa [← hr] at hr'
  · exact mem_cons_self

/-- An exclusive holder of a record is the only holder. -/
def Alone (t : LockTable) : Prop :=
  ∀ h ∈ t.holders, h.mode = .exclusive → ∀ g ∈ t.holders, g.id = h.id → g.xid = h.xid

lemma Alone.grant (ht : t.Alone) (hr : t.canGrant r = true) : (t.grant r).Alone := by
  rw [canGrant_iff] at hr
  intro h hh hmode g hg hid
  rcases mem_grant hh with rfl | hh' <;> rcases mem_grant hg with rfl | hg'
  · rfl
  · exact (hr g hg' hid).resolve_right (by simp [hmode])
  · exact ((hr h hh' hid.symm).resolve_right (by simp [hmode])).symm
  · exact ht h hh' hmode g hg' hid

lemma canGrant_grant {r' : Hold} (hr : t.canGrant r = true) (hxid : r'.xid = r.xid) :
    (t.grant r').canGrant r = true := by
  rw [canGrant_iff] at hr ⊢
  intro h hh hid
  rcases mem_grant hh with rfl | hh
  · exact .inl hxid
  · exact hr h hh hid

end LockTable

namespace Manager

lemma tryAcquireWriteMany_cases (s : Manager) (ids : List RecordId) (xid : Nat) :
    s.tryAcquireWriteMany ids xid =
        (ids.foldl (fun s id => s.setTable (s.table.grant (writeLock xid id))) s, .granted) ∧
        (∀ id ∈ ids, s.table.canGrant (writeLock xid id) = true) ∨
      ∃ id, s.tryAcquireWriteMany ids xid = (s, s.conflict (writeLock xid id)) := by
  rw [tryAcquireWriteMany]
  split
  · next id _ => exact .inr ⟨id, rfl⟩
  · next hnone => exact .inl ⟨rfl, by simpa using hnone⟩

lemma grants_induction {motive : Manager → Prop} (h : motive s)
    (hgrant : ∀ s id, motive s → s.table.canGrant (writeLock xid id) = true →
      motive (s.setTable (s.table.grant (writeLock xid id))))
    (hids : ∀ id ∈ ids, s.table.canGrant (writeLock xid id) = true) :
    motive (ids.foldl (fun s id => s.setTable (s.table.grant (writeLock xid id))) s) := by
  induction ids generalizing s with
  | nil => exact h
  | cons id ids ih =>
    exact ih (hgrant s id h (hids id mem_cons_self)) fun id' hid =>
      LockTable.canGrant_grant (hids id' (mem_cons_of_mem _ hid)) rfl

lemma writeLock_mem (hids : ∀ id ∈ ids, s.table.canGrant (writeLock xid id) = true)
    {id : RecordId} (hid : id ∈ ids ∨ writeLock xid id ∈ s.table.holders) : writeLock xid id ∈
      (ids.foldl (fun s id => s.setTable (s.table.grant (writeLock xid id))) s).table.holders := by
  induction ids generalizing s with
  | nil => exact hid.resolve_left not_mem_nil
  | cons id' ids ih =>
    refine ih (fun id hid => LockTable.canGrant_grant (hids id (mem_cons_of_mem _ hid)) rfl) ?_
    rcases hid with hid | hid
    · rcases mem_cons.1 hid with rfl | hid
      · exact .inr (LockTable.mem_grant_self rfl)
      · exact .inl hid
    · exact .inr ((LockTable.exists_mem_grant hid).resolve_right fun h => nomatch h.1)

lemma alone_round (hs : s.table.Alone) (r : Hold) (policy : WaitPolicy) :
    (s.round r policy).1.table.Alone := by
  unfold round
  split
  · next hcan => exact hs.grant hcan
  · split
    · exact hs
    · dsimp only
      split <;> exact hs

lemma alone_step {a : Action} (hs : s.table.Alone) (hstep : s.step a = some s') :
    s'.table.Alone := by
  obtain ⟨p, hp, rfl⟩ := map_eq_some_iff.1 hstep
  cases a with
  | acquire r policy =>
    cases hp
    exact alone_round hs r policy
  | wake w =>
    obtain ⟨_, ⟨⟩⟩ := ite_none_right_eq_some.1 hp
    exact alone_round (s := { s with parked := s.parked.erase w }) hs w.request .wait
  | tryAcquireWriteMany ids xid =>
    cases hp
    rcases s.tryAcquireWriteMany_cases ids xid with ⟨heq, hids⟩ | ⟨id, heq⟩ <;> rw [heq]
    · exact grants_induction (motive := fun s => s.table.Alone) hs
        (fun _ _ hs hcan => hs.grant hcan) hids
    · exact hs
  | releaseAll xid =>
    cases hp
    intro h hh hmode g hg
    exact hs h (mem_filter.1 hh).1 hmode g (mem_filter.1 hg).1

end Manager

theorem exclusive_alone (hs : Reached Manager.step (fun _ _ => True) .new s) :
    s.table.Alone ∧ ∀ ids xid,
      (∀ id ∈ ids, Manager.writeLock xid id ∈ (s.tryAcquireWriteMany ids xid).1.table.holders) ∨
        (s.tryAcquireWriteMany ids xid).1.table.holders = s.table.holders := by
  refine ⟨hs.invariant (·.table.Alone) nofun fun s a s' h _ => Manager.alone_step h,
    fun ids xid => ?_⟩
  rcases s.tryAcquireWriteMany_cases ids xid with ⟨heq, hids⟩ | ⟨id, heq⟩ <;> rw [heq]
  · exact .inl fun id hid => Manager.writeLock_mem hids (.inl hid)
  · exact .inr rfl

/-- Transaction 1 upgrades its lock, and 2 waits for it. -/
theorem exclusive_alone_upgrade :
    let s := runState Manager.step .new [.acquire ⟨⟨.row, 7⟩, 1, .shared⟩ .noWait,
      .acquire ⟨⟨.row, 7⟩, 1, .exclusive⟩ .noWait, .acquire ⟨⟨.row, 7⟩, 2, .shared⟩ .wait]
    s.table.holders = [⟨⟨.row, 7⟩, 1, .exclusive⟩] ∧ s.table.Alone :=
  ⟨by decide +kernel, (exclusive_alone (reached_runState (by simp) (by decide +kernel))).1⟩

/-! ## Deadlocks -/

/-- The wait-for graph of the parked waiters. -/
def Manager.Blocked (s : Manager) (x y : Nat) : Prop :=
  ∃ w ∈ s.parked, w.request.xid = x ∧ y ∈ s.table.blockers w.request

def Action.Requests (a : Action) (r : Hold) : Prop :=
  a = .acquire r .wait ∨ ∃ w, a = .wake w ∧ w.request = r

structure Detects (s : Manager) : Prop where
  complete : (∀ w ∈ s.parked, w.seen = s.changes) → ∀ x, ¬TransGen s.Blocked x x
  sound : ∀ a s' x, s.perform a = some (s', .deadlock x) → ∃ r, a.Requests r ∧ r.xid = x ∧
    TransGen { s with parked := ⟨r, s.changes⟩ :: s.parked }.Blocked x x

def Action.caller : Action → Option Nat
  | .acquire r _ => r.xid
  | .wake _ => none
  | .tryAcquireWriteMany _ xid | .releaseAll xid => xid

def Manager.Idle (s : Manager) (xid : Nat) : Prop := ∀ w ∈ s.parked, w.request.xid ≠ xid

/-- A transaction makes no call while one of its requests waits. -/
def OneCall (s : Manager) (a : Action) : Prop := ∀ x ∈ a.caller, s.Idle x

instance (s : Manager) (a : Action) : Decidable (OneCall s a) :=
  inferInstanceAs (Decidable (∀ x ∈ a.caller, ∀ w ∈ s.parked, w.request.xid ≠ x))

lemma edge_filter {graph : List (Nat × List Nat)} :
    Edge (graph.filter (·.1 ≠ xid)) x y ↔ x ≠ xid ∧ Edge graph x y := by
  by_cases hx : x = xid
  · rw [hx, Edge, successors_filter_self]
    simp
  · rw [Edge, successors_filter_ne hx]
    simp [hx, Edge]

lemma edge_cons {e : Nat × List Nat} {graph : List (Nat × List Nat)} :
    Edge (e :: graph) x y ↔ x = e.1 ∧ y ∈ e.2 ∨ x ≠ e.1 ∧ Edge graph x y := by
  rw [Edge, successors_cons]
  by_cases hx : x = e.1 <;> simp [hx, Edge]

/-- The graph of the table has edges of waiters only, all those of the waiters that are up to date,
and no cycle. `awake` is the transaction that makes the running call. -/
structure Inv (awake : Option Nat) (s : Manager) : Prop where
  idle : ∀ x ∈ awake, s.Idle x
  edges : ∀ x y, x ∉ awake → Edge s.table.waitsFor x y → s.Blocked x y
  fresh : ∀ w ∈ s.parked, w.seen = s.changes → ∀ y ∈ s.table.blockers w.request,
    Edge s.table.waitsFor w.request.xid y
  seen_le : ∀ w ∈ s.parked, w.seen ≤ s.changes
  single : s.parked.Pairwise fun v w => v.request.xid ≠ w.request.xid
  acyclic : ∀ x, ¬TransGen (Edge s.table.waitsFor) x x

namespace Inv

lemma call (h : Inv none s) (hidle : s.Idle x) : Inv (some x) s :=
  { h with idle := by simpa using hidle, edges := fun x y _ => h.edges x y (by simp) }

lemma wake (h : Inv none s) {w : Waiter} (hw : w ∈ s.parked) :
    Inv (some w.request.xid) { s with parked := s.parked.erase w } where
  idle := by
    have hperm := ((perm_cons_erase hw).pairwise_iff fun hvw => Ne.symm hvw).1 h.single
    rintro _ ⟨⟩ v hv
    exact ((pairwise_cons.1 hperm).1 v hv).symm
  edges := fun x y hx hxy => by
    obtain ⟨v, hv, rfl, hy⟩ := h.edges x y (by simp) hxy
    refine ⟨v, (mem_erase_of_ne ?_).2 hv, rfl, hy⟩
    rintro rfl
    exact hx rfl
  fresh := fun v hv => h.fresh v (mem_of_mem_erase hv)
  seen_le := fun v hv => h.seen_le v (mem_of_mem_erase hv)
  single := h.single.sublist (erase_sublist ..)
  acyclic := h.acyclic

/-- The running call takes its edges away, and others only with what blocked. -/
lemma setTable (h : Inv (some x) s)
    (hedges : ∀ a b, Edge t.waitsFor a b → a ≠ x ∧ Edge s.table.waitsFor a b ∧
      ∀ r, b ∈ s.table.blockers r → b ∈ t.blockers r)
    (hfresh : t.holders = s.table.holders → ∀ w ∈ s.parked, ∀ b ∈ s.table.blockers w.request,
      Edge s.table.waitsFor w.request.xid b → Edge t.waitsFor w.request.xid b) :
    Inv none (s.setTable t) where
  idle := nofun
  edges := fun a b _ hab => by
    obtain ⟨ha, hab, hkeep⟩ := hedges a b hab
    obtain ⟨w, hw, rfl, hb⟩ := h.edges a b (by simpa using Ne.symm ha) hab
    exact ⟨w, hw, rfl, hkeep _ hb⟩
  fresh := fun w hw hseen b hb => by
    have hle := h.seen_le w hw
    by_cases hsame : t.holders = s.table.holders
    · simp only [Manager.setTable, hsame, if_true] at hseen
      have hb' : b ∈ s.table.blockers w.request := by
        rw [LockTable.blockers, ← hsame]
        exact hb
      exact hfresh hsame w hw b hb' (h.fresh w hw hseen b hb')
    · simp only [Manager.setTable, hsame, if_false] at hseen
      omega
  seen_le := fun w hw => (h.seen_le w hw).trans (by simp only [Manager.setTable]; split <;> omega)
  single := h.single
  acyclic := fun a ha => h.acyclic a (TransGen.mono (fun a b hab => (hedges a b hab).2.1) _ _ ha)

lemma grant (h : Inv (some r.xid) s) : Inv none (s.setTable (s.table.grant r)) := by
  refine h.setTable (fun a b hab => ?_) fun _ w hw b _ hab => edge_filter.2 ⟨h.idle _ rfl w hw, hab⟩
  refine ⟨(edge_filter.1 hab).1, (edge_filter.1 hab).2, fun r' hb => ?_⟩
  obtain ⟨h, hh, hid, hne, hmode, rfl⟩ := LockTable.mem_blockers.1 hb
  rcases LockTable.exists_mem_grant hh with hh | ⟨hshared, hid', hxid, hr⟩
  · exact LockTable.mem_blockers.2 ⟨h, hh, hid, hne, hmode, rfl⟩
  · refine LockTable.mem_blockers.2 ⟨r, hr, hid' ▸ hid, hxid ▸ hne, .inl ?_, hxid.symm⟩
    exact hmode.resolve_right (by simp [hshared])

lemma release (h : Inv (some xid) s) : Inv none (s.setTable (s.table.release xid)) := by
  have hedge : ∀ a b, Edge (s.table.release xid).waitsFor a b ↔
      (a ≠ xid ∧ Edge s.table.waitsFor a b) ∧ b ≠ xid := by
    intro a b
    rw [Edge, LockTable.release, successors_map_filter, mem_filter]
    exact and_congr edge_filter (by simp)
  refine h.setTable (fun a b hab => ?_) fun hsame w hw b hb hab => ?_
  · obtain ⟨⟨ha, hab⟩, hb⟩ := (hedge a b).1 hab
    refine ⟨ha, hab, fun r hblock => ?_⟩
    obtain ⟨h, hh, hid, hne, hmode, rfl⟩ := LockTable.mem_blockers.1 hblock
    exact LockTable.mem_blockers.2 ⟨h, mem_filter.2 ⟨hh, by simpa using hb⟩, hid, hne, hmode, rfl⟩
  · refine (hedge _ b).2 ⟨⟨h.idle _ rfl w hw, hab⟩, ?_⟩
    obtain ⟨h, hh, _, _, _, rfl⟩ := LockTable.mem_blockers.1 hb
    rw [← hsame] at hh
    simpa using (mem_filter.1 hh).2

lemma blocked_of_edge (hedges : ∀ x y, x ≠ r.xid → Edge s.table.waitsFor x y → s.Blocked x y)
    (hxy : Edge ((r.xid, s.table.blockers r) :: s.table.waitsFor.filter (·.1 ≠ r.xid)) x y) :
    { s with parked := ⟨r, s.changes⟩ :: s.parked }.Blocked x y := by
  rcases edge_cons.1 hxy with ⟨rfl, hy⟩ | ⟨hx, hxy⟩
  · exact ⟨⟨r, s.changes⟩, mem_cons_self, rfl, hy⟩
  · obtain ⟨w, hw, rfl, hy⟩ := hedges x y hx (edge_filter.1 hxy).2
    exact ⟨w, mem_cons_of_mem _ hw, rfl, hy⟩

lemma deadlock (h : Inv none s) {parked : List Waiter} {policy : WaitPolicy}
    (hround : ({ s with parked }.round r policy).2 = .deadlock x) : policy = .wait ∧ r.xid = x ∧
      TransGen { s with parked := ⟨r, s.changes⟩ :: s.parked }.Blocked x x := by
  unfold Manager.round at hround
  split at hround
  · cases hround
  cases policy with
  | noWait => cases hround
  | wait =>
    dsimp only at hround
    split at hround
    · next hcycle =>
      cases hround
      exact ⟨rfl, rfl, TransGen.mono (fun x y => blocked_of_edge fun x y _ => h.edges x y (by simp))
        _ _ (hasCycle_iff.1 hcycle)⟩
    · cases hround

lemma round (h : Inv (some r.xid) s) : Inv none (s.round r .wait).1 := by
  unfold Manager.round
  split
  · exact h.grant
  dsimp only
  split
  · have hinv := h.setTable
      (t := { s.table with waitsFor := s.table.waitsFor.filter (·.1 ≠ r.xid) })
      (fun a b hab => ⟨(edge_filter.1 hab).1, (edge_filter.1 hab).2, fun _ hb => hb⟩)
      fun _ w hw b _ hab => edge_filter.2 ⟨h.idle _ rfl w hw, hab⟩
    simpa [Manager.setTable] using hinv
  · next hcycle =>
    refine ⟨nofun, fun x y _ => blocked_of_edge fun x y hx =>
      h.edges x y (by simpa using Ne.symm hx),
      fun w hw hseen y hy => edge_cons.2 ?_, fun w hw => ?_,
      h.single.cons fun w hw => (h.idle _ rfl w hw).symm, fun x hx => ?_⟩
    · rcases mem_cons.1 hw with rfl | hw
      · exact .inl ⟨rfl, hy⟩
      · have hne := h.idle _ rfl w hw
        exact .inr ⟨hne, edge_filter.2 ⟨hne, h.fresh w hw hseen y hy⟩⟩
    · rcases mem_cons.1 hw with rfl | hw
      · exact Nat.le_refl _
      · exact h.seen_le w hw
    · -- a new cycle goes through the new edges
      rcases transGen_of_added (fun a b hab => (edge_cons.1 hab).symm.imp
        (fun hab => (edge_filter.1 hab.2).2) (·.1)) hx with hx | hx
      · exact h.acyclic x hx
      · exact hcycle (hasCycle_iff.2 hx)

lemma step {a : Action} (h : Inv none s) (hok : OneCall s a) (hstep : s.step a = some s') :
    Inv none s' := by
  obtain ⟨p, hp, rfl⟩ := map_eq_some_iff.1 hstep
  cases a with
  | acquire r policy =>
    cases hp
    cases policy with
    | wait => exact (h.call (hok _ rfl)).round
    | noWait =>
      unfold Manager.round
      split
      · exact (h.call (hok _ rfl)).grant
      · exact h
  | wake w =>
    obtain ⟨hw, ⟨⟩⟩ := ite_none_right_eq_some.1 hp
    exact (h.wake hw).round
  | tryAcquireWriteMany ids xid =>
    cases hp
    rcases s.tryAcquireWriteMany_cases ids xid with ⟨heq, hids⟩ | ⟨id, heq⟩ <;> rw [heq]
    · exact (Manager.grants_induction (motive := fun s => Inv none s ∧ s.Idle xid) ⟨h, hok _ rfl⟩
        (fun _ _ h _ => ⟨(h.1.call h.2).grant, h.2⟩) hids).1
    · exact h
  | releaseAll xid =>
    cases hp
    exact (h.call (hok _ rfl)).release

lemma detects (h : Inv none s) : Detects s where
  complete := fun hseen x hx => h.acyclic x <| TransGen.mono (by
    rintro x y ⟨w, hw, rfl, hy⟩
    exact h.fresh w hw (hseen w hw) y hy) _ _ hx
  sound := by
    intro a s' x hp
    cases a with
    | acquire r policy =>
      obtain ⟨rfl, rfl, hcycle⟩ := h.deadlock (congrArg Prod.snd (some.inj hp))
      exact ⟨r, .inl rfl, rfl, hcycle⟩
    | wake w =>
      obtain ⟨_, hp⟩ := ite_none_right_eq_some.1 hp
      obtain ⟨-, rfl, hcycle⟩ := h.deadlock (congrArg Prod.snd (some.inj hp))
      exact ⟨w.request, .inr ⟨w, rfl, rfl⟩, rfl, hcycle⟩
    | tryAcquireWriteMany ids xid =>
      rcases s.tryAcquireWriteMany_cases ids xid with ⟨heq, _⟩ | ⟨id, heq⟩ <;>
        cases heq.symm.trans (some.inj hp)
    | releaseAll xid => cases hp

end Inv

theorem deadlocks_detected (hs : Reached Manager.step OneCall .new s) : Detects s := by
  have hnew : Inv none .new :=
    ⟨nofun, nofun, nofun, nofun, .nil, fun x hx => nomatch (TransGen.head'_iff.1 hx).choose_spec.1⟩
  exact (hs.invariant (Inv none) hnew fun _ _ _ h hok => h.step hok).detects

def rowLock (n xid : Nat) : Hold := ⟨⟨.row, n⟩, xid, .exclusive⟩

/-- Transaction 2 waits for 1, which would wait for 2. -/
theorem deadlocks_detected_victim :
    let s := runState Manager.step .new [.acquire (rowLock 7 1) .noWait,
      .acquire (rowLock 8 2) .noWait, .acquire (rowLock 7 2) .wait]
    (s.round (rowLock 8 1) .wait).2 = .deadlock 1 ∧ Detects s :=
  ⟨by decide +kernel, deadlocks_detected (RunAllowed.reached_runState (by decide +kernel)
    (by decide +kernel))⟩

/-- Two threads of transaction 1 wait, and the edges of the second replace those of the first. -/
theorem deadlock_missed : ¬∀ s, Reached Manager.step (fun _ _ => True) .new s → Detects s := by
  intro h
  let s := runState Manager.step .new [.acquire (rowLock 7 1) .noWait,
    .acquire (rowLock 8 2) .noWait,
    .acquire (rowLock 9 3) .noWait, .acquire (rowLock 8 1) .wait, .acquire (rowLock 9 1) .wait,
    .acquire (rowLock 7 2) .wait]
  refine (h s (reached_runState (by simp) (by decide +kernel))).complete (by decide +kernel) 1 ?_
  exact .tail (.single ⟨⟨rowLock 8 1, 3⟩, by decide +kernel, rfl, by decide +kernel⟩)
    ⟨⟨rowLock 7 2, 3⟩, by decide +kernel, rfl, by decide +kernel⟩

/-! ## Entries -/

/-- `LockEntry`: the holders of a record, and who waits for it in the order of arrival. -/
structure LockEntry where
  holders : AList fun _ : Nat => LockMode
  queue : List Nat

def LockEntry.empty : LockEntry := ⟨∅, []⟩

/-- The field `locks` of the table in the source. -/
abbrev Entries := RecordId → Option LockEntry

namespace Entries

variable (locks : Entries) (r : Hold) (id : RecordId) (xid : Nat)

def canGrant : Bool :=
  match locks r.id with
  | none => true
  | some e =>
    match r.mode with
    | .exclusive => e.holders.keys.all (· = r.xid)
    | .shared => e.holders.entries.all fun h => h.1 = r.xid ∨ h.2 = .shared

def blockers : List Nat :=
  match locks r.id with
  | none => []
  | some e =>
    (e.holders.entries.filter fun h =>
      h.1 ≠ r.xid ∧ (r.mode = .exclusive ∨ h.2 = .exclusive)).map Sigma.fst

def grant : Entries :=
  let e := (locks r.id).getD .empty
  let slot := (e.holders.lookup r.xid).getD r.mode
  let mode := if r.mode = .exclusive then .exclusive else slot
  Function.update locks r.id (some ⟨e.holders.insert r.xid mode, e.queue.filter (· ≠ r.xid)⟩)

def enqueue : Entries :=
  let e := (locks id).getD .empty
  Function.update locks id
    (some (if xid ∈ e.queue then e else { e with queue := e.queue ++ [xid] }))

def dequeue : Entries :=
  Function.update locks id
    ((locks id).map fun e => { e with queue := e.queue.filter (· ≠ xid) })

def gc : Entries := fun id =>
  (locks id).filter fun e => !(e.holders.keys.isEmpty && e.queue.isEmpty)

def releaseAll : Entries :=
  gc fun id => (locks id).map fun e => ⟨e.holders.erase xid, e.queue.filter (· ≠ xid)⟩

/-- One round of the loop of `acquire`; the outcome says whether the request closes a cycle. -/
def round (policy : WaitPolicy) (outcome : Outcome) : Entries :=
  if locks.canGrant r then locks.grant r
  else
    match policy with
    | .noWait => locks
    | .wait =>
      let queued := locks.enqueue r.id r.xid
      if outcome = .deadlock r.xid then (queued.dequeue r.id r.xid).gc else queued

def tryAcquireWriteMany (ids : List RecordId) : Entries :=
  if ids.all fun id => locks.canGrant (Manager.writeLock xid id) then
    ids.foldl (fun locks id => locks.grant (Manager.writeLock xid id)) locks
  else locks

def perform (outcome : Outcome) : Action → Entries
  | .acquire r policy => locks.round r policy outcome
  | .wake w => locks.round w.request .wait outcome
  | .tryAcquireWriteMany ids xid => locks.tryAcquireWriteMany xid ids
  | .releaseAll xid => locks.releaseAll xid

def Holds (h : Hold) : Prop := ∃ e ∈ locks h.id, e.holders.lookup h.xid = some h.mode

/-- The list of holds is what the entries hold. -/
def Represents (t : LockTable) : Prop := ∀ h, h ∈ t.holders ↔ locks.Holds h

variable {locks r id xid}

lemma holds_update {h : Hold} {o : Option LockEntry} :
    Holds (Function.update locks id o) h ↔
      if h.id = id then ∃ e ∈ o, e.holders.lookup h.xid = some h.mode else locks.Holds h := by
  unfold Holds
  by_cases hid : h.id = id
  · rw [if_pos hid, hid, Function.update_self]
  · rw [if_neg hid, Function.update_of_ne hid]

/-- Changes of the queue alone change no hold. -/
lemma holds_update_same {h : Hold} {o : Option LockEntry}
    (hsame : ∀ x m, (∃ e ∈ o, e.holders.lookup x = some m) ↔ locks.Holds ⟨id, x, m⟩) :
    Holds (Function.update locks id o) h ↔ locks.Holds h := by
  rw [holds_update]
  split
  · next hid =>
    rw [hsame, ← hid]
  · rfl

lemma holds_enqueue {h : Hold} : (locks.enqueue id xid).Holds h ↔ locks.Holds h := by
  refine holds_update_same fun x m => ?_
  unfold Holds
  cases locks id with
  | none => simp [LockEntry.empty]
  | some e =>
    simp only [Option.getD_some, Option.mem_def, Option.some.injEq, exists_eq_left']
    split <;> rfl

lemma holds_dequeue {h : Hold} : (locks.dequeue id xid).Holds h ↔ locks.Holds h := by
  refine holds_update_same fun x m => ?_
  unfold Holds
  cases locks id <;> simp

lemma holds_gc {h : Hold} : locks.gc.Holds h ↔ locks.Holds h := by
  unfold Holds gc
  refine exists_congr fun e => ?_
  simp only [Option.mem_filter_iff, and_assoc]
  refine and_congr_right fun _ => and_iff_right_of_imp fun hlook => ?_
  have hmem : h.xid ∈ e.holders.keys := AList.lookup_isSome.1 (by simp [hlook])
  cases hkeys : e.holders.keys <;> simp_all

lemma holds_releaseAll {h : Hold} :
    (locks.releaseAll xid).Holds h ↔ locks.Holds h ∧ h.xid ≠ xid := by
  rw [releaseAll, holds_gc]
  dsimp only [Holds]
  cases locks h.id with
  | none => simp
  | some e =>
    by_cases hx : h.xid = xid
    · simp [← hx]
    · simp [hx, AList.lookup_erase_ne hx]

lemma holds_grant {h : Hold} : (locks.grant r).Holds h ↔
    if h.id = r.id ∧ h.xid = r.xid then
      (h.mode = .exclusive ↔ r.mode = .exclusive ∨ locks.Holds { r with mode := .exclusive })
    else locks.Holds h := by
  unfold grant
  rw [holds_update]
  by_cases hid : h.id = r.id
  · by_cases hx : h.xid = r.xid
    · have hslot : locks.Holds { r with mode := .exclusive } ↔
          (((locks r.id).getD .empty).holders.lookup r.xid) = some .exclusive := by
        unfold Holds
        cases locks r.id <;> simp [LockEntry.empty]
      rw [if_pos hid, if_pos (And.intro hid hx), hslot, hx]
      simp only [Option.mem_def, Option.some.injEq, exists_eq_left', AList.lookup_insert]
      generalize ((locks r.id).getD .empty).holders.lookup r.xid = slot
      rcases slot with _ | _ | _ <;> cases r.mode <;> cases h.mode <;> simp
    · rw [if_pos hid, if_neg (not_and_of_not_right _ hx)]
      simp only [Option.mem_def, Option.some.injEq, exists_eq_left', AList.lookup_insert_ne hx]
      unfold Holds
      rw [hid]
      cases locks r.id <;> simp [LockEntry.empty]
  · rw [if_neg hid, if_neg fun h => hid h.1]

variable {t : LockTable}

lemma holds_iff {e : LockEntry} (he : locks id = some e) {m : LockMode} :
    locks.Holds ⟨id, xid, m⟩ ↔ ⟨xid, m⟩ ∈ e.holders.entries := by
  unfold Holds
  rw [he, ← AList.mem_lookup_iff]
  simp

lemma Represents.canGrant_eq (h : locks.Represents t) (r : Hold) :
    locks.canGrant r = t.canGrant r := by
  rw [Bool.eq_iff_iff, LockTable.canGrant_iff]
  unfold canGrant
  cases he : locks r.id with
  | none =>
    refine iff_of_true rfl fun g hg hid => ?_
    obtain ⟨e, hmem, -⟩ := (h g).1 hg
    rw [hid, he] at hmem
    cases hmem
  | some e =>
    have hentries : (∀ g ∈ t.holders, g.id = r.id →
        g.xid = r.xid ∨ r.mode = .shared ∧ g.mode = .shared) ↔
        ∀ x m, ⟨x, m⟩ ∈ e.holders.entries → x = r.xid ∨ r.mode = .shared ∧ m = .shared := by
      constructor
      · exact fun hall x m hmem => hall ⟨r.id, x, m⟩ ((h _).2 ((holds_iff he).2 hmem)) rfl
      · rintro hall ⟨id, x, m⟩ hg rfl
        exact hall x m ((holds_iff he).1 ((h _).1 hg))
    rw [hentries]
    cases r.mode with
    | shared => simp [Sigma.forall]
    | exclusive => simp [AList.keys, List.mem_keys]

lemma Represents.mem_blockers_iff (h : locks.Represents t) (r : Hold) (y : Nat) :
    y ∈ locks.blockers r ↔ y ∈ t.blockers r := by
  rw [LockTable.mem_blockers]
  unfold blockers
  cases he : locks r.id with
  | none =>
    refine iff_of_false not_mem_nil ?_
    rintro ⟨g, hg, hid, -⟩
    obtain ⟨e, hmem, -⟩ := (h g).1 hg
    rw [hid, he] at hmem
    cases hmem
  | some e =>
    simp only [List.mem_map, List.mem_filter, decide_eq_true_eq]
    constructor
    · rintro ⟨⟨x, m⟩, ⟨hmem, hne, hmode⟩, rfl⟩
      exact ⟨⟨r.id, x, m⟩, (h _).2 ((holds_iff he).2 hmem), rfl, hne, hmode, rfl⟩
    · rintro ⟨⟨id, x, m⟩, hg, rfl, hne, hmode, rfl⟩
      exact ⟨⟨x, m⟩, ⟨(holds_iff he).1 ((h _).1 hg), hne, hmode⟩, rfl⟩

lemma Represents.grant (h : locks.Represents t) (r : Hold) :
    (locks.grant r).Represents (t.grant r) := by
  intro g
  rw [holds_grant, LockTable.grant, ← h { r with mode := .exclusive }, ← h g]
  by_cases hsame : g.id = r.id ∧ g.xid = r.xid
  · -- the holder of a record has one mode there
    have huniq : ⟨r.id, r.xid, .shared⟩ ∈ t.holders → ⟨r.id, r.xid, .exclusive⟩ ∉ t.holders := by
      intro hs hx
      obtain ⟨e, he, hlook⟩ := (h _).1 hs
      obtain ⟨e', he', hlook'⟩ := (h _).1 hx
      cases he.symm.trans he'
      cases hlook.symm.trans hlook'
    obtain ⟨id, x, m⟩ := g
    obtain ⟨rfl, rfl⟩ := hsame
    obtain ⟨id, x, m'⟩ := r
    cases m <;> cases m' <;> simp_all <;> grind
  · have hne : g ≠ r := fun heq => hsame (heq ▸ ⟨rfl, rfl⟩)
    rw [if_neg hsame]
    split
    · rfl
    · simp [hne, not_and_or.1 hsame]

lemma Represents.release (h : locks.Represents t) (xid : Nat) :
    (locks.releaseAll xid).Represents (t.release xid) := by
  intro g
  rw [holds_releaseAll, ← h g, LockTable.release, mem_filter, decide_eq_true_eq]

lemma Represents.round {s : Manager} (h : locks.Represents s.table) (r : Hold)
    (policy : WaitPolicy) :
    (locks.round r policy (s.round r policy).2).Represents (s.round r policy).1.table := by
  unfold Entries.round Manager.round
  rw [h.canGrant_eq]
  split
  · exact h.grant r
  · cases policy with
    | noWait => exact h
    | wait =>
      dsimp only
      split
      · rw [if_pos rfl]
        exact fun g => (h g).trans (holds_gc.trans (holds_dequeue.trans holds_enqueue)).symm
      · rw [if_neg (by simp)]
        exact fun g => (h g).trans holds_enqueue.symm

lemma Represents.tryAcquireWriteMany {s : Manager} (h : locks.Represents s.table)
    (ids : List RecordId) (xid : Nat) :
    (locks.tryAcquireWriteMany xid ids).Represents (s.tryAcquireWriteMany ids xid).1.table := by
  have hfold : ∀ (ids : List RecordId) (locks : Entries) (s : Manager), locks.Represents s.table →
      Represents (ids.foldl (fun locks id => locks.grant (Manager.writeLock xid id)) locks)
        (ids.foldl (fun s id => s.setTable (s.table.grant (Manager.writeLock xid id))) s).table := by
    intro ids
    induction ids with
    | nil => exact fun _ _ h => h
    | cons id ids ih => exact fun locks s h => ih _ _ (h.grant _)
  unfold Entries.tryAcquireWriteMany Manager.tryAcquireWriteMany
  simp only [h.canGrant_eq]
  cases hfind : ids.find? fun id => !s.table.canGrant (Manager.writeLock xid id) with
  | none =>
    rw [if_pos (by simpa using hfind)]
    exact hfold ids locks s h
  | some id =>
    rw [if_neg (by simpa using ⟨id, mem_of_find?_eq_some hfind, by simpa using find?_some hfind⟩)]
    exact h

end Entries

/-- The manager with the entries of its table. -/
structure EntryManager where
  manager : Manager
  locks : Entries

def EntryManager.step (s : EntryManager) (a : Action) : Option EntryManager :=
  (s.manager.perform a).map fun p => ⟨p.1, s.locks.perform p.2 a⟩

/-- **The list of holds is what the calls leave in the entries**: both decide and block alike. -/
theorem entries_represent {s : EntryManager}
    (hs : Reached EntryManager.step (fun _ _ => True) ⟨.new, fun _ => none⟩ s) :
    s.locks.Represents s.manager.table ∧ ∀ r,
      s.locks.canGrant r = s.manager.table.canGrant r ∧
        ∀ y, y ∈ s.locks.blockers r ↔ y ∈ s.manager.table.blockers r := by
  have hrep : s.locks.Represents s.manager.table := by
    refine hs.invariant (fun s => s.locks.Represents s.manager.table)
      (fun h => iff_of_false not_mem_nil fun ⟨e, he, _⟩ => nomatch he) fun s a s' h _ hstep => ?_
    obtain ⟨p, hp, rfl⟩ := map_eq_some_iff.1 hstep
    cases a with
    | acquire r policy =>
      cases hp
      exact h.round r policy
    | wake w =>
      obtain ⟨_, ⟨⟩⟩ := ite_none_right_eq_some.1 hp
      exact Entries.Represents.round (s := { s.manager with parked := s.manager.parked.erase w }) h
        w.request .wait
    | tryAcquireWriteMany ids xid =>
      cases hp
      exact h.tryAcquireWriteMany ids xid
    | releaseAll xid =>
      cases hp
      exact h.release xid
  exact ⟨hrep, fun r => ⟨hrep.canGrant_eq r, hrep.mem_blockers_iff r⟩⟩

end UniDb.Locks
