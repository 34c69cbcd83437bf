import UniDb.Base

/-!
# Snapshots and visibility (`mvcc.rs`)

Aborted transactions are undone physically, so a snapshot only distinguishes transactions that
had finished when it was taken from those still running: every finished id counts as committed.
-/

namespace UniDb

structure Snapshot where
  xmin : Nat
  xmax : Nat
  activeXids : List Nat
deriving DecidableEq, Repr

/-- Was `xid` committed as of this snapshot's point in time? -/
def Snapshot.isCommittedAtSnapshot (s : Snapshot) (xid : Nat) : Bool :=
  if xid = 0 then false
  else if s.xmax ≤ xid then false
  else if xid < s.xmin then true
  else !s.activeXids.contains xid

/-- Is a tuple with the given `(xmin, xmax)` visible to `selfXid` under `snapshot`? -/
def isVisible (tupleXmin tupleXmax : Nat) (snapshot : Snapshot) (selfXid : Nat) : Bool :=
  let inserterVisible := tupleXmin == selfXid || snapshot.isCommittedAtSnapshot tupleXmin
  if !inserterVisible then false
  else if tupleXmax = 0 then true
  else !(tupleXmax == selfXid || snapshot.isCommittedAtSnapshot tupleXmax)

/-- Is a version with this `xmax` dead to every current and future snapshot? -/
def isReclaimable (tupleXmax horizon : Nat) : Bool := tupleXmax != 0 && tupleXmax < horizon

/-- `selfXid` counts `xid` as having taken effect: it is its own, or committed as of the
snapshot. -/
def Snapshot.sees (s : Snapshot) (selfXid xid : Nat) : Bool :=
  xid == selfXid || s.isCommittedAtSnapshot xid

lemma isVisible_iff {xmin xmax : Nat} {s : Snapshot} {self : Nat} :
    isVisible xmin xmax s self = true ↔
      s.sees self xmin = true ∧ (xmax = 0 ∨ s.sees self xmax = false) := by
  unfold isVisible Snapshot.sees
  by_cases hmin : (xmin == self || s.isCommittedAtSnapshot xmin) = true
  · by_cases hmax : xmax = 0
    · simp [hmax]
    · simp [hmax]
  · simp [hmin]

lemma isCommittedAtSnapshot_zero (s : Snapshot) : s.isCommittedAtSnapshot 0 = false := by
  simp [Snapshot.isCommittedAtSnapshot]

end UniDb
