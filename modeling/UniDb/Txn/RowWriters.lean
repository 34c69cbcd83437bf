import UniDb.Lib.Run
import UniDb.Storage.Heap

/-!
# Concurrent writers of one row version (`heap.rs`)

Every section of a heap write that holds a page latch is one step. The single-row paths (`update`,
`delete`, same-page HOT) lock the row and then check and stamp its `xmax` in one section. A
cross-page HOT update (`try_hot_insert`) also locks the row, but checks in one section and stamps in
a later one without looking again. The batch paths (`delete_many`, `update_many`,
`hot_update_many`) check and stamp a page's rows in one section and lock nothing.
-/

namespace UniDb.RowWriters

open Option

structure State where
  xmax : RowId → Nat
  /-- The holder of each row's lock. -/
  locks : RowId → Option Nat
  /-- Cross-page HOT updates between their check and their stamp. -/
  pending : List (Nat × RowId)
  /-- Every stamp made so far: the operation that made it succeeds. -/
  won : List (RowId × Nat)

def init : State := ⟨fun _ => 0, fun _ => none, [], []⟩

inductive Action where
  | lock (x : Nat) (r : RowId)
  | stamp (x : Nat) (r : RowId)
  | hotCheck (x : Nat) (r : RowId)
  | hotStamp (x : Nat) (r : RowId)
  | batch (x page : Nat) (slots : List Nat)
  | commit (x : Nat)
deriving DecidableEq, Repr

def pageRows (page : Nat) (slots : List Nat) : List RowId := slots.map (⟨page, ·⟩)

namespace State

variable (s : State)

def stampRows (x : Nat) (rows : List RowId) : State :=
  { s with
    xmax := fun r => if r ∈ rows then x else s.xmax r
    won := rows.map (·, x) ++ s.won }

def step : Action → Option State
  -- `try_acquire_write`; a transaction id is never 0
  | .lock x r =>
    if x ≠ 0 ∧ (s.locks r = none ∨ s.locks r = some x) then
      some { s with locks := fun r' => if r' = r then some x else s.locks r' }
    else none
  | .stamp x r => if s.locks r = some x ∧ s.xmax r = 0 then some (s.stampRows x [r]) else none
  | .hotCheck x r =>
    if s.locks r = some x ∧ s.xmax r = 0 then some { s with pending := (x, r) :: s.pending }
    else none
  | .hotStamp x r =>
    if (x, r) ∈ s.pending then
      some { s.stampRows x [r] with pending := s.pending.erase (x, r) }
    else none
  | .batch x page slots =>
    if x ≠ 0 ∧ ∀ r ∈ pageRows page slots, s.xmax r = 0 then
      some (s.stampRows x (pageRows page slots))
    else none
  -- `release_all`; the transaction's operations are over
  | .commit x =>
    if ∀ p ∈ s.pending, p.1 ≠ x then
      some { s with locks := fun r => if s.locks r = some x then none else s.locks r }
    else none

def Free (x : Nat) (r : RowId) : Prop := s.xmax r = 0 ∨ s.xmax r = x

/-- A stamped version keeps its `xmax`, and all stamps of a version are one transaction's. -/
def FirstWriterWins : Prop :=
  (∀ r x y, (r, x) ∈ s.won → (r, y) ∈ s.won → x = y) ∧ ∀ r x, (r, x) ∈ s.won → s.xmax r = x

end State

/-- A batch leaves alone a row that another transaction has locked. -/
def LockFree (s : State) : Action → Prop
  | .batch x page slots => ∀ r ∈ pageRows page slots, s.locks r = none ∨ s.locks r = some x
  | _ => True

instance {s : State} (a : Action) : Decidable (LockFree s a) := by
  cases a <;> dsimp only [LockFree] <;> infer_instance

structure Inv (s : State) : Prop where
  locked : ∀ r x, s.locks r = some x → x ≠ 0
  won : ∀ r x, (r, x) ∈ s.won → x ≠ 0 ∧ s.xmax r = x
  pending : ∀ x r, (x, r) ∈ s.pending → s.locks r = some x ∧ s.Free x r

variable {s s' : State} {a : Action} {x : Nat} {rows : List RowId}

lemma Inv.stampRows (h : Inv s) (hx : x ≠ 0) (hfree : ∀ r ∈ rows, s.Free x r)
    (hlock : ∀ r ∈ rows, s.locks r = none ∨ s.locks r = some x) :
    Inv (s.stampRows x rows) ∧ ∀ r, s.xmax r ≠ 0 → (s.stampRows x rows).xmax r = s.xmax r := by
  have hkept : ∀ r, s.xmax r ≠ 0 → (s.stampRows x rows).xmax r = s.xmax r := fun r hr => by
    by_cases hmem : r ∈ rows
    · simp [State.stampRows, (hfree r hmem).resolve_left hr]
    · simp [State.stampRows, hmem]
  refine ⟨⟨h.locked, fun r y hy => ?_, fun y r hy => ?_⟩, hkept⟩
  · rcases List.mem_append.1 hy with hy | hy
    · obtain ⟨r', hr', he⟩ := List.mem_map.1 hy
      cases he
      simp [State.stampRows, hr', hx]
    · obtain ⟨hne, he⟩ := h.won r y hy
      exact ⟨hne, (hkept r (he ▸ hne)).trans he⟩
  · obtain ⟨hlocked, hfree'⟩ := h.pending y r hy
    refine ⟨hlocked, ?_⟩
    by_cases hmem : r ∈ rows
    · -- the row's lock is `y`'s, so `y` is the one who stamps
      have := hlock r hmem
      simp_all [State.stampRows, State.Free]
    · simpa [State.stampRows, State.Free, hmem] using hfree'

lemma Inv.step (h : Inv s) (hok : LockFree s a) (hs : s.step a = some s') :
    Inv s' ∧ ∀ r, s.xmax r ≠ 0 → s'.xmax r = s.xmax r := by
  cases a with
  | lock x r =>
    obtain ⟨⟨hx, hr⟩, ⟨⟩⟩ := ite_none_right_eq_some.1 hs
    refine ⟨⟨fun r' y hy => ?_, h.won, fun y r' hy => ?_⟩, fun _ _ => rfl⟩
    · by_cases he : r' = r
      · simp_all
      · exact h.locked r' y (by simpa [he] using hy)
    · obtain ⟨hlocked, hfree⟩ := h.pending y r' hy
      by_cases he : r' = r
      · simp_all [State.Free]
      · exact ⟨by simpa [he] using hlocked, hfree⟩
  | stamp x r =>
    obtain ⟨⟨hr, h0⟩, ⟨⟩⟩ := ite_none_right_eq_some.1 hs
    exact h.stampRows (h.locked r x hr) (by simp [State.Free, h0]) (by simp [hr])
  | hotCheck x r =>
    obtain ⟨⟨hr, h0⟩, ⟨⟩⟩ := ite_none_right_eq_some.1 hs
    refine ⟨⟨h.locked, h.won, fun y r' hy => ?_⟩, fun _ _ => rfl⟩
    rcases List.mem_cons.1 hy with he | hy
    · cases he
      exact ⟨hr, .inl h0⟩
    · exact h.pending y r' hy
  | hotStamp x r =>
    obtain ⟨hmem, ⟨⟩⟩ := ite_none_right_eq_some.1 hs
    obtain ⟨hr, hfree⟩ := h.pending x r hmem
    have hone : ∀ r' ∈ [r], s.Free x r' := by simpa using hfree
    obtain ⟨hI, hkept⟩ := h.stampRows (h.locked r x hr) hone (by simp [hr])
    exact ⟨⟨hI.locked, hI.won, fun y r' hy => hI.pending y r' (List.mem_of_mem_erase hy)⟩, hkept⟩
  | batch x page slots =>
    obtain ⟨⟨hx, h0⟩, ⟨⟩⟩ := ite_none_right_eq_some.1 hs
    exact h.stampRows hx (fun r hr => .inl (h0 r hr)) hok
  | commit x =>
    obtain ⟨hdone, ⟨⟩⟩ := ite_none_right_eq_some.1 hs
    refine ⟨⟨fun r y hy => h.locked r y (by grind), h.won, fun y r hy => ?_⟩, fun _ _ => rfl⟩
    obtain ⟨hlocked, hfree⟩ := h.pending y r hy
    have := hdone _ hy
    exact ⟨by simp_all, hfree⟩

/-- All stamps of a version are one transaction's, and no step that meets `ok` overwrites one. -/
def State.NoLostUpdate (s : State) (ok : State → Action → Prop) : Prop :=
  s.FirstWriterWins ∧ ∀ a s', ok s a → s.step a = some s' →
    ∀ r, s.xmax r ≠ 0 → s'.xmax r = s.xmax r

/-- **No lost update between heap writers**, in every run whose batches leave locked rows alone. -/
theorem noLostUpdate_of_lockFree (hs : Reached State.step LockFree init s) :
    s.NoLostUpdate LockFree := by
  have hI : Inv s := hs.invariant Inv ⟨nofun, nofun, nofun⟩ fun _ _ _ h hok hs => (h.step hok hs).1
  refine ⟨⟨fun r x y hx hy => ?_, fun r x hx => (hI.won r x hx).2⟩,
    fun a s' hok h => (hI.step hok h).2⟩
  exact (hI.won r x hx).2.symm.trans (hI.won r y hy).2

def apartRun : List Action :=
  [.lock 1 ⟨0, 0⟩, .hotCheck 1 ⟨0, 0⟩, .batch 2 0 [1], .hotStamp 1 ⟨0, 0⟩, .commit 1]

theorem noLostUpdate_of_lockFree_apartRun :
    (runState State.step init apartRun).NoLostUpdate LockFree :=
  noLostUpdate_of_lockFree (RunAllowed.reached_runState (by decide) (by decide))

/-- A batch stamps the row between the check and the stamp of a cross-page HOT update. -/
theorem lostUpdate :
    ¬∀ s, Reached State.step (fun _ _ => True) init s → s.NoLostUpdate fun _ _ => True := by
  intro h
  have := (h (runState State.step init [.lock 1 ⟨0, 0⟩, .hotCheck 1 ⟨0, 0⟩, .batch 2 0 [0],
    .hotStamp 1 ⟨0, 0⟩]) (RunAllowed.reached_runState (by decide) (by decide))).1.1 ⟨0, 0⟩ 1 2
  exact absurd (this (by decide) (by decide)) (by decide)

end UniDb.RowWriters
