import UniDb.Lib.Run

/-!
# Log sequence numbers across restarts (`wal.rs`, `checkpoint.rs`, `recovery.rs`)

`Wal::open` continues the LSNs from `wal_tail_lsn` of the control file, which only a checkpoint
writes. `lsns_fresh`: no LSN is given out twice if every restart finds nothing above it.
-/

namespace UniDb.Restart

open List

structure State where
  /-- Those of the records in the log, in segment order. -/
  log : List Nat
  nextLsn : Nat
  /-- Those of the data pages in the buffer pool, and of the same pages on disk. -/
  pages : List Nat
  disk : List Nat
  /-- `wal_tail_lsn` of the control file. -/
  walTail : Nat
deriving DecidableEq, Repr

def init : State := ⟨[], 1, [], [], 0⟩

inductive Action where
  | append
  | allocPage
  /-- A page is stamped with the LSN of a logged record. -/
  | stamp (page lsn : Nat)
  | flush (page : Nat)
  /-- `drop` records are in segments that the truncation removes. -/
  | checkpoint (drop : Nat)
  /-- The engine stops, by a crash or not, and is opened again: `kept` records are left of the log,
  and recovery stamps pages with LSNs of those. -/
  | restart (kept : Nat) (redone : List (Nat × Nat))
deriving DecidableEq, Repr

def step (s : State) : Action → Option State
  | .append => some { s with log := s.log ++ [s.nextLsn], nextLsn := s.nextLsn + 1 }
  | .allocPage => some { s with pages := s.pages ++ [0], disk := s.disk ++ [0] }
  | .stamp page lsn =>
    if lsn ∈ s.log then some { s with pages := s.pages.set page lsn } else none
  | .flush page => s.pages[page]?.map fun lsn => { s with disk := s.disk.set page lsn }
  | .checkpoint drop =>
    some { s with
      disk := s.pages, log := (s.log ++ [s.nextLsn]).drop drop, nextLsn := s.nextLsn + 1
      walTail := s.nextLsn }
  | .restart kept redone =>
    if ∀ p ∈ redone, p.2 ∈ s.log.take kept then
      let disk := redone.foldl (fun disk p => disk.set p.1 p.2) s.disk
      some { s with log := s.log.take kept, nextLsn := s.walTail + 1, pages := disk, disk }
    else none

/-- A restart finds neither a record nor a page with an LSN above the control file's. -/
def TailKnown (s : State) : Action → Prop
  | .restart kept _ => ∀ lsn ∈ s.log.take kept ++ s.disk, lsn ≤ s.walTail
  | _ => True

instance {s : State} (a : Action) : Decidable (TailKnown s a) := by
  cases a <;> dsimp only [TailKnown] <;> infer_instance

/-- The log's LSNs increase, and the next one is above those of the log and of every page. -/
structure Fresh (s : State) : Prop where
  pos : 0 < s.nextLsn
  increasing : s.log.Pairwise (· < ·)
  log : ∀ lsn ∈ s.log, lsn < s.nextLsn
  pages : ∀ lsn ∈ s.pages ++ s.disk, lsn < s.nextLsn

variable {s s' : State} {a : Action}

lemma mem_redone {redone : List (Nat × Nat)} {disk : List Nat} {lsn : Nat}
    (h : lsn ∈ redone.foldl (fun disk p => disk.set p.1 p.2) disk) :
    lsn ∈ disk ∨ ∃ p ∈ redone, p.2 = lsn := by
  induction redone generalizing disk with
  | nil => exact .inl h
  | cons p redone ih =>
    rcases ih h with h | ⟨q, hq, he⟩
    · exact (mem_or_eq_of_mem_set h).imp_right fun he => ⟨p, .head _, he.symm⟩
    · exact .inr ⟨q, .tail _ hq, he⟩

lemma Fresh.step (h : Fresh s) (hok : TailKnown s a) (hs : step s a = some s') : Fresh s' := by
  have hlog := h.log
  have hpages := h.pages
  have happend : (s.log ++ [s.nextLsn]).Pairwise (· < ·) :=
    pairwise_append.2 ⟨h.increasing, pairwise_singleton .., by simpa using hlog⟩
  have hall : ∀ lsn ∈ s.log ++ [s.nextLsn], lsn < s.nextLsn + 1 := by grind
  simp only [mem_append] at hpages
  cases a with
  | append =>
    cases hs
    exact ⟨Nat.succ_pos _, happend, hall, fun lsn hlsn => Nat.lt_succ_of_lt (h.pages lsn hlsn)⟩
  | allocPage =>
    cases hs
    exact ⟨h.pos, h.increasing, hlog, by grind [h.pos]⟩
  | stamp page lsn =>
    obtain ⟨hlsn, ⟨⟩⟩ := Option.ite_none_right_eq_some.1 hs
    exact ⟨h.pos, h.increasing, hlog, by grind [mem_or_eq_of_mem_set]⟩
  | flush page =>
    obtain ⟨lsn, hlsn, rfl⟩ := Option.map_eq_some_iff.1 hs
    exact ⟨h.pos, h.increasing, hlog, by grind [mem_or_eq_of_mem_set]⟩
  | checkpoint drop =>
    cases hs
    exact ⟨Nat.succ_pos _, happend.sublist (drop_sublist ..),
      fun lsn hlsn => hall lsn (mem_of_mem_drop hlsn), by grind⟩
  | restart kept redone =>
    obtain ⟨hredone, ⟨⟩⟩ := Option.ite_none_right_eq_some.1 hs
    simp only [TailKnown, mem_append] at hok
    refine ⟨Nat.succ_pos _, h.increasing.sublist (take_sublist ..),
      fun lsn hlsn => Nat.lt_succ_of_le (hok lsn (.inl hlsn)), fun lsn hlsn => ?_⟩
    rcases mem_redone ((mem_append.1 hlsn).elim id id) with hlsn | ⟨p, hp, rfl⟩
    · exact Nat.lt_succ_of_le (hok lsn (.inr hlsn))
    · exact Nat.lt_succ_of_le (hok p.2 (.inl (hredone p hp)))

/-- **No LSN is given out twice**, in every run whose restarts find nothing above `wal_tail_lsn`. -/
theorem lsns_fresh (hs : Reached step TailKnown init s) : Fresh s :=
  hs.invariant Fresh ⟨Nat.one_pos, .nil, nofun, nofun⟩ fun _ _ _ h hok => h.step hok

def checkpointedRun : List Action :=
  [.allocPage, .append, .stamp 0 1, .checkpoint 0, .restart 2 [(0, 1)], .append]

theorem lsns_fresh_checkpointedRun : Fresh (runState step init checkpointedRun) :=
  lsns_fresh (RunAllowed.reached_runState (by decide) (by decide))

/-- Without a checkpoint the first LSN is given out again. -/
theorem lsns_repeat : ¬∀ s, Reached step (fun _ _ => True) init s → Fresh s := by
  intro h
  have := (h (runState step init [.append, .restart 1 [], .append])
    (RunAllowed.reached_runState (by decide) (by decide))).increasing
  exact absurd this (by decide)

end UniDb.Restart
