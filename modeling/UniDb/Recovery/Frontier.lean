import UniDb.Lib.Run

/-!
# The durable frontier of the log (`wal.rs`)

Appends, segment rotation, the background sealer and group commit, each critical section and each
`sync_all` as one step. A segment that is rotated away is synced by the sealer alone; a committer
syncs the active segment and then publishes its tail as `durable_lsn`. `frontier_honest`: everything
below the frontier has been synced, if the tail is captured only when the sealer has nothing left to
do.
-/

namespace UniDb.Frontier

open Nat Option

/-- A caller of `sync_up_to` that holds the flush lock: before and after `wait_until_durable`, with
the active segment and its tail captured, and with that segment synced. -/
inductive Leader where
  | waiting (target : Nat)
  | waited (target : Nat)
  | captured (target seg lsn : Nat)
  | synced (target lsn : Nat)
deriving DecidableEq, Repr

structure State where
  nextLsn : Nat
  seg : Nat
  segOf : Nat → Nat
  /-- Records in a file of which a `sync_all` completed that started after they were flushed. -/
  covered : Nat → Bool
  durableLsn : Nat
  /-- `SealerState`: the segment handed over with its last LSN, what is known to be done, and
  whether a `sync_all` failed. -/
  pending : Option (Nat × Nat)
  doneLsn : Nat
  failed : Bool
  /-- What the sealer thread has taken, and what it has synced but not published. -/
  working : Option (Nat × Nat)
  unpublished : Option Nat
  leader : Option Leader
  returned : List Nat

def init : State := ⟨1, 0, fun _ => 0, fun _ => false, 0, none, 0, false, none, none, none, []⟩

inductive Action where
  | append
  | rotate
  | sealerTake
  | sealerSync (ok : Bool)
  | sealerPublish
  | syncUpTo (target : Nat)
  | sealerWait
  | recheck
  | capture
  | leaderSync (ok : Bool)
  | leaderPublish
  | fsyncLocked
deriving DecidableEq, Repr

namespace State

variable (s : State)

def cover (seg lsn : Nat) : State :=
  { s with covered := fun l => s.covered l || (s.segOf l == seg && decide (l ≤ lsn)) }

def tail : Nat := s.nextLsn - 1

def step : Action → Option State
  | .append =>
    some { s with
      nextLsn := s.nextLsn + 1, segOf := fun l => if l = s.nextLsn then s.seg else s.segOf l }
  | .rotate =>
    -- the rotation waits while a segment is pending
    if s.pending = none then some { s with pending := some (s.seg, s.tail), seg := s.seg + 1 }
    else none
  | .sealerTake =>
    if s.working = none ∧ s.unpublished = none then
      s.pending.map fun p => { s with pending := none, working := some p }
    else none
  | .sealerSync ok => s.working.map fun p =>
    if ok then { s.cover p.1 p.2 with working := none, unpublished := some p.2 }
    else { s with working := none, failed := true }
  | .sealerPublish =>
    s.unpublished.map fun lsn => { s with unpublished := none, doneLsn := max s.doneLsn lsn }
  | .syncUpTo target =>
    -- the target has been appended
    if s.nextLsn ≤ target then none
    else if target ≤ s.durableLsn then some { s with returned := target :: s.returned }
    else if s.leader = none then some { s with leader := some (.waiting target) }
    else none
  | .sealerWait =>
    match s.leader with
    | some (.waiting target) =>
      if s.failed then some { s with leader := none }
      else if target ≤ s.doneLsn ∨ s.pending = none then
        some { s with leader := some (.waited target) }
      else none
    | _ => none
  | .recheck =>
    match s.leader with
    | some (.waited target) =>
      if target ≤ s.durableLsn then
        some { s with leader := none, returned := target :: s.returned }
      else none
    | _ => none
  | .capture =>
    match s.leader with
    | some (.waited target) => some { s with leader := some (.captured target s.seg s.tail) }
    | _ => none
  | .leaderSync ok =>
    match s.leader with
    | some (.captured target seg lsn) =>
      if ok then some { s.cover seg lsn with leader := some (.synced target lsn) }
      else some { s with leader := none }
    | _ => none
  | .leaderPublish =>
    match s.leader with
    | some (.synced target lsn) =>
      some { s with
        leader := none, durableLsn := max s.durableLsn lsn, returned := target :: s.returned }
    | _ => none
  | .fsyncLocked => some { s.cover s.seg s.tail with durableLsn := s.tail }

/-- Every record from 1 to `lsn` is covered. -/
def CoveredTo (lsn : Nat) : Prop := ∀ l, 0 < l → l ≤ lsn → s.covered l = true

/-- Everything below the frontier is covered, and everything a `sync_up_to` that returned vouches
for. -/
def Honest : Prop := s.CoveredTo s.durableLsn ∧ ∀ target ∈ s.returned, s.CoveredTo target

/-- The sealer has nothing pending and nothing in work, and has not failed. -/
def Idle : Prop := s.pending = none ∧ s.working = none ∧ s.failed = false

instance : Decidable s.Idle := inferInstanceAs (Decidable (_ ∧ _ ∧ _))

end State

/-- The tail is captured for the frontier only when the sealer is idle. -/
def SealerIdle (s : State) : Action → Prop
  | .capture | .fsyncLocked => s.Idle
  | _ => True

instance {s : State} (a : Action) : Decidable (SealerIdle s a) := by
  cases a <;> dsimp only [SealerIdle] <;> infer_instance

/-- What holds of a committer: its target is in the log, what it captured is covered but for the
captured segment, and what it synced is covered. -/
def Leader.Ok (s : State) : Leader → Prop
  | .waiting target | .waited target => target < s.nextLsn
  | .captured target seg lsn => target ≤ lsn ∧ lsn < s.nextLsn ∧
      ∀ l, 0 < l → l ≤ lsn → s.covered l = true ∨ s.segOf l = seg
  | .synced target lsn => target ≤ lsn ∧ lsn < s.nextLsn ∧ s.CoveredTo lsn

structure Inv (s : State) : Prop where
  pos : 0 < s.nextLsn
  durable : s.durableLsn < s.nextLsn
  honest : s.Honest
  segOf : ∀ l < s.nextLsn, s.segOf l ≤ s.seg
  /-- A sealed segment is pending, in work or covered. -/
  sealed : s.failed = false → ∀ l, 0 < l → l < s.nextLsn → s.segOf l < s.seg →
    s.covered l = true ∨ ∃ p, (s.pending = some p ∨ s.working = some p) ∧ p.1 = s.segOf l ∧ l ≤ p.2
  leader : ∀ a ∈ s.leader, a.Ok s

variable {s s' : State} {a : Action} {l lsn seg : Nat}

lemma covered_cover (h : s.covered l = true) : (s.cover seg lsn).covered l = true := by
  simp [State.cover, h]

lemma cover_covered (hseg : s.segOf l = seg) (hl : l ≤ lsn) :
    (s.cover seg lsn).covered l = true := by
  simp [State.cover, hseg, hl]

lemma Inv.cover (h : Inv s) (seg lsn : Nat) : Inv (s.cover seg lsn) where
  pos := h.pos
  durable := h.durable
  honest := ⟨fun l h0 hl => covered_cover (h.honest.1 l h0 hl),
    fun t ht l h0 hl => covered_cover (h.honest.2 t ht l h0 hl)⟩
  segOf := h.segOf
  sealed := fun hf l h0 hl hs => (h.sealed hf l h0 hl hs).imp_left covered_cover
  leader := fun a ha => by
    have := h.leader a ha
    cases a with
    | waiting t => exact this
    | waited t => exact this
    | captured t seg lsn => exact ⟨this.1, this.2.1,
        fun l h0 hl => (this.2.2 l h0 hl).imp_left covered_cover⟩
    | synced t lsn => exact ⟨this.1, this.2.1, fun l h0 hl => covered_cover (this.2.2 l h0 hl)⟩

/-- With the sealer idle only the active segment is not covered. -/
lemma Inv.idle (h : Inv s) (hidle : s.Idle) (h0 : 0 < l) (hl : l ≤ s.tail) :
    s.covered l = true ∨ s.segOf l = s.seg := by
  have hpos := h.pos
  have hlt : l < s.nextLsn := by rw [State.tail] at hl; omega
  rcases lt_or_eq_of_le (h.segOf l hlt) with hseg | hseg
  · rcases h.sealed hidle.2.2 l h0 hlt hseg with hc | ⟨p, hp, _⟩
    · exact .inl hc
    · simp [hidle.1, hidle.2.1] at hp
  · exact .inr hseg

lemma CoveredTo.max {m n : Nat} (hm : s.CoveredTo m) (hn : s.CoveredTo n) : s.CoveredTo (max m n) :=
  fun l h0 hl => (le_max_iff.1 hl).elim (hm l h0) (hn l h0)

lemma Inv.append (h : Inv s) (hs : s.step .append = some s') : Inv s' := by
  cases hs
  have hsame : ∀ l < s.nextLsn, (if l = s.nextLsn then s.seg else s.segOf l) = s.segOf l :=
    fun l hl => if_neg hl.ne
  refine ⟨succ_pos _, lt_succ_of_lt h.durable, h.honest, fun l hl => ?_,
    fun hf l h0 hl hseg => ?_, fun a ha => ?_⟩
  · have := h.segOf l
    dsimp only at hl ⊢
    split <;> omega
  · have hlt : l < s.nextLsn := by
      by_contra hge
      have : l = s.nextLsn := by dsimp only at hl; omega
      simp [this] at hseg
    simp only [hsame l hlt] at hseg ⊢
    exact h.sealed hf l h0 hlt hseg
  · have := h.leader a ha
    cases a with
    | waiting t | waited t => exact lt_succ_of_lt this
    | captured t seg lsn =>
      refine ⟨this.1, lt_succ_of_lt this.2.1, fun l h0 hl => ?_⟩
      have hlt : l < s.nextLsn := lt_of_le_of_lt hl this.2.1
      simpa only [hsame l hlt] using this.2.2 l h0 hl
    | synced t lsn => exact ⟨this.1, lt_succ_of_lt this.2.1, this.2.2⟩

lemma Inv.rotate (h : Inv s) (hs : s.step .rotate = some s') : Inv s' := by
  obtain ⟨hpending, ⟨⟩⟩ := ite_none_right_eq_some.1 hs
  refine ⟨h.pos, h.durable, h.honest, fun l hl => le_succ_of_le (h.segOf l hl),
    fun hf l h0 hl hseg => ?_, h.leader⟩
  rcases lt_or_eq_of_le (h.segOf l hl) with hlt | heq
  · rcases h.sealed hf l h0 hl hlt with hc | ⟨p, hp | hp, hrest⟩
    · exact .inl hc
    · simp [hpending] at hp
    · exact .inr ⟨p, .inr hp, hrest⟩
  · exact .inr ⟨_, .inl rfl, heq.symm, by dsimp only [State.tail] at hl ⊢; omega⟩

lemma Inv.sealer (h : Inv s) (ha : a = .sealerTake ∨ (∃ ok, a = .sealerSync ok) ∨
    a = .sealerPublish) (hs : s.step a = some s') : Inv s' := by
  rcases ha with rfl | ⟨ok, rfl⟩ | rfl
  · simp only [State.step, ite_none_right_eq_some, map_eq_some_iff] at hs
    obtain ⟨⟨hw, _⟩, p, hp, rfl⟩ := hs
    refine ⟨h.pos, h.durable, h.honest, h.segOf, fun hf l h0 hl hseg => ?_, h.leader⟩
    rcases h.sealed hf l h0 hl hseg with hc | ⟨q, hq, hrest⟩
    · exact .inl hc
    · refine .inr ⟨q, .inr ?_, hrest⟩
      simpa [hp, hw] using hq
  · obtain ⟨p, hp, rfl⟩ := map_eq_some_iff.1 hs
    cases ok with
    | false => exact ⟨h.pos, h.durable, h.honest, h.segOf, fun hf => (nomatch hf), h.leader⟩
    | true =>
      have hc := h.cover p.1 p.2
      refine ⟨hc.pos, hc.durable, hc.honest, hc.segOf, fun hf l h0 hl hseg => ?_, hc.leader⟩
      rcases h.sealed hf l h0 hl hseg with hcov | ⟨q, hq | hq, he, hle⟩
      · exact .inl (covered_cover hcov)
      · exact .inr ⟨q, .inl hq, he, hle⟩
      · cases hp.symm.trans hq
        exact .inl (cover_covered he.symm hle)
  · obtain ⟨lsn, _, rfl⟩ := map_eq_some_iff.1 hs
    exact ⟨h.pos, h.durable, h.honest, h.segOf, h.sealed, h.leader⟩

lemma Inv.of_leader (h : Inv s) {leader : Option Leader} {durableLsn : Nat} {returned : List Nat}
    (hdurable : durableLsn < s.nextLsn) (hcovered : s.CoveredTo durableLsn)
    (hreturned : ∀ target ∈ returned, s.CoveredTo target) (hleader : ∀ a ∈ leader, a.Ok s) :
    Inv { s with leader, durableLsn, returned } :=
  ⟨h.pos, hdurable, ⟨hcovered, hreturned⟩, h.segOf, h.sealed, hleader⟩

lemma Inv.step (h : Inv s) (hok : SealerIdle s a) (hs : s.step a = some s') : Inv s' := by
  have hpos := h.pos
  have hreturned : ∀ t ≤ s.durableLsn, ∀ t' ∈ t :: s.returned, s.CoveredTo t' := by
    intro t ht t' ht'
    rcases List.mem_cons.1 ht' with rfl | ht'
    · exact fun l h0 hl => h.honest.1 l h0 (hl.trans ht)
    · exact h.honest.2 t' ht'
  cases a with
  | append => exact h.append hs
  | rotate => exact h.rotate hs
  | sealerTake => exact h.sealer (.inl rfl) hs
  | sealerSync ok => exact h.sealer (.inr (.inl ⟨ok, rfl⟩)) hs
  | sealerPublish => exact h.sealer (.inr (.inr rfl)) hs
  | syncUpTo t =>
    simp only [State.step] at hs
    split_ifs at hs with hlt hle hfree <;> cases hs
    · exact h.of_leader h.durable h.honest.1 (hreturned t hle) h.leader
    · exact h.of_leader h.durable h.honest.1 h.honest.2 fun a ha => by
        cases ha
        exact Nat.lt_of_not_le hlt
  | sealerWait =>
    simp only [State.step] at hs
    split at hs
    · rename_i t ht
      have ht := h.leader _ ht
      split_ifs at hs <;> cases hs
      · exact h.of_leader h.durable h.honest.1 h.honest.2 nofun
      · exact h.of_leader h.durable h.honest.1 h.honest.2 fun a ha => by cases ha; exact ht
    · cases hs
  | recheck =>
    simp only [State.step] at hs
    split at hs
    · obtain ⟨hle, ⟨⟩⟩ := ite_none_right_eq_some.1 hs
      exact h.of_leader h.durable h.honest.1 (hreturned _ hle) nofun
    · cases hs
  | capture =>
    simp only [State.step] at hs
    split at hs
    · rename_i t ht
      cases hs
      have ht := h.leader _ ht
      refine h.of_leader h.durable h.honest.1 h.honest.2 fun a ha => ?_
      cases ha
      simp only [Leader.Ok, State.tail] at ht ⊢
      exact ⟨by omega, by omega, fun l h0 hl => h.idle hok h0 hl⟩
    · cases hs
  | leaderSync ok =>
    simp only [State.step] at hs
    split at hs
    · rename_i t seg lsn ht
      have ht := h.leader _ ht
      split_ifs at hs <;> cases hs
      · have hc := h.cover seg lsn
        refine hc.of_leader hc.durable hc.honest.1 hc.honest.2 fun a ha => ?_
        cases ha
        refine ⟨ht.1, ht.2.1, fun l h0 hl => ?_⟩
        exact (ht.2.2 l h0 hl).elim covered_cover fun hseg => cover_covered hseg hl
      · exact h.of_leader h.durable h.honest.1 h.honest.2 nofun
    · cases hs
  | leaderPublish =>
    simp only [State.step] at hs
    split at hs
    · rename_i t lsn ht
      cases hs
      have ht := h.leader _ ht
      have hmax := CoveredTo.max h.honest.1 ht.2.2
      refine h.of_leader (max_lt h.durable ht.2.1) hmax (fun t' ht' => ?_) nofun
      rcases List.mem_cons.1 ht' with rfl | ht'
      · exact fun l h0 hl => ht.2.2 l h0 (hl.trans ht.1)
      · exact h.honest.2 t' ht'
    · cases hs
  | fsyncLocked =>
    cases hs
    have hc := h.cover s.seg s.tail
    refine hc.of_leader (by simp only [State.cover, State.tail]; omega)
      (fun l h0 hl => ?_) hc.honest.2 hc.leader
    exact (h.idle hok h0 hl).elim covered_cover fun hseg => cover_covered hseg hl

/-- **The durable frontier is honest** in every run that captures the tail only when the sealer is
idle. -/
theorem frontier_honest (hs : Reached State.step SealerIdle init s) : s.Honest :=
  (hs.invariant Inv ⟨Nat.one_pos, Nat.one_pos,
    ⟨fun l h0 hl => absurd hl (by simp [init]; omega), nofun⟩,
    fun _ _ => le_refl 0, fun _ l h0 hl => absurd hl (by simp [init]; omega), nofun⟩
    fun _ _ _ h hok => h.step hok).honest

/-- A segment is rotated away and sealed before the committer captures the tail. -/
def sealedRun : List Action :=
  [.append, .rotate, .append, .sealerTake, .sealerSync true, .syncUpTo 2, .sealerWait, .capture,
    .leaderSync true, .leaderPublish]

theorem frontier_honest_sealedRun : (runState State.step init sealedRun).Honest :=
  frontier_honest (RunAllowed.reached_runState (by decide) (by decide))

/-- The sealer has taken the segment and not synced it: the committer finds nothing pending. -/
theorem frontier_dishonest : ¬∀ s, Reached State.step (fun _ _ => True) init s → s.Honest := by
  intro h
  have := (h (runState State.step init [.append, .rotate, .append, .sealerTake, .syncUpTo 2,
    .sealerWait, .capture, .leaderSync true, .leaderPublish])
    (RunAllowed.reached_runState (by decide) (by decide))).1 1
  exact absurd (this (by decide) (by decide)) (by decide)

end UniDb.Frontier
