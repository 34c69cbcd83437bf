import Mathlib

/-!
# The segmented write-ahead log

The log as its consumers see it: a list of sealed segments and the active one, each with the LSN it
begins at, the next LSN and the durable frontier. `Wal.Sound` says that the segments follow each
other in the order of their LSNs and hold no torn frame; appending, truncating and a reopening that
leaves nothing above the LSN it continues from keep it. `Ordered.removeSealed_suffix` is what a
truncation leaves.
-/

namespace UniDb.Replication

open List Nat

/-! ## The segmented log -/

structure WalRecord where
  lsn : Nat
  body : Nat
  deriving DecidableEq, Repr

/-- A segment file: its base LSN and its frames; `none` is a torn frame. -/
structure Segment where
  base : Nat
  frames : List (Option WalRecord)
  deriving DecidableEq, Repr

def Segment.contents (g : Segment) : List WalRecord := g.frames.filterMap id

/-- `scan_segment_file`: the records up to the first torn frame. -/
def Segment.scan (g : Segment) : List WalRecord := (g.frames.takeWhile Option.isSome).filterMap id

structure Wal where
  /-- The segments before the active one, the oldest first. -/
  sealed : List Segment
  active : Segment
  nextLsn : Nat
  durableLsn : Nat
  deriving DecidableEq, Repr

namespace Wal

variable (w : Wal)

def segments : List Segment := w.sealed ++ [w.active]

def contents : List WalRecord := w.segments.flatMap Segment.contents

def scanFile : List WalRecord := w.segments.flatMap Segment.scan

def currentLsn : Nat := w.nextLsn - 1

/-- `ship_wal`: what is after `fromLsn` and at or below the durable frontier. -/
def recordsFrom (fromLsn : Nat) : List WalRecord :=
  w.scanFile.filter fun r => decide (fromLsn < r.lsn ∧ r.lsn ≤ w.durableLsn)

def append (body : Nat) (rotate : Bool) : Wal :=
  let frame := some ⟨w.nextLsn, body⟩
  if rotate && !w.active.frames.isEmpty then
    { w with sealed := w.sealed ++ [w.active], active := ⟨w.nextLsn, [frame]⟩,
             nextLsn := w.nextLsn + 1 }
  else
    { w with active := ⟨w.active.base, w.active.frames ++ [frame]⟩, nextLsn := w.nextLsn + 1 }

def sync (upTo : Nat) : Wal :=
  { w with durableLsn := max w.durableLsn (min upTo w.currentLsn) }

end Wal

/-- The base of the first segment, or of the one that follows the list. -/
def firstBase (next : Nat) : List Segment → Nat
  | [] => next
  | g :: _ => g.base

/-- `truncate_before`: a sealed segment goes if the next one begins at or below `keepFrom`. -/
def removeSealed (keepFrom active : Nat) : List Segment → List Segment
  | [] => []
  | g :: rest =>
    if firstBase active rest ≤ keepFrom then removeSealed keepFrom active rest
    else g :: removeSealed keepFrom active rest

namespace Wal

def truncateBefore (w : Wal) (keepFrom : Nat) : Wal :=
  { w with sealed := removeSealed keepFrom w.active.base w.sealed }

def oldest (w : Wal) : Nat := firstBase w.active.base w.sealed

/-- What a crash leaves of a segment: the records that were made durable and, of the others, those
up to `cut`. -/
def survivors (durable : List WalRecord) (cut : Nat) (g : Segment) : Segment :=
  { g with frames := g.frames.filter fun
      | some r => decide (r ∈ durable ∨ r.lsn ≤ cut)
      | none => true }

/-- `Wal::open` after a crash: the next record follows `startLsn`, nothing counts as durable, and
the active segment keeps a frame that the crash tore. -/
def reopen (w : Wal) (durable : List WalRecord) (startLsn cut : Nat) (torn : Bool) : Wal :=
  let active := survivors durable cut w.active
  { sealed := w.sealed.map (survivors durable cut)
    active := if torn then { active with frames := active.frames ++ [none] } else active
    nextLsn := startLsn + 1
    durableLsn := 0 }

end Wal

/-! ## Segments in order -/

variable {next : Nat} {segments : List Segment} {g : Segment} {r : WalRecord} {w : Wal}
  {durable : List WalRecord} {startLsn cut : Nat}

/-- Segments in the order of their bases, each with records below the base of the next. -/
def Ordered (next : Nat) : List Segment → Prop
  | [] => True
  | g :: rest => (∀ r ∈ g.contents, r.lsn < firstBase next rest) ∧ g.base ≤ firstBase next rest ∧
      Ordered next rest

lemma Ordered.firstBase_le (h : Ordered next segments) : firstBase next segments ≤ next := by
  induction segments with
  | nil => exact le_refl next
  | cons g rest ih => exact le_trans h.2.1 (ih h.2.2)

lemma Ordered.snoc {segments : List Segment}
    (h : Ordered g.base segments) (hlsn : ∀ r ∈ g.contents, r.lsn < next) (hbase : g.base ≤ next) :
    Ordered next (segments ++ [g]) := by
  induction segments with
  | nil => exact ⟨hlsn, hbase, trivial⟩
  | cons f rest ih =>
    have hfirst : firstBase next (rest ++ [g]) = firstBase g.base rest := by cases rest <;> rfl
    exact ⟨fun r hr => hfirst ▸ h.1 r hr, hfirst ▸ h.2.1, ih h.2.2⟩

lemma firstBase_snoc (next : Nat) (segments : List Segment) (g : Segment) :
    firstBase next (segments ++ [g]) = firstBase g.base segments := by
  cases segments <;> rfl

lemma Ordered.removeSealed_eq {keepFrom : Nat} {segments : List Segment}
    (h : Ordered next segments) (hkeep : keepFrom < firstBase next segments) :
    removeSealed keepFrom next segments = segments := by
  induction segments with
  | nil => rfl
  | cons g rest ih =>
    have hnext : keepFrom < firstBase next rest := lt_of_lt_of_le hkeep h.2.1
    rw [removeSealed, if_neg (not_le.2 hnext), ih h.2.2 hnext]

/-- **What a truncation leaves**: the segments from some point on; if any is gone, the first that is
left begins at or below the floor. -/
theorem Ordered.removeSealed_suffix {segments : List Segment}
    (h : Ordered next segments) (keepFrom : Nat) :
    Ordered next (removeSealed keepFrom next segments) ∧
      firstBase next segments ≤ firstBase next (removeSealed keepFrom next segments) ∧
      (removeSealed keepFrom next segments = segments ∨
        firstBase next (removeSealed keepFrom next segments) ≤ keepFrom) ∧
      ∀ r ∈ segments.flatMap Segment.contents,
        firstBase next (removeSealed keepFrom next segments) ≤ r.lsn →
        r ∈ (removeSealed keepFrom next segments).flatMap Segment.contents := by
  induction segments with
  | nil => exact ⟨h, le_refl _, .inl rfl, fun r hr _ => hr⟩
  | cons g rest ih =>
    by_cases hkeep : firstBase next rest ≤ keepFrom
    · obtain ⟨hordered, hmono, hfloor, hleft⟩ := ih h.2.2
      rw [removeSealed, if_pos hkeep]
      refine ⟨hordered, le_trans h.2.1 hmono, .inr ?_, fun r hr hlsn => ?_⟩
      · rcases hfloor with hsame | hle
        · rw [hsame]
          exact hkeep
        · exact hle
      · rw [flatMap_cons, mem_append] at hr
        refine hr.elim (fun hg => ?_) fun hr => hleft r hr hlsn
        have := h.1 r hg
        omega
    · have hsame : removeSealed keepFrom next (g :: rest) = g :: rest := by
        rw [removeSealed, if_neg hkeep, h.2.2.removeSealed_eq (not_le.1 hkeep)]
      rw [hsame]
      exact ⟨h, le_refl _, .inl rfl, fun r hr _ => hr⟩

lemma Ordered.lsn_lt (h : Ordered next segments)
    (hr : r ∈ segments.flatMap Segment.contents) : r.lsn < next := by
  induction segments with
  | nil => exact nomatch hr
  | cons g rest ih =>
    rw [flatMap_cons, mem_append] at hr
    rcases hr with hg | hr
    · exact lt_of_lt_of_le (h.1 r hg) h.2.2.firstBase_le
    · exact ih h.2.2 hr

lemma Segment.scan_eq_contents (h : none ∉ g.frames) : g.scan = g.contents := by
  have hall : g.frames.takeWhile Option.isSome = g.frames := by
    refine takeWhile_eq_self_iff.2 fun f hf => ?_
    cases f with
    | none => exact absurd hf h
    | some r => rfl
  rw [scan, hall, contents]

lemma mem_survivors :
    r ∈ (Wal.survivors durable cut g).contents ↔ r ∈ g.contents ∧ (r ∈ durable ∨ r.lsn ≤ cut) := by
  simp [Wal.survivors, Segment.contents]

lemma firstBase_survivors (durable : List WalRecord) (cut next : Nat) (segments : List Segment) :
    firstBase next (segments.map (Wal.survivors durable cut)) = firstBase next segments := by
  cases segments <;> rfl

lemma Ordered.survivors (h : Ordered next segments) (durable : List WalRecord) (cut : Nat) :
    Ordered next (segments.map (Wal.survivors durable cut)) := by
  induction segments with
  | nil => trivial
  | cons g rest ih =>
    simp only [map_cons, Ordered, firstBase_survivors]
    exact ⟨fun r hr => h.1 r (mem_survivors.1 hr).1, h.2.1, ih h.2.2⟩

namespace Wal

/-- A log whose segments are in order and hold no torn frame. -/
structure Sound (w : Wal) : Prop where
  ordered : Ordered w.active.base w.sealed
  active : ∀ r ∈ w.active.contents, r.lsn < w.nextLsn
  base : w.active.base ≤ w.nextLsn
  whole : ∀ g ∈ w.segments, none ∉ g.frames

lemma mem_contents :
    r ∈ w.contents ↔ r ∈ w.sealed.flatMap Segment.contents ∨ r ∈ w.active.contents := by
  simp only [contents, segments, flatMap_append, flatMap_cons, flatMap_nil, append_nil, mem_append]

lemma Sound.lsn_lt (h : w.Sound) (hr : r ∈ w.contents) : r.lsn < w.nextLsn := by
  rcases mem_contents.1 hr with hs | ha
  · exact lt_of_lt_of_le (h.ordered.lsn_lt hs) h.base
  · exact h.active r ha

lemma Sound.mem_scanFile (h : w.Sound) : r ∈ w.scanFile ↔ r ∈ w.contents := by
  simp only [scanFile, contents, mem_flatMap]
  exact exists_congr fun g => and_congr_right fun hg => by
    rw [Segment.scan_eq_contents (h.whole g hg)]

/-! ### Appending -/

@[simp] lemma append_nextLsn (w : Wal) (body : Nat) (rotate : Bool) :
    (w.append body rotate).nextLsn = w.nextLsn + 1 := by
  unfold append
  split <;> rfl

@[simp] lemma append_durableLsn (w : Wal) (body : Nat) (rotate : Bool) :
    (w.append body rotate).durableLsn = w.durableLsn := by
  unfold append
  split <;> rfl

@[simp] lemma append_oldest (w : Wal) (body : Nat) (rotate : Bool) :
    (w.append body rotate).oldest = w.oldest := by
  unfold append oldest
  split
  · exact firstBase_snoc _ _ _
  · rfl

lemma mem_append_contents {body : Nat} {rotate : Bool} :
    r ∈ (w.append body rotate).contents ↔ r ∈ w.contents ∨ r = ⟨w.nextLsn, body⟩ := by
  unfold append
  split <;>
    simp [contents, segments, Segment.contents, or_assoc]

lemma Sound.append (h : w.Sound) (body : Nat) (rotate : Bool) : (w.append body rotate).Sound := by
  unfold Wal.append
  split
  · refine ⟨h.ordered.snoc h.active h.base, ?_, ?_, ?_⟩
    · simp [Segment.contents]
    · exact le_succ _
    · exact forall_mem_append.2 ⟨h.whole, forall_mem_singleton.2 (by simp)⟩
  · refine ⟨h.ordered, ?_, le_succ_of_le h.base, ?_⟩
    · intro r hr
      rw [Segment.contents, filterMap_append, mem_append] at hr
      rcases hr with hr | hr
      · exact lt_succ_of_lt (h.active r hr)
      · rw [show r = ⟨w.nextLsn, body⟩ by simpa using hr]
        exact lt_succ_self _
    · obtain ⟨hsealed, hactive⟩ := forall_mem_append.1 h.whole
      exact forall_mem_append.2 ⟨hsealed, by simpa using hactive⟩

/-! ### Truncating and reopening -/

lemma Sound.truncateBefore (h : w.Sound) (keepFrom : Nat) :
    (w.truncateBefore keepFrom).Sound := by
  refine ⟨(h.ordered.removeSealed_suffix keepFrom).1, h.active, h.base, fun g hg => ?_⟩
  have hsub : ∀ (l : List Segment), ∀ g ∈ removeSealed keepFrom w.active.base l, g ∈ l := by
    intro l
    fun_induction removeSealed keepFrom w.active.base l with
    | case1 => exact fun _ h => h
    | case2 f rest _ ih => exact fun g hg => .tail _ (ih g hg)
    | case3 f rest _ ih =>
      intro g hg
      exact (mem_cons.1 hg).elim (fun h => h ▸ .head _) fun hg => .tail _ (ih g hg)
  rcases mem_append.1 hg with hg | hg
  · exact h.whole g (mem_append_left _ (hsub _ g hg))
  · exact h.whole g (mem_append_right _ hg)

lemma Sound.truncateBefore_oldest (h : w.Sound) (keepFrom : Nat) :
    w.oldest ≤ (w.truncateBefore keepFrom).oldest ∧ ((w.truncateBefore keepFrom).oldest = w.oldest ∨
        (w.truncateBefore keepFrom).oldest ≤ keepFrom) := by
  obtain ⟨_, hmono, hfloor, _⟩ := h.ordered.removeSealed_suffix keepFrom
  exact ⟨hmono, hfloor.imp_left fun hsame => by rw [Wal.truncateBefore, hsame]⟩

lemma Sound.truncateBefore_contents (h : w.Sound) (keepFrom : Nat) (hr : r ∈ w.contents)
    (hlsn : (w.truncateBefore keepFrom).oldest ≤ r.lsn) :
    r ∈ (w.truncateBefore keepFrom).contents := by
  rw [mem_contents] at hr ⊢
  exact hr.imp_left fun hs => (h.ordered.removeSealed_suffix keepFrom).2.2.2 r hs hlsn

@[simp] lemma reopen_oldest (w : Wal) (durable : List WalRecord) (startLsn cut : Nat) :
    (w.reopen durable startLsn cut false).oldest = w.oldest :=
  firstBase_survivors durable cut w.active.base w.sealed

lemma mem_reopen_contents : r ∈ (w.reopen durable startLsn cut false).contents ↔
      r ∈ w.contents ∧ (r ∈ durable ∨ r.lsn ≤ cut) := by
  simp only [mem_contents, reopen]
  grind [mem_survivors]

lemma Sound.reopen (h : w.Sound) (hbase : w.active.base ≤ startLsn + 1) (hcut : cut ≤ startLsn)
    (hdurable : ∀ r ∈ durable, r.lsn ≤ startLsn) : (w.reopen durable startLsn cut false).Sound := by
  refine ⟨h.ordered.survivors durable cut, ?_, hbase, ?_⟩
  · intro r hr
    rcases (mem_survivors.1 hr).2 with hd | hc
    · exact lt_succ_of_le (hdurable r hd)
    · exact lt_succ_of_le (le_trans hc hcut)
  · have hwhole : ∀ g ∈ w.segments, none ∉ (survivors durable cut g).frames :=
      fun g hg hnone => h.whole g hg (mem_filter.1 hnone).1
    obtain ⟨hsealed, hactive⟩ := forall_mem_append.1 hwhole
    refine forall_mem_append.2 ⟨forall_mem_map.2 hsealed, fun g hg => ?_⟩
    rw [mem_singleton.1 hg]
    exact hactive _ (.head _)

end Wal

end UniDb.Replication
