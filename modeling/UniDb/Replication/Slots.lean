import UniDb.Lib.Run
import UniDb.Replication.Wal

/-!
# Replication slots and the log they keep

A primary as far as the consumers of its log see it: the log, the slots with the position each
consumer confirmed, and the checkpoints that remove segments. Every step that another thread may
come between is a step of its own:

* a checkpoint computes its truncation floor (`started`), writes its record (`logged`), writes the
  control file (`recorded`) and then removes segments;
* a slot is created in two steps, the read of the log's tail and the entry in the registry;
* a change of the registry is made in memory and then written to `slots.json`, which may fail and is
  not synced;
* a restart reopens the log at the control file's `wal_tail_lsn`, with no durable frontier yet, and
  reads the slots from the file: any version of it that was written, or none.

`State.Kept` is what a slot is for: as long as it lags the tail by at most the cap, every record
above its `restart_lsn` that was ever durable is shipped. `slots_keep_wal` has it for runs whose
steps are `Careful`, and that no careful step takes a slot back. The other runs lose records: a
restart forgets the durable frontier (`restart_ships_nothing`).
-/

namespace UniDb.Replication

open List Wal Nat

/-! ## Slots, checkpoints and the steps -/

structure Slot where
  name : String
  restartLsn : Nat
  deriving DecidableEq, Repr

/-- A checkpoint under way. `retain` is `wal_retain_lsn`, `none` for `Lsn::MAX`. -/
inductive Checkpoint where
  | started (retain : Option Nat)
  | logged (retain : Option Nat) (lsn : Nat)
  | recorded (retain : Option Nat) (lsn : Nat)
  deriving DecidableEq, Repr

def capWalRetainLsn (cap : Nat) (slotLsn : Option Nat) (currentLsn : Nat) : Option Nat :=
  slotLsn.map fun lsn => if lsn < currentLsn - cap then currentLsn - cap else lsn

def truncateTo (retain : Option Nat) (lsn : Nat) : Nat := (retain.map (min lsn)).getD lsn

/-- Where a checkpoint will truncate to, as far as it is decided. -/
def Checkpoint.floor : Checkpoint → Option Nat
  | started retain => retain
  | logged retain lsn => some (truncateTo retain lsn)
  | recorded retain lsn => some (truncateTo retain lsn)

structure State where
  wal : Wal
  /-- `wal_tail_lsn` of the control file. -/
  walTailLsn : Nat
  slots : List Slot
  /-- What was written to `slots.json` so far. -/
  files : List (List Slot)
  /-- Slots whose start was read and that are not in the registry yet. -/
  creating : List Slot
  checkpoints : List Checkpoint
  /-- Every record that was ever at or below the durable frontier. -/
  durableEver : List WalRecord
  deriving DecidableEq, Repr

inductive Action where
  | append (body : Nat) (rotate : Bool)
  | sync (upTo : Nat)
  | readTail (name : String)
  | register (i : Nat) (fails : Bool)
  | advance (name : String) (lsn : Nat) (fails : Bool)
  | dropSlot (name : String) (fails : Bool)
  | checkpoint
  | logCheckpoint (i body : Nat) (rotate : Bool)
  | writeControl (i : Nat)
  | truncate (i : Nat)
  /-- `found`: what `slots.json` holds, `none` if it is missing or unreadable. -/
  | restart (cut : Nat) (torn : Bool) (found : Option (List Slot))
  deriving DecidableEq, Repr

namespace State

variable (s : State)

def minRestartLsn : Option Nat := (s.slots.map Slot.restartLsn).min?

def noteDurable (w : Wal) : State :=
  { s with wal := w
           durableEver := s.durableEver ++ w.contents.filter fun r =>
             decide (r.lsn ≤ w.durableLsn) }

def advanceSlot (name : String) (lsn : Nat) (p : Slot) : Slot :=
  if p.name = name ∧ p.restartLsn < lsn then { p with restartLsn := lsn } else p

/-- The slots are changed in memory; `persist` may fail. -/
def setSlots (slots : List Slot) (fails : Bool) : State :=
  { s with slots, files := if fails then s.files else s.files ++ [slots] }

/-- **One step** of the primary with the cap `cap`; `none` where the step is refused or has nothing
to work on. -/
def step (cap : Nat) (s : State) : Action → Option State
  | .append body rotate => some { s with wal := s.wal.append body rotate }
  | .sync upTo => some (s.noteDurable (s.wal.sync upTo))
  | .readTail name => some { s with creating := s.creating ++ [⟨name, s.wal.currentLsn⟩] }
  | .register i fails =>
    s.creating[i]?.bind fun p =>
      if s.slots.any (fun q => q.name == p.name) then none
      else some ({ s with creating := s.creating.eraseIdx i }.setSlots (s.slots ++ [p]) fails)
  | .advance name lsn fails =>
    if s.slots.any (fun q => q.name == name) then
      let slots := s.slots.map (advanceSlot name lsn)
      -- a stale confirmation is not written
      some (if slots = s.slots then s else s.setSlots slots fails)
    else none
  | .dropSlot name fails =>
    if s.slots.any (fun q => q.name == name) then
      some (s.setSlots (s.slots.filter fun q => q.name != name) fails)
    else none
  | .checkpoint =>
    let retain := capWalRetainLsn cap s.minRestartLsn s.wal.currentLsn
    some { s with checkpoints := s.checkpoints ++ [.started retain] }
  | .logCheckpoint i body rotate =>
    match s.checkpoints[i]? with
    | some (.started retain) =>
      let w := s.wal.append body rotate
      some (noteDurable { s with checkpoints := s.checkpoints.set i (.logged retain s.wal.nextLsn) }
        (w.sync w.currentLsn))
    | _ => none
  | .writeControl i =>
    match s.checkpoints[i]? with
    | some (.logged retain lsn) =>
      some { s with walTailLsn := s.wal.currentLsn
                    checkpoints := s.checkpoints.set i (.recorded retain lsn) }
    | _ => none
  | .truncate i =>
    match s.checkpoints[i]? with
    | some (.recorded retain lsn) =>
      some { s with wal := s.wal.truncateBefore (truncateTo retain lsn)
                    checkpoints := s.checkpoints.eraseIdx i }
    | _ => none
  | .restart cut torn found =>
    if ∀ slots ∈ found, slots ∈ s.files then
      some { s with wal := s.wal.reopen s.durableEver s.walTailLsn cut torn
                    slots := found.getD [], creating := [], checkpoints := [] }
    else none

def new : State := ⟨⟨[], ⟨1, []⟩, 1, 0⟩, 0, [], [], [], [], []⟩

/-! ## What a slot is for -/

/-- **Slots keep their log**: what a slot that lags by at most the cap has not confirmed is
shipped. -/
def Kept (cap : Nat) (s : State) : Prop :=
  ∀ p ∈ s.slots, s.wal.currentLsn ≤ p.restartLsn + cap →
    ∀ r ∈ s.durableEver, p.restartLsn < r.lsn → r ∈ s.wal.recordsFrom p.restartLsn

def NoRewind (s' : State) : Prop :=
  ∀ p ∈ s.slots, ∀ q ∈ s'.slots, p.name = q.name → p.restartLsn ≤ q.restartLsn

/-- The steps that are taken **with care**: a slot is registered when its log is still there and no
checkpoint under way will remove it, and a restart leaves nothing above the control file's
`wal_tail_lsn`, tears no frame, comes when every slot has confirmed the durable records, and finds
the slots in the file as they are in memory. -/
def Careful : Action → Prop
  | .register i _ => ∀ p ∈ s.creating[i]?, s.wal.oldest ≤ p.restartLsn + 1 ∧
      ∀ c ∈ s.checkpoints, ∃ f ∈ c.floor, f ≤ p.restartLsn + 1
  | .restart cut torn found => found.getD [] = s.slots ∧ torn = false ∧ cut ≤ s.walTailLsn ∧
      s.wal.active.base ≤ s.walTailLsn + 1 ∧ (∀ r ∈ s.durableEver, r.lsn ≤ s.walTailLsn) ∧
      ∀ p ∈ s.slots, ∀ r ∈ s.durableEver, r.lsn ≤ p.restartLsn
  | _ => True

instance (s : State) (a : Action) : Decidable (s.Careful a) := by
  cases a <;> dsimp only [Careful] <;> infer_instance

instance (cap : Nat) (s : State) : Decidable (s.Kept cap) := by
  unfold Kept
  infer_instance

end State

/-! ## The invariant of careful runs -/

namespace State

variable {cap lsn i : Nat} {s s' : State} {a : Action} {p : Slot} {retain : Option Nat}

variable {currentLsn f : Nat}

lemma le_capWalRetainLsn {slots : List Slot}
    (h : capWalRetainLsn cap ((slots.map Slot.restartLsn).min?) currentLsn = some f)
    (hp : p ∈ slots) : f ≤ p.restartLsn + 1 ∨ f + cap ≤ currentLsn := by
  obtain ⟨lsn, hmin, rfl⟩ := Option.map_eq_some_iff.1 h
  have hle : lsn ≤ p.restartLsn :=
    (min?_eq_some_iff.1 hmin).2 _ (mem_map_of_mem hp)
  split
  · right
    omega
  · left
    omega

lemma capWalRetainLsn_eq_none {slots : List Slot}
    (h : capWalRetainLsn cap ((slots.map Slot.restartLsn).min?) currentLsn = none) :
    slots = [] := by
  have hnone : (slots.map Slot.restartLsn).min? = none := Option.map_eq_none_iff.1 h
  exact map_eq_nil_iff.1 (min?_eq_none_iff.1 hnone)

/-- A floor that takes nothing a slot within the cap still needs. -/
def Spares (cap : Nat) (s : State) (f : Nat) : Prop :=
  ∀ p ∈ s.slots, f ≤ p.restartLsn + 1 ∨ f + cap ≤ s.wal.currentLsn

/-- **The invariant.** The segments from `oldest` on hold every record that was ever durable;
neither what is gone nor what a checkpoint under way will remove is needed by a slot within the
cap. -/
structure Inv (cap : Nat) (s : State) : Prop where
  sound : s.wal.Sound
  names : (s.slots.map Slot.name).Nodup
  below : ∀ r ∈ s.durableEver, r.lsn < s.wal.nextLsn
  held : ∀ r ∈ s.durableEver, s.wal.oldest ≤ r.lsn → r ∈ s.wal.contents
  passed : s.wal.oldest ≤ 1 ∨ ∃ r ∈ s.durableEver, s.wal.oldest ≤ r.lsn
  unconfirmed : ∀ p ∈ s.slots ++ s.creating, ∀ r ∈ s.durableEver,
    p.restartLsn < r.lsn → r.lsn ≤ s.wal.durableLsn
  spared : s.Spares cap s.wal.oldest
  floors : ∀ c ∈ s.checkpoints, ∀ f, c.floor = some f → s.Spares cap f
  freely : ∀ c ∈ s.checkpoints, c.floor = none → s.slots = []
  recorded : ∀ retain lsn, .logged retain lsn ∈ s.checkpoints ∨
    .recorded retain lsn ∈ s.checkpoints → ∃ r ∈ s.durableEver, r.lsn = lsn

lemma Inv.kept (h : s.Inv cap) : s.Kept cap := by
  intro p hp hcap r hr hlsn
  have hdurable : r.lsn ≤ s.wal.durableLsn :=
    h.unconfirmed p (mem_append_left _ hp) r hr hlsn
  have hheld : r ∈ s.wal.contents := by
    rcases h.spared p hp with ho | ho
    · exact h.held r hr (by omega)
    · exact h.held r hr (by omega)
  rw [recordsFrom, mem_filter]
  exact ⟨h.sound.mem_scanFile.2 hheld, decide_eq_true ⟨hlsn, hdurable⟩⟩

lemma Spares.mono {f' : Nat} (h : s.Spares cap f) (hf : f' ≤ f)
    (hslots : ∀ q ∈ s'.slots, ∃ p ∈ s.slots, p.restartLsn ≤ q.restartLsn)
    (hcurrent : s.wal.currentLsn ≤ s'.wal.currentLsn) : s'.Spares cap f' := by
  intro q hq
  obtain ⟨p, hp, hle⟩ := hslots q hq
  rcases h p hp with hrestart | hlag
  · exact .inl (by omega)
  · exact .inr (by omega)

lemma Spares.of_grown (h : s.Spares cap f) (hslots : s'.slots = s.slots)
    (hcurrent : s.wal.currentLsn ≤ s'.wal.currentLsn) : s'.Spares cap f :=
  h.mono (le_refl f) (fun q hq => ⟨q, hslots ▸ hq, le_refl _⟩) hcurrent

lemma Inv.append (h : s.Inv cap) (body : Nat) (rotate : Bool) :
    Inv cap { s with wal := s.wal.append body rotate } := by
  have hcurrent : s.wal.currentLsn ≤ (s.wal.append body rotate).currentLsn := by
    simp only [currentLsn, append_nextLsn]
    omega
  refine ⟨h.sound.append body rotate, h.names, ?_, ?_, ?_, ?_, ?_, ?_, h.freely, h.recorded⟩
  · intro r hr
    rw [append_nextLsn]
    exact lt_succ_of_lt (h.below r hr)
  · intro r hr holdest
    rw [append_oldest] at holdest
    exact mem_append_contents.2 (.inl (h.held r hr holdest))
  · rw [append_oldest]
    exact h.passed
  · rw [append_durableLsn]
    exact h.unconfirmed
  · rw [append_oldest]
    exact h.spared.of_grown rfl hcurrent
  · exact fun c hc f hf => (h.floors c hc f hf).of_grown rfl hcurrent

lemma mem_noteDurable {w : Wal} {r : WalRecord} : r ∈ (s.noteDurable w).durableEver ↔
      r ∈ s.durableEver ∨ r ∈ w.contents ∧ r.lsn ≤ w.durableLsn := by
  simp [noteDurable]

lemma Inv.sync (h : s.Inv cap) (upTo : Nat) : (s.noteDurable (s.wal.sync upTo)).Inv cap := by
  refine ⟨⟨h.sound.ordered, h.sound.active, h.sound.base, h.sound.whole⟩, h.names, ?_, ?_, ?_, ?_,
    h.spared, h.floors, h.freely, ?_⟩
  · intro r hr
    exact (mem_noteDurable.1 hr).elim (h.below r) fun hr => h.sound.lsn_lt hr.1
  · intro r hr holdest
    exact (mem_noteDurable.1 hr).elim (fun hr => h.held r hr holdest) fun hr => hr.1
  · refine h.passed.imp_right ?_
    rintro ⟨r, hr, hlsn⟩
    exact ⟨r, mem_noteDurable.2 (.inl hr), hlsn⟩
  · intro p hp r hr hlsn
    refine (mem_noteDurable.1 hr).elim (fun hr => ?_) fun hr => hr.2
    exact le_trans (h.unconfirmed p hp r hr hlsn) (le_max_left _ _)
  · intro retain lsn hc
    obtain ⟨r, hr, hlsn⟩ := h.recorded retain lsn hc
    exact ⟨r, mem_noteDurable.2 (.inl hr), hlsn⟩

lemma Inv.readTail (h : s.Inv cap) (name : String) :
    Inv cap { s with creating := s.creating ++ [⟨name, s.wal.currentLsn⟩] } := by
  refine ⟨h.sound, h.names, h.below, h.held, h.passed, ?_, h.spared, h.floors, h.freely, h.recorded⟩
  intro p hp r hr hlsn
  rw [← append_assoc] at hp
  rcases mem_append.1 hp with hp | hp
  · exact h.unconfirmed p hp r hr hlsn
  · -- a start that was just read is at the tail: nothing is above it
    rw [mem_singleton.1 hp] at hlsn
    have hbelow := h.below r hr
    simp only [currentLsn] at hlsn
    omega

lemma Inv.files (h : s.Inv cap) (files : List (List Slot)) : Inv cap { s with files } :=
  ⟨h.sound, h.names, h.below, h.held, h.passed, h.unconfirmed, h.spared, h.floors, h.freely,
    h.recorded⟩

lemma Inv.register (h : s.Inv cap)
    (hp : s.creating[i]? = some p) (hname : ¬s.slots.any (fun q => q.name == p.name) = true)
    (hold : s.wal.oldest ≤ p.restartLsn + 1)
    (hfloors : ∀ c ∈ s.checkpoints, ∃ f ∈ c.floor, f ≤ p.restartLsn + 1) :
    Inv cap { s with slots := s.slots ++ [p], creating := s.creating.eraseIdx i } := by
  have hspares : ∀ f, s.Spares cap f → f ≤ p.restartLsn + 1 →
      Spares cap { s with slots := s.slots ++ [p], creating := s.creating.eraseIdx i } f := by
    intro f hf hle
    exact forall_mem_append.2 ⟨hf, forall_mem_singleton.2 (.inl hle)⟩
  refine ⟨h.sound, ?_, h.below, h.held, h.passed, ?_, hspares _ h.spared hold, ?_, ?_, h.recorded⟩
  · rw [map_append, nodup_append]
    refine ⟨h.names, nodup_cons.2 ⟨not_mem_nil, nodup_nil⟩, ?_⟩
    rintro name hmem _ hnew rfl
    obtain ⟨q, hq, rfl⟩ := mem_map.1 hmem
    refine hname (any_eq_true.2 ⟨q, hq, ?_⟩)
    simpa using hnew
  · intro q hq
    refine h.unconfirmed q ?_
    rcases mem_append.1 hq with hq | hq
    · rcases mem_append.1 hq with hq | hq
      · exact mem_append_left _ hq
      · rw [mem_singleton.1 hq]
        exact mem_append_right _ (mem_of_getElem? hp)
    · exact mem_append_right _ (mem_of_mem_eraseIdx hq)
  · intro c hc f hf
    obtain ⟨f', hf', hle⟩ := hfloors c hc
    obtain rfl : f' = f := Option.some.inj (hf'.symm.trans hf)
    exact hspares f' (h.floors c hc f' hf) hle
  · intro c hc hnone
    obtain ⟨f', hf', _⟩ := hfloors c hc
    exact nomatch hnone.symm.trans hf'

lemma Inv.slots (h : s.Inv cap) {slots : List Slot} (hnames : (slots.map Slot.name).Nodup)
    (hslots : ∀ q ∈ slots, ∃ p ∈ s.slots, p.restartLsn ≤ q.restartLsn) :
    Inv cap { s with slots := slots } := by
  refine ⟨h.sound, hnames, h.below, h.held, h.passed, ?_,
    h.spared.mono (le_refl _) hslots (le_refl _),
    fun c hc f hf => (h.floors c hc f hf).mono (le_refl _) hslots (le_refl _), ?_, h.recorded⟩
  · intro q hq r hr hlsn
    rcases mem_append.1 hq with hq | hq
    · obtain ⟨p, hp, hle⟩ := hslots q hq
      exact h.unconfirmed p (mem_append_left _ hp) r hr (lt_of_le_of_lt hle hlsn)
    · exact h.unconfirmed q (mem_append_right _ hq) r hr hlsn
  · intro c hc hnone
    refine eq_nil_iff_forall_not_mem.2 fun q hq => ?_
    obtain ⟨p, hp, _⟩ := hslots q hq
    rw [h.freely c hc hnone] at hp
    exact nomatch hp

lemma advanceSlot_name (name : String) (lsn : Nat) (p : Slot) :
    (advanceSlot name lsn p).name = p.name := by
  unfold advanceSlot
  split <;> rfl

lemma le_advanceSlot (name : String) (lsn : Nat) (p : Slot) :
    p.restartLsn ≤ (advanceSlot name lsn p).restartLsn := by
  unfold advanceSlot
  split
  · next h => exact le_of_lt h.2
  · exact le_refl _

lemma Inv.advance (h : s.Inv cap) (name : String) (lsn : Nat) :
    Inv cap { s with slots := s.slots.map (advanceSlot name lsn) } := by
  refine h.slots ?_ fun q hq => ?_
  · have hsame : (s.slots.map (advanceSlot name lsn)).map Slot.name = s.slots.map Slot.name := by
      rw [map_map]
      exact map_congr_left fun p _ => advanceSlot_name name lsn p
    rw [hsame]
    exact h.names
  · obtain ⟨p, hp, rfl⟩ := mem_map.1 hq
    exact ⟨p, hp, le_advanceSlot name lsn p⟩

lemma Inv.dropSlot (h : s.Inv cap) (name : String) :
    Inv cap { s with slots := s.slots.filter fun q => q.name != name } :=
  h.slots (h.names.sublist (filter_sublist.map _))
    fun q hq => ⟨q, (mem_filter.1 hq).1, le_refl _⟩

/-! ### Checkpoints -/

section

variable (h : s.Inv cap)
include h

lemma Inv.checkpoints {checkpoints : List Checkpoint}
    (hnew : ∀ c ∈ checkpoints, c ∈ s.checkpoints ∨
      (∀ f, c.floor = some f → s.Spares cap f) ∧ (c.floor = none → s.slots = []) ∧
        ∀ retain lsn, c = .logged retain lsn ∨ c = .recorded retain lsn →
          ∃ r ∈ s.durableEver, r.lsn = lsn) : Inv cap { s with checkpoints := checkpoints } := by
  refine ⟨h.sound, h.names, h.below, h.held, h.passed, h.unconfirmed, h.spared, ?_, ?_, ?_⟩
  · intro c hc
    exact (hnew c hc).elim (h.floors c) And.left
  · intro c hc
    exact (hnew c hc).elim (h.freely c) fun hc => hc.2.1
  · rintro retain lsn (hc | hc)
    · exact (hnew _ hc).elim (fun hc => h.recorded retain lsn (.inl hc))
        fun hc => hc.2.2 retain lsn (.inl rfl)
    · exact (hnew _ hc).elim (fun hc => h.recorded retain lsn (.inr hc))
        fun hc => hc.2.2 retain lsn (.inr rfl)

lemma Inv.startCheckpoint : Inv cap { s with checkpoints := s.checkpoints ++
      [.started (capWalRetainLsn cap s.minRestartLsn s.wal.currentLsn)] } := by
  refine h.checkpoints fun c hc => (mem_append.1 hc).imp_right fun hc => ?_
  rw [mem_singleton.1 hc]
  exact ⟨fun f hf p hp => le_capWalRetainLsn hf hp, capWalRetainLsn_eq_none, by simp⟩

/-- The floor is settled once the checkpoint has its record: with no slot when it was computed there
still is none. -/
lemma Inv.spares_truncateTo
    (hc : .started retain ∈ s.checkpoints) : s.Spares cap (truncateTo retain lsn) := by
  cases retain with
  | none =>
    intro p hp
    rw [h.freely _ hc rfl] at hp
    exact nomatch hp
  | some f =>
    exact (h.floors _ hc f rfl).mono (min_le_right _ _) (fun q hq => ⟨q, hq, le_refl _⟩)
      (le_refl _)

lemma Inv.logCheckpoint
    (hc : s.checkpoints[i]? = some (.started retain)) (body : Nat) (rotate : Bool) :
    (noteDurable { s with checkpoints := s.checkpoints.set i (.logged retain s.wal.nextLsn) }
      ((s.wal.append body rotate).sync (s.wal.append body rotate).currentLsn)).Inv cap := by
  have hsynced := (h.append body rotate).sync (s.wal.append body rotate).currentLsn
  refine hsynced.checkpoints fun c hmem => ?_
  rcases mem_or_eq_of_mem_set hmem with hmem | rfl
  · exact .inl hmem
  · refine .inr ⟨?_, (fun hnone => nomatch hnone), ?_⟩
    · rintro f ⟨⟩
      exact hsynced.spares_truncateTo (mem_of_getElem? hc)
    · intro retain' lsn hsame
      obtain ⟨-, rfl⟩ : retain = retain' ∧ s.wal.nextLsn = lsn := by simpa using hsame
      refine ⟨⟨s.wal.nextLsn, body⟩, mem_noteDurable.2 (.inr ⟨?_, ?_⟩), rfl⟩
      · exact Wal.mem_append_contents.2 (.inr rfl)
      · simp only [Wal.sync, Wal.currentLsn, Wal.append_nextLsn]
        omega

lemma Inv.writeControl (hc : s.checkpoints[i]? = some (.logged retain lsn)) (walTailLsn : Nat) :
    Inv cap { s with walTailLsn := walTailLsn
                     checkpoints := s.checkpoints.set i (.recorded retain lsn) } := by
  have hmem : .logged retain lsn ∈ s.checkpoints := mem_of_getElem? hc
  have hset : Inv cap { s with checkpoints := s.checkpoints.set i (.recorded retain lsn) } := by
    refine h.checkpoints fun c hc => ?_
    rcases mem_or_eq_of_mem_set hc with hc | rfl
    · exact .inl hc
    · refine .inr ⟨fun f => h.floors _ hmem f, (fun hnone => nomatch hnone),
        fun retain' lsn' hsame => ?_⟩
      obtain ⟨-, rfl⟩ : retain = retain' ∧ lsn = lsn' := by simpa using hsame
      exact h.recorded retain lsn (.inl hmem)
  exact ⟨hset.sound, hset.names, hset.below, hset.held, hset.passed, hset.unconfirmed, hset.spared,
    hset.floors, hset.freely, hset.recorded⟩

lemma Inv.truncate (hc : s.checkpoints[i]? = some (.recorded retain lsn)) :
    Inv cap { s with wal := s.wal.truncateBefore (truncateTo retain lsn)
                     checkpoints := s.checkpoints.eraseIdx i } := by
  have hmem : .recorded retain lsn ∈ s.checkpoints := mem_of_getElem? hc
  obtain ⟨hmono, hfloor⟩ := h.sound.truncateBefore_oldest (truncateTo retain lsn)
  refine ⟨h.sound.truncateBefore _, h.names, h.below, ?_, ?_, h.unconfirmed, ?_,
    fun c hc => h.floors c (mem_of_mem_eraseIdx hc),
    fun c hc => h.freely c (mem_of_mem_eraseIdx hc), ?_⟩
  · intro r hr hlsn
    exact h.sound.truncateBefore_contents _ (h.held r hr (le_trans hmono hlsn)) hlsn
  · -- the floor is at or below the checkpoint's own record, which is durable
    rcases hfloor with hsame | hle
    · rw [hsame]
      exact h.passed
    · obtain ⟨r, hr, rfl⟩ := h.recorded retain lsn (.inr hmem)
      have hto : truncateTo retain r.lsn ≤ r.lsn := by
        cases retain with
        | none => exact le_refl _
        | some f => exact min_le_left _ _
      exact .inr ⟨r, hr, le_trans hle hto⟩
  · rcases hfloor with hsame | hle
    · rw [hsame]
      exact h.spared.of_grown rfl (le_refl _)
    · exact (h.floors _ hmem _ rfl).mono hle (fun q hq => ⟨q, hq, le_refl _⟩) (le_refl _)
  · rintro retain' lsn' (hc | hc)
    · exact h.recorded retain' lsn' (.inl (mem_of_mem_eraseIdx hc))
    · exact h.recorded retain' lsn' (.inr (mem_of_mem_eraseIdx hc))

lemma Inv.restart {cut : Nat} (hcut : cut ≤ s.walTailLsn)
    (hbase : s.wal.active.base ≤ s.walTailLsn + 1)
    (hdurable : ∀ r ∈ s.durableEver, r.lsn ≤ s.walTailLsn)
    (hslots : ∀ p ∈ s.slots, ∀ r ∈ s.durableEver, r.lsn ≤ p.restartLsn) :
    Inv cap { s with wal := s.wal.reopen s.durableEver s.walTailLsn cut false
                     creating := [], checkpoints := [] } := by
  refine ⟨h.sound.reopen hbase hcut hdurable, h.names, ?_, ?_, ?_, ?_, ?_, (fun _ hc => nomatch hc),
    (fun _ hc => nomatch hc), fun _ _ hc => by simp at hc⟩
  · exact fun r hr => lt_succ_of_le (hdurable r hr)
  · intro r hr hlsn
    rw [reopen_oldest] at hlsn
    exact mem_reopen_contents.2 ⟨h.held r hr hlsn, .inl hr⟩
  · rw [reopen_oldest]
    exact h.passed
  · intro p hp r hr hlsn
    rw [append_nil] at hp
    exact absurd hlsn (not_lt.2 (hslots p hp r hr))
  · intro p hp
    rw [reopen_oldest]
    rcases h.passed with hfirst | ⟨r, hr, hle⟩
    · exact .inl (by omega)
    · exact .inl (le_succ_of_le (le_trans hle (hslots p hp r hr)))

theorem Inv.step (hcareful : s.Careful a) (hstep : s.step cap a = some s') : s'.Inv cap := by
  cases a with
  | append body rotate =>
    cases hstep
    exact h.append body rotate
  | sync upTo =>
    cases hstep
    exact h.sync upTo
  | readTail name =>
    cases hstep
    exact h.readTail name
  | register i fails =>
    obtain ⟨p, hp, hstep⟩ := Option.bind_eq_some_iff.1 hstep
    split at hstep
    · cases hstep
    · next hname =>
      cases hstep
      obtain ⟨hold, hfloors⟩ := hcareful p hp
      exact (h.register hp hname hold hfloors).files _
  | advance name lsn fails =>
    simp only [State.step, Option.ite_none_right_eq_some] at hstep
    cases hstep.2
    split
    · exact h
    · exact (h.advance name lsn).files _
  | dropSlot name fails =>
    simp only [State.step, Option.ite_none_right_eq_some] at hstep
    cases hstep.2
    exact (h.dropSlot name).files _
  | checkpoint =>
    cases hstep
    exact h.startCheckpoint
  | logCheckpoint i body rotate =>
    simp only [State.step] at hstep
    split at hstep
    · next retain hc =>
      cases hstep
      exact h.logCheckpoint hc body rotate
    · cases hstep
  | writeControl i =>
    simp only [State.step] at hstep
    split at hstep
    · next retain lsn hc =>
      cases hstep
      exact h.writeControl hc s.wal.currentLsn
    · cases hstep
  | truncate i =>
    simp only [State.step] at hstep
    split at hstep
    · next retain lsn hc =>
      cases hstep
      exact h.truncate hc
    · cases hstep
  | restart cut torn found =>
    obtain ⟨hfound, rfl, hcut, hbase, hdurable, hslots⟩ := hcareful
    simp only [State.step, Option.ite_none_right_eq_some] at hstep
    cases hstep.2
    rw [hfound]
    exact h.restart hcut hbase hdurable hslots

end

lemma inv_new (cap : Nat) : new.Inv cap := by
  refine ⟨⟨trivial, ?_, le_refl _, ?_⟩, nodup_nil, ?_, ?_, .inl (le_refl _), ?_, ?_, ?_,
    ?_, ?_⟩ <;> simp [new, segments, Segment.contents, Spares]

/-- What a step does to the slots: it enters one under a new name, sends some forward, or drops
some. -/
lemma step_slots (hcareful : s.Careful a) (hstep : s.step cap a = some s') :
    (∃ p, s'.slots = s.slots ++ [p] ∧ ∀ q ∈ s.slots, q.name ≠ p.name) ∨
    (∃ name lsn, s'.slots = s.slots.map (advanceSlot name lsn)) ∨ ∀ q ∈ s'.slots, q ∈ s.slots := by
  cases a with
  | register i fails =>
    obtain ⟨p, hp, hstep⟩ := Option.bind_eq_some_iff.1 hstep
    split at hstep
    · cases hstep
    · next hname =>
      cases hstep
      refine .inl ⟨p, rfl, fun q hq hsame => hname (any_eq_true.2 ⟨q, hq, ?_⟩)⟩
      exact beq_iff_eq.2 hsame
  | advance name lsn fails =>
    simp only [step, Option.ite_none_right_eq_some] at hstep
    cases hstep.2
    split
    · exact .inr (.inr fun q hq => hq)
    · exact .inr (.inl ⟨name, lsn, rfl⟩)
  | dropSlot name fails =>
    simp only [step, Option.ite_none_right_eq_some] at hstep
    cases hstep.2
    exact .inr (.inr fun q hq => (mem_filter.1 hq).1)
  | append | sync | readTail | checkpoint =>
    cases hstep
    exact .inr (.inr fun q hq => hq)
  | restart cut torn found =>
    simp only [step, Option.ite_none_right_eq_some] at hstep
    cases hstep.2
    exact .inr (.inr fun q hq => hcareful.1 ▸ hq)
  | logCheckpoint | writeControl | truncate =>
    simp only [step] at hstep
    split at hstep
    · cases hstep
      exact .inr (.inr fun q hq => hq)
    · cases hstep

theorem noRewind (hnames : (s.slots.map Slot.name).Nodup) (hcareful : s.Careful a)
    (hstep : s.step cap a = some s') : NoRewind s s' := by
  have hsame : ∀ p ∈ s.slots, ∀ q ∈ s.slots, p.name = q.name → p = q :=
    fun p hp q hq => inj_on_of_nodup_map hnames hp hq
  intro p hp q hq hname
  rcases step_slots hcareful hstep with ⟨new, heq, hnew⟩ | ⟨name, lsn, heq⟩ | hsub
  · rw [heq] at hq
    rcases mem_append.1 hq with hq | hq
    · rw [hsame p hp q hq hname]
    · exact absurd (hname.trans (congrArg Slot.name (mem_singleton.1 hq))) (hnew p hp)
  · rw [heq] at hq
    obtain ⟨before, hbefore, rfl⟩ := mem_map.1 hq
    rw [hsame p hp before hbefore (hname.trans (advanceSlot_name name lsn before))]
    exact le_advanceSlot name lsn before
  · rw [hsame p hp q (hsub q hq) hname]

end State

/-! ## The slots' guarantee -/

/-- **Slots keep their log over careful runs**: whatever appends, syncs, slot requests, checkpoints
and restarts a run mixes, every slot that lags by at most the cap still gets all that it has not
confirmed, and no careful step takes a slot back. -/
theorem slots_keep_wal (cap : Nat) (s : State)
    (h : Reached (State.step cap) State.Careful State.new s) :
    s.Kept cap ∧ ∀ a s', s.Careful a → s.step cap a = some s' → s.NoRewind s' := by
  have hinv : s.Inv cap := h.invariant (State.Inv cap) (State.inv_new cap)
    fun _ _ _ hinv hok hstep => hinv.step hok hstep
  exact ⟨hinv.kept, fun a s' hcareful hstep => State.noRewind hinv.names hcareful hstep⟩

/-- A run with two slots, a checkpoint that removes a segment, an advance whose file is not written
and one whose file is, and a restart. -/
def carefulRun : List Action :=
  [.append 7 false, .readTail "replica", .register 0 false, .append 8 true, .sync 2,
    .readTail "archive", .register 0 false, .append 9 true, .checkpoint, .logCheckpoint 0 0 false,
    .writeControl 0, .truncate 0, .advance "replica" 4 true, .advance "archive" 4 false,
    .restart 0 false (some [⟨"replica", 4⟩, ⟨"archive", 4⟩]), .append 5 false, .sync 5]

theorem slots_keep_wal_carefulRun :
    (runState (State.step 100) State.new carefulRun).slots.length = 2 ∧
      (runState (State.step 100) State.new carefulRun).Kept 100 := by
  refine ⟨by decide +kernel, (slots_keep_wal 100 _ (RunAllowed.reached_runState ?_ ?_)).1⟩ <;>
    decide +kernel

/-- A consumer at LSN 0, one durable record, a restart. -/
def restartRun : List Action :=
  [.readTail "replica", .register 0 false, .append 7 false, .sync 1,
    .restart 0 false (some [⟨"replica", 0⟩])]

/-- **After a restart nothing is shipped**: the log is reopened with no durable frontier, so the
slot's record is in the file and not in the stream. -/
theorem restart_ships_nothing :
    ¬∀ (cap : Nat) (s : State), Reached (State.step cap) (fun _ _ => True) State.new s →
      s.Kept cap ∧ ∀ a s', s.step cap a = some s' → s.NoRewind s' := by
  intro h
  have hreached : Reached (State.step 100) (fun _ _ => True) State.new
      (runState (State.step 100) State.new restartRun) :=
    reached_runState (by simp) (by decide +kernel)
  exact absurd (h 100 _ hreached).1 (by decide +kernel)

/-- A slot that is entered while a checkpoint that saw no slot is under way: its log is removed. -/
def lateSlotRun : List Action :=
  [.append 7 false, .checkpoint, .readTail "replica", .register 0 false, .append 8 true,
    .append 9 true, .sync 3, .logCheckpoint 0 0 false, .writeControl 0, .truncate 0]

example : ¬(runState (State.step 100) State.new lateSlotRun).Kept 100 := by decide +kernel

/-- An advance whose file is not written; the restart takes the slot back from 1 to 0. -/
def staleFileRun : List Action :=
  [.readTail "replica", .register 0 false, .append 7 false, .sync 1, .advance "replica" 1 true,
    .restart 0 false (some [⟨"replica", 0⟩])]

example : (runState (State.step 100) State.new (staleFileRun.take 5)).slots = [⟨"replica", 1⟩] ∧
    (runState (State.step 100) State.new staleFileRun).slots = [⟨"replica", 0⟩] := by
  decide +kernel

end UniDb.Replication
