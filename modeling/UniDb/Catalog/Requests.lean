import UniDb.Catalog.Store
import UniDb.Lib.Run

/-!
# SQL requests and the catalog root (`lib.rs`: `execute_sql_inner`, `execute_sql_inner_as_principal`,
`run_bound_plans`, `restore_catalog_root`; `catalog.rs`: `persist`, `load`)

A request saves the control file's catalog root when it starts. Its statements change the catalog in
memory and persist every change on fresh pages, after which the root points at them. When a
statement fails, `restore_catalog_root` takes the control file back to the saved root and then
replaces the catalog in memory by the one it loaded from there, two steps between which other
sessions can run. A restart loads the catalog from the root.

A change is one step: it is made under the exclusive catalog lock and seen by others only through
the root. Failures of the disk are left out. The fields of `Db` after `nextRequest` record what has
happened so far; no step reads them.

* one `*_spec` lemma for each event says what the step does and when it is possible.
* `Db.Sound.step`: what holds in every run, whatever fails.
-/

namespace UniDb

open Option Function Nat List

/-- How a request came in. The parameterised entry points bind the parameters of each statement
first and return at once, without a restore, if that fails. -/
inductive EntryPoint where
  | plain
  | bound
deriving DecidableEq, Repr

inductive RequestPhase where
  | running
  /-- A statement has failed; `restore_catalog_root` is called next. -/
  | failing
  /-- The root is back at the saved one and the catalog has been loaded from it. -/
  | restoring (reloaded : Catalog)

structure Request where
  id : Nat
  entry : EntryPoint
  savedRoot : Option Nat
  phase : RequestPhase
  /-- The clock when the request started, and how far its own changes and its restore have moved
  it since. -/
  start : Nat
  own : Nat
  /-- How many SERIAL values had been handed out when the request started. -/
  serials : Nat

/-- A change as it was made: by which request, with which fresh page. -/
structure LoggedChange where
  request : Nat
  fresh : Nat
  change : CatalogChange

structure Db where
  catalog : Catalog
  /-- `control.catalog_root`; `none` is `INVALID_PAGE_ID`. -/
  root : Option Nat
  /-- The catalog a chain of pages holds, by its first page. -/
  blobs : Nat → Catalog
  nextPage : Nat
  /-- The request each session is in. -/
  requests : Nat → Option Request
  nextRequest : Nat
  /-- Every change made, in order. -/
  log : List LoggedChange
  /-- The requests that failed. -/
  failed : List Nat
  /-- The SERIAL values handed out: table, column, value. -/
  handed : List (Nat × String × Int)
  clock : Nat
  /-- The session that is between the two steps of its restore. -/
  restorer : Option Nat

inductive Event where
  | start (s : Nat) (entry : EntryPoint)
  | change (s : Nat) (ch : CatalogChange)
  | failStatement (s : Nat)
  | failBind (s : Nat)
  | restoreRoot (s : Nat)
  | restoreMemory (s : Nat)
  | finish (s : Nat)
  | restart

namespace Db

def empty : Db where
  catalog := {}
  root := none
  blobs := fun _ => {}
  nextPage := 0
  requests := fun _ => none
  nextRequest := 0
  log := []
  failed := []
  handed := []
  clock := 0
  restorer := none

section
variable (db : Db) (s : Nat) (q : Request) (ch : CatalogChange)

def load : Option Nat → Catalog
  | none => {}
  | some p => db.blobs p

def setRequest (q : Option Request) : Db :=
  { db with requests := update db.requests s q }

def endFailed : Db :=
  { db.setRequest s none with failed := q.id :: db.failed }

/-- A mutator that went through, with `persist`: the new catalog on fresh pages, then the root. -/
def persistChange (c : Catalog) : Db :=
  { db.setRequest s (some { q with own := q.own + 1 }) with
    catalog := c
    root := some (db.nextPage + 1)
    blobs := update db.blobs (db.nextPage + 1) c
    nextPage := db.nextPage + 2
    log := db.log ++ [⟨q.id, db.nextPage, ch⟩]
    handed := db.handed ++ (ch.handsOut db.catalog).toList
    clock := db.clock + 1 }

def begin (entry : EntryPoint) : Option Db :=
  if (db.requests s).isNone then
    some { db.setRequest s (some
        { id := db.nextRequest, entry := entry, savedRoot := db.root, phase := .running
          start := db.clock, own := 0, serials := db.handed.length }) with
      nextRequest := db.nextRequest + 1 }
  else none

def change : Option Db := do
  let q ← db.requests s
  match q.phase with
  | .running =>
    match ch.apply db.nextPage db.catalog with
    | .ok c => some (db.persistChange s q ch c)
    | .error _ => some (db.setRequest s (some { q with phase := .failing }))
  | _ => none

def failStatement : Option Db := do
  let q ← db.requests s
  match q.phase with
  | .running => some (db.setRequest s (some { q with phase := .failing }))
  | _ => none

def failBind : Option Db := do
  let q ← db.requests s
  match q.phase, q.entry with
  | .running, .bound => some (db.endFailed s q)
  | _, _ => none

/-- The first half of `restore_catalog_root`, under the control lock. -/
def restoreRoot : Option Db := do
  let q ← db.requests s
  match q.phase with
  | .failing =>
    if db.root = q.savedRoot then some (db.endFailed s q)
    else
      some { db.setRequest s (some
          { q with phase := .restoring (db.load q.savedRoot), own := q.own + 1 }) with
        root := q.savedRoot
        clock := db.clock + 1
        restorer := some s }
  | _ => none

/-- The second half, under the catalog lock. -/
def restoreMemory : Option Db := do
  let q ← db.requests s
  match q.phase with
  | .restoring reloaded => some { db.endFailed s q with catalog := reloaded, restorer := none }
  | _ => none

def finish : Option Db := do
  let q ← db.requests s
  match q.phase with
  | .running => some (db.setRequest s none)
  | _ => none

def restart : Db :=
  { db with catalog := db.load db.root, requests := fun _ => none, restorer := none }

def step : Event → Option Db
  | .start s entry => db.begin s entry
  | .change s ch => db.change s ch
  | .failStatement s => db.failStatement s
  | .failBind s => db.failBind s
  | .restoreRoot s => db.restoreRoot s
  | .restoreMemory s => db.restoreMemory s
  | .finish s => db.finish s
  | .restart => some db.restart

end

/-! ## What the steps do -/

variable {db db' : Db} {s s' : Nat} {q q' : Request}

variable {r : Option Request} {entry : EntryPoint} {ch : CatalogChange}

lemma begin_spec (h : db.begin s entry = some db') : db.requests s = none ∧
      db' = { db.setRequest s (some
          { id := db.nextRequest, entry := entry, savedRoot := db.root, phase := .running
            start := db.clock, own := 0, serials := db.handed.length }) with
        nextRequest := db.nextRequest + 1 } := by
  unfold begin at h
  split at h
  · next hnone => exact ⟨isNone_iff_eq_none.1 hnone, (some.inj h).symm⟩
  · cases h

lemma of_running {f : Request → Option Db} (h : (do
      let q ← db.requests s
      match q.phase with
      | .running => f q
      | _ => none) = some db') :
    ∃ q, db.requests s = some q ∧ q.phase = .running ∧ f q = some db' := by
  obtain ⟨q, hq, h⟩ := bind_eq_some_iff.1 h
  cases hp : q.phase with
  | running =>
    simp only [hp] at h
    exact ⟨q, hq, hp, h⟩
  | failing | restoring c => simp [hp] at h

lemma change_spec (h : db.change s ch = some db') :
    ∃ q, db.requests s = some q ∧ q.phase = .running ∧
      ((∃ c, ch.apply db.nextPage db.catalog = .ok c ∧ db' = db.persistChange s q ch c) ∨
        db' = db.setRequest s (some { q with phase := .failing })) := by
  obtain ⟨q, hq, hp, h⟩ := of_running h
  refine ⟨q, hq, hp, ?_⟩
  split at h
  · next c ha => exact .inl ⟨c, ha, (some.inj h).symm⟩
  · exact .inr (some.inj h).symm

lemma failStatement_spec (h : db.failStatement s = some db') :
    ∃ q, db.requests s = some q ∧ q.phase = .running ∧
      db' = db.setRequest s (some { q with phase := .failing }) := by
  obtain ⟨q, hq, hp, h⟩ := of_running h
  exact ⟨q, hq, hp, (some.inj h).symm⟩

lemma failBind_spec (h : db.failBind s = some db') :
    ∃ q, db.requests s = some q ∧ q.phase = .running ∧ q.entry = .bound ∧
      db' = db.endFailed s q := by
  obtain ⟨q, hq, h⟩ := bind_eq_some_iff.1 h
  refine ⟨q, hq, ?_⟩
  cases hp : q.phase with
  | running =>
    cases he : q.entry with
    | bound =>
      simp only [hp, he, some.injEq] at h
      exact ⟨rfl, rfl, h.symm⟩
    | plain => simp [he] at h
  | failing | restoring c => simp [hp] at h

lemma restoreRoot_spec (h : db.restoreRoot s = some db') :
    ∃ q, db.requests s = some q ∧ q.phase = .failing ∧
      (db.root = q.savedRoot ∧ db' = db.endFailed s q ∨ db.root ≠ q.savedRoot ∧
          db' = { db.setRequest s (some
              { q with phase := .restoring (db.load q.savedRoot), own := q.own + 1 }) with
            root := q.savedRoot, clock := db.clock + 1, restorer := some s }) := by
  obtain ⟨q, hq, h⟩ := bind_eq_some_iff.1 h
  refine ⟨q, hq, ?_⟩
  cases hp : q.phase with
  | running => simp [hp] at h
  | failing =>
    simp only [hp] at h
    refine ⟨rfl, ?_⟩
    split at h
    · next hroot => exact .inl ⟨hroot, (some.inj h).symm⟩
    · next hroot => exact .inr ⟨hroot, (some.inj h).symm⟩
  | restoring c => simp [hp] at h

lemma restoreMemory_spec (h : db.restoreMemory s = some db') :
    ∃ q c, db.requests s = some q ∧ q.phase = .restoring c ∧
      db' = { db.endFailed s q with catalog := c, restorer := none } := by
  obtain ⟨q, hq, h⟩ := bind_eq_some_iff.1 h
  cases hp : q.phase with
  | running | failing => simp [hp] at h
  | restoring c =>
    simp only [hp, some.injEq] at h
    exact ⟨q, c, hq, hp, h.symm⟩

lemma finish_spec (h : db.finish s = some db') :
    ∃ q, db.requests s = some q ∧ q.phase = .running ∧ db' = db.setRequest s none := by
  obtain ⟨q, hq, hp, h⟩ := of_running h
  exact ⟨q, hq, hp, (some.inj h).symm⟩

/-! ## What holds in every run -/

/-- The blob of an old root is never written again. -/
lemma load_congr {root : Option Nat} (hroot : ∀ p, root = some p → p < db.nextPage)
    (hblobs : ∀ p, p < db.nextPage → db'.blobs p = db.blobs p) : db'.load root = db.load root := by
  cases root with
  | none => rfl
  | some p => exact hblobs p (hroot p rfl)

structure RequestOk (db : Db) (q : Request) : Prop where
  saved_lt : ∀ p, q.savedRoot = some p → p < db.nextPage
  reloaded : ∀ c, q.phase = .restoring c → c = db.load q.savedRoot
  id_lt : q.id < db.nextRequest
  unfailed : q.id ∉ db.failed
  clock_le : q.start + q.own ≤ db.clock
  serials_le : q.serials ≤ db.handed.length
  quiet : q.own = 0 → ∀ e ∈ db.log, e.request ≠ q.id

structure Sound (db : Db) : Prop where
  root_lt : ∀ p, db.root = some p → p < db.nextPage
  log_lt : ∀ e ∈ db.log, e.request < db.nextRequest
  failed_lt : ∀ i ∈ db.failed, i < db.nextRequest
  requests : ∀ s q, db.requests s = some q → RequestOk db q
  distinct : ∀ s s' q q', db.requests s = some q → db.requests s' = some q' → q.id = q'.id → s = s'

lemma RequestOk.mono (h : RequestOk db q) (hpage : db.nextPage ≤ db'.nextPage)
    (hblobs : ∀ p, p < db.nextPage → db'.blobs p = db.blobs p)
    (hid : db.nextRequest ≤ db'.nextRequest) (hfailed : q.id ∉ db'.failed)
    (hclock : db.clock ≤ db'.clock) (hserials : db.handed.length ≤ db'.handed.length)
    (hlog : ∀ e ∈ db'.log, e ∈ db.log ∨ e.request ≠ q.id) : RequestOk db' q where
  saved_lt p hp := lt_of_lt_of_le (h.saved_lt p hp) hpage
  reloaded c hc := by rw [load_congr h.saved_lt hblobs, ← h.reloaded c hc]
  id_lt := lt_of_lt_of_le h.id_lt hid
  unfailed := hfailed
  clock_le := le_trans h.clock_le hclock
  serials_le := le_trans h.serials_le hserials
  quiet hown e he := (hlog e he).elim (h.quiet hown e) id

lemma sound_empty : Sound empty where
  root_lt _ h := by cases h
  log_lt _ h := by cases h
  failed_lt _ h := by cases h
  requests _ _ h := by cases h
  distinct _ _ _ _ h := by cases h

/-- One session's request is replaced by one with its id, or by a new one. -/
lemma Sound.update (h : Sound db) (hreq : db'.requests = update db.requests s r)
    (hroot : ∀ p, db'.root = some p → p < db'.nextPage)
    (hlog : ∀ e ∈ db'.log, e.request < db'.nextRequest)
    (hfailed : ∀ i ∈ db'.failed, i < db'.nextRequest)
    (hothers : ∀ s' q', s' ≠ s → db.requests s' = some q' → RequestOk db' q')
    (hr : ∀ q, r = some q → RequestOk db' q ∧ ((∃ q0, db.requests s = some q0 ∧ q.id = q0.id) ∨
      ∀ s' q', db.requests s' = some q' → q.id ≠ q'.id)) : Sound db' := by
  refine ⟨hroot, hlog, hfailed, fun s1 q1 h1 => ?_, fun s1 s2 q1 q2 h1 h2 hid => ?_⟩
  · rw [hreq] at h1
    rcases eq_of_update h1 with ⟨-, hr1⟩ | ⟨hs, h1⟩
    · exact (hr q1 hr1).1
    · exact hothers _ _ hs h1
  · rw [hreq] at h1 h2
    -- which of the two sessions is the updated one
    rcases eq_of_update h1 with ⟨rfl, hr1⟩ | ⟨-, hu1⟩ <;>
      rcases eq_of_update h2 with ⟨hs, hr2⟩ | ⟨-, hu2⟩
    · exact hs.symm
    · rcases (hr q1 hr1).2 with ⟨q0, hq0, hq1⟩ | hnew
      · exact h.distinct _ _ _ _ hq0 hu2 (hq1 ▸ hid)
      · exact absurd hid (hnew _ _ hu2)
    · rcases (hr q2 hr2).2 with ⟨q0, hq0, hq2⟩ | hnew
      · exact hs ▸ h.distinct _ _ _ _ hu1 hq0 (hid.trans hq2)
      · exact absurd hid.symm (hnew _ _ hu1)
    · exact h.distinct _ _ _ _ hu1 hu2 hid

lemma RequestOk.setRequest (h : RequestOk db q) : RequestOk (db.setRequest s r) q :=
  ⟨h.1, h.2, h.3, h.4, h.5, h.6, h.7⟩

section

variable (h : Sound db)
include h

lemma Sound.setRequest
    (hr : ∀ q', r = some q' → RequestOk db q' ∧ ∃ q, db.requests s = some q ∧ q'.id = q.id) :
    Sound (db.setRequest s r) :=
  h.update rfl h.root_lt h.log_lt h.failed_lt (fun _ _ _ h1 => (h.requests _ _ h1).setRequest)
    fun q' hq' => ⟨(hr q' hq').1.setRequest, .inl (hr q' hq').2⟩

lemma Sound.failing (hq : db.requests s = some q) :
    Sound (db.setRequest s (some { q with phase := .failing })) :=
  have hok := h.requests s q hq
  h.setRequest fun q' hq' => by
    cases hq'
    exact ⟨⟨hok.saved_lt, nofun, hok.id_lt, hok.unfailed, hok.clock_le, hok.serials_le, hok.quiet⟩,
      q, hq, rfl⟩

lemma Sound.clear : Sound (db.setRequest s none) := h.setRequest nofun

lemma Sound.endFailed (hq : db.requests s = some q) : Sound (db.endFailed s q) := by
  refine h.update rfl h.root_lt h.log_lt
    (forall_mem_cons.2 ⟨(h.requests s q hq).id_lt, h.failed_lt⟩) (fun s1 q1 hs h1 => ?_) nofun
  have hok1 := h.requests _ _ h1
  refine hok1.mono (le_refl _) (fun _ _ => rfl) (le_refl _) ?_ (le_refl _) (le_refl _)
    fun e he => .inl he
  rw [Db.endFailed, mem_cons, not_or]
  exact ⟨fun hid => hs (h.distinct _ _ _ _ h1 hq hid), hok1.unfailed⟩

lemma Sound.persistChange (hq : db.requests s = some q) (hp : q.phase = .running)
    {c : Catalog} : Sound (db.persistChange s q ch c) := by
  have hok := h.requests _ _ hq
  have hlen : db.handed.length ≤ (db.persistChange s q ch c).handed.length := by
    rw [Db.persistChange, length_append]
    omega
  refine h.update rfl (fun p hp => ?_) (fun e he => ?_) h.failed_lt (fun s1 q1 hs h1 => ?_)
    fun q' hq' => ?_
  · cases hp
    exact lt_succ_self _
  · rcases mem_append.1 he with he | he
    · exact h.log_lt e he
    · rw [mem_singleton.1 he]
      exact hok.id_lt
  · have hok1 := h.requests _ _ h1
    refine hok1.mono (le_add_right _ 2) (fun p hlt => update_of_ne (by omega) _ _)
      (le_refl _) hok1.unfailed (le_succ _) hlen fun e he => ?_
    rcases mem_append.1 he with he | he
    · exact .inl he
    · rw [mem_singleton.1 he]
      exact .inr fun hid => hs (h.distinct _ _ _ _ h1 hq hid.symm)
  · cases hq'
    have hclock := hok.clock_le
    refine ⟨⟨fun p hp => lt_of_lt_of_le (hok.saved_lt p hp) (le_add_right _ 2), fun c' hc' => ?_,
      hok.id_lt, hok.unfailed, ?_, le_trans hok.serials_le hlen, nofun⟩, .inl ⟨q, hq, rfl⟩⟩
    · cases hp.symm.trans hc'
    · show q.start + (q.own + 1) ≤ db.clock + 1
      omega

lemma Sound.begin (hstep : db.begin s entry = some db') : Sound db' := by
  obtain ⟨hnone, rfl⟩ := begin_spec hstep
  refine h.update rfl h.root_lt (fun e he => lt_succ_of_lt (h.log_lt e he))
    (fun i hi => lt_succ_of_lt (h.failed_lt i hi)) (fun s1 q1 _ h1 => ?_) fun q' hq' => ?_
  · have hok1 := h.requests _ _ h1
    exact hok1.mono (le_refl _) (fun _ _ => rfl) (le_succ _) hok1.unfailed (le_refl _)
      (le_refl _) fun e he => .inl he
  · cases hq'
    refine ⟨⟨h.root_lt, nofun, lt_succ_self _, fun hmem => lt_irrefl _ (h.failed_lt _ hmem),
      le_refl _, le_refl _, fun _ e he hid => (h.log_lt e he).ne hid⟩,
      .inr fun s' q' hq' => (h.requests s' q' hq').id_lt.ne'⟩

lemma Sound.restoreRoot (hstep : db.restoreRoot s = some db') : Sound db' := by
  obtain ⟨q, hq, hp, ⟨-, rfl⟩ | ⟨-, rfl⟩⟩ := restoreRoot_spec hstep
  · exact h.endFailed hq
  · have hok := h.requests s q hq
    refine h.update rfl hok.saved_lt h.log_lt h.failed_lt (fun s1 q1 _ h1 => ?_) fun q' hq' => ?_
    · have hok1 := h.requests _ _ h1
      exact hok1.mono (le_refl _) (fun _ _ => rfl) (le_refl _) hok1.unfailed (le_succ _)
        (le_refl _) fun e he => .inl he
    · cases hq'
      have hclock := hok.clock_le
      refine ⟨⟨hok.saved_lt, fun c hc => ?_, hok.id_lt, hok.unfailed, ?_, hok.serials_le, nofun⟩,
        .inl ⟨q, hq, rfl⟩⟩
      · cases hc
        rfl
      · show q.start + (q.own + 1) ≤ db.clock + 1
        omega

lemma Sound.restoreMemory (hstep : db.restoreMemory s = some db') : Sound db' := by
  obtain ⟨q, c, hq, -, rfl⟩ := restoreMemory_spec hstep
  have he := h.endFailed hq
  exact ⟨he.root_lt, he.log_lt, he.failed_lt, fun s1 q1 h1 =>
    have hok := he.requests s1 q1 h1
    ⟨hok.1, hok.2, hok.3, hok.4, hok.5, hok.6, hok.7⟩, he.distinct⟩

theorem Sound.step {ev : Event} (hstep : db.step ev = some db') : Sound db' := by
  cases ev with
  | start s entry => exact h.begin hstep
  | change s ch =>
    obtain ⟨q, hq, hp, ⟨c, -, rfl⟩ | rfl⟩ := change_spec hstep
    · exact h.persistChange hq hp
    · exact h.failing hq
  | failStatement s =>
    obtain ⟨q, hq, -, rfl⟩ := failStatement_spec hstep
    exact h.failing hq
  | failBind s =>
    obtain ⟨q, hq, -, -, rfl⟩ := failBind_spec hstep
    exact h.endFailed hq
  | restoreRoot s => exact h.restoreRoot hstep
  | restoreMemory s => exact h.restoreMemory hstep
  | finish s =>
    obtain ⟨q, hq, -, rfl⟩ := finish_spec hstep
    exact h.clear
  | restart =>
    cases hstep
    exact ⟨h.root_lt, h.log_lt, h.failed_lt, nofun, nofun⟩

end

end Db

end UniDb
