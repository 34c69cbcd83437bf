import UniDb.Catalog.Requests

/-!
# What a failed request takes back (`lib.rs`: `restore_catalog_root`)

A failed request should leave the catalog that the changes of the other requests make
(`Db.UndoesOwnOnly`). It leaves the catalog as it was when the request started, whoever changed it
since, and if its parameters could not be bound it leaves everything.

* `Db.RollbackInv.step`: the catalog is the replay of the standing changes as long as a request
  that fails was alone in changing the catalog.
-/

namespace UniDb

open List

/-! ## The catalog to expect -/

/-- The changes of the requests that have not failed. -/
def Db.standing (db : Db) : List LoggedChange := db.log.filter fun e => e.request ∉ db.failed

/-- The catalog that changes make, in order, each with the page it was given. -/
def replay (changes : List LoggedChange) : Except DbError Catalog :=
  changes.foldlM (fun c e => e.change.apply e.fresh c) {}

structure Catalog.Same (c c' : Catalog) : Prop where
  tables : ∀ name, c.tables.lookup name = c'.tables.lookup name
  types : ∀ name, c.types.lookup name = c'.types.lookup name
  triggers : ∀ name, c.triggers.lookup name = c'.triggers.lookup name

/-- **A failed request only undoes its own changes**: the catalog in memory, and outside a restore
the one on disk, is the one the standing changes make. -/
def Db.UndoesOwnOnly (db : Db) : Prop :=
  ∃ c, replay db.standing = .ok c ∧ c.Same db.catalog ∧
    (db.restorer = none → c.Same (db.load db.root))

/-- The session whose restore a step completes. -/
def Event.restores : Event → Option Nat
  | .restoreMemory s => some s
  | _ => none

/-- Interleaving at statement granularity: nothing happens between the two steps of a restore. -/
def Db.Granular (db : Db) (ev : Event) : Prop :=
  ∀ s ∈ db.restorer, ev.restores = some s

/-- A request whose failure is rolled back was alone in changing the catalog since it started, or
did not change it and finds it as it was; a request that ends without a rollback changed nothing. -/
def Db.ChangedAlone (db : Db) : Event → Prop
  | .failBind s => ∀ q ∈ db.requests s, q.own = 0
  | .restoreRoot s => ∀ q ∈ db.requests s,
      db.clock = q.start + q.own ∨ q.own = 0 ∧ db.root = q.savedRoot
  | _ => True

lemma Catalog.Same.refl (c : Catalog) : c.Same c := ⟨fun _ => rfl, fun _ => rfl, fun _ => rfl⟩

variable {c : Catalog}

lemma replay_snoc {changes : List LoggedChange} {e : LoggedChange} {c' : Catalog}
    (h : replay changes = .ok c) (he : e.change.apply e.fresh c = .ok c') :
    replay (changes ++ [e]) = .ok c' := by
  unfold replay at h ⊢
  rw [foldlM_append, h]
  simp [bind, Except.bind, pure, Except.pure, he]

namespace Db

variable {db db' : Db} {s : Nat} {q : Request}

lemma standing_endFailed :
    (db.endFailed s q).standing = db.standing.filter fun e => e.request ≠ q.id := by
  unfold standing
  rw [filter_filter]
  refine filter_congr fun e _ => ?_
  simp [endFailed]

variable {ch : CatalogChange}

lemma standing_persistChange (hid : q.id ∉ db.failed) :
    (db.persistChange s q ch c).standing = db.standing ++ [⟨q.id, db.nextPage, ch⟩] := by
  have hone : ([⟨q.id, db.nextPage, ch⟩] : List LoggedChange).filter
      (fun e => e.request ∉ db.failed) = [⟨q.id, db.nextPage, ch⟩] :=
    filter_cons_of_pos (decide_eq_true hid)
  unfold standing
  rw [← hone]
  exact filter_append ..

lemma Sound.standing_quiet (h : Sound db) (hq : db.requests s = some q) (hown : q.own = 0) :
    (db.standing.filter fun e => e.request ≠ q.id) = db.standing := by
  rw [filter_eq_self]
  intro e he
  exact decide_eq_true ((h.requests s q hq).quiet hown e (mem_of_mem_filter he))

/-! ## The invariant -/

structure RollbackInv (db : Db) : Prop extends Sound db where
  current : replay db.standing = .ok db.catalog
  durable : db.restorer = none → db.load db.root = db.catalog
  /-- Only the restorer is between the two steps. -/
  restoring : ∀ s q c, db.requests s = some q → q.phase = .restoring c → db.restorer = some s
  restorerOk : ∀ s, db.restorer = some s → ∃ q, db.requests s = some q ∧
    db.root = q.savedRoot ∧ db.clock = q.start + q.own ∧
    ∀ s' q', s' ≠ s → db.requests s' = some q' → db.clock ≠ q'.start + q'.own
  /-- The saved catalog is the one without the request, unless others have changed it. -/
  saved : ∀ s q, db.requests s = some q → db.clock = q.start + q.own →
    replay (db.standing.filter fun e => e.request ≠ q.id) = .ok (db.load q.savedRoot)
  moved : ∀ s q, db.requests s = some q → db.clock = q.start + q.own → q.own ≠ 0 →
    db.restorer = none → db.root ≠ q.savedRoot

lemma rollbackInv_empty : RollbackInv empty where
  toSound := sound_empty
  current := rfl
  durable _ := rfl
  restoring _ _ _ h := by cases h
  restorerOk _ h := by cases h
  saved _ _ h := by cases h
  moved _ _ h := by cases h

/-- What the invariant says about a request while none is restored. -/
def IdleOk (db : Db) (q : Request) : Prop :=
  (∀ c, q.phase ≠ .restoring c) ∧ (db.clock = q.start + q.own →
    replay (db.standing.filter fun e => e.request ≠ q.id) = .ok (db.load q.savedRoot) ∧
      (q.own ≠ 0 → db.root ≠ q.savedRoot))

lemma RollbackInv.idle (h : RollbackInv db) (hidle : db.restorer = none)
    (hq : db.requests s = some q) : IdleOk db q := by
  refine ⟨fun c hc => ?_, fun hclock => ⟨h.saved s q hq hclock,
    fun hne => h.moved s q hq hclock hne hidle⟩⟩
  cases hidle.symm.trans (h.restoring s q c hq hc)

lemma RollbackInv.of_idle (hsound : Sound db) (hcurrent : replay db.standing = .ok db.catalog)
    (hdurable : db.load db.root = db.catalog) (hidle : db.restorer = none)
    (hrequests : ∀ s q, db.requests s = some q → IdleOk db q) : RollbackInv db where
  toSound := hsound
  current := hcurrent
  durable _ := hdurable
  restoring s q c hq hc := absurd hc ((hrequests s q hq).1 c)
  restorerOk s hs := by cases hidle.symm.trans hs
  saved s q hq hclock := ((hrequests s q hq).2 hclock).1
  moved s q hq hclock hne _ := ((hrequests s q hq).2 hclock).2 hne

section

variable (h : RollbackInv db)
include h

lemma RollbackInv.failing (hq : db.requests s = some q) (hidle : db.restorer = none) :
    RollbackInv (db.setRequest s (some { q with phase := .failing })) := by
  refine .of_idle (h.toSound.failing hq) h.current (h.durable hidle) hidle fun s1 q1 h1 => ?_
  rcases eq_of_update h1 with ⟨-, hr⟩ | ⟨-, h1⟩
  · cases hr
    exact ⟨nofun, (h.idle hidle hq).2⟩
  · exact h.idle hidle h1

lemma RollbackInv.clear (hidle : db.restorer = none) : RollbackInv (db.setRequest s none) := by
  refine .of_idle h.toSound.clear h.current (h.durable hidle) hidle fun s1 q1 h1 => ?_
  rcases eq_of_update h1 with ⟨-, hr⟩ | ⟨-, h1⟩
  · cases hr
  · exact h.idle hidle h1

lemma RollbackInv.endQuiet (hq : db.requests s = some q)
    (hown : q.own = 0) (hidle : db.restorer = none) : RollbackInv (db.endFailed s q) := by
  have hclear := h.clear (s := s) hidle
  have hstanding : (db.endFailed s q).standing = db.standing := by
    rw [standing_endFailed, h.standing_quiet hq hown]
  refine ⟨h.toSound.endFailed hq, ?_, hclear.durable, hclear.restoring, hclear.restorerOk, ?_,
    hclear.moved⟩
  · rw [hstanding]
    exact h.current
  · rw [hstanding]
    exact hclear.saved

lemma RollbackInv.persistChange (hq : db.requests s = some q)
    (hp : q.phase = .running) (hidle : db.restorer = none)
    (happly : ch.apply db.nextPage db.catalog = .ok c) :
    RollbackInv (db.persistChange s q ch c) := by
  have hok := h.requests s q hq
  have hstanding : (db.persistChange s q ch c).standing =
      db.standing ++ [⟨q.id, db.nextPage, ch⟩] := standing_persistChange hok.unfailed
  refine .of_idle (h.toSound.persistChange hq hp) ?_ ?_ hidle fun s1 q1 h1 => ?_
  · rw [hstanding]
    exact replay_snoc h.current happly
  · exact Function.update_self (db.nextPage + 1) c db.blobs
  · rcases eq_of_update h1 with ⟨rfl, hr⟩ | ⟨-, h1⟩
    · -- its own change is filtered out, and its saved root is an old one
      cases hr
      refine ⟨(h.idle hidle hq).1, fun hclock => ⟨?_, fun _ hroot => ?_⟩⟩
      · have hload : (db.persistChange s1 q ch c).load q.savedRoot = db.load q.savedRoot :=
          load_congr hok.saved_lt fun p hp => Function.update_of_ne (by omega) _ _
        rw [hstanding, filter_append]
        simp only [ne_eq, not_true_eq_false, decide_false, Bool.false_eq_true, not_false_eq_true,
          filter_cons_of_neg, filter_nil, append_nil]
        rw [hload]
        refine h.saved _ _ hq ?_
        change db.clock + 1 = q.start + (q.own + 1) at hclock
        omega
      · have := hok.saved_lt (db.nextPage + 1) hroot.symm
        omega
    · refine ⟨(h.idle hidle h1).1, fun hclock => ?_⟩
      have hle := (h.requests _ _ h1).clock_le
      change db.clock + 1 = q1.start + q1.own at hclock
      omega

lemma RollbackInv.begin {entry : EntryPoint} (hidle : db.restorer = none)
    (hstep : db.begin s entry = some db') : RollbackInv db' := by
  have hsound := h.toSound.begin hstep
  obtain ⟨-, rfl⟩ := begin_spec hstep
  refine .of_idle hsound h.current (h.durable hidle) hidle fun s1 q1 h1 => ?_
  have hquiet := hsound.standing_quiet h1
  rcases eq_of_update h1 with ⟨-, hr⟩ | ⟨-, h1⟩
  · cases hr
    refine ⟨nofun, fun _ => ⟨?_, fun hne => absurd rfl hne⟩⟩
    exact (congrArg replay (hquiet rfl)).trans (h.current.trans (h.durable hidle ▸ rfl))
  · exact h.idle hidle h1

lemma RollbackInv.restoreRoot (hidle : db.restorer = none)
    (hok : db.ChangedAlone (.restoreRoot s)) (hstep : db.restoreRoot s = some db') :
    RollbackInv db' := by
  have hsound := h.toSound.restoreRoot hstep
  obtain ⟨q, hq, hp, ⟨hroot, rfl⟩ | ⟨hroot, rfl⟩⟩ := restoreRoot_spec hstep
  · -- the root has not moved, so the request made no change
    refine h.endQuiet hq ?_ hidle
    rcases hok q hq with hclock | ⟨hown, -⟩
    · by_contra hne
      exact h.moved s q hq hclock hne hidle hroot
    · exact hown
  · have hclock : db.clock = q.start + q.own := (hok q hq).resolve_right fun hno => hroot hno.2
    refine ⟨hsound, h.current, nofun, ?_, ?_, ?_, nofun⟩
    · intro s1 q1 c h1 hc
      rcases eq_of_update h1 with ⟨hs, -⟩ | ⟨-, h1⟩
      · exact congrArg some hs.symm
      · cases hidle.symm.trans (h.restoring _ _ _ h1 hc)
    · intro s1 h1
      cases h1
      refine ⟨_, Function.update_self _ _ _, rfl, ?_, ?_⟩
      · show db.clock + 1 = q.start + (q.own + 1)
        omega
      · intro s' q' hs h'
        have hle := (h.requests s' q' ((Function.update_of_ne hs _ _).symm.trans h')).clock_le
        show db.clock + 1 ≠ q'.start + q'.own
        omega
    · intro s1 q1 h1 hclock1
      rcases eq_of_update h1 with ⟨rfl, hr⟩ | ⟨-, h1⟩
      · cases hr
        have hsaved := h.saved _ _ hq hclock
        exact hsaved
      · have hle := (h.requests _ _ h1).clock_le
        change db.clock + 1 = q1.start + q1.own at hclock1
        omega

lemma RollbackInv.restoreMemory (hstep : db.restoreMemory s = some db') : RollbackInv db' := by
  have hsound := h.toSound.restoreMemory hstep
  obtain ⟨q, c, hq, hp, rfl⟩ := restoreMemory_spec hstep
  have hrestorer := h.restoring s q c hq hp
  obtain ⟨q0, hq0, hroot, hclock, hothers⟩ := h.restorerOk s hrestorer
  cases hq.symm.trans hq0
  have hc := (h.requests s q hq).reloaded c hp
  refine .of_idle hsound ?_ (by rw [hc, ← hroot]; rfl) rfl fun s1 q1 h1 => ?_
  · show replay (db.endFailed s q).standing = .ok c
    rw [standing_endFailed, hc]
    exact h.saved s q hq hclock
  · rcases eq_of_update h1 with ⟨-, hr⟩ | ⟨hs, h1⟩
    · cases hr
    · refine ⟨fun c1 hc1 => ?_, fun hclock1 => absurd hclock1 (hothers s1 q1 hs h1)⟩
      cases hrestorer.symm.trans (h.restoring _ _ _ h1 hc1)
      exact hs rfl

end

lemma Granular.cases {ev : Event} (h : db.Granular ev) :
    db.restorer = none ∨ ∃ s, ev = .restoreMemory s := by
  cases hr : db.restorer with
  | none => exact .inl rfl
  | some s =>
    have hev := h s hr
    cases ev with
    | restoreMemory s' => exact .inr ⟨s', rfl⟩
    | _ => cases hev

lemma RollbackInv.step (h : RollbackInv db) {ev : Event} (hgran : db.Granular ev)
    (hok : db.ChangedAlone ev) (hstep : db.step ev = some db') : RollbackInv db' := by
  obtain hidle | ⟨s, rfl⟩ := hgran.cases
  · cases ev with
    | start s entry => exact h.begin hidle hstep
    | change s ch =>
      obtain ⟨q, hq, hp, ⟨c, happly, rfl⟩ | rfl⟩ := change_spec hstep
      · exact h.persistChange hq hp hidle happly
      · exact h.failing hq hidle
    | failStatement s =>
      obtain ⟨q, hq, -, rfl⟩ := failStatement_spec hstep
      exact h.failing hq hidle
    | failBind s =>
      obtain ⟨q, hq, -, -, rfl⟩ := failBind_spec hstep
      exact h.endQuiet hq (hok q hq) hidle
    | restoreRoot s => exact h.restoreRoot hidle hok hstep
    | restoreMemory s => exact h.restoreMemory hstep
    | finish s =>
      obtain ⟨q, hq, -, rfl⟩ := finish_spec hstep
      exact h.clear hidle
    | restart =>
      have hsound := h.toSound.step hstep
      have hload := h.durable hidle
      cases hstep
      refine .of_idle hsound ?_ rfl rfl nofun
      rw [restart, hload]
      exact h.current
  · exact h.restoreMemory hstep

end Db

/-- **A failed request only undoes its own changes** in every run in which it was alone in changing
the catalog while it ran, or neither changed it nor finds it changed. -/
theorem failed_request_undoes_own (db : Db)
    (h : Reached Db.step (fun db ev => db.Granular ev ∧ db.ChangedAlone ev) Db.empty db) :
    db.UndoesOwnOnly := by
  have hinv := h.invariant Db.RollbackInv Db.rollbackInv_empty
    fun _ _ _ hinv hok hstep => hinv.step hok.1 hok.2 hstep
  refine ⟨db.catalog, hinv.current, .refl _, fun hidle => ?_⟩
  rw [hinv.durable hidle]
  exact .refl _

/-! ## Two runs -/

instance (db : Db) (ev : Event) : Decidable (db.Granular ev) :=
  inferInstanceAs (Decidable (∀ s ∈ db.restorer, ev.restores = some s))

instance (db : Db) (a : Event) : Decidable (db.ChangedAlone a) := by
  cases a <;> dsimp only [Db.ChangedAlone] <;> infer_instance

def plainEntry (name : String) : TableEntry :=
  { name := name, columns := [{ name := "x", ty := .int64 }] }

def createPlain (s : Nat) (name : String) : List Event :=
  [.start s .plain, .change s (.createTable (plainEntry name)), .finish s]

/-- A request that creates a table, lets others run and then fails. -/
def failedCreate (s : Nat) (name : String) (others : List Event) : List Event :=
  [.start s .plain, .change s (.createTable (plainEntry name))] ++ others ++
    [.failStatement s, .restoreRoot s, .restoreMemory s]

/-- Session 1 fails between two requests of session 2. -/
theorem failed_request_undoes_own_between : (runState Db.step Db.empty
        (createPlain 2 "a" ++ failedCreate 1 "c" [] ++ createPlain 2 "b")).catalog.tables.keys =
        ["b", "a"] ∧ (runState Db.step Db.empty
        (createPlain 2 "a" ++ failedCreate 1 "c" [] ++ createPlain 2 "b")).UndoesOwnOnly :=
  ⟨by decide +kernel, failed_request_undoes_own _
    (RunAllowed.reached_runState (by decide +kernel) (by decide +kernel))⟩

/-- The table session 2 creates while session 1's request runs is gone when that request fails. -/
theorem failed_request_drops_other_table :
    ¬ ∀ db, Reached Db.step Db.Granular Db.empty db → db.UndoesOwnOnly := by
  intro h
  obtain ⟨c, hc, hsame, -⟩ := h (runState Db.step Db.empty (failedCreate 1 "c" (createPlain 2 "b")))
    (RunAllowed.reached_runState (by decide +kernel) (by decide +kernel))
  have hgone : (runState Db.step Db.empty
      (failedCreate 1 "c" (createPlain 2 "b"))).catalog.tables.lookup "b" = none := by
    decide +kernel
  have hexpected : (replay (runState Db.step Db.empty
      (failedCreate 1 "c" (createPlain 2 "b"))).standing).toOption.bind
        (fun c => c.tables.lookup "b") ≠ none := by decide +kernel
  rw [hc] at hexpected
  exact hexpected ((hsame.tables "b").trans hgone)

end UniDb
