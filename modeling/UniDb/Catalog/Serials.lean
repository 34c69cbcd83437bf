import UniDb.Catalog.Requests

/-!
# SERIAL values (`catalog.rs`: `alloc_serial`; `lib.rs`: `restore_catalog_root`)

The counters of a table's SERIAL columns are part of the catalog, so a failed request takes them
back to where they were when it started.

* `Db.SerialInv.step`: as long as a restore only comes when no value was handed out since its
  request started, every catalog that is or can become current is ahead of all values handed out.
-/

namespace UniDb

open List Function

/-! ## Catalogs that are ahead -/

/-- The catalog's counters lie beyond every value handed out. -/
def Catalog.Ahead (handed : List (Nat × String × Int)) (c : Catalog) : Prop :=
  ∀ name t, c.tables.lookup name = some t →
    ∀ column v, (t.birth, column, v) ∈ handed → v < t.nextSerial column

/-- Tables are told apart by their birth, all before `bound`. -/
structure Catalog.BirthsOk (bound : Nat) (c : Catalog) : Prop where
  lt : ∀ name t, c.tables.lookup name = some t → t.birth < bound
  inj : ∀ n₁ n₂ t₁ t₂, c.tables.lookup n₁ = some t₁ → c.tables.lookup n₂ = some t₂ →
    t₁.birth = t₂.birth → n₁ = n₂

variable {ch : CatalogChange}

section
variable {fresh bound : Nat} {c c' : Catalog} {handed : List (Nat × String × Int)}

lemma Catalog.BirthsOk.mono {bound' : Nat} (h : c.BirthsOk bound) (hle : bound ≤ bound') :
    c.BirthsOk bound' :=
  ⟨fun name t ht => lt_of_lt_of_le (h.lt name t ht) hle, h.inj⟩

lemma Catalog.birthsOk_empty : Catalog.BirthsOk bound {} :=
  ⟨(fun _ _ h => by cases h), (fun _ _ _ _ h => by cases h)⟩

lemma Catalog.Kept.birthsOk (hkept : Catalog.Kept fresh c c') (h : c.BirthsOk fresh) :
    c'.BirthsOk (fresh + 2) := by
  obtain ⟨born, hkept⟩ := hkept
  refine ⟨fun name t' ht' => ?_, fun n₁ n₂ t₁ t₂ h1 h2 hb => ?_⟩
  · rcases hkept name t' ht' with ⟨t, ht, hk⟩ | ⟨-, hb⟩
    · have := h.lt name t ht
      have := hk.birth
      omega
    · omega
  · rcases hkept n₁ t₁ h1 with ⟨u1, hu1, hk1⟩ | ⟨rfl, hb1⟩ <;>
      rcases hkept n₂ t₂ h2 with ⟨u2, hu2, hk2⟩ | ⟨hn2, hb2⟩
    · exact h.inj n₁ n₂ u1 u2 hu1 hu2 (hk1.birth.symm.trans (hb.trans hk2.birth))
    · have := h.lt n₁ u1 hu1
      have := hk1.birth
      omega
    · have := h.lt n₂ u2 hu2
      have := hk2.birth
      omega
    · exact hn2.symm

lemma Catalog.Kept.ahead (hkept : Catalog.Kept fresh c c') (h : c.Ahead handed)
    (hlt : ∀ x ∈ handed, x.1 < fresh) : c'.Ahead handed := by
  obtain ⟨born, hkept⟩ := hkept
  intro name t' ht' column v hv
  rcases hkept name t' ht' with ⟨t, ht, hk⟩ | ⟨-, hb⟩
  · exact lt_of_lt_of_le (h name t ht column v (hk.birth ▸ hv)) (hk.serials column)
  · have := hlt _ hv
    omega

lemma Catalog.Ahead.allocSerial {table column : String} {t : TableEntry} (h : c.Ahead handed)
    (hb : c.BirthsOk bound) (ht : c.tables.lookup table = some t)
    (halloc : c.allocSerial table column = .ok c') :
    c'.Ahead (handed ++ [(t.birth, column, t.nextSerial column)]) := by
  obtain ⟨t0, ht0, rfl⟩ := Catalog.allocSerial_eq_ok halloc
  cases ht.symm.trans ht0
  intro name u hu col v hv
  rw [mem_append, mem_singleton, Prod.mk.injEq] at hv
  by_cases hname : name = table
  · subst hname
    rw [AList.lookup_insert] at hu
    cases hu
    rw [TableEntry.nextSerial_insert]
    rcases hv with hv | ⟨-, rfl, rfl⟩
    · have hold := h name t ht col v hv
      split
      · next hcol =>
        subst hcol
        omega
      · exact hold
    · rw [if_pos rfl]
      omega
  · rw [AList.lookup_insert_ne hname] at hu
    rcases hv with hv | ⟨hbirth, -⟩
    · exact h name u hu col v hv
    · exact absurd (hb.inj name table u t hu ht hbirth) hname

/-- **One change**: the catalog stays ahead and no value comes twice. -/
theorem Catalog.Ahead.apply (h : c.Ahead handed) (hb : c.BirthsOk fresh)
    (hlt : ∀ x ∈ handed, x.1 < fresh) (hnd : handed.Nodup) (happly : ch.apply fresh c = .ok c') :
    c'.Ahead (handed ++ (ch.handsOut c).toList) ∧ (handed ++ (ch.handsOut c).toList).Nodup ∧
      ∀ x ∈ handed ++ (ch.handsOut c).toList, x.1 < fresh := by
  cases hout : ch.handsOut c with
  | none =>
    rw [Option.toList_none, append_nil]
    exact ⟨(CatalogChange.apply_kept happly).ahead h hlt, hnd, hlt⟩
  | some x =>
    cases ch with
    | allocSerial table column =>
      obtain ⟨t, ht, rfl⟩ := Option.map_eq_some_iff.1 hout
      refine ⟨h.allocSerial hb ht happly, ?_, ?_⟩
      · rw [Option.toList_some, ← concat_eq_append, nodup_concat]
        exact ⟨fun hmem => lt_irrefl _ (h table t ht column _ hmem), hnd⟩
      · intro y hy
        rw [Option.toList_some, mem_append, mem_singleton] at hy
        rcases hy with hy | rfl
        · exact hlt y hy
        · exact hb.lt table t ht
    | _ => cases hout

end

/-! ## Runs -/

/-- A restore happens only if no SERIAL value was handed out since its request started. -/
def Db.SerialSafe (db : Db) : Event → Prop
  | .restoreRoot s => ∀ q ∈ db.requests s, db.root ≠ q.savedRoot → q.serials = db.handed.length
  | .restoreMemory s => ∀ q ∈ db.requests s, q.serials = db.handed.length
  | _ => True

instance (db : Db) : DecidablePred db.SerialSafe
  | .restoreRoot _ | .restoreMemory _ => Option.decidableForallMem _
  | .start .. | .change .. | .failStatement _ | .failBind _ | .finish _ | .restart =>
      .isTrue trivial

namespace Db

structure SerialInv (db : Db) : Prop extends Sound db where
  memory : db.catalog.Ahead db.handed
  durable : (db.load db.root).Ahead db.handed
  saved : ∀ s q, db.requests s = some q → q.serials = db.handed.length →
    (db.load q.savedRoot).Ahead db.handed
  memoryBirths : db.catalog.BirthsOk db.nextPage
  blobBirths : ∀ p, (db.blobs p).BirthsOk db.nextPage
  handed_lt : ∀ x ∈ db.handed, x.1 < db.nextPage
  nodup : db.handed.Nodup

lemma serialInv_empty : SerialInv empty where
  toSound := sound_empty
  memory _ _ h := by cases h
  durable _ _ h := by cases h
  saved _ _ h := by cases h
  memoryBirths := Catalog.birthsOk_empty
  blobBirths _ := Catalog.birthsOk_empty
  handed_lt _ h := by cases h
  nodup := .nil

variable {db db' : Db} {s : Nat} {q : Request}

section

variable (h : SerialInv db)
include h

lemma SerialInv.loadBirths (root : Option Nat) : (db.load root).BirthsOk db.nextPage := by
  cases root with
  | none => exact Catalog.birthsOk_empty
  | some p => exact h.blobBirths p

lemma SerialInv.of_frame (hsound : Sound db') (hcat : db'.catalog = db.catalog)
    (hblobs : db'.blobs = db.blobs) (hpage : db'.nextPage = db.nextPage)
    (hhanded : db'.handed = db.handed) (hroot : (db'.load db'.root).Ahead db'.handed)
    (hsaved : ∀ s q, db'.requests s = some q → q.serials = db'.handed.length →
      (db'.load q.savedRoot).Ahead db'.handed) : SerialInv db' where
  toSound := hsound
  memory := by
    rw [hcat, hhanded]
    exact h.memory
  durable := hroot
  saved := hsaved
  memoryBirths := by
    rw [hcat, hpage]
    exact h.memoryBirths
  blobBirths := by
    rw [hblobs, hpage]
    exact h.blobBirths
  handed_lt := by
    rw [hhanded, hpage]
    exact h.handed_lt
  nodup := by
    rw [hhanded]
    exact h.nodup

lemma SerialInv.setRequest {r : Option Request} (hsound : Sound (db.setRequest s r))
    (hr : ∀ q', r = some q' → ∃ q, db.requests s = some q ∧ q'.serials = q.serials ∧
      q'.savedRoot = q.savedRoot) : SerialInv (db.setRequest s r) := by
  refine h.of_frame hsound rfl rfl rfl rfl h.durable fun s1 q1 h1 hlen => ?_
  rcases eq_of_update h1 with ⟨rfl, hr1⟩ | ⟨-, h1⟩
  · obtain ⟨q, hq, hs, hroot⟩ := hr q1 hr1
    rw [hroot]
    exact h.saved _ q hq (hs ▸ hlen)
  · exact h.saved _ _ h1 hlen

lemma SerialInv.failing (hq : db.requests s = some q) :
    SerialInv (db.setRequest s (some { q with phase := .failing })) :=
  h.setRequest (h.toSound.failing hq) fun q' hq' => by
    cases hq'
    exact ⟨q, hq, rfl, rfl⟩

lemma SerialInv.clear : SerialInv (db.setRequest s none) :=
  h.setRequest h.toSound.clear fun q' hq' => by cases hq'

lemma SerialInv.endFailed (hq : db.requests s = some q) : SerialInv (db.endFailed s q) :=
  have hclear := h.clear (s := s)
  hclear.of_frame (h.toSound.endFailed hq) rfl rfl rfl rfl hclear.durable hclear.saved

lemma SerialInv.persistChange (hq : db.requests s = some q)
    (hp : q.phase = .running) {c : Catalog} (happly : ch.apply db.nextPage db.catalog = .ok c) :
    SerialInv (db.persistChange s q ch c) := by
  obtain ⟨hahead, hnd, hlt⟩ := h.memory.apply h.memoryBirths h.handed_lt h.nodup happly
  have hbirths := (CatalogChange.apply_kept happly).birthsOk h.memoryBirths
  refine ⟨h.toSound.persistChange hq hp, hahead, ?_, ?_, hbirths, ?_, ?_, hnd⟩
  · show (update db.blobs (db.nextPage + 1) c (db.nextPage + 1)).Ahead _
    rw [update_self]
    exact hahead
  · intro s1 q1 h1 hlen
    -- the request started before this change, so nothing was handed out by it
    have hold : ∃ q0, db.requests s1 = some q0 ∧ q1.serials = q0.serials ∧
        q1.savedRoot = q0.savedRoot := by
      rcases eq_of_update h1 with ⟨rfl, hr⟩ | ⟨-, h1⟩
      · cases hr
        exact ⟨q, hq, rfl, rfl⟩
      · exact ⟨q1, h1, rfl, rfl⟩
    obtain ⟨q0, hq0, hs, hroot⟩ := hold
    have hok := h.requests _ _ hq0
    have hle := hok.serials_le
    have hlen' : q1.serials = db.handed.length + (ch.handsOut db.catalog).toList.length := by
      rw [hlen, Db.persistChange, length_append]
    have hnil : (ch.handsOut db.catalog).toList = [] := eq_nil_of_length_eq_zero (by omega)
    have hload : (db.persistChange s q ch c).load q1.savedRoot = db.load q1.savedRoot :=
      load_congr (hroot ▸ hok.saved_lt) fun p hp => update_of_ne (by omega) _ _
    rw [hload, hroot]
    show (db.load q0.savedRoot).Ahead (db.handed ++ _)
    rw [hnil, append_nil]
    refine h.saved _ _ hq0 ?_
    rw [hnil] at hlen'
    exact hs ▸ hlen'
  · intro p
    show (update db.blobs (db.nextPage + 1) c p).BirthsOk _
    by_cases hpage : p = db.nextPage + 1
    · rw [hpage, update_self]
      exact hbirths
    · rw [update_of_ne hpage]
      exact (h.blobBirths p).mono (Nat.le_add_right _ 2)
  · exact fun x hx => lt_of_lt_of_le (hlt x hx) (Nat.le_add_right _ 2)

lemma SerialInv.begin {entry : EntryPoint}
    (hstep : db.begin s entry = some db') : SerialInv db' := by
  have hsound := h.toSound.begin hstep
  obtain ⟨-, rfl⟩ := begin_spec hstep
  refine h.of_frame hsound rfl rfl rfl rfl h.durable fun s1 q1 h1 hlen => ?_
  rcases eq_of_update h1 with ⟨rfl, hr⟩ | ⟨-, h1⟩
  · cases hr
    exact h.durable
  · exact h.saved _ _ h1 hlen

lemma SerialInv.restoreRoot (hok : db.SerialSafe (.restoreRoot s))
    (hstep : db.restoreRoot s = some db') : SerialInv db' := by
  have hsound := h.toSound.restoreRoot hstep
  obtain ⟨q, hq, -, ⟨-, rfl⟩ | ⟨hroot, rfl⟩⟩ := restoreRoot_spec hstep
  · exact h.endFailed hq
  · have hsaved := h.saved s q hq (hok q hq hroot)
    refine h.of_frame hsound rfl rfl rfl rfl hsaved fun s1 q1 h1 hlen => ?_
    rcases eq_of_update h1 with ⟨rfl, hr⟩ | ⟨-, h1⟩
    · cases hr
      exact hsaved
    · exact h.saved _ _ h1 hlen

lemma SerialInv.restoreMemory (hok : db.SerialSafe (.restoreMemory s))
    (hstep : db.restoreMemory s = some db') : SerialInv db' := by
  have hsound := h.toSound.restoreMemory hstep
  obtain ⟨q, c, hq, hp, rfl⟩ := restoreMemory_spec hstep
  have hend := h.endFailed hq
  have hc := (h.requests s q hq).reloaded c hp
  refine ⟨hsound, ?_, hend.durable, hend.saved, ?_, hend.blobBirths, hend.handed_lt, hend.nodup⟩
  · rw [hc]
    exact h.saved s q hq (hok q hq)
  · rw [hc]
    exact h.loadBirths q.savedRoot

lemma SerialInv.step {ev : Event} (hok : db.SerialSafe ev)
    (hstep : db.step ev = some db') : SerialInv db' := by
  cases ev with
  | start s entry => exact h.begin hstep
  | change s ch =>
    obtain ⟨q, hq, hp, ⟨c, happly, rfl⟩ | rfl⟩ := change_spec hstep
    · exact h.persistChange hq hp happly
    · exact h.failing hq
  | failStatement s =>
    obtain ⟨q, hq, -, rfl⟩ := failStatement_spec hstep
    exact h.failing hq
  | failBind s =>
    obtain ⟨q, hq, -, -, rfl⟩ := failBind_spec hstep
    exact h.endFailed hq
  | restoreRoot s => exact h.restoreRoot hok hstep
  | restoreMemory s => exact h.restoreMemory hok hstep
  | finish s =>
    obtain ⟨q, hq, -, rfl⟩ := finish_spec hstep
    exact h.clear
  | restart =>
    have hsound := h.toSound.step hstep
    cases hstep
    exact ⟨hsound, h.durable, h.durable, (fun _ _ hr => by cases hr), h.loadBirths db.root,
      h.blobBirths, h.handed_lt, h.nodup⟩

end

end Db

/-- **SERIAL values are handed out once** in every run in which a failed request is rolled back
only if no value was handed out since it started. -/
theorem serials_handed_out_once (db : Db) (h : Reached Db.step Db.SerialSafe Db.empty db) :
    db.handed.Nodup :=
  (h.invariant Db.SerialInv Db.serialInv_empty fun _ _ _ hinv hok hstep =>
    hinv.step hok hstep).nodup

/-! ## Two runs -/

/-- `orders(id SERIAL, item TEXT NOT NULL)`. -/
def ordersEntry : TableEntry :=
  { name := "orders"
    columns := [{ name := "id", ty := .int64, constraints := { identity := true } },
      { name := "item", ty := .text, constraints := { notNull := true } }] }

/-- An `INSERT` into `orders` that goes through. -/
def orderRow (s : Nat) : List Event :=
  [.start s .plain, .change s (.allocSerial "orders" "id"), .finish s]

def createOrders : List Event :=
  [.start 0 .plain, .change 0 (.createTable ordersEntry), .finish 0]

/-- A request whose second statement fails after a `CREATE TYPE`. -/
def rejectedType (s : Nat) : List Event :=
  [.start s .plain, .change s (.createNamedType ⟨"mood", .enum ["sad", "happy"]⟩), .failStatement s,
    .restoreRoot s, .restoreMemory s]

theorem serials_handed_out_once_orders : (runState Db.step Db.empty
        (createOrders ++ orderRow 1 ++ rejectedType 2 ++ orderRow 1)).handed =
        [(0, "id", 1), (0, "id", 2)] ∧ (runState Db.step Db.empty
        (createOrders ++ orderRow 1 ++ rejectedType 2 ++ orderRow 1)).handed.Nodup :=
  ⟨by decide +kernel, serials_handed_out_once _
    (RunAllowed.reached_runState (by decide +kernel) (by decide +kernel))⟩

/-- A request of session 1 that fails while session 2 inserts. -/
def failedAcross (others : List Event) : List Event :=
  [.start 1 .plain] ++ others ++ [.failStatement 1, .restoreRoot 1, .restoreMemory 1]

/-- Two rows of session 2 get the same number: in between, the request of session 1 fails. -/
theorem failed_request_repeats_serial :
    ¬ ∀ db, Reached Db.step (fun _ _ => True) Db.empty db → db.handed.Nodup := by
  intro h
  have hnd := h (runState Db.step Db.empty
      (createOrders ++ failedAcross (orderRow 2) ++ orderRow 2))
    (reached_runState (by simp) (by decide +kernel))
  have hhanded : (runState Db.step Db.empty
      (createOrders ++ failedAcross (orderRow 2) ++ orderRow 2)).handed =
        [(0, "id", 1), (0, "id", 1)] := by decide +kernel
  rw [hhanded] at hnd
  exact absurd hnd (by decide)

end UniDb
