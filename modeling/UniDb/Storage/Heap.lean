import UniDb.Storage.Mvcc

/-!
# Slotted pages and tuple versions (`page.rs`, `heap.rs`)

A page is its slot array. A slot is `live` (it holds a tuple version), `dead` (vacuum dropped the
body but index entries may still name it) or `unused` (reusable). The payload type `ρ` stays
abstract: the heap stores bytes and never looks inside.

Everything the rest of the development needs about a pool is what it holds at a row id
(`Pool.tuple?`), so each writer gets one lemma about `tuple?`.
-/

namespace UniDb

/-- `hot_next`: no forwarding (`HOT_NEXT_NONE`), a newer version on the same page, or
`HOT_NEXT_XPAGE`, in which case `prevPage`/`prevSlot` hold the forward target. -/
inductive HotNext where
  | none
  | slot (s : Nat)
  | xpage
deriving DecidableEq, Repr

structure TupleHeader where
  xmin : Nat
  xmax : Nat
  prevPage : Nat
  prevSlot : Nat
  hotNext : HotNext
deriving DecidableEq, Repr

structure Tuple (ρ : Type) extends TupleHeader where
  data : ρ
deriving DecidableEq, Repr

inductive Slot (ρ : Type) where
  | live (t : Tuple ρ)
  | dead
  | unused
deriving DecidableEq, Repr

abbrev Page (ρ : Type) := List (Slot ρ)

/-- The buffer pool: every page id's slot array, empty for a page never allocated. -/
def Pool (ρ : Type) := Nat → Page ρ

variable {ρ : Type}

def Slot.tuple? : Slot ρ → Option (Tuple ρ)
  | .live t => some t
  | .dead => none
  | .unused => none

@[simp] lemma Slot.tuple?_live (t : Tuple ρ) : (Slot.live t).tuple? = some t := rfl

def Pool.tuple? (P : Pool ρ) (r : RowId) : Option (Tuple ρ) :=
  ((P r.pageId)[r.slot]?).bind Slot.tuple?

/-- `tuple_header`: fails on a slot past the slot array and on a slot without a body. -/
def Pool.tupleHeader (P : Pool ρ) (r : RowId) : Except DbError TupleHeader :=
  match (P r.pageId)[r.slot]? with
  | none => .error (.slotOutOfRange r.pageId r.slot)
  | some (.live t) => .ok t.toTupleHeader
  | some _ => .error (.tupleDeleted r.pageId r.slot)

variable {P : Pool ρ}

lemma Pool.tupleHeader_ok {r : RowId} {th : TupleHeader} :
    P.tupleHeader r = .ok th ↔ ∃ t, P.tuple? r = some t ∧ t.toTupleHeader = th := by
  unfold Pool.tupleHeader Pool.tuple?
  rcases (P r.pageId)[r.slot]? with _ | s
  · simp
  · cases s <;> simp [Slot.tuple?]

/-- `write_page`. -/
def Pool.setPage (P : Pool ρ) (p : Nat) (page : Page ρ) : Pool ρ :=
  fun q => if q = p then page else P q

@[simp] lemma Pool.setPage_self (P : Pool ρ) (p : Nat) (page : Page ρ) :
    P.setPage p page p = page := if_pos rfl

@[simp] lemma Pool.setPage_ne {p q : Nat} {page : Page ρ} (h : q ≠ p) :
    P.setPage p page q = P q := if_neg h

def Slot.map (f : Tuple ρ → Tuple ρ) : Slot ρ → Slot ρ
  | .live t => .live (f t)
  | .dead => .dead
  | .unused => .unused

@[simp] lemma Slot.tuple?_map (f : Tuple ρ → Tuple ρ) (s : Slot ρ) :
    (s.map f).tuple? = s.tuple?.map f := by
  cases s <;> rfl

def Pool.modify (P : Pool ρ) (r : RowId) (f : Tuple ρ → Tuple ρ) : Pool ρ :=
  P.setPage r.pageId ((P r.pageId).modify r.slot (Slot.map f))

lemma Pool.tuple?_modify (P : Pool ρ) (r r' : RowId) (f : Tuple ρ → Tuple ρ) :
    (P.modify r f).tuple? r' = if r' = r then (P.tuple? r).map f else P.tuple? r' := by
  obtain ⟨p, i⟩ := r
  obtain ⟨p', i'⟩ := r'
  by_cases hp : p' = p
  · subst hp
    by_cases hi : i' = i
    · subst hi
      rcases h : (P p')[i']? with _ | s <;> simp [Pool.tuple?, Pool.modify, h]
    · have hne : (⟨p', i'⟩ : RowId) ≠ ⟨p', i⟩ := by simpa using hi
      simp [Pool.tuple?, Pool.modify, hne, Ne.symm hi]
  · have hne : (⟨p', i'⟩ : RowId) ≠ ⟨p, i⟩ := by simp [hp]
    simp [Pool.tuple?, Pool.modify, hp]

/-! ## Header writers

Each of them fails like `tupleHeader` when the slot holds no tuple. -/

/-- Check that `r` holds a tuple, then rewrite it. -/
def Pool.update (P : Pool ρ) (r : RowId) (f : Tuple ρ → Tuple ρ) : Except DbError (Pool ρ) := do
  let _ ← P.tupleHeader r
  return P.modify r f

def Tuple.setXmax (xmax : Nat) (t : Tuple ρ) : Tuple ρ := { t with xmax }

def Tuple.setHotNext (h : HotNext) (t : Tuple ρ) : Tuple ρ := { t with hotNext := h }

/-- The forward target of a cross-page chain overwrites the backward pointer. -/
def Tuple.setHotXpage (target : RowId) (t : Tuple ρ) : Tuple ρ :=
  { t with prevPage := target.pageId, prevSlot := target.slot, hotNext := .xpage }

def Tuple.restorePrevAndHotNext (prevPage : Nat) (prevSlot : Nat) (t : Tuple ρ) : Tuple ρ :=
  { t with prevPage, prevSlot, hotNext := .none }

lemma Pool.update_of_live {r : RowId} {t : Tuple ρ} (f : Tuple ρ → Tuple ρ)
    (h : P.tuple? r = some t) : P.update r f = .ok (P.modify r f) := by
  have hth : P.tupleHeader r = .ok t.toTupleHeader := Pool.tupleHeader_ok.2 ⟨t, h, rfl⟩
  simp [Pool.update, hth, bind, Except.bind, pure, Except.pure]

/-! ## Inserting a version -/

def Page.firstUnusedSlot (page : Page ρ) : Option Nat :=
  page.findIdx? fun
    | .unused => true
    | _ => false

/-- `insert_versioned`: reuse the lowest unused slot, else append one. -/
def Page.insertVersioned (page : Page ρ) (t : Tuple ρ) : Page ρ × Nat :=
  match Page.firstUnusedSlot page with
  | some s => (page.set s (.live t), s)
  | none => (page ++ [.live t], page.length)

/-- A fresh version: no forwarding, `prev` chaining to the version it supersedes. -/
def Tuple.fresh (data : ρ) (xmin : Nat) (prev : Option RowId) : Tuple ρ :=
  { xmin, xmax := 0, data, hotNext := .none
    prevPage := prev.elim invalidPageId (·.pageId)
    prevSlot := prev.elim 0 (·.slot) }

def Pool.insertVersioned (P : Pool ρ) (p : Nat) (t : Tuple ρ) : Pool ρ × RowId :=
  let (page, slot) := Page.insertVersioned (P p) t
  (P.setPage p page, ⟨p, slot⟩)

lemma Page.insertVersioned_spec (page : Page ρ) (t : Tuple ρ) :
    (page[(Page.insertVersioned page t).2]?).bind Slot.tuple? = none ∧
      ∀ i, ((Page.insertVersioned page t).1[i]?).bind Slot.tuple? =
        if i = (Page.insertVersioned page t).2 then some t else (page[i]?).bind Slot.tuple? := by
  unfold Page.insertVersioned
  split
  · rename_i s hs
    obtain ⟨hlt, hun, -⟩ := List.findIdx?_eq_some_iff_getElem.1 hs
    have hslot : page[s] = .unused := by
      cases h : page[s] <;> simp_all
    refine ⟨by simp [hslot, hlt, Slot.tuple?], fun i => ?_⟩
    by_cases hi : i = s
    · subst hi; simp [hlt]
    · simp [hi, Ne.symm hi]
  · refine ⟨by simp, fun i => ?_⟩
    rcases Nat.lt_trichotomy i page.length with h | rfl | h
    · simp [List.getElem?_append_left h, Nat.ne_of_lt h]
    · simp
    · have h1 : ¬ i < page.length := by omega
      have h2 : i - page.length ≠ 0 := by omega
      simp [List.getElem?_append, h1, h2, Nat.ne_of_gt h]

lemma Pool.insertVersioned_fresh (P : Pool ρ) (p : Nat) (t : Tuple ρ) :
    P.tuple? (P.insertVersioned p t).2 = none :=
  (Page.insertVersioned_spec (P p) t).1

lemma Pool.tuple?_insertVersioned (P : Pool ρ) (p : Nat) (t : Tuple ρ) (r : RowId) :
    (P.insertVersioned p t).1.tuple? r =
      if r = (P.insertVersioned p t).2 then some t else P.tuple? r := by
  obtain ⟨q, i⟩ := r
  have hs := (Page.insertVersioned_spec (P p) t).2 i
  by_cases hq : q = p
  · subst hq
    simpa [Pool.insertVersioned, Pool.tuple?] using hs
  · simp [Pool.insertVersioned, Pool.tuple?, hq]

@[simp] lemma Pool.tuple?_insertVersioned_self (P : Pool ρ) (p : Nat) (t : Tuple ρ) :
    (P.insertVersioned p t).1.tuple? (P.insertVersioned p t).2 = some t := by
  rw [Pool.tuple?_insertVersioned, if_pos rfl]

end UniDb
