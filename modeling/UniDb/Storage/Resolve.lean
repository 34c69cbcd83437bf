import UniDb.Storage.Heap

/-!
# Reading versions (`heap.rs`)

`Pool.scan` visits the live slots of a table's pages and keeps the visible versions.
`Pool.getVisibleWithRid` starts at a row id, typically one an index entry names, and follows the
HOT chain from version to version until one is visible.
-/

namespace UniDb

open List

variable {ρ : Type}

def Tuple.visible (t : Tuple ρ) (snapshot : Snapshot) (selfXid : Nat) : Bool :=
  isVisible t.xmin t.xmax snapshot selfXid

lemma Tuple.visible_iff {t : Tuple ρ} {S : Snapshot} {self : Nat} : t.visible S self = true ↔
      S.sees self t.xmin = true ∧ (t.xmax = 0 ∨ S.sees self t.xmax = false) :=
  isVisible_iff

/-- A stamped version is not there for a reader who knows of its deletion once it knows of it. -/
lemma Tuple.not_visible {t : Tuple ρ} {S : Snapshot} {self : Nat} (hmax : t.xmax ≠ 0)
    (h : S.sees self t.xmin = true → S.sees self t.xmax = true) : t.visible S self = false := by
  refine Bool.eq_false_iff.2 fun hv => ?_
  obtain ⟨hmin, hzero | hnot⟩ := Tuple.visible_iff.1 hv
  · exact hmax hzero
  · rw [h hmin] at hnot
    cases hnot

/-- Where the HOT chain goes on from a version in slot `cur`. -/
def Tuple.hotTarget (t : Tuple ρ) (cur : RowId) : Option RowId :=
  match t.hotNext with
  | .none => none
  | .slot s => some ⟨cur.pageId, s⟩
  | .xpage => some ⟨t.prevPage, t.prevSlot⟩

def maxHotChainHops : Nat := 1000000

/-- The loop of `get_visible_with_rid`, for at most `hops` versions. -/
def Pool.followHotChain (P : Pool ρ) (snapshot : Snapshot) (selfXid : Nat) :
    Nat → RowId → Option (RowId × Tuple ρ)
  | 0, _ => none
  | hops + 1, cur =>
    match P.tuple? cur with
    | none => none
    | some t =>
      if t.visible snapshot selfXid then some (cur, t)
      else
        match t.hotTarget cur with
        | some next => P.followHotChain snapshot selfXid hops next
        | none => none

def Pool.getVisibleWithRid (P : Pool ρ) (r : RowId) (snapshot : Snapshot) (selfXid : Nat) :
    Option (RowId × Tuple ρ) :=
  P.followHotChain snapshot selfXid maxHotChainHops r

/-- `scan_page_into`. -/
def Pool.scanPage (P : Pool ρ) (snapshot : Snapshot) (selfXid : Nat) (p : Nat) :
    List (RowId × Tuple ρ) :=
  (List.range (P p).length).filterMap fun i =>
    match P.tuple? ⟨p, i⟩ with
    | some t => if t.visible snapshot selfXid then some (⟨p, i⟩, t) else none
    | none => none

def Pool.scan (P : Pool ρ) (pages : List Nat) (snapshot : Snapshot) (selfXid : Nat) :
    List (RowId × Tuple ρ) :=
  pages.flatMap (P.scanPage snapshot selfXid)

/-! ## What readers find -/

variable {P : Pool ρ} {S : Snapshot} {x : Nat} {r : RowId} {t : Tuple ρ} {pages : List Nat}

lemma Pool.mem_scanPage {p : Nat} :
    (r, t) ∈ P.scanPage S x p ↔ r.pageId = p ∧ P.tuple? r = some t ∧ t.visible S x = true := by
  unfold scanPage
  simp only [mem_filterMap, mem_range]
  constructor
  · rintro ⟨i, -, h⟩
    split at h
    · rename_i t' ht'
      split at h
      · rename_i hv
        cases h
        exact ⟨rfl, ht', hv⟩
      · cases h
    · cases h
  · rintro ⟨rfl, ht, hv⟩
    refine ⟨r.slot, ?_, by simp [ht, hv]⟩
    by_contra hge
    rw [tuple?, getElem?_eq_none (by omega)] at ht
    cases ht

lemma Pool.mem_scan : (r, t) ∈ P.scan pages S x ↔
      r.pageId ∈ pages ∧ P.tuple? r = some t ∧ t.visible S x = true := by
  simp only [scan, mem_flatMap, mem_scanPage]
  constructor
  · rintro ⟨p, hp, rfl, h⟩
    exact ⟨hp, h⟩
  · rintro ⟨hp, h⟩
    exact ⟨_, hp, rfl, h⟩

lemma Pool.nodup_scan (hpages : pages.Nodup) (S : Snapshot) (x : Nat) :
    ((P.scan pages S x).map Prod.fst).Nodup := by
  have hpage : ∀ p, ((P.scanPage S x p).map Prod.fst).Nodup := by
    intro p
    unfold scanPage
    rw [map_filterMap]
    refine List.Nodup.filterMap (fun i j r hi hj => ?_) nodup_range
    simp only [Option.mem_def, Option.map_eq_some_iff, Prod.exists, exists_and_right,
      exists_eq_right] at hi hj
    obtain ⟨t, ht⟩ := hi
    obtain ⟨t', ht'⟩ := hj
    have hslot : ∀ {i : Nat} {t : Tuple ρ}, (match P.tuple? ⟨p, i⟩ with
        | some t => if t.visible S x = true then some ((⟨p, i⟩ : RowId), t) else none
        | none => none) = some (r, t) → r.slot = i := by
      intro i t h
      split at h
      · split at h
        · cases h
          rfl
        · cases h
      · cases h
    exact (hslot ht).symm.trans (hslot ht')
  unfold scan
  rw [map_flatMap]
  refine nodup_flatMap.2 ⟨fun p _ => hpage p, hpages.imp fun {p q} hne => ?_⟩
  intro r hp hq
  obtain ⟨⟨r1, t1⟩, h1, rfl⟩ := mem_map.1 hp
  obtain ⟨⟨r2, t2⟩, h2, he⟩ := mem_map.1 hq
  exact hne ((mem_scanPage.1 h1).1.symm.trans ((congrArg RowId.pageId he).symm.trans
    (mem_scanPage.1 h2).1))

lemma Pool.followHotChain_visible {n : Nat} {r0 : RowId}
    (h : P.followHotChain S x n r0 = some (r, t)) : P.tuple? r = some t ∧ t.visible S x = true := by
  induction n generalizing r0 with
  | zero => cases h
  | succ n ih =>
    unfold followHotChain at h
    split at h
    · cases h
    · rename_i t' ht'
      split at h
      · rename_i hv
        cases h
        exact ⟨ht', hv⟩
      · split at h
        · exact ih h
        · cases h

/-- Two pools that keep the same chains resolve a row id alike, if every version visible in the
second is visible in the first, and the version found in the first is visible in the second. -/
lemma Pool.followHotChain_map_eq {Q : Pool ρ} (hnone : ∀ r, P.tuple? r = none → Q.tuple? r = none)
    (hsome : ∀ r t, P.tuple? r = some t → ∃ u, Q.tuple? r = some u ∧
      u.hotTarget r = t.hotTarget r ∧ (u.visible S x = true → t.visible S x = true)) {n : Nat}
    {r0 : RowId} (hfound : ∀ r t, P.followHotChain S x n r0 = some (r, t) →
      ∀ u, Q.tuple? r = some u → u.visible S x = true) :
    (Q.followHotChain S x n r0).map Prod.fst = (P.followHotChain S x n r0).map Prod.fst := by
  induction n generalizing r0 with
  | zero => rfl
  | succ n ih =>
    unfold followHotChain at hfound ⊢
    cases ht : P.tuple? r0 with
    | none => simp [hnone r0 ht]
    | some t =>
      obtain ⟨u, hu, htarget, himp⟩ := hsome r0 t ht
      rw [ht] at hfound
      by_cases hv : t.visible S x = true
      · have hv' : u.visible S x = true := hfound r0 t (by simp [hv]) u hu
        simp [hu, hv, hv']
      · have hv' : ¬ u.visible S x = true := mt himp hv
        simp only [hu, hv, hv', htarget]
        simp only [hv] at hfound
        cases hnext : t.hotTarget r0 with
        | none => rfl
        | some next =>
          simp only [hnext] at hfound
          exact ih hfound

end UniDb
