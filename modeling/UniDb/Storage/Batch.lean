import UniDb.Storage.Heap

/-!
# The batched writers (`heap.rs`: `delete_many`, `update_many`, `hot_update_many`)

All three begin by stamping `xmax` on the old versions page group by page group, each group in a
mini-transaction of its own: the conflict check covers the rows of one page before any of them is
touched, and a conflict returns with the earlier groups already stamped. A batched writer is
therefore a function from a pool to a result *and* a pool.

`tuple?_stampGroups` says what that phase does to each tuple, whether it ends or stops at a
conflict; the insert phases cannot fail on a conflict.
-/

namespace UniDb

open List

variable {ρ : Type}

/-- The runs of rows on one page (the input is sorted by page). -/
def pageGroups (rows : List RowId) : List (List RowId) :=
  rows.splitBy fun a b => a.pageId == b.pageId

variable {g rows : List RowId} {r : RowId} {P : Pool ρ} {gs : List (List RowId)}

lemma pageId_eq_of_isChain {a : RowId}
    (h : (a :: g).IsChain fun a b => (a.pageId == b.pageId) = true) :
    ∀ r ∈ a :: g, r.pageId = a.pageId := by
  induction g generalizing a with
  | nil => simp
  | cons b g ih =>
    obtain ⟨hab, hc⟩ := isChain_cons_cons.1 h
    have hab : a.pageId = b.pageId := by simpa using hab
    refine forall_mem_cons.2 ⟨rfl, fun r hr => ?_⟩
    rw [ih hc r hr, hab]

lemma pageId_eq_head (hg : g ∈ pageGroups rows) :
    ∀ r ∈ g, r.pageId = (g.head?.map (·.pageId)).getD 0 := by
  have hc := isChain_of_mem_splitBy hg
  cases g with
  | nil => simp
  | cons a g => exact pageId_eq_of_isChain hc

lemma mem_of_mem_pageGroups (hg : g ∈ pageGroups rows) (hr : r ∈ g) : r ∈ rows := by
  rw [← flatten_splitBy (fun a b : RowId => a.pageId == b.pageId) rows]
  exact mem_flatten.2 ⟨g, hg, hr⟩

/-- Sorted by page, as `matching_rows` returns them. -/
def PageSorted (rows : List RowId) : Prop := rows.Pairwise fun a b => a.pageId ≤ b.pageId

/-- Groups whose neighbours change page lie on pairwise different pages. -/
lemma pairwise_groups : ∀ (gs : List (List RowId)), PageSorted gs.flatten →
    gs.IsChain (fun g g' => ∃ ha hb, ((g.getLast ha).pageId == (g'.head hb).pageId) = false) →
    gs.Pairwise fun g g' => ∀ a ∈ g, ∀ b ∈ g', a.pageId < b.pageId
  | [], _, _ => .nil
  | [g], _, _ => by simp
  | g :: g' :: gs, hs, hc => by
    obtain ⟨⟨ha, hb, hab⟩, hc'⟩ := isChain_cons_cons.1 hc
    have hs2 : (g ++ (g' :: gs).flatten).Pairwise fun a b => a.pageId ≤ b.pageId := hs
    obtain ⟨hsg, hsg', hcross⟩ := pairwise_append.1 hs2
    refine .cons (fun m hm a hag b hbm => ?_) (pairwise_groups (g' :: gs) hsg' hc')
    -- a ≤ last of g < head of g' ≤ b
    have h1 : a.pageId ≤ (g.getLast ha).pageId :=
      hsg.rel_getLast_of_rel_getLast_getLast hag (Nat.le_refl _)
    have h2 : (g.getLast ha).pageId ≤ (g'.head hb).pageId :=
      hcross _ (getLast_mem ha) _ (mem_flatten.2 ⟨g', .head _, head_mem hb⟩)
    have hfl : (g' :: gs).flatten ≠ [] := by simp [hb]
    have h3 : (g'.head hb).pageId ≤ b.pageId := by
      have := hsg'.rel_head_of_rel_head_head (mem_flatten.2 ⟨m, hm, hbm⟩) (Nat.le_refl _)
      simpa [hb] using this
    have h4 : (g.getLast ha).pageId ≠ (g'.head hb).pageId := by simpa using hab
    omega

lemma pageGroups_pairwise (h : PageSorted rows) :
    (pageGroups rows).Pairwise fun g g' => ∀ a ∈ g, ∀ b ∈ g', a.pageId < b.pageId :=
  pairwise_groups _ (by rw [pageGroups, flatten_splitBy]; exact h)
    (isChain_getLast_head_splitBy (fun a b => a.pageId == b.pageId) rows)
/-- The conflict check over one page group. -/
def checkUnstamped (P : Pool ρ) : List RowId → Except DbError Unit
  | [] => .ok ()
  | r :: rs => do
    let th ← P.tupleHeader r
    if th.xmax ≠ 0 then throw (.writeConflict th.xmax)
    checkUnstamped P rs

def stampXmax (xid : Nat) (P : Pool ρ) (rows : List RowId) : Pool ρ :=
  rows.foldl (fun P r => P.modify r (Tuple.setXmax xid)) P

/-- Phase A of every batched writer. -/
def stampGroups (xid : Nat) : List (List RowId) → Pool ρ → Except DbError Unit × Pool ρ
  | [], P => (.ok (), P)
  | g :: gs, P =>
    match checkUnstamped P g with
    | .error e => (.error e, P)
    | .ok () => stampGroups xid gs (stampXmax xid P g)

/-- Insert the new versions in order; `fill i` is the page `acquire_page_for_update` (or the fill
cursor) offers for the `i`-th of them. -/
def insertVersions (xid : Nat) (fill : Nat → Nat) :
    Nat → List (RowId × ρ) → Pool ρ → List (RowId × RowId) × Pool ρ
  | _, [], P => ([], P)
  | i, (oldRid, newData) :: rows, P =>
    let (P, newRid) := P.insertVersioned (fill i) (Tuple.fresh newData xid (some oldRid))
    let (pairs, P) := insertVersions xid fill (i + 1) rows P
    ((oldRid, newRid) :: pairs, P)

lemma insertVersions_cons (xid : Nat) (fill : Nat → Nat) (i : Nat) (old : RowId) (data : ρ)
    (rows : List (RowId × ρ)) (P : Pool ρ) : insertVersions xid fill i ((old, data) :: rows) P =
      let Q := P.insertVersioned (fill i) (Tuple.fresh data xid (some old))
      let rest := insertVersions xid fill (i + 1) rows Q.1
      ((old, Q.2) :: rest.1, rest.2) := rfl

def deleteMany (xid : Nat) (rowIds : List RowId) (P : Pool ρ) :
    Except DbError (List RowId) × Pool ρ :=
  match stampGroups xid (pageGroups rowIds) P with
  | (.error e, P) => (.error e, P)
  | (.ok (), P) => (.ok rowIds, P)

/-- `update_many`: the `(old, new)` pairs in input order. -/
def updateMany (xid : Nat) (fill : Nat → Nat) (rows : List (RowId × ρ)) (P : Pool ρ) :
    Except DbError (List (RowId × RowId)) × Pool ρ :=
  match stampGroups xid (pageGroups (rows.map (·.1))) P with
  | (.error e, P) => (.error e, P)
  | (.ok (), P) =>
    let (pairs, P) := insertVersions xid fill 0 rows P
    (.ok pairs, P)

/-- The backward pointer of the version at `r`, as phase A of `hot_update_many` saves it. -/
def savedPrev (P : Pool ρ) (r : RowId) : Nat × Nat :=
  match P.tuple? r with
  | some t => (t.prevPage, t.prevSlot)
  | none => (invalidPageId, 0)

/-- Phase C of `hot_update_many`: the cross-page forward pointers of the old versions. -/
def linkHotXpage (P : Pool ρ) (pairs : List (RowId × RowId)) : Pool ρ :=
  pairs.foldl (fun P pr => P.modify pr.1 (Tuple.setHotXpage pr.2)) P

/-- `hot_update_many`: `(old, new, saved_prev_page, saved_prev_slot)` in input order. -/
def hotUpdateMany (xid : Nat) (fill : Nat → Nat) (rows : List (RowId × ρ)) (P : Pool ρ) :
    Except DbError (List (RowId × RowId × Nat × Nat)) × Pool ρ :=
  match stampGroups xid (pageGroups (rows.map (·.1))) P with
  | (.error e, P) => (.error e, P)
  | (.ok (), P') =>
    let (pairs, P'') := insertVersions xid fill 0 rows P'
    (.ok (pairs.map fun pr => (pr.1, pr.2, savedPrev P pr.1)), linkHotXpage P'' pairs)

/-! ## What phase A does -/

lemma checkUnstamped_ok :
    checkUnstamped P rows = .ok () ↔ ∀ r ∈ rows, ∃ t, P.tuple? r = some t ∧ t.xmax = 0 := by
  induction rows with
  | nil => simp [checkUnstamped]
  | cons r rs ih =>
    simp only [checkUnstamped, forall_mem_cons, ← ih]
    rcases hth : P.tupleHeader r with e | th
    · have hno : ¬ ∃ t, P.tuple? r = some t ∧ t.xmax = 0 := by
        rintro ⟨t, ht, -⟩
        rw [Pool.tupleHeader_ok.2 ⟨t, ht, rfl⟩] at hth
        cases hth
      simp [bind, Except.bind, hno]
    · obtain ⟨t, ht, rfl⟩ := Pool.tupleHeader_ok.1 hth
      by_cases hx : t.xmax = 0
      · simp [bind, Except.bind, ht, hx]
      · simp [bind, Except.bind, ht, hx]

lemma tuple?_stampXmax (xid : Nat) (rows : List RowId) (P : Pool ρ) (r : RowId) :
    (stampXmax xid P rows).tuple? r =
      if r ∈ rows then (P.tuple? r).map (Tuple.setXmax xid) else P.tuple? r := by
  induction rows generalizing P with
  | nil => simp [stampXmax]
  | cons a rows ih =>
    have h := ih (P.modify a (Tuple.setXmax xid))
    simp only [stampXmax, foldl_cons] at h ⊢
    rw [h, Pool.tuple?_modify]
    by_cases hra : r = a
    · subst hra
      by_cases hr : r ∈ rows
      · cases P.tuple? r <;> simp [Tuple.setXmax]
      · simp [hr]
    · simp [hra]

def unstamped (P : Pool ρ) (g : List RowId) : Bool := g.all fun r => (P.tuple? r).any (·.xmax == 0)

lemma checkUnstamped_ok_iff : checkUnstamped P g = .ok () ↔ unstamped P g = true := by
  simp [checkUnstamped_ok, unstamped, Option.any_eq_true]

/-- The rows of the page groups that come before the first group with a conflict. -/
def completedRows (P : Pool ρ) : List (List RowId) → List RowId
  | [] => []
  | g :: gs => if unstamped P g then g ++ completedRows P gs else []

lemma unstamped_congr {Q : Pool ρ} (h : ∀ r ∈ g, P.tuple? r = Q.tuple? r) :
    unstamped P g = unstamped Q g := by
  induction g with
  | nil => rfl
  | cons r g ih =>
    obtain ⟨hr, hg⟩ := forall_mem_cons.1 h
    simp only [unstamped, all_cons, hr] at ih ⊢
    rw [ih hg]

lemma completedRows_congr {Q : Pool ρ} (h : ∀ g ∈ gs, ∀ r ∈ g, P.tuple? r = Q.tuple? r) :
    completedRows P gs = completedRows Q gs := by
  induction gs with
  | nil => rfl
  | cons g gs ih =>
    obtain ⟨hg, hgs⟩ := forall_mem_cons.1 h
    simp only [completedRows, unstamped_congr hg, ih hgs]

lemma mem_of_mem_completedRows (h : r ∈ completedRows P gs) : ∃ g ∈ gs, r ∈ g := by
  induction gs with
  | nil => simp [completedRows] at h
  | cons g gs ih =>
    simp only [completedRows] at h
    split at h
    · rcases mem_append.1 h with h | h
      · exact ⟨g, .head _, h⟩
      · obtain ⟨g', hg', hr⟩ := ih h
        exact ⟨g', .tail _ hg', hr⟩
    · simp at h

lemma unstamped_of_mem_completedRows (h : r ∈ completedRows P gs) :
    ∃ t, P.tuple? r = some t ∧ t.xmax = 0 := by
  induction gs with
  | nil => simp [completedRows] at h
  | cons g gs ih =>
    simp only [completedRows] at h
    split at h
    · rename_i hg
      rcases mem_append.1 h with h | h
      · exact checkUnstamped_ok.1 (checkUnstamped_ok_iff.2 hg) r h
      · exact ih h
    · simp at h

/-- **Phase A, tuple by tuple**: whether it succeeds or not, exactly the completed rows are
stamped. -/
theorem tuple?_stampGroups {xid : Nat}
    (hdisj : gs.Pairwise fun g g' => ∀ a ∈ g, ∀ b ∈ g', a.pageId < b.pageId) (r : RowId) :
    (stampGroups xid gs P).2.tuple? r =
      if r ∈ completedRows P gs then (P.tuple? r).map (Tuple.setXmax xid) else P.tuple? r := by
  induction gs generalizing P with
  | nil => simp [stampGroups, completedRows]
  | cons g gs ih =>
    obtain ⟨hg, hgs⟩ := pairwise_cons.1 hdisj
    -- the later groups lie on other pages, so stamping `g` does not change what they hold
    have hlater : ∀ g' ∈ gs, ∀ b ∈ g', (stampXmax xid P g).tuple? b = P.tuple? b := by
      intro g' hg' b hb
      rw [tuple?_stampXmax, if_neg]
      intro hbg
      exact Nat.lt_irrefl _ (hg g' hg' b hbg b hb)
    simp only [stampGroups, completedRows]
    rcases hc : checkUnstamped P g with e | u
    · have hu : unstamped P g = false := by
        rw [← Bool.not_eq_true, ← checkUnstamped_ok_iff, hc]; simp
      simp [hu]
    · have hu : unstamped P g = true := checkUnstamped_ok_iff.1 hc
      rw [ih hgs, completedRows_congr hlater, tuple?_stampXmax]
      by_cases hrg : r ∈ g
      · have hnot : r ∉ completedRows P gs := by
          intro hm
          obtain ⟨g', hg', hr⟩ := mem_of_mem_completedRows hm
          exact Nat.lt_irrefl _ (hg g' hg' r hrg r hr)
        simp [hu, hnot]
      · simp [hu, hrg]

end UniDb
