import UniDb.Storage.Resolve

/-!
# Resolving index candidates by page (`batch_resolve_candidates`)

The batch reads a page once for all candidates on it, and follows HOT chains with code of its own:
one hop inside the page, and `get_visible_with_rid` from the first version on another page.

* `batchResolveCandidates_eq`: on a sorted list, each distinct candidate is resolved on its own.
* `resolveOnPage_eq_iff`: when that is what `get_visible_with_rid` returns.
-/

namespace UniDb

open List

variable {ρ : Type}

namespace Pool

section
variable (P : Pool ρ) (S : Snapshot) (x : Nat)

/-- What the batch makes of one candidate. -/
def resolveOnPage (r : RowId) : Option (RowId × Tuple ρ) :=
  match P.tuple? r with
  | none => none
  | some t =>
    if t.visible S x then some (r, t)
    else
      match t.hotNext with
      | .xpage => P.getVisibleWithRid ⟨t.prevPage, t.prevSlot⟩ S x
      | .slot s =>
        match P.tuple? ⟨r.pageId, s⟩ with
        | none => none
        | some u => if u.visible S x then some (⟨r.pageId, s⟩, u) else none
      | .none => none

/-- The candidates of one page; `prev` is the slot before, `none` for the sentinel `u16::MAX`. -/
def resolveGroup : Option Nat → List RowId → List (RowId × Tuple ρ)
  | _, [] => []
  | prev, r :: rest =>
    if prev = some r.slot then resolveGroup prev rest
    else (P.resolveOnPage S x r).toList ++ resolveGroup (some r.slot) rest

/-- `partition_point` finds the end of the run of a page. -/
def batchResolveCandidates : List RowId → List (RowId × Tuple ρ)
  | [] => []
  | r :: rest =>
    P.resolveGroup S x none (r :: rest.takeWhile (·.pageId == r.pageId)) ++
      batchResolveCandidates (rest.dropWhile (·.pageId == r.pageId))
termination_by candidates => candidates.length
decreasing_by exact Nat.lt_succ_of_le (dropWhile_sublist _).length_le

/-- The same walk, with a test on every row it finds. -/
def batchResolveCandidatesVisit (candidates : List RowId) (accepts : ρ → Except DbError Bool) :
    Except DbError (List RowId) := do
  let rows ← filterE (fun row => accepts row.2.data) (P.batchResolveCandidates S x candidates)
  pure (rows.map Prod.fst)

end

variable {P : Pool ρ} {S : Snapshot} {x : Nat} {l : List RowId}

/-! ## The loops -/

lemma batchResolveCandidates_cons (a : RowId) (l : List RowId) :
    P.batchResolveCandidates S x (a :: l) = (P.resolveOnPage S x a).toList ++
      (P.resolveGroup S x (some a.slot) (l.takeWhile (·.pageId == a.pageId)) ++
        P.batchResolveCandidates S x (l.dropWhile (·.pageId == a.pageId))) := by
  rw [batchResolveCandidates, resolveGroup, if_neg nofun, append_assoc]

/-- The loops skip what is equal to the candidate before. -/
lemma batchResolveCandidates_destutter (a : RowId) (l : List RowId) :
    P.batchResolveCandidates S x (a :: l) =
      (l.destutter' (· ≠ ·) a).flatMap fun r => (P.resolveOnPage S x r).toList := by
  induction l generalizing a with
  | nil => simp [batchResolveCandidates, resolveGroup]
  | cons b l ih =>
    by_cases heq : a = b
    · subst heq
      rw [destutter'_cons_neg _ (by simp), ← ih, batchResolveCandidates_cons,
        batchResolveCandidates_cons, takeWhile_cons_of_pos (by simp),
          dropWhile_cons_of_pos (by simp),
        resolveGroup, if_pos rfl]
    · rw [destutter'_cons_pos _ heq, flatMap_cons, ← ih, batchResolveCandidates_cons]
      by_cases hp : b.pageId = a.pageId
      · have hs : some a.slot ≠ some b.slot := by
          intro hs
          obtain ⟨_, _⟩ := a
          cases hp
          cases hs
          exact heq rfl
        rw [takeWhile_cons_of_pos (by simp [hp]), dropWhile_cons_of_pos (by simp [hp]), ← hp,
          resolveGroup, if_neg hs, append_assoc, ← batchResolveCandidates_cons]
      · rw [takeWhile_cons_of_neg (by simpa using hp), dropWhile_cons_of_neg (by simpa using hp)]
        rfl

/-- `(page_id, slot)` order. -/
def Before (r q : RowId) : Prop := r.pageId < q.pageId ∨ r.pageId = q.pageId ∧ r.slot ≤ q.slot

instance : Std.Antisymm Before where
  antisymm := by
    rintro ⟨p, s⟩ ⟨q, t⟩ h h'
    simp only [Before] at h h'
    rw [RowId.mk.injEq]
    omega

lemma batchResolveCandidates_eq (hsorted : l.Pairwise Before) : P.batchResolveCandidates S x l =
    l.dedup.flatMap fun r => (P.resolveOnPage S x r).toList := by
  rw [← hsorted.destutter_eq_dedup]
  cases l with
  | nil => rw [batchResolveCandidates]; rfl
  | cons a l => exact batchResolveCandidates_destutter a l

/-! ## One candidate -/

/-- Nothing visible stands behind the one hop that the batch takes inside a page, and a chain that
leaves the page does not end at the bound on hops. -/
def OneHop (P : Pool ρ) (S : Snapshot) (x : Nat) (r : RowId) : Prop :=
  ∀ t, P.tuple? r = some t → t.visible S x = false →
    (∀ s, t.hotNext = .slot s → ∀ u, P.tuple? ⟨r.pageId, s⟩ = some u → u.visible S x = false →
      ∀ next, u.hotTarget ⟨r.pageId, s⟩ = some next →
        P.followHotChain S x (maxHotChainHops - 2) next = none) ∧
    (t.hotNext = .xpage → P.followHotChain S x (maxHotChainHops - 1) ⟨t.prevPage, t.prevSlot⟩ =
      P.getVisibleWithRid ⟨t.prevPage, t.prevSlot⟩ S x)

/-- A version, or nothing, is what a chain from it gives if nothing behind it is visible. -/
lemma version_eq_followHotChain {q : RowId} {u : Tuple ρ} (hu : P.tuple? q = some u) (n : Nat) :
    (if u.visible S x then some (q, u) else none) = P.followHotChain S x (n + 1) q ↔
      (u.visible S x = false → ∀ next, u.hotTarget q = some next →
        P.followHotChain S x n next = none) := by
  rw [followHotChain, hu]
  cases hv : u.visible S x with
  | true => simp [hv]
  | false =>
    cases hnext : u.hotTarget q with
    | none => simp [hv, hnext]
    | some next => simpa [hv, hnext] using eq_comm

lemma resolveOnPage_eq_iff {r : RowId} :
    P.resolveOnPage S x r = P.getVisibleWithRid r S x ↔ P.OneHop S x r := by
  obtain ⟨n, hhops⟩ : ∃ n, maxHotChainHops = n + 2 := ⟨999998, rfl⟩
  simp only [resolveOnPage, getVisibleWithRid, OneHop, hhops, Nat.add_sub_cancel,
    show n + 2 - 1 = n + 1 from rfl]
  rw [followHotChain.eq_def _ _ _ _ r]
  cases ht : P.tuple? r with
  | none => simp [ht]
  | some t =>
    cases hv : t.visible S x with
    | true => simp [ht, hv]
    | false =>
      cases hn : t.hotNext with
      | none => simp [Tuple.hotTarget, ht, hv, hn]
      | slot s =>
        cases hu : P.tuple? ⟨r.pageId, s⟩ with
        | none => simp [Tuple.hotTarget, ht, hv, hn, hu, followHotChain]
        | some u =>
          have h := version_eq_followHotChain (S := S) (x := x) hu n
          simpa [ht, hv, hn, hu, show t.hotTarget r = some ⟨r.pageId, s⟩ by
            simp [Tuple.hotTarget, hn]] using h
      | xpage => simpa [Tuple.hotTarget, ht, hv, hn] using eq_comm

end Pool

open Pool

/-- **Candidates by page**: the batch returns, in order, what `get_visible_with_rid` returns for
each distinct candidate, for all sorted lists over `R`, exactly if no candidate of `R` needs another
hop. -/
theorem batch_agrees_iff (P : Pool ρ) (S : Snapshot) (x : Nat) (R : Set RowId) :
    (∀ candidates : List RowId, candidates.Pairwise Before → (∀ r ∈ candidates, r ∈ R) →
      P.batchResolveCandidates S x candidates =
        (candidates.dedup.flatMap fun r => (P.getVisibleWithRid r S x).toList) ∧
      P.batchResolveCandidatesVisit S x candidates (fun _ => .ok true) =
        .ok ((candidates.dedup.flatMap fun r => (P.getVisibleWithRid r S x).toList).map Prod.fst)) ↔
      ∀ r ∈ R, P.OneHop S x r := by
  constructor
  · intro h r hr
    have hone := (h [r] (pairwise_singleton _ _) (by simpa using hr)).1
    rw [batchResolveCandidates_eq (pairwise_singleton _ _)] at hone
    refine resolveOnPage_eq_iff.1 (Option.ext fun pair => ?_)
    simpa using congrArg (pair ∈ ·) hone
  · intro h candidates hsorted hR
    have hall : P.batchResolveCandidates S x candidates =
        candidates.dedup.flatMap fun r => (P.getVisibleWithRid r S x).toList := by
      rw [batchResolveCandidates_eq hsorted]
      refine flatMap_congr fun r hr => ?_
      rw [resolveOnPage_eq_iff.2 (h r (hR r (mem_dedup.1 hr)))]
    refine ⟨hall, ?_⟩
    rw [batchResolveCandidatesVisit, hall, filterE_true]
    rfl

/-- A rank that goes down along every hop. -/
def Pool.Acyclic (P : Pool ρ) : Prop :=
  ∃ rank : RowId → Nat, ∀ r t next, P.tuple? r = some t → t.hotTarget r = some next →
    rank next < rank r

/-- A row after two updates inside its page. -/
def updatedTwice : Pool Unit
  | 0 => [.live ⟨⟨1, 2, 0, 0, .slot 1⟩, ()⟩, .live ⟨⟨2, 3, 0, 0, .slot 2⟩, ()⟩,
      .live ⟨⟨3, 0, 0, 0, .none⟩, ()⟩]
  | _ => []

theorem batch_misses_second_hop : updatedTwice.Acyclic ∧
    updatedTwice.batchResolveCandidates ⟨4, 4, []⟩ 5 [⟨0, 0⟩] = [] ∧
    updatedTwice.getVisibleWithRid ⟨0, 0⟩ ⟨4, 4, []⟩ 5 =
        some (⟨0, 2⟩, ⟨⟨3, 0, 0, 0, .none⟩, ()⟩) := by
  refine ⟨⟨fun r => 2 - r.slot, ?_⟩, ?_, rfl⟩
  · rintro ⟨_ | p, _ | _ | _ | s⟩ t next ht hnext <;> cases ht <;> cases hnext <;> decide
  · rw [batchResolveCandidates_eq (pairwise_singleton _ _)]
    rfl

end UniDb
