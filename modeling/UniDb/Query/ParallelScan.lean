import UniDb.Lib.Checked
import UniDb.Lib.WorkSteal
import UniDb.Storage.Resolve
import UniDb.Txn.Snapshots

/-!
# Parallel scans (`sql/parallel_scan.rs`)

Each parallel scan is a job of `WorkSteal`: its units are pages, candidates or partitions of
candidates, its calls are the page reads, deadline checks and row callbacks, and the parts that the
workers hand over are added, concatenated or merged. `Job.serial` is the pass of one thread over the
same units.

`parallel_eq_serial`: every schedule of every number of workers ends, and the scan then returns what
the serial pass returns, up to the order of rows, or an error if the serial pass fails. Counts are
kept per key by their bytes; the literals of a group are those of the serial pass as long as equal
bytes come with equal literals. What a worker holds in its page cache when it comes to a candidate
depends on the schedule; any page as it is read is possible (`PageCache`).
-/

namespace UniDb.ParallelScan

open WorkSteal List

variable {ε ρ β κ γ A : Type}

/-! ## Reading pages -/

/-- The page reader, the hint bits of the tuples, the snapshot, and how each deadline check turns
out. -/
structure Scan (ε ρ : Type) where
  readPage : Nat → Except ε (Page ρ)
  xminHint : RowId → Bool
  snapshot : Snapshot
  selfXid : Nat
  deadline : Nat → Nat → Except ε Unit

namespace Scan

variable (V : Scan ε ρ)

def visibleHinted (r : RowId) (t : Tuple ρ) : Bool :=
  Snapshots.isVisibleHinted ⟨t.xmin, t.xmax, V.xminHint r⟩ V.snapshot V.selfXid

/-- `scan_page_into`, `scan_page_visit`: the visible rows of a page. -/
def visibleRows (pageId : Nat) : Except ε (List (RowId × ρ)) := do
  let page ← V.readPage pageId
  return page.zipIdx.filterMap fun (slot, i) =>
    slot.tuple?.bind fun t =>
      if V.visibleHinted ⟨pageId, i⟩ t then some (⟨pageId, i⟩, t.data) else none

/-- `get_visible`, for at most `hops` versions. -/
def follow : Nat → RowId → Except ε (Option ρ)
  | 0, _ => return none
  | hops + 1, cur => do
    let page ← V.readPage cur.pageId
    match page[cur.slot]?.bind Slot.tuple? with
    | none => return none
    | some t =>
      if t.visible V.snapshot V.selfXid then return some t.data
      else match t.hotTarget cur with
        | some next => follow hops next
        | none => return none

def getVisible (r : RowId) : Except ε (Option ρ) := V.follow maxHotChainHops r

def cachedPage (pageId : Nat) (cache : Option (Nat × Page ρ)) : Except ε (Page ρ) :=
  match cache with
  | some (p, page) => if p = pageId then .ok page else V.readPage pageId
  | none => V.readPage pageId

/-- `get_visible_cached`: the result and the page that stays cached. -/
def followCached : Nat → RowId → Option (Nat × Page ρ) →
    Except ε (Option ρ × Option (Nat × Page ρ))
  | 0, _, cache => return (none, cache)
  | hops + 1, cur, cache => do
    let page ← V.cachedPage cur.pageId cache
    let cache := some (cur.pageId, page)
    match page[cur.slot]?.bind Slot.tuple? with
    | none => return (none, cache)
    | some t =>
      if t.visible V.snapshot V.selfXid then return (some t.data, cache)
      else match t.hotTarget cur with
        | some next => followCached hops next cache
        | none => return (none, cache)

/-- A cache holds nothing, or a page as it is read. -/
def PageCache : Type :=
  { cache : Option (Nat × Page ρ) // ∀ p page, cache = some (p, page) → V.readPage p = .ok page }

def PageCache.empty : V.PageCache := ⟨none, nofun⟩

def getVisibleCached (cache : V.PageCache) (r : RowId) : Except ε (Option ρ) :=
  (V.followCached maxHotChainHops r cache.1).map Prod.fst

variable {V}

lemma cachedPage_eq (cache : V.PageCache) (pageId : Nat) :
    V.cachedPage pageId cache.1 = V.readPage pageId := by
  obtain ⟨_ | ⟨p, page⟩, h⟩ := cache
  · rfl
  · dsimp only [cachedPage]
    split
    · next heq => rw [← heq, h p page rfl]
    · rfl

/-- **The page cache changes nothing**: the result is the same, and what stays cached is again a
page as it is read. -/
theorem followCached_eq (hops : Nat) (cur : RowId) (cache : V.PageCache) :
    (V.followCached hops cur cache.1).map Prod.fst = V.follow hops cur ∧
      ∀ o cache', V.followCached hops cur cache.1 = .ok (o, cache') →
        ∃ kept : V.PageCache, kept.1 = cache' := by
  induction hops generalizing cur cache with
  | zero =>
    refine ⟨rfl, ?_⟩
    rintro o _ ⟨⟩
    exact ⟨cache, rfl⟩
  | succ hops ih =>
    rw [followCached, follow, cachedPage_eq cache]
    cases hread : V.readPage cur.pageId with
    | error e => exact ⟨rfl, nofun⟩
    | ok page =>
      let new : V.PageCache := ⟨some (cur.pageId, page), by
        rintro p page' ⟨⟩
        exact hread⟩
      dsimp only [bind, Except.bind]
      split
      · refine ⟨rfl, ?_⟩
        rintro o _ ⟨⟩
        exact ⟨new, rfl⟩
      · split
        · refine ⟨rfl, ?_⟩
          rintro o _ ⟨⟩
          exact ⟨new, rfl⟩
        · split
          · exact ih _ new
          · refine ⟨rfl, ?_⟩
            rintro o _ ⟨⟩
            exact ⟨new, rfl⟩

lemma getVisibleCached_eq (cache : V.PageCache) : V.getVisibleCached cache = V.getVisible :=
  funext fun r => (followCached_eq maxHotChainHops r cache).1

end Scan

/-! ## The jobs -/

section Jobs
variable (V : Scan ε ρ)

/-- The rows of the `i`-th page; the deadline is checked on every fourth page. -/
def pageRows (i pageId : Nat) : Except ε (List (RowId × ρ)) := do
  if i % 4 = 0 then V.deadline i 0
  V.visibleRows pageId

/-- A page as a unit: its read, then a call per visible row. -/
def pageUnit (call : RowId → ρ → Call ε A) (i pageId : Nat) : Work ε A :=
  match pageRows V i pageId with
  | .error e => [.error e]
  | .ok rows => rows.map fun (rid, body) => call rid body

variable (pages : List Nat)

def pageJob (init : A) (call : RowId → ρ → Call ε A) : Job ε A :=
  ⟨pages.zipIdx.map fun (pageId, i) => pageUnit V call i pageId, init, false, false⟩

/-- `parallel_count`: the headers are counted and the total is raised page by page. -/
def countJob : Job ε Nat :=
  ⟨pages.zipIdx.map fun (pageId, i) => [(pageRows V i pageId).map fun rows total =>
    total + rows.length], 0, false, true⟩

variable (matching : ρ → Except ε Bool) (perCandidate : RowId → ρ → Except ε (Option β))
  (unit i : Nat)

def countMatchingJob : Job ε Nat :=
  pageJob V pages 0 fun _ body => (matching body).map fun b n => if b then n + 1 else n

def collectMatchingJob : Job ε (List (RowId × ρ)) :=
  pageJob V pages [] fun rid body =>
    (matching body).map fun b found => if b then found ++ [(rid, body)] else found

def collectRowIdsJob : Job ε (List RowId) :=
  pageJob V pages [] fun rid body => (matching body).map fun b found => if b then found ++
    [rid] else found

/-- The entry of a key, made if there is none, goes up by `n`. -/
def bump [DecidableEq κ] (key : κ) (lits : γ) (n : Nat) : List (κ × γ × Nat) → List (κ × γ × Nat)
  | [] => [(key, lits, n)]
  | (k, l, m) :: groups =>
    if k = key then (k, l, m + n) :: groups else (k, l, m) :: bump key lits n groups

def groupCountJob [DecidableEq κ] (pages : List Nat) (extractKey : ρ → Except ε (κ × γ)) :
    Job ε (List (κ × γ × Nat)) :=
  pageJob V pages [] fun _ body => (extractKey body).map fun (key, lits) => bump key lits 1

/-- The partials of the workers, merged. -/
def mergeGroups [DecidableEq κ] (partials : List (List (κ × γ × Nat))) : List (κ × γ × Nat) :=
  partials.flatten.foldl (fun merged (key, lits, n) => bump key lits n merged) []

def filterProjectJob (perRow : RowId → ρ → Except ε (Option β)) : Job ε (List β × List RowId) :=
  pageJob V pages ([], []) fun rid body => (perRow rid body).map fun o acc =>
    match o with
    | some row => (acc.1 ++ [row], acc.2 ++ [rid])
    | none => acc

variable (read : RowId → Except ε (Option ρ)) (rid : RowId)

/-- The row of a candidate; the deadline is checked on every 64th. -/
def candidateRow : Except ε (Option β) := do
  if i % 64 = 0 then V.deadline unit i
  match ← read rid with
  | none => return none
  | some body => perCandidate rid body

def candidate : Call ε (List β) :=
  (candidateRow V perCandidate unit i read rid).map fun row rows => rows ++ row.toList

def resolveCandidatesJob (candidates : List RowId)
    (perCandidate : RowId → ρ → Except ε (Option β)) :
    Job ε (List β) :=
  ⟨candidates.zipIdx.map fun (rid, i) => [candidate V perCandidate i i V.getVisible rid], [], false,
    false⟩

/-- `parallel_resolve_partitions`: the flag is looked at before each candidate. `caches p i` is the
page cache of the worker that comes to the `i`-th candidate of the partition `p`. -/
def resolvePartitionsJob (caches : Nat → Nat → V.PageCache) (partitions : List (List RowId))
    (perCandidate : RowId → ρ → Except ε (Option β)) : Job ε (List β) :=
  ⟨partitions.zipIdx.map fun (part, p) => part.zipIdx.map fun (rid, i) =>
    candidate V perCandidate p i (V.getVisibleCached (caches p i)) rid, [], true, false⟩

variable {V} in
lemma resolvePartitionsJob_eq (caches : Nat → Nat → V.PageCache) (partitions : List (List RowId)) :
    resolvePartitionsJob V caches partitions perCandidate =
      resolvePartitionsJob V (fun _ _ => .empty V) partitions perCandidate := by
  simp only [resolvePartitionsJob, Scan.getVisibleCached_eq]

end Jobs

/-! ## Parallel and serial results -/

/-- `run_in_pool`: the pool may be smaller than asked; a pool of less than two is not used. -/
def realDegree (degree size : Nat) : Nat := if min degree size < 2 then 1 else min degree size

lemma realDegree_pos (degree size : Nat) : 0 < realDegree degree size := by
  unfold realDegree
  split <;> omega

lemma mem_pageJob {V : Scan ε ρ} {pages : List Nat} {init : A} {call : RowId → ρ → Call ε A}
    {unit : Work ε A} {f : A → A} (hunit : unit ∈ (pageJob V pages init call).units)
    (hf : .ok f ∈ unit) : ∃ rid body, call rid body = .ok f := by
  obtain ⟨⟨pageId, i⟩, -, rfl⟩ := mem_map.1 hunit
  simp only [pageUnit] at hf
  split at hf
  · simp at hf
  · obtain ⟨⟨rid, body⟩, -, hcall⟩ := mem_map.1 hf
    exact ⟨rid, body, hcall⟩

lemma agrees_append {J : Job ε (List β)} (degree size : Nat) (hinit : J.init = [])
    (hcall : ∀ unit ∈ J.units, ∀ f, .ok f ∈ unit → ∃ rows, f = fun acc => acc ++ rows) :
    J.Agrees (realDegree degree size) flatten List.Perm := by
  refine Job.agrees (fun rows => (rows : Multiset β)) (fun _ => True) (realDegree_pos degree size)
    ⟨by rw [hinit]; rfl, trivial⟩ ?_ ?_ fun v acc _ _ h => Multiset.coe_eq_coe.1 h
  · intro unit hunit f hf acc
    obtain ⟨rows, rfl⟩ := hcall unit hunit f hf
    exact ⟨by simp [hinit], fun h => h⟩
  · intro parts _
    refine ⟨?_, trivial⟩
    induction parts with
    | nil => rfl
    | cons p parts ih => simp [← ih]

lemma agrees_add {J : Job ε Nat} (degree size : Nat) (hinit : J.init = 0)
    (hcall : ∀ unit ∈ J.units, ∀ f, .ok f ∈ unit → ∃ n, ∀ acc, f acc = acc + n) :
    J.Agrees (realDegree degree size) sum Eq := by
  refine Job.agrees (fun n => n) (fun _ => True) (realDegree_pos degree size) ⟨hinit, trivial⟩ ?_ ?_
    fun v acc _ _ h => h
  · intro unit hunit f hf acc
    obtain ⟨n, hn⟩ := hcall unit hunit f hf
    exact ⟨by rw [hn, hn, hinit, zero_add], fun h => h⟩
  · exact fun parts _ => ⟨by simp, trivial⟩

/-! ### Groups -/

section Groups
variable [DecidableEq κ]

def countOf (groups : List (κ × γ × Nat)) (key : κ) : Nat :=
  (groups.map fun (k, _, n) => if k = key then n else 0).sum

lemma countOf_bump (key k : κ) (lits : γ) (n : Nat) (groups : List (κ × γ × Nat)) :
    countOf (bump key lits n groups) k = countOf groups k + if key = k then n else 0 := by
  induction groups with
  | nil => simp [bump, countOf]
  | cons g groups ih =>
    obtain ⟨j, l, m⟩ := g
    simp only [countOf] at ih
    by_cases hj : j = key
    · subst hj
      by_cases hk : j = k <;> simp [bump, countOf, hk, Nat.add_right_comm]
    · simp [bump, countOf, hj, ih, Nat.add_assoc]

variable {n : Nat} {groups : List (κ × γ × Nat)} {lit : κ → γ → Prop}

lemma mem_keys_bump {key k : κ} {lits : γ} :
    k ∈ (bump key lits n groups).map (·.1) ↔ k = key ∨ k ∈ groups.map (·.1) := by
  induction groups with
  | nil => simp [bump]
  | cons g groups ih =>
    obtain ⟨j, l, m⟩ := g
    by_cases hj : j = key
    · simp [bump, hj]
    · simp only [bump, if_neg hj, map_cons, mem_cons, ih]
      exact or_left_comm

/-- One entry per key, each counted, with literals that `lit` knows. -/
structure Tidy (lit : κ → γ → Prop) (groups : List (κ × γ × Nat)) : Prop where
  nodup : (groups.map (·.1)).Nodup
  entries : ∀ k l n, (k, l, n) ∈ groups → lit k l ∧ 0 < n

lemma Tidy.bump (h : Tidy lit groups) {key : κ} {lits : γ} (hlit : lit key lits) (hn : 0 < n) :
    Tidy lit (bump key lits n groups) := by
  induction groups with
  | nil =>
    refine ⟨by simp [ParallelScan.bump], fun k l m hmem => ?_⟩
    cases mem_singleton.1 hmem
    exact ⟨hlit, hn⟩
  | cons g groups ih =>
    obtain ⟨j, l, m⟩ := g
    obtain ⟨hj, hnodup⟩ := nodup_cons.1 (map_cons .. ▸ h.nodup)
    have htail : Tidy lit groups := ⟨hnodup, fun k l n hmem => h.entries k l n (.tail _ hmem)⟩
    have hhead := h.entries j l m (.head _)
    rw [ParallelScan.bump]
    split
    · refine ⟨h.nodup, fun k l' n' hmem => ?_⟩
      rcases mem_cons.1 hmem with hmem | hmem
      · cases hmem
        exact ⟨hhead.1, by omega⟩
      · exact htail.entries k l' n' hmem
    · next hne =>
      have hrest := ih htail
      refine ⟨?_, fun k l' n' hmem => ?_⟩
      · rw [map_cons, nodup_cons]
        exact ⟨fun hmem => (mem_keys_bump.1 hmem).elim hne hj, hrest.nodup⟩
      · rcases mem_cons.1 hmem with hmem | hmem
        · cases hmem
          exact hhead
        · exact hrest.entries k l' n' hmem

lemma Tidy.mem_iff (h : Tidy lit groups) (hlit : ∀ k l l', lit k l → lit k l' → l = l') {k : κ}
    {l : γ} : (k, l, n) ∈ groups ↔ lit k l ∧ countOf groups k = n ∧ 0 < n := by
  induction groups with
  | nil => simp [countOf]; omega
  | cons g groups ih =>
    obtain ⟨j, l', m⟩ := g
    obtain ⟨hj, hnodup⟩ := nodup_cons.1 (map_cons .. ▸ h.nodup)
    have htail : Tidy lit groups := ⟨hnodup, fun k l n hmem => h.entries k l n (.tail _ hmem)⟩
    obtain ⟨hl', hm⟩ := h.entries j l' m (.head _)
    have hzero : countOf groups j = 0 := by
      refine sum_eq_zero fun x hx => ?_
      obtain ⟨⟨i, li, ni⟩, hmem, rfl⟩ := mem_map.1 hx
      refine if_neg ?_
      rintro rfl
      exact hj (mem_map.2 ⟨_, hmem, rfl⟩)
    have hcons : countOf ((j, l', m) :: groups) k =
        (if j = k then m else 0) + countOf groups k := by
      simp [countOf]
    rw [mem_cons, ih htail, hcons]
    constructor
    · rintro (heq | ⟨hl, hcount, hn⟩)
      · cases heq
        simp [hl', hm, hzero]
      · have hne : j ≠ k := by
          rintro rfl
          omega
        simp [hne, hl, hcount, hn]
    · rintro ⟨hl, hcount, hn⟩
      by_cases heq : j = k
      · subst heq
        left
        rw [if_pos rfl, hzero] at hcount
        rw [hlit j l l' hl hl', ← hcount]
        rfl
      · rw [if_neg heq, zero_add] at hcount
        exact .inr ⟨hl, hcount, hn⟩

/-- Group counts are the same: every key has its count, and where equal keys have equal literals the
entries are the same. -/
def SameGroups (lit : κ → γ → Prop) (v acc : List (κ × γ × Nat)) : Prop :=
  (∀ key, countOf v key = countOf acc key) ∧ ((∀ k l l', lit k l → lit k l' → l = l') → v.Perm acc)

lemma sameGroups {v acc : List (κ × γ × Nat)} (hv : Tidy lit v) (hacc : Tidy lit acc)
    (h : countOf v = countOf acc) : SameGroups lit v acc := by
  refine ⟨congrFun h, fun hlit => ?_⟩
  refine (perm_ext_iff_of_nodup hv.nodup.of_map hacc.nodup.of_map).2 ?_
  rintro ⟨k, l, n⟩
  rw [hv.mem_iff hlit, hacc.mem_iff hlit, h]

lemma mergeGroups_spec {partials : List (List (κ × γ × Nat))} (h : ∀ p ∈ partials, Tidy lit p) :
    countOf (mergeGroups partials) = (partials.map countOf).sum ∧
        Tidy lit (mergeGroups partials) := by
  have hfold : ∀ (l merged : List (κ × γ × Nat)), Tidy lit merged →
      (∀ k x n, (k, x, n) ∈ l → lit k x ∧ 0 < n) →
      (∀ key, countOf (l.foldl (fun merged (key, lits, n) => bump key lits n merged) merged) key =
        countOf merged key + countOf l key) ∧
      Tidy lit (l.foldl (fun merged (key, lits, n) => bump key lits n merged) merged) := by
    intro l
    induction l with
    | nil => exact fun merged hm _ => ⟨fun key => rfl, hm⟩
    | cons e l ih =>
      obtain ⟨j, x, n⟩ := e
      intro merged hm hl
      obtain ⟨hx, hn⟩ := hl j x n (.head _)
      obtain ⟨hcount, htidy⟩ := ih _ (hm.bump hx hn) fun k y n hmem => hl k y n (.tail _ hmem)
      refine ⟨fun key => ?_, htidy⟩
      rw [foldl_cons, hcount key, countOf_bump]
      simp [countOf, Nat.add_assoc]
  have hentries : ∀ k x n, (k, x, n) ∈ partials.flatten → lit k x ∧ 0 < n := by
    intro k x n hmem
    obtain ⟨p, hp, hmem⟩ := mem_flatten.1 hmem
    exact (h p hp).entries k x n hmem
  obtain ⟨hcount, htidy⟩ := hfold partials.flatten [] ⟨nodup_nil, nofun⟩ hentries
  refine ⟨funext fun key => ?_, htidy⟩
  rw [mergeGroups, hcount key]
  clear hfold hentries hcount htidy h
  induction partials with
  | nil => rfl
  | cons p partials ih =>
    simp only [map_cons, sum_cons, Pi.add_apply, ← ih]
    simp [countOf]

end Groups

/-! ## The scans -/

lemma groupCountJob_agrees [DecidableEq κ] (V : Scan ε ρ) (pages : List Nat)
    (extractKey : ρ → Except ε (κ × γ)) (degree size : Nat) :
    (groupCountJob V pages extractKey).Agrees (realDegree degree size) mergeGroups
      (SameGroups fun k l => ∃ body, extractKey body = .ok (k, l)) := by
  refine Job.agrees countOf (Tidy _) (realDegree_pos degree size) ⟨rfl, nodup_nil, nofun⟩ ?_
    (fun parts h => mergeGroups_spec h) fun v acc hv hacc h => sameGroups hv hacc h
  intro unit hunit f hf acc
  obtain ⟨rid, body, hcall⟩ := mem_pageJob hunit hf
  obtain ⟨⟨key, lits⟩, hkey, rfl⟩ := map_eq_ok.1 hcall
  refine ⟨funext fun k => ?_, fun h => h.bump ⟨body, hkey⟩ Nat.one_pos⟩
  have hinit : (groupCountJob V pages extractKey).init = [] := rfl
  rw [Pi.add_apply, countOf_bump, countOf_bump, hinit]
  simp [countOf]

lemma filterProjectJob_agrees (V : Scan ε ρ) (pages : List Nat)
    (perRow : RowId → ρ → Except ε (Option β)) (degree size : Nat) :
    (filterProjectJob V pages perRow).Agrees (realDegree degree size)
      (fun parts => ((parts.map Prod.fst).flatten, (parts.map Prod.snd).flatten))
      (fun v acc => v.1.Perm acc.1 ∧ v.2.Perm acc.2) := by
  refine Job.agrees (fun acc => ((acc.1 : Multiset β), (acc.2 : Multiset RowId))) (fun _ => True)
    (realDegree_pos degree size) ⟨rfl, trivial⟩ ?_ ?_ ?_
  · intro unit hunit f hf acc
    obtain ⟨rid, body, hcall⟩ := mem_pageJob hunit hf
    obtain ⟨o, -, rfl⟩ := map_eq_ok.1 hcall
    cases o with
    | none => simp [filterProjectJob, pageJob]
    | some row => simp [filterProjectJob, pageJob, ← Multiset.coe_add]
  · intro parts _
    refine ⟨?_, trivial⟩
    induction parts with
    | nil => rfl
    | cons p parts ih => simp [← ih]
  · intro v acc _ _ h
    exact ⟨Multiset.coe_eq_coe.1 (Prod.mk.inj h).1, Multiset.coe_eq_coe.1 (Prod.mk.inj h).2⟩

/-- **Parallel scans equal serial scans**, for every pool, schedule and callback: they end, and
return what one thread returns up to order, or an error if one thread fails. -/
theorem parallel_eq_serial [DecidableEq κ] (V : Scan ε ρ) (pages : List Nat)
    (candidates : List RowId) (partitions : List (List RowId)) (matching : ρ → Except ε Bool)
    (extractKey : ρ → Except ε (κ × γ)) (perRow : RowId → ρ → Except ε (Option β))
    (caches : Nat → Nat → V.PageCache) (degree size : Nat) :
    (countJob V pages).Agrees (realDegree degree size) sum Eq ∧
    (countMatchingJob V pages matching).Agrees (realDegree degree size) sum Eq ∧
    (collectMatchingJob V pages matching).Agrees (realDegree degree size) flatten List.Perm ∧
    (collectRowIdsJob V pages matching).Agrees (realDegree degree size) flatten List.Perm ∧
    (groupCountJob V pages extractKey).Agrees (realDegree degree size) mergeGroups
      (SameGroups fun k l => ∃ body, extractKey body = .ok (k, l)) ∧
    (filterProjectJob V pages perRow).Agrees (realDegree degree size)
      (fun parts => ((parts.map Prod.fst).flatten, (parts.map Prod.snd).flatten))
      (fun v acc => v.1.Perm acc.1 ∧ v.2.Perm acc.2) ∧
    (resolveCandidatesJob V candidates perRow).Agrees (realDegree degree size) flatten List.Perm ∧
    (resolvePartitionsJob V caches partitions perRow).Agrees (realDegree degree size) flatten
      List.Perm ∧
    resolvePartitionsJob V caches partitions perRow =
      resolvePartitionsJob V (fun _ _ => .empty V) partitions perRow := by
  refine ⟨agrees_add _ _ rfl ?_, agrees_add _ _ rfl ?_, agrees_append _ _ rfl ?_,
    agrees_append _ _ rfl ?_, groupCountJob_agrees .., filterProjectJob_agrees ..,
    agrees_append _ _ rfl ?_, agrees_append _ _ rfl ?_,
    resolvePartitionsJob_eq perRow caches partitions⟩
  · intro unit hunit f hf
    obtain ⟨⟨pageId, i⟩, -, rfl⟩ := mem_map.1 hunit
    obtain ⟨rows, -, rfl⟩ := map_eq_ok.1 (mem_singleton.1 hf).symm
    exact ⟨rows.length, fun acc => rfl⟩
  · intro unit hunit f hf
    obtain ⟨rid, body, hcall⟩ := mem_pageJob hunit hf
    obtain ⟨b, -, rfl⟩ := map_eq_ok.1 hcall
    exact ⟨if b then 1 else 0, fun acc => by cases b <;> rfl⟩
  · intro unit hunit f hf
    obtain ⟨rid, body, hcall⟩ := mem_pageJob hunit hf
    obtain ⟨b, -, rfl⟩ := map_eq_ok.1 hcall
    exact ⟨if b then [(rid, body)] else [], funext fun acc => by cases b <;> simp⟩
  · intro unit hunit f hf
    obtain ⟨rid, body, hcall⟩ := mem_pageJob hunit hf
    obtain ⟨b, -, rfl⟩ := map_eq_ok.1 hcall
    exact ⟨if b then [rid] else [], funext fun acc => by cases b <;> simp⟩
  · intro unit hunit f hf
    obtain ⟨⟨rid, i⟩, -, rfl⟩ := mem_map.1 hunit
    obtain ⟨row, -, rfl⟩ := map_eq_ok.1 (mem_singleton.1 hf).symm
    exact ⟨row.toList, rfl⟩
  · intro unit hunit f hf
    obtain ⟨⟨part, p⟩, -, rfl⟩ := mem_map.1 hunit
    obtain ⟨⟨rid, i⟩, -, hcall⟩ := mem_map.1 hf
    obtain ⟨row, -, rfl⟩ := map_eq_ok.1 hcall
    exact ⟨row.toList, rfl⟩

end UniDb.ParallelScan
