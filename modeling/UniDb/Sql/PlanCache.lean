import Mathlib

/-!
# The plan cache (`lib.rs`)

`parse_sql_cached` finds an entry by the hash of the text and the schema epoch and does not compare
the text. `insert` appends its key to the eviction queue every time; the queue is popped only when a
new key meets a full map.

* `plan_cache_transparent`: over texts that `sql_hash` tells apart every call returns what a parse
  returns, and map and queue are bounded but for the calls that replace an entry of an earlier
  epoch.
-/

namespace UniDb.Plans

open List

structure PlanCacheEntry (π : Type) where
  epoch : UInt64
  plans : π

abbrev Entries (π : Type) : Type := AList fun _ : UInt64 => PlanCacheEntry π

structure PlanCache (π : Type) where
  entries : Entries π := ∅
  /-- Insertion order, oldest first. -/
  order : List UInt64 := []
  capacity : Nat

variable {π ε : Type}

/-- The loop of `insert`: keys are popped until an entry is removed. -/
def evict : List UInt64 → Entries π → List UInt64 × Entries π
  | [], entries => ([], entries)
  | oldKey :: order, entries =>
    if oldKey ∈ entries then (order, entries.erase oldKey) else evict order entries

namespace PlanCache
variable (c : PlanCache π) (hash epoch : UInt64)

def get : Option π :=
  (c.entries.lookup hash).bind fun e => if e.epoch = epoch then some e.plans else none

def makeRoom : List UInt64 × Entries π :=
  if hash ∉ c.entries ∧ c.capacity ≤ c.entries.keys.length then evict c.order c.entries
  else (c.order, c.entries)

def insert (plans : π) : PlanCache π :=
  { c with
    order := (c.makeRoom hash).1 ++ [hash]
    entries := (c.makeRoom hash).2.insert hash ⟨epoch, plans⟩ }

end PlanCache

structure State (π : Type) where
  planCache : PlanCache π
  schemaEpoch : UInt64

def State.new (capacity : Nat) : State π := ⟨{ capacity }, 0⟩

def State.size (s : State π) : Nat := s.planCache.entries.keys.length + s.planCache.order.length

inductive Call where
  | parseSqlCached (sql : String)
  | bumpSchemaEpoch

structure Parser (π ε : Type) where
  sqlHash : String → UInt64
  parseSql : String → Except ε π

section
variable (F : Parser π ε)

def parseSqlCached (s : State π) (sql : String) : State π × Except ε π :=
  match s.planCache.get (F.sqlHash sql) s.schemaEpoch with
  | some plans => (s, .ok plans)
  | none =>
    match F.parseSql sql with
    | .error e => (s, .error e)
    | .ok plans =>
      ({ s with planCache := s.planCache.insert (F.sqlHash sql) s.schemaEpoch plans }, .ok plans)

def step (s : State π) : Call → State π
  | .parseSqlCached sql => (parseSqlCached F s sql).1
  | .bumpSchemaEpoch => { s with schemaEpoch := s.schemaEpoch + 1 }

/-- The call finds an entry of an earlier epoch under the hash of its text. -/
def Stale (s : State π) : Call → Bool
  | .parseSqlCached sql =>
    (s.planCache.entries.lookup (F.sqlHash sql)).any (·.epoch != s.schemaEpoch)
  | .bumpSchemaEpoch => false

def staleFinds (s : State π) : List Call → Nat
  | [] => 0
  | call :: calls => (Stale F s call).toNat + staleFinds (step F s call) calls

/-- The entries hold the plans of texts with their hash; the queue has their keys, and at most
`stale` others. -/
structure CacheInv (texts : Set String) (capacity stale : Nat) (c : PlanCache π) : Prop where
  parsed : ∀ h e, c.entries.lookup h = some e →
    ∃ t ∈ texts, F.sqlHash t = h ∧ F.parseSql t = .ok e.plans
  queued : c.entries.keys ⊆ c.order
  order_le : c.order.length ≤ c.entries.keys.length + stale
  keys_le : c.entries.keys.length ≤ max capacity 1
  capacity_eq : c.capacity = capacity

end

variable {F : Parser π ε} {texts : Set String} {capacity stale : Nat} {s : State π}
  {c : PlanCache π} {hash : UInt64} {sql : String}

lemma length_keys_erase {entries : Entries π} (h : hash ∈ entries) :
    (entries.erase hash).keys.length + 1 = entries.keys.length := by
  rw [AList.keys_erase, length_erase_of_mem h]
  exact Nat.sub_add_cancel (length_pos_of_mem h)

/-- Eviction takes out one entry, if there is one, and at least as many keys of the queue. -/
lemma evict_spec {order : List UInt64} {entries : Entries π} (hqueued : entries.keys ⊆ order) :
    (evict order entries).2.keys ⊆ (evict order entries).1 ∧
      (evict order entries).1.length + entries.keys.length ≤
        order.length + (evict order entries).2.keys.length ∧
      (evict order entries).2.keys.length ≤ entries.keys.length - 1 ∧
      ∀ h e, (evict order entries).2.lookup h = some e → entries.lookup h = some e := by
  induction order with
  | nil =>
    have hnil : entries.keys = [] := subset_nil.1 hqueued
    simp [evict, hnil]
  | cons k order ih =>
    rw [evict]
    split
    · next hk =>
      have hlen := length_keys_erase hk
      dsimp only
      refine ⟨fun h hh => ?_, ?_, by omega, fun h e he => ?_⟩
      · rw [AList.keys_erase, entries.keys_nodup.mem_erase_iff] at hh
        exact (mem_cons.1 (hqueued hh.2)).resolve_left hh.1
      · rw [length_cons]
        omega
      · by_cases hne : h = k
        · rw [hne, AList.lookup_erase] at he
          cases he
        · rwa [AList.lookup_erase_ne hne] at he
    · next hk =>
      have hrest : entries.keys ⊆ order := fun h hh =>
        (mem_cons.1 (hqueued hh)).resolve_left fun he => hk (he ▸ hh)
      obtain ⟨hsub, hlen, hrec⟩ := ih hrest
      exact ⟨hsub, by rw [length_cons]; omega, hrec⟩

/-- What is left after making room: enough of the queue, and a place for a new key. -/
lemma makeRoom_spec (hqueued : c.entries.keys ⊆ c.order)
    (horder : c.order.length ≤ c.entries.keys.length + stale)
    (hkeys : c.entries.keys.length ≤ max c.capacity 1) (hash : UInt64) :
    (c.makeRoom hash).2.keys ⊆ (c.makeRoom hash).1 ∧
      (c.makeRoom hash).1.length ≤ (c.makeRoom hash).2.keys.length + stale ∧
      (hash ∉ c.entries → (c.makeRoom hash).2.keys.length + 1 ≤ max c.capacity 1) ∧
      (hash ∈ c.entries → (c.makeRoom hash).2 = c.entries) ∧
      ∀ h e, (c.makeRoom hash).2.lookup h = some e → c.entries.lookup h = some e := by
  unfold PlanCache.makeRoom
  split
  · next hfull =>
    obtain ⟨hsub, hlen, hless, hold⟩ := evict_spec hqueued
    exact ⟨hsub, by omega, fun _ => by omega, fun hmem => absurd hmem hfull.1, hold⟩
  · next hfull =>
    refine ⟨hqueued, horder, fun hnew => ?_, fun _ => rfl, fun _ _ => id⟩
    simp only [hnew, not_false_eq_true, true_and] at hfull
    dsimp only
    omega

lemma CacheInv.insert (h : CacheInv F texts capacity stale c) (hsql : sql ∈ texts)
    {plans : π} (hparse : F.parseSql sql = .ok plans) (epoch : UInt64) :
    CacheInv F texts capacity (stale + (c.entries.lookup (F.sqlHash sql)).isSome.toNat)
      (c.insert (F.sqlHash sql) epoch plans) := by
  obtain ⟨hparsed, hqueued, horder, hkeys, rfl⟩ := h
  obtain ⟨hsub, hlen, hnew, hsame, hold⟩ := makeRoom_spec hqueued horder hkeys (F.sqlHash sql)
  have hinserted : (c.insert (F.sqlHash sql) epoch plans).entries.keys =
      F.sqlHash sql :: (c.makeRoom (F.sqlHash sql)).2.keys.erase (F.sqlHash sql) :=
    AList.keys_insert ..
  have hqueue : (c.insert (F.sqlHash sql) epoch plans).order =
      (c.makeRoom (F.sqlHash sql)).1 ++ [F.sqlHash sql] := rfl
  have hcount : (c.insert (F.sqlHash sql) epoch plans).entries.keys.length ≤ max c.capacity 1 ∧
      (c.makeRoom (F.sqlHash sql)).2.keys.length + 1 ≤
        (c.insert (F.sqlHash sql) epoch plans).entries.keys.length +
          (c.entries.lookup (F.sqlHash sql)).isSome.toNat := by
    rw [hinserted, length_cons]
    by_cases hmem : F.sqlHash sql ∈ c.entries
    · rw [hsame hmem, ← AList.keys_erase, length_keys_erase hmem, AList.lookup_isSome.2 hmem]
      exact ⟨hkeys, le_rfl⟩
    · have hnot : F.sqlHash sql ∉ (c.makeRoom (F.sqlHash sql)).2.keys := by
        intro hin
        obtain ⟨e, he⟩ := Option.isSome_iff_exists.1 (AList.lookup_isSome.2 hin)
        exact hmem (AList.lookup_isSome.1 (by rw [hold _ e he]; rfl))
      rw [erase_of_not_mem hnot]
      exact ⟨hnew hmem, Nat.le_add_right _ _⟩
  refine ⟨fun h e he => ?_, ?_, ?_, hcount.1, rfl⟩
  · by_cases hk : h = F.sqlHash sql
    · subst hk
      rw [PlanCache.insert, AList.lookup_insert] at he
      cases he
      exact ⟨sql, hsql, rfl, hparse⟩
    · rw [PlanCache.insert, AList.lookup_insert_ne hk] at he
      exact hparsed h e (hold h e he)
  · rw [hinserted, hqueue]
    intro h hh
    rcases mem_cons.1 hh with rfl | hh
    · exact mem_append_right _ (.head _)
    · exact mem_append_left _ (hsub (mem_of_mem_erase hh))
  · rw [hqueue, length_append, length_singleton]
    omega

lemma CacheInv.mono (h : CacheInv F texts capacity stale c) {stale' : Nat} (hle : stale ≤ stale') :
    CacheInv F texts capacity stale' c :=
  { h with order_le := h.order_le.trans (Nat.add_le_add_left hle _) }

/-- **A call in a run of distinct hashes** returns the plans of its text and keeps the invariant. -/
theorem CacheInv.parseSqlCached (h : CacheInv F texts capacity stale s.planCache)
    (hinj : Set.InjOn F.sqlHash texts) (hsql : sql ∈ texts) :
    (parseSqlCached F s sql).2 = F.parseSql sql ∧
      CacheInv F texts capacity (stale + (Stale F s (.parseSqlCached sql)).toNat)
        (parseSqlCached F s sql).1.planCache := by
  unfold Plans.parseSqlCached PlanCache.get
  have hinsert : ∀ plans, F.parseSql sql = .ok plans → _ := fun plans hparse =>
    h.insert hsql hparse s.schemaEpoch
  cases hlook : s.planCache.entries.lookup (F.sqlHash sql) with
  | none =>
    rw [hlook] at hinsert
    cases hparse : F.parseSql sql with
    | error err => exact ⟨rfl, h.mono (Nat.le_add_right _ _)⟩
    | ok plans => exact ⟨rfl, (hinsert plans hparse).mono (by simp)⟩
  | some e =>
    rw [hlook] at hinsert
    obtain ⟨t, ht, hhash, hparse⟩ := h.parsed _ e hlook
    rw [hinj ht hsql hhash] at hparse
    rw [Option.bind_some]
    by_cases hepoch : e.epoch = s.schemaEpoch
    · rw [if_pos hepoch]
      exact ⟨hparse.symm, h.mono (Nat.le_add_right _ _)⟩
    · rw [if_neg hepoch, hparse]
      exact ⟨rfl, (hinsert _ hparse).mono (by simp [Stale, hlook, bne_iff_ne.2 hepoch])⟩

lemma CacheInv.run (h : CacheInv F texts capacity stale s.planCache)
    (hinj : Set.InjOn F.sqlHash texts) {calls : List Call}
    (hcalls : ∀ sql, .parseSqlCached sql ∈ calls → sql ∈ texts) :
    CacheInv F texts capacity (stale + staleFinds F s calls)
        (calls.foldl (step F) s).planCache := by
  induction calls generalizing s stale with
  | nil => exact h
  | cons call calls ih =>
    have hstep : CacheInv F texts capacity (stale + (Stale F s call).toNat)
        (step F s call).planCache := by
      cases call with
      | parseSqlCached sql => exact (h.parseSqlCached hinj (hcalls sql (.head _))).2
      | bumpSchemaEpoch => exact h
    rw [staleFinds, ← Nat.add_assoc]
    exact ih hstep fun sql hsql => hcalls sql (.tail _ hsql)

lemma cacheInv_new (F : Parser π ε) (texts : Set String) (capacity : Nat) :
    CacheInv F texts capacity 0 (State.new (π := π) capacity).planCache :=
  ⟨(fun _ _ he => by cases he), nofun, Nat.zero_le _, Nat.zero_le _, rfl⟩

/-- **When the plan cache is transparent and bounded**: in a run over texts that `sql_hash` tells
apart every call returns what `parse_sql` returns, also after a bump of the epoch; map and queue
exceed twice the capacity at most by the number of calls that found an entry of an earlier epoch. -/
theorem plan_cache_transparent (F : Parser π ε) (capacity : Nat) (calls : List Call)
    (hinj : Set.InjOn F.sqlHash {sql | .parseSqlCached sql ∈ calls}) :
    (∀ before sql after, calls = before ++ .parseSqlCached sql :: after →
        (parseSqlCached F (before.foldl (step F) (.new capacity)) sql).2 = F.parseSql sql) ∧
      (calls.foldl (step F) (.new capacity)).size ≤
        2 * max capacity 1 + staleFinds F (.new capacity) calls := by
  refine ⟨fun before sql after heq => ?_, ?_⟩
  · have hbefore : ∀ sql', .parseSqlCached sql' ∈ before → .parseSqlCached sql' ∈ calls := by
      intro sql' h
      rw [heq]
      exact mem_append_left _ h
    refine (((cacheInv_new F _ capacity).run hinj hbefore).parseSqlCached hinj ?_).1
    rw [Set.mem_ofPred_eq, heq]
    exact mem_append_right _ (.head _)
  · have hcalls : ∀ sql', .parseSqlCached sql' ∈ calls → .parseSqlCached sql' ∈ calls := fun _ => id
    have h := (cacheInv_new F _ capacity).run hinj hcalls
    have horder := h.order_le
    have hkeys := h.keys_le
    unfold State.size
    omega

/-- Texts as their own plans; `"a"` has the hash 1, all others have the hash 2. -/
def firstLetter : Parser String Unit := ⟨fun sql => if sql = "a" then 1 else 2, .ok⟩

/-- With room for one entry: a hit, an eviction, and a text parsed again after a change of the
schema. -/
def busyCalls : List Call :=
  [.parseSqlCached "a", .parseSqlCached "a", .parseSqlCached "b", .bumpSchemaEpoch,
    .parseSqlCached "b", .parseSqlCached "a"]

theorem plan_cache_transparent_busyCalls :
    staleFinds firstLetter (.new 1) busyCalls = 1 ∧
      (busyCalls.foldl (step firstLetter) (.new 1)).size ≤ 3 ∧
      (parseSqlCached firstLetter ((busyCalls.take 4).foldl (step firstLetter) (.new 1)) "b").2 =
        .ok "b" := by
  have hinj : Set.InjOn firstLetter.sqlHash {sql | .parseSqlCached sql ∈ busyCalls} := by
    have hsql : ∀ sql, .parseSqlCached sql ∈ busyCalls → sql = "a" ∨ sql = "b" := by
      simp [busyCalls]
    intro x hx y hy hxy
    rcases hsql x hx with rfl | rfl <;> rcases hsql y hy with rfl | rfl
    · rfl
    · exact absurd hxy (by decide)
    · exact absurd hxy (by decide)
    · rfl
  obtain ⟨hreturns, hsize⟩ := plan_cache_transparent firstLetter 1 busyCalls hinj
  exact ⟨by decide, hsize, hreturns (busyCalls.take 4) "b" _ rfl⟩

/-- All texts have the hash 0. -/
def collide : Parser String Unit := ⟨fun _ => 0, .ok⟩

/-- A second text with the hash of the first gets the plans of the first; and parsing a text again
after a change of the schema leaves its key in the queue twice, next to one entry. -/
theorem plan_cache_returns_other_plans :
    (parseSqlCached collide (step collide (.new 1) (.parseSqlCached "a")) "b").2 = .ok "a" ∧
      ([.parseSqlCached "a", .bumpSchemaEpoch, .parseSqlCached "a"].foldl (step collide)
        (.new 1)).planCache.order = [0, 0] :=
  ⟨rfl, by decide⟩

end UniDb.Plans
