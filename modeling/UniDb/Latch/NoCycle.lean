import UniDb.Latch.Waits

/-!
# When no thread hangs on a latch

A thread that holds a latch outside an accumulator is about to release it (`ThreadOk.latched`), so
only the accumulators of `INSERT` statements matter: a page kept by one must not be waited for by
another that keeps a page itself (`SystemOk.keeping`).

* `latches_free_run`: along every run whose steps are allowed, no thread waits for its own latch, no
  cycle of waits contains a latch, and no cycle of lock waits stays undetected.
-/

namespace UniDb

open Function

namespace Latch

open Relation List

variable {s s' : System} {t u page : Nat} {rest : List Op} {th : Thread}

/-! ## Threads -/

lemma Op.requests_inj {op : Op} {page page' : Nat} (h : op.requests page)
    (h' : op.requests page') : page = page' := by
  rcases h with rfl | rfl <;> rcases h' with h' | h' <;> cases h' <;> rfl

structure ThreadOk (th : Thread) : Prop where
  brief : Brief th.ops
  closes : Closes th.accum.length th.ops
  single : th.latches.length ≤ 1
  latched : th.latches = [] ∨ th.ops.head? = some .unlatch
  idle : th.ops = [] → th.waiting = false

variable {id : Lock}

namespace ThreadOk

lemma of_idle : ThreadOk .idle :=
  ⟨trivial, rfl, Nat.zero_le 1, .inl rfl, fun _ => rfl⟩

variable (h : ThreadOk th)

include h

lemma eq_idle (hops : th.ops = []) : th = .idle := by
  have hcloses := h.closes
  have hlatched := h.latched
  have hidle := h.idle hops
  obtain ⟨ops, latches, accum, waiting⟩ := th
  subst hops hidle
  have haccum : accum = [] := eq_nil_of_length_eq_zero hcloses
  have hlatches : latches = [] := by simpa using hlatched
  rw [haccum, hlatches, Thread.idle]

lemma start {ops : List Op} (hnil : th.ops = []) (hops : Bracketed ops) :
    ThreadOk { th with ops := ops, waiting := false } := by
  have hbrief : Brief (ops ++ []) := hops.brief trivial
  have hcloses : Closes 0 (ops ++ []) := hops.closes rfl
  rw [append_nil] at hbrief hcloses
  rw [h.eq_idle hnil]
  exact ⟨hbrief, hcloses, Nat.zero_le 1, .inl rfl, fun _ => rfl⟩

lemma block (hops : th.ops ≠ []) : ThreadOk { th with waiting := true } :=
  ⟨h.brief, h.closes, h.single, h.latched, fun hnil => absurd hnil hops⟩

lemma latches_eq_nil {op : Op} (hops : th.ops = op :: rest)
    (hop : op ≠ .unlatch) : th.latches = [] := by
  have hlatched := h.latched
  rw [hops] at hlatched
  simpa [hop] using hlatched

/-- A thread does an operation and holds no latch outside its accumulators. -/
lemma next {op : Op} {latches accum : List Nat} (hops : th.ops = op :: rest)
    (hlatches : latches = [])
    (hcloses : Closes th.accum.length (op :: rest) → Closes accum.length rest) :
    ThreadOk ⟨rest, latches, accum, false⟩ := by
  have hbrief := h.brief
  rw [hops] at hbrief
  refine ⟨?_, hcloses (hops ▸ h.closes), by simp [hlatches], .inl hlatches, fun _ => rfl⟩
  cases op with
  | latch page => exact hbrief.2
  | _ => exact hbrief

lemma latch (hops : th.ops = .latch page :: rest) :
    ThreadOk { th with ops := rest, latches := page :: th.latches, waiting := false } := by
  have hlatches := h.latches_eq_nil hops (by simp)
  obtain ⟨hbrief, hcloses, -, -, -⟩ := h
  rw [hops] at hbrief hcloses
  exact ⟨hbrief.2, by simpa using hcloses, by simp [hlatches], .inr hbrief.1, fun _ => rfl⟩

lemma unlatch {latches : List Nat} (hops : th.ops = .unlatch :: rest)
    (hlatches : th.latches = page :: latches) :
    ThreadOk { th with ops := rest, latches := latches, waiting := false } := by
  have hsingle := h.single
  rw [hlatches, length_cons] at hsingle
  exact h.next hops (eq_nil_of_length_eq_zero (by omega)) (by simp)

lemma accum_ne_nil (hops : th.ops = .dropAccum :: rest) : th.accum ≠ [] := by
  intro hnil
  have hcloses := h.closes
  rw [hops, hnil] at hcloses
  exact hcloses

end ThreadOk

/-! ## The system -/

structure SystemOk (s : System) : Prop where
  threads : ∀ t, ThreadOk (s.threads t)
  owned : ∀ page u, s.writer page = some u →
    page ∈ (s.threads u).latches ∨ page ∈ (s.threads u).accum
  inactive : ∀ t, t ∉ s.active → s.threads t = .idle
  /-- A thread with an accumulator waits for a page that no accumulator keeps. -/
  keeping : ∀ t, (s.threads t).waiting = true → (s.threads t).accum ≠ [] →
    ∃ page, (∃ op ∈ (s.threads t).ops.head?, op.requests page) ∧ ∀ u, page ∉ (s.threads u).accum
  /-- The wait-for graph has the edges of the sleeping threads. -/
  parked : ∀ t ∈ s.parked, ∃ id u, (s.threads t).ops.head? = some (.lock id) ∧
    s.holder id = some u ∧ u ∈ successors s.waitsFor t
  acyclic : ∀ t, ¬ TransGen (Parked s) t t

namespace SystemOk

lemma of_init : SystemOk System.init := by
  refine ⟨fun t => .of_idle, fun page u h => (by cases h), fun t _ => rfl, fun t h => (by cases h),
    fun t h => (by cases h), fun t h => ?_⟩
  obtain ⟨u, ⟨hparked, -⟩, -⟩ := TransGen.head'_iff.1 h
  cases hparked

lemma active_of_ops (h : SystemOk s) (hops : (s.threads t).ops ≠ []) : t ∈ s.active := by
  by_contra ht
  rw [h.inactive t ht] at hops
  exact hops rfl

variable {th' : Thread} {writer : Nat → Option Nat}

/-- What `SystemOk` says about the sleeping threads. -/
def ParkedOk (s : System) : Prop :=
  (∀ u ∈ s.parked, ∃ id v, (s.threads u).ops.head? = some (.lock id) ∧
      s.holder id = some v ∧ v ∈ successors s.waitsFor u) ∧
    ∀ u, ¬ TransGen (Parked s) u u

/-- The latches that `t` gets are those of its new state. -/
def Owned (s : System) (t : Nat) (th' : Thread) (writer : Nat → Option Nat) : Prop :=
  ∀ page u, writer page = some u →
    u ≠ t ∧ s.writer page = some u ∨ u = t ∧ (page ∈ th'.latches ∨ page ∈ th'.accum)

section

variable (h : SystemOk s)

include h

/-- **One thread goes on**: what it does to the latches, to the threads that wait for them, and to
the lock table. -/
theorem update (ht : t ∈ s.active)
    (hthreads : s'.threads = update s.threads t th') (hactive : s'.active = s.active)
    (hth : ThreadOk th') (howned : Owned s t th' s'.writer)
    (hown : th'.waiting = true → th'.accum ≠ [] →
      ∃ page, (∃ op ∈ th'.ops.head?, op.requests page) ∧ page ∉ th'.accum ∧
        ∀ u, page ∉ (s.threads u).accum)
    (hothers : ∀ u page, u ≠ t → (s.threads u).waiting = true → (s.threads u).accum ≠ [] →
      (∃ op ∈ (s.threads u).ops.head?, op.requests page) → page ∈ th'.accum →
      page ∈ (s.threads t).accum) (hparked : ParkedOk s') : SystemOk s' := by
  have hself : s'.threads t = th' := by rw [hthreads, update_self]
  have hother : ∀ u, u ≠ t → s'.threads u = s.threads u := fun u hu => by
    rw [hthreads, update_of_ne hu]
  refine ⟨fun u => ?_, fun page u hw => ?_, fun u hu => ?_, fun u hw ha => ?_, hparked.1, hparked.2⟩
  · by_cases hu : u = t
    · rw [hu, hself]
      exact hth
    · rw [hother u hu]
      exact h.threads u
  · rcases howned page u hw with ⟨hu, hw⟩ | ⟨rfl, hpage⟩
    · rw [hother u hu]
      exact h.owned page u hw
    · rw [hself]
      exact hpage
  · rw [hactive] at hu
    rw [hother u (fun heq => hu (heq ▸ ht))]
    exact h.inactive u hu
  · by_cases hu : u = t
    · rw [hu, hself] at hw ha ⊢
      obtain ⟨page, hreq, hnot, hfree⟩ := hown hw ha
      refine ⟨page, hreq, fun v => ?_⟩
      by_cases hv : v = t
      · rw [hv, hself]
        exact hnot
      · rw [hother v hv]
        exact hfree v
    · rw [hother u hu] at hw ha ⊢
      obtain ⟨page, hreq, hfree⟩ := h.keeping u hw ha
      refine ⟨page, hreq, fun v hv => ?_⟩
      by_cases hvt : v = t
      · rw [hvt, hself] at hv
        exact hfree t (hothers u page hu hw ha hreq hv)
      · rw [hother v hvt] at hv
        exact hfree v hv

lemma parked_of_same (hthreads : s'.threads = Function.update s.threads t th') (ht : t ∉ s.parked)
    (hparked : s'.parked = s.parked) (hholder : s'.holder = s.holder)
    (hwaits : s'.waitsFor = s.waitsFor) : ParkedOk s' := by
  have hother : ∀ u ∈ s.parked, s'.threads u = s.threads u := by
    intro u hu
    have hne : u ≠ t := fun heq => ht (heq ▸ hu)
    rw [hthreads, update_of_ne hne]
  constructor
  · intro u hu
    rw [hparked] at hu
    rw [hother u hu, hholder, hwaits]
    exact h.parked u hu
  · intro u hcycle
    refine h.acyclic u (TransGen.mono (fun a b hab => ?_) u u hcycle)
    obtain ⟨ha, hwait⟩ := hab
    rw [hparked] at ha
    refine ⟨ha, ?_⟩
    rw [WaitsForLock, hother a ha, hholder] at hwait
    exact hwait

omit h in
lemma parked_of_nil (hparked : s'.parked = []) : ParkedOk s' := by
  constructor
  · intro u hu
    rw [hparked] at hu
    cases hu
  · intro u hcycle
    obtain ⟨v, ⟨hu, -⟩, -⟩ := TransGen.head'_iff.1 hcycle
    rw [hparked] at hu
    cases hu

lemma owned_of_same (hlatches : th'.latches = (s.threads t).latches)
    (haccum : th'.accum = (s.threads t).accum) : Owned s t th' s.writer := by
  intro page u hw
  by_cases hu : u = t
  · subst hu
    rw [hlatches, haccum]
    exact .inr ⟨rfl, h.owned page u hw⟩
  · exact .inl ⟨hu, hw⟩

lemma not_mem_accum (hkept : ¬ Kept s page) (u : Nat) : page ∉ (s.threads u).accum := by
  intro hpage
  by_cases hu : u ∈ s.active
  · exact hkept ⟨u, hu, hpage⟩
  · rw [h.inactive u hu] at hpage
    cases hpage

lemma goOn (ht : t ∈ s.active) (hparked : t ∉ s.parked) (hth : ThreadOk th')
    (hwaiting : th'.waiting = false) (howned : Owned s t th' writer)
    (hothers : ∀ page ∈ th'.accum, page ∉ (s.threads t).accum → ∀ u ∈ s.active, u ≠ t →
      (s.threads u).accum ≠ [] → ¬ (s.threads u).WaitsAt page) :
    SystemOk ({ s with writer }.setThread t th') := by
  refine h.update ht rfl rfl hth howned (fun hw => ?_) (fun u page hu hw ha hreq hpage => ?_)
    (h.parked_of_same rfl hparked rfl rfl rfl)
  · rw [hwaiting] at hw
    cases hw
  · by_contra hnew
    obtain ⟨op, hop, hreq⟩ := hreq
    have hactive : u ∈ s.active := by
      apply h.active_of_ops
      intro hnil
      rw [hnil] at hop
      cases hop
    refine hothers page hpage hnew u hactive hu ha ⟨hw, ?_⟩
    rcases hreq with rfl | rfl
    · exact .inl hop
    · exact .inr hop

/-! ### Statements start and fail -/

lemma not_parked_of_nil (hops : (s.threads t).ops = []) : t ∉ s.parked := by
  intro ht
  obtain ⟨id, u, hhead, -⟩ := h.parked t ht
  rw [hops] at hhead
  cases hhead

lemma start {ops : List Op} (hops : Bracketed ops)
    (hs : s.start t ops = some s') : SystemOk s' := by
  obtain ⟨hstart, ⟨⟩⟩ := Option.ite_none_right_eq_some.1 hs
  obtain ⟨ht, hnil⟩ := hstart
  exact h.goOn ht (h.not_parked_of_nil hnil) ((h.threads t).start hnil hops) rfl
    (h.owned_of_same rfl rfl) fun _ hp hnew => absurd hp hnew

omit h in
lemma fail_owned (s : System) (t : Nat) : Owned s t .idle (s.fail t).writer := by
  intro page u hw
  left
  obtain ⟨hne, hw⟩ := Option.ite_none_left_eq_some.1 hw
  exact ⟨fun hu => hne (hu ▸ hw), hw⟩

lemma fail (ht : t ∈ s.active) (hparked : t ∉ s.parked) : SystemOk (s.fail t) :=
  h.goOn ht hparked .of_idle rfl (fail_owned s t) nofun

/-! ### Locks -/

lemma active_of_op {op : Op} (hops : (s.threads t).ops = op :: rest) : t ∈ s.active :=
  h.active_of_ops (by simp [hops])

lemma grant {op : Op} (hops : (s.threads t).ops = op :: rest)
    (hop : op = .lock id ∨ op = .tryLock id) : SystemOk ((s.grant t id).proceed t rest) := by
  have hcloses : op ≠ .unlatch ∧
      (Closes (s.threads t).accum.length (op :: rest) →
          Closes (s.threads t).accum.length rest) := by
    rcases hop with rfl | rfl <;> simp
  have hlatches := (h.threads t).latches_eq_nil hops hcloses.1
  exact h.update (h.active_of_op hops) rfl rfl ((h.threads t).next hops hlatches hcloses.2)
    (h.owned_of_same rfl rfl) nofun (fun _ _ _ _ _ _ hp => hp) (parked_of_nil rfl)

omit h in
lemma successors_filter {waitsFor : List (Nat × List Nat)} {u : Nat} (hu : u ≠ t)
    (blockers : List Nat) :
    successors ((t, blockers) :: waitsFor.filter fun e => e.1 ≠ t) u = successors waitsFor u := by
  rw [successors_cons, if_neg hu, successors_filter_ne hu]

/-- **A thread falls asleep** only if the wait-for graph stays without a cycle through it. -/
theorem park (hops : (s.threads t).ops = .lock id :: rest)
    (hrefused : s.canGrant t id = false) (haccum : (s.threads t).accum = [])
    (hcycle : System.hasCycle ((t, s.blockers t id) :: s.waitsFor.filter fun e => e.1 ≠ t) t =
      false) :
    SystemOk ({ s with waitsFor := (t, s.blockers t id) :: s.waitsFor.filter fun e => e.1 ≠ t
                       parked := t :: s.parked }.block t) := by
  obtain ⟨v, hholder, hv⟩ : ∃ v, s.holder id = some v ∧ v ≠ t := by
    rw [System.canGrant, Option.all_eq_false] at hrefused
    obtain ⟨v, hv, hne⟩ := hrefused
    exact ⟨v, hv, by simpa using hne⟩
  generalize hs' : System.block _ t = s'
  have hthreads : s'.threads = Function.update s.threads t
      { s.threads t with waiting := true } := by
    rw [← hs']; rfl
  have hother : ∀ u, u ≠ t → s'.threads u = s.threads u := fun u hu => by
    rw [hthreads, update_of_ne hu]
  have hself : (s'.threads t).ops.head? = some (.lock id) := by
    rw [hthreads, update_self, hops]
    rfl
  have hgraph : s'.waitsFor = (t, s.blockers t id) :: s.waitsFor.filter fun e => e.1 ≠ t := by
    rw [← hs']; rfl
  have hheld : s'.holder = s.holder := by rw [← hs']; rfl
  have hlist : s'.parked = t :: s.parked := by rw [← hs']; rfl
  have hparked : ∀ u ∈ s'.parked, ∃ id w, (s'.threads u).ops.head? = some (.lock id) ∧
      s'.holder id = some w ∧ w ∈ successors s'.waitsFor u := by
    intro u hu
    rw [hheld, hgraph]
    by_cases hut : u = t
    · subst hut
      refine ⟨id, v, hself, hholder, ?_⟩
      simp [successors, System.blockers, hholder, hv]
    · rw [hlist] at hu
      obtain ⟨id', w, hhead, hw, hsucc⟩ := h.parked u ((mem_cons.1 hu).resolve_left hut)
      refine ⟨id', w, by rw [hother u hut]; exact hhead, hw, ?_⟩
      rw [successors_filter hut]
      exact hsucc
  have hedge : ∀ a b, Parked s' a b → Edge s'.waitsFor a b := by
    rintro a b ⟨ha, -, id', hhead, hb, -⟩
    obtain ⟨id'', w, hhead', hw, hsucc⟩ := hparked a ha
    rw [hhead] at hhead'
    cases hhead'
    rw [hb] at hw
    cases hw
    exact hsucc
  refine h.update (h.active_of_op hops) hthreads (by rw [← hs']; rfl)
    ((h.threads t).block (by rw [hops]; simp)) ?_ (fun _ ha => absurd haccum ha)
    (fun _ _ _ _ _ _ hp => hp) ⟨hparked, fun u hu => ?_⟩
  · intro page u hw
    refine h.owned_of_same rfl rfl page u ?_
    rw [← hs'] at hw
    exact hw
  · have hold : ∀ a b, Parked s' a b → Parked s a b ∨ a = t := by
      rintro a b ⟨ha, hwait⟩
      by_cases hat : a = t
      · exact .inr hat
      · rw [hlist] at ha
        rw [WaitsForLock, hother a hat, hheld] at hwait
        exact .inl ⟨(mem_cons.1 ha).resolve_left hat, hwait⟩
    rcases transGen_of_added hold hu with hcyc | hcyc
    · exact h.acyclic u hcyc
    · have hfound : System.hasCycle s'.waitsFor t = true :=
        hasCycle_iff.2 (TransGen.mono hedge t t hcyc)
      rw [hgraph, hcycle] at hfound
      cases hfound

lemma acquireBlocking (hops : (s.threads t).ops = .lock id :: rest)
    (hallowed : (s.threads t).accum ≠ [] → s.canGrant t id = true) :
    SystemOk (s.acquireBlocking t id rest) := by
  unfold System.acquireBlocking
  split
  · exact h.grant hops (.inl rfl)
  · next hrefused =>
    dsimp only
    split
    · -- The victim of a deadlock.
      exact h.update (h.active_of_op hops) rfl rfl .of_idle (fail_owned s t) nofun
        (fun _ _ _ _ _ _ hp => by cases hp) (parked_of_nil rfl)
    · next hcycle =>
      have haccum : (s.threads t).accum = [] := by
        by_contra hne
        exact hrefused (hallowed hne)
      exact h.park hops (by simpa using hrefused) haccum (by simpa using hcycle)

lemma tryAcquireWrite (hparked : t ∉ s.parked)
    (hops : (s.threads t).ops = .tryLock id :: rest) : SystemOk (s.tryAcquireWrite t id rest) := by
  unfold System.tryAcquireWrite
  split
  · exact h.grant hops (.inr rfl)
  · exact h.fail (h.active_of_op hops) hparked

/-! ### Latches -/

lemma block (hparked : t ∉ s.parked) (hreq : ∃ op ∈ (s.threads t).ops.head?, op.requests page)
    (hallowed : (s.threads t).accum ≠ [] → ¬ Kept s page) : SystemOk (s.block t) := by
  have hne : (s.threads t).ops ≠ [] := by
    intro hnil
    rw [hnil] at hreq
    obtain ⟨op, hop, -⟩ := hreq
    cases hop
  refine h.update (h.active_of_ops hne) rfl rfl ((h.threads t).block hne) (h.owned_of_same rfl rfl)
    (fun _ haccum => ?_) (fun _ _ _ _ _ _ hp => hp) (h.parked_of_same rfl hparked rfl rfl rfl)
  have hfree := h.not_mem_accum (hallowed haccum)
  exact ⟨page, hreq, hfree t, hfree⟩

lemma owned_of_latched (hpage : page ∈ th'.latches ∨ page ∈ th'.accum)
    (hlatches : ∀ q ∈ (s.threads t).latches, q ∈ th'.latches)
    (haccum : ∀ q ∈ (s.threads t).accum, q ∈ th'.accum) :
    Owned s t th' (Function.update s.writer page (some t)) := by
  intro q u hw
  rcases eq_of_update hw with ⟨rfl, ht⟩ | ⟨-, hold⟩
  · cases ht
    exact .inr ⟨rfl, hpage⟩
  · by_cases hu : u = t
    · subst hu
      exact .inr ⟨rfl, (h.owned q u hold).imp (hlatches q) (haccum q)⟩
    · exact .inl ⟨hu, hold⟩

lemma owned_of_released
    (hrest : ∀ q, q ≠ page → q ∈ (s.threads t).latches ∨ q ∈ (s.threads t).accum →
      q ∈ th'.latches ∨ q ∈ th'.accum) : Owned s t th' (Function.update s.writer page none) := by
  intro q u hw
  rcases eq_of_update hw with ⟨-, hnone⟩ | ⟨hq, hold⟩
  · cases hnone
  · by_cases hu : u = t
    · subst hu
      exact .inr ⟨rfl, hrest q hq (h.owned q u hold)⟩
    · exact .inl ⟨hu, hold⟩

lemma latchExclusive (hparked : t ∉ s.parked) (hops : (s.threads t).ops = .latch page :: rest)
    (hallowed : (s.threads t).accum ≠ [] → ¬ Kept s page) :
    SystemOk (s.latchExclusive t page rest) := by
  unfold System.latchExclusive
  split
  · exact h.block hparked ⟨_, by rw [hops]; rfl, .inl rfl⟩ hallowed
  · exact h.goOn (h.active_of_op hops) hparked ((h.threads t).latch hops) rfl
      (h.owned_of_latched (.inl (.head _)) (fun _ hq => .tail _ hq) fun _ hq => hq)
      fun _ hp hnew => absurd hp hnew

lemma latchAccum (hparked : t ∉ s.parked) (hops : (s.threads t).ops = .accumulate page :: rest)
    (hallowed : (s.threads t).accum ≠ [] → ¬ Kept s page)
    (hfree : ∀ u ∈ s.active, u ≠ t → (s.threads u).accum ≠ [] → ¬ (s.threads u).WaitsAt page) :
    SystemOk (s.latchAccum t page rest) := by
  unfold System.latchAccum
  split
  · exact h.block hparked ⟨_, by rw [hops]; rfl, .inr rfl⟩ hallowed
  · have hlatches := (h.threads t).latches_eq_nil hops (by simp)
    refine h.goOn (h.active_of_op hops) hparked ((h.threads t).next hops hlatches (by simp)) rfl
      (h.owned_of_latched (.inr (.head _)) (fun _ hq => hq) fun _ hq => .tail _ hq)
      fun q hq hnew => ?_
    -- The page is the only new one.
    rw [(mem_cons.1 hq).resolve_right hnew]
    exact hfree

lemma unlatch (hparked : t ∉ s.parked) (hops : (s.threads t).ops = .unlatch :: rest) :
    SystemOk (s.unlatch t rest) := by
  unfold System.unlatch
  split
  · next hnil =>
    exact h.goOn (h.active_of_op hops) hparked ((h.threads t).next hops hnil (by simp)) rfl
      (h.owned_of_same rfl rfl) fun _ hp hnew => absurd hp hnew
  · next page latches hlatches =>
    refine h.goOn (h.active_of_op hops) hparked ((h.threads t).unlatch hops hlatches) rfl
      (h.owned_of_released fun q hq hmem => ?_) fun _ hp hnew => absurd hp hnew
    rw [hlatches] at hmem
    exact hmem.imp_left fun hmem => (mem_cons.1 hmem).resolve_left hq

lemma dropAccum (hparked : t ∉ s.parked) (hops : (s.threads t).ops = .dropAccum :: rest) :
    SystemOk (s.dropAccum t rest) := by
  unfold System.dropAccum
  split
  · next hnil => exact absurd hnil ((h.threads t).accum_ne_nil hops)
  · next page accum haccum =>
    have hlatches := (h.threads t).latches_eq_nil hops (by simp)
    refine h.goOn (h.active_of_op hops) hparked
      ((h.threads t).next hops hlatches (by simp [haccum, Closes])) rfl
      (h.owned_of_released fun q hq hmem => ?_) fun q hp hnew => absurd (.tail _ hp) (haccum ▸ hnew)
    rw [haccum] at hmem
    exact hmem.imp_right fun hmem => (mem_cons.1 hmem).resolve_left hq

/-! ## Runs -/

lemma run (hallowed : Allowed s (.run t)) (hs : s.run t = some s') : SystemOk s' := by
  obtain ⟨hparked, hs⟩ := Option.ite_none_left_eq_some.1 hs
  simp only [Allowed] at hallowed
  cases hops : (s.threads t).ops with
  | nil =>
    rw [hops] at hs
    cases hs
  | cons op rest =>
    rw [hops] at hs hallowed
    cases op with
    | lock id =>
      cases hs
      exact h.acquireBlocking hops hallowed
    | tryLock id =>
      cases hs
      exact h.tryAcquireWrite hparked hops
    | latch page =>
      cases hs
      exact h.latchExclusive hparked hops hallowed
    | unlatch =>
      cases hs
      exact h.unlatch hparked hops
    | accumulate page =>
      cases hs
      exact h.latchAccum hparked hops hallowed.1 hallowed.2
    | dropAccum =>
      cases hs
      exact h.dropAccum hparked hops

lemma step {a : Action} (hallowed : Allowed s a) (hs : step s a = some s') : SystemOk s' := by
  cases a with
  | begin t =>
    obtain ⟨-, ⟨⟩⟩ := Option.ite_none_left_eq_some.1 hs
    refine ⟨h.threads, h.owned, fun u hu => ?_, h.keeping, h.parked, h.acyclic⟩
    exact h.inactive u fun hmem => hu (.tail _ hmem)
  | exec t stmt => exact h.start (bracketed_stmt stmt) hs
  | undo t pages => exact h.start (.flatMap fun page _ => .once page) hs
  | finish t =>
    obtain ⟨hend, ⟨⟩⟩ := Option.ite_none_right_eq_some.1 hs
    have hparked : ParkedOk { s.releaseAll t with active := s.active.filter (· ≠ t) } :=
      parked_of_nil rfl
    refine ⟨h.threads, h.owned, fun u hu => ?_, h.keeping, hparked.1, hparked.2⟩
    by_cases hut : u = t
    · rw [hut]
      exact (h.threads t).eq_idle hend.2
    · exact h.inactive u fun hmem => hu (mem_filter.2 ⟨hmem, by simpa using hut⟩)
  | run t => exact h.run hallowed hs
  | fail t =>
    obtain ⟨hok, ⟨⟩⟩ := Option.ite_none_left_eq_some.1 hs
    rw [not_or] at hok
    exact h.fail (h.active_of_ops hok.2) hok.1
  | wake t =>
    cases hs
    refine ⟨h.threads, h.owned, h.inactive, h.keeping, fun u hu => ?_, fun u hcycle => ?_⟩
    · exact h.parked u (mem_filter.1 hu).1
    · refine h.acyclic u (TransGen.mono (fun a b hab => ?_) u u hcycle)
      exact ⟨(mem_filter.1 hab.1).1, hab.2⟩

/-- A thread that holds a latch outside an accumulator does not wait. -/
lemma not_waits (hpage : page ∈ (s.threads t).latches) : ¬ Waits s t u := by
  have hhead : (s.threads t).ops.head? = some .unlatch := by
    rcases (h.threads t).latched with hnil | hhead
    · rw [hnil] at hpage
      cases hpage
    · exact hhead
  rintro (⟨q, -, ⟨op, hop, hreq⟩, -⟩ | ⟨-, id, hid, -⟩)
  · rw [hhead] at hop
    cases hop
    rcases hreq with hreq | hreq <;> cases hreq
  · rw [hhead] at hid
    cases hid

/-- A thread that waits and keeps a page waits for a page that is about to be released. -/
lemma waits_briefly {v : Nat} (hkeep : (s.threads t).accum ≠ [])
    (hwait : Waits s t v) : ∃ q, WaitsForLatch s t v q ∧ q ∈ (s.threads v).latches := by
  have hwaiting : (s.threads t).waiting = true := by
    rcases hwait with ⟨q, hw, -⟩ | ⟨hw, -⟩ <;> exact hw
  obtain ⟨q, ⟨op, hop, hreq⟩, hfree⟩ := h.keeping t hwaiting hkeep
  rcases hwait with ⟨q', hlatch⟩ | ⟨-, id, hid, -⟩
  · obtain ⟨-, ⟨op', hop', hreq'⟩, hwriter⟩ := id hlatch
    rw [hop] at hop'
    cases hop'
    obtain rfl := Op.requests_inj hreq hreq'
    exact ⟨q, hlatch, (h.owned q v hwriter).resolve_right (hfree v)⟩
  · rw [hid] at hop
    cases hop
    rcases hreq with hreq | hreq <;> cases hreq

theorem latchesFree : LatchesFree s := by
  refine ⟨fun t page hwait => ?_, fun t u page hwait hpath => ?_, h.acyclic⟩
  · rcases h.owned page t hwait.2.2 with hpage | hpage
    · exact h.not_waits hpage (.inl ⟨page, hwait⟩)
    · obtain ⟨q, -, hq⟩ := h.waits_briefly (ne_nil_of_mem hpage) (.inl ⟨page, hwait⟩)
      exact h.not_waits hq (.inl ⟨page, hwait⟩)
  · obtain ⟨v, huv, hvt⟩ := TransGen.head'_iff.1 hpath
    rcases h.owned page u hwait.2.2 with hpage | hpage
    · exact h.not_waits hpage huv
    · -- The owner of the page waits itself, for a thread that does not.
      obtain ⟨q, -, hq⟩ := h.waits_briefly (ne_nil_of_mem hpage) huv
      rcases ReflTransGen.cases_head hvt with rfl | ⟨w, hvw, -⟩
      · exact h.not_waits hq (.inl ⟨page, hwait⟩)
      · exact h.not_waits hq hvw

end

end SystemOk

theorem latches_free_run (h : Reached step Allowed System.init s) : LatchesFree s := by
  have hok : SystemOk s := h.invariant SystemOk SystemOk.of_init fun _ _ _ hs hallowed hstep =>
    hs.step hallowed hstep
  exact hok.latchesFree

/-! ## Two runs -/

def keyLock (k : Int) : LockId := .uniqueKey "t" "id" (.int k)

def plainRow (k : Int) (room : Bool) : InsertRow TriggerStmt :=
  { probe := none
    outcome := .insert
      { before := [], locks := [keyLock k], room := room, place := ⟨[], 5⟩, event := none,
        after := [] } }

/-- Transaction 1 inserts two rows into a page that it keeps latched, and transaction 2 waits for
the key of the first one. -/
def waitsForKey : List Action :=
  [.begin 1, .begin 2, .exec 1 (.insert [plainRow 1 false, plainRow 2 true]),
    .exec 2 (.insert [plainRow 1 false]), .run 1, .run 1, .run 1, .run 2]

theorem latches_free_run_waits : LatchesFree (runState step System.init waitsForKey) ∧
      (runState step System.init waitsForKey).parked = [2] := by
  have hallowed : RunAllowed step Allowed System.init waitsForKey := by decide +kernel
  exact ⟨latches_free_run (hallowed.reached_runState (by decide +kernel)), by decide +kernel⟩

/-- `INSERT INTO t VALUES (1, ..), (1, ..) ON CONFLICT (id) DO UPDATE SET ..`. -/
def upsertTwice : Stmt :=
  .insert [{ plainRow 1 false with probe := some (keyLock 1) },
    { probe := some (keyLock 1)
      outcome := .update
        { rid := ⟨5, 0⟩, before := [], locks := [], path := .hotSamePage, event := none,
          after := [] } }]

/-- **A thread that waits for its own latch**: the second row is the first one again, and its update
latches the page that the accumulator keeps. -/
theorem upsert_waits_for_itself :
    ∃ s, Reached step (fun _ _ => True) System.init s ∧ ¬ LatchesFree s := by
  let run : List Action := .begin 1 :: .exec 1 upsertTwice :: List.replicate 6 (.run 1)
  have hreached : Reached step (fun _ _ => True) System.init (runState step System.init run) :=
    reached_runState (by simp) (by decide +kernel)
  refine ⟨_, hreached, fun hfree => hfree.own 1 5 ⟨by decide +kernel, ?_, by decide +kernel⟩⟩
  exact ⟨.latch 5, by decide +kernel, .inl rfl⟩

end Latch

end UniDb
