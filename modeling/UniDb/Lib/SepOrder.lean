import UniDb.Lib.SepTree

/-!
# Ordered rows

`Sep.Chain P s`: every item of the row `s` satisfies `P` with the separators on its two sides (`⊥`
and `⊤` at the ends). Such a property survives a change of one item that keeps it between its own
separators (`Chain.replace`, `Chain.walk`). `Sep.Ordered` is the case of search trees: the items are
lists sorted by key, with keys between the separators. Then the entries of all items are sorted,
and those left and right of where a test routes to are on the two sides of it.
-/

namespace UniDb

open List

namespace Sep

variable {K T : Type}

variable {lo : WithBot K} {t : T} {rest : List (K × T)} {s : Sep K T} {q : K → Bool}
  {pre : List (T × K)}

section
variable {P : WithBot K → WithTop K → T → Prop} {p : K → Bool}

def ChainFrom (P : WithBot K → WithTop K → T → Prop) : WithBot K → T → List (K × T) → Prop
  | lo, t, [] => P lo ⊤ t
  | lo, t, (k, c) :: rest => P lo k t ∧ ChainFrom P k c rest

section
variable (P : WithBot K → WithTop K → T → Prop) (p : K → Bool) (lo : WithBot K) (hi : WithTop K)

def Chain (s : Sep K T) : Prop := ChainFrom P ⊥ s.first s.rest

def Below : Prop := ∀ k : K, lo = k → p k = true

def Above : Prop := ∀ k : K, hi = k → p k = false

/-- An item between two bounds, or two with a separator between them. -/
def Fits (t' : T) : Option (K × T) → Prop
  | none => P lo hi t'
  | some (k, c) => P lo k t' ∧ P k hi c

end

lemma below_bot : Below p (⊥ : WithBot K) := by simp [Below]

lemma above_top : Above p (⊤ : WithTop K) := by simp [Above]

lemma below_coe {k : K} (h : p k = true) : Below p (k : WithBot K) := by
  rintro k' hk
  rwa [← WithBot.coe_inj.1 hk]

lemma above_coe {k : K} (h : p k = false) : Above p (k : WithTop K) := by
  rintro k' hk
  rwa [← WithTop.coe_inj.1 hk]

lemma ChainFrom.imp {Q : WithBot K → WithTop K → T → Prop}
    (hPQ : ∀ lo hi t, P lo hi t → Q lo hi t) (h : ChainFrom P lo t rest) :
    ChainFrom Q lo t rest := by
  induction rest generalizing lo t with
  | nil => exact hPQ _ _ _ h
  | cons x rest ih => exact ⟨hPQ _ _ _ h.1, ih h.2⟩

lemma ChainFrom.pick (h : ChainFrom P lo t rest) (hlo : Below p lo) :
    ∃ lo' hi, Below p lo' ∧ Above p hi ∧ P lo' hi (pickFrom p t rest) := by
  induction rest generalizing lo t with
  | nil => exact ⟨lo, ⊤, hlo, above_top, h⟩
  | cons x rest ih =>
    unfold pickFrom
    split
    · next hx => exact ih h.2 (below_coe hx)
    · next hx => exact ⟨lo, x.1, hlo, above_coe (by simpa using hx), h.1⟩

lemma Chain.pick (h : s.Chain P) (p : K → Bool) :
    ∃ lo hi, Below p lo ∧ Above p hi ∧ P lo hi (s.pick p) :=
  ChainFrom.pick h below_bot

variable {new : Option (K × T)} {step : T → Walk T}

lemma ChainFrom.replace {t' : T} (h : ChainFrom P lo t rest) (hlo : Below p lo)
    (hfits : ∀ lo hi, Below p lo → Above p hi → P lo hi (pickFrom p t rest) → Fits P lo hi t' new) :
    ChainFrom P lo (replaceFrom p t' new t rest).first (replaceFrom p t' new t rest).rest := by
  induction rest generalizing lo t with
  | nil =>
    have hfit := hfits lo ⊤ hlo above_top h
    cases new <;> exact hfit
  | cons x rest ih =>
    unfold replaceFrom
    unfold pickFrom at hfits
    split
    · next hx =>
      rw [if_pos hx] at hfits
      exact ⟨h.1, ih h.2 (below_coe hx) hfits⟩
    · next hx =>
      rw [if_neg hx] at hfits
      have hfit := hfits lo x.1 hlo (above_coe (by simpa using hx)) h.1
      cases new with
      | none => exact ⟨hfit, h.2⟩
      | some c => exact ⟨hfit.1, hfit.2, h.2⟩

lemma Chain.replace {t' : T} (h : s.Chain P)
    (hfits : ∀ lo hi, Below p lo → Above p hi → P lo hi (s.pick p) → Fits P lo hi t' new) :
    (s.replace p t' new).Chain P :=
  ChainFrom.replace h below_bot hfits

lemma ChainFrom.walk {here : T → Walk T} {s' : Sep K T} (h : ChainFrom P lo t rest)
    (hhere : ∀ lo hi t t', P lo hi t → here t = .write t' → P lo hi t')
    (hstep : ∀ lo hi t t', P lo hi t → step t = .write t' → P lo hi t')
    (hs' : walkFrom p here step t rest = .write s') : ChainFrom P lo s'.first s'.rest := by
  induction rest generalizing lo t p here s' with
  | nil =>
    cases ht : here t with
    | write t' =>
      simp only [walkFrom, ht, Walk.map, Walk.write.injEq] at hs'
      subst hs'
      exact hhere _ _ _ _ h ht
    | _ => simp [walkFrom, ht, Walk.map] at hs'
  | cons x rest ih =>
    unfold walkFrom at hs'
    split at hs'
    · cases hw : walkFrom p here step x.2 rest with
      | write s'' =>
        simp only [hw, Walk.map, Walk.write.injEq] at hs'
        subst hs'
        exact ⟨h.1, ih h.2 hhere hw⟩
      | _ => simp [hw, Walk.map] at hs'
    · cases ht : here t with
      | write t' =>
        simp only [ht, Walk.orElse, Walk.write.injEq] at hs'
        subst hs'
        exact ⟨hhere _ _ _ _ h.1 ht, h.2⟩
      | next =>
        cases hw : walkFrom (fun _ => false) step step x.2 rest with
        | write s'' =>
          simp only [ht, Walk.orElse, hw, Walk.map, Walk.write.injEq] at hs'
          subst hs'
          exact ⟨h.1, ih h.2 hstep hw⟩
        | _ => simp [ht, Walk.orElse, hw, Walk.map] at hs'
      | stop => simp [ht, Walk.orElse] at hs'

lemma Chain.walk {s' : Sep K T} (h : s.Chain P)
    (hstep : ∀ lo hi t t', P lo hi t → step t = .write t' → P lo hi t')
    (hs' : s.walk p step step = .write s') : s'.Chain P :=
  ChainFrom.walk h hstep hstep hs'

end

/-! ## The place of a test -/

/-- Items with the separators that follow them, in front of a row. -/
def consAll (pre : List (T × K)) (s : Sep K T) : Sep K T :=
  pre.foldr (fun x s => cons x.1 x.2 s) s

/-- **Where a test routes to**: the row in front of the place, the picked item, and the row behind
it. A replacement changes nothing but the item. -/
theorem exists_place (s : Sep K T) (p : K → Bool) :
    ∃ pre post, s = consAll pre ⟨s.pick p, post⟩ ∧ (∀ x ∈ pre, p x.2 = true) ∧
      (∀ x ∈ post.head?, p x.1 = false) ∧
      ∀ t' new, s.replace p t' new = consAll pre ⟨t', new.toList ++ post⟩ := by
  obtain ⟨t, rest⟩ := s
  induction rest generalizing t with
  | nil => exact ⟨[], [], rfl, by simp, by simp,
      fun t' new => by simp [consAll, replace, replaceFrom]⟩
  | cons x rest ih =>
    obtain ⟨k, c⟩ := x
    cases hk : p k with
    | true =>
      obtain ⟨pre, post, heq, hpre, hpost, hrep⟩ := ih c
      have hpick : (⟨t, (k, c) :: rest⟩ : Sep K T).pick p = (⟨c, rest⟩ : Sep K T).pick p := by
        simp [pick, pickFrom, hk]
      refine ⟨(t, k) :: pre, post, ?_, ?_, hpost, fun t' new => ?_⟩
      · rw [hpick]
        exact congrArg (cons t k) heq
      · rintro x (_ | ⟨_, hx⟩)
        · exact hk
        · exact hpre x hx
      · have hcons : (⟨t, (k, c) :: rest⟩ : Sep K T).replace p t' new =
            cons t k ((⟨c, rest⟩ : Sep K T).replace p t' new) := by
          simp [replace, replaceFrom, hk]
        rw [hcons, hrep]
        rfl
    | false =>
      exact ⟨[], (k, c) :: rest, by simp [consAll, pick, pickFrom, hk], by simp, by simpa using hk,
        fun t' new => by simp [consAll, replace, replaceFrom, hk]⟩

lemma pick_consAll {s s' : Sep K T} (hs : s = consAll pre s') (h : ∀ x ∈ pre, q x.2 = true) :
    s.pick q = s'.pick q := by
  subst hs
  induction pre with
  | nil => rfl
  | cons x pre ih =>
    have hx : q x.2 = true := h x (.head _)
    have hrest := ih fun y hy => h y (.tail _ hy)
    rw [← hrest]
    simp [consAll, cons, pick, pickFrom, hx]

lemma Chain.of_consAll {s' : Sep K T} {P : WithBot K → WithTop K → T → Prop}
    (hs : s' = consAll pre s) (h : s'.Chain P) :
    ∃ lo, ChainFrom P lo s.first s.rest ∧ (pre = [] ∨ ∃ x ∈ pre, lo = (x.2 : WithBot K)) := by
  subst hs
  have hfrom : ∀ (pre : List (T × K)) (lo0 : WithBot K),
      ChainFrom P lo0 (consAll pre s).first (consAll pre s).rest →
      ∃ lo, ChainFrom P lo s.first s.rest ∧
        (pre = [] ∧ lo = lo0 ∨ ∃ x ∈ pre, lo = (x.2 : WithBot K)) := by
    intro pre
    induction pre with
    | nil => exact fun lo0 h => ⟨lo0, h, .inl ⟨rfl, rfl⟩⟩
    | cons x pre ih =>
      intro lo0 h
      obtain ⟨lo, hlo, ⟨-, rfl⟩ | ⟨y, hy, rfl⟩⟩ := ih x.2 h.2
      · exact ⟨_, hlo, .inr ⟨x, .head _, rfl⟩⟩
      · exact ⟨_, hlo, .inr ⟨y, .tail _ hy, rfl⟩⟩
  obtain ⟨lo, hlo, hpre⟩ := hfrom pre ⊥ h
  exact ⟨lo, hlo, hpre.imp And.left id⟩

lemma pick_cons_of_pass {c : T} {k : K} (h : q k = true) :
    (⟨t, (k, c) :: rest⟩ : Sep K T).pick q = (⟨c, rest⟩ : Sep K T).pick q := by
  simp [pick, pickFrom, h]

lemma pick_of_stop (h : ∀ x ∈ rest.head?, q x.1 = false) : (⟨t, rest⟩ : Sep K T).pick q = t := by
  cases rest with
  | nil => rfl
  | cons x rest => simp [pick, pickFrom, h x rfl]

/-- Another test sees a replacement only if it routes to the same item. -/
lemma pick_replace (s : Sep K T) (p q : K → Bool) (t' : T) :
    (s.replace p t' none).pick q = s.pick q ∨
      (s.replace p t' none).pick q = t' ∧ s.pick q = s.pick p := by
  obtain ⟨t, rest⟩ := s
  induction rest generalizing t with
  | nil => exact .inr ⟨rfl, rfl⟩
  | cons x rest ih =>
    have hrest := ih x.2
    simp only [replace, pick, replaceFrom] at hrest ⊢
    cases hp : p x.1 <;> cases hq : q x.1 <;> simp_all [cons, pickFrom]

/-! ## Sorted entries -/

section
variable [LinearOrder K] {E : Type}

/-- A list sorted by key between two bounds. -/
structure Within (key : E → K) (lo : WithBot K) (hi : WithTop K) (l : List E) : Prop where
  bounds : ∀ k : K, hi = k → lo ≤ k
  sorted : l.Pairwise fun a b => key a ≤ key b
  ge : ∀ e ∈ l, lo ≤ key e
  le : ∀ e ∈ l, (key e : WithTop K) ≤ hi

abbrev Ordered (key : E → K) (s : Sep K (List E)) : Prop := s.Chain (Within key)

variable {key : E → K} {s : Sep K (List E)} {p : K → Bool}

lemma OrderedFrom.seps {t : List E} {rest : List (K × List E)}
    (h : ChainFrom (Within key) lo t rest) :
    (∀ k ∈ rest.map Prod.fst, lo ≤ k) ∧ (rest.map Prod.fst).Pairwise (· ≤ ·) := by
  induction rest generalizing lo t with
  | nil => simp
  | cons x rest ih =>
    obtain ⟨hge, hsorted⟩ := ih h.2
    have hx : lo ≤ x.1 := h.1.bounds x.1 rfl
    exact ⟨forall_mem_cons.2 ⟨hx, fun k hk => hx.trans (hge k hk)⟩,
      pairwise_cons.2 ⟨fun k hk => WithBot.coe_le_coe.1 (hge k hk), hsorted⟩⟩

lemma Ordered.sorted_seps (h : s.Ordered key) : s.seps.Pairwise (· ≤ ·) :=
  (OrderedFrom.seps h).2

lemma OrderedFrom.entries {t : List E} {rest : List (K × List E)}
    (h : ChainFrom (Within key) lo t rest) : (∀ e ∈ (t :: rest.map Prod.snd).flatten, lo ≤ key e) ∧
      (t :: rest.map Prod.snd).flatten.Pairwise fun a b => key a ≤ key b := by
  induction rest generalizing lo t with
  | nil => simpa using ⟨h.ge, h.sorted⟩
  | cons x rest ih =>
    obtain ⟨hge, hsorted⟩ := ih h.2
    have hx : lo ≤ x.1 := h.1.bounds x.1 rfl
    refine ⟨forall_mem_append.2 ⟨h.1.ge, fun e he => hx.trans (hge e he)⟩,
      pairwise_append.2 ⟨h.1.sorted, hsorted, fun a ha b hb => ?_⟩⟩
    have ha' := WithTop.coe_le_coe.1 (h.1.le a ha)
    exact ha'.trans (WithBot.coe_le_coe.1 (hge b hb))

lemma Ordered.sorted_entries (h : s.Ordered key) :
    s.items.flatten.Pairwise fun a b => key a ≤ key b :=
  (OrderedFrom.entries h).2

lemma OrderedFrom.before {t : List E} {rest : List (K × List E)}
    (h : ChainFrom (Within key) lo t rest) :
    ∀ e ∈ (beforeFrom p t rest).flatten, ∃ k, p k = true ∧ key e ≤ k := by
  induction rest generalizing lo t with
  | nil => simp [beforeFrom]
  | cons x rest ih =>
    unfold beforeFrom
    split
    · next hx =>
      exact forall_mem_append.2
        ⟨fun e he => ⟨x.1, hx, WithTop.coe_le_coe.1 (h.1.le e he)⟩, ih h.2⟩
    · simp

/-- The entries to the left have keys up to a separator that is passed. -/
lemma Ordered.before (h : s.Ordered key) :
    ∀ e ∈ (s.before p).flatten, ∃ k, p k = true ∧ key e ≤ k :=
  OrderedFrom.before h

end

end Sep

end UniDb
