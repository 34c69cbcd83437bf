import Mathlib

/-!
# Search trees with separators

`Sep K T` is a row of items with a key between any two neighbours. A tree of height `n` over items
`L` is a row of trees of height `n - 1`, all the way down to single items (`SepTree`); `flat` is the
row of its items with all separators between them. Routing by a test `p` on separators passes the
leading separators that satisfy it. If the separators increase and `p` is closed downwards, what
routing does through the levels of a tree is what it does in the flat row:

* `SepTree.pick_eq_flat`: it ends at the same item;
* `SepTree.flat_update`: changing that item, with a new neighbour to its right or without, changes
  it in the flat row, whatever rows are cut on the way up;
* `SepTree.flat_walk`: walking on from that item to the right is walking in the flat row.
-/

namespace UniDb

open List

/-- What a walk does at an item: end, go on to the next one, or write the item and end. -/
inductive Walk (T : Type) where
  | stop
  | next
  | write (t : T)

namespace Walk

variable {T U V : Type}

def map (f : T → U) : Walk T → Walk U
  | .stop => .stop
  | .next => .next
  | .write t => .write (f t)

/-- Go on with `w` where `r` goes on; `f` puts what `r` writes in place, `g` what `w` writes. -/
def orElse (r : Walk T) (f : T → V) (w : Walk U) (g : U → V) : Walk V :=
  match r with
  | .stop => .stop
  | .next => w.map g
  | .write t => .write (f t)

lemma map_eq_write {f : T → U} {w : Walk T} {u : U} :
    w.map f = .write u ↔ ∃ t, w = .write t ∧ f t = u := by
  cases w <;> simp [map]

lemma orElse_eq_write {r : Walk T} {f : T → V} {w : Walk U} {g : U → V} {v : V} :
    r.orElse f w g = .write v ↔
      (∃ t, r = .write t ∧ f t = v) ∨ r = .next ∧ ∃ u, w = .write u ∧ g u = v := by
  cases r <;> simp [orElse, map_eq_write]

lemma map_map (f : T → U) (g : U → V) (w : Walk T) : (w.map f).map g = w.map fun t => g (f t) := by
  cases w <;> rfl

end Walk

/-- Items with separators between them. -/
structure Sep (K T : Type) where
  first : T
  rest : List (K × T)
deriving DecidableEq

namespace Sep

variable {K T U : Type}

section
variable (s : Sep K T) (p : K → Bool)

def items : List T := s.first :: s.rest.map Prod.snd

def seps : List K := s.rest.map Prod.fst

def cons (t : T) (k : K) (s : Sep K T) : Sep K T := ⟨t, (k, s.first) :: s.rest⟩

/-- The item after the leading separators that satisfy `p`, starting at `t`. -/
def pickFrom (p : K → Bool) : T → List (K × T) → T
  | t, [] => t
  | t, (k, c) :: rest => if p k then pickFrom p c rest else t

def pick : T := pickFrom p s.first s.rest

/-- The same with the picked item replaced, and perhaps a separator and an item after it. -/
def replaceFrom (p : K → Bool) (t' : T) (new : Option (K × T)) : T → List (K × T) → Sep K T
  | _, [] => ⟨t', new.toList⟩
  | t, (k, c) :: rest =>
    if p k then (replaceFrom p t' new c rest).cons t k
    else ⟨t', new.toList ++ (k, c) :: rest⟩

def replace (t' : T) (new : Option (K × T)) : Sep K T :=
  replaceFrom p t' new s.first s.rest

def beforeFrom (p : K → Bool) : T → List (K × T) → List T
  | _, [] => []
  | t, (k, c) :: rest => if p k then t :: beforeFrom p c rest else []

def before : List T := beforeFrom p s.first s.rest

def afterFrom (p : K → Bool) : List (K × T) → List T
  | [] => []
  | (k, c) :: rest => if p k then afterFrom p rest else c :: rest.map Prod.snd

def after : List T := afterFrom p s.rest

/-- Walk from the picked item to the right: `here` at that item, `step` at the others. -/
def walkFrom (p : K → Bool) (here step : T → Walk T) : T → List (K × T) → Walk (Sep K T)
  | t, [] => (here t).map (⟨·, []⟩)
  | t, (k, c) :: rest =>
    if p k then (walkFrom p here step c rest).map (cons t k)
    else (here t).orElse (⟨·, (k, c) :: rest⟩) (walkFrom (fun _ => false) step step c rest)
      (cons t k)

def walk (here step : T → Walk T) : Walk (Sep K T) :=
  walkFrom p here step s.first s.rest

def map (f : T → U) (s : Sep K T) : Sep K U := ⟨f s.first, s.rest.map fun x => (x.1, f x.2)⟩

def append (k : K) (s' : Sep K T) : Sep K T :=
  ⟨s.first, s.rest ++ (k, s'.first) :: s'.rest⟩

/-- A row of rows as one row. -/
def join (s : Sep K (Sep K T)) : Sep K T :=
  ⟨s.first.first, s.first.rest ++ s.rest.flatMap fun x => (x.1, x.2.first) :: x.2.rest⟩

end

/-! ## One more item in front -/

@[induction_eliminator]
theorem induct {motive : Sep K T → Prop} (single : ∀ t, motive ⟨t, []⟩)
    (cons : ∀ t k s, motive s → motive (Sep.cons t k s)) (s : Sep K T) : motive s := by
  obtain ⟨t, rest⟩ := s
  induction rest generalizing t with
  | nil => exact single t
  | cons x rest ih => exact cons t x.1 ⟨x.2, rest⟩ (ih x.2)

section
variable (t : T) (k k' : K) (s s' : Sep K T) (p : K → Bool) (t' : T) (new : Option (K × T))
  (here step : T → Walk T)

@[simp] lemma items_cons : (cons t k s).items = t :: s.items := rfl

@[simp] lemma seps_cons : (cons t k s).seps = k :: s.seps := rfl

@[simp] lemma append_single : append ⟨t, []⟩ k s = cons t k s := rfl

@[simp] lemma append_cons : (cons t k s).append k' s' = cons t k (s.append k' s') := rfl

lemma pick_cons : (cons t k s).pick p = if p k then s.pick p else t := rfl

lemma before_cons : (cons t k s).before p = if p k then t :: s.before p else [] := rfl

lemma after_cons : (cons t k s).after p = if p k then s.after p else s.items := rfl

lemma replace_cons : (cons t k s).replace p t' new =
    if p k then cons t k (s.replace p t' new) else append ⟨t', new.toList⟩ k s := rfl

lemma walk_cons : (cons t k s).walk p here step = if p k then (s.walk p here step).map (cons t k)
    else (here t).orElse (cons · k s) (s.walk (fun _ => false) step step) (cons t k) := rfl

lemma seps_append : (s.append k s').seps = s.seps ++ k :: s'.seps := by
  simp [append, seps]

lemma items_append : (s.append k s').items = s.items ++ s'.items := by
  simp [append, items]

end

lemma join_cons (t : Sep K T) (k : K) (s : Sep K (Sep K T)) :
    join (cons t k s) = t.append k (join s) := by
  simp [join, append, cons]

@[simp] lemma join_single (t : Sep K T) : join ⟨t, []⟩ = t := by
  simp [join]

lemma join_append (t : Sep K T) (k : K) (c : Sep K T) (l rest : List (K × Sep K T)) :
    join ⟨t, l ++ (k, c) :: rest⟩ = (join ⟨t, l⟩).append k (join ⟨c, rest⟩) := by
  simp [join, append]

lemma items_join (s : Sep K (Sep K T)) : s.join.items = s.items.flatMap items := by
  induction s with
  | single t => simp [items]
  | cons t k s ih => rw [join_cons, items_append, ih, items_cons, flatMap_cons]

/-! ## Routing in an appended row -/

variable {here step : T → Walk T}

section
variable {p : K → Bool} {k : K} {s s' : Sep K T} {t' : T} {new : Option (K × T)}

lemma pick_append_of_pass (hs : ∀ x ∈ s.seps, p x = true) (hk : p k = true) :
    (s.append k s').pick p = s'.pick p := by
  induction s with
  | single t => simp [pick_cons, hk]
  | cons t k0 s ih =>
    rw [seps_cons, forall_mem_cons] at hs
    rw [append_cons, pick_cons, if_pos hs.1, ih hs.2]

lemma pick_append_of_stop (hk : p k = false) : (s.append k s').pick p = s.pick p := by
  induction s with
  | single t =>
    rw [append_single, pick_cons, if_neg (by simp [hk])]
    rfl
  | cons t k0 s ih => rw [append_cons, pick_cons, ih, pick_cons]

lemma after_append_of_pass (hs : ∀ x ∈ s.seps, p x = true) (hk : p k = true) :
    (s.append k s').after p = s'.after p := by
  induction s with
  | single t => simp [after_cons, hk]
  | cons t k0 s ih =>
    rw [seps_cons, forall_mem_cons] at hs
    rw [append_cons, after_cons, if_pos hs.1, ih hs.2]

lemma after_append_of_stop (hk : p k = false) :
    (s.append k s').after p = s.after p ++ s'.items := by
  induction s with
  | single t =>
    rw [append_single, after_cons, if_neg (by simp [hk])]
    rfl
  | cons t k0 s ih =>
    rw [append_cons, after_cons, ih, after_cons]
    split
    · rfl
    · exact items_append ..

lemma replace_append_of_pass (hs : ∀ x ∈ s.seps, p x = true) (hk : p k = true) :
    (s.append k s').replace p t' new = s.append k (s'.replace p t' new) := by
  induction s with
  | single t => simp [replace_cons, hk]
  | cons t k0 s ih =>
    rw [seps_cons, forall_mem_cons] at hs
    rw [append_cons, replace_cons, if_pos hs.1, ih hs.2, append_cons]

lemma replace_append_of_stop (hk : p k = false) :
    (s.append k s').replace p t' new = (s.replace p t' new).append k s' := by
  induction s with
  | single t =>
    rw [append_single, replace_cons, if_neg (by simp [hk])]
    rfl
  | cons t k0 s ih =>
    rw [append_cons, replace_cons, ih, replace_cons]
    split
    · rfl
    · simp [append]

lemma walk_append_of_pass (hs : ∀ x ∈ s.seps, p x = true) (hk : p k = true) :
    (s.append k s').walk p here step = (s'.walk p here step).map (s.append k) := by
  induction s with
  | single t =>
    rw [append_single, walk_cons, if_pos hk]
    rfl
  | cons t k0 s ih =>
    rw [seps_cons, forall_mem_cons] at hs
    rw [append_cons, walk_cons, if_pos hs.1, ih hs.2, Walk.map_map]
    rfl

lemma walk_append_of_stop (hk : p k = false) : (s.append k s').walk p here step =
      (s.walk p here step).orElse (·.append k s') (s'.walk (fun _ => false) step step)
        (s.append k) := by
  induction s generalizing p here with
  | single t =>
    simp only [append, walk, walkFrom, nil_append, hk]
    cases here t <;> rfl
  | cons t k0 s ih =>
    rw [append_cons, walk_cons, walk_cons, ih hk, @ih step (fun _ => false) rfl]
    split
    · cases s.walk p here step with
      | next =>
        simp only [Walk.orElse, Walk.map_map]
        rfl
      | _ => rfl
    · cases here t with
      | next =>
        cases s.walk (fun _ => false) step step with
        | next =>
          simp only [Walk.orElse, Walk.map_map]
          rfl
        | _ => rfl
      | _ => rfl

end

section
variable (f : T → U) (s : Sep K T) (p : K → Bool)

lemma map_row_cons (t : T) (k : K) : (cons t k s).map f = cons (f t) k (s.map f) := rfl

lemma items_map : (s.map f).items = s.items.map f := by
  simp [items, map]

lemma pick_map : (s.map f).pick p = f (s.pick p) := by
  induction s with
  | single t => rfl
  | cons t k s ih => rw [map_row_cons, pick_cons, ih, pick_cons, apply_ite f]

lemma after_map : (s.map f).after p = (s.after p).map f := by
  induction s with
  | single t => rfl
  | cons t k s ih => rw [map_row_cons, after_cons, ih, items_map, after_cons,
      apply_ite (List.map f)]

lemma map_replace (t' : T) (new : Option (K × T)) :
    (s.replace p t' new).map f = (s.map f).replace p (f t') (new.map fun x => (x.1, f x.2)) := by
  induction s with
  | single t => cases new <;> rfl
  | cons t k s ih =>
    rw [map_row_cons, replace_cons, replace_cons, ← ih]
    split
    · rfl
    · cases new <;> simp [map, append]

/-! ## The items around the picked one -/

lemma items_eq : s.items = s.before p ++ s.pick p :: s.after p := by
  induction s with
  | single t => rfl
  | cons t k s ih =>
    rw [before_cons, pick_cons, after_cons]
    split
    · rw [cons_append, ← ih, items_cons]
    · rfl

lemma items_replace (t' : T) (new : Option (K × T)) : (s.replace p t' new).items =
      s.before p ++ t' :: (new.toList.map Prod.snd ++ s.after p) := by
  induction s with
  | single t => simp [items, replace, before, after, replaceFrom, beforeFrom, afterFrom]
  | cons t k s ih =>
    rw [before_cons, replace_cons, after_cons]
    split
    · rw [items_cons, ih, cons_append]
    · rw [items_append]
      rfl

lemma replace_pick : s.replace p (s.pick p) none = s := by
  induction s with
  | single t => rfl
  | cons t k s ih =>
    rw [pick_cons, replace_cons]
    split
    · rw [ih]
    · rfl

lemma seps_replace_none (t' : T) : (s.replace p t' none).seps = s.seps := by
  induction s with
  | single t => rfl
  | cons t k s ih =>
    rw [replace_cons]
    split
    · rw [seps_cons, ih, seps_cons]
    · rfl

lemma seps_replace_some (t' : T) (k : K) (c : T) :
    (s.replace p t' (some (k, c))).seps.Perm (k :: s.seps) := by
  induction s with
  | single t => exact .refl _
  | cons t k0 s ih =>
    rw [replace_cons]
    split
    · exact (ih.cons k0).trans (.swap ..)
    · exact .refl _

end

@[simp] lemma pick_false (s : Sep K T) : s.pick (fun _ => false) = s.first := by
  induction s <;> rfl

@[simp] lemma before_false (s : Sep K T) : s.before (fun _ => false) = [] := by
  induction s <;> rfl

lemma items_eq_first (s : Sep K T) : s.first :: s.after (fun _ => false) = s.items := by
  induction s <;> rfl

lemma pick_mem (s : Sep K T) (p : K → Bool) : s.pick p ∈ s.items := by
  rw [items_eq s p]
  simp

/-- A map that commutes with the step at each item commutes with a walk. -/
lemma map_walk {f : T → U} {here' step' : U → Walk U} {p : K → Bool} {s : Sep K T}
    (hhere : ∀ t ∈ s.items, (here t).map f = here' (f t))
    (hstep : ∀ t ∈ s.items, (step t).map f = step' (f t)) :
    (s.walk p here step).map (map f) = (s.map f).walk p here' step' := by
  induction s generalizing p here here' with
  | single t =>
    have ht := hhere t (.head _)
    simp only [map, walk, walkFrom, map_nil, ← ht, Walk.map_map]
  | cons t k s ih =>
    rw [items_cons, forall_mem_cons] at hhere hstep
    rw [map_row_cons, walk_cons, walk_cons, ← ih hhere.2 hstep.2, ← ih hstep.2 hstep.2, ← hhere.1]
    split
    · rw [Walk.map_map, Walk.map_map]
      rfl
    · cases here t with
      | next =>
        simp only [Walk.orElse, Walk.map_map]
        rfl
      | _ => rfl

/-- A walk that writes keeps the separators; its items are old ones or written ones. -/
lemma walk_write {p : K → Bool} {s s' : Sep K T} (h : s.walk p here step = .write s') :
    s'.seps = s.seps ∧ ∀ c ∈ s'.items, c ∈ s.items ∨
      ∃ c0 ∈ s.items, here c0 = .write c ∨ step c0 = .write c := by
  induction s generalizing p here s' with
  | single t =>
    obtain ⟨t', ht, rfl⟩ := Walk.map_eq_write.1 h
    refine ⟨rfl, fun c hc => .inr ⟨t, .head _, .inl ?_⟩⟩
    rw [mem_singleton.1 hc, ht]
  | cons t k s ih =>
    rw [walk_cons] at h
    -- The item in front stays where the rest of the row is written.
    have hrest : ∀ {here : T → Walk T} {p : K → Bool} {s1}, s.walk p here step = .write s1 →
        (cons t k s1).seps = (cons t k s).seps ∧ ∀ c ∈ (cons t k s1).items, c ∈ (cons t k s).items ∨
          ∃ c0 ∈ (cons t k s).items, here c0 = .write c ∨ step c0 = .write c := fun hw => by
      obtain ⟨hseps, hitems⟩ := ih hw
      refine ⟨congrArg (k :: ·) hseps, fun c hc => ?_⟩
      rcases mem_cons.1 hc with rfl | hc
      · exact .inl (.head _)
      · rcases hitems c hc with hold | ⟨c0, hc0, hcw⟩
        · exact .inl (.tail _ hold)
        · exact .inr ⟨c0, .tail _ hc0, hcw⟩
    split at h
    · obtain ⟨s1, hw, rfl⟩ := Walk.map_eq_write.1 h
      exact hrest hw
    · rcases Walk.orElse_eq_write.1 h with ⟨t', ht, rfl⟩ | ⟨-, s1, hw, rfl⟩
      · exact ⟨rfl, forall_mem_cons.2 ⟨.inr ⟨t, .head _, .inl ht⟩, fun c hc => .inl (.tail _ hc)⟩⟩
      · obtain ⟨hseps, hitems⟩ := hrest hw
        exact ⟨hseps, fun c hc => (hitems c hc).imp_right fun ⟨c0, hc0, hcw⟩ =>
          ⟨c0, hc0, .inr (hcw.elim id id)⟩⟩

/-- Walk through a list of items. -/
def walkList (step : T → Walk T) : List T → Walk (List T)
  | [] => .next
  | t :: ts => (step t).orElse (· :: ts) (walkList step ts) (t :: ·)

lemma walkList_write {ts ts' : List T} (h : walkList step ts = .write ts') :
    ∃ pre t t' post, ts = pre ++ t :: post ∧ step t = .write t' ∧ ts' = pre ++ t' :: post := by
  induction ts generalizing ts' with
  | nil => cases h
  | cons t ts ih =>
    rcases Walk.orElse_eq_write.1 h with ⟨t', ht, rfl⟩ | ⟨-, ts1, hw, rfl⟩
    · exact ⟨[], t, t', ts, rfl, ht, rfl⟩
    · obtain ⟨pre, c, c', post, rfl, hc, rfl⟩ := ih hw
      exact ⟨t :: pre, c, c', post, rfl, hc, rfl⟩

/-- A walk in a row is a walk through the items from the picked one on. -/
lemma items_walk (p : K → Bool) (step : T → Walk T) (s : Sep K T) :
    (s.walk p step step).map items =
      (walkList step (s.pick p :: s.after p)).map (s.before p ++ ·) := by
  induction s generalizing p with
  | single t =>
    cases h : step t <;> simp [walk, walkFrom, walkList, pick, pickFrom, after, afterFrom, before,
      beforeFrom, Walk.map, Walk.orElse, items, h]
  | cons t k s ih =>
    have hstop := ih fun _ => false
    rw [pick_false, items_eq_first, before_false] at hstop
    rw [walk_cons, pick_cons, after_cons, before_cons]
    split
    · simp only [Walk.map_map, items_cons, cons_append]
      rw [← Walk.map_map items, ih p, Walk.map_map]
    · cases h : step t with
      | stop => simp [walkList, Walk.orElse, Walk.map, h]
      | write t' => simp [walkList, Walk.orElse, Walk.map, h]
      | next =>
        rw [walkList, h]
        simp only [Walk.orElse, Walk.map_map, items_cons, nil_append] at hstop ⊢
        rw [← Walk.map_map items, hstop, Walk.map_map]

/-! ## A row of rows -/

section
variable [LinearOrder K] {p : K → Bool} {s : Sep K (Sep K T)}

lemma sorted_cons {t : Sep K T} {k : K} (h : (cons t k s).join.seps.Pairwise (· ≤ ·)) :
    t.seps.Pairwise (· ≤ ·) ∧ (∀ a ∈ t.seps, a ≤ k) ∧ s.join.seps.Pairwise (· ≤ ·) := by
  rw [join_cons, seps_append, pairwise_append, pairwise_cons] at h
  exact ⟨h.1, fun a ha => h.2.2 a ha k (.head _), h.2.1.2⟩

lemma sorted_of_mem_items (hsorted : s.join.seps.Pairwise (· ≤ ·)) :
    ∀ c ∈ s.items, c.seps.Pairwise (· ≤ ·) := by
  induction s with
  | single t => simpa [items] using hsorted
  | cons t k s ih =>
    obtain ⟨ht, -, hs⟩ := sorted_cons hsorted
    rw [items_cons, forall_mem_cons]
    exact ⟨ht, ih hs⟩

section
variable (hp : ∀ a b, a ≤ b → p b = true → p a = true) (hsorted : s.join.seps.Pairwise (· ≤ ·))

include hp hsorted

lemma pick_join : s.join.pick p = (s.pick p).pick p := by
  induction s with
  | single t => rw [join_single]; rfl
  | cons t k s ih =>
    obtain ⟨-, hle, hs⟩ := sorted_cons hsorted
    rw [join_cons, pick_cons]
    split
    · next hk => rw [pick_append_of_pass (fun a ha => hp a k (hle a ha) hk) hk, ih hs]
    · next hk => rw [pick_append_of_stop (by simpa using hk)]

lemma after_join : s.join.after p = (s.pick p).after p ++ (s.after p).flatMap items := by
  induction s with
  | single t => simp [pick, pickFrom, after, afterFrom]
  | cons t k s ih =>
    obtain ⟨-, hle, hs⟩ := sorted_cons hsorted
    rw [join_cons, pick_cons, after_cons]
    split
    · next hk => rw [after_append_of_pass (fun a ha => hp a k (hle a ha) hk) hk, ih hs]
    · next hk => rw [after_append_of_stop (by simpa using hk), items_join]

lemma join_replace {c' : Sep K T} {new : Option (K × Sep K T)} {t' : T} {tnew : Option (K × T)}
    (h : join ⟨c', new.toList⟩ = (s.pick p).replace p t' tnew) :
    (s.replace p c' new).join = s.join.replace p t' tnew := by
  induction s with
  | single t =>
    rw [join_single]
    exact h
  | cons t k s ih =>
    obtain ⟨-, hle, hs⟩ := sorted_cons hsorted
    rw [pick_cons] at h
    rw [join_cons, replace_cons]
    split at h
    · next hk =>
      rw [if_pos hk, join_cons, ih hs h,
        replace_append_of_pass (fun a ha => hp a k (hle a ha) hk) hk]
    · next hk =>
      rw [if_neg hk, replace_append_of_stop (by simpa using hk), ← h]
      exact join_append ..

lemma map_join_walk :
    (s.walk p (·.walk p here step) (·.walk (fun _ => false) step step)).map join =
      s.join.walk p here step := by
  induction s generalizing p here with
  | single t =>
    simp only [walk, walkFrom, Walk.map_map, join_single]
    cases walkFrom p here step t.first t.rest <;> rfl
  | cons t k s ih =>
    obtain ⟨-, hle, hs⟩ := sorted_cons hsorted
    rw [join_cons, walk_cons]
    split
    · next hk =>
      rw [walk_append_of_pass (fun a ha => hp a k (hle a ha) hk) hk, ← ih hp hs]
      simp only [Walk.map_map, join_cons]
    · next hk =>
      rw [walk_append_of_stop (by simpa using hk), ← @ih step (fun _ => false) (by simp) hs]
      cases t.walk p here step with
      | stop => rfl
      | next => simp [Walk.orElse, Walk.map_map, join_cons]
      | write t' => simp [Walk.orElse, Walk.map, join_cons]

end

end

end Sep

/-! ## Trees -/

/-- Trees of a given height: a row of trees of the height below. -/
def SepTree (K L : Type) : Nat → Type
  | 0 => L
  | n + 1 => Sep K (SepTree K L n)

namespace SepTree

variable {K L ε : Type}

def leaf (t : SepTree K L 0) : L := t

def ofLeaf (l : L) : SepTree K L 0 := l

def row {n : Nat} (t : SepTree K L (n + 1)) : Sep K (SepTree K L n) := t

def node {n : Nat} (s : Sep K (SepTree K L n)) : SepTree K L (n + 1) := s

variable {n : Nat}

@[simp] lemma row_node (s : Sep K (SepTree K L n)) : (node s).row = s := rfl

/-- The row of the items, with every separator of every level. -/
def flat : {n : Nat} → SepTree K L n → Sep K L
  | 0, t => ⟨t.leaf, []⟩
  | _ + 1, t => (t.row.map flat).join

/-- The item that routing through the levels ends at. -/
def pick (p : K → Bool) : {n : Nat} → SepTree K L n → L
  | 0, t => t.leaf
  | _ + 1, t => pick p (t.row.pick p)

/-- A tree, or two with a separator between them. -/
abbrev Grown (K L : Type) (n : Nat) : Type := SepTree K L n × Option (K × SepTree K L n)

def flatGrown {n : Nat} (r : Grown K L n) : Sep K L :=
  (Sep.map flat ⟨r.1, r.2.toList⟩).join

/-- Change the item that routing ends at. `grow` says what becomes of a row that got an item. -/
def update (p : K → Bool)
    (grow : {n : Nat} → Sep K (SepTree K L n) → Except ε (Grown K L (n + 1)))
    (op : L → Except ε (L × Option (K × L))) :
    {n : Nat} → SepTree K L n → Except ε (Grown K L n)
  | 0, t => do
    let r ← op t.leaf
    pure (ofLeaf r.1, r.2.map fun x => (x.1, ofLeaf x.2))
  | _ + 1, t => do
    let r ← update p grow op (t.row.pick p)
    if r.2.isSome then grow (t.row.replace p r.1 r.2)
    else pure (node (t.row.replace p r.1 none), none)

def itemsFrom (p : K → Bool) : {n : Nat} → SepTree K L n → List L
  | 0, t => [t.leaf]
  | _ + 1, t => itemsFrom p (t.row.pick p) ++ (t.row.after p).flatMap fun c => c.flat.items

def set (p : K → Bool) (l' : L) : {n : Nat} → SepTree K L n → SepTree K L n
  | 0, _ => ofLeaf l'
  | _ + 1, t => node (t.row.replace p (set p l' (t.row.pick p)) none)

def walk (step : L → Walk L) : {n : Nat} → (K → Bool) → SepTree K L n → Walk (SepTree K L n)
  | 0, _, t => (step t.leaf).map ofLeaf
  | _ + 1, p, t =>
    (t.row.walk p (fun c => walk step p c) (fun c => walk step (fun _ => false) c)).map node

@[simp] lemma flat_node (s : Sep K (SepTree K L n)) : flat (node s) = (s.map flat).join := rfl

lemma flat_row (t : SepTree K L (n + 1)) : flat t = (t.row.map flat).join := rfl

@[simp] lemma flatGrown_none (t : SepTree K L n) : flatGrown (t, none) = flat t := by
  simp [flatGrown, Sep.map]

@[simp] lemma flatGrown_some (t t' : SepTree K L n) (k : K) :
    flatGrown (t, some (k, t')) = (flat t).append k (flat t') := by
  simp [flatGrown, Sep.map, Sep.join, Sep.append]

lemma flat_cut (t c : SepTree K L n) (k : K) (l rest : List (K × SepTree K L n)) :
    flat (node ⟨t, l ++ (k, c) :: rest⟩) =
      (flat (node ⟨t, l⟩)).append k (flat (node ⟨c, rest⟩)) := by
  simp [Sep.map, Sep.join_append]

section
variable [LinearOrder K] {p : K → Bool}

variable {t : SepTree K L (n + 1)}

lemma sorted_of_mem_row (hsorted : t.flat.seps.Pairwise (· ≤ ·)) (c : SepTree K L n)
    (hc : c ∈ t.row.items) : c.flat.seps.Pairwise (· ≤ ·) := by
  refine Sep.sorted_of_mem_items hsorted _ ?_
  rw [Sep.items_map]
  exact mem_map_of_mem hc

lemma sorted_pick (hsorted : t.flat.seps.Pairwise (· ≤ ·)) :
    (t.row.pick p).flat.seps.Pairwise (· ≤ ·) :=
  sorted_of_mem_row hsorted _ (Sep.pick_mem _ _)

theorem pick_eq_flat (hp : ∀ a b, a ≤ b → p b = true → p a = true) :
    ∀ {n : Nat} (t : SepTree K L n), t.flat.seps.Pairwise (· ≤ ·) → pick p t = t.flat.pick p
  | 0, _, _ => rfl
  | _ + 1, t, hsorted => by
    rw [flat_row, Sep.pick_join hp hsorted, Sep.pick_map, pick]
    exact pick_eq_flat hp _ (sorted_pick hsorted)

lemma itemsFrom_eq_flat (hp : ∀ a b, a ≤ b → p b = true → p a = true) :
    ∀ {n : Nat} (t : SepTree K L n), t.flat.seps.Pairwise (· ≤ ·) →
      itemsFrom p t = t.flat.pick p :: t.flat.after p
  | 0, _, _ => rfl
  | _ + 1, t, hsorted => by
    rw [itemsFrom, itemsFrom_eq_flat hp _ (sorted_pick hsorted), flat_row,
      Sep.pick_join hp hsorted, Sep.after_join hp hsorted, Sep.pick_map, Sep.after_map,
      flatMap_map, cons_append]

variable {grow : {n : Nat} → Sep K (SepTree K L n) → Except ε (Grown K L (n + 1))}
  {op : L → Except ε (L × Option (K × L))}

theorem flat_update (hp : ∀ a b, a ≤ b → p b = true → p a = true)
    (hgrow : ∀ {n : Nat} (s : Sep K (SepTree K L n)) (r : Grown K L (n + 1)),
      grow s = .ok r → flatGrown r = flat (node s)) :
    ∀ {n : Nat} (t : SepTree K L n) (r : Grown K L n), t.flat.seps.Pairwise (· ≤ ·) →
      update p grow op t = .ok r →
      ∃ l', op (pick p t) = .ok l' ∧ flatGrown r = t.flat.replace p l'.1 l'.2
  | 0, t, r, _, h => by
    cases hop : op t.leaf with
    | error e => simp [update, hop, bind, Except.bind] at h
    | ok l' =>
      simp only [update, hop, bind, Except.bind, pure, Except.pure, Except.ok.injEq] at h
      subst h
      refine ⟨l', hop, ?_⟩
      obtain ⟨l', _ | ⟨k, l''⟩⟩ := l' <;> rfl
  | n + 1, t, r, hsorted, h => by
    cases hchild : update p grow op (t.row.pick p) with
    | error e => simp [update, hchild, bind, Except.bind] at h
    | ok c =>
      obtain ⟨l', hop, hflat⟩ := flat_update hp hgrow _ c (sorted_pick hsorted) hchild
      refine ⟨l', hop, ?_⟩
      have hrow : flat (node (t.row.replace p c.1 c.2)) = t.flat.replace p l'.1 l'.2 := by
        rw [flat_node, Sep.map_replace]
        refine Sep.join_replace hp hsorted ?_
        rw [Sep.pick_map, ← hflat]
        obtain ⟨c, _ | ⟨k, c'⟩⟩ := c <;> rfl
      simp only [update, hchild, bind, Except.bind] at h
      split at h
      · rw [hgrow _ _ h, hrow]
      · next hnone =>
        have hc : c.2 = none := by simpa using hnone
        simp only [pure, Except.pure, Except.ok.injEq] at h
        rw [← h, flatGrown_none, ← hrow, hc]

theorem flat_set (hp : ∀ a b, a ≤ b → p b = true → p a = true) (l' : L) :
    ∀ {n : Nat} (t : SepTree K L n), t.flat.seps.Pairwise (· ≤ ·) →
      (set p l' t).flat = t.flat.replace p l' none
  | 0, _, _ => rfl
  | _ + 1, t, hsorted => by
    rw [set, flat_node, Sep.map_replace, flat_row]
    refine Sep.join_replace hp hsorted ?_
    rw [Sep.pick_map, Option.map_none, Option.toList_none, Sep.join_single]
    exact flat_set hp l' _ (sorted_pick hsorted)

theorem flat_walk {step : L → Walk L} :
    ∀ {p : K → Bool} (_ : ∀ a b, a ≤ b → p b = true → p a = true) {n : Nat} (t : SepTree K L n),
      t.flat.seps.Pairwise (· ≤ ·) → (walk step p t).map flat = t.flat.walk p step step
  | p, hp, 0, t, _ => by
    rw [walk, Walk.map_map]
    rfl
  | p, hp, n + 1, t, hsorted => by
    rw [walk, Walk.map_map]
    simp only [flat_node]
    rw [← Walk.map_map (Sep.map flat) Sep.join, flat_row, ← Sep.map_join_walk hp hsorted]
    congr 1
    exact Sep.map_walk (fun c hc => flat_walk hp c (sorted_of_mem_row hsorted c hc))
      (fun c hc => flat_walk (by simp) c (sorted_of_mem_row hsorted c hc))

end

/-! ## Properties of all nodes -/

/-- Every item of the tree satisfies `leafOk`, the separators of every row satisfy `rowOk`. -/
def Every (leafOk : L → Prop) (rowOk : List K → Prop) : {n : Nat} → SepTree K L n → Prop
  | 0, t => leafOk t.leaf
  | _ + 1, t => rowOk t.row.seps ∧ ∀ c ∈ t.row.items, Every leafOk rowOk c

/-- The same of one tree or two; the separator between them satisfies `sepOk`. -/
def EveryGrown (leafOk : L → Prop) (rowOk : List K → Prop) (sepOk : K → Prop) {n : Nat}
    (r : Grown K L n) : Prop :=
  Every leafOk rowOk r.1 ∧ ∀ x ∈ r.2, sepOk x.1 ∧ Every leafOk rowOk x.2

section
variable {leafOk : L → Prop} {rowOk : List K → Prop} {sepOk : K → Prop} {p : K → Bool}

lemma every_pick : ∀ {n : Nat} (t : SepTree K L n), Every leafOk rowOk t → leafOk (pick p t)
  | 0, _, h => h
  | _ + 1, t, h => every_pick (t.row.pick p) (h.2 _ (Sep.pick_mem t.row p))

lemma every_imp {leafOk' : L → Prop} {rowOk' : List K → Prop}
    (hleaf : ∀ l, leafOk l → leafOk' l) (hrow : ∀ ks, rowOk ks → rowOk' ks) :
    ∀ {n : Nat} (t : SepTree K L n), Every leafOk rowOk t → Every leafOk' rowOk' t
  | 0, _, h => hleaf _ h
  | _ + 1, _, h => ⟨hrow _ h.1, fun c hc => every_imp hleaf hrow c (h.2 c hc)⟩

lemma every_replace {s : Sep K (SepTree K L n)} {t' : SepTree K L n}
    {new : Option (K × SepTree K L n)} (hs : ∀ c ∈ s.items, Every leafOk rowOk c)
    (ht' : Every leafOk rowOk t') (hnew : ∀ x ∈ new, Every leafOk rowOk x.2) :
    ∀ c ∈ (s.replace p t' new).items, Every leafOk rowOk c := by
  intro c hc
  rw [Sep.items_eq s p] at hs
  rw [Sep.items_replace] at hc
  rcases mem_append.1 hc with hc | hc
  · exact hs c (mem_append_left _ hc)
  · rcases mem_cons.1 hc with rfl | hc
    · exact ht'
    · rcases mem_append.1 hc with hc | hc
      · obtain ⟨x, hx, rfl⟩ := mem_map.1 hc
        exact hnew x (Option.mem_toList.1 hx)
      · exact hs c (mem_append_right _ (.tail _ hc))

lemma every_walk {step : L → Walk L} (hstep : ∀ l l', leafOk l → step l = .write l' → leafOk l') :
    ∀ {n : Nat} (p : K → Bool) (t t' : SepTree K L n), Every leafOk rowOk t →
      walk step p t = .write t' → Every leafOk rowOk t'
  | 0, p, t, t', h, hw => by
    rw [walk] at hw
    cases hs : step t.leaf with
    | write l' =>
      rw [hs] at hw
      cases hw
      exact hstep _ _ h hs
    | _ =>
      rw [hs] at hw
      cases hw
  | n + 1, p, t, t', h, hw => by
    rw [walk] at hw
    cases hs : t.row.walk p (fun c => walk step p c) (fun c => walk step (fun _ => false) c) with
    | write s' =>
      rw [hs] at hw
      cases hw
      obtain ⟨hseps, hitems⟩ := Sep.walk_write hs
      refine ⟨by rw [row_node, hseps]; exact h.1, fun c hc => ?_⟩
      rcases hitems c hc with hold | ⟨c0, hc0, hw0 | hw0⟩
      · exact h.2 c hold
      · exact every_walk hstep p c0 c (h.2 c0 hc0) hw0
      · exact every_walk hstep _ c0 c (h.2 c0 hc0) hw0
    | _ =>
      rw [hs] at hw
      cases hw

lemma every_set {l' : L} (hl' : leafOk l') :
    ∀ {n : Nat} (t : SepTree K L n), Every leafOk rowOk t → Every leafOk rowOk (set p l' t)
  | 0, _, _ => hl'
  | _ + 1, t, h => by
    rw [set]
    refine ⟨?_, every_replace h.2 (every_set hl' _ (h.2 _ (Sep.pick_mem t.row p))) (by simp)⟩
    rw [row_node, Sep.seps_replace_none]
    exact h.1

variable {grow : {n : Nat} → Sep K (SepTree K L n) → Except ε (Grown K L (n + 1))}
  {op : L → Except ε (L × Option (K × L))}

/-- **An update succeeds** and keeps a property of all nodes, if it does so at the item and every
row takes one more separator. -/
theorem update_every
    (hgrow : ∀ {n : Nat} (s : Sep K (SepTree K L n)) (k : K) (ks : List K), sepOk k → rowOk ks →
      s.seps.Perm (k :: ks) → (∀ c ∈ s.items, Every leafOk rowOk c) →
      ∃ r, grow s = .ok r ∧ EveryGrown leafOk rowOk sepOk r) :
    ∀ {n : Nat} (t : SepTree K L n), Every leafOk rowOk t →
      (∃ r, op (pick p t) = .ok r ∧ leafOk r.1 ∧ ∀ x ∈ r.2, sepOk x.1 ∧ leafOk x.2) →
      ∃ r, update p grow op t = .ok r ∧ EveryGrown leafOk rowOk sepOk r
  | 0, t, _, ⟨r, hop, hr, hnew⟩ => by
    refine ⟨(ofLeaf r.1, r.2.map fun x => (x.1, ofLeaf x.2)), ?_, hr, ?_⟩
    · rw [pick] at hop
      simp [update, hop, bind, Except.bind, pure, Except.pure]
    · obtain ⟨l, _ | ⟨k, l'⟩⟩ := r
      · simp
      · rintro x ⟨⟩
        exact hnew _ rfl
  | n + 1, t, ht, hop => by
    obtain ⟨r, hr, hevery, hnew⟩ :=
      update_every hgrow _ (ht.2 _ (Sep.pick_mem t.row p)) hop
    have hitems := every_replace (p := p) ht.2 hevery fun x hx => (hnew x hx).2
    obtain ⟨c, _ | ⟨k, c'⟩⟩ := r
    · refine ⟨(node (t.row.replace p c none), none), ?_, ⟨?_, hitems⟩, by simp⟩
      · simp [update, hr, bind, Except.bind, pure, Except.pure]
      rw [row_node, Sep.seps_replace_none]
      exact ht.1
    · obtain ⟨r', hr', hgrown⟩ := hgrow (t.row.replace p c (some (k, c'))) k t.row.seps
        (hnew _ rfl).1 ht.1 (Sep.seps_replace_some ..) hitems
      exact ⟨r', by simp [update, hr, bind, Except.bind, hr'], hgrown⟩

end

end SepTree

end UniDb
