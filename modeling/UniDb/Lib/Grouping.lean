import UniDb.Lib.Checked

/-!
# Grouping a list by a key

`groupFold` keeps one entry per key, in the order in which the keys are first seen, and folds every
element into the entry of its key. `groupFold_grouped` says what that comes to if the fold of one
group does not fail: the entry of a key is the fold of the elements with that key.
-/

namespace UniDb

open List

variable {ε κ σ α : Type} [DecidableEq κ]

variable {f : σ → α → Except ε σ} {k : κ}

lemma foldlM_singleton {s t : σ} {a : α} : [a].foldlM f s = .ok t ↔ f s a = .ok t := by
  rw [foldlM_cons]
  cases f s a <;> simp [bind, Except.bind, pure, Except.pure]

lemma foldlM_congr {g : σ → α → Except ε σ} {l : List α} (h : ∀ a ∈ l, ∀ s, f s a = g s a)
    (s : σ) : l.foldlM f s = l.foldlM g s := by
  induction l generalizing s with
  | nil => rfl
  | cons a l ih =>
    rw [foldlM_cons, h a mem_cons_self]
    congr 1
    funext t
    exact ih (fun b hb => h b (mem_cons_of_mem a hb)) t

/-- Update the entry of a key; a key without one gets a fresh entry at the end. -/
def upsert (key : κ) (fresh : σ) (f : σ → Except ε σ) : List (κ × σ) → Except ε (List (κ × σ))
  | [] => do pure [(key, ← f fresh)]
  | (k, s) :: entries =>
    if k = key then do pure ((k, ← f s) :: entries)
    else do pure ((k, s) :: (← upsert key fresh f entries))

def firstKeys (keys : List κ) : List κ :=
  keys.foldl (fun seen k => if k ∈ seen then seen else seen ++ [k]) []

/-- One entry per key, every element folded into the entry of its key. -/
def groupFold (key : α → κ) (fresh : α → σ) (f : σ → α → Except ε σ) (l : List α) :
    Except ε (List (κ × σ)) :=
  l.foldlM (fun entries a => upsert (key a) (fresh a) (f · a) entries) []

lemma firstKeys_append (keys : List κ) (k : κ) : firstKeys (keys ++ [k]) =
      if k ∈ firstKeys keys then firstKeys keys else firstKeys keys ++ [k] := by
  rw [firstKeys, foldl_append]
  rfl

lemma mem_firstKeys {keys : List κ} : k ∈ firstKeys keys ↔ k ∈ keys := by
  induction keys using List.reverseRecOn with
  | nil => rfl
  | append_singleton keys j ih =>
    rw [firstKeys_append, mem_append, mem_singleton, ← ih]
    split
    · next hj =>
      constructor
      · exact .inl
      · rintro (hk | rfl)
        · exact hk
        · exact hj
    · rw [mem_append, mem_singleton]

lemma nodup_firstKeys (keys : List κ) : (firstKeys keys).Nodup := by
  induction keys using List.reverseRecOn with
  | nil => exact nodup_nil
  | append_singleton keys j ih =>
    rw [firstKeys_append]
    split
    · exact ih
    · next hj => exact nodup_append.2 ⟨ih, nodup_singleton j, by
        rintro k hk _ hk' rfl
        exact hj (mem_singleton.1 hk' ▸ hk)⟩

section
variable {entries : List (κ × σ)} {key : κ} {fresh s new : σ} {f : σ → Except ε σ}

lemma upsert_of_not_mem (hkey : key ∉ entries.map (·.1)) (hf : f fresh = .ok new) :
    upsert key fresh f entries = .ok (entries ++ [(key, new)]) := by
  induction entries with
  | nil =>
    rw [upsert, hf]
    rfl
  | cons e entries ih =>
    rw [map_cons, mem_cons, not_or] at hkey
    rw [upsert, if_neg (Ne.symm hkey.1), ih hkey.2]
    rfl

lemma upsert_of_mem (hnodup : (entries.map (·.1)).Nodup) (hkey : (key, s) ∈ entries)
    (hf : f s = .ok new) : upsert key fresh f entries =
      .ok (entries.map fun e => if e.1 = key then (key, new) else e) := by
  induction entries with
  | nil => cases hkey
  | cons e entries ih =>
    obtain ⟨he, hnodup'⟩ := nodup_cons.1 hnodup
    obtain ⟨k, t⟩ := e
    rw [upsert, map_cons]
    by_cases heq : k = key
    · subst heq
      have hrest : (entries.map fun e => if e.1 = k then (k, new) else e) = entries := by
        refine (map_congr_left fun e hmem => ?_).trans (map_id _)
        have hne : e.1 ≠ k := fun h => he (mem_map.2 ⟨e, hmem, h⟩)
        rw [if_neg hne]
        rfl
      have hst : t = s := by
        rcases mem_cons.1 hkey with h | h
        · cases h
          rfl
        · exact absurd (mem_map_of_mem h) he
      rw [if_pos rfl, if_pos rfl, hst, hf, hrest]
      rfl
    · have hkey' : (key, s) ∈ entries := by
        rcases mem_cons.1 hkey with h | h
        · cases h
          exact absurd rfl heq
        · exact h
      rw [if_neg heq, if_neg heq, ih hnodup' hkey']
      rfl

end

/-- The entries are the keys of the list, each with the fold of its elements. -/
structure Grouped (key : α → κ) (fresh : α → σ) (f : σ → α → Except ε σ) (l : List α)
    (entries : List (κ × σ)) : Prop where
  keys : entries.map (·.1) = firstKeys (l.map key)
  folds : ∀ k s, (k, s) ∈ entries → ∃ a as, l.filter (fun b => key b = k) = a :: as ∧
    (a :: as).foldlM f (fresh a) = .ok s

section
variable {key : α → κ} {fresh : α → σ} {f : σ → α → Except ε σ} {l : List α}
  {entries : List (κ × σ)} {a : α}

lemma filter_append_other (hk : k ≠ key a) :
    (l ++ [a]).filter (fun b => key b = k) = l.filter fun b => key b = k := by
  rw [filter_append]
  simp [Ne.symm hk]

lemma filter_append_own :
    (l ++ [a]).filter (fun b => key b = key a) = (l.filter fun b => key b = key a) ++ [a] := by
  rw [filter_append]
  simp

lemma Grouped.snoc (h : Grouped key fresh f l entries)
    (hok : ∀ b bs, (l ++ [a]).filter (fun c => key c = key a) = b :: bs →
      ∃ s, (b :: bs).foldlM f (fresh b) = .ok s) :
    ∃ entries', upsert (key a) (fresh a) (f · a) entries = .ok entries' ∧
      Grouped key fresh f (l ++ [a]) entries' := by
  have hnodup : (entries.map (·.1)).Nodup := h.keys ▸ nodup_firstKeys _
  rw [filter_append_own] at hok
  by_cases hmem : key a ∈ entries.map (·.1)
  · obtain ⟨⟨k, s⟩, he, hk⟩ := mem_map.1 hmem
    subst hk
    obtain ⟨b, bs, hfilter, hfold⟩ := h.folds _ _ he
    rw [hfilter] at hok
    obtain ⟨s', hs'⟩ := hok b (bs ++ [a]) rfl
    have hstep : f s a = .ok s' := by
      rw [← cons_append, foldlM_append, hfold] at hs'
      exact foldlM_singleton.1 hs'
    refine ⟨_, upsert_of_mem hnodup he hstep, ?_, ?_⟩
    · have hkeys : (entries.map fun e => if e.1 = key a then (key a, s') else e).map (·.1) =
          entries.map (·.1) := by
        rw [map_map]
        refine map_congr_left fun e _ => ?_
        show (if e.1 = key a then (key a, s') else e).1 = e.1
        split
        · next hk => exact hk.symm
        · rfl
      rw [map_append, map_singleton, firstKeys_append, hkeys, ← h.keys, if_pos hmem]
    · intro k t ht
      obtain ⟨e, he', heq⟩ := mem_map.1 ht
      split at heq
      · cases heq
        exact ⟨b, bs ++ [a], by rw [filter_append_own, hfilter]; rfl, hs'⟩
      · next hk =>
        subst heq
        rw [filter_append_other hk]
        exact h.folds _ _ he'
  · have hempty : (l.filter fun b => key b = key a) = [] := by
      refine filter_eq_nil_iff.2 fun b hb hkey => hmem ?_
      rw [h.keys]
      exact mem_firstKeys.2 (mem_map.2 ⟨b, hb, by simpa using hkey⟩)
    rw [hempty] at hok
    obtain ⟨s, hs⟩ := hok a [] rfl
    refine ⟨_, upsert_of_not_mem hmem (foldlM_singleton.1 hs), ?_, ?_⟩
    · rw [map_append, map_append, map_singleton, map_singleton, firstKeys_append,
        ← h.keys, if_neg hmem]
    · intro k t ht
      rcases mem_append.1 ht with ht | ht
      · have hk : k ≠ key a := fun hk => hmem (hk ▸ mem_map_of_mem ht)
        rw [filter_append_other hk]
        exact h.folds k t ht
      · cases mem_singleton.1 ht
        exact ⟨a, [], by rw [filter_append_own, hempty]; rfl, hs⟩

/-- **Grouping**: where no fold of elements of the list fails, the list is grouped. -/
theorem groupFold_grouped {n : Nat} {P : α → Prop}
    (hok : ∀ b bs, (b :: bs).length ≤ n → (∀ c ∈ b :: bs, P c) →
      ∃ s, (b :: bs).foldlM f (fresh b) = .ok s) (hl : l.length ≤ n) (hP : ∀ c ∈ l, P c) :
    ∃ entries, groupFold key fresh f l = .ok entries ∧ Grouped key fresh f l entries := by
  induction l using List.reverseRecOn with
  | nil => exact ⟨[], rfl, rfl, nofun⟩
  | append_singleton l a ih =>
    rw [length_append] at hl
    obtain ⟨entries, hrun, hgrouped⟩ := ih (by omega) fun c hc => hP c (mem_append_left _ hc)
    obtain ⟨entries', hstep, hgrouped'⟩ := hgrouped.snoc (by
      intro b bs hfilter
      refine hok b bs ?_ fun c hc => hP c (mem_filter.1 (hfilter ▸ hc)).1
      rw [← hfilter]
      refine Nat.le_trans (length_filter_le _ _) ?_
      rw [length_append]
      exact hl)
    refine ⟨entries', ?_, hgrouped'⟩
    rw [groupFold] at hrun
    rw [groupFold, foldlM_append, hrun]
    exact (foldlM_singleton (f := fun entries a => upsert (key a) (fresh a) (f · a) entries)).2
      hstep

end

end UniDb
