import Mathlib

/-!
# Lists

* Two selections over one list, the first selecting at each element what the second does or nothing:
  they select the same multiset exactly when they agree at every element. The same for the places
  of lists at which a test holds.
* Insertion sort by an order that refines another one.
* Lookup in association lists.
-/

namespace UniDb

open List

variable {α β : Type}

variable {f g : α → Option β} {l : List α}

lemma length_filterMap_le : ∀ {l : List α}, (∀ a ∈ l, f a = none ∨ f a = g a) →
      (l.filterMap f).length ≤ (l.filterMap g).length
  | [], _ => Nat.le_refl _
  | a :: l, h => by
    obtain ⟨ha, hl⟩ := forall_mem_cons.1 h
    have ih := length_filterMap_le hl
    rcases ha with ha | ha
    · cases hg : g a <;> simp [ha, hg] <;> omega
    · cases hg : g a <;> simp [ha, hg] <;> omega

lemma eq_of_length_filterMap_le : ∀ {l : List α}, (∀ a ∈ l, f a = none ∨ f a = g a) →
      (l.filterMap g).length ≤ (l.filterMap f).length → ∀ a ∈ l, f a = g a
  | [], _, _, a, ha => by cases ha
  | x :: l, h, hlen, a, ha => by
    obtain ⟨hx, hl⟩ := forall_mem_cons.1 h
    have hle := length_filterMap_le hl
    have hfg : f x = g x := by
      rcases hx with hx | hx
      · cases hg : g x with
        | none => exact hx
        | some b =>
          simp only [filterMap_cons, hx, hg, length_cons] at hlen
          omega
      · exact hx
    have hlen' : (l.filterMap g).length ≤ (l.filterMap f).length := by
      cases hg : g x <;> simp [hfg, hg] at hlen <;> omega
    rcases mem_cons.1 ha with rfl | ha
    · exact hfg
    · exact eq_of_length_filterMap_le hl hlen' a ha

lemma filterMap_perm_iff_of_le (h : ∀ a ∈ l, f a = none ∨ f a = g a) :
    (l.filterMap f).Perm (l.filterMap g) ↔ ∀ a ∈ l, f a = g a := by
  constructor
  · intro hperm
    exact eq_of_length_filterMap_le h (Nat.le_of_eq hperm.length_eq.symm)
  · intro heq
    rw [filterMap_congr heq]

lemma eq_of_countP_le {p q : α → Bool} (h : ∀ a ∈ l, p a = true → q a = true)
    (hcount : l.countP q ≤ l.countP p) : ∀ a ∈ l, p a = q a := by
  have hlen : ∀ r : α → Bool, (l.filterMap fun a => if r a then some () else none).length =
      l.countP r := by
    intro r
    rw [length_filterMap_eq_countP]
    refine countP_congr fun a _ => ?_
    cases r a <;> simp
  have hle : ∀ a ∈ l, (if p a then some () else none) = none ∨
      (if p a then some () else none) = if q a then some () else none := by
    intro a ha
    cases hp : p a with
    | false => exact .inl rfl
    | true => simp [h a ha hp]
  intro a ha
  have heq := eq_of_length_filterMap_le hle (by rw [hlen, hlen]; exact hcount) a ha
  cases hp : p a <;> cases hq : q a <;> simp_all

/-- Two lists for each element, of equal length, the first satisfying `q` wherever the second does:
if both collections are the same multiset of lists, they satisfy it at the same places. -/
lemma eq_of_map_perm {f g : α → List β} {q : β → Bool}
    (hperm : (l.map f).Perm (l.map g)) (hlen : ∀ a ∈ l, (f a).length = (g a).length)
    (h : ∀ a ∈ l, ∀ x ∈ (f a).zip (g a), q x.2 = true → q x.1 = true) :
    ∀ a ∈ l, ∀ x ∈ (f a).zip (g a), q x.2 = q x.1 := by
  have hfst : (l.flatMap fun a => (f a).zip (g a)).map Prod.fst = (l.map f).flatten := by
    rw [map_flatMap, flatMap_def]
    exact congrArg flatten (map_congr_left fun a ha => map_fst_zip (hlen a ha).le)
  have hsnd : (l.flatMap fun a => (f a).zip (g a)).map Prod.snd = (l.map g).flatten := by
    rw [map_flatMap, flatMap_def]
    exact congrArg flatten (map_congr_left fun a ha => map_snd_zip (hlen a ha).ge)
  have hcount := hperm.flatten.countP_eq q
  rw [← hfst, ← hsnd, countP_map, countP_map] at hcount
  intro a ha x hx
  refine eq_of_countP_le (p := q ∘ Prod.snd) (q := q ∘ Prod.fst) (fun y hy => ?_) hcount.le x
    (mem_flatMap.2 ⟨a, ha, hx⟩)
  obtain ⟨b, hb, hy⟩ := mem_flatMap.1 hy
  exact h b hb y hy

/-! ## Sorting by a finer relation -/

lemma pairwise_insertionSort_of_refines {r : α → α → Prop} [DecidableRel r] {le : α → α → Prop}
    (htrans : ∀ a b c, le a b → le b c → le a c) (hle : ∀ a b, r a b → le a b)
    (hge : ∀ a b, ¬ r a b → le b a) (l : List α) : (l.insertionSort r).Pairwise le := by
  have hinsert : ∀ (a : α) (l : List α), l.Pairwise le → (l.orderedInsert r a).Pairwise le := by
    intro a l hl
    induction l with
    | nil => simp
    | cons b l ih =>
      obtain ⟨hb, hl⟩ := pairwise_cons.1 hl
      rw [orderedInsert_cons]
      split
      · next hab =>
        refine pairwise_cons.2 ⟨forall_mem_cons.2 ⟨hle a b hab, fun c hc => ?_⟩,
          pairwise_cons.2 ⟨hb, hl⟩⟩
        exact htrans a b c (hle a b hab) (hb c hc)
      · next hab =>
        refine pairwise_cons.2 ⟨fun c hc => ?_, ih hl⟩
        rcases (mem_orderedInsert r).1 hc with rfl | hc
        · exact hge c b hab
        · exact hb c hc
  induction l with
  | nil => simp
  | cons a l ih => exact hinsert a _ ih

/-- Sorting by a key brings a list whose keys all differ into the one order that they have. -/
lemma insertionSort_eq_of_perm {κ : Type} [LinearOrder κ] (key : α → κ) {sorted : List α}
    (hperm : l.Perm sorted) (hsorted : sorted.Pairwise fun a b => key a < key b) :
    l.insertionSort (fun a b => key a ≤ key b) = sorted := by
  have htotal : Std.Total fun a b : α => key a ≤ key b := ⟨fun a b => le_total (key a) (key b)⟩
  have htrans : IsTrans α fun a b => key a ≤ key b := ⟨fun _ _ _ => le_trans⟩
  have hsort := perm_insertionSort (fun a b => key a ≤ key b) l
  have hkeys : (sorted.map key).Nodup := pairwise_map.2 (hsorted.imp fun h => ne_of_lt h)
  refine List.Perm.eq_of_pairwise (fun a b ha hb hab hba => ?_) (pairwise_insertionSort _ l)
    (hsorted.imp fun h => le_of_lt h) (hsort.trans hperm)
  exact inj_on_of_nodup_map hkeys (hperm.subset (hsort.subset ha)) hb (le_antisymm hab hba)

/-- **Selecting among the first `n`** finds the first `n` selected ones exactly when all of the
first `n` are selected or nothing beyond them is. -/
theorem length_filterMap_take {n : Nat} :
    ((l.take n).filterMap f).length = min n (l.filterMap f).length ↔
      (∀ a ∈ l.take n, f a ≠ none) ∨ ∀ a ∈ l.drop n, f a = none := by
  have hsplit : (l.filterMap f).length =
      ((l.take n).filterMap f).length + ((l.drop n).filterMap f).length := by
    rw [← length_append, ← filterMap_append, take_append_drop]
  have hle := List.length_filterMap_le f (l.take n)
  have htake : (l.take n).length = min n l.length := length_take
  have hdrop := List.length_filterMap_le f (l.drop n)
  rw [length_drop] at hdrop
  have hall : ((l.take n).filterMap f).length = (l.take n).length ↔ ∀ a ∈ l.take n, f a ≠ none := by
    simp only [filterMap_length_eq_length, Option.isSome_iff_ne_none]
  rw [← hall, ← filterMap_eq_nil_iff, ← length_eq_zero_iff]
  omega

lemma map_modify_of_eq (f : α → α) (g : α → β) (h : ∀ a, g (f a) = g a) (l : List α) (i : Nat) :
    (l.modify i f).map g = l.map g := by
  refine ext_getElem? fun j => ?_
  by_cases hj : i = j
  · simp [hj, h, Function.comp_def]
  · simp [hj]

lemma lookup_filter_ne [BEq α] [LawfulBEq α] [DecidableEq α] {k n : α} (h : k ≠ n)
    (l : List (α × β)) : (l.filter fun e => e.1 ≠ n).lookup k = l.lookup k := by
  induction l with
  | nil => rfl
  | cons e l ih =>
    by_cases he : e.1 = n
    · have hke : k ≠ e.1 := fun hk => h (hk.trans he)
      rw [filter_cons_of_neg (by simpa using he), ih, lookup_cons, beq_false_of_ne hke]
    · rw [filter_cons_of_pos (by simpa using he), lookup_cons, lookup_cons, ih]

/-- Where related pairs have a property as their second component has one, so have related lists. -/
lemma forall₂_iff_forall_mem {R P : α → β → Prop} {Q : β → Prop} {m : List β}
    (h : List.Forall₂ R l m) (hR : ∀ a b, R a b → (P a b ↔ Q b)) :
    List.Forall₂ P l m ↔ ∀ b ∈ m, Q b := by
  induction h with
  | nil => simp
  | cons hab _ ih => rw [List.forall₂_cons, forall_mem_cons, hR _ _ hab, ih]

end UniDb
