import UniDb.Lib.Lists

/-!
# Finite graphs

Depth-first search in a graph of adjacency lists (`dfs` for one goal, `reach` for all that can be
reached), and cycles of a relation that gains edges from one node.
-/

namespace UniDb

open Relation List

variable {α : Type}

/-- **A new cycle goes through the node that got the new edges.** -/
theorem transGen_of_added {r r' : α → α → Prop} {t x : α}
    (hadd : ∀ a b, r' a b → r a b ∨ a = t) (h : TransGen r' x x) :
    TransGen r x x ∨ TransGen r' t t := by
  have hpath : ∀ y, TransGen r' x y → TransGen r x y ∨ ReflTransGen r' x t ∧ TransGen r' t y := by
    intro y hy
    induction hy with
    | single hab =>
      rcases hadd _ _ hab with hr | rfl
      · exact .inl (.single hr)
      · exact .inr ⟨.refl, .single hab⟩
    | tail hxb hbc ih =>
      rcases hadd _ _ hbc with hr | rfl
      · rcases ih with hold | ⟨hxt, htb⟩
        · exact .inl (hold.tail hr)
        · exact .inr ⟨hxt, htb.tail hbc⟩
      · exact .inr ⟨hxb.to_reflTransGen, .single hbc⟩
  rcases hpath x h with hold | ⟨hxt, htx⟩
  · exact .inl hold
  · exact .inr (htx.trans_left hxt)

variable [DecidableEq α]

def successors (graph : List (α × List α)) (n : α) : List α := (graph.lookup n).getD []

def Edge (graph : List (α × List α)) (a b : α) : Prop := b ∈ successors graph a

lemma successors_cons (e : α × List α) (graph : List (α × List α)) (n : α) :
    successors (e :: graph) n = if n = e.1 then e.2 else successors graph n := by
  rw [successors, lookup_cons]
  by_cases hn : n = e.1
  · simp [hn]
  · rw [if_neg hn, beq_eq_false_iff_ne.2 hn, successors]

variable {n k : α} {seen stack : List α} {graph : List (α × List α)}

lemma successors_filter_ne {m : α} (h : m ≠ n) (graph : List (α × List α)) :
    successors (graph.filter fun e => e.1 ≠ n) m = successors graph m := by
  rw [successors, lookup_filter_ne h, successors]

lemma successors_filter_self (n : α) (graph : List (α × List α)) :
    successors (graph.filter fun e => e.1 ≠ n) n = [] := by
  have hnone : (graph.filter fun e => e.1 ≠ n).lookup n = none := by
    rw [lookup_eq_none_iff]
    intro e he
    have hne : e.1 ≠ n := by simpa using (mem_filter.1 he).2
    exact bne_iff_ne.2 (Ne.symm hne)
  rw [successors, hnone]
  rfl

lemma successors_map_filter (p : α → Bool) (n : α) (graph : List (α × List α)) :
    successors (graph.map fun e => (e.1, e.2.filter p)) n = (successors graph n).filter p := by
  induction graph with
  | nil => rfl
  | cons e graph ih =>
    rw [map_cons, successors_cons, successors_cons, ih]
    split <;> rfl

/-- The edges that leave nodes that were not visited. -/
def pending (graph : List (α × List α)) (seen : List α) : Nat :=
  (graph.map fun e => if e.1 ∈ seen then 0 else e.2.length).sum

lemma pending_cons (e : α × List α) (graph : List (α × List α)) (seen : List α) :
    pending (e :: graph) seen = (if e.1 ∈ seen then 0 else e.2.length) + pending graph seen := by
  rw [pending, map_cons, sum_cons, pending]

lemma pending_visit (hn : n ∉ seen) (graph : List (α × List α)) :
    pending graph (n :: seen) + (successors graph n).length ≤ pending graph seen := by
  induction graph with
  | nil => exact Nat.le_refl 0
  | cons e graph ih =>
    rw [pending_cons, pending_cons, successors_cons]
    by_cases he : e.1 = n
    · rw [if_pos he.symm, he, if_pos mem_cons_self, if_neg hn]
      omega
    · have hmem : (if e.1 ∈ n :: seen then 0 else e.2.length) =
          if e.1 ∈ seen then 0 else e.2.length := by simp [he]
      rw [if_neg (Ne.symm he)]
      omega

/-- Depth-first search from a stack of nodes for the goal. -/
def dfs (graph : List (α × List α)) (goal : α) (seen stack : List α) : Bool :=
  match stack with
  | [] => false
  | n :: rest =>
    if n = goal then true
    else if n ∈ seen then dfs graph goal seen rest
    else dfs graph goal (n :: seen) ((successors graph n).reverse ++ rest)
termination_by pending graph seen + stack.length
decreasing_by
  · exact Nat.lt_succ_self _
  · next hseen =>
    have hvisit := pending_visit hseen graph
    rw [length_append, length_reverse, length_cons]
    omega

/-- What depth-first search from a stack of nodes visits. -/
def reach (graph : List (α × List α)) (seen stack : List α) : List α :=
  match stack with
  | [] => seen
  | n :: rest =>
    if n ∈ seen then reach graph seen rest
    else reach graph (n :: seen) ((successors graph n).reverse ++ rest)
termination_by pending graph seen + stack.length
decreasing_by
  · exact Nat.lt_succ_self _
  · next hseen =>
    have hvisit := pending_visit hseen graph
    rw [length_append, length_reverse, length_cons]
    omega

variable {goal : α}

lemma closed_visit {rest : List α}
    (hclosed : ∀ m ∈ seen, ∀ k ∈ successors graph m, k ∈ seen ∨ k ∈ n :: rest) :
    ∀ m ∈ n :: seen, ∀ k ∈ successors graph m,
      k ∈ n :: seen ∨ k ∈ (successors graph n).reverse ++ rest := by
  intro m hm k hk
  simp only [mem_cons, mem_append, mem_reverse]
  rcases mem_cons.1 hm with rfl | hm
  · exact .inr (.inl hk)
  · rcases hclosed m hm k hk with hk | hk
    · exact .inl (.inr hk)
    · rcases mem_cons.1 hk with rfl | hk
      · exact .inl (.inl rfl)
      · exact .inr (.inr hk)

lemma subset_reach (graph : List (α × List α)) (seen stack : List α) :
    seen ⊆ reach graph seen stack := by
  fun_induction reach graph seen stack with
  | case1 => exact List.Subset.refl _
  | case2 _ _ _ _ ih => exact ih
  | case3 _ _ _ _ ih => exact fun k hk => ih (.tail _ hk)

lemma path_of_mem_reach (h : k ∈ reach graph seen stack) :
    k ∈ seen ∨ ∃ m ∈ stack, ReflTransGen (Edge graph) m k := by
  fun_induction reach graph seen stack with
  | case1 => exact .inl h
  | case2 seen n rest hseen ih =>
    rcases ih h with hk | ⟨m, hm, hpath⟩
    · exact .inl hk
    · exact .inr ⟨m, .tail _ hm, hpath⟩
  | case3 seen n rest hseen ih =>
    rcases ih h with hk | ⟨m, hm, hpath⟩
    · rcases mem_cons.1 hk with rfl | hk
      · exact .inr ⟨k, .head _, .refl⟩
      · exact .inl hk
    · rcases mem_append.1 hm with hm | hm
      · exact .inr ⟨n, .head _, .head (mem_reverse.1 hm) hpath⟩
      · exact .inr ⟨m, .tail _ hm, hpath⟩

section
variable (hclosed : ∀ m ∈ seen, ∀ k ∈ successors graph m, k ∈ seen ∨ k ∈ stack)

include hclosed

lemma reach_closed : stack ⊆ reach graph seen stack ∧
      ∀ m ∈ reach graph seen stack, ∀ k ∈ successors graph m, k ∈ reach graph seen stack := by
  fun_induction reach graph seen stack with
  | case1 seen => exact ⟨nil_subset _, fun m hm k hk => (hclosed m hm k hk).resolve_right nofun⟩
  | case2 seen n rest hseen ih =>
    obtain ⟨hrest, hall⟩ := ih fun m hm k hk => by
      rcases hclosed m hm k hk with hk | hk
      · exact .inl hk
      · rcases mem_cons.1 hk with rfl | hk
        · exact .inl hseen
        · exact .inr hk
    exact ⟨cons_subset.2 ⟨subset_reach _ _ _ hseen, hrest⟩, hall⟩
  | case3 seen n rest hseen ih =>
    obtain ⟨hrest, hall⟩ := ih (closed_visit hclosed)
    exact ⟨cons_subset.2 ⟨subset_reach _ _ _ (.head _), (append_subset.1 hrest).2⟩, hall⟩

theorem mem_reach_of_path (h : ∃ m ∈ stack, ReflTransGen (Edge graph) m k) :
    k ∈ reach graph seen stack := by
  obtain ⟨hstack, hall⟩ := reach_closed hclosed
  obtain ⟨m, hm, hpath⟩ := h
  induction hpath with
  | refl => exact hstack hm
  | tail _ hedge ih => exact hall _ ih _ hedge

end

lemma mem_reach : k ∈ reach graph [] [n] ↔ ReflTransGen (Edge graph) n k := by
  constructor
  · intro h
    rcases path_of_mem_reach h with hk | ⟨m, hm, hpath⟩
    · cases hk
    · rwa [mem_singleton.1 hm] at hpath
  · exact fun h => mem_reach_of_path nofun ⟨n, .head _, h⟩

lemma dfs_iff (hgoal : goal ∉ seen) :
    dfs graph goal seen stack = true ↔ goal ∈ reach graph seen stack := by
  fun_induction dfs graph goal seen stack with
  | case1 seen => simp [reach, hgoal]
  | case2 seen rest =>
    rw [reach, if_neg hgoal]
    exact iff_of_true rfl (subset_reach _ _ _ (.head _))
  | case3 seen n rest hne hseen ih =>
    rw [reach, if_pos hseen]
    exact ih hgoal
  | case4 seen n rest hne hseen ih =>
    rw [reach, if_neg hseen]
    exact ih (by simp [Ne.symm hne, hgoal])

/-- Is there a cycle through `start`? -/
def hasCycle (graph : List (α × List α)) (start : α) : Bool :=
  dfs graph start [] (successors graph start).reverse

lemma hasCycle_iff : hasCycle graph n = true ↔ TransGen (Edge graph) n n := by
  rw [hasCycle, dfs_iff (by simp), TransGen.head'_iff]
  constructor
  · intro h
    obtain ⟨m, hm, hpath⟩ := (path_of_mem_reach h).resolve_left (by simp)
    exact ⟨m, mem_reverse.1 hm, hpath⟩
  · rintro ⟨m, hm, hpath⟩
    exact mem_reach_of_path (by simp) ⟨m, mem_reverse.2 hm, hpath⟩

end UniDb
