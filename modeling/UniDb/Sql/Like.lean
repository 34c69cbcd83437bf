import UniDb.Sql.Eval

/-!
# `LIKE`: what it matches and what it costs (`like_match_chars`)

`CutBy t p` says what a pattern means: the text is cut into consecutive pieces, one for each symbol
of the pattern. `likeCalls t p` counts the calls `like_match_chars(t, p)` makes, itself included.

* `likeMatchChars_iff`: the matcher answers `CutBy`.
* `likeCalls_le`: each `%` of the pattern is one more power of the text's length.
-/

namespace UniDb

open List

/-- The pieces of a text that one symbol of a pattern matches. -/
def SymbolMatches (c : Char) (piece : List Char) : Prop :=
  c = '%' ∨ c = '_' ∧ piece.length = 1 ∨ c ≠ '_' ∧ piece = [c]

/-- The text is cut into a piece for each symbol of the pattern. -/
def CutBy (t : List Char) : List Char → Prop
  | [] => t = []
  | c :: p => ∃ piece rest, t = piece ++ rest ∧ SymbolMatches c piece ∧ CutBy rest p

lemma cutBy_percent {t p : List Char} :
    CutBy t ('%' :: p) ↔ CutBy t p ∨ ∃ x t', t = x :: t' ∧ CutBy t' ('%' :: p) := by
  simp only [CutBy]
  constructor
  · rintro ⟨_ | ⟨x, piece⟩, rest, rfl, -, h⟩
    · exact .inl h
    · exact .inr ⟨x, _, rfl, piece, rest, rfl, .inl rfl, h⟩
  · rintro (h | ⟨x, _, rfl, piece, rest, rfl, -, h⟩)
    · exact ⟨[], t, rfl, .inl rfl, h⟩
    · exact ⟨x :: piece, rest, rfl, .inl rfl, h⟩

lemma cutBy_symbol {t p : List Char} {c : Char} (hc : c ≠ '%') :
    CutBy t (c :: p) ↔ ∃ x t', t = x :: t' ∧ (c = '_' ∨ x = c) ∧ CutBy t' p := by
  rw [CutBy]
  constructor
  · rintro ⟨piece, rest, rfl, hpiece, h⟩
    obtain hc' | ⟨rfl, hlen⟩ | ⟨-, rfl⟩ := hpiece
    · exact absurd hc' hc
    · obtain ⟨x, rfl⟩ := length_eq_one_iff.1 hlen
      exact ⟨x, rest, rfl, .inl rfl, h⟩
    · exact ⟨c, rest, rfl, .inr rfl, h⟩
  · rintro ⟨x, t', rfl, hx, h⟩
    refine ⟨[x], t', rfl, ?_, h⟩
    by_cases hu : c = '_'
    · exact .inr (.inl ⟨hu, rfl⟩)
    · exact .inr (.inr ⟨hu, by rw [hx.resolve_left hu]⟩)

lemma likeMatchChars_iff (t p : List Char) : likeMatchChars t p = true ↔ CutBy t p := by
  induction p generalizing t with
  | nil => simp [likeMatchChars, CutBy]
  | cons c p ih =>
    by_cases hc : c = '%'
    · -- The code retries the same pattern on the rest of the text.
      subst hc
      induction t with
      | nil => rw [likeMatchChars, cutBy_percent]; simp [ih]
      | cons x t iht => rw [likeMatchChars, cutBy_percent]; simp [ih, iht]
    · rw [likeMatchChars.eq_def, cutBy_symbol hc]
      cases t <;> by_cases hu : c = '_' <;> simp [hc, hu, ih]

/-- The calls of `like_match_chars`, itself included; `||` and `&&` skip the call on their right. -/
def likeCalls (text pattern : List Char) : Nat :=
  1 + match pattern with
  | [] => 0
  | c :: rest =>
    if c = '%' then
      likeCalls text rest +
        if likeMatchChars text rest then 0
        else match text with
          | [] => 0
          | _ :: text' => likeCalls text' (c :: rest)
    else match text with
      | [] => 0
      | t :: text' => if c = '_' ∨ t = c then likeCalls text' rest else 0
termination_by text.length + pattern.length

lemma likeCalls_le (t p : List Char) :
    likeCalls t p ≤ (t.length + 1) ^ p.count '%' * (p.length + 1) := by
  induction p generalizing t with
  | nil => simp [likeCalls]
  | cons c p ih =>
    have hone : 1 ≤ (t.length + 1) ^ p.count '%' := Nat.one_le_pow _ _ (by omega)
    by_cases hc : c = '%'
    · subst hc
      rw [count_cons_self, pow_succ, length_cons]
      induction t with
      | nil =>
        have h : likeCalls [] p ≤ p.length + 1 := by simpa using ih []
        rw [likeCalls]
        simp
        omega
      | cons x t iht =>
        calc likeCalls (x :: t) ('%' :: p)
          _ ≤ 1 + likeCalls (x :: t) p + likeCalls t ('%' :: p) := by
            rw [likeCalls.eq_def (x :: t)]
            simp only [if_true]
            split <;> omega
          _ ≤ (t.length + 2) ^ p.count '%' + (t.length + 2) ^ p.count '%' * (p.length + 1) +
              (t.length + 2) ^ p.count '%' * (t.length + 1) * (p.length + 2) := by
            gcongr
            · exact hone
            · exact ih (x :: t)
            · exact (iht (Nat.one_le_pow _ _ (by omega))).trans (by gcongr; omega)
          _ = (t.length + 2) ^ p.count '%' * (t.length + 2) * (p.length + 2) := by ring
    · rw [count_cons_of_ne hc, likeCalls.eq_def]
      cases t with
      | nil => simp [hc]
      | cons x t =>
        rw [length_cons] at hone
        have h : likeCalls t p ≤ (t.length + 1 + 1) ^ p.count '%' * (p.length + 1) :=
          (ih t).trans (by gcongr; omega)
        simp only [hc, if_false, length_cons, mul_add_one _ (p.length + 1)]
        split <;> omega

/-! ## Texts that almost match -/

section AlmostMatch

variable {p : List Char} (hno : ∀ n, likeMatchChars (replicate n 'a') p = false)

include hno

lemma likeMatchChars_percent_replicate (n : Nat) :
    likeMatchChars (replicate n 'a') ('%' :: p) = false := by
  have h := hno n
  induction n with
  | zero => rw [likeMatchChars.eq_def]; simp_all
  | succ n ih => rw [likeMatchChars.eq_def]; simp_all [replicate_succ]

/-- A `%` whose rest never matches tries the rest at every position. -/
lemma likeCalls_percent_replicate (n : Nat) :
    likeCalls (replicate (n + 1) 'a') ('%' :: p) =
      1 + (likeCalls (replicate (n + 1) 'a') p + likeCalls (replicate n 'a') ('%' :: p)) := by
  have h := hno (n + 1)
  rw [replicate_succ] at h ⊢
  rw [likeCalls.eq_def]
  simp [h]

end AlmostMatch

lemma likeMatchChars_b (n : Nat) : likeMatchChars (replicate n 'a') ['b'] = false := by
  cases n <;> simp [likeMatchChars, replicate_succ]

lemma le_likeCalls_percent_b (n : Nat) : n ≤ likeCalls (replicate n 'a') ['%', 'b'] := by
  induction n with
  | zero => exact Nat.zero_le _
  | succ n ih => rw [likeCalls_percent_replicate likeMatchChars_b]; omega

lemma le_likeCalls_percent_percent_b (n : Nat) :
    n * n ≤ 2 * likeCalls (replicate n 'a') ['%', '%', 'b'] := by
  induction n with
  | zero => exact Nat.zero_le _
  | succ n ih =>
    have h := le_likeCalls_percent_b (n + 1)
    rw [likeCalls_percent_replicate (likeMatchChars_percent_replicate likeMatchChars_b)]
    linarith

/-- No multiple of `(|t| + 1)(|p| + 1)` bounds the calls on `aⁿ LIKE '%%b'`. -/
lemma exists_likeCalls_gt (C : Nat) : ∃ t p, p.count '%' = 2 ∧
    C * ((t.length + 1) * (p.length + 1)) < likeCalls t p := by
  refine ⟨replicate (8 * C + 8) 'a', ['%', '%', 'b'], by decide, ?_⟩
  have h := le_likeCalls_percent_percent_b (8 * C + 8)
  simp only [length_replicate, length_cons, length_nil]
  nlinarith

/-- **The cost of `LIKE`.** The matcher is right on every text and pattern; the calls are bounded by
a multiple of `(|t| + 1)(|p| + 1)` over the patterns of at most `k` `%`s exactly when `k ≤ 1`. -/
theorem like_correct_and_bounded (k : Nat) :
    (∀ t p, likeMatchChars t p = true ↔ CutBy t p) ∧
      ((∃ C, ∀ t p, p.count '%' ≤ k →
        likeCalls t p ≤ C * ((t.length + 1) * (p.length + 1))) ↔ k ≤ 1) := by
  refine ⟨likeMatchChars_iff, ?_, fun hk => ⟨1, fun t p hp => ?_⟩⟩
  · rintro ⟨C, hC⟩
    obtain ⟨t, p, hp, hlt⟩ := exists_likeCalls_gt C
    by_contra hk
    exact (hC t p (by omega)).not_gt hlt
  · rw [one_mul]
    refine (likeCalls_le t p).trans (Nat.mul_le_mul_right _ ?_)
    exact (Nat.pow_le_pow_right (by omega) (hp.trans hk)).trans_eq (pow_one _)

theorem like_not_quadratic :
    ¬ ∃ C, ∀ t p, likeCalls t p ≤ C * ((t.length + 1) * (p.length + 1)) := by
  rintro ⟨C, hC⟩
  obtain ⟨t, p, -, hlt⟩ := exists_likeCalls_gt C
  exact (hC t p).not_gt hlt

end UniDb
