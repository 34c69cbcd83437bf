import UniDb.Lib.LittleEndian
import UniDb.Query.Expr

/-!
# Exact decimals (`sql/executor.rs`, `sql/plan.rs`)

A decimal `(v, s)` stands for the rational `v / 10 ^ s` (`toRat`). Three functions compute with it:
`rescaleDecimal` brings it to the scale of a column, `decimalCmp` compares two of them, and
`literalToText` writes it down.

* `rescaleDecimal_rescaled`: rescaling keeps the rational and fails only if the column cannot hold
  it or the unscaled value needs more than 128 bits.
* `decimalCmp_eq` and `compare_numeric`: comparisons follow the order of the rationals.
* `readDecimal_decimalToText`: the text denotes the rational, unless that lies strictly between `-1`
  and `0`: the sign is taken from the integer part, which is then zero.
-/

namespace UniDb.Query

open Text List Int Nat Option

/-! ## Specification -/

/-- The rational that a decimal stands for. -/
def toRat (v : Int) (scale : Nat) : ℚ := v / 10 ^ scale

structure Decimal where
  value : Int
  scale : Nat
  fits : FitsSigned 16 value
  scale_le : scale ≤ 38

structure DecimalType where
  precision : Nat
  scale : Nat
  one_le : 1 ≤ precision
  scale_le : scale ≤ 38

def DecimalType.Holds (ty : DecimalType) (w : Int) : Prop := w.natAbs < 10 ^ ty.precision

/-- The rational of an integer or a decimal. -/
def numeric : Literal → Option ℚ
  | .int n => some n
  | .decimal v s => some (toRat v s)
  | _ => none

def readUnsigned (cs : List Char) : Option ℚ :=
  match splitOnce (· == '.') cs with
  | none => (parseDigits cs).map fun n : Nat => (n : ℚ)
  | some (whole, frac) =>
    (parseDigits whole).bind fun n : Nat =>
      (parseDigits frac).map fun f : Nat => (n : ℚ) + toRat f frac.length

def readDecimal : List Char → Option ℚ
  | '-' :: cs => (readUnsigned cs).map Neg.neg
  | cs => readUnsigned cs

/-- **A decimal is exact**: rescaling, comparing and writing it follow its rational; and comparisons
of integers and decimals are the order of the rationals. -/
structure Exact (rt : QueryRuntime) (d : Decimal) : Prop where
  rescales : ∀ (tableName : String) (col : ColumnDef) (ty : DecimalType) l,
    rescaleDecimal tableName col d.value d.scale ty.precision ty.scale = .ok l →
      ∃ w, l = .decimal w ty.scale ∧ toRat w ty.scale = toRat d.value d.scale ∧ ty.Holds w
  refuses : ∀ (tableName : String) (col : ColumnDef) (ty : DecimalType) e,
    rescaleDecimal tableName col d.value d.scale ty.precision ty.scale = .error e →
      ∀ w, toRat w ty.scale = toRat d.value d.scale → ¬ty.Holds w ∨ ¬FitsSigned 16 w
  compares : ∀ (other : Decimal) o,
    decimalCmp d.value d.scale other.value other.scale = .ok o →
      o = cmp (toRat d.value d.scale) (toRat other.value other.scale)
  orders : ∀ op l r x y b, numeric l = some x → numeric r = some y →
    compare rt.toRuntime op l r = .ok b → b = applyCmp op (cmp x y)
  prints : ∃ text, literalToText rt (.decimal d.value d.scale) = .ok text ∧
    readDecimal text.toList = some (toRat d.value d.scale)

/-! ## Powers of ten -/

variable {n s : Nat} {w : Int}

lemma ten_pow_lt (h : n ≤ 38) : (10 : Int) ^ n < 2 ^ 127 :=
  calc (10 : Int) ^ n ≤ 10 ^ 38 := by gcongr; decide
    _ < 2 ^ 127 := by decide

lemma pow10_eq (h : n ≤ 38) : pow10 n = some (10 ^ n) := by
  induction n with
  | zero => rfl
  | succ n ih =>
    have hlt := ten_pow_lt h
    have hpos : (0 : Int) < 10 ^ (n + 1) := by positivity
    rw [pow10, ih (by omega), bind_some, checkedSigned_eq_some]
    exact ⟨rfl, by omega, hlt⟩

lemma toRat_scaled (v : Int) (s k : Nat) : toRat (v * 10 ^ k) (s + k) = toRat v s := by
  unfold toRat
  push_cast
  rw [pow_add]
  field_simp

lemma toRat_strictMono (s : Nat) : StrictMono fun v => toRat v s := by
  intro a b hab
  show (a : ℚ) / 10 ^ s < b / 10 ^ s
  gcongr

lemma toRat_inj {a b : Int} : toRat a s = toRat b s ↔ a = b :=
  (toRat_strictMono s).injective.eq_iff

lemma compare_eq_cmp_toRat (a b : Int) (s : Nat) : Ord.compare a b = cmp (toRat a s)
    (toRat b s) := by
  rw [(toRat_strictMono s).cmp_map_eq, cmp_eq_compare]

/-! ## Comparing -/

lemma pow10_eq_some {f : Int} (h : pow10 n = some f) : f = 10 ^ n := by
  induction n generalizing f with
  | zero =>
    cases h
    rfl
  | succ n ih =>
    obtain ⟨acc, hacc, h⟩ := bind_eq_some_iff.1 h
    rw [(checkedSigned_eq_some.1 h).1, ih hacc, pow_succ]

theorem decimalCmp_eq {a b : Int} {sa sb : Nat} {o : Ordering} (h : decimalCmp a sa b sb = .ok o) :
    o = cmp (toRat a sa) (toRat b sb) := by
  have scaleUp : ∀ {v n : Int} {k : Nat},
      ((pow10 k).bind fun f => checkedSigned 128 (v * f)) = some n → n = v * 10 ^ k := by
    intro v n k h
    obtain ⟨f, hf, h⟩ := bind_eq_some_iff.1 h
    rw [(checkedSigned_eq_some.1 h).1, pow10_eq_some hf]
  unfold decimalCmp at h
  dsimp only at h
  split at h
  · next heq =>
    cases h
    rw [heq, compare_eq_cmp_toRat]
  · split at h
    · next hlt =>
      obtain ⟨la, hla, h⟩ := bind_eq_ok.1 h
      cases h
      split at hla
      · next m hm =>
        cases hla
        rw [scaleUp hm, compare_eq_cmp_toRat _ _ (sa + (sb - sa)), toRat_scaled,
          add_sub_of_le hlt.le]
      · cases hla
    · obtain ⟨lb, hlb, h⟩ := bind_eq_ok.1 h
      cases h
      split at hlb
      · next m hm =>
        cases hlb
        rw [scaleUp hm, compare_eq_cmp_toRat _ _ (sb + (sa - sb)), toRat_scaled,
          add_sub_of_le (by omega)]
      · cases hlb

lemma compare_numeric {rt : Runtime} {op : CmpOp} {l r : Literal} {x y : ℚ} {b : Bool}
    (hl : numeric l = some x) (hr : numeric r = some y) (h : compare rt op l r = .ok b) :
    b = applyCmp op (cmp x y) := by
  have decimals : ∀ {a b' : Int} {sa sb : Nat}, (decimalCmp a sa b' sb).map (applyCmp op) = .ok b →
        b = applyCmp op (cmp (toRat a sa) (toRat b' sb)) := by
    intro a b' sa sb h
    cases hcmp : decimalCmp a sa b' sb with
    | error e =>
      rw [hcmp] at h
      cases h
    | ok o =>
      rw [hcmp] at h
      cases h
      rw [decimalCmp_eq hcmp]
  have integer : ∀ n : Int, toRat n 0 = n := fun n => by simp [toRat]
  cases l <;> cases hl <;> cases r <;> cases hr
  · next m n =>
    cases h
    rw [compare_eq_cmp_toRat m n 0, integer, integer]
  · next m v s => rw [decimals h, integer]
  · next v s n => rw [decimals h, integer]
  · exact decimals h

/-! ## Rescaling -/

lemma digitCount_le_iff {p : Nat} (hp : 1 ≤ p) : digitCount w ≤ p ↔ w.natAbs < 10 ^ p :=
  length_toDigits_le_iff (by decide) hp

lemma fitsSigned_iff : FitsSigned 16 w ↔ checkedSigned 128 w = some w := by
  rw [checkedSigned_eq_some, FitsSigned]
  omega

lemma toRat_eq_iff_of_le {v : Int} {t : Nat} (h : s ≤ t) :
    toRat w t = toRat v s ↔ w = v * 10 ^ (t - s) := by
  have hscaled := toRat_scaled v s (t - s)
  rw [add_sub_of_le h] at hscaled
  rw [← hscaled, toRat_inj]

section
variable {tableName : String} {col : ColumnDef} {v : Int} {s p t : Nat}

/-- What rescaling comes to: the value at the new scale, with at most `p` digits, or an error if
there is none that fits 128 bits. -/
def Rescaled (v : Int) (s p t : Nat) (result : Except DbError Literal) : Prop :=
  (∃ w, toRat w t = toRat v s ∧ digitCount w ≤ p ∧ result = .ok (.decimal w t)) ∨
    ((∃ e, result = .error e) ∧
      ∀ w, toRat w t = toRat v s → p < digitCount w ∨ ¬FitsSigned 16 w)

lemma rescaled_of_value (hw : toRat w t = toRat v s) (msg : String) : Rescaled v s p t
      (if digitCount w > p then .error (.sqlPlan msg) else pure (Literal.decimal w t)) := by
  split
  · next hp =>
    refine .inr ⟨⟨_, rfl⟩, fun w' hw' => .inl ?_⟩
    rwa [toRat_inj.1 (hw'.trans hw.symm)]
  · next hp => exact .inl ⟨w, hw, by omega, rfl⟩

lemma rescaled_of_error {e : DbError}
    (h : ∀ w, toRat w t = toRat v s → ¬FitsSigned 16 w) : Rescaled v s p t (.error e) :=
  .inr ⟨⟨e, rfl⟩, fun w hw => .inr (h w hw)⟩

lemma Rescaled.of_ok {l : Literal} (h : Rescaled v s p t (.ok l)) :
    ∃ w, l = .decimal w t ∧ toRat w t = toRat v s ∧ digitCount w ≤ p := by
  obtain ⟨w, hw, hp, hl⟩ | ⟨⟨e, he⟩, -⟩ := h
  · cases hl
    exact ⟨w, rfl, hw, hp⟩
  · cases he

lemma Rescaled.of_error {e : DbError} (h : Rescaled v s p t (.error e)) (w : Int)
    (hw : toRat w t = toRat v s) : p < digitCount w ∨ ¬FitsSigned 16 w := by
  obtain ⟨_, -, -, hl⟩ | ⟨-, hall⟩ := h
  · cases hl
  · exact hall w hw

theorem rescaleDecimal_rescaled (hs : s ≤ 38) (ht : t ≤ 38) :
    Rescaled v s p t (rescaleDecimal tableName col v s p t) := by
  unfold rescaleDecimal
  dsimp only
  split
  · next heq => exact rescaled_of_value (by rw [heq]) _
  · split
    · next hlt =>
      rw [pow10_eq (by omega : t - s ≤ 38)]
      dsimp only [bind, Except.bind]
      by_cases hfit : FitsSigned 16 (v * 10 ^ (t - s))
      · rw [fitsSigned_iff.1 hfit]
        exact rescaled_of_value ((toRat_eq_iff_of_le hlt.le).2 rfl) _
      · have hnone : checkedSigned 128 (v * 10 ^ (t - s)) = none := by
          refine eq_none_iff_forall_ne_some.2 fun n hn => hfit (fitsSigned_iff.2 ?_)
          rwa [(checkedSigned_eq_some.1 hn).1] at hn
        rw [hnone]
        refine rescaled_of_error fun w hw => ?_
        rwa [(toRat_eq_iff_of_le hlt.le).1 hw]
    · have hle : t ≤ s := by omega
      rw [pow10_eq (by omega : s - t ≤ 38)]
      show Rescaled v s p t (if v.tmod (10 ^ (s - t)) ≠ 0 then _ else _)
      split
      · next hmod =>
        refine rescaled_of_error fun w hw => absurd ?_ hmod
        rw [(toRat_eq_iff_of_le hle).1 hw.symm]
        exact mul_tmod_left _ _
      · next hmod =>
        have hdvd : (10 ^ (s - t) : Int) ∣ v := dvd_of_tmod_eq_zero (not_not.1 hmod)
        exact rescaled_of_value ((toRat_eq_iff_of_le hle).2 (Int.tdiv_mul_cancel hdvd).symm).symm _

end

/-! ## Writing -/

lemma i128Pow10_eq (h : s ≤ 38) : i128Pow10 s = 10 ^ s := by
  have hlt := ten_pow_lt h
  have hpos : (0 : Int) < 10 ^ s := by positivity
  have hrange : ((2 ^ 128 : Nat) : Int) = 2 ^ 128 := by norm_num
  unfold i128Pow10 wrapSigned
  refine bmod_eq_of_le_mul_two ?_ ?_ <;> rw [hrange] <;> omega

lemma not_point_of_mem {c : Char} (h : c ∈ (toString n).toList) : (c == '.') = false := by
  have hdigit := isDigit_of_mem_toString h
  rw [beq_eq_false_iff_ne]
  rintro rfl
  exact absurd hdigit (by decide)

lemma readDecimal_of_digits (n : Nat) (rest : List Char) :
    readDecimal ((toString n).toList ++ rest) = readUnsigned ((toString n).toList ++ rest) := by
  have hdigit : ∀ c ∈ (toString n).toList, c.isDigit = true := fun c => isDigit_of_mem_toString
  unfold readDecimal
  split
  · next cs hcs =>
    cases hn : (toString n).toList with
    | nil =>
      rw [toList_toString] at hn
      exact absurd hn toDigits_ne_nil
    | cons d ds =>
      rw [hn] at hcs
      cases hcs
      exact absurd (hdigit '-' (by rw [hn]; exact mem_cons_self)) (by decide)
  · rfl

lemma readDecimal_int (n : Int) (rest : List Char) : readDecimal ((toString n).toList ++ rest) =
      (readUnsigned ((toString n.natAbs).toList ++ rest)).map fun q => if n < 0 then -q else q := by
  rw [toList_toString_int]
  split
  · rfl
  · rw [nil_append, readDecimal_of_digits, Option.map_id_fun']
    rfl

lemma padLeft_spec {f : Nat} (hs : 0 < s) (hf : f < 10 ^ s) :
    (padLeft s (toString f)).toList.length = s ∧
      parseDigits (padLeft s (toString f)).toList = some f := by
  have hlen : (toString f).toList.length ≤ s := by
    rw [toList_toString]
    exact (length_toDigits_le_iff (by decide) hs).2 hf
  have htext : (padLeft s (toString f)).toList =
      List.replicate (s - (toString f).toList.length) '0' ++ (toString f).toList := by
    rw [padLeft, String.toList_append, String.toList_ofList, String.length_toList]
  rw [htext]
  refine ⟨by rw [length_append, length_replicate]; omega, ?_⟩
  rw [parseDigits_of_digits]
  · rw [ofDigitChars_append, ofDigitChars_replicate_zero, mul_zero, toList_toString,
      ofDigitChars_ten_toDigits]
  · rw [toList_toString]
    exact fun h => toDigits_ne_nil (append_eq_nil_iff.1 h).2
  · intro c hc
    rcases mem_append.1 hc with hc | hc
    · rw [eq_of_mem_replicate hc]
      rfl
    · exact isDigit_of_mem_toString hc

lemma readUnsigned_point {a f : Nat} (hs : 0 < s) (hf : f < 10 ^ s) :
    readUnsigned ((toString a).toList ++ '.' :: (padLeft s (toString f)).toList) =
      some (a + toRat f s) := by
  obtain ⟨hlen, hfrac⟩ := padLeft_spec hs hf
  rw [readUnsigned, splitOnce_append (fun x hx => not_point_of_mem hx) rfl]
  dsimp only
  rw [parseDigits_toString, hfrac, hlen]
  rfl

lemma readUnsigned_digits (n : Nat) : readUnsigned (toString n).toList = some (n : ℚ) := by
  rw [readUnsigned, splitOnce_eq_none fun x hx => not_point_of_mem hx]
  rw [parseDigits_toString]
  rfl

section
variable {m : Int} {s : Nat}

lemma toRat_natAbs (m : Int) (s : Nat) :
    ((m.tdiv (10 ^ s)).natAbs : ℚ) + toRat ((m.tmod (10 ^ s)).natAbs : Int) s =
        toRat m.natAbs s := by
  have hpow : ((10 : Int) ^ s).natAbs = 10 ^ s := natAbs_pow 10 s
  have hparts : (m.natAbs : ℚ) = 10 ^ s * (m.tdiv (10 ^ s)).natAbs + (m.tmod (10 ^ s)).natAbs := by
    rw [natAbs_tdiv, natAbs_tmod]
    exact_mod_cast (div_add_mod m.natAbs (10 ^ s)).symm
  unfold toRat
  rw [cast_natCast, cast_natCast, hparts]
  field_simp

lemma readDecimal_decimalToText (hs : s ≤ 38) :
    ∃ text, decimalToText m s = .ok text ∧ readDecimal text.toList =
      some (if m.tdiv (10 ^ s) < 0 then -toRat m.natAbs s else toRat m.natAbs s) := by
  rcases Nat.eq_zero_or_pos s with rfl | hpos
  · refine ⟨toString m, rfl, ?_⟩
    have hread := readDecimal_int m []
    rw [append_nil, append_nil, readUnsigned_digits] at hread
    rw [hread]
    simp [toRat]
  · have hpow : (10 : Int) ^ s ≠ 0 := by positivity
    have hfrac : (m.tmod (10 ^ s)).natAbs < 10 ^ s := by
      rw [natAbs_tmod]
      exact mod_lt _ (by positivity)
    refine ⟨toString (m.tdiv (10 ^ s)) ++ "." ++ padLeft s (toString (m.tmod (10 ^ s)).natAbs), ?_,
      ?_⟩
    · rw [decimalToText, if_neg (by omega), i128Pow10_eq hs]
      show (i128Div m (10 ^ s) >>= _) = _
      rw [i128Div, if_neg hpow]
      rfl
    · have htext : (toString (m.tdiv (10 ^ s)) ++ "." ++
          padLeft s (toString (m.tmod (10 ^ s)).natAbs)).toList =
          (toString (m.tdiv (10 ^ s))).toList ++
            '.' :: (padLeft s (toString (m.tmod (10 ^ s)).natAbs)).toList := by
        rw [String.toList_append, String.toList_append, append_assoc]
        rfl
      rw [htext, readDecimal_int, readUnsigned_point hpos hfrac]
      exact congrArg some (by rw [toRat_natAbs])

lemma tdiv_neg_iff {d : Int} (hd : 0 < d) : m.tdiv d < 0 ↔ m ≤ -d := by
  rcases le_total 0 m with hm | hm
  · have hnonneg := Int.tdiv_nonneg hm hd.le
    omega
  · have hneg : m.tdiv d = -((-m) / d) := by
      rw [← Int.tdiv_eq_ediv_of_nonneg (by omega), Int.neg_tdiv, Int.neg_neg]
    have hle : 1 ≤ (-m) / d ↔ 1 * d ≤ -m := Int.le_ediv_iff_mul_le hd
    omega

/-- **The text of a decimal** denotes it, unless it lies strictly between `-1` and `0`. -/
theorem prints_iff (hs : s ≤ 38) :
    (∃ text, decimalToText m s = .ok text ∧ readDecimal text.toList = some (toRat m s)) ↔
      ¬(-10 ^ s < m ∧ m < 0) := by
  obtain ⟨text, htext, hread⟩ := readDecimal_decimalToText hs
  have hsign : (if m.tdiv (10 ^ s) < 0 then -toRat m.natAbs s else toRat m.natAbs s) =
      toRat (if m.tdiv (10 ^ s) < 0 then -m.natAbs else m.natAbs) s := by
    split
    · simp [toRat, neg_div]
    · rfl
  have hneg : m.tdiv (10 ^ s) < 0 ↔ m ≤ -10 ^ s := tdiv_neg_iff (by positivity)
  have hpos : (0 : Int) < 10 ^ s := by positivity
  have hvalue : (if m.tdiv (10 ^ s) < 0 then -(m.natAbs : Int) else m.natAbs) = m ↔
      ¬(-10 ^ s < m ∧ m < 0) := by
    split <;> omega
  rw [← hvalue, ← toRat_inj, ← hsign]
  constructor
  · rintro ⟨text', htext', hread'⟩
    rw [htext] at htext'
    cases htext'
    rw [hread] at hread'
    exact some.inj hread'
  · intro heq
    exact ⟨text, htext, by rw [hread, heq]⟩

end

/-! ## Decimals are exact -/

/-- **Decimals are exact**, except for writing those strictly between `-1` and `0`. -/
theorem decimal_exact_iff (rt : QueryRuntime) (d : Decimal) :
    Exact rt d ↔ ¬(-10 ^ d.scale < d.value ∧ d.value < 0) := by
  rw [← prints_iff d.scale_le]
  constructor
  · exact fun h => h.prints
  · intro hprints
    refine ⟨?_, ?_, fun other o => decimalCmp_eq, fun op l r x y b => compare_numeric, hprints⟩
    · intro tableName col ty l hl
      have hrescaled : Rescaled d.value d.scale ty.precision ty.scale (.ok l) :=
        hl ▸ rescaleDecimal_rescaled d.scale_le ty.scale_le
      obtain ⟨w, hw, hval, hdigits⟩ := hrescaled.of_ok
      exact ⟨w, hw, hval, (digitCount_le_iff ty.one_le).1 hdigits⟩
    · intro tableName col ty e he w hw
      have hrescaled : Rescaled d.value d.scale ty.precision ty.scale (.error e) :=
        he ▸ rescaleDecimal_rescaled d.scale_le ty.scale_le
      refine (hrescaled.of_error w hw).imp_left fun hdigits hholds => ?_
      have hle := (digitCount_le_iff ty.one_le).2 hholds
      omega

/-- `-0.5`. -/
def minusHalf : Decimal := ⟨-5, 1, by decide, by decide⟩

/-- **`-0.5` loses its sign**: its text is `0.5`. -/
theorem minusHalf_unsigned :
    literalToText default (.decimal minusHalf.value minusHalf.scale) = .ok "0.5" ∧
      ¬Exact default minusHalf := by
  have htext : decimalToText (-5) 1 = .ok "0.5" := by decide
  refine ⟨htext, fun h => ?_⟩
  exact (prints_iff minusHalf.scale_le).1 h.prints (by decide)

end UniDb.Query
