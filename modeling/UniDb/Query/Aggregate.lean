import UniDb.Lib.Grouping
import UniDb.Lib.Lists
import UniDb.Query.Expr
import UniDb.Sql.Pushdown

/-!
# Aggregation (`sql/aggregate.rs`, `exec_window_projection`)

`aggregate` keeps one accumulator per group and call: `SUM` adds integers in 128 bits and narrows
the sum to 64 bits at the end. The window function `SUM` adds the values of a partition in 64 bits,
in the order of the partition. Both narrow or add without a check: in a release build the result
wraps, in a debug build an addition out of range panics (`addSigned`).

* `Acc.Summed.update`: the accumulator of a `SUM` over integers holds their mathematical sum.
* `SumInput.aggregate_groups`: the operator returns a row per group, with the sums of its rows.
-/

namespace UniDb.Query

open Text Codec List Acc

/-! ## Integers of 64 bits -/

def InRange (n : Int) : Prop := checkedSigned 64 n = some n

instance (n : Int) : Decidable (InRange n) := inferInstanceAs (Decidable (_ = _))

def fits (n : Int) : Option Literal := (checkedSigned 64 n).map .int

def Exactly {α : Type} (exact : Option α) (result : Except DbError α) : Prop :=
  match exact with
  | some v => result = .ok v
  | none => ∃ e, result = .error e ∧ e ≠ .panicked

lemma inRange_iff {n : Int} : InRange n ↔ i64Min ≤ n ∧ n ≤ i64Max := by
  have hpow : (2 : Int) ^ (64 - 1) = 9223372036854775808 := rfl
  unfold InRange i64Min i64Max
  rw [checkedSigned_eq_some]
  omega

/-! ## Encodings -/

lemma fitsSigned_iff_inRange {n : Int} : FitsSigned 8 n ↔ InRange n := by
  rw [inRange_iff]
  unfold FitsSigned i64Min i64Max
  omega

lemma encodeRow_int_inj {a b : Int} (ha : InRange a) (hb : InRange b)
    (h : encodeRow [.int a] = encodeRow [.int b]) : a = b := by
  simp only [encodeRow] at h
  exact leSigned_injective (fitsSigned_iff_inRange.2 ha) (fitsSigned_iff_inRange.2 hb)
    (cons.inj h).2

/-! ## Machine additions -/

def addSigned (profile : Profile) (w : Nat) (a b : Int) : Except DbError Int :=
  signedOp profile w (a + b)

lemma addSigned_of_fits {profile : Profile} {w : Nat} {a b : Int}
    (h : checkedSigned w (a + b) = some (a + b)) : addSigned profile w a b = .ok (a + b) := by
  unfold addSigned signedOp
  rw [h]

/-! ## Accumulators -/

inductive AggFunc where
  | count | sum | avg | min | max
deriving DecidableEq, Repr

structure AggCall where
  func : AggFunc
  arg : Option QExpr
  distinct : Bool

structure Acc where
  func : AggFunc
  distinct : Bool
  seen : List (List UInt8)
  count : Int
  sumI : Int
  sumF : F64
  sawFloat : Bool
  sawAny : Bool
  extreme : Option Literal

def Acc.new (call : AggCall) : Acc where
  func := call.func
  distinct := call.distinct
  seen := []
  count := 0
  sumI := 0
  sumF := 0
  sawFloat := false
  sawAny := false
  extreme := none

section
variable (profile : Profile) (rt : QueryRuntime) (acc : Acc) (schema : Schema) (v : Literal)

def numAsF64 (l : Literal) : F64 := (floatOf rt.toRuntime l).getD 0

/-- `literal_ord`; NULL, booleans, JSON and vectors have no order. -/
def literalOrd (rt : Runtime) (l r : Literal) : Option Ordering :=
  if l = .null ∨ r = .null then none
  else
    match compare rt .eq l r, compare rt .lt l r with
    | .ok true, _ => some .eq
    | .ok false, .ok true => some .lt
    | .ok false, .ok false => some .gt
    | _, _ => none

/-- Whether a value replaces the extreme so far. -/
def Acc.replaces : Bool :=
  match acc.extreme with
  | none => true
  | some cur =>
    match literalOrd rt.toRuntime v cur with
    | some .lt => acc.func == .min
    | some .gt => acc.func == .max
    | _ => false

def Acc.updateStar : Except DbError Acc := do
  pure { acc with count := ← addSigned profile 64 acc.count 1 }

/-- What a counted value does to the rest of the accumulator. -/
def Acc.absorb : Except DbError Acc :=
  match acc.func with
  | .count => .ok acc
  | .sum =>
    match v with
    | .int n => do pure { acc with
        sawAny := true
        sumI := ← addSigned profile 128 acc.sumI n
        sumF := rt.f64Arith .add acc.sumF (rt.f64OfInt n) }
    | other => .ok { acc with
        sawAny := true
        sawFloat := true
        sumF := rt.f64Arith .add acc.sumF (numAsF64 rt other) }
  | .avg => .ok { acc with
      sawAny := true
      sumF := rt.f64Arith .add acc.sumF (numAsF64 rt v) }
  | .min | .max => .ok (if acc.replaces rt v then { acc with extreme := some v } else acc)

/-- A value that is not NULL and not seen before. -/
def Acc.take : Except DbError Acc := do
  let acc ← acc.updateStar profile
  acc.absorb profile rt v

def Acc.update : Except DbError Acc :=
  if v = .null then .ok acc
  else if acc.distinct then
    if acc.seen.contains (encodeRow [v]) then .ok acc
    else take profile rt { acc with seen := encodeRow [v] :: acc.seen } v
  else acc.take profile rt v

def Acc.finalize : Literal :=
  match acc.func with
  | .count => .int acc.count
  | .sum =>
    if !acc.sawAny then .null
    else if acc.sawFloat then .float acc.sumF
    else .int (wrapSigned 64 acc.sumI)
  | .avg =>
    if acc.count = 0 then .null else .float (rt.f64Arith .div acc.sumF (rt.f64OfInt acc.count))
  | .min | .max => acc.extreme.getD .null

/-! ## The operator -/

def updateCall (row : Row) (acc : Acc) (call : AggCall) : Except DbError Acc :=
  match call.arg with
  | none => acc.updateStar profile
  | some arg => do acc.update profile rt (← evalQexpr rt schema row arg)

def updateCalls (row : Row) (accs : List Acc) (aggs : List AggCall) : Except DbError (List Acc) :=
  (accs.zip aggs).mapM fun (acc, call) => updateCall profile rt schema row acc call

def groupKey (groupExprs : List QExpr) (row : Row) : Except DbError Row :=
  groupExprs.mapM (evalQexpr rt schema row)

def aggregate (input : Batch) (groupExprs : List QExpr) (aggs : List AggCall) :
    Except DbError (List Row) := do
  let groups ← input.rows.foldlM (fun groups row => do
    let key ← groupKey rt input.schema groupExprs row
    upsert (encodeRow key) (key, aggs.map Acc.new)
      (fun (key, accs) => do pure (key, ← updateCalls profile rt input.schema row accs aggs))
        groups) []
  if groups.isEmpty && groupExprs.isEmpty then
    pure [aggs.map fun call => (Acc.new call).finalize rt]
  else pure (groups.map fun (_, key, accs) => key ++ accs.map (Acc.finalize rt))

/-! ## The window function -/

def windowAdd (acc val : Literal) : Except DbError Literal :=
  match acc, val with
  | .null, _ => .ok val
  | _, .null => .ok acc
  | .int a, .int b => do pure (.int (← addSigned profile 64 a b))
  | .float a, .float b => .ok (.float (rt.f64Arith .add a b))
  | .int a, .float b => .ok (.float (rt.f64Arith .add (rt.f64OfInt a) b))
  | .float a, .int b => .ok (.float (rt.f64Arith .add a (rt.f64OfInt b)))
  | .decimal am as, .decimal bm bs =>
    if as = bs then do pure (.decimal (← addSigned profile 128 am bm) as)
    else .ok (.float (rt.f64Arith .add (rt.f64OfDecimal am as) (rt.f64OfDecimal bm bs)))
  | acc, val => .error (.sqlUnsupported
      ("SUM/AVG window function requires numeric values, got " ++ rt.debug acc ++ " + " ++
        rt.debug val))

/-- `SUM(expr) OVER (…)` on the rows of a partition, in their order. -/
def windowSum (expr : QExpr) (partition : List Row) : Except DbError Literal :=
  partition.foldlM (fun acc row => do windowAdd profile rt acc (← evalQexpr rt schema row expr))
    .null

end

/-! ## The sum of a group -/

def IntOrNull (v : Literal) : Prop := v = .null ∨ ∃ n, InRange n ∧ v = .int n

def intsOf (vals : List Literal) : List Int :=
  vals.filterMap fun
    | .int n => some n
    | _ => none

/-- The mathematical sum, of every integer once if they are to be distinct. -/
def total (distinct : Bool) (ints : List Int) : Int :=
  if distinct then ∑ n ∈ ints.toFinset, n else ints.sum

/-- **An exact sum**: NULL without integers, else the mathematical sum if it fits 64 bits, else an
error. -/
def SumExact (distinct : Bool) (vals : List Literal) (result : Except DbError Literal) : Prop :=
  if intsOf vals = [] then result = .ok .null
  else Exactly (fits (total distinct (intsOf vals))) result

/-- The accumulator has counted at most `n` values. -/
structure Acc.Within (n : Nat) (acc : Acc) : Prop where
  count_nonneg : 0 ≤ acc.count
  count_le : acc.count ≤ n
  sumI_ge : -(n * 2 ^ 63 : Int) ≤ acc.sumI
  sumI_le : acc.sumI ≤ n * 2 ^ 63

/-- The accumulator holds the sum of the integers. -/
structure Acc.Summed (distinct : Bool) (ints : List Int) (acc : Acc) : Prop where
  func_eq : acc.func = .sum
  distinct_eq : acc.distinct = distinct
  sawFloat_eq : acc.sawFloat = false
  sawAny_eq : acc.sawAny = !ints.isEmpty
  sumI_eq : acc.sumI = total distinct ints
  seen_iff : distinct = true → ∀ n, InRange n → (encodeRow [.int n] ∈ acc.seen ↔ n ∈ ints)

variable {m : Int} {vals : List Literal}

section
variable {profile : Profile} {rt : QueryRuntime} {acc : Acc} {n : Nat} {v : Literal}

section

variable (h : acc.Within n)
include h

lemma addSigned_count (hn : n < isizeMax) :
    addSigned profile 64 acc.count 1 = .ok (acc.count + 1) := by
  have hpow : (2 : Int) ^ (64 - 1) = 9223372036854775808 := rfl
  have hlo := h.count_nonneg
  have hhi := h.count_le
  refine addSigned_of_fits (checkedSigned_eq_some.2 ⟨rfl, ?_, ?_⟩) <;> rw [hpow] <;>
    unfold isizeMax at hn <;> omega

lemma addSigned_sum (hn : n ≤ isizeMax) (hm : InRange m) :
    addSigned profile 128 acc.sumI m = .ok (acc.sumI + m) := by
  have hpow : (2 : Int) ^ (128 - 1) = 170141183460469231731687303715884105728 := rfl
  have hlo := h.sumI_ge
  have hhi := h.sumI_le
  rw [inRange_iff] at hm
  unfold i64Min i64Max at hm
  refine addSigned_of_fits (checkedSigned_eq_some.2 ⟨rfl, ?_, ?_⟩) <;> rw [hpow] <;>
    unfold isizeMax at hn <;> omega

lemma Acc.Within.succ {acc' : Acc} (hcount : acc'.count = acc.count + 1)
    (hsum : acc'.sumI = acc.sumI ∨ ∃ m, InRange m ∧ acc'.sumI = acc.sumI + m) :
    acc'.Within (n + 1) := by
  obtain ⟨h1, h2, h3, h4⟩ := h
  rcases hsum with hsum | ⟨m, hm, hsum⟩
  · constructor <;> push_cast <;> omega
  · rw [inRange_iff] at hm
    unfold i64Min i64Max at hm
    constructor <;> push_cast <;> omega

lemma Acc.Within.mono {m : Nat} (hnm : n ≤ m) : acc.Within m := by
  obtain ⟨h1, h2, h3, h4⟩ := h
  constructor <;> omega

lemma Acc.updateStar_eq (hn : n < isizeMax) :
    acc.updateStar profile = .ok { acc with count := acc.count + 1 } := by
  rw [updateStar, addSigned_count h hn]
  rfl

lemma Acc.take_sum (hn : n < isizeMax) (hm : InRange m) (hfunc : acc.func = .sum) :
    acc.take profile rt (.int m) = .ok { acc with
      count := acc.count + 1, sawAny := true
      sumI := acc.sumI + m, sumF := rt.f64Arith .add acc.sumF (rt.f64OfInt m) } := by
  rw [take, updateStar_eq h hn]
  show absorb profile rt { acc with count := acc.count + 1 } (.int m) = _
  unfold absorb
  dsimp only
  rw [hfunc]
  show (addSigned profile 128 acc.sumI m >>= _) = _
  rw [addSigned_sum h hn.le hm]
  rfl

lemma Acc.absorb_ok (hn : n ≤ isizeMax) (hv : ∀ m, v = .int m → InRange m) :
    ∃ acc', acc.absorb profile rt v = .ok acc' ∧ acc'.count = acc.count ∧
      (acc'.sumI = acc.sumI ∨ ∃ m, InRange m ∧ acc'.sumI = acc.sumI + m) := by
  unfold absorb
  split
  · exact ⟨_, rfl, rfl, .inl rfl⟩
  · split
    · next m =>
      rw [addSigned_sum h hn (hv m rfl)]
      exact ⟨_, rfl, rfl, .inr ⟨m, hv m rfl, rfl⟩⟩
    · exact ⟨_, rfl, rfl, .inl rfl⟩
  · exact ⟨_, rfl, rfl, .inl rfl⟩
  · refine ⟨_, rfl, ?_⟩
    split <;> exact ⟨rfl, .inl rfl⟩
  · refine ⟨_, rfl, ?_⟩
    split <;> exact ⟨rfl, .inl rfl⟩

lemma Acc.take_ok (hn : n < isizeMax) (hv : ∀ m, v = .int m → InRange m) :
    ∃ acc', acc.take profile rt v = .ok acc' ∧ acc'.Within (n + 1) := by
  have hcounted : Acc.Within (n + 1) { acc with count := acc.count + 1 } := h.succ rfl (.inl rfl)
  obtain ⟨acc', habsorb, hcount, hsum⟩ := absorb_ok hcounted hn hv
  refine ⟨acc', ?_, h.succ hcount hsum⟩
  rw [take, updateStar_eq h hn]
  exact habsorb

theorem Acc.update_ok (hn : n < isizeMax) (hv : ∀ m, v = .int m → InRange m) :
    ∃ acc', acc.update profile rt v = .ok acc' ∧ acc'.Within (n + 1) := by
  unfold update
  split
  · exact ⟨acc, rfl, h.mono (Nat.le_succ n)⟩
  · split
    · split
      · exact ⟨acc, rfl, h.mono (Nat.le_succ n)⟩
      · have hseen : Acc.Within n { acc with seen := encodeRow [v] :: acc.seen } :=
          ⟨h.1, h.2, h.3, h.4⟩
        exact take_ok hseen hn hv
    · exact take_ok h hn hv

end

variable {distinct : Bool} {ints : List Int}

lemma total_snoc_new (m : Int) (h : distinct = true → m ∉ ints) :
    total distinct (ints ++ [m]) = total distinct ints + m := by
  cases distinct with
  | false => simp [total]
  | true =>
    have hm : m ∉ ints.toFinset := by simpa using h rfl
    have hset : (ints ++ [m]).toFinset = insert m ints.toFinset := by
      simp
    simp only [total, if_true]
    rw [hset, Finset.sum_insert hm, add_comm]

lemma total_snoc_seen (h : m ∈ ints) : total true (ints ++ [m]) = total true ints := by
  have hset : (ints ++ [m]).toFinset = ints.toFinset := by
    ext k
    simp only [mem_toFinset, mem_append, mem_singleton]
    exact ⟨fun hk => hk.elim id fun hk => hk ▸ h, .inl⟩
  simp only [total, if_true]
  rw [hset]

theorem Acc.Summed.update {acc' : Acc} (hsum : acc.Summed distinct ints) (h : acc.Within n)
    (hn : n < isizeMax) (hv : IntOrNull v) (hupdate : acc.update profile rt v = .ok acc') :
    acc'.Summed distinct (ints ++ intsOf [v]) := by
  obtain ⟨hfunc, hdistinct, hfloat, hany, htotal, hseen⟩ := hsum
  rcases hv with rfl | ⟨m, hm, rfl⟩
  · cases hupdate
    exact ⟨hfunc, hdistinct, hfloat, by simpa [intsOf] using hany, by simpa [intsOf] using htotal,
      by simpa [intsOf] using hseen⟩
  · have hints : ints ++ intsOf [.int m] = ints ++ [m] := rfl
    have hnonempty : (!(ints ++ [m]).isEmpty) = true := by simp
    rw [hints]
    rw [update, if_neg (by simp)] at hupdate
    cases distinct with
    | false =>
      have hadd : total false (ints ++ [m]) = total false ints + m := total_snoc_new m (by simp)
      rw [if_neg (by simp [hdistinct]), take_sum h hn hm hfunc] at hupdate
      cases hupdate
      exact ⟨hfunc, hdistinct, hfloat, hnonempty.symm, by rw [hadd, ← htotal], nofun⟩
    | true =>
      have hmem := hseen rfl m hm
      rw [if_pos hdistinct] at hupdate
      split at hupdate
      · next hdup =>
        cases hupdate
        have hin := hmem.1 (contains_iff_mem.1 hdup)
        refine ⟨hfunc, hdistinct, hfloat, ?_, by rw [total_snoc_seen hin, htotal], fun _ k hk => ?_⟩
        · rw [hnonempty, hany]
          simpa using ne_nil_of_mem hin
        · rw [hseen rfl k hk, mem_append, mem_singleton]
          exact ⟨.inl, fun hk' => hk'.elim id fun heq => heq ▸ hin⟩
      · next hnew =>
        have hwithin : Acc.Within n { acc with seen := encodeRow [.int m] :: acc.seen } :=
          ⟨h.1, h.2, h.3, h.4⟩
        rw [take_sum hwithin hn hm hfunc] at hupdate
        cases hupdate
        refine ⟨hfunc, hdistinct, hfloat, hnonempty.symm, ?_, fun _ k hk => ?_⟩
        · rw [total_snoc_new m fun _ hin => hnew (contains_iff_mem.2 (hmem.2 hin)), ← htotal]
        · rw [mem_cons, hseen rfl k hk, mem_append, mem_singleton, or_comm]
          exact or_congr_right ⟨encodeRow_int_inj hk hm, fun heq => heq ▸ rfl⟩

lemma Acc.Summed.finalize_eq (h : acc.Summed distinct ints) :
    acc.finalize rt = if ints = [] then .null else .int (wrapSigned 64 (total distinct ints)) := by
  rw [finalize, h.func_eq]
  dsimp only
  rw [h.sawAny_eq, h.sawFloat_eq, h.sumI_eq]
  cases ints with
  | nil => rfl
  | cons m ints => rfl

lemma wrapSigned_of_inRange (h : InRange m) : wrapSigned 64 m = m := by
  rw [inRange_iff] at h
  unfold i64Min i64Max at h
  exact Int.bmod_eq_of_le_mul_two (by omega) (by omega)

lemma fits_of_inRange (h : InRange m) : fits m = some (.int m) := by
  rw [fits, h]
  rfl

lemma fits_of_not_inRange (h : ¬InRange m) : fits m = none := by
  rw [fits, Option.map_eq_none_iff, Option.eq_none_iff_forall_ne_some]
  intro k hk
  obtain ⟨rfl, -⟩ := checkedSigned_eq_some.1 hk
  exact h hk

lemma sumExact_wrapped_iff : SumExact distinct vals (.ok (if intsOf vals = [] then .null
        else .int (wrapSigned 64 (total distinct (intsOf vals))))) ↔
      InRange (total distinct (intsOf vals)) := by
  unfold SumExact
  split
  · next hempty =>
    rw [hempty]
    cases distinct <;> decide
  · by_cases hfit : InRange (total distinct (intsOf vals))
    · rw [fits_of_inRange hfit, wrapSigned_of_inRange hfit]
      exact ⟨fun _ => hfit, fun _ => rfl⟩
    · rw [fits_of_not_inRange hfit]
      refine ⟨?_, fun h => absurd h hfit⟩
      rintro ⟨e, he, -⟩
      cases he

lemma not_sumExact_panicked : ¬SumExact distinct vals (.error .panicked) := by
  unfold SumExact Exactly
  intro h
  split at h
  · cases h
  · split at h
    · cases h
    · obtain ⟨e, he, hne⟩ := h
      cases he
      exact hne rfl

end

/-! ## The operator, group by group -/

/-- An input of the operator: its expressions evaluate, and it sums integers. -/
structure SumInput (rt : QueryRuntime) where
  input : Batch
  groupExprs : List QExpr
  aggs : List AggCall
  length_le : input.rows.length ≤ isizeMax
  keys : ∀ row ∈ input.rows, ∃ key, groupKey rt input.schema groupExprs row = .ok key
  args : ∀ row ∈ input.rows, ∀ call ∈ aggs, ∀ arg, call.arg = some arg →
    ∃ v, evalQexpr rt input.schema row arg = .ok v ∧ (∀ m, v = .int m → InRange m) ∧
      (call.func = .sum → IntOrNull v)
  sums : ∀ call ∈ aggs, call.func = .sum → call.arg.isSome

namespace SumInput
variable {rt : QueryRuntime} (s : SumInput rt)

def keyOf (row : Row) : Row := (groupKey rt s.input.schema s.groupExprs row).toOption.getD []

def argOf (call : AggCall) (row : Row) : Literal :=
  (call.arg.bind fun arg => (evalQexpr rt s.input.schema row arg).toOption).getD .null

/-- The groups, by their keys; without `GROUP BY` there is one even of no rows. -/
def groupKeys : List (List UInt8) :=
  if s.input.rows = [] ∧ s.groupExprs = [] then [[]]
  else firstKeys (s.input.rows.map fun row => encodeRow (s.keyOf row))

def groupRows (key : List UInt8) : List Row :=
  s.input.rows.filter fun row => encodeRow (s.keyOf row) = key

def valuesOf (call : AggCall) (key : List UInt8) : List Literal :=
  (s.groupRows key).map (s.argOf call)

/-- The `SUM`s in the row of a group are exact. -/
def RowExact (row : Row) (key : List UInt8) : Prop :=
  ∀ (j : Nat) call, s.aggs[j]? = some call → call.func = .sum →
    ∃ v, row[s.groupExprs.length + j]? = some v ∧
      SumExact call.distinct (s.valuesOf call key) (.ok v)

/-- The sums of a group fit 64 bits. -/
def GroupFits (key : List UInt8) : Prop :=
  ∀ call ∈ s.aggs, call.func = .sum →
    InRange (total call.distinct (intsOf (s.valuesOf call key)))

/-- **The operator is exact**: every `SUM` of every group is, or it fails because one does not
fit. -/
def AggregateExact (result : Except DbError (List Row)) : Prop :=
  match result with
  | .ok rows => List.Forall₂ s.RowExact rows s.groupKeys
  | .error e => e ≠ .panicked ∧ ∃ key ∈ s.groupKeys, ¬s.GroupFits key

/-- An accumulator after some rows of a group. -/
structure Good (rows : List Row) (acc : Acc) (call : AggCall) : Prop where
  within : acc.Within rows.length
  summed : call.func = .sum → acc.Summed call.distinct (intsOf (rows.map (s.argOf call)))

variable {s} {profile : Profile} {rows : List Row} {row : Row}

lemma updateCall_good {acc : Acc} {call : AggCall} (hcall : call ∈ s.aggs)
    (hrow : row ∈ s.input.rows) (hlen : rows.length < isizeMax) (h : s.Good rows acc call) :
    ∃ acc', updateCall profile rt s.input.schema row acc call = .ok acc' ∧
      s.Good (rows ++ [row]) acc' call := by
  unfold updateCall
  cases harg : call.arg with
  | none =>
    refine ⟨_, Acc.updateStar_eq h.within hlen, ?_, fun hsum => ?_⟩
    · rw [length_append]
      exact h.within.succ rfl (.inl rfl)
    · have hsome := s.sums call hcall hsum
      rw [harg] at hsome
      cases hsome
  | some arg =>
    obtain ⟨v, hv, hint, hnull⟩ := s.args row hrow call hcall arg harg
    have hargOf : s.argOf call row = v := by
      rw [argOf, harg]
      show ((evalQexpr rt s.input.schema row arg).toOption).getD .null = v
      rw [hv]
      rfl
    obtain ⟨acc', hupdate, hwithin⟩ := Acc.update_ok h.within hlen hint
    refine ⟨acc', ?_, ?_, fun hsum => ?_⟩
    · show (evalQexpr rt s.input.schema row arg >>= _) = _
      rw [hv]
      exact hupdate
    · rw [length_append]
      exact hwithin
    · have hsummed := (h.summed hsum).update h.within hlen (hnull hsum) hupdate
      rwa [map_append, map_singleton, hargOf, intsOf, filterMap_append]

variable {accs : List Acc} {key : List UInt8}

lemma updateCalls_good {aggs : List AggCall} (haggs : ∀ call ∈ aggs, call ∈ s.aggs)
    (hrow : row ∈ s.input.rows) (hlen : rows.length < isizeMax)
    (h : List.Forall₂ (s.Good rows) accs aggs) :
    ∃ accs', updateCalls profile rt s.input.schema row accs aggs = .ok accs' ∧
      List.Forall₂ (s.Good (rows ++ [row])) accs' aggs := by
  induction h with
  | nil => exact ⟨[], rfl, .nil⟩
  | @cons acc call accs aggs hgood _ ih =>
    obtain ⟨acc', hacc, hgood'⟩ := updateCall_good (haggs call (by simp)) hrow hlen hgood
    obtain ⟨accs', haccs, hgoods⟩ := ih fun c hc => haggs c (mem_cons_of_mem _ hc)
    refine ⟨acc' :: accs', ?_, .cons hgood' hgoods⟩
    rw [updateCalls] at haccs
    rw [updateCalls, zip_cons_cons, mapM_cons]
    dsimp only
    rw [hacc, haccs]
    rfl

/-- What the rows of a group do to its entry. -/
def step (profile : Profile) (entry : Row × List Acc) (row : Row) :
    Except DbError (Row × List Acc) :=
  do pure (entry.1, ← updateCalls profile rt s.input.schema row entry.2 s.aggs)

lemma new_good (call : AggCall) : s.Good [] (Acc.new call) call where
  within := ⟨le_rfl, le_rfl, le_rfl, le_rfl⟩
  summed hsum := {
    func_eq := hsum
    distinct_eq := rfl
    sawFloat_eq := rfl
    sawAny_eq := rfl
    sumI_eq := by cases call.distinct <;> rfl
    seen_iff := fun _ n _ => by simp [Acc.new, intsOf] }

theorem group_good (key : Row) (hrows : ∀ row ∈ rows, row ∈ s.input.rows)
    (hlen : rows.length ≤ isizeMax) :
    ∃ accs, rows.foldlM (s.step profile) (key, s.aggs.map Acc.new) = .ok (key, accs) ∧
      List.Forall₂ (s.Good rows) accs s.aggs := by
  induction rows using reverseRecOn with
  | nil =>
    refine ⟨_, rfl, ?_⟩
    rw [forall₂_map_left_iff]
    exact forall₂_same.2 fun call _ => new_good call
  | append_singleton rows row ih =>
    rw [length_append, length_singleton] at hlen
    obtain ⟨accs, hrun, hgood⟩ := ih (fun r hr => hrows r (mem_append_left _ hr)) (by omega)
    obtain ⟨accs', hstep, hgood'⟩ := updateCalls_good (fun _ h => h)
      (hrows row (by simp)) (by omega) hgood
    refine ⟨accs', ?_, hgood'⟩
    rw [foldlM_append, hrun]
    refine foldlM_singleton.2 ?_
    rw [step, hstep]
    rfl

structure GroupRow (row : Row) (key : List UInt8) : Prop where
  split : ∃ keyVals accs, row = keyVals ++ accs.map (Acc.finalize rt) ∧
    keyVals.length = s.groupExprs.length ∧ List.Forall₂ (s.Good (s.groupRows key)) accs s.aggs

lemma groupKey_eq (hrow : row ∈ s.input.rows) :
    groupKey rt s.input.schema s.groupExprs row = .ok (s.keyOf row) := by
  obtain ⟨key, hkey⟩ := s.keys row hrow
  rw [keyOf, hkey]
  rfl

lemma length_keyOf (hrow : row ∈ s.input.rows) : (s.keyOf row).length = s.groupExprs.length :=
  (forall₂_of_mapM (groupKey_eq hrow)).length_eq.symm

lemma aggregate_eq (s : SumInput rt) (profile : Profile) :
    aggregate profile rt s.input s.groupExprs s.aggs = (do
      let groups ← groupFold (fun row => encodeRow (s.keyOf row))
        (fun row => (s.keyOf row, s.aggs.map Acc.new)) (s.step profile) s.input.rows
      if groups.isEmpty && s.groupExprs.isEmpty then
        pure [s.aggs.map fun call => (Acc.new call).finalize rt]
      else pure (groups.map fun (_, key, accs) => key ++ accs.map (Acc.finalize rt))) := by
  unfold aggregate groupFold
  congr 1
  refine foldlM_congr (fun row hrow groups => ?_) []
  dsimp only
  rw [groupKey_eq hrow]
  rfl

lemma groupRow_of_entry {entries : List (List UInt8 × Row × List Acc)} {keyVals : Row}
    (h : Grouped (fun row => encodeRow (s.keyOf row)) (fun row => (s.keyOf row, s.aggs.map Acc.new))
      (s.step profile) s.input.rows entries) (hentry : (key, keyVals, accs) ∈ entries) :
    s.GroupRow (keyVals ++ accs.map (Acc.finalize rt)) key := by
  obtain ⟨b, bs, hfilter, hfold⟩ := h.folds _ _ hentry
  have hrows : ∀ row ∈ b :: bs, row ∈ s.input.rows := by
    intro row hrow
    rw [← hfilter] at hrow
    exact (mem_filter.1 hrow).1
  have hlen : (b :: bs).length ≤ isizeMax := by
    rw [← hfilter]
    exact Nat.le_trans (length_filter_le _ _) s.length_le
  obtain ⟨accs', hrun, hgood⟩ := group_good (s.keyOf b) hrows hlen
  rw [hrun] at hfold
  cases hfold
  refine ⟨_, _, rfl, length_keyOf (hrows b mem_cons_self), ?_⟩
  rwa [groupRows, hfilter]

theorem aggregate_groups (s : SumInput rt) (profile : Profile) :
    ∃ rows, aggregate profile rt s.input s.groupExprs s.aggs = .ok rows ∧
      List.Forall₂ s.GroupRow rows s.groupKeys := by
  have hfold : ∃ entries, groupFold (fun row => encodeRow (s.keyOf row))
        (fun row => (s.keyOf row, s.aggs.map Acc.new)) (s.step profile) s.input.rows = .ok entries ∧
      Grouped (fun row => encodeRow (s.keyOf row)) (fun row => (s.keyOf row, s.aggs.map Acc.new))
        (s.step profile) s.input.rows entries := by
    refine groupFold_grouped ?_ s.length_le fun _ h => h
    intro b bs hlen hrows
    obtain ⟨accs, hrun, -⟩ := group_good (s.keyOf b) hrows hlen
    exact ⟨_, hrun⟩
  obtain ⟨entries, hrun, hgrouped⟩ := hfold
  have hempty : entries = [] ↔ s.input.rows = [] := by
    have hkeys := hgrouped.keys
    constructor
    · rintro rfl
      refine eq_nil_iff_forall_not_mem.2 fun row hrow => ?_
      have hmem := mem_firstKeys.2 (mem_map_of_mem (f := fun row => encodeRow (s.keyOf row)) hrow)
      rw [← hkeys] at hmem
      cases hmem
    · intro hrows
      rw [hrows] at hkeys
      exact map_eq_nil_iff.1 hkeys
  rw [aggregate_eq, hrun]
  show ∃ rows, (if entries.isEmpty && s.groupExprs.isEmpty then _ else _) = _ ∧ _
  unfold groupKeys
  by_cases hnone : s.input.rows = [] ∧ s.groupExprs = []
  · rw [if_pos hnone, if_pos (by simp [hempty.2 hnone.1, hnone.2])]
    refine ⟨_, rfl, .cons ⟨[], s.aggs.map Acc.new, ?_, ?_, ?_⟩ .nil⟩
    · rw [map_map]
      rfl
    · rw [hnone.2]
      rfl
    · rw [groupRows, hnone.1, forall₂_map_left_iff]
      exact forall₂_same.2 fun call _ => new_good call
  · rw [if_neg hnone, if_neg (by simpa [hempty] using hnone), ← hgrouped.keys]
    refine ⟨_, rfl, ?_⟩
    rw [forall₂_map_left_iff, forall₂_map_right_iff]
    refine forall₂_same.2 ?_
    rintro ⟨key, keyVals, accs⟩ hentry
    exact groupRow_of_entry hgrouped hentry

lemma GroupRow.exact_iff (h : s.GroupRow row key) : s.RowExact row key ↔ s.GroupFits key := by
  obtain ⟨keyVals, accs, rfl, hlen, hgood⟩ := h.split
  have hval : ∀ (j : Nat) call, s.aggs[j]? = some call → call.func = .sum →
      (keyVals ++ accs.map (Acc.finalize rt))[s.groupExprs.length + j]? =
        some (if intsOf (s.valuesOf call key) = [] then .null
          else .int (wrapSigned 64 (total call.distinct (intsOf (s.valuesOf call key))))) := by
    intro j call hcall hsum
    obtain ⟨hlength, hget⟩ := forall₂_iff_get.1 hgood
    obtain ⟨hj, rfl⟩ := List.getElem?_eq_some_iff.1 hcall
    have hj' : j < accs.length := hlength ▸ hj
    rw [getElem?_append_right (by omega), hlen, Nat.add_sub_cancel_left, getElem?_map,
      getElem?_eq_getElem hj']
    exact congrArg some ((hget j hj' hj).summed hsum).finalize_eq
  constructor
  · intro hexact call hcall hsum
    obtain ⟨j, hj⟩ := getElem?_of_mem hcall
    obtain ⟨v, hv, hv'⟩ := hexact j call hj hsum
    rw [hval j call hj hsum] at hv
    cases hv
    exact sumExact_wrapped_iff.1 hv'
  · intro hfits j call hj hsum
    exact ⟨_, hval j call hj hsum, sumExact_wrapped_iff.2 (hfits call (mem_of_getElem? hj) hsum)⟩

theorem aggregateExact_iff (s : SumInput rt) (profile : Profile) :
    s.AggregateExact (aggregate profile rt s.input s.groupExprs s.aggs) ↔
      ∀ key ∈ s.groupKeys, s.GroupFits key := by
  obtain ⟨rows, hrun, hrows⟩ := s.aggregate_groups profile
  rw [hrun]
  exact forall₂_iff_forall_mem hrows fun _ _ h => h.exact_iff

end SumInput

/-! ## The window function -/

/-- A partition on which the argument of a window `SUM` is an integer or NULL. -/
structure WindowInput (rt : QueryRuntime) where
  schema : Schema
  expr : QExpr
  partition : List Row
  values : List Literal
  evaluates : List.Forall₂ (fun row v => evalQexpr rt schema row expr = .ok v) partition values
  integers : ∀ v ∈ values, IntOrNull v

/-- What has to fit 64 bits: the sum, and in a debug build every sum on the way. -/
def WindowFits (profile : Profile) (ints : List Int) : Prop :=
  match profile with
  | .release => InRange ints.sum
  | .debug => ∀ n, InRange (ints.take n).sum

section
variable {profile : Profile} {rt : QueryRuntime}

lemma windowSum_eq (w : WindowInput rt) : windowSum profile rt w.schema w.expr w.partition =
      w.values.foldlM (windowAdd profile rt) .null := by
  have hfold : ∀ {rows : List Row} {vals : List Literal}, List.Forall₂ (fun row v =>
      evalQexpr rt w.schema row w.expr = .ok v) rows vals → ∀ acc,
      rows.foldlM (fun acc row => do windowAdd profile rt acc (← evalQexpr rt w.schema row w.expr))
        acc = vals.foldlM (windowAdd profile rt) acc := by
    intro rows vals h
    induction h with
    | nil => exact fun _ => rfl
    | cons hv _ ih =>
      intro acc
      rw [foldlM_cons, hv]
      congr 1
      funext acc'
      exact ih acc'
  exact hfold w.evaluates .null

def windowAcc (ints : List Int) : Literal :=
  if ints = [] then .null else .int (wrapSigned 64 ints.sum)

lemma addSigned_of_not_fits {a b : Int} (h : ¬InRange (a + b)) : addSigned profile 64 a b =
      match profile with
      | .debug => .error .panicked
      | .release => .ok (wrapSigned 64 (a + b)) := by
  have hnone : checkedSigned 64 (a + b) = none := by
    simpa [fits] using fits_of_not_inRange h
  unfold addSigned signedOp
  rw [hnone]
  cases profile <;> rfl

lemma windowAdd_null (acc : Literal) : windowAdd profile rt acc .null = .ok acc := by
  cases acc <;> rfl

variable {ints : List Int}

lemma windowAdd_int (hm : InRange m)
    (h : profile = .release ∨ InRange (wrapSigned 64 ints.sum + m)) :
    windowAdd profile rt (windowAcc ints) (.int m) = .ok (windowAcc (ints ++ [m])) := by
  have hnew : windowAcc (ints ++ [m]) = .int (wrapSigned 64 (wrapSigned 64 ints.sum + m)) := by
    rw [windowAcc, if_neg (by simp), sum_append, sum_singleton]
    unfold wrapSigned
    rw [Int.bmod_add_bmod]
  rw [hnew, windowAcc]
  split
  · next hempty =>
    rw [hempty]
    show Except.ok (Literal.int m) = .ok (.int (wrapSigned 64 (0 + m)))
    rw [zero_add, wrapSigned_of_inRange hm]
  · show (do pure (Literal.int (← addSigned profile 64 (wrapSigned 64 ints.sum) m))) = _
    by_cases hfit : InRange (wrapSigned 64 ints.sum + m)
    · rw [addSigned_of_fits hfit, wrapSigned_of_inRange hfit]
      rfl
    · rw [addSigned_of_not_fits hfit, h.resolve_right hfit]
      rfl

lemma windowAdd_panics (hm : InRange m) (h : ¬InRange (wrapSigned 64 ints.sum + m)) :
    windowAdd .debug rt (windowAcc ints) (.int m) = .error .panicked := by
  rw [windowAcc]
  split
  · next hempty =>
    rw [hempty] at h
    refine absurd ?_ h
    show InRange (0 + m)
    rwa [zero_add]
  · show (do pure (Literal.int (← addSigned .debug 64 (wrapSigned 64 ints.sum) m))) = _
    rw [addSigned_of_not_fits h]
    rfl

lemma intsOf_append_singleton {v : Literal} :
    intsOf (vals ++ [v]) = intsOf vals ++ intsOf [v] := filterMap_append

lemma window_release (hvals : ∀ v ∈ vals, IntOrNull v) :
    vals.foldlM (windowAdd .release rt) .null = .ok (windowAcc (intsOf vals)) := by
  induction vals using reverseRecOn with
  | nil => rfl
  | append_singleton vals v ih =>
    rw [foldlM_append, ih fun u hu => hvals u (mem_append_left _ hu),
      intsOf_append_singleton]
    refine foldlM_singleton.2 ?_
    rcases hvals v (by simp) with rfl | ⟨m, hm, rfl⟩
    · rw [windowAdd_null]
      simp [intsOf]
    · exact windowAdd_int hm (.inl rfl)

lemma windowFits_debug_append :
    WindowFits .debug (ints ++ [m]) ↔ WindowFits .debug ints ∧ InRange (ints.sum + m) := by
  constructor
  · intro h
    refine ⟨fun n => ?_, ?_⟩
    · rcases Nat.le_total n ints.length with hn | hn
      · rw [← take_append_of_le_length hn]
        exact h n
      · rw [take_of_length_le hn]
        have hall := h ints.length
        rwa [take_left'] at hall
        rfl
    · have hall := h (ints.length + 1)
      rwa [take_of_length_le (by simp), sum_append, sum_singleton] at hall
  · rintro ⟨h, hlast⟩ n
    rcases Nat.lt_or_ge ints.length n with hn | hn
    · rwa [take_of_length_le (by simp; omega), sum_append, sum_singleton]
    · rw [take_append_of_le_length hn]
      exact h n

lemma WindowFits.sum (h : WindowFits profile ints) : InRange ints.sum := by
  cases profile with
  | release => exact h
  | debug =>
    have hall := h ints.length
    rwa [take_length] at hall

/-- A debug build adds every value, or panics at the first sum that does not fit. -/
lemma window_debug (hvals : ∀ v ∈ vals, IntOrNull v) : (WindowFits .debug (intsOf vals) ∧
      vals.foldlM (windowAdd .debug rt) .null = .ok (windowAcc (intsOf vals))) ∨
    (¬WindowFits .debug (intsOf vals) ∧
      vals.foldlM (windowAdd .debug rt) .null = .error .panicked) := by
  induction vals using reverseRecOn with
  | nil => exact .inl ⟨fun n => by simp [intsOf]; decide, rfl⟩
  | append_singleton vals v ih =>
    rw [foldlM_append, intsOf_append_singleton]
    rcases hvals v (by simp) with rfl | ⟨m, hm, rfl⟩
    · have hsame : intsOf vals ++ intsOf [.null] = intsOf vals := append_nil _
      rw [hsame]
      refine (ih fun u hu => hvals u (mem_append_left _ hu)).imp ?_ ?_
      · rintro ⟨hfits, hrun⟩
        rw [hrun]
        exact ⟨hfits, foldlM_singleton.2 (windowAdd_null _)⟩
      · rintro ⟨hfits, hrun⟩
        rw [hrun]
        exact ⟨hfits, rfl⟩
    · show (WindowFits .debug (intsOf vals ++ [m]) ∧
        _ = Except.ok (windowAcc (intsOf vals ++ [m]))) ∨
        (¬WindowFits .debug (intsOf vals ++ [m]) ∧ _)
      rw [windowFits_debug_append]
      rcases ih fun u hu => hvals u (mem_append_left _ hu) with ⟨hfits, hrun⟩ | ⟨hfits, hrun⟩
      · rw [hrun]
        have hsum := wrapSigned_of_inRange hfits.sum
        by_cases hfit : InRange ((intsOf vals).sum + m)
        · exact .inl ⟨⟨hfits, hfit⟩, foldlM_singleton.2 (windowAdd_int hm (.inr (by rwa [hsum])))⟩
        · refine .inr ⟨fun h => hfit h.2, ?_⟩
          show ([Literal.int m].foldlM (windowAdd .debug rt) (windowAcc (intsOf vals))) = _
          rw [foldlM_cons, windowAdd_panics hm (by rwa [hsum])]
          rfl
      · rw [hrun]
        exact .inr ⟨fun h => hfits h.1, rfl⟩

theorem windowExact_iff (w : WindowInput rt) (profile : Profile) :
    SumExact false w.values (windowSum profile rt w.schema w.expr w.partition) ↔
      WindowFits profile (intsOf w.values) := by
  rw [windowSum_eq]
  cases profile with
  | release =>
    rw [window_release w.integers]
    exact sumExact_wrapped_iff
  | debug =>
    rcases window_debug w.integers with ⟨hfits, hrun⟩ | ⟨hfits, hrun⟩
    · rw [hrun]
      exact ⟨fun _ => hfits, fun _ => sumExact_wrapped_iff.2 hfits.sum⟩
    · rw [hrun]
      exact ⟨fun h => absurd h not_sumExact_panicked, fun h => absurd h hfits⟩

end

/-- **Sums**: the aggregate operator is exact if and only if every sum of every group fits 64 bits,
and the window function if and only if the sums it forms do. -/
theorem sums_exact_iff {rt : QueryRuntime} (profile : Profile) (s : SumInput rt)
    (w : WindowInput rt) :
    (s.AggregateExact (aggregate profile rt s.input s.groupExprs s.aggs) ↔
      ∀ key ∈ s.groupKeys, s.GroupFits key) ∧
    (SumExact false w.values (windowSum profile rt w.schema w.expr w.partition) ↔
      WindowFits profile (intsOf w.values)) :=
  ⟨s.aggregateExact_iff profile, windowExact_iff w profile⟩

/-- `SELECT SUM(x)` over the largest integer and one. -/
def maxPlusOne : SumInput default where
  input := { schema := [⟨"t", "x", .int64⟩], rows := [[.int i64Max], [.int 1]] }
  groupExprs := []
  aggs := [⟨.sum, some (.column none "x"), false⟩]
  length_le := by decide
  keys := fun row _ => ⟨[], rfl⟩
  args := by
    simp only [forall_mem_cons, not_mem_nil, false_imp_iff, implies_true, and_true]
    refine ⟨?_, ?_⟩
    · rintro arg ⟨⟩
      exact ⟨.int i64Max, rfl, by rintro m ⟨⟩; decide, fun _ => .inr ⟨_, by decide, rfl⟩⟩
    · rintro arg ⟨⟩
      exact ⟨.int 1, rfl, by rintro m ⟨⟩; decide, fun _ => .inr ⟨_, by decide, rfl⟩⟩
  sums := by decide

/-- `SUM(x) OVER ()` over the largest integer and one. -/
def maxPlusOneOver : WindowInput default where
  schema := [⟨"t", "x", .int64⟩]
  expr := .column none "x"
  partition := [[.int i64Max], [.int 1]]
  values := [.int i64Max, .int 1]
  evaluates := .cons rfl (.cons rfl .nil)
  integers := by
    simp only [forall_mem_cons, not_mem_nil, false_imp_iff, implies_true, and_true]
    exact ⟨.inr ⟨_, by decide, rfl⟩, .inr ⟨_, by decide, rfl⟩⟩

/-- Both sums are `2 ^ 63`, which does not fit; a release build returns the least integer for both,
a debug build panics for the second. -/
theorem maxPlusOne_wraps :
    aggregate .release default maxPlusOne.input maxPlusOne.groupExprs maxPlusOne.aggs =
      .ok [[.int i64Min]] ∧ ¬maxPlusOne.AggregateExact (.ok [[.int i64Min]]) ∧
    windowSum .release default maxPlusOneOver.schema maxPlusOneOver.expr maxPlusOneOver.partition =
      .ok (.int i64Min) ∧ ¬SumExact false maxPlusOneOver.values (.ok (.int i64Min)) ∧
    windowSum .debug default maxPlusOneOver.schema maxPlusOneOver.expr maxPlusOneOver.partition =
      .error .panicked ∧ ¬SumExact false maxPlusOneOver.values (.error .panicked) := by
  have hwrong : ¬SumExact false [.int i64Max, .int 1] (.ok (.int i64Min)) := by
    rintro ⟨e, he, -⟩
    cases he
  refine ⟨rfl, ?_, rfl, hwrong, rfl, not_sumExact_panicked⟩
  intro h
  have hrow : maxPlusOne.RowExact [.int i64Min] [] := by
    cases h with
    | cons hrow _ => exact hrow
  obtain ⟨v, hv, hexact⟩ := hrow 0 _ rfl rfl
  cases hv
  exact hwrong hexact

end UniDb.Query
