import UniDb.Lib.Text
import UniDb.Sql.Runtime

/-!
# Dates and times (`sql/datetime.rs`)

Parsing of the temporal text forms: first the fields, which are `i64` values, then arithmetic on
them. Out of range the arithmetic wraps around in a release build and panics in a debug build.

* `noPanic_parseTimestamp_iff`, `noPanic_parseDate_iff`, `noPanic_parseTime_iff`: a parser panics
  only in a debug build, on fields where the exact result of an operation does not fit.
-/

namespace UniDb.Datetime

open Text

def microsPerSec : Int := 1000000

def secsPerDay : Int := 86400

/-- Hours, minutes, seconds and microseconds as they are parsed. A field may be negative. -/
structure Clock where
  hh : Int
  mm : Int
  ss : Int
  micros : Int

section
variable (profile : Profile)

def i64 (n : Int) : Except DbError Int := signedOp profile 64 n

/-- The day of the year, from March on; of a real month and day it is in range. -/
def dayOfYear (m d : Int) : Int :=
  (153 * (if m > 2 then m - 3 else m + 9) + 2).tdiv 5 + d - 1

def daysFromCivil (y m d : Int) : Except DbError Int := do
  let y ← i64 profile (if m ≤ 2 then y - 1 else y)
  let era := (← i64 profile (if y ≥ 0 then y else y - 399)).tdiv 400
  let yoe ← i64 profile (y - (← i64 profile (era * 400)))
  let doe ← i64 profile (yoe * 365)
  let doe ← i64 profile (doe + yoe.tdiv 4)
  let doe ← i64 profile (doe - yoe.tdiv 100)
  let doe ← i64 profile (doe + dayOfYear m d)
  let days ← i64 profile (era * 146097)
  let days ← i64 profile (days + doe)
  i64 profile (days - 719468)

/-- The microseconds of a day count and a time of day. `parse_time` has no days to add. -/
def clockMicros (days : Int) (c : Clock) : Except DbError Int := do
  let secs ← i64 profile (days * secsPerDay)
  let secs ← i64 profile (secs + (← i64 profile (c.hh * 3600)))
  let secs ← i64 profile (secs + (← i64 profile (c.mm * 60)))
  let secs ← i64 profile (secs + c.ss)
  i64 profile ((← i64 profile (secs * microsPerSec)) + c.micros)

end

def isLeap (y : Int) : Bool :=
  (y.tmod 4 == 0 && y.tmod 100 != 0) || y.tmod 400 == 0

def daysInMonth (y m : Int) : Int :=
  if m = 1 ∨ m = 3 ∨ m = 5 ∨ m = 7 ∨ m = 8 ∨ m = 10 ∨ m = 12 then 31
  else if m = 4 ∨ m = 6 ∨ m = 9 ∨ m = 11 then 30
  else if m = 2 then (if isLeap y then 29 else 28)
  else 0

section
variable (rt : Runtime)

def parseUint (s : List Char) : Except DbError Int :=
  match parseI64 s with
  | some n => .ok n
  | none => .error (.sqlPlan ("invalid timestamp field: " ++ rt.debugStr (String.ofList s)))

def parseFraction (frac : List Char) (input : String) : Except DbError Int :=
  if frac.isEmpty then .ok 0
  else if frac.length > 6 || !frac.all Char.isDigit then
    .error (.sqlPlan ("invalid fractional seconds in timestamp " ++ rt.debugStr input ++
      " (max 6 digits)"))
  else do
    let micros ← parseUint rt frac
    pure (micros * 10 ^ (6 - frac.length))

/-- The three fields of a `-`-separated date, or `bad` when there are not three of them. -/
def dateFields (s : List Char) (bad : DbError) : Except DbError (Int × Int × Int) :=
  match s.splitOn '-' with
  | [y, mo, d] => do
    let y ← parseUint rt y
    let mo ← parseUint rt mo
    let d ← parseUint rt d
    pure (y, mo, d)
  | _ => .error bad

/-- The two or three fields of a `:`-separated time of day, or `bad`. -/
def timeFields (hms : List Char) (bad : DbError) : Except DbError (Int × Int × Int) :=
  match hms.splitOn ':' with
  | [h, m, s] => do
    let h ← parseUint rt h
    let m ← parseUint rt m
    let s ← parseUint rt s
    pure (h, m, s)
  | [h, m] => do
    let h ← parseUint rt h
    let m ← parseUint rt m
    pure (h, m, 0)
  | _ => .error bad

/-- Hours, minutes and seconds before the first dot, microseconds after it; `badFields` and
`badTime` are the errors of a wrong number of fields and of a field too large. -/
def timeOfDay (s : List Char) (input : String) (badFields badTime : DbError) :
    Except DbError Clock := do
  let (hms, frac) := (splitOnce (· == '.') s).getD (s, [])
  let (hh, mm, ss) ← timeFields rt hms badFields
  if hh > 23 ∨ mm > 59 ∨ ss > 59 then .error badTime
  else
    let micros ← parseFraction rt frac input
    pure { hh, mm, ss, micros }

/-- The fields of a timestamp: year, month and day of a real date, and a time of day. -/
def timestampFields (input : String) : Except DbError ((Int × Int × Int) × Clock) := do
  let s := trimEnd (stripSuffixChar 'Z' (trim input.toList))
  let (datePart, timePart) :=
    match splitOnce (fun c => c == 'T' || c == ' ') s with
    | some (date, time) => (date, trim time)
    | none => (s, [])
  let (y, mo, d) ← dateFields rt datePart
    (.sqlPlan ("invalid timestamp " ++ rt.debugStr input ++
      ": expected 'YYYY-MM-DD[ HH:MM:SS[.ffffff]]'"))
  if ¬(1 ≤ mo ∧ mo ≤ 12) ∨ d < 1 ∨ d > daysInMonth y mo then
    .error (.sqlPlan ("invalid timestamp " ++ rt.debugStr input ++ ": " ++ padInt 4 y ++ "-" ++
      padInt 2 mo ++ "-" ++ padInt 2 d ++ " is not a real date"))
  else
    let badTime := DbError.sqlPlan ("invalid time-of-day in timestamp " ++ rt.debugStr input)
    let clock ←
      if timePart.isEmpty then pure ⟨0, 0, 0, 0⟩ else timeOfDay rt timePart input badTime badTime
    pure ((y, mo, d), clock)

/-- Year, month and day of a real date without a time of day. -/
def civilFields (input : String) : Except DbError (Int × Int × Int) := do
  let (y, mo, d) ← dateFields rt (trim input.toList)
    (.sqlPlan ("invalid date " ++ rt.debugStr input ++ ": expected 'YYYY-MM-DD'"))
  if ¬(1 ≤ mo ∧ mo ≤ 12) ∨ d < 1 ∨ d > daysInMonth y mo then
    .error (.sqlPlan ("invalid date " ++ rt.debugStr input ++ ": not a real date"))
  else pure (y, mo, d)

def clockFields (input : String) : Except DbError Clock :=
  timeOfDay rt (trim input.toList) input
    (.sqlPlan ("invalid time " ++ rt.debugStr input ++ ": expected 'HH:MM:SS[.ffffff]'"))
    (.sqlPlan ("invalid time-of-day " ++ rt.debugStr input))

variable (profile : Profile)

def timestampMicros : (Int × Int × Int) × Clock → Except DbError Int
  | ((y, mo, d), clock) => do clockMicros profile (← daysFromCivil profile y mo d) clock

/-- `parse_timestamp`: microseconds since the epoch. -/
def parseTimestamp (input : String) : Except DbError Int := do
  timestampMicros profile (← timestampFields rt input)

/-- The days of a date, which have to fit an `i32`. -/
def dateDays (input : String) : Int × Int × Int → Except DbError Int
  | (y, mo, d) => do
    match checkedSigned 32 (← daysFromCivil profile y mo d) with
    | some days => pure days
    | none => .error (.sqlPlan ("date out of range: " ++ rt.debugStr input))

/-- `parse_date`: days since the epoch. -/
def parseDate (input : String) : Except DbError Int := do
  dateDays rt profile input (← civilFields rt input)

/-- `parse_time`: microseconds since midnight. -/
def parseTime (input : String) : Except DbError Int := do
  clockMicros profile 0 (← clockFields rt input)

/-! ## The fields are parsed without a panic -/

variable {rt} (s : List Char)

lemma noPanic_parseUint : NoPanic (parseUint rt s) := by
  unfold parseUint
  split
  · exact avoids_ok _
  · exact noPanic_sqlPlan _

lemma noPanic_parseFraction (frac : List Char) (input : String) :
    NoPanic (parseFraction rt frac input) := by
  unfold parseFraction
  split
  · exact avoids_ok _
  · split
    · exact noPanic_sqlPlan _
    · exact avoids_bind (noPanic_parseUint _) fun _ _ => avoids_ok _

lemma noPanic_dateFields {bad : DbError} (hbad : bad ≠ .panicked) :
    NoPanic (dateFields rt s bad) := by
  unfold dateFields
  split
  · refine avoids_bind (noPanic_parseUint _) fun _ _ => ?_
    refine avoids_bind (noPanic_parseUint _) fun _ _ => ?_
    exact avoids_bind (noPanic_parseUint _) fun _ _ => avoids_ok _
  · exact avoids_error hbad

lemma noPanic_timeFields (hms : List Char) {bad : DbError} (hbad : bad ≠ .panicked) :
    NoPanic (timeFields rt hms bad) := by
  unfold timeFields
  split
  · refine avoids_bind (noPanic_parseUint _) fun _ _ => ?_
    refine avoids_bind (noPanic_parseUint _) fun _ _ => ?_
    exact avoids_bind (noPanic_parseUint _) fun _ _ => avoids_ok _
  · refine avoids_bind (noPanic_parseUint _) fun _ _ => ?_
    exact avoids_bind (noPanic_parseUint _) fun _ _ => avoids_ok _
  · exact avoids_error hbad

lemma noPanic_timeOfDay (input : String) {badFields badTime : DbError}
    (hfields : badFields ≠ .panicked) (htime : badTime ≠ .panicked) :
    NoPanic (timeOfDay rt s input badFields badTime) := by
  refine avoids_bind (noPanic_timeFields _ hfields) fun _ _ => ?_
  dsimp only
  split
  · exact avoids_error htime
  · exact avoids_bind (noPanic_parseFraction _ _) fun _ _ => avoids_ok _

variable (input : String)

lemma noPanic_timestampFields : NoPanic (timestampFields rt input) := by
  unfold timestampFields
  dsimp only
  generalize (match splitOnce (fun c => c == 'T' || c == ' ')
      (trimEnd (stripSuffixChar 'Z' (trim input.toList))) with
    | some (date, time) => (date, trim time)
    | none => (trimEnd (stripSuffixChar 'Z' (trim input.toList)), [])) = parts
  refine avoids_bind (noPanic_dateFields _ (by simp)) fun ⟨y, mo, d⟩ _ => ?_
  split
  · exact noPanic_sqlPlan _
  · split
    · exact avoids_ok _
    · exact avoids_bind (noPanic_timeOfDay _ _ (by simp) (by simp)) fun _ _ => avoids_ok _

lemma noPanic_civilFields : NoPanic (civilFields rt input) := by
  refine avoids_bind (noPanic_dateFields _ (by simp)) fun _ _ => ?_
  dsimp only
  split
  · exact noPanic_sqlPlan _
  · exact avoids_ok _

lemma noPanic_clockFields : NoPanic (clockFields rt input) :=
  noPanic_timeOfDay _ _ (by simp) (by simp)

end

/-! ## Where the arithmetic panics -/

def I64 (n : Int) : Prop := -2 ^ 63 ≤ n ∧ n < 2 ^ 63

instance (n : Int) : Decidable (I64 n) := inferInstanceAs (Decidable (_ ∧ _))

section
variable (y m d days : Int) (c : Clock)

/-- The exact results of the operations of `days_from_civil`, the number of days last. -/
def civilResults : List Int :=
  let y := if m ≤ 2 then y - 1 else y
  let back := if y ≥ 0 then y else y - 399
  let era := back.tdiv 400
  let yoe := y - era * 400
  let doe := yoe * 365 + yoe.tdiv 4 - yoe.tdiv 100 + dayOfYear m d
  [y, back, era * 400, yoe, yoe * 365, yoe * 365 + yoe.tdiv 4,
    yoe * 365 + yoe.tdiv 4 - yoe.tdiv 100, doe, era * 146097, era * 146097 + doe,
    era * 146097 + doe - 719468]

/-- The exact results behind a day count, the microseconds last. -/
def clockResults : List Int :=
  let hours := days * secsPerDay + c.hh * 3600
  let secs := hours + c.mm * 60 + c.ss
  [days * secsPerDay, c.hh * 3600, hours, c.mm * 60, hours + c.mm * 60, secs,
    secs * microsPerSec, secs * microsPerSec + c.micros]

end

def timestampResults : (Int × Int × Int) × Clock → List Int
  | ((y, m, d), c) => civilResults y m d ++ clockResults ((civilResults y m d).getLastD 0) c

/-- The fields are parsed, and an operation on them overflows. -/
def Overflows {α : Type} (fields : Except DbError α) (results : α → List Int) : Prop :=
  ∃ f, fields = .ok f ∧ ¬∀ n ∈ results f, I64 n

section
variable {profile : Profile} {y m d n days : Int} {c : Clock}

lemma i64_of_fits (h : I64 n) : i64 profile n = .ok n := by
  have hcheck : checkedSigned 64 n = some n := checkedSigned_eq_some.2 ⟨rfl, h⟩
  unfold i64 signedOp
  rw [hcheck]

lemma i64_debug_of_not_fits (h : ¬I64 n) : i64 .debug n = .error .panicked := by
  have hcheck : checkedSigned 64 n = none := if_neg h
  unfold i64 signedOp
  rw [hcheck]

/-- In a debug build an operation that returns has returned its exact result. -/
lemma noPanic_i64_bind {α : Type} {k : Int → Except DbError α} :
    NoPanic (i64 .debug n >>= k) ↔ I64 n ∧ NoPanic (k n) := by
  by_cases h : I64 n
  · rw [i64_of_fits h]
    exact (and_iff_right h).symm
  · rw [i64_debug_of_not_fits h]
    exact iff_of_false (fun hno => hno rfl) fun hno => h hno.1

lemma noPanic_i64 : NoPanic (i64 .debug n) ↔ I64 n := by
  have h := noPanic_i64_bind (n := n) (k := .ok)
  rw [and_iff_left (avoids_ok _)] at h
  exact bind_pure (i64 .debug n) ▸ h

lemma noPanic_daysFromCivil_bind {α : Type} {k : Int → Except DbError α} :
    NoPanic (daysFromCivil .debug y m d >>= k) ↔
      (∀ n ∈ civilResults y m d, I64 n) ∧ NoPanic (k ((civilResults y m d).getLastD 0)) := by
  simp only [daysFromCivil, civilResults, bind_assoc, noPanic_i64_bind, List.forall_mem_cons,
    List.not_mem_nil, false_imp_iff, implies_true, List.getLastD_cons, List.getLastD_nil, and_assoc,
    true_and]

lemma noPanic_clockMicros :
    NoPanic (clockMicros .debug days c) ↔ ∀ n ∈ clockResults days c, I64 n := by
  simp only [clockMicros, clockResults, noPanic_i64_bind, noPanic_i64, List.forall_mem_cons,
    List.not_mem_nil, false_imp_iff, implies_true, and_true]

lemma noPanic_daysFromCivil_release : NoPanic (daysFromCivil .release y m d) := by
  unfold daysFromCivil
  repeat refine avoids_bind (noPanic_signedOp_release _ _) fun _ _ => ?_
  exact noPanic_signedOp_release _ _

lemma noPanic_clockMicros_release : NoPanic (clockMicros .release days c) := by
  unfold clockMicros
  repeat refine avoids_bind (noPanic_signedOp_release _ _) fun _ _ => ?_
  exact noPanic_signedOp_release _ _

end

section
variable {profile : Profile}

lemma noPanic_fields_bind {α : Type} {fields : Except DbError α} {results : α → List Int}
    {k : Profile → α → Except DbError Int} (hfields : NoPanic fields)
    (hrelease : ∀ f, NoPanic (k .release f))
    (hdebug : ∀ f, NoPanic (k .debug f) ↔ ∀ n ∈ results f, I64 n) :
    NoPanic (fields >>= k profile) ↔ (profile = .debug → ¬Overflows fields results) := by
  cases profile with
  | release => exact iff_of_true (avoids_bind hfields fun f _ => hrelease f) nofun
  | debug =>
    simp only [Overflows, forall_const, not_exists, not_and, not_not, ← hdebug]
    constructor
    · rintro h f rfl
      exact h
    · exact avoids_bind hfields

variable (rt : Runtime) (input : String)

theorem noPanic_parseTimestamp_iff : NoPanic (parseTimestamp rt profile input) ↔
    (profile = .debug → ¬Overflows (timestampFields rt input) timestampResults) := by
  refine noPanic_fields_bind (k := timestampMicros) (noPanic_timestampFields input) ?_ ?_
  · rintro ⟨⟨y, m, d⟩, c⟩
    exact avoids_bind noPanic_daysFromCivil_release fun _ _ => noPanic_clockMicros_release
  · rintro ⟨⟨y, m, d⟩, c⟩
    rw [timestampMicros, noPanic_daysFromCivil_bind, noPanic_clockMicros, timestampResults,
      List.forall_mem_append]

theorem noPanic_parseDate_iff : NoPanic (parseDate rt profile input) ↔ (profile = .debug →
    ¬Overflows (civilFields rt input) fun (y, m, d) => civilResults y m d) := by
  have hrange : ∀ days, NoPanic (match checkedSigned 32 days with
      | some days => .ok days
      | none => .error (.sqlPlan ("date out of range: " ++ rt.debugStr input))) := by
    intro days
    split
    · exact avoids_ok _
    · exact noPanic_sqlPlan _
  refine noPanic_fields_bind (k := fun profile => dateDays rt profile input)
    (noPanic_civilFields input) ?_ ?_
  · rintro ⟨y, m, d⟩
    exact avoids_bind noPanic_daysFromCivil_release fun days _ => hrange days
  · rintro ⟨y, m, d⟩
    rw [dateDays, noPanic_daysFromCivil_bind]
    exact and_iff_left (hrange _)

theorem noPanic_parseTime_iff : NoPanic (parseTime rt profile input) ↔
    (profile = .debug → ¬Overflows (clockFields rt input) (clockResults 0)) :=
  noPanic_fields_bind (k := fun profile => clockMicros profile 0) (noPanic_clockFields input)
    (fun _ => noPanic_clockMicros_release) fun _ => noPanic_clockMicros

end

end UniDb.Datetime
