import Mathlib

/-!
# Text and machine integers

The functions of the Rust standard library on strings and on fixed-width integers that the SQL
layer calls. A string is the list of its characters; integers are `Int`s with their range explicit.
-/

namespace UniDb.Text

open Nat

/-! ## Machine integers -/

/-- Two's complement wrap-around of a signed `w`-bit operation. -/
def wrapSigned (w : Nat) (n : Int) : Int := n.bmod (2 ^ w)

/-- The result of a checked signed `w`-bit operation. -/
def checkedSigned (w : Nat) (n : Int) : Option Int :=
  if -(2 ^ (w - 1) : Int) ≤ n ∧ n < 2 ^ (w - 1) then some n else none

/-! ## Characters and strings -/

/-- `char::is_whitespace`: the Unicode property `White_Space`. -/
def isWhitespace (c : Char) : Bool :=
  let n := c.toNat
  (9 ≤ n && n ≤ 13) || n == 32 || n == 0x85 || n == 0xA0 || n == 0x1680 ||
    (0x2000 ≤ n && n ≤ 0x200A) || n == 0x2028 || n == 0x2029 || n == 0x202F || n == 0x205F ||
    n == 0x3000

section
variable (s : List Char) (c : Char)

def trimStart : List Char := s.dropWhile isWhitespace

def trimEnd : List Char := (s.reverse.dropWhile isWhitespace).reverse

def trim : List Char := trimEnd (trimStart s)

/-- `strip_suffix` for one character, with `unwrap_or` the string itself. -/
def stripSuffixChar (s : List Char) : List Char :=
  match s.reverse with
  | d :: rest => if d = c then rest.reverse else s
  | [] => s

/-- `split_once` at the first character satisfying `p`. -/
def splitOnce (p : Char → Bool) (s : List Char) : Option (List Char × List Char) :=
  match s.dropWhile fun c => !p c with
  | _ :: rest => some (s.takeWhile fun c => !p c, rest)
  | [] => none

def digit? : Option Nat :=
  if c.isDigit then some (c.toNat - 48) else none

def parseDigits : Option Nat :=
  if s.isEmpty then none
  else s.foldlM (fun acc c => (digit? c).map (10 * acc + ·)) 0

/-- `str::parse::<i64>`: an optional sign, at least one digit, in range. -/
def parseI64 : List Char → Option Int
  | '-' :: s => (parseDigits s).bind fun n => checkedSigned 64 (-(n : Int))
  | '+' :: s => (parseDigits s).bind fun n => checkedSigned 64 n
  | s => (parseDigits s).bind fun n => checkedSigned 64 n

def hexDigit? : Option Nat :=
  let n := c.toNat
  if 48 ≤ n ∧ n ≤ 57 then some (n - 48)
  else if 97 ≤ n ∧ n ≤ 102 then some (n - 87)
  else if 65 ≤ n ∧ n ≤ 70 then some (n - 55)
  else none

def hexBytes : List Char → Option (List UInt8)
  | [] => some []
  | a :: b :: rest => do
    let hi ← hexDigit? a
    let lo ← hexDigit? b
    let bytes ← hexBytes rest
    pure (UInt8.ofNat (16 * hi + lo) :: bytes)
  | [_] => none

/-- `{n:0w}`: at least `w` characters, zero-filled after the sign. -/
def padInt (w : Nat) (n : Int) : String :=
  let digits := toString n.natAbs
  if n < 0 then "-" ++ "".pushn '0' (w - 1 - digits.length) ++ digits
  else "".pushn '0' (w - digits.length) ++ digits

end

/-! ## Splitting -/

variable {p : Char → Bool} {c : Char} {cs : List Char} {n : Int}

lemma splitOnce_append {pre post : List Char} (hpre : ∀ x ∈ pre, p x = false) (hc : p c = true) :
    splitOnce p (pre ++ c :: post) = some (pre, post) := by
  have hall : ∀ x ∈ pre, (!p x) = true := fun x hx => by rw [hpre x hx]; rfl
  rw [splitOnce, List.dropWhile_append_of_pos hall, List.takeWhile_append_of_pos hall]
  simp [hc]

lemma splitOnce_eq_none (h : ∀ x ∈ cs, p x = false) : splitOnce p cs = none := by
  have hall : ∀ x ∈ cs, (!p x) = true := fun x hx => by rw [h x hx]; rfl
  have hdrop : (cs ++ []).dropWhile (fun c => !p c) = [] := List.dropWhile_append_of_pos hall
  rw [List.append_nil] at hdrop
  rw [splitOnce, hdrop]

/-! ## Numbers written and read back -/

lemma digit?_of_isDigit (h : c.isDigit = true) : digit? c = some (c.toNat - '0'.toNat) :=
  if_pos h

lemma parseDigits_foldlM (hcs : ∀ c ∈ cs, c.isDigit = true) (acc : Nat) :
    cs.foldlM (fun acc c => (digit? c).map (10 * acc + ·)) acc = some (ofDigitChars 10 cs acc) := by
  induction cs generalizing acc with
  | nil => rw [ofDigitChars_nil]; rfl
  | cons c cs ih =>
    rw [List.foldlM_cons, digit?_of_isDigit (hcs c (by simp))]
    exact ih (fun d hd => hcs d (List.mem_cons_of_mem _ hd)) _

lemma parseDigits_of_digits (hne : cs ≠ []) (hcs : ∀ c ∈ cs, c.isDigit = true) :
    parseDigits cs = some (ofDigitChars 10 cs 0) := by
  rw [parseDigits, if_neg (by simpa using hne), parseDigits_foldlM hcs]

lemma toList_toString (n : Nat) : (toString n).toList = toDigits 10 n := toList_repr

lemma isDigit_of_mem_toString {n : Nat} (h : c ∈ (toString n).toList) : c.isDigit = true := by
  rw [toList_toString] at h
  exact isDigit_of_mem_toDigits (by decide) (by decide) h

lemma parseDigits_toString (n : Nat) : parseDigits (toString n).toList = some n := by
  rw [parseDigits_of_digits ?_ fun c => isDigit_of_mem_toString, toList_toString,
    ofDigitChars_ten_toDigits]
  rw [toList_toString]
  exact toDigits_ne_nil

lemma checkedSigned_eq_some {w : Nat} {m : Int} :
    checkedSigned w n = some m ↔ m = n ∧ -(2 ^ (w - 1) : Int) ≤ n ∧ n < 2 ^ (w - 1) := by
  unfold checkedSigned
  split
  · next h => simp [h, eq_comm]
  · next h => simp [h]

/-- A written integer is a minus sign, if it is negative, and the digits of its absolute value. -/
lemma toList_toString_int (n : Int) :
    (toString n).toList = (if n < 0 then ['-'] else []) ++ (toString n.natAbs).toList := by
  rw [Int.toString_eq_repr, Int.repr_eq_if]
  split
  · next h =>
    have habs : n.toNat = n.natAbs := by omega
    rw [if_neg (by omega), habs]
    rfl
  · next h =>
    have habs : (-n).toNat = n.natAbs := by omega
    rw [if_pos (by omega), habs]
    simp

end UniDb.Text
