import Mathlib

/-!
# Little-endian bytes and slices

The `n` low bytes of a number, least significant first, unsigned (`leBytes`) and in two's complement
(`leSigned`), and the numbers that bytes stand for (`ofLe`, `ofLeSigned`).

* `ofLe_leBytes`: what is read back is the number modulo `256 ^ n`.
* `ofLeSigned_leSigned`: a number in the range of `n` bytes is read back as it was.

`slice` is the part of a list between two positions, if there is one; `slice_mid` finds the middle
of three parts.
-/

namespace UniDb

/-! ## Unsigned numbers -/

def leBytes : Nat → Nat → List UInt8
  | 0, _ => []
  | n + 1, v => UInt8.ofNat v :: leBytes n (v / 256)

def ofLe : List UInt8 → Nat
  | [] => 0
  | b :: bs => b.toNat + 256 * ofLe bs

@[simp] lemma length_leBytes (n v : Nat) : (leBytes n v).length = n := by
  induction n generalizing v with
  | zero => rfl
  | succ n ih => simp [leBytes, ih]

lemma ofLe_leBytes (n v : Nat) : ofLe (leBytes n v) = v % 256 ^ n := by
  induction n generalizing v with
  | zero => simp [leBytes, ofLe, Nat.mod_one]
  | succ n ih =>
    have hmod : v % 256 ^ (n + 1) = v % 256 + 256 * (v / 256 % 256 ^ n) := by
      rw [Nat.pow_succ', Nat.mod_mul]
    rw [leBytes, ofLe, ih, hmod]
    simp

variable {n : Nat}

lemma ofLe_leBytes_of_lt {v : Nat} (h : v < 256 ^ n) : ofLe (leBytes n v) = v := by
  rw [ofLe_leBytes, Nat.mod_eq_of_lt h]

lemma ofLe_lt (bs : List UInt8) : ofLe bs < 256 ^ bs.length := by
  induction bs with
  | nil => simp [ofLe]
  | cons b bs ih =>
    have hb : b.toNat < 256 := b.toNat_lt
    rw [ofLe, List.length_cons]
    omega

/-! ## Signed numbers -/

/-- Two's complement in `n` bytes. -/
def leSigned (n : Nat) (v : Int) : List UInt8 := leBytes n (v % (256 ^ n : Nat)).toNat

def ofLeSigned (bs : List UInt8) : Int := (ofLe bs : Int).bmod (256 ^ bs.length)

/-- The range of `n` bytes in two's complement. -/
def FitsSigned (n : Nat) (v : Int) : Prop := -(256 ^ n : Int) ≤ 2 * v ∧ 2 * v < 256 ^ n

instance (n : Nat) (v : Int) : Decidable (FitsSigned n v) := inferInstanceAs (Decidable (_ ∧ _))

@[simp] lemma length_leSigned (n : Nat) (v : Int) : (leSigned n v).length = n :=
  length_leBytes ..

lemma ofLeSigned_leSigned {v : Int} (h : FitsSigned n v) : ofLeSigned (leSigned n v) = v := by
  have hpos : 0 < 256 ^ n := Nat.pow_pos (by omega)
  have hnonneg : 0 ≤ v % (256 ^ n : Nat) := Int.emod_nonneg _ (by omega)
  have hback : ((v % (256 ^ n : Nat)).toNat : Int) = v % (256 ^ n : Nat) :=
    Int.toNat_of_nonneg hnonneg
  rw [ofLeSigned, length_leSigned, leSigned, ofLe_leBytes_of_lt (by omega), hback, Int.emod_bmod]
  obtain ⟨hlo, hhi⟩ := h
  have hcast : ((256 ^ n : Nat) : Int) = 256 ^ n := Int.natCast_pow 256 n
  refine Int.bmod_eq_of_le_mul_two ?_ ?_ <;> rw [hcast] <;> omega

lemma leSigned_injective {v w : Int} (hv : FitsSigned n v) (hw : FitsSigned n w)
    (h : leSigned n v = leSigned n w) : v = w := by
  rw [← ofLeSigned_leSigned hv, ← ofLeSigned_leSigned hw, h]

/-! ## Slices -/

section
variable {α : Type}

/-- `get(i..j)`: the part from `i` up to `j`, if the list reaches that far. -/
def slice (l : List α) (i j : Nat) : Option (List α) :=
  if i ≤ j ∧ j ≤ l.length then some ((l.drop i).take (j - i)) else none

lemma slice_eq_some {l m : List α} {i j : Nat} (h : slice l i j = some m) :
    i ≤ j ∧ j ≤ l.length ∧ m.length = j - i := by
  unfold slice at h
  split at h
  · next hbound =>
    cases h
    rw [List.length_take, List.length_drop]
    omega
  · cases h

lemma slice_mid (pre mid post : List α) {i j : Nat} (hi : i = pre.length)
    (hj : j = pre.length + mid.length) : slice (pre ++ (mid ++ post)) i j = some mid := by
  subst hi hj
  have hbound : pre.length ≤ pre.length + mid.length ∧
      pre.length + mid.length ≤ (pre ++ (mid ++ post)).length := by
    simp only [List.length_append]
    omega
  rw [slice, if_pos hbound, List.drop_left, Nat.add_sub_cancel_left, List.take_left]

end

end UniDb
