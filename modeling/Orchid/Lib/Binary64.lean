import Mathlib.Algebra.Order.Floor.Semiring
import Mathlib.Data.Nat.Log
import Mathlib.Data.Rat.Floor

/-!
# Whole numbers in binary floating point

A number in double precision is known by its value. Integers are rounded to 53 digits, a half to the
even one of its neighbours; those below `2 ^ 53` are kept, and none from there on falls below it.
-/

namespace Orchid.Lib

/-- A number in double precision: a finite one by its value, an infinity, or no number. -/
inductive Binary64
  | finite (value : ℚ)
  | infinity (negative : Bool)
  | nan
  deriving DecidableEq

/-- The value without what stands behind the point. -/
def truncate (x : ℚ) : ℤ := if 0 ≤ x then ⌊x⌋ else ⌈x⌉

@[simp] lemma truncate_intCast (n : ℤ) : truncate n = n := by
  unfold truncate
  split_ifs
  · exact Int.floor_intCast n
  · exact Int.ceil_intCast n

@[simp] lemma truncate_natCast (n : ℕ) : truncate n = n := truncate_intCast n

lemma abs_truncate_le {x : ℚ} {n : ℤ} (h : |x| ≤ n) : |truncate x| ≤ n := by
  rw [abs_le] at h ⊢
  unfold truncate
  split_ifs with hx
  · exact ⟨Int.le_floor.mpr (by exact_mod_cast h.1), by exact_mod_cast (Int.floor_le x).trans h.2⟩
  · exact ⟨by exact_mod_cast h.1.trans (Int.le_ceil x), Int.ceil_le.mpr h.2⟩

/-- The cast to `i64`, which stops at its ends. -/
def Binary64.toI64 : Binary64 → ℤ
  | .finite x => max (-2 ^ 63) (min (truncate x) (2 ^ 63 - 1))
  | .infinity negative => if negative then -2 ^ 63 else 2 ^ 63 - 1
  | .nan => 0

lemma Binary64.toI64_intCast {n : ℤ} (h : -2 ^ 63 ≤ n ∧ n < 2 ^ 63) : toI64 (.finite n) = n := by
  rw [toI64, truncate_intCast]
  omega

/-- The number of 53 digits next to `n`. -/
def roundNat (n : ℕ) : ℕ :=
  let unit := 2 ^ (n.log2 - 52)
  let low := n / unit * unit
  if 2 * (n - low) < unit ∨ 2 * (n - low) = unit ∧ n / unit % 2 = 0 then low else low + unit

@[simp] lemma roundNat_zero : roundNat 0 = 0 := by decide

lemma roundNat_of_lt {n : ℕ} (h : n < 2 ^ 53) : roundNat n = n := by
  rcases Nat.eq_zero_or_pos n with rfl | hpos
  · exact roundNat_zero
  · have hlog : n.log2 < 53 := (Nat.log2_lt hpos.ne').mpr h
    have hunit : n.log2 - 52 = 0 := by omega
    simp [roundNat, hunit]

lemma le_roundNat {n : ℕ} (h : 2 ^ 53 ≤ n) : 2 ^ 53 ≤ roundNat n := by
  have hne : n ≠ 0 := by
    rintro rfl
    exact absurd h (by decide)
  have hlog : 53 ≤ n.log2 := (Nat.le_log2 hne).mpr h
  have hsplit : 2 ^ 52 * 2 ^ (n.log2 - 52) = 2 ^ n.log2 := by
    rw [← pow_add]
    congr 1
    omega
  have hunit : 2 ≤ 2 ^ (n.log2 - 52) := Nat.le_self_pow (by omega) 2
  have hlow : 2 ^ 52 ≤ n / 2 ^ (n.log2 - 52) := by
    rw [Nat.le_div_iff_mul_le (by positivity), hsplit]
    exact Nat.log2_self_le hne
  have hfloor : 2 ^ 53 ≤ n / 2 ^ (n.log2 - 52) * 2 ^ (n.log2 - 52) :=
    Nat.mul_le_mul hlow hunit
  simp only [roundNat]
  split_ifs
  · exact hfloor
  · exact hfloor.trans (Nat.le_add_right ..)

/-- Rounding does not move a number across one that it keeps. -/
lemma le_roundNat_iff {n k : ℕ} (hk : k ≤ 2 ^ 53) : k ≤ roundNat n ↔ k ≤ n := by
  rcases lt_or_ge n (2 ^ 53) with h | h
  · rw [roundNat_of_lt h]
  · exact ⟨fun _ => hk.trans h, fun _ => hk.trans (le_roundNat h)⟩

end Orchid.Lib
