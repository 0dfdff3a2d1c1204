import Mathlib.Order.Lattice
import Mathlib.Data.Int.Order.Basic

/-!
# The square spiral

A walk on the integer grid that goes right, down, left and up in turn, each pair of legs one step
longer than the last. Round `k` starts at `(-k, -k)` with legs of `2k + 1`, `2k + 1`, `2k + 2` and
`2k + 2` steps and ends where round `k + 1` starts; the walk comes to every place.
-/

namespace Orchid.Lib

/-- The places of round `k`, by leg and number of steps. -/
inductive SpiralRound (k a b : ℤ) : Prop
  | right (j : ℤ) (h : 1 ≤ j) (hj : j ≤ 2 * k + 1) (ha : a = -k + j) (hb : b = -k)
  | down (j : ℤ) (h : 1 ≤ j) (hj : j ≤ 2 * k + 1) (ha : a = k + 1) (hb : b = -k + j)
  | left (j : ℤ) (h : 1 ≤ j) (hj : j ≤ 2 * k + 2) (ha : a = k + 1 - j) (hb : b = k + 1)
  | up (j : ℤ) (h : 1 ≤ j) (hj : j ≤ 2 * k + 2) (ha : a = -k - 1) (hb : b = k + 1 - j)

/-- The rounds up to `n` come to every place at most `n` away from the start. -/
lemma exists_spiralRound {a b n : ℤ} (ha : -n ≤ a ∧ a ≤ n) (hb : -n ≤ b ∧ b ≤ n)
    (hne : a ≠ 0 ∨ b ≠ 0) : ∃ k, 0 ≤ k ∧ k ≤ n ∧ SpiralRound k a b := by
  -- the place is on the border of the square of half width `r`
  obtain ⟨r, hr, har, hbr, hrn, hside⟩ : ∃ r : ℤ, 0 < r ∧ (-r ≤ a ∧ a ≤ r) ∧ (-r ≤ b ∧ b ≤ r) ∧
      r ≤ n ∧ (a = r ∨ b = r ∨ a = -r ∨ b = -r) :=
    ⟨max (max a (-a)) (max b (-b)), by omega⟩
  by_cases hright : a = r ∧ -r + 1 < b
  · exact ⟨r - 1, by omega, by omega, .down (b + (r - 1)) (by omega) (by omega) (by omega)
      (by omega)⟩
  by_cases hcorner : a = r ∧ b = -r + 1
  · exact ⟨r - 1, by omega, by omega, .right (2 * r - 1) (by omega) (by omega) (by omega)
      (by omega)⟩
  by_cases hbottom : b = r
  · exact ⟨r - 1, by omega, by omega, .left (r - a) (by omega) (by omega) (by omega) (by omega)⟩
  by_cases hleft : a = -r
  · exact ⟨r - 1, by omega, by omega, .up (r - b) (by omega) (by omega) (by omega) (by omega)⟩
  -- what is left of the top side belongs to the first leg of the next round
  · exact ⟨r, by omega, hrn, .right (a + r) (by omega) (by omega) (by omega) (by omega)⟩

end Orchid.Lib
