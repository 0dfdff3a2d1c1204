import Mathlib.Data.List.Basic
import Mathlib.Tactic.Linarith

/-!
# Cutting a list into pieces

A list in pieces of `n` elements, the last of which may be shorter.
-/

namespace Orchid.Lib

variable {α : Type*} {n : ℕ}

/-- The pieces of `n` elements of a list. -/
def chunks (n : ℕ) (xs : List α) : List (List α) :=
  (List.range ((xs.length + n - 1) / n)).map fun i => (xs.drop (i * n)).take n

@[simp] lemma chunks_nil (n : ℕ) : chunks n ([] : List α) = [] := by
  have h : (0 + n - 1) / n = 0 := Nat.div_eq_zero_iff.mpr (by omega)
  simp only [chunks, List.length_nil, h, List.range_zero, List.map_nil]

lemma chunks_of_ne_nil (hn : 0 < n) {xs : List α} (h : xs ≠ []) :
    chunks n xs = xs.take n :: chunks n (xs.drop n) := by
  have hlen := List.length_pos_iff.mpr h
  have hcount : (xs.length + n - 1) / n = ((xs.drop n).length + n - 1) / n + 1 := by
    rw [List.length_drop]
    rcases Nat.le_total n xs.length with hle | hle
    · have hsplit : xs.length + n - 1 = xs.length - n + n - 1 + n := by omega
      rw [hsplit, Nat.add_div_right _ hn]
    · have hsplit : xs.length + n - 1 = xs.length - 1 + n := by omega
      have hzero : (xs.length - n + n - 1) / n = 0 := Nat.div_eq_zero_iff.mpr (by omega)
      rw [hsplit, Nat.add_div_right _ hn, hzero, Nat.div_eq_zero_iff.mpr (by omega)]
  rw [chunks, hcount, List.range_succ_eq_map, List.map_cons, List.map_map, Nat.zero_mul,
    List.drop_zero, chunks]
  congr 1
  refine List.map_congr_left fun i _ => ?_
  rw [Function.comp_apply, List.drop_drop, Nat.succ_mul, Nat.add_comm n]

/-- What holds of the empty list, and of a list as soon as it holds behind its first piece. -/
lemma chunks_induction {P : List α → Prop} (hn : 0 < n) (nil : P [])
    (step : ∀ xs, xs ≠ [] → P (xs.drop n) → P xs) (xs : List α) : P xs := by
  induction hlen : xs.length using Nat.strong_induction_on generalizing xs with
  | _ len ih =>
    by_cases h : xs = []
    · exact h ▸ nil
    · refine step xs h (ih _ ?_ _ rfl)
      have := List.length_pos_iff.mpr h
      rw [List.length_drop]
      omega

/-- The pieces together are the list. -/
lemma flatten_chunks (hn : 0 < n) (xs : List α) : (chunks n xs).flatten = xs := by
  induction xs using chunks_induction hn with
  | nil => simp
  | step xs h ih => rw [chunks_of_ne_nil hn h, List.flatten_cons, ih, List.take_append_drop]

end Orchid.Lib
