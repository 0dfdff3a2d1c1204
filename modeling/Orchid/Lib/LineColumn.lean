import Mathlib.Data.List.Basic

/-!
# Positions by line and column

An index of a list as the number of lines that end before it and the distance from there, and back.
Whether an element ends a line may depend on the next one. A position that is kept while a part
behind it is cut out still means the same index, unless the cut makes its last line go on.
-/

namespace Orchid.Lib

variable {α : Type*} (ends : α → Option α → Bool) (strip : α → Bool)

/-- The number of columns of the first line, without the end of a line that is stripped. -/
def lineLen : List α → ℕ
  | [] => 0
  | c :: t => if ends c t.head? then (if strip c then 0 else 1) else lineLen t + 1

/-- Line and column of an index. -/
def lineCol : List α → ℕ → ℕ × ℕ
  | _, 0 => (0, 0)
  | [], _ + 1 => (0, 0)
  | c :: t, i + 1 =>
    let p := lineCol t i
    if ends c t.head? then (p.1 + 1, p.2) else if p.1 = 0 then (0, p.2 + 1) else p

/-- The index at a line and a column; the line behind the last one has one column. -/
def indexAt : List α → ℕ → ℕ → Option ℕ
  | t, 0, col => if col ≤ lineLen ends strip t then some col else none
  | [], line + 1, col => if line = 0 ∧ col = 0 then some 0 else none
  | c :: t, line + 1, col =>
    (indexAt t (if ends c t.head? then line else line + 1) col).map (· + 1)

variable {ends} {strip} {c : α} {t u s w : List α}

lemma lineCol_cons (i : ℕ) (h : ends c t.head? = true) :
    lineCol ends (c :: t) (i + 1) = ((lineCol ends t i).1 + 1, (lineCol ends t i).2) := by
  simp [lineCol, h]

lemma lineCol_cons_of_first (i : ℕ) (h : ends c t.head? = false)
    (hline : (lineCol ends t i).1 = 0) :
    lineCol ends (c :: t) (i + 1) = (0, (lineCol ends t i).2 + 1) := by
  simp [lineCol, h, hline]

lemma lineCol_cons_of_later (i : ℕ) (h : ends c t.head? = false)
    (hline : (lineCol ends t i).1 ≠ 0) :
    lineCol ends (c :: t) (i + 1) = lineCol ends t i := by
  simp [lineCol, h, hline]

lemma indexAt_zero (t : List α) : indexAt ends strip t 0 0 = some 0 := by
  simp [indexAt]

/-- An element in front of two lists that it ends a line before, or before neither. -/
lemma indexAt_cons_lineCol {t t' : List α} {i n : ℕ}
    (h : indexAt ends strip t' (lineCol ends t i).1 (lineCol ends t i).2 = some n)
    (hends : ends c t.head? = ends c t'.head?) :
    indexAt ends strip (c :: t') (lineCol ends (c :: t) (i + 1)).1
      (lineCol ends (c :: t) (i + 1)).2 = some (n + 1) := by
  by_cases hc : ends c t.head? = true
  · rw [lineCol_cons i hc]
    rw [hc] at hends
    simp [indexAt, ← hends, h]
  · rw [Bool.not_eq_true] at hc
    rw [hc] at hends
    by_cases hline : (lineCol ends t i).1 = 0
    · rw [lineCol_cons_of_first i hc hline]
      rw [hline] at h
      simp only [indexAt] at h ⊢
      split at h
      · cases h
        simp only [lineLen, ← hends]
        simpa using ‹_ ≤ _›
      · cases h
    · rw [lineCol_cons_of_later i hc hline]
      obtain ⟨l, hl⟩ := Nat.exists_eq_succ_of_ne_zero hline
      rw [hl] at h ⊢
      simp [indexAt, ← hends, h]

/-- Cutting out a part behind an index keeps its position, unless the element in front of it ended
a line and does not any more. -/
lemma indexAt_lineCol
    (h : ∀ c, u.getLast? = some c → ends c (s ++ w).head? = true → ends c w.head? = true)
    (hstrip : ∀ c, u.getLast? = some c → strip c = true →
      ends c (s ++ w).head? = ends c w.head?) :
    indexAt ends strip (u ++ w) (lineCol ends (u ++ (s ++ w)) u.length).1
      (lineCol ends (u ++ (s ++ w)) u.length).2 = some u.length := by
  induction u with
  | nil =>
    simp only [List.nil_append, List.length_nil, lineCol]
    exact indexAt_zero w
  | cons c u ih =>
    cases u with
    | nil =>
      have hzero : indexAt ends strip w (lineCol ends (s ++ w) 0).1 (lineCol ends (s ++ w) 0).2 =
          some 0 := by
        simp only [lineCol]
        exact indexAt_zero w
      by_cases heq : ends c (s ++ w).head? = ends c w.head?
      · exact indexAt_cons_lineCol hzero heq
      · have hbefore : ends c (s ++ w).head? = false := by
          by_contra hb
          rw [Bool.not_eq_false] at hb
          exact heq (hb.trans (h c rfl hb).symm)
        have hafter : ends c w.head? = true := by
          by_contra ha
          rw [Bool.not_eq_true] at ha
          exact heq (hbefore.trans ha.symm)
        have hkept : strip c = false := by
          by_contra hs
          rw [Bool.not_eq_false] at hs
          exact heq (hstrip c rfl hs)
        simp only [List.cons_append, List.nil_append, List.length_cons, List.length_nil]
        rw [lineCol_cons_of_first 0 hbefore (by simp [lineCol])]
        simp [indexAt, lineLen, hafter, hkept, lineCol]
    | cons d u =>
      have hlast (c') (hc' : (d :: u).getLast? = some c') : (c :: d :: u).getLast? = some c' := by
        rwa [List.getLast?_cons_cons]
      exact indexAt_cons_lineCol (ih (fun c' hc' => h c' (hlast c' hc'))
        fun c' hc' => hstrip c' (hlast c' hc')) rfl

/-- Where the cut makes the line go on over the next element, the position moves behind that. -/
lemma indexAt_lineCol_of_joined {d : α} (hbefore : ends c (s ++ d :: w).head? = true)
    (hafter : ends c (some d) = false) (hd : ends d w.head? = true) :
    indexAt ends strip (u ++ c :: d :: w) (lineCol ends (u ++ c :: (s ++ d :: w)) (u.length + 1)).1
      (lineCol ends (u ++ c :: (s ++ d :: w)) (u.length + 1)).2 = some (u.length + 2) := by
  induction u with
  | nil =>
    simp only [List.nil_append, List.length_nil]
    rw [lineCol_cons 0 hbefore]
    simp [lineCol, indexAt, hafter, hd]
  | cons c' u ih =>
    refine indexAt_cons_lineCol ih ?_
    cases u <;> rfl

end Orchid.Lib
