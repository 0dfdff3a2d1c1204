import Mathlib.Algebra.GroupWithZero.Nat
import Mathlib.Algebra.BigOperators.Group.List.Basic
import Mathlib.Data.List.Chain

/-!
# Items side by side

Items with a width, laid out from left to right. `starts` gives each item the column where it
begins; a column lies under one item only. Rows of such items are stacked by a relation between
each row and the next.
-/

namespace Orchid.Lib

variable {α : Type}

namespace Strip

variable (span : α → ℕ)

/-- The columns that the items take. -/
def width (xs : List α) : ℕ := (xs.map span).sum

/-- Each item with the column where it begins, the first one at `c`. -/
def starts (c : ℕ) : List α → List (ℕ × α)
  | [] => []
  | x :: xs => (c, x) :: starts (c + span x) xs

/-- The index of the item that lies over column `p`, the first one beginning at `c`. -/
def indexAt (p : ℕ) (c : ℕ) : List α → Option ℕ
  | [] => none
  | x :: xs =>
    if c ≤ p ∧ p < c + span x then some 0 else (indexAt p (c + span x) xs).map (· + 1)

variable {span}

@[simp] lemma width_nil : width span [] = 0 := rfl

@[simp] lemma width_cons (x : α) (xs : List α) : width span (x :: xs) = span x + width span xs := by
  simp [width]

@[simp] lemma width_append (xs ys : List α) :
    width span (xs ++ ys) = width span xs + width span ys := by
  simp [width]

lemma width_replicate (n : ℕ) (x : α) : width span (List.replicate n x) = n * span x := by
  simp [width]

@[simp] lemma starts_nil (c : ℕ) : starts span c [] = [] := rfl

@[simp] lemma starts_cons (c : ℕ) (x : α) (xs : List α) :
    starts span c (x :: xs) = (c, x) :: starts span (c + span x) xs := rfl

@[simp] lemma starts_append (c : ℕ) (xs ys : List α) :
    starts span c (xs ++ ys) = starts span c xs ++ starts span (c + width span xs) ys := by
  induction xs generalizing c with
  | nil => simp
  | cons x xs ih => simp [ih, Nat.add_assoc]

lemma mem_of_mem_starts {c p : ℕ} {x : α} {xs : List α} (h : (p, x) ∈ starts span c xs) :
    x ∈ xs := by
  induction xs generalizing c with
  | nil => simp at h
  | cons y xs ih =>
    rcases List.mem_cons.mp h with heq | h
    · exact (Prod.mk.inj heq).2 ▸ List.mem_cons_self
    · exact List.mem_cons_of_mem _ (ih h)

/-- An item lies between the beginning and the end of the row. -/
lemma bounds_of_mem_starts {c p : ℕ} {x : α} {xs : List α} (h : (p, x) ∈ starts span c xs) :
    c ≤ p ∧ p + span x ≤ c + width span xs := by
  induction xs generalizing c with
  | nil => simp at h
  | cons y xs ih =>
    rcases List.mem_cons.mp h with heq | h
    · obtain ⟨rfl, rfl⟩ := Prod.mk.inj heq
      simp
    · have := ih h
      rw [width_cons]
      omega

/-- Two items over one column are the same. -/
lemma eq_of_mem_starts {c p q k : ℕ} {x y : α} {xs : List α} (hx : (p, x) ∈ starts span c xs)
    (hy : (q, y) ∈ starts span c xs) (hpx : p ≤ k ∧ k < p + span x)
    (hqy : q ≤ k ∧ k < q + span y) : p = q ∧ x = y := by
  induction xs generalizing c with
  | nil => simp at hx
  | cons z xs ih =>
    rw [starts_cons] at hx hy
    rcases List.mem_cons.mp hx with hx | hx
    · rcases List.mem_cons.mp hy with hy | hy
      · exact Prod.mk.inj (hx.trans hy.symm)
      · obtain ⟨rfl, rfl⟩ := Prod.mk.inj hx
        have := bounds_of_mem_starts hy
        omega
    · rcases List.mem_cons.mp hy with hy | hy
      · obtain ⟨rfl, rfl⟩ := Prod.mk.inj hy
        have := bounds_of_mem_starts hx
        omega
      · exact ih hx hy

lemma exists_of_mem_starts {c p : ℕ} {x : α} {xs : List α} (h : (p, x) ∈ starts span c xs) :
    ∃ pre post, xs = pre ++ x :: post ∧ c + width span pre = p := by
  induction xs generalizing c with
  | nil => simp at h
  | cons y xs ih =>
    rcases List.mem_cons.mp h with heq | h
    · obtain ⟨rfl, rfl⟩ := Prod.mk.inj heq
      exact ⟨[], xs, rfl, rfl⟩
    · obtain ⟨pre, post, rfl, hp⟩ := ih h
      exact ⟨y :: pre, post, rfl, by rw [width_cons, ← Nat.add_assoc, hp]⟩

/-- The item over a column, with what is left and right of it. -/
lemma exists_of_indexAt {p c i : ℕ} {xs : List α} (h : indexAt span p c xs = some i) :
    ∃ pre x post, xs = pre ++ x :: post ∧ pre.length = i ∧
      c + width span pre ≤ p ∧ p < c + width span pre + span x := by
  induction xs generalizing c i with
  | nil => simp [indexAt] at h
  | cons y xs ih =>
    rw [indexAt] at h
    split_ifs at h with hy
    · obtain rfl := Option.some.inj h
      exact ⟨[], y, xs, rfl, rfl, by simpa using hy⟩
    · obtain ⟨j, hj, rfl⟩ := Option.map_eq_some_iff.mp h
      obtain ⟨pre, x, post, rfl, rfl, hle, hlt⟩ := ih hj
      refine ⟨y :: pre, x, post, rfl, rfl, ?_⟩
      rw [width_cons]
      omega

lemma indexAt_append {p c : ℕ} {pre post : List α} {x : α} (hle : c + width span pre ≤ p)
    (hlt : p < c + width span pre + span x) :
    indexAt span p c (pre ++ x :: post) = some pre.length := by
  induction pre generalizing c with
  | nil => simpa [indexAt] using ⟨hle, hlt⟩
  | cons y pre ih =>
    rw [width_cons] at hle hlt
    have hy : ¬ (c ≤ p ∧ p < c + span y) := by omega
    rw [List.cons_append, indexAt, if_neg hy, ih (by omega) (by omega)]
    rfl

/-- An item is found at each of its columns. -/
lemma indexAt_of_mem_starts {c p k : ℕ} {x : α} {xs : List α} (h : (p, x) ∈ starts span c xs)
    (hk : p ≤ k ∧ k < p + span x) : ∃ i, indexAt span k c xs = some i ∧ xs[i]? = some x := by
  induction xs generalizing c with
  | nil => simp at h
  | cons y xs ih =>
    rw [indexAt]
    rcases List.mem_cons.mp h with heq | h
    · obtain ⟨rfl, rfl⟩ := Prod.mk.inj heq
      exact ⟨0, if_pos hk, rfl⟩
    · obtain ⟨i, hi, hx⟩ := ih h
      have := bounds_of_mem_starts h
      exact ⟨i + 1, by rw [if_neg (by omega), hi]; rfl, hx⟩

end Strip

/-! ### Stacked rows -/

/-- The lower part of a stack is replaced by one that stands on everything the old one stood on. -/
lemma isChain_append_imp {r : α → α → Prop} {pre l l' : List α} (hpre : pre ≠ [])
    (h : (pre ++ l).IsChain r) (hl : ∀ a, (a :: l).IsChain r → (a :: l').IsChain r) :
    (pre ++ l').IsChain r := by
  obtain ⟨init, a, rfl⟩ := List.eq_nil_or_concat' pre |>.resolve_left hpre
  rw [List.append_assoc, List.singleton_append, List.isChain_split] at h ⊢
  exact ⟨h.1, hl a h.2⟩

end Orchid.Lib
