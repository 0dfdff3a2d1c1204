import Mathlib.Data.List.Chain

/-!
# Elements that stand next to each other

The elements of a list that meet a predicate, with their indices. They stand next to each other if
no other element lies between two of them; then their indices follow one another.
-/

namespace Orchid.Lib

variable {α : Type*} {p : α → Bool} {l : List α} {x : α} {n : ℕ}

/-- Between two elements that meet the predicate every element does. -/
def Grouped (p : α → Bool) (l : List α) : Prop :=
  ∀ i j k : ℕ, i < j → j < k → ∀ a b c, l[i]? = some a → l[j]? = some b → l[k]? = some c →
    p a → p c → p b

/-- No element that meets the predicate lies behind one that does not. -/
def GroupedInFront (p : α → Bool) (l : List α) : Prop :=
  ∀ j k : ℕ, j < k → ∀ b c, l[j]? = some b → l[k]? = some c → p c → p b

/-- The elements that meet the predicate, with their indices counted from `n`. -/
def indexed (p : α → Bool) (l : List α) (n : ℕ) : List (α × ℕ) := (l.zipIdx n).filter fun x => p x.1

lemma indexed_cons_of_pos (h : p x) : indexed p (x :: l) n = (x, n) :: indexed p l (n + 1) := by
  simp [indexed, List.zipIdx_cons, h]

lemma indexed_cons_of_neg (h : ¬ p x) : indexed p (x :: l) n = indexed p l (n + 1) := by
  simp [indexed, List.zipIdx_cons, h]

lemma mem_indexed {y : α × ℕ} : y ∈ indexed p l 0 ↔ l[y.2]? = some y.1 ∧ p y.1 := by
  obtain ⟨y, i⟩ := y
  rw [indexed, List.mem_filter, List.mk_mem_zipIdx_iff_getElem?]

lemma le_of_mem_indexed {y : α × ℕ} (h : y ∈ indexed p l n) : n ≤ y.2 := by
  obtain ⟨y, i⟩ := y
  exact List.le_snd_of_mem_zipIdx (List.mem_of_mem_filter h)

/-- The indices rise. -/
lemma pairwise_indexed (p : α → Bool) (l : List α) (n : ℕ) :
    (indexed p l n).Pairwise fun x y => x.2 < y.2 := by
  induction l generalizing n with
  | nil => simp [indexed]
  | cons x l ih =>
    by_cases hx : p x
    · rw [indexed_cons_of_pos hx]
      exact (ih (n + 1)).cons fun y hy => le_of_mem_indexed hy
    · rw [indexed_cons_of_neg hx]
      exact ih (n + 1)

lemma indexed_eq_nil_iff : indexed p l n = [] ↔ ∀ c ∈ l, ¬ p c := by
  induction l generalizing n with
  | nil => simp [indexed]
  | cons x l ih =>
    by_cases hx : p x
    · simp [indexed_cons_of_pos hx, hx]
    · simp [indexed_cons_of_neg hx, ih, hx]

lemma groupedInFront_cons : GroupedInFront p (x :: l) ↔
    (p x ∧ GroupedInFront p l) ∨ (¬ p x ∧ ∀ c ∈ l, ¬ p c) := by
  by_cases hx : p x
  · constructor
    · exact fun h => .inl ⟨hx, fun j k hjk b c hb hc =>
        h (j + 1) (k + 1) (Nat.succ_lt_succ hjk) b c (by simpa using hb) (by simpa using hc)⟩
    · rintro (⟨-, h⟩ | ⟨hnot, -⟩) j k hjk b c hb hc hpc
      · cases j with
        | zero =>
          obtain rfl := Option.some.inj hb
          exact hx
        | succ j =>
          obtain ⟨k, rfl⟩ := Nat.exists_eq_succ_of_ne_zero (Nat.ne_zero_of_lt hjk)
          exact h j k (Nat.lt_of_succ_lt_succ hjk) b c (by simpa using hb) (by simpa using hc) hpc
      · exact absurd hx hnot
  · constructor
    · refine fun h => .inr ⟨hx, fun c hc hpc => ?_⟩
      obtain ⟨k, hk⟩ := List.mem_iff_getElem?.1 hc
      exact hx (h 0 (k + 1) k.succ_pos x c rfl (by simpa using hk) hpc)
    · rintro (⟨hpos, -⟩ | ⟨-, h⟩) j k hjk b c hb hc hpc
      · exact absurd hpos hx
      · obtain ⟨k, rfl⟩ := Nat.exists_eq_succ_of_ne_zero (Nat.ne_zero_of_lt hjk)
        exact absurd hpc (h c (List.mem_of_getElem? hc))

lemma grouped_cons : Grouped p (x :: l) ↔ if p x then GroupedInFront p l else Grouped p l := by
  split_ifs with hx
  · constructor
    · intro h j k hjk b c hb hc hpc
      exact h 0 (j + 1) (k + 1) j.succ_pos (Nat.succ_lt_succ hjk) x b c rfl (by simpa using hb)
        (by simpa using hc) hx hpc
    · intro h i j k hij hjk a b c ha hb hc _ hpc
      obtain ⟨j, rfl⟩ := Nat.exists_eq_succ_of_ne_zero (Nat.ne_zero_of_lt hij)
      obtain ⟨k, rfl⟩ := Nat.exists_eq_succ_of_ne_zero (Nat.ne_zero_of_lt hjk)
      exact h j k (Nat.lt_of_succ_lt_succ hjk) b c (by simpa using hb) (by simpa using hc) hpc
  · constructor
    · intro h i j k hij hjk a b c ha hb hc
      exact h (i + 1) (j + 1) (k + 1) (Nat.succ_lt_succ hij) (Nat.succ_lt_succ hjk) a b c
        (by simpa using ha) (by simpa using hb) (by simpa using hc)
    · intro h i j k hij hjk a b c ha hb hc hpa
      obtain ⟨j, rfl⟩ := Nat.exists_eq_succ_of_ne_zero (Nat.ne_zero_of_lt hij)
      obtain ⟨k, rfl⟩ := Nat.exists_eq_succ_of_ne_zero (Nat.ne_zero_of_lt hjk)
      cases i with
      | zero =>
        obtain rfl := Option.some.inj ha
        exact absurd hpa hx
      | succ i =>
        exact h i j k (Nat.lt_of_succ_lt_succ hij) (Nat.lt_of_succ_lt_succ hjk) a b c
          (by simpa using ha) (by simpa using hb) (by simpa using hc) hpa

lemma isChain_cons_indexed_iff :
    ((x, n) :: indexed p l (n + 1)).IsChain (fun x y => y.2 = x.2 + 1) ↔ GroupedInFront p l := by
  induction l generalizing x n with
  | nil => simp [indexed, GroupedInFront]
  | cons y l ih =>
    rw [groupedInFront_cons]
    by_cases hy : p y
    · rw [indexed_cons_of_pos hy, List.isChain_cons_cons, ih]
      simp [hy]
    · rw [indexed_cons_of_neg hy, List.isChain_cons]
      constructor
      · rintro ⟨hhead, -⟩
        refine .inr ⟨hy, fun c hc hpc => ?_⟩
        cases hrest : indexed p l (n + 1 + 1) with
        | nil => exact indexed_eq_nil_iff.1 hrest c hc hpc
        | cons z rest =>
          have hz : z.2 = n + 1 := hhead z (by simp [hrest])
          have hle : n + 1 + 1 ≤ z.2 := le_of_mem_indexed (p := p) (l := l) (by simp [hrest])
          omega
      · rintro (⟨hpos, -⟩ | ⟨-, hnone⟩)
        · exact absurd hpos hy
        · simp [indexed_eq_nil_iff.2 hnone]

/-- The indices follow one another exactly if the elements stand next to each other. -/
lemma isChain_indexed_iff :
    (indexed p l n).IsChain (fun x y => y.2 = x.2 + 1) ↔ Grouped p l := by
  induction l generalizing n with
  | nil => simp [indexed, Grouped]
  | cons x l ih =>
    rw [grouped_cons]
    split_ifs with hx
    · rw [indexed_cons_of_pos hx, isChain_cons_indexed_iff]
    · rw [indexed_cons_of_neg hx, ih]

end Orchid.Lib
