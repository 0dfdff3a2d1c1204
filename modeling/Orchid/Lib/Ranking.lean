import Mathlib.Data.List.Nodup
import Mathlib.Data.Nat.Basic
import Mathlib.Data.List.Perm.Basic
import Mathlib.Order.Lattice

/-!
# The best of a list

The elements of a list with the highest keys, by a stable sort and a cut. They depend on the order
of the list exactly if two elements of one key are among them or at the cut.
-/

namespace Orchid.Lib

variable {α β : Type*} [LinearOrder β] (f : α → β)

/-- The list in the order of falling keys; elements of one key stay in their order. -/
def ranking (l : List α) : List α := l.mergeSort fun a b => decide (f b ≤ f a)

/-- How many elements have a higher key. -/
def countAbove (l : List α) (a : α) : ℕ := l.countP fun b => decide (f a < f b)

/-- No two elements of one key are both among the best, or on both sides of the cut. -/
def NoTies (l : List α) (n : ℕ) : Prop :=
  ∀ a ∈ l, ∀ b ∈ l, a ≠ b → f a = f b → n ≤ countAbove f l a

variable {f} {l l' : List α} {a b : α} {n i : ℕ}

lemma ranking_perm (l : List α) : (ranking f l).Perm l := List.mergeSort_perm l _

lemma falling_trans (a b c : α) (hab : decide (f b ≤ f a) = true)
    (hbc : decide (f c ≤ f b) = true) : decide (f c ≤ f a) = true :=
  decide_eq_true ((of_decide_eq_true hbc).trans (of_decide_eq_true hab))

lemma falling_total (a b : α) : (decide (f b ≤ f a) || decide (f a ≤ f b)) = true := by
  rw [Bool.or_eq_true, decide_eq_true_iff, decide_eq_true_iff]
  exact le_total _ _

lemma pairwise_ranking (l : List α) : (ranking f l).Pairwise fun a b => f b ≤ f a :=
  (List.pairwise_mergeSort falling_trans falling_total l).imp fun h => of_decide_eq_true h

lemma countAbove_perm (h : l.Perm l') (a : α) : countAbove f l a = countAbove f l' a :=
  h.countP_eq _

/-- The first element of a list comes right behind those of higher keys. -/
lemma getElem?_ranking_cons (a : α) (l : List α) :
    (ranking f (a :: l))[countAbove f (a :: l) a]? = some a := by
  obtain ⟨front, back, hsort, -, hfront⟩ :=
    List.mergeSort_cons (falling_trans (f := f)) falling_total a l
  have hback : ∀ b ∈ back, f b ≤ f a := by
    have hpairwise := pairwise_ranking (f := f) (a :: l)
    rw [ranking, hsort, List.pairwise_append] at hpairwise
    exact fun b hb => List.rel_of_pairwise_cons hpairwise.2.1 hb
  have hcount : countAbove f (a :: l) a = front.length := by
    rw [← countAbove_perm (ranking_perm (f := f) (a :: l)), ranking, hsort, countAbove,
      List.countP_append, List.countP_cons_of_neg (by simp), List.countP_eq_length.mpr,
      List.countP_eq_zero.mpr, Nat.add_zero]
    · intro b hb
      rw [decide_eq_true_iff]
      exact not_lt.mpr (hback b hb)
    · intro b hb
      have hnot := hfront b hb
      rw [Bool.not_eq_true', decide_eq_false_iff_not] at hnot
      exact decide_eq_true (not_le.mp hnot)
  rw [hcount, ranking, hsort, List.getElem?_append_right (Nat.le_refl _), Nat.sub_self]
  rfl

/-- In a list of falling keys an element has at most those in front of it above. -/
lemma countAbove_le (h : l.Pairwise fun a b => f b ≤ f a) (hi : l[i]? = some a) :
    countAbove f l a ≤ i := by
  obtain ⟨hlt, rfl⟩ := List.getElem?_eq_some_iff.mp hi
  have hback : ((l.drop i).countP fun b => decide (f l[i] < f b)) = 0 := by
    rw [List.countP_eq_zero]
    intro b hb
    rw [decide_eq_true_iff, not_lt]
    rw [List.drop_eq_getElem_cons hlt] at hb
    rcases List.mem_cons.mp hb with rfl | hb
    · exact le_rfl
    · have hdrop := h.sublist (List.drop_sublist i l)
      rw [List.drop_eq_getElem_cons hlt] at hdrop
      exact List.rel_of_pairwise_cons hdrop hb
  calc countAbove f l l[i]
      = countAbove f (l.take i ++ l.drop i) l[i] := by rw [List.take_append_drop]
    _ = (l.take i).countP fun b => decide (f l[i] < f b) := by
      rw [countAbove, List.countP_append, hback, Nat.add_zero]
    _ ≤ (l.take i).length := List.countP_le_length
    _ ≤ i := List.length_take_le _ _

/-- Without ties exactly those in front of it are above an element among the best. -/
lemma countAbove_eq (h : l.Pairwise fun a b => f b ≤ f a) (hnodup : l.Nodup)
    (hties : NoTies f l n) (hi : l[i]? = some a) (hin : i < n) : countAbove f l a = i := by
  refine (countAbove_le h hi).antisymm ?_
  obtain ⟨hlt, rfl⟩ := List.getElem?_eq_some_iff.mp hi
  have hfront : ((l.take i).countP fun b => decide (f l[i] < f b)) = i := by
    have hall : ((l.take i).countP fun b => decide (f l[i] < f b)) = (l.take i).length := by
      rw [List.countP_eq_length]
      intro b hb
      obtain ⟨j, hj, rfl⟩ := List.mem_take_iff_getElem.mp hb
      have hji : j < i := hj.trans_le (Nat.min_le_left _ _)
      have hle : f l[i] ≤ f l[j] := List.pairwise_iff_getElem.mp h j i _ hlt hji
      refine decide_eq_true (lt_of_le_of_ne hle fun heq => ?_)
      have hne : l[i] ≠ l[j] := fun hsame =>
        hji.ne' ((List.Nodup.getElem_inj_iff hnodup).mp hsame)
      exact absurd ((hties _ (List.getElem_mem hlt) _ (List.getElem_mem _) hne heq).trans
        (countAbove_le h hi)) (not_le.mpr hin)
    rw [hall, List.length_take_of_le hlt.le]
  calc i = (l.take i).countP fun b => decide (f l[i] < f b) := hfront.symm
    _ ≤ countAbove f l l[i] := List.Sublist.countP_le (List.take_sublist i l)

/-- Without ties an element among the best is known by how many are above it. -/
lemma eq_of_countAbove_eq (hties : NoTies f l n) (ha : a ∈ l) (hb : b ∈ l)
    (h : countAbove f l a = countAbove f l b) (hn : countAbove f l a < n) : a = b := by
  by_contra hne
  have hlt : ∀ {x y : α}, y ∈ l → f x < f y → countAbove f l y < countAbove f l x := by
    intro x y hy hxy
    have hmono : countAbove f l y + 1 ≤ countAbove f l x := by
      obtain ⟨front, back, rfl⟩ := List.append_of_mem hy
      have hle : ∀ m : List α, (m.countP fun b => decide (f y < f b)) ≤
          m.countP fun b => decide (f x < f b) := fun m =>
        List.countP_mono_left fun b _ hb => decide_eq_true (hxy.trans (of_decide_eq_true hb))
      have hfront := hle front
      have hback := hle back
      rw [countAbove, countAbove, List.countP_append, List.countP_append,
        List.countP_cons_of_neg (by simp),
        List.countP_cons_of_pos (p := fun b => decide (f x < f b)) (decide_eq_true hxy)]
      omega
    exact hmono
  rcases lt_trichotomy (f a) (f b) with hab | hab | hab
  · exact absurd h (hlt hb hab).ne'
  · exact absurd (hties a ha b hb hne hab) (not_le.mpr hn)
  · exact absurd h (hlt ha hab).ne

/-- Without ties the best elements are those with less than so many above them. -/
lemma mem_take_ranking (hnodup : l.Nodup) (hties : NoTies f l n) :
    a ∈ (ranking f l).take n ↔ a ∈ l ∧ countAbove f l a < n := by
  have hperm := ranking_perm (f := f) l
  have hties' : NoTies f (ranking f l) n := by
    intro x hx y hy hne heq
    rw [countAbove_perm hperm]
    exact hties x (hperm.mem_iff.mp hx) y (hperm.mem_iff.mp hy) hne heq
  constructor
  · intro ha
    obtain ⟨i, hi, rfl⟩ := List.mem_take_iff_getElem.mp ha
    have hin := (hi.trans_le (Nat.min_le_left _ _))
    have hlt := (hi.trans_le (Nat.min_le_right _ _))
    refine ⟨hperm.mem_iff.mp (List.getElem_mem _), ?_⟩
    rw [← countAbove_perm hperm]
    exact (countAbove_le (pairwise_ranking l) (List.getElem?_eq_getElem hlt)).trans_lt hin
  · rintro ⟨ha, hn⟩
    have hlt : countAbove f l a < (ranking f l).length := by
      rw [hperm.length_eq]
      refine (List.countP_le_length).lt_of_ne fun heq => ?_
      have hself := List.countP_eq_length.mp heq a ha
      exact lt_irrefl _ (of_decide_eq_true hself)
    have hget := List.getElem?_eq_getElem hlt
    have hmem := hperm.mem_iff.mp (List.getElem_mem hlt)
    have hcount := countAbove_eq (pairwise_ranking l) (hperm.nodup_iff.mpr hnodup) hties' hget hn
    rw [countAbove_perm hperm] at hcount
    rw [eq_of_countAbove_eq hties ha hmem hcount.symm hn]
    exact List.mem_take_iff_getElem.mpr ⟨_, lt_min hn hlt, rfl⟩

/-- The best elements are the same in every order of the list exactly without ties. -/
theorem take_ranking_eq_iff (hnodup : l.Nodup) :
    (∀ l₁ l₂ : List α, l₁.Perm l → l₂.Perm l →
      (ranking f l₁).take n = (ranking f l₂).take n) ↔ NoTies f l n := by
  constructor
  · intro h a ha b hb hne heq
    by_contra hlt
    obtain ⟨la, hla⟩ : ∃ la, (a :: la).Perm l := by
      obtain ⟨front, back, rfl⟩ := List.append_of_mem ha
      exact ⟨front ++ back, List.perm_middle.symm⟩
    obtain ⟨lb, hlb⟩ : ∃ lb, (b :: lb).Perm l := by
      obtain ⟨front, back, rfl⟩ := List.append_of_mem hb
      exact ⟨front ++ back, List.perm_middle.symm⟩
    have hab : countAbove f l b = countAbove f l a := by rw [countAbove, countAbove, heq]
    have hfirst := congrArg (fun m => m[countAbove f l a]?) (h _ _ hla hlb)
    simp only [List.getElem?_take_of_lt (not_le.mp hlt)] at hfirst
    have hia := getElem?_ranking_cons (f := f) a la
    have hib := getElem?_ranking_cons (f := f) b lb
    rw [countAbove_perm hla] at hia
    rw [countAbove_perm hlb, hab] at hib
    exact hne (Option.some.inj (hia.symm.trans (hfirst.trans hib)))
  · intro hties l₁ l₂ h₁ h₂
    have hspec : ∀ {m : List α}, m.Perm l → ∀ {i : ℕ} {a : α}, i < n →
        (ranking f m)[i]? = some a → a ∈ l ∧ countAbove f l a = i := by
      intro m hm i a hin hi
      have hperm := (ranking_perm (f := f) m).trans hm
      refine ⟨hperm.mem_iff.mp (List.mem_of_getElem? hi), ?_⟩
      rw [← countAbove_perm hperm]
      refine countAbove_eq (pairwise_ranking m) (hperm.nodup_iff.mpr hnodup) ?_ hi hin
      intro x hx y hy hne heq
      rw [countAbove_perm hperm]
      exact hties x (hperm.mem_iff.mp hx) y (hperm.mem_iff.mp hy) hne heq
    refine List.ext_getElem? fun i => ?_
    by_cases hin : i < n
    · rw [List.getElem?_take_of_lt hin, List.getElem?_take_of_lt hin]
      have hlen : (ranking f l₁).length = (ranking f l₂).length :=
        (((ranking_perm l₁).trans h₁).trans ((ranking_perm l₂).trans h₂).symm).length_eq
      by_cases hlt : i < (ranking f l₁).length
      · have hget₁ := List.getElem?_eq_getElem hlt
        have hget₂ := List.getElem?_eq_getElem (hlen ▸ hlt)
        obtain ⟨hmem₁, hcount₁⟩ := hspec h₁ hin hget₁
        obtain ⟨hmem₂, hcount₂⟩ := hspec h₂ hin hget₂
        rw [hget₁, hget₂, eq_of_countAbove_eq hties hmem₁ hmem₂ (hcount₁.trans hcount₂.symm)
          (hcount₁.trans_lt hin)]
      · rw [List.getElem?_eq_none (not_lt.mp hlt), List.getElem?_eq_none (hlen ▸ not_lt.mp hlt)]
    · rw [List.getElem?_take_eq_none (not_lt.mp hin), List.getElem?_take_eq_none (not_lt.mp hin)]

end Orchid.Lib
