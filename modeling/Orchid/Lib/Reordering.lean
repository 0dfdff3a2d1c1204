import Mathlib.Data.List.Nodup

/-!
# Moving entries of a list

Two entries that change places, and an entry that comes to the front when it is used. Of the list
with what was used last in front, cutting it after each use is the same as cutting it at the end.
-/

namespace Orchid.Lib

variable {α : Type*}

/-! ### Exchanging two entries -/

/-- The entries at two places change places; a list without one of the places stays. -/
def swapAt (i j : ℕ) (l : List α) : List α :=
  match l[i]?, l[j]? with
  | some a, some b => (l.set i b).set j a
  | _, _ => l

lemma swapAt_perm (i j : ℕ) (l : List α) : (swapAt i j l).Perm l := by
  unfold swapAt
  split
  · rename_i a b ha hb
    obtain ⟨hi, rfl⟩ := List.getElem?_eq_some_iff.mp ha
    obtain ⟨hj, rfl⟩ := List.getElem?_eq_some_iff.mp hb
    exact List.set_set_perm hi hj
  · exact .refl l

@[simp] lemma length_swapAt (i j : ℕ) (l : List α) : (swapAt i j l).length = l.length :=
  (swapAt_perm i j l).length_eq

/-- What stands at each place after the exchange. -/
lemma getElem?_swapAt {i j : ℕ} {l : List α} (hi : i < l.length) (hj : j < l.length) (k : ℕ) :
    (swapAt i j l)[k]? = if k = j then l[i]? else if k = i then l[j]? else l[k]? := by
  have hab : swapAt i j l = (l.set i l[j]).set j l[i] := by
    simp [swapAt, hi, hj]
  rw [hab, List.getElem?_set, List.getElem?_set, List.length_set]
  by_cases hkj : j = k
  · subst hkj
    simp [hi, hj]
  · by_cases hki : i = k
    · subst hki
      simp [hi, hj, hkj, Ne.symm hkj]
    · simp [hkj, hki, Ne.symm hkj, Ne.symm hki]

/-! ### What was used last -/

variable [DecidableEq α] {a : α} {l : List α}

/-- A thing is used. -/
def touch (a : α) (l : List α) : List α := a :: l.filter (· ≠ a)

lemma nodup_touch (h : l.Nodup) : (touch a l).Nodup :=
  List.nodup_cons.mpr ⟨by simp, h.filter _⟩

lemma filter_ne_eq_self (h : a ∉ l) : l.filter (· ≠ a) = l := by
  refine List.filter_eq_self.mpr fun b hb => ?_
  simpa using fun heq : b = a => h (heq ▸ hb)

lemma take_filter_ne (h : l.Nodup) (n : ℕ) :
    ((l.take (n + 1)).filter (· ≠ a)).take n = (l.filter (· ≠ a)).take n := by
  induction l generalizing n with
  | nil => rfl
  | cons b l ih =>
    obtain ⟨hb, hl⟩ := List.nodup_cons.mp h
    by_cases hba : b = a
    · subst hba
      have hcut : b ∉ l.take n := fun hmem => hb (List.mem_of_mem_take hmem)
      rw [List.take_succ_cons, List.filter_cons_of_neg (by simp), List.filter_cons_of_neg (by simp),
        filter_ne_eq_self hcut, filter_ne_eq_self hb, List.take_take, Nat.min_self]
    · rw [List.take_succ_cons, List.filter_cons_of_pos (by simpa using hba),
        List.filter_cons_of_pos (by simpa using hba)]
      cases n with
      | zero => rfl
      | succ n => rw [List.take_succ_cons, List.take_succ_cons, ih hl n]

/-- A cut list goes on as the whole one would. -/
lemma take_touch (h : l.Nodup) (n : ℕ) :
    (touch a (l.take (n + 1))).take (n + 1) = (touch a l).take (n + 1) := by
  rw [touch, touch, List.take_succ_cons, List.take_succ_cons, take_filter_ne h n]

end Orchid.Lib
