import Mathlib.Data.List.InsertIdx
import Mathlib.Data.List.TakeWhile
import Mathlib.Logic.Function.Iterate

/-!
# Taking an entry out of a list and putting it back

When does an entry that was taken out and put back, or put in and taken out, leave the list as it
was: at its index always, at the end only if the entries behind it are all like it.
-/

namespace Orchid.Lib

variable {α : Type}

/-- Insert, behind the last entry if the index is beyond. -/
def insertClamped (idx : ℕ) (a : α) (l : List α) : List α := l.insertIdx (min idx l.length) a

/-- Insert if there is something to insert. -/
def insertOption (idx : ℕ) (a : Option α) (l : List α) : List α :=
  match a with
  | none => l
  | some a => insertClamped idx a l

lemma length_insertClamped (idx : ℕ) (a : α) (l : List α) :
    (insertClamped idx a l).length = l.length + 1 :=
  List.length_insertIdx_of_le_length (Nat.min_le_right _ _) a

lemma length_insertOption (idx : ℕ) (a : Option α) (l : List α) :
    (insertOption idx a l).length = l.length + if a.isSome then 1 else 0 := by
  cases a with
  | none => rfl
  | some a => exact length_insertClamped idx a l

/-- Erasing at the index takes out what was inserted exactly if the index was in range. -/
lemma eraseIdx_insertClamped_iff {idx : ℕ} {a : α} {l : List α} :
    (insertClamped idx a l).eraseIdx idx = l ↔ idx ≤ l.length := by
  constructor
  · intro h
    by_contra hlt
    have hlen := congrArg List.length h
    rw [List.eraseIdx_of_length_le, length_insertClamped] at hlen
    · omega
    · rw [length_insertClamped]
      omega
  · intro hle
    rw [insertClamped, Nat.min_eq_left hle]
    exact List.eraseIdx_insertIdx_self a

lemma eraseIdx_insertOption_iff {idx : ℕ} {a : Option α} {l : List α} :
    (insertOption idx a l).eraseIdx idx = l ↔
      if a.isSome then idx ≤ l.length else l.length ≤ idx := by
  cases a with
  | none => exact List.eraseIdx_eq_self
  | some a => exact eraseIdx_insertClamped_iff

/-- What was erased is put back at its index. -/
lemma insertOption_eraseIdx (idx : ℕ) (l : List α) :
    insertOption idx l[idx]? (l.eraseIdx idx) = l := by
  by_cases h : idx < l.length
  · rw [List.getElem?_eq_getElem h]
    show insertClamped idx l[idx] (l.eraseIdx idx) = l
    rw [insertClamped, List.length_eraseIdx_of_lt h, Nat.min_eq_left (by omega)]
    exact List.insertIdx_eraseIdx_getElem h
  · rw [List.getElem?_eq_none (by omega), List.eraseIdx_of_length_le (by omega)]
    rfl

lemma concat_eq_cons_iff {a b : α} {l : List α} : l ++ [b] = a :: l ↔ ∀ x ∈ a :: l, x = b := by
  induction l generalizing a with
  | nil => simp [eq_comm]
  | cons c l ih =>
    rw [List.cons_append, List.cons.injEq, ih]
    simp only [List.mem_cons, forall_eq_or_imp]
    constructor
    · rintro ⟨rfl, rfl, h⟩
      exact ⟨rfl, rfl, h⟩
    · rintro ⟨rfl, rfl, h⟩
      exact ⟨rfl, rfl, h⟩

/-- An entry put at the end and taken out as the first match leaves the list as it was exactly if
everything from the first match on is equal to it. -/
lemma eraseP_concat_eq_iff {p : α → Bool} {b : α} {l : List α} :
    (((l ++ [b]).find? p).isSome ∧ (l ++ [b]).eraseP p = l) ↔
      p b = true ∧ ∀ x ∈ l.dropWhile (fun x => !p x), x = b := by
  by_cases hl : ∀ x ∈ l, ¬ p x
  · have hdrop : l.dropWhile (fun x => !p x) = [] := by
      simpa [List.dropWhile_eq_nil_iff] using hl
    have herase : (l ++ [b]).eraseP p = if p b then l else l ++ [b] := by
      rw [List.eraseP_append_right]
      · by_cases hb : p b <;> simp [hb]
      · exact hl
    have hfind : (l ++ [b]).find? p = if p b then some b else none := by
      rw [List.find?_append, List.find?_eq_none.mpr hl]
      by_cases hb : p b <;> simp [hb]
    rw [hdrop, herase, hfind]
    by_cases hb : p b <;> simp [hb]
  · push Not at hl
    obtain ⟨c, hc, hpc⟩ := hl
    obtain ⟨a, pre, post, hpre, hpa, rfl, -⟩ := List.exists_of_eraseP hc hpc
    have hdrop : (pre ++ a :: post).dropWhile (fun x => !p x) = a :: post := by
      rw [List.dropWhile_append_of_pos]
      · simp [hpa]
      · intro x hx
        simpa using hpre x hx
    have herase : (pre ++ a :: post ++ [b]).eraseP p = pre ++ (post ++ [b]) := by
      rw [List.append_assoc, List.eraseP_append_right _ hpre]
      simp [hpa]
    rw [hdrop, herase, List.append_cancel_left_eq, concat_eq_cons_iff]
    constructor
    · rintro ⟨-, h⟩
      exact ⟨h a (by simp) ▸ hpa, h⟩
    · rintro ⟨-, h⟩
      exact ⟨by simp [hpa], h⟩

/-- The first match taken out and put at the end leaves the list as it was exactly if everything
from it on is equal to it. -/
lemma eraseP_concat_self_iff {p : α → Bool} {a : α} {l : List α} (h : l.find? p = some a) :
    l.eraseP p ++ [a] = l ↔ ∀ x ∈ l.dropWhile (fun x => !p x), x = a := by
  obtain ⟨hpa, pre, post, rfl, hpre⟩ := List.find?_eq_some_iff_append.mp h
  have hpre' : ∀ x ∈ pre, ¬ p x := fun x hx => by simpa using hpre x hx
  rw [List.eraseP_append_right _ hpre', List.dropWhile_append_of_pos hpre, List.append_assoc,
    List.append_cancel_left_eq]
  have hdrop : (a :: post).dropWhile (fun x => !p x) = a :: post := by simp [hpa]
  rw [List.eraseP_cons_of_pos hpa, hdrop, concat_eq_cons_iff]

lemma modify_append_length (pre : List α) (a : α) (post : List α) (f : α → α) :
    (pre ++ a :: post).modify pre.length f = pre ++ f a :: post := by
  induction pre with
  | nil => rfl
  | cons b pre ih => exact congrArg (b :: ·) ih

/-- Entries drained behind a changed entry. -/
lemma take_drop_modify {l : List α} {i j : ℕ} (hi : i < l.length) (hij : i ≤ j) (a : α)
    (f : α → α) : ((l.set i a).take (i + 1) ++ (l.set i a).drop (j + 1)).modify i f =
      l.take i ++ f a :: l.drop (j + 1) := by
  have htake : (l.set i a).take (i + 1) = l.take i ++ [a] := by
    rw [List.take_add_one, List.take_set_of_le le_rfl, List.getElem?_set_self hi]
    rfl
  have hdrop : (l.set i a).drop (j + 1) = l.drop (j + 1) := List.drop_set_of_lt (by omega)
  have hlen : (l.take i).length = i := List.length_take_of_le hi.le
  have hmodify := modify_append_length (l.take i) a (l.drop (j + 1)) f
  rw [hlen] at hmodify
  rw [htake, hdrop, List.append_assoc, List.singleton_append, hmodify]

lemma insertIdx_eq_take_append {l : List α} {i : ℕ} (hi : i ≤ l.length) (a : α) :
    l.insertIdx i a = l.take i ++ a :: l.drop i := by
  induction l generalizing i with
  | nil =>
    obtain rfl := Nat.le_zero.mp hi
    rfl
  | cons b l ih =>
    cases i with
    | zero => rfl
    | succ i => simpa using ih (by simpa using hi)

/-- An entry changed, with another one behind it. -/
lemma insertIdx_set_succ {l : List α} {i : ℕ} (hi : i < l.length) (a b : α) :
    (l.set i a).insertIdx (i + 1) b = l.take i ++ a :: b :: l.drop (i + 1) := by
  induction l generalizing i with
  | nil => simp at hi
  | cons c l ih =>
    cases i with
    | zero => simp
    | succ i => simpa using ih (by simpa using hi)

/-- An entry with what is before and behind it. -/
lemma exists_append_of_getElem? {l : List α} {i : ℕ} {a : α} (h : l[i]? = some a) :
    ∃ pre post, l = pre ++ a :: post ∧ pre.length = i := by
  obtain ⟨hi, rfl⟩ := List.getElem?_eq_some_iff.mp h
  refine ⟨l.take i, l.drop (i + 1), ?_, List.length_take_of_le hi.le⟩
  rw [List.getElem_cons_drop, List.take_append_drop]

/-- The entries of a range changed one after the other. -/
lemma foldl_modify_range' (pre : List α) {l : List α} {n : ℕ} (hn : n ≤ l.length) (f : α → α) :
    (List.range' pre.length n).foldl (fun l i => l.modify i f) (pre ++ l) =
      pre ++ ((l.take n).map f ++ l.drop n) := by
  induction n generalizing pre l with
  | zero => simp
  | succ n ih =>
    cases l with
    | nil => simp at hn
    | cons a l =>
      rw [List.range'_succ, List.foldl_cons, modify_append_length]
      have := ih (pre ++ [f a]) (Nat.le_of_succ_le_succ hn)
      rw [List.length_append, List.length_singleton, List.append_assoc] at this
      simpa using this

/-- The same entry put in again and again at one place. -/
lemma iterate_insertIdx (pre post : List α) (a : α) (n : ℕ) :
    (fun l : List α => l.insertIdx (min pre.length l.length) a)^[n] (pre ++ post) =
      pre ++ (List.replicate n a ++ post) := by
  induction n with
  | zero => rfl
  | succ n ih =>
    rw [Function.iterate_succ_apply', ih]
    have hmin : min pre.length (pre ++ (List.replicate n a ++ post)).length = pre.length := by
      simp
    rw [hmin, insertIdx_eq_take_append (by simp), List.take_left, List.drop_left]
    rfl

end Orchid.Lib
