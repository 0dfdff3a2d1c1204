import Mathlib.Data.List.Enum
import Mathlib.Data.List.Nodup

/-!
# Nested enumerated loops

A loop over the elements of a list with their indices, with a loop inside, is one loop over the
flattened list. The flattened list has no duplicates if every entry tells its index.
-/

namespace Orchid.Lib

variable {α β σ : Type*}

/-- An inner loop for each element is one loop. -/
lemma foldlM_flatMap {ε : Type*} (f : α → List β) (g : σ → β → Except ε σ) (l : List α) (s : σ) :
    (l.flatMap f).foldlM g s = l.foldlM (fun s a => (f a).foldlM g s) s := by
  induction l generalizing s with
  | nil => simp
  | cons a l ih =>
    simp only [List.flatMap_cons, List.foldlM_append, List.foldlM_cons]
    exact congrArg _ (funext fun s => ih s)

/-- The last step of a loop that returns early. -/
lemma foldlM_concat {ε : Type*} (g : σ → β → Except ε σ) (l : List β) (b : β) (s : σ) :
    (l ++ [b]).foldlM g s = l.foldlM g s >>= fun s => g s b := by
  simp

/-- A loop that has returned early stays where it is. -/
lemma foldlM_append_error {ε : Type*} {g : σ → β → Except ε σ} {l : List β} {s : σ} {e : ε}
    (h : l.foldlM g s = .error e) (l' : List β) : (l ++ l').foldlM g s = .error e := by
  rw [List.foldlM_append, h]
  rfl

/-- The element at which a loop returns early. -/
lemma foldlM_eq_error {ε : Type*} {g : σ → β → Except ε σ} {l : List β} {b : β} {s s' : σ} {e : ε}
    (h : l.foldlM g s = .ok s') (hb : g s' b = .error e) (l' : List β) :
    (l ++ b :: l').foldlM g s = .error e := by
  have hl : (l ++ [b]).foldlM g s = .error e := by
    rw [foldlM_concat, h]
    exact hb
  simpa using foldlM_append_error hl l'

/-- A loop that ignores the indices. -/
lemma foldl_zipIdx (f : σ → α → σ) (l : List α) (s : σ) :
    l.foldl f s = l.zipIdx.foldl (fun s x => f s x.1) s := by
  conv_lhs => rw [← List.zipIdx_map_fst 0 l, List.foldl_map]

/-- The entries `f a i` of the elements `a` at index `i`. -/
def enumFlatMap (f : α → ℕ → List β) (l : List α) : List β := l.zipIdx.flatMap fun x => f x.1 x.2

lemma mem_enumFlatMap {f : α → ℕ → List β} {l : List α} {b : β} :
    b ∈ enumFlatMap f l ↔ ∃ i a, l[i]? = some a ∧ b ∈ f a i := by
  simp only [enumFlatMap, List.mem_flatMap, Prod.exists, List.mk_mem_zipIdx_iff_getElem?]
  exact exists_comm

lemma nodup_enumFlatMap {f : α → ℕ → List β} (l : List α) (idx : β → ℕ)
    (hf : ∀ a i, (f a i).Nodup) (hidx : ∀ a i, ∀ b ∈ f a i, idx b = i) :
    (enumFlatMap f l).Nodup := by
  refine List.nodup_flatMap.mpr ⟨fun x _ => hf _ _, ?_⟩
  have hsnd : (l.zipIdx.map Prod.snd).Nodup := by
    rw [List.zipIdx_map_snd]
    exact List.nodup_range'
  refine (List.pairwise_map.mp hsnd).imp ?_
  intro x y hne b hx hy
  exact hne ((hidx _ _ b hx).symm.trans (hidx _ _ b hy))

lemma map_enumFlatMap {γ : Type*} (g : β → γ) (f : α → ℕ → List β) (l : List α) :
    (enumFlatMap f l).map g = enumFlatMap (fun a i => (f a i).map g) l := by
  rw [enumFlatMap, List.map_flatMap]
  rfl

lemma enumFlatMap_const (f : α → List β) (l : List α) :
    enumFlatMap (fun a _ => f a) l = l.flatMap f := by
  conv_rhs => rw [← List.zipIdx_map_fst 0 l, List.flatMap_map]
  rfl

/-- Changing one element changes its entries only. -/
lemma enumFlatMap_set (f : α → ℕ → List β) {l : List α} {i : ℕ} {a : α} (h : l[i]? = some a) :
    ∃ pre post, enumFlatMap f l = pre ++ f a i ++ post ∧
      ∀ a', enumFlatMap f (l.set i a') = pre ++ f a' i ++ post := by
  obtain ⟨hi, rfl⟩ := List.getElem?_eq_some_iff.mp h
  have hset : ∀ a', enumFlatMap f (l.set i a') = (l.take i).zipIdx.flatMap (fun x => f x.1 x.2) ++
      f a' i ++ ((l.drop (i + 1)).zipIdx (i + 1)).flatMap fun x => f x.1 x.2 := by
    intro a'
    rw [enumFlatMap, List.set_eq_take_append_cons_drop, if_pos hi, List.zipIdx_append,
      List.zipIdx_cons, List.flatMap_append, List.flatMap_cons, List.length_take_of_le (Nat.le_of_lt hi),
      Nat.zero_add, List.append_assoc]
  refine ⟨_, _, ?_, hset⟩
  have hself := hset l[i]
  rwa [List.set_getElem_self] at hself

end Orchid.Lib
