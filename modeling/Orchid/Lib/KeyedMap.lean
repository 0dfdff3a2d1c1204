import Mathlib.Algebra.GroupWithZero.Nat
import Mathlib.Data.List.Pairwise
import Mathlib.Data.List.Sort
import Mathlib.Order.Basic

/-!
# Ordered maps whose values carry their key

`KeyedMap key` is a finite map from keys to values in which every value `v` sits under `key v`.
The values are kept in strictly ascending key order, so that iterating over the map is reading
the list, and two maps with the same values are equal.
-/

namespace Orchid.Lib

variable {κ ν : Type*} [LinearOrder κ]

/-- A finite map keyed by a function of the value, in ascending key order. -/
structure KeyedMap (key : ν → κ) where
  toList : List ν
  sorted : toList.Pairwise fun a b => key a < key b

namespace KeyedMap

variable {key : ν → κ}

/-! ### Operations -/

/-- Sorted insertion; a value with the same key is replaced. -/
def insertList (key : ν → κ) (v : ν) : List ν → List ν
  | [] => [v]
  | w :: ws =>
    if key v < key w then v :: w :: ws
    else if key w < key v then w :: insertList key v ws
    else v :: ws

lemma mem_insertList_imp (v w : ν) (l : List ν) (h : w ∈ insertList key v l) :
    w = v ∨ w ∈ l := by
  induction l with
  | nil => simpa [insertList] using h
  | cons u us ih =>
    simp only [insertList] at h
    split_ifs at h with h₁ h₂
    · simpa using h
    · rcases List.mem_cons.mp h with rfl | h
      · simp
      · exact (ih h).imp_right (List.mem_cons_of_mem u)
    · exact (List.mem_cons.mp h).imp_right (List.mem_cons_of_mem u)

lemma pairwise_insertList (v : ν) (l : List ν) (h : l.Pairwise fun a b => key a < key b) :
    (insertList key v l).Pairwise fun a b => key a < key b := by
  induction l with
  | nil => simp [insertList]
  | cons u us ih =>
    obtain ⟨hu, hus⟩ := List.pairwise_cons.mp h
    simp only [insertList]
    split_ifs with h₁ h₂
    · refine List.pairwise_cons.mpr ⟨fun w hw => ?_, h⟩
      rcases List.mem_cons.mp hw with rfl | hw
      · exact h₁
      · exact h₁.trans (hu w hw)
    · refine List.pairwise_cons.mpr ⟨fun w hw => ?_, ih hus⟩
      rcases mem_insertList_imp v w us hw with rfl | hw
      · exact h₂
      · exact hu w hw
    · have heq : key v = key u := le_antisymm (not_lt.mp h₂) (not_lt.mp h₁)
      exact List.pairwise_cons.mpr ⟨fun w hw => heq ▸ hu w hw, hus⟩

/-- The map without entries. -/
def empty : KeyedMap key := ⟨[], List.Pairwise.nil⟩

/-- The value stored under a key. -/
def find? (m : KeyedMap key) (k : κ) : Option ν := m.toList.find? fun v => key v = k

/-- Whether a key is present. -/
def contains (m : KeyedMap key) (k : κ) : Bool := m.toList.any fun v => key v = k

/-- Store a value under its key. -/
def insert (m : KeyedMap key) (v : ν) : KeyedMap key :=
  ⟨insertList key v m.toList, pairwise_insertList v m.toList m.sorted⟩

instance : Membership ν (KeyedMap key) := ⟨fun m v => v ∈ m.toList⟩

lemma mem_def (m : KeyedMap key) (v : ν) : v ∈ m ↔ v ∈ m.toList := Iff.rfl

@[simp] lemma mem_empty (v : ν) : ¬ v ∈ (empty : KeyedMap key) := by simp [mem_def, empty]

lemma contains_iff (m : KeyedMap key) (k : κ) : m.contains k = true ↔ ∃ v ∈ m, key v = k := by
  simp [contains, mem_def]

/-! ### Values are determined by their keys -/

/-- A key occurs once. -/
lemma eq_of_key_eq {m : KeyedMap key} {v w : ν} (hv : v ∈ m) (hw : w ∈ m)
    (h : key v = key w) : v = w := by
  by_contra hne
  have hne_keys : m.toList.Pairwise fun a b => key a ≠ key b := m.sorted.imp fun hlt => hlt.ne
  have : Std.Symm fun a b : ν => key a ≠ key b := ⟨fun _ _ hab => hab.symm⟩
  exact hne_keys.forall hv hw hne h

/-- Maps with the same values are equal. -/
lemma ext_mem {m₁ m₂ : KeyedMap key} (h : ∀ v, v ∈ m₁ ↔ v ∈ m₂) : m₁ = m₂ := by
  obtain ⟨l₁, s₁⟩ := m₁
  obtain ⟨l₂, s₂⟩ := m₂
  have : Std.Irrefl fun a b : ν => key a < key b := ⟨fun a => lt_irrefl (key a)⟩
  have : Std.Antisymm fun a b : ν => key a < key b :=
    ⟨fun a b hab hba => absurd hab hba.asymm⟩
  have : l₁ = l₂ := s₁.eq_of_mem_iff s₂ h
  subst this
  rfl

/-- The values of a map occur once. -/
lemma nodup (m : KeyedMap key) : m.toList.Nodup :=
  m.sorted.imp fun hlt heq => by subst heq; exact lt_irrefl _ hlt

lemma find?_eq_some_iff (m : KeyedMap key) (k : κ) (v : ν) :
    m.find? k = some v ↔ v ∈ m ∧ key v = k := by
  constructor
  · intro h
    exact ⟨List.mem_of_find?_eq_some h, by simpa using List.find?_some h⟩
  · rintro ⟨hv, rfl⟩
    rcases hf : m.find? (key v) with _ | w
    · have := List.find?_eq_none.mp hf v hv
      simp at this
    · have hw : key w = key v := by simpa using List.find?_some hf
      rw [eq_of_key_eq (List.mem_of_find?_eq_some hf) hv hw]

/-! ### Inserting a new key -/

lemma insertList_split (v : ν) (l : List ν) (hl : l.Pairwise fun a b => key a < key b)
    (hnew : ∀ w ∈ l, key w ≠ key v) :
    ∃ l₁ l₂, l = l₁ ++ l₂ ∧ insertList key v l = l₁ ++ v :: l₂ ∧
      (∀ w ∈ l₁, key w < key v) ∧ (∀ w ∈ l₂, key v < key w) := by
  induction l with
  | nil => exact ⟨[], [], by simp [insertList]⟩
  | cons u us ih =>
    obtain ⟨hu, hus⟩ := List.pairwise_cons.mp hl
    rcases lt_or_gt_of_ne (hnew u (by simp)) with hlt | hgt
    · obtain ⟨l₁, l₂, rfl, hins, h₁, h₂⟩ := ih hus fun w hw => hnew w (by simp [hw])
      refine ⟨u :: l₁, l₂, rfl, ?_, ?_, h₂⟩
      · simp [insertList, hlt.not_gt, hlt, hins]
      · intro w hw
        rcases List.mem_cons.mp hw with rfl | hw
        · exact hlt
        · exact h₁ w hw
    · refine ⟨[], u :: us, rfl, by simp [insertList, hgt], by simp, ?_⟩
      intro w hw
      rcases List.mem_cons.mp hw with rfl | hw
      · exact hgt
      · exact lt_trans hgt (hu w hw)

/-- A new value goes between the smaller and the greater keys. -/
lemma insert_split (m : KeyedMap key) (v : ν) (hnew : m.contains (key v) = false) :
    ∃ l₁ l₂, m.toList = l₁ ++ l₂ ∧ (m.insert v).toList = l₁ ++ v :: l₂ ∧
      (∀ w ∈ l₁, key w < key v) ∧ (∀ w ∈ l₂, key v < key w) := by
  refine insertList_split v m.toList m.sorted fun w hw heq => ?_
  have : m.contains (key v) = true := (contains_iff m _).mpr ⟨w, hw, heq⟩
  simp [hnew] at this

lemma mem_insert (m : KeyedMap key) (v w : ν) (hnew : m.contains (key v) = false) :
    w ∈ m.insert v ↔ w = v ∨ w ∈ m := by
  obtain ⟨l₁, l₂, h, hins, -, -⟩ := insert_split m v hnew
  rw [mem_def, mem_def, hins, h]
  simp only [List.mem_append, List.mem_cons]
  tauto

/-! ### Replacing and erasing -/

lemma mem_insertList (v w : ν) (l : List ν) (hl : l.Pairwise fun a b => key a < key b) :
    w ∈ insertList key v l ↔ w = v ∨ (w ∈ l ∧ key w ≠ key v) := by
  induction l with
  | nil => simp [insertList]
  | cons u us ih =>
    obtain ⟨hu, hus⟩ := List.pairwise_cons.mp hl
    simp only [insertList]
    split_ifs with h₁ h₂
    · have hall : ∀ x ∈ u :: us, key x ≠ key v := by
        intro x hx
        rcases List.mem_cons.mp hx with rfl | hx
        · exact h₁.ne'
        · exact (h₁.trans (hu x hx)).ne'
      rw [List.mem_cons]
      exact or_congr_right' fun _ => ⟨fun hw => ⟨hw, hall w hw⟩, And.left⟩
    · rw [List.mem_cons, ih hus, List.mem_cons]
      constructor
      · rintro (rfl | rfl | ⟨hw, hne⟩)
        · exact Or.inr ⟨Or.inl rfl, h₂.ne⟩
        · exact Or.inl rfl
        · exact Or.inr ⟨Or.inr hw, hne⟩
      · rintro (rfl | ⟨rfl | hw, hne⟩)
        · exact Or.inr (Or.inl rfl)
        · exact Or.inl rfl
        · exact Or.inr (Or.inr ⟨hw, hne⟩)
    · have heq : key v = key u := le_antisymm (not_lt.mp h₂) (not_lt.mp h₁)
      have hall : ∀ x ∈ us, key x ≠ key v := fun x hx => heq ▸ (hu x hx).ne'
      rw [List.mem_cons, List.mem_cons]
      constructor
      · rintro (rfl | hw)
        · exact Or.inl rfl
        · exact Or.inr ⟨Or.inr hw, hall w hw⟩
      · rintro (rfl | ⟨rfl | hw, hne⟩)
        · exact Or.inl rfl
        · exact absurd heq.symm hne
        · exact Or.inr hw

/-- Storing a value takes the place of the one that had its key. -/
lemma mem_insert_iff (m : KeyedMap key) (v w : ν) :
    w ∈ m.insert v ↔ w = v ∨ (w ∈ m ∧ key w ≠ key v) :=
  mem_insertList v w m.toList m.sorted

lemma find?_insert (m : KeyedMap key) (v : ν) (k : κ) :
    (m.insert v).find? k = if key v = k then some v else m.find? k := by
  split_ifs with h
  · exact (find?_eq_some_iff _ _ _).mpr ⟨(mem_insert_iff _ _ _).mpr (.inl rfl), h⟩
  · refine Option.ext fun w => ?_
    rw [find?_eq_some_iff, find?_eq_some_iff, mem_insert_iff]
    constructor
    · rintro ⟨rfl | hw, hk⟩
      · exact absurd hk h
      · exact ⟨hw.1, hk⟩
    · exact fun hw => ⟨.inr ⟨hw.1, fun heq => h (heq.symm.trans hw.2)⟩, hw.2⟩

/-- The map without the value of a key. -/
def erase (m : KeyedMap key) (k : κ) : KeyedMap key :=
  ⟨m.toList.filter fun v => key v ≠ k, m.sorted.filter _⟩

@[simp] lemma mem_erase (m : KeyedMap key) (k : κ) (w : ν) :
    w ∈ m.erase k ↔ w ∈ m ∧ key w ≠ k := by
  simp [mem_def, erase]

/-- Inserting a value replaces those of its key in a sum over the map. -/
lemma sum_insert (m : KeyedMap key) (v : ν) (f : ν → ℕ) :
    ((m.insert v).toList.map f).sum + ((m.toList.filter fun w => key w = key v).map f).sum =
      (m.toList.map f).sum + f v := by
  have hinsert : (m.insert v).toList.Perm (v :: m.toList.filter fun w => ¬ key w = key v) := by
    refine (List.perm_ext_iff_of_nodup (m.insert v).nodup ?_).mpr fun w => ?_
    · exact List.nodup_cons.mpr ⟨by simp, m.nodup.filter _⟩
    · simpa [mem_def] using mem_insert_iff m v w
  have hsplit := List.filter_append_perm (fun w => decide (key w = key v)) m.toList
  have h₁ := (hinsert.map f).sum_nat
  have h₂ := (hsplit.map f).sum_nat
  rw [List.map_cons, List.sum_cons] at h₁
  rw [List.map_append, List.sum_append] at h₂
  simp only [decide_not] at h₁
  omega

/-! ### Union

The first map wins where both have a key. On maps whose values come from a pool in which a key
determines the value, union is a join: commutative, associative and idempotent. -/

/-- Insert a value unless its key is present. -/
def insertNew (m : KeyedMap key) (v : ν) : KeyedMap key :=
  if m.contains (key v) = true then m else m.insert v

/-- All values of `m`, and those of `m'` under other keys. -/
def union (m m' : KeyedMap key) : KeyedMap key := m'.toList.foldl insertNew m

lemma mem_insertNew (m : KeyedMap key) (v w : ν) :
    w ∈ m.insertNew v ↔ w ∈ m ∨ (w = v ∧ m.contains (key v) = false) := by
  unfold insertNew
  split_ifs with h
  · simp [h]
  · rw [mem_insert m v w (by simpa using h)]
    simp [h, or_comm]

section Pool

variable {S : Set ν}

lemma mem_foldl_insertNew (hS : S.InjOn key) (l : List ν) (m : KeyedMap key)
    (hm : ∀ v ∈ m, v ∈ S) (hl : ∀ v ∈ l, v ∈ S) (w : ν) :
    w ∈ l.foldl insertNew m ↔ w ∈ m ∨ w ∈ l := by
  induction l generalizing m with
  | nil => simp
  | cons v l ih =>
    have hv : v ∈ S := hl v (by simp)
    have hstep : ∀ w, w ∈ m.insertNew v ↔ w ∈ m ∨ w = v := by
      intro w
      rw [mem_insertNew]
      refine or_congr_right' fun hw => ⟨And.left, fun hwv => ⟨hwv, ?_⟩⟩
      by_contra hc
      obtain ⟨u, hu, huv⟩ := (contains_iff m _).mp (by simpa using hc)
      exact hw (hwv ▸ hS (hm u hu) hv huv ▸ hu)
    rw [List.foldl_cons, ih (m.insertNew v) ?_ fun u hu => hl u (by simp [hu]), hstep]
    · simp [or_assoc]
    · intro u hu
      rcases (hstep u).mp hu with hu | rfl
      · exact hm u hu
      · exact hv

lemma mem_union (hS : S.InjOn key) {m m' : KeyedMap key} (hm : ∀ v ∈ m, v ∈ S)
    (hm' : ∀ v ∈ m', v ∈ S) (w : ν) : w ∈ m.union m' ↔ w ∈ m ∨ w ∈ m' :=
  mem_foldl_insertNew hS m'.toList m hm hm' w

lemma union_mem_pool (hS : S.InjOn key) {m m' : KeyedMap key} (hm : ∀ v ∈ m, v ∈ S)
    (hm' : ∀ v ∈ m', v ∈ S) : ∀ v ∈ m.union m', v ∈ S := by
  intro v hv
  rcases (mem_union hS hm hm' v).mp hv with hv | hv
  · exact hm v hv
  · exact hm' v hv

lemma union_comm (hS : S.InjOn key) {m m' : KeyedMap key} (hm : ∀ v ∈ m, v ∈ S)
    (hm' : ∀ v ∈ m', v ∈ S) : m.union m' = m'.union m := by
  refine ext_mem fun v => ?_
  rw [mem_union hS hm hm', mem_union hS hm' hm, or_comm]

lemma union_assoc (hS : S.InjOn key) {m m' m'' : KeyedMap key} (hm : ∀ v ∈ m, v ∈ S)
    (hm' : ∀ v ∈ m', v ∈ S) (hm'' : ∀ v ∈ m'', v ∈ S) :
    (m.union m').union m'' = m.union (m'.union m'') := by
  refine ext_mem fun v => ?_
  rw [mem_union hS (union_mem_pool hS hm hm') hm'', mem_union hS hm hm',
    mem_union hS hm (union_mem_pool hS hm' hm''), mem_union hS hm' hm'', or_assoc]

/-- Taking in a map whose values are all there changes nothing. -/
lemma union_eq_left (hS : S.InjOn key) {m m' : KeyedMap key} (hm : ∀ v ∈ m, v ∈ S)
    (hsub : ∀ v ∈ m', v ∈ m) : m.union m' = m := by
  refine ext_mem fun v => ?_
  rw [mem_union hS hm fun v hv => hm v (hsub v hv)]
  exact or_iff_left_of_imp (hsub v)

end Pool

end KeyedMap

end Orchid.Lib
