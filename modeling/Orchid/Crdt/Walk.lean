import Orchid.Crdt.Rga
import Orchid.Lib.Forest

/-!
# The walk as a forest traversal

The inserts of a log form a forest, every insert under the one it was inserted after. The walk of
the code reads off the texts of the inserts that are not deleted, in preorder; it never needs more
fuel than the log has operations, and it depends on nothing but the log.
-/

namespace Orchid.Crdt.CrdtDocument

open Orchid.Lib

/-! ### The forest of a log -/

/-- The insert that `c` was inserted after. -/
def parentOf (ops : KeyedMap Op.id) (c : OpId) : Option OpId :=
  match ops.find? c with
  | some (.insert _ _ after _) => after
  | _ => none

/-- The text of an insert. -/
def textOf (ops : KeyedMap Op.id) (c : OpId) : Text :=
  match ops.find? c with
  | some (.insert _ _ _ text) => text
  | _ => []

lemma mem_children {ops : KeyedMap Op.id} {p : Option OpId} {c : OpId} :
    c ∈ children ops p ↔ ∃ l t, Op.insert c l p t ∈ ops := by
  unfold children
  rw [List.mem_filterMap]
  constructor
  · rintro ⟨op, hop, h⟩
    cases op with
    | insert id l after t =>
      simp only [childUnder, Option.ite_none_right_eq_some, Option.some.injEq] at h
      obtain ⟨rfl, rfl⟩ := h
      exact ⟨l, t, hop⟩
    | delete => simp [childUnder] at h
  · rintro ⟨l, t, hop⟩
    exact ⟨_, hop, by simp [childUnder]⟩

lemma mem_deleted {ops : KeyedMap Op.id} {c : OpId} :
    c ∈ deleted ops ↔ ∃ i l, Op.delete i l c ∈ ops := by
  unfold deleted
  rw [List.mem_filterMap]
  constructor
  · rintro ⟨op, hop, h⟩
    cases op with
    | insert => simp at h
    | delete i l t =>
      obtain rfl : t = c := by simpa using h
      exact ⟨i, l, hop⟩
  · rintro ⟨i, l, hop⟩
    exact ⟨_, hop, rfl⟩

lemma find?_insert {ops : KeyedMap Op.id} {c : OpId} {l : U64} {p : Option OpId} {t : Text}
    (h : Op.insert c l p t ∈ ops) : ops.find? c = some (.insert c l p t) :=
  (KeyedMap.find?_eq_some_iff ops c _).mpr ⟨h, rfl⟩

/-- Siblings are in ascending id order. -/
lemma children_sorted (ops : KeyedMap Op.id) (p : Option OpId) :
    (children ops p).Pairwise (· < ·) := by
  refine List.Pairwise.filterMap _ (fun a b hab c hc d hd => ?_) ops.sorted
  cases a with
  | delete => simp [childUnder] at hc
  | insert =>
    cases b with
    | delete => simp [childUnder] at hd
    | insert =>
      simp only [childUnder, Option.ite_none_right_eq_some, Option.some.injEq] at hc hd
      rwa [← hc.2, ← hd.2]

lemma isForest (ops : KeyedMap Op.id) : IsForest (parentOf ops) (children ops) where
  parent_eq := by
    intro p c hc
    obtain ⟨l, t, h⟩ := mem_children.mp hc
    simp [parentOf, find?_insert h]
  nodup p := (children_sorted ops p).imp ne_of_lt

/-! ### The walk -/

/-- Text that an insert contributes itself. -/
def visibleText (ops : KeyedMap Op.id) (c : OpId) : Text :=
  if c ∈ deleted ops then [] else textOf ops c

lemma walk_eq_preorder (ops : KeyedMap Op.id) (n : ℕ) (p : Option OpId) :
    walk ops n p = (preorder (children ops) n p).flatMap (visibleText ops) := by
  induction n generalizing p with
  | zero => rfl
  | succ n ih =>
    rw [walk, preorder, List.flatMap_assoc]
    refine List.flatMap_congr fun c hc => ?_
    obtain ⟨l, t, h⟩ := mem_children.mp hc
    simp [find?_insert h, ih, visibleText, textOf]

/-- Inserts that show, in document order. -/
def visible (d : CrdtDocument) : List OpId :=
  (preorder (children d.ops) d.ops.toList.length none).filter (· ∉ deleted d.ops)

lemma flatMap_visibleText (ops : KeyedMap Op.id) (l : List OpId) :
    l.flatMap (visibleText ops) = (l.filter (· ∉ deleted ops)).flatMap (textOf ops) := by
  induction l with
  | nil => rfl
  | cons c l ih =>
    by_cases hc : c ∈ deleted ops
    · simp [visibleText, hc, ih]
    · simp [visibleText, hc, ih]

/-- The materialized text is the text of the visible inserts. -/
theorem materialize_eq (d : CrdtDocument) :
    d.materialize = d.visible.flatMap (textOf d.ops) := by
  rw [materialize, walk_eq_preorder, flatMap_visibleText, visible]

lemma children_mem_ids (ops : KeyedMap Op.id) (p : Option OpId) :
    ∀ c ∈ children ops p, c ∈ ops.toList.map Op.id := by
  intro c hc
  obtain ⟨l, t, h⟩ := mem_children.mp hc
  exact List.mem_map.mpr ⟨_, h, rfl⟩

/-- More fuel than there are operations gives the same traversal. -/
lemma preorder_root_stable (ops : KeyedMap Op.id) {n : ℕ} (h : ops.toList.length ≤ n) :
    preorder (children ops) n none = preorder (children ops) ops.toList.length none :=
  preorder_stable (isForest ops) (children_mem_ids ops) .root (List.nil_subset _)
    (by simpa using h) (by simp)

/-- The text is determined by the log. -/
lemma materialize_congr {d e : CrdtDocument} (h : d.ops = e.ops) :
    d.materialize = e.materialize := by
  rw [materialize, materialize, h]

end Orchid.Crdt.CrdtDocument
