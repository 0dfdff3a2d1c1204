import Orchid.Crdt.Walk
import Orchid.Lib.Subtree

/-!
# The order of the document

The parents of inserts come from elsewhere: they may be missing, or run in circles. The walk from
the start meets the inserts that hang from the start, and no others; it returns, and what hangs
under one insert comes out in one piece.
-/

namespace Orchid.Crdt

open Lib CrdtDocument

/-- `Walks ops kids out`: the loop over `kids`, with the recursive calls it makes, returns and has
pushed `out`. -/
inductive Walks (ops : KeyedMap Op.id) : List OpId → Text → Prop where
  | done : Walks ops [] []
  | insert {child i : OpId} {l : U64} {after : Option OpId} {text sub out : Text}
      {rest : List OpId} (hfind : ops.find? child = some (.insert i l after text))
      (hsub : Walks ops (children ops (some child)) sub) (hrest : Walks ops rest out) :
      Walks ops (child :: rest) ((if child ∈ deleted ops then [] else text) ++ sub ++ out)
  | skip {child : OpId} {out : Text} {rest : List OpId}
      (hfind : ∀ i l after text, ops.find? child ≠ some (.insert i l after text))
      (hrest : Walks ops rest out) : Walks ops (child :: rest) out

/-- `c` was inserted after `p`. -/
def InsertedUnder (ops : KeyedMap Op.id) (p c : OpId) : Prop :=
  ∃ l t, Op.insert c l (some p) t ∈ ops

/-- `x` is `a`, or was inserted after `a` through other inserts. -/
def Descends (ops : KeyedMap Op.id) : OpId → OpId → Prop :=
  Relation.ReflTransGen (InsertedUnder ops)

/-- Following the inserts from the start reaches `c`. -/
def Rooted (ops : KeyedMap Op.id) (c : OpId) : Prop :=
  ∃ top, (∃ l t, Op.insert top l none t ∈ ops) ∧ Descends ops top c

/-- Inserts typed one after the other. -/
def Typed (ops : KeyedMap Op.id) : List OpId → Prop :=
  List.IsChain (InsertedUnder ops)

/-- `x` stands before `y`. -/
def Before (order : List OpId) (x y : OpId) : Prop :=
  List.Sublist [x, y] order

/-- All of `k` stands before all of `k'`. -/
def AllBefore (order k k' : List OpId) : Prop :=
  ∀ x ∈ k, ∀ y ∈ k', Before order x y

/-- `order` lists the inserts of the document as its text shows them. -/
structure CrdtDocument.Shows (d : CrdtDocument) (order : List OpId) : Prop where
  /-- no insert twice -/
  nodup : order.Nodup
  /-- the inserts that are reachable from the start, and no others -/
  mem_iff : ∀ c, c ∈ order ↔ Rooted d.ops c
  /-- the text is that of the inserts that are not deleted -/
  text : d.materialize = (order.filter (· ∉ deleted d.ops)).flatMap (textOf d.ops)
  /-- a parent stands before its children -/
  parent_first : ∀ p c, InsertedUnder d.ops p c → c ∈ order → Before order p c
  /-- what hangs under an insert stands together -/
  contiguous : ∀ a ∈ order, ∃ pre sub post, order = pre ++ (a :: sub) ++ post ∧
    ∀ x, x ∈ a :: sub ↔ Descends d.ops a x
  /-- chains of which neither begins under the other do not interleave -/
  apart : ∀ a k b k', a ∈ order → b ∈ order → Typed d.ops (a :: k) → Typed d.ops (b :: k') →
    ¬ Descends d.ops a b → ¬ Descends d.ops b a →
    AllBefore order (a :: k) (b :: k') ∨ AllBefore order (b :: k') (a :: k)

variable {ops : KeyedMap Op.id}

/-! ### The walk returns -/

lemma walks_flatMap {n : ℕ} {kids : List OpId}
    (hkids : ∀ c ∈ kids, Walks ops (children ops (some c)) (walk ops n (some c))) :
    Walks ops kids (kids.flatMap fun child =>
      match ops.find? child with
      | some (.insert _ _ _ text) =>
        (if child ∈ deleted ops then [] else text) ++ walk ops n (some child)
      | _ => []) := by
  induction kids with
  | nil => exact .done
  | cons c rest ih =>
    have hrest := ih fun b hb => hkids b (List.mem_cons_of_mem c hb)
    rw [List.flatMap_cons]
    cases hfind : ops.find? c with
    | none => exact .skip (by simp [hfind]) hrest
    | some op =>
      cases op with
      | insert i l after text => exact .insert hfind (hkids c List.mem_cons_self) hrest
      | delete i l target => exact .skip (by simp [hfind]) hrest

/-- Below a position that hangs from the start, fuel for the operations that are not ancestors is
enough: no path comes back to itself. -/
lemma walks_walk {n : ℕ} {p : Option OpId} {l : List OpId} (hl : Lineage (parentOf ops) p l)
    (hsub : l ⊆ ops.toList.map Op.id) (hlen : ops.toList.length ≤ l.length + n) :
    Walks ops (children ops p) (walk ops n p) := by
  have hnext : ∀ c ∈ children ops p, Lineage (parentOf ops) (some c) (c :: l) ∧
      c :: l ⊆ ops.toList.map Op.id := fun c hc =>
    ⟨.node (by rwa [(isForest ops).parent_eq hc]),
      List.cons_subset.mpr ⟨children_mem_ids ops p c hc, hsub⟩⟩
  induction n generalizing p l with
  | zero =>
    cases hkids : children ops p with
    | nil => exact .done
    | cons c rest =>
      obtain ⟨hlc, hsubc⟩ := hnext c (by simp [hkids])
      have := hlc.nodup.length_le_of_subset hsubc
      simp only [List.length_cons, List.length_map] at this
      omega
  | succ n ih =>
    refine walks_flatMap fun c hc => ?_
    obtain ⟨hlc, hsubc⟩ := hnext c hc
    refine ih hlc hsubc (by simp only [List.length_cons]; omega) fun b hb => ?_
    exact ⟨.node (by rwa [(isForest ops).parent_eq hb]),
      List.cons_subset.mpr ⟨children_mem_ids ops _ b hb, hsubc⟩⟩

/-- The walk of any document returns with its text. -/
lemma walks_materialize (d : CrdtDocument) : Walks d.ops (children d.ops none) d.materialize :=
  walks_walk .root (List.nil_subset _) (by simp)

/-! ### The order -/

lemma descends_eq_under : Descends ops = Under (children ops) := by
  funext a x
  exact congrArg (fun r => Relation.ReflTransGen r a x)
    (funext fun p => funext fun c => propext mem_children.symm)

lemma rooted_iff {c : OpId} :
    Rooted ops c ↔ ∃ top ∈ children ops none, Under (children ops) top c := by
  simp only [Rooted, descends_eq_under, mem_children]

/-- Everything of a chain descends from its first insert. -/
lemma descends_of_typed {a : OpId} {k : List OpId} (h : Typed ops (a :: k)) {x : OpId}
    (hx : x ∈ a :: k) : Descends ops a x := by
  induction k generalizing a with
  | nil =>
    obtain rfl := List.mem_singleton.mp hx
    exact .refl
  | cons b k ih =>
    obtain ⟨hab, hk⟩ := List.isChain_cons_cons.mp h
    rcases List.mem_cons.mp hx with rfl | hx
    · exact .refl
    · exact .head hab (ih hk hx)

/-- The inserts of the document, in the order in which the walk meets them. -/
def CrdtDocument.order (d : CrdtDocument) : List OpId :=
  preorder (children d.ops) (d.ops.toList.map Op.id).length none

lemma before_of_split {x y : OpId} {order s t pre mid post : List OpId}
    (h : order = pre ++ s ++ mid ++ t ++ post) (hx : x ∈ s) (hy : y ∈ t) : Before order x y := by
  have hfirst : List.Sublist [x] (pre ++ s ++ mid) := List.singleton_sublist.mpr (by simp [hx])
  have hlast : List.Sublist [y] (t ++ post) := List.singleton_sublist.mpr (by simp [hy])
  have hboth := hfirst.append hlast
  rwa [← List.append_assoc, ← h] at hboth

lemma order_contiguous (d : CrdtDocument) {a : OpId} (ha : a ∈ d.order) :
    ∃ pre sub post, d.order = pre ++ (a :: sub) ++ post ∧
      ∀ x, x ∈ a :: sub ↔ Descends d.ops a x := by
  rw [descends_eq_under]
  exact exists_subtree (isForest d.ops) (children_mem_ids d.ops) ha

lemma mem_order_iff (d : CrdtDocument) (c : OpId) : c ∈ d.order ↔ Rooted d.ops c := by
  rw [rooted_iff]
  exact mem_preorder_root_iff (isForest d.ops) (children_mem_ids d.ops)

lemma order_nodup (d : CrdtDocument) : d.order.Nodup :=
  nodup_preorder (isForest d.ops) .root

/-- An insert under itself is not reachable. -/
lemma not_insertedUnder_self (d : CrdtDocument) {p : OpId} (hp : p ∈ d.order) :
    ¬ InsertedUnder d.ops p p := by
  intro hself
  have hparent := (isForest d.ops).parent_eq (mem_children.mpr hself)
  obtain ⟨l, hl, -, -, -⟩ := lineage_of_mem_preorder (isForest d.ops) .root hp
  rw [List.append_nil] at hl
  cases hl with
  | node htail =>
    -- its lineage would go on forever
    have hagain := htail
    rw [hparent] at hagain
    have := congrArg List.length (hagain.unique (.node htail))
    simp at this

/-- What a reachable insert was inserted after is reachable. -/
lemma mem_order_of_insertedUnder (d : CrdtDocument) {p c : OpId}
    (hpc : InsertedUnder d.ops p c) (hc : c ∈ d.order) : p ∈ d.order := by
  have hparent := (isForest d.ops).parent_eq (mem_children.mpr hpc)
  obtain ⟨top, htop, h⟩ := rooted_iff.mp ((mem_order_iff d c).mp hc)
  rcases h.cases_tail with rfl | ⟨z, hz, hzc⟩
  · cases hparent.symm.trans ((isForest d.ops).parent_eq htop)
  · obtain rfl := Option.some.inj (hparent.symm.trans ((isForest d.ops).parent_eq hzc))
    exact (mem_order_iff d p).mpr (rooted_iff.mpr ⟨top, htop, hz⟩)

lemma order_parent_first (d : CrdtDocument) {p c : OpId} (hpc : InsertedUnder d.ops p c)
    (hc : c ∈ d.order) : Before d.order p c := by
  have hp := mem_order_of_insertedUnder d hpc hc
  obtain ⟨pre, sub, post, he, hmem⟩ := order_contiguous d hp
  have hsub : c ∈ sub := by
    rcases List.mem_cons.mp ((hmem c).mpr (.single hpc)) with rfl | hsub
    · exact absurd hpc (not_insertedUnder_self d hp)
    · exact hsub
  have hsplit : d.order = pre ++ [p] ++ [] ++ sub ++ post := by
    rw [he]
    simp
  exact before_of_split hsplit List.mem_cons_self hsub

/-- Subtrees of which neither is in the other stand one after the other. -/
lemma order_apart (d : CrdtDocument) {a b : OpId} {k k' : List OpId} (ha : a ∈ d.order)
    (hb : b ∈ d.order) (hk : Typed d.ops (a :: k)) (hk' : Typed d.ops (b :: k'))
    (hab : ¬ Descends d.ops a b) (hba : ¬ Descends d.ops b a) :
    AllBefore d.order (a :: k) (b :: k') ∨ AllBefore d.order (b :: k') (a :: k) := by
  obtain ⟨pre₁, s, post₁, h₁, hs⟩ := order_contiguous d ha
  obtain ⟨pre₂, t, post₂, h₂, ht⟩ := order_contiguous d hb
  have hdisj : (a :: s).Disjoint (b :: t) := by
    intro x hxs hxt
    have hax := (hs x).mp hxs
    have hbx := (ht x).mp hxt
    rw [descends_eq_under] at hab hba hax hbx
    exact (under_or_under (isForest d.ops) hax hbx).elim hab hba
  have hks : ∀ x ∈ a :: k, x ∈ a :: s := fun x hx => (hs x).mpr (descends_of_typed hk hx)
  have hkt : ∀ y ∈ b :: k', y ∈ b :: t := fun y hy => (ht y).mpr (descends_of_typed hk' hy)
  rcases stretches_apart (h₁.symm.trans h₂) (List.cons_ne_nil a s) (List.cons_ne_nil b t) hdisj
    with ⟨mid, h⟩ | ⟨mid, h⟩
  · exact .inl fun x hx y hy => before_of_split (h₁.trans h) (hks x hx) (hkt y hy)
  · exact .inr fun y hy x hx => before_of_split (h₁.trans h) (hkt y hy) (hks x hx)

lemma order_shows (d : CrdtDocument) : d.Shows d.order where
  nodup := order_nodup d
  mem_iff := mem_order_iff d
  text := by
    rw [materialize_eq, visible, order, List.length_map]
  parent_first _ _ := order_parent_first d
  contiguous _ := order_contiguous d
  apart _ _ _ _ := order_apart d

/-- The walk of any document returns. What it has pushed is the text of the inserts that are
reachable from the start and not deleted, each once, a parent before its children, and the inserts
under one insert together. -/
theorem materialize_shows (d : CrdtDocument) :
    Walks d.ops (children d.ops none) d.materialize ∧ ∃ order, d.Shows order :=
  ⟨walks_materialize d, d.order, order_shows d⟩

end Orchid.Crdt
