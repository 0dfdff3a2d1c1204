import Mathlib.Logic.Relation
import Orchid.Lib.Forest

/-!
# Subtrees of a traversal

The nodes under a node stand together in the traversal of a forest, the node itself first; nodes
of which neither is under the other have their subtrees one after the other.
-/

namespace Orchid.Lib

variable {κ : Type*} {parent : κ → Option κ} {kids : Option κ → List κ} {nodes : List κ}

/-- `Under kids a x`: `x` is `a`, or hangs below `a` at some depth. -/
def Under (kids : Option κ → List κ) : κ → κ → Prop :=
  Relation.ReflTransGen fun p c => c ∈ kids (some p)

lemma under_or_under (hf : IsForest parent kids) {a b x : κ} (ha : Under kids a x)
    (hb : Under kids b x) : Under kids a b ∨ Under kids b a := by
  induction ha with
  | refl => exact .inr hb
  | @tail y x hay hyx ih =>
    rcases hb.cases_tail with rfl | ⟨z, hbz, hzx⟩
    · exact .inl (hay.tail hyx)
    · have hyz : y = z := Option.some.inj ((hf.parent_eq hyx).symm.trans (hf.parent_eq hzx))
      exact ih (hyz ▸ hbz)

/-! ### What a traversal meets -/

lemma under_of_mem_subtree {n : ℕ} {a y : κ} (hy : y ∈ a :: preorder kids n (some a)) :
    Under kids a y := by
  induction n generalizing a with
  | zero =>
    obtain rfl : y = a := by simpa [preorder] using hy
    exact .refl
  | succ n ih =>
    rcases List.mem_cons.mp hy with rfl | hy
    · exact .refl
    · obtain ⟨c, hc, hy⟩ := List.mem_flatMap.mp hy
      exact (Relation.ReflTransGen.single hc).trans (ih hy)

lemma mem_preorder_succ {n : ℕ} {p : Option κ} {y c : κ} (hy : y ∈ preorder kids n p)
    (hc : c ∈ kids (some y)) : c ∈ preorder kids (n + 1) p := by
  induction n generalizing p with
  | zero => simp [preorder] at hy
  | succ n ih =>
    obtain ⟨d, hd, hy⟩ := List.mem_flatMap.mp hy
    refine List.mem_flatMap.mpr ⟨d, hd, List.mem_cons_of_mem d ?_⟩
    rcases List.mem_cons.mp hy with rfl | hy
    · exact List.mem_flatMap.mpr ⟨c, hc, List.mem_cons_self⟩
    · exact ih hy

/-- With fuel for the nodes that are not ancestors, the subtree is met in full. -/
lemma mem_subtree_iff (hf : IsForest parent kids) (hn : ∀ p, ∀ c ∈ kids p, c ∈ nodes) {a : κ}
    {l : List κ} (hl : Lineage parent (some a) l) (hsub : l ⊆ nodes) {n : ℕ}
    (hlen : nodes.length ≤ l.length + n) {y : κ} :
    y ∈ a :: preorder kids n (some a) ↔ Under kids a y := by
  have hstable : preorder kids (n + 1) (some a) = preorder kids n (some a) :=
    preorder_stable hf hn hl hsub (by omega) hlen
  refine ⟨under_of_mem_subtree, fun h => ?_⟩
  induction h with
  | refl => exact List.mem_cons_self
  | @tail y c _ hc ih =>
    rw [← hstable]
    rcases List.mem_cons.mp ih with rfl | hy
    · exact List.mem_cons_of_mem _ (List.mem_flatMap.mpr ⟨c, hc, List.mem_cons_self⟩)
    · exact List.mem_cons_of_mem _ (mem_preorder_succ hy hc)

/-- A node that is met stands right before the traversal of what is below it. -/
lemma preorder_split (hf : IsForest parent kids) {n : ℕ} {q : Option κ} {a : κ} {l : List κ}
    (hl : Lineage parent q l) (ha : a ∈ preorder kids n q) :
    ∃ m l' pre post, Lineage parent (some a) (l' ++ l) ∧ m + l'.length = n ∧
      (∀ z ∈ l', ∃ p, z ∈ kids p) ∧
      preorder kids n q = pre ++ (a :: preorder kids m (some a)) ++ post := by
  induction n generalizing q l with
  | zero => simp [preorder] at ha
  | succ n ih =>
    obtain ⟨c, hc, hac⟩ := List.mem_flatMap.mp ha
    have hlc : Lineage parent (some c) (c :: l) := .node (by rwa [hf.parent_eq hc])
    obtain ⟨c₁, c₂, hsplit⟩ := List.append_of_mem hc
    rw [preorder, hsplit, List.flatMap_append, List.flatMap_cons]
    rcases List.mem_cons.mp hac with rfl | hac
    · exact ⟨n, [a], c₁.flatMap (fun d => d :: preorder kids n (some d)),
        c₂.flatMap (fun d => d :: preorder kids n (some d)), by simpa using hlc, rfl,
        fun z hz => ⟨q, List.mem_singleton.mp hz ▸ hc⟩, by simp⟩
    · obtain ⟨m, l', pre, post, hla, hm, hk, he⟩ := ih hlc hac
      refine ⟨m, l' ++ [c], c₁.flatMap (fun d => d :: preorder kids n (some d)) ++ c :: pre,
        post ++ c₂.flatMap (fun d => d :: preorder kids n (some d)), by simpa using hla, ?_, ?_, ?_⟩
      · simp only [List.length_append, List.length_singleton]
        omega
      · intro z hz
        rcases List.mem_append.mp hz with hz | hz
        · exact hk z hz
        · exact ⟨q, List.mem_singleton.mp hz ▸ hc⟩
      · rw [he]
        simp

/-! ### The traversal from the root -/

section Root

variable (hf : IsForest parent kids) (hn : ∀ p, ∀ c ∈ kids p, c ∈ nodes)

include hf hn

/-- Every subtree is one stretch of the traversal, its top first. -/
lemma exists_subtree {a : κ} (ha : a ∈ preorder kids nodes.length none) :
    ∃ pre sub post, preorder kids nodes.length none = pre ++ (a :: sub) ++ post ∧
      ∀ y, y ∈ a :: sub ↔ Under kids a y := by
  obtain ⟨m, l', pre, post, hl, hm, hk, he⟩ := preorder_split hf .root ha
  refine ⟨pre, _, post, he, fun y => mem_subtree_iff hf hn hl ?_ ?_⟩
  · intro z hz
    rw [List.append_nil] at hz
    obtain ⟨p, hp⟩ := hk z hz
    exact hn p z hp
  · simp only [List.append_nil]
    omega

lemma mem_preorder_root_iff {y : κ} :
    y ∈ preorder kids nodes.length none ↔ ∃ top ∈ kids none, Under kids top y := by
  have hstable : preorder kids (nodes.length + 1) none = preorder kids nodes.length none :=
    preorder_stable hf hn .root (List.nil_subset _) (by simp) (by simp)
  constructor
  · intro hy
    rw [← hstable] at hy
    obtain ⟨top, htop, hy⟩ := List.mem_flatMap.mp hy
    exact ⟨top, htop, under_of_mem_subtree hy⟩
  · rintro ⟨top, htop, h⟩
    induction h with
    | refl =>
      rw [← hstable]
      exact List.mem_flatMap.mpr ⟨top, htop, List.mem_cons_self⟩
    | tail _ hc ih =>
      rw [← hstable]
      exact mem_preorder_succ ih hc

end Root

/-! ### Stretches of a list -/

/-- Two stretches of one list that share nothing stand one after the other. -/
lemma stretches_apart {s t pre₁ post₁ pre₂ post₂ : List κ}
    (h : pre₁ ++ s ++ post₁ = pre₂ ++ t ++ post₂) (hs : s ≠ []) (ht : t ≠ [])
    (hdisj : s.Disjoint t) :
    (∃ mid, pre₁ ++ s ++ post₁ = pre₁ ++ s ++ mid ++ t ++ post₂) ∨
      ∃ mid, pre₁ ++ s ++ post₁ = pre₂ ++ t ++ mid ++ s ++ post₁ := by
  -- it is enough to look at the stretch that begins first
  have first : ∀ {s t u post post' : List κ}, s.Disjoint t → t ≠ [] →
      s ++ post = u ++ (t ++ post') → ∃ mid, u = s ++ mid := by
    intro s t u post post' hdisj ht h
    rcases List.append_eq_append_iff.mp h with ⟨mid, hu, -⟩ | ⟨v, hs, hv⟩
    · exact ⟨mid, hu⟩
    · cases v with
      | nil => exact ⟨[], by rw [hs, List.append_nil, List.append_nil]⟩
      | cons x v =>
        obtain ⟨y, t', rfl⟩ := List.exists_cons_of_ne_nil ht
        obtain ⟨rfl, -⟩ := List.cons.inj hv
        exact absurd List.mem_cons_self (hdisj (hs ▸ by simp))
  have h' : pre₁ ++ (s ++ post₁) = pre₂ ++ (t ++ post₂) := by simpa using h
  rcases List.append_eq_append_iff.mp h' with ⟨u, rfl, hu⟩ | ⟨u, rfl, hu⟩
  · obtain ⟨mid, rfl⟩ := first hdisj ht hu
    exact .inl ⟨mid, by rw [h]; simp⟩
  · obtain ⟨mid, rfl⟩ := first (List.disjoint_symm hdisj) hs hu
    exact .inr ⟨mid, by simp⟩

end Orchid.Lib
