import Mathlib.Data.List.Nodup
import Mathlib.Logic.Function.Iterate

/-!
# Forests given by a parent function

Nodes hang under a parent (`some c`) or under the root (`none`). `kids p` lists the nodes under
`p` in sibling order, and `preorder kids n p` is the depth-first traversal below `p`, cut off at
depth `n`. The lineage of a node is the list of its ancestors, itself first; a traversal from a
position that has a lineage never meets a node twice, and a fuel that covers the longest lineage
gives the full traversal. The last section says what adding one node under `p` does to it.
-/

namespace Orchid.Lib

variable {κ : Type*}

/-- Depth-first traversal of the nodes below `p`, to depth `n`. -/
def preorder (kids : Option κ → List κ) : ℕ → Option κ → List κ
  | 0, _ => []
  | n + 1, p => (kids p).flatMap fun c => c :: preorder kids n (some c)

/-- The sibling lists agree with the parent function and repeat no node. -/
structure IsForest (parent : κ → Option κ) (kids : Option κ → List κ) : Prop where
  parent_eq : ∀ {p c}, c ∈ kids p → parent c = p
  nodup : ∀ p, (kids p).Nodup

/-- `Lineage parent p l`: following parents from `p` reaches the root through `l`. -/
inductive Lineage (parent : κ → Option κ) : Option κ → List κ → Prop where
  | root : Lineage parent none []
  | node {c : κ} {l : List κ} (h : Lineage parent (parent c) l) : Lineage parent (some c) (c :: l)

namespace Lineage

variable {parent : κ → Option κ}

lemma unique {p : Option κ} {l l' : List κ} (h : Lineage parent p l) (h' : Lineage parent p l') :
    l = l' := by
  induction h generalizing l' with
  | root => cases h'; rfl
  | node _ ih =>
    cases h' with
    | node h' => rw [ih h']

/-- Every ancestor has the rest of the lineage as its own. -/
lemma of_mem {p : Option κ} {l : List κ} (h : Lineage parent p l) {y : κ} (hy : y ∈ l) :
    ∃ l', Lineage parent (some y) l' ∧ l' <:+ l := by
  induction h with
  | root => simp at hy
  | @node c l h ih =>
    rcases List.mem_cons.mp hy with rfl | hy
    · exact ⟨_, .node h, List.suffix_refl _⟩
    · obtain ⟨l', hl', hs⟩ := ih hy
      exact ⟨l', hl', hs.trans (List.suffix_cons c l)⟩

lemma nodup {p : Option κ} {l : List κ} (h : Lineage parent p l) : l.Nodup := by
  induction h with
  | root => simp
  | @node c l h ih =>
    refine List.nodup_cons.mpr ⟨fun hc => ?_, ih⟩
    obtain ⟨l', hl', hs⟩ := h.of_mem hc
    have := congrArg List.length (hl'.unique (.node h))
    have := hs.length_le
    simp only [List.length_cons] at *
    omega

end Lineage

variable {parent : κ → Option κ} {kids : Option κ → List κ}

/-! ### Traversals and lineages -/

/-- Every node of a traversal hangs somewhere. -/
lemma exists_mem_kids_of_mem_preorder {n : ℕ} {p : Option κ} {y : κ}
    (hy : y ∈ preorder kids n p) : ∃ q, y ∈ kids q := by
  induction n generalizing p with
  | zero => simp [preorder] at hy
  | succ n ih =>
    obtain ⟨c, hc, hy⟩ := List.mem_flatMap.mp hy
    rcases List.mem_cons.mp hy with rfl | hy
    · exact ⟨p, hc⟩
    · exact ih hy

/-- The nodes of a subtree carry the lineage of its top. -/
lemma lineage_of_mem_subtree (hf : IsForest parent kids) {n : ℕ} {c y : κ} {l : List κ}
    (hl : Lineage parent (some c) l) (hy : y ∈ c :: preorder kids n (some c)) :
    ∃ l', Lineage parent (some y) (l' ++ l) ∧ l'.length ≤ n ∧ ∀ z ∈ l', ∃ p, z ∈ kids p := by
  induction n generalizing c l with
  | zero =>
    obtain rfl : y = c := by simpa [preorder] using hy
    exact ⟨[], hl, by simp⟩
  | succ n ih =>
    rcases List.mem_cons.mp hy with rfl | hy
    · exact ⟨[], hl, by simp⟩
    · obtain ⟨d, hd, hy⟩ := List.mem_flatMap.mp hy
      have hld : Lineage parent (some d) (d :: l) := .node (by rwa [hf.parent_eq hd])
      obtain ⟨l', hl', hlen, hk⟩ := ih hld hy
      refine ⟨l' ++ [d], by simpa using hl', by simpa using hlen, ?_⟩
      intro z hz
      rcases List.mem_append.mp hz with hz | hz
      · exact hk z hz
      · exact ⟨_, List.mem_singleton.mp hz ▸ hd⟩

/-- The nodes below a position carry the lineage of that position. -/
lemma lineage_of_mem_preorder (hf : IsForest parent kids) {n : ℕ} {p : Option κ} {y : κ}
    {l : List κ} (hl : Lineage parent p l) (hy : y ∈ preorder kids n p) :
    ∃ l', Lineage parent (some y) (l' ++ l) ∧ 0 < l'.length ∧ l'.length ≤ n ∧
      ∀ z ∈ l', ∃ p, z ∈ kids p := by
  cases n with
  | zero => simp [preorder] at hy
  | succ n =>
    obtain ⟨c, hc, hy⟩ := List.mem_flatMap.mp hy
    have hlc : Lineage parent (some c) (c :: l) := .node (by rwa [hf.parent_eq hc])
    obtain ⟨l', hl', hlen, hk⟩ := lineage_of_mem_subtree hf hlc hy
    refine ⟨l' ++ [c], by simpa using hl', by simp, by simpa using hlen, ?_⟩
    intro z hz
    rcases List.mem_append.mp hz with hz | hz
    · exact hk z hz
    · exact ⟨_, List.mem_singleton.mp hz ▸ hc⟩

/-- A position is not below itself. -/
lemma notMem_preorder_self (hf : IsForest parent kids) {n : ℕ} {a : κ} {l : List κ}
    (hl : Lineage parent (some a) l) : a ∉ preorder kids n (some a) := by
  intro ha
  obtain ⟨l', hl', hpos, -, -⟩ := lineage_of_mem_preorder hf hl ha
  have := congrArg List.length (hl.unique hl')
  simp only [List.length_append] at this
  omega

/-- Subtrees of different siblings share no node. -/
lemma subtree_disjoint (hf : IsForest parent kids) {n m : ℕ} {p : Option κ} {c d y : κ}
    {l : List κ} (hl : Lineage parent p l) (hc : c ∈ kids p) (hd : d ∈ kids p)
    (hyc : y ∈ c :: preorder kids n (some c)) (hyd : y ∈ d :: preorder kids m (some d)) :
    c = d := by
  have hlc : Lineage parent (some c) (c :: l) := .node (by rwa [hf.parent_eq hc])
  have hld : Lineage parent (some d) (d :: l) := .node (by rwa [hf.parent_eq hd])
  obtain ⟨l₁, h₁, -, -⟩ := lineage_of_mem_subtree hf hlc hyc
  obtain ⟨l₂, h₂, -, -⟩ := lineage_of_mem_subtree hf hld hyd
  have := List.append_inj_right' (h₁.unique h₂) (by simp)
  exact (List.cons.inj this).1

/-- A traversal meets every node once. -/
lemma nodup_preorder (hf : IsForest parent kids) {n : ℕ} {p : Option κ} {l : List κ}
    (hl : Lineage parent p l) : (preorder kids n p).Nodup := by
  induction n generalizing p l with
  | zero => simp [preorder]
  | succ n ih =>
    refine List.nodup_flatMap.mpr ⟨fun c hc => ?_, ?_⟩
    · have hlc : Lineage parent (some c) (c :: l) := .node (by rwa [hf.parent_eq hc])
      exact List.nodup_cons.mpr ⟨notMem_preorder_self hf hlc, ih hlc⟩
    · refine (hf.nodup p).imp_of_mem fun hc hd hne => ?_
      intro y hyc hyd
      exact hne (subtree_disjoint hf hl hc hd hyc hyd)

/-! ### Enough fuel -/

/-- If nothing lies at depth `n + 1` below `p`, one more unit of fuel changes nothing. -/
lemma preorder_succ_eq (hf : IsForest parent kids) {n : ℕ} {p : Option κ} {l : List κ}
    (hl : Lineage parent p l)
    (h : ∀ y ∈ preorder kids (n + 1) p, ∀ l', Lineage parent (some y) l' →
      l'.length ≤ l.length + n) :
    preorder kids (n + 1) p = preorder kids n p := by
  induction n generalizing p l with
  | zero =>
    rcases hk : kids p with _ | ⟨c, cs⟩
    · simp [preorder, hk]
    · have hc : c ∈ kids p := by simp [hk]
      have := h c (by simp [preorder, hk]) (c :: l) (.node (by rwa [hf.parent_eq hc]))
      simp only [List.length_cons] at this
      omega
  | succ n ih =>
    rw [preorder, preorder]
    refine List.flatMap_congr fun c hc => ?_
    have hlc : Lineage parent (some c) (c :: l) := .node (by rwa [hf.parent_eq hc])
    rw [ih hlc fun y hy l' hl' => ?_]
    have hmem : y ∈ preorder kids (n + 1 + 1) p :=
      List.mem_flatMap.mpr ⟨c, hc, List.mem_cons_of_mem c hy⟩
    have := h y hmem l' hl'
    simp only [List.length_cons]
    omega

/-- Fuel for the nodes that are not ancestors gives the full traversal below a position. -/
lemma preorder_stable (hf : IsForest parent kids) {nodes : List κ}
    (hn : ∀ p, ∀ c ∈ kids p, c ∈ nodes) {p : Option κ} {l : List κ} (hl : Lineage parent p l)
    (hsub : l ⊆ nodes) {n m : ℕ} (hn' : nodes.length ≤ l.length + n)
    (hm : nodes.length ≤ l.length + m) : preorder kids n p = preorder kids m p := by
  have key : ∀ k, nodes.length ≤ l.length + k → preorder kids (k + 1) p = preorder kids k p := by
    intro k hk
    refine preorder_succ_eq hf hl fun y hy l' hl' => ?_
    obtain ⟨l'', hl'', -, -, hin⟩ := lineage_of_mem_preorder hf hl hy
    obtain rfl := hl'.unique hl''
    have hsub' : l'' ++ l ⊆ nodes := by
      intro z hz
      rcases List.mem_append.mp hz with hz | hz
      · exact (hin z hz).elim fun q hq => hn q z hq
      · exact hsub hz
    exact Nat.le_trans (hl'.nodup.length_le_of_subset hsub') hk
  have up : ∀ a b, nodes.length ≤ l.length + a → preorder kids (a + b) p = preorder kids a p := by
    intro a b ha
    induction b with
    | zero => rfl
    | succ b ih => rw [← Nat.add_assoc, key (a + b) (by omega), ih]
  rcases Nat.le_total n m with h | h
  · obtain ⟨b, rfl⟩ := Nat.exists_eq_add_of_le h
    exact (up n b hn').symm
  · obtain ⟨b, rfl⟩ := Nat.exists_eq_add_of_le h
    exact up m b hm

/-! ### Adding one node -/

section AddNode

variable {kids' : Option κ → List κ} {p : Option κ} {x : κ} {k₁ k₂ : List κ}

/-- The forest without the new node is a forest. -/
lemma IsForest.of_add (hf' : IsForest parent kids') (hkids : kids p = k₁ ++ k₂)
    (hkids' : kids' p = k₁ ++ x :: k₂) (hsame : ∀ q, q ≠ p → kids' q = kids q) :
    IsForest parent kids := by
  have hsub : ∀ q, (kids q).Sublist (kids' q) := by
    intro q
    by_cases hq : q = p
    · subst hq
      rw [hkids, hkids']
      exact (List.sublist_cons_self x k₂).append_left k₁
    · rw [hsame q hq]
  exact ⟨fun {q c} hc => hf'.parent_eq ((hsub q).subset hc), fun q => (hf'.nodup q).sublist (hsub q)⟩

/-- Traversals that do not meet the anchor do not change. -/
lemma preorder_eq_of_notMem (hsame : ∀ q, q ≠ p → kids' q = kids q) {n : ℕ} {q : Option κ}
    (hq : q ≠ p) (hp : ∀ a, p = some a → a ∉ preorder kids n q) :
    preorder kids' n q = preorder kids n q := by
  induction n generalizing q with
  | zero => rfl
  | succ n ih =>
    rw [preorder, preorder, hsame q hq]
    refine List.flatMap_congr fun c hc => ?_
    rw [ih]
    · rintro rfl
      exact hp c rfl (List.mem_flatMap.mpr ⟨c, hc, by simp⟩)
    · intro a ha hmem
      exact hp a ha (List.mem_flatMap.mpr ⟨c, hc, List.mem_cons_of_mem c hmem⟩)

/-- Below the anchor, the new node and what hangs under it go between the siblings. -/
lemma preorder_anchor (hf' : IsForest parent kids') {l : List κ} (hl : Lineage parent p l)
    (hkids : kids p = k₁ ++ k₂) (hkids' : kids' p = k₁ ++ x :: k₂)
    (hsame : ∀ q, q ≠ p → kids' q = kids q) (n : ℕ) :
    preorder kids' (n + 1) p =
      k₁.flatMap (fun c => c :: preorder kids n (some c)) ++
        (x :: preorder kids n (some x) ++
          k₂.flatMap (fun c => c :: preorder kids n (some c))) := by
  have hf : IsForest parent kids := hf'.of_add hkids hkids' hsame
  -- the anchor has a lineage, so it is not below any of its own children
  have hbelow : ∀ c ∈ kids' p, preorder kids' n (some c) = preorder kids n (some c) := by
    intro c hc
    have hlc : Lineage parent (some c) (c :: l) := .node (by rwa [hf'.parent_eq hc])
    refine preorder_eq_of_notMem hsame ?_ fun a ha hmem => ?_
    · rintro rfl
      simpa using congrArg List.length (hl.unique hlc)
    · subst ha
      obtain ⟨l', hl', -, -, -⟩ := lineage_of_mem_preorder hf hlc hmem
      have := congrArg List.length (hl.unique hl')
      simp only [List.length_append, List.length_cons] at this
      omega
  rw [hkids'] at hbelow
  have h₁ := List.flatMap_congr fun c hc => congrArg (c :: ·) (hbelow c (List.mem_append_left _ hc))
  have h₂ := List.flatMap_congr fun c hc => congrArg (c :: ·)
    (hbelow c (List.mem_append_right k₁ (List.mem_cons_of_mem x hc)))
  rw [preorder, hkids', List.flatMap_append, List.flatMap_cons, h₁, h₂, hbelow x (by simp)]

/-- Away from the anchor nothing moves: both traversals agree before and after the part below
the anchor, which is walked to the same depth. -/
lemma preorder_around (hf' : IsForest parent kids') {a : κ} (hkids : kids (some a) = k₁ ++ k₂)
    (hkids' : kids' (some a) = k₁ ++ x :: k₂) (hsame : ∀ q, q ≠ some a → kids' q = kids q)
    {n : ℕ} {q : Option κ} {l : List κ} (hl : Lineage parent q l) (ha : a ∈ preorder kids n q) :
    ∃ m l' l₁ l₂, Lineage parent (some a) (l' ++ l) ∧ m + l'.length = n ∧
      preorder kids n q = l₁ ++ a :: preorder kids m (some a) ++ l₂ ∧
      preorder kids' n q = l₁ ++ a :: preorder kids' m (some a) ++ l₂ := by
  have hf : IsForest parent kids := hf'.of_add hkids hkids' hsame
  induction n generalizing q l with
  | zero => simp [preorder] at ha
  | succ n ih =>
    have hne : q ≠ some a := by
      rintro rfl
      exact notMem_preorder_self hf hl ha
    obtain ⟨c, hc, hac⟩ := List.mem_flatMap.mp ha
    have hlc : Lineage parent (some c) (c :: l) := .node (by rwa [hf.parent_eq hc])
    obtain ⟨c₁, c₂, hsplit⟩ := List.append_of_mem hc
    -- the subtrees of the other children do not meet the anchor
    have hother : ∀ d ∈ c₁ ++ c₂, preorder kids' n (some d) = preorder kids n (some d) := by
      intro d hd
      have hdk : d ∈ kids q := by
        rw [hsplit]
        rcases List.mem_append.mp hd with hd | hd <;> simp [hd]
      have hdc : d ≠ c := by
        rintro rfl
        have := hf.nodup q
        rw [hsplit, List.nodup_middle] at this
        exact (List.nodup_cons.mp this).1 hd
      have hnot : a ∉ d :: preorder kids n (some d) := fun had =>
        hdc (subtree_disjoint hf hl hdk hc had hac)
      refine preorder_eq_of_notMem hsame ?_ fun b hb hmem => ?_
      · rintro ⟨⟩
        exact hnot (by simp)
      · cases hb
        exact hnot (List.mem_cons_of_mem d hmem)
    have h₁ := List.flatMap_congr fun d hd =>
      congrArg (d :: ·) (hother d (List.mem_append_left c₂ hd))
    have h₂ := List.flatMap_congr fun d hd =>
      congrArg (d :: ·) (hother d (List.mem_append_right c₁ hd))
    rw [preorder, preorder, hsame q hne, hsplit, List.flatMap_append, List.flatMap_append,
      List.flatMap_cons, List.flatMap_cons, h₁, h₂]
    rcases List.mem_cons.mp hac with rfl | hac
    · exact ⟨n, [a], c₁.flatMap (fun d => d :: preorder kids n (some d)),
        c₂.flatMap (fun d => d :: preorder kids n (some d)), by simpa using hlc, rfl,
        by simp, by simp⟩
    · obtain ⟨m, l', l₁, l₂, hla, hm, he, he'⟩ := ih hlc hac
      refine ⟨m, l' ++ [c], c₁.flatMap (fun d => d :: preorder kids n (some d)) ++ c :: l₁,
        l₂ ++ c₂.flatMap (fun d => d :: preorder kids n (some d)), by simpa using hla, ?_, ?_, ?_⟩
      · simp only [List.length_append, List.length_singleton]
        omega
      · rw [he]
        simp
      · rw [he']
        simp

end AddNode

end Orchid.Lib
