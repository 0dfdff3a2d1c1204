import Orchid.Crdt.Convergence

/-!
# Where a local insert lands

`local_insert` hangs the new element under its anchor, and the walk shows the elements under one
anchor in id order. So the new text stands directly after the anchor only if the elements that
already hang there under smaller ids show nothing that would come between.
-/

namespace Orchid.Crdt.CrdtDocument

open Orchid.Lib

/-- The previous text with `text` put directly after the element `after` (at the start for
`none`), and nothing else changed. -/
def InsertedAfter (d d' : CrdtDocument) (after : Option OpId) (text : Text) : Prop :=
  match after with
  | none => d'.materialize = text ++ d.materialize
  | some a => ∀ pre post, d.visible = pre ++ a :: post →
      d'.materialize =
        (pre ++ [a]).flatMap (textOf d.ops) ++ text ++ post.flatMap (textOf d.ops)

/-- Text of an insert and of everything below it. -/
def subtreeText (d : CrdtDocument) (c : OpId) : Text :=
  visibleText d.ops c ++ walk d.ops d.ops.toList.length (some c)

/-- Text under `after` below siblings with smaller ids than `id`. -/
def earlierText (d : CrdtDocument) (after : Option OpId) (id : OpId) : Text :=
  ((children d.ops after).filter (· < id)).flatMap d.subtreeText

/-- Text that already hangs under an id not yet in the log. -/
def danglingText (d : CrdtDocument) (id : OpId) : Text :=
  walk d.ops d.ops.toList.length (some id)

/-- The text of the new element, empty if its id is already the target of a delete. -/
def shownText (d : CrdtDocument) (id : OpId) (text : Text) : Text :=
  if id ∈ deleted d.ops then [] else text

/-- The id that the actor's next operation gets. -/
def freshId (d : CrdtDocument) (actor : ActorId) : OpId := ⟨actor, d.nextCounter actor + 1⟩

/-- A text put under `after` by `actor` commutes with the text that comes between: the earlier
siblings' before it, and after it what already hangs under its id. -/
def LandsAfter (d : CrdtDocument) (actor : ActorId) (after : Option OpId) (text : Text) : Prop :=
  d.earlierText after (d.freshId actor) ++
      (d.shownText (d.freshId actor) text ++ d.danglingText (d.freshId actor)) =
    text ++ d.earlierText after (d.freshId actor)

lemma eq_freshId {d d' : CrdtDocument} {actor : ActorId} {op : Op}
    (h : LocalEdit d d' actor op) : op.id = d.freshId actor := by
  have hc : op.id.counter = d.nextCounter actor + 1 := by
    have hlt := op.id.counter.isLt
    refine Fin.ext ?_
    rw [h.counter_eq] at hlt ⊢
    simp only [Fin.val_add]
    exact (Nat.mod_eq_of_lt hlt).symm
  rw [freshId, ← hc, ← h.actor_eq]

/-! ### The log after the insert -/

section Insert

variable {d d' : CrdtDocument} {actor : ActorId} {id : OpId} {l : U64} {after : Option OpId}
  {text : Text}

lemma children_insert (h : LocalEdit d d' actor (.insert id l after text)) :
    ∃ k₁ k₂, children d.ops after = k₁ ++ k₂ ∧ children d'.ops after = k₁ ++ id :: k₂ ∧
      (∀ c ∈ k₁, c < id) ∧ (∀ c ∈ k₂, id < c) ∧
      ∀ q, q ≠ after → children d'.ops q = children d.ops q := by
  obtain ⟨o₁, o₂, hops, hops', h₁, h₂⟩ := KeyedMap.insert_split d.ops _ h.fresh
  have hmem : ∀ q (o : List Op) (c : OpId), c ∈ o.filterMap (childUnder q) →
      ∃ op ∈ o, op.id = c := by
    intro q o c hc
    obtain ⟨op, hop, hf⟩ := List.mem_filterMap.mp hc
    refine ⟨op, hop, ?_⟩
    cases op with
    | delete => simp [childUnder] at hf
    | insert =>
      simp only [childUnder, Option.ite_none_right_eq_some, Option.some.injEq] at hf
      exact hf.2
  refine ⟨o₁.filterMap (childUnder after), o₂.filterMap (childUnder after), ?_, ?_, ?_, ?_, ?_⟩
  · rw [← List.filterMap_append, ← hops]
    rfl
  · rw [children, h.ops_eq, hops']
    simp [childUnder]
  · intro c hc
    obtain ⟨op, hop, rfl⟩ := hmem _ _ _ hc
    exact h₁ op hop
  · intro c hc
    obtain ⟨op, hop, rfl⟩ := hmem _ _ _ hc
    exact h₂ op hop
  · intro q hq
    rw [children, children, h.ops_eq, hops', hops]
    simp [childUnder, hq.symm]

lemma mem_deleted_insert (h : LocalEdit d d' actor (.insert id l after text)) (c : OpId) :
    c ∈ deleted d'.ops ↔ c ∈ deleted d.ops := by
  simp [mem_deleted, h.mem_iff]

lemma find?_insert_self (h : LocalEdit d d' actor (.insert id l after text)) :
    d'.ops.find? id = some (.insert id l after text) :=
  find?_insert ((h.mem_iff _).mpr (Or.inl rfl))

lemma find?_insert_of_ne (h : LocalEdit d d' actor (.insert id l after text)) {c : OpId}
    (hc : c ≠ id) : d'.ops.find? c = d.ops.find? c := by
  refine Option.ext fun op => ?_
  rw [KeyedMap.find?_eq_some_iff, KeyedMap.find?_eq_some_iff, h.mem_iff]
  refine and_congr_left fun hop => or_iff_right ?_
  rintro rfl
  exact hc hop.symm

lemma visibleText_insert_self (h : LocalEdit d d' actor (.insert id l after text)) :
    visibleText d'.ops id = d.shownText id text := by
  simp [visibleText, shownText, textOf, mem_deleted_insert h, find?_insert_self h]

lemma visibleText_insert_of_ne (h : LocalEdit d d' actor (.insert id l after text)) {c : OpId}
    (hc : c ≠ id) : visibleText d'.ops c = visibleText d.ops c := by
  simp [visibleText, textOf, mem_deleted_insert h, find?_insert_of_ne h hc]

/-- The new id is no insert of the old log. -/
lemma notMem_children (h : LocalEdit d d' actor (.insert id l after text)) (p : Option OpId) :
    id ∉ children d.ops p := by
  intro hc
  obtain ⟨l', t, hop⟩ := mem_children.mp hc
  have : d.ops.contains id = true := (KeyedMap.contains_iff _ _).mpr ⟨_, hop, rfl⟩
  exact absurd this (by simp [show d.ops.contains id = false from h.fresh])

lemma length_insert (h : LocalEdit d d' actor (.insert id l after text)) :
    d'.ops.toList.length = d.ops.toList.length + 1 := by
  obtain ⟨o₁, o₂, hops, hops', -, -⟩ := KeyedMap.insert_split d.ops _ h.fresh
  rw [h.ops_eq, hops', hops]
  simp only [List.length_append, List.length_cons]
  omega

/-! ### The traversal after the insert -/

/-- An id and the traversal below it, in the log before the insert. -/
def subtree (d : CrdtDocument) (c : OpId) : List OpId :=
  c :: preorder (children d.ops) d.ops.toList.length (some c)

/-- Below the anchor: a full traversal, whatever fuel is left there. -/
lemma preorder_anchor_insert (h : LocalEdit d d' actor (.insert id l after text))
    {la : List OpId} (hla : Lineage (parentOf d'.ops) after la)
    (hsub : la ⊆ d'.ops.toList.map Op.id) {k₁ k₂ : List OpId}
    (hk : children d.ops after = k₁ ++ k₂) (hk' : children d'.ops after = k₁ ++ id :: k₂)
    (hsame : ∀ q, q ≠ after → children d'.ops q = children d.ops q) {m : ℕ}
    (hm : d.ops.toList.length ≤ la.length + m) :
    preorder (children d.ops) (m + 1) after = k₁.flatMap d.subtree ++ k₂.flatMap d.subtree ∧
      preorder (children d'.ops) (m + 1) after =
        k₁.flatMap d.subtree ++ (d.subtree id ++ k₂.flatMap d.subtree) := by
  have hf' := isForest d'.ops
  have hf := hf'.of_add hk hk' hsame
  have hnodes : ∀ p, ∀ c ∈ children d.ops p, c ∈ d'.ops.toList.map Op.id := by
    intro p c hc
    obtain ⟨l', t, hop⟩ := mem_children.mp hc
    exact List.mem_map.mpr ⟨_, (h.mem_iff _).mpr (Or.inr hop), rfl⟩
  -- below a child of the anchor the rest of the fuel is enough for the old log
  have hfull : ∀ c ∈ children d'.ops after,
      c :: preorder (children d.ops) m (some c) = d.subtree c := by
    intro c hc
    have hlc : Lineage (parentOf d'.ops) (some c) (c :: la) := .node (by rwa [hf'.parent_eq hc])
    have hsubc : c :: la ⊆ d'.ops.toList.map Op.id :=
      List.cons_subset.mpr ⟨children_mem_ids d'.ops after c hc, hsub⟩
    have hlen := length_insert h
    rw [subtree, preorder_stable hf hnodes hlc hsubc]
    · simp only [List.length_map, List.length_cons]
      omega
    · simp only [List.length_map, List.length_cons]
      omega
  rw [hk'] at hfull
  have h₁ := List.flatMap_congr fun c hc => hfull c (List.mem_append_left _ hc)
  have h₂ := List.flatMap_congr fun c hc =>
    hfull c (List.mem_append_right k₁ (List.mem_cons_of_mem id hc))
  constructor
  · rw [preorder, hk, List.flatMap_append, h₁, h₂]
  · rw [preorder_anchor hf' hla hk hk' hsame m, h₁, h₂, hfull id (by simp)]

/-- The traversal after the insert is the traversal before it with the new element, and what hung
under its id, put behind the earlier siblings. -/
lemma order_insert (h : LocalEdit d d' actor (.insert id l after text))
    (hafter : ∀ a, after = some a → a ∈ preorder (children d.ops) d.ops.toList.length none) :
    ∃ pre post k₁ k₂, children d.ops after = k₁ ++ k₂ ∧
      (∀ c ∈ k₁, c < id) ∧ (∀ c ∈ k₂, id < c) ∧
      preorder (children d.ops) d.ops.toList.length none =
        pre ++ (k₁.flatMap d.subtree ++ k₂.flatMap d.subtree) ++ post ∧
      preorder (children d'.ops) d'.ops.toList.length none =
        pre ++ (k₁.flatMap d.subtree ++ (d.subtree id ++ k₂.flatMap d.subtree)) ++ post ∧
      (after = none → pre = [] ∧ post = []) ∧ ∀ a, after = some a → ∃ pre', pre = pre' ++ [a] := by
  obtain ⟨k₁, k₂, hk, hk', hlt, hgt, hsame⟩ := children_insert h
  have hf' := isForest d'.ops
  have hf := hf'.of_add hk hk' hsame
  have hlen := length_insert h
  rw [hlen, ← preorder_root_stable d.ops (Nat.le_succ _)]
  cases after with
  | none =>
    obtain ⟨he, he'⟩ := preorder_anchor_insert h .root (List.nil_subset _) hk hk' hsame
      (m := d.ops.toList.length) (by simp)
    exact ⟨[], [], k₁, k₂, hk, hlt, hgt, by simpa using he, by simpa using he', by simp, by simp⟩
  | some a =>
    have ha := hafter a rfl
    rw [← preorder_root_stable d.ops (Nat.le_succ _)] at ha
    obtain ⟨m, la, l₁, l₂, hla, hm, he, he'⟩ := preorder_around hf' hk hk' hsame .root ha
    rw [List.append_nil] at hla
    have hsub : la ⊆ d.ops.toList.map Op.id := by
      obtain ⟨l', hl', -, -, hin⟩ := lineage_of_mem_preorder hf .root ha
      obtain rfl : la = l' := by simpa using hla.unique hl'
      exact fun z hz => (hin z hz).elim fun p hp => children_mem_ids d.ops p z hp
    have hbound := hla.nodup.length_le_of_subset hsub
    rw [List.length_map] at hbound
    obtain ⟨m, rfl⟩ : ∃ m', m = m' + 1 := Nat.exists_eq_succ_of_ne_zero (by omega)
    have hsub' : la ⊆ d'.ops.toList.map Op.id := by
      intro z hz
      obtain ⟨op, hop, rfl⟩ := List.mem_map.mp (hsub hz)
      exact List.mem_map.mpr ⟨op, (h.mem_iff op).mpr (Or.inr hop), rfl⟩
    obtain ⟨hb, hb'⟩ := preorder_anchor_insert h hla hsub' hk hk' hsame (m := m) (by omega)
    refine ⟨l₁ ++ [a], l₂, k₁, k₂, hk, hlt, hgt, ?_, ?_, by simp, by simp⟩
    · rw [he, hb]
      simp
    · rw [he', hb']
      simp

end Insert

/-! ### Texts -/

lemma flatMap_subtree (d : CrdtDocument) (k : List OpId) :
    (k.flatMap d.subtree).flatMap (visibleText d.ops) = k.flatMap d.subtreeText := by
  rw [List.flatMap_assoc]
  refine List.flatMap_congr fun c _ => ?_
  rw [subtree, subtreeText, List.flatMap_cons, walk_eq_preorder]

section Insert

variable {d d' : CrdtDocument} {actor : ActorId} {id : OpId} {l : U64} {after : Option OpId}
  {text : Text}

/-- Elements of the old log show what they showed. -/
lemma flatMap_visibleText_insert (h : LocalEdit d d' actor (.insert id l after text))
    {k : List OpId} (hk : ∀ c ∈ k, ∃ q, c ∈ children d.ops q) :
    k.flatMap (visibleText d'.ops) = k.flatMap (visibleText d.ops) := by
  refine List.flatMap_congr fun c hc => visibleText_insert_of_ne h ?_
  rintro rfl
  exact (hk c hc).elim fun q hq => notMem_children h q hq

/-- The new text stands behind the anchor and its earlier siblings, followed by what hung under
its id. -/
lemma materialize_insert (h : LocalEdit d d' actor (.insert id l after text))
    (hafter : ∀ a, after = some a → a ∈ preorder (children d.ops) d.ops.toList.length none) :
    ∃ pre rest later, preorder (children d.ops) d.ops.toList.length none = pre ++ rest ∧
      (after = none → pre = []) ∧ (∀ a, after = some a → ∃ pre', pre = pre' ++ [a]) ∧
      rest.flatMap (visibleText d.ops) = d.earlierText after id ++ later ∧
      d'.materialize = pre.flatMap (visibleText d.ops) ++
        (d.earlierText after id ++ (d.shownText id text ++ d.danglingText id ++ later)) := by
  obtain ⟨pre, post, k₁, k₂, hk, hlt, hgt, he, he', hnone, hsome⟩ := order_insert h hafter
  have hearlier : d.earlierText after id = k₁.flatMap d.subtreeText := by
    have hk₁ : k₁.filter (· < id) = k₁ := List.filter_eq_self.mpr fun c hc => by simpa using hlt c hc
    have hk₂ : k₂.filter (· < id) = [] :=
      List.filter_eq_nil_iff.mpr fun c hc => by simpa using (hgt c hc).le
    rw [earlierText, hk, List.filter_append, hk₁, hk₂, List.append_nil]
  have hold : ∀ c ∈ pre ++ (k₁.flatMap d.subtree ++ k₂.flatMap d.subtree) ++ post,
      ∃ q, c ∈ children d.ops q := by
    rw [← he]
    exact fun c hc => exists_mem_kids_of_mem_preorder hc
  have hkeep : ∀ k : List OpId,
      (∀ c ∈ k, c ∈ pre ++ (k₁.flatMap d.subtree ++ k₂.flatMap d.subtree) ++ post) →
      k.flatMap (visibleText d'.ops) = k.flatMap (visibleText d.ops) :=
    fun k hk => flatMap_visibleText_insert h fun c hc => hold c (hk c hc)
  have hnew : (d.subtree id).flatMap (visibleText d'.ops) =
      d.shownText id text ++ d.danglingText id := by
    rw [subtree, List.flatMap_cons, visibleText_insert_self h, danglingText, walk_eq_preorder,
      flatMap_visibleText_insert h fun c hc => exists_mem_kids_of_mem_preorder hc]
  refine ⟨pre, k₁.flatMap d.subtree ++ k₂.flatMap d.subtree ++ post,
    k₂.flatMap d.subtreeText ++ post.flatMap (visibleText d.ops), by simpa using he,
    fun hn => (hnone hn).1, hsome, ?_, ?_⟩
  · rw [List.flatMap_append, List.flatMap_append, flatMap_subtree, flatMap_subtree, hearlier,
      List.append_assoc]
  · rw [materialize, walk_eq_preorder, he', List.flatMap_append, List.flatMap_append,
      List.flatMap_append, List.flatMap_append, hnew, hkeep pre, hkeep post,
      hkeep (k₁.flatMap d.subtree), hkeep (k₂.flatMap d.subtree), flatMap_subtree, flatMap_subtree,
      hearlier]
    · simp only [List.append_assoc]
    all_goals
      intro c hc
      simp only [List.mem_append]
      tauto

end Insert

/-- Where a local insert lands. For every document and every anchor that is the start or a visible
insert, the new text stands directly after the anchor, everything else unchanged, exactly when it
commutes with the text between. -/
theorem localInsert_insertedAfter_iff (d d' : CrdtDocument) (actor : ActorId)
    (after : Option OpId) (text : Text) (id : OpId) (hafter : ∀ a, after = some a → a ∈ d.visible)
    (h : d.localInsert actor after text = some (id, d')) :
    d.InsertedAfter d' after text ↔ d.LandsAfter actor after text := by
  obtain ⟨l, he⟩ := localInsert_spec h
  obtain rfl : id = d.freshId actor := eq_freshId he
  rw [LandsAfter]
  generalize d.freshId actor = id at *
  obtain ⟨pre, rest, later, hsplit, hnone, hsome, hrest, htext⟩ := materialize_insert he
    fun a ha => (List.mem_filter.mp (hafter a ha)).1
  have hbefore : d.materialize =
      pre.flatMap (visibleText d.ops) ++ (d.earlierText after id ++ later) := by
    rw [materialize, walk_eq_preorder, hsplit, List.flatMap_append, hrest]
  -- both sides share what stands before the anchor's children and what stands after them
  have hcancel : ∀ x : Text, x ++ (d.earlierText after id ++
        (d.shownText id text ++ d.danglingText id ++ later)) =
        x ++ text ++ (d.earlierText after id ++ later) ↔
      d.earlierText after id ++ (d.shownText id text ++ d.danglingText id) =
        text ++ d.earlierText after id := by
    intro x
    rw [List.append_assoc x, List.append_cancel_left_eq, ← List.append_assoc text,
      ← List.append_assoc (d.earlierText after id), List.append_cancel_right_eq]
  cases after with
  | none =>
    obtain rfl := hnone rfl
    rw [InsertedAfter, htext, hbefore, ← hcancel []]
    simp
  | some a =>
    obtain ⟨pre', rfl⟩ := hsome a rfl
    rw [InsertedAfter, htext, ← hcancel ((pre' ++ [a]).flatMap (visibleText d.ops)), ← hrest,
      flatMap_visibleText, flatMap_visibleText]
    have ha := (List.mem_filter.mp (hafter a rfl)).2
    have hvis : d.visible =
        pre'.filter (· ∉ deleted d.ops) ++ a :: rest.filter (· ∉ deleted d.ops) := by
      rw [visible, hsplit]
      simp [List.filter_append, of_decide_eq_true ha]
    have hpre : (pre' ++ [a]).filter (· ∉ deleted d.ops) =
        pre'.filter (· ∉ deleted d.ops) ++ [a] := by
      simp [List.filter_append, of_decide_eq_true ha]
    rw [hpre]
    constructor
    · exact fun hin => hin _ _ hvis
    · intro heq pre post hvis'
      have hnd : d.visible.Nodup := (nodup_preorder (isForest d.ops) .root).filter _
      rw [hvis] at hvis' hnd
      have hnot : ∀ {x y : List OpId}, (x ++ a :: y).Nodup → a ∉ x ∧ a ∉ y := fun hxy => by
        simpa using (List.nodup_middle.mp hxy).notMem
      obtain ⟨h₁, -, h₂⟩ := (List.append_cons_inj_of_notMem (hnot hnd).1 (hnot hnd).2).mp hvis'
      rw [← h₁, ← h₂]
      exact heq

/-- A text typed between an anchor and what another actor has put behind it. -/
theorem localInsert_insertedAfter_sibling : ∃ a b c d e f,
    new.localInsert 1 none ['A'] = some (a, d) ∧ d.localInsert 2 (some a) ['C'] = some (b, e) ∧
      e.localInsert 1 (some a) ['B'] = some (c, f) ∧ e.materialize = ['A', 'C'] ∧
      e.InsertedAfter f (some a) ['B'] ∧ f.materialize = ['A', 'B', 'C'] := by
  obtain ⟨⟨a, d⟩, hd⟩ : ∃ r, new.localInsert 1 none ['A'] = some r := ⟨_, rfl⟩
  obtain ⟨⟨b, e⟩, he⟩ : ∃ r, d.localInsert 2 (some a) ['C'] = some r := by
    cases hd
    exact ⟨_, rfl⟩
  obtain ⟨⟨c, f⟩, hf⟩ : ∃ r, e.localInsert 1 (some a) ['B'] = some r := by
    cases hd
    cases he
    exact ⟨_, rfl⟩
  have hiff := localInsert_insertedAfter_iff e f 1 (some a) ['B'] c
  cases hd
  cases he
  cases hf
  refine ⟨_, _, _, _, _, _, rfl, rfl, rfl, by rfl, (hiff ?_ rfl).mpr ?_, by rfl⟩
  · intro x hx
    cases hx
    decide
  · rw [LandsAfter]
    rfl

/-- Two texts typed at the start by one actor: the second one shows behind the first. -/
theorem localInsert_not_insertedAfter :
    ¬ ∀ (owner : ActorId → Unit) (s : Unit → CrdtDocument), Reachable owner s →
      ∀ (actor : ActorId) (after : Option OpId) (text : Text) (id : OpId) (d' : CrdtDocument),
        (∀ a, after = some a → a ∈ (s ()).visible) →
        (s ()).localInsert actor after text = some (id, d') →
        (s ()).InsertedAfter d' after text := by
  intro hall
  obtain ⟨⟨i, d⟩, hd⟩ : ∃ r, new.localInsert 1 none ['A'] = some r := ⟨_, rfl⟩
  obtain ⟨⟨j, e⟩, he⟩ : ∃ r, d.localInsert 1 none ['B'] = some r := by
    cases hd
    exact ⟨_, rfl⟩
  let owner : ActorId → Unit := fun _ => ()
  let s : Unit → CrdtDocument := Function.update (fun _ => new) (owner 1) d
  have hreach : Reachable owner s := .single (Step.localInsert 1 none ['A'] hd)
  have hin : e.materialize = ['B'] ++ (s ()).materialize :=
    hall owner s hreach 1 none ['B'] j e (by simp) he
  cases hd
  cases he
  have hAB : ['A', 'B'] = ['B', 'A'] := hin
  simp at hAB

end Orchid.Crdt.CrdtDocument
