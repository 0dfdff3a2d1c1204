import Orchid.Crdt.Walk
import Mathlib.Logic.Relation

/-!
# Convergence

Replicas edit, merge and exchange operations in any order. Every actor id belongs to one replica;
a replica may use several. Deliveries and merges take any operations issued so far, however
often, in any order: a document in transit is any document made of issued operations. The whole
argument rests on one invariant, that an operation id names one operation of the system.
-/

namespace Orchid.Crdt

open Orchid.Lib Relation

/-! ### What the operations of a document do to its log -/

namespace CrdtDocument

lemma ops_applyOp (d : CrdtDocument) (op : Op) : (d.applyOp op).ops = d.ops.insertNew op := by
  unfold applyOp KeyedMap.insertNew
  split_ifs <;> rfl

lemma nextCounter_le_applyOp (d : CrdtDocument) (op : Op) (a : ActorId) :
    d.nextCounter a ≤ (d.applyOp op).nextCounter a := by
  unfold applyOp
  split_ifs
  · exact le_rfl
  · rcases eq_or_ne a op.id.actor with rfl | hne
    · simp
    · simp [Function.update_of_ne hne]

lemma ops_foldl_applyOp (l : List Op) (d : CrdtDocument) :
    (l.foldl applyOp d).ops = l.foldl KeyedMap.insertNew d.ops := by
  induction l generalizing d with
  | nil => rfl
  | cons op l ih => rw [List.foldl_cons, List.foldl_cons, ih, ops_applyOp]

lemma ops_merge (d e : CrdtDocument) : (d.merge e).ops = d.ops.union e.ops :=
  ops_foldl_applyOp e.ops.toList d

lemma nextCounter_le_merge (d e : CrdtDocument) (a : ActorId) :
    d.nextCounter a ≤ (d.merge e).nextCounter a := by
  unfold merge
  induction e.ops.toList generalizing d with
  | nil => exact le_rfl
  | cons op l ih => exact (nextCounter_le_applyOp d op a).trans (ih (d.applyOp op))

/-- What a local edit that adds `op` does: the id is the actor's next one. -/
structure LocalEdit (d d' : CrdtDocument) (actor : ActorId) (op : Op) : Prop where
  actor_eq : op.id.actor = actor
  counter_eq : op.id.counter.val = (d.nextCounter actor).val + 1
  lamport_eq : op.lamport.val = d.lamport.val + 1
  ops_eq : d'.ops = d.ops.insert op
  nextCounter_eq : d'.nextCounter = Function.update d.nextCounter actor op.id.counter
  lamport_eq' : d'.lamport = op.lamport

lemma nextId_eq {d d' : CrdtDocument} {actor : ActorId} {id : OpId}
    (h : d.nextId actor = some (id, d')) :
    id.actor = actor ∧ id.counter.val = (d.nextCounter actor).val + 1 ∧ d'.ops = d.ops ∧
      d'.nextCounter = Function.update d.nextCounter actor id.counter ∧ d'.lamport = d.lamport := by
  unfold nextId at h
  split at h
  · simp at h
  · next c hc =>
    simp only [Option.some.injEq, Prod.mk.injEq] at h
    obtain ⟨rfl, rfl⟩ := h
    exact ⟨rfl, U64.val_of_succ? hc, rfl, rfl, rfl⟩

lemma bumpLamport_zero_eq {d d' : CrdtDocument} {l : U64}
    (h : d.bumpLamport 0 = some (l, d')) :
    l.val = d.lamport.val + 1 ∧ d'.ops = d.ops ∧ d'.nextCounter = d.nextCounter ∧
      d'.lamport = l := by
  unfold bumpLamport at h
  split at h
  · simp at h
  · next l' hl =>
    simp only [Option.some.injEq, Prod.mk.injEq] at h
    obtain ⟨rfl, rfl⟩ := h
    refine ⟨?_, rfl, rfl, rfl⟩
    rw [U64.val_of_succ? hl, max_eq_left (Fin.zero_le _)]

lemma contains_fresh {d : CrdtDocument} {id : OpId}
    (h : (d.nextCounter id.actor).val < id.counter.val) : d.ops.contains id = false := by
  rw [Bool.eq_false_iff]
  intro hc
  obtain ⟨op, hop, rfl⟩ := (KeyedMap.contains_iff _ _).mp hc
  have := Fin.le_def.mp (d.counter_le op hop)
  omega

/-- The two local edits draw an id and a stamp and add one operation. -/
lemma localEdit_of {d d₁ d₂ : CrdtDocument} {actor : ActorId} {op : Op} {l : U64}
    (hid : d.nextId actor = some (op.id, d₁)) (hl : d₁.bumpLamport 0 = some (l, d₂))
    (hop : op.lamport = l) : LocalEdit d (d₂.applyOp op) actor op := by
  obtain ⟨ha, hc, hops, hcnt, hlam⟩ := nextId_eq hid
  obtain ⟨hl', hops', hcnt', hlam'⟩ := bumpLamport_zero_eq hl
  have hcounter : d₂.nextCounter op.id.actor = op.id.counter := by
    rw [hcnt', hcnt, ha, Function.update_self]
  have hfresh : d₂.ops.contains op.id = false := by
    rw [hops', hops]
    refine contains_fresh ?_
    rw [ha, hc]
    exact Nat.lt_succ_self _
  refine ⟨ha, hc, ?_, ?_, ?_, ?_⟩
  · rw [hop, hl', hlam]
  · rw [ops_applyOp, KeyedMap.insertNew, hfresh, if_neg (by simp), hops', hops]
  · simp only [applyOp, hfresh, Bool.false_eq_true, dite_false, hcounter, max_self]
    rw [hcnt', hcnt, ha, Function.update_idem]
  · simp only [applyOp, hfresh, Bool.false_eq_true, dite_false]
    rw [hlam', hop, max_self]

lemma localInsert_spec {d d' : CrdtDocument} {actor : ActorId} {after : Option OpId}
    {text : Text} {id : OpId} (h : d.localInsert actor after text = some (id, d')) :
    ∃ l, LocalEdit d d' actor (.insert id l after text) := by
  simp only [localInsert, Option.bind_eq_bind, Option.bind_eq_some_iff, Prod.exists,
    Option.pure_def, Option.some.injEq, Prod.mk.injEq] at h
  obtain ⟨i, d₁, hid, l, d₂, hl, rfl, rfl⟩ := h
  exact ⟨l, localEdit_of hid hl rfl⟩

lemma localDelete_spec {d d' : CrdtDocument} {actor : ActorId} {target : OpId} {id : OpId}
    (h : d.localDelete actor target = some (id, d')) :
    ∃ l, LocalEdit d d' actor (.delete id l target) := by
  simp only [localDelete, Option.bind_eq_bind, Option.bind_eq_some_iff, Prod.exists,
    Option.pure_def, Option.some.injEq, Prod.mk.injEq] at h
  obtain ⟨i, d₁, hid, l, d₂, hl, rfl, rfl⟩ := h
  exact ⟨l, localEdit_of hid hl rfl⟩

namespace LocalEdit

variable {d d' : CrdtDocument} {actor : ActorId} {op : Op}

lemma fresh (h : LocalEdit d d' actor op) : d.ops.contains op.id = false := by
  refine contains_fresh ?_
  rw [h.actor_eq, h.counter_eq]
  exact Nat.lt_succ_self _

lemma mem_iff (h : LocalEdit d d' actor op) (o : Op) : o ∈ d'.ops ↔ o = op ∨ o ∈ d.ops := by
  rw [h.ops_eq, KeyedMap.mem_insert _ _ _ h.fresh]

lemma nextCounter_le (h : LocalEdit d d' actor op) (a : ActorId) :
    d.nextCounter a ≤ d'.nextCounter a := by
  rw [h.nextCounter_eq]
  rcases eq_or_ne a actor with rfl | hne
  · rw [Function.update_self, Fin.le_def, h.counter_eq]
    exact Nat.le_succ _
  · rw [Function.update_of_ne hne]

end LocalEdit

end CrdtDocument

/-! ### Replicas -/

open CrdtDocument

variable {ι : Type*}

/-- An operation that some replica holds. -/
def Issued (s : ι → CrdtDocument) (op : Op) : Prop := ∃ i, op ∈ (s i).ops

/-- A document made of issued operations: a replica, or one in transit. -/
def Known (s : ι → CrdtDocument) (d : CrdtDocument) : Prop := ∀ op ∈ d.ops, Issued s op

variable [DecidableEq ι]

/-- One step of the system, where `owner` is the replica that uses an actor id. -/
inductive Step (owner : ActorId → ι) : (ι → CrdtDocument) → (ι → CrdtDocument) → Prop where
  | localInsert {s : ι → CrdtDocument} (actor : ActorId) (after : Option OpId) (text : Text)
      {id : OpId} {d' : CrdtDocument}
      (h : (s (owner actor)).localInsert actor after text = some (id, d')) :
      Step owner s (Function.update s (owner actor) d')
  | localDelete {s : ι → CrdtDocument} (actor : ActorId) (target : OpId) {id : OpId}
      {d' : CrdtDocument} (h : (s (owner actor)).localDelete actor target = some (id, d')) :
      Step owner s (Function.update s (owner actor) d')
  | merge {s : ι → CrdtDocument} (i : ι) (other : CrdtDocument) (h : Known s other) :
      Step owner s (Function.update s i ((s i).merge other))
  | applyOp {s : ι → CrdtDocument} (i : ι) (op : Op) (h : Issued s op) :
      Step owner s (Function.update s i ((s i).applyOp op))

/-- Reachable from empty replicas. -/
def Reachable (owner : ActorId → ι) (s : ι → CrdtDocument) : Prop :=
  ReflTransGen (Step owner) (fun _ => .new) s

/-- An id names one issued operation, and the replica that owns an actor has counted every
operation of that actor. -/
structure Consistent (owner : ActorId → ι) (s : ι → CrdtDocument) : Prop where
  injOn : Set.InjOn Op.id {op | Issued s op}
  counted : ∀ op, Issued s op →
    op.id.counter ≤ (s (owner op.id.actor)).nextCounter op.id.actor

lemma mem_ops_update {s : ι → CrdtDocument} {i : ι} {d' : CrdtDocument} {op : Op} :
    Issued (Function.update s i d') op ↔ op ∈ d'.ops ∨ ∃ j, j ≠ i ∧ op ∈ (s j).ops := by
  constructor
  · rintro ⟨j, hj⟩
    rcases eq_or_ne j i with rfl | hne
    · exact Or.inl (by simpa using hj)
    · exact Or.inr ⟨j, hne, by simpa [Function.update_of_ne hne] using hj⟩
  · rintro (h | ⟨j, hne, h⟩)
    · exact ⟨i, by simpa using h⟩
    · exact ⟨j, by simpa [Function.update_of_ne hne] using h⟩

namespace Consistent

variable {owner : ActorId → ι} {s : ι → CrdtDocument}

omit [DecidableEq ι] in
lemma init : Consistent owner (fun _ => .new) where
  injOn := by
    rintro op ⟨i, h⟩
    simp [CrdtDocument.new] at h
  counted := by
    rintro op ⟨i, h⟩
    simp [CrdtDocument.new] at h

/-- A step that issues nothing new and lowers no counter keeps the invariant. -/
lemma of_no_new (hc : Consistent owner s) {i : ι} {d' : CrdtDocument}
    (hops : ∀ op ∈ d'.ops, Issued s op) (hcnt : ∀ a, (s i).nextCounter a ≤ d'.nextCounter a) :
    Consistent owner (Function.update s i d') := by
  have hsub : ∀ op, Issued (Function.update s i d') op → Issued s op := by
    intro op h
    rcases mem_ops_update.mp h with h | ⟨j, -, h⟩
    · exact hops op h
    · exact ⟨j, h⟩
  refine ⟨hc.injOn.mono hsub, fun op h => (hc.counted op (hsub op h)).trans ?_⟩
  rcases eq_or_ne (owner op.id.actor) i with rfl | hne
  · simpa using hcnt op.id.actor
  · rw [Function.update_of_ne hne]

/-- A local edit issues one operation, under an id that the system has not seen. -/
lemma of_localEdit (hc : Consistent owner s) {actor : ActorId} {d' : CrdtDocument} {op : Op}
    (he : LocalEdit (s (owner actor)) d' actor op) :
    Consistent owner (Function.update s (owner actor) d') := by
  have hsub : ∀ o, Issued (Function.update s (owner actor) d') o → o = op ∨ Issued s o := by
    intro o h
    rcases mem_ops_update.mp h with h | ⟨j, -, h⟩
    · exact ((he.mem_iff o).mp h).imp_right fun h => ⟨_, h⟩
    · exact Or.inr ⟨j, h⟩
  have hfresh : ∀ o, Issued s o → o.id ≠ op.id := by
    intro o ho heq
    have := Fin.le_def.mp (hc.counted o ho)
    rw [heq, he.actor_eq, he.counter_eq] at this
    omega
  constructor
  · intro a ha b hb hab
    rcases hsub a ha with rfl | ha <;> rcases hsub b hb with rfl | hb
    · rfl
    · exact absurd hab.symm (hfresh b hb)
    · exact absurd hab (hfresh a ha)
    · exact hc.injOn ha hb hab
  · intro o ho
    rcases hsub o ho with rfl | ho
    · rw [he.actor_eq, Function.update_self, he.nextCounter_eq, Function.update_self]
    · refine (hc.counted o ho).trans ?_
      rcases eq_or_ne (owner o.id.actor) (owner actor) with heq | hne
      · rw [heq, Function.update_self]
        exact he.nextCounter_le _
      · rw [Function.update_of_ne hne]

lemma step {s' : ι → CrdtDocument} (hc : Consistent owner s) (h : Step owner s s') :
    Consistent owner s' := by
  cases h with
  | localInsert actor after text h =>
    obtain ⟨l, he⟩ := localInsert_spec h
    exact hc.of_localEdit he
  | localDelete actor target h =>
    obtain ⟨l, he⟩ := localDelete_spec h
    exact hc.of_localEdit he
  | merge i other h =>
    refine hc.of_no_new (fun op hop => ?_) (nextCounter_le_merge _ _)
    rw [ops_merge] at hop
    exact KeyedMap.union_mem_pool hc.injOn (fun v hv => ⟨i, hv⟩) h op hop
  | applyOp i op h =>
    refine hc.of_no_new (fun o ho => ?_) (nextCounter_le_applyOp _ _)
    rw [ops_applyOp, KeyedMap.mem_insertNew] at ho
    rcases ho with ho | ⟨rfl, -⟩
    · exact ⟨i, ho⟩
    · exact h

lemma of_reachable (h : Reachable owner s) : Consistent owner s := by
  induction h with
  | refl => exact .init
  | tail _ hstep ih => exact ih.step hstep

/-! ### Documents of one system -/

omit [DecidableEq ι] in
lemma ops_eq_of_ids_eq (hc : Consistent owner s) {d e : CrdtDocument} (hd : Known s d)
    (he : Known s e) (h : ∀ id, d.ops.contains id = e.ops.contains id) : d.ops = e.ops := by
  have aux : ∀ {d e : CrdtDocument}, Known s d → Known s e →
      (∀ id, d.ops.contains id = e.ops.contains id) → ∀ op ∈ d.ops, op ∈ e.ops := by
    intro d e hd he h op hop
    have hin : e.ops.contains op.id = true := by
      rw [← h]
      exact (KeyedMap.contains_iff _ _).mpr ⟨op, hop, rfl⟩
    obtain ⟨o, ho, hid⟩ := (KeyedMap.contains_iff _ _).mp hin
    exact hc.injOn (he o ho) (hd op hop) hid ▸ ho
  exact KeyedMap.ext_mem fun op => ⟨aux hd he h op, aux he hd (fun id => (h id).symm) op⟩

end Consistent

/-! ### Deletes stay -/

lemma ops_mono_step {owner : ActorId → ι} {s s' : ι → CrdtDocument} (h : Step owner s s') (i : ι) :
    ∀ op ∈ (s i).ops, op ∈ (s' i).ops := by
  have key : ∀ (j : ι) (d' : CrdtDocument), (∀ op ∈ (s j).ops, op ∈ d'.ops) →
      ∀ op ∈ (s i).ops, op ∈ (Function.update s j d' i).ops := by
    intro j d' hd op hop
    rcases eq_or_ne i j with rfl | hne
    · simpa using hd op hop
    · simpa [Function.update_of_ne hne] using hop
  have fold : ∀ (l : List Op) (m : KeyedMap Op.id), ∀ op ∈ m, op ∈ l.foldl KeyedMap.insertNew m := by
    intro l
    induction l with
    | nil => intro m op h; exact h
    | cons o l ih =>
      intro m op h
      exact ih (m.insertNew o) op ((KeyedMap.mem_insertNew m o op).mpr (Or.inl h))
  cases h with
  | localInsert actor after text h =>
    obtain ⟨l, he⟩ := localInsert_spec h
    exact key _ _ fun op hop => (he.mem_iff op).mpr (Or.inr hop)
  | localDelete actor target h =>
    obtain ⟨l, he⟩ := localDelete_spec h
    exact key _ _ fun op hop => (he.mem_iff op).mpr (Or.inr hop)
  | merge j other h =>
    refine key _ _ fun op hop => ?_
    rw [ops_merge]
    exact fold _ _ op hop
  | applyOp j o h =>
    refine key _ _ fun op hop => ?_
    rw [ops_applyOp]
    exact (KeyedMap.mem_insertNew _ _ _).mpr (Or.inl hop)

lemma ops_mono {owner : ActorId → ι} {s s' : ι → CrdtDocument}
    (h : ReflTransGen (Step owner) s s') (i : ι) : ∀ op ∈ (s i).ops, op ∈ (s' i).ops := by
  induction h with
  | refl => exact fun op h => h
  | tail _ hstep ih => exact fun op h => ops_mono_step hstep i op (ih op h)

/-- In every state that the replicas can reach: holding the same operation ids gives the same
text; merging documents of the system is commutative, associative and idempotent, on operations
and on text; and an insert whose delete a replica holds shows at that replica in no later state. -/
theorem replicas_converge (owner : ActorId → ι) (s : ι → CrdtDocument) (h : Reachable owner s) :
    (∀ i j, (∀ id, (s i).ops.contains id = (s j).ops.contains id) →
      (s i).ops = (s j).ops ∧ (s i).materialize = (s j).materialize) ∧
    (∀ d e, Known s d → Known s e →
      (d.merge e).ops = (e.merge d).ops ∧ (d.merge e).materialize = (e.merge d).materialize) ∧
    (∀ d e f, Known s d → Known s e → Known s f →
      ((d.merge e).merge f).ops = (d.merge (e.merge f)).ops ∧
      ((d.merge e).merge f).materialize = (d.merge (e.merge f)).materialize) ∧
    (∀ d e, Known s d → Known s e →
      (d.merge d).ops = d.ops ∧ (d.merge d).materialize = d.materialize ∧
      ((d.merge e).merge e).ops = (d.merge e).ops ∧
      ((d.merge e).merge e).materialize = (d.merge e).materialize) ∧
    (∀ i target, target ∈ deleted (s i).ops → ∀ s', ReflTransGen (Step owner) s s' →
      (s' i).materialize = (s' i).visible.flatMap (textOf (s' i).ops) ∧
      target ∉ (s' i).visible) := by
  have hc : Consistent owner s := .of_reachable h
  have comm : ∀ d e, Known s d → Known s e → (d.merge e).ops = (e.merge d).ops := by
    intro d e hd he
    rw [ops_merge, ops_merge, KeyedMap.union_comm hc.injOn hd he]
  have assoc : ∀ d e f, Known s d → Known s e → Known s f →
      ((d.merge e).merge f).ops = (d.merge (e.merge f)).ops := by
    intro d e f hd he hf
    rw [ops_merge, ops_merge, ops_merge, ops_merge, KeyedMap.union_assoc hc.injOn hd he hf]
  have idem : ∀ d, Known s d → (d.merge d).ops = d.ops := by
    intro d hd
    rw [ops_merge, KeyedMap.union_eq_left hc.injOn hd fun v hv => hv]
  have idem' : ∀ d e, Known s d → Known s e → ((d.merge e).merge e).ops = (d.merge e).ops := by
    intro d e hd he
    have hmem := KeyedMap.mem_union hc.injOn hd he
    rw [ops_merge, ops_merge, KeyedMap.union_eq_left hc.injOn]
    · exact KeyedMap.union_mem_pool hc.injOn hd he
    · exact fun v hv => (hmem v).mpr (Or.inr hv)
  refine ⟨fun i j hij => ?_, fun d e hd he => ?_, fun d e f hd he hf => ?_, fun d e hd he => ?_,
    fun i target ht s' hs' => ⟨materialize_eq _, ?_⟩⟩
  · have := hc.ops_eq_of_ids_eq (fun op hop => ⟨i, hop⟩) (fun op hop => ⟨j, hop⟩) hij
    exact ⟨this, materialize_congr this⟩
  · exact ⟨comm d e hd he, materialize_congr (comm d e hd he)⟩
  · exact ⟨assoc d e f hd he hf, materialize_congr (assoc d e f hd he hf)⟩
  · exact ⟨idem d hd, materialize_congr (idem d hd), idem' d e hd he,
      materialize_congr (idem' d e hd he)⟩
  · obtain ⟨id, l, hop⟩ := mem_deleted.mp ht
    have : target ∈ deleted (s' i).ops := mem_deleted.mpr ⟨id, l, ops_mono hs' i _ hop⟩
    simp [visible, this]

/-- Two replicas that each typed one text end with the same text whichever merges first. -/
theorem replicas_converge_two_actors :
    ∃ s : Fin 2 → CrdtDocument,
      (s 0).materialize = ['A'] ∧ (s 1).materialize = ['B'] ∧
      ((s 0).merge (s 1)).materialize = ((s 1).merge (s 0)).materialize := by
  let owner : ActorId → Fin 2 := fun a => if a = 1 then 0 else 1
  let s₀ : Fin 2 → CrdtDocument := fun _ => .new
  obtain ⟨⟨i, d⟩, hd⟩ : ∃ r, (s₀ (owner 1)).localInsert 1 none ['A'] = some r := ⟨_, rfl⟩
  let s₁ := Function.update s₀ (owner 1) d
  obtain ⟨⟨j, e⟩, he⟩ : ∃ r, (s₁ (owner 2)).localInsert 2 none ['B'] = some r := ⟨_, rfl⟩
  let s₂ := Function.update s₁ (owner 2) e
  have hreach : Reachable owner s₂ :=
    .tail (.single (Step.localInsert 1 none ['A'] hd)) (Step.localInsert 2 none ['B'] he)
  have hconv := (replicas_converge owner s₂ hreach).2.1 (s₂ 0) (s₂ 1)
    (fun op hop => ⟨0, hop⟩) (fun op hop => ⟨1, hop⟩)
  refine ⟨s₂, ?_, ?_, hconv.2⟩
  · cases hd
    rfl
  · cases hd
    cases he
    rfl

end Orchid.Crdt
