import Orchid.Crdt.Wire

/-!
# Local edits of received documents

The id and the stamp of a local edit are one above the actor's counter and the clock. Operations
from elsewhere raise both as far as they like.
-/

namespace Orchid.Crdt

open Lib Format

variable {d : CrdtDocument}

/-- The actor of a local operation. -/
def LocalOp.actor : LocalOp → ActorId
  | .insert actor _ _ => actor
  | .delete actor _ => actor

/-- The operation is carried out without an overflow and adds one operation, under an id that was
not there. -/
def LocalOp.AddsOne (op : LocalOp) (d : CrdtDocument) : Prop :=
  ∃ id d', op.run d = some (id, d') ∧ d.ops.contains id = false ∧ d'.ops.contains id = true ∧
    d'.ops.toList.length = d.ops.toList.length + 1 ∧ ∀ o ∈ d.ops, o ∈ d'.ops

/-- The counter of the actor and the clock can be raised. -/
structure LocalOp.HasRoom (op : LocalOp) (d : CrdtDocument) : Prop where
  counter : (d.nextCounter op.actor).val + 1 < 2 ^ 64
  lamport : d.lamport.val + 1 < 2 ^ 64

/-! ### When a local edit is carried out -/

lemma succ?_eq_none_iff {x : U64} : U64.succ? x = none ↔ ¬ x.val + 1 < 2 ^ 64 := by
  by_cases h : x.val + 1 < 2 ^ 64
  · rw [U64.succ?, dif_pos h]
    exact iff_of_false (Option.some_ne_none _) (not_not.mpr h)
  · rw [U64.succ?, dif_neg h]
    exact iff_of_true rfl h

lemma nextId_eq_none_iff {actor : ActorId} :
    d.nextId actor = none ↔ ¬ (d.nextCounter actor).val + 1 < 2 ^ 64 := by
  rw [← succ?_eq_none_iff, CrdtDocument.nextId]
  split <;> simp_all

lemma bumpLamport_zero_eq_none_iff : d.bumpLamport 0 = none ↔ ¬ d.lamport.val + 1 < 2 ^ 64 := by
  have hmax : max d.lamport 0 = d.lamport := max_eq_left (Fin.zero_le _)
  have hdraw : d.bumpLamport 0 = none ↔ U64.succ? (max d.lamport 0) = none := by
    rw [CrdtDocument.bumpLamport]
    split
    · next hnone => exact iff_of_true rfl hnone
    · next l hl => exact iff_of_false (Option.some_ne_none _) (hl ▸ Option.some_ne_none l)
  rw [hdraw, hmax, succ?_eq_none_iff]

/-- The two draws that both local edits begin with. -/
lemma hasRoom_iff_draws {op : LocalOp} : op.HasRoom d ↔
    ∃ id d₁ l d₂, d.nextId op.actor = some (id, d₁) ∧ d₁.bumpLamport 0 = some (l, d₂) := by
  constructor
  · intro h
    obtain ⟨⟨id, d₁⟩, hid⟩ := Option.ne_none_iff_exists'.mp fun hnone =>
      nextId_eq_none_iff.mp hnone h.counter
    obtain ⟨-, -, -, -, hlamport⟩ := CrdtDocument.nextId_eq hid
    obtain ⟨⟨l, d₂⟩, hl⟩ := Option.ne_none_iff_exists'.mp fun hnone =>
      bumpLamport_zero_eq_none_iff.mp hnone (hlamport ▸ h.lamport)
    exact ⟨id, d₁, l, d₂, hid, hl⟩
  · rintro ⟨id, d₁, l, d₂, hid, hl⟩
    obtain ⟨-, -, -, -, hlamport⟩ := CrdtDocument.nextId_eq hid
    constructor
    · by_contra hno
      rw [nextId_eq_none_iff.mpr hno] at hid
      cases hid
    · by_contra hno
      rw [← hlamport] at hno
      rw [bumpLamport_zero_eq_none_iff.mpr hno] at hl
      cases hl

lemma addsOne_of_localEdit {op : LocalOp} {o : Op} {d' : CrdtDocument}
    (hrun : op.run d = some (o.id, d')) (h : d.LocalEdit d' op.actor o) : op.AddsOne d := by
  refine ⟨o.id, d', hrun, h.fresh, ?_, ?_, fun o' ho' => (h.mem_iff o').mpr (.inr ho')⟩
  · exact (KeyedMap.contains_iff _ _).mpr ⟨o, (h.mem_iff o).mpr (.inl rfl), rfl⟩
  · obtain ⟨pre, post, hsplit, hinsert, -⟩ := KeyedMap.insert_split d.ops o h.fresh
    rw [h.ops_eq, hsplit, hinsert]
    simp only [List.length_append, List.length_cons]
    omega

lemma addsOne_iff (op : LocalOp) (d : CrdtDocument) : op.AddsOne d ↔ op.HasRoom d := by
  rw [hasRoom_iff_draws]
  cases op with
  | insert actor after text =>
    constructor
    · rintro ⟨id, d', hrun, -⟩
      simp only [LocalOp.run, CrdtDocument.localInsert, Option.bind_eq_bind,
        Option.bind_eq_some_iff, Prod.exists] at hrun
      obtain ⟨i, d₁, hid, l, d₂, hl, -⟩ := hrun
      exact ⟨i, d₁, l, d₂, hid, hl⟩
    · rintro ⟨id, d₁, l, d₂, hid, hl⟩
      have hrun : (LocalOp.insert actor after text).run d =
          some ((Op.insert id l after text).id, d₂.applyOp (.insert id l after text)) := by
        rw [LocalOp.run, CrdtDocument.localInsert, show d.nextId actor = _ from hid]
        dsimp only [Option.bind_eq_bind, Option.bind_some]
        rw [hl]
        rfl
      exact addsOne_of_localEdit hrun (CrdtDocument.localEdit_of hid hl rfl)
  | delete actor target =>
    constructor
    · rintro ⟨id, d', hrun, -⟩
      simp only [LocalOp.run, CrdtDocument.localDelete, Option.bind_eq_bind,
        Option.bind_eq_some_iff, Prod.exists] at hrun
      obtain ⟨i, d₁, hid, l, d₂, hl, -⟩ := hrun
      exact ⟨i, d₁, l, d₂, hid, hl⟩
    · rintro ⟨id, d₁, l, d₂, hid, hl⟩
      have hrun : (LocalOp.delete actor target).run d =
          some ((Op.delete id l target).id, d₂.applyOp (.delete id l target)) := by
        rw [LocalOp.run, CrdtDocument.localDelete, show d.nextId actor = _ from hid]
        dsimp only [Option.bind_eq_bind, Option.bind_some]
        rw [hl]
        rfl
      exact addsOne_of_localEdit hrun (CrdtDocument.localEdit_of hid hl rfl)

/-- In a received document there is room exactly if the log has no operation of the actor with the
top counter and none with the top stamp. -/
lemma hasRoom_iff_log {op : LocalOp} (h : d.Tight) : op.HasRoom d ↔
    (∀ o ∈ d.ops, o.id.actor = op.actor → o.id.counter.val + 1 < 2 ^ 64) ∧
      ∀ o ∈ d.ops, o.lamport.val + 1 < 2 ^ 64 := by
  constructor
  · intro hroom
    refine ⟨fun o ho hactor => ?_, fun o ho => ?_⟩
    · have hle := Fin.le_def.mp (d.counter_le o ho)
      rw [hactor] at hle
      have := hroom.counter
      omega
    · have hle := Fin.le_def.mp (d.lamport_le o ho)
      have := hroom.lamport
      omega
  · rintro ⟨hcounter, hlamport⟩
    constructor
    · rcases h.counter op.actor with hzero | ⟨o, ho, hid⟩
      · rw [hzero]
        decide
      · have := hcounter o ho (congrArg OpId.actor hid)
        rwa [congrArg OpId.counter hid] at this
    · rcases h.stamp with hzero | ⟨o, ho, hl⟩
      · rw [hzero]
        decide
      · exact hl ▸ hlamport o ho

lemma tight_of_decodeOps {n : ℕ} {doc doc' : CrdtDocument} {s s' : Bytes} (hdoc : doc.Tight)
    (h : decodeOps n doc s = .ok (doc', s')) : doc'.Tight := by
  induction n generalizing doc s with
  | zero =>
    obtain ⟨rfl, -⟩ := Prod.mk.inj (Except.ok.inj h)
    exact hdoc
  | succ n ih =>
    obtain ⟨o, r, -, h⟩ := Parser.bind_eq_ok h
    exact ih (hdoc.applyOp o) h

/-- A document that the decoder accepts is received. -/
lemma tight_of_decode {bytes : Bytes} (h : decodeCrdtPayload bytes = .ok d) : d.Tight := by
  rw [decodeCrdtPayload] at h
  split_ifs at h with hlen hmagic hversion
  cases hread : decodeOps (u32FromLe (slice bytes 16 20)).val .new (bytes.drop 20) with
  | error e =>
    rw [hread] at h
    cases h
  | ok r =>
    rw [hread] at h
    dsimp only at h
    split_ifs at h with hrest
    obtain rfl := Except.ok.inj h
    exact tight_of_decodeOps CrdtDocument.tight_new hread

/-- A local edit of any document adds exactly one operation under a new id, and overflows nothing,
exactly if its actor's counter and the clock have room. -/
theorem local_edit_adds_one_iff (d : CrdtDocument) (op : LocalOp) : op.AddsOne d ↔ op.HasRoom d :=
  addsOne_iff op d

/-- An insert with the highest counter of its actor. -/
def topInsert : Op := .insert ⟨1, Fin.last _⟩ 1 none ['x']

/-- Behind an accepted payload with the highest counter its actor cannot edit any more. -/
theorem not_local_edit_adds_one : ¬ ∀ (bytes : Bytes) (d : CrdtDocument) (op : LocalOp),
    decodeCrdtPayload bytes = .ok d → op.AddsOne d := by
  intro h
  have hfits : (CrdtDocument.new.applyOp topInsert).Fits := by
    refine ⟨by decide, ?_, CrdtDocument.tight_new.applyOp topInsert⟩
    intro op hop
    cases List.mem_singleton.mp hop
    show String.utf8Len ['x'] < 2 ^ 32
    decide
  have hadds := h (payload (CrdtDocument.new.applyOp topInsert)) _ (.insert 1 none ['y'])
    ((decode_payload_iff _).mpr hfits)
  have hroom := ((addsOne_iff _ _).mp hadds).counter
  revert hroom
  decide

end Orchid.Crdt
