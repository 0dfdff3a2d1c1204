import Orchid.Crdt.Convergence
import Orchid.Format.Framing
import Orchid.Lib.ByteText

/-!
# The CRDT wire encoding

A document as the bytes of a Structured region, and back. Lengths are written as `u32` without a
check, and the per-actor counters are not written at all: they come back as those of the log.
-/

namespace Orchid.Crdt

open Lib Format

/-! ### Encoding -/

/-- Magic of CRDT payloads (`ORCT`). -/
def crdtPayloadMagic : Bytes := [0x4f, 0x52, 0x43, 0x54]

def wireVersion : U32 := 1

def encodeOpid (id : OpId) : Bytes := [le 8 id.actor, le 8 id.counter].flatten

def encodeOp : Op → Bytes
  | .insert id lamport after text =>
    [[1], encodeOpid id, le 8 lamport,
      match after with
      | none => [0]
      | some p => 1 :: encodeOpid p,
      le 4 (utf8Bytes text).length, utf8Bytes text].flatten
  | .delete id lamport target => [[2], encodeOpid id, le 8 lamport, encodeOpid target].flatten

/-- The zero after the version is the reserved snapshot watermark. -/
def encodeCrdtPayload (doc : CrdtDocument) : Result Bytes :=
  .ok ([crdtPayloadMagic, le 4 wireVersion, le 8 0, le 4 doc.ops.toList.length].flatten ++
    doc.ops.toList.flatMap encodeOp)

/-! ### Decoding -/

/-- Reads from the front of the bytes that are left. -/
abbrev Reader := Parser U8 FormatError

def decodeOpid : Reader OpId := do
  let bytes ← Parser.take 16 (.regionDecode "CRDT OpId truncated")
  return ⟨u64FromLe (slice bytes 0 8), u64FromLe (slice bytes 8 16)⟩

/-- The parent of an insert, behind its flag. -/
def decodeAfter : Reader (Option OpId) := do
  let flag ← Parser.next (.regionDecode "CRDT after flag truncated")
  if flag = 0 then return none
  else return some (← decodeOpid)

/-- A text behind its length. -/
def decodeText : Reader Text := do
  let len ← Parser.take 4 (.regionDecode "CRDT text len truncated")
  let bytes ← Parser.take (u32FromLe len).val (.regionDecode "CRDT text truncated")
  match utf8Text bytes with
  | some text => return text
  | none => throw (.regionDecode "CRDT text utf8")

def decodeOp : Reader Op := do
  let tag ← Parser.next (.regionDecode "CRDT op truncated")
  let id ← decodeOpid
  let lamport ← Parser.take 8 (.regionDecode "CRDT lamport truncated")
  if tag = 1 then
    let after ← decodeAfter
    let text ← decodeText
    return .insert id (u64FromLe lamport) after text
  else if tag = 2 then
    let target ← decodeOpid
    return .delete id (u64FromLe lamport) target
  else throw (.regionDecode s!"unknown CRDT op tag {tag.val}")

/-- Read operations and apply them one by one. -/
def decodeOps : ℕ → CrdtDocument → Reader CrdtDocument
  | 0, doc => return doc
  | count + 1, doc => do
    let op ← decodeOp
    decodeOps count (doc.applyOp op)

def decodeCrdtPayload (bytes : Bytes) : Result CrdtDocument :=
  if bytes.length < 20 then .error (.regionDecode "CRDT payload too short")
  else if slice bytes 0 4 ≠ crdtPayloadMagic then .error (.regionDecode "CRDT magic mismatch")
  else if u32FromLe (slice bytes 4 8) ≠ wireVersion then
    let version := (u32FromLe (slice bytes 4 8)).val
    .error (.regionDecode s!"unsupported CRDT wire version {version}")
  else
    match decodeOps (u32FromLe (slice bytes 16 20)).val .new (bytes.drop 20) with
    | .error e => .error e
    | .ok (doc, rest) =>
      let leftover := rest.length
      if leftover ≠ 0 then .error (.regionDecode s!"CRDT trailing bytes: {leftover} leftover")
      else .ok doc

/-! ### Reading one operation -/

lemma reads_decodeOpid (id : OpId) : Parser.Reads decodeOpid id (encodeOpid id) := by
  have hlen : (encodeOpid id).length = 16 := rfl
  have h0 : slice (encodeOpid id ++ []) 0 8 = le 8 id.actor := slice_flatten [] 0 rfl rfl rfl
  have h1 : slice (encodeOpid id ++ []) 8 16 = le 8 id.counter := slice_flatten [] 1 rfl rfl rfl
  rw [List.append_nil] at h0 h1
  have h := (Parser.reads_take (e := FormatError.regionDecode "CRDT OpId truncated") hlen).bind_pure
    fun bytes => OpId.mk (u64FromLe (slice bytes 0 8)) (u64FromLe (slice bytes 8 16))
  simp only [h0, h1, u64FromLe_le] at h
  exact h

lemma reads_decodeAfter (after : Option OpId) : Parser.Reads decodeAfter after
    (match after with
      | none => [0]
      | some p => 1 :: encodeOpid p) := by
  cases after with
  | none => exact fun _ => rfl
  | some p =>
    exact (Parser.reads_next 1 _).bind ((reads_decodeOpid p).bind_pure some)

/-- The operation's text is short enough for its length to be written. -/
def Op.Fits : Op → Prop
  | .insert _ _ _ text => String.utf8Len text < 2 ^ 32
  | .delete .. => True

lemma reads_decodeText {text : Text} (h : String.utf8Len text < 2 ^ 32) :
    Parser.Reads decodeText text [le 4 (utf8Bytes text).length, utf8Bytes text].flatten := by
  rw [List.flatten_cons, List.flatten_singleton]
  refine (Parser.reads_take (length_le _ _)).bind ?_
  have hlen : (u32FromLe (le 4 (utf8Bytes text).length)).val = (utf8Bytes text).length := by
    rw [val_u32FromLe_le, length_utf8Bytes, Nat.mod_eq_of_lt h]
  rw [hlen]
  intro rest
  rw [(Parser.reads_take rfl).bind_append]
  simp only [utf8Text_utf8Bytes]
  rfl

lemma reads_decodeOp {op : Op} (h : op.Fits) : Parser.Reads decodeOp op (encodeOp op) := by
  cases op with
  | insert id lamport after text =>
    refine (Parser.reads_next 1 _).bind ((reads_decodeOpid id).bind
      ((Parser.reads_take (length_le _ _)).bind ?_))
    rw [if_pos rfl, u64FromLe_le]
    exact (reads_decodeAfter after).bind ((reads_decodeText h).bind_pure _)
  | delete id lamport target =>
    refine (Parser.reads_next 2 _).bind ((reads_decodeOpid id).bind
      ((Parser.reads_take (length_le _ _)).bind ?_))
    rw [if_neg (by decide), if_pos rfl, u64FromLe_le, List.flatten_singleton]
    exact (reads_decodeOpid target).bind_pure _

/-- A text is read back with the length that was written. -/
lemma utf8Len_of_decodeText {n : ℕ} {text : Text} {rest rest' : Bytes}
    (h : decodeText (le 4 n ++ rest) = .ok (text, rest')) :
    String.utf8Len text = n % 2 ^ 32 := by
  rw [decodeText, (Parser.reads_take (length_le _ _)).bind_append] at h
  obtain ⟨bytes, r, htake, h⟩ := Parser.bind_eq_ok h
  obtain ⟨-, hlen⟩ := Parser.take_eq_ok htake
  cases htext : utf8Text bytes with
  | none =>
    rw [htext] at h
    cases h
  | some t =>
    rw [htext] at h
    obtain ⟨rfl, -⟩ := Prod.mk.inj (Except.ok.inj h)
    rw [← length_utf8Bytes, utf8Bytes_of_utf8Text htext, hlen, val_u32FromLe_le]

/-- An operation whose text is too long comes back under its id with another text. -/
lemma decodeOp_of_long {op op' : Op} {rest rest' : Bytes} (h : ¬ op.Fits)
    (hread : decodeOp (encodeOp op ++ rest) = .ok (op', rest')) : op'.id = op.id ∧ op' ≠ op := by
  cases op with
  | delete id lamport target => exact absurd trivial h
  | insert id lamport after text =>
    simp only [encodeOp, List.flatten_cons, List.append_assoc] at hread
    rw [decodeOp, (Parser.reads_next 1 _).bind_append, (reads_decodeOpid id).bind_append,
      (Parser.reads_take (length_le _ _)).bind_append, if_pos rfl, u64FromLe_le,
      (reads_decodeAfter after).bind_append] at hread
    obtain ⟨text', r, htext, hread⟩ := Parser.bind_eq_ok hread
    obtain ⟨rfl, -⟩ := Prod.mk.inj (Except.ok.inj hread)
    refine ⟨rfl, fun heq => ?_⟩
    obtain ⟨-, -, -, rfl⟩ := Op.insert.inj heq
    have hlen := utf8Len_of_decodeText htext
    rw [length_utf8Bytes] at hlen
    refine h ?_
    show String.utf8Len text' < 2 ^ 32
    rw [hlen]
    exact Nat.mod_lt _ (by decide)

/-! ### Reading the log -/

lemma decodeOps_append (ops : List Op) (hops : ∀ op ∈ ops, op.Fits) (n : ℕ) (doc : CrdtDocument)
    (rest : Bytes) : decodeOps (ops.length + n) doc (ops.flatMap encodeOp ++ rest) =
      decodeOps n (ops.foldl CrdtDocument.applyOp doc) rest := by
  induction ops generalizing doc with
  | nil => rw [List.length_nil, Nat.zero_add]; rfl
  | cons op ops ih =>
    obtain ⟨hop, hops⟩ := List.forall_mem_cons.mp hops
    rw [List.length_cons, Nat.succ_add, List.flatMap_cons, List.append_assoc, decodeOps,
      (reads_decodeOp hop).bind_append]
    exact ih hops _

/-- What is in the log stays there. -/
lemma mem_decodeOps {n : ℕ} {doc doc' : CrdtDocument} {s s' : Bytes} {op : Op}
    (h : decodeOps n doc s = .ok (doc', s')) (hop : op ∈ doc.ops) : op ∈ doc'.ops := by
  induction n generalizing doc s with
  | zero =>
    obtain ⟨rfl, -⟩ := Prod.mk.inj (Except.ok.inj h)
    exact hop
  | succ n ih =>
    obtain ⟨o, r, -, h⟩ := Parser.bind_eq_ok h
    refine ih h ?_
    rw [CrdtDocument.ops_applyOp, KeyedMap.mem_insertNew]
    exact .inl hop

/-- If the log that is read has all operations, then those that were read fitted. -/
lemma fits_of_decodeOps {ops : List Op} {n : ℕ} {doc doc' : CrdtDocument} {rest : Bytes}
    (hn : n ≤ ops.length) (hids : ops.Pairwise fun o o' => o.id ≠ o'.id)
    (hnew : ∀ op ∈ ops, doc.ops.contains op.id = false) (hall : ∀ op ∈ ops, op ∈ doc'.ops)
    (h : decodeOps n doc (ops.flatMap encodeOp) = .ok (doc', rest)) :
    (∀ op ∈ ops.take n, op.Fits) ∧ rest = (ops.drop n).flatMap encodeOp ∧
      doc' = (ops.take n).foldl CrdtDocument.applyOp doc := by
  induction n generalizing ops doc with
  | zero =>
    obtain ⟨rfl, rfl⟩ := Prod.mk.inj (Except.ok.inj h)
    exact ⟨by simp, rfl, rfl⟩
  | succ n ih =>
    cases ops with
    | nil => simp at hn
    | cons op ops =>
      obtain ⟨hop, hids⟩ := List.pairwise_cons.mp hids
      obtain ⟨hfresh, hnew⟩ := List.forall_mem_cons.mp hnew
      obtain ⟨hmem, hall⟩ := List.forall_mem_cons.mp hall
      obtain ⟨o, r, ho, hrest⟩ := Parser.bind_eq_ok h
      rw [List.flatMap_cons] at ho
      by_cases hfits : op.Fits
      · rw [reads_decodeOp hfits] at ho
        obtain ⟨rfl, rfl⟩ := Prod.mk.inj (Except.ok.inj ho)
        have hnew' : ∀ o ∈ ops, (doc.applyOp op).ops.contains o.id = false := by
          intro o' ho'
          rw [Bool.eq_false_iff, ne_eq, KeyedMap.contains_iff, CrdtDocument.ops_applyOp]
          rintro ⟨v, hv, hid⟩
          rcases (KeyedMap.mem_insertNew _ _ _).mp hv with hv | ⟨rfl, -⟩
          · have hold := (KeyedMap.contains_iff _ _).mpr ⟨v, hv, hid⟩
            exact Bool.eq_false_iff.mp (hnew o' ho') hold
          · exact hop o' ho' hid
        obtain ⟨htake, hrest, hdoc⟩ := ih (Nat.le_of_succ_le_succ hn) hids hnew' hall hrest
        exact ⟨List.forall_mem_cons.mpr ⟨hfits, htake⟩, hrest, hdoc⟩
      · obtain ⟨hid, hne⟩ := decodeOp_of_long hfits ho
        have hread : o ∈ doc'.ops := by
          refine mem_decodeOps hrest ?_
          rw [CrdtDocument.ops_applyOp, KeyedMap.mem_insertNew]
          exact .inr ⟨rfl, hid ▸ hfresh⟩
        exact absurd (KeyedMap.eq_of_key_eq hread hmem hid) hne

lemma encodeOp_ne_nil (op : Op) : encodeOp op ≠ [] := by
  cases op <;> exact List.cons_ne_nil _ _

/-! ### Clocks -/

namespace CrdtDocument

/-- The clocks are those of the log: no counter and no stamp was drawn without an operation. -/
structure Tight (d : CrdtDocument) : Prop where
  counter : ∀ a, d.nextCounter a = 0 ∨ ∃ op ∈ d.ops, op.id = ⟨a, d.nextCounter a⟩
  stamp : d.lamport = 0 ∨ ∃ op ∈ d.ops, op.lamport = d.lamport

lemma tight_new : new.Tight := ⟨fun _ => .inl rfl, .inl rfl⟩

lemma Tight.applyOp {d : CrdtDocument} (h : d.Tight) (op : Op) : (d.applyOp op).Tight := by
  have hops := ops_applyOp d op
  unfold CrdtDocument.applyOp at hops ⊢
  split_ifs at hops ⊢ with hc
  · exact h
  · have hmem : ∀ o, o ∈ d.ops.insert op ↔ o = op ∨ o ∈ d.ops :=
      fun o => KeyedMap.mem_insert d.ops op o (by simpa using hc)
    have hkeep {p : Op → Prop} (hold : ∃ o ∈ d.ops, p o) : ∃ o ∈ d.ops.insert op, p o := by
      obtain ⟨o, ho, hp⟩ := hold
      exact ⟨o, (hmem o).mpr (.inr ho), hp⟩
    constructor
    · intro a
      dsimp only
      by_cases ha : a = op.id.actor
      · subst ha
        rw [Function.update_self]
        rcases max_choice (d.nextCounter op.id.actor) op.id.counter with hmax | hmax
        · rw [hmax]
          exact (h.counter _).imp_right hkeep
        · rw [hmax]
          exact .inr ⟨op, (hmem op).mpr (.inl rfl), rfl⟩
      · rw [Function.update_of_ne ha]
        exact (h.counter a).imp_right hkeep
    · show max _ _ = 0 ∨ ∃ o ∈ d.ops.insert op, o.lamport = max _ _
      rcases max_choice d.lamport op.lamport with hmax | hmax
      · rw [hmax]
        exact h.stamp.imp_right hkeep
      · rw [hmax]
        exact .inr ⟨op, (hmem op).mpr (.inl rfl), rfl⟩

lemma Tight.foldl_applyOp {d : CrdtDocument} (h : d.Tight) (ops : List Op) :
    (ops.foldl CrdtDocument.applyOp d).Tight := by
  induction ops generalizing d with
  | nil => exact h
  | cons op ops ih => exact ih (h.applyOp op)

/-- Local edits draw their counter and stamp for an operation. -/
lemma Tight.localEdit {d d' : CrdtDocument} {actor : ActorId} {op : Op} (h : d.Tight)
    (he : LocalEdit d d' actor op) : d'.Tight := by
  have hop : op ∈ d'.ops := (he.mem_iff op).mpr (.inl rfl)
  constructor
  · intro a
    rw [he.nextCounter_eq]
    by_cases ha : a = actor
    · subst ha
      rw [Function.update_self, ← he.actor_eq]
      exact .inr ⟨op, hop, rfl⟩
    · rw [Function.update_of_ne ha]
      exact (h.counter a).imp_right fun ⟨o, ho, hid⟩ => ⟨o, (he.mem_iff o).mpr (.inr ho), hid⟩
  · rw [he.lamport_eq']
    exact .inr ⟨op, hop, rfl⟩

/-- A log determines its clocks. -/
lemma Tight.eq_of_ops_eq {d e : CrdtDocument} (hd : d.Tight) (he : e.Tight) (h : d.ops = e.ops) :
    d = e := by
  have hcounter : ∀ {d e : CrdtDocument}, d.Tight → d.ops = e.ops →
      ∀ a, d.nextCounter a ≤ e.nextCounter a := by
    intro d e hd h a
    rcases hd.counter a with h0 | ⟨op, hop, hid⟩
    · rw [h0]
      exact Fin.zero_le _
    · have hle := e.counter_le op (h ▸ hop)
      rwa [hid] at hle
  have hstamp : ∀ {d e : CrdtDocument}, d.Tight → d.ops = e.ops → d.lamport ≤ e.lamport := by
    intro d e hd h
    rcases hd.stamp with h0 | ⟨op, hop, hl⟩
    · rw [h0]
      exact Fin.zero_le _
    · rw [← hl]
      exact e.lamport_le op (h ▸ hop)
  have hcounters : d.nextCounter = e.nextCounter :=
    funext fun a => le_antisymm (hcounter hd h a) (hcounter he h.symm a)
  have hstamps : d.lamport = e.lamport := le_antisymm (hstamp hd h) (hstamp he h.symm)
  cases d
  cases e
  cases h
  cases hcounters
  cases hstamps
  rfl

/-- Merging a log into an empty document copies it. -/
lemma ops_foldl_new (d : CrdtDocument) : (d.ops.toList.foldl CrdtDocument.applyOp new).ops = d.ops := by
  rw [ops_foldl_applyOp]
  refine KeyedMap.ext_mem fun op => ?_
  have hpool : Set.InjOn Op.id {op | op ∈ d.ops} := fun _ hv _ hw hk => KeyedMap.eq_of_key_eq hv hw hk
  rw [KeyedMap.mem_foldl_insertNew hpool _ _ (fun v hv => ?_) fun v hv => hv]
  · exact or_iff_right (KeyedMap.mem_empty op)
  · exact absurd hv (KeyedMap.mem_empty v)

/-- A document that the wire encoding can carry. -/
structure Fits (d : CrdtDocument) : Prop where
  length : d.ops.toList.length < 2 ^ 32
  texts : ∀ op ∈ d.ops, op.Fits
  tight : d.Tight

end CrdtDocument

/-! ### Round trip -/

/-- The payload that `encodeCrdtPayload` returns. -/
def payload (doc : CrdtDocument) : Bytes :=
  [crdtPayloadMagic, le 4 wireVersion, le 8 0, le 4 doc.ops.toList.length].flatten ++
    doc.ops.toList.flatMap encodeOp

/-- Behind the fixed part of a payload the log is read. -/
lemma decodeCrdtPayload_payload (doc : CrdtDocument) : decodeCrdtPayload (payload doc) =
    match decodeOps (doc.ops.toList.length % 2 ^ 32) .new (doc.ops.toList.flatMap encodeOp) with
    | .error e => .error e
    | .ok (doc', rest) =>
      let leftover := rest.length
      if leftover ≠ 0 then .error (.regionDecode s!"CRDT trailing bytes: {leftover} leftover")
      else .ok doc' := by
  have hlen : ¬ (payload doc).length < 20 := by
    rw [payload, List.length_append]
    exact Nat.not_lt.mpr (Nat.le_add_right 20 _)
  have h0 : slice (payload doc) 0 4 = crdtPayloadMagic := slice_flatten _ 0 rfl rfl rfl
  have h1 : slice (payload doc) 4 8 = le 4 wireVersion := slice_flatten _ 1 rfl rfl rfl
  have h2 : slice (payload doc) 16 20 = le 4 doc.ops.toList.length := slice_flatten _ 3 rfl rfl rfl
  have hdrop : (payload doc).drop 20 = doc.ops.toList.flatMap encodeOp := List.drop_left' rfl
  rw [decodeCrdtPayload, if_neg hlen, h0, if_neg (not_not.mpr rfl), h1, u32FromLe_le,
    if_neg (not_not.mpr rfl), h2, hdrop, val_u32FromLe_le]

/-- A document comes back from its payload exactly if the wire encoding can carry it. -/
lemma decode_payload_iff (doc : CrdtDocument) :
    decodeCrdtPayload (payload doc) = .ok doc ↔ doc.Fits := by
  rw [decodeCrdtPayload_payload]
  constructor
  · intro h
    cases hread : decodeOps (doc.ops.toList.length % 2 ^ 32) .new (doc.ops.toList.flatMap encodeOp) with
    | error e =>
      rw [hread] at h
      cases h
    | ok r =>
      rw [hread] at h
      dsimp only at h
      split_ifs at h with hrest
      obtain rfl := Except.ok.inj h
      have hids : r.1.ops.toList.Pairwise fun o o' => o.id ≠ o'.id :=
        r.1.ops.sorted.imp fun hlt => hlt.ne
      obtain ⟨hfits, hleft, hdoc⟩ := fits_of_decodeOps (Nat.mod_le _ _) hids (fun _ _ => rfl)
        (fun _ ho => ho) hread
      have hdrop : r.1.ops.toList.drop (r.1.ops.toList.length % 2 ^ 32) = [] := by
        by_contra hne
        obtain ⟨op, ops, hcons⟩ := List.exists_cons_of_ne_nil hne
        rw [not_not, List.length_eq_zero_iff, hleft, hcons, List.flatMap_cons,
          List.append_eq_nil_iff] at hrest
        exact encodeOp_ne_nil op hrest.1
      have hlength : r.1.ops.toList.length < 2 ^ 32 :=
        (List.drop_eq_nil_iff.mp hdrop).trans_lt (Nat.mod_lt _ (by decide))
      rw [Nat.mod_eq_of_lt hlength, List.take_length] at hfits hdoc
      refine ⟨hlength, hfits, ?_⟩
      rw [hdoc]
      exact CrdtDocument.tight_new.foldl_applyOp _
  · intro h
    have hread := decodeOps_append doc.ops.toList h.texts 0 .new []
    rw [List.append_nil, Nat.add_zero] at hread
    rw [Nat.mod_eq_of_lt h.length, hread]
    have hdoc : doc.ops.toList.foldl CrdtDocument.applyOp .new = doc :=
      (CrdtDocument.tight_new.foldl_applyOp _).eq_of_ops_eq h.tight doc.ops_foldl_new
    rw [hdoc]
    rfl

/-! ### Documents of the editor -/

/-- Documents that local edits, deliveries and merges lead to. -/
inductive Built : CrdtDocument → Prop
  | new : Built .new
  | localInsert {d d' actor after text id} : Built d → d.localInsert actor after text = some (id, d') →
      Built d'
  | localDelete {d d' actor target id} : Built d → d.localDelete actor target = some (id, d') →
      Built d'
  | applyOp {d} (op : Op) : Built d → Built (d.applyOp op)
  | merge {d e} : Built d → Built e → Built (d.merge e)

lemma Built.tight {d : CrdtDocument} (h : Built d) : d.Tight := by
  induction h with
  | new => exact CrdtDocument.tight_new
  | localInsert _ hins ih =>
    obtain ⟨_, he⟩ := CrdtDocument.localInsert_spec hins
    exact ih.localEdit he
  | localDelete _ hdel ih =>
    obtain ⟨_, he⟩ := CrdtDocument.localDelete_spec hdel
    exact ih.localEdit he
  | applyOp op _ ih => exact ih.applyOp op
  | merge _ _ ih _ => exact ih.foldl_applyOp _

/-- A local operation. -/
inductive LocalOp where
  | insert (actor : ActorId) (after : Option OpId) (text : Text)
  | delete (actor : ActorId) (target : OpId)

def LocalOp.run (d : CrdtDocument) : LocalOp → Option (OpId × CrdtDocument)
  | .insert actor after text => d.localInsert actor after text
  | .delete actor target => d.localDelete actor target

end Orchid.Crdt
