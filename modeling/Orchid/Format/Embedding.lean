import Orchid.Format.Framing
import Orchid.Lib.ByteText

/-!
# Embedding region

Hierarchical vectors with their spans, as bytes and back.
-/

namespace Orchid.Format

open Lib

/-- Embedding payload magic (`OREM`). -/
def embeddingMagic : Bytes := [0x4f, 0x52, 0x45, 0x4d]

def embeddingWireVersion : U16 := 1

/-- Content type of the Embedding region. -/
def embeddingHierF32V1 : String := "orchid.embedding.hier.f32.v1"

/-- Granularity of a record. -/
inductive EmbeddingLevel where
  | document
  | «section»
  | paragraph
deriving DecidableEq

namespace EmbeddingLevel

/-- `level as u8` -/
def toU8 : EmbeddingLevel → U8
  | document => 0
  | «section» => 1
  | paragraph => 2

def fromU8 (v : U8) : Result EmbeddingLevel :=
  if v = 0 then .ok document
  else if v = 1 then .ok «section»
  else if v = 2 then .ok paragraph
  else .error (.regionDecode s!"unknown embedding level {v.val}")

end EmbeddingLevel

/-- A vector with its span of the Clean-Text. -/
structure EmbeddingRecord where
  level : EmbeddingLevel
  spanStart : U64
  spanEnd : U64
  tokenCount : U32
  vector : List F32
deriving DecidableEq

/-- Body of the Embedding region. -/
structure EmbeddingPayload where
  modelId : Text
  dims : U16
  records : List EmbeddingRecord
deriving DecidableEq

/-! ### Encoding -/

namespace EmbeddingRecord

def bytes (r : EmbeddingRecord) : Bytes :=
  [[r.level.toU8], le 8 r.spanStart, le 8 r.spanEnd, le 4 r.tokenCount,
    r.vector.flatMap fun f => le 4 f.toNat].flatten

def encode (dims : U16) (r : EmbeddingRecord) : Result Bytes :=
  if r.vector.length ≠ dims.val then
    let len := r.vector.length
    .error (.regionDecode s!"vector len {len} != dims {dims.val}")
  else if r.spanEnd < r.spanStart then
    .error (.regionDecode "embedding span_end < span_start")
  else .ok r.bytes

end EmbeddingRecord

def EmbeddingPayload.encode (p : EmbeddingPayload) : Result Bytes := do
  if p.dims = 0 then throw (.regionDecode "embedding dims must be > 0")
  let modelBytes := utf8Bytes p.modelId
  if modelBytes.length > 2 ^ 16 - 1 then throw (.regionDecode "model_id too long")
  let records ← p.records.mapM (EmbeddingRecord.encode p.dims)
  return [embeddingMagic, le 2 embeddingWireVersion, le 2 modelBytes.length, modelBytes,
    le 2 p.dims, le 4 p.records.length].flatten ++ records.flatten

/-! ### Decoding -/

namespace EmbeddingPayload

/-- `take(&mut cur, n)` -/
def take (n : ℕ) : Parser U8 FormatError Bytes :=
  Parser.take n (.regionDecode "truncated embedding payload")

def decodeFloat : Parser U8 FormatError F32 := do
  let bits ← take 4
  return BitVec.ofNat 32 (ofLe bits)

def decodeRecord (dims : U16) : Parser U8 FormatError EmbeddingRecord := do
  let level ← take 1
  let level ← EmbeddingLevel.fromU8 (level.getD 0 0)
  let spanStart ← take 8
  let spanEnd ← take 8
  let tokenCount ← take 4
  let vector ← Parser.many decodeFloat dims.val
  return ⟨level, u64FromLe spanStart, u64FromLe spanEnd, u32FromLe tokenCount, vector⟩

def decodePayload : Parser U8 FormatError EmbeddingPayload := do
  let magic ← take 4
  let shown := magic.map Fin.val
  Parser.ensure (magic = embeddingMagic) (.regionDecode s!"bad embedding magic {shown}")
  let ver ← take 2
  let ver := u16FromLe ver
  Parser.ensure (ver = embeddingWireVersion)
    (.regionDecode s!"unsupported embedding wire version {ver.val}")
  let midLen ← take 2
  let modelId ← take (u16FromLe midLen).val
  let modelId ← Parser.expect (utf8Text modelId) (.regionDecode "model_id utf8")
  let dims ← take 2
  let dims := u16FromLe dims
  Parser.ensure (dims ≠ 0) (.regionDecode "embedding dims must be > 0")
  let nrec ← take 4
  let records ← Parser.many (decodeRecord dims) (u32FromLe nrec).val
  return ⟨modelId, dims, records⟩

def decode (bytes : Bytes) : Result EmbeddingPayload := do
  let (p, rest) ← decodePayload bytes
  let left := rest.length
  if left ≠ 0 then throw (.regionDecode s!"trailing {left} bytes in embedding payload")
  return p

end EmbeddingPayload

/-! ### Round trip -/

namespace EmbeddingPayload

lemma reads_take {n : ℕ} {a : Bytes} (h : a.length = n) : Parser.Reads (take n) a a :=
  Parser.reads_take h

lemma reads_decodeFloat (f : F32) : Parser.Reads decodeFloat f (le 4 f.toNat) := by
  have h := (reads_take (length_le 4 f.toNat)).bind_pure fun bits => BitVec.ofNat 32 (ofLe bits)
  rw [ofLe_le_of_lt f.isLt, BitVec.ofNat_toNat, BitVec.setWidth_eq] at h
  exact h

lemma reads_decodeRecord {dims : U16} {r : EmbeddingRecord} (h : r.vector.length = dims.val) :
    Parser.Reads (decodeRecord dims) r r.bytes := by
  have hlevel : EmbeddingLevel.fromU8 r.level.toU8 = .ok r.level := by cases r.level <;> rfl
  refine (reads_take (a := [r.level.toU8]) rfl).bind ?_
  rw [List.getD_cons_zero, hlevel]
  refine (Parser.reads_lift r.level).bind ?_
  refine (reads_take (length_le _ _)).bind ((reads_take (length_le _ _)).bind
    ((reads_take (length_le _ _)).bind ?_))
  rw [u64FromLe_le, u64FromLe_le, u32FromLe_le, ← h, List.flatten_singleton]
  exact (Parser.Reads.many fun f _ => reads_decodeFloat f).bind_pure _

/-- The encoded payload, without its checks. -/
def bytes (p : EmbeddingPayload) : Bytes :=
  [embeddingMagic, le 2 embeddingWireVersion, le 2 (utf8Bytes p.modelId).length,
    utf8Bytes p.modelId, le 2 p.dims, le 4 p.records.length].flatten ++
    p.records.flatMap EmbeddingRecord.bytes

/-- The records that are counted modulo `2 ^ 32` are read, the others are left. -/
lemma decodePayload_bytes {p : EmbeddingPayload} (hdims : p.dims ≠ 0)
    (hmodel : (utf8Bytes p.modelId).length < 2 ^ 16)
    (hvectors : ∀ r ∈ p.records, r.vector.length = p.dims.val) :
    decodePayload p.bytes =
      .ok ({ p with records := p.records.take (p.records.length % 2 ^ 32) },
        (p.records.drop (p.records.length % 2 ^ 32)).flatMap EmbeddingRecord.bytes) := by
  have hmid : (u16FromLe (le 2 (utf8Bytes p.modelId).length)).val = (utf8Bytes p.modelId).length :=
    congrArg Fin.val (u16FromLe_le ⟨_, hmodel⟩)
  have hrecords : p.records.flatMap EmbeddingRecord.bytes =
      (p.records.take (p.records.length % 2 ^ 32)).flatMap EmbeddingRecord.bytes ++
        (p.records.drop (p.records.length % 2 ^ 32)).flatMap EmbeddingRecord.bytes := by
    rw [← List.flatMap_append, List.take_append_drop]
  have hcount : (p.records.take (p.records.length % 2 ^ 32)).length = p.records.length % 2 ^ 32 :=
    List.length_take_of_le (Nat.mod_le _ _)
  have hfront : ∀ r ∈ p.records.take (p.records.length % 2 ^ 32), r.vector.length = p.dims.val :=
    fun r hr => hvectors r (List.mem_of_mem_take hr)
  rw [bytes, hrecords, ← List.append_assoc]
  generalize p.records.take (p.records.length % 2 ^ 32) = front at hcount hfront
  refine (?_ : Parser.Reads decodePayload _ _) _
  simp only [List.flatten_cons, List.flatten_nil, List.append_nil, List.append_assoc]
  refine (reads_take (a := embeddingMagic) rfl).bind ((Parser.reads_ensure rfl _).bind
    ((reads_take (length_le _ _)).bind ?_))
  rw [u16FromLe_le]
  refine (Parser.reads_ensure rfl _).bind ((reads_take (length_le _ _)).bind ?_)
  rw [hmid]
  refine (reads_take rfl).bind ?_
  rw [utf8Text_utf8Bytes]
  refine (Parser.reads_expect _ _).bind ((reads_take (length_le _ _)).bind ?_)
  rw [u16FromLe_le]
  refine (Parser.reads_ensure hdims _).bind ((reads_take (length_le _ _)).bind ?_)
  rw [val_u32FromLe_le, ← hcount]
  exact (Parser.Reads.many fun r hr => reads_decodeRecord (hfront r hr)).bind_pure _

lemma bytes_ne_nil (r : EmbeddingRecord) : r.bytes ≠ [] := List.cons_ne_nil _ _

/-- What the checks of the encoder ask for. -/
structure Encodable (p : EmbeddingPayload) : Prop where
  dims : p.dims ≠ 0
  model : (utf8Bytes p.modelId).length < 2 ^ 16
  vectors : ∀ r ∈ p.records, r.vector.length = p.dims.val
  spans : ∀ r ∈ p.records, r.spanStart ≤ r.spanEnd

lemma encode_record_eq_ok {dims : U16} {r : EmbeddingRecord} {b : Bytes} :
    r.encode dims = .ok b ↔ r.vector.length = dims.val ∧ r.spanStart ≤ r.spanEnd ∧ r.bytes = b := by
  rw [EmbeddingRecord.encode]
  split_ifs with hlen hspan
  · simp [hlen]
  · simp [hspan]
  · simp only [Except.ok.injEq]
    exact ⟨fun h => ⟨not_not.mp hlen, Fin.not_lt.mp hspan, h⟩, fun h => h.2.2⟩

lemma mapM_encode_eq_ok {dims : U16} {records : List EmbeddingRecord} {bs : List Bytes} :
    records.mapM (EmbeddingRecord.encode dims) = (.ok bs : Result (List Bytes)) ↔
      (∀ r ∈ records, r.vector.length = dims.val ∧ r.spanStart ≤ r.spanEnd) ∧
        records.map EmbeddingRecord.bytes = bs := by
  induction records generalizing bs with
  | nil => simp [pure, Except.pure]
  | cons r records ih =>
    rw [List.mapM_cons, List.forall_mem_cons, List.map_cons]
    constructor
    · intro h
      cases hr : r.encode dims with
      | error e => simp [hr, bind, Except.bind] at h
      | ok b =>
        cases hrs : records.mapM (EmbeddingRecord.encode dims) with
        | error e => simp [hr, hrs, bind, Except.bind] at h
        | ok bs' =>
          simp only [hr, hrs, bind, Except.bind, pure, Except.pure, Except.ok.injEq] at h
          obtain ⟨hlen, hspan, rfl⟩ := encode_record_eq_ok.mp hr
          obtain ⟨hall, rfl⟩ := ih.mp hrs
          exact ⟨⟨⟨hlen, hspan⟩, hall⟩, h⟩
    · rintro ⟨⟨⟨hlen, hspan⟩, hall⟩, rfl⟩
      rw [encode_record_eq_ok.mpr ⟨hlen, hspan, rfl⟩]
      show (records.mapM (EmbeddingRecord.encode dims) >>= _) = _
      rw [ih.mpr ⟨hall, rfl⟩]
      rfl

/-- The encoder writes the payload if its checks hold. -/
lemma encode_eq_ok {p : EmbeddingPayload} {b : Bytes} :
    p.encode = .ok b ↔ p.Encodable ∧ p.bytes = b := by
  rw [EmbeddingPayload.encode]
  by_cases hdims : p.dims = 0
  · simp only [hdims, if_true]
    constructor
    · intro h
      cases h
    · exact fun h => absurd hdims h.1.dims
  · by_cases hmodel : (utf8Bytes p.modelId).length > 2 ^ 16 - 1
    · simp only [hdims, hmodel, if_true, if_false]
      constructor
      · intro h
        cases h
      · exact fun h => absurd h.1.model (by omega)
    · simp only [hdims, hmodel, if_false]
      have hbytes : p.records.flatMap EmbeddingRecord.bytes =
          (p.records.map EmbeddingRecord.bytes).flatten := List.flatMap_def
      rw [bytes, hbytes]
      constructor
      · intro h
        cases hrs : p.records.mapM (EmbeddingRecord.encode p.dims) with
        | error e => simp [hrs, bind, Except.bind] at h
        | ok bs =>
          rw [hrs] at h
          obtain ⟨hall, rfl⟩ := mapM_encode_eq_ok.mp hrs
          exact ⟨⟨hdims, by omega, fun r hr => (hall r hr).1, fun r hr => (hall r hr).2⟩,
            Except.ok.inj h⟩
      · rintro ⟨h, rfl⟩
        rw [mapM_encode_eq_ok.mpr ⟨fun r hr => ⟨h.vectors r hr, h.spans r hr⟩, rfl⟩]
        rfl

/-- A payload comes back exactly if its records can be counted. -/
lemma decode_bytes_iff {p : EmbeddingPayload} (h : p.Encodable) :
    decode p.bytes = .ok p ↔ p.records.length < 2 ^ 32 := by
  rw [decode, decodePayload_bytes h.dims h.model h.vectors]
  show (if _ then _ else _) = _ ↔ _
  split_ifs with hrest
  · refine iff_of_false (fun h => ?_) fun hcount => hrest ?_
    · cases h
    · rw [Nat.mod_eq_of_lt hcount, List.drop_length]
      rfl
  · have hdrop : p.records.drop (p.records.length % 2 ^ 32) = [] := by
      by_contra hne
      obtain ⟨r, rs, hcons⟩ := List.exists_cons_of_ne_nil hne
      rw [not_not, List.length_eq_zero_iff, hcons, List.flatMap_cons,
        List.append_eq_nil_iff] at hrest
      exact bytes_ne_nil r hrest.1
    have hcount : p.records.length < 2 ^ 32 :=
      (List.drop_eq_nil_iff.mp hdrop).trans_lt (Nat.mod_lt _ (by decide))
    rw [Nat.mod_eq_of_lt hcount, List.take_length]
    exact iff_of_true rfl hcount

end EmbeddingPayload

end Orchid.Format
