import Orchid.Format.Embedding
import Orchid.Lib.Canonical

/-!
# Accepted embeddings

What the decoder accepts is what the encoder writes for the decoded value, up to the order of the
ends of a span, which only the encoder checks.
-/

namespace Orchid.Format

open Lib
open String (utf8Len)

/-! ### Numbers -/

lemma le_ofLe_mod {w : ℕ} {b : Bytes} (h : b.length = w) : le w (ofLe b % (2 ^ 8) ^ w) = b := by
  have hlt := ofLe_lt b
  rw [h] at hlt
  rw [Nat.mod_eq_of_lt hlt, le_ofLe h]

lemma le_u16FromLe {b : Bytes} (h : b.length = 2) : le 2 (u16FromLe b).val = b := le_ofLe_mod h

lemma le_u32FromLe {b : Bytes} (h : b.length = 4) : le 4 (u32FromLe b).val = b := le_ofLe_mod h

lemma le_u64FromLe {b : Bytes} (h : b.length = 8) : le 8 (u64FromLe b).val = b := le_ofLe_mod h

lemma toU8_of_fromU8 {v : U8} {level : EmbeddingLevel} (h : EmbeddingLevel.fromU8 v = .ok level) :
    level.toU8 = v := by
  rw [EmbeddingLevel.fromU8] at h
  split_ifs at h with h0 h1 h2 <;> obtain rfl := Except.ok.inj h
  · exact h0.symm
  · exact h1.symm
  · exact h2.symm

namespace EmbeddingPayload

/-! ### Accepted bytes -/

lemma consumes_decodeFloat :
    Parser.Consumes decodeFloat (fun f => le 4 f.toNat) fun _ => True := by
  intro s f s' h
  obtain ⟨bits, s₁, hbits, h⟩ := Parser.bind_eq_ok h
  obtain ⟨rfl, rfl⟩ := Parser.pure_eq_ok h
  obtain ⟨rfl, hlen⟩ := Parser.take_eq_ok hbits
  refine ⟨?_, trivial⟩
  show bits ++ s₁ = le 4 (BitVec.ofNat 32 (ofLe bits)).toNat ++ s₁
  rw [BitVec.toNat_ofNat, show 2 ^ 32 = (2 ^ 8) ^ 4 from rfl, le_ofLe_mod hlen]

lemma consumes_decodeRecord (dims : U16) :
    Parser.Consumes (decodeRecord dims) EmbeddingRecord.bytes
      fun r => r.vector.length = dims.val := by
  intro s r s' h
  obtain ⟨tag, s₁, htag, h⟩ := Parser.bind_eq_ok h
  obtain ⟨level, s₂, hlevel, h⟩ := Parser.bind_eq_ok h
  obtain ⟨start, s₃, hstart, h⟩ := Parser.bind_eq_ok h
  obtain ⟨stop, s₄, hstop, h⟩ := Parser.bind_eq_ok h
  obtain ⟨tokens, s₅, htokens, h⟩ := Parser.bind_eq_ok h
  obtain ⟨vector, s₆, hvector, h⟩ := Parser.bind_eq_ok h
  obtain ⟨rfl, rfl⟩ := Parser.pure_eq_ok h
  obtain ⟨rfl, htaglen⟩ := Parser.take_eq_ok htag
  obtain ⟨hlevelof, rfl⟩ := Parser.lift_eq_ok hlevel
  obtain ⟨rfl, hstartlen⟩ := Parser.take_eq_ok hstart
  obtain ⟨rfl, hstoplen⟩ := Parser.take_eq_ok hstop
  obtain ⟨rfl, htokenslen⟩ := Parser.take_eq_ok htokens
  obtain ⟨rfl, hlen, -⟩ := consumes_decodeFloat.many dims.val _ _ _ hvector
  obtain ⟨v, rfl⟩ := List.length_eq_one_iff.mp htaglen
  refine ⟨?_, hlen⟩
  rw [EmbeddingRecord.bytes, toU8_of_fromU8 hlevelof, le_u64FromLe hstartlen,
    le_u64FromLe hstoplen, le_u32FromLe htokenslen]
  simp

/-- What the decoder accepts is an encoding, without the checks of the encoder. -/
lemma decodePayload_eq_ok {s s' : Bytes} {p : EmbeddingPayload}
    (h : decodePayload s = .ok (p, s')) :
    s = p.bytes ++ s' ∧ p.dims ≠ 0 ∧ (utf8Bytes p.modelId).length < 2 ^ 16 ∧
      p.records.length < 2 ^ 32 ∧ ∀ r ∈ p.records, r.vector.length = p.dims.val := by
  obtain ⟨magic, s₁, hmagic, h⟩ := Parser.bind_eq_ok h
  obtain ⟨⟨⟩, s₂, hmagic', h⟩ := Parser.bind_eq_ok h
  obtain ⟨ver, s₃, hver, h⟩ := Parser.bind_eq_ok h
  obtain ⟨⟨⟩, s₄, hver', h⟩ := Parser.bind_eq_ok h
  obtain ⟨midLen, s₅, hmid, h⟩ := Parser.bind_eq_ok h
  obtain ⟨model, s₆, hmodel, h⟩ := Parser.bind_eq_ok h
  obtain ⟨modelId, s₇, hid, h⟩ := Parser.bind_eq_ok h
  obtain ⟨dims, s₈, hdims, h⟩ := Parser.bind_eq_ok h
  obtain ⟨⟨⟩, s₉, hdims', h⟩ := Parser.bind_eq_ok h
  obtain ⟨nrec, s₁₀, hnrec, h⟩ := Parser.bind_eq_ok h
  obtain ⟨records, s₁₁, hrecords, h⟩ := Parser.bind_eq_ok h
  obtain ⟨rfl, rfl⟩ := Parser.pure_eq_ok h
  obtain ⟨rfl, -⟩ := Parser.take_eq_ok hmagic
  obtain ⟨rfl, rfl⟩ := Parser.ensure_eq_ok hmagic'
  obtain ⟨rfl, hverlen⟩ := Parser.take_eq_ok hver
  obtain ⟨hverof, rfl⟩ := Parser.ensure_eq_ok hver'
  obtain ⟨rfl, hmidlen⟩ := Parser.take_eq_ok hmid
  obtain ⟨rfl, hmodellen⟩ := Parser.take_eq_ok hmodel
  obtain ⟨hidof, rfl⟩ := Parser.expect_eq_ok hid
  obtain ⟨rfl, hdimslen⟩ := Parser.take_eq_ok hdims
  obtain ⟨hdimsof, rfl⟩ := Parser.ensure_eq_ok hdims'
  obtain ⟨rfl, hnreclen⟩ := Parser.take_eq_ok hnrec
  obtain ⟨rfl, hcount, hvectors⟩ := (consumes_decodeRecord _).many _ _ _ _ hrecords
  have hmodelof : utf8Bytes modelId = model := utf8Bytes_of_utf8Text hidof
  refine ⟨?_, hdimsof, ?_, ?_, hvectors⟩
  · dsimp only [bytes]
    rw [hmodelof, hmodellen, hcount, le_u16FromLe hmidlen, le_u16FromLe hdimslen,
      le_u32FromLe hnreclen, ← hverof, le_u16FromLe hverlen]
    simp
  · show (utf8Bytes modelId).length < 2 ^ 16
    rw [hmodelof, hmodellen]
    exact Fin.isLt _
  · show records.length < 2 ^ 32
    rw [hcount]
    exact Fin.isLt _

lemma decode_eq_ok {s : Bytes} {p : EmbeddingPayload} (h : decode s = .ok p) :
    s = p.bytes ∧ p.dims ≠ 0 ∧ (utf8Bytes p.modelId).length < 2 ^ 16 ∧
      p.records.length < 2 ^ 32 ∧ ∀ r ∈ p.records, r.vector.length = p.dims.val := by
  rw [decode] at h
  cases hread : decodePayload s with
  | error e =>
    rw [hread] at h
    cases h
  | ok r =>
    rw [hread] at h
    obtain ⟨q, rest⟩ := r
    have h : (if rest.length ≠ 0 then _ else _) = _ := h
    split_ifs at h with hrest
    · cases h
    · obtain rfl := List.length_eq_zero_iff.mp (not_not.mp hrest)
      obtain rfl := Except.ok.inj h
      have hall := decodePayload_eq_ok hread
      rwa [List.append_nil] at hall

/-! ### Spans in the bytes -/

/-- Length of the model id, as the bytes give it. -/
def modelLen (bytes : Bytes) : ℕ := (u16FromLe (slice bytes 6 8)).val

/-- Dimension of the vectors, as the bytes give it. -/
def vectorLen (bytes : Bytes) : ℕ :=
  (u16FromLe (slice bytes (8 + modelLen bytes) (10 + modelLen bytes))).val

/-- Number of records, as the bytes give it. -/
def recordCount (bytes : Bytes) : ℕ :=
  (u32FromLe (slice bytes (10 + modelLen bytes) (14 + modelLen bytes))).val

/-- The bytes from the `k`-th record on. -/
def recordAt (bytes : Bytes) (k : ℕ) : Bytes :=
  bytes.drop (14 + modelLen bytes + k * (21 + 4 * vectorLen bytes))

/-- No span in the bytes ends before it starts. -/
def SpansOrdered (bytes : Bytes) : Prop :=
  ∀ k < recordCount bytes,
    u64FromLe (slice (recordAt bytes k) 1 9) ≤ u64FromLe (slice (recordAt bytes k) 9 17)

section Bytes

variable {p : EmbeddingPayload}

lemma modelLen_bytes (hmodel : (utf8Bytes p.modelId).length < 2 ^ 16) :
    modelLen p.bytes = (utf8Bytes p.modelId).length := by
  have hslice : slice p.bytes 6 8 = le 2 (utf8Bytes p.modelId).length :=
    slice_flatten _ 2 rfl rfl rfl
  rw [modelLen, hslice]
  exact congrArg Fin.val (u16FromLe_le ⟨_, hmodel⟩)

lemma vectorLen_bytes (hmodel : (utf8Bytes p.modelId).length < 2 ^ 16) :
    vectorLen p.bytes = p.dims.val := by
  have hslice : slice p.bytes (8 + (utf8Bytes p.modelId).length)
      (10 + (utf8Bytes p.modelId).length) = le 2 p.dims := by
    refine slice_flatten _ 4 rfl ?_ ?_
    · simp [embeddingMagic]
      omega
    · rw [length_le]
      omega
  rw [vectorLen, modelLen_bytes hmodel, hslice, u16FromLe_le]

lemma recordCount_bytes (hmodel : (utf8Bytes p.modelId).length < 2 ^ 16)
    (hcount : p.records.length < 2 ^ 32) : recordCount p.bytes = p.records.length := by
  have hslice : slice p.bytes (10 + (utf8Bytes p.modelId).length)
      (14 + (utf8Bytes p.modelId).length) = le 4 p.records.length := by
    refine slice_flatten _ 5 rfl ?_ ?_
    · simp [embeddingMagic]
      omega
    · rw [length_le]
      omega
  rw [recordCount, modelLen_bytes hmodel, hslice, val_u32FromLe_le, Nat.mod_eq_of_lt hcount]

lemma length_bytes {r : EmbeddingRecord} {n : ℕ} (h : r.vector.length = n) :
    r.bytes.length = 21 + 4 * n := by
  have hfloats : (r.vector.flatMap fun f => le 4 f.toNat).length = 4 * n := by
    simp only [List.length_flatMap, length_le, List.map_const', List.sum_replicate_nat, h]
    exact Nat.mul_comm n 4
  simp only [EmbeddingRecord.bytes, List.flatten_cons, List.flatten_nil, List.length_append,
    List.length_cons, List.length_nil, length_le, hfloats]
  omega

/-- Records of one length are found by their number. -/
lemma drop_flatMap_bytes {rs : List EmbeddingRecord} {n : ℕ}
    (h : ∀ r ∈ rs, r.vector.length = n) (k : ℕ) :
    (rs.flatMap EmbeddingRecord.bytes).drop (k * (21 + 4 * n)) =
      (rs.drop k).flatMap EmbeddingRecord.bytes := by
  induction k generalizing rs with
  | zero => simp
  | succ k ih =>
    cases rs with
    | nil => simp
    | cons r rs =>
      obtain ⟨hr, hrs⟩ := List.forall_mem_cons.mp h
      have hlen : (k + 1) * (21 + 4 * n) = r.bytes.length + k * (21 + 4 * n) := by
        rw [length_bytes hr, Nat.succ_mul, Nat.add_comm]
      rw [List.flatMap_cons, hlen, ← List.drop_drop, List.drop_left, ih hrs, List.drop_succ_cons]

lemma recordAt_bytes (hmodel : (utf8Bytes p.modelId).length < 2 ^ 16)
    (hvectors : ∀ r ∈ p.records, r.vector.length = p.dims.val) (k : ℕ) :
    recordAt p.bytes k = (p.records.drop k).flatMap EmbeddingRecord.bytes := by
  have hfront : [embeddingMagic, le 2 embeddingWireVersion, le 2 (utf8Bytes p.modelId).length,
      utf8Bytes p.modelId, le 2 p.dims, le 4 p.records.length].flatten.length =
      14 + (utf8Bytes p.modelId).length := by
    simp [embeddingMagic]
    omega
  rw [recordAt, modelLen_bytes hmodel, vectorLen_bytes hmodel, bytes, ← List.drop_drop,
    ← hfront, List.drop_left, drop_flatMap_bytes hvectors]

/-- The condition on the bytes is that of the encoder on the payload. -/
lemma spansOrdered_bytes (hmodel : (utf8Bytes p.modelId).length < 2 ^ 16)
    (hcount : p.records.length < 2 ^ 32)
    (hvectors : ∀ r ∈ p.records, r.vector.length = p.dims.val) :
    SpansOrdered p.bytes ↔ ∀ r ∈ p.records, r.spanStart ≤ r.spanEnd := by
  have hrecord : ∀ k (hk : k < p.records.length),
      u64FromLe (slice (recordAt p.bytes k) 1 9) = p.records[k].spanStart ∧
        u64FromLe (slice (recordAt p.bytes k) 9 17) = p.records[k].spanEnd := by
    intro k hk
    have hstart : slice (recordAt p.bytes k) 1 9 = le 8 p.records[k].spanStart := by
      rw [recordAt_bytes hmodel hvectors, List.drop_eq_getElem_cons hk, List.flatMap_cons]
      exact slice_flatten _ 1 rfl rfl rfl
    have hend : slice (recordAt p.bytes k) 9 17 = le 8 p.records[k].spanEnd := by
      rw [recordAt_bytes hmodel hvectors, List.drop_eq_getElem_cons hk, List.flatMap_cons]
      exact slice_flatten _ 2 rfl rfl rfl
    rw [hstart, hend, u64FromLe_le, u64FromLe_le]
    exact ⟨rfl, rfl⟩
  rw [SpansOrdered, recordCount_bytes hmodel hcount]
  constructor
  · intro h r hr
    obtain ⟨k, hk, rfl⟩ := List.mem_iff_getElem.mp hr
    have hle := h k hk
    rwa [(hrecord k hk).1, (hrecord k hk).2] at hle
  · intro h k hk
    rw [(hrecord k hk).1, (hrecord k hk).2]
    exact h _ (List.getElem_mem hk)

end Bytes

/-! ### Both round trips -/

/-- The payload is encoded, and decoded to itself. -/
def ComesBack (p : EmbeddingPayload) : Prop := ∃ b, p.encode = .ok b ∧ decode b = .ok p

/-- `p` is encoded to the bytes it was read from, and its spans are in order. -/
structure WrittenAs (p : EmbeddingPayload) (bytes : Bytes) : Prop where
  encode_eq : p.encode = .ok bytes
  spans : ∀ r ∈ p.records, r.spanStart ≤ r.spanEnd

/-- What the encoder and the width of the record count ask for. -/
structure Writable (p : EmbeddingPayload) : Prop where
  dims : p.dims ≠ 0
  model : utf8Len p.modelId < 2 ^ 16
  spans : ∀ r ∈ p.records, r.spanStart ≤ r.spanEnd
  count : p.records.length < 2 ^ 32

lemma comesBack_iff {p : EmbeddingPayload}
    (hvectors : ∀ r ∈ p.records, r.vector.length = p.dims.val) : p.ComesBack ↔ p.Writable := by
  constructor
  · rintro ⟨b, hb, hp⟩
    obtain ⟨henc, rfl⟩ := encode_eq_ok.mp hb
    exact ⟨henc.dims, length_utf8Bytes p.modelId ▸ henc.model, henc.spans,
      (decode_bytes_iff henc).mp hp⟩
  · intro h
    have henc : p.Encodable :=
      ⟨h.dims, (length_utf8Bytes p.modelId).symm ▸ h.model, hvectors, h.spans⟩
    exact ⟨p.bytes, encode_eq_ok.mpr ⟨henc, rfl⟩, (decode_bytes_iff henc).mpr h.count⟩

lemma writtenAs_iff {p : EmbeddingPayload} {bytes : Bytes} (h : decode bytes = .ok p) :
    p.WrittenAs bytes ↔ SpansOrdered bytes := by
  obtain ⟨rfl, hdims, hmodel, hcount, hvectors⟩ := decode_eq_ok h
  rw [spansOrdered_bytes hmodel hcount hvectors]
  exact ⟨WrittenAs.spans, fun hspans =>
    ⟨encode_eq_ok.mpr ⟨⟨hdims, hmodel, hvectors, hspans⟩, rfl⟩, hspans⟩⟩

/-- The round trip from a payload holds within the limits of the encoder and the record count, the
one from accepted bytes if no span in them ends before it starts. -/
theorem embedding_round_trips_iff {p q : EmbeddingPayload} {bytes : Bytes}
    (hvectors : ∀ r ∈ p.records, r.vector.length = p.dims.val) (hbytes : decode bytes = .ok q) :
    (p.ComesBack ↔ p.Writable) ∧ (q.WrittenAs bytes ↔ SpansOrdered bytes) :=
  ⟨comesBack_iff hvectors, writtenAs_iff hbytes⟩

/-- One record with the given span. -/
def oneSpan (spanStart spanEnd : U64) : EmbeddingPayload :=
  ⟨['m'], 1, [⟨.document, spanStart, spanEnd, 1, [0]⟩]⟩

lemma vectors_oneSpan {spanStart spanEnd : U64} : ∀ r ∈ (oneSpan spanStart spanEnd).records,
    r.vector.length = (oneSpan spanStart spanEnd).dims.val := by
  intro r hr
  cases List.mem_singleton.mp hr
  rfl

/-- The decoder accepts the bytes of one record, whatever its span. -/
lemma decode_oneSpan (spanStart spanEnd : U64) :
    decode (oneSpan spanStart spanEnd).bytes = .ok (oneSpan spanStart spanEnd) := by
  have hmodel : (utf8Bytes (oneSpan spanStart spanEnd).modelId).length < 2 ^ 16 := by
    rw [length_utf8Bytes]
    show utf8Len ['m'] < 2 ^ 16
    decide
  rw [decode, decodePayload_bytes (show (1 : U16) ≠ 0 by decide) hmodel vectors_oneSpan]
  rfl

theorem embedding_round_trips_oneSpan :
    (oneSpan 1 2).ComesBack ∧ (oneSpan 1 2).WrittenAs (oneSpan 1 2).bytes := by
  have hspans : ∀ r ∈ (oneSpan 1 2).records, r.spanStart ≤ r.spanEnd := by decide
  have hiff := embedding_round_trips_iff (@vectors_oneSpan 1 2) (decode_oneSpan 1 2)
  refine ⟨hiff.1.mpr ⟨by decide, by decide, hspans, by decide⟩, hiff.2.mpr ?_⟩
  exact (spansOrdered_bytes (by rw [length_utf8Bytes]; decide) (by decide) vectors_oneSpan).mpr
    hspans

/-- The decoder accepts a span that ends before it starts. -/
theorem not_embedding_round_trips : ¬ ((∀ p : EmbeddingPayload,
    (∀ r ∈ p.records, r.vector.length = p.dims.val) → p.ComesBack) ∧
      ∀ bytes q, decode bytes = .ok q → q.WrittenAs bytes) := by
  rintro ⟨-, h⟩
  have hspan := (h _ _ (decode_oneSpan 1 0)).spans _ List.mem_cons_self
  revert hspan
  decide

end EmbeddingPayload

end Orchid.Format
