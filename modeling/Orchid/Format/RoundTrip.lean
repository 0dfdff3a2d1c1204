import Orchid.Format.Sealed

/-!
# Container round trip

A sealed file opens, and what was put into it comes back, if the CRDT document and the embeddings
fit their own encodings: these count operations, texts and records in 32 bits without a check.
-/

namespace Orchid.Format

open Lib Crdt

variable {Identity Seed : Type} {x : Externals Identity Seed}

/-! ### Reading what a file holds -/

namespace SealedFile

variable {f : SealedFile} {row : TocRegionSpec} {rows : List TocRegionSpec} {w : RegionWrite}
  {writes : List RegionWrite} {type : RegionType}

lemma Holds.findRegion (h : f.Holds x rows writes)
    (hw : writes.find? (·.fbType = type) = some w) :
    ∃ row, f.findRegion x type = .ok row.table ∧ Placed f.mmap row w := by
  obtain ⟨toc, htoc, hregions⟩ := h.toc_eq
  rcases find?_rows h.placed type with ⟨hnone, -⟩ | ⟨row, w', hw', hrow, hplaced⟩
  · rw [hw] at hnone
    cases hnone
  · obtain rfl : w' = w := Option.some.inj (hw'.symm.trans hw)
    refine ⟨row, ?_, hplaced⟩
    rw [SealedFile.findRegion, htoc]
    dsimp only [bind, Except.bind]
    rw [hregions]
    dsimp only
    rw [hrow]

lemma Holds.findRegion_none (h : f.Holds x rows writes)
    (hw : writes.find? (·.fbType = type) = none) :
    f.findRegion x type = .error (.regionNotFound type) := by
  obtain ⟨toc, htoc, hregions⟩ := h.toc_eq
  rcases find?_rows h.placed type with ⟨-, hrow⟩ | ⟨row, w', hw', -⟩
  · rw [SealedFile.findRegion, htoc]
    dsimp only [bind, Except.bind]
    rw [hregions]
    dsimp only
    rw [hrow]
  · rw [hw] at hw'
    cases hw'

/-- The stored bytes of a placed region are its payload. -/
lemma regionStoredBytes_placed (h : Placed f.mmap row w) (hshort : f.mmap.length < 2 ^ 63)
    (hinline : w.storage = StorageMode.inline) : f.regionStoredBytes row.table = .ok w.payload := by
  obtain ⟨pre, post, hpre, hmmap⟩ := h.bytes
  have hstorage : row.table.storage = w.storage := congrArg TocRegionSpec.storage h.row_eq
  have hlast : row.offset.val + regionMiniHeaderSize + row.length.val ≤ f.mmap.length := h.last_le
  have hdecode : RegionHeader.decode (f.mmap.drop row.offset.val) row.offset =
      .ok ⟨w.typeId, row.length⟩ := by
    rw [hmmap, ← hpre, List.append_assoc, List.append_assoc, List.drop_left]
    exact RegionHeader.decode_encode _ _ _
  have hslice : slice f.mmap (row.offset.val + regionMiniHeaderSize)
      (row.offset.val + regionMiniHeaderSize + row.length.val) = w.payload := by
    have hfront : (pre ++ RegionHeader.encode ⟨w.typeId, row.length⟩).length =
        row.offset.val + regionMiniHeaderSize := by
      rw [List.length_append, hpre, RegionHeader.length_encode]
    have hsplit : f.mmap = (pre ++ RegionHeader.encode ⟨w.typeId, row.length⟩) ++
        (w.payload ++ post) := by
      rw [hmmap]
      simp only [List.append_assoc]
    rw [slice_eq_take_drop, hsplit, ← hfront, List.drop_left, h.length_eq, List.take_left]
  have hne : row.table.storage ≠ StorageMode.linked := by
    rw [hstorage, hinline]
    decide
  have hstored := @regionStoredBytes_of_header f row.table _ hne
    (hlast.trans_lt (hshort.trans (by decide))) hlast hdecode
  rw [hstored]
  exact congrArg Except.ok hslice

/-- The row of a placed region says how it was prepared. -/
lemma decode_row (h : Placed f.mmap row w) (stored : Bytes) (identity : Option Identity) :
    decodeRegionBody x stored row.table.compression (row.table.payloadBlake3.bind hashOfBytes)
        (row.table.encryption.map encryptionFromToc) identity =
      decodeRegionBody x stored w.compression (some w.payloadBlake3) w.encryption identity := by
  have hcompression : row.table.compression = w.compression :=
    congrArg TocRegionSpec.compression h.row_eq
  have hblake3 : row.payloadBlake3 = w.payloadBlake3 :=
    congrArg TocRegionSpec.payloadBlake3 h.row_eq
  have hencryption : row.encryption = w.encryption := congrArg TocRegionSpec.encryption h.row_eq
  have hhash : row.table.payloadBlake3.bind hashOfBytes = some w.payloadBlake3 := by
    rw [← hblake3]
    exact hashOfBytes_toList _
  have henc : row.table.encryption.map encryptionFromToc = w.encryption := by
    rw [← hencryption]
    show (row.encryption.map RegionEncryptionSpec.table).map encryptionFromToc = row.encryption
    cases row.encryption with
    | none => rfl
    | some e => exact congrArg some (encryptionFromToc_table e)
  rw [hcompression, hhash, henc]

/-- A placed region is decoded as it was written. -/
lemma regionPlaintext_placed (h : Placed f.mmap row w) (hshort : f.mmap.length < 2 ^ 63)
    (hinline : w.storage = StorageMode.inline) (identity : Option Identity) :
    f.regionPlaintext x row.table identity =
      decodeRegionBody x w.payload w.compression (some w.payloadBlake3) w.encryption identity := by
  have hstorage : row.table.storage = w.storage := congrArg TocRegionSpec.storage h.row_eq
  have hne : ¬ row.table.storage = StorageMode.linked := by
    rw [hstorage, hinline]
    decide
  rw [regionPlaintext, if_neg hne, regionStoredBytes_placed h hshort hinline]
  exact decode_row h w.payload identity

/-- A prepared body is found under its type and comes back. -/
lemma Holds.read_prepared (hx : x.RoundTrip) (h : f.Holds x rows writes) {seed : Seed}
    {plaintext : Bytes} {compression : CompressionCodec} {identity : Option Identity}
    {body : PreparedRegionBody} {name contentType : Option String}
    (hbody : prepareRegionBody x seed plaintext compression identity = .ok body)
    (hfind : writes.find? (·.fbType = type) = some (body.write type name contentType)) :
    ∃ entry, f.findRegion x type = .ok entry ∧ entry.name = name ∧
      entry.contentType = contentType ∧ f.regionPlaintext x entry identity = .ok plaintext := by
  obtain ⟨row, hrow, hplaced⟩ := h.findRegion hfind
  obtain ⟨hcompression, hdecode⟩ := decodeRegionBody_prepare hx hbody
  refine ⟨row.table, hrow, congrArg TocRegionSpec.name hplaced.row_eq,
    congrArg TocRegionSpec.contentType hplaced.row_eq, ?_⟩
  rw [regionPlaintext_placed hplaced h.short rfl]
  show decodeRegionBody x body.stored body.compression _ _ _ = _
  rw [hcompression]
  exact hdecode

end SealedFile

/-! ### The parts of a file -/

lemma bind_eq_ok {α β : Type} {p : Result α} {q : α → Result β} {b : β}
    (h : (p >>= q) = .ok b) : ∃ a, p = .ok a ∧ q a = .ok b := by
  cases p with
  | error e => cases h
  | ok a => exact ⟨a, rfl, h⟩

/-- What the writer prepares from a request. -/
structure Parts where
  carrier : Option Bytes
  structuredPlain : Bytes × String
  raw : PreparedRegionBody
  clean : PreparedRegionBody
  structured : PreparedRegionBody
  embeddings : Option PreparedRegionBody

/-- The carrier is stored as it is. -/
def carrierBody (x : Externals Identity Seed) (carrier : Bytes) : PreparedRegionBody where
  stored := carrier
  compression := CompressionCodec.none
  payloadBlake3 := x.hashBytes carrier
  encryption := none

/-- The regions in their order. -/
def Parts.writes (x : Externals Identity Seed) (req : SealedCreateRequest Identity) (p : Parts) :
    List RegionWrite :=
  p.raw.write RegionType.raw req.rawName req.rawContentType ::
    p.clean.write RegionType.cleanText (some "clean-text") (some "text/plain; charset=utf-8") ::
    p.structured.write RegionType.structured (some "structured") (some p.structuredPlain.2) ::
    ((p.embeddings.map fun body =>
        body.write RegionType.embedding (some "embeddings") (some embeddingHierF32V1)).toList ++
      (p.carrier.map fun carrier => (carrierBody x carrier).write RegionType.provenance
        (some "provenance") (some provenanceContentType)).toList)

/-- The embedding region is there exactly if embeddings are asked for. -/
def EmbeddingsPrepared (x : Externals Identity Seed) (amb : Ambient Seed)
    (req : SealedCreateRequest Identity) (body : Option PreparedRegionBody) : Prop :=
  Option.Rel (fun e body => ∃ bytes, e.encode = .ok bytes ∧
    prepareRegionBody x (amb.seed RegionType.embedding) bytes CompressionCodec.none
      req.encryptWith = .ok body) req.embeddings body

/-- The parts are prepared from the request. -/
structure Parts.Of (x : Externals Identity Seed) (amb : Ambient Seed)
    (req : SealedCreateRequest Identity) (p : Parts) : Prop where
  carrier : req.provenance x amb = .ok p.carrier
  structuredPlain : req.structuredPlain = .ok p.structuredPlain
  raw : prepareRegionBody x (amb.seed RegionType.raw) req.raw CompressionCodec.none
    req.encryptWith = .ok p.raw
  clean : prepareRegionBody x (amb.seed RegionType.cleanText) req.cleanText CompressionCodec.zstd
    req.encryptWith = .ok p.clean
  structured : prepareRegionBody x (amb.seed RegionType.structured) p.structuredPlain.1
    CompressionCodec.zstd req.encryptWith = .ok p.structured
  embeddings : EmbeddingsPrepared x amb req p.embeddings

variable {amb : Ambient Seed} {req : SealedCreateRequest Identity} {p : Parts} {bytes : Bytes}

/-- The header of the file. -/
def SealedCreateRequest.header (amb : Ambient Seed) (req : SealedCreateRequest Identity) : Header :=
  .new (req.fileUuid.getD amb.newUuid) (req.createdUnixMs.getD amb.nowUnixMs) req.caps

/-- The image of the parts. -/
def Parts.image (x : Externals Identity Seed) (amb : Ambient Seed)
    (req : SealedCreateRequest Identity) (p : Parts) : Image :=
  (p.writes x req).foldl appendRegion ⟨(req.header amb).encode, []⟩

/-- The writer appends the parts and finishes the image. -/
lemma buildSealedBytes_eq (h : p.Of x amb req) : buildSealedBytes x amb req =
    finish x (p.image x amb req) 1 0 (req.fileUuid.getD amb.newUuid) StorageMode.inline := by
  obtain ⟨carrier, ⟨plain, ctype⟩, raw, clean, structured, embeddings⟩ := p
  obtain ⟨hcarrier, hplain, hraw, hclean, hstructured, hembeddings⟩ := h
  dsimp only at hcarrier hplain hraw hclean hstructured hembeddings
  have hembPlain : req.embeddingPlain = .ok none ∧ embeddings = none ∨
      ∃ b body, req.embeddingPlain = .ok (some b) ∧ embeddings = some body ∧
        prepareRegionBody x (amb.seed RegionType.embedding) b CompressionCodec.none
          req.encryptWith = .ok body := by
    rw [EmbeddingsPrepared] at hembeddings
    rw [SealedCreateRequest.embeddingPlain]
    cases he : req.embeddings with
    | none =>
      rw [he] at hembeddings
      cases hembeddings
      exact .inl ⟨rfl, rfl⟩
    | some e =>
      rw [he] at hembeddings
      cases hembeddings with
      | some hrel =>
        obtain ⟨b, hb, hbody⟩ := hrel
        refine .inr ⟨b, _, ?_, rfl, hbody⟩
        show e.encode.map some = _
        rw [hb]
        rfl
  rcases hembPlain with ⟨hemb, rfl⟩ | ⟨b, body, hemb, rfl, hbody⟩
  · simp only [buildSealedBytes, hcarrier, hemb, hplain, hraw, hclean, hstructured, bind,
      Except.bind]
    cases carrier <;> rfl
  · simp only [buildSealedBytes, hcarrier, hemb, hplain, hraw, hclean, hstructured, bind,
      Except.bind, appendEmbeddings, hbody, pure, Except.pure]
    cases carrier <;> rfl

/-- A file that is written has its parts. -/
lemma exists_parts (h : buildSealedBytes x amb req = .ok bytes) : ∃ p : Parts, p.Of x amb req := by
  rw [buildSealedBytes] at h
  obtain ⟨carrier, hcarrier, h⟩ := bind_eq_ok h
  obtain ⟨embeddingPlain, hemb, h⟩ := bind_eq_ok h
  obtain ⟨structuredPlain, hplain, h⟩ := bind_eq_ok h
  obtain ⟨raw, hraw, h⟩ := bind_eq_ok h
  obtain ⟨clean, hclean, h⟩ := bind_eq_ok h
  obtain ⟨structured, hstructured, h⟩ := bind_eq_ok h
  obtain ⟨im, him, -⟩ := bind_eq_ok h
  have hprepared : ∃ body, EmbeddingsPrepared x amb req body := by
    rw [SealedCreateRequest.embeddingPlain] at hemb
    unfold EmbeddingsPrepared
    cases he : req.embeddings with
    | none => exact ⟨none, .none⟩
    | some e =>
      rw [he] at hemb
      dsimp only at hemb
      cases hb : e.encode with
      | error err =>
        rw [hb] at hemb
        cases hemb
      | ok b =>
        rw [hb] at hemb
        obtain rfl : some b = embeddingPlain := Except.ok.inj hemb
        obtain ⟨body, hbody, -⟩ := bind_eq_ok him
        exact ⟨some body, .some ⟨b, hb, hbody⟩⟩
  obtain ⟨embeddings, hembeddings⟩ := hprepared
  exact ⟨⟨carrier, structuredPlain, raw, clean, structured, embeddings⟩,
    hcarrier, hplain, hraw, hclean, hstructured, hembeddings⟩

/-! Each type is written at most once. -/

namespace Parts

lemma find?_raw : (p.writes x req).find? (·.fbType = RegionType.raw) =
    some (p.raw.write RegionType.raw req.rawName req.rawContentType) := rfl

lemma find?_clean : (p.writes x req).find? (·.fbType = RegionType.cleanText) =
    some (p.clean.write RegionType.cleanText (some "clean-text")
      (some "text/plain; charset=utf-8")) := rfl

lemma find?_structured : (p.writes x req).find? (·.fbType = RegionType.structured) =
    some (p.structured.write RegionType.structured (some "structured")
      (some p.structuredPlain.2)) := rfl

lemma find?_embedding : (p.writes x req).find? (·.fbType = RegionType.embedding) =
    p.embeddings.map (·.write RegionType.embedding (some "embeddings")
      (some embeddingHierF32V1)) := by
  obtain ⟨carrier, structuredPlain, raw, clean, structured, embeddings⟩ := p
  cases embeddings <;> cases carrier <;> rfl

lemma find?_provenance : (p.writes x req).find? (·.fbType = RegionType.provenance) =
    p.carrier.map fun carrier => (carrierBody x carrier).write RegionType.provenance
      (some "provenance") (some provenanceContentType) := by
  obtain ⟨carrier, structuredPlain, raw, clean, structured, embeddings⟩ := p
  cases embeddings <;> cases carrier <;> rfl

end Parts

/-! ### The round trip -/

namespace SealedFile

/-- The file gives back what was put in; what was not put in is not found. -/
structure GivesBack (x : Externals Identity Seed) (amb : Ambient Seed)
    (req : SealedCreateRequest Identity) (f : SealedFile) : Prop where
  header : f.header = .new (req.fileUuid.getD amb.newUuid)
    (req.createdUnixMs.getD amb.nowUnixMs) req.caps
  raw : f.raw x req.encryptWith = .ok req.raw
  raw_row : ∃ entry, f.findRegion x RegionType.raw = .ok entry ∧ entry.name = req.rawName ∧
    entry.contentType = req.rawContentType
  cleanText : f.cleanText x req.encryptWith = .ok req.cleanText
  structured : req.structuredCrdt = none → f.structured x req.encryptWith = .ok req.structured
  structured_row : req.structuredCrdt = none → ∃ entry,
    f.findRegion x RegionType.structured = .ok entry ∧
      entry.contentType = some (req.structuredContentType.getD structuredSnapshotV1)
  structuredCrdt : ∀ doc, req.structuredCrdt = some doc →
    f.structuredCrdt x req.encryptWith = .ok doc
  embeddings : ∀ e, req.embeddings = some e → f.embeddings x req.encryptWith = .ok e
  no_embeddings : req.embeddings = none →
    f.embeddings x req.encryptWith = .error (.regionNotFound RegionType.embedding)
  carrier : ∀ carrier, req.provenance x amb = .ok (some carrier) →
    f.provenanceCarrier x = .ok carrier
  no_carrier : req.signC2pa = false →
    f.provenanceCarrier x = .error (.regionNotFound RegionType.provenance)

variable {f : SealedFile} {rows : List TocRegionSpec}

/-- The plaintext of a region whose row is known. -/
lemma plaintext_eq {type : RegionType} {entry : RegionEntry} {identity : Option Identity}
    (h : f.findRegion x type = .ok entry) :
    f.plaintext x identity type = f.regionPlaintext x entry identity := by
  rw [plaintext, h]
  rfl

lemma structuredCrdt_eq (hx : x.RoundTrip) (hp : p.Of x amb req)
    (h : f.Holds x rows (p.writes x req)) {doc : CrdtDocument}
    (hdoc : req.structuredCrdt = some doc) :
    f.structuredCrdt x req.encryptWith = decodeCrdtPayload (payload doc) := by
  obtain ⟨entry, hentry, -, hctype, hplain⟩ :=
    h.read_prepared hx hp.structured Parts.find?_structured
  have hstructured := hp.structuredPlain
  rw [SealedCreateRequest.structuredPlain, hdoc] at hstructured
  have hpair : (payload doc, structuredCrdtV1) = p.structuredPlain := Except.ok.inj hstructured
  rw [← hpair] at hctype hplain
  have hget : entry.contentType.getD "" = structuredCrdtV1 := by
    rw [hctype]
    rfl
  rw [SealedFile.structuredCrdt, hentry]
  show (if entry.contentType.getD "" ≠ structuredCrdtV1 then _ else _) = _
  rw [if_neg (not_not.mpr hget), hplain]
  rfl

lemma embeddings_eq (hx : x.RoundTrip) (hp : p.Of x amb req)
    (h : f.Holds x rows (p.writes x req)) {e : EmbeddingPayload} (he : req.embeddings = some e) :
    e.Encodable ∧ f.embeddings x req.encryptWith = EmbeddingPayload.decode e.bytes := by
  obtain ⟨carrier, structuredPlain, raw, clean, structured, embeddings⟩ := p
  have hrel := hp.embeddings
  rw [EmbeddingsPrepared, he] at hrel
  dsimp only at hrel
  cases hrel with
  | @some _ body hbody =>
    obtain ⟨b, hb, hbody⟩ := hbody
    obtain ⟨henc, rfl⟩ := EmbeddingPayload.encode_eq_ok.mp hb
    obtain ⟨entry, hentry, -, -, hplain⟩ := h.read_prepared hx hbody Parts.find?_embedding
    refine ⟨henc, ?_⟩
    rw [SealedFile.embeddings, plaintext_eq hentry, hplain]
    rfl

lemma embeddings_none (hp : p.Of x amb req) (h : f.Holds x rows (p.writes x req))
    (he : req.embeddings = none) :
    f.embeddings x req.encryptWith = .error (.regionNotFound RegionType.embedding) := by
  obtain ⟨carrier, structuredPlain, raw, clean, structured, embeddings⟩ := p
  have hrel := hp.embeddings
  rw [EmbeddingsPrepared, he] at hrel
  dsimp only at hrel
  cases hrel
  have hfind := h.findRegion_none Parts.find?_embedding
  rw [SealedFile.embeddings, plaintext, hfind]
  rfl

lemma provenanceCarrier_eq (hx : x.RoundTrip) (hp : p.Of x amb req)
    (h : f.Holds x rows (p.writes x req)) {carrier : Bytes}
    (hc : req.provenance x amb = .ok (some carrier)) : f.provenanceCarrier x = .ok carrier := by
  obtain ⟨carrier', structuredPlain, raw, clean, structured, embeddings⟩ := p
  obtain rfl : carrier' = some carrier := Except.ok.inj (hp.carrier.symm.trans hc)
  have hbody : prepareRegionBody x (amb.seed RegionType.provenance) carrier CompressionCodec.none
      none = .ok (carrierBody x carrier) := rfl
  obtain ⟨entry, hentry, -, -, hplain⟩ := h.read_prepared hx hbody Parts.find?_provenance
  rw [provenanceCarrier, plaintext_eq hentry, hplain]

lemma provenanceCarrier_none (hp : p.Of x amb req) (h : f.Holds x rows (p.writes x req))
    (hc : req.signC2pa = false) :
    f.provenanceCarrier x = .error (.regionNotFound RegionType.provenance) := by
  obtain ⟨carrier, structuredPlain, raw, clean, structured, embeddings⟩ := p
  have hcarrier := hp.carrier
  rw [SealedCreateRequest.provenance, hc] at hcarrier
  obtain rfl : none = carrier := Except.ok.inj hcarrier
  have hfind := h.findRegion_none Parts.find?_provenance
  rw [provenanceCarrier, plaintext, hfind]
  rfl

end SealedFile

/-- What the encodings of the CRDT document and of the embeddings ask for. -/
structure SealedCreateRequest.Carried (req : SealedCreateRequest Identity) : Prop where
  structuredCrdt : ∀ doc, req.structuredCrdt = some doc → doc.Fits
  embeddings : ∀ e, req.embeddings = some e → e.records.length < 2 ^ 32

lemma givesBack_iff (hx : x.RoundTrip) (hp : p.Of x amb req) {f : SealedFile}
    {rows : List TocRegionSpec} (h : f.Holds x rows (p.writes x req))
    (hheader : f.header = req.header amb) : f.GivesBack x amb req ↔ req.Carried := by
  constructor
  · intro hback
    constructor
    · intro doc hdoc
      have hread := hback.structuredCrdt doc hdoc
      rw [SealedFile.structuredCrdt_eq hx hp h hdoc] at hread
      exact (decode_payload_iff doc).mp hread
    · intro e he
      have hread := hback.embeddings e he
      obtain ⟨henc, heq⟩ := SealedFile.embeddings_eq hx hp h he
      rw [heq] at hread
      exact (EmbeddingPayload.decode_bytes_iff henc).mp hread
  · intro hcarried
    obtain ⟨raw, hraw, hname, hctype, hrawPlain⟩ := h.read_prepared hx hp.raw Parts.find?_raw
    obtain ⟨clean, hclean, -, -, hcleanPlain⟩ := h.read_prepared hx hp.clean Parts.find?_clean
    obtain ⟨structured, hstructured, -, hstructuredType, hstructuredPlain⟩ :=
      h.read_prepared hx hp.structured Parts.find?_structured
    have hplain := hp.structuredPlain
    refine ⟨hheader, (SealedFile.plaintext_eq hraw).trans hrawPlain, ⟨raw, hraw, hname, hctype⟩,
      (SealedFile.plaintext_eq hclean).trans hcleanPlain, fun hdoc => ?_, fun hdoc => ?_,
      fun doc hdoc => ?_, fun e he => ?_, SealedFile.embeddings_none hp h,
      fun carrier => SealedFile.provenanceCarrier_eq hx hp h,
      SealedFile.provenanceCarrier_none hp h⟩
    · rw [SealedCreateRequest.structuredPlain, hdoc] at hplain
      rw [← Except.ok.inj hplain] at hstructuredPlain
      exact (SealedFile.plaintext_eq hstructured).trans hstructuredPlain
    · rw [SealedCreateRequest.structuredPlain, hdoc] at hplain
      rw [← Except.ok.inj hplain] at hstructuredType
      exact ⟨structured, hstructured, hstructuredType⟩
    · rw [SealedFile.structuredCrdt_eq hx hp h hdoc]
      exact (decode_payload_iff doc).mpr (hcarried.structuredCrdt doc hdoc)
    · obtain ⟨henc, heq⟩ := SealedFile.embeddings_eq hx hp h he
      rw [heq]
      exact (EmbeddingPayload.decode_bytes_iff henc).mpr (hcarried.embeddings e he)

/-- The bytes open as a file in blocks that gives back the request. -/
def RoundTrips (x : Externals Identity Seed) (amb : Ambient Seed)
    (req : SealedCreateRequest Identity) (bytes : Bytes) : Prop :=
  ∃ f toc entries, SealedFile.fromMmap x bytes = .ok f ∧ f.toc x = .ok toc ∧
    toc.regions = some entries ∧ f.InBlocks entries ∧ f.GivesBack x amb req

lemma Parts.Of.holds (hx : x.RoundTrip) (hp : p.Of x amb req)
    (h : buildSealedBytes x amb req = .ok bytes) : ∃ f rows,
      SealedFile.fromMmap x bytes = .ok f ∧ f.header = req.header amb ∧
        f.Holds x rows (p.writes x req) ∧ (f.toc x).map Toc.generation = .ok 1 := by
  rw [buildSealedBytes_eq hp] at h
  exact SealedFile.holds_of_writes hx h

/-- What the writer returns opens as a file that holds the parts. -/
lemma exists_holds (hx : x.RoundTrip) (h : buildSealedBytes x amb req = .ok bytes) :
    ∃ (f : SealedFile) (p : Parts) (rows : List TocRegionSpec),
      SealedFile.fromMmap x bytes = .ok f ∧ p.Of x amb req ∧ f.header = req.header amb ∧
        f.Holds x rows (p.writes x req) := by
  obtain ⟨p, hp⟩ := exists_parts h
  obtain ⟨f, rows, hopen, hheader, hholds, -⟩ := hp.holds hx h
  exact ⟨f, p, rows, hopen, hp, hheader, hholds⟩

lemma RoundTrips.carried (hx : x.RoundTrip) (hbuild : buildSealedBytes x amb req = .ok bytes)
    (h : RoundTrips x amb req bytes) : req.Carried := by
  obtain ⟨f, p, rows, hopen, hp, hheader, hholds⟩ := exists_holds hx hbuild
  obtain ⟨f', toc, entries, hopen', -, -, -, hback⟩ := h
  obtain rfl := Except.ok.inj (hopen.symm.trans hopen')
  exact (givesBack_iff hx hp hholds hheader).mp hback

/-- A file that was written comes back exactly if its CRDT document and its embeddings do. -/
theorem container_round_trip_iff (hx : x.RoundTrip)
    (h : buildSealedBytes x amb req = .ok bytes) : RoundTrips x amb req bytes ↔ req.Carried := by
  refine ⟨RoundTrips.carried hx h, fun hcarried => ?_⟩
  obtain ⟨f, p, rows, hopen, hp, hheader, hholds⟩ := exists_holds hx h
  obtain ⟨toc, htoc, hregions⟩ := hholds.toc_eq
  exact ⟨f, toc, _, hopen, htoc, hregions, hholds.inBlocks,
    (givesBack_iff hx hp hholds hheader).mpr hcarried⟩

/-! ### A file with one insert -/

/-- Externals that keep bytes as they are and know some TOCs, each by its place. -/
def keepingExternals (ts : List Toc) : Externals Unit Unit where
  hashBytes _ := List.Vector.replicate 32 0
  encodeAll := .ok
  decodeAll := .ok
  kind _ := .passphrase
  encryptBytes _ _ := .ok
  decryptBytes _ := .ok
  finishTocBuffer t := if t ∈ ts then some [Fin.ofNat (2 ^ 8) (ts.idxOf t)] else none
  rootAsToc bytes := .ok (ts.getD (ofLe bytes) SealedFile.wrongToc)
  saveToStream _ _ _ _ := .ok []

lemma finishTocBuffer_keepingExternals {ts : List Toc} {t : Toc} {b : Bytes}
    (h : (keepingExternals ts).finishTocBuffer t = some b) :
    t ∈ ts ∧ b = [Fin.ofNat (2 ^ 8) (ts.idxOf t)] := by
  have heq : (if t ∈ ts then some [Fin.ofNat (2 ^ 8) (ts.idxOf t)] else none) = some b := h
  split_ifs at heq with ht
  exact ⟨ht, (Option.some.inj heq).symm⟩

lemma roundTrip_keepingExternals {ts : List Toc} (hts : ts.length ≤ 256) :
    (keepingExternals ts).RoundTrip where
  zstd := fun _ _ h => h.symm
  age := fun _ _ _ _ h => h.symm
  toc := by
    intro t b h
    obtain ⟨ht, rfl⟩ := finishTocBuffer_keepingExternals h
    have hlt := List.idxOf_lt_length_of_mem ht
    have hval : ofLe [Fin.ofNat (2 ^ 8) (ts.idxOf t)] = ts.idxOf t := by
      show ts.idxOf t % 2 ^ 8 + 2 ^ 8 * 0 = ts.idxOf t
      omega
    show Except.ok (ts.getD (ofLe [Fin.ofNat (2 ^ 8) (ts.idxOf t)]) SealedFile.wrongToc) = .ok t
    rw [hval, List.getD_eq_getElem?_getD, List.getElem?_eq_getElem hlt, Option.getD_some,
      List.getElem_idxOf]
  toc_ne_nil := by
    intro t b h
    obtain ⟨-, rfl⟩ := finishTocBuffer_keepingExternals h
    exact List.cons_ne_nil _ _

/-- An image is finished if its TOC is known and it is not too long for a `Vec`. -/
lemma exists_finished {ts : List Toc} {im : Image} {generation parentGeneration : U64}
    {fileUuid : Uuid} {storage : StorageMode} (ht : TocSpec.table
      ⟨generation, parentGeneration, fileUuid, storage, im.tocRegions⟩ ∈ ts)
    (hlen : im.buf.length < 2 ^ 62) :
    ∃ bytes, finish (keepingExternals ts) im generation parentGeneration fileUuid storage =
      .ok bytes := by
  have hpad := alignUp_le im.buf.length
  rw [← length_padToAlignment] at hpad
  refine ⟨_, finish_of_toc (if_pos ht) ?_⟩
  show (padToAlignment im.buf).length + 1 + 44 < 2 ^ 63
  omega

def fixedAmbient : Ambient Unit := ⟨List.Vector.replicate 16 0, 0, fun _ => ()⟩

def keptBody (stored : Bytes) (compression : CompressionCodec) : PreparedRegionBody where
  stored := stored
  compression := compression
  payloadBlake3 := List.Vector.replicate 32 0
  encryption := none

/-- Only the Structured region has bytes. -/
def keptParts (plain : Bytes × String) : Parts where
  carrier := none
  structuredPlain := plain
  raw := keptBody [] CompressionCodec.none
  clean := keptBody [] CompressionCodec.zstd
  structured := keptBody plain.1 CompressionCodec.zstd
  embeddings := none

lemma keptParts_of {ts : List Toc} {r : SealedCreateRequest Unit} {plain : Bytes × String}
    (hraw : r.raw = []) (hclean : r.cleanText = []) (hplain : r.structuredPlain = .ok plain)
    (hidentity : r.encryptWith = none) (hsign : r.signC2pa = false) (hemb : r.embeddings = none) :
    (keptParts plain).Of (keepingExternals ts) fixedAmbient r := by
  refine ⟨?_, hplain, ?_, ?_, ?_, ?_⟩
  · rw [SealedCreateRequest.provenance, hsign]
    rfl
  · rw [hraw, hidentity]
    rfl
  · rw [hclean, hidentity]
    rfl
  · rw [hidentity]
    rfl
  · rw [EmbeddingsPrepared, hemb]
    exact .none

/-- The image does not depend on the TOCs. -/
lemma exists_image (r : SealedCreateRequest Unit) {plain : Bytes × String}
    (h : plain.1.length < 2 ^ 61) :
    ∃ im, (∀ ts, (keptParts plain).image (keepingExternals ts) fixedAmbient r = im) ∧
      im.buf.length < 2 ^ 62 := by
  refine ⟨(keptParts plain).image (keepingExternals []) fixedAmbient r, fun _ => rfl, ?_⟩
  refine (length_foldl_le _ _).trans_lt ?_
  rw [Header.length_encode]
  show 4096 + ((4109 + 0) + ((4109 + 0) + ((4109 + plain.1.length) + 0))) < 2 ^ 62
  omega

/-- A CRDT document and nothing else. -/
def crdtRequest (doc : CrdtDocument) : SealedCreateRequest Unit := { structuredCrdt := some doc }

/-- The file is written if the document is not too long for a `Vec`. -/
lemma exists_built (doc : CrdtDocument) (h : (payload doc).length < 2 ^ 61) : ∃ t bytes,
    buildSealedBytes (keepingExternals [t]) fixedAmbient (crdtRequest doc) = .ok bytes := by
  have hparts : ∀ ts, (keptParts (payload doc, structuredCrdtV1)).Of (keepingExternals ts)
      fixedAmbient (crdtRequest doc) := fun _ => keptParts_of rfl rfl rfl rfl rfl rfl
  obtain ⟨im, him, hlen⟩ := @exists_image (crdtRequest doc) (payload doc, structuredCrdtV1) h
  obtain ⟨bytes, hbytes⟩ := @exists_finished [TocSpec.table
    ⟨1, 0, fixedAmbient.newUuid, StorageMode.inline, im.tocRegions⟩] im _ _ _ _
    List.mem_cons_self hlen
  exact ⟨_, bytes, by rw [buildSealedBytes_eq (hparts _), him]; exact hbytes⟩

/-- One insert at the beginning. -/
def oneInsert (text : Text) : CrdtDocument := CrdtDocument.new.applyOp (.insert ⟨1, 1⟩ 1 none text)

lemma toList_oneInsert (text : Text) :
    (oneInsert text).ops.toList = [.insert ⟨1, 1⟩ 1 none text] := rfl

lemma length_payload_oneInsert (text : Text) :
    (payload (oneInsert text)).length = 50 + String.utf8Len text := by
  rw [payload, toList_oneInsert, List.flatMap_singleton, List.length_append]
  simp only [encodeOp, encodeOpid, List.length_flatten, List.map_cons, List.map_nil, length_le,
    length_utf8Bytes, List.length_cons, List.length_nil, crdtPayloadMagic, List.sum_cons,
    List.sum_nil]
  omega

lemma fits_oneInsert {text : Text} (h : String.utf8Len text < 2 ^ 32) : (oneInsert text).Fits := by
  refine ⟨?_, fun op hop => ?_, CrdtDocument.tight_new.applyOp _⟩
  · show 1 < 2 ^ 32
    decide
  · obtain rfl := List.mem_singleton.mp (show op ∈ (oneInsert text).ops.toList from hop)
    exact h

/-- The document with one letter comes back. -/
theorem container_round_trip_oneInsert : ∃ (x : Externals Unit Unit) (bytes : Bytes),
    x.RoundTrip ∧ buildSealedBytes x fixedAmbient (crdtRequest (oneInsert ['a'])) = .ok bytes ∧
      RoundTrips x fixedAmbient (crdtRequest (oneInsert ['a'])) bytes := by
  obtain ⟨t, bytes, hbytes⟩ := exists_built (oneInsert ['a']) (by
    rw [length_payload_oneInsert]
    decide)
  have hx := @roundTrip_keepingExternals [t] (by show 1 ≤ 256; decide)
  refine ⟨keepingExternals [t], bytes, hx, hbytes,
    (container_round_trip_iff hx hbytes).mpr ⟨?_, ?_⟩⟩
  · intro doc hdoc
    obtain rfl := Option.some.inj hdoc
    exact fits_oneInsert (by decide)
  · intro e he
    cases he

lemma utf8Len_replicate (n : ℕ) : String.utf8Len (List.replicate n 'a') = n := by
  induction n with
  | zero => rfl
  | succ n ih =>
    rw [List.replicate_succ, String.utf8Len_cons, ih]
    rfl

/-- A text of 4 GiB is written with the length zero. -/
theorem not_container_round_trip : ¬ ∀ (x : Externals Unit Unit) (amb : Ambient Unit)
    (req : SealedCreateRequest Unit) (bytes : Bytes), x.RoundTrip →
      buildSealedBytes x amb req = .ok bytes → RoundTrips x amb req bytes := by
  intro h
  obtain ⟨text, htext⟩ : ∃ text, String.utf8Len text = 2 ^ 32 := ⟨_, utf8Len_replicate _⟩
  obtain ⟨t, bytes, hbytes⟩ := exists_built (oneInsert text) (by
    rw [length_payload_oneInsert, htext]
    decide)
  have hx := @roundTrip_keepingExternals [t] (by show 1 ≤ 256; decide)
  have hfits := ((h _ _ _ _ hx hbytes).carried hx hbytes).structuredCrdt _ rfl
  have hlt : String.utf8Len text < 2 ^ 32 := hfits.texts _ (List.mem_singleton_self _)
  rw [htext] at hlt
  exact lt_irrefl _ hlt

end Orchid.Format
