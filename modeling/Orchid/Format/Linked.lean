import Orchid.Format.RoundTrip

/-!
# Linked files

The bodies of a linked file are chunks in a store, its regions are empty. A sealed file is repacked
as a linked one and back from what its regions read as.
-/

namespace Orchid.Format

open Lib Crdt

/-! ### Chunks -/

/-- The content store with its chunker; `S` is the state of the store. -/
structure ChunkStore (S : Type) where
  put : S → Bytes → Result (S × Hash)
  get : S → Hash → Result Bytes
  chunkBytes : Bytes → List Bytes

/-- The states that more `put`s lead to. -/
inductive ChunkStore.After {S : Type} (c : ChunkStore S) (s : S) : S → Prop
  | refl : c.After s s
  | put {t t' : S} {b : Bytes} {h : Hash} (ht : c.After s t) (hput : c.put t b = .ok (t', h)) :
      c.After s t'

/-- What is read is what was put, also after more is put; a read may fail. Chunks are the pieces of
what is cut. -/
structure ChunkStore.Keeps {S : Type} (c : ChunkStore S) : Prop where
  stored : ∀ s s' t b h d, c.put s b = .ok (s', h) → c.After s' t → c.get t h = .ok d → d = b
  flatten : ∀ b, (c.chunkBytes b).flatten = b

section Chunks

variable {S : Type} (c : ChunkStore S)

/-- Put slices one after the other. -/
def putAll : S → List Bytes → Result (S × List TocChunkSpec)
  | s, [] => .ok (s, [])
  | s, slice :: slices => do
    let (s, hash) ← c.put s slice
    let (s, chunks) ← putAll s slices
    return (s, ⟨hash, toU64 slice.length⟩ :: chunks)

/-- An empty body is one empty chunk. -/
def putChunks (s : S) (data : Bytes) : Result (S × List TocChunkSpec) :=
  if data = [] then putAll c s [[]] else putAll c s (c.chunkBytes data)

def chunkHash (chunk : ChunkRef) : Result Hash :=
  match chunk.blake3 with
  | none => .error (.invalidToc "chunk missing blake3")
  | some blake =>
    match hashOfBytes blake with
    | none => .error (.invalidToc "chunk blake3 len != 32")
    | some hash => .ok hash

def gatherChunks (s : S) (entry : RegionEntry) : Result Bytes :=
  match entry.chunks with
  | none => .error (.invalidToc "linked region missing chunks")
  | some chunks => do
    let hashes ← chunks.mapM chunkHash
    let parts ← hashes.mapM (c.get s)
    return parts.flatten

end Chunks

/-! ### Writing -/

/-- Inputs for a linked file. -/
structure LinkedCreateRequest (Identity : Type) where
  fileUuid : Option Uuid := none
  createdUnixMs : Option U64 := none
  generation : U64 := 1
  parentGeneration : U64 := 0
  raw : Bytes := []
  rawName : Option String := none
  rawContentType : Option String := none
  cleanText : Bytes := []
  structured : Bytes := []
  embeddings : Option EmbeddingPayload := none
  encryptWith : Option Identity := none

/-- A body with what its row says of it. -/
structure PreparedRegion where
  type : RegionType
  body : PreparedRegionBody
  name : Option String
  contentType : Option String

/-- The region is empty; its body is in the chunks. -/
def PreparedRegion.write (r : PreparedRegion) (chunks : List TocChunkSpec) : RegionWrite :=
  { r.body.write r.type r.name r.contentType with
    payload := []
    storage := StorageMode.linked
    chunks := chunks }

def versionHistoryMagic : Bytes := [0x4f, 0x52, 0x56, 0x48]

def encodeVersionHistoryStub (generation parentGeneration : U64) (fileUuid : Uuid)
    (chunkHashes : List Hash) : Bytes :=
  [versionHistoryMagic, le 4 1, le 8 generation, le 8 parentGeneration, fileUuid.toList,
    le 4 chunkHashes.length, chunkHashes.flatMap List.Vector.toList].flatten

variable {Identity Seed S : Type} (x : Externals Identity Seed) (amb : Ambient Seed)
  (c : ChunkStore S)

/-- Put the bodies into the store and append their empty regions. -/
def appendLinkedRegions : S → Image → List PreparedRegion → Result (S × Image)
  | s, im, [] => .ok (s, im)
  | s, im, r :: rs => do
    let (s, chunks) ← putChunks c s r.body.stored
    appendLinkedRegions s (appendRegion im (r.write chunks)) rs

namespace LinkedCreateRequest

variable (req : LinkedCreateRequest Identity)

def caps : U64 :=
  Capability.linked ||| (if req.encryptWith.isSome then Capability.encrypted else 0) |||
    (if req.embeddings.isSome then Capability.embeddings else 0)

def embeddingRegions : Result (List PreparedRegion) :=
  match req.embeddings with
  | none => .ok []
  | some emb => do
    let plain ← emb.encode
    let body ← prepareRegionBody x (amb.seed RegionType.embedding) plain CompressionCodec.none
      req.encryptWith
    return [⟨RegionType.embedding, body, some "embeddings", some embeddingHierF32V1⟩]

/-- The regions of the file whose bodies go to the store. -/
def prepared : Result (List PreparedRegion) := do
  let raw ← prepareRegionBody x (amb.seed RegionType.raw) req.raw CompressionCodec.none
    req.encryptWith
  let clean ← prepareRegionBody x (amb.seed RegionType.cleanText) req.cleanText
    CompressionCodec.zstd req.encryptWith
  let structured ← prepareRegionBody x (amb.seed RegionType.structured) req.structured
    CompressionCodec.zstd req.encryptWith
  let embeddings ← req.embeddingRegions x amb
  return ⟨RegionType.raw, raw, req.rawName, req.rawContentType⟩ ::
    ⟨RegionType.cleanText, clean, some "clean-text", none⟩ ::
    ⟨RegionType.structured, structured, some "structured", none⟩ :: embeddings

end LinkedCreateRequest

/-- The list of all chunks, stored in the file itself. -/
def versionHistoryWrite (history : Bytes) : RegionWrite where
  typeId := RegionType.versionHistory
  fbType := RegionType.versionHistory
  payload := history
  compression := CompressionCodec.none
  payloadBlake3 := x.hashBytes history
  encryption := none
  name := some "version-history"
  ordinal := 0
  contentType := some "application/vnd.orchid.version-history+bin"

def buildLinkedBytes (s : S) (req : LinkedCreateRequest Identity) : Result (S × Bytes) := do
  let fileUuid := req.fileUuid.getD amb.newUuid
  let createdUnixMs := req.createdUnixMs.getD amb.nowUnixMs
  let prepared ← req.prepared x amb
  let im : Image := ⟨(Header.new fileUuid createdUnixMs req.caps).encode, []⟩
  let (s, im) ← appendLinkedRegions c s im prepared
  let hashes := im.tocRegions.flatMap fun row => row.chunks.map TocChunkSpec.blake3
  let history :=
    encodeVersionHistoryStub req.generation req.parentGeneration fileUuid hashes
  let im := appendRegion im (versionHistoryWrite x history)
  let bytes ← finish x im req.generation req.parentGeneration fileUuid StorageMode.linked
  return (s, bytes)

/-! ### Repacking -/

/-- Reassemble and decode a region. -/
def linkedRegionPlaintext (f : SealedFile) (s : S) (type : RegionType)
    (identity : Option Identity) : Result Bytes := do
  let entry ← f.findRegion x type
  if entry.storage ≠ StorageMode.linked then f.regionPlaintext x entry identity
  else do
    let stored ← gatherChunks c s entry
    decodeRegionBody x stored entry.compression (entry.payloadBlake3.bind hashOfBytes)
      (entry.encryption.map encryptionFromToc) identity

/-- Name and content type of the Raw region. -/
def rawLabels (f : SealedFile) : Option String × Option String :=
  match f.findRegion x RegionType.raw with
  | .ok entry => (entry.name, entry.contentType)
  | .error _ => (none, none)

/-- `generation.saturating_add(1).max(2)` -/
def nextGeneration (generation : U64) : U64 := max (toU64 (min (generation.val + 1) (2 ^ 64 - 1))) 2

variable (identity : Option Identity)

def sealedToLinked (s : S) (sealedBytes : Bytes) : Result (S × Bytes) := do
  let f ← SealedFile.fromMmap x sealedBytes
  let raw ← f.raw x identity
  let clean ← f.cleanText x identity
  let structured ← f.structured x identity
  let toc ← f.toc x
  buildLinkedBytes x amb c s {
    fileUuid := some f.header.fileUuid
    createdUnixMs := some f.header.createdUnixMs
    generation := nextGeneration toc.generation
    parentGeneration := toc.generation
    raw := raw
    rawName := (rawLabels x f).1
    rawContentType := (rawLabels x f).2
    cleanText := clean
    structured := structured
    embeddings := (f.embeddings x identity).toOption
    encryptWith := identity }

def linkedToSealed (s : S) (linkedBytes : Bytes) : Result Bytes := do
  let f ← SealedFile.fromMmap x linkedBytes
  let raw ← linkedRegionPlaintext x c f s RegionType.raw identity
  let clean ← linkedRegionPlaintext x c f s RegionType.cleanText identity
  let structured ← linkedRegionPlaintext x c f s RegionType.structured identity
  let embeddings :=
    ((linkedRegionPlaintext x c f s RegionType.embedding identity).toOption).bind
      fun bytes => (EmbeddingPayload.decode bytes).toOption
  buildSealedBytes x amb {
    fileUuid := some f.header.fileUuid
    createdUnixMs := some f.header.createdUnixMs
    raw := raw
    rawContentType := (rawLabels x f).2
    rawName := (rawLabels x f).1
    cleanText := clean
    structured := structured
    structuredContentType := none
    structuredCrdt := none
    encryptWith := identity
    signC2pa := false
    embeddings := embeddings }

/-! ### Stored chunks -/

section Stored

variable {S : Type} {c : ChunkStore S} {s s' : S}

lemma ChunkStore.After.trans {t : S} (h : c.After s s') (h' : c.After s' t) : c.After s t := by
  induction h' with
  | refl => exact h
  | put _ hput ih => exact ih.put hput

/-- The chunks of the data were put into the store. -/
def Stores (c : ChunkStore S) (s : S) (chunks : List TocChunkSpec) (data : Bytes) : Prop :=
  chunks ≠ [] ∧ ∃ slices, slices.flatten = data ∧
    List.Forall₂ (fun chunk slice => ∀ t d, c.After s t → c.get t chunk.blake3 = .ok d → d = slice)
      chunks slices

lemma Stores.extend {chunks : List TocChunkSpec} {data : Bytes} (h : Stores c s chunks data)
    (hafter : c.After s s') : Stores c s' chunks data := by
  obtain ⟨hne, slices, hflatten, hall⟩ := h
  exact ⟨hne, slices, hflatten, hall.imp fun chunk slice hget t d ht =>
    hget t d (hafter.trans ht)⟩

lemma putAll_spec (hc : c.Keeps) {slices : List Bytes} {chunks : List TocChunkSpec}
    (h : putAll c s slices = .ok (s', chunks)) : c.After s s' ∧
      List.Forall₂ (fun chunk slice => ∀ t d, c.After s' t → c.get t chunk.blake3 = .ok d →
        d = slice) chunks slices := by
  induction slices generalizing s chunks with
  | nil =>
    cases h
    exact ⟨.refl, .nil⟩
  | cons slice slices ih =>
    rw [putAll] at h
    obtain ⟨⟨s₁, hash⟩, hput, h⟩ := bind_eq_ok h
    obtain ⟨⟨s₂, rest⟩, hrest, h⟩ := bind_eq_ok h
    cases h
    obtain ⟨hafter, hall⟩ := ih hrest
    exact ⟨(ChunkStore.After.refl.put hput).trans hafter,
      .cons (fun t d ht hget => hc.stored _ _ t _ _ d hput (hafter.trans ht) hget) hall⟩

lemma putChunks_spec (hc : c.Keeps) {data : Bytes} {chunks : List TocChunkSpec}
    (h : putChunks c s data = .ok (s', chunks)) : c.After s s' ∧ Stores c s' chunks data := by
  rw [putChunks] at h
  by_cases hdata : data = []
  · rw [if_pos hdata] at h
    obtain ⟨hext, hall⟩ := putAll_spec hc h
    refine ⟨hext, ?_, [[]], hdata.symm, hall⟩
    rintro rfl
    cases hall
  · rw [if_neg hdata] at h
    obtain ⟨hext, hall⟩ := putAll_spec hc h
    refine ⟨hext, ?_, _, hc.flatten data, hall⟩
    rintro rfl
    have hflatten := hc.flatten data
    rw [List.forall₂_nil_left_iff.mp hall] at hflatten
    exact hdata hflatten.symm

lemma mapM_chunkHash (chunks : List TocChunkSpec) :
    (chunks.map TocChunkSpec.table).mapM chunkHash =
      (.ok (chunks.map TocChunkSpec.blake3) : Result (List Hash)) := by
  induction chunks with
  | nil => rfl
  | cons chunk chunks ih =>
    have hhash : chunkHash chunk.table = .ok chunk.blake3 := by
      simp [chunkHash, TocChunkSpec.table]
    rw [List.map_cons, List.mapM_cons, hhash, ih]
    rfl

/-- The result is the value, unless the store fails to give a chunk. -/
def ChunkStore.Gives {α : Type} (c : ChunkStore S) (s : S) (r : Result α) (a : α) : Prop :=
  r = .ok a ∨ (∃ e, r = .error e) ∧ ∃ k e, c.get s k = .error e

lemma ChunkStore.Gives.eq_of_ok {α : Type} {r : Result α} {a a' : α} (h : c.Gives s r a)
    (hr : r = .ok a') : a' = a := by
  rcases h with h | ⟨⟨e, he⟩, -⟩
  · exact Except.ok.inj (hr.symm.trans h)
  · rw [hr] at he
    cases he

lemma ChunkStore.Gives.bind {α β : Type} {r : Result α} {a : α} {f : α → Result β} {b : β}
    (h : c.Gives s r a) (hf : f a = .ok b) : c.Gives s (r >>= f) b := by
  rcases h with rfl | ⟨⟨e, rfl⟩, hk⟩
  · exact .inl hf
  · exact .inr ⟨⟨e, rfl⟩, hk⟩

lemma mapM_get {chunks : List TocChunkSpec} {slices : List Bytes}
    (h : List.Forall₂ (fun chunk slice => ∀ t d, c.After s t → c.get t chunk.blake3 = .ok d →
      d = slice) chunks slices) :
    c.Gives s ((chunks.map TocChunkSpec.blake3).mapM (c.get s)) slices := by
  induction h with
  | nil => exact .inl rfl
  | @cons chunk slice chunks slices hget _ ih =>
    rw [List.map_cons, List.mapM_cons]
    cases hchunk : c.get s chunk.blake3 with
    | error e => exact .inr ⟨⟨e, rfl⟩, _, e, hchunk⟩
    | ok d =>
      obtain rfl := hget s d .refl hchunk
      exact ih.bind rfl

/-- The chunks of a row are put together again. -/
lemma gatherChunks_stores {row : TocRegionSpec} {data : Bytes}
    (h : Stores c s row.chunks data) : c.Gives s (gatherChunks c s row.table) data := by
  obtain ⟨hne, slices, rfl, hall⟩ := h
  have hchunks : row.table.chunks = some (row.chunks.map TocChunkSpec.table) := if_neg hne
  rw [gatherChunks, hchunks]
  dsimp only
  rw [mapM_chunkHash]
  exact (mapM_get hall).bind rfl

/-- The regions appended, each with its chunks. -/
lemma appendLinkedRegions_spec (hc : c.Keeps) {im im' : Image} {rs : List PreparedRegion}
    (h : appendLinkedRegions c s im rs = .ok (s', im')) : c.After s s' ∧ ∃ writes,
      im' = writes.foldl appendRegion im ∧ List.Forall₂ (fun r w => ∃ chunks,
        w = PreparedRegion.write r chunks ∧ Stores c s' chunks r.body.stored) rs writes := by
  induction rs generalizing s im with
  | nil =>
    cases h
    exact ⟨.refl, [], rfl, .nil⟩
  | cons r rs ih =>
    rw [appendLinkedRegions] at h
    obtain ⟨⟨s₁, chunks⟩, hput, h⟩ := bind_eq_ok h
    obtain ⟨hafter₁, hstores⟩ := putChunks_spec hc hput
    obtain ⟨hafter, writes, him, hall⟩ := ih h
    exact ⟨hafter₁.trans hafter, r.write chunks :: writes, him,
      .cons ⟨chunks, rfl, hstores.extend hafter⟩ hall⟩

/-- The writes are found as the regions are. -/
lemma find?_linked {rs : List PreparedRegion} {writes : List RegionWrite}
    (h : List.Forall₂ (fun r w => ∃ chunks, w = PreparedRegion.write r chunks ∧
      Stores c s chunks r.body.stored) rs writes) (type : RegionType) :
    (rs.find? (·.type = type) = none ∧ writes.find? (·.fbType = type) = none) ∨
      ∃ r chunks, rs.find? (·.type = type) = some r ∧
        writes.find? (·.fbType = type) = some (r.write chunks) ∧
        Stores c s chunks r.body.stored := by
  induction h with
  | nil => exact .inl ⟨rfl, rfl⟩
  | @cons r w rs writes hr _ ih =>
    obtain ⟨chunks, rfl, hstores⟩ := hr
    by_cases ht : r.type = type
    · exact .inr ⟨r, chunks, List.find?_cons_of_pos (decide_eq_true ht),
        List.find?_cons_of_pos (decide_eq_true ht), hstores⟩
    · rw [List.find?_cons_of_neg (by rw [decide_eq_true_eq]; exact ht),
        List.find?_cons_of_neg (by rw [decide_eq_true_eq]; exact ht)]
      exact ih

end Stored

/-! ### Reading a linked file -/

section Reading

variable {Identity Seed S : Type} {x : Externals Identity Seed} {amb : Ambient Seed}
  {c : ChunkStore S} {s s' : S} {f : SealedFile} {rows : List TocRegionSpec}
  {writes : List RegionWrite}

/-- A region whose body is in the store comes back. -/
lemma read_linked (hx : x.RoundTrip) (h : f.Holds x rows writes) {seed : Seed} {plaintext : Bytes}
    {compression : CompressionCodec} {identity : Option Identity} {r : PreparedRegion}
    {chunks : List TocChunkSpec}
    (hbody : prepareRegionBody x seed plaintext compression identity = .ok r.body)
    (hfind : writes.find? (·.fbType = r.type) = some (r.write chunks))
    (hstores : Stores c s chunks r.body.stored) :
    ∃ entry, f.findRegion x r.type = .ok entry ∧ entry.name = r.name ∧
      entry.contentType = r.contentType ∧
      c.Gives s (linkedRegionPlaintext x c f s r.type identity) plaintext := by
  obtain ⟨row, hrow, hplaced⟩ := h.findRegion hfind
  obtain ⟨hcompression, hdecode⟩ := decodeRegionBody_prepare hx hbody
  have hstorage : row.table.storage = StorageMode.linked :=
    congrArg TocRegionSpec.storage hplaced.row_eq
  have hchunks : row.chunks = chunks := congrArg TocRegionSpec.chunks hplaced.row_eq
  refine ⟨row.table, hrow, congrArg TocRegionSpec.name hplaced.row_eq,
    congrArg TocRegionSpec.contentType hplaced.row_eq, ?_⟩
  rw [linkedRegionPlaintext, hrow]
  show c.Gives s (if row.table.storage ≠ StorageMode.linked then _ else _) _
  rw [if_neg (not_not.mpr hstorage)]
  refine (gatherChunks_stores (hchunks.symm ▸ hstores)).bind ?_
  rw [SealedFile.decode_row hplaced]
  show decodeRegionBody x r.body.stored r.body.compression _ _ _ = _
  rw [hcompression]
  exact hdecode

/-- The regions of a linked file are found in front of its version history. -/
lemma read_region (hx : x.RoundTrip) {history : RegionWrite}
    (h : f.Holds x rows (writes ++ [history])) {rs : List PreparedRegion}
    (hall : List.Forall₂ (fun r w => ∃ chunks, w = PreparedRegion.write r chunks ∧
      Stores c s chunks r.body.stored) rs writes) {seed : Seed} {plaintext : Bytes}
    {compression : CompressionCodec} {identity : Option Identity} {r : PreparedRegion}
    (hr : rs.find? (·.type = r.type) = some r)
    (hbody : prepareRegionBody x seed plaintext compression identity = .ok r.body) :
    ∃ entry, f.findRegion x r.type = .ok entry ∧ entry.name = r.name ∧
      entry.contentType = r.contentType ∧
      c.Gives s (linkedRegionPlaintext x c f s r.type identity) plaintext := by
  rcases find?_linked hall r.type with ⟨hnone, -⟩ | ⟨r', chunks, hr', hw, hstores⟩
  · rw [hr] at hnone
    cases hnone
  · obtain rfl : r = r' := Option.some.inj (hr.symm.trans hr')
    refine read_linked hx h hbody ?_ hstores
    rw [List.find?_append, hw]
    rfl

/-- What a linked file reads as, as far as the store gives its chunks. -/
structure LinkedReads (x : Externals Identity Seed) (c : ChunkStore S) (s : S)
    (req : LinkedCreateRequest Identity) (f : SealedFile) : Prop where
  raw : c.Gives s (linkedRegionPlaintext x c f s RegionType.raw req.encryptWith) req.raw
  labels : rawLabels x f = (req.rawName, req.rawContentType)
  cleanText : c.Gives s (linkedRegionPlaintext x c f s RegionType.cleanText req.encryptWith)
    req.cleanText
  structured : c.Gives s (linkedRegionPlaintext x c f s RegionType.structured req.encryptWith)
    req.structured
  embeddings : ∀ e, req.embeddings = some e → e.Encodable ∧
    c.Gives s (linkedRegionPlaintext x c f s RegionType.embedding req.encryptWith) e.bytes
  no_embeddings : req.embeddings = none →
    linkedRegionPlaintext x c f s RegionType.embedding req.encryptWith =
      .error (.regionNotFound RegionType.embedding)

lemma linked_reads (hx : x.RoundTrip) (hc : c.Keeps) {req : LinkedCreateRequest Identity}
    {bytes : Bytes} (h : buildLinkedBytes x amb c s req = .ok (s', bytes)) :
    ∃ f, SealedFile.fromMmap x bytes = .ok f ∧ f.header = .new (req.fileUuid.getD amb.newUuid)
      (req.createdUnixMs.getD amb.nowUnixMs) req.caps ∧ LinkedReads x c s' req f := by
  rw [buildLinkedBytes] at h
  obtain ⟨prepared, hprepared, h⟩ := bind_eq_ok h
  obtain ⟨⟨s₁, im⟩, happend, h⟩ := bind_eq_ok h
  obtain ⟨bytes', hfinish, h⟩ := bind_eq_ok h
  cases h
  obtain ⟨-, writes, rfl, hall⟩ := appendLinkedRegions_spec hc happend
  generalize hhistory : versionHistoryWrite x _ = history at hfinish
  have hlast : history.fbType = RegionType.versionHistory := by
    rw [← hhistory]
    rfl
  have hfoldl : ∀ im : Image, appendRegion (writes.foldl appendRegion im) history =
      (writes ++ [history]).foldl appendRegion im := by
    intro im
    rw [List.foldl_append]
    rfl
  rw [hfoldl] at hfinish
  obtain ⟨f, rows, hopen, hheader, hholds, -⟩ := SealedFile.holds_of_writes hx hfinish
  rw [LinkedCreateRequest.prepared] at hprepared
  obtain ⟨raw, hraw, hprepared⟩ := bind_eq_ok hprepared
  obtain ⟨clean, hclean, hprepared⟩ := bind_eq_ok hprepared
  obtain ⟨structured, hstructured, hprepared⟩ := bind_eq_ok hprepared
  obtain ⟨embeddings, hembeddings, hprepared⟩ := bind_eq_ok hprepared
  cases hprepared
  obtain ⟨entry, hentry, hname, hctype, hrawRead⟩ := @read_region _ _ _ _ c s' _ _ _ hx _
    hholds _ hall _ _ _ _ ⟨RegionType.raw, raw, req.rawName, req.rawContentType⟩ rfl hraw
  obtain ⟨-, -, -, -, hcleanRead⟩ := @read_region _ _ _ _ c s' _ _ _ hx _
    hholds _ hall _ _ _ _ ⟨RegionType.cleanText, clean, some "clean-text", none⟩ rfl hclean
  obtain ⟨-, -, -, -, hstructuredRead⟩ := @read_region _ _ _ _ c s' _ _ _ hx _
    hholds _ hall _ _ _ _ ⟨RegionType.structured, structured, some "structured", none⟩ rfl
    hstructured
  refine ⟨f, hopen, hheader, hrawRead, ?_, hcleanRead, hstructuredRead, fun e he => ?_,
    fun he => ?_⟩
  · rw [rawLabels, hentry]
    exact Prod.ext hname hctype
  · rw [LinkedCreateRequest.embeddingRegions, he] at hembeddings
    obtain ⟨b, hb, hembeddings⟩ := bind_eq_ok hembeddings
    obtain ⟨body, hbody, hembeddings⟩ := bind_eq_ok hembeddings
    cases hembeddings
    obtain ⟨henc, rfl⟩ := EmbeddingPayload.encode_eq_ok.mp hb
    obtain ⟨-, -, -, -, hread⟩ := @read_region _ _ _ _ c s' _ _ _ hx _ hholds _ hall _ _ _ _
      ⟨RegionType.embedding, body, some "embeddings", some embeddingHierF32V1⟩ rfl hbody
    exact ⟨henc, hread⟩
  · rw [LinkedCreateRequest.embeddingRegions, he] at hembeddings
    cases hembeddings
    rcases find?_linked hall RegionType.embedding with ⟨-, hnone⟩ | ⟨r, chunks, hr, -⟩
    · have hfind : (writes ++ [history]).find? (·.fbType = RegionType.embedding) = none := by
        rw [List.find?_append, hnone, Option.none_or,
          List.find?_cons_of_neg (by rw [decide_eq_true_eq, hlast]; decide)]
        rfl
      rw [linkedRegionPlaintext, hholds.findRegion_none hfind]
      rfl
    · cases hr

end Reading

/-! ### Repacking -/

section Repacking

variable {Identity Seed S : Type} {x : Externals Identity Seed} {amb amb' : Ambient Seed}
  {c : ChunkStore S} {s s' : S} {identity : Option Identity} {f f' : SealedFile}

/-- The two files read the same and have the same flags. -/
structure SameContent (x : Externals Identity Seed) (identity : Option Identity)
    (f f' : SealedFile) : Prop where
  raw : f'.raw x identity = f.raw x identity
  cleanText : f'.cleanText x identity = f.cleanText x identity
  structured : f'.structured x identity = f.structured x identity
  structuredType : (f'.findRegion x RegionType.structured).map RegionEntry.contentType =
    (f.findRegion x RegionType.structured).map RegionEntry.contentType
  structuredCrdt : (f'.structuredCrdt x identity).toOption = (f.structuredCrdt x identity).toOption
  embeddings : (f'.embeddings x identity).toOption = (f.embeddings x identity).toOption
  provenance : (f'.provenanceCarrier x).toOption = (f.provenanceCarrier x).toOption
  capabilityFlags : f'.header.capabilityFlags = f.header.capabilityFlags

/-- The file has nothing that a repacked file does not have. -/
structure Portable (x : Externals Identity Seed) (identity : Option Identity) (f : SealedFile) :
    Prop where
  structuredType : ∀ entry, f.findRegion x RegionType.structured = .ok entry →
    entry.contentType = some structuredSnapshotV1
  no_provenance : ∀ carrier, f.provenanceCarrier x ≠ .ok carrier
  capabilityFlags : f.header.capabilityFlags =
    (if identity.isSome then Capability.encrypted else 0) |||
      (if (f.embeddings x identity).toOption.isSome then Capability.embeddings else 0)

lemma toOption_eq_none_iff {α : Type} {p : Result α} : p.toOption = none ↔ ∀ a, p ≠ .ok a := by
  cases p with
  | error e => simp [Except.toOption]
  | ok a => simp [Except.toOption]

lemma structuredCrdt_of_snapshot {entry : RegionEntry}
    (h : f.findRegion x RegionType.structured = .ok entry)
    (hctype : entry.contentType = some structuredSnapshotV1) :
    (f.structuredCrdt x identity).toOption = none := by
  have hget : entry.contentType.getD "" ≠ structuredCrdtV1 := by
    rw [hctype]
    decide
  rw [SealedFile.structuredCrdt, h]
  show Except.toOption (if entry.contentType.getD "" ≠ structuredCrdtV1 then _ else _) = _
  rw [if_pos hget]
  rfl

/-- The embeddings of the file, if it has any, can be read from the linked one. -/
def EmbeddingsRead (x : Externals Identity Seed) (c : ChunkStore S) (identity : Option Identity)
    (s : S) (f l : SealedFile) : Prop :=
  (f.embeddings x identity).toOption.isSome →
    (linkedRegionPlaintext x c l s RegionType.embedding identity).toOption.isSome

/-- What was decoded has few enough records to be counted. -/
lemma count_of_embeddings {e : EmbeddingPayload} (h : f.embeddings x identity = .ok e) :
    e.records.length < 2 ^ 32 := by
  obtain ⟨bytes, -, hdecode⟩ := bind_eq_ok h
  obtain ⟨-, -, -, hcount, -⟩ := EmbeddingPayload.decode_eq_ok hdecode
  exact hcount

/-- The way to a linked file and back gives the request that the regions of the file make. -/
lemma exists_request (hx : x.RoundTrip) (hc : c.Keeps) {bytes linked bytes' : Bytes}
    (hopen : SealedFile.fromMmap x bytes = .ok f)
    (hlinked : sealedToLinked x amb c identity s bytes = .ok (s', linked))
    (hback : linkedToSealed x amb' c identity s' linked = .ok bytes') :
    ∃ (l : SealedFile) (req : SealedCreateRequest Identity),
      SealedFile.fromMmap x linked = .ok l ∧ buildSealedBytes x amb' req = .ok bytes' ∧
      f.raw x identity = .ok req.raw ∧ f.cleanText x identity = .ok req.cleanText ∧
      f.structured x identity = .ok req.structured ∧ req.structuredContentType = none ∧
      req.structuredCrdt = none ∧ req.encryptWith = identity ∧ req.signC2pa = false ∧
      (∀ e, req.embeddings = some e → f.embeddings x identity = .ok e) ∧
      (req.embeddings = (f.embeddings x identity).toOption ↔
        EmbeddingsRead x c identity s' f l) := by
  rw [sealedToLinked] at hlinked
  obtain ⟨f₁, hf, hlinked⟩ := bind_eq_ok hlinked
  obtain rfl : f = f₁ := Except.ok.inj (hopen.symm.trans hf)
  obtain ⟨raw, hraw, hlinked⟩ := bind_eq_ok hlinked
  obtain ⟨clean, hclean, hlinked⟩ := bind_eq_ok hlinked
  obtain ⟨structured, hstructured, hlinked⟩ := bind_eq_ok hlinked
  obtain ⟨toc, -, hlinked⟩ := bind_eq_ok hlinked
  obtain ⟨l, hl, -, hreads⟩ := linked_reads hx hc hlinked
  rw [linkedToSealed] at hback
  obtain ⟨l', hl', hback⟩ := bind_eq_ok hback
  obtain rfl : l = l' := Except.ok.inj (hl.symm.trans hl')
  obtain ⟨raw', hraw', hback⟩ := bind_eq_ok hback
  obtain ⟨clean', hclean', hback⟩ := bind_eq_ok hback
  obtain ⟨structured', hstructured', hback⟩ := bind_eq_ok hback
  obtain rfl : raw' = raw := hreads.raw.eq_of_ok hraw'
  obtain rfl : clean' = clean := hreads.cleanText.eq_of_ok hclean'
  obtain rfl : structured' = structured := hreads.structured.eq_of_ok hstructured'
  refine ⟨l, _, hl, hback, hraw, hclean, hstructured, rfl, rfl, rfl, rfl, ?_⟩
  unfold EmbeddingsRead
  dsimp only
  cases he : f.embeddings x identity with
  | error err =>
    have hread : linkedRegionPlaintext x c l s' RegionType.embedding identity = _ :=
      hreads.no_embeddings (by rw [he]; rfl)
    rw [hread]
    exact ⟨fun e he => (by cases he), iff_of_true rfl fun h => (by cases h)⟩
  | ok e =>
    obtain ⟨henc, hgives⟩ := hreads.embeddings e (by rw [he]; rfl)
    have hgives : c.Gives s' (linkedRegionPlaintext x c l s' RegionType.embedding identity)
      e.bytes := hgives
    cases hread : linkedRegionPlaintext x c l s' RegionType.embedding identity with
    | error err =>
      refine ⟨fun e he => (by cases he), iff_of_false (fun h => by cases h) fun h => ?_⟩
      exact Bool.false_ne_true (h rfl)
    | ok b =>
      obtain rfl := hgives.eq_of_ok hread
      have hdecode : Option.bind (Except.ok e.bytes : Result Bytes).toOption
          (fun bytes => (EmbeddingPayload.decode bytes).toOption) = some e := by
        show (EmbeddingPayload.decode e.bytes).toOption = some e
        rw [(EmbeddingPayload.decode_bytes_iff henc).mpr (count_of_embeddings he)]
        rfl
      rw [hdecode]
      exact ⟨fun e' he' => congrArg Except.ok (Option.some.inj he'), iff_of_true rfl fun _ => rfl⟩

/-- What is left of a file that was repacked and repacked back; `read` tells whether its embeddings
were read. -/
structure Repacked (x : Externals Identity Seed) (identity : Option Identity) (read : Prop)
    (f f' : SealedFile) : Prop where
  raw : f'.raw x identity = f.raw x identity
  cleanText : f'.cleanText x identity = f.cleanText x identity
  structured : f'.structured x identity = f.structured x identity
  structured_row : ∃ entry, f.findRegion x RegionType.structured = .ok entry
  structuredType : ∃ entry, f'.findRegion x RegionType.structured = .ok entry ∧
    entry.contentType = some structuredSnapshotV1
  embeddings : (f'.embeddings x identity).toOption = (f.embeddings x identity).toOption ↔ read
  no_provenance : (f'.provenanceCarrier x).toOption = none
  capabilityFlags : f'.header.capabilityFlags =
    (if identity.isSome then Capability.encrypted else 0) |||
      (if (f'.embeddings x identity).toOption.isSome then Capability.embeddings else 0)

lemma exists_repackedFile (hx : x.RoundTrip) (hc : c.Keeps) {bytes linked bytes' : Bytes}
    (hopen : SealedFile.fromMmap x bytes = .ok f)
    (hlinked : sealedToLinked x amb c identity s bytes = .ok (s', linked))
    (hback : linkedToSealed x amb' c identity s' linked = .ok bytes') :
    ∃ l f', SealedFile.fromMmap x linked = .ok l ∧ SealedFile.fromMmap x bytes' = .ok f' ∧
      Repacked x identity (EmbeddingsRead x c identity s' f l) f f' := by
  obtain ⟨l, req, hl, hbuild, hraw, hclean, hstructured, hctype, hcrdt, rfl, hsign, hemb, hread⟩ :=
    exists_request hx hc hopen hlinked hback
  obtain ⟨f', p, rows, hopen', hp, hheader, hholds⟩ := exists_holds hx hbuild
  have hcarried : req.Carried := by
    refine ⟨fun doc hdoc => ?_, fun e he => ?_⟩
    · rw [hcrdt] at hdoc
      cases hdoc
    · exact count_of_embeddings (hemb e he)
  have hgives := (givesBack_iff hx hp hholds hheader).mpr hcarried
  obtain ⟨entry', hentry', htype'⟩ := hgives.structured_row hcrdt
  rw [hctype] at htype'
  obtain ⟨entry, hentry, -⟩ := bind_eq_ok hstructured
  have hback : (f'.embeddings x req.encryptWith).toOption = req.embeddings := by
    cases he : req.embeddings with
    | none =>
      rw [hgives.no_embeddings he]
      rfl
    | some e =>
      rw [hgives.embeddings e he]
      rfl
  refine ⟨l, f', hl, hopen', hgives.raw.trans hraw.symm, hgives.cleanText.trans hclean.symm,
    (hgives.structured hcrdt).trans hstructured.symm, ⟨entry, hentry⟩,
    ⟨entry', hentry', htype'⟩, ?_, ?_, ?_⟩
  · rw [hback]
    exact hread
  · rw [hgives.no_carrier hsign]
    rfl
  · rw [hheader, hback]
    show req.caps = _
    rw [SealedCreateRequest.caps, hsign, hcrdt]
    cases req.encryptWith <;> cases req.embeddings <;> rfl

lemma Repacked.sameContent_iff {read : Prop} (h : Repacked x identity read f f') :
    SameContent x identity f f' ↔ Portable x identity f ∧ read := by
  obtain ⟨entry, hentry⟩ := h.structured_row
  obtain ⟨entry', hentry', htype'⟩ := h.structuredType
  constructor
  · intro hsame
    refine ⟨⟨fun e he => ?_, ?_, ?_⟩, h.embeddings.mp hsame.embeddings⟩
    · have htypes := hsame.structuredType
      rw [hentry', he] at htypes
      exact (Except.ok.inj htypes).symm.trans htype'
    · exact toOption_eq_none_iff.mp (hsame.provenance.symm.trans h.no_provenance)
    · rw [← hsame.embeddings]
      exact hsame.capabilityFlags.symm.trans h.capabilityFlags
  · rintro ⟨hportable, hread⟩
    have htype := hportable.structuredType entry hentry
    have hemb := h.embeddings.mpr hread
    refine ⟨h.raw, h.cleanText, h.structured, ?_, ?_, hemb, ?_, ?_⟩
    · rw [hentry', hentry]
      exact congrArg Except.ok (htype'.trans htype.symm)
    · rw [structuredCrdt_of_snapshot hentry' htype', structuredCrdt_of_snapshot hentry htype]
    · rw [h.no_provenance, toOption_eq_none_iff.mpr hportable.no_provenance]
    · rw [h.capabilityFlags, hemb, hportable.capabilityFlags]

/-- A file that was repacked and repacked back is the same exactly if its structured content is a
snapshot, it has no provenance and no flags beside those of its identity and its embeddings, and the
store still gives the chunks of the embeddings, if there are any. -/
theorem linked_and_back_iff (hx : x.RoundTrip) (hc : c.Keeps) {bytes linked bytes' : Bytes}
    (hopen : SealedFile.fromMmap x bytes = .ok f)
    (hlinked : sealedToLinked x amb c identity s bytes = .ok (s', linked))
    (hback : linkedToSealed x amb' c identity s' linked = .ok bytes') :
    (∃ f', SealedFile.fromMmap x bytes' = .ok f' ∧ SameContent x identity f f') ↔
      Portable x identity f ∧ ∀ l, SealedFile.fromMmap x linked = .ok l →
        EmbeddingsRead x c identity s' f l := by
  obtain ⟨l, f', hl, hopen', hrepacked⟩ := exists_repackedFile hx hc hopen hlinked hback
  constructor
  · rintro ⟨f'', hopen'', hsame⟩
    obtain rfl := Except.ok.inj (hopen'.symm.trans hopen'')
    obtain ⟨hportable, hread⟩ := hrepacked.sameContent_iff.mp hsame
    refine ⟨hportable, fun l' hl' => ?_⟩
    obtain rfl := Except.ok.inj (hl.symm.trans hl')
    exact hread
  · rintro ⟨hportable, hread⟩
    exact ⟨f', hopen', hrepacked.sameContent_iff.mpr ⟨hportable, hread l hl⟩⟩

end Repacking

/-! ### A file on its way -/

def keptHash (i : U8) : Hash := List.Vector.replicate 32 i

/-- A store for the empty chunk and one other. -/
def keepingStore (b : Bytes) : ChunkStore Unit where
  put _ d :=
    if d = [] then .ok ((), keptHash 0)
    else if d = b then .ok ((), keptHash 1)
    else .error (.io "full")
  get _ h := if h = keptHash 1 then .ok b else .ok []
  chunkBytes d := [d]

lemma get_keepingStore (b : Bytes) (h : Hash) : (keepingStore b).get () h =
    if h = keptHash 1 then .ok b else .ok [] := rfl

lemma Gives.of_keepingStore {α : Type} {b : Bytes} {r : Result α} {a : α}
    (h : (keepingStore b).Gives () r a) : r = .ok a := by
  rcases h with h | ⟨-, k, e, hk⟩
  · exact h
  · rw [get_keepingStore] at hk
    split_ifs at hk

lemma keeps_keepingStore (b : Bytes) : (keepingStore b).Keeps where
  stored := by
    intro s s' t d h d' hput _ hget
    have hget : (if h = keptHash 1 then .ok b else .ok [] : Result Bytes) = .ok d' := hget
    have heq : (if d = [] then .ok ((), keptHash 0) else if d = b then .ok ((), keptHash 1)
      else .error (.io "full") : Result (Unit × Hash)) = .ok (s', h) := hput
    split_ifs at heq with h₀ h₁
    · cases heq
      have hne : keptHash 0 ≠ keptHash 1 := by decide
      rw [if_neg hne] at hget
      exact (Except.ok.inj hget).symm.trans h₀.symm
    · cases heq
      rw [if_pos rfl] at hget
      exact (Except.ok.inj hget).symm.trans h₁.symm
  flatten := fun b => List.flatten_singleton

/-- A Structured region under a content type of its own. -/
def typedRequest (b : Bytes) (ctype : Option String) : SealedCreateRequest Unit :=
  { structured := b, structuredContentType := ctype }

/-- What the file is repacked from. -/
def keptLinkedRequest (b : Bytes) : LinkedCreateRequest Unit where
  fileUuid := some fixedAmbient.newUuid
  createdUnixMs := some fixedAmbient.nowUnixMs
  generation := nextGeneration 1
  parentGeneration := 1
  structured := b

def keptRegions (b : Bytes) : List PreparedRegion :=
  [⟨RegionType.raw, keptBody [] CompressionCodec.none, none, none⟩,
    ⟨RegionType.cleanText, keptBody [] CompressionCodec.zstd, some "clean-text", none⟩,
    ⟨RegionType.structured, keptBody b CompressionCodec.zstd, some "structured", none⟩]

lemma putChunks_nil (b : Bytes) :
    putChunks (keepingStore b) () [] = .ok ((), [⟨keptHash 0, toU64 0⟩]) := rfl

lemma putChunks_kept {b : Bytes} (hb : b ≠ []) :
    putChunks (keepingStore b) () b = .ok ((), [⟨keptHash 1, toU64 b.length⟩]) := by
  have hput : (keepingStore b).put () b = .ok ((), keptHash 1) := (if_neg hb).trans (if_pos rfl)
  rw [putChunks, if_neg hb]
  show putAll (keepingStore b) () [b] = _
  rw [putAll, hput]
  rfl

/-- The empty regions, each with its chunk. -/
def keptWrites (b : Bytes) : List RegionWrite :=
  List.zipWith PreparedRegion.write (keptRegions b)
    [[⟨keptHash 0, toU64 0⟩], [⟨keptHash 0, toU64 0⟩], [⟨keptHash 1, toU64 b.length⟩]]

lemma appendLinkedRegions_kept {b : Bytes} (hb : b ≠ []) (im : Image) :
    appendLinkedRegions (keepingStore b) () im (keptRegions b) =
      .ok ((), (keptWrites b).foldl appendRegion im) := by
  simp only [keptRegions, appendLinkedRegions, keptBody, putChunks_nil, putChunks_kept hb, bind,
    Except.bind]
  rfl

lemma length_encodeVersionHistoryStub (generation parentGeneration : U64) (fileUuid : Uuid)
    (hashes : List Hash) :
    (encodeVersionHistoryStub generation parentGeneration fileUuid hashes).length =
      44 + 32 * hashes.length := by
  have hflat : (hashes.flatMap List.Vector.toList).length = 32 * hashes.length := by
    induction hashes with
    | nil => rfl
    | cons h hashes ih =>
      rw [List.flatMap_cons, List.length_append, ih, List.Vector.toList_length, List.length_cons]
      omega
  simp only [encodeVersionHistoryStub, List.length_flatten, List.map_cons, List.map_nil, length_le,
    List.Vector.toList_length, hflat, versionHistoryMagic, List.length_cons, List.length_nil,
    List.sum_cons, List.sum_nil]
  omega

/-- The linked file up to its version history. -/
def keptImage (b : Bytes) : Image :=
  (keptWrites b).foldl appendRegion ⟨(Header.new fixedAmbient.newUuid
    fixedAmbient.nowUnixMs (keptLinkedRequest b).caps).encode, []⟩

lemma length_keptImage (b : Bytes) : (keptImage b).buf.length ≤ 16423 := by
  refine (length_foldl_le _ _).trans ?_
  rw [Header.length_encode]
  have hsum : ((keptWrites b).map fun w => 4109 + w.payload.length).sum = 3 * 4109 := by
    simp [keptWrites, keptRegions, PreparedRegion.write]
  rw [hsum]
  decide

lemma hashes_keptImage (b : Bytes) : ((keptImage b).tocRegions.flatMap fun row =>
    row.chunks.map TocChunkSpec.blake3) = [keptHash 0, keptHash 0, keptHash 1] := rfl

/-- The linked file is written if its TOC is known. -/
lemma exists_linked {b : Bytes} (hb : b ≠ []) : ∃ t, ∀ ts, t ∈ ts → ∃ linked,
    buildLinkedBytes (keepingExternals ts) fixedAmbient (keepingStore b) ()
      (keptLinkedRequest b) = .ok ((), linked) := by
  obtain ⟨im, him⟩ : ∃ im, keptImage b = im := ⟨_, rfl⟩
  have hlength := length_keptImage b
  have hhashes := hashes_keptImage b
  rw [him] at hlength hhashes
  obtain ⟨hashes, hkept⟩ : ∃ hashes, [keptHash 0, keptHash 0, keptHash 1] = hashes := ⟨_, rfl⟩
  rw [hkept] at hhashes
  have hcount : hashes.length = 3 := by
    rw [← hkept]
    rfl
  obtain ⟨history, hhistory⟩ : ∃ history, encodeVersionHistoryStub (nextGeneration 1) 1
      fixedAmbient.newUuid hashes = history := ⟨_, rfl⟩
  have hlen : (appendRegion im (versionHistoryWrite (keepingExternals []) history)).buf.length <
      2 ^ 62 := by
    have hone := alignUp_le im.buf.length
    have hpayload : (versionHistoryWrite (keepingExternals []) history).payload.length = 140 := by
      show history.length = 140
      rw [← hhistory, length_encodeVersionHistoryStub, hcount]
    rw [length_appendRegion, hpayload]
    omega
  refine ⟨TocSpec.table ⟨nextGeneration 1, 1, fixedAmbient.newUuid, StorageMode.linked,
    (appendRegion im (versionHistoryWrite (keepingExternals []) history)).tocRegions⟩,
    fun ts ht => ?_⟩
  obtain ⟨linked, hlinked⟩ := exists_finished ht hlen
  have hprepared : (keptLinkedRequest b).prepared (keepingExternals ts) fixedAmbient =
      .ok (keptRegions b) := rfl
  refine ⟨linked, ?_⟩
  rw [buildLinkedBytes, hprepared]
  dsimp only [bind, Except.bind]
  rw [show (keptLinkedRequest b).fileUuid.getD fixedAmbient.newUuid = fixedAmbient.newUuid from rfl,
    show (keptLinkedRequest b).createdUnixMs.getD fixedAmbient.nowUnixMs = fixedAmbient.nowUnixMs
      from rfl, appendLinkedRegions_kept hb]
  rw [show (keptWrites b).foldl appendRegion _ = im from him]
  dsimp only
  rw [hhashes, show encodeVersionHistoryStub (keptLinkedRequest b).generation
    (keptLinkedRequest b).parentGeneration fixedAmbient.newUuid hashes = history from hhistory]
  show (finish (keepingExternals ts) (appendRegion im
    (versionHistoryWrite (keepingExternals []) history)) (nextGeneration 1) 1 fixedAmbient.newUuid
    StorageMode.linked >>= _) = _
  rw [hlinked]
  rfl

/-- What the linked file is repacked to. -/
def keptSealedRequest (b : Bytes) : SealedCreateRequest Unit where
  fileUuid := some fixedAmbient.newUuid
  createdUnixMs := some fixedAmbient.nowUnixMs
  structured := b

/-- The file is written, repacked and repacked back. -/
lemma exists_repacked {b : Bytes} (hb : b ≠ []) (hlen : b.length < 2 ^ 61)
    (ctype : Option String) :
    ∃ (x : Externals Unit Unit) (bytes linked bytes' : Bytes) (f : SealedFile), x.RoundTrip ∧
      SealedFile.fromMmap x bytes = .ok f ∧
      f.GivesBack x fixedAmbient (typedRequest b ctype) ∧
      sealedToLinked x fixedAmbient (keepingStore b) none () bytes = .ok ((), linked) ∧
      linkedToSealed x fixedAmbient (keepingStore b) none () linked = .ok bytes' := by
  obtain ⟨im₁, him₁, hlen₁⟩ :=
    @exists_image (typedRequest b ctype) (b, ctype.getD structuredSnapshotV1) hlen
  obtain ⟨t₂, hlinked⟩ := exists_linked hb
  obtain ⟨im₃, him₃, hlen₃⟩ := @exists_image (keptSealedRequest b) (b, structuredSnapshotV1) hlen
  obtain ⟨t₁, ht₁⟩ : ∃ t, TocSpec.table ⟨1, 0, fixedAmbient.newUuid, StorageMode.inline,
    im₁.tocRegions⟩ = t := ⟨_, rfl⟩
  obtain ⟨t₃, ht₃⟩ : ∃ t, TocSpec.table ⟨1, 0, fixedAmbient.newUuid, StorageMode.inline,
    im₃.tocRegions⟩ = t := ⟨_, rfl⟩
  have hx := @roundTrip_keepingExternals [t₁, t₂, t₃] (by show 3 ≤ 256; decide)
  have hmem₁ : t₁ ∈ [t₁, t₂, t₃] := List.mem_cons_self
  have hmem₂ : t₂ ∈ [t₁, t₂, t₃] := List.mem_cons_of_mem _ List.mem_cons_self
  have hmem₃ : t₃ ∈ [t₁, t₂, t₃] :=
    List.mem_cons_of_mem _ (List.mem_cons_of_mem _ List.mem_cons_self)
  obtain ⟨linked, hlinked⟩ := hlinked _ hmem₂
  generalize [t₁, t₂, t₃] = ts at hx hmem₁ hmem₃ hlinked
  rw [← ht₁] at hmem₁
  rw [← ht₃] at hmem₃
  have hparts₁ : (keptParts (b, ctype.getD structuredSnapshotV1)).Of (keepingExternals ts)
      fixedAmbient (typedRequest b ctype) := keptParts_of rfl rfl rfl rfl rfl rfl
  have hparts₃ : (keptParts (b, structuredSnapshotV1)).Of (keepingExternals ts) fixedAmbient
      (keptSealedRequest b) := keptParts_of rfl rfl rfl rfl rfl rfl
  obtain ⟨bytes, hbytes⟩ := exists_finished hmem₁ hlen₁
  obtain ⟨bytes', hbytes'⟩ := exists_finished hmem₃ hlen₃
  have hbuild : buildSealedBytes (keepingExternals ts) fixedAmbient (typedRequest b ctype) =
      .ok bytes := by
    rw [buildSealedBytes_eq hparts₁, him₁]
    exact hbytes
  obtain ⟨f, rows, hopen, hheader, hholds, hgeneration⟩ := hparts₁.holds hx hbuild
  have hgives : f.GivesBack (keepingExternals ts) fixedAmbient (typedRequest b ctype) :=
    (givesBack_iff hx hparts₁ hholds hheader).mpr
      ⟨fun doc hdoc => (by cases hdoc), fun e he => (by cases he)⟩
  refine ⟨keepingExternals ts, bytes, linked, bytes', f, hx, hopen, hgives, ?_, ?_⟩
  · have hraw : f.raw (keepingExternals ts) none = .ok [] := hgives.raw
    have hclean : f.cleanText (keepingExternals ts) none = .ok [] := hgives.cleanText
    have hstructured : f.structured (keepingExternals ts) none = .ok b := hgives.structured rfl
    have hemb : (f.embeddings (keepingExternals ts) none).toOption = none :=
      congrArg Except.toOption (hgives.no_embeddings rfl)
    have hlabels : rawLabels (keepingExternals ts) f = (none, none) := by
      obtain ⟨entry, hentry, hname, htype⟩ := hgives.raw_row
      rw [rawLabels, hentry]
      exact Prod.ext hname htype
    cases htoc : f.toc (keepingExternals ts) with
    | error e =>
      rw [htoc] at hgeneration
      cases hgeneration
    | ok toc =>
      rw [htoc] at hgeneration
      have hone : toc.generation = 1 := Except.ok.inj hgeneration
      rw [sealedToLinked, hopen]
      dsimp only [bind, Except.bind]
      rw [hraw, hclean, hstructured, htoc]
      dsimp only
      rw [hemb, hlabels, hone, hheader]
      exact hlinked
  · obtain ⟨l, hl, hlheader, hreads⟩ := linked_reads hx (keeps_keepingStore b) hlinked
    have hraw : linkedRegionPlaintext (keepingExternals ts) (keepingStore b) l () RegionType.raw
      none = .ok [] := Gives.of_keepingStore hreads.raw
    have hclean : linkedRegionPlaintext (keepingExternals ts) (keepingStore b) l ()
      RegionType.cleanText none = .ok [] := Gives.of_keepingStore hreads.cleanText
    have hstructured : linkedRegionPlaintext (keepingExternals ts) (keepingStore b) l ()
      RegionType.structured none = .ok b := Gives.of_keepingStore hreads.structured
    have hemb : (linkedRegionPlaintext (keepingExternals ts) (keepingStore b) l ()
      RegionType.embedding none).toOption = none :=
      congrArg Except.toOption (hreads.no_embeddings rfl)
    rw [linkedToSealed, hl]
    dsimp only [bind, Except.bind]
    rw [hraw, hclean, hstructured]
    dsimp only
    rw [hemb, hreads.labels, hlheader]
    show buildSealedBytes (keepingExternals ts) fixedAmbient (keptSealedRequest b) = .ok bytes'
    rw [buildSealedBytes_eq hparts₃, him₃]
    exact hbytes'

/-- A snapshot comes back. -/
theorem linked_and_back_snapshot : ∃ (x : Externals Unit Unit) (bytes linked bytes' : Bytes)
    (f f' : SealedFile), SealedFile.fromMmap x bytes = .ok f ∧
      sealedToLinked x fixedAmbient (keepingStore [7]) none () bytes = .ok ((), linked) ∧
      linkedToSealed x fixedAmbient (keepingStore [7]) none () linked = .ok bytes' ∧
      SealedFile.fromMmap x bytes' = .ok f' ∧ SameContent x none f f' := by
  obtain ⟨x, bytes, linked, bytes', f, hx, hopen, hgives, hlinked, hback⟩ :=
    @exists_repacked [7] (List.cons_ne_nil _ _) (by decide) none
  have hemb : (f.embeddings x none).toOption = none :=
    congrArg Except.toOption (hgives.no_embeddings rfl)
  have hportable : Portable x none f := by
    obtain ⟨entry, hentry, htype⟩ := hgives.structured_row rfl
    refine ⟨fun e he => ?_, fun carrier hcarrier => ?_, ?_⟩
    · obtain rfl := Except.ok.inj (hentry.symm.trans he)
      exact htype
    · rw [hgives.no_carrier rfl] at hcarrier
      cases hcarrier
    · rw [hgives.header, hemb]
      rfl
  have hread (l : SealedFile) : EmbeddingsRead x (keepingStore [7]) none () f l := fun h => by
    rw [hemb] at h
    cases h
  obtain ⟨f', hopen', hsame⟩ := (linked_and_back_iff hx (keeps_keepingStore [7]) hopen hlinked
    hback).mpr ⟨hportable, fun l _ => hread l⟩
  exact ⟨x, bytes, linked, bytes', f, f', hopen, hlinked, hback, hopen', hsame⟩

/-- A CRDT document that was repacked is a snapshot. -/
theorem not_linked_and_back : ¬ ∀ (x : Externals Unit Unit) (amb amb' : Ambient Unit)
    (c : ChunkStore Unit) (identity : Option Unit) (s s' : Unit) (bytes linked bytes' : Bytes)
    (f : SealedFile), x.RoundTrip → c.Keeps → SealedFile.fromMmap x bytes = .ok f →
      sealedToLinked x amb c identity s bytes = .ok (s', linked) →
      linkedToSealed x amb' c identity s' linked = .ok bytes' →
      ∃ f', SealedFile.fromMmap x bytes' = .ok f' ∧ SameContent x identity f f' := by
  intro h
  have hlen := length_payload_oneInsert ['a']
  have hne : payload (oneInsert ['a']) ≠ [] := by
    intro hnil
    rw [hnil] at hlen
    cases hlen
  obtain ⟨x, bytes, linked, bytes', f, hx, hopen, hgives, hlinked, hback⟩ :=
    @exists_repacked (payload (oneInsert ['a'])) hne (by rw [hlen]; decide)
      (some structuredCrdtV1)
  have hc := keeps_keepingStore (payload (oneInsert ['a']))
  obtain ⟨f', hopen', hsame⟩ := h x _ _ _ none () () bytes linked bytes' f hx hc hopen hlinked hback
  obtain ⟨l, f'', -, hopen'', hrepacked⟩ := exists_repackedFile hx hc hopen hlinked hback
  obtain rfl := Except.ok.inj (hopen'.symm.trans hopen'')
  obtain ⟨entry', hentry', htype'⟩ := hrepacked.structuredType
  obtain ⟨entry, hentry, htype⟩ := hgives.structured_row rfl
  have htypes := hsame.structuredType
  rw [hentry', hentry] at htypes
  have heq : entry'.contentType = entry.contentType := Except.ok.inj htypes
  rw [htype', htype] at heq
  revert heq
  decide

end Orchid.Format
