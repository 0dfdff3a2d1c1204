import Orchid.Format.Reader

/-!
# Writer

A file is built from its header, its regions one after the other, the TOC and the footer.
-/

namespace Orchid.Format

open Lib Crdt

/-! ### Capabilities -/

namespace Capability

def linked : U64 := 1
def encrypted : U64 := 2
def crdt : U64 := 4
def embeddings : U64 := 8
def c2pa : U64 := 16

end Capability

/-! ### Requests -/

/-- Inputs for a sealed file. -/
structure SealedCreateRequest (Identity : Type) where
  fileUuid : Option Uuid := none
  createdUnixMs : Option U64 := none
  raw : Bytes := []
  rawContentType : Option String := none
  rawName : Option String := none
  cleanText : Bytes := []
  structured : Bytes := []
  structuredContentType : Option String := none
  structuredCrdt : Option CrdtDocument := none
  encryptWith : Option Identity := none
  signC2pa : Bool := false
  embeddings : Option EmbeddingPayload := none

/-- What a writer takes from its surroundings. -/
structure Ambient (Seed : Type) where
  newUuid : Uuid
  nowUnixMs : U64
  seed : RegionType → Seed

/-! ### Images -/

/-- A file under construction. -/
structure Image where
  buf : Bytes
  tocRegions : List TocRegionSpec

structure RegionWrite where
  typeId : U16
  fbType : RegionType
  payload : Bytes
  compression : CompressionCodec
  payloadBlake3 : Hash
  encryption : Option RegionEncryptionSpec
  name : Option String
  ordinal : U32
  contentType : Option String
  storage : StorageMode := StorageMode.inline
  chunks : List TocChunkSpec := []

/-- The row of a region in the TOC. -/
def RegionWrite.row (r : RegionWrite) (offset length : U64) : TocRegionSpec where
  type := r.fbType
  offset := offset
  length := length
  name := r.name
  ordinal := r.ordinal
  compression := r.compression
  storage := r.storage
  chunks := r.chunks
  encryption := r.encryption
  contentType := r.contentType
  payloadBlake3 := r.payloadBlake3

/-- Append the aligned mini-header and payload of a region, and its row. -/
def appendRegion (im : Image) (r : RegionWrite) : Image :=
  let buf := padToAlignment im.buf
  let offset := toU64 buf.length
  let length := toU64 r.payload.length
  { buf := buf ++ (RegionHeader.encode ⟨r.typeId, length⟩ ++ r.payload)
    tocRegions := im.tocRegions ++ [r.row offset length] }

variable {Identity Seed : Type} (x : Externals Identity Seed)

def buildToc (spec : TocSpec) : Result Bytes :=
  match x.finishTocBuffer spec.table with
  | some bytes => .ok bytes
  | none => .error .panicked

/-- The TOC and the footer. A `Vec` holds fewer than `2 ^ 63` bytes. -/
def finish (im : Image) (generation parentGeneration : U64) (fileUuid : Uuid)
    (defaultStorage : StorageMode) : Result Bytes := do
  let buf := padToAlignment im.buf
  let tocStart := toU64 buf.length
  let tocBytes ← buildToc x ⟨generation, parentGeneration, fileUuid, defaultStorage, im.tocRegions⟩
  let fileLenWithFooter := toU64 ((buf ++ tocBytes).length + footerSize)
  let footer : Footer := ⟨fileLenWithFooter - tocStart, x.hashBytes tocBytes⟩
  let bytes := buf ++ tocBytes ++ footer.encode
  if bytes.length < 2 ^ 63 then .ok bytes else .error .panicked

/-! ### Sealed files -/

/-- The signed carrier that asserts the Clean-Text. -/
def signCleanTextProvenance (seed : Seed) (cleanText : Bytes) (title : String) : Result Bytes :=
  (x.saveToStream seed title (x.hashBytes cleanText) cleanText.length).mapError .c2pa

variable (amb : Ambient Seed) (req : SealedCreateRequest Identity)

namespace SealedCreateRequest

def caps : U64 :=
  (if req.encryptWith.isSome then Capability.encrypted else 0) |||
    (if req.signC2pa then Capability.c2pa else 0) |||
    (if req.embeddings.isSome then Capability.embeddings else 0) |||
    (if req.structuredCrdt.isSome then Capability.crdt else 0)

/-- The carrier, if one is asked for. -/
def provenance : Result (Option Bytes) :=
  if req.signC2pa then
    (signCleanTextProvenance x (amb.seed RegionType.provenance) req.cleanText
      "Orchid document").map some
  else .ok none

def embeddingPlain : Result (Option Bytes) :=
  match req.embeddings with
  | some emb => emb.encode.map some
  | none => .ok none

/-- The bytes of the Structured region and their content type. -/
def structuredPlain : Result (Bytes × String) :=
  match req.structuredCrdt with
  | some doc => (encodeCrdtPayload doc).map fun bytes => (bytes, structuredCrdtV1)
  | none => .ok (req.structured, req.structuredContentType.getD structuredSnapshotV1)

end SealedCreateRequest

def PreparedRegionBody.write (body : PreparedRegionBody) (type : RegionType) (name : Option String)
    (contentType : Option String) : RegionWrite where
  typeId := type
  fbType := type
  payload := body.stored
  compression := body.compression
  payloadBlake3 := body.payloadBlake3
  encryption := body.encryption
  name := name
  ordinal := 0
  contentType := contentType

/-- Embeddings are not compressed. -/
def appendEmbeddings (im : Image) : Option Bytes → Result Image
  | none => .ok im
  | some embBytes => do
    let embBody ← prepareRegionBody x (amb.seed RegionType.embedding) embBytes CompressionCodec.none
      req.encryptWith
    return appendRegion im (embBody.write RegionType.embedding (some "embeddings")
      (some embeddingHierF32V1))

/-- Content type of the Provenance carrier. -/
def provenanceContentType : String := "image/png"

/-- The carrier is public and not compressed. -/
def appendProvenance (im : Image) : Option Bytes → Image
  | none => im
  | some carrier => appendRegion im {
      typeId := RegionType.provenance
      fbType := RegionType.provenance
      payload := carrier
      compression := CompressionCodec.none
      payloadBlake3 := x.hashBytes carrier
      encryption := none
      name := some "provenance"
      ordinal := 0
      contentType := some provenanceContentType }

def buildSealedBytes : Result Bytes := do
  let fileUuid := req.fileUuid.getD amb.newUuid
  let createdUnixMs := req.createdUnixMs.getD amb.nowUnixMs
  let identity := req.encryptWith
  let provenance ← req.provenance x amb
  let embeddingPlain ← req.embeddingPlain
  let (structuredPlain, structuredCtype) ← req.structuredPlain
  let rawBody ← prepareRegionBody x (amb.seed RegionType.raw) req.raw CompressionCodec.none identity
  let cleanBody ←
    prepareRegionBody x (amb.seed RegionType.cleanText) req.cleanText CompressionCodec.zstd identity
  let structuredBody ←
    prepareRegionBody x (amb.seed RegionType.structured) structuredPlain CompressionCodec.zstd
      identity
  let im : Image := ⟨(Header.new fileUuid createdUnixMs req.caps).encode, []⟩
  let im := appendRegion im (rawBody.write RegionType.raw req.rawName req.rawContentType)
  let im := appendRegion im
    (cleanBody.write RegionType.cleanText (some "clean-text") (some "text/plain; charset=utf-8"))
  let im := appendRegion im
    (structuredBody.write RegionType.structured (some "structured") (some structuredCtype))
  let im ← appendEmbeddings x amb req im embeddingPlain
  let im := appendProvenance x im provenance
  finish x im 1 0 fileUuid StorageMode.inline

end Orchid.Format
