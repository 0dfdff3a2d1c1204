import Orchid.Crdt.Wire
import Orchid.Format.Embedding
import Orchid.Format.Region

/-!
# Reader

Opening a file checks header, footer and TOC; regions are found by their type and decoded.
-/

namespace Orchid.Format

open Lib Crdt

/-! ### Content types -/

/-- Snapshot blob. -/
def structuredSnapshotV1 : String := "orchid.structured.snapshot.v1"

/-- CRDT document. -/
def structuredCrdtV1 : String := "orchid.structured.crdt.v1"

/-! ### Opening -/

/-- An opened file, with the range of its TOC. -/
structure SealedFile where
  mmap : Bytes
  header : Header
  tocStart : ℕ
  tocEnd : ℕ

variable {Identity Seed : Type} (x : Externals Identity Seed)

namespace SealedFile

def fromMmap (mmap : Bytes) : Result SealedFile :=
  if mmap.length < headerSize + footerSize then
    .error (.io "file too small for header+footer")
  else do
    let header ← Header.decode mmap
    let footer ← Footer.decode mmap
    if footer.tocOffsetFromEnd.val > mmap.length then
      .error (.invalidToc "toc_offset_from_end exceeds file size")
    else
      let tocStart := mmap.length - footer.tocOffsetFromEnd.val
      let tocEnd := mmap.length - footerSize
      if tocStart ≥ tocEnd then .error (.invalidToc "empty TOC range")
      else if tocStart % alignment ≠ 0 then .error (.invalidToc "TOC not 4 KiB aligned")
      else if x.hashBytes (slice mmap tocStart tocEnd) ≠ footer.tocBlake3 then
        .error .tocHashMismatch
      else do
        let _ ← (x.rootAsToc (slice mmap tocStart tocEnd)).mapError .invalidToc
        return ⟨mmap, header, tocStart, tocEnd⟩

variable (f : SealedFile)

def toc : Result Toc := (x.rootAsToc (slice f.mmap f.tocStart f.tocEnd)).mapError .invalidToc

/-! ### Regions -/

/-- The first region of a type. -/
def findRegion (type : RegionType) : Result RegionEntry := do
  let toc ← f.toc x
  match toc.regions with
  | none => .error (.invalidToc "missing regions")
  | some regions =>
    match regions.find? (·.type = type) with
    | some r => .ok r
    | none => .error (.regionNotFound type)

/-- Inline stored bytes of a region; a linked one has none. -/
def regionStoredBytes (entry : RegionEntry) : Result Bytes :=
  if entry.storage = StorageMode.linked then .ok []
  else
    let start := entry.offset.val + regionMiniHeaderSize
    if start + entry.length.val ≥ 2 ^ 64 then .error (.regionDecode "region extent overflow")
    else if start + entry.length.val > f.mmap.length then
      .error (.regionDecode "region extends past EOF")
    else do
      let _ ← RegionHeader.decode (f.mmap.drop entry.offset.val) entry.offset
      return slice f.mmap start (start + entry.length.val)

/-- Decrypted and decompressed. -/
def regionPlaintext (entry : RegionEntry) (identity : Option Identity) : Result Bytes :=
  if entry.storage = StorageMode.linked then
    .error (.unsupported "linked region; reassemble from ChunkStore first")
  else do
    let stored ← f.regionStoredBytes entry
    decodeRegionBody x stored entry.compression (entry.payloadBlake3.bind hashOfBytes)
      (entry.encryption.map encryptionFromToc) identity

variable (identity : Option Identity)

/-- The plaintext of the first region of a type. -/
def plaintext (type : RegionType) : Result Bytes := do
  let entry ← f.findRegion x type
  f.regionPlaintext x entry identity

def cleanText : Result Bytes := f.plaintext x identity RegionType.cleanText

def structured : Result Bytes := f.plaintext x identity RegionType.structured

def raw : Result Bytes := f.plaintext x identity RegionType.raw

def structuredCrdt : Result CrdtDocument := do
  let entry ← f.findRegion x RegionType.structured
  let ctype := entry.contentType.getD ""
  if ctype ≠ structuredCrdtV1 then
    let shown := ctype.quote
    .error (.regionDecode s!"structured content_type is {shown}, expected {structuredCrdtV1}")
  else do
    let bytes ← f.regionPlaintext x entry identity
    decodeCrdtPayload bytes

def embeddings : Result EmbeddingPayload := do
  let bytes ← f.plaintext x identity RegionType.embedding
  EmbeddingPayload.decode bytes

def provenanceCarrier : Result Bytes := f.plaintext x none RegionType.provenance

end SealedFile

end Orchid.Format
