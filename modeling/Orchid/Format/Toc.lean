import Orchid.Format.Framing

/-!
# Table of contents

The tables of the TOC as the generated accessors show them, and how they are built. Enumerations of
the schema are numbers: a file can hold any value.
-/

namespace Orchid.Format

/-! ### Enumerations -/

abbrev RegionType := U16

namespace RegionType

def raw : RegionType := 1
def cleanText : RegionType := 2
def structured : RegionType := 3
def embedding : RegionType := 4
def provenance : RegionType := 5
def versionHistory : RegionType := 6

end RegionType

abbrev CompressionCodec := U8

namespace CompressionCodec

def none : CompressionCodec := 0
def zstd : CompressionCodec := 1

end CompressionCodec

abbrev StorageMode := U8

namespace StorageMode

def inline : StorageMode := 0
def linked : StorageMode := 1

end StorageMode

/-! ### Tables -/

structure EncryptionInfo where
  ageHeader : Option Bytes
  plaintextBlake3 : Option Bytes
  identityKind : U8
  isPublic : Bool
deriving DecidableEq

structure ChunkRef where
  blake3 : Option Bytes
  size : U64
deriving DecidableEq

structure RegionEntry where
  type : RegionType
  offset : U64
  length : U64
  name : Option String
  ordinal : U32
  compression : CompressionCodec
  storage : StorageMode
  chunks : Option (List ChunkRef)
  encryption : Option EncryptionInfo
  contentType : Option String
  payloadBlake3 : Option Bytes
deriving DecidableEq

structure Toc where
  generation : U64
  parentGeneration : U64
  fileUuid : Option Bytes
  defaultStorage : StorageMode
  regions : Option (List RegionEntry)
  zstdDictBlake3 : Option Bytes
deriving DecidableEq

/-! ### Building -/

/-- TOC encryption row of a private region. -/
structure RegionEncryptionSpec where
  ageHeader : Bytes
  plaintextBlake3 : Hash
  identityKind : U8
  isPublic : Bool
deriving DecidableEq

/-- One chunk listed in a linked region. -/
structure TocChunkSpec where
  blake3 : Hash
  size : U64
deriving DecidableEq

/-- One region row to encode into the TOC. -/
structure TocRegionSpec where
  type : RegionType
  offset : U64
  length : U64
  name : Option String
  ordinal : U32
  compression : CompressionCodec
  storage : StorageMode
  chunks : List TocChunkSpec
  encryption : Option RegionEncryptionSpec
  contentType : Option String
  payloadBlake3 : Hash
deriving DecidableEq

/-- Logical TOC fields of a file. -/
structure TocSpec where
  generation : U64
  parentGeneration : U64
  fileUuid : Uuid
  defaultStorage : StorageMode
  regions : List TocRegionSpec
deriving DecidableEq

def RegionEncryptionSpec.table (e : RegionEncryptionSpec) : EncryptionInfo where
  ageHeader := if e.ageHeader = [] then none else some e.ageHeader
  plaintextBlake3 := some e.plaintextBlake3.toList
  identityKind := e.identityKind
  isPublic := e.isPublic

def TocChunkSpec.table (c : TocChunkSpec) : ChunkRef where
  blake3 := some c.blake3.toList
  size := c.size

def TocRegionSpec.table (r : TocRegionSpec) : RegionEntry where
  type := r.type
  offset := r.offset
  length := r.length
  name := r.name
  ordinal := r.ordinal
  compression := r.compression
  storage := r.storage
  chunks := if r.chunks = [] then none else some (r.chunks.map TocChunkSpec.table)
  encryption := r.encryption.map RegionEncryptionSpec.table
  contentType := r.contentType
  payloadBlake3 := some r.payloadBlake3.toList

def TocSpec.table (t : TocSpec) : Toc where
  generation := t.generation
  parentGeneration := t.parentGeneration
  fileUuid := some t.fileUuid.toList
  defaultStorage := t.defaultStorage
  regions := some (t.regions.map TocRegionSpec.table)
  zstdDictBlake3 := none

/-! ### Reading -/

/-- The 32 bytes of a hash field; another length does not count. -/
def hashOfBytes (b : Bytes) : Option Hash :=
  if h : b.length = 32 then some ⟨b, h⟩ else none

@[simp] lemma hashOfBytes_toList (h : Hash) : hashOfBytes h.toList = some h := dif_pos h.2

def encryptionFromToc (enc : EncryptionInfo) : RegionEncryptionSpec where
  ageHeader := enc.ageHeader.getD []
  plaintextBlake3 := (enc.plaintextBlake3.bind hashOfBytes).getD (List.Vector.replicate 32 0)
  identityKind := enc.identityKind
  isPublic := enc.isPublic

/-- What was written for a region's encryption is what is read. -/
@[simp] lemma encryptionFromToc_table (e : RegionEncryptionSpec) : encryptionFromToc e.table = e := by
  obtain ⟨ageHeader, plaintextBlake3, identityKind, isPublic⟩ := e
  by_cases h : ageHeader = []
  · simp [encryptionFromToc, RegionEncryptionSpec.table, h]
  · simp [encryptionFromToc, RegionEncryptionSpec.table, h]

end Orchid.Format
