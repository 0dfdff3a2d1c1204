import Orchid.Base.Machine
import Orchid.Lib.Wire
import Mathlib.Data.Vector.Basic

/-!
# Framing

Header, region mini-header, footer and 4 KiB padding.
-/

namespace Orchid.Format

open Orchid.Lib

/-- Failures while reading or writing a file. `panicked` is not one of them: it stands for a panic of
the program, which then returns nothing. -/
inductive FormatError where
  | io (message : String)
  | crypto (message : String)
  | invalidMagic
  | invalidRegionMagic (offset : U64)
  | tocHashMismatch
  | invalidToc (message : String)
  | regionDecode (message : String)
  | regionNotFound (type : U16)
  | unsupportedCompression (codec : U8)
  | identityRequired
  | unsupported (message : String)
  | c2pa (message : String)
  | panicked
deriving DecidableEq

/-- `Result<T>` -/
abbrev Result := Except FormatError

/-- `[u8; 32]`, a BLAKE3 hash. -/
abbrev Hash := List.Vector U8 32

/-- `[u8; 16]`, a document identity. -/
abbrev Uuid := List.Vector U8 16

/-! ### Numbers -/

/-- `n as u64` -/
def toU64 (n : ℕ) : U64 := Fin.ofNat (2 ^ 64) n

/-- `u16::from_le_bytes` -/
def u16FromLe (bytes : Bytes) : U16 := Fin.ofNat (2 ^ 16) (ofLe bytes)

/-- `u32::from_le_bytes` -/
def u32FromLe (bytes : Bytes) : U32 := Fin.ofNat (2 ^ 32) (ofLe bytes)

/-- `u64::from_le_bytes` -/
def u64FromLe (bytes : Bytes) : U64 := Fin.ofNat (2 ^ 64) (ofLe bytes)

lemma val_toU64 {n : ℕ} (h : n < 2 ^ 64) : (toU64 n).val = n := Nat.mod_eq_of_lt h

@[simp] lemma u16FromLe_le (x : U16) : u16FromLe (le 2 x) = x := by
  rw [u16FromLe, ofLe_le_of_lt x.isLt]
  exact Fin.ext (Nat.mod_eq_of_lt x.isLt)

@[simp] lemma u64FromLe_le (x : U64) : u64FromLe (le 8 x) = x := by
  rw [u64FromLe, ofLe_le_of_lt x.isLt]
  exact Fin.ext (Nat.mod_eq_of_lt x.isLt)

/-- A number too large for `u32` is cut off. -/
lemma val_u32FromLe_le (n : ℕ) : (u32FromLe (le 4 n)).val = n % 2 ^ 32 := by
  rw [u32FromLe, ofLe_le]
  exact Nat.mod_mod _ _

@[simp] lemma u32FromLe_le (x : U32) : u32FromLe (le 4 x) = x := by
  apply Fin.ext
  rw [val_u32FromLe_le, Nat.mod_eq_of_lt x.isLt]

/-! ### Constants -/

/-- Header magic and footer terminator (`ORCD`). -/
def fileMagic : Bytes := [0x4f, 0x52, 0x43, 0x44]

/-- Region mini-header magic (`ORCR`). -/
def regionMagic : Bytes := [0x4f, 0x52, 0x43, 0x52]

/-- Alignment of header, regions and TOC. -/
def alignment : ℕ := 4096

def headerSize : ℕ := alignment

def regionMiniHeaderSize : ℕ := 14

def footerSize : ℕ := 44

def formatVersionMajor : U16 := 1

def formatVersionMinor : U16 := 0

/-! ### Header -/

structure Header where
  versionMajor : U16
  versionMinor : U16
  capabilityFlags : U64
  fileUuid : Uuid
  createdUnixMs : U64
  headerFlags : U64
deriving DecidableEq

namespace Header

def new (fileUuid : Uuid) (createdUnixMs capabilityFlags : U64) : Header where
  versionMajor := formatVersionMajor
  versionMinor := formatVersionMinor
  capabilityFlags := capabilityFlags
  fileUuid := fileUuid
  createdUnixMs := createdUnixMs
  headerFlags := 0

/-- One aligned block. -/
def encode (h : Header) : Bytes :=
  [fileMagic, le 2 h.versionMajor, le 2 h.versionMinor, le 8 h.capabilityFlags,
    h.fileUuid.toList, le 8 h.createdUnixMs, le 8 h.headerFlags,
    List.replicate (headerSize - 48) 0].flatten

lemma length_slice_uuid {data : Bytes} (hlen : ¬ data.length < 48) :
    (slice data 16 32).length = 16 := by
  simp only [slice, List.length_drop, List.length_take]
  omega

def decode (data : Bytes) : Result Header :=
  if hlen : data.length < 48 then .error (.io "header truncated")
  else if slice data 0 4 ≠ fileMagic then .error .invalidMagic
  else .ok {
    versionMajor := u16FromLe (slice data 4 6)
    versionMinor := u16FromLe (slice data 6 8)
    capabilityFlags := u64FromLe (slice data 8 16)
    fileUuid := ⟨slice data 16 32, length_slice_uuid hlen⟩
    createdUnixMs := u64FromLe (slice data 32 40)
    headerFlags := u64FromLe (slice data 40 48) }

end Header

/-! ### Region mini-header -/

structure RegionHeader where
  typeId : U16
  length : U64
deriving DecidableEq

namespace RegionHeader

def encode (h : RegionHeader) : Bytes := [regionMagic, le 2 h.typeId, le 8 h.length].flatten

def decode (data : Bytes) (absoluteOffset : U64) : Result RegionHeader :=
  if data.length < regionMiniHeaderSize then .error (.io "region header truncated")
  else if slice data 0 4 ≠ regionMagic then .error (.invalidRegionMagic absoluteOffset)
  else .ok {
    typeId := u16FromLe (slice data 4 6)
    length := u64FromLe (slice data 6 14) }

end RegionHeader

/-! ### Footer -/

structure Footer where
  tocOffsetFromEnd : U64
  tocBlake3 : Hash
deriving DecidableEq

namespace Footer

def encode (f : Footer) : Bytes :=
  [le 8 f.tocOffsetFromEnd, f.tocBlake3.toList, fileMagic].flatten

/-- From the last bytes of a file. -/
def decode (tail : Bytes) : Result Footer :=
  if hlen : tail.length < footerSize then .error (.io "footer truncated")
  else
    let data := tail.drop (tail.length - footerSize)
    if slice data 40 44 ≠ fileMagic then .error .invalidMagic
    else .ok {
      tocOffsetFromEnd := u64FromLe (slice data 0 8)
      tocBlake3 := ⟨slice data 8 40, by
        simp only [data, slice, List.length_drop, List.length_take, footerSize] at hlen ⊢
        omega⟩ }

end Footer

/-! ### Padding -/

/-- The next multiple of the alignment. -/
def alignUp (offset : ℕ) : ℕ := (offset + (alignment - 1)) / alignment * alignment

def padLen (offset : ℕ) : ℕ := alignUp offset - offset

def padToAlignment (buf : Bytes) : Bytes := buf ++ List.replicate (padLen buf.length) 0

/-! ### Round trips -/

lemma Header.length_encode (h : Header) : h.encode.length = headerSize := by
  simp only [Header.encode, List.length_flatten, List.map_cons, List.map_nil, length_le,
    List.Vector.toList_length, List.length_replicate]
  rfl

lemma RegionHeader.length_encode (h : RegionHeader) : h.encode.length = regionMiniHeaderSize := by
  simp only [RegionHeader.encode, List.length_flatten, List.map_cons, List.map_nil, length_le]
  rfl

lemma Footer.length_encode (f : Footer) : f.encode.length = footerSize := by
  simp only [Footer.encode, List.length_flatten, List.map_cons, List.map_nil, length_le,
    List.Vector.toList_length]
  rfl

/-- A header is read from the front of what it was written to. -/
lemma Header.decode_encode (h : Header) (rest : Bytes) :
    Header.decode (h.encode ++ rest) = .ok h := by
  have hlen : ¬ (h.encode ++ rest).length < 48 := by
    rw [List.length_append, h.length_encode]
    exact Nat.not_lt.mpr (Nat.le_add_right_of_le (by decide))
  have h0 : slice (h.encode ++ rest) 0 4 = fileMagic := slice_flatten rest 0 rfl rfl rfl
  have h1 : slice (h.encode ++ rest) 4 6 = le 2 h.versionMajor := slice_flatten rest 1 rfl rfl rfl
  have h2 : slice (h.encode ++ rest) 6 8 = le 2 h.versionMinor := slice_flatten rest 2 rfl rfl rfl
  have h3 : slice (h.encode ++ rest) 8 16 = le 8 h.capabilityFlags :=
    slice_flatten rest 3 rfl rfl rfl
  have h4 : slice (h.encode ++ rest) 16 32 = h.fileUuid.toList :=
    slice_flatten rest 4 rfl rfl (by simp)
  have h5 : slice (h.encode ++ rest) 32 40 = le 8 h.createdUnixMs :=
    slice_flatten rest 5 rfl (by simp [fileMagic]) rfl
  have h6 : slice (h.encode ++ rest) 40 48 = le 8 h.headerFlags :=
    slice_flatten rest 6 rfl (by simp [fileMagic]) rfl
  rw [Header.decode, dif_neg hlen, if_neg (not_not.mpr h0)]
  simp only [h1, h2, h3, h4, h5, h6, u16FromLe_le, u64FromLe_le]
  rfl

lemma RegionHeader.decode_encode (h : RegionHeader) (rest : Bytes) (offset : U64) :
    RegionHeader.decode (h.encode ++ rest) offset = .ok h := by
  have hlen : ¬ (h.encode ++ rest).length < regionMiniHeaderSize := by
    rw [List.length_append, h.length_encode]
    exact Nat.not_lt.mpr (Nat.le_add_right _ _)
  have h0 : slice (h.encode ++ rest) 0 4 = regionMagic := slice_flatten rest 0 rfl rfl rfl
  have h1 : slice (h.encode ++ rest) 4 6 = le 2 h.typeId := slice_flatten rest 1 rfl rfl rfl
  have h2 : slice (h.encode ++ rest) 6 14 = le 8 h.length := slice_flatten rest 2 rfl rfl rfl
  rw [RegionHeader.decode, if_neg hlen, if_neg (not_not.mpr h0)]
  simp only [h1, h2, u16FromLe_le, u64FromLe_le]

/-- A footer is read from the end of what it was written to. -/
lemma Footer.decode_encode (f : Footer) (front : Bytes) :
    Footer.decode (front ++ f.encode) = .ok f := by
  have hlen : ¬ (front ++ f.encode).length < footerSize := by
    rw [List.length_append, f.length_encode]
    exact Nat.not_lt.mpr (Nat.le_add_left _ _)
  have hdata : (front ++ f.encode).drop ((front ++ f.encode).length - footerSize) =
      f.encode ++ [] := by
    rw [List.length_append, f.length_encode, Nat.add_sub_cancel, List.drop_left, List.append_nil]
  have h0 : slice (f.encode ++ []) 0 8 = le 8 f.tocOffsetFromEnd := slice_flatten [] 0 rfl rfl rfl
  have h1 : slice (f.encode ++ []) 8 40 = f.tocBlake3.toList :=
    slice_flatten [] 1 rfl rfl (by simp)
  have h2 : slice (f.encode ++ []) 40 44 = fileMagic := slice_flatten [] 2 rfl (by simp) rfl
  rw [Footer.decode, dif_neg hlen]
  simp only [hdata, h0, h1, h2, u64FromLe_le]
  rw [if_neg (not_not.mpr rfl)]
  rfl

/-! ### Alignment -/

lemma alignUp_mod (n : ℕ) : alignUp n % alignment = 0 := Nat.mul_mod_left _ _

lemma le_alignUp (n : ℕ) : n ≤ alignUp n := by
  have h := Nat.lt_div_mul_add (a := n + (alignment - 1)) (b := alignment) (by decide)
  rw [alignUp]
  omega

lemma length_padToAlignment (buf : Bytes) : (padToAlignment buf).length = alignUp buf.length := by
  rw [padToAlignment, List.length_append, List.length_replicate, padLen]
  exact Nat.add_sub_cancel' (le_alignUp _)

end Orchid.Format
