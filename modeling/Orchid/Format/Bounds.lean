import Orchid.Format.Accepted
import Orchid.Format.Reader

/-!
# Reading within bounds

The functions of the reader once more, with every slice, sum and difference that can panic spelled
out. None of them panics. What is not checked is the mini-header of a region: its type and its
length are read and dropped.
-/

namespace Orchid.Format

open Lib

/-! ### Operations that panic -/

/-- `&data[i..j]` -/
def checkedSlice (data : Bytes) (i j : ℕ) : Result Bytes :=
  if i ≤ j ∧ j ≤ data.length then .ok (slice data i j) else .error .panicked

/-- `&data[i..]` -/
def checkedFrom (data : Bytes) (i : ℕ) : Result Bytes :=
  if i ≤ data.length then .ok (data.drop i) else .error .panicked

/-- `a + b` of two `usize` -/
def checkedSum (a b : ℕ) : Result ℕ := if a + b < 2 ^ 64 then .ok (a + b) else .error .panicked

/-- `a - b` of two `usize` -/
def checkedDiff (a b : ℕ) : Result ℕ := if b ≤ a then .ok (a - b) else .error .panicked

/-- `data[i..j].try_into::<[u8; n]>().unwrap()` -/
def checkedArray (n : ℕ) (data : Bytes) (i j : ℕ) : Result (List.Vector U8 n) := do
  let bytes ← checkedSlice data i j
  if h : bytes.length = n then return ⟨bytes, h⟩ else throw .panicked

/-- `a.checked_add(b)` -/
def checkedAdd (a b : ℕ) : Option ℕ := if a + b < 2 ^ 64 then some (a + b) else none

/-! ### The functions of the reader -/

def Header.decodeChecked (data : Bytes) : Result Header :=
  if data.length < 48 then .error (.io "header truncated")
  else do
    let magic ← checkedSlice data 0 4
    if magic ≠ fileMagic then .error .invalidMagic
    else do
      let versionMajor ← checkedArray 2 data 4 6
      let versionMinor ← checkedArray 2 data 6 8
      let capabilityFlags ← checkedArray 8 data 8 16
      let fileUuid ← checkedArray 16 data 16 32
      let createdUnixMs ← checkedArray 8 data 32 40
      let headerFlags ← checkedArray 8 data 40 48
      return {
        versionMajor := u16FromLe versionMajor.toList
        versionMinor := u16FromLe versionMinor.toList
        capabilityFlags := u64FromLe capabilityFlags.toList
        fileUuid := fileUuid
        createdUnixMs := u64FromLe createdUnixMs.toList
        headerFlags := u64FromLe headerFlags.toList }

def RegionHeader.decodeChecked (data : Bytes) (absoluteOffset : U64) : Result RegionHeader :=
  if data.length < regionMiniHeaderSize then .error (.io "region header truncated")
  else do
    let magic ← checkedSlice data 0 4
    if magic ≠ regionMagic then .error (.invalidRegionMagic absoluteOffset)
    else do
      let typeId ← checkedArray 2 data 4 6
      let length ← checkedArray 8 data 6 14
      return { typeId := u16FromLe typeId.toList, length := u64FromLe length.toList }

def Footer.decodeChecked (tail : Bytes) : Result Footer :=
  if tail.length < footerSize then .error (.io "footer truncated")
  else do
    let start ← checkedDiff tail.length footerSize
    let data ← checkedFrom tail start
    let magic ← checkedSlice data 40 44
    if magic ≠ fileMagic then .error .invalidMagic
    else do
      let tocOffsetFromEnd ← checkedArray 8 data 0 8
      let tocBlake3 ← checkedArray 32 data 8 40
      return { tocOffsetFromEnd := u64FromLe tocOffsetFromEnd.toList, tocBlake3 := tocBlake3 }

namespace SealedFile

variable {Identity Seed : Type} (x : Externals Identity Seed)

def fromMmapChecked (mmap : Bytes) : Result SealedFile :=
  if mmap.length < headerSize + footerSize then
    .error (.io "file too small for header+footer")
  else do
    let header ← Header.decodeChecked mmap
    let footer ← Footer.decodeChecked mmap
    if footer.tocOffsetFromEnd.val > mmap.length then
      .error (.invalidToc "toc_offset_from_end exceeds file size")
    else do
      let tocStart ← checkedDiff mmap.length footer.tocOffsetFromEnd.val
      let tocEnd ← checkedDiff mmap.length footerSize
      if tocStart ≥ tocEnd then .error (.invalidToc "empty TOC range")
      else if tocStart % alignment ≠ 0 then .error (.invalidToc "TOC not 4 KiB aligned")
      else do
        let tocBytes ← checkedSlice mmap tocStart tocEnd
        if x.hashBytes tocBytes ≠ footer.tocBlake3 then .error .tocHashMismatch
        else do
          let _ ← (x.rootAsToc tocBytes).mapError .invalidToc
          return ⟨mmap, header, tocStart, tocEnd⟩

def regionStoredBytesChecked (f : SealedFile) (entry : RegionEntry) : Result Bytes :=
  if entry.storage = StorageMode.linked then .ok []
  else
    let offset := entry.offset.val
    let length := entry.length.val
    match (checkedAdd offset regionMiniHeaderSize).bind (checkedAdd · length) with
    | none => .error (.regionDecode "region extent overflow")
    | some last =>
      if last > f.mmap.length then .error (.regionDecode "region extends past EOF")
      else do
        let data ← checkedFrom f.mmap offset
        let _ ← RegionHeader.decodeChecked data entry.offset
        let start ← checkedSum offset regionMiniHeaderSize
        checkedSlice f.mmap start last

end SealedFile

/-! ### No panic -/

lemma checkedSlice_eq {data : Bytes} {i j : ℕ} (hij : i ≤ j) (hj : j ≤ data.length) :
    checkedSlice data i j = .ok (slice data i j) := if_pos ⟨hij, hj⟩

lemma checkedFrom_eq {data : Bytes} {i : ℕ} (h : i ≤ data.length) :
    checkedFrom data i = .ok (data.drop i) := if_pos h

lemma checkedDiff_eq {a b : ℕ} (h : b ≤ a) : checkedDiff a b = .ok (a - b) := if_pos h

lemma length_slice {data : Bytes} {i j : ℕ} (hj : j ≤ data.length) :
    (slice data i j).length = j - i := by
  rw [slice, List.length_drop, List.length_take_of_le hj]

lemma checkedArray_eq {n : ℕ} {data : Bytes} {i j : ℕ} (hij : i + n = j) (hj : j ≤ data.length) :
    checkedArray n data i j = .ok ⟨slice data i j, by rw [length_slice hj]; omega⟩ := by
  have hlen : (slice data i j).length = n := by
    rw [length_slice hj]
    omega
  rw [checkedArray, checkedSlice_eq (by omega) hj]
  exact dif_pos hlen

lemma Header.decodeChecked_eq (data : Bytes) : Header.decodeChecked data = Header.decode data := by
  rw [Header.decodeChecked, Header.decode]
  by_cases hlen : data.length < 48
  · rw [if_pos hlen, dif_pos hlen]
  · rw [if_neg hlen, dif_neg hlen, checkedSlice_eq (by decide) (by omega)]
    show (if slice data 0 4 ≠ fileMagic then _ else _) = _
    by_cases hmagic : slice data 0 4 ≠ fileMagic
    · rw [if_pos hmagic, if_pos hmagic]
    · rw [if_neg hmagic, if_neg hmagic, checkedArray_eq rfl (by omega),
        checkedArray_eq rfl (by omega), checkedArray_eq rfl (by omega),
        checkedArray_eq rfl (by omega), checkedArray_eq rfl (by omega),
        checkedArray_eq rfl (by omega)]
      rfl

lemma RegionHeader.decodeChecked_eq (data : Bytes) (absoluteOffset : U64) :
    RegionHeader.decodeChecked data absoluteOffset = RegionHeader.decode data absoluteOffset := by
  rw [RegionHeader.decodeChecked, RegionHeader.decode]
  by_cases hlen : data.length < regionMiniHeaderSize
  · rw [if_pos hlen, if_pos hlen]
  · have hlong : 14 ≤ data.length := Nat.not_lt.mp hlen
    rw [if_neg hlen, if_neg hlen, checkedSlice_eq (by decide) (by omega)]
    show (if slice data 0 4 ≠ regionMagic then _ else _) = _
    by_cases hmagic : slice data 0 4 ≠ regionMagic
    · rw [if_pos hmagic, if_pos hmagic]
    · rw [if_neg hmagic, if_neg hmagic, checkedArray_eq rfl (by omega),
        checkedArray_eq rfl (by omega)]
      rfl

lemma Footer.decodeChecked_eq (tail : Bytes) : Footer.decodeChecked tail = Footer.decode tail := by
  rw [Footer.decodeChecked, Footer.decode]
  by_cases hlen : tail.length < footerSize
  · rw [if_pos hlen, dif_pos hlen]
  · have hlong : 44 ≤ tail.length := Nat.not_lt.mp hlen
    rw [if_neg hlen, dif_neg hlen, checkedDiff_eq (Nat.not_lt.mp hlen)]
    show (checkedFrom tail (tail.length - footerSize) >>= _) = _
    rw [checkedFrom_eq (Nat.sub_le _ _)]
    have hdata : (tail.drop (tail.length - footerSize)).length = 44 := by
      rw [List.length_drop, footerSize]
      omega
    show (checkedSlice (tail.drop (tail.length - footerSize)) 40 44 >>= _) = _
    rw [checkedSlice_eq (by decide) hdata.ge]
    show (if slice (tail.drop (tail.length - footerSize)) 40 44 ≠ fileMagic then _ else _) =
      if _ then _ else _
    by_cases hmagic : slice (tail.drop (tail.length - footerSize)) 40 44 ≠ fileMagic
    · rw [if_pos hmagic, if_pos hmagic]
    · rw [if_neg hmagic, if_neg hmagic, checkedArray_eq rfl (by omega),
        checkedArray_eq rfl (by omega)]
      rfl

namespace SealedFile

variable {Identity Seed : Type} (x : Externals Identity Seed)

lemma fromMmapChecked_eq (mmap : Bytes) : fromMmapChecked x mmap = fromMmap x mmap := by
  rw [fromMmapChecked, fromMmap]
  by_cases hlen : mmap.length < headerSize + footerSize
  · rw [if_pos hlen, if_pos hlen]
  · rw [if_neg hlen, if_neg hlen, Header.decodeChecked_eq, Footer.decodeChecked_eq]
    refine bind_congr fun header => bind_congr fun footer => ?_
    by_cases hoffset : footer.tocOffsetFromEnd.val > mmap.length
    · rw [if_pos hoffset, if_pos hoffset]
    · have hfooter : footerSize ≤ mmap.length :=
        (Nat.le_add_left _ _).trans (Nat.not_lt.mp hlen)
      rw [if_neg hoffset, if_neg hoffset, checkedDiff_eq (Nat.not_lt.mp hoffset),
        checkedDiff_eq hfooter]
      show (if mmap.length - footer.tocOffsetFromEnd.val ≥ mmap.length - footerSize then _ else _)
        = if _ then _ else _
      by_cases hrange : mmap.length - footer.tocOffsetFromEnd.val ≥ mmap.length - footerSize
      · rw [if_pos hrange, if_pos hrange]
      · rw [if_neg hrange, if_neg hrange]
        refine if_congr Iff.rfl rfl ?_
        rw [checkedSlice_eq (Nat.le_of_not_ge hrange) (Nat.sub_le _ _)]
        rfl

/-- The two checked additions fail together with their sum. -/
lemma checkedAdd_bind (a b c : ℕ) : (checkedAdd a b).bind (checkedAdd · c) =
    if a + b + c ≥ 2 ^ 64 then none else some (a + b + c) := by
  unfold checkedAdd
  split_ifs with hab habc habc
  · exact if_neg (by omega)
  · exact if_pos (by omega)
  · rfl
  · omega

lemma regionStoredBytesChecked_eq (f : SealedFile) (entry : RegionEntry) :
    f.regionStoredBytesChecked entry = f.regionStoredBytes entry := by
  rw [regionStoredBytesChecked, regionStoredBytes]
  refine if_congr Iff.rfl rfl ?_
  dsimp only
  rw [checkedAdd_bind]
  by_cases hwide : entry.offset.val + regionMiniHeaderSize + entry.length.val ≥ 2 ^ 64
  · rw [if_pos hwide, if_pos hwide]
  · rw [if_neg hwide, if_neg hwide]
    dsimp only
    refine if_ctx_congr Iff.rfl (fun _ => rfl) fun hlast => ?_
    have hoffset : entry.offset.val ≤ f.mmap.length := by omega
    have hsum : checkedSum entry.offset.val regionMiniHeaderSize =
        .ok (entry.offset.val + regionMiniHeaderSize) := if_pos (by omega)
    rw [checkedFrom_eq hoffset]
    show (RegionHeader.decodeChecked (f.mmap.drop entry.offset.val) entry.offset >>= _) = _
    rw [RegionHeader.decodeChecked_eq]
    refine bind_congr fun _ => ?_
    rw [hsum]
    exact checkedSlice_eq (Nat.le_add_right _ _) (Nat.not_lt.mp hlast)

lemma bind_ne_panicked {α β : Type} {p : Result α} {q : α → Result β} (hp : p ≠ .error .panicked)
    (hq : ∀ a, q a ≠ .error .panicked) : (p >>= q) ≠ .error .panicked := by
  cases p with
  | error e => exact fun h => hp (congrArg Except.error (Except.error.inj h))
  | ok a => exact hq a

lemma if_ne_panicked {α : Type} {c : Prop} [Decidable c] {p q : Result α}
    (hp : p ≠ .error .panicked) (hq : q ≠ .error .panicked) :
    (if c then p else q) ≠ .error .panicked := by
  by_cases hc : c
  · rwa [if_pos hc]
  · rwa [if_neg hc]

lemma fromMmap_ne_panicked (mmap : Bytes) : fromMmap x mmap ≠ .error .panicked := by
  have hheader : Header.decode mmap ≠ .error .panicked := by
    rw [Header.decode]
    split_ifs <;> simp
  have hfooter : Footer.decode mmap ≠ .error .panicked := by
    rw [Footer.decode]
    by_cases hlen : mmap.length < footerSize
    · simp [hlen]
    · rw [dif_neg hlen]
      exact if_ne_panicked (by simp) (by simp)
  have htoc : ∀ bytes, (x.rootAsToc bytes).mapError FormatError.invalidToc ≠ .error .panicked := by
    intro bytes
    cases x.rootAsToc bytes <;> simp [Except.mapError]
  refine if_ne_panicked (by simp) (bind_ne_panicked hheader fun header =>
    bind_ne_panicked hfooter fun footer => if_ne_panicked (by simp) ?_)
  refine if_ne_panicked (by simp) (if_ne_panicked (by simp) (if_ne_panicked (by simp) ?_))
  exact bind_ne_panicked (htoc _) fun _ => by simp [pure, Except.pure]

lemma regionStoredBytes_ne_panicked (f : SealedFile) (entry : RegionEntry) :
    f.regionStoredBytes entry ≠ .error .panicked := by
  have hheader : RegionHeader.decode (f.mmap.drop entry.offset.val) entry.offset ≠
      .error .panicked := by
    rw [RegionHeader.decode]
    split_ifs <;> simp
  refine if_ne_panicked (by simp) (if_ne_panicked (by simp) (if_ne_panicked (by simp) ?_))
  exact bind_ne_panicked hheader fun _ => by simp [pure, Except.pure]

/-! ### Announced payloads -/

/-- `b` is the payload that the mini-header of the entry announces, under its type and length. -/
def Announces (f : SealedFile) (entry : RegionEntry) (b : Bytes) : Prop :=
  ∃ header, RegionHeader.decode (f.mmap.drop entry.offset.val) entry.offset = .ok header ∧
    header.typeId = entry.type ∧ header.length = entry.length ∧
    b = slice f.mmap (entry.offset.val + regionMiniHeaderSize)
      (entry.offset.val + regionMiniHeaderSize + header.length.val) ∧
    b.length = header.length.val

/-- The bytes at the offset of the entry are the mini-header that it asks for; a linked region is
empty. -/
structure HeaderAgrees (f : SealedFile) (entry : RegionEntry) : Prop where
  bytes : slice f.mmap entry.offset.val (entry.offset.val + regionMiniHeaderSize) =
    RegionHeader.encode ⟨entry.type, entry.length⟩
  linked : entry.storage = StorageMode.linked → entry.length.val = 0

/-- What a successful call returns. -/
lemma regionStoredBytes_eq_ok {f : SealedFile} {entry : RegionEntry} {b : Bytes}
    (h : f.regionStoredBytes entry = .ok b) :
    (entry.storage = StorageMode.linked ∧ b = []) ∨
      (entry.storage ≠ StorageMode.linked ∧
        entry.offset.val + regionMiniHeaderSize + entry.length.val ≤ f.mmap.length ∧
        b = slice f.mmap (entry.offset.val + regionMiniHeaderSize)
          (entry.offset.val + regionMiniHeaderSize + entry.length.val)) := by
  rw [regionStoredBytes] at h
  by_cases hlinked : entry.storage = StorageMode.linked
  · rw [if_pos hlinked] at h
    exact .inl ⟨hlinked, (Except.ok.inj h).symm⟩
  · rw [if_neg hlinked] at h
    dsimp only at h
    by_cases hwide : entry.offset.val + regionMiniHeaderSize + entry.length.val ≥ 2 ^ 64
    · rw [if_pos hwide] at h
      cases h
    · rw [if_neg hwide] at h
      by_cases hlast : entry.offset.val + regionMiniHeaderSize + entry.length.val > f.mmap.length
      · rw [if_pos hlast] at h
        cases h
      · rw [if_neg hlast] at h
        refine .inr ⟨hlinked, Nat.not_lt.mp hlast, ?_⟩
        cases hdecode : RegionHeader.decode (f.mmap.drop entry.offset.val) entry.offset with
        | error e =>
          rw [hdecode] at h
          cases h
        | ok header =>
          rw [hdecode] at h
          exact (Except.ok.inj h).symm

/-- An inline region within the file is read behind any mini-header. -/
lemma regionStoredBytes_of_header {f : SealedFile} {entry : RegionEntry} {header : RegionHeader}
    (hinline : entry.storage ≠ StorageMode.linked)
    (hwide : entry.offset.val + regionMiniHeaderSize + entry.length.val < 2 ^ 64)
    (hlast : entry.offset.val + regionMiniHeaderSize + entry.length.val ≤ f.mmap.length)
    (hdecode : RegionHeader.decode (f.mmap.drop entry.offset.val) entry.offset = .ok header) :
    f.regionStoredBytes entry = .ok (slice f.mmap (entry.offset.val + regionMiniHeaderSize)
      (entry.offset.val + regionMiniHeaderSize + entry.length.val)) := by
  rw [regionStoredBytes, if_neg hinline]
  dsimp only
  rw [if_neg (Nat.not_le.mpr hwide), if_neg (Nat.not_lt.mpr hlast), hdecode]
  rfl

lemma slice_eq_take_drop {data : Bytes} (i n : ℕ) :
    slice data i (i + n) = (data.drop i).take n := by
  rw [slice, List.drop_take, Nat.add_sub_cancel_left]

/-- A mini-header is read exactly if its bytes are there. -/
lemma decode_eq_ok_iff {data : Bytes} {offset : U64} {header : RegionHeader} :
    RegionHeader.decode data offset = .ok header ↔
      data.take regionMiniHeaderSize = header.encode := by
  constructor
  · intro h
    rw [RegionHeader.decode] at h
    split_ifs at h with hlen hmagic
    have hlong : 14 ≤ data.length := Nat.not_lt.mp hlen
    obtain rfl := Except.ok.inj h
    have htype : (slice data 4 6).length = 2 := length_slice (by omega)
    have hlength : (slice data 6 14).length = 8 := length_slice (by omega)
    have hsplit : data.take (4 + (2 + 8)) =
        slice data 0 4 ++ (slice data 4 6 ++ slice data 6 14) := by
      rw [List.take_add, List.take_add, List.drop_drop, ← slice_eq_take_drop, ← slice_eq_take_drop]
      rfl
    rw [RegionHeader.encode, le_u16FromLe htype, le_u64FromLe hlength, ← not_not.mp hmagic]
    exact hsplit.trans (by simp)
  · intro h
    have hdata : data = header.encode ++ data.drop regionMiniHeaderSize := by
      rw [← h, List.take_append_drop]
    rw [hdata]
    exact RegionHeader.decode_encode header _ offset

lemma announces_iff {f : SealedFile} {entry : RegionEntry} {b : Bytes}
    (h : f.regionStoredBytes entry = .ok b) : f.Announces entry b ↔ f.HeaderAgrees entry := by
  constructor
  · rintro ⟨header, hdecode, htype, hlength, -, hb⟩
    have hheader : header = ⟨entry.type, entry.length⟩ := by
      rw [← htype, ← hlength]
    subst hheader
    refine ⟨?_, fun hlinked => ?_⟩
    · rw [slice_eq_take_drop]
      exact decode_eq_ok_iff.mp hdecode
    · rcases regionStoredBytes_eq_ok h with ⟨-, rfl⟩ | ⟨hinline, -⟩
      · exact hb.symm
      · exact absurd hlinked hinline
  · rintro ⟨hbytes, hlinked⟩
    rw [slice_eq_take_drop] at hbytes
    refine ⟨⟨entry.type, entry.length⟩, decode_eq_ok_iff.mpr hbytes, rfl, rfl, ?_⟩
    rcases regionStoredBytes_eq_ok h with ⟨hl, rfl⟩ | ⟨-, hlast, rfl⟩
    · rw [hlinked hl, slice_eq_take_drop]
      exact ⟨List.take_zero.symm, rfl⟩
    · refine ⟨rfl, ?_⟩
      rw [length_slice hlast]
      exact Nat.add_sub_cancel_left _ _

/-- Nothing panics, and the stored bytes of a region are those that its mini-header announces
exactly if the bytes at the offset are the mini-header of the entry. -/
theorem stored_bytes_announced_iff (mmap : Bytes) (f : SealedFile) (entry : RegionEntry) :
    fromMmapChecked x mmap ≠ .error .panicked ∧
      f.regionStoredBytesChecked entry ≠ .error .panicked ∧
      ∀ b, f.regionStoredBytesChecked entry = .ok b →
        (f.Announces entry b ↔ f.HeaderAgrees entry) := by
  rw [fromMmapChecked_eq, regionStoredBytesChecked_eq]
  exact ⟨fromMmap_ne_panicked x mmap, regionStoredBytes_ne_panicked f entry,
    fun _ => announces_iff⟩

/-! ### A file with a wrong mini-header -/

/-- A file that is put together from a header, aligned contents, a TOC and its footer opens. -/
lemma fromMmap_layout (header : Header) (rest tocBytes : Bytes) {toc : Toc} {footer : Footer}
    (haligned : (header.encode ++ rest).length % alignment = 0) (hne : tocBytes ≠ [])
    (hoffset : footer.tocOffsetFromEnd.val = tocBytes.length + footerSize)
    (hhash : footer.tocBlake3 = x.hashBytes tocBytes) (htoc : x.rootAsToc tocBytes = .ok toc) :
    fromMmap x (header.encode ++ rest ++ tocBytes ++ footer.encode) =
      .ok ⟨header.encode ++ rest ++ tocBytes ++ footer.encode, header,
        (header.encode ++ rest).length, (header.encode ++ rest ++ tocBytes).length⟩ := by
  have hheader : Header.decode (header.encode ++ rest ++ tocBytes ++ footer.encode) =
      .ok header := by
    simp only [List.append_assoc]
    exact Header.decode_encode header _
  have hlen : (header.encode ++ rest ++ tocBytes ++ footer.encode).length =
      (header.encode ++ rest).length + tocBytes.length + footerSize := by
    rw [List.length_append, @List.length_append _ _ tocBytes, Footer.length_encode]
  have hstart : (header.encode ++ rest ++ tocBytes ++ footer.encode).length -
      footer.tocOffsetFromEnd.val = (header.encode ++ rest).length := by
    rw [hlen, hoffset]
    omega
  have hend : (header.encode ++ rest ++ tocBytes ++ footer.encode).length - footerSize =
      (header.encode ++ rest ++ tocBytes).length := by
    rw [hlen, @List.length_append _ _ tocBytes]
    omega
  have htocBytes : slice (header.encode ++ rest ++ tocBytes ++ footer.encode)
      (header.encode ++ rest).length (header.encode ++ rest ++ tocBytes).length = tocBytes := by
    rw [slice, List.take_left, List.drop_left]
  have hpos : 0 < tocBytes.length := List.length_pos_iff.mpr hne
  have hfront : headerSize ≤ (header.encode ++ rest).length := by
    rw [List.length_append, Header.length_encode]
    exact Nat.le_add_right _ _
  have hlong : ¬ (header.encode ++ rest ++ tocBytes ++ footer.encode).length <
      headerSize + footerSize := by
    rw [hlen]
    omega
  have hwithin : ¬ footer.tocOffsetFromEnd.val >
      (header.encode ++ rest ++ tocBytes ++ footer.encode).length := by
    rw [hlen, hoffset]
    omega
  have hrange : ¬ (header.encode ++ rest).length ≥ (header.encode ++ rest ++ tocBytes).length := by
    rw [@List.length_append _ _ tocBytes]
    omega
  rw [fromMmap, if_neg hlong, hheader, Footer.decode_encode]
  show (if footer.tocOffsetFromEnd.val > _ then _ else _) = _
  rw [if_neg hwithin, hstart, hend, if_neg hrange, if_neg (not_not.mpr haligned), htocBytes,
    if_neg (not_not.mpr hhash.symm), htoc]
  rfl

/-- The Clean-Text region of the file below: five bytes, as the TOC says. -/
def wrongEntry : RegionEntry where
  type := RegionType.cleanText
  offset := 4096
  length := 5
  name := none
  ordinal := 0
  compression := CompressionCodec.none
  storage := StorageMode.inline
  chunks := none
  encryption := none
  contentType := none
  payloadBlake3 := none

/-- A TOC with this region only. -/
def wrongToc : Toc where
  generation := 0
  parentGeneration := 0
  fileUuid := none
  defaultStorage := StorageMode.inline
  regions := some [wrongEntry]
  zstdDictBlake3 := none

/-- Only the hash and the TOC of the file are looked at. -/
def wrongExternals : Externals Unit Unit where
  hashBytes _ := List.Vector.replicate 32 0
  encodeAll := .ok
  decodeAll := .ok
  kind _ := .passphrase
  encryptBytes _ _ := .ok
  decryptBytes _ := .ok
  finishTocBuffer _ := some [0]
  rootAsToc _ := .ok wrongToc
  saveToStream _ _ _ _ := .ok []

/-- A Raw region without bytes, in a block of its own. -/
def wrongBlock : Bytes :=
  RegionHeader.encode ⟨RegionType.raw, 0⟩ ++
    List.replicate (alignment - regionMiniHeaderSize) 0

def wrongHeader : Header := .new (List.Vector.replicate 16 0) 0 0

def wrongFooter : Footer := ⟨45, List.Vector.replicate 32 0⟩

def wrongFile : Bytes := wrongHeader.encode ++ wrongBlock ++ [0] ++ wrongFooter.encode

lemma open_wrongFile : fromMmap wrongExternals wrongFile =
    .ok ⟨wrongFile, wrongHeader, (wrongHeader.encode ++ wrongBlock).length,
      (wrongHeader.encode ++ wrongBlock ++ [0]).length⟩ := by
  refine fromMmap_layout wrongExternals wrongHeader wrongBlock [0] ?_ (List.cons_ne_nil _ _)
    rfl rfl (show wrongExternals.rootAsToc [0] = .ok wrongToc from rfl)
  rw [List.length_append, Header.length_encode, wrongBlock, List.length_append,
    RegionHeader.length_encode, List.length_replicate]
  rfl

lemma drop_wrongFile : wrongFile.drop 4096 = RegionHeader.encode ⟨RegionType.raw, 0⟩ ++
    (List.replicate (alignment - regionMiniHeaderSize) 0 ++ ([0] ++ wrongFooter.encode)) := by
  have hlen : wrongHeader.encode.length = 4096 := Header.length_encode _
  rw [wrongFile, wrongBlock, ← hlen]
  simp only [List.append_assoc, List.drop_left]

lemma decode_wrongFile : RegionHeader.decode (wrongFile.drop 4096) 4096 =
    .ok ⟨RegionType.raw, 0⟩ := by
  rw [drop_wrongFile]
  exact RegionHeader.decode_encode _ _ _

/-- The mini-header of the file says Raw and no bytes, the TOC Clean-Text and five. -/
theorem not_stored_bytes_announced : ¬ ∀ (x : Externals Unit Unit) (mmap : Bytes) (f : SealedFile)
    (toc : Toc) (regions : List RegionEntry) (entry : RegionEntry) (b : Bytes),
    fromMmapChecked x mmap = .ok f → f.toc x = .ok toc → toc.regions = some regions →
      entry ∈ regions → f.regionStoredBytesChecked entry = .ok b → f.Announces entry b := by
  intro h
  have hopen := (fromMmapChecked_eq wrongExternals wrongFile).trans open_wrongFile
  have hlast : 4096 + 14 + 5 ≤ wrongFile.length := by
    rw [wrongFile, List.length_append, List.length_append, List.length_append,
      Header.length_encode, Footer.length_encode, wrongBlock, List.length_append,
      RegionHeader.length_encode, List.length_replicate]
    decide
  have hstored := @regionStoredBytes_of_header
    ⟨wrongFile, wrongHeader, (wrongHeader.encode ++ wrongBlock).length,
      (wrongHeader.encode ++ wrongBlock ++ [0]).length⟩
    wrongEntry _ (by decide) (by decide) hlast decode_wrongFile
  rw [← regionStoredBytesChecked_eq] at hstored
  obtain ⟨header, hdecode, htype, -⟩ := h wrongExternals wrongFile _ wrongToc [wrongEntry]
    wrongEntry _ hopen rfl rfl List.mem_cons_self hstored
  obtain rfl := Except.ok.inj (decode_wrongFile.symm.trans hdecode)
  revert htype
  decide

end SealedFile

end Orchid.Format
