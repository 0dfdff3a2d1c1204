import Orchid.Format.Bounds
import Orchid.Format.Writer

/-!
# Sealed files read back

The writer appends regions to a buffer that only grows, so that every region stays where its row in
the TOC says. The reader finds the rows by their types, which differ, and reads what was written.
-/

namespace Orchid.Format

open Lib Crdt

/-! ### Regions in a buffer -/

/-- The region is in the buffer as its row says. -/
structure Placed (buf : Bytes) (row : TocRegionSpec) (w : RegionWrite) : Prop where
  row_eq : row = w.row row.offset row.length
  aligned : row.offset.val % alignment = 0
  length_eq : row.length.val = w.payload.length
  bytes : ∃ pre post, pre.length = row.offset.val ∧
    buf = pre ++ (RegionHeader.encode ⟨w.typeId, row.length⟩ ++ w.payload) ++ post

/-- Where a region ends. -/
def RegionEntry.last (entry : RegionEntry) : ℕ :=
  entry.offset.val + regionMiniHeaderSize + entry.length.val

variable {buf : Bytes} {row : TocRegionSpec} {rows : List TocRegionSpec} {w : RegionWrite}
  {writes : List RegionWrite}

lemma Placed.append (h : Placed buf row w) (more : Bytes) : Placed (buf ++ more) row w := by
  obtain ⟨pre, post, hpre, hbuf⟩ := h.bytes
  exact ⟨h.row_eq, h.aligned, h.length_eq, pre, post ++ more, hpre, by rw [hbuf]; simp⟩

lemma Placed.last_le (h : Placed buf row w) : row.table.last ≤ buf.length := by
  obtain ⟨pre, post, hpre, hbuf⟩ := h.bytes
  show row.offset.val + regionMiniHeaderSize + row.length.val ≤ buf.length
  rw [hbuf, ← hpre, h.length_eq]
  simp only [List.length_append, RegionHeader.length_encode]
  omega

lemma exists_of_mem_left (h : List.Forall₂ (Placed buf) rows writes) (hrow : row ∈ rows) :
    ∃ w, Placed buf row w := by
  induction h with
  | nil => exact absurd hrow List.not_mem_nil
  | cons hplaced _ ih =>
    rcases List.mem_cons.mp hrow with rfl | hrow
    · exact ⟨_, hplaced⟩
    · exact ih hrow

/-- The rows are found as the writes are. -/
lemma find?_rows (h : List.Forall₂ (Placed buf) rows writes) (type : RegionType) :
    (writes.find? (·.fbType = type) = none ∧
        (rows.map TocRegionSpec.table).find? (·.type = type) = none) ∨
      ∃ row w, writes.find? (·.fbType = type) = some w ∧
        (rows.map TocRegionSpec.table).find? (·.type = type) = some row.table ∧
        Placed buf row w := by
  induction h with
  | nil => exact .inl ⟨rfl, rfl⟩
  | @cons row w rows writes hrow _ ih =>
    have htype : row.table.type = w.fbType := congrArg TocRegionSpec.type hrow.row_eq
    rw [List.map_cons]
    by_cases ht : w.fbType = type
    · refine .inr ⟨row, w, ?_, ?_, hrow⟩
      · exact List.find?_cons_of_pos (decide_eq_true ht)
      · exact List.find?_cons_of_pos (decide_eq_true (htype.trans ht))
    · rw [List.find?_cons_of_neg (by simpa using ht),
        List.find?_cons_of_neg (by simpa [htype] using ht)]
      exact ih

/-! ### Images -/

/-- An image with its regions one after the other behind the header. -/
structure LaidOut (header : Header) (im : Image) (writes : List RegionWrite) : Prop where
  front : ∃ rest, im.buf = header.encode ++ rest
  placed : List.Forall₂ (Placed im.buf) im.tocRegions writes
  ordered : im.tocRegions.Pairwise fun r r' => r.table.last ≤ r'.offset.val
  behind : ∀ row ∈ im.tocRegions, headerSize ≤ row.offset.val
  last_le : ∀ row ∈ im.tocRegions, row.table.last ≤ im.buf.length

variable {header : Header} {im : Image}

lemma laidOut_nil (header : Header) : LaidOut header ⟨header.encode, []⟩ [] where
  front := ⟨[], (List.append_nil _).symm⟩
  placed := .nil
  ordered := .nil
  behind := fun _ h => absurd h List.not_mem_nil
  last_le := fun _ h => absurd h List.not_mem_nil

lemma length_appendRegion (im : Image) (w : RegionWrite) :
    (appendRegion im w).buf.length = alignUp im.buf.length + (14 + w.payload.length) := by
  show (padToAlignment im.buf ++ (RegionHeader.encode _ ++ w.payload)).length = _
  rw [List.length_append, List.length_append, RegionHeader.length_encode, length_padToAlignment]
  rfl

lemma alignUp_le (n : ℕ) : alignUp n ≤ n + 4095 := Nat.div_mul_le_self _ _

/-- How long an image becomes. -/
lemma length_foldl_le (im : Image) (writes : List RegionWrite) :
    (writes.foldl appendRegion im).buf.length ≤
      im.buf.length + (writes.map fun w => 4109 + w.payload.length).sum := by
  induction writes generalizing im with
  | nil => exact le_rfl
  | cons w writes ih =>
    refine (ih _).trans ?_
    rw [length_appendRegion, List.map_cons, List.sum_cons]
    have hone := alignUp_le im.buf.length
    omega

/-- A region is appended behind the others. -/
lemma LaidOut.appendRegion (h : LaidOut header im writes) (w : RegionWrite)
    (hsize : (appendRegion im w).buf.length < 2 ^ 64) :
    LaidOut header (appendRegion im w) (writes ++ [w]) := by
  have hpad : padToAlignment im.buf = im.buf ++ List.replicate (padLen im.buf.length) 0 := rfl
  have hlength := length_padToAlignment im.buf
  have hbuf : (Format.appendRegion im w).buf = padToAlignment im.buf ++
      (RegionHeader.encode ⟨w.typeId, toU64 w.payload.length⟩ ++ w.payload) := rfl
  rw [length_appendRegion, ← hlength] at hsize
  have hoffset : (toU64 (padToAlignment im.buf).length).val = (padToAlignment im.buf).length :=
    val_toU64 (by omega)
  have hpayload : (toU64 w.payload.length).val = w.payload.length := val_toU64 (by omega)
  have hle : im.buf.length ≤ (padToAlignment im.buf).length := hlength ▸ le_alignUp _
  have hnew : Placed (Format.appendRegion im w).buf
      (w.row (toU64 (padToAlignment im.buf).length) (toU64 w.payload.length)) w :=
    ⟨rfl, by rw [RegionWrite.row, hoffset, hlength]; exact alignUp_mod _, hpayload,
      padToAlignment im.buf, [], hoffset.symm, by rw [hbuf, List.append_nil]; rfl⟩
  have hold : List.Forall₂ (Placed (Format.appendRegion im w).buf) im.tocRegions writes := by
    refine h.placed.imp fun row w' hrow => ?_
    rw [hbuf, hpad, List.append_assoc]
    exact hrow.append _
  refine ⟨?_, List.rel_append hold (.cons hnew .nil), ?_, ?_, ?_⟩
  · obtain ⟨rest, hrest⟩ := h.front
    exact ⟨rest ++ List.replicate (padLen im.buf.length) 0 ++
      (RegionHeader.encode ⟨w.typeId, toU64 w.payload.length⟩ ++ w.payload), by
        rw [hbuf, hpad, hrest]; simp⟩
  · refine List.pairwise_append.mpr ⟨h.ordered, List.pairwise_singleton _ _, ?_⟩
    intro row hrow row' hrow'
    obtain rfl := List.mem_singleton.mp hrow'
    show row.table.last ≤ (toU64 (padToAlignment im.buf).length).val
    rw [hoffset]
    exact (h.last_le row hrow).trans hle
  · intro row hrow
    rcases List.mem_append.mp hrow with hrow | hrow
    · exact h.behind row hrow
    · obtain rfl := List.mem_singleton.mp hrow
      obtain ⟨rest, hrest⟩ := h.front
      show headerSize ≤ (toU64 (padToAlignment im.buf).length).val
      rw [hoffset]
      refine le_trans ?_ hle
      rw [hrest, List.length_append, Header.length_encode]
      exact Nat.le_add_right _ _
  · intro row hrow
    rcases List.mem_append.mp hrow with hrow | hrow
    · rw [hbuf, List.length_append]
      exact ((h.last_le row hrow).trans hle).trans (Nat.le_add_right _ _)
    · obtain rfl := List.mem_singleton.mp hrow
      exact hnew.last_le

lemma length_foldl_appendRegion (im : Image) (writes : List RegionWrite) :
    im.buf.length ≤ (writes.foldl appendRegion im).buf.length := by
  induction writes generalizing im with
  | nil => exact le_rfl
  | cons w writes ih =>
    have hone : im.buf.length ≤ (appendRegion im w).buf.length := by
      rw [length_appendRegion]
      exact (le_alignUp _).trans (Nat.le_add_right _ _)
    exact hone.trans (ih _)

/-- All regions are laid out, if the buffer fits. -/
lemma LaidOut.foldl {before : List RegionWrite} (h : LaidOut header im before)
    (writes : List RegionWrite)
    (hsize : (writes.foldl Format.appendRegion im).buf.length < 2 ^ 64) :
    LaidOut header (writes.foldl Format.appendRegion im) (before ++ writes) := by
  induction writes generalizing im before with
  | nil => rwa [List.append_nil]
  | cons w writes ih =>
    have hone := (length_foldl_appendRegion (Format.appendRegion im w) writes).trans_lt hsize
    have hrest := ih (h.appendRegion w hone) hsize
    rwa [List.append_assoc] at hrest

/-! ### Finished files -/

variable {Identity Seed : Type} {x : Externals Identity Seed}

/-- What is finished is the padded image, the TOC and its footer. -/
lemma finish_eq_ok {generation parentGeneration : U64} {fileUuid : Uuid} {storage : StorageMode}
    {bytes : Bytes} (h : finish x im generation parentGeneration fileUuid storage = .ok bytes) :
    ∃ tocBytes, x.finishTocBuffer (TocSpec.table
        ⟨generation, parentGeneration, fileUuid, storage, im.tocRegions⟩) = some tocBytes ∧
      bytes = padToAlignment im.buf ++ tocBytes ++ Footer.encode
        ⟨toU64 ((padToAlignment im.buf ++ tocBytes).length + footerSize) -
          toU64 (padToAlignment im.buf).length, x.hashBytes tocBytes⟩ ∧
      bytes.length < 2 ^ 63 := by
  rw [finish, buildToc] at h
  cases htoc : x.finishTocBuffer (TocSpec.table
      ⟨generation, parentGeneration, fileUuid, storage, im.tocRegions⟩) with
  | none =>
    rw [htoc] at h
    cases h
  | some tocBytes =>
    rw [htoc] at h
    dsimp only [bind, Except.bind] at h
    split_ifs at h with hlen
    obtain rfl := Except.ok.inj h
    exact ⟨tocBytes, rfl, rfl, hlen⟩

lemma finish_of_toc {generation parentGeneration : U64} {fileUuid : Uuid} {storage : StorageMode}
    {tocBytes : Bytes} (htoc : x.finishTocBuffer (TocSpec.table
      ⟨generation, parentGeneration, fileUuid, storage, im.tocRegions⟩) = some tocBytes)
    (hlen : (padToAlignment im.buf).length + tocBytes.length + footerSize < 2 ^ 63) :
    finish x im generation parentGeneration fileUuid storage =
      .ok (padToAlignment im.buf ++ tocBytes ++ Footer.encode
        ⟨toU64 ((padToAlignment im.buf ++ tocBytes).length + footerSize) -
          toU64 (padToAlignment im.buf).length, x.hashBytes tocBytes⟩) := by
  rw [finish, buildToc, htoc]
  refine if_pos ?_
  rw [List.length_append, List.length_append, Footer.length_encode]
  exact hlen

namespace SealedFile

/-- The regions and the TOC start at multiples of the alignment, one behind the other. -/
structure InBlocks (f : SealedFile) (entries : List RegionEntry) : Prop where
  aligned : ∀ entry ∈ entries, entry.offset.val % alignment = 0
  toc_aligned : f.tocStart % alignment = 0
  behind_header : ∀ entry ∈ entries, headerSize ≤ entry.offset.val
  ordered : entries.Pairwise fun entry entry' => entry.last ≤ entry'.offset.val
  before_toc : ∀ entry ∈ entries, entry.last ≤ f.tocStart

/-- A file that opened with the rows of what was written. -/
structure Holds (x : Externals Identity Seed) (f : SealedFile) (rows : List TocRegionSpec)
    (writes : List RegionWrite) : Prop where
  toc_eq : ∃ toc, f.toc x = .ok toc ∧ toc.regions = some (rows.map TocRegionSpec.table)
  placed : List.Forall₂ (Placed f.mmap) rows writes
  short : f.mmap.length < 2 ^ 63
  inBlocks : f.InBlocks (rows.map TocRegionSpec.table)

/-- A finished image opens, and holds what was written in its generation. -/
lemma holds_finish (hx : x.RoundTrip) (h : LaidOut header im writes)
    {generation parentGeneration : U64} {fileUuid : Uuid} {storage : StorageMode} {bytes : Bytes}
    (hfinish : finish x im generation parentGeneration fileUuid storage = .ok bytes) :
    ∃ f, fromMmap x bytes = .ok f ∧ f.header = header ∧ f.Holds x im.tocRegions writes ∧
      (f.toc x).map Toc.generation = .ok generation := by
  obtain ⟨tocBytes, htoc, rfl, hlen⟩ := finish_eq_ok hfinish
  obtain ⟨rest, hrest⟩ := h.front
  have hpad : padToAlignment im.buf =
      header.encode ++ (rest ++ List.replicate (padLen im.buf.length) 0) := by
    rw [← List.append_assoc, ← hrest]
    rfl
  have hmod : (padToAlignment im.buf).length % alignment = 0 := by
    rw [length_padToAlignment]
    exact alignUp_mod _
  have hle : im.buf.length ≤ (padToAlignment im.buf).length :=
    length_padToAlignment im.buf ▸ le_alignUp _
  have hsum := hlen
  rw [List.length_append, Footer.length_encode] at hsum
  have hstart : (toU64 (padToAlignment im.buf).length).val = (padToAlignment im.buf).length :=
    val_toU64 (by rw [List.length_append] at hsum; omega)
  have hend : (toU64 ((padToAlignment im.buf ++ tocBytes).length + footerSize)).val =
      (padToAlignment im.buf ++ tocBytes).length + footerSize := val_toU64 (by omega)
  have hoffset : (toU64 ((padToAlignment im.buf ++ tocBytes).length + footerSize) -
      toU64 (padToAlignment im.buf).length).val = tocBytes.length + footerSize := by
    have hge : toU64 (padToAlignment im.buf).length ≤
        toU64 ((padToAlignment im.buf ++ tocBytes).length + footerSize) := by
      rw [Fin.le_def, hstart, hend, List.length_append]
      omega
    rw [Fin.sub_val_of_le hge, hstart, hend, List.length_append]
    omega
  obtain ⟨footer, hfooter⟩ : ∃ footer : Footer, footer =
      ⟨toU64 ((padToAlignment im.buf ++ tocBytes).length + footerSize) -
        toU64 (padToAlignment im.buf).length, x.hashBytes tocBytes⟩ := ⟨_, rfl⟩
  rw [← hfooter] at hlen ⊢
  have hroot := hx.toc _ _ htoc
  have hopen := @fromMmap_layout _ _ x header (rest ++ List.replicate (padLen im.buf.length) 0)
    tocBytes _ footer (by rw [← hpad]; exact hmod) (hx.toc_ne_nil _ _ htoc)
    (by rw [hfooter]; exact hoffset) (by rw [hfooter]) hroot
  rw [← hpad] at hopen
  have hmmap : ∀ tail, padToAlignment im.buf ++ tocBytes ++ tail =
      im.buf ++ (List.replicate (padLen im.buf.length) 0 ++ tocBytes ++ tail) := by
    intro tail
    simp only [padToAlignment, List.append_assoc]
  have hslice : slice (padToAlignment im.buf ++ tocBytes ++ footer.encode)
      (padToAlignment im.buf).length (padToAlignment im.buf ++ tocBytes).length = tocBytes := by
    rw [slice, List.take_left, List.drop_left]
  refine ⟨_, hopen, rfl, ⟨⟨TocSpec.table
    ⟨generation, parentGeneration, fileUuid, storage, im.tocRegions⟩, ?_, rfl⟩, ?_, hlen,
    ?_, hmod, ?_, ?_, ?_⟩, ?_⟩
  · rw [toc, hslice, hroot]
    rfl
  · refine h.placed.imp fun row w hrow => ?_
    rw [hmmap]
    exact hrow.append _
  · refine List.forall_mem_map.mpr fun row hrow => ?_
    obtain ⟨w, hw⟩ := exists_of_mem_left h.placed hrow
    exact hw.aligned
  · exact List.forall_mem_map.mpr h.behind
  · exact List.pairwise_map.mpr h.ordered
  · exact List.forall_mem_map.mpr fun row hrow => (h.last_le row hrow).trans hle
  · rw [toc, hslice, hroot]
    rfl

/-- A file whose regions were appended to its header opens, and holds them. -/
lemma holds_of_writes (hx : x.RoundTrip) {generation parentGeneration : U64} {fileUuid : Uuid}
    {storage : StorageMode} {bytes : Bytes}
    (hfinish : finish x (writes.foldl Format.appendRegion ⟨header.encode, []⟩) generation
      parentGeneration fileUuid storage = .ok bytes) :
    ∃ f rows, fromMmap x bytes = .ok f ∧ f.header = header ∧ f.Holds x rows writes ∧
      (f.toc x).map Toc.generation = .ok generation := by
  obtain ⟨tocBytes, -, hbytes, hlen⟩ := finish_eq_ok hfinish
  have hle := le_alignUp (writes.foldl Format.appendRegion ⟨header.encode, []⟩).buf.length
  rw [← length_padToAlignment] at hle
  have hsize : (writes.foldl Format.appendRegion ⟨header.encode, []⟩).buf.length < 2 ^ 64 := by
    rw [hbytes, List.length_append, List.length_append] at hlen
    omega
  obtain ⟨f, hopen, hheader, hholds, hgeneration⟩ :=
    holds_finish hx ((laidOut_nil header).foldl writes hsize) hfinish
  exact ⟨f, _, hopen, hheader, hholds, hgeneration⟩

end SealedFile

end Orchid.Format
