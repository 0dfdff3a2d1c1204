import Orchid.Document.ParagraphEdit
import Orchid.Document.TableMerge

/-!
# Cell images under edits of a cell

The anchor of a cell image is the index of the paragraph it stands behind. Splitting and joining
paragraphs and merging cells renumber the paragraphs.
-/

namespace Orchid.Document

open Lib

/-! ### Edits inside a cell -/

/-- Every image is anchored at a paragraph of the cell. -/
def TableCell.AnchorsIn (cell : TableCell) : Prop :=
  ∀ img ∈ cell.images, img.afterParagraph < cell.paragraphs.length

/-- A cell all of whose images are anchored at one of its paragraphs. -/
def AnchoredCell : Type := { cell : TableCell // cell.AnchorsIn }

/-- An edit inside a cell: split a paragraph, join the paragraphs `first` to `last`, or merge with
another cell. -/
inductive CellEdit where
  | split (paraIdx : ℕ) (pos : Cursor)
  | join (first last : ℕ) (start stop : Cursor)
  | merge (src : AnchoredCell)

namespace CellEdit

def apply (cell : TableCell) : CellEdit → Except Fault TableCell
  | split paraIdx pos => cell.splitParagraph paraIdx pos
  | join first last start stop => cell.joinParagraphs first last start stop
  | merge src => .ok (cell.appendCellContent src.1 cell.paragraphs.length)

/-- The merged cell drops the paragraph of the other one, since it is the only one and empty. -/
def DropsParagraph (cell src : TableCell) : Prop :=
  cell.paragraphs ≠ [] ∧ src.paragraphs.length = 1 ∧
    src.paragraphs.all fun p => p.plainText = []

/-- Paragraph `j` of the cell, or a half of it, or what it was joined into, is paragraph `j'`
afterwards. -/
def Moves : CellEdit → ℕ → ℕ → Prop
  | split k _, j, j' => j < k ∧ j' = j ∨ j = k ∧ (j' = k ∨ j' = k + 1) ∨ k < j ∧ j' = j + 1
  | join first last _ _, j, j' =>
    if j < first ∨ last < first then j' = j
    else if j ≤ last then j' = first
    else j' + (last - first) = j
  | merge _, j, j' => j' = j

/-- Paragraph `j` of the other cell is paragraph `j'` of the merged one; a dropped paragraph counts
as merged into the one in front. -/
def MovesIn (cell src : TableCell) (j j' : ℕ) : Prop :=
  (¬ DropsParagraph cell src ∧ j' = cell.paragraphs.length + j) ∨
    (DropsParagraph cell src ∧ j' + 1 = cell.paragraphs.length)

/-- Every image stays behind its paragraph, and that is a paragraph of the cell. -/
structure KeepsImages (e : CellEdit) (cell cell' : TableCell) : Prop where
  own : ∀ (i : ℕ) img, cell.images[i]? = some img → ∃ img', cell'.images[i]? = some img' ∧
    img'.image = img.image ∧ e.Moves img.afterParagraph img'.afterParagraph
  merged : ∀ src, e = merge src → ∀ (i : ℕ) img, src.1.images[i]? = some img →
    ∃ img', cell'.images[cell.images.length + i]? = some img' ∧ img'.image = img.image ∧
      MovesIn cell src.1 img.afterParagraph img'.afterParagraph
  anchorsIn : cell'.AnchorsIn

/-- A split leaves no image behind a later paragraph, a join none behind a later one than the first;
a merged cell whose only paragraph is dropped has no images. -/
def Clean (cell : TableCell) : CellEdit → Prop
  | split k _ => ∀ img ∈ cell.images, img.afterParagraph ≤ k
  | join first last _ _ => first < last → ∀ img ∈ cell.images, img.afterParagraph ≤ first
  | merge src => DropsParagraph cell src.1 → src.1.images = []

/-! ### One edit -/

variable {cell cell' : TableCell} {e : CellEdit}

lemma keepsImages_split_iff {k : ℕ} {pos : Cursor} (hin : cell.AnchorsIn)
    (h : (split k pos).apply cell = .ok cell') :
    (split k pos).KeepsImages cell cell' ↔ (split k pos).Clean cell := by
  obtain ⟨p, left, right, hp, -, rfl⟩ := TableCell.splitParagraph_eq_ok_iff.1 h
  have hk : k < cell.paragraphs.length := (List.getElem?_eq_some_iff.1 hp).1
  constructor
  · intro hkeep img himg
    obtain ⟨i, hi⟩ := List.mem_iff_getElem?.1 himg
    obtain ⟨img', hi', -, hmoves⟩ := hkeep.own i img hi
    obtain rfl := Option.some.inj (hi.symm.trans hi')
    simp only [Moves] at hmoves
    omega
  · intro hclean
    refine ⟨fun i img hi => ⟨img, hi, rfl, ?_⟩, fun src hsrc => ?_, fun img himg => ?_⟩
    · have hle := hclean img (List.mem_of_getElem? hi)
      rcases Nat.lt_or_eq_of_le hle with hlt | heq
      · exact .inl ⟨hlt, rfl⟩
      · exact .inr (.inl ⟨heq, .inl heq⟩)
    · cases hsrc
    · have := hin img himg
      rw [List.length_insertIdx_of_le_length (by rw [List.length_set]; omega), List.length_set]
      omega

lemma keepsImages_join_iff {first last : ℕ} {start stop : Cursor} (hin : cell.AnchorsIn)
    (h : (join first last start stop).apply cell = .ok cell') :
    (join first last start stop).KeepsImages cell cell' ↔
      (join first last start stop).Clean cell := by
  obtain ⟨startP, endP, runs, hfirst, hlast, -, rfl⟩ := TableCell.joinParagraphs_eq_ok_iff.1 h
  have hfirst : first < cell.paragraphs.length := (List.getElem?_eq_some_iff.1 hfirst).1
  have hlast : last < cell.paragraphs.length := (List.getElem?_eq_some_iff.1 hlast).1
  constructor
  · intro hkeep hlt img himg
    obtain ⟨i, hi⟩ := List.mem_iff_getElem?.1 himg
    obtain ⟨img', hi', -, hmoves⟩ := hkeep.own i img hi
    obtain rfl := Option.some.inj (hi.symm.trans hi')
    simp only [Moves] at hmoves
    split_ifs at hmoves <;> omega
  · intro hclean
    refine ⟨fun i img hi => ⟨img, hi, rfl, ?_⟩, fun src hsrc => ?_, fun img himg => ?_⟩
    · have hle := fun hlt => hclean hlt img (List.mem_of_getElem? hi)
      simp only [Moves]
      split_ifs with hout hspan
      · by_cases hlt : first < last
        · have := hle hlt
          omega
        · omega
      · omega
    · cases hsrc
    · have := hin img himg
      have hle := fun hlt => hclean hlt img himg
      by_cases hlt : last < first
      · simpa [replaceSpan_of_lt hlt] using this
      · simp only [replaceSpan_eq (Nat.not_lt.1 hlt) hlast, List.length_append, List.length_cons,
          List.length_take, List.length_drop]
        by_cases hstrict : first < last
        · have := hle hstrict
          omega
        · omega

/-- The merged cell has the images of both, those of the other one with anchors behind its own
paragraphs. -/
lemma images_append (cell src : TableCell) (n : ℕ) :
    (cell.appendCellContent src n).images =
      cell.images ++ src.images.map fun img =>
        { img with afterParagraph := img.afterParagraph + n } :=
  rfl

lemma length_append_of_drops {cell src : TableCell} (h : DropsParagraph cell src) (n : ℕ) :
    (cell.appendCellContent src n).paragraphs.length = cell.paragraphs.length := by
  obtain ⟨hne, hone⟩ := h
  simp only [TableCell.appendCellContent, if_neg hne, if_pos hone]

lemma length_append_of_keeps {cell src : TableCell} (h : ¬ DropsParagraph cell src) (n : ℕ) :
    (cell.appendCellContent src n).paragraphs.length =
      cell.paragraphs.length + src.paragraphs.length := by
  by_cases hempty : cell.paragraphs = []
  · simp [TableCell.appendCellContent, hempty]
  · have hkeep := fun hone => h ⟨hempty, hone⟩
    simp only [TableCell.appendCellContent, if_neg hempty, if_neg hkeep, List.length_append]

lemma keepsImages_merge_iff {src : AnchoredCell} (hin : cell.AnchorsIn)
    (h : (merge src).apply cell = .ok cell') :
    (merge src).KeepsImages cell cell' ↔ (merge src).Clean cell := by
  obtain rfl := Except.ok.inj h
  have hget (i : ℕ) (img : CellImage) (himg : src.1.images[i]? = some img) :
      (cell.appendCellContent src.1 cell.paragraphs.length).images[cell.images.length + i]? =
        some { img with afterParagraph := img.afterParagraph + cell.paragraphs.length } := by
    rw [images_append, List.getElem?_append_right (by omega)]
    simp [himg]
  constructor
  · intro hkeep hdrop
    refine List.eq_nil_iff_forall_not_mem.2 fun img himg => ?_
    obtain ⟨i, hi⟩ := List.mem_iff_getElem?.1 himg
    obtain ⟨img', hi', -, hmoves⟩ := hkeep.merged src rfl i img hi
    obtain rfl := Option.some.inj ((hget i img hi).symm.trans hi')
    rcases hmoves with ⟨hkept, -⟩ | ⟨-, hlast⟩
    · exact hkept hdrop
    · simp only at hlast
      omega
  · intro hclean
    refine ⟨fun i img hi => ⟨img, ?_, rfl, rfl⟩, ?_, fun img himg => ?_⟩
    · rw [images_append, List.getElem?_append_left (List.getElem?_eq_some_iff.1 hi).1, hi]
    · rintro src' heq i img hi
      obtain rfl := CellEdit.merge.inj heq
      refine ⟨_, hget i img hi, rfl, .inl ⟨fun hdrop => ?_, Nat.add_comm _ _⟩⟩
      rw [hclean hdrop] at hi
      cases hi
    · rw [images_append, List.mem_append] at himg
      by_cases hdrop : DropsParagraph cell src.1
      · rw [length_append_of_drops hdrop]
        rw [hclean hdrop] at himg
        exact hin img (by simpa using himg)
      · rw [length_append_of_keeps hdrop]
        rcases himg with hown | hmerged
        · have := hin img hown
          omega
        · obtain ⟨img, hsrc, rfl⟩ := List.mem_map.1 hmerged
          have := src.2 img hsrc
          simp only
          omega

lemma keepsImages_iff (hin : cell.AnchorsIn) (h : e.apply cell = .ok cell') :
    e.KeepsImages cell cell' ↔ e.Clean cell := by
  cases e with
  | split k pos => exact keepsImages_split_iff hin h
  | join first last start stop => exact keepsImages_join_iff hin h
  | merge src => exact keepsImages_merge_iff hin h

/-! ### Sequences of edits -/

/-- Along the edits that succeed every image stays behind its paragraph. -/
def KeepsImagesAlong : TableCell → List CellEdit → Prop
  | _, [] => True
  | cell, e :: es => ∀ cell', e.apply cell = .ok cell' →
      e.KeepsImages cell cell' ∧ KeepsImagesAlong cell' es

def EachClean : TableCell → List CellEdit → Prop
  | _, [] => True
  | cell, e :: es => ∀ cell', e.apply cell = .ok cell' → e.Clean cell ∧ EachClean cell' es

/-- The images of a cell stay put along a sequence of edits exactly if each of them is clean in the
cell it is applied to. -/
theorem keepsImagesAlong_iff (cell : AnchoredCell) (es : List CellEdit) :
    KeepsImagesAlong cell.1 es ↔ EachClean cell.1 es := by
  induction es generalizing cell with
  | nil => exact Iff.rfl
  | cons e es ih =>
    constructor
    · intro h cell' happ
      obtain ⟨hkeep, hrest⟩ := h cell' happ
      exact ⟨(keepsImages_iff cell.2 happ).1 hkeep, (ih ⟨cell', hkeep.anchorsIn⟩).1 hrest⟩
    · intro h cell' happ
      obtain ⟨hclean, hrest⟩ := h cell' happ
      have hkeep := (keepsImages_iff cell.2 happ).2 hclean
      exact ⟨hkeep, (ih ⟨cell', hkeep.anchorsIn⟩).2 hrest⟩

/-- Joining the two paragraphs of a cell leaves the image of the second one without a paragraph. -/
theorem not_keepsImagesAlong_join : ¬ ∀ (cell : AnchoredCell) (es : List CellEdit),
    KeepsImagesAlong cell.1 es := by
  intro h
  let cell : TableCell :=
    { paragraphs := [{ runs := [{ text := ['A'] }] }, { runs := [{ text := ['B'] }] }]
      images := [{ afterParagraph := 1, image := ⟨[], .png, 1, 1, none, none⟩ }] }
  have hcell : cell.AnchorsIn := by
    unfold TableCell.AnchorsIn
    decide
  have hkeep := (h ⟨cell, hcell⟩ [.join 0 1 { byteOffset := 1 } {}] _ rfl).1
  have hin : 1 < 1 := hkeep.anchorsIn _ List.mem_cons_self
  exact absurd hin (by decide)

/-! ### Where the edits come from -/

variable {d : Document}

/-- Deleting from one cell paragraph to another changes their cell by a join and nothing else. -/
lemma deleteMultiCellParagraph_eq_ok_iff {start stop : Cursor} {blocks : List Block} :
    deleteMultiCellParagraph d start stop = .ok blocks ↔ start.sameCell stop ∧
      ∃ path endPath cell cell', start.cell = some path ∧ stop.cell = some endPath ∧
        (bodyCell start.blockIdx path.row path.col).get? d = some cell ∧
        (join path.paraIdx endPath.paraIdx start stop).apply cell = .ok cell' ∧
        blocks = ((bodyCell start.blockIdx path.row path.col).set cell' d).blocks := by
  by_cases hsame : start.sameCell stop
  · cases hstart : start.cell with
    | none => simp [deleteMultiCellParagraph, hstart]
    | some path =>
      cases hstop : stop.cell with
      | none => simp [deleteMultiCellParagraph, hstart, hstop]
      | some endPath =>
        cases hget : (bodyCell start.blockIdx path.row path.col).get? d with
        | none => simp [deleteMultiCellParagraph, hstart, hstop, hget]
        | some cell =>
          cases happ : cell.joinParagraphs path.paraIdx endPath.paraIdx start stop with
          | error e =>
            simp [deleteMultiCellParagraph, hsame, hstart, hstop, hget, happ, apply, bind,
              Except.bind]
          | ok cell' =>
            simp [deleteMultiCellParagraph, hsame, hstart, hstop, hget, happ, apply, bind,
              Except.bind, pure, Except.pure, eq_comm]
  · simp [deleteMultiCellParagraph, hsame]

end CellEdit

end Orchid.Document
