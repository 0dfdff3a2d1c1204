import Orchid.Document.Deletion
import Orchid.Document.StyleRange

/-!
# Styling a selection

What `SetRunStyle` does with a selection from a position of one paragraph to a position of the same
or another one.
-/

namespace Orchid.Document

open Lib
open String (utf8Len)

/-! ### The characters of a document -/

/-- The characters of the paragraphs, in reading order. -/
def charsOf (l : List (Place × Paragraph)) : List StyledChar :=
  l.flatMap fun x => charStyles x.2.runs

/-- The characters of the body. -/
def chars (d : Document) : List StyledChar := charsOf (places d.blocks)

/-- The characters of a block. -/
def Block.chars : Block → List StyledChar
  | .paragraph p => charStyles p.runs
  | .table t => t.rows.flatMap fun row => row.cells.flatMap fun cell =>
      cell.paragraphs.flatMap fun p => charStyles p.runs
  | .image _ => []

/-! ### Styled selections -/

/-- A selection between two positions in the text of paragraphs. -/
structure StyledSelection (d : Document) where
  sel : Selection
  start : Cursor
  stop : Cursor
  normalized : sel.normalized = (start, stop)
  startP : Paragraph
  stopP : Paragraph
  startRef : paragraphRef d.blocks start = some startP
  stopRef : paragraphRef d.blocks stop = some stopP
  startIn : startP.HasPosition start.runIdx start.byteOffset
  stopIn : stopP.HasPosition stop.runIdx stop.byteOffset
  startText : ∀ path ∈ start.cell, path.imageIdx = none
  stopText : ∀ path ∈ stop.cell, path.imageIdx = none

variable {d : Document}

namespace StyledSelection

/-- How many characters stand in front of the start. -/
def startAt (s : StyledSelection d) : ℕ :=
  (charsOf (s.start.front d.blocks)).length +
    (s.startP.textBefore s.start.runIdx s.start.byteOffset).length

/-- How many characters stand in front of the end. -/
def stopAt (s : StyledSelection d) : ℕ :=
  (charsOf (s.stop.front d.blocks)).length +
    (s.stopP.textBefore s.stop.runIdx s.stop.byteOffset).length

/-- The text is unchanged and exactly the characters of the selection are patched. -/
structure Styles (s : StyledSelection d) (patch : RunStylePatch) (d' : Document) : Prop where
  text : d'.plainText = d.plainText
  chars : d'.chars = d.chars.take (min s.startAt s.stopAt) ++
    ((d.chars.take (max s.startAt s.stopAt)).drop (min s.startAt s.stopAt)).map patch.onChar ++
      d.chars.drop (max s.startAt s.stopAt)

/-- The start is not behind the end; the run of a collapsed selection is empty; a selection over
several paragraphs lies in the body, no table with a text lies in it, and if it ends at the very
beginning of a paragraph, the first run there is empty. -/
structure Clean (s : StyledSelection d) : Prop where
  ordered : s.startAt ≤ s.stopAt
  collapsed : s.start.sameParagraph s.stop → s.start.runIdx = s.stop.runIdx →
    s.start.byteOffset = s.stop.byteOffset → ∀ r ∈ s.startP.runs[s.start.runIdx]?, r.text = []
  body : ¬ s.start.sameParagraph s.stop → s.start.cell = none ∧ s.stop.cell = none
  tables : ¬ s.start.sameParagraph s.stop → ∀ i t, s.start.blockIdx < i → i < s.stop.blockIdx →
    d.blocks[i]? = some (.table t) → (Block.table t).chars = []
  beginning : ¬ s.start.sameParagraph s.stop → s.stop.runIdx = 0 → s.stop.byteOffset = 0 →
    ∀ r ∈ s.stopP.runs[0]?, r.text = []

end StyledSelection

/-! ### Characters of blocks -/

lemma charsOf_append (l l' : List (Place × Paragraph)) :
    charsOf (l ++ l') = charsOf l ++ charsOf l' :=
  List.flatMap_append

lemma flatMap_enumFlatMap {α β γ : Type} (f : α → ℕ → List β) (g : β → List γ) (l : List α) :
    (enumFlatMap f l).flatMap g = enumFlatMap (fun x i => (f x i).flatMap g) l :=
  List.flatMap_assoc

lemma Block.charsOf_places (block : Block) (bi : ℕ) : charsOf (block.places bi) = block.chars := by
  cases block with
  | paragraph p => exact List.flatMap_singleton _ _
  | image i => rfl
  | table t =>
    simp only [charsOf, Block.places, Block.chars, flatMap_enumFlatMap, TableRow.places,
      TableCell.places, List.flatMap_singleton]
    rw [← enumFlatMap_const]
    congr 1
    funext row ri
    rw [← enumFlatMap_const]
    congr 1
    funext cell ci
    rw [← enumFlatMap_const]

lemma charsOf_places (blocks : List Block) :
    charsOf (places blocks) = blocks.flatMap Block.chars := by
  rw [charsOf, places, flatMap_enumFlatMap, ← enumFlatMap_const]
  congr 1
  funext block bi
  exact block.charsOf_places bi

/-! ### One block of the selection -/

variable {start stop : Cursor} {patch : RunStylePatch} {p : Paragraph} {bi : ℕ}
  {front back : List Run}

/-- Style one block of a selection over several blocks. -/
def styleBlock (start stop : Cursor) (patch : RunStylePatch) (bi : ℕ) : Edit Block Unit := do
  match ← get with
  | .paragraph _ =>
    asParagraph.borrow Fault.editOutOfBounds (applySetRunStyleInBlock start stop patch bi)
  | _ => return ()

/-- The paragraph the selection starts in is patched from there on. -/
lemma run_inBlock_first (hcut : p.Cut start.runIdx start.byteOffset front back)
    (hlt : start.blockIdx < stop.blockIdx) :
    ∃ p', (applySetRunStyleInBlock start stop patch start.blockIdx).run p = .ok () p' ∧
      charStyles p'.runs = charStyles front ++ (charStyles back).map patch.onChar := by
  have hne := ensured_runs_ne_nil p
  obtain ⟨front₁, back₁, hcut₁, hfront, hback⟩ := hcut.ensured
  obtain ⟨all, none, hlast, hall, hnone⟩ := cut_last hne
  have hle : (charStyles front₁).length ≤ (charStyles all).length := by
    rw [hall, ← hcut₁.charStyles_eq, List.length_append]
    exact Nat.le_add_right _ _
  obtain ⟨p', mid, hrun, hmid, hchars⟩ := @run_applyStyle_clean p.ensured patch _ _ _ _ start
    ⟨0, .none, _, _⟩ hcut₁ hlast hne hle (fun _ _ => rfl)
  refine ⟨p', ?_, ?_⟩
  · rw [applySetRunStyleInBlock, EStateM.run_bind, run_ensureRun]
    simp only [EStateM.run_bind, EStateM.run_get, hlt.ne, if_true, if_false, and_false, false_and]
    exact hrun
  · have hmid' : mid = charStyles back₁ :=
      List.append_cancel_left (hmid.symm.trans (hall.trans hcut₁.charStyles_eq.symm))
    rw [hchars, hnone, List.append_nil, hmid', hfront, hback]

/-- A paragraph inside the selection is patched as a whole. -/
lemma run_inBlock_mid (p : Paragraph) (hlt : start.blockIdx < bi) (hlt' : bi < stop.blockIdx) :
    ∃ p', (applySetRunStyleInBlock start stop patch bi).run p = .ok () p' ∧
      charStyles p'.runs = (charStyles p.runs).map patch.onChar := by
  have hne := ensured_runs_ne_nil p
  obtain ⟨none', all', hzero, hnone', hall'⟩ := cut_zero hne
  obtain ⟨all, none, hlast, hall, hnone⟩ := cut_last hne
  obtain ⟨p', mid, hrun, hmid, hchars⟩ := @run_applyStyle_clean p.ensured patch _ _ _ _
    ⟨0, .none, 0, 0⟩ ⟨0, .none, _, _⟩ hzero hlast hne (by simp [hnone']) (fun _ _ => rfl)
  refine ⟨p', ?_, ?_⟩
  · rw [applySetRunStyleInBlock, EStateM.run_bind, run_ensureRun]
    simp only [EStateM.run_bind, EStateM.run_get, hlt.ne', hlt'.ne, if_false, false_and]
    exact hrun
  · rw [hnone', List.nil_append] at hmid
    rw [hchars, hnone, List.append_nil, hnone', List.nil_append, ← hmid, hall, charStyles_ensured]

/-- The paragraph the selection ends in is patched up to there. -/
lemma run_inBlock_last (hcut : p.Cut stop.runIdx stop.byteOffset front back)
    (hlt : start.blockIdx < stop.blockIdx)
    (hbegin : stop.runIdx = 0 → stop.byteOffset = 0 → ∀ r ∈ p.runs[0]?, r.text = []) :
    ∃ p', (applySetRunStyleInBlock start stop patch stop.blockIdx).run p = .ok () p' ∧
      charStyles p'.runs = (charStyles front).map patch.onChar ++ charStyles back := by
  have hne := ensured_runs_ne_nil p
  obtain ⟨front₁, back₁, hcut₁, hfront, hback⟩ := hcut.ensured
  obtain ⟨none, all, hzero, hnone, hall⟩ := cut_zero hne
  have hempty (hrun : 0 = stop.runIdx) (hbyte : 0 = stop.byteOffset) :
      stop.byteOffset = p.ensured.runLen stop.runIdx := by
    obtain ⟨r, rest, hruns⟩ := List.exists_cons_of_ne_nil hne
    have hr : r.text = [] :=
      ensured_getElem? (hbegin hrun.symm hbyte.symm) r (by simp [hruns])
    rw [← hrun, ← hbyte]
    simp [Paragraph.runLen, hruns, hr]
  obtain ⟨p', mid, hrun, hmid, hchars⟩ := @run_applyStyle_clean p.ensured patch _ _ _ _
    ⟨0, .none, 0, 0⟩ stop hzero hcut₁ hne (by simp [hnone]) hempty
  refine ⟨p', ?_, ?_⟩
  · rw [applySetRunStyleInBlock, EStateM.run_bind, run_ensureRun]
    simp only [EStateM.run_bind, EStateM.run_get, hlt.ne', if_true, if_false, false_and]
    exact hrun
  · rw [hnone, List.nil_append] at hmid
    rw [hchars, hnone, List.nil_append, ← hmid, hfront, hback]

/-- If the selection ends at the very beginning of a paragraph, the first run there is patched. -/
lemma run_inBlock_beginning (hlt : start.blockIdx < stop.blockIdx)
    (hzero : stop.runIdx = 0 ∧ stop.byteOffset = 0) :
    ∃ p', (applySetRunStyleInBlock start stop patch stop.blockIdx).run p = .ok () p' ∧
      ∀ {r rest}, p.runs = r :: rest →
        charStyles p'.runs = (charStyles [r]).map patch.onChar ++ charStyles rest := by
  obtain ⟨r, rest, hruns⟩ := List.exists_cons_of_ne_nil (ensured_runs_ne_nil p)
  have hruns' : p.ensured.runs = [] ++ r :: ([] ++ rest) := hruns
  obtain ⟨p', hfrom, hchars⟩ := @run_styleFrom p.ensured patch [] [] rest r [] r.text hruns' rfl
  refine ⟨p', ?_, ?_⟩
  · have hend : (splitRangeEnd 0 0 0).run p.ensured = .ok 0 p.ensured := rfl
    have hbounds : ¬ (0 ≥ p.ensured.runs.length ∨ 0 ≥ p.ensured.runs.length) := by simp [hruns]
    rw [applySetRunStyleInBlock, EStateM.run_bind, run_ensureRun]
    simp only [EStateM.run_bind, EStateM.run_get, hlt.ne', hzero, if_true, if_false, false_and]
    rw [applyStyleToParagraphRange]
    simp only [EStateM.run_bind, EStateM.run_get, hbounds, if_false, hend]
    exact hfrom
  · intro r' rest' hp
    have hensured : p.ensured = p := by simp [Paragraph.ensured, hp]
    rw [hensured, hp] at hruns
    obtain ⟨rfl, rfl⟩ := List.cons.inj hruns
    exact hchars

lemma run_inBlock_stop (hcut : p.Cut stop.runIdx stop.byteOffset front back)
    (hlt : start.blockIdx < stop.blockIdx) :
    ∃ p', (applySetRunStyleInBlock start stop patch stop.blockIdx).run p = .ok () p' := by
  by_cases hzero : stop.runIdx = 0 ∧ stop.byteOffset = 0
  · obtain ⟨p', hrun, -⟩ := @run_inBlock_beginning start stop patch p hlt hzero
    exact ⟨p', hrun⟩
  · obtain ⟨p', hrun, -⟩ := @run_inBlock_last start stop patch p _ _ hcut hlt
      fun hrun hbyte => absurd ⟨hrun, hbyte⟩ hzero
    exact ⟨p', hrun⟩

lemma run_styleBlock_paragraph {p' : Paragraph}
    (h : (applySetRunStyleInBlock start stop patch bi).run p = .ok () p') :
    (styleBlock start stop patch bi).run (.paragraph p) = .ok () (.paragraph p') := by
  have hget : asParagraph.get? (.paragraph p) = some p := rfl
  rw [styleBlock]
  simp only [EStateM.run_bind, EStateM.run_get, Focus.run_borrow, hget, h]
  rfl

/-- The characters of a block inside the selection, after the edit: a table is passed over. -/
def styledChars (patch : RunStylePatch) : Block → List StyledChar
  | .table t => (Block.table t).chars
  | block => block.chars.map patch.onChar

lemma run_styleBlock_mid (block : Block) (hlt : start.blockIdx < bi) (hlt' : bi < stop.blockIdx) :
    ∃ block', (styleBlock start stop patch bi).run block = .ok () block' ∧
      block'.chars = styledChars patch block := by
  cases block with
  | paragraph p =>
    obtain ⟨p', hrun, hchars⟩ := @run_inBlock_mid start stop patch bi p hlt hlt'
    exact ⟨.paragraph p', run_styleBlock_paragraph hrun, hchars⟩
  | table t => exact ⟨.table t, rfl, rfl⟩
  | image i => exact ⟨.image i, rfl, rfl⟩

/-! ### All blocks of the selection -/

/-- One step of the loop over the blocks of a selection. -/
def styleBlockAt (start stop : Cursor) (patch : RunStylePatch) (bi : ℕ) : Edit Document Unit :=
  (blockAt bi).borrow .editOutOfBounds (styleBlock start stop patch bi)

lemma run_styleBlockAt {pre post : List Block} {block block' : Block} (d : Document)
    (h : (styleBlock start stop patch pre.length).run block = .ok () block') :
    (styleBlockAt start stop patch pre.length).run { d with blocks := pre ++ block :: post } =
      .ok () { d with blocks := pre ++ block' :: post } := by
  have hget : (blockAt pre.length).get? { d with blocks := pre ++ block :: post } = some block := by
    simp [blockAt, Focus.comp, blocksOf, Focus.field, Focus.index]
  rw [styleBlockAt, Focus.run_borrow]
  simp only [hget, h]
  simp [blockAt, Focus.comp, blocksOf, Focus.field, Focus.index]

lemma run_forM_cons {β : Type} {f : β → Edit Document PUnit} {b : β} {l : List β}
    {d d' : Document} (h : (f b).run d = .ok () d') :
    ((b :: l).forM f).run d = (l.forM f).run d' := by
  have hcons : (b :: l).forM f = f b >>= fun _ => l.forM f := rfl
  rw [hcons, EStateM.run_bind, h]

/-- The blocks behind the first one of the selection, up to the last one. -/
lemma run_styleBlocks (d : Document) {last last' : Block} (mids : List Block)
    (pre post : List Block) (hlt : start.blockIdx < pre.length)
    (hlen : pre.length + mids.length = stop.blockIdx)
    (hlast : (styleBlock start stop patch stop.blockIdx).run last = .ok () last') :
    ∃ mids' : List Block,
      ((List.range' pre.length (mids.length + 1)).forM (styleBlockAt start stop patch)).run
        { d with blocks := pre ++ (mids ++ last :: post) } =
          .ok () { d with blocks := pre ++ (mids' ++ last' :: post) } ∧
      mids'.flatMap Block.chars = mids.flatMap (styledChars patch) := by
  induction mids generalizing pre with
  | nil =>
    rw [List.length_nil, Nat.add_zero] at hlen
    rw [← hlen] at hlast
    refine ⟨[], ?_, rfl⟩
    exact run_forM_cons (run_styleBlockAt d hlast)
  | cons block mids ih =>
    rw [List.length_cons] at hlen
    obtain ⟨block', hrun, hchars⟩ := @run_styleBlock_mid start stop patch pre.length block hlt
      (by omega)
    obtain ⟨mids', hloop, hchars'⟩ := ih (pre ++ [block']) (by simp; omega) (by simp; omega)
    refine ⟨block' :: mids', ?_, ?_⟩
    · rw [List.length_append, List.length_singleton] at hloop
      have hfirst := @run_styleBlockAt _ _ _ pre (mids ++ last :: post) _ _ d hrun
      rw [List.length_cons, List.range'_succ, List.cons_append, run_forM_cons hfirst]
      simpa using hloop
    · rw [List.flatMap_cons, List.flatMap_cons, hchars, hchars']

/-- A selection over several blocks of the body. -/
lemma run_applySetRunStyle_blocks {sel : Selection} (hnorm : sel.normalized = (start, stop))
    (hstart : start.cell = none) (hstop : stop.cell = none) {before mids behind : List Block}
    {q q' : Paragraph}
    (hblocks : d.blocks = before ++ .paragraph p :: (mids ++ .paragraph q :: behind))
    (hfirst : before.length = start.blockIdx)
    (hlast : before.length + 1 + mids.length = stop.blockIdx)
    (hcut : p.Cut start.runIdx start.byteOffset front back)
    (hrun' : (applySetRunStyleInBlock start stop patch stop.blockIdx).run q = .ok () q') :
    ∃ d', (applySetRunStyle sel patch).run d = .ok () d' ∧
      d'.blocks.flatMap Block.chars = before.flatMap Block.chars ++ (charStyles front ++
        ((charStyles back).map patch.onChar ++ (mids.flatMap (styledChars patch) ++
          (charStyles q'.runs ++ behind.flatMap Block.chars)))) := by
  have hlt : start.blockIdx < stop.blockIdx := by omega
  obtain ⟨p', hrun, hchars⟩ := @run_inBlock_first start stop patch p front back hcut hlt
  obtain ⟨mids', hloop, hmids⟩ := @run_styleBlocks start stop patch d _ _ mids
    (before ++ [.paragraph p']) behind (by simp; omega) (by simp; omega)
    (run_styleBlock_paragraph hrun')
  refine ⟨{ d with blocks := before ++ .paragraph p' :: (mids' ++ .paragraph q' :: behind) },
    ?_, ?_⟩
  · have hsame : start.sameParagraph stop = false := by simp [Cursor.sameParagraph, hlt.ne]
    have hbounds : ¬ (start.blockIdx > stop.blockIdx ∨ stop.blockIdx ≥ d.blocks.length) := by
      rw [hblocks]
      simp
      omega
    have hcount : stop.blockIdx + 1 - start.blockIdx = mids.length + 1 + 1 := by omega
    have hfirstRun := @run_styleBlockAt start stop patch before
      (mids ++ .paragraph q :: behind) _ _ d (run_styleBlock_paragraph (hfirst ▸ hrun))
    rw [← hblocks] at hfirstRun
    have hall := run_forM_cons (l := List.range' (before.length + 1) (mids.length + 1)) hfirstRun
    rw [List.length_append, List.length_singleton, List.append_assoc, List.append_assoc] at hloop
    rw [applySetRunStyle]
    simp only [hnorm, hsame, hstart, hstop]
    rw [if_neg Bool.false_ne_true, if_neg (by simp), EStateM.run_bind, EStateM.run_get]
    dsimp only
    rw [if_neg hbounds, hcount, ← hfirst, List.range'_succ]
    exact hall.trans hloop
  · simp only [List.flatMap_append, List.flatMap_cons, hmids, Block.chars, hchars,
      List.append_assoc]

/-! ### Places of the ends -/

lemma charsOf_front {c : Cursor} (hcell : c.cell = none) {before behind : List Block}
    (hblocks : d.blocks = before ++ .paragraph p :: behind) (hlen : before.length = c.blockIdx) :
    charsOf (c.front d.blocks) = before.flatMap Block.chars := by
  have hpl : places d.blocks = places before ++ (c.textPlace, p) ::
      (behind.zipIdx (before.length + 1)).flatMap fun x => Block.places x.1 x.2 := by
    rw [places, hblocks, enumFlatMap_append, List.zipIdx_cons, List.flatMap_cons, Cursor.textPlace,
      hcell, ← hlen]
    rfl
  rw [(front_behind_eq hpl).1, charsOf_places]

/-- The patched list for a known part. -/
lemma patched_eq {l a m b : List StyledChar} (h : l = a ++ (m ++ b)) {i j : ℕ} (hi : i = a.length)
    (hj : j = a.length + m.length) (f : StyledChar → StyledChar) :
    l.take (min i j) ++ ((l.take (max i j)).drop (min i j)).map f ++ l.drop (max i j) =
      a ++ (m.map f ++ b) := by
  have hmin : min i j = a.length := by omega
  have hmax : max i j = (a ++ m).length := by simp; omega
  rw [hmin, hmax, h, List.take_left, ← List.append_assoc, List.take_left, List.drop_left,
    List.drop_left, List.append_assoc]

namespace StyledSelection

/-- The two ends are in different blocks of the body, the start in front. -/
lemma blocks_of_body (s : StyledSelection d) (hdiff : ¬ s.start.sameParagraph s.stop)
    (hcells : s.start.cell = none ∧ s.stop.cell = none) :
    ∃ before mids behind, d.blocks =
        before ++ .paragraph s.startP :: (mids ++ .paragraph s.stopP :: behind) ∧
      before.length = s.start.blockIdx ∧ before.length + 1 + mids.length = s.stop.blockIdx := by
  have hlt : s.start.blockIdx < s.stop.blockIdx := by
    have hne : s.start.blockIdx ≠ s.stop.blockIdx := by
      intro heq
      exact hdiff (by simp [Cursor.sameParagraph, heq, hcells])
    refine Nat.lt_of_le_of_ne (Nat.le_of_not_lt fun hgt => ?_) hne
    have hnorm := s.normalized
    rw [Selection.normalized] at hnorm
    split_ifs at hnorm with hcmp <;> obtain ⟨hfst, hsnd⟩ := Prod.mk.inj hnorm
    · rw [hfst, hsnd, cmpCursor_of_block hne.symm, Nat.compare_eq_gt] at hcmp
      omega
    · rw [hfst, hsnd, cmpCursor_of_block hne] at hcmp
      exact hcmp (Nat.compare_eq_gt.2 hgt)
  obtain ⟨before, rest, hblocks, hlen⟩ :=
    exists_append_of_getElem? (LongSelection.paragraph_of_body hcells.1 s.startRef).2
  have hstop := (LongSelection.paragraph_of_body hcells.2 s.stopRef).2
  obtain ⟨k, hk⟩ : ∃ k, s.stop.blockIdx = before.length + (1 + k) :=
    ⟨s.stop.blockIdx - before.length - 1, by omega⟩
  rw [hblocks, hk, List.getElem?_append_right (by omega), Nat.add_sub_cancel_left, Nat.add_comm 1,
    List.getElem?_cons_succ] at hstop
  obtain ⟨mids, behind, rfl, rfl⟩ := exists_append_of_getElem? hstop
  exact ⟨before, mids, behind, hblocks, hlen, by omega⟩

lemma plainText_eq_of_run (s : StyledSelection d) {patch : RunStylePatch} {d' : Document}
    (h : (applySetRunStyle s.sel patch).run d = .ok () d') : d'.plainText = d.plainText := by
  obtain ⟨blocks, rfl, htexts⟩ := relates_applySetRunStyle s.sel patch h
  rw [Document.plainText, Document.plainText, bodyText_eq, bodyText_eq, texts_places, texts_places,
    htexts]

lemma run_setRunStyle_iff (s : StyledSelection d) {patch : RunStylePatch} {inverse : EditCommand}
    {d' : Document} : (applyCommand (.setRunStyle s.sel patch)).run d = .ok inverse d' ↔
      (applySetRunStyle s.sel patch).run d = .ok () d' ∧ inverse = .replaceBlocks d.blocks := by
  rw [applyCommand, EStateM.run_bind, EStateM.run_get]
  dsimp only
  rw [Run.bind_eq_ok]
  constructor
  · rintro ⟨_, d₁, hrun, hpure⟩
    cases hpure
    exact ⟨hrun, rfl⟩
  · rintro ⟨hrun, rfl⟩
    exact ⟨(), d', hrun, rfl⟩

/-! ### Both ends in one paragraph -/

lemma same_place (s : StyledSelection d) (hsame : s.start.sameParagraph s.stop) :
    s.stop.front d.blocks = s.start.front d.blocks ∧ s.stopP = s.startP := by
  obtain ⟨hblock, hcell⟩ : s.start.blockIdx = s.stop.blockIdx ∧ s.start.cell = s.stop.cell := by
    simpa [Cursor.sameParagraph] using hsame
  have hstart := s.startRef
  have hstop := s.stopRef
  rw [← get?_paragraphMut, paragraphMut] at hstart hstop
  rw [← hblock, ← hcell] at hstop
  refine ⟨?_, Option.some.inj (hstop.symm.trans hstart)⟩
  rw [Cursor.front, Cursor.front, Cursor.textPlace, Cursor.textPlace, hblock, hcell]

/-- A selection in one paragraph works on this paragraph alone. -/
lemma run_same (s : StyledSelection d) (hsame : s.start.sameParagraph s.stop)
    (patch : RunStylePatch) {d' : Document} :
    (applySetRunStyle s.sel patch).run d = .ok () d' ↔
      ∃ p', (applySetRunStyleOnePara s.start s.stop patch).run s.startP = .ok () p' ∧
        (paragraphMut s.start).set p' d = d' := by
  have hget : (paragraphMut s.start).get? d = some s.startP := by
    rw [get?_paragraphMut]
    exact s.startRef
  rw [applySetRunStyle]
  simp only [s.normalized, hsame, if_true]
  rw [Focus.borrow_eq_ok, hget]
  simp

lemma chars_same (s : StyledSelection d) :
    d.chars = charsOf (s.start.front d.blocks) ++ (charStyles s.startP.runs ++
        charsOf (s.start.behind d.blocks)) ∧
      ∀ p', ((paragraphMut s.start).set p' d).chars = charsOf (s.start.front d.blocks) ++
        (charStyles p'.runs ++ charsOf (s.start.behind d.blocks)) := by
  have hget : (paragraphMut s.start).get? d = some s.startP := by
    rw [get?_paragraphMut]
    exact s.startRef
  obtain ⟨hpl, hset⟩ := places_set_paragraphMut hget
  constructor
  · rw [chars, hpl, charsOf_append]
    rfl
  · intro p'
    obtain ⟨blocks, hblocks, hpl'⟩ := hset p'
    rw [hblocks, chars, hpl', charsOf_append]
    rfl

/-! ### A clean selection -/

lemma styles_same (s : StyledSelection d) (h : s.Clean) (hsame : s.start.sameParagraph s.stop)
    (patch : RunStylePatch) :
    ∃ d', (applySetRunStyle s.sel patch).run d = .ok () d' ∧ s.Styles patch d' := by
  obtain ⟨hfrontEq, hstopP⟩ := s.same_place hsame
  obtain ⟨front, back', hcut⟩ := s.startIn.cut
  obtain ⟨front', back, hcut'⟩ := s.stopIn.cut
  have hstartAt : s.startAt = (charsOf (s.start.front d.blocks)).length +
      (charStyles front).length := by
    rw [startAt, hcut.textBefore_eq, length_charStyles]
  have hstopAt : s.stopAt = (charsOf (s.start.front d.blocks)).length +
      (charStyles front').length := by
    rw [stopAt, hcut'.textBefore_eq, length_charStyles, hfrontEq]
  have hordered := h.ordered
  rw [hstopP] at hcut'
  obtain ⟨p', mid, hrun, hmid, hchars⟩ := @run_onePara s.startP patch _ _ _ _ _ _ hcut hcut'
    (by omega) (h.collapsed hsame)
  obtain ⟨hall, hset⟩ := s.chars_same
  have hok := (s.run_same hsame patch).2 ⟨p', hrun, rfl⟩
  refine ⟨_, hok, s.plainText_eq_of_run hok, ?_⟩
  have hsplit : d.chars = (charsOf (s.start.front d.blocks) ++ charStyles front) ++
      (mid ++ (charStyles back ++ charsOf (s.start.behind d.blocks))) := by
    rw [hall, ← hcut'.charStyles_eq, hmid]
    simp only [List.append_assoc]
  rw [patched_eq hsplit (by rw [hstartAt, List.length_append]) (by
    rw [hstopAt, hmid, List.length_append, List.length_append, Nat.add_assoc]), hset, hchars]
  simp only [List.append_assoc]

/-- Over several blocks, the characters inside the selection but the tables are patched, and those
of the last paragraph as `q'` has them. -/
lemma styles_blocks_iff (s : StyledSelection d) {before mids behind : List Block}
    (hcells : s.start.cell = none ∧ s.stop.cell = none)
    (hblocks : d.blocks = before ++ .paragraph s.startP :: (mids ++ .paragraph s.stopP :: behind))
    (hfirst : before.length = s.start.blockIdx)
    (hlast : before.length + 1 + mids.length = s.stop.blockIdx) {q' : Paragraph}
    {front' back : List Run} (hcut' : s.stopP.Cut s.stop.runIdx s.stop.byteOffset front' back)
    (hrun' : (applySetRunStyleInBlock s.start s.stop patch s.stop.blockIdx).run s.stopP =
      .ok () q') :
    ∃ d', (applySetRunStyle s.sel patch).run d = .ok () d' ∧ s.startAt ≤ s.stopAt ∧
      (s.Styles patch d' ↔
        mids.flatMap (styledChars patch) = (mids.flatMap Block.chars).map patch.onChar ∧
          charStyles q'.runs = (charStyles front').map patch.onChar ++ charStyles back) := by
  obtain ⟨front, back', hcut⟩ := s.startIn.cut
  obtain ⟨d', hrun, hchars⟩ := run_applySetRunStyle_blocks s.normalized hcells.1 hcells.2 hblocks
    hfirst hlast hcut hrun'
  have hchars' : d'.chars = d'.blocks.flatMap Block.chars := charsOf_places _
  have hstartAt : s.startAt = (before.flatMap Block.chars ++ charStyles front).length := by
    rw [startAt, hcut.textBefore_eq, ← length_charStyles, charsOf_front hcells.1 hblocks hfirst,
      List.length_append]
  have hblocks' : d.blocks =
      (before ++ .paragraph s.startP :: mids) ++ .paragraph s.stopP :: behind := by
    rw [hblocks]
    simp
  have hall : d.chars = (before.flatMap Block.chars ++ charStyles front) ++
      ((charStyles back' ++ (mids.flatMap Block.chars ++ charStyles front')) ++
        (charStyles back ++ behind.flatMap Block.chars)) := by
    have hp : Block.chars (.paragraph s.startP) = charStyles front ++ charStyles back' :=
      hcut.charStyles_eq.symm
    have hq : Block.chars (.paragraph s.stopP) = charStyles front' ++ charStyles back :=
      hcut'.charStyles_eq.symm
    rw [chars, charsOf_places, hblocks]
    simp only [List.flatMap_append, List.flatMap_cons, hp, hq, List.append_assoc]
  have hstopAt : s.stopAt = (before.flatMap Block.chars ++ charStyles front).length +
      (charStyles back' ++ (mids.flatMap Block.chars ++ charStyles front')).length := by
    have hp : Block.chars (.paragraph s.startP) = charStyles front ++ charStyles back' :=
      hcut.charStyles_eq.symm
    rw [stopAt, hcut'.textBefore_eq, ← length_charStyles,
      charsOf_front hcells.2 hblocks' (by simp; omega)]
    simp only [List.flatMap_append, List.flatMap_cons, hp, List.length_append]
    omega
  have hlen : (mids.flatMap (styledChars patch)).length =
      ((mids.flatMap Block.chars).map patch.onChar).length := by
    rw [List.length_map]
    clear hchars hall hstopAt hblocks hblocks' hlast
    induction mids with
    | nil => rfl
    | cons block mids ih =>
      have hblock : (styledChars patch block).length = block.chars.length := by
        cases block <;> simp [styledChars]
      rw [List.flatMap_cons, List.flatMap_cons, List.length_append, List.length_append, hblock, ih]
  refine ⟨d', hrun, by omega, ?_⟩
  have hpatched := patched_eq hall hstartAt hstopAt patch.onChar
  constructor
  · rintro ⟨-, hstyles⟩
    rw [hpatched, hchars', hchars] at hstyles
    simp only [List.map_append, List.append_assoc, List.append_cancel_left_eq] at hstyles
    obtain ⟨hmids, hrest⟩ := List.append_inj hstyles hlen
    rw [← List.append_assoc] at hrest
    exact ⟨hmids, List.append_cancel_right hrest⟩
  · rintro ⟨hmids, hq⟩
    refine ⟨s.plainText_eq_of_run hrun, ?_⟩
    rw [hpatched, hchars', hchars, hmids, hq]
    simp only [List.map_append, List.append_assoc]

lemma styledChars_flatMap_iff {mids : List Block} :
    mids.flatMap (styledChars patch) = (mids.flatMap Block.chars).map patch.onChar ↔
      ∀ block ∈ mids, styledChars patch block = block.chars.map patch.onChar := by
  induction mids with
  | nil => simp
  | cons block mids ih =>
    have hblock : (styledChars patch block).length = (block.chars.map patch.onChar).length := by
      cases block <;> simp [styledChars]
    rw [List.forall_mem_cons, ← ih, List.flatMap_cons, List.flatMap_cons, List.map_append]
    exact ⟨fun h => List.append_inj h hblock, fun h => by rw [h.1, h.2]⟩

lemma styles_blocks (s : StyledSelection d) (h : s.Clean) (hdiff : ¬ s.start.sameParagraph s.stop)
    (patch : RunStylePatch) :
    ∃ d', (applySetRunStyle s.sel patch).run d = .ok () d' ∧ s.Styles patch d' := by
  have hcells := h.body hdiff
  obtain ⟨before, mids, behind, hblocks, hfirst, hlast⟩ := s.blocks_of_body hdiff hcells
  obtain ⟨front', back, hcut'⟩ := s.stopIn.cut
  have hlt : s.start.blockIdx < s.stop.blockIdx := by omega
  obtain ⟨q', hrun', hq'⟩ := @run_inBlock_last s.start s.stop patch s.stopP _ _ hcut' hlt
    (h.beginning hdiff)
  obtain ⟨d', hrun, -, hiff⟩ := s.styles_blocks_iff hcells hblocks hfirst hlast hcut' hrun'
  refine ⟨d', hrun, hiff.2 ⟨styledChars_flatMap_iff.2 fun block hmem => ?_, hq'⟩⟩
  cases block with
  | paragraph p => rfl
  | image i => rfl
  | table t =>
    obtain ⟨k, hk⟩ := List.getElem?_of_mem hmem
    have hklt := (List.getElem?_eq_some_iff.1 hk).1
    have hget : d.blocks[before.length + (k + 1)]? = some (.table t) := by
      rw [hblocks, List.getElem?_append_right (by omega), Nat.add_sub_cancel_left,
        List.getElem?_cons_succ, List.getElem?_append_left hklt, hk]
    have hnone := h.tables hdiff _ t (by omega) (by omega) hget
    rw [styledChars, hnone]
    rfl

/-! ### What an unclean selection does -/

/-- No character but none is left alone by every patch. -/
lemma eq_nil_of_fixed {l : List StyledChar}
    (h : ∀ patch : RunStylePatch, l.map patch.onChar = l) : l = [] := by
  cases l with
  | nil => rfl
  | cons c l =>
    have hnone := (List.cons.inj (h { styleId := some none })).1
    have hsome := (List.cons.inj (h { styleId := some (some []) })).1
    have hid : (none : Option Text) = c.2.2.1 := congrArg (fun c : StyledChar => c.2.2.1) hnone
    have hid' : some ([] : Text) = c.2.2.1 := congrArg (fun c : StyledChar => c.2.2.1) hsome
    cases hid.trans hid'.symm

/-- A selection that the edit accepts lies in one paragraph or in the body. -/
lemma body_of_run (s : StyledSelection d) {d' : Document}
    (h : (applySetRunStyle s.sel patch).run d = .ok () d')
    (hdiff : ¬ s.start.sameParagraph s.stop) : s.start.cell = none ∧ s.stop.cell = none := by
  by_contra hcells
  have hsome : s.start.cell.isSome ∨ s.stop.cell.isSome := by
    rw [not_and_or] at hcells
    simpa [Option.isSome_iff_ne_none] using hcells
  rw [applySetRunStyle] at h
  simp only [s.normalized, hdiff, hsome, if_true] at h
  cases h

lemma modify_length_append {α : Type} (f : α → α) (pre post : List α) (x : α) :
    (pre ++ x :: post).modify pre.length f = pre ++ f x :: post := by
  induction pre with
  | nil => rfl
  | cons y pre ih => exact congrArg (y :: ·) ih

/-- The run of a collapsed selection is empty. -/
lemma collapsed_same (s : StyledSelection d) (hsame : s.start.sameParagraph s.stop)
    (h : ∀ patch, ∃ d', (applySetRunStyle s.sel patch).run d = .ok () d' ∧ s.Styles patch d')
    (hrun : s.start.runIdx = s.stop.runIdx) (hbyte : s.start.byteOffset = s.stop.byteOffset) :
    ∀ r ∈ s.startP.runs[s.start.runIdx]?, r.text = [] := by
  intro r hr
  obtain ⟨pre, post, hruns, hlen⟩ := exists_append_of_getElem? hr
  obtain ⟨hfrontEq, hstopP⟩ := s.same_place hsame
  have hat : s.stopAt = s.startAt := by
    rw [startAt, stopAt, hfrontEq, hstopP, hrun, hbyte]
  have hensured : s.startP.ensured = s.startP := by simp [Paragraph.ensured, hruns]
  have hmin : min s.start.runIdx (s.startP.runs.length - 1) = s.start.runIdx := by
    rw [hruns, ← hlen]
    simp
  obtain ⟨hall, hset⟩ := s.chars_same
  have hnone : charStyles [r] = [] := by
    refine eq_nil_of_fixed fun patch => ?_
    obtain ⟨d', hd', -, hstyles⟩ := h patch
    obtain ⟨p', hp', rfl⟩ := (s.run_same hsame patch).1 hd'
    have hone : (applySetRunStyleOnePara s.start s.stop patch).run s.startP =
        .ok () (s.startP.withRuns (s.startP.runs.modify s.start.runIdx patch.applyToRun)) := by
      rw [applySetRunStyleOnePara, EStateM.run_bind, run_ensureRun, hensured]
      simp only [hrun.symm, hbyte.symm, and_self, if_true]
      rw [patchCollapsed, EStateM.run_modify, hmin]
    cases hp'.symm.trans hone
    rw [hat, min_self, max_self, List.drop_take_self, List.map_nil, List.append_nil,
      List.take_append_drop, hset, hall] at hstyles
    have hsameChars := List.append_cancel_right (List.append_cancel_left hstyles)
    have hmodify : s.startP.runs.modify s.start.runIdx patch.applyToRun =
        pre ++ patch.applyToRun r :: post := by
      rw [hruns, ← hlen, modify_length_append]
    have hcons (r : Run) : charStyles (r :: post) = charStyles [r] ++ charStyles post :=
      charStyles_append [r] post
    rw [Paragraph.runs_withRuns, hmodify, hruns, charStyles_append, charStyles_append, hcons,
      hcons r] at hsameChars
    have hr' := List.append_cancel_right (List.append_cancel_left hsameChars)
    rw [← charStyles_map_applyToRun]
    exact hr'
  simpa [charStyles] using hnone

/-- In one paragraph, `cmpCursor` compares runs and bytes. -/
lemma cmpCursor_same {a b : Cursor} (hsame : a.sameParagraph b)
    (htext : ∀ path ∈ a.cell, path.imageIdx = none) : cmpCursor a b = cmpInParagraph a b := by
  obtain ⟨hblock, hcell⟩ : a.blockIdx = b.blockIdx ∧ a.cell = b.cell := by
    simpa [Cursor.sameParagraph] using hsame
  cases hpath : a.cell with
  | none => exact cmpCursor_body hblock hpath (hcell ▸ hpath)
  | some path =>
    have himage := htext path hpath
    have hpath' : b.cell = some path := hcell ▸ hpath
    rw [cmpCursor, hblock, Nat.compare_eq_eq.2 rfl, hpath, hpath']
    simp [cmpCellPath, himage]
    rfl

lemma normalized_same (s : StyledSelection d) (hsame : s.start.sameParagraph s.stop) :
    s.start.runIdx < s.stop.runIdx ∨ s.start.byteOffset < s.stop.byteOffset ∨
      (s.start.runIdx ≤ s.stop.runIdx ∧ s.start.byteOffset ≤ s.stop.byteOffset) := by
  have hsame' : s.stop.sameParagraph s.start := by
    have hboth : s.start.blockIdx = s.stop.blockIdx ∧ s.start.cell = s.stop.cell := by
      simpa [Cursor.sameParagraph] using hsame
    simp [Cursor.sameParagraph, hboth]
  have hnorm := s.normalized
  rw [Selection.normalized] at hnorm
  split_ifs at hnorm with hcmp <;> obtain ⟨hfst, hsnd⟩ := Prod.mk.inj hnorm
  · rw [hfst, hsnd, cmpCursor_same hsame' s.stopText, cmpInParagraph] at hcmp
    split_ifs at hcmp with h₁ h₂
    omega
  · rw [hfst, hsnd, cmpCursor_same hsame s.startText, cmpInParagraph] at hcmp
    split_ifs at hcmp with h₁ h₂
    · omega
    · exact absurd rfl hcmp
    · omega

/-- If the start is behind the end, then in a later run and at a smaller byte offset. -/
lemma reversed (s : StyledSelection d) (hsame : s.start.sameParagraph s.stop)
    {front back front' back' : List Run}
    (hcut : s.startP.Cut s.start.runIdx s.start.byteOffset front back')
    (hcut' : s.startP.Cut s.stop.runIdx s.stop.byteOffset front' back)
    (hlt : (charStyles front').length < (charStyles front).length) :
    s.stop.runIdx < s.start.runIdx ∧ s.start.byteOffset < s.stop.byteOffset := by
  have hne : s.startP.runs ≠ [] := by
    intro hnil
    have hall := hcut.charStyles_eq
    rw [hnil] at hall
    rw [(List.append_eq_nil_iff.1 hall).1] at hlt
    exact Nat.not_lt_zero _ hlt
  have horder : ¬ (s.start.runIdx < s.stop.runIdx ∨
      s.start.runIdx = s.stop.runIdx ∧ s.start.byteOffset < s.stop.byteOffset) := by
    intro horder
    obtain ⟨-, mid, -, hmid, -⟩ := @run_applyStyle s.startP {} _ _ _ _ _ _ hcut hcut' hne horder
    rw [hmid, List.length_append] at hlt
    omega
  have hdiff : ¬ (s.start.runIdx = s.stop.runIdx ∧ s.start.byteOffset = s.stop.byteOffset) := by
    rintro ⟨hrun, hbyte⟩
    rw [hcut.charStyles_take.1, hcut'.charStyles_take.1, hrun, hbyte] at hlt
    exact Nat.lt_irrefl _ hlt
  have hnorm := s.normalized_same hsame
  omega

lemma run_onePara_reversed {p' : Paragraph} (hrun : stop.runIdx < start.runIdx)
    (hbyte : start.byteOffset < stop.byteOffset)
    (h : (applySetRunStyleOnePara start stop patch).run p = .ok () p') :
    charStyles p'.runs = charStyles p.runs := by
  rw [applySetRunStyleOnePara, EStateM.run_bind, run_ensureRun] at h
  simp only [hrun.ne', false_and, if_false] at h
  rw [run_applyStyle_reversed hrun (Nat.ne_zero_of_lt hbyte) h, charStyles_ensured]

/-- The start is not behind the end. -/
lemma ordered_same (s : StyledSelection d) (hsame : s.start.sameParagraph s.stop)
    (h : ∀ patch, ∃ d', (applySetRunStyle s.sel patch).run d = .ok () d' ∧ s.Styles patch d') :
    s.startAt ≤ s.stopAt := by
  by_contra hlt
  obtain ⟨hfrontEq, hstopP⟩ := s.same_place hsame
  obtain ⟨front, back', hcut⟩ := s.startIn.cut
  obtain ⟨front', back, hcut'⟩ := s.stopIn.cut
  rw [hstopP] at hcut'
  have hback : (charStyles front').length < (charStyles front).length := by
    rw [startAt, stopAt, hfrontEq, hstopP, hcut.textBefore_eq, hcut'.textBefore_eq,
      ← length_charStyles, ← length_charStyles] at hlt
    omega
  obtain ⟨hall, hset⟩ := s.chars_same
  obtain ⟨hrun, hbyte⟩ := s.reversed hsame hcut hcut' hback
  have hmid : (d.chars.take s.startAt).drop s.stopAt = [] := by
    refine eq_nil_of_fixed fun patch => ?_
    obtain ⟨d', hd', -, hstyles⟩ := h patch
    obtain ⟨p', hp', rfl⟩ := (s.run_same hsame patch).1 hd'
    have hp := run_onePara_reversed hrun hbyte hp'
    rw [hset, hp, ← hall, min_eq_right (by omega), max_eq_left (by omega)] at hstyles
    have hsplit : d.chars.take s.stopAt ++ (d.chars.take s.startAt).drop s.stopAt ++
        d.chars.drop s.startAt = d.chars := by
      have htake : d.chars.take s.stopAt = (d.chars.take s.startAt).take s.stopAt := by
        rw [List.take_take, min_eq_left (by omega)]
      rw [htake, List.take_append_drop, List.take_append_drop]
    have hboth := hsplit.trans hstyles
    exact (List.append_cancel_left (List.append_cancel_right hboth)).symm
  have hlen := congrArg List.length hmid
  rw [List.length_drop, List.length_take, List.length_nil] at hlen
  have hle : s.startAt ≤ d.chars.length := by
    rw [startAt, hcut.textBefore_eq, ← length_charStyles, hall, ← hcut.charStyles_eq]
    simp only [List.length_append]
    omega
  omega

/-- A table of the selection has no text, and if the selection ends at the very beginning of a
paragraph, the first run there has none. -/
lemma clean_blocks (s : StyledSelection d) (hdiff : ¬ s.start.sameParagraph s.stop)
    (hcells : s.start.cell = none ∧ s.stop.cell = none)
    (h : ∀ patch, ∃ d', (applySetRunStyle s.sel patch).run d = .ok () d' ∧ s.Styles patch d') :
    s.startAt ≤ s.stopAt ∧
      (∀ i t, s.start.blockIdx < i → i < s.stop.blockIdx → d.blocks[i]? = some (.table t) →
        (Block.table t).chars = []) ∧
      (s.stop.runIdx = 0 → s.stop.byteOffset = 0 → ∀ r ∈ s.stopP.runs[0]?, r.text = []) := by
  obtain ⟨before, mids, behind, hblocks, hfirst, hlast⟩ := s.blocks_of_body hdiff hcells
  obtain ⟨front', back, hcut'⟩ := s.stopIn.cut
  have hlt : s.start.blockIdx < s.stop.blockIdx := by omega
  have hstyles (patch : RunStylePatch) {q' : Paragraph}
      (hrun' : (applySetRunStyleInBlock s.start s.stop patch s.stop.blockIdx).run s.stopP =
        .ok () q') :
      (∀ block ∈ mids, styledChars patch block = block.chars.map patch.onChar) ∧
        charStyles q'.runs = (charStyles front').map patch.onChar ++ charStyles back := by
    obtain ⟨d', hrun, hd'⟩ := h patch
    obtain ⟨d'', hrun'', -, hiff⟩ := s.styles_blocks_iff hcells hblocks hfirst hlast hcut' hrun'
    cases hrun.symm.trans hrun''
    obtain ⟨hmids, hq⟩ := hiff.1 hd'
    exact ⟨styledChars_flatMap_iff.1 hmids, hq⟩
  have hlastRun (patch : RunStylePatch) :=
    @run_inBlock_stop s.start s.stop patch s.stopP _ _ hcut' hlt
  refine ⟨?_, ?_, ?_⟩
  · obtain ⟨q', hrun'⟩ := hlastRun {}
    obtain ⟨d', -, hle, -⟩ := s.styles_blocks_iff hcells hblocks hfirst hlast hcut' hrun'
    exact hle
  · intro i t hi hi' hget
    have hmem : Block.table t ∈ mids := by
      obtain ⟨k, hk⟩ : ∃ k, i = before.length + (k + 1) := ⟨i - before.length - 1, by omega⟩
      rw [hblocks, hk, List.getElem?_append_right (by omega), Nat.add_sub_cancel_left,
        List.getElem?_cons_succ, List.getElem?_append_left (by omega)] at hget
      exact List.mem_of_getElem? hget
    refine eq_nil_of_fixed fun patch => ?_
    obtain ⟨q', hrun'⟩ := hlastRun patch
    exact ((hstyles patch hrun').1 _ hmem).symm
  · intro hrun hbyte r hr
    obtain ⟨rest, hruns⟩ : ∃ rest, s.stopP.runs = r :: rest := by
      cases hcase : s.stopP.runs with
      | nil => simp [hcase] at hr
      | cons r' rest =>
        obtain rfl : r' = r := by simpa [hcase] using hr
        exact ⟨rest, rfl⟩
    have hends : charStyles front' = [] ∧ charStyles back = charStyles s.stopP.runs := by
      have hnone : s.stopP.textBefore s.stop.runIdx s.stop.byteOffset = [] := by
        have hsplit : splitAtByte r.text 0 = some ([], r.text) := splitAtByte_append [] r.text
        simp [Paragraph.textBefore, hrun, hbyte, hruns, hsplit]
      rw [hcut'.charStyles_take.1, hcut'.charStyles_take.2, hnone]
      exact ⟨rfl, rfl⟩
    have hnone : charStyles [r] = [] := by
      refine eq_nil_of_fixed fun patch => ?_
      obtain ⟨q', hrun', hq'⟩ :=
        @run_inBlock_beginning s.start s.stop patch s.stopP hlt ⟨hrun, hbyte⟩
      have hq := (hstyles patch hrun').2
      have hcons : charStyles (r :: rest) = charStyles [r] ++ charStyles rest :=
        charStyles_append [r] rest
      rw [hq' hruns, hends.1, hends.2, hruns, hcons, List.map_nil, List.nil_append] at hq
      exact List.append_cancel_right hq
    simpa [charStyles] using hnone

end StyledSelection

/-- Styling does what it should, for every patch, exactly if the selection is clean. -/
theorem styles_iff (d : Document) (s : StyledSelection d) :
    (∀ patch, ∃ inverse d', (applyCommand (.setRunStyle s.sel patch)).run d = .ok inverse d' ∧
      s.Styles patch d') ↔ s.Clean := by
  have hcommand : (∀ patch, ∃ inverse d', (applyCommand (.setRunStyle s.sel patch)).run d =
        .ok inverse d' ∧ s.Styles patch d') ↔
      ∀ patch, ∃ d', (applySetRunStyle s.sel patch).run d = .ok () d' ∧ s.Styles patch d' := by
    refine forall_congr' fun patch => ?_
    constructor
    · rintro ⟨inverse, d', hrun, hstyles⟩
      exact ⟨d', (s.run_setRunStyle_iff.1 hrun).1, hstyles⟩
    · rintro ⟨d', hrun, hstyles⟩
      exact ⟨_, d', s.run_setRunStyle_iff.2 ⟨hrun, rfl⟩, hstyles⟩
  rw [hcommand]
  constructor
  · intro h
    by_cases hsame : s.start.sameParagraph s.stop
    · exact ⟨s.ordered_same hsame h, fun _ => s.collapsed_same hsame h,
        fun hdiff => absurd hsame hdiff, fun hdiff => absurd hsame hdiff,
        fun hdiff => absurd hsame hdiff⟩
    · obtain ⟨d', hrun, -⟩ := h {}
      have hcells := s.body_of_run hrun hsame
      obtain ⟨hle, htables, hbegin⟩ := s.clean_blocks hsame hcells h
      exact ⟨hle, fun hs => absurd hs hsame, fun _ => hcells, fun _ => htables, fun _ => hbegin⟩
  · intro h patch
    by_cases hsame : s.start.sameParagraph s.stop
    · exact s.styles_same h hsame patch
    · exact s.styles_blocks h hsame patch

/-- A selection that ends in front of `B` styles it. -/
theorem not_styles_beginning :
    ¬ ∀ (d : Document) (s : StyledSelection d) (patch : RunStylePatch), ∃ inverse d',
      (applyCommand (.setRunStyle s.sel patch)).run d = .ok inverse d' ∧ s.Styles patch d' := by
  intro h
  let p : Paragraph := { runs := [{ text := ['A'] }] }
  let q : Paragraph := { runs := [{ text := ['B'] }] }
  let start : Cursor := {}
  let stop : Cursor := { blockIdx := 1 }
  obtain ⟨inverse, d', hrun, -, hchars⟩ := h { blocks := [.paragraph p, .paragraph q] }
    { sel := ⟨start, stop⟩, start, stop, normalized := rfl, startP := p, stopP := q,
      startRef := rfl, stopRef := rfl, startIn := .inr ⟨_, rfl, [], ['A'], rfl, rfl⟩
      stopIn := .inr ⟨_, rfl, [], ['B'], rfl, rfl⟩, startText := nofun, stopText := nofun }
    { bold := some true }
  cases hrun
  have hbold : [true, true] = [true, false] := congrArg (fun l => l.map fun c => c.2.1.bold) hchars
  cases hbold

end Orchid.Document
