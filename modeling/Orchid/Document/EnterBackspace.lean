import Orchid.Document.CellSteps
import Orchid.Document.Deletion
import Orchid.Document.Offsets
import Orchid.Document.WordBoundary
import Orchid.Lib.CharBoundary

/-!
# Inserting a paragraph break and deleting it

The return key at a caret in a body paragraph, and the deletion of the break in front of the caret
that it leaves.
-/

namespace Orchid.Document

open Lib
open String (utf8Len)

/-! ### The two edits -/

def selectionFromPlainOffsets (blocks : List Block) (anchor head : ℕ) : Selection :=
  ⟨cursorFromPlainOffset blocks anchor, cursorFromPlainOffset blocks head⟩

/-- Insert a paragraph break in place of the selection. -/
def insertBreakAtCaret (sel : Selection) : Edit (UndoStack × Document) Cursor := do
  let pos ← deleteSelectionIfNeeded sel
  let (_, d) ← get
  let next : Except Fault (List Block × Cursor) :=
    if pos.cell.isSome then splitCellParagraph d pos
    else do
      let blocks ← splitParagraphBlocks d.blocks pos
      return (blocks, { blockIdx := pos.blockIdx + 1 })
  match next with
  | .error e => throw e
  | .ok (blocks, caret) =>
    UndoStack.push (.replaceBlocks blocks)
    return caret

/-- Delete a range; one that leaves a table cell moves the caret only. -/
def deleteOrMoveAcrossCells (range : Selection) : Edit (UndoStack × Document) Cursor := do
  let (start, stop) := range.normalized
  if !start.sameParagraph stop && (start.cell.isSome || stop.cell.isSome) &&
      !start.sameCell stop then
    return start
  deleteSelectionIfNeeded range

/-- `prev_char_boundary`; in an empty text it subtracts from zero. -/
def prevCharBoundaryChecked (text : Text) (offset : ℕ) : Except Fault ℕ :=
  if offset ≠ 0 ∧ text = [] then .error .panic else .ok (prevCharBoundary text offset)

def isImageCursor (d : Document) (cursor : Cursor) : Bool :=
  (cursor.cell.any fun path => path.imageIdx.isSome) ||
    (cursor.cell.isNone && match d.blocks[cursor.blockIdx]? with
      | some (.image _) => true
      | _ => false)

def fallbackCellCaret (d : Document) (cursor : Cursor) (backward : Bool) : Cursor :=
  match cursor.cell with
  | none => cursor
  | some path =>
    let inPara : Cursor :=
      { blockIdx := cursor.blockIdx, cell := some ⟨path.row, path.col, path.paraIdx, none⟩ }
    match if backward then paragraphRef d.blocks inPara else none with
    | some p => endOfPara inPara.blockIdx inPara.cell p
    | none => .inCell cursor.blockIdx path.row path.col 0

def deleteImageCursor (cursor : Cursor) (forward : Bool) : Edit (UndoStack × Document) Cursor := do
  match cursor.cell, cursor.cell.bind CellPath.imageIdx with
  | some path, some imageIdx =>
    UndoStack.push (.removeCellImage cursor.blockIdx path.row path.col imageIdx)
    let (_, d) ← get
    match adjacentInCell d.blocks cursor forward with
    | .error e => throw e
    | .ok next => return next.getD (fallbackCellCaret d cursor !forward)
  | _, _ =>
    UndoStack.push (.removeBlock cursor.blockIdx)
    let (_, d) ← get
    return { blockIdx := min cursor.blockIdx (d.blocks.length - 1) }

/-- Delete the selection, or one character in front of a collapsed one. -/
def previewDeleteBackward (sel : Selection) : Edit (UndoStack × Document) Cursor := do
  let (_, d) ← get
  if sel.anchor ≠ sel.head then deleteSelectionIfNeeded sel
  else if isImageCursor d sel.head then deleteImageCursor sel.head false
  else
    let headOff := plainOffsetFromCursor d.blocks sel.head
    if headOff = 0 then return sel.head
    else
      match prevCharBoundaryChecked d.plainText headOff with
      | .error e => throw e
      | .ok prev => deleteOrMoveAcrossCells (selectionFromPlainOffsets d.blocks prev headOff)

/-! ### The character in front of a break -/

/-- A break between two lists of texts is found by stepping back in the flat text: no text in front
is left out of it, or as many bytes further on a character starts as well. -/
def BreakSeen (front behind : List Text) : Prop :=
  leadingEmpty (front ++ behind) = 0 ∨
    leadingEmpty (front ++ behind) ≤ utf8Len (spread '\n' behind) ∧
      IsCharBoundary (spread '\n' behind) (leadingEmpty (front ++ behind) - 1)

lemma boundaryBack_le (text : Text) (n : ℕ) : boundaryBack text n ≤ n := by
  induction n with
  | zero => exact le_rfl
  | succ n ih =>
    rw [boundaryBack]
    split_ifs
    · exact le_rfl
    · exact ih.trans (Nat.le_succ n)

lemma boundaryBack_eq_self_iff {text : Text} {n : ℕ} :
    boundaryBack text n = n ↔ IsCharBoundary text n := by
  cases n with
  | zero => exact iff_of_true rfl (.zero text)
  | succ n =>
    have hle := boundaryBack_le text n
    rw [boundaryBack, isCharBoundary]
    split_ifs with h
    · obtain ⟨⟨u, v⟩, hsplit⟩ := Option.isSome_iff_exists.mp h
      exact iff_of_true rfl ⟨u, v, splitAtByte_eq_some hsplit⟩
    · refine iff_of_false (by omega) ?_
      rintro ⟨u, v, huv, hu⟩
      refine h ?_
      rw [splitAtByte_eq_some_iff.mpr ⟨huv, hu⟩]
      rfl

lemma prevCharBoundary_lt {text : Text} {n m : ℕ} (hn : n ≠ 0)
    (h : prevCharBoundaryChecked text n = .ok m) : m < n := by
  rw [prevCharBoundaryChecked, prevCharBoundary, if_neg hn] at h
  split_ifs at h with hempty
  have hle := boundaryBack_le text (min n (utf8Len text) - 1)
  cases h
  omega

/-- Where stepping back lands right in front of a break. -/
lemma prevCharBoundary_eq_iff {front behind : List Text} (hfront : front ≠ [])
    (hbehind : behind ≠ []) :
    prevCharBoundaryChecked (joined '\n' (front ++ behind))
        (utf8Len (spread '\n' front) + 1) = .ok (utf8Len (spread '\n' front)) ↔
      BreakSeen front behind := by
  have hbreak : Char.utf8Size '\n' = 1 := rfl
  have hall := @spread_append '\n' _ _ hfront hbehind
  rw [BreakSeen, prevCharBoundaryChecked, prevCharBoundary, if_neg (Nat.succ_ne_zero _)]
  by_cases hjoined : joined '\n' (front ++ behind) = []
  · -- nothing shows, so all texts are left out
    have hempty := joined_eq_nil_iff.mp hjoined
    have hlen := @utf8Len_spread_of_empty '\n' behind fun t ht =>
      hempty t (List.mem_append_right _ ht)
    have hpos := List.length_pos_of_ne_nil hfront
    have hpos' := List.length_pos_of_ne_nil hbehind
    rw [if_pos ⟨Nat.succ_ne_zero _, hjoined⟩, leadingEmpty_of_empty hempty, List.length_append,
      hlen, hbreak]
    refine iff_of_false (fun h => by cases h) ?_
    omega
  · have hspread := spread_eq_replicate_append hjoined
    have hlen := congrArg utf8Len (hspread.symm.trans hall)
    have hreplicate (k : ℕ) : utf8Len (List.replicate k '\n') = k := by
      induction k with
      | zero => rfl
      | succ k ih => rw [List.replicate_succ, String.utf8Len_cons, ih, hbreak]
    have hpos : 0 < utf8Len (joined '\n' (front ++ behind)) :=
      Nat.pos_of_ne_zero (mt String.utf8Len_eq_zero.mp hjoined)
    simp only [String.utf8Len_append, String.utf8Len_cons, hreplicate, hbreak] at hlen
    rw [if_neg fun h => hjoined h.2]
    have hboundary : IsCharBoundary (joined '\n' (front ++ behind)) (utf8Len (spread '\n' front)) ↔
        IsCharBoundary (spread '\n' (front ++ behind))
          (leadingEmpty (front ++ behind) + utf8Len (spread '\n' front)) := by
      rw [hspread, ← @isCharBoundary_append_iff (List.replicate _ '\n'), hreplicate]
    have hwalk := @boundaryBack_eq_self_iff (joined '\n' (front ++ behind))
      (utf8Len (spread '\n' front))
    rw [hboundary, hall] at hwalk
    have hle := boundaryBack_le (joined '\n' (front ++ behind))
      (min (utf8Len (spread '\n' front) + 1) (utf8Len (joined '\n' (front ++ behind))) - 1)
    generalize leadingEmpty (front ++ behind) = k at *
    rw [Except.ok.injEq]
    by_cases hroom : k ≤ utf8Len (spread '\n' behind)
    · have hmin : min (utf8Len (spread '\n' front) + 1)
          (utf8Len (joined '\n' (front ++ behind))) - 1 = utf8Len (spread '\n' front) := by
        omega
      rw [hmin, hwalk, Nat.add_comm, isCharBoundary_append_iff]
      cases k with
      | zero => exact iff_of_true (.zero _) (.inl rfl)
      | succ k =>
        have hone := @isCharBoundary_append_iff ['\n'] (spread '\n' behind) k
        rw [show utf8Len ['\n'] = 1 from rfl, List.singleton_append, Nat.add_comm 1] at hone
        rw [hone, Nat.add_sub_cancel]
        exact ⟨fun h => .inr ⟨hroom, h⟩, fun h => (h.resolve_left (Nat.succ_ne_zero k)).2⟩
    · refine iff_of_false (by omega) ?_
      rintro (rfl | ⟨h, -⟩)
      · exact hroom (Nat.zero_le _)
      · exact hroom h

/-! ### Cursors of flat offsets -/

lemma startOf_append_cons (pre : List (Place × Paragraph)) (x : Place × Paragraph)
    (mid : List (Place × Paragraph)) :
    startOf pre + utf8Len x.2.plainText < startOf (pre ++ x :: mid) := by
  have hprefix : utf8Len (spread '\n' (texts pre ++ [x.2.plainText])) ≤
      utf8Len (spread '\n' (texts (pre ++ x :: mid))) := by
    rw [texts_append]
    simpa [texts] using String.utf8Len_le_of_prefix
      (@isPrefix_spread '\n' (texts pre ++ [x.2.plainText]) (texts mid))
  have hlen := utf8Len_spread_append pre x.2.plainText
  have hstart : startOf (pre ++ x :: mid) = utf8Len (spread '\n' (texts (pre ++ x :: mid))) + 1 :=
    if_neg (by simp)
  omega

/-- The cursor of an offset that is not behind the end of the text. -/
lemma exists_cursorFromPlainOffset {blocks : List Block} {m : ℕ} (hne : places blocks ≠ [])
    (hm : m ≤ utf8Len (spread '\n' (texts (places blocks)))) :
    ∃ pre x post n, places blocks = pre ++ x :: post ∧ n ≤ utf8Len x.2.plainText ∧
      startOf pre + n = m ∧ cursorFromPlainOffset blocks m = cursorInPara x.1.1 x.1.2 x.2 n := by
  rcases offsetWalk_eq (places blocks) m hne with
    ⟨pre, x, post, n, hpl, hn, hoff, hwalk⟩ | ⟨pre, x, -, hlt, -⟩
  · refine ⟨pre, x, post, n, hpl, hn, hoff, ?_⟩
    rw [cursorFromPlainOffset_eq, hwalk, OffsetWalk.finish]
  · omega

lemma startOf_le {blocks : List Block} {pre post : List (Place × Paragraph)} {x : Place × Paragraph}
    (hpl : places blocks = pre ++ x :: post) :
    startOf pre + utf8Len x.2.plainText ≤ utf8Len (spread '\n' (texts (places blocks))) := by
  rw [← utf8Len_spread_append, hpl, texts_append]
  simpa [texts] using String.utf8Len_le_of_prefix
    (@isPrefix_spread '\n' (texts pre ++ [x.2.plainText]) (texts post))

/-- The cursor of an offset inside a paragraph. -/
lemma cursorFromPlainOffset_eq_inPara {blocks : List Block} {pre post : List (Place × Paragraph)}
    {x : Place × Paragraph} (hpl : places blocks = pre ++ x :: post) {n : ℕ}
    (hn : n ≤ utf8Len x.2.plainText) :
    cursorFromPlainOffset blocks (startOf pre + n) = cursorInPara x.1.1 x.1.2 x.2 n := by
  have hle := startOf_le hpl
  obtain ⟨pre', x', post', n', hpl', hn', hoff, hcursor⟩ :=
    @exists_cursorFromPlainOffset blocks (startOf pre + n) (by simp [hpl]) (by omega)
  rw [hcursor]
  rcases List.append_eq_append_iff.1 (hpl.symm.trans hpl') with ⟨mid, rfl, hmid⟩ | ⟨mid, rfl, hmid⟩
  · cases mid with
    | nil =>
      obtain ⟨rfl, rfl⟩ := List.cons.inj hmid
      simp only [List.append_nil] at hoff
      rw [show n' = n by omega]
    | cons y mid =>
      obtain ⟨rfl, -⟩ := List.cons.inj hmid
      have := startOf_append_cons pre x mid
      omega
  · cases mid with
    | nil =>
      obtain ⟨rfl, rfl⟩ := List.cons.inj hmid
      simp only [List.append_nil] at hoff
      rw [show n' = n by omega]
    | cons y mid =>
      obtain ⟨rfl, -⟩ := List.cons.inj hmid
      have := startOf_append_cons pre' x' mid
      omega

/-- The end of the text is found in the last run that shows some text, or in the first run. -/
lemma cursorInRuns_end {runs : List Run} (hne : runs ≠ []) :
    ∃ pre r post, runs = pre ++ r :: post ∧ (∀ r' ∈ post, r'.text = []) ∧
      (r.text ≠ [] ∨ pre = []) ∧
      cursorInRuns runs (utf8Len (runsText runs)) = (pre.length, utf8Len r.text) := by
  induction runs with
  | nil => exact absurd rfl hne
  | cons run runs ih =>
    cases hruns : runs with
    | nil => exact ⟨[], run, [], rfl, by simp, .inr rfl, by simp [cursorInRuns]⟩
    | cons run' runs' =>
      rw [← hruns]
      have hne' : runs ≠ [] := by simp [hruns]
      by_cases hrest : runsText runs = []
      · refine ⟨[], run, runs, rfl, ?_, .inr rfl, ?_⟩
        · simpa [runsText] using hrest
        · have hlen : utf8Len (runsText (run :: runs)) = utf8Len run.text := by
            rw [runsText_cons, hrest, List.append_nil]
          rw [hlen, hruns, cursorInRuns, if_pos le_rfl]
          · rfl
          · simp
      · obtain ⟨pre, r, post, hsplit, hpost, hshow, hcur⟩ := ih hne'
        have hpos : 0 < utf8Len (runsText runs) :=
          Nat.pos_of_ne_zero (mt String.utf8Len_eq_zero.mp hrest)
        refine ⟨run :: pre, r, post, by rw [hsplit]; rfl, hpost, .inl ?_, ?_⟩
        · intro hr
          have hpre := hshow.resolve_left fun h => h hr
          rw [hsplit, hpre] at hrest
          refine hrest ?_
          simpa [runsText, hr] using hpost
        · have hlong : ¬ utf8Len (runsText (run :: runs)) ≤ utf8Len run.text := by
            rw [runsText_cons, String.utf8Len_append]
            omega
          rw [hruns, cursorInRuns, ← hruns, if_neg hlong, runsText_cons, String.utf8Len_append,
            Nat.add_sub_cancel_left, hcur]
          · rfl
          · simp

/-! ### What is restored -/

/-- The paragraph is as before, but for runs cut in two and runs without text. -/
structure Restored (p p' : Paragraph) : Prop where
  text : p'.plainText = p.plainText
  styles : charStyles p'.runs = charStyles p.runs
  fields : fieldRuns p'.runs = fieldRuns p.runs
  properties : { p' with runs := p.runs } = p

/-- The paragraph has no style id, no space behind it and no section break; every field has a text,
and the caret is not in a run with a field nor right behind one. -/
structure BreakClean (p : Paragraph) (run byte : ℕ) : Prop where
  styleId : p.styleId = none
  spaceAfter : p.spaceAfterTwips = 0
  section_ : p.sectionProperties = none
  shown : ∀ r ∈ p.runs, r.field.isSome → r.text ≠ []
  at_caret : ∀ r ∈ p.runs[run]?, r.field = none
  in_front : byte = 0 → ∀ r ∈ (shownRuns (p.runs.take run)).getLast?, r.field = none

variable {p : Paragraph} {c : Cursor} {d : Document}

lemma charStyles_shownRuns (runs : List Run) : charStyles (shownRuns runs) = charStyles runs := by
  induction runs with
  | nil => rfl
  | cons run runs ih =>
    cases htext : run.text with
    | nil => simpa [shownRuns, charStyles, List.filter_cons, htext] using ih
    | cons a t => simpa [shownRuns, charStyles, List.filter_cons, htext] using ih

lemma charStyles_orEmptyRun {runs : List Run} {run : Run} (h : run.text = []) :
    charStyles (orEmptyRun runs run) = charStyles runs := by
  cases runs <;> simp [orEmptyRun, charStyles, h]

lemma charStyles_joinedRuns (front back : List Run) :
    charStyles (joinedRuns front back) = charStyles front ++ charStyles back := by
  rw [joinedRuns, charStyles_orEmptyRun rfl, charStyles_shownRuns, charStyles_append]

/-! ### Fields -/

lemma length_fieldRuns_shownRuns (runs : List Run) :
    (fieldRuns (shownRuns runs)).length ≤ (fieldRuns runs).length ∧
      ((fieldRuns (shownRuns runs)).length = (fieldRuns runs).length →
        ∀ r ∈ runs, r.field.isSome → r.text ≠ []) := by
  induction runs with
  | nil => simp [shownRuns]
  | cons run runs ih =>
    obtain ⟨hle, heq⟩ := ih
    cases htext : run.text <;> cases hfield : run.field <;>
      simp_all [shownRuns, fieldRuns]
    omega

lemma fieldRuns_shownRuns {runs : List Run} (h : ∀ r ∈ runs, r.field.isSome → r.text ≠ []) :
    fieldRuns (shownRuns runs) = fieldRuns runs := by
  rw [fieldRuns, shownRuns, List.filter_filter]
  refine List.filter_congr fun r hr => ?_
  cases hfield : r.field with
  | none => simp
  | some f => simpa [hfield] using h r hr

lemma fieldRuns_dropLast {runs : List Run} :
    (fieldRuns runs.dropLast).length ≤ (fieldRuns runs).length ∧
      ((fieldRuns runs.dropLast).length = (fieldRuns runs).length →
        ∀ r ∈ runs.getLast?, r.field = none) ∧
      ((∀ r ∈ runs.getLast?, r.field = none) → fieldRuns runs.dropLast = fieldRuns runs) := by
  induction runs using List.reverseRecOn with
  | nil => simp [fieldRuns]
  | append_singleton runs r ih =>
    rw [List.dropLast_concat, fieldRuns_append, List.getLast?_concat]
    cases hfield : r.field with
    | none => simp [fieldRuns, hfield]
    | some f => simp [fieldRuns, hfield]

/-- The runs in front of the caret that keep their fields when the break is deleted: all with text,
without the last one if the caret is right behind it. -/
def keptInFront (runs : List Run) (u : Text) : List Run :=
  if u = [] then (shownRuns runs).dropLast else shownRuns runs

lemma fieldRuns_kept_iff {front back : List Run} {a : Run} {u : Text} :
    fieldRuns (keptInFront front u) ++ fieldRuns (shownRuns back) =
        fieldRuns (front ++ a :: back) ↔
      (∀ r ∈ front ++ a :: back, r.field.isSome → r.text ≠ []) ∧ a.field = none ∧
        (u = [] → ∀ r ∈ (shownRuns front).getLast?, r.field = none) := by
  have hall : fieldRuns (front ++ a :: back) =
      fieldRuns front ++ (fieldRuns [a] ++ fieldRuns back) := by
    have hcons : fieldRuns (a :: back) = fieldRuns [a] ++ fieldRuns back :=
      fieldRuns_append [a] back
    rw [fieldRuns_append, hcons]
  obtain ⟨hfront, hfronteq⟩ := length_fieldRuns_shownRuns front
  obtain ⟨hback, hbackeq⟩ := length_fieldRuns_shownRuns back
  obtain ⟨hlast, hlasteq, hlastnone⟩ := @fieldRuns_dropLast (shownRuns front)
  have hkept : (fieldRuns (keptInFront front u)).length ≤ (fieldRuns (shownRuns front)).length := by
    rw [keptInFront]
    split_ifs
    · exact hlast
    · exact le_rfl
  rw [hall]
  constructor
  · intro heq
    have hlen := congrArg List.length heq
    simp only [List.length_append] at hlen
    have ha : a.field = none := by
      cases hfield : a.field with
      | none => rfl
      | some f =>
        have hone : (fieldRuns [a]).length = 1 := by simp [fieldRuns, hfield]
        omega
    refine ⟨fun r hr hfield => ?_, ha, fun hu => hlasteq ?_⟩
    · rcases List.mem_append.1 hr with hr | hr
      · exact hfronteq (by omega) r hr hfield
      · rcases List.mem_cons.1 hr with rfl | hr
        · simp [ha] at hfield
        · exact hbackeq (by omega) r hr hfield
    · rw [keptInFront, if_pos hu] at hlen hkept
      omega
  · rintro ⟨hshown, ha, hcaret⟩
    have hnone : fieldRuns [a] = [] := by simp [fieldRuns, ha]
    rw [hnone, List.nil_append, fieldRuns_shownRuns fun r hr => hshown r (by simp [hr])]
    congr 1
    rw [← fieldRuns_shownRuns fun r hr => hshown r (List.mem_append_left _ hr), keptInFront]
    split_ifs with hu
    · exact hlastnone (hcaret hu)
    · rfl

/-! ### The joined paragraph -/

/-- The runs that splitting a paragraph at a position and deleting the break leave. -/
lemma fieldRuns_rejoined {run byte : ℕ} {front back pre post rest : List Run} {r x : Run}
    (h : p.Cut run byte front back) (hfront : orEmptyRun front {} = pre ++ r :: post)
    (hpost : ∀ r' ∈ post, r'.text = []) (hshow : r.text ≠ [] ∨ pre = [])
    (hback : orEmptyRun back (continuing (orEmptyRun front {})) = x :: rest) :
    fieldRuns (joinedRuns (pre ++ [r.part r.text]) (x.part x.text :: rest)) = fieldRuns p.runs ↔
      (∀ r ∈ p.runs, r.field.isSome → r.text ≠ []) ∧ (∀ r ∈ p.runs[run]?, r.field = none) ∧
        (byte = 0 → ∀ r ∈ (shownRuns (p.runs.take run)).getLast?, r.field = none) := by
  have hjoined : fieldRuns (joinedRuns (pre ++ [r.part r.text]) (x.part x.text :: rest)) =
      fieldRuns (shownRuns pre) ++ fieldRuns (shownRuns rest) := by
    have hempty (runs : List Run) : fieldRuns (orEmptyRun runs {}) = fieldRuns runs := by
      cases runs <;> rfl
    have hpart (y : Run) (t : Text) : fieldRuns (shownRuns [y.part t]) = [] := by
      cases t <;> rfl
    rw [joinedRuns, hempty, shownRuns_append, shownRuns_append, fieldRuns_append, fieldRuns_append,
      hpart, List.append_nil, ← List.singleton_append, shownRuns_append, fieldRuns_append, hpart,
      List.nil_append]
  rw [hjoined]
  cases h with
  | empty hruns hrun hbyte =>
    obtain ⟨rfl, rfl, rfl⟩ : pre = [] ∧ ({} : Run) = r ∧ post = [] := by
      cases pre with
      | nil => simpa [orEmptyRun] using hfront
      | cons y pre => simp [orEmptyRun] at hfront
    obtain ⟨-, rfl⟩ : continuing (orEmptyRun [] {}) = x ∧ [] = rest := by
      simpa [orEmptyRun] using hback
    simp [hruns, shownRuns, fieldRuns]
  | @inside front' back' a u v hruns hrun htext hbyte =>
    subst hrun hbyte
    obtain ⟨rfl, rfl⟩ : a.part v = x ∧ back' = rest := by simpa [orEmptyRun] using hback
    have hsplit : front' ++ [a.part u] = pre ++ r :: post := by simpa [orEmptyRun] using hfront
    have hkept : shownRuns pre = keptInFront front' u := by
      have hsplit' : front' ++ [a.part u] = pre ++ ([r] ++ post) := hsplit
      have hshown := congrArg shownRuns hsplit'
      have hpost' : shownRuns post = [] := shownRuns_eq_nil_iff.2 (by simpa [runsText] using hpost)
      rw [shownRuns_append, shownRuns_append, shownRuns_append, hpost', List.append_nil] at hshown
      rw [keptInFront]
      split_ifs with hu
      · have hcut : shownRuns [a.part u] = [] := by simp [hu, shownRuns, Run.part]
        rw [hcut, List.append_nil] at hshown
        rw [hshown]
        by_cases hr : r.text = []
        · rw [hshow.resolve_left fun h => h hr]
          simp [shownRuns, hr]
        · have hone : shownRuns [r] = [r] := shownRuns_eq_self (by simpa using hr)
          rw [hone, List.dropLast_concat]
      · have hcut : shownRuns [a.part u] = [a.part u] :=
          shownRuns_eq_self (by simpa [Run.part] using hu)
        rw [hcut] at hshown
        by_cases hr : r.text = []
        · rw [hshow.resolve_left fun h => h hr] at hshown
          simp [shownRuns, hr] at hshown
        · have hone : shownRuns [r] = [r] := shownRuns_eq_self (by simpa using hr)
          rw [hone] at hshown
          exact (List.append_inj_left' hshown rfl).symm
    have hzero : utf8Len u = 0 ↔ u = [] := String.utf8Len_eq_zero
    rw [hkept, hruns, fieldRuns_kept_iff, hzero]
    simp

lemma properties_iff (p : Paragraph) (runs runs' : List Run) :
    { (p.leftHalf runs).joined runs' with runs := p.runs } = p ↔
      p.styleId = none ∧ p.spaceAfterTwips = 0 ∧ p.sectionProperties = none := by
  cases p
  simp only [Paragraph.joined, Paragraph.leftHalf, Paragraph.mk.injEq, true_and, and_true]
  constructor
  · rintro ⟨hstyle, hspace, hsection⟩
    exact ⟨hstyle.symm, hspace.symm, hsection.symm⟩
  · rintro ⟨hstyle, hspace, hsection⟩
    exact ⟨hstyle.symm, hspace.symm, hsection.symm⟩

lemma text_continuing (runs : List Run) : (continuing runs).text = [] := by
  rw [continuing]
  split <;> rfl

/-- What splitting a paragraph and deleting the break restores. -/
lemma restored_iff {run byte : ℕ} {front back pre post rest : List Run} {r x : Run}
    (h : p.Cut run byte front back) (hfront : orEmptyRun front {} = pre ++ r :: post)
    (hpost : ∀ r' ∈ post, r'.text = []) (hshow : r.text ≠ [] ∨ pre = [])
    (hback : orEmptyRun back (continuing (orEmptyRun front {})) = x :: rest) :
    Restored p ((p.leftHalf (orEmptyRun front {})).joined
        (joinedRuns (pre ++ [r.part r.text]) (x.part x.text :: rest))) ↔
      BreakClean p run byte := by
  have hfields := fieldRuns_rejoined h hfront hpost hshow hback
  have hproperties := properties_iff p (orEmptyRun front {})
    (joinedRuns (pre ++ [r.part r.text]) (x.part x.text :: rest))
  have hcontinuing := text_continuing (orEmptyRun front {})
  have hpostText : runsText post = [] := by simpa [runsText] using hpost
  have hpostStyles : charStyles post = [] := by
    simpa [charStyles, List.flatMap_eq_nil_iff] using hpost
  have htext : runsText (pre ++ [r.part r.text]) = runsText front := by
    have horEmpty := @runsText_orEmptyRun front {} rfl
    rw [hfront] at horEmpty
    simpa [hpostText, Run.part] using horEmpty
  have hstyles : charStyles (pre ++ [r.part r.text]) = charStyles front := by
    have horEmpty := @charStyles_orEmptyRun front {} rfl
    rw [hfront, List.append_cons, charStyles_append, hpostStyles, List.append_nil] at horEmpty
    rw [← horEmpty, charStyles_append, charStyles_append]
    rfl
  have hbackText : runsText (x.part x.text :: rest) = runsText back := by
    have horEmpty := @runsText_orEmptyRun back _ hcontinuing
    rw [hback] at horEmpty
    exact horEmpty
  have hbackStyles : charStyles (x.part x.text :: rest) = charStyles back := by
    have horEmpty := @charStyles_orEmptyRun back _ hcontinuing
    rw [hback] at horEmpty
    exact horEmpty
  constructor
  · rintro ⟨-, -, hf, hp⟩
    obtain ⟨hshown, hcaret, hbehind⟩ := hfields.1 hf
    obtain ⟨hstyle, hspace, hsection⟩ := hproperties.1 hp
    exact ⟨hstyle, hspace, hsection, hshown, hcaret, hbehind⟩
  · rintro ⟨hstyle, hspace, hsection, hshown, hcaret, hbehind⟩
    refine ⟨?_, ?_, hfields.2 ⟨hshown, hcaret, hbehind⟩, hproperties.2 ⟨hstyle, hspace, hsection⟩⟩
    · rw [plainText_eq, Paragraph.joined, runsText_joinedRuns, htext, hbackText, h.text_eq]
    · rw [Paragraph.joined, charStyles_joinedRuns, hstyles, hbackStyles, h.charStyles_eq]

/-! ### The whole edit -/

/-- A caret in a body paragraph. -/
structure BodyCaret (d : Document) where
  caret : Cursor
  p : Paragraph
  cell : caret.cell = none
  found : d.blocks[caret.blockIdx]? = some (.paragraph p)
  inPara : p.HasPosition caret.runIdx caret.byteOffset

/-- The break that return makes at the caret is found by stepping back from behind it. -/
def BodyCaret.BreakSeen (a : BodyCaret d) : Prop :=
  Document.BreakSeen
    (texts (a.caret.front d.blocks) ++ [a.p.textBefore a.caret.runIdx a.caret.byteOffset])
    (a.p.textBehind a.caret.runIdx a.caret.byteOffset :: texts (a.caret.behind d.blocks))

/-- Return, then deletion of the break. -/
def breakAndJoin (caret : Cursor) : Edit (UndoStack × Document) Cursor := do
  let caret ← insertBreakAtCaret ⟨caret, caret⟩
  previewDeleteBackward ⟨caret, caret⟩

/-- The places of a body around a paragraph. -/
lemma places_one (front back : List Block) (p : Paragraph) :
    ∃ post, places (front ++ .paragraph p :: back) =
        places front ++ ((front.length, none), p) :: post ∧
      texts post = back.flatMap Block.texts := by
  refine ⟨(back.zipIdx (front.length + 1)).flatMap fun x => Block.places x.1 x.2, ?_,
    texts_zipIdx Block.texts_places back _⟩
  rw [places, enumFlatMap_append, List.zipIdx_cons, List.flatMap_cons]
  rfl

/-- The places of a body around two paragraphs that stand next to each other. -/
lemma places_two (front back : List Block) (p q : Paragraph) :
    ∃ post, places (front ++ .paragraph p :: .paragraph q :: back) =
      places front ++ ((front.length, none), p) :: ((front.length + 1, none), q) :: post ∧
        texts post = back.flatMap Block.texts := by
  refine ⟨(back.zipIdx (front.length + 1 + 1)).flatMap fun x => Block.places x.1 x.2, ?_,
    texts_zipIdx Block.texts_places back _⟩
  rw [places, enumFlatMap_append, List.zipIdx_cons, List.zipIdx_cons, List.flatMap_cons,
    List.flatMap_cons]
  rfl

lemma startOf_concat (pre : List (Place × Paragraph)) (x : Place × Paragraph) :
    startOf (pre ++ [x]) = startOf pre + utf8Len x.2.plainText + 1 := by
  have hlen := utf8Len_spread_append pre x.2.plainText
  have hstart : startOf (pre ++ [x]) = utf8Len (spread '\n' (texts (pre ++ [x]))) + 1 :=
    if_neg (by simp)
  rw [hstart, texts_append]
  exact congrArg (· + 1) hlen

lemma cursorInPara_zero (bi : ℕ) (cell : Option CellPath) (p : Paragraph) :
    cursorInPara bi cell p 0 = { blockIdx := bi, cell } := by
  cases hruns : p.runs with
  | nil => simp [cursorInPara, hruns, cursorInRuns]
  | cons run runs => cases runs <;> simp [cursorInPara, hruns, cursorInRuns]

/-- The flat offset of the start of a body paragraph behind another one. -/
lemma plainOffset_behind (front back : List Block) (p q : Paragraph) :
    plainOffsetFromCursor (front ++ .paragraph p :: .paragraph q :: back)
        { blockIdx := front.length + 1 } =
      startOf (places front) + utf8Len p.plainText + 1 := by
  obtain ⟨post, hpl, -⟩ := places_two front back p q
  have hpl' : places (front ++ .paragraph p :: .paragraph q :: back) =
      (places front ++ [((front.length, none), p)]) ++ ((front.length + 1, none), q) :: post := by
    rw [hpl]
    simp
  have hne : ∀ x ∈ places front ++ [((front.length, none), p)],
      x.1 ≠ Cursor.place { blockIdx := front.length + 1 } := by
    intro x hx
    have hnd := nodup_places (front ++ .paragraph p :: .paragraph q :: back)
    rw [hpl', List.map_append, List.map_cons, List.nodup_append] at hnd
    exact hnd.2.2 x.1 (List.mem_map_of_mem hx) _ List.mem_cons_self
  have hoff := @plainOffsetFromCursor_split _ { blockIdx := front.length + 1 } _ _ _ rfl hpl' hne
  have hzero : offsetInPara q { blockIdx := front.length + 1 } = 0 := offsetInRuns_zero q.runs
  rw [hoff, hzero, startOf_concat, Nat.add_zero]

/-- The cursors of the two sides of a break. -/
lemma selection_of_break (front back : List Block) (p q : Paragraph) :
    selectionFromPlainOffsets (front ++ .paragraph p :: .paragraph q :: back)
        (startOf (places front) + utf8Len p.plainText)
        (startOf (places front) + utf8Len p.plainText + 1) =
      ⟨cursorInPara front.length none p (utf8Len p.plainText),
        { blockIdx := front.length + 1 }⟩ := by
  obtain ⟨post, hpl, -⟩ := places_two front back p q
  have hpl' : places (front ++ .paragraph p :: .paragraph q :: back) =
      (places front ++ [((front.length, none), p)]) ++ ((front.length + 1, none), q) :: post := by
    rw [hpl]
    simp
  have hstart := cursorFromPlainOffset_eq_inPara hpl (n := utf8Len p.plainText) le_rfl
  have hstop := cursorFromPlainOffset_eq_inPara hpl' (n := 0) (Nat.zero_le _)
  have hbreak := startOf_concat (places front) ((front.length, none), p)
  rw [cursorInPara_zero, hbreak, Nat.add_zero] at hstop
  rw [selectionFromPlainOffsets, hstart, hstop]

lemma blockIdx_lt_of_mem_places {front : List Block} {x : Place × Paragraph}
    (h : x ∈ places front) : x.1.1 < front.length := by
  obtain ⟨i, block, hi, hmem⟩ := mem_enumFlatMap.mp h
  have hlt := (List.getElem?_eq_some_iff.mp hi).1
  have hidx : x.1.1 = i := by
    cases block with
    | paragraph p =>
      obtain rfl : x = _ := by simpa [Block.places] using hmem
      rfl
    | image _ => simp [Block.places] at hmem
    | table t =>
      simp only [Block.places, TableRow.places, TableCell.places, mem_enumFlatMap] at hmem
      obtain ⟨r, row, -, c, cell, -, pi, p, -, hx⟩ := hmem
      obtain rfl : x = _ := by simpa using hx
      rfl
  rwa [hidx]

/-- An offset in front of a break lies in front of the end of the paragraph there or in an earlier
block. -/
lemma cursor_in_front (front back : List Block) (p q : Paragraph) {m : ℕ}
    (hm : m < startOf (places front) + utf8Len p.plainText) :
    (∃ n < utf8Len p.plainText,
      cursorFromPlainOffset (front ++ .paragraph p :: .paragraph q :: back) m =
        cursorInPara front.length none p n) ∨
    (cursorFromPlainOffset (front ++ .paragraph p :: .paragraph q :: back) m).blockIdx <
      front.length := by
  obtain ⟨post, hpl, -⟩ := places_two front back p q
  have hle := startOf_le hpl
  obtain ⟨pre, x, post', n, hpl', hn, hoff, hcursor⟩ := @exists_cursorFromPlainOffset
    (front ++ .paragraph p :: .paragraph q :: back) m (by simp [hpl]) (hm.le.trans hle)
  rw [hcursor]
  rcases List.append_eq_append_iff.1 (hpl.symm.trans hpl') with ⟨mid, rfl, hmid⟩ | ⟨mid, hpre, hmid⟩
  · cases mid with
    | nil =>
      obtain ⟨rfl, -⟩ := List.cons.inj hmid
      rw [List.append_nil] at hoff
      exact .inl ⟨n, by omega, rfl⟩
    | cons y mid =>
      obtain ⟨rfl, -⟩ := List.cons.inj hmid
      have hpast : startOf (places front) + utf8Len p.plainText < _ :=
        startOf_append_cons (places front) ((front.length, none), p) mid
      omega
  · cases mid with
    | nil =>
      obtain ⟨rfl, -⟩ := List.cons.inj hmid
      rw [hpre, List.append_nil] at hm
      exact .inl ⟨n, by omega, rfl⟩
    | cons y mid =>
      obtain ⟨rfl, -⟩ := List.cons.inj hmid
      refine .inr (blockIdx_lt_of_mem_places (x := x) ?_)
      rw [hpre]
      exact List.mem_append_right _ List.mem_cons_self

/-! ### Joining from further in front -/

lemma push_replaceBlocks (st : UndoStack) (d : Document) (blocks : List Block) :
    ∃ st', (UndoStack.push (.replaceBlocks blocks)).run (st, d) = .ok () (st', { d with blocks }) :=
  ⟨_, UndoStack.push_eq_ok_iff.2 ⟨_, LongSelection.applies_replaceBlocks d blocks, rfl⟩⟩

lemma offsetInRuns_of_none {runs : List Run} {i : ℕ} (h : runs[i]? = none) (byte : ℕ) :
    offsetInRuns runs i byte = utf8Len (runsText runs) := by
  induction runs generalizing i with
  | nil => rfl
  | cons run runs ih =>
    cases i with
    | zero => simp at h
    | succ i => rw [offsetInRuns, ih (by simpa using h), runsText_cons, String.utf8Len_append]

lemma offsetInRuns_of_some {runs : List Run} {i : ℕ} {r : Run} (h : runs[i]? = some r) (byte : ℕ) :
    offsetInRuns runs i byte = utf8Len (runsText (runs.take i)) + min byte (utf8Len r.text) := by
  induction runs generalizing i with
  | nil => simp at h
  | cons run runs ih =>
    cases i with
    | zero =>
      obtain rfl : run = r := by simpa using h
      simp [offsetInRuns]
    | succ i =>
      rw [offsetInRuns, ih (by simpa using h), List.take_succ_cons, runsText_cons,
        String.utf8Len_append, Nat.add_assoc]

lemma length_cutAt {r u v : Run} {byte : ℕ} (h : r.cutAt byte = .ok (u, v)) :
    utf8Len u.text = min byte (utf8Len r.text) ∧ utf8Len v.text ≤ utf8Len r.text := by
  rw [Run.cutAt] at h
  cases hsplit : splitAtByte r.text (min byte (utf8Len r.text)) with
  | none => simp [hsplit] at h
  | some s =>
    obtain ⟨htext, hlen⟩ := splitAtByte_eq_some hsplit
    simp only [hsplit, Except.ok.injEq, Prod.mk.injEq] at h
    obtain ⟨rfl, rfl⟩ := h
    refine ⟨hlen, ?_⟩
    rw [htext, String.utf8Len_append]
    exact Nat.le_add_left _ _

lemma ok_of_bind {α β : Type} {x : Except Fault α} {f : α → Except Fault β} {b : β}
    (h : x >>= f = .ok b) : ∃ a, x = .ok a ∧ f a = .ok b := by
  cases x with
  | error e => cases h
  | ok a => exact ⟨a, rfl, h⟩

/-- What `joinRuns` joins. -/
lemma joinRuns_cases {p q : Paragraph} {start stop : Cursor} {runs : List Run}
    (h : joinRuns p q start stop = .ok runs) : ∃ front back, joinedRuns front back = runs ∧
      (p.runs[start.runIdx]? = none ∧ front = p.runs ∨
        ∃ run s, p.runs[start.runIdx]? = some run ∧ run.cutAt start.byteOffset = .ok s ∧
          front = p.runs.take start.runIdx ++ [s.1]) ∧
      (q.runs[stop.runIdx]? = none ∧ back = [] ∨
        ∃ run s, q.runs[stop.runIdx]? = some run ∧ run.cutAt stop.byteOffset = .ok s ∧
          back = s.2 :: q.runs.drop (stop.runIdx + 1)) := by
  rw [joinRuns] at h
  cases hp : p.runs[start.runIdx]? with
  | none =>
    cases hq : q.runs[stop.runIdx]? with
    | none =>
      simp only [hp, hq] at h
      exact ⟨_, _, Except.ok.inj h, .inl ⟨rfl, rfl⟩, .inl ⟨rfl, rfl⟩⟩
    | some run' =>
      simp only [hp, hq] at h
      obtain ⟨front, hfront, h⟩ := ok_of_bind h
      obtain ⟨s', hcut', h⟩ := ok_of_bind h
      cases hfront
      exact ⟨_, _, Except.ok.inj h, .inl ⟨rfl, rfl⟩, .inr ⟨run', s', rfl, hcut', rfl⟩⟩
  | some run =>
    simp only [hp] at h
    obtain ⟨s, hcut, h⟩ := ok_of_bind h
    cases hq : q.runs[stop.runIdx]? with
    | none =>
      simp only [hq] at h
      exact ⟨_, _, Except.ok.inj h, .inr ⟨run, s, rfl, hcut, rfl⟩, .inl ⟨rfl, rfl⟩⟩
    | some run' =>
      simp only [hq] at h
      obtain ⟨front, hfront, h⟩ := ok_of_bind h
      obtain ⟨s', hcut', h⟩ := ok_of_bind h
      cases hfront
      exact ⟨_, _, Except.ok.inj h, .inr ⟨run, s, rfl, hcut, rfl⟩,
        .inr ⟨run', s', rfl, hcut', rfl⟩⟩

/-- Joined runs show no more than what is in front of the start and the paragraph at the end. -/
lemma length_joinRuns {p q : Paragraph} {start stop : Cursor} {runs : List Run}
    (h : joinRuns p q start stop = .ok runs) :
    utf8Len (runsText runs) ≤ offsetInPara p start + utf8Len q.plainText := by
  obtain ⟨front, back, rfl, hfront, hback⟩ := joinRuns_cases h
  have hfront : utf8Len (runsText front) = offsetInPara p start := by
    rcases hfront with ⟨hrun, rfl⟩ | ⟨run, s, hrun, hcut, rfl⟩
    · exact (offsetInRuns_of_none hrun _).symm
    · rw [offsetInPara, offsetInRuns_of_some hrun, ← (length_cutAt hcut).1]
      simp
  have hback : utf8Len (runsText back) ≤ utf8Len q.plainText := by
    rcases hback with ⟨-, rfl⟩ | ⟨run, s, hrun, hcut, rfl⟩
    · exact Nat.zero_le _
    · obtain ⟨pre, post, hruns, hlen⟩ := exists_append_of_getElem? hrun
      have hdrop : q.runs.drop (stop.runIdx + 1) = post := by
        rw [hruns, ← hlen, List.drop_length_add_append]
        rfl
      have hle := (length_cutAt hcut).2
      rw [hdrop, plainText_eq, hruns]
      simp only [runsText_cons, runsText_append, String.utf8Len_append]
      omega
  rw [runsText_joinedRuns, String.utf8Len_append]
  omega

/-- Two paragraphs that are joined from a place in front of the end of the first one lose some of
their text. -/
lemma length_deleteMultiParagraph {before behind : List Block} {p q p' : Paragraph} {start : Cursor}
    (hfront : (∃ n < utf8Len p.plainText, start = cursorInPara before.length none p n) ∨
      start.blockIdx < before.length)
    (hdelete : deleteMultiParagraph (before ++ .paragraph p :: .paragraph q :: behind) start
      { blockIdx := before.length + 1 } = .ok (before ++ .paragraph p' :: behind)) :
    utf8Len p'.plainText < utf8Len p.plainText + utf8Len q.plainText := by
  have hlt : start.blockIdx < before.length + 1 := by
    rcases hfront with ⟨n, -, rfl⟩ | h
    · exact Nat.lt_succ_self _
    · exact h.trans (Nat.lt_succ_self _)
  have hdrop : (before ++ Block.paragraph p :: Block.paragraph q :: behind).drop
      (before.length + 1 + 1) = behind := by
    rw [Nat.add_assoc, List.drop_length_add_append]
    rfl
  simp only [deleteMultiParagraph] at hdelete
  split at hdelete
  · next startP endP hstartP hendP =>
    obtain ⟨runs, hjoin, hdelete⟩ := ok_of_bind hdelete
    have hspan := Except.ok.inj hdelete
    rw [replaceSpan_eq (Nat.le_of_lt hlt) (by simp), hdrop] at hspan
    rcases hfront with ⟨n, hn, rfl⟩ | hbefore
    · have htake : (before ++ Block.paragraph p :: Block.paragraph q :: behind).take
          (cursorInPara before.length none p n).blockIdx = before := List.take_left
      rw [htake] at hspan
      obtain rfl := Block.paragraph.inj (List.cons.inj (List.append_cancel_left hspan)).1
      have hstart : startP = p := by simpa [paragraphAt, cursorInPara] using hstartP.symm
      have hend : endP = q := by simpa [paragraphAt] using hendP.symm
      have hle := length_joinRuns hjoin
      rw [hstart, hend, offsetInPara_cursorInPara] at hle
      rw [plainText_eq, Paragraph.joined]
      exact lt_of_le_of_lt hle (by omega)
    · have hlen := congrArg List.length hspan
      simp [List.length_take] at hlen
      omega
  · cases hdelete

/-- A range up to the start of a paragraph that begins in front of the break before it: the two
paragraphs are not joined to one with all their text. -/
lemma deleteOrMove_from_front {before behind : List Block} {p q p' : Paragraph} {d : Document}
    (hblocks : d.blocks = before ++ .paragraph p :: .paragraph q :: behind) {m : ℕ}
    (hm : m < startOf (places before) + utf8Len p.plainText) {caret : Cursor} {st st' : UndoStack}
    (hrun : (deleteOrMoveAcrossCells (selectionFromPlainOffsets d.blocks m
        (startOf (places before) + utf8Len p.plainText + 1))).run (st, d) =
      .ok caret (st', { d with blocks := before ++ .paragraph p' :: behind })) :
    utf8Len p'.plainText < utf8Len p.plainText + utf8Len q.plainText := by
  have hsel := selection_of_break before behind p q
  rw [selectionFromPlainOffsets, Selection.mk.injEq] at hsel
  have hfront := cursor_in_front before behind p q hm
  rw [selectionFromPlainOffsets, hblocks, hsel.2] at hrun
  generalize hstart : cursorFromPlainOffset (before ++ .paragraph p :: .paragraph q :: behind) m =
    start at hrun hfront
  have hlt : start.blockIdx < before.length + 1 := by
    rcases hfront with ⟨n, -, rfl⟩ | h
    · exact Nat.lt_succ_self _
    · exact h.trans (Nat.lt_succ_self _)
  have hnorm : Selection.normalized ⟨start, { blockIdx := before.length + 1 }⟩ =
      (start, { blockIdx := before.length + 1 }) := by
    rw [Selection.normalized, cmpCursor_of_block hlt.ne, Nat.compare_eq_lt.2 hlt]
    rfl
  have hother : start.sameParagraph { blockIdx := before.length + 1 } = false := by
    simp [Cursor.sameParagraph, hlt.ne]
  have hcells : start.sameCell { blockIdx := before.length + 1 } = false := by
    cases hcell : start.cell <;> simp [Cursor.sameCell, hcell]
  rw [deleteOrMoveAcrossCells, hnorm] at hrun
  simp only [hother, hcells] at hrun
  cases hcell : start.cell with
  | some path =>
    -- the caret only moves
    simp only [hcell, EStateM.run_pure, Option.isSome_some, Option.isSome_none, Bool.not_false,
      Bool.true_and, Bool.or_false, if_true] at hrun
    have hsame := congrArg (fun r : UndoStack × Document => r.2.blocks.length)
      (EStateM.Result.ok.inj hrun).2
    simp [hblocks] at hsame
  | none =>
    have hne : ¬ start = { blockIdx := before.length + 1 } := fun h => by simp [h] at hlt
    simp only [hcell, Option.isSome_none, Bool.or_false, Bool.not_false, Bool.and_false,
      Bool.false_and, Bool.false_eq_true, if_false, deleteSelectionIfNeeded, if_neg hne, hnorm,
      hother, hcells, EStateM.run_bind, EStateM.run_get, or_self] at hrun
    cases hnext : deleteMultiParagraph d.blocks start { blockIdx := before.length + 1 } with
    | error e => simp [hnext] at hrun
    | ok blocks' =>
      obtain ⟨st'', hpush⟩ := push_replaceBlocks st d blocks'
      simp only [hnext, EStateM.run_bind, hpush, EStateM.run_pure, EStateM.Result.ok.injEq,
        Prod.mk.injEq, Document.mk.injEq, and_true] at hrun
      obtain ⟨-, -, rfl⟩ := hrun
      rw [hblocks] at hnext
      exact length_deleteMultiParagraph hfront hnext

lemma run_insertBreak {before behind : List Block} {front back : List Run} (hcell : c.cell = none)
    (hblocks : d.blocks = before ++ .paragraph p :: behind) (hlen : before.length = c.blockIdx)
    (hcut : p.Cut c.runIdx c.byteOffset front back) (st : UndoStack) :
    ∃ st', (insertBreakAtCaret ⟨c, c⟩).run (st, d) = .ok { blockIdx := c.blockIdx + 1 }
      (st', { d with
        blocks := before ++ .paragraph (p.leftHalf (orEmptyRun front {})) ::
          .paragraph (p.rightHalf (orEmptyRun back (continuing (orEmptyRun front {})))) ::
            behind }) := by
  have hsplit : splitParagraphBlocks d.blocks c =
      .ok (before ++ .paragraph (p.leftHalf (orEmptyRun front {})) ::
        .paragraph (p.rightHalf (orEmptyRun back (continuing (orEmptyRun front {})))) ::
          behind) := by
    have hat : paragraphAt d.blocks c.blockIdx = some p := by
      simp [paragraphAt, hblocks, ← hlen]
    have hset (L R : Paragraph) :
        ((before ++ .paragraph p :: behind).set before.length (.paragraph L)).insertIdx
            (before.length + 1) (.paragraph R) =
          before ++ .paragraph L :: .paragraph R :: behind := by
      rw [insertIdx_set_succ (by simp), List.take_left, List.drop_length_add_append]
      rfl
    rw [hblocks, ← hlen] at hat
    simp only [splitParagraphBlocks, hblocks, ← hlen, hat, splitRunsAt_eq_ok hcut, hset]
    rfl
  obtain ⟨st', hpush⟩ := push_replaceBlocks st d
    (before ++ .paragraph (p.leftHalf (orEmptyRun front {})) ::
      .paragraph (p.rightHalf (orEmptyRun back (continuing (orEmptyRun front {})))) :: behind)
  refine ⟨st', ?_⟩
  have hdelete : (deleteSelectionIfNeeded ⟨c, c⟩).run (st, d) = .ok c (st, d) := by
    simp [deleteSelectionIfNeeded]
  simp [insertBreakAtCaret, hdelete, hcell, hsplit, hpush]

lemma run_deleteBreak {before behind : List Block} {q : Paragraph} {pre post rest : List Run}
    {r x : Run} (hblocks : d.blocks = before ++ .paragraph p :: .paragraph q :: behind)
    (hruns : p.runs = pre ++ r :: post)
    (hend : cursorInRuns p.runs (utf8Len p.plainText) = (pre.length, utf8Len r.text))
    (hnext : q.runs = x :: rest) (st : UndoStack) :
    ∃ caret st', (deleteOrMoveAcrossCells (selectionFromPlainOffsets d.blocks
        (startOf (places before) + utf8Len p.plainText)
        (startOf (places before) + utf8Len p.plainText + 1))).run (st, d) = .ok caret
      (st', { d with
        blocks := before ++ .paragraph
          (p.joined (joinedRuns (pre ++ [r.part r.text]) (x.part x.text :: rest))) ::
            behind }) := by
  have hsel := selection_of_break before behind p q
  rw [← hblocks] at hsel
  have hstart : cursorInPara before.length none p (utf8Len p.plainText) =
      ⟨before.length, none, pre.length, utf8Len r.text⟩ := by
    rw [cursorInPara, hend]
  rw [hstart] at hsel
  have hnorm : Selection.normalized ⟨⟨before.length, none, pre.length, utf8Len r.text⟩,
      { blockIdx := before.length + 1 }⟩ =
      (⟨before.length, none, pre.length, utf8Len r.text⟩, { blockIdx := before.length + 1 }) := by
    rw [Selection.normalized, cmpCursor_of_block (by simp), Nat.compare_eq_lt.2 (by simp)]
    rfl
  have hcut : p.Cut pre.length (utf8Len r.text) (pre ++ [r.part r.text]) (r.part [] :: post) :=
    .inside hruns rfl (by simp) rfl
  have hcut' : q.Cut 0 0 ([] ++ [x.part []]) (x.part x.text :: rest) :=
    .inside hnext rfl rfl rfl
  let s : LongSelection d :=
    { sel := _, start := _, stop := _, normalized := hnorm,
      spans := .inl ⟨rfl, rfl, Nat.lt_succ_self _⟩, startP := p, endP := q
      startRef := by simp [paragraphRef, paragraphAt, hblocks]
      stopRef := by simp [paragraphRef, paragraphAt, hblocks]
      startIn := .inr ⟨r, by simp [hruns], r.text, [], by simp, rfl⟩
      stopIn := .inr ⟨x, by simp [hnext], [], x.text, rfl, rfl⟩ }
  obtain ⟨st', hrun⟩ := s.run_delete st
  have hmerged : s.merged =
      p.joined (joinedRuns (pre ++ [r.part r.text]) (x.part x.text :: rest)) := by
    have hjoin := @joinRuns_eq_ok p q s.start s.stop _ _ _ _ hcut hcut'
    rw [LongSelection.merged, hjoin]
    rfl
  have hwith : s.withJoined s.merged = { d with
      blocks := before ++ .paragraph
        (p.joined (joinedRuns (pre ++ [r.part r.text]) (x.part x.text :: rest))) :: behind } := by
    rw [hmerged]
    have hdrop : (before ++ Block.paragraph p :: Block.paragraph q :: behind).drop
        (before.length + 1 + 1) = behind := by
      rw [Nat.add_assoc, List.drop_length_add_append]
      rfl
    simp [LongSelection.withJoined, s, hblocks, hdrop]
  rw [hwith] at hrun
  refine ⟨s.start, st', ?_⟩
  simp only [hsel, deleteOrMoveAcrossCells, hnorm]
  simpa using hrun

/-- Stepping back from behind a break between two body paragraphs. -/
lemma run_deleteBackward {before behind : List Block} {q : Paragraph}
    (hblocks : d.blocks = before ++ .paragraph p :: .paragraph q :: behind) (st : UndoStack) :
    (previewDeleteBackward
      ⟨{ blockIdx := before.length + 1 }, { blockIdx := before.length + 1 }⟩).run
        (st, d) =
      (match prevCharBoundaryChecked d.plainText
          (startOf (places before) + utf8Len p.plainText + 1) with
        | .error e => throw e
        | .ok prev => deleteOrMoveAcrossCells (selectionFromPlainOffsets d.blocks prev
            (startOf (places before) + utf8Len p.plainText + 1)) :
        Edit (UndoStack × Document) Cursor).run (st, d) := by
  have himage : isImageCursor d { blockIdx := before.length + 1 } = false := by
    have hat : d.blocks[before.length + 1]? = some (.paragraph q) := by
      rw [hblocks, List.getElem?_append_right (Nat.le_succ _), Nat.succ_sub (le_refl _),
        Nat.sub_self]
      rfl
    simp [isImageCursor, hat]
  have hoff := plainOffset_behind before behind p q
  rw [← hblocks] at hoff
  simp only [previewDeleteBackward, EStateM.run_bind, EStateM.run_get, himage, hoff, ne_eq,
    not_true_eq_false, if_false, Bool.false_eq_true, Nat.succ_ne_zero]

/-- The flat text around a break between two body paragraphs. -/
lemma plainText_around {before behind : List Block} {q : Paragraph}
    (hblocks : d.blocks = before ++ .paragraph p :: .paragraph q :: behind) :
    d.plainText = joined '\n' ((texts (places before) ++ [p.plainText]) ++
      (q.plainText :: behind.flatMap Block.texts)) := by
  obtain ⟨post, hpl, hpost⟩ := places_two before behind p q
  rw [Document.plainText, bodyText_eq, hblocks, hpl, texts_append, texts_cons, texts_cons, hpost,
    List.append_assoc]
  rfl

/-- Return and the deletion of the break that it makes: the paragraph with which they end if the
break is found, and a shorter one, if any, if it is not. -/
lemma run_breakAndJoin (a : BodyCaret d) (st : UndoStack) :
    ∃ caret st' p', (Restored a.p p' ↔ BreakClean a.p a.caret.runIdx a.caret.byteOffset) ∧
      (a.BreakSeen → (breakAndJoin a.caret).run (st, d) =
        .ok caret (st', { d with blocks := d.blocks.set a.caret.blockIdx (.paragraph p') })) ∧
      (¬ a.BreakSeen → ∀ caret st' p', (breakAndJoin a.caret).run (st, d) =
        .ok caret (st', { d with blocks := d.blocks.set a.caret.blockIdx (.paragraph p') }) →
          utf8Len p'.plainText < utf8Len a.p.plainText) := by
  obtain ⟨front, back, hcut⟩ := a.inPara.cut
  obtain ⟨before, behind, hblocks, hlen⟩ := exists_append_of_getElem? a.found
  obtain ⟨st₁, hbreak⟩ := run_insertBreak a.cell hblocks hlen hcut st
  have hfront : orEmptyRun front {} ≠ [] := by cases front <;> simp [orEmptyRun]
  obtain ⟨pre, r, post, hsplit, hpost, hshow, hend⟩ := cursorInRuns_end hfront
  obtain ⟨x, rest, hback⟩ : ∃ x rest,
      orEmptyRun back (continuing (orEmptyRun front {})) = x :: rest := by
    cases back with
    | nil => exact ⟨_, _, rfl⟩
    | cons y back => exact ⟨y, back, rfl⟩
  let left := a.p.leftHalf (orEmptyRun front {})
  let right := a.p.rightHalf (orEmptyRun back (continuing (orEmptyRun front {})))
  let d₁ : Document := { d with blocks := before ++ .paragraph left :: .paragraph right :: behind }
  have hleft : left.plainText = a.p.textBefore a.caret.runIdx a.caret.byteOffset :=
    (runsText_orEmptyRun rfl).trans hcut.textBefore_eq.symm
  have hright : right.plainText = a.p.textBehind a.caret.runIdx a.caret.byteOffset :=
    (runsText_orEmptyRun (text_continuing _)).trans hcut.textBehind_eq.symm
  have hend' : cursorInRuns left.runs (utf8Len left.plainText) = (pre.length, utf8Len r.text) := by
    rw [plainText_eq]
    exact hend
  obtain ⟨caret, st', hdelete⟩ := @run_deleteBreak left d₁ before behind right pre post rest r x rfl
    hsplit hend' hback st₁
  have hset (p' : Paragraph) :
      d.blocks.set a.caret.blockIdx (.paragraph p') = before ++ .paragraph p' :: behind := by
    simp [hblocks, ← hlen]
  have hseen : a.BreakSeen ↔
      prevCharBoundaryChecked d₁.plainText (startOf (places before) + utf8Len left.plainText + 1) =
        .ok (startOf (places before) + utf8Len left.plainText) := by
    have hplace : a.caret.textPlace = (before.length, none) := by
      rw [Cursor.textPlace, a.cell, hlen]
      rfl
    obtain ⟨post, hpl, hpost⟩ := places_one before behind a.p
    rw [← hblocks, ← hplace] at hpl
    obtain ⟨hcaretFront, hcaretBehind⟩ := front_behind_eq hpl
    rw [BodyCaret.BreakSeen, hcaretFront, hcaretBehind, hpost, ← hleft, ← hright,
      ← prevCharBoundary_eq_iff (by simp) (by simp), utf8Len_spread_append,
      plainText_around (d := d₁) rfl]
  have hrun : (breakAndJoin a.caret).run (st, d) =
      (previewDeleteBackward ⟨{ blockIdx := before.length + 1 },
        { blockIdx := before.length + 1 }⟩).run (st₁, d₁) := by
    simp only [breakAndJoin, EStateM.run_bind, hbreak, ← hlen]
    rfl
  rw [run_deleteBackward (d := d₁) rfl] at hrun
  refine ⟨caret, st', _, restored_iff hcut hsplit hpost hshow hback, fun hs => ?_, fun hs => ?_⟩
  · rw [hset, hrun, hseen.1 hs]
    exact hdelete
  · intro caret st' p' hok
    rw [hset, hrun] at hok
    cases hprev : prevCharBoundaryChecked d₁.plainText
        (startOf (places before) + utf8Len left.plainText + 1) with
    | error e =>
      rw [hprev] at hok
      cases hok
    | ok prev =>
      have hlt := prevCharBoundary_lt (Nat.succ_ne_zero _) hprev
      have hne : prev ≠ startOf (places before) + utf8Len left.plainText := fun h =>
        hs (hseen.2 (h ▸ hprev))
      rw [hprev] at hok
      have hshort := deleteOrMove_from_front (d := d₁) rfl (by omega) hok
      rwa [hleft, hright, ← String.utf8Len_append, hcut.textBefore_eq, hcut.textBehind_eq,
        hcut.text_eq] at hshort

/-- A break that is not found, or a paragraph that is not clean, is not restored. -/
lemma clean_of_restored (a : BodyCaret d) (st : UndoStack)
    (h : ∃ caret st' p', (breakAndJoin a.caret).run (st, d) =
        .ok caret (st', { d with blocks := d.blocks.set a.caret.blockIdx (.paragraph p') }) ∧
      Restored a.p p') :
    BreakClean a.p a.caret.runIdx a.caret.byteOffset ∧ a.BreakSeen := by
  obtain ⟨caret, st', p', hok, hrestored⟩ := h
  obtain ⟨caret₁, st₁, p₁, hclean, hseen, hshort⟩ := run_breakAndJoin a st
  by_cases hs : a.BreakSeen
  · have hsame := congrArg (fun s : UndoStack × Document => s.2.blocks[a.caret.blockIdx]?)
      (EStateM.Result.ok.inj (hok.symm.trans (hseen hs))).2
    have hlt := (List.getElem?_eq_some_iff.1 a.found).1
    simp only [List.getElem?_set_self hlt, Option.some.injEq, Block.paragraph.injEq] at hsame
    exact ⟨hclean.1 (hsame ▸ hrestored), hs⟩
  · have hlt := hshort hs caret st' p' hok
    rw [hrestored.text] at hlt
    exact absurd hlt (lt_irrefl _)

/-- Return and the deletion of the break that it makes restore the paragraph and change nothing else
exactly if the paragraph is clean at the caret and the break is found. -/
theorem breakAndJoin_iff (d : Document) (a : BodyCaret d) (st : UndoStack) :
    (∃ caret st' p', (breakAndJoin a.caret).run (st, d) =
        .ok caret (st', { d with blocks := d.blocks.set a.caret.blockIdx (.paragraph p') }) ∧
      Restored a.p p') ↔
    BreakClean a.p a.caret.runIdx a.caret.byteOffset ∧ a.BreakSeen := by
  refine ⟨clean_of_restored a st, fun ⟨hclean, hs⟩ => ?_⟩
  obtain ⟨caret, st', p', hrestored, hseen, -⟩ := run_breakAndJoin a st
  exact ⟨caret, st', p', hseen hs, hrestored.2 hclean⟩

/-- A style id is lost. -/
theorem not_breakAndJoin_heading : ¬ ∀ (d : Document) (a : BodyCaret d) (st : UndoStack),
    ∃ caret st' p', (breakAndJoin a.caret).run (st, d) =
        .ok caret (st', { d with blocks := d.blocks.set a.caret.blockIdx (.paragraph p') }) ∧
      Restored a.p p' := by
  intro h
  let p : Paragraph := { runs := [{ text := ['A', 'B'] }], styleId := some ['H'] }
  let a : BodyCaret { blocks := [.paragraph p] } :=
    { caret := { byteOffset := 1 }, p, cell := rfl, found := rfl,
      inPara := .inr ⟨_, rfl, ['A'], ['B'], rfl, rfl⟩ }
  have hstyle := (clean_of_restored a {} (h _ a {})).1.styleId
  cases hstyle

end Orchid.Document
