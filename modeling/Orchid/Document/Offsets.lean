import Orchid.Document.FlatText
import Mathlib.Data.List.Induction

/-!
# When the flat-text views agree

Both offset conversions count in the paragraphs joined with a line break between any two, and there
they invert each other. The flat text lacks the line breaks of empty paragraphs at the front, so
the conversions speak about it only if no such line break comes before a run.
-/

namespace Orchid.Document

open Lib
open String (utf8Len)

/-! ### What the views should say -/

/-- The flat text in front of a cursor at a character boundary of a run, no result for any other
cursor. -/
def textBefore (blocks : List Block) (c : Cursor) : Option Text := do
  let p ← paragraphRef blocks c
  let run ← p.runs[c.runIdx]?
  let (u, _) ← splitAtByte run.text c.byteOffset
  if (c.cell.bind CellPath.imageIdx).isSome then none
  else
    let earlier := (places blocks).takeWhile fun x => x.1 ≠ c.place
    some (joined '\n' (texts earlier ++ [(p.runs.take c.runIdx).flatMap Run.text ++ u]))

/-- The three flat-text views of a document agree. -/
structure ViewsAgree (d : Document) : Prop where
  offset_eq : ∀ c before, textBefore d.blocks c = some before →
    plainOffsetFromCursor d.blocks c = utf8Len before
  round_trip : ∀ offset, IsCharBoundary d.plainText offset →
    plainOffsetFromCursor d.blocks (cursorFromPlainOffset d.blocks offset) =
      min offset (utf8Len d.plainText)

/-- The first paragraph shows some text, or no later paragraph has a run. -/
def FirstShows (blocks : List Block) : Prop :=
  ∀ x l, places blocks = x :: l → x.2.plainText ≠ [] ∨ ∀ y ∈ l, y.2.runs = []

lemma textBefore_eq_some {blocks : List Block} {c : Cursor} {before : Text}
    (h : textBefore blocks c = some before) :
    c.cell.bind CellPath.imageIdx = none ∧ ∃ p run u v pre post,
      places blocks = pre ++ (c.place, p) :: post ∧ (∀ x ∈ pre, x.1 ≠ c.place) ∧
      p.runs[c.runIdx]? = some run ∧ run.text = u ++ v ∧ utf8Len u = c.byteOffset ∧
      before = joined '\n' (texts pre ++ [(p.runs.take c.runIdx).flatMap Run.text ++ u]) := by
  simp only [textBefore, Option.bind_eq_bind, Option.bind_eq_some_iff, Prod.exists,
    Option.ite_none_left_eq_some, Option.some.injEq] at h
  obtain ⟨p, hp, run, hrun, u, v, hsplit, himg, rfl⟩ := h
  obtain ⟨ht, hu⟩ := splitAtByte_eq_some hsplit
  have himg' : c.cell.bind CellPath.imageIdx = none := by simpa using himg
  obtain ⟨pre, post, hpl, hpre⟩ := exists_split himg' hp
  refine ⟨himg', p, run, u, v, pre, post, hpl, hpre, hrun, ht, hu, ?_⟩
  have htake : (places blocks).takeWhile (fun x => x.1 ≠ c.place) = pre := by
    rw [hpl, List.takeWhile_append_of_pos fun x hx => by simpa using hpre x hx]
    simp
  rw [htake]

/-! ### The walks -/

/-- Where the next paragraph starts when a line break is counted between any two. -/
def startOf (l : List (Place × Paragraph)) : ℕ :=
  if l = [] then 0 else utf8Len (spread '\n' (texts l)) + 1

lemma utf8Len_spread_append (l : List (Place × Paragraph)) (t : Text) :
    utf8Len (spread '\n' (texts l ++ [t])) = startOf l + utf8Len t := by
  unfold startOf
  split_ifs with h
  · simp [h, texts]
  · rw [spread_append_singleton (by simpa [texts] using h), String.utf8Len_append,
      String.utf8Len_cons]
    have : Char.utf8Size '\n' = 1 := rfl
    omega

lemma cursorWalk_of_forall_ne {c : Cursor} {l : List (Place × Paragraph)}
    (h : ∀ x ∈ l, x.1 ≠ c.place) :
    cursorWalk c l = .ok ⟨utf8Len (spread '\n' (texts l)), !l.isEmpty⟩ := by
  induction l using List.reverseRecOn with
  | nil => rfl
  | append_singleton l x ih =>
    have hx : x.1 ≠ c.place := h x (by simp)
    have hwalk : cursorWalk c l = _ := ih fun y hy => h y (by simp [hy])
    have hlen := utf8Len_spread_append l x.2.plainText
    rw [cursorWalk] at hwalk ⊢
    rw [foldlM_concat, hwalk, texts_append]
    show CursorWalk.paragraph c (x.1 = c.place) _ x.2 = _
    rw [CursorWalk.paragraph, decide_eq_false hx, paraLen_eq]
    cases l with
    | nil => simp [texts]
    | cons y l =>
      rw [startOf, if_neg (by simp)] at hlen
      simpa [texts] using hlen.symm

/-- The offset of a cursor at the place of a paragraph. -/
lemma plainOffsetFromCursor_split {blocks : List Block} {c : Cursor} {p : Paragraph}
    {pre post : List (Place × Paragraph)} (himg : c.cell.bind CellPath.imageIdx = none)
    (hpl : places blocks = pre ++ (c.place, p) :: post) (hpre : ∀ x ∈ pre, x.1 ≠ c.place) :
    plainOffsetFromCursor blocks c = startOf pre + offsetInPara p c := by
  rw [plainOffsetFromCursor_eq blocks himg, hpl]
  have hhit : CursorWalk.paragraph c true ⟨utf8Len (spread '\n' (texts pre)), !pre.isEmpty⟩ p =
      .error (startOf pre + offsetInPara p c) := by
    cases pre with
    | nil => simp [CursorWalk.paragraph, himg, startOf, texts]
    | cons x pre => simp [CursorWalk.paragraph, himg, startOf]
  have hwalk : cursorWalk c (pre ++ (c.place, p) :: post) = .error (startOf pre + offsetInPara p c) :=
    foldlM_eq_error (cursorWalk_of_forall_ne hpre) (by simpa using hhit) post
  rw [hwalk]
  rfl

/-- Where the walk of `cursorFromPlainOffset` stops. -/
lemma offsetWalk_eq (l : List (Place × Paragraph)) (offset : ℕ) (hl : l ≠ []) :
    (∃ pre x post n, l = pre ++ x :: post ∧ n ≤ utf8Len x.2.plainText ∧ startOf pre + n = offset ∧
      offsetWalk l offset = .error (cursorInPara x.1.1 x.1.2 x.2 n)) ∨
    (∃ pre x, l = pre ++ [x] ∧ utf8Len (spread '\n' (texts l)) < offset ∧
      offsetWalk l offset = .ok ⟨offset - utf8Len (spread '\n' (texts l)), true,
        endOfPara x.1.1 x.1.2 x.2⟩) := by
  induction l using List.reverseRecOn with
  | nil => exact absurd rfl hl
  | append_singleton l x ih =>
    have hlen := utf8Len_spread_append l x.2.plainText
    have htexts : texts (l ++ [x]) = texts l ++ [x.2.plainText] := texts_append l [x]
    -- the paragraph itself, reached with the start of its text at `startOf l`
    have hstep : ∀ s : OffsetWalk, offsetWalk l offset = .ok s →
        (s.emitted = true → s.offset ≠ 0) →
        (if s.emitted then s.offset - 1 else s.offset) + startOf l = offset →
        (∃ pre y post n, l ++ [x] = pre ++ y :: post ∧ n ≤ utf8Len y.2.plainText ∧
          startOf pre + n = offset ∧
          offsetWalk (l ++ [x]) offset = .error (cursorInPara y.1.1 y.1.2 y.2 n)) ∨
        (∃ pre y, l ++ [x] = pre ++ [y] ∧ utf8Len (spread '\n' (texts (l ++ [x]))) < offset ∧
          offsetWalk (l ++ [x]) offset =
            .ok ⟨offset - utf8Len (spread '\n' (texts (l ++ [x]))), true,
              endOfPara y.1.1 y.1.2 y.2⟩) := by
      intro s hs hne hoff
      have hwalk : offsetWalk (l ++ [x]) offset = OffsetWalk.paragraph x.1.1 x.1.2 s x.2 := by
        rw [offsetWalk] at hs ⊢
        rw [foldlM_concat, hs]
        rfl
      rw [OffsetWalk.paragraph, if_neg (by tauto), paraLen_eq] at hwalk
      by_cases hle : (if s.emitted then s.offset - 1 else s.offset) ≤ utf8Len x.2.plainText
      · rw [if_pos hle] at hwalk
        exact Or.inl ⟨l, x, [], _, rfl, hle, by omega, hwalk⟩
      · rw [if_neg hle] at hwalk
        refine Or.inr ⟨l, x, rfl, ?_, ?_⟩
        · rw [htexts, hlen]
          omega
        · rw [hwalk, htexts, hlen]
          congr 2
          omega
    by_cases hnil : l = []
    · subst hnil
      exact hstep ⟨offset, false, {}⟩ rfl (by simp) (by simp [startOf])
    · rcases ih hnil with ⟨pre, y, post, n, rfl, hn, hoff, hwalk⟩ | ⟨pre, y, rfl, hlt, hwalk⟩
      · refine Or.inl ⟨pre, y, post ++ [x], n, by simp, hn, hoff, ?_⟩
        exact foldlM_append_error hwalk [x]
      · refine hstep _ hwalk (fun _ => by simp; omega) ?_
        rw [startOf, if_neg hnil]
        simp only [if_true]
        omega

/-! ### The round trip -/

lemma imageIdx_of_mem_places {blocks : List Block} {x : Place × Paragraph}
    (h : x ∈ places blocks) : x.1.2.bind CellPath.imageIdx = none := by
  obtain ⟨i, block, -, hmem⟩ := mem_enumFlatMap.mp h
  cases block with
  | paragraph p =>
    obtain rfl : x = _ := by simpa [Block.places] using hmem
    rfl
  | image i => simp [Block.places] at hmem
  | table t =>
    simp only [Block.places, TableRow.places, TableCell.places, mem_enumFlatMap] at hmem
    obtain ⟨r, row, -, c, cell, -, pi, p, -, hx⟩ := hmem
    obtain rfl : x = _ := by simpa using hx
    rfl

/-- The conversions invert each other in the text with a line break between any two paragraphs. -/
lemma plainOffset_cursorFrom (blocks : List Block) (offset : ℕ) :
    plainOffsetFromCursor blocks (cursorFromPlainOffset blocks offset) =
      min offset (utf8Len (spread '\n' (texts (places blocks)))) := by
  rw [cursorFromPlainOffset_eq]
  -- a cursor at the place of the paragraph `x`
  have hat : ∀ pre x post (c : Cursor), places blocks = pre ++ x :: post → c.place = x.1 →
      plainOffsetFromCursor blocks c = startOf pre + offsetInPara x.2 c := by
    intro pre x post c hpl hplace
    have himg := imageIdx_of_mem_places (show x ∈ places blocks by simp [hpl])
    rw [← hplace] at himg
    have hnd := nodup_places blocks
    rw [hpl, List.map_append, List.map_cons, List.nodup_append] at hnd
    refine plainOffsetFromCursor_split himg (by rw [hpl, hplace]) fun y hy heq => ?_
    exact hnd.2.2 y.1 (List.mem_map_of_mem hy) x.1 (by simp) (heq.trans hplace)
  by_cases hnil : places blocks = []
  · have hdef : plainOffsetFromCursor blocks {} = 0 := by
      rw [plainOffsetFromCursor_eq blocks rfl, hnil]
      rfl
    have hwalk : offsetWalk (places blocks) offset = .ok ⟨offset, false, {}⟩ := by
      rw [hnil]
      rfl
    rw [hwalk, hnil]
    exact hdef.trans (Nat.min_zero offset).symm
  · rcases offsetWalk_eq (places blocks) offset hnil with
      ⟨pre, x, post, n, hpl, hn, hoff, hwalk⟩ | ⟨pre, x, hpl, hlt, hwalk⟩
    · have hle : startOf pre + utf8Len x.2.plainText ≤
          utf8Len (spread '\n' (texts (places blocks))) := by
        rw [← utf8Len_spread_append, hpl, texts_append]
        simpa [texts] using String.utf8Len_le_of_prefix
          (isPrefix_spread (texts pre ++ [x.2.plainText]) (texts post))
      rw [hwalk, OffsetWalk.finish, hat pre x post _ hpl rfl, offsetInPara_cursorInPara]
      omega
    · have hlen := utf8Len_spread_append pre x.2.plainText
      have htexts : texts (places blocks) = texts pre ++ [x.2.plainText] := by
        rw [hpl]
        exact texts_append pre [x]
      have hend : (endOfPara x.1.1 x.1.2 x.2).place = x.1 := by
        unfold endOfPara
        split <;> rfl
      rw [hwalk, OffsetWalk.finish, if_pos rfl, hat pre x [] _ hpl hend, offsetInPara_endOfPara,
        htexts, hlen]
      rw [htexts, hlen] at hlt
      omega

/-! ### Agreement -/

/-- The offset of a cursor counts a line break between any two paragraphs in front of it. -/
lemma plainOffset_of_textBefore {blocks : List Block} {c : Cursor} {before : Text}
    (h : textBefore blocks c = some before) :
    ∃ pre t p run post, places blocks = pre ++ (c.place, p) :: post ∧
      p.runs[c.runIdx]? = some run ∧ before = joined '\n' (texts pre ++ [t]) ∧
      plainOffsetFromCursor blocks c = utf8Len (spread '\n' (texts pre ++ [t])) := by
  obtain ⟨himg, p, run, u, v, pre, post, hpl, hpre, hrun, ht, hu, rfl⟩ := textBefore_eq_some h
  refine ⟨pre, _, p, run, post, hpl, hrun, rfl, ?_⟩
  rw [plainOffsetFromCursor_split himg hpl hpre, offsetInPara, ← hu, offsetInRuns_eq hrun ht,
    utf8Len_spread_append]

/-- The flat-text views agree exactly when the first paragraph shows some text or no later
paragraph has a run. The round trip through a cursor holds in every document. -/
theorem viewsAgree_iff (d : Document) : ViewsAgree d ↔ FirstShows d.blocks := by
  have hround : ∀ offset, IsCharBoundary d.plainText offset →
      plainOffsetFromCursor d.blocks (cursorFromPlainOffset d.blocks offset) =
        min offset (utf8Len d.plainText) := by
    intro offset hoff
    have hle : utf8Len d.plainText ≤ utf8Len (spread '\n' (texts (places d.blocks))) := by
      rw [Document.plainText, bodyText_eq]
      exact utf8Len_joined_le_spread _
    rw [plainOffset_cursorFrom, min_eq_left hoff.le, min_eq_left (hoff.le.trans hle)]
  constructor
  · intro hagree x l hpl
    by_contra hnot
    push Not at hnot
    obtain ⟨hx, y, hy, hruns⟩ := hnot
    -- the start of the first run of `y`
    let c : Cursor := { blockIdx := y.1.1, cell := y.1.2 }
    have hmem : y ∈ places d.blocks := by
      rw [hpl]
      exact List.mem_cons_of_mem x hy
    have himg : c.cell.bind CellPath.imageIdx = none := imageIdx_of_mem_places hmem
    have href : paragraphRef d.blocks c = some y.2 := (mem_places_iff himg).mp hmem
    obtain ⟨run, runs, hcons⟩ := List.exists_cons_of_ne_nil hruns
    obtain ⟨before, hbefore⟩ : ∃ before, textBefore d.blocks c = some before := by
      simp [textBefore, href, hcons, c, splitAtByte, himg]
    obtain ⟨pre, t, p, run, post, hpl', -, rfl, hoff⟩ := plainOffset_of_textBefore hbefore
    cases pre with
    | nil =>
      have hnd := nodup_places d.blocks
      rw [hpl', List.nil_append, List.cons.injEq] at hpl
      rw [hpl', List.nil_append, List.map_cons, List.nodup_cons] at hnd
      exact hnd.1 (List.mem_map.mpr ⟨y, hpl.2 ▸ hy, rfl⟩)
    | cons z pre =>
      obtain rfl : x = z := by
        rw [hpl', List.cons_append, List.cons.injEq] at hpl
        exact hpl.1.symm
      have hlen := hagree.offset_eq c _ hbefore
      rw [hoff] at hlen
      have := (utf8Len_spread_eq_joined_iff x.2.plainText (texts pre ++ [t])).mp hlen
      simp [hx] at this
  · intro hfirst
    refine ⟨fun c before h => ?_, hround⟩
    obtain ⟨pre, t, p, run, post, hpl, hrun, rfl, hoff⟩ := plainOffset_of_textBefore h
    rw [hoff]
    cases pre with
    | nil => exact (utf8Len_spread_eq_joined_iff t []).mpr (Or.inr rfl)
    | cons x pre =>
      refine (utf8Len_spread_eq_joined_iff x.2.plainText _).mpr (Or.inl ?_)
      refine (hfirst x _ hpl).resolve_right fun hnone => ?_
      have hruns : p.runs = [] := hnone (c.place, p) (by simp)
      simp [hruns] at hrun

/-- An empty paragraph in front of the text `A`: the flat text is `A`, but the offset of its first
character is given as `1`. -/
theorem not_viewsAgree_leading_empty : ¬ ∀ d : Document, ViewsAgree d := by
  intro h
  have hA : plainOffsetFromCursor [.paragraph {}, .paragraph { runs := [{ text := ['A'] }] }]
      { blockIdx := 1 } = 0 :=
    (h { blocks := [.paragraph {}, .paragraph { runs := [{ text := ['A'] }] }] }).offset_eq
      { blockIdx := 1 } [] rfl
  exact absurd hA (by decide)

end Orchid.Document
