import Orchid.Document.ParagraphCut
import Orchid.Document.StyleEdit

/-!
# The characters a style edit reaches

A style patch on a range of one paragraph patches the characters between the two ends and no others.
-/

namespace Orchid.Document

open Lib
open String (utf8Len)

/-! ### Patched characters -/

/-- A character with its style, style id and hyperlink. -/
abbrev StyledChar : Type := Char × RunStyle × Option Text × Option Hyperlink

/-- The patch on a character. -/
def RunStylePatch.onChar (patch : RunStylePatch) (c : StyledChar) : StyledChar :=
  (c.1, patch.applyTo c.2.1, patch.styleId.getD c.2.2.1, patch.hyperlink.getD c.2.2.2)

lemma charStyles_map_applyToRun (patch : RunStylePatch) (runs : List Run) :
    charStyles (runs.map patch.applyToRun) = (charStyles runs).map patch.onChar := by
  induction runs with
  | nil => rfl
  | cons r runs ih =>
    have hone : charStyles [patch.applyToRun r] = (charStyles [r]).map patch.onChar := by
      simp [charStyles, RunStylePatch.applyToRun, RunStylePatch.onChar]
    have hcons (r : Run) (runs : List Run) :
        charStyles (r :: runs) = charStyles [r] ++ charStyles runs := charStyles_append [r] runs
    rw [List.map_cons, hcons, hone, ih, ← List.map_append, ← hcons]

/-- The characters of a run in two parts. -/
lemma charStyles_parts {r : Run} {u v : Text} (h : r.text = u ++ v) (runs : List Run) :
    charStyles (r :: runs) = charStyles [r.part u] ++ charStyles (r.part v :: runs) := by
  simp [charStyles, h, Run.part]

lemma charStyles_part_nil (r : Run) : charStyles [r.part []] = [] := rfl

/-- A part of a list is mapped, by the indices of its first and last element. -/
lemma mapIdx_span {α : Type} (f : α → α) {front mid back : List α} {first last : ℕ}
    (hfirst : first = front.length)
    (hlast : ∀ i, front.length ≤ i → (i ≤ last ↔ i < front.length + mid.length)) :
    (front ++ mid ++ back).mapIdx (fun i x => if first ≤ i ∧ i ≤ last then f x else x) =
      front ++ mid.map f ++ back := by
  subst hfirst
  refine List.ext_getElem (by simp) fun i h₁ h₂ => ?_
  have hi := hlast i
  simp only [List.getElem_mapIdx, List.getElem_append, List.length_append, List.length_map,
    List.getElem_map]
  by_cases hfront : i < front.length
  · have hmid : i < front.length + mid.length := by omega
    simp [hfront, hmid, Nat.not_le.2 hfront]
  · have hle : front.length ≤ i := Nat.le_of_not_lt hfront
    by_cases hmid : i < front.length + mid.length
    · simp [hfront, hmid, hle, (hi hle).2 hmid]
    · have hbeyond : ¬ i ≤ last := fun h => hmid ((hi hle).1 h)
      simp [hmid, hbeyond]

/-! ### Ranges of one paragraph -/

variable {p : Paragraph} {patch : RunStylePatch}

lemma runLen_append {pre post : List Run} {r : Run} (h : p.runs = pre ++ r :: post) :
    p.runLen pre.length = utf8Len r.text := by
  simp [Paragraph.runLen, h]

/-- Splitting a run inside its text. -/
lemma run_splitRunAt {pre post : List Run} {r : Run} {u v : Text} (h : p.runs = pre ++ r :: post)
    (htext : r.text = u ++ v) (hu : u ≠ []) (hv : v ≠ []) :
    (splitRunAt pre.length (utf8Len u)).run p = .ok (pre.length + 1)
      (p.withRuns (pre ++ r.withText u :: r.part v :: post)) := by
  have hrun : p.runs[pre.length]? = some r := by simp [h]
  have hpos : utf8Len u ≠ 0 := mt String.utf8Len_eq_zero.1 hu
  have hpos' : utf8Len v ≠ 0 := mt String.utf8Len_eq_zero.1 hv
  have hlt : ¬ utf8Len u ≥ utf8Len r.text := by
    rw [htext, String.utf8Len_append]
    omega
  have hruns : (p.runs.set pre.length (r.withText u)).insertIdx (pre.length + 1)
      { r with text := v, field := none } = pre ++ r.withText u :: r.part v :: post := by
    rw [h, insertIdx_set_succ (by simp), List.take_left, List.drop_length_add_append]
    rfl
  rw [splitRunAt]
  simp only [EStateM.run_bind, EStateM.run_get, hrun, hpos, hlt, if_false]
  rw [htext, splitAtByte_append]
  simp only [EStateM.run_bind, EStateM.run_set, hruns]
  rfl

lemma run_patchRuns {front mid back : List Run} {first last : ℕ}
    (h : p.runs = front ++ mid ++ back) (hfirst : first = front.length)
    (hlast : ∀ i, front.length ≤ i → (i ≤ last ↔ i < front.length + mid.length)) :
    (patchRuns patch first last).run p =
      .ok () (p.withRuns (front ++ mid.map patch.applyToRun ++ back)) := by
  rw [patchRuns, EStateM.run_modify, h, mapIdx_span _ hfirst hlast]

/-- The start of the range is split off and everything from there to the last run is patched. -/
lemma run_styleFrom {pre mid rest : List Run} {x : Run} {u w : Text}
    (h : p.runs = pre ++ x :: (mid ++ rest)) (htext : x.text = u ++ w) :
    ∃ p', (do
        let (startRun, endRun) ←
          splitRangeStart pre.length (utf8Len u) (pre.length + mid.length)
        patchRuns patch startRun endRun : Edit Paragraph Unit).run p = .ok () p' ∧
      charStyles p'.runs = charStyles (pre ++ [x.part u]) ++
        (charStyles (x.part w :: mid)).map patch.onChar ++ charStyles rest := by
  have hlen : p.runLen pre.length = utf8Len u + utf8Len w := by
    rw [runLen_append h, htext, String.utf8Len_append]
  by_cases hu : u = []
  · subst hu
    have hpatch := @run_patchRuns p patch pre (x :: mid) rest pre.length (pre.length + mid.length)
      (by simpa using h) rfl (fun i _ => by rw [List.length_cons]; omega)
    refine ⟨p.withRuns (pre ++ (x :: mid).map patch.applyToRun ++ rest), ?_, ?_⟩
    · simp only [splitRangeStart, EStateM.run_bind, EStateM.run_get]
      simpa using hpatch
    · have hx : charStyles (x :: mid) = charStyles (x.part w :: mid) := by
        rw [charStyles_parts htext, charStyles_part_nil, List.nil_append]
      rw [Paragraph.runs_withRuns, charStyles_append, charStyles_append, charStyles_append,
        charStyles_map_applyToRun, hx, charStyles_part_nil, List.append_nil]
  · have hpos : 0 < utf8Len u := Nat.pos_of_ne_zero (mt String.utf8Len_eq_zero.1 hu)
    by_cases hw : w = []
    · subst hw
      have hpatch := @run_patchRuns p patch (pre ++ [x]) mid rest (pre.length + 1)
        (pre.length + mid.length) (by simpa using h) (by simp)
        (fun i hi => by rw [List.length_append] at *; simp only [List.length_singleton] at *; omega)
      refine ⟨p.withRuns (pre ++ [x] ++ mid.map patch.applyToRun ++ rest), ?_, ?_⟩
      · simp only [splitRangeStart, EStateM.run_bind, EStateM.run_get, hlen]
        simpa [hpos, hpos.ne'] using hpatch
      · have hx : charStyles [x] = charStyles [x.part u] := by
          rw [charStyles_parts htext, charStyles_part_nil, List.append_nil]
        have hmid : charStyles (x.part [] :: mid) = charStyles mid := rfl
        rw [Paragraph.runs_withRuns, charStyles_append, charStyles_append, charStyles_append,
          charStyles_append, charStyles_map_applyToRun, hx, hmid]
    · have hpos' : 0 < utf8Len w := Nat.pos_of_ne_zero (mt String.utf8Len_eq_zero.1 hw)
      have hsplit := run_splitRunAt h htext hu hw
      have hpatch := @run_patchRuns (p.withRuns (pre ++ x.withText u :: x.part w :: (mid ++ rest)))
        patch (pre ++ [x.withText u]) (x.part w :: mid) rest (pre.length + 1)
        (pre.length + mid.length + 1) (by simp) (by simp)
        (fun i hi => by
          simp only [List.length_append, List.length_cons, List.length_nil] at *
          omega)
      refine ⟨p.withRuns (pre ++ [x.withText u] ++ (x.part w :: mid).map patch.applyToRun ++ rest),
        ?_, ?_⟩
      · simp only [splitRangeStart, EStateM.run_bind, EStateM.run_get, hlen]
        simpa [hpos, hpos', hsplit] using hpatch
      · have hx : charStyles [x.withText u] = charStyles [x.part u] := rfl
        rw [Paragraph.runs_withRuns, charStyles_append, charStyles_append, charStyles_append,
          charStyles_append, charStyles_map_applyToRun, hx]

/-- Splitting off the end of a range inside one run. -/
lemma run_splitRangeEnd_same {pre post : List Run} {a : Run} {u w v : Text}
    (h : p.runs = pre ++ a :: post) (htext : a.text = u ++ w ++ v) (hw : w ≠ []) :
    ∃ p₁ x rest, (splitRangeEnd pre.length pre.length (utf8Len (u ++ w))).run p =
        .ok pre.length p₁ ∧ p₁.runs = pre ++ x :: rest ∧ x.text = u ++ w ∧
      (∀ t, x.part t = a.part t) ∧ charStyles rest = charStyles (a.part v :: post) := by
  have hlen : p.runLen pre.length = utf8Len (u ++ w) + utf8Len v := by
    rw [runLen_append h, htext, String.utf8Len_append]
  have hpos : 0 < utf8Len (u ++ w) :=
    Nat.pos_of_ne_zero (mt String.utf8Len_eq_zero.1 (by simp [hw]))
  by_cases hv : v = []
  · subst hv
    refine ⟨p, a, post, ?_, h, by simpa using htext, fun _ => rfl, rfl⟩
    simp [splitRangeEnd, hlen]
  · have hpos' : 0 < utf8Len v := Nat.pos_of_ne_zero (mt String.utf8Len_eq_zero.1 hv)
    have hsplit := run_splitRunAt h htext (by simp [hw]) hv
    refine ⟨p.withRuns (pre ++ a.withText (u ++ w) :: a.part v :: post), a.withText (u ++ w),
      a.part v :: post, ?_, rfl, rfl, fun _ => rfl, rfl⟩
    simp only [splitRangeEnd, EStateM.run_bind, EStateM.run_get, hlen]
    rw [if_pos ⟨hpos, Nat.lt_add_of_pos_right hpos'⟩, EStateM.run_bind, hsplit]
    rfl

/-- Splitting off the end of a range over several runs. -/
lemma run_splitRangeEnd_later {pre mid post : List Run} {a b : Run} {u v : Text}
    (h : p.runs = pre ++ a :: (mid ++ b :: post)) (htext : b.text = u ++ v) :
    ∃ p₁ mid' rest, (splitRangeEnd pre.length (pre.length + 1 + mid.length) (utf8Len u)).run p =
        .ok (pre.length + mid'.length) p₁ ∧ p₁.runs = pre ++ a :: (mid' ++ rest) ∧
      charStyles mid' = charStyles (mid ++ [b.part u]) ∧
      charStyles rest = charStyles (b.part v :: post) := by
  have hruns : p.runs = (pre ++ a :: mid) ++ b :: post := by simpa using h
  have hidx : (pre ++ a :: mid).length = pre.length + 1 + mid.length := by simp; omega
  have hlen : p.runLen (pre.length + 1 + mid.length) = utf8Len u + utf8Len v := by
    rw [← hidx, runLen_append hruns, htext, String.utf8Len_append]
  by_cases hu : u = []
  · subst hu
    refine ⟨p, mid, b :: post, ?_, h, ?_, ?_⟩
    · have hlt : pre.length < pre.length + 1 + mid.length := by omega
      have hsub : pre.length + 1 + mid.length - 1 = pre.length + mid.length := by omega
      simp [splitRangeEnd, hlt, hsub]
    · rw [charStyles_append, charStyles_part_nil, List.append_nil]
    · rw [charStyles_parts htext, charStyles_part_nil, List.nil_append]
  · have hpos : 0 < utf8Len u := Nat.pos_of_ne_zero (mt String.utf8Len_eq_zero.1 hu)
    have hend : pre.length + 1 + mid.length = pre.length + (mid.length + 1) := by omega
    by_cases hv : v = []
    · subst hv
      refine ⟨p, mid ++ [b], post, ?_, by simpa using h, ?_, rfl⟩
      · simp only [splitRangeEnd, EStateM.run_bind, EStateM.run_get, hlen]
        simp [hpos.ne', hend]
      · rw [charStyles_append, charStyles_append, charStyles_parts htext, charStyles_part_nil,
          List.append_nil]
    · have hpos' : 0 < utf8Len v := Nat.pos_of_ne_zero (mt String.utf8Len_eq_zero.1 hv)
      have hsplit := run_splitRunAt hruns htext hu hv
      rw [hidx] at hsplit
      refine ⟨p.withRuns (pre ++ a :: mid ++ b.withText u :: b.part v :: post),
        mid ++ [b.withText u], b.part v :: post, ?_, ?_, ?_, rfl⟩
      · simp only [splitRangeEnd, EStateM.run_bind, EStateM.run_get, hlen]
        rw [if_pos ⟨hpos, Nat.lt_add_of_pos_right hpos'⟩, EStateM.run_bind, hsplit, hend,
          List.length_append]
        rfl
      · simp
      · rw [charStyles_append, charStyles_append]
        rfl

/-- A range of one paragraph: the characters between its ends are patched. -/
lemma run_applyStyle {start stop : Cursor} {front back front' back' : List Run}
    (hstart : p.Cut start.runIdx start.byteOffset front back')
    (hstop : p.Cut stop.runIdx stop.byteOffset front' back) (hne : p.runs ≠ [])
    (horder : start.runIdx < stop.runIdx ∨
      start.runIdx = stop.runIdx ∧ start.byteOffset < stop.byteOffset) :
    ∃ p' mid, (applyStyleToParagraphRange start.runIdx start.byteOffset stop.runIdx stop.byteOffset
        patch).run p = .ok () p' ∧ charStyles front' = charStyles front ++ mid ∧
      charStyles p'.runs = charStyles front ++ mid.map patch.onChar ++ charStyles back := by
  cases hstart with
  | empty hruns => exact absurd hruns hne
  | @inside pre post a u w hruns hrun htext hbyte =>
    cases hstop with
    | empty hruns' => exact absurd hruns' hne
    | @inside pre' post' b u' v hruns' hrun' htext' hbyte' =>
      have hlt : pre.length < p.runs.length := by simp [hruns]
      have hlt' : pre'.length < p.runs.length := by simp [hruns']
      have hbounds : ¬ (pre.length ≥ p.runs.length ∨ pre'.length ≥ p.runs.length) := by omega
      have happly {k : ℕ} {p₁ p' : Paragraph} (hend : (splitRangeEnd pre.length pre'.length
            (utf8Len u')).run p = .ok k p₁)
          (hfrom : (do
            let (startRun, endRun) ← splitRangeStart pre.length (utf8Len u) k
            patchRuns patch startRun endRun : Edit Paragraph Unit).run p₁ = .ok () p') :
          (applyStyleToParagraphRange pre.length (utf8Len u) pre'.length (utf8Len u') patch).run p =
            .ok () p' := by
        rw [applyStyleToParagraphRange]
        simp only [EStateM.run_bind, EStateM.run_get, hbounds, if_false, hend]
        exact hfrom
      rw [← hrun, ← hrun', ← hbyte, ← hbyte'] at horder
      rw [← hrun, ← hrun', ← hbyte, ← hbyte']
      have hboth := hruns.symm.trans hruns'
      rcases horder with hlater | ⟨hsame, hbytes⟩
      · -- the end lies in a later run
        obtain ⟨mid, rfl, rfl⟩ : ∃ mid, post = mid ++ b :: post' ∧ pre' = pre ++ a :: mid := by
          rcases List.append_eq_append_iff.1 hboth with ⟨m, hpre, hm⟩ | ⟨m, hpre, -⟩
          · cases m with
            | nil => simp [hpre] at hlater
            | cons y mid =>
              obtain ⟨rfl, hpost⟩ := List.cons.inj hm
              exact ⟨mid, hpost, hpre⟩
          · simp [hpre] at hlater
        obtain ⟨p₁, mid', rest, hend, hruns₁, hmid, hrest⟩ := run_splitRangeEnd_later hruns htext'
        obtain ⟨p', hfrom, hchars⟩ := @run_styleFrom p₁ patch _ _ _ _ _ _ hruns₁ htext
        have hlen : (pre ++ a :: mid).length = pre.length + 1 + mid.length := by simp; omega
        rw [← hlen] at hend
        have hcons (runs : List Run) :
            charStyles (a.part w :: runs) = charStyles [a.part w] ++ charStyles runs :=
          charStyles_append [a.part w] runs
        refine ⟨p', charStyles (a.part w :: mid ++ [b.part u']), happly hend hfrom, ?_, ?_⟩
        · have hshape : pre ++ a :: mid ++ [b.part u'] = pre ++ (a :: (mid ++ [b.part u'])) := by
            simp
          rw [hshape, charStyles_append, charStyles_parts htext, charStyles_append pre,
            List.append_assoc]
          rfl
        · rw [hchars, hrest, hcons mid', hmid, List.cons_append, hcons (mid ++ _)]
      · -- both ends lie in one run
        obtain ⟨rfl, hcons⟩ := List.append_inj hboth hsame
        obtain ⟨rfl, rfl⟩ := List.cons.inj hcons
        obtain ⟨m, rfl, rfl⟩ : ∃ m, u' = u ++ m ∧ w = m ++ v := by
          rcases List.append_eq_append_iff.1 (htext.symm.trans htext') with
            ⟨m, hu, hw⟩ | ⟨m, hu, -⟩
          · exact ⟨m, hu, hw⟩
          · rw [hu, String.utf8Len_append] at hbytes
            omega
        have hm : m ≠ [] := by
          rintro rfl
          simp at hbytes
        obtain ⟨p₁, x, rest, hend, hruns₁, hx, hpart, hrest⟩ :=
          run_splitRangeEnd_same hruns htext' hm
        obtain ⟨p', hfrom, hchars⟩ := @run_styleFrom p₁ patch pre [] rest x u m hruns₁ hx
        refine ⟨p', charStyles [a.part m], happly hend hfrom, ?_, ?_⟩
        · rw [charStyles_append, charStyles_append, List.append_assoc]
          simp [charStyles, Run.part]
        · rw [hchars, hrest, hpart, hpart]

/-- A range without characters: its end is not behind its start, and the run of a collapsed range
ends there. -/
lemma run_applyStyle_empty {start stop : Cursor} {front back front' back' : List Run}
    (hstart : p.Cut start.runIdx start.byteOffset front back')
    (hstop : p.Cut stop.runIdx stop.byteOffset front' back) (hne : p.runs ≠ [])
    (horder : ¬ (start.runIdx < stop.runIdx ∨
      start.runIdx = stop.runIdx ∧ start.byteOffset < stop.byteOffset))
    (hend : start.runIdx = stop.runIdx → stop.byteOffset = p.runLen stop.runIdx)
    (hlen : (charStyles front).length ≤ (charStyles front').length) :
    ∃ p', (applyStyleToParagraphRange start.runIdx start.byteOffset stop.runIdx stop.byteOffset
        patch).run p = .ok () p' ∧ charStyles front' = charStyles front ∧
      charStyles p'.runs = charStyles front ++ charStyles back := by
  cases hstart with
  | empty hruns => exact absurd hruns hne
  | @inside pre post a u w hruns hrun htext hbyte =>
    cases hstop with
    | empty hruns' => exact absurd hruns' hne
    | @inside pre' post' b u' v hruns' hrun' htext' hbyte' =>
      have hlt : pre.length < p.runs.length := by simp [hruns]
      have hlt' : pre'.length < p.runs.length := by simp [hruns']
      have hbounds : ¬ (pre.length ≥ p.runs.length ∨ pre'.length ≥ p.runs.length) := by omega
      rw [← hrun, ← hrun', ← hbyte, ← hbyte'] at horder
      rw [← hrun, ← hrun', ← hbyte'] at hend
      rw [← hrun, ← hrun', ← hbyte, ← hbyte']
      have hlenRun := runLen_append hruns'
      have happly {p' : Paragraph} (hv : v = []) (hle : pre'.length ≤ pre.length)
          (hfrom : (do
            let (startRun, endRun) ← splitRangeStart pre.length (utf8Len u) pre'.length
            patchRuns patch startRun endRun : Edit Paragraph Unit).run p = .ok () p') :
          (applyStyleToParagraphRange pre.length (utf8Len u) pre'.length (utf8Len u') patch).run p =
            .ok () p' := by
        have hsplit : (splitRangeEnd pre.length pre'.length (utf8Len u')).run p =
            .ok pre'.length p := by
          have hnot : ¬ (utf8Len u' = 0 ∧ pre'.length > pre.length) := by omega
          rw [hv, List.append_nil] at htext'
          simp only [splitRangeEnd, EStateM.run_bind, EStateM.run_get, hlenRun, htext']
          rw [if_neg (by omega), if_neg hnot]
          rfl
        rw [applyStyleToParagraphRange]
        simp only [EStateM.run_bind, EStateM.run_get, hbounds, if_false, hsplit]
        exact hfrom
      have hboth := hruns.symm.trans hruns'
      rcases Nat.lt_trichotomy pre.length pre'.length with hlater | hsame | hearlier
      · exact absurd (.inl hlater) horder
      · obtain ⟨rfl, hcons⟩ := List.append_inj hboth hsame
        obtain ⟨rfl, rfl⟩ := List.cons.inj hcons
        have hbyteEnd := (hend rfl).trans hlenRun
        rw [htext', String.utf8Len_append] at hbyteEnd
        obtain rfl : v = [] := String.utf8Len_eq_zero.1 (by omega)
        have hsum : utf8Len u + utf8Len w = utf8Len u' := by
          rw [← String.utf8Len_append, ← htext, htext', List.append_nil]
        obtain rfl : w = [] := by
          by_contra hw
          have hpos : 0 < utf8Len w := Nat.pos_of_ne_zero (mt String.utf8Len_eq_zero.1 hw)
          exact horder (.inr ⟨rfl, by omega⟩)
        obtain rfl : u = u' := by simpa using htext.symm.trans htext'
        obtain ⟨p', hfrom, hchars⟩ := @run_styleFrom p patch pre [] post a u [] hruns htext
        refine ⟨p', happly rfl le_rfl hfrom, rfl, ?_⟩
        rw [charStyles_part_nil, List.map_nil, List.append_nil] at hchars
        exact hchars
      · obtain ⟨mid, rfl, rfl⟩ : ∃ mid, post' = mid ++ a :: post ∧ pre = pre' ++ b :: mid := by
          rcases List.append_eq_append_iff.1 hboth with ⟨m, hpre, -⟩ | ⟨m, hpre, hm⟩
          · simp [hpre] at hearlier
          · cases m with
            | nil => simp [hpre] at hearlier
            | cons y mid =>
              obtain ⟨rfl, hpost⟩ := List.cons.inj hm
              exact ⟨mid, hpost, hpre⟩
        have hshape : pre' ++ b :: mid ++ [a.part u] = pre' ++ (b :: (mid ++ [a.part u])) := by simp
        have hfront : charStyles (pre' ++ b :: mid ++ [a.part u]) =
            charStyles (pre' ++ [b.part u']) ++ charStyles (b.part v :: (mid ++ [a.part u])) := by
          rw [hshape, charStyles_append pre', charStyles_parts htext', charStyles_append pre',
            List.append_assoc]
        rw [hfront, List.length_append] at hlen
        have hnone : charStyles (b.part v :: (mid ++ [a.part u])) = [] :=
          List.length_eq_zero_iff.1 (by omega)
        have hempty : v = [] ∧ charStyles mid = [] ∧ u = [] := by
          simpa [charStyles, Run.part] using hnone
        obtain ⟨rfl, hmid, rfl⟩ := hempty
        have hpatch := @run_patchRuns p patch (pre' ++ b :: mid) [] (a :: post)
          (pre' ++ b :: mid).length pre'.length (by simpa using hruns) rfl (fun i hi => by
            simp only [List.length_append, List.length_cons, List.length_nil] at *
            omega)
        have hfrom : (do
            let (startRun, endRun) ← splitRangeStart (pre' ++ b :: mid).length (utf8Len [])
              pre'.length
            patchRuns patch startRun endRun : Edit Paragraph Unit).run p =
              .ok () (p.withRuns (pre' ++ b :: mid ++ a :: post)) := by
          simp only [splitRangeStart, EStateM.run_bind, EStateM.run_get]
          simpa using hpatch
        refine ⟨_, happly rfl hearlier.le hfrom, ?_, ?_⟩
        · rw [hfront, hnone, List.append_nil]
        · have hback : charStyles (b.part [] :: (mid ++ a :: post)) = charStyles (a :: post) := by
            have hcons : charStyles (b.part [] :: (mid ++ a :: post)) =
                charStyles (mid ++ a :: post) := rfl
            rw [hcons, charStyles_append, hmid, List.nil_append]
          rw [hback, Paragraph.runs_withRuns, charStyles_append,
            charStyles_append (pre' ++ b :: mid), charStyles_part_nil, List.append_nil]

/-- The edit keeps the characters and their styles. -/
def KeepsChars (p p' : Paragraph) : Prop := charStyles p'.runs = charStyles p.runs

lemma KeepsChars.refl (p : Paragraph) : KeepsChars p p := rfl

lemma KeepsChars.trans (p q r : Paragraph) (h : KeepsChars p q) (h' : KeepsChars q r) :
    KeepsChars p r := Eq.trans h' h

lemma relates_chars_splitRunAt (runIdx byteOffset : ℕ) :
    Relates KeepsChars (splitRunAt runIdx byteOffset) := by
  refine .get_bind fun p idx p' h => ?_
  cases hrun : p.runs[runIdx]? with
  | none => simp [hrun] at h
  | some run =>
    by_cases h0 : byteOffset = 0
    · obtain ⟨-, rfl⟩ : _ ∧ p = p' := by simpa [hrun, h0] using h
      exact rfl
    · by_cases hge : byteOffset ≥ utf8Len run.text
      · obtain ⟨-, rfl⟩ : _ ∧ p = p' := by simpa [hrun, h0, hge] using h
        exact rfl
      · cases hsplit : splitAtByte run.text byteOffset with
        | none => simp [hrun, h0, hge, hsplit] at h
        | some x =>
          obtain ⟨u, v⟩ := x
          obtain ⟨htext, rfl⟩ := splitAtByte_eq_some hsplit
          obtain ⟨pre, post, hruns, rfl⟩ := exists_append_of_getElem? hrun
          have hu : u ≠ [] := fun hu => h0 (by simp [hu])
          have hv : v ≠ [] := fun hv => hge (by simp [htext, hv])
          have hok := run_splitRunAt hruns htext hu hv
          have hrun' : (splitRunAt pre.length (utf8Len u)).run p = .ok idx p' := h
          cases hrun'.symm.trans hok
          have hwith : (run.withText u).text = u ++ [] := (List.append_nil u).symm
          rw [KeepsChars, Paragraph.runs_withRuns, hruns, charStyles_append, charStyles_append,
            charStyles_parts htext, charStyles_parts hwith]
          rfl

lemma splitRunAt_value {i b k : ℕ} {p' : Paragraph} (h : (splitRunAt i b).run p = .ok k p') :
    i ≤ k := by
  rw [splitRunAt, EStateM.run_bind, EStateM.run_get] at h
  dsimp only at h
  split at h
  · cases h
  · split_ifs at h
    · cases h
      exact le_rfl
    · cases h
      exact Nat.le_succ i
    · split at h
      · cases h
      · cases h
        exact Nat.le_succ i

lemma splitRangeEnd_value {i j e k : ℕ} {p' : Paragraph} (he : e ≠ 0)
    (h : (splitRangeEnd i j e).run p = .ok k p') : k = j := by
  rw [splitRangeEnd, EStateM.run_bind, EStateM.run_get] at h
  dsimp only at h
  split_ifs at h with hsplit hzero
  · obtain ⟨_, u, -, hpure⟩ := Run.bind_eq_ok.1 h
    cases hpure
    rfl
  · exact absurd hzero.1 he
  · cases h
    rfl

lemma splitRangeStart_value {i b k first last : ℕ} {p' : Paragraph} (hk : k < i)
    (h : (splitRangeStart i b k).run p = .ok (first, last) p') : i ≤ first ∧ last = k := by
  rw [splitRangeStart, EStateM.run_bind, EStateM.run_get] at h
  dsimp only at h
  split_ifs at h with hsplit hle hend
  · omega
  · obtain ⟨idx, u, hidx, hpure⟩ := Run.bind_eq_ok.1 h
    cases hpure
    exact ⟨splitRunAt_value hidx, rfl⟩
  · cases h
    exact ⟨Nat.le_succ i, rfl⟩
  · cases h
    exact ⟨le_rfl, rfl⟩

lemma relates_chars_patchRuns {first last : ℕ} (h : last < first) :
    Relates KeepsChars (patchRuns patch first last) := by
  refine .modify fun p => ?_
  have hnone : (p.runs.mapIdx fun idx run =>
      if first ≤ idx ∧ idx ≤ last then patch.applyToRun run else run) = p.runs := by
    refine List.ext_getElem (by simp) fun i h₁ h₂ => ?_
    have hi : ¬ (first ≤ i ∧ i ≤ last) := by omega
    simp [hi]
  rw [KeepsChars, Paragraph.runs_withRuns, hnone]

/-- A range whose end is in an earlier run than its start patches nothing. -/
lemma run_applyStyle_reversed {p' : Paragraph} {i b j e : ℕ} (hrun : j < i) (he : e ≠ 0)
    (h : (applyStyleToParagraphRange i b j e patch).run p = .ok () p') :
    charStyles p'.runs = charStyles p.runs := by
  have hend : Relates KeepsChars (splitRangeEnd i j e) := by
    refine .bind .trans (.read .refl) fun p => ?_
    refine .ite (fun _ => ?_) fun _ => .ite (fun _ => .pure .refl _) fun _ => .pure .refl _
    exact .bind .trans (relates_chars_splitRunAt j e) fun _ => .pure .refl _
  have hstart (k : ℕ) : Relates KeepsChars (splitRangeStart i b k) := by
    refine .bind .trans (.read .refl) fun p => ?_
    refine .ite (fun _ => ?_) fun _ => .ite (fun _ => .pure .refl _) fun _ => .pure .refl _
    exact .bind .trans (relates_chars_splitRunAt i b) fun _ => .pure .refl _
  rw [applyStyleToParagraphRange, EStateM.run_bind, EStateM.run_get] at h
  dsimp only at h
  split_ifs at h with hbounds
  · cases h
  · obtain ⟨k, p₁, h₁, h⟩ := Run.bind_eq_ok.1 h
    obtain ⟨⟨first, last⟩, p₂, h₂, h₃⟩ := Run.bind_eq_ok.1 h
    obtain rfl := splitRangeEnd_value he h₁
    obtain ⟨hfirst, rfl⟩ := splitRangeStart_value hrun h₂
    have hpatch := relates_chars_patchRuns (Nat.lt_of_lt_of_le hrun hfirst) h₃
    exact KeepsChars.trans _ _ _ ((hend h₁).trans _ _ _ (hstart _ h₂)) hpatch

/-- A paragraph with at least one run. -/
def Paragraph.ensured (p : Paragraph) : Paragraph := if p.runs.isEmpty then p.withRuns [{}] else p

lemma run_ensureRun (p : Paragraph) : ensureRun.run p = .ok () p.ensured := rfl

lemma ensured_runs_ne_nil (p : Paragraph) : p.ensured.runs ≠ [] := by
  rw [Paragraph.ensured]
  split_ifs with h
  · simp
  · simpa using h

lemma charStyles_ensured (p : Paragraph) : charStyles p.ensured.runs = charStyles p.runs := by
  rw [Paragraph.ensured]
  split_ifs with h
  · rw [List.isEmpty_iff.1 h]
    rfl
  · rfl

/-- A position stays when an empty run is put in the paragraph. -/
lemma Paragraph.Cut.ensured {run byte : ℕ} {front back : List Run} (h : p.Cut run byte front back) :
    ∃ front' back', p.ensured.Cut run byte front' back' ∧ charStyles front' = charStyles front ∧
      charStyles back' = charStyles back := by
  cases h with
  | empty hruns hrun hbyte =>
    have hensured : p.ensured.runs = [] ++ ({} : Run) :: [] := by simp [Paragraph.ensured, hruns]
    exact ⟨_, _, @Paragraph.Cut.inside _ _ _ [] [] _ [] [] hensured hrun.symm rfl hbyte.symm, rfl,
      rfl⟩
  | inside hruns hrun htext hbyte =>
    have hensured : p.ensured = p := by simp [Paragraph.ensured, hruns]
    rw [hensured]
    exact ⟨_, _, .inside hruns hrun htext hbyte, rfl, rfl⟩

/-- The end of a paragraph with runs. -/
lemma cut_last (hne : p.runs ≠ []) : ∃ front back,
    p.Cut (p.runs.length - 1) (p.runLen (p.runs.length - 1)) front back ∧
      charStyles front = charStyles p.runs ∧ charStyles back = [] := by
  obtain ⟨init, r, hruns⟩ := (List.eq_nil_or_concat p.runs).resolve_left hne
  have hlast : p.runs.length - 1 = init.length := by simp [hruns]
  rw [List.concat_eq_append] at hruns
  have hcut : p.Cut init.length (utf8Len r.text) (init ++ [r.part r.text]) [r.part []] :=
    .inside hruns rfl (by simp) rfl
  rw [hlast, runLen_append hruns]
  refine ⟨_, _, hcut, ?_, rfl⟩
  rw [hruns, charStyles_append, charStyles_append]
  rfl

/-- The beginning of a paragraph with runs. -/
lemma cut_zero (hne : p.runs ≠ []) : ∃ front back, p.Cut 0 0 front back ∧ charStyles front = [] ∧
    charStyles back = charStyles p.runs := by
  obtain ⟨r, rest, hruns⟩ := List.exists_cons_of_ne_nil hne
  have hcut : p.Cut 0 0 ([] ++ [r.part []]) (r.part r.text :: rest) := .inside hruns rfl rfl rfl
  refine ⟨_, _, hcut, rfl, ?_⟩
  rw [hruns]
  rfl

/-! ### Positions by characters -/

variable {run byte : ℕ} {front back front' back' : List Run}

lemma length_charStyles (runs : List Run) : (charStyles runs).length = (runsText runs).length := by
  induction runs with
  | nil => rfl
  | cons r runs ih =>
    have hcons : charStyles (r :: runs) = charStyles [r] ++ charStyles runs :=
      charStyles_append [r] runs
    rw [hcons, List.length_append, ih, runsText_cons, List.length_append]
    simp [charStyles]

/-- The characters in front of a position and behind it. -/
lemma Paragraph.Cut.charStyles_take (h : p.Cut run byte front back) :
    charStyles front = (charStyles p.runs).take (p.textBefore run byte).length ∧
      charStyles back = (charStyles p.runs).drop (p.textBefore run byte).length := by
  have hlen : (p.textBefore run byte).length = (charStyles front).length := by
    rw [h.textBefore_eq, length_charStyles]
  rw [hlen, ← h.charStyles_eq, List.take_left, List.drop_left]
  exact ⟨rfl, rfl⟩

/-- In one run, fewer characters take fewer bytes. -/
lemma Paragraph.Cut.byte_le {byte' : ℕ} (h : p.Cut run byte front back)
    (h' : p.Cut run byte' front' back')
    (hle : (charStyles front).length ≤ (charStyles front').length) : byte ≤ byte' := by
  cases h with
  | empty hruns hrun hbyte => exact hbyte ▸ Nat.zero_le _
  | @inside pre post a u w hruns hrun htext hbyte =>
    cases h' with
    | empty hruns' => simp [hruns'] at hruns
    | @inside pre' post' b u' v hruns' hrun' htext' hbyte' =>
      obtain ⟨rfl, hcons⟩ := List.append_inj (hruns.symm.trans hruns') (hrun.trans hrun'.symm)
      obtain ⟨rfl, rfl⟩ := List.cons.inj hcons
      have hlen : u.length ≤ u'.length := by
        simpa [charStyles_append, charStyles, Run.part] using hle
      have hprefix : u <+: u' := List.prefix_of_prefix_length_le ⟨w, htext.symm⟩
        ⟨v, htext'.symm⟩ hlen
      rw [← hbyte, ← hbyte']
      exact String.utf8Len_le_of_prefix hprefix

/-- A range whose end is not in front of its start; if it is collapsed, its run ends there. -/
lemma run_applyStyle_clean {start stop : Cursor}
    (hstart : p.Cut start.runIdx start.byteOffset front back')
    (hstop : p.Cut stop.runIdx stop.byteOffset front' back) (hne : p.runs ≠ [])
    (hle : (charStyles front).length ≤ (charStyles front').length)
    (hempty : start.runIdx = stop.runIdx → start.byteOffset = stop.byteOffset →
      stop.byteOffset = p.runLen stop.runIdx) :
    ∃ p' mid, (applyStyleToParagraphRange start.runIdx start.byteOffset stop.runIdx stop.byteOffset
        patch).run p = .ok () p' ∧ charStyles front' = charStyles front ++ mid ∧
      charStyles p'.runs = charStyles front ++ mid.map patch.onChar ++ charStyles back := by
  by_cases horder : start.runIdx < stop.runIdx ∨
      start.runIdx = stop.runIdx ∧ start.byteOffset < stop.byteOffset
  · exact run_applyStyle hstart hstop hne horder
  · have hend (hrun : start.runIdx = stop.runIdx) : stop.byteOffset = p.runLen stop.runIdx := by
      rw [hrun] at hstart
      have hbyte := hstart.byte_le hstop hle
      exact hempty hrun (by omega)
    obtain ⟨p', hrun, hfront, hchars⟩ :=
      @run_applyStyle_empty p patch _ _ _ _ _ _ hstart hstop hne horder hend hle
    exact ⟨p', [], hrun, by simpa using hfront, by simpa using hchars⟩

/-! ### Styling a paragraph -/

lemma charStyles_modify {runs : List Run} {i : ℕ} (h : ∀ r ∈ runs[i]?, r.text = []) :
    charStyles (runs.modify i patch.applyToRun) = charStyles runs := by
  induction runs generalizing i with
  | nil => simp
  | cons r runs ih =>
    cases i with
    | zero =>
      have hr : r.text = [] := h r rfl
      simp [charStyles, RunStylePatch.applyToRun, hr]
    | succ i =>
      have hcons (runs : List Run) : charStyles (r :: runs) = charStyles [r] ++ charStyles runs :=
        charStyles_append [r] runs
      rw [List.modify_succ_cons, hcons, ih h, ← hcons]

lemma ensured_getElem? {i : ℕ} (h : ∀ r ∈ p.runs[i]?, r.text = []) :
    ∀ r ∈ p.ensured.runs[i]?, r.text = [] := by
  rw [Paragraph.ensured]
  split_ifs with hruns
  · intro r hr
    cases i with
    | zero =>
      obtain rfl : ({} : Run) = r := by simpa using hr
      rfl
    | succ i => simp at hr
  · exact h

lemma Paragraph.Cut.run_lt (h : p.Cut run byte front back) (hne : p.runs ≠ []) :
    run < p.runs.length := by
  cases h with
  | empty hruns => exact absurd hruns hne
  | inside hruns hrun => simp [← hrun, hruns]

/-- Styling in one paragraph. -/
lemma run_onePara {start stop : Cursor} (hstart : p.Cut start.runIdx start.byteOffset front back')
    (hstop : p.Cut stop.runIdx stop.byteOffset front' back)
    (hle : (charStyles front).length ≤ (charStyles front').length)
    (hcollapsed : start.runIdx = stop.runIdx → start.byteOffset = stop.byteOffset →
      ∀ r ∈ p.runs[start.runIdx]?, r.text = []) :
    ∃ p' mid, (applySetRunStyleOnePara start stop patch).run p = .ok () p' ∧
      charStyles front' = charStyles front ++ mid ∧
      charStyles p'.runs = charStyles front ++ mid.map patch.onChar ++ charStyles back := by
  obtain ⟨front₁, back₁', hstart₁, hfront₁, -⟩ := hstart.ensured
  obtain ⟨front₁', back₁, hstop₁, hfront₁', hback₁⟩ := hstop.ensured
  have hne := ensured_runs_ne_nil p
  by_cases hsame : start.runIdx = stop.runIdx ∧ start.byteOffset = stop.byteOffset
  · have hmin : min start.runIdx (p.ensured.runs.length - 1) = start.runIdx :=
      Nat.min_eq_left (Nat.le_sub_one_of_lt (hstart₁.run_lt hne))
    have hnone := ensured_getElem? (hcollapsed hsame.1 hsame.2)
    have hfronts : charStyles front' = charStyles front := by
      rw [hstart.charStyles_take.1, hstop.charStyles_take.1, hsame.1, hsame.2]
    refine ⟨p.ensured.withRuns (p.ensured.runs.modify start.runIdx patch.applyToRun), [], ?_,
      by simpa using hfronts, ?_⟩
    · rw [applySetRunStyleOnePara, EStateM.run_bind, run_ensureRun]
      simp only [hsame.1.symm, hsame.2.symm, and_self, if_true]
      rw [patchCollapsed, EStateM.run_modify, hmin]
    · rw [List.map_nil, List.append_nil, ← hfronts, hstop.charStyles_eq, Paragraph.runs_withRuns,
        charStyles_modify hnone, charStyles_ensured]
  · obtain ⟨p', mid, hrun, hfront, hchars⟩ := @run_applyStyle_clean p.ensured patch _ _ _ _ _ _
      hstart₁ hstop₁ hne (by rw [hfront₁, hfront₁']; exact hle) (fun h h' => absurd ⟨h, h'⟩ hsame)
    refine ⟨p', mid, ?_, by rw [← hfront₁, ← hfront₁', hfront], by rw [hchars, hfront₁, hback₁]⟩
    rw [applySetRunStyleOnePara, EStateM.run_bind, run_ensureRun]
    simp only [hsame, if_false]
    exact hrun

end Orchid.Document
