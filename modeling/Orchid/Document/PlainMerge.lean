import Orchid.Document.ParagraphCut
import Orchid.Lib.TextSearch

/-!
# Merging a plain text into a paragraph

A paragraph gets a new plain text. The fields whose text still appears in it, searched one after the
other, stay with all their properties; the text between them becomes plain runs.
-/

namespace Orchid.Document

open Lib

/-! ### The merge -/

/-- The run that gives the plain runs of the new text their style. -/
def textShell (old : Paragraph) : Run :=
  match old.runs.find? fun r => r.field.isNone with
  | some r => r
  | none =>
    { style := (old.runs.head?.map Run.style).getD {}
      styleId := old.runs.head?.bind Run.styleId }

/-- A plain run with the text, unless it is empty. -/
def plainChunk (shell : Run) (t : Text) : List Run := if t = [] then [] else [shell.part t]

def mergePlainIntoParagraph (old : Paragraph) (newPlain : Text) : Paragraph :=
  if newPlain = old.plainText then old
  else
    let shell := textShell old
    let fields := fieldRuns old.runs
    if fields.isEmpty then { old with runs := [shell.part newPlain] }
    else
      -- each match is a field with the text between the match in front of it and its own
      let (found, rest) := searchAll Run.text newPlain fields
      let runs := found.flatMap (fun m => plainChunk shell m.1 ++ [m.2]) ++ plainChunk shell rest
      { old with runs := if runs.isEmpty then [shell.part newPlain] else runs }

/-! ### What it should do -/

/-- The runs at the end whose text the new text ends with, behind the other runs. -/
def splitCommonSuffix (new : Text) : List Run → List Run × List Run
  | [] => ([], [])
  | r :: runs =>
    if runsText (r :: runs) <:+ new then ([], r :: runs)
    else
      let (front, back) := splitCommonSuffix new runs
      (r :: front, back)

/-- The runs at the beginning whose text the new text begins with. -/
def commonPrefixRuns : Text → List Run → List Run
  | _, [] => []
  | new, r :: runs =>
    if r.text <+: new then r :: commonPrefixRuns (new.drop r.text.length) runs else []

/-- The fields whose text lies in the common prefix of the old and the new text or in the common
suffix. -/
def commonFields (old : Paragraph) (new : Text) : List Run :=
  let (front, back) := splitCommonSuffix new old.runs
  fieldRuns (commonPrefixRuns new front) ++ fieldRuns back

/-- The paragraph has the new text, its fields are fields of the old one, in order and with their
properties, and those of the common prefix and suffix are among them. -/
structure Merges (old : Paragraph) (new : Text) (p' : Paragraph) : Prop where
  text : p'.plainText = new
  fields : (fieldRuns p'.runs).Sublist (fieldRuns old.runs)
  kept : (commonFields old new).Sublist (fieldRuns p'.runs)

/-- The text is not changed; or every field of the common prefix or suffix has a text, and those of
the suffix occur one after the other behind the leftmost occurrences of the fields in front of
them. -/
def FieldsClear (old : Paragraph) (new : Text) : Prop :=
  new = old.plainText ∨
    (∀ r ∈ commonFields old new, r.text ≠ []) ∧
      ∃ rest, Passed ((fieldRuns (splitCommonSuffix new old.runs).1).map Run.text) new rest ∧
        InOrder ((fieldRuns (splitCommonSuffix new old.runs).2).map Run.text) rest

/-! ### Texts and fields of the merged paragraph -/

variable {old : Paragraph} {new : Text}

lemma runsText_plainChunk (shell : Run) (t : Text) : runsText (plainChunk shell t) = t := by
  rw [plainChunk]
  split_ifs with ht
  · simp [ht]
  · simp [Run.part]

lemma fieldRuns_plainChunk (shell : Run) (t : Text) : fieldRuns (plainChunk shell t) = [] := by
  rw [plainChunk]
  split_ifs <;> rfl

lemma runsText_found (shell : Run) (found : List (Text × Run)) :
    runsText (found.flatMap fun m => plainChunk shell m.1 ++ [m.2]) =
      found.flatMap fun m => m.1 ++ m.2.text := by
  induction found with
  | nil => rfl
  | cons m found ih =>
    rw [List.flatMap_cons, List.flatMap_cons, runsText_append, runsText_append, ih,
      runsText_plainChunk]
    simp

lemma fieldRuns_found (shell : Run) {found : List (Text × Run)}
    (h : ∀ m ∈ found, m.2.field.isSome) :
    fieldRuns (found.flatMap fun m => plainChunk shell m.1 ++ [m.2]) = found.map Prod.snd := by
  induction found with
  | nil => rfl
  | cons m found ih =>
    obtain ⟨hm, hfound⟩ := List.forall_mem_cons.1 h
    have hone : fieldRuns [m.2] = [m.2] := by simp [fieldRuns, hm]
    rw [List.flatMap_cons, fieldRuns_append, fieldRuns_append, ih hfound, fieldRuns_plainChunk,
      hone]
    rfl

/-- The fields that are found in the new text. -/
def foundFields (old : Paragraph) (new : Text) : List Run :=
  (searchAll Run.text new (fieldRuns old.runs)).1.map Prod.snd

lemma foundFields_sublist : (foundFields old new).Sublist (fieldRuns old.runs) :=
  searchAll_sublist _ _

/-- The merged paragraph has the new text and the fields found in it. -/
lemma merged_spec (h : new ≠ old.plainText) :
    (mergePlainIntoParagraph old new).plainText = new ∧
      fieldRuns (mergePlainIntoParagraph old new).runs = foundFields old new := by
  have hshell : runsText [(textShell old).part new] = new := by simp [Run.part]
  rw [mergePlainIntoParagraph, if_neg h]
  by_cases hfields : fieldRuns old.runs = []
  · simp only [hfields, List.isEmpty_nil, if_true, foundFields]
    exact ⟨hshell, rfl⟩
  · have hmem : ∀ m ∈ (searchAll Run.text new (fieldRuns old.runs)).1, m.2.field.isSome := by
      intro m hm
      have hin := foundFields_sublist.mem (List.mem_map_of_mem hm)
      exact (List.mem_filter.1 hin).2
    have htext := @searchAll_text _ _ _ Run.text (fieldRuns old.runs) new
    simp only [List.isEmpty_iff, hfields, if_false]
    split_ifs with hruns
    · obtain ⟨hfound, hrest⟩ := List.append_eq_nil_iff.1 hruns
      have hnone := fieldRuns_found (textShell old) hmem
      rw [hfound] at hnone
      exact ⟨hshell, hnone⟩
    · rw [fieldRuns_append, fieldRuns_found _ hmem, fieldRuns_plainChunk, List.append_nil,
        plainText_eq, runsText_append, runsText_found, runsText_plainChunk]
      exact ⟨htext, rfl⟩

/-! ### The fields in common -/

lemma splitCommonSuffix_eq (new : Text) (runs : List Run) :
    (splitCommonSuffix new runs).1 ++ (splitCommonSuffix new runs).2 = runs := by
  induction runs with
  | nil => rfl
  | cons r runs ih =>
    rw [splitCommonSuffix]
    split_ifs with h
    · rfl
    · exact congrArg (r :: ·) ih

lemma commonPrefixRuns_spec (new : Text) (runs : List Run) :
    commonPrefixRuns new runs <+: runs ∧ runsText (commonPrefixRuns new runs) <+: new := by
  induction runs generalizing new with
  | nil => exact ⟨List.prefix_rfl, List.nil_prefix⟩
  | cons r runs ih =>
    rw [commonPrefixRuns]
    split_ifs with h
    · obtain ⟨back, rfl⟩ := h
      obtain ⟨hpre, htext⟩ := ih back
      rw [List.drop_left]
      exact ⟨List.cons_prefix_cons.2 ⟨rfl, hpre⟩, (List.prefix_append_right_inj _).2 htext⟩
    · exact ⟨List.nil_prefix, List.nil_prefix⟩

/-- The fields of the common prefix and, if they stand behind what the fields in front of them take,
those of the common suffix are found. -/
lemma foundFields_split (old : Paragraph) (new : Text) :
    foundFields old new =
      (searchAll Run.text new (fieldRuns (splitCommonSuffix new old.runs).1)).1.map Prod.snd ++
        (searchAll Run.text
          (searchAll Run.text new (fieldRuns (splitCommonSuffix new old.runs).1)).2
          (fieldRuns (splitCommonSuffix new old.runs).2)).1.map Prod.snd := by
  have hruns := splitCommonSuffix_eq new old.runs
  rw [foundFields, ← List.map_append, ← (searchAll_append _ _ _).1, ← fieldRuns_append, hruns]

lemma commonPrefix_found {runs : List Run}
    (h : ∀ r ∈ fieldRuns (commonPrefixRuns new runs), r.text ≠ []) :
    (fieldRuns (commonPrefixRuns new runs)).Sublist
      ((searchAll Run.text new (fieldRuns runs)).1.map Prod.snd) := by
  obtain ⟨⟨more, hruns⟩, ⟨behind, htext⟩⟩ := commonPrefixRuns_spec new runs
  have horder : InOrder ((fieldRuns (commonPrefixRuns new runs)).map Run.text) new := by
    have hflat := inOrder_flatMap Run.text (fun r => r.field.isSome) (commonPrefixRuns new runs)
      behind
    rw [← runsText, htext] at hflat
    exact hflat
  have hself := searchAll_eq_self_iff.2 ⟨h, horder⟩
  have hsplit : fieldRuns runs = fieldRuns (commonPrefixRuns new runs) ++ fieldRuns more := by
    rw [← fieldRuns_append, hruns]
  rw [hsplit, (searchAll_append _ _ _).1, List.map_append, hself]
  exact List.sublist_append_left _ _

lemma commonFields_sublist (old : Paragraph) (new : Text) :
    (commonFields old new).Sublist (fieldRuns old.runs) := by
  have hruns := splitCommonSuffix_eq new old.runs
  have hpre := (commonPrefixRuns_spec new (splitCommonSuffix new old.runs).1).1
  have hsplit : fieldRuns old.runs = fieldRuns (splitCommonSuffix new old.runs).1 ++
      fieldRuns (splitCommonSuffix new old.runs).2 := by
    rw [← fieldRuns_append, hruns]
  rw [hsplit]
  exact (hpre.sublist.filter _).append (List.Sublist.refl _)

/-! ### The merge keeps the fields in common -/

lemma merges_of_clear (h : FieldsClear old new) :
    Merges old new (mergePlainIntoParagraph old new) := by
  by_cases hnew : new = old.plainText
  · have hsame : mergePlainIntoParagraph old new = old := if_pos hnew
    rw [hsame]
    exact ⟨hnew.symm, List.Sublist.refl _, commonFields_sublist old new⟩
  · obtain ⟨htext, hfields⟩ := merged_spec hnew
    obtain ⟨hshown, rest, hpassed, horder⟩ := h.resolve_left hnew
    obtain ⟨hfront, hback⟩ := List.forall_mem_append.1 hshown
    obtain rfl := hpassed.unique (passed_searchAll _ _)
    have hself := searchAll_eq_self_iff.2 ⟨hback, horder⟩
    refine ⟨htext, hfields ▸ foundFields_sublist, ?_⟩
    rw [hfields, foundFields_split, hself]
    exact (commonPrefix_found hfront).append (List.Sublist.refl _)

lemma clear_of_merges (hnodup : (fieldRuns old.runs).Nodup)
    (h : Merges old new (mergePlainIntoParagraph old new)) : FieldsClear old new := by
  by_cases hnew : new = old.plainText
  · exact .inl hnew
  · have hkept := h.kept
    rw [(merged_spec hnew).2] at hkept
    have hshown : ∀ r ∈ commonFields old new, r.text ≠ [] := by
      intro r hr
      obtain ⟨m, hm, rfl⟩ := List.mem_map.1 (hkept.mem hr)
      exact ne_nil_of_mem_searchAll hm
    have hback := (List.forall_mem_append.1 hshown).2
    refine .inr ⟨hshown, _, passed_searchAll _ _, (searchAll_eq_self_iff.1 ?_).2⟩
    -- no field of the suffix is one of those in front of it, so all are found behind these
    have hruns : fieldRuns old.runs = fieldRuns (splitCommonSuffix new old.runs).1 ++
        fieldRuns (splitCommonSuffix new old.runs).2 := by
      rw [← fieldRuns_append, splitCommonSuffix_eq]
    rw [hruns, List.nodup_append] at hnodup
    obtain ⟨-, hnodupBack, hdisjoint⟩ := hnodup
    rw [foundFields_split] at hkept
    refine (searchAll_sublist _ _).eq_of_length_le (hnodupBack.length_le_of_subset fun r hr => ?_)
    rcases List.mem_append.1 (hkept.mem (List.mem_append_right _ hr)) with hin | hin
    · exact absurd rfl (hdisjoint r ((searchAll_sublist _ _).mem hin) r hr)
    · exact hin

/-- The merge does what it should if the fields are clear, and only then where no two fields are
equal. -/
theorem mergePlainIntoParagraph_merges (old : Paragraph) (new : Text) :
    (FieldsClear old new → Merges old new (mergePlainIntoParagraph old new)) ∧
      ((fieldRuns old.runs).Nodup →
        Merges old new (mergePlainIntoParagraph old new) → FieldsClear old new) :=
  ⟨merges_of_clear, clear_of_merges⟩

/-- The field in front takes the `2` of the field behind it, which is lost. -/
theorem not_merges_same_text :
    ¬ ∀ old new, Merges old new (mergePlainIntoParagraph old new) := by
  intro h
  let number : Run := { text := ['2'], field := some .page }
  let total : Run := { text := ['2'], field := some .numPages }
  have hmerges := h { runs := [number, { text := ['o', 'f'] }, total] } ['o', 'f', '2']
  have hkept : [total].Sublist [number] := hmerges.kept
  have heq : total = number := by simpa using hkept.subset List.mem_cons_self
  have hfield : DocField.numPages = .page := Option.some.inj (congrArg Run.field heq)
  cases hfield

end Orchid.Document
