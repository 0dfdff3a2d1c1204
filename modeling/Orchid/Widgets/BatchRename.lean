import Orchid.Base.Text
import Orchid.Lib.Template

/-!
# Batch renaming

The new name of a file is made from a pattern. The placeholders of the pattern are replaced one
kind after the other in the growing name, so that text of the file's name can become a placeholder.
-/

namespace Orchid.Widgets

open Lib

/-- `str::rfind`, of a character. -/
def rfind (t : Text) (c : Char) : Option ℕ :=
  (t.reverse.findIdx? fun d => d = c).map fun i => t.length - 1 - i

def splitStemExt (name : Text) : Text × Text :=
  match rfind name '.' with
  | some 0 | none => (name, [])
  | some i => (name.take i, name.drop i)

/-- What the pattern is applied to. -/
def replacedName (original find replace : Text) : Text :=
  if find = [] then original else replaceAll find replace original

/-- A blank pattern leaves the name as it is. -/
def effectivePattern (pattern : Text) : Text :=
  if trim pattern = [] then "{name}{ext}".toList else pattern

def applyRenamePattern (original : Text) (index : ℕ) (pattern find replace : Text) : Text :=
  let (stem, ext) := splitStemExt (replacedName original find replace)
  let n := index + 1
  let named := replaceAll "{name}".toList stem (effectivePattern pattern)
  let extended := replaceAll "{ext}".toList ext named
  let numbered := replaceAll "{nnn}".toList (pad 3 n) extended
  let numbered := replaceAll "{nn}".toList (pad 2 n) numbered
  replaceAll "{n}".toList (pad 1 n) numbered

/-! ### Simultaneous substitution -/

inductive Placeholder
  | name
  | ext
  | nnn
  | nn
  | n
  deriving DecidableEq

namespace Placeholder

def text : Placeholder → Text
  | .name => "{name}".toList
  | .ext => "{ext}".toList
  | .nnn => "{nnn}".toList
  | .nn => "{nn}".toList
  | .n => "{n}".toList

/-- The placeholders behind `{name}`, in the order of the program. -/
def later : List Placeholder := [.ext, .nnn, .nn, .n]

/-- What a placeholder stands for. -/
def value (replaced : Text) (index : ℕ) : Placeholder → Text
  | .name => (splitStemExt replaced).1
  | .ext => (splitStemExt replaced).2
  | .nnn => pad 3 (index + 1)
  | .nn => pad 2 (index + 1)
  | .n => pad 1 (index + 1)

/-- The pattern with its placeholders as holes. -/
def template (pattern : Text) : List (Piece Char Placeholder) :=
  parse text (.name :: later) (effectivePattern pattern)

end Placeholder

/-- The pattern with all its placeholders replaced at once. -/
def substituted (original : Text) (index : ℕ) (pattern find replace : Text) : Text :=
  fillAll (Placeholder.value (replacedName original find replace) index)
    (Placeholder.template pattern)

/-- None of the placeholders `{ext}`, `{nnn}`, `{nn}` and `{n}` is spelled, at its turn, by the
characters of the pattern and of what has been filled in. -/
def NoneSpelled (replaced : Text) (index : ℕ) (pattern : Text) : Prop :=
  Unspelled Placeholder.text (Placeholder.value replaced index) Placeholder.later
    (fillHoles .name (splitStemExt replaced).1 (Placeholder.template pattern))

/-! ### Stem and extension -/

/-- The parts make up the name, and an extension has a dot. -/
lemma splitStemExt_spec (name : Text) :
    (splitStemExt name).1 ++ (splitStemExt name).2 = name ∧
      ((splitStemExt name).2 = [] ∨ '.' ∈ (splitStemExt name).2) := by
  unfold splitStemExt
  cases hfind : rfind name '.' with
  | none => exact ⟨List.append_nil name, .inl rfl⟩
  | some i =>
    cases i with
    | zero => exact ⟨List.append_nil name, .inl rfl⟩
    | succ i =>
      refine ⟨List.take_append_drop _ _, .inr ?_⟩
      obtain ⟨j, hj, hlen⟩ := Option.map_eq_some_iff.mp hfind
      obtain ⟨hlt, hdot, -⟩ := List.findIdx?_eq_some_iff_getElem.mp hj
      rw [List.length_reverse] at hlt
      rw [List.getElem_reverse, decide_eq_true_eq] at hdot
      have hlast : name[i + 1]? = some '.' := by
        rw [← hlen, List.getElem?_eq_getElem (by omega), hdot]
      refine List.mem_of_getElem? (i := 0) ?_
      change (name.drop (i + 1))[0]? = some '.'
      rw [List.getElem?_drop]
      exact hlast

/-! ### Placeholders -/

namespace Placeholder

/-- The character that a placeholder ends with. -/
def closing : Char := '}'

lemma bracketed_text : Bracketed text '{' where
  starts k := by
    cases k
    exacts [⟨"name\x7d".toList, by decide⟩, ⟨"ext\x7d".toList, by decide⟩,
      ⟨"nnn\x7d".toList, by decide⟩, ⟨"nn\x7d".toList, by decide⟩, ⟨"n\x7d".toList, by decide⟩]
  inj j k u h := by
    -- The first closing brace is the end of the one as of the other.
    have hstop (j : Placeholder) (v : Text) :
        (text j ++ v).takeWhile (· != closing) = (text j).takeWhile (· != closing) := by
      cases j <;> rfl
    obtain ⟨v, hv⟩ := h
    have hsame : (text j).takeWhile (· != closing) = (text k).takeWhile (· != closing) := by
      rw [← hstop j v, hv, hstop k u]
    revert hsame
    cases j <;> cases k <;> decide

/-- The number of times a character occurs. -/
def occurs (c : Char) (d : Char) : ℕ := if d = c then 1 else 0

lemma weight_occurs_of_notMem {c : Char} {t : Text} (h : c ∉ t) : weight (occurs c) t = 0 := by
  induction t with
  | nil => rfl
  | cons d t ih =>
    obtain ⟨hd, ht⟩ := not_or.mp (mt List.mem_cons.mpr h)
    rw [weight_cons, ih ht, occurs, if_neg (Ne.symm hd)]

lemma weight_occurs_pos {c : Char} {t : Text} (h : c ∈ t) : 0 < weight (occurs c) t := by
  obtain ⟨front, back, rfl⟩ := List.append_of_mem h
  rw [weight_append, weight_cons, occurs, if_pos rfl]
  omega

lemma weight_pad {c : Char} (hc : c.isDigit = false) (width n : ℕ) :
    weight (occurs c) (pad width n) = 0 := by
  refine weight_occurs_of_notMem fun hmem => ?_
  rw [isDigit_pad c hmem] at hc
  exact Bool.noConfusion hc

lemma fillIn_eq (replaced : Text) (index : ℕ) :
    fillIn text (value replaced index) (.name :: later) = value replaced index := by
  funext k
  refine if_pos ?_
  cases k <;> decide

end Placeholder

open Placeholder

section Renaming

variable {original pattern find replace : Text} {index : ℕ}

/-- The program fills the placeholders behind `{name}` one kind after the other. -/
lemma applyRenamePattern_eq : applyRenamePattern original index pattern find replace =
    replaceEach text (value (replacedName original find replace) index) later
      (fillAll text (fillHoles .name (splitStemExt (replacedName original find replace)).1
        (template pattern))) := by
  have hnone : ¬ Spelled text .name (template pattern) :=
    not_spelled_parse bracketed_text List.mem_cons_self _
  have hname := @replaceAll_fillAll _ _ _ _ text
    (value (replacedName original find replace) index) '{' bracketed_text .name (template pattern)
  rw [replaceAll_eq_self hnone, template, fillAll_parse bracketed_text] at hname
  rw [template, ← value, ← hname]
  rfl

lemma substituted_eq : substituted original index pattern find replace =
    fillAll (fillIn text (value (replacedName original find replace) index) later)
      (fillHoles .name (splitStemExt (replacedName original find replace)).1
        (template pattern)) := by
  have h := @fillAll_fillIn_cons _ _ _ text (value (replacedName original find replace) index)
    later .name (template pattern)
  rw [fillIn_eq] at h
  exact h.symm

/-- The two substitutions agree exactly if no placeholder is spelled. -/
lemma applyRenamePattern_eq_iff : applyRenamePattern original index pattern find replace =
    substituted original index pattern find replace ↔
      NoneSpelled (replacedName original find replace) index pattern := by
  rw [applyRenamePattern_eq, substituted_eq, NoneSpelled]
  constructor
  · intro heq
    obtain ⟨ns, hlen, hzero, hweight⟩ := @exists_spellings _ _ _ _ text
      (value (replacedName original find replace) index) '{' bracketed_text later
      (fillHoles .name (splitStemExt (replacedName original find replace)).1 (template pattern))
    rw [← hzero]
    obtain ⟨n₁, n₂, n₃, n₄, rfl⟩ : ∃ n₁ n₂ n₃ n₄, ns = [n₁, n₂, n₃, n₄] := by
      obtain _ | ⟨n₁, _ | ⟨n₂, _ | ⟨n₃, _ | ⟨n₄, _ | _⟩⟩⟩⟩ := ns <;> simp [later] at hlen
      exact ⟨n₁, n₂, n₃, n₄, rfl⟩
    have hdots := hweight (occurs '.')
    have hbraces := hweight (occurs '{')
    rw [heq] at hdots hbraces
    -- A digit is neither a dot nor a brace, and every placeholder has one brace and no dot.
    have htext (k : Placeholder) :
        weight (occurs '.') (text k) = 0 ∧ weight (occurs '{') (text k) = 1 := by
      cases k <;> decide
    simp only [later, List.zipWith_cons_cons, List.zipWith_nil_left, List.sum_cons, List.sum_nil,
      (htext _).1, (htext _).2, value, weight_pad (show '.'.isDigit = false by decide),
      weight_pad (show '{'.isDigit = false by decide)] at hdots hbraces
    have hfirst : n₁ = 0 ∨ weight (occurs '{')
        (splitStemExt (replacedName original find replace)).2 = 0 := by
      rcases (splitStemExt_spec (replacedName original find replace)).2 with hext | hext
      · right
        rw [hext]
        rfl
      · left
        have hpos := weight_occurs_pos hext
        have hprod : n₁ * weight (occurs '.')
            (splitStemExt (replacedName original find replace)).2 = 0 := by omega
        exact (Nat.mul_eq_zero.mp hprod).resolve_right (by omega)
    have hprod : n₁ * weight (occurs '{')
        (splitStemExt (replacedName original find replace)).2 = 0 :=
      Nat.mul_eq_zero.mpr hfirst
    have hall : n₁ = 0 ∧ n₂ = 0 ∧ n₃ = 0 ∧ n₄ = 0 := by omega
    simpa using hall
  · exact fun h => replaceEach_of_unspelled bracketed_text h

/-- Without a search text, the pattern of name and extension keeps a name exactly if the stem does
not contain `{ext}` and the name contains no placeholder of a number. -/
lemma applyRenamePattern_id_iff :
    applyRenamePattern original index "{name}{ext}".toList [] replace = original ↔
      ¬ text .ext <:+: (splitStemExt original).1 ∧
        ∀ k ∈ [Placeholder.nnn, .nn, .n], ¬ text k <:+: original := by
  have hparts := (splitStemExt_spec original).1
  have htemplate : template "{name}{ext}".toList = [.hole .name, .hole .ext] := by decide
  have hreplaced : replacedName original [] replace = original := if_pos rfl
  have hsame : substituted original index "{name}{ext}".toList [] replace = original := by
    rw [substituted, htemplate, hreplaced, fillAll_hole, fillAll_hole, fillAll_nil,
      List.append_nil]
    exact hparts
  have hname : fillHoles .name (splitStemExt original).1 [.hole .name, .hole .ext] =
      (splitStemExt original).1.map Piece.lit ++ [Piece.hole Placeholder.ext] := by
    simp [fillHoles, Piece.fillOne]
  have hext : fillHoles .ext (splitStemExt original).2
      ((splitStemExt original).1.map Piece.lit ++ [Piece.hole Placeholder.ext]) =
        original.map Piece.lit := by
    rw [fillHoles, List.flatMap_append, ← fillHoles, fillHoles_map_lit]
    simp only [List.flatMap_singleton, Piece.fillOne, if_true]
    rw [← List.map_append, hparts]
  have hstem : Spelled text .ext
      ((splitStemExt original).1.map Piece.lit ++ [Piece.hole Placeholder.ext]) ↔
        text .ext <:+: (splitStemExt original).1 := by
    constructor
    · intro h
      simpa using h.occurs fun _ => []
    · exact fun h => List.infix_append_of_infix_left (spelled_map_lit.mpr h)
  have hiff := @applyRenamePattern_eq_iff original "{name}{ext}".toList [] replace index
  rw [hsame, hreplaced, NoneSpelled, htemplate, hname] at hiff
  rw [hiff, later, Unspelled, hstem, value, hext]
  simp only [Unspelled, fillHoles_map_lit, spelled_map_lit, List.forall_mem_cons,
    List.not_mem_nil, false_imp_iff, implies_true, and_true]

/-- The new name is that of the simultaneous substitution exactly if no placeholder is spelled by
what is filled in; in particular for the pattern that keeps the name. -/
theorem renames_iff (original : Text) (index : ℕ) (pattern find replace : Text) :
    (applyRenamePattern original index pattern find replace =
        substituted original index pattern find replace ↔
      NoneSpelled (replacedName original find replace) index pattern) ∧
    (applyRenamePattern original index "{name}{ext}".toList [] replace = original ↔
      ¬ text .ext <:+: (splitStemExt original).1 ∧
        ∀ k ∈ [Placeholder.nnn, .nn, .n], ¬ text k <:+: original) :=
  ⟨applyRenamePattern_eq_iff, applyRenamePattern_id_iff⟩

/-- The name `{n}` becomes `1`. -/
theorem not_renames : ¬ (∀ (original : Text) (index : ℕ) (pattern find replace : Text),
    applyRenamePattern original index pattern find replace =
      substituted original index pattern find replace) ∧
    applyRenamePattern "{n}".toList 0 "{name}{ext}".toList [] [] ≠ "{n}".toList := by
  have hne : applyRenamePattern "{n}".toList 0 "{name}{ext}".toList [] [] ≠ "{n}".toList := by
    decide
  refine ⟨fun h => ?_, hne⟩
  have := h "{n}".toList 0 "{name}{ext}".toList [] []
  revert this
  decide

example : applyRenamePattern "photo.jpg".toList 8 "{name}_{nnn}{ext}".toList [] [] =
    "photo_009.jpg".toList := by decide

end Renaming

end Orchid.Widgets
