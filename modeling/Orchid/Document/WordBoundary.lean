import Mathlib
import Orchid.Base.Text
import Orchid.Lib.ByteText

/-!
# Word boundaries

Steps from word to word and the word at a position; `document/edit_helpers.rs`. An offset counts
bytes. Which characters are letters or digits is given; no white space is among them.
-/

namespace Orchid.Document

open Lib
open String (utf8Len)

/-! ### Characters -/

/-- `str::is_char_boundary` -/
def isCharBoundary (t : Text) (i : ℕ) : Bool := (splitAtByte t i).isSome

/-- The loop of `prev_char_boundary`. -/
def boundaryBack (t : Text) : ℕ → ℕ
  | 0 => 0
  | i + 1 => if isCharBoundary t (i + 1) then i + 1 else boundaryBack t i

/-- `prev_char_boundary` -/
def prevCharBoundary (t : Text) (offset : ℕ) : ℕ :=
  if offset = 0 then 0 else boundaryBack t (min offset (utf8Len t) - 1)

/-- The loop of `next_char_boundary`, by at most so many steps. -/
def boundaryOn (t : Text) : ℕ → ℕ → ℕ
  | 0, i => i
  | steps + 1, i =>
    if i < utf8Len t ∧ isCharBoundary t i = false then boundaryOn t steps (i + 1) else i

/-- `next_char_boundary` -/
def nextCharBoundary (t : Text) (offset : ℕ) : ℕ :=
  if utf8Len t ≤ offset then utf8Len t else boundaryOn t (utf8Len t) (offset + 1)

/-- The first character of a slice; the outer `Option` is missing where slicing panics. -/
def firstChar (t : Text) (i j : ℕ) : Option (Option Char) := (sliceBytes t i j).map List.head?

/-! ### Steps -/

/-- A loop that goes back over characters that satisfy `p`, by at most so many steps. -/
def skipBack (p : Char → Bool) (t : Text) : ℕ → ℕ → Option ℕ
  | 0, off => some off
  | steps + 1, off =>
    if off = 0 then some off
    else
      match firstChar t (prevCharBoundary t off) off with
      | none => none
      | some none => some off
      | some (some c) => if p c then skipBack p t steps (prevCharBoundary t off) else some off

/-- A loop that goes on over characters that satisfy `p`, by at most so many steps. -/
def skipOn (p : Char → Bool) (t : Text) : ℕ → ℕ → Option ℕ
  | 0, off => some off
  | steps + 1, off =>
    if utf8Len t ≤ off then some off
    else
      match firstChar t off (utf8Len t) with
      | none => none
      | some none => some off
      | some (some c) => if p c then skipOn p t steps (nextCharBoundary t off) else some off

section Words

variable (alphanumeric : Char → Bool)

/-- `is_word_char` -/
def isWordChar (c : Char) : Bool := alphanumeric c || c == '_'

/-- What goes on with a character that is no white space. -/
def alike (c d : Char) : Bool :=
  !(isWhitespace d || isWordChar alphanumeric d != isWordChar alphanumeric c)

/-- `prev_word_boundary` -/
def prevWordBoundary (t : Text) (offset : ℕ) : Option ℕ :=
  match skipBack isWhitespace t (utf8Len t) (min offset (utf8Len t)) with
  | none => none
  | some off =>
    if off = 0 then some 0
    else
      match firstChar t (prevCharBoundary t off) off with
      | none => none
      | some none => some 0
      | some (some c) => skipBack (alike alphanumeric c) t (utf8Len t) off

/-- `next_word_boundary` -/
def nextWordBoundary (t : Text) (offset : ℕ) : Option ℕ :=
  let off := min offset (utf8Len t)
  if utf8Len t ≤ off then some (utf8Len t)
  else
    match firstChar t off (utf8Len t) with
    | none => none
    | some none => skipOn isWhitespace t (utf8Len t) off
    | some (some c) =>
      if isWhitespace c then skipOn isWhitespace t (utf8Len t) off
      else
        (skipOn (alike alphanumeric c) t (utf8Len t) off).bind fun off =>
          skipOn isWhitespace t (utf8Len t) off

/-- The characters of one class with `c`, as `word_range_at` asks for them. -/
def sameClass (c d : Char) : Bool :=
  if isWhitespace c then isWhitespace d
  else if isWordChar alphanumeric c then isWordChar alphanumeric d
  else !isWhitespace d && !isWordChar alphanumeric d

/-- The offset that `word_range_at` looks at. -/
def probeAt (t : Text) (offset : ℕ) : Option ℕ :=
  let probe := min offset (utf8Len t)
  if probe = utf8Len t then some (prevCharBoundary t probe)
  else
    match firstChar t probe (utf8Len t) with
    | none => none
    | some none => some probe
    | some (some c) =>
      if isWhitespace c ∧ 0 < probe then
        match firstChar t (prevCharBoundary t probe) probe with
        | none => none
        | some none => some probe
        | some (some d) => if isWhitespace d then some probe else some (prevCharBoundary t probe)
      else some probe

/-- `word_range_at` -/
def wordRangeAt (t : Text) (offset : ℕ) : Option (ℕ × ℕ) :=
  if t = [] then some (0, 0)
  else
    match probeAt t offset with
    | none => none
    | some probe =>
      match firstChar t probe (utf8Len t) with
      | none => none
      | some none => some (utf8Len t, utf8Len t)
      | some (some c) =>
        match skipBack (sameClass alphanumeric c) t (utf8Len t) probe,
          skipOn (sameClass alphanumeric c) t (utf8Len t) (nextCharBoundary t probe) with
        | some start, some finish => some (start, finish)
        | _, _ => none

end Words

/-! ### Between characters -/

lemma not_isCharBoundary {u w : Text} {c : Char} {i : ℕ} (hi : utf8Len u < i)
    (hi' : i < utf8Len (u ++ [c])) : isCharBoundary (u ++ c :: w) i = false := by
  rw [isCharBoundary, Option.isSome_eq_false_iff, Option.isNone_iff_eq_none]
  by_contra hne
  obtain ⟨⟨x, y⟩, hsplit⟩ := Option.ne_none_iff_exists'.mp hne
  obtain ⟨happ, rfl⟩ := splitAtByte_eq_some hsplit
  rcases List.append_eq_append_iff.mp happ with ⟨z, rfl, hy⟩ | ⟨z, rfl, -⟩
  · cases z with
    | nil => simp at hi
    | cons d z =>
      obtain ⟨rfl, -⟩ := List.cons.inj hy
      simp only [String.utf8Len_append, String.utf8Len_cons, String.utf8Len_nil] at hi'
      omega
  · rw [String.utf8Len_append] at hi
    omega

lemma isCharBoundary_append (u w : Text) : isCharBoundary (u ++ w) (utf8Len u) = true := by
  rw [isCharBoundary, splitAtByte_append]
  rfl

lemma boundaryBack_eq {u w : Text} {c : Char} {i : ℕ} (hi : utf8Len u ≤ i)
    (hi' : i < utf8Len (u ++ [c])) : boundaryBack (u ++ c :: w) i = utf8Len u := by
  induction i with
  | zero => rw [boundaryBack, Nat.le_zero.mp hi]
  | succ i ih =>
    rw [boundaryBack]
    rcases hi.eq_or_lt with heq | hlt
    · rw [← heq, isCharBoundary_append, if_pos rfl]
    · rw [not_isCharBoundary hlt hi', if_neg Bool.false_ne_true]
      exact ih (Nat.le_of_lt_succ hlt) (by omega)

lemma lt_utf8Len_append (u : Text) (c : Char) : utf8Len u < utf8Len (u ++ [c]) := by
  rw [String.utf8Len_append, String.utf8Len_cons]
  have := Char.utf8Size_pos c
  omega

lemma utf8Len_append_le (u w : Text) (c : Char) :
    utf8Len (u ++ [c]) ≤ utf8Len (u ++ c :: w) := by
  rw [List.append_cons u c w, String.utf8Len_append _ w]
  exact Nat.le_add_right ..

lemma prevCharBoundary_eq (u w : Text) (c : Char) :
    prevCharBoundary (u ++ c :: w) (utf8Len (u ++ [c])) = utf8Len u := by
  have hlt := lt_utf8Len_append u c
  have hle := utf8Len_append_le u w c
  rw [prevCharBoundary, if_neg (by omega), min_eq_left hle]
  exact boundaryBack_eq (by omega) (by omega)

lemma boundaryOn_eq {u w : Text} {c : Char} {i steps : ℕ} (hi : utf8Len u < i)
    (hi' : i ≤ utf8Len (u ++ [c])) (hsteps : utf8Len (u ++ [c]) ≤ i + steps) :
    boundaryOn (u ++ c :: w) steps i = utf8Len (u ++ [c]) := by
  induction steps generalizing i with
  | zero => rw [boundaryOn, le_antisymm hi' hsteps]
  | succ steps ih =>
    rw [boundaryOn]
    rcases hi'.eq_or_lt with heq | hlt
    · rw [heq, List.append_cons u c w, isCharBoundary_append, if_neg fun h => Bool.noConfusion h.2]
    · rw [if_pos ⟨hlt.trans_le (utf8Len_append_le u w c), not_isCharBoundary hi hlt⟩]
      exact ih (by omega) hlt (by omega)

lemma nextCharBoundary_eq (u w : Text) (c : Char) :
    nextCharBoundary (u ++ c :: w) (utf8Len u) = utf8Len (u ++ [c]) := by
  have hlt := lt_utf8Len_append u c
  have hle := utf8Len_append_le u w c
  rw [nextCharBoundary, if_neg (by omega)]
  exact boundaryOn_eq (by omega) (by omega) (by omega)

lemma firstChar_append (u s w : Text) :
    firstChar (u ++ s ++ w) (utf8Len u) (utf8Len (u ++ s)) = some s.head? := by
  rw [firstChar, sliceBytes_eq_some_iff.mpr ⟨u, w, rfl, rfl, (String.utf8Len_append ..).symm⟩]
  rfl

lemma firstChar_back (u w : Text) (c : Char) :
    firstChar (u ++ c :: w) (utf8Len u) (utf8Len (u ++ [c])) = some (some c) := by
  rw [List.append_cons u c w]
  exact firstChar_append u [c] w

lemma firstChar_on (u w : Text) :
    firstChar (u ++ w) (utf8Len u) (utf8Len (u ++ w)) = some w.head? := by
  have h := firstChar_append u w []
  rwa [List.append_nil] at h

/-! ### The loops -/

lemma skipBack_eq (p : Char → Bool) (u w : Text) {steps : ℕ} (hsteps : utf8Len u ≤ steps) :
    skipBack p (u ++ w) steps (utf8Len u) = some (utf8Len (u.rdropWhile p)) := by
  induction steps generalizing u w with
  | zero =>
    obtain rfl := String.utf8Len_eq_zero.mp (Nat.le_zero.mp hsteps)
    rfl
  | succ steps ih =>
    rcases List.eq_nil_or_concat' u with rfl | ⟨u, c, rfl⟩
    · rfl
    · have hlt := lt_utf8Len_append u c
      rw [skipBack, if_neg (by omega), List.append_assoc, List.singleton_append,
        prevCharBoundary_eq, firstChar_back]
      by_cases hp : p c
      · rw [List.rdropWhile_concat_pos p u c hp]
        simp only [hp, if_true]
        exact ih u (c :: w) (by omega)
      · rw [List.rdropWhile_concat_neg p u c hp]
        simp only [hp, if_false, Bool.false_eq_true]

lemma skipOn_eq (p : Char → Bool) (u w : Text) {steps : ℕ} (hsteps : utf8Len w ≤ steps) :
    skipOn p (u ++ w) steps (utf8Len u) = some (utf8Len (u ++ w.takeWhile p)) := by
  induction steps generalizing u w with
  | zero =>
    obtain rfl := String.utf8Len_eq_zero.mp (Nat.le_zero.mp hsteps)
    simp [skipOn]
  | succ steps ih =>
    cases w with
    | nil => simp [skipOn]
    | cons c w =>
      have hlt := lt_utf8Len_append u c
      have hlen : utf8Len (u ++ c :: w) = utf8Len (u ++ [c]) + utf8Len w := by
        rw [List.append_cons u c w, String.utf8Len_append _ w]
      rw [skipOn, if_neg (by omega), firstChar_on, nextCharBoundary_eq]
      by_cases hp : p c
      · rw [List.takeWhile_cons_of_pos hp]
        simp only [List.head?_cons, hp, if_true]
        rw [List.append_cons u c w, List.append_cons u c (w.takeWhile p)]
        exact ih (u ++ [c]) w (by
          rw [String.utf8Len_append] at hlt
          rw [String.utf8Len_cons] at hsteps
          have := Char.utf8Size_pos c
          omega)
      · rw [List.takeWhile_cons_of_neg hp]
        simp [hp]

/-! ### From word to word -/

variable (alphanumeric : Char → Bool)

/-- What stands before the word in front of a position. -/
def prevWord (u : Text) : Text :=
  match (u.rdropWhile isWhitespace).getLast? with
  | none => []
  | some c => (u.rdropWhile isWhitespace).rdropWhile (alike alphanumeric c)

/-- What stands before the next word behind a position. -/
def nextWord : Text → Text
  | [] => []
  | c :: w =>
    if isWhitespace c then (c :: w).takeWhile isWhitespace
    else
      (c :: w).takeWhile (alike alphanumeric c) ++
        ((c :: w).dropWhile (alike alphanumeric c)).takeWhile isWhitespace

lemma min_utf8Len (u w : Text) : min (utf8Len u) (utf8Len (u ++ w)) = utf8Len u := by
  rw [String.utf8Len_append]
  exact min_eq_left (Nat.le_add_right ..)

lemma utf8Len_le_append (u w : Text) : utf8Len u ≤ utf8Len (u ++ w) := by
  rw [String.utf8Len_append]
  exact Nat.le_add_right ..

lemma prevWordBoundary_eq (u w : Text) :
    prevWordBoundary alphanumeric (u ++ w) (utf8Len u) =
      some (utf8Len (prevWord alphanumeric u)) := by
  obtain ⟨s, hs⟩ := u.rdropWhile_prefix isWhitespace
  rw [prevWordBoundary, min_utf8Len, skipBack_eq _ u w (utf8Len_le_append u w), prevWord]
  generalize u.rdropWhile isWhitespace = v at hs
  subst hs
  rcases List.eq_nil_or_concat' v with rfl | ⟨v, c, rfl⟩
  · rfl
  · have hlt := lt_utf8Len_append v c
    have happ : v ++ [c] ++ s ++ w = v ++ c :: (s ++ w) := by simp
    have hpast : v ++ c :: (s ++ w) = (v ++ [c]) ++ (s ++ w) := List.append_cons ..
    simp only [List.getLast?_concat, happ, prevCharBoundary_eq, firstChar_back]
    rw [if_neg (by omega), hpast]
    exact skipBack_eq _ (v ++ [c]) (s ++ w) (utf8Len_le_append ..)

lemma nextWordBoundary_eq (u w : Text) :
    nextWordBoundary alphanumeric (u ++ w) (utf8Len u) =
      some (utf8Len (u ++ nextWord alphanumeric w)) := by
  have hw : utf8Len w ≤ utf8Len (u ++ w) := by
    rw [String.utf8Len_append]
    exact Nat.le_add_left ..
  rw [nextWordBoundary, min_utf8Len]
  cases w with
  | nil => simp [nextWord]
  | cons c w =>
    have hlt : utf8Len u < utf8Len (u ++ c :: w) :=
      (lt_utf8Len_append u c).trans_le (utf8Len_append_le u w c)
    simp only [firstChar_on, List.head?_cons, nextWord]
    rw [if_neg hlt.not_ge]
    split_ifs with hc
    · exact skipOn_eq _ u (c :: w) hw
    · rw [skipOn_eq _ u (c :: w) hw, Option.bind_some]
      generalize hrest : (c :: w).dropWhile (alike alphanumeric c) = rest
      have hsplit := List.takeWhile_append_dropWhile (p := alike alphanumeric c) (l := c :: w)
      rw [hrest] at hsplit
      generalize (c :: w).takeWhile (alike alphanumeric c) = run at hsplit
      rw [← hsplit, ← List.append_assoc, ← List.append_assoc]
      refine skipOn_eq _ (u ++ run) rest ?_
      rw [String.utf8Len_append]
      exact Nat.le_add_left ..

/-- The position of the first character of a word. -/
def IsWordStart (t : Text) (n : ℕ) : Prop :=
  ∃ u c w, t = u ++ c :: w ∧ utf8Len u = n ∧ isWordChar alphanumeric c = true ∧
    ∀ d ∈ u.getLast?, isWordChar alphanumeric d = false

variable {alphanumeric}

lemma not_isWhitespace_of_isWordChar (hwhite : ∀ c, alphanumeric c = true → isWhitespace c = false)
    {c : Char} (h : isWordChar alphanumeric c = true) : isWhitespace c = false := by
  rcases Bool.or_eq_true_iff.mp h with halpha | hline
  · exact hwhite c halpha
  · rw [beq_iff_eq] at hline
    subst hline
    decide

lemma isWordChar_of_alike {c d : Char} (h : alike alphanumeric c d = true) :
    isWordChar alphanumeric d = isWordChar alphanumeric c := by
  simp only [alike, Bool.not_eq_true', Bool.or_eq_false_iff, bne_eq_false_iff_eq] at h
  exact h.2

/-- No word starts within a run of one class and the white space behind it. -/
lemma not_start_inside (hwhite : ∀ c, alphanumeric c = true → isWhitespace c = false)
    {run blank z y : Text} {c c' : Char} (hrun : ∀ d ∈ run, alike alphanumeric c d = true)
    (hblank : ∀ d ∈ blank, isWhitespace d = true) (happ : run ++ blank = z ++ c' :: y)
    (hz : z ≠ []) (hc' : isWordChar alphanumeric c' = true)
    (hlast : ∀ d ∈ z.getLast?, isWordChar alphanumeric d = false) : False := by
  have hvisible : c' ∉ blank := fun hmem => by
    have := not_isWhitespace_of_isWordChar hwhite hc'
    rw [hblank c' hmem] at this
    cases this
  rcases List.append_eq_append_iff.mp happ with ⟨x, -, rfl⟩ | ⟨x, rfl, hx⟩
  · exact hvisible (by simp)
  · cases x with
    | nil =>
      rw [List.nil_append] at hx
      exact hvisible (hx ▸ List.mem_cons_self)
    | cons e x =>
      obtain ⟨rfl, -⟩ := List.cons.inj hx
      obtain ⟨z, d, rfl⟩ := (List.eq_nil_or_concat' z).resolve_left hz
      have hd := isWordChar_of_alike (hrun d (by simp))
      have hc := isWordChar_of_alike (hrun c' (by simp))
      rw [hlast d (by simp)] at hd
      rw [hc', ← hd] at hc
      cases hc

lemma exists_of_lt {u w x y : Text} (h : u ++ w = x ++ y) (hlt : utf8Len u < utf8Len x) :
    ∃ z, z ≠ [] ∧ x = u ++ z ∧ w = z ++ y := by
  rcases List.append_eq_append_iff.mp h with ⟨z, rfl, rfl⟩ | ⟨z, rfl, -⟩
  · refine ⟨z, ?_, rfl, rfl⟩
    rintro rfl
    simp at hlt
  · rw [String.utf8Len_append] at hlt
    omega

variable (alphanumeric) in
lemma nextWord_spec (w : Text) : ∃ run blank rest c, w = run ++ blank ++ rest ∧
    nextWord alphanumeric w = run ++ blank ∧ (∀ d ∈ run, alike alphanumeric c d = true) ∧
      ∀ d ∈ blank, isWhitespace d = true := by
  cases w with
  | nil => exact ⟨[], [], [], '_', rfl, rfl, nofun, nofun⟩
  | cons c w =>
    by_cases hc : isWhitespace c
    · refine ⟨[], (c :: w).takeWhile isWhitespace, (c :: w).dropWhile isWhitespace, c, ?_, ?_,
        nofun, fun d hd => List.mem_takeWhile_imp hd⟩
      · exact List.takeWhile_append_dropWhile.symm
      · rw [nextWord, if_pos hc, List.nil_append]
    · refine ⟨(c :: w).takeWhile (alike alphanumeric c),
        ((c :: w).dropWhile (alike alphanumeric c)).takeWhile isWhitespace,
        ((c :: w).dropWhile (alike alphanumeric c)).dropWhile isWhitespace, c, ?_, ?_,
        fun d hd => List.mem_takeWhile_imp hd, fun d hd => List.mem_takeWhile_imp hd⟩
      · rw [List.append_assoc, List.takeWhile_append_dropWhile, List.takeWhile_append_dropWhile]
      · rw [nextWord, if_neg hc]

variable (alphanumeric) in
lemma prevWord_spec (u : Text) : ∃ run blank c, u = prevWord alphanumeric u ++ (run ++ blank) ∧
    (∀ d ∈ run, alike alphanumeric c d = true) ∧ ∀ d ∈ blank, isWhitespace d = true := by
  have hblank := List.rdropWhile_append_rtakeWhile (p := isWhitespace) (l := u)
  unfold prevWord
  rcases List.eq_nil_or_concat' (u.rdropWhile isWhitespace) with hv | ⟨v, c, hv⟩
  · refine ⟨[], u.rtakeWhile isWhitespace, '_', ?_, nofun, fun d hd => List.mem_rtakeWhile_imp hd⟩
    rw [hv] at hblank ⊢
    exact hblank.symm
  · have hrun := List.rdropWhile_append_rtakeWhile (p := alike alphanumeric c)
      (l := u.rdropWhile isWhitespace)
    refine ⟨(u.rdropWhile isWhitespace).rtakeWhile (alike alphanumeric c),
      u.rtakeWhile isWhitespace, c, ?_, fun d hd => List.mem_rtakeWhile_imp hd,
      fun d hd => List.mem_rtakeWhile_imp hd⟩
    have hlast : (u.rdropWhile isWhitespace).getLast? = some c := by rw [hv, List.getLast?_concat]
    simp only [hlast]
    rw [← List.append_assoc, hrun, hblank]

variable (alphanumeric) in
/-- A step goes on from where it stands. -/
lemma nextWord_ne_nil {w : Text} (hw : w ≠ []) : nextWord alphanumeric w ≠ [] := by
  obtain ⟨c, w, rfl⟩ := List.exists_cons_of_ne_nil hw
  rw [nextWord]
  split_ifs with hc
  · rw [List.takeWhile_cons_of_pos hc]
    exact List.cons_ne_nil _ _
  · have hself : alike alphanumeric c c = true := by simp [alike, hc]
    rw [List.takeWhile_cons_of_pos hself]
    exact List.cons_ne_nil _ _

lemma prevWord_lt {u : Text} (hu : u ≠ []) :
    utf8Len (prevWord alphanumeric u) < utf8Len u := by
  obtain ⟨v, c, rfl⟩ := (List.eq_nil_or_concat' u).resolve_left hu
  have hlt := lt_utf8Len_append v c
  have hshorter {x y : Text} (h : x <+: y) : utf8Len x ≤ utf8Len y := by
    obtain ⟨z, rfl⟩ := h
    exact utf8Len_le_append x z
  unfold prevWord
  by_cases hc : isWhitespace c
  · rw [List.rdropWhile_concat_pos _ v c hc]
    refine lt_of_le_of_lt (hshorter ?_) hlt
    cases (v.rdropWhile isWhitespace).getLast? with
    | none => exact List.nil_prefix
    | some d => exact (List.rdropWhile_prefix ..).trans (List.rdropWhile_prefix ..)
  · have hself : alike alphanumeric c c = true := by simp [alike, hc]
    rw [List.rdropWhile_concat_neg _ v c hc, List.getLast?_concat]
    simp only
    rw [List.rdropWhile_concat_pos _ v c hself]
    exact lt_of_le_of_lt (hshorter (List.rdropWhile_prefix ..)) hlt

/-- The next word starts no earlier than the step behind it ends. -/
lemma le_of_isWordStart_next (hwhite : ∀ c, alphanumeric c = true → isWhitespace c = false)
    {u w : Text} {n : ℕ} (h : IsWordStart alphanumeric (u ++ w) n) (hn : utf8Len u < n) :
    utf8Len (u ++ nextWord alphanumeric w) ≤ n := by
  obtain ⟨x, c', y, happ, rfl, hc', hlast⟩ := h
  by_contra hlt
  obtain ⟨z, hz, rfl, rfl⟩ := exists_of_lt happ hn
  obtain ⟨run, blank, rest, c, hw, hnext, hrun, hblank⟩ :=
    nextWord_spec alphanumeric (z ++ c' :: y)
  rw [hnext, String.utf8Len_append u, String.utf8Len_append u] at hlt
  obtain ⟨v, hv, hsplit, hrest⟩ := exists_of_lt hw (by omega)
  obtain ⟨e, v, rfl⟩ := List.exists_cons_of_ne_nil hv
  obtain ⟨rfl, -⟩ := List.cons.inj hrest
  refine not_start_inside hwhite hrun hblank hsplit hz hc' fun d hd => hlast d ?_
  rw [List.getLast?_append, Option.mem_def.mp hd]
  rfl

/-- A step back ends no later than a word in front of it starts. -/
lemma le_of_isWordStart_prev (hwhite : ∀ c, alphanumeric c = true → isWhitespace c = false)
    {u w : Text} {n : ℕ} (h : IsWordStart alphanumeric (u ++ w) n) (hn : n < utf8Len u) :
    n ≤ utf8Len (prevWord alphanumeric u) := by
  obtain ⟨x, c', y, happ, rfl, hc', hlast⟩ := h
  by_contra hlt
  obtain ⟨v, hv, rfl, hrest⟩ := exists_of_lt happ.symm hn
  obtain ⟨run, blank, c, hu, hrun, hblank⟩ := prevWord_spec alphanumeric (x ++ v)
  obtain ⟨z, hz, hx, hsplit⟩ := exists_of_lt hu.symm (not_le.mp hlt)
  obtain ⟨e, v, rfl⟩ := List.exists_cons_of_ne_nil hv
  obtain ⟨rfl, -⟩ := List.cons.inj hrest
  refine not_start_inside hwhite hrun hblank hsplit hz hc' fun d hd => hlast d ?_
  have hend := congrArg List.getLast? hx
  rw [List.getLast?_append, Option.mem_def.mp hd] at hend
  exact hend

/-- Steps on reach every word start behind. -/
lemma reach_next (hwhite : ∀ c, alphanumeric c = true → isWhitespace c = false) {t : Text} {s : ℕ}
    (hs : IsWordStart alphanumeric t s) {u w : Text} (ht : t = u ++ w) (hle : utf8Len u ≤ s) :
    Relation.ReflTransGen (fun a b => nextWordBoundary alphanumeric t a = some b)
      (utf8Len u) s := by
  induction hn : utf8Len w using Nat.strong_induction_on generalizing u w with
  | h n ih =>
    rcases hle.eq_or_lt with rfl | hlt
    · exact .refl
    subst ht hn
    have hw : w ≠ [] := by
      rintro rfl
      obtain ⟨x, c, y, happ, rfl, -⟩ := hs
      rw [List.append_nil] at happ
      rw [happ] at hlt
      exact absurd (utf8Len_le_append x (c :: y)) hlt.not_ge
    obtain ⟨run, blank, rest, c, hsplit, hnext, -⟩ := nextWord_spec alphanumeric w
    have hstep := nextWordBoundary_eq alphanumeric u w
    refine .head hstep (ih (utf8Len rest) ?_ ?_ (le_of_isWordStart_next hwhite hs hlt) rfl)
    · have hne := nextWord_ne_nil alphanumeric hw
      rw [hnext] at hne
      rw [hsplit, String.utf8Len_append]
      have := String.utf8Len_eq_zero.not.mpr hne
      omega
    · rw [hnext, List.append_assoc, ← hsplit]

/-- Steps back reach every word start in front. -/
lemma reach_prev (hwhite : ∀ c, alphanumeric c = true → isWhitespace c = false) {t : Text} {s : ℕ}
    (hs : IsWordStart alphanumeric t s) {u w : Text} (ht : t = u ++ w) (hle : s ≤ utf8Len u) :
    Relation.ReflTransGen (fun a b => prevWordBoundary alphanumeric t a = some b)
      (utf8Len u) s := by
  induction hn : utf8Len u using Nat.strong_induction_on generalizing u w with
  | h n ih =>
    subst hn
    rcases hle.eq_or_lt with rfl | hlt
    · exact .refl
    subst ht
    have hu : u ≠ [] := by
      rintro rfl
      exact absurd hlt (Nat.not_lt_zero s)
    obtain ⟨run, blank, c, hsplit, -⟩ := prevWord_spec alphanumeric u
    have hstep := prevWordBoundary_eq alphanumeric u w
    have happ : u ++ w = prevWord alphanumeric u ++ (run ++ blank ++ w) := by
      rw [← List.append_assoc, ← hsplit]
    exact .head hstep (ih _ (prevWord_lt hu) happ (le_of_isWordStart_prev hwhite hs hlt) rfl)

/-! ### The word at a position -/

/-- The classes of characters. -/
inductive CharClass
  | word
  | blank
  | other
  deriving DecidableEq

variable (alphanumeric)

def charClass (c : Char) : CharClass :=
  if isWhitespace c then .blank else if isWordChar alphanumeric c then .word else .other

variable {alphanumeric}

lemma sameClass_iff (hwhite : ∀ c, alphanumeric c = true → isWhitespace c = false) (c d : Char) :
    sameClass alphanumeric c d = true ↔ charClass alphanumeric d = charClass alphanumeric c := by
  have hd := not_isWhitespace_of_isWordChar hwhite (c := d)
  unfold sameClass charClass
  split_ifs with hc hd' <;> simp_all

/-- The text in front of the character that is looked at, and the text from there on: that is the
character at a position, or the one in front of it at the end or where a blank follows a token. -/
def probed (u w : Text) : Text × Text :=
  match u.getLast? with
  | none => (u, w)
  | some d =>
    match w with
    | [] => (u.dropLast, [d])
    | c :: w =>
      if isWhitespace c ∧ isWhitespace d = false then (u.dropLast, d :: c :: w) else (u, c :: w)

@[simp] lemma probed_nil (w : Text) : probed [] w = ([], w) := rfl

@[simp] lemma probed_concat_nil (u : Text) (d : Char) : probed (u ++ [d]) [] = (u, [d]) := by
  simp [probed]

@[simp] lemma probed_concat_cons (u w : Text) (d c : Char) : probed (u ++ [d]) (c :: w) =
    if isWhitespace c ∧ isWhitespace d = false then (u, d :: c :: w) else (u ++ [d], c :: w) := by
  simp [probed]

lemma probed_append (u w : Text) : (probed u w).1 ++ (probed u w).2 = u ++ w := by
  rcases List.eq_nil_or_concat' u with rfl | ⟨u, d, rfl⟩
  · rfl
  · cases w with
    | nil => simp
    | cons c w =>
      rw [probed_concat_cons]
      split_ifs
      · simp
      · rfl

lemma probeAt_eq {u w : Text} (h : u ++ w ≠ []) :
    probeAt (u ++ w) (utf8Len u) = some (utf8Len (probed u w).1) := by
  rw [probeAt, min_utf8Len]
  cases w with
  | nil =>
    rw [List.append_nil] at h
    obtain ⟨u, d, rfl⟩ := (List.eq_nil_or_concat' u).resolve_left h
    have hprev := prevCharBoundary_eq u [] d
    rw [List.append_nil, if_pos rfl, hprev, probed_concat_nil]
  | cons c w =>
    have hlt : utf8Len u < utf8Len (u ++ c :: w) :=
      (lt_utf8Len_append u c).trans_le (utf8Len_append_le u w c)
    simp only [firstChar_on, List.head?_cons]
    rw [if_neg hlt.ne]
    rcases List.eq_nil_or_concat' u with rfl | ⟨u, d, rfl⟩
    · simp
    · have hpos := (Nat.zero_le _).trans_lt (lt_utf8Len_append u d)
      have happ : u ++ [d] ++ c :: w = u ++ d :: c :: w := by simp
      rw [happ, prevCharBoundary_eq, firstChar_back, probed_concat_cons]
      simp only [and_iff_left hpos]
      by_cases hc : isWhitespace c <;> by_cases hd : isWhitespace d <;> simp [hc, hd]

lemma wordRangeAt_eq {u w x y : Text} {c : Char} (h : probed u w = (x, c :: y)) :
    wordRangeAt alphanumeric (u ++ w) (utf8Len u) =
      some (utf8Len (x.rdropWhile (sameClass alphanumeric c)),
        utf8Len (x ++ [c] ++ y.takeWhile (sameClass alphanumeric c))) := by
  have happ : u ++ w = x ++ c :: y := by rw [← probed_append, h]
  have hne : u ++ w ≠ [] := happ ▸ List.append_ne_nil_of_right_ne_nil _ (List.cons_ne_nil _ _)
  have hy : utf8Len y ≤ utf8Len (x ++ [c] ++ y) := by
    rw [String.utf8Len_append]
    exact Nat.le_add_left ..
  rw [wordRangeAt, if_neg hne, probeAt_eq hne, h, happ]
  simp only [firstChar_on, List.head?_cons, nextCharBoundary_eq]
  rw [skipBack_eq _ x (c :: y) (utf8Len_le_append ..), List.append_cons x c y,
    skipOn_eq _ (x ++ [c]) y hy]

lemma exists_probed {u w : Text} (h : u ++ w ≠ []) : ∃ x c y, probed u w = (x, c :: y) := by
  rcases List.eq_nil_or_concat' u with rfl | ⟨u, d, rfl⟩
  · obtain ⟨c, w, rfl⟩ := List.exists_cons_of_ne_nil h
    exact ⟨[], c, w, rfl⟩
  · cases w with
    | nil => exact ⟨_, d, [], probed_concat_nil u d⟩
    | cons c w =>
      rw [probed_concat_cons]
      split_ifs
      · exact ⟨_, d, c :: w, rfl⟩
      · exact ⟨_, c, w, rfl⟩

/-- The steps go to the next position in their direction where a word may start and no further, and
the word at a position is the longest stretch of one class around the character that is looked
at. -/
theorem word_boundaries (hwhite : ∀ c, alphanumeric c = true → isWhitespace c = false)
    (u w : Text) :
    (∃ p, prevWordBoundary alphanumeric (u ++ w) (utf8Len u) = some p ∧
      IsCharBoundary (u ++ w) p ∧ (p < utf8Len u ∨ u = [] ∧ p = 0) ∧
      ∀ s, IsWordStart alphanumeric (u ++ w) s → s < utf8Len u → s ≤ p) ∧
    (∃ q, nextWordBoundary alphanumeric (u ++ w) (utf8Len u) = some q ∧
      IsCharBoundary (u ++ w) q ∧ (utf8Len u < q ∨ w = [] ∧ q = utf8Len (u ++ w)) ∧
      ∀ s, IsWordStart alphanumeric (u ++ w) s → utf8Len u < s → q ≤ s) ∧
    (∀ s, IsWordStart alphanumeric (u ++ w) s →
      (s ≤ utf8Len u → Relation.ReflTransGen
        (fun a b => prevWordBoundary alphanumeric (u ++ w) a = some b) (utf8Len u) s) ∧
      (utf8Len u ≤ s → Relation.ReflTransGen
        (fun a b => nextWordBoundary alphanumeric (u ++ w) a = some b) (utf8Len u) s)) ∧
    (u ++ w ≠ [] → ∃ a m c m' b, probed u w = (a ++ m, c :: (m' ++ b)) ∧
      wordRangeAt alphanumeric (u ++ w) (utf8Len u) =
        some (utf8Len a, utf8Len (a ++ m ++ [c] ++ m')) ∧
      (∀ d ∈ m ++ m', charClass alphanumeric d = charClass alphanumeric c) ∧
      (∀ d ∈ a.getLast?, charClass alphanumeric d ≠ charClass alphanumeric c) ∧
      ∀ d ∈ b.head?, charClass alphanumeric d ≠ charClass alphanumeric c) := by
  refine ⟨⟨_, prevWordBoundary_eq alphanumeric u w, ?_, ?_, fun s hs hlt =>
    le_of_isWordStart_prev hwhite hs hlt⟩, ⟨_, nextWordBoundary_eq alphanumeric u w, ?_, ?_,
    fun s hs hlt => le_of_isWordStart_next hwhite hs hlt⟩, fun s hs =>
    ⟨reach_prev hwhite hs rfl, reach_next hwhite hs rfl⟩, ?_⟩
  · obtain ⟨run, blank, c, hsplit, -⟩ := prevWord_spec alphanumeric u
    refine ⟨prevWord alphanumeric u, run ++ blank ++ w, ?_, rfl⟩
    rw [← List.append_assoc, ← hsplit]
  · by_cases hu : u = []
    · exact .inr ⟨hu, by rw [hu]; rfl⟩
    · exact .inl (prevWord_lt hu)
  · obtain ⟨run, blank, rest, c, hsplit, hnext, -⟩ :=
      nextWord_spec alphanumeric w
    exact ⟨u ++ nextWord alphanumeric w, rest, by rw [hnext, List.append_assoc, ← hsplit], rfl⟩
  · by_cases hw : w = []
    · subst hw
      exact .inr ⟨rfl, rfl⟩
    · refine .inl ?_
      rw [String.utf8Len_append]
      have := String.utf8Len_eq_zero.not.mpr (nextWord_ne_nil alphanumeric hw)
      omega
  · intro hne
    obtain ⟨x, c, y, hprobed⟩ := exists_probed hne
    have hback := List.rdropWhile_append_rtakeWhile (p := sameClass alphanumeric c) (l := x)
    have hon := List.takeWhile_append_dropWhile (p := sameClass alphanumeric c) (l := y)
    refine ⟨x.rdropWhile (sameClass alphanumeric c), x.rtakeWhile (sameClass alphanumeric c), c,
      y.takeWhile (sameClass alphanumeric c), y.dropWhile (sameClass alphanumeric c), ?_, ?_, ?_,
      ?_, ?_⟩
    · rw [hback, hon, hprobed]
    · rw [hback, wordRangeAt_eq hprobed]
    · intro d hd
      rw [← sameClass_iff hwhite]
      rcases List.mem_append.mp hd with hd | hd
      · exact List.mem_rtakeWhile_imp hd
      · exact List.mem_takeWhile_imp hd
    · intro d hd
      rw [Ne, ← sameClass_iff hwhite]
      have hne : x.rdropWhile (sameClass alphanumeric c) ≠ [] := by
        rintro hnil
        rw [hnil] at hd
        cases hd
      rw [List.getLast?_eq_some_getLast hne] at hd
      exact Option.mem_some.mp hd ▸ List.rdropWhile_last_not _ _ hne
    · intro d hd
      rw [Ne, ← sameClass_iff hwhite]
      have hnot := List.head?_dropWhile_not (sameClass alphanumeric c) y
      rw [Option.mem_def.mp hd] at hnot
      simpa using hnot

theorem word_boundaries_ascii : ∃ p, prevWordBoundary Char.isAlphanum
    ("ab ".toList ++ "cd".toList) (utf8Len "ab ".toList) = some p := by
  have hwhite (c : Char) (h : c.isAlphanum = true) : isWhitespace c = false := by
    have hsmall : ∀ n < 128, (Char.ofNat n).isAlphanum = true →
        isWhitespace (Char.ofNat n) = false := by
      decide
    have hcode : c.toNat < 128 := by
      simp only [Char.isAlphanum, Char.isAlpha, Char.isUpper, Char.isLower, Char.isDigit,
        Bool.or_eq_true, Bool.and_eq_true, decide_eq_true_eq, ge_iff_le,
        UInt32.le_iff_toNat_le] at h
      change c.val.toNat < 128
      have hZ : 'Z'.val.toNat = 90 := rfl
      have hz : 'z'.val.toNat = 122 := rfl
      have h9 : '9'.val.toNat = 57 := rfl
      omega
    rw [← Char.ofNat_toNat c] at h ⊢
    exact hsmall _ hcode h
  obtain ⟨⟨p, hp, -⟩, -⟩ := word_boundaries hwhite "ab ".toList "cd".toList
  exact ⟨p, hp⟩

end Orchid.Document
