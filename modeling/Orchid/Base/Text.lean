import Mathlib.Data.List.DropRight
import Mathlib.Data.Nat.Digits.Defs
import Mathlib.Data.List.TakeWhile
import Orchid.Base.Machine

/-!
# Operations of the source's strings

White space is the Unicode property of that name, which `str::trim` and `char::is_whitespace` use;
lower case is the ASCII one of `to_ascii_lowercase`.
-/

namespace Orchid

/-- `char::is_whitespace` -/
def isWhitespace (c : Char) : Bool :=
  let n := c.toNat
  (9 ≤ n && n ≤ 13) || n == 0x20 || n == 0x85 || n == 0xA0 || n == 0x1680 ||
    (0x2000 ≤ n && n ≤ 0x200A) || n == 0x2028 || n == 0x2029 || n == 0x202F || n == 0x205F ||
    n == 0x3000

/-- `str::trim_start` -/
def trimStart (t : Text) : Text := t.dropWhile isWhitespace

/-- `str::trim_end` -/
def trimEnd (t : Text) : Text := t.rdropWhile isWhitespace

/-- `str::trim` -/
def trim (t : Text) : Text := trimEnd (trimStart t)

/-- `str::to_ascii_lowercase` -/
def toAsciiLowercase (t : Text) : Text := t.map Char.toLower

/-- `str::strip_prefix` -/
def dropStart? (t start : Text) : Option Text :=
  if start <+: t then some (t.drop start.length) else none

/-- The lines of a text behind a part of the first one. -/
def linesFrom (line : Text) : Text → List Text
  | [] => if line = [] then [] else [line]
  | c :: t =>
    if c = '\n' then
      (if line.getLast? = some '\r' then line.dropLast else line) :: linesFrom [] t
    else linesFrom (line ++ [c]) t

/-- `str::lines` -/
def lines (t : Text) : List Text := linesFrom [] t

/-- `str::starts_with`, of a character. -/
def startsWith (t : Text) (c : Char) : Bool := t.head? == some c

@[simp] lemma dropStart?_append (start t : Text) : dropStart? (start ++ t) start = some t := by
  simp [dropStart?]

lemma dropStart?_eq_some {t start rest : Text} (h : dropStart? t start = some rest) :
    t = start ++ rest := by
  unfold dropStart? at h
  split_ifs at h with hp
  obtain ⟨u, rfl⟩ := hp
  simpa using h

@[simp] lemma startsWith_nil (c : Char) : startsWith [] c = false := rfl

@[simp] lemma startsWith_cons (a c : Char) (t : Text) : startsWith (a :: t) c = (a == c) := by
  simp [startsWith]

/-! ### Lines -/

lemma linesFrom_append {l : Text} (hn : '\n' ∉ l) (hr : '\r' ∉ l) (t : Text) (line : Text)
    (hline : '\r' ∉ line) :
    linesFrom line (l ++ '\n' :: t) = (line ++ l) :: linesFrom [] t := by
  induction l generalizing line with
  | nil =>
    have hlast : line.getLast? ≠ some '\r' := fun h => hline (List.mem_of_getLast? h)
    rw [List.nil_append, linesFrom, if_pos rfl, if_neg hlast, List.append_nil]
  | cons c l ih =>
    obtain ⟨hcn, hn⟩ := not_or.mp (mt List.mem_cons.mpr hn)
    obtain ⟨hcr, hr⟩ := not_or.mp (mt List.mem_cons.mpr hr)
    rw [List.cons_append, linesFrom, if_neg (Ne.symm hcn), ih hn hr _ (by simp [hline, hcr]),
      List.append_assoc]
    rfl

/-- A line break ends a line whatever stands behind it. -/
lemma linesFrom_newline (line t u : Text) :
    linesFrom line (t ++ '\n' :: u) = linesFrom line (t ++ ['\n']) ++ lines u := by
  induction t generalizing line with
  | nil => simp [linesFrom, lines]
  | cons c t ih =>
    rw [List.cons_append, List.cons_append, linesFrom, linesFrom]
    split_ifs with hc hr
    · rw [ih, List.cons_append]
    · rw [ih, List.cons_append]
    · exact ih _

lemma linesFrom_of_notMem {t : Text} (h : '\n' ∉ t) (line : Text) :
    linesFrom line t = if line ++ t = [] then [] else [line ++ t] := by
  induction t generalizing line with
  | nil => rw [List.append_nil, linesFrom]
  | cons c t ih =>
    obtain ⟨hc, ht⟩ := not_or.mp (mt List.mem_cons.mpr h)
    rw [linesFrom, if_neg (Ne.symm hc), ih ht, List.append_assoc]
    rfl

/-! ### Trimming -/

/-- Nothing is trimmed from a text whose ends show. -/
lemma trimStart_eq_self {t : Text} (h : ∀ c ∈ t.head?, isWhitespace c = false) :
    trimStart t = t := by
  cases t with
  | nil => rfl
  | cons c t => simp [trimStart, h c (by simp)]

lemma trimEnd_eq_self {t : Text} (h : ∀ c ∈ t.getLast?, isWhitespace c = false) :
    trimEnd t = t := by
  unfold trimEnd
  refine List.rdropWhile_eq_self_iff.mpr fun hne => ?_
  have := h (t.getLast hne) (List.getLast?_eq_some_getLast hne ▸ rfl)
  simp [this]

lemma trim_eq_self {t : Text} (hs : ∀ c ∈ t.head?, isWhitespace c = false)
    (he : ∀ c ∈ t.getLast?, isWhitespace c = false) : trim t = t := by
  rw [trim, trimStart_eq_self hs, trimEnd_eq_self he]

lemma trimStart_append_of_all {ws : Text} (h : ∀ c ∈ ws, isWhitespace c = true) (t : Text) :
    trimStart (ws ++ t) = trimStart t := by
  induction ws with
  | nil => rfl
  | cons c ws ih =>
    rw [List.cons_append, trimStart, List.dropWhile_cons_of_pos (h c (by simp)), ← trimStart]
    exact ih fun d hd => h d (by simp [hd])

lemma trimEnd_append_of_all {ws : Text} (h : ∀ c ∈ ws, isWhitespace c = true) (t : Text) :
    trimEnd (t ++ ws) = trimEnd t := by
  have hr : ∀ c ∈ ws.reverse, isWhitespace c = true := fun c hc => h c (List.mem_reverse.mp hc)
  have := trimStart_append_of_all hr t.reverse
  simp only [trimStart] at this
  simp [trimEnd, List.rdropWhile, this]

/-- White space at the ends does not change what trimming leaves. -/
lemma trim_append_left {ws : Text} (h : ∀ c ∈ ws, isWhitespace c = true) (t : Text) :
    trim (ws ++ t) = trim t := by
  rw [trim, trimStart_append_of_all h, trim]

lemma trim_append_right {ws : Text} (h : ∀ c ∈ ws, isWhitespace c = true) (t : Text) :
    trim (t ++ ws) = trim t := by
  by_cases ht : ∀ c ∈ t, isWhitespace c = true
  · have hboth : ∀ c ∈ t ++ ws, isWhitespace c = true := fun c hc =>
      (List.mem_append.mp hc).elim (ht c) (h c)
    simp only [trim, trimStart, List.dropWhile_eq_nil_iff.mpr hboth,
      List.dropWhile_eq_nil_iff.mpr ht]
  · have hstart : trimStart (t ++ ws) = trimStart t ++ ws := by
      rw [trimStart, List.dropWhile_append, if_neg, trimStart]
      simpa [List.dropWhile_eq_nil_iff] using ht
    rw [trim, hstart, trimEnd_append_of_all h, trim]

/-- A text is what trimming leaves of it, between two stretches of white space. -/
lemma exists_trim (t : Text) : ∃ ws ws', t = ws ++ trim t ++ ws' ∧
    (∀ c ∈ ws, isWhitespace c = true) ∧ (∀ c ∈ ws', isWhitespace c = true) := by
  refine ⟨t.takeWhile isWhitespace, (trimStart t).rtakeWhile isWhitespace, ?_, ?_, ?_⟩
  · have hback : trim t ++ (trimStart t).rtakeWhile isWhitespace = trimStart t :=
      List.rdropWhile_append_rtakeWhile
    rw [List.append_assoc, hback]
    exact (List.takeWhile_append_dropWhile).symm
  · exact fun c hc => List.mem_takeWhile_imp hc
  · exact fun c hc => List.mem_rtakeWhile_imp hc

/-- A trimmed text shows from its start. -/
lemma head?_trimStart (t : Text) : ∀ c ∈ (trimStart t).head?, isWhitespace c = false := by
  intro c hc
  have hnot := List.head?_dropWhile_not isWhitespace t
  rw [show (t.dropWhile isWhitespace).head? = some c from hc] at hnot
  exact hnot

lemma head?_trim (t : Text) : ∀ c ∈ (trim t).head?, isWhitespace c = false := by
  intro c hc
  refine head?_trimStart t c ?_
  obtain ⟨rest, hrest⟩ := List.rdropWhile_prefix isWhitespace (l := trimStart t)
  rw [← hrest, List.head?_append,
    show ((trimStart t).rdropWhile isWhitespace).head? = some c from hc]
  rfl

@[simp] lemma trim_trim (t : Text) : trim (trim t) = trim t := by
  obtain ⟨ws, ws', ht, hws, hws'⟩ := exists_trim t
  conv_rhs => rw [ht, trim_append_right hws', trim_append_left hws]

/-! ### Numbers -/

/-- The digits of a number, with zeros in front up to a width. -/
def pad (width n : ℕ) : Text :=
  List.replicate (width - (Nat.toDigits 10 n).length) '0' ++ Nat.toDigits 10 n

/-- A non-empty text of digits, as a number. -/
def parseDigits (t : Text) : Option ℕ :=
  if t ≠ [] ∧ t.all Char.isDigit then some (Nat.ofDigitChars 10 t 0) else none

/-- `str::parse::<u32>` -/
def parseU32 (t : Text) : Option ℕ :=
  (parseDigits (if startsWith t '+' then t.tail else t)).filter fun n => n < 2 ^ 32

lemma isDigit_pad {width n : ℕ} : ∀ c ∈ pad width n, c.isDigit = true := by
  intro c hc
  rcases List.mem_append.mp hc with hc | hc
  · rw [(List.mem_replicate.mp hc).2]
    rfl
  · exact Nat.isDigit_of_mem_toDigits (by decide) (by decide) hc

lemma length_pad {width n : ℕ} (h : n < 10 ^ width) (hw : 0 < width) :
    (pad width n).length = width := by
  have := (Nat.length_toDigits_le_iff (b := 10) (by decide) hw).mpr h
  rw [pad, List.length_append, List.length_replicate]
  omega

lemma le_length_pad (width n : ℕ) : width ≤ (pad width n).length := by
  rw [pad, List.length_append, List.length_replicate]
  omega

lemma pad_ne_nil (width n : ℕ) : pad width n ≠ [] := by
  unfold pad
  simp [Nat.toDigits_ne_nil]

lemma parseDigits_pad (width n : ℕ) : parseDigits (pad width n) = some n := by
  rw [parseDigits, if_pos ⟨pad_ne_nil width n, List.all_eq_true.mpr isDigit_pad⟩, pad,
    Nat.ofDigitChars_append, Nat.ofDigitChars_replicate_zero, Nat.mul_zero,
    Nat.ofDigitChars_ten_toDigits]

lemma startsWith_of_isDigit {t : Text} (h : ∀ c ∈ t, c.isDigit = true) {c : Char}
    (hc : c.isDigit = false) : startsWith t c = false := by
  cases t with
  | nil => rfl
  | cons d t =>
    rw [startsWith_cons, beq_eq_false_iff_ne]
    rintro rfl
    exact Bool.false_ne_true (hc.symm.trans (h d List.mem_cons_self))

lemma parseU32_pad {width n : ℕ} (hn : n < 2 ^ 32) : parseU32 (pad width n) = some n := by
  rw [parseU32, startsWith_of_isDigit isDigit_pad rfl, if_neg Bool.false_ne_true, parseDigits_pad]
  simpa using hn

end Orchid
