import Mathlib.Data.List.Induction
import Orchid.Sheet.Formula

/-!
# References

The text of a reference is read as that reference, and what is read does not depend on what
stands behind the word.
-/

namespace Orchid.Sheet

/-! ### Columns -/

lemma letter_spec {i : ℕ} (h : i < 26) :
    (Char.ofNat (65 + i)).isAlpha = true ∧ (Char.ofNat (65 + i)).toUpper.toNat - 65 = i := by
  revert i
  decide

lemma columnLetters_alpha (steps index : ℕ) :
    ∀ c ∈ columnLetters steps index, c.isAlpha = true := by
  induction steps generalizing index with
  | zero => exact nofun
  | succ steps ih =>
    unfold columnLetters
    split_ifs
    · exact nofun
    · intro c hc
      rcases List.mem_append.mp hc with hc | hc
      · exact ih _ c hc
      · obtain rfl := List.mem_singleton.mp hc
        exact (letter_spec (Nat.mod_lt _ (by decide))).1

/-- The letters of a column are read as that column. -/
lemma columnIndex_columnLetters {steps index : ℕ} (hsteps : index ≤ steps)
    (hindex : index < 2 ^ 32) : columnIndex (columnLetters steps index) = some index := by
  induction steps generalizing index with
  | zero =>
    obtain rfl := Nat.le_zero.mp hsteps
    rfl
  | succ steps ih =>
    unfold columnLetters
    split_ifs with hzero
    · rw [hzero]
      rfl
    · have hquot : (index - 1) / 26 ≤ index - 1 := Nat.div_le_self _ _
      have hprev := @ih ((index - 1) / 26) (by omega) (by omega)
      obtain ⟨halpha, hvalue⟩ := letter_spec (Nat.mod_lt (index - 1) (by decide : 0 < 26))
      have hdiv := Nat.div_add_mod (index - 1) 26
      have hnext : (index - 1) / 26 * 26 + ((index - 1) % 26 + 1) = index := by omega
      unfold columnIndex at hprev ⊢
      rw [List.foldlM_append, hprev]
      show columnStep ((index - 1) / 26) _ >>= some = some index
      unfold columnStep
      rw [if_pos halpha, hvalue, hnext, if_pos hindex]
      rfl

lemma columnIndex_append (letters : Text) (ch : Char) :
    columnIndex (letters ++ [ch]) =
      (columnIndex letters).bind fun value => columnStep value ch := by
  simp [columnIndex, Option.bind_eq_bind]

lemma columnStep_eq_some {value index : ℕ} {ch : Char}
    (h : columnStep value ch = some index) :
    ch.isAlpha = true ∧ value * 26 + (ch.toUpper.toNat - 65 + 1) = index ∧ index < 2 ^ 32 := by
  unfold columnStep at h
  split_ifs at h with halpha
  simp only at h
  split_ifs at h with hfits
  obtain rfl := Option.some.inj h
  exact ⟨halpha, rfl, hfits⟩

lemma columnIndex_lt {letters : Text} {index : ℕ} (h : columnIndex letters = some index) :
    index < 2 ^ 32 := by
  induction letters using List.reverseRecOn with
  | nil =>
    obtain rfl : 0 = index := Option.some.inj h
    decide
  | append_singleton letters ch =>
    rw [columnIndex_append] at h
    obtain ⟨value, -, hstep⟩ := Option.bind_eq_some_iff.mp h
    exact (columnStep_eq_some hstep).2.2

lemma length_columnLetters_le {steps index : ℕ} (hindex : index ≤ maxColumn) :
    (columnLetters steps index).length ≤ 3 := by
  have hone {steps index : ℕ} (h : index = 0) : (columnLetters steps index).length = 0 := by
    cases steps with
    | zero => rfl
    | succ steps =>
      unfold columnLetters
      rw [if_pos h]
      rfl
  have hstep {steps index k : ℕ}
      (h : ∀ steps, (columnLetters steps ((index - 1) / 26)).length ≤ k) :
      (columnLetters steps index).length ≤ k + 1 := by
    cases steps with
    | zero => exact Nat.zero_le _
    | succ steps =>
      unfold columnLetters
      split_ifs
      · exact Nat.zero_le _
      · rw [List.length_append]
        exact Nat.succ_le_succ (h steps)
  unfold maxColumn at hindex
  exact hstep fun _ => hstep fun _ => hstep fun _ => (hone (by omega)).le

lemma columnName_ne_nil {index : ℕ} (h : index ≠ 0) : columnName index ≠ [] := by
  obtain ⟨n, rfl⟩ := Nat.exists_eq_succ_of_ne_zero h
  unfold columnName columnLetters
  rw [if_neg h]
  exact List.append_ne_nil_of_right_ne_nil _ (List.cons_ne_nil _ _)

/-! ### Words -/

/-- The characters that end a word: blanks, operators, brackets and quotes. -/
def delimiters : Text := " \t\n\r+-*/^&=<>(),;:\x7b\x7d!#%@|[]~\"'".toList

/-- A character of a word. -/
def wordChar (c : Char) : Bool := !delimiters.contains c

lemma wordChar_of_isAlphanum {c : Char} (h : c.isAlphanum = true) : wordChar c = true := by
  have hall : delimiters.all (fun d => !d.isAlphanum) = true := by decide
  unfold wordChar
  rw [Bool.not_eq_true', ← Bool.not_eq_true, List.contains_iff_mem]
  intro hmem
  have hc := List.all_eq_true.mp hall c hmem
  rw [h] at hc
  cases hc

lemma isAlphanum_of_isAlpha {c : Char} (h : c.isAlpha = true) : c.isAlphanum = true := by
  unfold Char.isAlphanum
  rw [h]
  rfl

lemma isAlphanum_of_isDigit {c : Char} (h : c.isDigit = true) : c.isAlphanum = true := by
  unfold Char.isAlphanum
  rw [h, Bool.or_true]

/-- A text that does not go on with a word. -/
def Ends (s : Text) : Prop := ∀ c ∈ s.head?, wordChar c = false

lemma Ends.any_eq_false {s : Text} (h : Ends s) {p : Char → Bool}
    (hp : ∀ c, p c = true → wordChar c = true) : s.head?.any p = false := by
  cases s with
  | nil => rfl
  | cons c s =>
    cases hc : p c with
    | false => exact hc
    | true =>
      have hword := h c rfl
      rw [hp c hc] at hword
      cases hword

lemma Ends.head_append {rest : Text} (h : Ends rest) {p : Char → Bool}
    (hp : ∀ c, p c = true → wordChar c = true) (s : Text) :
    (s ++ rest).head?.any p = s.head?.any p := by
  cases s with
  | nil => exact h.any_eq_false hp
  | cons c s => rfl

lemma wordChar_of_isAlpha (c : Char) (h : c.isAlpha = true) : wordChar c = true :=
  wordChar_of_isAlphanum (isAlphanum_of_isAlpha h)

lemma wordChar_of_isDigit (c : Char) (h : c.isDigit = true) : wordChar c = true :=
  wordChar_of_isAlphanum (isAlphanum_of_isDigit h)

/-! ### Reading a reference -/

lemma takeAtMost_of_not {p : Char → Bool} {c : Char} (h : p c = false) (n : ℕ) (s : Text) :
    takeAtMost p n (c :: s) = ([], c :: s) := by
  cases n with
  | zero => rfl
  | succ n => rw [takeAtMost, if_neg (by rw [h]; exact Bool.false_ne_true)]

lemma dollar_of_ne {c : Char} (h : c ≠ '$') (s : Text) : dollar (c :: s) = (false, c :: s) := by
  rw [dollar, if_neg h]

lemma takeAtMost_append {p : Char → Bool} (hp : ∀ c, p c = true → wordChar c = true) {rest : Text}
    (h : Ends rest) (n : ℕ) (s : Text) :
    takeAtMost p n (s ++ rest) = ((takeAtMost p n s).1, (takeAtMost p n s).2 ++ rest) := by
  induction n generalizing s with
  | zero => rfl
  | succ n ih =>
    cases s with
    | nil =>
      cases rest with
      | nil => rfl
      | cons c rest =>
        have hc : p c = false := h.any_eq_false hp
        exact takeAtMost_of_not hc _ _
    | cons c s =>
      rw [List.cons_append, takeAtMost, takeAtMost, ih s]
      split_ifs <;> rfl

/-- All of a run is taken. -/
lemma takeAtMost_run {p : Char → Bool} {s : Text} (hs : ∀ c ∈ s, p c = true) {n : ℕ}
    (hn : s.length ≤ n) {rest : Text} (hrest : rest.head?.any p = false) :
    takeAtMost p n (s ++ rest) = (s, rest) := by
  induction s generalizing n with
  | nil =>
    cases n with
    | zero => rfl
    | succ n =>
      cases rest with
      | nil => rfl
      | cons c rest =>
        have hc : p c = false := hrest
        exact takeAtMost_of_not hc _ _
  | cons c s ih =>
    cases n with
    | zero => exact absurd hn (Nat.not_succ_le_zero _)
    | succ n =>
      rw [List.cons_append, takeAtMost, if_pos (hs c List.mem_cons_self),
        ih (fun d hd => hs d (List.mem_cons_of_mem _ hd)) (Nat.le_of_succ_le_succ hn)]

lemma dollar_append {rest : Text} (h : Ends rest) (s : Text) :
    dollar (s ++ rest) = ((dollar s).1, (dollar s).2 ++ rest) := by
  cases s with
  | nil =>
    cases rest with
    | nil => rfl
    | cons c rest =>
      have hc : c ≠ '$' := by
        rintro rfl
        exact absurd (h '$' rfl) (by decide)
      exact dollar_of_ne hc _
  | cons c s =>
    rw [List.cons_append, dollar, dollar]
    split_ifs <;> rfl

/-- What stands behind a word does not matter. -/
lemma parseCellRef_append {rest : Text} (h : Ends rest) (s : Text) :
    parseCellRef (s ++ rest) = (parseCellRef s).map fun r => (r.1, r.2 ++ rest) := by
  unfold parseCellRef
  rw [dollar_append h]
  dsimp only
  rw [takeAtMost_append wordChar_of_isAlpha h]
  dsimp only
  rw [h.head_append wordChar_of_isAlpha, dollar_append h]
  dsimp only
  rw [takeAtMost_append wordChar_of_isDigit h]
  dsimp only
  rw [h.head_append fun c hc => wordChar_of_isAlphanum hc]
  split_ifs
  · rfl
  · rfl
  · rfl
  · rw [Option.map_map]
    rfl

lemma parseCellRef_of_ends {rest : Text} (h : Ends rest) : parseCellRef rest = none := by
  have hnil := parseCellRef_append h []
  rw [List.nil_append] at hnil
  rw [hnil]
  rfl

/-- A word that does not begin like a reference. -/
lemma parseCellRef_cons {c : Char} (hdollar : c ≠ '$') (halpha : c.isAlpha = false) (s : Text) :
    parseCellRef (c :: s) = none := by
  unfold parseCellRef
  rw [dollar_of_ne hdollar]
  dsimp only
  rw [takeAtMost_of_not halpha, if_pos (Or.inl rfl)]

lemma dollar_dollarText {s : Text} (h : s.head? ≠ some '$') (abs : Bool) :
    dollar (dollarText abs ++ s) = (abs, s) := by
  cases abs with
  | true => rfl
  | false =>
    cases s with
    | nil => rfl
    | cons c s =>
      have hc : c ≠ '$' := fun heq => h (by rw [heq]; rfl)
      exact dollar_of_ne hc s

/-- A reference that stands on a sheet, as it is written. -/
structure CellRef where
  colAbs : Bool
  letters : Text
  col : ℕ
  rowAbs : Bool
  digits : Text
  row : ℕ
  letters_alpha : ∀ c ∈ letters, c.isAlpha = true
  letters_ne : letters ≠ []
  letters_le : letters.length ≤ 3
  letters_col : columnIndex letters = some col
  col_pos : 1 ≤ col
  col_le : col ≤ maxColumn
  digits_digit : ∀ c ∈ digits, c.isDigit = true
  digits_ne : digits ≠ []
  digits_le : digits.length ≤ 7
  digits_row : Nat.ofDigitChars 10 digits 0 = row
  row_pos : 1 ≤ row
  row_le : row ≤ maxRow

namespace CellRef

def text (r : CellRef) : Text :=
  dollarText r.colAbs ++ r.letters ++ (dollarText r.rowAbs ++ r.digits)

def parts (r : CellRef) : CellRefParts :=
  { colAbs := r.colAbs, col := r.col, rowAbs := r.rowAbs, row := r.row }

/-- A reference in capital letters and without leading zeros. -/
def canonical (colAbs : Bool) (col : ℕ) (rowAbs : Bool) (row : ℕ) (hcol : 1 ≤ col ∧ col ≤ maxColumn)
    (hrow : 1 ≤ row ∧ row ≤ maxRow) : CellRef where
  colAbs := colAbs
  letters := columnName col
  col := col
  rowAbs := rowAbs
  digits := Nat.toDigits 10 row
  row := row
  letters_alpha := columnLetters_alpha _ _
  letters_ne := columnName_ne_nil (Nat.ne_of_gt hcol.1)
  letters_le := length_columnLetters_le hcol.2
  letters_col := columnIndex_columnLetters (le_refl _) (lt_of_le_of_lt hcol.2 (by decide))
  col_pos := hcol.1
  col_le := hcol.2
  digits_digit _ hc := Nat.isDigit_of_mem_toDigits (b := 10) (n := row) (by decide) (by decide) hc
  digits_ne := Nat.toDigits_ne_nil
  digits_le :=
    (Nat.length_toDigits_le_iff (by decide) (by decide)).mpr (lt_of_le_of_lt hrow.2 (by decide))
  digits_row := Nat.ofDigitChars_ten_toDigits
  row_pos := hrow.1
  row_le := hrow.2

lemma not_isAlpha_of_isDigit {c : Char} (h : c.isDigit = true) : c.isAlpha = false := by
  have hle : c.toNat ≤ 57 := (of_decide_eq_true (Bool.and_eq_true_iff.mp h).2 : c.val ≤ '9'.val)
  cases halpha : c.isAlpha with
  | false => rfl
  | true =>
    rcases Bool.or_eq_true_iff.mp halpha with hup | hlow
    · have hge : 65 ≤ c.toNat := (of_decide_eq_true hup : c.val ≥ 'A'.val ∧ c.val ≤ 'Z'.val).1
      omega
    · have hge : 97 ≤ c.toNat :=
        (of_decide_eq_true (Bool.and_eq_true_iff.mp hlow).1 : c.val ≥ 'a'.val)
      omega

/-- The text of a reference is read as it. -/
lemma parseCellRef_text (r : CellRef) : parseCellRef r.text = some (r.parts, []) := by
  obtain ⟨d, ds, hrow⟩ := List.exists_cons_of_ne_nil r.digits_ne
  have hd : d.isDigit = true := r.digits_digit d (by rw [hrow]; exact List.mem_cons_self)
  have hdollar : d ≠ '$' := by
    rintro rfl
    exact absurd hd (by decide)
  have hhead : (r.letters ++ (dollarText r.rowAbs ++ r.digits)).head? ≠ some '$' := by
    obtain ⟨c, cs, hc⟩ := List.exists_cons_of_ne_nil r.letters_ne
    rw [hc]
    intro heq
    obtain rfl : c = '$' := Option.some.inj heq
    exact absurd (r.letters_alpha '$' (by rw [hc]; exact List.mem_cons_self)) (by decide)
  have hbehind : (dollarText r.rowAbs ++ r.digits).head?.any Char.isAlpha = false := by
    cases r.rowAbs with
    | true => rfl
    | false =>
      rw [hrow]
      exact not_isAlpha_of_isDigit hd
  have hrowHead : r.digits.head? ≠ some '$' := by
    rw [hrow]
    exact fun heq => hdollar (Option.some.inj heq)
  have hend : ¬ (r.digits = [] ∨ ([] : Text).head?.any Char.isAlphanum = true) :=
    not_or.mpr ⟨r.digits_ne, Bool.false_ne_true⟩
  have hrun := @takeAtMost_run _ _ r.digits_digit _ r.digits_le [] rfl
  rw [List.append_nil] at hrun
  unfold parseCellRef text
  rw [List.append_assoc, dollar_dollarText hhead]
  dsimp only
  rw [takeAtMost_run r.letters_alpha r.letters_le hbehind]
  dsimp only
  rw [if_neg (by rw [hbehind]; exact not_or.mpr ⟨r.letters_ne, Bool.false_ne_true⟩),
    dollar_dollarText hrowHead]
  dsimp only
  rw [hrun]
  dsimp only
  rw [if_neg hend, r.digits_row, if_neg (Nat.ne_of_gt r.row_pos), r.letters_col]
  rfl

end CellRef

/-! ### What was read -/

lemma dollar_eq (s : Text) : s = dollarText (dollar s).1 ++ (dollar s).2 := by
  cases s with
  | nil => rfl
  | cons c s =>
    by_cases hc : c = '$'
    · rw [dollar, if_pos hc, hc]
      rfl
    · rw [dollar_of_ne hc]
      rfl

lemma takeAtMost_eq (p : Char → Bool) (n : ℕ) (s : Text) :
    s = (takeAtMost p n s).1 ++ (takeAtMost p n s).2 ∧ ∀ c ∈ (takeAtMost p n s).1, p c = true := by
  induction n generalizing s with
  | zero => exact ⟨rfl, nofun⟩
  | succ n ih =>
    cases s with
    | nil => exact ⟨rfl, nofun⟩
    | cons c s =>
      rw [takeAtMost]
      split_ifs with hc
      · obtain ⟨hs, hall⟩ := ih s
        refine ⟨congrArg (c :: ·) hs, fun d hd => ?_⟩
        rcases List.mem_cons.mp hd with rfl | hd
        · exact hc
        · exact hall d hd
      · exact ⟨rfl, nofun⟩

/-- What `parse_cell_ref` has read, in front of what follows. -/
structure ReadAs (s : Text) (r : CellRefParts) (letters digits rest : Text) : Prop where
  text : s = dollarText r.colAbs ++ (letters ++ (dollarText r.rowAbs ++ (digits ++ rest)))
  letters_ne : letters ≠ []
  letters_alpha : ∀ c ∈ letters, c.isAlpha = true
  col : columnIndex letters = some r.col
  digits_ne : digits ≠ []
  digits_digit : ∀ c ∈ digits, c.isDigit = true
  row : Nat.ofDigitChars 10 digits 0 = r.row
  ends : rest.head?.any Char.isAlphanum = false

lemma parseCellRef_eq_some {s rest : Text} {r : CellRefParts}
    (h : parseCellRef s = some (r, rest)) : ∃ letters digits, ReadAs s r letters digits rest := by
  unfold parseCellRef at h
  dsimp only at h
  split_ifs at h with hno hno' hzero
  obtain ⟨hletters, halpha⟩ := takeAtMost_eq Char.isAlpha 3 (dollar s).2
  obtain ⟨hdigits, hdigit⟩ := takeAtMost_eq Char.isDigit 7
    (dollar (takeAtMost Char.isAlpha 3 (dollar s).2).2).2
  obtain ⟨col, hcol, heq⟩ := Option.map_eq_some_iff.mp h
  obtain ⟨rfl, rfl⟩ := Prod.mk.inj heq
  rw [not_or] at hno hno'
  refine ⟨_, _, ?_, hno.1, halpha, hcol, hno'.1, hdigit, rfl, Bool.eq_false_of_not_eq_true hno'.2⟩
  rw [← hdigits, ← dollar_eq (takeAtMost Char.isAlpha 3 (dollar s).2).2, ← hletters]
  exact dollar_eq s

lemma ReadAs.lt {s letters digits rest : Text} {r : CellRefParts}
    (h : ReadAs s r letters digits rest) : rest.length < s.length := by
  have hpos := List.length_pos_iff.mpr h.letters_ne
  rw [h.text]
  simp only [List.length_append]
  omega

lemma ReadAs.suffix {s letters digits rest : Text} {r : CellRefParts}
    (h : ReadAs s r letters digits rest) : rest <:+ s :=
  ⟨dollarText r.colAbs ++ letters ++ dollarText r.rowAbs ++ digits, by
    rw [h.text]
    simp only [List.append_assoc]⟩

/-- Two runs of one kind that end at the same place. -/
lemma run_append_inj {p : Char → Bool} {u v x y : Text} (h : u ++ x = v ++ y)
    (hu : ∀ c ∈ u, p c = true) (hv : ∀ c ∈ v, p c = true) (hx : x.head?.any p = false)
    (hy : y.head?.any p = false) : u = v ∧ x = y := by
  have hnil : ∀ {z : Text}, z.head?.any p = false → z.takeWhile p = [] := by
    intro z hz
    cases z with
    | nil => rfl
    | cons c z => exact List.takeWhile_cons_of_neg (by simpa using hz)
  have htake := congrArg (List.takeWhile p) h
  rw [List.takeWhile_append_of_pos hu, List.takeWhile_append_of_pos hv, hnil hx, hnil hy,
    List.append_nil, List.append_nil] at htake
  subst htake
  exact ⟨rfl, List.append_cancel_left h⟩

lemma any_isDigit_of_any_isAlphanum {s : Text} (h : s.head?.any Char.isAlphanum = false) :
    s.head?.any Char.isDigit = false := by
  cases s with
  | nil => rfl
  | cons c s =>
    have hc : c.isAlphanum = false := h
    cases hd : c.isDigit with
    | false => exact hd
    | true => rw [isAlphanum_of_isDigit hd] at hc; cases hc

/-- Behind the letters of a reference no letter stands. -/
lemma any_isAlpha_digits (rowAbs : Bool) {digits : Text} (hne : digits ≠ [])
    (hdigit : ∀ c ∈ digits, c.isDigit = true) (rest : Text) :
    (dollarText rowAbs ++ (digits ++ rest)).head?.any Char.isAlpha = false := by
  cases rowAbs with
  | true => rfl
  | false =>
    obtain ⟨d, ds, rfl⟩ := List.exists_cons_of_ne_nil hne
    exact CellRef.not_isAlpha_of_isDigit (hdigit d List.mem_cons_self)

/-- A reference that is read where another one is written is that one. -/
lemma ReadAs.eq_refText {s letters digits rest out : Text} {r : CellRefParts} {col row : ℕ}
    (h : ReadAs s r letters digits rest) (hcol : col < 2 ^ 32)
    (heq : refText r.colAbs col r.rowAbs row ++ out = s)
    (hout : out.head?.any Char.isAlphanum = false) :
    col = r.col ∧ row = r.row ∧ out = rest := by
  rw [h.text, refText, List.append_assoc, List.append_assoc, List.append_assoc] at heq
  have hdigits : ∀ c ∈ Nat.toDigits 10 row, c.isDigit = true := fun c hc =>
    Nat.isDigit_of_mem_toDigits (by decide) (by decide) hc
  obtain ⟨hname, hrest⟩ := run_append_inj (List.append_cancel_left heq)
    (columnLetters_alpha col col) h.letters_alpha
    (any_isAlpha_digits r.rowAbs Nat.toDigits_ne_nil hdigits out)
    (any_isAlpha_digits r.rowAbs h.digits_ne h.digits_digit rest)
  obtain ⟨hrow, hout⟩ := run_append_inj (List.append_cancel_left hrest) hdigits h.digits_digit
    (any_isDigit_of_any_isAlphanum hout) (any_isDigit_of_any_isAlphanum h.ends)
  refine ⟨?_, ?_, hout⟩
  · have hindex := columnIndex_columnLetters (le_refl col) hcol
    rw [← columnName, hname, h.col] at hindex
    exact (Option.some.inj hindex).symm
  · rw [← h.row, ← hrow, Nat.ofDigitChars_ten_toDigits]

end Orchid.Sheet
