import Mathlib.Data.List.Infix
import Mathlib.Data.List.TakeWhile
import Orchid.Sheet.Reference

/-!
# Moving a formula

A formula is a list of tokens. What the scanner does to its text is what moving its references
does if and only if the references that it reads within other words stay as they are.
-/

namespace Orchid.Sheet

/-! ### Moving a reference -/

lemma moved_bounds {abs : Bool} {n m max : ℕ} {d : ℤ} (hn : 1 ≤ n ∧ n ≤ max)
    (h : moved abs n d max = some m) : 1 ≤ m ∧ m ≤ max := by
  unfold moved at h
  split_ifs at h with habs hrange
  · rwa [← Option.some.inj h]
  · obtain rfl := Option.some.inj h
    omega

lemma moved_zero {abs : Bool} {n max : ℕ} (hn : 1 ≤ n ∧ n ≤ max) : moved abs n 0 max = some n := by
  unfold moved
  split_ifs with habs hrange
  · rfl
  · refine congrArg some ?_
    omega
  · omega

lemma moved_moved {abs : Bool} {n m max : ℕ} {d : ℤ} (h : moved abs n d max = some m) (d' : ℤ) :
    moved abs m d' max = moved abs n (d + d') max := by
  unfold moved at h ⊢
  split_ifs at h ⊢ with habs hrange hrange' hsum
  · exact h.symm
  · obtain rfl := Option.some.inj h
    congr 1
    omega
  · obtain rfl := Option.some.inj h
    omega
  · obtain rfl := Option.some.inj h
    omega
  · rfl

/-- Where a part stays, only the other shift counts. -/
lemma moved_of_stays {abs : Bool} {n max : ℕ} {d : ℤ} (h : moved abs n d max = some n) (d' : ℤ) :
    moved abs n d' max = moved abs n (d + d') max := moved_moved h d'

lemma moved_zero_of_stays {abs : Bool} {n max : ℕ} {d : ℤ} (h : moved abs n d max = some n) :
    moved abs n 0 max = some n := by
  rw [moved_of_stays h 0, Int.add_zero, h]

namespace CellRef

/-- A reference moved, if it stays on the sheet. -/
def shift (dcol drow : ℤ) (r : CellRef) : Option CellRef :=
  match hcol : moved r.colAbs r.col dcol maxColumn, hrow : moved r.rowAbs r.row drow maxRow with
  | some col, some row =>
    some (canonical r.colAbs col r.rowAbs row (moved_bounds ⟨r.col_pos, r.col_le⟩ hcol)
      (moved_bounds ⟨r.row_pos, r.row_le⟩ hrow))
  | _, _ => none

lemma shift_eq_some {dcol drow : ℤ} {r r' : CellRef} :
    r.shift dcol drow = some r' ↔
      ∃ col row hcol hrow, moved r.colAbs r.col dcol maxColumn = some col ∧
        moved r.rowAbs r.row drow maxRow = some row ∧
          r' = canonical r.colAbs col r.rowAbs row hcol hrow := by
  unfold shift
  constructor
  · intro h
    split at h
    · rename_i col row hcol hrow
      obtain rfl := Option.some.inj h
      exact ⟨col, row, _, _, hcol, hrow, rfl⟩
    · cases h
  · rintro ⟨col, row, hcol, hrow, hmoved, hmoved', rfl⟩
    split
    · rename_i col' row' hcol' hrow'
      rw [hmoved] at hcol'
      rw [hmoved'] at hrow'
      obtain rfl := Option.some.inj hcol'
      obtain rfl := Option.some.inj hrow'
      rfl
    · rename_i hno
      exact absurd hmoved' (hno _ _ hmoved)

lemma shift_eq_none {dcol drow : ℤ} {r : CellRef} :
    r.shift dcol drow = none ↔
      moved r.colAbs r.col dcol maxColumn = none ∨ moved r.rowAbs r.row drow maxRow = none := by
  unfold shift
  split
  · rename_i col row hcol hrow
    refine iff_of_false nofun ?_
    rintro (h | h)
    · rw [hcol] at h
      cases h
    · rw [hrow] at h
      cases h
  · rename_i hno
    refine iff_of_true rfl ?_
    cases hcol : moved r.colAbs r.col dcol maxColumn with
    | none => exact Or.inl rfl
    | some col =>
      cases hrow : moved r.rowAbs r.row drow maxRow with
      | none => exact Or.inr rfl
      | some row => exact absurd hrow (hno _ _ hcol)

/-- The code moves the parts of a reference. -/
lemma shiftCellRef_parts (dcol drow : ℤ) (r : CellRef) :
    shiftCellRef r.parts dcol drow = (r.shift dcol drow).map text := by
  unfold shiftCellRef
  cases hshift : r.shift dcol drow with
  | none =>
    rcases shift_eq_none.mp hshift with h | h
    · show (moved r.colAbs r.col dcol maxColumn).bind _ = none
      rw [h]
      rfl
    · show (moved r.colAbs r.col dcol maxColumn).bind (fun col =>
        (moved r.rowAbs r.row drow maxRow).bind _) = none
      rw [h]
      cases moved r.colAbs r.col dcol maxColumn <;> rfl
  | some r' =>
    obtain ⟨col, row, hcol, hrow, hmoved, hmoved', rfl⟩ := shift_eq_some.mp hshift
    show (moved r.colAbs r.col dcol maxColumn).bind (fun col =>
      (moved r.rowAbs r.row drow maxRow).bind fun row =>
        some (refText r.colAbs col r.rowAbs row)) = _
    rw [hmoved, hmoved']
    rfl

lemma shift_shift {dcol drow : ℤ} {r r' : CellRef} (h : r.shift dcol drow = some r')
    (dcol' drow' : ℤ) : r'.shift dcol' drow' = r.shift (dcol + dcol') (drow + drow') := by
  obtain ⟨col, row, hcol, hrow, hmoved, hmoved', rfl⟩ := shift_eq_some.mp h
  refine Option.ext fun r'' => ?_
  rw [shift_eq_some, shift_eq_some]
  simp only [canonical, moved_moved hmoved, moved_moved hmoved']

/-- A reference in capital letters and without leading zeros. -/
def Written (r : CellRef) : Prop :=
  r.letters = columnName r.col ∧ r.digits = Nat.toDigits 10 r.row

lemma shift_zero {r : CellRef} (h : r.Written) : r.shift 0 0 = some r := by
  refine shift_eq_some.mpr ⟨r.col, r.row, ⟨r.col_pos, r.col_le⟩, ⟨r.row_pos, r.row_le⟩,
    moved_zero ⟨r.col_pos, r.col_le⟩, moved_zero ⟨r.row_pos, r.row_le⟩, ?_⟩
  cases r
  obtain ⟨hletters, hdigits⟩ := h
  dsimp only at hletters hdigits
  subst hletters
  subst hdigits
  rfl

end CellRef

/-! ### Tokens -/

/-- A token of a formula. A word is a name, a number or the name of a function or a sheet. -/
inductive Token
  | quoted (q : Char) (content : Text)
  | ref (r : CellRef)
  | word (w : Text)
  | other (c : Char)

/-- What stands in quotes, with the quotes inside doubled. -/
def doubled (q : Char) (content : Text) : Text :=
  content.flatMap fun c => if c = q then [q, q] else [c]

namespace Token

def text : Token → Text
  | quoted q content => q :: (doubled q content ++ [q])
  | ref r => r.text
  | word w => w
  | other c => [c]

/-- A token of the moved formula. -/
def shift (dcol drow : ℤ) : Token → Option Token
  | ref r => (r.shift dcol drow).map ref
  | t => some t

end Token

/-- The text of a formula. -/
def render (ts : List Token) : Text := ts.flatMap Token.text

/-- The formula with its references moved and written anew. -/
def shiftTokens (dcol drow : ℤ) (ts : List Token) : Option (List Token) :=
  ts.mapM (Token.shift dcol drow)

/-- The formula with its references moved, if they are moved at all. -/
def moveTokens (dcol drow : ℤ) (ts : List Token) : Option (List Token) :=
  if dcol = 0 ∧ drow = 0 then some ts else shiftTokens dcol drow ts

/-- Whether a formula goes on with a word or a reference. -/
def startsWord : List Token → Bool
  | .word _ :: _ => true
  | .ref _ :: _ => true
  | _ => false

/-- Tokens that are read apart: words and texts in quotes do not touch, and no sheet has a sheet. -/
def WellFormed : List Token → Prop
  | [] => True
  | .quoted q _ :: ts =>
    (q = '"' ∨ q = '\'') ∧ (∀ content ts', ts ≠ .quoted q content :: ts') ∧ WellFormed ts
  | .ref _ :: ts => startsWord ts = false ∧ (∀ ts', ts ≠ .other '!' :: ts') ∧ WellFormed ts
  | .word w :: ts =>
    w ≠ [] ∧ (∀ c ∈ w, wordChar c = true) ∧ startsWord ts = false ∧ WellFormed ts
  | .other c :: ts =>
    wordChar c = false ∧ c ≠ '"' ∧ c ≠ '\'' ∧
      (c = '!' → ∀ w ts', ts ≠ .word w :: .other '!' :: ts') ∧ WellFormed ts

/-- The name of a sheet in front of its `!`. -/
def Qualifies (w : Text) (ts : List Token) : Prop :=
  (∀ c ∈ w, sheetChar c = true) ∧ ∃ ts', ts = .other '!' :: ts'

/-- Whether the `!` of a sheet comes next. -/
def startsBang : List Token → Bool
  | .other c :: _ => c = '!'
  | _ => false

lemma startsBang_iff {ts : List Token} : startsBang ts = true ↔ ∃ ts', ts = .other '!' :: ts' := by
  cases ts with
  | nil => simp [startsBang]
  | cons t ts => cases t <;> simp [startsBang]

lemma qualifies_iff {w : Text} {ts : List Token} :
    Qualifies w ts ↔ (startsBang ts && w.all sheetChar) = true := by
  rw [Bool.and_eq_true, List.all_eq_true, startsBang_iff, and_comm, Qualifies]

/-- A shift leaves a reference that is read as it stands: its relative parts are not moved, and it
is written in capital letters and without leading zeros. -/
structure Stays (dcol drow : ℤ) (s : Text) (r : CellRefParts) (rest : Text) : Prop where
  col : moved r.colAbs r.col dcol maxColumn = some r.col
  row : moved r.rowAbs r.row drow maxRow = some r.row
  text : s = refText r.colAbs r.col r.rowAbs r.row ++ rest

/-- From left to right a word holds no reference but such as stay, up to the name of a sheet. -/
inductive Kept (dcol drow : ℤ) (bang : Bool) : Text → Prop
  | nil : Kept dcol drow bang []
  | sheet {s} : (bang && s.all sheetChar) = true → Kept dcol drow bang s
  | letter {c s} : parseCellRef (c :: s) = none → Kept dcol drow bang s →
      Kept dcol drow bang (c :: s)
  | ref {s r rest} : parseCellRef s = some (r, rest) → Stays dcol drow s r rest →
      Kept dcol drow bang rest → Kept dcol drow bang s

/-- All words of a formula are kept. -/
def WordsKept (dcol drow : ℤ) : List Token → Prop
  | [] => True
  | .word w :: ts => Kept dcol drow (startsBang ts) w ∧ WordsKept dcol drow ts
  | _ :: ts => WordsKept dcol drow ts

/-! ### Where a word ends -/

lemma wordChar_of_sheetChar (c : Char) (h : sheetChar c = true) : wordChar c = true := by
  unfold sheetChar at h
  rw [Bool.or_eq_true, Bool.or_eq_true] at h
  rcases h with (h | h) | h
  · exact wordChar_of_isAlphanum h
  · rw [beq_iff_eq.mp h]
    decide
  · rw [beq_iff_eq.mp h]
    decide

lemma sheetChar_of_sheetStart (c : Char) (h : sheetStart c = true) : sheetChar c = true := by
  unfold sheetStart at h
  unfold sheetChar
  rw [Bool.or_eq_true] at h
  rcases h with h | h
  · rw [isAlphanum_of_isAlpha h]
    rfl
  · rw [h, Bool.or_true]
    rfl

lemma wordChar_of_sheetStart (c : Char) (h : sheetStart c = true) : wordChar c = true :=
  wordChar_of_sheetChar c (sheetChar_of_sheetStart c h)

lemma render_cons (t : Token) (ts : List Token) : render (t :: ts) = t.text ++ render ts :=
  List.flatMap_cons

lemma render_ends {ts : List Token} (h : WellFormed ts) (hstart : startsWord ts = false) :
    Ends (render ts) := by
  intro c hc
  cases ts with
  | nil => cases hc
  | cons t ts =>
    cases t with
    | quoted q content =>
      obtain rfl : q = c := Option.some.inj hc
      rcases h.1 with rfl | rfl
      · decide
      · decide
    | ref r => cases hstart
    | word w => cases hstart
    | other d =>
      obtain rfl : d = c := Option.some.inj hc
      exact h.1

/-- An exclamation mark stands as a token of its own. -/
lemma render_bang {ts : List Token} (h : WellFormed ts) (hstart : startsWord ts = false)
    {rest : Text} (hrest : render ts = '!' :: rest) : ∃ ts', ts = .other '!' :: ts' := by
  cases ts with
  | nil => cases hrest
  | cons t ts =>
    cases t with
    | quoted q content =>
      obtain rfl : q = '!' := (List.cons.inj hrest).1
      rcases h.1 with h | h
      · cases h
      · cases h
    | ref r => cases hstart
    | word w => cases hstart
    | other d =>
      obtain rfl : d = '!' := (List.cons.inj hrest).1
      exact ⟨ts, rfl⟩

lemma sheetPart_of_not {c : Char} (h : sheetStart c = false) (s : Text) :
    sheetPart (c :: s) = ([], c :: s) := by
  unfold sheetPart
  rw [if_neg]
  show ¬ sheetStart c = true
  rw [h]
  exact Bool.false_ne_true

/-- The name of a sheet. -/
lemma sheetPart_bang {c : Char} {s : Text} (hc : sheetStart c = true)
    (hs : ∀ d ∈ c :: s, sheetChar d = true) (rest : Text) :
    sheetPart (c :: s ++ '!' :: rest) = (c :: s ++ ['!'], rest) := by
  have hbang : sheetChar '!' = false := by decide
  have hdrop : (c :: s ++ '!' :: rest).dropWhile sheetChar = '!' :: rest := by
    rw [List.dropWhile_append_of_pos hs, List.dropWhile_cons_of_neg (by rw [hbang]; decide)]
  have htake : (c :: s ++ '!' :: rest).takeWhile sheetChar = c :: s := by
    rw [List.takeWhile_append_of_pos hs, List.takeWhile_cons_of_neg (by rw [hbang]; decide),
      List.append_nil]
  unfold sheetPart
  rw [if_pos (by exact hc), hdrop, htake]
  rfl

/-- No sheet is named where no `!` follows. -/
lemma sheetPart_of_word {s : Text} {ts : List Token} (hs : ∀ d ∈ s, wordChar d = true)
    (hts : WellFormed ts) (hstart : startsWord ts = false) (hno : ¬ Qualifies s ts) :
    sheetPart (s ++ render ts) = ([], s ++ render ts) := by
  have hends := render_ends hts hstart
  unfold sheetPart
  split_ifs with hhead
  · split
    · rename_i rest heq
      exfalso
      rw [List.dropWhile_append] at heq
      split_ifs at heq with hempty
      · have hall : ∀ d ∈ s, sheetChar d = true :=
          List.dropWhile_eq_nil_iff.mp (List.isEmpty_iff.mp hempty)
        cases hrender : render ts with
        | nil =>
          rw [hrender] at heq
          cases heq
        | cons d rest' =>
          have hd : sheetChar d = false := by
            cases hd : sheetChar d with
            | false => rfl
            | true =>
              have hword := hends d (by rw [hrender]; rfl)
              rw [wordChar_of_sheetChar d hd] at hword
              cases hword
          rw [hrender, List.dropWhile_cons_of_neg (by rw [hd]; decide)] at heq
          obtain ⟨ts', hts'⟩ := render_bang hts hstart (hrender.trans heq)
          exact hno ⟨hall, ts', hts'⟩
      · obtain ⟨d, rest', hdrop⟩ := List.exists_cons_of_ne_nil fun hnil =>
          hempty (List.isEmpty_iff.mpr hnil)
        rw [hdrop] at heq
        obtain rfl : d = '!' := (List.cons.inj heq).1
        have hmem : '!' ∈ s := (List.dropWhile_suffix _).subset (by
          rw [hdrop]
          exact List.mem_cons_self)
        exact absurd (hs '!' hmem) (by decide)
    · rfl
  · rfl

/-- What stands at a place in a word. -/
lemma shiftRefAt_of_word {s : Text} {ts : List Token} (hs : ∀ d ∈ s, wordChar d = true)
    (hts : WellFormed ts) (hstart : startsWord ts = false) (hno : ¬ Qualifies s ts)
    (dcol drow : ℤ) :
    shiftRefAt (s ++ render ts) dcol drow =
      (parseCellRef s).map fun r => (r.2 ++ render ts, shiftCellRef r.1 dcol drow) := by
  unfold shiftRefAt
  rw [sheetPart_of_word hs hts hstart hno]
  dsimp only
  rw [parseCellRef_append (render_ends hts hstart), Option.map_map]
  refine congrArg (fun f => Option.map f (parseCellRef s)) (funext fun r => ?_)
  show (r.2 ++ render ts, (shiftCellRef r.1 dcol drow).map fun cell => [] ++ cell) = _
  cases shiftCellRef r.1 dcol drow <;> rfl

lemma takeQuoted_end {q : Char} {rest : Text} (hrest : rest.head? ≠ some q) :
    takeQuoted q (q :: rest) = ([q], rest) := by
  cases rest with
  | nil => simp [takeQuoted]
  | cons d rest =>
    have hd : d ≠ q := fun heq => hrest (by rw [heq]; rfl)
    simp [takeQuoted, hd]

lemma takeQuoted_double (q : Char) (s : Text) :
    takeQuoted q (q :: q :: s) = (q :: q :: (takeQuoted q s).1, (takeQuoted q s).2) := by
  rw [takeQuoted.eq_def]
  dsimp only
  rw [if_pos rfl, if_pos rfl]

lemma doubled_quote (q : Char) (content : Text) :
    doubled q (q :: content) = q :: q :: doubled q content := by
  unfold doubled
  rw [List.flatMap_cons, if_pos rfl]
  rfl

lemma doubled_other {q c : Char} (h : c ≠ q) (content : Text) :
    doubled q (c :: content) = c :: doubled q content := by
  unfold doubled
  rw [List.flatMap_cons, if_neg h]
  rfl

lemma takeQuoted_other {q c : Char} (h : c ≠ q) (s : Text) :
    takeQuoted q (c :: s) = (c :: (takeQuoted q s).1, (takeQuoted q s).2) := by
  rw [takeQuoted.eq_def]
  dsimp only
  rw [if_neg h]

/-- What stands in quotes is taken whole. -/
lemma takeQuoted_doubled {q : Char} (content : Text) {rest : Text} (hrest : rest.head? ≠ some q) :
    takeQuoted q (doubled q content ++ q :: rest) = (doubled q content ++ [q], rest) := by
  induction content with
  | nil => exact takeQuoted_end hrest
  | cons c content ih =>
    by_cases hc : c = q
    · rw [hc, doubled_quote]
      show takeQuoted q (q :: q :: (doubled q content ++ q :: rest)) = _
      rw [takeQuoted_double, ih]
      rfl
    · rw [doubled_other hc]
      show takeQuoted q (c :: (doubled q content ++ q :: rest)) = _
      rw [takeQuoted_other hc, ih]
      rfl

/-! ### The scanner -/

lemma wordChar_ne_quote {c : Char} (h : wordChar c = true) : ¬ (c = '"' ∨ c = '\'') := by
  rintro (rfl | rfl)
  · exact absurd h (by decide)
  · exact absurd h (by decide)

section Scanning

variable (dcol drow : ℤ)

/-- What the scanner gives for a word, by at most so many steps. -/
def scanWord (bang : Bool) : ℕ → Text → Option Text
  | 0, _ => some []
  | _ + 1, [] => some []
  | n + 1, c :: s =>
    if bang && (c :: s).all sheetChar then some (c :: s)
    else
      match parseCellRef (c :: s) with
      | some r => (shiftCellRef r.1 dcol drow).bind fun cell =>
        (scanWord bang n r.2).map fun out => cell ++ out
      | none => (scanWord bang n s).map fun out => c :: out

/-- What the scanner gives for a formula. -/
def scanTokens : List Token → Option Text
  | [] => some []
  | .word w :: ts => (scanWord dcol drow (startsBang ts) w.length w).bind fun w' =>
    (scanTokens ts).map fun out => w' ++ out
  | .ref r :: ts => (r.shift dcol drow).bind fun r' =>
    (scanTokens ts).map fun out => r'.text ++ out
  | .quoted q content :: ts => (scanTokens ts).map fun out => (Token.quoted q content).text ++ out
  | .other c :: ts => (scanTokens ts).map fun out => c :: out

/-- The rest of a word in front of the rest of a formula. -/
def Within (s : Text) (ts : List Token) : Prop :=
  s = [] ∨ (∀ c ∈ s, wordChar c = true) ∧ startsWord ts = false

/-- What the scanner gives for the rest of a word and of a formula. -/
def Scans (steps : ℕ) : Prop :=
  ∀ s ts n, WellFormed ts → Within s ts → s.length ≤ n → (s ++ render ts).length ≤ steps →
    shiftLoop dcol drow steps (s ++ render ts) =
      (scanWord dcol drow (startsBang ts) n s).bind fun s' =>
        (scanTokens dcol drow ts).map fun out => s' ++ out

end Scanning

variable {dcol drow : ℤ}

lemma Within.suffix {s s' : Text} {ts : List Token} (h : Within s ts) (hs : s' <:+ s) :
    Within s' ts := by
  rcases h with rfl | ⟨hall, hstart⟩
  · exact .inl (List.suffix_nil.mp hs)
  · exact .inr ⟨fun c hc => hall c (hs.subset hc), hstart⟩

@[simp] lemma scanWord_nil (bang : Bool) (n : ℕ) : scanWord dcol drow bang n [] = some [] := by
  cases n <;> rfl

/-- Nothing of a word in front of the rest of a formula. -/
lemma some_nil_bind (out : Option Text) :
    ((some []).bind fun s' : Text => out.map fun out => s' ++ out) = out := by
  cases out <;> rfl

/-- At the end of a token the scanner goes on with the rest of the formula. -/
lemma Scans.rest {steps : ℕ} (ih : Scans dcol drow steps) {ts : List Token} (hts : WellFormed ts)
    (hlen : (render ts).length ≤ steps) :
    shiftLoop dcol drow steps (render ts) = scanTokens dcol drow ts := by
  have hrest := ih [] ts 0 hts (.inl rfl) le_rfl hlen
  rwa [scanWord_nil, some_nil_bind, List.nil_append] at hrest

lemma scanWord_sheet {bang : Bool} {s : Text} (h : (bang && s.all sheetChar) = true) {n : ℕ}
    (hn : s.length ≤ n) : scanWord dcol drow bang n s = some s := by
  cases s with
  | nil => exact scanWord_nil bang n
  | cons c s =>
    obtain ⟨n, rfl⟩ : ∃ m, n = m + 1 := Nat.exists_eq_succ_of_ne_zero (by
      rintro rfl
      exact absurd hn (Nat.not_succ_le_zero _))
    rw [scanWord, if_pos h]

lemma shiftTokens_cons (t : Token) (ts : List Token) :
    shiftTokens dcol drow (t :: ts) =
      (t.shift dcol drow).bind fun t' => (shiftTokens dcol drow ts).map (t' :: ·) := by
  unfold shiftTokens
  rw [List.mapM_cons]
  show (t.shift dcol drow).bind _ = _
  refine congrArg _ (funext fun t' => ?_)
  show (ts.mapM (Token.shift dcol drow)).bind _ = _
  cases ts.mapM (Token.shift dcol drow) <;> rfl

lemma shiftLoop_none {steps : ℕ} {c : Char} {s : Text} (hquote : ¬ (c = '"' ∨ c = '\''))
    (h : shiftRefAt (c :: s) dcol drow = none) :
    shiftLoop dcol drow (steps + 1) (c :: s) =
      (shiftLoop dcol drow steps s).map fun out => c :: out := by
  rw [shiftLoop, if_neg hquote, h]

lemma shiftLoop_some {steps : ℕ} {c : Char} {s rest : Text} {shifted : Option Text}
    (hquote : ¬ (c = '"' ∨ c = '\'')) (h : shiftRefAt (c :: s) dcol drow = some (rest, shifted)) :
    shiftLoop dcol drow (steps + 1) (c :: s) =
      shifted.bind fun shifted => (shiftLoop dcol drow steps rest).map fun out =>
        shifted ++ out := by
  rw [shiftLoop, if_neg hquote, h]
  cases shifted with
  | none => rfl
  | some shifted =>
    show (shiftLoop dcol drow steps rest).bind _ = _
    cases shiftLoop dcol drow steps rest <;> rfl

/-- One step at a character that begins no reference. -/
lemma Scans.step {steps n : ℕ} (ih : Scans dcol drow steps) {c : Char} {s : Text} {ts : List Token}
    (hts : WellFormed ts) (hwithin : Within s ts) (hn : s.length ≤ n)
    (hlen : (c :: s ++ render ts).length ≤ steps + 1) (hquote : ¬ (c = '"' ∨ c = '\''))
    (h : shiftRefAt (c :: s ++ render ts) dcol drow = none) :
    shiftLoop dcol drow (steps + 1) (c :: s ++ render ts) =
      ((scanWord dcol drow (startsBang ts) n s).map fun out => c :: out).bind fun s' =>
        (scanTokens dcol drow ts).map fun out => s' ++ out := by
  rw [List.cons_append] at h ⊢
  rw [shiftLoop_none hquote h, ih s ts n hts hwithin hn (Nat.le_of_succ_le_succ hlen)]
  cases scanWord dcol drow (startsBang ts) n s with
  | none => rfl
  | some s' =>
    show ((scanTokens dcol drow ts).map _).map _ = (scanTokens dcol drow ts).map _
    rw [Option.map_map]
    rfl

/-- What is read behind the `!` of a sheet. -/
lemma parseCellRef_render {ts : List Token} (hts : WellFormed ts) :
    (∃ r ts', ts = .ref r :: ts' ∧ parseCellRef (render ts) = some (r.parts, render ts')) ∨
      (∃ w ts', ts = .word w :: ts' ∧
        parseCellRef (render ts) = (parseCellRef w).map fun r => (r.1, r.2 ++ render ts')) ∨
      parseCellRef (render ts) = none := by
  cases ts with
  | nil => exact .inr (.inr rfl)
  | cons t ts =>
    cases t with
    | quoted q content => exact .inr (.inr (parseCellRef_of_ends (render_ends hts rfl)))
    | other c => exact .inr (.inr (parseCellRef_of_ends (render_ends hts rfl)))
    | ref r =>
      refine .inl ⟨r, ts, rfl, ?_⟩
      rw [render_cons]
      show parseCellRef (r.text ++ render ts) = _
      rw [parseCellRef_append (render_ends hts.2.2 hts.1), r.parseCellRef_text]
      rfl
    | word w =>
      refine .inr (.inl ⟨w, ts, rfl, ?_⟩)
      rw [render_cons]
      exact parseCellRef_append (render_ends hts.2.2.2 hts.2.2.1) w

/-- One step at the name of a sheet in front of a reference. -/
lemma Scans.sheet_ref {steps : ℕ} (ih : Scans dcol drow steps) {c : Char} {s : Text} {r : CellRef}
    {ts : List Token} (hts : WellFormed (.ref r :: ts))
    (hlen : (c :: s ++ '!' :: render (.ref r :: ts)).length ≤ steps + 1)
    (hquote : ¬ (c = '"' ∨ c = '\''))
    (hat : shiftRefAt (c :: s ++ '!' :: render (.ref r :: ts)) dcol drow = some (render ts,
      (shiftCellRef r.parts dcol drow).map fun cell => c :: s ++ ['!'] ++ cell)) :
    shiftLoop dcol drow (steps + 1) (c :: s ++ '!' :: render (.ref r :: ts)) =
      (scanTokens dcol drow (.other '!' :: .ref r :: ts)).map fun out => c :: s ++ out := by
  have hrest := ih.rest hts.2.2 (by
    rw [render_cons] at hlen
    simp only [List.length_append, List.length_cons] at hlen
    omega)
  rw [List.cons_append] at hat ⊢
  rw [shiftLoop_some hquote hat, hrest, r.shiftCellRef_parts]
  simp only [scanTokens]
  cases r.shift dcol drow with
  | none => rfl
  | some r' =>
    cases scanTokens dcol drow ts with
    | none => rfl
    | some out => simp

/-- One step at the name of a sheet in front of a word that begins with a reference. -/
lemma Scans.sheet_word {steps : ℕ} (ih : Scans dcol drow steps) {c : Char} {s w : Text}
    {r : CellRefParts × Text} {ts : List Token} (hts : WellFormed (.word w :: ts))
    (hbang : startsBang ts = false) (hread : parseCellRef w = some r)
    (hlen : (c :: s ++ '!' :: render (.word w :: ts)).length ≤ steps + 1)
    (hquote : ¬ (c = '"' ∨ c = '\''))
    (hat : shiftRefAt (c :: s ++ '!' :: render (.word w :: ts)) dcol drow =
      some (r.2 ++ render ts,
        (shiftCellRef r.1 dcol drow).map fun cell => c :: s ++ ['!'] ++ cell)) :
    shiftLoop dcol drow (steps + 1) (c :: s ++ '!' :: render (.word w :: ts)) =
      (scanTokens dcol drow (.other '!' :: .word w :: ts)).map fun out => c :: s ++ out := by
  obtain ⟨hne, hword, hstart, hts⟩ := hts
  obtain ⟨d, w, rfl⟩ := List.exists_cons_of_ne_nil hne
  obtain ⟨letters, digits, hr⟩ := parseCellRef_eq_some hread
  have hlt := hr.lt
  have hrest := ih r.2 ts w.length hts
    (.inr ⟨fun e he => hword e (hr.suffix.subset he), hstart⟩)
    (by simp only [List.length_cons] at hlt; omega) (by
      rw [render_cons] at hlen
      simp only [Token.text, List.length_append, List.length_cons] at hlen hlt ⊢
      omega)
  rw [List.cons_append] at hat ⊢
  rw [shiftLoop_some hquote hat, hrest]
  simp only [scanTokens, List.length_cons, scanWord, hbang, Bool.false_and,
    Bool.false_eq_true, ↓reduceIte, hread]
  cases shiftCellRef r.1 dcol drow with
  | none => rfl
  | some cell =>
    cases scanWord dcol drow false w.length r.2 with
    | none => rfl
    | some out =>
      cases scanTokens dcol drow ts with
      | none => rfl
      | some out' => simp

/-- One step at the name of a sheet. -/
lemma Scans.sheet {steps n : ℕ} (ih : Scans dcol drow steps) {c : Char} {s : Text} {ts : List Token}
    (hts : WellFormed ts) (hwithin : Within (c :: s) ts) (hn : s.length ≤ n)
    (hlen : (c :: s ++ render ts).length ≤ steps + 1) (hquote : ¬ (c = '"' ∨ c = '\''))
    (hqual : Qualifies (c :: s) ts) :
    shiftLoop dcol drow (steps + 1) (c :: s ++ render ts) =
      (scanTokens dcol drow ts).map fun out => c :: s ++ out := by
  have htail : (startsBang ts && s.all sheetChar) = true :=
    qualifies_iff.mp ⟨fun d hd => hqual.1 d (List.mem_cons_of_mem _ hd), hqual.2⟩
  have hpass (h : shiftRefAt (c :: s ++ render ts) dcol drow = none) :
      shiftLoop dcol drow (steps + 1) (c :: s ++ render ts) =
        (scanTokens dcol drow ts).map fun out => c :: s ++ out := by
    rw [ih.step hts (hwithin.suffix (List.suffix_cons c s)) hn hlen hquote h,
      scanWord_sheet htail hn]
    rfl
  cases hc : sheetStart c with
  | false =>
    refine hpass ?_
    have hdollar : c ≠ '$' := by
      rintro rfl
      exact absurd (hqual.1 '$' List.mem_cons_self) (by decide)
    have halpha : c.isAlpha = false := (Bool.or_eq_false_iff.mp hc).1
    unfold shiftRefAt
    rw [List.cons_append, sheetPart_of_not hc]
    dsimp only
    rw [parseCellRef_cons hdollar halpha]
    rfl
  | true =>
    obtain ⟨hall, ts', rfl⟩ := hqual
    obtain ⟨-, -, -, hsheet, hts'⟩ := hts
    have hrender : render (.other '!' :: ts') = '!' :: render ts' := render_cons _ _
    have hpart := sheetPart_bang hc hall (render ts')
    have hat : shiftRefAt (c :: s ++ '!' :: render ts') dcol drow =
        (parseCellRef (render ts')).map fun r =>
          (r.2, (shiftCellRef r.1 dcol drow).map fun cell => c :: s ++ ['!'] ++ cell) := by
      unfold shiftRefAt
      rw [hpart]
    rw [hrender] at hlen hpass ⊢
    rcases parseCellRef_render hts' with
      ⟨r, ts'', rfl, hparse⟩ | ⟨w, ts'', rfl, hparse⟩ | hparse
    · rw [hparse] at hat
      exact ih.sheet_ref hts' hlen hquote hat
    · have hbang : startsBang ts'' = false := by
        rw [← Bool.not_eq_true, startsBang_iff]
        rintro ⟨ts, rfl⟩
        exact hsheet rfl w ts rfl
      cases hread : parseCellRef w with
      | none =>
        rw [hread] at hparse
        exact hpass (by rw [hat, hparse]; rfl)
      | some r =>
        rw [hparse, hread] at hat
        exact ih.sheet_word hts' hbang hread hlen hquote hat
    · exact hpass (by rw [hat, hparse]; rfl)

/-- One step in a word. -/
lemma Scans.word {steps n : ℕ} (ih : Scans dcol drow steps) {c : Char} {s : Text} {ts : List Token}
    (hts : WellFormed ts) (hwithin : Within (c :: s) ts) (hn : (c :: s).length ≤ n)
    (hlen : (c :: s ++ render ts).length ≤ steps + 1) :
    shiftLoop dcol drow (steps + 1) (c :: s ++ render ts) =
      (scanWord dcol drow (startsBang ts) n (c :: s)).bind fun s' =>
        (scanTokens dcol drow ts).map fun out => s' ++ out := by
  obtain ⟨hs, hstart⟩ := hwithin.resolve_left (List.cons_ne_nil _ _)
  have hquote := wordChar_ne_quote (hs c List.mem_cons_self)
  obtain ⟨n, rfl⟩ : ∃ m, n = m + 1 := Nat.exists_eq_succ_of_ne_zero (by
    rintro rfl
    exact absurd hn (Nat.not_succ_le_zero _))
  have hn' : s.length ≤ n := Nat.le_of_succ_le_succ hn
  by_cases hqual : Qualifies (c :: s) ts
  · rw [ih.sheet hts hwithin hn' hlen hquote hqual, scanWord_sheet (qualifies_iff.mp hqual) hn]
    rfl
  · have hat := shiftRefAt_of_word hs hts hstart hqual dcol drow
    rw [scanWord, if_neg (mt qualifies_iff.mpr hqual)]
    cases hread : parseCellRef (c :: s) with
    | none =>
      rw [hread] at hat
      exact ih.step hts (hwithin.suffix (List.suffix_cons c s)) hn' hlen hquote hat
    | some r =>
      obtain ⟨r, rest⟩ := r
      obtain ⟨letters, digits, hr⟩ := parseCellRef_eq_some hread
      have hlt := hr.lt
      have hrest := ih rest ts n hts (hwithin.suffix hr.suffix)
        (by simp only [List.length_cons] at hlt; omega) (by
          simp only [List.length_append, List.length_cons] at hlen hlt ⊢
          omega)
      rw [hread] at hat
      rw [List.cons_append] at hat ⊢
      rw [shiftLoop_some hquote hat, hrest]
      dsimp only
      cases shiftCellRef r dcol drow with
      | none => rfl
      | some cell =>
        cases scanWord dcol drow (startsBang ts) n rest with
        | none => rfl
        | some out =>
          cases scanTokens dcol drow ts with
          | none => rfl
          | some out' => simp

lemma wordChar_dollarText (abs : Bool) : ∀ d ∈ dollarText abs, wordChar d = true := by
  cases abs with
  | true =>
    intro d hd
    obtain rfl := List.mem_singleton.mp hd
    decide
  | false => exact nofun

lemma wordChar_refText (colAbs : Bool) (col : ℕ) (rowAbs : Bool) (row : ℕ) :
    ∀ d ∈ refText colAbs col rowAbs row, wordChar d = true := by
  intro d hd
  unfold refText at hd
  rcases List.mem_append.mp hd with hd | hd
  · rcases List.mem_append.mp hd with hd | hd
    · exact wordChar_dollarText _ d hd
    · exact wordChar_of_isAlpha d (columnLetters_alpha _ _ d hd)
  · rcases List.mem_append.mp hd with hd | hd
    · exact wordChar_dollarText _ d hd
    · exact wordChar_of_isDigit d (Nat.isDigit_of_mem_toDigits (by decide) (by decide) hd)

lemma CellRef.wordChar_text (r : CellRef) : ∀ d ∈ r.text, wordChar d = true := by
  intro d hd
  unfold CellRef.text at hd
  rcases List.mem_append.mp hd with hd | hd
  · rcases List.mem_append.mp hd with hd | hd
    · exact wordChar_dollarText _ d hd
    · exact wordChar_of_isAlpha d (r.letters_alpha d hd)
  · rcases List.mem_append.mp hd with hd | hd
    · exact wordChar_dollarText _ d hd
    · exact wordChar_of_isDigit d (r.digits_digit d hd)

/-- A reference begins with a dollar sign or a letter. -/
lemma CellRef.exists_text (r : CellRef) :
    ∃ c s, r.text = c :: s ∧ ∀ d ∈ c :: s, wordChar d = true := by
  cases htext : r.text with
  | nil =>
    have hparse := r.parseCellRef_text
    rw [htext] at hparse
    cases hparse
  | cons c s => exact ⟨c, s, rfl, htext ▸ r.wordChar_text⟩

/-- Behind a text in quotes no quote follows. -/
lemma render_ne_quote {q : Char} {ts : List Token} (hts : WellFormed ts) (hq : q = '"' ∨ q = '\'')
    (hnext : ∀ content ts', ts ≠ .quoted q content :: ts') : (render ts).head? ≠ some q := by
  intro hhead
  cases ts with
  | nil => cases hhead
  | cons t ts =>
    cases t with
    | quoted q' content =>
      obtain rfl : q' = q := Option.some.inj hhead
      exact hnext content ts rfl
    | ref r =>
      obtain ⟨c, s, hr, hword⟩ := r.exists_text
      rw [render_cons] at hhead
      change (r.text ++ render ts).head? = some q at hhead
      rw [hr] at hhead
      obtain rfl : c = q := Option.some.inj hhead
      exact wordChar_ne_quote (hword c List.mem_cons_self) hq
    | word w =>
      obtain ⟨hne, hword, -⟩ := hts
      obtain ⟨c, s, rfl⟩ := List.exists_cons_of_ne_nil hne
      obtain rfl : c = q := Option.some.inj hhead
      exact wordChar_ne_quote (hword c List.mem_cons_self) hq
    | other c =>
      obtain ⟨-, hdouble, hsingle, -⟩ := hts
      obtain rfl : c = q := Option.some.inj hhead
      exact not_or.mpr ⟨hdouble, hsingle⟩ hq

lemma render_eq_nil {ts : List Token} (hts : WellFormed ts) (h : render ts = []) : ts = [] := by
  cases ts with
  | nil => rfl
  | cons t ts =>
    rw [render_cons] at h
    have ht := (List.append_eq_nil_iff.mp h).1
    cases t with
    | quoted q content => cases ht
    | other c => cases ht
    | word w => exact absurd ht hts.1
    | ref r =>
      obtain ⟨c, s, hr, -⟩ := r.exists_text
      exact absurd (hr.symm.trans ht) (List.cons_ne_nil _ _)

/-- The step over a text in quotes. -/
lemma Scans.quoted {steps : ℕ} (ih : Scans dcol drow steps) {q : Char} {content : Text}
    {ts : List Token} (hts : WellFormed (.quoted q content :: ts))
    (hlen : (render (.quoted q content :: ts)).length ≤ steps + 1) :
    shiftLoop dcol drow (steps + 1) (render (.quoted q content :: ts)) =
      scanTokens dcol drow (.quoted q content :: ts) := by
  obtain ⟨hq, hnext, hts⟩ := hts
  rw [render_cons] at hlen ⊢
  have htake := takeQuoted_doubled content (render_ne_quote hts hq hnext)
  have hrest := ih.rest hts (by
    simp only [Token.text, List.length_append, List.length_cons] at hlen
    omega)
  show shiftLoop dcol drow (steps + 1) (q :: (doubled q content ++ [q] ++ render ts)) = _
  rw [List.append_assoc, List.singleton_append, shiftLoop, if_pos hq, htake]
  dsimp only
  rw [hrest, scanTokens]
  cases scanTokens dcol drow ts <;> simp [Token.text]

/-- The step over a reference. -/
lemma Scans.ref {steps : ℕ} (ih : Scans dcol drow steps) {r : CellRef} {ts : List Token}
    (hts : WellFormed (.ref r :: ts)) (hlen : (render (.ref r :: ts)).length ≤ steps + 1) :
    shiftLoop dcol drow (steps + 1) (render (.ref r :: ts)) =
      scanTokens dcol drow (.ref r :: ts) := by
  obtain ⟨hstart, hbang, hts⟩ := hts
  obtain ⟨c, s, hr, hword⟩ := r.exists_text
  rw [render_cons] at hlen ⊢
  change (r.text ++ render ts).length ≤ steps + 1 at hlen
  show shiftLoop dcol drow (steps + 1) (r.text ++ render ts) = _
  rw [hr] at hlen ⊢
  have hrest := ih.rest hts (by
    simp only [List.length_append, List.length_cons] at hlen
    omega)
  have hat : shiftRefAt (c :: (s ++ render ts)) dcol drow =
      some (render ts, (r.shift dcol drow).map CellRef.text) := by
    have hat := shiftRefAt_of_word hword hts hstart
      (fun hqual => hbang hqual.2.choose hqual.2.choose_spec) dcol drow
    rw [← hr, r.parseCellRef_text, hr] at hat
    rw [← r.shiftCellRef_parts]
    exact hat
  rw [List.cons_append, shiftLoop_some (wordChar_ne_quote (hword c List.mem_cons_self)) hat,
    hrest, scanTokens]
  cases r.shift dcol drow with
  | none => rfl
  | some r' => cases scanTokens dcol drow ts <;> simp

/-- The step over a delimiter. -/
lemma Scans.other {steps : ℕ} (ih : Scans dcol drow steps) {c : Char} {ts : List Token}
    (hts : WellFormed (.other c :: ts)) (hlen : (render (.other c :: ts)).length ≤ steps + 1) :
    shiftLoop dcol drow (steps + 1) (render (.other c :: ts)) =
      scanTokens dcol drow (.other c :: ts) := by
  obtain ⟨hc, hdouble, hsingle, -, hts⟩ := hts
  have hword {P : Prop} (h : P → wordChar c = true) : ¬ P := fun hP => by
    rw [h hP] at hc
    cases hc
  have hsheet : sheetStart c = false := Bool.eq_false_iff.mpr (hword (wordChar_of_sheetStart c))
  have halpha : c.isAlpha = false := Bool.eq_false_iff.mpr (hword (wordChar_of_isAlpha c))
  have hdollar : c ≠ '$' := hword fun h => h ▸ rfl
  have hat : shiftRefAt (c :: render ts) dcol drow = none := by
    unfold shiftRefAt
    rw [sheetPart_of_not hsheet]
    dsimp only
    rw [parseCellRef_cons hdollar halpha]
    rfl
  refine (ih.step (s := []) hts (.inl rfl) le_rfl hlen (not_or.mpr ⟨hdouble, hsingle⟩) hat).trans ?_
  rw [scanWord_nil, scanTokens]
  cases scanTokens dcol drow ts <;> simp

/-- The scanner goes from token to token. -/
lemma scans (steps : ℕ) : Scans dcol drow steps := by
  induction steps with
  | zero =>
    intro s ts n hts _ _ hlen
    have hnil := List.append_eq_nil_iff.mp (List.length_eq_zero_iff.mp (Nat.le_zero.mp hlen))
    rw [hnil.1, render_eq_nil hts hnil.2, scanWord_nil]
    rfl
  | succ steps ih =>
    intro s ts n hts hwithin hn hlen
    cases s with
    | cons c s => exact ih.word hts hwithin hn hlen
    | nil =>
      rw [scanWord_nil, some_nil_bind]
      rw [List.nil_append] at hlen ⊢
      cases ts with
      | nil => rfl
      | cons t ts =>
        cases t with
        | quoted q content => exact ih.quoted hts hlen
        | ref r => exact ih.ref hts hlen
        | other c => exact ih.other hts hlen
        | word w =>
          obtain ⟨hne, hword, hstart, hts'⟩ := hts
          obtain ⟨c, s, rfl⟩ := List.exists_cons_of_ne_nil hne
          rw [render_cons] at hlen ⊢
          rw [scanTokens]
          exact ih.word hts' (.inr ⟨hword, hstart⟩) le_rfl hlen

/-! ### Moving twice -/

namespace Token

/-- A token moved is a reference again, or the same token. -/
lemma shift_eq_some {t t' : Token} (h : t.shift dcol drow = some t') :
    (∃ r r', t = .ref r ∧ t' = .ref r' ∧ r.shift dcol drow = some r') ∨
      (t' = t ∧ ∀ r, t ≠ .ref r) := by
  cases t with
  | ref r =>
    obtain ⟨r', hr, rfl⟩ := Option.map_eq_some_iff.mp h
    exact Or.inl ⟨r, r', rfl, rfl, hr⟩
  | quoted q content => exact Or.inr ⟨(Option.some.inj h).symm, nofun⟩
  | word w => exact Or.inr ⟨(Option.some.inj h).symm, nofun⟩
  | other c => exact Or.inr ⟨(Option.some.inj h).symm, nofun⟩

end Token

lemma shiftTokens_cons_eq_some {t : Token} {ts ts' : List Token}
    (h : shiftTokens dcol drow (t :: ts) = some ts') :
    ∃ t' ts₁, ts' = t' :: ts₁ ∧ t.shift dcol drow = some t' ∧
      shiftTokens dcol drow ts = some ts₁ := by
  rw [shiftTokens_cons] at h
  obtain ⟨t', ht, h⟩ := Option.bind_eq_some_iff.mp h
  obtain ⟨ts₁, hts, rfl⟩ := Option.map_eq_some_iff.mp h
  exact ⟨t', ts₁, rfl, ht, hts⟩

/-- What the moved formula begins with, the formula began with, but for references. -/
lemma shiftTokens_eq_cons {t' : Token} {ts ts₁ : List Token}
    (h : shiftTokens dcol drow ts = some (t' :: ts₁)) (href : ∀ r, t' ≠ .ref r) :
    ∃ ts₀, ts = t' :: ts₀ ∧ shiftTokens dcol drow ts₀ = some ts₁ := by
  cases ts with
  | nil => cases h
  | cons t ts =>
    obtain ⟨t'', ts₂, heq, ht, hts⟩ := shiftTokens_cons_eq_some h
    obtain ⟨rfl, rfl⟩ := List.cons.inj heq
    rcases Token.shift_eq_some ht with ⟨r, r', -, hr', -⟩ | ⟨heq, -⟩
    · exact absurd hr' (href r')
    · exact ⟨ts, by rw [heq], hts⟩

lemma startsWord_shiftTokens {ts ts' : List Token} (h : shiftTokens dcol drow ts = some ts') :
    startsWord ts' = startsWord ts := by
  cases ts with
  | nil =>
    obtain rfl := Option.some.inj h
    rfl
  | cons t ts =>
    obtain ⟨t', ts₁, rfl, ht, -⟩ := shiftTokens_cons_eq_some h
    rcases Token.shift_eq_some ht with ⟨r, r', rfl, rfl, -⟩ | ⟨rfl, -⟩
    · rfl
    · cases t' <;> rfl

/-- The moved formula is read apart again. -/
lemma WellFormed.shiftTokens {ts ts' : List Token} (hts : WellFormed ts)
    (h : shiftTokens dcol drow ts = some ts') : WellFormed ts' := by
  induction ts generalizing ts' with
  | nil =>
    obtain rfl := Option.some.inj h
    trivial
  | cons t ts ih =>
    obtain ⟨t', ts₁, rfl, ht, hrest⟩ := shiftTokens_cons_eq_some h
    have hstarts := startsWord_shiftTokens hrest
    rcases Token.shift_eq_some ht with ⟨r, r', rfl, rfl, -⟩ | ⟨rfl, hnot⟩
    · obtain ⟨hstart, hbang, htail⟩ := hts
      refine ⟨hstarts.trans hstart, fun ts₂ heq => ?_, ih htail hrest⟩
      subst heq
      obtain ⟨ts₀, rfl, -⟩ := shiftTokens_eq_cons hrest nofun
      exact hbang ts₀ rfl
    · cases t' with
      | ref r => exact absurd rfl (hnot r)
      | quoted q content =>
        obtain ⟨hq, hnext, htail⟩ := hts
        refine ⟨hq, fun content' ts₂ heq => ?_, ih htail hrest⟩
        subst heq
        obtain ⟨ts₀, rfl, -⟩ := shiftTokens_eq_cons hrest nofun
        exact hnext content' ts₀ rfl
      | word w =>
        obtain ⟨hne, hword, hstart, htail⟩ := hts
        exact ⟨hne, hword, hstarts.trans hstart, ih htail hrest⟩
      | other c =>
        obtain ⟨hc, hdouble, hsingle, hbang, htail⟩ := hts
        refine ⟨hc, hdouble, hsingle, fun heq w ts₂ hts₂ => ?_, ih htail hrest⟩
        subst hts₂
        obtain ⟨ts₀, rfl, hts₀⟩ := shiftTokens_eq_cons hrest nofun
        obtain ⟨ts₃, rfl, -⟩ := shiftTokens_eq_cons hts₀ nofun
        exact hbang heq w ts₃ rfl

lemma shiftTokens_zero {ts : List Token} (h : ∀ r, .ref r ∈ ts → r.Written) :
    shiftTokens 0 0 ts = some ts := by
  induction ts with
  | nil => rfl
  | cons t ts ih =>
    have ht : t.shift 0 0 = some t := by
      cases t with
      | ref r =>
        show (r.shift 0 0).map _ = _
        rw [CellRef.shift_zero (h r List.mem_cons_self)]
        rfl
      | quoted q content => rfl
      | word w => rfl
      | other c => rfl
    rw [shiftTokens_cons, ht, ih fun r hr => h r (List.mem_cons_of_mem _ hr)]
    rfl

lemma startsBang_shiftTokens {ts ts' : List Token} (h : shiftTokens dcol drow ts = some ts') :
    startsBang ts' = startsBang ts := by
  cases ts with
  | nil =>
    obtain rfl := Option.some.inj h
    rfl
  | cons t ts =>
    obtain ⟨t', ts₁, rfl, ht, -⟩ := shiftTokens_cons_eq_some h
    rcases Token.shift_eq_some ht with ⟨r, r', rfl, rfl, -⟩ | ⟨rfl, -⟩
    · rfl
    · cases t' <;> rfl

/-- A relative part of a reference leaves the sheet. -/
def CellRef.Leaves (dcol drow : ℤ) (r : CellRef) : Prop :=
  (r.colAbs = false ∧ ¬ (1 ≤ r.col + dcol ∧ r.col + dcol ≤ maxColumn)) ∨
    (r.rowAbs = false ∧ ¬ (1 ≤ r.row + drow ∧ r.row + drow ≤ maxRow))

lemma moved_eq_none {abs : Bool} {n max : ℕ} {d : ℤ} :
    moved abs n d max = none ↔ abs = false ∧ ¬ (1 ≤ (n : ℤ) + d ∧ (n : ℤ) + d ≤ max) := by
  unfold moved
  cases abs with
  | true => simp
  | false =>
    rw [if_neg Bool.false_ne_true]
    split_ifs with h
    · exact iff_of_false nofun fun hno => hno.2 h
    · exact iff_of_true rfl ⟨rfl, h⟩

lemma CellRef.shift_eq_none_iff {r : CellRef} : r.shift dcol drow = none ↔ r.Leaves dcol drow := by
  rw [CellRef.shift_eq_none, moved_eq_none, moved_eq_none]
  exact Iff.rfl

lemma shiftTokens_eq_none {ts : List Token} : shiftTokens dcol drow ts = none ↔
    ∃ r, .ref r ∈ ts ∧ r.Leaves dcol drow := by
  induction ts with
  | nil => exact iff_of_false nofun fun ⟨r, hr, _⟩ => List.not_mem_nil hr
  | cons t ts ih =>
    rw [shiftTokens_cons, Option.bind_eq_none_iff]
    constructor
    · intro h
      cases ht : t.shift dcol drow with
      | none =>
        cases t with
        | ref r =>
          exact ⟨r, List.mem_cons_self, CellRef.shift_eq_none_iff.mp (Option.map_eq_none_iff.mp ht)⟩
        | quoted q content => cases ht
        | word w => cases ht
        | other c => cases ht
      | some t' =>
        obtain ⟨r, hr, hleaves⟩ := ih.mp (Option.map_eq_none_iff.mp (h t' ht))
        exact ⟨r, List.mem_cons_of_mem _ hr, hleaves⟩
    · rintro ⟨r, hr, hleaves⟩ t' ht
      rcases List.mem_cons.mp hr with rfl | hr
      · change (r.shift dcol drow).map Token.ref = some t' at ht
        rw [CellRef.shift_eq_none_iff.mpr hleaves] at ht
        cases ht
      · rw [ih.mpr ⟨r, hr, hleaves⟩]
        rfl

/-! ### Words that are kept -/

lemma moved_lt {abs : Bool} {n m : ℕ} {d : ℤ} (hn : n < 2 ^ 32)
    (h : moved abs n d maxColumn = some m) : m < 2 ^ 32 := by
  unfold moved maxColumn at h
  split_ifs at h with habs hrange
  · exact Option.some.inj h ▸ hn
  · obtain rfl := Option.some.inj h
    omega

lemma shiftCellRef_eq_some {r : CellRefParts} {cell : Text}
    (h : shiftCellRef r dcol drow = some cell) :
    ∃ col row, moved r.colAbs r.col dcol maxColumn = some col ∧
      moved r.rowAbs r.row drow maxRow = some row ∧ cell = refText r.colAbs col r.rowAbs row := by
  obtain ⟨col, hcol, h⟩ := Option.bind_eq_some_iff.mp h
  obtain ⟨row, hrow, h⟩ := Option.bind_eq_some_iff.mp h
  exact ⟨col, row, hcol, hrow, (Option.some.inj h).symm⟩

lemma Stays.shiftCellRef {s rest : Text} {r : CellRefParts} (h : Stays dcol drow s r rest) :
    shiftCellRef r dcol drow = some (refText r.colAbs r.col r.rowAbs r.row) := by
  rw [Sheet.shiftCellRef, h.col, h.row]
  rfl

/-- The scanner leaves a kept word as it is. -/
lemma Kept.scanWord {bang : Bool} {s : Text} (h : Kept dcol drow bang s) {n : ℕ}
    (hn : s.length ≤ n) : scanWord dcol drow bang n s = some s := by
  induction h generalizing n with
  | nil => exact scanWord_nil bang n
  | sheet hsheet => exact scanWord_sheet hsheet hn
  | @letter c s hnone _ ih =>
    cases n with
    | zero => exact absurd hn (Nat.not_succ_le_zero _)
    | succ n =>
      rw [Sheet.scanWord, hnone, ih (Nat.le_of_succ_le_succ hn)]
      split_ifs <;> rfl
  | @ref s r rest hread hstays _ ih =>
    obtain ⟨letters, digits, hr⟩ := parseCellRef_eq_some hread
    have hlt := hr.lt
    cases s with
    | nil => exact absurd hlt (Nat.not_lt_zero _)
    | cons c s =>
      cases n with
      | zero => exact absurd hn (Nat.not_succ_le_zero _)
      | succ n =>
        rw [Sheet.scanWord, hread]
        dsimp only
        rw [hstays.shiftCellRef, ih (by omega), hstays.text]
        split_ifs <;> rfl

/-- Behind a word character that is no letter and no digit the scanner gives one again. -/
lemma scanWord_ends {bang : Bool} {n : ℕ} {s out : Text} (hn : s.length ≤ n)
    (h : scanWord dcol drow bang n s = some out) (hs : s.head?.any Char.isAlphanum = false) :
    out.head?.any Char.isAlphanum = false := by
  cases s with
  | nil =>
    rw [scanWord_nil] at h
    exact Option.some.inj h ▸ hs
  | cons c s =>
    cases n with
    | zero => exact absurd hn (Nat.not_succ_le_zero _)
    | succ n =>
      rw [scanWord] at h
      split_ifs at h
      · exact Option.some.inj h ▸ hs
      · cases hread : parseCellRef (c :: s) with
        | none =>
          rw [hread] at h
          obtain ⟨out, -, rfl⟩ := Option.map_eq_some_iff.mp h
          exact hs
        | some r =>
          obtain ⟨r, rest⟩ := r
          rw [hread] at h
          obtain ⟨cell, hcell, h⟩ := Option.bind_eq_some_iff.mp h
          obtain ⟨out, -, rfl⟩ := Option.map_eq_some_iff.mp h
          obtain ⟨col, row, -, -, rfl⟩ := shiftCellRef_eq_some hcell
          obtain ⟨letters, digits, hr⟩ := parseCellRef_eq_some hread
          cases habs : r.colAbs with
          | true => rfl
          | false =>
            -- else the word begins with a letter
            obtain ⟨l, ls, hl⟩ := List.exists_cons_of_ne_nil hr.letters_ne
            have htext := hr.text
            rw [habs, hl] at htext
            rw [htext] at hs
            have hl' : l.isAlphanum = false := hs
            rw [isAlphanum_of_isAlpha (hr.letters_alpha l (hl ▸ List.mem_cons_self))] at hl'
            cases hl'

lemma kept_of_scanWord {bang : Bool} {n : ℕ} {s : Text} (hn : s.length ≤ n)
    (h : scanWord dcol drow bang n s = some s) : Kept dcol drow bang s := by
  induction n generalizing s with
  | zero => exact List.length_eq_zero_iff.mp (Nat.le_zero.mp hn) ▸ .nil
  | succ n ih =>
    cases s with
    | nil => exact .nil
    | cons c s =>
      rw [scanWord] at h
      split_ifs at h with hsheet
      · exact .sheet hsheet
      · cases hread : parseCellRef (c :: s) with
        | none =>
          rw [hread] at h
          obtain ⟨out, hout, heq⟩ := Option.map_eq_some_iff.mp h
          obtain rfl := (List.cons.inj heq).2
          exact .letter hread (ih (Nat.le_of_succ_le_succ hn) hout)
        | some r =>
          obtain ⟨r, rest⟩ := r
          rw [hread] at h
          obtain ⟨cell, hcell, h⟩ := Option.bind_eq_some_iff.mp h
          obtain ⟨out, hout, heq⟩ := Option.map_eq_some_iff.mp h
          obtain ⟨col, row, hcol, hrow, rfl⟩ := shiftCellRef_eq_some hcell
          obtain ⟨letters, digits, hr⟩ := parseCellRef_eq_some hread
          have hlt := hr.lt
          have hrest : rest.length ≤ n := by omega
          obtain ⟨rfl, rfl, rfl⟩ := hr.eq_refText (moved_lt (columnIndex_lt hr.col) hcol) heq
            (scanWord_ends hrest hout hr.ends)
          exact .ref hread ⟨hcol, hrow, heq.symm⟩ (ih hrest hout)

/-- The scanner gives words for words. -/
lemma scanWord_wordChar {bang : Bool} {n : ℕ} {s out : Text} (hs : ∀ c ∈ s, wordChar c = true)
    (h : scanWord dcol drow bang n s = some out) : ∀ c ∈ out, wordChar c = true := by
  induction n generalizing s out with
  | zero => exact Option.some.inj h ▸ nofun
  | succ n ih =>
    cases s with
    | nil => exact Option.some.inj h ▸ nofun
    | cons c s =>
      rw [scanWord] at h
      split_ifs at h
      · exact Option.some.inj h ▸ hs
      · cases hread : parseCellRef (c :: s) with
        | none =>
          rw [hread] at h
          obtain ⟨out, hout, rfl⟩ := Option.map_eq_some_iff.mp h
          intro d hd
          rcases List.mem_cons.mp hd with rfl | hd
          · exact hs d List.mem_cons_self
          · exact ih (fun d hd => hs d (List.mem_cons_of_mem _ hd)) hout d hd
        | some r =>
          obtain ⟨r, rest⟩ := r
          rw [hread] at h
          obtain ⟨cell, hcell, h⟩ := Option.bind_eq_some_iff.mp h
          obtain ⟨out, hout, rfl⟩ := Option.map_eq_some_iff.mp h
          obtain ⟨col, row, -, -, rfl⟩ := shiftCellRef_eq_some hcell
          obtain ⟨letters, digits, hr⟩ := parseCellRef_eq_some hread
          intro d hd
          rcases List.mem_append.mp hd with hd | hd
          · exact wordChar_refText _ _ _ _ d hd
          · exact ih (fun d hd => hs d (hr.suffix.subset hd)) hout d hd

/-! ### Formulas whose words are kept -/

lemma WordsKept.scanTokens {ts : List Token} (h : WordsKept dcol drow ts) :
    scanTokens dcol drow ts = (shiftTokens dcol drow ts).map render := by
  induction ts with
  | nil => rfl
  | cons t ts ih =>
    rw [shiftTokens_cons]
    cases t with
    | word w =>
      rw [Sheet.scanTokens, h.1.scanWord le_rfl, ih h.2]
      cases shiftTokens dcol drow ts <;> rfl
    | ref r =>
      rw [Sheet.scanTokens, ih h, Token.shift]
      cases r.shift dcol drow with
      | none => rfl
      | some r' => cases shiftTokens dcol drow ts <;> rfl
    | quoted q content =>
      rw [Sheet.scanTokens, ih h]
      cases shiftTokens dcol drow ts <;> rfl
    | other c =>
      rw [Sheet.scanTokens, ih h]
      cases shiftTokens dcol drow ts <;> rfl

/-- Where a reference leaves the sheet the other words do not matter. -/
lemma scanTokens_eq_none {ts : List Token} (h : shiftTokens dcol drow ts = none) :
    scanTokens dcol drow ts = none := by
  induction ts with
  | nil => cases h
  | cons t ts ih =>
    rw [shiftTokens_cons] at h
    cases t with
    | word w =>
      rw [scanTokens, ih (Option.map_eq_none_iff.mp h)]
      cases scanWord dcol drow (startsBang ts) w.length w <;> rfl
    | ref r =>
      rw [scanTokens]
      cases hr : r.shift dcol drow with
      | none => rfl
      | some r' =>
        rw [Token.shift, hr] at h
        rw [ih (Option.map_eq_none_iff.mp h)]
        rfl
    | quoted q content =>
      rw [scanTokens, ih (Option.map_eq_none_iff.mp h)]
      rfl
    | other c =>
      rw [scanTokens, ih (Option.map_eq_none_iff.mp h)]
      rfl

lemma scanTokens_ends {ts : List Token} {out : Text} (hts : WellFormed ts)
    (hstart : startsWord ts = false) (h : scanTokens dcol drow ts = some out) : Ends out := by
  cases ts with
  | nil => exact Option.some.inj h ▸ nofun
  | cons t ts =>
    cases t with
    | word w => cases hstart
    | ref r => cases hstart
    | quoted q content =>
      obtain ⟨out, -, rfl⟩ := Option.map_eq_some_iff.mp h
      rintro c hc
      obtain rfl : q = c := Option.some.inj hc
      rcases hts.1 with rfl | rfl
      · decide
      · decide
    | other c =>
      obtain ⟨out, -, rfl⟩ := Option.map_eq_some_iff.mp h
      rintro d hd
      obtain rfl : c = d := Option.some.inj hd
      exact hts.1

/-- Two words in front of delimiters. -/
lemma word_append_inj {u v x y : Text} (h : u ++ x = v ++ y) (hu : ∀ c ∈ u, wordChar c = true)
    (hv : ∀ c ∈ v, wordChar c = true) (hx : Ends x) (hy : Ends y) : u = v ∧ x = y :=
  run_append_inj h hu hv (hx.any_eq_false fun _ h => h) (hy.any_eq_false fun _ h => h)

/-- If the scanner only moves the references, the words are kept. -/
lemma wordsKept_of_scanTokens {ts ts' : List Token} (hts : WellFormed ts)
    (hshift : shiftTokens dcol drow ts = some ts')
    (h : scanTokens dcol drow ts = some (render ts')) : WordsKept dcol drow ts := by
  induction ts generalizing ts' with
  | nil => trivial
  | cons t ts ih =>
    obtain ⟨t', ts₁, rfl, ht, hrest⟩ := shiftTokens_cons_eq_some hshift
    rw [render_cons] at h
    cases t with
    | word w =>
      obtain ⟨-, hword, hstart, htail⟩ := hts
      obtain rfl := Option.some.inj ht
      obtain ⟨w', hw', h⟩ := Option.bind_eq_some_iff.mp h
      obtain ⟨out, hout, heq⟩ := Option.map_eq_some_iff.mp h
      obtain ⟨rfl, rfl⟩ := word_append_inj heq (scanWord_wordChar hword hw') hword
        (scanTokens_ends htail hstart hout)
        (render_ends (htail.shiftTokens hrest) ((startsWord_shiftTokens hrest).trans hstart))
      exact ⟨kept_of_scanWord le_rfl hw', ih htail hrest hout⟩
    | ref r =>
      obtain ⟨r', hr', rfl⟩ := Option.map_eq_some_iff.mp ht
      rw [scanTokens, hr'] at h
      obtain ⟨out, hout, heq⟩ := Option.map_eq_some_iff.mp h
      obtain rfl := List.append_cancel_left heq
      exact ih hts.2.2 hrest hout
    | quoted q content =>
      obtain rfl := Option.some.inj ht
      obtain ⟨out, hout, heq⟩ := Option.map_eq_some_iff.mp h
      obtain rfl := List.append_cancel_left heq
      exact ih hts.2.2 hrest hout
    | other c =>
      obtain rfl := Option.some.inj ht
      obtain ⟨out, hout, heq⟩ := Option.map_eq_some_iff.mp h
      obtain rfl := (List.cons.inj heq).2
      exact ih hts.2.2.2.2 hrest hout

/-! ### A second shift -/

section Twice

variable {dcol' drow' : ℤ}

/-- Of a kept word a second shift makes what both make at once. -/
lemma Kept.scanWord_add {bang : Bool} {s : Text} (h : Kept dcol drow bang s) {n : ℕ}
    (hn : s.length ≤ n) : Sheet.scanWord dcol' drow' bang n s =
      Sheet.scanWord (dcol + dcol') (drow + drow') bang n s := by
  induction h generalizing n with
  | nil => rw [scanWord_nil, scanWord_nil]
  | sheet hsheet => rw [scanWord_sheet hsheet hn, scanWord_sheet hsheet hn]
  | @letter c s hnone _ ih =>
    cases n with
    | zero => rfl
    | succ n => rw [Sheet.scanWord, Sheet.scanWord, hnone, ih (Nat.le_of_succ_le_succ hn)]
  | @ref s r rest hread hstays _ ih =>
    obtain ⟨letters, digits, hr⟩ := parseCellRef_eq_some hread
    have hlt := hr.lt
    cases s with
    | nil => exact absurd hlt (Nat.not_lt_zero _)
    | cons c s =>
      cases n with
      | zero => rfl
      | succ n =>
        have hcell : Sheet.shiftCellRef r dcol' drow' =
            Sheet.shiftCellRef r (dcol + dcol') (drow + drow') := by
          rw [Sheet.shiftCellRef, Sheet.shiftCellRef, moved_of_stays hstays.col,
            moved_of_stays hstays.row]
        rw [Sheet.scanWord, Sheet.scanWord, hread]
        dsimp only
        rw [hcell, ih (by omega)]

lemma Kept.zero {bang : Bool} {s : Text} (h : Kept dcol drow bang s) : Kept 0 0 bang s := by
  induction h with
  | nil => exact .nil
  | sheet hsheet => exact .sheet hsheet
  | letter hnone _ ih => exact .letter hnone ih
  | ref hread hstays _ ih =>
    exact .ref hread ⟨moved_zero_of_stays hstays.col, moved_zero_of_stays hstays.row,
      hstays.text⟩ ih

lemma WordsKept.zero {ts : List Token} (h : WordsKept dcol drow ts) : WordsKept 0 0 ts := by
  induction ts with
  | nil => trivial
  | cons t ts ih =>
    cases t with
    | word w => exact ⟨h.1.zero, ih h.2⟩
    | ref r => exact (ih h : WordsKept 0 0 ts)
    | quoted q content => exact (ih h : WordsKept 0 0 ts)
    | other c => exact (ih h : WordsKept 0 0 ts)

/-- Of a moved formula whose words were kept a second shift makes what both make at once. -/
lemma WordsKept.scanTokens_add {ts ts' : List Token} (h : WordsKept dcol drow ts)
    (hshift : shiftTokens dcol drow ts = some ts') :
    Sheet.scanTokens dcol' drow' ts' = Sheet.scanTokens (dcol + dcol') (drow + drow') ts := by
  induction ts generalizing ts' with
  | nil =>
    obtain rfl := Option.some.inj hshift
    rfl
  | cons t ts ih =>
    obtain ⟨t', ts₁, rfl, ht, hrest⟩ := shiftTokens_cons_eq_some hshift
    cases t with
    | word w =>
      obtain rfl := Option.some.inj ht
      rw [Sheet.scanTokens, Sheet.scanTokens, startsBang_shiftTokens hrest,
        h.1.scanWord_add le_rfl, ih h.2 hrest]
    | ref r =>
      obtain ⟨r', hr', rfl⟩ := Option.map_eq_some_iff.mp ht
      rw [Sheet.scanTokens, Sheet.scanTokens, CellRef.shift_shift hr', ih h hrest]
    | quoted q content =>
      obtain rfl := Option.some.inj ht
      rw [Sheet.scanTokens, Sheet.scanTokens, ih h hrest]
    | other c =>
      obtain rfl := Option.some.inj ht
      rw [Sheet.scanTokens, Sheet.scanTokens, ih h hrest]

end Twice

/-- A reference that is written anew as it was. -/
lemma CellRef.written_of_text {r r' : CellRef} (h : r.shift 0 0 = some r')
    (htext : r'.text = r.text) : r.Written := by
  obtain ⟨col, row, hcol, hrow, hmoved, hmoved', rfl⟩ := CellRef.shift_eq_some.mp h
  rw [moved_zero ⟨r.col_pos, r.col_le⟩] at hmoved
  rw [moved_zero ⟨r.row_pos, r.row_le⟩] at hmoved'
  obtain rfl := Option.some.inj hmoved
  obtain rfl := Option.some.inj hmoved'
  have hdigits : ∀ c ∈ Nat.toDigits 10 r.row, c.isDigit = true := fun c hc =>
    Nat.isDigit_of_mem_toDigits (by decide) (by decide) hc
  simp only [CellRef.text, CellRef.canonical, List.append_assoc] at htext
  have hends := any_isAlpha_digits r.rowAbs r.digits_ne r.digits_digit []
  have hends' := any_isAlpha_digits r.rowAbs Nat.toDigits_ne_nil hdigits []
  rw [List.append_nil] at hends hends'
  obtain ⟨hletters, hrest⟩ := run_append_inj (List.append_cancel_left htext)
    (columnLetters_alpha _ _) r.letters_alpha hends' hends
  exact ⟨hletters.symm, (List.append_cancel_left hrest).symm⟩

/-- References that are written anew as they were. -/
lemma written_of_render {ts ts' : List Token} (hts : WellFormed ts)
    (hshift : shiftTokens 0 0 ts = some ts') (h : render ts' = render ts) :
    ∀ r, .ref r ∈ ts → r.Written := by
  induction ts generalizing ts' with
  | nil => exact nofun
  | cons t ts ih =>
    obtain ⟨t', ts₁, rfl, ht, hrest⟩ := shiftTokens_cons_eq_some hshift
    rw [render_cons, render_cons] at h
    intro r hr
    cases t with
    | word w =>
      obtain rfl := Option.some.inj ht
      exact ih hts.2.2.2 hrest (List.append_cancel_left h) r
        ((List.mem_cons.mp hr).resolve_left nofun)
    | ref r₀ =>
      obtain ⟨r', hr', rfl⟩ := Option.map_eq_some_iff.mp ht
      obtain ⟨htext, htail⟩ := word_append_inj h r'.wordChar_text r₀.wordChar_text
        (render_ends (hts.2.2.shiftTokens hrest) ((startsWord_shiftTokens hrest).trans hts.1))
        (render_ends hts.2.2 hts.1)
      rcases List.mem_cons.mp hr with heq | hr
      · exact Token.ref.inj heq ▸ CellRef.written_of_text hr' htext
      · exact ih hts.2.2 hrest htail r hr
    | quoted q content =>
      obtain rfl := Option.some.inj ht
      exact ih hts.2.2 hrest (List.append_cancel_left h) r
        ((List.mem_cons.mp hr).resolve_left nofun)
    | other c =>
      obtain rfl := Option.some.inj ht
      exact ih hts.2.2.2.2 hrest (List.append_cancel_left h) r
        ((List.mem_cons.mp hr).resolve_left nofun)

/-! ### Moving a formula -/

lemma shiftFormula_eq {ts : List Token} (hts : WellFormed ts) (hzero : ¬ (dcol = 0 ∧ drow = 0)) :
    shiftFormula (render ts) dcol drow = scanTokens dcol drow ts := by
  have hscan := @scans dcol drow (render ts).length [] ts 0 hts (.inl rfl) le_rfl le_rfl
  rw [scanWord_nil, List.nil_append] at hscan
  rw [shiftFormula, if_neg hzero, hscan]
  cases scanTokens dcol drow ts <;> rfl

lemma CellRef.not_leaves_zero (r : CellRef) : ¬ r.Leaves 0 0 := by
  have hcol := r.col_pos
  have hcol' := r.col_le
  have hrow := r.row_pos
  have hrow' := r.row_le
  rintro (⟨-, h⟩ | ⟨-, h⟩)
  · exact h (by omega)
  · exact h (by omega)

/-- What moving a formula is to do: the references are moved and nothing else, unless one leaves the
sheet; and moving twice is moving by the sum. -/
structure Moves (ts : List Token) (dcol drow dcol' drow' : ℤ) : Prop where
  moved : shiftFormula (render ts) dcol drow = (moveTokens dcol drow ts).map render
  leaves : shiftFormula (render ts) dcol drow = none ↔ ∃ r, .ref r ∈ ts ∧ r.Leaves dcol drow
  twice : ∀ g h, shiftFormula (render ts) dcol drow = some g →
    shiftFormula g dcol' drow' = some h →
      shiftFormula (render ts) (dcol + dcol') (drow + drow') = some h

/-- Nothing is moved; or a reference leaves the sheet; or all words are kept, and if the second
shift moves the formula back, its references are in capital letters without leading zeros. -/
def Movable (ts : List Token) (dcol drow dcol' drow' : ℤ) : Prop :=
  (dcol = 0 ∧ drow = 0) ∨ (∃ r, .ref r ∈ ts ∧ r.Leaves dcol drow) ∨
    WordsKept dcol drow ts ∧
      (dcol + dcol' = 0 → drow + drow' = 0 → ∀ r, .ref r ∈ ts → r.Written)

lemma Movable.moves {ts : List Token} (hts : WellFormed ts) {dcol' drow' : ℤ}
    (h : Movable ts dcol drow dcol' drow') : Moves ts dcol drow dcol' drow' := by
  by_cases hzero : dcol = 0 ∧ drow = 0
  · obtain ⟨rfl, rfl⟩ := hzero
    refine ⟨rfl, ?_, fun g t hg ht => ?_⟩
    · exact iff_of_false nofun fun ⟨r, _, hleaves⟩ => r.not_leaves_zero hleaves
    · obtain rfl := Option.some.inj hg
      rwa [Int.zero_add, Int.zero_add]
  · have hmove : moveTokens dcol drow ts = shiftTokens dcol drow ts := if_neg hzero
    have heq := shiftFormula_eq hts hzero
    cases hshift : shiftTokens dcol drow ts with
    | none =>
      have hnone := heq.trans (scanTokens_eq_none hshift)
      refine ⟨by rw [hnone, hmove, hshift]; rfl, ?_, fun g t hg => ?_⟩
      · exact iff_of_true hnone (shiftTokens_eq_none.mp hshift)
      · rw [hnone] at hg
        cases hg
    | some ts' =>
      have hstays : ¬ ∃ r, .ref r ∈ ts ∧ r.Leaves dcol drow := fun hleaves => by
        rw [shiftTokens_eq_none.mpr hleaves] at hshift
        cases hshift
      obtain ⟨hkept, hback⟩ := (h.resolve_left hzero).resolve_left hstays
      have hmoved : shiftFormula (render ts) dcol drow = some (render ts') := by
        rw [heq, hkept.scanTokens, hshift]
        rfl
      refine ⟨by rw [hmoved, hmove, hshift]; rfl, ?_, fun g t hg ht => ?_⟩
      · rw [hmoved]
        exact iff_of_false nofun hstays
      · obtain rfl := Option.some.inj (hmoved.symm.trans hg)
        by_cases hzero' : dcol' = 0 ∧ drow' = 0
        · obtain ⟨rfl, rfl⟩ := hzero'
          rw [Int.add_zero, Int.add_zero, hmoved]
          exact ht
        · rw [shiftFormula_eq (hts.shiftTokens hshift) hzero', hkept.scanTokens_add hshift] at ht
          by_cases hsum : dcol + dcol' = 0 ∧ drow + drow' = 0
          · rw [hsum.1, hsum.2, hkept.zero.scanTokens,
              shiftTokens_zero (hback hsum.1 hsum.2)] at ht
            rw [hsum.1, hsum.2]
            exact ht
          · rwa [shiftFormula_eq hts hsum]

lemma Moves.movable {ts : List Token} (hts : WellFormed ts) {dcol' drow' : ℤ}
    (h : Moves ts dcol drow dcol' drow') : Movable ts dcol drow dcol' drow' := by
  by_cases hzero : dcol = 0 ∧ drow = 0
  · exact .inl hzero
  · cases hshift : shiftTokens dcol drow ts with
    | none => exact .inr (.inl (shiftTokens_eq_none.mp hshift))
    | some ts' =>
      have hmoved : shiftFormula (render ts) dcol drow = some (render ts') := by
        rw [h.moved, moveTokens, if_neg hzero, hshift]
        rfl
      have hkept : WordsKept dcol drow ts :=
        wordsKept_of_scanTokens hts hshift ((shiftFormula_eq hts hzero).symm.trans hmoved)
      refine .inr (.inr ⟨hkept, fun hcol hrow => ?_⟩)
      have hzero' : ¬ (dcol' = 0 ∧ drow' = 0) := fun hz => hzero (by omega)
      cases hagain : shiftTokens 0 0 ts with
      | none =>
        obtain ⟨r, -, hleaves⟩ := shiftTokens_eq_none.mp hagain
        exact absurd hleaves r.not_leaves_zero
      | some ts'' =>
        have hback : shiftFormula (render ts') dcol' drow' = some (render ts'') := by
          rw [shiftFormula_eq (hts.shiftTokens hshift) hzero', hkept.scanTokens_add hshift, hcol,
            hrow, hkept.zero.scanTokens, hagain]
          rfl
        have htwice := h.twice _ _ hmoved hback
        rw [hcol, hrow] at htwice
        exact written_of_render hts hagain (Option.some.inj htwice).symm

/-- The references of a formula are moved and nothing else, and moving twice is moving by the sum,
if and only if the references that are read within other words stay, unless nothing is moved or one
of its own leaves the sheet, and those that are moved back are written as they would be anew. -/
theorem shiftFormula_moves_iff {ts : List Token} (hts : WellFormed ts)
    (dcol drow dcol' drow' : ℤ) :
    Moves ts dcol drow dcol' drow' ↔ Movable ts dcol drow dcol' drow' :=
  ⟨Moves.movable hts, Movable.moves hts⟩

/-- `A1` -/
def firstCell : CellRef := .canonical false 1 false 1 (by decide) (by decide)

/-- `LOG10(A1)` -/
def logFormula : List Token := [.word "LOG10".toList, .other '(', .ref firstCell, .other ')']

/-- `X_$A$1+A1` -/
def namedFormula : List Token := [.word "X_$A$1".toList, .other '+', .ref firstCell]

lemma wellFormed_logFormula : WellFormed logFormula := by
  refine ⟨by decide, List.all_eq_true.mp (by decide), rfl, by decide, by decide, by decide, nofun,
    rfl, nofun, ?_⟩
  exact ⟨by decide, by decide, by decide, nofun, trivial⟩

/-- A word is kept that has an absolute reference in it. -/
theorem shiftFormula_moves_iff_named :
    shiftFormula "X_$A$1+A1".toList 1 2 = some "X_$A$1+B3".toList ∧
      shiftFormula "X_$A$1+A1".toList (-1) 0 = none := by
  have hts : WellFormed namedFormula :=
    ⟨by decide, List.all_eq_true.mp (by decide), rfl, by decide, by decide, by decide, nofun, rfl,
      nofun, trivial⟩
  have hkept (dcol drow : ℤ) : WordsKept dcol drow namedFormula := by
    have hread : parseCellRef "$A$1".toList = some (⟨true, 1, true, 1⟩, []) := by decide
    exact ⟨.letter (by decide) (.letter (by decide) (.ref hread ⟨rfl, rfl, by decide⟩ .nil)),
      trivial⟩
  have hwritten : ∀ r, .ref r ∈ namedFormula → r.Written := by
    intro r hr
    have hr : Token.ref r = .ref firstCell := by simpa [namedFormula] using hr
    rw [Token.ref.inj hr]
    exact ⟨rfl, rfl⟩
  have hmoved := ((shiftFormula_moves_iff hts 1 2 (-1) (-2)).mpr
    (.inr (.inr ⟨hkept _ _, fun _ _ => hwritten⟩))).moved
  have hnone := ((shiftFormula_moves_iff hts (-1) 0 1 0).mpr
    (.inr (.inr ⟨hkept _ _, fun _ _ => hwritten⟩))).leaves
  refine ⟨hmoved.trans (by decide), hnone.mpr ⟨firstCell, by simp [namedFormula], ?_⟩⟩
  exact Or.inl ⟨rfl, by decide⟩

/-- The name of a function is moved. -/
theorem not_shiftFormula_moves :
    ¬ ∀ ts, WellFormed ts → ∀ dcol drow dcol' drow', Moves ts dcol drow dcol' drow' := by
  intro h
  have hmoved : shiftFormula (render logFormula) 1 1 = some "LOH11(B2)".toList := by decide
  have hmeant : (moveTokens 1 1 logFormula).map render = some "LOG10(B2)".toList := by decide
  have heq := (h logFormula wellFormed_logFormula 1 1 0 0).moved
  rw [hmoved, hmeant] at heq
  exact absurd heq (by decide)

end Orchid.Sheet
