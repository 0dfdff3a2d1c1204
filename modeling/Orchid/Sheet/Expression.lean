import Orchid.Base.Text
import Orchid.Sheet.Arguments

/-!
# Expressions

The layers of `CalcParser` in `orchid-viewers/src/office/calc.rs`, from comparisons down to factors,
on the bytes that are left. What begins with a word (a function, a cell, a name, a table) is a
parameter, and so is the arithmetic of floating point numbers. The parser knows names of sheets in
apostrophes, which the scanner of arguments does not.
-/

namespace Orchid.Sheet

open Lib (utf8Bytes utf8Text)

/-- `CalcValue` -/
inductive CalcValue (N : Type)
  | num (number : N)
  | text (part : Text)

/-- `ForeignSheet`: the numbers and the texts of another sheet, by their addresses. -/
structure ForeignSheet (N : Type) where
  literals : Text → Option N
  texts : Text → Option Text

/-- `CalcEnv`, with what the parser calls besides: the arithmetic of `f64`, and the calls, cells and
names that begin with a word. -/
structure CalcEnv (N : Type) where
  add : N → N → N
  sub : N → N → N
  mul : N → N → N
  div : N → N → N
  neg : N → N
  isZero : N → Bool
  isFinite : N → Bool
  /-- less than `1e-9` apart -/
  same : N → N → Bool
  less : N → N → Bool
  /-- the number of a truth value -/
  flag : Bool → N
  parse : List U8 → Option N
  format : N → Text
  foreign : Text → Option (ForeignSheet N)
  words : List U8 → Option (CalcValue N × List U8)

/-! ### Bytes -/

/-- The byte of an ASCII character. -/
def ascii (c : Char) : U8 := Fin.ofNat (2 ^ 8) c.toNat

/-- `is_ascii_whitespace` -/
def isSpace (b : U8) : Bool :=
  b = ascii ' ' ∨ b = ascii '\t' ∨ b = ascii '\n' ∨ b = ascii '\r' ∨ b = Fin.ofNat (2 ^ 8) 12

/-- `is_ascii_digit` -/
def isDigitByte (b : U8) : Bool := ascii '0' ≤ b ∧ b ≤ ascii '9'

/-- `is_ascii_alphabetic` -/
def isLetterByte (b : U8) : Bool := ascii 'a' ≤ b ∧ b ≤ ascii 'z' ∨ ascii 'A' ≤ b ∧ b ≤ ascii 'Z'

/-- `CalcParser::skip` -/
def skip (bytes : List U8) : List U8 := bytes.dropWhile isSpace

/-! ### Pieces -/

/-- The rest of a string in double quotes. -/
def quotedFrom : List U8 → (raw : List U8) → Option (List U8 × List U8)
  | [], _ => none
  | [b], raw => if b = quoteByte then some (raw, []) else none
  | b :: c :: bytes, raw =>
    if b = quoteByte then
      if c = quoteByte then quotedFrom bytes (raw ++ [quoteByte]) else some (raw, c :: bytes)
    else quotedFrom (c :: bytes) (raw ++ [b])

/-- The rest of a name in apostrophes, of at most 128 bytes. -/
def quotedSheetFrom : List U8 → (raw : List U8) → Option (List U8 × List U8)
  | [], _ => none
  | [b], raw => if b = ascii '\'' then some (raw, []) else none
  | b :: c :: bytes, raw =>
    if b = ascii '\'' then
      if c = ascii '\'' then quotedSheetFrom bytes (raw ++ [ascii '\'']) else some (raw, c :: bytes)
    else if 128 < raw.length + 1 then none
    else quotedSheetFrom (c :: bytes) (raw ++ [b])

/-- `quoted_sheet`, behind the first apostrophe. -/
def quotedSheet (bytes : List U8) : Option (Text × List U8) := do
  let (raw, rest) ← quotedSheetFrom bytes []
  let name ← utf8Text raw
  if name.length = 0 ∨ 31 < name.length then none else some (name, rest)

/-- The length of a word: a point belongs to it in front of a letter or a digit. -/
def wordLength : List U8 → ℕ
  | [] => 0
  | b :: bytes =>
    if isLetterByte b || isDigitByte b || b = ascii '$' || b = ascii '_' then wordLength bytes + 1
    else if b = ascii '.' ∧ bytes.head?.any fun c => isLetterByte c || isDigitByte c then
      wordLength bytes + 1
    else 0

/-- `is_cell_address`: up to three letters, then up to seven digits. -/
def isCellAddress (word : List U8) : Bool :=
  let letters := word.takeWhile isLetterByte
  let digits := word.dropWhile isLetterByte
  1 ≤ letters.length ∧ letters.length ≤ 3 ∧ 1 ≤ digits.length ∧ digits.length ≤ 7 ∧
    digits.all isDigitByte

/-- `cell_token`: a word that is an address once its dollar signs are left out. -/
def cellToken (bytes : List U8) : Option (Text × List U8) := do
  let word := (bytes.take (wordLength bytes)).filter fun b => b ≠ ascii '$'
  if wordLength bytes = 0 ∨ isCellAddress word = false then none
  else do
    let text ← utf8Text word
    some (text, bytes.drop (wordLength bytes))

section Parser

variable {N : Type} (env : CalcEnv N)

/-- `foreign_cell` -/
def foreignCell (sheet : Text) (bytes : List U8) : Option (CalcValue N × List U8) :=
  match skip bytes with
  | [] => none
  | b :: bytes =>
    if b = ascii '!' then do
      let (address, rest) ← cellToken bytes
      if (skip rest).head? = some (ascii ':') then none
      else do
        let book ← env.foreign (toAsciiLowercase sheet)
        let address := address.map Char.toUpper
        match book.literals address with
        | some number => if env.isFinite number then some (.num number, skip rest) else none
        | none => (book.texts address).map fun text => (.text text, skip rest)
    else none

/-- `calc_num` -/
def calcNum : CalcValue N → Option N
  | .num number => some number
  | .text _ => none

/-- `calc_text` -/
def calcText : CalcValue N → Text
  | .num number => env.format number
  | .text part => part

/-- A value and, as long as an operator follows, the next one. -/
def chain (next : List U8 → Option (CalcValue N × List U8))
    (operator : U8 → Option (CalcValue N → CalcValue N → Option (CalcValue N))) :
    (fuel : ℕ) → CalcValue N → List U8 → Option (CalcValue N × List U8)
  | 0, _, _ => none
  | fuel + 1, value, bytes =>
    match skip bytes with
    | [] => some (value, [])
    | b :: rest =>
      match operator b with
      | none => some (value, b :: rest)
      | some combine => do
        let (right, rest) ← next rest
        let value ← combine value right
        chain next operator fuel value rest

/-- An operator on numbers. -/
def onNumbers (f : N → N → Option N) (left right : CalcValue N) : Option (CalcValue N) := do
  let left ← calcNum left
  let right ← calcNum right
  let number ← f left right
  some (.num number)

/-- The operators of `term`. -/
def termOperator (b : U8) : Option (CalcValue N → CalcValue N → Option (CalcValue N)) :=
  if b = ascii '*' then some (onNumbers fun left right => some (env.mul left right))
  else if b = ascii '/' then
    some (onNumbers fun left right =>
      if env.isZero right then none else some (env.div left right))
  else none

/-- The operators of `expr`. -/
def exprOperator (b : U8) : Option (CalcValue N → CalcValue N → Option (CalcValue N)) :=
  if b = ascii '+' then some (onNumbers fun left right => some (env.add left right))
  else if b = ascii '-' then some (onNumbers fun left right => some (env.sub left right))
  else none

/-- The operator of `join`. -/
def joinOperator (b : U8) : Option (CalcValue N → CalcValue N → Option (CalcValue N)) :=
  if b = ascii '&' then
    some fun left right => some (.text (calcText env left ++ calcText env right))
  else none

/-- `term`, `expr` or `join`: a value of the layer below and what follows. -/
def layer (next : List U8 → Option (CalcValue N × List U8))
    (operator : U8 → Option (CalcValue N → CalcValue N → Option (CalcValue N))) (fuel : ℕ)
    (bytes : List U8) : Option (CalcValue N × List U8) := do
  let (value, rest) ← next bytes
  chain next operator fuel value rest

/-- `cmp_op` -/
def cmpOp : List U8 → Option ((N → N → Bool) × List U8)
  | [] => none
  | b :: rest =>
    if b = ascii '=' then some (env.same, rest)
    else if b = ascii '<' then
      if rest.head? = some (ascii '>') then some (fun l r => !env.same l r, rest.tail)
      else if rest.head? = some (ascii '=') then
        some (fun l r => env.less l r || env.same l r, rest.tail)
      else some (fun l r => env.less l r && !env.same l r, rest)
    else if b = ascii '>' then
      if rest.head? = some (ascii '=') then
        some (fun l r => env.less r l || env.same l r, rest.tail)
      else some (fun l r => env.less r l && !env.same l r, rest)
    else none

/-- `compare`, over `factor`. -/
def compareWith (factor : List U8 → Option (CalcValue N × List U8)) (fuel : ℕ) (bytes : List U8) :
    Option (CalcValue N × List U8) := do
  let join := layer (layer (layer factor (termOperator env) fuel) (exprOperator env) fuel)
    (joinOperator env) fuel
  let (left, rest) ← join bytes
  match cmpOp env (skip rest) with
  | none => some (left, skip rest)
  | some (op, rest) => do
    let (right, rest) ← join rest
    let left ← calcNum left
    let right ← calcNum right
    some (.num (env.flag (op left right)), rest)

/-- `factor` -/
def factor : (fuel : ℕ) → List U8 → Option (CalcValue N × List U8)
  | 0, _ => none
  | fuel + 1, bytes =>
    match skip bytes with
    | [] => none
    | b :: rest =>
      if b = ascii '+' then factor fuel rest
      else if b = ascii '-' then do
        let (value, rest) ← factor fuel rest
        let number ← calcNum value
        some (.num (env.neg number), rest)
      else if b = openByte then do
        let (value, rest) ← compareWith env (factor fuel) fuel rest
        if (skip rest).head? = some closeByte then some (value, (skip rest).tail) else none
      else if b = quoteByte then do
        let (raw, rest) ← quotedFrom rest []
        let text ← utf8Text raw
        some (.text text, rest)
      else if isDigitByte b || b = ascii '.' then
        let digits := (b :: rest).takeWhile fun c => isDigitByte c || c = ascii '.'
        (env.parse digits).map fun number =>
          (.num number, (b :: rest).dropWhile fun c => isDigitByte c || c = ascii '.')
      else if b = ascii '\'' then do
        let (name, rest) ← quotedSheet rest
        foreignCell env name rest
      else env.words (b :: rest)

/-- `compare` -/
def compare (fuel : ℕ) (bytes : List U8) : Option (CalcValue N × List U8) :=
  compareWith env (factor env fuel) fuel bytes

/-- `eval_slice` with `kept_calc` -/
def evalSlice (fuel : ℕ) (bytes : List U8) : Option (CalcValue N) := do
  let (value, rest) ← compare env fuel bytes
  if skip rest = [] then
    match value with
    | .num number => if env.isFinite number then some (.num number) else none
    | .text part => some (.text part)
  else none

/-- The parser accepts a text as an argument. -/
def Accepted (bytes : List U8) : Prop := ∃ fuel, (evalSlice env fuel bytes).isSome

end Parser

/-- A book in which the sheet `a,b` has a number in `A1`. -/
def commaBook : CalcEnv ℕ where
  add left right := left + right
  sub left right := left - right
  mul left right := left * right
  div left right := left / right
  neg number := number
  isZero number := number = 0
  isFinite _ := true
  same left right := left = right
  less left right := left < right
  flag truth := if truth then 1 else 0
  parse _ := some 1
  format _ := []
  foreign sheet := if sheet = "a,b".toList then
      some ⟨fun address => if address = "A1".toList then some 1 else none, fun _ => none⟩
    else none
  words _ := none

/-- `CHOOSE(1,'a,b'!A1)` -/
theorem not_splitTopArgs : ¬ ∀ (N : Type) (env : CalcEnv N) (front : List U8)
    (args : List (List U8)) (rest : List U8), args ≠ [] → (∀ arg ∈ args, Accepted env arg) →
    splitTopArgs (front ++ (joinArgs args ++ closeByte :: rest)) front.length =
      some (argRanges front.length args, front.length + (joinArgs args).length + 1) := by
  intro h
  have hone : Accepted commaBook (utf8Bytes "1".toList) := ⟨2, by decide⟩
  have hsheet : Accepted commaBook (utf8Bytes "'a,b'!A1".toList) := by
    refine ⟨2, ?_⟩
    decide
  have hsplit := h ℕ commaBook (utf8Bytes "CHOOSE(".toList)
    [utf8Bytes "1".toList, utf8Bytes "'a,b'!A1".toList] [] (by decide)
    (by simpa using ⟨hone, hsheet⟩)
  revert hsplit
  decide

/-! ### Where scanner and parser agree -/

/-- The scanner of arguments comes through a text as if it were not there. -/
def Neutral (used : List U8) : Prop :=
  ∀ depth rest, comesThrough (used ++ rest) depth false = comesThrough rest depth false

lemma neutral_nil : Neutral [] := fun _ _ => rfl

lemma Neutral.append {used used' : List U8} (h : Neutral used) (h' : Neutral used') :
    Neutral (used ++ used') := by
  intro depth rest
  rw [List.append_assoc, h, h']

/-- A byte that the scanner does not look at. -/
def IsPlain (b : U8) : Prop := b ≠ quoteByte ∧ b ≠ openByte ∧ b ≠ closeByte ∧ b ≠ commaByte

lemma neutral_cons {b : U8} (hb : IsPlain b) {used : List U8} (h : Neutral used) :
    Neutral (b :: used) := by
  intro depth rest
  rw [List.cons_append, comesThrough, if_neg hb.1, if_neg Bool.false_ne_true, if_neg hb.2.1,
    if_neg hb.2.2.1, if_neg hb.2.2.2, h]

lemma neutral_of_plain {used : List U8} (h : ∀ b ∈ used, IsPlain b) : Neutral used := by
  induction used with
  | nil => exact neutral_nil
  | cons b used ih =>
    exact neutral_cons (h b List.mem_cons_self) (ih fun c hc => h c (List.mem_cons_of_mem _ hc))

lemma neutral_parens {used : List U8} (h : Neutral used) :
    Neutral (openByte :: (used ++ [closeByte])) := by
  intro depth rest
  have hopen : openByte ≠ quoteByte := by decide
  have hclose : closeByte ≠ quoteByte := by decide
  have hne : closeByte ≠ openByte := by decide
  rw [List.cons_append, comesThrough, if_neg hopen, if_neg Bool.false_ne_true, if_pos rfl,
    List.append_assoc, h, List.singleton_append, comesThrough, if_neg hclose,
    if_neg Bool.false_ne_true, if_neg hne, if_pos rfl]
  simp

lemma isPlain_of_isSpace : ∀ b : U8, isSpace b = true → IsPlain b := by
  unfold IsPlain
  decide +kernel

lemma isPlain_of_digit :
    ∀ b : U8, (isDigitByte b || decide (b = ascii '.')) = true → IsPlain b := by
  unfold IsPlain
  decide +kernel

lemma exists_skip (bytes : List U8) : ∃ used, bytes = used ++ skip bytes ∧ Neutral used :=
  ⟨bytes.takeWhile isSpace, (List.takeWhile_append_dropWhile).symm,
    neutral_of_plain fun _ hb => isPlain_of_isSpace _ (List.mem_takeWhile_imp hb)⟩

/-- The rest of a string, quotes of both ends of it left out: the scanner is outside behind it. -/
lemma exists_quoted {bytes raw raw' rest : List U8} (h : quotedFrom bytes raw = some (raw', rest)) :
    ∃ used, bytes = used ++ rest ∧
      ∀ depth more, comesThrough (used ++ more) depth true = comesThrough more depth false := by
  fun_induction quotedFrom bytes raw with
  | case1 => cases h
  | case2 raw =>
    obtain ⟨-, rfl⟩ := Prod.mk.inj (Option.some.inj h)
    exact ⟨[quoteByte], rfl, fun depth more => by simp [comesThrough]⟩
  | case3 => cases h
  | case4 bytes raw ih =>
    obtain ⟨used, rfl, hused⟩ := ih h
    refine ⟨quoteByte :: quoteByte :: used, rfl, fun depth more => ?_⟩
    rw [List.cons_append, List.cons_append, comesThrough, if_pos rfl, comesThrough, if_pos rfl]
    exact hused depth more
  | case5 c bytes raw hc =>
    obtain ⟨-, rfl⟩ := Prod.mk.inj (Option.some.inj h)
    exact ⟨[quoteByte], rfl, fun depth more => by simp [comesThrough]⟩
  | case6 b c bytes raw hb ih =>
    obtain ⟨used, heq, hused⟩ := ih h
    refine ⟨b :: used, by rw [heq]; rfl, fun depth more => ?_⟩
    rw [List.cons_append, comesThrough, if_neg hb, if_pos rfl]
    exact hused depth more

section Agreement

variable {N : Type} {env : CalcEnv N}

/-- What a parser takes from a text without apostrophes is nothing to the scanner. -/
def TakesNeutral (parser : List U8 → Option (CalcValue N × List U8)) : Prop :=
  ∀ bytes value rest, ascii '\'' ∉ bytes → parser bytes = some (value, rest) →
    ∃ used, bytes = used ++ rest ∧ Neutral used

lemma notMem_rest {used rest : List U8} (h : ascii '\'' ∉ used ++ rest) : ascii '\'' ∉ rest :=
  fun hmem => h (List.mem_append_right _ hmem)

lemma takesNeutral_chain {next : List U8 → Option (CalcValue N × List U8)}
    (hnext : TakesNeutral next)
    {operator : U8 → Option (CalcValue N → CalcValue N → Option (CalcValue N))}
    (hoperator : ∀ b combine, operator b = some combine → IsPlain b) (fuel : ℕ)
    (value : CalcValue N) : TakesNeutral (chain next operator fuel value) := by
  induction fuel generalizing value with
  | zero => exact fun _ _ _ _ h => by cases h
  | succ fuel ih =>
    intro bytes result rest hquote h
    obtain ⟨spaces, hbytes, hspaces⟩ := exists_skip bytes
    rw [chain] at h
    cases hskip : skip bytes with
    | nil =>
      simp only [hskip] at h
      obtain ⟨-, rfl⟩ := Prod.mk.inj (Option.some.inj h)
      exact ⟨spaces, by rw [← hskip]; exact hbytes, hspaces⟩
    | cons b tail =>
      rw [hskip] at hbytes
      rw [hbytes] at hquote
      have htail : ascii '\'' ∉ tail := fun hmem =>
        notMem_rest hquote (List.mem_cons_of_mem _ hmem)
      simp only [hskip] at h
      cases hop : operator b with
      | none =>
        simp only [hop] at h
        obtain ⟨-, rfl⟩ := Prod.mk.inj (Option.some.inj h)
        exact ⟨spaces, hbytes, hspaces⟩
      | some combine =>
        simp only [hop] at h
        obtain ⟨⟨right, more⟩, hright, hloop⟩ := Option.bind_eq_some_iff.mp h
        obtain ⟨combined, -, hrest⟩ := Option.bind_eq_some_iff.mp hloop
        obtain ⟨used, rfl, hused⟩ := hnext tail right more htail hright
        obtain ⟨used', rfl, hused'⟩ := ih combined more result rest (notMem_rest htail) hrest
        refine ⟨spaces ++ b :: (used ++ used'), by simp [hbytes], ?_⟩
        exact hspaces.append (neutral_cons (hoperator b combine hop) (hused.append hused'))

lemma takesNeutral_layer {next : List U8 → Option (CalcValue N × List U8)}
    (hnext : TakesNeutral next)
    {operator : U8 → Option (CalcValue N → CalcValue N → Option (CalcValue N))}
    (hoperator : ∀ b combine, operator b = some combine → IsPlain b) (fuel : ℕ) :
    TakesNeutral (layer next operator fuel) := by
  intro bytes result rest hquote h
  obtain ⟨⟨value, more⟩, hvalue, hchain⟩ := Option.bind_eq_some_iff.mp h
  obtain ⟨used, rfl, hused⟩ := hnext bytes value more hquote hvalue
  obtain ⟨used', rfl, hused'⟩ :=
    takesNeutral_chain hnext hoperator fuel value more result rest (notMem_rest hquote) hchain
  exact ⟨used ++ used', by rw [List.append_assoc], hused.append hused'⟩

lemma isPlain_termOperator {b : U8} {combine : CalcValue N → CalcValue N → Option (CalcValue N)}
    (h : termOperator env b = some combine) : IsPlain b := by
  unfold termOperator at h
  split_ifs at h with hmul hdiv
  · exact hmul ▸ by unfold IsPlain; decide
  · exact hdiv ▸ by unfold IsPlain; decide

lemma isPlain_exprOperator {b : U8} {combine : CalcValue N → CalcValue N → Option (CalcValue N)}
    (h : exprOperator env b = some combine) : IsPlain b := by
  unfold exprOperator at h
  split_ifs at h with hadd hsub
  · exact hadd ▸ by unfold IsPlain; decide
  · exact hsub ▸ by unfold IsPlain; decide

lemma isPlain_joinOperator {b : U8} {combine : CalcValue N → CalcValue N → Option (CalcValue N)}
    (h : joinOperator env b = some combine) : IsPlain b := by
  unfold joinOperator at h
  split_ifs at h with hjoin
  exact hjoin ▸ by unfold IsPlain; decide

/-- What is read as an operator of a comparison is plain. -/
lemma exists_cmpOp {bytes rest : List U8} {op : N → N → Bool}
    (h : cmpOp env bytes = some (op, rest)) : ∃ used, bytes = used ++ rest ∧ Neutral used := by
  have hplain : IsPlain (ascii '=') ∧ IsPlain (ascii '<') ∧ IsPlain (ascii '>') := by
    unfold IsPlain
    decide
  cases bytes with
  | nil => cases h
  | cons b bytes =>
    have hone {rest : List U8} (hb : IsPlain b) (heq : bytes = rest) :
        ∃ used, b :: bytes = used ++ rest ∧ Neutral used :=
      ⟨[b], by rw [heq]; rfl, neutral_cons hb neutral_nil⟩
    have htwo {c : U8} {rest : List U8} (hb : IsPlain b) (hc : IsPlain c)
        (hhead : bytes.head? = some c) (heq : bytes.tail = rest) :
        ∃ used, b :: bytes = used ++ rest ∧ Neutral used := by
      obtain ⟨tail, rfl⟩ := List.head?_eq_some_iff.mp hhead
      exact ⟨[b, c], by rw [← heq]; rfl, neutral_cons hb (neutral_cons hc neutral_nil)⟩
    rw [cmpOp] at h
    split_ifs at h with h₁ h₂ h₃ h₄ h₅ h₆
    · exact hone (h₁ ▸ hplain.1) (Prod.mk.inj (Option.some.inj h)).2
    · exact htwo (h₂ ▸ hplain.2.1) hplain.2.2 h₃ (Prod.mk.inj (Option.some.inj h)).2
    · exact htwo (h₂ ▸ hplain.2.1) hplain.1 h₄ (Prod.mk.inj (Option.some.inj h)).2
    · exact hone (h₂ ▸ hplain.2.1) (Prod.mk.inj (Option.some.inj h)).2
    · exact htwo (h₅ ▸ hplain.2.2) hplain.1 h₆ (Prod.mk.inj (Option.some.inj h)).2
    · exact hone (h₅ ▸ hplain.2.2) (Prod.mk.inj (Option.some.inj h)).2

lemma takesNeutral_compareWith {factor : List U8 → Option (CalcValue N × List U8)}
    (hfactor : TakesNeutral factor) (fuel : ℕ) : TakesNeutral (compareWith env factor fuel) := by
  intro bytes result rest hquote h
  have hjoin := takesNeutral_layer
    (takesNeutral_layer
      (takesNeutral_layer hfactor (fun _ _ => @isPlain_termOperator N env _ _) fuel)
      (fun _ _ => @isPlain_exprOperator N env _ _) fuel)
    (fun _ _ => @isPlain_joinOperator N env _ _) fuel
  obtain ⟨⟨left, more⟩, hleft, hrest⟩ := Option.bind_eq_some_iff.mp h
  obtain ⟨used, rfl, hused⟩ := hjoin bytes left more hquote hleft
  obtain ⟨spaces, hmore, hspaces⟩ := exists_skip more
  cases hop : cmpOp env (skip more) with
  | none =>
    simp only [hop] at hrest
    obtain ⟨-, rfl⟩ := Prod.mk.inj (Option.some.inj hrest)
    exact ⟨used ++ spaces, by rw [List.append_assoc, ← hmore], hused.append hspaces⟩
  | some found =>
    obtain ⟨op, behind⟩ := found
    simp only [hop] at hrest
    obtain ⟨operator, hskip, hoperator⟩ := exists_cmpOp hop
    obtain ⟨⟨right, last⟩, hright, hvalue⟩ := Option.bind_eq_some_iff.mp hrest
    obtain ⟨_, -, hvalue⟩ := Option.bind_eq_some_iff.mp hvalue
    obtain ⟨_, -, hvalue⟩ := Option.bind_eq_some_iff.mp hvalue
    obtain ⟨-, rfl⟩ := Prod.mk.inj (Option.some.inj hvalue)
    have hbehind : ascii '\'' ∉ behind := by
      have hall := notMem_rest hquote
      rw [hmore, hskip] at hall
      exact notMem_rest (notMem_rest hall)
    obtain ⟨used', rfl, hused'⟩ := hjoin behind right last hbehind hright
    refine ⟨used ++ (spaces ++ (operator ++ used')), ?_,
      hused.append (hspaces.append (hoperator.append hused'))⟩
    rw [hmore, hskip]
    simp only [List.append_assoc]

lemma takesNeutral_factor (hwords : TakesNeutral env.words) (fuel : ℕ) :
    TakesNeutral (factor env fuel) := by
  induction fuel with
  | zero => exact fun _ _ _ _ h => by cases h
  | succ fuel ih =>
    intro bytes result rest hquote h
    obtain ⟨spaces, hbytes, hspaces⟩ := exists_skip bytes
    rw [factor] at h
    cases hskip : skip bytes with
    | nil =>
      simp only [hskip] at h
      cases h
    | cons b tail =>
      rw [hskip] at hbytes
      rw [hbytes] at hquote ⊢
      have htail : ascii '\'' ∉ tail := fun hmem =>
        notMem_rest hquote (List.mem_cons_of_mem _ hmem)
      have hsign {used : List U8} (hb : IsPlain b) (heq : tail = used ++ rest)
          (hused : Neutral used) : ∃ used, spaces ++ b :: tail = used ++ rest ∧ Neutral used :=
        ⟨spaces ++ b :: used, by simp [heq], hspaces.append (neutral_cons hb hused)⟩
      have hhere {used : List U8} (heq : b :: tail = used ++ rest) (hused : Neutral used) :
          ∃ used, spaces ++ b :: tail = used ++ rest ∧ Neutral used :=
        ⟨spaces ++ used, by rw [heq, List.append_assoc], hspaces.append hused⟩
      have hplain : IsPlain (ascii '+') ∧ IsPlain (ascii '-') := by
        unfold IsPlain
        decide
      simp only [hskip] at h
      split_ifs at h with hplus hminus hopen hdouble hnumber hsheet
      · obtain ⟨used, heq, hused⟩ := ih tail result rest htail h
        exact hsign (hplus ▸ hplain.1) heq hused
      · obtain ⟨⟨value, more⟩, hvalue, hrest⟩ := Option.bind_eq_some_iff.mp h
        obtain ⟨_, -, hrest⟩ := Option.bind_eq_some_iff.mp hrest
        obtain ⟨-, rfl⟩ := Prod.mk.inj (Option.some.inj hrest)
        obtain ⟨used, heq, hused⟩ := ih tail value more htail hvalue
        exact hsign (hminus ▸ hplain.2) heq hused
      · obtain ⟨⟨value, more⟩, hvalue, hrest⟩ := Option.bind_eq_some_iff.mp h
        obtain ⟨used, heq, hused⟩ :=
          takesNeutral_compareWith ih fuel tail value more htail hvalue
        obtain ⟨inner, hmore, hinner⟩ := exists_skip more
        simp only at hrest
        split_ifs at hrest with hclosed
        obtain ⟨-, rfl⟩ := Prod.mk.inj (Option.some.inj hrest)
        obtain ⟨behind, hbehind⟩ := List.head?_eq_some_iff.mp hclosed
        have htailEq : (skip more).tail = behind := by rw [hbehind, List.tail_cons]
        rw [hbehind] at hmore
        refine hhere ?_ (neutral_parens (hused.append hinner))
        rw [htailEq, hopen, heq, hmore]
        simp
      · obtain ⟨⟨raw, more⟩, hraw, hrest⟩ := Option.bind_eq_some_iff.mp h
        obtain ⟨_, -, hrest⟩ := Option.bind_eq_some_iff.mp hrest
        obtain ⟨-, rfl⟩ := Prod.mk.inj (Option.some.inj hrest)
        obtain ⟨used, heq, hused⟩ := exists_quoted hraw
        have hneutral : Neutral (quoteByte :: used) := by
          intro depth behind
          rw [List.cons_append, comesThrough, if_pos rfl]
          exact hused depth behind
        exact hhere (by rw [hdouble, heq]; rfl) hneutral
      · obtain ⟨number, -, hrest⟩ := Option.map_eq_some_iff.mp h
        obtain ⟨-, rfl⟩ := Prod.mk.inj hrest
        exact hhere (List.takeWhile_append_dropWhile).symm
          (neutral_of_plain fun c hc =>
            isPlain_of_digit c (by simpa using List.mem_takeWhile_imp hc))
      · exact absurd (hsheet ▸ List.mem_append_right _ List.mem_cons_self) hquote
      · obtain ⟨used, heq, hused⟩ := hwords (b :: tail) result rest (notMem_rest hquote) h
        exact hhere heq hused

/-- An argument without apostrophes that the parser accepts is balanced, if what the parser takes
for calls, cells and names is: the scanner and the grammar agree. -/
theorem balanced_of_accepted (hwords : TakesNeutral env.words) {arg : List U8}
    (hquote : ascii '\'' ∉ arg) (h : Accepted env arg) : Balanced arg := by
  obtain ⟨fuel, hsome⟩ := h
  obtain ⟨value, hvalue⟩ := Option.isSome_iff_exists.mp hsome
  obtain ⟨⟨found, rest⟩, hfound, hrest⟩ := Option.bind_eq_some_iff.mp hvalue
  obtain ⟨used, rfl, hused⟩ :=
    takesNeutral_compareWith (takesNeutral_factor hwords fuel) fuel arg found rest hquote hfound
  obtain ⟨spaces, hspaces, hneutral⟩ := exists_skip rest
  simp only at hrest
  split_ifs at hrest with hend
  rw [hend, List.append_nil] at hspaces
  have hthrough := (hused.append (hspaces ▸ hneutral)) 0 []
  rw [List.append_nil] at hthrough
  exact comesThrough_iff_balanced.mp hthrough

end Agreement

end Orchid.Sheet
