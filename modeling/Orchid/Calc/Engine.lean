import Orchid.Base.Machine

/-!
# The calculator engine

The state of the calculator and its keys; `builtin/calculator/engine.rs`. Numbers and their
arithmetic are given, whatever they are; the expression line, the history, the memory and the keys
of one operand are left out.
-/

namespace Orchid.Calc

/-- `CalcMode` -/
inductive CalcMode
  | standard
  | scientific
  deriving DecidableEq

/-- `CalcError` -/
inductive CalcError
  | divideByZero
  | invalidInput
  | overflow
  | domain
  deriving DecidableEq

/-- `BinOp` -/
inductive BinOp
  | add
  | sub
  | mul
  | div
  | pow
  | yRoot
  | mod
  deriving DecidableEq

namespace BinOp

def precedence : BinOp → ℕ
  | add | sub => 1
  | mul | div | mod => 2
  | pow | yRoot => 3

def rightAssoc : BinOp → Bool
  | pow | yRoot => true
  | _ => false

/-- The operators that do not take a zero on the right. -/
def refusesZero : BinOp → Bool
  | div | yRoot | mod => true
  | _ => false

end BinOp

/-- `CalcKey` -/
inductive CalcKey
  | digit (d : Fin 10)
  | decimal
  | binary (op : BinOp)
  | equals
  | openParen
  | closeParen

/-! ### Numbers -/

/-- `char::from(b'0' + d)` -/
def digitChar (d : Fin 10) : Char := Char.ofNat (48 + d.val)

/-- `MAX_DIGITS` -/
def maxDigits : ℕ := 16

/-- A number as it is typed: its digits, and those behind the point if there is one. -/
structure Number where
  whole : List (Fin 10)
  frac : Option (List (Fin 10))
  nonempty : whole ≠ []
  noLeadingZero : whole.head? = some 0 → whole = [0]
  short : whole.length + (frac.getD []).length ≤ maxDigits

/-- The text of a number. -/
def Number.text (n : Number) : Text :=
  n.whole.map digitChar ++
    match n.frac with
    | none => []
    | some ds => '.' :: ds.map digitChar

/-- The keys that type a number. -/
def Number.keys (n : Number) : List CalcKey :=
  n.whole.map .digit ++
    match n.frac with
    | none => []
    | some ds => .decimal :: ds.map .digit

/-- The arithmetic of the calculator. -/
structure Arithmetic (α : Type) where
  zero : α
  isZero : α → Bool
  raw : BinOp → α → α → α
  /-- how a value is not finite, if it is not -/
  fault : α → Option CalcError
  /-- `str::parse` -/
  parse : Text → Option α
  parses : ∀ n : Number, ∃ v, parse n.text = some v ∧ fault v = none

namespace Arithmetic

variable {α : Type} (A : Arithmetic α)

def finite (v : α) : Except CalcError α :=
  match A.fault v with
  | some e => .error e
  | none => .ok v

/-- `apply` -/
def apply (op : BinOp) (a b : α) : Except CalcError α :=
  if op.refusesZero && A.isZero b then .error .divideByZero else A.finite (A.raw op a b)

/-- `parse_entry` -/
def parseEntry (s : Text) : Option α :=
  if s = [] ∨ s = ['-'] ∨ s = ['.'] ∨ s = ['-', '.'] then some A.zero
  else if s.getLast? = some 'e' ∨ s.getLast? = some 'E' then
    some ((A.parse s.dropLast).getD A.zero)
  else if s.dropLast.getLast? = some 'e' ∨ s.dropLast.getLast? = some 'E' then
    if s.getLast? = some '-' ∨ s.getLast? = some '+' then
      some ((A.parse s.dropLast.dropLast).getD A.zero)
    else A.parse s
  else A.parse s

end Arithmetic

/-! ### The state -/

/-- `Frame` -/
inductive Frame (α : Type)
  | pending (value : α) (op : BinOp)
  | paren (pending : Option (α × BinOp))

/-- `Calculator`; the innermost frame comes first. -/
structure Calculator (α : Type) where
  mode : CalcMode
  error : Option CalcError := none
  entry : Text := []
  value : α
  entering : Bool := false
  overwrite : Bool := true
  lastOp : Option (BinOp × α) := none
  stack : List (Frame α) := []
  pending : Option (α × BinOp) := none

namespace Calculator

variable {α : Type} (A : Arithmetic α)

def new (mode : CalcMode) : Calculator α := { mode, value := A.zero }

def setError (c : Calculator α) (e : CalcError) : Calculator α :=
  { c with
    error := some e, pending := none, stack := [], lastOp := none, entering := false
    overwrite := true, entry := [] }

def setValue (c : Calculator α) (v : α) : Calculator α :=
  match A.finite v with
  | .ok v => { c with error := none, value := v, entry := [] }
  | .error e => c.setError e

/-- `current_value` -/
def currentValue (c : Calculator α) : Except CalcError α :=
  match c.error with
  | some e => .error e
  | none =>
    if c.entering ∧ c.entry ≠ [] then
      match A.parseEntry c.entry with
      | some v => .ok v
      | none => .error .invalidInput
    else A.finite c.value

/-! ### Typing a number -/

/-- `significant_digit_count` -/
def significantDigitCount (s : Text) : ℕ :=
  ((s.takeWhile fun c => c ≠ 'e' && c ≠ 'E').filter fun c => c.isDigit).length

def clearAll (c : Calculator α) : Calculator α := .new A c.mode

/-- The entry begins anew unless a number is being typed. -/
def beginEntry (c : Calculator α) (entry : Text) : Calculator α :=
  if c.overwrite || !c.entering then { c with entry, entering := true, overwrite := false } else c

def inputDigit (c : Calculator α) (d : Fin 10) : Calculator α :=
  let c := { c with lastOp := none }.beginEntry []
  let c := if c.entry = ['0'] then { c with entry := [] } else c
  if maxDigits ≤ significantDigitCount c.entry then c
  else
    let entry := c.entry ++ [digitChar d]
    { c with entry, value := (A.parseEntry entry).getD A.zero }

def inputDecimal (c : Calculator α) : Calculator α :=
  let c := { c with lastOp := none }.beginEntry ['0']
  if '.' ∈ c.entry ∨ 'e' ∈ c.entry ∨ 'E' ∈ c.entry then c
  else { c with entry := (if c.entry = [] then ['0'] else c.entry) ++ ['.'] }

/-! ### Operators -/

/-- Whether an operator makes the one before it be carried out. -/
def shouldReduce (mode : CalcMode) (prev op : BinOp) : Bool :=
  match mode with
  | .standard => true
  | .scientific =>
    op.precedence < prev.precedence || (prev.precedence = op.precedence && !op.rightAssoc)

/-- `binary` -/
def binary (c : Calculator α) (op : BinOp) : Calculator α :=
  match c.currentValue A with
  | .error _ => c
  | .ok current =>
    let c := { c with lastOp := none }
    match c.pending with
    | some (left, prev) =>
      if shouldReduce c.mode prev op then
        match A.apply prev left current with
        | .ok v =>
          { c with
            value := v, pending := some (v, op), entering := false, overwrite := true, entry := [] }
        | .error e => c.setError e
      else
        { c with
          stack := .pending left prev :: c.stack, pending := some (current, op)
          entering := false, overwrite := true, entry := [] }
    | none =>
      { c with
        pending := some (current, op), entering := false, overwrite := true, entry := [] }

/-! ### Parentheses -/

def openParen (c : Calculator α) : Calculator α :=
  if c.mode = .standard then c
  else
    { c with
      stack := .paren c.pending :: c.stack, pending := none, entering := false
      overwrite := true, entry := [], value := A.zero, lastOp := none }

/-- The pending operator is carried out. -/
def reducePending (pending : Option (α × BinOp)) (current : α) : Except CalcError α :=
  match pending with
  | some (left, op) => A.apply op left current
  | none => .ok current

/-- The operators down to the innermost parenthesis are carried out. -/
def reduceToParen : List (Frame α) → α → Except CalcError (α × List (Frame α))
  | .pending value op :: rest, current => do
    let v ← A.apply op value current
    reduceToParen rest v
  | stack, current => .ok (current, stack)

/-- `close_paren_inner` -/
def closeParenInner (c : Calculator α) (current : α) : Except CalcError (Calculator α × α) := do
  let v ← reducePending A c.pending current
  let r ← reduceToParen A c.stack v
  match r.2 with
  | .paren pending :: stack => return ({ c with pending, stack }, r.1)
  | _ => .error .invalidInput

/-- `close_paren` -/
def closeParen (c : Calculator α) : Calculator α :=
  if c.mode = .standard then c
  else
    match c.currentValue A with
    | .error _ => c
    | .ok current =>
      match closeParenInner A c current with
      | .error e => c.setError e
      | .ok (c, current) =>
        { c.setValue A current with
          entering := false, overwrite := true, entry := [], lastOp := none }

/-! ### Equals -/

/-- Whether a parenthesis is open. -/
def Frame.isParen : Frame α → Bool
  | .paren _ => true
  | .pending _ _ => false

/-- The open parentheses are closed, at most as many as there are frames. -/
def closeParens : ℕ → Calculator α → α → Except CalcError (Calculator α × α)
  | 0, c, current => .ok (c, current)
  | n + 1, c, current =>
    if c.stack.any Frame.isParen then do
      let r ← closeParenInner A c current
      closeParens n r.1 r.2
    else .ok (c, current)

/-- A result with the last operator and its right-hand side. -/
abbrev Reduced (α : Type) := α × Option (BinOp × α)

def reduceLast (pending : Option (α × BinOp)) (r : Reduced α) : Except CalcError (Reduced α) :=
  match pending with
  | some (left, op) => (A.apply op left r.1).map fun v => (v, some (op, r.1))
  | none => .ok r

/-- The frames are carried out from the innermost one. -/
def reduceStack : List (Frame α) → Reduced α → Except CalcError (Reduced α)
  | [], r => .ok r
  | .pending value op :: rest, r => do
    let r ← reduceLast A (some (value, op)) r
    reduceStack rest r
  | .paren pending :: rest, r => do
    let r ← reduceLast A pending r
    reduceStack rest r

/-- `equals` -/
def equals (c : Calculator α) : Calculator α :=
  if c.pending.isNone ∧ c.stack = [] then
    match c.lastOp with
    | none => c
    | some (op, rhs) =>
      match c.currentValue A with
      | .error _ => c
      | .ok lhs =>
        match A.apply op lhs rhs with
        | .ok v => { c.setValue A v with overwrite := true, entering := false }
        | .error e => c.setError e
  else
    match c.currentValue A with
    | .error _ => c
    | .ok current =>
      match closeParens A c.stack.length c current with
      | .error e => c.setError e
      | .ok (c, current) =>
        match (reduceLast A c.pending (current, none)).bind (reduceStack A c.stack) with
        | .error e => c.setError e
        | .ok (v, last) =>
          { { c with lastOp := last.or c.lastOp, pending := none, stack := [] }.setValue A v with
            overwrite := true, entering := false, entry := [] }

/-! ### Keys -/

/-- `press`; an error stays until a digit is typed. -/
def press (c : Calculator α) (key : CalcKey) : Calculator α :=
  match c.error, key with
  | some _, .digit d => (c.clearAll A).inputDigit A d
  | some _, _ => c
  | none, .digit d => c.inputDigit A d
  | none, .decimal => c.inputDecimal
  | none, .binary op => c.binary A op
  | none, .equals => c.equals A
  | none, .openParen => c.openParen A
  | none, .closeParen => c.closeParen A

def pressAll (c : Calculator α) (keys : List CalcKey) : Calculator α := keys.foldl (press A) c

/-- The value shown: that of the entry while a number is typed, or the error. -/
def shown (c : Calculator α) : Except CalcError α :=
  match c.error with
  | some e => .error e
  | none =>
    if c.entering ∧ c.entry ≠ [] then .ok ((A.parseEntry c.entry).getD A.zero) else .ok c.value

end Calculator

end Orchid.Calc
