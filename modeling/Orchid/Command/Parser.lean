import Mathlib.Data.Finmap
import Mathlib.Data.Finset.Insert
import Orchid.Command.Registry

/-!
# The command line

The tokeniser and the parser of command strings, `command/parser.rs`. The parser indexes the first
token that does not start with a dash without asking whether there is one: a run that has none
panics.
-/

namespace Orchid.Command

/-- `ParsedCommand` -/
structure ParsedCommand where
  verb : Text
  positional : List Text
  flags : Finset Text
  options : Finmap fun _ : Text => Text

/-- How a call comes back, if it does. -/
inductive Returned (α : Type)
  | ok (a : α)
  | err (e : CoreError)
  | panicked

/-- The call returned `Ok` or `Err`. -/
def Returned.Safe {α : Type} (r : Returned α) : Prop := (∃ a, r = .ok a) ∨ ∃ e, r = .err e

/-! ### Tokens -/

/-- The loop of `tokenise` over the characters left, with the tokens so far, the one under way and
whether a quote is open. -/
def tokeniseLoop : Text → List Text → Text → Bool → Except CoreError (List Text)
  | [], tokens, current, inQuote =>
    if inQuote then .error (.invalidCommandSyntax "unterminated quoted string".toList)
    else
      let tokens := if current = [] then tokens else tokens ++ [current]
      if tokens = [] then .error (.invalidCommandSyntax "empty".toList) else .ok tokens
  | c :: rest, tokens, current, true =>
    if c = '"' then tokeniseLoop rest (tokens ++ [current]) [] false
    else if c = '\\' then
      match rest with
      | next :: rest => tokeniseLoop rest tokens (current ++ [next]) true
      | [] => .error (.invalidCommandSyntax "trailing backslash in quoted string".toList)
    else tokeniseLoop rest tokens (current ++ [c]) true
  | c :: rest, tokens, current, false =>
    if c = '"' then tokeniseLoop rest tokens current true
    else if isWhitespace c then
      if current = [] then tokeniseLoop rest tokens [] false
      else tokeniseLoop rest (tokens ++ [current]) [] false
    else tokeniseLoop rest tokens (current ++ [c]) false

section Steps

variable (rest current : Text) (tokens : List Text)

@[simp] lemma tokeniseLoop_close :
    tokeniseLoop ('"' :: rest) tokens current true =
      tokeniseLoop rest (tokens ++ [current]) [] false := by
  rw [tokeniseLoop.eq_def]
  rfl

@[simp] lemma tokeniseLoop_escape (next : Char) :
    tokeniseLoop ('\\' :: next :: rest) tokens current true =
      tokeniseLoop rest tokens (current ++ [next]) true := by
  rw [tokeniseLoop.eq_def]
  rfl

lemma tokeniseLoop_quoted {c : Char} (hq : c ≠ '"') (hb : c ≠ '\\') :
    tokeniseLoop (c :: rest) tokens current true =
      tokeniseLoop rest tokens (current ++ [c]) true := by
  rw [tokeniseLoop.eq_def]
  simp only [if_neg hq, if_neg hb]

@[simp] lemma tokeniseLoop_open :
    tokeniseLoop ('"' :: rest) tokens current false = tokeniseLoop rest tokens current true := by
  rw [tokeniseLoop, if_pos rfl]

lemma tokeniseLoop_blank {c : Char} (hw : isWhitespace c = true) :
    tokeniseLoop (c :: rest) tokens current false =
      tokeniseLoop rest (if current = [] then tokens else tokens ++ [current]) [] false := by
  have hq : c ≠ '"' := by
    rintro rfl
    exact absurd hw (by decide)
  rw [tokeniseLoop, if_neg hq, if_pos hw]
  split_ifs <;> rfl

lemma tokeniseLoop_char {c : Char} (hq : c ≠ '"') (hw : isWhitespace c = false) :
    tokeniseLoop (c :: rest) tokens current false =
      tokeniseLoop rest tokens (current ++ [c]) false := by
  rw [tokeniseLoop, if_neg hq, if_neg (by simp [hw])]

end Steps

/-- The text `tokenise` goes through: trimmed, and without a leading `orc`. -/
def commandText (input : Text) : Text :=
  match dropStart? (trim input) "orc ".toList with
  | some stripped => trimStart stripped
  | none => if trim input = "orc".toList then [] else trim input

/-- `tokenise` -/
def tokenise (input : Text) : Except CoreError (List Text) :=
  if commandText input = [] then .error (.invalidCommandSyntax "empty".toList)
  else tokeniseLoop (commandText input) [] [] false

/-! ### Verb and arguments -/

/-- A token that cannot be a flag or an option. -/
def NoDash (token : Text) : Prop := startsWith token '-' = false

instance (token : Text) : Decidable (NoDash token) := inferInstanceAs (Decidable (_ = _))

/-- The longest run of at most `len` candidates, joined with blanks, that is a registered verb. -/
def longestVerb (hasVerb : Text → Bool) (candidates : List Text) : ℕ → Option (Text × ℕ)
  | 0 => none
  | len + 1 =>
    let candidate := [' '].intercalate (candidates.take (len + 1))
    if hasVerb candidate then some (candidate, len + 1)
    else longestVerb hasVerb candidates len

/-- The arguments read so far. -/
structure Arguments where
  positional : List Text
  flags : Finset Text
  options : Finmap fun _ : Text => Text

/-- `str::split_once`, at `'='`. -/
def splitOnce : Text → Option (Text × Text)
  | [] => none
  | c :: t => if c = '=' then some ([], t) else (splitOnce t).map fun (k, v) => (c :: k, v)

/-- The loop of `build_parsed` over the tokens after the verb. -/
def readArguments : List Text → Arguments → Arguments
  | [], args => args
  | tok :: rest, args =>
    match dropStart? tok ['-', '-'] with
    | some [] => { args with positional := args.positional ++ rest }
    | some name =>
      match splitOnce name with
      | some (k, v) => readArguments rest { args with options := args.options.insert k v }
      | none =>
        match rest with
        | value :: rest' =>
          if NoDash value then
            readArguments rest' { args with options := args.options.insert name value }
          else readArguments (value :: rest') { args with flags := insert name args.flags }
        | [] => readArguments [] { args with flags := insert name args.flags }
    | none =>
      match dropStart? tok ['-'] with
      | some [] => readArguments rest { args with positional := args.positional ++ [tok] }
      | some name => readArguments rest { args with flags := insert name args.flags }
      | none => readArguments rest { args with positional := args.positional ++ [tok] }

/-- `build_parsed`, with the registry's `has_verb` if there is one. -/
def buildParsed (tokens : List Text) (hasVerb : Option (Text → Bool)) : Returned ParsedCommand :=
  let candidates := tokens.takeWhile fun token => NoDash token
  let best := hasVerb.bind fun hasVerb => longestVerb hasVerb candidates candidates.length
  let found := match best with
    | some found => some found
    | none => candidates.head?.map fun first => (first, 1)
  match found with
  | none => .panicked
  | some (verb, verbLen) =>
    let args := readArguments (tokens.drop verbLen) ⟨[], ∅, ∅⟩
    .ok ⟨verb, args.positional, args.flags, args.options⟩

/-- `parse_command_line` -/
def parseCommandLine (input : Text) : Returned ParsedCommand :=
  match tokenise input with
  | .error e => .err e
  | .ok tokens => buildParsed tokens none

/-- `parse_command_line_with_registry` -/
def parseCommandLineWithRegistry (input : Text) (registry : CommandRegistry) :
    Returned (ParsedCommand × CommandDescriptor) :=
  match tokenise input with
  | .error e => .err e
  | .ok tokens =>
    match buildParsed tokens (some registry.hasVerb) with
    | .panicked => .panicked
    | .err e => .err e
    | .ok parsed =>
      match registry.getByVerb parsed.verb with
      | some desc => .ok (parsed, desc)
      | none => .err (.commandNotFound parsed.verb)

end Orchid.Command
