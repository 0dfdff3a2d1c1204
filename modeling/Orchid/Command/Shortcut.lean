import Mathlib.Data.List.Basic
import Orchid.Base.Text

/-!
# Keyboard shortcuts

Shortcuts, their parser and the combinations no command may take, `command/shortcut.rs` and the
errors of `error.rs` that commands and shortcuts raise.
-/

namespace Orchid.Command

/-- `CoreError`, as far as commands and shortcuts raise it. -/
inductive CoreError
  | commandNotFound (verb : Text)
  | duplicateCommand (id : Text)
  | invalidCommandSyntax (reason : Text)
  | invalidShortcut (input : Text)
  deriving DecidableEq

/-- `Modifiers`, the bits of the flag set. -/
structure Modifiers where
  ctrl : Bool
  alt : Bool
  shift : Bool
  win : Bool
  deriving DecidableEq

/-- `Modifiers::empty` -/
def Modifiers.empty : Modifiers := ⟨false, false, false, false⟩

/-- `Key` -/
inductive Key
  | char (c : Char)
  | f (n : U8)
  | enter
  | escape
  | tab
  | backspace
  | delete
  | insert
  | home
  | «end»
  | pageUp
  | pageDown
  | arrowUp
  | arrowDown
  | arrowLeft
  | arrowRight
  | space
  | comma
  | period
  | slash
  | backtick
  | minus
  | equals
  | leftBracket
  | rightBracket
  | semicolon
  | quote
  | backslash
  deriving DecidableEq

/-- `Shortcut` -/
structure Shortcut where
  modifiers : Modifiers
  key : Key
  deriving DecidableEq

/-- `str::parse::<u8>` -/
def parseU8 (t : Text) : Option U8 :=
  let digits := if startsWith t '+' then t.tail else t
  if digits ≠ [] ∧ digits.all Char.isDigit = true then
    let n := digits.foldl (fun n c => 10 * n + (c.toNat - 48)) 0
    if h : n < 2 ^ 8 then some ⟨n, h⟩ else none
  else none

/-- The keys with a name. -/
def namedKeys : List (List Text × Key) := [
  (["enter".toList, "return".toList], .enter),
  (["esc".toList, "escape".toList], .escape),
  (["tab".toList], .tab),
  (["backspace".toList, "bs".toList], .backspace),
  (["del".toList, "delete".toList], .delete),
  (["ins".toList, "insert".toList], .insert),
  (["home".toList], .home),
  (["end".toList], .end),
  (["pgup".toList, "pageup".toList, "page-up".toList], .pageUp),
  (["pgdn".toList, "pagedown".toList, "page-down".toList], .pageDown),
  (["up".toList, "arrowup".toList, "arrow-up".toList], .arrowUp),
  (["down".toList, "arrowdown".toList, "arrow-down".toList], .arrowDown),
  (["left".toList, "arrowleft".toList, "arrow-left".toList], .arrowLeft),
  (["right".toList, "arrowright".toList, "arrow-right".toList], .arrowRight),
  (["space".toList], .space),
  ([",".toList, "comma".toList], .comma),
  ([".".toList, "period".toList, "dot".toList], .period),
  (["/".toList, "slash".toList], .slash),
  (["`".toList, "backtick".toList, "grave".toList], .backtick),
  (["-".toList, "minus".toList, "dash".toList], .minus),
  (["=".toList, "equals".toList, "equal".toList], .equals),
  (["[".toList, "leftbracket".toList, "left-bracket".toList], .leftBracket),
  (["]".toList, "rightbracket".toList, "right-bracket".toList], .rightBracket),
  ([";".toList, "semicolon".toList], .semicolon),
  (["'".toList, "quote".toList, "apostrophe".toList], .quote),
  (["\\".toList, "backslash".toList], .backslash),
  (["?".toList], .char '?')]

/-- The key a function key's name stands for, `"f1"` to `"f24"`. -/
def parseFunctionKey (lower : Text) : Option Key := do
  let n ← parseU8 (← dropStart? lower ['f'])
  if 1 ≤ n.val ∧ n.val ≤ 24 then some (.f n) else none

/-- `parse_key` -/
def parseKey (token : Text) : Option Key :=
  let lower := toAsciiLowercase token
  match namedKeys.find? fun entry => entry.1.contains lower with
  | some entry => some entry.2
  | none =>
    match parseFunctionKey lower with
    | some key => some key
    | none =>
      match token with
      | [c] =>
        if c.isAlpha then some (.char c.toLower)
        else if c.isDigit then some (.char c)
        else none
      | _ => none

/-- The names of the modifiers. -/
def ctrlNames : List Text := ["ctrl".toList, "control".toList]

def altNames : List Text := ["alt".toList, "option".toList]

def shiftNames : List Text := ["shift".toList]

def winNames : List Text :=
  ["win".toList, "super".toList, "meta".toList, "cmd".toList, "command".toList]

def altGrNames : List Text := ["altgr".toList, "alt-gr".toList]

/-- One part of a shortcut between two `+`, taken into what is read so far. -/
def Shortcut.readToken (s : Text) (read : Modifiers × Option Key) (raw : Text) :
    Except CoreError (Modifiers × Option Key) :=
  let token := trim raw
  if token = [] then .error (.invalidShortcut s)
  else
    let lower := toAsciiLowercase token
    if lower ∈ ctrlNames then .ok ({ read.1 with ctrl := true }, read.2)
    else if lower ∈ altNames then .ok ({ read.1 with alt := true }, read.2)
    else if lower ∈ shiftNames then .ok ({ read.1 with shift := true }, read.2)
    else if lower ∈ winNames then .ok ({ read.1 with win := true }, read.2)
    else if lower ∈ altGrNames then
      .error (.invalidShortcut
        (s ++ ": AltGr is not a supported modifier; use explicit Ctrl+Alt if intended".toList))
    else if read.2.isSome then .error (.invalidShortcut (s ++ ": more than one main key".toList))
    else
      match parseKey token with
      | some key => .ok (read.1, some key)
      | none =>
        .error (.invalidShortcut (s ++ ": unknown key `".toList ++ token ++ "`".toList))

/-- `Shortcut::parse` -/
def Shortcut.parse (s : Text) : Except CoreError Shortcut :=
  if trim s = [] then .error (.invalidShortcut s)
  else do
    let (modifiers, key) ← (s.splitOn '+').foldlM (Shortcut.readToken s) (Modifiers.empty, none)
    match key with
    | some key => .ok ⟨modifiers, key⟩
    | none => .error (.invalidShortcut (s ++ ": missing main key".toList))

/-! ### White space around a shortcut -/

lemma readToken_trim (s raw : Text) (read : Modifiers × Option Key) :
    Shortcut.readToken s read (trim raw) = Shortcut.readToken s read raw := by
  simp only [Shortcut.readToken, trim_trim]

lemma toOption_bind {α β ε : Type} (x : Except ε α) (f : α → Except ε β) :
    (x >>= f).toOption = x.toOption.bind fun a => (f a).toOption := by
  cases x <;> rfl

/-- The text of the whole shortcut only shows in errors. -/
lemma foldlM_readToken_toOption (s s' : Text) (parts : List Text) (read : Modifiers × Option Key) :
    (parts.foldlM (Shortcut.readToken s) read).toOption =
      (parts.foldlM (Shortcut.readToken s') read).toOption := by
  induction parts generalizing read with
  | nil => rfl
  | cons raw parts ih =>
    have hread : (Shortcut.readToken s read raw).toOption =
        (Shortcut.readToken s' read raw).toOption := by
      simp only [Shortcut.readToken]
      split_ifs <;> try rfl
      cases parseKey (trim raw) <;> rfl
    simp only [List.foldlM_cons, toOption_bind, hread, ih]

lemma plus_not_isWhitespace : isWhitespace '+' = false := by decide

lemma ne_plus {ws : Text} (h : ∀ c ∈ ws, isWhitespace c = true) : '+' ∉ ws := by
  intro hmem
  have := h '+' hmem
  rw [plus_not_isWhitespace] at this
  exact Bool.noConfusion this

/-- White space in front of a text only shows in its first part. -/
lemma map_trim_splitOn_left {ws : Text} (h : ∀ c ∈ ws, isWhitespace c = true) (t : Text) :
    ((ws ++ t).splitOn '+').map trim = (t.splitOn '+').map trim := by
  induction ws with
  | nil => rfl
  | cons c ws ih =>
    have hc : (c == '+') = false :=
      beq_eq_false_iff_ne.mpr fun heq => ne_plus h (heq ▸ List.mem_cons_self)
    rw [← ih fun d hd => h d (List.mem_cons_of_mem c hd), List.cons_append,
      List.splitOn_cons_eq_if_modifyHead, hc]
    cases (ws ++ t).splitOn '+' with
    | nil => rfl
    | cons part parts =>
      have hspace : ∀ d ∈ [c], isWhitespace d = true := by simpa using h c (by simp)
      have hpart : trim (c :: part) = trim part := trim_append_left hspace part
      simp [hpart]

lemma splitOn_append_right {ws : Text} (h : '+' ∉ ws) (t : Text) :
    ∃ parts last, t.splitOn '+' = parts ++ [last] ∧
      (t ++ ws).splitOn '+' = parts ++ [last ++ ws] := by
  induction t with
  | nil => exact ⟨[], [], List.splitOn_nil '+', List.splitOn_eq_singleton h⟩
  | cons c t ih =>
    obtain ⟨parts, last, ht, htws⟩ := ih
    rw [List.cons_append, List.splitOn_cons_eq_if_modifyHead, List.splitOn_cons_eq_if_modifyHead,
      ht, htws]
    split_ifs with hc
    · exact ⟨[] :: parts, last, rfl, rfl⟩
    · cases parts with
      | nil => exact ⟨[], c :: last, rfl, rfl⟩
      | cons part parts => exact ⟨(c :: part) :: parts, last, rfl, rfl⟩

/-- White space after a text only shows in its last part. -/
lemma map_trim_splitOn_right {ws : Text} (h : ∀ c ∈ ws, isWhitespace c = true) (t : Text) :
    ((t ++ ws).splitOn '+').map trim = (t.splitOn '+').map trim := by
  obtain ⟨parts, last, ht, htws⟩ := splitOn_append_right (ne_plus h) t
  rw [ht, htws]
  simp [trim_append_right h]

/-- `Shortcut::parse` does not see white space at the ends. -/
lemma parse_trim (s : Text) :
    (Shortcut.parse (trim s)).toOption = (Shortcut.parse s).toOption := by
  have hsplit : ((trim s).splitOn '+').map trim = (s.splitOn '+').map trim := by
    obtain ⟨ws, ws', hs, hws, hws'⟩ := exists_trim s
    conv_rhs => rw [hs, map_trim_splitOn_right hws', map_trim_splitOn_left hws]
  have hfold (parts : List Text) : parts.foldlM (Shortcut.readToken s) (Modifiers.empty, none) =
      (parts.map trim).foldlM (Shortcut.readToken s) (Modifiers.empty, none) := by
    simp only [List.foldlM_map, readToken_trim]
  simp only [Shortcut.parse, trim_trim]
  split_ifs
  · rfl
  · simp only [toOption_bind, foldlM_readToken_toOption (trim s) s]
    rw [hfold, hsplit, ← hfold]
    congr 1
    funext ⟨modifiers, key⟩
    cases key <;> rfl

/-- `is_reserved` -/
def isReserved (s : Shortcut) : Option Text :=
  if s.modifiers = ⟨false, false, false, true⟩ ∧ s.key = .char 'l' then
    some "Win+L is reserved by Windows for the lock screen".toList
  else if s.modifiers = ⟨false, false, false, true⟩ ∧ s.key = .space then
    some "Win+Space is reserved by Windows for the IME switch".toList
  else if s.modifiers = ⟨true, true, false, false⟩ then
    match s.key with
    | .char c =>
      if c.isAlpha then
        some "Ctrl+Alt+<letter> collides with AltGr on European keyboard layouts".toList
      else none
    | _ => none
  else none

end Orchid.Command
