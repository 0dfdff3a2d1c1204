import Orchid.Command.Parser

/-!
# Rendering a command line

`quote_token` writes a token so that the tokeniser reads it back, whatever characters it has. The
quotes are gone before tokens are told apart, so a rendered line parses back to its command only
if the classification can tell them apart by their texts; `Renderable` lists what that takes.
-/

namespace Orchid.Command

/-- A character `quote_token` escapes. -/
def IsEscaped (c : Char) : Prop := c = '"' ∨ c = '\\'

instance (c : Char) : Decidable (IsEscaped c) := inferInstanceAs (Decidable (_ ∨ _))

/-- A token `quote_token` puts into quotes. -/
def NeedsQuotes (s : Text) : Prop :=
  s = [] ∨ startsWith s '-' = true ∨ ∃ c ∈ s, isWhitespace c = true ∨ IsEscaped c

instance (s : Text) : Decidable (NeedsQuotes s) :=
  letI : Decidable (∃ c ∈ s, isWhitespace c = true ∨ IsEscaped c) := List.decidableBEx _ s
  inferInstanceAs (Decidable (_ ∨ _))

/-- The text of a token between its quotes. -/
def escaped (s : Text) : Text := s.flatMap fun c => if IsEscaped c then ['\\', c] else [c]

/-- `quote_token` -/
def quoteToken (s : Text) : Text := if NeedsQuotes s then '"' :: escaped s ++ ['"'] else s

/-- A token of a line: its dashes, and the text that is quoted. -/
abbrev Piece := Text × Text

/-- A token as it is parsed. -/
def Piece.text (piece : Piece) : Text := piece.1 ++ piece.2

/-- A token as it is written, after a blank. -/
def Piece.rendered (piece : Piece) : Text := ' ' :: piece.1 ++ quoteToken piece.2

/-- The tokens of a command: the words of the verb, the positionals, the flags and the options. -/
def pieces (words positionals flags : List Text) (options : AList fun _ : Text => Text) :
    List Piece :=
  words.map (fun w => ([], w)) ++ positionals.map (fun p => ([], p)) ++
    flags.map (fun f => (['-', '-'], f)) ++
    options.entries.flatMap fun o => [(['-', '-'], o.1), ([], o.2)]

/-- The line of a command. -/
def renderLine (words positionals flags : List Text) (options : AList fun _ : Text => Text) :
    Text :=
  "orc".toList ++ (pieces words positionals flags options).flatMap Piece.rendered

/-! ### The tokeniser reads the tokens back -/

lemma escaped_cons (c : Char) (s : Text) :
    escaped (c :: s) = (if IsEscaped c then ['\\', c] else [c]) ++ escaped s := rfl

/-- The loop reads an escaped stretch into the token under way. -/
lemma tokeniseLoop_escaped (s rest current : Text) (tokens : List Text) :
    tokeniseLoop (escaped s ++ rest) tokens current true =
      tokeniseLoop rest tokens (current ++ s) true := by
  induction s generalizing current with
  | nil => simp [escaped]
  | cons c s ih =>
    rw [escaped_cons, List.append_assoc, List.append_cons current c s]
    split_ifs with hc
    · exact (tokeniseLoop_escape _ _ _ c).trans (ih _)
    · obtain ⟨hq, hb⟩ := not_or.mp hc
      exact (tokeniseLoop_quoted _ _ _ hq hb).trans (ih _)

/-- The loop reads a plain stretch into the token under way. -/
lemma tokeniseLoop_plain {s : Text} (hs : ∀ c ∈ s, isWhitespace c = false ∧ c ≠ '"')
    (rest current : Text) (tokens : List Text) :
    tokeniseLoop (s ++ rest) tokens current false =
      tokeniseLoop rest tokens (current ++ s) false := by
  induction s generalizing current with
  | nil => simp
  | cons c s ih =>
    obtain ⟨hw, hq⟩ := hs c (by simp)
    rw [List.cons_append, tokeniseLoop_char _ _ _ hq hw, ih fun d hd => hs d (by simp [hd]),
      List.append_cons current c s]

/-- Where a token of the line ends. -/
def AtBlank (rest : Text) : Prop := rest = [] ∨ ∃ more, rest = ' ' :: more

/-- A rendered token completes the token under way. -/
lemma tokeniseLoop_quoteToken (s : Text) {rest : Text} (hrest : AtBlank rest) (current : Text)
    (tokens : List Text) :
    tokeniseLoop (quoteToken s ++ rest) tokens current false =
      tokeniseLoop rest (tokens ++ [current ++ s]) [] false := by
  have hblank : isWhitespace ' ' = true := by decide
  unfold quoteToken
  split_ifs with h
  · rw [List.cons_append, List.cons_append, tokeniseLoop_open, List.append_assoc,
      tokeniseLoop_escaped]
    exact tokeniseLoop_close _ _ _
  · obtain ⟨hne, hnot⟩ := not_or.mp h
    have hchars : ∀ c ∈ s, isWhitespace c = false ∧ c ≠ '"' := by
      intro c hc
      constructor
      · exact Bool.eq_false_iff.mpr fun hw => hnot (Or.inr ⟨c, hc, Or.inl hw⟩)
      · exact fun hq => hnot (Or.inr ⟨c, hc, Or.inr (Or.inl hq)⟩)
    rw [tokeniseLoop_plain hchars]
    rcases hrest with rfl | ⟨more, rfl⟩
    · simp [tokeniseLoop, hne]
    · rw [tokeniseLoop_blank _ _ _ hblank, tokeniseLoop_blank _ _ _ hblank]
      simp [hne]

lemma atBlank_rendered (ps : List Piece) : AtBlank (ps.flatMap Piece.rendered) := by
  cases ps with
  | nil => exact Or.inl rfl
  | cons p ps => exact Or.inr ⟨_, rfl⟩

/-- Tokens whose dashes are plain are read back, in their order. -/
lemma tokeniseLoop_rendered (ps : List Piece) (hps : ∀ p ∈ ps, p.1 = [] ∨ p.1 = ['-', '-'])
    {tokens : List Text} (hne : tokens ≠ []) :
    tokeniseLoop (ps.flatMap Piece.rendered) tokens [] false =
      .ok (tokens ++ ps.map Piece.text) := by
  induction ps generalizing tokens with
  | nil => simp [tokeniseLoop, hne]
  | cons p ps ih =>
    have hdash : ∀ c ∈ p.1, isWhitespace c = false ∧ c ≠ '"' := by
      have hd : isWhitespace '-' = false ∧ '-' ≠ '"' := by decide
      rcases hps p (by simp) with h | h <;> simp [h, hd]
    have hblank : isWhitespace ' ' = true := by decide
    rw [List.flatMap_cons, Piece.rendered, List.cons_append, List.cons_append,
      tokeniseLoop_blank _ _ _ hblank, if_pos rfl, List.append_assoc, tokeniseLoop_plain hdash,
      tokeniseLoop_quoteToken _ (atBlank_rendered ps), List.nil_append,
      ih (fun q hq => hps q (by simp [hq])) (by simp)]
    simp [Piece.text]

/-- A written token shows at both ends. -/
lemma head?_quoteToken (s : Text) : ∃ c t, quoteToken s = c :: t ∧ isWhitespace c = false := by
  unfold quoteToken
  split_ifs with h
  · exact ⟨'"', escaped s ++ ['"'], rfl, by decide⟩
  · obtain ⟨hne, hnot⟩ := not_or.mp h
    obtain ⟨c, t, rfl⟩ := List.exists_cons_of_ne_nil hne
    exact ⟨c, t, rfl, Bool.eq_false_iff.mpr fun hw => hnot (Or.inr ⟨c, by simp, Or.inl hw⟩)⟩

lemma getLast?_quoteToken (s : Text) : ∃ c t, quoteToken s = t ++ [c] ∧ isWhitespace c = false := by
  unfold quoteToken
  split_ifs with h
  · exact ⟨'"', '"' :: escaped s, rfl, by decide⟩
  · obtain ⟨hne, hnot⟩ := not_or.mp h
    refine ⟨s.getLast hne, s.dropLast, (List.dropLast_append_getLast hne).symm, ?_⟩
    exact Bool.eq_false_iff.mpr fun hw =>
      hnot (Or.inr ⟨_, List.getLast_mem hne, Or.inl hw⟩)

lemma getLast?_rendered (ps : List Piece) (hne : ps ≠ []) :
    ∃ c t, ps.flatMap Piece.rendered = t ++ [c] ∧ isWhitespace c = false := by
  obtain ⟨c, t, hlast, hc⟩ := getLast?_quoteToken (ps.getLast hne).2
  refine ⟨c, ps.dropLast.flatMap Piece.rendered ++ ' ' :: (ps.getLast hne).1 ++ t, ?_, hc⟩
  conv_lhs => rw [← List.dropLast_append_getLast hne]
  simp [Piece.rendered, hlast]

/-- The text after `orc` of a rendered line. -/
lemma commandText_rendered (w : Text) (ps : List Piece) :
    commandText ("orc".toList ++ (([], w) :: ps).flatMap Piece.rendered) =
      quoteToken w ++ ps.flatMap Piece.rendered := by
  obtain ⟨c, t, hlast, hc⟩ := getLast?_rendered (([], w) :: ps) (by simp)
  have htrim : trim ("orc".toList ++ (([], w) :: ps).flatMap Piece.rendered) =
      "orc".toList ++ (([], w) :: ps).flatMap Piece.rendered := by
    refine trim_eq_self ?_ ?_
    · have ho : isWhitespace 'o' = false := by decide
      simpa using ho
    · rw [hlast, ← List.append_assoc, List.getLast?_append]
      simpa using hc
  have hstart : "orc".toList ++ (([], w) :: ps).flatMap Piece.rendered =
      "orc ".toList ++ (quoteToken w ++ ps.flatMap Piece.rendered) := by
    simp [Piece.rendered]
  unfold commandText
  rw [htrim, hstart, dropStart?_append]
  obtain ⟨d, u, hhead, hd⟩ := head?_quoteToken w
  exact trimStart_eq_self (by simpa [hhead] using hd)

/-- Every token of a rendered line is read back, whatever its characters. -/
lemma tokenise_rendered (w : Text) (ps : List Piece)
    (hps : ∀ p ∈ ps, p.1 = [] ∨ p.1 = ['-', '-']) :
    tokenise ("orc".toList ++ (([], w) :: ps).flatMap Piece.rendered) =
      .ok (w :: ps.map Piece.text) := by
  have hne : quoteToken w ++ ps.flatMap Piece.rendered ≠ [] := by
    obtain ⟨d, u, hhead, -⟩ := head?_quoteToken w
    simp [hhead]
  rw [tokenise, commandText_rendered, if_neg hne, tokeniseLoop_quoteToken w (atBlank_rendered ps),
    List.nil_append, List.nil_append, tokeniseLoop_rendered ps hps (by simp)]
  rfl

/-! ### Telling the tokens apart -/

/-- A token that stands for itself: without a dash, or the dash alone. -/
def IsPositional (p : Text) : Prop := NoDash p ∨ p = ['-']

/-- A name a flag or an option can have. -/
def IsName (name : Text) : Prop := name ≠ [] ∧ '=' ∉ name

/-- What a command must be like for its line to parse back. -/
structure Renderable (hasVerb : Text → Bool) (words positionals flags : List Text)
    (options : AList fun _ : Text => Text) : Prop where
  words_ne : words ≠ []
  words_noDash : ∀ w ∈ words, NoDash w
  longest : ∀ more, more ≠ [] → more <+: positionals.takeWhile (fun p => NoDash p) →
    hasVerb ([' '].intercalate (words ++ more)) = false
  isPositional : ∀ p ∈ positionals, IsPositional p
  isName : ∀ f ∈ flags, IsName f
  isOption : ∀ o ∈ options.entries, IsName o.1 ∧ NoDash o.2

lemma dropStart?_dashes_of_noDash {p : Text} (h : NoDash p) (ds : Text) :
    dropStart? p ('-' :: ds) = none := by
  cases hs : dropStart? p ('-' :: ds) with
  | none => rfl
  | some rest =>
    rw [dropStart?_eq_some hs] at h
    simp [NoDash] at h

lemma splitOnce_eq_none {name : Text} (h : '=' ∉ name) : splitOnce name = none := by
  induction name with
  | nil => rfl
  | cons c name ih =>
    obtain ⟨hc, hname⟩ := not_or.mp (List.mem_cons.not.mp h)
    rw [splitOnce, if_neg (Ne.symm hc), ih hname]
    rfl

lemma readArguments_positional {p : Text} (h : IsPositional p) (rest : List Text)
    (args : Arguments) :
    readArguments (p :: rest) args =
      readArguments rest { args with positional := args.positional ++ [p] } := by
  rcases h with h | rfl
  · rw [readArguments, dropStart?_dashes_of_noDash h, dropStart?_dashes_of_noDash h]
  · rfl

lemma readArguments_flag {f : Text} (h : IsName f) {rest : List Text}
    (hrest : ∀ t ∈ rest.head?, ¬ NoDash t) (args : Arguments) :
    readArguments ((['-', '-'] ++ f) :: rest) args =
      readArguments rest { args with flags := insert f args.flags } := by
  obtain ⟨c, f, rfl⟩ := List.exists_cons_of_ne_nil h.1
  rw [readArguments, dropStart?_append]
  dsimp only
  rw [splitOnce_eq_none h.2]
  cases rest with
  | nil => rfl
  | cons t rest => simp [hrest t (by simp)]

lemma readArguments_option {k v : Text} (hk : IsName k) (hv : NoDash v) (rest : List Text)
    (args : Arguments) :
    readArguments ((['-', '-'] ++ k) :: v :: rest) args =
      readArguments rest { args with options := args.options.insert k v } := by
  obtain ⟨c, k, rfl⟩ := List.exists_cons_of_ne_nil hk.1
  rw [readArguments, dropStart?_append]
  dsimp only
  rw [splitOnce_eq_none hk.2]
  simp [hv]

lemma readArguments_positionals {ps : List Text} (h : ∀ p ∈ ps, IsPositional p)
    (rest : List Text) (args : Arguments) :
    readArguments (ps ++ rest) args =
      readArguments rest { args with positional := args.positional ++ ps } := by
  induction ps generalizing args with
  | nil => simp
  | cons p ps ih =>
    rw [List.cons_append, readArguments_positional (h p (by simp)),
      ih fun q hq => h q (by simp [hq])]
    simp

/-- The tokens of a flag and of an option. -/
def flagToken (f : Text) : Text := ['-', '-'] ++ f

def optionTokens (o : Sigma fun _ : Text => Text) : List Text := [['-', '-'] ++ o.1, o.2]

lemma not_noDash_flagToken (f : Text) : ¬ NoDash (flagToken f) := by
  simp [NoDash, flagToken]

/-- What follows a flag starts with dashes. -/
lemma head?_arguments (fs : List Text) (os : List (Sigma fun _ : Text => Text)) :
    ∀ t ∈ (fs.map flagToken ++ os.flatMap optionTokens).head?, ¬ NoDash t := by
  intro t ht
  cases fs with
  | cons f fs =>
    obtain rfl : flagToken f = t := by simpa using ht
    exact not_noDash_flagToken f
  | nil =>
    cases os with
    | nil => simp at ht
    | cons o os =>
      obtain rfl : flagToken o.1 = t := by simpa [optionTokens, flagToken] using ht
      exact not_noDash_flagToken o.1

lemma readArguments_flags {fs : List Text} (h : ∀ f ∈ fs, IsName f)
    (os : List (Sigma fun _ : Text => Text)) (args : Arguments) :
    readArguments (fs.map flagToken ++ os.flatMap optionTokens) args =
      readArguments (os.flatMap optionTokens) { args with flags := fs.toFinset ∪ args.flags } := by
  induction fs generalizing args with
  | nil => simp
  | cons f fs ih =>
    rw [List.map_cons, List.cons_append, flagToken,
      readArguments_flag (h f (by simp)) (head?_arguments fs os), ih fun g hg => h g (by simp [hg])]
    congr 2
    ext g
    simp only [List.toFinset_cons, Finset.mem_union, Finset.mem_insert]
    tauto

/-- The options a list of entries adds. -/
def insertAll (options : Finmap fun _ : Text => Text) (os : List (Sigma fun _ : Text => Text)) :
    Finmap fun _ : Text => Text :=
  os.foldl (fun m o => m.insert o.1 o.2) options

lemma readArguments_options {os : List (Sigma fun _ : Text => Text)}
    (h : ∀ o ∈ os, IsName o.1 ∧ NoDash o.2) (args : Arguments) :
    readArguments (os.flatMap optionTokens) args =
      { args with options := insertAll args.options os } := by
  induction os generalizing args with
  | nil => rfl
  | cons o os ih =>
    obtain ⟨hk, hv⟩ := h o (by simp)
    have hstep := readArguments_option hk hv (os.flatMap optionTokens) args
    rw [ih fun p hp => h p (by simp [hp])] at hstep
    exact hstep

lemma lookup_insertAll (os : List (Sigma fun _ : Text => Text)) (hnd : os.NodupKeys)
    (options : Finmap fun _ : Text => Text) (k : Text) :
    (insertAll options os).lookup k = (os.dlookup k).or (options.lookup k) := by
  induction os generalizing options with
  | nil => rfl
  | cons o os ih =>
    obtain ⟨k', v⟩ := o
    obtain ⟨hnotin, hnd⟩ := List.nodupKeys_cons.mp hnd
    show (insertAll (options.insert k' v) os).lookup k = _
    rw [ih hnd]
    by_cases hk : k = k'
    · subst hk
      rw [List.dlookup_eq_none.mpr hnotin, Finmap.lookup_insert, List.dlookup_cons_eq]
      rfl
    · rw [Finmap.lookup_insert_of_ne _ hk, List.dlookup_cons_ne _ _ hk]

/-- The entries of a map, in any order, give the map. -/
lemma insertAll_entries (options : AList fun _ : Text => Text) :
    insertAll ∅ options.entries = options.toFinmap := by
  refine Finmap.ext_lookup fun k => ?_
  rw [lookup_insertAll _ options.nodupKeys, Finmap.lookup_empty, Option.or_none]
  rfl

/-! ### The verb -/

/-- Of the runs that are registered verbs the longest is taken. -/
lemma longestVerb_eq {hasVerb : Text → Bool} {candidates : List Text} {n : ℕ} (hn : 0 < n)
    (hverb : hasVerb ([' '].intercalate (candidates.take n)) = true) {len : ℕ} (hlen : n ≤ len)
    (hlonger : ∀ m, n < m → m ≤ len → hasVerb ([' '].intercalate (candidates.take m)) = false) :
    longestVerb hasVerb candidates len = some ([' '].intercalate (candidates.take n), n) := by
  induction len with
  | zero => omega
  | succ len ih =>
    rcases Nat.lt_or_ge n (len + 1) with hlt | hge
    · rw [longestVerb, hlonger (len + 1) hlt le_rfl]
      exact ih (by omega) fun m hm hmlen => hlonger m hm (by omega)
    · obtain rfl : n = len + 1 := by omega
      rw [longestVerb, hverb]
      rfl

/-- The tokens of a command. -/
lemma map_text_pieces (words positionals flags : List Text)
    (options : AList fun _ : Text => Text) :
    (pieces words positionals flags options).map Piece.text =
      words ++ (positionals ++ (flags.map flagToken ++ options.entries.flatMap optionTokens)) := by
  have hflag : flagToken = fun f => '-' :: '-' :: f := rfl
  have hoption : optionTokens = fun o => ['-' :: '-' :: o.1, o.2] := rfl
  simp [pieces, Piece.text, List.map_flatMap, hoption, hflag, Function.comp_def]

/-- Only whole dashes stand in front of a token's text. -/
lemma dashes_pieces (words positionals flags : List Text) (options : AList fun _ : Text => Text) :
    ∀ p ∈ pieces words positionals flags options, p.1 = [] ∨ p.1 = ['-', '-'] := by
  intro p hp
  simp only [pieces, List.mem_append, List.mem_map, List.mem_flatMap] at hp
  rcases hp with ((⟨_, -, rfl⟩ | ⟨_, -, rfl⟩) | ⟨_, -, rfl⟩) | ⟨o, -, ho⟩
  · exact Or.inl rfl
  · exact Or.inl rfl
  · exact Or.inr rfl
  · rcases List.mem_pair.mp ho with rfl | rfl
    · exact Or.inr rfl
    · exact Or.inl rfl

/-- The candidates for the verb are its words and the positionals up to the first dash. -/
lemma takeWhile_tokens {words : List Text} (hwords : ∀ w ∈ words, NoDash w)
    (positionals flags : List Text) (options : AList fun _ : Text => Text) :
    (words ++ (positionals ++
        (flags.map flagToken ++ options.entries.flatMap optionTokens))).takeWhile
          (fun t => NoDash t) =
      words ++ positionals.takeWhile fun p => NoDash p := by
  have hend : (flags.map flagToken ++ options.entries.flatMap optionTokens).takeWhile
      (fun t => NoDash t) = [] := by
    cases hs : flags.map flagToken ++ options.entries.flatMap optionTokens with
    | nil => rfl
    | cons t ts =>
      have := head?_arguments flags options.entries t (by rw [hs]; rfl)
      simp [this]
  rw [List.takeWhile_append_of_pos fun w hw => decide_eq_true (hwords w hw), List.takeWhile_append]
  split_ifs with hall
  · rw [hend, List.append_nil, (List.takeWhile_prefix _).eq_of_length hall]
  · rfl

/-- The parser gives the command back from its tokens. -/
lemma buildParsed_tokens {hasVerb : Text → Bool} {words positionals flags : List Text}
    {options : AList fun _ : Text => Text}
    (hverb : hasVerb ([' '].intercalate words) = true)
    (h : Renderable hasVerb words positionals flags options) :
    buildParsed (words ++ (positionals ++
        (flags.map flagToken ++ options.entries.flatMap optionTokens))) (some hasVerb) =
      .ok ⟨[' '].intercalate words, positionals, flags.toFinset, options.toFinmap⟩ := by
  have hbest : longestVerb hasVerb (words ++ positionals.takeWhile fun p => NoDash p)
      (words ++ positionals.takeWhile fun p => NoDash p).length =
        some ([' '].intercalate words, words.length) := by
    have htake : (words ++ positionals.takeWhile fun p => NoDash p).take words.length = words :=
      List.take_left
    have hle : words.length ≤ (words ++ positionals.takeWhile fun p => NoDash p).length := by simp
    have hwords : hasVerb ([' '].intercalate
        ((words ++ positionals.takeWhile fun p => NoDash p).take words.length)) = true := by
      rw [htake]
      exact hverb
    have hlongest := longestVerb_eq (List.length_pos_iff.mpr h.words_ne) hwords hle ?_
    · rwa [htake] at hlongest
    · intro m hm hlen
      rw [List.take_append, List.take_of_length_le hm.le]
      refine h.longest _ ?_ (List.take_prefix _ _)
      rw [List.length_append] at hlen
      exact List.ne_nil_of_length_pos (by rw [List.length_take]; omega)
  unfold buildParsed
  simp only [takeWhile_tokens h.words_noDash, Option.bind_some, hbest]
  rw [List.drop_left, readArguments_positionals h.isPositional, readArguments_flags h.isName,
    readArguments_options h.isOption, insertAll_entries]
  simp

/-- A registered verb, its positionals, flags and options are read back from the rendered line. -/
theorem parse_renderLine (reg : CommandRegistry) (words positionals flags : List Text)
    (options : AList fun _ : Text => Text) (desc : CommandDescriptor)
    (hreg : reg.getByVerb ([' '].intercalate words) = some desc)
    (h : Renderable reg.hasVerb words positionals flags options) :
    parseCommandLineWithRegistry (renderLine words positionals flags options) reg =
      .ok (⟨[' '].intercalate words, positionals, flags.toFinset, options.toFinmap⟩, desc) := by
  have hverb : reg.hasVerb ([' '].intercalate words) = true := by
    obtain ⟨id, hid, -⟩ := Option.bind_eq_some_iff.mp hreg
    rw [CommandRegistry.hasVerb, hid]
    rfl
  have htokens : tokenise (renderLine words positionals flags options) =
      .ok (words ++ (positionals ++
        (flags.map flagToken ++ options.entries.flatMap optionTokens))) := by
    rw [← map_text_pieces]
    obtain ⟨w, ws, rfl⟩ := List.exists_cons_of_ne_nil h.words_ne
    exact tokenise_rendered w (pieces ws positionals flags options)
      (dashes_pieces ws positionals flags options)
  unfold parseCommandLineWithRegistry
  rw [htokens]
  dsimp only
  rw [buildParsed_tokens hverb h]
  dsimp only
  rw [hreg]

/-- The descriptor of a command `open`. -/
def openCommand : CommandDescriptor where
  id := "viewer.open".toList
  displayNameKey := []
  descriptionKey := none
  category := .view
  defaultShortcut := none
  terminalInvocation := some ⟨"open".toList⟩
  iconName := none

/-- The registry with that command. -/
def openOnly : CommandRegistry where
  inner := [⟨openCommand, none⟩]
  byVerb := AList.singleton "open".toList "viewer.open".toList
  nodup := List.nodup_singleton _

/-- `orc open "a \"b" --force --to x=1` -/
theorem parse_renderLine_open :
    parseCommandLineWithRegistry
        (renderLine ["open".toList] ["a \"b".toList] ["force".toList]
          (AList.singleton "to".toList "x=1".toList)) openOnly =
      .ok (⟨"open".toList, ["a \"b".toList], ["force".toList].toFinset,
        (AList.singleton "to".toList "x=1".toList).toFinmap⟩, openCommand) := by
  refine parse_renderLine openOnly ["open".toList] ["a \"b".toList] ["force".toList]
    (AList.singleton "to".toList "x=1".toList) openCommand rfl
    ⟨by decide, by decide, ?_, ?_, ?_, ?_⟩
  · intro more hne hprefix
    have hone : ["a \"b".toList].takeWhile (fun p => NoDash p) = ["a \"b".toList] := by decide
    rw [hone] at hprefix
    obtain ⟨p, ps, rfl⟩ := List.exists_cons_of_ne_nil hne
    obtain ⟨rfl, hps⟩ := List.cons_prefix_cons.mp hprefix
    obtain rfl := List.prefix_nil.mp hps
    decide
  · intro p hp
    obtain rfl := List.mem_singleton.mp hp
    exact Or.inl (by decide)
  · intro f hf
    obtain rfl := List.mem_singleton.mp hf
    exact ⟨by decide, by decide⟩
  · intro o ho
    obtain rfl := List.mem_singleton.mp ho
    exact ⟨⟨by decide, by decide⟩, by decide⟩

/-- A quoted positional that starts with a dash comes back as a flag. -/
theorem not_parse_renderLine :
    ¬ ∀ (reg : CommandRegistry) (words positionals flags : List Text)
      (options : AList fun _ : Text => Text) (desc : CommandDescriptor),
      reg.getByVerb ([' '].intercalate words) = some desc →
      parseCommandLineWithRegistry (renderLine words positionals flags options) reg =
        .ok (⟨[' '].intercalate words, positionals, flags.toFinset, options.toFinmap⟩, desc) := by
  intro h
  have hline : parseCommandLineWithRegistry
      (renderLine ["open".toList] ["-x".toList] [] ∅) openOnly =
        .ok (⟨"open".toList, [], {['x']}, ∅⟩, openCommand) := rfl
  have hsame := h openOnly ["open".toList] ["-x".toList] [] ∅ openCommand rfl
  rw [hline] at hsame
  simp at hsame

end Orchid.Command
