import Orchid.Command.Parser

/-!
# When the parser panics

The parser needs a first token without a dash. `LeadsWithDash` reads off the text whether the first
token has one, `QuotesClose` whether the tokeniser comes to an end without an error; together they
are the panic.
-/

namespace Orchid.Command

/-- The first character of the first token is a dash. -/
def LeadsWithDash : Text → Prop
  | '"' :: '\\' :: c :: _ => c = '-'
  | '"' :: c :: _ => c = '-'
  | c :: _ => c = '-'
  | [] => False

lemma leadsWithDash_quoted {c : Char} (t : Text) (hb : c ≠ '\\') :
    LeadsWithDash ('"' :: c :: t) ↔ c = '-' := by
  rw [LeadsWithDash.eq_2]
  exact fun _ _ h => absurd h hb

lemma leadsWithDash_char {c : Char} (t : Text) (hq : c ≠ '"') :
    LeadsWithDash (c :: t) ↔ c = '-' := by
  rw [LeadsWithDash.eq_3]
  · exact fun _ _ h => absurd h hq
  · exact fun _ _ h => absurd h hq

/-- Every quote is closed in the characters left. -/
def QuotesClose : Text → Bool → Bool
  | [], inQuote => !inQuote
  | c :: rest, true =>
    if c = '"' then QuotesClose rest false
    else if c = '\\' then
      match rest with
      | _ :: rest => QuotesClose rest true
      | [] => false
    else QuotesClose rest true
  | c :: rest, false =>
    if c = '"' then QuotesClose rest true
    else QuotesClose rest false

@[simp] lemma quotesClose_close (rest : Text) :
    QuotesClose ('"' :: rest) true = QuotesClose rest false := by
  rw [QuotesClose.eq_def]
  rfl

lemma quotesClose_quoted {c : Char} (rest : Text) (hq : c ≠ '"') (hb : c ≠ '\\') :
    QuotesClose (c :: rest) true = QuotesClose rest true := by
  rw [QuotesClose.eq_def]
  simp only [if_neg hq, if_neg hb]

/-- The commands whose first token starts with a dash, in the text after `orc`. -/
def PanicsOn (t : Text) : Prop := LeadsWithDash t ∧ QuotesClose t false = true

/-! ### The tokeniser -/

/-- Tokens that have been read stay. -/
lemma tokens_isPrefix {t current : Text} {tokens out : List Text} {inQuote : Bool}
    (h : tokeniseLoop t tokens current inQuote = .ok out) : tokens <+: out := by
  fun_induction tokeniseLoop t tokens current inQuote with
  | case1 => simp at h
  | case2 => simp at h
  | case3 tokens current inQuote hq toks hne =>
    rw [← Except.ok.inj h]
    show tokens <+: if current = [] then tokens else tokens ++ [current]
    split_ifs
    · exact List.prefix_rfl
    · exact List.prefix_append _ _
  | case4 rest tokens current ih => exact (List.prefix_append _ _).trans (ih h)
  | case5 tokens current next rest hq ih => exact ih h
  | case6 => simp at h
  | case7 c rest tokens current hq hb ih => exact ih h
  | case8 rest tokens current ih => exact ih h
  | case9 c rest tokens hq hw ih => exact ih h
  | case10 c rest tokens current hq hw hne ih => exact (List.prefix_append _ _).trans (ih h)
  | case11 c rest tokens current hq hw ih => exact ih h

/-- The token under way is completed. -/
lemma current_isPrefix {t current : Text} {tokens out : List Text} {inQuote : Bool}
    (h : tokeniseLoop t tokens current inQuote = .ok out) (hne : current ≠ []) :
    ∃ more, tokens ++ [current ++ more] <+: out := by
  fun_induction tokeniseLoop t tokens current inQuote with
  | case1 => simp at h
  | case2 => simp at h
  | case3 tokens current inQuote hq toks _ =>
    have hout : (if current = [] then tokens else tokens ++ [current]) = out := Except.ok.inj h
    rw [if_neg hne] at hout
    exact ⟨[], by rw [List.append_nil, hout]⟩
  | case4 rest tokens current ih => exact ⟨[], by simpa using tokens_isPrefix h⟩
  | case5 tokens current next rest hq ih =>
    obtain ⟨more, hmore⟩ := ih h (by simp)
    exact ⟨next :: more, by simpa using hmore⟩
  | case6 => simp at h
  | case7 c rest tokens current hq hb ih =>
    obtain ⟨more, hmore⟩ := ih h (by simp)
    exact ⟨c :: more, by simpa using hmore⟩
  | case8 rest tokens current ih => exact ih h hne
  | case9 => exact absurd rfl hne
  | case10 c rest tokens current hq hw hcur ih => exact ⟨[], by simpa using tokens_isPrefix h⟩
  | case11 c rest tokens current hq hw ih =>
    obtain ⟨more, hmore⟩ := ih h (by simp)
    exact ⟨c :: more, by simpa using hmore⟩

/-- An open quote without an end is an error. -/
lemma quotesClose_of_ok {t current : Text} {tokens out : List Text} {inQuote : Bool}
    (h : tokeniseLoop t tokens current inQuote = .ok out) : QuotesClose t inQuote = true := by
  fun_induction tokeniseLoop t tokens current inQuote with
  | case1 => simp at h
  | case2 => simp at h
  | case3 tokens current inQuote hq => simpa [QuotesClose] using hq
  | case4 rest tokens current ih => simpa using ih h
  | case5 tokens current next rest hq ih => simpa [QuotesClose] using ih h
  | case6 => simp at h
  | case7 c rest tokens current hq hb ih => simpa [quotesClose_quoted rest hq hb] using ih h
  | case8 rest tokens current ih => simpa [QuotesClose] using ih h
  | case9 c rest tokens hq hw ih => simpa [QuotesClose, hq] using ih h
  | case10 c rest tokens current hq hw hne ih => simpa [QuotesClose, hq] using ih h
  | case11 c rest tokens current hq hw ih => simpa [QuotesClose, hq] using ih h

/-- Once there is a token, closed quotes are all the tokeniser needs. -/
lemma ok_of_quotesClose {t current : Text} {tokens : List Text} {inQuote : Bool}
    (h : QuotesClose t inQuote = true) (hsome : tokens ≠ [] ∨ current ≠ [] ∨ inQuote = true) :
    ∃ out, tokeniseLoop t tokens current inQuote = .ok out := by
  fun_induction tokeniseLoop t tokens current inQuote with
  | case1 => simp [QuotesClose] at h
  | case2 tokens current inQuote hq toks hnil =>
    have hout : (if current = [] then tokens else tokens ++ [current]) = [] := hnil
    split_ifs at hout with hcur
    · exact absurd hsome (by simp [hout, hcur, hq])
    · simp at hout
  | case3 => exact ⟨_, rfl⟩
  | case4 rest tokens current ih => exact ih (by simpa using h) (Or.inl (by simp))
  | case5 tokens current next rest hq ih =>
    exact ih (by simpa [QuotesClose] using h) (Or.inr (Or.inr rfl))
  | case6 => simp [QuotesClose] at h
  | case7 c rest tokens current hq hb ih =>
    exact ih (by simpa [quotesClose_quoted rest hq hb] using h) (Or.inr (Or.inr rfl))
  | case8 rest tokens current ih =>
    exact ih (by simpa [QuotesClose] using h) (Or.inr (Or.inr rfl))
  | case9 c rest tokens hq hw ih =>
    exact ih (by simpa [QuotesClose, hq] using h) (by simpa using hsome)
  | case10 c rest tokens current hq hw hne ih =>
    exact ih (by simpa [QuotesClose, hq] using h) (Or.inl (by simp))
  | case11 c rest tokens current hq hw ih =>
    exact ih (by simpa [QuotesClose, hq] using h) (Or.inr (Or.inl (by simp)))

/-- The tokeniser gives at least one token. -/
lemma ne_nil_of_tokeniseLoop {t current : Text} {tokens out : List Text} {inQuote : Bool}
    (h : tokeniseLoop t tokens current inQuote = .ok out) : out ≠ [] := by
  fun_induction tokeniseLoop t tokens current inQuote with
  | case1 => simp at h
  | case2 => simp at h
  | case3 tokens current inQuote hq toks hne => exact Except.ok.inj h ▸ hne
  | case4 rest tokens current ih => exact ih h
  | case5 tokens current next rest hq ih => exact ih h
  | case6 => simp at h
  | case7 c rest tokens current hq hb ih => exact ih h
  | case8 rest tokens current ih => exact ih h
  | case9 c rest tokens hq hw ih => exact ih h
  | case10 c rest tokens current hq hw hne ih => exact ih h
  | case11 c rest tokens current hq hw ih => exact ih h

/-! ### The first token -/

lemma head?_of_current {t current : Text} {out : List Text} {inQuote : Bool} {c : Char}
    (h : tokeniseLoop t [] (c :: current) inQuote = .ok out) :
    ∃ first rest, out = (c :: first) :: rest := by
  obtain ⟨more, hmore⟩ := current_isPrefix h (by simp)
  obtain ⟨rest, rfl⟩ := hmore
  exact ⟨current ++ more, rest, rfl⟩

/-- `LeadsWithDash` is about the first token. -/
lemma leadsWithDash_iff {t : Text} {out : List Text} (hws : ∀ c ∈ t.head?, isWhitespace c = false)
    (h : tokeniseLoop t [] [] false = .ok out) :
    LeadsWithDash t ↔ ∃ first rest, out = ('-' :: first) :: rest := by
  have hstep {t' : Text} {c : Char} {inQuote : Bool}
      (h : tokeniseLoop t' [] [c] inQuote = .ok out) :
      c = '-' ↔ ∃ first rest, out = ('-' :: first) :: rest := by
    obtain ⟨first, rest, rfl⟩ := head?_of_current h
    simp
  cases t with
  | nil => simp [tokeniseLoop] at h
  | cons c t =>
    by_cases hq : c = '"'
    · subst hq
      rw [tokeniseLoop_open] at h
      cases t with
      | nil => simp [tokeniseLoop] at h
      | cons d t =>
        by_cases hq' : d = '"'
        · subst hq'
          rw [tokeniseLoop_close] at h
          obtain ⟨rest, rfl⟩ := tokens_isPrefix h
          simp [LeadsWithDash]
        · by_cases hb : d = '\\'
          · subst hb
            cases t with
            | nil => simp [tokeniseLoop] at h
            | cons e t =>
              rw [tokeniseLoop_escape] at h
              exact hstep h
          · rw [tokeniseLoop_quoted _ _ _ hq' hb] at h
            rw [leadsWithDash_quoted t hb]
            exact hstep h
    · rw [tokeniseLoop_char _ _ _ hq (hws c (by simp))] at h
      rw [leadsWithDash_char t hq]
      exact hstep h

/-! ### The panic -/

/-- The text after `orc` shows from its start. -/
lemma head?_commandText (input : Text) :
    ∀ c ∈ (commandText input).head?, isWhitespace c = false := by
  intro c hc
  unfold commandText at hc
  cases hs : dropStart? (trim input) "orc ".toList with
  | some stripped =>
    rw [hs] at hc
    exact head?_trimStart stripped c hc
  | none =>
    rw [hs] at hc
    dsimp only at hc
    split_ifs at hc
    · simp at hc
    · exact head?_trim input c hc

/-- `tokenise` comes to an end without an error exactly on a text that shows, with its quotes
closed. -/
lemma tokenise_ok_iff (input : Text) :
    (∃ tokens, tokenise input = .ok tokens) ↔
      commandText input ≠ [] ∧ QuotesClose (commandText input) false = true := by
  have hws := head?_commandText input
  unfold tokenise
  split_ifs with hnil
  · simp [hnil]
  · constructor
    · rintro ⟨tokens, h⟩
      exact ⟨hnil, quotesClose_of_ok h⟩
    · rintro ⟨-, hclose⟩
      obtain ⟨c, t, hct⟩ := List.exists_cons_of_ne_nil hnil
      rw [hct] at hws hclose ⊢
      by_cases hq : c = '"'
      · subst hq
        rw [tokeniseLoop_open]
        exact ok_of_quotesClose (by simpa [QuotesClose] using hclose) (Or.inr (Or.inr rfl))
      · rw [tokeniseLoop_char _ _ _ hq (hws c (by simp))]
        exact ok_of_quotesClose (by simpa [QuotesClose, hq] using hclose)
          (Or.inr (Or.inl (by simp)))

/-- Without a candidate for the verb there is nothing to index; with one, the parser comes back. -/
lemma buildParsed_cases (tokens : List Text) (hasVerb : Option (Text → Bool)) :
    (buildParsed tokens hasVerb = .panicked ∧ tokens.takeWhile (fun t => NoDash t) = []) ∨
    ((∃ parsed, buildParsed tokens hasVerb = .ok parsed) ∧
      tokens.takeWhile (fun t => NoDash t) ≠ []) := by
  unfold buildParsed
  cases hc : tokens.takeWhile fun t => NoDash t with
  | nil =>
    cases hasVerb with
    | none => exact Or.inl ⟨rfl, rfl⟩
    | some hasVerb => exact Or.inl ⟨rfl, rfl⟩
  | cons first candidates =>
    refine Or.inr ⟨?_, by simp⟩
    dsimp only
    split
    · next found hfound =>
      split at hfound <;> simp at hfound
    · exact ⟨_, rfl⟩

lemma takeWhile_noDash_eq_nil (tokens : List Text) (hne : tokens ≠ []) :
    tokens.takeWhile (fun t => NoDash t) = [] ↔ ∃ first rest, tokens = ('-' :: first) :: rest := by
  cases tokens with
  | nil => exact absurd rfl hne
  | cons token rest =>
    cases token with
    | nil => simp [NoDash]
    | cons c first => simp [NoDash, List.takeWhile_cons]

/-- The two parsers on the tokens of a text. -/
lemma safe_of_tokens {input : Text} {tokens : List Text} (ht : tokenise input = .ok tokens)
    (registry : CommandRegistry) :
    ((parseCommandLine input).Safe ↔ tokens.takeWhile (fun t => NoDash t) ≠ []) ∧
    ((parseCommandLineWithRegistry input registry).Safe ↔
      tokens.takeWhile (fun t => NoDash t) ≠ []) := by
  unfold parseCommandLine parseCommandLineWithRegistry
  rw [ht]
  constructor
  · rcases buildParsed_cases tokens none with ⟨hb, hnil⟩ | ⟨⟨parsed, hb⟩, hne⟩
    · simp [hb, hnil, Returned.Safe]
    · simp [hb, hne, Returned.Safe]
  · rcases buildParsed_cases tokens (some registry.hasVerb) with ⟨hb, hnil⟩ | ⟨⟨parsed, hb⟩, hne⟩
    · simp [hb, hnil, Returned.Safe]
    · simp only [hb]
      cases registry.getByVerb parsed.verb with
      | none => simp [hne, Returned.Safe]
      | some desc => simp [hne, Returned.Safe]

/-- The tokens of a text that does not panic start with a candidate for the verb. -/
lemma panicsOn_iff {input : Text} {tokens : List Text} (ht : tokenise input = .ok tokens) :
    PanicsOn (commandText input) ↔ tokens.takeWhile (fun t => NoDash t) = [] := by
  unfold tokenise at ht
  split_ifs at ht
  rw [takeWhile_noDash_eq_nil tokens (ne_nil_of_tokeniseLoop ht),
    ← leadsWithDash_iff (head?_commandText input) ht, PanicsOn]
  exact and_iff_left (quotesClose_of_ok ht)

/-- Both parsers come back exactly on the texts whose quotes are left open or whose first token
does not start with a dash. -/
theorem parse_command_line_safe_iff (input : Text) (registry : CommandRegistry) :
    ((parseCommandLine input).Safe ∧ (parseCommandLineWithRegistry input registry).Safe) ↔
      ¬ PanicsOn (commandText input) := by
  cases ht : tokenise input with
  | ok tokens =>
    obtain ⟨hplain, hreg⟩ := safe_of_tokens ht registry
    rw [hplain, hreg, and_self_iff, panicsOn_iff ht]
  | error e =>
    have hnot : ¬ PanicsOn (commandText input) := by
      rintro ⟨hlead, hclose⟩
      have hne : commandText input ≠ [] := fun hnil => by simp [hnil, LeadsWithDash] at hlead
      obtain ⟨tokens, hok⟩ := (tokenise_ok_iff input).mpr ⟨hne, hclose⟩
      simp [ht] at hok
    unfold parseCommandLine parseCommandLineWithRegistry
    rw [ht]
    simp [hnot, Returned.Safe]

/-- A line made of one flag is a panic. -/
theorem not_parse_command_line_safe :
    ¬ ∀ (input : Text) (registry : CommandRegistry),
      (parseCommandLine input).Safe ∧ (parseCommandLineWithRegistry input registry).Safe := by
  intro h
  have hpanic : parseCommandLine "--verbose".toList = .panicked := rfl
  have hsafe := (h "--verbose".toList CommandRegistry.new).1
  rw [hpanic] at hsafe
  simp [Returned.Safe] at hsafe

end Orchid.Command
