import Orchid.Calendar.Escaping

/-!
# Reading the lines of an object

Unfolding and splitting give back the lines that were written, and every line is read on its own.
-/

namespace Orchid.Calendar

/-! ### Lines -/

/-- A line as `render_ics` writes it: without line breaks, and not the continuation of another. -/
structure PlainLine (l : Text) : Prop where
  newline : '\n' ∉ l
  carriage : '\r' ∉ l
  start : ∃ c t, l = c :: t ∧ c ≠ ' ' ∧ c ≠ '\t'

lemma unfold_newline {t : Text} (h : t = [] ∨ ∃ c u, t = c :: u ∧ c ≠ ' ' ∧ c ≠ '\t') :
    unfold ('\n' :: t) = '\n' :: unfold t := by
  rcases h with rfl | ⟨c, u, rfl, hs, ht⟩
  · rfl
  · rw [unfold.eq_def]
    dsimp only
    rw [if_neg (by decide), if_pos rfl, if_neg (not_or.mpr ⟨hs, ht⟩)]

lemma unfold_append {l : Text} (hn : '\n' ∉ l) (hr : '\r' ∉ l) (t : Text) :
    unfold (l ++ t) = l ++ unfold t := by
  induction l with
  | nil => rfl
  | cons c l ih =>
    obtain ⟨hcn, hn⟩ := not_or.mp (mt List.mem_cons.mpr hn)
    obtain ⟨hcr, hr⟩ := not_or.mp (mt List.mem_cons.mpr hr)
    rw [List.cons_append, unfold.eq_def]
    dsimp only
    rw [if_neg (Ne.symm hcr), if_neg (Ne.symm hcn), ih hn hr]
    rfl

/-- The lines of the object, each with a line break, begin like a line or are empty. -/
lemma unfold_lines {ls : List Text} (h : ∀ l ∈ ls, PlainLine l) :
    unfold (ls.flatMap (· ++ ['\r', '\n'])) = ls.flatMap (· ++ ['\n']) := by
  induction ls with
  | nil => rfl
  | cons l ls ih =>
    obtain ⟨hl, hls⟩ := List.forall_mem_cons.mp h
    have hstart : ls.flatMap (· ++ ['\r', '\n']) = [] ∨
        ∃ c u, ls.flatMap (· ++ ['\r', '\n']) = c :: u ∧ c ≠ ' ' ∧ c ≠ '\t' := by
      cases ls with
      | nil => exact .inl rfl
      | cons l' ls =>
        obtain ⟨c, t, rfl, hc⟩ := (hls l' List.mem_cons_self).start
        exact .inr ⟨c, _, rfl, hc⟩
    rw [List.flatMap_cons, List.flatMap_cons, List.append_assoc,
      unfold_append hl.newline hl.carriage, ← ih hls, List.append_assoc]
    exact congrArg (l ++ ·) (unfold_newline hstart)

lemma lines_flatMap {ls : List Text} (h : ∀ l ∈ ls, PlainLine l) :
    lines (ls.flatMap (· ++ ['\n'])) = ls := by
  induction ls with
  | nil => rfl
  | cons l ls ih =>
    obtain ⟨hl, hls⟩ := List.forall_mem_cons.mp h
    rw [List.flatMap_cons, List.append_assoc, lines]
    exact (linesFrom_append hl.newline hl.carriage _ [] List.not_mem_nil).trans
      (congrArg (l :: ·) (ih hls))

variable (toLocal : NaiveDate → ℕ → ℕ → Option (NaiveDate × ℕ))

/-- What was written line by line is read line by line. -/
lemma parseCalendar_lines {ls : List Text} (h : ∀ l ∈ ls, PlainLine l)
    (hshows : ∃ l ∈ ls, ∃ c ∈ l, isWhitespace c = false) :
    parseCalendar toLocal (ls.flatMap (· ++ ['\r', '\n'])) =
      (ls.foldlM (readLine toLocal) {}).map Reading.out := by
  have hne : trim (ls.flatMap (· ++ ['\r', '\n'])) ≠ [] := by
    obtain ⟨l, hl, c, hc, hshow⟩ := hshows
    intro hnil
    obtain ⟨ws, ws', heq, hws, hws'⟩ := exists_trim (ls.flatMap (· ++ ['\r', '\n']))
    have hmem : c ∈ ls.flatMap (· ++ ['\r', '\n']) :=
      List.mem_flatMap.mpr ⟨l, hl, List.mem_append_left _ hc⟩
    rw [heq, hnil, List.append_nil] at hmem
    have := (List.mem_append.mp hmem).elim (hws c) (hws' c)
    exact Bool.false_ne_true (hshow.symm.trans this)
  rw [parseCalendar, if_neg hne, unfold_lines h, lines_flatMap h]

/-! ### One property -/

lemma splitOnce_append {sep : Char} {head : Text} (h : sep ∉ head) (value : Text) :
    splitOnce sep (head ++ sep :: value) = some (head, value) := by
  induction head with
  | nil => simp [splitOnce]
  | cons c head ih =>
    obtain ⟨hc, hh⟩ := not_or.mp (mt List.mem_cons.mpr h)
    rw [List.cons_append, splitOnce, if_neg (Ne.symm hc), ih hh]
    rfl

/-- A text trimmed at its end shows there. -/
lemma getLast?_trimEnd (t : Text) : ∀ c ∈ (trimEnd t).getLast?, isWhitespace c = false := by
  intro c hc
  obtain ⟨u, hu⟩ := List.getLast?_eq_some_iff.mp hc
  have hlast := head?_trimStart t.reverse c
  rw [trimStart] at hlast
  have hrev : t.reverse.dropWhile isWhitespace = c :: u.reverse := by
    have := congrArg List.reverse hu
    rw [trimEnd, List.rdropWhile, List.reverse_reverse] at this
    rw [this]
    simp
  exact hlast (by rw [hrev]; rfl)

lemma not_eqIgnoreAsciiCase {c d : Char} (h : c.toLower ≠ d.toLower) (t u : Text) :
    ¬ eqIgnoreAsciiCase (c :: t) (d :: u) = true := by
  intro heq
  have hmap : (c :: t).map Char.toLower = (d :: u).map Char.toLower := of_decide_eq_true heq
  rw [List.map_cons, List.map_cons, List.cons.injEq] at hmap
  exact h hmap.1

lemma trim_property {c : Char} (hc : isWhitespace c = false) (head value : Text) :
    trim (c :: head ++ ':' :: value) = c :: head ++ ':' :: trimEnd value := by
  have hstart : trimStart (c :: head ++ ':' :: value) = c :: head ++ ':' :: value :=
    trimStart_eq_self (by simpa using hc)
  have hvalue : value = trimEnd value ++ value.rtakeWhile isWhitespace :=
    List.rdropWhile_append_rtakeWhile.symm
  have hshow : trimEnd (c :: head ++ ':' :: trimEnd value) = c :: head ++ ':' :: trimEnd value := by
    refine trimEnd_eq_self fun d hd => ?_
    rw [List.getLast?_append, List.getLast?_cons, Option.some_or] at hd
    obtain rfl := Option.some.inj hd
    cases hl : (trimEnd value).getLast? with
    | none => rfl
    | some e => exact getLast?_trimEnd value e hl
  rw [trim, hstart]
  conv_lhs => rw [hvalue, ← List.cons_append, ← List.append_assoc]
  rw [trimEnd_append_of_all fun d hd => List.mem_rtakeWhile_imp hd, hshow]

/-- A property's line, read inside an event. -/
lemma readLine_property {r : Reading} (hr : r.inEvent = true) {c : Char} {head name : Text}
    {params : List (Text × Text)} (hc : isWhitespace c = false) (hb : c.toLower ≠ 'b')
    (he : c.toLower ≠ 'e') (hcolon : ':' ∉ c :: head)
    (hname : toAsciiUppercase (splitOn ';' (c :: head)).head! = name)
    (hparams : ((splitOn ';' (c :: head)).tail.filterMap fun part =>
      (splitOnce '=' part).map fun (key, value) => (toAsciiUppercase key, trimMatches '"' value)) =
        params) (value : Text) :
    readLine toLocal r (c :: head ++ ':' :: value) =
      readProp toLocal r name params (unescapeText (trimEnd value)) := by
  have hbegin : ¬ eqIgnoreAsciiCase (c :: head ++ ':' :: trimEnd value) "BEGIN:VEVENT".toList =
      true := not_eqIgnoreAsciiCase (show c.toLower ≠ 'B'.toLower from hb) _ _
  have hend : ¬ eqIgnoreAsciiCase (c :: head ++ ':' :: trimEnd value) "END:VEVENT".toList =
      true := not_eqIgnoreAsciiCase (show c.toLower ≠ 'E'.toLower from he) _ _
  have hprop : splitProp (c :: head ++ ':' :: trimEnd value) =
      some (name, params, unescapeText (trimEnd value)) := by
    unfold splitProp
    rw [splitOnce_append hcolon]
    dsimp only
    rw [hname, hparams]
  unfold readLine
  rw [trim_property hc]
  dsimp only
  rw [if_neg hbegin, if_neg hend, if_neg (by simp [hr]), hprop]

end Orchid.Calendar
