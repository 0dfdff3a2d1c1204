import Orchid.Calendar.Dates

/-!
# The round trip of an event

What reading the object written for an event comes to, and which events come back as they were.
-/

namespace Orchid.Calendar

variable {toLocal : NaiveDate → ℕ → ℕ → Option (NaiveDate × ℕ)} {event : CalendarEvent}
  {uid : Text} {d : NaiveDate}

/-! ### The texts of a date -/

lemma isDigit_withoutDashes (d : NaiveDate) :
    ∀ c ∈ withoutDashes (formatDate d), c.isDigit = true := by
  rcases le_or_gt 0 d.year with h | h
  · exact isDigit_date h
  · intro c hc
    obtain ⟨hc, hne⟩ := List.mem_filter.mp hc
    rw [formatDate, padYear, if_neg (not_le.mpr h)] at hc
    have hdash : c ≠ '-' := of_decide_eq_true hne
    rcases List.mem_append.mp hc with hc | hc
    · rcases List.mem_append.mp hc with hc | hc
      · rcases List.mem_cons.mp hc with hc | hc
        · exact absurd hc hdash
        · exact isDigit_pad c hc
      · rcases List.mem_cons.mp hc with hc | hc
        · exact absurd hc hdash
        · exact isDigit_pad c hc
    · rcases List.mem_cons.mp hc with hc | hc
      · exact absurd hc hdash
      · exact isDigit_pad c hc

lemma isDigit_hhmmss (minutes : U16) : ∀ c ∈ hhmmss minutes, c.isDigit = true := by
  intro c hc
  rcases List.mem_append.mp hc with hc | hc
  · exact (List.mem_append.mp hc).elim (isDigit_pad c) (isDigit_pad c)
  · obtain rfl : c = '0' := by simpa using hc
    rfl

/-- What stands behind the colon of the line about the start. -/
def startText (event : CalendarEvent) : Text :=
  if event.allDay then withoutDashes event.date
  else withoutDashes event.date ++ 'T' :: hhmmss event.startMinutes

/-- What stands behind the colon of the line about the end. -/
def stopText (event : CalendarEvent) : Text :=
  if event.allDay then
    (((parseDate event.date).bind NaiveDate.succOpt).map fun d =>
      padYear d.year ++ pad 2 d.month ++ pad 2 d.day).getD (withoutDashes event.date)
  else withoutDashes event.date ++ 'T' :: hhmmss event.endMinutes

/-- The parameters of both lines. -/
def whenParams (event : CalendarEvent) : List (Text × Text) := if event.allDay then dateOnly else []

/-- Digits, a dash and the letter of a time: what these texts are made of. -/
def DateChar (c : Char) : Prop := c.isDigit = true ∨ c = 'T' ∨ c = '-'

lemma dateChar_startText (hdate : event.date = formatDate d) :
    ∀ c ∈ startText event, DateChar c ∧ c ≠ '-' := by
  have hday : ∀ c ∈ withoutDashes event.date, DateChar c ∧ c ≠ '-' := fun c hc =>
    ⟨.inl (isDigit_withoutDashes d c (hdate ▸ hc)), of_decide_eq_true (List.mem_filter.mp hc).2⟩
  intro c hc
  unfold startText at hc
  split_ifs at hc
  · exact hday c hc
  · rcases List.mem_append.mp hc with hc | hc
    · exact hday c hc
    · rcases List.mem_cons.mp hc with rfl | hc
      · exact ⟨.inr (.inl rfl), by decide⟩
      · have hdigit := isDigit_hhmmss event.startMinutes c hc
        refine ⟨.inl hdigit, ?_⟩
        rintro rfl
        exact Bool.false_ne_true hdigit

lemma dateChar_stopText (hdate : event.date = formatDate d) :
    ∀ c ∈ stopText event, DateChar c := by
  have hday : ∀ c ∈ withoutDashes event.date, DateChar c := fun c hc =>
    .inl (isDigit_withoutDashes d c (hdate ▸ hc))
  intro c hc
  unfold stopText at hc
  split_ifs at hc
  · cases hstop : (parseDate event.date).bind NaiveDate.succOpt with
    | none =>
      rw [hstop] at hc
      exact hday c hc
    | some e =>
      rw [hstop, Option.map_some, Option.getD_some] at hc
      rcases List.mem_append.mp hc with hc | hc
      · rcases List.mem_append.mp hc with hc | hc
        · unfold padYear at hc
          split_ifs at hc
          · exact .inl (isDigit_pad c hc)
          · exact (List.mem_cons.mp hc).elim (fun h => .inr (.inr h))
              fun h => .inl (isDigit_pad c h)
        · exact .inl (isDigit_pad c hc)
      · exact .inl (isDigit_pad c hc)
  · rcases List.mem_append.mp hc with hc | hc
    · exact hday c hc
    · rcases List.mem_cons.mp hc with rfl | hc
      · exact .inr (.inl rfl)
      · exact .inl (isDigit_hhmmss event.endMinutes c hc)

lemma unescape_dateChars {t : Text} (h : ∀ c ∈ t, DateChar c) : unescapeText (trimEnd t) = t := by
  refine (verbatim_iff t).mpr ⟨fun c hc => ?_, fun hmem => ?_⟩
  · rcases h c (List.mem_of_getLast? hc) with hd | rfl | rfl
    · exact isWhitespace_of_isDigit hd
    · rfl
    · rfl
  · rcases h '\\' (List.dropLast_subset t hmem) with hd | hd | hd
    · exact absurd hd (by decide)
    · exact absurd hd (by decide)
    · exact absurd hd (by decide)

/-! ### Line by line -/

lemma plainLine_append {head tail : Text} (h : PlainLine head) (hn : '\n' ∉ tail)
    (hr : '\r' ∉ tail) : PlainLine (head ++ tail) where
  newline hmem := (List.mem_append.mp hmem).elim h.newline hn
  carriage hmem := (List.mem_append.mp hmem).elim h.carriage hr
  start := by
    obtain ⟨c, t, rfl, hc⟩ := h.start
    exact ⟨c, t ++ tail, rfl, hc⟩

lemma DateChar.notMem {t : Text} (h : ∀ c ∈ t, DateChar c) {c : Char} (hc : ¬ DateChar c) :
    c ∉ t := fun hmem => hc (h c hmem)

lemma not_dateChar_newline : ¬ DateChar '\n' := by
  simp [DateChar]

lemma not_dateChar_carriage : ¬ DateChar '\r' := by
  simp [DateChar]

lemma dateChar_formatStamp (hour minute second : ℕ) :
    ∀ c ∈ formatStamp d hour minute second, DateChar c ∨ c = 'Z' := by
  have hpad : ∀ {w n : ℕ} {c : Char}, c ∈ pad w n → DateChar c ∨ c = 'Z' := fun hc =>
    .inl (.inl (isDigit_pad _ hc))
  intro c hc
  simp only [formatStamp, List.mem_append, List.mem_cons, List.not_mem_nil, or_false] at hc
  rcases hc with (((((hc | hc) | hc) | hc | hc) | hc) | hc) | hc
  · unfold padYear at hc
    split_ifs at hc
    · exact hpad hc
    · exact (List.mem_cons.mp hc).elim (fun h => .inl (.inr (.inr h))) fun h => hpad h
  · exact hpad hc
  · exact hpad hc
  · exact .inl (.inr (.inl hc))
  · exact hpad hc
  · exact hpad hc
  · exact hpad hc
  · exact .inr hc

variable (toLocal)

lemma readLine_uid {r : Reading} (hr : r.inEvent = true) (value : Text) :
    readLine toLocal r ("UID:".toList ++ value) =
      some { r with uid := unescapeText (trimEnd value) } :=
  readLine_property toLocal hr (c := 'U') (rfl) (by decide) (by decide) (show ':' ∉ "UID".toList by
    decide) rfl rfl value

lemma readLine_stamp {r : Reading} (hr : r.inEvent = true) (value : Text) :
    readLine toLocal r ("DTSTAMP:".toList ++ value) = some r :=
  readLine_property toLocal hr (c := 'D') rfl (by decide) (by decide)
    (show ':' ∉ "DTSTAMP".toList by decide) rfl rfl value

lemma readLine_summary {r : Reading} (hr : r.inEvent = true) (value : Text) :
    readLine toLocal r ("SUMMARY:".toList ++ value) =
      some { r with title := unescapeText (trimEnd value) } :=
  readLine_property toLocal hr (c := 'S') rfl (by decide) (by decide)
    (show ':' ∉ "SUMMARY".toList by decide) rfl rfl value

lemma readLine_description {r : Reading} (hr : r.inEvent = true) (value : Text) :
    readLine toLocal r ("DESCRIPTION:".toList ++ value) =
      some { r with notes := unescapeText (trimEnd value) } :=
  readLine_property toLocal hr (c := 'D') rfl (by decide) (by decide)
    (show ':' ∉ "DESCRIPTION".toList by decide) rfl rfl value

lemma foldlM_pair {r : Reading} (hr : r.inEvent = true) {l₁ l₂ : Text}
    {start stop : Option (Option When)}
    (h₁ : ∀ r : Reading, r.inEvent = true →
      readLine toLocal r l₁ = start.map fun start => { r with start := start })
    (h₂ : ∀ r : Reading, r.inEvent = true →
      readLine toLocal r l₂ = stop.map fun stop => { r with stop := stop }) :
    [l₁, l₂].foldlM (readLine toLocal) r =
      start.bind fun start => stop.map fun stop => { r with start := start, stop := stop } := by
  rw [List.foldlM_cons, h₁ r hr]
  cases start with
  | none => rfl
  | some start =>
    simp only [Option.map_some, Option.bind_eq_bind, Option.bind_some, List.foldlM_cons,
      List.foldlM_nil]
    rw [h₂ { r with start := start } hr]
    cases stop <;> rfl

lemma whenLines_allDay (hday : event.allDay = true) : whenLines event =
    ["DTSTART;VALUE=DATE:".toList ++ startText event,
      "DTEND;VALUE=DATE:".toList ++ stopText event] := by
  simp only [whenLines, startText, stopText, hday, if_true]

lemma whenLines_timed (hday : event.allDay = false) : whenLines event =
    ["DTSTART:".toList ++ startText event, "DTEND:".toList ++ stopText event] := by
  simp only [whenLines, startText, stopText, hday, Bool.false_eq_true, if_false, List.append_assoc]

/-- The lines about the start and the end. -/
lemma read_whenLines {r : Reading} (hr : r.inEvent = true) (hdate : event.date = formatDate d) :
    (whenLines event).foldlM (readLine toLocal) r =
      (parseWhen toLocal (whenParams event) (startText event)).bind fun start =>
        (parseWhen toLocal (whenParams event) (stopText event)).map fun stop =>
          { r with start := start, stop := stop } := by
  have hstart := unescape_dateChars fun c hc => (dateChar_startText hdate c hc).1
  have hstop := unescape_dateChars (dateChar_stopText hdate)
  cases hday : event.allDay with
  | true =>
    rw [whenLines_allDay hday, whenParams, hday, if_pos rfl]
    refine foldlM_pair toLocal hr (fun r hr => ?_) fun r hr => ?_
    · conv_rhs => rw [← hstart]
      exact readLine_property toLocal hr (c := 'D') rfl (by decide) (by decide)
        (show ':' ∉ "DTSTART;VALUE=DATE".toList by decide) rfl rfl (startText event)
    · conv_rhs => rw [← hstop]
      exact readLine_property toLocal hr (c := 'D') rfl (by decide) (by decide)
        (show ':' ∉ "DTEND;VALUE=DATE".toList by decide) rfl rfl (stopText event)
  | false =>
    rw [whenLines_timed hday, whenParams, hday, if_neg Bool.false_ne_true]
    refine foldlM_pair toLocal hr (fun r hr => ?_) fun r hr => ?_
    · conv_rhs => rw [← hstart]
      exact readLine_property toLocal hr (c := 'D') rfl (by decide) (by decide)
        (show ':' ∉ "DTSTART".toList by decide) rfl rfl (startText event)
    · conv_rhs => rw [← hstop]
      exact readLine_property toLocal hr (c := 'D') rfl (by decide) (by decide)
        (show ':' ∉ "DTEND".toList by decide) rfl rfl (stopText event)

/-! ### The whole object -/

/-- What has been read when the event ends. -/
def readBack (event : CalendarEvent) (uid : Text) (start stop : Option When) : Reading :=
  { inEvent := true, uid := unescapeText (trimEnd uid),
    title := unescapeText (trimEnd (escapeText event.title)),
    notes := unescapeText (trimEnd (escapeText event.notes)), start := start, stop := stop }

/-- The lines behind those about the start and the end. -/
def endLines (event : CalendarEvent) : List Text :=
  ["SUMMARY:".toList ++ escapeText event.title] ++
    ((if event.notes = [] then [] else ["DESCRIPTION:".toList ++ escapeText event.notes]) ++
      ["END:VEVENT".toList, "END:VCALENDAR".toList])

lemma read_end (r : Reading) : ["END:VEVENT".toList, "END:VCALENDAR".toList].foldlM
    (readLine toLocal) r =
      some { r with inEvent := false, out := r.out ++ (finishEvent r).toList } := rfl

lemma read_endLines {r : Reading} (hr : r.inEvent = true) (hnotes : r.notes = [])
    (hout : r.out = []) : (endLines event).foldlM (readLine toLocal) r =
      some { r with
        inEvent := false
        title := unescapeText (trimEnd (escapeText event.title))
        notes := unescapeText (trimEnd (escapeText event.notes))
        out := (finishEvent { r with
          title := unescapeText (trimEnd (escapeText event.title))
          notes := unescapeText (trimEnd (escapeText event.notes)) }).toList } := by
  rw [endLines, List.cons_append, List.foldlM_cons, readLine_summary toLocal (by exact hr),
    Option.bind_eq_bind, Option.bind_some, List.nil_append]
  obtain ⟨inEvent, uid, title, notes, start, stop, rrule, exdates, cancelled, out⟩ := r
  obtain rfl : notes = [] := hnotes
  obtain rfl : out = [] := hout
  by_cases hempty : event.notes = []
  · rw [if_pos hempty, List.nil_append, read_end, hempty]
    rfl
  · rw [if_neg hempty, List.cons_append, List.foldlM_cons,
      readLine_description toLocal (by exact hr),
      Option.bind_eq_bind, Option.bind_some, List.nil_append, read_end]
    rfl

lemma plainLine_const {c : Char} {t : Text} (hn : '\n' ∉ c :: t) (hr : '\r' ∉ c :: t)
    (hs : c ≠ ' ') (ht : c ≠ '\t') : PlainLine (c :: t) :=
  ⟨hn, hr, c, t, rfl, hs, ht⟩

omit toLocal in
lemma plainLine_whenLines (hdate : event.date = formatDate d) :
    ∀ l ∈ whenLines event, PlainLine l := by
  have hstart : ∀ {head : Text}, PlainLine head → PlainLine (head ++ startText event) := fun h =>
    plainLine_append h
      (DateChar.notMem (fun c hc => (dateChar_startText hdate c hc).1) not_dateChar_newline)
      (DateChar.notMem (fun c hc => (dateChar_startText hdate c hc).1) not_dateChar_carriage)
  have hstop : ∀ {head : Text}, PlainLine head → PlainLine (head ++ stopText event) := fun h =>
    plainLine_append h (DateChar.notMem (dateChar_stopText hdate) not_dateChar_newline)
      (DateChar.notMem (dateChar_stopText hdate) not_dateChar_carriage)
  intro l hl
  cases hday : event.allDay with
  | true =>
    rw [whenLines_allDay hday] at hl
    rcases List.mem_pair.mp hl with rfl | rfl
    · exact hstart (plainLine_const (by decide) (by decide) (by decide) (by decide))
    · exact hstop (plainLine_const (by decide) (by decide) (by decide) (by decide))
  | false =>
    rw [whenLines_timed hday] at hl
    rcases List.mem_pair.mp hl with rfl | rfl
    · exact hstart (plainLine_const (by decide) (by decide) (by decide) (by decide))
    · exact hstop (plainLine_const (by decide) (by decide) (by decide) (by decide))

omit toLocal in
lemma plainLine_icsLines (hdate : event.date = formatDate d) (huid : '\n' ∉ uid ∧ '\r' ∉ uid)
    {stamp : Text} (hstamp : '\n' ∉ stamp ∧ '\r' ∉ stamp) :
    ∀ l ∈ icsLines stamp event uid, PlainLine l := by
  have hescape : ∀ {head : Text} (t : Text), PlainLine head → PlainLine (head ++ escapeText t) :=
    fun t h => plainLine_append h (notMem_escapeText (.inl rfl) t) (notMem_escapeText (.inr rfl) t)
  have hhead : ∀ l ∈ ["BEGIN:VCALENDAR".toList, "VERSION:2.0".toList,
      "PRODID:-//Orchid//Calendar//EN".toList, "BEGIN:VEVENT".toList, "UID:".toList ++ uid,
      "DTSTAMP:".toList ++ stamp], PlainLine l := by
    intro l hl
    simp only [List.mem_cons, List.not_mem_nil, or_false] at hl
    rcases hl with rfl | rfl | rfl | rfl | rfl | rfl
    · exact plainLine_const (by decide) (by decide) (by decide) (by decide)
    · exact plainLine_const (by decide) (by decide) (by decide) (by decide)
    · exact plainLine_const (by decide) (by decide) (by decide) (by decide)
    · exact plainLine_const (by decide) (by decide) (by decide) (by decide)
    · exact plainLine_append (plainLine_const (by decide) (by decide) (by decide) (by decide))
        huid.1 huid.2
    · exact plainLine_append (plainLine_const (by decide) (by decide) (by decide) (by decide))
        hstamp.1 hstamp.2
  intro l hl
  rcases List.mem_append.mp hl with hl | hl
  · rcases List.mem_append.mp hl with hl | hl
    · rcases List.mem_append.mp hl with hl | hl
      · exact (List.mem_append.mp hl).elim (hhead l) (plainLine_whenLines hdate l)
      · rw [List.mem_singleton.mp hl]
        exact hescape _ (plainLine_const (by decide) (by decide) (by decide) (by decide))
    · split_ifs at hl
      · cases hl
      · rw [List.mem_singleton.mp hl]
        exact hescape _ (plainLine_const (by decide) (by decide) (by decide) (by decide))
  · rcases List.mem_pair.mp hl with rfl | rfl
    · exact plainLine_const (by decide) (by decide) (by decide) (by decide)
    · exact plainLine_const (by decide) (by decide) (by decide) (by decide)

/-- The object of an event is read as one event, from what is left of its texts. -/
lemma parseCalendar_renderIcs (hdate : event.date = formatDate d)
    (huid : '\n' ∉ uid ∧ '\r' ∉ uid) {stamp : Text} (hstamp : '\n' ∉ stamp ∧ '\r' ∉ stamp) :
    parseCalendar toLocal (renderIcs stamp event uid) =
      (parseWhen toLocal (whenParams event) (startText event)).bind fun start =>
        (parseWhen toLocal (whenParams event) (stopText event)).map fun stop =>
          (finishEvent (readBack event uid start stop)).toList := by
  have hshows : ∃ l ∈ icsLines stamp event uid, ∃ c ∈ l, isWhitespace c = false :=
    ⟨"BEGIN:VCALENDAR".toList, List.mem_append_left _ (List.mem_append_left _
      (List.mem_append_left _ (List.mem_append_left _ List.mem_cons_self))), 'B', by decide, rfl⟩
  rw [renderIcs, parseCalendar_lines toLocal (plainLine_icsLines hdate huid hstamp) hshows]
  have hhead : (["BEGIN:VCALENDAR".toList, "VERSION:2.0".toList,
      "PRODID:-//Orchid//Calendar//EN".toList, "BEGIN:VEVENT".toList, "UID:".toList ++ uid,
      "DTSTAMP:".toList ++ stamp]).foldlM (readLine toLocal) {} =
        some { inEvent := true, uid := unescapeText (trimEnd uid) } := by
    have h₁ : readLine toLocal {} "BEGIN:VCALENDAR".toList = some {} := rfl
    have h₂ : readLine toLocal {} "VERSION:2.0".toList = some {} := rfl
    have h₃ : readLine toLocal {} "PRODID:-//Orchid//Calendar//EN".toList = some {} := rfl
    have h₄ : readLine toLocal {} "BEGIN:VEVENT".toList = some { inEvent := true } := rfl
    rw [List.foldlM_cons, h₁, Option.bind_eq_bind, Option.bind_some, List.foldlM_cons, h₂,
      Option.bind_eq_bind, Option.bind_some, List.foldlM_cons, h₃, Option.bind_eq_bind,
      Option.bind_some, List.foldlM_cons, h₄, Option.bind_eq_bind, Option.bind_some,
      List.foldlM_cons, readLine_uid toLocal rfl, Option.bind_eq_bind, Option.bind_some,
      List.foldlM_cons, readLine_stamp toLocal rfl]
    rfl
  have hsplit : icsLines stamp event uid = ["BEGIN:VCALENDAR".toList, "VERSION:2.0".toList,
      "PRODID:-//Orchid//Calendar//EN".toList, "BEGIN:VEVENT".toList, "UID:".toList ++ uid,
      "DTSTAMP:".toList ++ stamp] ++ (whenLines event ++ endLines event) := by
    simp only [icsLines, endLines, List.append_assoc]
  rw [hsplit, List.foldlM_append, hhead, Option.bind_eq_bind, Option.bind_some, List.foldlM_append,
    read_whenLines toLocal rfl hdate]
  cases parseWhen toLocal (whenParams event) (startText event) with
  | none => rfl
  | some start =>
    cases parseWhen toLocal (whenParams event) (stopText event) with
    | none => rfl
    | some stop =>
      simp only [Option.bind_some, Option.map_some, Option.bind_eq_bind]
      rw [read_endLines toLocal rfl rfl rfl]
      rfl

/-! ### Which events come back -/

/-- An event that comes back as it was: its texts survive, it has a name, its year has four digits,
and its times are of a day, or it is a whole day and has none. -/
structure Preserved (event : CalendarEvent) (d : NaiveDate) (uid : Text) : Prop where
  verbatim : Verbatim uid
  title : Survives event.title
  notes : Survives event.notes
  named : uid ≠ [] ∨ event.title ≠ []
  year : d.FourDigits
  wholeDay : event.allDay = true → event.startMinutes.val = 0 ∧ event.endMinutes.val = 0
  timed : event.allDay = false → event.startMinutes.val < 1440 ∧ event.endMinutes.val < 1440

variable {toLocal}

/-- The date and the times that `finish_event` takes from the two lines. -/
def whenFields (start : When) (stop : Option When) : Text × Bool × ℕ × ℕ :=
  match start with
  | .date date => (formatDate date, true, 0, 0)
  | .dateTime date startMinutes =>
    match stop with
    | some (.dateTime _ minutes) => (formatDate date, false, startMinutes, max minutes startMinutes)
    | _ =>
      (formatDate date, false, startMinutes,
        min (min (startMinutes + 60) (2 ^ 16 - 1)) (23 * 60 + 59))

lemma finishEvent_readBack (event : CalendarEvent) (uid : Text) (start : When)
    (stop : Option When) :
    finishEvent (readBack event uid (some start) stop) =
      if unescapeText (trimEnd uid) = [] ∧ unescapeText (trimEnd (escapeText event.title)) = [] then
        none
      else some ⟨unescapeText (trimEnd uid), [], false, some ⟨unescapeText (trimEnd uid),
        unescapeText (trimEnd (escapeText event.title)),
        unescapeText (trimEnd (escapeText event.notes)), (whenFields start stop).1,
        (whenFields start stop).2.1, (whenFields start stop).2.2.1,
        (whenFields start stop).2.2.2⟩, []⟩ := by
  unfold finishEvent readBack
  dsimp only
  by_cases hempty : unescapeText (trimEnd uid) = [] ∧
      unescapeText (trimEnd (escapeText event.title)) = []
  · rw [if_pos hempty, if_pos hempty]
  · rw [if_neg hempty, if_neg hempty]
    cases start with
    | date date => rfl
    | dateTime date minutes =>
      cases stop with
      | none => rfl
      | some stop => cases stop <;> rfl

/-- The round trip, by what is read of the start and the end and what is left of the texts. -/
lemma roundTrips_iff_fields (hdate : event.date = formatDate d)
    (huid : '\n' ∉ uid ∧ '\r' ∉ uid) {stamp : Text} (hstamp : '\n' ∉ stamp ∧ '\r' ∉ stamp) :
    RoundTrips toLocal stamp event uid ↔ Verbatim uid ∧ Survives event.title ∧
      Survives event.notes ∧ (uid ≠ [] ∨ event.title ≠ []) ∧ ∃ start stop,
        parseWhen toLocal (whenParams event) (startText event) = some (some start) ∧
        parseWhen toLocal (whenParams event) (stopText event) = some stop ∧
        whenFields start stop =
          (event.date, event.allDay, event.startMinutes.val, event.endMinutes.val) := by
  rw [← verbatim_iff, ← survives_iff, ← survives_iff, RoundTrips,
    parseCalendar_renderIcs toLocal hdate huid hstamp]
  constructor
  · rintro ⟨parsed, remote, hparse, hevent, hu, ht, hn, hd, ha, hs, he⟩
    obtain ⟨start, hstart, hparse⟩ := Option.bind_eq_some_iff.mp hparse
    obtain ⟨stop, hstop, hparse⟩ := Option.map_eq_some_iff.mp hparse
    cases start with
    | none =>
      have hnone : finishEvent (readBack event uid none stop) = none := by
        unfold finishEvent readBack
        dsimp only
        by_cases hempty : unescapeText (trimEnd uid) = [] ∧
            unescapeText (trimEnd (escapeText event.title)) = []
        · rw [if_pos hempty]
        · rw [if_neg hempty]
          rfl
      rw [hnone] at hparse
      cases hparse
    | some start =>
      rw [finishEvent_readBack] at hparse
      split_ifs at hparse with hempty
      · cases hparse
      · obtain rfl := (List.cons.inj hparse).1
        obtain rfl := Option.some.inj hevent
        dsimp only at hu ht hn hd ha hs he
        refine ⟨hu, ht, hn, ?_, start, stop, hstart, hstop, ?_⟩
        · rw [hu, ht] at hempty
          exact not_and_or.mp hempty
        · exact Prod.ext hd (Prod.ext ha (Prod.ext hs he))
  · rintro ⟨hu, ht, hn, hnamed, start, stop, hstart, hstop, hfields⟩
    rw [hstart, hstop, Option.bind_some, Option.map_some, finishEvent_readBack, hu, ht, hn,
      if_neg (not_and_or.mpr hnamed), hfields]
    exact ⟨_, _, rfl, rfl, rfl, rfl, rfl, rfl, rfl, rfl, rfl⟩

/-- A date that is written like one with a four-digit year has one too. -/
lemma fourDigits_of_eq {d' : NaiveDate} (h : d'.FourDigits) (heq : formatDate d' = formatDate d) :
    d.FourDigits := by
  have hsign : 0 ≤ d.year := by
    by_contra hneg
    rw [formatDate, formatDate, padYear, padYear, if_pos h.1, if_neg hneg] at heq
    obtain ⟨c, t, hc⟩ := List.exists_cons_of_ne_nil (pad_ne_nil 4 d'.year.toNat)
    have hdigit := isDigit_pad c (by rw [hc]; exact List.mem_cons_self)
    rw [hc] at heq
    obtain rfl := (List.cons.inj heq).1
    exact Bool.false_ne_true hdigit
  have hlen : (pad 4 d.year.toNat).length = 4 := by
    have h₁ := length_date h
    rw [heq, withoutDashes_formatDate hsign, List.length_append, List.length_append,
      length_pad d.month_lt (by decide), length_pad d.day_lt (by decide)] at h₁
    omega
  have hle : (Nat.toDigits 10 d.year.toNat).length ≤ 4 := by
    rw [← hlen, pad, List.length_append]
    exact Nat.le_add_left _ _
  have hlt := (Nat.length_toDigits_le_iff (b := 10) (by decide) (by decide)).mp hle
  exact ⟨hsign, by omega⟩

lemma year_le_succOpt {e : NaiveDate} (h : d.succOpt = some e) : d.year ≤ e.year := by
  have hyear : ∀ {y m n}, fromYmdOpt y m n = some e → e.year = y := by
    intro y m n hymd
    unfold fromYmdOpt at hymd
    split_ifs at hymd
    obtain rfl := Option.some.inj hymd
    rfl
  rcases Option.or_eq_some_iff.mp h with h | ⟨-, h⟩
  · exact (hyear h).ge
  · rcases Option.or_eq_some_iff.mp h with h | ⟨-, h⟩
    · exact (hyear h).ge
    · have := hyear h
      omega

/-- What is read of a text of date characters without dashes. -/
lemma parseWhen_chars {params : List (Text × Text)} {t : Text} {w : When}
    (hchars : ∀ c ∈ t, DateChar c ∧ c ≠ '-')
    (h : parseWhen toLocal params t = some (some w)) :
    (∃ d', w = .date d' ∧ d'.FourDigits) ∨
      ∃ d' m, w = .dateTime d' m ∧ d'.FourDigits ∧ m < 1440 := by
  refine parseWhen_bound (fun hmem => (hchars '-' hmem).2 rfl) (fun hz => ?_) h
  have hmem : 'Z' ∈ t := by
    obtain ⟨ws, ws', ht, -, -⟩ := exists_trim t
    rw [ht]
    exact List.mem_append_left _ (List.mem_append_right _ (List.mem_of_getLast? hz))
  rcases (hchars 'Z' hmem).1 with hd | hd | hd
  · exact Bool.false_ne_true hd
  · exact absurd hd (by decide)
  · exact absurd hd (by decide)

/-- The end of an event with times is no later than its day. -/
lemma minutes_of_stopText (hdate : event.date = formatDate d) (hday : event.allDay = false)
    {d' : NaiveDate} {m : ℕ}
    (h : parseWhen toLocal (whenParams event) (stopText event) = some (some (.dateTime d' m))) :
    m < 1440 := by
  have htext : stopText event = startText { event with startMinutes := event.endMinutes } := by
    rw [stopText, startText, hday]
    rfl
  have hchars : ∀ c ∈ stopText event, DateChar c ∧ c ≠ '-' := by
    rw [htext]
    exact dateChar_startText hdate
  rcases parseWhen_chars hchars h with ⟨_, hw, -⟩ | ⟨_, _, hw, -, hm⟩
  · cases hw
  · obtain ⟨-, rfl⟩ := When.dateTime.inj hw
    exact hm

/-- What the fields say about an event whose start is read with a time. -/
lemma whenFields_dateTime {d' : NaiveDate} {m : ℕ} {stop : Option When}
    (h : whenFields (.dateTime d' m) stop =
      (event.date, event.allDay, event.startMinutes.val, event.endMinutes.val))
    (hstop : ∀ d'' m', stop = some (.dateTime d'' m') → event.allDay = false → m' < 1440)
    (hm : m < 1440) :
    formatDate d' = event.date ∧ false = event.allDay ∧ m = event.startMinutes.val ∧
      event.endMinutes.val < 1440 := by
  cases stop with
  | none =>
    simp only [whenFields, Prod.mk.injEq] at h
    obtain ⟨hd, ha, hs, he⟩ := h
    exact ⟨hd, ha, hs, by omega⟩
  | some stop =>
    cases stop with
    | date d'' =>
      simp only [whenFields, Prod.mk.injEq] at h
      obtain ⟨hd, ha, hs, he⟩ := h
      exact ⟨hd, ha, hs, by omega⟩
    | dateTime d'' m' =>
      simp only [whenFields, Prod.mk.injEq] at h
      obtain ⟨hd, ha, hs, he⟩ := h
      have hm' := hstop d'' m' rfl ha.symm
      exact ⟨hd, ha, hs, by omega⟩

/-- The day behind a whole day is read without a panic. -/
lemma parseWhen_stopText (hdate : event.date = formatDate d) (hyear : d.FourDigits)
    (hday : event.allDay = true) :
    ∃ stop, parseWhen toLocal (whenParams event) (stopText event) = some stop := by
  have hdigits : ∀ t : Text, (∀ c ∈ t, c.isDigit = true) → 8 ≤ t.length →
      ∃ stop, parseWhen toLocal dateOnly t = some stop := by
    intro t ht hlen
    obtain ⟨r, hr⟩ := ymd_digits (t := t.take 8) (by rw [List.length_take, min_eq_left hlen])
      fun c hc => ht c (List.mem_of_mem_take hc)
    rw [parseWhen_dateOnly ht hlen, hr]
    exact ⟨_, rfl⟩
  rw [whenParams, stopText, if_pos hday, if_pos hday, hdate, parseDate_formatDate hyear,
    Option.bind_some]
  cases hsucc : d.succOpt with
  | none => exact hdigits _ (isDigit_date hyear.1) (length_date hyear).ge
  | some e =>
    have hpos : 0 ≤ e.year := hyear.1.trans (year_le_succOpt hsucc)
    rw [Option.map_some, Option.getD_some, padYear, if_pos hpos]
    refine hdigits _ (fun c hc => ?_) ?_
    · rcases List.mem_append.mp hc with hc | hc
      · exact (List.mem_append.mp hc).elim (isDigit_pad c) (isDigit_pad c)
      · exact isDigit_pad c hc
    · have h₁ := le_length_pad 4 e.year.toNat
      have h₂ := le_length_pad 2 e.month
      have h₃ := le_length_pad 2 e.day
      rw [List.length_append, List.length_append]
      omega

/-- Every event with a date comes back as it was exactly if it is preserved. -/
theorem roundTrips_iff (hdate : event.date = formatDate d) (huid : '\n' ∉ uid ∧ '\r' ∉ uid)
    (hend : event.allDay = false → event.startMinutes ≤ event.endMinutes) (now : NaiveDate)
    (hour minute second : ℕ) :
    RoundTrips toLocal (formatStamp now hour minute second) event uid ↔ Preserved event d uid := by
  have hstamp : ∀ c, ¬ (DateChar c ∨ c = 'Z') → c ∉ formatStamp now hour minute second :=
    fun c hc hmem => hc (dateChar_formatStamp hour minute second c hmem)
  have hnewline : ¬ (DateChar '\n' ∨ '\n' = 'Z') := not_or.mpr ⟨not_dateChar_newline, by decide⟩
  have hcarriage : ¬ (DateChar '\r' ∨ '\r' = 'Z') := not_or.mpr ⟨not_dateChar_carriage, by decide⟩
  rw [roundTrips_iff_fields hdate huid ⟨hstamp _ hnewline, hstamp _ hcarriage⟩]
  constructor
  · rintro ⟨hu, ht, hn, hnamed, start, stop, hstart, hstop, hfields⟩
    rcases parseWhen_chars (dateChar_startText hdate) hstart with
      ⟨d', rfl, hfour⟩ | ⟨d', m, rfl, hfour, hm⟩
    · obtain ⟨hd, ha, hs, he⟩ : formatDate d' = event.date ∧ true = event.allDay ∧
          0 = event.startMinutes.val ∧ 0 = event.endMinutes.val := by
        simpa only [whenFields, Prod.mk.injEq] using hfields
      exact ⟨hu, ht, hn, hnamed, fourDigits_of_eq hfour (hd.trans hdate),
        fun _ => ⟨hs.symm, he.symm⟩, fun hday => absurd (ha.trans hday) (by decide)⟩
    · have hstop' : ∀ d'' m', stop = some (.dateTime d'' m') → event.allDay = false →
          m' < 1440 := by
        rintro d'' m' rfl hday
        exact minutes_of_stopText hdate hday hstop
      obtain ⟨hd, ha, hs, he⟩ := whenFields_dateTime hfields hstop' hm
      exact ⟨hu, ht, hn, hnamed, fourDigits_of_eq hfour (hd.trans hdate),
        fun hday => absurd (ha.trans hday) (by decide), fun _ => ⟨hs ▸ hm, he⟩⟩
  · intro h
    refine ⟨h.verbatim, h.title, h.notes, h.named, ?_⟩
    cases hday : event.allDay with
    | true =>
      obtain ⟨hs, he⟩ := h.wholeDay hday
      obtain ⟨stop, hstop⟩ := parseWhen_stopText hdate h.year hday
      refine ⟨.date d, stop, ?_, hstop, ?_⟩
      · have hlen := length_date h.year
        rw [whenParams, startText, if_pos hday, if_pos hday, hdate,
          parseWhen_dateOnly (isDigit_date h.year.1) hlen.ge, List.take_of_length_le hlen.le,
          ymd_date h.year]
        rfl
      · rw [whenFields, hdate, hs, he]
    | false =>
      obtain ⟨hs, he⟩ := h.timed hday
      refine ⟨.dateTime d event.startMinutes.val, some (.dateTime d event.endMinutes.val),
        ?_, ?_, ?_⟩
      · rw [whenParams, startText, hday, if_neg Bool.false_ne_true, if_neg Bool.false_ne_true,
          hdate]
        exact parseWhen_dateTime h.year hs
      · rw [whenParams, stopText, hday, if_neg Bool.false_ne_true, if_neg Bool.false_ne_true,
          hdate]
        exact parseWhen_dateTime h.year he
      · have hle : event.startMinutes.val ≤ event.endMinutes.val := hend hday
        rw [whenFields, hdate, max_eq_left hle]

/-- An hour on a day. -/
def teaTime (title : Text) : CalendarEvent where
  title := title
  date := formatDate ⟨2026, 10, 3, by decide⟩
  allDay := false
  startMinutes := 540
  endMinutes := 600
  notes := []

theorem roundTrips_iff_teaTime :
    RoundTrips (fun _ _ _ => none) (formatStamp ⟨2026, 10, 2, by decide⟩ 9 0 0)
      (teaTime "Tea".toList) "tea".toList := by
  refine (roundTrips_iff rfl ⟨by decide, by decide⟩ (fun _ => by decide) _ 9 0 0).mpr ?_
  exact {
    verbatim := ⟨fun c hc => Option.some.inj hc ▸ rfl, by decide⟩
    title := ⟨by decide, fun c hc hw => absurd (Option.some.inj hc ▸ hw) (by decide)⟩
    notes := ⟨List.not_mem_nil, fun c hc => absurd hc (Option.not_mem_none c)⟩
    named := .inl (by decide)
    year := ⟨by decide, by decide⟩
    wholeDay := fun h => absurd h (by decide)
    timed := fun _ => ⟨by decide, by decide⟩ }

/-- A blank behind the title is lost: every line is trimmed before it is read. -/
theorem not_roundTrips : ¬ ∀ (toLocal : NaiveDate → ℕ → ℕ → Option (NaiveDate × ℕ))
    (event : CalendarEvent) (uid : Text) (d now : NaiveDate) (hour minute second : ℕ),
    event.date = formatDate d → '\n' ∉ uid ∧ '\r' ∉ uid →
    (event.allDay = false → event.startMinutes ≤ event.endMinutes) →
    RoundTrips toLocal (formatStamp now hour minute second) event uid := by
  intro h
  have hrt := h (fun _ _ _ => none) (teaTime "Tea ".toList) "tea".toList ⟨2026, 10, 3, by decide⟩
    ⟨2026, 10, 2, by decide⟩ 9 0 0 rfl ⟨by decide, by decide⟩ fun _ => by decide
  have htitle := ((roundTrips_iff_fields rfl ⟨by decide, by decide⟩
    ⟨by decide, by decide⟩).mp hrt).2.1
  exact absurd (htitle.2 ' ' (by decide) rfl) (by decide)

end Orchid.Calendar
