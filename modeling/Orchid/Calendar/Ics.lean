import Mathlib.Data.Nat.Digits.Defs
import Orchid.Base.Text
import Orchid.Lib.ByteText

/-!
# iCalendar objects

Writing one event as an iCalendar object, and reading the events of a calendar. A slice of a text
that is too short, or that cuts a character, is a panic: then reading has no result.
-/

namespace Orchid.Calendar

open Lib

/-! ### Numbers and dates -/

/-- `{:04}` of an `i32` -/
def padYear (y : ℤ) : Text := if 0 ≤ y then pad 4 y.toNat else '-' :: pad 3 y.natAbs

/-- `str::parse::<i32>` -/
def parseI32 (t : Text) : Option ℤ :=
  if startsWith t '-' then
    ((parseDigits t.tail).filter fun n => n ≤ 2 ^ 31).map fun n : ℕ => -(n : ℤ)
  else
    ((parseDigits (if startsWith t '+' then t.tail else t)).filter fun n => n < 2 ^ 31).map
      fun n : ℕ => (n : ℤ)

def isLeap (y : ℤ) : Bool := y % 4 = 0 && (y % 100 ≠ 0 || y % 400 = 0)

def daysInMonth (y : ℤ) (m : ℕ) : ℕ :=
  if m = 2 then (if isLeap y then 29 else 28)
  else if m = 4 ∨ m = 6 ∨ m = 9 ∨ m = 11 then 30 else 31

/-- A date that chrono can represent. -/
def ValidDate (y : ℤ) (m d : ℕ) : Prop :=
  (-262143 ≤ y ∧ y ≤ 262142) ∧ (1 ≤ m ∧ m ≤ 12) ∧ 1 ≤ d ∧ d ≤ daysInMonth y m

instance (y : ℤ) (m d : ℕ) : Decidable (ValidDate y m d) := inferInstanceAs (Decidable (_ ∧ _))

/-- `NaiveDate` -/
structure NaiveDate where
  year : ℤ
  month : ℕ
  day : ℕ
  valid : ValidDate year month day

/-- `NaiveDate::from_ymd_opt` -/
def fromYmdOpt (y : ℤ) (m d : ℕ) : Option NaiveDate :=
  if h : ValidDate y m d then some ⟨y, m, d, h⟩ else none

/-- `succ_opt` -/
def NaiveDate.succOpt (d : NaiveDate) : Option NaiveDate :=
  (fromYmdOpt d.year d.month (d.day + 1)).or
    ((fromYmdOpt d.year (d.month + 1) 1).or (fromYmdOpt (d.year + 1) 1 1))

/-- `format_date` -/
def formatDate (d : NaiveDate) : Text :=
  padYear d.year ++ '-' :: pad 2 d.month ++ '-' :: pad 2 d.day

/-- `str::split`, of a character. -/
def splitOn (sep : Char) : Text → List Text
  | [] => [[]]
  | c :: t =>
    if c = sep then [] :: splitOn sep t
    else
      match splitOn sep t with
      | [] => [[c]]
      | first :: rest => (c :: first) :: rest

/-- `parse_date` -/
def parseDate (t : Text) : Option NaiveDate :=
  match splitOn '-' t with
  | [y, m, d] => do fromYmdOpt (← parseI32 y) (← parseU32 m) (← parseU32 d)
  | _ => none

/-! ### Writing -/

/-- `CalendarEvent`, without its id and color. -/
structure CalendarEvent where
  title : Text
  date : Text
  allDay : Bool
  startMinutes : U16
  endMinutes : U16
  notes : Text

/-- `hhmmss` -/
def hhmmss (minutes : U16) : Text :=
  pad 2 (minutes.val / 60) ++ pad 2 (minutes.val % 60) ++ ['0', '0']

/-- `escape_text` -/
def escapeText (t : Text) : Text :=
  t.flatMap fun c =>
    if c = '\\' then ['\\', '\\']
    else if c = ';' then ['\\', ';']
    else if c = ',' then ['\\', ',']
    else if c = '\n' then ['\\', 'n']
    else if c = '\r' then []
    else [c]

/-- `date.replace('-', "")` -/
def withoutDashes (t : Text) : Text := t.filter fun c => c ≠ '-'

/-- The lines about when the event starts and ends. -/
def whenLines (event : CalendarEvent) : List Text :=
  let day := withoutDashes event.date
  if event.allDay then
    let stop := (((parseDate event.date).bind NaiveDate.succOpt).map fun d =>
      padYear d.year ++ pad 2 d.month ++ pad 2 d.day).getD day
    ["DTSTART;VALUE=DATE:".toList ++ day, "DTEND;VALUE=DATE:".toList ++ stop]
  else
    ["DTSTART:".toList ++ day ++ 'T' :: hhmmss event.startMinutes,
      "DTEND:".toList ++ day ++ 'T' :: hhmmss event.endMinutes]

/-- `Utc::now().format("%Y%m%dT%H%M%SZ")` -/
def formatStamp (d : NaiveDate) (hour minute second : ℕ) : Text :=
  padYear d.year ++ pad 2 d.month ++ pad 2 d.day ++ 'T' :: pad 2 hour ++ pad 2 minute ++
    pad 2 second ++ ['Z']

/-- The lines of `render_ics` -/
def icsLines (stamp : Text) (event : CalendarEvent) (uid : Text) : List Text :=
  ["BEGIN:VCALENDAR".toList, "VERSION:2.0".toList, "PRODID:-//Orchid//Calendar//EN".toList,
    "BEGIN:VEVENT".toList, "UID:".toList ++ uid, "DTSTAMP:".toList ++ stamp] ++
  whenLines event ++ ["SUMMARY:".toList ++ escapeText event.title] ++
  (if event.notes = [] then [] else ["DESCRIPTION:".toList ++ escapeText event.notes]) ++
  ["END:VEVENT".toList, "END:VCALENDAR".toList]

/-- `render_ics` -/
def renderIcs (stamp : Text) (event : CalendarEvent) (uid : Text) : Text :=
  (icsLines stamp event uid).flatMap (· ++ ['\r', '\n'])

/-! ### Reading -/

/-- `unfold` -/
def unfold : Text → Text
  | [] => []
  | c :: t =>
    if c = '\r' then unfold t
    else if c = '\n' then
      match t with
      | [] => ['\n']
      | d :: t' => if d = ' ' ∨ d = '\t' then unfold t' else '\n' :: unfold (d :: t')
    else c :: unfold t

/-- `str::split_once`, of a character. -/
def splitOnce (sep : Char) : Text → Option (Text × Text)
  | [] => none
  | c :: t => if c = sep then some ([], t) else (splitOnce sep t).map fun r => (c :: r.1, r.2)

/-- `unescape_text` -/
def unescapeText : Text → Text
  | [] => []
  | [c] => [c]
  | c :: d :: t =>
    if c = '\\' then (if d = 'n' ∨ d = 'N' then '\n' else d) :: unescapeText t
    else c :: unescapeText (d :: t)

/-- `str::to_ascii_uppercase` -/
def toAsciiUppercase (t : Text) : Text := t.map Char.toUpper

/-- `str::eq_ignore_ascii_case` -/
def eqIgnoreAsciiCase (t u : Text) : Bool := toAsciiLowercase t = toAsciiLowercase u

/-- `str::trim_matches`, of a character. -/
def trimMatches (c : Char) (t : Text) : Text := (t.dropWhile (· = c)).rdropWhile (· = c)

/-- `split_prop` -/
def splitProp (line : Text) : Option (Text × List (Text × Text) × Text) :=
  match splitOnce ':' line with
  | none => none
  | some (head, value) =>
    let parts := splitOn ';' head
    let params := parts.tail.filterMap fun part =>
      (splitOnce '=' part).map fun (key, value) => (toAsciiUppercase key, trimMatches '"' value)
    some (toAsciiUppercase parts.head!, params, unescapeText value)

/-- `When` -/
inductive When
  | date (date : NaiveDate)
  | dateTime (date : NaiveDate) (minutes : ℕ)

/-- `ymd`; the outer `Option` is missing on a panic. -/
def ymd (t : Text) : Option (Option NaiveDate) := do
  if String.utf8Len t < 8 then
    return none
  let y ← sliceBytes t 0 4
  match parseI32 y with
  | none => return none
  | some y =>
    let m ← sliceBytes t 4 6
    match parseU32 m with
    | none => return none
    | some m =>
      let d ← sliceBytes t 6 8
      match parseU32 d with
      | none => return none
      | some d => return fromYmdOpt y m d

/-- `parse_when`; `toLocal` is chrono's conversion of a UTC time of a day to local time. -/
def parseWhen (toLocal : NaiveDate → ℕ → ℕ → Option (NaiveDate × ℕ))
    (params : List (Text × Text)) (value : Text) : Option (Option When) := do
  let value := trim value
  let size := String.utf8Len value
  if (params.any fun p => p.1 = "VALUE".toList && eqIgnoreAsciiCase p.2 "DATE".toList) ||
      (size = 8 && value.all Char.isDigit) then
    let day ← sliceBytes value 0 8
    return (← ymd day).map When.date
  if size < 15 ∨ sliceBytes value 8 9 ≠ some ['T'] then
    return none
  let day ← sliceBytes value 0 8
  match ← ymd day with
  | none => return none
  | some date =>
    let hour ← sliceBytes value 9 11
    match parseU32 hour with
    | none => return none
    | some hour =>
      let minute ← sliceBytes value 11 13
      match parseU32 minute with
      | none => return none
      | some minute =>
        if hour > 23 ∨ minute > 59 then
          return none
        if value.getLast? = some 'Z' then
          return (toLocal date hour minute).map fun (date, minutes) => .dateTime date minutes
        return some (.dateTime date (hour * 60 + minute))

/-- `RemoteEvent`, without its href and etag. -/
structure RemoteEvent where
  uid : Text
  title : Text
  notes : Text
  date : Text
  allDay : Bool
  startMinutes : ℕ
  endMinutes : ℕ

/-- `ParsedIcs`, without its start date and span. -/
structure ParsedIcs where
  uid : Text
  rrule : Text
  cancelled : Bool
  event : Option RemoteEvent
  exdates : List NaiveDate

/-- What is read of the event at hand, and the events before it. -/
structure Reading where
  inEvent : Bool := false
  uid : Text := []
  title : Text := []
  notes : Text := []
  start : Option When := none
  stop : Option When := none
  rrule : Text := []
  exdates : List NaiveDate := []
  cancelled : Bool := false
  out : List ParsedIcs := []

/-- `finish_event` -/
def finishEvent (r : Reading) : Option ParsedIcs :=
  if r.uid = [] ∧ r.title = [] then none
  else if r.cancelled then some ⟨r.uid, r.rrule, true, none, []⟩
  else
    match r.start with
    | none => none
    | some start =>
      let (date, allDay, startMinutes, endMinutes) :=
        match start with
        | .date date => (date, true, 0, 0)
        | .dateTime date startMinutes =>
          match r.stop with
          | some (.dateTime _ minutes) => (date, false, startMinutes, max minutes startMinutes)
          | _ =>
            (date, false, startMinutes, min (min (startMinutes + 60) (2 ^ 16 - 1)) (23 * 60 + 59))
      some ⟨r.uid, r.rrule, false, some ⟨r.uid, r.title, r.notes, formatDate date, allDay,
        startMinutes, endMinutes⟩, r.exdates⟩

variable (toLocal : NaiveDate → ℕ → ℕ → Option (NaiveDate × ℕ))

/-- A property of the event at hand. -/
def readProp (r : Reading) (name : Text) (params : List (Text × Text)) (value : Text) :
    Option Reading :=
  if name = "UID".toList then some { r with uid := value }
  else if name = "SUMMARY".toList then some { r with title := value }
  else if name = "DESCRIPTION".toList then some { r with notes := value }
  else if name = "RRULE".toList then some { r with rrule := value }
  else if name = "EXDATE".toList then
    ((splitOn ',' value).mapM fun piece => parseWhen toLocal params (trim piece)).map fun whens =>
      { r with
        exdates := r.exdates ++ whens.filterMap (Option.map fun
          | .date date => date
          | .dateTime date _ => date) }
  else if name = "STATUS".toList ∧ eqIgnoreAsciiCase value "CANCELLED".toList then
    some { r with cancelled := true }
  else if name = "DTSTART".toList then
    (parseWhen toLocal params value).map fun start => { r with start := start }
  else if name = "DTEND".toList then
    (parseWhen toLocal params value).map fun stop => { r with stop := stop }
  else some r

/-- One round of the loop of `parse_calendar`. -/
def readLine (r : Reading) (line : Text) : Option Reading :=
  let line := trim line
  if eqIgnoreAsciiCase line "BEGIN:VEVENT".toList then some { inEvent := true, out := r.out }
  else if eqIgnoreAsciiCase line "END:VEVENT".toList then
    some { r with inEvent := false, out := r.out ++ (finishEvent r).toList }
  else if r.inEvent = false then some r
  else
    match splitProp line with
    | none => some r
    | some (name, params, value) => readProp toLocal r name params value

/-- `parse_calendar` -/
def parseCalendar (ics : Text) : Option (List ParsedIcs) :=
  if trim ics = [] then some []
  else ((lines (unfold ics)).foldlM (readLine toLocal) {}).map Reading.out

/-! ### The round trip -/

/-- Reading what was written for an event gives back that one event. -/
def RoundTrips (stamp : Text) (event : CalendarEvent) (uid : Text) : Prop :=
  ∃ parsed remote, parseCalendar toLocal (renderIcs stamp event uid) = some [parsed] ∧
    parsed.event = some remote ∧ remote.uid = uid ∧ remote.title = event.title ∧
    remote.notes = event.notes ∧ remote.date = event.date ∧ remote.allDay = event.allDay ∧
    remote.startMinutes = event.startMinutes.val ∧ remote.endMinutes = event.endMinutes.val

end Orchid.Calendar
