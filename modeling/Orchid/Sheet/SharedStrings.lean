import Mathlib.Data.List.DropRight
import Orchid.Base.Text

/-!
# Shared strings

The strings of a workbook, to which cells refer by their place; `orchid-viewers/src/office/xml.rs`.
The events of the XML reader are given: a text comes without references, which are events of their
own.
-/

namespace Orchid.Sheet

/-- An event of the reader. -/
inductive XmlEvent
  | start (name : Text)
  | empty (name : Text)
  | finish (name : Text)
  | text (raw : Text)
  | reference (name : Text)
  | cdata (content : Text)
  | other

/-- `local_name` -/
def localName (name : Text) : Text := name.rtakeWhile fun c => c != ':' && c != '}'

/-- `entity_text` -/
def entityText (raw : Text) : Text :=
  if raw = "amp".toList then ['&']
  else if raw = "lt".toList then ['<']
  else if raw = "gt".toList then ['>']
  else if raw = "quot".toList then ['"']
  else if raw = "apos".toList then ['\'']
  else []

/-- `xml_text` -/
def xmlText : Text → Text
  | [] => []
  | c :: rest =>
    if c ≠ '&' then c :: xmlText rest
    else if ';' ∉ rest then '&' :: xmlText rest
    else if entityText (rest.takeWhile (· != ';')) = [] then '&' :: xmlText rest
    else
      entityText (rest.takeWhile (· != ';')) ++ xmlText ((rest.dropWhile (· != ';')).drop 1)
termination_by t => t.length
decreasing_by
  all_goals simp only [List.length_cons, List.length_drop]
  all_goals have := (List.dropWhile_suffix (· != ';') (l := rest)).length_le
  all_goals omega

/-- `strings`, `current`, `in_si` and `in_t` -/
structure StringReader where
  strings : List Text := []
  current : Text := []
  inSi : Bool := false
  inT : Bool := false

/-- The loop body of `shared_strings`. -/
def StringReader.step (s : StringReader) : XmlEvent → StringReader
  | .start name =>
    if localName name = "si".toList then { s with inSi := true, current := [] }
    else if s.inSi ∧ localName name = "t".toList then { s with inT := true }
    else s
  | .text raw => if s.inT then { s with current := s.current ++ xmlText raw } else s
  | .reference name => if s.inT then { s with current := s.current ++ entityText name } else s
  | .finish name =>
    if localName name = "t".toList then { s with inT := false }
    else if localName name = "si".toList then
      { s with strings := s.strings ++ [s.current], current := [], inSi := false }
    else s
  | _ => s

/-- `shared_strings` -/
def sharedStrings (events : List XmlEvent) : List Text :=
  (events.foldl StringReader.step {}).strings

/-! ### The part -/

/-- What a `t` element is made of. -/
inductive TextPiece
  | chars (raw : Text) (plain : '&' ∉ raw)
  | reference (name : Text)
  | cdata (content : Text)
  | comment

/-- The value of digits to a base, letters included. -/
def digitsValue (base : ℕ) (digits : Text) : ℕ :=
  digits.foldl (fun n c => n * base + if c.isDigit then c.toNat - 48 else c.toLower.toNat - 87) 0

/-- What a reference stands for. -/
def referenceText (name : Text) : Text :=
  match name with
  | '#' :: 'x' :: digits => [Char.ofNat (digitsValue 16 digits)]
  | '#' :: digits => [Char.ofNat (digitsValue 10 digits)]
  | name => entityText name

namespace TextPiece

def event : TextPiece → XmlEvent
  | chars raw _ => .text raw
  | reference name => .reference name
  | cdata content => .cdata content
  | comment => .other

/-- The text of a piece. -/
def said : TextPiece → Text
  | chars raw _ => raw
  | reference name => referenceText name
  | cdata content => content
  | comment => []

/-- What the reader makes of it. -/
def heard : TextPiece → Text
  | chars raw _ => raw
  | reference name => entityText name
  | _ => []

/-- What the reader leaves out. -/
def lost : TextPiece → Text
  | reference name => if entityText name = [] then referenceText name else []
  | cdata content => content
  | _ => []

end TextPiece

/-- The start or the end of an element with another name than those that matter within an entry, an
empty element that is no entry, or something that is no element. -/
def XmlEvent.Neutral : XmlEvent → Prop
  | .start name | .finish name => localName name ∉ ["si".toList, "t".toList, "rPh".toList]
  | .empty name => localName name ≠ "si".toList
  | _ => True

/-- Part of an entry: a `t` element, or an event next to them. -/
inductive RunItem
  | neutral (event : XmlEvent) (h : event.Neutral)
  | t (name : Text) (h : localName name = "t".toList) (pieces : List TextPiece)

namespace RunItem

def events : RunItem → List XmlEvent
  | neutral event _ => [event]
  | t name _ pieces => .start name :: (pieces.map TextPiece.event ++ [.finish name])

def pieces : RunItem → List TextPiece
  | neutral _ _ => []
  | t _ _ pieces => pieces

end RunItem

/-- Part of an entry, within a phonetic run or outside. -/
inductive EntryItem
  | plain (item : RunItem)
  | phonetic (name : Text) (h : localName name = "rPh".toList) (items : List RunItem)

namespace EntryItem

def events : EntryItem → List XmlEvent
  | plain item => item.events
  | phonetic name _ items => .start name :: (items.flatMap RunItem.events ++ [.finish name])

def pieces : EntryItem → List TextPiece
  | plain item => item.pieces
  | phonetic _ _ items => items.flatMap RunItem.pieces

/-- The pieces of text that count. -/
def spoken : EntryItem → List TextPiece
  | plain item => item.pieces
  | phonetic _ _ _ => []

/-- The pieces of text that do not. -/
def unspoken : EntryItem → List TextPiece
  | plain _ => []
  | phonetic _ _ items => items.flatMap RunItem.pieces

end EntryItem

/-- An `si` element. -/
inductive Entry
  | empty (name : Text) (h : localName name = "si".toList)
  | element (name : Text) (h : localName name = "si".toList) (items : List EntryItem)

namespace Entry

def events : Entry → List XmlEvent
  | empty name _ => [.empty name]
  | element name _ items => .start name :: (items.flatMap EntryItem.events ++ [.finish name])

def items : Entry → List EntryItem
  | empty _ _ => []
  | element _ _ items => items

/-- The text of an entry: that of its `t` elements outside phonetic runs. -/
def said (e : Entry) : Text := (e.items.flatMap EntryItem.spoken).flatMap TextPiece.said

/-- What the reader makes of an entry that is not empty. -/
def heard (e : Entry) : Text := (e.items.flatMap EntryItem.pieces).flatMap TextPiece.heard

/-- What the reader leaves out of the text: character references and CDATA sections. -/
def lost (e : Entry) : Text := (e.items.flatMap EntryItem.spoken).flatMap TextPiece.lost

/-- What the reader adds to it: the text of phonetic runs. -/
def added (e : Entry) : Text := (e.items.flatMap EntryItem.unspoken).flatMap TextPiece.heard

end Entry

/-- An event that is neither the start nor the end of an entry. -/
def XmlEvent.Between : XmlEvent → Prop
  | .start name | .empty name | .finish name => localName name ≠ "si".toList
  | _ => True

/-- A part of the file: entries, and events between them. -/
inductive PartItem
  | between (event : XmlEvent) (h : event.Between)
  | entry (e : Entry)

namespace PartItem

def events : PartItem → List XmlEvent
  | between event _ => [event]
  | entry e => e.events

def entries : PartItem → List Entry
  | between _ _ => []
  | entry e => [e]

end PartItem

/-! ### Reading -/

lemma xmlText_of_plain {raw : Text} (h : '&' ∉ raw) : xmlText raw = raw := by
  induction raw with
  | nil => rw [xmlText]
  | cons c raw ih =>
    obtain ⟨hc, hraw⟩ := not_or.mp (mt List.mem_cons.mpr h)
    rw [xmlText, if_pos (Ne.symm hc), ih hraw]

/-- More text is heard. -/
def StringReader.hear (s : StringReader) (t : Text) : StringReader :=
  { s with current := s.current ++ t }

@[simp] lemma StringReader.hear_nil (s : StringReader) : s.hear [] = s := by
  simp [StringReader.hear]

@[simp] lemma StringReader.hear_hear (s : StringReader) (t u : Text) :
    (s.hear t).hear u = s.hear (t ++ u) := by
  simp [StringReader.hear]

lemma foldl_pieces {s : StringReader} (hT : s.inT = true) (pieces : List TextPiece) :
    (pieces.map TextPiece.event).foldl StringReader.step s =
      s.hear (pieces.flatMap TextPiece.heard) := by
  induction pieces generalizing s with
  | nil => simp
  | cons piece pieces ih =>
    have hstep : s.step piece.event = s.hear piece.heard := by
      cases piece with
      | chars raw plain =>
        rw [TextPiece.event, StringReader.step, if_pos hT, xmlText_of_plain plain]
        rfl
      | reference name => rw [TextPiece.event, StringReader.step, if_pos hT]; rfl
      | cdata content | comment => exact (s.hear_nil).symm
    rw [List.map_cons, List.foldl_cons, hstep, ih (s := s.hear _) hT, List.flatMap_cons,
      StringReader.hear_hear]

lemma step_neutral {s : StringReader} (hT : s.inT = false) {event : XmlEvent}
    (h : event.Neutral) : s.step event = s := by
  cases event with
  | start name | finish name =>
    simp only [XmlEvent.Neutral, List.mem_cons, not_or] at h
    rw [StringReader.step]
    simp only [h.1, h.2.1, and_false, if_false]
  | text raw | reference name => simp [StringReader.step, hT]
  | empty name | cdata content | other => rfl

lemma foldl_run {s : StringReader} (hSi : s.inSi = true) (hT : s.inT = false) (item : RunItem) :
    item.events.foldl StringReader.step s =
      s.hear (item.pieces.flatMap TextPiece.heard) := by
  cases item with
  | neutral event h => simp [RunItem.events, RunItem.pieces, step_neutral hT h]
  | t name h pieces =>
    have hsi : localName name ≠ "si".toList := h ▸ by decide
    have hopen : s.step (.start name) = { s with inT := true } := by
      rw [StringReader.step, if_neg hsi, if_pos ⟨hSi, h⟩]
    rw [RunItem.events, List.foldl_cons, List.foldl_append, hopen,
      foldl_pieces (s := { s with inT := true }) rfl, List.foldl_cons, List.foldl_nil,
      StringReader.step, if_pos h, RunItem.pieces, ← hT]
    rfl

lemma foldl_runs {s : StringReader} (hSi : s.inSi = true) (hT : s.inT = false)
    (items : List RunItem) : (items.flatMap RunItem.events).foldl StringReader.step s =
      s.hear ((items.flatMap RunItem.pieces).flatMap TextPiece.heard) := by
  induction items generalizing s with
  | nil => simp
  | cons item items ih =>
    rw [List.flatMap_cons, List.foldl_append, foldl_run hSi hT item,
      ih (s := s.hear _) hSi hT, StringReader.hear_hear, List.flatMap_cons, List.flatMap_append]

lemma foldl_item {s : StringReader} (hSi : s.inSi = true) (hT : s.inT = false) (item : EntryItem) :
    item.events.foldl StringReader.step s =
      s.hear (item.pieces.flatMap TextPiece.heard) := by
  cases item with
  | plain item => exact foldl_run hSi hT item
  | phonetic name h items =>
    have hsi : localName name ≠ "si".toList := h ▸ by decide
    have ht : localName name ≠ "t".toList := h ▸ by decide
    rw [EntryItem.events, List.foldl_cons, List.foldl_append, StringReader.step, if_neg hsi,
      if_neg fun h => ht h.2, foldl_runs hSi hT, List.foldl_cons, List.foldl_nil,
      StringReader.step, if_neg ht, if_neg hsi]
    rfl

lemma foldl_items {s : StringReader} (hSi : s.inSi = true) (hT : s.inT = false)
    (items : List EntryItem) : (items.flatMap EntryItem.events).foldl StringReader.step s =
      s.hear ((items.flatMap EntryItem.pieces).flatMap TextPiece.heard) := by
  induction items generalizing s with
  | nil => simp
  | cons item items ih =>
    rw [List.flatMap_cons, List.foldl_append, foldl_item hSi hT item,
      ih (s := s.hear _) hSi hT, StringReader.hear_hear, List.flatMap_cons, List.flatMap_append]

/-- The entries that are read: those with a tag at each end. -/
def Entry.read : Entry → List Text
  | .empty _ _ => []
  | .element name h items => [(Entry.element name h items).heard]

lemma foldl_entry {s : StringReader} (hSi : s.inSi = false) (hT : s.inT = false) (e : Entry) :
    ∃ current,
      e.events.foldl StringReader.step s = ⟨s.strings ++ e.read, current, false, false⟩ := by
  obtain ⟨strings, current, inSi, inT⟩ := s
  simp only at hSi hT
  subst hSi hT
  cases e with
  | empty name h => exact ⟨current, by rw [Entry.read, List.append_nil]; rfl⟩
  | element name h items =>
    have ht : localName name ≠ "t".toList := h ▸ by decide
    refine ⟨[], ?_⟩
    rw [Entry.events, List.foldl_cons, List.foldl_append, StringReader.step, if_pos h,
      foldl_items (s := ⟨strings, [], true, false⟩) rfl rfl, List.foldl_cons, List.foldl_nil,
      StringReader.step, if_neg ht, if_pos h]
    rfl

lemma foldl_between {s : StringReader} (hSi : s.inSi = false) (hT : s.inT = false)
    {event : XmlEvent} (h : event.Between) : s.step event = s := by
  obtain ⟨strings, current, inSi, inT⟩ := s
  simp only at hSi hT
  subst hSi hT
  cases event with
  | start name => rw [StringReader.step, if_neg h, if_neg fun h => Bool.false_ne_true h.1]
  | finish name =>
    rw [StringReader.step, if_neg (show localName name ≠ "si".toList from h)]
    split_ifs <;> rfl
  | _ => rfl

lemma foldl_parts {s : StringReader} (hSi : s.inSi = false) (hT : s.inT = false)
    (parts : List PartItem) : ((parts.flatMap PartItem.events).foldl StringReader.step s).strings =
      s.strings ++ (parts.flatMap PartItem.entries).flatMap Entry.read := by
  induction parts generalizing s with
  | nil => simp
  | cons part parts ih =>
    rw [List.flatMap_cons, List.foldl_append, List.flatMap_cons, List.flatMap_append]
    cases part with
    | between event h =>
      rw [PartItem.events, List.foldl_cons, List.foldl_nil, foldl_between hSi hT h, ih hSi hT]
      rfl
    | entry e =>
      obtain ⟨current, he⟩ := foldl_entry hSi hT e
      rw [PartItem.events, he, ih rfl rfl]
      simp [PartItem.entries]

/-! ### What is heard -/

lemma entityText_of_number (digits : Text) : entityText ('#' :: digits) = [] := by
  simp [entityText]

lemma referenceText_of_entity {name : Text} (h : entityText name ≠ []) :
    referenceText name = entityText name := by
  unfold referenceText
  split
  · exact absurd (entityText_of_number _) h
  · exact absurd (entityText_of_number _) h
  · rfl

/-- A piece is heard or lost. -/
lemma TextPiece.said_eq (piece : TextPiece) : piece.said = piece.heard ++ piece.lost := by
  cases piece with
  | chars raw plain => exact (List.append_nil raw).symm
  | cdata content | comment => rfl
  | reference name =>
    simp only [TextPiece.said, TextPiece.heard, TextPiece.lost]
    split_ifs with hnone
    · rw [hnone, List.nil_append]
    · rw [referenceText_of_entity hnone, List.append_nil]

lemma length_said (pieces : List TextPiece) : (pieces.flatMap TextPiece.said).length =
    (pieces.flatMap TextPiece.heard).length + (pieces.flatMap TextPiece.lost).length := by
  induction pieces with
  | nil => rfl
  | cons piece pieces ih =>
    simp only [List.flatMap_cons, List.length_append, ih, piece.said_eq]
    omega

lemma length_heard (items : List EntryItem) :
    ((items.flatMap EntryItem.pieces).flatMap TextPiece.heard).length =
      ((items.flatMap EntryItem.spoken).flatMap TextPiece.heard).length +
        ((items.flatMap EntryItem.unspoken).flatMap TextPiece.heard).length := by
  induction items with
  | nil => rfl
  | cons item items ih =>
    have hitem : (item.pieces.flatMap TextPiece.heard).length =
        (item.spoken.flatMap TextPiece.heard).length +
          (item.unspoken.flatMap TextPiece.heard).length := by
      cases item with
      | plain item => rfl
      | phonetic name h items => exact (Nat.zero_add _).symm
    simp only [List.flatMap_cons, List.flatMap_append, List.length_append, ih, hitem]
    omega

lemma said_of_lost_eq_nil {pieces : List TextPiece} (h : pieces.flatMap TextPiece.lost = []) :
    pieces.flatMap TextPiece.said = pieces.flatMap TextPiece.heard := by
  induction pieces with
  | nil => rfl
  | cons piece pieces ih =>
    rw [List.flatMap_cons, List.append_eq_nil_iff] at h
    rw [List.flatMap_cons, List.flatMap_cons, ih h.2, piece.said_eq, h.1, List.append_nil]

lemma heard_of_added_eq_nil {items : List EntryItem}
    (h : (items.flatMap EntryItem.unspoken).flatMap TextPiece.heard = []) :
    (items.flatMap EntryItem.pieces).flatMap TextPiece.heard =
      (items.flatMap EntryItem.spoken).flatMap TextPiece.heard := by
  induction items with
  | nil => rfl
  | cons item items ih =>
    rw [List.flatMap_cons, List.flatMap_append, List.append_eq_nil_iff] at h
    have hitem : item.pieces.flatMap TextPiece.heard = item.spoken.flatMap TextPiece.heard := by
      cases item with
      | plain item => rfl
      | phonetic name hname items => exact h.1
    rw [List.flatMap_cons, List.flatMap_append, List.flatMap_cons, List.flatMap_append, ih h.2,
      hitem]

namespace Entry

/-- Nothing is left out of the text of an entry and nothing is added, or both, and what is added is
what is left out. -/
def Kept (e : Entry) : Prop :=
  (e.lost = [] ∧ e.added = []) ∨ (e.lost ≠ [] ∧ e.added ≠ [] ∧ e.heard = e.said)

lemma heard_eq_said_iff (e : Entry) : e.heard = e.said ↔ e.Kept := by
  constructor
  · intro heq
    have hlength : e.lost.length = e.added.length := by
      have hsaid := length_said (e.items.flatMap EntryItem.spoken)
      have hheard := length_heard e.items
      have := congrArg List.length heq
      simp only [heard, said, lost, added] at *
      omega
    by_cases hlost : e.lost = []
    · rw [hlost, List.length_nil, eq_comm, List.length_eq_zero_iff] at hlength
      exact .inl ⟨hlost, hlength⟩
    · refine .inr ⟨hlost, fun hadded => hlost ?_, heq⟩
      rw [hadded, List.length_nil, List.length_eq_zero_iff] at hlength
      exact hlength
  · rintro (⟨hlost, hadded⟩ | ⟨-, -, heq⟩)
    · rw [heard, said, heard_of_added_eq_nil hadded, said_of_lost_eq_nil hlost]
    · exact heq

/-- An entry that is written as one empty tag. -/
def IsEmptyTag : Entry → Prop
  | empty _ _ => True
  | element _ _ _ => False

lemma length_read_le (entries : List Entry) :
    (entries.flatMap read).length ≤ entries.length ∧
      ((entries.flatMap read).length = entries.length → ∀ e ∈ entries, ¬ e.IsEmptyTag) := by
  induction entries with
  | nil => exact ⟨le_rfl, fun _ => nofun⟩
  | cons e entries ih =>
    obtain ⟨hle, hall⟩ := ih
    rw [List.flatMap_cons, List.length_append, List.length_cons]
    cases e with
    | empty name h => exact ⟨by simp only [read, List.length_nil]; omega, fun heq => by
        simp only [read, List.length_nil] at heq
        omega⟩
    | element name h items =>
      simp only [read, List.length_singleton]
      refine ⟨by omega, fun heq e he => ?_⟩
      rcases List.mem_cons.mp he with rfl | he
      · exact not_false
      · exact hall (by omega) e he

lemma read_eq_map {entries : List Entry} (h : ∀ e ∈ entries, ¬ e.IsEmptyTag) :
    entries.flatMap read = entries.map heard := by
  induction entries with
  | nil => rfl
  | cons e entries ih =>
    rw [List.flatMap_cons, List.map_cons, ih fun e he => h e (List.mem_cons_of_mem _ he)]
    cases e with
    | empty name hname => exact absurd trivial (h _ List.mem_cons_self)
    | element name hname items => rfl

end Entry

/-- The strings are the texts of the entries exactly if no entry is an empty tag and none loses a
character reference or a CDATA section or gains the text of a phonetic run. -/
theorem sharedStrings_iff (parts : List PartItem) :
    sharedStrings (parts.flatMap PartItem.events) =
        (parts.flatMap PartItem.entries).map Entry.said ↔
      ∀ e ∈ parts.flatMap PartItem.entries, ¬ e.IsEmptyTag ∧ e.Kept := by
  have hread : sharedStrings (parts.flatMap PartItem.events) =
      (parts.flatMap PartItem.entries).flatMap Entry.read := by
    rw [sharedStrings, foldl_parts rfl rfl, List.nil_append]
  rw [hread]
  constructor
  · intro heq e he
    have hlength := congrArg List.length heq
    rw [List.length_map] at hlength
    have hall := (Entry.length_read_le _).2 hlength
    rw [Entry.read_eq_map hall, List.map_inj_left] at heq
    exact ⟨hall e he, e.heard_eq_said_iff.mp (heq e he)⟩
  · intro h
    rw [Entry.read_eq_map fun e he => (h e he).1, List.map_inj_left]
    exact fun e he => e.heard_eq_said_iff.mpr (h e he).2

/-- `<si/><si><t>a</t></si>` -/
theorem not_sharedStrings : ¬ ∀ parts : List PartItem,
    sharedStrings (parts.flatMap PartItem.events) =
      (parts.flatMap PartItem.entries).map Entry.said := by
  intro h
  have hshort := congrArg List.length (h [.entry (.empty "si".toList (by decide)),
    .entry (.element "si".toList (by decide)
      [.plain (.t "t".toList (by decide) [.chars "a".toList (by decide)])])])
  rw [List.length_map] at hshort
  revert hshort
  decide

end Orchid.Sheet
