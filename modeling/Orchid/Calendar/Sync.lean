import Orchid.Calendar.Ics

/-!
# Calendar sync

The calendar of one account: its events and links, the resources on the server, and the tasks that
save, delete and pull events. A step is what a task does between two awaits; between two steps of a
task any others may come.
-/

namespace Orchid.Calendar

/-! ### Events, links and pulls -/

/-- `CalendarEvent` of a calendar, with its id and color. -/
structure LocalEvent where
  id : Text
  color : U8
  details : CalendarEvent

/-- `CalDavLink` -/
structure CalDavLink where
  eventId : Text
  href : Text
  etag : Text
  uid : Text

/-- `RemoteEvent`, with its href and etag. -/
structure PulledEvent where
  uid : Text
  href : Text
  etag : Text
  details : CalendarEvent

/-- `Pull` -/
structure Pull where
  events : List PulledEvent
  keepUids : List Text

/-- The events and links of a `CalendarConfig`. -/
structure LocalCalendar where
  events : List LocalEvent
  links : List CalDavLink

/-- The days from one to before another. -/
structure Window where
  start : NaiveDate
  stop : NaiveDate

/-- The order of dates. -/
def NaiveDate.le (d e : NaiveDate) : Bool :=
  d.year < e.year ||
    (d.year = e.year && (d.month < e.month || (d.month = e.month && d.day ≤ e.day)))

/-- `date >= window_start && date < window_end` of the date of an event, if it is one. -/
def Window.contains (w : Window) (date : Text) : Bool :=
  (parseDate date).any fun d => w.start.le d && !w.stop.le d

/-- Change the first element with a property. -/
def updateFirst {α : Type} (p : α → Bool) (f : α → α) : List α → List α
  | [] => []
  | x :: xs => if p x then f x :: xs else x :: updateFirst p f xs

/-! ### Merging -/

/-- Whether a link is found for an event of the server. -/
def CalDavLink.isFor (r : PulledEvent) (link : CalDavLink) : Bool :=
  if '#' ∈ r.uid then r.uid ≠ [] && link.uid = r.uid
  else (r.uid ≠ [] && link.uid = r.uid) || (r.href ≠ [] && link.href = r.href)

/-- One round of the loop of `merge`; `id` is the new id, if one is needed. -/
def LocalCalendar.mergeOne (c : LocalCalendar) (r : PulledEvent) (id : Text) : LocalCalendar :=
  match c.links.find? (·.isFor r) with
  | some link =>
    { events := updateFirst (·.id = link.eventId) (fun e => { e with details := r.details })
        c.events
      links := updateFirst (·.isFor r)
        (fun l => { l with href := r.href, etag := r.etag, uid := r.uid }) c.links }
  | none =>
    { events := c.events ++ [⟨id, 0, r.details⟩]
      links := c.links ++ [⟨id, r.href, r.etag, r.uid⟩] }

/-- The loop of `merge` -/
def LocalCalendar.mergeAll (c : LocalCalendar) : List (PulledEvent × Text) → LocalCalendar
  | [] => c
  | (r, id) :: rest => (c.mergeOne r id).mergeAll rest

/-- `remote_uids` -/
def Pull.uids (p : Pull) : List Text := p.events.map PulledEvent.uid ++ p.keepUids

/-- The linked event lies in the window, and the pull does not know its uid. -/
def LocalCalendar.drops (c : LocalCalendar) (w : Window) (p : Pull) (link : CalDavLink) : Bool :=
  match c.events.find? (·.id = link.eventId) with
  | none => false
  | some event =>
    w.contains event.details.date && !(p.uids.any fun uid => uid = link.uid) && link.uid ≠ []

/-- The end of `merge`: dropped events go with their links, and links without an event go. -/
def LocalCalendar.retain (c : LocalCalendar) (w : Window) (p : Pull) : LocalCalendar :=
  let dropIds := (c.links.filter fun l => c.drops w p l).map CalDavLink.eventId
  { events := c.events.filter fun e => !(dropIds.any fun id => id = e.id)
    links := c.links.filter fun l =>
      (c.events.find? (·.id = l.eventId)).isSome && !c.drops w p l }

/-- `normalize` of an event; `date` is the selected one. -/
def LocalEvent.normalize (date : Text) (e : LocalEvent) : LocalEvent :=
  let start : U16 := ⟨min e.details.startMinutes.val (23 * 60 + 59), by omega⟩
  let stop : U16 := ⟨min e.details.endMinutes.val (23 * 60 + 59), by omega⟩
  { e with
    color := ⟨min e.color.val 5, by omega⟩
    details := { e.details with
      startMinutes := start
      endMinutes := if stop < start then start else stop
      date := if (parseDate e.details.date).isNone then date else e.details.date } }

/-- `normalize` -/
def LocalCalendar.normalize (c : LocalCalendar) (date : Text) : LocalCalendar :=
  let events := c.events.map (·.normalize date)
  { events, links := c.links.filter fun l => events.any fun e => e.id = l.eventId }

/-! ### Tasks -/

/-- A save that has read its event and is about to send it. -/
structure Sending where
  eventId : Text
  uid : Text
  details : CalendarEvent

/-- The resources of the collection by their uids. -/
abbrev Server := Text → Option CalendarEvent

/-- A pull that was answered, with the server and the window as they were then. -/
structure Answer where
  pull : Pull
  server : Server
  window : Window

/-- A calendar with its server and tasks. The last two fields are for the statements only: the
events, with their uids, that a save has read, and those whose PUT succeeded, as far as nobody has
deleted them since, here or there. -/
structure SyncState where
  here : LocalCalendar
  server : Server
  sending : List Sending
  /-- Saves whose PUT was answered and whose link is not yet recorded, as that link. -/
  answered : List CalDavLink
  pulls : List Answer
  /-- Deletions that have read their link. -/
  deleting : List CalDavLink
  /-- Deletions whose DELETE was answered, by their events. -/
  deleted : List Text
  kept : List (Text × Text)
  saved : List (Text × Text)

/-- An empty calendar, with whatever is on the server. -/
def SyncState.new (server : Server) : SyncState where
  here := ⟨[], []⟩
  server := server
  sending := []
  answered := []
  pulls := []
  deleting := []
  deleted := []
  kept := []
  saved := []

inductive SyncStep
  /-- `save_editor` -/
  | save (id : Text) (color : U8) (details : CalendarEvent) (date : Text)
  /-- `push_saved` up to the PUT. -/
  | pushRead (id : Text)
  /-- The PUT of the save at a place of the list, and its answer. -/
  | put (i : ℕ) (accepted : Bool) (href etag : Text)
  /-- The rest of `push_saved`. -/
  | link (i : ℕ)
  /-- A pull is answered. -/
  | pull (p : Pull) (window : Window)
  /-- `merge` of the pull at a place of the list, and `normalize`. -/
  | merge (i : ℕ) (ids : List Text) (window : Window) (date : Text)
  /-- `delete_event`, and `delete_saved` up to the DELETE. -/
  | deleteRead (id : Text)
  /-- The DELETE of the deletion at a place of the list, and its answer. -/
  | deleteRemote (i : ℕ) (accepted : Bool)
  /-- The rest of `delete_saved`. -/
  | deleteLocal (i : ℕ)
  /-- Somebody else changes the collection. -/
  | others (server : Server)

/-- The events that were not deleted on the server by a change of it. -/
def notDeleted (before after : Server) (events : List (Text × Text)) : List (Text × Text) :=
  events.filter fun p => (before p.2).isNone || (after p.2).isSome

/-- The server changes. -/
def SyncState.setServer (s : SyncState) (server : Server) : SyncState :=
  { s with
    server
    kept := notDeleted s.server server s.kept
    saved := notDeleted s.server server s.saved }

/-- Remove an event and its links. -/
def SyncState.removeLocal (s : SyncState) (id : Text) : SyncState :=
  { s with
    here := ⟨s.here.events.filter (·.id ≠ id), s.here.links.filter (·.eventId ≠ id)⟩
    kept := s.kept.filter (·.1 ≠ id)
    saved := s.saved.filter (·.1 ≠ id) }

/-- One step, if there is a task to make it. -/
def syncStep (s : SyncState) : SyncStep → Option SyncState
  | .save id color details date =>
    let events :=
      if s.here.events.any (·.id = id) then
        updateFirst (·.id = id) (fun e => { e with color, details }) s.here.events
      else s.here.events ++ [⟨id, color, details⟩]
    some { s with here := LocalCalendar.normalize { s.here with events } date }
  | .pushRead id =>
    (s.here.events.find? (·.id = id)).map fun event =>
      let uid := (((s.here.links.find? (·.eventId = id)).map CalDavLink.uid).filter
        (· ≠ [])).getD event.id
      if '#' ∈ uid then s
      else { s with
        sending := s.sending ++ [⟨id, uid, event.details⟩]
        kept := s.kept ++ [(id, uid)] }
  | .put i accepted href etag =>
    s.sending[i]?.map fun task =>
      let s := { s with sending := s.sending.eraseIdx i }
      if accepted then
        { s with
          server := Function.update s.server task.uid (some task.details)
          answered := s.answered ++ [⟨task.eventId, href, etag, task.uid⟩]
          saved := s.saved ++ s.kept.filter (· = (task.eventId, task.uid)) }
      else s
  | .link i =>
    s.answered[i]?.map fun link =>
      { s with
        answered := s.answered.eraseIdx i
        here := { s.here with
          links :=
            if s.here.links.any (·.eventId = link.eventId) then
              updateFirst (·.eventId = link.eventId)
                (fun l => { l with href := link.href, etag := link.etag, uid := link.uid })
                s.here.links
            else s.here.links ++ [link] } }
  | .pull p window => some { s with pulls := s.pulls ++ [⟨p, s.server, window⟩] }
  | .merge i ids window date =>
    s.pulls[i]?.map fun answer =>
      { s with
        pulls := s.pulls.eraseIdx i
        here := ((s.here.mergeAll (answer.pull.events.zip ids)).retain window answer.pull).normalize
          date }
  | .deleteRead id =>
    match s.here.links.find? (·.eventId = id) with
    | none => some (s.removeLocal id)
    | some link =>
      if '#' ∈ link.uid then some { s with deleted := s.deleted ++ [id] }
      else some { s with deleting := s.deleting ++ [link] }
  | .deleteRemote i accepted =>
    s.deleting[i]?.map fun link =>
      let s := { s with deleting := s.deleting.eraseIdx i }
      if accepted then
        { s with deleted := s.deleted ++ [link.eventId] }.setServer
          (Function.update s.server link.uid none)
      else s
  | .deleteLocal i =>
    s.deleted[i]?.map fun id => { s with deleted := s.deleted.eraseIdx i }.removeLocal id
  | .others server => some (s.setServer server)

/-- What the server and the generator of ids promise: a pull knows every resource of its window,
and there is an id for each of its events. -/
def SyncStep.Possible (s : SyncState) : SyncStep → Prop
  | .pull p window =>
    ∀ uid details, s.server uid = some details → window.contains details.date = true →
      uid ∈ p.uids
  | .merge i ids _ _ => ∀ answer ∈ s.pulls[i]?, answer.pull.events.length ≤ ids.length
  | _ => True

/-- The states that are reached by steps of which each is allowed where it is made. -/
inductive SyncReached (allowed : SyncState → SyncStep → Prop) : SyncState → Prop
  | new (server : Server) : SyncReached allowed (.new server)
  | step {s s' : SyncState} {a : SyncStep} : SyncReached allowed s → a.Possible s → allowed s a →
      syncStep s a = some s' → SyncReached allowed s'

end Orchid.Calendar
