import Mathlib.Logic.Function.Basic
import Orchid.Base.Machine

/-!
# The event bus

The subscriptions of `EventBus` and the calls on it: one step for every access to the shutdown flag,
to a counter or to one of the three maps, in any order of the calls under way. A map is sharded; an
iteration over it goes through the shards one after the other.
-/

namespace Orchid.Event

/-! ### Events and filters -/

/-- `EventSource` -/
inductive EventSource
  | user
  | system
  | subsystem (name : Text)
  | widget (id : Uuid)
  | command
deriving DecidableEq

/-- `EventEnvelope`; the id, the timestamp and the carried event are the payload here. -/
structure EventEnvelope (P : Type) where
  source : EventSource
  eventType : Text
  payload : P

variable {P : Type}

/-- `EventFilter` -/
structure EventFilter (P : Type) where
  types : List Text := []
  sources : List EventSource := []
  predicate : Option (EventEnvelope P → Bool) := none

/-- `EventFilter::matches` -/
def EventFilter.matches (f : EventFilter P) (envelope : EventEnvelope P) : Bool :=
  if !f.types.isEmpty && !f.types.any fun ty => decide (ty = envelope.eventType) then false
  else if !f.sources.isEmpty && !f.sources.any fun s => decide (s = envelope.source) then false
  else
    match f.predicate with
    | some p => p envelope
    | none => true

/-- `HandlerPriority` -/
inductive HandlerPriority
  | critical
  | high
  | normal
  | low
  | audit
deriving DecidableEq

/-- `HandlerPriority::rank` -/
def HandlerPriority.rank : HandlerPriority → ℤ
  | .critical => -100
  | .high => -50
  | .normal => 0
  | .low => 50
  | .audit => 100

/-- `HandlerKind` -/
inductive HandlerKind
  | channel
  | async
  | sync
deriving DecidableEq

/-- What is subscribed. -/
structure Request (P : Type) where
  priority : HandlerPriority
  filter : EventFilter P
  handler : HandlerKind

/-- `SubscriptionEntry` -/
structure SubscriptionEntry (P : Type) extends Request P where
  seq : ℕ

/-! ### The bus and its calls -/

/-- What a dispatch remembers of a matching entry. -/
structure Target where
  priority : HandlerPriority
  seq : ℕ
  id : ℕ
deriving DecidableEq

/-- The order in which targets are sorted. -/
def Target.le (a b : Target) : Bool :=
  decide (a.priority.rank < b.priority.rank) ||
    (decide (a.priority.rank = b.priority.rank) && decide (a.seq ≤ b.seq))

def SubscriptionEntry.target (e : SubscriptionEntry P) (id : ℕ) : Target := ⟨e.priority, e.seq, id⟩

/-- Where a call on the bus stands. `SubscriptionId::new` makes a new id for every call; the id here
is the number of the call. -/
inductive Call (P : Type)
  /-- Not called yet. -/
  | idle
  /-- The flag was set when the call looked at it. -/
  | rejected
  /-- A subscribe that has read the flag. -/
  | checked (r : Request P)
  | numbered (r : Request P) (seq : ℕ)
  /-- The entry is in `subs`, and `index` has these types left. -/
  | indexing (seq : ℕ) (filter : EventFilter P) (types : List Text)
  | subscribed (seq : ℕ)
  | removing (id : ℕ)
  /-- The entry is out of `subs`, and `unindex` has these types left. -/
  | unindexing (id : ℕ) (filter : EventFilter P) (types : List Text)
  | unsubscribed
  /-- A dispatch looks into the `k`-th shard of the wildcards, or behind the last one into the ids
  of the event's type; it has seen some ids. -/
  | collecting (envelope : EventEnvelope P) (k : ℕ) (seen : List ℕ) (found : List Target)
  /-- The targets left, and those whose handlers were invoked. -/
  | dispatching (envelope : EventEnvelope P) (left invoked : List Target)
  /-- The dispatch has come to its end, or a panic has unwound it. -/
  | published (envelope : EventEnvelope P) (invoked : List Target)
  /-- A shutdown that has set the flag. -/
  | waiting
  | clearSubs
  | clearWildcard
  | clearByType
  | shutDown

/-- A spawned task. -/
inductive Task
  | running
  /-- At its end, or unwound by a panic of its handler. -/
  | ended
deriving DecidableEq

/-- `EventBusInner` with the calls on it and the tasks it has spawned. -/
structure EventBus (P : Type) where
  subs : ℕ → Option (SubscriptionEntry P) := fun _ => none
  wildcard : List ℕ := []
  byType : Text → List ℕ := fun _ => []
  nextSeq : ℕ := 0
  shutdown : Bool := false
  inFlight : ℕ := 0
  tasks : List Task := []
  calls : ℕ → Call P := fun _ => .idle

/-- The shards of a map: how many there are, and where an id is kept. -/
structure Shards where
  count : ℕ
  shard : ℕ → ℕ
  shard_lt : ∀ id, shard id < count

/-- How the invocation of a handler ends in the dispatcher. -/
inductive Outcome
  | returned
  /-- The closure panics. -/
  | panicked
  /-- `tokio::spawn` panics, since the caller is outside every runtime. -/
  | noRuntime
deriving DecidableEq

/-- What happens next. -/
inductive Move (P : Type)
  | subscribe (c : ℕ) (r : Request P)
  | unsubscribe (c id : ℕ)
  | publish (c : ℕ) (envelope : EventEnvelope P)
  | shutdown (c : ℕ)
  /-- The call goes on. -/
  | step (c : ℕ)
  /-- A dispatch comes to an id in the shard. -/
  | visit (c id : ℕ)
  /-- A dispatch comes to its next target. -/
  | deliver (c : ℕ) (outcome : Outcome)
  /-- The handler in a task has completed, and the task lowers the counter. -/
  | finish (t : ℕ)
  /-- The handler in a task panics. -/
  | die (t : ℕ)

namespace EventBus

/-- A call comes to a point. -/
def reach (b : EventBus P) (c : ℕ) (call : Call P) : EventBus P :=
  { b with calls := Function.update b.calls c call }

/-- The ids in the part of the maps that a dispatch looks into. -/
def keys (sh : Shards) (b : EventBus P) (envelope : EventEnvelope P) (k : ℕ) : List ℕ :=
  if k < sh.count then b.wildcard.filter fun id => decide (sh.shard id = k)
  else b.byType envelope.eventType

/-- `collect_if_match` -/
def collectIfMatch (b : EventBus P) (id : ℕ) (envelope : EventEnvelope P) (found : List Target) :
    List Target :=
  match b.subs id with
  | none => found
  | some e => if e.filter.matches envelope then found ++ [e.target id] else found

/-- One entry more in `subs`. -/
def insert (b : EventBus P) (id : ℕ) (e : SubscriptionEntry P) : EventBus P :=
  { b with subs := Function.update b.subs id (some e) }

/-- An id more under an event type. -/
def addType (b : EventBus P) (ty : Text) (id : ℕ) : EventBus P :=
  { b with byType := Function.update b.byType ty (id :: b.byType ty) }

/-- An id less under an event type. -/
def dropType (b : EventBus P) (ty : Text) (id : ℕ) : EventBus P :=
  let ids := (b.byType ty).filter fun x => decide (x ≠ id)
  { b with byType := Function.update b.byType ty ids }

/-- The next step of a call, but for the steps of a dispatch at an id or a target. -/
def advance (sh : Shards) (b : EventBus P) (c : ℕ) : Call P → Option (EventBus P)
  | .checked r => some ({ b with nextSeq := b.nextSeq + 1 }.reach c (.numbered r b.nextSeq))
  | .numbered r seq => some ((b.insert c ⟨r, seq⟩).reach c (.indexing seq r.filter r.filter.types))
  | .indexing seq f types =>
    if f.types = [] then some ({ b with wildcard := c :: b.wildcard }.reach c (.subscribed seq))
    else
      match types with
      | [] => some (b.reach c (.subscribed seq))
      | ty :: types => some ((b.addType ty c).reach c (.indexing seq f types))
  | .removing id =>
    match b.subs id with
    | none => some (b.reach c .unsubscribed)
    | some e =>
      some ({ b with subs := Function.update b.subs id none }.reach c
        (.unindexing id e.filter e.filter.types))
  | .unindexing id f types =>
    if f.types = [] then
      some ({ b with wildcard := b.wildcard.filter fun x => decide (x ≠ id) }.reach c .unsubscribed)
    else
      match types with
      | [] => some (b.reach c .unsubscribed)
      | ty :: types => some ((b.dropType ty id).reach c (.unindexing id f types))
  | .collecting envelope k seen found =>
    if (b.keys sh envelope k).all fun id => decide (id ∈ seen) then
      if k < sh.count then some (b.reach c (.collecting envelope (k + 1) seen found))
      else some (b.reach c (.dispatching envelope (found.mergeSort Target.le) []))
    else none
  | .dispatching envelope [] invoked => some (b.reach c (.published envelope invoked))
  | .waiting => some (if b.inFlight = 0 then b.reach c .clearSubs else b)
  | .clearSubs => some ({ b with subs := fun _ => none }.reach c .clearWildcard)
  | .clearWildcard => some ({ b with wildcard := [] }.reach c .clearByType)
  | .clearByType => some ({ b with byType := fun _ => [] }.reach c .shutDown)
  | _ => none

/-- A dispatch looks up its next target and invokes the handler. -/
def deliver (b : EventBus P) (c : ℕ) (envelope : EventEnvelope P) (t : Target)
    (left invoked : List Target) (outcome : Outcome) : Option (EventBus P) :=
  let next := b.reach c (.dispatching envelope left (invoked ++ [t]))
  let unwound := b.reach c (.published envelope (invoked ++ [t]))
  match b.subs t.id with
  | none =>
    match outcome with
    | .returned => some (b.reach c (.dispatching envelope left invoked))
    | _ => none
  | some e =>
    match e.handler, outcome with
    | .channel, .returned => some next
    | .sync, .returned => some next
    | .sync, .panicked => some unwound
    | .async, .returned =>
      some { next with inFlight := b.inFlight + 1, tasks := b.tasks ++ [.running] }
    | .async, .panicked => some unwound
    | .async, .noRuntime => some { unwound with inFlight := b.inFlight + 1 }
    | _, _ => none

/-- The bus after a move; no result if the move is not possible. -/
def next (sh : Shards) (b : EventBus P) : Move P → Option (EventBus P)
  | .subscribe c r =>
    match b.calls c with
    | .idle => some (b.reach c (if b.shutdown then .rejected else .checked r))
    | _ => none
  | .unsubscribe c id =>
    match b.calls c with
    | .idle => some (b.reach c (.removing id))
    | _ => none
  | .publish c envelope =>
    match b.calls c with
    | .idle => some (b.reach c (if b.shutdown then .rejected else .collecting envelope 0 [] []))
    | _ => none
  | .shutdown c =>
    match b.calls c with
    | .idle => some ({ b with shutdown := true }.reach c .waiting)
    | _ => none
  | .step c => b.advance sh c (b.calls c)
  | .visit c id =>
    match b.calls c with
    | .collecting envelope k seen found =>
      if id ∈ b.keys sh envelope k ∧ id ∉ seen then
        some (b.reach c (.collecting envelope k (id :: seen) (b.collectIfMatch id envelope found)))
      else none
    | _ => none
  | .deliver c outcome =>
    match b.calls c with
    | .dispatching envelope (t :: left) invoked => b.deliver c envelope t left invoked outcome
    | _ => none
  | .finish t =>
    if b.tasks[t]? = some .running then
      some { b with tasks := b.tasks.set t .ended, inFlight := b.inFlight - 1 }
    else none
  | .die t =>
    if b.tasks[t]? = some .running then some { b with tasks := b.tasks.set t .ended } else none

/-- The bus after a run from `EventBus::new`. -/
def run (sh : Shards) (moves : List (Move P)) : Option (EventBus P) := moves.foldlM (next sh) {}

end EventBus

end Orchid.Event
