import Mathlib.Data.List.Range

/-!
# The event channel

`ChannelInner` with its sender and receiver, one step for every section under the queue's lock,
every access to the closed flag and every call of `Notify`. Any number of publishers push at the
same time; the sender is dropped when none of them borrows it.
-/

namespace Orchid.Event

/-- `SlowConsumerPolicy` -/
inductive SlowConsumerPolicy
  | dropOldest
  | dropNewest
  | block
  deriving DecidableEq

/-- An event with its number among all events that were pushed, evicted later or refused. -/
abbrev Numbered (E : Type) := ℕ × E

/-- Where a push stands. -/
inductive Push (E : Type)
  /-- Before the closed flag is read. -/
  | load (envelope : E)
  /-- Before the queue is locked. -/
  | lock (envelope : E)
  /-- The event is queued and the lock released. -/
  | notify
  deriving DecidableEq

/-- The producer half. -/
inductive Sender
  | alive
  /-- Its drop has set the closed flag. -/
  | closing
  | gone
  deriving DecidableEq

/-- Where the receiver stands; `woken` says that the wait it has begun is over. -/
inductive Receiver
  | idle
  /-- At the head of the loop of `recv`. -/
  | check
  /-- The queue was empty and open, and the lock is released. -/
  | gap
  /-- `notified()` was called. -/
  | created (woken : Bool)
  /-- The future was polled and waits in the list of `Notify`. -/
  | registered (woken : Bool)
  deriving DecidableEq

/-- `ChannelInner` with the pushes under way and both ends. -/
structure Channel (E : Type) where
  queue : List (Numbered E)
  capacity : ℕ
  closed : Bool
  /-- The permit that `notify_one` stores. -/
  permit : Bool
  pushes : List (Push E)
  sender : Sender
  receiver : Receiver
  /-- The events pushed so far, in the order in which the queue was locked. -/
  log : List (Numbered E)
  evicted : List (Numbered E)
  refused : List (Numbered E)
  received : List (Numbered E)

/-- What the next step is. -/
inductive Step (E : Type)
  /-- A publisher begins to push. -/
  | publish (envelope : E)
  /-- The `i`-th push under way goes on; `timeout` says that the deadline of a blocking push that
  finds the queue full has passed. -/
  | push (i : ℕ) (timeout : Bool)
  /-- The drop of the sender sets the closed flag. -/
  | close
  /-- The drop of the sender calls `notify_waiters`. -/
  | notifyWaiters
  /-- The receiver calls `recv`. -/
  | recv
  /-- The receiver goes on. -/
  | receive

namespace Channel

variable {E : Type}

/-- `ChannelInner::new` -/
def new (capacity : ℕ) : Channel E where
  queue := []
  capacity := max capacity 1
  closed := false
  permit := false
  pushes := []
  sender := .alive
  receiver := .idle
  log := []
  evicted := []
  refused := []
  received := []

/-- `Notify::notify_one` -/
def notifyOne (c : Channel E) : Channel E :=
  match c.receiver with
  | .registered false => { c with receiver := .registered true }
  | _ => { c with permit := true }

/-- `Notify::notify_waiters` -/
def notifyWaiters (c : Channel E) : Channel E :=
  match c.receiver with
  | .created _ => { c with receiver := .created true }
  | .registered _ => { c with receiver := .registered true }
  | _ => c

/-- The section of a push under the queue's lock: what is left, and the push that goes on. -/
def enqueue (policy : SlowConsumerPolicy) (timeout : Bool) (c : Channel E) (envelope : E) :
    Channel E × Option (Push E) :=
  let event := (c.log.length, envelope)
  if c.queue.length ≥ c.capacity then
    match policy with
    | .dropOldest =>
      ({ c with
          queue := c.queue.tail ++ [event]
          log := c.log ++ [event]
          evicted := c.evicted ++ c.queue.head?.toList }, some .notify)
    | .dropNewest => ({ c with log := c.log ++ [event], refused := c.refused ++ [event] }, none)
    | .block =>
      if timeout then
        ({ c with log := c.log ++ [event], refused := c.refused ++ [event] }, none)
      else (c, some (.load envelope))
  else ({ c with queue := c.queue ++ [event], log := c.log ++ [event] }, some .notify)

/-- A step of a push: what is left, and the push that goes on. -/
def pushStep (policy : SlowConsumerPolicy) (timeout : Bool) (c : Channel E) :
    Push E → Channel E × Option (Push E)
  | .load envelope => (c, if c.closed then none else some (.lock envelope))
  | .lock envelope => c.enqueue policy timeout envelope
  | .notify => (c.notifyOne, none)

/-- A step of `recv`; there is none while the receiver waits or is not in `recv`. -/
def receiveStep (c : Channel E) : Option (Channel E) :=
  match c.receiver with
  | .idle => none
  | .check =>
    match c.queue with
    | event :: queue =>
      some { c with queue := queue, received := c.received ++ [event], receiver := .idle }
    | [] => some { c with receiver := if c.closed then .idle else .gap }
  | .gap => some { c with receiver := .created false }
  | .created woken =>
    if c.permit then some { c with permit := false, receiver := .check }
    else some { c with receiver := if woken then .check else .registered false }
  | .registered woken => if woken then some { c with receiver := .check } else none

def step (policy : SlowConsumerPolicy) (c : Channel E) : Step E → Option (Channel E)
  | .publish envelope =>
    if c.sender = .alive then some { c with pushes := c.pushes ++ [.load envelope] } else none
  | .push i timeout =>
    match c.pushes[i]? with
    | none => none
    | some push =>
      match c.pushStep policy timeout push with
      | (c', some next) => some { c' with pushes := c.pushes.set i next }
      | (c', none) => some { c' with pushes := c.pushes.eraseIdx i }
  | .close =>
    if c.sender = .alive ∧ c.pushes = [] then some { c with closed := true, sender := .closing }
    else none
  | .notifyWaiters =>
    if c.sender = .closing then some { c.notifyWaiters with sender := .gone } else none
  | .recv => if c.receiver = .idle then some { c with receiver := .check } else none
  | .receive => c.receiveStep

/-! ### What a channel should do -/

/-- The receiver waits and nobody is about to wake it. -/
def Asleep (c : Channel E) : Prop :=
  (c.receiver = .created false ∧ c.permit = false ∨ c.receiver = .registered false) ∧
    .notify ∉ c.pushes ∧ c.sender ≠ .closing

/-- The receiver waits for ever although there is something for it. -/
def Stuck (c : Channel E) : Prop := c.Asleep ∧ (c.queue ≠ [] ∨ c.closed = true)

/-- The receiver got and will get the events in the order of the pushes, without those evicted and
those refused. -/
def Delivers [DecidableEq E] (c : Channel E) : Prop :=
  c.log.filter (fun x => x ∉ c.evicted ∧ x ∉ c.refused) = c.received ++ c.queue

/-- The waiters are not woken while the receiver is about to wait without a permit. -/
def Clean (c : Channel E) : Step E → Prop
  | .notifyWaiters => ¬ (c.receiver = .gap ∧ c.permit = false)
  | _ => True

/-- The channels reached from a new one by steps that satisfy a condition. -/
inductive Reached (policy : SlowConsumerPolicy) (safe : Channel E → Step E → Prop) :
    Channel E → Prop
  | new (capacity : ℕ) : Reached policy safe (new capacity)
  | step {c c' : Channel E} {e : Step E} (h : Reached policy safe c) (he : safe c e)
      (hstep : c.step policy e = some c') : Reached policy safe c'

end Channel

end Orchid.Event
