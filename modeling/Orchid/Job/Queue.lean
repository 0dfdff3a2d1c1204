import Mathlib.Data.Nat.Notation
import Mathlib.Logic.Function.Basic

/-!
# Coalesced runs of the job queue

Calls of `run_coalesced`, with `cancel` and `shutdown` between them. The state of a key is shared by
pointer, so a call may still hold the state of a key after the queue has dropped it: states have
addresses and are never freed. Each section under a lock is one step; a call waits only for its
factory, and only there a task can be aborted.
-/

namespace Orchid.Job

/-- Whether the work of a key runs, and whether it was asked for again in the meantime. -/
structure FlightState where
  running : Bool := false
  pending : Bool := false

/-- How far a call of `run_coalesced` has come. -/
inductive Stage where
  /-- before the check of the shutdown flag -/
  | called
  /-- before the lookup of the key's state -/
  | checked
  /-- before the first lock of the state at an address -/
  | holding (slot : ℕ)
  /-- about to call the factory -/
  | starting (slot : ℕ)
  /-- waiting for the factory -/
  | flying (slot : ℕ)
  /-- before the lock of the state behind the factory -/
  | landed (slot : ℕ)
  | done

/-- A call for a key. -/
structure Call (K : Type) where
  key : K
  stage : Stage

variable {K : Type}

/-- The queue with the calls on it. -/
structure JobQueue (K : Type) where
  shutDown : Bool := false
  flights : K → Option ℕ := fun _ => none
  slots : ℕ → FlightState := fun _ => {}
  allocated : ℕ := 0
  calls : ℕ → Option (Call K) := fun _ => none

namespace JobQueue

/-- A call comes to a stage. -/
def reach (q : JobQueue K) (t : ℕ) (k : K) (stage : Stage) : JobQueue K :=
  { q with calls := Function.update q.calls t (some ⟨k, stage⟩) }

/-- The state at an address is written. -/
def write (q : JobQueue K) (slot : ℕ) (state : FlightState) : JobQueue K :=
  { q with slots := Function.update q.slots slot state }

variable [DecidableEq K]

/-- A new state for a key. -/
def allocate (q : JobQueue K) (k : K) : JobQueue K :=
  { q.write q.allocated {} with
    flights := Function.update q.flights k (some q.allocated)
    allocated := q.allocated + 1 }

/-- The next step of a call of `run_coalesced`. -/
def advance (q : JobQueue K) (t : ℕ) (k : K) : Stage → Option (JobQueue K)
  | .called => some (q.reach t k (if q.shutDown then .done else .checked))
  | .checked =>
    match q.flights k with
    | some slot => some (q.reach t k (.holding slot))
    | none => some ((q.allocate k).reach t k (.holding q.allocated))
  | .holding slot =>
    if (q.slots slot).running then
      some ((q.write slot { q.slots slot with pending := true }).reach t k .done)
    else some ((q.write slot ⟨true, false⟩).reach t k (.starting slot))
  | .starting slot => some (q.reach t k (.flying slot))
  | .flying slot => some (q.reach t k (.landed slot))
  | .landed slot =>
    if (q.slots slot).pending then
      some ((q.write slot { q.slots slot with pending := false }).reach t k (.starting slot))
    else some ((q.write slot { q.slots slot with running := false }).reach t k .done)
  | .done => none

/-- The state of an idle key is dropped. -/
def cancel (q : JobQueue K) (k : K) : JobQueue K :=
  match q.flights k with
  | none => q
  | some slot =>
    if (q.slots slot).running then q
    else { q with flights := Function.update q.flights k none }

end JobQueue

/-- What happens next. -/
inductive Event (K : Type) where
  /-- nothing on this queue -/
  | idle
  /-- `run_coalesced` is called in the name of task `t` -/
  | call (t : ℕ) (k : K)
  | step (t : ℕ)
  /-- a call that waits for its factory is dropped: its task is aborted or the factory panics -/
  | abort (t : ℕ)
  | cancel (k : K)
  /-- the first step of `shutdown` -/
  | shutDown
  /-- the last step of `shutdown` -/
  | clear

namespace JobQueue

variable [DecidableEq K]

/-- The queue after an event; no result if the event is not possible. -/
def next (q : JobQueue K) : Event K → Option (JobQueue K)
  | .idle => some q
  | .call t k =>
    match q.calls t with
    | none => some (q.reach t k .called)
    | some _ => none
  | .step t =>
    match q.calls t with
    | none => none
    | some c => q.advance t c.key c.stage
  | .abort t =>
    match q.calls t with
    | some ⟨k, .flying _⟩ => some (q.reach t k .done)
    | _ => none
  | .cancel k => some (q.cancel k)
  | .shutDown => some { q with shutDown := true }
  | .clear => if q.shutDown then some { q with flights := fun _ => none } else none

end JobQueue

end Orchid.Job
