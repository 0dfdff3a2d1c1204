import Mathlib.Data.List.Basic
import Orchid.Base.Text
import Orchid.Lib.Pool

/-!
# The reveal manager

Decrypted files under the root of the revealed files, the table of the sessions, and the calls on
them. What a call does between two await points is one step; the sweeper is a call that never
returns by itself, and `shutdown` may abort it wherever it waits. Decrypting and unpacking may fail
anywhere, while wiping does what it is asked to do.
-/

namespace Orchid.Reveal

open Lib

/-! ### Data -/

/-- A file under the root: the session directory that it is in, if it is in one, and its path from
there with the extension apart. -/
structure Place (U : Type) where
  dir : Option U
  stem : Text
  extension : Option Text
  deriving DecidableEq

/-- `with_extension("orchid-decrypting")` -/
def Place.decrypting {U : Type} (f : Place U) : Place U :=
  { f with extension := some "orchid-decrypting".toList }

/-- `RevealSession`. A name in the metadata can lead out of the session's directory; `revealedPath`
is missing when it leads out of the root, and for a directory, which is in its session's. -/
structure RevealSession (U : Type) where
  id : U
  revealedPath : Option (Place U)
  isDirectory : Bool
  expiresAt : Option ℤ

/-- `RevealManagerInner` and the decrypted files under the root. Sweepers are numbered. -/
structure Manager (U : Type) where
  files : List (Place U)
  sessions : List (RevealSession U)
  sweeper : Option ℕ
  spawned : ℕ
  aborted : List ℕ
  shutdown : Bool

variable {U : Type} [DecidableEq U]

namespace Manager

def new : Manager U := ⟨[], [], none, 0, [], false⟩

def write (s : Manager U) (f : Option (Place U)) : Manager U :=
  { s with files := f.toList ++ s.files }

def removeFile (s : Manager U) (f : Option (Place U)) : Manager U :=
  { s with files := s.files.filter fun g => some g ≠ f }

/-- `remove_dir_all` of a session's directory. -/
def removeDir (s : Manager U) (id : U) : Manager U :=
  { s with files := s.files.filter fun g => g.dir ≠ some id }

def find? (s : Manager U) (id : U) : Option (RevealSession U) :=
  s.sessions.find? fun x => x.id = id

def removeSession (s : Manager U) (id : U) : Manager U :=
  { s with sessions := s.sessions.filter fun x => x.id ≠ id }

def insertSession (s : Manager U) (x : RevealSession U) : Manager U :=
  { s with sessions := x :: s.sessions.filter fun y => y.id ≠ x.id }

end Manager

/-! ### Calls -/

/-- A call; the duration of a reveal is missing when it lasts until it is closed. -/
inductive Call (U : Type) where
  | reveal (duration : Option ℤ)
  | revealDirectory (duration : Option ℤ)
  | close (id : U)
  | startSweeper
  | sweepOnce
  | shutdown

/-- What goes on after a session is wiped. -/
inductive After (U : Type) where
  | close
  | sweep (sweeper : Option ℕ) (ids : List U)
  | shutdown (ids : List U) (failed : Bool)

/-- Where a call stands. -/
inductive Task (U : Type) where
  | reveal (duration : Option ℤ)
  | readMetadata (id : U) (duration : Option ℤ)
  | decrypt (id : U) (path : Option (Place U)) (duration : Option ℤ)
  | rename (id : U) (path : Option (Place U)) (duration : Option ℤ)
  | register (id : U) (path : Option (Place U)) (isDirectory : Bool) (duration : Option ℤ)
  | revealDirectory (duration : Option ℤ)
  | unpack (id : U) (duration : Option ℤ)
  | close (id : U)
  | wipe (session : RevealSession U) (after : After U)
  | removeDir (session : RevealSession U) (after : After U)
  | startSweeper
  | sweeper (n : ℕ)
  | asleep (n : ℕ)
  | sweep (sweeper : Option ℕ)
  | sweepNext (sweeper : Option ℕ) (ids : List U)
  | shutdown
  | shutdownNext (ids : List U) (failed : Bool)

/-- What a call returns. -/
inductive Outcome (U : Type) where
  | revealed (session : Option (RevealSession U))
  | closed (ok : Bool)
  | swept
  | sweeperEnded
  | shutdown (ok : Bool)

/-- What a step depends on besides the manager: whether its I/O or the decryption fails, and if so
whether bytes were written before; whether an abort that was asked for takes effect; the time; the
fresh id; where the name in the metadata leads; the next file of an archive or of a wipe. -/
structure Choice (U : Type) where
  fault : Bool := false
  late : Bool := false
  abort : Bool := false
  now : ℤ := 0
  id : U
  path : Option (Place U) := none
  entry : Option (Text × Option Text) := none

def Call.enter : Call U → Task U
  | .reveal duration => .reveal duration
  | .revealDirectory duration => .revealDirectory duration
  | .close id => .close id
  | .startSweeper => .startSweeper
  | .sweepOnce => .sweep none
  | .shutdown => .shutdown

/-- The sweeper that the task belongs to. -/
def Task.sweeper? : Task U → Option ℕ
  | .wipe _ (.sweep w _) => w
  | .removeDir _ (.sweep w _) => w
  | .sweeper n => some n
  | .asleep n => some n
  | .sweep w => w
  | .sweepNext w _ => w
  | _ => none

/-- What follows the removal of a session's directory. -/
def After.next : After U → Progress (Task U) (Outcome U)
  | .close => .finished (.closed true)
  | .sweep w ids => .running (.sweepNext w ids)
  | .shutdown ids failed => .running (.shutdownNext ids failed)

/-- The next step of a task that is not aborted. -/
def Task.proceed (c : Choice U) (s : Manager U) :
    Task U → Manager U × Progress (Task U) (Outcome U)
  | .reveal duration =>
    if c.fault then (s, .finished (.revealed none))
    else (s, .running (.readMetadata c.id duration))
  | .readMetadata id duration => (s, .running (.decrypt id c.path duration))
  | .decrypt id path duration =>
    if c.fault then
      (if c.late then s.write (path.map Place.decrypting) else s, .finished (.revealed none))
    else (s.write (path.map Place.decrypting), .running (.rename id path duration))
  | .rename id path duration =>
    if c.fault then (s, .finished (.revealed none))
    else
      ((s.removeFile (path.map Place.decrypting)).write path,
        .running (.register id path false duration))
  | .register id path isDirectory duration =>
    let session : RevealSession U := ⟨id, path, isDirectory, duration.map (c.now + ·)⟩
    (s.insertSession session, .finished (.revealed (some session)))
  | .revealDirectory duration =>
    if c.fault then (s, .finished (.revealed none))
    else (s, .running (.unpack c.id duration))
  -- the archive is unpacked file by file
  | .unpack id duration =>
    if c.fault then (s, .finished (.revealed none))
    else
      match c.entry with
      | some (stem, extension) =>
        (s.write (some ⟨some id, stem, extension⟩), .running (.unpack id duration))
      | none => (s, .running (.register id none true duration))
  | .close id =>
    match s.find? id with
    | none => (s, .finished (.closed false))
    | some session => (s.removeSession id, .running (.wipe session .close))
  | .wipe session after =>
    if session.isDirectory then
      match c.entry with
      | some (stem, extension) =>
        (s.removeFile (some ⟨some session.id, stem, extension⟩), .running (.wipe session after))
      | none => (s, .running (.removeDir session after))
    else (s.removeFile session.revealedPath, .running (.removeDir session after))
  | .removeDir session after => (s.removeDir session.id, after.next)
  -- the call returns at once; what runs on is the task that it spawns
  | .startSweeper =>
    if s.sweeper.isSome then (s, .finished .sweeperEnded)
    else
      ({ s with sweeper := some s.spawned, spawned := s.spawned + 1 },
        .running (.sweeper s.spawned))
  | .sweeper n =>
    if s.shutdown then (s, .finished .sweeperEnded) else (s, .running (.sweep (some n)))
  | .asleep n => (s, .running (.sweeper n))
  | .sweep w =>
    let expired := s.sessions.filter fun x => x.expiresAt.any fun t => t ≤ c.now
    (s, .running (.sweepNext w (expired.map RevealSession.id)))
  | .sweepNext none [] => (s, .finished .swept)
  | .sweepNext (some n) [] => (s, .running (.asleep n))
  | .sweepNext w (id :: ids) =>
    match s.find? id with
    | none => (s, .running (.sweepNext w ids))
    | some session => (s.removeSession id, .running (.wipe session (.sweep w ids)))
  | .shutdown =>
    ({ s with shutdown := true, sweeper := none, aborted := s.sweeper.toList ++ s.aborted },
      .running (.shutdownNext (s.sessions.map RevealSession.id) false))
  | .shutdownNext [] failed => (s, .finished (.shutdown !failed))
  | .shutdownNext (id :: ids) failed =>
    match s.find? id with
    | none => (s, .running (.shutdownNext ids true))
    | some session => (s.removeSession id, .running (.wipe session (.shutdown ids failed)))

/-- The task is dropped where it waits. -/
def Task.Aborts (c : Choice U) (s : Manager U) (t : Task U) : Prop :=
  c.abort = true ∧ ∃ n ∈ s.aborted, t.sweeper? = some n

instance (c : Choice U) (s : Manager U) (t : Task U) : Decidable (t.Aborts c s) :=
  inferInstanceAs (Decidable (_ ∧ _))

/-- The next step of a task. -/
def Task.step (c : Choice U) (s : Manager U) (t : Task U) :
    Manager U × Progress (Task U) (Outcome U) :=
  if t.Aborts c s then (s, .finished .sweeperEnded) else t.proceed c s

/-- The manager, the calls still running, and what the others returned. -/
abbrev Calls (U : Type) := Pool (Manager U) (Task U) (Outcome U)

/-! ### What the manager promises -/

/-- A session's file, or one in its directory. -/
def RevealSession.Covers (x : RevealSession U) (f : Place U) : Prop :=
  x.isDirectory = false ∧ x.revealedPath = some f ∨ f.dir = some x.id

/-- The file belongs to the call. -/
def Task.Covers (f : Place U) : Task U → Prop
  | .rename _ path _ => path.map Place.decrypting = some f
  | .register id path isDirectory _ => isDirectory = false ∧ path = some f ∨ f.dir = some id
  | .unpack id _ => f.dir = some id
  | .wipe session _ => session.Covers f
  | .removeDir session _ => f.dir = some session.id
  | _ => False

/-- Every decrypted file belongs to a registered session or a running call, and none is left when a
shutdown and all other calls have returned. -/
structure Tidy (p : Calls U) : Prop where
  owned : ∀ f ∈ p.shared.files,
    (∃ x ∈ p.shared.sessions, x.Covers f) ∨ ∃ t ∈ p.tasks, t.Covers f
  empty : (∃ ok, .shutdown ok ∈ p.log) → p.tasks = [] → p.shared.files = []

/-- The step of a task leaves nothing behind: a call that fails has written nothing, a session is
registered under an id of its own and before a shutdown, and a sweeper that is dropped has no file
to wipe. -/
def Task.Clean (c : Choice U) (s : Manager U) (t : Task U) : Prop :=
  if t.Aborts c s then ∀ f ∈ s.files, ¬ t.Covers f
  else
    match t with
    | .decrypt _ path _ => c.fault = true → c.late = true → path = none
    | .rename _ _ _ | .unpack _ _ => c.fault = true → ∀ f ∈ s.files, ¬ t.Covers f
    | .register id _ _ _ => s.shutdown = false ∧ ∀ x ∈ s.sessions, x.id ≠ id
    | _ => True

/-- Every task steps cleanly. -/
def CleanStep (p : Calls U) : Event (Call U) (Choice U) → Prop
  | .start _ => True
  | .step k c => ∀ t, p.tasks[k]? = some t → t.Clean c p.shared

end Orchid.Reveal
