import Orchid.Base.Machine
import Orchid.Lib.Pool
import Mathlib.Logic.Function.Basic

/-!
# The chunk store

Blob files next to a table of reference counts. A call goes through await points and transaction
boundaries; what happens between two of them is one atomic step. Files are named inodes, so that
two writers that opened one temporary file share it.

Directories are not modelled: nothing removes one.
-/

namespace Orchid.Content

open Lib

/-! ### Data -/

/-- A point in time. -/
abbrev Instant := ℤ

/-- Per-chunk metadata. -/
structure ChunkRefInfo where
  size : ℕ
  refcount : U64
  createdAt : Instant
  lastAccessedAt : Instant
deriving DecidableEq

/-- `n.saturating_add(1)` -/
def saturatingSucc (n : U64) : U64 := (U64.succ? n).getD n

/-- One more reference, taken at `now`. -/
def ChunkRefInfo.bump (info : ChunkRefInfo) (now : Instant) : ChunkRefInfo :=
  { info with refcount := saturatingSucc info.refcount, lastAccessedAt := now }

/-- Statistics of a garbage collection. -/
structure GcStats where
  filesRemoved : U64 := 0
  bytesFreed : U64 := 0
deriving DecidableEq

/-- `x.saturating_add(n)` -/
def saturatingAdd (x : U64) (n : ℕ) : U64 := ⟨min (x.val + n) (2 ^ 64 - 1), by omega⟩

/-- How a call fails. -/
inductive CryptoError (H : Type) where
  | storage
  | io
  | chunkNotFound (key : H)
  | refcountUnderflow (key : H)
  | chunkIntegrity (expected actual : H)
deriving DecidableEq

/-- The table, the files and the buffered access times. `tmp` and `blob` are the directory entries
of the temporary file and of the blob of a chunk. -/
structure Store (H : Type) where
  rows : H → Option ChunkRefInfo
  content : ℕ → Bytes
  nextFile : ℕ
  tmp : H → Option ℕ
  blob : H → Option ℕ
  pending : List (H × Instant)

/-- A store without chunks and files. -/
def Store.empty {H : Type} : Store H := ⟨fun _ => none, fun _ => [], 0, fun _ => none, fun _ => none, []⟩

variable {H : Type} [DecidableEq H]

namespace Store

variable (s : Store H)

def setRow (h : H) (row : Option ChunkRefInfo) : Store H :=
  { s with rows := Function.update s.rows h row }

def setTmp (h : H) (file : Option ℕ) : Store H := { s with tmp := Function.update s.tmp h file }

def setBlob (h : H) (file : Option ℕ) : Store H := { s with blob := Function.update s.blob h file }

def setContent (file : ℕ) (bytes : Bytes) : Store H :=
  { s with content := Function.update s.content file bytes }

/-- Open the temporary file for writing, empty: the one that is there, or a new one. -/
def createTmp (h : H) : Store H × ℕ :=
  match s.tmp h with
  | some file => (s.setContent file [], file)
  | none => ({ (s.setContent s.nextFile []).setTmp h (some s.nextFile) with
      nextFile := s.nextFile + 1 }, s.nextFile)

/-- Write at an offset of a file; a gap reads as zeros. -/
def writeAt (file off : ℕ) (bytes : Bytes) : Store H :=
  let old := s.content file
  s.setContent file <|
    (old ++ List.replicate (off - old.length) 0).take off ++ bytes ++ old.drop (off + bytes.length)

/-- Drop the buffered access time of a chunk. -/
def forget (h : H) : Store H := { s with pending := s.pending.filter fun x => x.1 ≠ h }

/-- Buffer an access time. -/
def touch (h : H) (now : Instant) : Store H :=
  { s with pending := (h, now) :: s.pending.filter fun x => x.1 ≠ h }

/-- Write an access time to the table; a chunk that is gone is skipped. -/
def flushOne (x : H × Instant) : Store H :=
  match s.rows x.1 with
  | none => s
  | some info => s.setRow x.1 (some { info with lastAccessedAt := x.2 })

end Store

/-- How many access times are buffered before they are written. -/
def accessFlushThreshold : ℕ := 256

/-! ### Calls -/

/-- A call, with the time at which a `put` starts. -/
inductive Call (H : Type) where
  | put (bytes : Bytes) (now : Instant)
  | release (key : H)
  | get (key : H)
  | garbageCollect

/-- Where a call stands. -/
inductive Task (H : Type) where
  | probe (key : H) (bytes : Bytes) (now : Instant)
  | clone (key : H) (bytes : Bytes) (now : Instant)
  | makeDir (key : H) (bytes : Bytes) (now : Instant)
  | create (key : H) (bytes : Bytes) (now : Instant)
  | write (key : H) (bytes : Bytes) (now : Instant) (file off : ℕ)
  | commit (key : H) (bytes : Bytes) (now : Instant)
  | rename (key : H)
  | discard (key : H)
  | release (key : H)
  | unlink (key : H)
  | lookup (key : H)
  | read (key : H)
  | flush (key : H) (bytes : Bytes) (batch : List (H × Instant))
  | gcNext (stats : GcStats)
  | gcCheck (stats : GcStats) (key : H)
  | gcStat (stats : GcStats) (key : H)
  | gcUnlink (stats : GcStats) (key : H) (size : ℕ)

/-- What a call returns. `hindered` tells whether a `put` met an I/O fault. -/
inductive Outcome (H : Type) where
  | put (key : H) (result : Except (CryptoError H) Unit) (hindered : Bool)
  | release (key : H) (result : Except (CryptoError H) U64)
  | get (key : H) (result : Except (CryptoError H) Bytes)
  | garbageCollect (result : Except (CryptoError H) GcStats)

/-- What a step depends on besides the store: whether its I/O fails, and if so late, after the
buffered access times were changed or the temporary file was opened; whether a cloner, if there is
one, shares the range of the source; how many bytes a write writes; the time; the next directory
entry of a garbage collection. -/
structure Choice (H : Type) where
  fault : Bool := false
  late : Bool := false
  cloned : Option Bool := none
  piece : ℕ := 0
  now : Instant := 0
  entry : Option H := none

variable (hashOf : Bytes → H)

def Call.enter : Call H → Task H
  | .put bytes now => .probe (hashOf bytes) bytes now
  | .release key => .release key
  | .get key => .lookup key
  | .garbageCollect => .gcNext {}

/-- The next atomic step of a call. -/
def Task.step (c : Choice H) (s : Store H) : Task H → Store H × Progress (Task H) (Outcome H)
  -- fast path: if the entry already exists, just bump the refcount
  | .probe key bytes now =>
    match s.rows key with
    | some info =>
      if c.fault then
        (if c.late then s.forget key else s, .finished (.put key (.error .storage) true))
      else ((s.forget key).setRow key (some (info.bump now)), .finished (.put key (.ok ()) false))
    | none =>
      if c.fault then (s, .finished (.put key (.error .storage) true))
      else (s, .running (.clone key bytes now))
  -- a cloner that fails takes the temporary file away, and it refuses an empty range
  | .clone key bytes now =>
    match c.cloned with
    | none => (s, .running (.makeDir key bytes now))
    | some false =>
      ((if c.late then (s.createTmp key).1 else s).setTmp key none,
        .running (.makeDir key bytes now))
    | some true =>
      if bytes = [] then (s, .running (.makeDir key bytes now))
      else
        ((s.createTmp key).1.writeAt (s.createTmp key).2 0 bytes, .running (.commit key bytes now))
  | .makeDir key bytes now =>
    if c.fault then (s, .finished (.put key (.error .io) true))
    else (s, .running (.create key bytes now))
  | .create key bytes now =>
    if c.fault then (s, .finished (.put key (.error .io) true))
    else ((s.createTmp key).1, .running (.write key bytes now (s.createTmp key).2 0))
  -- the last step of the write flushes and syncs
  | .write key bytes now file off =>
    if c.fault then (s, .finished (.put key (.error .io) true))
    else if off < bytes.length then
      let piece := (bytes.drop off).take (max c.piece 1)
      (s.writeAt file off piece, .running (.write key bytes now file (off + piece.length)))
    else (s, .running (.commit key bytes now))
  -- another task may have registered the chunk since the probe
  | .commit key bytes now =>
    if c.fault then (s, .running (.discard key))
    else
      let row := match s.rows key with
        | some existing => existing.bump now
        | none => ⟨bytes.length, 1, now, now⟩
      (s.setRow key (some row), .running (.rename key))
  | .rename key =>
    if c.fault then (s, .finished (.put key (.error .io) true))
    else
      match s.tmp key with
      | none => (s, .finished (.put key (.error .io) false))
      | some file => ((s.setBlob key (some file)).setTmp key none, .finished (.put key (.ok ()) false))
  | .discard key =>
    (if c.fault then s else s.setTmp key none, .finished (.put key (.error .storage) true))
  | .release key =>
    if c.fault then (s, .finished (.release key (.error .storage)))
    else
      match s.rows key with
      | none => (s, .finished (.release key (.error (.chunkNotFound key))))
      | some info =>
        if info.refcount = 0 then (s, .finished (.release key (.error (.refcountUnderflow key))))
        else if info.refcount - 1 = 0 then (s.setRow key none, .running (.unlink key))
        else
          (s.setRow key (some { info with refcount := info.refcount - 1 }),
            .finished (.release key (.ok (info.refcount - 1))))
  | .unlink key => (if c.fault then s else s.setBlob key none, .finished (.release key (.ok 0)))
  | .lookup key =>
    if c.fault then (s, .finished (.get key (.error .storage)))
    else if (s.rows key).isNone then (s, .finished (.get key (.error (.chunkNotFound key))))
    else (s, .running (.read key))
  | .read key =>
    if c.fault then (s, .finished (.get key (.error .io)))
    else
      match s.blob key with
      | none => (s, .finished (.get key (.error .io)))
      | some file =>
        let bytes := s.content file
        if hashOf bytes ≠ key then
          (s, .finished (.get key (.error (.chunkIntegrity key (hashOf bytes)))))
        else
          let s := s.touch key c.now
          if s.pending.length ≥ accessFlushThreshold then
            ({ s with pending := [] }, .running (.flush key bytes s.pending))
          else (s, .finished (.get key (.ok bytes)))
  | .flush key bytes batch =>
    (if c.fault then s else batch.foldl Store.flushOne s, .finished (.get key (.ok bytes)))
  | .gcNext stats =>
    match c.entry with
    | none => (s, .finished (.garbageCollect (.ok stats)))
    | some key =>
      if c.fault then (s, .finished (.garbageCollect (.error .io)))
      else if (s.blob key).isSome then (s, .running (.gcCheck stats key))
      else (s, .running (.gcNext stats))
  | .gcCheck stats key =>
    if c.fault then (s, .finished (.garbageCollect (.error .storage)))
    else if (s.rows key).isSome then (s, .running (.gcNext stats))
    else (s, .running (.gcStat stats key))
  | .gcStat stats key =>
    match s.blob key with
    | none => (s, .finished (.garbageCollect (.error .io)))
    | some file =>
      if c.fault then (s, .finished (.garbageCollect (.error .io)))
      else (s, .running (.gcUnlink stats key (s.content file).length))
  | .gcUnlink stats key size =>
    (if c.fault then s else s.setBlob key none,
      .running (.gcNext ⟨saturatingAdd stats.filesRemoved 1, saturatingAdd stats.bytesFreed size⟩))

end Orchid.Content
