import Orchid.Content.Accounting
import Orchid.Lib.KeyedMap

/-!
# Ingesting managed files

The chunks of a file go into the chunk store one after the other, each with one reference more; then
the manifest is stored under the path. Nothing gives references back.
-/

namespace Orchid.Content

open Lib

variable {H P : Type} [DecidableEq H] [LinearOrder P]

/-! ### A call of the chunk store on its own -/

/-- The step writes the row of the chunk. -/
def writesRow (c : Choice H) (s : Store H) : Task H → Bool
  | .probe key _ _ => (s.rows key).isSome && !c.fault
  | .commit _ _ _ => !c.fault
  | _ => false

/-- A task runs to its end; the last component tells whether it wrote the row of its chunk. -/
def runTask (hashOf : Bytes → H) :
    Store H → Task H → List (Choice H) → Option (Store H × Outcome H × Bool)
  | _, _, [] => none
  | s, t, c :: cs =>
    match t.step hashOf c s with
    | (s', .finished o) => some (s', o, writesRow c s t)
    | (s', .running t') =>
      (runTask hashOf s' t' cs).map fun r => (r.1, r.2.1, writesRow c s t || r.2.2)

/-! ### `ingest_file` -/

/-- What the chunker comes to next: a chunk, with the choices of its `put`, or a read that fails. -/
inductive Piece (H : Type) where
  | chunk (bytes : Bytes) (now : Instant) (choices : List (Choice H))
  | readError

/-- `ChunkRef` -/
structure ChunkRef (H : Type) where
  hash : H
  offset : ℕ
  length : ℕ
  deriving DecidableEq

/-- `FileManifest` -/
structure FileManifest (H : Type) where
  totalSize : ℕ
  contentHash : H
  chunks : List (ChunkRef H)
  deriving DecidableEq

/-- Store the pieces of a file. The last component lists the chunks whose rows were written. -/
def storePieces (hashOf : Bytes → H) : Store H → List (Piece H) →
    Option (Store H × Except (CryptoError H) (List Bytes) × List H)
  | s, [] => some (s, .ok [], [])
  | s, .readError :: _ => some (s, .error .io, [])
  | s, .chunk bytes now choices :: pieces =>
    match runTask hashOf s (Call.enter hashOf (.put bytes now)) choices with
    | some (s', .put _ (.ok ()) _, written) =>
      (storePieces hashOf s' pieces).map fun r =>
        (r.1, r.2.1.map (bytes :: ·), (if written then [hashOf bytes] else []) ++ r.2.2)
    | some (s', .put _ (.error e) _, written) =>
      some (s', .error e, if written then [hashOf bytes] else [])
    | _ => none

/-- The references of a file's chunks, from an offset on. -/
def chunkRefs (hashOf : Bytes → H) : ℕ → List Bytes → List (ChunkRef H)
  | _, [] => []
  | offset, bytes :: rest =>
    ⟨hashOf bytes, offset, bytes.length⟩ :: chunkRefs hashOf (offset + bytes.length) rest

/-! ### `ingest` -/

/-- How an ingest fails. -/
inductive FsError (H : Type) where
  | managedIngestExcluded
  | managedQuotaExceeded
  | notLocal
  | crypto (e : CryptoError H)
  | storage
  deriving DecidableEq

/-- An ingest and what happens to it: why it ends before the file is read, the length that the file
system tells, the pieces of the file, and whether storing the manifest fails. -/
structure Ingest (P H : Type) where
  path : P
  refused : Option (FsError H)
  totalSize : ℕ
  pieces : List (Piece H)
  manifestFault : Bool

/-- The chunk store and the table of the manifests. -/
structure Managed (P H : Type) [LinearOrder P] where
  store : Store H
  manifests : KeyedMap (Prod.fst : P × FileManifest H → P)

/-- `ingest`; there is no result while a `put` of it has not ended. -/
def Managed.ingest (hashOf : Bytes → H) (m : Managed P H) (call : Ingest P H) :
    Option (Managed P H × Except (FsError H) (FileManifest H)) :=
  match call.refused with
  | some e => some (m, .error e)
  | none =>
    (storePieces hashOf m.store call.pieces).map fun
      | (store, .error e, _) => ({ m with store := store }, .error (.crypto e))
      | (store, .ok chunks, _) =>
        let manifest : FileManifest H :=
          ⟨call.totalSize, hashOf chunks.flatten, chunkRefs hashOf 0 chunks⟩
        if call.manifestFault then ({ m with store := store }, .error .storage)
        else (⟨store, m.manifests.insert (call.path, manifest)⟩, .ok manifest)

/-- The chunks whose rows an ingest writes, once for each time. -/
def Managed.written (hashOf : Bytes → H) (m : Managed P H) (call : Ingest P H) : List H :=
  match call.refused with
  | some _ => []
  | none => ((storePieces hashOf m.store call.pieces).map fun r => r.2.2).getD []

/-! ### What the counts should be -/

namespace Managed

/-- How often a chunk occurs in a manifest. -/
def occurrences (h : H) (manifest : FileManifest H) : ℕ :=
  (manifest.chunks.map ChunkRef.hash).count h

/-- How often a chunk occurs in the stored manifests. -/
def references (m : Managed P H) (h : H) : ℕ :=
  (m.manifests.toList.map fun row => occurrences h row.2).sum

/-- Every count is the number of times that the chunk occurs in the stored manifests. -/
def Balanced (m : Managed P H) : Prop := ∀ h, m.store.count h = m.references h

/-- No count gets out of its range. -/
def Countable (hashOf : Bytes → H) (m : Managed P H) (call : Ingest P H) : Prop :=
  ∀ h, m.store.count h + (m.written hashOf call).count h < 2 ^ 64

/-- A file is ingested whose path had no manifest with chunks, or the ingest fails before it has
written the row of a chunk. -/
def Clean (hashOf : Bytes → H) (m : Managed P H) (call : Ingest P H) :
    Except (FsError H) (FileManifest H) → Prop
  | .ok _ => ∀ old ∈ m.manifests, old.1 = call.path → old.2.chunks = []
  | .error _ => m.written hashOf call = []

/-- The states reached from an empty store by ingests that satisfy a condition. -/
inductive Reached (hashOf : Bytes → H)
    (safe : Managed P H → Ingest P H → Except (FsError H) (FileManifest H) → Prop) :
    Managed P H → Prop
  | empty : Reached hashOf safe ⟨.empty, .empty⟩
  | ingest {m m' : Managed P H} {call : Ingest P H} {r : Except (FsError H) (FileManifest H)}
      (h : Reached hashOf safe m) (hsafe : safe m call r)
      (hingest : m.ingest hashOf call = some (m', r)) : Reached hashOf safe m'

end Managed

end Orchid.Content
