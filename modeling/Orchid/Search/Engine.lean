import Orchid.Base.Text
import Orchid.Search.Ann

/-!
# The search engine

The text index and the vector index of a search engine, and the steps of its calls. A step is what
a call does while it holds a lock; between two steps of a call any others may come, and a crash.
-/

namespace Orchid.Search

/-! ### Documents and their vectors -/

/-- `IndexDocument`, without the fields that only the text index reads. -/
structure IndexDocument where
  path : Text
  content : Option Text
  embedding : Option Vector
  embeddingModel : Option Text
deriving DecidableEq

/-- `Embedder` -/
structure Embedder where
  modelId : Text
  dimensions : ℕ
  embed : Text → Option Vector

variable (m : Embedder)

/-- The vector that comes with a document, if it is of the embedder's model and width. -/
def ownEmbedding (d : IndexDocument) : Option Vector :=
  d.embedding.filter fun v =>
    (d.embeddingModel.all fun model => model = m.modelId) && v.length = m.dimensions

/-- The content of a document, if it is not blank. -/
def embeddable (d : IndexDocument) : Option Text := d.content.filter fun c => trim c ≠ []

/-- One round of the loop of `upsert_ann` -/
def upsertAnnDoc (vs : Vectors) (d : IndexDocument) : Vectors :=
  match ownEmbedding m d with
  | some v =>
    match vs.upsert m.dimensions d.path v with
    | .ok vs => vs
    | .error _ => vs
  | none =>
    match embeddable d with
    | none => vs.remove d.path
    | some content =>
      match m.embed content with
      | some v =>
        match vs.upsert m.dimensions d.path v with
        | .ok vs => vs
        | .error _ => vs
      | none => vs.remove d.path

/-- `upsert_ann` -/
def upsertAnn (vs : Vectors) (docs : List IndexDocument) : Vectors :=
  docs.foldl (upsertAnnDoc m) vs

/-- `load_ann_snapshot` -/
def loadAnnSnapshot (file : Option Bytes) : Vectors :=
  match load file m.dimensions with
  | .ok vs => vs
  | .error _ => .empty

/-! ### The engine -/

/-- The documents of a text index by their paths. -/
abbrev Docs := Text → Option IndexDocument

/-- `delete_term` of a path, then `add_document` -/
def Docs.put (docs : Docs) (d : IndexDocument) : Docs := Function.update docs d.path (some d)

/-- `delete_term` of a path -/
def Docs.delete (docs : Docs) (path : Text) : Docs := Function.update docs path none

/-- What a call that holds the writer's lock has still to do with the vectors. -/
inductive Change
  | upsert (docs : List IndexDocument)
  | remove (path : Text)

/-- A search engine, its files and its calls. The last two fields are for the statements only: the
documents that the vectors were last brought in line with, and those of the snapshot, if it was
written completely. -/
structure Engine where
  /-- The documents of the last commit, which are on the disk. -/
  committed : Docs
  /-- The documents with the changes of the writer that are not yet committed. -/
  live : Docs
  /-- Whether there is still a writer behind the lock. -/
  writer : Bool
  /-- Whether `shutdown` has taken the writer and not yet committed. -/
  closing : Bool
  /-- The holder of the writer's lock. -/
  holder : Option Change
  vectors : Vectors
  /-- The calls of `commit` and `shutdown` that are about to write the snapshot. -/
  due : ℕ
  file : Option Bytes
  indexed : Docs
  saved : Option Docs

/-- A new index. -/
def Engine.new : Engine where
  committed := fun _ => none
  live := fun _ => none
  writer := true
  closing := false
  holder := none
  vectors := loadAnnSnapshot m none
  due := 0
  file := none
  indexed := fun _ => none
  saved := some fun _ => none

inductive Step
  /-- `upsert_batch_sync` up to the vectors; at `fails`, adding the document there fails. -/
  | beginUpsert (docs : List IndexDocument) (fails : Option ℕ)
  /-- `remove_sync` up to the vectors. -/
  | beginRemove (path : Text)
  /-- The change of the vectors, and the end of the call. -/
  | finish
  /-- The commit of `commit`, which may fail. -/
  | commit (ok : Bool)
  /-- `reload` fails, and `commit` ends without a snapshot. -/
  | reloadFails
  /-- `persist_ann_snapshot`, with the rows in the order of the map's iteration; so many bytes are
  written, or the file cannot be opened. -/
  | persist (rows : List (Text × Vector)) (written : Option ℕ)
  /-- `shutdown` takes the writer. -/
  | takeWriter
  /-- The commit of `shutdown`, whose failure is ignored. -/
  | closingCommit (ok : Bool)
  /-- The process ends, and the index is opened again. -/
  | crash

/-- The documents after a batch; at `fails`, its document is deleted and not added. -/
def addDocuments (docs : Docs) (batch : List IndexDocument) (fails : Option ℕ) : Docs :=
  match fails with
  | none => batch.foldl Docs.put docs
  | some i =>
    match batch[i]? with
    | none => batch.foldl Docs.put docs
    | some d => ((batch.take i).foldl Docs.put docs).delete d.path

/-- Whether adding a document of the batch fails. -/
def addFails (batch : List IndexDocument) (fails : Option ℕ) : Bool :=
  fails.any fun i => i < batch.length

/-- What the holder of the lock does with the vectors. -/
def Change.apply (c : Change) (vs : Vectors) : Vectors :=
  match c with
  | .upsert docs => upsertAnn m vs docs
  | .remove path => vs.remove path

/-- The rows that a snapshot is written of are those of the map. -/
def Step.Possible (s : Engine) : Step → Prop
  | .persist rows _ => Enumerates rows s.vectors
  | _ => True

/-- One step; there is none where it has to wait for a lock, or where no call is there to make it.
-/
def step (s : Engine) : Step → Option Engine
  | .beginUpsert docs fails =>
    if s.holder.isSome then none
    else if s.writer = false then some s
    else if addFails docs fails then some { s with live := addDocuments s.live docs fails }
    else some { s with live := addDocuments s.live docs fails, holder := some (.upsert docs) }
  | .beginRemove path =>
    if s.holder.isSome then none
    else if s.writer = false then some s
    else some { s with live := s.live.delete path, holder := some (.remove path) }
  | .finish =>
    s.holder.map fun c =>
      { s with vectors := c.apply m s.vectors, holder := none, indexed := s.live }
  | .commit ok =>
    if s.holder.isSome then none
    else if s.writer = false then some { s with due := s.due + 1 }
    else if ok then some { s with committed := s.live, due := s.due + 1 }
    else some s
  | .reloadFails => if s.due = 0 then none else some { s with due := s.due - 1 }
  | .persist rows written =>
    if s.due = 0 then none
    else
      match written with
      | none => some { s with due := s.due - 1 }
      | some n =>
        let data := persistBytes m.dimensions rows
        some { s with
          due := s.due - 1
          file := some (data.take n)
          saved := if data.length ≤ n ∧ RowsFit m.dimensions rows then some s.indexed else none }
  | .takeWriter =>
    if s.holder.isSome then none
    else if s.writer = false then some { s with due := s.due + 1 }
    else some { s with writer := false, closing := true }
  | .closingCommit ok =>
    if s.closing = false then none
    else if ok then some { s with closing := false, committed := s.live, due := s.due + 1 }
    else some { s with closing := false, live := s.committed, due := s.due + 1 }
  | .crash =>
    some { Engine.new m with
      committed := s.committed
      live := s.committed
      vectors := loadAnnSnapshot m s.file
      file := s.file
      indexed := s.saved.getD fun _ => none
      saved := s.saved }

/-- The engines that are reached by steps of which each is allowed where it is made. -/
inductive Reached (allowed : Engine → Step → Prop) : Engine → Prop
  | new : Reached allowed (Engine.new m)
  | step {s s' : Engine} {a : Step} : Reached allowed s → a.Possible s → allowed s a →
      step m s a = some s' → Reached allowed s'

end Orchid.Search
