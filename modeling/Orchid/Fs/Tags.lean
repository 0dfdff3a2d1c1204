import Mathlib.Data.Char
import Mathlib.Data.List.Lex
import Orchid.Fs.Path
import Orchid.Lib.KeyedMap
import Orchid.Lib.Pool

/-!
# File tags

Each operation loads the records of its paths, one transaction for each, and writes the changed
records back in one more; `orchid-fs/src/tag/manager.rs`. `lower` is `str::to_lowercase`.
-/

namespace Orchid.Fs.Tag

open Lib

/-! ### Records -/

inductive ColorLabel
  | red
  | orange
  | yellow
  | green
  | blue
  | purple
  | gray
  deriving DecidableEq

structure FileTag where
  path : Text
  tags : List Text
  colorLabel : Option ColorLabel
  starred : Bool
  updatedAt : ℤ
  deriving DecidableEq

/-- The table of the records. -/
abbrev Table := KeyedMap FileTag.path

/-- `BTreeSet<String>` -/
abbrev TagSet := KeyedMap (id : Text → Text)

def TagSet.addAll (set : TagSet) (tags : List Text) : TagSet := tags.foldl KeyedMap.insert set

def TagSet.ofList (tags : List Text) : TagSet := TagSet.addAll KeyedMap.empty tags

variable (lower : Text → Text)

def normaliseTag (raw : Text) : Except FsError Text :=
  let trimmed := lower (trim raw)
  if trimmed = [] then .error (.invalidPath "tag cannot be empty".toList) else .ok trimmed

def normaliseTagList (raw : List Text) : Except FsError (List Text) := do
  let tags ← raw.mapM (normaliseTag lower)
  return (TagSet.ofList tags).toList

/-- The record of a path, or a new one. -/
def loadOrNew (path : FsPath) (row : Option FileTag) : FileTag :=
  row.getD ⟨path.text, [], none, false, 0⟩

/-! ### Operations -/

/-- A record that an operation loads, and the record that it makes of it, if it writes one. -/
structure Load where
  path : FsPath
  change : Option FileTag → Option FileTag

/-- The records that an operation loads one after the other, unless it refuses a tag; then it
writes nothing. -/
abbrev Plan := Except FsError (List Load)

/-- An item of a batch, with the time at which its record is changed. -/
structure Item where
  path : FsPath
  tags : List Text
  now : ℤ

/-- One record is loaded and changed. -/
def change (path : FsPath) (f : FileTag → FileTag) : Load :=
  ⟨path, fun row => some (f (loadOrNew path row))⟩

def setTags (path : FsPath) (tags : List Text) (now : ℤ) : Plan := do
  let normalised ← normaliseTagList lower tags
  return [change path fun existing => { existing with tags := normalised, updatedAt := now }]

/-- The tags of an item are added, unless all are there already. -/
def ensured (item : Item) (tags : List Text) : Load where
  path := item.path
  change row :=
    let existing := loadOrNew item.path row
    let set := (TagSet.ofList existing.tags).addAll tags
    if set.toList.length = (TagSet.ofList existing.tags).toList.length then none
    else some { existing with tags := set.toList, updatedAt := item.now }

def ensureTags (item : Item) : Except FsError Load := do
  let tags ← item.tags.mapM (normaliseTag lower)
  return ensured item tags

def ensureTagsBatch (items : List Item) : Plan :=
  (items.filter fun item => item.tags ≠ []).mapM (ensureTags lower)

/-- A tag is added to a record. -/
def insertTag (tag : Text) (now : ℤ) (existing : FileTag) : FileTag :=
  { existing with tags := ((TagSet.ofList existing.tags).insert tag).toList, updatedAt := now }

def addTag (path : FsPath) (tag : Text) (now : ℤ) : Plan := do
  let normalised ← normaliseTag lower tag
  return [change path (insertTag normalised now)]

/-- A tag is removed from a record, if there is one. -/
def dropTag (path : FsPath) (tag : Text) (now : ℤ) : Load :=
  ⟨path, Option.map fun existing =>
    { existing with tags := existing.tags.filter fun t => t ≠ tag, updatedAt := now }⟩

/-- A tag that cannot be is not refused. -/
def removeTag (path : FsPath) (tag : Text) (now : ℤ) : Plan :=
  match normaliseTag lower tag with
  | .ok norm => .ok [dropTag path norm now]
  | .error _ => .ok []

def colored (color : Option ColorLabel) (now : ℤ) (existing : FileTag) : FileTag :=
  { existing with colorLabel := color, updatedAt := now }

def setColor (path : FsPath) (color : Option ColorLabel) (now : ℤ) : Plan :=
  .ok [change path (colored color now)]

def marked (starred : Bool) (now : ℤ) (existing : FileTag) : FileTag :=
  { existing with starred, updatedAt := now }

def setStarred (path : FsPath) (starred : Bool) (now : ℤ) : Plan :=
  .ok [change path (marked starred now)]

def setStarredMany (paths : List FsPath) (starred : Bool) (now : ℤ) : Plan :=
  .ok (paths.map fun path => change path (marked starred now))

def setColorMany (paths : List FsPath) (color : Option ColorLabel) (now : ℤ) : Plan :=
  .ok (paths.map fun path => change path (colored color now))

def addTagMany (paths : List FsPath) (tag : Text) (now : ℤ) : Plan :=
  if paths = [] then .ok []
  else do
    let normalised ← normaliseTag lower tag
    return paths.map fun path => change path (insertTag normalised now)

def removeTagMany (paths : List FsPath) (tag : Text) (now : ℤ) : Plan :=
  match normaliseTag lower tag with
  | .ok norm => .ok (paths.map fun path => dropTag path norm now)
  | .error _ => .ok []

/-- A call of the tag manager, with the times that it reads. -/
inductive Call
  | setTags (path : FsPath) (tags : List Text) (now : ℤ)
  | ensureTagsBatch (items : List Item)
  | addTag (path : FsPath) (tag : Text) (now : ℤ)
  | removeTag (path : FsPath) (tag : Text) (now : ℤ)
  | setColor (path : FsPath) (color : Option ColorLabel) (now : ℤ)
  | setStarred (path : FsPath) (starred : Bool) (now : ℤ)
  | setStarredMany (paths : List FsPath) (starred : Bool) (now : ℤ)
  | setColorMany (paths : List FsPath) (color : Option ColorLabel) (now : ℤ)
  | addTagMany (paths : List FsPath) (tag : Text) (now : ℤ)
  | removeTagMany (paths : List FsPath) (tag : Text) (now : ℤ)

def Call.plan : Call → Plan
  | .setTags path tags now => Tag.setTags lower path tags now
  | .ensureTagsBatch items => Tag.ensureTagsBatch lower items
  | .addTag path tag now => Tag.addTag lower path tag now
  | .removeTag path tag now => Tag.removeTag lower path tag now
  | .setColor path color now => Tag.setColor path color now
  | .setStarred path starred now => Tag.setStarred path starred now
  | .setStarredMany paths starred now => Tag.setStarredMany paths starred now
  | .setColorMany paths color now => Tag.setColorMany paths color now
  | .addTagMany paths tag now => Tag.addTagMany lower paths tag now
  | .removeTagMany paths tag now => Tag.removeTagMany lower paths tag now

/-- The records that a call loads; none if it refuses a tag. -/
def Call.loads (call : Call) : List Load := (call.plan lower).toOption.getD []

/-! ### Transactions -/

/-- `get` -/
def get (db : Table) (path : FsPath) : Option FileTag := db.find? path.text

/-- `write_many` -/
def writeMany (db : Table) (rows : List FileTag) : Table := rows.foldl KeyedMap.insert db

/-- A call that runs: what it has loaded, and what it has still to load. -/
structure Task where
  call : Call
  loaded : List (Load × Option FileTag)
  loads : List Load

/-- The records that a task writes. -/
def Task.rows (t : Task) : List FileTag := t.loaded.filterMap fun x => x.1.change x.2

def enter (call : Call) : Task := ⟨call, [], call.loads lower⟩

/-- One transaction: the next record is loaded, or all are written. -/
def step (_ : Unit) (db : Table) (t : Task) : Table × Progress Task Call :=
  match t.loads with
  | load :: rest =>
    (db, .running { t with loaded := t.loaded ++ [(load, get db load.path)], loads := rest })
  | [] => (writeMany db t.rows, .finished t.call)

/-- The table and the calls that run on it. -/
abbrev Manager := Pool Table Task Call

/-- The table after a call that runs alone. -/
def Call.alone (db : Table) (call : Call) : Table :=
  writeMany db ((call.loads lower).filterMap fun load => load.change (get db load.path))

end Orchid.Fs.Tag
