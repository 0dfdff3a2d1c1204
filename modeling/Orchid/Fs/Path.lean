import Mathlib.Data.List.DropRight
import Orchid.Base.Text

/-!
# Paths

A path is a scheme and a body behind a colon; `orchid-fs/src/path.rs`. A text is the list of its
characters, and a native path is one that is valid UTF-8.
-/

namespace Orchid.Fs

/-- `FsError` -/
inductive FsError
  | invalidPath (reason : Text)

/-! ### Cutting texts -/

/-- `split_once`: what stands before and behind the first `c`. -/
def splitOnce (c : Char) (s : Text) : Option (Text × Text) :=
  match s.dropWhile (· ≠ c) with
  | [] => none
  | _ :: behind => some (s.takeWhile (· ≠ c), behind)

/-- What stands before and behind the last `c`. -/
def rsplitOnce (c : Char) (s : Text) : Option (Text × Text) :=
  (splitOnce c s.reverse).map fun p => (p.2.reverse, p.1.reverse)

/-- What stands before the first `c`, or all. -/
def before (c : Char) (s : Text) : Text := s.takeWhile (· ≠ c)

/-- `trim_end_matches('/')` -/
def trimEndSlashes (s : Text) : Text := s.rdropWhile (· = '/')

/-- `trim_start_matches('/')` -/
def trimStartSlashes (s : Text) : Text := s.dropWhile (· = '/')

/-- `replace('\\', "/")` -/
def slashed (s : Text) : Text := s.map fun c => if c = '\\' then '/' else c

/-! ### Normalisation -/

/-- Repeated slashes are collapsed. -/
def collapse : Bool → Text → Text
  | _, [] => []
  | prevSlash, c :: s =>
    if c = '/' then if prevSlash then collapse true s else '/' :: collapse true s
    else c :: collapse false s

/-- `split_anchor` -/
def splitAnchor (body : Text) : Text × Text :=
  match body with
  | '/' :: '/' :: rest =>
    match splitOnce '/' rest with
    | some (server, rest) => ('/' :: '/' :: (server ++ ['/']), rest)
    | none => (body, [])
  | '/' :: stripped => (['/'], stripped)
  | c :: ':' :: '/' :: rest => if c.isAlpha then ([c, ':', '/'], rest) else ([], body)
  | _ => ([], body)

def dotdot : Text := ['.', '.']

/-- One segment; the last one comes first. -/
def flattenSegment (out : List Text) (segment : Text) : List Text :=
  if segment = [] ∨ segment = ['.'] then out
  else if segment = dotdot then
    match out with
    | last :: rest => if last ≠ dotdot then rest else dotdot :: out
    | [] => [dotdot]
  else segment :: out

/-- The segments without `.` and, as far as there is something to leave, without `..`. -/
def flatten (rest : Text) : List Text := ((rest.splitOn '/').foldl flattenSegment []).reverse

/-- A trailing slash is taken off, except behind a drive. -/
def tidy (s : Text) : Text :=
  if s.getLast? = some '/' ∧ s.dropLast.getLast? ≠ some ':' ∧ 1 < s.length then s.dropLast else s

/-- Slashes only, and single ones but for those in front of a server. -/
def collapsed (body : Text) : Text :=
  match slashed body with
  | '/' :: '/' :: rest => '/' :: '/' :: collapse false rest
  | s => collapse false s

/-- `normalise_body` -/
def normaliseBody (body : Text) : Text :=
  let r := splitAnchor (collapsed body)
  tidy (r.1 ++ ['/'].intercalate (flatten r.2))

/-! ### Paths -/

/-- `FsPath` -/
@[ext]
structure FsPath where
  text : Text
  deriving DecidableEq

def schemeLocal : Text := ['l', 'o', 'c', 'a', 'l']

def schemeArchive : Text := ['a', 'r', 'c', 'h', 'i', 'v', 'e']

/-- The characters of a scheme. -/
def schemeChar (c : Char) : Bool := c.isLower || c.isDigit || c == '_' || c == '-'

namespace FsPath

/-- A scheme and a body. -/
def of (scheme body : Text) : FsPath := ⟨scheme ++ ':' :: body⟩

/-- `FsPath::new` -/
def new (raw : Text) : Except FsError FsPath :=
  match splitOnce ':' raw with
  | none => .error (.invalidPath ("missing scheme: ".toList ++ raw))
  | some (scheme, body) =>
    if scheme = [] ∨ scheme.all schemeChar = false then
      .error (.invalidPath ("invalid scheme `".toList ++ scheme ++ "` in ".toList ++ raw))
    else
      match splitOnce '#' body with
      | some (main, tail) => .ok (of scheme (normaliseBody main ++ '#' :: tail))
      | none => .ok (of scheme (normaliseBody body))

/-- `scheme` -/
def scheme (p : FsPath) : Text := before ':' p.text

/-- `without_scheme` -/
def withoutScheme (p : FsPath) : Text :=
  match splitOnce ':' p.text with
  | some (_, body) => body
  | none => p.text

/-- `archive_parts` -/
def archiveParts (p : FsPath) : Option (Text × Text) :=
  if p.scheme = schemeArchive then some ((splitOnce '#' p.text).getD (p.text, [])) else none

/-- `parent` outside of archives. -/
def plainParent (p : FsPath) : Option FsPath :=
  (rsplitOnce '/' (trimEndSlashes (before '#' p.withoutScheme))).map fun r =>
    of p.scheme
      (if r.1 = [] then ['/'] else if r.1.getLast? = some ':' then r.1 ++ ['/'] else r.1)

/-- `archive_parent` -/
def archiveParent (p : FsPath) : Option FsPath := do
  let (outer, inner) ← p.archiveParts
  let outerBody ← dropStart? outer (schemeArchive ++ [':'])
  let trimmed := trimEndSlashes inner
  if trimmed = [] then
    let q ← (new (schemeLocal ++ ':' :: outerBody)).toOption
    q.plainParent
  else
    match rsplitOnce '/' trimmed with
    | some (front, _) => (new (schemeArchive ++ ':' :: (outerBody ++ '#' :: front))).toOption
    | none => (new (schemeArchive ++ ':' :: (outerBody ++ ['#']))).toOption

/-- `parent` -/
def parent (p : FsPath) : Option FsPath :=
  if p.scheme = schemeArchive then p.archiveParent else p.plainParent

/-- The last segment of a text. -/
def lastSegment (s : Text) : Text := ((rsplitOnce '/' s).map Prod.snd).getD s

/-- `file_name` -/
def fileName (p : FsPath) : Option Text :=
  if p.scheme = schemeArchive then
    let trimmed := trimEndSlashes ((p.archiveParts.map Prod.snd).getD [])
    if trimmed ≠ [] then some (lastSegment trimmed)
    else (some (lastSegment (before '#' p.withoutScheme))).filter (· ≠ [])
  else
    let trimmed := trimEndSlashes (before '#' p.withoutScheme)
    if trimmed = [] then none
    else
      match rsplitOnce '/' trimmed with
      | some (_, tail) => if tail = [] then none else some tail
      | none => some trimmed

/-- A segment behind a body. -/
def joinBody (body segment : Text) : Text :=
  (if body = [] then [] else if body.getLast? = some '/' then body else body ++ ['/']) ++
    trimStartSlashes segment

/-- `join` outside of archives. -/
def plainJoin (p : FsPath) (segment : Text) : FsPath :=
  match new (p.scheme ++ ':' :: joinBody p.withoutScheme segment) with
  | .ok q => q
  | .error _ => p

/-- `join` -/
def join (p : FsPath) (segment : Text) : FsPath :=
  match p.archiveParts with
  | some (outer, inner) =>
    let outerBody := (dropStart? outer (schemeArchive ++ [':'])).getD outer
    match new (schemeArchive ++ ':' :: (outerBody ++ '#' :: joinBody inner segment)) with
    | .ok q => q
    | .error _ => p.plainJoin segment
  | none => p.plainJoin segment

/-- `from_local` -/
def fromLocal (native : Text) : Except FsError FsPath :=
  match slashed native with
  | first :: rest =>
    if first.isAlpha then new (schemeLocal ++ ':' :: first.toLower :: rest)
    else new (schemeLocal ++ ':' :: first :: rest)
  | [] => new (schemeLocal ++ [':'])

/-- `to_local` -/
def toLocal (p : FsPath) : Except FsError Text :=
  if p.scheme = schemeLocal then .ok p.withoutScheme
  else .error (.invalidPath ("not a local path: ".toList ++ p.text))

end FsPath

end Orchid.Fs
