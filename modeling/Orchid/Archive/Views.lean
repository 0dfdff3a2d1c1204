import Mathlib.Data.List.Infix
import Orchid.Archive.Extraction

/-!
# Listing, reading and extracting

The three walks over an archive choose between entries differently: a zip archive is read by the
exact name of an entry, a tar archive at the first entry of a path, and what extraction leaves at a
path is its last file. Some files cannot be written at all: a directory or a file is in the way, or
the name ends as that of a directory.
-/

namespace Orchid.Archive

open Fs

/-! ### The disk -/

inductive Node
  | dir
  | file (bytes : Bytes)

/-- What there is at the places; there are no links. -/
abbrev Disk := LocalPath → Option Node

def Node.isDir : Option Node → Bool
  | some .dir => true
  | _ => false

/-- The bytes of the file at a place. -/
def fileAt (disk : Disk) (p : LocalPath) : Option Bytes :=
  match disk p with
  | some (.file bytes) => some bytes
  | _ => none

/-- The first path is the second one or a directory over it. -/
def above (q p : LocalPath) : Bool :=
  q.pre = p.pre ∧ q.rooted = p.rooted ∧ q.comps <+: p.comps

/-- A file is there, at the path or over it. -/
def fileOver (there : LocalPath → Bool) (p : LocalPath) : Bool :=
  p.comps.inits.any fun cs => there { p with comps := cs }

/-- The directories at a path and over it. -/
def makeDirs (disk : Disk) (p : LocalPath) : Disk :=
  fun q => if above q p then some .dir else disk q

section Writing

variable (names : Text → Option Text)

/-- Where a path leads. The file system says for which entry of a directory a name stands; it may
take two names for the same, and refuse a name. -/
def place (p : LocalPath) : Option LocalPath :=
  (p.comps.mapM names).map fun cs => { p with comps := cs }

/-- `create_dir_all` fails at a file, and `File::create` at a directory. -/
def Write.apply (disk : Disk) : Write → Option Disk
  | .createDirAll p dot => (place names p).bind fun p =>
    if fileOver (fun q => (fileAt disk q).isSome) p || dot && !Node.isDir (disk p) then none
    else some (makeDirs disk p)
  | .file p named bytes => (place names p).bind fun p =>
    if named && !Node.isDir (disk p) then some (Function.update disk p (some (.file bytes)))
    else none

/-- The first step that fails is the last one; it leaves the files as they are. -/
def runWrites : Disk → List Write → Disk
  | disk, [] => disk
  | disk, w :: ws =>
    match w.apply names disk with
    | some disk' => runWrites disk' ws
    | none => disk

end Writing

section Disks

variable {names : Text → Option Text} {disk : Disk} {p q : LocalPath}

lemma above_iff : above q p = true ↔ q.pre = p.pre ∧ q.rooted = p.rooted ∧ q.comps <+: p.comps :=
  decide_eq_true_iff

lemma above_parent {dir : LocalPath} (hdir : p.parent = some dir) :
    above q dir = true ↔ above q p = true ∧ q ≠ p := by
  rw [LocalPath.parent] at hdir
  split_ifs at hdir with hnil
  obtain rfl := Option.some.inj hdir
  obtain ⟨cs, c, hcs⟩ := (List.eq_nil_or_concat' p.comps).resolve_left hnil
  have hne : q.pre = p.pre → q.rooted = p.rooted → (q ≠ p ↔ q.comps ≠ p.comps) := by
    intro hpre hroot
    refine not_congr ⟨congrArg LocalPath.comps, fun hcomps => ?_⟩
    cases q
    cases p
    simp_all
  rw [above_iff, above_iff, and_assoc, and_assoc]
  refine and_congr_right fun hpre => and_congr_right fun hroot => ?_
  rw [hne hpre hroot, hcs, List.dropLast_concat]
  constructor
  · intro hpref
    refine ⟨hpref.trans (List.prefix_append _ _), fun heq => ?_⟩
    have hlen := hpref.length_le
    rw [heq, List.length_append, List.length_singleton] at hlen
    exact absurd hlen (Nat.not_succ_le_self _)
  · rintro ⟨hpref, hne⟩
    exact (List.prefix_concat_iff.mp hpref).resolve_left hne

lemma above_of_parent_none (h : p.parent = none) (habove : above q p = true) : q = p := by
  rw [LocalPath.parent] at h
  split_ifs at h with hnil
  obtain ⟨hpre, hroot, hcomps⟩ := above_iff.mp habove
  rw [hnil, List.prefix_nil] at hcomps
  cases q
  cases p
  simp_all

/-- The directory over a path leads to the one over its place. -/
lemma place_parent (h : place names p = some q) :
    p.parent.map (place names) = q.parent.map some := by
  obtain ⟨cs, hcs, rfl⟩ := Option.map_eq_some_iff.mp h
  unfold LocalPath.parent
  rcases List.eq_nil_or_concat' p.comps with hnil | ⟨front, last, hp⟩
  · rw [hnil] at hcs
    obtain rfl : [] = cs := Option.some.inj hcs
    rw [if_pos hnil]
    rfl
  · rw [hp, List.mapM_append] at hcs
    obtain ⟨fs, hfs, hrest⟩ := Option.bind_eq_some_iff.mp hcs
    obtain ⟨ls, hls, hcs⟩ := Option.bind_eq_some_iff.mp hrest
    obtain rfl : fs ++ ls = cs := Option.some.inj hcs
    rw [List.mapM_cons] at hls
    obtain ⟨l, -, hl⟩ := Option.bind_eq_some_iff.mp hls
    obtain rfl : [l] = ls := Option.some.inj hl
    rw [if_neg (by simp [hp]), if_neg (by simp), Option.map_some, Option.map_some, place]
    dsimp only
    rw [hp, List.dropLast_concat, List.dropLast_concat, hfs]
    rfl

lemma fileOver_eq_false_iff {there : LocalPath → Bool} :
    fileOver there p = false ↔ ∀ q, above q p = true → there q = false := by
  rw [fileOver, List.any_eq_false]
  constructor
  · intro h q hq
    obtain ⟨hpre, hroot, hcomps⟩ := above_iff.mp hq
    have hq := h q.comps ((List.mem_inits _ _).mpr hcomps)
    rw [← hpre, ← hroot] at hq
    exact Bool.eq_false_iff.mpr hq
  · exact fun h cs hcs =>
      Bool.eq_false_iff.mp (h _ (above_iff.mpr ⟨rfl, rfl, (List.mem_inits _ _).mp hcs⟩))

lemma fileAt_makeDirs (h : fileOver (fun q => (fileAt disk q).isSome) p = false) :
    fileAt (makeDirs disk p) = fileAt disk := by
  funext q
  unfold makeDirs
  by_cases hq : above q p = true
  · have hnone := fileOver_eq_false_iff.mp h q hq
    rw [Option.isSome_eq_false_iff, Option.isNone_iff_eq_none] at hnone
    rw [hnone]
    simp [fileAt, hq]
  · simp [fileAt, hq]

lemma isDir_makeDirs : Node.isDir (makeDirs disk p q) = (above q p || Node.isDir (disk q)) := by
  unfold makeDirs
  cases above q p <;> rfl

lemma fileAt_update {bytes : Bytes} :
    fileAt (Function.update disk p (some (.file bytes))) q =
      if q = p then some bytes else fileAt disk q := by
  unfold fileAt
  rw [Function.update_apply]
  split_ifs <;> rfl

lemma isDir_update {bytes : Bytes} (h : Node.isDir (disk p) = false) :
    Node.isDir (Function.update disk p (some (.file bytes)) q) = Node.isDir (disk q) := by
  rw [Function.update_apply]
  split_ifs with hq
  · rw [hq, h]
    rfl
  · rfl

lemma runWrites_none {w : Write} {ws : List Write} (h : w.apply names disk = none) :
    runWrites names disk (w :: ws) = disk := by
  rw [runWrites, h]

lemma runWrites_some {w : Write} {ws : List Write} {disk' : Disk}
    (h : w.apply names disk = some disk') :
    runWrites names disk (w :: ws) = runWrites names disk' ws := by
  rw [runWrites, h]

/-- Making directories changes no file, whether it fails or not. -/
lemma fileAt_createDirAll {dot : Bool} {ws : List Write}
    (hws : ∀ disk', fileAt disk' = fileAt disk →
      fileAt (runWrites names disk' ws) = fileAt disk) :
    fileAt (runWrites names disk (.createDirAll p dot :: ws)) = fileAt disk := by
  cases happly : (Write.createDirAll p dot).apply names disk with
  | none => rw [runWrites_none happly]
  | some disk' =>
    rw [runWrites_some happly]
    obtain ⟨q, -, hq⟩ := Option.bind_eq_some_iff.mp happly
    split_ifs at hq with hin
    obtain ⟨hover, -⟩ := Bool.or_eq_false_iff.mp (Bool.not_eq_true _ ▸ hin)
    exact hws _ (Option.some.inj hq ▸ fileAt_makeDirs hover)

end Disks

/-! ### What is in the way of an entry -/

section Entries

variable (names : Text → Option Text) (pl : Platform) (target : LocalPath)

/-- Where an entry goes, if it is not rejected and the file system takes the name. -/
def Entry.place (e : Entry) : Option LocalPath :=
  (sanitiseEntryPath e.name).bind fun safe => Archive.place names (join pl target safe)

variable (disk : Disk) (earlier : List Entry)

/-- The file at a place behind some entries: the last of them that goes there, or what was there. -/
def left (p : LocalPath) : Option Bytes :=
  ((earlier.filter fun e => !e.isDir && e.place names pl target = some p).getLast?.map
    Entry.data).or (fileAt disk p)

/-- A directory is at a place: it was, or one of the entries needs it. -/
def dirThere (q : LocalPath) : Bool :=
  Node.isDir (disk q) ||
    earlier.any fun e => (e.place names pl target).any fun p => above q p && (e.isDir || q ≠ p)

/-- Nothing is in the way of an entry behind some others: no file of a directory, and no directory
of a file, whose name must be that of one. -/
def Entry.fits (e : Entry) : Bool :=
  let fileThere := fun q => (left names pl target disk earlier q).isSome
  match sanitiseEntryPath e.name with
  | none => true
  | some safe => (e.place names pl target).any fun p =>
    if e.isDir then
      !fileOver fileThere p && (!endsInDot pl safe || dirThere names pl target disk earlier p)
    else
      p.parent.all (fun dir => !fileOver fileThere dir) && namesFile pl safe &&
        !dirThere names pl target disk earlier p

/-- The entries in front of the first one that something is in the way of. -/
def reached (earlier : List Entry) : List Entry → List Entry
  | [] => []
  | e :: es => if e.fits names pl target disk earlier then e :: reached (earlier ++ [e]) es else []

/-- The disk holds what the entries have left. -/
structure Holds (earlier : List Entry) (now : Disk) : Prop where
  file : ∀ p, fileAt now p = left names pl target disk earlier p
  dir : ∀ p, Node.isDir (now p) = dirThere names pl target disk earlier p

end Entries

section Runs

variable {names : Text → Option Text} {pl : Platform} {target : LocalPath} {disk now : Disk}
  {earlier : List Entry} {e : Entry} {p q : LocalPath}

lemma left_concat : left names pl target disk (earlier ++ [e]) p =
    if !e.isDir && e.place names pl target = some p then some e.data
    else left names pl target disk earlier p := by
  rw [left, List.filter_append, List.getLast?_append, List.filter_singleton]
  cases !e.isDir && decide (e.place names pl target = some p) <;> rfl

lemma dirThere_concat : dirThere names pl target disk (earlier ++ [e]) q =
    (dirThere names pl target disk earlier q ||
      (e.place names pl target).any fun p => above q p && (e.isDir || q ≠ p)) := by
  rw [dirThere, List.any_append, ← Bool.or_assoc, List.any_cons, List.any_nil, Bool.or_false]
  rfl

lemma Entry.extract_eq {safe : Text} (hsafe : sanitiseEntryPath e.name = some safe) :
    e.extract pl target = e.write pl (join pl target safe) safe := by
  rw [Entry.extract, hsafe]

lemma Entry.place_eq {safe : Text} (hsafe : sanitiseEntryPath e.name = some safe) :
    e.place names pl target = Archive.place names (join pl target safe) := by
  rw [Entry.place, hsafe]
  rfl

/-- Nothing is extracted for a name that is rejected. -/
lemma Holds.rejected (h : Holds names pl target disk earlier now)
    (hsafe : sanitiseEntryPath e.name = none) :
    Holds names pl target disk (earlier ++ [e]) now := by
  have hplace : e.place names pl target = none := by rw [Entry.place, hsafe]; rfl
  refine ⟨fun p => ?_, fun p => ?_⟩
  · rw [left_concat, hplace, h.file]
    simp
  · rw [dirThere_concat, hplace, h.dir]
    simp

lemma Holds.fileOver (h : Holds names pl target disk earlier now) (p : LocalPath) :
    fileOver (fun q => (fileAt now q).isSome) p =
      fileOver (fun q => (left names pl target disk earlier q).isSome) p :=
  congrArg (Archive.fileOver · p) (funext fun q => by rw [h.file])

lemma Entry.fits_dir {safe : Text} (hsafe : sanitiseEntryPath e.name = some safe)
    (hplace : e.place names pl target = some p) (hdir : e.isDir = true) :
    e.fits names pl target disk earlier =
      (!Archive.fileOver (fun q => (left names pl target disk earlier q).isSome) p &&
        (!endsInDot pl safe || dirThere names pl target disk earlier p)) := by
  rw [Entry.fits, hsafe, hplace]
  simp only [Option.any_some, if_pos hdir]

lemma Entry.fits_file {safe : Text} (hsafe : sanitiseEntryPath e.name = some safe)
    (hplace : e.place names pl target = some p) (hdir : e.isDir = false) :
    e.fits names pl target disk earlier =
      (p.parent.all (fun dir =>
          !Archive.fileOver (fun q => (left names pl target disk earlier q).isSome) dir) &&
        namesFile pl safe && !dirThere names pl target disk earlier p) := by
  rw [Entry.fits, hsafe, hplace]
  simp only [Option.any_some, hdir, Bool.false_eq_true, if_false]

/-- Nothing is extracted where the file system does not take the name. -/
lemma Entry.refused {safe : Text} (hsafe : sanitiseEntryPath e.name = some safe)
    (hplace : e.place names pl target = none) (ws : List Write) :
    e.fits names pl target disk earlier = false ∧
      fileAt (runWrites names now (e.extract pl target ++ ws)) = fileAt now := by
  rw [Entry.place_eq hsafe] at hplace
  have hnone (dot : Bool) :
      (Write.createDirAll (join pl target safe) dot).apply names now = none := by
    rw [Write.apply, hplace]
    rfl
  refine ⟨by rw [Entry.fits, hsafe, Entry.place_eq hsafe, hplace]; rfl, ?_⟩
  rw [Entry.extract_eq hsafe, Entry.write]
  split_ifs with hdir
  · exact congrArg fileAt (runWrites_none (hnone _))
  · have hfile (disk : Disk) (ws : List Write) : runWrites names disk
        (.file (join pl target safe) (namesFile pl safe) e.data :: ws) = disk :=
      runWrites_none (by rw [Write.apply, hplace]; rfl)
    rw [writeFile]
    cases (join pl target safe).parent with
    | none => exact congrArg fileAt (hfile now ws)
    | some dir =>
      refine fileAt_createDirAll fun disk' hdisk' => ?_
      exact (congrArg fileAt (hfile disk' ws)).trans hdisk'

/-- A directory is made unless something is in its way. -/
lemma Holds.extract_dir (h : Holds names pl target disk earlier now) {safe : Text}
    (hsafe : sanitiseEntryPath e.name = some safe) (hplace : e.place names pl target = some p)
    (hdir : e.isDir = true) (ws : List Write) :
    (e.fits names pl target disk earlier = false ∧
      fileAt (runWrites names now (e.extract pl target ++ ws)) = fileAt now) ∨
    (e.fits names pl target disk earlier = true ∧
      ∃ now', runWrites names now (e.extract pl target ++ ws) = runWrites names now' ws ∧
        Holds names pl target disk (earlier ++ [e]) now') := by
  have hwrite : e.extract pl target ++ ws =
      .createDirAll (join pl target safe) (endsInDot pl safe) :: ws := by
    rw [Entry.extract_eq hsafe, Entry.write, if_pos hdir]
    rfl
  have happly : (Write.createDirAll (join pl target safe) (endsInDot pl safe)).apply names now =
      if e.fits names pl target disk earlier then some (makeDirs now p) else none := by
    rw [Write.apply, ← Entry.place_eq hsafe, hplace, Option.bind_some, h.fileOver, h.dir,
      Entry.fits_dir hsafe hplace hdir]
    generalize Archive.fileOver _ p = blocked
    cases blocked <;> cases endsInDot pl safe <;>
      cases dirThere names pl target disk earlier p <;> rfl
  rw [hwrite]
  cases hfits : e.fits names pl target disk earlier with
  | false => exact .inl ⟨rfl, congrArg fileAt (runWrites_none (by rw [happly, hfits]; rfl))⟩
  | true =>
    have hover : Archive.fileOver (fun q => (fileAt now q).isSome) p = false := by
      rw [Entry.fits_dir hsafe hplace hdir, Bool.and_eq_true, Bool.not_eq_true'] at hfits
      exact (h.fileOver p).trans hfits.1
    refine .inr ⟨rfl, makeDirs now p, runWrites_some (by rw [happly, hfits]; rfl), fun q => ?_,
      fun q => ?_⟩
    · rw [fileAt_makeDirs hover, left_concat, hdir, h.file]
      rfl
    · rw [isDir_makeDirs, dirThere_concat, hplace, h.dir, hdir]
      simp [Bool.or_comm]

/-- The directory of a file is made unless a file is in its way. -/
lemma Holds.makeParent (h : Holds names pl target disk earlier now) {dest : LocalPath}
    (hdest : Archive.place names dest = some p) (ws : List Write) :
    (p.parent.all (fun dir =>
        !Archive.fileOver (fun q => (left names pl target disk earlier q).isSome) dir) = false ∧
      fileAt (runWrites names now
        ((dest.parent.map fun p => .createDirAll p false).toList ++ ws)) = fileAt now) ∨
    (p.parent.all (fun dir =>
        !Archive.fileOver (fun q => (left names pl target disk earlier q).isSome) dir) = true ∧
      ∃ now', runWrites names now
          ((dest.parent.map fun p => .createDirAll p false).toList ++ ws) =
            runWrites names now' ws ∧ fileAt now' = fileAt now ∧
        ∀ q, Node.isDir (now' q) = (Node.isDir (now q) || above q p && decide (q ≠ p))) := by
  have hparent := place_parent hdest
  cases hdir : dest.parent with
  | none =>
    rw [hdir] at hparent
    have hnone : p.parent = none := Option.map_eq_none_iff.mp hparent.symm
    refine .inr ⟨by rw [hnone]; rfl, now, rfl, rfl, fun q => ?_⟩
    cases habove : above q p with
    | false => simp
    | true => simp [above_of_parent_none hnone habove]
  | some dir =>
    rw [hdir] at hparent
    obtain ⟨d, hd, hplace⟩ := Option.map_eq_some_iff.mp hparent.symm
    have happly : (Write.createDirAll dir false).apply names now =
        if Archive.fileOver (fun q => (left names pl target disk earlier q).isSome) d then none
        else some (makeDirs now d) := by
      rw [Write.apply, ← hplace, Option.bind_some, h.fileOver, Bool.false_and, Bool.or_false]
    rw [hd, Option.all_some]
    cases hover : Archive.fileOver (fun q => (left names pl target disk earlier q).isSome) d with
    | true => exact .inl ⟨rfl, congrArg fileAt (runWrites_none (by rw [happly, hover]; rfl))⟩
    | false =>
      refine .inr ⟨rfl, makeDirs now d, runWrites_some (by rw [happly, hover]; rfl),
        fileAt_makeDirs ((h.fileOver d).trans hover), fun q => ?_⟩
      rw [isDir_makeDirs, Bool.or_comm]
      congr 1
      rw [Bool.eq_iff_iff, above_parent hd, Bool.and_eq_true, decide_eq_true_iff]

/-- A file is written unless something is in its way. -/
lemma Holds.extract_file (h : Holds names pl target disk earlier now) {safe : Text}
    (hsafe : sanitiseEntryPath e.name = some safe) (hplace : e.place names pl target = some p)
    (hdir : e.isDir = false) (ws : List Write) :
    (e.fits names pl target disk earlier = false ∧
      fileAt (runWrites names now (e.extract pl target ++ ws)) = fileAt now) ∨
    (e.fits names pl target disk earlier = true ∧
      ∃ now', runWrites names now (e.extract pl target ++ ws) = runWrites names now' ws ∧
        Holds names pl target disk (earlier ++ [e]) now') := by
  have hdest : Archive.place names (join pl target safe) = some p :=
    (Entry.place_eq hsafe).symm.trans hplace
  rw [Entry.extract_eq hsafe, Entry.write, if_neg (by simp [hdir]), writeFile, List.append_assoc,
    Entry.fits_file hsafe hplace hdir]
  rcases h.makeParent hdest ([.file (join pl target safe) (namesFile pl safe) e.data] ++ ws) with
    ⟨hover, hfiles⟩ | ⟨hover, now', hrun, hfiles, hdirs⟩
  · exact .inl ⟨by rw [hover]; rfl, hfiles⟩
  · have hnot : Node.isDir (now' p) = dirThere names pl target disk earlier p := by
      rw [hdirs, h.dir, decide_eq_false (not_not.mpr rfl), Bool.and_false, Bool.or_false]
    have happly : (Write.file (join pl target safe) (namesFile pl safe) e.data).apply names now' =
        if namesFile pl safe && !dirThere names pl target disk earlier p then
          some (Function.update now' p (some (.file e.data))) else none := by
      rw [Write.apply, hdest, Option.bind_some, hnot]
    rw [hrun, hover, Bool.true_and]
    cases hfree : namesFile pl safe && !dirThere names pl target disk earlier p with
    | false =>
      refine .inl ⟨rfl, ?_⟩
      rw [List.singleton_append, runWrites_none (by rw [happly, hfree]; rfl), hfiles]
    | true =>
      have hfalse : Node.isDir (now' p) = false := by
        rw [hnot]
        exact Bool.not_eq_true' _ ▸ (Bool.and_eq_true _ _ ▸ hfree).2
      refine .inr ⟨rfl, _, runWrites_some (by rw [happly, hfree]; rfl), fun q => ?_, fun q => ?_⟩
      · rw [fileAt_update, left_concat, hplace, hdir, hfiles, h.file]
        simp [eq_comm]
      · rw [isDir_update hfalse, hdirs, dirThere_concat, hplace, hdir, h.dir]
        rfl

/-- What the entries leave is what those leave that are reached. -/
lemma Holds.fileAt_runWrites (h : Holds names pl target disk earlier now) (es : List Entry)
    (p : LocalPath) :
    fileAt (runWrites names now (es.flatMap (Entry.extract pl target))) p =
      left names pl target disk (earlier ++ reached names pl target disk earlier es) p := by
  induction es generalizing earlier now with
  | nil =>
    rw [reached, List.append_nil]
    exact h.file p
  | cons e es ih =>
    rw [List.flatMap_cons, reached]
    have hstep : (e.fits names pl target disk earlier = false ∧
        fileAt (runWrites names now (e.extract pl target ++ es.flatMap (Entry.extract pl target))) =
          fileAt now) ∨
        (e.fits names pl target disk earlier = true ∧
          ∃ now', runWrites names now
            (e.extract pl target ++ es.flatMap (Entry.extract pl target)) =
              runWrites names now' (es.flatMap (Entry.extract pl target)) ∧
            Holds names pl target disk (earlier ++ [e]) now') := by
      cases hsafe : sanitiseEntryPath e.name with
      | none =>
        refine .inr ⟨by rw [Entry.fits, hsafe], now, ?_, h.rejected hsafe⟩
        rw [Entry.extract, hsafe]
        rfl
      | some safe =>
        cases hplace : e.place names pl target with
        | none => exact .inl (e.refused hsafe hplace _)
        | some p =>
          cases hdir : e.isDir with
          | true => exact h.extract_dir hsafe hplace hdir _
          | false => exact h.extract_file hsafe hplace hdir _
    rcases hstep with ⟨hfits, hfiles⟩ | ⟨hfits, now', hrun, hholds⟩
    · rw [hfits, hfiles, if_neg Bool.false_ne_true, List.append_nil]
      exact h.file p
    · rw [hfits, if_pos rfl, hrun, ih hholds, List.append_assoc]
      rfl

lemma holds_start : Holds names pl target disk [] disk where
  file _ := rfl
  dir _ := (Bool.or_false _).symm

end Runs

/-! ### Agreement -/

structure ArchiveEntry where
  path : Text
  size : ℕ
  isDir : Bool
  deriving DecidableEq

namespace ArchiveReader

/-- `list`; entries whose name is rejected are left out. -/
def list (a : ArchiveReader) : List ArchiveEntry :=
  a.entries.filterMap fun e =>
    (sanitiseEntryPath e.name).map fun path => ⟨path, e.data.length, e.isDir⟩

/-- The entries that are extracted one by one; the destination of a 7z archive counts as one. -/
def unpacked : ArchiveReader → List Entry
  | .zip z => z.entries
  | .tar entries => entries
  | .sevenZ entries => ⟨[], true, []⟩ :: entries

/-- The path under the destination that is spelled by a listed one. -/
def under (pl : Platform) (target : LocalPath) (path : Text) : LocalPath :=
  { target with comps := target.comps ++ components pl path }

/-- The entry that is read for a path: the one of that name in a zip archive, and the first one of
that path, not counting directories in a 7z archive, in others. -/
def chosen : ArchiveReader → Text → Option Entry
  | .zip z, path => z.byName path
  | .tar entries, path => entries.find? fun e => sanitiseEntryPath e.name = some path
  | .sevenZ entries, path =>
    entries.find? fun e => sanitiseEntryPath e.name = some path ∧ e.isDir = false

section Views

variable (a : ArchiveReader) (names : Text → Option Text) (pl : Platform) (target : LocalPath)
  (disk : Disk)

/-- The disk after `extract_all`. -/
def extracted : Disk := runWrites names disk (a.extractAll pl target)

/-- Every listed file can be read, and extraction leaves the bytes that are read. -/
def ViewsAgree : Prop :=
  ∀ listed ∈ a.list, listed.isDir = false → ∃ bytes, a.readEntry listed.path = .ok bytes ∧
    namesFile pl listed.path = true ∧
    (place names (under pl target listed.path)).bind
      (fileAt (a.extracted names pl target disk)) = some bytes

/-- The last of the entries that goes to the place of a path, of those in front of the first one
that something is in the way of, has the bytes of the entry which is read for the path. -/
def LastIsChosen (path : Text) : Prop :=
  namesFile pl path = true ∧ ∃ e, a.chosen path = some e ∧
    (place names (under pl target path)).bind
      (left names pl target disk (reached names pl target disk [] a.unpacked)) = some e.data

end Views

variable {a : ArchiveReader} {names : Text → Option Text} {pl : Platform} {target : LocalPath}
  {disk : Disk}

lemma extractAll_eq :
    a.extractAll pl target = a.unpacked.flatMap (Entry.extract pl target) := by
  cases a with
  | zip z => rfl
  | tar entries => rfl
  | sevenZ entries =>
    have hjoin : join pl target [] = target := by
      cases pl <;> simp [join, parsePath, splitPrefix, components]
    have hfirst : Entry.extract pl target ⟨[], true, []⟩ = [.createDirAll target false] := by
      have hsafe : sanitiseEntryPath [] = some [] := rfl
      rw [Entry.extract_eq hsafe, Entry.write, if_pos rfl, hjoin]
      cases pl <;> rfl
    rw [unpacked, List.flatMap_cons, hfirst]
    rfl

lemma fileAt_extracted : fileAt (a.extracted names pl target disk) =
    left names pl target disk (reached names pl target disk [] a.unpacked) := by
  funext p
  rw [extracted, extractAll_eq]
  exact holds_start.fileAt_runWrites _ p

/-- A listed path is read from the entry that is chosen. -/
lemma readEntry_eq_ok_iff {raw path : Text} (h : sanitiseEntryPath raw = some path)
    {bytes : Bytes} :
    a.readEntry path = .ok bytes ↔ ∃ e, a.chosen path = some e ∧ e.data = bytes := by
  cases a with
  | zip z =>
    rw [readEntry, ZipArchive.readEntry, chosen]
    cases hname : z.byName path with
    | none => simp
    | some e =>
      have hsafe : (sanitiseEntryPath e.name).isNone = false := by
        rw [(z.sound path e hname).2, sanitise_sanitised h]
        rfl
      simp [hsafe]
  | tar entries =>
    rw [readEntry, readTarEntry, chosen]
    cases entries.find? fun e => sanitiseEntryPath e.name = some path <;> simp
  | sevenZ entries =>
    rw [readEntry, readSevenZEntry, chosen]
    cases entries.find? fun e => sanitiseEntryPath e.name = some path ∧ e.isDir = false <;> simp

/-- The views agree exactly if, for every listed file, the last entry that can be written at its
path has the bytes of the entry that is read for it. -/
theorem viewsAgree_iff_lastIsChosen (a : ArchiveReader) (names : Text → Option Text)
    (pl : Platform) (target : LocalPath) (disk : Disk) :
    a.ViewsAgree names pl target disk ↔ ∀ listed ∈ a.list, listed.isDir = false →
      a.LastIsChosen names pl target disk listed.path := by
  refine forall₃_congr fun listed hlisted _ => ?_
  obtain ⟨e, -, he⟩ := List.mem_filterMap.mp hlisted
  obtain ⟨path, hpath, rfl⟩ := Option.map_eq_some_iff.mp he
  simp only [readEntry_eq_ok_iff hpath, fileAt_extracted, LastIsChosen]
  constructor
  · rintro ⟨bytes, ⟨e, hchosen, rfl⟩, hnamed, hlast⟩
    exact ⟨hnamed, e, hchosen, hlast⟩
  · rintro ⟨hnamed, e, hchosen, hlast⟩
    exact ⟨e.data, ⟨e, hchosen, rfl⟩, hnamed, hlast⟩

/-- A tar archive with two files of one name. -/
theorem not_viewsAgree : ¬ ∀ (a : ArchiveReader) (pl : Platform) (target : LocalPath),
    a.ViewsAgree some pl target fun p => if above p target then some .dir else none := by
  intro h
  obtain ⟨bytes, hread, -, hdisk⟩ := h
    (.tar [⟨"a".toList, false, [1]⟩, ⟨"a".toList, false, [2]⟩]) .unix ⟨none, true, []⟩
    ⟨"a".toList, 1, false⟩ (by decide) rfl
  have hone : Except.ok [1] = (Except.ok bytes : Except ArchiveError Bytes) := hread
  obtain rfl := Except.ok.inj hone
  revert hdisk
  decide

end ArchiveReader

end Orchid.Archive
