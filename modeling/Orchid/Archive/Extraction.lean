import Orchid.Archive.Names

/-!
# Extraction

What is written when an archive is extracted, in whole or in part. Under the rules of Unix all of it
is inside of the destination; under those of Windows a name with a drive leads out of it.
-/

namespace Orchid.Archive

open Fs

/-! ### Archives -/

structure Entry where
  name : Text
  isDir : Bool
  data : Bytes
  deriving DecidableEq

/-- A zip archive as its library shows it: the entries by their index, and one for each name. -/
structure ZipArchive where
  entries : List Entry
  byName : Text → Option Entry
  sound : ∀ name e, byName name = some e → e ∈ entries ∧ e.name = name
  complete : ∀ e ∈ entries, (byName e.name).isSome = true

/-- The archives that are read without another program. -/
inductive ArchiveReader
  | zip (z : ZipArchive)
  | tar (entries : List Entry)
  | sevenZ (entries : List Entry)

/-- `FsError` -/
inductive ArchiveError
  | archiveEntryNotFound (name : Text)
  | corruptArchive (reason : Text)
  deriving DecidableEq

/-- `read_entry_sync` of `zip.rs` -/
def ZipArchive.readEntry (z : ZipArchive) (inner : Text) : Except ArchiveError Bytes :=
  match z.byName inner with
  | none => .error (.archiveEntryNotFound inner)
  | some e =>
    if (sanitiseEntryPath e.name).isNone then
      .error (.corruptArchive ("path traversal in archive entry: ".toList ++ e.name))
    else .ok e.data

/-- `read_tar_entry` -/
def readTarEntry (entries : List Entry) (target : Text) : Except ArchiveError Bytes :=
  match entries.find? fun e => sanitiseEntryPath e.name = some target with
  | some e => .ok e.data
  | none => .error (.archiveEntryNotFound target)

/-- `read_entry_sync` of `sevenz.rs` -/
def readSevenZEntry (entries : List Entry) (target : Text) : Except ArchiveError Bytes :=
  match entries.find? fun e => sanitiseEntryPath e.name = some target ∧ e.isDir = false with
  | some e => .ok e.data
  | none => .error (.archiveEntryNotFound target)

namespace ArchiveReader

def entries : ArchiveReader → List Entry
  | .zip z => z.entries
  | .tar entries | .sevenZ entries => entries

def readEntry : ArchiveReader → Text → Except ArchiveError Bytes
  | .zip z => z.readEntry
  | .tar entries => readTarEntry entries
  | .sevenZ entries => readSevenZEntry entries

end ArchiveReader

/-! ### Writing -/

/-- The text ends in a dot that stands for the directory in front of it. Windows takes such a dot
away before it looks. -/
def endsInDot (pl : Platform) (t : Text) : Bool :=
  pl == .unix && ((t.splitOnP pl.isSep).filter fun seg => seg ≠ []).getLast? = some ['.']

/-- A file can have the path: its text does not end as only that of a directory does. -/
def namesFile (pl : Platform) (t : Text) : Bool :=
  (t.splitOnP pl.isSep).getLast? ≠ some [] && !endsInDot pl t

/-- A step that changes the file system, with what the path does not show of its text: a directory
must be there already if the text ends in a dot, and a file can be written if it is a file's. -/
inductive Write
  | createDirAll (p : LocalPath) (dot : Bool)
  | file (p : LocalPath) (named : Bool) (bytes : Bytes)
  deriving DecidableEq

/-- The directory of a file is created first. -/
def writeFile (dest : LocalPath) (named : Bool) (bytes : Bytes) : List Write :=
  (dest.parent.map fun p => .createDirAll p false).toList ++ [.file dest named bytes]

/-- What the loops of `extract_all` write for an entry. -/
def Entry.write (e : Entry) (pl : Platform) (dest : LocalPath) (safe : Text) : List Write :=
  if e.isDir then [.createDirAll dest (endsInDot pl safe)]
  else writeFile dest (namesFile pl safe) e.data

def Entry.extract (pl : Platform) (target : LocalPath) (e : Entry) : List Write :=
  match sanitiseEntryPath e.name with
  | none => []
  | some safe => e.write pl (join pl target safe) safe

namespace ArchiveReader

/-- `extract_all`; for 7z archives, the destination is created first. -/
def extractAll (pl : Platform) (target : LocalPath) : ArchiveReader → List Write
  | .zip z => z.entries.flatMap (Entry.extract pl target)
  | .tar entries => entries.flatMap (Entry.extract pl target)
  | .sevenZ entries => .createDirAll target false :: entries.flatMap (Entry.extract pl target)

/-- `extract_native_selected`: the first entry that cannot be read ends it. -/
def extractSelected (pl : Platform) (target : LocalPath) (a : ArchiveReader) :
    List Text → List Write
  | [] => []
  | inner :: inners =>
    match a.readEntry inner with
    | .error _ => []
    | .ok bytes =>
      let out := replaceSeparators pl inner
      writeFile (join pl target out) (namesFile pl out) bytes ++ extractSelected pl target a inners

end ArchiveReader

/-! ### Staying inside -/

/-- The path is the target or one below it. -/
def Below (target p : LocalPath) : Prop :=
  p.pre = target.pre ∧ p.rooted = target.rooted ∧ target.comps <+: p.comps ∧
    dotdot ∉ p.comps.drop target.comps.length

/-- Files are written below the target, and directories are created there or on the way to it. -/
def Write.Inside (target : LocalPath) : Write → Prop
  | .file p _ _ => Below target p
  | .createDirAll p _ => Below target p ∨
      p.pre = target.pre ∧ p.rooted = target.rooted ∧ p.comps <+: target.comps

/-- The entry would be written inside of the target if its name took the place of it. -/
def Entry.Lands (pl : Platform) (target : LocalPath) (e : Entry) (safe : Text) : Prop :=
  ∀ w ∈ e.write pl (parsePath pl safe) safe, w.Inside target

section Inside

variable {pl : Platform} {target dest : LocalPath} {t : Text}

lemma below_append {comps : List Text} (h : dotdot ∉ comps) :
    Below target { target with comps := target.comps ++ comps } :=
  ⟨rfl, rfl, List.prefix_append _ _, by simpa using h⟩

/-- A file below the target is written there with its directory. -/
lemma writeFile_inside (named : Bool) (bytes : Bytes) :
    (∀ w ∈ writeFile dest named bytes, w.Inside target) ↔ Below target dest := by
  constructor
  · exact fun h => h (.file dest named bytes) (by simp [writeFile])
  · rintro ⟨hpre, hroot, hcomps, hdots⟩ w hw
    rcases List.mem_append.mp hw with hw | hw
    · rw [LocalPath.parent] at hw
      split_ifs at hw with hnil
      · simp at hw
      · obtain rfl : w = .createDirAll { dest with comps := dest.comps.dropLast } false := by
          simpa using hw
        obtain ⟨rest, hrest⟩ := hcomps
        rcases List.eq_nil_or_concat' rest with rfl | ⟨rest', last, rfl⟩
        · refine .inr ⟨hpre, hroot, ?_⟩
          rw [List.append_nil] at hrest
          rw [← hrest]
          exact List.dropLast_prefix _
        · rw [← List.append_assoc] at hrest
          have hlast : dest.comps.dropLast = target.comps ++ rest' := by
            rw [← hrest, List.dropLast_concat]
          rw [← hrest, List.append_assoc, List.drop_left] at hdots
          refine .inl ⟨hpre, hroot, ?_, ?_⟩
          · exact hlast ▸ List.prefix_append _ _
          · dsimp only
            rw [hlast, List.drop_left]
            exact fun h => hdots (List.mem_append_left _ h)
    · obtain rfl := List.mem_singleton.mp hw
      exact ⟨hpre, hroot, hcomps, hdots⟩

lemma write_inside_of_below (e : Entry) (safe : Text) (h : Below target dest) :
    ∀ w ∈ e.write pl dest safe, w.Inside target := by
  unfold Entry.write
  split_ifs
  · intro w hw
    obtain rfl := List.mem_singleton.mp hw
    exact .inl h
  · exact (writeFile_inside _ _).mpr h

/-- A plain name leads out exactly if it has a drive and is no path of the target's. -/
lemma below_join_iff (h : Plain pl t) : Below target (join pl target t) ↔
    (hasDrive pl t = true → Below target (parsePath pl t)) := by
  by_cases hdrive : hasDrive pl t = true
  · rw [join_of_hasDrive hdrive]
    exact ⟨fun hb _ => hb, fun hb => hb hdrive⟩
  · rw [h.join (Bool.not_eq_true _ ▸ hdrive)]
    exact iff_of_true (below_append h.notMem_components) fun hd => absurd hd hdrive

lemma extract_inside_iff (e : Entry) : (∀ w ∈ e.extract pl target, w.Inside target) ↔
    ∀ safe, sanitiseEntryPath e.name = some safe → hasDrive pl safe = true →
      e.Lands pl target safe := by
  unfold Entry.extract
  cases hsafe : sanitiseEntryPath e.name with
  | none => simp
  | some safe =>
    dsimp only
    by_cases hdrive : hasDrive pl safe = true
    · rw [join_of_hasDrive hdrive]
      constructor
      · rintro h _ ⟨⟩ -
        exact h
      · exact fun h => h safe rfl hdrive
    · have hplain : Plain pl safe := plain_sanitised hsafe
      refine iff_of_true ?_ ?_
      · refine write_inside_of_below e safe ((below_join_iff hplain).mpr ?_)
        exact fun hd => absurd hd hdrive
      · rintro _ ⟨⟩ hd
        exact absurd hd hdrive

end Inside

namespace ArchiveReader

variable {a : ArchiveReader} {pl : Platform} {target : LocalPath}

/-- Only an entry whose name is not rejected can be read. -/
lemma sanitise_of_readEntry {inner : Text} {bytes : Bytes} (h : a.readEntry inner = .ok bytes) :
    ∃ raw safe, sanitiseEntryPath raw = some safe ∧ (inner = raw ∨ inner = safe) := by
  cases a with
  | zip z =>
    rw [readEntry, ZipArchive.readEntry] at h
    cases hname : z.byName inner with
    | none =>
      rw [hname] at h
      cases h
    | some e =>
      rw [hname] at h
      dsimp only at h
      split_ifs at h with hnone
      obtain ⟨safe, hsafe⟩ := Option.ne_none_iff_exists'.mp (by simpa using hnone)
      exact ⟨e.name, safe, hsafe, .inl (z.sound inner e hname).2.symm⟩
  | tar entries =>
    rw [readEntry, readTarEntry] at h
    split at h
    next e hfind =>
      have := List.find?_some hfind
      exact ⟨e.name, inner, of_decide_eq_true this, .inr rfl⟩
    next => cases h
  | sevenZ entries =>
    rw [readEntry, readSevenZEntry] at h
    split at h
    next e hfind =>
      have := List.find?_some hfind
      exact ⟨e.name, inner, (of_decide_eq_true this).1, .inr rfl⟩
    next => cases h

lemma plain_of_readEntry {inner : Text} {bytes : Bytes} (h : a.readEntry inner = .ok bytes) :
    Plain pl (replaceSeparators pl inner) := by
  obtain ⟨raw, safe, hsafe, rfl | rfl⟩ := sanitise_of_readEntry h
  · exact (plain_raw hsafe).replaceSeparators
  · exact (plain_sanitised hsafe).replaceSeparators

/-- The entry can be read. -/
def Readable (a : ArchiveReader) (inner : Text) : Bool := (a.readEntry inner).toOption.isSome

lemma extractAll_inside_iff : (∀ w ∈ a.extractAll pl target, w.Inside target) ↔
    ∀ e ∈ a.entries, ∀ safe, sanitiseEntryPath e.name = some safe → hasDrive pl safe = true →
      e.Lands pl target safe := by
  have hflat (entries : List Entry) :
      (∀ w ∈ entries.flatMap (Entry.extract pl target), w.Inside target) ↔
        ∀ e ∈ entries, ∀ safe, sanitiseEntryPath e.name = some safe → hasDrive pl safe = true →
          e.Lands pl target safe := by
    simp only [List.mem_flatMap, ← extract_inside_iff]
    exact ⟨fun h e he w hw => h w ⟨e, he, hw⟩, fun h w ⟨e, he, hw⟩ => h e he w hw⟩
  cases a with
  | zip z => exact hflat z.entries
  | tar entries => exact hflat entries
  | sevenZ entries =>
    rw [extractAll, List.forall_mem_cons, hflat]
    exact and_iff_right (.inr ⟨rfl, rfl, List.prefix_rfl⟩)

lemma extractSelected_inside_iff (inners : List Text) :
    (∀ w ∈ a.extractSelected pl target inners, w.Inside target) ↔
      ∀ inner ∈ inners.takeWhile a.Readable, hasDrive pl (replaceSeparators pl inner) = true →
        Below target (parsePath pl (replaceSeparators pl inner)) := by
  induction inners with
  | nil => simp [extractSelected]
  | cons inner inners ih =>
    rw [extractSelected]
    cases hread : a.readEntry inner with
    | error e =>
      have hnot : ¬ a.Readable inner = true := by rw [Readable, hread]; simp [Except.toOption]
      rw [List.takeWhile_cons_of_neg hnot]
      simp
    | ok bytes =>
      have hyes : a.Readable inner = true := by rw [Readable, hread]; rfl
      rw [List.takeWhile_cons_of_pos hyes, List.forall_mem_cons, List.forall_mem_append, ih,
        writeFile_inside, below_join_iff (plain_of_readEntry hread)]

/-- Extraction stays inside of the destination exactly if every name with a drive, which there are
on Windows only, is that of a path of the destination's. -/
theorem extraction_inside_iff (a : ArchiveReader) (pl : Platform) (target : LocalPath)
    (inners : List Text) :
    ((∀ w ∈ a.extractAll pl target, w.Inside target) ↔
      ∀ e ∈ a.entries, ∀ safe, sanitiseEntryPath e.name = some safe → hasDrive pl safe = true →
        e.Lands pl target safe) ∧
    ((∀ w ∈ a.extractSelected pl target inners, w.Inside target) ↔
      ∀ inner ∈ inners.takeWhile a.Readable, hasDrive pl (replaceSeparators pl inner) = true →
        Below target (parsePath pl (replaceSeparators pl inner))) :=
  ⟨extractAll_inside_iff, extractSelected_inside_iff inners⟩

/-- On Unix nothing leads out. -/
lemma extractAll_inside_unix (a : ArchiveReader) (target : LocalPath) :
    ∀ w ∈ a.extractAll .unix target, w.Inside target :=
  extractAll_inside_iff.mpr fun _ _ _ _ hd => by cases hd

/-- An entry with a drive in front of its name. -/
theorem not_extraction_inside : ¬ ∀ (a : ArchiveReader) (pl : Platform) (target : LocalPath),
    ∀ w ∈ a.extractAll pl target, w.Inside target := by
  intro h
  have hfile := h (.tar [⟨"C:/x".toList, false, []⟩]) .windows
    ⟨some "D:".toList, true, ["out".toList]⟩
    (.file ⟨some "C:".toList, true, ["x".toList]⟩ true []) (by decide)
  exact absurd hfile.1 (by decide)

end ArchiveReader

end Orchid.Archive
