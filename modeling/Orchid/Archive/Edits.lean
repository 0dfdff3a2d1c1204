import Orchid.Archive.Extraction
import Mathlib.Data.List.DropRight

/-!
# Edits

Adding to a zip archive and deleting from it. An edit writes a new archive beside the old one and
puts it in its place as its last step, so one pass changes all or nothing. Adding under a name
takes two passes, and what the first has deleted stays deleted if the second one fails.
-/

namespace Orchid.Archive

open Fs

/-! ### Zip files -/

/-- A zip file that is read or written; its library keeps one entry for each name. -/
structure ZipFile where
  entries : List Entry
  distinct : (entries.map Entry.name).Nodup

namespace ZipFile

@[ext]
lemma ext {z z' : ZipFile} (h : z.entries = z'.entries) : z = z' := by
  cases z
  cases z'
  congr

def empty : ZipFile := ⟨[], List.nodup_nil⟩

/-- A second entry of one name is refused. -/
def push (z : ZipFile) (e : Entry) : Option ZipFile :=
  if h : ((z.entries ++ [e]).map Entry.name).Nodup then some ⟨z.entries ++ [e], h⟩ else none

lemma push_eq_some_iff {z z' : ZipFile} {e : Entry} :
    z.push e = some z' ↔ z'.entries = z.entries ++ [e] := by
  unfold push
  split
  next h => exact ⟨by rintro ⟨⟩; rfl, fun hz => congrArg some (ext hz.symm)⟩
  next h => exact ⟨by rintro ⟨⟩, fun hz => absurd (hz ▸ z'.distinct) h⟩

end ZipFile

/-- The archive and the file beside it, `zip.partial`. -/
structure Files where
  archive : ZipFile
  tmp : ZipFile

/-! ### Passes -/

/-- What a pass does one after the other. -/
inductive Step
  /-- A call that only reads, or that writes what no one reads. -/
  | read
  | create
  | push (e : Entry)
  | rename

def Step.run (f : Files) : Step → Option Files
  | .read => some f
  | .create => some { f with tmp := .empty }
  | .push e => (f.tmp.push e).map fun tmp => { f with tmp }
  | .rename => some { f with archive := f.tmp }

/-- The steps up to the first that fails, by itself or from outside, and whether none does. -/
def run (fails : ℕ → Bool) : ℕ → Files → List Step → Files × Bool
  | _, f, [] => (f, true)
  | n, f, s :: ss =>
    if fails n then (f, false) else
    match s.run f with
    | none => (f, false)
    | some f' => run fails (n + 1) f' ss

/-- What `append_path_to_zip` finds on its walk: a path below the source, and the content of a
file. -/
structure WalkItem where
  rel : Text
  content : Option Bytes

/-- A file, or a directory with its walk, where some of it may not be readable. -/
inductive Source
  | file (content : Bytes)
  | dir (items : List (Option WalkItem))

/-- `trim_end_matches('/')` -/
def trimEndSlashes (t : Text) : Text := t.rdropWhile (· = '/')

/-- `trim_matches('/')` -/
def trimSlashes (t : Text) : Text := trimEndSlashes (t.dropWhile (· = '/'))

def below (pre rel : Text) : Text := pre ++ '/' :: rel

def WalkItem.entry (pre : Text) (i : WalkItem) : Entry :=
  match i.content with
  | none => ⟨below pre i.rel ++ ['/'], true, []⟩
  | some content => ⟨below pre i.rel, false, content⟩

/-- A file is opened and copied after its entry is begun. -/
def appendEntry (e : Entry) : List Step :=
  if e.isDir then [.push e] else [.push e, .read, .read]

/-- `append_path_to_zip`: what the walk cannot read is passed over. -/
def appendPathToZip (name : Text) : Source → List Step
  | .file content => appendEntry ⟨name, false, content⟩
  | .dir items =>
    appendEntry ⟨trimEndSlashes name ++ ['/'], true, []⟩ ++
      items.reduceOption.flatMap fun i => appendEntry (i.entry (trimEndSlashes name))

/-- A pass over the archive that keeps some of its entries and appends others. -/
def passSteps (entries : List Entry) (keep : Entry → Bool) (appended : List Step) : List Step :=
  .read :: .read :: .create ::
    (entries.flatMap (fun e => .read :: if keep e then [.push e] else []) ++ appended ++
      [.read, .rename])

def pass (fails : ℕ → Bool) (f : Files) (keep : Entry → Bool) (appended : List Step) :
    Files × Bool :=
  run fails 0 f (passSteps f.archive.entries keep appended)

/-! ### The edits -/

/-- The name is `r` or begins with `r/`. -/
def Covers (r name : Text) : Prop := name = r ∨ r ++ ['/'] <+: name

instance : DecidableRel Covers := fun _ _ => inferInstanceAs (Decidable (_ ∨ _))

/-- A path on disk as `add_to_zip` sees it; the name of a file has no slash. -/
structure SourcePath where
  fileName : Option Text
  source : Source
  plain : ∀ name ∈ fileName, '/' ∉ name

def SourcePath.name (p : SourcePath) : Text := p.fileName.getD "file".toList

/-- `add_to_zip` -/
def addToZip (fails : ℕ → Bool) (f : Files) (files : List SourcePath) : Files × Bool :=
  pass fails f
    (fun e => ¬ ∃ r ∈ files.filterMap SourcePath.fileName, Covers r (trimEndSlashes e.name))
    (files.flatMap fun p => appendPathToZip p.name p.source)

/-- `delete_from_zip` -/
def deleteFromZip (fails : ℕ → Bool) (f : Files) (inners : List Text) : Files × Bool :=
  pass fails f
    (fun e => ¬ ((∃ s ∈ inners, s = trimEndSlashes e.name) ∨
      ∃ s ∈ inners, Covers s (trimEndSlashes e.name))) []

/-- `add_to_zip_with_name` -/
def addToZipWithName (fails : ℕ → Bool) (f : Files) (src : Source) (inner : Text) :
    Files × Bool :=
  pass fails f (fun _ => true) (appendPathToZip inner src)

/-- `add_named_file_sync`: whether the deletion succeeds is not looked at. -/
def addNamedFileSync (fails fails' : ℕ → Bool) (f : Files) (src : Source) (inner : Text) :
    Files × Bool :=
  if trimSlashes inner = [] then (f, false) else
  addToZipWithName fails' (deleteFromZip fails f [trimSlashes inner]).1 src (trimSlashes inner)

/-! ### What was asked for -/

/-- All of the source can be read. -/
def Source.Readable : Source → Prop
  | .file _ => True
  | .dir items => ∀ i ∈ items, i.isSome

instance : DecidablePred Source.Readable
  | .file _ => inferInstanceAs (Decidable True)
  | .dir _ => inferInstanceAs (Decidable (∀ _ ∈ _, _))

/-- The entries of a source under a name. -/
def Source.entries (name : Text) : Source → List Entry
  | .file content => [⟨name, false, content⟩]
  | .dir items => ⟨trimEndSlashes name ++ ['/'], true, []⟩ ::
    items.reduceOption.map (WalkItem.entry (trimEndSlashes name))

/-- The entry is one of the requested names, or below one. -/
def Requested (names : List Text) (e : Entry) : Prop :=
  ∃ r ∈ names, Covers (trimEndSlashes r) (trimEndSlashes e.name)

instance (names : List Text) : DecidablePred (Requested names) :=
  fun _ => inferInstanceAs (Decidable (∃ _ ∈ _, _))

/-- The call has failed and the archive is as before, or all that was to be added could be read and
what was asked for is done. -/
def Atomic (names : List Text) (srcs : List (Text × Source)) (f : Files) (r : Files × Bool) :
    Prop :=
  (r.2 = false ∧ r.1.archive = f.archive) ∨
  (r.2 = true ∧ (∀ p ∈ srcs, p.2.Readable) ∧
    r.1.archive.entries = f.archive.entries.filter (¬ Requested names ·) ++
      srcs.flatMap fun p => p.2.entries p.1)

/-! ### One pass -/

variable {fails : ℕ → Bool} {n k : ℕ} {f : Files} {ss : List Step} {es : List Entry}

/-- Nothing fails from outside in `k` steps. -/
def Undisturbed (fails : ℕ → Bool) (n k : ℕ) : Prop := ∀ i < k, fails (n + i) = false

lemma undisturbed_zero : Undisturbed fails n 0 := fun i hi => absurd hi (Nat.not_lt_zero i)

lemma undisturbed_succ_iff :
    Undisturbed fails n (k + 1) ↔ fails n = false ∧ Undisturbed fails (n + 1) k := by
  constructor
  · intro h
    exact ⟨h 0 (Nat.succ_pos k), fun i hi => by
      simpa [Nat.add_assoc, Nat.add_comm 1] using h (i + 1) (Nat.succ_lt_succ hi)⟩
  · rintro ⟨h0, h⟩ (_ | i) hi
    · exact h0
    · simpa [Nat.add_assoc, Nat.add_comm 1] using h i (Nat.lt_of_succ_lt_succ hi)

/-- The entry that a step appends. -/
def Step.pushed : Step → Option Entry
  | .push e => some e
  | _ => none

/-- The step neither begins a new file nor puts one in place. -/
def Step.Appends (s : Step) : Prop := s ≠ .create ∧ s ≠ .rename

/-- The names of the entries are distinct and nothing fails from outside. -/
def Completes (fails : ℕ → Bool) (n k : ℕ) (es : List Entry) : Prop :=
  Undisturbed fails n k ∧ (es.map Entry.name).Nodup

/-- A pass is all or nothing. -/
def Outcome (done : Prop) (f : Files) (es : List Entry) (r : Files × Bool) : Prop :=
  (done ∧ r.2 = true ∧ r.1.archive.entries = es) ∨ (¬ done ∧ r.2 = false ∧ r.1.archive = f.archive)

lemma run_cons {s : Step} (h : fails n = false) : run fails n f (s :: ss) =
    (s.run f).elim (f, false) fun f' => run fails (n + 1) f' ss := by
  rw [run, h]
  cases s.run f <;> rfl

lemma completes_succ_iff :
    Completes fails n (k + 1) es ↔ fails n = false ∧ Completes fails (n + 1) k es := by
  rw [Completes, undisturbed_succ_iff, and_assoc, Completes]

/-- A step that does not fail by itself and leaves the archive alone. -/
lemma outcome_cons {s : Step} {f' : Files} (hs : s.run f = some f')
    (harchive : f'.archive = f.archive)
    (h : Outcome (Completes fails (n + 1) k es) f' es (run fails (n + 1) f' ss)) :
    Outcome (Completes fails n (k + 1) es) f es (run fails n f (s :: ss)) := by
  rw [completes_succ_iff]
  cases h0 : fails n with
  | true => exact .inr ⟨fun hd => Bool.noConfusion hd.1, by simp [run, h0], by simp [run, h0]⟩
  | false =>
    rw [run_cons h0, hs, eq_self, true_and]
    obtain h | ⟨hdone, hok, hsame⟩ := h
    · exact .inl h
    · exact .inr ⟨hdone, hok, hsame.trans harchive⟩

lemma outcome_rename (f : Files) (n : ℕ) :
    Outcome (Completes fails n 1 f.tmp.entries) f f.tmp.entries (run fails n f [.rename]) := by
  have hdone : Completes fails n 1 f.tmp.entries ↔ fails n = false := by
    simp [Completes, undisturbed_succ_iff, undisturbed_zero, f.tmp.distinct]
  rw [hdone]
  cases h0 : fails n <;> simp [Outcome, run, Step.run, h0]

/-- The induction is over the appended entries; those written so far are in the new file. -/
lemma outcome_finish (fails : ℕ → Bool) (hss : ∀ s ∈ ss, s.Appends) (f : Files) (n : ℕ) :
    Outcome (Completes fails n (ss.length + 2) (f.tmp.entries ++ ss.filterMap Step.pushed)) f
      (f.tmp.entries ++ ss.filterMap Step.pushed)
      (run fails n f (ss ++ [.read, .rename])) := by
  induction ss generalizing f n with
  | nil =>
    rw [List.filterMap_nil, List.append_nil]
    exact outcome_cons rfl rfl (outcome_rename f (n + 1))
  | cons s ss ih =>
    obtain ⟨hs, htail⟩ := List.forall_mem_cons.mp hss
    rw [List.cons_append, List.length_cons, Nat.add_right_comm _ 1 2]
    cases s with
    | create => exact absurd rfl hs.1
    | rename => exact absurd rfl hs.2
    | read => exact outcome_cons rfl rfl (ih htail f (n + 1))
    | push e =>
      rw [List.filterMap_cons_some (rfl : Step.pushed (.push e) = some e), List.append_cons]
      cases htmp : f.tmp.push e with
      | none =>
        have hrun : Step.run f (.push e) = none := by rw [Step.run, htmp]; rfl
        refine .inr ⟨fun hd => ?_, ?_⟩
        · -- A name that is there already stays there.
          have hnodup := hd.2.sublist ((List.sublist_append_left _ _).map Entry.name)
          rw [ZipFile.push, dif_pos hnodup] at htmp
          exact absurd htmp (Option.some_ne_none _)
        · cases h0 : fails n <;> simp [run, h0, hrun]
      | some tmp =>
        have hrun : Step.run f (.push e) = some { f with tmp } := by rw [Step.run, htmp]; rfl
        rw [← ZipFile.push_eq_some_iff.mp htmp]
        exact outcome_cons hrun rfl (ih htail { f with tmp } (n + 1))

variable {keep : Entry → Bool} {appended : List Step} {entries : List Entry}

lemma appends_copied (keep : Entry → Bool) (entries : List Entry) :
    ∀ s ∈ entries.flatMap (fun e => Step.read :: if keep e then [.push e] else []), s.Appends := by
  intro s hs
  obtain ⟨e, -, hs⟩ := List.mem_flatMap.mp hs
  obtain rfl | hs := List.mem_cons.mp hs
  · exact ⟨Step.noConfusion, Step.noConfusion⟩
  · split at hs
    · rw [List.mem_singleton.mp hs]
      exact ⟨Step.noConfusion, Step.noConfusion⟩
    · exact absurd hs List.not_mem_nil

lemma pushed_copied (keep : Entry → Bool) (entries : List Entry) :
    (entries.flatMap fun e => Step.read :: if keep e then [.push e] else []).filterMap
      Step.pushed = entries.filter keep := by
  induction entries with
  | nil => rfl
  | cons e entries ih =>
    rw [List.flatMap_cons, List.filterMap_append, ih]
    cases h : keep e
    · rw [List.filter_cons_of_neg (by simp [h])]
      rfl
    · rw [List.filter_cons_of_pos h]
      rfl

/-- No step of the pass fails, neither from outside nor since a name is there twice. -/
def PassCompletes (fails : ℕ → Bool) (entries : List Entry) (keep : Entry → Bool)
    (appended : List Step) : Prop :=
  Completes fails 0 (passSteps entries keep appended).length
    (entries.filter keep ++ appended.filterMap Step.pushed)

lemma outcome_pass (fails : ℕ → Bool) (f : Files) (keep : Entry → Bool)
    (h : ∀ s ∈ appended, s.Appends) :
    Outcome (PassCompletes fails f.archive.entries keep appended) f
      (f.archive.entries.filter keep ++ appended.filterMap Step.pushed)
      (pass fails f keep appended) := by
  have hfinish := outcome_finish fails
    (List.forall_mem_append.mpr ⟨appends_copied keep f.archive.entries, h⟩)
    { f with tmp := .empty } 3
  rw [List.filterMap_append, pushed_copied] at hfinish
  rw [PassCompletes, pass, passSteps, List.length_cons, List.length_cons, List.length_cons,
    List.length_append]
  exact outcome_cons rfl rfl (outcome_cons rfl rfl (outcome_cons rfl rfl hfinish))

/-! ### What a pass appends -/

lemma appends_appendEntry (e : Entry) : ∀ s ∈ appendEntry e, s.Appends := by
  unfold appendEntry
  split <;> simp [Step.Appends]

lemma pushed_appendEntry (e : Entry) : (appendEntry e).filterMap Step.pushed = [e] := by
  unfold appendEntry
  split <;> rfl

lemma appends_appendPathToZip (name : Text) (src : Source) :
    ∀ s ∈ appendPathToZip name src, s.Appends := by
  intro s hs
  cases src with
  | file content => exact appends_appendEntry _ s hs
  | dir items =>
    obtain hs | hs := List.mem_append.mp hs
    · exact appends_appendEntry _ s hs
    · obtain ⟨i, -, hs⟩ := List.mem_flatMap.mp hs
      exact appends_appendEntry _ s hs

lemma pushed_appendPathToZip (name : Text) (src : Source) :
    (appendPathToZip name src).filterMap Step.pushed = src.entries name := by
  cases src with
  | file content => exact pushed_appendEntry _
  | dir items =>
    rw [appendPathToZip, List.filterMap_append, pushed_appendEntry, List.singleton_append,
      List.filterMap_flatMap, Source.entries, List.map_eq_flatMap]
    simp only [pushed_appendEntry]

/-! ### What was asked for -/

lemma trimEndSlashes_eq_self {t : Text} (h : '/' ∉ t) : trimEndSlashes t = t := by
  refine List.rdropWhile_eq_self_iff.mpr fun hne hlast => h ?_
  rw [← of_decide_eq_true hlast]
  exact List.getLast_mem hne

lemma trimEndSlashes_idem (t : Text) : trimEndSlashes (trimEndSlashes t) = trimEndSlashes t :=
  List.rdropWhile_idempotent _ _

lemma isPrefix_trimEndSlashes {r t : Text} (h : r ++ ['/'] <+: t) :
    trimEndSlashes r = r ∨ trimEndSlashes r ++ ['/'] <+: t := by
  induction r using List.reverseRecOn with
  | nil => exact .inl rfl
  | append_singleton r c ih =>
    by_cases hc : c = '/'
    · subst hc
      have hr : r ++ ['/'] <+: t := (List.prefix_append _ _).trans h
      have htrim : trimEndSlashes (r ++ ['/']) = trimEndSlashes r :=
        List.rdropWhile_concat_pos _ _ _ (by simp)
      rw [htrim]
      obtain hself | hpre := ih hr
      · exact .inr (by rwa [hself])
      · exact .inr hpre
    · exact .inl (List.rdropWhile_concat_neg _ _ _ (by simpa using hc))

/-- Slashes at the end of a name make no difference to what is below it. -/
lemma covers_trimEndSlashes {r t : Text} (h : Covers r (trimEndSlashes t)) :
    Covers (trimEndSlashes r) (trimEndSlashes t) := by
  obtain rfl | h := h
  · exact .inl (trimEndSlashes_idem t).symm
  · obtain hself | hpre := isPrefix_trimEndSlashes h
    · exact .inr (by rwa [hself])
    · exact .inr hpre

lemma filter_eq_filter_iff {α : Type} {p q : α → Bool} {l : List α} :
    l.filter p = l.filter q ↔ ∀ x ∈ l, (p x = true ↔ q x = true) := by
  constructor
  · intro h x hx
    have hmem : x ∈ l.filter p ↔ x ∈ l.filter q := by rw [h]
    simpa only [List.mem_filter, hx, true_and] using hmem
  · exact fun h => List.filter_congr fun x hx => Bool.eq_iff_iff.mpr (h x hx)

variable {names : List Text} {srcs : List (Text × Source)} {r : Files × Bool} {done : Prop}

/-- A pass that keeps the entries that were not requested is atomic, and only such a pass. -/
lemma atomic_iff
    (h : Outcome done f
      (f.archive.entries.filter keep ++ srcs.flatMap fun p => p.2.entries p.1) r) :
    Atomic names srcs f r ↔ (done → (∀ p ∈ srcs, p.2.Readable) ∧
      ∀ e ∈ f.archive.entries, (keep e = true ↔ ¬ Requested names e)) := by
  obtain ⟨hdone, hok, hentries⟩ | ⟨hdone, hok, hsame⟩ := h
  · simp only [Atomic, hok, hentries, hdone, List.append_left_inj, filter_eq_filter_iff,
      decide_eq_true_eq, true_and, Bool.true_eq_false, false_and, false_or, forall_const]
  · simp only [Atomic, hok, hsame, hdone, and_self, true_or, false_imp_iff]

namespace SourcePath

/-- What is added for a path, under which name. -/
def added (p : SourcePath) : Text × Source := (p.name, p.source)

end SourcePath

/-- No entry that has to go stays there: one that is covered by the name `file` of a nameless path
is covered by the name of another path. -/
def NamesCover (files : List SourcePath) (entries : List Entry) : Prop :=
  (∃ p ∈ files, p.fileName = none) → ∀ e ∈ entries,
    Covers "file".toList (trimEndSlashes e.name) →
      ∃ r ∈ files.filterMap SourcePath.fileName, Covers r (trimEndSlashes e.name)

lemma requested_files_iff {files : List SourcePath} {e : Entry} :
    Requested (files.map SourcePath.name) e ↔
      (∃ r ∈ files.filterMap SourcePath.fileName, Covers r (trimEndSlashes e.name)) ∨
      ((∃ p ∈ files, p.fileName = none) ∧ Covers "file".toList (trimEndSlashes e.name)) := by
  constructor
  · rintro ⟨_, hr, hcovers⟩
    obtain ⟨p, hp, rfl⟩ := List.mem_map.mp hr
    cases hname : p.fileName with
    | none =>
      rw [SourcePath.name, hname, Option.getD_none, trimEndSlashes_eq_self (by decide)] at hcovers
      exact .inr ⟨⟨p, hp, hname⟩, hcovers⟩
    | some name =>
      rw [SourcePath.name, hname, Option.getD_some,
        trimEndSlashes_eq_self (p.plain name hname)] at hcovers
      exact .inl ⟨name, List.mem_filterMap.mpr ⟨p, hp, hname⟩, hcovers⟩
  · rintro (⟨name, hmem, hcovers⟩ | ⟨⟨p, hp, hname⟩, hcovers⟩)
    · obtain ⟨p, hp, hname⟩ := List.mem_filterMap.mp hmem
      refine ⟨p.name, List.mem_map_of_mem hp, ?_⟩
      rw [SourcePath.name, hname, Option.getD_some]
      exact covers_trimEndSlashes hcovers
    · refine ⟨p.name, List.mem_map_of_mem hp, ?_⟩
      rw [SourcePath.name, hname, Option.getD_none]
      exact covers_trimEndSlashes hcovers

lemma addToZip_atomic_iff (files : List SourcePath) :
    Atomic (files.map SourcePath.name) (files.map SourcePath.added) f (addToZip fails f files) ↔
      (PassCompletes fails f.archive.entries
        (fun e => ¬ ∃ r ∈ files.filterMap SourcePath.fileName, Covers r (trimEndSlashes e.name))
        (files.flatMap fun p => appendPathToZip p.name p.source) →
      (∀ p ∈ files, p.source.Readable) ∧ NamesCover files f.archive.entries) := by
  have happends : ∀ s ∈ files.flatMap fun p => appendPathToZip p.name p.source, s.Appends := by
    intro s hs
    obtain ⟨p, -, hs⟩ := List.mem_flatMap.mp hs
    exact appends_appendPathToZip _ _ s hs
  have hpushed : (files.flatMap fun p => appendPathToZip p.name p.source).filterMap Step.pushed =
      (files.map SourcePath.added).flatMap fun p => p.2.entries p.1 := by
    rw [List.filterMap_flatMap, List.flatMap_map]
    simp only [pushed_appendPathToZip, SourcePath.added]
  have hpass := outcome_pass fails f
    (fun e => ¬ ∃ r ∈ files.filterMap SourcePath.fileName, Covers r (trimEndSlashes e.name))
    happends
  rw [hpushed] at hpass
  refine (atomic_iff hpass).trans (imp_congr_right fun _ => and_congr ?_ ?_)
  · exact List.forall_mem_map
  · refine ⟨fun h hnameless e he hcovers => ?_, fun h e he => ?_⟩
    · have hkeep := h e he
      rw [requested_files_iff, decide_eq_true_eq, not_iff_not] at hkeep
      exact hkeep.mpr (.inr ⟨hnameless, hcovers⟩)
    · rw [requested_files_iff, decide_eq_true_eq, not_iff_not]
      exact ⟨.inl, fun hor => hor.elim id fun hand => h hand.1 e he hand.2⟩

/-- What `delete_from_zip` keeps. -/
def keptBy (inners : List Text) (e : Entry) : Bool :=
  ¬ ((∃ s ∈ inners, s = trimEndSlashes e.name) ∨
    ∃ s ∈ inners, Covers s (trimEndSlashes e.name))

lemma keptBy_eq_true_iff {inners : List Text} {e : Entry} :
    keptBy inners e = true ↔ ¬ ∃ s ∈ inners, Covers s (trimEndSlashes e.name) := by
  rw [keptBy, decide_eq_true_eq, not_iff_not]
  exact ⟨fun h => h.elim (fun ⟨s, hs, heq⟩ => ⟨s, hs, .inl heq.symm⟩) id, .inr⟩

lemma outcome_deleteFromZip (fails : ℕ → Bool) (f : Files) (inners : List Text) :
    Outcome (PassCompletes fails f.archive.entries (keptBy inners) []) f
      (f.archive.entries.filter (keptBy inners)) (deleteFromZip fails f inners) := by
  have hpass := outcome_pass fails f (keptBy inners) (List.forall_mem_nil _)
  rwa [List.filterMap_nil, List.append_nil] at hpass

lemma deleteFromZip_atomic_iff (inners : List Text) :
    Atomic inners [] f (deleteFromZip fails f inners) ↔
      (PassCompletes fails f.archive.entries (keptBy inners) [] →
      ∀ e ∈ f.archive.entries, Requested inners e →
        ∃ s ∈ inners, Covers s (trimEndSlashes e.name)) := by
  have hpass := outcome_deleteFromZip fails f inners
  rw [← List.append_nil (List.filter _ _)] at hpass
  change Outcome _ f (_ ++ List.flatMap (fun p : Text × Source => p.2.entries p.1) []) _ at hpass
  refine (atomic_iff hpass).trans (imp_congr_right fun _ => ?_)
  rw [and_iff_right (List.forall_mem_nil _)]
  refine forall₂_congr fun e _ => ?_
  rw [keptBy_eq_true_iff, not_iff_not]
  refine ⟨fun h => h.mpr, fun h => ⟨?_, h⟩⟩
  rintro ⟨s, hs, hcovers⟩
  exact ⟨s, hs, covers_trimEndSlashes hcovers⟩

lemma outcome_addToZipWithName (fails : ℕ → Bool) (f : Files) (src : Source) (inner : Text) :
    Outcome (PassCompletes fails f.archive.entries (fun _ => true) (appendPathToZip inner src)) f
      (f.archive.entries ++ src.entries inner) (addToZipWithName fails f src inner) := by
  have hpass := outcome_pass fails f (fun _ => true) (appends_appendPathToZip inner src)
  rwa [List.filter_true, pushed_appendPathToZip] at hpass

/-- Nothing in the archive has the name or is below it. -/
def Absent (name : Text) (entries : List Entry) : Prop := ∀ e ∈ entries, ¬ Requested [name] e

/-- When the two passes of `add_named_file_sync` together are atomic. What the first has deleted is
lost if the second one fails, and if the first one fails it must have had nothing to delete. -/
structure TwoPasses (fails fails' : ℕ → Bool) (entries : List Entry) (src : Source)
    (name : Text) : Prop where
  both : PassCompletes fails entries (keptBy [name]) [] →
    PassCompletes fails' (entries.filter (keptBy [name])) (fun _ => true)
      (appendPathToZip name src) → src.Readable
  onlyFirst : PassCompletes fails entries (keptBy [name]) [] →
    ¬ PassCompletes fails' (entries.filter (keptBy [name])) (fun _ => true)
      (appendPathToZip name src) → Absent name entries
  onlySecond : ¬ PassCompletes fails entries (keptBy [name]) [] →
    PassCompletes fails' entries (fun _ => true) (appendPathToZip name src) →
    src.Readable ∧ Absent name entries

lemma keptBy_singleton_iff {name : Text} (hname : trimEndSlashes name = name) {e : Entry} :
    keptBy [name] e = true ↔ ¬ Requested [name] e := by
  rw [keptBy_eq_true_iff]
  simp only [Requested, List.mem_singleton, exists_eq_left, hname]

lemma filter_keptBy {name : Text} (hname : trimEndSlashes name = name) (entries : List Entry) :
    entries.filter (keptBy [name]) = entries.filter (¬ Requested [name] ·) :=
  filter_eq_filter_iff.mpr fun e _ => by rw [keptBy_singleton_iff hname, decide_eq_true_eq]

lemma filter_requested_eq_self_iff {name : Text} {entries : List Entry} :
    entries.filter (¬ Requested [name] ·) = entries ↔ Absent name entries := by
  simp only [List.filter_eq_self, decide_eq_true_eq, Absent]

/-- The cases are those of `TwoPasses`, and the one where both passes fail and nothing is
changed. -/
lemma twoPasses_iff {fails' : ℕ → Bool} {src : Source} {name : Text}
    (hname : trimEndSlashes name = name) {r r' : Files × Bool}
    (hfirst : Outcome (PassCompletes fails f.archive.entries (keptBy [name]) []) f
      (f.archive.entries.filter (keptBy [name])) r)
    (hsecond : Outcome (PassCompletes fails' r.1.archive.entries (fun _ => true)
        (appendPathToZip name src)) r.1 (r.1.archive.entries ++ src.entries name) r') :
    Atomic [name] [(name, src)] f r' ↔ TwoPasses fails fails' f.archive.entries src name := by
  have hadded : ([(name, src)].flatMap fun p => p.2.entries p.1) = src.entries name := by simp
  rw [Atomic, hadded, List.forall_mem_singleton]
  obtain ⟨hfirst, -, hkept⟩ | ⟨hfirst, -, hsame⟩ := hfirst
  · rw [hkept] at hsecond
    obtain ⟨hsecond, hok, hentries⟩ | ⟨hsecond, hok, harchive⟩ := hsecond
    · rw [hok, hentries, filter_keptBy hname]
      constructor
      · rintro (⟨h, -⟩ | ⟨-, hreadable, -⟩)
        · exact Bool.noConfusion h
        · exact ⟨fun _ _ => hreadable, fun _ h => absurd hsecond h, fun h => absurd hfirst h⟩
      · exact fun h => .inr ⟨rfl, h.both hfirst hsecond, rfl⟩
    · have hunchanged : r'.1.archive = f.archive ↔ Absent name f.archive.entries := by
        rw [harchive, ← filter_requested_eq_self_iff, ← filter_keptBy hname, ← hkept]
        exact ⟨congrArg ZipFile.entries, ZipFile.ext⟩
      rw [hok, hunchanged]
      constructor
      · rintro (⟨-, habsent⟩ | ⟨h, -⟩)
        · exact ⟨fun _ h => absurd h hsecond, fun _ _ => habsent, fun h => absurd hfirst h⟩
        · exact Bool.noConfusion h
      · exact fun h => .inl ⟨rfl, h.onlyFirst hfirst hsecond⟩
  · rw [hsame] at hsecond
    obtain ⟨hsecond, hok, hentries⟩ | ⟨hsecond, hok, harchive⟩ := hsecond
    · rw [hok, hentries, List.append_left_inj, eq_comm (a := f.archive.entries),
        filter_requested_eq_self_iff]
      constructor
      · rintro (⟨h, -⟩ | ⟨-, hreadable, habsent⟩)
        · exact Bool.noConfusion h
        · exact ⟨fun h => absurd h hfirst, fun h => absurd h hfirst,
            fun _ _ => ⟨hreadable, habsent⟩⟩
      · exact fun h => .inr ⟨rfl, h.onlySecond hfirst hsecond⟩
    · refine iff_of_true (.inl ⟨hok, harchive.trans hsame⟩) ?_
      exact ⟨fun h => absurd h hfirst, fun h => absurd h hfirst, fun _ h => absurd h hsecond⟩

lemma addNamedFileSync_atomic_iff {fails' : ℕ → Bool} {src : Source} {inner : Text} :
    Atomic [trimSlashes inner] [(trimSlashes inner, src)] f
      (addNamedFileSync fails fails' f src inner) ↔
    (trimSlashes inner ≠ [] →
      TwoPasses fails fails' f.archive.entries src (trimSlashes inner)) := by
  unfold addNamedFileSync
  have hname : trimEndSlashes (trimSlashes inner) = trimSlashes inner := trimEndSlashes_idem _
  generalize trimSlashes inner = name at hname ⊢
  split
  next h => exact ⟨fun _ hne => absurd h hne, fun _ => .inl ⟨rfl, rfl⟩⟩
  next h =>
    rw [forall_prop_of_true h]
    exact twoPasses_iff hname (outcome_deleteFromZip fails f [name])
      (outcome_addToZipWithName fails' _ src name)

/-- Each of the three edits is atomic exactly if, where no step fails, all that is to be added can
be read and each entry that has to go is covered by a name as it is given; and adding under a name
has to have both of its passes succeed or both fail wherever there is something to delete. -/
theorem edits_atomic_iff (fails fails' : ℕ → Bool) (f : Files) (files : List SourcePath)
    (inners : List Text) (src : Source) (inner : Text) :
    (Atomic (files.map SourcePath.name) (files.map SourcePath.added) f (addToZip fails f files) ↔
      (PassCompletes fails f.archive.entries
        (fun e => ¬ ∃ r ∈ files.filterMap SourcePath.fileName, Covers r (trimEndSlashes e.name))
        (files.flatMap fun p => appendPathToZip p.name p.source) →
      (∀ p ∈ files, p.source.Readable) ∧ NamesCover files f.archive.entries)) ∧
    (Atomic inners [] f (deleteFromZip fails f inners) ↔
      (PassCompletes fails f.archive.entries (keptBy inners) [] →
      ∀ e ∈ f.archive.entries, Requested inners e →
        ∃ s ∈ inners, Covers s (trimEndSlashes e.name))) ∧
    (Atomic [trimSlashes inner] [(trimSlashes inner, src)] f
      (addNamedFileSync fails fails' f src inner) ↔
      (trimSlashes inner ≠ [] →
        TwoPasses fails fails' f.archive.entries src (trimSlashes inner))) :=
  ⟨addToZip_atomic_iff files, deleteFromZip_atomic_iff inners, addNamedFileSync_atomic_iff⟩

/-- The second pass fails after the first one has deleted the entry. -/
theorem not_edits_atomic : ¬ ∀ (fails fails' : ℕ → Bool) (f : Files) (files : List SourcePath)
    (inners : List Text) (src : Source) (inner : Text),
    Atomic (files.map SourcePath.name) (files.map SourcePath.added) f (addToZip fails f files) ∧
    Atomic inners [] f (deleteFromZip fails f inners) ∧
    Atomic [trimSlashes inner] [(trimSlashes inner, src)] f
      (addNamedFileSync fails fails' f src inner) := by
  intro h
  obtain ⟨-, -, h⟩ := h (fun _ => false) (fun _ => true)
    ⟨⟨[⟨['a'], false, [1]⟩], by simp⟩, .empty⟩ [] [] (.file [2]) ['a']
  obtain ⟨-, hsame⟩ | ⟨hok, -⟩ := h
  · exact absurd (congrArg ZipFile.entries hsame) (by decide)
  · exact absurd hok (by decide)

end Orchid.Archive
