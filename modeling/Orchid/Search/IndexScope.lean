import Mathlib.Algebra.Order.BigOperators.Group.List
import Orchid.Search.GlobPattern

/-!
# The scope of the index

`crawl_roots` in `orchid-search/src/indexer/crawl.rs` walks down from the included roots and leaves
out what is not in scope; the watcher in `watcher.rs` looks at each changed path alone. Both ask
`path_in_scope`, which works on the texts of the paths.
-/

namespace Orchid.Search

/-! ### Paths and trees -/

/-- A name between two slashes. -/
def ProperName (name : Text) : Prop := name ≠ [] ∧ '/' ∉ name

/-- A path: its scheme with the root of the tree, and the names down from there. -/
structure TreePath where
  anchor : Text
  names : List Text
  deriving DecidableEq

/-- Names with a slash between them. -/
def joined : List Text → Text
  | [] => []
  | [name] => name
  | name :: next :: rest => name ++ '/' :: joined (next :: rest)

/-- `as_str` -/
def TreePath.text (path : TreePath) : Text := path.anchor ++ joined path.names

/-- The path down from another one. -/
def TreePath.below (path : TreePath) (names : List Text) : TreePath :=
  ⟨path.anchor, path.names ++ names⟩

/-- `FsEntryKind` -/
inductive EntryKind
  | directory
  | file
  | other
  deriving DecidableEq

/-- A finite tree: what each directory lists (nothing if that fails), and how many directories and
files there are from a path on. -/
structure DirectoryTree where
  entries : TreePath → List (Text × EntryKind)
  proper : ∀ dir, ∀ entry ∈ entries dir, ProperName entry.1
  dirs : TreePath → ℕ
  files : TreePath → ℕ
  dirs_eq : ∀ dir, dirs dir = 1 + ((entries dir).map fun entry =>
    if entry.2 = .directory then dirs (dir.below [entry.1]) else 0).sum
  files_eq : ∀ dir, files dir = ((entries dir).map fun entry =>
    if entry.2 = .directory then files (dir.below [entry.1])
    else if entry.2 = .file then 1 else 0).sum

/-- The names lead down from `dir` to a file. -/
def DirectoryTree.Leads (tree : DirectoryTree) (dir : TreePath) (names : List Text) : Prop :=
  ∀ front name rest, names = front ++ name :: rest →
    (name, if rest = [] then EntryKind.file else .directory) ∈ tree.entries (dir.below front)

/-- The file is in the tree. -/
def DirectoryTree.Has (tree : DirectoryTree) (path : TreePath) : Prop :=
  tree.Leads ⟨path.anchor, []⟩ path.names

/-! ### The code -/

/-- `IndexScope` -/
structure IndexScope where
  includedRoots : List TreePath
  excludedPatterns : List Text

def IndexScope.withRoots (scope : IndexScope) (roots : List TreePath) : IndexScope :=
  { scope with includedRoots := roots }

/-- What is left of the text of a path behind the text of a root. -/
def relative (root path : Text) : Text := (path.drop root.length).dropWhile (· = '/')

/-- `path_in_scope` -/
def pathInScope (scope : IndexScope) (path : Text) : Bool :=
  match scope.includedRoots.find? fun root => root.text <+: path with
  | none => false
  | some root => scope.excludedPatterns.all fun pattern =>
      !globMatch pattern (relative root.text path)

/-- `MAX_DIRS` -/
def maxDirs : ℕ := 2000

/-- `MAX_FILES` -/
def maxFiles : ℕ := 10000

/-- The loop over the entries of a directory: the directories still to be listed, and the files that
are enqueued. -/
def visit (scope : IndexScope) (dir : TreePath) :
    List (Text × EntryKind) → List TreePath → List TreePath → List TreePath × List TreePath
  | [], dirs, enqueued => (dirs, enqueued)
  | (name, kind) :: entries, dirs, enqueued =>
    let path := dir.below [name]
    if pathInScope scope path.text then
      match kind with
      | .directory => visit scope dir entries (path :: dirs) enqueued
      | .file =>
        if maxFiles ≤ enqueued.length then (dirs, enqueued)
        else visit scope dir entries dirs (enqueued ++ [path])
      | .other => visit scope dir entries dirs enqueued
    else visit scope dir entries dirs enqueued

/-- The loop of `crawl_roots`, which may still see `left` directories. -/
def crawl (scope : IndexScope) (tree : DirectoryTree) :
    (left : ℕ) → (dirs enqueued : List TreePath) → List TreePath
  | 0, _, enqueued => enqueued
  | _ + 1, [], enqueued => enqueued
  | left + 1, dir :: dirs, enqueued =>
    if maxFiles ≤ enqueued.length then enqueued
    else
      let (dirs, enqueued) := visit scope dir (tree.entries dir) dirs enqueued
      crawl scope tree left dirs enqueued

/-- `crawl_roots` over the included roots; the last one is taken first. -/
def crawlRoots (scope : IndexScope) (tree : DirectoryTree) : List TreePath :=
  crawl scope tree maxDirs scope.includedRoots.reverse []

/-! ### What a crawl reaches -/

section Crawl

variable {scope : IndexScope} {tree : DirectoryTree}

/-- A file that is found from a directory through entries in scope. -/
inductive Reaches (scope : IndexScope) (tree : DirectoryTree) : TreePath → TreePath → Prop
  | file {dir : TreePath} {name : Text} (hentry : (name, .file) ∈ tree.entries dir)
      (hscope : pathInScope scope (dir.below [name]).text = true) :
      Reaches scope tree dir (dir.below [name])
  | directory {dir path : TreePath} {name : Text} (hentry : (name, .directory) ∈ tree.entries dir)
      (hscope : pathInScope scope (dir.below [name]).text = true)
      (h : Reaches scope tree (dir.below [name]) path) : Reaches scope tree dir path

/-- What the entries of a directory weigh in directories. -/
def dirsOf (tree : DirectoryTree) (dir : TreePath) (entries : List (Text × EntryKind)) : ℕ :=
  (entries.map fun entry =>
    if entry.2 = .directory then tree.dirs (dir.below [entry.1]) else 0).sum

/-- What the entries of a directory weigh in files. -/
def filesOf (tree : DirectoryTree) (dir : TreePath) (entries : List (Text × EntryKind)) : ℕ :=
  (entries.map fun entry =>
    if entry.2 = .directory then tree.files (dir.below [entry.1])
    else if entry.2 = .file then 1 else 0).sum

/-- What one directory adds, as long as there is room for its files. -/
structure Visited (scope : IndexScope) (tree : DirectoryTree) (dir : TreePath)
    (entries : List (Text × EntryKind)) (dirs enqueued : List TreePath)
    (result : List TreePath × List TreePath) : Prop where
  mem_dirs : ∀ path, path ∈ result.1 ↔ path ∈ dirs ∨ ∃ name, (name, .directory) ∈ entries ∧
    pathInScope scope (dir.below [name]).text = true ∧ path = dir.below [name]
  mem_enqueued : ∀ path, path ∈ result.2 ↔ path ∈ enqueued ∨ ∃ name, (name, .file) ∈ entries ∧
    pathInScope scope (dir.below [name]).text = true ∧ path = dir.below [name]
  dirs_le : (result.1.map tree.dirs).sum ≤ (dirs.map tree.dirs).sum + dirsOf tree dir entries
  files_le : result.2.length + (result.1.map tree.files).sum ≤
    enqueued.length + (dirs.map tree.files).sum + filesOf tree dir entries

/-- An entry that is not taken up changes nothing. -/
lemma Visited.skip {dir : TreePath} {entry : Text × EntryKind} {entries : List (Text × EntryKind)}
    {dirs enqueued : List TreePath} {result : List TreePath × List TreePath}
    (h : Visited scope tree dir entries dirs enqueued result)
    (hentry : entry.2 = .other ∨ pathInScope scope (dir.below [entry.1]).text = false) :
    Visited scope tree dir (entry :: entries) dirs enqueued result where
  mem_dirs path := by
    rw [h.mem_dirs]
    refine or_congr_right (exists_congr fun name => ?_)
    rw [List.mem_cons]
    refine ⟨fun ⟨hmem, hrest⟩ => ⟨.inr hmem, hrest⟩,
      fun ⟨hmem, hscope, hpath⟩ => ⟨?_, hscope, hpath⟩⟩
    refine hmem.resolve_left ?_
    rintro rfl
    rcases hentry with hkind | hout
    · cases hkind
    · rw [hscope] at hout
      cases hout
  mem_enqueued path := by
    rw [h.mem_enqueued]
    refine or_congr_right (exists_congr fun name => ?_)
    rw [List.mem_cons]
    refine ⟨fun ⟨hmem, hrest⟩ => ⟨.inr hmem, hrest⟩,
      fun ⟨hmem, hscope, hpath⟩ => ⟨?_, hscope, hpath⟩⟩
    refine hmem.resolve_left ?_
    rintro rfl
    rcases hentry with hkind | hout
    · cases hkind
    · rw [hscope] at hout
      cases hout
  dirs_le := by
    have hle := h.dirs_le
    rw [dirsOf, List.map_cons, List.sum_cons]
    exact hle.trans (by rw [dirsOf]; omega)
  files_le := by
    have hle := h.files_le
    rw [filesOf, List.map_cons, List.sum_cons]
    exact hle.trans (by rw [filesOf]; omega)

lemma visited_visit {dir : TreePath} {entries : List (Text × EntryKind)}
    {dirs enqueued : List TreePath}
    (hroom : enqueued.length + filesOf tree dir entries ≤ maxFiles) :
    Visited scope tree dir entries dirs enqueued (visit scope dir entries dirs enqueued) := by
  induction entries generalizing dirs enqueued with
  | nil => exact ⟨by simp [visit], by simp [visit], by simp [visit], by simp [visit]⟩
  | cons entry entries ih =>
    obtain ⟨name, kind⟩ := entry
    have hfiles : filesOf tree dir ((name, kind) :: entries) =
        (if kind = .directory then tree.files (dir.below [name])
          else if kind = .file then 1 else 0) + filesOf tree dir entries := by
      simp [filesOf]
    rw [hfiles] at hroom
    by_cases hscope : pathInScope scope (dir.below [name]).text = true
    · cases kind with
      | directory =>
        rw [visit, if_pos hscope]
        have h := @ih (dir.below [name] :: dirs) enqueued (by omega)
        refine ⟨fun path => ?_, fun path => ?_, ?_, ?_⟩
        · rw [h.mem_dirs]
          constructor
          · rintro (hpath | ⟨next, hnext, hrest⟩)
            · rcases List.mem_cons.mp hpath with rfl | hpath
              · exact .inr ⟨name, List.mem_cons_self, hscope, rfl⟩
              · exact .inl hpath
            · exact .inr ⟨next, List.mem_cons_of_mem _ hnext, hrest⟩
          · rintro (hpath | ⟨next, hnext, hin, rfl⟩)
            · exact .inl (List.mem_cons_of_mem _ hpath)
            · rcases List.mem_cons.mp hnext with heq | hnext
              · cases heq
                exact .inl List.mem_cons_self
              · exact .inr ⟨next, hnext, hin, rfl⟩
        · rw [h.mem_enqueued]
          simp
        · have hle := h.dirs_le
          simp only [dirsOf, List.map_cons, List.sum_cons, if_true] at hle ⊢
          omega
        · have hle := h.files_le
          simp only [filesOf, List.map_cons, List.sum_cons, if_true] at hle ⊢
          omega
      | file =>
        have hfree : ¬maxFiles ≤ enqueued.length := by
          simp only [reduceCtorEq, if_false, if_true] at hroom
          omega
        rw [visit, if_pos hscope, if_neg hfree]
        have h := @ih dirs (enqueued ++ [dir.below [name]]) (by
          simp only [reduceCtorEq, if_false, if_true] at hroom
          rw [List.length_append, List.length_singleton]
          omega)
        refine ⟨fun path => ?_, fun path => ?_, ?_, ?_⟩
        · rw [h.mem_dirs]
          simp
        · rw [h.mem_enqueued]
          constructor
          · rintro (hpath | ⟨next, hnext, hrest⟩)
            · rcases List.mem_append.mp hpath with hpath | hpath
              · exact .inl hpath
              · exact .inr ⟨name, List.mem_cons_self, hscope, List.mem_singleton.mp hpath⟩
            · exact .inr ⟨next, List.mem_cons_of_mem _ hnext, hrest⟩
          · rintro (hpath | ⟨next, hnext, hin, rfl⟩)
            · exact .inl (List.mem_append_left _ hpath)
            · rcases List.mem_cons.mp hnext with heq | hnext
              · cases heq
                exact .inl (List.mem_append_right _ (List.mem_singleton_self _))
              · exact .inr ⟨next, hnext, hin, rfl⟩
        · have hle := h.dirs_le
          simp only [dirsOf, List.map_cons, List.sum_cons] at hle ⊢
          omega
        · have hle := h.files_le
          simp only [filesOf, List.map_cons, List.sum_cons, reduceCtorEq, if_false, if_true,
            List.length_append, List.length_singleton] at hle ⊢
          omega
      | other =>
        rw [visit, if_pos hscope]
        exact (ih (by omega)).skip (.inl rfl)
    · have hskip : Visited scope tree dir ((name, kind) :: entries) dirs enqueued _ :=
        (ih (by omega)).skip (.inr (Bool.eq_false_of_not_eq_true hscope))
      cases kind <;> rwa [visit, if_neg hscope]

lemma dirs_pos (tree : DirectoryTree) (dir : TreePath) : 0 < tree.dirs dir := by
  rw [tree.dirs_eq]
  omega

/-- A directory from which a file is reached has one. -/
lemma files_pos {dir path : TreePath} (h : Reaches scope tree dir path) : 0 < tree.files dir := by
  induction h with
  | @file dir name hentry hscope =>
    rw [tree.files_eq]
    refine List.sum_pos_iff_exists_pos_nat.mpr ⟨1, List.mem_map.mpr ⟨_, hentry, ?_⟩, Nat.one_pos⟩
    simp
  | @directory dir path name hentry hscope h ih =>
    rw [tree.files_eq]
    refine List.sum_pos_iff_exists_pos_nat.mpr ⟨_, List.mem_map.mpr ⟨_, hentry, rfl⟩, ?_⟩
    simpa using ih

/-- What is reached from a directory, by its entries. -/
lemma reaches_iff {dir path : TreePath} : Reaches scope tree dir path ↔
    (∃ name, (name, .file) ∈ tree.entries dir ∧
      pathInScope scope (dir.below [name]).text = true ∧ path = dir.below [name]) ∨
    ∃ name, (name, .directory) ∈ tree.entries dir ∧
      pathInScope scope (dir.below [name]).text = true ∧
      Reaches scope tree (dir.below [name]) path := by
  constructor
  · intro h
    cases h with
    | file hentry hscope => exact .inl ⟨_, hentry, hscope, rfl⟩
    | directory hentry hscope h => exact .inr ⟨_, hentry, hscope, h⟩
  · rintro (⟨name, hentry, hscope, rfl⟩ | ⟨name, hentry, hscope, h⟩)
    · exact .file hentry hscope
    · exact .directory hentry hscope h

/-- Within the caps, what is enqueued is what is reached. -/
lemma mem_crawl {left : ℕ} {dirs enqueued : List TreePath}
    (hdirs : (dirs.map tree.dirs).sum ≤ left)
    (hfiles : enqueued.length + (dirs.map tree.files).sum ≤ maxFiles) (path : TreePath) :
    path ∈ crawl scope tree left dirs enqueued ↔
      path ∈ enqueued ∨ ∃ dir ∈ dirs, Reaches scope tree dir path := by
  induction left generalizing dirs enqueued with
  | zero =>
    cases dirs with
    | nil => simp [crawl]
    | cons dir dirs =>
      have hpos := dirs_pos tree dir
      rw [List.map_cons, List.sum_cons] at hdirs
      omega
  | succ left ih =>
    cases dirs with
    | nil => simp [crawl]
    | cons dir dirs =>
      rw [List.map_cons, List.sum_cons] at hdirs hfiles
      rw [crawl]
      split_ifs with hfull
      · -- there is no file left
        refine ⟨.inl, fun h => h.resolve_right ?_⟩
        rintro ⟨d, hd, hreach⟩
        have hpos := files_pos hreach
        rcases List.mem_cons.mp hd with rfl | hd
        · omega
        · have hle := List.single_le_sum (fun _ _ => Nat.zero_le _) _
            (List.mem_map_of_mem (f := tree.files) hd)
          omega
      · have hentries : tree.files dir = filesOf tree dir (tree.entries dir) := tree.files_eq dir
        have hbelow : tree.dirs dir = 1 + dirsOf tree dir (tree.entries dir) := tree.dirs_eq dir
        have hvisit : Visited scope tree dir (tree.entries dir) dirs enqueued _ :=
          visited_visit (by omega)
        have hd := hvisit.dirs_le
        have hf := hvisit.files_le
        rw [ih (by omega) (by omega), hvisit.mem_enqueued]
        simp only [List.mem_cons, exists_eq_or_imp, @reaches_iff _ _ dir]
        constructor
        · rintro ((hpath | hfile) | ⟨d, hd, hreach⟩)
          · exact .inl hpath
          · exact .inr (.inl (.inl hfile))
          · rcases (hvisit.mem_dirs d).mp hd with hd | ⟨name, hentry, hscope, rfl⟩
            · exact .inr (.inr ⟨d, hd, hreach⟩)
            · exact .inr (.inl (.inr ⟨name, hentry, hscope, hreach⟩))
        · rintro (hpath | (hfile | ⟨name, hentry, hscope, hreach⟩) | ⟨d, hd, hreach⟩)
          · exact .inl (.inl hpath)
          · exact .inl (.inr hfile)
          · exact .inr ⟨_, (hvisit.mem_dirs _).mpr (.inr ⟨name, hentry, hscope, rfl⟩), hreach⟩
          · exact .inr ⟨d, (hvisit.mem_dirs d).mpr (.inl hd), hreach⟩

/-- What is reached from a directory, by the names down from there. -/
lemma reaches_below {dir path : TreePath} : Reaches scope tree dir path ↔
    ∃ names, names ≠ [] ∧ path = dir.below names ∧ tree.Leads dir names ∧
      ∀ front, front ≠ [] → front <+: names →
        pathInScope scope (dir.below front).text = true := by
  have hbelow (dir : TreePath) (name : Text) (names : List Text) :
      (dir.below [name]).below names = dir.below (name :: names) := by
    simp [TreePath.below]
  have hhere (dir : TreePath) : dir.below [] = dir := by simp [TreePath.below]
  constructor
  · intro h
    induction h with
    | @file dir name hentry hscope =>
      refine ⟨[name], List.cons_ne_nil _ _, rfl, ?_, ?_⟩
      · intro front next rest heq
        obtain ⟨rfl, rfl, rfl⟩ : front = [] ∧ next = name ∧ rest = [] := by
          cases front with
          | nil => simpa [eq_comm] using heq
          | cons => simp at heq
        rwa [hhere, if_pos rfl]
      · intro front hne hfront
        obtain rfl : front = [name] := by
          obtain ⟨a, front, rfl⟩ := List.exists_cons_of_ne_nil hne
          obtain ⟨rfl, hnil⟩ := List.cons_prefix_cons.mp hfront
          rw [List.prefix_nil.mp hnil]
        exact hscope
    | @directory dir path name hentry hscope h ih =>
      obtain ⟨names, hne, rfl, hleads, hall⟩ := ih
      refine ⟨name :: names, List.cons_ne_nil _ _, hbelow .., ?_, ?_⟩
      · intro front next rest heq
        cases front with
        | nil =>
          obtain ⟨rfl, rfl⟩ := List.cons.inj heq
          rwa [hhere, if_neg hne]
        | cons a front =>
          obtain ⟨rfl, hrest⟩ := List.cons.inj heq
          rw [← hbelow]
          exact hleads front next rest hrest
      · intro front hfrontne hfront
        obtain ⟨a, front, rfl⟩ := List.exists_cons_of_ne_nil hfrontne
        obtain ⟨rfl, hrest⟩ := List.cons_prefix_cons.mp hfront
        rcases eq_or_ne front [] with rfl | hrestne
        · exact hscope
        · rw [← hbelow]
          exact hall front hrestne hrest
  · rintro ⟨names, hne, rfl, hleads, hall⟩
    induction names generalizing dir with
    | nil => exact absurd rfl hne
    | cons name names ih =>
      have hscope := hall [name] (List.cons_ne_nil _ _) ⟨names, rfl⟩
      have hentry := hleads [] name names rfl
      rw [hhere] at hentry
      rcases eq_or_ne names [] with rfl | hnames
      · rw [if_pos rfl] at hentry
        exact .file hentry hscope
      · rw [if_neg hnames] at hentry
        refine .directory hentry hscope (hbelow dir name names ▸ ih hnames ?_ ?_)
        · intro front next rest heq
          rw [hbelow]
          exact hleads (name :: front) next rest (by rw [heq]; rfl)
        · intro front hfrontne hfront
          rw [hbelow]
          exact hall (name :: front) (List.cons_ne_nil _ _)
            (List.cons_prefix_cons.mpr ⟨rfl, hfront⟩)

end Crawl

/-! ### Texts of paths -/

lemma joined_append {front rest : List Text} (hfront : front ≠ []) (hrest : rest ≠ []) :
    joined (front ++ rest) = joined front ++ '/' :: joined rest := by
  induction front with
  | nil => exact absurd rfl hfront
  | cons name front ih =>
    cases front with
    | nil =>
      obtain ⟨next, rest, rfl⟩ := List.exists_cons_of_ne_nil hrest
      rfl
    | cons next front =>
      have h := ih (List.cons_ne_nil _ _)
      rw [List.cons_append] at h
      rw [List.cons_append, List.cons_append, joined, h, joined, List.append_assoc]
      rfl

lemma joined_dropWhile {names : List Text} (hproper : ∀ name ∈ names, ProperName name) :
    (joined names).dropWhile (· = '/') = joined names := by
  cases names with
  | nil => rfl
  | cons name names =>
    obtain ⟨hne, hslash⟩ := hproper name List.mem_cons_self
    obtain ⟨c, name, rfl⟩ := List.exists_cons_of_ne_nil hne
    have hc : c ≠ '/' := fun h => hslash (h ▸ List.mem_cons_self)
    cases names <;> simp [joined, hc]

/-- The text of a path begins with that of the paths above it. -/
lemma text_below (root : TreePath) {names : List Text} (hnames : names ≠ []) :
    ∃ slash, (slash = [] ∨ slash = ['/']) ∧
      (root.below names).text = root.text ++ (slash ++ joined names) := by
  obtain ⟨anchor, above⟩ := root
  rcases eq_or_ne above [] with rfl | habove
  · exact ⟨[], .inl rfl, by simp [TreePath.below, TreePath.text, joined]⟩
  · exact ⟨['/'], .inr rfl, by simp [TreePath.below, TreePath.text, joined_append habove hnames]⟩

lemma prefix_below {root : TreePath} {names : List Text} (hnames : names ≠ []) :
    root.text <+: (root.below names).text := by
  obtain ⟨slash, -, h⟩ := text_below root hnames
  exact ⟨_, h.symm⟩

lemma relative_below {root : TreePath} {names : List Text} (hnames : names ≠ [])
    (hproper : ∀ name ∈ names, ProperName name) :
    relative root.text (root.below names).text = joined names := by
  obtain ⟨slash, hslash, h⟩ := text_below root hnames
  rw [relative, h, List.drop_left]
  rcases hslash with rfl | rfl
  · exact joined_dropWhile hproper
  · rw [List.singleton_append, List.dropWhile_cons_of_pos (by decide)]
    exact joined_dropWhile hproper

/-! ### What is in scope -/

variable {scope : IndexScope}

/-- A pattern matches what is left of the text of a path behind that of a root. -/
def Excluded (scope : IndexScope) (root path : TreePath) : Prop :=
  ∃ pattern ∈ scope.excludedPatterns, globMatch pattern (relative root.text path.text) = true

/-- The path lies in an included root, and no pattern matches it or a path between the root and it,
relative to the root. -/
def InScope (scope : IndexScope) (path : TreePath) : Prop :=
  ∃ root ∈ scope.includedRoots, ∃ names, names ≠ [] ∧ path = root.below names ∧
    ∀ front, front ≠ [] → front <+: names →
      ∀ pattern ∈ scope.excludedPatterns, ¬globMatch pattern (joined front) = true

lemma pathInScope_of_find {path root : TreePath}
    (h : (scope.includedRoots.find? fun root => root.text <+: path.text) = some root) :
    pathInScope scope path.text = true ↔ ¬Excluded scope root path := by
  rw [pathInScope, h]
  simp [Excluded]

lemma exists_root_of_pathInScope {path : TreePath} (h : pathInScope scope path.text = true) :
    ∃ root ∈ scope.includedRoots, root.text <+: path.text ∧ ¬Excluded scope root path := by
  cases hfind : scope.includedRoots.find? fun root => root.text <+: path.text with
  | none =>
    rw [pathInScope, hfind] at h
    cases h
  | some root =>
    refine ⟨root, List.mem_of_find?_eq_some hfind, ?_, (pathInScope_of_find hfind).mp h⟩
    simpa using List.find?_some hfind

lemma pathInScope_of_forall {path : TreePath}
    (hroot : ∃ root ∈ scope.includedRoots, root.text <+: path.text)
    (h : ∀ root ∈ scope.includedRoots, root.text <+: path.text → ¬Excluded scope root path) :
    pathInScope scope path.text = true := by
  obtain ⟨root, hroot, hbegins⟩ := hroot
  have hsome : (scope.includedRoots.find? fun root => root.text <+: path.text).isSome := by
    rw [List.find?_isSome]
    exact ⟨root, hroot, by simpa using hbegins⟩
  obtain ⟨found, hfound⟩ := Option.isSome_iff_exists.mp hsome
  rw [pathInScope_of_find hfound]
  exact h found (List.mem_of_find?_eq_some hfound) (by simpa using List.find?_some hfound)

/-- The first root whose text a path begins with decides. -/
lemma pathInScope_cons {path root : TreePath} {roots : List TreePath}
    (hbegins : root.text <+: path.text) :
    pathInScope (scope.withRoots (root :: roots)) path.text = true ↔ ¬Excluded scope root path := by
  have hfind : ((scope.withRoots (root :: roots)).includedRoots.find? fun root =>
      root.text <+: path.text) = some root :=
    List.find?_cons_of_pos (by simpa using hbegins)
  exact pathInScope_of_find hfind

/-! ### Where crawl, watcher and meaning agree -/

/-- The tree is small enough for the crawl, from each of the roots. -/
def WithinCaps (scope : IndexScope) (tree : DirectoryTree) : Prop :=
  (scope.includedRoots.map tree.dirs).sum ≤ maxDirs ∧
    (scope.includedRoots.map tree.files).sum ≤ maxFiles

lemma mem_crawlRoots {tree : DirectoryTree} (hcaps : WithinCaps scope tree) (path : TreePath) :
    path ∈ crawlRoots scope tree ↔ ∃ root ∈ scope.includedRoots, Reaches scope tree root path := by
  rw [crawlRoots, mem_crawl]
  · simp
  · rw [List.map_reverse, List.sum_reverse]
    exact hcaps.1
  · rw [List.map_reverse, List.sum_reverse, List.length_nil, Nat.zero_add]
    exact hcaps.2

lemma withinCaps_perm {tree : DirectoryTree} (hcaps : WithinCaps scope tree)
    {roots : List TreePath} (h : roots.Perm scope.includedRoots) :
    WithinCaps (scope.withRoots roots) tree :=
  ⟨((h.map tree.dirs).sum_eq).trans_le hcaps.1, ((h.map tree.files).sum_eq).trans_le hcaps.2⟩

/-- The crawl and the watcher agree, they do what is meant, and the order of the roots does not
matter. -/
structure Agree (scope : IndexScope) (tree : DirectoryTree) (path : TreePath) : Prop where
  crawled : path ∈ crawlRoots scope tree ↔ pathInScope scope path.text = true
  meant : pathInScope scope path.text = true ↔ InScope scope path
  order : ∀ roots : List TreePath, roots.Perm scope.includedRoots →
    (pathInScope (scope.withRoots roots) path.text = pathInScope scope path.text) ∧
    (path ∈ crawlRoots (scope.withRoots roots) tree ↔ path ∈ crawlRoots scope tree)

/-- Relative to each root whose text the path begins with some pattern matches the path; or the path
lies in a root so that none matches a path between them, or the path, relative to any root whose
text that path begins with. -/
def Settled (scope : IndexScope) (path : TreePath) : Prop :=
  (∀ root ∈ scope.includedRoots, root.text <+: path.text → Excluded scope root path) ∨
  ∃ root ∈ scope.includedRoots, ∃ names, names ≠ [] ∧ path = root.below names ∧
    ∀ front, front ≠ [] → front <+: names → ∀ other ∈ scope.includedRoots,
      other.text <+: (root.below front).text → ¬Excluded scope other (root.below front)

lemma settled_perm {path : TreePath} (h : Settled scope path) {roots : List TreePath}
    (hroots : roots.Perm scope.includedRoots) : Settled (scope.withRoots roots) path := by
  rcases h with h | ⟨root, hroot, names, hne, hpath, hall⟩
  · exact .inl fun root hroot => h root (hroots.mem_iff.mp hroot)
  · exact .inr ⟨root, hroots.mem_iff.mpr hroot, names, hne, hpath, fun front hfront hbegins other
      hother => hall front hfront hbegins other (hroots.mem_iff.mp hother)⟩

lemma proper_of_has {tree : DirectoryTree} {path : TreePath} (h : tree.Has path) :
    ∀ name ∈ path.names, ProperName name := by
  intro name hname
  obtain ⟨front, rest, heq⟩ := List.append_of_mem hname
  exact tree.proper _ _ (h front name rest heq)

/-- The names below a root lead to a file of the tree. -/
lemma leads_of_has {tree : DirectoryTree} {root : TreePath} {names : List Text}
    (h : tree.Has (root.below names)) : tree.Leads root names := by
  intro front name rest heq
  have hentry := h (root.names ++ front) name rest (by simp [TreePath.below, heq])
  simpa [TreePath.below] using hentry

/-- Where the condition holds, all answers are the same. -/
lemma eq_answers_of_settled {tree : DirectoryTree} {path : TreePath} (hcaps : WithinCaps scope tree)
    (hhas : tree.Has path) (h : Settled scope path) :
    (path ∈ crawlRoots scope tree ↔ pathInScope scope path.text = true) ∧
      (pathInScope scope path.text = true ↔
        ¬∀ root ∈ scope.includedRoots, root.text <+: path.text → Excluded scope root path) := by
  rw [mem_crawlRoots hcaps]
  rcases h with hall | ⟨root, hroot, names, hne, rfl, hall⟩
  · have hout : ¬pathInScope scope path.text = true := by
      intro hin
      obtain ⟨root, hroot, hbegins, hnot⟩ := exists_root_of_pathInScope hin
      exact hnot (hall root hroot hbegins)
    refine ⟨iff_of_false ?_ hout, iff_of_false hout (not_not.mpr hall)⟩
    rintro ⟨root, -, hreach⟩
    obtain ⟨names, hne, rfl, -, hscope⟩ := reaches_below.mp hreach
    exact hout (hscope names hne List.prefix_rfl)
  · have hin (front : List Text) (hfront : front ≠ []) (hbegins : front <+: names) :
        pathInScope scope (root.below front).text = true :=
      pathInScope_of_forall ⟨root, hroot, prefix_below hfront⟩ (hall front hfront hbegins)
    have hpath := hin names hne List.prefix_rfl
    refine ⟨iff_of_true ⟨root, hroot, ?_⟩ hpath, iff_of_true hpath fun hexcluded => ?_⟩
    · exact reaches_below.mpr ⟨names, hne, rfl, leads_of_has hhas, hin⟩
    · exact hall names hne List.prefix_rfl root hroot (prefix_below hne)
        (hexcluded root hroot (prefix_below hne))

lemma agree_of_settled {tree : DirectoryTree} {path : TreePath} (hcaps : WithinCaps scope tree)
    (hhas : tree.Has path) (h : Settled scope path) : Agree scope tree path := by
  obtain ⟨hcrawled, hin⟩ := eq_answers_of_settled hcaps hhas h
  refine ⟨hcrawled, hin.trans ⟨fun hsome => ?_, ?_⟩, fun roots hroots => ?_⟩
  · obtain ⟨root, hroot, names, hne, rfl, hall⟩ := h.resolve_left hsome
    refine ⟨root, hroot, names, hne, rfl, fun front hfront hbegins pattern hpattern hmatch => ?_⟩
    refine hall front hfront hbegins root hroot (prefix_below hfront) ⟨pattern, hpattern, ?_⟩
    rwa [relative_below hfront]
    intro name hname
    exact proper_of_has hhas name (List.mem_append_right _ (hbegins.subset hname))
  · rintro ⟨root, hroot, names, hne, rfl, hall⟩ hexcluded
    obtain ⟨pattern, hpattern, hmatch⟩ := hexcluded root hroot (prefix_below hne)
    rw [relative_below hne fun name hname =>
      proper_of_has hhas name (List.mem_append_right _ hname)] at hmatch
    exact hall names hne List.prefix_rfl pattern hpattern hmatch
  · obtain ⟨hcrawled', hin'⟩ :=
      eq_answers_of_settled (withinCaps_perm hcaps hroots) hhas (settled_perm h hroots)
    have hsame : pathInScope (scope.withRoots roots) path.text = true ↔
        pathInScope scope path.text = true := by
      rw [hin, hin']
      refine not_congr (forall_congr' fun root => ?_)
      exact imp_congr_left hroots.mem_iff
    exact ⟨Bool.eq_iff_iff.mpr hsame, hcrawled'.trans (hsame.trans hcrawled.symm)⟩

/-- The names below the lower one of two roots are the last ones below the other. -/
lemma exists_between {root root' : TreePath} {names names' : List Text}
    (h : root.below names = root'.below names') (hle : names.length ≤ names'.length) :
    ∃ between, names' = between ++ names ∧
      ∀ front, root.below front = root'.below (between ++ front) := by
  obtain ⟨hanchor, hnames⟩ := TreePath.mk.inj h
  rcases List.append_eq_append_iff.mp hnames with
    ⟨between, habove, hbelow⟩ | ⟨between, habove, hbelow⟩
  · rw [hbelow, List.length_append] at hle
    obtain rfl : between = [] := List.eq_nil_of_length_eq_zero (by omega)
    rw [List.append_nil] at habove
    exact ⟨[], hbelow.symm, fun front => by simp [TreePath.below, hanchor, habove]⟩
  · exact ⟨between, hbelow, fun front => by simp [TreePath.below, hanchor, habove]⟩

lemma settled_of_agree {tree : DirectoryTree} {path : TreePath} (hcaps : WithinCaps scope tree)
    (h : Agree scope tree path) : Settled scope path := by
  by_cases hall : ∀ root ∈ scope.includedRoots, root.text <+: path.text → Excluded scope root path
  · exact .inl hall
  push Not at hall
  obtain ⟨root₀, hroot₀, hbegins₀, hnot₀⟩ := hall
  have hfirst {root : TreePath} (hroot : root ∈ scope.includedRoots) :
      (root :: scope.includedRoots.erase root).Perm scope.includedRoots :=
    (List.perm_cons_erase hroot).symm
  have hin : pathInScope scope path.text = true := by
    rw [← (h.order _ (hfirst hroot₀)).1]
    exact (pathInScope_cons hbegins₀).mpr hnot₀
  have hreach {roots : List TreePath} (hroots : roots.Perm scope.includedRoots) :
      ∃ root ∈ roots, ∃ names, names ≠ [] ∧ path = root.below names ∧
        ∀ front, front ≠ [] → front <+: names →
          pathInScope (scope.withRoots roots) (root.below front).text = true := by
    have hcrawl := (h.order roots hroots).2.mpr (h.crawled.mpr hin)
    obtain ⟨root, hroot, hreach⟩ := (mem_crawlRoots (withinCaps_perm hcaps hroots) path).mp hcrawl
    obtain ⟨names, hne, hpath, -, hscope⟩ := reaches_below.mp hreach
    exact ⟨root, hroot, names, hne, hpath, hscope⟩
  -- the lowest root around the path
  have hexists : ∃ k, ∃ root ∈ scope.includedRoots, ∃ names,
      names.length = k ∧ names ≠ [] ∧ path = root.below names := by
    obtain ⟨root, hroot, names, hne, hpath, -⟩ := hreach (List.Perm.refl _)
    exact ⟨_, root, hroot, names, rfl, hne, hpath⟩
  classical
  obtain ⟨root, hroot, names, hlength, hne, hpath⟩ := Nat.find_spec hexists
  refine .inr ⟨root, hroot, names, hne, hpath, fun front hfront hbegins other hother habove => ?_⟩
  obtain ⟨root', hroot', names', hne', hpath', hscope⟩ := hreach (hfirst hother)
  have hle : names.length ≤ names'.length := by
    rw [hlength]
    exact Nat.find_min' hexists
      ⟨root', (hfirst hother).mem_iff.mp hroot', names', rfl, hne', hpath'⟩
  obtain ⟨between, rfl, hbelow⟩ := exists_between (hpath.symm.trans hpath') hle
  have haccepted := hscope (between ++ front) (List.append_ne_nil_of_right_ne_nil _ hfront)
    ((List.prefix_append_right_inj between).mpr hbegins)
  rw [← hbelow] at haccepted
  exact (pathInScope_cons habove).mp haccepted

/-- The crawl and the watcher agree and do what is meant exactly on the settled paths; and a pattern
means what it is said to mean if and only if it has no `?`. -/
theorem indexScope_iff (scope : IndexScope) (tree : DirectoryTree) (path : TreePath)
    (hcaps : WithinCaps scope tree) (hhas : tree.Has path) (pattern : Text) :
    (Agree scope tree path ↔ Settled scope path) ∧
      ((∀ target, globMatch pattern target = true ↔ GlobMeans pattern target) ↔ '?' ∉ pattern) :=
  ⟨⟨settled_of_agree hcaps, agree_of_settled hcaps hhas⟩, globMatch_iff pattern⟩

/-- A directory `a` and beside it a file `ab`. -/
def besideTree : DirectoryTree where
  entries dir := if dir.names = [] then [("a".toList, .directory), ("ab".toList, .file)] else []
  proper := by
    intro dir entry hentry
    split_ifs at hentry
    · rcases List.mem_cons.mp hentry with rfl | hentry
      · exact ⟨by decide, by decide⟩
      · rw [List.mem_singleton.mp hentry]
        exact ⟨by decide, by decide⟩
    · cases hentry
  dirs dir := if dir.names = [] then 2 else 1
  files dir := if dir.names = [] then 1 else 0
  dirs_eq := by
    intro dir
    by_cases h : dir.names = [] <;> simp [h, TreePath.below]
  files_eq := by
    intro dir
    by_cases h : dir.names = [] <;> simp [h, TreePath.below]

/-- The directory `a` is indexed. -/
def insideOnly : IndexScope := ⟨[⟨"local:/".toList, ["a".toList]⟩], []⟩

/-- The file `ab` -/
def besideFile : TreePath := ⟨"local:/".toList, ["ab".toList]⟩

lemma besideTree_has : besideTree.Has besideFile := by
  intro front name rest heq
  cases front with
  | nil =>
    obtain ⟨rfl, rfl⟩ := List.cons.inj heq
    decide
  | cons a front => exact absurd (List.cons.inj heq).2 (by simp)

theorem indexScope_iff_beside :
    Agree insideOnly besideTree besideFile ↔ Settled insideOnly besideFile :=
  (indexScope_iff insideOnly besideTree besideFile ⟨by decide, by decide⟩ besideTree_has []).1

/-- The watcher takes the file `ab` beside the included directory `a` to be in it. -/
theorem not_indexScope : ¬ ∀ (scope : IndexScope) (tree : DirectoryTree) (path : TreePath),
    WithinCaps scope tree → tree.Has path → Agree scope tree path := by
  intro h
  have hagree := h insideOnly besideTree besideFile ⟨by decide, by decide⟩ besideTree_has
  obtain ⟨root, hroot, names, -, hpath, -⟩ := hagree.meant.mp (by decide)
  obtain rfl := List.mem_singleton.mp hroot
  exact absurd (TreePath.mk.inj hpath).2 (by simp)

end Orchid.Search
