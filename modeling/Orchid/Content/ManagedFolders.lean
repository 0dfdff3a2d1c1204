import Mathlib.Data.Char
import Mathlib.Data.List.Lex
import Orchid.Content.Ingest
import Orchid.Fs.Path
import Orchid.Lib.Joined

/-!
# Folders of managed files

A managed folder takes the files below it. Whether a path is below a folder is decided by its text
alone, so that `/foobar` is taken for a path below `/foo`, and of nested folders the outermost is
found. The tables are kept in the order of the paths' texts.
-/

namespace Orchid.Content

open Lib Fs

variable {H : Type} [DecidableEq H]

structure ManagedFolderConfig where
  path : FsPath
  enabled : Bool
  autoIngest : Bool
  deriving DecidableEq

/-- The key of a folder in its table. -/
def ManagedFolderConfig.key (f : ManagedFolderConfig) : Text := f.path.text

/-- The table of the folders. -/
abbrev Folders := KeyedMap ManagedFolderConfig.key

/-- The table of the manifests, by the texts of the paths. -/
abbrev Manifests (H : Type) := KeyedMap (Prod.fst : Text × FileManifest H → Text)

structure ManagedFolderStats where
  filesTracked : ℕ
  logicalBytes : ℕ
  uniqueChunks : ℕ
  physicalBytes : ℕ
  deriving DecidableEq

/-- `FsError::NotManagedFolder` -/
inductive FolderError
  | notManagedFolder (path : Text)
  deriving DecidableEq

def configForPath (folders : Folders) (path : FsPath) : Option ManagedFolderConfig :=
  folders.toList.find? fun f => f.enabled && f.autoIngest && decide (f.path.text <+: path.text)

def pathIsUnderManaged (folders : Folders) (path : FsPath) : Bool :=
  (configForPath folders path).isSome

/-- The counters of `folder_stats` and the chunks they have counted. -/
structure Tally (H : Type) where
  filesTracked : ℕ
  logicalBytes : ℕ
  physicalBytes : ℕ
  unique : List H

/-- One chunk of a manifest. -/
def Tally.chunk (acc : Tally H) (chunk : ChunkRef H) : Tally H :=
  if chunk.hash ∈ acc.unique then acc
  else { acc with
    unique := chunk.hash :: acc.unique
    physicalBytes := acc.physicalBytes + chunk.length }

/-- One manifest of the folder. -/
def Tally.manifest (acc : Tally H) (manifest : FileManifest H) : Tally H :=
  manifest.chunks.foldl Tally.chunk { acc with
    filesTracked := acc.filesTracked + 1
    logicalBytes := acc.logicalBytes + manifest.totalSize }

/-- One row of the table; those whose text does not begin with the folder's are left out. -/
def Tally.item (folder : Text) (acc : Tally H) (item : Text × FileManifest H) : Tally H :=
  if folder <+: item.1 then acc.manifest item.2 else acc

def Tally.stats (acc : Tally H) : ManagedFolderStats :=
  ⟨acc.filesTracked, acc.logicalBytes, acc.unique.length, acc.physicalBytes⟩

def folderStats (folders : Folders) (manifests : Manifests H) (path : FsPath) :
    Except FolderError ManagedFolderStats :=
  if folders.toList.any fun f => f.path = path then
    .ok (manifests.toList.foldl (Tally.item path.text) ⟨0, 0, 0, []⟩).stats
  else .error (.notManagedFolder path.text)

/-! ### Below a folder -/

/-- A component of a path ends at a slash, and at the mark of what is within an archive. -/
def endsComponent (path : Text) (c : Char) : Bool :=
  c == '/' || (c == '#' && FsPath.scheme ⟨path⟩ == schemeArchive)

/-- The components of the folder's path are the first ones of the path. -/
def Inside (path folder : Text) : Prop :=
  folder <+: path ∧ (path = folder ∨ folder.getLast?.any (endsComponent path) = true ∨
    (path.drop folder.length).head?.any (endsComponent path) = true)

instance (path folder : Text) : Decidable (Inside path folder) :=
  inferInstanceAs (Decidable (_ ∧ _))

/-- The folder takes new files by itself. -/
def ManagedFolderConfig.Watches (f : ManagedFolderConfig) : Prop :=
  f.enabled = true ∧ f.autoIngest = true

/-- The folder of a path is the innermost one that the path is inside of, if there is one. -/
structure RightFolder (folders : Folders) (path : FsPath) : Prop where
  managed_iff : pathIsUnderManaged folders path = true ↔
    ∃ f ∈ folders, f.Watches ∧ Inside path.text f.path.text
  innermost : ∀ f, configForPath folders path = some f →
    f ∈ folders ∧ f.Watches ∧ Inside path.text f.path.text ∧
      ∀ g ∈ folders, g.Watches → Inside path.text g.path.text → Inside f.path.text g.path.text

/-- The manifests of the paths inside of a folder. -/
def statsInside (manifests : Manifests H) (path : FsPath) : ManagedFolderStats :=
  (((manifests.toList.filter fun item => Inside item.1 path.text).map Prod.snd).foldl
    Tally.manifest ⟨0, 0, 0, []⟩).stats

/-- The path is inside of one watching folder at most, and a folder whose text only begins that of
the path has the text of such a folder in front. -/
structure Unambiguous (folders : Folders) (path : FsPath) : Prop where
  single : ∀ f ∈ folders, ∀ g ∈ folders, f.Watches → g.Watches → Inside path.text f.path.text →
    Inside path.text g.path.text → f = g
  unshadowed : ∀ f ∈ folders, f.Watches → f.path.text <+: path.text →
    ¬ Inside path.text f.path.text → ∃ g ∈ folders, g.Watches ∧ Inside path.text g.path.text ∧
      g.path.text.length < f.path.text.length

section Membership

variable {folders : Folders} {path : FsPath} {f : ManagedFolderConfig}

lemma inside_self (t : Text) : Inside t t := ⟨List.prefix_rfl, .inl rfl⟩

/-- The keys of two folders that begin one text are ordered by their lengths. -/
lemma prefix_of_le {p q t : Text} (hp : p <+: t) (hq : q <+: t) (h : p ≤ q) : p <+: q := by
  rcases List.prefix_or_prefix_of_prefix hp hq with hpq | hqp
  · exact hpq
  · rcases h.eq_or_lt with heq | hlt
    · exact heq ▸ List.prefix_rfl
    · exact absurd hlt hqp.le

/-- The folder that is found is the one with the shortest text that begins the path. -/
lemma configForPath_spec :
    (configForPath folders path = none ∧
        ∀ f ∈ folders, f.Watches → ¬ f.path.text <+: path.text) ∨
      ∃ f ∈ folders, configForPath folders path = some f ∧ f.Watches ∧
        f.path.text <+: path.text ∧ ∀ g ∈ folders, g.Watches → g.path.text <+: path.text →
          f.path.text <+: g.path.text := by
  cases hfind : configForPath folders path with
  | none =>
    refine .inl ⟨rfl, fun f hf hw hp => ?_⟩
    have := List.find?_eq_none.mp hfind f hf
    simp [hw.1, hw.2, hp] at this
  | some f =>
    obtain ⟨hprop, front, back, hlist, hfront⟩ := List.find?_eq_some_iff_append.mp hfind
    simp only [Bool.and_eq_true, decide_eq_true_eq] at hprop
    have hmem : f ∈ folders.toList := by rw [hlist]; simp
    refine .inr ⟨f, hmem, rfl, hprop.1, hprop.2, fun g hg hw hp => ?_⟩
    have hsorted := folders.sorted
    rw [hlist, List.pairwise_append, List.pairwise_cons] at hsorted
    have hg' : g ∈ front ++ f :: back := hlist ▸ hg
    rcases List.mem_append.mp hg' with hg' | hg'
    · have := hfront g hg'
      simp [hw.1, hw.2, hp] at this
    · obtain rfl | hg' := List.mem_cons.mp hg'
      · exact List.prefix_rfl
      · exact prefix_of_le hprop.2 hp (hsorted.2.1.1 g hg').le

/-- Folders are told apart by their paths. -/
lemma eq_of_text_eq {f g : ManagedFolderConfig} (hf : f ∈ folders) (hg : g ∈ folders)
    (h : f.path.text = g.path.text) : f = g :=
  KeyedMap.eq_of_key_eq hf hg h

/-- The folder of a path is right exactly if nothing about it is ambiguous. -/
lemma rightFolder_iff : RightFolder folders path ↔ Unambiguous folders path := by
  rcases @configForPath_spec folders path with ⟨hnone, hno⟩ | ⟨f, hf, hfind, hw, hp, hleast⟩
  · have hnot : pathIsUnderManaged folders path = false := by rw [pathIsUnderManaged, hnone]; rfl
    refine iff_of_true ⟨?_, fun f h => by rw [hnone] at h; cases h⟩ ⟨?_, ?_⟩
    · refine iff_of_false (by simp [hnot]) ?_
      rintro ⟨f, hf, hw, hin⟩
      exact hno f hf hw hin.1
    · exact fun f hf _ _ hw _ hin => absurd hin.1 (hno f hf hw)
    · exact fun f hf hw hp => absurd hp (hno f hf hw)
  · constructor
    · intro hright
      obtain ⟨-, -, hin, hinner⟩ := hright.innermost f hfind
      have hsame (g : ManagedFolderConfig) (hg : g ∈ folders) (hwg : g.Watches)
          (hing : Inside path.text g.path.text) : f = g := by
        refine eq_of_text_eq hf hg ?_
        exact (hleast g hg hwg hing.1).eq_of_length_le (hinner g hg hwg hing).1.length_le
      refine ⟨fun g hg g' hg' hwg hwg' hing hing' => ?_, fun g hg hwg hpg hout => ?_⟩
      · rw [← hsame g hg hwg hing, ← hsame g' hg' hwg' hing']
      · refine ⟨f, hf, hw, hin, lt_of_le_of_ne (hleast g hg hwg hpg).length_le fun hlen => ?_⟩
        exact hout ((hleast g hg hwg hpg).eq_of_length hlen ▸ hin)
    · intro hun
      have hin : Inside path.text f.path.text := by
        by_contra hout
        obtain ⟨g, hg, hwg, hing, hlt⟩ := hun.unshadowed f hf hw hp hout
        exact absurd (hleast g hg hwg hing.1).length_le (not_le.mpr hlt)
      refine ⟨iff_of_true (by rw [pathIsUnderManaged, hfind]; rfl) ⟨f, hf, hw, hin⟩, fun g hg => ?_⟩
      obtain rfl := Option.some.inj (hfind.symm.trans hg)
      refine ⟨hf, hw, hin, fun g hg hwg hing => ?_⟩
      rw [hun.single f hf g hg hw hwg hin hing]
      exact inside_self _

/-! ### Statistics -/

lemma Tally.foldl_chunk (cs : List (ChunkRef H)) (acc : Tally H) :
    (cs.foldl Tally.chunk acc).filesTracked = acc.filesTracked := by
  induction cs generalizing acc with
  | nil => rfl
  | cons c cs ih =>
    rw [List.foldl_cons, ih, Tally.chunk]
    split_ifs <;> rfl

lemma filesTracked_foldl (ms : List (FileManifest H)) (acc : Tally H) :
    (ms.foldl Tally.manifest acc).filesTracked = acc.filesTracked + ms.length := by
  induction ms generalizing acc with
  | nil => rfl
  | cons m ms ih =>
    rw [List.foldl_cons, ih, Tally.manifest, Tally.foldl_chunk, List.length_cons]
    dsimp only
    omega

lemma foldl_item (folder : Text) (items : List (Text × FileManifest H)) (acc : Tally H) :
    items.foldl (Tally.item folder) acc =
      ((items.filter fun item => folder <+: item.1).map Prod.snd).foldl Tally.manifest acc := by
  induction items generalizing acc with
  | nil => rfl
  | cons item items ih =>
    rw [List.foldl_cons, ih, Tally.item]
    by_cases h : folder <+: item.1
    · rw [if_pos h, List.filter_cons_of_pos (by simpa using h), List.map_cons, List.foldl_cons]
    · rw [if_neg h, List.filter_cons_of_neg (by simpa using h)]

/-- What the manifests whose text begins with the folder's add up to is what those inside of it do
exactly if there are no others. -/
lemma stats_foldl_item_iff (manifests : Manifests H) :
    (manifests.toList.foldl (Tally.item path.text) ⟨0, 0, 0, []⟩).stats =
        statsInside manifests path ↔
      ∀ item ∈ manifests, path.text <+: item.1 → Inside item.1 path.text := by
  rw [foldl_item, statsInside]
  constructor
  · intro h item hitem hp
    by_contra hout
    have htracked := congrArg ManagedFolderStats.filesTracked h
    simp only [Tally.stats, filesTracked_foldl, List.length_map, Nat.zero_add] at htracked
    rw [← List.countP_eq_length_filter, ← List.countP_eq_length_filter] at htracked
    obtain ⟨front, back, hlist⟩ := List.append_of_mem hitem
    have hle (items : List (Text × FileManifest H)) :
        items.countP (fun item => decide (Inside item.1 path.text)) ≤
          items.countP fun item => decide (path.text <+: item.1) := by
      refine List.countP_mono_left fun item _ hin => ?_
      exact decide_eq_true (of_decide_eq_true hin).1
    rw [hlist, List.countP_append, List.countP_append, List.countP_cons_of_pos (by simpa using hp),
      List.countP_cons_of_neg (by simpa using hout)] at htracked
    have hfront := hle front
    have hback := hle back
    omega
  · intro h
    have hfilter : (manifests.toList.filter fun item => decide (path.text <+: item.1)) =
        manifests.toList.filter fun item => decide (Inside item.1 path.text) := by
      refine List.filter_congr fun item hitem => ?_
      exact decide_eq_decide.mpr ⟨h item hitem, fun hin => hin.1⟩
    rw [hfilter]

/-- The statistics are those of the manifests inside of a registered folder. -/
structure RightStats (folders : Folders) (manifests : Manifests H) (path : FsPath) : Prop where
  registered : (∃ f ∈ folders, f.path = path) →
    folderStats folders manifests path = .ok (statsInside manifests path)
  unregistered : (¬ ∃ f ∈ folders, f.path = path) →
    folderStats folders manifests path = .error (.notManagedFolder path.text)

lemma rightStats_iff (manifests : Manifests H) : RightStats folders manifests path ↔
    ((∃ f ∈ folders, f.path = path) → ∀ item ∈ manifests, path.text <+: item.1 →
      Inside item.1 path.text) := by
  have hany : (folders.toList.any fun f => f.path = path) = true ↔
      ∃ f ∈ folders, f.path = path := by
    rw [List.any_eq_true]
    simp only [decide_eq_true_eq]
    exact Iff.rfl
  constructor
  · intro h hreg
    have hstats := h.registered hreg
    rw [folderStats, if_pos (hany.mpr hreg), Except.ok.injEq] at hstats
    exact stats_foldl_item_iff manifests |>.mp hstats
  · intro h
    refine ⟨fun hreg => ?_, fun hreg => ?_⟩
    · rw [folderStats, if_pos (hany.mpr hreg), (stats_foldl_item_iff manifests).mpr (h hreg)]
    · rw [folderStats, if_neg (mt hany.mp hreg)]

/-- A path has the right folder exactly if nothing about it is ambiguous, and the statistics of a
registered folder are right exactly if every manifest whose text begins with the folder's is inside
of it. -/
theorem membership_iff (folders : Folders) (manifests : Manifests H) (path : FsPath) :
    (RightFolder folders path ↔ Unambiguous folders path) ∧
    (RightStats folders manifests path ↔
      ((∃ f ∈ folders, f.path = path) → ∀ item ∈ manifests, path.text <+: item.1 →
        Inside item.1 path.text)) :=
  ⟨rightFolder_iff, rightStats_iff manifests⟩

/-- A folder that takes the files of its neighbour. -/
theorem not_membership : ¬ ∀ (folders : Folders) (path : FsPath),
    RightFolder folders path := by
  intro h
  have hright := h ⟨[⟨⟨"local:/foo".toList⟩, true, true⟩], List.pairwise_singleton _ _⟩
    ⟨"local:/foobar/a".toList⟩
  have hin := (hright.innermost ⟨⟨"local:/foo".toList⟩, true, true⟩ (by decide)).2.2.1
  exact absurd hin (by decide)

end Membership

end Orchid.Content
