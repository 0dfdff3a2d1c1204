import Mathlib.Data.Set.Finite.Basic
import Mathlib.Data.List.Sort
import Orchid.Fs.Laws
import Orchid.Lib.Chunks

/-!
# Splitting a file and joining its parts

`split_file`, `discover_parts` and `join_files` of `orchid-fs/src/operations/split.rs`, on the names
of one directory. They are names that `FsPath` keeps, with no backslash and more than dots in front
of a `#`, in a directory with no `#` in its own path. A buffer that is too large and a part number
that leaves its type are panics: then there is no result.
-/

namespace Orchid.Fs

open Lib (chunks)

/-! ### Directories -/

inductive Entry
  | file (bytes : Bytes)
  | directory

/-- What stands under each name; finitely many names are taken. -/
structure Directory where
  entry : Text → Option Entry
  finite : {name | entry name ≠ none}.Finite

/-- How an operation fails. -/
inductive PartError
  | path (e : FsError)
  | missing (name : Text)
  | isDirectory (name : Text)

namespace Directory

/-- An entry is put under a name, or taken away from it. -/
def put (dir : Directory) (name : Text) (e : Option Entry) : Directory where
  entry := fun n => if n = name then e else dir.entry n
  finite := by
    refine (dir.finite.insert name).subset fun n hn => ?_
    by_cases h : n = name
    · exact .inl h
    · exact .inr fun hnone => hn ((if_neg h).trans hnone)

/-- `write`, which replaces a file. -/
def write (dir : Directory) (name : Text) (bytes : Bytes) : Except PartError Directory :=
  match dir.entry name with
  | some .directory => .error (.isDirectory name)
  | _ => .ok (dir.put name (some (.file bytes)))

/-- The bytes of a file, read to its end. -/
def read (dir : Directory) (name : Text) : Except PartError Bytes :=
  match dir.entry name with
  | none => .error (.missing name)
  | some .directory => .error (.isDirectory name)
  | some (.file bytes) => .ok bytes

/-- The names that are taken, in the order in which the system lists them. -/
structure Lists (dir : Directory) (listing : List Text) : Prop where
  nodup : listing.Nodup
  mem_iff : ∀ name, name ∈ listing ↔ dir.entry name ≠ none

lemma exists_lists (dir : Directory) : ∃ listing, dir.Lists listing :=
  ⟨dir.finite.toFinset.toList, Finset.nodup_toList _, fun name => by simp⟩

end Directory

/-! ### Splitting -/

/-- `file_name` of a path to a name of the directory; it ends in front of a `#`. -/
def fileName (name : Text) : Text := before '#' name

/-- This is what `FsPath` takes for the name. -/
lemma fileName_of {dirBody name : Text} (hdir : '#' ∉ dirBody) (hslash : '/' ∉ name)
    (hne : before '#' name ≠ []) :
    (FsPath.of schemeLocal (dirBody ++ '/' :: name)).fileName = some (fileName name) := by
  have hname : '/' ∉ before '#' name := fun h => hslash ((List.takeWhile_subset _) h)
  have hbefore : before '#' (dirBody ++ '/' :: name) = dirBody ++ '/' :: before '#' name := by
    unfold before
    rw [List.takeWhile_append_of_pos fun c hc => by simpa using ne_of_mem_of_not_mem hc hdir,
      List.takeWhile_cons_of_pos (by decide)]
  exact FsPath.fileName_local (a := dirBody) (by
    rw [hbefore, FsPath.trimEndSlashes_append_cons hne hname, rsplitOnce_append hname]
    rfl)

/-- `{stem}.{idx:03}` -/
def partName (stem : Text) (idx : ℕ) : Text := stem ++ '.' :: pad 3 idx

/-- The loop of `split_file` over what is read into its buffer, a piece a round; behind a short
piece and in front of an empty one it ends. -/
def writeParts (stem : Text) :
    ℕ → Directory → List Bytes → Option (Directory × Except PartError (List Text))
  | _, dir, [] => some (dir, .ok [])
  | idx, dir, piece :: rest =>
    match dir.write (partName stem idx) piece with
    | .error e => some (dir, .error e)
    | .ok dir =>
      if idx + 1 < 2 ^ 32 then
        (writeParts stem (idx + 1) dir rest).map fun r =>
          (r.1, r.2.map fun parts => partName stem idx :: parts)
      else none

/-- `split_file` -/
def splitFile (dir : Directory) (src : Text) (chunkBytes : U64) :
    Option (Directory × Except PartError (List Text)) :=
  if chunkBytes = 0 then
    some (dir, .error (.path (.invalidPath "split size must be greater than 0".toList)))
  else
    match dir.entry src with
    | none => some (dir, .error (.missing src))
    | some e =>
      if chunkBytes.val < 2 ^ 63 then
        match e with
        | .directory => some (dir, .error (.isDirectory src))
        | .file bytes => writeParts (fileName src) 1 dir (chunks chunkBytes.val bytes)
      else none

/-! ### Joining -/

/-- The number of a name that is a part of a file. -/
def partOf (stem name : Text) : Option ℕ :=
  (rsplitOnce '.' (fileName name)).bind fun r => if r.1 = stem then parseU32 r.2 else none

/-- An ending of three digits. -/
def isPartExt (ext : Text) : Bool := ext.length = 3 ∧ ext.all Char.isDigit

/-- `discover_parts`, given the names in the directory. -/
def discoverParts (listing : List Text) (name : Text) : List Text :=
  match rsplitOnce '.' (fileName name) with
  | none => [name]
  | some (stem, ext) =>
    if isPartExt ext then
      let found := (listing.filterMap fun n => (partOf stem n).map fun i => (i, n)).insertionSort
        fun a b => a.1 ≤ b.1
      if found = [] then [name] else found.map Prod.snd
    else [name]

/-- `join_output_name` -/
def joinOutputName (name : Text) : Text :=
  match rsplitOnce '.' (fileName name) with
  | none => fileName name ++ ".joined".toList
  | some (stem, ext) => if isPartExt ext then stem else fileName name ++ ".joined".toList

/-- The parts behind each other, as far as they can be read; none of them is `dest`. -/
def copyParts (dest : Text) : List Text → Bytes → Directory → Directory × Except PartError Unit
  | [], _, dir => (dir, .ok ())
  | p :: parts, written, dir =>
    match dir.read p with
    | .error e => (dir, .error e)
    | .ok bytes =>
      copyParts dest parts (written ++ bytes) (dir.put dest (some (.file (written ++ bytes))))

/-- `join_files` -/
def joinFiles (dir : Directory) (parts : List Text) (dest : Text) :
    Directory × Except PartError Unit :=
  if parts = [] then (dir, .error (.path (.invalidPath "no parts to join".toList)))
  else
    match dir.write dest [] with
    | .error e => (dir, .error e)
    | .ok dir => copyParts dest parts [] dir

/-! ### Names -/

lemma rsplitOnce_partName {stem : Text} (hstem : '#' ∉ stem) (i : ℕ) :
    rsplitOnce '.' (fileName (partName stem i)) = some (stem, pad 3 i) := by
  have hkept : fileName (partName stem i) = partName stem i := by
    refine before_of_notMem fun h => ?_
    rcases List.mem_append.mp h with h | h
    · exact hstem h
    · exact Bool.false_ne_true (isDigit_pad '#' ((List.mem_cons.mp h).resolve_left (by decide)))
  rw [hkept]
  exact rsplitOnce_append (fun h => Bool.false_ne_true (isDigit_pad '.' h)) stem

lemma partName_injective (stem : Text) : Function.Injective (partName stem) := by
  intro i j h
  have hpad := (List.cons.inj (List.append_cancel_left h)).2
  have hparse := parseDigits_pad 3 i
  rw [hpad, parseDigits_pad] at hparse
  exact (Option.some.inj hparse).symm

lemma partOf_partName {stem : Text} (hstem : '#' ∉ stem) {i : ℕ} (h : i < 2 ^ 32) :
    partOf stem (partName stem i) = some i := by
  rw [partOf, rsplitOnce_partName hstem, Option.bind_some, if_pos rfl, parseU32_pad h]

/-- A file is none of its parts. -/
lemma partOf_self (stem : Text) : partOf stem stem = none := by
  unfold partOf
  cases hsplit : rsplitOnce '.' (fileName stem) with
  | none => rfl
  | some r =>
    obtain ⟨hs, -⟩ :=
      rsplitOnce_eq_some (show rsplitOnce '.' (fileName stem) = some (r.1, r.2) from hsplit)
    rw [Option.bind_some, if_neg]
    intro h
    have hlen := congrArg List.length hs
    have hle : (fileName stem).length ≤ stem.length := FsPath.length_before_le '#' stem
    rw [h, List.length_append, List.length_cons] at hlen
    omega

lemma isPartExt_one : isPartExt (pad 3 1) = true := by decide

lemma joinOutputName_partName {stem : Text} (hstem : '#' ∉ stem) :
    joinOutputName (partName stem 1) = stem := by
  rw [joinOutputName, rsplitOnce_partName hstem]
  exact if_pos isPartExt_one

/-! ### What is written -/

variable {dir dir' : Directory} {stem : Text}

lemma write_eq_ok_iff {name : Text} {bytes : Bytes} : dir.write name bytes = .ok dir' ↔
    dir.entry name ≠ some .directory ∧ dir.put name (some (.file bytes)) = dir' := by
  unfold Directory.write
  split
  · rename_i h
    simp [h]
  · rename_i h
    exact ⟨fun heq => ⟨h, Except.ok.inj heq⟩, fun hput => congrArg _ hput.2⟩

/-- The names of some parts. -/
def partNames (stem : Text) (idx n : ℕ) : List Text := (List.range' idx n).map (partName stem)

lemma mem_partNames {idx n : ℕ} {name : Text} :
    name ∈ partNames stem idx n ↔ ∃ i, idx ≤ i ∧ i < idx + n ∧ partName stem i = name := by
  simp [partNames, List.mem_range'_1, and_assoc]

/-- Pieces that can be written become the parts, and nothing else changes. -/
lemma writeParts_eq (pieces : List Bytes) {idx : ℕ} (hcount : idx + pieces.length < 2 ^ 32)
    (hfree : ∀ name ∈ partNames stem idx pieces.length, dir.entry name ≠ some .directory) :
    ∃ dir', writeParts stem idx dir pieces =
        some (dir', .ok (partNames stem idx pieces.length)) ∧
      (partNames stem idx pieces.length).map dir'.entry =
        pieces.map (fun piece => some (.file piece)) ∧
      ∀ name ∉ partNames stem idx pieces.length, dir'.entry name = dir.entry name := by
  induction pieces generalizing idx dir with
  | nil => exact ⟨dir, rfl, rfl, fun _ _ => rfl⟩
  | cons piece rest ih =>
    have hnames : partNames stem idx (piece :: rest).length =
        partName stem idx :: partNames stem (idx + 1) rest.length := rfl
    rw [hnames] at hfree ⊢
    have hfirst : partName stem idx ∉ partNames stem (idx + 1) rest.length := by
      rw [mem_partNames]
      rintro ⟨i, hi, -, hname⟩
      have := partName_injective stem hname
      omega
    rw [List.length_cons] at hcount
    have hrest : ∀ name ∈ partNames stem (idx + 1) rest.length,
        (dir.put (partName stem idx) (some (.file piece))).entry name ≠ some .directory := by
      intro name hname
      rw [Directory.put]
      dsimp only
      rw [if_neg (ne_of_mem_of_not_mem hname hfirst)]
      exact hfree name (List.mem_cons_of_mem _ hname)
    obtain ⟨dir', hwrite, hentries, hothers⟩ := @ih _ (idx + 1) (by omega) hrest
    refine ⟨dir', ?_, ?_, fun name hname => ?_⟩
    · have hput : dir.write (partName stem idx) piece =
          .ok (dir.put (partName stem idx) (some (.file piece))) :=
        write_eq_ok_iff.mpr ⟨hfree _ List.mem_cons_self, rfl⟩
      rw [writeParts, hput]
      simp only [if_pos (show idx + 1 < 2 ^ 32 by omega), hwrite]
      rfl
    · rw [List.map_cons, List.map_cons, hentries, hothers _ hfirst]
      simp [Directory.put]
    · obtain ⟨hne, hnot⟩ := not_or.mp (mt List.mem_cons.mpr hname)
      rw [hothers name hnot]
      exact if_neg hne

/-- Pieces that were written could be. -/
lemma of_writeParts (pieces : List Bytes) {idx : ℕ} {names : List Text} (hidx : idx < 2 ^ 32)
    (h : writeParts stem idx dir pieces = some (dir', .ok names)) :
    idx + pieces.length < 2 ^ 32 ∧
      ∀ name ∈ partNames stem idx pieces.length, dir.entry name ≠ some .directory := by
  induction pieces generalizing idx dir dir' names with
  | nil => exact ⟨hidx, fun name hname => absurd hname List.not_mem_nil⟩
  | cons piece rest ih =>
    rw [writeParts] at h
    split at h
    · cases h
    · rename_i d hd
      obtain ⟨hfree, rfl⟩ := write_eq_ok_iff.mp hd
      split_ifs at h with hlt
      obtain ⟨⟨d', r⟩, hrest, hr⟩ := Option.map_eq_some_iff.mp h
      cases r with
      | error e => cases hr
      | ok rest' =>
        obtain ⟨hcount, hothers⟩ := ih hlt hrest
        refine ⟨by rw [List.length_cons]; omega, ?_⟩
        have hnames : partNames stem idx (piece :: rest).length =
            partName stem idx :: partNames stem (idx + 1) rest.length := rfl
        rw [hnames]
        refine List.forall_mem_cons.mpr ⟨hfree, fun name hname => ?_⟩
        have hne : name ≠ partName stem idx := by
          obtain ⟨i, hi, -, rfl⟩ := mem_partNames.mp hname
          intro heq
          have := partName_injective stem heq
          omega
        have hput := hothers name hname
        rw [Directory.put] at hput
        dsimp only at hput
        rwa [if_neg hne] at hput

/-! ### What is found -/

/-- The numbered names of a directory, by their numbers. -/
def numbered (stem : Text) (listing : List Text) : List (ℕ × Text) :=
  (listing.filterMap fun n => (partOf stem n).map fun i => (i, n)).insertionSort
    fun a b => a.1 ≤ b.1

lemma discoverParts_partName (hstem : '#' ∉ stem) (listing : List Text) :
    discoverParts listing (partName stem 1) =
      if numbered stem listing = [] then [partName stem 1]
      else (numbered stem listing).map Prod.snd := by
  rw [discoverParts, rsplitOnce_partName hstem]
  exact if_pos isPartExt_one

lemma mem_numbered {listing : List Text} {x : ℕ × Text} :
    x ∈ numbered stem listing ↔ x.2 ∈ listing ∧ partOf stem x.2 = some x.1 := by
  rw [numbered, (List.perm_insertionSort _ _).mem_iff, List.mem_filterMap]
  constructor
  · rintro ⟨n, hn, hx⟩
    obtain ⟨i, hi, rfl⟩ := Option.map_eq_some_iff.mp hx
    exact ⟨hn, hi⟩
  · rintro ⟨hn, hx⟩
    exact ⟨x.2, hn, by rw [hx]; rfl⟩

/-- The bytes of a file, and none of anything else. -/
def bytesOf : Option Entry → Bytes
  | some (.file bytes) => bytes
  | _ => []

def content (dir : Directory) (name : Text) : Bytes := bytesOf (dir.entry name)

/-- Among the numbered names those that were written come in the order of their numbers. -/
lemma filter_numbered (hstem : '#' ∉ stem) {listing : List Text} (h : dir.Lists listing) {n : ℕ}
    (hn : n + 1 < 2 ^ 32) (hnames : ∀ name ∈ partNames stem 1 n, dir.entry name ≠ none) :
    (numbered stem listing).filter (·.2 ∈ partNames stem 1 n) =
      (List.range' 1 n).map fun i => (i, partName stem i) := by
  have hpart : ∀ x ∈ (numbered stem listing).filter (·.2 ∈ partNames stem 1 n),
      x = (x.1, partName stem x.1) := by
    intro x hx
    obtain ⟨hx, hname⟩ := List.mem_filter.mp hx
    obtain ⟨i, hi, hlt, hpart⟩ := mem_partNames.mp (of_decide_eq_true hname)
    have hof := (mem_numbered.mp hx).2
    rw [← hpart, partOf_partName hstem (by omega)] at hof
    have hkey := Option.some.inj hof
    rw [← hkey, hpart]
    exact Prod.ext hkey.symm rfl
  have hnodup : ((numbered stem listing).filter (·.2 ∈ partNames stem 1 n)).Nodup := by
    refine List.Nodup.filter _ ((List.perm_insertionSort _ _).nodup_iff.mpr ?_)
    refine h.nodup.filterMap fun a b x ha hb => ?_
    obtain ⟨i, -, rfl⟩ := Option.map_eq_some_iff.mp ha
    obtain ⟨j, -, hb⟩ := Option.map_eq_some_iff.mp hb
    exact (congrArg Prod.snd hb).symm
  have hkeys : ((numbered stem listing).filter (·.2 ∈ partNames stem 1 n)).map Prod.fst =
      List.range' 1 n := by
    refine List.Perm.eq_of_pairwise' (r := (· ≤ ·)) ?_ ?_ ?_
    · refine List.pairwise_map.mpr (List.Pairwise.filter _ ?_)
      exact List.pairwise_insertionSort _ _
    · exact (List.pairwise_lt_range' (s := 1) (n := n)).imp le_of_lt
    · refine (List.perm_ext_iff_of_nodup (hnodup.map_on ?_) List.nodup_range').mpr fun i => ?_
      · intro x hx y hy hxy
        rw [hpart x hx, hpart y hy, hxy]
      · rw [List.mem_map, List.mem_range'_1]
        constructor
        · rintro ⟨x, hx, rfl⟩
          obtain ⟨i, hi, hlt, hname⟩ :=
            mem_partNames.mp (of_decide_eq_true (List.mem_filter.mp hx).2)
          rw [hpart x hx] at hname
          rw [← partName_injective stem hname]
          omega
        · rintro ⟨hi, hlt⟩
          have hmem : partName stem i ∈ partNames stem 1 n :=
            mem_partNames.mpr ⟨i, hi, by omega, rfl⟩
          refine ⟨(i, partName stem i), List.mem_filter.mpr ⟨?_, decide_eq_true hmem⟩, rfl⟩
          exact mem_numbered.mpr ⟨(h.mem_iff _).mpr (hnames _ hmem),
            partOf_partName hstem (by omega)⟩
  rw [← hkeys, List.map_map]
  conv_lhs => rw [← List.map_id ((numbered stem listing).filter (·.2 ∈ partNames stem 1 n))]
  exact List.map_congr_left hpart

lemma length_flatMap_filter {α : Type} (p : α → Bool) (f : α → Bytes) (l : List α) :
    (l.flatMap f).length =
      ((l.filter p).flatMap f).length + ((l.filter (!p ·)).flatMap f).length := by
  induction l with
  | nil => rfl
  | cons a l ih =>
    rw [List.flatMap_cons, List.length_append, ih]
    cases hp : p a with
    | true =>
      rw [List.filter_cons_of_pos hp, List.filter_cons_of_neg (by simp [hp]), List.flatMap_cons,
        List.length_append]
      omega
    | false =>
      rw [List.filter_cons_of_neg (by simp [hp]), List.filter_cons_of_pos (by simp [hp]),
        List.flatMap_cons, List.length_append]
      omega

/-- What is left out of the filtered list adds nothing exactly if nothing is added. -/
lemma flatMap_filter_iff {α : Type} (p : α → Bool) (f : α → Bytes) (l : List α) :
    l.flatMap f = (l.filter p).flatMap f ↔ ∀ a ∈ l, p a = false → f a = [] := by
  constructor
  · intro h a ha hp
    have hlen := length_flatMap_filter p f l
    rw [← h] at hlen
    have hnil : (l.filter (!p ·)).flatMap f = [] := List.length_eq_zero_iff.mp (by omega)
    exact List.flatMap_eq_nil_iff.mp hnil a (List.mem_filter.mpr ⟨ha, by simp [hp]⟩)
  · intro h
    induction l with
    | nil => rfl
    | cons a l ih =>
      obtain ⟨ha, hl⟩ := List.forall_mem_cons.mp h
      cases hp : p a with
      | true => rw [List.filter_cons_of_pos hp, List.flatMap_cons, List.flatMap_cons, ih hl]
      | false =>
        rw [List.filter_cons_of_neg (by simp [hp]), List.flatMap_cons, ha hp, ih hl]
        rfl

/-! ### Joining what is found -/

/-- A numbered name is taken, and one is taken by a directory. -/
def Present (dir : Directory) (stem : Text) : Prop :=
  ∃ name, partOf stem name ≠ none ∧ dir.entry name ≠ none

def Blocked (dir : Directory) (stem : Text) : Prop :=
  ∃ name, partOf stem name ≠ none ∧ dir.entry name = some .directory

/-- The destination and then some parts were opened, and all of them are files. -/
lemma copyParts_ok {dest : Text} {parts : List Text} (hdest : dest ∉ parts) {written : Bytes}
    (hwritten : dir.entry dest = some (.file written))
    (h : ∀ p ∈ parts, ∃ bytes, dir.entry p = some (.file bytes)) :
    ∃ dir', copyParts dest parts written dir = (dir', .ok ()) ∧
      dir'.entry dest = some (.file (written ++ parts.flatMap (content dir))) := by
  induction parts generalizing dir written with
  | nil => exact ⟨dir, rfl, by simpa using hwritten⟩
  | cons p parts ih =>
    obtain ⟨⟨bytes, hp⟩, hparts⟩ := List.forall_mem_cons.mp h
    obtain ⟨-, hdest⟩ := not_or.mp (mt List.mem_cons.mpr hdest)
    have hsame : ∀ q ∈ parts, (dir.put dest (some (.file (written ++ bytes)))).entry q =
        dir.entry q := fun q hq => if_neg (ne_of_mem_of_not_mem hq hdest)
    obtain ⟨dir', hcopy, hentry⟩ := @ih (dir.put dest (some (.file (written ++ bytes)))) hdest _
      (if_pos rfl) fun q hq => by rw [hsame q hq]; exact hparts q hq
    refine ⟨dir', ?_, ?_⟩
    · rw [copyParts, Directory.read, hp]
      exact hcopy
    · have hflat : parts.flatMap (content (dir.put dest (some (.file (written ++ bytes))))) =
          parts.flatMap (content dir) := by
        refine List.flatMap_congr fun q hq => ?_
        rw [content, content, hsame q hq]
      have hbytes : content dir p = bytes := congrArg bytesOf hp
      rw [hentry, hflat, List.flatMap_cons, hbytes, List.append_assoc]

/-- A part that is no file ends the copying. -/
lemma copyParts_error {dest p : Text} {parts : List Text} (hdest : dest ∉ parts) (hp : p ∈ parts)
    (h : ∀ bytes, dir.entry p ≠ some (.file bytes)) (written : Bytes) :
    ∃ dir' e, copyParts dest parts written dir = (dir', .error e) := by
  induction parts generalizing dir written with
  | nil => exact absurd hp List.not_mem_nil
  | cons q parts ih =>
    obtain ⟨hne, hdest⟩ := not_or.mp (mt List.mem_cons.mpr hdest)
    rw [copyParts]
    cases hread : dir.read q with
    | error e => exact ⟨dir, e, rfl⟩
    | ok bytes =>
      rcases List.mem_cons.mp hp with rfl | hp
      · refine absurd hread ?_
        unfold Directory.read
        cases hentry : dir.entry p with
        | none => simp
        | some e =>
          cases e with
          | directory => simp
          | file bytes' => exact absurd hentry (h bytes')
      · refine ih hdest hp (fun bytes' => ?_) _
        rw [Directory.put]
        dsimp only
        rw [if_neg (ne_of_mem_of_not_mem hp hdest)]
        exact h bytes'

variable {listing : List Text}

lemma stem_notMem_numbered : stem ∉ (numbered stem listing).map Prod.snd := by
  intro h
  obtain ⟨x, hx, rfl⟩ := List.mem_map.mp h
  have hof := (mem_numbered.mp hx).2
  rw [partOf_self] at hof
  cases hof

lemma joinFiles_eq {parts : List Text} (hne : parts ≠ [])
    (hdest : dir.entry stem ≠ some .directory) : joinFiles dir parts stem =
      copyParts stem parts [] (dir.put stem (some (.file []))) := by
  have hwrite : dir.write stem [] = .ok (dir.put stem (some (.file []))) :=
    write_eq_ok_iff.mpr ⟨hdest, rfl⟩
  rw [joinFiles, if_neg hne, hwrite]

lemma present_iff (h : dir.Lists listing) : Present dir stem ↔ numbered stem listing ≠ [] := by
  constructor
  · rintro ⟨name, hpart, hname⟩ hnil
    obtain ⟨i, hi⟩ := Option.ne_none_iff_exists'.mp hpart
    have hmem : (i, name) ∈ numbered stem listing :=
      mem_numbered.mpr ⟨(h.mem_iff name).mpr hname, hi⟩
    rw [hnil] at hmem
    cases hmem
  · intro hne
    obtain ⟨x, hx⟩ := List.exists_mem_of_ne_nil _ hne
    obtain ⟨hlist, hpart⟩ := mem_numbered.mp hx
    exact ⟨x.2, by simp [hpart], (h.mem_iff x.2).mp hlist⟩

/-- Numbered names that are files are joined. -/
lemma joinFiles_ok (hstem : '#' ∉ stem) (h : dir.Lists listing)
    (hdest : dir.entry stem ≠ some .directory) (hpresent : Present dir stem)
    (hblocked : ¬Blocked dir stem) :
    ∃ dir', joinFiles dir (discoverParts listing (partName stem 1)) stem = (dir', .ok ()) ∧
      dir'.entry stem =
        some (.file ((numbered stem listing).flatMap fun x => content dir x.2)) := by
  have hne := (present_iff h).mp hpresent
  have hsame : ∀ p ∈ (numbered stem listing).map Prod.snd,
      (dir.put stem (some (.file []))).entry p = dir.entry p := fun p hp =>
    if_neg (ne_of_mem_of_not_mem hp stem_notMem_numbered)
  have hfiles : ∀ p ∈ (numbered stem listing).map Prod.snd,
      ∃ bytes, (dir.put stem (some (.file []))).entry p = some (.file bytes) := by
    intro p hp
    rw [hsame p hp]
    obtain ⟨x, hx, rfl⟩ := List.mem_map.mp hp
    obtain ⟨hlist, hpart⟩ := mem_numbered.mp hx
    cases hentry : dir.entry x.2 with
    | none => exact absurd hentry ((h.mem_iff x.2).mp hlist)
    | some e =>
      cases e with
      | directory => exact absurd ⟨x.2, by simp [hpart], hentry⟩ hblocked
      | file bytes => exact ⟨bytes, rfl⟩
  obtain ⟨dir', hcopy, hentry⟩ := @copyParts_ok (dir.put stem (some (.file []))) stem _
    stem_notMem_numbered [] (if_pos rfl) hfiles
  refine ⟨dir', ?_, ?_⟩
  · rw [discoverParts_partName hstem, if_neg hne, joinFiles_eq (by simpa using hne) hdest]
    exact hcopy
  · rw [hentry, List.nil_append, List.flatMap_map]
    refine congrArg (fun b => some (Entry.file b)) (List.flatMap_congr fun x hx => ?_)
    rw [content, content, hsame x.2 (List.mem_map_of_mem hx)]

/-- Nothing is joined where no numbered name is taken, or one by a directory, or where a directory
is in the way. -/
lemma joinFiles_error (hstem : '#' ∉ stem) (h : dir.Lists listing)
    (hbad : Present dir stem → Blocked dir stem ∨ dir.entry stem = some .directory) :
    ∃ dir' e, joinFiles dir (discoverParts listing (partName stem 1)) stem = (dir', .error e) := by
  by_cases hdest : dir.entry stem = some .directory
  · refine ⟨dir, ?_⟩
    rw [joinFiles, Directory.write, hdest]
    split_ifs
    · exact ⟨_, rfl⟩
    · exact ⟨_, rfl⟩
  rw [discoverParts_partName hstem]
  by_cases hnil : numbered stem listing = []
  · rw [if_pos hnil, joinFiles_eq (List.cons_ne_nil _ _) hdest]
    have hpart := partOf_partName hstem (show 1 < 2 ^ 32 by decide)
    have hne : stem ≠ partName stem 1 := by
      intro heq
      have hself := partOf_self stem
      rw [← heq] at hpart
      rw [hpart] at hself
      cases hself
    refine copyParts_error (by simpa using hne) List.mem_cons_self (fun b hb => ?_) []
    rw [Directory.put] at hb
    dsimp only at hb
    rw [if_neg hne.symm] at hb
    have hpresent : Present dir stem := ⟨partName stem 1, by simp [hpart], by simp [hb]⟩
    exact (present_iff h).mp hpresent hnil
  · obtain ⟨name, hpart, hdir⟩ := (hbad ((present_iff h).mpr hnil)).resolve_right hdest
    obtain ⟨i, hi⟩ := Option.ne_none_iff_exists'.mp hpart
    have hmem : name ∈ (numbered stem listing).map Prod.snd := by
      refine List.mem_map.mpr ⟨(i, name), mem_numbered.mpr ⟨(h.mem_iff name).mpr ?_, hi⟩, rfl⟩
      simp [hdir]
    rw [if_neg hnil, joinFiles_eq (by simpa using hnil) hdest]
    refine copyParts_error stem_notMem_numbered hmem (fun b hb => ?_) []
    rw [Directory.put] at hb
    dsimp only at hb
    rw [if_neg (ne_of_mem_of_not_mem hmem stem_notMem_numbered), hdir] at hb
    cases hb

/-! ### There and back -/

/-- However the directory is listed, joining what is found for the first part gives the bytes. -/
def Rejoins (dir : Directory) (stem : Text) (bs : Bytes) : Prop :=
  ∀ listing, dir.Lists listing → ∃ dir',
    joinFiles dir (discoverParts listing (partName stem 1)) (joinOutputName (partName stem 1)) =
      (dir', .ok ()) ∧ dir'.entry stem = some (.file bs)

/-- The file can be split, and its parts be joined. -/
def RoundTrips (dir : Directory) (src : Text) (chunkBytes : U64) (bs : Bytes) : Prop :=
  ∃ dir' parts, splitFile dir src chunkBytes = some (dir', .ok parts) ∧
    Rejoins dir' (fileName src) bs

/-- However the directory without a part is listed, joining what is found fails. -/
def FailsWithout (dir : Directory) (stem missing : Text) : Prop :=
  ∀ listing, (dir.put missing none).Lists listing → ∃ dir' e,
    joinFiles (dir.put missing none) (discoverParts listing (partName stem 1))
      (joinOutputName (partName stem 1)) = (dir', .error e)

/-- The buffer and the part numbers fit their types, no directory is in the way, and every other
numbered name is free or an empty file. An empty file has no parts, so it takes such a name. -/
structure CleanSplit (dir : Directory) (stem : Text) (chunkBytes : U64) (bs : Bytes) : Prop where
  chunk_lt : chunkBytes.val < 2 ^ 63
  count_lt : (chunks chunkBytes.val bs).length + 1 < 2 ^ 32
  free : ∀ name ∈ partNames stem 1 (chunks chunkBytes.val bs).length,
    dir.entry name ≠ some .directory
  dest : dir.entry stem ≠ some .directory
  others : ∀ name, partOf stem name ≠ none →
    name ∉ partNames stem 1 (chunks chunkBytes.val bs).length →
      dir.entry name = none ∨ dir.entry name = some (.file [])
  some : bs ≠ [] ∨ Present dir stem

variable {bs : Bytes} {chunkBytes : U64} {src : Text}

lemma splitFile_eq (hchunk : chunkBytes ≠ 0) (hsrc : dir.entry src = some (.file bs)) :
    splitFile dir src chunkBytes =
      if chunkBytes.val < 2 ^ 63 then writeParts (fileName src) 1 dir (chunks chunkBytes.val bs)
      else none := by
  rw [splitFile, if_neg hchunk, hsrc]

/-- What a directory holds behind a split. -/
structure SplitInto (dir dir' : Directory) (stem : Text) (pieces : List Bytes) : Prop where
  count_lt : pieces.length + 1 < 2 ^ 32
  written : (partNames stem 1 pieces.length).map dir'.entry =
    pieces.map fun piece => some (.file piece)
  others : ∀ name ∉ partNames stem 1 pieces.length, dir'.entry name = dir.entry name

/-- Nothing was in the way of a split that succeeded. -/
lemma of_splitFile (hchunk : chunkBytes ≠ 0) (hsrc : dir.entry src = some (.file bs))
    {parts : List Text} : splitFile dir src chunkBytes = some (dir', .ok parts) →
      chunkBytes.val < 2 ^ 63 ∧
      (∀ name ∈ partNames (fileName src) 1 (chunks chunkBytes.val bs).length,
        dir.entry name ≠ some .directory) ∧
      parts = partNames (fileName src) 1 (chunks chunkBytes.val bs).length ∧
      SplitInto dir dir' (fileName src) (chunks chunkBytes.val bs) := by
  rw [splitFile_eq hchunk hsrc]
  intro h
  split_ifs at h with hlt
  obtain ⟨hcount, hfree⟩ := of_writeParts _ (by decide) h
  obtain ⟨d, hwrite, hwritten, hothers⟩ := writeParts_eq _ hcount hfree
  obtain ⟨rfl, hparts⟩ := Prod.mk.inj (Option.some.inj (h.symm.trans hwrite))
  exact ⟨hlt, hfree, Except.ok.inj hparts, by omega, hwritten, hothers⟩

namespace SplitInto

variable {pieces : List Bytes}

lemma isFile (h : SplitInto dir dir' stem pieces) {name : Text}
    (hname : name ∈ partNames stem 1 pieces.length) :
    ∃ piece, dir'.entry name = some (.file piece) := by
  have hmem : dir'.entry name ∈ (partNames stem 1 pieces.length).map dir'.entry :=
    List.mem_map_of_mem hname
  rw [h.written] at hmem
  obtain ⟨piece, -, hpiece⟩ := List.mem_map.mp hmem
  exact ⟨piece, hpiece.symm⟩

lemma partOf_ne_none (h : SplitInto dir dir' stem pieces) (hstem : '#' ∉ stem) {name : Text}
    (hname : name ∈ partNames stem 1 pieces.length) : partOf stem name ≠ none := by
  obtain ⟨i, -, hi, rfl⟩ := mem_partNames.mp hname
  have := h.count_lt
  rw [partOf_partName hstem (by omega)]
  exact Option.some_ne_none i

lemma stem_notMem (h : SplitInto dir dir' stem pieces) (hstem : '#' ∉ stem) :
    stem ∉ partNames stem 1 pieces.length := fun hmem =>
  h.partOf_ne_none hstem hmem (partOf_self stem)

/-- The parts that were written are the pieces in their order. -/
lemma flatMap_written (h : SplitInto dir dir' stem pieces) (hstem : '#' ∉ stem)
    (hlists : dir'.Lists listing) :
    ((numbered stem listing).filter (·.2 ∈ partNames stem 1 pieces.length)).flatMap
      (fun x => content dir' x.2) = pieces.flatten := by
  have hnames : ∀ name ∈ partNames stem 1 pieces.length, dir'.entry name ≠ none := by
    intro name hname
    obtain ⟨piece, hpiece⟩ := h.isFile hname
    simp [hpiece]
  rw [filter_numbered hstem hlists h.count_lt hnames, List.flatMap_map]
  have hcontents : (partNames stem 1 pieces.length).map (content dir') = pieces := by
    have hmap := congrArg (List.map bytesOf) h.written
    rw [List.map_map, List.map_map] at hmap
    exact hmap.trans (List.map_id pieces)
  rw [partNames, List.map_map] at hcontents
  conv_rhs => rw [← hcontents]
  rfl

/-- The numbered names give the pieces exactly if those that were not written give nothing. -/
lemma flatMap_numbered_iff (h : SplitInto dir dir' stem pieces) (hstem : '#' ∉ stem)
    (hlists : dir'.Lists listing) :
    ((numbered stem listing).flatMap fun x => content dir' x.2) = pieces.flatten ↔
      ∀ name, partOf stem name ≠ none → name ∉ partNames stem 1 pieces.length →
        content dir name = [] := by
  rw [← h.flatMap_written hstem hlists, flatMap_filter_iff]
  constructor
  · intro hall name hpart hname
    rw [content, ← h.others name hname]
    cases hentry : dir'.entry name with
    | none => rfl
    | some e =>
      obtain ⟨i, hi⟩ := Option.ne_none_iff_exists'.mp hpart
      have hmem : (i, name) ∈ numbered stem listing :=
        mem_numbered.mpr ⟨(hlists.mem_iff name).mpr (by simp [hentry]), hi⟩
      have hnil := hall (i, name) hmem (decide_eq_false hname)
      rwa [content, hentry] at hnil
  · intro hall x hx hname
    have hpart : partOf stem x.2 ≠ none := by simp [(mem_numbered.mp hx).2]
    have hname := of_decide_eq_false hname
    rw [content, h.others x.2 hname]
    exact hall x.2 hpart hname

/-- Joining gives the bytes back exactly if there is something to join and nothing else with a
number, and no directory is in the way. -/
lemma rejoins_iff (h : SplitInto dir dir' stem pieces) (hstem : '#' ∉ stem) :
    Rejoins dir' stem pieces.flatten ↔ dir.entry stem ≠ some .directory ∧
      Present dir' stem ∧ ¬Blocked dir' stem ∧ ∀ name, partOf stem name ≠ none →
        name ∉ partNames stem 1 pieces.length → content dir name = [] := by
  rw [← h.others stem (h.stem_notMem hstem)]
  unfold Rejoins
  rw [joinOutputName_partName hstem]
  constructor
  · intro hall
    obtain ⟨listing, hlists⟩ := dir'.exists_lists
    obtain ⟨d, hjoin, hd⟩ := hall listing hlists
    have hgood : ¬(Present dir' stem → Blocked dir' stem ∨ dir'.entry stem = some .directory) := by
      intro hbad
      obtain ⟨d', e, herror⟩ := joinFiles_error hstem hlists hbad
      rw [hjoin] at herror
      cases herror
    obtain ⟨hpresent, hfree⟩ := Classical.not_imp.mp hgood
    obtain ⟨hblocked, hdest⟩ := not_or.mp hfree
    refine ⟨hdest, hpresent, hblocked, (h.flatMap_numbered_iff hstem hlists).mp ?_⟩
    obtain ⟨d', hjoin', hd'⟩ := joinFiles_ok hstem hlists hdest hpresent hblocked
    obtain ⟨rfl, -⟩ := Prod.mk.inj (hjoin.symm.trans hjoin')
    exact Entry.file.inj (Option.some.inj (hd'.symm.trans hd))
  · rintro ⟨hdest, hpresent, hblocked, hothers⟩ listing hlists
    obtain ⟨d, hjoin, hd⟩ := joinFiles_ok hstem hlists hdest hpresent hblocked
    exact ⟨d, hjoin, (h.flatMap_numbered_iff hstem hlists).mpr hothers ▸ hd⟩

/-- Without one of the parts joining fails exactly if no other number is there or one is a
directory's, or a directory is in the way. -/
lemma failsWithout_iff (h : SplitInto dir dir' stem pieces) (hstem : '#' ∉ stem) {missing : Text}
    (hmissing : missing ∈ partNames stem 1 pieces.length) : FailsWithout dir' stem missing ↔
      (∀ name, partOf stem name ≠ none → dir'.entry name ≠ none → name = missing) ∨
        Blocked dir' stem ∨ dir'.entry stem = some .directory := by
  have hne : stem ≠ missing := fun heq => h.stem_notMem hstem (heq ▸ hmissing)
  have hdest : (dir'.put missing none).entry stem = dir'.entry stem := if_neg hne
  have hbad : (Present (dir'.put missing none) stem →
      Blocked (dir'.put missing none) stem ∨
        (dir'.put missing none).entry stem = some .directory) ↔
      (∀ name, partOf stem name ≠ none → dir'.entry name ≠ none → name = missing) ∨
        Blocked dir' stem ∨ dir'.entry stem = some .directory := by
    have hblocked : Blocked (dir'.put missing none) stem ↔ Blocked dir' stem := by
      refine exists_congr fun name => and_congr_right fun _ => ?_
      by_cases hname : name = missing
      · obtain ⟨piece, hpiece⟩ := h.isFile hmissing
        rw [hname]
        simp [Directory.put, hpiece]
      · simp [Directory.put, hname]
    have hpresent : Present (dir'.put missing none) stem ↔
        ¬∀ name, partOf stem name ≠ none → dir'.entry name ≠ none → name = missing := by
      rw [Classical.not_forall]
      refine exists_congr fun name => ?_
      by_cases hname : name = missing <;> simp [Directory.put, hname]
    rw [hblocked, hpresent, hdest, imp_iff_not_or, not_not]
  rw [← hbad]
  unfold FailsWithout
  rw [joinOutputName_partName hstem]
  constructor
  · intro hall hpresent
    by_contra hfree
    obtain ⟨hblocked, hdest⟩ := not_or.mp hfree
    obtain ⟨listing, hlists⟩ := (dir'.put missing none).exists_lists
    obtain ⟨d, e, herror⟩ := hall listing hlists
    obtain ⟨d', hjoin, -⟩ := joinFiles_ok hstem hlists hdest hpresent hblocked
    rw [herror] at hjoin
    cases hjoin
  · exact fun hb listing hlists => joinFiles_error hstem hlists hb

end SplitInto

lemma flatten_pieces (hchunk : chunkBytes ≠ 0) (bs : Bytes) :
    (chunks chunkBytes.val bs).flatten = bs :=
  Lib.flatten_chunks (Nat.pos_of_ne_zero fun h => hchunk (Fin.ext h)) bs

lemma notMem_fileName (name : Text) : '#' ∉ fileName name := notMem_before '#' name

lemma clean_split_iff (hchunk : chunkBytes ≠ 0) (hsrc : dir.entry src = some (.file bs)) :
    RoundTrips dir src chunkBytes bs ↔ CleanSplit dir (fileName src) chunkBytes bs := by
  have hflat := flatten_pieces hchunk bs
  have hstem := notMem_fileName src
  constructor
  · rintro ⟨dir', parts, hsplit, hrejoins⟩
    obtain ⟨hlt, hfree, rfl, h⟩ := of_splitFile hchunk hsrc hsplit
    rw [← hflat] at hrejoins
    obtain ⟨hdest, ⟨name, hpart, hname⟩, hblocked, hothers⟩ := (h.rejoins_iff hstem).mp hrejoins
    refine ⟨hlt, h.count_lt, hfree, hdest, fun other hother hnot => ?_, ?_⟩
    · have hcontent := hothers other hother hnot
      cases hentry : dir.entry other with
      | none => exact .inl rfl
      | some e =>
        cases e with
        | directory =>
          exact absurd ⟨other, hother, (h.others other hnot).trans hentry⟩ hblocked
        | file bytes =>
          rw [content, hentry] at hcontent
          exact .inr (congrArg (fun b => some (Entry.file b)) hcontent)
    · by_contra hnone
      obtain ⟨hnil, habsent⟩ := not_or.mp hnone
      rw [not_not.mp hnil, Lib.chunks_nil] at h
      exact habsent ⟨name, hpart, h.others name List.not_mem_nil ▸ hname⟩
  · intro hc
    obtain ⟨dir', hwrite, hwritten, hothers⟩ :=
      writeParts_eq (chunks chunkBytes.val bs) (by have := hc.count_lt; omega) hc.free
    have h : SplitInto dir dir' (fileName src) (chunks chunkBytes.val bs) :=
      ⟨hc.count_lt, hwritten, hothers⟩
    refine ⟨dir', _, (splitFile_eq hchunk hsrc).trans ((if_pos hc.chunk_lt).trans hwrite), ?_⟩
    rw [← hflat]
    refine (h.rejoins_iff hstem).mpr ⟨hc.dest, ?_, ?_, fun name hpart hname => ?_⟩
    · by_cases hnil : bs = []
      · obtain ⟨name, hpart, hname⟩ := hc.some.resolve_left fun hne => hne hnil
        have h' := h
        rw [hnil, Lib.chunks_nil] at h'
        exact ⟨name, hpart, (h'.others name List.not_mem_nil).symm ▸ hname⟩
      · have hpos : 0 < (chunks chunkBytes.val bs).length := by
          rw [List.length_pos_iff]
          intro hnone
          rw [hnone] at hflat
          exact hnil hflat.symm
        have hmem : partName (fileName src) 1 ∈
            partNames (fileName src) 1 (chunks chunkBytes.val bs).length :=
          mem_partNames.mpr ⟨1, le_rfl, by omega, rfl⟩
        obtain ⟨piece, hpiece⟩ := h.isFile hmem
        exact ⟨_, h.partOf_ne_none hstem hmem, by simp [hpiece]⟩
    · rintro ⟨name, hpart, hname⟩
      by_cases hmem : name ∈ partNames (fileName src) 1 (chunks chunkBytes.val bs).length
      · obtain ⟨piece, hpiece⟩ := h.isFile hmem
        rw [hpiece] at hname
        cases hname
      · rw [h.others name hmem] at hname
        rcases hc.others name hpart hmem with hnone | hfile
        · rw [hnone] at hname
          cases hname
        · rw [hfile] at hname
          cases hname
    · rcases hc.others name hpart hname with hnone | hfile
      · rw [content, hnone]
        rfl
      · rw [content, hfile]
        rfl

/-- Splitting and joining gives a file back exactly if the split is clean. Behind a split, joining
without one of the parts fails exactly if no other numbered name is taken, or one by a directory, or
a directory is where the file is to go. -/
theorem split_join_iff (hchunk : chunkBytes ≠ 0) (hsrc : dir.entry src = some (.file bs)) :
    (RoundTrips dir src chunkBytes bs ↔ CleanSplit dir (fileName src) chunkBytes bs) ∧
    ∀ dir' parts, splitFile dir src chunkBytes = some (dir', .ok parts) → ∀ missing ∈ parts,
      (FailsWithout dir' (fileName src) missing ↔
        (∀ name, partOf (fileName src) name ≠ none → dir'.entry name ≠ none → name = missing) ∨
          Blocked dir' (fileName src) ∨ dir'.entry (fileName src) = some .directory) := by
  refine ⟨clean_split_iff hchunk hsrc, fun dir' parts hsplit missing hmissing => ?_⟩
  obtain ⟨-, -, rfl, h⟩ := of_splitFile hchunk hsrc hsplit
  exact h.failsWithout_iff (notMem_fileName src) hmissing

/-- One file of one byte, beside a second part of an earlier one. -/
def staleParts : Directory where
  entry := fun name =>
    if name = ['a'] then some (.file [1])
    else if name = partName ['a'] 2 then some (.file [9]) else none
  finite := by
    refine ((Set.finite_singleton ['a']).insert (partName ['a'] 2)).subset fun name hname => ?_
    by_contra hnot
    obtain ⟨hpart, ha⟩ := not_or.mp hnot
    exact hname ((if_neg ha).trans (if_neg hpart))

theorem split_join_stale :
    (1 : U64) ≠ 0 ∧ staleParts.entry ['a'] = some (.file [1]) ∧
    (RoundTrips staleParts ['a'] 1 [1] ↔ CleanSplit staleParts ['a'] 1 [1]) :=
  ⟨by decide, rfl, (@split_join_iff staleParts [1] 1 ['a'] (by decide) rfl).1⟩

/-- A part of an earlier file is joined too. -/
theorem not_split_join : ¬∀ (dir : Directory) (stem : Text) (chunkBytes : U64) (bs : Bytes),
    chunkBytes ≠ 0 → dir.entry stem = some (.file bs) → RoundTrips dir stem chunkBytes bs := by
  intro h
  have hsrc : staleParts.entry ['a'] = some (.file [1]) := rfl
  have hclean := (clean_split_iff (by decide) hsrc).mp (h staleParts ['a'] 1 [1] (by decide) hsrc)
  have hpart : staleParts.entry (partName ['a'] 2) = some (.file [9]) := rfl
  rcases hclean.others (partName ['a'] 2) (by decide) (by decide) with hnone | hfile
  · rw [hpart] at hnone
    cases hnone
  · rw [hpart] at hfile
    cases hfile

end Orchid.Fs
