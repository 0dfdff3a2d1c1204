import Orchid.Fs.Sync
import Orchid.Lib.PathTree

/-!
# Copying

What the options of a copy say for a file and what there is at its destination. A resumed copy
appends to what it finds, whatever that is, and a file that is copied onto itself is opened for
writing first and then read, when it is empty.
-/

namespace Orchid.Fs.Copying

open Lib Sync

/-! ### Trees -/

abbrev Path := List Text

/-- What there is at the paths. -/
abbrev Paths := PathTree Text Node

/-- A tree with finitely many nodes, where what is above a node is a folder. -/
structure Disk where
  tree : Paths
  paths : List Path
  complete : ∀ p, (tree p).isSome = true → p ∈ paths
  closed : ∀ p q, q <+: p → q ≠ p → (tree p).isSome = true → ∃ m, tree q = some (.dir m)

def content? (t : Paths) (p : Path) : Option Bytes :=
  ((t p).bind Node.file?).map File.content

/-! ### One file -/

/-- `CopyOptions` -/
structure Options where
  overwrite : Bool
  skipExisting : Bool
  overwriteOlder : Bool
  resume : Bool
  verifyContentHash : Bool
  preserveTimestamps : Bool

inductive Decision
  | skip
  | fail
  | append (resumeFrom : ℕ)
  | rewrite
  deriving DecidableEq

def Node.size : Node → ℕ
  | .dir _ => 0
  | .file f => f.content.length

/-- What `copy_file_with_progress` makes of the options. -/
def decision (opts : Options) (f : File) : Option Node → Decision
  | none => .rewrite
  | some n =>
    if opts.skipExisting then .skip
    else if opts.overwriteOlder then
      if f.modified ≤ n.modified then .skip else .rewrite
    else if opts.resume then
      if 0 < Node.size n ∧ Node.size n < f.content.length then
        if opts.verifyContentHash then .rewrite else .append (Node.size n)
      else if opts.overwrite then .rewrite
      else .fail
    else if opts.overwrite then .rewrite
    else .fail

def stamp (opts : Options) (now : ℤ) (f : File) : ℤ :=
  if opts.preserveTimestamps then f.modified else now

/-- What is at the destination after the copy of a file, if that does not fail. A file is emptied
before it is read when the two are the same one. -/
def landed (opts : Options) (now : ℤ) (same : Bool) (f : File) (n : Option Node) :
    Option (Option Node) :=
  match decision opts f n, n with
  | .skip, n => some n
  | .fail, _ => none
  | _, some (.dir _) => none
  | .append k, some (.file g) =>
    some (some (.file ⟨g.content ++ f.content.drop k, stamp opts now f⟩))
  | .append _, none => none
  | .rewrite, _ =>
    some (some (.file ⟨if same then [] else f.content, stamp opts now f⟩))

def isFile : Option Node → Bool
  | some (.file _) => true
  | _ => false

def createDirAll (now : Path → ℤ) (t : Paths) (p : Path) : Option Paths :=
  if p.inits.any fun q => isFile (t q) then none
  else some fun q => if q <+: p ∧ (t q).isNone = true then some (.dir (now q)) else t q

def copyFile (opts : Options) (now : Path → ℤ) (t : Paths) (src dst : Path) : Option Paths :=
  match t src with
  | some (.file f) =>
    (landed opts (now dst) (src = dst) f (t dst)).bind fun n =>
      (createDirAll now t dst.dropLast).map fun t q => if q = dst then n else t q
  | _ => none

/-! ### A tree -/

/-- The paths at and below the source, from there. -/
def walk (disk : Disk) (src : Path) : List Path :=
  (disk.paths.dedup.filter fun p => src <+: p ∧ (disk.tree p).isSome).map fun p =>
    p.drop src.length

def files (disk : Disk) (src : Path) : List Path :=
  (walk disk src).filter fun r => isFile (disk.tree (src ++ r))

def folders (disk : Disk) (src : Path) : List Path :=
  (walk disk src).filter fun r => !isFile (disk.tree (src ++ r))

/-- The steps up to the first that fails, and whether none does. -/
def runAll (f : Paths → Path → Option Paths) : Paths → List Path → Paths × Bool
  | t, [] => (t, true)
  | t, r :: rs =>
    match f t r with
    | none => (t, false)
    | some t' => runAll f t' rs

/-- `copy_directory`, and the copy of one file, which is the case without folders. A folder that is
copied into itself is walked as it grows, until a path is too long. -/
def copy (opts : Options) (now : Path → ℤ) (disk : Disk) (src dst : Path) : Paths × Bool :=
  match disk.tree src with
  | none => (disk.tree, false)
  | some _ =>
    if src <+: dst ∧ src ≠ dst then (disk.tree, false) else
    let r := runAll (fun t rel => createDirAll now t (dst ++ rel)) disk.tree (folders disk src)
    if r.2 then
      runAll (fun t rel => copyFile opts now t (src ++ rel) (dst ++ rel)) r.1 (files disk src)
    else (r.1, false)

/-! ### What a copy should do -/

/-- The file that a copy selects has its content at the destination, and what it excludes is as it
was. -/
def Arrived (opts : Options) (f : File) (n n' : Option Node) : Prop :=
  if decision opts f n = .skip then n' = n
  else (n'.bind Node.file?).map File.content = some f.content

/-- If it succeeds, a copy does that for every file; and one onto itself or into its own subtree
keeps every content of the source. -/
def Right (opts : Options) (disk : Disk) (src dst : Path) (result : Paths × Bool) : Prop :=
  (result.2 = true → ∀ r f, disk.tree (src ++ r) = some (.file f) →
    Arrived opts f (disk.tree (dst ++ r)) (result.1 (dst ++ r))) ∧
  (src <+: dst → ∀ r f, disk.tree (src ++ r) = some (.file f) →
    content? result.1 (src ++ r) = some f.content)

/-- A file that is there is resumed only if it is a front part of the source, and only an empty file
is rewritten by itself. Nothing is asked of a folder that is to go into its own subtree, where no file
is copied. -/
def Fine (opts : Options) (disk : Disk) (src dst : Path) : Prop :=
  (src <+: dst → src = dst) → ∀ r f, disk.tree (src ++ r) = some (.file f) →
    (∀ g, disk.tree (dst ++ r) = some (.file g) →
      ∀ k, decision opts f (some (.file g)) = .append k → g.content = f.content.take k) ∧
    (src = dst → decision opts f (disk.tree (dst ++ r)) = .rewrite → f.content = [])

/-- Where the place of `s` under the destination is the path of `r`, `s` is excluded, or the copy of
`s` is refused. -/
def Turn (opts : Options) (disk : Disk) (src dst : Path) (s r : Path) : Prop :=
  dst ++ s = src ++ r → ∀ f, disk.tree (src ++ s) = some (.file f) →
    decision opts f (disk.tree (dst ++ s)) = .skip ∨ decision opts f (disk.tree (dst ++ s)) = .fail

/-- No file is written to before its turn. -/
def InTurn (opts : Options) (disk : Disk) (src dst : Path) : Prop :=
  (files disk src).Pairwise (Turn opts disk src dst)

/-! ### One step -/

section Steps

variable {opts : Options} {now : Path → ℤ} {t t' : Paths} {p q src dst r : Path} {f : File}
  {disk : Disk}

lemma createDirAll_spec (h : createDirAll now t p = some t') (q : Path) :
    t' q = t q ∨ t q = none ∧ q <+: p ∧ ∃ m, t' q = some (.dir m) := by
  unfold createDirAll at h
  split_ifs at h
  obtain rfl := Option.some.inj h
  dsimp only
  split_ifs with hq
  · exact .inr ⟨Option.isNone_iff_eq_none.mp hq.2, hq.1, now q, rfl⟩
  · exact .inl rfl

lemma createDirAll_of_isSome (h : createDirAll now t p = some t') (hq : (t q).isSome = true) :
    t' q = t q := by
  obtain hsame | ⟨hnone, -⟩ := createDirAll_spec h q
  · exact hsame
  · rw [hnone] at hq
    exact absurd hq Bool.false_ne_true

lemma copyFile_spec (h : copyFile opts now t src dst = some t') :
    ∃ f n, t src = some (.file f) ∧ landed opts (now dst) (src = dst) f (t dst) = some n ∧
      t' dst = n ∧ ∀ q ≠ dst, t' q = t q ∨ t q = none ∧ q <+: dst := by
  unfold copyFile at h
  split at h
  next f hsrc =>
    obtain ⟨n, hn, h⟩ := Option.bind_eq_some_iff.mp h
    obtain ⟨t₁, ht₁, rfl⟩ := Option.map_eq_some_iff.mp h
    refine ⟨f, n, hsrc, hn, if_pos rfl, fun q hq => ?_⟩
    dsimp only
    rw [if_neg hq]
    obtain hsame | ⟨hnone, hpre, -⟩ := createDirAll_spec ht₁ q
    · exact .inl hsame
    · exact .inr ⟨hnone, hpre.trans (List.dropLast_prefix _)⟩
  next => exact absurd h (Option.some_ne_none _).symm

/-- A file of the source. -/
def IsSource (disk : Disk) (src r : Path) : Prop := ∃ f, disk.tree (src ++ r) = some (.file f)

lemma isFile_iff {n : Option Node} : isFile n = true ↔ ∃ f, n = some (.file f) := by
  rcases n with - | - | f
  · exact iff_of_false Bool.false_ne_true fun ⟨_, h⟩ => absurd h (Option.some_ne_none _).symm
  · exact iff_of_false Bool.false_ne_true fun ⟨_, h⟩ => Node.noConfusion (Option.some.inj h)
  · exact iff_of_true rfl ⟨f, rfl⟩

/-- The place of a file has nothing below it that something is copied to. -/
lemma not_isPrefix_of_source {rel : Path} (hr : IsSource disk src r)
    (hrel : (disk.tree (src ++ rel)).isSome = true) (hne : r ≠ rel) :
    ¬ dst ++ r <+: dst ++ rel := by
  intro hpre
  obtain ⟨f, hf⟩ := hr
  obtain ⟨m, hm⟩ := disk.closed (src ++ rel) (src ++ r)
    ((List.prefix_append_right_inj src).mpr ((List.prefix_append_right_inj dst).mp hpre))
    (fun heq => hne (List.append_cancel_left heq)) hrel
  exact Node.noConfusion (Option.some.inj (hf.symm.trans hm))

lemma mem_walk : r ∈ walk disk src ↔ (disk.tree (src ++ r)).isSome = true := by
  rw [walk, mem_map_drop_iff (P := fun p => (disk.tree p).isSome = true)]
  exact and_iff_right_of_imp (disk.complete _)

lemma mem_files : r ∈ files disk src ↔ IsSource disk src r := by
  rw [files, List.mem_filter, mem_walk, isFile_iff, IsSource]
  refine and_iff_right_of_imp fun ⟨f, hf⟩ => ?_
  rw [hf]
  rfl

lemma nodup_files : (files disk src).Nodup := nodup_map_drop.filter _

/-! ### The folders -/

/-- The file and what is at its place are as they were. -/
def Waits (disk : Disk) (src dst : Path) (t : Paths) (r : Path) : Prop :=
  t (src ++ r) = disk.tree (src ++ r) ∧ t (dst ++ r) = disk.tree (dst ++ r)

lemma waits_folders {rels : List Path} (hr : IsSource disk src r) (hwaits : Waits disk src dst t r)
    (hrels : ∀ rel ∈ rels, (disk.tree (src ++ rel)).isSome = true ∧
      ¬ IsSource disk src rel) :
    Waits disk src dst (runAll (fun t rel => createDirAll now t (dst ++ rel)) t rels).1 r := by
  induction rels generalizing t with
  | nil => exact hwaits
  | cons rel rels ih =>
    obtain ⟨hrel, hrest⟩ := List.forall_mem_cons.mp hrels
    rw [runAll]
    split
    next => exact hwaits
    next t' h =>
      refine ih ⟨?_, ?_⟩ hrest
      · obtain ⟨f, hf⟩ := hr
        rw [createDirAll_of_isSome h, hwaits.1]
        rw [hwaits.1, hf]
        rfl
      · obtain hsame | ⟨-, hpre, -⟩ := createDirAll_spec h (dst ++ r)
        · exact hsame.trans hwaits.2
        · have hne : r ≠ rel := fun heq => hrel.2 (heq ▸ hr)
          exact absurd hpre (not_isPrefix_of_source hr hrel.1 hne)

end Steps

/-! ### The files -/

section Files

variable {opts : Options} {now : Path → ℤ} {t t' : Paths} {src dst r : Path} {f : File}
  {n n' : Option Node} {disk : Disk} {rs : List Path}

lemma landed_of_skip {now : ℤ} {same : Bool} (h : decision opts f n = .skip) :
    landed opts now same f n = some n := by
  unfold landed
  rw [h]

lemma landed_of_fail {now : ℤ} {same : Bool} (h : decision opts f n = .fail) :
    landed opts now same f n = none := by
  unfold landed
  rw [h]

lemma waits_next {s : Path} (hturn : Turn opts disk src dst s r) (hne : s ≠ r)
    (hs : Waits disk src dst t s) (hsource : IsSource disk src s) (hr : Waits disk src dst t r)
    (hrsource : IsSource disk src r)
    (h : copyFile opts now t (src ++ s) (dst ++ s) = some t') : Waits disk src dst t' r := by
  obtain ⟨f, n, hf, hn, ht', hother⟩ := copyFile_spec h
  constructor
  · by_cases heq : dst ++ s = src ++ r
    · rw [hs.2] at hn
      rcases hturn heq f (hs.1.symm.trans hf) with hskip | hfail
      · rw [landed_of_skip hskip] at hn
        rw [← heq, ht', ← Option.some.inj hn]
      · rw [landed_of_fail hfail] at hn
        exact absurd hn (Option.some_ne_none _).symm
    · obtain hsame | ⟨hnone, -⟩ := hother (src ++ r) (Ne.symm heq)
      · exact hsame.trans hr.1
      · obtain ⟨g, hg⟩ := hrsource
        exact absurd (hnone.symm.trans (hr.1.trans hg)) (Option.some_ne_none _).symm
  · obtain hsame | ⟨-, hpre⟩ := hother (dst ++ r) fun heq =>
      hne (List.append_cancel_left heq).symm
    · exact hsame.trans hr.2
    · obtain ⟨g, hg⟩ := hsource
      exact absurd hpre (not_isPrefix_of_source hrsource (by rw [hg]; rfl) (Ne.symm hne))

/-- The place of a file is written at its turn only. -/
lemma place_kept (hr : IsSource disk src r) (hrs : ∀ s ∈ rs, IsSource disk src s ∧ s ≠ r) :
    (runAll (fun t rel => copyFile opts now t (src ++ rel) (dst ++ rel)) t rs).1 (dst ++ r) =
      t (dst ++ r) := by
  induction rs generalizing t with
  | nil => rfl
  | cons s rs ih =>
    obtain ⟨⟨hsource, hne⟩, hrest⟩ := List.forall_mem_cons.mp hrs
    rw [runAll]
    split
    next => rfl
    next t' h =>
      obtain ⟨-, -, -, -, -, hother⟩ := copyFile_spec h
      rw [ih hrest]
      obtain hsame | ⟨-, hpre⟩ := hother (dst ++ r) fun heq =>
        hne (List.append_cancel_left heq).symm
      · exact hsame
      · obtain ⟨g, hg⟩ := hsource
        exact absurd hpre (not_isPrefix_of_source hr (by rw [hg]; rfl) (Ne.symm hne))

/-- The induction is over the files; those whose turn is still to come are as they were. -/
lemma run_landed (hsources : ∀ r ∈ rs, IsSource disk src r)
    (hwaits : ∀ r ∈ rs, Waits disk src dst t r) (hnodup : rs.Nodup)
    (hturn : rs.Pairwise (Turn opts disk src dst))
    (hok : (runAll (fun t rel => copyFile opts now t (src ++ rel) (dst ++ rel)) t rs).2 = true) :
    ∀ r ∈ rs, ∀ f, disk.tree (src ++ r) = some (.file f) →
      landed opts (now (dst ++ r)) (src ++ r = dst ++ r) f (disk.tree (dst ++ r)) =
        some ((runAll (fun t rel => copyFile opts now t (src ++ rel) (dst ++ rel)) t rs).1
          (dst ++ r)) := by
  induction rs generalizing t with
  | nil => exact fun r hr => absurd hr List.not_mem_nil
  | cons s rs ih =>
    obtain ⟨hsource, hsources'⟩ := List.forall_mem_cons.mp hsources
    obtain ⟨hs, hwaits'⟩ := List.forall_mem_cons.mp hwaits
    obtain ⟨hnotMem, hnodup⟩ := List.nodup_cons.mp hnodup
    obtain ⟨hturns, hturn⟩ := List.pairwise_cons.mp hturn
    rw [runAll] at hok ⊢
    split at hok
    next => exact absurd hok Bool.false_ne_true
    next t' h =>
      have hne (r) (hr : r ∈ rs) : s ≠ r := fun heq => hnotMem (heq ▸ hr)
      refine List.forall_mem_cons.mpr ⟨fun f hf => ?_, ?_⟩
      · obtain ⟨f', n, hf', hn, ht', -⟩ := copyFile_spec h
        obtain rfl : f = f' := by
          rw [hs.1, hf] at hf'
          exact Node.file.inj (Option.some.inj hf')
        rw [place_kept hsource fun r hr => ⟨hsources' r hr, (hne r hr).symm⟩, ht', ← hs.2]
        exact hn
      · exact ih hsources' (fun r hr => waits_next (hturns r hr) (hne r hr) hs hsource
          (hwaits' r hr) (hsources' r hr) h) hnodup hturn hok

/-- A copy is resumed from the end of what is there. -/
lemma eq_length_of_append {g : File} {k : ℕ}
    (h : decision opts f (some (.file g)) = .append k) : k = g.content.length := by
  unfold decision at h
  dsimp only at h
  split_ifs at h
  exact (Decision.append.inj h).symm

lemma append_drop_eq_iff {l g : Bytes} :
    g ++ l.drop g.length = l ↔ g = l.take g.length := by
  conv_lhs => rhs; rw [← List.take_append_drop g.length l]
  exact List.append_left_inj _

/-- What lands is right exactly if what is resumed is a front part of the file, and what is
rewritten by itself is empty. -/
lemma arrived_iff {now : ℤ} {same : Bool} (h : landed opts now same f n = some n') :
    Arrived opts f n n' ↔
      (∀ g, n = some (.file g) → ∀ k, decision opts f (some (.file g)) = .append k →
        g.content = f.content.take k) ∧
      (same = true → decision opts f n = .rewrite → f.content = []) := by
  unfold landed at h
  unfold Arrived
  cases hd : decision opts f n with
  | skip =>
    rw [hd] at h
    refine iff_of_true (by rw [if_pos rfl, Option.some.inj h]) ⟨?_, fun _ => Decision.noConfusion⟩
    rintro g rfl k hk
    exact Decision.noConfusion (hd.symm.trans hk)
  | fail =>
    rw [hd] at h
    cases n <;> exact absurd h (Option.some_ne_none _).symm
  | append k =>
    rw [hd] at h
    rcases n with - | m | g
    · exact absurd h (Option.some_ne_none _).symm
    · exact absurd h (Option.some_ne_none _).symm
    · obtain rfl := Option.some.inj h
      obtain rfl := eq_length_of_append hd
      have hcontent : (some (Node.file ⟨g.content ++ f.content.drop g.content.length,
          stamp opts now f⟩)).bind Node.file? = some ⟨g.content ++ f.content.drop g.content.length,
          stamp opts now f⟩ := rfl
      rw [if_neg Decision.noConfusion, hcontent, Option.map_some, Option.some.injEq,
        append_drop_eq_iff]
      constructor
      · intro hfront
        refine ⟨?_, fun _ => Decision.noConfusion⟩
        rintro g' hg' k hk
        obtain rfl := Node.file.inj (Option.some.inj hg')
        rw [← Decision.append.inj (hd.symm.trans hk)]
        exact hfront
      · exact fun hfine => hfine.1 g rfl _ hd
  | rewrite =>
    rw [hd] at h
    have hland : n' = some (.file ⟨if same then [] else f.content, stamp opts now f⟩) := by
      rcases n with - | m | g
      · exact (Option.some.inj h).symm
      · exact absurd h (Option.some_ne_none _).symm
      · exact (Option.some.inj h).symm
    subst hland
    have hfirst : ∀ g, n = some (.file g) → ∀ k, decision opts f (some (.file g)) = .append k →
        g.content = f.content.take k := by
      rintro g rfl k hk
      exact Decision.noConfusion (hd.symm.trans hk)
    rw [if_neg Decision.noConfusion, and_iff_right hfirst]
    change some (if same = true then [] else f.content) = some f.content ↔ _
    rw [Option.some.injEq]
    cases same with
    | true => exact ⟨fun heq _ _ => heq.symm, fun hempty => (hempty rfl rfl).symm⟩
    | false => exact iff_of_true rfl fun hsame => absurd hsame Bool.false_ne_true

/-- The contents of the source are all there. -/
def Keeps (disk : Disk) (src : Path) (t : Paths) : Prop :=
  ∀ r f, disk.tree (src ++ r) = some (.file f) → content? t (src ++ r) = some f.content

lemma keeps_of_eq (h : ∀ r, IsSource disk src r → t (src ++ r) = disk.tree (src ++ r)) :
    Keeps disk src t := by
  intro r f hf
  rw [content?, h r ⟨f, hf⟩, hf]
  rfl

/-- A copy onto itself: the induction is over the files, of which only empty ones are rewritten. -/
lemma run_keeps (hfine : Fine opts disk src src) (hsources : ∀ r ∈ rs, IsSource disk src r)
    (hwaits : ∀ r ∈ rs, Waits disk src src t r) (hnodup : rs.Nodup) (hkeeps : Keeps disk src t) :
    Keeps disk src
      (runAll (fun t rel => copyFile opts now t (src ++ rel) (src ++ rel)) t rs).1 := by
  induction rs generalizing t with
  | nil => exact hkeeps
  | cons s rs ih =>
    obtain ⟨hsource, hsources'⟩ := List.forall_mem_cons.mp hsources
    obtain ⟨hs, hwaits'⟩ := List.forall_mem_cons.mp hwaits
    obtain ⟨hnotMem, hnodup⟩ := List.nodup_cons.mp hnodup
    rw [runAll]
    split
    next => exact hkeeps
    next t' h =>
      have hne (r) (hr : r ∈ rs) : s ≠ r := fun heq => hnotMem (heq ▸ hr)
      refine ih hsources' (fun r hr => ?_) hnodup fun r f hf => ?_
      · refine waits_next (fun heq => ?_) (hne r hr) hs hsource (hwaits' r hr) (hsources' r hr) h
        exact absurd (List.append_cancel_left heq) (hne r hr)
      · obtain ⟨f', n, hf', hn, ht', hother⟩ := copyFile_spec h
        by_cases heq : r = s
        · subst heq
          obtain rfl : f = f' := by
            rw [hs.1, hf] at hf'
            exact Node.file.inj (Option.some.inj hf')
          rw [hs.2] at hn
          obtain ⟨hfront, hempty⟩ := hfine (fun _ => rfl) r f hf
          have harrived := (arrived_iff hn).mpr ⟨hfront, fun _ => hempty rfl⟩
          rw [content?, ht']
          unfold Arrived at harrived
          split_ifs at harrived
          · rw [harrived, hf]
            rfl
          · exact harrived
        · obtain hsame | ⟨hnone, -⟩ := hother (src ++ r) fun heq' =>
            heq (List.append_cancel_left heq')
          · rw [content?, hsame]
            exact hkeeps r f hf
          · have hcontent := hkeeps r f hf
            rw [content?, hnone] at hcontent
            exact absurd hcontent (Option.some_ne_none _).symm

/-! ### The whole copy -/

lemma waits_start (hr : IsSource disk src r) : Waits disk src dst
    (runAll (fun t rel => createDirAll now t (dst ++ rel)) disk.tree (folders disk src)).1 r := by
  refine waits_folders hr ⟨rfl, rfl⟩ fun rel hrel => ?_
  obtain ⟨hmem, hdir⟩ := List.mem_filter.mp hrel
  refine ⟨mem_walk.mp hmem, fun hsource => ?_⟩
  rw [isFile_iff.mpr hsource] at hdir
  exact absurd hdir Bool.false_ne_true

lemma copy_landed (hturn : InTurn opts disk src dst) (hok : (copy opts now disk src dst).2 = true)
    (hf : disk.tree (src ++ r) = some (.file f)) :
    landed opts (now (dst ++ r)) (src ++ r = dst ++ r) f (disk.tree (dst ++ r)) =
      some ((copy opts now disk src dst).1 (dst ++ r)) := by
  unfold copy at hok ⊢
  split at hok
  next => exact absurd hok Bool.false_ne_true
  next =>
    split_ifs at hok ⊢ with hself
    dsimp only at hok ⊢
    split_ifs at hok ⊢ with hfolders
    exact run_landed (fun r hr => mem_files.mp hr)
      (fun r hr => waits_start (mem_files.mp hr)) nodup_files hturn hok r
      (mem_files.mpr ⟨f, hf⟩) f hf

lemma copy_keeps (hfine : Fine opts disk src dst) (hpre : src <+: dst) :
    Keeps disk src (copy opts now disk src dst).1 := by
  unfold copy
  split
  next => exact keeps_of_eq fun _ _ => rfl
  next =>
    split_ifs with hself
    · exact keeps_of_eq fun _ _ => rfl
    · obtain rfl : src = dst := by
        by_contra hne
        exact hself ⟨hpre, hne⟩
      dsimp only
      have hstart : Keeps disk src
          (runAll (fun t rel => createDirAll now t (src ++ rel)) disk.tree (folders disk src)).1 :=
        keeps_of_eq fun r hr => (waits_start hr).1
      split_ifs
      · exact run_keeps hfine (fun r hr => mem_files.mp hr)
          (fun r hr => waits_start (mem_files.mp hr)) nodup_files hstart
      · exact hstart

/-- Only onto itself does a folder go into its own subtree. -/
lemma src_eq_of_copy (hok : (copy opts now disk src dst).2 = true) (hpre : src <+: dst) :
    src = dst := by
  unfold copy at hok
  split at hok
  next => exact absurd hok Bool.false_ne_true
  next =>
    by_contra hne
    rw [if_pos ⟨hpre, hne⟩] at hok
    exact absurd hok Bool.false_ne_true

/-- When no file is written to before its turn: a copy does what it should if what it resumes are
front parts and only empty files are rewritten by themselves; and if it succeeds, only then. -/
theorem copy_right_iff (opts : Options) (now : Path → ℤ) (disk : Disk) (src dst : Path)
    (hturn : InTurn opts disk src dst) :
    (Fine opts disk src dst → Right opts disk src dst (copy opts now disk src dst)) ∧
    ((copy opts now disk src dst).2 = true →
      (Right opts disk src dst (copy opts now disk src dst) ↔ Fine opts disk src dst)) := by
  have hsame (r : Path) : decide (src ++ r = dst ++ r) = true ↔ src = dst := by
    rw [decide_eq_true_eq, List.append_left_inj]
  have harrived (hok : (copy opts now disk src dst).2 = true) :
      (∀ r f, disk.tree (src ++ r) = some (.file f) →
        Arrived opts f (disk.tree (dst ++ r)) ((copy opts now disk src dst).1 (dst ++ r))) ↔
      Fine opts disk src dst := by
    rw [Fine, forall_prop_of_true (src_eq_of_copy hok)]
    refine forall₃_congr fun r f hf => ?_
    rw [arrived_iff (copy_landed hturn hok hf), hsame]
  have hright (hfine : Fine opts disk src dst) :
      Right opts disk src dst (copy opts now disk src dst) :=
    ⟨fun hok => (harrived hok).mpr hfine, fun hpre => copy_keeps hfine hpre⟩
  exact ⟨hright, fun hok => ⟨fun h => (harrived hok).mp (h.1 hok), hright⟩⟩

end Files

/-- Two files and nothing else. -/
def twoFiles (f g : File) : Disk where
  tree p :=
    if p = [['a']] then some (.file f)
    else if p = [['b']] then some (.file g)
    else if p = [] then some (.dir 0)
    else none
  paths := [[], [['a']], [['b']]]
  complete p h := by
    split_ifs at h with ha hb hnil
    · simp [ha]
    · simp [hb]
    · simp [hnil]
    · exact absurd h Bool.false_ne_true
  closed p q hpre hne h := by
    have hq : q = [] := by
      have hone (name : Text) (hp : p = [name]) : q = [] := by
        subst hp
        obtain rfl | ⟨rest, rfl, hrest⟩ := List.prefix_cons_iff.mp hpre
        · rfl
        · exact absurd (congrArg _ (List.prefix_nil.mp hrest)) hne
      split_ifs at h with ha hb hnil
      · exact hone _ ha
      · exact hone _ hb
      · exact List.prefix_nil.mp (hnil ▸ hpre)
      · exact absurd h Bool.false_ne_true
    subst hq
    exact ⟨0, rfl⟩

/-- The destination is the first half of the source. -/
def halfCopied : Disk := twoFiles ⟨[1, 2], 0⟩ ⟨[1], 0⟩

/-- The rest is appended. -/
theorem copy_right_resumed :
    Right ⟨false, false, false, true, false, true⟩ halfCopied [['a']] [['b']]
      (copy ⟨false, false, false, true, false, true⟩ (fun _ => 0) halfCopied [['a']] [['b']]) ∧
    (copy ⟨false, false, false, true, false, true⟩ (fun _ => 0) halfCopied [['a']] [['b']]).2 =
      true ∧
    content? (copy ⟨false, false, false, true, false, true⟩ (fun _ => 0) halfCopied
      [['a']] [['b']]).1 [['b']] = some [1, 2] := by
  have hturn : InTurn ⟨false, false, false, true, false, true⟩ halfCopied [['a']] [['b']] := by
    refine List.pairwise_of_forall fun s r heq => ?_
    exact absurd (List.cons.inj heq).1 (by decide)
  refine ⟨(copy_right_iff _ (fun _ => 0) _ _ _ hturn).1 fun _ r f hf => ?_, by decide, by decide⟩
  refine ⟨fun g hg k hk => ?_, fun heq => absurd heq (by decide)⟩
  rcases r with - | ⟨name, r⟩
  · obtain rfl := Node.file.inj (Option.some.inj hf)
    obtain rfl := Node.file.inj (Option.some.inj hg)
    rw [eq_length_of_append hk]
    rfl
  · exact absurd hf (by simp [halfCopied, twoFiles])

/-- A file that is copied onto itself is empty afterwards. -/
theorem not_copy_right : ¬ ∀ (opts : Options) (now : Path → ℤ) (disk : Disk) (src dst : Path),
    Right opts disk src dst (copy opts now disk src dst) := by
  intro h
  have hcontent := (h ⟨true, false, false, false, false, true⟩ (fun _ => 0)
    (twoFiles ⟨[1], 0⟩ ⟨[1], 0⟩) [['a']] [['a']]).2 List.prefix_rfl [] ⟨[1], 0⟩ rfl
  exact absurd hcontent (by decide)

end Orchid.Fs.Copying
