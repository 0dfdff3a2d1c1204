import Mathlib.Data.List.Nodup
import Orchid.Archive.Names

/-!
# Where a reveal writes and what closing wipes

The name of a revealed file is read from a side file that nobody has signed, and joined to the
directory of a fresh session. A session is closed by overwriting files with zeros and removing its
directory.
-/

namespace Orchid.Reveal

open Fs Archive

/-! ### The place of the plaintext -/

/-- The text of a session's id: hexadecimal digits and hyphens. -/
structure SessionId where
  text : Text
  length : text.length = 36
  digits : ∀ c ∈ text, c.isDigit || ('a' ≤ c && c ≤ 'f') || c == '-'

/-- The fields of `EncryptedFileMeta` that a reveal reads; nothing protects them. -/
structure Sidecar (H : Type) where
  originalName : Text
  blake3OfPlaintext : H

/-- `Path::file_name` -/
def fileName (p : LocalPath) : Option Text := p.comps.getLast?.filter fun c => c ≠ dotdot

/-- `Path::file_stem` of a file's name -/
def nameStem (name : Text) : Text :=
  match name.reverse.dropWhile fun c => c ≠ '.' with
  | [] => name
  | [_] => name
  | _ :: rest => rest.reverse

/-- `Path::with_extension` -/
def withExtension (p : LocalPath) (ext : Text) : LocalPath :=
  match fileName p with
  | none => p
  | some name => { p with comps := p.comps.dropLast ++ [nameStem name ++ '.' :: ext] }

/-- `temp_root.join(session_id)` -/
def sessionDir (pl : Platform) (tempRoot : LocalPath) (id : SessionId) : LocalPath :=
  join pl tempRoot id.text

/-- What may fail when a file is written. -/
structure WriteFaults where
  parent : Bool
  write : Bool
  rename : Bool

/-- The end of `decrypt_file_blocking`: the places that the plaintext is written to. A path without
a file name is that of a directory. -/
def writePlaintext (output : LocalPath) (faults : WriteFaults) : List LocalPath :=
  if faults.parent || faults.write || (fileName output).isNone then []
  else
    let tmp := withExtension output "orchid-decrypting".toList
    if faults.rename then [tmp] else [tmp, output]

section Revealing

variable {H : Type} [DecidableEq H] (pl : Platform) (refuses : Text → Bool) (hash : Bytes → H)

/-- `reveal`: the places that the plaintext is written to. The side file may be missing or not
readable, the ciphertext may not decrypt, and there are names that the system refuses. -/
def reveal (tempRoot : LocalPath) (id : SessionId) (encryptedStem : Text)
    (sidecar : Option (Sidecar H)) (plaintext : Option Bytes) (faults : WriteFaults) :
    List LocalPath :=
  let originalName := (sidecar.map Sidecar.originalName).getD encryptedStem
  let revealedPath := join pl (sessionDir pl tempRoot id) originalName
  match plaintext with
  | none => []
  | some bytes =>
    match sidecar with
    | none => []
    | some stored =>
      if hash bytes ≠ stored.blake3OfPlaintext then []
      else if refuses originalName then []
      else writePlaintext revealedPath faults

end Revealing

/-! ### Inside a directory -/

/-- One component taken; above a root there is nothing. -/
def climb (rooted : Bool) (stack : List Text) (c : Text) : List Text :=
  if c = dotdot then
    match stack.getLast? with
    | none => if rooted then [] else [dotdot]
    | some top => if top = dotdot then stack ++ [dotdot] else stack.dropLast
  else stack ++ [c]

/-- The components that a path leads through, with the steps up taken. -/
def resolved (p : LocalPath) : List Text := p.comps.foldl (climb p.rooted) []

/-- A path leads into a directory. -/
def Inside (dir p : LocalPath) : Prop :=
  p.pre = dir.pre ∧ p.rooted = dir.rooted ∧ ∃ rest ≠ [], resolved p = resolved dir ++ rest

/-- Components that never lead above where they start, and end below it. -/
def Descends : ℕ → List Text → Prop
  | d, [] => 0 < d
  | d, c :: cs => if c = dotdot then 0 < d ∧ Descends (d - 1) cs else Descends (d + 1) cs

/-- A name that leads into every directory it is joined to. -/
def LeadsIn (pl : Platform) (name : Text) : Prop :=
  (parsePath pl name).pre = none ∧ (parsePath pl name).rooted = false ∧
    Descends 0 (parsePath pl name).comps

/-- A name that can only be that of a directory: it ends with a step up, or is a root or drive. -/
def NamesDirectory (pl : Platform) (name : Text) : Prop :=
  fileName (parsePath pl name) = none ∧
    ((parsePath pl name).comps = [] → (parsePath pl name).pre.isSome ∨ (parsePath pl name).rooted)

/-! ### Closing -/

/-- What is in a revealed directory: a regular file, which may not be writable, a directory, or
something else. -/
inductive Item
  | file (content : Bytes) (writable : Bool)
  | directory
  | other
deriving DecidableEq

/-- A revealed directory, with everything in it at any depth by its path. -/
structure Tree where
  items : List (List Text × Item)
  nodup : (items.map Prod.fst).Nodup

/-- What closing a session does to the disk. -/
inductive WipeStep
  | overwrite (path : List Text) (bytes : Bytes)
  | removeFile (path : List Text)
  | removeDirAll
deriving DecidableEq

/-- `BLOCK` -/
def wipeBlock : ℕ := 64 * 1024

/-- The zeros that the loop of `wipe_file` writes. -/
def writeZeros (len remaining : ℕ) : Bytes :=
  if h : remaining = 0 then []
  else
    let taken := min remaining (max (min wipeBlock len) 1)
    List.replicate taken 0 ++ writeZeros len (remaining - taken)
termination_by remaining
decreasing_by omega

/-- `wipe_file` -/
def wipeFile (path : List Text) (content : Bytes) (writable : Bool) : List WipeStep :=
  if content.length = 0 then [.removeFile path]
  else if writable then
    [.overwrite path (writeZeros content.length content.length), .removeFile path]
  else [.removeFile path]

/-- `wipe_session` of a directory, which lists its entries. -/
def wipeSession (tree : Tree) : List WipeStep :=
  (tree.items.flatMap fun e =>
    match e with
    | ([name], .file content writable) => wipeFile [name] content writable
    | _ => []) ++ [.removeDirAll]

/-- Every byte of every regular file is overwritten before the directory is removed. -/
def Wiped (tree : Tree) : Prop :=
  ∀ path content writable, (path, Item.file content writable) ∈ tree.items → content ≠ [] →
    ∃ front back, wipeSession tree =
        front ++ .overwrite path (List.replicate content.length 0) :: back ∧
      WipeStep.removeDirAll ∉ front

/-! ### Paths that lead in -/

section Paths

variable {rooted : Bool} {cs : List Text}

lemma climb_of_ne {c : Text} (hc : c ≠ dotdot) (stack : List Text) :
    climb rooted stack c = stack ++ [c] := if_neg hc

lemma climb_dotdot {top : Text} (htop : top ≠ dotdot) (stack : List Text) :
    climb rooted (stack ++ [top]) dotdot = stack := by
  rw [climb, if_pos rfl, List.getLast?_concat]
  dsimp only
  rw [if_neg htop, List.dropLast_concat]

/-- Where the components descend, what was there before stays. -/
lemma foldl_climb_of_descends (rooted : Bool) (stack down : List Text) (hdown : dotdot ∉ down)
    (h : Descends down.length cs) :
    ∃ rest ≠ [], cs.foldl (climb rooted) (stack ++ down) = stack ++ rest := by
  induction cs generalizing down with
  | nil => exact ⟨down, List.ne_nil_of_length_pos h, rfl⟩
  | cons c cs ih =>
    rw [Descends] at h
    rw [List.foldl_cons]
    by_cases hc : c = dotdot
    · rw [if_pos hc] at h
      subst hc
      obtain ⟨front, top, rfl⟩ := (List.eq_nil_or_concat' down).resolve_left
        (List.ne_nil_of_length_pos h.1)
      rw [List.mem_append, not_or, List.mem_singleton] at hdown
      rw [← List.append_assoc, climb_dotdot fun h => hdown.2 h.symm]
      refine ih front hdown.1 ?_
      have hlength := h.2
      rwa [List.length_append, List.length_singleton, Nat.add_sub_cancel] at hlength
    · rw [if_neg hc] at h
      rw [climb_of_ne hc, List.append_assoc]
      refine ih _ ?_ ?_
      · rw [List.mem_append, not_or, List.mem_singleton]
        exact ⟨hdown, fun h => hc h.symm⟩
      · rwa [List.length_append, List.length_singleton]

/-- Where they do not, they lead to where they start, or to a place that does not depend on its
name. -/
lemma foldl_climb_of_not_descends (rooted : Bool) (stack down : List Text) (hdown : dotdot ∉ down)
    (h : ¬ Descends down.length cs) :
    (∀ name ≠ dotdot, cs.foldl (climb rooted) (stack ++ [name] ++ down) = stack ++ [name]) ∨
      ∃ place, ∀ name ≠ dotdot, cs.foldl (climb rooted) (stack ++ [name] ++ down) = place := by
  induction cs generalizing down with
  | nil =>
    have hempty : down = [] := List.eq_nil_of_length_eq_zero (Nat.eq_zero_of_not_pos h)
    subst hempty
    exact .inl fun name _ => List.append_nil _
  | cons c cs ih =>
    rw [Descends] at h
    simp only [List.foldl_cons]
    by_cases hc : c = dotdot
    · rw [if_pos hc] at h
      subst hc
      rcases List.eq_nil_or_concat' down with rfl | ⟨front, top, rfl⟩
      · right
        refine ⟨cs.foldl (climb rooted) stack, fun name hname => ?_⟩
        rw [List.append_nil, climb_dotdot hname]
      · rw [List.mem_append, not_or, List.mem_singleton] at hdown
        have hclimb : ∀ name, climb rooted (stack ++ [name] ++ (front ++ [top])) dotdot =
            stack ++ [name] ++ front := by
          intro name
          rw [← List.append_assoc, climb_dotdot fun h => hdown.2 h.symm]
        simp only [hclimb]
        refine ih front hdown.1 fun hdescends => h ⟨?_, ?_⟩
        · rw [List.length_append, List.length_singleton]
          exact Nat.succ_pos _
        · rwa [List.length_append, List.length_singleton, Nat.add_sub_cancel]
    · rw [if_neg hc] at h
      have hclimb : ∀ name, climb rooted (stack ++ [name] ++ down) c =
          stack ++ [name] ++ (down ++ [c]) := by
        intro name
        rw [climb_of_ne hc, List.append_assoc]
      simp only [hclimb]
      refine ih _ ?_ ?_
      · rw [List.mem_append, not_or, List.mem_singleton]
        exact ⟨hdown, fun h => hc h.symm⟩
      · rwa [List.length_append, List.length_singleton]

/-- Whether components descend does not depend on the last one, unless it leads up. -/
lemma descends_concat {c c' : Text} (hc : c ≠ dotdot) (hc' : c' ≠ dotdot) (d : ℕ)
    (front : List Text) : Descends d (front ++ [c]) ↔ Descends d (front ++ [c']) := by
  induction front generalizing d with
  | nil => simp [Descends, hc, hc']
  | cons x front ih => simp only [List.cons_append, Descends, ih]

lemma resolved_append (p : LocalPath) (comps : List Text) :
    resolved { p with comps := p.comps ++ comps } = comps.foldl (climb p.rooted) (resolved p) :=
  List.foldl_append

end Paths

/-! ### Sessions -/

section Sessions

variable {pl : Platform} {tempRoot : LocalPath}

lemma SessionId.notMem (id : SessionId) {c : Char} (hc : c = '.' ∨ c = '/' ∨ c = '\\' ∨ c = ':') :
    c ∉ id.text := by
  intro h
  have hdigit := id.digits c h
  rcases hc with rfl | rfl | rfl | rfl <;> exact absurd hdigit (by decide)

lemma SessionId.ne_dotdot (id : SessionId) : id.text ≠ dotdot := by
  intro h
  exact id.notMem (c := '.') (.inl rfl) (h ▸ List.mem_cons_self)

lemma SessionId.isSep (id : SessionId) : ∀ c ∈ id.text, pl.isSep c = false := by
  intro c hc
  have hslash : c ≠ '/' := fun h => id.notMem (.inr (.inl rfl)) (h ▸ hc)
  have hback : c ≠ '\\' := fun h => id.notMem (.inr (.inr (.inl rfl))) (h ▸ hc)
  cases pl with
  | unix => simp [Platform.isSep, hslash]
  | windows => simp [Platform.isSep, hslash, hback]

/-- The directory of a session is right in the root. -/
lemma sessionDir_eq (id : SessionId) : sessionDir pl tempRoot id =
    { tempRoot with comps := tempRoot.comps ++ [id.text] } := by
  have hsplit : id.text.splitOnP pl.isSep = [id.text] := List.splitOnP_eq_singleton id.isSep
  have hplain : Plain pl id.text := by
    refine ⟨?_, ?_⟩
    · cases htext : id.text with
      | nil => rfl
      | cons c t => simp [id.isSep c (htext ▸ List.mem_cons_self)]
    · rw [hsplit, List.mem_singleton]
      exact fun h => id.ne_dotdot h.symm
  have hdrive : hasDrive pl id.text = false := by
    unfold hasDrive
    split
    · rename_i c d t htext
      have hcolon : d ≠ ':' := fun h => id.notMem (c := ':') (.inr (.inr (.inr rfl)))
        (by rw [htext, h]; exact List.mem_cons_of_mem _ List.mem_cons_self)
      simp [hcolon]
    · rfl
  have hne : id.text ≠ [] := fun h => absurd id.length (by rw [h]; decide)
  have hdot : id.text ≠ ['.'] := fun h => id.notMem (c := '.') (.inl rfl) (h ▸ List.mem_cons_self)
  rw [sessionDir, hplain.join hdrive, components, hsplit]
  simp [hne, hdot]

/-- A name without a root or drive is put behind the session's directory. -/
lemma join_of_relative {name : Text} (base : LocalPath) (hpre : (parsePath pl name).pre = none)
    (hrooted : (parsePath pl name).rooted = false) :
    join pl base name = { base with comps := base.comps ++ (parsePath pl name).comps } := by
  simp [Archive.join, hpre, hrooted]

/-- Any other name leads to one place, whatever the session. -/
lemma join_of_not_relative {name : Text} (h : ¬ ((parsePath pl name).pre = none ∧
    (parsePath pl name).rooted = false)) (comps comps' : List Text) :
    join pl { tempRoot with comps } name = join pl { tempRoot with comps := comps' } name ∧
      (join pl { tempRoot with comps } name).comps = (parsePath pl name).comps := by
  rw [Archive.join, Archive.join]
  dsimp only
  split_ifs with hroot hrooted
  · exact ⟨rfl, rfl⟩
  · exact ⟨rfl, rfl⟩
  · refine absurd ⟨?_, Bool.eq_false_of_not_eq_true hrooted⟩ h
    rw [Bool.or_eq_true, not_or] at hroot
    exact Option.not_isSome_iff_eq_none.mp hroot.1

lemma fileName_eq_some {p : LocalPath} {name : Text} :
    fileName p = some name ↔ p.comps.getLast? = some name ∧ name ≠ dotdot := by
  rw [fileName, Option.filter_eq_some_iff, decide_eq_true_iff]

/-- The place next to a file where it is written first. -/
lemma withExtension_eq {p : LocalPath} {front : List Text} {name : Text} (ext : Text)
    (hp : p.comps = front ++ [name]) (hname : name ≠ dotdot) :
    withExtension p ext = { p with comps := front ++ [nameStem name ++ '.' :: ext] } := by
  have hfile : fileName p = some name :=
    fileName_eq_some.mpr ⟨by rw [hp, List.getLast?_concat], hname⟩
  rw [withExtension, hfile]
  dsimp only
  rw [hp, List.dropLast_concat]

/-- A name with an extension of its own is no step up. -/
lemma withExt_ne_dotdot (stem ext : Text) (hext : 1 < ext.length) :
    stem ++ '.' :: ext ≠ dotdot := by
  intro h
  have hlength := congrArg List.length h
  simp only [List.length_append, List.length_cons, dotdot] at hlength
  simp at hlength
  omega

/-- Two sessions. -/
def someIds : SessionId × SessionId :=
  (⟨List.replicate 36 '0', rfl, fun c hc => by rw [List.eq_of_mem_replicate hc]; rfl⟩,
    ⟨List.replicate 36 '1', rfl, fun c hc => by rw [List.eq_of_mem_replicate hc]; rfl⟩)

/-- No path is inside of two sessions. -/
lemma not_inside_both {p : LocalPath}
    (h₁ : Inside (sessionDir pl tempRoot someIds.1) p)
    (h₂ : Inside (sessionDir pl tempRoot someIds.2) p) : False := by
  obtain ⟨-, -, rest₁, -, heq₁⟩ := h₁
  obtain ⟨-, -, rest₂, -, heq₂⟩ := h₂
  simp only [sessionDir_eq, resolved_append, List.foldl_cons, List.foldl_nil,
    climb_of_ne (SessionId.ne_dotdot _)] at heq₁ heq₂
  rw [heq₁, List.append_assoc, List.append_assoc, List.append_cancel_left_eq] at heq₂
  have hids := (List.cons.inj heq₂).1
  exact absurd hids (by decide)

/-- Components behind the directory of a session lead inside of it, in every session, exactly if
they descend. -/
lemma inside_iff_descends (pl : Platform) (tempRoot : LocalPath) (cs : List Text) :
    (∀ id, Inside (sessionDir pl tempRoot id)
      { tempRoot with comps := tempRoot.comps ++ [id.text] ++ cs }) ↔ Descends 0 cs := by
  have hdir : ∀ id : SessionId, resolved (sessionDir pl tempRoot id) =
      resolved tempRoot ++ [id.text] := by
    intro id
    rw [sessionDir_eq, resolved_append, List.foldl_cons, List.foldl_nil, climb_of_ne id.ne_dotdot]
  have hpath : ∀ id : SessionId,
      resolved { tempRoot with comps := tempRoot.comps ++ [id.text] ++ cs } =
        cs.foldl (climb tempRoot.rooted) (resolved tempRoot ++ [id.text]) := by
    intro id
    rw [List.append_assoc, resolved_append, List.foldl_append, List.foldl_cons, List.foldl_nil,
      climb_of_ne id.ne_dotdot]
  constructor
  · intro h
    by_contra hnot
    rcases foldl_climb_of_not_descends tempRoot.rooted (resolved tempRoot) []
      List.not_mem_nil hnot with hstart | ⟨place, hplace⟩
    · obtain ⟨-, -, rest, hrest, heq⟩ := h someIds.1
      have hstart := hstart _ someIds.1.ne_dotdot
      rw [List.append_nil] at hstart
      rw [hpath, hdir, hstart, List.self_eq_append_right] at heq
      exact hrest heq
    · have hwalk : ∀ id : SessionId, resolved { tempRoot with
          comps := tempRoot.comps ++ [id.text] ++ cs } = place := by
        intro id
        have hid := hplace _ id.ne_dotdot
        rw [List.append_nil] at hid
        rw [hpath, hid]
      have hinside : ∀ id, Inside (sessionDir pl tempRoot id)
          { tempRoot with comps := tempRoot.comps ++ [someIds.1.text] ++ cs } := by
        intro id
        obtain ⟨hpre, hrooted, rest, hrest, heq⟩ := h id
        exact ⟨hpre, hrooted, rest, hrest, (hwalk _).trans ((hwalk id).symm.trans heq)⟩
      exact not_inside_both (hinside someIds.1) (hinside someIds.2)
  · intro h id
    obtain ⟨rest, hrest, hwalk⟩ := foldl_climb_of_descends tempRoot.rooted
      (resolved tempRoot ++ [id.text]) [] List.not_mem_nil h
    rw [List.append_nil] at hwalk
    refine ⟨by rw [sessionDir_eq], by rw [sessionDir_eq], rest, hrest, ?_⟩
    rw [hpath, hdir, hwalk]

/-- A directory's name is never a file's in a session. -/
lemma fileName_join_of_namesDirectory {name : Text} (h : NamesDirectory pl name) (id : SessionId) :
    fileName (join pl (sessionDir pl tempRoot id) name) = none := by
  rw [sessionDir_eq]
  by_cases hrelative : (parsePath pl name).pre = none ∧ (parsePath pl name).rooted = false
  · rw [join_of_relative _ hrelative.1 hrelative.2]
    rcases List.eq_nil_or_concat' (parsePath pl name).comps with hempty | ⟨front, x, hcs⟩
    · have hroot := h.2 hempty
      simp [hrelative.1, hrelative.2] at hroot
    · have hnone := h.1
      rw [fileName, hcs, List.getLast?_concat] at hnone
      rw [fileName, hcs]
      dsimp only
      rw [← List.append_assoc, List.getLast?_concat]
      exact hnone
  · rw [fileName, (join_of_not_relative hrelative _ []).2]
    exact h.1

/-- A file of such a name is written inside of its session, whatever fails. -/
lemma writePlaintext_inside {name : Text} (h : LeadsIn pl name) (id : SessionId)
    (faults : WriteFaults) :
    ∀ p ∈ writePlaintext (join pl (sessionDir pl tempRoot id) name) faults,
      Inside (sessionDir pl tempRoot id) p := by
  obtain ⟨hpre, hrooted, hdescends⟩ := h
  have houtput : join pl (sessionDir pl tempRoot id) name =
      { tempRoot with comps := tempRoot.comps ++ [id.text] ++ (parsePath pl name).comps } := by
    rw [join_of_relative _ hpre hrooted, sessionDir_eq]
  rw [houtput]
  generalize (parsePath pl name).comps = cs at hdescends
  intro p hp
  unfold writePlaintext at hp
  split_ifs at hp with hfails hrename
  · cases hp
  all_goals
    rw [Bool.or_eq_true, not_or, Option.isNone_iff_eq_none] at hfails
    obtain ⟨last, hfile⟩ := Option.ne_none_iff_exists'.mp hfails.2
    rw [fileName_eq_some] at hfile
    rcases List.eq_nil_or_concat' cs with rfl | ⟨front, x, rfl⟩
    · exact absurd hdescends (lt_irrefl 0)
    rw [← List.append_assoc, List.getLast?_concat] at hfile
    obtain ⟨hx, hlast⟩ := hfile
    obtain rfl := Option.some.inj hx
    have htmp := withExtension_eq "orchid-decrypting".toList
      (p := { tempRoot with comps := tempRoot.comps ++ [id.text] ++ (front ++ [x]) })
      (List.append_assoc _ _ _).symm hlast
    have hinside := (inside_iff_descends pl tempRoot
      (front ++ [nameStem x ++ '.' :: "orchid-decrypting".toList])).mpr
      ((descends_concat hlast (withExt_ne_dotdot _ _ (by decide)) 0 front).mp hdescends) id
    rw [← List.append_assoc] at hinside
    rw [← htmp] at hinside
  · obtain rfl := List.mem_singleton.mp hp
    exact hinside
  · rcases List.mem_cons.mp hp with rfl | hp
    · exact hinside
    · obtain rfl := List.mem_singleton.mp hp
      exact (inside_iff_descends pl tempRoot (front ++ [x])).mpr hdescends id

/-- A file of any other name is written outside of some session, unless it is a directory's. -/
lemma leadsIn_of_inside {name : Text} (hname : ¬ NamesDirectory pl name)
    (h : ∀ id, ∀ p ∈ writePlaintext (join pl (sessionDir pl tempRoot id) name)
      ⟨false, false, false⟩, Inside (sessionDir pl tempRoot id) p) : LeadsIn pl name := by
  have hwritten : ∀ id, (fileName (join pl (sessionDir pl tempRoot id) name)).isSome →
      Inside (sessionDir pl tempRoot id)
        (withExtension (join pl (sessionDir pl tempRoot id) name) "orchid-decrypting".toList) := by
    intro id hfile
    refine h id _ ?_
    rw [writePlaintext, if_neg]
    · exact List.mem_cons_self
    · rw [Option.isNone_eq_false_iff.mpr hfile]
      exact Bool.false_ne_true
  by_cases hrelative : (parsePath pl name).pre = none ∧ (parsePath pl name).rooted = false
  · obtain ⟨hpre, hrooted⟩ := hrelative
    refine ⟨hpre, hrooted, ?_⟩
    have houtput : ∀ id, join pl (sessionDir pl tempRoot id) name =
        { tempRoot with comps := tempRoot.comps ++ [id.text] ++ (parsePath pl name).comps } := by
      intro id
      rw [join_of_relative _ hpre hrooted, sessionDir_eq]
    simp only [houtput] at hwritten
    rcases List.eq_nil_or_concat' (parsePath pl name).comps with hempty | ⟨front, x, hcs⟩
    · -- the name of the session's directory gets the extension
      exfalso
      have hid := hwritten someIds.1
      rw [hempty, List.append_nil] at hid
      have hfile : (fileName { tempRoot with
          comps := tempRoot.comps ++ [someIds.1.text] }).isSome := by
        rw [fileName_eq_some.mpr ⟨List.getLast?_concat, someIds.1.ne_dotdot⟩]
        rfl
      obtain ⟨-, -, rest, hrest, heq⟩ := hid hfile
      rw [withExtension_eq _ rfl someIds.1.ne_dotdot, sessionDir_eq] at heq
      dsimp only at heq
      rw [resolved_append, resolved_append, List.foldl_cons, List.foldl_nil, List.foldl_cons,
        List.foldl_nil,
        climb_of_ne (withExt_ne_dotdot _ _ (by decide)), climb_of_ne someIds.1.ne_dotdot,
        List.append_assoc, List.append_cancel_left_eq] at heq
      exact hrest (List.cons.inj heq).2.symm
    · rw [hcs] at hwritten ⊢
      have hx : x ≠ dotdot := by
        intro hx
        refine hname ⟨?_, fun hnil => ?_⟩
        · rw [fileName, hcs, List.getLast?_concat, hx]
          rfl
        · rw [hcs] at hnil
          exact absurd hnil (List.append_ne_nil_of_right_ne_nil _ (List.cons_ne_nil _ _))
      have hext := withExt_ne_dotdot (nameStem x) "orchid-decrypting".toList (by decide)
      rw [descends_concat hx hext 0 front, ← inside_iff_descends pl tempRoot]
      intro id
      have hfile : fileName { tempRoot with
          comps := tempRoot.comps ++ [id.text] ++ (front ++ [x]) } = some x :=
        fileName_eq_some.mpr ⟨by rw [← List.append_assoc, List.getLast?_concat], hx⟩
      have hid := hwritten id (by rw [hfile]; rfl)
      rw [withExtension_eq _ (List.append_assoc _ _ _).symm hx] at hid
      dsimp only at hid
      rw [List.append_assoc] at hid
      exact hid
  · exfalso
    have hsame : ∀ id, join pl (sessionDir pl tempRoot id) name =
        join pl (sessionDir pl tempRoot someIds.1) name := by
      intro id
      rw [sessionDir_eq, sessionDir_eq]
      exact (join_of_not_relative hrelative _ _).1
    have hcomps : (join pl (sessionDir pl tempRoot someIds.1) name).comps =
        (parsePath pl name).comps := by
      rw [sessionDir_eq]
      exact (join_of_not_relative hrelative _ []).2
    have hfile : (fileName (join pl (sessionDir pl tempRoot someIds.1) name)).isSome := by
      rw [Option.isSome_iff_ne_none]
      intro hnone
      refine hname ⟨by rwa [fileName, ← hcomps], fun _ => ?_⟩
      rw [not_and_or, ← ne_eq, ← Option.isSome_iff_ne_none, Bool.not_eq_false] at hrelative
      exact hrelative
    have hone := hwritten someIds.1 hfile
    have hother := hwritten someIds.2 (by rw [hsame]; exact hfile)
    rw [hsame someIds.2] at hother
    exact not_inside_both hone hother

end Sessions

/-! ### Wiping -/

section Wiping

variable {tree : Tree} {path : List Text} {content : Bytes} {writable : Bool}

/-- The loop writes a zero for every byte. -/
lemma writeZeros_eq (len remaining : ℕ) :
    writeZeros len remaining = List.replicate remaining 0 := by
  induction remaining using Nat.strong_induction_on with
  | _ remaining ih =>
    unfold writeZeros
    split_ifs with hzero
    · rw [hzero, List.replicate_zero]
    · have hpos : 0 < min remaining (max (min wipeBlock len) 1) := by omega
      have hle : min remaining (max (min wipeBlock len) 1) ≤ remaining := Nat.min_le_left _ _
      dsimp only
      rw [ih _ (Nat.sub_lt (Nat.pos_of_ne_zero hzero) hpos), List.replicate_append_replicate,
        Nat.add_sub_cancel' hle]

lemma wipeFile_of_ne_nil (path : List Text) (h : content ≠ []) :
    wipeFile path content true =
      [.overwrite path (List.replicate content.length 0), .removeFile path] := by
  rw [wipeFile, if_neg (mt List.eq_nil_of_length_eq_zero h), if_pos rfl, writeZeros_eq]

lemma overwrite_mem_wipeFile {path' : List Text} {bytes : Bytes}
    (h : .overwrite path' bytes ∈ wipeFile path content writable) :
    path' = path ∧ writable = true := by
  unfold wipeFile at h
  split_ifs at h with hempty hwritable
  · cases List.mem_singleton.mp h
  · rcases List.mem_cons.mp h with heq | h
    · exact ⟨(WipeStep.overwrite.inj heq).1, hwritable⟩
    · cases List.mem_singleton.mp h
  · cases List.mem_singleton.mp h

lemma removeDirAll_notMem_wipeFile : WipeStep.removeDirAll ∉ wipeFile path content writable := by
  unfold wipeFile
  split_ifs <;> simp

/-- A revealed directory is wiped exactly if all of its regular files that are not empty are right
in it and can be written. -/
lemma wiped_iff : Wiped tree ↔ ∀ path content writable,
    (path, Item.file content writable) ∈ tree.items → content ≠ [] →
      (∃ name, path = [name]) ∧ writable = true := by
  constructor
  · intro h path content writable hmem hcontent
    obtain ⟨front, back, hwipe, -⟩ := h path content writable hmem hcontent
    have hevent : WipeStep.overwrite path (List.replicate content.length 0) ∈ wipeSession tree := by
      rw [hwipe]
      exact List.mem_append_right _ List.mem_cons_self
    rw [wipeSession, List.mem_append, List.mem_singleton, List.mem_flatMap] at hevent
    obtain ⟨⟨path', item⟩, hitem, hevent⟩ := hevent.resolve_right WipeStep.noConfusion
    split at hevent
    · rename_i name content' writable' heq
      cases heq
      obtain ⟨rfl, hwritable⟩ := overwrite_mem_wipeFile hevent
      have hsame := List.inj_on_of_nodup_map tree.nodup hmem hitem rfl
      cases hsame
      exact ⟨⟨name, rfl⟩, hwritable⟩
    · cases hevent
  · intro h path content writable hmem hcontent
    obtain ⟨⟨name, rfl⟩, rfl⟩ := h path content writable hmem hcontent
    obtain ⟨before, after, hitems⟩ := List.append_of_mem hmem
    rw [wipeSession, hitems, List.flatMap_append, List.flatMap_cons]
    dsimp only
    rw [wipeFile_of_ne_nil _ hcontent]
    simp only [List.append_assoc, List.cons_append, List.nil_append]
    refine ⟨_, _, rfl, fun hremove => ?_⟩
    obtain ⟨⟨path', item⟩, -, hevent⟩ := List.mem_flatMap.mp hremove
    split at hevent
    · exact removeDirAll_notMem_wipeFile hevent
    · cases hevent

end Wiping

/-- The plaintext stays in every fresh session exactly if nothing is decrypted, the system refuses
the name, or the name is a directory's or leads in; and all files of a revealed directory are
overwritten exactly if those that are not empty are right in it and can be written. -/
theorem confined_iff {H : Type} [DecidableEq H] (pl : Platform) (refuses : Text → Bool)
    (hash : Bytes → H) (tempRoot : LocalPath) (encryptedStem : Text)
    (sidecar : Option (Sidecar H)) (plaintext : Option Bytes) (tree : Tree) :
    ((∀ id faults,
        ∀ p ∈ reveal pl refuses hash tempRoot id encryptedStem sidecar plaintext faults,
          Inside (sessionDir pl tempRoot id) p) ↔
      ∀ stored bytes, sidecar = some stored → plaintext = some bytes →
        hash bytes = stored.blake3OfPlaintext → refuses stored.originalName = false →
          NamesDirectory pl stored.originalName ∨ LeadsIn pl stored.originalName) ∧
    (Wiped tree ↔ ∀ path content writable,
      (path, Item.file content writable) ∈ tree.items → content ≠ [] →
        (∃ name, path = [name]) ∧ writable = true) := by
  refine ⟨?_, wiped_iff⟩
  constructor
  · rintro h stored bytes rfl rfl hhash hrefuses
    by_cases hname : NamesDirectory pl stored.originalName
    · exact .inl hname
    · refine .inr (leadsIn_of_inside hname fun id p hp => h id ⟨false, false, false⟩ p ?_)
      rw [reveal, if_neg (not_not.mpr hhash), Option.map_some, Option.getD_some, hrefuses,
        if_neg Bool.false_ne_true]
      exact hp
  · intro h id faults p hp
    cases hplain : plaintext with
    | none =>
      rw [hplain, reveal] at hp
      cases hp
    | some bytes =>
      cases hside : sidecar with
      | none =>
        rw [hplain, hside, reveal] at hp
        cases hp
      | some stored =>
        simp only [hplain, hside, reveal, Option.map_some, Option.getD_some] at hp
        split_ifs at hp with hhash hrefuses
        · cases hp
        · cases hp
        · rcases h stored bytes hside hplain (not_not.mp hhash)
            (Bool.eq_false_of_not_eq_true hrefuses) with hname | hname
          · rw [writePlaintext, fileName_join_of_namesDirectory hname, Option.isNone_none,
              Bool.or_true, if_pos rfl] at hp
            cases hp
          · exact writePlaintext_inside hname id faults p hp

/-- A name that leads out of the session, and a file below a directory of a revealed one. -/
theorem not_confined :
    (¬ ∀ (sidecar : Option (Sidecar Unit)) id faults,
      ∀ p ∈ reveal .unix (fun _ => false) (fun _ => ()) ⟨none, true, ["tmp".toList]⟩ id []
        sidecar (some []) faults,
        Inside (sessionDir .unix ⟨none, true, ["tmp".toList]⟩ id) p) ∧
      ¬ ∀ tree, Wiped tree := by
  constructor
  · intro h
    have hleads : LeadsIn .unix "../x".toList :=
      leadsIn_of_inside (by rintro ⟨hnone, -⟩; revert hnone; decide)
        fun id => h (some ⟨"../x".toList, ()⟩) id ⟨false, false, false⟩
    have hdescends := hleads.2.2
    revert hdescends
    rw [show (parsePath .unix "../x".toList).comps = [dotdot, "x".toList] by decide]
    simp [Descends]
  · intro h
    have hnested := h ⟨[([['d'], ['f']], .file [1] true)], List.nodup_singleton _⟩
    obtain ⟨⟨name, hname⟩, -⟩ := wiped_iff.mp hnested [['d'], ['f']] [1] true
      (List.mem_singleton_self _) (List.cons_ne_nil _ _)
    cases hname

end Orchid.Reveal
