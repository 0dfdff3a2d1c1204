import Orchid.Fs.Normal

/-!
# Names in archives

The name of an entry is an arbitrary text. `sanitiseEntryPath` rewrites its separators and rejects
what it takes for a way out; the name is then joined to the destination by the rules of the
platform, where a path with a drive or a root takes the place of the destination.
-/

namespace Orchid.Archive

open Fs

/-! ### Paths of the platforms -/

inductive Platform
  | unix
  | windows
  deriving DecidableEq

namespace Platform

def isSep : Platform → Char → Bool
  | .unix, c => c == '/'
  | .windows, c => c == '/' || c == '\\'

/-- `MAIN_SEPARATOR` -/
def mainSeparator : Platform → Char
  | .unix => '/'
  | .windows => '\\'

end Platform

/-- `Path`: the drive or share, whether there is a root, and the components. -/
structure LocalPath where
  pre : Option Text
  rooted : Bool
  comps : List Text
  deriving DecidableEq

section Joining

variable (pl : Platform)

/-- The pieces between the separators, without those that stay in place. -/
def components (t : Text) : List Text :=
  (t.splitOnP pl.isSep).filter fun seg => seg ≠ [] ∧ seg ≠ ['.']

/-- The server and the share behind two separators. -/
def splitShare (t : Text) : Option Text × Text :=
  let server := t.takeWhile fun c => !pl.isSep c
  let rest := (t.drop server.length).tail
  let share := rest.takeWhile fun c => !pl.isSep c
  if server = [] ∨ share = [] then (none, '\\' :: '\\' :: t)
  else (some ('\\' :: '\\' :: (server ++ '\\' :: share)), rest.drop share.length)

/-- A drive or a share in front, which only Windows knows. -/
def splitPrefix (t : Text) : Option Text × Text :=
  match pl with
  | .unix => (none, t)
  | .windows =>
    match t with
    | c :: d :: rest =>
      if c.isAlpha = true ∧ d = ':' then (some [c, d], rest)
      else if pl.isSep c && pl.isSep d then splitShare pl rest
      else (none, t)
    | _ => (none, t)

/-- The path that a text spells; a share has a root always. -/
def parsePath (t : Text) : LocalPath :=
  let (pre, rest) := splitPrefix pl t
  ⟨pre, rest.head?.any pl.isSep || pre.any fun p => p.head?.any pl.isSep, components pl rest⟩

/-- `Path::join` -/
def join (base : LocalPath) (t : Text) : LocalPath :=
  let path := parsePath pl t
  if path.pre.isSome || (pl == .unix && path.rooted) then path
  else if path.rooted then ⟨base.pre, true, path.comps⟩
  else { base with comps := base.comps ++ path.comps }

/-- `Path::parent` -/
def LocalPath.parent (p : LocalPath) : Option LocalPath :=
  if p.comps = [] then none else some { p with comps := p.comps.dropLast }

end Joining

/-- A drive in front of a text, on Windows. -/
def hasDrive (pl : Platform) (t : Text) : Bool :=
  match pl, t with
  | .windows, c :: d :: _ => c.isAlpha && d == ':'
  | _, _ => false

/-- `replace('/', MAIN_SEPARATOR_STR)` -/
def replaceSeparators (pl : Platform) (t : Text) : Text :=
  t.map fun c => if c = '/' then pl.mainSeparator else c

/-! ### Sanitising -/

def sanitiseEntryPath (raw : Text) : Option Text :=
  let normalised := slashed raw
  let trimmed := trimStartSlashes normalised
  if (trimmed.splitOn '/').any fun seg => seg = dotdot then none
  else if normalised.head? = some '/' then none
  else some trimmed

/-- A text that starts at no root and does not go up. -/
structure Plain (pl : Platform) (t : Text) : Prop where
  relative : t.head?.any pl.isSep = false
  down : dotdot ∉ t.splitOnP pl.isSep

section Pieces

variable {α : Type*} {p q : α → Bool}

/-- Separators that are rewritten as others cut a list at the same places. -/
lemma splitOnP_map {f : α → α} (hsep : ∀ a, p (f a) = q a) (hkeep : ∀ a, q a = false → f a = a)
    (t : List α) : (t.map f).splitOnP p = t.splitOnP q := by
  induction t with
  | nil => rfl
  | cons a t ih =>
    rw [List.map_cons, List.splitOnP_cons_eq_if_modifyHead, List.splitOnP_cons_eq_if_modifyHead, ih,
      hsep a]
    by_cases ha : q a = true
    · rw [if_pos ha, if_pos ha]
    · rw [if_neg ha, if_neg ha, hkeep a (Bool.not_eq_true _ ▸ ha)]

/-- A piece without further separators stays a piece if these cut as well. -/
lemma mem_splitOnP_of_imp (hpq : ∀ a, p a = true → q a = true) {t s : List α}
    (h : s ∈ t.splitOnP p) (hs : ∀ a ∈ s, q a = false) : s ∈ t.splitOnP q := by
  induction hn : t.length using Nat.strong_induction_on generalizing t with
  | _ n ih =>
    cases hdrop : t.dropWhile fun a => !p a with
    | nil =>
      have hno : ∀ a ∈ t, p a = false := by simpa using List.dropWhile_eq_nil_iff.mp hdrop
      rw [List.splitOnP_eq_singleton hno] at h
      obtain rfl := List.mem_singleton.mp h
      rw [List.splitOnP_eq_singleton hs]
      exact List.mem_singleton_self s
    | cons sep back =>
      have hsplit : t = (t.takeWhile fun a => !p a) ++ sep :: back := by
        rw [← hdrop, List.takeWhile_append_dropWhile]
      have hfront : ∀ a ∈ t.takeWhile fun a => !p a, p a = false := fun a ha => by
        simpa using List.mem_takeWhile_imp ha
      have hsep : p sep = true := by
        have := List.head?_dropWhile_not (fun a => !p a) t
        rw [hdrop] at this
        simpa using this
      have hlen := congrArg List.length hsplit
      rw [List.length_append, List.length_cons, hn] at hlen
      rw [hsplit, List.splitOnP_append_cons_of_forall_mem hfront sep hsep] at h
      rw [hsplit, List.splitOnP_append_cons _ _ (hpq sep hsep), List.mem_append]
      obtain rfl | h := List.mem_cons.mp h
      · rw [List.splitOnP_eq_singleton hs]
        exact .inl (List.mem_singleton_self _)
      · exact .inr (ih back.length (by omega) h rfl)

end Pieces

/-! ### What sanitising leaves -/

section Sanitised

variable {raw safe : Text}

lemma sanitise_eq_some_iff : sanitiseEntryPath raw = some safe ↔
    safe = slashed raw ∧ safe.head? ≠ some '/' ∧ dotdot ∉ safe.splitOn '/' := by
  have htrim (h : (slashed raw).head? ≠ some '/') :
      trimStartSlashes (slashed raw) = slashed raw := by
    unfold trimStartSlashes
    cases hraw : slashed raw with
    | nil => rfl
    | cons c t =>
      refine List.dropWhile_cons_of_neg fun hc => h ?_
      rw [hraw, List.head?_cons, of_decide_eq_true hc]
  have hany (t : Text) : (t.splitOn '/').any (fun seg => seg = dotdot) = true ↔
      dotdot ∈ t.splitOn '/' := by
    rw [List.any_eq_true]
    exact ⟨fun ⟨seg, hseg, heq⟩ => of_decide_eq_true heq ▸ hseg,
      fun h => ⟨dotdot, h, decide_eq_true rfl⟩⟩
  unfold sanitiseEntryPath
  dsimp only
  constructor
  · intro h
    split_ifs at h with hdots hroot
    obtain rfl := Option.some.inj h
    rw [hany, htrim hroot] at hdots
    rw [htrim hroot]
    exact ⟨rfl, hroot, hdots⟩
  · rintro ⟨rfl, hroot, hdots⟩
    rw [htrim hroot, if_neg (mt (hany _).mp hdots), if_neg hroot]

lemma isSep_slashed (c : Char) :
    ((if c = '\\' then '/' else c) == '/') = Platform.windows.isSep c := by
  by_cases h : c = '\\'
  · simp [h, Platform.isSep]
  · simp [h, Platform.isSep]

/-- Rewriting the separators does not change the pieces. -/
lemma splitOn_slashed (raw : Text) :
    (slashed raw).splitOn '/' = raw.splitOnP Platform.windows.isSep := by
  rw [List.splitOn_eq_splitOnP]
  refine splitOnP_map isSep_slashed (fun c hc => ?_) raw
  simp only [Platform.isSep, Bool.or_eq_false_iff, beq_eq_false_iff_ne] at hc
  rw [if_neg hc.2]

lemma head_slashed (raw : Text) :
    (slashed raw).head? = some '/' ↔ raw.head?.any Platform.windows.isSep = true := by
  cases raw with
  | nil => simp [slashed]
  | cons c raw =>
    change some (if c = '\\' then '/' else c) = some '/' ↔ Platform.windows.isSep c = true
    rw [← isSep_slashed, beq_iff_eq, Option.some.injEq]

/-- The pieces of one platform are not more than those of the other. -/
lemma plain_of_windows {pl : Platform} {t : Text} (h : Plain .windows t) : Plain pl t := by
  cases pl with
  | windows => exact h
  | unix =>
    have himp (c : Char) (hc : Platform.unix.isSep c = true) : Platform.windows.isSep c = true := by
      simp only [Platform.isSep] at hc ⊢
      rw [hc, Bool.true_or]
    refine ⟨?_, fun hmem => h.down ?_⟩
    · have hrel := h.relative
      cases t with
      | nil => rfl
      | cons c t => exact Bool.eq_false_iff.mpr fun hc => Bool.eq_false_iff.mp hrel (himp c hc)
    · exact mem_splitOnP_of_imp himp hmem
        (List.forall_mem_cons.mpr ⟨rfl, List.forall_mem_singleton.mpr rfl⟩)

/-- A name that is not rejected is plain, as it is and sanitised, on both platforms. -/
lemma plain_raw {pl : Platform} (h : sanitiseEntryPath raw = some safe) : Plain pl raw := by
  obtain ⟨rfl, hroot, hdots⟩ := sanitise_eq_some_iff.mp h
  rw [splitOn_slashed] at hdots
  exact plain_of_windows ⟨Bool.eq_false_iff.mpr (mt (head_slashed raw).mpr hroot), hdots⟩

lemma slashed_slashed (t : Text) : slashed (slashed t) = slashed t :=
  slashed_eq_self (notMem_slashed t)

lemma sanitise_sanitised (h : sanitiseEntryPath raw = some safe) :
    sanitiseEntryPath safe = some safe := by
  obtain ⟨rfl, hroot, hdots⟩ := sanitise_eq_some_iff.mp h
  exact sanitise_eq_some_iff.mpr ⟨(slashed_slashed raw).symm, hroot, hdots⟩

lemma plain_sanitised {pl : Platform} (h : sanitiseEntryPath raw = some safe) : Plain pl safe :=
  plain_raw (sanitise_sanitised h)

end Sanitised

/-! ### Joining plain names -/

section Plain

variable {pl : Platform} {t : Text}

lemma Plain.replaceSeparators (h : Plain pl t) : Plain pl (replaceSeparators pl t) := by
  have hsep (c : Char) : pl.isSep (if c = '/' then pl.mainSeparator else c) = pl.isSep c := by
    by_cases hc : c = '/'
    · rw [if_pos hc, hc]
      cases pl <;> rfl
    · rw [if_neg hc]
  have hkeep (c : Char) (hc : pl.isSep c = false) :
      (if c = '/' then pl.mainSeparator else c) = c := by
    refine if_neg fun heq => ?_
    rw [heq] at hc
    cases pl <;> cases hc
  refine ⟨?_, ?_⟩
  · have hrel := h.relative
    cases t with
    | nil => rfl
    | cons c t => exact (hsep c).trans hrel
  · rw [Archive.replaceSeparators, splitOnP_map hsep hkeep]
    exact h.down

lemma Plain.notMem_components (h : Plain pl t) : dotdot ∉ components pl t :=
  fun hmem => h.down (List.mem_of_mem_filter hmem)

/-- A plain name without a drive is put behind the base. -/
lemma Plain.join (h : Plain pl t) (hdrive : hasDrive pl t = false) (base : LocalPath) :
    join pl base t = { base with comps := base.comps ++ components pl t } := by
  have hsplit : splitPrefix pl t = (none, t) := by
    cases pl with
    | unix => rfl
    | windows =>
      obtain _ | ⟨c, _ | ⟨d, rest⟩⟩ := t
      · rfl
      · rfl
      · have hnot : ¬ (c.isAlpha = true ∧ d = ':') := by simpa [hasDrive] using hdrive
        have hc : Platform.windows.isSep c = false := h.relative
        unfold splitPrefix
        dsimp only
        rw [if_neg hnot, hc, Bool.false_and, if_neg Bool.false_ne_true]
  have hpath : parsePath pl t = ⟨none, false, components pl t⟩ := by
    rw [parsePath, hsplit]
    dsimp only
    rw [h.relative]
    rfl
  rw [Archive.join, hpath]
  simp

/-- A name with a drive takes the place of the base. -/
lemma join_of_hasDrive (hdrive : hasDrive pl t = true) (base : LocalPath) :
    join pl base t = parsePath pl t := by
  cases pl with
  | unix => cases hdrive
  | windows =>
    obtain _ | ⟨c, _ | ⟨d, rest⟩⟩ := t
    · cases hdrive
    · cases hdrive
    · have hpos : c.isAlpha = true ∧ d = ':' := by simpa [hasDrive] using hdrive
      have hsplit : splitPrefix .windows (c :: d :: rest) = (some [c, d], rest) := if_pos hpos
      have hpre : (parsePath .windows (c :: d :: rest)).pre.isSome = true := by
        rw [parsePath, hsplit]
        rfl
      rw [Archive.join, hpre, Bool.true_or]
      rfl

end Plain

end Orchid.Archive
