import Orchid.Content.Files
import Mathlib.Tactic.SplitIfs

/-!
# Reference counts and blobs under concurrency

Calls on the store run interleaved. The counts and the blobs stay right as long as no two `put`s of
one chunk share its temporary file, no delayed unlink hits a chunk that came back meanwhile, no
rename fails after its row was written, and no count is saturated.
-/

namespace Orchid.Content

open Lib

variable {H : Type} [DecidableEq H]

/-! ### What the store should keep -/

/-- The chunk's blob is there and has the right bytes. -/
def Store.HasBlob (hashOf : Bytes → H) (s : Store H) (h : H) : Prop :=
  ∃ file, s.blob h = some file ∧ hashOf (s.content file) = h

/-- The references that the table counts for a chunk. -/
def Store.count (s : Store H) (h : H) : ℕ :=
  match s.rows h with
  | none => 0
  | some info => info.refcount.val

/-- A consistent store: every row has its blob. -/
structure Store.Consistent (hashOf : Bytes → H) (s : Store H) : Prop where
  files : s.FilesApart
  backed : ∀ h, (s.rows h).isSome → s.HasBlob hashOf h

namespace Outcome

/-- A `put` of the chunk that returned `Ok`. -/
def isPut (h : H) : Outcome H → Bool
  | .put key (.ok _) _ => key = h
  | _ => false

/-- A `release` of the chunk that returned `Ok`. -/
def isRelease (h : H) : Outcome H → Bool
  | .release key (.ok _) => key = h
  | _ => false

/-- Not a `put` that failed without an I/O fault. -/
def Unhindered : Outcome H → Prop
  | .put _ (.error _) hindered => hindered = true
  | _ => True

end Outcome

/-- Calls on a store. -/
abbrev Calls (H : Type) := Pool (Store H) (Task H) (Outcome H)

/-- From the store `s` all calls have returned: every row that counts a reference has its blob, the
counts are right, and no `put` failed without an I/O fault. -/
structure Accounted (hashOf : Bytes → H) (s : Store H) (p : Calls H) : Prop where
  backed : ∀ h row, p.shared.rows h = some row → 0 < row.refcount.val → p.shared.HasBlob hashOf h
  counted : ∀ h, p.shared.count h + p.log.countP (Outcome.isRelease h) =
    s.count h + p.log.countP (Outcome.isPut h)
  unhindered : ∀ o ∈ p.log, o.Unhindered

/-! ### Safe steps -/

namespace Task

/-- The task uses the chunk's temporary file. -/
def holds (h : H) : Task H → Bool
  | .write key _ _ _ _ => key = h
  | .commit key _ _ => key = h
  | .rename key => key = h
  | .discard key => key = h
  | _ => false

/-- The task has counted its reference and has yet to move the blob into place. -/
def renames (h : H) : Task H → Bool
  | .rename key => key = h
  | _ => false

/-- The task has released the last reference and has yet to remove the blob. -/
def unlinks (h : H) : Task H → Bool
  | .unlink key => key = h
  | _ => false

/-- One more reference can be counted. -/
def Countable (s : Store H) (h : H) : Prop :=
  ∀ info, s.rows h = some info → info.refcount.val + 1 < 2 ^ 64

/-- The blob may be removed: there is no row, or a `put` will bring a new blob. -/
def Removable (p : Calls H) (h : H) : Prop :=
  p.shared.rows h = none ∨ ∃ u ∈ p.tasks, u.renames h = true

/-- The step does not run into one of the races. -/
def Safe (c : Choice H) (p : Calls H) : Task H → Prop
  | .probe key _ _ => c.fault = false → Countable p.shared key
  | .clone key _ _ => c.cloned ≠ none → ∀ u ∈ p.tasks, u.holds key = false
  | .create key _ _ => c.fault = false → ∀ u ∈ p.tasks, u.holds key = false
  | .commit key _ _ => c.fault = false → Countable p.shared key
  | .rename _ => c.fault = false
  | .unlink key => c.fault = false → Removable p key
  | .gcUnlink _ key _ => c.fault = false → Removable p key
  | _ => True

end Task

/-- A step of the pool that does not run into one of the races. -/
def SafeStep (p : Calls H) : Event (Call H) (Choice H) → Prop
  | .start _ => True
  | .step k c => ∀ t, p.tasks[k]? = some t → t.Safe c p

/-! ### The invariant -/

/-- What a task relies on. -/
def Task.Relies (hashOf : Bytes → H) (s : Store H) : Task H → Prop
  | .probe key bytes _ => hashOf bytes = key
  | .clone key bytes _ => hashOf bytes = key
  | .makeDir key bytes _ => hashOf bytes = key
  | .create key bytes _ => hashOf bytes = key
  | .write key bytes _ file off => hashOf bytes = key ∧ s.tmp key = some file ∧
      off ≤ bytes.length ∧ s.content file = bytes.take off
  | .commit key bytes _ => hashOf bytes = key ∧ ∃ file, s.tmp key = some file ∧
      s.content file = bytes
  | .rename key => ∃ file, s.tmp key = some file ∧ hashOf (s.content file) = key
  | _ => True

/-- What holds of a store, the running tasks and the log while calls run. -/
structure Inv (hashOf : Bytes → H) (s₀ s : Store H) (tasks : List (Task H))
    (log : List (Outcome H)) : Prop where
  files : s.FilesApart
  relies : ∀ t ∈ tasks, t.Relies hashOf s
  alone : ∀ h, tasks.countP (Task.holds h) ≤ 1
  backed : ∀ h, (s.rows h).isSome → s.HasBlob hashOf h ∨ ∃ t ∈ tasks, t.renames h = true
  counted : ∀ h, s.count h + log.countP (Outcome.isRelease h) + tasks.countP (Task.unlinks h) =
    s₀.count h + log.countP (Outcome.isPut h) + tasks.countP (Task.renames h)
  unhindered : ∀ o ∈ log, o.Unhindered

variable {hashOf : Bytes → H} {s₀ s s' : Store H} {tasks rest : List (Task H)} {t u : Task H}
  {o : Outcome H} {log : List (Outcome H)} {c : Choice H}

lemma Inv.perm {tasks' : List (Task H)} (hp : tasks.Perm tasks') (h : Inv hashOf s₀ s tasks log) :
    Inv hashOf s₀ s tasks' log where
  files := h.files
  relies t ht := h.relies t (hp.mem_iff.mpr ht)
  alone k := by
    rw [← hp.countP_eq]
    exact h.alone k
  backed k hk := (h.backed k hk).imp_right fun ⟨t, ht, hr⟩ => ⟨t, hp.mem_iff.mp ht, hr⟩
  counted k := by
    rw [← hp.countP_eq, ← hp.countP_eq]
    exact h.counted k
  unhindered := h.unhindered

/-! ### What one step has to show -/

/-- A task's step: the task makes way for `new` and leaves `out` in the log. -/
lemma Inv.step (new : List (Task H)) (out : List (Outcome H))
    (h : Inv hashOf s₀ s (t :: rest) log) (hfiles : s'.FilesApart)
    (hrest : ∀ v ∈ rest, v.Relies hashOf s') (hnew : ∀ u ∈ new, u.Relies hashOf s')
    (halone : ∀ k, (new ++ rest).countP (Task.holds k) ≤ 1)
    (hbacked : ∀ k, (s'.rows k).isSome →
      s'.HasBlob hashOf k ∨ ∃ u ∈ new ++ rest, u.renames k = true)
    (hcounted : ∀ k, s'.count k + out.countP (Outcome.isRelease k) + new.countP (Task.unlinks k) +
        [t].countP (Task.renames k) =
      s.count k + out.countP (Outcome.isPut k) + new.countP (Task.renames k) +
        [t].countP (Task.unlinks k))
    (hout : ∀ o ∈ out, o.Unhindered) : Inv hashOf s₀ s' (new ++ rest) (out ++ log) where
  files := hfiles
  relies v hv := (List.mem_append.mp hv).elim (hnew v) (hrest v)
  alone := halone
  backed := hbacked
  counted k := by
    have hold := h.counted k
    have hstep := hcounted k
    rw [List.countP_cons, List.countP_cons] at hold
    rw [List.countP_singleton, List.countP_singleton] at hstep
    simp only [List.countP_append]
    omega
  unhindered o ho := (List.mem_append.mp ho).elim (hout o) (h.unhindered o)

omit [DecidableEq H] in
/-- What a task relies on are the temporary files. -/
lemma relies_congr (htmp : s'.tmp = s.tmp) (hcontent : s'.content = s.content) :
    t.Relies hashOf s' ↔ t.Relies hashOf s := by
  cases t <;> simp [Task.Relies, htmp, hcontent]

omit [DecidableEq H] in
lemma SameFiles.hasBlob_iff (hs : SameFiles s s') {k : H} :
    s'.HasBlob hashOf k ↔ s.HasBlob hashOf k := by
  simp [Store.HasBlob, hs.blob, hs.content]

omit [DecidableEq H] in
lemma countP_append_le {new new' : List (Task H)} {p : Task H → Bool}
    (h : new.countP p ≤ new'.countP p) : (new ++ rest).countP p ≤ (new' ++ rest).countP p := by
  rw [List.countP_append, List.countP_append]
  exact Nat.add_le_add_right h _

/-- A step on the table alone. -/
lemma Inv.step_rows (new : List (Task H)) (out : List (Outcome H))
    (h : Inv hashOf s₀ s (t :: rest) log) (hs : SameFiles s s')
    (hnew : ∀ u ∈ new, u.Relies hashOf s)
    (hholds : ∀ k, new.countP (Task.holds k) ≤ [t].countP (Task.holds k))
    (hrenames : ∀ k, t.renames k = false)
    (hrows : ∀ k, (s'.rows k).isSome → (s.rows k).isSome ∨ ∃ u ∈ new, u.renames k = true)
    (hcounted : ∀ k, s'.count k + out.countP (Outcome.isRelease k) + new.countP (Task.unlinks k) =
      s.count k + out.countP (Outcome.isPut k) + new.countP (Task.renames k) +
        [t].countP (Task.unlinks k))
    (hout : ∀ o ∈ out, o.Unhindered) : Inv hashOf s₀ s' (new ++ rest) (out ++ log) := by
  refine h.step new out (hs.filesApart h.files) (fun v hv => ?_) (fun u hu => (relies_congr hs.tmp hs.content).mpr (hnew u hu))
    (fun k => ?_) (fun k hk => ?_) (fun k => ?_) hout
  · exact (relies_congr hs.tmp hs.content).mpr (h.relies v (List.mem_cons_of_mem t hv))
  · have halone := h.alone k
    rw [← List.singleton_append] at halone
    exact (countP_append_le (hholds k)).trans halone
  · rcases hrows k hk with hrow | ⟨u, hu, hr⟩
    · rcases h.backed k hrow with hblob | ⟨v, hv, hr⟩
      · exact .inl (hs.hasBlob_iff.mpr hblob)
      · rcases List.mem_cons.mp hv with rfl | hv
        · simp [hrenames] at hr
        · exact .inr ⟨v, List.mem_append_right _ hv, hr⟩
    · exact .inr ⟨u, List.mem_append_left _ hu, hr⟩
  · simpa [hrenames] using hcounted k

/-- A step that changes nothing that counts. -/
lemma Inv.step_idle (new : List (Task H)) (out : List (Outcome H))
    (h : Inv hashOf s₀ s (t :: rest) log) (hs : SameFiles s s') (hrows : s'.rows = s.rows)
    (hnew : ∀ u ∈ new, u.Relies hashOf s)
    (hholds : ∀ k, new.countP (Task.holds k) ≤ [t].countP (Task.holds k))
    (ht : ∀ k, t.renames k = false ∧ t.unlinks k = false)
    (hidle : ∀ k, ∀ u ∈ new, u.renames k = false ∧ u.unlinks k = false)
    (hlog : ∀ k, ∀ o ∈ out, o.isPut k = false ∧ o.isRelease k = false)
    (hout : ∀ o ∈ out, o.Unhindered) : Inv hashOf s₀ s' (new ++ rest) (out ++ log) := by
  refine h.step_rows new out hs hnew hholds (fun k => (ht k).1) (fun k hk => .inl (by rwa [← hrows]))
    (fun k => ?_) hout
  have hcount : s'.count k = s.count k := by rw [Store.count, Store.count, hrows]
  have h₁ : out.countP (Outcome.isRelease k) = 0 :=
    List.countP_eq_zero.mpr fun o ho => by simp [hlog k o ho]
  have h₂ : out.countP (Outcome.isPut k) = 0 :=
    List.countP_eq_zero.mpr fun o ho => by simp [hlog k o ho]
  have h₃ : new.countP (Task.unlinks k) = 0 :=
    List.countP_eq_zero.mpr fun u hu => by simp [hidle k u hu]
  have h₄ : new.countP (Task.renames k) = 0 :=
    List.countP_eq_zero.mpr fun u hu => by simp [hidle k u hu]
  simp [hcount, h₁, h₂, h₃, h₄, (ht k).2]

/-! ### Steps on the files -/

section Files

variable {key : H} {bytes : Bytes} {now : Instant} {file off : ℕ}

/-- The chunk's temporary file changes; a task that does not hold it does not notice. -/
lemma relies_of_other (htmp : ∀ k, k ≠ key → s'.tmp k = s.tmp k)
    (hcontent : ∀ k g, k ≠ key → s.tmp k = some g → s'.content g = s.content g)
    (hv : t.holds key = false) (h : t.Relies hashOf s) : t.Relies hashOf s' := by
  cases t with
  | write k bytes now file off =>
    have hk : k ≠ key := by simpa [Task.holds] using hv
    obtain ⟨hhash, hfile, hoff, hbytes⟩ := h
    exact ⟨hhash, (htmp k hk).trans hfile, hoff, (hcontent k file hk hfile).trans hbytes⟩
  | commit k bytes now =>
    have hk : k ≠ key := by simpa [Task.holds] using hv
    obtain ⟨hhash, file, hfile, hbytes⟩ := h
    exact ⟨hhash, file, (htmp k hk).trans hfile, (hcontent k file hk hfile).trans hbytes⟩
  | rename k =>
    have hk : k ≠ key := by simpa [Task.holds] using hv
    obtain ⟨file, hfile, hhash⟩ := h
    exact ⟨file, (htmp k hk).trans hfile, (hcontent k file hk hfile) ▸ hhash⟩
  | _ => exact h

/-- A task that holds the chunk's temporary file holds it alone. -/
lemma Inv.holds_rest (h : Inv hashOf s₀ s (t :: rest) log) (ht : t.holds key = true) {v : Task H}
    (hv : v ∈ rest) : v.holds key = false := by
  have halone := h.alone key
  rw [List.countP_cons_of_pos ht] at halone
  have hzero : rest.countP (Task.holds key) = 0 := by omega
  simpa using List.countP_eq_zero.mp hzero v hv

/-- Blobs are left alone by a step on temporary files. -/
lemma Inv.backed_of_blob (h : Inv hashOf s₀ s (t :: rest) log) (ht : ∀ k, t.renames k = false)
    (hrows : s'.rows = s.rows) (hblob : s'.blob = s.blob)
    (hcontent : ∀ k g, s.blob k = some g → s'.content g = s.content g) (new : List (Task H)) (k : H)
    (hk : (s'.rows k).isSome) : s'.HasBlob hashOf k ∨ ∃ u ∈ new ++ rest, u.renames k = true := by
  rw [hrows] at hk
  rcases h.backed k hk with ⟨g, hg, hhash⟩ | ⟨v, hv, hr⟩
  · exact .inl ⟨g, by rw [hblob, hg], by rw [hcontent k g hg, hhash]⟩
  · rcases List.mem_cons.mp hv with rfl | hv
    · simp [ht] at hr
    · exact .inr ⟨v, List.mem_append_right _ hv, hr⟩

omit [DecidableEq H] in
lemma count_of_rows (hrows : s'.rows = s.rows) (k : H) : s'.count k = s.count k := by
  rw [Store.count, Store.count, hrows]

lemma Inv.create (h : Inv hashOf s₀ s (.create key bytes now :: rest) log)
    (hfree : ∀ v ∈ rest, v.holds key = false) :
    Inv hashOf s₀ (s.createTmp key).1 (.write key bytes now (s.createTmp key).2 0 :: rest) log := by
  obtain ⟨hfiles, htmp, hother, hblob, hrows, hempty, hcontent, hcontent'⟩ :=
    createTmp_spec h.files key
  refine h.step [_] [] hfiles (fun v hv => ?_) ?_ (fun k => ?_)
    (h.backed_of_blob (fun _ => rfl) hrows hblob hcontent' _) (fun k => ?_) (by simp)
  · exact relies_of_other hother hcontent (hfree v hv) (h.relies v (List.mem_cons_of_mem _ hv))
  · have hhash : hashOf bytes = key := h.relies _ List.mem_cons_self
    simp [Task.Relies, hhash, htmp, hempty]
  · by_cases hk : k = key
    · subst hk
      have hzero : rest.countP (Task.holds k) = 0 :=
        List.countP_eq_zero.mpr fun v hv => by simp [hfree v hv]
      rw [List.countP_append, hzero]
      exact List.countP_le_length
    · have halone := h.alone k
      simpa [Task.holds, Ne.symm hk] using halone
  · simp [count_of_rows hrows, Task.unlinks, Task.renames]

/-- The next piece is written. -/
lemma Inv.write {n : ℕ} (h : Inv hashOf s₀ s (.write key bytes now file off :: rest) log) :
    Inv hashOf s₀ (s.writeAt file off ((bytes.drop off).take n))
      (.write key bytes now file (off + ((bytes.drop off).take n).length) :: rest) log := by
  obtain ⟨hhash, hfile, hoff, hbytes⟩ := h.relies _ List.mem_cons_self
  obtain ⟨hsame, hnew, hcontent⟩ := writeAt_spec (n := n) hbytes hoff
  have hrows : (s.writeAt file off ((bytes.drop off).take n)).rows = s.rows := rfl
  have hne : ∀ k g, k ≠ key → s.tmp k = some g → g ≠ file := by
    rintro k g hk hg rfl
    exact hk (h.files.tmp_inj k key g hg hfile)
  have hother : ∀ k, k ≠ key → (s.writeAt file off ((bytes.drop off).take n)).tmp k = s.tmp k :=
    fun _ _ => rfl
  refine h.step [_] [] (hsame.filesApart ?_) (fun v hv => ?_) ?_
    (fun k => by simpa [List.countP_cons, Task.holds] using h.alone k) (h.backed_of_blob
      (fun _ => rfl) hrows rfl (fun k g hg => hcontent g ?_) _) (fun k => ?_) (by simp)
  · exact ⟨h.files.tmp_lt, h.files.blob_lt, h.files.tmp_inj, h.files.tmp_ne_blob⟩
  · exact relies_of_other hother (fun k g hk hg => hcontent g (hne k g hk hg))
      (h.holds_rest (by simp [Task.holds]) hv) (h.relies v (List.mem_cons_of_mem _ hv))
  · simp only [List.mem_singleton, forall_eq]
    refine ⟨hhash, hfile, ?_, hnew⟩
    rw [List.length_take, List.length_drop]
    omega
  · rintro rfl
    exact h.files.tmp_ne_blob key k g hfile hg
  · simp [count_of_rows hrows, Task.unlinks, Task.renames]

/-- The blob moves into place. -/
lemma Inv.rename (h : Inv hashOf s₀ s (.rename key :: rest) log) (hfile : s.tmp key = some file) :
    Inv hashOf s₀ ((s.setBlob key (some file)).setTmp key none) rest
      (.put key (.ok ()) false :: log) := by
  obtain ⟨file', hfile', hhash⟩ := h.relies _ List.mem_cons_self
  obtain rfl : file = file' := Option.some.inj (hfile.symm.trans hfile')
  have htmp : ∀ k, k ≠ key → ((s.setBlob key (some file)).setTmp key none).tmp k = s.tmp k :=
    fun k hk => Function.update_of_ne hk _ _
  have hrows : ((s.setBlob key (some file)).setTmp key none).rows = s.rows := rfl
  refine h.step [] [_] ?_ (fun v hv => ?_) (by simp) (fun k => ?_) (fun k hk => ?_) (fun k => ?_)
    (by simp [Outcome.Unhindered])
  · exact filesApart_rename h.files hfile
  · exact relies_of_other htmp (fun _ _ _ _ => rfl) (h.holds_rest (by simp [Task.holds]) hv)
      (h.relies v (List.mem_cons_of_mem _ hv))
  · exact (List.Sublist.countP_le (List.sublist_cons_self _ _)).trans (h.alone k)
  · by_cases hkey : k = key
    · subst hkey
      exact .inl ⟨file, Function.update_self _ _ _, hhash⟩
    · rcases h.backed k hk with ⟨g, hg, hhash⟩ | ⟨v, hv, hr⟩
      · exact .inl ⟨g, (Function.update_of_ne hkey _ _).trans hg, hhash⟩
      · rcases List.mem_cons.mp hv with rfl | hv
        · exact absurd (by simpa [Task.renames] using hr) (Ne.symm hkey)
        · exact .inr ⟨v, hv, hr⟩
  · simp [count_of_rows hrows, Task.unlinks, Task.renames, Outcome.isPut, Outcome.isRelease]

/-- A temporary file is removed. -/
lemma Inv.discard (h : Inv hashOf s₀ s (.discard key :: rest) log) :
    Inv hashOf s₀ (s.setTmp key none) rest (.put key (.error .storage) true :: log) := by
  have htmp : ∀ k, k ≠ key → (s.setTmp key none).tmp k = s.tmp k :=
    fun k hk => Function.update_of_ne hk _ _
  have hrows : (s.setTmp key none).rows = s.rows := rfl
  refine h.step [] [_] (filesApart_setTmp_none h.files key) (fun v hv => ?_) (by simp) (fun k => ?_)
    (h.backed_of_blob (fun _ => rfl) hrows rfl (fun _ _ _ => rfl) []) (fun k => ?_)
    (by simp [Outcome.Unhindered])
  · exact relies_of_other htmp (fun _ _ _ _ => rfl) (h.holds_rest (by simp [Task.holds]) hv)
      (h.relies v (List.mem_cons_of_mem _ hv))
  · exact (List.Sublist.countP_le (List.sublist_cons_self _ _)).trans (h.alone k)
  · simp [count_of_rows hrows, Task.unlinks, Task.renames, Outcome.isPut, Outcome.isRelease]

/-- A cloner that fails takes a temporary file away that no task holds. -/
lemma Inv.uncloned (h : Inv hashOf s₀ s (.clone key bytes now :: rest) log) (late : Bool)
    (hfree : ∀ v ∈ rest, v.holds key = false) :
    Inv hashOf s₀ ((if late then (s.createTmp key).1 else s).setTmp key none)
      (.makeDir key bytes now :: rest) log := by
  obtain ⟨hfiles, -, hother, hblob, hrows, -, hcontent, hcontent'⟩ := createTmp_spec h.files key
  generalize hnow : (if late then (s.createTmp key).1 else s) = s₁
  have hsame : s₁.FilesApart ∧ (∀ k, k ≠ key → s₁.tmp k = s.tmp k) ∧ s₁.blob = s.blob ∧
      s₁.rows = s.rows ∧ (∀ k g, k ≠ key → s.tmp k = some g → s₁.content g = s.content g) ∧
      ∀ k g, s.blob k = some g → s₁.content g = s.content g := by
    subst hnow
    split_ifs
    · exact ⟨hfiles, hother, hblob, hrows, hcontent, hcontent'⟩
    · exact ⟨h.files, fun _ _ => rfl, rfl, rfl, fun _ _ _ _ => rfl, fun _ _ _ => rfl⟩
  obtain ⟨hfiles₁, htmp₁, hblob₁, hrows₁, hcontent₁, hcontent₁'⟩ := hsame
  have htmp : ∀ k, k ≠ key → (s₁.setTmp key none).tmp k = s.tmp k :=
    fun k hk => (Function.update_of_ne hk _ _).trans (htmp₁ k hk)
  refine h.step [_] [] (filesApart_setTmp_none hfiles₁ key) (fun v hv => ?_) ?_ (fun k => ?_)
    (h.backed_of_blob (fun _ => rfl) hrows₁ hblob₁ hcontent₁' _) (fun k => ?_) (by simp)
  · exact relies_of_other htmp hcontent₁ (hfree v hv) (h.relies v (List.mem_cons_of_mem _ hv))
  · have hhash : hashOf bytes = key := h.relies _ List.mem_cons_self
    simpa [Task.Relies] using hhash
  · simpa [List.countP_cons, Task.holds] using h.alone k
  · have hrows' : (s₁.setTmp key none).rows = s.rows := hrows₁
    simp [count_of_rows hrows', Task.unlinks, Task.renames]

/-- A blob is removed that no row needs, or that a new one will replace. -/
lemma Inv.removeBlob (new : List (Task H)) (out : List (Outcome H))
    (h : Inv hashOf s₀ s (t :: rest) log)
    (hremovable : s.rows key = none ∨ ∃ u ∈ t :: rest, u.renames key = true)
    (hnew : ∀ u ∈ new, u.Relies hashOf s)
    (hholds : ∀ k, new.countP (Task.holds k) ≤ [t].countP (Task.holds k))
    (ht : ∀ k, t.renames k = false)
    (hcounted : ∀ k, s.count k + out.countP (Outcome.isRelease k) + new.countP (Task.unlinks k) =
      s.count k + out.countP (Outcome.isPut k) + new.countP (Task.renames k) +
        [t].countP (Task.unlinks k))
    (hout : ∀ o ∈ out, o.Unhindered) :
    Inv hashOf s₀ (s.setBlob key none) (new ++ rest) (out ++ log) := by
  have hrows : (s.setBlob key none).rows = s.rows := rfl
  refine h.step new out ?_ (fun v hv => ?_) (fun u hu => ?_) (fun k => ?_) (fun k hk => ?_)
    (fun k => ?_) hout
  · exact filesApart_setBlob_none h.files key
  · exact (relies_congr rfl rfl).mpr (h.relies v (List.mem_cons_of_mem t hv))
  · exact (relies_congr rfl rfl).mpr (hnew u hu)
  · have halone := h.alone k
    rw [← List.singleton_append] at halone
    exact (countP_append_le (hholds k)).trans halone
  · have hrest : (∃ u ∈ t :: rest, u.renames k = true) → ∃ u ∈ new ++ rest, u.renames k = true := by
      rintro ⟨u, hu, hr⟩
      rcases List.mem_cons.mp hu with rfl | hu
      · simp [ht] at hr
      · exact ⟨u, List.mem_append_right _ hu, hr⟩
    by_cases hkey : k = key
    · subst hkey
      rcases hremovable with hnone | hrename
      · rw [hrows, hnone] at hk
        simp at hk
      · exact .inr (hrest hrename)
    · rcases h.backed k hk with ⟨g, hg, hhash⟩ | hrename
      · exact .inl ⟨g, (Function.update_of_ne hkey _ _).trans hg, hhash⟩
      · exact .inr (hrest hrename)
  · simpa [count_of_rows hrows, ht] using hcounted k

end Files

/-! ### Steps on the table -/

lemma val_saturatingSucc {n : U64} (h : n.val + 1 < 2 ^ 64) : (saturatingSucc n).val = n.val + 1 := by
  rw [saturatingSucc, U64.succ?, dif_pos h]
  rfl

lemma count_setRow (key : H) (row : Option ChunkRefInfo) (k : H) : (s.setRow key row).count k =
    if k = key then (row.map fun info => info.refcount.val).getD 0 else s.count k := by
  by_cases hk : k = key
  · subst hk
    rw [if_pos rfl]
    cases row <;> simp [Store.count, Store.setRow]
  · simp [Store.count, Store.setRow, hk]

omit [DecidableEq H] in
lemma count_of_row {key : H} {info : ChunkRefInfo} (h : s.rows key = some info) :
    s.count key = info.refcount.val := by
  rw [Store.count, h]

lemma isSome_setRow {key k : H} {row : Option ChunkRefInfo}
    (h : ((s.setRow key row).rows k).isSome) : k = key ∨ (s.rows k).isSome := by
  by_cases hk : k = key
  · exact .inl hk
  · exact .inr (by simpa [Store.setRow, hk] using h)

/-- Writing access times neither adds nor removes rows or references. -/
lemma flush_spec (batch : List (H × Instant)) : SameFiles s (batch.foldl Store.flushOne s) ∧
    ∀ k, ((batch.foldl Store.flushOne s).rows k).isSome = (s.rows k).isSome ∧
      (batch.foldl Store.flushOne s).count k = s.count k := by
  induction batch generalizing s with
  | nil => exact ⟨⟨rfl, rfl, rfl, rfl⟩, fun k => ⟨rfl, rfl⟩⟩
  | cons x batch ih =>
    obtain ⟨hsame, hrows⟩ := ih (s := s.flushOne x)
    have hone : SameFiles s (s.flushOne x) ∧ ∀ k, ((s.flushOne x).rows k).isSome = (s.rows k).isSome ∧
        (s.flushOne x).count k = s.count k := by
      cases hx : s.rows x.1 with
      | none => simp [Store.flushOne, hx, SameFiles.mk]
      | some info =>
        refine ⟨?_, fun k => ?_⟩
        · simp [Store.flushOne, hx, sameFiles_setRow]
        · simp only [Store.flushOne, hx, count_setRow]
          by_cases hk : k = x.1
          · subst hk
            simp [Store.setRow, hx, count_of_row hx]
          · simp [Store.setRow, hk]
    exact ⟨⟨hsame.tmp.trans hone.1.tmp, hsame.blob.trans hone.1.blob,
      hsame.content.trans hone.1.content, hsame.nextFile.trans hone.1.nextFile⟩,
      fun k => ⟨(hrows k).1.trans (hone.2 k).1, (hrows k).2.trans (hone.2 k).2⟩⟩

/-- A reference is counted in a row that is there. -/
lemma Inv.bump {key : H} {info : ChunkRefInfo} {bytes : Bytes} {now : Instant}
    (h : Inv hashOf s₀ s (.probe key bytes now :: rest) log) (hrow : s.rows key = some info)
    (hlt : info.refcount.val + 1 < 2 ^ 64) :
    Inv hashOf s₀ ((s.forget key).setRow key (some (info.bump now))) rest
      (.put key (.ok ()) false :: log) := by
  refine h.step_rows [] [_] ⟨rfl, rfl, rfl, rfl⟩ (by simp) (by simp) (fun _ => rfl) (fun k hk => ?_)
    (fun k => ?_) (by simp [Outcome.Unhindered])
  · rcases isSome_setRow hk with rfl | hk
    · exact .inl (by simp [hrow])
    · exact .inl hk
  · rw [count_setRow]
    by_cases hk : k = key
    · subst hk
      simp [count_of_row hrow, ChunkRefInfo.bump, val_saturatingSucc hlt, Outcome.isPut,
        Outcome.isRelease, Task.unlinks]
    · simp [hk, Ne.symm hk, Outcome.isPut, Outcome.isRelease, Task.unlinks]
      rfl

/-- A reference is counted before the blob is in place. -/
lemma Inv.commit {key : H} {bytes : Bytes} {now : Instant} {row : ChunkRefInfo}
    (h : Inv hashOf s₀ s (.commit key bytes now :: rest) log)
    (hcount : row.refcount.val = s.count key + 1) :
    Inv hashOf s₀ (s.setRow key (some row)) (.rename key :: rest) log := by
  obtain ⟨hhash, file, hfile, hbytes⟩ := h.relies _ List.mem_cons_self
  refine h.step_rows [_] [] (sameFiles_setRow _ _) ?_ (fun k => ?_) (fun _ => rfl) (fun k hk => ?_)
    (fun k => ?_) (by simp)
  · simp only [List.mem_singleton, forall_eq]
    exact ⟨file, hfile, by rw [hbytes, hhash]⟩
  · simp [List.countP_cons, Task.holds]
  · rcases isSome_setRow hk with rfl | hk
    · exact .inr ⟨_, List.mem_singleton_self _, by simp [Task.renames]⟩
    · exact .inl hk
  · rw [count_setRow]
    by_cases hk : k = key
    · subst hk
      simp [hcount, Task.renames, Task.unlinks]
    · simp [hk, Ne.symm hk, Task.renames, Task.unlinks]

/-- The last reference is released; the blob goes later. -/
lemma Inv.releaseLast {key : H} {info : ChunkRefInfo}
    (h : Inv hashOf s₀ s (.release key :: rest) log) (hrow : s.rows key = some info)
    (hone : info.refcount.val = 1) :
    Inv hashOf s₀ (s.setRow key none) (.unlink key :: rest) log := by
  refine h.step_rows [_] [] (sameFiles_setRow _ _) (by simp [Task.Relies])
    (by simp [Task.holds]) (fun _ => rfl) (fun k hk => ?_) (fun k => ?_) (by simp)
  · rcases isSome_setRow hk with rfl | hk
    · simp [Store.setRow] at hk
    · exact .inl hk
  · rw [count_setRow]
    by_cases hk : k = key
    · subst hk
      simp [count_of_row hrow, hone, Task.renames, Task.unlinks]
    · simp [hk, Ne.symm hk, Task.renames, Task.unlinks]

/-- One of several references is released. -/
lemma Inv.releaseOne {key : H} {info row : ChunkRefInfo} {n : U64}
    (h : Inv hashOf s₀ s (.release key :: rest) log) (hrow : s.rows key = some info)
    (hcount : row.refcount.val + 1 = info.refcount.val) :
    Inv hashOf s₀ (s.setRow key (some row)) rest (.release key (.ok n) :: log) := by
  refine h.step_rows [] [_] (sameFiles_setRow _ _) (by simp) (by simp) (fun _ => rfl)
    (fun k hk => ?_) (fun k => ?_) (by simp [Outcome.Unhindered])
  · rcases isSome_setRow hk with rfl | hk
    · exact .inl (by simp [hrow])
    · exact .inl hk
  · rw [count_setRow]
    by_cases hk : k = key
    · subst hk
      simp [count_of_row hrow, hcount, Task.unlinks, Outcome.isPut, Outcome.isRelease]
    · simp [hk, Ne.symm hk, Task.unlinks, Outcome.isPut, Outcome.isRelease]

/-! ### Every step -/

/-- The invariant after a step of one of the tasks. -/
def InvAfter (hashOf : Bytes → H) (s₀ : Store H) (rest : List (Task H)) (log : List (Outcome H)) :
    Store H × Progress (Task H) (Outcome H) → Prop
  | (s, .running u) => Inv hashOf s₀ s (u :: rest) log
  | (s, .finished o) => Inv hashOf s₀ s rest (o :: log)

/-- A task that neither holds a file nor owes the count anything goes on or ends. -/
lemma Inv.goOn (h : Inv hashOf s₀ s (t :: rest) log) (hu : u.Relies hashOf s)
    (hholds : ∀ k, u.holds k = t.holds k)
    (ht : ∀ k, t.renames k = false ∧ t.unlinks k = false)
    (hidle : ∀ k, u.renames k = false ∧ u.unlinks k = false) :
    Inv hashOf s₀ s (u :: rest) log :=
  h.step_idle [u] [] ⟨rfl, rfl, rfl, rfl⟩ rfl (by simpa using hu) (by simp [hholds]) ht
    (by simpa using hidle) (by simp) (by simp)

lemma Inv.finish (h : Inv hashOf s₀ s (t :: rest) log) (hs : SameFiles s s')
    (hrows : s'.rows = s.rows) (ht : ∀ k, t.renames k = false ∧ t.unlinks k = false)
    (hlog : ∀ k, o.isPut k = false ∧ o.isRelease k = false) (ho : o.Unhindered) :
    Inv hashOf s₀ s' rest (o :: log) :=
  h.step_idle [] [o] hs hrows (by simp) (by simp) ht (by simp) (by simpa using hlog) (by simpa using ho)

lemma Inv.fail (h : Inv hashOf s₀ s (t :: rest) log)
    (ht : ∀ k, t.renames k = false ∧ t.unlinks k = false)
    (hlog : ∀ k, o.isPut k = false ∧ o.isRelease k = false) (ho : o.Unhindered) :
    Inv hashOf s₀ s rest (o :: log) := h.finish ⟨rfl, rfl, rfl, rfl⟩ rfl ht hlog ho

/-- The step in which the cloner of a put is tried. -/
lemma Inv.after_clone {key : H} {bytes : Bytes} {now : Instant}
    (h : Inv hashOf s₀ s (.clone key bytes now :: rest) log)
    (hsafe : (Task.clone key bytes now).Safe c ⟨s, .clone key bytes now :: rest, log⟩) :
    InvAfter hashOf s₀ rest log ((Task.clone key bytes now).step hashOf c s) := by
  have hrelies := h.relies _ List.mem_cons_self
  have hgoOn {u : Task H} (hu : u.Relies hashOf s) (hholds : ∀ k, u.holds k = false)
      (hidle : ∀ k, u.renames k = false ∧ u.unlinks k = false) :
      Inv hashOf s₀ s (u :: rest) log :=
    h.goOn hu hholds (fun _ => ⟨rfl, rfl⟩) hidle
  have hfree (hcloned : c.cloned ≠ none) (v : Task H) (hv : v ∈ rest) : v.holds key = false :=
    hsafe hcloned v (List.mem_cons_of_mem _ hv)
  rcases hc : c.cloned with _ | _ | _
  · simp only [Task.step, hc]
    exact hgoOn hrelies (fun _ => rfl) fun _ => ⟨rfl, rfl⟩
  · simp only [Task.step, hc]
    exact h.uncloned c.late (hfree (by simp [hc]))
  · by_cases hnil : bytes = []
    · simp only [Task.step, hc, if_pos hnil]
      exact hgoOn hrelies (fun _ => rfl) fun _ => ⟨rfl, rfl⟩
    · simp only [Task.step, hc, if_neg hnil]
      have hcreate : Inv hashOf s₀ s (.create key bytes now :: rest) log :=
        hgoOn hrelies (fun _ => rfl) fun _ => ⟨rfl, rfl⟩
      have hwrite := (hcreate.create (hfree (by simp [hc]))).write (n := bytes.length)
      rw [List.drop_zero, List.take_length, Nat.zero_add] at hwrite
      obtain ⟨hhash, hfile, -, hbytes⟩ := hwrite.relies _ List.mem_cons_self
      rw [List.take_length] at hbytes
      exact hwrite.goOn ⟨hhash, _, hfile, hbytes⟩ (fun _ => rfl) (fun _ => ⟨rfl, rfl⟩)
        fun _ => ⟨rfl, rfl⟩

/-- The step of a release. -/
lemma Inv.after_release {key : H} (h : Inv hashOf s₀ s (.release key :: rest) log) :
    InvAfter hashOf s₀ rest log ((Task.release key).step hashOf c s) := by
  by_cases hf : c.fault = true
  · simp only [Task.step, hf, if_true]
    exact h.fail (fun _ => ⟨rfl, rfl⟩) (fun _ => ⟨rfl, rfl⟩) trivial
  · cases hrow : s.rows key with
    | none =>
      simp only [Task.step, hf, hrow]
      exact h.fail (fun _ => ⟨rfl, rfl⟩) (fun _ => ⟨rfl, rfl⟩) trivial
    | some info =>
      by_cases h0 : info.refcount = 0
      · simp only [Task.step, hf, hrow, h0, if_true]
        exact h.fail (fun _ => ⟨rfl, rfl⟩) (fun _ => ⟨rfl, rfl⟩) trivial
      · have hval : (info.refcount - 1).val = info.refcount.val - 1 :=
          Fin.val_sub_one_of_ne_zero h0
        have hpos : 0 < info.refcount.val := Nat.pos_of_ne_zero fun h => h0 (Fin.ext h)
        by_cases h1 : info.refcount - 1 = 0
        · simp only [Task.step, hf, hrow, h0, h1, if_true, if_false]
          rw [h1] at hval
          exact h.releaseLast hrow (by simp at hval; omega)
        · simp only [Task.step, hf, hrow, h0, h1, if_false]
          exact h.releaseOne hrow (by simp only [hval]; omega)

/-- The step of a read. -/
lemma Inv.after_read {key : H} (h : Inv hashOf s₀ s (.read key :: rest) log) :
    InvAfter hashOf s₀ rest log ((Task.read key).step hashOf c s) := by
  by_cases hf : c.fault = true
  · simp only [Task.step, hf, if_true]
    exact h.fail (fun _ => ⟨rfl, rfl⟩) (fun _ => ⟨rfl, rfl⟩) trivial
  · cases hblob : s.blob key with
    | none =>
      simp only [Task.step, hf, hblob]
      exact h.fail (fun _ => ⟨rfl, rfl⟩) (fun _ => ⟨rfl, rfl⟩) trivial
    | some file =>
      by_cases hhash : hashOf (s.content file) ≠ key
      · simp only [Task.step, hf, hblob, if_pos hhash]
        exact h.fail (fun _ => ⟨rfl, rfl⟩) (fun _ => ⟨rfl, rfl⟩) trivial
      · by_cases hfull : (s.touch key c.now).pending.length ≥ accessFlushThreshold
        · simp only [Task.step, hf, hblob, if_neg hhash, if_pos hfull]
          exact h.step_idle [_] [] ⟨rfl, rfl, rfl, rfl⟩ rfl (by simp [Task.Relies])
            (by simp [Task.holds]) (fun _ => ⟨rfl, rfl⟩) (by simp [Task.renames, Task.unlinks])
            (by simp) (by simp)
        · simp only [Task.step, hf, hblob, if_neg hhash, if_neg hfull]
          exact h.finish ⟨rfl, rfl, rfl, rfl⟩ rfl (fun _ => ⟨rfl, rfl⟩) (fun _ => ⟨rfl, rfl⟩) trivial

/-- Every safe step keeps the invariant. -/
lemma Inv.after_step (h : Inv hashOf s₀ s (t :: rest) log) (hsafe : t.Safe c ⟨s, t :: rest, log⟩) :
    InvAfter hashOf s₀ rest log (t.step hashOf c s) := by
  have hrelies := h.relies t List.mem_cons_self
  cases t with
  | probe key bytes now =>
    cases hrow : s.rows key with
    | none =>
      by_cases hf : c.fault = true
      · simp only [Task.step, hrow, hf, if_true]
        exact h.fail (fun _ => ⟨rfl, rfl⟩) (fun _ => ⟨rfl, rfl⟩) rfl
      · simp only [Task.step, hrow, hf]
        exact h.goOn hrelies (fun _ => rfl) (fun _ => ⟨rfl, rfl⟩) fun _ => ⟨rfl, rfl⟩
    | some info =>
      by_cases hf : c.fault = true
      · simp only [Task.step, hrow, hf, if_true]
        by_cases hl : c.late = true
        · simp only [hl, if_true]
          exact h.finish ⟨rfl, rfl, rfl, rfl⟩ rfl (fun _ => ⟨rfl, rfl⟩) (fun _ => ⟨rfl, rfl⟩) rfl
        · simp only [hl]
          exact h.fail (fun _ => ⟨rfl, rfl⟩) (fun _ => ⟨rfl, rfl⟩) rfl
      · simp only [Task.step, hrow, hf]
        exact h.bump hrow (hsafe (by simpa using hf) info hrow)
  | clone key bytes now => exact h.after_clone hsafe
  | makeDir key bytes now =>
    by_cases hf : c.fault = true
    · simp only [Task.step, hf, if_true]
      exact h.fail (fun _ => ⟨rfl, rfl⟩) (fun _ => ⟨rfl, rfl⟩) rfl
    · simp only [Task.step, hf]
      exact h.goOn hrelies (fun _ => rfl) (fun _ => ⟨rfl, rfl⟩) fun _ => ⟨rfl, rfl⟩
  | create key bytes now =>
    by_cases hf : c.fault = true
    · simp only [Task.step, hf, if_true]
      exact h.fail (fun _ => ⟨rfl, rfl⟩) (fun _ => ⟨rfl, rfl⟩) rfl
    · simp only [Task.step, hf]
      exact h.create fun v hv => hsafe (by simpa using hf) v (List.mem_cons_of_mem _ hv)
  | write key bytes now file off =>
    by_cases hf : c.fault = true
    · simp only [Task.step, hf, if_true]
      exact h.fail (fun _ => ⟨rfl, rfl⟩) (fun _ => ⟨rfl, rfl⟩) rfl
    · by_cases hlt : off < bytes.length
      · simp only [Task.step, hf, hlt, if_true]
        exact h.write
      · simp only [Task.step, hf, hlt, if_false]
        obtain ⟨hhash, hfile, hoff, hbytes⟩ := hrelies
        rw [List.take_of_length_le (Nat.le_of_not_lt hlt)] at hbytes
        exact h.goOn ⟨hhash, file, hfile, hbytes⟩ (fun _ => rfl) (fun _ => ⟨rfl, rfl⟩)
          fun _ => ⟨rfl, rfl⟩
  | commit key bytes now =>
    by_cases hf : c.fault = true
    · simp only [Task.step, hf, if_true]
      exact h.goOn trivial (fun _ => rfl) (fun _ => ⟨rfl, rfl⟩) fun _ => ⟨rfl, rfl⟩
    · cases hrow : s.rows key with
      | none =>
        simp only [Task.step, hf, hrow]
        exact h.commit (by simp [Store.count, hrow])
      | some info =>
        simp only [Task.step, hf, hrow]
        refine h.commit ?_
        rw [count_of_row hrow]
        exact val_saturatingSucc (hsafe (by simpa using hf) info hrow)
  | rename key =>
    obtain ⟨file, hfile, -⟩ := hrelies
    have hf : c.fault = false := hsafe
    simp only [Task.step, hf, hfile]
    exact h.rename hfile
  | discard key =>
    by_cases hf : c.fault = true
    · simp only [Task.step, hf, if_true]
      exact h.fail (fun _ => ⟨rfl, rfl⟩) (fun _ => ⟨rfl, rfl⟩) rfl
    · simp only [Task.step, hf]
      exact h.discard
  | release key => exact h.after_release
  | unlink key =>
    have hcounted : ∀ k, s.count k + [Outcome.release key (.ok 0)].countP (Outcome.isRelease k) =
        s.count k + [Task.unlink key].countP (Task.unlinks k) := fun k => rfl
    by_cases hf : c.fault = true
    · simp only [Task.step, hf, if_true]
      exact h.step_rows [] [_] ⟨rfl, rfl, rfl, rfl⟩ (by simp) (by simp) (fun _ => rfl)
        (fun k hk => .inl hk) hcounted (by simp [Outcome.Unhindered])
    · simp only [Task.step, hf]
      exact h.removeBlob [] [_] (hsafe (by simpa using hf)) (by simp) (by simp) (fun _ => rfl)
        hcounted (by simp [Outcome.Unhindered])
  | lookup key =>
    by_cases hf : c.fault = true
    · simp only [Task.step, hf, if_true]
      exact h.fail (fun _ => ⟨rfl, rfl⟩) (fun _ => ⟨rfl, rfl⟩) trivial
    · by_cases hrow : (s.rows key).isNone = true
      · simp only [Task.step, hf, hrow, if_true]
        exact h.fail (fun _ => ⟨rfl, rfl⟩) (fun _ => ⟨rfl, rfl⟩) trivial
      · simp only [Task.step, hf, hrow]
        exact h.goOn trivial (fun _ => rfl) (fun _ => ⟨rfl, rfl⟩) fun _ => ⟨rfl, rfl⟩
  | read key => exact h.after_read
  | flush key bytes batch =>
    by_cases hf : c.fault = true
    · simp only [Task.step, hf, if_true]
      exact h.fail (fun _ => ⟨rfl, rfl⟩) (fun _ => ⟨rfl, rfl⟩) trivial
    · simp only [Task.step, hf]
      obtain ⟨hsame, hrows⟩ := flush_spec (s := s) batch
      exact h.step_rows [] [_] hsame (by simp) (by simp) (fun _ => rfl)
        (fun k hk => .inl (by rwa [← (hrows k).1]))
        (fun k => by simp [(hrows k).2, Task.unlinks, Outcome.isPut, Outcome.isRelease])
        (by simp [Outcome.Unhindered])
  | gcNext stats =>
    cases hentry : c.entry with
    | none =>
      simp only [Task.step, hentry]
      exact h.fail (fun _ => ⟨rfl, rfl⟩) (fun _ => ⟨rfl, rfl⟩) trivial
    | some key =>
      by_cases hf : c.fault = true
      · simp only [Task.step, hentry, hf, if_true]
        exact h.fail (fun _ => ⟨rfl, rfl⟩) (fun _ => ⟨rfl, rfl⟩) trivial
      · by_cases hblob : (s.blob key).isSome = true
        · simp only [Task.step, hentry, hf, hblob, if_true]
          exact h.goOn trivial (fun _ => rfl) (fun _ => ⟨rfl, rfl⟩) fun _ => ⟨rfl, rfl⟩
        · simp only [Task.step, hentry, hf, hblob]
          exact h.goOn trivial (fun _ => rfl) (fun _ => ⟨rfl, rfl⟩) fun _ => ⟨rfl, rfl⟩
  | gcCheck stats key =>
    by_cases hf : c.fault = true
    · simp only [Task.step, hf, if_true]
      exact h.fail (fun _ => ⟨rfl, rfl⟩) (fun _ => ⟨rfl, rfl⟩) trivial
    · by_cases hrow : (s.rows key).isSome = true
      · simp only [Task.step, hf, hrow, if_true]
        exact h.goOn trivial (fun _ => rfl) (fun _ => ⟨rfl, rfl⟩) fun _ => ⟨rfl, rfl⟩
      · simp only [Task.step, hf, hrow]
        exact h.goOn trivial (fun _ => rfl) (fun _ => ⟨rfl, rfl⟩) fun _ => ⟨rfl, rfl⟩
  | gcStat stats key =>
    cases hblob : s.blob key with
    | none =>
      simp only [Task.step, hblob]
      exact h.fail (fun _ => ⟨rfl, rfl⟩) (fun _ => ⟨rfl, rfl⟩) trivial
    | some file =>
      by_cases hf : c.fault = true
      · simp only [Task.step, hblob, hf, if_true]
        exact h.fail (fun _ => ⟨rfl, rfl⟩) (fun _ => ⟨rfl, rfl⟩) trivial
      · simp only [Task.step, hblob, hf]
        exact h.goOn trivial (fun _ => rfl) (fun _ => ⟨rfl, rfl⟩) fun _ => ⟨rfl, rfl⟩
  | gcUnlink stats key size =>
    by_cases hf : c.fault = true
    · simp only [Task.step, hf, if_true]
      exact h.goOn trivial (fun _ => rfl) (fun _ => ⟨rfl, rfl⟩) fun _ => ⟨rfl, rfl⟩
    · simp only [Task.step, hf]
      exact h.removeBlob [_] [] (hsafe (by simpa using hf)) (by simp [Task.Relies])
        (by simp [Task.holds]) (fun _ => rfl) (fun k => by simp [Task.renames, Task.unlinks]) (by simp)

/-! ### Runs -/

/-- A call starts. -/
lemma Inv.start (h : Inv hashOf s₀ s tasks log) (call : Call H) :
    Inv hashOf s₀ s (call.enter hashOf :: tasks) log := by
  have hrelies : (call.enter hashOf).Relies hashOf s := by cases call <;> simp [Call.enter, Task.Relies]
  have hidle : ∀ k, (call.enter hashOf).holds k = false ∧ (call.enter hashOf).renames k = false ∧
      (call.enter hashOf).unlinks k = false := by cases call <;> exact fun _ => ⟨rfl, rfl, rfl⟩
  refine ⟨h.files, ?_, fun k => ?_, fun k hk => ?_, fun k => ?_, h.unhindered⟩
  · exact List.forall_mem_cons.mpr ⟨hrelies, h.relies⟩
  · simpa [hidle k] using h.alone k
  · exact (h.backed k hk).imp_right fun ⟨v, hv, hr⟩ => ⟨v, List.mem_cons_of_mem _ hv, hr⟩
  · simpa [hidle k] using h.counted k

lemma Task.Safe.perm {p : Calls H} {tasks' : List (Task H)} (hp : p.tasks.Perm tasks')
    (h : t.Safe c p) : t.Safe c ⟨p.shared, tasks', p.log⟩ := by
  have hremovable : ∀ k, Removable p k → Removable ⟨p.shared, tasks', p.log⟩ k :=
    fun k => Or.imp_right fun ⟨u, hu, hr⟩ => ⟨u, hp.mem_iff.mp hu, hr⟩
  cases t with
  | clone key bytes now => exact fun hc u hu => h hc u (hp.mem_iff.mpr hu)
  | create key bytes now => exact fun hf u hu => h hf u (hp.mem_iff.mpr hu)
  | unlink key => exact fun hf => hremovable key (h hf)
  | gcUnlink stats key size => exact fun hf => hremovable key (h hf)
  | _ => exact h

lemma inv_next {p q : Calls H} {e : Event (Call H) (Choice H)}
    (h : Inv hashOf s₀ p.shared p.tasks p.log) (hsafe : SafeStep p e)
    (hnext : Pool.next (Call.enter hashOf) (Task.step hashOf) p e = some q) :
    Inv hashOf s₀ q.shared q.tasks q.log := by
  cases e with
  | start call =>
    obtain rfl := Option.some.inj hnext
    exact h.start call
  | step k c =>
    obtain ⟨t, rest, ht, hp, hstep⟩ := Pool.next_step_cases hnext
    have hafter := (h.perm hp).after_step ((hsafe t ht).perm hp)
    rcases hstep with ⟨u, hu, hq, hlog⟩ | ⟨o, ho, hq, hlog⟩
    · rw [hu] at hafter
      rw [hlog]
      exact Inv.perm hq.symm hafter
    · rw [ho] at hafter
      rw [hlog]
      exact Inv.perm hq.symm hafter

/-- From a consistent store, after a run that avoids the races and in which all calls have returned,
counts and blobs are right. -/
theorem accounted_of_safe {p : Calls H} {es : List (Event (Call H) (Choice H))}
    (hs : s.Consistent hashOf)
    (hsafe : Pool.EachStep (Call.enter hashOf) (Task.step hashOf) SafeStep ⟨s, [], []⟩ es)
    (hrun : Pool.run (Call.enter hashOf) (Task.step hashOf) ⟨s, [], []⟩ es = some p)
    (hquiet : p.tasks = []) : Accounted hashOf s p := by
  have hinit : Inv hashOf s s [] [] :=
    ⟨hs.files, by simp, by simp, fun h hrow => .inl (hs.backed h hrow), by simp, by simp⟩
  have hinv : Inv hashOf s p.shared p.tasks p.log :=
    Pool.run_invariant (fun _ _ _ => inv_next) hinit hsafe hrun
  rw [hquiet] at hinv
  refine ⟨fun h row hrow _ => ?_, fun h => by simpa using hinv.counted h, hinv.unhindered⟩
  rcases hinv.backed h (by simp [hrow]) with hblob | ⟨t, ht, -⟩
  · exact hblob
  · simp at ht

omit [DecidableEq H] in
lemma consistent_empty (hashOf : Bytes → H) : (Store.empty : Store H).Consistent hashOf := by
  refine ⟨⟨?_, ?_, ?_, ?_⟩, ?_⟩
  all_goals simp [Store.empty]

/-- Two `put`s that run at the same time, the second of which clones, and a `release`. -/
def interleaved : List (Event (Call Bytes) (Choice Bytes)) :=
  [.start (.put [7] 0), .step 0 {}, .start (.put [8] 1), .step 0 {},
    .step 0 { cloned := some true }, .step 1 {}, .step 1 {}, .step 1 {}, .step 0 {}, .step 1 {},
    .step 0 {}, .step 0 {}, .step 0 {}, .step 0 {}, .start (.release [8]), .step 0 {}, .step 0 {}]

/-- The calls on an empty store, with the bytes as their own hash. -/
theorem accounted_interleaved : ∃ p : Calls Bytes,
    Pool.run (Call.enter id) (Task.step id) ⟨Store.empty, [], []⟩ interleaved = some p ∧
      p.shared.count [7] = 1 ∧ p.shared.count [8] = 0 ∧ Accounted id Store.empty p := by
  have hrun : Pool.run (Call.enter id) (Task.step id) ⟨Store.empty, [], []⟩ interleaved =
      some _ := rfl
  refine ⟨_, rfl, rfl, rfl, accounted_of_safe (consistent_empty id) ?_ hrun rfl⟩
  have hnone : ∀ row : Option ChunkRefInfo, row = none → ∀ info, row = some info →
      info.refcount.val + 1 < 2 ^ 64 := by simp
  repeat
    refine ⟨?_, fun q hq => ?_⟩
    · first
        | exact trivial
        | intro t ht
          cases ht
          first
            | exact trivial
            | exact rfl
            | exact fun _ => hnone _ rfl
            | exact fun _ => .inl rfl
            | exact fun _ => by simp [Task.holds]
    cases hq
  exact trivial

/-- Two `put`s of one chunk share the temporary file: the second rename finds none. -/
theorem not_accounted_two_puts : ∃ (es : List (Event (Call Bytes) (Choice Bytes))) (p : Calls Bytes),
    Pool.run (Call.enter id) (Task.step id) ⟨Store.empty, [], []⟩ es = some p ∧ p.tasks = [] ∧
      ¬ Accounted id Store.empty p := by
  refine ⟨[.start (.put [7] 0), .start (.put [7] 0)] ++ List.replicate 6 (.step 0 {}) ++
    List.replicate 8 (.step 1 {}) ++ List.replicate 2 (.step 0 {}), _, rfl, rfl, fun h => ?_⟩
  have hlast := h.unhindered _ List.mem_cons_self
  exact Bool.false_ne_true hlast

end Orchid.Content
