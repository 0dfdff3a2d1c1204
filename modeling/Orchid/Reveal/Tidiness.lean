import Mathlib.Tactic.SplitIfs
import Mathlib.Tactic.Tauto
import Orchid.Reveal.Manager

/-!
# Nothing stays behind

While every call that fails has written nothing, no sweeper is dropped with a file to wipe and no
session is registered after a shutdown, every decrypted file has an owner: a session or a call.
-/

namespace Orchid.Reveal

open Lib

variable {U : Type} {s s' : Manager U} {tasks rest : List (Task U)} {t u : Task U}
  {log : List (Outcome U)}

/-! ### The invariant -/

/-- The sessions that a shutdown is going to close. -/
def Task.closing : Task U → Option (List U)
  | .shutdownNext ids _ => some ids
  | .wipe _ (.shutdown ids _) => some ids
  | .removeDir _ (.shutdown ids _) => some ids
  | _ => none

/-- A shutdown is going to close the session. -/
def Task.Closes (id : U) (t : Task U) : Prop := ∃ ids, t.closing = some ids ∧ id ∈ ids

/-- A session or one of the tasks owns the file. -/
def Owned (s : Manager U) (tasks : List (Task U)) (f : Place U) : Prop :=
  (∃ x ∈ s.sessions, x.Covers f) ∨ ∃ t ∈ tasks, t.Covers f

/-- The table has one session for an id. -/
def Manager.Unique (s : Manager U) : Prop := ∀ x ∈ s.sessions, ∀ y ∈ s.sessions, x.id = y.id → x = y

/-- What holds of a manager, the running tasks and the log while calls run. -/
structure Inv (s : Manager U) (tasks : List (Task U)) (log : List (Outcome U)) : Prop where
  unique : s.Unique
  owned : ∀ f ∈ s.files, Owned s tasks f
  closes : s.shutdown = true → ∀ x ∈ s.sessions, ∃ t ∈ tasks, t.Closes x.id
  begun : ∀ t ∈ tasks, t.closing ≠ none → s.shutdown = true
  down : (∃ ok, .shutdown ok ∈ log) → s.shutdown = true

lemma Inv.perm {tasks' : List (Task U)} (hp : tasks.Perm tasks') (h : Inv s tasks log) :
    Inv s tasks' log where
  unique := h.unique
  owned f hf := (h.owned f hf).imp_right fun ⟨t, ht, hc⟩ => ⟨t, hp.mem_iff.mp ht, hc⟩
  closes hs x hx := by
    obtain ⟨t, ht, hc⟩ := h.closes hs x hx
    exact ⟨t, hp.mem_iff.mp ht, hc⟩
  begun t ht := h.begun t (hp.mem_iff.mpr ht)
  down := h.down

/-! ### What one step has to show -/

/-- A task's step: the task makes way for `new` and leaves `out` in the log. A file is new, or it
was there; who owned it still does, unless it was the task or a session that is gone. -/
lemma Inv.step (new : List (Task U)) (out : List (Outcome U)) (h : Inv s (t :: rest) log)
    (hunique : s'.Unique)
    (hfiles : ∀ f ∈ s'.files, f ∈ s.files ∨ Owned s' new f)
    (htask : ∀ f ∈ s'.files, t.Covers f → Owned s' new f)
    (hsessions : ∀ x ∈ s.sessions, x ∈ s'.sessions ∨ ∀ f ∈ s'.files, x.Covers f → Owned s' new f)
    (hcloses : s'.shutdown = true → ∀ x ∈ s'.sessions,
      (s.shutdown = true ∧ x ∈ s.sessions ∧ (t.Closes x.id → ∃ u ∈ new, u.Closes x.id)) ∨
        ∃ u ∈ new, u.Closes x.id)
    (hshutdown : s.shutdown = true → s'.shutdown = true)
    (hbegun : ∀ u ∈ new, u.closing ≠ none → s'.shutdown = true)
    (hout : (∃ ok, .shutdown ok ∈ out) → s'.shutdown = true) :
    Inv s' (new ++ rest) (out ++ log) where
  unique := hunique
  owned f hf := by
    have hnew : Owned s' new f → Owned s' (new ++ rest) f :=
      Or.imp_right fun ⟨u, hu, hc⟩ => ⟨u, List.mem_append_left _ hu, hc⟩
    rcases hfiles f hf with hold | howned
    · rcases h.owned f hold with ⟨x, hx, hc⟩ | ⟨v, hv, hc⟩
      · rcases hsessions x hx with hstays | hgone
        · exact .inl ⟨x, hstays, hc⟩
        · exact hnew (hgone f hf hc)
      · rcases List.mem_cons.mp hv with rfl | hv
        · exact hnew (htask f hf hc)
        · exact .inr ⟨v, List.mem_append_right _ hv, hc⟩
    · exact hnew howned
  closes hs x hx := by
    rcases hcloses hs x hx with ⟨hs₀, hx₀, htask'⟩ | ⟨u, hu, hc⟩
    · obtain ⟨v, hv, hc⟩ := h.closes hs₀ x hx₀
      rcases List.mem_cons.mp hv with rfl | hv
      · obtain ⟨u, hu, hc⟩ := htask' hc
        exact ⟨u, List.mem_append_left _ hu, hc⟩
      · exact ⟨v, List.mem_append_right _ hv, hc⟩
    · exact ⟨u, List.mem_append_left _ hu, hc⟩
  begun u hu hc := by
    rcases List.mem_append.mp hu with hu | hu
    · exact hbegun u hu hc
    · exact hshutdown (h.begun u (List.mem_cons_of_mem t hu) hc)
  down := by
    rintro ⟨ok, hok⟩
    rcases List.mem_append.mp hok with hok | hok
    · exact hout ⟨ok, hok⟩
    · exact hshutdown (h.down ⟨ok, hok⟩)

/-- A step that leaves the sessions alone. -/
lemma Inv.step_files (new : List (Task U)) (out : List (Outcome U))
    (h : Inv s (t :: rest) log) (hsame : s'.sessions = s.sessions)
    (hshutdown : s'.shutdown = s.shutdown)
    (hfiles : ∀ f ∈ s'.files, f ∈ s.files ∨ Owned s' new f)
    (htask : ∀ f ∈ s'.files, t.Covers f → Owned s' new f)
    (hcloses : ∀ id, t.Closes id → ∃ u ∈ new, u.Closes id)
    (hbegun : ∀ u ∈ new, u.closing ≠ none → t.closing ≠ none)
    (hout : ∀ ok, .shutdown ok ∈ out → t.closing ≠ none) : Inv s' (new ++ rest) (out ++ log) := by
  have hbegun' : t.closing ≠ none → s'.shutdown = true := fun ht =>
    hshutdown ▸ h.begun t List.mem_cons_self ht
  refine h.step new out ?_ hfiles htask (fun x hx => .inl ?_)
    (fun hs x hx => .inl ⟨?_, ?_, hcloses x.id⟩) (fun hs => ?_)
    (fun u hu hc => hbegun' (hbegun u hu hc)) fun ⟨ok, hok⟩ => hbegun' (hout ok hok)
  · unfold Manager.Unique
    rw [hsame]
    exact h.unique
  · rw [hsame]
    exact hx
  · exact hshutdown ▸ hs
  · exact hsame ▸ hx
  · exact hshutdown ▸ hs

/-- A task goes on and leaves the sessions alone. -/
lemma Inv.goOn_files (h : Inv s (t :: rest) log) (u : Task U) (hsame : s'.sessions = s.sessions)
    (hshutdown : s'.shutdown = s.shutdown) (hfiles : ∀ f ∈ s'.files, f ∈ s.files ∨ u.Covers f)
    (htask : ∀ f ∈ s'.files, t.Covers f → u.Covers f) (hclosing : u.closing = t.closing) :
    Inv s' (u :: rest) log := by
  refine h.step_files [u] [] hsame hshutdown (fun f hf => ?_) (fun f hf hc => ?_)
    (fun id hc => ⟨u, List.mem_singleton_self u, ?_⟩) (fun v hv hc => ?_) (fun ok hok => ?_)
  · exact (hfiles f hf).imp_right fun hc => .inr ⟨u, List.mem_singleton_self u, hc⟩
  · exact .inr ⟨u, List.mem_singleton_self u, htask f hf hc⟩
  · unfold Task.Closes
    rw [hclosing]
    exact hc
  · rw [List.mem_singleton.mp hv, hclosing] at hc
    exact hc
  · cases hok

/-- A task goes on without touching the manager. -/
lemma Inv.goOn (h : Inv s (t :: rest) log) (u : Task U) (htask : ∀ f, t.Covers f → u.Covers f)
    (hclosing : u.closing = t.closing) : Inv s (u :: rest) log :=
  h.goOn_files u rfl rfl (fun _ hf => .inl hf) (fun f _ hc => htask f hc) hclosing

/-- A call ends that owns no file. -/
lemma Inv.finish_files (h : Inv s (t :: rest) log) (hsame : s'.sessions = s.sessions)
    (hshutdown : s'.shutdown = s.shutdown) (hfiles : ∀ f ∈ s'.files, f ∈ s.files)
    (hclean : ∀ f ∈ s'.files, ¬ t.Covers f) (hcloses : ∀ id, ¬ t.Closes id) {o : Outcome U}
    (ho : ∀ ok, o = .shutdown ok → t.closing ≠ none) : Inv s' rest (o :: log) :=
  h.step_files [] [o] hsame hshutdown (fun f hf => .inl (hfiles f hf))
    (fun f hf hc => absurd hc (hclean f hf)) (fun id hc => absurd hc (hcloses id))
    (fun _ hu => absurd hu List.not_mem_nil) fun ok hok => ho ok (List.mem_singleton.mp hok).symm

lemma Task.not_closes (ht : t.closing = none) (id : U) : ¬ t.Closes id := by
  rintro ⟨ids, hids, -⟩
  cases ht.symm.trans hids

/-- A call fails that has written nothing. -/
lemma Inv.fail (h : Inv s (t :: rest) log) (hclean : ∀ f ∈ s.files, ¬ t.Covers f)
    (ht : t.closing = none) {o : Outcome U} (ho : ∀ ok, o ≠ .shutdown ok) : Inv s rest (o :: log) :=
  h.finish_files rfl rfl (fun _ hf => hf) hclean (Task.not_closes ht) fun ok hok =>
    absurd hok (ho ok)

lemma owned_singleton {f : Place U} (hc : u.Covers f) : Owned s [u] f :=
  .inr ⟨u, List.mem_singleton_self u, hc⟩

variable [DecidableEq U] {c : Choice U}

/-! ### Steps on the files -/

omit [DecidableEq U] in
lemma mem_write {f : Place U} {path : Option (Place U)} :
    f ∈ (s.write path).files ↔ path = some f ∨ f ∈ s.files := by
  cases path <;> simp [Manager.write, eq_comm]

lemma mem_removeFile {f : Place U} {path : Option (Place U)} :
    f ∈ (s.removeFile path).files ↔ f ∈ s.files ∧ path ≠ some f := by
  rw [Manager.removeFile, List.mem_filter, decide_eq_true_eq, ne_comm]

lemma mem_removeDir {f : Place U} {id : U} :
    f ∈ (s.removeDir id).files ↔ f ∈ s.files ∧ f.dir ≠ some id := by
  simp [Manager.removeDir]

omit [DecidableEq U] in
/-- A call writes a file of its own and goes on. -/
lemma Inv.write (h : Inv s (t :: rest) log) (path : Option (Place U)) (u : Task U)
    (hpath : ∀ f, path = some f → u.Covers f) (htask : ∀ f, t.Covers f → u.Covers f)
    (hclosing : u.closing = t.closing) : Inv (s.write path) (u :: rest) log :=
  h.goOn_files u rfl rfl (fun f hf => (mem_write.mp hf).symm.imp_right (hpath f))
    (fun f _ hc => htask f hc) hclosing

lemma mem_removeSession {x : RevealSession U} {id : U} :
    x ∈ (s.removeSession id).sessions ↔ x ∈ s.sessions ∧ x.id ≠ id := by
  simp [Manager.removeSession]

/-- The session with an id is taken out of the table by a call that is going to wipe it. -/
lemma Inv.take {id : U} {session : RevealSession U} {after : After U}
    (h : Inv s (t :: rest) log) (hfind : s.find? id = some session)
    (hcovers : ∀ f, ¬ t.Covers f)
    (hcloses : ∀ k, k ≠ id → t.Closes k → (Task.wipe session after).Closes k)
    (hbegun : (Task.wipe session after).closing ≠ none → t.closing ≠ none) :
    Inv (s.removeSession id) (.wipe session after :: rest) log := by
  have hid : session.id = id := by simpa using List.find?_some hfind
  have hmem : session ∈ s.sessions := List.mem_of_find?_eq_some hfind
  refine h.step [.wipe session after] [] (fun x hx y hy => ?_)
    (fun f hf => .inl hf) (fun f _ hc => absurd hc (hcovers f)) (fun x hx => ?_)
    (fun hs x hx => .inl ⟨hs, ?_⟩) (fun hs => hs) (fun u hu hc => ?_)
    (fun ⟨ok, hok⟩ => by cases hok)
  · exact h.unique x (mem_removeSession.mp hx).1 y (mem_removeSession.mp hy).1
  · by_cases hx' : x.id = id
    · obtain rfl := h.unique x hx session hmem (hx'.trans hid.symm)
      exact .inr fun f _ hc => owned_singleton hc
    · exact .inl (mem_removeSession.mpr ⟨hx, hx'⟩)
  · obtain ⟨hx, hne⟩ := mem_removeSession.mp hx
    exact ⟨hx, fun hc => ⟨_, List.mem_singleton_self _, hcloses x.id hne hc⟩⟩
  · rw [List.mem_singleton.mp hu] at hc
    exact h.begun t List.mem_cons_self (hbegun hc)

/-- A session is registered. -/
lemma Inv.register {x : RevealSession U} (h : Inv s (t :: rest) log) (hup : s.shutdown = false)
    (hfresh : ∀ y ∈ s.sessions, y.id ≠ x.id) (hcovers : ∀ f, t.Covers f → x.Covers f) :
    Inv (s.insertSession x) rest (.revealed (some x) :: log) := by
  have hsessions : (s.insertSession x).sessions = x :: s.sessions := by
    rw [Manager.insertSession, List.filter_eq_self.mpr]
    exact fun y hy => decide_eq_true (hfresh y hy)
  have hdown : (s.insertSession x).shutdown = true → False := fun hs =>
    Bool.false_ne_true (hup.symm.trans hs)
  refine h.step [] [_] ?_ (fun f hf => .inl hf) (fun f _ hc => ?_)
    (fun y hy => .inl ?_) (fun hs => (hdown hs).elim) (fun hs => hs)
    (fun u hu => absurd hu List.not_mem_nil) (fun ⟨ok, hok⟩ => ?_)
  · unfold Manager.Unique
    rw [hsessions]
    intro y hy z hz heq
    rcases List.mem_cons.mp hy with hyx | hy <;> rcases List.mem_cons.mp hz with hzx | hz
    · exact hyx.trans hzx.symm
    · exact absurd (heq.symm.trans (congrArg _ hyx)) (hfresh z hz)
    · exact absurd (heq.trans (congrArg _ hzx)) (hfresh y hy)
    · exact h.unique y hy z hz heq
  · refine .inl ⟨x, ?_, hcovers f hc⟩
    rw [hsessions]
    exact List.mem_cons_self
  · rw [hsessions]
    exact List.mem_cons_of_mem x hy
  · cases List.mem_singleton.mp hok

/-! ### Every step -/

/-- The invariant after a step of a task. -/
def InvAfter (rest : List (Task U)) (log : List (Outcome U)) :
    Manager U × Progress (Task U) (Outcome U) → Prop
  | (s', .running u) => Inv s' (u :: rest) log
  | (s', .finished o) => Inv s' rest (o :: log)

lemma Inv.after_proceed (h : Inv s (t :: rest) log) (hclean : t.Clean c s)
    (habort : ¬ t.Aborts c s) : InvAfter rest log (t.proceed c s) := by
  unfold Task.Clean at hclean
  rw [if_neg habort] at hclean
  cases t with
  | reveal duration =>
    simp only [Task.proceed]
    split_ifs
    · exact h.fail (fun _ _ hc => hc) rfl (by simp)
    · exact h.goOn _ (fun _ hc => hc) rfl
  | readMetadata id duration => exact h.goOn _ (fun _ hc => hc.elim) rfl
  | decrypt id path duration =>
    simp only [Task.proceed]
    split_ifs with hf hl
    · obtain rfl := hclean hf hl
      exact h.fail (fun _ _ hc => hc) rfl (by simp)
    · exact h.fail (fun _ _ hc => hc) rfl (by simp)
    · exact h.write _ (.rename id path duration) (fun _ hp => hp) (fun _ hc => hc.elim) rfl
  | rename id path duration =>
    simp only [Task.proceed]
    split_ifs with hf
    · exact h.fail (hclean hf) rfl (by simp)
    · refine h.goOn_files (.register id path false duration) rfl rfl (fun f hf => ?_)
        (fun f hf hc => ?_) rfl
      · rcases mem_write.mp hf with hp | hf
        · exact .inr (.inl ⟨rfl, hp⟩)
        · exact .inl (mem_removeFile.mp hf).1
      · rcases mem_write.mp hf with hp | hf
        · exact .inl ⟨rfl, hp⟩
        · exact absurd hc (mem_removeFile.mp hf).2
  | register id path isDirectory duration =>
    exact h.register hclean.1 hclean.2 fun f hc => hc
  | revealDirectory duration =>
    simp only [Task.proceed]
    split_ifs
    · exact h.fail (fun _ _ hc => hc) rfl (by simp)
    · exact h.goOn _ (fun _ hc => hc.elim) rfl
  | unpack id duration =>
    simp only [Task.proceed]
    split_ifs with hf
    · exact h.fail (hclean hf) rfl (by simp)
    · cases c.entry with
      | none => exact h.goOn _ (fun _ hc => .inr hc) rfl
      | some entry =>
        refine h.write _ (.unpack id duration) (fun f hf => ?_) (fun _ hc => hc) rfl
        exact Option.some.inj hf ▸ rfl
  | close id =>
    cases hfind : s.find? id with
    | none =>
      simp only [Task.proceed, hfind]
      exact h.fail (fun _ _ hc => hc) rfl (by simp)
    | some session =>
      simp only [Task.proceed, hfind]
      exact h.take hfind (fun _ hc => hc) (fun k _ hc => hc) fun hc => hc
  | wipe session after =>
    have hclosing : (Task.removeDir session after).closing = (Task.wipe session after).closing := by
      cases after <;> rfl
    cases hd : session.isDirectory with
    | false =>
      simp only [Task.proceed, hd]
      refine h.goOn_files _ rfl rfl (fun f hf => .inl (mem_removeFile.mp hf).1) (fun f hf hc => ?_)
        hclosing
      rcases hc with ⟨-, hp⟩ | hdir
      · exact absurd hp (mem_removeFile.mp hf).2
      · exact hdir
    | true =>
      simp only [Task.proceed, hd, if_true]
      cases c.entry with
      | none =>
        refine h.goOn _ (fun f hc => ?_) hclosing
        rcases hc with ⟨hfile, -⟩ | hdir
        · exact absurd (hd.symm.trans hfile) (by decide)
        · exact hdir
      | some entry =>
        exact h.goOn_files _ rfl rfl (fun f hf => .inl (mem_removeFile.mp hf).1)
          (fun f _ hc => hc) rfl
  | removeDir session after =>
    have hgone : ∀ f ∈ (s.removeDir session.id).files, ¬ (Task.removeDir session after).Covers f :=
      fun f hf hc => (mem_removeDir.mp hf).2 hc
    have hsub : ∀ f ∈ (s.removeDir session.id).files, f ∈ s.files := fun f hf =>
      (mem_removeDir.mp hf).1
    cases after with
    | close =>
      have hend : Inv (s.removeDir session.id) rest (.closed true :: log) := by
        refine h.finish_files ?_ ?_ hsub hgone (Task.not_closes rfl) (by simp)
        · rfl
        · rfl
      exact hend
    | sweep w ids =>
      exact h.goOn_files _ rfl rfl (fun f hf => .inl (hsub f hf))
        (fun f hf hc => absurd hc (hgone f hf)) rfl
    | shutdown ids failed =>
      exact h.goOn_files _ rfl rfl (fun f hf => .inl (hsub f hf))
        (fun f hf hc => absurd hc (hgone f hf)) rfl
  | startSweeper =>
    simp only [Task.proceed]
    split_ifs
    · exact h.fail (fun _ _ hc => hc) rfl (by simp)
    · exact h.goOn_files _ rfl rfl (fun _ hf => .inl hf) (fun _ _ hc => hc.elim) rfl
  | sweeper n =>
    simp only [Task.proceed]
    split_ifs
    · exact h.fail (fun _ _ hc => hc) rfl (by simp)
    · exact h.goOn _ (fun _ hc => hc.elim) rfl
  | asleep n => exact h.goOn _ (fun _ hc => hc.elim) rfl
  | sweep w => exact h.goOn _ (fun _ hc => hc.elim) rfl
  | sweepNext w ids =>
    cases ids with
    | nil =>
      cases w with
      | none => exact h.fail (fun _ _ hc => hc) rfl (by simp)
      | some n => exact h.goOn _ (fun _ hc => hc.elim) rfl
    | cons id ids =>
      cases hfind : s.find? id with
      | none =>
        simp only [Task.proceed, hfind]
        exact h.goOn _ (fun _ hc => hc.elim) rfl
      | some session =>
        simp only [Task.proceed, hfind]
        exact h.take hfind (fun _ hc => hc) (fun k _ hc => hc) fun hc => hc
  | shutdown =>
    refine h.step [_] [] h.unique (fun _ hf => .inl hf) (fun _ _ hc => hc.elim)
      (fun _ hx => .inl hx) (fun _ x hx => .inr ⟨_, List.mem_singleton_self _, ?_⟩) (fun _ => rfl)
      (fun _ _ _ => rfl) fun ⟨ok, hok⟩ => by cases hok
    exact ⟨_, rfl, List.mem_map_of_mem hx⟩
  | shutdownNext ids failed =>
    cases ids with
    | nil =>
      refine h.finish_files rfl rfl (fun _ hf => hf) (fun _ _ hc => hc) ?_ (by simp [Task.closing])
      rintro k ⟨ids, hids, hk⟩
      cases hids
      cases hk
    | cons id ids =>
      cases hfind : s.find? id with
      | none =>
        simp only [Task.proceed, hfind]
        refine h.step [.shutdownNext ids true] [] h.unique (fun _ hf => .inl hf)
          (fun _ _ hc => hc.elim) (fun _ hx => .inl hx) (fun hs x hx => .inl ⟨hs, hx, ?_⟩)
          (fun hs => hs) (fun _ _ _ => h.begun _ List.mem_cons_self (by simp [Task.closing]))
          fun ⟨ok, hok⟩ => by cases hok
        rintro ⟨all, hall, hmem⟩
        cases hall
        have hne : x.id ≠ id := by simpa using List.find?_eq_none.mp hfind x hx
        exact ⟨_, List.mem_singleton_self _, ids, rfl, (List.mem_cons.mp hmem).resolve_left hne⟩
      | some session =>
        simp only [Task.proceed, hfind]
        refine h.take hfind (fun _ hc => hc) ?_ (by simp [Task.closing])
        rintro k hk ⟨all, hall, hmem⟩
        cases hall
        exact ⟨ids, rfl, (List.mem_cons.mp hmem).resolve_left hk⟩

lemma Inv.after_step (h : Inv s (t :: rest) log) (hclean : t.Clean c s) :
    InvAfter rest log (t.step c s) := by
  unfold Task.step
  split_ifs with habort
  · unfold Task.Clean at hclean
    rw [if_pos habort] at hclean
    refine h.fail hclean ?_ (by simp)
    obtain ⟨-, n, -, hn⟩ := habort
    cases t with
    | wipe session after => cases after <;> first | rfl | cases hn
    | removeDir session after => cases after <;> first | rfl | cases hn
    | shutdownNext ids failed => cases hn
    | _ => rfl
  · exact h.after_proceed hclean habort

/-! ### Runs -/

omit [DecidableEq U] in
lemma Inv.start (h : Inv s tasks log) (call : Call U) : Inv s (call.enter :: tasks) log where
  unique := h.unique
  owned f hf := (h.owned f hf).imp_right fun ⟨t, ht, hc⟩ => ⟨t, List.mem_cons_of_mem _ ht, hc⟩
  closes hs x hx := by
    obtain ⟨t, ht, hc⟩ := h.closes hs x hx
    exact ⟨t, List.mem_cons_of_mem _ ht, hc⟩
  begun t ht hc := by
    rcases List.mem_cons.mp ht with rfl | ht
    · cases call <;> exact absurd rfl hc
    · exact h.begun t ht hc
  down := h.down

lemma inv_next {p q : Calls U} {e : Event (Call U) (Choice U)}
    (h : Inv p.shared p.tasks p.log) (hclean : CleanStep p e)
    (hnext : Pool.next Call.enter Task.step p e = some q) : Inv q.shared q.tasks q.log := by
  cases e with
  | start call =>
    obtain rfl := Option.some.inj hnext
    exact h.start call
  | step k c =>
    obtain ⟨t, rest, ht, hp, hstep⟩ := Pool.next_step_cases hnext
    have hafter := (h.perm hp).after_step (hclean t ht)
    rcases hstep with ⟨u, hu, hq, hlog⟩ | ⟨o, ho, hq, hlog⟩
    · rw [hu] at hafter
      rw [hlog]
      exact Inv.perm hq.symm hafter
    · rw [ho] at hafter
      rw [hlog]
      exact Inv.perm hq.symm hafter

omit [DecidableEq U] in
lemma Inv.tidy {p : Calls U} (h : Inv p.shared p.tasks p.log) : Tidy p where
  owned := h.owned
  empty hdown htasks := by
    refine List.eq_nil_iff_forall_not_mem.mpr fun f hf => ?_
    have hnone : ∀ t, t ∉ p.tasks := fun t ht => List.not_mem_nil (htasks ▸ ht)
    rcases h.owned f hf with ⟨x, hx, -⟩ | ⟨t, ht, -⟩
    · obtain ⟨t, ht, -⟩ := h.closes (h.down hdown) x hx
      exact hnone t ht
    · exact hnone t ht

/-- After any run of clean steps every decrypted file has an owner, and none is left when a shutdown
and all other calls have returned. -/
theorem tidy_of_clean {p : Calls U} {es : List (Event (Call U) (Choice U))}
    (hclean : Pool.EachStep Call.enter Task.step CleanStep ⟨.new, [], []⟩ es)
    (hrun : Pool.run Call.enter Task.step ⟨.new, [], []⟩ es = some p) : Tidy p := by
  have hinit : Inv (.new : Manager U) [] [] := by
    refine ⟨fun x hx => ?_, fun f hf => ?_, fun hs => ?_, fun t ht => ?_, fun ⟨ok, hok⟩ => ?_⟩
    · cases hx
    · cases hf
    · cases hs
    · cases ht
    · cases hok
  have hinv : Inv p.shared p.tasks p.log :=
    Pool.run_invariant (fun _ _ _ => inv_next) hinit hclean hrun
  exact hinv.tidy

omit [DecidableEq U] in
/-- A step without a fault and an abort is clean, unless it registers a session. -/
lemma Task.clean_of_sound (hfault : c.fault = false) (habort : c.abort = false)
    (hregister : ∀ id path isDirectory duration, t ≠ .register id path isDirectory duration) :
    t.Clean c s := by
  unfold Task.Clean
  rw [if_neg fun h : t.Aborts c s => Bool.false_ne_true (habort.symm.trans h.1)]
  cases t with
  | register id path isDirectory duration =>
    exact absurd rfl (hregister id path isDirectory duration)
  | decrypt id path duration => exact fun hf => absurd (hfault.symm.trans hf) Bool.false_ne_true
  | rename id path duration => exact fun hf => absurd (hfault.symm.trans hf) Bool.false_ne_true
  | unpack id duration => exact fun hf => absurd (hfault.symm.trans hf) Bool.false_ne_true
  | _ => trivial

/-- Two files are revealed in turn; then one is closed while the manager is shut down. -/
def twoReveals : List (Event (Call ℕ) (Choice ℕ)) :=
  let first : Event (Call ℕ) (Choice ℕ) := .step 1 { id := 7, path := some ⟨some 7, ['a'], none⟩ }
  let second : Event (Call ℕ) (Choice ℕ) := .step 0 { id := 8, path := some ⟨some 8, ['b'], none⟩ }
  let later : Event (Call ℕ) (Choice ℕ) := .step 0 { id := 0 }
  [.start (.reveal none), .start (.reveal none), first, second, first, second, first, second,
    first, second, first, second, .start .shutdown, later, .start (.close 8), later, later, later,
    later, later, later, later, later]

/-- The shutdown misses the session that is closed, and no file is left. -/
theorem tidy_of_clean_twoReveals : ∃ p : Calls ℕ,
    Pool.run Call.enter Task.step ⟨.new, [], []⟩ twoReveals = some p ∧ Tidy p ∧
    p.log.length = 4 ∧ .shutdown false ∈ p.log ∧ p.shared.files = [] := by
  have hrun := (Option.some_get (x := Pool.run Call.enter Task.step ⟨.new, [], []⟩ twoReveals)
    rfl).symm
  refine ⟨_, hrun, tidy_of_clean ?_ hrun, rfl, List.mem_cons_self, rfl⟩
  refine ⟨trivial, fun q hq => ?_⟩
  cases hq
  refine ⟨trivial, fun q hq => ?_⟩
  cases hq
  iterate 8
    refine ⟨fun t ht => ?_, fun q hq => ?_⟩
    · cases ht
      exact Task.clean_of_sound rfl rfl fun _ _ _ _ h => by cases h
    cases hq
  refine ⟨fun t ht => ?_, fun q hq => ?_⟩
  · cases ht
    exact ⟨rfl, fun x hx => by cases hx⟩
  cases hq
  refine ⟨fun t ht => ?_, fun q hq => ?_⟩
  · cases ht
    refine ⟨rfl, fun x hx => ?_⟩
    obtain rfl := List.mem_singleton.mp hx
    decide
  cases hq
  refine ⟨trivial, fun q hq => ?_⟩
  cases hq
  refine ⟨fun t ht => ?_, fun q hq => ?_⟩
  · cases ht
    exact Task.clean_of_sound rfl rfl fun _ _ _ _ h => by cases h
  cases hq
  refine ⟨trivial, fun q hq => ?_⟩
  cases hq
  iterate 8
    refine ⟨fun t ht => ?_, fun q hq => ?_⟩
    · cases ht
      exact Task.clean_of_sound rfl rfl fun _ _ _ _ h => by cases h
    cases hq
  exact trivial

/-- A file is decrypted, the manager is shut down, and then the session is registered. -/
theorem not_tidy : ∃ (es : List (Event (Call ℕ) (Choice ℕ))) (p : Calls ℕ),
    Pool.run Call.enter Task.step ⟨.new, [], []⟩ es = some p ∧ ¬ Tidy p := by
  refine ⟨.start (.reveal none) ::
    List.replicate 4 (.step 0 { id := 7, path := some ⟨some 7, ['a'], none⟩ }) ++
    .start .shutdown :: List.replicate 3 (.step 0 { id := 8 }), _, rfl, fun h => ?_⟩
  exact List.cons_ne_nil _ _ (h.empty ⟨true, by simp⟩ rfl)

end Orchid.Reveal
