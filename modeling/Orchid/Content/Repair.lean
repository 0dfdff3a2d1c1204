import Orchid.Content.Files
import Mathlib.Tactic.SplitIfs

/-!
# A `put` that was cut off

Puts and releases run one after the other; one `put` is cut off by a crash or an I/O error. Seen
from outside a chunk is its row and the bytes of its blob. A `put` that is cut off before its rename
but after its commit leaves a row without a blob, and later `put`s find the row.
-/

namespace Orchid.Content

open Lib

/-! ### Chunks from outside -/

/-- What is stored of a chunk: its row and the bytes of its blob. -/
structure Chunk where
  row : Option ChunkRefInfo
  blob : Option Bytes

namespace Chunk

/-- The chunk after a `put` of its bytes. -/
def put (bytes : Bytes) (now : Instant) (x : Chunk) : Chunk :=
  match x.row with
  | some info => { x with row := some (info.bump now) }
  | none => ⟨some ⟨bytes.length, 1, now, now⟩, some bytes⟩

/-- The chunk after a `release`. -/
def release (x : Chunk) : Chunk :=
  match x.row with
  | none => x
  | some info =>
    if info.refcount = 0 then x
    else if info.refcount - 1 = 0 then ⟨none, none⟩
    else { x with row := some { info with refcount := info.refcount - 1 } }

/-- The chunk has its blob if and only if it has a row. -/
structure Whole (bytes : Bytes) (x : Chunk) : Prop where
  stored : x.row.isSome → x.blob = some bytes
  bare : x.row = none → x.blob = none

/-- The chunk has a row that counts `n` references, but no blob. -/
structure Lost (n : U64) (x : Chunk) : Prop where
  row : ∃ info, x.row = some info ∧ info.refcount = n
  blob : x.blob = none

end Chunk

variable {H : Type} [DecidableEq H] (hashOf : Bytes → H)

/-- A chunk of the store. -/
def Store.chunk (s : Store H) (h : H) : Chunk := ⟨s.rows h, (s.blob h).map s.content⟩

/-- A call that changes chunks. -/
inductive Update (H : Type) where
  | put (bytes : Bytes) (now : Instant)
  | release (key : H)

namespace Update

def call : Update H → Call H
  | .put bytes now => .put bytes now
  | .release key => .release key

/-- The chunk after a call. -/
def apply (h : H) : Update H → Chunk → Chunk
  | .put bytes now, x => if hashOf bytes = h then x.put bytes now else x
  | .release key, x => if key = h then x.release else x

/-- The references of a chunk after a call. -/
def references (h : H) : Update H → U64 → U64
  | .put bytes _, n => if hashOf bytes = h then saturatingSucc n else n
  | .release key, n => if key = h then n - 1 else n

/-- A chunk with the hash `h` is put only with the bytes `b`. -/
def Puts (b : Bytes) (h : H) : Update H → Prop
  | .put bytes _ => hashOf bytes = h → bytes = b
  | .release _ => True

end Update

/-- Starting with `n`, the references of the chunk reach zero. -/
def Drains (h : H) : U64 → List (Update H) → Prop
  | n, [] => n = 0
  | n, u :: us => n = 0 ∨ Drains h (u.references hashOf h n) us

/-! ### Runs with one `put` cut off -/

/-- No I/O fault. -/
def Choice.Sound (c : Choice H) : Prop := c.fault = false

/-- Calls run one after the other to their ends, without I/O faults. -/
inductive Serves : Store H → List (Update H) → Store H → Prop
  | nil (s) : Serves s [] s
  | cons {s₁ s₂ s₃ u us o} :
      Completes (Task.step hashOf) Choice.Sound s₁ (u.call.enter hashOf) s₂ o →
      Serves s₂ us s₃ → Serves s₁ (u :: us) s₃

/-- A `put` is cut off at a task: the process dies there, or the `put` fails there. -/
inductive CutOff (bytes : Bytes) (now : Instant) (s : Store H) : Task H → Store H → Prop
  | crash {t s'} :
      Reaches (Task.step hashOf) (fun _ => True) s (Call.enter hashOf (.put bytes now)) s' t →
      CutOff bytes now s t { s' with pending := [] }
  | fail {t s' s'' c key e hindered} :
      Reaches (Task.step hashOf) (fun _ => True) s (Call.enter hashOf (.put bytes now)) s' t →
      Task.step hashOf c s' t = (s'', .finished (.put key (.error e) hindered)) →
      CutOff bytes now s t s''

/-- A `get` of the hash returns the bytes. -/
def Reads (s : Store H) (h : H) (bytes : Bytes) : Prop :=
  (∃ s', Completes (Task.step hashOf) Choice.Sound s (Call.enter hashOf (.get h)) s'
    (.get h (.ok bytes))) ∧
  ∀ s' o, Completes (Task.step hashOf) Choice.Sound s (Call.enter hashOf (.get h)) s' o →
    o = .get h (.ok bytes)

/-- After a `put` of the bytes that returns `Ok`, a `get` of their hash returns them. -/
def Repairs (s : Store H) (bytes : Bytes) : Prop :=
  ∀ now s' hindered, Completes (Task.step hashOf) (fun _ => True) s
    (Call.enter hashOf (.put bytes now)) s' (.put (hashOf bytes) (.ok ()) hindered) →
    Reads hashOf s' (hashOf bytes) bytes

variable {hashOf} {s s₀ s₁ s₂ s₃ s' : Store H} {bytes : Bytes} {now : Instant} {t u : Task H}
  {key h : H} {o : Outcome H} {c : Choice H}

/-! ### A `put` alone -/

/-- The chunks look the same, and the files are still apart. -/
structure SameChunks (s s' : Store H) : Prop where
  files : s'.FilesApart
  rows : s'.rows = s.rows
  chunk : ∀ h, s'.chunk h = s.chunk h

omit [DecidableEq H] in
lemma SameChunks.of_blob (hfiles : s'.FilesApart) (hrows : s'.rows = s.rows)
    (hblob : s'.blob = s.blob) (hcontent : ∀ k g, s.blob k = some g → s'.content g = s.content g) :
    SameChunks s s' := by
  refine ⟨hfiles, hrows, fun h => ?_⟩
  rw [Store.chunk, Store.chunk, hrows, hblob]
  cases hg : s.blob h with
  | none => rfl
  | some g => simp [hcontent h g hg]

omit [DecidableEq H] in
lemma SameChunks.trans (h₁ : SameChunks s₀ s) (h₂ : SameChunks s s') : SameChunks s₀ s' :=
  ⟨h₂.files, h₂.rows.trans h₁.rows, fun h => (h₂.chunk h).trans (h₁.chunk h)⟩

omit [DecidableEq H] in
lemma SameChunks.refl (hs : s.FilesApart) : SameChunks s s := ⟨hs, rfl, fun _ => rfl⟩

lemma SameChunks.setTmp_none (h : SameChunks s₀ s) (key : H) :
    SameChunks s₀ (s.setTmp key none) :=
  ⟨filesApart_setTmp_none h.files key, h.rows, h.chunk⟩

omit [DecidableEq H] in
/-- Writing to a temporary file changes no chunk. -/
lemma SameChunks.writeAt {key : H} {file off : ℕ} (hs : SameChunks s₀ s)
    (htmp : s.tmp key = some file) (hbytes : s.content file = bytes.take off)
    (hoff : off ≤ bytes.length) (n : ℕ) :
    SameChunks s₀ (s.writeAt file off ((bytes.drop off).take n)) ∧
      (s.writeAt file off ((bytes.drop off).take n)).content file =
        bytes.take (off + ((bytes.drop off).take n).length) := by
  obtain ⟨hsame, hnew, hcontent⟩ := writeAt_spec (n := n) hbytes hoff
  have hfiles := hs.files
  refine ⟨hs.trans (.of_blob (hsame.filesApart ?_) rfl rfl fun k g hg => hcontent g ?_), hnew⟩
  · exact ⟨hfiles.tmp_lt, hfiles.blob_lt, hfiles.tmp_inj, hfiles.tmp_ne_blob⟩
  · rintro rfl
    exact hfiles.tmp_ne_blob _ k g htmp hg

/-- What a `put` of `bytes` alone on `s₀` has done when it stands at a task. -/
inductive Midway (hashOf : Bytes → H) (bytes : Bytes) (now : Instant) (s₀ : Store H) :
    Store H → Task H → Prop
  | probe : Midway hashOf bytes now s₀ s₀ (.probe (hashOf bytes) bytes now)
  | clone (hrow : s₀.rows (hashOf bytes) = none) :
      Midway hashOf bytes now s₀ s₀ (.clone (hashOf bytes) bytes now)
  | makeDir {s : Store H} (hrow : s₀.rows (hashOf bytes) = none) (hs : SameChunks s₀ s) :
      Midway hashOf bytes now s₀ s (.makeDir (hashOf bytes) bytes now)
  | create {s : Store H} (hrow : s₀.rows (hashOf bytes) = none) (hs : SameChunks s₀ s) :
      Midway hashOf bytes now s₀ s (.create (hashOf bytes) bytes now)
  | write {s : Store H} {file off : ℕ} (hrow : s₀.rows (hashOf bytes) = none) (hs : SameChunks s₀ s)
      (htmp : s.tmp (hashOf bytes) = some file) (hoff : off ≤ bytes.length)
      (hbytes : s.content file = bytes.take off) :
      Midway hashOf bytes now s₀ s (.write (hashOf bytes) bytes now file off)
  | commit {s : Store H} {file : ℕ} (hrow : s₀.rows (hashOf bytes) = none) (hs : SameChunks s₀ s)
      (htmp : s.tmp (hashOf bytes) = some file) (hbytes : s.content file = bytes) :
      Midway hashOf bytes now s₀ s (.commit (hashOf bytes) bytes now)
  | rename {s : Store H} {file : ℕ} (hrow : s₀.rows (hashOf bytes) = none) (hs : SameChunks s₀ s)
      (htmp : s.tmp (hashOf bytes) = some file) (hbytes : s.content file = bytes) :
      Midway hashOf bytes now s₀
        (s.setRow (hashOf bytes) (some ⟨bytes.length, 1, now, now⟩)) (.rename (hashOf bytes))
  | discard {s : Store H} (hs : SameChunks s₀ s) : Midway hashOf bytes now s₀ s (.discard (hashOf bytes))

/-- Every step of a `put` but the last. -/
lemma Midway.step (hs₀ : s₀.FilesApart) (h : Midway hashOf bytes now s₀ s t)
    (hstep : Task.step hashOf c s t = (s', .running u)) : Midway hashOf bytes now s₀ s' u := by
  cases h with
  | probe =>
    cases hrow : s.rows (hashOf bytes) with
    | some info =>
      simp only [Task.step, hrow] at hstep
      split_ifs at hstep <;> simp at hstep
    | none =>
      simp only [Task.step, hrow] at hstep
      split_ifs at hstep
      · simp at hstep
      · obtain ⟨rfl, hu⟩ := Prod.mk.inj hstep
        cases hu
        exact .clone hrow
  | clone hrow =>
    obtain ⟨hfiles, htmp, -, hblob, hrows, hempty, -, hcontent⟩ :=
      createTmp_spec hs₀ (hashOf bytes)
    have hcreated : SameChunks s (s.createTmp (hashOf bytes)).1 :=
      .of_blob hfiles hrows hblob hcontent
    rcases hc : c.cloned with _ | _ | _
    · simp only [Task.step, hc] at hstep
      obtain ⟨rfl, hu⟩ := Prod.mk.inj hstep
      cases hu
      exact .makeDir hrow (.refl hs₀)
    · simp only [Task.step, hc] at hstep
      obtain ⟨rfl, hu⟩ := Prod.mk.inj hstep
      cases hu
      refine .makeDir hrow ?_
      split_ifs
      · exact hcreated.setTmp_none _
      · exact (SameChunks.refl hs₀).setTmp_none _
    · simp only [Task.step, hc] at hstep
      split_ifs at hstep
      · obtain ⟨rfl, hu⟩ := Prod.mk.inj hstep
        cases hu
        exact .makeDir hrow (.refl hs₀)
      · obtain ⟨rfl, hu⟩ := Prod.mk.inj hstep
        cases hu
        obtain ⟨hwritten, hnew⟩ :=
          hcreated.writeAt htmp (show _ = bytes.take 0 from hempty) (Nat.zero_le _) bytes.length
        rw [List.drop_zero, List.take_length, Nat.zero_add, List.take_length] at hnew
        rw [List.drop_zero, List.take_length] at hwritten
        exact .commit hrow hwritten htmp hnew
  | makeDir hrow hs =>
    simp only [Task.step] at hstep
    split_ifs at hstep
    · simp at hstep
    · obtain ⟨rfl, hu⟩ := Prod.mk.inj hstep
      cases hu
      exact .create hrow hs
  | create hrow hs =>
    simp only [Task.step] at hstep
    split_ifs at hstep
    · simp at hstep
    · obtain ⟨rfl, hu⟩ := Prod.mk.inj hstep
      cases hu
      obtain ⟨hfiles, htmp, -, hblob, hrows, hempty, -, hcontent⟩ :=
        createTmp_spec hs.files (hashOf bytes)
      exact .write hrow (hs.trans (.of_blob hfiles hrows hblob hcontent)) htmp (Nat.zero_le _)
        hempty
  | @write s file off hrow hs htmp hoff hbytes =>
    simp only [Task.step] at hstep
    split_ifs at hstep with hf hlt
    · simp at hstep
    · obtain ⟨rfl, hu⟩ := Prod.mk.inj hstep
      cases hu
      obtain ⟨hwritten, hnew⟩ := hs.writeAt htmp hbytes hoff (max c.piece 1)
      refine .write hrow hwritten htmp ?_ hnew
      rw [List.length_take, List.length_drop]
      omega
    · obtain ⟨rfl, hu⟩ := Prod.mk.inj hstep
      cases hu
      rw [List.take_of_length_le (Nat.le_of_not_lt hlt)] at hbytes
      exact .commit hrow hs htmp hbytes
  | commit hrow hs htmp hbytes =>
    simp only [Task.step] at hstep
    split_ifs at hstep
    · obtain ⟨rfl, hu⟩ := Prod.mk.inj hstep
      cases hu
      exact .discard hs
    · have hrow' : s.rows (hashOf bytes) = none := by rw [hs.rows, hrow]
      rw [hrow'] at hstep
      obtain ⟨rfl, hu⟩ := Prod.mk.inj hstep
      cases hu
      exact .rename hrow hs htmp hbytes
  | rename hrow hs htmp hbytes =>
    simp only [Task.step] at hstep
    split_ifs at hstep
    · simp at hstep
    · split at hstep <;> simp at hstep
  | discard hs => simp [Task.step] at hstep

omit [DecidableEq H] in
lemma chunk_put_of_none (hrow : s.rows h = none) :
    (s.chunk h).put bytes now = ⟨some ⟨bytes.length, 1, now, now⟩, some bytes⟩ := by
  simp [Chunk.put, Store.chunk, hrow]

lemma chunk_setRow (key : H) (row : Option ChunkRefInfo) (h : H) :
    (s.setRow key row).chunk h = if key = h then { s.chunk h with row := row } else s.chunk h := by
  by_cases hk : key = h
  · subst hk
    simp [Store.chunk, Store.setRow]
  · simp [Store.chunk, Store.setRow, hk, Ne.symm hk]

/-- A `put` on its way has changed no chunk, but for the row that it writes before its rename. -/
lemma Midway.chunk (hs₀ : s₀.FilesApart) (h : Midway hashOf bytes now s₀ s t) : s.FilesApart ∧
    ((t = .rename (hashOf bytes) ∧ s₀.rows (hashOf bytes) = none ∧
        ∀ k, s.chunk k = if hashOf bytes = k then
          { s₀.chunk k with row := some ⟨bytes.length, 1, now, now⟩ } else s₀.chunk k) ∨
      (t ≠ .rename (hashOf bytes) ∧ ∀ k, s.chunk k = s₀.chunk k)) := by
  cases h with
  | probe => exact ⟨hs₀, .inr ⟨by simp, fun _ => rfl⟩⟩
  | clone hrow => exact ⟨hs₀, .inr ⟨by simp, fun _ => rfl⟩⟩
  | makeDir hrow hs => exact ⟨hs.files, .inr ⟨by simp, hs.chunk⟩⟩
  | create hrow hs => exact ⟨hs.files, .inr ⟨by simp, hs.chunk⟩⟩
  | write hrow hs htmp hoff hbytes => exact ⟨hs.files, .inr ⟨by simp, hs.chunk⟩⟩
  | commit hrow hs htmp hbytes => exact ⟨hs.files, .inr ⟨by simp, hs.chunk⟩⟩
  | rename hrow hs htmp hbytes =>
    refine ⟨(sameFiles_setRow _ _).filesApart hs.files, .inl ⟨rfl, hrow, fun k => ?_⟩⟩
    rw [chunk_setRow, hs.chunk]
  | discard hs => exact ⟨hs.files, .inr ⟨by simp, hs.chunk⟩⟩

/-- The last step of a `put`: it succeeds and the chunk has the bytes, or it fails and the chunks
stay as they are. -/
lemma Midway.last (hs₀ : s₀.FilesApart) (h : Midway hashOf bytes now s₀ s t)
    (hstep : Task.step hashOf c s t = (s', .finished o)) : s'.FilesApart ∧
      ((o = .put (hashOf bytes) (.ok ()) false ∧ ∀ k, s'.chunk k =
          if hashOf bytes = k then (s₀.chunk k).put bytes now else s₀.chunk k) ∨
        ((∃ e, o = .put (hashOf bytes) (.error e) true) ∧
          (c.fault = true ∨ t = .discard (hashOf bytes)) ∧ ∀ k, s'.chunk k = s.chunk k)) := by
  have hfiles := (h.chunk hs₀).1
  cases h with
  | probe =>
    cases hrow : s.rows (hashOf bytes) with
    | none =>
      simp only [Task.step, hrow] at hstep
      split_ifs at hstep
      · obtain ⟨rfl, ho⟩ := Prod.mk.inj hstep
        cases ho
        exact ⟨hfiles, .inr ⟨⟨_, rfl⟩, .inl ‹_›, fun _ => rfl⟩⟩
      · simp at hstep
    | some info =>
      simp only [Task.step, hrow] at hstep
      split_ifs at hstep with hf hl
      · obtain ⟨rfl, ho⟩ := Prod.mk.inj hstep
        cases ho
        exact ⟨(sameFiles_forget _).filesApart hfiles, .inr ⟨⟨_, rfl⟩, .inl ‹_›, fun _ => rfl⟩⟩
      · obtain ⟨rfl, ho⟩ := Prod.mk.inj hstep
        cases ho
        exact ⟨hfiles, .inr ⟨⟨_, rfl⟩, .inl ‹_›, fun _ => rfl⟩⟩
      · obtain ⟨rfl, ho⟩ := Prod.mk.inj hstep
        cases ho
        refine ⟨(sameFiles_setRow _ _).filesApart ((sameFiles_forget _).filesApart hfiles),
          .inl ⟨rfl, fun k => ?_⟩⟩
        rw [chunk_setRow]
        by_cases hk : hashOf bytes = k
        · subst hk
          simp [Chunk.put, Store.chunk, hrow, Store.forget]
        · rw [if_neg hk, if_neg hk]
          rfl
  | clone hrow =>
    rcases hc : c.cloned with _ | _ | _
    · simp [Task.step, hc] at hstep
    · simp [Task.step, hc] at hstep
    · simp only [Task.step, hc] at hstep
      split_ifs at hstep <;> simp at hstep
  | makeDir hrow hs =>
    simp only [Task.step] at hstep
    split_ifs at hstep
    · obtain ⟨rfl, ho⟩ := Prod.mk.inj hstep
      cases ho
      exact ⟨hfiles, .inr ⟨⟨_, rfl⟩, .inl ‹_›, fun _ => rfl⟩⟩
    · simp at hstep
  | create hrow hs =>
    simp only [Task.step] at hstep
    split_ifs at hstep
    · obtain ⟨rfl, ho⟩ := Prod.mk.inj hstep
      cases ho
      exact ⟨hfiles, .inr ⟨⟨_, rfl⟩, .inl ‹_›, fun _ => rfl⟩⟩
    · simp at hstep
  | write hrow hs htmp hoff hbytes =>
    simp only [Task.step] at hstep
    split_ifs at hstep
    · obtain ⟨rfl, ho⟩ := Prod.mk.inj hstep
      cases ho
      exact ⟨hfiles, .inr ⟨⟨_, rfl⟩, .inl ‹_›, fun _ => rfl⟩⟩
    · simp at hstep
    · simp at hstep
  | commit hrow hs htmp hbytes =>
    simp only [Task.step] at hstep
    split_ifs at hstep <;> simp at hstep
  | @rename s file hrow hs htmp hbytes =>
    simp only [Task.step] at hstep
    split_ifs at hstep
    · obtain ⟨rfl, ho⟩ := Prod.mk.inj hstep
      cases ho
      exact ⟨hfiles, .inr ⟨⟨_, rfl⟩, .inl ‹_›, fun _ => rfl⟩⟩
    · have htmp' : (s.setRow (hashOf bytes) (some ⟨bytes.length, 1, now, now⟩)).tmp (hashOf bytes) =
          some file := htmp
      rw [htmp'] at hstep
      obtain ⟨rfl, ho⟩ := Prod.mk.inj hstep
      cases ho
      refine ⟨filesApart_rename hfiles htmp', .inl ⟨rfl, fun k => ?_⟩⟩
      by_cases hk : hashOf bytes = k
      · subst hk
        rw [if_pos rfl, chunk_put_of_none hrow]
        simp [Store.chunk, Store.setRow, Store.setBlob, Store.setTmp, hbytes]
      · rw [if_neg hk, ← hs.chunk]
        simp [Store.chunk, Store.setRow, Store.setBlob, Store.setTmp, Ne.symm hk]
  | discard hs =>
    simp only [Task.step] at hstep
    obtain ⟨rfl, ho⟩ := Prod.mk.inj hstep
    cases ho
    refine ⟨?_, .inr ⟨⟨_, rfl⟩, .inr rfl, fun k => ?_⟩⟩
    · split_ifs
      · exact hfiles
      · exact filesApart_setTmp_none hfiles _
    · split_ifs <;> rfl

/-- A `put` that returns `Ok` has stored its bytes. -/
lemma chunk_of_ok {hindered : Bool} (hs₀ : s₀.FilesApart)
    (h : Completes (Task.step hashOf) (fun _ => True) s₀ (Call.enter hashOf (.put bytes now)) s'
      (.put key (.ok ()) hindered)) : s'.FilesApart ∧
    ∀ k, s'.chunk k = (Update.put bytes now).apply hashOf k (s₀.chunk k) := by
  refine h.elim (Midway hashOf bytes now s₀) (fun s' o => o = .put key (.ok ()) hindered → s'.FilesApart ∧
      ∀ k, s'.chunk k = (Update.put bytes now).apply hashOf k (s₀.chunk k)) ?_ ?_ .probe rfl
  · intro c s t s' u hs _ hstep
    exact hs.step hs₀ hstep
  · rintro c s t s' o hs - hstep rfl
    obtain ⟨hfiles, ⟨-, hchunk⟩ | ⟨⟨e, he⟩, -⟩⟩ := hs.last hs₀ hstep
    · exact ⟨hfiles, hchunk⟩
    · simp at he

/-- Only a `put` whose commit failed cleans up. -/
lemma fault_of_discard (h : Midway hashOf bytes now s₀ s t)
    (hstep : Task.step hashOf c s t = (s', .running (.discard key))) : c.fault = true := by
  by_contra hf
  cases h with
  | probe =>
    cases hrow : s.rows (hashOf bytes) <;> simp [Task.step, hf, hrow] at hstep
  | clone =>
    rcases hc : c.cloned with _ | _ | _
    · simp [Task.step, hc] at hstep
    · simp [Task.step, hc] at hstep
    · by_cases hnil : bytes = [] <;> simp [Task.step, hc, hnil] at hstep
  | @write s file off =>
    by_cases hlt : off < bytes.length <;> simp [Task.step, hf, hlt] at hstep
  | @rename s file _ _ htmp => simp [Task.step, hf, Store.setRow, htmp] at hstep
  | _ => simp [Task.step, hf] at hstep

/-- A `put` without I/O fault stores its bytes. -/
lemma chunk_of_put (hs₀ : s₀.FilesApart)
    (h : Completes (Task.step hashOf) Choice.Sound s₀ (Call.enter hashOf (.put bytes now)) s' o) :
    s'.FilesApart ∧ ∀ k, s'.chunk k = (Update.put bytes now).apply hashOf k (s₀.chunk k) := by
  refine h.elim (fun s t => Midway hashOf bytes now s₀ s t ∧ t ≠ .discard (hashOf bytes))
    (fun s' _ => s'.FilesApart ∧
      ∀ k, s'.chunk k = (Update.put bytes now).apply hashOf k (s₀.chunk k)) ?_ ?_
    ⟨.probe, by simp [Call.enter]⟩
  · rintro c s t s' u ⟨hs, ht⟩ hsound hstep
    refine ⟨hs.step hs₀ hstep, ?_⟩
    rintro rfl
    exact Bool.false_ne_true (hsound.symm.trans (fault_of_discard hs hstep))
  · rintro c s t s' o ⟨hs, ht⟩ hsound hstep
    have hf : c.fault = false := hsound
    obtain ⟨hfiles, ⟨-, hchunk⟩ | ⟨-, hfault | hdiscard, -⟩⟩ := hs.last hs₀ hstep
    · exact ⟨hfiles, hchunk⟩
    · simp [hf] at hfault
    · exact absurd hdiscard ht

/-! ### Calls alone -/

/-- Where a `release` alone on `s₀` stands. -/
inductive Releasing (key : H) (s₀ : Store H) : Store H → Task H → Prop
  | release : Releasing key s₀ s₀ (.release key)
  | unlink {info : ChunkRefInfo} (hrow : s₀.rows key = some info) (hn : info.refcount ≠ 0)
      (hlast : info.refcount - 1 = 0) : Releasing key s₀ (s₀.setRow key none) (.unlink key)

/-- A `release` without I/O fault. -/
lemma chunk_of_release (hs₀ : s₀.FilesApart)
    (h : Completes (Task.step hashOf) Choice.Sound s₀ (Call.enter hashOf (.release key)) s' o) :
    s'.FilesApart ∧ ∀ k, s'.chunk k = (Update.release key).apply hashOf k (s₀.chunk k) := by
  refine h.elim (Releasing key s₀) (fun s' _ => s'.FilesApart ∧
      ∀ k, s'.chunk k = (Update.release key).apply hashOf k (s₀.chunk k)) ?_ ?_ .release
  · intro c s t s' u hs hsound hstep
    have hf : c.fault = false := hsound
    cases hs with
    | unlink => simp [Task.step] at hstep
    | release =>
      cases hrow : s₀.rows key with
      | none => simp [Task.step, hf, hrow] at hstep
      | some info =>
        simp only [Task.step, hf, hrow, Bool.false_eq_true, if_false] at hstep
        split_ifs at hstep with hn hlast
        · simp at hstep
        · obtain ⟨rfl, hu⟩ := Prod.mk.inj hstep
          cases hu
          exact .unlink hrow hn hlast
        · simp at hstep
  · intro c s t s' o hs hsound hstep
    have hf : c.fault = false := hsound
    cases hs with
    | unlink hrow hn hlast =>
      simp only [Task.step, hf, Bool.false_eq_true, if_false] at hstep
      obtain ⟨rfl, -⟩ := Prod.mk.inj hstep
      refine ⟨filesApart_setBlob_none ((sameFiles_setRow _ _).filesApart hs₀) key, fun k => ?_⟩
      by_cases hk : key = k
      · subst hk
        simp [Update.apply, Chunk.release, Store.chunk, hrow, hn, hlast, Store.setBlob, Store.setRow]
      · simp [Update.apply, Store.chunk, hk, Ne.symm hk, Store.setBlob, Store.setRow]
    | release =>
      cases hrow : s₀.rows key with
      | none =>
        simp only [Task.step, hf, hrow, Bool.false_eq_true, if_false] at hstep
        obtain ⟨rfl, -⟩ := Prod.mk.inj hstep
        refine ⟨hs₀, fun k => ?_⟩
        by_cases hk : key = k
        · subst hk
          simp [Update.apply, Chunk.release, Store.chunk, hrow]
        · rw [Update.apply, if_neg hk]
      | some info =>
        simp only [Task.step, hf, hrow, Bool.false_eq_true, if_false] at hstep
        split_ifs at hstep with hn hlast
        · obtain ⟨rfl, -⟩ := Prod.mk.inj hstep
          refine ⟨hs₀, fun k => ?_⟩
          by_cases hk : key = k
          · subst hk
            simp [Update.apply, Chunk.release, Store.chunk, hrow, hn]
          · rw [Update.apply, if_neg hk]
        · simp at hstep
        · obtain ⟨rfl, -⟩ := Prod.mk.inj hstep
          refine ⟨(sameFiles_setRow _ _).filesApart hs₀, fun k => ?_⟩
          rw [chunk_setRow, Update.apply]
          by_cases hk : key = k
          · subst hk
            simp [Chunk.release, Store.chunk, hrow, hn, hlast]
          · rw [if_neg hk, if_neg hk]

/-- Calls that run to their ends change the chunks as they should. -/
lemma Serves.chunk {us : List (Update H)} (h : Serves hashOf s us s') (hs : s.FilesApart) :
    s'.FilesApart ∧
      ∀ k, s'.chunk k = us.foldl (fun x u => u.apply hashOf k x) (s.chunk k) := by
  induction h with
  | nil s => exact ⟨hs, fun _ => rfl⟩
  | @cons s₁ s₂ s₃ u us o hcall _ ih =>
    have hone : s₂.FilesApart ∧ ∀ k, s₂.chunk k = u.apply hashOf k (s₁.chunk k) := by
      cases u with
      | put bytes now => exact chunk_of_put hs hcall
      | release key => exact chunk_of_release hs hcall
    obtain ⟨hfiles, hchunk⟩ := ih hone.1
    refine ⟨hfiles, fun k => ?_⟩
    rw [hchunk, hone.2, List.foldl_cons]

/-- What a `put` leaves behind that is cut off. -/
lemma CutOff.chunk (h : CutOff hashOf bytes now s t s') (hs : s.FilesApart) : s'.FilesApart ∧
    ((t = .rename (hashOf bytes) ∧ s.rows (hashOf bytes) = none ∧
        ∀ k, s'.chunk k = if hashOf bytes = k then
          { s.chunk k with row := some ⟨bytes.length, 1, now, now⟩ } else s.chunk k) ∨
      (t ≠ .rename (hashOf bytes) ∧ ∀ k, s'.chunk k = s.chunk k)) := by
  have hmid : ∀ {s₁ t}, Reaches (Task.step hashOf) (fun _ => True) s
      (Call.enter hashOf (.put bytes now)) s₁ t → Midway hashOf bytes now s s₁ t :=
    fun hreach => hreach.invariant _ (fun _ _ _ _ _ hm _ hstep => hm.step hs hstep) .probe
  cases h with
  | crash hreach =>
    obtain ⟨hfiles, hchunk⟩ := (hmid hreach).chunk hs
    exact ⟨⟨hfiles.tmp_lt, hfiles.blob_lt, hfiles.tmp_inj, hfiles.tmp_ne_blob⟩, hchunk⟩
  | fail hreach hstep =>
    obtain ⟨-, hchunk⟩ := (hmid hreach).chunk hs
    obtain ⟨hfiles, ⟨ho, -⟩ | ⟨-, -, hsame⟩⟩ := (hmid hreach).last hs hstep
    · simp at ho
    · simp only [hsame]
      exact ⟨hfiles, hchunk⟩

/-! ### Chunks under later calls -/

lemma saturatingSucc_ne_zero {n : U64} (hn : n ≠ 0) : saturatingSucc n ≠ 0 := by
  rw [saturatingSucc, U64.succ?]
  split_ifs
  · exact fun h => Nat.succ_ne_zero n.val (congrArg Fin.val h)
  · exact hn

namespace Chunk

variable {x : Chunk} {n : U64} {u : Update H}

/-- A chunk that is whole stays whole. -/
lemma Whole.apply (hx : x.Whole bytes) (hu : u.Puts hashOf bytes h) :
    (u.apply hashOf h x).Whole bytes := by
  obtain ⟨stored, bare⟩ := hx
  cases u with
  | put bytes' now =>
    by_cases hk : hashOf bytes' = h
    · obtain rfl := hu hk
      cases hrow : x.row with
      | none => constructor <;> simp [Update.apply, hk, Chunk.put, hrow]
      | some info =>
        have hblob := stored (by simp [hrow])
        constructor <;> simp [Update.apply, hk, Chunk.put, hrow, hblob]
    · simpa [Update.apply, hk] using Whole.mk stored bare
  | release key =>
    by_cases hk : key = h
    · cases hrow : x.row with
      | none => simpa [Update.apply, hk, release, hrow] using Whole.mk stored bare
      | some info =>
        have hblob := stored (by simp [hrow])
        by_cases hn : info.refcount = 0
        · simpa [Update.apply, hk, release, hrow, hn] using Whole.mk stored bare
        · by_cases hlast : info.refcount - 1 = 0
          · constructor <;> simp [Update.apply, hk, release, hrow, hn, hlast]
          · constructor <;> simp [Update.apply, hk, release, hrow, hn, hlast, hblob]
    · simpa [Update.apply, hk] using Whole.mk stored bare

/-- A chunk without blob stays so until its references reach zero. -/
lemma Lost.apply (hx : x.Lost n) (hn : n ≠ 0) (hashOf : Bytes → H) (h : H) (u : Update H)
    (bytes : Bytes) :
    (u.references hashOf h n ≠ 0 → (u.apply hashOf h x).Lost (u.references hashOf h n)) ∧
      (u.references hashOf h n = 0 → (u.apply hashOf h x).Whole bytes) := by
  obtain ⟨⟨info, hrow, rfl⟩, hblob⟩ := hx
  cases u with
  | put bytes' now =>
    by_cases hk : hashOf bytes' = h
    · simp only [Update.references, Update.apply, if_pos hk]
      refine ⟨fun _ => ⟨⟨info.bump now, ?_, rfl⟩, ?_⟩, fun h0 => absurd h0 (saturatingSucc_ne_zero hn)⟩
      · simp [Chunk.put, hrow]
      · simpa [Chunk.put, hrow] using hblob
    · simp only [Update.references, Update.apply, if_neg hk]
      exact ⟨fun _ => ⟨⟨info, hrow, rfl⟩, hblob⟩, fun h0 => absurd h0 hn⟩
  | release key =>
    by_cases hk : key = h
    · simp only [Update.references, Update.apply, if_pos hk]
      refine ⟨fun hlast => ⟨⟨{ info with refcount := info.refcount - 1 }, ?_, rfl⟩, ?_⟩,
        fun hlast => ?_⟩
      · simp [release, hrow, hn, hlast]
      · simpa [release, hrow, hn, hlast] using hblob
      · constructor <;> simp [release, hrow, hn, hlast]
    · simp only [Update.references, Update.apply, if_neg hk]
      exact ⟨fun _ => ⟨⟨info, hrow, rfl⟩, hblob⟩, fun h0 => absurd h0 hn⟩

/-- A chunk that is whole stays whole under later calls. -/
lemma Whole.foldl {us : List (Update H)} (hx : x.Whole bytes)
    (hus : ∀ u ∈ us, u.Puts hashOf bytes h) :
    (us.foldl (fun x u => u.apply hashOf h x) x).Whole bytes := by
  induction us generalizing x with
  | nil => exact hx
  | cons u us ih =>
    obtain ⟨hu, hus⟩ := List.forall_mem_cons.mp hus
    exact ih (hx.apply hu) hus

/-- A chunk without blob is whole again exactly if its references reach zero. -/
lemma Lost.foldl {us : List (Update H)} (hx : x.Lost n) (hn : n ≠ 0)
    (hus : ∀ u ∈ us, u.Puts hashOf bytes h) :
    (Drains hashOf h n us → (us.foldl (fun x u => u.apply hashOf h x) x).Whole bytes) ∧
      (¬ Drains hashOf h n us → ∃ m, (us.foldl (fun x u => u.apply hashOf h x) x).Lost m) := by
  induction us generalizing x n with
  | nil => exact ⟨fun h0 => absurd h0 hn, fun _ => ⟨n, hx⟩⟩
  | cons u us ih =>
    obtain ⟨hu, hus⟩ := List.forall_mem_cons.mp hus
    obtain ⟨hlost, hwhole⟩ := hx.apply hn hashOf h u bytes
    by_cases h0 : u.references hashOf h n = 0
    · refine ⟨fun _ => (hwhole h0).foldl hus, fun hdrains => absurd ?_ hdrains⟩
      cases us with
      | nil => exact .inr h0
      | cons => exact .inr (.inl h0)
    · obtain ⟨hdrained, hnot⟩ := ih (hlost h0) h0 hus
      refine ⟨fun hdrains => hdrained (hdrains.resolve_left hn), fun hdrains => hnot fun hrest => ?_⟩
      exact hdrains (.inr hrest)

end Chunk

/-! ### The later `put` and `get` -/

omit [DecidableEq H] in
lemma sound_default : Choice.Sound ({} : Choice H) := rfl

/-- Where a `get` alone stands that finds the bytes. -/
inductive Getting (h : H) (bytes : Bytes) (s : Store H) : Store H → Task H → Prop
  | lookup : Getting h bytes s s (.lookup h)
  | read : Getting h bytes s s (.read h)
  | flush (s' : Store H) (batch : List (H × Instant)) : Getting h bytes s s' (.flush h bytes batch)

/-- A `get` of a chunk with its blob returns the bytes. -/
lemma reads_of_blob (hrow : (s.rows (hashOf bytes)).isSome)
    (hblob : (s.chunk (hashOf bytes)).blob = some bytes) : Reads hashOf s (hashOf bytes) bytes := by
  obtain ⟨file, hfile, hbytes⟩ := Option.map_eq_some_iff.mp hblob
  have hnone : (s.rows (hashOf bytes)).isNone = false := by simpa using hrow
  have hread : ∀ c : Choice H, c.fault = false → Task.step hashOf c s (.read (hashOf bytes)) =
      if (s.touch (hashOf bytes) c.now).pending.length ≥ accessFlushThreshold then
        ({ s.touch (hashOf bytes) c.now with pending := [] },
          .running (.flush (hashOf bytes) bytes (s.touch (hashOf bytes) c.now).pending))
      else (s.touch (hashOf bytes) c.now, .finished (.get (hashOf bytes) (.ok bytes))) := by
    intro c hf
    simp only [Task.step, hf, hfile, hbytes]
    simp
  constructor
  · have hlookup : Task.step hashOf {} s (.lookup (hashOf bytes)) =
        (s, .running (.read (hashOf bytes))) := by simp [Task.step, hnone]
    by_cases hfull : (s.touch (hashOf bytes) 0).pending.length ≥ accessFlushThreshold
    · exact ⟨_, .head _ sound_default hlookup (.head _ sound_default ((hread {} rfl).trans
        (if_pos hfull)) (.last _ sound_default rfl))⟩
    · exact ⟨_, .head _ sound_default hlookup (.last _ sound_default ((hread {} rfl).trans
        (if_neg hfull)))⟩
  · intro s' o h
    refine h.elim (Getting (hashOf bytes) bytes s)
      (fun _ o => o = .get (hashOf bytes) (.ok bytes)) ?_ ?_ .lookup
    · intro c s₁ t s₂ u hs hsound hstep
      have hf : c.fault = false := hsound
      cases hs with
      | lookup =>
        simp only [Task.step, hf, hnone] at hstep
        obtain ⟨rfl, hu⟩ := Prod.mk.inj hstep
        cases hu
        exact .read
      | read =>
        rw [hread c hf] at hstep
        split_ifs at hstep
        · obtain ⟨rfl, hu⟩ := Prod.mk.inj hstep
          cases hu
          exact .flush _ _
        · simp at hstep
      | flush => simp [Task.step] at hstep
    · intro c s₁ t s₂ o hs hsound hstep
      have hf : c.fault = false := hsound
      cases hs with
      | lookup => simp [Task.step, hf, hnone] at hstep
      | read =>
        rw [hread c hf] at hstep
        split_ifs at hstep
        · simp at hstep
        · obtain ⟨-, ho⟩ := Prod.mk.inj hstep
          cases ho
          rfl
      | flush =>
        obtain ⟨-, ho⟩ := Prod.mk.inj hstep
        cases ho
        rfl

/-- A chunk that is whole is repaired. -/
lemma repairs_of_whole (hs : s.FilesApart) (hx : (s.chunk (hashOf bytes)).Whole bytes) :
    Repairs hashOf s bytes := by
  intro now s' hindered hput
  obtain ⟨-, hchunk⟩ := chunk_of_ok hs hput
  have hx' : (s'.chunk (hashOf bytes)).Whole bytes := by
    rw [hchunk]
    exact hx.apply fun _ => rfl
  have hrow : (s'.chunk (hashOf bytes)).row.isSome := by
    rw [hchunk, Update.apply, if_pos rfl, Chunk.put]
    cases (s.chunk (hashOf bytes)).row <;> rfl
  exact reads_of_blob hrow (hx'.stored hrow)

/-- A `get` of a chunk with a row but no blob fails. -/
lemma not_reads_of_bare (hrow : (s.rows h).isSome) (hblob : s.blob h = none) :
    ¬ Reads hashOf s h bytes := by
  intro hreads
  have hnone : (s.rows h).isNone = false := by simpa using hrow
  have hlookup : Task.step hashOf {} s (.lookup h) = (s, .running (.read h)) := by
    simp [Task.step, hnone]
  have hread : Task.step hashOf {} s (.read h) = (s, .finished (.get h (.error .io))) := by
    simp [Task.step, hblob]
  have hget := hreads.2 _ _ (.head _ sound_default hlookup (.last _ sound_default hread))
  simp at hget

/-- A chunk whose row has no blob is not repaired: a `put` finds the row. -/
lemma not_repairs_of_lost {n : U64} (hx : (s.chunk (hashOf bytes)).Lost n) :
    ¬ Repairs hashOf s bytes := by
  obtain ⟨⟨info, hrow, -⟩, hblob⟩ := hx
  have hrow : s.rows (hashOf bytes) = some info := hrow
  have hput : Task.step hashOf {} s (.probe (hashOf bytes) bytes 0) =
      ((s.forget (hashOf bytes)).setRow (hashOf bytes) (some (info.bump 0)),
        .finished (.put (hashOf bytes) (.ok ()) false)) := by simp [Task.step, hrow]
  intro hrepairs
  refine not_reads_of_bare ?_ ?_ (hrepairs 0 _ false (.last _ trivial hput))
  · simp [Store.setRow]
  · exact Option.map_eq_none_iff.mp hblob

/-! ### Repair -/

omit [DecidableEq H] in
lemma filesApart_empty : (Store.empty : Store H).FilesApart := by
  constructor
  all_goals simp [Store.empty]

/-- After one `put` of the bytes was cut off among calls that run to their ends, a later `put` of
them repairs the chunk, unless it was cut off at the rename and its references never reached zero
since. Nothing else with the same hash is put. -/
theorem repairs_iff {before after : List (Update H)}
    (hputs : ∀ u ∈ before ++ after, u.Puts hashOf bytes (hashOf bytes))
    (hbefore : Serves hashOf Store.empty before s₁) (hcut : CutOff hashOf bytes now s₁ t s₂)
    (hafter : Serves hashOf s₂ after s₃) :
    Repairs hashOf s₃ bytes ↔
      (t = .rename (hashOf bytes) → Drains hashOf (hashOf bytes) 1 after) := by
  have hputs₁ := fun u hu => hputs u (List.mem_append_left after hu)
  have hputs₂ := fun u hu => hputs u (List.mem_append_right before hu)
  obtain ⟨hfiles₁, hchunk₁⟩ := hbefore.chunk filesApart_empty
  have hwhole₁ : (s₁.chunk (hashOf bytes)).Whole bytes := by
    rw [hchunk₁]
    exact Chunk.Whole.foldl ⟨by simp [Store.chunk, Store.empty], fun _ => rfl⟩ hputs₁
  obtain ⟨hfiles₂, hcase⟩ := hcut.chunk hfiles₁
  obtain ⟨hfiles₃, hchunk₃⟩ := hafter.chunk hfiles₂
  rcases hcase with ⟨ht, hrow, hchunk₂⟩ | ⟨ht, hchunk₂⟩
  · have hlost : (s₂.chunk (hashOf bytes)).Lost 1 := by
      rw [hchunk₂, if_pos rfl]
      exact ⟨⟨_, rfl, rfl⟩, hwhole₁.bare hrow⟩
    obtain ⟨hdrained, hnot⟩ := hlost.foldl (by decide) hputs₂
    rw [← hchunk₃] at hdrained hnot
    constructor
    · intro hrepairs _
      by_contra hdrains
      obtain ⟨m, hm⟩ := hnot hdrains
      exact not_repairs_of_lost hm hrepairs
    · exact fun hdrains => repairs_of_whole hfiles₃ (hdrained (hdrains ht))
  · refine ⟨fun _ hrename => absurd hrename ht, fun _ => repairs_of_whole hfiles₃ ?_⟩
    rw [hchunk₃]
    refine Chunk.Whole.foldl ?_ hputs₂
    rwa [hchunk₂]

/-- A `put` that died while it wrote its temporary file, with the bytes as their own hash. -/
theorem repairs_cut_write : ∃ s : Store Bytes,
    CutOff id [7] 0 Store.empty (.write [7] [7] 0 0 0) s ∧ Repairs id s [7] := by
  have hcut : CutOff id [7] 0 (Store.empty : Store Bytes) (.write [7] [7] 0 0 0) _ :=
    .crash (.head {} trivial rfl (.head {} trivial rfl (.head {} trivial rfl
      (.head {} trivial rfl .refl))))
  refine ⟨_, hcut, (repairs_iff ?_ (.nil _) hcut (.nil _)).mpr ?_⟩
  · simp
  · simp

/-- A `put` that died before its rename: the next one returns `Ok`, but `get` fails. -/
theorem not_repairs_cut_rename : ∃ s₁ s₂ s₃ : Store Bytes, Serves id Store.empty [] s₁ ∧
    CutOff id [7] 0 s₁ (.rename [7]) s₂ ∧ Serves id s₂ [] s₃ ∧ ¬ Repairs id s₃ [7] := by
  have hcut : CutOff id [7] 0 (Store.empty : Store Bytes) (.rename [7]) _ :=
    .crash (.head {} trivial rfl (.head {} trivial rfl (.head {} trivial rfl
      (.head {} trivial rfl (.head {} trivial rfl (.head {} trivial rfl
        (.head {} trivial rfl .refl)))))))
  refine ⟨_, _, _, .nil _, hcut, .nil _, not_repairs_of_lost (n := 1) ⟨⟨_, rfl, rfl⟩, rfl⟩⟩

end Orchid.Content
