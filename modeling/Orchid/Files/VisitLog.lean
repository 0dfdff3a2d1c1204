import Mathlib.Data.List.Perm.Basic
import Orchid.Base.Machine
import Orchid.Lib.Reordering

/-!
# The visit log of the file manager

`builtin/file_manager/visit_log.rs`: how often and how recently folders were visited, and the menu
that is made of it. The log holds the folders that were visited last, whatever was visited before.
-/

namespace Orchid.Files

open Lib

/-- `PathVisit` -/
structure PathVisit where
  path : Text
  visitCount : ℕ
  lastSeq : ℕ

/-- `VisitLog` -/
structure VisitLog where
  entries : List PathVisit
  seq : ℕ

namespace VisitLog

/-- `MAX_ENTRIES` -/
def maxEntries : ℕ := 40

/-- `FREQUENT_COUNT` -/
def frequentCount : ℕ := 5

/-- `VisitMenuItem` -/
structure MenuItem where
  path : Text
  frequent : Bool
  isHeader : Bool

/-- A later visit comes first. -/
def notBefore (a b : PathVisit) : Bool := decide (b.lastSeq ≤ a.lastSeq)

/-- A folder that was visited more often comes first, and a later visit among equals. -/
def notRarer (a b : PathVisit) : Bool :=
  decide (b.visitCount < a.visitCount) ||
    (decide (a.visitCount = b.visitCount) && decide (b.lastSeq ≤ a.lastSeq))

/-- `default` -/
def empty : VisitLog := ⟨[], 0⟩

/-- `from_entries` -/
def fromEntries (entries : List PathVisit) : VisitLog :=
  ⟨entries, (entries.map PathVisit.lastSeq).max?.getD 0⟩

/-- `u64::saturating_add` of one. -/
def nextSeq (seq : ℕ) : ℕ := min (seq + 1) (2 ^ 64 - 1)

/-- The visit of a folder that may be in the log. -/
def bump (path : Text) (seq : ℕ) : List PathVisit → List PathVisit
  | [] => [⟨path, 1, seq⟩]
  | e :: entries =>
    if e.path = path then
      { e with visitCount := min (e.visitCount + 1) (2 ^ 32 - 1), lastSeq := seq } :: entries
    else e :: bump path seq entries

/-- `evict` -/
def evict (entries : List PathVisit) : List PathVisit :=
  if entries.length ≤ maxEntries then entries
  else (entries.mergeSort notBefore).take maxEntries

variable (log : VisitLog)

/-- `record` -/
def record (path : Text) : VisitLog :=
  if path = [] then log
  else ⟨evict (bump path (nextSeq log.seq) log.entries), nextSeq log.seq⟩

/-- The frequent part of `menu_items`. -/
def frequent : List PathVisit := (log.entries.mergeSort notRarer).take frequentCount

/-- A part of the menu under its header. -/
def under (frequent : Bool) (part : List PathVisit) : List MenuItem :=
  if part = [] then [] else ⟨[], frequent, true⟩ :: part.map fun e => ⟨e.path, frequent, false⟩

/-- What happens to a log: a folder is visited, or the log is saved and restored. -/
inductive Use where
  | visit (path : Text)
  | restore

/-- The log after a use. -/
def afterUse (log : VisitLog) : Use → VisitLog
  | .visit path => log.record path
  | .restore => fromEntries log.entries

/-- A list of folders after a use: the folder that is visited comes to the front. -/
def useFolders (folders : List Text) : Use → List Text
  | .visit path => if path = [] then folders else touch path folders
  | .restore => folders

/-- The folders of a run, the one that was visited last in front. -/
def lastVisited (uses : List Use) : List Text := uses.foldl useFolders []

/-- The entries, sorted, are the first ones of a list of folders by their last visits. -/
structure Shows (log : VisitLog) (folders : List Text) : Prop where
  sorted : ∃ l : List PathVisit, l.Perm log.entries ∧
    (l.Pairwise fun a b => b.lastSeq < a.lastSeq) ∧
    l.map PathVisit.path = folders.take maxEntries
  bound : ∀ e ∈ log.entries, e.lastSeq ≤ log.seq
  latest : (∃ e ∈ log.entries, e.lastSeq = log.seq) ∨ log = empty

variable {log} {folders : List Text} {path : Text}

lemma nodup_lastSeq {l : List PathVisit} (hl : l.Pairwise fun a b => b.lastSeq < a.lastSeq) :
    (l.map PathVisit.lastSeq).Nodup :=
  List.pairwise_map.mpr (hl.imp fun h => h.ne')

/-- Entries of different times have one order. -/
lemma mergeSort_eq {l entries : List PathVisit} (hperm : l.Perm entries)
    (hl : l.Pairwise fun a b => b.lastSeq < a.lastSeq) : entries.mergeSort notBefore = l := by
  have hsorted : (entries.mergeSort notBefore).Pairwise (notBefore · ·) :=
    List.pairwise_mergeSort
      (fun a b c hab hbc => by simp only [notBefore, decide_eq_true_eq] at *; omega)
      (fun a b => by simp only [notBefore, Bool.or_eq_true, decide_eq_true_eq]; omega) entries
  have hsame := (List.mergeSort_perm entries notBefore).trans hperm.symm
  refine hsame.eq_of_pairwise ?_ hsorted (hl.imp fun h => by simpa [notBefore] using h.le)
  intro a b ha hb hab hba
  simp only [notBefore, decide_eq_true_eq] at hab hba
  exact List.inj_on_of_nodup_map (nodup_lastSeq hl) (hsame.mem_iff.mp ha) hb (by omega)

lemma shows_empty : Shows empty [] :=
  ⟨⟨[], .refl _, .nil, rfl⟩, fun _ h => (List.not_mem_nil h).elim, .inr rfl⟩

/-- A restored log goes on as the saved one would. -/
lemma Shows.fromEntries_eq (h : Shows log folders) : fromEntries log.entries = log := by
  rcases h.latest with ⟨e, he, hseq⟩ | rfl
  · have hmax : (log.entries.map PathVisit.lastSeq).max? = some log.seq := by
      refine List.max?_eq_some_iff.mpr ⟨List.mem_map.mpr ⟨e, he, hseq⟩, fun n hn => ?_⟩
      obtain ⟨a, ha, rfl⟩ := List.mem_map.mp hn
      exact h.bound a ha
    rw [fromEntries, hmax]
    rfl
  · rfl

/-- The visit of a folder takes its old entry out and puts a new one in. -/
lemma bump_perm {entries : List PathVisit} (hpaths : (entries.map PathVisit.path).Nodup)
    (path : Text) (seq : ℕ) : ∃ e, e.path = path ∧ e.lastSeq = seq ∧
      (bump path seq entries).Perm (e :: entries.filter fun e => e.path ≠ path) := by
  induction entries with
  | nil => exact ⟨⟨path, 1, seq⟩, rfl, rfl, .refl _⟩
  | cons a entries ih =>
    obtain ⟨ha, hpaths⟩ := List.nodup_cons.mp hpaths
    rw [bump]
    split_ifs with hpath
    · refine ⟨{ a with visitCount := min (a.visitCount + 1) (2 ^ 32 - 1), lastSeq := seq }, hpath,
        rfl, ?_⟩
      have hrest : entries.filter (fun e => e.path ≠ path) = entries := by
        refine List.filter_eq_self.mpr fun b hb => ?_
        simp only [decide_eq_true_eq]
        exact fun hbp => ha (List.mem_map.mpr ⟨b, hb, hbp.trans hpath.symm⟩)
      rw [List.filter_cons_of_neg (by simpa using hpath), hrest]
    · obtain ⟨e, he, hseq, hperm⟩ := ih hpaths
      refine ⟨e, he, hseq, ?_⟩
      rw [List.filter_cons_of_pos (by simpa using hpath)]
      exact (hperm.cons a).trans (.swap e a _)

/-- What stays after a visit is the list of folders after it. -/
lemma Shows.record (h : Shows log folders) (hfolders : folders.Nodup) (hpath : path ≠ [])
    (hseq : log.seq + 1 < 2 ^ 64) : Shows (log.record path) (touch path folders) := by
  obtain ⟨l, hperm, hl, hmap⟩ := h.sorted
  have hlen : l.length ≤ maxEntries := by
    rw [← List.length_map PathVisit.path, hmap]
    exact List.length_take_le _ _
  have hnext : nextSeq log.seq = log.seq + 1 := Nat.min_eq_left (by omega)
  have hpaths : (log.entries.map PathVisit.path).Nodup :=
    (hperm.map _).nodup_iff.mp (hmap ▸ (List.take_sublist _ _).nodup hfolders)
  obtain ⟨e, he, heseq, hbump⟩ := bump_perm hpaths path (log.seq + 1)
  have hbound : ∀ a ∈ l, a.lastSeq < e.lastSeq := fun a ha => by
    have := h.bound a (hperm.mem_iff.mp ha)
    omega
  -- the new entry stands before the others, which keep their order
  have hnew : (e :: l.filter fun a => a.path ≠ path).Perm (bump path (log.seq + 1) log.entries) :=
    ((hperm.filter _).cons e).trans hbump.symm
  have hsorted : (e :: l.filter fun a => a.path ≠ path).Pairwise
      fun a b => b.lastSeq < a.lastSeq :=
    List.pairwise_cons.mpr ⟨fun a ha => hbound a (List.mem_of_mem_filter ha), hl.filter _⟩
  have hshown : (e :: l.filter fun a => a.path ≠ path).map PathVisit.path =
      touch path (folders.take maxEntries) := by
    rw [List.map_cons, he, touch, ← hmap, List.filter_map]
    rfl
  have hcut : ((e :: l.filter fun a => a.path ≠ path).take maxEntries).map PathVisit.path =
      (touch path folders).take maxEntries := by
    rw [List.map_take, hshown]
    exact take_touch hfolders 39
  have hevict : ((e :: l.filter fun a => a.path ≠ path).take maxEntries).Perm
      (evict (bump path (log.seq + 1) log.entries)) := by
    unfold evict
    split_ifs with hshort
    · rw [List.take_of_length_le (by rw [hnew.length_eq]; exact hshort)]
      exact hnew
    · rw [mergeSort_eq hnew hsorted]
  rw [VisitLog.record, if_neg hpath, hnext]
  refine ⟨⟨_, hevict, hsorted.sublist (List.take_sublist _ _), hcut⟩, fun a ha => ?_,
    .inl ⟨e, hevict.mem_iff.mp List.mem_cons_self, heseq⟩⟩
  have ha := List.mem_of_mem_take (hevict.mem_iff.mpr ha)
  rcases List.mem_cons.mp ha with rfl | ha
  · exact heseq.le
  · have := hbound a (List.mem_of_mem_filter ha)
    simp only
    omega

lemma shows_foldl (uses : List Use) (h : Shows log folders) (hfolders : folders.Nodup)
    (hseq : log.seq + uses.length < 2 ^ 64) :
    Shows (uses.foldl afterUse log) (uses.foldl useFolders folders) ∧
      (uses.foldl useFolders folders).Nodup := by
  induction uses generalizing log folders with
  | nil => exact ⟨h, hfolders⟩
  | cons u uses ih =>
    rw [List.length_cons] at hseq
    rw [List.foldl_cons, List.foldl_cons]
    cases u with
    | restore =>
      rw [afterUse, h.fromEntries_eq]
      exact ih h hfolders (by omega)
    | visit path =>
      rw [afterUse, useFolders]
      split_ifs with hpath
      · rw [VisitLog.record, if_pos hpath]
        exact ih h hfolders (by omega)
      · refine ih (h.record hfolders hpath (by omega)) (nodup_touch hfolders) ?_
        have : (log.record path).seq ≤ log.seq + 1 := by
          rw [VisitLog.record, if_neg hpath]
          exact Nat.min_le_left _ _
        omega

/-- After any run of visits, saved and restored in between, the log has the forty folders that were
visited last, by their last visits. -/
theorem entries_eq_lastVisited {uses : List Use} (huses : uses.length < 2 ^ 64) :
    ((uses.foldl afterUse empty).entries.mergeSort notBefore).map PathVisit.path =
      (lastVisited uses).take maxEntries := by
  obtain ⟨⟨⟨l, hperm, hl, hmap⟩, -, -⟩, -⟩ := shows_foldl uses shows_empty List.nodup_nil
    (by simpa [empty] using huses)
  rw [mergeSort_eq hperm hl]
  exact hmap

theorem entries_eq_lastVisited_two :
    let uses : List Use := [.visit ['a'], .visit ['b'], .restore, .visit [], .visit ['a']]
    ((uses.foldl afterUse empty).entries.mergeSort notBefore).map PathVisit.path =
      (lastVisited uses).take maxEntries :=
  entries_eq_lastVisited (by decide)

/-! ### The menu -/

end VisitLog

end Orchid.Files
