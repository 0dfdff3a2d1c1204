import Mathlib.Data.Int.Order.Basic
import Mathlib.Data.List.Perm.Subperm
import Orchid.Lib.KeyedMap

/-!
# The history table and its index

Entries are stored under their id. A second table leads from the millisecond of an entry's time to
its id, and the listings walk over it. Writing, deleting and evicting keep both tables on their own;
they agree as long as no two stored entries have the same millisecond.
-/

namespace Orchid.Storage

open Orchid.Lib

/-- `HistoryEntry`; the fields that no table operation reads are its payload. -/
structure HistoryEntry (U α : Type) where
  id : U
  /-- Nanoseconds since the epoch. -/
  timestamp : ℤ
  payload : α

/-- `timestamp_millis` -/
def timestampMillis (t : ℤ) : ℤ := t / 1000000

/-- The millisecond of an entry. -/
def HistoryEntry.millis {U α : Type} (e : HistoryEntry U α) : ℤ := timestampMillis e.timestamp

/-- `HISTORY_TABLE` and `HISTORY_BY_TIMESTAMP_INDEX`. A table that does not exist has no rows. -/
structure HistoryTables (U α : Type) [LinearOrder U] where
  primary : KeyedMap (HistoryEntry.id : HistoryEntry U α → U)
  index : KeyedMap (Prod.fst : ℤ × U → ℤ)

namespace HistoryTables

variable {U α : Type} [LinearOrder U]

def empty : HistoryTables U α := ⟨.empty, .empty⟩

/-! ### The operations of a write transaction -/

/-- `put_history` -/
def put (s : HistoryTables U α) (entry : HistoryEntry U α) : HistoryTables U α :=
  let priorTs := (s.primary.find? entry.id).map HistoryEntry.millis
  let index :=
    match priorTs with
    | some prev => if prev ≠ entry.millis then s.index.erase prev else s.index
    | none => s.index
  ⟨s.primary.insert entry, index.insert (entry.millis, entry.id)⟩

/-- `delete_history` -/
def delete (s : HistoryTables U α) (id : U) : HistoryTables U α × Bool :=
  match s.primary.find? id with
  | none => (s, false)
  | some entry => (⟨s.primary.erase id, s.index.erase entry.millis⟩, true)

/-- One round of the second loop of `evict_history_older_than`. -/
def evictRow (r : HistoryTables U α × ℕ) (row : ℤ × U) : HistoryTables U α × ℕ :=
  if r.1.primary.contains row.2 then
    (⟨r.1.primary.erase row.2, r.1.index.erase row.1⟩, r.2 + 1)
  else r

/-- `evict_history_older_than` -/
def evictOlderThan (s : HistoryTables U α) (olderThan : ℤ) : HistoryTables U α × ℕ :=
  (s.index.toList.filter fun row => row.1 < timestampMillis olderThan).foldl evictRow (s, 0)

/-! ### The listings -/

/-- The loop of `iter_history_recent`. -/
def collectRecent (s : HistoryTables U α) (limit : ℕ) :
    List (ℤ × U) → List (HistoryEntry U α) → List (HistoryEntry U α)
  | [], out => out
  | row :: rows, out =>
    match s.primary.find? row.2 with
    | some entry =>
      let out := out ++ [entry]
      if out.length ≥ limit then out else s.collectRecent limit rows out
    | none => s.collectRecent limit rows out

/-- `iter_history_recent` -/
def iterRecent (s : HistoryTables U α) (limit : ℕ) : List (HistoryEntry U α) :=
  s.collectRecent limit s.index.toList.reverse []

/-- `iter_history_range` -/
def iterRange (s : HistoryTables U α) (start stop : ℤ) : List (HistoryEntry U α) :=
  (s.index.toList.filter fun row =>
    timestampMillis start ≤ row.1 ∧ row.1 < timestampMillis stop).filterMap fun row =>
      s.primary.find? row.2

/-- A call of a write transaction. -/
inductive Write (U α : Type)
  | put (entry : HistoryEntry U α)
  | delete (id : U)
  | evict (olderThan : ℤ)

def write (s : HistoryTables U α) : Write U α → HistoryTables U α
  | .put entry => s.put entry
  | .delete id => (s.delete id).1
  | .evict olderThan => (s.evictOlderThan olderThan).1

/-- A write transaction: its calls, and whether it was committed. -/
def transact (s : HistoryTables U α) (t : List (Write U α) × Bool) : HistoryTables U α :=
  if t.2 then t.1.foldl write s else s

/-! ### Agreement of the two tables -/

/-- The rows of the index are those of the stored entries. -/
structure Indexed (s : HistoryTables U α) : Prop where
  row_of_entry : ∀ e ∈ s.primary, (e.millis, e.id) ∈ s.index
  entry_of_row : ∀ row ∈ s.index, ∃ e ∈ s.primary, (e.millis, e.id) = row

/-- No other stored entry has the millisecond of the new one. -/
def Clean (s : HistoryTables U α) : Write U α → Prop
  | .put entry => ∀ e ∈ s.primary, e.millis = entry.millis → e.id = entry.id
  | _ => True

variable {s s' : HistoryTables U α} {e e' entry : HistoryEntry U α} {id : U} {row : ℤ × U}

lemma indexed_empty : Indexed (empty : HistoryTables U α) :=
  ⟨fun _ he => absurd he (KeyedMap.mem_empty _), fun _ hr => absurd hr (KeyedMap.mem_empty _)⟩

lemma Indexed.id_eq (h : s.Indexed) (he : e ∈ s.primary) (he' : e' ∈ s.primary)
    (hm : e.millis = e'.millis) : e.id = e'.id := by
  have hrow := KeyedMap.eq_of_key_eq (h.row_of_entry e he) (h.row_of_entry e' he') hm
  exact congrArg Prod.snd hrow

lemma mem_primary_put : e ∈ (s.put entry).primary ↔ e = entry ∨ (e ∈ s.primary ∧ e.id ≠ entry.id) :=
  KeyedMap.mem_insert_iff s.primary entry e

/-- What `put` leaves in the index: the new row, and the old ones that are neither its own nor in
its place. -/
lemma mem_index_put (h : s.Indexed) : row ∈ (s.put entry).index ↔
    row = (entry.millis, entry.id) ∨ (row ∈ s.index ∧ row.1 ≠ entry.millis ∧ row.2 ≠ entry.id) := by
  have hown : ∀ row ∈ s.index, row.1 ≠ entry.millis → row.2 = entry.id →
      ∃ e, s.primary.find? entry.id = some e ∧ e.millis = row.1 := by
    intro row hrow _ hid
    obtain ⟨e, he, rfl⟩ := h.entry_of_row row hrow
    exact ⟨e, (KeyedMap.find?_eq_some_iff _ _ _).mpr ⟨he, hid⟩, rfl⟩
  unfold put
  simp only [KeyedMap.mem_insert_iff]
  refine or_congr Iff.rfl ?_
  cases hfind : s.primary.find? entry.id with
  | none =>
    refine ⟨fun ⟨hrow, hne⟩ => ⟨hrow, hne, fun hid => ?_⟩, fun ⟨hrow, hne, _⟩ => ⟨hrow, hne⟩⟩
    obtain ⟨e, he, -⟩ := hown row hrow hne hid
    exact absurd (hfind.symm.trans he) (by simp)
  | some prior =>
    have hprior := (KeyedMap.find?_eq_some_iff _ _ _).mp hfind
    simp only [Option.map_some]
    split_ifs with hts
    · rw [KeyedMap.mem_erase]
      constructor
      · rintro ⟨⟨hrow, hold⟩, hne⟩
        refine ⟨hrow, hne, fun hid => ?_⟩
        obtain ⟨e, he, hm⟩ := hown row hrow hne hid
        rw [hfind, Option.some.injEq] at he
        exact hold (he ▸ hm.symm)
      · rintro ⟨hrow, hne, hid⟩
        refine ⟨⟨hrow, fun hold => hid ?_⟩, hne⟩
        have := KeyedMap.eq_of_key_eq hrow (h.row_of_entry prior hprior.1) hold
        exact (congrArg Prod.snd this).trans hprior.2
    · refine ⟨fun ⟨hrow, hne⟩ => ⟨hrow, hne, fun hid => ?_⟩, fun ⟨hrow, hne, _⟩ => ⟨hrow, hne⟩⟩
      obtain ⟨e, he, hm⟩ := hown row hrow hne hid
      rw [hfind, Option.some.injEq] at he
      rw [not_not] at hts
      exact hne (hm.symm.trans (he ▸ hts))

/-- A clean write keeps the tables in agreement. -/
lemma Indexed.put (h : s.Indexed) (hc : s.Clean (.put entry)) : (s.put entry).Indexed where
  row_of_entry e he := by
    refine (mem_index_put h).mpr ?_
    rcases mem_primary_put.mp he with rfl | ⟨he, hid⟩
    · exact .inl rfl
    · exact .inr ⟨h.row_of_entry e he, fun hm => hid (hc e he hm), hid⟩
  entry_of_row row hrow := by
    rcases (mem_index_put h).mp hrow with rfl | ⟨hrow, -, hid⟩
    · exact ⟨entry, mem_primary_put.mpr (.inl rfl), rfl⟩
    · obtain ⟨e, he, rfl⟩ := h.entry_of_row row hrow
      exact ⟨e, mem_primary_put.mpr (.inr ⟨he, hid⟩), rfl⟩

lemma delete_eq (he : e ∈ s.primary) :
    s.delete e.id = (⟨s.primary.erase e.id, s.index.erase e.millis⟩, true) := by
  have hfind := (KeyedMap.find?_eq_some_iff s.primary e.id e).mpr ⟨he, rfl⟩
  rw [HistoryTables.delete, hfind]

/-- Deleting a stored entry removes it and its row. -/
lemma Indexed.erase (h : s.Indexed) (he : e ∈ s.primary) :
    Indexed ⟨s.primary.erase e.id, s.index.erase e.millis⟩ where
  row_of_entry e' he' := by
    obtain ⟨he', hid⟩ := (KeyedMap.mem_erase _ _ _).mp he'
    exact (KeyedMap.mem_erase _ _ _).mpr
      ⟨h.row_of_entry e' he', fun hm => hid (h.id_eq he' he hm)⟩
  entry_of_row row hrow := by
    obtain ⟨hrow, hne⟩ := (KeyedMap.mem_erase _ _ _).mp hrow
    obtain ⟨e', he', rfl⟩ := h.entry_of_row row hrow
    refine ⟨e', (KeyedMap.mem_erase _ _ _).mpr ⟨he', fun hid => hne ?_⟩, rfl⟩
    rw [KeyedMap.eq_of_key_eq he' he hid]

lemma Indexed.delete (h : s.Indexed) (id : U) : (s.delete id).1.Indexed := by
  cases hfind : s.primary.find? id with
  | none =>
    rw [HistoryTables.delete, hfind]
    exact h
  | some e =>
    obtain ⟨he, rfl⟩ := (KeyedMap.find?_eq_some_iff _ _ _).mp hfind
    rw [delete_eq he]
    exact h.erase he

/-- Evicting some rows of the index removes their entries and no others. -/
lemma Indexed.foldl_evictRow (h : s.Indexed) {rows : List (ℤ × U)} (n : ℕ)
    (hrows : ∀ row ∈ rows, row ∈ s.index) (hnodup : rows.Pairwise fun a b => a.1 < b.1) :
    (rows.foldl evictRow (s, n)).1.Indexed ∧
      (∀ e, e ∈ (rows.foldl evictRow (s, n)).1.primary ↔
        e ∈ s.primary ∧ (e.millis, e.id) ∉ rows) ∧
      (rows.foldl evictRow (s, n)).2 = n + rows.length := by
  induction rows generalizing s n with
  | nil => exact ⟨h, by simp, rfl⟩
  | cons row rows ih =>
    obtain ⟨hrow, hothers⟩ := List.forall_mem_cons.mp hrows
    obtain ⟨hlt, hsorted⟩ := List.pairwise_cons.mp hnodup
    obtain ⟨e, he, rfl⟩ := h.entry_of_row row hrow
    have hstep : evictRow (s, n) (e.millis, e.id) =
        (⟨s.primary.erase e.id, s.index.erase e.millis⟩, n + 1) :=
      if_pos ((KeyedMap.contains_iff _ _).mpr ⟨e, he, rfl⟩)
    have hrest : ∀ row ∈ rows, row ∈ s.index.erase e.millis := fun row hrow =>
      (KeyedMap.mem_erase _ _ _).mpr ⟨hothers row hrow, (hlt row hrow).ne'⟩
    obtain ⟨hindexed, hmem, hcount⟩ := ih (h.erase he) (n + 1) hrest hsorted
    rw [List.foldl_cons, hstep]
    refine ⟨hindexed, fun e' => ?_, ?_⟩
    · rw [hmem e', KeyedMap.mem_erase, List.mem_cons, not_or, and_assoc]
      refine and_congr_right fun he' => and_congr_left fun _ =>
        not_congr ⟨fun hid => ?_, fun hr => ?_⟩
      · rw [KeyedMap.eq_of_key_eq he' he hid]
      · exact congrArg Prod.snd hr
    · rw [hcount, List.length_cons]
      omega

/-- An eviction removes the entries of the milliseconds before the cutoff. -/
lemma Indexed.evict (h : s.Indexed) (olderThan : ℤ) : (s.evictOlderThan olderThan).1.Indexed ∧
    ∀ e, e ∈ (s.evictOlderThan olderThan).1.primary ↔
      e ∈ s.primary ∧ ¬ e.millis < timestampMillis olderThan := by
  have hrows : ∀ row ∈ s.index.toList.filter fun row => row.1 < timestampMillis olderThan,
      row ∈ s.index := fun row hrow => List.mem_of_mem_filter hrow
  obtain ⟨hindexed, hmem, -⟩ := h.foldl_evictRow 0 hrows (s.index.sorted.filter _)
  refine ⟨hindexed, fun e => (hmem e).trans (and_congr_right fun he => not_congr ?_)⟩
  rw [List.mem_filter, decide_eq_true_iff]
  exact and_iff_right (h.row_of_entry e he)

lemma Indexed.write (h : s.Indexed) {w : Write U α} (hc : s.Clean w) : (s.write w).Indexed := by
  cases w with
  | put entry => exact h.put hc
  | delete id => exact h.delete id
  | evict olderThan => exact (h.evict olderThan).1

/-! ### What the listings give -/

/-- The listing has the newest entries, the newest first. -/
structure RecentRight (s : HistoryTables U α) (limit : ℕ) : Prop where
  length : (s.iterRecent limit).length = min limit s.primary.toList.length
  nodup : (s.iterRecent limit).Nodup
  stored : ∀ e ∈ s.iterRecent limit, e ∈ s.primary
  ordered : (s.iterRecent limit).Pairwise fun a b => b.timestamp ≤ a.timestamp
  newest : ∀ e ∈ s.primary, e ∉ s.iterRecent limit →
    ∀ a ∈ s.iterRecent limit, e.timestamp ≤ a.timestamp

/-- The listing has the stored entries of a range of times. -/
def RangeRight (s : HistoryTables U α) (start stop : ℤ) : Prop :=
  (s.iterRange start stop).Perm
    (s.primary.toList.filter fun e => start ≤ e.timestamp ∧ e.timestamp < stop)

/-- The eviction removes the entries older than the cutoff. -/
def EvictRight (s : HistoryTables U α) (olderThan : ℤ) : Prop :=
  ∀ e, e ∈ (s.evictOlderThan olderThan).1.primary ↔ e ∈ s.primary ∧ ¬ e.timestamp < olderThan

/-- What the loop finds, up to the limit; it stops only after an entry. -/
lemma collectRecent_eq (limit : ℕ) (rows : List (ℤ × U)) (out : List (HistoryEntry U α))
    (hout : out.length < max limit 1) : s.collectRecent limit rows out =
      out ++ (rows.filterMap fun row => s.primary.find? row.2).take (max limit 1 - out.length) := by
  induction rows generalizing out with
  | nil => simp [collectRecent]
  | cons row rows ih =>
    unfold collectRecent
    cases hfind : s.primary.find? row.2 with
    | none =>
      simp only [List.filterMap_cons, hfind]
      exact ih out hout
    | some e =>
      simp only [List.filterMap_cons, hfind]
      split_ifs with hlen
      · have hone : max limit 1 - out.length = 1 := by
          rw [List.length_append, List.length_singleton] at hlen
          omega
        rw [hone, List.take_succ_cons, List.take_zero]
      · rw [List.length_append, List.length_singleton] at hlen
        have hsucc : max limit 1 - out.length = max limit 1 - (out.length + 1) + 1 := by omega
        rw [ih _ (by rw [List.length_append, List.length_singleton]; omega), hsucc,
          List.take_succ_cons, List.length_append, List.length_singleton, List.append_assoc,
          List.singleton_append]

/-- The stored entries from the newest to the oldest. -/
def newestFirst (s : HistoryTables U α) : List (HistoryEntry U α) :=
  s.index.toList.reverse.filterMap fun row => s.primary.find? row.2

lemma iterRecent_eq (limit : ℕ) : s.iterRecent limit = s.newestFirst.take (max limit 1) := by
  rw [iterRecent, collectRecent_eq limit _ [] (by simp)]
  rfl

lemma Indexed.find?_eq_some (h : s.Indexed) (hrow : row ∈ s.index) :
    s.primary.find? row.2 = some e ↔ e ∈ s.primary ∧ (e.millis, e.id) = row := by
  rw [KeyedMap.find?_eq_some_iff]
  refine and_congr_right fun he => ⟨fun hid => ?_, fun heq => congrArg Prod.snd heq⟩
  obtain ⟨e', he', rfl⟩ := h.entry_of_row row hrow
  rw [KeyedMap.eq_of_key_eq he he' hid]

lemma Indexed.mem_filterMap (h : s.Indexed) {rows : List (ℤ × U)}
    (hrows : ∀ row ∈ rows, row ∈ s.index) : e ∈ rows.filterMap (fun row => s.primary.find? row.2) ↔
      e ∈ s.primary ∧ (e.millis, e.id) ∈ rows := by
  rw [List.mem_filterMap]
  constructor
  · rintro ⟨row, hrow, hfind⟩
    obtain ⟨he, rfl⟩ := (h.find?_eq_some (hrows row hrow)).mp hfind
    exact ⟨he, hrow⟩
  · rintro ⟨he, hrow⟩
    exact ⟨_, hrow, (h.find?_eq_some (hrows _ hrow)).mpr ⟨he, rfl⟩⟩

lemma Indexed.pairwise_filterMap (h : s.Indexed) {r : ℤ → ℤ → Prop} {rows : List (ℤ × U)}
    (hrows : ∀ row ∈ rows, row ∈ s.index) (hr : rows.Pairwise fun a b => r a.1 b.1) :
    (rows.filterMap fun row => s.primary.find? row.2).Pairwise fun a b => r a.millis b.millis := by
  rw [List.pairwise_filterMap]
  refine hr.imp_of_mem fun ha hb hab e he e' he' => ?_
  obtain ⟨-, rfl⟩ := (h.find?_eq_some (hrows _ ha)).mp he
  obtain ⟨-, rfl⟩ := (h.find?_eq_some (hrows _ hb)).mp he'
  exact hab

lemma Indexed.mem_newestFirst (h : s.Indexed) : e ∈ s.newestFirst ↔ e ∈ s.primary := by
  rw [newestFirst, h.mem_filterMap fun row hrow => List.mem_reverse.mp hrow]
  refine and_iff_left_of_imp fun he => ?_
  exact List.mem_reverse.mpr (h.row_of_entry e he)

lemma Indexed.pairwise_newestFirst (h : s.Indexed) :
    s.newestFirst.Pairwise fun a b => b.millis < a.millis :=
  h.pairwise_filterMap (r := fun a b => b < a) (fun _ hrow => List.mem_reverse.mp hrow)
    (List.pairwise_reverse.mpr s.index.sorted)

omit [LinearOrder U] in
lemma nodup_of_pairwise {l : List (HistoryEntry U α)}
    (hl : l.Pairwise fun a b => b.millis < a.millis) : l.Nodup :=
  hl.imp fun hlt heq => (heq ▸ hlt).false

lemma Indexed.length_newestFirst (h : s.Indexed) :
    s.newestFirst.length = s.primary.toList.length :=
  ((List.perm_ext_iff_of_nodup (nodup_of_pairwise h.pairwise_newestFirst)
    s.primary.nodup).mpr fun _ => h.mem_newestFirst).length_eq

omit [LinearOrder U] in
lemma timestamp_le_of_millis_lt {a b : HistoryEntry U α} (h : b.millis < a.millis) :
    b.timestamp ≤ a.timestamp := by
  unfold HistoryEntry.millis timestampMillis at h
  omega

/-- On agreeing tables the listing of the newest is right for every limit but zero. -/
lemma Indexed.recentRight_iff (h : s.Indexed) (limit : ℕ) :
    s.RecentRight limit ↔ limit ≠ 0 ∨ s.primary.toList = [] := by
  constructor
  · intro hr
    have hlen := hr.length
    rw [iterRecent_eq, List.length_take, h.length_newestFirst] at hlen
    rw [← List.length_eq_zero_iff]
    omega
  · intro hlimit
    have hsub : ∀ e ∈ s.iterRecent limit, e ∈ s.newestFirst := by
      rw [iterRecent_eq]
      exact fun e he => List.mem_of_mem_take he
    have hsplit : s.newestFirst = s.iterRecent limit ++ s.newestFirst.drop (max limit 1) := by
      rw [iterRecent_eq, List.take_append_drop]
    have hsorted := h.pairwise_newestFirst
    rw [hsplit, List.pairwise_append] at hsorted
    obtain ⟨htake, -, hcross⟩ := hsorted
    refine ⟨?_, nodup_of_pairwise htake, fun e he => h.mem_newestFirst.mp (hsub e he),
      htake.imp timestamp_le_of_millis_lt, fun e he hne a ha => ?_⟩
    · rw [iterRecent_eq, List.length_take, h.length_newestFirst]
      rw [← List.length_eq_zero_iff] at hlimit
      omega
    · have hdrop : e ∈ s.newestFirst.drop (max limit 1) := by
        have he' := h.mem_newestFirst.mpr he
        rw [hsplit] at he'
        exact (List.mem_append.mp he').resolve_left hne
      exact timestamp_le_of_millis_lt (hcross a ha e hdrop)

/-- On agreeing tables a range is right if whole milliseconds tell the same entries. -/
lemma Indexed.rangeRight_iff (h : s.Indexed) (start stop : ℤ) : s.RangeRight start stop ↔
    ∀ e ∈ s.primary, (timestampMillis start ≤ e.millis ∧ e.millis < timestampMillis stop) ↔
      (start ≤ e.timestamp ∧ e.timestamp < stop) := by
  have hrows : ∀ row ∈ s.index.toList.filter (fun row =>
      timestampMillis start ≤ row.1 ∧ row.1 < timestampMillis stop), row ∈ s.index :=
    fun row hrow => List.mem_of_mem_filter hrow
  have hnodup : (s.iterRange start stop).Nodup := by
    have hsorted := h.pairwise_filterMap (r := (· < ·)) hrows (s.index.sorted.filter _)
    exact hsorted.imp fun hlt heq => (heq ▸ hlt).false
  have hmem : ∀ e, e ∈ s.iterRange start stop ↔
      e ∈ s.primary ∧ timestampMillis start ≤ e.millis ∧ e.millis < timestampMillis stop := by
    intro e
    rw [iterRange, h.mem_filterMap hrows, List.mem_filter, decide_eq_true_iff]
    exact and_congr_right fun he => and_iff_right (h.row_of_entry e he)
  rw [RangeRight, List.perm_ext_iff_of_nodup hnodup (s.primary.nodup.filter _)]
  refine forall_congr' fun e => ?_
  rw [hmem, List.mem_filter, decide_eq_true_iff]
  exact and_congr_right_iff

lemma Indexed.evictRight_iff (h : s.Indexed) (olderThan : ℤ) : s.EvictRight olderThan ↔
    ∀ e ∈ s.primary, e.millis < timestampMillis olderThan ↔ e.timestamp < olderThan := by
  refine forall_congr' fun e => ?_
  rw [(h.evict olderThan).2 e, and_congr_right_iff]
  exact imp_congr_right fun _ => not_iff_not

/-- An entry that is put into the millisecond of another one hides it. -/
lemma Indexed.clean_of_recentRight (h : s.Indexed)
    (hright : ∀ limit, limit ≠ 0 → (s.put entry).RecentRight limit) : s.Clean (.put entry) := by
  intro e he hm
  by_contra hid
  have hstored : e ∈ (s.put entry).primary := mem_primary_put.mpr (.inr ⟨he, hid⟩)
  have hr := hright (s.put entry).primary.toList.length (List.length_pos_of_mem hstored).ne'
  have hlisted : e ∈ (s.put entry).iterRecent (s.put entry).primary.toList.length := by
    refine ((List.subperm_of_subset hr.nodup hr.stored).perm_of_length_le ?_).mem_iff.mpr hstored
    rw [hr.length, Nat.min_self]
  rw [iterRecent_eq] at hlisted
  obtain ⟨row, hrow, hfind⟩ := List.mem_filterMap.mp (List.mem_of_mem_take hlisted)
  have hid' := ((KeyedMap.find?_eq_some_iff _ _ _).mp hfind).2
  rcases (mem_index_put h).mp (List.mem_reverse.mp hrow) with rfl | ⟨hrow, hne, -⟩
  · exact hid hid'
  · obtain ⟨e', he', rfl⟩ := h.entry_of_row row hrow
    rw [← KeyedMap.eq_of_key_eq he he' hid'] at hne
    exact hne hm

/-! ### Runs of transactions -/

/-- Calls made one after the other, each of them clean. -/
def CleanCalls (s : HistoryTables U α) : List (Write U α) → Prop
  | [] => True
  | w :: ws => s.Clean w ∧ (s.write w).CleanCalls ws

/-- The committed tables after transactions whose calls are clean; those of a transaction that is
not committed may be any. -/
inductive Reached : HistoryTables U α → Prop
  | empty : Reached empty
  | transact {s : HistoryTables U α} {t : List (Write U α) × Bool} (h : Reached s)
      (ht : t.2 = true → s.CleanCalls t.1) : Reached (s.transact t)

lemma Indexed.foldl_write (h : s.Indexed) {ws : List (Write U α)} (hws : s.CleanCalls ws) :
    (ws.foldl HistoryTables.write s).Indexed := by
  induction ws generalizing s with
  | nil => exact h
  | cons w ws ih => exact ih (h.write hws.1) hws.2

lemma Reached.indexed (h : Reached s) : s.Indexed := by
  induction h with
  | empty => exact indexed_empty
  | @transact s t _ ht ih =>
    unfold HistoryTables.transact
    split_ifs with hcommit
    · exact ih.foldl_write (ht hcommit)
    · exact ih

/-- After clean transactions every listing and every eviction is right, up to the rounding of times
to milliseconds and a limit of zero; a put that is not clean makes a listing wrong. -/
theorem listings_right (h : Reached s) :
    (∀ limit, s.RecentRight limit ↔ limit ≠ 0 ∨ s.primary.toList = []) ∧
    (∀ start stop, s.RangeRight start stop ↔ ∀ e ∈ s.primary,
      (timestampMillis start ≤ e.millis ∧ e.millis < timestampMillis stop) ↔
        (start ≤ e.timestamp ∧ e.timestamp < stop)) ∧
    (∀ olderThan, s.EvictRight olderThan ↔ ∀ e ∈ s.primary,
      e.millis < timestampMillis olderThan ↔ e.timestamp < olderThan) ∧
    ∀ entry, (∀ limit, limit ≠ 0 → (s.put entry).RecentRight limit) ↔ s.Clean (.put entry) := by
  have hs := h.indexed
  refine ⟨hs.recentRight_iff, hs.rangeRight_iff, hs.evictRight_iff, fun entry => ?_⟩
  exact ⟨hs.clean_of_recentRight, fun hc limit hlimit =>
    ((hs.put hc).recentRight_iff limit).mpr (.inl hlimit)⟩

/-- An entry without a payload. -/
def entryAt (id : ℕ) (timestamp : ℤ) : HistoryEntry ℕ Unit := ⟨id, timestamp, ()⟩

theorem listings_right_two : (((empty.put (entryAt 1 0)).put (entryAt 2 1000000)).RecentRight 1 ↔
    (1 ≠ 0 ∨ ((empty.put (entryAt 1 0)).put (entryAt 2 1000000)).primary.toList = [])) := by
  have h : Reached ((empty.put (entryAt 1 0)).put (entryAt 2 1000000)) := by
    refine .transact (t := ([.put (entryAt 1 0), .put (entryAt 2 1000000)], true)) .empty
      fun _ => ?_
    refine ⟨fun e he => absurd he (KeyedMap.mem_empty e), fun e he hm => ?_, trivial⟩
    rcases mem_primary_put.mp he with rfl | ⟨he, -⟩
    · exact absurd hm (by decide)
    · exact absurd he (KeyedMap.mem_empty e)
  exact (listings_right h).1 1

/-- Of two entries of one millisecond the newest ten are one. -/
theorem not_listings_right : ¬ (transact empty
    ([.put (entryAt 1 0), .put (entryAt 2 5)], true)).RecentRight 10 := by
  intro h
  exact absurd h.length (by decide)

end HistoryTables

end Orchid.Storage
