import Mathlib.Data.List.Permutation
import Orchid.Fs.Tags

/-!
# Tag operations at the same time

A call that writes while the records are still such as it has loaded them could as well have run
alone at that moment. A batch loads its records before it writes any, so that of several items for
one path the last one decides.
-/

namespace Orchid.Fs.Tag

open Lib

variable {lower : Text → Text}

/-! ### One order of the calls -/

/-- The calls that are started in a run. -/
def started (es : List (Event Call Unit)) : List Call :=
  es.filterMap fun
    | .start call => some call
    | .step _ _ => none

/-- A call that writes makes the same of the records as they are now as of those it has loaded. -/
def Fresh (m : Manager) : Event Call Unit → Prop
  | .start _ => True
  | .step k _ => ∀ t, m.tasks[k]? = some t → t.loads = [] →
      ∀ x ∈ t.loaded, x.1.change (get m.shared x.1.path) = x.1.change x.2

/-- The table is what the finished calls make of it one after the other. -/
structure Inv (lower : Text → Text) (db : Table) (m : Manager) : Prop where
  shared : m.shared = m.log.reverse.foldl (Call.alone lower) db
  loads : ∀ t ∈ m.tasks, t.loaded.map Prod.fst ++ t.loads = t.call.loads lower

section Runs

variable {db db' : Table} {m q : Manager} {t u : Task} {call : Call}
  {es : List (Event Call Unit)}

lemma step_running (h : step () db t = (db', .running u)) : ∃ load rest, t.loads = load :: rest ∧
    db' = db ∧ u = ⟨t.call, t.loaded ++ [(load, get db load.path)], rest⟩ := by
  unfold step at h
  split at h
  next load rest hloads =>
    cases h
    exact ⟨load, rest, hloads, rfl, rfl⟩
  next => cases h

lemma step_finished (h : step () db t = (db', .finished call)) :
    t.loads = [] ∧ db' = writeMany db t.rows ∧ call = t.call := by
  unfold step at h
  split at h
  next => cases h
  next hloads =>
    cases h
    exact ⟨hloads, rfl, rfl⟩

/-- A task that has loaded all and is fresh writes what its call writes alone. -/
lemma writeMany_rows (hloads : t.loaded.map Prod.fst = t.call.loads lower)
    (hfresh : ∀ x ∈ t.loaded, x.1.change (get db x.1.path) = x.1.change x.2) :
    writeMany db t.rows = Call.alone lower db t.call := by
  have hrows : t.rows = (t.call.loads lower).filterMap fun load =>
      load.change (get db load.path) := by
    rw [← hloads, List.filterMap_map, Task.rows]
    exact List.filterMap_congr fun x hx => (hfresh x hx).symm
  rw [hrows, Call.alone]

lemma inv_next (hinv : Inv lower db m) {e : Event Call Unit} (hfresh : Fresh m e)
    (h : Pool.next (enter lower) step m e = some q) : Inv lower db q := by
  cases e with
  | start call =>
    obtain rfl := Option.some.inj h
    refine ⟨hinv.shared, fun t ht => ?_⟩
    obtain rfl | ht := List.mem_cons.mp ht
    · rfl
    · exact hinv.loads t ht
  | step k choice =>
    obtain ⟨t, rest, hk, hperm, ⟨u, hstep, htasks, hlog⟩ | ⟨call, hstep, htasks, hlog⟩⟩ :=
      Pool.next_step_cases h
    · obtain ⟨load, more, hloads, hdb, rfl⟩ := step_running hstep
      refine ⟨by rw [hdb, hlog]; exact hinv.shared, fun v hv => ?_⟩
      obtain rfl | hv := List.mem_cons.mp (htasks.mem_iff.mp hv)
      · have ht := hinv.loads t (hperm.mem_iff.mpr List.mem_cons_self)
        rw [hloads] at ht
        rw [← ht]
        simp
      · exact hinv.loads v (hperm.mem_iff.mpr (List.mem_cons_of_mem _ hv))
    · obtain ⟨hloads, hdb, rfl⟩ := step_finished hstep
      refine ⟨?_, fun v hv => hinv.loads v
        (hperm.mem_iff.mpr (List.mem_cons_of_mem _ (htasks.mem_iff.mp hv)))⟩
      have ht := hinv.loads t (hperm.mem_iff.mpr List.mem_cons_self)
      rw [hloads, List.append_nil] at ht
      rw [hdb, writeMany_rows ht (hfresh t hk hloads), hlog, List.reverse_cons,
        List.foldl_append, ← hinv.shared]
      rfl

/-- No call gets lost: those that run and those that have finished are those started. -/
lemma perm_started (h : Pool.run (enter lower) step m es = some q) :
    (q.log ++ q.tasks.map Task.call).Perm (m.log ++ m.tasks.map Task.call ++ started es) := by
  induction es generalizing m with
  | nil =>
    obtain rfl := Option.some.inj h
    simp [started]
  | cons e es ih =>
    obtain ⟨r, hr, hrest⟩ := Option.bind_eq_some_iff.mp h
    refine (ih hrest).trans ?_
    cases e with
    | start call =>
      obtain rfl := Option.some.inj hr
      have hcall : (enter lower call).call = call := rfl
      simp only [started, List.filterMap_cons, List.map_cons, hcall]
      refine (List.perm_middle.append_right _).trans ?_
      exact (List.perm_middle (a := call)).symm
    | step k choice =>
      have hsame : (r.log ++ r.tasks.map Task.call).Perm (m.log ++ m.tasks.map Task.call) := by
        obtain ⟨t, rest, -, hperm, ⟨u, hstep, htasks, hlog⟩ | ⟨call, hstep, htasks, hlog⟩⟩ :=
          Pool.next_step_cases hr
        · obtain ⟨load, more, -, -, rfl⟩ := step_running hstep
          rw [hlog]
          exact ((htasks.map Task.call).trans (hperm.map Task.call).symm).append_left _
        · obtain ⟨-, -, rfl⟩ := step_finished hstep
          rw [hlog]
          refine (List.perm_middle.symm.trans ?_)
          exact (((htasks.map _).cons _).trans (hperm.map _).symm).append_left _
      exact hsame.append_right _

/-- Where every write is fresh, the finished calls have run one after the other. -/
lemma serial_of_fresh (h : Pool.run (enter lower) step ⟨db, [], []⟩ es = some q)
    (hfresh : Pool.EachStep (enter lower) step Fresh ⟨db, [], []⟩ es) (htasks : q.tasks = []) :
    ∃ order : List Call, order.Perm (started es) ∧
      ∀ path, get q.shared path = get (order.foldl (Call.alone lower) db) path := by
  have hinv : Inv lower db q := Pool.run_invariant (fun p e q hp hsafe hnext =>
    inv_next hp hsafe hnext) (⟨rfl, by simp⟩ : Inv lower db ⟨db, [], []⟩) hfresh h
  have hperm := perm_started h
  rw [htasks] at hperm
  refine ⟨q.log.reverse, (List.reverse_perm _).trans (by simpa using hperm), fun path => ?_⟩
  rw [hinv.shared]

end Runs

/-! ### Batches -/

/-- The tags of a path. -/
def tagsOf (db : Table) (path : FsPath) : List Text := ((get db path).map FileTag.tags).getD []

/-- The tags of the items, one after the other, with their paths. -/
def adds (items : List Item) : List (FsPath × Text × ℤ) :=
  items.flatMap fun item => item.tags.map fun tag => (item.path, tag, item.now)

/-- Tags are added one by one, up to the first that is refused. -/
def addEach (lower : Text → Text) : List (FsPath × Text × ℤ) → Table → Table
  | [], db => db
  | (path, tag, now) :: rest, db =>
    match normaliseTag lower tag with
    | .ok _ => addEach lower rest (Call.alone lower db (.addTag path tag now))
    | .error _ => db

/-- The tag is not refused. -/
def Accepts (lower : Text → Text) (tag : Text) : Bool := (normaliseTag lower tag).toOption.isSome

/-- The tags of an item as they are stored. -/
def Item.stored (lower : Text → Text) (item : Item) : List Text :=
  item.tags.filterMap fun tag => (normaliseTag lower tag).toOption

/-- The item has a tag that its path lacks. -/
def Item.Changes (lower : Text → Text) (db : Table) (item : Item) : Prop :=
  ∃ tag ∈ item.stored lower, tag ∉ tagsOf db item.path

instance (db : Table) (item : Item) : Decidable (item.Changes lower db) :=
  inferInstanceAs (Decidable (∃ _ ∈ _, _))

/-- The last item for a path that has a tag which the path lacks. -/
def lastChanging (lower : Text → Text) (db : Table) (items : List Item) (path : FsPath) :
    Option Item :=
  (items.filter fun item => item.path = path ∧ item.Changes lower db).getLast?

/-- Every tag, up to the first that is refused, is there already, or no tag is refused and the last
item that changes its path has it too. -/
def Settled (lower : Text → Text) (db : Table) (items : List Item) : Prop :=
  ∀ a ∈ (adds items).takeWhile fun a => Accepts lower a.2.1,
    ∀ tag, normaliseTag lower a.2.1 = .ok tag → tag ∈ tagsOf db a.1 ∨
      (∀ b ∈ adds items, Accepts lower b.2.1 = true) ∧
        ∃ last, lastChanging lower db items a.1 = some last ∧ tag ∈ last.stored lower

section Sets

variable {set : TagSet} {tags : List Text} {t : Text}

lemma TagSet.mem_addAll : t ∈ set.addAll tags ↔ t ∈ set ∨ t ∈ tags := by
  induction tags generalizing set with
  | nil => simp [TagSet.addAll]
  | cons s tags ih =>
    rw [TagSet.addAll, List.foldl_cons, ← TagSet.addAll, ih, KeyedMap.mem_insert_iff,
      List.mem_cons]
    by_cases h : t = s
    · simp [h]
    · simp [h]

lemma TagSet.mem_ofList : t ∈ TagSet.ofList tags ↔ t ∈ tags := by
  rw [TagSet.ofList, TagSet.mem_addAll]
  simp

/-- A set that grows by nothing new keeps its size. -/
lemma TagSet.length_addAll_iff :
    (set.addAll tags).toList.length = set.toList.length ↔ ∀ t ∈ tags, t ∈ set := by
  constructor
  · intro h t ht
    by_contra hnot
    have hsub : t :: set.toList ⊆ (set.addAll tags).toList := by
      intro s hs
      obtain rfl | hs := List.mem_cons.mp hs
      · exact TagSet.mem_addAll.mpr (.inr ht)
      · exact TagSet.mem_addAll.mpr (.inl hs)
    have hnodup : (t :: set.toList).Nodup := List.nodup_cons.mpr ⟨hnot, set.nodup⟩
    have hle := (List.subperm_of_subset hnodup hsub).length_le
    rw [h, List.length_cons] at hle
    omega
  · intro h
    have hsame : set.addAll tags = set := KeyedMap.ext_mem fun s => by
      rw [TagSet.mem_addAll]
      exact or_iff_left_of_imp (h s)
    rw [hsame]

end Sets

section Batches

variable {db : Table} {items : List Item} {path : FsPath}

lemma writeMany_append (rows : List FileTag) (row : FileTag) :
    writeMany db (rows ++ [row]) = (writeMany db rows).insert row := by
  rw [writeMany, List.foldl_append, ← writeMany]
  rfl

/-- A loaded record is that of its path. -/
lemma path_loadOrNew (path : FsPath) : (loadOrNew path (get db path)).path = path.text := by
  cases h : get db path with
  | none => rfl
  | some row => exact ((KeyedMap.find?_eq_some_iff _ _ _).mp h).2

lemma tags_loadOrNew (path : FsPath) :
    (loadOrNew path (get db path)).tags = tagsOf db path := by
  rw [tagsOf]
  cases get db path <;> rfl

lemma tagsOf_insert (row : FileTag) :
    tagsOf (db.insert row) path = if row.path = path.text then row.tags else tagsOf db path := by
  rw [tagsOf, get, KeyedMap.find?_insert]
  split_ifs <;> rfl

/-- Adding a tag adds it. -/
lemma mem_tagsOf_addTag {p : FsPath} {tag stored : Text} {now : ℤ}
    (h : normaliseTag lower tag = .ok stored) {t : Text} :
    t ∈ tagsOf (Call.alone lower db (.addTag p tag now)) path ↔
      t ∈ tagsOf db path ∨ p = path ∧ t = stored := by
  have hloads : (Call.addTag p tag now).loads lower = [change p (insertTag stored now)] := by
    rw [Call.loads, Call.plan, addTag, h]
    rfl
  have halone : Call.alone lower db (.addTag p tag now) =
      db.insert (insertTag stored now (loadOrNew p (get db p))) := by
    rw [Call.alone, hloads]
    rfl
  have hrow : (insertTag stored now (loadOrNew p (get db p))).path = p.text := path_loadOrNew p
  rw [halone, tagsOf_insert, hrow]
  by_cases hp : p = path
  · subst hp
    rw [if_pos rfl, ← tags_loadOrNew]
    have hset : t ∈ (insertTag stored now (loadOrNew p (get db p))).tags ↔
        t ∈ (TagSet.ofList (loadOrNew p (get db p)).tags).insert stored := Iff.rfl
    rw [hset, KeyedMap.mem_insert_iff, TagSet.mem_ofList]
    by_cases ht : t = stored
    · simp [ht]
    · simp [ht]
  · rw [if_neg fun htext => hp (FsPath.ext htext)]
    exact (or_iff_left fun hor => hp hor.1).symm

/-- What adding one by one leaves. -/
lemma mem_tagsOf_addEach (as : List (FsPath × Text × ℤ)) {t : Text} :
    t ∈ tagsOf (addEach lower as db) path ↔ t ∈ tagsOf db path ∨
      ∃ a ∈ as.takeWhile fun a => Accepts lower a.2.1,
        a.1 = path ∧ normaliseTag lower a.2.1 = .ok t := by
  induction as generalizing db with
  | nil => simp [addEach]
  | cons a as ih =>
    obtain ⟨p, tag, now⟩ := a
    rw [addEach]
    cases h : normaliseTag lower tag with
    | error e =>
      have hnot : Accepts lower tag = false := by rw [Accepts, h]; rfl
      simp [hnot]
    | ok stored =>
      have hyes : Accepts lower tag = true := by rw [Accepts, h]; rfl
      have htake : ((p, tag, now) :: as).takeWhile (fun a => Accepts lower a.2.1) =
          (p, tag, now) :: as.takeWhile fun a => Accepts lower a.2.1 :=
        List.takeWhile_cons_of_pos hyes
      simp only [ih, mem_tagsOf_addTag h, htake, List.exists_mem_cons_iff, h, Except.ok.injEq,
        or_assoc, @eq_comm _ stored t]

/-- What is loaded for an item in a batch that is not refused. -/
def Item.load (lower : Text → Text) (item : Item) : Load := ensured item (item.stored lower)

lemma mapM_of_ok {α β : Type} {f : α → Except FsError β} {g : α → β} {xs : List α}
    (h : ∀ x ∈ xs, f x = .ok (g x)) : xs.mapM f = .ok (xs.map g) := by
  induction xs with
  | nil => rfl
  | cons x xs ih =>
    rw [List.mapM_cons, h x List.mem_cons_self, ih fun y hy => h y (List.mem_cons_of_mem x hy)]
    rfl

lemma mapM_of_error {α β : Type} {f : α → Except FsError β} {xs : List α} {x : α} (hx : x ∈ xs)
    (h : (f x).toOption = none) : (xs.mapM f).toOption = none := by
  induction xs with
  | nil => exact absurd hx List.not_mem_nil
  | cons y xs ih =>
    rw [List.mapM_cons]
    cases hy : f y with
    | error e => rfl
    | ok b =>
      have hrest : (xs.mapM f).toOption = none := by
        obtain rfl | hx := List.mem_cons.mp hx
        · rw [hy] at h
          cases h
        · exact ih hx
      cases hm : xs.mapM f with
      | error e => rfl
      | ok bs =>
        rw [hm] at hrest
        cases hrest

lemma ensureTags_of_accepts {item : Item} (h : ∀ tag ∈ item.tags, Accepts lower tag = true) :
    ensureTags lower item = .ok (item.load lower) := by
  have hok : ∀ tag ∈ item.tags,
      normaliseTag lower tag = .ok ((normaliseTag lower tag).toOption.getD []) := by
    intro tag htag
    have := h tag htag
    rw [Accepts] at this
    cases hn : normaliseTag lower tag with
    | error e =>
      rw [hn] at this
      cases this
    | ok t => rfl
  have hstored : item.stored lower =
      item.tags.map fun tag => (normaliseTag lower tag).toOption.getD [] := by
    rw [Item.stored, ← List.filterMap_eq_map]
    refine List.filterMap_congr fun tag htag => ?_
    rw [hok tag htag]
    rfl
  rw [ensureTags, mapM_of_ok hok, Item.load, hstored]
  rfl

lemma ensureTags_of_not_accepts {item : Item} {tag : Text} (htag : tag ∈ item.tags)
    (h : Accepts lower tag = false) : (ensureTags lower item).toOption = none := by
  have hnone : (normaliseTag lower tag).toOption = none := by
    rw [Accepts] at h
    exact Option.isNone_iff_eq_none.mp (by simpa using h)
  have := mapM_of_error htag hnone
  rw [ensureTags]
  cases hm : item.tags.mapM (normaliseTag lower) with
  | error e => rfl
  | ok tags =>
    rw [hm] at this
    cases this

/-- A batch loads nothing if a tag is refused, and each item that has tags otherwise. -/
lemma loads_ensureTagsBatch : (Call.ensureTagsBatch items).loads lower =
    if ∀ b ∈ adds items, Accepts lower b.2.1 = true then
      (items.filter fun item => item.tags ≠ []).map (Item.load lower)
    else [] := by
  have hadds {item : Item} {tag : Text} (hitem : item ∈ items) (htag : tag ∈ item.tags) :
      (item.path, tag, item.now) ∈ adds items :=
    List.mem_flatMap.mpr ⟨item, hitem, List.mem_map_of_mem htag⟩
  rw [Call.loads, Call.plan, ensureTagsBatch]
  split_ifs with h
  · rw [mapM_of_ok fun item hitem => ensureTags_of_accepts fun tag htag =>
      h _ (hadds (List.mem_of_mem_filter hitem) htag)]
    rfl
  · push Not at h
    obtain ⟨b, hb, hnot⟩ := h
    obtain ⟨item, hitem, hb⟩ := List.mem_flatMap.mp hb
    obtain ⟨tag, htag, rfl⟩ := List.mem_map.mp hb
    have hmem : item ∈ items.filter fun item => item.tags ≠ [] :=
      List.mem_filter.mpr ⟨hitem, decide_eq_true (List.ne_nil_of_mem htag)⟩
    rw [mapM_of_error hmem (ensureTags_of_not_accepts htag (by simpa using hnot))]
    rfl

/-- The record that is made for an item. -/
def Item.record (lower : Text → Text) (db : Table) (item : Item) : FileTag :=
  { loadOrNew item.path (get db item.path) with
    tags := ((TagSet.ofList (tagsOf db item.path)).addAll (item.stored lower)).toList
    updatedAt := item.now }

lemma change_load (item : Item) : (item.load lower).change (get db item.path) =
    if item.Changes lower db then some (item.record lower db) else none := by
  have hiff : ((TagSet.ofList (tagsOf db item.path)).addAll (item.stored lower)).toList.length =
      (TagSet.ofList (tagsOf db item.path)).toList.length ↔ ¬ item.Changes lower db := by
    rw [TagSet.length_addAll_iff, Item.Changes]
    push Not
    exact forall₂_congr fun t _ => TagSet.mem_ofList
  rw [Item.load, ensured]
  dsimp only
  rw [tags_loadOrNew]
  by_cases h : item.Changes lower db
  · rw [if_neg fun heq => hiff.mp heq h, if_pos h, Item.record]
  · rw [if_pos (hiff.mpr h), if_neg h]

/-- Of the records that are written for one path, the last one stays. -/
lemma mem_tagsOf_loads (items : List Item) {t : Text} :
    t ∈ tagsOf (writeMany db ((items.map (Item.load lower)).filterMap fun load =>
        load.change (get db load.path))) path ↔
      t ∈ tagsOf db path ∨
        ∃ last, lastChanging lower db items path = some last ∧ t ∈ last.stored lower := by
  induction items using List.reverseRecOn with
  | nil => simp [writeMany, lastChanging]
  | append_singleton items item ih =>
    obtain ⟨rows, hrows⟩ : ∃ rows, rows = (items.map (Item.load lower)).filterMap fun load =>
      load.change (get db load.path) := ⟨_, rfl⟩
    have hrow := @change_load lower db item
    rw [List.map_append, List.filterMap_append, lastChanging, List.filter_append, ← hrows]
    rw [← hrows, lastChanging] at ih
    by_cases hc : item.Changes lower db
    · rw [if_pos hc] at hrow
      have hlast : (List.map (Item.load lower) [item]).filterMap
          (fun load => load.change (get db load.path)) = [item.record lower db] :=
        List.filterMap_cons_some hrow
      have hpath : (item.record lower db).path = item.path.text := path_loadOrNew item.path
      rw [hlast, writeMany_append, tagsOf_insert, hpath]
      by_cases hp : item.path = path
      · subst hp
        have hset : t ∈ (item.record lower db).tags ↔
            t ∈ tagsOf db item.path ∨ t ∈ item.stored lower :=
          TagSet.mem_addAll.trans (or_congr_left TagSet.mem_ofList)
        rw [if_pos rfl, hset]
        simp [hc]
      · rw [if_neg fun htext => hp (FsPath.ext htext), ih]
        simp [hp]
    · rw [if_neg hc] at hrow
      have hnone : (List.map (Item.load lower) [item]).filterMap
          (fun load => load.change (get db load.path)) = [] := List.filterMap_cons_none hrow
      rw [hnone, List.append_nil, ih]
      simp [hc]

/-- Items without tags change nothing. -/
lemma lastChanging_filter :
    lastChanging lower db (items.filter fun item => item.tags ≠ []) path =
      lastChanging lower db items path := by
  rw [lastChanging, lastChanging, List.filter_filter]
  congr 1
  refine List.filter_congr fun item _ => ?_
  rw [← Bool.decide_and]
  refine decide_eq_decide.mpr (and_iff_left_of_imp fun h => ?_)
  rintro hnil
  obtain ⟨tag, htag, -⟩ := h.2
  rw [Item.stored, hnil] at htag
  cases htag

/-- What a batch leaves. -/
lemma mem_tagsOf_ensureTagsBatch {t : Text} :
    t ∈ tagsOf (Call.alone lower db (.ensureTagsBatch items)) path ↔ t ∈ tagsOf db path ∨
      (∀ b ∈ adds items, Accepts lower b.2.1 = true) ∧
        ∃ last, lastChanging lower db items path = some last ∧ t ∈ last.stored lower := by
  rw [Call.alone, loads_ensureTagsBatch]
  by_cases h : ∀ b ∈ adds items, Accepts lower b.2.1 = true
  · rw [if_pos h, mem_tagsOf_loads, lastChanging_filter]
    exact or_congr_right (and_iff_right h).symm
  · rw [if_neg h]
    exact (or_iff_left fun hor => h hor.1).symm

lemma normaliseTag_of_toOption {tag t : Text} (h : (normaliseTag lower tag).toOption = some t) :
    normaliseTag lower tag = .ok t := by
  cases hn : normaliseTag lower tag with
  | error e =>
    rw [hn] at h
    cases h
  | ok s =>
    rw [hn] at h
    rw [Option.some.inj h]

/-- A batch leaves the tags that adding them one by one does exactly if it is settled. -/
lemma ensureTagsBatch_iff (db : Table) (items : List Item) :
    (∀ path t, t ∈ tagsOf (Call.alone lower db (.ensureTagsBatch items)) path ↔
        t ∈ tagsOf (addEach lower (adds items) db) path) ↔ Settled lower db items := by
  simp only [mem_tagsOf_ensureTagsBatch, mem_tagsOf_addEach]
  constructor
  · intro h a ha tag htag
    exact (h a.1 tag).mpr (.inr ⟨a, ha, rfl, htag⟩)
  · intro h path t
    constructor
    · rintro (hin | ⟨hall, last, hlast, ht⟩)
      · exact .inl hin
      · have hmem := List.mem_of_getLast? hlast
        obtain ⟨hitem, hprop⟩ := List.mem_filter.mp hmem
        obtain ⟨tag, htag, hstored⟩ := List.mem_filterMap.mp ht
        have hadd : (last.path, tag, last.now) ∈ adds items :=
          List.mem_flatMap.mpr ⟨last, hitem, List.mem_map_of_mem htag⟩
        refine .inr ⟨(last.path, tag, last.now), ?_, (of_decide_eq_true hprop).1,
          normaliseTag_of_toOption hstored⟩
        rw [List.takeWhile_eq_self_iff.mpr hall]
        exact hadd
    · rintro (hin | ⟨a, ha, rfl, ht⟩)
      · exact .inl hin
      · exact h a ha t ht

end Batches

/-- Where every write is fresh, the calls of a run have the effect of running them one after the
other in some order; and a batch has that of adding its tags one by one exactly if it is settled. -/
theorem tags_serial (lower : Text → Text) :
    (∀ (db : Table) (es : List (Event Call Unit)) (q : Manager),
      Pool.run (enter lower) step ⟨db, [], []⟩ es = some q → q.tasks = [] →
      Pool.EachStep (enter lower) step Fresh ⟨db, [], []⟩ es →
        ∃ order : List Call, order.Perm (started es) ∧
          ∀ path, get q.shared path = get (order.foldl (Call.alone lower) db) path) ∧
    ∀ (db : Table) (items : List Item),
      (∀ path t, t ∈ tagsOf (Call.alone lower db (.ensureTagsBatch items)) path ↔
        t ∈ tagsOf (addEach lower (adds items) db) path) ↔ Settled lower db items :=
  ⟨fun _ _ _ h htasks hfresh => serial_of_fresh h hfresh htasks, ensureTagsBatch_iff⟩

/-- The path of the examples. -/
def samplePath : FsPath := ⟨"local:/a".toList⟩

/-- Two calls for one path start together; the second loads what the first has written. -/
def sampleRun : List (Event Call Unit) :=
  [.start (.addTag samplePath "T".toList 2), .start (.setStarred samplePath true 1), .step 0 (),
    .step 0 (), .step 0 (), .step 0 ()]

/-- The table after it. -/
def sampleTable : Table :=
  (writeMany KeyedMap.empty [⟨samplePath.text, [], none, true, 1⟩]).insert
    ⟨samplePath.text, ["t".toList], none, true, 2⟩

/-- The tag joins the star. -/
theorem tags_serial_sample :
    (∃ order : List Call, order.Perm (started sampleRun) ∧
      ∀ path, get sampleTable path =
        get (order.foldl (Call.alone (List.map Char.toLower)) KeyedMap.empty) path) ∧
    get sampleTable samplePath = some ⟨samplePath.text, ["t".toList], none, true, 2⟩ := by
  have hrun := (Option.some_get (x := Pool.run (enter (List.map Char.toLower)) step
    ⟨KeyedMap.empty, [], []⟩ sampleRun) rfl).symm
  refine ⟨(tags_serial (List.map Char.toLower)).1 KeyedMap.empty sampleRun _ hrun rfl ?_, rfl⟩
  refine ⟨trivial, fun m hm => ⟨trivial, fun m hm' => ?_⟩⟩
  cases hm
  cases hm'
  refine ⟨fun t ht hloads => ?_, fun m hm => ⟨fun t ht _ x hx => ?_, fun m' hm' => ?_⟩⟩
  · cases ht
    cases hloads
  · cases hm
    cases ht
    obtain rfl := List.mem_singleton.mp hx
    rfl
  cases hm
  cases hm'
  refine ⟨fun t ht hloads => ?_, fun m hm => ⟨fun t ht _ x hx => ?_, fun _ _ => trivial⟩⟩
  · cases ht
    cases hloads
  · cases hm
    cases ht
    obtain rfl := List.mem_singleton.mp hx
    rfl

/-- Of two calls that load before either of them writes, the first is lost; so is the first item of
a batch with two for one path. -/
theorem not_tags_serial :
    ¬ (∀ (lower : Text → Text) (db : Table) (es : List (Event Call Unit)) (q : Manager),
      Pool.run (enter lower) step ⟨db, [], []⟩ es = some q → q.tasks = [] →
        ∃ order : List Call, order.Perm (started es) ∧
          ∀ path, get q.shared path = get (order.foldl (Call.alone lower) db) path) ∧
    ¬ ∀ (lower : Text → Text) (db : Table) (items : List Item) (path : FsPath) (t : Text),
      t ∈ tagsOf (Call.alone lower db (.ensureTagsBatch items)) path ↔
        t ∈ tagsOf (addEach lower (adds items) db) path := by
  constructor
  · intro h
    obtain ⟨order, hperm, hget⟩ := h (List.map Char.toLower) KeyedMap.empty
      [.start (.setStarred samplePath true 1), .start (.addTag samplePath "T".toList 2),
        .step 0 (), .step 1 (), .step 0 (), .step 0 ()] _ (Option.some_get rfl).symm rfl
    have hsample := hget samplePath
    rcases List.perm_pair.mp hperm with rfl | rfl
    · revert hsample
      decide
    · revert hsample
      decide
  · intro h
    have := (h (List.map Char.toLower) KeyedMap.empty
      [⟨samplePath, ["a".toList], 1⟩, ⟨samplePath, ["b".toList], 2⟩] samplePath "a".toList).mpr
    revert this
    decide

end Orchid.Fs.Tag
