import Orchid.Storage.WidgetRows

/-!
# Migrating widget rows

Rows of the old version are told from those of the new one by reading all of their bytes as the old
one. No row of the new version is read so, whatever its placement and its configuration are.
-/

namespace Orchid.Storage

open Lib Parser

/-! ### The migration -/

/-- The rows of the table of widgets, by the bytes of their keys. -/
abbrev WidgetTable := List (UuidBytes × Bytes)

/-- A row put in, in the place of the one that has its key. -/
def WidgetTable.insert (table : WidgetTable) (row : UuidBytes × Bytes) : WidgetTable :=
  if ∃ r ∈ table, r.1 = row.1 then table.map fun r => if r.1 = row.1 then row else r
  else table ++ [row]

/-- The errors of a migration. -/
inductive MigrationError
  | failed (source dest : ℕ) (reason : DecodeError)
  | unregistered (version : ℕ)
  | unsupported (found supportedMax : ℕ)
deriving DecidableEq

section Migrating

variable {T : Type} (k : Chrono T)

/-- What a row becomes, with its key. -/
def migrateRow (bytes : Bytes) : Except MigrationError (UuidBytes × Bytes) :=
  let v2 : Except DecodeError (WidgetInstance T) :=
    match decodeV1 k bytes with
    | .ok (v1, []) => .ok ⟨v1.front, .grid, v1.back⟩
    | _ => (decodeV2 k bytes).map Prod.fst
  match v2 with
  | .ok v2 => .ok (v2.front.id, encodeV2 k v2)
  | .error e => .error (.failed 1 2 e)

/-- `migrate_v1_to_v2_window_placement`; there may be no table. -/
def migrateV1ToV2WindowPlacement :
    Option WidgetTable → Except MigrationError (Option WidgetTable)
  | none => .ok none
  | some table => do
    let upgraded ← table.mapM fun row => migrateRow k row.2
    return some (upgraded.foldl WidgetTable.insert table)

/-- `CURRENT_SCHEMA_VERSION` -/
def currentSchemaVersion : ℕ := 2

structure MigrationStep where
  fromVersion : ℕ
  toVersion : ℕ
  run : Option WidgetTable → Except MigrationError (Option WidgetTable)

/-- `AVAILABLE` -/
def available : List MigrationStep :=
  [⟨0, 1, .ok⟩, ⟨1, 2, migrateV1ToV2WindowPlacement k⟩]

/-- What the migrations read and write of a database. -/
structure Database where
  schemaVersion : Option ℕ
  widgets : Option WidgetTable
deriving DecidableEq

/-- The loop of `migrate`, each of whose steps is made at most once: the databases on the disk after
each commit, and the version that is reached. -/
def migrateLoop : ℕ → ℕ → Database → List Database × Except MigrationError ℕ
  | 0, version, _ => ([], .error (.unregistered version))
  | rounds + 1, version, db =>
    if currentSchemaVersion ≤ version then ([], .ok version)
    else
      match (available k).find? fun m => m.fromVersion = version with
      | none => ([], .error (.unregistered version))
      | some m =>
        match m.run db.widgets with
        | .error e => ([], .error e)
        | .ok widgets =>
          let db := { db with widgets }
          let (commits, reached) := migrateLoop rounds m.toVersion db
          (db :: commits, reached)

/-- `migrate` -/
def migrate (db : Database) (current : ℕ) : List Database × Except MigrationError ℕ :=
  if currentSchemaVersion < current then
    ([], .error (.unsupported current currentSchemaVersion))
  else migrateLoop k ((available k).length + 1) current db

/-- `initialise`: the databases on the disk after each of its commits. -/
def initialise (db : Database) : List Database :=
  match db.schemaVersion with
  | none => [{ db with schemaVersion := some currentSchemaVersion }]
  | some version =>
    let (commits, reached) := migrate k db version
    match reached with
    | .error _ => commits
    | .ok version => commits ++ [{ commits.getLastD db with schemaVersion := some version }]

end Migrating

variable {T : Type} {k : Chrono T} {f : Front} {b : Back T}

/-! ### New rows are not old ones -/

lemma length_encodeF32 (f : F32) : (encodeF32 f).length = 4 := length_le 4 f.toNat

lemma length_encodeRect (r : PixelRect) : (encodeRect r).length = 16 := by
  simp only [encodeRect, List.length_append, length_encodeF32]

/-- A window's state is one of the first three control characters. -/
lemma encodeWindowState_eq (s : WindowState) : ∃ c : U8, encodeWindowState s = [c] ∧ c.val < 3 := by
  cases s <;> exact ⟨_, rfl, by decide⟩

/-- What was taken for a slice. -/
lemma decodeSlice_eq_ok {s s' bytes : Bytes} (h : decodeSlice s = .ok (bytes, s')) :
    ∃ c code, s = c :: code ++ (bytes ++ s') ∧ code.length ≤ 8 ∧
      (c.val < 251 → code = [] ∧ bytes.length = c.val) := by
  obtain ⟨n, r, hn, htake⟩ := bind_eq_ok h
  obtain ⟨c, code, rfl, hcode, hsmall⟩ := readVarint_eq_ok hn
  obtain ⟨rfl, rfl⟩ := take_eq_ok htake
  exact ⟨c, code, rfl, hcode, hsmall⟩

lemma decodeTime_eq_ok {s s' : Bytes} {t : T} (h : decodeTime k s = .ok (t, s')) :
    ∃ bytes, decodeSlice s = .ok (bytes, s') ∧ k.parse bytes = some t := by
  obtain ⟨bytes, r, hslice, h⟩ := bind_eq_ok h
  cases hparse : k.parse bytes with
  | none =>
    rw [hparse] at h
    cases h
  | some t' =>
    rw [hparse] at h
    obtain ⟨rfl, rfl⟩ := Prod.mk.inj (Except.ok.inj h)
    exact ⟨bytes, hslice, hparse⟩

lemma length_encodeSlice (bytes : Bytes) : bytes.length < (encodeSlice bytes).length := by
  rw [encodeSlice, List.length_append]
  exact Nat.lt_add_of_pos_left (length_varint_pos _)

lemma encodeSlice_ne_nil (bytes : Bytes) : encodeSlice bytes ≠ [] :=
  List.ne_nil_of_length_pos ((Nat.zero_le _).trans_lt (length_encodeSlice bytes))

/-- No byte of white space is a `Z`. -/
lemma notMem_utf8Bytes_of_space {ws : Text} (h : ∀ c ∈ ws, isWhitespace c = true) :
    0x5a ∉ utf8Bytes ws := by
  have hcodes : ∀ n ∈ [9, 10, 11, 12, 13, 0x20, 0x85, 0xA0, 0x1680, 0x2000, 0x2001, 0x2002, 0x2003,
      0x2004, 0x2005, 0x2006, 0x2007, 0x2008, 0x2009, 0x200A, 0x2028, 0x2029, 0x202F, 0x205F,
      0x3000], 0x5a ∉ utf8Bytes [Char.ofNat n] := by
    decide
  intro hmem
  rw [utf8Bytes, List.map_flatMap, List.mem_flatMap] at hmem
  obtain ⟨c, hc, hbyte⟩ := hmem
  refine hcodes c.toNat ?_ ?_
  · have hspace := h c hc
    simp only [isWhitespace, Bool.or_eq_true, Bool.and_eq_true, decide_eq_true_eq,
      beq_iff_eq] at hspace
    simp only [List.mem_cons, List.not_mem_nil, or_false]
    omega
  · rw [Char.ofNat_toNat, utf8Bytes, List.flatMap_singleton]
    exact hbyte

/-- The times behind a configuration: no suffix that begins in its first bytes is read as a time,
since the end of the first one is in it. -/
lemma parse_suffix_encodeBack {front bytes : Bytes} (h : front ++ bytes = encodeBack k b)
    (hfront : front.length ≤ 20) : k.parse bytes = none := by
  cases hparse : k.parse bytes with
  | none => rfl
  | some t =>
    exfalso
    obtain ⟨stem, hstem⟩ : ∃ stem, k.written b.createdAt = stem ++ [0x5a] :=
      List.getLast?_eq_some_iff.mp (k.getLast?_written b.createdAt)
    have hlong := (k.length_written b.createdAt).1
    have hsplit : encodeBack k b = (encodeSlice b.config ++
        (varint (k.written b.createdAt).length ++ stem)) ++
          ([0x5a] ++ encodeSlice (k.written b.updatedAt)) := by
      have hcreated : encodeSlice (k.written b.createdAt) =
          varint (k.written b.createdAt).length ++ (stem ++ [0x5a]) := by
        rw [← hstem]
        rfl
      rw [encodeBack, hcreated]
      simp only [List.append_assoc]
    have hlength : front.length ≤ (encodeSlice b.config ++
        (varint (k.written b.createdAt).length ++ stem)).length := by
      have hconfig := length_encodeSlice b.config
      have hvarint := length_varint_pos (k.written b.createdAt).length
      rw [hstem, List.length_append, List.length_singleton] at hlong
      simp only [List.length_append]
      omega
    rw [hsplit] at h
    obtain ⟨mid, hmid, hbytes⟩ : ∃ mid, encodeSlice b.config ++
        (varint (k.written b.createdAt).length ++ stem) = front ++ mid ∧
          bytes = mid ++ ([0x5a] ++ encodeSlice (k.written b.updatedAt)) := by
      rcases List.append_eq_append_iff.mp h with ⟨mid, hmid, hbytes⟩ | ⟨mid, hmid, hbytes⟩
      · exact ⟨mid, hmid, hbytes⟩
      · have hnil : mid = [] := by
          refine List.eq_nil_of_length_eq_zero ?_
          rw [hmid, List.length_append] at hlength
          omega
        subst hnil
        exact ⟨[], by rw [hmid, List.append_nil, List.append_nil], hbytes.symm⟩
    -- the second time stands behind the end of the first one, and is no white space
    rw [hbytes, List.singleton_append] at hparse
    obtain ⟨ws, hws, hspace⟩ := k.space_of_parse hparse
    refine notMem_utf8Bytes_of_space hspace (hws ▸ ?_)
    exact List.mem_append_right _ (List.mem_of_getLast? (k.getLast?_written b.updatedAt))

/-- Parts that end before an element that is not in the last of them. -/
lemma exists_rest_of_notMem {α : Type} {head bytes rest front back : List α} {c : α}
    (h : front ++ c :: back = head ++ bytes ++ rest) (hc : c ∉ bytes)
    (hlength : head.length ≤ front.length) :
    ∃ mid, front = head ++ bytes ++ mid ∧ mid ++ c :: back = rest := by
  by_cases hle : (head ++ bytes).length ≤ front.length
  · have hprefix : head ++ bytes <+: front ++ c :: back := h ▸ List.prefix_append _ _
    obtain ⟨mid, rfl⟩ := List.prefix_of_prefix_length_le hprefix (List.prefix_append _ _) hle
    rw [List.append_assoc (head ++ bytes)] at h
    exact ⟨mid, rfl, List.append_cancel_left h⟩
  · refine absurd ?_ hc
    have hget : (front ++ c :: back)[front.length]? = some c := by
      rw [List.getElem?_append_right le_rfl, Nat.sub_self]
      rfl
    rw [h, List.getElem?_append_left (not_le.mp hle), List.getElem?_append_right hlength] at hget
    exact List.mem_of_getElem? hget

/-- The bytes behind the first one of the bounds, a window's state and the rest are not two
times. -/
lemma not_two_times {bounds : Bytes} {c : U8} (hbounds : 9 ≤ bounds.length) (hc : c.val < 3)
    {t : T} {s : Bytes} {u : T}
    (ht : decodeTime k (bounds ++ (c :: encodeBack k b)) = .ok (t, s)) :
    decodeTime k s ≠ .ok (u, []) := by
  intro hu
  obtain ⟨bytes₁, hslice₁, hparse₁⟩ := decodeTime_eq_ok ht
  obtain ⟨bytes₂, hslice₂, hparse₂⟩ := decodeTime_eq_ok hu
  obtain ⟨c₁, code₁, hsplit₁, hcode₁, -⟩ := decodeSlice_eq_ok hslice₁
  obtain ⟨c₂, code₂, rfl, hcode₂, hsmall₂⟩ := decodeSlice_eq_ok hslice₂
  have hnot₁ : c ∉ bytes₁ := fun h => absurd (k.le_of_parse hparse₁ c h) (not_le.mpr hc)
  have hnot₂ : c ∉ bytes₂ := fun h => absurd (k.le_of_parse hparse₂ c h) (not_le.mpr hc)
  -- the state is in neither time, so it is behind the first one
  obtain ⟨mid, -, hmid⟩ := exists_rest_of_notMem
    (hsplit₁.trans (List.append_assoc _ _ _).symm) hnot₁ (by rw [List.length_cons]; omega)
  rw [List.append_nil] at hmid
  rcases mid with _ | ⟨x, mid⟩
  · -- it is the length of the second time, which is too short then
    obtain ⟨rfl, hback⟩ := List.cons.inj hmid
    obtain ⟨rfl, hlength⟩ := hsmall₂ (hc.trans (by decide))
    have hlong := (k.length_written b.createdAt).1
    have hslice := length_encodeSlice (k.written b.createdAt)
    have hsum : (encodeBack k b).length = bytes₂.length := congrArg List.length hback
    rw [encodeBack, List.length_append, List.length_append] at hsum
    omega
  · obtain ⟨rfl, htail⟩ := List.cons.inj hmid
    have htail : mid ++ c :: encodeBack k b = code₂ ++ bytes₂ := htail
    by_cases hle : code₂.length ≤ mid.length
    · -- the second time would end before it
      obtain ⟨rest, -, hrest⟩ := exists_rest_of_notMem
        (htail.trans (List.append_nil (code₂ ++ bytes₂)).symm) hnot₂ hle
      exact absurd hrest (List.append_ne_nil_of_right_ne_nil _ (List.cons_ne_nil _ _))
    · -- it is one of the bytes of the length, and the second time has the end of the other in it
      have hprefix : mid ++ [c] <+: code₂ ++ bytes₂ := by
        rw [← htail, List.append_cons mid c (encodeBack k b)]
        exact List.prefix_append _ _
      obtain ⟨front, rfl⟩ := List.prefix_of_prefix_length_le hprefix (List.prefix_append _ _)
        (by rw [List.length_append, List.length_singleton]; omega)
      have hback : front ++ bytes₂ = encodeBack k b := by
        rw [List.append_cons mid c, List.append_assoc (mid ++ [c])] at htail
        exact (List.append_cancel_left htail).symm
      rw [parse_suffix_encodeBack hback (by
        rw [List.length_append, List.length_append] at hcode₂; omega)] at hparse₂
      cases hparse₂

/-- A row of the new version is never read completely as one of the old. -/
lemma decodeV1_encodeV2 (h : Fits f b) (p : WindowPlacement) {x : WidgetInstanceV1 T}
    {rest : Bytes} (hread : decodeV1 k (encodeV2 k ⟨f, p, b⟩) = .ok (x, rest)) : rest ≠ [] := by
  rintro rfl
  have hread : (decodeBack k >>= fun back => pure (WidgetInstanceV1.mk f back))
      (encodePlacement p ++ encodeBack k b) = .ok (x, []) :=
    ((reads_front h.widgetType).bind_append _ _).symm.trans hread
  obtain ⟨back, r, hback, hpure⟩ := bind_eq_ok hread
  obtain ⟨-, rfl⟩ := Prod.mk.inj (Except.ok.inj hpure)
  obtain ⟨config, s₁, hconfig, hback⟩ := bind_eq_ok hback
  obtain ⟨created, s₂, hcreated, hback⟩ := bind_eq_ok hback
  obtain ⟨updated, s₃, hupdated, hpure⟩ := bind_eq_ok hback
  obtain ⟨-, rfl⟩ := Prod.mk.inj (Except.ok.inj hpure)
  cases p with
  | grid =>
    have hnone : Reads decodeSlice [] (varint 0) := reads_slice [] (by decide)
    obtain ⟨rfl, rfl⟩ := Prod.mk.inj (Except.ok.inj ((hnone _).symm.trans hconfig))
    obtain ⟨bytes, hslice, -⟩ := decodeTime_eq_ok hcreated
    obtain ⟨rfl, rfl⟩ := Prod.mk.inj (Except.ok.inj ((reads_slice _ h.config _).symm.trans hslice))
    obtain ⟨rfl, hnil⟩ := Prod.mk.inj (Except.ok.inj ((reads_time _ _).symm.trans hupdated))
    exact encodeSlice_ne_nil _ hnil
  | floating bounds restoredBounds state =>
    obtain ⟨c, hstate, hc⟩ := encodeWindowState_eq state
    obtain ⟨y, tail, htail⟩ : ∃ y tail, encodeRect bounds = y :: tail :=
      List.exists_cons_of_length_pos (by rw [length_encodeRect]; decide)
    have hone : Reads decodeSlice [y] (varint 1 ++ [y]) :=
      reads_slice [y] (by rw [List.length_singleton]; decide)
    have hbytes : encodePlacement (.floating bounds restoredBounds state) ++ encodeBack k b =
        (varint 1 ++ [y]) ++ (tail ++ encodeRect restoredBounds ++ (c :: encodeBack k b)) := by
      simp only [encodePlacement, htail, hstate, List.append_assoc, List.cons_append,
        List.nil_append]
    rw [hbytes] at hconfig
    obtain ⟨rfl, rfl⟩ := Prod.mk.inj (Except.ok.inj ((hone _).symm.trans hconfig))
    refine not_two_times ?_ hc hcreated hupdated
    rw [List.length_append, length_encodeRect]
    omega

/-! ### Tables -/

/-- The instance of a row, of either version. -/
inductive Saved (T : Type)
  | v1 (x : WidgetInstanceV1 T)
  | v2 (x : WidgetInstance T)

namespace Saved

/-- The instance in the new version: an old one is on the grid. -/
def latest : Saved T → WidgetInstance T
  | v1 x => ⟨x.front, .grid, x.back⟩
  | v2 x => x

/-- The row as it is stored, under the id of its instance. -/
def row (k : Chrono T) : Saved T → UuidBytes × Bytes
  | v1 x => (x.front.id, encodeV1 k x)
  | v2 x => (x.front.id, encodeV2 k x)

/-- The row in the new version. -/
def upgraded (x : Saved T) : Saved T := .v2 x.latest

end Saved

/-- The instances of a table, of distinct ids and with slices that have their lengths in 64 bits. -/
structure SavedTable (T : Type) where
  saved : List (Saved T)
  fits : ∀ x ∈ saved, Fits x.latest.front x.latest.back
  nodup : (saved.map fun x => x.latest.front.id).Nodup

/-- The rows of a table. -/
def SavedTable.rows (t : SavedTable T) (k : Chrono T) : WidgetTable := t.saved.map (Saved.row k)

/-- The table in the new version. -/
def SavedTable.upgraded (t : SavedTable T) : SavedTable T where
  saved := t.saved.map Saved.upgraded
  fits := by
    intro x hx
    obtain ⟨y, hy, rfl⟩ := List.mem_map.mp hx
    exact t.fits y hy
  nodup := by
    rw [List.map_map]
    exact t.nodup

lemma row_fst (x : Saved T) : (x.row k).1 = x.latest.front.id := by
  cases x <;> rfl

/-- Every row becomes that of its instance in the new version. -/
lemma migrateRow_row {x : Saved T} (h : Fits x.latest.front x.latest.back) :
    migrateRow k (x.row k).2 = .ok (x.upgraded.row k) := by
  cases x with
  | v1 x =>
    have hread := decodeV1_encodeV1 (k := k) h []
    rw [List.append_nil] at hread
    have hread : decodeV1 k (encodeV1 k x) = .ok (x, []) := hread
    simp only [Saved.row, migrateRow, hread]
    rfl
  | v2 x =>
    have hread := decodeV2_encodeV2 (k := k) h x.placement []
    rw [List.append_nil] at hread
    have hread : decodeV2 k (encodeV2 k x) = .ok (x, []) := hread
    have hnot : ∀ y rest, decodeV1 k (encodeV2 k x) = .ok (y, rest) → rest ≠ [] :=
      fun y rest => decodeV1_encodeV2 h x.placement
    have hcases : (match decodeV1 k (encodeV2 k x) with
        | .ok (v1, []) => (.ok ⟨v1.front, .grid, v1.back⟩ : Except DecodeError (WidgetInstance T))
        | _ => (decodeV2 k (encodeV2 k x)).map Prod.fst) = .ok x := by
      split
      · rename_i v1 hv1
        exact absurd rfl (hnot _ _ hv1)
      · rw [hread]
        rfl
    simp only [Saved.row, migrateRow, hcases]
    rfl

/-- A row put in where its key is. -/
lemma insert_append_cons {front back : WidgetTable} {old new : UuidBytes × Bytes}
    (hkey : old.1 = new.1) (hnodup : ((front ++ old :: back).map Prod.fst).Nodup) :
    WidgetTable.insert (front ++ old :: back) new = front ++ new :: back := by
  have hmem : ∃ r ∈ front ++ old :: back, r.1 = new.1 :=
    ⟨old, List.mem_append_right _ List.mem_cons_self, hkey⟩
  rw [List.map_append, List.map_cons, List.nodup_append] at hnodup
  obtain ⟨-, hback, hapart⟩ := hnodup
  have hkeep : ∀ l : WidgetTable, (∀ r ∈ l, r.1 ≠ new.1) →
      (l.map fun r => if r.1 = new.1 then new else r) = l := by
    intro l hl
    exact (List.map_congr_left fun r hr => if_neg (hl r hr)).trans (List.map_id l)
  rw [WidgetTable.insert, if_pos hmem, List.map_append, List.map_cons, if_pos hkey, hkeep front,
    hkeep back]
  · intro r hr heq
    exact (List.nodup_cons.mp hback).1 (hkey.trans heq.symm ▸ List.mem_map_of_mem hr)
  · intro r hr heq
    exact hapart r.1 (List.mem_map_of_mem hr) old.1 List.mem_cons_self (heq.trans hkey.symm)

/-- New rows with the keys of the old ones take their places. -/
lemma foldl_insert {old new : WidgetTable} (front : WidgetTable)
    (hkeys : old.map Prod.fst = new.map Prod.fst)
    (hnodup : ((front ++ old).map Prod.fst).Nodup) :
    new.foldl WidgetTable.insert (front ++ old) = front ++ new := by
  induction new generalizing front old with
  | nil =>
    obtain rfl := List.map_eq_nil_iff.mp hkeys
    rfl
  | cons n new ih =>
    obtain ⟨o, old, rfl⟩ : ∃ o rest, old = o :: rest :=
      List.exists_cons_of_ne_nil (by rintro rfl; cases hkeys)
    obtain ⟨hkey, hkeys⟩ := List.cons.inj hkeys
    rw [List.foldl_cons, insert_append_cons hkey hnodup, List.append_cons, ih _ hkeys]
    · rw [List.append_assoc]
      rfl
    · have hsame : (front ++ [n] ++ old).map Prod.fst = (front ++ o :: old).map Prod.fst := by
        simp [show n.1 = o.1 from hkey.symm]
      rwa [hsame]

/-- The table becomes that of its instances in the new version. -/
lemma migrate_rows (t : SavedTable T) :
    migrateV1ToV2WindowPlacement k (some (t.rows k)) = .ok (some (t.upgraded.rows k)) := by
  have hmap : (t.rows k).mapM (fun row => migrateRow k row.2) = .ok (t.upgraded.rows k) := by
    have hrows : ∀ l : List (Saved T), (∀ x ∈ l, Fits x.latest.front x.latest.back) →
        (l.map (Saved.row k)).mapM (fun row => migrateRow k row.2) =
          .ok ((l.map Saved.upgraded).map (Saved.row k)) := by
      intro l hl
      induction l with
      | nil => rfl
      | cons x l ih =>
        rw [List.map_cons, List.mapM_cons, migrateRow_row (hl x List.mem_cons_self),
          ih fun y hy => hl y (List.mem_cons_of_mem _ hy)]
        rfl
    exact hrows t.saved t.fits
  have hkeys : (t.rows k).map Prod.fst = (t.upgraded.rows k).map Prod.fst := by
    simp only [SavedTable.rows, SavedTable.upgraded, List.map_map]
    exact List.map_congr_left fun x _ => by
      simp only [Function.comp_apply, row_fst]
      rfl
  have hnodup : ((t.rows k).map Prod.fst).Nodup := by
    rw [SavedTable.rows, List.map_map]
    exact (List.map_congr_left fun x _ => row_fst x) ▸ t.nodup
  rw [migrateV1ToV2WindowPlacement, hmap]
  have hfold := foldl_insert [] hkeys hnodup
  rw [List.nil_append, List.nil_append] at hfold
  exact congrArg (fun rows => Except.ok (some rows)) hfold

/-! ### Opening a database -/

lemma upgraded_upgraded (t : SavedTable T) : t.upgraded.upgraded.rows k = t.upgraded.rows k := by
  simp only [SavedTable.rows, SavedTable.upgraded, List.map_map]
  rfl

/-- The database when it is migrated. -/
def SavedTable.final (t : SavedTable T) (k : Chrono T) : Database :=
  ⟨some currentSchemaVersion, some (t.upgraded.rows k)⟩

lemma initialise_one (t : SavedTable T) : initialise k ⟨some 1, some (t.rows k)⟩ =
    [⟨some 1, some (t.upgraded.rows k)⟩, t.final k] := by
  have hloop : migrateLoop k 3 1 ⟨some 1, some (t.rows k)⟩ =
      ([⟨some 1, some (t.upgraded.rows k)⟩], .ok 2) := by
    rw [migrateLoop, if_neg (by decide)]
    have hfind : (available k).find? (fun m => m.fromVersion = 1) =
        some ⟨1, 2, migrateV1ToV2WindowPlacement k⟩ := rfl
    simp only [hfind, migrate_rows]
    rfl
  rw [initialise]
  dsimp only
  rw [migrate, if_neg (by decide), show (available k).length + 1 = 3 from rfl, hloop]
  rfl

lemma initialise_zero (t : SavedTable T) : initialise k ⟨some 0, some (t.rows k)⟩ =
    [⟨some 0, some (t.rows k)⟩, ⟨some 0, some (t.upgraded.rows k)⟩, t.final k] := by
  have hloop : migrateLoop k 3 0 ⟨some 0, some (t.rows k)⟩ =
      ([⟨some 0, some (t.rows k)⟩, ⟨some 0, some (t.upgraded.rows k)⟩], .ok 2) := by
    rw [migrateLoop, if_neg (by decide)]
    have hzero : (available k).find? (fun m => m.fromVersion = 0) = some ⟨0, 1, .ok⟩ := rfl
    have hone : (available k).find? (fun m => m.fromVersion = 1) =
        some ⟨1, 2, migrateV1ToV2WindowPlacement k⟩ := rfl
    simp only [hzero]
    rw [migrateLoop, if_neg (by decide)]
    simp only [hone, migrate_rows]
    rfl
  rw [initialise]
  dsimp only
  rw [migrate, if_neg (by decide), show (available k).length + 1 = 3 from rfl, hloop]
  rfl

/-- What the migration promises for a table of rows of either version: it keeps the ids, puts the
old instances on the grid, leaves the new rows as they are, changes nothing when it is run again,
and a database that is opened again after a crash between any two commits ends up the same. -/
structure Migrated (k : Chrono T) (t : SavedTable T) : Prop where
  run : migrateV1ToV2WindowPlacement k (some (t.rows k)) = .ok (some (t.upgraded.rows k))
  again : migrateV1ToV2WindowPlacement k (some (t.upgraded.rows k)) =
    .ok (some (t.upgraded.rows k))
  ids : (t.upgraded.rows k).map Prod.fst = (t.rows k).map Prod.fst
  old : ∀ x, Saved.v1 x ∈ t.saved →
    (x.front.id, encodeV2 k ⟨x.front, .grid, x.back⟩) ∈ t.upgraded.rows k
  new : ∀ x, Saved.v2 x ∈ t.saved →
    (x.front.id, encodeV2 k x) ∈ t.rows k ∧ (x.front.id, encodeV2 k x) ∈ t.upgraded.rows k
  opened : ∀ version < currentSchemaVersion,
    (initialise k ⟨some version, some (t.rows k)⟩).getLast? = some (t.final k) ∧
      ∀ db ∈ initialise k ⟨some version, some (t.rows k)⟩,
        (initialise k db).getLast? = some (t.final k)

/-- Every table of rows of either version is migrated. -/
theorem migrated (k : Chrono T) (t : SavedTable T) : Migrated k t where
  run := migrate_rows t
  again := by
    rw [migrate_rows, upgraded_upgraded]
  ids := by
    simp only [SavedTable.rows, SavedTable.upgraded, List.map_map]
    exact List.map_congr_left fun x _ => by
      simp only [Function.comp_apply, row_fst]
      rfl
  old x hx := List.mem_map_of_mem (f := Saved.row k) (List.mem_map_of_mem (f := Saved.upgraded) hx)
  new x hx := ⟨List.mem_map_of_mem (f := Saved.row k) hx,
    List.mem_map_of_mem (f := Saved.row k) (List.mem_map_of_mem (f := Saved.upgraded) hx)⟩
  opened := by
    intro version hversion
    have hone := initialise_one (k := k) t.upgraded
    have hfinal : t.upgraded.final k = t.final k := by
      rw [SavedTable.final, upgraded_upgraded]
      rfl
    rw [upgraded_upgraded, hfinal] at hone
    have hzero := initialise_zero (k := k) t.upgraded
    rw [upgraded_upgraded, hfinal] at hzero
    have hlast : (initialise k (t.final k)).getLast? = some (t.final k) := rfl
    have hcases : version = 0 ∨ version = 1 := by
      have hversion : version < 2 := hversion
      omega
    rcases hcases with rfl | rfl
    · rw [initialise_zero]
      refine ⟨rfl, fun db hdb => ?_⟩
      simp only [List.mem_cons, List.not_mem_nil, or_false] at hdb
      rcases hdb with rfl | rfl | rfl
      · rw [initialise_zero]
        rfl
      · rw [hzero]
        rfl
      · exact hlast
    · rw [initialise_one]
      refine ⟨rfl, fun db hdb => ?_⟩
      simp only [List.mem_cons, List.not_mem_nil, or_false] at hdb
      rcases hdb with rfl | rfl
      · rw [hone]
        rfl
      · exact hlast

/-- The first ten seconds of a year, in the form in which they are written. -/
def secondBytes (n : Fin 10) : Bytes :=
  (utf8Bytes "2026-01-01T00:00:0".toList) ++ [Fin.ofNat (2 ^ 8) (48 + n), 0x5a]

lemma eq_secondBytes {s : Bytes} {n : Fin 10}
    (h : (List.finRange 10).find? (fun n => secondBytes n = s) = some n) : s = secondBytes n := by
  have hsome := List.find?_some h
  exact (of_decide_eq_true hsome).symm

lemma secondBytes_injective {n m : Fin 10} (h : secondBytes n = secondBytes m) : n = m := by
  have hend := List.append_cancel_left h
  have hdigit := congrArg Fin.val (List.cons.inj hend).1
  simp only [Fin.val_ofNat] at hdigit
  omega

lemma find?_secondBytes (n : Fin 10) :
    (List.finRange 10).find? (fun m => secondBytes m = secondBytes n) = some n := by
  cases hfind : (List.finRange 10).find? (fun m => secondBytes m = secondBytes n) with
  | none => exact absurd (decide_eq_true rfl) (List.find?_eq_none.mp hfind n (List.mem_finRange n))
  | some m => rw [secondBytes_injective (eq_secondBytes hfind)]

/-- Before its last byte a written time has digits, hyphens, colons and a T. -/
lemma mem_dropLast_secondBytes {n : Fin 10} {c : U8} (h : c ∈ (secondBytes n).dropLast) :
    3 ≤ c.val ∧ c.val < 0x5a := by
  have hsplit : (secondBytes n).dropLast =
      utf8Bytes "2026-01-01T00:00:0".toList ++ [Fin.ofNat (2 ^ 8) (48 + n)] := by
    rw [secondBytes, List.dropLast_append_of_ne_nil (List.cons_ne_nil _ _)]
    rfl
  rw [hsplit, List.mem_append, List.mem_singleton] at h
  rcases h with h | rfl
  · have hfront : ∀ c ∈ utf8Bytes "2026-01-01T00:00:0".toList, 3 ≤ c.val ∧ c.val < 0x5a := by
      decide +kernel
    exact hfront c h
  · simp only [Fin.val_ofNat]
    omega

/-- A clock that knows these. -/
def tenSeconds : Chrono (Fin 10) where
  written := secondBytes
  parse s := (List.finRange 10).find? fun n => secondBytes n = s
  parse_written := find?_secondBytes
  length_written := by decide
  getLast?_written := by decide
  le_of_parse := by
    intro s n h b hb
    obtain rfl := eq_secondBytes h
    have hsplit : (secondBytes n).dropLast ++ [0x5a] = secondBytes n := by
      rw [secondBytes, List.dropLast_append_of_ne_nil (List.cons_ne_nil _ _), List.append_assoc]
      rfl
    rw [← hsplit, List.mem_append, List.mem_singleton] at hb
    rcases hb with hb | rfl
    · exact (mem_dropLast_secondBytes hb).1
    · decide
  space_of_parse := by
    intro front back n h
    refine ⟨[], ?_, nofun⟩
    by_contra hne
    have hmem : 0x5a ∈ (secondBytes n).dropLast := by
      rw [← eq_secondBytes h, List.dropLast_append_of_ne_nil (List.cons_ne_nil _ _),
        List.dropLast_cons_of_ne_nil hne]
      exact List.mem_append_right _ List.mem_cons_self
    exact absurd (mem_dropLast_secondBytes hmem).2 (by decide)

/-- A window whose first bounds are bytes of a text. -/
def someWindow : WidgetInstance (Fin 10) where
  front := ⟨⟨List.replicate 16 7, rfl⟩, "moon".toList, ⟨List.replicate 16 9, rfl⟩, ⟨0, 0⟩, .small,
    .active⟩
  placement := .floating ⟨0x2d, 0, 0, 0⟩ ⟨0, 0, 0, 0⟩ .normal
  back := ⟨[1, 2, 3], .last 9, .last 9⟩

theorem migrated_someWindow : ∃ t : SavedTable (Fin 10),
    Saved.v2 someWindow ∈ t.saved ∧ Migrated tenSeconds t := by
  have hfits : Fits someWindow.front someWindow.back := ⟨by decide, by decide⟩
  have htable := migrated tenSeconds
    ⟨[.v2 someWindow], fun x hx => List.mem_singleton.mp hx ▸ hfits, List.nodup_singleton _⟩
  exact ⟨_, List.mem_singleton_self _, htable⟩

end Orchid.Storage
